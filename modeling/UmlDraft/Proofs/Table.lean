import Mathlib.Data.List.Induction
import UmlDraft.Table

/-!
# Tables made from lists

Setting the entries of a list one after the other gives each key the place of its first entry and
the value of its last. A list in which no key occurs twice is the list of entries of its table.
-/

namespace UmlDraft.Table

variable {α β γ : Type} [DecidableEq α]

theorem insertAll_append (t : Table α β) (es fs : List (α × β)) :
    t.insertAll (es ++ fs) = (t.insertAll es).insertAll fs := by
  simp only [insertAll, List.foldl_append]

theorem ofList_concat (es : List (α × β)) (e : α × β) :
    ofList (es ++ [e]) = (ofList es).insert e.1 e.2 := by
  simp only [ofList, insertAll_append]
  rfl

omit [DecidableEq α] in
/-- One more element is listed at the end, unless it is there. -/
theorem eraseDups_concat [BEq α] [LawfulBEq α] (xs : List α) (x : α) :
    (xs ++ [x]).eraseDups = if x ∈ xs.eraseDups then xs.eraseDups else xs.eraseDups ++ [x] := by
  rw [List.eraseDups_append]
  by_cases hx : x ∈ xs
  · rw [if_pos (List.mem_eraseDups.mpr hx)]
    simp [List.removeAll, hx]
  · rw [if_neg (hx ∘ List.mem_eraseDups.mp)]
    simp [List.removeAll, hx, List.eraseDups_cons]

theorem entries_ofList_singleton (k : α) (v : β) : (ofList [(k, v)]).entries = [(k, v)] :=
  rfl

/-- The keys of a table made from a list stand in the order of their first entries. -/
theorem keys_ofList (es : List (α × β)) : (ofList es).keys = (es.map Prod.fst).eraseDups := by
  induction es using List.reverseRecOn with
  | nil => rfl
  | append_singleton es e ih =>
    rw [ofList_concat, keys_insert, ih, List.map_append, List.map_singleton, eraseDups_concat]

/-- A look-up in a table made from a list gives the value of the last entry with the key. -/
theorem get?_ofList (es : List (α × β)) (k : α) :
    (ofList es).get? k = ((es.filter fun e => e.1 = k).getLast?).map Prod.snd := by
  induction es using List.reverseRecOn with
  | nil => rfl
  | append_singleton es e ih =>
    rw [ofList_concat, get?_insert, ih, List.filter_append]
    by_cases hk : k = e.1
    · simp [hk]
    · have hk' : ¬ e.1 = k := fun h => hk h.symm
      simp [hk, hk']

/-- After the entries of a list are set, a look-up gives what it gives in their table, and otherwise
what it gave before. -/
theorem get?_insertAll (t : Table α β) (es : List (α × β)) (k : α) :
    (t.insertAll es).get? k = ((ofList es).get? k).or (t.get? k) := by
  induction es using List.reverseRecOn with
  | nil => rfl
  | append_singleton es e ih =>
    rw [insertAll_append, ofList_concat, get?_insert]
    change ((t.insertAll es).insert e.1 e.2).get? k = _
    rw [get?_insert, ih]
    split
    · rfl
    · rfl

/-- A key has a value. -/
theorem mem_keys_iff {t : Table α β} {k : α} : k ∈ t.keys ↔ ∃ v, t.get? k = some v := by
  rw [← Option.ne_none_iff_exists', ne_eq, get?_eq_none_iff, not_not]

/-- What a look-up in a table made from a list gives is an entry of the list. -/
theorem mem_of_get?_ofList {es : List (α × β)} {k : α} {v : β} (h : (ofList es).get? k = some v) :
    (k, v) ∈ es := by
  rw [get?_ofList, Option.map_eq_some_iff] at h
  obtain ⟨e, he, rfl⟩ := h
  obtain ⟨hmem, hk⟩ := List.mem_filter.mp (List.mem_of_getLast? he)
  rw [← of_decide_eq_true hk]
  exact hmem

/-- An entry of a table is what a look-up of its key gives. -/
theorem mem_entries_iff {t : Table α β} {k : α} {v : β} :
    (k, v) ∈ t.entries ↔ t.get? k = some v := by
  obtain ⟨es, hn⟩ := t
  simp only [get?]
  induction es with
  | nil => simp
  | cons e es ih =>
    rw [List.map_cons, List.nodup_cons] at hn
    rw [Entries.lookup_cons, List.mem_cons]
    by_cases hk : k = e.1
    · have hv : (k, v) ∉ es := fun hm => hn.1 (hk ▸ List.mem_map_of_mem hm)
      rw [if_pos hk]
      simp only [hv, or_false, Option.some.injEq]
      constructor
      · rintro rfl
        rfl
      · rintro rfl
        rw [hk]
    · rw [if_neg hk, ← ih hn.2]
      constructor
      · rintro (rfl | hm)
        · exact absurd rfl hk
        · exact hm
      · exact Or.inr

theorem mem_values_of_get? {t : Table α β} {k : α} {v : β} (h : t.get? k = some v) :
    v ∈ t.values :=
  List.mem_map.mpr ⟨(k, v), mem_entries_iff.mpr h, rfl⟩

omit [DecidableEq α] in
/-- Where every value knows its key, the values say all of a table. -/
theorem entries_eq_map_values {t : Table α β} {key : β → α} (h : ∀ e ∈ t.entries, key e.2 = e.1) :
    t.entries = t.values.map fun v => (key v, v) := by
  rw [values, List.map_map]
  refine (List.map_id _).symm.trans (List.map_congr_left fun e he => ?_)
  exact Prod.ext (h e he).symm rfl

omit [DecidableEq α] in
/-- So tables with the same values are equal. -/
theorem eq_of_values {s t : Table α β} (key : β → α) (hs : ∀ e ∈ s.entries, key e.2 = e.1)
    (ht : ∀ e ∈ t.entries, key e.2 = e.1) (h : s.values = t.values) : s = t :=
  ext_entries (by rw [entries_eq_map_values hs, entries_eq_map_values ht, h])

theorem get?_mapValues (f : β → γ) (t : Table α β) (k : α) :
    (t.mapValues f).get? k = (t.get? k).map f := by
  simp only [get?, mapValues]
  induction t.entries with
  | nil => rfl
  | cons e es ih =>
    rw [List.map_cons, Entries.lookup_cons, Entries.lookup_cons, ih]
    by_cases hk : k = e.1
    · simp [hk]
    · simp [hk]

omit [DecidableEq α] in
theorem values_mapValues (f : β → γ) (t : Table α β) : (t.mapValues f).values = t.values.map f := by
  rw [values, values, mapValues, List.map_map, List.map_map]
  rfl

theorem put_map (f : β → γ) (k : α) (v : β) (es : List (α × β)) :
    Entries.put k (f v) (es.map fun e => (e.1, f e.2)) =
      (Entries.put k v es).map fun e => (e.1, f e.2) := by
  induction es with
  | nil => rfl
  | cons e es ih =>
    by_cases hk : e.1 = k
    · simp only [List.map_cons, Entries.put, if_pos hk]
    · simp only [List.map_cons, Entries.put, if_neg hk, ih]

/-- Applying a function to the values of a table made from a list is applying it to those of the
list. -/
theorem mapValues_ofList (f : β → γ) (es : List (α × β)) :
    (ofList es).mapValues f = ofList (es.map fun e => (e.1, f e.2)) := by
  induction es using List.reverseRecOn with
  | nil => rfl
  | append_singleton es e ih =>
    rw [List.map_append, List.map_singleton, ofList_concat, ofList_concat, ← ih]
    exact ext_entries (put_map f e.1 e.2 (ofList es).entries).symm

/-- Setting a key that is not there adds an entry at the end. -/
theorem put_of_not_mem {k : α} {es : List (α × β)} (h : k ∉ es.map Prod.fst) (v : β) :
    Entries.put k v es = es ++ [(k, v)] := by
  induction es with
  | nil => rfl
  | cons e es ih =>
    rw [List.map_cons, List.mem_cons, not_or] at h
    rw [Entries.put, if_neg (Ne.symm h.1), ih h.2, List.cons_append]

/-- A list in which no key occurs twice is the list of entries of its table. -/
theorem entries_ofList {es : List (α × β)} (h : (es.map Prod.fst).Nodup) :
    (ofList es).entries = es := by
  induction es using List.reverseRecOn with
  | nil => rfl
  | append_singleton es e ih =>
    rw [List.map_append, List.map_singleton, List.nodup_append] at h
    obtain ⟨hes, -, hdis⟩ := h
    have hnot : e.1 ∉ es.map Prod.fst := fun hm => hdis _ hm _ (List.mem_singleton_self _) rfl
    rw [ofList_concat, entries_insert, ih hes, put_of_not_mem hnot]

/-- Setting a key and then keeping some keys is setting it if it is kept. -/
theorem filter_put (p : α → Bool) (k : α) (v : β) (es : List (α × β)) :
    (Entries.put k v es).filter (fun e => p e.1) =
      if p k then Entries.put k v (es.filter fun e => p e.1) else es.filter fun e => p e.1 := by
  induction es with
  | nil =>
    cases hp : p k with
    | false => simp [Entries.put, hp]
    | true => simp [Entries.put, hp]
  | cons e es ih =>
    by_cases hk : e.1 = k
    · cases hp : p k with
      | false => simp [Entries.put, hk, hp]
      | true => simp [Entries.put, hk, hp]
    · rw [Entries.put, if_neg hk, List.filter_cons, List.filter_cons, ih]
      cases hp : p k with
      | false => simp
      | true =>
        cases he : p e.1 with
        | false => simp
        | true => simp [Entries.put, hk]

/-- Keeping some keys of a table made from a list is making it from the entries with these keys. -/
theorem filterKeys_ofList (p : α → Bool) (es : List (α × β)) :
    (ofList es).filterKeys p = ofList (es.filter fun e => p e.1) := by
  induction es using List.reverseRecOn with
  | nil => rfl
  | append_singleton es e ih =>
    have hkeep := congrArg entries ih
    refine ext_entries ?_
    simp only [filterKeys] at hkeep ⊢
    rw [ofList_concat, entries_insert, filter_put, hkeep, List.filter_append]
    cases hp : p e.1 with
    | false => simp [hp]
    | true => simp [hp, ofList_concat]

/-- A table is made from its own entries. -/
theorem ofList_entries (t : Table α β) : ofList t.entries = t :=
  ext_entries (entries_ofList t.nodup)

theorem put_put (k : α) (v w : β) (es : List (α × β)) :
    Entries.put k w (Entries.put k v es) = Entries.put k w es := by
  induction es with
  | nil => simp [Entries.put]
  | cons e es ih =>
    by_cases hk : e.1 = k
    · simp [Entries.put, hk]
    · simp [Entries.put, hk, ih]

/-- Of two values that are set for one key, the first leaves no trace. -/
theorem insert_insert (t : Table α β) (k : α) (v w : β) :
    (t.insert k v).insert k w = t.insert k w :=
  ext_entries (put_put k v w t.entries)

/-- Of two keys, one that is there already may be set first or last. -/
theorem put_comm {j k : α} {es : List (α × β)} (hk : k ∈ es.map Prod.fst) (hne : k ≠ j) (v w : β) :
    Entries.put k v (Entries.put j w es) = Entries.put j w (Entries.put k v es) := by
  induction es with
  | nil => cases hk
  | cons e es ih =>
    by_cases hj : e.1 = j
    · have hk' : e.1 ≠ k := fun h => hne (h.symm.trans hj)
      have hjk : j ≠ k := hne.symm
      simp only [Entries.put, if_pos hj, if_neg hk', if_neg hjk]
    · by_cases hek : e.1 = k
      · simp only [Entries.put, if_pos hek, if_neg hj, if_neg hne]
      · have hk' : k ∈ es.map Prod.fst :=
          (List.mem_cons.mp hk).resolve_left (Ne.symm hek)
        simp only [Entries.put, if_neg hj, if_neg hek, ih hk']

theorem mem_keys_insert {t : Table α β} {j k : α} {v : β} :
    j ∈ (t.insert k v).keys ↔ j = k ∨ j ∈ t.keys := by
  rw [keys_insert]
  split
  · next hk =>
    constructor
    · exact Or.inr
    · rintro (rfl | hj)
      · exact hk
      · exact hj
  · rw [List.mem_append, List.mem_singleton, or_comm]

/-- A key that is there already may be set before or after other keys. -/
theorem insert_insertAll {t : Table α β} {k : α} {es : List (α × β)} (ht : k ∈ t.keys)
    (hes : k ∉ es.map Prod.fst) (v : β) :
    (t.insertAll es).insert k v = (t.insert k v).insertAll es := by
  induction es generalizing t with
  | nil => rfl
  | cons e es ih =>
    rw [List.map_cons, List.mem_cons, not_or] at hes
    have hkeys : k ∈ (t.insert e.1 e.2).keys := mem_keys_insert.mpr (.inr ht)
    have hcomm : (t.insert e.1 e.2).insert k v = (t.insert k v).insert e.1 e.2 :=
      ext_entries (put_comm ht hes.1 v e.2)
    have hrest := ih hkeys hes.2
    rw [hcomm] at hrest
    exact hrest

/-- Setting the entries that result from setting a key is setting the entries and then the key. -/
theorem insertAll_put (t : Table α β) {es : List (α × β)} (h : (es.map Prod.fst).Nodup) (k : α)
    (v : β) : t.insertAll (Entries.put k v es) = (t.insertAll es).insert k v := by
  induction es generalizing t with
  | nil => rfl
  | cons e es ih =>
    obtain ⟨hnot, hes⟩ := List.nodup_cons.mp h
    by_cases hk : e.1 = k
    · have hmem : k ∈ (t.insert k e.2).keys := mem_keys_insert.mpr (.inl rfl)
      have hlast := insert_insertAll hmem (hk ▸ hnot) v
      rw [insert_insert] at hlast
      rw [Entries.put, if_pos hk]
      simp only [insertAll, List.foldl_cons, hk] at hlast ⊢
      exact hlast.symm
    · rw [Entries.put, if_neg hk]
      exact ih (t.insert e.1 e.2) hes

/-- Setting the entries of a table made from a list is setting those of the list. -/
theorem insertAll_entries_ofList (t : Table α β) (es : List (α × β)) :
    t.insertAll (ofList es).entries = t.insertAll es := by
  induction es using List.reverseRecOn with
  | nil => rfl
  | append_singleton es e ih =>
    rw [ofList_concat, entries_insert, insertAll_put t (ofList es).nodup, ih, insertAll_append]
    rfl

end UmlDraft.Table
