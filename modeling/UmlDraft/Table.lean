/-!
# Tables

A table maps keys to values and remembers the order in which the keys were first set. Setting a key
again replaces its value and leaves it where it was. Each key occurs once, and that is part of the
type. Main statements: what a look-up gives after `insert`, and which keys a table then has.
-/

namespace UmlDraft

variable {α β γ : Type}

namespace Entries

/-- Replaces the value of a key where it stands, or adds the key at the end. -/
def put [DecidableEq α] (k : α) (v : β) : List (α × β) → List (α × β)
  | [] => [(k, v)]
  | e :: rest => if e.1 = k then (k, v) :: rest else e :: put k v rest

/-- Setting a key adds it at the end unless it was there. -/
theorem keys_put [DecidableEq α] (k : α) (v : β) (es : List (α × β)) :
    (put k v es).map Prod.fst =
      if k ∈ es.map Prod.fst then es.map Prod.fst else es.map Prod.fst ++ [k] := by
  induction es with
  | nil => simp [put]
  | cons e rest ih =>
    by_cases h : e.1 = k
    · simp [put, h]
    · have h' : ¬ k = e.1 := fun e' => h e'.symm
      by_cases hr : k ∈ rest.map Prod.fst
      · rw [if_pos hr] at ih
        simp only [put, if_neg h, List.map_cons, ih]
        rw [if_pos (List.mem_cons_of_mem _ hr)]
      · rw [if_neg hr] at ih
        simp only [put, if_neg h, List.map_cons, ih]
        rw [if_neg (by simpa [h'] using hr), List.cons_append]

theorem nodup_put [DecidableEq α] (k : α) (v : β) {es : List (α × β)}
    (h : (es.map Prod.fst).Nodup) : ((put k v es).map Prod.fst).Nodup := by
  rw [keys_put]
  split
  · exact h
  · rename_i hk
    exact List.nodup_append.2 ⟨h, by simp, fun a ha b hb e => by
      simp only [List.mem_singleton] at hb
      subst e hb
      exact hk ha⟩

theorem lookup_cons [DecidableEq α] (j : α) (e : α × β) (es : List (α × β)) :
    (e :: es).lookup j = if j = e.1 then some e.2 else es.lookup j := by
  obtain ⟨k, v⟩ := e
  by_cases h : j = k
  · subst h
    rw [List.lookup_cons_self, if_pos rfl]
  · have hb : (j == k) = false := by simpa using h
    rw [List.lookup_cons, hb, if_neg h]

theorem lookup_put [DecidableEq α] (k j : α) (v : β) (es : List (α × β)) :
    (put k v es).lookup j = if j = k then some v else es.lookup j := by
  induction es with
  | nil =>
    unfold put
    rw [lookup_cons]
  | cons e rest ih =>
    unfold put
    by_cases he : e.1 = k
    · rw [if_pos he, lookup_cons, lookup_cons, he]
      split <;> rfl
    · rw [if_neg he, lookup_cons, lookup_cons, ih]
      by_cases hj : j = e.1
      · rw [if_pos hj, if_pos hj, if_neg fun h => he (hj.symm.trans h)]
      · rw [if_neg hj, if_neg hj]

end Entries

/-- An insertion ordered table with one entry a key. -/
structure Table (α β : Type) where
  /-- The entries in the order in which their keys were first set. -/
  entries : List (α × β)
  /-- No key has two entries. -/
  nodup : (entries.map Prod.fst).Nodup

namespace Table

theorem ext_entries {s t : Table α β} (h : s.entries = t.entries) : s = t := by
  cases s
  cases t
  cases h
  rfl

instance [DecidableEq α] [DecidableEq β] : DecidableEq (Table α β) := fun s t =>
  if h : s.entries = t.entries then isTrue (ext_entries h)
  else isFalse fun e => h (e ▸ rfl)

instance [Repr α] [Repr β] : Repr (Table α β) where
  reprPrec t p := reprPrec t.entries p

/-- The table without entries. -/
def empty : Table α β :=
  ⟨[], by simp⟩

instance : Inhabited (Table α β) := ⟨empty⟩

instance : EmptyCollection (Table α β) := ⟨empty⟩

/-- The keys in the order in which they were first set. -/
def keys (t : Table α β) : List α :=
  t.entries.map Prod.fst

/-- The values in the order of their keys. -/
def values (t : Table α β) : List β :=
  t.entries.map Prod.snd

/-- The number of entries. -/
def size (t : Table α β) : Nat :=
  t.entries.length

/-- The value of a key. -/
def get? [DecidableEq α] (t : Table α β) (k : α) : Option β :=
  t.entries.lookup k

/-- Whether a key has a value. -/
def contains [DecidableEq α] (t : Table α β) (k : α) : Bool :=
  t.keys.contains k

/-- Sets the value of a key. -/
def insert [DecidableEq α] (t : Table α β) (k : α) (v : β) : Table α β :=
  ⟨Entries.put k v t.entries, Entries.nodup_put k v t.nodup⟩

/-- Sets the entries of a list one after the other. -/
def insertAll [DecidableEq α] (t : Table α β) (es : List (α × β)) : Table α β :=
  es.foldl (fun t e => t.insert e.1 e.2) t

/-- The table that a list of entries sets: of two entries with one key, the first gives the place
and the last the value. -/
def ofList [DecidableEq α] (es : List (α × β)) : Table α β :=
  insertAll empty es

/-- Applies a function to every value. -/
def mapValues (f : β → γ) (t : Table α β) : Table α γ :=
  ⟨t.entries.map fun e => (e.1, f e.2), by
    have : (t.entries.map fun e => (e.1, f e.2)).map Prod.fst = t.entries.map Prod.fst := by
      simp [List.map_map, Function.comp_def]
    rw [this]
    exact t.nodup⟩

/-- Keeps the entries whose key satisfies a test. -/
def filterKeys (p : α → Bool) (t : Table α β) : Table α β :=
  ⟨t.entries.filter fun e => p e.1,
    (List.Sublist.map Prod.fst List.filter_sublist).nodup t.nodup⟩

@[simp] theorem keys_empty : (empty : Table α β).keys = [] := rfl

@[simp] theorem values_empty : (empty : Table α β).values = [] := rfl

@[simp] theorem size_empty : (empty : Table α β).size = 0 := rfl

@[simp] theorem get?_empty [DecidableEq α] (k : α) : (empty : Table α β).get? k = none := rfl

@[simp] theorem entries_insert [DecidableEq α] (t : Table α β) (k : α) (v : β) :
    (t.insert k v).entries = Entries.put k v t.entries := rfl

@[simp] theorem length_keys (t : Table α β) : t.keys.length = t.size := by
  simp [keys, size]

@[simp] theorem length_values (t : Table α β) : t.values.length = t.size := by
  simp [values, size]

@[simp] theorem contains_eq_true [DecidableEq α] {t : Table α β} {k : α} :
    t.contains k = true ↔ k ∈ t.keys := by
  simp [contains]

@[simp] theorem keys_mapValues (f : β → γ) (t : Table α β) : (t.mapValues f).keys = t.keys := by
  simp [keys, mapValues, List.map_map, Function.comp_def]

/-- Setting a key that is there keeps the keys, and setting a new one adds it at the end. -/
theorem keys_insert [DecidableEq α] (t : Table α β) (k : α) (v : β) :
    (t.insert k v).keys = if k ∈ t.keys then t.keys else t.keys ++ [k] :=
  Entries.keys_put k v t.entries

/-- A look-up after `insert` gives the new value at the key and the old one elsewhere. -/
theorem get?_insert [DecidableEq α] (t : Table α β) (k j : α) (v : β) :
    (t.insert k v).get? j = if j = k then some v else t.get? j :=
  Entries.lookup_put k j v t.entries

theorem get?_eq_none_iff [DecidableEq α] {t : Table α β} {k : α} :
    t.get? k = none ↔ k ∉ t.keys := by
  simp only [get?, keys]
  induction t.entries with
  | nil => simp
  | cons e rest ih =>
    rw [Entries.lookup_cons, List.map_cons, List.mem_cons, not_or]
    by_cases h : k = e.1
    · simp [h]
    · rw [if_neg h, ih]
      exact ⟨fun hr => ⟨h, hr⟩, And.right⟩

end Table

end UmlDraft
