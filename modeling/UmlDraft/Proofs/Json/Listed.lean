import Mathlib.Data.List.Perm.Basic
import UmlDraft.Proofs.Json.RoundTrip

/-!
# The order of members

The object of a table has a member for each entry and no other. The members whose names are array
indices come first, in ascending order, and all others stand as the table has them.
-/

namespace UmlDraft.Json

variable {β : Type} {key : String} {n : Nat} {members : List (String × Json)}

/-- A key is an array index: the shortest decimal form of a number below 2 ^ 32 - 1. -/
def IsIndex (key : String) : Prop :=
  ∃ n < 4294967295, key = toString n

/-- The order in which an object lists keys that are given in some order. -/
inductive KeyOrder (keys : List String) : List String → Prop where
  /-- The array indices come first and ascend, and the other keys stand as they are given. -/
  | intro {indices : List Nat} {others : List String} (hascending : indices.Pairwise (· < ·))
    (hindices : ∀ n ∈ indices, IsIndex (toString n)) (hothers : ∀ k ∈ others, ¬ IsIndex k)
    (hplace : others.Sublist keys) : KeyOrder keys (indices.map toString ++ others)

/-- An object lists a table under its names, with the values as they are shown. -/
structure ListsTable (shown : β → Json) (t : Table String β) (members : List (String × Json)) :
    Prop where
  /-- Its members are the entries of the table. -/
  perm : members.Perm (t.entries.map fun e => (e.1, shown e.2))
  /-- No name occurs twice. -/
  nodup : (members.map Prod.fst).Nodup
  /-- The names are ordered as in any object. -/
  order : KeyOrder t.keys (members.map Prod.fst)
  /-- So listing them again changes nothing. -/
  settled : listed members = members

/-- If any key is an array index, then the first is. -/
theorem KeyOrder.isIndex_head {keys rest : List String} {first : String}
    (h : KeyOrder keys (first :: rest)) (hindex : ∃ k ∈ rest, IsIndex k) : IsIndex first := by
  generalize hordered : first :: rest = ordered at h
  obtain ⟨-, hindices, hothers, -⟩ := h
  rename_i indices others
  cases indices with
  | nil =>
    obtain ⟨k, hk, hkindex⟩ := hindex
    rw [List.map_nil, List.nil_append] at hordered
    exact absurd hkindex (hothers k (hordered ▸ List.mem_cons_of_mem first hk))
  | cons n indices =>
    rw [List.map_cons, List.cons_append, List.cons.injEq] at hordered
    exact hordered.1 ▸ hindices n List.mem_cons_self

theorem arrayIndex?_eq_some_iff :
    arrayIndex? key = some n ↔ key = toString n ∧ n < 4294967295 := by
  have hdigits : ofDigits (toString n).toList = n := by
    rw [Nat.toString_eq_ofList_toDigits, String.toList_ofList, ofDigits_toDigits]
  unfold arrayIndex?
  dsimp only
  constructor
  · intro h
    split at h
    · next hindex =>
      cases h
      exact ⟨hindex.1.symm, hindex.2⟩
    · cases h
  · rintro ⟨rfl, hbound⟩
    rw [hdigits, if_pos ⟨rfl, hbound⟩]

theorem isSome_arrayIndex?_iff : (arrayIndex? key).isSome = true ↔ IsIndex key := by
  rw [Option.isSome_iff_exists]
  simp only [arrayIndex?_eq_some_iff, IsIndex, and_comm]

/-- The index of a member, and zero where its name is none. -/
def indexOf (m : String × Json) : Nat :=
  (arrayIndex? m.1).getD 0

/-- One member has a smaller index than another, or the same. -/
def indexLe (a b : String × Json) : Bool :=
  indexOf a ≤ indexOf b

/-- The members whose names are array indices, ascending. -/
def indexed (members : List (String × Json)) : List (String × Json) :=
  (members.filter fun m => (arrayIndex? m.1).isSome).mergeSort indexLe

/-- The members whose names are no array indices, as they come. -/
def named (members : List (String × Json)) : List (String × Json) :=
  members.filter fun m => !(arrayIndex? m.1).isSome

theorem listed_eq (members : List (String × Json)) :
    listed members = indexed members ++ named members :=
  rfl

theorem pairwise_indexed (members : List (String × Json)) :
    (indexed members).Pairwise fun a b => indexLe a b = true := by
  refine List.pairwise_mergeSort (fun a b c hab hbc => ?_) (fun a b => ?_) _
  · rw [indexLe, decide_eq_true_eq] at hab hbc ⊢
    exact Nat.le_trans hab hbc
  · simp only [indexLe, Bool.or_eq_true, decide_eq_true_eq]
    exact Nat.le_total _ _

/-- An index is the name of its member. -/
theorem toString_indexOf {m : String × Json} (h : m ∈ indexed members) :
    toString (indexOf m) = m.1 ∧ IsIndex m.1 := by
  obtain ⟨-, hsome⟩ := List.mem_filter.mp (List.mem_mergeSort.mp h)
  obtain ⟨n, hn⟩ := Option.isSome_iff_exists.mp hsome
  obtain ⟨hname, hbound⟩ := arrayIndex?_eq_some_iff.mp hn
  refine ⟨?_, n, hbound, hname⟩
  rw [indexOf, hn, hname]
  rfl

/-- The members are listed in the order of their names. -/
theorem keyOrder_listed (hnames : (members.map Prod.fst).Nodup) :
    KeyOrder (members.map Prod.fst) ((listed members).map Prod.fst) := by
  have hindexed : (indexed members).map Prod.fst =
      ((indexed members).map indexOf).map toString := by
    rw [List.map_map]
    exact List.map_congr_left fun m hm => (toString_indexOf hm).1.symm
  have hdistinct : (indexed members).Pairwise fun a b => a.1 ≠ b.1 := by
    have hnodup := ((listed_perm members).map Prod.fst).nodup_iff.mpr hnames
    rw [listed_eq, List.map_append] at hnodup
    exact List.pairwise_map.mp (List.nodup_append.mp hnodup).1
  rw [listed_eq, List.map_append, hindexed]
  refine .intro (List.pairwise_map.mpr ?_) (List.forall_mem_map.mpr fun m hm => ?_) (fun k hk => ?_)
    (List.filter_sublist.map Prod.fst)
  · refine ((pairwise_indexed members).and hdistinct).imp_of_mem fun {a b} ha hb h => ?_
    -- Members with one index would have one name.
    refine Nat.lt_of_le_of_ne (of_decide_eq_true h.1) fun heq => h.2 ?_
    rw [← (toString_indexOf ha).1, ← (toString_indexOf hb).1]
    exact congrArg toString heq
  · obtain ⟨hname, hindex⟩ := toString_indexOf hm
    rwa [hname]
  · obtain ⟨m, hm, rfl⟩ := List.mem_map.mp hk
    have hnone := (List.mem_filter.mp hm).2
    rwa [Bool.not_eq_true', ← Bool.not_eq_true, isSome_arrayIndex?_iff] at hnone

/-- Listing members again changes nothing. -/
theorem listed_listed (members : List (String × Json)) :
    listed (listed members) = listed members := by
  have hindexed : ∀ m ∈ indexed members, (arrayIndex? m.1).isSome = true := fun m hm =>
    isSome_arrayIndex?_iff.mpr (toString_indexOf hm).2
  have hnamed : ∀ m ∈ named members, ¬ (arrayIndex? m.1).isSome = true := fun m hm => by
    simpa using (List.mem_filter.mp hm).2
  have hfirst : indexed (indexed members ++ named members) = indexed members := by
    rw [indexed, List.filter_append, List.filter_eq_self.mpr hindexed,
      List.filter_eq_nil_iff.mpr hnamed, List.append_nil]
    exact List.mergeSort_of_pairwise (pairwise_indexed members)
  have hlast : named (indexed members ++ named members) = named members := by
    rw [named, List.filter_append,
      List.filter_eq_nil_iff.mpr fun m hm => by simp [hindexed m hm],
      List.filter_eq_self.mpr fun m hm => by simpa using hnamed m hm, List.nil_append]
  rw [listed_eq (listed members), listed_eq members, hfirst, hlast]

/-- The object of a table lists it. -/
theorem listsTable_ofTable (shown : β → Json) (t : Table String β) :
    ∃ members, ofTable (t.mapValues shown) = .object members ∧ ListsTable shown t members := by
  have hperm := listed_perm (t.mapValues shown).entries
  have horder := keyOrder_listed (t.mapValues shown).nodup
  refine ⟨_, rfl, hperm, (hperm.map Prod.fst).nodup_iff.mpr (t.mapValues shown).nodup, ?_,
    listed_listed _⟩
  rwa [← Table.keys_mapValues shown]

/-- Different tables are listed differently, up to the order of their entries. -/
theorem ListsTable.perm_entries {shown : β → Json} (hshown : Function.Injective shown)
    {s t : Table String β} (hs : ListsTable shown s members) (ht : ListsTable shown t members) :
    s.entries.Perm t.entries := by
  have hinj : Function.Injective fun e : String × β => (e.1, shown e.2) := fun e f h => by
    obtain ⟨hkey, hvalue⟩ := Prod.mk.inj h
    exact Prod.ext hkey (hshown hvalue)
  exact (List.map_perm_map_iff hinj).mp (hs.perm.symm.trans ht.perm)

/-- An object that lists a table names no member twice, if its values do not. -/
theorem ListsTable.proper {shown : β → Json} {t : Table String β} (h : ListsTable shown t members)
    (hshown : ∀ b, Proper (shown b)) : Proper (.object members) := by
  refine .object h.nodup fun m hm => ?_
  obtain ⟨e, -, rfl⟩ := List.mem_map.mp (h.perm.mem_iff.mp hm)
  exact hshown e.2

end UmlDraft.Json
