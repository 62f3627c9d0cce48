import UmlDraft.Diagram.Relationship
import UmlDraft.Proofs.Table

/-!
# Relations of declared names

An edge takes effect between declared names only, and it keeps what can be said of the relations:
the ends of every relation are declared, and the interfaces of a type are a list without
repetition that is never empty. Any list of edges gives such relations.
-/

namespace UmlDraft.Relationships

variable {declared : String → Bool} {r : Relationships} {e : Edge}

/-- A name and the interfaces of its type, as they can arise from edges. -/
structure Implementation (declared : String → Bool) (name : String) (targets : List String) :
    Prop where
  /-- The type that implements is declared. -/
  source : declared name
  /-- Every implemented interface is declared. -/
  target : ∀ t ∈ targets, declared t
  /-- There is at least one interface. -/
  ne_nil : targets ≠ []
  /-- No interface is listed twice. -/
  nodup : targets.Nodup

/-- Relations as they can arise from edges. -/
structure WellFormed (declared : String → Bool) (r : Relationships) : Prop where
  /-- A type that extends another is declared, and so is the other. -/
  parents : ∀ child parent, r.parents.get? child = some parent → declared child ∧ declared parent
  /-- The interfaces of every type are well-formed. -/
  interfaces : ∀ name targets, r.interfaces.get? name = some targets →
    Implementation declared name targets

theorem mem_addInterface {targets : List String} {target t : String} :
    t ∈ addInterface targets target ↔ t ∈ targets ∨ t = target := by
  unfold addInterface
  split
  · next h =>
    rw [List.contains_iff_mem] at h
    constructor
    · exact Or.inl
    · rintro (ht | rfl)
      · exact ht
      · exact h
  · rw [List.mem_append, List.mem_singleton]

theorem nodup_addInterface {targets : List String} (h : targets.Nodup) (target : String) :
    (addInterface targets target).Nodup := by
  unfold addInterface
  split
  · exact h
  · next hc =>
    rw [List.contains_iff_mem] at hc
    rw [List.nodup_append]
    refine ⟨h, List.pairwise_singleton _ target, ?_⟩
    rintro a ha b hb rfl
    exact hc (List.mem_singleton.mp hb ▸ ha)

theorem wellFormed_empty : WellFormed declared {} where
  parents _ _ h := nomatch h
  interfaces _ _ h := nomatch h

/-- One more interface keeps the interfaces of a type well-formed, and the first one makes them
so. -/
theorem WellFormed.implementation_add (h : r.WellFormed declared) {name target : String}
    (hs : declared name) (ht : declared target) :
    Implementation declared name
      (addInterface ((r.interfaces.get? name).getD []) target) := by
  have hold : ∀ t ∈ (r.interfaces.get? name).getD [], declared t := by
    intro t hmem
    cases hget : r.interfaces.get? name with
    | none =>
      rw [hget] at hmem
      cases hmem
    | some targets =>
      rw [hget] at hmem
      exact (h.interfaces name targets hget).target t hmem
  have hnodup : ((r.interfaces.get? name).getD []).Nodup := by
    cases hget : r.interfaces.get? name with
    | none => exact List.nodup_nil
    | some targets => exact (h.interfaces name targets hget).nodup
  refine ⟨hs, ?_, ?_, nodup_addInterface hnodup target⟩
  · intro t hmem
    rcases mem_addInterface.mp hmem with hmem | rfl
    · exact hold t hmem
    · exact ht
  · exact List.ne_nil_of_mem (mem_addInterface.mpr (.inr rfl))

/-- An edge between declared names keeps the relations well-formed. -/
theorem WellFormed.apply (h : r.WellFormed declared) (hs : declared e.source)
    (ht : declared e.target) : (r.apply e).WellFormed declared := by
  unfold Relationships.apply
  split
  · refine ⟨fun child parent hget => ?_, h.interfaces⟩
    rw [Table.get?_insert] at hget
    split at hget
    · next hc =>
      cases hget
      exact ⟨hc ▸ hs, ht⟩
    · exact h.parents child parent hget
  · refine ⟨h.parents, fun name targets hget => ?_⟩
    rw [Table.get?_insert] at hget
    split at hget
    · next hn =>
      cases hget
      rw [hn]
      exact h.implementation_add hs ht
    · exact h.interfaces name targets hget

theorem wellFormed_foldl {es : List Edge} (h : r.WellFormed declared)
    (hes : ∀ e ∈ es, declared e.source ∧ declared e.target) :
    (es.foldl apply r).WellFormed declared := by
  induction es generalizing r with
  | nil => exact h
  | cons e es ih =>
    rw [List.foldl_cons]
    obtain ⟨hs, ht⟩ := hes e List.mem_cons_self
    exact ih (h.apply hs ht) fun e he => hes e (List.mem_cons_of_mem _ he)

/-- Whatever the edges, the relations they give rise to are well-formed. -/
theorem wellFormed_ofEdges (declared : String → Bool) (edges : List Edge) :
    (ofEdges declared edges).WellFormed declared := by
  refine wellFormed_foldl wellFormed_empty fun e he => ?_
  have := (List.mem_filter.mp he).2
  rwa [Bool.and_eq_true] at this

/-- Adding interfaces that are all new lists them in order. -/
theorem foldl_addInterface {before targets : List String} (h : (before ++ targets).Nodup) :
    targets.foldl addInterface before = before ++ targets := by
  induction targets generalizing before with
  | nil => rw [List.foldl_nil, List.append_nil]
  | cons t targets ih =>
    have hnew : t ∉ before := fun hm =>
      (List.nodup_append.mp h).2.2 t hm t List.mem_cons_self rfl
    have hadd : addInterface before t = before ++ [t] := by
      rw [addInterface, if_neg (by rwa [List.contains_iff_mem])]
    have hsplit : before ++ t :: targets = before ++ [t] ++ targets := by
      rw [List.append_assoc, List.singleton_append]
    rw [List.foldl_cons, hadd, hsplit, ih (hsplit ▸ h)]

end UmlDraft.Relationships
