import Mathlib.Data.List.Forall2
import UmlDraft.Proofs.Diagram.Relationship

/-!
# The relations that edges give rise to

Edges take effect in the order of their offsets, those with one offset in the order in which they
are given; only one list of them is in that order. Of the edges between declared names, the last one
makes the parent of a type, and its interfaces are listed once each in the order of first
appearance. Types are listed in the order of their first edges. Beyond their order, the offsets of
edges do not matter.
-/

namespace UmlDraft

namespace Edge

variable {given es fs : List Edge} {e f : Edge} {offset : Int} {relation : Relation} {name : String}

/-! ### The order of edges -/

/-- The edges with one offset. -/
def withOffset (offset : Int) (es : List Edge) : List Edge :=
  es.filter fun e => e.offset = offset

/-- A list of edges that is in order: by their offsets, and where these are the same, as the edges
are given. -/
structure InOrder (given es : List Edge) : Prop where
  /-- The offsets never fall. -/
  ascending : es.Pairwise fun a b => a.offset ≤ b.offset
  /-- The edges with an offset are the given ones in the given order. -/
  ties : ∀ offset, withOffset offset es = withOffset offset given

theorem mem_withOffset : e ∈ withOffset offset es ↔ e ∈ es ∧ e.offset = offset := by
  rw [withOffset, List.mem_filter, decide_eq_true_iff]

theorem withOffset_cons_of_eq (h : e.offset = offset) (es : List Edge) :
    withOffset offset (e :: es) = e :: withOffset offset es :=
  List.filter_cons_of_pos (decide_eq_true h)

theorem withOffset_cons_of_ne (h : e.offset ≠ offset) (es : List Edge) :
    withOffset offset (e :: es) = withOffset offset es :=
  List.filter_cons_of_neg (mt of_decide_eq_true h)

namespace InOrder

theorem mem_iff (h : InOrder given es) : e ∈ es ↔ e ∈ given := by
  have hmem : ∀ k : List Edge, e ∈ k ↔ e ∈ withOffset e.offset k := fun k => by
    rw [mem_withOffset, and_iff_left rfl]
  rw [hmem es, h.ties, ← hmem given]

/-- The first of the edges in order has the least offset. -/
theorem offset_le (h : InOrder given (e :: es)) (hf : f ∈ given) : e.offset ≤ f.offset := by
  rcases List.mem_cons.mp (h.mem_iff.mpr hf) with rfl | hf
  · exact Int.le_refl _
  · exact (List.pairwise_cons.mp h.ascending).1 f hf

/-- Two lists in order have the same first edge. -/
theorem head_eq (h : InOrder given (e :: es)) (h' : InOrder given (f :: fs)) : e = f := by
  have hoffset : f.offset = e.offset := Int.le_antisymm
    (h'.offset_le (h.mem_iff.mp List.mem_cons_self))
    (h.offset_le (h'.mem_iff.mp List.mem_cons_self))
  have htie := (h.ties e.offset).trans (h'.ties e.offset).symm
  rw [withOffset_cons_of_eq rfl, withOffset_cons_of_eq hoffset] at htie
  exact (List.cons.inj htie).1

/-- Without their first edge, two lists in order are in the order of the first of them. -/
theorem tail (h : InOrder given (e :: es)) (h' : InOrder given (e :: fs)) : InOrder es fs where
  ascending := (List.pairwise_cons.mp h'.ascending).2
  ties offset := by
    have htie := (h'.ties offset).trans (h.ties offset).symm
    by_cases he : e.offset = offset
    · rw [withOffset_cons_of_eq he, withOffset_cons_of_eq he] at htie
      exact (List.cons.inj htie).2
    · rwa [withOffset_cons_of_ne he, withOffset_cons_of_ne he] at htie

/-- There is one order at most. -/
theorem unique (h : InOrder given es) (h' : InOrder given fs) : es = fs := by
  induction es generalizing given fs with
  | nil =>
    refine (List.eq_nil_iff_forall_not_mem.mpr fun f hf => ?_).symm
    exact List.not_mem_nil (h.mem_iff.mpr (h'.mem_iff.mp hf))
  | cons e es ih =>
    cases fs with
    | nil => exact absurd (h'.mem_iff.mpr (h.mem_iff.mp List.mem_cons_self)) List.not_mem_nil
    | cons f fs =>
      obtain rfl := h.head_eq h'
      rw [ih (h.tail h) (h.tail h')]

/-- Sorting by offsets puts edges in order. -/
theorem mergeSort (given : List Edge) :
    InOrder given (given.mergeSort fun a b => a.offset ≤ b.offset) := by
  have htrans : ∀ a b c : Edge, decide (a.offset ≤ b.offset) = true →
      decide (b.offset ≤ c.offset) = true → decide (a.offset ≤ c.offset) = true := by
    simpa using fun a b c => Int.le_trans
  have htotal : ∀ a b : Edge,
      (decide (a.offset ≤ b.offset) || decide (b.offset ≤ a.offset)) = true := by
    simpa using fun a b => Int.le_total _ _
  refine ⟨?_, fun offset => ?_⟩
  · simpa using List.pairwise_mergeSort htrans htotal given
  · -- The edges with one offset are sorted as they are given, so the sort keeps their order.
    have htie : (withOffset offset given).Pairwise fun a b =>
        decide (a.offset ≤ b.offset) = true := by
      refine List.pairwise_of_forall_mem_list fun a ha b hb => decide_eq_true (Int.le_of_eq ?_)
      exact (mem_withOffset.mp ha).2.trans (mem_withOffset.mp hb).2.symm
    have hsub := List.sublist_mergeSort htrans htotal htie List.filter_sublist
    have hkept : withOffset offset (withOffset offset given) = withOffset offset given :=
      List.filter_eq_self.mpr fun e he => (List.mem_filter.mp he).2
    have hlength := ((List.mergeSort_perm given fun a b => decide (a.offset ≤ b.offset)).filter
      fun e => e.offset = offset).length_eq
    refine (List.Sublist.eq_of_length ?_ hlength.symm).symm
    rw [← withOffset, ← hkept]
    exact hsub.filter _

end InOrder

/-- Two edges that say the same, wherever they are found. -/
structure SaysSame (e f : Edge) : Prop where
  /-- The relation is the same. -/
  relation : e.relation = f.relation
  /-- The source is the same. -/
  source : e.source = f.source
  /-- The target is the same. -/
  target : e.target = f.target

/-! ### The edges of a name -/

/-- The edges that relate their sources in one way. -/
def ofRelation (relation : Relation) (es : List Edge) : List Edge :=
  es.filter fun e => e.relation = relation

/-- The targets of the edges that relate one source in one way. -/
def targets (relation : Relation) (name : String) (es : List Edge) : List String :=
  ((ofRelation relation es).filter fun e => e.source = name).map Edge.target

theorem ofRelation_concat (h : e.relation = relation) (es : List Edge) :
    ofRelation relation (es ++ [e]) = ofRelation relation es ++ [e] := by
  simp [ofRelation, h]

theorem ofRelation_concat_of_ne (h : e.relation ≠ relation) (es : List Edge) :
    ofRelation relation (es ++ [e]) = ofRelation relation es := by
  simp [ofRelation, h]

theorem targets_concat (h : e.relation = relation) (es : List Edge) :
    targets relation e.source (es ++ [e]) = targets relation e.source es ++ [e.target] := by
  simp [targets, ofRelation_concat h]

/-- An edge that relates its source in another way does not count. -/
theorem targets_concat_of_ne (h : e.relation ≠ relation) (name : String) (es : List Edge) :
    targets relation name (es ++ [e]) = targets relation name es := by
  rw [targets, ofRelation_concat_of_ne h, targets]

/-- An edge of another source does not count. -/
theorem targets_concat_of_source_ne (h : name ≠ e.source) (es : List Edge) :
    targets relation name (es ++ [e]) = targets relation name es := by
  simp [targets, ofRelation, h.symm, List.filter_cons, apply_ite]

end Edge

namespace Relationships

variable {r : Relationships} {es : List Edge}

/-- The relations that edges between declared names give rise to, name by name. -/
structure Tables (es : List Edge) (r : Relationships) : Prop where
  /-- The parent of a type is the target of the last edge that gives it one. -/
  parent : ∀ name, r.parents.get? name = (Edge.targets .generalization name es).getLast?
  /-- Types with a parent stand in the order of their first edges. -/
  children : r.parents.keys = ((Edge.ofRelation .generalization es).map Edge.source).eraseDups
  /-- The interfaces of a type are listed once each in the order of first appearance, if there are
  any. -/
  interfacesOf : ∀ name, r.interfaces.get? name =
    if Edge.targets .realization name es = [] then none
    else some (Edge.targets .realization name es).eraseDups
  /-- Types with interfaces stand in the order of their first edges. -/
  implementers : r.interfaces.keys = ((Edge.ofRelation .realization es).map Edge.source).eraseDups

theorem tables_nil : Tables [] {} where
  parent _ := rfl
  children := rfl
  interfacesOf _ := rfl
  implementers := rfl

/-- Adding an interface lists it behind the others, unless it is there. -/
theorem addInterface_eraseDups (targets : List String) (target : String) :
    addInterface targets.eraseDups target = (targets ++ [target]).eraseDups := by
  rw [addInterface, Table.eraseDups_concat]
  simp only [List.contains_iff_mem]

namespace Tables

/-- The interfaces of a type that are known so far. -/
theorem getD_interfaces (h : Tables es r) (name : String) :
    (r.interfaces.get? name).getD [] = (Edge.targets .realization name es).eraseDups := by
  rw [h.interfacesOf]
  split
  · next hnil =>
    rw [hnil]
    rfl
  · rfl

/-- One more edge gives its source another parent or one more interface. -/
theorem apply (h : Tables es r) (e : Edge) : Tables (es ++ [e]) (r.apply e) := by
  unfold Relationships.apply
  split
  · next he =>
    have hne : e.relation ≠ .realization := by simp [he]
    refine ⟨fun name => ?_, ?_, fun name => ?_, ?_⟩
    · rw [Table.get?_insert]
      split
      · next hn => rw [hn, Edge.targets_concat he, List.getLast?_concat]
      · next hn => rw [Edge.targets_concat_of_source_ne hn, h.parent]
    · rw [Table.keys_insert, h.children, Edge.ofRelation_concat he, List.map_append,
        List.map_singleton, Table.eraseDups_concat]
    · rw [Edge.targets_concat_of_ne hne, h.interfacesOf]
    · rw [Edge.ofRelation_concat_of_ne hne, h.implementers]
  · next he =>
    have hne : e.relation ≠ .generalization := by simp [he]
    refine ⟨fun name => ?_, ?_, fun name => ?_, ?_⟩
    · rw [Edge.targets_concat_of_ne hne, h.parent]
    · rw [Edge.ofRelation_concat_of_ne hne, h.children]
    · rw [Table.get?_insert]
      split
      · next hn =>
        have hnil : Edge.targets .realization e.source es ++ [e.target] ≠ [] :=
          List.append_ne_nil_of_right_ne_nil _ (List.cons_ne_nil _ _)
        rw [hn, Edge.targets_concat he, if_neg hnil, h.getD_interfaces, addInterface_eraseDups]
      · next hn => rw [Edge.targets_concat_of_source_ne hn, h.interfacesOf]
    · rw [Table.keys_insert, h.implementers, Edge.ofRelation_concat he, List.map_append,
        List.map_singleton, Table.eraseDups_concat]

end Tables

/-- Edges that take effect one after the other leave their tables. -/
theorem tables_foldl (es : List Edge) : Tables es (es.foldl Relationships.apply {}) := by
  induction es using List.reverseRecOn with
  | nil => exact tables_nil
  | append_singleton es e ih =>
    rw [List.foldl_append]
    exact ih.apply e

/-- Where an edge is found does not matter when it takes effect. -/
theorem apply_congr (r : Relationships) {e f : Edge} (h : e.SaysSame f) : r.apply e = r.apply f := by
  unfold apply
  rw [h.relation, h.source, h.target]

/-- Edges that say the same in the same order give the same relations between declared names. -/
theorem foldl_filter_congr (declared : String → Bool) {fs : List Edge}
    (h : List.Forall₂ Edge.SaysSame es fs) :
    (es.filter fun e => declared e.source && declared e.target).foldl apply {} =
      (fs.filter fun e => declared e.source && declared e.target).foldl apply {} := by
  have hfilter := List.rel_filter
    (p := fun e : Edge => declared e.source && declared e.target)
    (q := fun e : Edge => declared e.source && declared e.target)
    (fun e f he => by simp only [he.source, he.target]) h
  exact List.rel_foldl (P := Eq) (fun r r' hr e f he => hr ▸ r.apply_congr he) rfl hfilter

/-- The relations of a text are the tables of the edges between declared names. The order of the
edges, those of headers and the arrows of the text, is the only one there is. -/
theorem ofText_tables (source : String) (declared : String → Bool) (headerEdges : List Edge) :
    ∃ es, (∀ fs, Edge.InOrder (headerEdges ++ Arrow.edges source) fs ↔ fs = es) ∧
      Tables (es.filter fun e => declared e.source && declared e.target)
        (ofText source declared headerEdges) := by
  have horder := Edge.InOrder.mergeSort (headerEdges ++ Arrow.edges source)
  refine ⟨_, fun fs => ⟨fun h => h.unique horder, ?_⟩, tables_foldl _⟩
  rintro rfl
  exact horder

end Relationships

end UmlDraft
