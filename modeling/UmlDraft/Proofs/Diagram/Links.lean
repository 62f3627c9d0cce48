import Mathlib.Data.List.Basic
import UmlDraft.Proofs.Diagram.ArrowLine
import UmlDraft.Proofs.Diagram.Print
import UmlDraft.Proofs.Diagram.Relationship

/-!
# Relations and their links

The relations of a diagram are printed as links, parents first. The searches for the four forms find
them in the order of their lines, so that sorting by offset changes nothing; between declared names
all of them take effect, and putting them into effect one after the other restores the relations.
-/

namespace UmlDraft

open Text

namespace Relationships

/-- The link of a parent. -/
def parentLink (e : String × String) : Link :=
  ⟨⟨.solid, .left⟩, e.2, e.1⟩

/-- The links of the interfaces of a type. -/
def interfaceLinks (e : String × List String) : List Link :=
  e.2.map fun target => ⟨⟨.dotted, .right⟩, e.1, target⟩

/-- The links of the relations of a diagram. -/
def links (r : Relationships) : List Link :=
  r.parents.entries.map parentLink ++ r.interfaces.entries.flatMap interfaceLinks

theorem lines_eq (r : Relationships) : r.lines = r.links.map Link.print := by
  have hextends : " <|-- ".toList = [' ', '<', '|', '-', '-', ' '] := by decide
  have himplements : " ..|> ".toList = [' ', '.', '.', '|', '>', ' '] := by decide
  have hparent : ∀ e, printParent e = (parentLink e).print := by
    intro e
    rw [printParent, String.toList_append, String.toList_append, hextends, List.append_assoc]
    rfl
  have hinterfaces : ∀ e, printInterfaces e = (interfaceLinks e).map Link.print := by
    intro e
    rw [printInterfaces, interfaceLinks, List.map_map]
    refine List.map_congr_left fun target _ => ?_
    rw [String.toList_append, String.toList_append, himplements, List.append_assoc]
    rfl
  rw [Relationships.lines, links, List.map_append, List.map_map, List.map_flatMap]
  exact congrArg₂ (· ++ ·) (List.map_congr_left fun e _ => hparent e)
    (List.flatMap_congr fun e _ => hinterfaces e)

/-- The four searches, one after the other, find the links of relations line by line. -/
theorem edges_lines (r : Relationships) (hks : ∀ k ∈ r.links, k.Named) (offset : Nat) :
    (Arrow.all.flatMap fun a => a.scan offset (Text.lines r.lines)) =
      (Link.placed offset r.links).map fun p => p.2.edge p.1 := by
  have hparents : ∀ k ∈ r.parents.entries.map parentLink, k.arrow = ⟨.solid, .left⟩ := by
    intro k hk
    obtain ⟨e, -, rfl⟩ := List.mem_map.mp hk
    rfl
  have hinterfaces : ∀ k ∈ r.interfaces.entries.flatMap interfaceLinks,
      k.arrow = ⟨.dotted, .right⟩ := by
    intro k hk
    obtain ⟨e, -, hk⟩ := List.mem_flatMap.mp hk
    obtain ⟨target, -, rfl⟩ := List.mem_map.mp hk
    rfl
  rw [lines_eq]
  simp only [Link.scan_lines hks]
  rw [links, Link.placed_append]
  simp only [List.filter_append, Link.filter_placed hparents, Link.filter_placed hinterfaces,
    Arrow.all, List.flatMap_cons, List.flatMap_nil]
  simp

/-- Edges between declared names in the order of their lines are all effective, in that order. -/
theorem effective_placed {declared : String → Bool} {ks : List Link}
    (h : ∀ k ∈ ks, declared k.left = true ∧ declared k.right = true) (offset : Nat) :
    effective declared ((Link.placed offset ks).map fun p => p.2.edge p.1) =
      (Link.placed offset ks).map fun p => p.2.edge p.1 := by
  have hoffset : ∀ p : Nat × Link, (p.2.edge p.1).offset = p.1 := by
    rintro ⟨o, ⟨stroke, head⟩, left, right⟩
    cases head <;> rfl
  have hsorted : ((Link.placed offset ks).map fun p => p.2.edge p.1).Pairwise
      fun a b => decide (a.offset ≤ b.offset) = true := by
    rw [List.pairwise_map]
    refine (Link.placed_pairwise offset ks).imp fun {p q} hpq => ?_
    rw [hoffset, hoffset, decide_eq_true_eq]
    exact Int.ofNat_le.mpr hpq
  rw [effective, List.mergeSort_of_pairwise hsorted, List.filter_eq_self]
  intro e he
  obtain ⟨p, hp, rfl⟩ := List.mem_map.mp he
  obtain ⟨hleft, hright⟩ := h p.2 (Link.mem_of_mem_placed hp).2
  obtain ⟨o, ⟨stroke, head⟩, left, right⟩ := p
  cases head with
  | left | right =>
    simp only [Link.edge, Arrow.edge, String.ofList_toList, hleft, hright, Bool.and_self]

/-- Where an edge was found does not matter to its effect. -/
theorem apply_edge (r : Relationships) (k : Link) (offset : Nat) :
    r.apply (k.edge offset) = r.apply (k.edge 0) := by
  obtain ⟨⟨stroke, head⟩, left, right⟩ := k
  cases stroke <;> cases head <;> rfl

/-- Puts the edge of a link into effect. -/
def follow (r : Relationships) (k : Link) : Relationships :=
  r.apply (k.edge 0)

theorem foldl_placed (r : Relationships) (offset : Nat) (ks : List Link) :
    ((Link.placed offset ks).map fun p => p.2.edge p.1).foldl apply r = ks.foldl follow r := by
  induction ks generalizing r offset with
  | nil => rfl
  | cons k ks ih =>
    rw [Link.placed, List.map_cons, List.foldl_cons, List.foldl_cons, ih, apply_edge, follow]

/-- Following the links of parents sets the parents. -/
theorem foldl_parentLinks (r : Relationships) (es : List (String × String)) :
    (es.map parentLink).foldl follow r = { r with parents := r.parents.insertAll es } := by
  induction es generalizing r with
  | nil => rfl
  | cons e es ih =>
    have hstep : r.follow (parentLink e) = { r with parents := r.parents.insert e.1 e.2 } := by
      simp only [follow, apply, parentLink, Link.edge, Arrow.edge, Stroke.relation,
        String.ofList_toList]
    rw [List.map_cons, List.foldl_cons, hstep, ih]
    rfl

/-- Following the links of the interfaces of a type adds them in order. -/
theorem foldl_interfaceLinks (r : Relationships) (name target : String) (targets : List String) :
    (interfaceLinks (name, target :: targets)).foldl follow r =
      { r with
        interfaces := r.interfaces.insert name
          ((target :: targets).foldl addInterface ((r.interfaces.get? name).getD [])) } := by
  induction targets generalizing r target with
  | nil =>
    simp only [interfaceLinks, List.map_cons, List.map_nil, List.foldl_cons, List.foldl_nil, follow,
      apply, Link.edge, Arrow.edge, Stroke.relation, String.ofList_toList]
  | cons next targets ih =>
    have hstep : r.follow ⟨⟨.dotted, .right⟩, name, target⟩ =
        { r with
          interfaces := r.interfaces.insert name
            (addInterface ((r.interfaces.get? name).getD []) target) } := by
      simp only [follow, apply, Link.edge, Arrow.edge, Stroke.relation, String.ofList_toList]
    have hrest := ih (r.follow ⟨⟨.dotted, .right⟩, name, target⟩) next
    rw [hstep, Table.get?_insert, if_pos rfl, Table.insert_insert, Option.getD_some] at hrest
    rw [← hstep] at hrest
    exact hrest

/-- Following the links of types that implement interfaces sets their interfaces. -/
theorem foldl_interfaces (parents : Table String String) {es : List (String × List String)}
    (hkeys : (es.map Prod.fst).Nodup) (hne : ∀ e ∈ es, e.2 ≠ []) (hnodup : ∀ e ∈ es, e.2.Nodup) :
    (es.flatMap interfaceLinks).foldl follow { parents, interfaces := .empty } =
      { parents, interfaces := .ofList es } := by
  induction es using List.reverseRecOn with
  | nil => rfl
  | append_singleton es e ih =>
    rw [List.map_append, List.map_singleton] at hkeys
    have hnew : (Table.ofList es).get? e.1 = none := by
      rw [Table.get?_eq_none_iff, Table.keys_ofList, List.mem_eraseDups]
      exact fun hm => (List.nodup_append.mp hkeys).2.2 _ hm _ (List.mem_singleton_self _) rfl
    have hold := ih (List.nodup_append.mp hkeys).1
      (fun f hf => hne f (List.mem_append_left _ hf))
      fun f hf => hnodup f (List.mem_append_left _ hf)
    have hlast : e ∈ es ++ [e] := List.mem_append_right es (List.mem_singleton_self e)
    obtain ⟨name, targets⟩ := e
    cases targets with
    | nil => exact absurd rfl (hne _ hlast)
    | cons target targets =>
      rw [List.flatMap_append, List.foldl_append, hold, List.flatMap_singleton,
        foldl_interfaceLinks, Table.ofList_concat]
      simp only [hnew, Option.getD_none]
      rw [foldl_addInterface (hnodup _ hlast), List.nil_append]

variable {declared : String → Bool} {r : Relationships}

/-- The ends of the links of well-formed relations are declared. -/
theorem WellFormed.declared_of_mem_links (h : r.WellFormed declared) {k : Link}
    (hk : k ∈ r.links) : declared k.left = true ∧ declared k.right = true := by
  rcases List.mem_append.mp hk with hk | hk
  · obtain ⟨e, he, rfl⟩ := List.mem_map.mp hk
    exact (h.parents e.1 e.2 (Table.mem_entries_iff.mp he)).symm
  · obtain ⟨e, he, hk⟩ := List.mem_flatMap.mp hk
    obtain ⟨target, ht, rfl⟩ := List.mem_map.mp hk
    have himplements := h.interfaces e.1 e.2 (Table.mem_entries_iff.mp he)
    exact ⟨himplements.source, himplements.target target ht⟩

/-- Following their own links restores well-formed relations. -/
theorem WellFormed.foldl_links (h : r.WellFormed declared) : r.links.foldl follow {} = r := by
  have himplements : ∀ e ∈ r.interfaces.entries, Implementation declared e.1 e.2 := fun e he =>
    h.interfaces e.1 e.2 (Table.mem_entries_iff.mp he)
  have hparents : (r.parents.entries.map parentLink).foldl follow {} =
      { parents := r.parents, interfaces := .empty } := by
    have hall : Table.insertAll .empty r.parents.entries = r.parents :=
      Table.ofList_entries r.parents
    rw [foldl_parentLinks, hall]
  rw [links, List.foldl_append, hparents,
    foldl_interfaces r.parents r.interfaces.nodup (fun e he => (himplements e he).ne_nil)
      fun e he => (himplements e he).nodup, Table.ofList_entries]

end Relationships

end UmlDraft
