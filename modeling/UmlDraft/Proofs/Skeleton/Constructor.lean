import UmlDraft.Proofs.Skeleton.Names

/-!
# Constructors that call each other

The constructor of a class takes the attributes of the parent before its own, and hands the names of
the former on to the constructor of the parent. That one takes what the parent inherits as well, of
which the class knows nothing, since no ancestor is visited but the parent. Main statement: what a
class hands on is what its parent takes exactly if the parent inherits no attributes. Nothing is
asked of the rest of the inheritance graph, which may have cycles.
-/

namespace UmlDraft

namespace Declaration

variable {d : Declaration} {m : Model}

end Declaration

section Generate

variable {source n p : String} {c parent : Declaration} {style : Style}

/-- A type inherits no attributes from another: it has no parent, or its parent is an interface, or
the parent declares none. -/
def Model.InheritsNothing (m : Model) (name : String) : Prop :=
  m.relationships.parents.get? name = none ∨
    ∃ q ∈ m.relationships.parents.get? name, ∃ e ∈ m.declarations.get? q,
      e.kind = .interface ∨ e.attributes = []

/-- A class of a diagram that is read has the attributes of its parent, if it has any but its
own. -/
theorem inherited_eq_nil_iff (hp : (Model.ofText source).declarations.get? p = some parent)
    (hsuper : parent.kind ≠ .interface) :
    parent.inherited (Model.ofText source) = [] ↔ (Model.ofText source).InheritsNothing p := by
  have hname : parent.name = p := (Model.wellFormed_of_get? hp).name
  have hparent : (Model.ofText source).parent? parent.name =
      (Model.ofText source).relationships.parents.get? p := by
    rw [parent?_ofText, hname]
  constructor
  · intro hnil
    cases hq : (Model.ofText source).relationships.parents.get? p with
    | none => exact .inl hq
    | some q =>
      -- The parent of a class is declared: a relation to any other type is dropped.
      have hdeclared := ((Model.wellFormed_relationships source).parents p q hq).2
      obtain ⟨e, he⟩ := Table.mem_keys_iff.mp (Table.contains_eq_true.mp hdeclared)
      refine .inr ⟨q, hq, e, he, ?_⟩
      by_cases hkind : e.kind = .interface
      · exact .inl hkind
      · exact .inr ((Declaration.inherited_eq hsuper (hparent.trans hq) he hkind).symm.trans hnil)
  · intro hnothing
    by_contra hne
    obtain ⟨q, e, hq, he, hkind, heq⟩ := Declaration.exists_parent_of_inherited_ne_nil hne
    rw [hparent] at hq
    rcases hnothing with hnone | ⟨q', hq', e', he', hempty⟩
    · cases hnone.symm.trans hq
    · cases hq'.symm.trans hq
      cases he'.symm.trans he
      rcases hempty with hinterface | hnil
      · exact hkind hinterface
      · exact hne (heq.trans hnil)

/-- The constructor of a class whose parent is a class takes the parent's own attributes and then
those of the class. What it hands on to the constructor of the parent are the names of the
parameters of that constructor exactly if the parent inherits no attributes. The class may be its
own parent. -/
theorem Model.constructors_generate (style : Style)
    (hc : (ofText source).declarations.get? n = some c) (hclass : c.kind ≠ .interface)
    (hextends : (ofText source).relationships.parents.get? n = some p)
    (hp : (ofText source).declarations.get? p = some parent) (hsuper : parent.kind ≠ .interface) :
    ∃ (file parentFile : String) (k l : Constructor),
      (generate style source).get? n = some file ∧
      (generate style source).get? p = some parentFile ∧
      (c.constructors (ofText source) = [k] ∧
        (k.text style.indentation).toList <:+: file.toList) ∧
      (parent.constructors (ofText source) = [l] ∧
        (l.text style.indentation).toList <:+: parentFile.toList) ∧
      (k.name = n ∧ l.name = p) ∧
      k.parameters = parent.attributes ++ c.attributes ∧
      (k.arguments = l.parameters.map Attribute.name ↔ (ofText source).InheritsNothing p) := by
  have hname : c.name = n := (wellFormed_of_get? hc).name
  have hinherited : c.inherited (ofText source) = parent.attributes :=
    Declaration.inherited_eq hclass (by rw [parent?_ofText, hname, hextends]) hp hsuper
  have hk := Declaration.constructors_of_class (m := ofText source) hclass
  have hl := Declaration.constructors_of_class (m := ofText source) hsuper
  rw [hinherited] at hk
  refine ⟨_, _, _, _, get?_generate hc, get?_generate hp,
    ⟨hk, Declaration.infix_render_of_mem_constructors (by rw [hk]; exact List.mem_cons_self) style⟩,
    ⟨hl, Declaration.infix_render_of_mem_constructors (by rw [hl]; exact List.mem_cons_self) style⟩,
    ⟨hname, (wellFormed_of_get? hp).name⟩, rfl, ?_⟩
  rw [← inherited_eq_nil_iff hp hsuper, List.map_append, List.self_eq_append_left,
    List.map_eq_nil_iff]

/-- A class that extends itself, with an attribute. -/
def nodeDiagram : String :=
  "class Node extends Node \x7b\n- next: Node\n\x7d"

/-- The class of the diagram. -/
def node : Declaration where
  name := "Node"
  kind := .concreteClass
  body := "\n- next: Node\n"
  attributes := [⟨.priv, "Node", "next"⟩]
  methods := []
  line := 1

/-- The constructor of a class whose parent has no parent fits. That of a class which is its own
parent hands on one name, and takes two. -/
theorem Model.constructors_generate_circle :
    (∃ k l : Constructor, (circle "radius").constructors (ofText (circleDiagram "radius")) = [k] ∧
      shape.constructors (ofText (circleDiagram "radius")) = [l] ∧
      k.arguments = l.parameters.map Attribute.name) ∧
    ∃ k : Constructor, node.constructors (ofText nodeDiagram) = [k] ∧
      k.parameters = node.attributes ++ node.attributes ∧
      k.arguments ≠ k.parameters.map Attribute.name := by
  constructor
  · have hmodel : ofText (circleDiagram "radius") = circleModel "radius" := by decide +kernel
    have hshape : (ofText (circleDiagram "radius")).declarations.get? "Shape" = some shape := by
      rw [hmodel]
      rfl
    have hextends : (ofText (circleDiagram "radius")).relationships.parents.get? "Circle" =
        some "Shape" := by
      rw [hmodel]
      rfl
    have hroot : (ofText (circleDiagram "radius")).relationships.parents.get? "Shape" = none := by
      rw [hmodel]
      rfl
    obtain ⟨-, -, k, l, -, -, ⟨hk, -⟩, ⟨hl, -⟩, -, -, hfits⟩ :=
      constructors_generate {} (get?_circle hmodel) (show Kind.concreteClass ≠ _ by decide)
        hextends hshape (by decide)
    exact ⟨k, l, hk, hl, hfits.mpr (.inl hroot)⟩
  · have hmodel : ofText nodeDiagram =
        ⟨.ofList [("Node", node)], { parents := .ofList [("Node", "Node")] }, []⟩ := by
      decide +kernel
    have hnode : (ofText nodeDiagram).declarations.get? "Node" = some node := by
      rw [hmodel]
      rfl
    have hextends : (ofText nodeDiagram).relationships.parents.get? "Node" = some "Node" := by
      rw [hmodel]
      rfl
    obtain ⟨-, -, k, l, -, -, ⟨hk, -⟩, ⟨hl, -⟩, -, hparameters, hfits⟩ :=
      constructors_generate {} hnode (by decide) hextends hnode (by decide)
    -- The class is its own parent, so there is one constructor.
    cases hk.symm.trans hl
    refine ⟨k, hk, hparameters, fun h => ?_⟩
    rcases hfits.mp h with hnone | ⟨q, hq, e, he, hempty⟩
    · cases hnone.symm.trans hextends
    · cases hq.symm.trans hextends
      cases he.symm.trans hnode
      rcases hempty with hinterface | hnil
      · cases hinterface
      · cases hnil

end Generate

end UmlDraft
