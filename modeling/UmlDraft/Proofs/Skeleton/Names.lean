import UmlDraft.Proofs.Skeleton.Part

/-!
# Names in generated classes

A generated class declares the accessors of its private attributes next to the methods of the
diagram, and a constructor that takes the attributes of the parent and its own. Nothing is renamed
or left out where two of them meet. Capitalising a name forgets the case of its letters, so the
getters of two attributes may have one name; a method may be declared that is written like an
accessor; and an attribute may be named like one of the parent's. Main statements: there is no other
way in which two members of a class have the same name and the same parameters, or two parameters of
a constructor the same name.
-/

namespace UmlDraft

open Text

section Accessors

variable {a b : Attribute}

end Accessors

namespace Declaration

variable {d : Declaration} {m : Model}

/-- A class inherits from a parent that is declared as a class. -/
theorem exists_parent_of_inherited_ne_nil (h : d.inherited m ≠ []) :
    ∃ p parent, m.parent? d.name = some p ∧ m.declarations.get? p = some parent ∧
      parent.kind ≠ .interface ∧ d.inherited m = parent.attributes := by
  by_cases hkind : d.kind = .interface
  · exact absurd (if_pos hkind) h
  cases hparent : (m.parent? d.name).bind m.declarations.get? with
  | none => exact absurd (by rw [inherited, if_neg hkind, hparent]) h
  | some parent =>
    obtain ⟨p, hp, hget⟩ := Option.bind_eq_some_iff.mp hparent
    have hfields : d.inherited m = parent.fields := by rw [inherited, if_neg hkind, hparent]
    by_cases hclass : parent.kind = .interface
    · exact absurd (hfields.trans (if_pos hclass)) h
    · exact ⟨p, parent, hp, hget, hclass, hfields.trans (if_neg hclass)⟩

theorem inherited_eq {p : String} {parent : Declaration} (hkind : d.kind ≠ .interface)
    (hp : m.parent? d.name = some p) (hget : m.declarations.get? p = some parent)
    (hclass : parent.kind ≠ .interface) : d.inherited m = parent.attributes := by
  have hparent : (m.parent? d.name).bind m.declarations.get? = some parent :=
    Option.bind_eq_some_iff.mpr ⟨p, hp, hget⟩
  rw [inherited, if_neg hkind, hparent]
  exact if_neg hclass

/-- No attribute of the class that a class extends is named like one of its own. -/
def AttributesApart (d : Declaration) (m : Model) : Prop :=
  ∀ p ∈ m.parent? d.name, ∀ parent ∈ m.declarations.get? p, parent.kind ≠ .interface →
    ∀ a ∈ parent.attributes, ∀ b ∈ d.attributes, a.name ≠ b.name

theorem attributesApart_iff (hkind : d.kind ≠ .interface) :
    d.AttributesApart m ↔ ∀ a ∈ d.inherited m, ∀ b ∈ d.attributes, a.name ≠ b.name := by
  constructor
  · intro h a ha
    obtain ⟨p, parent, hp, hget, hclass, heq⟩ :=
      exists_parent_of_inherited_ne_nil (List.ne_nil_of_mem ha)
    exact h p hp parent hget hclass a (heq ▸ ha)
  · intro h p hp parent hget hclass a ha
    exact h a (inherited_eq hkind hp hget hclass ▸ ha)

end Declaration

/-- In a list made of two without repetitions, what occurs in both is what is repeated. -/
theorem count_append_eq_one_iff {α : Type} [DecidableEq α] {l r : List α} {x : α} (hl : l.Nodup)
    (hr : r.Nodup) (hx : x ∈ l ++ r) : (l ++ r).count x = 1 ↔ ¬ (x ∈ l ∧ x ∈ r) := by
  rw [List.count_append, hl.count, hr.count]
  rcases List.mem_append.mp hx with h | h
  · by_cases h' : x ∈ r <;> simp [h, h']
  · by_cases h' : x ∈ l <;> simp [h, h']

section Generate

variable {source n : String} {d : Declaration} {style : Style}

theorem nodup_names_inherited
    (hnames : ∀ e ∈ (Model.ofText source).declarations.values, e.kind ≠ .interface →
      (e.attributes.map Attribute.name).Nodup) (d : Declaration) :
    ((d.inherited (Model.ofText source)).map Attribute.name).Nodup := by
  by_cases h : d.inherited (Model.ofText source) = []
  · rw [h]
    exact List.nodup_nil
  · obtain ⟨p, parent, -, hget, hclass, heq⟩ := Declaration.exists_parent_of_inherited_ne_nil h
    rw [heq]
    exact hnames parent (Table.mem_values_of_get? hget) hclass

/-- The file of an interface holds no constructor, and that of a class holds one. Where no class has
two attributes of one name, the parameters of the constructor have different names exactly if no
attribute of the parent is named like one of the class. The names that are handed on, and those of
the attributes of the class, which are assigned, are the names of the parameters in order; such a
name is that of one parameter exactly if it is not both handed on and assigned. -/
theorem Model.nodup_parameters_generate (style : Style)
    (hnames : ∀ e ∈ (Model.ofText source).declarations.values, e.kind ≠ .interface →
      (e.attributes.map Attribute.name).Nodup)
    (h : (Model.ofText source).declarations.get? n = some d) :
    ∃ file, (generate style source).get? n = some file ∧
      (d.constructors (Model.ofText source)).length = (if d.kind = .interface then 0 else 1) ∧
      ∀ k ∈ d.constructors (Model.ofText source),
        (k.text style.indentation).toList <:+: file.toList ∧ k.name = n ∧
        k.parameters.map Attribute.name = k.arguments ++ k.assigned.map Attribute.name ∧
        k.assigned = d.attributes ∧
        ((k.parameters.map Attribute.name).Nodup ↔ d.AttributesApart (Model.ofText source)) ∧
        ∀ x ∈ k.arguments ++ k.assigned.map Attribute.name,
          (k.parameters.map Attribute.name).count x = 1 ↔
            ¬ (x ∈ k.arguments ∧ x ∈ k.assigned.map Attribute.name) := by
  refine ⟨_, get?_generate h, ?_, fun k hk =>
    ⟨Declaration.infix_render_of_mem_constructors hk style, ?_⟩⟩
  · by_cases hkind : d.kind = .interface
    · rw [if_pos hkind, Declaration.constructors_of_interface hkind, List.length_nil]
    · rw [if_neg hkind, Declaration.constructors_of_class hkind, List.length_singleton]
  · by_cases hkind : d.kind = .interface
    · rw [Declaration.constructors_of_interface hkind] at hk
      cases hk
    rw [Declaration.constructors_of_class hkind, List.mem_singleton] at hk
    subst hk
    have hinherited := nodup_names_inherited hnames d
    have hown := hnames d (Table.mem_values_of_get? h) hkind
    refine ⟨(wellFormed_of_get? h).name, List.map_append, rfl, ?_, fun x hx => ?_⟩
    · rw [Declaration.attributesApart_iff hkind, List.map_append, List.nodup_append,
        and_iff_right hinherited, and_iff_right hown]
      simp only [List.forall_mem_map]
    · rw [List.map_append]
      exact count_append_eq_one_iff hinherited hown hx

/-- A class and one that extends it, each with an attribute. -/
def circleDiagram (own : String) : String :=
  "class Shape \x7b\n- id: int\n\x7d\nclass Circle extends Shape \x7b\n- " ++ own ++
    ": int\n\x7d"

/-- The first class of the diagram. -/
def shape : Declaration where
  name := "Shape"
  kind := .concreteClass
  body := "\n- id: int\n"
  attributes := [⟨.priv, "int", "id"⟩]
  methods := []
  line := 1

/-- The class that extends it. -/
def circle (own : String) : Declaration where
  name := "Circle"
  kind := .concreteClass
  body := "\n- " ++ own ++ ": int\n"
  attributes := [⟨.priv, "int", own⟩]
  methods := []
  line := 4

/-- The whole diagram. -/
def circleModel (own : String) : Model where
  declarations := .ofList [("Shape", shape), ("Circle", circle own)]
  relationships := { parents := .ofList [("Circle", "Shape")] }

theorem get?_circle {own : String} (h : Model.ofText (circleDiagram own) = circleModel own) :
    (Model.ofText (circleDiagram own)).declarations.get? "Circle" = some (circle own) := by
  rw [h]
  rfl

/-- Neither class of the diagram has two attributes of one name. -/
theorem nodup_names_circle {own : String} (h : Model.ofText (circleDiagram own) = circleModel own) :
    ∀ e ∈ (Model.ofText (circleDiagram own)).declarations.values, e.kind ≠ .interface →
      (e.attributes.map Attribute.name).Nodup := by
  have hvalues : (circleModel own).declarations.values = [shape, circle own] := rfl
  rw [h, hvalues]
  intro e he _
  simp only [List.mem_cons, List.not_mem_nil, or_false] at he
  rcases he with rfl | rfl
  · simp [shape]
  · simp [circle]

/-- Under a name that is not the parent's, an attribute is a parameter of its own. -/
theorem Model.parameters_generate_circle :
    ∃ file k, (generate {} (circleDiagram "radius")).get? "Circle" = some file ∧
      k ∈ (circle "radius").constructors (Model.ofText (circleDiagram "radius")) ∧
      (k.text "    ").toList <:+: file.toList ∧
      k.parameters = [⟨.priv, "int", "id"⟩, ⟨.priv, "int", "radius"⟩] ∧
      (circle "radius").AttributesApart (Model.ofText (circleDiagram "radius")) := by
  have hmodel : Model.ofText (circleDiagram "radius") = circleModel "radius" := by decide +kernel
  have hconstructors : (circle "radius").constructors (Model.ofText (circleDiagram "radius")) =
      [⟨"Circle", [⟨.priv, "int", "id"⟩, ⟨.priv, "int", "radius"⟩], ["id"],
        [⟨.priv, "int", "radius"⟩]⟩] := by
    rw [hmodel]
    rfl
  obtain ⟨file, hfile, -, hall⟩ :=
    nodup_parameters_generate {} (nodup_names_circle hmodel) (get?_circle hmodel)
  obtain ⟨htext, -, -, -, hnodup, -⟩ := hall _ (hconstructors ▸ List.mem_singleton_self _)
  exact ⟨file, _, hfile, hconstructors ▸ List.mem_singleton_self _, htext, rfl,
    hnodup.mp (by decide)⟩

/-- Under the name of the parent's, an attribute gives the constructor a second parameter of that
name, although no class has two attributes of one name. -/
theorem Model.parameters_clash :
    (∀ e ∈ (Model.ofText (circleDiagram "id")).declarations.values, e.kind ≠ .interface →
      (e.attributes.map Attribute.name).Nodup) ∧
    (generate {} (circleDiagram "id")).get? "Circle" = some (
      "public class Circle extends Shape \x7b\n" ++
      "    private int id;\n\n" ++
      "    public Circle(int id, int id) \x7b\n" ++
      "        super(id);\n" ++
      "        this.id = id;\n" ++
      "    \x7d\n\n" ++
      "    public int getId() \x7b\n" ++
      "        return id;\n" ++
      "    \x7d\n\n" ++
      "    public void setId(int id) \x7b\n" ++
      "        this.id = id;\n" ++
      "    \x7d\n" ++
      "\x7d\n") ∧
    ∃ k ∈ (circle "id").constructors (Model.ofText (circleDiagram "id")),
      ¬ (k.parameters.map Attribute.name).Nodup := by
  have hmodel : Model.ofText (circleDiagram "id") = circleModel "id" := by decide +kernel
  have hconstructors : (circle "id").constructors (Model.ofText (circleDiagram "id")) =
      [⟨"Circle", [⟨.priv, "int", "id"⟩, ⟨.priv, "int", "id"⟩], ["id"], [⟨.priv, "int", "id"⟩]⟩] := by
    rw [hmodel]
    rfl
  refine ⟨nodup_names_circle hmodel, ?_, _, hconstructors ▸ List.mem_singleton_self _, by decide⟩
  rw [generate, hmodel]
  decide +kernel

end Generate

end UmlDraft
