import UmlDraft.Proofs.Skeleton.Source

/-!
# Generated interfaces

Of a declared interface the generated file shows the name, the parent and the profiles of the
methods. Attributes, visibilities, modifiers, implemented interfaces and all else in the diagram are
left out, each at another place of the layout. Main statement: two interfaces that agree in what is
shown have the same file, whatever the diagrams around them are.
-/

namespace UmlDraft

/-- The profile of a method, which is what an interface shows of it: its name, its parameters and its
return type. -/
def Method.profile (m : Method) : String × List Parameter × String :=
  (m.name, m.parameters, m.returnType)

/-- What is made of methods by their profiles agrees if the profiles do. -/
theorem map_eq_of_profiles {β : Type} {f : Method → β} {ms ns : List Method}
    (hf : ∀ m n : Method, m.profile = n.profile → f m = f n)
    (h : ms.map Method.profile = ns.map Method.profile) : ms.map f = ns.map f := by
  induction ms generalizing ns with
  | nil =>
    cases ns with
    | nil => rfl
    | cons n ns => cases h
  | cons m ms ih =>
    cases ns with
    | nil => cases h
    | cons n ns =>
      rw [List.map_cons, List.map_cons, List.cons.injEq] at h
      rw [List.map_cons, List.map_cons, hf m n h.1, ih h.2]

/-- Methods with one profile print the same line in an interface. -/
theorem Block.lines_signature_eq {m n : Method} (h : m.profile = n.profile) (indent : String) :
    lines indent (.signature m) = lines indent (.signature n) := by
  simp only [Method.profile, Prod.mk.injEq] at h
  simp only [lines, call, h]

namespace Declaration

variable {d e : Declaration} {m n : Model}

theorem fields_of_interface (hkind : d.kind = .interface) : d.fields = [] :=
  if_pos hkind

/-- An interface inherits no attributes. -/
theorem inherited_of_interface (hkind : d.kind = .interface) (m : Model) : d.inherited m = [] :=
  if_pos hkind

/-- The blocks of an interface are the signatures of its methods. -/
theorem blocks_of_interface (hkind : d.kind = .interface) (m : Model) :
    d.blocks m = d.methods.map .signature := by
  have hmethod : Block.ofMethod .interface = .signature := rfl
  rw [blocks, fields_of_interface hkind, if_pos rfl, if_pos hkind, hkind, hmethod]
  rfl

/-- In the file of an interface, types are looked for in the signatures of its methods alone. -/
theorem signatures_of_interface (hkind : d.kind = .interface) (m : Model) :
    d.signatures m = d.methods.flatMap fun method =>
      [Signature.parameters method.parameters, method.returnType] := by
  rw [signatures, fields_of_interface hkind, inherited_of_interface hkind]
  rfl

/-- The header of an interface names its parent, but no interface that it would implement. -/
theorem headerLine_eq_of_interface (hd : d.kind = .interface) (he : e.kind = .interface)
    (hname : d.name = e.name) (hparent : m.parent? d.name = n.parent? e.name) :
    d.headerLine m = e.headerLine n := by
  rw [headerLine, headerLine, if_pos (.inl hd), if_pos (.inl he), hparent, hd, he, hname]

theorem signatures_eq_of_interface (hd : d.kind = .interface) (he : e.kind = .interface)
    (hmethods : d.methods.map Method.profile = e.methods.map Method.profile) :
    d.signatures m = e.signatures n := by
  rw [signatures_of_interface hd, signatures_of_interface he, List.flatMap_def, List.flatMap_def]
  refine congrArg List.flatten (map_eq_of_profiles (fun a b h => ?_) hmethods)
  simp only [Method.profile, Prod.mk.injEq] at h
  simp only [h]

theorem bodyText_eq_of_interface (hd : d.kind = .interface) (he : e.kind = .interface)
    (hmethods : d.methods.map Method.profile = e.methods.map Method.profile) (style : Style) :
    d.bodyText style m = e.bodyText style n := by
  -- An interface without methods has no body, so both have to be without.
  have hnil : d.methods = [] ↔ e.methods = [] := by
    rw [← List.map_eq_nil_iff (f := Method.profile), hmethods, List.map_eq_nil_iff]
  have hlines : d.methods.map (fun method =>
      "\n".intercalate ((Block.signature method).lines style.indentation)) =
        e.methods.map fun method =>
          "\n".intercalate ((Block.signature method).lines style.indentation) :=
    map_eq_of_profiles (fun a b h => by rw [Block.lines_signature_eq h]) hmethods
  rw [bodyText, bodyText, blocks_of_interface hd, blocks_of_interface he, List.map_map,
    List.map_map]
  simp only [List.map_eq_nil_iff, hnil, Function.comp_def, hlines]

/-- The file of an interface is made of its name, its parent and the profiles of its methods. Two
interfaces that agree in these have the same file in any layout, though they may differ in all else
and stand in different diagrams. -/
theorem render_eq_of_interface (hd : d.kind = .interface) (he : e.kind = .interface)
    (hname : d.name = e.name)
    (hmethods : d.methods.map Method.profile = e.methods.map Method.profile)
    (hparent : m.relationships.parents.get? d.name = n.relationships.parents.get? e.name)
    (style : Style) : d.render style m = e.render style n := by
  have hheader : d.headerLine m = e.headerLine n :=
    headerLine_eq_of_interface hd he hname (by rw [Model.parent?, Model.parent?, hparent])
  have hpreamble : d.preamble style m = e.preamble style n := by
    rw [preamble, preamble, signatures_eq_of_interface hd he hmethods]
  rw [render, render, hpreamble, hheader, bodyText_eq_of_interface hd he hmethods]

/-- An interface with one method. -/
def area : Declaration where
  name := "Area"
  kind := .interface
  body := ""
  attributes := []
  methods := [⟨.pub, "size", [.typed "unit" "Unit"], "double", false, false⟩]
  line := 1

/-- The same interface with an attribute, and with modifiers on its method. -/
def annotatedArea : Declaration :=
  { area with
    attributes := [⟨.priv, "Date", "since"⟩]
    methods := [⟨.prot, "size", [.typed "unit" "Unit"], "double", true, true⟩]
    line := 7 }

/-- A diagram in which the given interface extends another. -/
def areaModel (d : Declaration) (others : List (String × Declaration))
    (interfaces : Table String (List String)) : Model where
  declarations := .ofList (("Area", d) :: others)
  relationships := { parents := .ofList [("Area", "Measured")], interfaces := interfaces }

/-- Neither the attribute nor the modifiers show, nor that in one of the diagrams the parent is a
class with an attribute, and is implemented. -/
theorem render_eq_of_interface_area :
    (area.kind = .interface ∧ annotatedArea.kind = .interface ∧ area ≠ annotatedArea) ∧
      ∀ style : Style, area.render style (areaModel area [] .empty) =
        annotatedArea.render style (areaModel annotatedArea
          [("Measured", ⟨"Measured", .concreteClass, "", [⟨.pub, "List<Unit>", "units"⟩], [], 9⟩)]
          (.ofList [("Area", ["Measured"])])) :=
  ⟨⟨rfl, rfl, by decide⟩, render_eq_of_interface rfl rfl rfl rfl rfl⟩

end Declaration

end UmlDraft
