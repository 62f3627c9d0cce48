import UmlDraft.Diagram.Model
import UmlDraft.Skeleton.Block

/-!
# Generated sources

One Java file for each declared type: an optional package line, the imports, the header with its
clauses, and the blocks. A class takes over the attributes of its direct parent, if that is a class,
and of no other ancestor. An empty package or parent name counts as none.

A package name and an indentation are texts of whole characters. Half of a surrogate pair that
stands alone is none: where the settings of a run name one, it is the replacement character that
the files hold.
-/

namespace UmlDraft

/-- How generated files are laid out. -/
structure Style where
  /-- The package of every file. -/
  packageName : Option String := none
  /-- One level of indentation, four spaces if nothing is said. -/
  indent : Option String := none
  deriving DecidableEq, Repr

/-- Four spaces. -/
def Style.defaultIndent : String :=
  "    "

/-- One level of indentation. -/
def Style.indentation (s : Style) : String :=
  s.indent.getD Style.defaultIndent

/-- The parent of a type. -/
def Model.parent? (m : Model) (name : String) : Option String :=
  (m.relationships.parents.get? name).filter (· ≠ "")

/-- The interfaces that a type implements. -/
def Model.interfacesOf (m : Model) (name : String) : List String :=
  (m.relationships.interfaces.get? name).getD []

namespace Declaration

/-- The attributes that become fields: an interface has none. -/
def fields (d : Declaration) : List Attribute :=
  if d.kind = .interface then [] else d.attributes

/-- The attributes of the direct parent, if both it and the type are classes. -/
def inherited (d : Declaration) (m : Model) : List Attribute :=
  if d.kind = .interface then []
  else
    match (m.parent? d.name).bind m.declarations.get? with
    | some parent => parent.fields
    | none => []

/-- The line that opens a generated type. -/
def headerLine (d : Declaration) (m : Model) : String :=
  d.kind.keywords ++ " " ++ d.name ++
    (match m.parent? d.name with
      | some parent => " extends " ++ parent
      | none => "") ++
    (if d.kind = .interface ∨ m.interfacesOf d.name = [] then ""
      else " implements " ++ ", ".intercalate (m.interfacesOf d.name)) ++
    " \x7b"

/-- The blocks of a generated type. -/
def blocks (d : Declaration) (m : Model) : List Block :=
  (if d.fields = [] then [] else [.fields d.fields]) ++
  (if d.kind = .interface then []
    else .construction d.name (d.inherited m) d.fields :: d.fields.flatMap Block.accessors) ++
  d.methods.map (Block.ofMethod d.kind)

/-- The texts in which the names of imported types are looked for. -/
def signatures (d : Declaration) (m : Model) : List String :=
  d.fields.map Attribute.type ++ (d.inherited m).map Attribute.type ++
    d.methods.flatMap fun method =>
      [Signature.parameters method.parameters, method.returnType]

/-- The lines before the header. -/
def preamble (style : Style) (d : Declaration) (m : Model) : List String :=
  let imports := Signature.importLines (d.signatures m)
  (match style.packageName.filter (· ≠ "") with
    | some name => ["package " ++ name ++ ";", ""]
    | none => []) ++
  if imports = [] then [] else imports ++ [""]

/-- The text between the header and the closing brace, if there is one. -/
def bodyText (style : Style) (d : Declaration) (m : Model) : List String :=
  if d.blocks m = [] then []
  else
    ["\n\n".intercalate ((d.blocks m).map fun b =>
      "\n".intercalate (b.lines style.indentation))]

/-- The text of the file for a declared type. -/
def render (style : Style) (d : Declaration) (m : Model) : String :=
  "\n".intercalate
    (d.preamble style m ++ [d.headerLine m] ++ d.bodyText style m ++ ["\x7d"]) ++ "\n"

end Declaration

/-- The text of every generated file by the name of its type, in the order of the declarations. -/
def Model.render (style : Style) (m : Model) : Table String String :=
  .ofList (m.declarations.values.map fun d => (d.name, d.render style m))

/-- The generated files of a diagram text. -/
def generate (style : Style) (source : String) : Table String String :=
  (Model.ofText source).render style

end UmlDraft
