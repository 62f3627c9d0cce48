import UmlDraft.Diagram.Model
import UmlDraft.Proofs.Diagram.Header
import UmlDraft.Proofs.Diagram.PlainType
import UmlDraft.Proofs.Text.Join
import UmlDraft.Report.Listing

/-!
# Printed diagrams

The canonical text of a diagram: every declaration with one line for each of its members, then one
line for each parent and one for each implemented interface. A diagram is printable if its names
are words, its types are plain texts of types, its parameters are names with types, and its
relations are those of declared names. Printing keeps everything but the bodies and the lines of
declarations, which are those of the printed text.
-/

namespace UmlDraft

open Text TypeToken

/-- The text of a parameter, as it is listed. -/
def Parameter.print (p : Parameter) : List Char :=
  (Listing.parameterText p).toList

/-- The line of an attribute: two spaces, then the attribute as it is listed. -/
def Attribute.print (a : Attribute) : List Char :=
  ("  " ++ Listing.attributeLine a).toList

/-- The line of a method: two spaces, then the method as it is listed. -/
def Method.print (m : Method) : List Char :=
  ("  " ++ Listing.methodLine m).toList

namespace Declaration

/-- The lines of the members of a declaration, attributes first. -/
def memberLines (d : Declaration) : List (List Char) :=
  d.attributes.map Attribute.print ++ d.methods.map Method.print

/-- The text between the braces of a printed declaration. -/
def printedBody (d : Declaration) : List Char :=
  '\n' :: lines d.memberLines

/-- The header of a printed declaration, up to its opening brace. -/
def printedHeader (d : Declaration) : List Char :=
  (d.kind.label ++ " " ++ d.name ++ " \x7b").toList

/-- The text of a declaration: its header, its members, its closing brace, each with a line feed. -/
def print (d : Declaration) : List Char :=
  d.printedHeader ++ (d.printedBody ++ ['}', '\n'])

/-- The number of lines of a printed declaration. -/
def height (d : Declaration) : Nat :=
  d.memberLines.length + 2

/-- The declaration as it is read from its printed text on a given line. -/
def printed (line : Nat) (d : Declaration) : Declaration :=
  { d with body := .ofList d.printedBody, line }

/-- The declarations as they are read when they are printed one after the other. -/
def printedFrom (line : Nat) : List (String × Declaration) → List (String × Declaration)
  | [] => []
  | e :: rest => (e.1, e.2.printed line) :: printedFrom (line + e.2.height) rest

end Declaration

/-- The line of a parent: `P <|-- C`. -/
def printParent (e : String × String) : List Char :=
  (e.2 ++ " <|-- " ++ e.1).toList

/-- The lines of the interfaces of a type: `C ..|> I` for each. -/
def printInterfaces (e : String × List String) : List (List Char) :=
  e.2.map fun target => (e.1 ++ " ..|> " ++ target).toList

/-- The lines of the relations of a diagram. -/
def Relationships.lines (r : Relationships) : List (List Char) :=
  r.parents.entries.map printParent ++ r.interfaces.entries.flatMap printInterfaces

/-- The canonical text of a diagram. -/
def Model.print (m : Model) : String :=
  .ofList (m.declarations.values.flatMap Declaration.print ++ Text.lines m.relationships.lines)

/-- A parameter with a name and a plain type without commas. -/
inductive Parameter.Printable : Parameter → Prop
  /-- The name and the type. -/
  | typed {name type : String} (isName : IsName name.toList) (isType : IsPlainType type.toList)
    (comma : ',' ∉ type.toList) : Parameter.Printable (.typed name type)

/-- An attribute with a name and a plain type. -/
structure Attribute.Printable (a : Attribute) : Prop where
  /-- The name is a word. -/
  name : IsName a.name.toList
  /-- The type is plain. -/
  type : IsPlainType a.type.toList

/-- A method with a name, a plain return type and printable parameters. -/
structure Method.Printable (m : Method) : Prop where
  /-- The name is a word. -/
  name : IsName m.name.toList
  /-- The return type is plain. -/
  returnType : IsPlainType m.returnType.toList
  /-- The parameters are names with types. -/
  parameters : ∀ p ∈ m.parameters, p.Printable

/-- A declaration with a name and printable members. -/
structure Declaration.Printable (d : Declaration) : Prop where
  /-- The name is a word. -/
  name : IsName d.name.toList
  /-- The attributes are printable. -/
  attributes : ∀ a ∈ d.attributes, a.Printable
  /-- The methods are printable. -/
  methods : ∀ m ∈ d.methods, m.Printable

/-- A diagram whose printed text says all of it. -/
structure Model.Printable (m : Model) : Prop where
  /-- Declarations are listed under their names. -/
  names : ∀ e ∈ m.declarations.entries, e.2.name = e.1
  /-- Every declaration is printable. -/
  declarations : ∀ d ∈ m.declarations.values, d.Printable
  /-- Every child and every parent is declared. -/
  parents : ∀ e ∈ m.relationships.parents.entries,
    e.1 ∈ m.declarations.keys ∧ e.2 ∈ m.declarations.keys
  /-- Every type that implements interfaces is declared. -/
  implementing : ∀ e ∈ m.relationships.interfaces.entries, e.1 ∈ m.declarations.keys
  /-- Every implemented interface is declared. -/
  implemented : ∀ e ∈ m.relationships.interfaces.entries, ∀ i ∈ e.2, i ∈ m.declarations.keys
  /-- A type that implements interfaces implements at least one. -/
  ne_nil : ∀ e ∈ m.relationships.interfaces.entries, e.2 ≠ []
  /-- No type implements an interface twice. -/
  nodup : ∀ e ∈ m.relationships.interfaces.entries, e.2.Nodup

/-- The symbol of a visibility as a character. -/
def Visibility.sign : Visibility → Char
  | .pub => '+'
  | .priv => '-'
  | .prot => '#'
  | .pack => '~'

theorem Visibility.symbol_toList (v : Visibility) : v.symbol.toList = [v.sign] := by
  cases v with
  | pub | priv | prot | pack => decide

/-- What stands before the text of a member: two spaces, its symbol and a space. -/
def Visibility.print (v : Visibility) : List Char :=
  [' ', ' ', v.sign, ' ']

theorem Parameter.print_typed (name type : String) :
    (Parameter.typed name type).print = name.toList ++ ':' :: ' ' :: type.toList := by
  have hcolon : ": ".toList = [':', ' '] := by decide
  rw [print, Listing.parameterText, String.toList_append, String.toList_append, hcolon,
    List.append_assoc]
  rfl

theorem Attribute.print_eq (a : Attribute) :
    a.print = a.visibility.print ++ (a.name.toList ++ ':' :: ' ' :: a.type.toList) := by
  have hindent : "  ".toList = [' ', ' '] := by decide
  have hspace : " ".toList = [' '] := by decide
  have hcolon : ": ".toList = [':', ' '] := by decide
  simp only [print, Listing.attributeLine, String.toList_append, a.visibility.symbol_toList,
    hindent, hspace, hcolon, Visibility.print, List.append_assoc, List.cons_append, List.nil_append]

/-- The markers of a method, with a space behind each. -/
def Method.markers (m : Method) : List Char :=
  (if m.isAbstract then "\x7babstract\x7d".toList ++ [' '] else []) ++
    (if m.isStatic then "\x7bstatic\x7d".toList ++ [' '] else [])

/-- The name of a method with its parameters and its return type. -/
def Method.signature (m : Method) : List Char :=
  m.name.toList ++ ('(' :: (commaList (m.parameters.map Parameter.print) ++
    (')' :: ':' :: ' ' :: m.returnType.toList)))

theorem Method.markers_toList (m : Method) : (Listing.markers m).toList = m.markers := by
  unfold Listing.markers markers
  cases m.isAbstract <;> cases m.isStatic <;> decide

theorem Method.print_eq (m : Method) :
    m.print = m.visibility.print ++ (m.markers ++ m.signature) := by
  have hindent : "  ".toList = [' ', ' '] := by decide
  have hspace : " ".toList = [' '] := by decide
  have hopen : "(".toList = ['('] := by decide
  have hclose : "): ".toList = [')', ':', ' '] := by decide
  have hlist : (", ".intercalate (m.parameters.map Listing.parameterText)).toList =
      commaList (m.parameters.map Parameter.print) := by
    rw [toList_intercalate_comma, List.map_map]
    rfl
  simp only [print, Listing.methodLine, String.toList_append, m.visibility.symbol_toList,
    m.markers_toList, hindent, hspace, hopen, hclose, hlist, Visibility.print, signature,
    List.append_assoc, List.cons_append, List.nil_append]

theorem Kind.label_toList (kind : Kind) : kind.label.toList ++ [' '] = kind.introduction := by
  cases kind with
  | concreteClass | abstractClass | interface => decide

theorem Declaration.printedHeader_eq (d : Declaration) :
    d.printedHeader = d.kind.introduction ++ (d.name.toList ++ [' ', '{']) := by
  have hspace : " ".toList = [' '] := by decide
  have hopen : " \x7b".toList = [' ', '{'] := by decide
  rw [printedHeader, String.toList_append, String.toList_append, String.toList_append, hspace,
    hopen, d.kind.label_toList, List.append_assoc]

end UmlDraft
