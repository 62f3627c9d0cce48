import UmlDraft.Decimal.Basic
import UmlDraft.Diagram.Basic

/-!
# Listings

A diagram as text for people: a line with the counts, each declaration with a line for every member,
the relations, and the names that were declared again. A member is written as a diagram writes it.
-/

namespace UmlDraft

/-- The symbol of a visibility. -/
def Visibility.symbol : Visibility → String
  | .pub => "+"
  | .priv => "-"
  | .prot => "#"
  | .pack => "~"

/-- The words for a kind. -/
def Kind.label : Kind → String
  | .concreteClass => "class"
  | .abstractClass => "abstract class"
  | .interface => "interface"

namespace Listing

/-- An attribute. -/
def attributeLine (a : Attribute) : String :=
  a.visibility.symbol ++ " " ++ a.name ++ ": " ++ a.type

/-- A parameter. -/
def parameterText : Parameter → String
  | .typed name type => name ++ ": " ++ type
  | .raw text => text

/-- The markers of a method. -/
def markers (m : Method) : String :=
  (if m.isAbstract then "\x7babstract\x7d " else "") ++
    if m.isStatic then "\x7bstatic\x7d " else ""

/-- A method. -/
def methodLine (m : Method) : String :=
  m.visibility.symbol ++ " " ++ markers m ++ m.name ++ "(" ++
    ", ".intercalate (m.parameters.map parameterText) ++ "): " ++ m.returnType

/-- A declaration and its members. -/
def declarationLines (d : Declaration) : List String :=
  (d.kind.label ++ " " ++ d.name ++ " (line " ++ (Decimal.ofInt d.line).text ++ ")") ::
    (d.attributes.map fun a => "  " ++ attributeLine a) ++ d.methods.map fun m => "  " ++ methodLine m

/-- The relations, parents first. -/
def relations (r : Relationships) : List String :=
  (r.parents.entries.map fun e => "  " ++ e.1 ++ " extends " ++ e.2) ++
    r.interfaces.entries.flatMap fun e => e.2.map fun i => "  " ++ e.1 ++ " implements " ++ i

/-- The lines of a diagram. -/
def lines (m : Model) : List String :=
  ["Parsed " ++ toString m.declarations.size ++ " declarations, " ++
    toString m.relationships.count ++ " relationships"] ++
  m.declarations.values.flatMap declarationLines ++
  (if relations m.relationships = [] then []
    else "Relationships:" :: relations m.relationships) ++
  if m.duplicates = [] then [] else ["Duplicates: " ++ ", ".intercalate m.duplicates]

/-- One line for each relation. -/
theorem length_relations (r : Relationships) : (relations r).length = r.count := by
  have h (es : List (String × List String)) (f : String → String → String) :
      (es.flatMap fun e => e.2.map (f e.1)).length = (es.map Prod.snd).flatten.length := by
    induction es with
    | nil => rfl
    | cons e rest ih => simp only [List.flatMap_cons, List.map_cons, List.flatten_cons,
        List.length_append, List.length_map, ih]
  unfold relations Relationships.count
  rw [List.length_append, List.length_map]
  exact congrArg (r.parents.entries.length + ·)
    (h r.interfaces.entries fun name i => "  " ++ name ++ " implements " ++ i)

end Listing

/-- The listing of a diagram. -/
def Model.listing (m : Model) : String :=
  "\n".intercalate (Listing.lines m)

end UmlDraft
