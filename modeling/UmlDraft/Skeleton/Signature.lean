import UmlDraft.Diagram.Basic
import UmlDraft.Text.Case
import UmlDraft.Text.Scan

/-!
# Signatures

The parts of Java text that are made from names and types: keywords of kinds and visibilities,
parameter lists, accessor names, the name of the helper that a stub returns, and the imports that
the types of a file call for.
-/

namespace UmlDraft

/-- The words before the name of a type. -/
def Kind.keywords : Kind → String
  | .concreteClass => "public class"
  | .abstractClass => "public abstract class"
  | .interface => "public interface"

/-- The word before a member. Package visibility has none. -/
def Visibility.keyword : Visibility → String
  | .pub => "public"
  | .priv => "private"
  | .prot => "protected"
  | .pack => ""

namespace Signature

/-- The words of a list that are not empty, with a space between them. -/
def words (parts : List String) : String :=
  " ".intercalate (parts.filter (· ≠ ""))

/-- A parameter in a parameter list. A parameter that is no name and type stands as it is. -/
def parameter : Parameter → String
  | .typed name type => type ++ " " ++ name
  | .raw text => text

/-- The parameters between the parentheses of a method. -/
def parameters (ps : List Parameter) : String :=
  ", ".intercalate (ps.map parameter)

/-- The first unit in upper case and the rest in lower case. -/
def capitalize (name : String) : String :=
  .ofList (Text.capitalize name.toList)

/-- The helper that stands for a value of a type: its name holds the word characters of the type. -/
def placeholderHelper (type : String) : String :=
  "default" ++ .ofList (type.toList.filter Text.isWord) ++ "Value"

/-- The library types that a file imports when their name occurs in one of its signatures, each with
what is imported for it. -/
def wellKnown : List (String × List String) :=
  [("Date", ["java.util.Date"]),
    ("List", ["java.util.List", "java.util.ArrayList"]),
    ("Map", ["java.util.Map", "java.util.HashMap"]),
    ("Set", ["java.util.Set", "java.util.HashSet"])]

/-- The import lines that a list of signatures calls for. A name counts wherever it occurs, also
inside a longer word. -/
def importLines (signatures : List String) : List String :=
  (wellKnown.filter fun w =>
    signatures.any fun s => Text.occursIn w.1.toList s.toList).flatMap fun w =>
      w.2.map fun name => "import " ++ name ++ ";"

@[simp] theorem parameters_nil : parameters [] = "" := rfl

@[simp] theorem importLines_nil : importLines [] = [] := rfl

end Signature

end UmlDraft
