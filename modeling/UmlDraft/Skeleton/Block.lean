import UmlDraft.Skeleton.Signature
import UmlDraft.Diagram.Member

/-!
# Blocks

The body of a generated type is a list of blocks with an empty line between them: the fields, the
constructor, the accessors of each private field, and the methods. Blocks are data first and lines of
text second. An interface has method signatures only.
-/

namespace UmlDraft

/-- A piece of the body of a generated type. -/
inductive Block where
  /-- The declarations of the fields. -/
  | fields (own : List Attribute)
  /-- The constructor, which takes the inherited attributes and then the type's own. -/
  | construction (name : String) (inherited own : List Attribute)
  /-- The method that returns a field. -/
  | getter (a : Attribute)
  /-- The method that sets a field. -/
  | setter (a : Attribute)
  /-- A method of an interface. -/
  | signature (m : Method)
  /-- A method without a body. -/
  | abstractMethod (m : Method)
  /-- A method with a body to be filled in. -/
  | stub (m : Method)
  deriving DecidableEq, Repr

namespace Block

/-- The block of a method in a type of the given kind. Only a public method of an abstract class is
left without a body. -/
def ofMethod (kind : Kind) (m : Method) : Block :=
  match kind with
  | .interface => .signature m
  | .abstractClass =>
    if m.visibility = .pub ∧ m.isAbstract then .abstractMethod m else .stub m
  | .concreteClass => .stub m

/-- The accessors of a field. Only private fields have some. -/
def accessors (a : Attribute) : List Block :=
  if a.visibility = .priv then [.getter a, .setter a] else []

/-- The name of a method and its parameters. -/
def call (m : Method) : String :=
  m.name ++ "(" ++ Signature.parameters m.parameters ++ ")"

/-- The head of a method of a class. -/
def head (m : Method) (isAbstract : Bool) : String :=
  Signature.words
    [m.visibility.keyword, if isAbstract then "abstract" else "",
      if m.isStatic then "static" else "", m.returnType, call m]

/-- A type and a name. -/
def typedName (a : Attribute) : String :=
  a.type ++ " " ++ a.name

/-- The lines of a block, given one level of indentation. -/
def lines (indent : String) : Block → List String
  | .fields own =>
    own.map fun a =>
      indent ++ Signature.words [a.visibility.keyword, a.type, a.name] ++ ";"
  | .construction name inherited own =>
    [indent ++ "public " ++ name ++ "(" ++
      ", ".intercalate ((inherited ++ own).map typedName) ++ ") \x7b"] ++
    (if inherited = [] then []
      else [indent ++ indent ++ "super(" ++ ", ".intercalate (inherited.map Attribute.name) ++
        ");"]) ++
    own.map (fun a => indent ++ indent ++ "this." ++ a.name ++ " = " ++ a.name ++ ";") ++
    [indent ++ "\x7d"]
  | .getter a =>
    [indent ++ "public " ++ a.type ++ " get" ++ Signature.capitalize a.name ++ "() \x7b",
      indent ++ indent ++ "return " ++ a.name ++ ";",
      indent ++ "\x7d"]
  | .setter a =>
    [indent ++ "public void set" ++ Signature.capitalize a.name ++ "(" ++ typedName a ++ ") \x7b",
      indent ++ indent ++ "this." ++ a.name ++ " = " ++ a.name ++ ";",
      indent ++ "\x7d"]
  | .signature m => [indent ++ "public " ++ m.returnType ++ " " ++ call m ++ ";"]
  | .abstractMethod m => [indent ++ head m true ++ ";"]
  | .stub m =>
    [indent ++ head m false ++ " \x7b",
      indent ++ indent ++ "// TODO: Implement method logic"] ++
    (if m.returnType = Member.defaultReturnType then []
      else [indent ++ indent ++ "return " ++ Signature.placeholderHelper m.returnType ++
        "(); // Placeholder return"]) ++
    [indent ++ "\x7d"]

end Block

end UmlDraft
