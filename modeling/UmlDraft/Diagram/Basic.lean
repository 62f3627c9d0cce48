import UmlDraft.Table

/-!
# Class diagrams

What a class diagram says: the declared types with their attributes and methods, which type
generalises which, and which interfaces a type realises.
-/

namespace UmlDraft

/-- Who may use a member. -/
inductive Visibility where
  /-- Everyone. -/
  | pub
  /-- The declaring type alone. -/
  | priv
  /-- The declaring type and those that extend it. -/
  | prot
  /-- The types of the same package. -/
  | pack
  deriving DecidableEq, Repr

/-- The written form of a visibility. -/
def Visibility.name : Visibility → String
  | .pub => "public"
  | .priv => "private"
  | .prot => "protected"
  | .pack => "package"

/-- What sort of type is declared. -/
inductive Kind where
  /-- A class that may have instances of its own. -/
  | concreteClass
  /-- A class declared abstract. -/
  | abstractClass
  /-- An interface, which holds method signatures only. -/
  | interface
  deriving DecidableEq, Repr

/-- The written form of a kind. -/
def Kind.name : Kind → String
  | .concreteClass => "class"
  | .abstractClass => "abstract_class"
  | .interface => "interface"

/-- A named value of a declared type. -/
structure Attribute where
  /-- Who may use the attribute. -/
  visibility : Visibility
  /-- The text of its type. -/
  type : String
  /-- Its name. -/
  name : String
  deriving DecidableEq, Repr

/-- A method parameter. A parameter whose text has exactly one colon is a name and a type; any
other keeps its text. -/
inductive Parameter where
  /-- A parameter written `name: type`. -/
  | typed (name type : String)
  /-- A parameter written in any other way. -/
  | raw (text : String)
  deriving DecidableEq, Repr

/-- An operation of a declared type. -/
structure Method where
  /-- Who may call the method. -/
  visibility : Visibility
  /-- Its name. -/
  name : String
  /-- Its parameters in order. -/
  parameters : List Parameter
  /-- The text of its return type. -/
  returnType : String
  /-- Whether it is marked abstract. -/
  isAbstract : Bool
  /-- Whether it is marked static. -/
  isStatic : Bool
  deriving DecidableEq, Repr

/-- A declared type. -/
structure Declaration where
  /-- The name of the type. -/
  name : String
  /-- What sort of type it is. -/
  kind : Kind
  /-- The text between the braces of the declaration. -/
  body : String
  /-- The attributes in the order of the diagram. -/
  attributes : List Attribute
  /-- The methods in the order of the diagram. -/
  methods : List Method
  /-- The line of the declaration's header, counted from one in a text that was read. -/
  line : Int
  deriving DecidableEq, Repr

/-- How one type relates to another. -/
inductive Relation where
  /-- The source extends the target. -/
  | generalization
  /-- The source implements the target. -/
  | realization
  deriving DecidableEq, Repr

/-- The written form of a relation. -/
def Relation.name : Relation → String
  | .generalization => "extends"
  | .realization => "implements"

/-- A relation between two names, found in the diagram text before it is known whether the names
are declared. Edges take effect in the order of their offsets. -/
structure Edge where
  /-- How the source relates to the target. -/
  relation : Relation
  /-- The name of the extending or implementing type. -/
  source : String
  /-- The name of the extended or implemented type. -/
  target : String
  /-- Where in the text the edge was found. -/
  offset : Int
  deriving DecidableEq, Repr

/-- The relations between declared types. -/
structure Relationships where
  /-- The parent of each type that has one. -/
  parents : Table String String := .empty
  /-- The interfaces of each type that implements some, in the order of first appearance. -/
  interfaces : Table String (List String) := .empty
  deriving DecidableEq, Repr

/-- A class diagram. -/
structure Model where
  /-- The declared types by name. -/
  declarations : Table String Declaration := .empty
  /-- The relations between them. -/
  relationships : Relationships := {}
  /-- The names that were declared again, one entry for each further declaration. -/
  duplicates : List String := []
  deriving DecidableEq, Repr

/-- One relation for each parent and one for each implemented interface. -/
def Relationships.count (r : Relationships) : Nat :=
  r.parents.size + r.interfaces.values.flatten.length

@[simp] theorem Relationships.count_empty : Relationships.count {} = 0 := rfl

end UmlDraft
