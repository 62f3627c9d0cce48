import UmlDraft.Proofs.Skeleton.Source

/-!
# Parts of a generated class

Between the braces of a generated class stand its parts: the fields, the constructor, the accessors
and the methods. An accessor or a method is written with its name and its parameters, which tell it
from the others, and a constructor with the names that it hands on and those that it assigns. Main
statement: a generated class is its head, its parts with an empty line between each two, and the
closing brace.
-/

namespace UmlDraft

open Text

/-- What tells an accessor or a method from the others of a class. -/
structure Call where
  /-- The name. -/
  name : String
  /-- The parameters as they stand between the parentheses. -/
  parameters : String
  deriving DecidableEq, Repr

/-- The name with the parameters in parentheses. -/
def Call.text (c : Call) : String :=
  c.name ++ "(" ++ c.parameters ++ ")"

/-- The call of the method that returns a field. -/
def Attribute.getter (a : Attribute) : Call where
  name := "get" ++ Signature.capitalize a.name
  parameters := ""

/-- The call of the method that sets a field. -/
def Attribute.setter (a : Attribute) : Call where
  name := "set" ++ Signature.capitalize a.name
  parameters := Block.typedName a

/-- The call of a declared method. -/
def Method.call (m : Method) : Call where
  name := m.name
  parameters := Signature.parameters m.parameters

/-- The method of the diagram that a block declares. -/
def Block.method? : Block → Option Method
  | .signature m => some m
  | .abstractMethod m => some m
  | .stub m => some m
  | _ => none

/-- The call of the accessor or the method that a block declares. -/
def Block.call? : Block → Option Call
  | .getter a => some a.getter
  | .setter a => some a.setter
  | b => b.method?.map Method.call

namespace Block

end Block

section Lines

variable {b : Block} {c : Call}

/-- The last of several words stands behind a space. -/
theorem Signature.words_concat {parts : List String} {last : String} (hp : ∃ p ∈ parts, p ≠ "")
    (hlast : last ≠ "") : words (parts ++ [last]) = words parts ++ " " ++ last := by
  have hkept : parts.filter (· ≠ "") ≠ [] := by
    obtain ⟨p, hmem, hne⟩ := hp
    exact List.ne_nil_of_mem (List.mem_filter.mpr ⟨hmem, decide_eq_true hne⟩)
  have hsingle : [last].filter (· ≠ "") = [last] := List.filter_eq_self.mpr (by simpa using hlast)
  rw [words, List.filter_append, hsingle,
    String.intercalate_append_of_ne_nil hkept (List.cons_ne_nil last []),
    String.intercalate_singleton, words]

theorem Call.text_ne_empty (c : Call) : c.text ≠ "" := by
  intro h
  have hlist := congrArg String.toList h
  simp [text] at hlist

/-- The words before the call of a method. -/
def Block.modifiers (m : Method) (isAbstract : Bool) : List String :=
  [m.visibility.keyword, if isAbstract then "abstract" else "",
    if m.isStatic then "static" else "", m.returnType]

/-- The head of a method ends in its call. -/
theorem Block.head_eq {m : Method} (h : m.returnType ≠ "") (isAbstract : Bool) :
    head m isAbstract = Signature.words (modifiers m isAbstract) ++ " " ++ m.call.text := by
  have hword : ∃ p ∈ modifiers m isAbstract, p ≠ "" := ⟨m.returnType, by simp [modifiers], h⟩
  exact Signature.words_concat hword m.call.text_ne_empty

end Lines

/-- A constructor of a generated class. -/
structure Constructor where
  /-- The name of the class. -/
  name : String
  /-- The parameters, each with its type and its name. -/
  parameters : List Attribute
  /-- The names that are handed on to the constructor of the parent. -/
  arguments : List String
  /-- The attributes that are set from the parameters of their names. -/
  assigned : List Attribute
  deriving DecidableEq, Repr

namespace Constructor

/-- The call of the parent's constructor, which is left out where nothing is handed on. -/
def superCall (indent : String) (k : Constructor) : List String :=
  if k.arguments = [] then []
  else [indent ++ indent ++ "super(" ++ ", ".intercalate k.arguments ++ ");"]

/-- The text of a constructor, given one level of indentation. -/
def text (indent : String) (k : Constructor) : String :=
  "\n".intercalate
    ([indent ++ "public " ++ k.name ++ "(" ++
        ", ".intercalate (k.parameters.map Block.typedName) ++ ") \x7b"] ++
      k.superCall indent ++
      k.assigned.map (fun a => indent ++ indent ++ "this." ++ a.name ++ " = " ++ a.name ++ ";") ++
      [indent ++ "\x7d"])

end Constructor

/-- The constructor that a block declares. -/
def Block.constructor? : Block → Option Constructor
  | .construction name inherited own =>
    some {
      name
      parameters := inherited ++ own
      arguments := inherited.map Attribute.name
      assigned := own }
  | _ => none

/-- A block that declares a constructor prints it. -/
theorem Block.intercalate_lines_of_constructor? {b : Block} {k : Constructor}
    (h : b.constructor? = some k) (indent : String) :
    "\n".intercalate (b.lines indent) = k.text indent := by
  cases b with
  | construction name inherited own =>
    cases h
    simp only [lines, Constructor.text, Constructor.superCall, List.map_eq_nil_iff]
  | fields | getter | setter | signature | abstractMethod | stub => cases h

/-- Accessors declare no constructor. -/
theorem Block.constructor?_of_mem_accessors {b : Block} {a : Attribute} (hb : b ∈ accessors a) :
    b.constructor? = none := by
  unfold accessors at hb
  split at hb
  · simp only [List.mem_cons, List.not_mem_nil, or_false] at hb
    rcases hb with rfl | rfl <;> rfl
  · cases hb

/-- Methods declare no constructor. -/
theorem Block.constructor?_ofMethod (kind : Kind) (m : Method) :
    (ofMethod kind m).constructor? = none := by
  unfold ofMethod
  split
  · rfl
  · split <;> rfl
  · rfl

namespace Declaration

variable {d : Declaration} {m : Model} {style : Style}

/-- The calls of the accessors and the methods of a generated type. -/
def calls (d : Declaration) (m : Model) : List Call :=
  (d.blocks m).filterMap Block.call?

/-- The constructors in the file of a declared type. -/
def constructors (d : Declaration) (m : Model) : List Constructor :=
  (d.blocks m).filterMap Block.constructor?

/-- A class has one constructor, which takes what the class inherits and what it declares. -/
theorem constructors_of_class (hkind : d.kind ≠ .interface) :
    d.constructors m =
      [{ name := d.name
         parameters := d.inherited m ++ d.attributes
         arguments := (d.inherited m).map Attribute.name
         assigned := d.attributes }] := by
  have hfields : (if d.fields = [] then [] else [Block.fields d.fields]).filterMap
      Block.constructor? = [] := by
    split <;> rfl
  have hconstruction : Block.constructor? (.construction d.name (d.inherited m) d.fields) =
      some ⟨d.name, d.inherited m ++ d.fields, (d.inherited m).map Attribute.name, d.fields⟩ :=
    rfl
  have haccessors : (d.fields.flatMap Block.accessors).filterMap Block.constructor? = [] := by
    rw [List.filterMap_eq_nil_iff]
    intro b hb
    obtain ⟨a, -, hb⟩ := List.mem_flatMap.mp hb
    exact Block.constructor?_of_mem_accessors hb
  have hmethods : (d.methods.map (Block.ofMethod d.kind)).filterMap Block.constructor? = [] := by
    rw [List.filterMap_eq_nil_iff]
    intro b hb
    obtain ⟨method, -, rfl⟩ := List.mem_map.mp hb
    exact Block.constructor?_ofMethod d.kind method
  rw [constructors, blocks, List.filterMap_append, List.filterMap_append, hfields, hmethods,
    if_neg hkind, List.filterMap_cons_some hconstruction, haccessors, List.nil_append,
    List.append_nil, fields, if_neg hkind]

/-- An interface has no constructor. -/
theorem constructors_of_interface (hkind : d.kind = .interface) : d.constructors m = [] := by
  rw [constructors, List.filterMap_eq_nil_iff]
  intro b hb
  rcases mem_blocks_iff.mp hb with ⟨-, rfl⟩ | ⟨hclass, -⟩ | ⟨method, -, rfl⟩
  · rfl
  · exact absurd hkind hclass
  · exact Block.constructor?_ofMethod d.kind method

/-- Every constructor of a type stands in its file. -/
theorem infix_render_of_mem_constructors {k : Constructor} (hk : k ∈ d.constructors m)
    (style : Style) : (k.text style.indentation).toList <:+: (d.render style m).toList := by
  obtain ⟨b, hb, hk⟩ := List.mem_filterMap.mp hk
  rw [← Block.intercalate_lines_of_constructor? hk]
  exact infix_render hb style

/-- What a generated class begins with, up to the line feed behind its opening brace. -/
def front (style : Style) (d : Declaration) (m : Model) : List Char :=
  lines ((d.preamble style m).map String.toList) ++ ((d.headerLine m).toList ++ ['\n'])

end Declaration

end UmlDraft
