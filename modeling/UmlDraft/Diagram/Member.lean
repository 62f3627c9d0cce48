import UmlDraft.Diagram.Basic
import UmlDraft.Diagram.TypeToken
import UmlDraft.Text.Units

/-!
# Members

A body holds one member a line. A line reads `marker name : type (parameters) : type`, in which all
but the name may be left out; a parameter list makes it a method, and lines of any other form say
nothing. The markers `{abstract}`, `{static}` and `{classifier}` may stand anywhere in the line, in
any letter case. Runs of blanks count as one space.
-/

namespace UmlDraft

open Text

/-- What one line of a body declares. -/
inductive Member where
  /-- A named value. -/
  | attribute (a : Attribute)
  /-- An operation. -/
  | method (m : Method)
  deriving DecidableEq, Repr

namespace Member

/-- What a marker in braces says of a method. -/
inductive Modifier where
  /-- The method is abstract. -/
  | abstract
  /-- The method belongs to the type and not to its instances. -/
  | static
  deriving DecidableEq, Repr

/-- What follows a word that may be written in any letter case. -/
def dropIgnoringCase? : List Char → List Char → Option (List Char)
  | [], s => some s
  | _ :: _, [] => none
  | w :: ws, c :: cs => if c.toLower = w then dropIgnoringCase? ws cs else none

/-- The markers: the third is another word for the second. -/
def markers : List (Modifier × String) :=
  [(.abstract, "\x7babstract\x7d"), (.static, "\x7bstatic\x7d"), (.static, "\x7bclassifier\x7d")]

/-- The marker at the beginning of a text and what follows it. -/
def marker? (s : List Char) : Option (Modifier × List Char) :=
  markers.findSome? fun m => (dropIgnoringCase? m.2.toList s).map fun rest => (m.1, rest)

theorem length_dropIgnoringCase? {w s rest : List Char} (h : dropIgnoringCase? w s = some rest) :
    s.length = w.length + rest.length := by
  induction w generalizing s with
  | nil => cases h; simp
  | cons a w ih =>
    cases s with
    | nil => cases h
    | cons c s =>
      rw [dropIgnoringCase?] at h
      split at h
      · have := ih h
        simp only [List.length_cons]
        omega
      · cases h

theorem length_marker? {s rest : List Char} {m : Modifier} (h : marker? s = some (m, rest)) :
    rest.length < s.length := by
  obtain ⟨e, he, hm⟩ := List.exists_of_findSome?_eq_some h
  obtain ⟨r, hr, hp⟩ := Option.map_eq_some_iff.1 hm
  cases hp
  have hpos : 0 < e.2.toList.length := by
    simp only [markers, List.mem_cons, List.not_mem_nil, or_false] at he
    rcases he with rfl | rfl | rfl <;> decide
  have := length_dropIgnoringCase? hr
  omega

set_option linter.unusedVariables false in
/-- The line with a space for each marker, and the modifiers in order. -/
def unmark (s : List Char) : List Char × List Modifier :=
  match h : marker? s with
  | some (m, rest) => (' ' :: (unmark rest).1, m :: (unmark rest).2)
  | none =>
    match s with
    | [] => ([], [])
    | c :: rest => (c :: (unmark rest).1, (unmark rest).2)
termination_by s.length
decreasing_by
  · exact length_marker? h
  · simp

/-- A visibility symbol is any one unit that is no word character, blank, brace or parenthesis. -/
def isSymbol (c : Char) : Bool :=
  !isWord c && !isBlank c && c != '{' && c != '}' && c != '(' && c != ')' && width c == 1

/-- Three symbols restrict the visibility; every other one, and none, leaves the member public. -/
def visibilityOf : Option Char → Visibility
  | some '-' => .priv
  | some '#' => .prot
  | some '~' => .pack
  | _ => .pub

/-- Reads a colon and a type, if a colon comes next. A colon without a type is an error. -/
def readType? (s : List Char) : Option (Option (List Char) × List Char) :=
  match skipBlanks s with
  | ':' :: rest => (TypeToken.read? (skipBlanks rest)).map fun t => (some t.1, t.2)
  | _ => some (none, s)

/-- Reads a parameter list, if a parenthesis comes next. One that is never closed is an error. -/
def readParameters? (s : List Char) : Option (Option (List Char) × List Char) :=
  match skipBlanks s with
  | '(' :: rest =>
    match rest.dropWhile (· != ')') with
    | ')' :: after => some (some (rest.takeWhile (· != ')')), after)
    | _ => none
  | _ => some (none, s)

/-- The parts of a line. -/
structure Parts where
  /-- The visibility symbol. -/
  symbol : Option Char
  /-- The name. -/
  name : List Char
  /-- The type that stands directly behind the name. -/
  first : Option (List Char)
  /-- The text between the parentheses. -/
  parameters : Option (List Char)
  /-- The type that stands last. -/
  second : Option (List Char)
  deriving DecidableEq, Repr

/-- The symbol at the beginning of a line and the rest of the line. -/
def readSymbol (s : List Char) : Option Char × List Char :=
  match s with
  | c :: rest => if isSymbol c then (some c, rest) else (none, s)
  | [] => (none, [])

/-- Reads a line whose markers have been replaced and whose blanks have been collapsed. -/
def readParts? (s : List Char) : Option Parts :=
  let (symbol, rest) := readSymbol s
  let text := skipBlanks rest
  if leadingWord text = [] then none
  else do
    let (first, rest) ← readType? (afterWord text)
    let (parameters, rest) ← readParameters? rest
    let (second, rest) ← readType? rest
    if rest = [] then some ⟨symbol, leadingWord text, first, parameters, second⟩ else none

/-- Reads one parameter. -/
def readParameter (text : List Char) : Parameter :=
  match text.splitOn ':' with
  | [name, type] => .typed (.ofList (trim name)) (.ofList (trim type))
  | _ => .raw (.ofList text)

/-- Reads a parameter list. Parameters stand between commas, and an empty one is none. -/
def readParameters (text : List Char) : List Parameter :=
  (((text.splitOn ',').map trim).filter (· ≠ [])).map readParameter

/-- The type of an attribute that names none. -/
def defaultType : String :=
  "Object"

/-- The return type of a method that names none. -/
def defaultReturnType : String :=
  "void"

/-- The member that the parts of a line declare. An attribute has the first type that it names, and
a method returns the type behind its parameters. -/
def ofParts (p : Parts) (modifiers : List Modifier) : Member :=
  let visibility := visibilityOf p.symbol
  let name := String.ofList p.name
  match p.parameters with
  | some text =>
    .method {
      visibility, name
      parameters := readParameters text
      returnType := (p.second.map String.ofList).getD defaultReturnType
      isAbstract := modifiers.contains .abstract
      isStatic := modifiers.contains .static }
  | none =>
    .attribute {
      visibility, name
      type := ((p.first.or p.second).map String.ofList).getD defaultType }

/-- The member that a line declares. -/
def ofLine? (line : List Char) : Option Member :=
  (readParts? (trim (collapse (unmark line).1))).map fun p => ofParts p (unmark line).2

/-- The members that a body declares, line by line. -/
def ofBody (body : String) : List Member :=
  (body.toList.splitOn '\n').filterMap ofLine?

/-- The attribute that a member is. -/
def attribute? : Member → Option Attribute
  | .attribute a => some a
  | .method _ => none

/-- The method that a member is. -/
def method? : Member → Option Method
  | .attribute _ => none
  | .method m => some m

end Member

end UmlDraft
