import UmlDraft.Diagram.Basic
import UmlDraft.Text.Scan

/-!
# Declaration headers

A header is `class Name`, `abstract class Name` or `interface Name`, then clauses up to the end of
the line or the next brace, then the opening brace, which may follow on a later line. The clauses
may say `extends` one name and `implements` several.
-/

namespace UmlDraft

open Text

/-- What stands before the opening brace of a declaration. -/
structure Header where
  /-- What sort of type is declared. -/
  kind : Kind
  /-- The name of the type. -/
  name : List Char
  /-- What stands between the name and the brace, up to the end of the line. -/
  clauses : List Char
  deriving DecidableEq, Repr

namespace Header

/-- What follows one or more blanks. -/
def afterBlanks? : List Char → Option (List Char)
  | [] => none
  | c :: rest => if isBlank c then some (skipBlanks rest) else none

/-- What follows a keyword and one or more blanks. -/
def afterKeyword? (keyword : String) (s : List Char) : Option (List Char) :=
  (dropLeading? keyword.toList s).bind afterBlanks?

/-- Reads `class` or `interface`; an interface is an interface however it is introduced. -/
def readKeyword? (plain : Kind) (s : List Char) : Option (Kind × List Char) :=
  match afterKeyword? "class" s with
  | some rest => some (plain, rest)
  | none => (afterKeyword? "interface" s).map fun rest => (.interface, rest)

/-- Reads the keywords of a header. -/
def readKind? (s : List Char) : Option (Kind × List Char) :=
  match afterKeyword? "abstract" s with
  | some rest => readKeyword? .abstractClass rest
  | none => readKeyword? .concreteClass s

/-- Clauses end at a brace or at the end of the line. -/
def isClauseChar (c : Char) : Bool :=
  c != '{' && c != '}' && c != '\n'

/-- Reads a header and its opening brace at the beginning of a text. -/
def read? (s : List Char) : Option (Header × List Char) :=
  match readKind? s with
  | none => none
  | some (kind, rest) =>
    if leadingWord rest = [] then none
    else
      match skipBlanks ((afterWord rest).dropWhile isClauseChar) with
      | '{' :: inside =>
        some (⟨kind, leadingWord rest, (afterWord rest).takeWhile isClauseChar⟩, inside)
      | _ => none

/-- What follows the first place where a keyword begins a word and blanks and a word come after
it. -/
def findKeyword? (keyword : String) (afterWord : Bool) : List Char → Option (List Char)
  | [] => none
  | c :: rest =>
    match if afterWord then none else afterKeyword? keyword (c :: rest) with
    | some target =>
      if leadingWord target = [] then findKeyword? keyword (isWord c) rest else some target
    | none => findKeyword? keyword (isWord c) rest

/-- The text from the next word on, where a comma and a word come next. -/
def afterComma? (s : List Char) : Option (List Char) :=
  match skipBlanks s with
  | ',' :: rest => if leadingWord (skipBlanks rest) = [] then none else some (skipBlanks rest)
  | _ => none

theorem length_afterComma? {s next : List Char} (h : afterComma? s = some next) :
    next.length < s.length := by
  unfold afterComma? at h
  split at h
  · next rest hs =>
    split at h
    · cases h
    · cases h
      have h1 := length_skipBlanks_le s
      have h2 := length_skipBlanks_le rest
      rw [hs, List.length_cons] at h1
      omega
  · cases h

set_option linter.unusedVariables false in
/-- The words of a comma separated list, as far as it goes. -/
def wordList (s : List Char) : List (List Char) :=
  leadingWord s ::
    match h : afterComma? (afterWord s) with
    | some next => wordList next
    | none => []
termination_by s.length
decreasing_by exact Nat.lt_of_lt_of_le (length_afterComma? h) (length_afterWord_le s)

/-- The name that the clauses say is extended. -/
def parent? (h : Header) : Option (List Char) :=
  (findKeyword? "extends" false h.clauses).map leadingWord

/-- The names that the clauses say are implemented. -/
def interfaces (h : Header) : List (List Char) :=
  match findKeyword? "implements" false h.clauses with
  | some s => wordList s
  | none => []

/-- The edges that a header declares, all at its own offset: the parent first, then the interfaces
in order. -/
def edges (h : Header) (offset : Nat) : List Edge :=
  let edge (relation : Relation) (target : List Char) : Edge :=
    ⟨relation, .ofList h.name, .ofList target, offset⟩
  (h.parent?.map (edge .generalization)).toList ++ h.interfaces.map (edge .realization)

theorem length_afterBlanks? {s rest : List Char} (h : afterBlanks? s = some rest) :
    rest.length < s.length := by
  cases s with
  | nil => simp [afterBlanks?] at h
  | cons c s =>
    rw [afterBlanks?] at h
    split at h
    · cases h
      exact Nat.lt_succ_of_le (length_skipBlanks_le s)
    · cases h

theorem length_afterKeyword? {keyword : String} {s rest : List Char}
    (h : afterKeyword? keyword s = some rest) : rest.length < s.length := by
  obtain ⟨t, ht, hr⟩ := Option.bind_eq_some_iff.1 h
  have h1 := length_afterBlanks? hr
  have h2 := congrArg List.length (dropLeading?_eq_some_iff.1 ht)
  rw [List.length_append] at h2
  omega

theorem length_readKeyword? {plain kind : Kind} {s rest : List Char}
    (h : readKeyword? plain s = some (kind, rest)) : rest.length < s.length := by
  unfold readKeyword? at h
  split at h
  · next hk => cases h; exact length_afterKeyword? hk
  · obtain ⟨r, hr, he⟩ := Option.map_eq_some_iff.1 h
    cases he
    exact length_afterKeyword? hr

theorem length_readKind? {kind : Kind} {s rest : List Char}
    (h : readKind? s = some (kind, rest)) : rest.length < s.length := by
  unfold readKind? at h
  split at h
  · next hk => exact Nat.lt_trans (length_readKeyword? h) (length_afterKeyword? hk)
  · exact length_readKeyword? h

/-- Reading a header uses up text. -/
theorem length_read? {header : Header} {s inside : List Char}
    (h : read? s = some (header, inside)) : inside.length < s.length := by
  unfold read? at h
  split at h
  · cases h
  · next kind rest hk =>
    split at h
    · cases h
    · split at h
      · next t ht =>
        cases h
        have h1 := length_readKind? hk
        have h2 := length_skipBlanks_le ((afterWord rest).dropWhile isClauseChar)
        have h3 := length_dropWhile_le isClauseChar (afterWord rest)
        have h4 := length_afterWord_le rest
        rw [ht, List.length_cons] at h2
        omega
      · cases h

end Header

end UmlDraft
