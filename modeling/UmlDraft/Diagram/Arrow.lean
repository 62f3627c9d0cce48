import UmlDraft.Diagram.Basic
import UmlDraft.Text.Scan
import UmlDraft.Text.Units

/-!
# Arrows

A relation line joins two words by an arrow: `<|--`, `--|>`, `..|>` or `<|..`, with two or more
dashes or dots. A solid arrow is a generalization and a dotted one a realization, and its head
points at the more general name. Each of the four forms is looked for on its own, and within one
form the word behind an arrow is not read again as the word before the next.
-/

namespace UmlDraft

open Text

/-- How the shaft of an arrow is drawn. -/
inductive Stroke where
  /-- Dashes. -/
  | solid
  /-- Dots. -/
  | dotted
  deriving DecidableEq, Repr

/-- The end of an arrow that carries its head. -/
inductive Head where
  /-- The arrow begins with `<|`. -/
  | left
  /-- The arrow ends with `|>`. -/
  | right
  deriving DecidableEq, Repr

/-- One of the four arrow forms. -/
structure Arrow where
  /-- How the shaft is drawn. -/
  stroke : Stroke
  /-- Where the head is. -/
  head : Head
  deriving DecidableEq, Repr

/-- The character that a shaft consists of. -/
def Stroke.char : Stroke → Char
  | .solid => '-'
  | .dotted => '.'

/-- What a shaft says of the names it joins. -/
def Stroke.relation : Stroke → Relation
  | .solid => .generalization
  | .dotted => .realization

namespace Arrow

/-- The forms in the order in which a text is searched for them. -/
def all : List Arrow :=
  [⟨.solid, .left⟩, ⟨.solid, .right⟩, ⟨.dotted, .right⟩, ⟨.dotted, .left⟩]

/-- What follows a shaft of two or more strokes. -/
def afterShaft? (stroke : Char) (s : List Char) : Option (List Char) :=
  if 2 ≤ (s.takeWhile (· == stroke)).length then some (s.dropWhile (· == stroke)) else none

/-- What follows an arrow of the given form. -/
def after? (a : Arrow) (s : List Char) : Option (List Char) :=
  match a.head with
  | .left => (dropLeading? ['<', '|'] s).bind (afterShaft? a.stroke.char)
  | .right => (afterShaft? a.stroke.char s).bind (dropLeading? ['|', '>'])

/-- The text from the right word on, where an arrow and a word follow the left word. -/
def rightWord? (a : Arrow) (s : List Char) : Option (List Char) :=
  match a.after? (skipBlanks s) with
  | none => none
  | some rest => if leadingWord (skipBlanks rest) = [] then none else some (skipBlanks rest)

/-- The edge of an arrow between two words: its source is the word at its tail. -/
def edge (a : Arrow) (left right : List Char) (offset : Nat) : Edge :=
  match a.head with
  | .left => ⟨a.stroke.relation, .ofList right, .ofList left, offset⟩
  | .right => ⟨a.stroke.relation, .ofList left, .ofList right, offset⟩

theorem length_afterShaft? {stroke : Char} {s rest : List Char}
    (h : afterShaft? stroke s = some rest) : rest.length ≤ s.length := by
  unfold afterShaft? at h
  split at h
  · cases h
    exact length_dropWhile_le _ s
  · cases h

theorem length_dropLeading? {p s rest : List Char} (h : dropLeading? p s = some rest) :
    rest.length ≤ s.length := by
  have := congrArg List.length (dropLeading?_eq_some_iff.1 h)
  rw [List.length_append] at this
  omega

theorem length_after? {a : Arrow} {s rest : List Char} (h : a.after? s = some rest) :
    rest.length ≤ s.length := by
  unfold after? at h
  split at h <;> obtain ⟨t, h1, h2⟩ := Option.bind_eq_some_iff.1 h
  · exact Nat.le_trans (length_afterShaft? h2) (length_dropLeading? h1)
  · exact Nat.le_trans (length_dropLeading? h2) (length_afterShaft? h1)

theorem length_rightWord? {a : Arrow} {s right : List Char} (h : a.rightWord? s = some right) :
    right.length ≤ s.length := by
  unfold rightWord? at h
  split at h
  · cases h
  · next rest hr =>
    split at h
    · cases h
    · cases h
      exact Nat.le_trans (length_skipBlanks_le rest)
        (Nat.le_trans (length_after? hr) (length_skipBlanks_le s))

theorem length_afterWord_lt {c : Char} {s : List Char} (h : isWord c = true) :
    (afterWord (c :: s)).length < (c :: s).length := by
  rw [afterWord, List.dropWhile_cons, if_pos h]
  exact Nat.lt_succ_of_le (length_dropWhile_le isWord s)

set_option linter.unusedVariables false in
/-- The edges of one form in a text that begins at the given offset. -/
def scan (a : Arrow) (offset : Nat) (s : List Char) : List Edge :=
  match s with
  | [] => []
  | c :: rest =>
    if hc : isWord c then
      let left := leadingWord (c :: rest)
      match h : a.rightWord? (afterWord (c :: rest)) with
      | some right =>
        a.edge left (leadingWord right) offset ::
          a.scan (offset + (units (c :: rest) - units (afterWord right))) (afterWord right)
      | none => a.scan (offset + units left) (afterWord (c :: rest))
    else a.scan (offset + width c) rest
termination_by s.length
decreasing_by
  · have h1 := length_rightWord? h
    have h2 := length_afterWord_le right
    have h3 := length_afterWord_lt (s := rest) hc
    omega
  · exact length_afterWord_lt hc
  · simp

/-- All arrow edges of a text, form by form, whether or not their names are declared. -/
def edges (source : String) : List Edge :=
  all.flatMap fun a => a.scan 0 source.toList

end Arrow

end UmlDraft
