import UmlDraft.Json.Printer
import UmlDraft.Text.Units

/-!
# Texts in messages

A text that a message shows stands between quotation marks, and what cannot be printed is escaped. A
long text is shown line by line, and of what is shown only so much is kept.
-/

namespace UmlDraft.Text

/-- The quotation mark around a text: the first of three that the text does not hold. -/
def quotation (s : List Char) : Char :=
  if !s.contains '\'' then '\''
  else if !s.contains '"' then '"'
  else if !s.contains (.ofNat 0x60) && !(s.zip s.tail).contains ('$', '{') then .ofNat 0x60
  else '\''

/-- A character between quotation marks. -/
def shownChar (mark c : Char) : List Char :=
  if c = '\\' ∨ (c = mark ∧ c = '\'') then ['\\', c]
  else if c = '\x08' then ['\\', 'b']
  else if c = '\t' then ['\\', 't']
  else if c = '\n' then ['\\', 'n']
  else if c = '\x0c' then ['\\', 'f']
  else if c = '\r' then ['\\', 'r']
  else if c.toNat < 0x20 ∨ 0x7f ≤ c.toNat ∧ c.toNat < 0xa0 then
    ['\\', 'x', (Json.hexDigit (c.toNat / 16)).toUpper, (Json.hexDigit (c.toNat % 16)).toUpper]
  else [c]

/-- A text between quotation marks. -/
def quoted (s : List Char) : List Char :=
  quotation s :: s.flatMap (shownChar (quotation s)) ++ [quotation s]

/-- The lines of a text, each with the line feed that ends it. -/
def fedLines (s : List Char) : List (List Char) :=
  match s with
  | [] => []
  | c :: rest =>
    match c == '\n', fedLines rest with
    | false, line :: lines => (c :: line) :: lines
    | _, lines => [c] :: lines

/-- The first code units of a text, of which half a character reads as U+FFFD. -/
def takeUnits : Nat → List Char → List Char
  | 0, _ | _, [] => []
  | n + 1, c :: rest =>
    if width c = 1 then c :: takeUnits n rest
    else
      match n with
      | 0 => ['\uFFFD']
      | n + 1 => c :: takeUnits n rest

/-- The longest text that is shown as one, in code units. -/
def maxLineUnits : Nat :=
  124

/-- The most that is kept of what is shown, in code units. -/
def maxShownUnits : Nat :=
  128

/-- A text as a message shows it. -/
def shown (text : String) : String :=
  let s := text.toList
  let all :=
    if units s ≤ maxLineUnits then quoted s
    else " +\n  ".toList.intercalate ((fedLines s).map quoted)
  .ofList (if units all ≤ maxShownUnits then all else takeUnits maxShownUnits all ++ "...".toList)

end UmlDraft.Text
