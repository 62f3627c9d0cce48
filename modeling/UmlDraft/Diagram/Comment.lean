import UmlDraft.Text.Classes
import UmlDraft.Text.Units

/-!
# Comments and line numbers

A block comment runs from `/'` to the next `'/` and is blanked unit by unit, line feeds apart, so
that nothing behind it moves. A line that begins, after spaces and tabs, with a quote is emptied. A
block that is never closed is no comment. Line numbers count line feeds only.
-/

namespace UmlDraft.Comment

open Text

/-- The text up to the first `'/` and the text behind it. -/
def close? : List Char → Option (List Char × List Char)
  | [] => none
  | '\'' :: '/' :: rest => some ([], rest)
  | c :: rest => (close? rest).map fun r => (c :: r.1, r.2)

/-- The parts on either side of the first `'/` make up the text. -/
theorem eq_of_close? {s inner after : List Char} (h : close? s = some (inner, after)) :
    s = inner ++ '\'' :: '/' :: after := by
  induction s using close?.induct generalizing inner after with
  | case1 => simp [close?] at h
  | case2 rest =>
    simp only [close?, Option.some.injEq, Prod.mk.injEq] at h
    simp [← h.1, ← h.2]
  | case3 c rest hne ih =>
    rw [close?.eq_3 _ _ hne, Option.map_eq_some_iff] at h
    obtain ⟨⟨inner', after'⟩, hr, he⟩ := h
    simp only [Prod.mk.injEq] at he
    rw [ih hr, ← he.1, ← he.2, List.cons_append]

/-- Blanks for one commented character: a line feed stays, any other becomes as many spaces as it
has units. -/
def blank (c : Char) : List Char :=
  if c = '\n' then ['\n'] else List.replicate (width c) ' '

set_option linter.unusedVariables false in
/-- The text with its block comments blanked. -/
def stripBlocks (s : List Char) : List Char :=
  match s with
  | [] => []
  | '/' :: '\'' :: rest =>
    match h : close? rest with
    | some (inner, after) => ' ' :: ' ' :: (inner.flatMap blank ++ ' ' :: ' ' :: stripBlocks after)
    | none => s
  | c :: rest => c :: stripBlocks rest
termination_by s.length
decreasing_by
  · have := eq_of_close? h
    subst this
    simp only [List.length_cons, List.length_append]
    omega
  · simp

/-- A line without its text if the text is a comment. -/
def stripLine (line : List Char) : List Char :=
  if (line.dropWhile isPad).head? = some '\'' then [] else line

set_option linter.unusedVariables false in
/-- The text with its comment lines emptied. -/
def stripLines (s : List Char) : List Char :=
  match h : s.dropWhile fun c => !isLineEnd c with
  | [] => stripLine s
  | e :: rest => stripLine (s.takeWhile fun c => !isLineEnd c) ++ e :: stripLines rest
termination_by s.length
decreasing_by
  have := (List.dropWhile_suffix (l := s) fun c => !isLineEnd c).length_le
  rw [h] at this
  exact this

/-- The text without its comments. -/
def strip (source : String) : String :=
  .ofList (stripLines (stripBlocks source.toList))

/-- The line feeds among the first units of a text. -/
def feedsBefore : List Char → Nat → Nat
  | [], _ => 0
  | c :: rest, n =>
    if n = 0 then 0 else (if c = '\n' then 1 else 0) + feedsBefore rest (n - width c)

/-- The line of an offset, counted from one. An offset before the text is on its first line and an
offset behind it on its last. -/
def lineAt (source : String) (offset : Int) : Nat :=
  1 + feedsBefore source.toList offset.toNat

end UmlDraft.Comment
