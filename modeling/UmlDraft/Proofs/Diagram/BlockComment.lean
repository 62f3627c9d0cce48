import UmlDraft.Proofs.Diagram.Repadding

/-!
# Block comments

What a block comment says does not matter to the diagram, wherever the comment stands. Its text is
blanked up to the line feeds, so two comments that end as many lines leave texts that are repadded
forms of each other, and these describe the same diagram line by line.
-/

namespace UmlDraft

open Text

namespace Comment

variable {front inner inner' : List Char}

/-- A block comment with the given text. -/
def block (inner : String) : String :=
  "/'" ++ inner ++ "'/"

theorem block_toList (inner : String) :
    (block inner).toList = '/' :: '\'' :: (inner.toList ++ ['\'', '/']) := by
  have hopen : "/'".toList = ['/', '\''] := rfl
  have hclose : "'/".toList = ['\'', '/'] := rfl
  rw [block, String.toList_append, String.toList_append, hopen, hclose]
  rfl

/-- A block that does not end in its text ends behind it, also if the text ends with a quote. -/
theorem close?_block (h : ¬ ['\'', '/'] <:+: inner) (rest : List Char) :
    close? (inner ++ '\'' :: '/' :: rest) = some (inner, rest) := by
  induction inner with
  | nil => rfl
  | cons c inner ih =>
    have hne : ∀ r, c = '\'' → inner ++ '\'' :: '/' :: rest = '/' :: r → False := by
      intro r hc hr
      cases inner with
      | nil => exact absurd (List.cons.inj hr).1 (by decide)
      | cons d inner => exact h ⟨[], inner, by rw [hc, (List.cons.inj hr).1]; rfl⟩
    have hrest : ¬ ['\'', '/'] <:+: inner := fun hin =>
      h (hin.trans (List.suffix_cons c inner).isInfix)
    rw [List.cons_append, close?.eq_3 c _ hne, ih hrest, Option.map_some]

/-- The first block comment of a text is blanked, and the search goes on behind it. -/
theorem stripBlocks_block (hfront : ¬ ['/', '\''] <:+: front) (hinner : ¬ ['\'', '/'] <:+: inner)
    (rest : List Char) :
    stripBlocks (front ++ '/' :: '\'' :: (inner ++ '\'' :: '/' :: rest)) =
      front ++ ' ' :: ' ' :: (inner.flatMap blank ++ ' ' :: ' ' :: stripBlocks rest) := by
  have hseam : ∀ c ∈ front.getLast?, c = '/' →
      ('/' :: '\'' :: (inner ++ '\'' :: '/' :: rest)).head? ≠ some '\'' := fun _ _ _ => by simp
  rw [stripBlocks_append_of_seam hfront hseam, stripBlocks_of_closed (close?_block hinner rest)]

/-- Blanked, block comments that end as many lines are padding. -/
theorem repadded_stripBlocks_block (hfront : ¬ ['/', '\''] <:+: front)
    (hinner : ¬ ['\'', '/'] <:+: inner) (hinner' : ¬ ['\'', '/'] <:+: inner')
    (hcount : inner.count '\n' = inner'.count '\n') (rest : List Char) :
    Repadded (stripBlocks (front ++ '/' :: '\'' :: (inner ++ '\'' :: '/' :: rest)))
      (stripBlocks (front ++ '/' :: '\'' :: (inner' ++ '\'' :: '/' :: rest))) := by
  rw [stripBlocks_block hfront hinner, stripBlocks_block hfront hinner']
  exact (repadded_blanked hcount (.refl _)).append_left front

end Comment

namespace Model

/-- The text of the first block comment does not matter to the diagram, but for the lines that it
ends. -/
theorem ofText_blockComment {front inner inner' : String}
    (hfront : ¬ ['/', '\''] <:+: front.toList) (hinner : ¬ ['\'', '/'] <:+: inner.toList)
    (hinner' : ¬ ['\'', '/'] <:+: inner'.toList)
    (hfeeds : inner.toList.count '\n' = inner'.toList.count '\n') (rest : String) :
    (ofText (front ++ Comment.block inner ++ rest)).bodiless =
      (ofText (front ++ Comment.block inner' ++ rest)).bodiless := by
  have htext : ∀ text : String, (front ++ Comment.block text ++ rest).toList =
      front.toList ++ '/' :: '\'' :: (text.toList ++ '\'' :: '/' :: rest.toList) := by
    intro text
    simp only [String.toList_append, Comment.block_toList, List.append_assoc, List.cons_append,
      List.nil_append]
  refine (ofText_repadded ?_).symm
  rw [htext, htext]
  exact .char '\n' (Comment.repadded_stripBlocks_block hfront hinner hinner' hfeeds _)

/-- A comment line, a declaration, and the header of another up to its brace. -/
def bracelessFront : String :=
  "' note\nclass A \x7b\x7d\nclass C extends A"

/-- The text of a comment that holds the beginnings of a comment, a declaration and an arrow. -/
def bracelessComment : String :=
  "/' class Z \x7b \"A --|> Z\n'"

/-- The brace and the body. -/
def bracelessRest : String :=
  " \x7b\n+x: int\x7d\n"

/-- A block comment between a header and its brace, against one that only ends a line. -/
theorem ofText_blockComment_braceless :
    (¬ ['/', '\''] <:+: bracelessFront.toList ∧ ¬ ['\'', '/'] <:+: bracelessComment.toList ∧
      ¬ ['\'', '/'] <:+: "\n".toList ∧
      bracelessComment.toList.count '\n' = "\n".toList.count '\n') ∧
    (ofText (bracelessFront ++ Comment.block bracelessComment ++ bracelessRest)).bodiless =
      (ofText (bracelessFront ++ Comment.block "\n" ++ bracelessRest)).bodiless := by
  have hfront : ¬ ['/', '\''] <:+: bracelessFront.toList := by decide +kernel
  have hinner : ¬ ['\'', '/'] <:+: bracelessComment.toList := by decide +kernel
  have hinner' : ¬ ['\'', '/'] <:+: "\n".toList := by decide +kernel
  have hfeeds : bracelessComment.toList.count '\n' = "\n".toList.count '\n' := rfl
  exact ⟨⟨hfront, hinner, hinner', hfeeds⟩,
    ofText_blockComment hfront hinner hinner' hfeeds bracelessRest⟩

end Model

end UmlDraft
