import UmlDraft.Proofs.Diagram.Remains

/-!
# Texts without comments

A text is free of comments if no block is closed in it and no line begins, behind padding, with a
quote. Neither of the two passes undoes the other: blanking the blocks may uncover a comment line,
which is then emptied, and what emptying leaves of two comment signs stood in the same order before.
Main statement: stripping leaves a text that is free of comments, and it leaves a text alone exactly
if it is free of them; so stripping twice is stripping once.
-/

namespace UmlDraft.Comment

open Text

/-- Behind no `/'` does a `'/` stand that does not share its quote. -/
def Blockless (s : List Char) : Prop :=
  ∀ before inner after, s ≠ before ++ '/' :: '\'' :: (inner ++ '\'' :: '/' :: after)

/-- No line begins with spaces and tabs, if any, and a quote. -/
def Lineless (s : List Char) : Prop :=
  ∀ before pads rest, s = before ++ (pads ++ '\'' :: rest) → (∀ c ∈ pads, isPad c = true) →
    ¬ ∀ c ∈ before.getLast?, isLineEnd c = true

/-- A text without a block comment and without a comment line. -/
structure Free (s : List Char) : Prop where
  /-- No block is closed. -/
  blocks : Blockless s
  /-- No line is a comment. -/
  lines : Lineless s

section Blocks

variable {c : Char} {g s t : List Char}

/-- A block begins with a character if a quote comes next and an end of a block behind it. -/
theorem blockless_cons : Blockless (c :: s) ↔
    Blockless s ∧ ∀ r, c = '/' → s = '\'' :: r → ¬ ['\'', '/'] <:+: r := by
  constructor
  · intro h
    refine ⟨fun before inner after hs => h (c :: before) inner after (by rw [hs]; rfl), ?_⟩
    rintro r rfl rfl ⟨inner, after, rfl⟩
    exact h [] inner after (by simp)
  · rintro ⟨hs, hc⟩ before inner after h
    cases before with
    | nil =>
      obtain ⟨rfl, rfl⟩ := List.cons.inj h
      exact hc _ rfl rfl ⟨inner, after, by simp⟩
    | cons d before => exact hs before inner after (List.cons.inj h).2

/-- Without an end of a block no block is closed. -/
theorem blockless_of_unclosed (h : ¬ ['\'', '/'] <:+: s) : Blockless s := by
  rintro before inner after rfl
  exact h ⟨before ++ '/' :: '\'' :: inner, after, by simp⟩

theorem Blockless.append_of_not_mem (h : Blockless s) (hg : '/' ∉ g) : Blockless (g ++ s) := by
  induction g with
  | nil => exact h
  | cons c g ih =>
    rw [List.mem_cons, not_or] at hg
    exact blockless_cons.mpr ⟨ih hg.2, fun r hc => absurd hc.symm hg.1⟩

/-- Blanking the block comments leaves none. -/
theorem blockless_stripBlocks (s : List Char) : Blockless (stripBlocks s) := by
  fun_induction stripBlocks s with
  | case1 => exact blockless_of_unclosed (by simp)
  | case2 rest inner after h ih =>
    have hslash : '/' ∉ ' ' :: ' ' :: (inner.flatMap blank ++ [' ', ' ']) := by
      have hblanked : '/' ∉ inner.flatMap blank := fun hm =>
        absurd (isBlank_of_mem_blanked hm) (by decide)
      simpa using hblanked
    simpa using ih.append_of_not_mem hslash
  | case3 rest h =>
    -- The block that begins here is not closed, and no block behind it is.
    have hrest := not_infix_of_close? h
    have hquote : Blockless ('\'' :: rest) :=
      blockless_cons.mpr ⟨blockless_of_unclosed hrest, fun r hc => absurd hc (by decide)⟩
    refine blockless_cons.mpr ⟨hquote, fun r _ hr => ?_⟩
    rwa [← (List.cons.inj hr).2]
  | case4 c rest hne ih =>
    refine blockless_cons.mpr ⟨ih, fun r hc hr => ?_⟩
    have hquote : ∀ d ∈ ['\''], isBlank d = false := fun d hd => List.mem_singleton.mp hd ▸ rfl
    have hleft := remains_stripBlocks rest
    rw [hr] at hleft
    obtain ⟨r', hrest, -⟩ := hleft.of_append hquote
    exact absurd hrest (hne r' hc)

theorem Blockless.stripBlocks_eq (h : Blockless s) : stripBlocks s = s := by
  fun_induction stripBlocks s with
  | case1 => rfl
  | case2 rest inner after hc ih => exact absurd (by rw [eq_of_close? hc]; rfl) (h [] inner after)
  | case3 => rfl
  | case4 c rest _ ih => rw [ih (blockless_cons.mp h).1]

/-- The signs of a block that is left stood in the original in the same order. -/
theorem Remains.blockless (h : Remains s t) (hs : Blockless s) : Blockless t := by
  have hopen : ∀ c ∈ ['/', '\''], isBlank c = false := blankless_of_all rfl
  have hclose : ∀ c ∈ ['\'', '/'], isBlank c = false := blankless_of_all rfl
  intro before inner after ht
  obtain ⟨b, r, rfl, -, hr⟩ := h.exists_append ht (List.cons_ne_nil '/' ['\'']) hopen
  obtain ⟨b', r', rfl, -, -⟩ := hr.exists_append rfl (List.cons_ne_nil '\'' ['/']) hclose
  exact hs b b' r' rfl

end Blocks

section Lines

variable {e : Char} {line s t : List Char}

theorem isComment_iff : isComment s = true ↔
    ∃ pads rest, s = pads ++ '\'' :: rest ∧ ∀ c ∈ pads, isPad c = true := by
  rw [isComment, beq_iff_eq]
  constructor
  · intro h
    have hs := List.takeWhile_append_dropWhile (p := isPad) (l := s)
    obtain ⟨rest, hrest⟩ := List.head?_eq_some_iff.mp h
    rw [hrest] at hs
    exact ⟨_, rest, hs.symm, fun c hc => mem_takeWhile hc⟩
  · rintro ⟨pads, rest, rfl, hpads⟩
    rw [dropWhile_run hpads (stops_cons.mpr rfl)]
    rfl

theorem Lineless.isComment_eq (h : Lineless s) : isComment s = false := by
  cases hs : isComment s with
  | false => rfl
  | true =>
    obtain ⟨pads, rest, rfl, hpads⟩ := isComment_iff.mp hs
    exact absurd (by simp) (h [] pads rest rfl hpads)

/-- The one line of a text without line ends begins where the text begins. -/
theorem lineless_of_line (hline : ∀ c ∈ line, isLineEnd c = false) (h : isComment line = false) :
    Lineless line := by
  rintro before pads rest rfl hpads hbegin
  have hnil : before = [] := by
    rw [← List.getLast?_eq_none_iff, Option.eq_none_iff_forall_not_mem]
    intro c hc
    have hend := hline c (List.mem_append_left _ (List.mem_of_getLast? hc))
    rw [hbegin c hc] at hend
    cases hend
  rw [hnil, List.nil_append, isComment_iff.mpr ⟨pads, rest, rfl, hpads⟩] at h
  cases h

/-- On either side of a line end, lines are comments or none for themselves. -/
theorem lineless_append (he : isLineEnd e = true) :
    Lineless (s ++ e :: t) ↔ Lineless s ∧ Lineless t := by
  constructor
  · intro h
    refine ⟨fun before pads rest hs => ?_, fun before pads rest ht hpads hbegin => ?_⟩
    · exact h before pads (rest ++ e :: t) (by simp [hs])
    · refine h (s ++ e :: before) pads rest (by simp [ht]) hpads fun c hc => ?_
      cases before with
      | nil =>
        obtain rfl : e = c := by simpa using hc
        exact he
      | cons d before => exact hbegin c (by simpa using hc)
  · rintro ⟨hs, ht⟩ before pads rest h hpads hbegin
    -- Neither padding nor a quote ends a line, so the line end does not stand among them.
    have hfront : ∀ k x, pads ++ ['\''] ++ rest = k ++ e :: x → pads ++ ['\''] <+: k := by
      intro k x hk
      have hrun : ∀ c ∈ pads ++ ['\''], (!isLineEnd c) = true := by
        intro c hc
        rcases List.mem_append.mp hc with hc | hc
        · rw [isLineEnd_of_isPad (hpads c hc), Bool.not_false]
        · rw [List.mem_singleton.mp hc]
          rfl
      exact run_prefix hk hrun (stops_cons.mpr (by rw [he, Bool.not_true]))
    have hsplit : s ++ e :: t = before ++ (pads ++ ['\''] ++ rest) := by simp [h]
    rcases List.append_eq_append_iff.mp hsplit with ⟨k, rfl, hk⟩ | ⟨k, rfl, hk⟩
    · cases k with
      | nil =>
        have hnil := List.prefix_nil.mp (hfront [] t hk.symm)
        simp at hnil
      | cons d k =>
        obtain ⟨rfl, rfl⟩ := List.cons.inj hk
        refine ht k pads rest (by simp) hpads fun c hc => hbegin c ?_
        exact mem_getLast?_of_suffix ⟨s ++ [e], by simp⟩ hc
    · obtain ⟨r, rfl⟩ := hfront k t hk
      exact hs before pads r (by simp) hpads hbegin

/-- Emptying the comment lines leaves none. -/
theorem lineless_stripLines (s : List Char) : Lineless (stripLines s) := by
  have hone : ∀ line : List Char, (∀ c ∈ line, isLineEnd c = false) →
      Lineless (stripLine line) := by
    intro line hline
    rw [stripLine_eq]
    split
    · exact lineless_of_line (List.forall_mem_nil _) rfl
    · next h => exact lineless_of_line hline (by simpa using h)
  induction s using line_induction with
  | last line hline =>
    rw [stripLines_last hline]
    exact hone line hline
  | line line e rest hline he ih =>
    rw [stripLines_line hline he]
    exact (lineless_append he).mpr ⟨hone line hline, ih⟩

theorem Lineless.stripLines_eq (h : Lineless s) : stripLines s = s := by
  have hone : ∀ line : List Char, Lineless line → stripLine line = line := by
    intro line hline
    rw [stripLine_eq, hline.isComment_eq]
    rfl
  induction s using line_induction with
  | last line hline => rw [stripLines_last hline, hone line h]
  | line line e rest hline he ih =>
    obtain ⟨hfirst, hrest⟩ := (lineless_append he).mp h
    rw [stripLines_line hline he, hone line hfirst, ih hrest]

end Lines

/-- A stripped text is free of comments. -/
theorem free_strip (source : String) : Free (strip source).toList := by
  rw [strip, String.toList_ofList]
  exact ⟨(remains_stripLines _).blockless (blockless_stripBlocks _), lineless_stripLines _⟩

/-- A text that is free of comments is left alone. -/
theorem Free.strip_eq {source : String} (h : Free source.toList) : strip source = source := by
  rw [strip, h.blocks.stripBlocks_eq, h.lines.stripLines_eq, String.ofList_toList]

/-- Stripping leaves a text that is free of comments and has the line feeds of the original. It
leaves alone the texts that are free of comments, and no others; so it has no more to do the second
time. -/
theorem strip_normalForm (source : String) :
    Free (strip source).toList ∧
      (strip source).toList.count '\n' = source.toList.count '\n' ∧
      (strip source = source ↔ Free source.toList) ∧
      strip (strip source) = strip source := by
  refine ⟨free_strip source, count_strip source, ⟨fun h => ?_, Free.strip_eq⟩, ?_⟩
  · rw [← h]
    exact free_strip source
  · exact (free_strip source).strip_eq

/-- Once the block is blanked, its line is a comment. -/
example : strip "/'/ a '/ 'b '/\n- id" = "\n- id" := by decide +kernel

end UmlDraft.Comment
