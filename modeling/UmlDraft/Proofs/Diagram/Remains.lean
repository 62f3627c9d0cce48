import UmlDraft.Proofs.Diagram.Repadding

/-!
# What is left of a text without its comments

Stripping keeps the characters of a text in their order. A stretch that is taken out leaves blanks
and as many line feeds as it held, unless the text ends behind it, and so joins nothing that stood
apart. Whatever is left without a blank in it was there before, on the same line, and what is left
behind it is left of what was behind it.
-/

namespace UmlDraft.Comment

open Text

/-- What is left of a text when some of its stretches are taken out. -/
inductive Remains : List Char → List Char → Prop
  /-- Nothing is left of the end of the last line. -/
  | ending {g : List Char} (hg : '\n' ∉ g) : Remains g []
  /-- A character is kept. -/
  | char (c : Char) {s t : List Char} (h : Remains s t) : Remains (c :: s) (c :: t)
  /-- A stretch leaves a gap that ends as many lines. -/
  | gap {g g' s t : List Char} (hg : IsGap g') (hcount : g.count '\n' = g'.count '\n')
    (h : Remains s t) : Remains (g ++ s) (g' ++ t)

namespace Remains

variable {s t w before rest : List Char}

theorem append_left (w : List Char) (h : Remains s t) : Remains (w ++ s) (w ++ t) := by
  induction w with
  | nil => exact h
  | cons c w ih => exact .char c ih

theorem refl (s : List Char) : Remains s s := by
  have hs := (Remains.ending (g := []) List.not_mem_nil).append_left s
  rwa [List.append_nil] at hs

/-- What begins the text that is left, up to the first blank, begins the original. -/
theorem of_append (h : Remains s (w ++ rest)) (hw : ∀ c ∈ w, isBlank c = false) :
    ∃ r, s = w ++ r ∧ Remains r rest := by
  induction w generalizing s with
  | nil => exact ⟨s, rfl, h⟩
  | cons c w ih =>
    generalize ht : c :: w ++ rest = t at h
    cases h with
    | ending hg => cases ht
    | char d h =>
      obtain ⟨rfl, rfl⟩ := List.cons.inj ht
      obtain ⟨r, rfl, hr⟩ := ih h fun d hd => hw d (List.mem_cons_of_mem c hd)
      exact ⟨r, rfl, hr⟩
    | @gap g g' u v hg hcount h =>
      obtain ⟨b, k, rfl⟩ := List.exists_cons_of_ne_nil hg.ne_nil
      obtain ⟨rfl, -⟩ := List.cons.inj ht
      have hblank := hg.blank c List.mem_cons_self
      rw [hw c List.mem_cons_self] at hblank
      cases hblank

/-- What is left without a blank in it stands in the original behind as many line feeds. -/
theorem exists_append (h : Remains s t) (ht : t = before ++ (w ++ rest)) (hne : w ≠ [])
    (hw : ∀ c ∈ w, isBlank c = false) :
    ∃ b r, s = b ++ (w ++ r) ∧ b.count '\n' = before.count '\n' ∧ Remains r rest := by
  induction h generalizing before with
  | ending hg =>
    have hnil := (List.append_eq_nil_iff.mp ht.symm).2
    exact absurd (List.append_eq_nil_iff.mp hnil).1 hne
  | @char c s t h ih =>
    cases before with
    | nil =>
      obtain ⟨r, hr, hrest⟩ := of_append (ht ▸ h.char c) hw
      exact ⟨[], r, hr, rfl, hrest⟩
    | cons d before =>
      obtain ⟨rfl, rfl⟩ := List.cons.inj ht
      obtain ⟨b, r, rfl, hcount, hrest⟩ := ih rfl
      exact ⟨c :: b, r, rfl, by rw [List.count_cons, List.count_cons, hcount], hrest⟩
  | @gap g g' s t hg hcount h ih =>
    have hbehind : ∀ k, t = k ++ (w ++ rest) → ∃ b r, g ++ s = b ++ (w ++ r) ∧
        b.count '\n' = (g' ++ k).count '\n' ∧ Remains r rest := by
      intro k hk
      obtain ⟨b, r, rfl, hb, hrest⟩ := ih hk
      refine ⟨g ++ b, r, by rw [List.append_assoc], ?_, hrest⟩
      rw [List.count_append, List.count_append, hcount, hb]
    rcases List.append_eq_append_iff.mp ht with ⟨k, rfl, hk⟩ | ⟨k, hk, hrest⟩
    · exact hbehind k hk
    · -- What holds no blank does not begin within the gap.
      cases k with
      | nil =>
        obtain rfl : g' = before := by rw [hk, List.append_nil]
        have := hbehind [] hrest.symm
        rwa [List.append_nil] at this
      | cons d k =>
        obtain ⟨c, w, rfl⟩ := List.exists_cons_of_ne_nil hne
        obtain ⟨rfl, -⟩ := List.cons.inj hrest
        have hblank := hg.blank c (hk ▸ List.mem_append_right before List.mem_cons_self)
        rw [hw c List.mem_cons_self] at hblank
        cases hblank

end Remains

section Stripping

variable {s before w rest : List Char}

theorem isBlank_of_mem_blanked {c : Char} (hc : c ∈ s.flatMap blank) : isBlank c = true := by
  have hspacing := isSpacing_of_mem_blanked hc
  rw [isSpacing, Bool.or_eq_true, beq_iff_eq] at hspacing
  rcases hspacing with hpad | rfl
  · exact isBlank_of_isPad hpad
  · exact isBlank_feed

/-- A block comment leaves a gap. -/
theorem remains_stripBlocks (s : List Char) : Remains s (stripBlocks s) := by
  fun_induction stripBlocks s with
  | case1 => exact .refl []
  | case2 rest inner after h ih =>
    have hgap : IsGap (' ' :: ' ' :: (inner.flatMap blank ++ [' ', ' '])) := by
      refine ⟨List.cons_ne_nil _ _, fun c hc => ?_⟩
      have hcases : c = ' ' ∨ c ∈ inner.flatMap blank := by
        simpa [or_comm] using hc
      rcases hcases with rfl | hc
      · exact isBlank_space
      · exact isBlank_of_mem_blanked hc
    have hcount : ('/' :: '\'' :: (inner ++ ['\'', '/'])).count '\n' =
        (' ' :: ' ' :: (inner.flatMap blank ++ [' ', ' '])).count '\n' := by
      simp [count_flatMap_blank]
    have hblock := Remains.gap hgap hcount ih
    rw [eq_of_close? h]
    simpa only [List.cons_append, List.append_assoc, List.nil_append] using hblock
  | case3 => exact .refl _
  | case4 c rest _ ih => exact .char c ih

/-- What holds of a line without an end, and of a line and its end in front of what it holds of,
holds of every text. -/
theorem line_induction {P : List Char → Prop}
    (last : ∀ line, (∀ c ∈ line, isLineEnd c = false) → P line)
    (line : ∀ line e rest, (∀ c ∈ line, isLineEnd c = false) → isLineEnd e = true → P rest →
      P (line ++ e :: rest)) (s : List Char) : P s := by
  fun_induction stripLines s with
  | case1 s hs =>
    exact last s fun c hc => by simpa using List.dropWhile_eq_nil_iff.mp hs c hc
  | case2 s e rest hs ih =>
    have hstop := stops_dropWhile (fun c => !isLineEnd c) s
    rw [hs] at hstop
    rw [← List.takeWhile_append_dropWhile (p := fun c => !isLineEnd c) (l := s), hs]
    exact line _ e rest (fun c hc => by simpa using mem_takeWhile hc) (by simpa using hstop) ih

/-- A comment line leaves its end. -/
theorem remains_stripLines (s : List Char) : Remains s (stripLines s) := by
  induction s using line_induction with
  | last line hline =>
    have hfeed : '\n' ∉ line := fun hm => absurd (hline _ hm) (by decide)
    rw [stripLines_last hline, stripLine_eq]
    split
    · exact .ending hfeed
    · exact .refl line
  | line line e rest hline he ih =>
    rw [stripLines_line hline he, stripLine_eq]
    split
    · have hgap : IsGap [e] :=
        ⟨List.cons_ne_nil e [], fun c hc => List.mem_singleton.mp hc ▸ isBlank_of_isLineEnd he⟩
      have hfeed : line.count '\n' = 0 :=
        List.count_eq_zero.mpr fun hm => absurd (hline _ hm) (by decide)
      have hcount : (line ++ [e]).count '\n' = [e].count '\n' := by
        rw [List.count_append, hfeed, Nat.zero_add]
      have hempty := Remains.gap hgap hcount ih
      rwa [List.append_assoc] at hempty
    · exact .append_left line (.char e ih)

/-- What stands in a stripped text without a blank in it stands in the original, behind as many
line feeds. -/
theorem exists_append_of_strip {source : String}
    (h : (strip source).toList = before ++ (w ++ rest)) (hne : w ≠ [])
    (hw : ∀ c ∈ w, isBlank c = false) :
    ∃ b r, source.toList = b ++ (w ++ r) ∧ b.count '\n' = before.count '\n' := by
  rw [strip, String.toList_ofList] at h
  obtain ⟨b, r, hs, hb, -⟩ := (remains_stripLines _).exists_append h hne hw
  obtain ⟨b', r', hs', hb', -⟩ := (remains_stripBlocks _).exists_append hs hne hw
  exact ⟨b', r', hs', hb'.trans hb⟩

end Stripping

end UmlDraft.Comment
