import UmlDraft.Diagram.Comment
import UmlDraft.Proofs.Text.Runs

/-!
# Comments and lines

Stripping comments keeps every line feed, so lines counted in the stripped text are lines of the
original. A text without quotes has no comments and is left as it is. Block comments are looked for
from the front, so what is put behind a text changes nothing in it but a block left open; and each
line is emptied or kept on its own.
-/

namespace UmlDraft.Comment

open Text

/-- The line feeds before the place behind a beginning of a text are those of the beginning. -/
theorem feedsBefore_units (before rest : List Char) :
    feedsBefore (before ++ rest) (units before) = before.count '\n' := by
  induction before with
  | nil => cases rest <;> rfl
  | cons c before ih =>
    have hpos := width_pos c
    rw [List.cons_append, feedsBefore, units_cons, if_neg (by omega), Nat.add_sub_cancel_left, ih,
      List.count_cons]
    by_cases hc : c = '\n'
    · simp [hc, Nat.add_comm]
    · simp [hc]

/-- The line of a place counts the line feeds before it. -/
theorem lineAt_units (before rest : List Char) :
    lineAt (.ofList (before ++ rest)) (units before : Nat) = 1 + before.count '\n' := by
  rw [lineAt, String.toList_ofList, Int.toNat_natCast, feedsBefore_units]

theorem count_blank (c : Char) : (blank c).count '\n' = [c].count '\n' := by
  unfold blank
  by_cases hc : c = '\n'
  · simp [hc]
  · rw [if_neg hc, List.count_replicate]
    simp [hc]

/-- Blanking a comment keeps its line feeds. -/
theorem count_flatMap_blank (s : List Char) : (s.flatMap blank).count '\n' = s.count '\n' := by
  induction s with
  | nil => rfl
  | cons c s ih =>
    rw [List.flatMap_cons, List.count_append, ih, count_blank, ← List.count_append]
    rfl

/-- Blanking the block comments keeps every line feed. -/
theorem count_stripBlocks (s : List Char) : (stripBlocks s).count '\n' = s.count '\n' := by
  fun_induction stripBlocks s with
  | case1 => rfl
  | case2 rest inner after h ih =>
    rw [eq_of_close? h]
    simp only [List.count_cons, List.count_append, count_flatMap_blank, ih]
    simp
  | case3 => rfl
  | case4 c rest _ ih => rw [List.count_cons, List.count_cons, ih]

/-- A line holds no line feed, so emptying it loses none. -/
theorem count_stripLine {line : List Char} (h : ∀ c ∈ line, isLineEnd c = false) :
    (stripLine line).count '\n' = line.count '\n' := by
  have hline : line.count '\n' = 0 := List.count_eq_zero.mpr fun hm => by
    have := h _ hm
    revert this
    decide
  unfold stripLine
  split
  · rw [hline]
    rfl
  · rfl

private theorem not_isLineEnd_of_mem {s : List Char} {c : Char}
    (h : c ∈ s.takeWhile fun c => !isLineEnd c) : isLineEnd c = false := by
  have hc := mem_takeWhile h
  simpa using hc

/-- Emptying the comment lines keeps every line feed. -/
theorem count_stripLines (s : List Char) : (stripLines s).count '\n' = s.count '\n' := by
  fun_induction stripLines s with
  | case1 s h =>
    refine count_stripLine fun c hc => ?_
    have hs := List.takeWhile_append_dropWhile (p := fun c => !isLineEnd c) (l := s)
    rw [h, List.append_nil] at hs
    exact not_isLineEnd_of_mem (hs.symm ▸ hc)
  | case2 s e rest h ih =>
    have hs := List.takeWhile_append_dropWhile (p := fun c => !isLineEnd c) (l := s)
    rw [h] at hs
    have hline := count_stripLine fun c (hc : c ∈ s.takeWhile _) => not_isLineEnd_of_mem hc
    conv => rhs; rw [← hs]
    rw [List.count_append, List.count_append, hline, List.count_cons, List.count_cons, ih]

/-- The stripped text has the line feeds of the original. -/
theorem count_strip (source : String) :
    (strip source).toList.count '\n' = source.toList.count '\n' := by
  rw [strip, String.toList_ofList, count_stripLines, count_stripBlocks]

theorem stripBlocks_of_quoteless {s : List Char} (h : '\'' ∉ s) : stripBlocks s = s := by
  fun_induction stripBlocks s with
  | case1 => rfl
  | case2 rest inner after hc ih => simp at h
  | case3 => rfl
  | case4 c rest _ ih => rw [ih fun hm => h (List.mem_cons_of_mem c hm)]

theorem stripLine_of_quoteless {line : List Char} (h : '\'' ∉ line) : stripLine line = line := by
  refine if_neg fun hh => h ?_
  exact (List.dropWhile_suffix isPad).subset (List.mem_of_head? hh)

theorem stripLines_of_quoteless {s : List Char} (h : '\'' ∉ s) : stripLines s = s := by
  fun_induction stripLines s with
  | case1 s hs => exact stripLine_of_quoteless h
  | case2 s e rest hs ih =>
    have he := List.takeWhile_append_dropWhile (p := fun c => !isLineEnd c) (l := s)
    rw [hs] at he
    rw [← he, List.mem_append, List.mem_cons, not_or, not_or] at h
    rw [stripLine_of_quoteless h.1, ih h.2.2]
    exact he

/-- A text without quotes has no comments. -/
theorem strip_of_quoteless {source : String} (h : '\'' ∉ source.toList) :
    strip source = source := by
  rw [strip, stripBlocks_of_quoteless h, stripLines_of_quoteless h, String.ofList_toList]

section Parts

variable {s t line inner after : List Char} {c e : Char}

/-- A block that ends in a text ends at the same place if the text goes on. -/
theorem close?_append_of_some (h : close? s = some (inner, after)) (t : List Char) :
    close? (s ++ t) = some (inner, after ++ t) := by
  induction s using close?.induct generalizing inner with
  | case1 => cases h
  | case2 rest =>
    cases h
    rfl
  | case3 c rest hne ih =>
    rw [close?.eq_3 c rest hne] at h
    obtain ⟨⟨inner', after'⟩, hr, he⟩ := Option.map_eq_some_iff.mp h
    cases he
    have hne' : ∀ r, c = '\'' → rest ++ t = '/' :: r → False := by
      intro r hc hrest
      cases rest with
      | nil => cases hr
      | cons d rest => exact hne rest hc (by rw [(List.cons.inj hrest).1])
    rw [List.cons_append, close?.eq_3 c (rest ++ t) hne', ih hr]
    rfl

/-- A block that does not end in a text ends in what follows, if at all. -/
theorem close?_append_of_none (h : close? s = none) (hlast : ∀ c ∈ s.getLast?, c ≠ '\'')
    (t : List Char) : close? (s ++ t) = (close? t).map fun r => (s ++ r.1, r.2) := by
  induction s using close?.induct with
  | case1 => exact Option.map_id'.symm
  | case2 rest => cases h
  | case3 c rest hne ih =>
    rw [close?.eq_3 c rest hne, Option.map_eq_none_iff] at h
    have hne' : ∀ r, c = '\'' → rest ++ t = '/' :: r → False := by
      intro r hc hrest
      cases rest with
      | nil => exact hlast c rfl hc
      | cons d rest => exact hne rest hc (by rw [(List.cons.inj hrest).1])
    rw [List.cons_append, close?.eq_3 c (rest ++ t) hne',
      ih h fun d hd => hlast d (mem_getLast?_of_suffix (List.suffix_cons c rest) hd),
      Option.map_map]
    rfl

theorem close?_eq_none (h : ¬ ['\'', '/'] <:+: s) : close? s = none := by
  rw [Option.eq_none_iff_forall_ne_some]
  rintro ⟨inner, after⟩ hs
  exact h ⟨inner, after, by rw [eq_of_close? hs, List.append_assoc]; rfl⟩

/-- No end of a block stands in a text in which none is found. -/
theorem not_infix_of_close? (h : close? s = none) : ¬ ['\'', '/'] <:+: s := by
  induction s using close?.induct with
  | case1 => simp
  | case2 rest => cases h
  | case3 c rest hne ih =>
    rw [close?.eq_3 c rest hne, Option.map_eq_none_iff] at h
    rw [List.infix_cons_iff, not_or]
    refine ⟨?_, ih h⟩
    rintro ⟨r, hr⟩
    obtain ⟨hc, hrest⟩ := List.cons.inj hr
    exact hne r hc.symm hrest.symm

theorem stripBlocks_of_closed (h : close? s = some (inner, after)) :
    stripBlocks ('/' :: '\'' :: s) =
      ' ' :: ' ' :: (inner.flatMap blank ++ ' ' :: ' ' :: stripBlocks after) := by
  rw [stripBlocks]
  split
  · next hs =>
    rw [h] at hs
    cases hs
    rfl
  · next hs =>
    rw [h] at hs
    cases hs

theorem stripBlocks_of_open (h : close? s = none) :
    stripBlocks ('/' :: '\'' :: s) = '/' :: '\'' :: s := by
  rw [stripBlocks]
  split
  · next hs =>
    rw [h] at hs
    cases hs
  · rfl

/-- A text in which no block begins is kept in front of another, if none begins where they meet. -/
theorem stripBlocks_append_of_seam (h : ¬ ['/', '\''] <:+: s)
    (hseam : ∀ c ∈ s.getLast?, c = '/' → t.head? ≠ some '\'') :
    stripBlocks (s ++ t) = s ++ stripBlocks t := by
  induction s with
  | nil => rfl
  | cons c s ih =>
    have hne : ∀ r, c = '/' → s ++ t = '\'' :: r → False := by
      intro r hc hs
      cases s with
      | nil => exact hseam c rfl hc (by rw [← List.nil_append t, hs]; rfl)
      | cons d s => exact h ⟨[], s, by rw [hc, (List.cons.inj hs).1]; rfl⟩
    rw [List.cons_append, stripBlocks.eq_3 c _ hne, ih, List.cons_append]
    · exact fun hs => h (hs.trans (List.suffix_cons c s).isInfix)
    · exact fun d hd => hseam d (mem_getLast?_of_suffix (List.suffix_cons c s) hd)

/-- A text in which no block begins is kept in front of any other, if it does not end with a slash.
-/
theorem stripBlocks_append (h : ¬ ['/', '\''] <:+: s) (hlast : ∀ c ∈ s.getLast?, c ≠ '/')
    (t : List Char) : stripBlocks (s ++ t) = s ++ stripBlocks t :=
  stripBlocks_append_of_seam h fun c hc he => absurd he (hlast c hc)

/-- The first line of a text is stripped apart from the rest. -/
theorem stripLines_line (h : ∀ c ∈ line, isLineEnd c = false) (he : isLineEnd e = true)
    (rest : List Char) : stripLines (line ++ e :: rest) = stripLine line ++ e :: stripLines rest := by
  have hrun : ∀ c ∈ line, (!isLineEnd c) = true := fun c hc => by rw [h c hc]; rfl
  have hstop : Stops (fun c => !isLineEnd c) (e :: rest) := stops_cons.mpr (by rw [he]; rfl)
  rw [stripLines]
  split
  · next hs =>
    rw [dropWhile_run hrun hstop] at hs
    cases hs
  · next hs =>
    rw [dropWhile_run hrun hstop] at hs
    cases hs
    rw [takeWhile_run hrun hstop]

/-- The last line of a text is stripped as any other. -/
theorem stripLines_last (h : ∀ c ∈ line, isLineEnd c = false) :
    stripLines line = stripLine line := by
  have hrun : ∀ c ∈ line, (!isLineEnd c) = true := fun c hc => by rw [h c hc]; rfl
  have hnil := dropWhile_run hrun stops_nil
  rw [List.append_nil] at hnil
  rw [stripLines]
  split
  · rfl
  · next hs =>
    rw [hnil] at hs
    cases hs

/-- Lines are stripped apart from each other. -/
theorem stripLines_append (he : isLineEnd e = true) (s t : List Char) :
    stripLines (s ++ e :: t) = stripLines s ++ e :: stripLines t := by
  fun_induction stripLines s with
  | case1 s hs =>
    have hcut := List.takeWhile_append_dropWhile (p := fun c => !isLineEnd c) (l := s)
    rw [hs, List.append_nil] at hcut
    refine stripLines_line (fun c hc => ?_) he t
    exact not_isLineEnd_of_mem (hcut.symm ▸ hc)
  | case2 s d rest hs ih =>
    have hcut := List.takeWhile_append_dropWhile (p := fun c => !isLineEnd c) (l := s)
    have hstop := stops_dropWhile (fun c => !isLineEnd c) s
    rw [hs] at hcut hstop
    have hd : isLineEnd d = true := by simpa using hstop
    conv => lhs; rw [← hcut, List.append_assoc, List.cons_append]
    rw [stripLines_line (fun c hc => not_isLineEnd_of_mem hc) hd, ih, List.append_assoc,
      List.cons_append]

end Parts

end UmlDraft.Comment
