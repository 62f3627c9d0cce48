import UmlDraft.Proofs.Diagram.AlikeModel

/-!
# Comment lines

A comment line put between two lines of a text does not change the diagram. In a block comment the
line is blanked with the rest of the block; anywhere else it is emptied, or it stands behind a block
that never ends, whose lines are still read. In each case a blank line is what the stripped text has
more than the other, and such a line is part of a gap. So the two texts are alike, and what stood
behind the line stands one line further down. Main statement: a comment line changes the lines of
the declarations behind it and nothing else.
-/

namespace UmlDraft

open Text

namespace Comment

variable {p s t line : List Char} {c : Char}

/-- The text is empty or ends with a line feed. -/
def Whole (s : List Char) : Prop :=
  ∀ c ∈ s.getLast?, c = '\n'

/-- A comment line is spaces and tabs, a quote, any text, and a line feed. No block comment begins
or ends in it. -/
structure IsLine (line : List Char) : Prop where
  /-- Nothing but padding stands before the quote, and no line ends before the line feed. -/
  form : ∃ pads text, line = pads ++ '\'' :: text ++ ['\n'] ∧ (∀ c ∈ pads, isPad c = true) ∧
    ∀ c ∈ text, isLineEnd c = false
  /-- No block comment begins in the line. -/
  opens : ¬ ['/', '\''] <:+: line
  /-- No block comment ends in the line. -/
  closes : ¬ ['\'', '/'] <:+: line

namespace Whole

theorem of_suffix (hs : Whole s) (h : t <:+ s) : Whole t :=
  fun _ hc => hs _ (mem_getLast?_of_suffix h hc)

theorem concat (s : List Char) : Whole (s ++ ['\n']) := by
  intro c hc
  rw [List.getLast?_concat] at hc
  exact (Option.some.inj hc).symm

theorem exists_eq_concat (hs : Whole s) (hne : s ≠ []) : ∃ t, s = t ++ ['\n'] :=
  eq_concat_of_getLast? hs hne

theorem append (ht : Whole t) (h : t = [] → Whole s) : Whole (s ++ t) := by
  by_cases hne : t = []
  · rw [hne, List.append_nil]
    exact h hne
  · obtain ⟨t', rfl⟩ := ht.exists_eq_concat hne
    rw [← List.append_assoc]
    exact .concat _

/-- A text of whole lines without line feeds is empty. -/
theorem eq_nil (hs : Whole s) (h : s.count '\n' = 0) : s = [] := by
  by_contra hne
  obtain ⟨t, rfl⟩ := hs.exists_eq_concat hne
  exact absurd (List.mem_append_right t List.mem_cons_self) (List.count_eq_zero.mp h)

theorem ne_of_mem (hs : Whole s) (hc : c ≠ '\n') : ∀ d ∈ s.getLast?, d ≠ c :=
  fun d hd he => hc (he ▸ hs d hd)

end Whole

theorem IsLine.whole (h : IsLine line) : Whole line := by
  obtain ⟨pads, text, rfl, -⟩ := h.form
  exact .concat _

/-! ### Blocks -/

/-- What becomes of a line between two texts when the block comments are blanked. -/
structure Divides (p line s p' line' s' : List Char) : Prop where
  /-- The two texts without the line. -/
  without : stripBlocks (p ++ s) = p' ++ s'
  /-- The two texts with the line. -/
  within : stripBlocks (p ++ (line ++ s)) = p' ++ (line' ++ s')
  /-- Before the line there are whole lines still. -/
  whole : Whole p'
  /-- There are as many lines as there were. -/
  count : p'.count '\n' = p.count '\n'
  /-- The line is kept, or it is blanked with the block that it is in. -/
  kept : line' = line ∨ line' = line.flatMap blank

/-- What is blanked or kept in front of the texts does not matter to the line. -/
theorem Divides.prepend {a a' p' line' s' : List Char} (h : Divides p line s p' line' s')
    (hp : Whole p) (hstep : ∀ t, stripBlocks (a ++ (p ++ t)) = a' ++ stripBlocks (p ++ t))
    (hcount : a'.count '\n' = a.count '\n') (hwhole : p = [] → Whole a') :
    Divides (a ++ p) line s (a' ++ p') line' s' where
  without := by rw [List.append_assoc, hstep, h.without, List.append_assoc]
  within := by rw [List.append_assoc, hstep, h.within, List.append_assoc]
  whole := h.whole.append fun h0 => hwhole (hp.eq_nil (by rw [← h.count, h0, List.count_nil]))
  count := by rw [List.count_append, List.count_append, hcount, h.count]
  kept := h.kept

/-- Behind the opening of a block that does not end before it, the line is blanked if the block ends
behind it, and kept if the block never ends. -/
theorem exists_divides_of_open (hp : Whole ('/' :: '\'' :: p)) (h : close? p = none)
    (hl : IsLine line) (s : List Char) :
    ∃ p' line' s', Divides ('/' :: '\'' :: p) line s p' line' s' := by
  have hrest : Whole p := hp.of_suffix ⟨['/', '\''], rfl⟩
  have hone := close?_append_of_none h (hrest.ne_of_mem (by decide)) s
  have htwo := close?_append_of_none h (hrest.ne_of_mem (by decide)) (line ++ s)
  rw [close?_append_of_none (close?_eq_none hl.closes) (hl.whole.ne_of_mem (by decide)) s] at htwo
  cases hs : close? s with
  | none =>
    rw [hs] at hone htwo
    exact ⟨'/' :: '\'' :: p, line, s, stripBlocks_of_open hone, stripBlocks_of_open htwo, hp, rfl,
      .inl rfl⟩
  | some r =>
    rw [hs, Option.map_some] at hone htwo
    have hne : p ≠ [] := by
      rintro rfl
      exact absurd (hp '\'' rfl) (by decide)
    obtain ⟨u, rfl⟩ := hrest.exists_eq_concat hne
    refine ⟨' ' :: ' ' :: u.flatMap blank ++ ['\n'], line.flatMap blank,
      r.1.flatMap blank ++ ' ' :: ' ' :: stripBlocks r.2, ?_, ?_, .concat _, ?_, .inr rfl⟩
    · refine (stripBlocks_of_closed hone).trans ?_
      simp [blank]
    · refine (stripBlocks_of_closed htwo).trans ?_
      simp [blank]
    · simp [count_flatMap_blank]

/-- When the block comments are blanked, a comment line between two texts is kept or blanked. -/
theorem exists_divides (hp : Whole p) (hl : IsLine line) (s : List Char) :
    ∃ p' line' s', Divides p line s p' line' s' := by
  induction p using stripBlocks.induct with
  | case1 =>
    have hkeep := stripBlocks_append hl.opens (hl.whole.ne_of_mem (by decide)) s
    exact ⟨[], line, stripBlocks s, rfl, hkeep, hp, rfl, .inl rfl⟩
  | case2 rest inner after h ih =>
    have hblock : '/' :: '\'' :: rest = '/' :: '\'' :: (inner ++ ['\'', '/']) ++ after := by
      rw [eq_of_close? h]
      simp
    have hafter : Whole after := hp.of_suffix ⟨_, hblock.symm⟩
    obtain ⟨p', line', s', hd⟩ := ih hafter
    rw [hblock] at hp ⊢
    refine ⟨' ' :: ' ' :: (inner.flatMap blank ++ [' ', ' ']) ++ p', line', s',
      hd.prepend hafter (fun t => ?_) ?_ fun h0 => ?_⟩
    · rw [← List.append_assoc, ← hblock]
      refine (stripBlocks_of_closed (close?_append_of_some h t)).trans ?_
      simp
    · simp [count_flatMap_blank]
    · -- Something comes behind the block, since the text does not end with a slash.
      rw [h0, List.append_nil] at hp
      have hslash : Whole ['/'] := hp.of_suffix ⟨'/' :: '\'' :: (inner ++ ['\'']), by simp⟩
      exact absurd (hslash '/' rfl) (by decide)
  | case3 rest h => exact exists_divides_of_open hp h hl s
  | case4 c rest hne ih =>
    have hrest : Whole rest := hp.of_suffix (List.suffix_cons c rest)
    obtain ⟨p', line', s', hd⟩ := ih hrest
    refine ⟨[c] ++ p', line', s', hd.prepend (a := [c]) hrest (fun t => ?_) rfl fun h0 => ?_⟩
    · refine stripBlocks.eq_3 c _ fun r hc hr => ?_
      cases rest with
      | nil => exact absurd (hc ▸ hp c rfl) (by decide)
      | cons d rest => exact hne rest hc (by rw [(List.cons.inj hr).1])
    · rwa [h0] at hp

/-! ### Lines -/

/-- Whole lines are stripped apart from what follows them. -/
theorem exists_stripLines (hp : Whole p) : ∃ q, Whole q ∧ q.count '\n' = p.count '\n' ∧
    ∀ s, stripLines (p ++ s) = q ++ stripLines s := by
  by_cases hne : p = []
  · rw [hne] at hp ⊢
    exact ⟨[], hp, rfl, fun _ => rfl⟩
  · obtain ⟨u, rfl⟩ := hp.exists_eq_concat hne
    refine ⟨stripLines u ++ ['\n'], .concat _, ?_, fun s => ?_⟩
    · rw [List.count_append, List.count_append, count_stripLines]
    · rw [List.append_assoc, List.singleton_append, stripLines_append rfl, List.append_assoc,
        List.singleton_append]

/-- A comment line, and one that was blanked, comes out as a blank line. -/
theorem exists_stripLine (hl : IsLine line) {line' : List Char}
    (h : line' = line ∨ line' = line.flatMap blank) :
    ∃ gap, (∀ c ∈ gap, isBlank c = true ∧ c ≠ '\n') ∧
      ∀ s, stripLines (line' ++ s) = gap ++ '\n' :: stripLines s := by
  obtain ⟨pads, text, rfl, hpads, htext⟩ := hl.form
  have hends : ∀ c ∈ pads ++ '\'' :: text, isLineEnd c = false := by
    intro c hc
    rcases List.mem_append.mp hc with hc | hc
    · exact isLineEnd_of_isPad (hpads c hc)
    · rcases List.mem_cons.mp hc with rfl | hc
      · rfl
      · exact htext c hc
  rcases h with rfl | rfl
  · have hempty : stripLine (pads ++ '\'' :: text) = [] := by
      refine if_pos ?_
      rw [dropWhile_run hpads (stops_cons.mpr rfl)]
      rfl
    refine ⟨[], fun _ hc => absurd hc List.not_mem_nil, fun s => ?_⟩
    rw [List.append_assoc, List.singleton_append, stripLines_line hends rfl, hempty]
  · have hspace : ∀ c ∈ (pads ++ '\'' :: text).flatMap blank, c = ' ' := by
      intro c hc
      obtain ⟨d, hd, hc⟩ := List.mem_flatMap.mp hc
      have hfeed : d ≠ '\n' := by
        rintro rfl
        cases hends '\n' hd
      rw [blank, if_neg hfeed] at hc
      exact List.eq_of_mem_replicate hc
    have hkeep : stripLine ((pads ++ '\'' :: text).flatMap blank) =
        (pads ++ '\'' :: text).flatMap blank := by
      refine if_neg ?_
      rw [List.dropWhile_eq_nil_iff.mpr fun c hc => by rw [hspace c hc]; rfl]
      exact fun hnone => nomatch hnone
    refine ⟨(pads ++ '\'' :: text).flatMap blank, fun c hc => ?_, fun s => ?_⟩
    · rw [hspace c hc]
      decide
    · rw [List.flatMap_append, List.append_assoc]
      refine (stripLines_line (fun c hc => ?_) rfl s).trans (by rw [hkeep])
      rw [hspace c hc]
      rfl

/-- The second text is the first with a blank line put in behind so many lines. -/
inductive BlankLineAt (n : Nat) : List Char → List Char → Prop
  /-- The line stands between whole lines and the rest. -/
  | intro {q gap rest : List Char} (hq : Whole q) (hn : q.count '\n' = n)
    (hgap : ∀ c ∈ gap, isBlank c = true ∧ c ≠ '\n') :
    BlankLineAt n (q ++ rest) (q ++ (gap ++ '\n' :: rest))

/-- A comment line between two texts makes a blank line once the comments are stripped. -/
theorem blankLineAt_strip {p line s : String} (hp : Whole p.toList) (hl : IsLine line.toList) :
    BlankLineAt (p.toList.count '\n') (strip (p ++ s)).toList (strip (p ++ line ++ s)).toList := by
  obtain ⟨p', line', s', hd⟩ := exists_divides hp hl s.toList
  obtain ⟨q, hq, hn, hlines⟩ := exists_stripLines hd.whole
  obtain ⟨gap, hgap, hline⟩ := exists_stripLine hl hd.kept
  have hwithout : (strip (p ++ s)).toList = q ++ stripLines s' := by
    rw [strip, String.toList_ofList, String.toList_append, hd.without, hlines]
  have hwithin : (strip (p ++ line ++ s)).toList = q ++ (gap ++ '\n' :: stripLines s') := by
    rw [strip, String.toList_ofList, String.toList_append, String.toList_append, List.append_assoc,
      hd.within, hlines, hline]
  rw [hwithout, hwithin]
  exact .intro hq (hn.trans hd.count) hgap

/-- The line of something once a line is put in behind so many others: what stands on one of those
keeps its line, and what stands behind them stands one line further down. -/
def lineBehind (n : Nat) (line : Int) : Int :=
  if line ≤ n then line else line + 1

namespace BlankLineAt

variable {n : Nat} {text text' u v : List Char}

/-- A blank line is part of a gap. -/
theorem alike (h : BlankLineAt n text text') : Alike (skipBlanks text) (skipBlanks text') := by
  cases h with
  | @intro q gap rest hq hn hgap =>
    have hblank : ∀ c ∈ gap ++ ['\n'], isBlank c = true := by
      intro c hc
      rcases List.mem_append.mp hc with hc | hc
      · exact (hgap c hc).1
      · exact List.mem_singleton.mp hc ▸ isBlank_feed
    rw [List.append_cons gap]
    by_cases hne : q = []
    · rw [hne, List.nil_append, List.nil_append, skipBlanks, skipBlanks,
        List.dropWhile_append_of_pos hblank]
      exact .refl _
    · obtain ⟨u, rfl⟩ := hq.exists_eq_concat hne
      have hgaps : SameGap ['\n'] ('\n' :: (gap ++ ['\n'])) := by
        refine ⟨⟨List.cons_ne_nil _ _, ?_⟩, ⟨List.cons_ne_nil _ _, ?_⟩, ?_⟩
        · exact fun c hc => List.mem_singleton.mp hc ▸ isBlank_feed
        · exact List.forall_mem_cons.mpr ⟨isBlank_feed, hblank⟩
        · exact iff_of_true List.mem_cons_self List.mem_cons_self
      have halike := (Alike.gap_append hgaps (.refl rest)).append_left u
      rw [List.append_assoc, List.append_assoc]
      exact halike.skipBlanks

section Lines

variable {q gap rest : List Char}

/-- A blank line has no ink. -/
theorem ink_blankLine (hgap : ∀ c ∈ gap, isBlank c = true ∧ c ≠ '\n') :
    ink (gap ++ '\n' :: rest) = ink rest := by
  have hzero : ink gap = 0 := ink_eq_zero_iff.mpr fun c hc => (hgap c hc).1
  rw [ink_append, hzero, Nat.zero_add]
  rfl

/-- A place in the lines before the blank one keeps its line, which is one of theirs. -/
theorem lineAt_before (hq : Whole q) (hgap : ∀ c ∈ gap, isBlank c = true ∧ c ≠ '\n')
    (hp : SamePlace (q ++ rest) (q ++ (gap ++ '\n' :: rest)) u v) (h : ink rest < ink u) :
    lineAt (.ofList (q ++ (gap ++ '\n' :: rest)))
        (Outline.offsetIn (q ++ (gap ++ '\n' :: rest)) v) =
      lineAt (.ofList (q ++ rest)) (Outline.offsetIn (q ++ rest) u) ∧
    lineAt (.ofList (q ++ rest)) (Outline.offsetIn (q ++ rest) u) ≤ q.count '\n' := by
  have hink : ink (gap ++ '\n' :: rest) = ink rest := ink_blankLine hgap
  have hsame := hp.alike.ink_eq
  have h' : ink (gap ++ '\n' :: rest) < ink v := by rwa [hink, ← hsame]
  obtain ⟨a, rfl, hne⟩ := exists_append_of_ink_lt hp.left (List.suffix_append q rest) h
  obtain ⟨a', rfl, -⟩ := exists_append_of_ink_lt hp.right (List.suffix_append q _) h'
  have hleft := List.suffix_append_self_iff.mp hp.left
  have hright := List.suffix_append_self_iff.mp hp.right
  -- Both places have the same ink behind them in the lines before.
  rw [ink_append, ink_append, hink] at hsame
  obtain rfl := eq_of_ink_eq hleft hright hp.stops.of_append hp.stops'.of_append
    (Nat.add_right_cancel hsame)
  have hfeed : a.count '\n' ≠ 0 := fun h0 => hne ((hq.of_suffix hleft).eq_nil h0)
  obtain ⟨b, rfl⟩ := hleft
  rw [List.append_assoc, List.append_assoc, lineAt_offsetIn, lineAt_offsetIn, List.count_append]
  exact ⟨rfl, by omega⟩

/-- A place behind the blank line stands one line further down, on none of the lines before it. -/
theorem lineAt_behind (hgap : ∀ c ∈ gap, isBlank c = true ∧ c ≠ '\n')
    (hp : SamePlace (q ++ rest) (q ++ (gap ++ '\n' :: rest)) u v) (h : ink u ≤ ink rest) :
    lineAt (.ofList (q ++ (gap ++ '\n' :: rest)))
        (Outline.offsetIn (q ++ (gap ++ '\n' :: rest)) v) =
      lineAt (.ofList (q ++ rest)) (Outline.offsetIn (q ++ rest) u) + 1 ∧
    q.count '\n' < lineAt (.ofList (q ++ rest)) (Outline.offsetIn (q ++ rest) u) := by
  have hsame := hp.alike.ink_eq
  have h' : ink v ≤ ink rest := by rwa [← hsame]
  have hbehind : rest <:+ q ++ (gap ++ '\n' :: rest) :=
    (List.suffix_cons '\n' rest).trans ((List.suffix_append gap _).trans (List.suffix_append q _))
  -- What is behind the blank line is the same in both texts, and so is the place in it.
  have hu := suffix_of_ink_le hp.left (List.suffix_append q rest) hp.stops h
  have hv := suffix_of_ink_le hp.right hbehind hp.stops' h'
  obtain rfl := eq_of_ink_eq hu hv hp.stops hp.stops' hsame
  obtain ⟨w, rfl⟩ := hu
  have hfeeds : gap.count '\n' = 0 := List.count_eq_zero.mpr fun hm => (hgap _ hm).2 rfl
  have htext : q ++ (w ++ u) = q ++ w ++ u := (List.append_assoc q w u).symm
  have htext' : q ++ (gap ++ '\n' :: (w ++ u)) = q ++ (gap ++ '\n' :: w) ++ u := by
    simp only [List.append_assoc, List.cons_append]
  rw [htext, htext', lineAt_offsetIn, lineAt_offsetIn]
  simp only [List.count_append, List.count_cons_self, hfeeds]
  omega

end Lines

/-- What stands behind the blank line stands one line further down, and nothing else moves. -/
theorem lineAt_eq (h : BlankLineAt n text text') (hp : SamePlace text text' u v) :
    (lineAt (.ofList text') (Outline.offsetIn text' v) : Int) =
      lineBehind n (lineAt (.ofList text) (Outline.offsetIn text u)) := by
  cases h with
  | @intro q gap rest hq hn hgap =>
    rcases Nat.lt_or_ge (ink rest) (ink u) with hlt | hle
    · obtain ⟨hline, hcount⟩ := lineAt_before hq hgap hp hlt
      rw [lineBehind, if_pos (by omega), hline]
    · obtain ⟨hline, hcount⟩ := lineAt_behind hgap hp hle
      rw [lineBehind, if_neg (by omega), hline, Int.natCast_add, Int.natCast_one]

end BlankLineAt

end Comment

namespace Model

/-- A comment line put between whole lines and the rest of a text changes the lines of the
declarations behind it, and nothing else but bodies. A declaration stands before the comment if its
header begins on a line of the front, whatever line it ends on. -/
theorem ofText_insert_commentLine {front line rest : String}
    (hfront : Comment.Whole front.toList) (hline : Comment.IsLine line.toList) :
    (ofText (front ++ line ++ rest)).bodiless =
      (ofText (front ++ rest)).bodiless.relined
        (Comment.lineBehind (front.toList.count '\n')) := by
  have hblank := Comment.blankLineAt_strip hfront hline (s := rest)
  refine ofText_alike hblank.alike fun u v hplace => ?_
  have hlines := hblank.lineAt_eq hplace
  rwa [String.ofList_toList, String.ofList_toList] at hlines

/-- A declaration, and the first word of another. -/
def splitFront : String :=
  "class A \x7b\n\x7d\nclass\n"

/-- A comment line that holds a header, a brace and an arrow. -/
def splitComment : String :=
  " \t' class Z \x7b A --|> Z\n"

/-- The rest of the second declaration, and a third one. -/
def splitRest : String :=
  "B extends A \x7b\n+x: int\x7d\nclass C \x7b\x7d"

/-- A comment line put into a header. -/
theorem ofText_insert_commentLine_split :
    Comment.Whole splitFront.toList ∧ Comment.IsLine splitComment.toList ∧
      (ofText (splitFront ++ splitRest)).declarations.values.map (·.line) = [1, 3, 6] ∧
      (ofText (splitFront ++ splitComment ++ splitRest)).declarations.values.map (·.line) =
        [1, 3, 7] ∧
      (ofText (splitFront ++ splitComment ++ splitRest)).bodiless =
        (ofText (splitFront ++ splitRest)).bodiless.relined
          (Comment.lineBehind (splitFront.toList.count '\n')) := by
  have hfront : Comment.Whole splitFront.toList := fun c hc => (Option.some.inj hc).symm
  have hpads : ([' ', '\t'].all isPad) = true := rfl
  have htext : (" class Z \x7b A --|> Z".toList.all fun c => !isLineEnd c) = true := rfl
  have hline : Comment.IsLine splitComment.toList :=
    { form := ⟨[' ', '\t'], " class Z \x7b A --|> Z".toList, rfl, List.all_eq_true.mp hpads,
        fun c hc => by simpa using List.all_eq_true.mp htext c hc⟩
      opens := by decide +kernel
      closes := by decide +kernel }
  exact ⟨hfront, hline, by decide +kernel, by decide +kernel,
    ofText_insert_commentLine hfront hline⟩

end Model

end UmlDraft
