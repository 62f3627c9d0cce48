import UmlDraft.Proofs.Diagram.AlikeModel
import UmlDraft.Proofs.Text.Repadded

/-!
# Diagrams with other padding

Stripping the comments of repadded texts leaves repadded texts: a block is blanked to spaces and
line feeds, and a line is a comment whatever padding stands before its quote. Since repadded texts
are alike line by line, they describe the same diagram, and each declaration stands on the same
line.
-/

namespace UmlDraft

open Text

namespace Comment

variable {c : Char} {a g inner inner' s t x : List Char}

/-! ### Blocks -/

theorem isSpacing_of_mem_blanked (hc : c ∈ s.flatMap blank) : isSpacing c = true := by
  obtain ⟨d, -, hc⟩ := List.mem_flatMap.mp hc
  unfold blank at hc
  split at hc
  · rw [List.mem_singleton.mp hc]
    rfl
  · rw [List.eq_of_mem_replicate hc]
    rfl

/-- Blanked blocks that end as many lines are padding in front of repadded texts. -/
theorem repadded_blanked (hcount : inner.count '\n' = inner'.count '\n') (h : Repadded s t) :
    Repadded (' ' :: ' ' :: (inner.flatMap blank ++ ' ' :: ' ' :: s))
      (' ' :: ' ' :: (inner'.flatMap blank ++ ' ' :: ' ' :: t)) := by
  have hspace : ∀ d ∈ [' ', ' '], isSpacing d = true := List.all_eq_true.mp rfl
  have hspacing : ∀ u : List Char, ∀ c ∈ [' ', ' '] ++ (u.flatMap blank ++ [' ', ' ']),
      isSpacing c = true := by
    intro u c hc
    rcases List.mem_append.mp hc with hc | hc
    · exact hspace c hc
    · exact (List.mem_append.mp hc).elim isSpacing_of_mem_blanked (hspace c)
  have hfeeds : ∀ u : List Char,
      ([' ', ' '] ++ (u.flatMap blank ++ [' ', ' '])).count '\n' = u.count '\n' := by
    intro u
    simp [count_flatMap_blank]
  have hpadded := h.append_spacing (hspacing inner) (hspacing inner') (List.cons_ne_nil _ _)
    (List.cons_ne_nil _ _) (by rw [hfeeds, hfeeds, hcount])
  simpa only [List.append_assoc, List.cons_append, List.nil_append] using hpadded

theorem quote_not_mem_trailing (hg : ∀ c ∈ g, isTrailing c = true) : '\'' ∉ g :=
  not_mem_of_run hg rfl

theorem close?_of_quoteless (h : '\'' ∉ s) : close? s = none :=
  close?_eq_none fun hin => h (hin.subset List.mem_cons_self)

/-- A block ends at the same place of repadded texts and ends as many lines in both. -/
theorem repadded_close? (h : Repadded s t) :
    Option.Rel (fun r r' => r.1.count '\n' = r'.1.count '\n' ∧ Repadded r.2 r'.2) (close? s)
      (close? t) := by
  induction h with
  | ending hg hg' =>
    rw [close?_of_quoteless (quote_not_mem_trailing hg),
      close?_of_quoteless (quote_not_mem_trailing hg')]
    exact .none
  | @char c s t h ih =>
    by_cases hclose : ∃ r, c = '\'' ∧ s = '/' :: r
    · obtain ⟨r, rfl, rfl⟩ := hclose
      obtain ⟨r', rfl, hr⟩ := h.of_cons rfl
      exact .some ⟨rfl, hr⟩
    · have hclose' : ∀ r, c = '\'' → t = '/' :: r → False := by
        rintro r rfl rfl
        obtain ⟨r', rfl, -⟩ := h.symm.of_cons rfl
        exact hclose ⟨r', rfl, rfl⟩
      rw [close?.eq_3 c s fun r hc hs => hclose ⟨r, hc, hs⟩, close?.eq_3 c t hclose']
      rcases eq_none_or_some_of_rel ih with ⟨hs, ht⟩ | ⟨r, r', hs, ht, hcount, hr⟩
      · rw [hs, ht]
        exact .none
      · rw [hs, ht]
        exact .some ⟨by simp only [List.count_cons, hcount], hr⟩
  | @padding g g' s t hg h ih =>
    have hpass : ∀ {k : List Char}, IsGap k → ∀ u,
        close? (k ++ u) = (close? u).map fun r => (k ++ r.1, r.2) := by
      intro k hk u
      have hquote : '\'' ∉ k := not_mem_of_run hk.blank rfl
      refine close?_append_of_none (close?_of_quoteless hquote) (fun d hd he => ?_) u
      exact hquote (he ▸ List.mem_of_getLast? hd)
    rw [hpass hg.isGap, hpass hg.symm.isGap]
    rcases eq_none_or_some_of_rel ih with ⟨hs, ht⟩ | ⟨r, r', hs, ht, hcount, hr⟩
    · rw [hs, ht]
      exact .none
    · rw [hs, ht]
      exact .some ⟨by simp only [List.count_append, hg.count_eq, hcount], hr⟩

/-- Padding is kept when the blocks behind it are blanked. -/
theorem stripBlocks_gap_append (hg : IsGap g) (s : List Char) :
    stripBlocks (g ++ s) = g ++ stripBlocks s := by
  have hslash : '/' ∉ g := not_mem_of_run hg.blank rfl
  refine stripBlocks_append (fun hin => hslash (hin.subset List.mem_cons_self)) ?_ s
  exact fun d hd he => hslash (he ▸ List.mem_of_getLast? hd)

/-- Blanking the blocks of repadded texts leaves repadded texts. -/
theorem repadded_stripBlocks (h : Repadded s t) : Repadded (stripBlocks s) (stripBlocks t) := by
  induction hn : s.length using Nat.strongRecOn generalizing s t with
  | ind n ih =>
    subst hn
    cases h with
    | ending hg hg' =>
      rw [stripBlocks_of_quoteless (quote_not_mem_trailing hg),
        stripBlocks_of_quoteless (quote_not_mem_trailing hg')]
      exact .ending hg hg'
    | @char c s t h =>
      by_cases hopen : ∃ r, c = '/' ∧ s = '\'' :: r
      · obtain ⟨r, rfl, rfl⟩ := hopen
        obtain ⟨r', rfl, hr⟩ := h.of_cons rfl
        rcases eq_none_or_some_of_rel (repadded_close? hr) with
          ⟨hs, ht⟩ | ⟨⟨inner, after⟩, ⟨inner', after'⟩, hs, ht, hcount, hafter⟩
        · rw [stripBlocks_of_open hs, stripBlocks_of_open ht]
          exact .char _ (.char _ hr)
        · have hlen : after.length < ('/' :: '\'' :: r).length := by
            rw [eq_of_close? hs]
            simp only [List.length_cons, List.length_append]
            omega
          rw [stripBlocks_of_closed hs, stripBlocks_of_closed ht]
          exact repadded_blanked hcount (ih _ hlen hafter rfl)
      · have hopen' : ∀ r, c = '/' → t = '\'' :: r → False := by
          rintro r rfl rfl
          obtain ⟨r', rfl, -⟩ := h.symm.of_cons rfl
          exact hopen ⟨r', rfl, rfl⟩
        rw [stripBlocks.eq_3 c s fun r hc hs => hopen ⟨r, hc, hs⟩, stripBlocks.eq_3 c t hopen']
        exact .char c (ih _ (Nat.lt_succ_self _) h rfl)
    | @padding g g' s t hg h =>
      rw [stripBlocks_gap_append hg.isGap, stripBlocks_gap_append hg.symm.isGap]
      exact .padding hg (ih _ (length_lt_append hg.isGap.ne_nil s) h rfl)

/-! ### Lines -/

/-- What is left of a text that begins within a line that is no comment. -/
def keepLine : List Char → List Char
  | [] => []
  | c :: s => c :: if isLineEnd c then stripLines s else keepLine s

/-- What is left of a text that begins within a comment line. -/
def dropLine : List Char → List Char
  | [] => []
  | c :: s => if isLineEnd c then c :: stripLines s else dropLine s

/-- The line that begins here is a comment. -/
def isComment (s : List Char) : Bool :=
  (s.dropWhile isPad).head? == some '\''

theorem keepLine_append (ha : ∀ c ∈ a, isLineEnd c = false) (s : List Char) :
    keepLine (a ++ s) = a ++ keepLine s := by
  induction a with
  | nil => rfl
  | cons c a ih =>
    rw [List.forall_mem_cons] at ha
    rw [List.cons_append, keepLine, if_neg (Bool.not_eq_true _ ▸ ha.1), ih ha.2, List.cons_append]

theorem dropLine_append (ha : ∀ c ∈ a, isLineEnd c = false) (s : List Char) :
    dropLine (a ++ s) = dropLine s := by
  induction a with
  | nil => rfl
  | cons c a ih =>
    rw [List.forall_mem_cons] at ha
    rw [List.cons_append, dropLine, if_neg (Bool.not_eq_true _ ▸ ha.1), ih ha.2]

/-- Whether a line is a comment does not depend on what follows it. -/
theorem isComment_line {e : Char} (he : isLineEnd e = true) (line rest : List Char) :
    isComment (line ++ e :: rest) = isComment line := by
  have hpad : isPad e = false := by
    cases hp : isPad e with
    | false => rfl
    | true => rw [isLineEnd_of_isPad hp] at he; cases he
  have hquote : (some e == some '\'') = false := by
    rw [beq_eq_false_iff_ne]
    rintro ⟨⟩
    cases he
  rw [isComment, isComment, dropWhile_append_of_stops line (stops_cons.mpr hpad)]
  cases line.dropWhile isPad with
  | nil => exact hquote
  | cons d line => rfl

theorem isComment_append (hg : ∀ c ∈ g, isPad c = true) (s : List Char) :
    isComment (g ++ s) = isComment s := by
  rw [isComment, isComment, List.dropWhile_append_of_pos hg]

theorem stripLine_eq (line : List Char) :
    stripLine line = if isComment line then [] else line := by
  simp only [stripLine, isComment, beq_iff_eq]

/-- A line is dropped if it is a comment and kept if it is none. -/
theorem stripLines_eq (s : List Char) :
    stripLines s = if isComment s then dropLine s else keepLine s := by
  have hline : ∀ c ∈ s.takeWhile fun c => !isLineEnd c, isLineEnd c = false := fun c hc => by
    simpa using mem_takeWhile hc
  have hcut := List.takeWhile_append_dropWhile (p := fun c => !isLineEnd c) (l := s)
  have hstop := stops_dropWhile (fun c => !isLineEnd c) s
  generalize s.takeWhile (fun c => !isLineEnd c) = line at hline hcut
  cases hd : s.dropWhile fun c => !isLineEnd c with
  | nil =>
    rw [hd] at hcut
    have hkeep := keepLine_append hline []
    have hdrop := dropLine_append hline []
    rw [List.append_nil] at hcut hkeep hdrop
    rw [← hcut, stripLines_last hline, stripLine_eq, hkeep, hdrop, keepLine, dropLine,
      List.append_nil]
  | cons e rest =>
    rw [hd] at hcut hstop
    have he : isLineEnd e = true := by simpa using hstop
    rw [← hcut, stripLines_line hline he, isComment_line he, stripLine_eq, keepLine_append hline,
      dropLine_append hline, keepLine, dropLine, if_pos he, if_pos he]
    split
    · rfl
    · rfl

theorem keepLine_append_line {e : Char} (he : isLineEnd e = true) (s t : List Char) :
    keepLine (s ++ e :: t) = keepLine s ++ e :: stripLines t := by
  induction s with
  | nil => rw [List.nil_append, keepLine, keepLine, if_pos he, List.nil_append]
  | cons c s ih =>
    rw [List.cons_append, keepLine, keepLine, ih, stripLines_append he]
    split
    · rfl
    · rfl

theorem dropLine_append_line {e : Char} (he : isLineEnd e = true) (s t : List Char) :
    dropLine (s ++ e :: t) = dropLine s ++ e :: stripLines t := by
  induction s with
  | nil => rw [List.nil_append, dropLine, dropLine, if_pos he, List.nil_append]
  | cons c s ih =>
    rw [List.cons_append, dropLine, dropLine, ih, stripLines_append he]
    split
    · rfl
    · rfl

/-- In a text without quotes no line is a comment. -/
theorem isComment_of_quoteless (h : '\'' ∉ s) : isComment s = false := by
  cases hs : isComment s with
  | false => rfl
  | true =>
    refine absurd ((List.dropWhile_suffix isPad).subset (List.mem_of_head? ?_)) h
    exact beq_iff_eq.mp hs

theorem keepLine_of_quoteless (h : '\'' ∉ s) : keepLine s = s := by
  induction s with
  | nil => rfl
  | cons c s ih =>
    rw [List.mem_cons, not_or] at h
    rw [keepLine, ih h.2, stripLines_of_quoteless h.2, ite_self]

theorem dropLine_suffix_of_quoteless (h : '\'' ∉ s) : dropLine s <:+ s := by
  induction s with
  | nil => exact List.suffix_refl []
  | cons c s ih =>
    rw [List.mem_cons, not_or] at h
    rw [dropLine, stripLines_of_quoteless h.2]
    split
    · exact List.suffix_refl _
    · exact (ih h.2).trans (List.suffix_cons c s)

/-- A line is a comment in both of two repadded texts or in none. -/
theorem isComment_eq_of_repadded (h : Repadded s t) : isComment s = isComment t := by
  induction h with
  | ending hg hg' =>
    rw [isComment_of_quoteless (quote_not_mem_trailing hg),
      isComment_of_quoteless (quote_not_mem_trailing hg')]
  | @char c s t h ih =>
    cases hc : isPad c with
    | true =>
      have hpad : ∀ d ∈ [c], isPad d = true := fun d hd => List.mem_singleton.mp hd ▸ hc
      have hs := isComment_append hpad s
      have ht := isComment_append hpad t
      rw [List.singleton_append] at hs ht
      rw [hs, ht, ih]
    | false =>
      rw [isComment, isComment, dropWhile_of_stops (stops_cons.mpr hc),
        dropWhile_of_stops (stops_cons.mpr hc), List.head?_cons, List.head?_cons]
  | padding hg h ih =>
    cases hg with
    | within hne hne' hg hg' => rw [isComment_append hg, isComment_append hg', ih]
    | feed ha ha' hb hb' =>
      rw [List.append_assoc, List.append_assoc, List.cons_append, List.cons_append,
        isComment_line rfl, isComment_line rfl, isComment_of_quoteless (quote_not_mem_trailing ha),
        isComment_of_quoteless (quote_not_mem_trailing ha')]

section Line

variable {a' b b' : List Char}

/-- Repadded texts have their lines stripped alike if they leave the same of their first lines,
kept or dropped. -/
theorem repadded_stripLines_of (h : Repadded s t) (hkeep : Repadded (keepLine s) (keepLine t))
    (hdrop : Repadded (dropLine s) (dropLine t)) : Repadded (stripLines s) (stripLines t) := by
  rw [stripLines_eq, stripLines_eq, isComment_eq_of_repadded h]
  split
  · exact hdrop
  · exact hkeep

/-- Behind the end of a line the next one is dropped with the padding before it, or kept with it. -/
theorem repadded_feed (ha : ∀ c ∈ a, isTrailing c = true) (ha' : ∀ c ∈ a', isTrailing c = true)
    (hb : ∀ c ∈ b, isPad c = true) (hb' : ∀ c ∈ b', isPad c = true) (h : Repadded s t)
    (hkeep : Repadded (keepLine s) (keepLine t)) (hdrop : Repadded (dropLine s) (dropLine t)) :
    Repadded (a ++ '\n' :: stripLines (b ++ s)) (a' ++ '\n' :: stripLines (b' ++ t)) := by
  have hends : ∀ {k : List Char}, (∀ c ∈ k, isPad c = true) → ∀ c ∈ k, isLineEnd c = false :=
    fun hk c hc => isLineEnd_of_isPad (hk c hc)
  rw [stripLines_eq, stripLines_eq, isComment_append hb, isComment_append hb',
    isComment_eq_of_repadded h, dropLine_append (hends hb), dropLine_append (hends hb'),
    keepLine_append (hends hb), keepLine_append (hends hb')]
  split
  · exact .line ha ha' (List.forall_mem_nil _) (List.forall_mem_nil _) hdrop
  · exact .line ha ha' hb hb' hkeep

end Line

/-- Of repadded texts the same is left, whether their first lines are kept or dropped. -/
theorem repadded_lines (h : Repadded s t) :
    Repadded (keepLine s) (keepLine t) ∧ Repadded (dropLine s) (dropLine t) := by
  induction h with
  | @ending g g' hg hg' =>
    have hquote := quote_not_mem_trailing hg
    have hquote' := quote_not_mem_trailing hg'
    have hdrop := (dropLine_suffix_of_quoteless hquote).subset
    have hdrop' := (dropLine_suffix_of_quoteless hquote').subset
    rw [keepLine_of_quoteless hquote, keepLine_of_quoteless hquote']
    exact ⟨.ending hg hg', .ending (fun c hc => hg c (hdrop hc)) fun c hc => hg' c (hdrop' hc)⟩
  | @char c s t h ih =>
    have hstrip := repadded_stripLines_of h ih.1 ih.2
    rw [keepLine, keepLine, dropLine, dropLine]
    split
    · exact ⟨.char c hstrip, .char c hstrip⟩
    · exact ⟨.char c ih.1, ih.2⟩
  | padding hg h ih =>
    cases hg with
    | within hne hne' hg hg' =>
      have hends := fun c hc => isLineEnd_of_isPad (hg c hc)
      have hends' := fun c hc => isLineEnd_of_isPad (hg' c hc)
      rw [keepLine_append hends, keepLine_append hends', dropLine_append hends,
        dropLine_append hends']
      exact ⟨.padding (.within hne hne' hg hg') ih.1, ih.2⟩
    | feed ha ha' hb hb' =>
      have hquote := quote_not_mem_trailing ha
      have hquote' := quote_not_mem_trailing ha'
      have hdrop := (dropLine_suffix_of_quoteless hquote).subset
      have hdrop' := (dropLine_suffix_of_quoteless hquote').subset
      simp only [List.append_assoc, List.cons_append]
      rw [keepLine_append_line rfl, keepLine_append_line rfl, dropLine_append_line rfl,
        dropLine_append_line rfl, keepLine_of_quoteless hquote, keepLine_of_quoteless hquote']
      exact ⟨repadded_feed ha ha' hb hb' h ih.1 ih.2, repadded_feed (fun c hc => ha c (hdrop hc))
        (fun c hc => ha' c (hdrop' hc)) hb hb' h ih.1 ih.2⟩

/-- Emptying the comment lines of repadded texts leaves repadded texts. -/
theorem repadded_stripLines (h : Repadded s t) : Repadded (stripLines s) (stripLines t) :=
  repadded_stripLines_of h (repadded_lines h).1 (repadded_lines h).2

/-- Comments are stripped behind a line feed as at the beginning of a text. -/
theorem repadded_strip {source source' : String}
    (h : Repadded ('\n' :: stripBlocks source.toList) ('\n' :: stripBlocks source'.toList)) :
    Repadded ('\n' :: (strip source).toList) ('\n' :: (strip source').toList) := by
  have hfeed : ∀ k : List Char, stripLines ('\n' :: k) = '\n' :: stripLines k := by
    intro k
    have hend : isLineEnd '\n' = true := rfl
    have hline := stripLines_append hend [] k
    rwa [stripLines_of_quoteless List.not_mem_nil] at hline
  rw [strip, strip, String.toList_ofList, String.toList_ofList, ← hfeed, ← hfeed]
  exact repadded_stripLines h

/-- The same places of repadded texts stand on the same lines. -/
theorem lineAt_eq_of_repadded {u v : List Char} (h : Repadded ('\n' :: s) ('\n' :: t))
    (hp : SamePlace s t u v) : lineAt (.ofList t) (Outline.offsetIn t v) =
      lineAt (.ofList s) (Outline.offsetIn s u) := by
  have hbehind := (h.of_samePlace (hp.cons '\n')).count_eq
  have htotal := h.count_eq
  obtain ⟨⟨before, rfl⟩, ⟨before', rfl⟩, -, -, -⟩ := hp
  simp only [List.count_cons_self, List.count_append] at htotal
  rw [lineAt_offsetIn, lineAt_offsetIn]
  omega

end Comment

namespace Model

/-- Two texts that are repadded forms of each other once their blocks are blanked describe the same
diagram, but for the bodies. The line feed before both lets them begin with different padding. -/
theorem ofText_repadded {source source' : String}
    (h : Repadded ('\n' :: Comment.stripBlocks source.toList)
      ('\n' :: Comment.stripBlocks source'.toList)) :
    (ofText source').bodiless = (ofText source).bodiless := by
  have hstrip := Comment.repadded_strip h
  rw [← relined_id (ofText source).bodiless]
  refine ofText_alike hstrip.alike.skipBlanks fun u v hplace => ?_
  have hline := Comment.lineAt_eq_of_repadded hstrip hplace
  rw [String.ofList_toList, String.ofList_toList] at hline
  rw [hline, id]

end Model

end UmlDraft
