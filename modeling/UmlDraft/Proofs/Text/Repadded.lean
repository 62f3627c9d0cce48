import UmlDraft.Proofs.Text.Alike

/-!
# Texts that differ in their padding

Two texts are repadded forms of each other if they differ in padding only: where one has spaces and
tabs within a line the other has some as well, before a line feed and at the end of the text there
may be any spaces, tabs and carriage returns, and behind a line feed any spaces and tabs. Such texts
are alike, and they are alike line by line: what stands at the same place of both stands on the same
line. A relation of texts that need not begin alike is stated behind a line feed.
-/

namespace UmlDraft.Text

variable {c : Char} {g g' s t u v : List Char}

/-- What may be put at the end of a line: spaces, tabs and carriage returns. -/
def isTrailing (c : Char) : Bool :=
  isPad c || c == '\r'

/-- What is left of a block that is blanked: padding and line feeds. -/
def isSpacing (c : Char) : Bool :=
  isPad c || c == '\n'

theorem isTrailing_of_isPad (h : isPad c = true) : isTrailing c = true := by
  rw [isTrailing, h, Bool.true_or]

theorem isBlank_of_isTrailing (h : isTrailing c = true) : isBlank c = true := by
  rw [isTrailing, Bool.or_eq_true, beq_iff_eq] at h
  rcases h with h | rfl
  · exact isBlank_of_isPad h
  · decide

/-- Two stretches of padding at the same place of two texts. -/
inductive SamePadding : List Char → List Char → Prop
  /-- Spaces and tabs within a line. -/
  | within {g g' : List Char} (hne : g ≠ []) (hne' : g' ≠ []) (hg : ∀ c ∈ g, isPad c = true)
    (hg' : ∀ c ∈ g', isPad c = true) : SamePadding g g'
  /-- The end of a line and the beginning of the next. -/
  | feed {a a' b b' : List Char} (ha : ∀ c ∈ a, isTrailing c = true)
    (ha' : ∀ c ∈ a', isTrailing c = true) (hb : ∀ c ∈ b, isPad c = true)
    (hb' : ∀ c ∈ b', isPad c = true) : SamePadding (a ++ '\n' :: b) (a' ++ '\n' :: b')

/-- The same text with other padding. -/
inductive Repadded : List Char → List Char → Prop
  /-- The end of the last line. -/
  | ending {g g' : List Char} (hg : ∀ c ∈ g, isTrailing c = true)
    (hg' : ∀ c ∈ g', isTrailing c = true) : Repadded g g'
  /-- The same character. -/
  | char (c : Char) {s t : List Char} (h : Repadded s t) : Repadded (c :: s) (c :: t)
  /-- Padding. -/
  | padding {g g' s t : List Char} (hg : SamePadding g g') (h : Repadded s t) :
    Repadded (g ++ s) (g' ++ t)

theorem count_feed_of_isTrailing (h : ∀ c ∈ g, isTrailing c = true) : g.count '\n' = 0 :=
  List.count_eq_zero.mpr (not_mem_of_run h rfl)

theorem count_feed_of_isPad (h : ∀ c ∈ g, isPad c = true) : g.count '\n' = 0 :=
  List.count_eq_zero.mpr (not_mem_of_run h rfl)

/-- Spacing that ends no line is padding. -/
theorem isPad_of_isSpacing (hg : ∀ c ∈ g, isSpacing c = true) (h0 : g.count '\n' = 0) :
    ∀ c ∈ g, isPad c = true := by
  intro c hc
  have hspacing := hg c hc
  rw [isSpacing, Bool.or_eq_true, beq_iff_eq] at hspacing
  exact hspacing.resolve_right fun he => List.count_eq_zero.mp h0 (he ▸ hc)

/-- Spacing that ends lines is padding up to the first line feed. -/
theorem exists_feed_of_isSpacing {n : Nat} (hg : ∀ c ∈ g, isSpacing c = true)
    (hn : g.count '\n' = n + 1) : ∃ a b, g = a ++ '\n' :: b ∧ (∀ c ∈ a, isTrailing c = true) ∧
      (∀ c ∈ b, isSpacing c = true) ∧ b.count '\n' = n := by
  have hmem : '\n' ∈ g := List.count_pos_iff.mp (hn ▸ Nat.succ_pos n)
  obtain ⟨a, b, rfl, ha⟩ := List.eq_append_cons_of_mem hmem
  have h0 : a.count '\n' = 0 := List.count_eq_zero.mpr ha
  have hpads := isPad_of_isSpacing (fun c hc => hg c (List.mem_append_left _ hc)) h0
  rw [List.count_append, List.count_cons_self, h0] at hn
  exact ⟨a, b, rfl, fun c hc => isTrailing_of_isPad (hpads c hc),
    fun c hc => hg c (List.mem_append_right a (List.mem_cons_of_mem _ hc)), by omega⟩

namespace SamePadding

theorem symm (h : SamePadding g g') : SamePadding g' g := by
  cases h with
  | within hne hne' hg hg' => exact .within hne' hne hg' hg
  | feed ha ha' hb hb' => exact .feed ha' ha hb' hb

theorem isGap (h : SamePadding g g') : IsGap g := by
  cases h with
  | within hne hne' hg hg' => exact ⟨hne, fun c hc => isBlank_of_isPad (hg c hc)⟩
  | feed ha ha' hb hb' =>
    refine ⟨List.append_ne_nil_of_right_ne_nil _ (List.cons_ne_nil _ _), fun c hc => ?_⟩
    rcases List.mem_append.mp hc with hc | hc
    · exact isBlank_of_isTrailing (ha c hc)
    · rcases List.mem_cons.mp hc with rfl | hc
      · exact isBlank_feed
      · exact isBlank_of_isPad (hb c hc)

/-- Both stretches end as many lines. -/
theorem count_eq (h : SamePadding g g') : g.count '\n' = g'.count '\n' := by
  cases h with
  | within hne hne' hg hg' => rw [count_feed_of_isPad hg, count_feed_of_isPad hg']
  | feed ha ha' hb hb' =>
    rw [List.count_append, List.count_append, List.count_cons_self, List.count_cons_self,
      count_feed_of_isTrailing ha, count_feed_of_isTrailing ha', count_feed_of_isPad hb,
      count_feed_of_isPad hb']

theorem sameGap (h : SamePadding g g') : SameGap g g' where
  left := h.isGap
  right := h.symm.isGap
  feed := by rw [← List.count_pos_iff, ← List.count_pos_iff, h.count_eq]

end SamePadding

namespace Repadded

theorem symm (h : Repadded s t) : Repadded t s := by
  induction h with
  | ending hg hg' => exact .ending hg' hg
  | char c h ih => exact .char c ih
  | padding hg h ih => exact .padding hg.symm ih

theorem append_left (w : List Char) (h : Repadded s t) : Repadded (w ++ s) (w ++ t) := by
  induction w with
  | nil => exact h
  | cons c w ih => exact .char c ih

theorem refl (s : List Char) : Repadded s s := by
  have hnil : Repadded [] [] :=
    .ending (List.forall_mem_nil _) (List.forall_mem_nil _)
  rw [← List.append_nil s]
  exact hnil.append_left s

/-- The end of a line matters as little as the indentation of the next one. -/
theorem line {a a' b b' : List Char} (ha : ∀ c ∈ a, isTrailing c = true)
    (ha' : ∀ c ∈ a', isTrailing c = true) (hb : ∀ c ∈ b, isPad c = true)
    (hb' : ∀ c ∈ b', isPad c = true) (h : Repadded s t) :
    Repadded (a ++ '\n' :: (b ++ s)) (a' ++ '\n' :: (b' ++ t)) := by
  have hfeed := Repadded.padding (.feed ha ha' hb hb') h
  rwa [List.append_assoc, List.append_assoc] at hfeed

/-- Spaces, tabs and line feeds are padding if they end as many lines in both texts. -/
theorem append_spacing (hg : ∀ c ∈ g, isSpacing c = true) (hg' : ∀ c ∈ g', isSpacing c = true)
    (hne : g ≠ []) (hne' : g' ≠ []) (hcount : g.count '\n' = g'.count '\n') (h : Repadded s t) :
    Repadded (g ++ s) (g' ++ t) := by
  induction hn : g.count '\n' generalizing g g' with
  | zero =>
    exact .padding (.within hne hne' (isPad_of_isSpacing hg hn)
      (isPad_of_isSpacing hg' (hcount ▸ hn))) h
  | succ n ih =>
    obtain ⟨a, b, rfl, ha, hb, hcb⟩ := exists_feed_of_isSpacing hg hn
    obtain ⟨a', b', rfl, ha', hb', hcb'⟩ := exists_feed_of_isSpacing hg' (hcount ▸ hn)
    by_cases h0 : n = 0
    · -- Behind the last line feed there are spaces and tabs only.
      have hpads := isPad_of_isSpacing hb (hcb.trans h0)
      have hpads' := isPad_of_isSpacing hb' (hcb'.trans h0)
      exact .padding (.feed ha ha' hpads hpads') h
    · have hnil : ∀ {k : List Char}, k.count '\n' = n → k ≠ [] := by
        rintro k hk rfl
        exact h0 hk.symm
      have hrest := ih hb hb' (hnil hcb) (hnil hcb') (hcb.trans hcb'.symm) hcb
      have hline := Repadded.line ha ha' (List.forall_mem_nil _) (List.forall_mem_nil _) hrest
      simpa only [List.append_assoc, List.cons_append, List.nil_append] using hline

/-- A repadded form of a text that begins with a character other than a blank begins with it. -/
theorem of_cons (h : Repadded (c :: s) t) (hc : isBlank c = false) :
    ∃ r, t = c :: r ∧ Repadded s r := by
  generalize hs : c :: s = u at h
  cases h with
  | ending hg hg' =>
    rw [isBlank_of_isTrailing (hg c (hs ▸ List.mem_cons_self))] at hc
    cases hc
  | char d h =>
    cases hs
    exact ⟨_, rfl, h⟩
  | @padding g g' u v hg h =>
    cases g with
    | nil => exact absurd rfl hg.isGap.ne_nil
    | cons d g =>
      cases hs
      rw [hg.isGap.blank _ List.mem_cons_self] at hc
      cases hc

theorem alike (h : Repadded s t) : Alike s t := by
  induction h with
  | ending hg hg' =>
    exact .blank (fun c hc => isBlank_of_isTrailing (hg c hc))
      fun c hc => isBlank_of_isTrailing (hg' c hc)
  | char c h ih => exact .cons c ih
  | padding hg h ih => exact .gap_append hg.sameGap ih

/-- Both texts have as many lines. -/
theorem count_eq (h : Repadded s t) : s.count '\n' = t.count '\n' := by
  induction h with
  | ending hg hg' => rw [count_feed_of_isTrailing hg, count_feed_of_isTrailing hg']
  | char c h ih => rw [List.count_cons, List.count_cons, ih]
  | padding hg h ih => rw [List.count_append, List.count_append, hg.count_eq, ih]

/-- An ending that does not begin with a blank is an ending of what stands behind the blanks. -/
theorem suffix_of_append_blank (hg : ∀ c ∈ g, isBlank c = true) (h : u <:+ g ++ s)
    (hs : Stops isBlank u) : u <:+ s := by
  refine suffix_of_ink_le h (List.suffix_append g s) hs ?_
  obtain ⟨before, he⟩ := h
  have hink := congrArg ink he
  rw [ink_append, ink_append, ink_eq_zero_iff.mpr hg] at hink
  omega

/-- What stands at the same place of both texts is repadded. -/
theorem of_samePlace (h : Repadded s t) (hp : SamePlace s t u v) : Repadded u v := by
  obtain ⟨hu, hv, hstop, hstop', halike⟩ := hp
  have hink := halike.ink_eq
  clear halike
  induction h with
  | ending hg hg' =>
    have hnil : ∀ {k w : List Char}, (∀ c ∈ k, isTrailing c = true) → w <:+ k →
        Stops isBlank w → w = [] := by
      intro k w hk hw hstop
      have hblank : ∀ c ∈ k, isBlank c = true := fun c hc => isBlank_of_isTrailing (hk c hc)
      rw [← List.append_nil k] at hw
      exact List.suffix_nil.mp (suffix_of_append_blank hblank hw hstop)
    rw [hnil hg hu hstop, hnil hg' hv hstop']
    exact .refl []
  | @char c s t h ih =>
    cases hc : isBlank c with
    | true =>
      have hblank : ∀ d ∈ [c], isBlank d = true := fun d hd => List.mem_singleton.mp hd ▸ hc
      exact ih (suffix_of_append_blank hblank hu hstop) (suffix_of_append_blank hblank hv hstop')
    | false =>
      -- The place is the whole of both texts or lies behind the character in both.
      have hshort : ∀ {k w : List Char}, w <:+ k → ink w ≤ ink k := by
        rintro k w ⟨before, rfl⟩
        rw [ink_append]
        exact Nat.le_add_left _ _
      have hst := h.alike.ink_eq
      rcases List.suffix_cons_iff.mp hu with rfl | hu
      · rcases List.suffix_cons_iff.mp hv with rfl | hv
        · exact .char c h
        · have hle := hshort hv
          rw [← hink, ink_cons_of_not_blank hc] at hle
          omega
      · rcases List.suffix_cons_iff.mp hv with rfl | hv
        · have hle := hshort hu
          rw [hink, ink_cons_of_not_blank hc] at hle
          omega
        · exact ih hu hv
  | padding hg h ih =>
    exact ih (suffix_of_append_blank hg.isGap.blank hu hstop)
      (suffix_of_append_blank hg.symm.isGap.blank hv hstop')

end Repadded

end UmlDraft.Text
