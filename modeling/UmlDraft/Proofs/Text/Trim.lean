import Mathlib.Data.List.TakeWhile
import UmlDraft.Proofs.Text.Runs

/-!
# Trimming and collapsing

A trimmed text begins and ends with no blank, and trimming it again changes nothing. Collapsing
changes blanks only: a piece without blanks that stands in the collapsed text stands in the text
itself.
-/

namespace UmlDraft.Text

variable {s t w : List Char}

/-- A text is trimmed if no blank begins or ends it. -/
theorem trim_eq_self_iff : trim s = s ↔ Stops isBlank s ∧ Stops isBlank s.reverse := by
  constructor
  · intro h
    have hlen : s.length ≤ (skipBlanks s).length := by
      have := congrArg List.length h
      rw [trim, List.length_reverse] at this
      have hle := length_dropWhile_le isBlank (skipBlanks s).reverse
      rw [List.length_reverse] at hle
      omega
    have hskip : skipBlanks s = s := (List.dropWhile_suffix isBlank).eq_of_length_le hlen
    rw [trim, hskip] at h
    refine ⟨hskip ▸ stops_skipBlanks s, ?_⟩
    rw [← List.reverse_eq_iff.mp h]
    exact stops_dropWhile isBlank s.reverse
  · rintro ⟨hs, hr⟩
    rw [trim, skipBlanks_of_stops hs, dropWhile_of_stops hr, List.reverse_reverse]

/-- A text is trimmed if it begins with no blank and its last piece ends with none. -/
theorem trim_eq_self_of_suffix (hs : Stops isBlank s) (ht : t <:+ s) (hne : t ≠ [])
    (hr : Stops isBlank t.reverse) : trim s = s := by
  obtain ⟨front, rfl⟩ := ht
  rw [trim_eq_self_iff]
  refine ⟨hs, ?_⟩
  rw [List.reverse_append]
  exact stops_append hr fun he => absurd (List.reverse_eq_nil_iff.mp he) hne

/-- Trimming drops a space that begins a text. -/
@[simp] theorem trim_space_cons (s : List Char) : trim (' ' :: s) = trim s := by
  rw [trim, trim, skipBlanks, List.dropWhile_cons_of_pos isBlank_space]
  rfl

theorem trim_prefix_skipBlanks (s : List Char) : trim s <+: skipBlanks s := by
  rw [trim, ← List.reverse_suffix, List.reverse_reverse]
  exact List.dropWhile_suffix isBlank

/-- Trimming drops what is blank at the end of a text. -/
theorem trim_append_blank (s : List Char) (h : ∀ c ∈ t, isBlank c = true) :
    trim (s ++ t) = trim s := by
  have hdrop : t.dropWhile isBlank = [] := List.dropWhile_eq_nil_iff.mpr h
  by_cases hs : skipBlanks s = []
  · have hall : skipBlanks (s ++ t) = [] := by
      rw [skipBlanks, List.dropWhile_append, show s.dropWhile isBlank = [] from hs]
      exact hdrop
    rw [trim, trim, hall, hs]
  · have hkeep : skipBlanks (s ++ t) = skipBlanks s ++ t := by
      rw [skipBlanks, List.dropWhile_append, if_neg]
      · rfl
      · rw [List.isEmpty_iff]
        exact hs
    rw [trim, trim, hkeep, List.reverse_append,
      List.dropWhile_append_of_pos fun c hc => h c (List.mem_reverse.mp hc)]

/-- What is blank at the end of a text can be cut off. -/
theorem exists_trail (s : List Char) : ∃ front trail, s = front ++ trail ∧
    (∀ c ∈ trail, isBlank c = true) ∧ Stops isBlank front.reverse := by
  refine ⟨(s.reverse.dropWhile isBlank).reverse, (s.reverse.takeWhile isBlank).reverse, ?_, ?_, ?_⟩
  · rw [← List.reverse_append, List.takeWhile_append_dropWhile, List.reverse_reverse]
  · exact fun c hc => mem_takeWhile (List.mem_reverse.mp hc)
  · rw [List.reverse_reverse]
    exact stops_dropWhile isBlank s.reverse

/-- Trimming leaves nothing of blanks only. -/
theorem isBlank_of_trim_eq_nil (h : trim s = []) : ∀ c ∈ s, isBlank c = true := by
  have hdrop : (skipBlanks s).reverse.dropWhile isBlank = [] := List.reverse_eq_nil_iff.mp h
  intro c hc
  rw [← List.takeWhile_append_dropWhile (p := isBlank) (l := s), List.mem_append] at hc
  rcases hc with hc | hc
  · exact mem_takeWhile hc
  · exact List.dropWhile_eq_nil_iff.mp hdrop c (List.mem_reverse.mpr hc)

/-- Trimming keeps a piece of the text. -/
theorem isInfix_trim (s : List Char) : trim s <:+: s :=
  (trim_prefix_skipBlanks s).isInfix.trans (List.dropWhile_suffix isBlank).isInfix

theorem mem_of_mem_trim {c : Char} (h : c ∈ trim s) : c ∈ s :=
  (isInfix_trim s).subset h

/-- Trimming twice is trimming once. -/
theorem trim_trim (s : List Char) : trim (trim s) = trim s := by
  rw [trim_eq_self_iff]
  constructor
  · intro c hc
    obtain ⟨rest, hr⟩ := trim_prefix_skipBlanks s
    apply stops_skipBlanks s c
    rw [← hr, List.head?_append, Option.mem_def.mp hc]
    rfl
  · rw [trim, List.reverse_reverse]
    exact stops_dropWhile isBlank _

/-- A name is trimmed. -/
theorem IsName.trim_eq (h : IsName w) : trim w = w := by
  rw [trim_eq_self_iff]
  constructor
  · intro c hc
    exact isBlank_of_isWord (h.word c (List.mem_of_mem_head? hc))
  · intro c hc
    rw [List.head?_reverse] at hc
    exact isBlank_of_isWord (h.word c (List.mem_of_mem_getLast? hc))

theorem collapse_cons_of_not_blank {c : Char} (h : isBlank c = false) :
    collapse (c :: s) = c :: collapse s := by
  rw [collapse, if_neg (by simp [h])]

/-- Collapsing keeps a piece without blanks. -/
theorem collapse_append_of_blankless (hw : ∀ c ∈ w, isBlank c = false) (s : List Char) :
    collapse (w ++ s) = w ++ collapse s := by
  induction w with
  | nil => rfl
  | cons c w ih =>
    rw [List.cons_append, collapse_cons_of_not_blank (hw c List.mem_cons_self),
      ih fun c hc => hw c (List.mem_cons_of_mem _ hc), List.cons_append]

theorem head?_any_isBlank_of_stops (h : Stops isBlank s) : s.head?.any isBlank = false := by
  cases s with
  | nil => rfl
  | cons c s => exact stops_cons.mp h

/-- A gap collapses to one space. -/
theorem collapse_gap {gap : List Char} (hg : IsGap gap) (hs : Stops isBlank s) :
    collapse (gap ++ s) = ' ' :: collapse s := by
  obtain ⟨hne, hblank⟩ := hg
  induction gap with
  | nil => exact absurd rfl hne
  | cons c gap ih =>
    rw [List.cons_append, collapse, if_pos (hblank c List.mem_cons_self)]
    cases gap with
    | nil => rw [List.nil_append, head?_any_isBlank_of_stops hs, if_neg Bool.false_ne_true]
    | cons d gap =>
      have hd : isBlank d = true := hblank d (List.mem_cons_of_mem c List.mem_cons_self)
      rw [if_pos (by rw [List.cons_append, List.head?_cons, Option.any_some, hd])]
      exact ih (List.cons_ne_nil d gap) fun c hc => hblank c (List.mem_cons_of_mem _ hc)

/-- Two texts collapse separately where the second begins with no blank. -/
theorem collapse_append (s : List Char) (ht : Stops isBlank t) :
    collapse (s ++ t) = collapse s ++ collapse t := by
  induction s with
  | nil => rfl
  | cons c s ih =>
    have hhead : (s ++ t).head?.any isBlank = s.head?.any isBlank := by
      cases s with
      | nil => rw [List.nil_append, head?_any_isBlank_of_stops ht]; rfl
      | cons d s => rfl
    rw [List.cons_append, collapse, collapse, hhead, ih]
    split
    · split
      · rfl
      · rfl
    · rfl

/-- A text whose only blanks are single spaces stays as it is. -/
theorem collapse_eq_self (hb : ∀ c ∈ s, isBlank c = true → c = ' ')
    (hs : ¬ [' ', ' '] <:+: s) : collapse s = s := by
  induction s with
  | nil => rfl
  | cons c s ih =>
    have hs' : ¬ [' ', ' '] <:+: s := fun h => hs (h.trans (List.suffix_cons c s).isInfix)
    have hb' : ∀ c ∈ s, isBlank c = true → c = ' ' := fun c hc => hb c (List.mem_cons_of_mem _ hc)
    rw [collapse, ih hb' hs']
    split
    · next hc =>
      obtain rfl := hb c List.mem_cons_self hc
      rw [if_neg]
      intro hany
      cases s with
      | nil => cases hany
      | cons d s =>
        obtain rfl := hb d (List.mem_cons_of_mem _ List.mem_cons_self) hany
        exact hs ⟨[], s, rfl⟩
    · rfl

private theorem prefix_of_prefix_collapse (hw : ∀ c ∈ w, isBlank c = false)
    (h : w <+: collapse s) : w <+: s := by
  induction s generalizing w with
  | nil => exact h
  | cons c s ih =>
    cases w with
    | nil => exact List.nil_prefix
    | cons a w =>
      have ha : isBlank a = false := hw a List.mem_cons_self
      have hw' : ∀ c ∈ w, isBlank c = false := fun c hc => hw c (List.mem_cons_of_mem a hc)
      rw [collapse] at h
      split at h
      · split at h
        · next hb =>
          -- The collapsed text begins like the rest, which begins with a blank.
          obtain ⟨x, hx⟩ := ih hw h
          rw [← hx] at hb
          simp [ha] at hb
        · obtain ⟨rfl, -⟩ := List.cons_prefix_cons.mp h
          exact absurd ha (by decide)
      · obtain ⟨rfl, ht⟩ := List.cons_prefix_cons.mp h
        exact List.cons_prefix_cons.mpr ⟨rfl, ih hw' ht⟩

/-- A piece without blanks in a collapsed text is a piece of the text. -/
theorem infix_of_infix_collapse (hw : ∀ c ∈ w, isBlank c = false) (h : w <:+: collapse s) :
    w <:+: s := by
  induction s with
  | nil => exact h
  | cons c s ih =>
    rcases Classical.em (w <+: collapse (c :: s)) with hp | hp
    · exact (prefix_of_prefix_collapse hw hp).isInfix
    · have hs : w <:+: collapse s := by
        rw [collapse] at h hp
        split at h
        · next hc =>
          rw [if_pos hc] at hp
          split at h
          · exact h
          · next hb =>
            rw [if_neg hb] at hp
            exact (List.infix_cons_iff.mp h).resolve_left hp
        · next hc =>
          rw [if_neg hc] at hp
          exact (List.infix_cons_iff.mp h).resolve_left hp
      exact (ih hs).trans (List.suffix_cons c s).isInfix

/-- The only blanks of a single spaced text are spaces, and no two of them stand together. -/
structure SingleSpaced (s : List Char) : Prop where
  /-- Every blank is a space. -/
  blank : ∀ c ∈ s, isBlank c = true → c = ' '
  /-- No space stands behind another. -/
  single : ¬ [' ', ' '] <:+: s

theorem SingleSpaced.mono (h : SingleSpaced s) (ht : t <:+: s) : SingleSpaced t where
  blank c hc := h.blank c (ht.subset hc)
  single hi := h.single (hi.trans ht)

theorem SingleSpaced.collapse_eq (h : SingleSpaced s) : collapse s = s :=
  collapse_eq_self h.blank h.single

/-- Where a text does not begin with a blank, it does not after collapsing either. -/
theorem stops_collapse (h : Stops isBlank s) : Stops isBlank (collapse s) := by
  cases s with
  | nil => exact h
  | cons c s =>
    rw [collapse_cons_of_not_blank (stops_cons.mp h)]
    exact stops_cons.mpr (stops_cons.mp h)

/-- Collapsing leaves single spaces. -/
theorem singleSpaced_collapse (s : List Char) : SingleSpaced (collapse s) := by
  induction s with
  | nil =>
    exact ⟨fun _ hc => absurd hc List.not_mem_nil, fun h =>
      absurd (List.eq_nil_of_infix_nil h) (List.cons_ne_nil _ _)⟩
  | cons c s ih =>
    rw [collapse]
    split
    · split
      · exact ih
      · next hb =>
        -- The text behind the gap begins with no blank.
        have hstop : Stops isBlank (collapse s) := by
          refine stops_collapse fun d hd => ?_
          rw [Option.mem_def.mp hd, Option.any_some, Bool.not_eq_true] at hb
          exact hb
        refine ⟨fun d hd hdb => ?_, fun h => ?_⟩
        · rcases List.mem_cons.mp hd with rfl | hd
          · rfl
          · exact ih.blank d hd hdb
        · rcases List.infix_cons_iff.mp h with hp | hi
          · obtain ⟨rest, hr⟩ := (List.cons_prefix_cons.mp hp).2
            rw [← hr] at hstop
            exact absurd (stops_cons.mp hstop) (by simp [isBlank_space])
          · exact ih.single hi
    · next hc =>
      refine ⟨fun d hd hdb => ?_, fun h => ?_⟩
      · rcases List.mem_cons.mp hd with rfl | hd
        · exact absurd hdb hc
        · exact ih.blank d hd hdb
      · rcases List.infix_cons_iff.mp h with hp | hi
        · obtain ⟨rfl, -⟩ := List.cons_prefix_cons.mp hp
          exact hc isBlank_space
        · exact ih.single hi

/-- A text that collapsing leaves alone is single spaced. -/
theorem singleSpaced_of_collapse_eq (h : collapse s = s) : SingleSpaced s :=
  h ▸ singleSpaced_collapse s

theorem SingleSpaced.append_cons {c : Char} (hs : SingleSpaced s) (hc : isBlank c = false)
    (ht : SingleSpaced t) : SingleSpaced (s ++ c :: t) := by
  refine singleSpaced_of_collapse_eq ?_
  rw [collapse_append s (stops_cons.mpr hc), collapse_cons_of_not_blank hc, hs.collapse_eq,
    ht.collapse_eq]

/-- A space may stand before a single spaced text that begins with no blank. -/
theorem SingleSpaced.space_cons (h : SingleSpaced s) (hs : Stops isBlank s) :
    SingleSpaced (' ' :: s) := by
  have hgap := collapse_gap isGap_space hs
  rw [List.singleton_append, h.collapse_eq] at hgap
  exact singleSpaced_of_collapse_eq hgap

/-- The only blank of a single spaced text is the space. -/
theorem SingleSpaced.not_mem {c : Char} (h : SingleSpaced s) (hb : isBlank c = true)
    (hc : c ≠ ' ') : c ∉ s :=
  fun hmem => hc (h.blank c hmem hb)

/-- A text without blanks is single spaced. -/
theorem singleSpaced_of_blankless (h : ∀ c ∈ s, isBlank c = false) : SingleSpaced s := by
  refine singleSpaced_of_collapse_eq ?_
  have := collapse_append_of_blankless h []
  rwa [collapse, List.append_nil] at this

end UmlDraft.Text
