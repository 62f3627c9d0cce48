import Mathlib.Data.List.TakeWhile
import UmlDraft.Proofs.Text.Trim
import UmlDraft.Text.Units

/-!
# Texts that differ in their gaps

Two texts are alike if they hold the same characters in the same order and have their gaps between
the same characters. A gap may have another length in the other text, but where one goes over a line
feed the other does, and what is blank at the end of a text may be missing from the other. Readers
that take words, skip gaps and stop at line feeds go through two such texts in step: what they take
is the same or alike, and what they leave is alike.
-/

namespace UmlDraft.Text

variable {c : Char} {g g' w s t : List Char}

/-- Two gaps of which both or none goes over a line feed. -/
structure SameGap (g g' : List Char) : Prop where
  /-- The first is a gap. -/
  left : IsGap g
  /-- The second is a gap. -/
  right : IsGap g'
  /-- Both or none goes over a line feed. -/
  feed : '\n' ∈ g ↔ '\n' ∈ g'

/-- The same characters with the same places for gaps. -/
inductive Alike : List Char → List Char → Prop
  /-- What is blank at the end of a text does not matter. -/
  | blank {g g' : List Char} (hg : ∀ c ∈ g, isBlank c = true) (hg' : ∀ c ∈ g', isBlank c = true) :
    Alike g g'
  /-- The same character. -/
  | char {c : Char} {s t : List Char} (hc : isBlank c = false) (h : Alike s t) :
    Alike (c :: s) (c :: t)
  /-- A gap before the same character. -/
  | gap {c : Char} {g g' s t : List Char} (hg : SameGap g g') (hc : isBlank c = false)
    (h : Alike (c :: s) (c :: t)) : Alike (g ++ c :: s) (g' ++ c :: t)

namespace SameGap

theorem symm (h : SameGap g g') : SameGap g' g :=
  ⟨h.right, h.left, h.feed.symm⟩

theorem refl (h : IsGap g) : SameGap g g :=
  ⟨h, h, Iff.rfl⟩

/-- Two gaps behind each other make one. -/
theorem append {k k' : List Char} (h : SameGap g g') (hk : SameGap k k') :
    SameGap (g ++ k) (g' ++ k') := by
  have hgap : ∀ {a b : List Char}, IsGap a → IsGap b → IsGap (a ++ b) := by
    intro a b ha hb
    refine ⟨List.append_ne_nil_of_left_ne_nil ha.ne_nil b, fun c hc => ?_⟩
    rcases List.mem_append.mp hc with hc | hc
    · exact ha.blank c hc
    · exact hb.blank c hc
  refine ⟨hgap h.left hk.left, hgap h.right hk.right, ?_⟩
  rw [List.mem_append, List.mem_append]
  exact or_congr h.feed hk.feed

end SameGap

/-- A gap and a character behind it are found in one way only. -/
theorem gap_append_inj {c' : Char} (hg : ∀ c ∈ g, isBlank c = true)
    (hg' : ∀ c ∈ g', isBlank c = true) (hc : isBlank c = false) (hc' : isBlank c' = false)
    (h : g ++ c :: s = g' ++ c' :: t) : g = g' ∧ c = c' ∧ s = t := by
  have ht := congrArg (List.takeWhile isBlank) h
  have hd := congrArg (List.dropWhile isBlank) h
  rw [takeWhile_run hg (stops_cons.mpr hc), takeWhile_run hg' (stops_cons.mpr hc')] at ht
  rw [dropWhile_run hg (stops_cons.mpr hc), dropWhile_run hg' (stops_cons.mpr hc')] at hd
  exact ⟨ht, List.cons.inj hd⟩

/-- A class of characters that has every blank but the line feed. -/
def LineClass (p : Char → Bool) : Prop :=
  ∀ c, isBlank c = true → (p c = true ↔ c ≠ '\n')

namespace LineClass

variable {p : Char → Bool}

/-- A gap within a line is in the class. -/
theorem of_blank (hp : LineClass p) (hg : ∀ c ∈ g, isBlank c = true) (h : '\n' ∉ g) :
    ∀ c ∈ g, p c = true :=
  fun c hc => (hp c (hg c hc)).mpr fun he => h (he ▸ hc)

theorem feed (hp : LineClass p) : p '\n' = false := by
  cases hpn : p '\n' with
  | false => rfl
  | true => exact absurd rfl ((hp '\n' isBlank_feed).mp hpn)

/-- A gap that goes over a line feed is cut there. -/
theorem exists_cut (hp : LineClass p) (hg : IsGap g) (h : '\n' ∈ g) (rest : List Char) :
    ∃ a b, (∀ c ∈ a, isBlank c = true) ∧ IsGap b ∧ '\n' ∈ b ∧ (g ++ rest).takeWhile p = a ∧
      (g ++ rest).dropWhile p = b ++ rest := by
  obtain ⟨a, b, rfl, ha⟩ := List.eq_append_cons_of_mem h
  have hblank : ∀ c ∈ a, isBlank c = true := fun c hc => hg.blank c (List.mem_append_left _ hc)
  have hgap : IsGap ('\n' :: b) :=
    ⟨List.cons_ne_nil _ b, fun c hc => hg.blank c (List.mem_append_right a hc)⟩
  have hstop : Stops p ('\n' :: b ++ rest) := stops_cons.mpr hp.feed
  rw [List.append_assoc, takeWhile_run (hp.of_blank hblank ha) hstop,
    dropWhile_run (hp.of_blank hblank ha) hstop]
  exact ⟨a, '\n' :: b, hblank, hgap, List.mem_cons_self, rfl, rfl⟩

end LineClass

/-- Related results are both nothing, or two that are related. -/
theorem eq_none_or_some_of_rel {α β : Type} {R : α → β → Prop} {x : Option α} {y : Option β}
    (h : Option.Rel R x y) : (x = none ∧ y = none) ∨ ∃ a b, x = some a ∧ y = some b ∧ R a b := by
  cases h with
  | none => exact .inl ⟨rfl, rfl⟩
  | some hab => exact .inr ⟨_, _, rfl, rfl, hab⟩

namespace Alike

theorem symm (h : Alike s t) : Alike t s := by
  induction h with
  | blank hg hg' => exact .blank hg' hg
  | char hc h ih => exact .char hc ih
  | gap hg hc h ih => exact .gap hg.symm hc ih

/-! ### Longer texts -/

/-- Gaps before texts that are alike. -/
theorem gap_append (hg : SameGap g g') (h : Alike s t) : Alike (g ++ s) (g' ++ t) := by
  cases h with
  | blank hs ht =>
    refine .blank (fun c hc => ?_) fun c hc => ?_
    · exact (List.mem_append.mp hc).elim (hg.left.blank c) (hs c)
    · exact (List.mem_append.mp hc).elim (hg.right.blank c) (ht c)
  | char hc h => exact .gap hg hc (.char hc h)
  | gap hk hc h =>
    rw [← List.append_assoc, ← List.append_assoc]
    exact .gap (hg.append hk) hc h

theorem cons (c : Char) (h : Alike s t) : Alike (c :: s) (c :: t) := by
  cases hc : isBlank c with
  | false => exact .char hc h
  | true =>
    have hgap : IsGap [c] := ⟨List.cons_ne_nil c [], fun d hd => List.mem_singleton.mp hd ▸ hc⟩
    exact gap_append (.refl hgap) h

theorem append_left (w : List Char) (h : Alike s t) : Alike (w ++ s) (w ++ t) := by
  induction w with
  | nil => exact h
  | cons c w ih => exact .cons c ih

theorem refl (s : List Char) : Alike s s := by
  have hnil : Alike [] [] :=
    .blank (fun _ hc => absurd hc List.not_mem_nil) fun _ hc => absurd hc List.not_mem_nil
  rw [← List.append_nil s]
  exact hnil.append_left s

/-! ### What is known of the other text -/

/-- A text like a blank one is blank. -/
theorem of_blank (h : Alike s t) (hs : ∀ c ∈ s, isBlank c = true) :
    ∀ c ∈ t, isBlank c = true := by
  cases h with
  | blank hg hg' => exact hg'
  | char hc h =>
    rw [hs _ List.mem_cons_self] at hc
    cases hc
  | gap hg hc h =>
    rw [hs _ (List.mem_append_right _ List.mem_cons_self)] at hc
    cases hc

/-- A text like one that begins with a character other than a blank begins with it. -/
theorem of_cons (h : Alike (c :: s) t) (hc : isBlank c = false) : ∃ r, t = c :: r ∧ Alike s r := by
  generalize hs : c :: s = u at h
  cases h with
  | blank hg hg' =>
    rw [hg c (hs ▸ List.mem_cons_self)] at hc
    cases hc
  | char hd h =>
    cases hs
    exact ⟨_, rfl, h⟩
  | @gap d g g' u v hg hd h =>
    cases g with
    | nil => exact absurd rfl hg.left.ne_nil
    | cons b g =>
      cases hs
      rw [hg.left.blank _ List.mem_cons_self] at hc
      cases hc

theorem of_append (h : Alike (w ++ s) t) (hw : ∀ c ∈ w, isBlank c = false) :
    ∃ r, t = w ++ r ∧ Alike s r := by
  induction w generalizing t with
  | nil => exact ⟨t, rfl, h⟩
  | cons c w ih =>
    obtain ⟨r, rfl, hr⟩ := of_cons h (hw c List.mem_cons_self)
    obtain ⟨r', rfl, hr'⟩ := ih hr fun d hd => hw d (List.mem_cons_of_mem c hd)
    exact ⟨r', rfl, hr'⟩

/-- A text like one that begins with a gap, and goes on behind it, begins with a gap. -/
theorem of_gap (h : Alike (g ++ s) t) (hg : IsGap g) (hs : Stops isBlank s) (hne : s ≠ []) :
    ∃ k r, t = k ++ r ∧ SameGap g k ∧ Alike s r ∧ Stops isBlank r := by
  obtain ⟨c, s, rfl⟩ := List.exists_cons_of_ne_nil hne
  have hc : isBlank c = false := stops_cons.mp hs
  generalize he : g ++ c :: s = u at h
  cases h with
  | blank hu hu' =>
    rw [hu c (he ▸ List.mem_append_right g List.mem_cons_self)] at hc
    cases hc
  | char hd h =>
    cases g with
    | nil => exact absurd rfl hg.ne_nil
    | cons b g =>
      cases he
      rw [hg.blank _ List.mem_cons_self] at hd
      cases hd
  | gap hk hd h =>
    obtain ⟨rfl, rfl, rfl⟩ := gap_append_inj hg.blank hk.left.blank hc hd he
    exact ⟨_, _, rfl, hk, h, stops_cons.mpr hc⟩

/-- A character other than a blank cuts both texts at the same place. -/
theorem cut {a b : List Char} (h : Alike (a ++ c :: b) t) (hc : isBlank c = false) :
    ∃ a' b', t = a' ++ c :: b' ∧ Alike a a' ∧ Alike b b' := by
  generalize hs : a ++ c :: b = s at h
  induction h generalizing a with
  | @blank g g' hg hg' =>
    rw [hg c (hs ▸ List.mem_append_right a List.mem_cons_self)] at hc
    cases hc
  | @char d s t hd h ih =>
    cases a with
    | nil =>
      cases hs
      exact ⟨[], t, rfl, .refl [], h⟩
    | cons e a =>
      obtain ⟨rfl, hrest⟩ := List.cons.inj hs
      obtain ⟨a', b', rfl, ha, hb⟩ := ih hrest
      exact ⟨e :: a', b', rfl, .char hd ha, hb⟩
  | @gap d g g' s t hg hd h ih =>
    -- The gap ends before the character, so it begins the part before it.
    rcases List.append_eq_append_iff.mp hs with ⟨k, rfl, hk⟩ | ⟨k, rfl, hk⟩
    · cases k with
      | nil =>
        obtain ⟨rfl, rfl⟩ := List.cons.inj hk
        obtain ⟨r, hr, hb⟩ := of_cons h hd
        cases hr
        rw [List.append_nil] at hg
        exact ⟨g', t, rfl, .blank hg.left.blank hg.right.blank, hb⟩
      | cons e k =>
        obtain ⟨rfl, -⟩ := List.cons.inj hk
        rw [hg.left.blank c (List.mem_append_right a List.mem_cons_self)] at hc
        cases hc
    · obtain ⟨a', b', ht, ha, hb⟩ := ih hk.symm
      refine ⟨g' ++ a', b', ?_, gap_append hg ha, hb⟩
      rw [ht, List.append_assoc]

/-! ### Readers -/

/-- A reader that finds in every like text what it finds in a text finds alike or nothing. -/
theorem rel {α : Type} {R : α → α → Prop} {read : List Char → Option α}
    (forward : ∀ u v, Alike u v → ∀ a, read u = some a → ∃ b, read v = some b ∧ R a b)
    (h : Alike s t) : Option.Rel R (read s) (read t) := by
  cases hs : read s with
  | some a =>
    obtain ⟨b, hb, hab⟩ := forward s t h a hs
    rw [hb]
    exact .some hab
  | none =>
    cases ht : read t with
    | none => exact .none
    | some b =>
      obtain ⟨a, ha, -⟩ := forward t s h.symm b ht
      rw [hs] at ha
      cases ha

/-! ### Runs -/

theorem skipBlanks (h : Alike s t) : Alike (skipBlanks s) (skipBlanks t) := by
  have hnil : ∀ {u : List Char}, (∀ c ∈ u, isBlank c = true) → Text.skipBlanks u = [] :=
    List.dropWhile_eq_nil_iff.mpr
  cases h with
  | blank hg hg' =>
    rw [hnil hg, hnil hg']
    exact .refl []
  | char hc h =>
    rw [skipBlanks_of_stops (stops_cons.mpr hc), skipBlanks_of_stops (stops_cons.mpr hc)]
    exact .char hc h
  | gap hg hc h =>
    rw [skipBlanks_run hg.left.blank (stops_cons.mpr hc),
      skipBlanks_run hg.right.blank (stops_cons.mpr hc)]
    exact h

/-- A run without blanks is the same in both texts, and what follows it is alike. -/
theorem run {p : Char → Bool} (hp : ∀ c, p c = true → isBlank c = false) (h : Alike s t) :
    s.takeWhile p = t.takeWhile p ∧ Alike (s.dropWhile p) (t.dropWhile p) := by
  have hblank : ∀ {u : List Char}, (∀ c ∈ u.head?, isBlank c = true) → Stops p u := by
    intro u hu c hc
    have := hu c hc
    cases hpc : p c with
    | false => rfl
    | true =>
      rw [hp c hpc] at this
      cases this
  have hgap : ∀ {k u : List Char}, IsGap k → Stops p (k ++ u) := by
    intro k u hk
    refine stops_append (hblank fun c hc => hk.blank c (List.mem_of_mem_head? hc)) ?_
    exact fun he => absurd he hk.ne_nil
  induction h with
  | blank hg hg' =>
    have hstop := hblank fun c hc => hg c (List.mem_of_mem_head? hc)
    have hstop' := hblank fun c hc => hg' c (List.mem_of_mem_head? hc)
    rw [takeWhile_of_stops hstop, takeWhile_of_stops hstop', dropWhile_of_stops hstop,
      dropWhile_of_stops hstop']
    exact ⟨rfl, .blank hg hg'⟩
  | @char c s t hc h ih =>
    cases hpc : p c with
    | true =>
      rw [List.takeWhile_cons_of_pos hpc, List.takeWhile_cons_of_pos hpc,
        List.dropWhile_cons_of_pos hpc, List.dropWhile_cons_of_pos hpc, ih.1]
      exact ⟨rfl, ih.2⟩
    | false =>
      have hstop : ∀ u, Stops p (c :: u) := fun u => stops_cons.mpr hpc
      rw [takeWhile_of_stops (hstop s), takeWhile_of_stops (hstop t), dropWhile_of_stops (hstop s),
        dropWhile_of_stops (hstop t)]
      exact ⟨rfl, .char hc h⟩
  | gap hg hc h ih =>
    rw [takeWhile_of_stops (hgap hg.left), takeWhile_of_stops (hgap hg.right),
      dropWhile_of_stops (hgap hg.left), dropWhile_of_stops (hgap hg.right)]
    exact ⟨rfl, .gap hg hc h⟩

theorem word (h : Alike s t) :
    leadingWord s = leadingWord t ∧ Alike (afterWord s) (afterWord t) :=
  h.run fun _ => isBlank_of_isWord

/-- Where a class of characters ends with the line, what is taken and what is left are alike. -/
theorem line {p : Char → Bool} (hp : LineClass p) (h : Alike s t) :
    Alike (s.takeWhile p) (t.takeWhile p) ∧ Alike (s.dropWhile p) (t.dropWhile p) := by
  induction h with
  | @blank g g' hg hg' =>
    have htake := fun k : List Char => (List.takeWhile_prefix (l := k) p).subset
    have hdrop := fun k : List Char => (List.dropWhile_suffix (l := k) p).subset
    exact ⟨.blank (fun c hc => hg c (htake g hc)) fun c hc => hg' c (htake g' hc),
      .blank (fun c hc => hg c (hdrop g hc)) fun c hc => hg' c (hdrop g' hc)⟩
  | @char c s t hc h ih =>
    cases hpc : p c with
    | true =>
      rw [List.takeWhile_cons_of_pos hpc, List.takeWhile_cons_of_pos hpc,
        List.dropWhile_cons_of_pos hpc, List.dropWhile_cons_of_pos hpc]
      exact ⟨.char hc ih.1, ih.2⟩
    | false =>
      have hstop : ∀ u, Stops p (c :: u) := fun u => stops_cons.mpr hpc
      rw [takeWhile_of_stops (hstop s), takeWhile_of_stops (hstop t), dropWhile_of_stops (hstop s),
        dropWhile_of_stops (hstop t)]
      exact ⟨.refl [], .char hc h⟩
  | @gap c g g' s t hg hc h ih =>
    by_cases hfeed : '\n' ∈ g
    · -- The class ends within both gaps, at a line feed.
      obtain ⟨a, b, ha, hb, hab, ht, hd⟩ := hp.exists_cut hg.left hfeed (c :: s)
      obtain ⟨a', b', ha', hb', hab', ht', hd'⟩ :=
        hp.exists_cut hg.right (hg.feed.mp hfeed) (c :: t)
      rw [ht, ht', hd, hd']
      exact ⟨.blank ha ha', .gap ⟨hb, hb', iff_of_true hab hab'⟩ hc h⟩
    · have hfeed' : '\n' ∉ g' := fun hm => hfeed (hg.feed.mpr hm)
      have hrun := hp.of_blank hg.left.blank hfeed
      have hrun' := hp.of_blank hg.right.blank hfeed'
      rw [List.takeWhile_append_of_pos hrun, List.takeWhile_append_of_pos hrun',
        List.dropWhile_append_of_pos hrun, List.dropWhile_append_of_pos hrun']
      exact ⟨gap_append hg ih.1, ih.2⟩

end Alike

/-! ### Places -/

/-- The number of characters that are no blanks. -/
def ink (s : List Char) : Nat :=
  s.countP fun c => !isBlank c

@[simp] theorem ink_append (s t : List Char) : ink (s ++ t) = ink s + ink t :=
  List.countP_append

theorem ink_eq_zero_iff : ink s = 0 ↔ ∀ c ∈ s, isBlank c = true := by
  simp [ink, List.countP_eq_zero]

theorem ink_cons_of_not_blank (hc : isBlank c = false) : ink (c :: s) = ink s + 1 := by
  rw [ink, List.countP_cons_of_pos (by simp [hc]), ink]

/-- Texts that are alike have as many characters that are no blanks. -/
theorem Alike.ink_eq (h : Alike s t) : ink s = ink t := by
  induction h with
  | blank hg hg' => rw [ink_eq_zero_iff.mpr hg, ink_eq_zero_iff.mpr hg']
  | char hc h ih => rw [ink_cons_of_not_blank hc, ink_cons_of_not_blank hc, ih]
  | gap hg hc h ih =>
    rw [ink_append, ink_append, ih, ink_eq_zero_iff.mpr hg.left.blank,
      ink_eq_zero_iff.mpr hg.right.blank]

/-- Of two endings of a text, one that does not begin with a blank and has no more other characters
is an ending of the other. -/
theorem suffix_of_ink_le {u v : List Char} (hu : u <:+ s) (hv : v <:+ s) (hstop : Stops isBlank u)
    (h : ink u ≤ ink v) : u <:+ v := by
  rcases List.suffix_or_suffix_of_suffix hu hv with huv | hvu
  · exact huv
  · obtain ⟨a, rfl⟩ := hvu
    rw [ink_append] at h
    have ha : ∀ c ∈ a, isBlank c = true := ink_eq_zero_iff.mp (by omega)
    cases a with
    | nil => exact List.suffix_refl v
    | cons c a =>
      have hblank := ha c List.mem_cons_self
      rw [stops_cons.mp hstop] at hblank
      cases hblank

/-- Of two endings of a text, one that has more characters other than blanks begins earlier. -/
theorem exists_append_of_ink_lt {u v : List Char} (hu : u <:+ s) (hv : v <:+ s)
    (h : ink v < ink u) : ∃ a, u = a ++ v ∧ a ≠ [] := by
  rcases List.suffix_or_suffix_of_suffix hu hv with ⟨a, rfl⟩ | ⟨a, rfl⟩
  · rw [ink_append] at h
    omega
  · refine ⟨a, rfl, ?_⟩
    rintro rfl
    exact absurd h (Nat.lt_irrefl _)

/-- An ending that does not begin with a blank is known by the number of its other characters. -/
theorem eq_of_ink_eq {u v : List Char} (hu : u <:+ s) (hv : v <:+ s) (hstop : Stops isBlank u)
    (hstop' : Stops isBlank v) (h : ink u = ink v) : u = v :=
  (suffix_of_ink_le hu hv hstop (Nat.le_of_eq h)).eq_of_length_le
    (suffix_of_ink_le hv hu hstop' (Nat.le_of_eq h.symm)).length_le

theorem units_le_of_suffix {u v : List Char} (h : u <:+ v) : units u ≤ units v := by
  obtain ⟨a, rfl⟩ := h
  rw [units_append]
  exact Nat.le_add_left _ _

/-- Endings that do not begin with a blank are ordered by their other characters as by their
units. -/
theorem units_le_iff_ink_le {u v : List Char} (hu : u <:+ s) (hv : v <:+ s)
    (hstop : Stops isBlank u) (hstop' : Stops isBlank v) : units u ≤ units v ↔ ink u ≤ ink v := by
  constructor
  · intro h
    rcases Nat.le_total (ink u) (ink v) with hle | hle
    · exact hle
    · obtain ⟨a, rfl⟩ := suffix_of_ink_le hv hu hstop' hle
      cases a with
      | nil => exact Nat.le_refl _
      | cons c a =>
        have := width_pos c
        rw [List.cons_append, units_cons, units_append] at h
        omega
  · exact fun h => units_le_of_suffix (suffix_of_ink_le hu hv hstop h)

/-- Endings of two texts that are alike, neither of which begins with a blank. -/
structure SamePlace (s t u v : List Char) : Prop where
  /-- The first is an ending of the first text. -/
  left : u <:+ s
  /-- The second is an ending of the second text. -/
  right : v <:+ t
  /-- The first does not begin with a blank. -/
  stops : Stops isBlank u
  /-- The second does not begin with a blank. -/
  stops' : Stops isBlank v
  /-- They are alike. -/
  alike : Alike u v

/-- A place of two texts is one of the texts behind the same character. -/
theorem SamePlace.cons {u v : List Char} (h : SamePlace s t u v) (c : Char) :
    SamePlace (c :: s) (c :: t) u v :=
  { h with
    left := h.left.trans (List.suffix_cons c s)
    right := h.right.trans (List.suffix_cons c t) }

/-- The same places come in the same order in both texts. -/
theorem SamePlace.units_le_iff {u v x y : List Char} (h : SamePlace s t u v)
    (h' : SamePlace s t x y) : units u ≤ units x ↔ units v ≤ units y := by
  rw [units_le_iff_ink_le h.left h'.left h.stops h'.stops,
    units_le_iff_ink_le h.right h'.right h.stops' h'.stops', h.alike.ink_eq, h'.alike.ink_eq]

end UmlDraft.Text
