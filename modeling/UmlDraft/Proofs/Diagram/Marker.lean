import UmlDraft.Diagram.Member
import UmlDraft.Proofs.Text.Trim

/-!
# Markers

A marker is one of three words in braces, in any letter case. Replacing every marker of a line by a
space leaves no marker behind: a text around the space cannot form a new one, because no marker
contains a blank. For the same reason collapsing blanks and trimming bring none back, and a piece of
a line without markers has none.
-/

namespace UmlDraft.Member

open Text

variable {s t w rest : List Char}

/-- A marker is one of the words in braces in any letter case. -/
def IsMarker (w : List Char) : Prop :=
  ∃ m ∈ markers, w.map Char.toLower = m.2.toList

/-- No marker stands anywhere in the text. -/
def MarkerFree (s : List Char) : Prop :=
  ∀ w, IsMarker w → ¬ w <:+: s

theorem dropIgnoringCase?_eq_some_iff :
    dropIgnoringCase? w s = some rest ↔ ∃ v, v.map Char.toLower = w ∧ s = v ++ rest := by
  induction w generalizing s with
  | nil => simp [dropIgnoringCase?]
  | cons a w ih =>
    cases s with
    | nil =>
      rw [dropIgnoringCase?]
      constructor
      · rintro ⟨⟩
      · rintro ⟨v, hv, hs⟩
        rw [(List.append_eq_nil_iff.mp hs.symm).1] at hv
        cases hv
    | cons c s =>
      rw [dropIgnoringCase?]
      constructor
      · intro h
        split at h
        · next hc =>
          obtain ⟨v, hv, rfl⟩ := ih.mp h
          exact ⟨c :: v, by rw [List.map_cons, hc, hv], rfl⟩
        · cases h
      · rintro ⟨v, hv, hs⟩
        cases v with
        | nil => cases hv
        | cons b v =>
          obtain ⟨rfl, rfl⟩ := List.cons.inj hs
          obtain ⟨rfl, rfl⟩ := List.cons.inj hv
          rw [if_pos rfl]
          exact ih.mpr ⟨v, rfl, rfl⟩

/-- A text without a marker at its beginning begins with no marker in any letter case. -/
theorem marker?_eq_none_iff : marker? s = none ↔ ∀ w, IsMarker w → ¬ w <+: s := by
  rw [marker?, List.findSome?_eq_none_iff]
  constructor
  · rintro h w ⟨m, hm, hw⟩ ⟨rest, rfl⟩
    have hd : dropIgnoringCase? m.2.toList (w ++ rest) = some rest :=
      dropIgnoringCase?_eq_some_iff.mpr ⟨w, hw, rfl⟩
    have hnone := h m hm
    rw [hd] at hnone
    cases hnone
  · intro h m hm
    rw [Option.map_eq_none_iff, Option.eq_none_iff_forall_ne_some]
    intro rest hr
    obtain ⟨v, hv, rfl⟩ := dropIgnoringCase?_eq_some_iff.mp hr
    exact h v ⟨m, hm, hv⟩ (List.prefix_append v rest)

/-- Only word characters have a lower case of their own. -/
theorem toLower_of_not_word {c : Char} (h : isWord c = false) : c.toLower = c := by
  have hupper : ¬ (c.val ≥ 'A'.val ∧ c.val ≤ 'Z'.val) := by
    intro hu
    have hu' : c.isUpper = true := decide_eq_true hu
    have hword : (c.isUpper || c.isLower || c.isDigit || c == '_') = false := h
    rw [hu'] at hword
    cases hword
  exact dif_neg hupper

theorem isWord_toLower {c : Char} (h : isWord c = true) : isWord c.toLower = true := by
  have key : ∀ n : Fin 128,
      isWord (Char.ofNat n) = true → isWord (Char.ofNat n).toLower = true := by
    decide
  have := key ⟨c.toNat, val_lt_of_isWord h⟩
  simp only [Char.ofNat_toNat] at this
  exact this h

/-- Every marker is a word in braces. -/
theorem IsMarker.eq_braced (h : IsMarker w) :
    ∃ word, w = '{' :: (word ++ ['}']) ∧ ∀ c ∈ word, isWord c = true := by
  obtain ⟨m, hm, hw⟩ := h
  have hmarkers : ∀ m ∈ markers, m.2.toList = '{' :: (m.2.toList.tail.dropLast ++ ['}']) ∧
      m.2.toList.tail.dropLast.all isWord = true := by decide
  obtain ⟨hbraced, hall⟩ := hmarkers m hm
  -- A character whose lower case is a brace is the brace.
  have hbrace : ∀ {c b : Char}, c.toLower = b → isWord b = false → c = b := by
    intro c b hc hb
    cases hword : isWord c with
    | true =>
      have hlower := isWord_toLower hword
      rw [hc, hb] at hlower
      cases hlower
    | false => rwa [toLower_of_not_word hword] at hc
  rw [hbraced] at hw
  obtain ⟨o, rest, rfl, ho, hrest⟩ := List.map_eq_cons_iff.mp hw
  obtain ⟨word, tail, rfl, hword, htail⟩ := List.map_eq_append_iff.mp hrest
  obtain ⟨e, more, rfl, he, hmore⟩ := List.map_eq_cons_iff.mp htail
  obtain rfl := List.map_eq_nil_iff.mp hmore
  refine ⟨word, by rw [hbrace ho rfl, hbrace he rfl], fun c hc => ?_⟩
  cases hcw : isWord c with
  | true => rfl
  | false =>
    have hl : c.toLower ∈ m.2.toList.tail.dropLast := hword ▸ List.mem_map_of_mem hc
    rw [toLower_of_not_word hcw] at hl
    rw [← hcw]
    exact List.all_eq_true.mp hall c hl

/-- Markers consist of word characters and braces. -/
theorem IsMarker.isWord_or_brace (h : IsMarker w) :
    ∀ c ∈ w, isWord c = true ∨ c = '{' ∨ c = '}' := by
  obtain ⟨word, rfl, hword⟩ := h.eq_braced
  intro c hc
  rw [List.mem_cons, List.mem_append, List.mem_singleton] at hc
  rcases hc with hc | hc | hc
  · exact .inr (.inl hc)
  · exact .inl (hword c hc)
  · exact .inr (.inr hc)

/-- No marker contains a blank. -/
theorem IsMarker.blankless (h : IsMarker w) : ∀ c ∈ w, isBlank c = false := by
  intro c hc
  rcases h.isWord_or_brace c hc with hw | rfl | rfl
  · exact isBlank_of_isWord hw
  · rfl
  · rfl

/-- Every marker begins with its only opening brace. -/
theorem IsMarker.eq_open_cons (h : IsMarker w) : ∃ more, w = '{' :: more ∧ '{' ∉ more := by
  obtain ⟨word, rfl, hword⟩ := h.eq_braced
  refine ⟨word ++ ['}'], rfl, ?_⟩
  rw [List.mem_append, not_or]
  exact ⟨not_mem_of_run hword (by decide), by decide⟩

/-- A text begins with one marker at most. -/
theorem IsMarker.append_inj {v : List Char} (hw : IsMarker w) (hv : IsMarker v)
    (h : w ++ rest = v ++ t) : w = v ∧ rest = t := by
  obtain ⟨word, rfl, hword⟩ := hw.eq_braced
  obtain ⟨word', rfl, hword'⟩ := hv.eq_braced
  have hclose : ∀ {l : List Char}, (∀ c ∈ l, isWord c = true) → '}' ∉ '{' :: l := fun hl => by
    rw [List.mem_cons, not_or]
    exact ⟨by decide, not_mem_of_run hl (by decide)⟩
  simp only [List.cons_append, List.append_assoc] at h
  obtain ⟨he, hr⟩ := split_first (a := '{' :: word) (b := '{' :: word') h (hclose hword)
    (hclose hword')
  rw [(List.cons.inj he).2]
  exact ⟨rfl, hr⟩

theorem IsMarker.ne_nil (h : IsMarker w) : w ≠ [] := by
  obtain ⟨more, rfl, -⟩ := h.eq_open_cons
  exact List.cons_ne_nil _ _

theorem IsMarker.mem_open (h : IsMarker w) : '{' ∈ w := by
  obtain ⟨more, rfl, -⟩ := h.eq_open_cons
  exact List.mem_cons_self

theorem unmark_of_marker {m : Modifier} (h : marker? s = some (m, rest)) :
    unmark s = (' ' :: (unmark rest).1, m :: (unmark rest).2) := by
  rw [unmark]
  split
  · next m' rest' h' =>
    rw [h] at h'
    cases h'
    rfl
  · next h' =>
    rw [h] at h'
    cases h'

theorem unmark_nil : unmark [] = ([], []) := by
  rw [unmark]
  rfl

theorem unmark_cons {c : Char} (h : marker? (c :: s) = none) :
    unmark (c :: s) = (c :: (unmark s).1, (unmark s).2) := by
  rw [unmark]
  split
  · next m' rest' h' =>
    rw [h] at h'
    cases h'
  · rfl

/-- What stands before the first brace stays as it is. -/
theorem unmark_append_of_not_mem (hw : '{' ∉ w) (s : List Char) :
    unmark (w ++ s) = (w ++ (unmark s).1, (unmark s).2) := by
  induction w with
  | nil => rfl
  | cons c w ih =>
    rw [List.mem_cons, not_or] at hw
    have hnone : marker? (c :: (w ++ s)) = none := by
      rw [marker?_eq_none_iff]
      intro v hv hp
      obtain ⟨more, hm, -⟩ := hv.eq_open_cons
      rw [hm] at hp
      exact hw.1 (List.cons_prefix_cons.mp hp).1
    rw [List.cons_append, unmark_cons hnone, ih hw.2, List.cons_append]

theorem MarkerFree.mono (h : MarkerFree s) (ht : t <:+: s) : MarkerFree t :=
  fun w hw hi => h w hw (hi.trans ht)

theorem MarkerFree.collapse (h : MarkerFree s) : MarkerFree (collapse s) :=
  fun w hw hi => h w hw (infix_of_infix_collapse hw.blankless hi)

theorem MarkerFree.trim (h : MarkerFree s) : MarkerFree (trim s) :=
  h.mono (isInfix_trim s)

/-- A text without an opening brace has no marker. -/
theorem markerFree_of_not_mem (h : '{' ∉ s) : MarkerFree s :=
  fun _ hw hi => h (hi.subset hw.mem_open)

/-- A name has no marker. -/
theorem markerFree_of_isName (h : IsName s) : MarkerFree s :=
  markerFree_of_not_mem fun hmem => absurd (h.word '{' hmem) (by decide)

/-- A marker behind a text without an opening brace stands in what follows the text. -/
theorem IsMarker.infix_of_append (hw : IsMarker w) (ht : '{' ∉ t) (h : w <:+: t ++ s) :
    w <:+: s := by
  induction t with
  | nil => exact h
  | cons c t ih =>
    rw [List.mem_cons, not_or] at ht
    rcases List.infix_cons_iff.mp h with hp | hi
    · obtain ⟨more, rfl, -⟩ := hw.eq_open_cons
      exact absurd (List.cons_prefix_cons.mp hp).1 ht.1
    · exact ih ht.2 hi

/-- A text without markers has none behind a text without an opening brace. -/
theorem MarkerFree.append_left (hs : MarkerFree s) (ht : '{' ∉ t) : MarkerFree (t ++ s) :=
  fun w hw hi => hs w hw (hw.infix_of_append ht hi)

/-- Two texts without markers have none with a punctuation mark between them. -/
theorem MarkerFree.append_cons {c : Char} (hs : MarkerFree s) (ht : MarkerFree t)
    (hc : isWord c = false) (hb : c ∉ ['{', '}']) : MarkerFree (s ++ c :: t) := by
  intro w hw hi
  have hnot : c ∉ w := by
    intro hm
    rcases hw.isWord_or_brace c hm with hword | rfl | rfl
    · rw [hc] at hword
      cases hword
    · exact hb List.mem_cons_self
    · exact hb (List.mem_cons_of_mem _ List.mem_cons_self)
  rcases List.infix_append_iff.mp hi with hi | hi | ⟨w₁, w₂, rfl, hw₁, hw₂⟩
  · exact hs w hw hi
  · rcases List.infix_cons_iff.mp hi with hp | hi
    · cases w with
      | nil => exact hw.ne_nil rfl
      | cons a w =>
        obtain ⟨rfl, -⟩ := List.cons_prefix_cons.mp hp
        exact hnot List.mem_cons_self
    · exact ht w hw hi
  · cases w₂ with
    | nil =>
      rw [List.append_nil] at hw
      exact hs w₁ hw hw₁.isInfix
    | cons a w₂ =>
      obtain ⟨rfl, -⟩ := List.cons_prefix_cons.mp hw₂
      exact hnot (List.mem_append_right w₁ List.mem_cons_self)

/-- A text without markers stays as it is. -/
theorem MarkerFree.unmark_eq (h : MarkerFree s) : unmark s = (s, []) := by
  induction s with
  | nil => exact unmark_nil
  | cons c s ih =>
    have hnone : marker? (c :: s) = none :=
      marker?_eq_none_iff.mpr fun w hw hp => h w hw hp.isInfix
    rw [unmark_cons hnone, ih (h.mono (List.suffix_cons c s).isInfix)]

/-- What begins the line without its markers, up to the first blank, begins the line. -/
theorem prefix_of_prefix_unmark (hw : ∀ c ∈ w, isBlank c = false) (h : w <+: (unmark s).1) :
    w <+: s := by
  induction s using unmark.induct generalizing w with
  | case1 s m rest hm ih =>
    rw [unmark_of_marker hm] at h
    cases w with
    | nil => exact List.nil_prefix
    | cons a w =>
      obtain ⟨rfl, -⟩ := List.cons_prefix_cons.mp h
      exact absurd (hw ' ' List.mem_cons_self) (by decide)
  | case2 hm => rwa [unmark_nil] at h
  | case3 c rest hm ih =>
    rw [unmark_cons hm] at h
    cases w with
    | nil => exact List.nil_prefix
    | cons a w =>
      obtain ⟨rfl, ht⟩ := List.cons_prefix_cons.mp h
      exact List.cons_prefix_cons.mpr ⟨rfl, ih (fun c hc => hw c (List.mem_cons_of_mem a hc)) ht⟩

/-- No marker is left where every marker has been replaced by a space. -/
theorem markerFree_unmark (s : List Char) : MarkerFree (unmark s).1 := by
  intro w hw hi
  induction s using unmark.induct with
  | case1 s m rest hm ih =>
    rw [unmark_of_marker hm] at hi
    rcases List.infix_cons_iff.mp hi with hp | hr
    · cases w with
      | nil => exact hw.ne_nil rfl
      | cons a w =>
        obtain ⟨rfl, -⟩ := List.cons_prefix_cons.mp hp
        exact absurd (hw.blankless ' ' List.mem_cons_self) (by decide)
    · exact ih hr
  | case2 hm =>
    rw [unmark_nil] at hi
    exact hw.ne_nil (List.eq_nil_of_infix_nil hi)
  | case3 c rest hm ih =>
    have hu := unmark_cons hm
    rw [hu] at hi
    rcases List.infix_cons_iff.mp hi with hp | hr
    · -- A marker that begins here begins the line as well, where none was found.
      rw [← show (unmark (c :: rest)).1 = c :: (unmark rest).1 by rw [hu]] at hp
      exact marker?_eq_none_iff.mp hm w hw (prefix_of_prefix_unmark hw.blankless hp)
    · exact ih hr

/-- What reads a line meets a tidy text: one with single spaces only and without a marker. -/
structure Tidy (s : List Char) : Prop where
  /-- The text is single spaced. -/
  singleSpaced : SingleSpaced s
  /-- The text has no marker. -/
  markerFree : MarkerFree s

theorem Tidy.mono (h : Tidy s) (ht : t <:+: s) : Tidy t :=
  ⟨h.singleSpaced.mono ht, h.markerFree.mono ht⟩

theorem tidy_nil : Tidy [] :=
  ⟨singleSpaced_of_blankless fun _ hc => absurd hc List.not_mem_nil,
    markerFree_of_not_mem List.not_mem_nil⟩

/-- A name is tidy. -/
theorem tidy_of_isName (h : IsName s) : Tidy s :=
  ⟨singleSpaced_of_blankless fun c hc => isBlank_of_isWord (h.word c hc), markerFree_of_isName h⟩

/-- Two tidy texts are tidy with a punctuation mark of a member between them. -/
theorem Tidy.append_cons {c : Char} (hs : Tidy s) (hc : c ∈ [',', ':', '(', ')']) (ht : Tidy t) :
    Tidy (s ++ c :: t) := by
  have hmark : isBlank c = false ∧ isWord c = false ∧ c ∉ ['{', '}'] := by
    simp only [List.mem_cons, List.not_mem_nil, or_false] at hc
    rcases hc with rfl | rfl | rfl | rfl
    all_goals exact ⟨rfl, rfl, by decide⟩
  exact ⟨hs.singleSpaced.append_cons hmark.1 ht.singleSpaced,
    hs.markerFree.append_cons ht.markerFree hmark.2.1 hmark.2.2⟩

theorem Tidy.space_cons (h : Tidy s) (hs : Stops isBlank s) : Tidy (' ' :: s) :=
  ⟨h.singleSpaced.space_cons hs, h.markerFree.append_left (t := [' ']) (by decide)⟩

/-- A line is tidy once its markers have been replaced and its blanks collapsed. -/
theorem tidy_line (line : List Char) : Tidy (trim (collapse (unmark line).1)) :=
  Tidy.mono ⟨singleSpaced_collapse _, (markerFree_unmark line).collapse⟩ (isInfix_trim _)

end UmlDraft.Member
