import UmlDraft.Proofs.Diagram.Marker

/-!
# Where markers stand

A line is read with a space for each of its markers. The markers of a line do not overlap, so it
does not matter in what order they are replaced: there is one text only that is left, and a modifier
is set exactly if a marker that says it stands somewhere in the line. Two texts are read one behind
the other unless a marker begins in the first and ends in the second; no marker does where a blank
or another marker stands at the seam.
-/

namespace UmlDraft.Member

open Text

variable {m m' : Modifier} {s t u v w rest line : List Char}

/-- The texts of the markers of a modifier. -/
def Modifier.texts : Modifier → List String
  | .abstract => ["\x7babstract\x7d"]
  | .static => ["\x7bstatic\x7d", "\x7bclassifier\x7d"]

/-- A marker, in any letter case, that says a modifier. -/
def Modifier.SaidBy (m : Modifier) (w : List Char) : Prop :=
  ∃ text ∈ m.texts, w.map Char.toLower = text.toList

/-- A marker that says the modifier stands in the line. -/
def Marked (m : Modifier) (line : List Char) : Prop :=
  ∃ w, m.SaidBy w ∧ w <:+: line

/-- A line and the same line with a space for each of its markers. -/
inductive Unmarked : List Char → List Char → Prop
  /-- A line without markers stays as it is. -/
  | free {s : List Char} (free : ∀ (m : Modifier) (w : List Char), m.SaidBy w → ¬ w <:+: s) :
    Unmarked s s
  /-- A space stands for a marker with none before it. -/
  | marker {m : Modifier} {s w rest t : List Char}
    (free : ∀ (m : Modifier) (w : List Char), m.SaidBy w → ¬ w <:+: s) (said : m.SaidBy w)
    (h : Unmarked rest t) : Unmarked (s ++ (w ++ rest)) (s ++ ' ' :: t)

theorem mem_markers_iff {text : String} : (m, text) ∈ markers ↔ text ∈ m.texts := by
  cases m with
  | abstract | static => simp [markers, Modifier.texts]

theorem isMarker_iff : IsMarker w ↔ ∃ m : Modifier, m.SaidBy w := by
  constructor
  · rintro ⟨⟨m, text⟩, hmem, hw⟩
    exact ⟨m, text, mem_markers_iff.mp hmem, hw⟩
  · rintro ⟨m, text, hmem, hw⟩
    exact ⟨(m, text), mem_markers_iff.mpr hmem, hw⟩

theorem Modifier.SaidBy.isMarker (h : m.SaidBy w) : IsMarker w :=
  isMarker_iff.mpr ⟨m, h⟩

/-- A marker may be written as its text. -/
theorem Modifier.saidBy_text {text : String} (h : text ∈ m.texts) : m.SaidBy text.toList := by
  have hlower : ∀ text ∈ m.texts, text.toList.map Char.toLower = text.toList := by
    cases m with
    | abstract | static => decide
  exact ⟨text, h, hlower text h⟩

/-- A marker says one modifier only. -/
theorem Modifier.SaidBy.unique (h : m.SaidBy w) (h' : m'.SaidBy w) : m = m' := by
  have hdisjoint : ∀ text ∈ Modifier.texts .abstract, ∀ text' ∈ Modifier.texts .static,
      text.toList ≠ text'.toList := by decide
  obtain ⟨text, ht, hw⟩ := h
  obtain ⟨text', ht', hw'⟩ := h'
  rw [hw] at hw'
  cases m <;> cases m'
  · rfl
  · exact absurd hw' (hdisjoint text ht text' ht')
  · exact absurd hw'.symm (hdisjoint text' ht' text ht)
  · rfl

theorem markerFree_iff :
    MarkerFree s ↔ ∀ (m : Modifier) (w : List Char), m.SaidBy w → ¬ w <:+: s := by
  constructor
  · intro h m w hw
    exact h w hw.isMarker
  · intro h w hw
    obtain ⟨m, hm⟩ := isMarker_iff.mp hw
    exact h m w hm

/-! ### The markers of a line -/

/-- A marker is found at the beginning of a text exactly if the text begins with it. -/
theorem marker?_eq_some_iff : marker? s = some (m, rest) ↔ ∃ w, m.SaidBy w ∧ s = w ++ rest := by
  have hsound : ∀ {m rest}, marker? s = some (m, rest) → ∃ w, m.SaidBy w ∧ s = w ++ rest := by
    intro m rest h
    obtain ⟨⟨n, text⟩, hmem, he⟩ := List.exists_of_findSome?_eq_some h
    obtain ⟨r, hr, hp⟩ := Option.map_eq_some_iff.mp he
    cases hp
    obtain ⟨w, hw, hs⟩ := dropIgnoringCase?_eq_some_iff.mp hr
    exact ⟨w, ⟨text, mem_markers_iff.mp hmem, hw⟩, hs⟩
  refine ⟨hsound, ?_⟩
  rintro ⟨w, hw, hs⟩
  cases hm : marker? s with
  | none => exact absurd ⟨rest, hs.symm⟩ (marker?_eq_none_iff.mp hm w hw.isMarker)
  | some found =>
    -- Another marker would begin at the same place.
    obtain ⟨v, hv, hs'⟩ := hsound hm
    obtain ⟨rfl, hrest⟩ := hw.isMarker.append_inj hv.isMarker (hs.symm.trans hs')
    rw [hw.unique hv, hrest]

theorem unmark_append_marker (hw : m.SaidBy w) (rest : List Char) :
    unmark (w ++ rest) = (' ' :: (unmark rest).1, m :: (unmark rest).2) :=
  unmark_of_marker (marker?_eq_some_iff.mpr ⟨w, hw, rfl⟩)

/-- The markers of a text that begins with one are this one and those of the rest. -/
theorem marked_append_marker_iff (hw : m'.SaidBy w) :
    Marked m (w ++ rest) ↔ m = m' ∨ Marked m rest := by
  constructor
  · rintro ⟨v, hv, hi⟩
    obtain ⟨more, hopen, hmore⟩ := hw.isMarker.eq_open_cons
    rw [hopen, List.cons_append] at hi
    rcases List.infix_cons_iff.mp hi with ⟨tail, hp⟩ | hi
    · rw [← List.cons_append, ← hopen] at hp
      obtain ⟨rfl, -⟩ := hv.isMarker.append_inj hw.isMarker hp
      exact .inl (hv.unique hw)
    · exact .inr ⟨v, hv, hv.isMarker.infix_of_append hmore hi⟩
  · rintro (rfl | ⟨v, hv, hi⟩)
    · exact ⟨w, hw, (List.prefix_append w rest).isInfix⟩
    · exact ⟨v, hv, hi.trans (List.suffix_append w rest).isInfix⟩

/-- A modifier is said exactly if one of its markers stands in the line. -/
theorem mem_unmark_iff : m ∈ (unmark s).2 ↔ Marked m s := by
  induction s using unmark.induct with
  | case1 s n rest hm ih =>
    obtain ⟨w, hw, rfl⟩ := marker?_eq_some_iff.mp hm
    rw [unmark_of_marker hm, List.mem_cons, ih, marked_append_marker_iff hw]
  | case2 hm =>
    rw [unmark_nil]
    refine ⟨fun h => absurd h List.not_mem_nil, ?_⟩
    rintro ⟨w, hw, hi⟩
    exact absurd (List.eq_nil_of_infix_nil hi) hw.isMarker.ne_nil
  | case3 c rest hm ih =>
    rw [unmark_cons hm, ih]
    constructor
    · rintro ⟨w, hw, hi⟩
      exact ⟨w, hw, hi.trans (List.suffix_cons c rest).isInfix⟩
    · rintro ⟨w, hw, hi⟩
      have hp := marker?_eq_none_iff.mp hm w hw.isMarker
      exact ⟨w, hw, (List.infix_cons_iff.mp hi).resolve_left hp⟩

/-! ### Texts behind each other -/

/-- No marker begins in the first text and ends in the second. -/
def Apart (u w : List Char) : Prop :=
  ∀ x y, x ≠ [] → y ≠ [] → x <:+ u → y <+: w → ¬ IsMarker (x ++ y)

theorem Apart.mono (h : Apart u w) (hu : v <:+ u) : Apart v w :=
  fun x y hx hy hxv => h x y hx hy (hxv.trans hu)

/-- No marker goes over the seam where a blank ends the first text or begins the second, or where an
opening brace begins the second. -/
theorem apart_of_seam
    (h : (∀ c ∈ u.getLast?, isBlank c = true) ∨ ∀ c ∈ w.head?, isBlank c = true ∨ c = '{') :
    Apart u w := by
  intro x y hx hy hxu hyw hm
  rcases h with h | h
  · have hlast := List.getLast?_eq_some_getLast hx
    have hblank := h _ (mem_getLast?_of_suffix hxu hlast)
    rw [hm.blankless _ (List.mem_append_left y (List.getLast_mem hx))] at hblank
    cases hblank
  · obtain ⟨c, y, rfl⟩ := List.exists_cons_of_ne_nil hy
    obtain ⟨rest, rfl⟩ := hyw
    rcases h c rfl with hblank | rfl
    · rw [hm.blankless c (List.mem_append_right x List.mem_cons_self)] at hblank
      cases hblank
    · obtain ⟨d, x, rfl⟩ := List.exists_cons_of_ne_nil hx
      obtain ⟨more, he, hmore⟩ := hm.eq_open_cons
      rw [List.cons_append] at he
      rw [← (List.cons.inj he).2] at hmore
      exact hmore (List.mem_append_right x List.mem_cons_self)

/-- Markers are replaced in each of two texts by itself where none goes over the seam. -/
theorem unmark_append (h : Apart u w) :
    unmark (u ++ w) = ((unmark u).1 ++ (unmark w).1, (unmark u).2 ++ (unmark w).2) := by
  induction u using unmark.induct with
  | case1 u m rest hm ih =>
    obtain ⟨v, hv, rfl⟩ := marker?_eq_some_iff.mp hm
    rw [List.append_assoc, unmark_append_marker hv, unmark_append_marker hv,
      ih (h.mono (List.suffix_append v rest))]
    rfl
  | case2 hm =>
    rw [unmark_nil]
    rfl
  | case3 c rest hm ih =>
    have hnone : marker? (c :: (rest ++ w)) = none := by
      refine marker?_eq_none_iff.mpr fun v hv hp => ?_
      obtain ⟨tail, he⟩ := hp
      rw [← List.cons_append] at he
      rcases List.append_eq_append_iff.mp he with ⟨x, hx, -⟩ | ⟨y, hy, hw⟩
      · exact marker?_eq_none_iff.mp hm v hv ⟨x, hx.symm⟩
      · by_cases hne : y = []
        · rw [hne, List.append_nil] at hy
          exact marker?_eq_none_iff.mp hm v hv (hy ▸ List.prefix_refl _)
        · exact h (c :: rest) y (List.cons_ne_nil c rest) hne (List.suffix_refl _)
            ⟨tail, hw.symm⟩ (hy ▸ hv)
    rw [List.cons_append, unmark_cons hnone, unmark_cons hm,
      ih (h.mono (List.suffix_cons c rest))]
    rfl

/-- One text only is left where every marker of a line is replaced by a space. -/
theorem unmarked_iff : Unmarked line t ↔ t = (unmark line).1 := by
  constructor
  · intro h
    induction h with
    | free free => rw [(markerFree_iff.mpr free).unmark_eq]
    | @marker m s w rest t free said h ih =>
      have hapart : Apart s (w ++ rest) := by
        refine apart_of_seam (.inr fun c hc => ?_)
        obtain ⟨more, rfl, -⟩ := said.isMarker.eq_open_cons
        cases hc
        exact .inr rfl
      rw [unmark_append hapart, (markerFree_iff.mpr free).unmark_eq, unmark_append_marker said, ih]
  · rintro rfl
    induction line using unmark.induct with
    | case1 s m rest hm ih =>
      obtain ⟨w, hw, rfl⟩ := marker?_eq_some_iff.mp hm
      rw [unmark_of_marker hm]
      exact .marker (s := [])
        (markerFree_iff.mp (markerFree_of_not_mem List.not_mem_nil)) hw ih
    | case2 hm =>
      rw [unmark_nil]
      exact .free (markerFree_iff.mp (markerFree_of_not_mem List.not_mem_nil))
    | case3 c rest hm ih =>
      rw [unmark_cons hm]
      -- No marker begins here, so the text up to the next one has a character more.
      have hcons : ∀ {s tail : List Char}, rest = s ++ tail →
          (∀ (m : Modifier) (w : List Char), m.SaidBy w → ¬ w <:+: s) →
          ∀ (m : Modifier) (w : List Char), m.SaidBy w → ¬ w <:+: c :: s := by
        intro s tail hs free m w hw hi
        rcases List.infix_cons_iff.mp hi with hp | hi
        · refine marker?_eq_none_iff.mp hm w hw.isMarker ?_
          rw [hs]
          exact hp.trans (List.prefix_append (c :: s) tail)
        · exact free m w hw hi
      generalize (unmark rest).1 = t at ih
      cases ih with
      | free free => exact .free (hcons (List.append_nil _).symm free)
      | marker free said h => exact .marker (hcons rfl free) said h

end UmlDraft.Member
