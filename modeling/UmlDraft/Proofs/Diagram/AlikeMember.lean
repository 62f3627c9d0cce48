import UmlDraft.Proofs.Diagram.Member
import UmlDraft.Proofs.Text.Alike

/-!
# Members of bodies that are alike

The gaps of a body do not matter to its members. A marker has no gap in it, so the markers of two
lines that are alike are the same and leave lines that are alike; once the gaps of these have been
collapsed they differ at the end at most, where trimming takes care of it. A gap over several lines
holds lines that declare nothing, so two bodies that are alike declare the same members, line by
line.
-/

namespace UmlDraft.Member

open Text

variable {c : Char} {g s t w : List Char}

/-- A blank is no character of a word in any letter case. -/
theorem toLower_ne_of_isBlank {a : Char} (hc : isBlank c = true) (ha : isBlank a = false) :
    c.toLower ≠ a := by
  rw [toLower_of_not_word (isWord_of_isBlank hc)]
  rintro rfl
  rw [hc] at ha
  cases ha

/-- A word in any letter case is dropped from both texts or from none. -/
theorem alike_dropIgnoringCase? (hw : ∀ c ∈ w, isBlank c = false) (h : Alike s t) :
    Option.Rel Alike (dropIgnoringCase? w s) (dropIgnoringCase? w t) := by
  refine h.rel fun u v huv rest hr => ?_
  induction w generalizing u v with
  | nil =>
    cases hr
    exact ⟨v, rfl, huv⟩
  | cons a w ih =>
    cases u with
    | nil => cases hr
    | cons c u =>
      rw [dropIgnoringCase?] at hr
      split at hr
      · next hca =>
        have hc : isBlank c = false := by
          cases hc : isBlank c with
          | false => rfl
          | true => exact absurd hca (toLower_ne_of_isBlank hc (hw a List.mem_cons_self))
        obtain ⟨v, rfl, hv⟩ := huv.of_cons hc
        obtain ⟨rest', hr', halike⟩ := ih (fun d hd => hw d (List.mem_cons_of_mem a hd)) u v hv hr
        exact ⟨rest', (if_pos hca).trans hr', halike⟩
      · cases hr

/-- The texts begin with the same marker, or with none. -/
theorem alike_marker? (h : Alike s t) :
    Option.Rel (fun a b => a.1 = b.1 ∧ Alike a.2 b.2) (marker? s) (marker? t) := by
  have hall : (markers.all fun m => m.2.toList.all fun c => !isBlank c) = true := rfl
  have hwords : ∀ m ∈ markers, ∀ c ∈ m.2.toList, isBlank c = false := fun m hm =>
    blankless_of_all (List.all_eq_true.mp hall m hm)
  unfold marker?
  generalize markers = ms at hwords
  induction ms with
  | nil => exact .none
  | cons m ms ih =>
    rw [List.findSome?_cons, List.findSome?_cons]
    rcases eq_none_or_some_of_rel (alike_dropIgnoringCase? (hwords m List.mem_cons_self) h) with
      ⟨hs, ht⟩ | ⟨a, b, hs, ht, hab⟩
    · rw [hs, ht]
      exact ih fun m' hm => hwords m' (List.mem_cons_of_mem m hm)
    · rw [hs, ht]
      exact .some ⟨rfl, hab⟩

/-- Without their markers, texts that are alike are alike, and their markers say the same. -/
theorem alike_unmark (h : Alike s t) :
    Alike (unmark s).1 (unmark t).1 ∧ (unmark s).2 = (unmark t).2 := by
  have hopen : ∀ {k : List Char}, (∀ c ∈ k, isBlank c = true) → '{' ∉ k := fun hk =>
    not_mem_of_run hk rfl
  induction hn : s.length using Nat.strongRecOn generalizing s t with
  | ind n ih =>
    subst hn
    cases h with
    | blank hg hg' =>
      rw [(markerFree_of_not_mem (hopen hg)).unmark_eq,
        (markerFree_of_not_mem (hopen hg')).unmark_eq]
      exact ⟨.blank hg hg', rfl⟩
    | @char c s t hc h =>
      rcases eq_none_or_some_of_rel (alike_marker? (.char hc h)) with
        ⟨hs, ht⟩ | ⟨⟨m, rest⟩, ⟨m', rest'⟩, hs, ht, rfl, hrest⟩
      · obtain ⟨hone, htwo⟩ := ih s.length (Nat.lt_succ_self _) h rfl
        rw [unmark_cons hs, unmark_cons ht]
        exact ⟨.char hc hone, htwo⟩
      · obtain ⟨hone, htwo⟩ := ih rest.length (length_marker? hs) hrest rfl
        rw [unmark_of_marker hs, unmark_of_marker ht, htwo]
        exact ⟨.cons ' ' hone, rfl⟩
    | @gap c g g' s t hg hc h =>
      have hlen := length_lt_append hg.left.ne_nil (c :: s)
      obtain ⟨hone, htwo⟩ := ih _ hlen h rfl
      rw [unmark_append_of_not_mem (hopen hg.left.blank),
        unmark_append_of_not_mem (hopen hg.right.blank)]
      exact ⟨.gap_append hg hone, htwo⟩

/-- A blank text collapses to a blank text. -/
theorem isBlank_of_mem_collapse (h : ∀ c ∈ g, isBlank c = true) :
    ∀ c ∈ collapse g, isBlank c = true := by
  by_cases hne : g = []
  · rw [hne] at h ⊢
    exact h
  · have hgap := collapse_gap ⟨hne, h⟩ (stops_nil (p := isBlank))
    rw [List.append_nil] at hgap
    rw [hgap]
    intro c hc
    rw [List.mem_singleton.mp hc]
    exact isBlank_space

/-- Collapsed, texts that are alike differ in the blanks at the end at most. -/
theorem exists_collapse (h : Alike s t) : ∃ x e e', collapse s = x ++ e ∧ collapse t = x ++ e' ∧
    (∀ c ∈ e, isBlank c = true) ∧ ∀ c ∈ e', isBlank c = true := by
  induction h with
  | blank hg hg' =>
    exact ⟨[], _, _, rfl, rfl, isBlank_of_mem_collapse hg, isBlank_of_mem_collapse hg'⟩
  | @char c s t hc h ih =>
    obtain ⟨x, e, e', hs, ht, he⟩ := ih
    refine ⟨c :: x, e, e', ?_, ?_, he⟩
    · rw [collapse_cons_of_not_blank hc, hs, List.cons_append]
    · rw [collapse_cons_of_not_blank hc, ht, List.cons_append]
  | gap hg hc h ih =>
    obtain ⟨x, e, e', hs, ht, he⟩ := ih
    refine ⟨' ' :: x, e, e', ?_, ?_, he⟩
    · rw [collapse_gap hg.left (stops_cons.mpr hc), hs, List.cons_append]
    · rw [collapse_gap hg.right (stops_cons.mpr hc), ht, List.cons_append]

/-- Lines that are alike declare the same. -/
theorem alike_ofLine? (h : Alike s t) : ofLine? s = ofLine? t := by
  obtain ⟨hone, htwo⟩ := alike_unmark h
  obtain ⟨x, e, e', hs, ht, he, he'⟩ := exists_collapse hone
  rw [ofLine?, ofLine?, htwo, hs, ht, trim_append_blank x he, trim_append_blank x he']

/-- A blank before a line does not matter. -/
theorem ofLine?_cons_of_blank (hc : isBlank c = true) (s : List Char) :
    ofLine? (c :: s) = ofLine? s := by
  have hne : '{' ∉ [c] := by
    intro hm
    rw [← List.mem_singleton.mp hm] at hc
    cases hc
  have hu : unmark (c :: s) = (c :: (unmark s).1, (unmark s).2) := unmark_append_of_not_mem hne s
  have hl : trim (collapse (c :: (unmark s).1)) = trim (collapse (unmark s).1) := by
    rw [collapse, if_pos hc]
    split
    · rfl
    · exact trim_space_cons _
  rw [ofLine?, ofLine?, hu, hl]

/-- The members that the lines of a text declare. -/
def ofLines (s : List Char) : List Member :=
  (s.splitOn '\n').filterMap ofLine?

theorem ofBody_ofList (s : List Char) : ofBody (.ofList s) = ofLines s := by
  rw [ofBody, String.toList_ofList, ofLines]

theorem ofLines_line {line : List Char} (h : '\n' ∉ line) (rest : List Char) :
    ofLines (line ++ '\n' :: rest) = (ofLine? line).toList ++ ofLines rest := by
  rw [ofLines, List.splitOn_append_cons_self_of_not_mem h, List.filterMap_cons, ofLines]
  cases ofLine? line with
  | none | some m => rfl

theorem ofLines_nil : ofLines [] = [] := by
  rw [ofLines, List.splitOn_nil, List.filterMap_cons, ofLine?_nil]
  rfl

/-- One line declares one member or none. -/
theorem ofLines_of_not_mem (h : '\n' ∉ s) : ofLines s = (ofLine? s).toList := by
  rw [ofLines, List.splitOn_eq_singleton h]
  cases hs : ofLine? s with
  | none | some m => simp [hs]

/-- The members of a text are those of its first line and those of the rest. -/
theorem ofLines_eq (s : List Char) :
    ofLines s = (ofLine? (s.takeWhile (· != '\n'))).toList ++
      ofLines (s.dropWhile (· != '\n')) := by
  have hline : '\n' ∉ s.takeWhile (· != '\n') := by
    intro hm
    cases mem_takeWhile hm
  have hcut := List.takeWhile_append_dropWhile (p := (· != '\n')) (l := s)
  have hstop := stops_dropWhile (· != '\n') s
  cases hd : s.dropWhile (· != '\n') with
  | nil =>
    rw [hd, List.append_nil] at hcut
    rw [hcut] at hline ⊢
    rw [ofLines_of_not_mem hline, ofLines_nil, List.append_nil]
  | cons c rest =>
    rw [hd] at hcut hstop
    obtain rfl : c = '\n' := by simpa using hstop
    have hempty : ofLines ('\n' :: rest) = ofLines rest := by
      have := ofLines_line List.not_mem_nil rest
      rwa [ofLine?_nil] at this
    rw [hempty, ← ofLines_line hline rest, hcut]

/-- A blank before the lines does not matter. -/
theorem ofLines_cons_of_blank (hc : isBlank c = true) (s : List Char) :
    ofLines (c :: s) = ofLines s := by
  obtain ⟨first, more, hs, hcs⟩ := splitOn_cons '\n' c s
  rw [ofLines, ofLines, hcs, hs]
  split
  · rw [List.filterMap_cons, ofLine?_nil]
  · rw [List.filterMap_cons, List.filterMap_cons, ofLine?_cons_of_blank hc]

theorem ofLines_skipBlanks (s : List Char) : ofLines (skipBlanks s) = ofLines s := by
  induction s with
  | nil => rfl
  | cons c s ih =>
    cases hc : isBlank c with
    | true =>
      rw [skipBlanks, List.dropWhile_cons_of_pos hc, ofLines_cons_of_blank hc, ← ih, skipBlanks]
    | false => rw [skipBlanks_of_stops (stops_cons.mpr hc)]

/-- Bodies that are alike declare the same members. -/
theorem alike_ofLines (h : Alike s t) : ofLines s = ofLines t := by
  induction hn : s.length using Nat.strongRecOn generalizing s t with
  | ind n ih =>
    subst hn
    have hskip := h.skipBlanks
    have hclass : LineClass (· != '\n') := fun c _ => bne_iff_ne
    obtain ⟨hline, hrest⟩ := hskip.line hclass
    rw [← ofLines_skipBlanks s, ← ofLines_skipBlanks t]
    cases hs : skipBlanks s with
    | nil =>
      rw [hs] at hskip
      have hblank := hskip.of_blank fun _ hc => absurd hc List.not_mem_nil
      have ht : skipBlanks (skipBlanks t) = [] := List.dropWhile_eq_nil_iff.mpr hblank
      rw [← ofLines_skipBlanks (skipBlanks t), ht]
    | cons c r =>
      -- The first line is not empty, so what follows it is shorter.
      have hc : isBlank c = false := by
        have := stops_skipBlanks s
        rwa [hs, stops_cons] at this
      have hne : (c != '\n') = true := bne_iff_ne.mpr fun he => by
        rw [he] at hc
        cases hc
      have hlen : ((skipBlanks s).dropWhile (· != '\n')).length < s.length := by
        have hle := length_skipBlanks_le s
        have hdrop := length_dropWhile_le (· != '\n') r
        rw [hs] at hle ⊢
        rw [List.dropWhile_cons, if_pos hne]
        exact Nat.lt_of_le_of_lt hdrop hle
      rw [← hs, ofLines_eq (skipBlanks s), ofLines_eq (skipBlanks t), alike_ofLine? hline,
        ih _ hlen hrest rfl]

end UmlDraft.Member
