import UmlDraft.Proofs.Diagram.ArrowSearch

/-!
# How arrows are drawn

An arrow is drawn with two strokes or more and with its head, and it may stand between blanks. What
the search reads between two words is exactly that, and it shows the form of the arrow.
-/

namespace UmlDraft

open Text

theorem Stroke.isWord_char (k : Stroke) : isWord k.char = false := by
  cases k with
  | solid | dotted => decide

theorem Stroke.isBlank_char (k : Stroke) : isBlank k.char = false := by
  cases k with
  | solid | dotted => decide

namespace Arrow

variable {a b : Arrow} {n : Nat} {middle right s t : List Char}

/-- An arrow of a form, with a number of strokes. -/
def drawn (a : Arrow) (n : Nat) : List Char :=
  match a.head with
  | .left => '<' :: '|' :: List.replicate n a.stroke.char
  | .right => List.replicate n a.stroke.char ++ ['|', '>']

/-- The arrow with two strokes or more, between blanks. -/
def Joins (a : Arrow) (middle : List Char) : Prop :=
  ∃ gap n gap', (∀ c ∈ gap, isBlank c = true) ∧ 2 ≤ n ∧ (∀ c ∈ gap', isBlank c = true) ∧
    middle = gap ++ (a.drawn n ++ gap')

theorem drawn_ne_nil (a : Arrow) (n : Nat) : a.drawn n ≠ [] := by
  unfold drawn
  split <;> simp

/-- What holds of the parts of a head and of a stroke holds of all that is drawn. -/
theorem forall_mem_drawn {P : Char → Prop} (hangle : P '<' ∧ P '>') (hbar : P '|')
    (hstroke : P a.stroke.char) : ∀ c ∈ a.drawn n, P c := by
  have hshaft : ∀ c ∈ List.replicate n a.stroke.char, P c := fun c hc =>
    List.eq_of_mem_replicate hc ▸ hstroke
  unfold drawn
  split
  · exact List.forall_mem_cons.mpr ⟨hangle.1, List.forall_mem_cons.mpr ⟨hbar, hshaft⟩⟩
  · exact List.forall_mem_append.mpr
      ⟨hshaft, List.forall_mem_cons.mpr ⟨hbar, List.forall_mem_singleton.mpr hangle.2⟩⟩

theorem isWord_drawn (a : Arrow) (n : Nat) : ∀ c ∈ a.drawn n, isWord c = false :=
  forall_mem_drawn ⟨rfl, rfl⟩ rfl a.stroke.isWord_char

/-- No arrow begins with a blank. -/
theorem stops_drawn (a : Arrow) : Stops isBlank (a.drawn n ++ t) := by
  have hdrawn : ∀ c ∈ a.drawn n, isBlank c = false :=
    forall_mem_drawn ⟨rfl, rfl⟩ rfl a.stroke.isBlank_char
  exact stops_append (fun c hc => hdrawn c (List.mem_of_mem_head? hc)) fun he =>
    absurd he (a.drawn_ne_nil n)

/-- A drawn arrow shows its form. -/
theorem eq_of_drawn_append {m : Nat} (hn : 2 ≤ n) (hm : 2 ≤ m)
    (h : a.drawn n ++ s = b.drawn m ++ t) : a = b := by
  obtain ⟨n, rfl⟩ := Nat.exists_eq_add_of_le' hn
  obtain ⟨m, rfl⟩ := Nat.exists_eq_add_of_le' hm
  obtain ⟨stroke, head⟩ := a
  obtain ⟨stroke', head'⟩ := b
  cases stroke <;> cases head <;> cases stroke' <;> cases head' <;>
    simp [drawn, Stroke.char, List.replicate_succ] at h ⊢

theorem Joins.wordless (h : a.Joins middle) : ∀ c ∈ middle, isWord c = false := by
  obtain ⟨gap, n, gap', hgap, -, hgap', rfl⟩ := h
  refine List.forall_mem_append.mpr ⟨fun c hc => isWord_of_isBlank (hgap c hc), ?_⟩
  exact List.forall_mem_append.mpr
    ⟨a.isWord_drawn n, fun c hc => isWord_of_isBlank (hgap' c hc)⟩

/-- What joins two words shows its form. -/
theorem Joins.unique (h : a.Joins middle) (h' : b.Joins middle) : a = b := by
  obtain ⟨gap, n, gap', hgap, hn, -, rfl⟩ := h
  obtain ⟨gap₁, n₁, gap₁', hgap₁, hn₁, -, he⟩ := h'
  have hskip := congrArg skipBlanks he
  rw [skipBlanks_run hgap a.stops_drawn, skipBlanks_run hgap₁ b.stops_drawn] at hskip
  exact eq_of_drawn_append hn hn₁ hskip

theorem Joins.ne_nil (h : a.Joins middle) : middle ≠ [] := by
  obtain ⟨gap, n, gap', -, -, -, rfl⟩ := h
  exact List.append_ne_nil_of_right_ne_nil gap
    (List.append_ne_nil_of_left_ne_nil (a.drawn_ne_nil n) gap')

/-- What joins two words ends where the word on the right begins. -/
theorem Joins.takeWhile_eq (h : a.Joins middle) (hright : IsName right) (back : List Char) :
    (middle ++ (right ++ back)).takeWhile (fun c => !isWord c) = middle := by
  refine takeWhile_run (fun c hc => ?_) (stops_append (fun c hc => ?_) fun he => ?_)
  · rw [h.wordless c hc, Bool.not_false]
  · rw [hright.word c (List.mem_of_mem_head? hc), Bool.not_true]
  · exact absurd he hright.ne_nil

/-- A word ends where what joins it to another begins. -/
theorem Joins.stops (h : a.Joins middle) (t : List Char) : Stops isWord (middle ++ t) :=
  stops_append (fun c hc => h.wordless c (List.mem_of_mem_head? hc)) fun hn => absurd hn h.ne_nil

/-! ### Reading an arrow -/

/-- A shaft is a run of two strokes or more. -/
theorem afterShaft?_eq_some_iff {stroke : Char} :
    afterShaft? stroke s = some t ↔
      ∃ n, 2 ≤ n ∧ s = List.replicate n stroke ++ t ∧ Stops (· == stroke) t := by
  unfold afterShaft?
  constructor
  · intro h
    split at h
    · next hn =>
      cases h
      have hrun : s.takeWhile (· == stroke) =
          List.replicate (s.takeWhile (· == stroke)).length stroke :=
        List.eq_replicate_of_mem fun c hc => eq_of_beq (mem_takeWhile (p := (· == stroke)) hc)
      refine ⟨_, hn, ?_, stops_dropWhile _ s⟩
      rw [← hrun, List.takeWhile_append_dropWhile]
    · cases h
  · rintro ⟨n, hn, rfl, hstop⟩
    have hrun : ∀ c ∈ List.replicate n stroke, (c == stroke) = true := fun c hc =>
      beq_iff_eq.mpr (List.eq_of_mem_replicate hc)
    rw [takeWhile_run hrun hstop, dropWhile_run hrun hstop, List.length_replicate, if_pos hn]

/-- An arrow is read whole where no stroke follows it. -/
theorem after?_drawn (hn : 2 ≤ n) (ht : Stops (· == a.stroke.char) t) :
    a.after? (a.drawn n ++ t) = some t := by
  have hbar : ('|' == a.stroke.char) = false := by
    cases a.stroke with
    | solid | dotted => decide
  unfold after? drawn
  cases a.head with
  | left =>
    have hdrop : dropLeading? ['<', '|'] ('<' :: '|' :: List.replicate n a.stroke.char ++ t) =
        some (List.replicate n a.stroke.char ++ t) := dropLeading?_eq_some_iff.mpr rfl
    show (dropLeading? _ _).bind _ = _
    rw [hdrop]
    exact afterShaft?_eq_some_iff.mpr ⟨n, hn, rfl, ht⟩
  | right =>
    have hshaft : afterShaft? a.stroke.char
        (List.replicate n a.stroke.char ++ ['|', '>'] ++ t) = some ('|' :: '>' :: t) :=
      afterShaft?_eq_some_iff.mpr ⟨n, hn, List.append_assoc _ _ _, stops_cons.mpr hbar⟩
    show (afterShaft? _ _).bind _ = _
    rw [hshaft]
    exact dropLeading?_eq_some_iff.mpr rfl

/-- What is read as an arrow is drawn with two strokes or more. -/
theorem exists_drawn_of_after? (h : a.after? s = some t) :
    ∃ n, 2 ≤ n ∧ s = a.drawn n ++ t := by
  unfold after? at h
  unfold drawn
  generalize a.head = head at h ⊢
  cases head with
  | left =>
    obtain ⟨r, hr, ht⟩ := Option.bind_eq_some_iff.mp h
    obtain rfl := dropLeading?_eq_some_iff.mp hr
    obtain ⟨n, hn, rfl, -⟩ := afterShaft?_eq_some_iff.mp ht
    exact ⟨n, hn, rfl⟩
  | right =>
    obtain ⟨r, hr, ht⟩ := Option.bind_eq_some_iff.mp h
    obtain ⟨n, hn, rfl, -⟩ := afterShaft?_eq_some_iff.mp hr
    obtain rfl := dropLeading?_eq_some_iff.mp ht
    exact ⟨n, hn, (List.append_assoc _ _ _).symm⟩

/-- A word is read behind what joins it to another. -/
theorem rightWord?_of_joins (h : a.Joins middle) (hright : IsName right) (back : List Char) :
    a.rightWord? (middle ++ (right ++ back)) = some (right ++ back) := by
  obtain ⟨gap, n, gap', hgap, hn, hgap', rfl⟩ := h
  have hother : ∀ c, isBlank c = true ∨ isWord c = true → (c == a.stroke.char) = false := by
    rintro c hc
    refine beq_false_of_ne ?_
    rintro rfl
    simp [a.stroke.isBlank_char, a.stroke.isWord_char] at hc
  have hstroke : Stops (· == a.stroke.char) (gap' ++ (right ++ back)) :=
    stops_append (fun c hc => hother c (.inl (hgap' c (List.mem_of_mem_head? hc)))) fun _ =>
      stops_append (fun c hc => hother c (.inr (hright.word c (List.mem_of_mem_head? hc))))
        fun he => absurd he hright.ne_nil
  have hskip : skipBlanks (gap' ++ (right ++ back)) = right ++ back :=
    skipBlanks_run hgap' hright.stops_isBlank
  have hword : leadingWord (right ++ back) ≠ [] := by
    rw [leadingWord, List.takeWhile_append_of_pos hright.word]
    exact List.append_ne_nil_of_left_ne_nil hright.ne_nil _
  rw [rightWord?, List.append_assoc, List.append_assoc, skipBlanks_run hgap a.stops_drawn,
    after?_drawn hn hstroke]
  simp only [hskip, if_neg hword]

/-- What is read behind a word is another word and what joins the two. -/
theorem exists_joins_of_rightWord? (h : a.rightWord? s = some t) :
    ∃ middle, s = middle ++ t ∧ a.Joins middle ∧ IsName (leadingWord t) := by
  unfold rightWord? at h
  split at h
  · cases h
  · next r hr =>
    split at h
    · cases h
    · next hword =>
      cases h
      obtain ⟨n, hn, hdrawn⟩ := exists_drawn_of_after? hr
      refine ⟨s.takeWhile isBlank ++ (a.drawn n ++ r.takeWhile isBlank), ?_,
        ⟨_, n, _, fun c => mem_takeWhile, hn, fun c => mem_takeWhile, rfl⟩,
        isName_leadingWord hword⟩
      have hs : s.takeWhile isBlank ++ skipBlanks s = s := List.takeWhile_append_dropWhile
      have hr : r.takeWhile isBlank ++ skipBlanks r = r := List.takeWhile_append_dropWhile
      rw [List.append_assoc, List.append_assoc, hr, ← hdrawn, hs]

/-- A word is read behind what joins it to another in their form only. -/
theorem rightWord?_of_joins_ne (h : b.Joins middle) (hne : a ≠ b) (hright : IsName right)
    (back : List Char) : a.rightWord? (middle ++ (right ++ back)) = none := by
  rw [Option.eq_none_iff_forall_ne_some]
  intro t ht
  obtain ⟨middle', he, hjoins, hword⟩ := exists_joins_of_rightWord? ht
  have hmiddle := congrArg (List.takeWhile fun c => !isWord c) he
  rw [h.takeWhile_eq hright, ← leadingWord_append_afterWord t, hjoins.takeWhile_eq hword]
    at hmiddle
  exact hne (hjoins.unique (hmiddle ▸ h))

/-- No arrow stands before a word. -/
theorem rightWord?_eq_none (h : ∀ c ∈ (skipBlanks s).head?, isWord c = true) :
    a.rightWord? s = none := by
  rw [rightWord?, after?_of_word h]

/-- The search for one form finds words that are joined in that form, passes words that are joined
in another, and goes on behind the word on the right if no arrow follows it. -/
theorem scan_joins {left rest : List Char} {offset : Nat} (hleft : IsName left)
    (h : b.Joins middle) (hright : IsName right) (hstop : Stops isWord rest)
    (hnone : a.rightWord? rest = none) :
    a.scan offset (left ++ (middle ++ (right ++ rest))) =
      (if a = b then [b.edge left right offset] else []) ++
        a.scan (offset + units (left ++ (middle ++ right))) rest := by
  have hmiddle := h.stops (right ++ rest)
  by_cases hab : a = b
  · subst hab
    have hunits : units (left ++ (middle ++ (right ++ rest))) - units rest =
        units (left ++ (middle ++ right)) := by
      simp only [units_append]
      omega
    rw [if_pos rfl, scan_of_some hleft hmiddle (rightWord?_of_joins h hright rest) hright hstop,
      hunits, List.singleton_append]
  · rw [if_neg hab, scan_of_none hleft hmiddle (rightWord?_of_joins_ne h hab hright rest),
      scan_append_of_wordless h.wordless, scan_of_none hright hstop hnone, List.nil_append]
    simp only [units_append, Nat.add_assoc]

end Arrow

end UmlDraft
