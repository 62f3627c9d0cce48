import UmlDraft.Diagram.Arrow
import UmlDraft.Proofs.Text.Runs

/-!
# The search for arrows

The search for one form goes over a text word by word: it gives an edge for a word that an arrow and
another word follow, and passes all other words and all that is no word. No arrow is found up to a
closing brace that no bar precedes, since the characters of an arrow up to its bar are not braces.
-/

namespace UmlDraft

open Text

namespace Arrow

variable {a : Arrow} {offset : Nat} {s t u v w rest : List Char}

theorem scan_nil (a : Arrow) (offset : Nat) : a.scan offset [] = [] := by
  rw [scan]

theorem scan_of_not_word {c : Char} (h : isWord c = false) :
    a.scan offset (c :: s) = a.scan (offset + width c) s := by
  rw [scan, dif_neg (by simp [h])]

/-- A word without an arrow and a word behind it is passed. -/
theorem scan_of_none (hw : IsName w) (ht : Stops isWord t) (hn : a.rightWord? t = none) :
    a.scan offset (w ++ t) = a.scan (offset + units w) t := by
  have hleft := leadingWord_run hw.word ht
  have hafter := afterWord_run hw.word ht
  cases w with
  | nil => exact absurd rfl hw.ne_nil
  | cons c w =>
    rw [List.cons_append] at hleft hafter ⊢
    rw [scan, dif_pos (hw.word c List.mem_cons_self)]
    split
    · next r hr =>
      rw [hafter, hn] at hr
      cases hr
    · rw [hleft, hafter]

/-- A word with an arrow and a word behind it gives an edge, and the search goes on behind both. -/
theorem scan_of_some (hw : IsName w) (ht : Stops isWord t) (hr : a.rightWord? t = some (v ++ u))
    (hv : IsName v) (hu : Stops isWord u) :
    a.scan offset (w ++ t) =
      a.edge w v offset :: a.scan (offset + (units (w ++ t) - units u)) u := by
  have hleft := leadingWord_run hw.word ht
  have hafter := afterWord_run hw.word ht
  cases w with
  | nil => exact absurd rfl hw.ne_nil
  | cons c w =>
    rw [List.cons_append] at hleft hafter ⊢
    rw [scan, dif_pos (hw.word c List.mem_cons_self)]
    split
    · next r hr' =>
      rw [hafter, hr] at hr'
      cases hr'
      rw [hleft, leadingWord_run hv.word hu, afterWord_run hv.word hu]
    · next hr' =>
      rw [hafter, hr] at hr'
      cases hr'

/-- A text without words is passed. -/
theorem scan_append_of_wordless (hs : ∀ c ∈ s, isWord c = false) :
    a.scan offset (s ++ t) = a.scan (offset + units s) t := by
  induction s generalizing offset with
  | nil => rfl
  | cons c s ih =>
    rw [List.cons_append, scan_of_not_word (hs c List.mem_cons_self),
      ih fun d hd => hs d (List.mem_cons_of_mem c hd), units_cons, Nat.add_assoc]

/-- An arrow has a bar, behind nothing but strokes and the other half of its head. -/
theorem exists_bar_of_after? (h : a.after? s = some rest) :
    ∃ front back, s = front ++ '|' :: back ∧ ∀ c ∈ front, c ∈ ['<', '-', '.'] := by
  unfold after? at h
  split at h
  · obtain ⟨r, hr, -⟩ := Option.bind_eq_some_iff.mp h
    have hs : s = ['<', '|'] ++ r := dropLeading?_eq_some_iff.mp hr
    exact ⟨['<'], r, hs, fun c hc => List.mem_singleton.mp hc ▸ List.mem_cons_self⟩
  · obtain ⟨r, hr, hd⟩ := Option.bind_eq_some_iff.mp h
    unfold afterShaft? at hr
    split at hr
    · cases hr
      refine ⟨s.takeWhile (· == a.stroke.char), '>' :: rest, ?_, fun c hc => ?_⟩
      · have hback := dropLeading?_eq_some_iff.mp hd
        rw [List.cons_append, List.singleton_append] at hback
        rw [← hback, List.takeWhile_append_dropWhile]
      · have hstroke : c = a.stroke.char := by simpa using mem_takeWhile hc
        rw [hstroke]
        cases a.stroke with
        | solid | dotted => decide
    · cases hr

/-- No arrow begins with a word. -/
theorem after?_of_word (h : ∀ c ∈ s.head?, isWord c = true) : a.after? s = none := by
  rw [Option.eq_none_iff_forall_ne_some]
  intro r hr
  obtain ⟨front, back, rfl, hfront⟩ := exists_bar_of_after? hr
  cases front with
  | nil => exact absurd (h '|' rfl) (by decide)
  | cons c front =>
    have hword : (['<', '-', '.'].all fun c => !isWord c) = true := by decide
    have hc := List.all_eq_true.mp hword c (hfront c List.mem_cons_self)
    rw [h c rfl] at hc
    cases hc

/-- No arrow reaches past a closing brace that no bar precedes. -/
theorem rightWord?_of_barless (hs : '|' ∉ s) : a.rightWord? (s ++ '}' :: t) = none := by
  have hskip : skipBlanks (s ++ '}' :: t) = skipBlanks s ++ '}' :: t :=
    dropWhile_append_of_stops s (stops_cons.mpr (by decide))
  rw [rightWord?, hskip]
  split
  · rfl
  · next r hr =>
    obtain ⟨front, back, he, hfront⟩ := exists_bar_of_after? hr
    have hbar : '|' ∉ skipBlanks s := fun hm => hs ((List.dropWhile_suffix isBlank).subset hm)
    rcases List.append_eq_append_iff.mp he with ⟨x, hx, hy⟩ | ⟨x, hx, hy⟩
    · cases x with
      | nil => exact absurd (List.cons.inj hy).1 (by decide)
      | cons c x =>
        obtain rfl := (List.cons.inj hy).1
        have hmem := hfront '}' (hx ▸ List.mem_append_right _ List.mem_cons_self)
        exact absurd hmem (by decide)
    · cases x with
      | nil => exact absurd (List.cons.inj hy).1 (by decide)
      | cons c x =>
        obtain rfl := (List.cons.inj hy).1
        exact absurd (hx ▸ List.mem_append_right _ List.mem_cons_self) hbar

/-- No arrow is found up to a closing brace that no bar precedes. -/
theorem scan_append_close (hs : '|' ∉ s) :
    a.scan offset (s ++ '}' :: t) = a.scan (offset + (units s + 1)) t := by
  induction hn : s.length using Nat.strongRecOn generalizing s offset with
  | ind n ih =>
    cases s with
    | nil => exact scan_of_not_word (by decide)
    | cons c s =>
      by_cases hc : isWord c = true
      · have hsplit := (leadingWord_append_afterWord (c :: s)).symm
        have hname : IsName (leadingWord (c :: s)) := by
          apply isName_leadingWord
          rw [leadingWord, List.takeWhile_cons_of_pos hc]
          exact List.cons_ne_nil c _
        have hbar : '|' ∉ afterWord (c :: s) := fun hm =>
          hs ((List.dropWhile_suffix isWord).subset hm)
        have hstop : Stops isWord (afterWord (c :: s) ++ '}' :: t) :=
          stops_append (stops_dropWhile isWord _) fun _ => stops_cons.mpr (by decide)
        have hlen : (afterWord (c :: s)).length < n := hn ▸ length_afterWord_lt hc
        have hunits := congrArg units hsplit
        rw [units_append] at hunits
        rw [hsplit, List.append_assoc, scan_of_none hname hstop (rightWord?_of_barless hbar),
          ih _ hlen hbar rfl, ← hsplit, hunits, Nat.add_assoc, Nat.add_assoc]
      · have hbar : '|' ∉ s := fun hm => hs (List.mem_cons_of_mem c hm)
        rw [List.cons_append, scan_of_not_word (by simpa using hc),
          ih s.length (hn ▸ Nat.lt_succ_self _) hbar rfl, units_cons, Nat.add_assoc, Nat.add_assoc]

end Arrow

end UmlDraft
