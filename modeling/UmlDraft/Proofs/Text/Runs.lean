import UmlDraft.Text.Scan

/-!
# Runs of characters

A reader takes the longest run of characters of one class and goes on behind it. A run followed by
a text that begins with no such character is exactly what is taken, and the text behind it exactly
what is left; words, names and gaps between words are the runs that the diagram grammar is made
of.
-/

namespace UmlDraft.Text

/-- A text begins with no character of a class. -/
def Stops (p : Char → Bool) (s : List Char) : Prop :=
  ∀ c ∈ s.head?, p c = false

/-- A name is a word of at least one character. -/
structure IsName (s : List Char) : Prop where
  /-- A name has a character. -/
  ne_nil : s ≠ []
  /-- Every character is a word character. -/
  word : ∀ c ∈ s, isWord c = true

/-- A gap is a run of at least one blank. -/
structure IsGap (s : List Char) : Prop where
  /-- A gap has a blank. -/
  ne_nil : s ≠ []
  /-- Every character is a blank. -/
  blank : ∀ c ∈ s, isBlank c = true

section Runs

variable {p : Char → Bool} {run rest s : List Char}

@[simp] theorem stops_nil : Stops p [] := by
  simp [Stops]

@[simp] theorem stops_cons {c : Char} : Stops p (c :: s) ↔ p c = false := by
  simp [Stops]

/-- What does not begin with a character of a class does not begin with one of a smaller class. -/
theorem Stops.mono {q : Char → Bool} (h : Stops p s) (hq : ∀ c, q c = true → p c = true) :
    Stops q s :=
  fun c hc => Bool.eq_false_iff.mpr fun hqc => Bool.eq_false_iff.mp (h c hc) (hq c hqc)

/-- What is left behind a longest run begins with no character of its class. -/
theorem stops_dropWhile (p : Char → Bool) (s : List Char) : Stops p (s.dropWhile p) := by
  induction s with
  | nil => simp
  | cons c s ih =>
    by_cases hc : p c = true
    · rw [List.dropWhile_cons_of_pos hc]
      exact ih
    · rw [List.dropWhile_cons_of_neg hc]
      simpa using hc

/-- A run holds no character outside its class. -/
theorem not_mem_of_run {c : Char} (h : ∀ c ∈ run, p c = true) (hc : p c = false) : c ∉ run := by
  intro hmem
  rw [h c hmem] at hc
  cases hc

theorem takeWhile_of_stops (h : Stops p s) : s.takeWhile p = [] := by
  cases s with
  | nil => rfl
  | cons c s => rw [List.takeWhile_cons_of_neg (by simpa using h)]

theorem dropWhile_of_stops (h : Stops p s) : s.dropWhile p = s := by
  cases s with
  | nil => rfl
  | cons c s => rw [List.dropWhile_cons_of_neg (by simpa using h)]

/-- A run is taken whole where no character of its class follows it. -/
theorem takeWhile_run (h : ∀ c ∈ run, p c = true) (hs : Stops p rest) :
    (run ++ rest).takeWhile p = run := by
  rw [List.takeWhile_append_of_pos h, takeWhile_of_stops hs, List.append_nil]

/-- What follows a run is left whole where no character of its class begins it. -/
theorem dropWhile_run (h : ∀ c ∈ run, p c = true) (hs : Stops p rest) :
    (run ++ rest).dropWhile p = rest := by
  rw [List.dropWhile_append_of_pos h, dropWhile_of_stops hs]

/-- Dropping a class from a text goes no further than where the class stops. -/
theorem dropWhile_append_of_stops (s : List Char) (hs : Stops p rest) :
    (s ++ rest).dropWhile p = s.dropWhile p ++ rest := by
  induction s with
  | nil => rw [List.nil_append, dropWhile_of_stops hs, List.dropWhile_nil, List.nil_append]
  | cons c s ih =>
    by_cases hc : p c = true
    · rw [List.cons_append, List.dropWhile_cons_of_pos hc, List.dropWhile_cons_of_pos hc, ih]
    · rw [List.cons_append, List.dropWhile_cons_of_neg hc, List.dropWhile_cons_of_neg hc,
        List.cons_append]

/-- Dropping a class after a smaller one is dropping the larger class at once. -/
theorem dropWhile_dropWhile {q : Char → Bool} (hq : ∀ c, q c = true → p c = true)
    (s : List Char) : (s.dropWhile q).dropWhile p = s.dropWhile p := by
  induction s with
  | nil => rfl
  | cons c s ih =>
    by_cases hc : q c = true
    · rw [List.dropWhile_cons_of_pos hc, ih, List.dropWhile_cons_of_pos (hq c hc)]
    · rw [List.dropWhile_cons_of_neg hc]

theorem mem_takeWhile {c : Char} (h : c ∈ s.takeWhile p) : p c = true := by
  induction s with
  | nil => simp at h
  | cons a s ih =>
    rw [List.takeWhile_cons] at h
    split at h
    · next ha =>
      rcases List.mem_cons.mp h with rfl | h
      · exact ha
      · exact ih h
    · simp at h

/-- Of two ways to begin a text with a run, that behind which the class stops has the longer run. -/
theorem run_prefix {run' rest' : List Char} (he : run' ++ rest' = run ++ rest)
    (h : ∀ c ∈ run', p c = true) (hs : Stops p rest) : run' <+: run := by
  rcases List.append_eq_append_iff.mp he with ⟨a, ha, -⟩ | ⟨b, hb, hr⟩
  · exact ⟨a, ha.symm⟩
  · cases b with
    | nil => exact ⟨[], by simpa using hb⟩
    | cons c b =>
      have hc : p c = true := h c (by rw [hb]; simp)
      have hn : p c = false := by
        rw [hr] at hs
        simpa using hs
      exact absurd hc (by simp [hn])

/-- A text is divided in one way only at the first place of a character. -/
theorem split_first {c : Char} {a b x y : List Char} (h : a ++ c :: x = b ++ c :: y)
    (ha : c ∉ a) (hb : c ∉ b) : a = b ∧ x = y := by
  have run : ∀ {l : List Char}, c ∉ l → ∀ e ∈ l, (e != c) = true := fun hl e he =>
    bne_iff_ne.mpr fun hc => hl (hc ▸ he)
  have stop : ∀ {l : List Char}, Stops (· != c) (c :: l) := by simp
  have ht := congrArg (List.takeWhile (· != c)) h
  have hd := congrArg (List.dropWhile (· != c)) h
  rw [takeWhile_run (run ha) stop, takeWhile_run (run hb) stop] at ht
  rw [dropWhile_run (run ha) stop, dropWhile_run (run hb) stop] at hd
  exact ⟨ht, (List.cons.inj hd).2⟩

/-- Where a class stops shows in the text up to any later character. -/
theorem stops_append_cons {c : Char} : Stops p (s ++ c :: rest) ↔ Stops p (s ++ [c]) := by
  cases s <;> simp

theorem stops_append (hs : Stops p s) (h : s = [] → Stops p rest) : Stops p (s ++ rest) := by
  cases s with
  | nil => exact h rfl
  | cons c s => simpa using hs

theorem Stops.of_append (h : Stops p (s ++ rest)) : Stops p s := by
  cases s with
  | nil => exact stops_nil
  | cons c s => exact h

end Runs

section Endings

variable {s t : List Char} {c : Char}

theorem mem_getLast?_of_suffix (h : t <:+ s) (hc : c ∈ t.getLast?) : c ∈ s.getLast? := by
  obtain ⟨front, rfl⟩ := h
  rw [List.getLast?_append, Option.mem_def.mp hc]
  rfl

/-- A text that can end with one character only ends with it unless it is empty. -/
theorem eq_concat_of_getLast? (h : ∀ d ∈ s.getLast?, d = c) (hne : s ≠ []) :
    ∃ u, s = u ++ [c] := by
  have hlast := h (s.getLast hne) (List.getLast?_eq_some_getLast hne)
  exact ⟨s.dropLast, by rw [← hlast, List.dropLast_concat_getLast]⟩

end Endings

section Words

variable {w gap rest s : List Char}

theorem stops_isBlank_of_isWord {c : Char} (h : isWord c = true) : Stops isBlank (c :: s) := by
  simpa using isBlank_of_isWord h

theorem isBlank_space : isBlank ' ' = true := by decide

theorem isBlank_feed : isBlank '\n' = true := by decide

theorem blankless_of_all (h : (s.all fun c => !isBlank c) = true) :
    ∀ c ∈ s, isBlank c = false := by
  intro c hc
  simpa using List.all_eq_true.mp h c hc

/-- What follows a gap, a word or any other part is shorter than the text. -/
theorem length_lt_append (h : w ≠ []) (rest : List Char) : rest.length < (w ++ rest).length := by
  rw [List.length_append]
  exact Nat.lt_add_of_pos_left (List.length_pos_iff.mpr h)

theorem isGap_space : IsGap [' '] :=
  ⟨List.cons_ne_nil _ _, fun _ hc => List.mem_singleton.mp hc ▸ isBlank_space⟩

/-- A blank is no word character. -/
theorem isWord_of_isBlank {c : Char} (h : isBlank c = true) : isWord c = false := by
  cases he : isWord c with
  | false => rfl
  | true => exact absurd h (by simp [isBlank_of_isWord he])

theorem leadingWord_run (h : ∀ c ∈ w, isWord c = true) (hs : Stops isWord rest) :
    leadingWord (w ++ rest) = w :=
  takeWhile_run h hs

theorem afterWord_run (h : ∀ c ∈ w, isWord c = true) (hs : Stops isWord rest) :
    afterWord (w ++ rest) = rest :=
  dropWhile_run h hs

theorem skipBlanks_of_stops (h : Stops isBlank s) : skipBlanks s = s :=
  dropWhile_of_stops h

theorem skipBlanks_run (h : ∀ c ∈ gap, isBlank c = true) (hs : Stops isBlank rest) :
    skipBlanks (gap ++ rest) = rest :=
  dropWhile_run h hs

theorem stops_skipBlanks (s : List Char) : Stops isBlank (skipBlanks s) :=
  stops_dropWhile isBlank s

/-- The word that begins a text is a name unless it is empty. -/
theorem isName_leadingWord (h : leadingWord s ≠ []) : IsName (leadingWord s) :=
  ⟨h, fun _ => mem_takeWhile⟩

/-- A name begins with a character, and no name begins a blank text. -/
theorem IsName.stops_isBlank (h : IsName w) : Stops isBlank (w ++ rest) := by
  cases w with
  | nil => exact absurd rfl h.ne_nil
  | cons c w => exact stops_isBlank_of_isWord (h.word c List.mem_cons_self)

theorem IsName.blankless (h : IsName w) : ∀ c ∈ w, isBlank c = false :=
  fun c hc => isBlank_of_isWord (h.word c hc)

theorem IsName.not_mem {c : Char} (h : IsName w) (hc : isWord c = false) : c ∉ w :=
  not_mem_of_run h.word hc

end Words

end UmlDraft.Text
