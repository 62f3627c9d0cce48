import UmlDraft.Proofs.Diagram.TypeToken

/-!
# Plain types

A plain type is a dotted word, arguments of words, dots, commas and single spaces, and arrays of
it. It is a type, collapsing blanks leaves it alone, and its characters are none of those that
punctuate the members of a diagram.
-/

namespace UmlDraft

open Text TypeToken

variable {s t : List Char}

/-- The arguments of a plain type hold words, dots, commas and single spaces. -/
inductive IsPlainArguments : List Char → Prop
  /-- There are no arguments. -/
  | none : IsPlainArguments []
  /-- The arguments stand between angle brackets. -/
  | angled {inner : List Char}
    (plain : ∀ c ∈ inner, isWord c = true ∨ c = '.' ∨ c = ',' ∨ c = ' ')
    (single : ¬ [' ', ' '] <:+: inner) : IsPlainArguments ('<' :: (inner ++ ['>']))

/-- A plain type: a dotted word, plain arguments, and arrays of it. -/
inductive IsPlainType : List Char → Prop
  /-- The three parts. -/
  | mk {name arguments : List Char} (depth : Nat) (ne_nil : name ≠ [])
    (dotted : ∀ c ∈ name, isNameChar c = true) (angled : IsPlainArguments arguments) :
    IsPlainType (name ++ arguments ++ arrays depth)

/-- A plain type consists of word characters, dots, commas, spaces and brackets. -/
def isTypeChar (c : Char) : Bool :=
  isWord c || ['.', ',', ' ', '<', '>', '[', ']'].contains c

/-- A list of names with plain types consists of the characters of types and colons. -/
def isListChar (c : Char) : Bool :=
  isTypeChar c || c == ':'

/-- A printed member consists of the characters of such lists, parentheses, braces and symbols. -/
def isLineChar (c : Char) : Bool :=
  isListChar c || ['(', ')', '{', '}', '+', '-', '#', '~'].contains c

theorem isTypeChar_of_isWord {c : Char} (h : isWord c = true) : isTypeChar c = true := by
  rw [isTypeChar, h, Bool.true_or]

theorem isTypeChar_of_isNameChar {c : Char} (h : isNameChar c = true) : isTypeChar c = true := by
  rw [isNameChar, Bool.or_eq_true, beq_iff_eq] at h
  rcases h with h | rfl
  · exact isTypeChar_of_isWord h
  · decide

theorem isListChar_of_isTypeChar {c : Char} (h : isTypeChar c = true) : isListChar c = true := by
  rw [isListChar, h, Bool.true_or]

theorem isLineChar_of_isListChar {c : Char} (h : isListChar c = true) : isLineChar c = true := by
  rw [isLineChar, h, Bool.true_or]

/-- The only blank of a type is the space. -/
theorem eq_space_of_isTypeChar {c : Char} (h : isTypeChar c = true) (hb : isBlank c = true) :
    c = ' ' := by
  have hother : (['.', ',', ' ', '<', '>', '[', ']'].all fun c => !isBlank c || c == ' ') =
      true := by
    decide
  rw [isTypeChar, Bool.or_eq_true, List.contains_iff_mem] at h
  rcases h with h | h
  · rw [isBlank_of_isWord h] at hb
    cases hb
  · have := List.all_eq_true.mp hother c h
    rwa [hb, Bool.not_true, Bool.false_or, beq_iff_eq] at this

theorem mem_arrays {c : Char} {depth : Nat} (h : c ∈ arrays depth) : c = '[' ∨ c = ']' := by
  induction depth with
  | zero => cases h
  | succ depth ih =>
    rw [arrays, List.mem_cons, List.mem_cons] at h
    rcases h with rfl | rfl | h
    · exact .inl rfl
    · exact .inr rfl
    · exact ih h

theorem isTypeChar_of_mem_arguments {c : Char} (h : IsPlainArguments s) (hc : c ∈ s) :
    isTypeChar c = true := by
  cases h with
  | none => cases hc
  | @angled inner plain single =>
    rw [List.mem_cons, List.mem_append, List.mem_singleton] at hc
    rcases hc with rfl | hc | rfl
    · decide
    · rcases plain c hc with h | rfl | rfl | rfl
      · exact isTypeChar_of_isWord h
      · decide
      · decide
      · decide
    · decide

/-- Whether arguments are plain can be computed. -/
theorem isPlainArguments_of_all (h : s.all (fun c => isWord c || ['.', ',', ' '].contains c) = true)
    (hs : occursIn [' ', ' '] s = false) : IsPlainArguments ('<' :: (s ++ ['>'])) := by
  refine .angled (fun c hc => ?_) fun hi => ?_
  · simpa using List.all_eq_true.mp h c hc
  · rw [occursIn_iff.mpr hi] at hs
    cases hs

/-- Plain arguments are arguments. -/
theorem IsPlainArguments.isArguments (h : IsPlainArguments s) : IsArguments s := by
  cases h with
  | none => exact .none
  | @angled inner plain single =>
    refine .angled fun c hc => ?_
    rcases plain c hc with h | rfl | rfl | rfl
    · cases he : isArgumentChar c with
      | true => rfl
      | false =>
        simp only [isArgumentChar, Bool.and_eq_false_iff, bne_eq_false_iff_eq] at he
        rcases he with ((rfl | rfl) | rfl) | rfl
        all_goals exact absurd h (by decide)
    · decide
    · decide
    · decide

namespace IsPlainType

/-- A plain type is a type. -/
theorem isType (h : IsPlainType s) : IsType s := by
  obtain ⟨depth, hne, hdotted, hargs⟩ := h
  exact .mk depth hne hdotted hargs.isArguments

theorem isTypeChar (h : IsPlainType s) : ∀ c ∈ s, isTypeChar c = true := by
  obtain ⟨depth, hne, hdotted, hargs⟩ := h
  intro c hc
  rw [List.mem_append, List.mem_append] at hc
  rcases hc with (hc | hc) | hc
  · exact isTypeChar_of_isNameChar (hdotted c hc)
  · exact isTypeChar_of_mem_arguments hargs hc
  · rcases mem_arrays hc with rfl | rfl
    · decide
    · decide

/-- A plain type has single spaces only. -/
theorem collapse_eq (h : IsPlainType s) : collapse s = s := by
  obtain ⟨depth, hne, hdotted, hargs⟩ := h
  next name arguments =>
  have hname : ∀ c ∈ name, isBlank c = false := fun c hc => isBlank_of_isNameChar (hdotted c hc)
  have harrays : ∀ c ∈ arrays depth, isBlank c = false := by
    intro c hc
    rcases mem_arrays hc with rfl | rfl
    · decide
    · decide
  have hend : collapse (arrays depth) = arrays depth := by
    have := collapse_append_of_blankless harrays []
    rwa [collapse, List.append_nil] at this
  rw [List.append_assoc, collapse_append_of_blankless hname]
  apply congrArg (name ++ ·)
  cases hargs with
  | none => exact hend
  | @angled inner plain single =>
    have hinner : ∀ c ∈ inner, isBlank c = true → c = ' ' := fun c hc =>
      eq_space_of_isTypeChar
        (isTypeChar_of_mem_arguments (.angled plain single)
          (List.mem_cons_of_mem _ (List.mem_append_left _ hc)))
    rw [List.cons_append, List.append_assoc, List.singleton_append,
      collapse_cons_of_not_blank (by decide), collapse_append inner (stops_cons.mpr (by decide)),
      collapse_eq_self hinner single, collapse_cons_of_not_blank (by decide), hend]

/-- A comma of a plain type stands between its angle brackets. -/
theorem exists_comma (h : IsPlainType s) (hcomma : ',' ∈ s) :
    ∃ before behind, s = before ++ ',' :: behind ∧ ',' ∉ before ∧ '>' ∈ behind := by
  obtain ⟨depth, hne, hdotted, hargs⟩ := h
  next name arguments =>
  have hname : ',' ∉ name := not_mem_of_run hdotted (by decide)
  have harguments : ',' ∈ arguments := by
    rw [List.mem_append, List.mem_append] at hcomma
    rcases hcomma with (hmem | hmem) | hmem
    · exact absurd hmem hname
    · exact hmem
    · rcases mem_arrays hmem with he | he
      · cases he
      · cases he
  cases hargs with
  | none => cases harguments
  | @angled inner plain single =>
    have hinner : ',' ∈ inner := by
      rw [List.mem_cons, List.mem_append, List.mem_singleton] at harguments
      exact (harguments.resolve_left (by decide)).resolve_right (by decide)
    obtain ⟨a, b, rfl, ha⟩ := List.eq_append_cons_of_mem hinner
    refine ⟨name ++ '<' :: a, b ++ '>' :: arrays depth, by simp, ?_, by simp⟩
    rw [List.mem_append, List.mem_cons, not_or, not_or]
    exact ⟨hname, by decide, ha⟩

end IsPlainType

/-- The characters of a name with a plain type. -/
theorem isListChar_typed (hs : IsName s) (ht : IsPlainType t) :
    ∀ c ∈ s ++ ':' :: ' ' :: t, isListChar c = true := by
  intro c hc
  rw [List.mem_append, List.mem_cons, List.mem_cons] at hc
  rcases hc with hc | rfl | rfl | hc
  · exact isListChar_of_isTypeChar (isTypeChar_of_isWord (hs.word c hc))
  · decide
  · decide
  · exact isListChar_of_isTypeChar (ht.isTypeChar c hc)

theorem suffix_typed (s t : List Char) : t <:+ s ++ ':' :: ' ' :: t :=
  ((List.suffix_cons ' ' t).trans (List.suffix_cons ':' _)).trans (List.suffix_append s _)

end UmlDraft
