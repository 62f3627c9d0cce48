import UmlDraft.Diagram.TypeToken
import UmlDraft.Proofs.Text.Trim

/-!
# The text of a type

The form of a type is stated without a reader: a dotted word, at most one text in angle brackets
that holds neither angle brackets nor parentheses, then `[]` any number of times. What the reader
takes off a text has this form, and a text of this form is read in full.
-/

namespace UmlDraft.TypeToken

open Text

variable {s t rest name arguments token : List Char}

/-- A type has no arguments, or a text in angle brackets without angle brackets and parentheses. -/
inductive IsArguments : List Char → Prop where
  /-- There are no arguments. -/
  | none : IsArguments []
  /-- The arguments stand between angle brackets. -/
  | angled {inner : List Char} (plain : ∀ c ∈ inner, isArgumentChar c = true) :
    IsArguments ('<' :: (inner ++ ['>']))

/-- The given number of `[]`. -/
def arrays : Nat → List Char
  | 0 => []
  | depth + 1 => '[' :: ']' :: arrays depth

/-- The text of a type. -/
inductive IsType : List Char → Prop where
  /-- A dotted word, its arguments, and arrays of it. -/
  | mk {name arguments : List Char} (depth : Nat) (ne_nil : name ≠ [])
    (dotted : ∀ c ∈ name, isNameChar c = true) (angled : IsArguments arguments) :
    IsType (name ++ arguments ++ arrays depth)

theorem readArrays_eq_arrays (s : List Char) : ∃ depth, (readArrays s).1 = arrays depth := by
  fun_induction readArrays s with
  | case1 rest ih =>
    obtain ⟨depth, h⟩ := ih
    exact ⟨depth + 1, by rw [h, arrays]⟩
  | case2 => exact ⟨0, rfl⟩

/-- No type goes on in the text. -/
def Ends (rest : List Char) : Prop :=
  ∀ c ∈ rest.head?, isNameChar c = false ∧ c ≠ '<' ∧ c ≠ '['

theorem ends_nil : Ends [] := by
  intro c hc
  cases hc

/-- Arrays are read in full where no bracket comes behind them. -/
theorem readArrays_append_of_ends (depth : Nat) (hr : Ends rest) :
    readArrays (arrays depth ++ rest) = (arrays depth, rest) := by
  induction depth with
  | zero =>
    unfold arrays readArrays
    split
    · next r he =>
      rw [List.nil_append] at he
      rw [he] at hr
      exact absurd rfl (hr '[' rfl).2.2
    · rfl
  | succ depth ih =>
    rw [arrays, List.cons_append, List.cons_append, readArrays, ih]

theorem isArguments_of_readArguments? (h : readArguments? s = some (arguments, rest)) :
    IsArguments arguments := by
  unfold readArguments? at h
  split at h
  · next r =>
    split at h
    · next after ha =>
      cases h
      exact .angled fun c hc => mem_takeWhile hc
    · cases h
  · cases h
    exact .none

/-- Arguments are read in full where no angle bracket comes behind none. -/
theorem readArguments?_append (h : IsArguments arguments) (hr : rest.head? ≠ some '<') :
    readArguments? (arguments ++ rest) = some (arguments, rest) := by
  cases h with
  | none =>
    unfold readArguments?
    split
    · next r he =>
      rw [List.nil_append] at he
      rw [he] at hr
      exact absurd rfl hr
    · rfl
  | @angled inner plain =>
    have hstop : Stops isArgumentChar ('>' :: rest) := stops_cons.mpr (by decide)
    rw [List.cons_append, List.append_assoc, List.singleton_append, readArguments?,
      dropWhile_run plain hstop, takeWhile_run plain hstop]
    rfl

theorem head?_arrays_append (depth : Nat) (hr : Ends rest) :
    (arrays depth ++ rest).head? ≠ some '<' := by
  cases depth with
  | zero => exact fun he => (hr '<' he).2.1 rfl
  | succ depth =>
    rw [arrays, List.cons_append, List.head?_cons]
    decide

theorem stops_isNameChar (h : IsArguments arguments) (depth : Nat) (hr : Ends rest) :
    Stops isNameChar (arguments ++ (arrays depth ++ rest)) := by
  cases h with
  | none =>
    cases depth with
    | zero => exact fun c hc => (hr c hc).1
    | succ depth => exact stops_cons.mpr (by decide)
  | angled => exact stops_cons.mpr (by decide)

/-- What is read has the form of a type. -/
theorem isType_of_read? (h : read? s = some (token, rest)) : IsType token := by
  unfold read? at h
  split at h
  · cases h
  · next hname =>
    split at h
    · cases h
    · next arguments r hr =>
      cases h
      obtain ⟨depth, hd⟩ := readArrays_eq_arrays r
      rw [hd]
      exact .mk depth hname (fun c hc => mem_takeWhile hc) (isArguments_of_readArguments? hr)

/-- A text that has the form of a type is read in full where no type goes on behind it. -/
theorem IsType.read?_append (h : IsType s) (hr : Ends rest) : read? (s ++ rest) = some (s, rest) := by
  obtain ⟨depth, hne, hdotted, hargs⟩ := h
  next name arguments =>
  have hstop := stops_isNameChar hargs depth hr
  have hargs' := readArguments?_append hargs (head?_arrays_append depth hr)
  rw [List.append_assoc, List.append_assoc, TypeToken.read?, takeWhile_run hdotted hstop,
    dropWhile_run hdotted hstop, if_neg hne, hargs']
  simp only [readArrays_append_of_ends depth hr, List.append_assoc]

/-- A text that has the form of a type is read in full. -/
theorem IsType.read? (h : IsType s) : read? s = some (s, []) := by
  have hread := h.read?_append ends_nil
  rwa [List.append_nil] at hread

theorem IsType.ne_nil (h : IsType s) : s ≠ [] := by
  obtain ⟨depth, hne, hdotted, hargs⟩ := h
  rw [List.append_assoc]
  exact List.append_ne_nil_of_left_ne_nil hne _

/-- A text is one type token exactly if it has the form of a type. -/
theorem isToken_iff : isToken s = true ↔ IsType s := by
  constructor
  · intro h
    unfold isToken at h
    split at h
    · next token hr =>
      rw [eq_of_read? hr, List.append_nil]
      exact isType_of_read? hr
    · cases h
  · intro h
    rw [isToken, h.read?]

theorem stops_reverse_arrays (depth : Nat) : Stops isBlank (arrays depth).reverse := by
  induction depth with
  | zero => exact stops_nil
  | succ depth ih =>
    rw [arrays, List.reverse_cons, List.reverse_cons, List.append_assoc]
    exact stops_append ih fun _ => stops_cons.mpr (by decide)

/-- A dotted word has no blank. -/
theorem isBlank_of_isNameChar {c : Char} (h : isNameChar c = true) : isBlank c = false := by
  rw [isNameChar, Bool.or_eq_true, beq_iff_eq] at h
  rcases h with h | rfl
  · exact isBlank_of_isWord h
  · decide

/-- Neither end of a type is blank. -/
theorem IsType.trim_eq (h : IsType s) : trim s = s := by
  obtain ⟨depth, hne, hdotted, hargs⟩ := h
  next name arguments =>
  rw [trim_eq_self_iff]
  constructor
  · rw [List.append_assoc]
    refine stops_append (fun c hc => ?_) (fun he => absurd he hne)
    exact isBlank_of_isNameChar (hdotted c (List.mem_of_mem_head? hc))
  · rw [List.reverse_append, List.reverse_append]
    refine stops_append (stops_reverse_arrays depth) fun _ => stops_append ?_ fun _ => ?_
    · cases hargs with
      | none => exact stops_nil
      | angled =>
        rw [← List.cons_append, List.reverse_append]
        exact stops_cons.mpr (by decide)
    · intro c hc
      exact isBlank_of_isNameChar (hdotted c (List.mem_reverse.mp (List.mem_of_mem_head? hc)))

end UmlDraft.TypeToken
