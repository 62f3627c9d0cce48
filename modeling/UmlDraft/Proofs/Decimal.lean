import Mathlib.Data.List.Basic
import UmlDraft.Decimal.Basic
import UmlDraft.Proofs.Text.Runs

/-!
# The text of a whole number

A whole number in lowest terms is its digits without the zeros at the end, and a power of ten. It is
written with these zeros as long as it has few places, and else with its power of ten. Either way
the text shows which form was chosen and holds every digit, so that it determines the number.
-/

namespace UmlDraft.Decimal

open Text

variable {digits : List Char} {c : Char}

/-- Numbers with the same digits are equal. -/
theorem toDigits_inj {m n : Nat} (h : Nat.toDigits 10 m = Nat.toDigits 10 n) : m = n :=
  calc
    m = Nat.ofDigitChars 10 (Nat.toDigits 10 m) 0 := Nat.ofDigitChars_ten_toDigits.symm
    _ = Nat.ofDigitChars 10 (Nat.toDigits 10 n) 0 := by rw [h]
    _ = n := Nat.ofDigitChars_ten_toDigits

/-- The digits of a whole number, with the zeros that lowest terms take off. -/
theorem digits_ofInt (n : Int) : ∃ e : Nat, (ofInt n).exponent = e ∧
    (ofInt n).digits ++ List.replicate e '0' = Nat.toDigits 10 n.natAbs := by
  by_cases hn : n = 0
  · subst hn
    refine ⟨0, ?_, ?_⟩
    · decide +kernel
    · decide +kernel
  · obtain ⟨e, he, hd⟩ := digits_scaled hn 0
    rw [List.replicate_zero, List.append_nil] at hd
    exact ⟨e, he, hd⟩

theorem isDigit_of_mem_digits {d : Decimal} (h : c ∈ d.digits) : c.isDigit = true :=
  Nat.isDigit_of_mem_toDigits (by decide) (by decide) h

/-- A whole number of few places is written with its zeros. -/
theorem layout_eq_zeros {e : Nat} (h : (digits.length + e : Int) ≤ mostPlaces) :
    layout digits (digits.length + e) = digits ++ List.replicate e '0' := by
  have hcount : (digits.length + e - digits.length : Int).toNat = e := by omega
  rw [layout_eq_append (by omega) h, zeros, hcount]

/-- The digits of a number with a power of ten, with the point behind the first of them. -/
def pointed (digits : List Char) : List Char :=
  digits.take 1 ++ (if digits.length = 1 then [] else '.' :: digits.drop 1)

/-- A number of many places is written with a power of ten. -/
theorem layout_eq_pointed {places : Int} (h : mostPlaces < places) :
    layout digits places =
      pointed digits ++ 'e' :: '+' :: Nat.toDigits 10 (places - 1).natAbs := by
  have hpos : 0 < places := Int.lt_trans (by decide) h
  rw [layout, if_neg fun hc => absurd hc.2 (Int.not_le.mpr h),
    if_neg fun hc => absurd hc.2 (Int.not_le.mpr h),
    if_neg fun hc => absurd hc.2 (Int.not_le.mpr hpos), if_pos hpos, pointed]

theorem mem_pointed (h : c ∈ pointed digits) : c ∈ digits ∨ c = '.' := by
  rcases List.mem_append.mp h with h | h
  · exact .inl (List.mem_of_mem_take h)
  · split at h
    · cases h
    · rcases List.mem_cons.mp h with rfl | h
      · exact .inr rfl
      · exact .inl (List.mem_of_mem_drop h)

/-- Without its point a number with a power of ten has its digits. -/
theorem filter_pointed (hd : ∀ c ∈ digits, c.isDigit = true) :
    (pointed digits).filter (· != '.') = digits := by
  have hkeep : ∀ {l : List Char}, l ⊆ digits → l.filter (· != '.') = l := by
    intro l hl
    rw [List.filter_eq_self]
    intro c hc
    rw [bne_iff_ne]
    rintro rfl
    exact absurd (hd '.' (hl hc)) (by decide)
  rw [pointed, List.filter_append, hkeep (List.take_subset 1 digits)]
  split
  · next hone => rw [List.filter_nil, List.append_nil, List.take_of_length_le (Nat.le_of_eq hone)]
  · rw [List.filter_cons, if_neg (by simp), hkeep (List.drop_subset 1 digits),
      List.take_append_drop]

/-- The characters of a whole number without its sign. -/
theorem mem_layout {e : Nat} (hd : ∀ c ∈ digits, c.isDigit = true)
    (h : c ∈ layout digits (digits.length + e)) :
    c.isDigit = true ∨ c ∈ ['.', 'e', '+'] := by
  by_cases hp : (digits.length + e : Int) ≤ mostPlaces
  · rw [layout_eq_zeros hp, List.mem_append] at h
    rcases h with h | h
    · exact .inl (hd c h)
    · rw [List.eq_of_mem_replicate h]
      exact .inl rfl
  · rw [layout_eq_pointed (Int.not_le.mp hp), List.mem_append, List.mem_cons, List.mem_cons] at h
    rcases h with h | rfl | rfl | h
    · rcases mem_pointed h with h | rfl
      · exact .inl (hd c h)
      · exact .inr (by simp)
    · exact .inr (by simp)
    · exact .inr (by simp)
    · exact .inl (Nat.isDigit_of_mem_toDigits (by decide) (by decide) h)

/-- A whole number without its sign shows its digits and its zeros. -/
theorem layout_inj {digits' : List Char} {e e' : Nat} (hd : ∀ c ∈ digits, c.isDigit = true)
    (hd' : ∀ c ∈ digits', c.isDigit = true)
    (h : layout digits (digits.length + e) = layout digits' (digits'.length + e')) :
    digits ++ List.replicate e '0' = digits' ++ List.replicate e' '0' := by
  have hno : ∀ {l : List Char} {k : Nat}, (∀ c ∈ l, c.isDigit = true) →
      'e' ∉ l ++ List.replicate k '0' := by
    intro l k hl he
    rcases List.mem_append.mp he with he | he
    · exact absurd (hl 'e' he) (by decide)
    · exact absurd (List.eq_of_mem_replicate he) (by decide)
  have hmark : ∀ {l : List Char}, (∀ c ∈ l, c.isDigit = true) → 'e' ∉ pointed l := by
    intro l hl he
    rcases mem_pointed he with he | he
    · exact absurd (hl 'e' he) (by decide)
    · exact absurd he (by decide)
  by_cases hp : (digits.length + e : Int) ≤ mostPlaces
  · rw [layout_eq_zeros hp] at h
    by_cases hp' : (digits'.length + e' : Int) ≤ mostPlaces
    · rw [layout_eq_zeros hp'] at h
      exact h
    · rw [layout_eq_pointed (Int.not_le.mp hp')] at h
      exact absurd (h ▸ List.mem_append_right _ List.mem_cons_self) (hno hd)
  · rw [layout_eq_pointed (Int.not_le.mp hp)] at h
    by_cases hp' : (digits'.length + e' : Int) ≤ mostPlaces
    · rw [layout_eq_zeros hp'] at h
      exact absurd (h ▸ List.mem_append_right _ List.mem_cons_self) (hno hd')
    · rw [layout_eq_pointed (Int.not_le.mp hp')] at h
      obtain ⟨hpointed, hpower⟩ := split_first h (hmark hd) (hmark hd')
      have hdigits : digits = digits' := by
        rw [← filter_pointed hd, hpointed, filter_pointed hd']
      have hplaces := toDigits_inj (List.cons.inj hpower).2
      have hmost : mostPlaces = 21 := rfl
      have he : e = e' := by
        rw [hdigits] at hplaces hp
        omega
      rw [hdigits, he]

/-- The characters of a whole number. -/
theorem mem_written_ofInt {n : Int} (h : c ∈ (ofInt n).written) :
    c.isDigit = true ∨ c ∈ ['-', '.', 'e', '+'] := by
  obtain ⟨e, he, -⟩ := digits_ofInt n
  rw [written, he] at h
  rcases List.mem_append.mp h with h | h
  · split at h
    · exact .inr (List.mem_singleton.mp h ▸ List.mem_cons_self)
    · cases h
  · exact (mem_layout (fun _ => isDigit_of_mem_digits) h).imp_right (List.mem_cons_of_mem '-')

/-- The text of a whole number determines it. -/
theorem written_ofInt_inj {m n : Int} (h : (ofInt m).written = (ofInt n).written) : m = n := by
  obtain ⟨e, he, hm⟩ := digits_ofInt m
  obtain ⟨e', he', hn⟩ := digits_ofInt n
  have hsign : ∀ (k : Int) (x : Nat),
      '-' ∉ layout (scaled k 0).digits ((scaled k 0).digits.length + x) := by
    intro k x hmem
    rcases mem_layout (fun _ => isDigit_of_mem_digits) hmem with h | h
    · exact absurd h (by decide)
    · exact absurd h (by decide)
  have habs : layout (ofInt m).digits ((ofInt m).digits.length + e) =
        layout (ofInt n).digits ((ofInt n).digits.length + e') →
      m.natAbs = n.natAbs := by
    intro hl
    have := layout_inj (fun _ => isDigit_of_mem_digits) (fun _ => isDigit_of_mem_digits) hl
    rw [hm, hn] at this
    exact toDigits_inj this
  rw [written, written, he, he', ofInt, ofInt] at h
  simp only [mantissa_scaled_neg_iff] at h
  split at h
  · split at h
    · have := habs (List.cons.inj h).2
      omega
    · rw [List.nil_append] at h
      exact absurd (h ▸ List.mem_append_left _ (List.mem_singleton_self '-')) (hsign n e')
  · split at h
    · rw [List.nil_append] at h
      exact absurd (h ▸ List.mem_append_left _ (List.mem_singleton_self '-')) (hsign m e)
    · have := habs h
      omega

end UmlDraft.Decimal
