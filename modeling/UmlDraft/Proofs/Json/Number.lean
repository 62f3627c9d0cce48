import Mathlib.Algebra.Group.Int.Defs
import Mathlib.Algebra.Group.Nat.Defs
import UmlDraft.Json.Parser
import UmlDraft.Proofs.Decimal

/-!
# Numbers in JSON text

A number is written as digits with zeros behind them, with a point inside or before its digits, or
with a power of ten. Each of these forms is read part by part, and what is read is the number in
another scale. Main statement: the text of a number is read back to the number, wherever nothing
follows that could belong to it.
-/

namespace UmlDraft

open Text

namespace Decimal

variable {c : Char}

/-- A number does not change if zeros are taken from its power of ten to its digits. -/
theorem scaled_mul_pow (m e : Int) (k : Nat) : scaled (m * 10 ^ k) (e - k) = scaled m e := by
  induction k with
  | zero => simp
  | succ k ih =>
    rw [← ih]
    by_cases hm : m * 10 ^ k = 0
    · -- Zero is written in one scale only.
      rw [Int.pow_succ, ← Int.mul_assoc, hm, Int.zero_mul]
      simp [scaled]
    · have hzero : m * 10 ^ (k + 1) ≠ 0 := by
        rw [Int.pow_succ, ← Int.mul_assoc]
        omega
      have hmod : m * 10 ^ (k + 1) % 10 = 0 := by
        rw [Int.pow_succ, ← Int.mul_assoc]
        omega
      have hdiv : m * 10 ^ (k + 1) / 10 = m * 10 ^ k := by
        rw [Int.pow_succ, ← Int.mul_assoc]
        omega
      have hscale : e - (k + 1 : Nat) + 1 = e - k := by omega
      rw [scaled, dif_neg hzero, dif_pos hmod, hdiv, hscale]

/-- The digits of a number above zero do not begin with a zero. -/
theorem head?_toDigits_ne {n : Nat} (h : 0 < n) : (Nat.toDigits 10 n).head? ≠ some '0' := by
  induction n using Nat.strongRecOn with
  | ind n ih =>
    have hdigit : ∀ k < 10, 0 < k → [k.digitChar].head? ≠ some '0' := by decide
    rw [Nat.toDigits_eq_if (by decide)]
    split
    · next hlt => exact hdigit n hlt h
    · rw [List.head?_append_of_ne_nil _ Nat.toDigits_ne_nil]
      exact ih (n / 10) (by omega) (by omega)

theorem isDigit_of_mem_zeros {count : Nat} (h : c ∈ zeros count) : c.isDigit = true := by
  rw [List.eq_of_mem_replicate h]
  rfl

/-- The characters of a number. -/
theorem mem_written {d : Decimal} (h : c ∈ d.written) :
    c.isDigit = true ∨ c ∈ ['-', '.', 'e', '+'] := by
  have hdigits : ∀ c ∈ d.digits, c.isDigit = true := fun _ => isDigit_of_mem_digits
  rw [written, List.mem_append] at h
  rcases h with h | h
  · split at h
    · exact .inr (by simp [List.mem_singleton.mp h])
    · cases h
  · unfold layout at h
    split at h
    · rcases List.mem_append.mp h with h | h
      · exact .inl (hdigits c h)
      · exact .inl (isDigit_of_mem_zeros h)
    · split at h
      · rcases List.mem_append.mp h with h | h
        · exact .inl (hdigits c (List.mem_of_mem_take h))
        · rcases List.mem_cons.mp h with rfl | h
          · exact .inr (by simp)
          · exact .inl (hdigits c (List.mem_of_mem_drop h))
      · split at h
        · rcases List.mem_append.mp h with h | h
          · rcases List.mem_cons.mp h with rfl | h
            · exact .inl rfl
            · rcases List.mem_cons.mp h with rfl | h
              · exact .inr (by simp)
              · exact .inl (isDigit_of_mem_zeros h)
          · exact .inl (hdigits c h)
        · rcases List.mem_append.mp h with h | h
          · rcases mem_pointed h with h | rfl
            · exact .inl (hdigits c h)
            · exact .inr (by simp)
          · rcases List.mem_cons.mp h with rfl | h
            · exact .inr (by simp)
            · rcases List.mem_cons.mp h with rfl | h
              · right
                split
                · simp
                · simp
              · exact .inl (Nat.isDigit_of_mem_toDigits (by decide) (by decide) h)

end Decimal

namespace Json

variable {run whole fraction digits rest s : List Char} {d : Decimal}

/-- The characters that a number may go on with. -/
def isNumberChar (c : Char) : Bool :=
  c.isDigit || c == '.' || c == 'e' || c == 'E'

theorem stops_digit (h : Stops isNumberChar rest) : Stops Char.isDigit rest :=
  h.mono fun c hc => by simp [isNumberChar, hc]

/-- The digits before the point: no zero stands before others. -/
structure IsWhole (run : List Char) : Prop where
  /-- There is a digit. -/
  ne_nil : run ≠ []
  /-- There are only digits. -/
  digits : ∀ c ∈ run, c.isDigit = true
  /-- A zero stands alone. -/
  lead : run.head? = some '0' → run = ['0']

theorem readDigits_run (hrun : ∀ c ∈ run, c.isDigit = true) (hrest : Stops Char.isDigit rest) :
    readDigits (run ++ rest) = (run, rest) := by
  rw [readDigits, takeWhile_run hrun hrest, dropWhile_run hrun hrest]

theorem readWhole?_run (h : IsWhole run) (hrest : Stops Char.isDigit rest) :
    readWhole? (run ++ rest) = some (run, rest) := by
  unfold readWhole?
  split
  · next after heq =>
    have hhead : run.head? = some '0' := by
      rw [← List.head?_append_of_ne_nil run h.ne_nil, heq]
      rfl
    rw [h.lead hhead] at heq ⊢
    rw [List.singleton_append, List.cons.injEq] at heq
    rw [heq.2]
  · rw [readDigits_run h.digits hrest, if_neg h.ne_nil]

theorem readFraction?_run (hne : run ≠ []) (hrun : ∀ c ∈ run, c.isDigit = true)
    (hrest : Stops Char.isDigit rest) :
    readFraction? ('.' :: (run ++ rest)) = some (run, rest) := by
  rw [readFraction?, readDigits_run hrun hrest, if_neg hne]

theorem readFraction?_of_stops (h : Stops (· == '.') s) : readFraction? s = some ([], s) := by
  unfold readFraction?
  split
  · simp at h
  · rfl

theorem readExponent?_of_stops (he : Stops (· == 'e') s) (hE : Stops (· == 'E') s) :
    readExponent? s = some (0, s) := by
  unfold readExponent?
  split
  · simp at he
  · simp at hE
  · rfl

theorem ofDigits_toDigits (n : Nat) : ofDigits (Nat.toDigits 10 n) = n :=
  Nat.ofDigitChars_ten_toDigits

/-- The power of ten is one less than the number of places. -/
theorem readExponent?_places (places : Int) (hrest : Stops Char.isDigit rest) :
    readExponent? ('e' :: (if 0 < places then '+' else '-') ::
      (Nat.toDigits 10 (places - 1).natAbs ++ rest)) = some (places - 1, rest) := by
  have hdigits : ∀ c ∈ Nat.toDigits 10 (places - 1).natAbs, c.isDigit = true := fun _ =>
    Nat.isDigit_of_mem_toDigits (by decide) (by decide)
  have hread := readDigits_run hdigits hrest
  by_cases h : 0 < places
  · have hpower : ((places - 1).natAbs : Int) = places - 1 := by omega
    rw [if_pos h]
    simp [readExponent?, readPower?, hread, Nat.toDigits_ne_nil, ofDigits_toDigits, hpower]
  · have hpower : -((places - 1).natAbs : Int) = places - 1 := by omega
    rw [if_neg h]
    simp only [readExponent?, readPower?, hread, Nat.toDigits_ne_nil, ofDigits_toDigits, if_false,
      if_true, hpower]

/-- A number without its sign is read part by part. -/
theorem readUnsigned?_of_parts {s₁ s₂ : List Char} {power : Int}
    (hwhole : readWhole? s = some (whole, s₁)) (hfraction : readFraction? s₁ = some (fraction, s₂))
    (hpower : readExponent? s₂ = some (power, rest)) :
    readUnsigned? s = some ((ofDigits (whole ++ fraction), power - fraction.length), rest) := by
  simp only [readUnsigned?, hwhole, hfraction, hpower, Option.bind_eq_bind, Option.bind_some]

theorem ofDigits_append_zeros (digits : List Char) (k : Nat) :
    ofDigits (digits ++ List.replicate k '0') = ofDigits digits * 10 ^ k := by
  have happend : ofDigits (digits ++ List.replicate k '0') =
      Nat.ofDigitChars 10 (List.replicate k '0') (ofDigits digits) :=
    Nat.ofDigitChars_append 0
  rw [happend, Nat.ofDigitChars_replicate_zero, Nat.mul_comm]

theorem ofDigits_zeros_append (k : Nat) (digits : List Char) :
    ofDigits (List.replicate k '0' ++ digits) = ofDigits digits := by
  have happend : ofDigits (List.replicate k '0' ++ digits) =
      Nat.ofDigitChars 10 digits (Nat.ofDigitChars 10 (List.replicate k '0') 0) :=
    Nat.ofDigitChars_append 0
  rw [happend, Nat.ofDigitChars_replicate_zero, Nat.mul_zero]
  rfl

/-! ### The forms of a number -/

section Forms

variable (hrest : Stops isNumberChar rest)
include hrest

theorem readExponent?_rest : readExponent? rest = some (0, rest) :=
  readExponent?_of_stops (hrest.mono fun c hc => by simp_all [isNumberChar])
    (hrest.mono fun c hc => by simp_all [isNumberChar])

/-- A number without a point. -/
theorem readUnsigned?_whole (h : IsWhole whole) :
    readUnsigned? (whole ++ rest) = some ((ofDigits whole, 0), rest) := by
  have hpoint : Stops (· == '.') rest := hrest.mono fun c hc => by simp_all [isNumberChar]
  have hparts := readUnsigned?_of_parts (readWhole?_run h (stops_digit hrest))
    (readFraction?_of_stops hpoint) (readExponent?_rest hrest)
  simpa using hparts

/-- A number with a point. -/
theorem readUnsigned?_point (h : IsWhole whole) (hne : fraction ≠ [])
    (hfraction : ∀ c ∈ fraction, c.isDigit = true) :
    readUnsigned? (whole ++ '.' :: (fraction ++ rest)) =
      some ((ofDigits (whole ++ fraction), -(fraction.length : Int)), rest) := by
  have hparts := readUnsigned?_of_parts (readWhole?_run h (by simp))
    (readFraction?_run hne hfraction (stops_digit hrest)) (readExponent?_rest hrest)
  simpa using hparts

/-- A number with a power of ten. -/
theorem readUnsigned?_power (hne : digits ≠ []) (hdigits : ∀ c ∈ digits, c.isDigit = true)
    (places : Int) :
    readUnsigned? (Decimal.pointed digits ++ 'e' :: (if 0 < places then '+' else '-') ::
        (Nat.toDigits 10 (places - 1).natAbs ++ rest)) =
      some ((ofDigits digits, places - digits.length), rest) := by
  obtain ⟨c, more, rfl⟩ := List.exists_cons_of_ne_nil hne
  obtain ⟨hc, hmore⟩ := List.forall_mem_cons.mp hdigits
  have hwhole : IsWhole [c] := ⟨by simp, by simpa using hc, by simp⟩
  have hpower := readExponent?_places places (stops_digit hrest)
  have hcount : places - 1 - more.length = places - (c :: more).length := by
    rw [List.length_cons]
    omega
  cases more with
  | nil =>
    have hparts := readUnsigned?_of_parts (readWhole?_run hwhole (by simp))
      (readFraction?_of_stops (by simp)) hpower
    rw [hcount] at hparts
    exact hparts
  | cons c' more =>
    have hparts := readUnsigned?_of_parts (readWhole?_run hwhole (by simp))
      (readFraction?_run (by simp) hmore (by simp)) hpower
    rw [hcount] at hparts
    exact hparts

end Forms

/-- The digits of a number before its point. -/
theorem isWhole_digits (d : Decimal) : IsWhole d.digits := by
  refine ⟨Nat.toDigits_ne_nil, fun _ => Decimal.isDigit_of_mem_digits, fun hhead => ?_⟩
  by_cases hm : d.mantissa.natAbs = 0
  · rw [Decimal.digits, hm, Nat.toDigits_zero]
  · exact absurd hhead (Decimal.head?_toDigits_ne (by omega))

/-- The digits of a number that has more than one, or more than one place. -/
theorem head?_digits_ne (d : Decimal) (h : d.exponent ≠ 0 ∨ d.digits.length ≠ 1) :
    d.digits.head? ≠ some '0' := by
  refine Decimal.head?_toDigits_ne (Nat.pos_of_ne_zero fun hm => ?_)
  rcases h with h | h
  · exact d.reduced.elim (fun hne => hne (by omega)) fun hzero => h hzero.2
  · exact h (by rw [Decimal.digits, hm, Nat.toDigits_zero]; rfl)

/-- With the zeros behind them the digits stand before the point as well. -/
theorem isWhole_digits_zeros (d : Decimal) :
    IsWhole (d.digits ++ List.replicate d.exponent.toNat '0') := by
  have hdigits := isWhole_digits d
  refine ⟨by simp [hdigits.ne_nil], fun c hc => ?_, fun hhead => ?_⟩
  · rcases List.mem_append.mp hc with hc | hc
    · exact hdigits.digits c hc
    · exact Decimal.isDigit_of_mem_zeros hc
  · rw [List.head?_append_of_ne_nil _ hdigits.ne_nil] at hhead
    have hexponent : d.exponent = 0 := by
      by_contra hne
      exact head?_digits_ne d (.inl hne) hhead
    rw [hdigits.lead hhead, hexponent]
    rfl

/-- So do some of the digits, but not all. -/
theorem isWhole_take_digits (d : Decimal) {p : Nat} (hp : 0 < p) (hlength : p < d.digits.length) :
    IsWhole (d.digits.take p) := by
  refine ⟨List.ne_nil_of_length_pos (by rw [List.length_take]; omega),
    fun c hc => (isWhole_digits d).digits c (List.mem_of_mem_take hc), fun hhead => ?_⟩
  rw [List.head?_take, if_neg (by omega)] at hhead
  exact absurd hhead (head?_digits_ne d (.inr (by omega)))

/-- A number without its sign is read as the same number in another scale. -/
theorem readUnsigned?_layout (d : Decimal) (hrest : Stops isNumberChar rest) :
    ∃ k : Nat,
      readUnsigned? (Decimal.layout d.digits (d.digits.length + d.exponent) ++ rest) =
        some ((d.mantissa.natAbs * 10 ^ k, d.exponent - k), rest) := by
  have hdigits := isWhole_digits d
  have hvalue : ofDigits d.digits = d.mantissa.natAbs := ofDigits_toDigits _
  unfold Decimal.layout
  split
  · next h =>
    -- The digits fill their places, and zeros stand behind them.
    have hcount : (d.digits.length + d.exponent - d.digits.length : Int).toNat =
        d.exponent.toNat := by omega
    have hexponent : d.exponent - d.exponent.toNat = 0 := by omega
    refine ⟨d.exponent.toNat, ?_⟩
    rw [Decimal.zeros, hcount, readUnsigned?_whole hrest (isWhole_digits_zeros d),
      ofDigits_append_zeros, hvalue, hexponent]
  · refine ⟨0, ?_⟩
    rw [Nat.pow_zero, Nat.mul_one, Int.natCast_zero, Int.sub_zero, ← hvalue]
    split
    · next hfill h =>
      -- The point stands inside the digits.
      have hmost : Decimal.mostPlaces = 21 := rfl
      generalize hp : (d.digits.length + d.exponent : Int).toNat = p
      have hne : d.digits.drop p ≠ [] :=
        List.ne_nil_of_length_pos (by rw [List.length_drop]; omega)
      have hexponent : -((d.digits.drop p).length : Int) = d.exponent := by
        rw [List.length_drop]
        omega
      rw [List.append_assoc, List.cons_append, readUnsigned?_point hrest
        (isWhole_take_digits d (by omega) (by omega)) hne
        fun c hc => hdigits.digits c (List.mem_of_mem_drop hc), List.take_append_drop, hexponent]
    · split
      · next h =>
        -- The point stands before the digits, perhaps with zeros between.
        generalize hk : (-(d.digits.length + d.exponent) : Int).toNat = k
        have hzero : IsWhole ['0'] := ⟨by simp, by simp, fun _ => rfl⟩
        have hfraction : ∀ c ∈ List.replicate k '0' ++ d.digits, c.isDigit = true :=
          List.forall_mem_append.mpr ⟨fun _ => Decimal.isDigit_of_mem_zeros, hdigits.digits⟩
        have hpoint := readUnsigned?_point hrest hzero (by simp [hdigits.ne_nil]) hfraction
        have hexponent : -((List.replicate k '0' ++ d.digits).length : Int) = d.exponent := by
          rw [List.length_append, List.length_replicate]
          omega
        rw [hexponent, ← List.replicate_one, ← List.append_assoc, List.replicate_append_replicate,
          ofDigits_zeros_append] at hpoint
        rw [Decimal.zeros, hk, ← hpoint]
        simp [List.append_assoc]
      · next h =>
        -- The digits have a power of ten.
        have hpower := readUnsigned?_power hrest hdigits.ne_nil hdigits.digits
          (d.digits.length + d.exponent)
        have hexponent : (d.digits.length + d.exponent - d.digits.length : Int) = d.exponent := by
          omega
        rw [hexponent] at hpower
        rw [← hpower, Decimal.pointed]
        simp [List.append_assoc]

/-- A sign is not part of an unsigned number. -/
theorem readUnsigned?_dash (s : List Char) : readUnsigned? ('-' :: s) = none := by
  rfl

/-- The text of a number is read back to the number. -/
theorem readNumber?_written (d : Decimal) (hrest : Stops isNumberChar rest) :
    readNumber? (d.written ++ rest) = some (.number d, rest) := by
  obtain ⟨k, hread⟩ := readUnsigned?_layout d hrest
  unfold Decimal.written
  by_cases hm : d.mantissa < 0
  · have hsign : -((d.mantissa.natAbs * 10 ^ k : Nat) : Int) = d.mantissa * 10 ^ k := by
      rw [Int.natCast_mul, Int.natCast_pow, ← Int.neg_mul]
      congr 1
      omega
    rw [if_pos hm, List.singleton_append, List.cons_append, readNumber?, hread, Option.map_some]
    dsimp only
    rw [hsign, Decimal.scaled_mul_pow, Decimal.scaled_self]
  · have hsign : ((d.mantissa.natAbs * 10 ^ k : Nat) : Int) = d.mantissa * 10 ^ k := by
      rw [Int.natCast_mul, Int.natCast_pow]
      congr 1
      omega
    rw [if_neg hm, List.nil_append]
    unfold readNumber?
    split
    · next rest' heq =>
      rw [heq, readUnsigned?_dash] at hread
      cases hread
    · rw [hread, Option.map_some]
      dsimp only
      rw [hsign, Decimal.scaled_mul_pow, Decimal.scaled_self]

end Json

end UmlDraft
