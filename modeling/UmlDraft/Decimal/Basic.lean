/-!
# Decimal numbers

Exact decimal numbers in lowest terms, and their written form. A number is written positionally if
it has at most twenty-one places before the point and fewer than six zeros behind it; any other
number has one digit before the point and a signed power of ten. Main statement: a whole number of
at most twenty-one digits is written as these digits.
-/

namespace UmlDraft

/-- The number `mantissa · 10 ^ exponent`. In lowest terms each number has one such form. -/
structure Decimal where
  /-- The digits, with the sign of the number. -/
  mantissa : Int
  /-- The power of ten. -/
  exponent : Int
  /-- The digits do not end in a zero, unless the number is zero. -/
  reduced : mantissa % 10 ≠ 0 ∨ mantissa = 0 ∧ exponent = 0
  deriving DecidableEq, Repr

namespace Decimal

/-- The number `mantissa · 10 ^ exponent` in lowest terms. -/
def scaled (mantissa exponent : Int) : Decimal :=
  if hz : mantissa = 0 then ⟨0, 0, .inr ⟨rfl, rfl⟩⟩
  else if hr : mantissa % 10 = 0 then scaled (mantissa / 10) (exponent + 1)
  else ⟨mantissa, exponent, .inl hr⟩
termination_by mantissa.natAbs
decreasing_by omega

/-- A whole number. -/
def ofInt (n : Int) : Decimal :=
  scaled n 0

/-- A power of ten, which is one for an exponent below zero. -/
def tenTo (e : Int) : Nat :=
  Nat.pow 10 e.toNat

/-- The whole number that a number is. -/
def toInt? (d : Decimal) : Option Int :=
  if 0 ≤ d.exponent then some (d.mantissa * tenTo d.exponent) else none

/-! ### Written form -/

/-- The most places before the point of a number that is written positionally. -/
def mostPlaces : Int :=
  21

/-- A number below one is written positionally if it has fewer zeros than this behind the point. -/
def tooManyZeros : Int :=
  6

/-- Zeros. -/
def zeros (count : Int) : List Char :=
  .replicate count.toNat '0'

/-- A number without its sign: the point stands behind the given number of places. -/
def layout (digits : List Char) (places : Int) : List Char :=
  if digits.length ≤ places ∧ places ≤ mostPlaces then digits ++ zeros (places - digits.length)
  else if 0 < places ∧ places ≤ mostPlaces then
    digits.take places.toNat ++ '.' :: digits.drop places.toNat
  else if -tooManyZeros < places ∧ places ≤ 0 then '0' :: '.' :: zeros (-places) ++ digits
  else
    digits.take 1 ++ (if digits.length = 1 then [] else '.' :: digits.drop 1) ++
      'e' :: (if 0 < places then '+' else '-') :: Nat.toDigits 10 (places - 1).natAbs

/-- The digits of a number without its sign. -/
def digits (d : Decimal) : List Char :=
  Nat.toDigits 10 d.mantissa.natAbs

/-- The characters of a number. -/
def written (d : Decimal) : List Char :=
  (if d.mantissa < 0 then ['-'] else []) ++ layout d.digits (d.digits.length + d.exponent)

/-- The text of a number. -/
def text (d : Decimal) : String :=
  .ofList d.written

/-! ### Lowest terms -/

/-- A number in lowest terms stays as it is. -/
@[simp] theorem scaled_self (d : Decimal) : scaled d.mantissa d.exponent = d := by
  unfold scaled
  obtain ⟨m, e, hr | ⟨rfl, rfl⟩⟩ := d
  · have hz : m ≠ 0 := fun hz => hr (by rw [hz]; rfl)
    rw [dif_neg hz, dif_neg hr]
  · rfl

/-- Another zero behind the digits. -/
theorem toDigits_ten_mul {n : Nat} (h : 0 < n) :
    Nat.toDigits 10 (10 * n) = Nat.toDigits 10 n ++ ['0'] :=
  (Nat.toDigits_append_toDigits (d := 0) (by decide) h (by decide)).symm

/-- Reducing to lowest terms turns zeros at the end of the digits into a power of ten. -/
theorem digits_scaled {m : Int} (hm : m ≠ 0) (k : Nat) :
    ∃ e : Nat, (scaled m k).exponent = e ∧
      (scaled m k).digits ++ List.replicate e '0' =
        Nat.toDigits 10 m.natAbs ++ List.replicate k '0' := by
  unfold scaled
  rw [dif_neg hm]
  split
  · next hr =>
    obtain ⟨e, he, hd⟩ := digits_scaled (m := m / 10) (by omega) (k + 1)
    refine ⟨e, he, ?_⟩
    have h : m.natAbs = 10 * (m / 10).natAbs := by omega
    rw [h, toDigits_ten_mul (by omega), List.append_assoc]
    exact hd
  · exact ⟨k, rfl, rfl⟩
termination_by m.natAbs
decreasing_by omega

/-- Reducing to lowest terms keeps the sign. -/
theorem mantissa_scaled_neg_iff (m e : Int) : (scaled m e).mantissa < 0 ↔ m < 0 := by
  unfold scaled
  split
  · next hz => simp [hz]
  · split
    · rw [mantissa_scaled_neg_iff]
      omega
    · exact Iff.rfl
termination_by m.natAbs
decreasing_by omega

/-- Digits that fill their places are followed by zeros only. -/
theorem layout_eq_append {digits : List Char} {places : Int} (hd : digits.length ≤ places)
    (hp : places ≤ mostPlaces) : layout digits places = digits ++ zeros (places - digits.length) :=
  if_pos ⟨hd, hp⟩

/-- A whole number of at most twenty-one digits is written as these digits. -/
theorem written_ofInt {n : Int} (h : n.natAbs < tenTo mostPlaces) :
    (ofInt n).written = (if n < 0 then ['-'] else []) ++ Nat.toDigits 10 n.natAbs := by
  unfold written ofInt
  simp only [mantissa_scaled_neg_iff]
  congr 1
  by_cases hn : n = 0
  · subst hn
    decide +kernel
  · obtain ⟨e, he, hd⟩ := digits_scaled hn 0
    have hl : (Nat.toDigits 10 n.natAbs).length ≤ 21 :=
      (Nat.length_toDigits_le_iff (by decide) (by decide)).2 h
    rw [List.replicate_zero, List.append_nil, Int.natCast_zero] at hd
    rw [← hd, List.length_append, List.length_replicate] at hl
    rw [Int.natCast_zero] at he
    rw [he, layout_eq_append (by omega) (by unfold mostPlaces; omega), ← hd]
    congr 1
    unfold zeros
    congr 1
    omega

end Decimal

end UmlDraft
