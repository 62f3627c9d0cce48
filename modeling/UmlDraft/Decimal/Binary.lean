import UmlDraft.Decimal.Basic

/-!
# Binary precision

Numbers that are computed with are kept in 64 bits: a mantissa of at most fifty-three bits and a
bounded power of two. Every decimal number stands for the nearest of these, a tie for the one whose
mantissa is even, and is shown by the fewest digits that stand for the same one. Main statement: what
is shown stands for the number that was read.
-/

namespace UmlDraft

/-- The number `mantissa · 2 ^ exponent`. -/
structure Binary where
  /-- The digits in base two. -/
  mantissa : Nat
  /-- The power of two. -/
  exponent : Int
  deriving DecidableEq, Repr

namespace Binary

/-- The bits of a mantissa. -/
def precision : Nat :=
  53

/-- The least power of two. -/
def leastExponent : Int :=
  -1074

/-- The greatest power of two. -/
def greatestExponent : Int :=
  971

/-- A number with more places than this before its point is too large; one with more zeros than
this behind it is no different from zero. -/
def farPlaces : Int :=
  400

/-- The whole number nearest to a quotient, the even one if there are two. -/
def nearestQuotient (a b : Nat) : Nat :=
  if 2 * (a % b) < b ∨ 2 * (a % b) = b ∧ a / b % 2 = 0 then a / b else a / b + 1

/-- A rounded quotient is at most half a unit away from the exact one. -/
theorem nearestQuotient_near (a : Nat) {b : Nat} (h : 0 < b) :
    2 * (nearestQuotient a b * b) ≤ 2 * a + b ∧ 2 * a ≤ 2 * (nearestQuotient a b * b) + b := by
  have hd : b * (a / b) + a % b = a := Nat.div_add_mod a b
  have hm : a % b < b := Nat.mod_lt a h
  have hs : (a / b + 1) * b = b * (a / b) + b := by rw [Nat.succ_mul, Nat.mul_comm]
  unfold nearestQuotient
  split
  · rw [Nat.mul_comm (a / b)]
    omega
  · rw [hs]
    omega

/-- A power of two, which is one for an exponent below zero. -/
def twoTo (e : Int) : Nat :=
  Nat.pow 2 e.toNat

/-- The number `m · 10 ^ e` as a multiple of `2 ^ q`, rounded. -/
def multiple (m : Nat) (e q : Int) : Nat :=
  nearestQuotient (m * Decimal.tenTo e * twoTo (-q)) (Decimal.tenTo (-e) * twoTo q)

/-- The exponent of a power of two of which a positive number is between `2 ^ 52` and `2 ^ 54`
multiples. -/
def scale (m : Nat) (e : Int) : Int :=
  (m * Decimal.tenTo e).log2 - (Decimal.tenTo (-e)).log2 - precision

/-- The binary number nearest to `m · 10 ^ e`, if that is not too large. It has the least power of
two for which its mantissa fits. -/
def ofDecimal? (m : Nat) (e : Int) : Option Binary :=
  let places : Int := (Nat.toDigits 10 m).length + e
  if m = 0 ∨ places < -farPlaces then some ⟨0, leastExponent⟩
  else if farPlaces < places then none
  else
    let q := max (scale m e) leastExponent
    match [q, q + 1, q + 2].find? fun q => multiple m e q < twoTo precision with
    | some q => if q ≤ greatestExponent then some ⟨multiple m e q, q⟩ else none
    | none => none

/-- The two multiples of `10 ^ g` around a binary number, the nearer one first. -/
def neighbours (x : Binary) (g : Int) : List Nat :=
  let a := x.mantissa * twoTo x.exponent * Decimal.tenTo (-g)
  let b := twoTo (-x.exponent) * Decimal.tenTo g
  if nearestQuotient a b = a / b then [a / b, a / b + 1] else [a / b + 1, a / b]

/-- The multiple of `10 ^ g` that stands for a binary number, the nearer one if there are two. -/
def multipleAt? (x : Binary) (g : Int) : Option Nat :=
  (neighbours x g).find? fun m => ofDecimal? m g = some x

/-- What is found stands for the number. -/
theorem ofDecimal?_of_multipleAt? {x : Binary} {g : Int} {m : Nat} (h : multipleAt? x g = some m) :
    ofDecimal? m g = some x := by
  have hp := List.find?_some h
  exact of_decide_eq_true hp

end Binary

namespace Decimal

/-- The powers of ten among which the shortest form is looked for, the greatest first. Seventeen
digits tell all binary numbers apart, and numbers too small to differ from zero need none. -/
def searched (d : Decimal) : List Int :=
  let places : Int := d.digits.length + d.exponent
  (List.range 19).map fun i : Nat => max places (-Binary.farPlaces) - i

/-- The digits and the power of ten of the shortest number that stands for the same binary number as
the given one, whose own digits do if none is shorter. -/
def shortestParts (d : Decimal) (x : Binary) : Nat × Int :=
  ((searched d).findSome? fun g => (x.multipleAt? g).map fun m => (m, g)).getD
    (d.mantissa.natAbs, d.exponent)

/-- The shortest number that stands for the same binary number, if the number is not too large. -/
def shortest? (d : Decimal) : Option Decimal :=
  (Binary.ofDecimal? d.mantissa.natAbs d.exponent).map fun x =>
    let (m, g) := shortestParts d x
    scaled (if d.mantissa < 0 then -m else m) g

/-- What is shown stands for the number that was read. -/
theorem ofDecimal?_shortestParts {d : Decimal} {x : Binary}
    (h : Binary.ofDecimal? d.mantissa.natAbs d.exponent = some x) :
    Binary.ofDecimal? (shortestParts d x).1 (shortestParts d x).2 = some x := by
  unfold shortestParts
  cases hf : (searched d).findSome? fun g => (x.multipleAt? g).map fun m => (m, g) with
  | none => exact h
  | some r =>
    obtain ⟨g, -, hg⟩ := List.exists_of_findSome?_eq_some hf
    obtain ⟨m, hm, rfl⟩ := Option.map_eq_some_iff.1 hg
    exact Binary.ofDecimal?_of_multipleAt? hm

/-- The word for a number that is too large. -/
def tooLarge : String :=
  "Infinity"

/-- The text of a number that is kept in binary precision. -/
def shown (d : Decimal) : String :=
  match d.shortest? with
  | some s => s.text
  | none => (if d.mantissa < 0 then "-" else "") ++ tooLarge

end Decimal

end UmlDraft
