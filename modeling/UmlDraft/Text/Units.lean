/-!
# UTF-16 measure

Offsets into a text, and the order of file names, count UTF-16 code units: a character beyond
U+FFFF is two of them.
-/

namespace UmlDraft.Text

/-- The UTF-16 code units of one character, in order. -/
def codeUnits (c : Char) : List Nat :=
  if c.toNat < 0x10000 then [c.toNat]
  else [0xD800 + (c.toNat - 0x10000) / 0x400, 0xDC00 + (c.toNat - 0x10000) % 0x400]

/-- The number of UTF-16 code units of one character. -/
def width (c : Char) : Nat :=
  if c.toNat < 0x10000 then 1 else 2

theorem length_codeUnits (c : Char) : (codeUnits c).length = width c := by
  unfold codeUnits width
  split <;> rfl

theorem width_pos (c : Char) : 0 < width c := by
  unfold width
  split <;> decide

/-- The number of UTF-16 code units of a text. -/
def units : List Char → Nat
  | [] => 0
  | c :: rest => width c + units rest

@[simp] theorem units_nil : units [] = 0 := rfl

@[simp] theorem units_cons (c : Char) (s : List Char) : units (c :: s) = width c + units s := rfl

@[simp] theorem units_append (s t : List Char) : units (s ++ t) = units s + units t := by
  induction s with
  | nil => simp
  | cons c s ih => simp only [List.cons_append, units_cons, ih, Nat.add_assoc]

/-- Word order: the first number that differs decides, and a list comes before its own
continuations. -/
def lexLe : List Nat → List Nat → Bool
  | [], _ => true
  | _ :: _, [] => false
  | a :: s, b :: t => if a = b then lexLe s t else a < b

theorem lexLe_refl (s : List Nat) : lexLe s s = true := by
  induction s with
  | nil => rfl
  | cons a s ih => simpa [lexLe] using ih

theorem lexLe_total (s t : List Nat) : lexLe s t = true ∨ lexLe t s = true := by
  induction s generalizing t with
  | nil => exact .inl rfl
  | cons a s ih =>
    cases t with
    | nil => exact .inr rfl
    | cons b t =>
      unfold lexLe
      by_cases h : a = b
      · subst h
        simpa using ih t
      · rw [if_neg h, if_neg (Ne.symm h)]
        rcases Nat.lt_or_gt_of_ne h with hab | hba
        · exact .inl (by simpa using hab)
        · exact .inr (by simpa using hba)

/-- Text order by UTF-16 code units. -/
def unitsLe (s t : List Char) : Bool :=
  lexLe (s.flatMap codeUnits) (t.flatMap codeUnits)

end UmlDraft.Text
