/-!
# UTF-8

Text as bytes and back. Encoding is the standard's. Decoding never fails: a byte that cannot
continue the sequence before it ends that sequence, and each such broken sequence, taken as long as
possible, reads as one replacement character U+FFFD. Main statement: what was encoded decodes to
itself.
-/

namespace UmlDraft.Text.Utf8

/-- The bytes of one character. -/
def encodeChar (c : Char) : List UInt8 :=
  let n := c.toNat
  if n < 0x80 then [.ofNat n]
  else if n < 0x800 then [.ofNat (0xC0 + n / 64), .ofNat (0x80 + n % 64)]
  else if n < 0x10000 then
    [.ofNat (0xE0 + n / 4096), .ofNat (0x80 + n / 64 % 64), .ofNat (0x80 + n % 64)]
  else
    [.ofNat (0xF0 + n / 262144), .ofNat (0x80 + n / 4096 % 64), .ofNat (0x80 + n / 64 % 64),
      .ofNat (0x80 + n % 64)]

/-- The bytes of a text. -/
def encode (s : List Char) : List UInt8 :=
  s.flatMap encodeChar

/-- A sequence that has begun: the bits read so far, how many bytes are owed, and the span in which
the next one must lie. -/
structure Open where
  /-- The bits read so far. -/
  value : Nat
  /-- How many more bytes the sequence needs after the next one. -/
  owed : Nat
  /-- The least byte that may come next. -/
  low : Nat
  /-- The greatest byte that may come next. -/
  high : Nat
  deriving DecidableEq, Repr

/-- The sequence that a byte begins, if it begins one of several bytes. -/
def begin? (b : Nat) : Option Open :=
  if 0xC2 ≤ b ∧ b ≤ 0xDF then some ⟨b - 0xC0, 0, 0x80, 0xBF⟩
  else if b = 0xE0 then some ⟨0, 1, 0xA0, 0xBF⟩
  else if b = 0xED then some ⟨0xD, 1, 0x80, 0x9F⟩
  else if 0xE1 ≤ b ∧ b ≤ 0xEF then some ⟨b - 0xE0, 1, 0x80, 0xBF⟩
  else if b = 0xF0 then some ⟨0, 2, 0x90, 0xBF⟩
  else if 0xF1 ≤ b ∧ b ≤ 0xF3 then some ⟨b - 0xF0, 2, 0x80, 0xBF⟩
  else if b = 0xF4 then some ⟨4, 2, 0x80, 0x8F⟩
  else none

/-- Reads a byte between characters. -/
def first (b : Nat) : List Char × Option Open :=
  if b < 0x80 then ([.ofNat b], none)
  else
    match begin? b with
    | some o => ([], some o)
    | none => (['\ufffd'], none)

/-- Reads a byte: the characters it completes and the sequence it leaves open. -/
def step (state : Option Open) (b : Nat) : List Char × Option Open :=
  match state with
  | none => first b
  | some o =>
    if o.low ≤ b ∧ b ≤ o.high then
      let value := o.value * 64 + b % 64
      match o.owed with
      | 0 => ([.ofNat value], none)
      | owed + 1 => ([], some ⟨value, owed, 0x80, 0xBF⟩)
    else ('\ufffd' :: (first b).1, (first b).2)

/-- Decodes the rest of a text in which a sequence may be open. -/
def decodeFrom (state : Option Open) : List UInt8 → List Char
  | [] => if state.isSome then ['\ufffd'] else []
  | b :: rest => (step state b.toNat).1 ++ decodeFrom (step state b.toNat).2 rest

/-- The text of a byte sequence. -/
def decode (bytes : List UInt8) : List Char :=
  decodeFrom none bytes

@[simp] theorem decode_nil : decode [] = [] := rfl

@[simp] theorem encode_nil : encode [] = [] := rfl

@[simp] theorem encode_cons (c : Char) (s : List Char) :
    encode (c :: s) = encodeChar c ++ encode s := by
  simp [encode]

private theorem toNat_byte {n : Nat} (h : n < 256) : (UInt8.ofNat n).toNat = n := by
  rw [UInt8.toNat_ofNat', Nat.mod_eq_of_lt h]

private theorem step_last {o : Open} {b n : Nat} (h : o.low ≤ b ∧ b ≤ o.high)
    (ho : o.owed = 0) (hn : o.value * 64 + b % 64 = n) :
    step (some o) b = ([.ofNat n], none) := by
  obtain ⟨value, owed, low, high⟩ := o
  subst ho hn
  simp only [step]
  rw [if_pos h]

private theorem step_more {o : Open} {b k n : Nat} (h : o.low ≤ b ∧ b ≤ o.high)
    (ho : o.owed = k + 1) (hn : o.value * 64 + b % 64 = n) :
    step (some o) b = ([], some ⟨n, k, 0x80, 0xBF⟩) := by
  obtain ⟨value, owed, low, high⟩ := o
  subst ho hn
  simp only [step]
  rw [if_pos h]

/-- Between characters, the bytes of a character read as that character. -/
theorem decodeFrom_encodeChar (c : Char) (rest : List UInt8) :
    decodeFrom none (encodeChar c ++ rest) = c :: decodeFrom none rest := by
  have hv : c.toNat < 0xD800 ∨ (0xDFFF < c.toNat ∧ c.toNat < 0x110000) := c.valid
  have hc : Char.ofNat c.toNat = c := Char.ofNat_toNat c
  unfold encodeChar
  generalize c.toNat = n at hv hc
  by_cases h1 : n < 0x80
  · simp only [if_pos h1, List.cons_append, List.nil_append, decodeFrom]
    rw [toNat_byte (by omega)]
    simp only [step, first, if_pos h1, List.cons_append, List.nil_append, hc]
  by_cases h2 : n < 0x800
  · simp only [if_neg h1, if_pos h2, List.cons_append, List.nil_append, decodeFrom]
    rw [toNat_byte (by omega), toNat_byte (by omega)]
    have hs : step none (0xC0 + n / 64) = ([], some ⟨n / 64, 0, 0x80, 0xBF⟩) := by
      have : 0xC0 + n / 64 - 0xC0 = n / 64 := by omega
      simp only [step, first, begin?]
      rw [if_neg (by omega), if_pos (by omega), this]
    rw [hs]
    simp only [List.nil_append]
    rw [step_last (n := n) (by simp only; omega) rfl (by simp only; omega), hc]
    rfl
  by_cases h3 : n < 0x10000
  · simp only [if_neg h1, if_neg h2, if_pos h3, List.cons_append, List.nil_append, decodeFrom]
    rw [toNat_byte (by omega), toNat_byte (by omega), toNat_byte (by omega)]
    have hs : ∃ low high, step none (0xE0 + n / 4096) = ([], some ⟨n / 4096, 1, low, high⟩) ∧
        low ≤ 0x80 + n / 64 % 64 ∧ 0x80 + n / 64 % 64 ≤ high := by
      simp only [step, first, begin?]
      rw [if_neg (by omega), if_neg (by omega)]
      by_cases e0 : n / 4096 = 0
      · refine ⟨0xA0, 0xBF, ?_, by omega, by omega⟩
        rw [if_pos (by omega), e0]
      by_cases ed : n / 4096 = 0xD
      · refine ⟨0x80, 0x9F, ?_, by omega, by omega⟩
        rw [if_neg (by omega), if_pos (by omega), ed]
      · refine ⟨0x80, 0xBF, ?_, by omega, by omega⟩
        have : 0xE0 + n / 4096 - 0xE0 = n / 4096 := by omega
        rw [if_neg (by omega), if_neg (by omega), if_pos (by omega), this]
    obtain ⟨low, high, hs, hl, hh⟩ := hs
    rw [hs]
    simp only [List.nil_append]
    rw [step_more (n := n / 64) ⟨hl, hh⟩ rfl (by simp only; omega)]
    simp only [List.nil_append]
    rw [step_last (n := n) (by simp only; omega) rfl (by simp only; omega), hc]
    rfl
  · simp only [if_neg h1, if_neg h2, if_neg h3, List.cons_append, List.nil_append, decodeFrom]
    rw [toNat_byte (by omega), toNat_byte (by omega), toNat_byte (by omega),
      toNat_byte (by omega)]
    have hs : ∃ low high, step none (0xF0 + n / 262144) =
        ([], some ⟨n / 262144, 2, low, high⟩) ∧
        low ≤ 0x80 + n / 4096 % 64 ∧ 0x80 + n / 4096 % 64 ≤ high := by
      simp only [step, first, begin?]
      rw [if_neg (by omega), if_neg (by omega), if_neg (by omega), if_neg (by omega),
        if_neg (by omega)]
      by_cases f0 : n / 262144 = 0
      · refine ⟨0x90, 0xBF, ?_, by omega, by omega⟩
        rw [if_pos (by omega), f0]
      by_cases f4 : n / 262144 = 4
      · refine ⟨0x80, 0x8F, ?_, by omega, by omega⟩
        rw [if_neg (by omega), if_neg (by omega), if_pos (by omega), f4]
      · refine ⟨0x80, 0xBF, ?_, by omega, by omega⟩
        have : 0xF0 + n / 262144 - 0xF0 = n / 262144 := by omega
        rw [if_neg (by omega), if_pos (by omega), this]
    obtain ⟨low, high, hs, hl, hh⟩ := hs
    rw [hs]
    simp only [List.nil_append]
    rw [step_more (n := n / 4096) ⟨hl, hh⟩ rfl (by simp only; omega)]
    simp only [List.nil_append]
    rw [step_more (n := n / 64) (by simp only; omega) rfl (by simp only; omega)]
    simp only [List.nil_append]
    rw [step_last (n := n) (by simp only; omega) rfl (by simp only; omega), hc]
    rfl

/-- What was encoded decodes to itself. -/
@[simp] theorem decode_encode (s : List Char) : decode (encode s) = s := by
  unfold decode
  induction s with
  | nil => rfl
  | cons c s ih => rw [encode_cons, decodeFrom_encodeChar, ih]

end UmlDraft.Text.Utf8
