import UmlDraft.Json.Value
import UmlDraft.Text.Scan

/-!
# Reading JSON

The strict grammar: blanks are space, tab, line feed and carriage return; numbers have no leading
zeros; texts hold no raw control characters; nothing may follow the value. A byte order mark is no
blank. Of two members with one name the later value counts. Half of a surrogate pair that stands
alone reads as the replacement character, which is what a file would hold of it, so that no text
that is read holds anything but characters.
-/

namespace UmlDraft.Json

/-- The blanks that may stand between tokens. -/
def isSpace (c : Char) : Bool :=
  c == ' ' || c == '\t' || c == '\n' || c == '\r'

/-- The text without its leading blanks. -/
def skipSpace (s : List Char) : List Char :=
  s.dropWhile isSpace

/-- The value of a hexadecimal digit of either case. -/
def hexValue? (c : Char) : Option Nat :=
  if '0' ≤ c ∧ c ≤ '9' then some (c.toNat - 48)
  else if 'a' ≤ c ∧ c ≤ 'f' then some (c.toNat - 87)
  else if 'A' ≤ c ∧ c ≤ 'F' then some (c.toNat - 55)
  else none

/-- Reads four hexadecimal digits. -/
def readHex? : List Char → Option (Nat × List Char)
  | a :: b :: c :: d :: rest => do
    let a ← hexValue? a
    let b ← hexValue? b
    let c ← hexValue? c
    let d ← hexValue? d
    some (a * 4096 + b * 256 + c * 16 + d, rest)
  | _ => none

/-- The character that a one letter escape stands for. -/
def simpleEscape? : Char → Option Char
  | '"' => some '"'
  | '\\' => some '\\'
  | '/' => some '/'
  | 'b' => some '\x08'
  | 'f' => some '\x0c'
  | 'n' => some '\n'
  | 'r' => some '\r'
  | 't' => some '\t'
  | _ => none

/-- The low half of a surrogate pair, if an escape for one comes next. -/
def readLowHalf? : List Char → Option (Nat × List Char)
  | '\\' :: 'u' :: rest =>
    match readHex? rest with
    | some (n, after) => if 0xDC00 ≤ n ∧ n ≤ 0xDFFF then some (n, after) else none
    | none => none
  | _ => none

/-- Reads what follows the backslash of an escape. -/
def readEscape? : List Char → Option (Char × List Char)
  | 'u' :: rest =>
    match readHex? rest with
    | none => none
    | some (n, after) =>
      if 0xD800 ≤ n ∧ n ≤ 0xDBFF then
        match readLowHalf? after with
        | some (low, after) =>
          some (.ofNat (0x10000 + (n - 0xD800) * 0x400 + (low - 0xDC00)), after)
        | none => some ('\ufffd', after)
      else if 0xDC00 ≤ n ∧ n ≤ 0xDFFF then some ('\ufffd', after)
      else some (.ofNat n, after)
  | c :: rest => (simpleEscape? c).map fun c => (c, rest)
  | [] => none

theorem length_readHex? {s rest : List Char} {n : Nat} (h : readHex? s = some (n, rest)) :
    rest.length < s.length := by
  unfold readHex? at h
  split at h
  · simp only [Option.bind_eq_bind, Option.bind_eq_some_iff, Option.some.injEq,
      Prod.mk.injEq] at h
    obtain ⟨_, _, _, _, _, _, _, _, _, rfl⟩ := h
    simp only [List.length_cons]
    omega
  · cases h

theorem length_readLowHalf? {s rest : List Char} {n : Nat}
    (h : readLowHalf? s = some (n, rest)) : rest.length < s.length := by
  unfold readLowHalf? at h
  split at h
  · split at h
    · next hn =>
      split at h
      · cases h
        have := length_readHex? hn
        simp only [List.length_cons]
        omega
      · cases h
    · cases h
  · cases h

theorem length_readEscape? {s rest : List Char} {c : Char}
    (h : readEscape? s = some (c, rest)) : rest.length < s.length := by
  unfold readEscape? at h
  split at h
  · split at h
    · cases h
    · next hn =>
      have h1 := length_readHex? hn
      rw [List.length_cons]
      split at h
      · split at h <;> have hr := (Prod.mk.inj (Option.some.inj h)).2 <;> subst hr
        · next hl => exact Nat.lt_succ_of_lt (Nat.lt_trans (length_readLowHalf? hl) h1)
        · exact Nat.lt_succ_of_lt h1
      · split at h <;> have hr := (Prod.mk.inj (Option.some.inj h)).2 <;> subst hr
        · exact Nat.lt_succ_of_lt h1
        · exact Nat.lt_succ_of_lt h1
  · obtain ⟨_, _, he⟩ := Option.map_eq_some_iff.1 h
    cases he
    simp
  · cases h

set_option linter.unusedVariables false in
/-- Reads a text behind its opening quote, up to and with its closing quote. -/
def readText? (s : List Char) : Option (List Char × List Char) :=
  match s with
  | [] => none
  | '"' :: rest => some ([], rest)
  | '\\' :: rest =>
    match h : readEscape? rest with
    | none => none
    | some (c, after) => (readText? after).map fun r => (c :: r.1, r.2)
  | c :: rest =>
    if c.toNat < 0x20 then none else (readText? rest).map fun r => (c :: r.1, r.2)
termination_by s.length
decreasing_by
  · exact Nat.lt_succ_of_lt (length_readEscape? h)
  · simp

/-- The digits at the beginning of a text and what follows them. -/
def readDigits (s : List Char) : List Char × List Char :=
  (s.takeWhile Char.isDigit, s.dropWhile Char.isDigit)

/-- Reads the whole part of a number: no leading zero unless it is zero. -/
def readWhole? (s : List Char) : Option (List Char × List Char) :=
  match s with
  | '0' :: rest => some (['0'], rest)
  | _ => if (readDigits s).1 = [] then none else some (readDigits s)

/-- Reads the digits behind a decimal point, if there is a point. -/
def readFraction? (s : List Char) : Option (List Char × List Char) :=
  match s with
  | '.' :: rest => if (readDigits rest).1 = [] then none else some (readDigits rest)
  | _ => some ([], s)

/-- Reads a signed power of ten behind its letter. -/
def readPower? (s : List Char) : Option (Int × List Char) :=
  let signed (negative : Bool) (s : List Char) : Option (Int × List Char) :=
    let (digits, rest) := readDigits s
    if digits = [] then none
    else some (if negative then -ofDigits digits else ofDigits digits, rest)
  match s with
  | '+' :: rest => signed false rest
  | '-' :: rest => signed true rest
  | _ => signed false s

/-- Reads the power of ten, if there is one. -/
def readExponent? (s : List Char) : Option (Int × List Char) :=
  match s with
  | 'e' :: rest => readPower? rest
  | 'E' :: rest => readPower? rest
  | _ => some (0, s)

/-- Reads a number without its sign. -/
def readUnsigned? (s : List Char) : Option ((Nat × Int) × List Char) := do
  let (whole, s) ← readWhole? s
  let (fraction, s) ← readFraction? s
  let (power, s) ← readExponent? s
  some ((ofDigits (whole ++ fraction), power - fraction.length), s)

/-- Reads a number. -/
def readNumber? (s : List Char) : Option (Json × List Char) :=
  match s with
  | '-' :: rest => (readUnsigned? rest).map fun r => (.number (.scaled (-r.1.1) r.1.2), r.2)
  | _ => (readUnsigned? s).map fun r => (.number (.scaled r.1.1 r.1.2), r.2)

/-- Reads a value that is neither array nor object. -/
def readScalar? (s : List Char) : Option (Json × List Char) :=
  match s with
  | '"' :: rest => (readText? rest).map fun r => (.string (.ofList r.1), r.2)
  | 'n' :: rest => (Text.dropLeading? "ull".toList rest).map fun r => (.null, r)
  | 't' :: rest => (Text.dropLeading? "rue".toList rest).map fun r => (.bool true, r)
  | 'f' :: rest => (Text.dropLeading? "alse".toList rest).map fun r => (.bool false, r)
  | _ => readNumber? s

/-- Reads the name of a member and the colon behind it. -/
def readName? (s : List Char) : Option (String × List Char) :=
  match s with
  | '"' :: rest =>
    match readText? rest with
    | some (name, after) =>
      match skipSpace after with
      | ':' :: after => some (.ofList name, after)
      | _ => none
    | none => none
  | _ => none

mutual

/-- Reads a value, blanks before it included. Each bracket and each item spends one unit of the
budget. -/
def readValue? : Nat → List Char → Option (Json × List Char)
  | 0, _ => none
  | budget + 1, s =>
    match skipSpace s with
    | '[' :: rest =>
      match skipSpace rest with
      | ']' :: after => some (.array [], after)
      | _ => (readItems? budget rest).map fun r => (.array r.1, r.2)
    | '{' :: rest =>
      match skipSpace rest with
      | '}' :: after => some (.object [], after)
      | _ => (readMembers? budget rest).map fun r => (.object (Table.ofList r.1).entries, r.2)
    | t => readScalar? t

/-- Reads the items of an array up to and with its closing bracket. -/
def readItems? : Nat → List Char → Option (List Json × List Char)
  | 0, _ => none
  | budget + 1, s =>
    match readValue? budget s with
    | none => none
    | some (v, rest) =>
      match skipSpace rest with
      | ']' :: after => some ([v], after)
      | ',' :: more => (readItems? budget more).map fun r => (v :: r.1, r.2)
      | _ => none

/-- Reads the members of an object up to and with its closing brace. -/
def readMembers? : Nat → List Char → Option (List (String × Json) × List Char)
  | 0, _ => none
  | budget + 1, s =>
    match readName? (skipSpace s) with
    | none => none
    | some (name, rest) =>
      match readValue? budget rest with
      | none => none
      | some (v, rest) =>
        match skipSpace rest with
        | '}' :: after => some ([(name, v)], after)
        | ',' :: more => (readMembers? budget more).map fun r => ((name, v) :: r.1, r.2)
        | _ => none

end

/-- The value that a text is. Two units of budget for each character are more than any text can
spend. -/
def parse? (text : String) : Option Json :=
  let s := text.toList
  match readValue? (2 * s.length + 1) s with
  | some (v, rest) => if skipSpace rest = [] then some v else none
  | none => none

end UmlDraft.Json
