import UmlDraft.Json.Value

/-!
# JSON text

Values are written without blanks. In a text only the quote, the backslash and the control
characters below U+0020 are escaped, the usual five by a letter and the others by four lower case
hexadecimal digits. Everything else stands for itself.
-/

namespace UmlDraft.Json

/-- A hexadecimal digit. -/
def hexDigit (n : Nat) : Char :=
  if n < 10 then Char.ofNat (48 + n) else Char.ofNat (87 + n)

/-- A character as it is written inside quotes. -/
def escape (c : Char) : List Char :=
  if c = '"' then ['\\', '"']
  else if c = '\\' then ['\\', '\\']
  else if c = '\x08' then ['\\', 'b']
  else if c = '\t' then ['\\', 't']
  else if c = '\n' then ['\\', 'n']
  else if c = '\x0c' then ['\\', 'f']
  else if c = '\r' then ['\\', 'r']
  else if c.toNat < 0x20 then
    ['\\', 'u', '0', '0', hexDigit (c.toNat / 16), hexDigit (c.toNat % 16)]
  else [c]

/-- A text in quotes. -/
def quote (s : String) : List Char :=
  '"' :: s.toList.flatMap escape ++ ['"']

mutual

/-- The text of a value. -/
def print : Json → List Char
  | .null => "null".toList
  | .bool b => (toString b).toList
  | .number d => d.written
  | .string s => quote s
  | .array items => '[' :: printItems items
  | .object members => '{' :: printMembers members

/-- The text of an array behind its opening bracket. -/
def printItems : List Json → List Char
  | [] => [']']
  | v :: rest => print v ++ printMoreItems rest

/-- The text of an array behind an item. -/
def printMoreItems : List Json → List Char
  | [] => [']']
  | v :: rest => ',' :: print v ++ printMoreItems rest

/-- The text of an object behind its opening brace. -/
def printMembers : List (String × Json) → List Char
  | [] => ['}']
  | (k, v) :: rest => quote k ++ ':' :: print v ++ printMoreMembers rest

/-- The text of an object behind a member. -/
def printMoreMembers : List (String × Json) → List Char
  | [] => ['}']
  | (k, v) :: rest => ',' :: quote k ++ ':' :: print v ++ printMoreMembers rest

end

/-- The text of a value, on one line and without blanks. -/
def compress (v : Json) : String :=
  .ofList (print v)

/-- No escaped character is a line feed, so a quoted text stays on one line. -/
theorem newline_not_mem_escape (c : Char) : '\n' ∉ escape c := by
  have hex : ∀ n, n < 16 → hexDigit n ≠ '\n' := by decide
  unfold escape
  repeat' split
  all_goals simp only [List.mem_cons, List.not_mem_nil, or_false, not_or]
  · decide
  · decide
  · decide
  · decide
  · decide
  · decide
  · decide
  · next h =>
    exact ⟨by decide, by decide, by decide, by decide, (hex _ (by omega)).symm,
      (hex _ (by omega)).symm⟩
  · next h _ _ _ => exact fun e => h e.symm

end UmlDraft.Json
