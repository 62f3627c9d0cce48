import UmlDraft.Decimal.Basic
import UmlDraft.Table

/-!
# JSON values

A JSON value with its object members in order. Objects that are built from a table list the keys
that are array indices first, in ascending order, and all other keys as the table has them. Main
statement: that order is a permutation, so no member is lost.
-/

namespace UmlDraft

/-- A JSON value. -/
inductive Json where
  /-- The value `null`. -/
  | null
  /-- A truth value. -/
  | bool (b : Bool)
  /-- A number, exactly as it was written. -/
  | number (d : Decimal)
  /-- A text. -/
  | string (s : String)
  /-- A list of values. -/
  | array (items : List Json)
  /-- Named values in order. -/
  | object (members : List (String × Json))
  deriving BEq, Repr, Inhabited

namespace Json

/-- A whole number. -/
def int (n : Int) : Json :=
  .number (.ofInt n)

/-- The value of a natural number. -/
def nat (n : Nat) : Json :=
  .int n

/-- The member of an object with the given name, and nothing for any other value. -/
def get? (name : String) : Json → Option Json
  | .object members => members.lookup name
  | _ => none

/-- The text that a value is. -/
def string? : Json → Option String
  | .string s => some s
  | _ => none

/-- The truth value that a value is. -/
def bool? : Json → Option Bool
  | .bool b => some b
  | _ => none

/-- The number that a value is. -/
def number? : Json → Option Decimal
  | .number d => some d
  | _ => none

/-- The items that a value has. -/
def items? : Json → Option (List Json)
  | .array items => some items
  | _ => none

/-- The members that a value has. -/
def members? : Json → Option (List (String × Json))
  | .object members => some members
  | _ => none

/-- The number that decimal digits write. -/
def ofDigits (digits : List Char) : Nat :=
  digits.foldl (fun n c => 10 * n + (c.toNat - 48)) 0

/-- The number that a key is if it is the shortest decimal form of an array index, which is a number
below 2 ^ 32 - 1. -/
def arrayIndex? (key : String) : Option Nat :=
  let n := ofDigits key.toList
  if toString n = key ∧ n < 4294967295 then some n else none

/-- The members in the order in which an object lists them: array indices first, ascending, then the
other keys as they come. -/
def listed (members : List (String × Json)) : List (String × Json) :=
  let index (m : String × Json) : Option Nat := arrayIndex? m.1
  ((members.filter fun m => (index m).isSome).mergeSort fun a b =>
    (index a).getD 0 ≤ (index b).getD 0) ++
  members.filter fun m => !(index m).isSome

/-- Listing the members of an object loses none of them. -/
theorem listed_perm (members : List (String × Json)) : (listed members).Perm members :=
  ((List.mergeSort_perm _ _).append_right _).trans (List.filter_append_perm _ _)

/-- The object of a table. -/
def ofTable (t : Table String Json) : Json :=
  .object (listed t.entries)

end Json

end UmlDraft
