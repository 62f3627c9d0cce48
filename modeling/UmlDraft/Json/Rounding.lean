import UmlDraft.Decimal.Binary
import UmlDraft.Json.Value

/-!
# Numbers in JSON values

A value whose numbers are kept in binary precision. A number that is too large has no JSON form and
becomes `null`.
-/

namespace UmlDraft.Json

/-- A number in binary precision. -/
def ofRounded (d : Decimal) : Json :=
  match d.shortest? with
  | some s => .number s
  | none => .null

mutual

/-- The value with its numbers in binary precision. -/
def rounded : Json → Json
  | .number d => ofRounded d
  | .array items => .array (roundedItems items)
  | .object members => .object (roundedMembers members)
  | .null => .null
  | .bool b => .bool b
  | .string s => .string s

/-- The items of an array with their numbers in binary precision. -/
def roundedItems : List Json → List Json
  | [] => []
  | v :: rest => rounded v :: roundedItems rest

/-- The members of an object with their numbers in binary precision. -/
def roundedMembers : List (String × Json) → List (String × Json)
  | [] => []
  | (k, v) :: rest => (k, rounded v) :: roundedMembers rest

end

/-- Rounding an array rounds each of its items. -/
theorem roundedItems_eq_map (vs : List Json) : roundedItems vs = vs.map rounded := by
  induction vs with
  | nil => rfl
  | cons v rest ih => rw [roundedItems, ih, List.map_cons]

/-- Rounding keeps the names of an object and their order. -/
theorem roundedMembers_eq_map (ms : List (String × Json)) :
    roundedMembers ms = ms.map fun m => (m.1, rounded m.2) := by
  induction ms with
  | nil => rfl
  | cons m rest ih => rw [roundedMembers, ih, List.map_cons]

end UmlDraft.Json
