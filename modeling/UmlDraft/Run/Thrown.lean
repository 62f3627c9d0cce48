import UmlDraft.Decimal.Binary
import UmlDraft.Json.Value

/-!
# Thrown values

What a renderer may throw: an error with a message and perhaps a code, any other value, or nothing
at all. Each has a code and a message. A number reads in its shortest form; a list reads as its items
with commas between them, in which `null` is empty; an object has no text of its own.
-/

namespace UmlDraft

/-- A thrown value. -/
inductive Thrown where
  /-- An error, whose code may be any value. -/
  | error (message : String) (code : Option Json)
  /-- A value that is no error. -/
  | value (v : Json)
  /-- The value that says that there is none. -/
  | undefined
  deriving Repr

namespace Thrown

mutual

/-- The text of a value in a message. -/
def textOf : Json → String
  | .null => "null"
  | .bool b => toString b
  | .number d => d.shown
  | .string s => s
  | .array items => ",".intercalate (itemTexts items)
  | .object _ => "[object Object]"

/-- The texts of the items of a list, `null` being empty. -/
def itemTexts : List Json → List String
  | [] => []
  | .null :: rest => "" :: itemTexts rest
  | v :: rest => textOf v :: itemTexts rest

end

/-- The message of a thrown value. -/
def message : Thrown → String
  | .error message _ => message
  | .value v => textOf v
  | .undefined => "undefined"

/-- The code of a thrown value that has none. -/
def unknownCode : String :=
  "UNKNOWN"

/-- The code of a thrown value. Only a text is a code. -/
def code : Thrown → String
  | .error _ code => (code.bind Json.string?).getD unknownCode
  | .value v => ((v.get? "code").bind Json.string?).getD unknownCode
  | .undefined => unknownCode

end Thrown

end UmlDraft
