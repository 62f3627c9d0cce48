import UmlDraft.Text.Shown

/-!
# File errors

Why a file operation fails, the code of each cause, and what a user is told.
-/

namespace UmlDraft

/-- Why a file operation fails. -/
inductive Fault where
  /-- There is no such file or directory. -/
  | missing
  /-- A file stands where a directory is needed. -/
  | notDirectory
  /-- A directory stands where a file is needed. -/
  | isDirectory
  /-- A file stands where a directory is to be made. -/
  | occupied
  /-- A name is longer than a directory can hold, or a path is longer than any may be. -/
  | nameTooLong
  /-- A path holds a null character. -/
  | nullCharacter
  deriving DecidableEq, Repr

namespace Fault

/-- The code of a cause. -/
def code : Fault → String
  | .missing => "ENOENT"
  | .notDirectory => "ENOTDIR"
  | .isDirectory => "EISDIR"
  | .occupied => "EEXIST"
  | .nameTooLong => "ENAMETOOLONG"
  | .nullCharacter => "ERR_INVALID_ARG_VALUE"

/-- A cause in words. -/
def text : Fault → String
  | .missing => "no such file or directory"
  | .notDirectory => "not a directory"
  | .isDirectory => "illegal operation on a directory"
  | .occupied => "file already exists"
  | .nameTooLong => "name too long"
  | .nullCharacter =>
    "The argument 'path' must be a string, Uint8Array, or URL without null bytes. Received "

end Fault

/-- A failed file operation. -/
structure FileError where
  /-- Why it failed. -/
  fault : Fault
  /-- The operation. -/
  operation : String
  /-- The path that it was given, unless the file was open already. -/
  path : Option String
  deriving DecidableEq, Repr

/-- The message of a failed operation. A path with a null character is shown, as no operation begins
with it. -/
def FileError.message (e : FileError) : String :=
  if e.fault = .nullCharacter then e.fault.text ++ Text.shown (e.path.getD "")
  else
    e.fault.code ++ ": " ++ e.fault.text ++ ", " ++ e.operation ++
      match e.path with
      | some p => " '" ++ p ++ "'"
      | none => ""

/-- What a user is told about an error code. -/
def userMessage (code : String) : List String :=
  if code = "ENOENT" then ["Diagram file does not exist"]
  else if code = "EACCES" ∨ code = "EPERM" then ["Permission denied"]
  else if code = "EISDIR" then ["Expected a file but found a directory"]
  else ["Unexpected error accessing file"]

theorem userMessage_ne_nil (code : String) : userMessage code ≠ [] := by
  unfold userMessage
  split
  · simp
  · split
    · simp
    · split <;> simp

end UmlDraft
