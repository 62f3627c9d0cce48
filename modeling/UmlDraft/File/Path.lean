/-!
# Paths

A path is the list of names from the root down to a file. Written paths are resolved by their text
alone: empty names and `.` say nothing, `..` takes the last name back, and at the root there is
nothing to take back. A relative text can also be put in order without resolving it; then a leading
`..` stays.
-/

namespace UmlDraft

/-- The names from the root down. -/
abbrev Path := List String

namespace Path

/-- The names of a written path, empty ones included. -/
def split (text : String) : List String :=
  (text.toList.splitOn '/').map String.ofList

/-- Whether a written path begins at the root. -/
def isAbsolute (text : String) : Bool :=
  text.toList.head? == some '/'

/-- Follows one name. -/
def push (p : Path) (name : String) : Path :=
  if name = "" ∨ name = "." then p
  else if name = ".." then p.dropLast
  else p ++ [name]

/-- The path that is reached from a directory along a written path. -/
def join (p : Path) (text : String) : Path :=
  (split text).foldl push p

/-- The path of a text, which is taken from the working directory unless it begins at the root. -/
def resolve (cwd : Path) (text : String) : Path :=
  join (if isAbsolute text then [] else cwd) text

/-- The directory that holds a path. The root holds itself. -/
def parent (p : Path) : Path :=
  p.dropLast

/-- The written form of a path. -/
def toText (p : Path) : String :=
  "/" ++ "/".intercalate p

/-- A path and the directories above it, nearest first. -/
def ancestors (p : Path) : List Path :=
  (List.range (p.length + 1)).reverse.map p.take

/-- Follows one name from a place that need not be known: where nothing is left to take back, `..`
stays. -/
def pushRelative (p : Path) (name : String) : Path :=
  if name = "" ∨ name = "." then p
  else if name = ".." then
    if p.getLast?.all (· = "..") then p ++ [".."] else p.dropLast
  else p ++ [name]

/-- Several written paths one behind the other, put in order. -/
def joinText (texts : List String) : String :=
  let names := texts.flatMap split
  if isAbsolute ("/".intercalate (texts.filter (· ≠ ""))) then toText (names.foldl push [])
  else "/".intercalate (names.foldl pushRelative [])

@[simp] theorem parent_root : parent [] = [] := rfl

@[simp] theorem push_dot (p : Path) : push p "." = p := by simp [push]

theorem ancestors_ne_nil (p : Path) : ancestors p ≠ [] := by
  simp [ancestors]

/-- The nearest of the ancestors is the path itself. -/
theorem head?_ancestors (p : Path) : (ancestors p).head? = some p := by
  simp [ancestors, List.range_succ]

end Path

end UmlDraft
