import UmlDraft.File.Disk

/-!
# Finding the configuration file

A configuration file is named by the environment, lies in the working directory or above it, or
belongs to the user. The search upwards ends with the first directory that holds a repository. Main
statement: it never leaves the directories up to that one.
-/

namespace UmlDraft

/-- What surrounds the program. -/
structure World where
  /-- All files. -/
  disk : Disk := {}
  /-- The working directory. -/
  cwd : Path := []
  /-- The variables that are set. -/
  environment : Table String String := .empty
  deriving DecidableEq, Repr

namespace World

/-- The value of a variable that is set to more than the empty text. -/
def value? (w : World) (name : String) : Option String :=
  (w.environment.get? name).filter (· ≠ "")

/-- Whether something stands at a path. -/
def holds (w : World) (p : Path) : Bool :=
  match w.disk.stat p with
  | .ok _ => true
  | .error _ => false

end World

namespace Discovery

/-- The variable that names the configuration file. -/
def fileVariable : String :=
  "PLANTFORGE_CONFIG"

/-- The variable that names the directory of the user. -/
def homeVariable : String :=
  "HOME"

/-- The names of configuration files, preferred first. -/
def fileNames : List String :=
  ["plantforge.config.json", ".plantforge.json"]

/-- The entry that makes a directory the top of a repository. -/
def repositoryEntry : String :=
  ".git"

/-- The path of the file of the user below the directory of the user. -/
def userFile : List String :=
  [".config", "plantforge", "config.json"]

/-- The directories that are searched: those given, up to the first that holds a repository. -/
def searched (w : World) : List Path → List Path
  | [] => []
  | dir :: above => dir :: if w.holds (dir ++ [repositoryEntry]) then [] else searched w above

/-- The places where a file may lie, nearest first. -/
def places (w : World) (start : Path) : List Path :=
  (searched w start.ancestors).flatMap fun dir => fileNames.map fun name => dir ++ [name]

/-- The file that the environment names. -/
def ofEnvironment? (w : World) : Option String :=
  (w.value? fileVariable).filter (w.disk.existsText w.cwd ·)

/-- The nearest file upwards from a directory. -/
def ofAncestors? (w : World) (start : Path) : Option String :=
  ((places w start).find? (w.holds ·)).map Path.toText

/-- The file of the user. -/
def ofUser? (w : World) : Option String :=
  ((w.value? homeVariable).map fun home => Path.joinText (home :: userFile)).filter
    (w.disk.existsText w.cwd ·)

/-- The configuration file for a directory. -/
def find? (w : World) (start : Path) : Option String :=
  ofEnvironment? w <|> ofAncestors? w start <|> ofUser? w

/-- Of the searched directories only the last can hold a repository. -/
theorem not_holds_of_searched (w : World) {dirs before after : List Path} {dir : Path}
    (h : searched w dirs = before ++ dir :: after) (ha : after ≠ []) :
    w.holds (dir ++ [repositoryEntry]) = false := by
  induction dirs generalizing before with
  | nil => simp [searched] at h
  | cons d above ih =>
    unfold searched at h
    cases before with
    | nil =>
      simp only [List.nil_append, List.cons.injEq] at h
      obtain ⟨rfl, h⟩ := h
      split at h
      · exact absurd h.symm ha
      · next hd => simpa using hd
    | cons b before =>
      simp only [List.cons_append, List.cons.injEq] at h
      obtain ⟨-, h⟩ := h
      split at h
      · simp at h
      · exact ih h

/-- The searched directories are the first of those given. -/
theorem searched_isInitial (w : World) (dirs : List Path) : searched w dirs <+: dirs := by
  induction dirs with
  | nil => exact List.nil_prefix
  | cons d above ih =>
    unfold searched
    split
    · simp
    · simpa using ih

end Discovery

end UmlDraft
