import UmlDraft.CommandLine.Flag
import UmlDraft.Log

/-!
# Help

The help text: the usage line, a sentence on the program, its flags and its commands. Terms stand in
a column of their own; descriptions are broken between words so that lines stay within eighty
columns. Main statement: breaking a description loses no word.
-/

namespace UmlDraft.Help

/-- The version of the program. -/
def version : String :=
  "0.1.0"

/-- A term and its description. -/
structure Item where
  /-- The term. -/
  term : String
  /-- The words of its description. -/
  description : List String
  deriving DecidableEq, Repr

/-- The words of a sentence. -/
def words (sentence : String) : List String :=
  (sentence.toList.splitOn ' ').map String.ofList

/-- The longest line of a description. -/
def descriptionWidth : Nat :=
  49

/-- Fills lines with words. A line takes a word unless it would grow longer than a description may
be. -/
def fill (line : List String) : List String → List (List String)
  | [] => [line]
  | word :: rest =>
    if line ≠ [] ∧ descriptionWidth < (" ".intercalate (line ++ [word])).length then
      line :: fill [word] rest
    else fill (line ++ [word]) rest

/-- The lines together hold the words in order. -/
theorem flatten_fill (line rest : List String) : (fill line rest).flatten = line ++ rest := by
  induction rest generalizing line with
  | nil => simp [fill]
  | cons word rest ih =>
    unfold fill
    split <;> simp [ih]

/-- The sections of the help text. -/
structure Section where
  /-- The title. -/
  title : String
  /-- The items. -/
  items : List Item
  deriving DecidableEq, Repr

/-- The flags of the program. -/
def flags : Section where
  title := "Options:"
  items :=
    [⟨Flag.version.written, words "output the version number"⟩,
      ⟨Flag.help.written, words "display help for command"⟩]

/-- The commands of the program. -/
def commands : Section where
  title := "Commands:"
  items :=
    [⟨Command.generate.name ++ " [options] [input]",
        words "Parse a diagram and write one Java file per declared type"⟩,
      ⟨Command.parse.name ++ " [options] [input]",
        words "Parse a diagram and print its declarations and relationships"⟩,
      ⟨"help [command]", words "display help for command"⟩]

/-- The sections in order. -/
def sections : List Section :=
  [flags, commands]

/-- The width of the longest term. -/
def termWidth : Nat :=
  (sections.flatMap fun s => s.items.map fun i => i.term.length).foldl max 0

/-- A number of blanks. -/
def blanks (n : Nat) : String :=
  .ofList (List.replicate n ' ')

/-- The lines of an item. -/
def Item.lines (i : Item) : List String :=
  match (fill [] i.description).map (" ".intercalate ·) with
  | [] => []
  | line :: rest =>
    ("  " ++ i.term ++ blanks (termWidth + 2 - i.term.length) ++ line) ::
      rest.map (blanks (termWidth + 4) ++ ·)

/-- The lines of a section with an empty line before it. -/
def Section.lines (s : Section) : List String :=
  ["", s.title] ++ s.items.flatMap Item.lines

/-- The help text. -/
def text : String :=
  "\n".intercalate
    (["Usage: " ++ Log.defaultName ++ " [options] [command]", "",
        "Generate Java source skeletons from PlantUML class diagrams"] ++
      sections.flatMap Section.lines) ++
    "\n"

end UmlDraft.Help
