import UmlDraft.CommandLine.Suggestion
import UmlDraft.CommandLine.Words

/-!
# Options

What the words of a command line ask for. The program itself knows only the flag for its version.
The first operand may name a command; if it does not, everything is for the command that generates.
Help is asked for among the words that are not understood. Main statement: in all options that a
command reads from its settings, a path of a configuration file and the refusal of such files
exclude each other.

These documented behaviours of the argument library are assumed, besides the reading of words:

* the flag for the version, wherever it stands before `--`, comes before everything else, and a flag
  for help before every refusal but that of a missing value;
* where commands exist there is one for help without being declared, and calling it with nothing to
  run ends with the error `(outputHelp)`;
* a flag and its negation, `--config` and `--no-config`, are one option, whose last word counts;
* of a flag with a value that is set twice the last value counts;
* unknown flags are refused before too many operands are, with the names that are nearest to them.
-/

namespace UmlDraft

/-- What is asked for. -/
structure Options where
  /-- What the program is to do. -/
  command : Command := .generate
  /-- The diagram to read. -/
  input : Option String := none
  /-- The directory that receives the generated files. -/
  output : Option String := none
  /-- The package of every generated file. -/
  packageName : Option String := none
  /-- The configuration file. -/
  configPath : Option String := none
  /-- Whether no configuration file is to be read. -/
  noConfig : Bool := false
  /-- Whether the sample diagram may be written. -/
  sample : Bool := true
  /-- Whether nothing is to be written. -/
  dryRun : Bool := false
  /-- Whether details are asked for. -/
  verbose : Bool := false
  /-- Whether only failures are asked for. -/
  quiet : Bool := false
  /-- Whether JSON is asked for. -/
  json : Bool := false
  /-- Whether help is asked for. -/
  help : Bool := false
  /-- Whether the version is asked for. -/
  version : Bool := false
  deriving DecidableEq, Repr

/-- Why a command line is refused. -/
inductive ArgumentError where
  /-- A flag lacks its value. -/
  | missingValue (f : Flag)
  /-- A word looks like a flag that the command does not know. -/
  | unknownFlag (c : Command) (word : String)
  /-- More than one input is named. -/
  | tooManyInputs (c : Command) (count : Nat)
  /-- Details and silence are both asked for. -/
  | conflict
  /-- The command for help, which has nothing to run. -/
  | helpCommand
  deriving DecidableEq, Repr

namespace ArgumentError

/-- The names of the flags that are suggested for an unknown one. -/
def candidates (c : Command) : List String :=
  (c.flags ++ [Flag.help, Flag.version]).map Flag.name

/-- The flags that may have been meant by an unknown one. -/
def suggestion (c : Command) (word : String) : String :=
  match word.toList with
  | '-' :: '-' :: name =>
    match (Suggestion.nearest (.ofList name) (candidates c)).map ("--" ++ ·) with
    | [] => ""
    | [one] => "\n(Did you mean " ++ one ++ "?)"
    | several => "\n(Did you mean one of " ++ ", ".intercalate several ++ "?)"
  | _ => ""

/-- The message of an error. -/
def message : ArgumentError → String
  | missingValue f => "option '" ++ f.written ++ "' argument missing"
  | unknownFlag c word => "unknown option '" ++ word ++ "'" ++ suggestion c word
  | tooManyInputs c count =>
    "too many arguments for '" ++ c.name ++ "'. Expected 1 argument but got " ++ toString count ++
      "."
  | conflict => "Conflicting flags: --verbose and --quiet cannot be used together"
  | helpCommand => "(outputHelp)"

end ArgumentError

/-- The command that a word names. -/
def Command.ofName? (word : String) : Option Command :=
  if word = Command.generate.name then some .generate
  else if word = Command.parse.name then some .parse
  else none

@[simp] theorem Command.ofName?_name (c : Command) : Command.ofName? c.name = some c := by
  cases c <;> rfl

namespace Options

/-- The command for help. -/
def helpCommand : String :=
  "help"

/-- The options of a command to which nothing is added. Showing a diagram writes nothing, not even
the sample. -/
def ofCommand (c : Command) : Options where
  command := c
  sample := c = .generate
  dryRun := c = .parse

/-- Puts a setting into effect. -/
def apply (o : Options) (s : Setting) : Options :=
  match s.flag with
  | .output => { o with output := s.value }
  | .package => { o with packageName := s.value }
  | .noSample => { o with sample := false }
  | .dryRun => { o with dryRun := true }
  | .config => { o with configPath := s.value, noConfig := false }
  | .noConfig => { o with configPath := none, noConfig := true }
  | .verbose => { o with verbose := true }
  | .quiet => { o with quiet := true }
  | .json => { o with json := true }
  | .version => { o with version := true }
  | .help => { o with help := true }

/-- The options of a command with its settings. -/
def ofSettings (c : Command) (settings : List Setting) : Options :=
  settings.foldl apply (ofCommand c)

/-- Whether help is asked for among words that are not understood. -/
def asksHelp (words : List String) : Bool :=
  words.any Flag.help.isForm

/-- Reads the words that are left to a command. -/
def ofWords (c : Command) (operands words : List String) : Except ArgumentError Options :=
  let own := Words.scan c.flags false words
  let inputs := operands ++ own.operands
  let options := ofSettings c own.settings
  match own.unfinished with
  | some f => .error (.missingValue f)
  | none =>
    if asksHelp own.leftover then .ok { help := true }
    else
      match own.leftover with
      | word :: _ => .error (.unknownFlag c word)
      | [] =>
        if 1 < inputs.length then .error (.tooManyInputs c inputs.length)
        else if options.verbose && options.quiet then .error .conflict
        else .ok { options with input := inputs.head? }

/-- Reads a command line. -/
def ofArguments (arguments : List String) : Except ArgumentError Options :=
  let own := Words.scan Flag.ofProgram false arguments
  if own.settings ≠ [] then .ok { version := true }
  else
    match own.operands.head?.bind Command.ofName? with
    | some c => ofWords c own.operands.tail own.leftover
    | none =>
      if own.operands.head? = some helpCommand then .error .helpCommand
      else if asksHelp own.leftover then .ok { help := true }
      else ofWords .generate own.operands own.leftover

theorem apply_config (o : Options) (s : Setting)
    (h : o.noConfig = true → o.configPath = none) :
    (o.apply s).noConfig = true → (o.apply s).configPath = none := by
  unfold apply
  split <;> simp_all

/-- A command does not at once name a configuration file and refuse such files. -/
theorem configPath_ofSettings (c : Command) (settings : List Setting) :
    (ofSettings c settings).noConfig = true → (ofSettings c settings).configPath = none := by
  unfold ofSettings
  generalize ho : ofCommand c = o
  have h : o.noConfig = true → o.configPath = none := by
    subst ho
    simp [ofCommand]
  clear ho
  induction settings generalizing o with
  | nil => exact h
  | cons s rest ih => exact ih (o.apply s) (apply_config o s h)

end Options

end UmlDraft
