/-!
# Flags

The flags of the program and of its two commands: how each is written and whether it takes a value.
-/

namespace UmlDraft

/-- What the program is asked to do. -/
inductive Command where
  /-- Write the generated files. -/
  | generate
  /-- Show the diagram. -/
  | parse
  deriving DecidableEq, Repr

/-- The written form of a command. -/
def Command.name : Command → String
  | .generate => "generate"
  | .parse => "parse"

/-- A flag. -/
inductive Flag where
  /-- Names the output directory. -/
  | output
  /-- Names the package. -/
  | package
  /-- Forbids writing the sample diagram. -/
  | noSample
  /-- Forbids writing anything. -/
  | dryRun
  /-- Names the configuration file. -/
  | config
  /-- Forbids configuration files. -/
  | noConfig
  /-- Asks for details. -/
  | verbose
  /-- Asks for failures only. -/
  | quiet
  /-- Asks for JSON. -/
  | json
  /-- Asks for the version. -/
  | version
  /-- Asks for help. -/
  | help
  deriving DecidableEq, Repr

namespace Flag

/-- The long name of a flag, without the dashes before it. -/
def name : Flag → String
  | .output => "output"
  | .package => "package"
  | .noSample => "no-sample"
  | .dryRun => "dry-run"
  | .config => "config"
  | .noConfig => "no-config"
  | .verbose => "verbose"
  | .quiet => "quiet"
  | .json => "json"
  | .version => "version"
  | .help => "help"

/-- The long form of a flag. -/
def long (f : Flag) : String :=
  "--" ++ f.name

/-- The letter of a flag that has a short form. -/
def letter? : Flag → Option Char
  | .output => some 'o'
  | .verbose => some 'v'
  | .quiet => some 'q'
  | .version => some 'V'
  | .help => some 'h'
  | _ => none

/-- What the value of a flag is called, if it takes one. -/
def valueName? : Flag → Option String
  | .output => some "dir"
  | .package => some "name"
  | .config => some "path"
  | _ => none

/-- Whether a flag takes a value. -/
def takesValue (f : Flag) : Bool :=
  f.valueName?.isSome

/-- A flag with all its forms. -/
def written (f : Flag) : String :=
  (match f.letter? with
    | some c => "-" ++ String.singleton c ++ ", "
    | none => "") ++
  f.long ++
  match f.valueName? with
    | some name => " <" ++ name ++ ">"
    | none => ""

/-- Whether a word is one of the forms of a flag. -/
def isForm (f : Flag) (word : String) : Bool :=
  word = f.long ∨ f.letter?.any fun c => word = "-" ++ String.singleton c

/-- The flags that both commands know. -/
def shared : List Flag :=
  [.config, .noConfig, .verbose, .quiet, .json]

/-- The flags that the program knows before a command is chosen. -/
def ofProgram : List Flag :=
  [.version]

end Flag

/-- The flags of a command. -/
def Command.flags : Command → List Flag
  | .generate => [.output, .package, .noSample, .dryRun] ++ Flag.shared
  | .parse => Flag.shared

end UmlDraft
