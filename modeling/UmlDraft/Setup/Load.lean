import UmlDraft.CommandLine.Options
import UmlDraft.Json.Parser
import UmlDraft.Run.Outcome
import UmlDraft.Run.Source
import UmlDraft.Setup.Discovery
import UmlDraft.Text.Classes

/-!
# The configuration of a run

Settings come from a configuration file, which may leave out any of them, and the command line takes
precedence over them. The text of a file must be one JSON object whose settings have the right
types. A package name must be a chain of identifiers. Main statement: a configuration that is built
has a valid package name or none.
-/

namespace UmlDraft

/-- The types of settings. -/
inductive SettingType where
  /-- A text. -/
  | text
  /-- A truth value. -/
  | truth
  deriving DecidableEq, Repr

/-- A type in a message. -/
def SettingType.phrase : SettingType → String
  | .text => "a string"
  | .truth => "a boolean"

/-- Why no configuration can be built. -/
inductive SetupError where
  /-- The file cannot be read. -/
  | unreadable (e : FileError)
  /-- The file holds no JSON object. -/
  | malformed (path : String)
  /-- A setting has the wrong type. -/
  | wrongType (path key : String) (expected : SettingType)
  /-- The package name is no chain of identifiers. -/
  | invalidPackage (name : String)
  deriving DecidableEq, Repr

/-- The message of an error. -/
def SetupError.message : SetupError → String
  | unreadable e => e.message
  | malformed path => "Invalid config file: parse error at " ++ path
  | wrongType path key expected =>
    "Invalid config file " ++ path ++ ": \"" ++ key ++ "\" must be " ++ expected.phrase
  | invalidPackage name =>
    "Invalid package name \"" ++ name ++ "\". Expected dot-separated identifiers"

namespace Settings

/-- A text setting of an object. -/
def text? (path : String) (v : Json) (key : String) : Except SetupError (Option String) :=
  match v.get? key with
  | none => .ok none
  | some (.string s) => .ok (some s)
  | some _ => .error (.wrongType path key .text)

/-- A truth setting of an object, for which `null` says nothing. -/
def truth? (path : String) (v : Json) (key : String) : Except SetupError (Option Bool) :=
  match v.get? key with
  | none | some .null => .ok none
  | some (.bool b) => .ok (some b)
  | some _ => .error (.wrongType path key .truth)

/-- The settings that a JSON value gives. -/
def ofJson (path : String) (v : Json) : Except SetupError Settings :=
  match v with
  | .object _ => do
    let packageName ← text? path v "packageName"
    let createSample ← truth? path v "createSample"
    let input ← text? path v "input"
    let outputDir ← text? path v "outputDir"
    let indent ← text? path v "indent"
    let standard : Settings := {}
    return {
      input := input.getD standard.input
      outputDir := outputDir.getD standard.outputDir
      packageName
      indent := indent.getD standard.indent
      createSample := createSample.getD standard.createSample }
  | _ => .error (.malformed path)

/-- The settings that the text of a file gives. -/
def ofText (path text : String) : Except SetupError Settings :=
  match Json.parse? text with
  | some v => ofJson path v
  | none => .error (.malformed path)

/-- Reads the settings of a file. Where no file is named the standard settings hold. -/
def load (w : World) (path : Option String) : Except SetupError Settings :=
  match path.filter (· ≠ "") with
  | none => .ok {}
  | some path =>
    match Disk.contents (w.disk.statText w.cwd path) with
    | .error fault => .error (.unreadable (DiagramFile.readError fault path))
    | .ok bytes => ofText path (Disk.text bytes)

end Settings

namespace Config

/-- Settings under the options of the command line, which take precedence. The sample is written
only if neither forbids it. -/
def merge (base : Settings) (o : Options) : Config where
  input := o.input.getD base.input
  outputDir := o.output.getD base.outputDir
  packageName := o.packageName <|> base.packageName
  indent := some base.indent
  createSample := some (o.sample && base.createSample)
  dryRun := o.dryRun

/-- Whether a word is an identifier. -/
def isIdentifier : List Char → Bool
  | [] => false
  | c :: rest => ((Text.isWord c && !c.isDigit) || c == '$') &&
      rest.all fun c => Text.isWord c || c == '$'

/-- Whether a text is a chain of identifiers with single dots between them. -/
def isPackageName (name : String) : Bool :=
  (name.toList.splitOn '.').all isIdentifier

/-- The settings that options start from. -/
def base (w : World) (o : Options) : Except SetupError Settings :=
  if o.noConfig then .ok {}
  else Settings.load w (o.configPath <|> Discovery.find? w w.cwd)

/-- The configuration that options ask for. -/
def build (w : World) (o : Options) : Except SetupError Config :=
  match base w o with
  | .error e => .error e
  | .ok settings =>
    let c := merge settings o
    match c.packageName with
    | none => .ok c
    | some name => if isPackageName name then .ok c else .error (.invalidPackage name)

/-- The package name of a configuration that was built is a chain of identifiers. -/
theorem isPackageName_of_build {w : World} {o : Options} {c : Config} {name : String}
    (h : build w o = .ok c) (hn : c.packageName = some name) : isPackageName name = true := by
  unfold build at h
  split at h
  · cases h
  · simp only at h
    split at h
    · next hc =>
      cases h
      rw [hc] at hn
      cases hn
    · next other hc =>
      split at h
      · next hv =>
        cases h
        rw [hc] at hn
        cases hn
        exact hv
      · cases h

end Config

end UmlDraft
