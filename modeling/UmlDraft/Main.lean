import UmlDraft.CommandLine.Invocation

/-!
# The program

Looks at the files that an invocation may read, leaves all decisions to the invocation, and carries
out what it decided: new files are written, what it prints goes to standard output and its log to
standard error.
-/

namespace UmlDraft.Program

/-- Notes what stands along a chain of names below a path. -/
def lookAlong (d : Disk) (p : Path) : List String → IO Disk
  | [] => pure d
  | name :: rest => do
    let q : Path := p ++ [name]
    match ← (IO.FS.readBinFile q.toText).toBaseIO with
    | .ok bytes => pure (d.put q (.file bytes.toList))
    | .error (.inappropriateType ..) => lookAlong (d.put q .directory) q rest
    | .error _ => pure d

/-- Notes what stands at a path and above it. -/
def look (w : World) (p : Path) : IO World := do
  return { w with disk := ← lookAlong w.disk [] p }

/-- Notes what stands at some paths. -/
def lookAll (w : World) (ps : List Path) : IO World :=
  ps.foldlM look w

/-- Notes what a written path leads to, step by step. -/
def lookText (w : World) (text : String) : IO World :=
  let names := Path.split text
  let start := if Path.isAbsolute text then [] else w.cwd
  lookAll w ((List.range (names.length + 1)).map fun n => (names.take n).foldl Path.push start)

/-- The paths that the search for a configuration file asks about. -/
def searchPaths (w : World) : List Path :=
  w.cwd.ancestors.flatMap fun dir =>
    (Discovery.repositoryEntry :: Discovery.fileNames).map fun name => dir ++ [name]

/-- The working directory and the variables that the program asks for. -/
def surroundings : IO World := do
  let mut environment : Table String String := .empty
  for name in [Discovery.fileVariable, Discovery.homeVariable] do
    if let some value ← IO.getEnv name then
      environment := environment.insert name value
  look { cwd := Path.resolve [] (← IO.currentDir).toString, environment } []

/-- Notes the configuration files that options may lead to. -/
def lookForSettings (w : World) (o : Options) : IO World := do
  let w ← lookAll w (w.cwd :: searchPaths w)
  let named := o.configPath.toList ++ (w.value? Discovery.fileVariable).toList ++
    ((w.value? Discovery.homeVariable).map fun home =>
      Path.joinText (home :: Discovery.userFile)).toList
  named.foldlM lookText w

/-- Notes the diagram and what stands where files will be written. -/
def lookForRun (w : World) (c : Config) : IO World := do
  let dir := Path.resolve w.cwd c.outputDir
  let w ← lookAll w [Path.resolve w.cwd c.input, dir]
  let sources := (Run.run .plain c w.cwd w.disk).outcome.sources
  lookAll w (sources.keys.map fun name => dir.join (name ++ Run.extension))

/-- The world as far as an invocation can ask about it. -/
def world (arguments : List String) : IO World := do
  let w ← surroundings
  match Options.ofArguments arguments with
  | .error _ => return w
  | .ok o =>
    let w ← lookForSettings w o
    match Config.build w o with
    | .error _ => return w
    | .ok c => lookForRun w c

/-- Writes what a disk holds beyond another one. -/
def writeBack (before after : Disk) : IO Unit :=
  for (p, e) in after.entries.entries do
    if before.get? p ≠ some e then
      match e with
      | .directory => IO.FS.createDirAll p.toText
      | .file bytes => IO.FS.writeBinFile p.toText ⟨bytes.toArray⟩

/-- A record as a line of the log. -/
def logLine (r : Log.Record) : String :=
  r.level.name ++ " " ++ r.message ++
    match r.context with
    | some values => " " ++ (Json.object values.entries).compress
    | none => ""

/-- Runs the program. -/
def run (arguments : List String) : IO UInt32 := do
  let w ← world arguments
  let i := Invocation.ofArguments w .plain arguments
  writeBack w.disk (i.disk w)
  for r in i.logs do
    IO.eprintln (logLine r)
  for text in i.printed do
    IO.println text
  return UInt32.ofNat i.exit.code

end UmlDraft.Program

/-- Runs the program on its arguments. -/
def main (arguments : List String) : IO UInt32 :=
  UmlDraft.Program.run arguments
