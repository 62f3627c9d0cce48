import UmlDraft.Run.Outcome
import UmlDraft.Run.Source

/-!
# Writing the generated files

Each source becomes a file in the output directory, which is made first. One file that cannot be
written does not stop the others; a directory that cannot be made stops them all.
-/

namespace UmlDraft

/-- What became of the sources. -/
structure WriteResult where
  /-- The path of the output directory. -/
  outputDir : Path
  /-- The files that were written, in order. -/
  written : List Artifact := []
  /-- How many sources were not written. -/
  failed : Nat := 0
  deriving DecidableEq, Repr

namespace WriteResult

/-- A failed operation on an output path. -/
def failure (path : String) (e : FileError) : Event.Payload :=
  .failure .fileWrite .write
    { path
      message := e.message
      code := e.fault.code
      userMessage := userMessage e.fault.code }

/-- The announcement that a file was written. -/
def done (fileName path : String) : Event.Payload :=
  .info .fileWrite .write ("Generated " ++ fileName) (some (.ofList [("file", .string path)]))

/-- Whether a written path ends as that of a directory does. -/
def namesDirectory (text : String) : Bool :=
  text.toList.getLast? == some '/'

/-- Writes a file, whose path must not end as that of a directory does. -/
def writeFile (d : Disk) (path : Path) (fileName content : String) : Except Fault Disk :=
  if namesDirectory fileName then
    match Disk.textFault? (path.toText ++ "/") with
    | some fault => .error fault
    | none =>
      match d.stat path.parent with
      | .ok .directory => .error .isDirectory
      | .ok (.file _) => .error .notDirectory
      | .error fault => .error fault
  else d.write path (Disk.bytes content)

/-- Writes one more source. -/
def add (extension : String) (t : Traced WriteResult) (source : String × String) :
    Traced WriteResult :=
  let fileName := source.1 ++ extension
  let path := t.result.outputDir.join fileName
  let text := path.toText ++ if namesDirectory fileName && path ≠ [] then "/" else ""
  match writeFile t.disk path fileName source.2 with
  | .ok d =>
    ⟨{ t.result with written := t.result.written ++ [⟨source.1, text⟩] }, d,
      t.events ++ [done fileName text]⟩
  | .error fault =>
    ⟨{ t.result with failed := t.result.failed + 1 }, t.disk,
      t.events ++ [failure text ⟨fault, "open", some text⟩]⟩

/-- Writes all sources as `name` and `extension` into a directory. -/
def write (d : Disk) (cwd : Path) (outputDir : String) (sources : Table String String)
    (extension : String) : Traced WriteResult :=
  let dir := Path.resolve cwd outputDir
  match d.makeDirectories dir with
  | (d, some fault) =>
    ⟨{ outputDir := dir, failed := sources.size }, d,
      [failure dir.toText ⟨fault, "mkdir", some dir.toText⟩]⟩
  | (d, none) => sources.entries.foldl (add extension) ⟨{ outputDir := dir }, d, []⟩

end WriteResult

end UmlDraft
