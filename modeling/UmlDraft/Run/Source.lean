import UmlDraft.Event.Payload
import UmlDraft.File.Disk
import UmlDraft.Run.Sample

/-!
# Reading the diagram

The input is read from its resolved path. Where nothing exists there and that is wanted, the sample
diagram is written first, with the directories above it. A failure is announced and ends the
reading.
-/

namespace UmlDraft

/-- A diagram that was read. -/
structure DiagramFile where
  /-- Its path. -/
  path : Path
  /-- Its text. -/
  content : String
  /-- Whether it is the sample, written just before. -/
  sampleCreated : Bool
  deriving DecidableEq, Repr

/-- What an operation gives, the disk after it, and what it announced. -/
structure Traced (α : Type) where
  /-- What the operation gives. -/
  result : α
  /-- The disk after it. -/
  disk : Disk
  /-- What it announced, in order. -/
  events : List Event.Payload
  deriving Repr

namespace DiagramFile

/-- A failed operation on the diagram. -/
def failure (path : Path) (e : FileError) : Event.Payload :=
  .failure .fileRead .read
    { path := path.toText
      message := e.message
      code := e.fault.code
      userMessage := userMessage e.fault.code }

/-- The announcement that the sample was written. -/
def created (path : Path) : Event.Payload :=
  .info .sampleCreated .read ("Created sample diagram: " ++ path.toText)
    (some (.ofList [("file", .string path.toText)]))

/-- The announcement that the diagram was read. -/
def readDone (path : Path) (content : String) : Event.Payload :=
  .info .fileRead .read "Read diagram"
    (some (.ofList [("file", .string path.toText), ("bytes", .nat content.utf8ByteSize)]))

/-- Writes the sample diagram and the directories above it. -/
def writeSample (d : Disk) (path : Path) : Disk × Option FileError :=
  match d.makeDirectories path.parent with
  | (d, some fault) => (d, some ⟨fault, "mkdir", some path.parent.toText⟩)
  | (d, none) =>
    match d.write path (Disk.bytes sampleDiagram) with
    | .error fault => (d, some ⟨fault, "open", some path.toText⟩)
    | .ok d => (d, none)

/-- The error of a failed attempt to read a file. A directory can be opened but not read. -/
def readError (fault : Fault) (path : String) : FileError :=
  if fault = .isDirectory then ⟨fault, "read", none⟩ else ⟨fault, "open", some path⟩

/-- Reads a diagram that need not be made first. -/
def load (d : Disk) (path : Path) (sampleCreated : Bool) (events : List Event.Payload) :
    Traced (Option DiagramFile) :=
  match Disk.contents (d.stat path) with
  | .error fault => ⟨none, d, events ++ [failure path (readError fault path.toText)]⟩
  | .ok bytes =>
    let content := Disk.text bytes
    ⟨some ⟨path, content, sampleCreated⟩, d, events ++ [readDone path content]⟩

/-- Reads a diagram, which is made first if it is missing and `createSample` holds. -/
def read (d : Disk) (cwd : Path) (text : String) (createSample : Bool) :
    Traced (Option DiagramFile) :=
  let path := Path.resolve cwd text
  if createSample then
    match d.stat path with
    | .ok _ => load d path false []
    | .error .missing =>
      match writeSample d path with
      | (d, some e) => ⟨none, d, [failure path e]⟩
      | (d, none) => load d path true [created path]
    | .error fault => ⟨none, d, [failure path ⟨fault, "stat", some path.toText⟩]⟩
  else load d path false []

end DiagramFile

end UmlDraft
