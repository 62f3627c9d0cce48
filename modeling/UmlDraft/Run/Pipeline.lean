import UmlDraft.Event.Hub
import UmlDraft.Run.Artifact
import UmlDraft.Run.Thrown
import UmlDraft.Skeleton.Source

/-!
# A run

Read the diagram, extract its model, render the sources and write them. A run announces each phase
as it begins and ends, and all that happens in it; its log and its problems are what a hub makes of
these announcements. Nothing is written in a dry run, and a diagram that cannot be read ends the run
with its first phase.
-/

namespace UmlDraft

/-- Renders a declaration, or throws. -/
abbrev Renderer := Style → Declaration → Model → Except Thrown String

/-- The renderer that never throws. -/
def Renderer.plain : Renderer :=
  fun style d m => .ok (d.render style m)

namespace Run

open Event

/-- The extension of generated files. -/
def extension : String :=
  ".java"

/-- The layout that a configuration asks for. -/
def style (c : Config) : Style where
  packageName := c.packageName
  indent := some (c.indent.getD ({} : Settings).indent)

/-- What is announced of an extracted model. -/
def extractEvents (file : DiagramFile) (m : Model) : List Payload :=
  let declarations : String × Json := ("declarations", .nat m.declarations.size)
  let relationships : String × Json := ("relationships", .nat m.relationships.count)
  [.phaseStart .extract] ++
  m.duplicates.map (fun name =>
    .warn .duplicateDeclaration .extract
      ("Duplicate declaration \"" ++ name ++ "\": the last definition wins")
      (some (.ofList [("name", .string name)]))) ++
  [.debug .diagramParse .extract "Parsed diagram"
      (some (.ofList [("file", .string file.path.toText), declarations, relationships])),
    .phaseEnd .extract (some (.ofList [declarations, relationships]))]

/-- The code of a failed rendering. -/
def renderFailure : String :=
  "RENDER_FAILURE"

/-- The announcement of one rendered or failed declaration. -/
def renderEvent (file : DiagramFile) (d : Declaration) : Except Thrown String → Payload
  | .ok _ =>
    .debug .sourceRender .render ("Rendered " ++ d.name)
      (some (.ofList [("name", .string d.name), ("kind", .string d.kind.name)]))
  | .error thrown =>
    .failure .sourceRender .render
      { path := file.path.toText
        message := thrown.message
        code := renderFailure
        userMessage := ["Failed to render \"" ++ d.name ++ "\"", thrown.message] }

/-- Every declaration with what its rendering gave. -/
def renderings (renderer : Renderer) (c : Config) (m : Model) :
    List (Declaration × Except Thrown String) :=
  m.declarations.values.map fun d => (d, renderer (style c) d m)

/-- The sources among the renderings. -/
def sourcesOf (rs : List (Declaration × Except Thrown String)) : Table String String :=
  .ofList (rs.filterMap fun r =>
    match r.2 with
    | .ok text => some (r.1.name, text)
    | .error _ => none)

/-- Writes the sources, unless the run is dry. -/
def writePhase (c : Config) (d : Disk) (cwd : Path) (sources : Table String String) :
    Traced (List Artifact) :=
  if c.dryRun then
    ⟨[], d, [.info .log .write "Dry run: no files written"
      (some (.ofList [("artifacts", .nat sources.size)]))]⟩
  else
    let w := WriteResult.write d cwd c.outputDir sources extension
    ⟨w.result.written, w.disk,
      [.phaseStart .write] ++ w.events ++
      [.phaseEnd .write (some (.ofList [("written", .nat w.result.written.length),
        ("failed", .nat w.result.failed)]))]⟩

/-- The phases behind a diagram that was read: what the run gives apart from its problems. -/
def continueWith (renderer : Renderer) (c : Config) (cwd : Path) (d : Disk)
    (file : DiagramFile) : Traced Outcome :=
  let model := Model.ofText file.content
  let rs := renderings renderer c model
  let sources := sourcesOf rs
  let written := writePhase c d cwd sources
  { result :=
      { input := some file.path.toText
        sampleCreated := file.sampleCreated
        model := some model
        sources
        written := written.result
        stats :=
          { declarations := model.declarations.size
            relationships := model.relationships.count
            artifactsRendered := sources.size
            artifactsWritten := written.result.length } }
    disk := written.disk
    events :=
      extractEvents file model ++
      [.phaseStart .render] ++ rs.map (fun r => renderEvent file r.1 r.2) ++
      [.phaseEnd .render (some (.ofList [("artifacts", .nat sources.size)]))] ++
      written.events }

/-- All phases: what the run gives apart from its problems. -/
def phases (renderer : Renderer) (c : Config) (cwd : Path) (d : Disk) : Traced Outcome :=
  let reading := DiagramFile.read d cwd c.input (c.createSample.getD ({} : Settings).createSample)
  let readEvents (files : Nat) : List Payload :=
    [.phaseStart .read] ++ reading.events ++
    [.phaseEnd .read (some (.ofList [("files", .nat files)]))]
  match reading.result with
  | none => ⟨{}, reading.disk, readEvents 0⟩
  | some file =>
    let rest := continueWith renderer c cwd reading.disk file
    { rest with events := readEvents 1 ++ rest.events }

/-- A finished run. -/
structure Report where
  /-- What the run gives. -/
  outcome : Outcome
  /-- The disk after it. -/
  disk : Disk
  /-- Its log. -/
  logs : List Log.Record
  deriving Repr

/-- Runs on a disk. -/
def run (renderer : Renderer) (c : Config) (cwd : Path) (d : Disk) : Report :=
  let t := phases renderer c cwd d
  let hub := Hub.wired.emitAll t.events
  { outcome :=
      { t.result with
        errors := hub.problems
        stats := { t.result.stats with errorsCount := hub.problems.length } }
    disk := t.disk
    logs := hub.logged }

end Run

end UmlDraft
