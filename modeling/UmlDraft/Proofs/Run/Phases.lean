import UmlDraft.Proofs.Event.Delivery
import UmlDraft.Proofs.Run.Reading
import UmlDraft.Proofs.Run.Rendering

/-!
# What a run gives

A run whose diagram cannot be read gives the problem of its reading and nothing else. Any other run
gives what follows from the text that was read: the diagram, its sources, and what the write phase
made of them. Its problems and its log are those of all that it announces.
-/

namespace UmlDraft

open Event

namespace DiagramFile.Announced

variable {path : Path} {file : DiagramFile} {events : List Payload}

/-- A diagram that was read has no problem. -/
theorem reported_eq_nil (h : Announced path (some file) events) :
    events.filterMap Payload.reported? = [] := by
  cases h with
  | done hlead => rcases hlead with rfl | rfl <;> rfl

/-- A diagram that cannot be read is the one problem of its reading. -/
theorem exists_reported (h : Announced path none events) : ∃ e : FileError,
    events.filterMap Payload.reported? =
      [⟨⟨path.toText, e.message, e.fault.code, userMessage e.fault.code⟩, .read⟩] := by
  cases h with
  | failed hlead e => rcases hlead with rfl | rfl <;> exact ⟨e, rfl⟩

end DiagramFile.Announced

namespace Run

variable {renderer : Renderer} {c : Config} {cwd : Path} {d : Disk} {file : DiagramFile}

/-- The reading of a run. -/
def reading (c : Config) (cwd : Path) (d : Disk) : Traced (Option DiagramFile) :=
  DiagramFile.read d cwd c.input c.wantsSample

theorem announced_reading (c : Config) (cwd : Path) (d : Disk) :
    DiagramFile.Announced (Path.resolve cwd c.input) (reading c cwd d).result
      (reading c cwd d).events :=
  DiagramFile.announced_read d cwd c.input c.wantsSample

/-- The sources of a diagram that was read. -/
def sources (renderer : Renderer) (c : Config) (file : DiagramFile) : Table String String :=
  sourcesOf (renderings renderer c (Model.ofText file.content))

/-- What the write phase makes of a diagram that was read. -/
def writing (renderer : Renderer) (c : Config) (cwd : Path) (d : Disk) (file : DiagramFile) :
    Traced (List Artifact) :=
  writePhase c (reading c cwd d).disk cwd (sources renderer c file)

/-- What is announced of the read phase. -/
def readEvents (files : Nat) (events : List Payload) : List Payload :=
  Payload.phased .read events [("files", .nat files)]

/-- The announcement that a type was declared again. -/
def duplicateEvent (name : String) : Payload :=
  .warn .duplicateDeclaration .extract
    ("Duplicate declaration \"" ++ name ++ "\": the last definition wins")
    (some (.ofList [("name", .string name)]))

/-- The announcement that a diagram was parsed. -/
def parsedEvent (file : DiagramFile) (m : Model) : Payload :=
  .debug .diagramParse .extract "Parsed diagram"
    (some (.ofList [("file", .string file.path.toText), ("declarations", .nat m.declarations.size),
      ("relationships", .nat m.relationships.count)]))

/-- What is announced of the extract phase. -/
theorem extractEvents_eq (file : DiagramFile) (m : Model) :
    extractEvents file m =
      Payload.phased .extract (m.duplicates.map duplicateEvent ++ [parsedEvent file m])
        [("declarations", .nat m.declarations.size),
          ("relationships", .nat m.relationships.count)] := by
  rw [Payload.phased, ← List.append_assoc, ← List.append_cons]
  rfl

/-- What is announced of the render phase. -/
def renderEvents (renderer : Renderer) (c : Config) (file : DiagramFile) : List Payload :=
  Payload.phased .render
    ((renderings renderer c (Model.ofText file.content)).map fun r => renderEvent file r.1 r.2)
    [("artifacts", .nat (sources renderer c file).size)]

/-- Nothing can go wrong while a diagram is extracted. -/
theorem reported_extractEvents (file : DiagramFile) (m : Model) :
    (extractEvents file m).filterMap Payload.reported? = [] := by
  rw [extractEvents_eq, Payload.filterMap_reported?_phased, List.filterMap_append,
    List.filterMap_map]
  exact List.append_eq_nil_iff.mpr ⟨List.filterMap_eq_nil_iff.mpr fun _ _ => rfl, rfl⟩

/-- What a run gives is completed by what its announcements leave on the hub. -/
theorem run_eq (renderer : Renderer) (c : Config) (cwd : Path) (d : Disk) :
    run renderer c cwd d =
      let t := phases renderer c cwd d
      let errors := t.events.filterMap Payload.reported?
      { outcome := { t.result with
          errors, stats := { t.result.stats with errorsCount := errors.length } }
        disk := t.disk
        logs := t.events.filterMap Payload.record? } := by
  unfold run
  dsimp only
  rw [Hub.problems_emitAll_wired, Hub.logged_emitAll_wired]

theorem phases_of_unread (h : (reading c cwd d).result = none) :
    phases renderer c cwd d =
      ⟨{}, (reading c cwd d).disk, readEvents 0 (reading c cwd d).events⟩ := by
  unfold phases
  dsimp only
  split
  · rfl
  · next hsome => cases h.symm.trans hsome

theorem phases_of_read (h : (reading c cwd d).result = some file) :
    phases renderer c cwd d =
      let rest := continueWith renderer c cwd (reading c cwd d).disk file
      { rest with events := readEvents 1 (reading c cwd d).events ++ rest.events } := by
  unfold phases
  dsimp only
  split
  · next hnone => cases h.symm.trans hnone
  · next hsome =>
    cases h.symm.trans hsome
    rfl

/-- A run whose diagram cannot be read. -/
theorem run_of_unread (h : (reading c cwd d).result = none) :
    run renderer c cwd d =
      let errors := (reading c cwd d).events.filterMap Payload.reported?
      { outcome := { errors, stats := { errorsCount := errors.length } }
        disk := (reading c cwd d).disk
        logs := (readEvents 0 (reading c cwd d).events).filterMap Payload.record? } := by
  rw [run_eq, phases_of_unread h]
  dsimp only
  rw [readEvents, Payload.filterMap_reported?_phased]

/-- A run whose diagram is read. -/
theorem run_of_read (h : (reading c cwd d).result = some file) :
    run renderer c cwd d =
      let model := Model.ofText file.content
      let written := writing renderer c cwd d file
      let errors := (renderEvents renderer c file ++ written.events).filterMap Payload.reported?
      { outcome :=
          { input := some file.path.toText
            sampleCreated := file.sampleCreated
            model := some model
            sources := sources renderer c file
            written := written.result
            errors
            stats :=
              { declarations := model.declarations.size
                relationships := model.relationships.count
                artifactsRendered := (sources renderer c file).size
                artifactsWritten := written.result.length
                errorsCount := errors.length } }
        disk := written.disk
        logs := (readEvents 1 (reading c cwd d).events ++ (extractEvents file model ++
          (renderEvents renderer c file ++ written.events))).filterMap Payload.record? } := by
  have hread : (readEvents 1 (reading c cwd d).events).filterMap Payload.reported? = [] := by
    have hannounced := announced_reading c cwd d
    rw [h] at hannounced
    rw [readEvents, Payload.filterMap_reported?_phased, hannounced.reported_eq_nil]
  have hevents : (continueWith renderer c cwd (reading c cwd d).disk file).events =
      extractEvents file (Model.ofText file.content) ++
        (renderEvents renderer c file ++ (writing renderer c cwd d file).events) := by
    simp only [continueWith, renderEvents, Payload.phased, writing, sources, List.append_assoc]
  rw [run_eq, phases_of_read h]
  dsimp only
  rw [hevents, List.filterMap_append, hread, List.nil_append, List.filterMap_append,
    reported_extractEvents, List.nil_append]
  rfl

/-! ### What a read diagram leads to -/

section

variable (renderer) (h : (reading c cwd d).result = some file)
include h

theorem input_run : (run renderer c cwd d).outcome.input = some file.path.toText := by
  rw [run_of_read h]

theorem model_run :
    (run renderer c cwd d).outcome.model = some (Model.ofText file.content) := by
  rw [run_of_read h]

theorem sources_run : (run renderer c cwd d).outcome.sources = sources renderer c file := by
  rw [run_of_read h]

theorem written_run :
    (run renderer c cwd d).outcome.written = (writing renderer c cwd d file).result := by
  rw [run_of_read h]

theorem disk_run : (run renderer c cwd d).disk = (writing renderer c cwd d file).disk := by
  rw [run_of_read h]

theorem errors_run : (run renderer c cwd d).outcome.errors =
    (renderEvents renderer c file).filterMap Payload.reported? ++
      (writing renderer c cwd d file).events.filterMap Payload.reported? := by
  rw [run_of_read h, ← List.filterMap_append]

end

/-- Under the renderer that never throws, nothing can go wrong while sources are rendered. -/
theorem reported_renderEvents (c : Config) (file : DiagramFile) :
    (renderEvents .plain c file).filterMap Payload.reported? = [] := by
  rw [renderEvents, Payload.filterMap_reported?_phased, renderings, List.map_map,
    List.filterMap_map]
  exact List.filterMap_eq_nil_iff.mpr fun _ _ => rfl

/-! ### The write phase -/

/-- The directory that receives the sources of a run. -/
def outputDir (c : Config) (cwd : Path) : Path :=
  Path.resolve cwd c.outputDir

/-- The path of the file of a declared type. -/
def artifactPath (c : Config) (cwd : Path) (name : String) : Path :=
  outputDir c cwd ++ [name ++ extension]

/-- The output directory made on the disk that the reading left. -/
def directoryMade (c : Config) (cwd : Path) (d : Disk) : Disk × Option Fault :=
  (reading c cwd d).disk.makeDirectories (outputDir c cwd)

/-- What is announced of the write phase. -/
def writeEvents (written failed : Nat) (events : List Payload) : List Payload :=
  Payload.phased .write events [("written", .nat written), ("failed", .nat failed)]

/-- The announcement of a dry run. -/
def dryNotice (artifacts : Nat) : Payload :=
  .info .log .write "Dry run: no files written" (some (.ofList [("artifacts", .nat artifacts)]))

/-- What became of the sources, told by the fault of each name. -/
structure Fated (renderer : Renderer) (c : Config) (cwd : Path) (d : Disk) (file : DiagramFile)
    (fate : String → Option Fault) : Prop where
  /-- The names without a fault are listed as written. -/
  result : (writing renderer c cwd d file).result =
    ((sources renderer c file).keys.filter fun n => fate n = none).map fun n =>
      ⟨n, (artifactPath c cwd n).toText⟩
  /-- Every name is announced, and the names of either sort are counted. -/
  events : (writing renderer c cwd d file).events =
    writeEvents ((sources renderer c file).keys.filter fun n => fate n = none).length
      ((sources renderer c file).keys.filter fun n => fate n ≠ none).length
      ((sources renderer c file).keys.map fun n =>
        WriteResult.announcement (outputDir c cwd) extension n (fate n))
  /-- A source without a fault has a path at which no directory was. -/
  free : ∀ n ∈ (sources renderer c file).keys, fate n = none →
    (directoryMade c cwd d).1.get? (artifactPath c cwd n) ≠ some .directory ∧
      Disk.pathFault? (artifactPath c cwd n) = none ∧ Disk.fits (n ++ extension) = true
  /-- In its file stands the source itself or one whose file leads to the same place. -/
  held : ∀ n ∈ (sources renderer c file).keys, fate n = none →
    ∃ other text, (sources renderer c file).get? other = some text ∧ fate other = none ∧
      d.place (artifactPath c cwd other) = d.place (artifactPath c cwd n) ∧
      (writing renderer c cwd d file).disk.get? (artifactPath c cwd n) =
        some (.file (Disk.bytes text))
  /-- All else is as it was when the directory had been made. -/
  kept : ∀ q, (∀ n ∈ (sources renderer c file).keys, fate n = none →
      d.place q ≠ d.place (artifactPath c cwd n)) →
    (writing renderer c cwd d file).disk.get? q = (directoryMade c cwd d).1.get? q

/-- Links stay where they are when the output directory is made. -/
theorem place_directoryMade (c : Config) (cwd : Path) (d : Disk) :
    (directoryMade c cwd d).1.place = d.place :=
  Disk.place_of_links ((Disk.links_makeDirectories _ _).trans (DiagramFile.links_read d cwd _ _))

theorem writing_of_dry (renderer : Renderer) (cwd : Path) (d : Disk) (file : DiagramFile)
    (hdry : c.dryRun = true) :
    writing renderer c cwd d file =
      ⟨[], (reading c cwd d).disk, [dryNotice (sources renderer c file).size]⟩ := by
  rw [writing, writePhase, if_pos hdry]
  rfl

/-- Where the output directory cannot be made, all sources count as failed. -/
theorem writing_of_fault (renderer : Renderer) (file : DiagramFile) (hdry : c.dryRun = false)
    {fault : Fault} (h : (directoryMade c cwd d).2 = some fault) :
    writing renderer c cwd d file =
      ⟨[], (directoryMade c cwd d).1, writeEvents 0 (sources renderer c file).size
        [WriteResult.failure (outputDir c cwd).toText
          ⟨fault, "mkdir", some (outputDir c cwd).toText⟩]⟩ := by
  rw [writing, writePhase, if_neg (by simp [hdry])]
  dsimp only
  rw [WriteResult.write_of_fault h]
  rfl

/-- Where it can be made, each source has its fate. -/
theorem exists_fated (renderer : Renderer) (file : DiagramFile) (hdry : c.dryRun = false)
    (h : (directoryMade c cwd d).2 = none) : ∃ fate, Fated renderer c cwd d file fate := by
  have hnames : ∀ n ∈ (sources renderer c file).keys, WriteResult.IsFileName (n ++ extension) :=
    fun n hn => isFileName_of_mem_keys (mem_keys_of_mem_sources hn)
  obtain ⟨fate, hfate⟩ := WriteResult.exists_fates_write h hnames
  have hwriting : writing renderer c cwd d file =
      let w := WriteResult.write (reading c cwd d).disk cwd c.outputDir (sources renderer c file)
        extension
      ⟨w.result.written, w.disk, writeEvents w.result.written.length w.result.failed w.events⟩ := by
    rw [writing, writePhase, if_neg (by simp [hdry])]
    rfl
  have hplace := place_directoryMade c cwd d
  refine ⟨fate, ?_, ?_, fun n hn hnone => ?_, fun n hn hnone => ?_, fun q hq => ?_⟩
  · rw [hwriting]
    exact hfate.written
  · rw [hwriting]
    dsimp only
    rw [hfate.written, hfate.failed, hfate.events, List.nil_append, List.nil_append,
      List.length_map, Nat.zero_add]
    rfl
  · obtain ⟨s, hs, rfl⟩ := List.mem_map.mp hn
    exact hfate.free s hs hnone
  · obtain ⟨s, hs, rfl⟩ := List.mem_map.mp hn
    obtain ⟨r, hr, hnone', hsame, hheld⟩ := hfate.held s hs hnone
    rw [hwriting]
    refine ⟨r.1, r.2, Table.mem_entries_iff.mp hr, hnone', ?_, hheld⟩
    rw [← hplace]
    exact hsame
  · rw [hwriting]
    refine hfate.kept q fun n hn hnone heq => hq n hn hnone ?_
    rw [← hplace]
    exact heq

/-- Where a directory was when the output directory had been made, there is still one. -/
theorem Fated.get?_of_directory {fate : String → Option Fault} {q : Path}
    (h : Fated renderer c cwd d file fate)
    (hq : (directoryMade c cwd d).1.get? q = some .directory) :
    (writing renderer c cwd d file).disk.get? q = some .directory := by
  rw [h.kept q, hq]
  intro n hn hnone heq
  rw [← place_directoryMade c cwd d] at heq
  rw [Disk.get?_of_place_eq heq] at hq
  exact (h.free n hn hnone).1 hq

/-- Where no other file leads to the same place, a source without a fault stands in its file. -/
theorem Fated.held_of_apart {fate : String → Option Fault} {n text : String}
    (h : Fated renderer c cwd d file fate) (htext : (sources renderer c file).get? n = some text)
    (hnone : fate n = none) (hapart : ∀ other ∈ (sources renderer c file).keys,
      d.place (artifactPath c cwd other) = d.place (artifactPath c cwd n) → other = n) :
    (writing renderer c cwd d file).disk.get? (artifactPath c cwd n) =
      some (.file (Disk.bytes text)) := by
  obtain ⟨other, held, hheld, -, hsame, hget⟩ :=
    h.held n (Table.mem_keys_iff.mpr ⟨text, htext⟩) hnone
  rw [hapart other (Table.mem_keys_iff.mpr ⟨held, hheld⟩) hsame, htext] at hheld
  cases hheld
  exact hget

end Run

end UmlDraft
