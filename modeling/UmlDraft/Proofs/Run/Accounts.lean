import UmlDraft.Proofs.Run.Phases

/-!
# The accounts of a run

No listener throws during a run, so it always gives an outcome, and the counts of the outcome are
those of what it holds. A run ends in one of four ways: the diagram cannot be read, nothing is to be
written, the output directory cannot be made, or every source is either written or the one cause of
a problem.
-/

namespace UmlDraft

open Event

/-- The counts of an outcome are those of what it holds. -/
structure Outcome.Counted (o : Outcome) : Prop where
  /-- The declared types of the diagram. -/
  declarations : o.stats.declarations = ((o.model.map fun m => m.declarations.size).getD 0 : Nat)
  /-- The relations of the diagram. -/
  relationships :
    o.stats.relationships = ((o.model.map fun m => m.relationships.count).getD 0 : Nat)
  /-- The sources. -/
  artifactsRendered : o.stats.artifactsRendered = o.sources.size
  /-- The written files. -/
  artifactsWritten : o.stats.artifactsWritten = o.written.length
  /-- The problems. -/
  errorsCount : o.stats.errorsCount = o.errors.length

/-- The names of the sources that were not written, in order. -/
def Outcome.unwritten (o : Outcome) : List String :=
  o.sources.keys.filter fun n => n ∉ o.written.map Artifact.name

/-- A problem as far as it says where it arose. -/
def Event.Problem.place (p : Problem) : Phase × String :=
  (p.phase, p.path)

namespace Run

/-- An outcome that follows from a diagram that was read. -/
structure FromFile (c : Config) (cwd : Path) (d : Disk) (file : DiagramFile) (o : Outcome) :
    Prop where
  /-- The diagram was read. -/
  reading : (reading c cwd d).result = some file
  /-- Its path is given. -/
  input : o.input = some file.path.toText
  /-- So is the diagram. -/
  model : o.model = some (Model.ofText file.content)
  /-- Every declared type has a source. -/
  sources : o.sources.size = (Model.ofText file.content).declarations.size
  /-- Only writing can go wrong. -/
  errors : ∀ e ∈ o.errors, e.phase = .write

/-- How a run ends. -/
inductive Ending (c : Config) (cwd : Path) (d : Disk) (o : Outcome) : Prop where
  /-- The diagram cannot be read. -/
  | unread (hreading : (reading c cwd d).result = none) (hinput : o.input = none)
    (hmodel : o.model = none) (hsources : o.sources = .empty) (hwritten : o.written = [])
    (herrors : o.errors.map Problem.phase = [.read])
  /-- Nothing is to be written. -/
  | dry {file : DiagramFile} (hfile : FromFile c cwd d file o) (hdry : c.dryRun = true)
    (hwritten : o.written = []) (herrors : o.errors = [])
  /-- The output directory cannot be made. -/
  | directory {file : DiagramFile} (hfile : FromFile c cwd d file o) (hdry : c.dryRun = false)
    (hmade : (directoryMade c cwd d).2 ≠ none) (hwritten : o.written = [])
    (herrors : o.errors.map Problem.place = [(.write, (outputDir c cwd).toText)])
  /-- Every source is written or the cause of a problem. -/
  | files {file : DiagramFile} (hfile : FromFile c cwd d file o) (hdry : c.dryRun = false)
    (hmade : (directoryMade c cwd d).2 = none)
    (hcount : o.written.length + o.errors.length = o.sources.size)
    (herrors : o.errors.map Problem.place =
      o.unwritten.map fun n => (.write, (artifactPath c cwd n).toText))

variable {renderer : Renderer} {c : Config} {cwd : Path} {d : Disk} {file : DiagramFile}
  {fate : String → Option Fault}

/-- Whatever a run announces, every listener hears it and none throws. -/
theorem steps_events (renderer : Renderer) (c : Config) (cwd : Path) (d : Disk) (budget : Nat) :
    Hub.steps budget ((phases renderer c cwd d).events.map Step.emit) Hub.wired =
      (Hub.wired.emitAll (phases renderer c cwd d).events, none) :=
  Hub.isWired_wired.steps_emit budget _

/-- The counts are right under any renderer. -/
theorem counted_run (renderer : Renderer) (c : Config) (cwd : Path) (d : Disk) :
    (run renderer c cwd d).outcome.Counted := by
  cases h : (reading c cwd d).result with
  | none =>
    rw [run_of_unread h]
    exact ⟨rfl, rfl, rfl, rfl, rfl⟩
  | some file =>
    rw [run_of_read h]
    exact ⟨rfl, rfl, rfl, rfl, rfl⟩

/-- A read diagram has one source for each declared type. -/
theorem size_sources (c : Config) (file : DiagramFile) :
    (sources .plain c file).size = (Model.ofText file.content).declarations.size := by
  rw [← Table.length_keys, ← Table.length_keys, sources, sourcesOf_plain,
    ← keys_generate (style c) file.content, generate]

/-- The problems of the write phase are those of the names with a fault. -/
theorem Fated.reported (h : Fated renderer c cwd d file fate) :
    ((writing renderer c cwd d file).events.filterMap Payload.reported?).map Problem.place =
      ((sources renderer c file).keys.filter fun n => fate n ≠ none).map fun n =>
        (.write, (artifactPath c cwd n).toText) := by
  rw [h.events, writeEvents, Payload.filterMap_reported?_phased]
  induction (sources renderer c file).keys with
  | nil => rfl
  | cons n names ih =>
    rw [List.map_cons, List.filterMap_cons, List.filter_cons]
    cases fate n with
    | none => exact ih
    | some fault =>
      exact congrArg (((.write, (artifactPath c cwd n).toText) : Phase × String) :: ·) ih

/-- The names with a fault are those that are not written. -/
theorem Fated.unwritten_eq (hfate : Fated renderer c cwd d file fate)
    (h : (reading c cwd d).result = some file) :
    (run renderer c cwd d).outcome.unwritten =
      (sources renderer c file).keys.filter fun n => fate n ≠ none := by
  have hnames : (writing renderer c cwd d file).result.map Artifact.name =
      (sources renderer c file).keys.filter fun n => fate n = none := by
    rw [hfate.result, List.map_map]
    exact List.map_id _
  rw [Outcome.unwritten, sources_run renderer h, written_run renderer h, hnames]
  refine List.filter_congr fun n hn => ?_
  simp [hn]

/-- Every name has a fault or has none. -/
theorem size_eq_filter_add (fate : String → Option Fault) (sources : Table String String) :
    sources.size = (sources.keys.filter fun n => fate n = none).length +
      (sources.keys.filter fun n => fate n ≠ none).length := by
  rw [← Table.length_keys,
    List.length_eq_length_filter_add (l := sources.keys) fun n => fate n = none]
  simp only [ne_eq, decide_not]

/-- The problems of a run that was read are those of its write phase. -/
theorem errors_run_plain (h : (reading c cwd d).result = some file) :
    (run .plain c cwd d).outcome.errors =
      (writing .plain c cwd d file).events.filterMap Payload.reported? := by
  rw [errors_run .plain h, reported_renderEvents, List.nil_append]

/-- What a run gives of a diagram that was read, if its problems are problems of writing. -/
theorem fromFile_run (h : (reading c cwd d).result = some file)
    (hplaces : ∀ place ∈ (run .plain c cwd d).outcome.errors.map Problem.place, place.1 = .write) :
    FromFile c cwd d file (run .plain c cwd d).outcome where
  reading := h
  input := input_run .plain h
  model := model_run .plain h
  sources := by rw [sources_run .plain h, size_sources]
  errors := fun e he => hplaces e.place (List.mem_map_of_mem he)

/-- A run whose diagram cannot be read ends with the problem of its reading. -/
theorem ending_of_unread (h : (reading c cwd d).result = none) :
    Ending c cwd d (run .plain c cwd d).outcome := by
  have hannounced := announced_reading c cwd d
  rw [h] at hannounced
  obtain ⟨e, he⟩ := hannounced.exists_reported
  rw [run_of_unread h]
  refine .unread h rfl rfl rfl rfl ?_
  dsimp only
  rw [he]
  rfl

/-- A dry run has no problem with a diagram that was read. -/
theorem errors_run_of_dry (h : (reading c cwd d).result = some file) (hdry : c.dryRun = true) :
    (run .plain c cwd d).outcome.errors = [] := by
  rw [errors_run_plain h, writing_of_dry .plain cwd d file hdry]
  rfl

/-- A dry run ends without a problem. -/
theorem ending_of_dry (h : (reading c cwd d).result = some file) (hdry : c.dryRun = true) :
    Ending c cwd d (run .plain c cwd d).outcome := by
  have herrors := errors_run_of_dry h hdry
  refine .dry (fromFile_run h (by rw [herrors]; exact nofun)) hdry ?_ herrors
  rw [written_run .plain h, writing_of_dry .plain cwd d file hdry]

/-- Where the output directory cannot be made, that is the one problem. -/
theorem ending_of_fault (h : (reading c cwd d).result = some file) (hdry : c.dryRun = false)
    {fault : Fault} (hmade : (directoryMade c cwd d).2 = some fault) :
    Ending c cwd d (run .plain c cwd d).outcome := by
  have hwriting := writing_of_fault .plain file hdry hmade
  have hplaces : (run .plain c cwd d).outcome.errors.map Problem.place =
      [(.write, (outputDir c cwd).toText)] := by
    rw [errors_run_plain h, hwriting]
    rfl
  refine .directory (fromFile_run h ?_) hdry (by simp [hmade]) ?_ hplaces
  · rw [hplaces]
    simp
  · rw [written_run .plain h, hwriting]

/-- Where it can be made, each source that is not written is a problem. -/
theorem ending_of_fated (hfate : Fated .plain c cwd d file fate)
    (h : (reading c cwd d).result = some file) (hdry : c.dryRun = false)
    (hmade : (directoryMade c cwd d).2 = none) : Ending c cwd d (run .plain c cwd d).outcome := by
  have hplaces := hfate.reported
  rw [← errors_run_plain h] at hplaces
  refine .files (fromFile_run h ?_) hdry hmade ?_ ?_
  · rw [hplaces]
    exact List.forall_mem_map.mpr fun _ _ => rfl
  · have hcount := congrArg List.length hplaces
    rw [List.length_map, List.length_map] at hcount
    rw [written_run .plain h, hfate.result, List.length_map, hcount, sources_run .plain h,
      ← size_eq_filter_add]
  · rw [hplaces, hfate.unwritten_eq h]

/-- A run always ends, with the counts of what it gives and in one of the four ways. -/
theorem ending_run (c : Config) (cwd : Path) (d : Disk) :
    (∀ budget, Hub.steps budget ((phases .plain c cwd d).events.map Step.emit) Hub.wired =
        (Hub.wired.emitAll (phases .plain c cwd d).events, none)) ∧
      (run .plain c cwd d).outcome.Counted ∧ Ending c cwd d (run .plain c cwd d).outcome := by
  refine ⟨steps_events .plain c cwd d, counted_run .plain c cwd d, ?_⟩
  cases h : (reading c cwd d).result with
  | none => exact ending_of_unread h
  | some file =>
    cases hdry : c.dryRun with
    | true => exact ending_of_dry h hdry
    | false =>
      cases hmade : (directoryMade c cwd d).2 with
      | some fault => exact ending_of_fault h hdry hmade
      | none =>
        obtain ⟨fate, hfate⟩ := exists_fated .plain file hdry hmade
        exact ending_of_fated hfate h hdry hmade

end Run

end UmlDraft
