import Mathlib.Data.List.Forall2
import UmlDraft.Proofs.Event.Bracket
import UmlDraft.Proofs.Run.Accounts

/-!
# The log of a run

A run that cannot read its diagram logs the read phase alone. Any other run logs the read, the
extract and the render phase, and after them the write phase or the notice of a dry run. Inside its
phase stands what the run has to say of each duplicate, each declaration and each source, and a
phase ends with counters that are those of the outcome.
-/

namespace UmlDraft

open Event

/-- The counters with which a phase ends. -/
def Outcome.counters (o : Outcome) : Phase → List (String × Json)
  | .read => [("files", .int (if o.model.isSome then 1 else 0))]
  | .extract =>
    [("declarations", .int o.stats.declarations), ("relationships", .int o.stats.relationships)]
  | .render => [("artifacts", .int o.stats.artifactsRendered)]
  | .write =>
    [("written", .int o.stats.artifactsWritten),
      ("failed", .int (o.stats.artifactsRendered - o.stats.artifactsWritten))]

namespace Run

/-- The phases that a run goes through. -/
def passed (c : Config) (cwd : Path) (d : Disk) : List Phase :=
  match (reading c cwd d).result with
  | none => [.read]
  | some _ => if c.dryRun then [.read, .extract, .render] else [.read, .extract, .render, .write]

/-- The record that a type was declared again. -/
def duplicateRecord (name : String) : Log.Record :=
  Payload.noted .warn .extract
    ("Duplicate declaration \"" ++ name ++ "\": the last definition wins") [("name", .string name)]

/-- The record that the diagram was parsed. -/
def parsedRecord (path : String) (o : Outcome) : Log.Record :=
  Payload.noted .debug .extract "Parsed diagram"
    [("file", .string path), ("declarations", .int o.stats.declarations),
      ("relationships", .int o.stats.relationships)]

/-- The record that a declaration was rendered. -/
def renderedRecord (d : Declaration) : Log.Record :=
  Payload.noted .debug .render ("Rendered " ++ d.name)
    [("name", .string d.name), ("kind", .string d.kind.name)]

/-- The record that a file operation failed while the sources were written. -/
def failedRecord (path : Path) (e : FileError) : Log.Record :=
  Payload.noted .warn .write e.message
    [("path", .string path.toText), ("code", .string e.fault.code)]

/-- The record of a source. -/
inductive Told (c : Config) (cwd : Path) (o : Outcome) (n : String) : Log.Record → Prop where
  /-- The source was written. -/
  | written (h : ⟨n, (artifactPath c cwd n).toText⟩ ∈ o.written) :
    Told c cwd o n (Payload.noted .info .write ("Generated " ++ (n ++ extension))
      [("file", .string (artifactPath c cwd n).toText)])
  /-- The source could not be written. -/
  | failed (h : n ∈ o.unwritten) (e : FileError) :
    Told c cwd o n (failedRecord (artifactPath c cwd n) e)

/-- The records inside the phases of a run. -/
inductive Inside (c : Config) (cwd : Path) (d : Disk) (o : Outcome) :
    Phase → List Log.Record → Prop where
  /-- What reading had to say. -/
  | read : Inside c cwd d o .read ((reading c cwd d).events.filterMap Payload.record?)
  /-- The duplicates in order, and that the diagram was parsed. -/
  | extract {m : Model} {path : String} (hmodel : o.model = some m) (hinput : o.input = some path) :
    Inside c cwd d o .extract (m.duplicates.map duplicateRecord ++ [parsedRecord path o])
  /-- The declarations in order. -/
  | render {m : Model} (hmodel : o.model = some m) :
    Inside c cwd d o .render (m.declarations.values.map renderedRecord)
  /-- That the output directory cannot be made. -/
  | directory (hmade : (directoryMade c cwd d).2 ≠ none) (e : FileError) :
    Inside c cwd d o .write [failedRecord (outputDir c cwd) e]
  /-- The sources in order. -/
  | files (hmade : (directoryMade c cwd d).2 = none) {records : List Log.Record}
    (htold : List.Forall₂ (Told c cwd o) o.sources.keys records) :
    Inside c cwd d o .write records

/-- The notice of a dry run. -/
def dryRecord (o : Outcome) : Log.Record :=
  Payload.noted .info .write "Dry run: no files written"
    [("artifacts", .int o.stats.artifactsRendered)]

/-- What is logged outside of all phases. -/
def outside (c : Config) (cwd : Path) (d : Disk) (o : Outcome) : List Log.Record :=
  match (reading c cwd d).result with
  | none => []
  | some _ => if c.dryRun then [dryRecord o] else []

/-- The log of a run: its phases, each of them once and none inside another, with nothing but
records of a phase while it is open, and behind them the notice of a dry run. -/
def Protocol (c : Config) (cwd : Path) (d : Disk) (r : Report) : Prop :=
  ∃ inner : Phase → List Log.Record,
    let phases := (passed c cwd d).flatMap fun phase =>
      Stage.bracket phase (inner phase) (r.outcome.counters phase)
    (∀ phase ∈ passed c cwd d, Inside c cwd d r.outcome phase (inner phase)) ∧
      Stage.follow {} phases = some { closed := passed c cwd d } ∧
      r.logs = phases ++ outside c cwd d r.outcome

variable {c : Config} {cwd : Path} {d : Disk} {o : Outcome} {file : DiagramFile} {phase : Phase}
  {inner : List Log.Record}

theorem within_failedRecord (path : Path) (e : FileError) : (failedRecord path e).Within .write :=
  Log.Record.within_noted (by simp) (Mark.ofText?_message e)

/-- What reading has to say belongs to its phase. -/
theorem within_announced {path : Path} {result : Option DiagramFile} {events : List Payload}
    (h : DiagramFile.Announced path result events) :
    ∀ r ∈ events.filterMap Payload.record?, r.Within .read := by
  have hcreated : ∀ r ∈ ([DiagramFile.created path]).filterMap Payload.record?, r.Within .read := by
    rw [List.filterMap_cons, DiagramFile.created, Payload.record?_info]
    refine List.forall_mem_singleton.mpr (Log.Record.within_noted (by simp) ?_)
    exact Mark.ofText?_append (by decide) (by decide) _
  have hlead : ∀ lead, lead = [] ∨ lead = [DiagramFile.created path] →
      ∀ r ∈ lead.filterMap Payload.record?, r.Within .read := by
    rintro lead (rfl | rfl)
    · exact nofun
    · exact hcreated
  cases h with
  | failed hlead' e =>
    rw [List.filterMap_append]
    refine List.forall_mem_append.mpr ⟨hlead _ hlead', ?_⟩
    refine List.forall_mem_singleton.mpr (Log.Record.within_noted (by simp) ?_)
    exact Mark.ofText?_message e
  | done hlead' content =>
    rw [List.filterMap_append]
    refine List.forall_mem_append.mpr ⟨hlead _ hlead', ?_⟩
    rw [List.filterMap_cons, DiagramFile.readDone, Payload.record?_info]
    exact List.forall_mem_singleton.mpr (Log.Record.within_noted (by simp) (by decide))

theorem Told.within {n : String} {r : Log.Record} (h : Told c cwd o n r) : r.Within .write := by
  cases h with
  | written =>
    exact Log.Record.within_noted (by simp) (Mark.ofText?_append (by decide) (by decide) _)
  | failed _ e => exact within_failedRecord _ e

theorem within_of_told {names : List String} {records : List Log.Record}
    (h : List.Forall₂ (Told c cwd o) names records) : ∀ r ∈ records, r.Within .write := by
  induction h with
  | nil => exact nofun
  | cons hr _ ih => exact List.forall_mem_cons.mpr ⟨hr.within, ih⟩

/-- What stands inside a phase belongs to it. -/
theorem Inside.within (h : Inside c cwd d o phase inner) : ∀ r ∈ inner, r.Within phase := by
  cases h with
  | read => exact within_announced (announced_reading c cwd d)
  | extract =>
    refine List.forall_mem_append.mpr ⟨List.forall_mem_map.mpr fun name _ => ?_, ?_⟩
    · refine Log.Record.within_noted (by simp) ?_
      rw [String.append_assoc]
      exact Mark.ofText?_append (by decide) (by decide) _
    · exact List.forall_mem_singleton.mpr (Log.Record.within_noted (by simp) (by decide))
  | render =>
    refine List.forall_mem_map.mpr fun declaration _ => ?_
    exact Log.Record.within_noted (by simp) (Mark.ofText?_append (by decide) (by decide) _)
  | directory _ e => exact List.forall_mem_singleton.mpr (within_failedRecord _ e)
  | files _ htold => exact within_of_told htold

theorem passed_nodup (c : Config) (cwd : Path) (d : Disk) : (passed c cwd d).Nodup := by
  unfold passed
  split
  · decide
  · split <;> decide

theorem counters_unnamed (o : Outcome) (phase : Phase) :
    "phase" ∉ (o.counters phase).map Prod.fst := by
  cases phase <;> simp [Outcome.counters]

/-- A log of phases whose records are right is one that can be followed. -/
theorem protocol_of_logs {r : Report} (inner : Phase → List Log.Record)
    (hinside : ∀ phase ∈ passed c cwd d, Inside c cwd d r.outcome phase (inner phase))
    (hlogs : r.logs = ((passed c cwd d).flatMap fun phase =>
      Stage.bracket phase (inner phase) (r.outcome.counters phase)) ++ outside c cwd d r.outcome) :
    Protocol c cwd d r := by
  refine ⟨inner, hinside, ?_, hlogs⟩
  exact Stage.follow_brackets (passed_nodup c cwd d)
    (fun phase hphase => (hinside phase hphase).within) (counters_unnamed r.outcome)

/-- The records inside the phases of a run that read its diagram. -/
def records (c : Config) (cwd : Path) (d : Disk) (m : Model) (path : String) (o : Outcome)
    (writes : List Log.Record) : Phase → List Log.Record
  | .read => (reading c cwd d).events.filterMap Payload.record?
  | .extract => m.duplicates.map duplicateRecord ++ [parsedRecord path o]
  | .render => m.declarations.values.map renderedRecord
  | .write => writes

/-- A run whose diagram cannot be read logs one phase. -/
theorem protocol_of_unread (h : (reading c cwd d).result = none) :
    Protocol c cwd d (run .plain c cwd d) := by
  have hpassed : passed c cwd d = [.read] := by
    rw [passed, h]
  have houtside : outside c cwd d (run .plain c cwd d).outcome = [] := by
    rw [outside, h]
  refine protocol_of_logs (fun _ => (reading c cwd d).events.filterMap Payload.record?)
    (fun phase hphase => ?_) ?_
  · rw [hpassed] at hphase
    rw [List.mem_singleton.mp hphase]
    exact .read
  · rw [hpassed, houtside, List.append_nil, List.flatMap_cons, List.flatMap_nil, List.append_nil,
      run_of_unread h]
    exact Stage.filterMap_record?_phased .read (reading c cwd d).events [("files", .nat 0)]

/-- What is announced of the extraction leaves its records. -/
theorem filterMap_extractEvents (file : DiagramFile) (m : Model) :
    (extractEvents file m).filterMap Payload.record? =
      Stage.bracket .extract
        (m.duplicates.map duplicateRecord ++
          [Payload.noted .debug .extract "Parsed diagram"
            [("file", .string file.path.toText), ("declarations", .nat m.declarations.size),
              ("relationships", .nat m.relationships.count)]])
        [("declarations", .nat m.declarations.size),
          ("relationships", .nat m.relationships.count)] := by
  have hrecord (name : String) : (duplicateEvent name).record? = some (duplicateRecord name) :=
    Payload.record?_warn _ _
  rw [extractEvents_eq, Stage.filterMap_record?_phased, List.filterMap_append,
    Payload.filterMap_record?_map hrecord, List.filterMap_cons, parsedEvent, Payload.record?_debug]
  rfl

/-- What is announced of the rendering leaves its records. -/
theorem filterMap_renderEvents (c : Config) (file : DiagramFile) :
    (renderEvents .plain c file).filterMap Payload.record? =
      Stage.bracket .render ((Model.ofText file.content).declarations.values.map renderedRecord)
        [("artifacts", .nat (sources .plain c file).size)] := by
  have hrecord (d : Declaration) : (renderEvent file d
      (Renderer.plain (style c) d (Model.ofText file.content))).record? = some (renderedRecord d) :=
    Payload.record?_debug _ _
  have hrendered := Payload.filterMap_record?_map hrecord
    (Model.ofText file.content).declarations.values
  rw [renderEvents, Stage.filterMap_record?_phased, renderings, List.map_map, ← hrendered]
  rfl

/-- What a run that reads its diagram logs before the write phase. -/
theorem logs_of_read (h : (reading c cwd d).result = some file) (writes : List Log.Record) :
    (run .plain c cwd d).logs =
      ([Phase.read, .extract, .render].flatMap fun phase =>
        Stage.bracket phase
          (records c cwd d (Model.ofText file.content) file.path.toText
            (run .plain c cwd d).outcome writes phase)
          ((run .plain c cwd d).outcome.counters phase)) ++
        (writing .plain c cwd d file).events.filterMap Payload.record? := by
  have hread := Stage.filterMap_record?_phased .read (reading c cwd d).events [("files", .nat 1)]
  rw [run_of_read h]
  dsimp only
  rw [List.filterMap_append, List.filterMap_append, List.filterMap_append, filterMap_extractEvents,
    filterMap_renderEvents, readEvents, hread, List.flatMap_cons, List.flatMap_cons,
    List.flatMap_cons, List.flatMap_nil, List.append_nil, List.append_assoc, List.append_assoc]
  rfl

theorem inside_records (h : (reading c cwd d).result = some file) (writes : List Log.Record)
    (hphase : phase ∈ [Phase.read, .extract, .render]) :
    Inside c cwd d (run .plain c cwd d).outcome phase
      (records c cwd d (Model.ofText file.content) file.path.toText (run .plain c cwd d).outcome
        writes phase) := by
  cases phase with
  | read => exact .read
  | extract => exact .extract (model_run .plain h) (input_run .plain h)
  | render => exact .render (model_run .plain h)
  | write => simp at hphase

/-- A dry run logs three phases and its notice. -/
theorem protocol_of_dry (h : (reading c cwd d).result = some file) (hdry : c.dryRun = true) :
    Protocol c cwd d (run .plain c cwd d) := by
  have hpassed : passed c cwd d = [.read, .extract, .render] := by
    rw [passed, h]
    exact if_pos hdry
  have houtside : outside c cwd d (run .plain c cwd d).outcome =
      [dryRecord (run .plain c cwd d).outcome] := by
    rw [outside, h]
    exact if_pos hdry
  have hnotice : (writing .plain c cwd d file).events.filterMap Payload.record? =
      [dryRecord (run .plain c cwd d).outcome] := by
    rw [writing_of_dry .plain cwd d file hdry, List.filterMap_cons, dryNotice, Payload.record?_info,
      run_of_read h]
    rfl
  refine protocol_of_logs (records c cwd d (Model.ofText file.content) file.path.toText
    (run .plain c cwd d).outcome []) (fun phase hphase => ?_) ?_
  · rw [hpassed] at hphase
    exact inside_records h [] hphase
  · rw [hpassed, houtside, ← hnotice]
    exact logs_of_read h []

/-- A run that is to write logs four phases. -/
theorem protocol_of_writes (h : (reading c cwd d).result = some file) (hdry : c.dryRun = false)
    {writes : List Log.Record} (hinside : Inside c cwd d (run .plain c cwd d).outcome .write writes)
    (hwrites : (writing .plain c cwd d file).events.filterMap Payload.record? =
      Stage.bracket .write writes ((run .plain c cwd d).outcome.counters .write)) :
    Protocol c cwd d (run .plain c cwd d) := by
  have hpassed : passed c cwd d = [.read, .extract, .render] ++ [.write] := by
    rw [passed, h]
    exact if_neg (by simp [hdry])
  have houtside : outside c cwd d (run .plain c cwd d).outcome = [] := by
    rw [outside, h]
    exact if_neg (by simp [hdry])
  refine protocol_of_logs (records c cwd d (Model.ofText file.content) file.path.toText
    (run .plain c cwd d).outcome writes) (fun phase hphase => ?_) ?_
  · rw [hpassed] at hphase
    rcases List.mem_append.mp hphase with hphase | hphase
    · exact inside_records h writes hphase
    · rw [List.mem_singleton.mp hphase]
      exact hinside
  · rw [hpassed, houtside, List.append_nil, List.flatMap_append, List.flatMap_singleton,
      logs_of_read h writes, hwrites]
    rfl

/-- Where the output directory cannot be made, the write phase has one record. -/
theorem protocol_of_fault (h : (reading c cwd d).result = some file) (hdry : c.dryRun = false)
    {fault : Fault} (hmade : (directoryMade c cwd d).2 = some fault) :
    Protocol c cwd d (run .plain c cwd d) := by
  have hcounters : (run .plain c cwd d).outcome.counters .write =
      [("written", .nat 0), ("failed", .nat (sources .plain c file).size)] := by
    rw [run_of_read h, writing_of_fault .plain file hdry hmade]
    simp [Outcome.counters, Json.nat]
  refine protocol_of_writes h hdry
    (.directory (by simp [hmade]) ⟨fault, "mkdir", some (outputDir c cwd).toText⟩) ?_
  rw [hcounters, writing_of_fault .plain file hdry hmade, writeEvents,
    Stage.filterMap_record?_phased]
  rfl

/-- The record of a source with its fault. -/
def fateRecord (c : Config) (cwd : Path) (n : String) : Option Fault → Log.Record
  | none => Payload.noted .info .write ("Generated " ++ (n ++ extension))
    [("file", .string (artifactPath c cwd n).toText)]
  | some fault => failedRecord (artifactPath c cwd n)
    ⟨fault, "open", some (artifactPath c cwd n).toText⟩

theorem record?_announcement (c : Config) (cwd : Path) (n : String) (fault : Option Fault) :
    (WriteResult.announcement (outputDir c cwd) extension n fault).record? =
      some (fateRecord c cwd n fault) := by
  cases fault with
  | none => exact Payload.record?_info _ _
  | some fault => exact Payload.record?_failure _

/-- The counters of the write phase are those of the outcome. -/
theorem Fated.counters {fate : String → Option Fault} (hfate : Fated .plain c cwd d file fate)
    (h : (reading c cwd d).result = some file) :
    (run .plain c cwd d).outcome.counters .write =
      [("written", .nat ((sources .plain c file).keys.filter fun n => fate n = none).length),
        ("failed", .nat ((sources .plain c file).keys.filter fun n => fate n ≠ none).length)] := by
  have hsplit := size_eq_filter_add fate (sources .plain c file)
  have hfailed : ((sources .plain c file).size : Int) -
      (((sources .plain c file).keys.filter fun n => fate n = none).length : Nat) =
      (((sources .plain c file).keys.filter fun n => fate n ≠ none).length : Nat) := by
    omega
  rw [run_of_read h]
  dsimp only [Outcome.counters]
  rw [hfate.result, List.length_map, hfailed]
  rfl

/-- Where the output directory can be made, the write phase has one record for each source. -/
theorem protocol_of_fated {fate : String → Option Fault} (hfate : Fated .plain c cwd d file fate)
    (h : (reading c cwd d).result = some file) (hdry : c.dryRun = false)
    (hmade : (directoryMade c cwd d).2 = none) : Protocol c cwd d (run .plain c cwd d) := by
  have htold : List.Forall₂ (Told c cwd (run .plain c cwd d).outcome)
      (run .plain c cwd d).outcome.sources.keys
      ((sources .plain c file).keys.map fun n => fateRecord c cwd n (fate n)) := by
    rw [sources_run .plain h]
    refine List.forall₂_map_right_iff.mpr (List.forall₂_same.mpr fun n hn => ?_)
    cases hfault : fate n with
    | none =>
      refine .written ?_
      rw [written_run .plain h, hfate.result]
      exact List.mem_map.mpr ⟨n, List.mem_filter.mpr ⟨hn, by simp [hfault]⟩, rfl⟩
    | some fault =>
      refine .failed ?_ _
      rw [hfate.unwritten_eq h]
      exact List.mem_filter.mpr ⟨hn, by simp [hfault]⟩
  have hrecords := Payload.filterMap_record?_map
    (fun n => record?_announcement c cwd n (fate n)) (sources .plain c file).keys
  refine protocol_of_writes h hdry (.files hmade htold) ?_
  rw [hfate.events, hfate.counters h, writeEvents, Stage.filterMap_record?_phased, hrecords]

/-- The log of a run goes through its phases in order. -/
theorem protocol_run (c : Config) (cwd : Path) (d : Disk) :
    Protocol c cwd d (run .plain c cwd d) := by
  cases h : (reading c cwd d).result with
  | none => exact protocol_of_unread h
  | some file =>
    cases hdry : c.dryRun with
    | true => exact protocol_of_dry h hdry
    | false =>
      cases hmade : (directoryMade c cwd d).2 with
      | some fault => exact protocol_of_fault h hdry hmade
      | none =>
        obtain ⟨fate, hfate⟩ := exists_fated .plain file hdry hmade
        exact protocol_of_fated hfate h hdry hmade

end Run

end UmlDraft
