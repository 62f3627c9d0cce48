import UmlDraft.Proofs.File.Lookup
import UmlDraft.Proofs.Run.Accounts

/-!
# The footprint of a run

A run changes the disk at four sorts of places only: the path of a missing diagram, the directories
above it, the output directory with those above it, and the files of declared types in the output
directory. Nothing is deleted. In the write phase every source is either in its file or refused with
its path as it was; and where the output directory cannot be made, the phase changes nothing, unless
a name is too long: then directories above it may have been made.
-/

namespace UmlDraft.Run

open Event

/-- What stands at a path that a run changed. -/
inductive Change (c : Config) (cwd : Path) (d : Disk) (r : Report) (q : Path) : Prop where
  /-- The sample, where the diagram was missing. -/
  | sample (hwants : c.wantsSample = true)
    (hmissing : d.stat (Path.resolve cwd c.input) = .error .missing)
    (hpath : q = Path.resolve cwd c.input) (hold : d.get? q = none)
    (hnew : r.disk.get? q = some (.file (Disk.bytes sampleDiagram)))
  /-- A directory above the sample. -/
  | sampleDirectory (hwants : c.wantsSample = true)
    (hmissing : d.stat (Path.resolve cwd c.input) = .error .missing)
    (hpath : q <+: (Path.resolve cwd c.input).parent) (hold : d.get? q = none)
    (hnew : r.disk.get? q = some .directory)
  /-- The output directory or a directory above it. -/
  | outputDirectory (hdry : c.dryRun = false) (hpath : q <+: outputDir c cwd)
    (hold : d.get? q = none) (hnew : r.disk.get? q = some .directory)
  /-- The file of a declared type, with its source. -/
  | artifact {m : Model} {n text : String} (hdry : c.dryRun = false)
    (hmodel : r.outcome.model = some m) (hdeclared : n ∈ m.declarations.keys)
    (hpath : q = artifactPath c cwd n) (hold : d.get? q ≠ some .directory)
    (hwritten : n ∈ r.outcome.written.map Artifact.name)
    (htext : r.outcome.sources.get? n = some text)
    (hnew : r.disk.get? q = some (.file (Disk.bytes text)))

/-- What the write phase of a run did. -/
inductive Delivered (c : Config) (cwd : Path) (d : Disk) (r : Report) : Prop where
  /-- The output directory cannot be made, and no source is written. -/
  | directory {fault : Fault} (hfault : (directoryMade c cwd d).2 = some fault)
    (hwritten : r.outcome.written = [])
    (hfailed : Payload.ended .write
      [("written", .nat 0), ("failed", .nat r.outcome.sources.size)] ∈ r.logs)
    (hkept : fault ≠ .nameTooLong ∨ (∀ name ∈ outputDir c cwd, Disk.fits name = true) →
      r.disk = (reading c cwd d).disk)
    (hmade : ∀ q, r.disk.get? q ≠ (reading c cwd d).disk.get? q →
      q <+: outputDir c cwd ∧ q ≠ outputDir c cwd ∧ (reading c cwd d).disk.get? q = none ∧
        r.disk.get? q = some .directory)
  /-- Every source is written or refused. -/
  | files (hmade : (directoryMade c cwd d).2 = none)
    (hwritten : r.outcome.written =
      (r.outcome.sources.keys.filter fun n => n ∉ r.outcome.unwritten).map fun n =>
        ⟨n, (artifactPath c cwd n).toText⟩)
    (hfailed : (r.outcome.errors.map Problem.place).filter (·.1 = .write) =
      r.outcome.unwritten.map fun n => (.write, (artifactPath c cwd n).toText))
    (hheld : ∀ n text, r.outcome.sources.get? n = some text → n ∉ r.outcome.unwritten →
      r.disk.get? (artifactPath c cwd n) = some (.file (Disk.bytes text)))
    (hkept : ∀ n ∈ r.outcome.unwritten,
      r.disk.get? (artifactPath c cwd n) = (reading c cwd d).disk.get? (artifactPath c cwd n))

variable {renderer : Renderer} {c : Config} {cwd q : Path} {d : Disk} {file : DiagramFile}
  {fate : String → Option Fault} {r : Report}

theorem rooted_reading (c : Config) (hcwd : cwd.Plain) (hd : d.Rooted) :
    (reading c cwd d).disk.Rooted :=
  DiagramFile.rooted_read hd hcwd

/-- A change that was made by reading. -/
theorem change_of_reading (hcwd : cwd.Plain) (hd : d.Rooted)
    (hq : r.disk.get? q = (reading c cwd d).disk.get? q) (hne : r.disk.get? q ≠ d.get? q) :
    Change c cwd d r q := by
  rw [hq] at hne
  obtain ⟨hwants, hmissing, hold, ⟨hpath, hnew⟩ | ⟨hpath, hnew⟩⟩ :=
    DiagramFile.read_changes hd hcwd hne
  · exact .sample hwants hmissing hpath hold (hq.trans hnew)
  · exact .sampleDirectory hwants hmissing hpath hold (hq.trans hnew)

/-- What is there before a run is there after its reading. -/
theorem get?_reading_of_some (hcwd : cwd.Plain) (hd : d.Rooted) {entry : Entry}
    (h : d.get? q = some entry) : (reading c cwd d).disk.get? q = some entry :=
  DiagramFile.get?_read_of_some hd hcwd h

/-- A change that was made by reading or by making the output directory. -/
theorem change_of_directoryMade (hcwd : cwd.Plain) (hd : d.Rooted) (hdry : c.dryRun = false)
    (hq : r.disk.get? q = (directoryMade c cwd d).1.get? q) (hne : r.disk.get? q ≠ d.get? q) :
    Change c cwd d r q := by
  by_cases hmade : (directoryMade c cwd d).1.get? q = (reading c cwd d).disk.get? q
  · exact change_of_reading hcwd hd (hq.trans hmade) hne
  · have hdirect := (rooted_reading c hcwd hd).direct
    obtain ⟨hpath, hold, hnew⟩ := hdirect.makeDirectories_changes hmade
    refine .outputDirectory hdry hpath ?_ (hq.trans hnew)
    cases hentry : d.get? q with
    | none => rfl
    | some entry =>
      rw [get?_reading_of_some hcwd hd hentry] at hold
      cases hold

/-- Without links the files of different types have places of their own. -/
theorem eq_of_place_artifactPath (hd : d.Direct) {n other : String}
    (h : d.place (artifactPath c cwd other) = d.place (artifactPath c cwd n)) : other = n := by
  rw [hd.place, hd.place] at h
  exact WriteResult.pathOf_inj h

/-- A source without a fault is a change at the path of its file. -/
theorem change_of_artifact (hfate : Fated renderer c cwd d file fate) (hcwd : cwd.Plain)
    (hd : d.Rooted) (h : (reading c cwd d).result = some file) (hdry : c.dryRun = false)
    {n : String} (hn : n ∈ (sources renderer c file).keys) (hnone : fate n = none) :
    Change c cwd d (run renderer c cwd d) (artifactPath c cwd n) := by
  obtain ⟨text, htext⟩ := Table.mem_keys_iff.mp hn
  have hplace := (hfate.free n hn hnone).1
  have hheld := hfate.held_of_apart htext hnone fun _ _ => eq_of_place_artifactPath hd.direct
  refine .artifact hdry (model_run renderer h) (mem_keys_of_mem_sources hn) rfl (fun hold => ?_) ?_
    ((sources_run renderer h).symm ▸ htext) (by rw [disk_run renderer h]; exact hheld)
  · have hreading := get?_reading_of_some (c := c) hcwd hd hold
    exact hplace (Disk.get?_makeDirectories_of_some hreading)
  · rw [written_run renderer h, hfate.result, List.map_map]
    exact List.mem_map.mpr ⟨n, List.mem_filter.mpr ⟨hn, by simp [hnone]⟩, rfl⟩

/-- Wherever a run changes the disk, the change is of one of the four sorts. -/
theorem change_of_ne (renderer : Renderer) (hcwd : cwd.Plain) (hd : d.Rooted)
    (hne : (run renderer c cwd d).disk.get? q ≠ d.get? q) :
    Change c cwd d (run renderer c cwd d) q := by
  cases h : (reading c cwd d).result with
  | none =>
    refine change_of_reading hcwd hd ?_ hne
    rw [run_of_unread h]
  | some file =>
    have hdisk := disk_run renderer h
    cases hdry : c.dryRun with
    | true =>
      refine change_of_reading hcwd hd ?_ hne
      rw [hdisk, writing_of_dry renderer cwd d file hdry]
    | false =>
      cases hmade : (directoryMade c cwd d).2 with
      | some fault =>
        refine change_of_directoryMade hcwd hd hdry ?_ hne
        rw [hdisk, writing_of_fault renderer file hdry hmade]
      | none =>
        obtain ⟨fate, hfate⟩ := exists_fated renderer file hdry hmade
        by_cases hq : ∃ n ∈ (sources renderer c file).keys, fate n = none ∧ q = artifactPath c cwd n
        · obtain ⟨n, hn, hnone, rfl⟩ := hq
          exact change_of_artifact hfate hcwd hd h hdry hn hnone
        · refine change_of_directoryMade hcwd hd hdry ?_ hne
          rw [hdisk]
          refine hfate.kept q fun n hn hnone heq => hq ⟨n, hn, hnone, ?_⟩
          rwa [hd.direct.place, hd.direct.place] at heq

/-- Whatever is there stays there, a directory as a directory and a file as a file. -/
theorem Change.kept (h : (r.disk.get? q ≠ d.get? q) → Change c cwd d r q) {entry : Entry}
    (hentry : d.get? q = some entry) :
    ∃ entry', r.disk.get? q = some entry' ∧ (entry' = .directory ↔ entry = .directory) := by
  by_cases hne : r.disk.get? q = d.get? q
  · exact ⟨entry, hne.trans hentry, Iff.rfl⟩
  · cases h hne with
    | sample _ _ _ hold | sampleDirectory _ _ _ hold | outputDirectory _ _ hold =>
      rw [hentry] at hold
      cases hold
    | artifact _ _ _ _ hold _ _ hnew =>
      refine ⟨_, hnew, nofun, fun hdirectory => absurd ?_ hold⟩
      rw [hentry, hdirectory]

/-- Making the output directory does not touch the files in it. -/
theorem get?_directoryMade_artifactPath (c : Config) (hcwd : cwd.Plain) (hd : d.Rooted)
    (n : String) :
    (directoryMade c cwd d).1.get? (artifactPath c cwd n) =
      (reading c cwd d).disk.get? (artifactPath c cwd n) := by
  by_contra hne
  have hdirect := (rooted_reading c hcwd hd).direct
  have hlength := (hdirect.makeDirectories_changes hne).1.length_le
  rw [artifactPath, List.length_append, List.length_singleton] at hlength
  omega

/-- The problems of rendering belong to its phase. -/
theorem phase_of_mem_reported_renderEvents {e : Problem}
    (he : e ∈ (renderEvents renderer c file).filterMap Payload.reported?) : e.phase = .render := by
  rw [renderEvents, Payload.filterMap_reported?_phased] at he
  obtain ⟨p, hp, hreported⟩ := List.mem_filterMap.mp he
  obtain ⟨⟨declaration, thrown | text⟩, -, rfl⟩ := List.mem_map.mp hp
  · cases hreported
    rfl
  · cases hreported

/-- The problems of the write phase name the files of the sources with a fault. -/
theorem Fated.places (hfate : Fated renderer c cwd d file fate)
    (h : (reading c cwd d).result = some file) :
    ((run renderer c cwd d).outcome.errors.map Problem.place).filter (·.1 = .write) =
      (run renderer c cwd d).outcome.unwritten.map fun n =>
        (.write, (artifactPath c cwd n).toText) := by
  have hrendering : (((renderEvents renderer c file).filterMap Payload.reported?).map
      Problem.place).filter (·.1 = .write) = [] := by
    refine List.filter_eq_nil_iff.mpr (List.forall_mem_map.mpr fun e he => ?_)
    simp [Problem.place, phase_of_mem_reported_renderEvents he]
  rw [errors_run renderer h, List.map_append, List.filter_append, hrendering, hfate.reported,
    hfate.unwritten_eq h, List.nil_append]
  exact List.filter_eq_self.mpr (List.forall_mem_map.mpr fun _ _ => rfl)

/-- Where the output directory cannot be made, nothing is written. -/
theorem delivered_of_fault (renderer : Renderer) (hcwd : cwd.Plain) (hd : d.Rooted)
    (hdry : c.dryRun = false) (h : (reading c cwd d).result = some file) {fault : Fault}
    (hmade : (directoryMade c cwd d).2 = some fault) :
    Delivered c cwd d (run renderer c cwd d) := by
  have hwriting := writing_of_fault renderer file hdry hmade
  have hdisk := disk_run renderer h
  rw [hwriting] at hdisk
  have hreading := rooted_reading c hcwd hd
  refine .directory hmade ?_ ?_ (fun hfits => ?_) fun q hq => ?_
  · rw [written_run renderer h, hwriting]
  · rw [sources_run renderer h, run_of_read h, hwriting]
    refine List.mem_filterMap.mpr ⟨_, ?_, Payload.record?_phaseEnd _⟩
    simp [writeEvents, Payload.phased]
  · rw [hdisk]
    rcases hfits with hfault | hfits
    · exact hreading.makeDirectories_eq hmade hfault
    · exact hreading.makeDirectories_eq_of_fits hmade hfits
  · rw [hdisk] at hq ⊢
    obtain ⟨hpath, hold, hnew⟩ := hreading.direct.makeDirectories_changes hq
    exact ⟨hpath, Disk.ne_of_makeDirectories_changes hreading.direct hmade hq, hold, hnew⟩

/-- Where it can be made, every source is written or refused. -/
theorem delivered_of_fated (hfate : Fated renderer c cwd d file fate) (hcwd : cwd.Plain)
    (hd : d.Rooted) (h : (reading c cwd d).result = some file)
    (hmade : (directoryMade c cwd d).2 = none) : Delivered c cwd d (run renderer c cwd d) := by
  have hunwritten := hfate.unwritten_eq h
  refine .files hmade ?_ (hfate.places h) (fun n text htext hn => ?_) fun n hn => ?_
  · rw [written_run renderer h, hunwritten, sources_run renderer h, hfate.result]
    refine congrArg (List.map _) (List.filter_congr fun n hn => ?_)
    simp [hn]
  · rw [sources_run renderer h] at htext
    have hkey := Table.mem_keys_iff.mpr ⟨text, htext⟩
    rw [disk_run renderer h]
    exact hfate.held_of_apart htext (by simpa [hunwritten, hkey] using hn)
      fun _ _ => eq_of_place_artifactPath hd.direct
  · rw [hunwritten, List.mem_filter] at hn
    have hkept := hfate.kept (artifactPath c cwd n) fun other _ hnone heq => by
      rw [← eq_of_place_artifactPath hd.direct heq] at hnone
      exact of_decide_eq_true hn.2 hnone
    rw [disk_run renderer h, hkept]
    exact get?_directoryMade_artifactPath c hcwd hd n

/-- In the write phase every source is written or refused, and where the output directory cannot be
made nothing else happens. -/
theorem delivered_run (renderer : Renderer) (hcwd : cwd.Plain) (hd : d.Rooted)
    (hdry : c.dryRun = false) (h : (reading c cwd d).result = some file) :
    Delivered c cwd d (run renderer c cwd d) := by
  cases hmade : (directoryMade c cwd d).2 with
  | some fault => exact delivered_of_fault renderer hcwd hd hdry h hmade
  | none =>
    obtain ⟨fate, hfate⟩ := exists_fated renderer file hdry hmade
    exact delivered_of_fated hfate hcwd hd h hmade

/-- A run changes the disk at its own places only and deletes nothing. Where something is to be
written and the diagram was read, every source is in its file or its path is as it was; where the
output directory cannot be made the write phase changes nothing, but for directories above it if one
of its names is too long. -/
theorem footprint_run (renderer : Renderer) (c : Config) (hcwd : cwd.Plain) (hd : d.Rooted) :
    (∀ q, (run renderer c cwd d).disk.get? q ≠ d.get? q →
        Change c cwd d (run renderer c cwd d) q) ∧
      (∀ q entry, d.get? q = some entry → ∃ entry',
        (run renderer c cwd d).disk.get? q = some entry' ∧
          (entry' = .directory ↔ entry = .directory)) ∧
      ∀ file, c.dryRun = false → (reading c cwd d).result = some file →
        Delivered c cwd d (run renderer c cwd d) :=
  ⟨fun _ => change_of_ne renderer hcwd hd,
    fun _ _ => Change.kept (change_of_ne renderer hcwd hd),
    fun _ => delivered_run renderer hcwd hd⟩

/-- A disk with a directory that holds a file of notes and a diagram of one class. -/
def notesDisk : Disk :=
  (workDisk.put ["work", "notes"] (.file [1, 2, 3])).put ["work", "d.puml"]
    (.file (Disk.bytes "class A \x7b\n\x7d\n"))

theorem rooted_notesDisk : notesDisk.Rooted := by
  have hwork : workDisk.Rooted := Disk.rooted_empty.put (by simp) rfl (.inl rfl)
  have hnotes : (workDisk.put ["work", "notes"] (.file [1, 2, 3])).Rooted :=
    hwork.put (by simp) rfl (.inr (by decide))
  exact hnotes.put (by simp) rfl (.inr (by decide))

/-- A run that writes into a directory of its own. -/
def notesConfig : Config where
  input := "d.puml"
  outputDir := "out"

theorem result_reading_notes : (reading notesConfig ["work"] notesDisk).result =
    some ⟨["work", "d.puml"], Disk.text (Disk.bytes "class A \x7b\n\x7d\n"), false⟩ :=
  rfl

/-- A run on the diagram leaves the notes beside it as they were and delivers its sources. -/
theorem footprint_run_notes :
    (Path.Plain ["work"] ∧ notesDisk.Rooted ∧ notesConfig.dryRun = false ∧
        (reading notesConfig ["work"] notesDisk).result.isSome) ∧
      (run .plain notesConfig ["work"] notesDisk).disk.get? ["work", "notes"] =
          some (.file [1, 2, 3]) ∧
        Delivered notesConfig ["work"] notesDisk (run .plain notesConfig ["work"] notesDisk) := by
  have hcwd : Path.Plain ["work"] := by decide
  have hnotes : notesDisk.get? ["work", "notes"] = some (.file [1, 2, 3]) := rfl
  obtain ⟨hchange, -, hdelivered⟩ := footprint_run .plain notesConfig hcwd rooted_notesDisk
  refine ⟨⟨hcwd, rooted_notesDisk, rfl, by rw [result_reading_notes]; rfl⟩, ?_,
    hdelivered _ rfl result_reading_notes⟩
  rw [← hnotes]
  by_contra hne
  cases hchange _ hne with
  | sample _ _ _ hold | sampleDirectory _ _ _ hold | outputDirectory _ _ hold =>
    rw [hnotes] at hold
    cases hold
  | artifact _ _ _ hpath =>
    have hlength := congrArg List.length hpath
    have hdir : outputDir notesConfig ["work"] = ["work", "out"] := rfl
    rw [artifactPath, hdir] at hlength
    cases hlength

/-- A name that is too long for any directory. -/
def longName : String :=
  .ofList (List.replicate 256 'x')

theorem utf8ByteSize_replicate (n : Nat) :
    (String.ofList (List.replicate n 'x')).utf8ByteSize = n := by
  induction n with
  | zero => rfl
  | succ n ih =>
    rw [List.replicate_succ', String.ofList_append, String.utf8ByteSize_append, ih]
    rfl

theorem size_longName : longName.utf8ByteSize = 256 :=
  utf8ByteSize_replicate 256

theorem toList_longName : longName.toList = List.replicate 256 'x' :=
  String.toList_ofList

theorem fits_longName : Disk.fits longName = false := by
  rw [Disk.fits, size_longName]
  rfl

theorem isName_longName : Path.IsName longName := by
  refine ⟨?_, ?_, ?_⟩
  all_goals
    intro h
    have hsize := size_longName
    rw [h] at hsize
    cases hsize

/-- An output directory that is to be made below another one, under a name that is too long. -/
def longNameConfig : Config where
  input := "d.puml"
  outputDir := "made" ++ "/" ++ longName

theorem outputDir_longName : outputDir longNameConfig ["work"] = ["work", "made", longName] := by
  have hslash : '/' ∉ longName.toList := by
    rw [toList_longName]
    exact fun h => absurd (List.eq_of_mem_replicate h) (by decide)
  have hrelative : Path.isAbsolute longNameConfig.outputDir = false := by
    rw [Path.isAbsolute, longNameConfig, String.toList_append]
    rfl
  have hmade : Path.join ["work"] "made" = ["work", "made"] := rfl
  rw [outputDir, Path.resolve, hrelative, if_neg Bool.false_ne_true, longNameConfig,
    Path.join_slash, hmade, Path.join_of_isName isName_longName hslash]
  rfl

/-- The path of the long name is not too long itself. -/
theorem pathFault?_longName : Disk.pathFault? ["work", "made", longName] = none := by
  have hnull : longName.toList.contains '\x00' = false := by
    rw [toList_longName]
    decide
  have hsize : Disk.pathBytes ["work", "made", longName] = 267 := by
    rw [Disk.pathBytes, Disk.pathBytes, Disk.pathBytes, size_longName]
    rfl
  rw [Disk.pathFault?, hsize, List.any_cons, List.any_cons, List.any_cons, hnull]
  decide

/-- The directory above the long name is made before the name is found to be too long. -/
theorem makeDirectories_longName :
    notesDisk.makeDirectories ["work", "made", longName] =
      (notesDisk.put ["work", "made"] .directory, some .nameTooLong) := by
  have hwork : notesDisk.get? ([] ++ ["work"]) = some .directory := rfl
  have hmade : notesDisk.get? ([] ++ ["work"] ++ ["made"]) = none := rfl
  rw [Disk.makeDirectories, pathFault?_longName]
  dsimp only
  rw [Disk.makeFrom, if_neg (by decide), hwork]
  dsimp only
  rw [Disk.makeFrom, if_neg (by decide), hmade]
  dsimp only
  rw [if_neg (by decide), Disk.makeFrom, if_pos (by simp [fits_longName])]
  rfl

/-- Where the output directory cannot be made for its long name, the directory above it is made and
stays. -/
theorem directory_left_of_longName :
    longNameConfig.dryRun = false ∧
      (reading longNameConfig ["work"] notesDisk).result.isSome ∧
      (directoryMade longNameConfig ["work"] notesDisk).2 = some .nameTooLong ∧
      (reading longNameConfig ["work"] notesDisk).disk.get? ["work", "made"] = none ∧
      (run .plain longNameConfig ["work"] notesDisk).disk.get? ["work", "made"] =
        some .directory := by
  have hread : (reading longNameConfig ["work"] notesDisk).result =
      some ⟨["work", "d.puml"], Disk.text (Disk.bytes "class A \x7b\n\x7d\n"), false⟩ := rfl
  have hdisk : (reading longNameConfig ["work"] notesDisk).disk = notesDisk := rfl
  have hmade : directoryMade longNameConfig ["work"] notesDisk =
      (notesDisk.put ["work", "made"] .directory, some .nameTooLong) := by
    rw [directoryMade, hdisk, outputDir_longName, makeDirectories_longName]
  refine ⟨rfl, by rw [hread]; rfl, by rw [hmade], by rw [hdisk]; rfl, ?_⟩
  rw [run_of_read hread, writing_of_fault .plain _ rfl (by rw [hmade]), hmade]
  rfl

end UmlDraft.Run
