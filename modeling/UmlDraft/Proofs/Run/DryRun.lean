import UmlDraft.Proofs.File.Growth
import UmlDraft.Run.Pipeline

/-!
# Dry runs

A dry run writes no generated file. It reads the diagram as any run does, though, and if nothing is
found at its path the reading may write the sample diagram there. So the disk stays as it was unless
the diagram is missing and the sample is wanted, which it is where nothing is said; then it changes,
unless a link that leads nowhere keeps all from being made.
-/

namespace UmlDraft

/-- Whether the sample diagram is to be written where the diagram is missing. -/
def Config.wantsSample (c : Config) : Bool :=
  c.createSample.getD ({} : Settings).createSample

namespace DiagramFile

variable {d : Disk} {path q : Path}

/-- What the directories above the sample leave on the disk is not lost. -/
theorem get?_writeSample (h : ((d.makeDirectories path.parent).1.get? q).isSome) :
    ((writeSample d path).1.get? q).isSome := by
  unfold writeSample
  generalize d.makeDirectories path.parent = made at h
  obtain ⟨d', fault⟩ := made
  cases fault with
  | some fault => exact h
  | none =>
    dsimp only
    split
    · exact h
    · next written hwritten =>
      rw [Disk.get?_write hwritten]
      split
      · rfl
      · exact h

/-- Where a directory above the sample is missing, one is made unless a link is in the way. -/
theorem get?_writeSample_above {dir : Path} {name : String} {after : List String}
    (hgap : d.Gap [] dir name) (hp : (dir ++ name :: after).Plain)
    (hfault : Disk.pathFault? (dir ++ name :: after) = none) (hafter : after ≠ [])
    (hlink : d.isLink dir name = false) :
    ((writeSample d (dir ++ name :: after)).1.get? (dir ++ [name])).isSome := by
  have hparent := Disk.pathFault?_parent hfault
  refine get?_writeSample ?_
  rw [Path.parent_append_cons dir name hafter] at hparent ⊢
  rw [hgap.get?_makeDirectories hp.left hparent hlink]
  rfl

/-- Where only the diagram is missing, the sample is put there unless a link leads into no
directory. -/
theorem get?_writeSample_last {dir : Path} {name : String} (hgap : d.Gap [] dir name)
    (hp : (dir ++ [name]).Plain) (hfault : Disk.pathFault? (dir ++ [name]) = none)
    (hplace : d.found? (d.place (dir ++ [name])).parent = some .directory) :
    ((writeSample d (dir ++ [name])).1.get? (dir ++ [name])).isSome := by
  have hdir : d.stat dir = .ok .directory :=
    (Disk.stat_of_pathFault? (Disk.pathFault?_left hfault)).trans hgap.directory
  have hmade := Disk.makeDirectories_of_stat hp.left hdir
  have hrefusal := hgap.refusal? hfault hplace
  have hnew := Disk.get?_put_self (e := .file (Disk.bytes sampleDiagram))
    (Disk.place_ne_root_of_refusal? hrefusal)
  rw [writeSample, Path.parent, List.dropLast_concat, hmade]
  dsimp only
  rw [Disk.write, hrefusal]
  dsimp only
  rw [hnew]
  rfl

/-- Writing the sample leaves something on the disk that was not there: the sample itself, or at
least the first of the directories above it. -/
theorem exists_new_of_writeSample (hp : path.Plain) (h : d.stat path = .error .missing)
    (hstuck : ¬ d.Stuck path) :
    ∃ q, d.get? q = none ∧ ((writeSample d path).1.get? q).isSome := by
  obtain ⟨dir, name, after, rfl, hfault, hgap⟩ := Disk.exists_gap_of_stat hp h
  have hdir : d.stat dir = .ok .directory :=
    (Disk.stat_of_pathFault? (Disk.pathFault?_left hfault)).trans hgap.directory
  have hmissing : d.get? (dir ++ [name]) = none := hgap.missing
  refine ⟨dir ++ [name], hmissing, ?_⟩
  cases hlink : d.isLink dir name with
  | true =>
    -- A link in the way of nothing is the last name, and it leads into a directory.
    have hend := mt (Disk.Stuck.link hdir ⟨hmissing, hlink⟩) hstuck
    rw [Classical.not_imp, not_not] at hend
    obtain ⟨rfl, hplace⟩ := hend
    exact get?_writeSample_last hgap hp hfault hplace
  | false =>
    by_cases hafter : after = []
    · subst hafter
      exact get?_writeSample_last hgap hp hfault (hgap.found?_parent hp.left hlink)
    · exact get?_writeSample_above hgap hp hfault hafter hlink

theorem writeSample_ne (hp : path.Plain) (h : d.stat path = .error .missing)
    (hstuck : ¬ d.Stuck path) : (writeSample d path).1 ≠ d := by
  intro heq
  obtain ⟨q, hnone, hsome⟩ := exists_new_of_writeSample hp h hstuck
  rw [heq, hnone] at hsome
  cases hsome

/-- Behind a link that leads nowhere the sample leaves no trace. -/
theorem writeSample_of_stuck (hp : path.Plain) (h : d.stat path = .error .missing)
    (hstuck : d.Stuck path) : (writeSample d path).1 = d := by
  obtain @⟨dir, name, after, hdir, hdangling, hend⟩ := hstuck
  have hgap := Disk.gap_of_stat hp hdir hdangling.1 h
  obtain ⟨-, -, -, -, hfault, -⟩ := Disk.exists_gap_of_stat hp h
  by_cases hafter : after = []
  · subst hafter
    have hrefusal : d.refusal? (dir ++ [name]) = some (d.absence (dir ++ [name])) := by
      rw [Disk.refusal?, hfault, List.getLast?_concat, Path.parent, List.dropLast_concat, hdir,
        hdangling.1]
      simp only [hgap.fits, Bool.not_true, Bool.false_eq_true, if_false, if_neg (hend rfl)]
    rw [writeSample, Path.parent, List.dropLast_concat, Disk.makeDirectories_of_stat hp.left hdir]
    dsimp only
    rw [Disk.write, hrefusal]
  · have hparent := Disk.pathFault?_parent hfault
    rw [Path.parent_append_cons dir name hafter] at hparent
    rw [writeSample, Path.parent_append_cons dir name hafter,
      hgap.makeDirectories_of_isLink hp.left hparent hdangling.2]

/-- A diagram that need not be made is read without a change of the disk. -/
theorem load_disk (d : Disk) (path : Path) (created : Bool) (events : List Event.Payload) :
    (load d path created events).disk = d := by
  unfold load
  split
  · rfl
  · rfl

/-- A missing diagram is made by writing the sample, if that is wanted. -/
theorem read_disk_of_missing {cwd : Path} {text : String}
    (h : d.stat (Path.resolve cwd text) = .error .missing) :
    (read d cwd text true).disk = (writeSample d (Path.resolve cwd text)).1 := by
  unfold read
  dsimp only
  rw [if_pos rfl, h]
  dsimp only
  split
  · next d' e hw => rw [hw]
  · next d' hw => rw [load_disk, hw]

/-- Otherwise reading leaves the disk as it was. -/
theorem read_disk_of_not {cwd : Path} {text : String} {createSample : Bool}
    (h : ¬ (createSample = true ∧ d.stat (Path.resolve cwd text) = .error .missing)) :
    (read d cwd text createSample).disk = d := by
  unfold read
  dsimp only
  split
  · next hwanted =>
    split
    · exact load_disk _ _ _ _
    · next hmissing => exact absurd ⟨hwanted, hmissing⟩ h
    · rfl
  · exact load_disk _ _ _ _

end DiagramFile

namespace Run

variable {renderer : Renderer} {c : Config} {cwd : Path} {d : Disk}

/-- A dry run changes the disk by reading only. -/
theorem disk_run_of_dry (h : c.dryRun = true) :
    (run renderer c cwd d).disk = (DiagramFile.read d cwd c.input c.wantsSample).disk := by
  have hwrite : ∀ d' sources, (writePhase c d' cwd sources).disk = d' := fun d' sources => by
    rw [writePhase, if_pos h]
  unfold run phases
  dsimp only
  split
  · rfl
  · exact hwrite _ _

/-- A dry run leaves the disk as it was, unless the diagram is missing and the sample is wanted; then
only a link that leads nowhere can keep the disk as it was. -/
theorem disk_of_dryRun (renderer : Renderer) (d : Disk) (hdry : c.dryRun = true)
    (hcwd : cwd.Plain) :
    (run renderer c cwd d).disk = d ↔
      ¬ (c.wantsSample = true ∧ d.stat (Path.resolve cwd c.input) = .error .missing ∧
        ¬ d.Stuck (Path.resolve cwd c.input)) := by
  rw [disk_run_of_dry hdry]
  constructor
  · rintro hsame ⟨hwants, hmissing, hstuck⟩
    rw [hwants, DiagramFile.read_disk_of_missing hmissing] at hsame
    exact DiagramFile.writeSample_ne (hcwd.resolve c.input) hmissing hstuck hsame
  · intro h
    by_cases hsample : c.wantsSample = true ∧ d.stat (Path.resolve cwd c.input) = .error .missing
    · obtain ⟨hwants, hmissing⟩ := hsample
      have hstuck : d.Stuck (Path.resolve cwd c.input) :=
        not_not.mp fun hstuck => h ⟨hwants, hmissing, hstuck⟩
      rw [hwants, DiagramFile.read_disk_of_missing hmissing]
      exact DiagramFile.writeSample_of_stuck (hcwd.resolve c.input) hmissing hstuck
    · exact DiagramFile.read_disk_of_not hsample

/-- A disk with one directory. -/
def workDisk : Disk :=
  Disk.put {} ["work"] .directory

/-- A dry run that says whether the sample is wanted. -/
def dryConfig (createSample : Option Bool) : Config where
  input := "d.puml"
  outputDir := "out"
  createSample := createSample
  dryRun := true

/-- Where the sample is not wanted, a missing diagram is not made. -/
theorem disk_of_dryRun_sampleless :
    ((dryConfig (some false)).dryRun = true ∧ Path.Plain ["work"]) ∧
      (run .plain (dryConfig (some false)) ["work"] workDisk).disk = workDisk := by
  have hcwd : Path.Plain ["work"] := by decide
  refine ⟨⟨rfl, hcwd⟩, (disk_of_dryRun .plain workDisk rfl hcwd).mpr ?_⟩
  rintro ⟨hwants, -⟩
  cases hwants

/-- Where nothing is said of the sample, a dry run changes a disk on which the diagram is missing. -/
theorem disk_ne_of_dryRun_default :
    (dryConfig none).dryRun = true ∧
      (run .plain (dryConfig none) ["work"] workDisk).disk ≠ workDisk := by
  have hcwd : Path.Plain ["work"] := by decide
  have hmissing : workDisk.stat (Path.resolve ["work"] "d.puml") = .error .missing := rfl
  have hread := DiagramFile.read_disk_of_missing hmissing
  have hdirect : workDisk.Direct := rfl
  refine ⟨rfl, fun hsame => ?_⟩
  rw [disk_run_of_dry rfl] at hsame
  exact DiagramFile.writeSample_ne (hcwd.resolve "d.puml") hmissing (hdirect.not_stuck _)
    (hread.symm.trans hsame)

end Run

end UmlDraft
