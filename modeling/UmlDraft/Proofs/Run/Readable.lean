import UmlDraft.Proofs.File.Lookup
import UmlDraft.Proofs.Run.Footprint
import UmlDraft.Proofs.Run.Reading

/-!
# When the diagram can be read

On a disk without links a diagram cannot be read where a directory stands at its path, where a file
stands above it, where nothing stands there and no sample is wanted, where its path is too long or
holds a null character, and where one of its names is too long. There is no other reason. A reading
that fails announces that and leaves the disk as it was, but for the directories above a name that
is too long. A reading that succeeds gives the text of the file at the path, and adds nothing but a
missing diagram with the directories above it.
-/

namespace UmlDraft.DiagramFile

open Event

variable {d : Disk} {cwd path : Path} {text : String} {createSample : Bool} {fault : Fault}
  {name : String} {bytes : List UInt8}

/-- Why a diagram cannot be read, whatever its names. -/
inductive Unreadable (d : Disk) (path : Path) (createSample : Bool) : Prop where
  /-- A directory stands at its path. -/
  | directory (hdirectory : d.get? path = some .directory)
  /-- A file stands above it. -/
  | below {above : Path} {bytes : List UInt8} (habove : above <+: path) (hne : above ≠ path)
    (hfile : d.get? above = some (.file bytes))
  /-- Nothing stands there, and no sample is wanted. -/
  | missing (hnone : d.get? path = none) (hunwanted : createSample = false)
  /-- Its path is too long as a whole. -/
  | long (hlong : Disk.maxPathBytes < path.toText.utf8ByteSize)
  /-- Its path holds a null character. -/
  | null (hnull : '\x00' ∈ path.toText.toList)

/-- What a reading that fails does. -/
structure Failed (d : Disk) (path : Path) (createSample : Bool)
    (t : Traced (Option DiagramFile)) : Prop where
  /-- It gives nothing. -/
  result : t.result = none
  /-- It announces its failure and nothing else. -/
  events : ∃ error : FileError, t.events = [failure path error]
  /-- An unreadable diagram leaves the disk as it was. -/
  disk : Unreadable d path createSample → t.disk = d
  /-- In any case it only makes directories above the path. -/
  changes : ∀ q, t.disk.get? q ≠ d.get? q →
    q <+: path.parent ∧ d.get? q = none ∧ t.disk.get? q = some .directory

/-- One disk is another one with the sample at a path and the directories above it. -/
structure SampleAdded (d e : Disk) (path : Path) : Prop where
  /-- The sample stands at the path. -/
  sample : e.get? path = some (.file (Disk.bytes sampleDiagram))
  /-- There are directories above it. -/
  above : ∀ q, q <+: path.parent → e.get? q = some .directory
  /-- What was there is there as it was. -/
  kept : ∀ q entry, d.get? q = some entry → e.get? q = some entry
  /-- Elsewhere there is nothing new. -/
  elsewhere : ∀ q, q ≠ path → ¬ q <+: path.parent → e.get? q = d.get? q

/-- What a reading that succeeds does. -/
structure Obtained (d : Disk) (path : Path) (file : DiagramFile)
    (t : Traced (Option DiagramFile)) : Prop where
  /-- It gives a diagram. -/
  result : t.result = some file
  /-- The diagram names its path. -/
  place : file.path = path
  /-- Its text is that of the file at the path. -/
  content : ∃ bytes, t.disk.get? path = some (.file bytes) ∧ file.content = Disk.text bytes
  /-- It is said to be new exactly if it was missing. -/
  created : file.sampleCreated = true ↔ d.get? path = none
  /-- A diagram that was there is left as it was, with the disk around it. -/
  disk : (d.get? path).isSome → t.disk = d
  /-- Where nothing was, the sample is. -/
  added : d.get? path = none → SampleAdded d t.disk path

/-! ### The sample -/

/-- A name that is too long keeps the sample from being written. -/
theorem writeSample_of_not_fits (hp : path.Plain) (hname : name ∈ path)
    (hlong : Disk.fits name = false) :
    ∃ error, writeSample d path = ((d.makeDirectories path.parent).1, some error) := by
  unfold writeSample
  cases hmade : d.makeDirectories path.parent with
  | mk made fault =>
    cases fault with
    | some fault => exact ⟨_, rfl⟩
    | none =>
      dsimp only
      cases hwritten : made.write path (Disk.bytes sampleDiagram) with
      | error fault => exact ⟨_, rfl⟩
      | ok written =>
        -- The directories were made, so their names fit, and the last name was written.
        obtain ⟨dir, last, rfl, -, hdir, hlast, -, -⟩ :=
          Disk.refusal?_eq_none (Disk.refusal?_of_write hwritten)
        rcases List.mem_append.mp hname with hname | hname
        · rw [Disk.fits_of_locate hp.left (Disk.locate_of_stat hdir).2 name hname] at hlong
          cases hlong
        · rw [List.mem_singleton.mp hname, hlast] at hlong
          cases hlong

/-- Where a path leads to something missing, the directories above it can be made. -/
theorem makeDirectories_parent_of_missing (hd : d.Rooted) (hp : path.Plain)
    (hfits : ∀ n ∈ path, Disk.fits n = true) (h : d.stat path = .error .missing) :
    (d.makeDirectories path.parent).2 = none := by
  cases hmade : (d.makeDirectories path.parent).2 with
  | none => rfl
  | some fault =>
    have hparent : path.parent <+: path := List.dropLast_prefix path
    obtain ⟨-, -, -, -, hfault, -⟩ := Disk.exists_gap_of_stat hp h
    obtain ⟨above, bytes, habove, hfile⟩ := Disk.exists_file_of_fits hd.direct
      (Disk.pathFault?_parent hfault) hmade fun n hn => hfits n (hparent.subset hn)
    exact absurd hfile (hd.get?_ne_file_of_missing hp h (habove.trans hparent))

/-- Where a path leads to something missing, the sample is written into the directories that were
made above it. -/
theorem writeSample_of_missing (hd : d.Rooted) (hp : path.Plain)
    (hfits : ∀ n ∈ path, Disk.fits n = true) (h : d.stat path = .error .missing) :
    writeSample d path =
      ((d.makeDirectories path.parent).1.put path (.file (Disk.bytes sampleDiagram)), none) := by
  have hmade := makeDirectories_parent_of_missing hd hp hfits h
  have hnone := hd.get?_of_missing hp h
  obtain ⟨-, -, -, -, hfault, -⟩ := Disk.exists_gap_of_stat hp h
  rcases List.eq_nil_or_concat path with rfl | ⟨dir, last, rfl⟩
  · cases hnone
  · rw [List.concat_eq_append] at *
    have hparent : Path.parent (dir ++ [last]) = dir := List.dropLast_concat
    rw [hparent] at hmade ⊢
    have hdir := Disk.stat_makeDirectories hp.left hmade
    have hdirect := (hd.makeDirectories (p := dir)).direct
    have hplace : (d.makeDirectories dir).1.get? (dir ++ [last]) = none := by
      rw [hd.direct.get?_makeDirectories_elsewhere, hnone]
      exact fun habove => absurd habove.length_le (by simp)
    have habove : (d.makeDirectories dir).1.found?
        ((d.makeDirectories dir).1.place (dir ++ [last])).parent = some .directory := by
      rw [hdirect.place, hparent, ← Disk.get?_of_stat hp.left hdir, Disk.get?, hdirect.place]
    have hrefusal : (d.makeDirectories dir).1.refusal? (dir ++ [last]) = none := by
      rw [Disk.refusal?_concat hdir, hfault, hplace]
      simp [hfits last (by simp), habove]
    rw [writeSample, hparent]
    generalize d.makeDirectories dir = made at hmade hrefusal
    obtain ⟨made, fault⟩ := made
    cases hmade
    dsimp only at hrefusal ⊢
    rw [Disk.write, hrefusal]

theorem sampleAdded_of_missing (hd : d.Rooted) (hp : path.Plain)
    (hfits : ∀ n ∈ path, Disk.fits n = true) (h : d.stat path = .error .missing) :
    SampleAdded d (writeSample d path).1 path := by
  have hmade := makeDirectories_parent_of_missing hd hp hfits h
  have hnone := hd.get?_of_missing hp h
  have hne : path ≠ [] := by
    rintro rfl
    cases hnone
  have hparent : Path.Plain path.parent := fun n hn => hp n (List.dropLast_subset path hn)
  have hput := (hd.makeDirectories (p := path.parent)).direct.get?_put
    (e := .file (Disk.bytes sampleDiagram)) hne
  rw [writeSample_of_missing hd hp hfits h]
  refine ⟨?_, fun q hq => ?_, fun q entry hentry => ?_, fun q hq hoff => ?_⟩
  · rw [hput, if_pos rfl]
  · rw [hput, if_neg, Disk.get?_makeDirectories_above hparent hmade hq]
    rintro rfl
    exact Nat.not_le_of_lt (Path.length_parent_lt hne) hq.length_le
  · rw [hput, if_neg, Disk.get?_makeDirectories_of_some hentry]
    rintro rfl
    rw [hentry] at hnone
    cases hnone
  · rw [hput, if_neg hq, hd.direct.get?_makeDirectories_elsewhere hoff]

/-! ### Readings that fail -/

/-- Whether a path is refused is a reason not to read it. -/
theorem unreadable_of_pathFault? (d : Disk) (createSample : Bool)
    (h : Disk.pathFault? path ≠ none) : Unreadable d path createSample := by
  rcases Disk.pathFault?_ne_none_iff.mp h with hnull | hlong
  · exact .null hnull
  · exact .long hlong

/-- At the path of an unreadable diagram there is no file. -/
theorem Unreadable.contents (hd : d.Rooted) (hp : path.Plain)
    (h : Unreadable d path createSample) :
    ∃ fault, Disk.contents (d.stat path) = .error fault := by
  cases hstat : d.stat path with
  | error fault => exact ⟨fault, rfl⟩
  | ok entry =>
    have hget := Disk.get?_of_stat hp hstat
    cases entry with
    | directory => exact ⟨.isDirectory, rfl⟩
    | file bytes =>
      cases h with
      | directory hdirectory =>
        rw [hget] at hdirectory
        cases hdirectory
      | below habove hne hfile =>
        obtain ⟨rest, rfl⟩ := habove
        rw [hd.get?_of_append (by simpa using hne) hget] at hfile
        cases hfile
      | missing hnone =>
        rw [hget] at hnone
        cases hnone
      | long hlong =>
        have hfault := Disk.pathFault?_ne_none_iff.mpr (.inr hlong)
        exact absurd (Disk.locate_of_stat hstat).1 hfault
      | null hnull =>
        have hfault := Disk.pathFault?_ne_none_iff.mpr (.inl hnull)
        exact absurd (Disk.locate_of_stat hstat).1 hfault

/-- For an unreadable diagram no sample is made. -/
theorem Unreadable.not_sample (hd : d.Rooted) (hp : path.Plain)
    (h : Unreadable d path createSample) :
    ¬ (createSample = true ∧ d.stat path = .error .missing) := by
  rintro ⟨hwanted, hmissing⟩
  obtain ⟨-, -, -, -, hfault, -⟩ := Disk.exists_gap_of_stat hp hmissing
  cases h with
  | long hlong => exact Disk.pathFault?_ne_none_iff.mpr (.inr hlong) hfault
  | null hnull => exact Disk.pathFault?_ne_none_iff.mpr (.inl hnull) hfault
  | directory hdirectory =>
    rw [hd.get?_of_missing hp hmissing] at hdirectory
    cases hdirectory
  | below habove hne hfile => exact hd.get?_ne_file_of_missing hp hmissing habove hfile
  | missing hnone hunwanted =>
    rw [hwanted] at hunwanted
    cases hunwanted

/-- Where there is no file and no sample is made, reading fails. -/
theorem failed_read_of_contents
    (hcontents : Disk.contents (d.stat (Path.resolve cwd text)) = .error fault)
    (hsample : ¬ (createSample = true ∧ d.stat (Path.resolve cwd text) = .error .missing)) :
    Failed d (Path.resolve cwd text) createSample (read d cwd text createSample) := by
  have hdisk := read_disk_of_not hsample
  suffices h : (read d cwd text createSample).result = none ∧ ∃ error : FileError,
      (read d cwd text createSample).events = [failure (Path.resolve cwd text) error] from
    ⟨h.1, h.2, fun _ => hdisk, fun q hq => absurd (by rw [hdisk]) hq⟩
  have hload : load d (Path.resolve cwd text) false [] = ⟨none, d,
      [failure (Path.resolve cwd text) (readError fault (Path.resolve cwd text).toText)]⟩ := by
    rw [load, hcontents]
    rfl
  unfold read
  dsimp only
  split
  · next hwanted =>
    split
    · rw [hload]
      exact ⟨rfl, _, rfl⟩
    · next hmissing => exact absurd ⟨hwanted, hmissing⟩ hsample
    · exact ⟨rfl, _, rfl⟩
  · rw [hload]
    exact ⟨rfl, _, rfl⟩

/-- Whatever makes a diagram unreadable makes reading it fail. -/
theorem Unreadable.failed (hcwd : cwd.Plain) (hd : d.Rooted)
    (h : Unreadable d (Path.resolve cwd text) createSample) :
    Failed d (Path.resolve cwd text) createSample (read d cwd text createSample) := by
  obtain ⟨fault, hcontents⟩ := h.contents hd (hcwd.resolve text)
  exact failed_read_of_contents hcontents (h.not_sample hd (hcwd.resolve text))

/-- A name that is too long makes reading fail, with or without a sample. -/
theorem failed_read_of_not_fits (hcwd : cwd.Plain) (hd : d.Rooted)
    (hname : name ∈ Path.resolve cwd text) (hlong : Disk.fits name = false) :
    Failed d (Path.resolve cwd text) createSample (read d cwd text createSample) := by
  have hp := hcwd.resolve text
  by_cases h : createSample = true ∧ d.stat (Path.resolve cwd text) = .error .missing
  · obtain ⟨rfl, hmissing⟩ := h
    obtain ⟨error, hsample⟩ := writeSample_of_not_fits (d := d) hp hname hlong
    have hread : read d cwd text true =
        ⟨none, (d.makeDirectories (Path.resolve cwd text).parent).1,
          [failure (Path.resolve cwd text) error]⟩ := by
      rw [read, if_pos rfl, hmissing]
      dsimp only
      rw [hsample]
    rw [hread]
    exact ⟨rfl, ⟨error, rfl⟩, fun hunreadable =>
      absurd ⟨rfl, hmissing⟩ (hunreadable.not_sample hd hp),
      fun q hq => hd.direct.makeDirectories_changes hq⟩
  · cases hstat : d.stat (Path.resolve cwd text) with
    | error fault => exact failed_read_of_contents (by rw [hstat]; rfl) h
    | ok entry =>
      rw [Disk.fits_of_locate hp (Disk.locate_of_stat hstat).2 name hname] at hlong
      cases hlong

/-! ### Readings that succeed -/

theorem load_of_file (h : d.stat path = .ok (.file bytes)) (sampleCreated : Bool)
    (events : List Payload) :
    load d path sampleCreated events = ⟨some ⟨path, Disk.text bytes, sampleCreated⟩, d,
      events ++ [readDone path (Disk.text bytes)]⟩ := by
  rw [load, h]
  rfl

/-- A file that is there is read, whether or not a sample is wanted. -/
theorem obtained_of_file (h : d.stat (Path.resolve cwd text) = .ok (.file bytes))
    (hfile : d.get? (Path.resolve cwd text) = some (.file bytes)) :
    Obtained d (Path.resolve cwd text) ⟨Path.resolve cwd text, Disk.text bytes, false⟩
      (read d cwd text createSample) := by
  have hread : read d cwd text createSample = load d (Path.resolve cwd text) false [] := by
    rw [read]
    split
    · rw [h]
    · rfl
  rw [hread, load_of_file h]
  refine ⟨rfl, rfl, ⟨bytes, hfile, rfl⟩, ?_, fun _ => rfl, fun hnone => ?_⟩
  · rw [hfile]
    exact ⟨nofun, nofun⟩
  · rw [hfile] at hnone
    cases hnone

/-- A sample that is missing and wanted is made and read. -/
theorem obtained_of_missing (hcwd : cwd.Plain) (hd : d.Rooted)
    (hfits : ∀ name ∈ Path.resolve cwd text, Disk.fits name = true)
    (h : d.stat (Path.resolve cwd text) = .error .missing) :
    Obtained d (Path.resolve cwd text) ⟨Path.resolve cwd text, sampleDiagram, true⟩
      (read d cwd text true) := by
  have hp := hcwd.resolve text
  have hnone := hd.get?_of_missing hp h
  have hadded := sampleAdded_of_missing hd hp hfits h
  have hsample : writeSample d (Path.resolve cwd text) =
      ((writeSample d (Path.resolve cwd text)).1, none) := by
    rw [writeSample_of_missing hd hp hfits h]
  obtain ⟨-, -, -, -, hfault, -⟩ := Disk.exists_gap_of_stat hp h
  have hstat := (rooted_writeSample hd hp).stat_of_get? hp hfault hfits hadded.sample
  have hread : read d cwd text true = load (writeSample d (Path.resolve cwd text)).1
      (Path.resolve cwd text) true [created (Path.resolve cwd text)] := by
    rw [read, if_pos rfl, h]
    dsimp only
    rw [hsample]
  rw [hread, load_of_file hstat, Disk.text_bytes]
  refine ⟨rfl, rfl, ⟨_, hadded.sample, (Disk.text_bytes _).symm⟩, ⟨fun _ => hnone, fun _ => rfl⟩,
    fun hsome => ?_, fun _ => hadded⟩
  rw [hnone] at hsome
  cases hsome

/-- A diagram that is not unreadable is read unless a name is too long. -/
theorem exists_obtained (hcwd : cwd.Plain) (hd : d.Rooted)
    (h : ¬ Unreadable d (Path.resolve cwd text) createSample)
    (hfits : ∀ name ∈ Path.resolve cwd text, Disk.fits name = true) :
    ∃ file, Obtained d (Path.resolve cwd text) file (read d cwd text createSample) := by
  have hp := hcwd.resolve text
  have hfault : Disk.pathFault? (Path.resolve cwd text) = none := by
    by_contra hfault
    exact h (unreadable_of_pathFault? d createSample hfault)
  cases hget : d.get? (Path.resolve cwd text) with
  | none =>
    have hwanted : createSample = true := by
      by_contra hunwanted
      exact h (.missing hget (by simpa using hunwanted))
    have hstat := hd.stat_of_none hp hfault hfits
      (fun above bytes habove hne hfile => h (.below habove hne hfile)) hget
    rw [hwanted]
    exact ⟨_, obtained_of_missing hcwd hd hfits hstat⟩
  | some entry =>
    cases entry with
    | directory => exact absurd (.directory hget) h
    | file bytes => exact ⟨_, obtained_of_file (hd.stat_of_get? hp hfault hfits hget) hget⟩

/-- Reading either fails, for an unreadable diagram or for a name that is too long, or gives a
diagram, in all other cases. -/
theorem read_cases (text : String) (createSample : Bool) (hcwd : cwd.Plain) (hd : d.Rooted) :
    ((Unreadable d (Path.resolve cwd text) createSample ∨
        ∃ name ∈ Path.resolve cwd text, Disk.fits name = false) ∧
      Failed d (Path.resolve cwd text) createSample (read d cwd text createSample)) ∨
    (¬ (Unreadable d (Path.resolve cwd text) createSample ∨
        ∃ name ∈ Path.resolve cwd text, Disk.fits name = false) ∧
      ∃ file, Obtained d (Path.resolve cwd text) file (read d cwd text createSample)) := by
  by_cases h : Unreadable d (Path.resolve cwd text) createSample
  · exact .inl ⟨.inl h, h.failed hcwd hd⟩
  · by_cases hlong : ∃ name ∈ Path.resolve cwd text, Disk.fits name = false
    · obtain ⟨name, hname, hlong⟩ := hlong
      exact .inl ⟨.inr ⟨name, hname, hlong⟩, failed_read_of_not_fits hcwd hd hname hlong⟩
    · refine .inr ⟨not_or.mpr ⟨h, hlong⟩, exists_obtained hcwd hd h fun name hname => ?_⟩
      by_contra hfits
      exact hlong ⟨name, hname, by simpa using hfits⟩

/-- Reading gives nothing exactly for an unreadable diagram and for one with a name that is too
long. Then it announces that alone and leaves the disk as it was, but for directories above a name
that is too long; otherwise it gives the text of the file at the path, which is the sample if
nothing was there. -/
theorem read_obtained_or_failed (text : String) (createSample : Bool) (hcwd : cwd.Plain)
    (hd : d.Rooted) :
    ((read d cwd text createSample).result = none ↔
        Unreadable d (Path.resolve cwd text) createSample ∨
          ∃ name ∈ Path.resolve cwd text, Disk.fits name = false) ∧
      ((read d cwd text createSample).result = none →
        Failed d (Path.resolve cwd text) createSample (read d cwd text createSample)) ∧
      ∀ file, (read d cwd text createSample).result = some file →
        Obtained d (Path.resolve cwd text) file (read d cwd text createSample) := by
  rcases read_cases text createSample hcwd hd with ⟨hreason, hfailed⟩ | ⟨hnone, file, hobtained⟩
  · have hresult := hfailed.result
    exact ⟨⟨fun _ => hreason, fun _ => hresult⟩, fun _ => hfailed,
      fun file hfile => absurd (hresult.symm.trans hfile) nofun⟩
  · have hresult := hobtained.result
    have hsome : (read d cwd text createSample).result ≠ none := by
      rw [hresult]
      exact nofun
    refine ⟨⟨fun hempty => absurd hempty hsome, fun hreason => absurd hreason hnone⟩,
      fun hempty => absurd hempty hsome, fun other hother => ?_⟩
    obtain rfl : file = other := Option.some.inj (hresult.symm.trans hother)
    exact hobtained

theorem rooted_workDisk : Run.workDisk.Rooted :=
  Disk.rooted_empty.put (by simp) rfl (.inl rfl)

/-- A sample is read from below a directory that was missing too. -/
theorem read_obtained_or_failed_made :
    (Path.Plain ["work"] ∧ Run.workDisk.Rooted) ∧
      ∃ file, Obtained Run.workDisk ["work", "made", "d.puml"] file
        (read Run.workDisk ["work"] "made/d.puml" true) := by
  have hcwd : Path.Plain ["work"] := by decide
  obtain ⟨-, -, hobtained⟩ := read_obtained_or_failed "made/d.puml" true hcwd rooted_workDisk
  refine ⟨⟨hcwd, rooted_workDisk⟩, ?_⟩
  cases hresult : (read Run.workDisk ["work"] "made/d.puml" true).result with
  | some file => exact ⟨file, hobtained file hresult⟩
  | none => cases hresult

/-- Where the last name is too long, nothing is in the way and a sample is wanted, but none is read,
and the directory that was made for it stays. -/
theorem directory_left_of_longFile :
    Path.resolve ["work"] ("made" ++ "/" ++ Run.longName) = ["work", "made", Run.longName] ∧
      Run.workDisk.get? ["work", "made", Run.longName] = none ∧
      (∀ above bytes, above <+: ["work", "made", Run.longName] →
        Run.workDisk.get? above ≠ some (.file bytes)) ∧
      (read Run.workDisk ["work"] ("made" ++ "/" ++ Run.longName) true).result = none ∧
      Run.workDisk.get? ["work", "made"] = none ∧
      (read Run.workDisk ["work"] ("made" ++ "/" ++ Run.longName) true).disk.get?
        ["work", "made"] = some .directory := by
  have hpath : Path.resolve ["work"] ("made" ++ "/" ++ Run.longName) =
      ["work", "made", Run.longName] := Run.outputDir_longName
  have hcwd : Path.Plain ["work"] := by decide
  have hname : Run.longName ∈ Path.resolve ["work"] ("made" ++ "/" ++ Run.longName) := by
    rw [hpath]
    simp
  have hresult : (read Run.workDisk ["work"] ("made" ++ "/" ++ Run.longName) true).result = none :=
    (failed_read_of_not_fits hcwd rooted_workDisk hname Run.fits_longName).result
  have hstat : Run.workDisk.stat ["work", "made", Run.longName] = .error .missing := by
    rw [Disk.stat_of_pathFault? Run.pathFault?_longName]
    rfl
  obtain ⟨error, hsample⟩ := writeSample_of_not_fits (d := Run.workDisk)
    (hcwd.resolve ("made" ++ "/" ++ Run.longName)) hname Run.fits_longName
  refine ⟨hpath, rooted_workDisk.get?_of_missing (hpath ▸ hcwd.resolve _) hstat, ?_,
    hresult, rfl, ?_⟩
  · intro above bytes habove hfile
    have hempty : Disk.Direct {} := rfl
    rw [Run.workDisk, hempty.get?_put (by simp)] at hfile
    split at hfile
    · cases hfile
    · rw [Disk.get?, hempty.place, Disk.found?] at hfile
      split at hfile <;> cases hfile
  · rw [read_disk_of_missing (hpath ▸ hstat), hsample, hpath]
    rfl

end UmlDraft.DiagramFile
