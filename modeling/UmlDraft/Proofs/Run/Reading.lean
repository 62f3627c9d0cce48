import UmlDraft.Proofs.File.Growth
import UmlDraft.Proofs.Run.DryRun

/-!
# Reading the diagram

Reading ends with one announcement, that the diagram was read or that it could not be, and before it
stands at most the one that the sample was written. On a rooted disk nothing is lost by reading, and
all that is new is the sample at the path of the diagram and the directories above it.
-/

namespace UmlDraft.DiagramFile

open Event

variable {d : Disk} {cwd path q : Path} {text : String} {createSample : Bool}

/-- What reading gives, with its announcements. -/
inductive Announced (path : Path) : Option DiagramFile → List Payload → Prop where
  /-- The diagram cannot be read. -/
  | failed {lead : List Payload} (hlead : lead = [] ∨ lead = [created path]) (e : FileError) :
    Announced path none (lead ++ [failure path e])
  /-- The diagram is read. -/
  | done {lead : List Payload} (hlead : lead = [] ∨ lead = [created path]) (content : String)
    (sampleCreated : Bool) :
    Announced path (some ⟨path, content, sampleCreated⟩) (lead ++ [readDone path content])

theorem announced_load {lead : List Payload} (hlead : lead = [] ∨ lead = [created path])
    (d : Disk) (sampleCreated : Bool) :
    Announced path (load d path sampleCreated lead).result
      (load d path sampleCreated lead).events := by
  unfold load
  split
  · exact .failed hlead _
  · exact .done hlead _ _

theorem announced_read (d : Disk) (cwd : Path) (text : String) (createSample : Bool) :
    Announced (Path.resolve cwd text) (read d cwd text createSample).result
      (read d cwd text createSample).events := by
  unfold read
  dsimp only
  split
  · split
    · exact announced_load (.inl rfl) _ _
    · split
      · exact .failed (.inl rfl) _
      · exact announced_load (.inr rfl) _ _
    · exact .failed (.inl rfl) _
  · exact announced_load (.inl rfl) _ _

/-- Where writing the sample changes something, nothing was there; then the sample stands there, or
a directory above it. -/
theorem writeSample_changes (hd : d.Rooted) (hp : path.Plain) (h : d.stat path = .error .missing)
    (hq : (writeSample d path).1.get? q ≠ d.get? q) :
    d.get? q = none ∧
      (q = path ∧ (writeSample d path).1.get? q = some (.file (Disk.bytes sampleDiagram)) ∨
        q <+: path.parent ∧ (writeSample d path).1.get? q = some .directory) := by
  have hmade := fun hne => hd.direct.makeDirectories_changes (p := path.parent) (q := q) hne
  have hdirect := (hd.makeDirectories (p := path.parent)).direct
  unfold writeSample at hq ⊢
  generalize d.makeDirectories path.parent = made at hq hmade hdirect ⊢
  obtain ⟨d', fault⟩ := made
  cases fault with
  | some fault => exact ⟨(hmade hq).2.1, .inr ⟨(hmade hq).1, (hmade hq).2.2⟩⟩
  | none =>
    dsimp only at hq hmade hdirect ⊢
    split at hq
    · exact ⟨(hmade hq).2.1, .inr ⟨(hmade hq).1, (hmade hq).2.2⟩⟩
    · next written hwritten =>
      rw [Disk.get?_write hwritten, hdirect.place, hdirect.place] at hq ⊢
      split at hq
      · next hpath =>
        rw [hpath, if_pos rfl]
        exact ⟨hd.get?_of_missing hp h, .inl ⟨rfl, rfl⟩⟩
      · next hpath =>
        rw [if_neg hpath]
        exact ⟨(hmade hq).2.1, .inr ⟨(hmade hq).1, (hmade hq).2.2⟩⟩

theorem rooted_writeSample (hd : d.Rooted) (hp : path.Plain) : (writeSample d path).1.Rooted := by
  have hmade : (d.makeDirectories path.parent).1.Rooted := hd.makeDirectories
  unfold writeSample
  generalize d.makeDirectories path.parent = made at hmade
  obtain ⟨d', fault⟩ := made
  cases fault with
  | some fault => exact hmade
  | none =>
    dsimp only
    split
    · exact hmade
    · next written hwritten => exact hmade.write hp hwritten

/-- Links stay where they are when the sample is written. -/
theorem links_writeSample (d : Disk) (path : Path) : (writeSample d path).1.links = d.links := by
  have hmade := d.links_makeDirectories path.parent
  unfold writeSample
  generalize d.makeDirectories path.parent = made at hmade
  obtain ⟨d', fault⟩ := made
  cases fault with
  | some fault => exact hmade
  | none =>
    dsimp only
    split
    · exact hmade
    · next written hwritten =>
      rw [Disk.eq_put_of_write hwritten]
      exact hmade

/-- Links stay where they are when a diagram is read. -/
theorem links_read (d : Disk) (cwd : Path) (text : String) (createSample : Bool) :
    (read d cwd text createSample).disk.links = d.links := by
  by_cases h : createSample = true ∧ d.stat (Path.resolve cwd text) = .error .missing
  · obtain ⟨rfl, hmissing⟩ := h
    rw [read_disk_of_missing hmissing, links_writeSample]
  · rw [read_disk_of_not h]

/-- Where reading changes something, the diagram is missing and the sample is wanted. -/
theorem read_changes (hd : d.Rooted) (hcwd : cwd.Plain)
    (hq : (read d cwd text createSample).disk.get? q ≠ d.get? q) :
    createSample = true ∧ d.stat (Path.resolve cwd text) = .error .missing ∧ d.get? q = none ∧
      (q = Path.resolve cwd text ∧
          (read d cwd text createSample).disk.get? q = some (.file (Disk.bytes sampleDiagram)) ∨
        q <+: (Path.resolve cwd text).parent ∧
          (read d cwd text createSample).disk.get? q = some .directory) := by
  by_cases h : createSample = true ∧ d.stat (Path.resolve cwd text) = .error .missing
  · obtain ⟨rfl, hmissing⟩ := h
    rw [read_disk_of_missing hmissing] at hq ⊢
    exact ⟨rfl, hmissing, writeSample_changes hd (hcwd.resolve text) hmissing hq⟩
  · rw [read_disk_of_not h] at hq
    exact absurd rfl hq

/-- Reading leaves what is there. -/
theorem get?_read_of_some (hd : d.Rooted) (hcwd : cwd.Plain) {entry : Entry}
    (h : d.get? q = some entry) : (read d cwd text createSample).disk.get? q = some entry := by
  by_contra hne
  rw [← h] at hne
  obtain ⟨-, -, hnone, -⟩ := read_changes hd hcwd hne
  rw [hnone] at h
  cases h

theorem rooted_read (hd : d.Rooted) (hcwd : cwd.Plain) :
    (read d cwd text createSample).disk.Rooted := by
  by_cases h : createSample = true ∧ d.stat (Path.resolve cwd text) = .error .missing
  · obtain ⟨rfl, hmissing⟩ := h
    rw [read_disk_of_missing hmissing]
    exact rooted_writeSample hd (hcwd.resolve text)
  · rwa [read_disk_of_not h]

end UmlDraft.DiagramFile
