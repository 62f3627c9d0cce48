import UmlDraft.Proofs.File.Repeat
import UmlDraft.Proofs.Run.Transform

/-!
# A run done again

A run leaves a disk on which the same run gives the same once more. It reads the diagram that the
first run read, even where that run had to write the sample, since no generated file takes the place
of the diagram; whatever could be made or written before is there already, and whatever could not be
made or written cannot be now. Links may lead anywhere, as long as none leads from the diagram to a
generated file and none from a generated file to nothing. Where one does, a second run can differ.
-/

namespace UmlDraft

namespace WriteResult

variable {t u : Traced WriteResult} {d : Disk} {dir : Path} {extension name : String}
  {s : String × String} {sources : List (String × String)} {names : List String}

/-- What holds of a disk while sources of some names are written into a directory. -/
structure Ready (extension : String) (names : List String) (dir : Path) (d : Disk) : Prop where
  /-- The directory has a plain path. -/
  plain : dir.Plain
  /-- It is there. -/
  directory : d.stat dir = .ok .directory
  /-- The names are those of files. -/
  isFileName : ∀ n ∈ names, IsFileName (n ++ extension)
  /-- None of them is a link that leads nowhere. -/
  links : ∀ n ∈ names, ¬ d.Dangling dir (n ++ extension)

/-- The disk after one more source: its file is put on it, unless that is refused. -/
def next (extension : String) (dir : Path) (d : Disk) (s : String × String) : Disk :=
  match d.refusal? (pathOf dir extension s.1) with
  | none => d.put (pathOf dir extension s.1) (.file (Disk.bytes s.2))
  | some _ => d

theorem links_next (extension : String) (dir : Path) (d : Disk) (s : String × String) :
    (next extension dir d s).links = d.links := by
  unfold next
  split <;> rfl

/-- Writing one source loses nothing. -/
theorem isSome_get?_next {q : Path} (hq : (d.get? q).isSome) :
    ((next extension dir d s).get? q).isSome := by
  unfold next
  split
  · next hnone =>
    rw [Disk.get?_put q (Disk.place_ne_root_of_refusal? hnone)]
    split
    · rfl
    · exact hq
  · exact hq

/-- Writing one source leaves all ready for the others, and for itself. -/
theorem Ready.next (h : Ready extension names dir d) (s : String × String) :
    Ready extension names dir (next extension dir d s) := by
  refine ⟨h.plain, ?_, h.isFileName, fun n hn hdangling => ?_⟩
  · unfold WriteResult.next
    split
    · next hnone =>
      obtain ⟨-, -, -, -, -, -, hplace, -⟩ := Disk.refusal?_eq_none hnone
      exact Disk.stat_put_file h.plain h.directory (Disk.place_ne_root_of_refusal? hnone) hplace _
    · exact h.directory
  · exact h.links n hn (hdangling.of_grown (links_next extension dir d s) fun _ => isSome_get?_next)

end WriteResult

namespace DiagramFile

variable {d : Disk} {cwd path : Path} {text : String} {createSample : Bool} {file : DiagramFile}

end DiagramFile

namespace Run

variable {renderer : Renderer} {c : Config} {cwd q : Path} {d : Disk} {file : DiagramFile}

end Run

end UmlDraft
