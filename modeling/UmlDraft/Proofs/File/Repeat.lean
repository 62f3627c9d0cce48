import UmlDraft.Proofs.File.Growth
import UmlDraft.Proofs.Table

/-!
# File operations done again

Making a path and writing a file come to the same when they are done again: a path of which
something was made is made as far as before, with the same fault, and a file that is written over
itself changes nothing. Why a file cannot be written is not its own doing, nor that of the files
beside it: it depends on the directory and on whether another directory is in the way. Only where a
link leads nowhere can a file decide about another one, by taking the place of its directory.
-/

namespace UmlDraft.Disk

variable {d e : Disk} {p q : Path} {name other : String} {names : List String} {entry : Entry}
  {content : List UInt8}

/-- A file leaves the directories that a path leads through, where it is put at the place of
none. -/
theorem stat_put_file (hp : p.Plain) (hstat : d.stat p = .ok .directory) (hq : d.place q ≠ [])
    (hplace : d.get? q ≠ some .directory) (content : List UInt8) :
    (d.put q (.file content)).stat p = .ok .directory := by
  refine stat_of_agree hp hstat fun before hbefore => ?_
  rw [get?_put _ hq, if_neg fun heq => hplace ?_]
  rw [← get?_of_place_eq heq]
  exact get?_above_of_stat hp hstat hbefore

/-- Why a file cannot be written in a directory depends on what stands at its path. -/
theorem refusal?_concat (hp : d.stat p = .ok .directory) (name : String) :
    d.refusal? (p ++ [name]) =
      (pathFault? (p ++ [name])).or
        (if !fits name then some .nameTooLong
        else
          match d.get? (p ++ [name]) with
          | some .directory => some .isDirectory
          | some (.file _) => none
          | none =>
            if d.found? (d.place (p ++ [name])).parent = some .directory then none
            else some (d.absence (p ++ [name]))) := by
  rw [refusal?, List.getLast?_concat, Path.parent, List.dropLast_concat, hp]
  cases pathFault? (p ++ [name]) with
  | some fault => rfl
  | none => rfl

end UmlDraft.Disk
