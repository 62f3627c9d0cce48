import UmlDraft.File.Fault
import UmlDraft.File.Path
import UmlDraft.Table
import UmlDraft.Text.Units
import UmlDraft.Text.Utf8

/-!
# Disks

A disk says for each path whether it is a directory or a file with its bytes. The root is always a
directory. A path is followed name by name, and each name is looked up in a directory: what is no
directory, what is missing and what has too long a name are different errors.

A path may lead to another one by a link, so that two paths can share a file or all that is below a
directory. A symbolic link is entered with the path that it leads to in the end, written without
links and without names that are too long, whether or not something stands there; of the names of
one file, all but one are links to that one. Links that lead in a circle are left out, as are
permissions. Before any of this a path is refused if its text is too long or holds a null character.

Main statements: what is found at a path after a file was written.
-/

namespace UmlDraft

/-- What stands at a path. -/
inductive Entry where
  /-- A directory. -/
  | directory
  /-- A file and its bytes. -/
  | file (bytes : List UInt8)
  deriving DecidableEq, Repr

/-- Whether a file stands at a path. -/
def Entry.isFile : Option Entry → Bool
  | some (.file _) => true
  | some .directory | none => false

/-- Everything below the root. -/
structure Disk where
  /-- The entry of every path that exists, written without links. -/
  entries : Table Path Entry := .empty
  /-- The path that each link leads to. -/
  links : Table Path Path := .empty
  deriving DecidableEq, Repr

namespace Disk

/-- The longest name that a directory can hold, in bytes. -/
def maxNameBytes : Nat :=
  255

/-- The longest text of a path, in bytes. -/
def maxPathBytes : Nat :=
  4095

/-- Why a path is refused for its null characters or for the size of its text. -/
def faultOf (null : Bool) (size : Nat) : Option Fault :=
  if null then some .nullCharacter
  else if maxPathBytes < size then some .nameTooLong
  else none

/-- Why a written path is refused, whatever is on the disk. -/
def textFault? (text : String) : Option Fault :=
  faultOf (text.toList.contains '\x00') text.utf8ByteSize

/-- The size of the text of a path: that of its names, each with a slash before it. -/
def pathBytes : Path → Nat
  | [] => 0
  | name :: p => name.utf8ByteSize + 1 + pathBytes p

/-- Why a path is refused, whatever is on the disk. -/
def pathFault? (p : Path) : Option Fault :=
  faultOf (p.any fun name => name.toList.contains '\x00') (pathBytes p)

/-- The path that one name more leads to. -/
def step (d : Disk) (place : Path) (name : String) : Path :=
  (d.links.get? (place ++ [name])).getD (place ++ [name])

/-- The path that a path leads to by links. -/
def place (d : Disk) (p : Path) : Path :=
  p.foldl d.step []

/-- Whether a name below a path is that of a link. -/
def isLink (d : Disk) (p : Path) (name : String) : Bool :=
  (d.links.get? (d.place p ++ [name])).isSome

/-- What stands at a path that is written without links. -/
def found? (d : Disk) (q : Path) : Option Entry :=
  if q = [] then some .directory else d.entries.get? q

/-- What stands at a path. -/
def get? (d : Disk) (p : Path) : Option Entry :=
  d.found? (d.place p)

/-- Puts an entry at a path. -/
def put (d : Disk) (p : Path) (e : Entry) : Disk :=
  { d with entries := d.entries.insert (d.place p) e }

@[simp] theorem place_root (d : Disk) : d.place [] = [] := rfl

theorem place_concat (d : Disk) (p : Path) (name : String) :
    d.place (p ++ [name]) = d.step (d.place p) name := by
  rw [place, List.foldl_append]
  rfl

/-- Links stay where they are when an entry is put. -/
@[simp] theorem place_put (d : Disk) (p : Path) (e : Entry) : (d.put p e).place = d.place := rfl

@[simp] theorem isLink_put (d : Disk) (p : Path) (e : Entry) : (d.put p e).isLink = d.isLink := rfl

/-- What is put at a path is found at all paths that lead to the same place. -/
theorem get?_put {d : Disk} {p : Path} {e : Entry} (q : Path) (hp : d.place p ≠ []) :
    (d.put p e).get? q = if d.place q = d.place p then some e else d.get? q := by
  rw [get?, place_put, get?, found?, found?, put]
  by_cases hq : d.place q = []
  · have : ¬ d.place q = d.place p := fun h => hp (h ▸ hq)
    rw [if_pos hq, if_neg this, if_pos hq]
  · rw [if_neg hq, if_neg hq, Table.get?_insert]

/-- Whether a name fits into a directory. -/
def fits (name : String) : Bool :=
  name.utf8ByteSize ≤ maxNameBytes

/-- Why nothing is found at a path at which nothing stands. A link may lead below a file. -/
def absence (d : Disk) (p : Path) : Fault :=
  if (d.place p).parent.ancestors.any fun above => Entry.isFile (d.found? above) then .notDirectory
  else .missing

/-- Follows one name from a path. -/
def follow (d : Disk) (p : Path) (name : String) : Except Fault Path :=
  match d.get? p with
  | none => .error .missing
  | some (.file _) => .error .notDirectory
  | some .directory =>
    if name = "" ∨ name = "." then .ok p
    else if name = ".." then .ok (d.place p).parent
    else if !fits name then .error .nameTooLong
    else if (d.get? (p ++ [name])).isSome then .ok (p ++ [name])
    else .error (d.absence (p ++ [name]))

/-- What stands at the end of a chain of names. -/
def locate (d : Disk) (p : Path) : List String → Except Fault Entry
  | [] =>
    match d.get? p with
    | some e => .ok e
    | none => .error .missing
  | name :: rest =>
    match d.follow p name with
    | .ok q => d.locate q rest
    | .error f => .error f

/-- What stands at a path. -/
def stat (d : Disk) (p : Path) : Except Fault Entry :=
  match pathFault? p with
  | some fault => .error fault
  | none => d.locate [] p

/-- What a written path leads to, followed name by name from the working directory. The empty text
leads nowhere. -/
def statText (d : Disk) (cwd : Path) (text : String) : Except Fault Entry :=
  if text = "" then .error .missing
  else
    match textFault? text with
    | some fault => .error fault
    | none => d.locate (if Path.isAbsolute text then [] else cwd) (Path.split text)

/-- Whether a written path leads to something. -/
def existsText (d : Disk) (cwd : Path) (text : String) : Bool :=
  match d.statText cwd text with
  | .ok _ => true
  | .error _ => false

/-- The bytes of a file that was found. -/
def contents : Except Fault Entry → Except Fault (List UInt8)
  | .ok (.file bytes) => .ok bytes
  | .ok .directory => .error .isDirectory
  | .error f => .error f

/-- The text of a file that was found. -/
def text (bytes : List UInt8) : String :=
  .ofList (Text.Utf8.decode bytes)

/-- The bytes of a text. -/
def bytes (text : String) : List UInt8 :=
  Text.Utf8.encode text.toList

@[simp] theorem text_bytes (s : String) : text (bytes s) = s := by
  simp [text, bytes]

/-- Why no file can be written at a path, if none can. Its directory must exist, and what stands at
the path must be no directory; a link at which nothing stands must lead into a directory. -/
def refusal? (d : Disk) (p : Path) : Option Fault :=
  match pathFault? p with
  | some fault => some fault
  | none =>
    match p.getLast? with
    | none => some .isDirectory
    | some name =>
      match d.stat p.parent with
      | .error fault => some fault
      | .ok (.file _) => some .notDirectory
      | .ok .directory =>
        if !fits name then some .nameTooLong
        else
          match d.get? p with
          | some .directory => some .isDirectory
          | some (.file _) => none
          | none =>
            if d.found? (d.place p).parent = some .directory then none else some (d.absence p)

/-- Writes a file. -/
def write (d : Disk) (p : Path) (content : List UInt8) : Except Fault Disk :=
  match d.refusal? p with
  | some fault => .error fault
  | none => .ok (d.put p (.file content))

/-- Makes the directories along a chain of names, as far as it gets. Nothing is made in the place of
a link. -/
def makeFrom (d : Disk) (p : Path) : List String → Disk × Option Fault
  | [] => (d, none)
  | name :: rest =>
    if !fits name then (d, some .nameTooLong)
    else
      match d.get? (p ++ [name]) with
      | some .directory => d.makeFrom (p ++ [name]) rest
      | some (.file _) => (d, some (if rest = [] then .occupied else .notDirectory))
      | none =>
        if d.isLink p name then (d, some (d.absence (p ++ [name])))
        else (d.put (p ++ [name]) .directory).makeFrom (p ++ [name]) rest

/-- Makes a directory and those above it that are missing. What was made stays even where a later
name cannot be made. -/
def makeDirectories (d : Disk) (p : Path) : Disk × Option Fault :=
  match pathFault? p with
  | some fault => (d, some fault)
  | none => d.makeFrom [] p

/-- Removes a path and all below it, links included. -/
def remove (d : Disk) (p : Path) : Disk where
  entries := d.entries.filterKeys fun q => !p.isPrefixOf q
  links := d.links.filterKeys fun q => !p.isPrefixOf q

/-- Name by name order of paths, which lists a directory before what it holds. -/
def pathLe : Path → Path → Bool
  | [], _ => true
  | _ :: _, [] => false
  | a :: p, b :: q => if a = b then pathLe p q else Text.unitsLe a.toList b.toList

/-- All that stands below a directory, in name by name order, by the names from that directory
down. -/
def below (d : Disk) (p : Path) : List (Path × Entry) :=
  ((d.entries.entries.filter fun e => p.isPrefixOf e.1 && e.1 != p).map
    fun e => (e.1.drop p.length, e.2)).mergeSort fun a b => pathLe a.1 b.1

/-- What is written is the file, put at its path. -/
theorem eq_put_of_write {d e : Disk} {p : Path} {content : List UInt8}
    (h : d.write p content = .ok e) : e = d.put p (.file content) := by
  unfold write at h
  split at h
  · cases h
  · cases h
    rfl

/-- A file can be written under a name that fits into a directory, unless another directory is in
the way; a link at which nothing stands must lead into a directory, too. -/
theorem refusal?_eq_none {d : Disk} {p : Path} (h : d.refusal? p = none) :
    ∃ dir name, p = dir ++ [name] ∧ pathFault? p = none ∧ d.stat dir = .ok .directory ∧
      fits name = true ∧ d.get? p ≠ some .directory ∧
      (d.get? p = none → d.found? (d.place p).parent = some .directory) := by
  unfold refusal? at h
  split at h
  · cases h
  · next hfault =>
    split at h
    · cases h
    · next name hname =>
      obtain ⟨dir, rfl⟩ := List.getLast?_eq_some_iff.mp hname
      rw [Path.parent, List.dropLast_concat] at h
      split at h
      · cases h
      · cases h
      · next hdir =>
        split at h
        · cases h
        · next hfits =>
          refine ⟨dir, name, rfl, hfault, hdir, by simpa using hfits, ?_⟩
          split at h
          · cases h
          · next hfile => exact ⟨by rw [hfile]; exact nofun, by rw [hfile]; exact nofun⟩
          · next hnone =>
            split at h
            · next hparent => exact ⟨by rw [hnone]; exact nofun, fun _ => hparent⟩
            · cases h

/-- A file that is written can be written. -/
theorem refusal?_of_write {d e : Disk} {p : Path} {content : List UInt8}
    (h : d.write p content = .ok e) : d.refusal? p = none := by
  unfold write at h
  split at h
  · cases h
  · next hnone => exact hnone

/-- No file is written in the place of the root. -/
theorem place_ne_root_of_refusal? {d : Disk} {p : Path} (h : d.refusal? p = none) :
    d.place p ≠ [] := by
  intro hroot
  obtain ⟨-, -, -, -, -, -, hplace, -⟩ := refusal?_eq_none h
  rw [get?, hroot] at hplace
  exact hplace rfl

/-- Writing a file changes what stands at the paths that lead to its place and nothing else. -/
theorem get?_write {d e : Disk} {p : Path} {content : List UInt8}
    (h : d.write p content = .ok e) (q : Path) :
    e.get? q = if d.place q = d.place p then some (.file content) else d.get? q := by
  rw [eq_put_of_write h, get?_put q (place_ne_root_of_refusal? (refusal?_of_write h))]

end Disk

end UmlDraft
