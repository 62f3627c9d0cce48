import Mathlib.Data.List.Induction
import UmlDraft.File.Disk

/-!
# Paths on a disk

A path of names that each lead one step down is followed as far as directories go. Where it breaks
off without an error of another kind, a name is missing below a directory that is there: what is
made along the path is made from that name on, unless the name is that of a link, and nothing that
was there is lost. On a disk without links every path is its own place.
-/

namespace UmlDraft

namespace Path

/-- A name that leads one step down. -/
def IsName (name : String) : Prop :=
  name ≠ "" ∧ name ≠ "." ∧ name ≠ ".."

/-- A path that leads down only. -/
def Plain (p : Path) : Prop :=
  ∀ name ∈ p, IsName name

instance (p : Path) : Decidable p.Plain :=
  inferInstanceAs (Decidable (∀ name ∈ p, name ≠ "" ∧ name ≠ "." ∧ name ≠ ".."))

variable {p q : Path}

theorem length_parent_lt (hp : p ≠ []) : p.parent.length < p.length := by
  have hpos := List.length_pos_iff.mpr hp
  rw [parent, List.length_dropLast]
  omega

/-- What lies above a path that goes on behind a name. -/
theorem parent_append_cons (p : Path) (name : String) {after : List String} (h : after ≠ []) :
    parent (p ++ name :: after) = p ++ name :: after.dropLast := by
  rw [parent, List.dropLast_append_of_ne_nil (List.cons_ne_nil _ _),
    List.dropLast_cons_of_ne_nil h]

theorem plain_nil : Plain [] := fun _ h => nomatch h

/-- What leads down only does so from its beginning on. -/
theorem Plain.left (h : (p ++ q).Plain) : p.Plain :=
  fun n hn => h n (List.mem_append_left q hn)

theorem Plain.push (h : p.Plain) (name : String) : (p.push name).Plain := by
  unfold Path.push
  split
  · exact h
  · next hnot =>
    rw [not_or] at hnot
    split
    · exact fun n hn => h n (List.dropLast_subset p hn)
    · next hup =>
      intro n hn
      rcases List.mem_append.mp hn with hn | hn
      · exact h n hn
      · rw [List.mem_singleton.mp hn]
        exact ⟨hnot.1, hnot.2, hup⟩

/-- Any written path leads from a plain one to a plain one. -/
theorem Plain.join (h : p.Plain) (text : String) : (p.join text).Plain := by
  unfold Path.join
  induction split text generalizing p with
  | nil => exact h
  | cons name names ih => exact ih (h.push name)

/-- From a plain working directory every text resolves to a plain path. -/
theorem Plain.resolve (h : p.Plain) (text : String) : (Path.resolve p text).Plain := by
  unfold Path.resolve
  split
  · exact plain_nil.join text
  · exact h.join text

/-- Behind a slash a written path goes on from what stands before it. -/
theorem join_slash (p : Path) (s t : String) : p.join (s ++ "/" ++ t) = (p.join s).join t := by
  have hchars : (s ++ "/" ++ t).toList = s.toList ++ '/' :: t.toList := by
    rw [String.toList_append, String.toList_append, List.append_assoc]
    rfl
  rw [join, split, hchars, List.splitOn_append_cons_self, List.map_append, List.foldl_append]
  rfl

/-- A name without a slash leads one step down. -/
theorem join_of_isName {name : String} (hname : IsName name) (hslash : '/' ∉ name.toList)
    (p : Path) : p.join name = p ++ [name] := by
  have hsplit : split name = [name] := by
    rw [split, List.splitOn_eq_singleton hslash, List.map_singleton, String.ofList_toList]
  rw [join, hsplit, List.foldl_cons, List.foldl_nil, push, if_neg (by simp [hname.1, hname.2.1]),
    if_neg hname.2.2]

/-- In a written path a slash stands before every name. -/
theorem toText_cons_cons (name next : String) (p : Path) :
    toText (name :: next :: p) = toText [name] ++ toText (next :: p) := by
  simp only [toText, String.intercalate_cons_cons, String.intercalate_singleton, String.append_assoc]

theorem toText_singleton (name : String) : toText [name] = "/" ++ name := by
  rw [toText, String.intercalate_singleton]

/-- A written path consists of slashes and what its names hold. -/
theorem mem_toText_iff {c : Char} (hc : c ≠ '/') :
    c ∈ p.toText.toList ↔ ∃ name ∈ p, c ∈ name.toList := by
  have hone : ∀ name : String, c ∈ (toText [name]).toList ↔ c ∈ name.toList := fun name => by
    have hchars : (toText [name]).toList = '/' :: name.toList := by
      rw [toText_singleton, String.toList_append]
      rfl
    rw [hchars, List.mem_cons, or_iff_right hc]
  induction p with
  | nil => simpa [toText] using hc
  | cons name p ih =>
    cases p with
    | nil => simp [hone]
    | cons next p =>
      rw [toText_cons_cons, String.toList_append, List.mem_append, hone]
      exact (or_congr_right ih).trans (by simp)

end Path

namespace Disk

variable {d : Disk} {p q : Path} {name : String} {names before : List String} {e entry : Entry}

/-! ### Refused paths -/

/-- The text of a path other than the root is as long as its names with their slashes. -/
theorem utf8ByteSize_toText (hp : p ≠ []) : p.toText.utf8ByteSize = pathBytes p := by
  have hone : ∀ name : String, (Path.toText [name]).utf8ByteSize = name.utf8ByteSize + 1 :=
    fun name => by
      rw [Path.toText_singleton, String.utf8ByteSize_append, Nat.add_comm]
      rfl
  induction p with
  | nil => exact absurd rfl hp
  | cons name p ih =>
    cases p with
    | nil => rw [hone, pathBytes, pathBytes]
    | cons next p =>
      rw [Path.toText_cons_cons, String.utf8ByteSize_append, hone, ih (List.cons_ne_nil _ _)]
      rfl

theorem pathBytes_append (p q : Path) : pathBytes (p ++ q) = pathBytes p + pathBytes q := by
  induction p with
  | nil => rw [List.nil_append, pathBytes, Nat.zero_add]
  | cons name p ih =>
    rw [List.cons_append, pathBytes, pathBytes, ih]
    omega

/-- A path is refused for its text. -/
theorem pathFault?_eq (p : Path) : pathFault? p = textFault? p.toText := by
  have hnull : (p.any fun name => name.toList.contains '\x00') =
      p.toText.toList.contains '\x00' := by
    rw [Bool.eq_iff_iff, List.contains_iff_mem, Path.mem_toText_iff (by decide), List.any_eq_true]
    simp only [List.contains_iff_mem]
  rw [pathFault?, textFault?, hnull]
  by_cases hp : p = []
  · subst hp
    rfl
  · rw [utf8ByteSize_toText hp]

/-- What a path begins with is not refused unless the path is. -/
theorem pathFault?_left (h : pathFault? (p ++ q) = none) : pathFault? p = none := by
  unfold pathFault? faultOf at h ⊢
  rw [List.any_append, pathBytes_append] at h
  split at h
  · cases h
  · next hnull =>
    rw [Bool.or_eq_true, not_or] at hnull
    split at h
    · cases h
    · next hsize => rw [if_neg hnull.1, if_neg (by omega)]

theorem pathFault?_parent (h : pathFault? p = none) : pathFault? p.parent = none := by
  obtain ⟨rest, hrest⟩ : p.parent <+: p := List.dropLast_prefix p
  rw [← hrest] at h
  exact pathFault?_left h

theorem stat_of_pathFault? (h : pathFault? p = none) : d.stat p = d.locate [] p := by
  rw [stat, h]

/-- What a path leads to is found from the root. -/
theorem locate_of_stat (h : d.stat p = .ok entry) :
    pathFault? p = none ∧ d.locate [] p = .ok entry := by
  rw [stat] at h
  split at h
  · cases h
  · next hfault => exact ⟨hfault, h⟩

/-! ### Links -/

/-- A link at which nothing stands. -/
def Dangling (d : Disk) (p : Path) (name : String) : Prop :=
  d.get? (p ++ [name]) = none ∧ d.isLink p name = true

instance (d : Disk) (p : Path) (name : String) : Decidable (d.Dangling p name) :=
  inferInstanceAs (Decidable (_ ∧ _))

/-- A name that is no link leads one step down. -/
theorem place_concat_of_not_isLink (h : d.isLink p name = false) :
    d.place (p ++ [name]) = d.place p ++ [name] := by
  rw [isLink, Option.isSome_eq_false_iff, Option.isNone_iff_eq_none] at h
  rw [place_concat, step, h, Option.getD_none]

/-- Disks with the same links lead to the same places. -/
theorem place_of_links {d e : Disk} (h : e.links = d.links) : e.place = d.place := by
  have hstep : e.step = d.step := by
    funext place name
    rw [step, step, h]
  funext p
  rw [place, place, hstep]

/-- A link that leads nowhere on a disk led nowhere before anything was added. -/
theorem Dangling.of_grown {d e : Disk} (h : e.Dangling p name) (hlinks : e.links = d.links)
    (hgrown : ∀ q, (d.get? q).isSome → (e.get? q).isSome) : d.Dangling p name := by
  obtain ⟨hnone, hlink⟩ := h
  refine ⟨?_, ?_⟩
  · rw [← Option.not_isSome_iff_eq_none]
    intro hsome
    have hnew := hgrown _ hsome
    rw [hnone] at hnew
    cases hnew
  · rw [isLink, place_of_links hlinks, hlinks] at hlink
    exact hlink

/-- At paths that lead to one place stands the same. -/
theorem get?_of_place_eq (h : d.place p = d.place q) : d.get? p = d.get? q := by
  rw [get?, get?, h]

/-- Where nothing stands is not the root. -/
theorem place_ne_root_of_none (h : d.get? p = none) : d.place p ≠ [] := by
  intro hroot
  rw [get?, hroot] at h
  cases h

theorem get?_put_self (hp : d.place p ≠ []) : (d.put p e).get? p = some e := by
  rw [get?_put p hp, if_pos rfl]

/-- What is put where nothing was leaves all else. -/
theorem get?_put_of_none (hp : d.get? p = none) (hq : d.get? q = some entry) :
    (d.put p e).get? q = some entry := by
  rw [get?_put q (place_ne_root_of_none hp), if_neg fun heq => ?_]
  · exact hq
  · rw [get?_of_place_eq heq, hp] at hq
    cases hq

/-- A disk without links. -/
def Direct (d : Disk) : Prop :=
  d.links = .empty

theorem Direct.isLink (hd : d.Direct) (p : Path) (name : String) : d.isLink p name = false := by
  rw [Disk.isLink, hd]
  rfl

/-- Without links every path is its own place. -/
theorem Direct.place (hd : d.Direct) (p : Path) : d.place p = p := by
  induction p using List.reverseRecOn with
  | nil => rfl
  | append_singleton p name ih => rw [place_concat_of_not_isLink (hd.isLink p name), ih]

theorem Direct.not_dangling (hd : d.Direct) (p : Path) (name : String) : ¬ d.Dangling p name :=
  fun h => Bool.false_ne_true ((hd.isLink p name).symm.trans h.2)

theorem Direct.put (hd : d.Direct) (p : Path) (e : Entry) : (d.put p e).Direct :=
  hd

/-- Without links what is put at a path is found there and nowhere else. -/
theorem Direct.get?_put (hd : d.Direct) (hp : p ≠ []) (q : Path) :
    (d.put p e).get? q = if q = p then some e else d.get? q := by
  rw [Disk.get?_put q (by rwa [hd.place]), hd.place, hd.place]

/-! ### Names that are followed -/

/-- A name is followed where it stands in a directory. -/
theorem follow_eq_ok (hname : Path.IsName name) (h : d.follow p name = .ok q) :
    d.get? p = some .directory ∧ fits name = true ∧ (d.get? (p ++ [name])).isSome ∧
      q = p ++ [name] := by
  unfold follow at h
  split at h
  · cases h
  · cases h
  · next hp =>
    rw [if_neg (by simp [hname.1, hname.2.1]), if_neg hname.2.2] at h
    split at h
    · cases h
    · next hfits =>
      split at h
      · next hsome =>
        cases h
        exact ⟨hp, by simpa using hfits, hsome, rfl⟩
      · cases h

/-- A name that is missing is missing in a directory. -/
theorem follow_eq_missing (hname : Path.IsName name) (hp : (d.get? p).isSome)
    (h : d.follow p name = .error .missing) :
    d.get? p = some .directory ∧ fits name = true ∧ d.get? (p ++ [name]) = none := by
  unfold follow at h
  split at h
  · next hnone =>
    rw [hnone] at hp
    cases hp
  · cases h
  · next hdir =>
    rw [if_neg (by simp [hname.1, hname.2.1]), if_neg hname.2.2] at h
    split at h
    · cases h
    · next hfits =>
      split at h
      · cases h
      · next hsome => exact ⟨hdir, by simpa using hfits, by simpa using hsome⟩

/-- A chain of names that leads to a directory begins at one. -/
theorem get?_of_locate (hnames : ∀ n ∈ names, Path.IsName n)
    (h : d.locate p names = .ok .directory) : d.get? p = some .directory := by
  cases names with
  | nil =>
    rw [locate] at h
    split at h
    · next he =>
      cases h
      exact he
    · cases h
  | cons name names =>
    rw [locate] at h
    split at h
    · next q hq => exact (follow_eq_ok (hnames name List.mem_cons_self) hq).1
    · cases h

/-- What a chain of names leads to is what stands at its end. -/
theorem get?_append_of_locate (hnames : ∀ n ∈ names, Path.IsName n)
    (h : d.locate p names = .ok entry) : d.get? (p ++ names) = some entry := by
  induction names generalizing p with
  | nil =>
    rw [List.append_nil]
    rw [locate] at h
    split at h
    · next he =>
      cases h
      exact he
    · cases h
  | cons name names ih =>
    rw [List.forall_mem_cons] at hnames
    rw [locate] at h
    split at h
    · next q hq =>
      obtain ⟨-, -, -, rfl⟩ := follow_eq_ok hnames.1 hq
      rw [List.append_cons]
      exact ih hnames.2 h
    · cases h

/-- Making directories goes past those that are there. -/
theorem makeFrom_append (hbefore : ∀ n ∈ before, Path.IsName n)
    (h : d.locate p before = .ok .directory) (names : List String) :
    d.makeFrom p (before ++ names) = d.makeFrom (p ++ before) names := by
  induction before generalizing p with
  | nil => rw [List.nil_append, List.append_nil]
  | cons name before ih =>
    rw [List.forall_mem_cons] at hbefore
    rw [locate] at h
    split at h
    · next q hq =>
      obtain ⟨-, hfits, -, rfl⟩ := follow_eq_ok hbefore.1 hq
      have hdir := get?_of_locate hbefore.2 h
      rw [List.cons_append, makeFrom, if_neg (by simp [hfits]), hdir,
        List.append_cons p name before]
      exact ih hbefore.2 h
    · cases h

/-- A directory that is there is not made again. -/
theorem makeDirectories_of_stat (hp : p.Plain) (h : d.stat p = .ok .directory) :
    d.makeDirectories p = (d, none) := by
  obtain ⟨hfault, hlocate⟩ := locate_of_stat h
  have hmade := makeFrom_append hp hlocate []
  rw [List.append_nil] at hmade
  rw [makeDirectories, hfault]
  exact hmade

/-- Making directories leaves what is there. -/
theorem get?_makeFrom (h : d.get? q = some e) (p : Path) (names : List String) :
    (d.makeFrom p names).1.get? q = some e := by
  induction names generalizing d p with
  | nil => exact h
  | cons name names ih =>
    rw [makeFrom]
    split
    · exact h
    · split
      · exact ih h (p ++ [name])
      · exact h
      · next hnone =>
        split
        · exact h
        · exact ih (get?_put_of_none hnone h) (p ++ [name])

/-- Links stay where they are when directories are made. -/
theorem links_makeFrom (d : Disk) (p : Path) (names : List String) :
    (d.makeFrom p names).1.links = d.links := by
  induction names generalizing d p with
  | nil => rfl
  | cons name names ih =>
    rw [makeFrom]
    split
    · rfl
    · split
      · exact ih d (p ++ [name])
      · rfl
      · split
        · rfl
        · exact ih (d.put (p ++ [name]) .directory) (p ++ [name])

/-- Where a chain of names breaks off: they lead to a directory in which the next one is missing. -/
structure Gap (d : Disk) (p : Path) (before : List String) (name : String) : Prop where
  /-- The directory is there. -/
  directory : d.locate p before = .ok .directory
  /-- The name could be there. -/
  fits : fits name = true
  /-- It is not there. -/
  missing : d.get? (p ++ before ++ [name]) = none

/-- A chain of names that leads to something missing breaks off at a gap. -/
theorem exists_gap (hnames : ∀ n ∈ names, Path.IsName n) (hp : (d.get? p).isSome)
    (h : d.locate p names = .error .missing) :
    ∃ before name after, names = before ++ name :: after ∧ d.Gap p before name := by
  induction names generalizing p with
  | nil =>
    rw [locate] at h
    split at h
    · cases h
    · next hnone =>
      rw [hnone] at hp
      cases hp
  | cons name names ih =>
    rw [List.forall_mem_cons] at hnames
    rw [locate] at h
    split at h
    · next q hq =>
      -- The name is there, so the gap lies behind it.
      obtain ⟨-, -, hsome, rfl⟩ := follow_eq_ok hnames.1 hq
      obtain ⟨before, gap, after, rfl, hgap⟩ := ih hnames.2 hsome h
      refine ⟨name :: before, gap, after, rfl, ?_, hgap.fits, ?_⟩
      · rw [locate, hq]
        exact hgap.directory
      · rw [List.append_cons p name before]
        exact hgap.missing
    · next f hf =>
      cases h
      obtain ⟨hdir, hfits, hnone⟩ := follow_eq_missing hnames.1 hp hf
      refine ⟨[], name, names, rfl, ?_, hfits, ?_⟩
      · rw [locate, hdir]
      · rwa [List.append_nil]

namespace Gap

variable {dir : Path}

/-- A file can be written into a gap, unless a link from there leads into no directory. -/
theorem refusal? (h : d.Gap [] dir name) (hfault : pathFault? (dir ++ [name]) = none)
    (hparent : d.found? (d.place (dir ++ [name])).parent = some .directory) :
    d.refusal? (dir ++ [name]) = none := by
  have hdir : d.stat dir = .ok .directory :=
    (stat_of_pathFault? (pathFault?_left hfault)).trans h.directory
  have hmissing : d.get? (dir ++ [name]) = none := h.missing
  rw [Disk.refusal?, hfault, List.getLast?_concat, Path.parent, List.dropLast_concat, hdir, hmissing]
  simp only [h.fits, Bool.not_true, Bool.false_eq_true, if_false, if_pos hparent]

/-- A gap that is no link lies in the directory that its names lead to. -/
theorem found?_parent (h : d.Gap [] dir name) (hdir : dir.Plain) (hlink : d.isLink dir name = false) :
    d.found? (d.place (dir ++ [name])).parent = some .directory := by
  rw [place_concat_of_not_isLink hlink, Path.parent, List.dropLast_concat]
  exact get?_append_of_locate hdir h.directory

/-- Making directories through a gap puts one into it, if it is no link. -/
theorem get?_makeDirectories (h : d.Gap [] dir name) (hdir : dir.Plain) {after : List String}
    (hfault : pathFault? (dir ++ name :: after) = none) (hlink : d.isLink dir name = false) :
    (d.makeDirectories (dir ++ name :: after)).1.get? (dir ++ [name]) = some .directory := by
  have hmissing : d.get? (dir ++ [name]) = none := h.missing
  have hnew : (d.put (dir ++ [name]) .directory).get? (dir ++ [name]) = some .directory :=
    get?_put_self (place_ne_root_of_none hmissing)
  rw [makeDirectories, hfault]
  dsimp only
  rw [makeFrom_append hdir h.directory, List.nil_append, makeFrom, if_neg (by simp [h.fits]),
    hmissing]
  dsimp only
  rw [if_neg (by simp [hlink])]
  exact get?_makeFrom hnew _ _

/-- Making directories through a gap that is a link makes none. -/
theorem makeDirectories_of_isLink (h : d.Gap [] dir name) (hdir : dir.Plain) {after : List String}
    (hfault : pathFault? (dir ++ name :: after) = none) (hlink : d.isLink dir name = true) :
    d.makeDirectories (dir ++ name :: after) = (d, some (d.absence (dir ++ [name]))) := by
  have hmissing : d.get? (dir ++ [name]) = none := h.missing
  rw [makeDirectories, hfault]
  dsimp only
  rw [makeFrom_append hdir h.directory, List.nil_append, makeFrom, if_neg (by simp [h.fits]),
    hmissing]
  dsimp only
  rw [if_pos hlink]

end Gap

end Disk

end UmlDraft
