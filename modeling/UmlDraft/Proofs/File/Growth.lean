import Mathlib.Data.List.Induction
import UmlDraft.Proofs.File.Disk

/-!
# What file operations change

Making directories puts directories where nothing was, along the path that is to be made, and
writing a file changes what stands at its place. Both keep a disk rooted, which means that it has no
links and that whatever exists stands in a directory. On a rooted disk a path is made up to its end
or not at all, unless one of its names is too long.
-/

namespace UmlDraft.Disk

variable {d e : Disk} {p q : Path} {name : String} {names : List String} {entry : Entry}
  {fault : Fault} {content : List UInt8}

theorem get?_of_stat (hp : p.Plain) (h : d.stat p = .ok entry) : d.get? p = some entry :=
  get?_append_of_locate hp (locate_of_stat h).2

/-- A disk without links on which whatever exists stands in a directory. -/
structure Rooted (d : Disk) : Prop where
  /-- There are no links. -/
  direct : d.Direct
  /-- What exists stands in a directory. -/
  parent : ∀ p entry, d.get? p = some entry → d.get? p.parent = some .directory

theorem rooted_empty : Rooted {} := by
  refine ⟨rfl, fun p entry h => ?_⟩
  have hdirect : Direct {} := rfl
  by_cases hp : p = []
  · rw [hp]
    rfl
  · rw [get?, hdirect.place, found?, if_neg hp] at h
    cases h

/-- An entry may be put into a directory, but no file in the place of one. -/
theorem Rooted.put (hd : d.Rooted) (hp : p ≠ []) (hparent : d.get? p.parent = some .directory)
    (hplace : entry = .directory ∨ d.get? p ≠ some .directory) : (d.put p entry).Rooted := by
  refine ⟨hd.direct.put p entry, fun q other hq => ?_⟩
  rw [hd.direct.get?_put hp] at hq ⊢
  by_cases hqp : q = p
  · have hne : p.parent ≠ p := fun h => Nat.ne_of_lt (Path.length_parent_lt hp) (congrArg _ h)
    rw [hqp, if_neg hne]
    exact hparent
  · rw [if_neg hqp] at hq
    have hold := hd.parent q other hq
    split
    · next hunder =>
      rw [hunder] at hold
      rcases hplace with rfl | hplace
      · rfl
      · exact absurd hold hplace
    · exact hold

/-- On a rooted disk there is a directory at every path above one that exists. -/
theorem Rooted.get?_of_append (hd : d.Rooted) (hq : q ≠ []) (h : d.get? (p ++ q) = some entry) :
    d.get? p = some .directory := by
  induction q using List.reverseRecOn generalizing entry with
  | nil => exact absurd rfl hq
  | append_singleton q name ih =>
    have hparent := hd.parent _ _ h
    rw [Path.parent, ← List.append_assoc, List.dropLast_concat] at hparent
    by_cases hempty : q = []
    · rwa [hempty, List.append_nil] at hparent
    · exact ih hempty hparent

/-- Names behind a place that is there are followed from that place on. -/
theorem locate_append (hnames : ∀ n ∈ names, Path.IsName n)
    (h : d.locate p names = .ok entry) (after : List String) :
    d.locate p (names ++ after) = d.locate (p ++ names) after := by
  induction names generalizing p with
  | nil => rw [List.nil_append, List.append_nil]
  | cons name names ih =>
    rw [List.forall_mem_cons] at hnames
    rw [locate] at h
    rw [List.cons_append, locate]
    split at h
    · next q hq =>
      obtain ⟨-, -, -, rfl⟩ := follow_eq_ok hnames.1 hq
      rw [List.append_cons p name names]
      exact ih hnames.2 h
    · cases h

/-- A path that leads to something missing is not refused and breaks off at a gap. -/
theorem exists_gap_of_stat (hp : p.Plain) (h : d.stat p = .error .missing) :
    ∃ before name after, p = before ++ name :: after ∧ pathFault? p = none ∧
      d.Gap [] before name := by
  rw [stat] at h
  split at h
  · next fault hfault =>
    -- No path is refused as missing.
    cases h
    unfold pathFault? faultOf at hfault
    split at hfault
    · cases hfault
    · split at hfault <;> cases hfault
  · next hfault =>
    obtain ⟨before, name, after, rfl, hgap⟩ := exists_gap hp rfl h
    exact ⟨before, name, after, rfl, hfault, hgap⟩

/-- On a rooted disk nothing stands at a path that leads to something missing. -/
theorem Rooted.get?_of_missing (hd : d.Rooted) (hp : p.Plain) (h : d.stat p = .error .missing) :
    d.get? p = none := by
  obtain ⟨before, name, after, rfl, -, hgap⟩ := exists_gap_of_stat hp h
  have hmissing : d.get? (before ++ [name]) = none := hgap.missing
  rw [List.append_cons]
  by_cases hafter : after = []
  · rw [hafter, List.append_nil]
    exact hmissing
  · cases hget : d.get? (before ++ [name] ++ after) with
    | none => rfl
    | some entry =>
      rw [hd.get?_of_append hafter hget] at hmissing
      cases hmissing

/-! ### Making directories -/

/-- Where making directories changes something, a directory is made along the path. -/
theorem makeFrom_changes (h : (d.makeFrom p names).1.get? q ≠ d.get? q) :
    (∃ above, above <+: p ++ names ∧ d.place q = d.place above) ∧ d.get? q = none ∧
      (d.makeFrom p names).1.get? q = some .directory := by
  induction names generalizing d p with
  | nil => exact absurd rfl h
  | cons name names ih =>
    rw [makeFrom] at h ⊢
    split at h
    · exact absurd rfl h
    · next hfits =>
      rw [if_neg hfits, List.append_cons]
      split at h
      · exact ih h
      · exact absurd rfl h
      · next hnone =>
        split at h
        · exact absurd rfl h
        · next hlink =>
          rw [if_neg hlink]
          by_cases hq : d.place q = d.place (p ++ [name])
          · have hnew : (d.put (p ++ [name]) .directory).get? q = some .directory := by
              rw [get?_put q (place_ne_root_of_none hnone), if_pos hq]
            refine ⟨⟨p ++ [name], List.prefix_append _ _, hq⟩, ?_, get?_makeFrom hnew _ _⟩
            rw [get?_of_place_eq hq, hnone]
          · have hput : (d.put (p ++ [name]) .directory).get? q = d.get? q := by
              rw [get?_put q (place_ne_root_of_none hnone), if_neg hq]
            rw [← hput] at h ⊢
            exact ih h

/-- Where a directory cannot be made, the path itself is left alone. -/
theorem ne_of_makeFrom_changes (hd : d.Direct) (hfault : (d.makeFrom p names).2 = some fault)
    (h : (d.makeFrom p names).1.get? q ≠ d.get? q) : q ≠ p ++ names := by
  induction names generalizing d p with
  | nil => cases hfault
  | cons name names ih =>
    rw [makeFrom] at h hfault
    split at h
    · exact absurd rfl h
    · next hfits =>
      rw [if_neg hfits] at hfault
      rw [List.append_cons]
      split at h
      · next hdir =>
        rw [hdir] at hfault
        exact ih hd hfault h
      · exact absurd rfl h
      · next hnone =>
        rw [hd.isLink] at h
        rw [hnone, hd.isLink] at hfault
        by_cases hq : q = p ++ [name]
        · have hrest : names ≠ [] := fun hnil => by
            rw [hnil] at hfault
            cases hfault
          rw [hq]
          simpa using hrest
        · refine ih (hd.put _ _) hfault ?_
          rw [hd.get?_put (by simp), if_neg hq]
          exact h

/-- A path of directories that were made leads to a directory. -/
theorem locate_makeFrom (hnames : ∀ n ∈ names, Path.IsName n) (hp : d.get? p = some .directory)
    (h : (d.makeFrom p names).2 = none) :
    (d.makeFrom p names).1.locate p names = .ok .directory := by
  induction names generalizing d p with
  | nil =>
    have hsame : (d.makeFrom p []).1 = d := rfl
    rw [locate, hsame, hp]
  | cons name names ih =>
    rw [List.forall_mem_cons] at hnames
    -- One name further the path goes on from a directory of some disk that keeps this one.
    suffices hstep : ∃ e : Disk, e.get? p = some .directory ∧
        e.get? (p ++ [name]) = some .directory ∧ fits name = true ∧
        (d.makeFrom p (name :: names)) = e.makeFrom (p ++ [name]) names by
      obtain ⟨e, hep, hename, hfits, heq⟩ := hstep
      rw [heq] at h ⊢
      have hsome : ((e.makeFrom (p ++ [name]) names).1.get? (p ++ [name])).isSome := by
        rw [get?_makeFrom hename]
        rfl
      have hfollow : (e.makeFrom (p ++ [name]) names).1.follow p name = .ok (p ++ [name]) := by
        rw [follow, get?_makeFrom hep]
        dsimp only
        rw [if_neg (by simp [hnames.1.1, hnames.1.2.1]), if_neg hnames.1.2.2,
          if_neg (by simp [hfits]), if_pos hsome]
      rw [locate, hfollow]
      exact ih hnames.2 hename h
    rw [makeFrom] at h ⊢
    split at h
    · cases h
    · next hfits =>
      rw [if_neg hfits]
      have hfits : fits name = true := by simpa using hfits
      split at h
      · next hdir => exact ⟨d, hp, hdir, hfits, rfl⟩
      · cases h
      · next hnone =>
        split at h
        · cases h
        · next hlink =>
          rw [if_neg hlink]
          exact ⟨d.put (p ++ [name]) .directory, get?_put_of_none hnone hp,
            get?_put_self (place_ne_root_of_none hnone), hfits, rfl⟩

theorem Rooted.makeFrom (hd : d.Rooted) (hp : d.get? p = some .directory) :
    (d.makeFrom p names).1.Rooted := by
  induction names generalizing d p with
  | nil => exact hd
  | cons name names ih =>
    rw [Disk.makeFrom]
    split
    · exact hd
    · split
      · next hdir => exact ih hd hdir
      · exact hd
      · next hnone =>
        split
        · exact hd
        · have hparent : d.get? (Path.parent (p ++ [name])) = some .directory := by
            rw [Path.parent, List.dropLast_concat]
            exact hp
          exact ih (hd.put (by simp) hparent (.inl rfl)) (get?_put_self (place_ne_root_of_none hnone))

/-- Where a directory cannot be made without links, a name is too long or a file is in the way. -/
theorem exists_file_of_makeFrom (hd : d.Direct) (h : (d.makeFrom p names).2 = some fault)
    (hfault : fault ≠ .nameTooLong) :
    ∃ before bytes, before ≠ [] ∧ before <+: names ∧
      d.get? (p ++ before) = some (.file bytes) := by
  induction names generalizing d p with
  | nil => cases h
  | cons name names ih =>
    rw [makeFrom] at h
    split at h
    · cases h
      exact absurd rfl hfault
    · split at h
      · obtain ⟨before, bytes, -, hprefix, hfile⟩ := ih hd h
        refine ⟨name :: before, bytes, List.cons_ne_nil _ _,
          (List.prefix_cons_inj name).mpr hprefix, ?_⟩
        rw [List.append_cons]
        exact hfile
      · next bytes hfile => exact ⟨[name], bytes, by simp, by simp, hfile⟩
      · rw [if_neg (by simp [hd.isLink])] at h
        obtain ⟨before, bytes, hne, hprefix, hfile⟩ := ih (hd.put _ _) h
        refine ⟨name :: before, bytes, List.cons_ne_nil _ _,
          (List.prefix_cons_inj name).mpr hprefix, ?_⟩
        rw [List.append_cons]
        rwa [hd.get?_put (by simp), if_neg (by simpa using hne)] at hfile

/-- On a rooted disk a path that cannot be made is left as it was, unless a name is too long. -/
theorem Rooted.makeFrom_eq (hd : d.Rooted) (h : (d.makeFrom p names).2 = some fault)
    (hfault : fault ≠ .nameTooLong) : (d.makeFrom p names).1 = d := by
  induction names generalizing p with
  | nil => rfl
  | cons name names ih =>
    obtain ⟨before, bytes, hne, hprefix, hfile⟩ := exists_file_of_makeFrom hd.direct h hfault
    rw [Disk.makeFrom] at h ⊢
    split at h
    · cases h
      exact absurd rfl hfault
    · next hfits =>
      rw [if_neg hfits]
      split at h
      · exact ih h
      · rfl
      · next hnone =>
        -- The file that is in the way stands in a directory, so the first name is there.
        obtain ⟨next, before, rfl⟩ := List.exists_cons_of_ne_nil hne
        obtain ⟨rfl, -⟩ := List.cons_prefix_cons.mp hprefix
        rw [List.append_cons] at hfile
        by_cases hempty : before = []
        · rw [hempty, List.append_nil, hnone] at hfile
          cases hfile
        · rw [hd.get?_of_append hempty hfile] at hnone
          cases hnone

/-- A path that is refused is not made at all, and any other is made from the root on. -/
theorem makeDirectories_cases (d : Disk) (p : Path) :
    (∃ fault, pathFault? p = some fault ∧ d.makeDirectories p = (d, some fault)) ∨
      (pathFault? p = none ∧ d.makeDirectories p = d.makeFrom [] p) := by
  cases hfault : pathFault? p with
  | some fault => exact .inl ⟨fault, rfl, by rw [makeDirectories, hfault]⟩
  | none => exact .inr ⟨rfl, by rw [makeDirectories, hfault]⟩

/-- Where making a path changes something, a directory is made at a place on the way. -/
theorem makeDirectories_changes (h : (d.makeDirectories p).1.get? q ≠ d.get? q) :
    (∃ above, above <+: p ∧ d.place q = d.place above) ∧ d.get? q = none ∧
      (d.makeDirectories p).1.get? q = some .directory := by
  rcases makeDirectories_cases d p with ⟨fault, -, hmade⟩ | ⟨-, hmade⟩
  · rw [hmade] at h
    exact absurd rfl h
  · rw [hmade] at h ⊢
    exact makeFrom_changes h

/-- Without links the place is on the path itself. -/
theorem Direct.makeDirectories_changes (hd : d.Direct)
    (h : (d.makeDirectories p).1.get? q ≠ d.get? q) :
    q <+: p ∧ d.get? q = none ∧ (d.makeDirectories p).1.get? q = some .directory := by
  obtain ⟨⟨above, habove, hplace⟩, hold, hnew⟩ := Disk.makeDirectories_changes h
  rw [hd.place, hd.place] at hplace
  exact ⟨hplace ▸ habove, hold, hnew⟩

theorem ne_of_makeDirectories_changes (hd : d.Direct)
    (hfault : (d.makeDirectories p).2 = some fault)
    (h : (d.makeDirectories p).1.get? q ≠ d.get? q) : q ≠ p := by
  rcases makeDirectories_cases d p with ⟨fault, -, hmade⟩ | ⟨-, hmade⟩
  · rw [hmade] at h
    exact absurd rfl h
  · rw [hmade] at h hfault
    exact ne_of_makeFrom_changes hd hfault h

/-- Making a path leaves what is there. -/
theorem get?_makeDirectories_of_some (h : d.get? q = some entry) :
    (d.makeDirectories p).1.get? q = some entry := by
  rcases makeDirectories_cases d p with ⟨fault, -, hmade⟩ | ⟨-, hmade⟩
  · rwa [hmade]
  · rw [hmade]
    exact get?_makeFrom h [] p

/-- Links stay where they are when a path is made. -/
theorem links_makeDirectories (d : Disk) (p : Path) : (d.makeDirectories p).1.links = d.links := by
  rcases makeDirectories_cases d p with ⟨fault, -, hmade⟩ | ⟨-, hmade⟩
  · rw [hmade]
  · rw [hmade]
    exact links_makeFrom d [] p

theorem stat_makeDirectories (hp : p.Plain) (h : (d.makeDirectories p).2 = none) :
    (d.makeDirectories p).1.stat p = .ok .directory := by
  rcases makeDirectories_cases d p with ⟨fault, -, hmade⟩ | ⟨hfault, hmade⟩
  · rw [hmade] at h
    cases h
  · rw [hmade] at h ⊢
    rw [stat_of_pathFault? hfault]
    exact locate_makeFrom hp rfl h

theorem Rooted.makeDirectories (hd : d.Rooted) : (d.makeDirectories p).1.Rooted := by
  rcases makeDirectories_cases d p with ⟨fault, -, hmade⟩ | ⟨-, hmade⟩
  · rwa [hmade]
  · rw [hmade]
    exact hd.makeFrom rfl

theorem Rooted.makeDirectories_eq (hd : d.Rooted) (h : (d.makeDirectories p).2 = some fault)
    (hfault : fault ≠ .nameTooLong) : (d.makeDirectories p).1 = d := by
  rcases makeDirectories_cases d p with ⟨fault, -, hmade⟩ | ⟨-, hmade⟩
  · rw [hmade]
  · rw [hmade] at h ⊢
    exact hd.makeFrom_eq h hfault

/-! ### Links that lead nowhere -/

/-- A path along which nothing can be made: it breaks off at a link that leads nowhere, and either
more names follow or the link leads into no directory. -/
inductive Stuck (d : Disk) : Path → Prop where
  /-- The names before the link lead to a directory. -/
  | link {dir : Path} {name : String} {after : List String} (hdir : d.stat dir = .ok .directory)
    (hdangling : d.Dangling dir name)
    (hend : after = [] → d.found? (d.place (dir ++ [name])).parent ≠ some .directory) :
    Stuck d (dir ++ name :: after)

theorem Direct.not_stuck (hd : d.Direct) (p : Path) : ¬ d.Stuck p := by
  rintro ⟨-, hdangling, -⟩
  exact hd.not_dangling _ _ hdangling

/-- A name that is missing behind a directory could be there. -/
theorem gap_of_stat {dir : Path} {after : List String} (hp : (dir ++ name :: after).Plain)
    (hdir : d.stat dir = .ok .directory) (hnone : d.get? (dir ++ [name]) = none)
    (h : d.stat (dir ++ name :: after) = .error .missing) : d.Gap [] dir name := by
  obtain ⟨-, -, -, -, hfault, -⟩ := exists_gap_of_stat hp h
  have hlocate := (locate_of_stat hdir).2
  have hname := hp name (by simp)
  rw [stat_of_pathFault? hfault, locate_append hp.left hlocate, List.nil_append, locate] at h
  refine ⟨hlocate, ?_, hnone⟩
  split at h
  · next q hq =>
    obtain ⟨-, -, hsome, -⟩ := follow_eq_ok hname hq
    rw [hnone] at hsome
    cases hsome
  · next fault hf =>
    cases h
    have hroot : (d.get? dir).isSome := by
      rw [get?_of_stat hp.left hdir]
      rfl
    exact (follow_eq_missing hname hroot hf).2.1

/-! ### Writing files -/

theorem Rooted.write (hd : d.Rooted) (hp : p.Plain) (h : d.write p content = .ok e) :
    e.Rooted := by
  obtain ⟨dir, name, rfl, -, hdir, -, hplace, -⟩ := refusal?_eq_none (refusal?_of_write h)
  have hparent : d.get? (Path.parent (dir ++ [name])) = some .directory := by
    rw [Path.parent, List.dropLast_concat]
    exact get?_of_stat hp.left hdir
  rw [eq_put_of_write h]
  exact hd.put (by simp) hparent (.inr hplace)

/-! ### Finding what was written -/

/-- On the way to what a chain of names leads to, there are directories. -/
theorem get?_of_locate_of_prefix (hnames : ∀ n ∈ names, Path.IsName n)
    (h : d.locate p names = .ok entry) {before : List String} (hbefore : before <+: names)
    (hne : before ≠ names) : d.get? (p ++ before) = some .directory := by
  induction names generalizing p before with
  | nil => exact absurd (List.prefix_nil.mp hbefore) hne
  | cons name names ih =>
    rw [List.forall_mem_cons] at hnames
    rw [locate] at h
    split at h
    · next q hq =>
      obtain ⟨hdir, -, -, rfl⟩ := follow_eq_ok hnames.1 hq
      cases before with
      | nil =>
        rw [List.append_nil]
        exact hdir
      | cons first before =>
        obtain ⟨rfl, hrest⟩ := List.cons_prefix_cons.mp hbefore
        rw [List.append_cons]
        exact ih hnames.2 h hrest fun heq => hne (heq ▸ rfl)
    · cases h

/-- On the way to a directory, up to its end, there are directories. -/
theorem get?_above_of_stat (hp : p.Plain) (h : d.stat p = .ok .directory) (hq : q <+: p) :
    d.get? q = some .directory := by
  by_cases heq : q = p
  · rw [heq]
    exact get?_of_stat hp h
  · exact get?_of_locate_of_prefix hp (locate_of_stat h).2 hq heq

/-- What a chain of names leads to on one disk, it leads to on any that agrees along it. -/
theorem locate_of_agree (hnames : ∀ n ∈ names, Path.IsName n) (hlocate : d.locate p names = .ok entry)
    (h : ∀ before, before <+: names → e.get? (p ++ before) = d.get? (p ++ before)) :
    e.locate p names = .ok entry := by
  induction names generalizing p with
  | nil =>
    have hp := h [] (List.prefix_refl _)
    rw [List.append_nil] at hp
    rwa [locate, hp]
  | cons name names ih =>
    rw [List.forall_mem_cons] at hnames
    rw [locate] at hlocate
    split at hlocate
    · next q hq =>
      obtain ⟨hdir, hfits, hsome, rfl⟩ := follow_eq_ok hnames.1 hq
      have hp := h [] List.nil_prefix
      rw [List.append_nil] at hp
      have hfollow : e.follow p name = .ok (p ++ [name]) := by
        rw [follow, hp, hdir]
        dsimp only
        rw [if_neg (by simp [hnames.1.1, hnames.1.2.1]), if_neg hnames.1.2.2,
          if_neg (by simp [hfits]), h [name] (by simp), if_pos hsome]
      rw [locate, hfollow]
      refine ih hnames.2 hlocate fun before hbefore => ?_
      rw [← List.append_cons]
      exact h (name :: before) ((List.prefix_cons_inj name).mpr hbefore)
    · cases hlocate

/-- What a path leads to on one disk, it leads to on any that agrees along it. -/
theorem stat_of_agree (hp : p.Plain) (hstat : d.stat p = .ok entry)
    (h : ∀ before, before <+: p → e.get? before = d.get? before) : e.stat p = .ok entry := by
  obtain ⟨hfault, hlocate⟩ := locate_of_stat hstat
  rw [stat_of_pathFault? hfault]
  exact locate_of_agree hp hlocate h

/-- What stands under a name in a directory is found there. -/
theorem stat_concat (hp : (p ++ [name]).Plain) (hfault : pathFault? (p ++ [name]) = none)
    (h : d.stat p = .ok .directory) (hfits : fits name = true)
    (hentry : d.get? (p ++ [name]) = some entry) : d.stat (p ++ [name]) = .ok entry := by
  have hdir := hp.left
  have hname := hp name (List.mem_append_right _ (List.mem_singleton_self name))
  have hfollow : d.follow p name = .ok (p ++ [name]) := by
    rw [follow, get?_of_stat hdir h]
    dsimp only
    rw [if_neg (by simp [hname.1, hname.2.1]), if_neg hname.2.2, if_neg (by simp [hfits]),
      if_pos (by rw [hentry]; rfl)]
  rw [stat_of_pathFault? hfault, locate_append hdir (locate_of_stat h).2, List.nil_append, locate,
    hfollow]
  dsimp only
  rw [locate, hentry]

end UmlDraft.Disk
