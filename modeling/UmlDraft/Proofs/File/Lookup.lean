import UmlDraft.Proofs.File.Repeat

/-!
# What a path leads to

On a rooted disk a path that is not refused and whose names are not too long leads to what stands at
its end. Where nothing stands there, it either runs into a file or something is missing, and only in
the second case can the path be made.
-/

namespace UmlDraft.Disk

variable {d : Disk} {p q : Path} {names : List String} {entry : Entry} {fault : Fault}
  {bytes : List UInt8}

/-- What a chain of names leads to has no name that is too long. -/
theorem fits_of_locate (hnames : ∀ n ∈ names, Path.IsName n) (h : d.locate p names = .ok entry) :
    ∀ n ∈ names, fits n = true := by
  induction names generalizing p with
  | nil => exact nofun
  | cons name names ih =>
    rw [List.forall_mem_cons] at hnames
    rw [locate] at h
    split at h
    · next q hq => exact List.forall_mem_cons.mpr ⟨(follow_eq_ok hnames.1 hq).2.1, ih hnames.2 h⟩
    · cases h

/-- Where a chain of names leads nowhere, no longer one leads anywhere. -/
theorem locate_append_of_error (h : d.locate p names = .error fault) (after : List String) :
    d.locate p (names ++ after) = .error fault := by
  induction names generalizing p with
  | nil =>
    rw [locate] at h
    split at h
    · cases h
    · next hnone =>
      cases after with
      | nil => rw [List.append_nil, locate, hnone, ← h]
      | cons name after => rw [List.nil_append, locate, follow, hnone, ← h]
  | cons name names ih =>
    rw [List.cons_append, locate]
    rw [locate] at h
    split at h
    · exact ih h
    · exact h

/-- A path is refused if it holds a null character or is too long. -/
theorem pathFault?_ne_none_iff :
    pathFault? p ≠ none ↔ '\x00' ∈ p.toText.toList ∨ maxPathBytes < p.toText.utf8ByteSize := by
  rw [pathFault?_eq, textFault?, faultOf]
  split
  · next hnull => simp [List.contains_iff_mem.mp hnull]
  · next hnull =>
    split
    · next hlong => simp [hlong]
    · next hlong => simp [mt List.contains_iff_mem.mpr hnull, hlong]

/-- A path whose names are not too long leads to what stands at its end. -/
theorem Rooted.stat_of_get? (hd : d.Rooted) (hp : p.Plain) (hfault : pathFault? p = none)
    (hfits : ∀ n ∈ p, fits n = true) (h : d.get? p = some entry) : d.stat p = .ok entry := by
  induction p using List.reverseRecOn generalizing entry with
  | nil =>
    rw [stat_of_pathFault? hfault, locate, h]
  | append_singleton dir name ih =>
    have hdir : d.get? dir = some .directory := hd.get?_of_append (List.cons_ne_nil _ _) h
    have hstat := ih hp.left (pathFault?_left hfault)
      (fun n hn => hfits n (List.mem_append_left _ hn)) hdir
    exact stat_concat hp hfault hstat (hfits name (by simp)) h

theorem exists_of_isFile {found : Option Entry} (h : Entry.isFile found = true) :
    ∃ content, found = some (.file content) := by
  unfold Entry.isFile at h
  split at h
  · next content => exact ⟨content, rfl⟩
  · cases h
  · cases h

/-- Without a file above, nothing is found for no other reason than that it is missing. -/
theorem Direct.absence_eq (hd : d.Direct)
    (hclear : ∀ above content, above <+: p → above ≠ p → d.get? above ≠ some (.file content)) :
    d.absence p = .missing := by
  rw [absence, if_neg]
  rw [hd.place, List.any_eq_true]
  rintro ⟨above, habove, hfile⟩
  obtain ⟨n, -, rfl⟩ := List.mem_map.mp habove
  obtain ⟨content, hcontent⟩ := exists_of_isFile hfile
  have hget : d.get? (p.parent.take n) = some (.file content) := by
    rw [get?, hd.place, hcontent]
  have hparent : p.parent.take n <+: p := (List.take_prefix n _).trans (List.dropLast_prefix p)
  refine hclear _ content hparent (fun heq => ?_) hget
  -- Only the root is above itself, and no file stands there.
  by_cases hroot : p = []
  · rw [heq, hroot] at hget
    cases hget
  · have hlength := (List.take_prefix n p.parent).length_le
    rw [heq] at hlength
    exact Nat.not_le_of_lt (Path.length_parent_lt hroot) hlength

/-- On the way to something missing there is no file. -/
theorem Rooted.get?_ne_file_of_missing (hd : d.Rooted) (hp : p.Plain)
    (h : d.stat p = .error .missing) (hq : q <+: p) : d.get? q ≠ some (.file bytes) := by
  obtain ⟨before, name, after, rfl, hfault, hgap⟩ := exists_gap_of_stat hp h
  have hbefore := hp.left
  have hmissing : d.get? (before ++ [name]) = none := hgap.missing
  have hdir : d.stat before = .ok .directory :=
    (stat_of_pathFault? (pathFault?_left hfault)).trans hgap.directory
  intro hfile
  rw [List.append_cons] at hq
  -- A path to the gap is one of directories, and below the gap nothing stands.
  rcases List.prefix_or_prefix_of_prefix hq (List.prefix_append (before ++ [name]) after) with
    hq | ⟨rest, rfl⟩
  · rcases List.prefix_concat_iff.mp hq with rfl | hq
    · rw [hfile] at hmissing
      cases hmissing
    · rw [get?_above_of_stat hbefore hdir hq] at hfile
      cases hfile
  · by_cases hrest : rest = []
    · rw [hrest, List.append_nil, hmissing] at hfile
      cases hfile
    · rw [hd.get?_of_append hrest hfile] at hmissing
      cases hmissing

/-- A path at which nothing stands, and above which no file does, leads to something missing. -/
theorem Rooted.stat_of_none (hd : d.Rooted) (hp : p.Plain) (hfault : pathFault? p = none)
    (hfits : ∀ n ∈ p, fits n = true)
    (hclear : ∀ above content, above <+: p → above ≠ p → d.get? above ≠ some (.file content))
    (h : d.get? p = none) : d.stat p = .error .missing := by
  induction p using List.reverseRecOn with
  | nil => cases h
  | append_singleton dir name ih =>
    have hdir := hp.left
    have hdirFault := pathFault?_left hfault
    have hfitsDir : ∀ n ∈ dir, fits n = true := fun n hn => hfits n (List.mem_append_left _ hn)
    cases hget : d.get? dir with
    | none =>
      have hstat := ih hdir hdirFault hfitsDir
        (fun above content habove _ => hclear above content (habove.trans (dir.prefix_append _))
          fun heq => absurd habove.length_le (by simp [heq])) hget
      rw [stat_of_pathFault? hdirFault] at hstat
      rw [stat_of_pathFault? hfault]
      exact locate_append_of_error hstat [name]
    | some other =>
      cases other with
      | file content => exact absurd hget (hclear dir content (dir.prefix_append _) (by simp))
      | directory =>
        have hname := hp name (by simp)
        have hfollow : d.follow dir name = .error .missing := by
          rw [follow, hget]
          dsimp only
          rw [if_neg (by simp [hname.1, hname.2.1]), if_neg hname.2.2,
            if_neg (by simp [hfits name (by simp)]), if_neg (by simp [h]),
            hd.direct.absence_eq hclear]
        have hstat := hd.stat_of_get? hdir hdirFault hfitsDir hget
        rw [stat_of_pathFault? hfault, locate_append hdir (locate_of_stat hstat).2,
          List.nil_append, locate, hfollow]

/-! ### Making directories -/

/-- A path that is not made for a name that is too long has such a name. -/
theorem exists_not_fits_of_makeFrom (h : (d.makeFrom p names).2 = some .nameTooLong) :
    ∃ name ∈ names, fits name = false := by
  induction names generalizing d p with
  | nil => cases h
  | cons name names ih =>
    by_cases hfits : fits name = true
    · rw [makeFrom, if_neg (by simp [hfits])] at h
      suffices hrest : ∃ n ∈ names, fits n = false by
        obtain ⟨n, hn, hlong⟩ := hrest
        exact ⟨n, List.mem_cons_of_mem _ hn, hlong⟩
      split at h
      · exact ih h
      · split at h <;> cases h
      · split at h
        · unfold absence at h
          split at h <;> cases h
        · exact ih h
    · exact ⟨name, List.mem_cons_self, by simpa using hfits⟩

theorem ne_nameTooLong_of_fits (h : (d.makeFrom p names).2 = some fault)
    (hfits : ∀ n ∈ names, fits n = true) : fault ≠ .nameTooLong := by
  rintro rfl
  obtain ⟨name, hname, hlong⟩ := exists_not_fits_of_makeFrom h
  rw [hfits name hname] at hlong
  cases hlong

/-- If it is not refused and none of its names is too long, a path without links is made unless a
file is in the way. -/
theorem exists_file_of_fits (hd : d.Direct) (hfault : pathFault? p = none)
    (h : (d.makeDirectories p).2 = some fault) (hfits : ∀ n ∈ p, fits n = true) :
    ∃ before bytes, before <+: p ∧ d.get? before = some (.file bytes) := by
  rw [makeDirectories, hfault] at h
  obtain ⟨before, bytes, -, hbefore, hfile⟩ :=
    exists_file_of_makeFrom hd h (ne_nameTooLong_of_fits h hfits)
  exact ⟨before, bytes, hbefore, hfile⟩

/-- If none of its names is too long, a path that is not made is left as it was, however long it is
as a whole. -/
theorem Rooted.makeDirectories_eq_of_fits (hd : d.Rooted)
    (h : (d.makeDirectories p).2 = some fault) (hfits : ∀ n ∈ p, fits n = true) :
    (d.makeDirectories p).1 = d := by
  rcases makeDirectories_cases d p with ⟨fault, -, hmade⟩ | ⟨-, hmade⟩
  · rw [hmade]
  · rw [hmade] at h ⊢
    exact hd.makeFrom_eq h (ne_nameTooLong_of_fits h hfits)

/-- On a path that was made there are directories. -/
theorem get?_makeDirectories_above (hp : p.Plain) (h : (d.makeDirectories p).2 = none)
    (hq : q <+: p) : (d.makeDirectories p).1.get? q = some .directory :=
  get?_above_of_stat hp (stat_makeDirectories hp h) hq

/-- Off the path nothing changes when it is made. -/
theorem Direct.get?_makeDirectories_elsewhere (hd : d.Direct) (hq : ¬ q <+: p) :
    (d.makeDirectories p).1.get? q = d.get? q := by
  by_contra hne
  exact hq (hd.makeDirectories_changes hne).1

end UmlDraft.Disk
