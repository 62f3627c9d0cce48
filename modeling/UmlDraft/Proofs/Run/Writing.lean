import Mathlib.Logic.Function.Basic
import UmlDraft.Proofs.File.Growth
import UmlDraft.Run.Artifact

/-!
# Writing the sources

Every source is written or refused on its own. What became of the sources is said by the fault of
each name, and from it follow the files that are listed as written, the number of the others, the
announcements in the order of the sources, and the disk: each written file holds its source, or that
of another file to which the same links lead, and nothing else has changed since the directory was
made.
-/

namespace UmlDraft.WriteResult

open Event

/-- A name under which a file can stand in a directory. -/
structure IsFileName (name : String) : Prop where
  /-- It leads one step down. -/
  isName : Path.IsName name
  /-- It is a single step. -/
  slash : '/' ∉ name.toList

/-- The path of the file of a source. -/
def pathOf (dir : Path) (extension name : String) : Path :=
  dir ++ [name ++ extension]

/-- A written file in the list of those. -/
def artifactOf (dir : Path) (extension name : String) : Artifact :=
  ⟨name, (pathOf dir extension name).toText⟩

/-- What is announced of a source that was written, or could not be for a fault. -/
def announcement (dir : Path) (extension name : String) : Option Fault → Payload
  | none => done (name ++ extension) (pathOf dir extension name).toText
  | some fault =>
    failure (pathOf dir extension name).toText
      ⟨fault, "open", some (pathOf dir extension name).toText⟩

variable {t t' : Traced WriteResult} {dir : Path} {extension : String} {s : String × String}
  {sources : List (String × String)}

theorem namesDirectory_of_isFileName {name : String} (h : IsFileName name) :
    namesDirectory name = false := by
  rw [namesDirectory, beq_eq_false_iff_ne]
  exact fun hlast => h.slash (List.mem_of_getLast? hlast)

/-- Different names have different paths. -/
theorem pathOf_inj {name other : String}
    (h : pathOf dir extension name = pathOf dir extension other) : name = other := by
  have hlast := List.append_cancel_left h
  simpa [String.ext_iff] using hlast

/-- A source is written where its file can be written. -/
theorem add_eq (h : IsFileName (s.1 ++ extension)) (t : Traced WriteResult) :
    add extension t s =
      match t.disk.write (pathOf t.result.outputDir extension s.1) (Disk.bytes s.2) with
      | .ok d =>
        ⟨{ t.result with
            written := t.result.written ++ [artifactOf t.result.outputDir extension s.1] },
          d, t.events ++ [announcement t.result.outputDir extension s.1 none]⟩
      | .error fault =>
        ⟨{ t.result with failed := t.result.failed + 1 }, t.disk,
          t.events ++ [announcement t.result.outputDir extension s.1 (some fault)]⟩ := by
  have hpath : t.result.outputDir.join (s.1 ++ extension) =
      pathOf t.result.outputDir extension s.1 := Path.join_of_isName h.isName h.slash _
  have hfile := namesDirectory_of_isFileName h
  simp only [add, hpath, writeFile, hfile, Bool.false_and, Bool.false_eq_true, if_false,
    String.append_empty]
  rfl

/-- What writing some sources does, told by the fault of each name. -/
structure Fates (extension : String) (sources : List (String × String)) (t t' : Traced WriteResult)
    (fate : String → Option Fault) : Prop where
  /-- The directory stays the same. -/
  outputDir : t'.result.outputDir = t.result.outputDir
  /-- The sources without a fault are listed as written. -/
  written : t'.result.written = t.result.written ++
    ((sources.map Prod.fst).filter fun n => fate n = none).map
      (artifactOf t.result.outputDir extension)
  /-- The others are counted. -/
  failed : t'.result.failed = t.result.failed +
    ((sources.map Prod.fst).filter fun n => fate n ≠ none).length
  /-- Each source is announced. -/
  events : t'.events = t.events ++
    (sources.map Prod.fst).map fun n => announcement t.result.outputDir extension n (fate n)
  /-- Links stay where they are. -/
  links : t'.disk.links = t.disk.links
  /-- A source without a fault has a path at which no directory was. -/
  free : ∀ s ∈ sources, fate s.1 = none →
    t.disk.get? (pathOf t.result.outputDir extension s.1) ≠ some .directory ∧
      Disk.pathFault? (pathOf t.result.outputDir extension s.1) = none ∧
      Disk.fits (s.1 ++ extension) = true
  /-- In its file stands the source itself or one whose file leads to the same place. -/
  held : ∀ s ∈ sources, fate s.1 = none → ∃ r ∈ sources, fate r.1 = none ∧
    t.disk.place (pathOf t.result.outputDir extension r.1) =
      t.disk.place (pathOf t.result.outputDir extension s.1) ∧
    t'.disk.get? (pathOf t.result.outputDir extension s.1) = some (.file (Disk.bytes r.2))
  /-- All else is as it was. -/
  kept : ∀ q, (∀ n ∈ sources.map Prod.fst, fate n = none →
      t.disk.place q ≠ t.disk.place (pathOf t.result.outputDir extension n)) →
    t'.disk.get? q = t.disk.get? q

/-- Where a directory was there is still one. -/
theorem Fates.get?_of_directory {fate : String → Option Fault} {q : Path}
    (h : Fates extension sources t t' fate) (hq : t.disk.get? q = some .directory) :
    t'.disk.get? q = some .directory := by
  rw [h.kept q, hq]
  intro n hn hnone heq
  obtain ⟨s, hs, rfl⟩ := List.mem_map.mp hn
  rw [Disk.get?_of_place_eq heq] at hq
  exact (h.free s hs hnone).1 hq

/-- A single source is written or refused. -/
theorem exists_fate_add (h : IsFileName (s.1 ++ extension)) (t : Traced WriteResult) :
    ∃ fault, Fates extension [s] t (add extension t s) fun _ => fault := by
  rw [add_eq h]
  split
  · next d hwrite =>
    obtain ⟨parent, name, hpath, hfault, -, hfits, hplace, -⟩ :=
      Disk.refusal?_eq_none (Disk.refusal?_of_write hwrite)
    have hname : s.1 ++ extension = name := by
      rw [pathOf] at hpath
      simpa using congrArg List.getLast? hpath
    refine ⟨none, rfl, by simp, by simp, by simp, ?_, ?_, ?_, ?_⟩
    · rw [Disk.eq_put_of_write hwrite]
      rfl
    · intro r hr _
      rw [List.mem_singleton.mp hr]
      exact ⟨hplace, hfault, hname ▸ hfits⟩
    · intro r hr _
      rw [List.mem_singleton.mp hr]
      refine ⟨s, List.mem_singleton_self s, rfl, rfl, ?_⟩
      rw [Disk.get?_write hwrite, if_pos rfl]
    · intro q hq
      rw [Disk.get?_write hwrite, if_neg (hq s.1 (by simp) rfl)]
  · next fault hwrite =>
    exact ⟨some fault, rfl, by simp, by simp, by simp, rfl, nofun, nofun, fun _ _ => rfl⟩

section Cons

variable {t₁ : Traced WriteResult} {fault : Option Fault} {fate : String → Option Fault}

/-- Sources with another name than the first one keep their fates. -/
theorem update_of_mem (hs : s.1 ∉ sources.map Prod.fst) {n : String}
    (hn : n ∈ sources.map Prod.fst) : Function.update fate s.1 fault n = fate n :=
  Function.update_of_ne (ne_of_mem_of_not_mem hn hs) _ _

theorem map_update_cons {α : Type} (f : String → Option Fault → α)
    (hs : s.1 ∉ sources.map Prod.fst) :
    ((s :: sources).map Prod.fst).map (fun n => f n (Function.update fate s.1 fault n)) =
      ([s].map Prod.fst).map (fun n => f n fault) ++
        (sources.map Prod.fst).map fun n => f n (fate n) := by
  have hrest : (sources.map Prod.fst).map (fun n => f n (Function.update fate s.1 fault n)) =
      (sources.map Prod.fst).map fun n => f n (fate n) :=
    List.map_congr_left fun n hn => congrArg (f n) (update_of_mem hs hn)
  rw [List.map_cons, List.map_cons, hrest, Function.update_self]
  rfl

theorem filter_update_cons (p : Option Fault → Bool) (hs : s.1 ∉ sources.map Prod.fst) :
    ((s :: sources).map Prod.fst).filter (fun n => p (Function.update fate s.1 fault n)) =
      ([s].map Prod.fst).filter (fun _ => p fault) ++
        (sources.map Prod.fst).filter fun n => p (fate n) := by
  have hrest : (sources.map Prod.fst).filter (fun n => p (Function.update fate s.1 fault n)) =
      (sources.map Prod.fst).filter fun n => p (fate n) :=
    List.filter_congr fun n hn => congrArg p (update_of_mem hs hn)
  rw [List.map_cons, List.filter_cons, hrest, Function.update_self, List.map_singleton]
  cases p fault <;> simp

/-- What stands in the file of one of the sources behind the first one stands there because of one
of all sources. -/
theorem Fates.held_cons (h : Fates extension [s] t t₁ fun _ => fault)
    (hrest : Fates extension sources t₁ t' fate) (hs : s.1 ∉ sources.map Prod.fst)
    {r : String × String} (hr : r ∈ sources) (hnone : fate r.1 = none) :
    ∃ r' ∈ s :: sources, Function.update fate s.1 fault r'.1 = none ∧
      t.disk.place (pathOf t.result.outputDir extension r'.1) =
        t.disk.place (pathOf t.result.outputDir extension r.1) ∧
      t'.disk.get? (pathOf t.result.outputDir extension r.1) = some (.file (Disk.bytes r'.2)) := by
  obtain ⟨r', hr', hnone', hsame, hheld⟩ := hrest.held r hr hnone
  rw [h.outputDir, Disk.place_of_links h.links] at hsame
  rw [h.outputDir] at hheld
  exact ⟨r', List.mem_cons_of_mem s hr',
    (update_of_mem hs (List.mem_map_of_mem hr')).trans hnone', hsame, hheld⟩

/-- In the file of the first source stands the last one of those whose files lead to its place. -/
theorem Fates.held_first (h : Fates extension [s] t t₁ fun _ => fault)
    (hrest : Fates extension sources t₁ t' fate) (hs : s.1 ∉ sources.map Prod.fst)
    (hnone : fault = none) :
    ∃ r ∈ s :: sources, Function.update fate s.1 fault r.1 = none ∧
      t.disk.place (pathOf t.result.outputDir extension r.1) =
        t.disk.place (pathOf t.result.outputDir extension s.1) ∧
      t'.disk.get? (pathOf t.result.outputDir extension s.1) = some (.file (Disk.bytes r.2)) := by
  have hplace := Disk.place_of_links h.links
  by_cases hshared : ∃ r ∈ sources, fate r.1 = none ∧
      t.disk.place (pathOf t.result.outputDir extension r.1) =
        t.disk.place (pathOf t.result.outputDir extension s.1)
  · obtain ⟨r, hr, hnone', hsame⟩ := hshared
    obtain ⟨last, hlast, hnoneLast, hsameLast, hheld⟩ := h.held_cons hrest hs hr hnone'
    refine ⟨last, hlast, hnoneLast, hsameLast.trans hsame, ?_⟩
    rw [← hheld]
    exact Disk.get?_of_place_eq (by rw [Disk.place_of_links hrest.links, hplace, hsame])
  · -- No other file leads to the place of the first one, so it is not touched any more.
    obtain ⟨first, hfirst, -, -, hheld⟩ := h.held s (List.mem_singleton_self s) hnone
    rw [List.mem_singleton.mp hfirst] at hheld
    refine ⟨s, List.mem_cons_self, by rwa [Function.update_self], rfl, ?_⟩
    rw [hrest.kept _ fun n hn hnone' heq => ?_, hheld]
    obtain ⟨r, hr, rfl⟩ := List.mem_map.mp hn
    rw [hplace, h.outputDir] at heq
    exact hshared ⟨r, hr, hnone', heq.symm⟩

/-- The fate of a first source and those of others make up their fates together. -/
theorem Fates.cons (h : Fates extension [s] t t₁ fun _ => fault)
    (hrest : Fates extension sources t₁ t' fate) (hs : s.1 ∉ sources.map Prod.fst) :
    Fates extension (s :: sources) t t' (Function.update fate s.1 fault) := by
  have hdir := h.outputDir
  have hother : ∀ r ∈ sources, Function.update fate s.1 fault r.1 = fate r.1 := fun r hr =>
    update_of_mem hs (List.mem_map_of_mem hr)
  refine ⟨hrest.outputDir.trans hdir, ?_, ?_, ?_, hrest.links.trans h.links, ?_, ?_, ?_⟩
  · rw [hrest.written, h.written, hdir, filter_update_cons (fun f => f = none) hs, List.map_append,
      List.append_assoc]
  · rw [hrest.failed, h.failed, filter_update_cons (fun f => f ≠ none) hs, List.length_append,
      Nat.add_assoc]
  · rw [hrest.events, h.events, hdir, List.append_assoc,
      map_update_cons (announcement t.result.outputDir extension) hs]
  · intro r hr hnone
    rcases List.mem_cons.mp hr with rfl | hr
    · rw [Function.update_self] at hnone
      exact h.free r (List.mem_singleton_self r) hnone
    · rw [hother r hr] at hnone
      have hfree := hrest.free r hr hnone
      rw [hdir] at hfree
      exact ⟨fun hdirectory => hfree.1 (h.get?_of_directory hdirectory), hfree.2⟩
  · intro r hr hnone
    rcases List.mem_cons.mp hr with rfl | hr
    · rw [Function.update_self] at hnone
      exact h.held_first hrest hs hnone
    · rw [hother r hr] at hnone
      exact h.held_cons hrest hs hr hnone
  · intro q hq
    rw [hrest.kept q, h.kept q]
    · intro n hn hnone
      obtain rfl : n = s.1 := List.mem_singleton.mp hn
      exact hq s.1 List.mem_cons_self (by rwa [Function.update_self])
    · intro n hn hnone
      rw [hdir, Disk.place_of_links h.links]
      exact hq n (List.mem_cons_of_mem _ hn) ((update_of_mem hs hn).trans hnone)

end Cons

/-- Each of some sources with different names has its fate. -/
theorem exists_fates (hnames : ∀ s ∈ sources, IsFileName (s.1 ++ extension))
    (hnodup : (sources.map Prod.fst).Nodup) (t : Traced WriteResult) :
    ∃ fate, Fates extension sources t (sources.foldl (add extension) t) fate := by
  induction sources generalizing t with
  | nil =>
    exact ⟨fun _ => none, rfl, by simp, by simp, by simp, rfl, nofun, nofun, fun _ _ => rfl⟩
  | cons s sources ih =>
    rw [List.forall_mem_cons] at hnames
    rw [List.map_cons, List.nodup_cons] at hnodup
    obtain ⟨fault, hfault⟩ := exists_fate_add hnames.1 t
    obtain ⟨fate, hfate⟩ := ih hnames.2 hnodup.2 (add extension t s)
    exact ⟨_, hfault.cons hfate hnodup.1⟩

section Write

variable {d : Disk} {cwd : Path} {outputDir : String} {table : Table String String}

/-- Where the directory cannot be made, no source is written. -/
theorem write_of_fault {fault : Fault}
    (h : (d.makeDirectories (Path.resolve cwd outputDir)).2 = some fault) :
    write d cwd outputDir table extension =
      ⟨{ outputDir := Path.resolve cwd outputDir, failed := table.size },
        (d.makeDirectories (Path.resolve cwd outputDir)).1,
        [failure (Path.resolve cwd outputDir).toText
          ⟨fault, "mkdir", some (Path.resolve cwd outputDir).toText⟩]⟩ := by
  unfold write
  dsimp only
  split
  · next made =>
    rw [made] at h ⊢
    cases h
    rfl
  · next made =>
    rw [made] at h
    cases h

/-- Where the directory can be made, each source has its fate. -/
theorem exists_fates_write (h : (d.makeDirectories (Path.resolve cwd outputDir)).2 = none)
    (hnames : ∀ n ∈ table.keys, IsFileName (n ++ extension)) :
    ∃ fate, Fates extension table.entries
      ⟨{ outputDir := Path.resolve cwd outputDir },
        (d.makeDirectories (Path.resolve cwd outputDir)).1, []⟩
      (write d cwd outputDir table extension) fate := by
  unfold write
  dsimp only
  split
  · next made =>
    rw [made] at h
    cases h
  · next made =>
    rw [made]
    exact exists_fates (fun s hs => hnames s.1 (List.mem_map_of_mem hs)) table.nodup _

end Write

end UmlDraft.WriteResult
