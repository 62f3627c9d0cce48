import UmlDraft.Proofs.Run.Footprint

/-!
# A run and the text it reads

What a run gives follows from the text that it reads. The diagram and the sources are those of the
text as it stands in memory, whether or not the run says how to indent, and whoever follows the path
of a written file finds the bytes of its source there, unless the path of another file leads to the
same place.
-/

namespace UmlDraft.Run

/-- The layout that a configuration names. -/
def layout (c : Config) : Style where
  packageName := c.packageName
  indent := c.indent

/-- What a run gives is what the text that it read gives in memory. -/
structure Agrees (c : Config) (cwd : Path) (d : Disk) (text : String) (r : Report) : Prop where
  /-- The diagram is that of the text. -/
  model : r.outcome.model = some (Model.ofText text)
  /-- So are the sources, in their order. -/
  sources : r.outcome.sources = generate (layout c) text
  /-- There is one for each declared type. -/
  keys : r.outcome.sources.keys = (Model.ofText text).declarations.keys
  /-- Every file that is listed as written can be read and is a source, its own if no other file
  leads to the same place. -/
  written : ∀ a ∈ r.outcome.written, ∃ n source bytes,
    (generate (layout c) text).get? n = some source ∧
      d.place (artifactPath c cwd n) = d.place (artifactPath c cwd a.name) ∧
      a.path = (artifactPath c cwd a.name).toText ∧
      Disk.contents (r.disk.stat (artifactPath c cwd a.name)) = .ok bytes ∧
      Disk.text bytes = source
  /-- So it is where the files of a run have places of their own. -/
  own : (∀ n ∈ r.outcome.sources.keys, ∀ other ∈ r.outcome.sources.keys,
      d.place (artifactPath c cwd other) = d.place (artifactPath c cwd n) → other = n) →
    ∀ a ∈ r.outcome.written, ∃ source bytes,
      (generate (layout c) text).get? a.name = some source ∧
        Disk.contents (r.disk.stat (artifactPath c cwd a.name)) = .ok bytes ∧
        Disk.text bytes = source

variable {renderer : Renderer} {c : Config} {cwd : Path} {d : Disk} {file : DiagramFile}
  {fate : String → Option Fault} {n text : String}

/-- The sources of a run are the files that its text gives in memory. -/
theorem sources_eq_generate (c : Config) (file : DiagramFile) :
    sources .plain c file = generate (layout c) file.content := by
  rw [sources, sourcesOf_plain, render_style, generate, layout]

/-- The output directory is still there when the sources are written. -/
theorem Fated.stat_outputDir (hfate : Fated renderer c cwd d file fate) (hcwd : cwd.Plain)
    (hmade : (directoryMade c cwd d).2 = none) :
    (writing renderer c cwd d file).disk.stat (outputDir c cwd) = .ok .directory := by
  have hplain : (outputDir c cwd).Plain := hcwd.resolve c.outputDir
  have hstat : (directoryMade c cwd d).1.stat (outputDir c cwd) = .ok .directory :=
    Disk.stat_makeDirectories hplain hmade
  refine Disk.stat_of_agree hplain hstat fun before hbefore => ?_
  have hdir := Disk.get?_above_of_stat hplain hstat hbefore
  rw [hdir]
  exact hfate.get?_of_directory hdir

/-- Whatever stands in the file of a source without a fault is found at its path. -/
theorem Fated.stat_artifactPath (hfate : Fated renderer c cwd d file fate) (hcwd : cwd.Plain)
    (hmade : (directoryMade c cwd d).2 = none) (hn : n ∈ (sources renderer c file).keys)
    (hnone : fate n = none) {entry : Entry}
    (hentry : (writing renderer c cwd d file).disk.get? (artifactPath c cwd n) = some entry) :
    (writing renderer c cwd d file).disk.stat (artifactPath c cwd n) = .ok entry := by
  obtain ⟨-, hfault, hfits⟩ := hfate.free n hn hnone
  have hname := isFileName_of_mem_keys (mem_keys_of_mem_sources hn)
  refine Disk.stat_concat ?_ hfault (hfate.stat_outputDir hcwd hmade) hfits hentry
  exact List.forall_mem_append.mpr
    ⟨hcwd.resolve c.outputDir, List.forall_mem_singleton.mpr hname.isName⟩

/-- A file is listed as written if the output directory was made and its source has no fault. -/
theorem exists_fated_of_mem_written (renderer : Renderer) (h : (reading c cwd d).result = some file)
    {a : Artifact} (ha : a ∈ (run renderer c cwd d).outcome.written) :
    ∃ fate, Fated renderer c cwd d file fate ∧ (directoryMade c cwd d).2 = none ∧
      a.name ∈ (sources renderer c file).keys ∧ fate a.name = none ∧
      a.path = (artifactPath c cwd a.name).toText := by
  rw [written_run renderer h] at ha
  cases hdry : c.dryRun with
  | true =>
    rw [writing_of_dry renderer cwd d file hdry] at ha
    cases ha
  | false =>
    cases hmade : (directoryMade c cwd d).2 with
    | some fault =>
      rw [writing_of_fault renderer file hdry hmade] at ha
      cases ha
    | none =>
      obtain ⟨fate, hfate⟩ := exists_fated renderer file hdry hmade
      rw [hfate.result] at ha
      obtain ⟨n, hn, rfl⟩ := List.mem_map.mp ha
      obtain ⟨hkey, hfault⟩ := List.mem_filter.mp hn
      exact ⟨fate, hfate, rfl, hkey, of_decide_eq_true hfault, rfl⟩

/-- A run that reads a text gives what the text gives in memory, and its files hold that, each its
own source where no other file leads to the same place. -/
theorem agrees_run (hcwd : cwd.Plain) (h : (reading c cwd d).result = some file) :
    Agrees c cwd d file.content (run .plain c cwd d) := by
  have hsources := (sources_run .plain h).trans (sources_eq_generate c file)
  refine ⟨model_run .plain h, hsources, by rw [hsources, keys_generate], fun a ha => ?_,
    fun hown a ha => ?_⟩
  all_goals
    obtain ⟨fate, hfate, hmade, hkey, hnone, hpath⟩ := exists_fated_of_mem_written .plain h ha
    obtain ⟨n, text, htext, -, hsame, hheld⟩ := hfate.held a.name hkey hnone
    have hstat := hfate.stat_artifactPath hcwd hmade hkey hnone hheld
    rw [disk_run .plain h, hstat, ← sources_eq_generate]
  · exact ⟨n, text, Disk.bytes text, htext, hsame, hpath, rfl, Disk.text_bytes text⟩
  · rw [sources_run .plain h] at hown
    have hname := hown _ hkey n (Table.mem_keys_iff.mpr ⟨text, htext⟩) hsame
    exact ⟨text, Disk.bytes text, hname ▸ htext, rfl, Disk.text_bytes text⟩

/-- The source of a class without members. -/
def emptyClass (name : String) : String :=
  "public class " ++ name ++ " \x7b\n    public " ++ name ++ "() \x7b\n    \x7d\n\x7d\n"

/-- The diagram of one class is read, and the run gives that class, whose file holds its source. -/
theorem agrees_run_notes :
    (Path.Plain ["work"] ∧
        (reading notesConfig ["work"] notesDisk).result =
          some ⟨["work", "d.puml"], "class A \x7b\n\x7d\n", false⟩ ∧
        (Model.ofText "class A \x7b\n\x7d\n").declarations.keys = ["A"]) ∧
      Agrees notesConfig ["work"] notesDisk "class A \x7b\n\x7d\n"
        (run .plain notesConfig ["work"] notesDisk) ∧
      (run .plain notesConfig ["work"] notesDisk).outcome.written = [⟨"A", "/work/out/A.java"⟩] ∧
      ∃ bytes, Disk.contents ((run .plain notesConfig ["work"] notesDisk).disk.stat
          ["work", "out", "A.java"]) = .ok bytes ∧
        Disk.text bytes = emptyClass "A" := by
  have hcwd : Path.Plain ["work"] := by decide
  have hread : (reading notesConfig ["work"] notesDisk).result =
      some ⟨["work", "d.puml"], "class A \x7b\n\x7d\n", false⟩ := by
    rw [result_reading_notes, Disk.text_bytes]
  have hwritten : (run .plain notesConfig ["work"] notesDisk).outcome.written =
      [⟨"A", "/work/out/A.java"⟩] := by decide +kernel
  have hagrees := agrees_run hcwd hread
  refine ⟨⟨hcwd, hread, by decide +kernel⟩, hagrees, hwritten, ?_⟩
  have hdirect : notesDisk.Direct := rfl
  obtain ⟨source, bytes, hsource, hcontents, htext⟩ :=
    hagrees.own (fun _ _ _ _ => eq_of_place_artifactPath hdirect) ⟨"A", "/work/out/A.java"⟩
      (by rw [hwritten]; exact List.mem_singleton_self _)
  have hfile : (generate (layout notesConfig) "class A \x7b\n\x7d\n").get? "A" =
      some (emptyClass "A") := by decide +kernel
  exact ⟨bytes, hcontents, htext.trans (Option.some.inj (hsource.symm.trans hfile))⟩

/-- A diagram of two classes. -/
def twoClasses : String :=
  "class A \x7b\n\x7d\nclass B \x7b\n\x7d\n"

/-- A disk with that diagram, on which a link leads from one of the generated files to the other. -/
def sharedDisk : Disk :=
  { (workDisk.put ["work", "d.puml"] (.file (Disk.bytes twoClasses))).put ["work", "out"]
      .directory with
    links := .ofList [(["work", "out", "B.java"], ["work", "out", "A.java"])] }

/-- Both files are listed as written, but at the path of the first the source of the second is
found. -/
theorem source_lost_of_shared :
    (reading notesConfig ["work"] sharedDisk).result =
        some ⟨["work", "d.puml"], Disk.text (Disk.bytes twoClasses), false⟩ ∧
      ⟨"A", "/work/out/A.java"⟩ ∈ (run .plain notesConfig ["work"] sharedDisk).outcome.written ∧
      (generate (layout notesConfig) twoClasses).get? "A" = some (emptyClass "A") ∧
      ∃ bytes, Disk.contents ((run .plain notesConfig ["work"] sharedDisk).disk.stat
          ["work", "out", "A.java"]) = .ok bytes ∧
        Disk.text bytes = emptyClass "B" := by
  refine ⟨rfl, by decide +kernel, by decide +kernel,
    Disk.bytes (emptyClass "B"), by decide +kernel, Disk.text_bytes _⟩

end UmlDraft.Run
