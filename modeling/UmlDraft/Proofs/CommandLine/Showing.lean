import UmlDraft.Proofs.CommandLine.Options
import UmlDraft.Proofs.CommandLine.Verdict
import UmlDraft.Proofs.Report.Listing
import UmlDraft.Proofs.Report.Record
import UmlDraft.Proofs.Run.Accounts

/-!
# Showing a diagram

The command that shows a diagram changes nothing on the disk, whatever a configuration file says.
If the diagram is read, it is all that is printed, however little is to be reported: the one entry
that is printed tells everything of it but the bodies, and the exit code says so; if it cannot be
read, or if nothing runs, the exit code says that.
-/

namespace UmlDraft

/-- What is printed tells the diagram of a text. -/
inductive Report.Mode.Shows (mode : Report.Mode) (stats : Stats) (source entry : String) : Prop where
  /-- A line of JSON. What is read from it shows the counts and the diagram, and it shows no other
  diagram but those that differ in their bodies and in the order of their relations at most. -/
  | record {v : Json} (hmode : mode = .json) (hline : '\n' ∉ entry.toList)
    (hread : Json.parse? entry = some v)
    (hshows : Report.Shows Counter.all stats (Model.ofText source) v)
    (htells : ∀ (other : String) (stats' : Stats),
      Report.Shows Counter.all stats' (Model.ofText other) v →
        (Model.ofText source).Resembles (Model.ofText other))
  /-- The listing of the diagram. The diagrams that are listed so are those that differ in their
  bodies at most. -/
  | listing (hmode : mode ≠ .json) (hentry : entry = (Model.ofText source).listing)
    (htells : ∀ other : String, (Model.ofText other).listing = entry ↔
      (Model.ofText source).bodiless = (Model.ofText other).bodiless)

/-- A configuration that is built is merged from the settings it starts from and the options. -/
theorem Config.exists_base_of_build {w : World} {o : Options} {c : Config}
    (h : Config.build w o = .ok c) :
    ∃ settings, Config.base w o = .ok settings ∧ c = Config.merge settings o := by
  unfold Config.build at h
  split at h
  · cases h
  · next settings hbase =>
    refine ⟨settings, hbase, ?_⟩
    dsimp only at h
    split at h
    · cases h
      rfl
    · split at h
      · cases h
        rfl
      · cases h

/-- A configuration for showing a diagram asks for a dry run and not for the sample. -/
theorem Options.OnlyShows.config {o : Options} (ho : o.OnlyShows) {w : World} {c : Config}
    (h : Config.build w o = .ok c) : c.dryRun = true ∧ c.wantsSample = false := by
  obtain ⟨settings, -, rfl⟩ := Config.exists_base_of_build h
  refine ⟨ho.dryRun, ?_⟩
  rw [Config.wantsSample, Config.merge, ho.sample, Bool.false_and, Option.getD_some]

namespace Run

variable {c : Config} {cwd : Path} {d : Disk}

/-- A dry run without the sample leaves the disk as it was. -/
theorem disk_run_of_showing (renderer : Renderer) (hdry : c.dryRun = true)
    (hsample : c.wantsSample = false) (cwd : Path) (d : Disk) :
    (run renderer c cwd d).disk = d := by
  rw [disk_run_of_dry hdry]
  exact DiagramFile.read_disk_of_not fun h => absurd (hsample.symm.trans h.1) (by decide)

/-- A diagram that cannot be read is a problem. -/
theorem errors_run_ne_nil (renderer : Renderer) (h : (reading c cwd d).result = none) :
    (run renderer c cwd d).outcome.errors ≠ [] := by
  have hannounced := announced_reading c cwd d
  rw [h] at hannounced
  obtain ⟨e, he⟩ := hannounced.exists_reported
  rw [run_of_unread h]
  dsimp only
  rw [he]
  exact List.cons_ne_nil _ _

end Run

namespace Report

variable {source : String} {o : Outcome}

/-- The record of a diagram tells it. -/
theorem shows_of_record (hm : o.model = some (Model.ofText source)) :
    Mode.json.Shows o.stats source (record Counter.all .parse o).compress := by
  have hproper := proper_record (by decide : Counter.all.Nodup) hm
  refine .record rfl ?_ (Json.parse?_compress hproper) (shows_record hm) fun other _ h =>
    (shows_record hm).resembles h
  rw [Json.compress, String.toList_ofList]
  exact hproper.newline_not_mem_print

/-- The listing of a diagram tells it. -/
theorem shows_of_listing {mode : Mode} (hmode : mode ≠ .json) (stats : Stats) (source : String) :
    mode.Shows stats source (Model.ofText source).listing := by
  refine .listing hmode rfl fun other => ⟨fun h => ?_, fun h => ?_⟩
  · exact (Model.listable_ofText source).bodiless_eq (Model.listable_ofText other) h.symm
  · rw [← Model.listing_bodiless, ← h, Model.listing_bodiless]

/-- The command that shows a diagram prints the one that was read, and nothing else. -/
theorem exists_printed_of_model (mode : Mode) (c : Config)
    (hm : o.model = some (Model.ofText source)) :
    ∃ entry, printed Counter.all mode .parse c o = [entry] ∧ mode.Shows o.stats source entry := by
  have hlisting : (o.model.map Model.listing).toList = [(Model.ofText source).listing] := by
    rw [hm]
    rfl
  cases mode with
  | json => exact ⟨_, rfl, shows_of_record hm⟩
  | normal => exact ⟨_, hlisting, shows_of_listing (by decide) _ _⟩
  | verbose => exact ⟨_, hlisting, shows_of_listing (by decide) _ _⟩
  | quiet => exact ⟨_, hlisting, shows_of_listing (by decide) _ _⟩

end Report

namespace Invocation

/-- What comes of showing a diagram. -/
inductive Showing (w : World) (mode : Report.Mode) (i : Invocation) : Prop where
  /-- The diagram is read and shown. -/
  | shown {c : Config} {file : DiagramFile} {entry : String}
    (hrun : i.run = some (c, Run.run .plain c w.cwd w.disk))
    (hreading : (Run.reading c w.cwd w.disk).result = some file)
    (hprinted : i.printed = [entry])
    (hentry : mode.Shows (Run.run .plain c w.cwd w.disk).outcome.stats file.content entry)
    (hcode : i.exit.code = 0)
  /-- The diagram cannot be read. -/
  | unread {c : Config} (hrun : i.run = some (c, Run.run .plain c w.cwd w.disk))
    (hreading : (Run.reading c w.cwd w.disk).result = none) (hcode : i.exit.code ≠ 0)
  /-- Nothing runs. -/
  | unstarted (hrun : i.run = none) (hcode : i.exit.code ≠ 0)

variable {w : World} {arguments : List String} {o : Options}

/-- Showing a diagram leaves the disk as it was; the diagram is printed if it was read, and only
then does the exit code report success. -/
theorem showing_ofArguments (w : World) (harguments : Options.ofArguments arguments = .ok o)
    (hcommand : o.command = .parse) :
    (ofArguments w .plain arguments).disk w = w.disk ∧
      Showing w o.mode (ofArguments w .plain arguments) := by
  have hshows := Options.onlyShows_of_ofArguments harguments hcommand
  rw [ofArguments_of_ok harguments]
  cases hbuild : Config.build w o with
  | error e =>
    rw [ofOptions_of_error hshows.help hshows.version hbuild]
    exact ⟨rfl, .unstarted rfl (show (2 : Nat) ≠ 0 by decide)⟩
  | ok c =>
    obtain ⟨hdry, hsample⟩ := hshows.config hbuild
    rw [ofOptions_of_build hshows.help hshows.version hbuild]
    refine ⟨Run.disk_run_of_showing .plain hdry hsample w.cwd w.disk, ?_⟩
    cases hreading : (Run.reading c w.cwd w.disk).result with
    | none =>
      exact .unread rfl hreading (mt code_ofRun_eq_zero_iff.mp (Run.errors_run_ne_nil _ hreading))
    | some file =>
      obtain ⟨entry, hprinted, hentry⟩ :=
        Report.exists_printed_of_model o.mode c (Run.model_run .plain hreading)
      rw [← hshows.command] at hprinted
      exact .shown rfl hreading hprinted hentry
        (code_ofRun_eq_zero_iff.mpr (Run.errors_run_of_dry hreading hdry))

/-- A disk with a diagram, and with a configuration file that wants the sample and has an output
directory. -/
def sampleWanted : Disk :=
  let settings := "\x7b\"createSample\": true, \"outputDir\": \"out\"\x7d"
  (Run.workDisk.put ["work", "c.json"] (.file (Disk.bytes settings))).put ["work", "d.puml"]
    (.file (Disk.bytes "class A \x7b\x7d"))

/-- A diagram that is there is shown, and nothing is written though the configuration file wants
the sample. -/
theorem showing_ofArguments_sampleWanted :
    let o : Options :=
      { command := .parse, input := some "d.puml", configPath := some "c.json", sample := false,
        dryRun := true, quiet := true }
    let w : World := { disk := sampleWanted, cwd := ["work"] }
    let i := ofArguments w .plain ["parse", "-q", "--config", "c.json", "d.puml"]
    (Options.ofArguments ["parse", "-q", "--config", "c.json", "d.puml"] = .ok o ∧
        o.command = .parse) ∧
      i.disk w = w.disk ∧ i.exit.code = 0 ∧
      ∃ stats entry, i.printed = [entry] ∧ Report.Mode.quiet.Shows stats "class A \x7b\x7d" entry := by
  intro o w i
  have hwords : Options.ofArguments ["parse", "-q", "--config", "c.json", "d.puml"] = .ok o := by
    decide +kernel
  have hcontent : (i.run.bind fun r => (Run.reading r.1 w.cwd w.disk).result).map
      DiagramFile.content = some "class A \x7b\x7d" := by
    decide +kernel
  obtain ⟨hdisk, hshowing⟩ := showing_ofArguments w hwords rfl
  refine ⟨⟨hwords, rfl⟩, hdisk, ?_⟩
  cases hshowing with
  | shown hrun hreading hprinted hentry hcode =>
    rw [hrun, Option.bind_some, hreading, Option.map_some, Option.some.injEq] at hcontent
    exact ⟨hcode, _, _, hprinted, hcontent ▸ hentry⟩
  | unread hrun hreading =>
    rw [hrun, Option.bind_some, hreading] at hcontent
    cases hcontent
  | unstarted hrun =>
    rw [hrun] at hcontent
    cases hcontent

end Invocation

end UmlDraft
