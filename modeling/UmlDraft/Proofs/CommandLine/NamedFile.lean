import UmlDraft.Proofs.CommandLine.Options
import UmlDraft.Proofs.CommandLine.Showing
import UmlDraft.Proofs.Setup.Settings

/-!
# A configuration file that is named

The last word of a command line about configuration files decides: if it names one, the settings
are those that this file holds, whatever the environment says and whatever lies in the directories.
A file that holds no settings is refused, and nothing else is tried in its place. The empty text
names no file, though; there the settings are the standard ones.
-/

namespace UmlDraft

namespace Options

variable {settings : List Setting} {p : String}

/-- The last setting about configuration files names one. -/
def NamesFile (settings : List Setting) (path : String) : Prop :=
  ∃ before after, settings = before ++ ⟨.config, some path⟩ :: after ∧
    ∀ s ∈ after, s.flag ≠ .config ∧ s.flag ≠ .noConfig

/-- A setting that is not about configuration files leaves what was said of them. -/
theorem configPath_apply (o : Options) {s : Setting} (hconfig : s.flag ≠ .config)
    (hnoConfig : s.flag ≠ .noConfig) :
    (o.apply s).configPath = o.configPath ∧ (o.apply s).noConfig = o.noConfig := by
  unfold apply
  split
  all_goals first
    | exact ⟨rfl, rfl⟩
    | contradiction

/-- Whichever setting about configuration files comes last decides. -/
theorem NamesFile.configPath (h : NamesFile settings p) (c : Command) :
    (ofSettings c settings).configPath = some p ∧ (ofSettings c settings).noConfig = false := by
  obtain ⟨before, after, rfl, hafter⟩ := h
  rw [ofSettings, List.foldl_append, List.foldl_cons]
  generalize hnamed : (before.foldl apply (ofCommand c)).apply ⟨.config, some p⟩ = named
  have hstart : named.configPath = some p ∧ named.noConfig = false := by
    rw [← hnamed]
    exact ⟨rfl, rfl⟩
  -- Nothing that comes after the name changes what was said.
  refine List.foldlRecOn (motive := fun o => o.configPath = some p ∧ o.noConfig = false) after
    apply hstart fun o ho s hs => ?_
  obtain ⟨hpath, hno⟩ := configPath_apply o (hafter s hs).1 (hafter s hs).2
  exact ⟨hpath.trans ho.1, hno.trans ho.2⟩

end Options

namespace Settings

variable {w : World} {p : String} {s : Settings}

/-- A file holds settings: its text is a JSON object with values of the right types, and what the
object says is kept. -/
def StoredAt (w : World) (path : String) (s : Settings) : Prop :=
  ∃ bytes members, Disk.contents (w.disk.statText w.cwd path) = .ok bytes ∧
    Json.parse? (Disk.text bytes) = some (.object members) ∧
    WellTyped (.object members) ∧ Kept (.object members) s

/-- The settings that a text stands for which is given as the path of a configuration file. -/
inductive Named (w : World) (path : String) : Settings → Prop where
  /-- They are stored in the file. -/
  | stored {s : Settings} (hstored : StoredAt w path s) : Named w path s
  /-- The text is empty, so they are the standard ones. -/
  | standard (hempty : path = "") : Named w path {}

/-- No file has an empty path. -/
theorem not_storedAt_empty (w : World) (s : Settings) : ¬ StoredAt w "" s := by
  rintro ⟨bytes, members, hbytes, -⟩
  cases hbytes

theorem load_eq_ok_iff_storedAt (hpath : p ≠ "") : load w (some p) = .ok s ↔ StoredAt w p s := by
  rw [load, Option.filter_some, if_pos (decide_eq_true hpath)]
  dsimp only
  constructor
  · intro h
    split at h
    · cases h
    · next bytes hbytes =>
      rw [ofText] at h
      split at h
      · next v hv =>
        obtain ⟨htyped, hkept⟩ := ofJson_eq_ok_iff.mp h
        obtain ⟨members, rfl⟩ := htyped.object
        exact ⟨bytes, members, hbytes, hv, htyped, hkept⟩
      · cases h
  · rintro ⟨bytes, members, hbytes, hparse, htyped, hkept⟩
    simp only [hbytes, ofText, hparse]
    exact ofJson_eq_ok_iff.mpr ⟨htyped, hkept⟩

/-- Loading from a path gives the settings that the path stands for. -/
theorem load_eq_ok_iff_named : load w (some p) = .ok s ↔ Named w p s := by
  by_cases hpath : p = ""
  · rw [hpath]
    constructor
    · intro h
      cases h
      exact .standard rfl
    · rintro (hstored | -)
      · exact absurd hstored (not_storedAt_empty w s)
      · rfl
  · rw [load_eq_ok_iff_storedAt hpath]
    constructor
    · exact .stored
    · rintro (hstored | hempty)
      · exact hstored
      · exact absurd hempty hpath

end Settings

namespace Invocation

variable {w : World} {renderer : Renderer} {arguments : List String} {o : Options} {p : String}

/-- The package of a configuration is a chain of identifiers, if there is one. -/
def HasValidPackage (c : Config) : Prop :=
  ∀ name ∈ c.packageName, Config.isPackageName name = true

/-- What comes of a command line that names a configuration file. -/
inductive Configured (w : World) (renderer : Renderer) (o : Options) (path : String)
    (i : Invocation) : Prop where
  /-- Only a question about the program is answered. -/
  | answered (hasked : o.help = true ∨ o.version = true) (hcode : i.exit.code = 0)
    (hrun : i.run = none)
  /-- No settings that the path stands for give a configuration. -/
  | refused
    (hnone : ∀ s, Settings.Named w path s → ¬ HasValidPackage (Config.merge s o))
    (hcode : i.exit.code = 2) (hrun : i.run = none)
  /-- A run starts from settings that the path stands for. -/
  | ran {s : Settings} {c : Config} (hnamed : Settings.Named w path s)
    (hmerge : c = Config.merge s o) (hpackage : HasValidPackage c)
    (hrun : i.run = some (c, Run.run renderer c w.cwd w.disk))

/-- A configuration is built from the settings that options start from if its package is valid. -/
theorem build_eq_ok_iff {c : Config} :
    Config.build w o = .ok c ↔
      ∃ s, Config.base w o = .ok s ∧ c = Config.merge s o ∧ HasValidPackage c := by
  constructor
  · intro h
    obtain ⟨s, hbase, hmerge⟩ := Config.exists_base_of_build h
    exact ⟨s, hbase, hmerge, fun name hname => Config.isPackageName_of_build h hname⟩
  · rintro ⟨s, hbase, rfl, hpackage⟩
    rw [Config.build, hbase]
    dsimp only
    split
    · rfl
    · next name hname => rw [if_pos (hpackage name hname)]

/-- Options that name a configuration file start from what its path stands for. -/
theorem base_eq_ok_iff_named {s : Settings} (hpath : o.configPath = some p)
    (hconfig : o.noConfig = false) : Config.base w o = .ok s ↔ Settings.Named w p s := by
  have hbase : Config.base w o = Settings.load w (some p) := by
    rw [Config.base, hconfig, hpath]
    rfl
  rw [hbase, Settings.load_eq_ok_iff_named]

theorem configured_of_ofOptions (w : World) (renderer : Renderer) (hhelp : o.help = false)
    (hversion : o.version = false) (hpath : o.configPath = some p) (hconfig : o.noConfig = false) :
    Configured w renderer o p (ofOptions w renderer o) := by
  cases hbuild : Config.build w o with
  | error e =>
    rw [ofOptions_of_error hhelp hversion hbuild]
    refine .refused (fun s hs hpackage => ?_) rfl rfl
    have hok := build_eq_ok_iff.mpr
      ⟨s, (base_eq_ok_iff_named hpath hconfig).mpr hs, rfl, hpackage⟩
    rw [hbuild] at hok
    cases hok
  | ok c =>
    obtain ⟨s, hbase, hmerge, hpackage⟩ := build_eq_ok_iff.mp hbuild
    rw [ofOptions_of_build hhelp hversion hbuild]
    exact .ran ((base_eq_ok_iff_named hpath hconfig).mp hbase) hmerge hpackage rfl

/-- An invocation whose last word about configuration files names one starts from the settings that
this file holds, or it is refused. Only where the name is empty does it start from the standard
settings. -/
theorem configured_ofArguments (w : World) (renderer : Renderer)
    (harguments : Options.ofArguments arguments = .ok o)
    (hnames : Options.NamesFile (Options.settingsOf arguments) p) :
    Configured w renderer o p (ofArguments w renderer arguments) := by
  rw [ofArguments_of_ok harguments]
  by_cases hasked : o.help = true ∨ o.version = true
  · obtain ⟨hcode, hrun⟩ := code_ofOptions_of_asked w renderer hasked
    exact .answered hasked hcode hrun
  · obtain ⟨hhelp, hversion⟩ := not_or.mp hasked
    rw [Bool.not_eq_true] at hhelp hversion
    obtain ⟨input, rfl⟩ := Options.exists_settings_of_ofArguments harguments hhelp hversion
    obtain ⟨hpath, hconfig⟩ := hnames.configPath (Options.commandOf arguments)
    exact configured_of_ofOptions w renderer hhelp hversion hpath hconfig

/-- The words that name a file after such files were refused. -/
def namingWords : List String :=
  ["--no-config", "--config", "c.json"]

/-- The file that is named is the one that is used. -/
theorem configured_ofArguments_narrow :
    let w := Settings.fileWorld Settings.narrowText
    let o : Options := { configPath := some "c.json" }
    (Options.ofArguments namingWords = .ok o ∧
        Options.NamesFile (Options.settingsOf namingWords) "c.json") ∧
      ∃ c r, (ofArguments w .plain namingWords).run = some (c, r) ∧ c.indent = some "  " := by
  intro w o
  have hwords : Options.ofArguments namingWords = .ok o := by decide +kernel
  have hsettings : Options.settingsOf namingWords =
      [⟨.noConfig, none⟩, ⟨.config, some "c.json"⟩] := by decide +kernel
  have hnames : Options.NamesFile (Options.settingsOf namingWords) "c.json" :=
    ⟨[⟨.noConfig, none⟩], [], hsettings, by simp⟩
  have hload : Settings.load w (some "c.json") = .ok { indent := "  " } := by
    rw [Settings.load_of_contents (Settings.contents_fileWorld Settings.narrowText),
      Disk.text_bytes, Settings.ofText, Settings.parse?_narrowText]
    rfl
  refine ⟨⟨hwords, hnames⟩, ?_⟩
  cases configured_ofArguments w .plain hwords hnames with
  | answered hasked => exact absurd hasked (by decide)
  | refused hnone =>
    refine absurd (fun n hn => ?_) (hnone _ (Settings.load_eq_ok_iff_named.mp hload))
    cases hn
  | ran hnamed hmerge _ hrun =>
    have hloaded := Settings.load_eq_ok_iff_named.mpr hnamed
    rw [hload] at hloaded
    cases hloaded
    exact ⟨_, _, hrun, by rw [hmerge]; rfl⟩

/-- A file with an empty name is not refused, though it holds no settings: the run starts from the
standard ones. -/
theorem standard_of_emptyName :
    let w : World := { disk := Run.workDisk, cwd := ["work"] }
    let o : Options := { configPath := some "" }
    let i := ofArguments w .plain ["--config", ""]
    (Options.ofArguments ["--config", ""] = .ok o ∧
        Options.NamesFile (Options.settingsOf ["--config", ""]) "") ∧
      i.exit.code ≠ 2 ∧ (∀ s, ¬ Settings.StoredAt w "" s) ∧
        ∃ r, i.run = some (Config.merge {} o, r) := by
  intro w o i
  have hwords : Options.ofArguments ["--config", ""] = .ok o := by decide +kernel
  have hsettings : Options.settingsOf ["--config", ""] = [⟨.config, some ""⟩] := by decide +kernel
  have hbuild : Config.build w o = .ok (Config.merge {} o) := rfl
  have hi : i = ofRun o.mode o.command (Config.merge {} o)
      (Run.run .plain (Config.merge {} o) w.cwd w.disk) := by
    rw [← ofOptions_of_build rfl rfl hbuild]
    exact ofArguments_of_ok hwords
  refine ⟨⟨hwords, [], [], hsettings, nofun⟩, ?_, Settings.not_storedAt_empty w, ?_⟩
  · rw [hi]
    -- A run ends with 0 or with 1.
    by_cases herrors : (Run.run .plain (Config.merge {} o) w.cwd w.disk).outcome.errors = []
    · rw [code_ofRun_eq_zero_iff.mpr herrors]
      decide
    · rw [code_ofRun_eq_one_iff.mpr herrors]
      decide
  · rw [hi]
    exact ⟨_, rfl⟩

end Invocation

end UmlDraft
