import UmlDraft.Proofs.CommandLine.Consistent
import UmlDraft.Proofs.Run.Transform
import UmlDraft.Proofs.Skeleton.PackageLine

/-!
# The package of a run

A package is named on the command line or else in the configuration file, and the command line goes
first even if the text that it gives is empty. Main statement: a run takes place under a chain of
identifiers or without a package, and all its files begin accordingly; with any other text nothing
is read or written.
-/

namespace UmlDraft

namespace Options

variable {arguments : List String} {o : Options} {settings : List Setting} {name : String}
  {package : Option String}

/-- The last setting about the package gives its name. -/
def NamesPackage (settings : List Setting) (name : String) : Prop :=
  ∃ before after, settings = before ++ ⟨.package, some name⟩ :: after ∧
    ∀ s ∈ after, s.flag ≠ .package

/-- What settings decide about the package. -/
inductive PackageChoice (settings : List Setting) : Option String → Prop where
  /-- The last setting about it gives its name. -/
  | named {name : String} (hnames : NamesPackage settings name) : PackageChoice settings (some name)
  /-- No setting is about it. -/
  | unsaid (hnone : ∀ s ∈ settings, s.flag ≠ .package) : PackageChoice settings none

/-- A setting about something else leaves what was said of the package. -/
theorem packageName_apply (o : Options) {s : Setting} (hs : s.flag ≠ .package) :
    (o.apply s).packageName = o.packageName := by
  unfold apply
  split
  all_goals first
    | rfl
    | contradiction

theorem packageName_foldl (o : Options) (h : ∀ s ∈ settings, s.flag ≠ .package) :
    (settings.foldl apply o).packageName = o.packageName :=
  List.foldlRecOn (motive := fun p => p.packageName = o.packageName) settings apply rfl
    fun p hp s hs => (packageName_apply p (h s hs)).trans hp

/-- Options have the package that their settings decide on. -/
theorem PackageChoice.packageName (h : PackageChoice settings package) (c : Command) :
    (ofSettings c settings).packageName = package := by
  cases h with
  | named hnames =>
    obtain ⟨before, after, rfl, hafter⟩ := hnames
    rw [ofSettings, List.foldl_append, List.foldl_cons, packageName_foldl _ hafter]
    rfl
  | unsaid hnone => exact packageName_foldl _ hnone

/-- Settings of flags with their values decide about the package. -/
theorem exists_packageChoice (hvalues : ∀ s ∈ settings, s.value.isSome = s.flag.takesValue) :
    ∃ package, PackageChoice settings package := by
  induction settings using List.reverseRecOn with
  | nil => exact ⟨none, .unsaid nofun⟩
  | append_singleton settings s ih =>
    obtain ⟨hbefore, hvalue⟩ := List.forall_mem_append.mp hvalues
    rw [List.forall_mem_singleton] at hvalue
    obtain ⟨f, value⟩ := s
    by_cases hf : f = .package
    · subst hf
      obtain ⟨name, rfl⟩ := Option.isSome_iff_exists.mp hvalue
      exact ⟨some name, .named ⟨settings, [], rfl, nofun⟩⟩
    · -- The last setting is about something else, so what was decided before it holds.
      obtain ⟨package, hpackage⟩ := ih hbefore
      refine ⟨package, ?_⟩
      cases hpackage with
      | named hnames =>
        obtain ⟨before, after, rfl, hafter⟩ := hnames
        exact .named ⟨before, after ++ [⟨f, value⟩], List.append_assoc _ _ _,
          List.forall_mem_append.mpr ⟨hafter, List.forall_mem_singleton.mpr hf⟩⟩
      | unsaid hnone =>
        exact .unsaid (List.forall_mem_append.mpr ⟨hnone, List.forall_mem_singleton.mpr hf⟩)

/-- The package of a command line that asks for a run is the one that its settings decide on. -/
theorem packageName_eq_iff (h : ofArguments arguments = .ok o) (hhelp : o.help = false)
    (hversion : o.version = false) :
    o.packageName = package ↔ PackageChoice (settingsOf arguments) package := by
  have hvalues := (makes_of_ofArguments h hhelp hversion).isSome_value
  obtain ⟨input, rfl⟩ := exists_settings_of_ofArguments h hhelp hversion
  constructor
  · rintro rfl
    obtain ⟨package, hpackage⟩ := exists_packageChoice hvalues
    exact (hpackage.packageName (commandOf arguments)).symm ▸ hpackage
  · exact fun hpackage => hpackage.packageName (commandOf arguments)

end Options

namespace Settings

variable {w : World} {o : Options} {s : Settings}

/-- The settings that options start from. -/
inductive Origin (w : World) (o : Options) : Settings → Prop where
  /-- They are those of the configuration file that is named or found. -/
  | file {path : String} {s : Settings} (hallowed : o.noConfig = false)
    (hpath : (o.configPath <|> Discovery.find? w w.cwd) = some path) (hnamed : Named w path s) :
    Origin w o s
  /-- No configuration file is named or found, so they are the standard ones. -/
  | missing (hallowed : o.noConfig = false)
    (hpath : (o.configPath <|> Discovery.find? w w.cwd) = none) : Origin w o {}
  /-- Configuration files are refused, so they are the standard ones. -/
  | refused (hrefused : o.noConfig = true) : Origin w o {}

theorem base_eq_ok_iff_origin : Config.base w o = .ok s ↔ Origin w o s := by
  unfold Config.base
  cases hno : o.noConfig with
  | true =>
    rw [if_pos rfl]
    constructor
    · rintro ⟨⟩
      exact .refused hno
    · rintro (⟨hallowed, -, -⟩ | ⟨hallowed, -⟩ | -)
      · cases hno.symm.trans hallowed
      · cases hno.symm.trans hallowed
      · rfl
  | false =>
    rw [if_neg Bool.false_ne_true]
    cases hpath : o.configPath <|> Discovery.find? w w.cwd with
    | none =>
      constructor
      · rintro ⟨⟩
        exact .missing hno hpath
      · rintro (⟨-, hsome, -⟩ | - | hrefused)
        · cases hpath.symm.trans hsome
        · rfl
        · cases hno.symm.trans hrefused
    | some path =>
      rw [load_eq_ok_iff_named]
      constructor
      · exact .file hno hpath
      · rintro (⟨-, hsome, hnamed⟩ | ⟨-, hnone⟩ | hrefused)
        · cases hpath.symm.trans hsome
          exact hnamed
        · cases hpath.symm.trans hnone
        · cases hno.symm.trans hrefused

end Settings

namespace Run

variable {c : Config} {cwd : Path} {d : Disk} {file : DiagramFile} {n text : String}

/-- Every source of a run belongs to a declared type and begins with the lines of its package. -/
theorem headed_of_get?_sources (hc : ∀ p ∈ c.packageName, Config.isPackageName p = true)
    (h : (sources .plain c file).get? n = some text) :
    ∃ declaration, (Model.ofText file.content).declarations.get? n = some declaration ∧
      Headed (declaration.headerLine (Model.ofText file.content)).toList c.packageName
        (text.toList.splitOn '\n') := by
  rw [sources_eq_generate] at h
  have hkey : n ∈ (Model.ofText file.content).declarations.keys := by
    rw [← keys_generate (layout c)]
    exact Table.mem_keys_iff.mpr ⟨text, h⟩
  obtain ⟨declaration, hdeclaration⟩ := Table.mem_keys_iff.mp hkey
  obtain rfl := Option.some.inj ((get?_generate hdeclaration).symm.trans h)
  have hlayout : ∀ p ∈ (layout c).packageName, Config.isPackageName p = true := hc
  exact ⟨declaration, hdeclaration, Declaration.headed_render_of_get? hlayout hdeclaration⟩

/-- Every file that is listed as written holds a source, its own unless the file of another type
leads to the same place. -/
theorem held_of_mem_written {a : Artifact} (h : (reading c cwd d).result = some file)
    (ha : a ∈ (run .plain c cwd d).outcome.written) :
    ∃ n text, (sources .plain c file).get? n = some text ∧
      d.place (artifactPath c cwd n) = d.place (artifactPath c cwd a.name) ∧
      (run .plain c cwd d).disk.get? (artifactPath c cwd a.name) =
        some (.file (Disk.bytes text)) := by
  obtain ⟨fate, hfate, -, hkey, hnone, -⟩ := exists_fated_of_mem_written .plain h ha
  obtain ⟨other, text, htext, -, hsame, hheld⟩ := hfate.held a.name hkey hnone
  rw [disk_run .plain h]
  exact ⟨other, text, htext, hsame, hheld⟩

end Run

namespace Invocation

variable {w : World} {arguments : List String} {o : Options} {s : Settings}
  {package : Option String}

/-- The package that a command line wants for its run. -/
inductive WantsPackage (w : World) (arguments : List String) : Option String → Prop where
  /-- The command line names it, whatever the configuration file says. -/
  | named {o : Options} {s : Settings} {name : String}
    (hwords : Options.ofArguments arguments = .ok o) (hhelp : o.help = false)
    (hversion : o.version = false) (horigin : Settings.Origin w o s)
    (hnames : Options.NamesPackage (Options.settingsOf arguments) name) :
    WantsPackage w arguments (some name)
  /-- The command line is silent, so it is the one that the configuration file names, if any. -/
  | stored {o : Options} {s : Settings} (hwords : Options.ofArguments arguments = .ok o)
    (hhelp : o.help = false) (hversion : o.version = false) (horigin : Settings.Origin w o s)
    (hsilent : ∀ t ∈ Options.settingsOf arguments, t.flag ≠ .package) :
    WantsPackage w arguments s.packageName

/-- A run under its package. -/
structure Packaged (w : World) (arguments : List String) (c : Config) (r : Run.Report) : Prop where
  /-- The words of the command line make its settings. -/
  words : ∃ command : Command,
    Words.Makes command.flags arguments (Options.settingsOf arguments)
  /-- The package is the one that is wanted. -/
  wanted : WantsPackage w arguments c.packageName
  /-- It is a chain of identifiers, if there is one. -/
  valid : ∀ name ∈ c.packageName, PackageName name.toList
  /-- Every source is that of a declared type and begins accordingly. -/
  sources : ∀ n text, r.outcome.sources.get? n = some text →
    ∃ m d, r.outcome.model = some m ∧ m.declarations.get? n = some d ∧
      Headed (d.headerLine m).toList c.packageName (text.toList.splitOn '\n')
  /-- Every file that is listed as written holds a source, its own unless a link leads from it to
  the file of another type. -/
  written : ∀ a ∈ r.outcome.written, ∃ n text, r.outcome.sources.get? n = some text ∧
    w.disk.place (Run.artifactPath c w.cwd n) = w.disk.place (Run.artifactPath c w.cwd a.name) ∧
    (w.disk.Direct → n = a.name) ∧
    r.disk.get? (Run.artifactPath c w.cwd a.name) = some (.file (Disk.bytes text))

/-- An invocation that is refused for the name of its package. -/
structure PackageRefused (w : World) (name : String) (i : Invocation) : Prop where
  /-- The exit code is that of a refusal. -/
  code : i.exit.code = 2
  /-- Nothing runs. -/
  run : i.run = none
  /-- The disk is as it was. -/
  disk : i.disk w = w.disk
  /-- Nothing is printed. -/
  printed : i.printed = []
  /-- The name is complained of. -/
  logs : i.logs =
    [⟨.error, "Config error: " ++ (SetupError.invalidPackage name).message, none⟩]

/-- The package of the settings under the options is the one that is wanted. -/
theorem wantsPackage_merge (hwords : Options.ofArguments arguments = .ok o)
    (hhelp : o.help = false) (hversion : o.version = false) (horigin : Settings.Origin w o s) :
    WantsPackage w arguments (Config.merge s o).packageName := by
  rw [Config.merge]
  dsimp only
  cases hpackage : o.packageName with
  | none =>
    cases (Options.packageName_eq_iff hwords hhelp hversion).mp hpackage with
    | unsaid hnone => exact .stored hwords hhelp hversion horigin hnone
  | some name =>
    cases (Options.packageName_eq_iff hwords hhelp hversion).mp hpackage with
    | named hnames => exact .named hwords hhelp hversion horigin hnames

/-- The package that is wanted is that of settings under the options. -/
theorem WantsPackage.exists_merge (h : WantsPackage w arguments package) :
    ∃ o s, Options.ofArguments arguments = .ok o ∧ o.help = false ∧ o.version = false ∧
      Config.base w o = .ok s ∧ (Config.merge s o).packageName = package := by
  cases h with
  | @named o s _ hwords hhelp hversion horigin hnames =>
    have hpackage := (Options.packageName_eq_iff hwords hhelp hversion).mpr (.named hnames)
    refine ⟨o, s, hwords, hhelp, hversion, Settings.base_eq_ok_iff_origin.mpr horigin, ?_⟩
    rw [Config.merge, hpackage]
    rfl
  | @stored o s hwords hhelp hversion horigin hsilent =>
    have hpackage := (Options.packageName_eq_iff hwords hhelp hversion).mpr (.unsaid hsilent)
    refine ⟨o, s, hwords, hhelp, hversion, Settings.base_eq_ok_iff_origin.mpr horigin, ?_⟩
    rw [Config.merge, hpackage]
    rfl

/-- What a run gives under a package that is valid. -/
theorem packaged_run {c : Config} (hwords : Options.ofArguments arguments = .ok o)
    (hhelp : o.help = false) (hversion : o.version = false) (hbuild : Config.build w o = .ok c) :
    Packaged w arguments c (Run.run .plain c w.cwd w.disk) := by
  obtain ⟨s, hbase, rfl, hvalid⟩ := build_eq_ok_iff.mp hbuild
  refine ⟨⟨_, Options.makes_of_ofArguments hwords hhelp hversion⟩,
    wantsPackage_merge hwords hhelp hversion (Settings.base_eq_ok_iff_origin.mp hbase),
    fun name hname => PackageName.isPackageName_iff.mp (hvalid name hname), ?_, ?_⟩
  all_goals
    cases hread : (Run.reading (Config.merge s o) w.cwd w.disk).result
  · rw [Run.run_of_unread hread]
    exact nofun
  · intro n text htext
    rw [Run.sources_run .plain hread] at htext
    obtain ⟨d, hd, hheaded⟩ := Run.headed_of_get?_sources hvalid htext
    exact ⟨_, d, Run.model_run .plain hread, hd, hheaded⟩
  · rw [Run.run_of_unread hread]
    exact nofun
  · intro a ha
    obtain ⟨n, text, htext, hsame, hheld⟩ := Run.held_of_mem_written hread ha
    rw [Run.sources_run .plain hread]
    exact ⟨n, text, htext, hsame, fun hdirect => Run.eq_of_place_artifactPath hdirect hsame, hheld⟩

/-- A package that is wanted but is no chain of identifiers is refused. -/
theorem packageRefused_of_not_packageName {name : String} (renderer : Renderer)
    (hwants : WantsPackage w arguments (some name)) (hname : ¬ PackageName name.toList) :
    PackageRefused w name (ofArguments w renderer arguments) := by
  obtain ⟨o, s, hwords, hhelp, hversion, hbase, hmerge⟩ := hwants.exists_merge
  have hbuild : Config.build w o = .error (.invalidPackage name) := by
    rw [Config.build, hbase]
    dsimp only
    rw [hmerge]
    exact if_neg (mt PackageName.isPackageName_iff.mp hname)
  rw [ofArguments_of_ok hwords, ofOptions_of_error hhelp hversion hbuild]
  refine ⟨rfl, rfl, rfl, rfl, ?_⟩
  exact List.filter_eq_self.mpr fun l hl =>
    List.mem_singleton.mp hl ▸ o.mode.delivers_error

/-- Whatever the command line, the environment and the disk are: a run takes place under the package
that is wanted, which is a chain of identifiers if there is one, and all its files begin
accordingly. Every other text is refused, and nothing is read or written. -/
theorem packaged_ofArguments (w : World) (arguments : List String) :
    (∀ c r, (ofArguments w .plain arguments).run = some (c, r) → Packaged w arguments c r) ∧
      ∀ package, WantsPackage w arguments package →
        ((∀ name ∈ package, PackageName name.toList) →
          ∃ c r, (ofArguments w .plain arguments).run = some (c, r) ∧ c.packageName = package) ∧
        ∀ name ∈ package, ¬ PackageName name.toList →
          PackageRefused w name (ofArguments w .plain arguments) := by
  refine ⟨fun c r hrun => ?_, fun package hwants => ⟨fun hvalid => ?_, ?_⟩⟩
  · cases verdict_of_ofArguments w .plain arguments with
    | refused _ _ hnone => cases hnone.symm.trans hrun
    | answered _ _ _ hnone => cases hnone.symm.trans hrun
    | ran hwords hhelp hversion hbuild hsome hreport =>
      cases hsome.symm.trans hrun
      rw [hreport]
      exact packaged_run hwords hhelp hversion hbuild
  · obtain ⟨o, s, hwords, hhelp, hversion, hbase, rfl⟩ := hwants.exists_merge
    have hbuild : Config.build w o = .ok (Config.merge s o) := build_eq_ok_iff.mpr
      ⟨s, hbase, rfl, fun name hname => PackageName.isPackageName_iff.mpr (hvalid name hname)⟩
    rw [ofArguments_of_ok hwords, ofOptions_of_build hhelp hversion hbuild]
    exact ⟨_, _, rfl, rfl⟩
  · rintro name rfl hname
    exact packageRefused_of_not_packageName .plain hwants hname

/-- A configuration file that names a package of two identifiers. -/
def zooText : String :=
  "\x7b\"packageName\":\"zoo.pets\"\x7d"

/-- A world with this file and the diagram of one class. -/
def zooWorld : World where
  disk := Run.notesDisk.put ["work", "c.json"] (.file (Disk.bytes zooText))
  cwd := ["work"]

/-- The words that name both files. -/
def zooWords : List String :=
  ["--config", "c.json", "d.puml"]

theorem load_zooWorld :
    Settings.load zooWorld (some "c.json") = .ok { packageName := some "zoo.pets" } := by
  have hparse : Json.parse? zooText = some (.object [("packageName", .string "zoo.pets")]) := by
    simp [zooText, Json.parse?, Json.readValue?, Json.readMembers?, Json.readName?, Json.readText?,
      Json.readScalar?, Json.skipSpace, Json.isSpace, Table.entries_ofList_singleton]
  have hfile : Disk.contents (zooWorld.disk.statText zooWorld.cwd "c.json") =
      .ok (Disk.bytes zooText) := rfl
  rw [Settings.load_of_contents hfile, Disk.text_bytes, Settings.ofText, hparse]
  rfl

/-- The run takes place under the package that the file names; but the empty text on the command
line goes first, and it is refused. -/
theorem packaged_ofArguments_zoo :
    (∃ c r, (ofArguments zooWorld .plain zooWords).run = some (c, r) ∧
        c.packageName = some "zoo.pets" ∧ Packaged zooWorld zooWords c r) ∧
      PackageRefused zooWorld ""
        (ofArguments zooWorld .plain (zooWords ++ ["--package", ""])) := by
  have hpath : ∀ o : Options, o.configPath = some "c.json" → o.noConfig = false →
      Settings.Origin zooWorld o { packageName := some "zoo.pets" } := fun o hconfig hno =>
    .file hno (by rw [hconfig]; rfl) (Settings.load_eq_ok_iff_named.mp load_zooWorld)
  have hstored : WantsPackage zooWorld zooWords (some "zoo.pets") :=
    .stored (by decide +kernel) rfl rfl
      (hpath { input := some "d.puml", configPath := some "c.json" } rfl rfl) (by decide +kernel)
  have hnamed : WantsPackage zooWorld (zooWords ++ ["--package", ""]) (some "") := by
    have hsettings : Options.settingsOf (zooWords ++ ["--package", ""]) =
        [⟨.config, some "c.json"⟩, ⟨.package, some ""⟩] := by decide +kernel
    exact .named (by decide +kernel) rfl rfl
      (hpath { input := some "d.puml", configPath := some "c.json", packageName := some "" } rfl
        rfl) ⟨[⟨.config, some "c.json"⟩], [], hsettings, nofun⟩
  have hvalid : PackageName "zoo.pets".toList := PackageName.isPackageName_iff.mp (by decide)
  have hempty : ¬ PackageName "".toList := mt PackageName.isPackageName_iff.mpr (by decide)
  obtain ⟨hruns, hwanted⟩ := packaged_ofArguments zooWorld zooWords
  obtain ⟨c, r, hrun, hc⟩ := (hwanted _ hstored).1 fun name hname => Option.some.inj hname ▸ hvalid
  refine ⟨⟨c, r, hrun, hc, hruns c r hrun⟩, ?_⟩
  exact ((packaged_ofArguments zooWorld _).2 _ hnamed).2 "" rfl hempty

end Invocation

end UmlDraft
