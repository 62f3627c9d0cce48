import UmlDraft.CommandLine.Options

/-!
# Options that are accepted

A command line that is not refused asks for help, for the version, or for a command with settings of
flags that the command knows. Whatever every such setting leaves alone is as the command has it: to
show a diagram is never to write, and neither an output directory nor a package can be given for it.
-/

namespace UmlDraft.Options

variable {c : Command} {o : Options} {settings : List Setting}
  {arguments operands words : List String}

/-- The command that a command line asks for if it asks for one. -/
def commandOf (arguments : List String) : Command :=
  ((Words.scan Flag.ofProgram false arguments).operands.head?.bind Command.ofName?).getD .generate

/-- The settings that a command line makes for its command. -/
def settingsOf (arguments : List String) : List Setting :=
  (Words.scan (commandOf arguments).flags false
    (Words.scan Flag.ofProgram false arguments).leftover).settings

/-- The options that command lines come to. -/
inductive Accepted : Options → Prop where
  /-- Help is asked for. -/
  | help : Accepted { help := true }
  /-- The version is asked for. -/
  | version : Accepted { version := true }
  /-- A command is asked for, with settings of its flags and one input at most. -/
  | command (c : Command) (settings : List Setting) (input : Option String)
    (hflags : ∀ s ∈ settings, s.flag ∈ c.flags)
    (hmode : ((ofSettings c settings).verbose && (ofSettings c settings).quiet) = false) :
    Accepted { ofSettings c settings with input := input }

/-- The words that are left to a command ask for help, or they are understood to the end and make
its settings. -/
theorem cases_of_ofWords (h : ofWords c operands words = .ok o) :
    o = { help := true } ∨
      (Words.scan c.flags false words).unfinished = none ∧
        (Words.scan c.flags false words).leftover = [] ∧
        ((ofSettings c (Words.scan c.flags false words).settings).verbose &&
          (ofSettings c (Words.scan c.flags false words).settings).quiet) = false ∧
        ∃ input, o = { ofSettings c (Words.scan c.flags false words).settings with
          input := input } := by
  unfold ofWords at h
  dsimp only at h
  split at h
  · cases h
  · next hunfinished =>
    split at h
    · cases h
      exact .inl rfl
    · split at h
      · cases h
      · next hleftover =>
        split at h
        · cases h
        · split at h
          · cases h
          · next hmode =>
            cases h
            exact .inr ⟨hunfinished, hleftover, Bool.eq_false_iff.mpr hmode, _, rfl⟩

/-- A command line asks for the version or for help, or it leaves its words to a command. -/
theorem cases_of_ofArguments (h : ofArguments arguments = .ok o) :
    o = { version := true } ∨ o = { help := true } ∨
      (Words.scan Flag.ofProgram false arguments).settings = [] ∧
        ∃ operands, ofWords (commandOf arguments) operands
          (Words.scan Flag.ofProgram false arguments).leftover = .ok o := by
  unfold commandOf
  unfold ofArguments at h
  dsimp only at h
  split at h
  · cases h
    exact .inl rfl
  · next hown =>
    right
    split at h
    · next c hc =>
      rw [hc]
      exact .inr ⟨Decidable.not_not.mp hown, _, h⟩
    · next hc =>
      rw [hc]
      split at h
      · cases h
      · split at h
        · cases h
          exact .inl rfl
        · exact .inr ⟨Decidable.not_not.mp hown, _, h⟩

theorem accepted_of_ofArguments (h : ofArguments arguments = .ok o) : Accepted o := by
  rcases cases_of_ofArguments h with rfl | rfl | ⟨-, operands, hwords⟩
  · exact .version
  · exact .help
  · rcases cases_of_ofWords hwords with rfl | ⟨-, -, hmode, input, rfl⟩
    · exact .help
    · exact .command _ _ input (fun s hs => Words.mem_known_of_mem_settings hs) hmode

/-- A command line that asks for a run leaves its words to a command, which understands them to the
end. -/
theorem understood_of_ofArguments (h : ofArguments arguments = .ok o) (hhelp : o.help = false)
    (hversion : o.version = false) :
    (Words.scan Flag.ofProgram false arguments).settings = [] ∧
      let own := Words.scan (commandOf arguments).flags false
        (Words.scan Flag.ofProgram false arguments).leftover
      own.unfinished = none ∧ own.leftover = [] ∧
        ∃ input, o = { ofSettings (commandOf arguments) (settingsOf arguments) with
          input := input } := by
  rcases cases_of_ofArguments h with rfl | rfl | ⟨hown, operands, hwords⟩
  · cases hversion
  · cases hhelp
  · rcases cases_of_ofWords hwords with rfl | ⟨hunfinished, hleftover, -, hsettings⟩
    · cases hhelp
    · exact ⟨hown, hunfinished, hleftover, hsettings⟩

/-- A command line that asks for a run makes its settings. -/
theorem exists_settings_of_ofArguments (h : ofArguments arguments = .ok o) (hhelp : o.help = false)
    (hversion : o.version = false) :
    ∃ input, o = { ofSettings (commandOf arguments) (settingsOf arguments) with
      input := input } := by
  obtain ⟨-, -, -, hsettings⟩ := understood_of_ofArguments h hhelp hversion
  exact hsettings

/-- What holds of a command without settings and is kept by each of its flags holds with all its
settings. -/
theorem ofSettings_induction {P : Options → Prop} (hstart : P (ofCommand c))
    (hstep : ∀ o s, s.flag ∈ c.flags → P o → P (o.apply s))
    (hflags : ∀ s ∈ settings, s.flag ∈ c.flags) : P (ofSettings c settings) :=
  List.foldlRecOn settings apply hstart fun o ho s hs => hstep o s (hflags s hs) ho

theorem command_apply (o : Options) (s : Setting) : (o.apply s).command = o.command := by
  unfold apply
  split <;> rfl

/-- No setting changes the command. -/
theorem command_ofSettings (c : Command) (settings : List Setting) :
    (ofSettings c settings).command = c :=
  List.foldlRecOn (motive := fun o => o.command = c) settings apply rfl
    fun o ho s _ => (command_apply o s).trans ho

/-- Options that ask to show a diagram and for nothing that is written. -/
structure OnlyShows (o : Options) : Prop where
  /-- The diagram is to be shown. -/
  command : o.command = .parse
  /-- The sample diagram may not be written. -/
  sample : o.sample = false
  /-- Nothing may be written. -/
  dryRun : o.dryRun = true
  /-- No directory is named. -/
  output : o.output = none
  /-- No package is named. -/
  packageName : o.packageName = none
  /-- Help is not asked for. -/
  help : o.help = false
  /-- The version is not asked for. -/
  version : o.version = false

/-- None of the flags that both commands know is about writing. -/
theorem OnlyShows.apply (h : o.OnlyShows) {s : Setting} (hs : s.flag ∈ Flag.shared) :
    (o.apply s).OnlyShows := by
  unfold Options.apply
  simp only [Flag.shared, List.mem_cons, List.not_mem_nil, or_false] at hs
  rcases hs with hs | hs | hs | hs | hs
  all_goals
    rw [hs]
    exact ⟨h.command, h.sample, h.dryRun, h.output, h.packageName, h.help, h.version⟩

/-- Whoever asks to show a diagram asks for nothing that is written. -/
theorem onlyShows_of_ofArguments (h : ofArguments arguments = .ok o) (hc : o.command = .parse) :
    o.OnlyShows := by
  cases accepted_of_ofArguments h with
  | help => cases hc
  | version => cases hc
  | command c settings input hflags =>
    obtain rfl : c = .parse := (command_ofSettings c settings).symm.trans hc
    have hshows : (ofSettings .parse settings).OnlyShows :=
      ofSettings_induction ⟨rfl, rfl, rfl, rfl, rfl, rfl, rfl⟩ (fun _ _ hs ho => ho.apply hs) hflags
    exact ⟨hshows.command, hshows.sample, hshows.dryRun, hshows.output, hshows.packageName,
      hshows.help, hshows.version⟩

end UmlDraft.Options
