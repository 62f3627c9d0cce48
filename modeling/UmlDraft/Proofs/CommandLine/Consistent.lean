import Mathlib.Data.List.Induction
import UmlDraft.Proofs.CommandLine.NamedFile

/-!
# Options that agree with each other

The words of a command line that is accepted can be read from left to right: each is the form of a
flag, a value, several flags in one, an operand, or the end of the reading. What they set agrees
with itself. Main statement: whoever asks a question about the program asks for nothing else,
details and silence are never both asked for, the last word about configuration files decides, and
whoever asks to show a diagram asks for nothing that is written.
-/

namespace UmlDraft

namespace Words

variable {known own : List Flag} {word : String} {words : List String} {settings : List Setting}

/-- What a word says to those who know some flags. -/
inductive Says (known : List Flag) (word : String) : Reading → Prop where
  /-- It is a form of a flag without a value. -/
  | plain {f : Flag} (hf : f ∈ known) (hvalue : f.takesValue = false)
    (hform : f.isForm word = true) : Says known word (.sets ⟨f, none⟩)
  /-- It is a form of a flag whose value is the next word. -/
  | asks {f : Flag} (hf : f ∈ known) (hvalue : f.takesValue = true)
    (hform : f.isForm word = true) : Says known word (.asks f)
  /-- It is the letter of a flag with its value behind it. -/
  | attached {f : Flag} {c : Char} {value : List Char} (hf : f ∈ known)
    (hvalue : f.takesValue = true) (hletter : f.letter? = some c) (hne : value ≠ [])
    (hword : word.toList = '-' :: c :: value) : Says known word (.sets ⟨f, some (.ofList value)⟩)
  /-- It is the letter of a flag without a value, with more letters behind it. -/
  | bundle {f : Flag} {c : Char} {more : List Char} (hf : f ∈ known)
    (hvalue : f.takesValue = false) (hletter : f.letter? = some c) (hne : more ≠ [])
    (hword : word.toList = '-' :: c :: more) :
    Says known word (.bundle f (.ofList ('-' :: more)))
  /-- It is the name of a flag with its value behind an equals sign. -/
  | assigned {f : Flag} {value : List Char} (hf : f ∈ known) (hvalue : f.takesValue = true)
    (hword : word.toList = f.long.toList ++ '=' :: value) :
    Says known word (.sets ⟨f, some (.ofList value)⟩)
  /-- It looks like a flag. -/
  | unknown (hword : looksLikeFlag word = true) : Says known word .unknown
  /-- It does not look like a flag. -/
  | operand (hword : looksLikeFlag word = false) : Says known word .operand
  /-- It ends the reading. -/
  | terminator (hword : word = "--") : Says known word .terminator

/-- Words make settings, read from left to right. -/
inductive Makes (known : List Flag) : List String → List Setting → Prop where
  /-- There are no words. -/
  | done : Makes known [] []
  /-- The first word makes a setting. -/
  | sets {word : String} {rest : List String} {s : Setting} {settings : List Setting}
    (hword : Says known word (.sets s)) (hrest : Makes known rest settings) :
    Makes known (word :: rest) (s :: settings)
  /-- The first word makes a setting, and the second is its value whatever it looks like. -/
  | asks {word value : String} {rest : List String} {f : Flag} {settings : List Setting}
    (hword : Says known word (.asks f)) (hrest : Makes known rest settings) :
    Makes known (word :: value :: rest) (⟨f, some value⟩ :: settings)
  /-- The first word makes a setting, and its rest is read like another word. -/
  | bundle {word more : String} {rest : List String} {f : Flag} {settings : List Setting}
    (hword : Says known word (.bundle f more)) (hrest : Makes known (more :: rest) settings) :
    Makes known (word :: rest) (⟨f, none⟩ :: settings)
  /-- The first word makes no setting. -/
  | operand {word : String} {rest : List String} {settings : List Setting}
    (hword : Says known word .operand) (hrest : Makes known rest settings) :
    Makes known (word :: rest) settings
  /-- The first word ends the reading. -/
  | terminator {word : String} {rest : List String} (hword : Says known word .terminator) :
    Makes known (word :: rest) []

theorem says_readBundle? {r : Reading} (h : readBundle? known word.toList = some r) :
    Says known word r := by
  unfold readBundle? at h
  split at h
  · next c d more hword =>
    split at h
    · cases h
    · obtain ⟨f, hfind, rfl⟩ := Option.map_eq_some_iff.mp h
      have hf := List.mem_of_find?_eq_some hfind
      have hletter : f.letter? = some c := by simpa using List.find?_some hfind
      split
      · next hvalue => exact .attached hf hvalue hletter (List.cons_ne_nil d more) hword
      · next hvalue =>
        exact .bundle hf (Bool.not_eq_true _ ▸ hvalue) hletter (List.cons_ne_nil d more) hword
  · cases h

theorem says_readAssignment? {r : Reading} (h : readAssignment? known word.toList = some r) :
    Says known word r := by
  unfold readAssignment? at h
  dsimp only at h
  split at h
  · next c value hvalue =>
    obtain ⟨f, hfind, rfl⟩ := Option.map_eq_some_iff.mp h
    have hf := List.mem_of_find?_eq_some hfind
    have hname := List.find?_some hfind
    rw [Bool.and_eq_true, beq_iff_eq] at hname
    obtain rfl : c = '=' := by
      have hhead := List.head_dropWhile_not (fun x => decide (x ≠ '=')) (by
        rw [hvalue]
        exact List.cons_ne_nil c value)
      simp only [hvalue, List.head_cons, decide_eq_false_iff_not, not_not] at hhead
      exact hhead
    refine .assigned hf hname.1 ?_
    rw [hname.2, ← hvalue, List.takeWhile_append_dropWhile]
  · cases h

/-- What is read from a word is what it says. -/
theorem says_read (known : List Flag) (word : String) : Says known word (read known word) := by
  unfold read
  split
  · next hword => exact .terminator hword
  · split
    · next f hfind =>
      have hf := List.mem_of_find?_eq_some hfind
      have hform := List.find?_some hfind
      split
      · next hvalue => exact .asks hf hvalue hform
      · next hvalue => exact .plain hf (Bool.not_eq_true _ ▸ hvalue) hform
    · split
      · next hbundle => exact says_readBundle? hbundle
      · split
        · next hassignment => exact says_readAssignment? hassignment
        · split
          · next hword => exact .unknown hword
          · next hword => exact .operand (Bool.not_eq_true _ ▸ hword)

/-- Words that are understood to the end make the settings that are read from them. -/
theorem makes_scan {estranged : Bool} (hestranged : estranged = false)
    (hleftover : (scan known estranged words).leftover = [])
    (hunfinished : (scan known estranged words).unfinished = none) :
    Makes known words (scan known estranged words).settings := by
  -- No word is left over, so the reading never gets beyond an unknown one.
  fun_induction scan known estranged words with
  | case1 => exact .done
  | case2 estranged word rest s hread ih =>
    exact .sets (hread ▸ says_read known word) (ih hestranged hleftover hunfinished)
  | case3 => cases hunfinished
  | case4 estranged word f hread value rest ih =>
    exact .asks (hread ▸ says_read known word) (ih hestranged hleftover hunfinished)
  | case5 estranged word rest f more hread ih =>
    exact .bundle (hread ▸ says_read known word) (ih hestranged hleftover hunfinished)
  | case6 => cases hleftover
  | case7 estranged word rest hread ih =>
    subst hestranged
    exact .operand (hread ▸ says_read known word) (ih rfl hleftover hunfinished)
  | case8 => cases hestranged
  | case9 estranged word rest hread => exact .terminator (hread ▸ says_read known word)

/-- From the first unknown word on, everything is left over if nothing is set. -/
theorem leftover_scan_estranged {estranged : Bool} (hestranged : estranged = true)
    (hplain : ∀ f ∈ own, f.takesValue = false)
    (hsettings : (scan own estranged words).settings = []) :
    (scan own estranged words).leftover = words := by
  fun_induction scan own estranged words with
  | case1 => rfl
  | case2 | case4 | case5 => cases hsettings
  | case3 estranged word f hread =>
    cases hread ▸ says_read own word with
    | asks hf hvalue => cases (hplain f hf).symm.trans hvalue
  | case6 estranged word rest hread ih => exact congrArg _ (ih rfl hsettings)
  | case7 estranged word rest hread ih =>
    subst hestranged
    exact congrArg _ (ih rfl hsettings)
  | case8 => rfl
  | case9 estranged word rest hread hne => exact absurd hestranged hne

/-- What is left over by those who set nothing makes the settings that all words make. -/
theorem Makes.of_leftover {estranged : Bool} (hestranged : estranged = false)
    (hplain : ∀ f ∈ own, f.takesValue = false)
    (hsettings : (scan own estranged words).settings = [])
    (h : Makes known (scan own estranged words).leftover settings) :
    Makes known words settings := by
  fun_induction scan own estranged words with
  | case1 => exact h
  | case2 | case4 | case5 => cases hsettings
  | case3 estranged word f hread =>
    cases hread ▸ says_read own word with
    | asks hf hvalue => cases (hplain f hf).symm.trans hvalue
  | case6 estranged word rest hread ih =>
    -- From here on the words are the ones that are left over.
    have hrest := leftover_scan_estranged rfl hplain hsettings
    change Makes known (word :: (scan own true rest).leftover) settings at h
    rwa [hrest] at h
  | case7 estranged word rest hread ih =>
    subst hestranged
    cases hread ▸ says_read own word with
    | operand hword => exact .operand (.operand hword) (ih rfl hsettings h)
  | case8 => cases hestranged
  | case9 estranged word rest hread =>
    cases h
    cases hread ▸ says_read own word with
    | terminator hword => exact .terminator (.terminator hword)

/-- A setting has a value exactly if its flag takes one. -/
theorem Makes.isSome_value (h : Makes known words settings) :
    ∀ s ∈ settings, s.value.isSome = s.flag.takesValue := by
  induction h with
  | done | terminator => nofun
  | sets hword _ ih =>
    refine List.forall_mem_cons.mpr ⟨?_, ih⟩
    cases hword with
    | plain _ hvalue | attached _ hvalue | assigned _ hvalue => exact hvalue.symm
  | asks hword _ ih =>
    refine List.forall_mem_cons.mpr ⟨?_, ih⟩
    cases hword with
    | asks _ hvalue => exact hvalue.symm
  | bundle hword _ ih =>
    refine List.forall_mem_cons.mpr ⟨?_, ih⟩
    cases hword with
    | bundle _ hvalue => exact hvalue.symm
  | operand _ _ ih => exact ih

end Words

namespace Options

variable {arguments : List String} {c : Command} {o : Options} {settings : List Setting}
  {s : Setting} {path : Option String} {refused : Bool}

/-- The last setting about configuration files is the given one. -/
def LastOfFiles (settings : List Setting) (s : Setting) : Prop :=
  ∃ before after, settings = before ++ s :: after ∧
    ∀ t ∈ after, t.flag ≠ .config ∧ t.flag ≠ .noConfig

/-- What settings decide about configuration files: which one is named, and whether such files are
refused. -/
inductive FileChoice (settings : List Setting) : Option String → Bool → Prop where
  /-- The last setting about them names one. -/
  | named {p : String} (hlast : NamesFile settings p) : FileChoice settings (some p) false
  /-- The last setting about them refuses them. -/
  | refused (hlast : LastOfFiles settings ⟨.noConfig, none⟩) : FileChoice settings none true
  /-- No setting is about them. -/
  | unsaid (hnone : ∀ t ∈ settings, t.flag ≠ .config ∧ t.flag ≠ .noConfig) :
    FileChoice settings none false

theorem lastOfFiles_concat (settings : List Setting) (s : Setting) :
    LastOfFiles (settings ++ [s]) s :=
  ⟨settings, [], rfl, nofun⟩

theorem LastOfFiles.concat {t : Setting} (h : LastOfFiles settings s)
    (ht : t.flag ≠ .config ∧ t.flag ≠ .noConfig) : LastOfFiles (settings ++ [t]) s := by
  obtain ⟨before, after, rfl, hafter⟩ := h
  refine ⟨before, after ++ [t], List.append_assoc _ _ _, fun u hu => ?_⟩
  rcases List.mem_append.mp hu with hu | hu
  · exact hafter u hu
  · rwa [List.mem_singleton.mp hu]

/-- A setting about something else decides nothing about configuration files. -/
theorem FileChoice.concat (h : FileChoice settings path refused)
    (hs : s.flag ≠ .config ∧ s.flag ≠ .noConfig) :
    FileChoice (settings ++ [s]) path refused := by
  cases h with
  | named hlast => exact .named (LastOfFiles.concat hlast hs)
  | refused hlast => exact .refused (hlast.concat hs)
  | unsaid hnone =>
    refine .unsaid fun t ht => ?_
    rcases List.mem_append.mp ht with ht | ht
    · exact hnone t ht
    · rwa [List.mem_singleton.mp ht]

/-- Whichever setting about configuration files comes last decides. -/
theorem fileChoice_ofSettings (c : Command)
    (hvalues : ∀ s ∈ settings, s.value.isSome = s.flag.takesValue) :
    FileChoice settings (ofSettings c settings).configPath (ofSettings c settings).noConfig := by
  induction settings using List.reverseRecOn with
  | nil => exact .unsaid nofun
  | append_singleton settings s ih =>
    obtain ⟨hbefore, hvalue⟩ := List.forall_mem_append.mp hvalues
    rw [List.forall_mem_singleton] at hvalue
    have hlast : ofSettings c (settings ++ [s]) = (ofSettings c settings).apply s :=
      List.foldl_append
    rw [hlast]
    obtain ⟨f, value⟩ := s
    by_cases hconfig : f = .config
    · subst hconfig
      obtain ⟨p, rfl⟩ := Option.isSome_iff_exists.mp hvalue
      exact .named (lastOfFiles_concat settings _)
    · by_cases hnoConfig : f = .noConfig
      · subst hnoConfig
        obtain rfl : value = none :=
          Option.isNone_iff_eq_none.mp (Option.isSome_eq_false_iff.mp hvalue)
        exact .refused (lastOfFiles_concat settings _)
      · obtain ⟨hpath, hrefused⟩ :=
          @configPath_apply (ofSettings c settings) ⟨f, value⟩ hconfig hnoConfig
        rw [hpath, hrefused]
        exact (ih hbefore).concat ⟨hconfig, hnoConfig⟩

/-- Options that a command line comes to agree with each other and with its words. -/
structure Consistent (arguments : List String) (o : Options) : Prop where
  /-- Help and the version are not both asked for. -/
  question : ¬ (o.help = true ∧ o.version = true)
  /-- Whoever asks for help asks for nothing else. -/
  help : o.help = true → o = { help := true }
  /-- Whoever asks for the version asks for nothing else. -/
  version : o.version = true → o = { version := true }
  /-- Details and silence are not both asked for. -/
  mode : ¬ (o.verbose = true ∧ o.quiet = true)
  /-- Whoever refuses configuration files names none. -/
  refuses : o.noConfig = true → o.configPath = none
  /-- Whoever names one does not refuse them. -/
  names : ∀ p, o.configPath = some p → o.noConfig = false
  /-- In a run the words make settings of flags that the command knows, and the last of them that is
  about configuration files decides. -/
  decided : o.help = false → o.version = false →
    Words.Makes o.command.flags arguments (settingsOf arguments) ∧
      FileChoice (settingsOf arguments) o.configPath o.noConfig
  /-- Whoever asks to show a diagram asks for nothing that is written. -/
  shows : o.command = .parse → o.OnlyShows

/-- The words of a command line that asks for a run make its settings. -/
theorem makes_of_ofArguments (h : ofArguments arguments = .ok o) (hhelp : o.help = false)
    (hversion : o.version = false) :
    Words.Makes (commandOf arguments).flags arguments (settingsOf arguments) := by
  obtain ⟨hown, hunfinished, hleftover, -⟩ := understood_of_ofArguments h hhelp hversion
  have hplain : ∀ f ∈ Flag.ofProgram, f.takesValue = false := by decide
  exact (Words.makes_scan rfl hleftover hunfinished).of_leftover rfl hplain hown

theorem decided_of_ofArguments (h : ofArguments arguments = .ok o) (hhelp : o.help = false)
    (hversion : o.version = false) :
    Words.Makes o.command.flags arguments (settingsOf arguments) ∧
      FileChoice (settingsOf arguments) o.configPath o.noConfig := by
  have hmakes := makes_of_ofArguments h hhelp hversion
  obtain ⟨input, rfl⟩ := exists_settings_of_ofArguments h hhelp hversion
  refine ⟨?_, fileChoice_ofSettings _ hmakes.isSome_value⟩
  rw [show Options.command _ = commandOf arguments from command_ofSettings _ _]
  exact hmakes

/-- None of the flags of a command asks for help or for the version. -/
theorem asks_ofSettings (hflags : ∀ s ∈ settings, s.flag ∈ c.flags) :
    (ofSettings c settings).help = false ∧ (ofSettings c settings).version = false := by
  refine ofSettings_induction (P := fun o => o.help = false ∧ o.version = false) ⟨rfl, rfl⟩
    (fun o s hs ho => ?_) hflags
  obtain ⟨f, value⟩ := s
  cases f with
  | help | version => cases c <;> simp [Command.flags, Flag.shared] at hs
  | _ => exact ho

/-- Whatever the words of a command line are: if it is accepted, its options agree with each other
and with the words. -/
theorem consistent_of_ofArguments (h : ofArguments arguments = .ok o) : Consistent arguments o := by
  have hdecided := decided_of_ofArguments h
  have hshows := onlyShows_of_ofArguments h
  cases accepted_of_ofArguments h with
  | help =>
    exact ⟨nofun, fun _ => rfl, nofun, nofun, nofun, nofun, hdecided, hshows⟩
  | version =>
    exact ⟨nofun, nofun, fun _ => rfl, nofun, nofun, nofun, hdecided, hshows⟩
  | command c settings input hflags hmode =>
    obtain ⟨hhelp, hversion⟩ := asks_ofSettings hflags
    have hfile := (hdecided hhelp hversion).2
    refine ⟨fun hasked => ?_, fun hasked => ?_, fun hasked => ?_, fun hboth => ?_,
      configPath_ofSettings c settings, fun p hp => ?_, hdecided, hshows⟩
    · exact Bool.false_ne_true (hhelp.symm.trans hasked.1)
    · exact absurd (hhelp.symm.trans hasked) Bool.false_ne_true
    · exact absurd (hversion.symm.trans hasked) Bool.false_ne_true
    · exact Bool.eq_false_iff.mp hmode ((Bool.and_eq_true _ _).mpr hboth)
    · cases hrefused : (ofSettings c settings).noConfig with
      | false => rfl
      | true => cases (configPath_ofSettings c settings hrefused).symm.trans hp

/-- Words with two flags in one, a value that looks like a flag, and a command behind the flags,
where it is the input. -/
def bundledWords : List String :=
  ["-vo", "--no-config", "--no-config", "--config=c.json", "parse"]

/-- The file that is named last is used, for a value refuses nothing. -/
theorem consistent_of_ofArguments_bundled :
    let o : Options :=
      { input := some "parse", output := some "--no-config", configPath := some "c.json",
        verbose := true }
    ofArguments bundledWords = .ok o ∧ Consistent bundledWords o ∧
      NamesFile (settingsOf bundledWords) "c.json" := by
  intro o
  have hwords : ofArguments bundledWords = .ok o := by decide +kernel
  have hconsistent := consistent_of_ofArguments hwords
  refine ⟨hwords, hconsistent, ?_⟩
  cases (hconsistent.decided rfl rfl).2 with
  | named hlast => exact hlast

end Options

end UmlDraft
