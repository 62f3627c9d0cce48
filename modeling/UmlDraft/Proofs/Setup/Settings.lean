import UmlDraft.Proofs.Table
import UmlDraft.Setup.Load

/-!
# Settings of a configuration file

A file gives settings if its text is a JSON object in which every setting has a value of its type.
The settings are checked in a fixed order, and the first that has a value of another type is the one
that is complained of. What is said is kept, and what is not said is as it stands without a file.
`null` is no value of a text setting, but it passes for a truth value and says nothing. Main
statement: which files are accepted, what they give, and why the others are refused.
-/

namespace UmlDraft

/-- The values that a setting of a type may have. -/
inductive SettingType.Admits : SettingType → Json → Prop where
  /-- A text is a text. -/
  | text (s : String) : Admits .text (.string s)
  /-- A truth value is a truth value. -/
  | truth (b : Bool) : Admits .truth (.bool b)
  /-- `null` says nothing about a truth value. -/
  | unsaid : Admits .truth .null

namespace SettingType

/-- Whether a setting of a type may have a value. -/
def admits : SettingType → Json → Bool
  | .text, .string _ => true
  | .truth, .bool _ => true
  | .truth, .null => true
  | _, _ => false

theorem admits_iff {t : SettingType} {x : Json} : t.admits x = true ↔ t.Admits x := by
  constructor
  · intro h
    cases t with
    | text =>
      cases x with
      | string s => exact .text s
      | null | bool | number | array | object => cases h
    | truth =>
      cases x with
      | bool b => exact .truth b
      | null => exact .unsaid
      | string | number | array | object => cases h
  · rintro (_ | _ | _) <;> rfl

end SettingType

namespace Settings

variable {path key : String} {v : Json} {s : Settings} {e : SetupError}

/-- The settings of a file with their types, in the order in which they are checked. -/
def keys : List (String × SettingType) :=
  [("packageName", .text), ("createSample", .truth), ("input", .text), ("outputDir", .text),
    ("indent", .text)]

/-- Whether a setting has a value that is not of its type. -/
def isWrong (v : Json) (k : String × SettingType) : Bool :=
  (v.get? k.1).any fun x => !k.2.admits x

/-- A JSON value that gives settings: an object in which every setting is missing or has a value of
its type. -/
structure WellTyped (v : Json) : Prop where
  /-- The value is an object. -/
  object : ∃ members, v = .object members
  /-- The values that settings have are of their types. -/
  admits : ∀ k ∈ keys, ∀ x ∈ v.get? k.1, k.2.Admits x

/-- A text setting has the value that is given, and where none is given its standard value. -/
def Takes (v : Json) (key value standard : String) : Prop :=
  v.get? key = some (.string value) ∨ v.get? key = none ∧ value = standard

/-- A truth setting has the value that is given, and where nothing is said its standard value. -/
def Decides (v : Json) (key : String) (value standard : Bool) : Prop :=
  v.get? key = some (.bool value) ∨
    (v.get? key = none ∨ v.get? key = some .null) ∧ value = standard

/-- Settings keep what a JSON value says of them, and are as they stand without a file where it says
nothing. -/
structure Kept (v : Json) (s : Settings) : Prop where
  /-- The diagram to read. -/
  input : Takes v "input" s.input ({} : Settings).input
  /-- The directory of the generated files. -/
  outputDir : Takes v "outputDir" s.outputDir ({} : Settings).outputDir
  /-- There is a package exactly if one is given. -/
  packageName : v.get? "packageName" = s.packageName.map .string
  /-- One level of indentation. -/
  indent : Takes v "indent" s.indent ({} : Settings).indent
  /-- Whether the sample is wanted. -/
  createSample : Decides v "createSample" s.createSample ({} : Settings).createSample

/-- Why what is read from a file gives no settings. -/
inductive Refused (path : String) : Option Json → SetupError → Prop where
  /-- The text is not JSON. -/
  | text : Refused path none (.malformed path)
  /-- The value is no object. -/
  | value {v : Json} (hv : ∀ members, v ≠ .object members) : Refused path (some v) (.malformed path)
  /-- A setting has a value that is not of its type, and none that is checked before it has. -/
  | setting {members : List (String × Json)} {before after : List (String × SettingType)}
    {key : String} {type : SettingType} {x : Json} (hkeys : keys = before ++ (key, type) :: after)
    (hbefore : ∀ k ∈ before, ∀ y ∈ (Json.object members).get? k.1, k.2.Admits y)
    (hx : (Json.object members).get? key = some x) (htype : ¬ type.Admits x) :
    Refused path (some (.object members)) (.wrongType path key type)

/-- The settings that an object gives whose values are of the right types. -/
def given (v : Json) : Settings :=
  let standard : Settings := {}
  { input := ((v.get? "input").bind Json.string?).getD standard.input
    outputDir := ((v.get? "outputDir").bind Json.string?).getD standard.outputDir
    packageName := (v.get? "packageName").bind Json.string?
    indent := ((v.get? "indent").bind Json.string?).getD standard.indent
    createSample := ((v.get? "createSample").bind Json.bool?).getD standard.createSample }

theorem isWrong_eq_true_iff {k : String × SettingType} :
    isWrong v k = true ↔ ∃ x, v.get? k.1 = some x ∧ ¬ k.2.Admits x := by
  simp only [isWrong, Option.any_eq_true, Bool.not_eq_true', ← SettingType.admits_iff,
    Bool.not_eq_true]

theorem isWrong_eq_false_iff {k : String × SettingType} :
    isWrong v k = false ↔ ∀ x ∈ v.get? k.1, k.2.Admits x := by
  rw [← Bool.not_eq_true, isWrong_eq_true_iff]
  simp only [not_exists, not_and, Classical.not_not, Option.mem_def]

/-- A text setting is read unless its value is not of its type. -/
theorem text?_eq (path : String) (v : Json) (key : String) :
    text? path v key = if isWrong v (key, .text) then .error (.wrongType path key .text)
      else .ok ((v.get? key).bind Json.string?) := by
  unfold text? isWrong
  cases v.get? key with
  | none => rfl
  | some x => cases x <;> rfl

/-- A truth setting is read unless its value is not of its type. -/
theorem truth?_eq (path : String) (v : Json) (key : String) :
    truth? path v key = if isWrong v (key, .truth) then .error (.wrongType path key .truth)
      else .ok ((v.get? key).bind Json.bool?) := by
  unfold truth? isWrong
  cases v.get? key with
  | none => rfl
  | some x => cases x <;> rfl

/-- An object gives its settings unless one of them is wrong, and then the first is complained
of. -/
theorem ofJson_object (path : String) (members : List (String × Json)) :
    ofJson path (.object members) =
      match keys.find? (isWrong (.object members)) with
      | some k => .error (.wrongType path k.1 k.2)
      | none => .ok (given (.object members)) := by
  simp only [ofJson, text?_eq, truth?_eq, keys, List.find?_cons]
  -- Both sides go through the settings in one order, so a case for each of them suffices.
  generalize Json.object members = v
  cases isWrong v ("packageName", .text) with
  | true => rfl
  | false =>
    cases isWrong v ("createSample", .truth) with
    | true => rfl
    | false =>
      cases isWrong v ("input", .text) with
      | true => rfl
      | false =>
        cases isWrong v ("outputDir", .text) with
        | true => rfl
        | false => cases isWrong v ("indent", .text) <;> rfl

theorem wellTyped_object_iff {members : List (String × Json)} :
    WellTyped (.object members) ↔ keys.find? (isWrong (.object members)) = none := by
  rw [List.find?_eq_none]
  simp only [Bool.not_eq_true, isWrong_eq_false_iff]
  exact ⟨fun h => h.admits, fun h => ⟨⟨members, rfl⟩, h⟩⟩

section Members

variable {value standard : String} {package : Option String} {b unsaid : Bool}

theorem takes_iff (h : ∀ x ∈ v.get? key, SettingType.text.Admits x) :
    Takes v key value standard ↔ value = ((v.get? key).bind Json.string?).getD standard := by
  unfold Takes
  cases hx : v.get? key with
  | none => simp
  | some x =>
    cases h x hx with
    | text t => simp [Json.string?, eq_comm]

theorem packaged_iff (h : ∀ x ∈ v.get? key, SettingType.text.Admits x) :
    v.get? key = package.map .string ↔ package = (v.get? key).bind Json.string? := by
  cases hx : v.get? key with
  | none => cases package <;> simp
  | some x =>
    cases h x hx with
    | text t => cases package <;> simp [Json.string?, eq_comm]

theorem decides_iff (h : ∀ x ∈ v.get? key, SettingType.truth.Admits x) :
    Decides v key b unsaid ↔ b = ((v.get? key).bind Json.bool?).getD unsaid := by
  unfold Decides
  cases hx : v.get? key with
  | none => simp
  | some x =>
    cases h x hx with
    | truth c => simp [Json.bool?, eq_comm]
    | unsaid => simp [Json.bool?]

end Members

theorem WellTyped.member {type : SettingType} (h : WellTyped v) (hkey : (key, type) ∈ keys) :
    ∀ x ∈ v.get? key, type.Admits x :=
  h.admits (key, type) hkey

/-- What a well-typed value gives is the one choice of settings that keeps what it says. -/
theorem kept_iff (h : WellTyped v) : Kept v s ↔ s = given v := by
  have hpackageName : ∀ x ∈ v.get? "packageName", SettingType.text.Admits x :=
    h.member (by simp [keys])
  have hcreateSample : ∀ x ∈ v.get? "createSample", SettingType.truth.Admits x :=
    h.member (by simp [keys])
  have hinput : ∀ x ∈ v.get? "input", SettingType.text.Admits x := h.member (by simp [keys])
  have houtputDir : ∀ x ∈ v.get? "outputDir", SettingType.text.Admits x := h.member (by simp [keys])
  have hindent : ∀ x ∈ v.get? "indent", SettingType.text.Admits x := h.member (by simp [keys])
  constructor
  · intro hk
    have h1 := (takes_iff hinput).mp hk.input
    have h2 := (takes_iff houtputDir).mp hk.outputDir
    have h3 := (packaged_iff hpackageName).mp hk.packageName
    have h4 := (takes_iff hindent).mp hk.indent
    have h5 := (decides_iff hcreateSample).mp hk.createSample
    -- Every field is settled, so nothing of the settings is free.
    obtain ⟨input, outputDir, packageName, indent, createSample⟩ := s
    dsimp only at h1 h2 h3 h4 h5
    rw [h1, h2, h3, h4, h5]
    rfl
  · rintro rfl
    exact ⟨(takes_iff hinput).mpr rfl, (takes_iff houtputDir).mpr rfl,
      (packaged_iff hpackageName).mpr rfl, (takes_iff hindent).mpr rfl,
      (decides_iff hcreateSample).mpr rfl⟩

/-- The settings that a JSON value gives. -/
theorem ofJson_eq_ok_iff : ofJson path v = .ok s ↔ WellTyped v ∧ Kept v s := by
  cases v with
  | object members =>
    rw [ofJson_object, wellTyped_object_iff]
    cases hwrong : keys.find? (isWrong (.object members)) with
    | none => simp [kept_iff (wellTyped_object_iff.mpr hwrong), eq_comm]
    | some k => simp
  | null | bool | number | string | array =>
    refine iff_of_false (fun h => nomatch h) fun h => ?_
    obtain ⟨members, hm⟩ := h.1.object
    cases hm

/-- The complaint about a JSON value that gives no settings. -/
theorem ofJson_eq_error_iff : ofJson path v = .error e ↔ Refused path (some v) e := by
  cases v with
  | object members =>
    rw [ofJson_object]
    constructor
    · intro h
      cases hwrong : keys.find? (isWrong (.object members)) with
      | none => simp [hwrong] at h
      | some k =>
        simp only [hwrong, Except.error.injEq] at h
        obtain ⟨hk, before, after, hkeys, hbefore⟩ := List.find?_eq_some_iff_append.mp hwrong
        obtain ⟨x, hx, htype⟩ := isWrong_eq_true_iff.mp hk
        rw [← h]
        refine .setting hkeys (fun k hk => isWrong_eq_false_iff.mp ?_) hx htype
        simpa using hbefore k hk
    · intro h
      cases h with
      | value hv => exact absurd rfl (hv members)
      | @setting _ before after key type x hkeys hbefore hx htype =>
        have hwrong : isWrong (.object members) (key, type) = true :=
          isWrong_eq_true_iff.mpr ⟨x, hx, htype⟩
        have hfirst : keys.find? (isWrong (.object members)) = some (key, type) := by
          refine List.find?_eq_some_iff_append.mpr ⟨hwrong, before, after, hkeys, fun k hk => ?_⟩
          rw [isWrong_eq_false_iff.mpr (hbefore k hk)]
          rfl
        rw [hfirst]
  | null | bool | number | string | array =>
    constructor
    · intro h
      cases h
      exact .value fun _ h => nomatch h
    · rintro (_ | _)
      rfl

/-- A file is read where it stands. -/
theorem load_of_contents {w : World} {bytes : List UInt8}
    (hfile : Disk.contents (w.disk.statText w.cwd path) = .ok bytes) :
    load w (some path) = ofText path (Disk.text bytes) := by
  -- An empty path counts as no path, but no file stands there.
  have hpath : path ≠ "" := by
    rintro rfl
    cases hfile
  rw [load, Option.filter_some, if_pos (decide_eq_true hpath)]
  simp only [hfile]

/-- A file gives settings exactly if its text is a JSON object whose settings have values of their
types, where `null` is let through as the value of the truth setting. The settings keep what the
object says, and are as they stand without a file where it says nothing. Every other file is refused
by a complaint about the configuration. -/
theorem load_file {w : World} {bytes : List UInt8}
    (hfile : Disk.contents (w.disk.statText w.cwd path) = .ok bytes) :
    ((∃ s, load w (some path) = .ok s) ↔ ∃ v ∈ Json.parse? (Disk.text bytes), WellTyped v) ∧
    (∀ s, load w (some path) = .ok s → ∀ v ∈ Json.parse? (Disk.text bytes), Kept v s) ∧
    ∀ e, load w (some path) = .error e ↔ Refused path (Json.parse? (Disk.text bytes)) e := by
  rw [load_of_contents hfile, ofText]
  cases Json.parse? (Disk.text bytes) with
  | none =>
    refine ⟨iff_of_false ?_ ?_, ?_, fun e => ⟨?_, ?_⟩⟩
    · rintro ⟨s, h⟩
      cases h
    · rintro ⟨v, hv, -⟩
      cases hv
    · intro s h
      cases h
    · intro h
      cases h
      exact .text
    · rintro ⟨⟩
      rfl
  | some v =>
    refine ⟨⟨?_, ?_⟩, ?_, fun e => ofJson_eq_error_iff⟩
    · rintro ⟨s, h⟩
      exact ⟨v, rfl, (ofJson_eq_ok_iff.mp h).1⟩
    · rintro ⟨v, ⟨⟩, hv⟩
      exact ⟨given v, ofJson_eq_ok_iff.mpr ⟨hv, (kept_iff hv).mpr rfl⟩⟩
    · rintro s h v ⟨⟩
      exact (ofJson_eq_ok_iff.mp h).2

/-- A world with one file. -/
def fileWorld (text : String) : World where
  disk := Disk.put {} ["c.json"] (.file (Disk.bytes text))

theorem contents_fileWorld (text : String) :
    Disk.contents ((fileWorld text).disk.statText (fileWorld text).cwd "c.json") =
      .ok (Disk.bytes text) :=
  rfl

/-- A file with one setting, two blanks for each level of indentation. -/
def narrowText : String :=
  "\x7b\"indent\":\"  \"\x7d"

theorem parse?_narrowText :
    Json.parse? narrowText = some (.object [("indent", .string "  ")]) := by
  simp [narrowText, Json.parse?, Json.readValue?, Json.readMembers?, Json.readName?,
    Json.readText?, Json.readScalar?, Json.skipSpace, Json.isSpace, Table.entries_ofList_singleton]

/-- The file is accepted, and its setting is kept. -/
theorem load_file_narrow :
    ∃ s, load (fileWorld narrowText) (some "c.json") = .ok s ∧ s.indent = "  " := by
  have htyped : WellTyped (.object [("indent", .string "  ")]) :=
    wellTyped_object_iff.mpr (by decide)
  obtain ⟨haccepted, hkept, -⟩ := load_file (contents_fileWorld narrowText)
  rw [Disk.text_bytes, parse?_narrowText] at haccepted hkept
  obtain ⟨s, hs⟩ := haccepted.mpr ⟨_, rfl, htyped⟩
  refine ⟨s, hs, ?_⟩
  rcases (hkept s hs _ rfl).indent with h | ⟨h, -⟩
  · exact (Json.string.inj (Option.some.inj h)).symm
  · cases h

/-- A file with one setting, which is a truth value and is said to be `null`. -/
def nullText : String :=
  "\x7b\"createSample\":null\x7d"

theorem parse?_nullText :
    Json.parse? nullText = some (.object [("createSample", .null)]) := by
  simp [nullText, Json.parse?, Json.readValue?, Json.readMembers?, Json.readName?, Json.readText?,
    Json.readScalar?, Json.skipSpace, Json.isSpace, Text.dropLeading?,
    Table.entries_ofList_singleton]

/-- The file is accepted, though the value of its setting is no truth value. -/
theorem load_null :
    (∃ v ∈ Json.parse? nullText, ∃ x ∈ v.get? "createSample", ∀ b, x ≠ .bool b) ∧
      load (fileWorld nullText) (some "c.json") = .ok {} := by
  constructor
  · refine ⟨_, parse?_nullText, .null, rfl, ?_⟩
    rintro b ⟨⟩
  · rw [load_of_contents (contents_fileWorld nullText), Disk.text_bytes, ofText, parse?_nullText]
    rfl

end Settings

end UmlDraft
