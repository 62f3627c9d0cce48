import UmlDraft.Proofs.Diagram.Member
import UmlDraft.Proofs.Text.Join
import UmlDraft.Skeleton.Source

/-!
# Balanced blocks

Where no name, type or parameter holds a brace, the braces of a generated block are those of its own
first and last line: the first opens the block, the last closes it, and the lines between them hold
none. So every block is balanced, and so is the text between the braces of a generated type.
-/

namespace UmlDraft

open Text

/-- A text holds no brace. -/
def Plain (s : String) : Prop :=
  '{' ∉ s.toList ∧ '}' ∉ s.toList

instance (s : String) : Decidable (Plain s) :=
  inferInstanceAs (Decidable (_ ∧ _))

/-- A text raises the level by one. -/
def Opens (s : String) : Prop :=
  ∀ d, level? d s.toList = some (d + 1)

/-- A text takes the level back by one. -/
def Closes (s : String) : Prop :=
  ∀ d, level? (d + 1) s.toList = some d

/-- Lines that leave the level as it was. -/
def Even (ls : List String) : Prop :=
  ∀ d, levelAll? d (ls.map String.toList) = some d

section Plain

variable {s t : String} {ls : List String}

@[simp] theorem plain_append : Plain (s ++ t) ↔ Plain s ∧ Plain t := by
  simp only [Plain, String.toList_append, List.mem_append, not_or]
  exact and_and_and_comm

theorem Plain.level? (h : Plain s) (d : Nat) : level? d s.toList = some d :=
  level?_of_braceless h.1 h.2 d

theorem Plain.opens (hs : Plain s) (ht : Opens t) : Opens (s ++ t) := by
  intro d
  rw [String.toList_append, level?_append, hs.level?, Option.bind_some, ht]

theorem Plain.closes (hs : Plain s) (ht : Closes t) : Closes (s ++ t) := by
  intro d
  rw [String.toList_append, level?_append, hs.level?, Option.bind_some, ht]

/-- A joined text is plain if its parts are. -/
theorem plain_intercalate (hs : Plain s) (hls : ∀ t ∈ ls, Plain t) : Plain (s.intercalate ls) := by
  have key : ∀ c, c ∈ (s.intercalate ls).toList → c ∈ s.toList ∨ ∃ t ∈ ls, c ∈ t.toList := by
    intro c hc
    rw [String.toList_intercalate] at hc
    rcases mem_intercalate hc with hc | ⟨_, hmem, hc⟩
    · exact .inl hc
    · obtain ⟨t, ht, rfl⟩ := List.mem_map.mp hmem
      exact .inr ⟨t, ht, hc⟩
  constructor
  · intro hc
    rcases key _ hc with hc | ⟨t, ht, hc⟩
    · exact hs.1 hc
    · exact (hls t ht).1 hc
  · intro hc
    rcases key _ hc with hc | ⟨t, ht, hc⟩
    · exact hs.2 hc
    · exact (hls t ht).2 hc

/-- A text of word characters is plain. -/
theorem plain_of_word {w : List Char} (h : ∀ c ∈ w, isWord c = true) : Plain (.ofList w) := by
  rw [Plain, String.toList_ofList]
  exact ⟨fun hc => absurd (h _ hc) (by decide), fun hc => absurd (h _ hc) (by decide)⟩

theorem plain_of_isName (h : IsName s.toList) : Plain s := by
  rw [← String.ofList_toList (s := s)]
  exact plain_of_word h.word

theorem even_of_plain (h : ∀ s ∈ ls, Plain s) : Even ls := by
  intro d
  induction ls with
  | nil => rfl
  | cons s ls ih =>
    rw [List.map_cons, levelAll?_cons, (h s List.mem_cons_self).level?, Option.bind_some]
    exact ih fun s hs => h s (List.mem_cons_of_mem _ hs)

/-- Plain lines between an opening and a closing line make up a balanced block. -/
theorem even_block (hs : Opens s) (hls : ∀ l ∈ ls, Plain l) (ht : Closes t) :
    Even ([s] ++ ls ++ [t]) := by
  intro d
  rw [List.map_append, List.map_append, levelAll?_append, levelAll?_append, List.map_singleton,
    List.map_singleton, levelAll?_cons, hs, Option.bind_some, levelAll?_nil, Option.bind_some,
    even_of_plain hls, Option.bind_some, levelAll?_cons, ht]
  rfl

end Plain

/-- A parameter holds no brace. -/
def Parameter.Plain : Parameter → Prop
  | .typed name type => UmlDraft.Plain name ∧ UmlDraft.Plain type
  | .raw text => UmlDraft.Plain text

instance : DecidablePred Parameter.Plain
  | .typed name type => inferInstanceAs (Decidable (Plain name ∧ Plain type))
  | .raw text => inferInstanceAs (Decidable (Plain text))

/-- No type or parameter of a declaration holds a brace. -/
structure Declaration.Plain (d : Declaration) : Prop where
  /-- The types of the attributes are plain. -/
  attributes : ∀ a ∈ d.attributes, UmlDraft.Plain a.type
  /-- The return types of the methods are plain. -/
  returnTypes : ∀ m ∈ d.methods, UmlDraft.Plain m.returnType
  /-- The parameters of the methods are plain. -/
  parameters : ∀ m ∈ d.methods, ∀ p ∈ m.parameters, p.Plain

instance (d : Declaration) : Decidable d.Plain :=
  decidable_of_iff ((∀ a ∈ d.attributes, Plain a.type) ∧ (∀ m ∈ d.methods, Plain m.returnType) ∧
    ∀ m ∈ d.methods, ∀ p ∈ m.parameters, p.Plain)
    ⟨fun h => ⟨h.1, h.2.1, h.2.2⟩, fun h => ⟨h.1, h.2, h.3⟩⟩

/-- An attribute that can be written out without a brace. -/
structure Attribute.Plain (a : Attribute) : Prop where
  /-- The name is a word. -/
  name : IsName a.name.toList
  /-- The type holds no brace. -/
  type : UmlDraft.Plain a.type

/-- A method that can be written out without a brace. -/
structure Method.Plain (m : Method) : Prop where
  /-- The name is a word. -/
  name : IsName m.name.toList
  /-- The return type holds no brace. -/
  returnType : UmlDraft.Plain m.returnType
  /-- The parameters hold no brace. -/
  parameters : ∀ p ∈ m.parameters, p.Plain

/-- A block whose members can be written out without a brace. -/
def Block.Plain : Block → Prop
  | .fields own => ∀ a ∈ own, a.Plain
  | .construction name inherited own => IsName name.toList ∧ ∀ a ∈ inherited ++ own, a.Plain
  | .getter a => a.Plain
  | .setter a => a.Plain
  | .signature m => m.Plain
  | .abstractMethod m => m.Plain
  | .stub m => m.Plain

namespace Signature

variable {name type : String}

/-- Words of parts without braces have none. -/
theorem plain_words {parts : List String} (h : ∀ s ∈ parts, Plain s) : Plain (words parts) :=
  plain_intercalate (by decide) fun s hs => h s (List.mem_filter.mp hs).1

theorem plain_parameter {p : Parameter} (h : p.Plain) : Plain (parameter p) := by
  cases p with
  | typed name type =>
    rw [parameter, plain_append, plain_append]
    exact ⟨⟨h.2, by decide⟩, h.1⟩
  | raw text => exact h

theorem plain_parameters {ps : List Parameter} (h : ∀ p ∈ ps, p.Plain) : Plain (parameters ps) := by
  refine plain_intercalate (by decide) fun s hs => ?_
  obtain ⟨p, hp, rfl⟩ := List.mem_map.mp hs
  exact plain_parameter (h p hp)

theorem plain_placeholderHelper (type : String) : Plain (placeholderHelper type) := by
  rw [placeholderHelper, plain_append, plain_append]
  exact ⟨⟨by decide, plain_of_word fun c hc => (List.mem_filter.mp hc).2⟩, by decide⟩

/-- A word character in upper or lower case is no brace. -/
theorem case_plain {c : Char} (h : isWord c = true) :
    Plain (.ofList (upper c)) ∧ Plain (.ofList (lower c)) := by
  have key : ((List.range 128).all fun n => !isWord (Char.ofNat n) ||
      (decide (Plain (.ofList (upper (Char.ofNat n)))) &&
        decide (Plain (.ofList (lower (Char.ofNat n)))))) = true := by
    decide +kernel
  have := List.all_eq_true.mp key c.toNat (List.mem_range.mpr (val_lt_of_isWord h))
  rw [Char.ofNat_toNat, h, Bool.not_true, Bool.false_or, Bool.and_eq_true] at this
  exact ⟨of_decide_eq_true this.1, of_decide_eq_true this.2⟩

theorem plain_lowerAfter {s : List Char} (h : ∀ c ∈ s, isWord c = true) (before : List Char) :
    Plain (.ofList (lowerAfter before s)) := by
  induction s generalizing before with
  | nil =>
    rw [lowerAfter]
    decide
  | cons c s ih =>
    rw [lowerAfter, String.ofList_append, plain_append]
    refine ⟨?_, ih (fun c hc => h c (List.mem_cons_of_mem _ hc)) _⟩
    split
    · decide
    · exact (case_plain (h c List.mem_cons_self)).2

/-- A capitalised name has no brace. -/
theorem plain_capitalize (h : IsName name.toList) : Plain (capitalize name) := by
  obtain ⟨c, rest, hc⟩ := List.exists_cons_of_ne_nil h.ne_nil
  have hword := h.word
  rw [hc] at hword
  rw [capitalize, hc, Text.capitalize, String.ofList_append, plain_append]
  refine ⟨?_, plain_lowerAfter (fun c hc => hword c (List.mem_cons_of_mem _ hc)) []⟩
  split
  · exact (case_plain (hword c List.mem_cons_self)).1
  · refine plain_of_word fun d hd => ?_
    rw [List.mem_singleton.mp hd]
    exact hword c List.mem_cons_self

end Signature

namespace Block

variable {indent : String}

theorem plain_keyword (v : Visibility) : UmlDraft.Plain v.keyword := by
  cases v <;> decide

theorem plain_typedName {a : Attribute} (h : a.Plain) : UmlDraft.Plain (typedName a) := by
  rw [typedName, plain_append, plain_append]
  exact ⟨⟨h.type, by decide⟩, plain_of_isName h.name⟩

theorem plain_call {m : Method} (h : m.Plain) : UmlDraft.Plain (call m) := by
  simp only [call, plain_append]
  exact ⟨⟨⟨plain_of_isName h.name, by decide⟩, Signature.plain_parameters h.parameters⟩, by decide⟩

theorem plain_head {m : Method} (h : m.Plain) (isAbstract : Bool) :
    UmlDraft.Plain (head m isAbstract) := by
  refine Signature.plain_words fun s hs => ?_
  simp only [List.mem_cons, List.not_mem_nil, or_false] at hs
  rcases hs with rfl | rfl | rfl | rfl | rfl
  · exact plain_keyword m.visibility
  · split <;> decide
  · split <;> decide
  · exact h.returnType
  · exact plain_call h

/-- The line that sets a field. -/
theorem plain_assignment {a : Attribute} (hi : UmlDraft.Plain indent) (h : a.Plain) :
    UmlDraft.Plain (indent ++ indent ++ "this." ++ a.name ++ " = " ++ a.name ++ ";") := by
  have hname := plain_of_isName h.name
  simp only [plain_append]
  exact ⟨⟨⟨⟨⟨⟨hi, hi⟩, by decide⟩, hname⟩, by decide⟩, hname⟩, by decide⟩

/-- The lines of a block leave the level as it was. -/
theorem even_lines {b : Block} (hi : UmlDraft.Plain indent) (hb : b.Plain) :
    Even (b.lines indent) := by
  have hclose : Closes (indent ++ "\x7d") := hi.closes fun d => rfl
  cases b with
  | fields own =>
    refine even_of_plain fun s hs => ?_
    obtain ⟨a, ha, rfl⟩ := List.mem_map.mp hs
    simp only [plain_append]
    refine ⟨⟨hi, Signature.plain_words fun s hs => ?_⟩, by decide⟩
    simp only [List.mem_cons, List.not_mem_nil, or_false] at hs
    rcases hs with rfl | rfl | rfl
    · exact plain_keyword a.visibility
    · exact (hb a ha).type
    · exact plain_of_isName (hb a ha).name
  | construction name inherited own =>
    obtain ⟨hname, hall⟩ := hb
    have hparameters : UmlDraft.Plain (", ".intercalate ((inherited ++ own).map typedName)) := by
      refine plain_intercalate (by decide) fun s hs => ?_
      obtain ⟨a, ha, rfl⟩ := List.mem_map.mp hs
      exact plain_typedName (hall a ha)
    have hnames : UmlDraft.Plain (", ".intercalate (inherited.map Attribute.name)) := by
      refine plain_intercalate (by decide) fun s hs => ?_
      obtain ⟨a, ha, rfl⟩ := List.mem_map.mp hs
      exact plain_of_isName (hall a (List.mem_append_left own ha)).name
    rw [lines, List.append_assoc [_]]
    refine even_block (Plain.opens ?_ fun d => rfl) ?_ hclose
    · simp only [plain_append]
      exact ⟨⟨⟨⟨hi, by decide⟩, plain_of_isName hname⟩, by decide⟩, hparameters⟩
    · intro s hs
      rcases List.mem_append.mp hs with hs | hs
      · split at hs
        · cases hs
        · rw [List.mem_singleton.mp hs]
          simp only [plain_append]
          exact ⟨⟨⟨⟨hi, hi⟩, by decide⟩, hnames⟩, by decide⟩
      · obtain ⟨a, ha, rfl⟩ := List.mem_map.mp hs
        exact plain_assignment hi (hall a (List.mem_append_right inherited ha))
  | getter a =>
    have hname := plain_of_isName hb.name
    refine @even_block _ _ [_] (Plain.opens ?_ fun d => rfl) ?_ hclose
    · simp only [plain_append]
      exact ⟨⟨⟨⟨hi, by decide⟩, hb.type⟩, by decide⟩, Signature.plain_capitalize hb.name⟩
    · intro s hs
      rw [List.mem_singleton.mp hs]
      simp only [plain_append]
      exact ⟨⟨⟨⟨hi, hi⟩, by decide⟩, hname⟩, by decide⟩
  | setter a =>
    refine @even_block _ _ [_] (Plain.opens ?_ fun d => rfl) ?_ hclose
    · simp only [plain_append]
      exact ⟨⟨⟨⟨hi, by decide⟩, Signature.plain_capitalize hb.name⟩, by decide⟩, plain_typedName hb⟩
    · intro s hs
      rw [List.mem_singleton.mp hs]
      exact plain_assignment hi hb
  | signature m =>
    refine even_of_plain fun s hs => ?_
    rw [List.mem_singleton.mp hs]
    simp only [plain_append]
    exact ⟨⟨⟨⟨⟨hi, by decide⟩, hb.returnType⟩, by decide⟩, plain_call hb⟩, by decide⟩
  | abstractMethod m =>
    refine even_of_plain fun s hs => ?_
    rw [List.mem_singleton.mp hs]
    simp only [plain_append]
    exact ⟨⟨hi, plain_head hb true⟩, by decide⟩
  | stub m =>
    rw [lines, ← List.singleton_append, List.append_assoc [_]]
    refine even_block (Plain.opens ?_ fun d => rfl) ?_ hclose
    · rw [plain_append]
      exact ⟨hi, plain_head hb false⟩
    · intro s hs
      rcases List.mem_append.mp hs with hs | hs
      · rw [List.mem_singleton.mp hs]
        simp only [plain_append]
        exact ⟨⟨hi, hi⟩, by decide⟩
      · split at hs
        · cases hs
        · rw [List.mem_singleton.mp hs]
          simp only [plain_append]
          exact ⟨⟨⟨⟨hi, hi⟩, by decide⟩, Signature.plain_placeholderHelper _⟩, by decide⟩

end Block

end UmlDraft
