import UmlDraft.Proofs.Text.Split
import UmlDraft.Setup.Load

/-!
# Package names

A package name is a chain of identifiers with single dots between them. An identifier begins with an
ASCII letter, an underscore or a dollar sign and goes on with these and with digits. The pieces
between the dots of a text are checked one by one; main statement: the texts that pass are exactly
the chains.
-/

namespace UmlDraft

open Text

namespace PackageName

/-- The characters that an identifier may begin with. -/
def IsStart (c : Char) : Prop :=
  ('A' ≤ c ∧ c ≤ 'Z') ∨ ('a' ≤ c ∧ c ≤ 'z') ∨ c = '_' ∨ c = '$'

/-- The characters that an identifier may go on with. -/
def IsPart (c : Char) : Prop :=
  IsStart c ∨ ('0' ≤ c ∧ c ≤ '9')

/-- An identifier. -/
inductive Identifier : List Char → Prop where
  /-- It has a first character, and perhaps more. -/
  | intro {c : Char} {rest : List Char} (hstart : IsStart c) (hrest : ∀ d ∈ rest, IsPart d) :
    Identifier (c :: rest)

end PackageName

open PackageName

/-- A chain of identifiers with single dots between them. -/
inductive PackageName : List Char → Prop where
  /-- A single identifier. -/
  | single {w : List Char} (hw : Identifier w) : PackageName w
  /-- An identifier, a dot and a chain. -/
  | dotted {w rest : List Char} (hw : Identifier w) (hrest : PackageName rest) :
    PackageName (w ++ '.' :: rest)

namespace PackageName

variable {c : Char} {s w : List Char} {pieces : List (List Char)}

theorem isStart_iff : (isWord c && !c.isDigit || c == '$') = true ↔ IsStart c := by
  have hdigit : c.isDigit = (decide (48 ≤ c.toNat) && decide (c.toNat ≤ 57)) := rfl
  have hupper : ('A' ≤ c ∧ c ≤ 'Z') ↔ 65 ≤ c.toNat ∧ c.toNat ≤ 90 := Iff.rfl
  have hlower : ('a' ≤ c ∧ c ≤ 'z') ↔ 97 ≤ c.toNat ∧ c.toNat ≤ 122 := Iff.rfl
  have hunderscore : c = '_' ↔ c.toNat = 95 := Char.toNat_inj.symm
  have hdollar : c = '$' ↔ c.toNat = 36 := Char.toNat_inj.symm
  simp only [IsStart, hupper, hlower, isWord_eq, hdigit, Bool.or_eq_true, Bool.and_eq_true,
    Bool.not_eq_true', Bool.and_eq_false_iff, decide_eq_true_eq, decide_eq_false_iff_not,
    beq_iff_eq, hunderscore, hdollar]
  omega

theorem isPart_iff : (isWord c || c == '$') = true ↔ IsPart c := by
  have hdigit : c.isDigit = true ↔ '0' ≤ c ∧ c ≤ '9' := by
    simp only [Char.isDigit, Bool.and_eq_true, decide_eq_true_eq]
    exact Iff.rfl
  have hword : c.isDigit = true → isWord c = true := fun h => by simp [isWord, Char.isAlphanum, h]
  rw [IsPart, ← isStart_iff, ← hdigit]
  cases hd : c.isDigit with
  | true => simp [hword hd]
  | false => simp

theorem isIdentifier_iff : Config.isIdentifier w = true ↔ Identifier w := by
  cases w with
  | nil => exact iff_of_false (fun h => nomatch h) (fun h => nomatch h)
  | cons c rest =>
    simp only [Config.isIdentifier, Bool.and_eq_true, isStart_iff, List.all_eq_true, isPart_iff]
    constructor
    · rintro ⟨hstart, hrest⟩
      exact .intro hstart hrest
    · rintro ⟨hstart, hrest⟩
      exact ⟨hstart, hrest⟩

theorem not_isPart_dot : ¬ IsPart '.' := by
  rw [← isPart_iff]
  decide

/-- No dot stands in an identifier. -/
theorem Identifier.dot_not_mem (h : Identifier w) : '.' ∉ w := by
  cases h with
  | intro hstart hrest =>
    intro hmem
    rcases List.mem_cons.mp hmem with rfl | hmem
    · exact not_isPart_dot (.inl hstart)
    · exact not_isPart_dot (hrest _ hmem)

/-- Identifiers that are joined by dots make a chain. -/
theorem of_intercalate (hne : pieces ≠ []) (h : ∀ w ∈ pieces, Identifier w) :
    PackageName (['.'].intercalate pieces) := by
  induction pieces with
  | nil => exact absurd rfl hne
  | cons w pieces ih =>
    obtain ⟨hw, hpieces⟩ := List.forall_mem_cons.mp h
    by_cases hlast : pieces = []
    · rw [hlast, List.intercalate_singleton]
      exact .single hw
    · rw [List.intercalate_cons_of_ne_nil hlast, List.append_assoc]
      exact .dotted hw (ih hlast hpieces)

/-- The pieces between the dots of a chain are identifiers. -/
theorem identifier_of_mem_splitOn (h : PackageName s) : ∀ w ∈ s.splitOn '.', Identifier w := by
  induction h with
  | single hw =>
    rw [List.splitOn_eq_singleton hw.dot_not_mem]
    exact List.forall_mem_singleton.mpr hw
  | dotted hw _ ih =>
    rw [List.splitOn_append_cons_self_of_not_mem hw.dot_not_mem]
    exact List.forall_mem_cons.mpr ⟨hw, ih⟩

/-- The texts that are accepted as package names are the chains of identifiers. -/
theorem isPackageName_iff {name : String} :
    Config.isPackageName name = true ↔ PackageName name.toList := by
  simp only [Config.isPackageName, List.all_eq_true, isIdentifier_iff]
  constructor
  · intro h
    have hchain := of_intercalate (List.splitOn_ne_nil '.' name.toList) h
    rwa [List.intercalate_splitOn] at hchain
  · exact identifier_of_mem_splitOn

end PackageName

end UmlDraft
