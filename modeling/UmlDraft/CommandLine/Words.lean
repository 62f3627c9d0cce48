import UmlDraft.CommandLine.Flag

/-!
# Words of a command line

A list of words is read from left to right by those who know some of the flags. A word sets a flag,
names an operand, or looks like a flag that is not known; from the first unknown word on, whatever
is not understood is left over for others. The word `--` ends the reading, and what follows it is
taken as it stands. Main statement: only flags that are known are ever set.

The program leaves the reading of its words to an argument library. What that library documents is
taken over here as a definition:

* a flag with a value may have it in the next word, whatever that word looks like, behind an equals
  sign if the flag is long, or attached if it is a letter;
* letters of flags without a value may share one dash, and the rest of the word is read on;
* a lone dash is an operand, and so is every word behind `--`;
* with the first word that looks like a flag but is none, everything that is not understood is kept
  back in its order, the word `--` included, and flags that are known are still set.
-/

namespace UmlDraft

/-- A flag that was set, with its value. -/
structure Setting where
  /-- The flag. -/
  flag : Flag
  /-- Its value, if it takes one. -/
  value : Option String := none
  deriving DecidableEq, Repr

namespace Words

/-- What one word says. -/
inductive Reading where
  /-- It sets a flag. -/
  | sets (s : Setting)
  /-- It sets a flag whose value is the next word. -/
  | asks (f : Flag)
  /-- It sets a flag without a value, and the rest of it is another word. -/
  | bundle (f : Flag) (more : String)
  /-- It looks like a flag but is none. -/
  | unknown
  /-- It does not look like a flag. -/
  | operand
  /-- It ends the reading. -/
  | terminator
  deriving DecidableEq, Repr

/-- Whether a word looks like a flag: a lone dash does not. -/
def looksLikeFlag (word : String) : Bool :=
  match word.toList with
  | '-' :: _ :: _ => true
  | _ => false

/-- Reads a word of one dash that begins with the letter of a known flag. If the flag takes a value,
the rest of the word is that value. -/
def readBundle? (known : List Flag) : List Char → Option Reading
  | '-' :: c :: d :: more =>
    if c = '-' then none
    else
      (known.find? fun f => f.letter? = some c).map fun f =>
        if f.takesValue then .sets ⟨f, some (.ofList (d :: more))⟩
        else .bundle f (.ofList ('-' :: d :: more))
  | _ => none

/-- Reads a word that gives a value behind an equals sign. -/
def readAssignment? (known : List Flag) (word : List Char) : Option Reading :=
  let name := word.takeWhile (· ≠ '=')
  match word.dropWhile (· ≠ '=') with
  | _ :: value =>
    (known.find? fun f => f.takesValue && f.long.toList == name).map fun f =>
      .sets ⟨f, some (.ofList value)⟩
  | [] => none

/-- What a word says to those who know the given flags. -/
def read (known : List Flag) (word : String) : Reading :=
  if word = "--" then .terminator
  else
    match known.find? (·.isForm word) with
    | some f => if f.takesValue then .asks f else .sets ⟨f, none⟩
    | none =>
      match readBundle? known word.toList with
      | some reading => reading
      | none =>
        match readAssignment? known word.toList with
        | some reading => reading
        | none => if looksLikeFlag word then .unknown else .operand

/-- The rest of a bundle is shorter than the bundle. -/
theorem length_readBundle? {known : List Flag} {word : List Char} {f : Flag} {more : String}
    (h : readBundle? known word = some (.bundle f more)) : more.length < word.length := by
  unfold readBundle? at h
  split at h
  · split at h
    · cases h
    · obtain ⟨g, -, hg⟩ := Option.map_eq_some_iff.1 h
      split at hg
      · cases hg
      · cases hg
        rw [String.length_ofList]
        simp
  · cases h

theorem length_read {known : List Flag} {word : String} {f : Flag} {more : String}
    (h : read known word = .bundle f more) : more.length < word.length := by
  unfold read at h
  split at h
  · cases h
  · split at h
    · split at h <;> cases h
    · split at h
      · next r hr =>
        subst h
        rw [← String.length_toList]
        exact length_readBundle? hr
      · split at h
        · next r hr =>
          subst h
          unfold readAssignment? at hr
          simp only at hr
          split at hr
          · obtain ⟨g, -, hg⟩ := Option.map_eq_some_iff.1 hr
            cases hg
          · cases hr
        · split at h <;> cases h

end Words

/-- What a list of words says. -/
structure Words where
  /-- The flags that were set, in order. -/
  settings : List Setting := []
  /-- The operands before the first unknown word. -/
  operands : List String := []
  /-- The first unknown word, and what follows it without being understood. -/
  leftover : List String := []
  /-- The flag whose value was still to come when the words ended. -/
  unfinished : Option Flag := none
  deriving DecidableEq, Repr

namespace Words

/-- What words say with one more setting before them. -/
def set (s : Setting) (w : Words) : Words :=
  { w with settings := s :: w.settings }

/-- What words say with one more word before them that sets nothing. -/
def put (estranged : Bool) (word : String) (w : Words) : Words :=
  if estranged then { w with leftover := word :: w.leftover }
  else { w with operands := word :: w.operands }

/-- How much there is to read: the words and all their characters. -/
def weight : List String → Nat
  | [] => 0
  | word :: rest => word.length + 1 + weight rest

theorem weight_lt_cons (word : String) (rest : List String) :
    weight rest < weight (word :: rest) := by
  simp only [weight]
  omega

set_option linter.unusedVariables false in
/-- Reads words for those who know the given flags. `estranged` says whether an unknown word came
before. -/
def scan (known : List Flag) (estranged : Bool) (words : List String) : Words :=
  match words with
  | [] => {}
  | word :: rest =>
    match h : read known word with
    | .sets s => (scan known estranged rest).set s
    | .asks f =>
      match rest with
      | [] => { unfinished := some f }
      | value :: rest => (scan known estranged rest).set ⟨f, some value⟩
    | .bundle f more => (scan known estranged (more :: rest)).set ⟨f, none⟩
    | .unknown => (scan known true rest).put true word
    | .operand => (scan known estranged rest).put estranged word
    | .terminator => if estranged then { leftover := word :: rest } else { operands := rest }
termination_by weight words
decreasing_by
  · exact weight_lt_cons word rest
  · exact Nat.lt_trans (weight_lt_cons _ _) (weight_lt_cons _ _)
  · have := length_read h
    simp only [weight]
    omega
  · exact weight_lt_cons word rest
  · exact weight_lt_cons word rest

/-- A setting, or the flag that asks for the next word, is of a known flag. -/
theorem mem_known_of_read {known : List Flag} {word : String} {f : Flag}
    (h : (∃ v, read known word = .sets ⟨f, v⟩) ∨ read known word = .asks f ∨
      ∃ more, read known word = .bundle f more) : f ∈ known := by
  unfold read at h
  split at h
  · simp at h
  · split at h
    · next g hg =>
      have hm := List.mem_of_find?_eq_some hg
      split at h <;> simp_all
    · split at h
      · next r hr =>
        unfold readBundle? at hr
        split at hr
        · split at hr
          · cases hr
          · obtain ⟨g, hg, he⟩ := Option.map_eq_some_iff.1 hr
            have hm := List.mem_of_find?_eq_some hg
            subst he
            split at h <;> simp_all
        · cases hr
      · split at h
        · next r hr =>
          unfold readAssignment? at hr
          simp only at hr
          split at hr
          · obtain ⟨g, hg, he⟩ := Option.map_eq_some_iff.1 hr
            have hm := List.mem_of_find?_eq_some hg
            subst he
            simp_all
          · cases hr
        · split at h <;> simp at h

/-- Only known flags are set. -/
theorem mem_known_of_mem_settings {known : List Flag} {estranged : Bool} {words : List String}
    {s : Setting} (h : s ∈ (scan known estranged words).settings) : s.flag ∈ known := by
  fun_induction scan known estranged words with
  | case1 => simp at h
  | case2 estranged word rest t hr ih =>
    rcases List.mem_cons.1 h with rfl | h
    · exact mem_known_of_read (.inl ⟨_, hr⟩)
    · exact ih h
  | case3 => simp at h
  | case4 estranged word f hr value rest ih =>
    rcases List.mem_cons.1 h with rfl | h
    · exact mem_known_of_read (.inr (.inl hr))
    · exact ih h
  | case5 estranged word rest f more hr ih =>
    rcases List.mem_cons.1 h with rfl | h
    · exact mem_known_of_read (.inr (.inr ⟨_, hr⟩))
    · exact ih h
  | case6 estranged word rest hr ih => exact ih h
  | case7 estranged word rest hr ih =>
    refine ih ?_
    unfold put at h
    split at h <;> exact h
  | case8 | case9 => simp at h

end Words

end UmlDraft
