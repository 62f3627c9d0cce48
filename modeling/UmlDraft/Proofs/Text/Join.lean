import UmlDraft.Proofs.Text.Braces

/-!
# Joined texts

Texts are joined with a separator between them, or with a line feed behind each. The characters of a
joined text are those of its parts and of the separator, and where the separator has no brace the
levels of the parts add up.
-/

namespace UmlDraft.Text

variable {separator : List Char} {texts : List (List Char)} {c : Char}

/-- A character of a joined text stands in the separator or in one of the texts. -/
theorem mem_intercalate (h : c ∈ separator.intercalate texts) :
    c ∈ separator ∨ ∃ t ∈ texts, c ∈ t := by
  induction texts with
  | nil => cases h
  | cons t texts ih =>
    by_cases he : texts = []
    · rw [he, List.intercalate_singleton] at h
      exact .inr ⟨t, List.mem_cons_self, h⟩
    · rw [List.intercalate_cons_of_ne_nil he] at h
      rcases List.mem_append.mp h with h | h
      · rcases List.mem_append.mp h with h | h
        · exact .inr ⟨t, List.mem_cons_self, h⟩
        · exact .inl h
      · rcases ih h with h | ⟨u, hu, hc⟩
        · exact .inl h
        · exact .inr ⟨u, List.mem_cons_of_mem t hu, hc⟩

/-- Every one of the texts stands in the joined text. -/
theorem infix_intercalate {t : List Char} (ht : t ∈ texts) :
    t <:+: separator.intercalate texts := by
  induction texts with
  | nil => cases ht
  | cons u texts ih =>
    by_cases he : texts = []
    · have htu : t = u := by simpa [he] using ht
      simp [he, htu]
    · rw [List.intercalate_cons_of_ne_nil he]
      rcases List.mem_cons.mp ht with rfl | ht
      · rw [List.append_assoc]
        exact (List.prefix_append t _).isInfix
      · exact (ih ht).trans (List.suffix_append _ _).isInfix

/-- Behind a line feed, a joined text has a line feed before each of its lines. -/
theorem cons_intercalate_feed (line : List Char) (lines : List (List Char)) :
    '\n' :: ['\n'].intercalate (line :: lines) = (line :: lines).flatMap ('\n' :: ·) := by
  induction lines generalizing line with
  | nil => rw [List.intercalate_singleton, List.flatMap_singleton]
  | cons next lines ih =>
    rw [List.intercalate_cons_of_ne_nil (List.cons_ne_nil _ _), List.append_assoc,
      List.singleton_append, ih]
    rfl

/-- Texts with a comma and a space between them. -/
def commaList (texts : List (List Char)) : List Char :=
  [',', ' '].intercalate texts

/-- Strings that are joined by a comma and a space make a comma separated list. -/
theorem toList_intercalate_comma (strings : List String) :
    (", ".intercalate strings).toList = commaList (strings.map String.toList) := by
  have hcomma : ", ".toList = [',', ' '] := by decide
  rw [String.toList_intercalate, hcomma, commaList]

/-- Every one of the strings stands in the joined string. -/
theorem infix_toList_intercalate {s t : String} {strings : List String} (ht : t ∈ strings) :
    t.toList <:+: (s.intercalate strings).toList := by
  rw [String.toList_intercalate]
  exact infix_intercalate (List.mem_map_of_mem ht)

@[simp] theorem commaList_singleton (t : List Char) : commaList [t] = t :=
  List.intercalate_singleton

theorem commaList_cons (t : List Char) (hne : texts ≠ []) :
    commaList (t :: texts) = t ++ ',' :: ' ' :: commaList texts := by
  rw [commaList, List.intercalate_cons_of_ne_nil hne, List.append_assoc]
  rfl

/-- A list begins with its first text. -/
theorem commaList_eq_append (t : List Char) (texts : List (List Char)) :
    ∃ more, commaList (t :: texts) = t ++ more := by
  by_cases hne : texts = []
  · exact ⟨[], by rw [hne, commaList_singleton, List.append_nil]⟩
  · exact ⟨_, commaList_cons t hne⟩

/-- What holds of the comma, the space and the characters of the texts holds of those of the list.
-/
theorem forall_mem_commaList {p : Char → Prop} (hcomma : p ',') (hspace : p ' ')
    (h : ∀ t ∈ texts, ∀ c ∈ t, p c) : ∀ c ∈ commaList texts, p c := by
  intro c hc
  rcases mem_intercalate hc with hc | ⟨t, ht, hc⟩
  · rw [List.mem_cons, List.mem_singleton] at hc
    rcases hc with rfl | rfl
    · exact hcomma
    · exact hspace
  · exact h t ht c hc

/-- The level behind a list of texts. -/
def levelAll? (depth : Nat) (texts : List (List Char)) : Option Nat :=
  texts.foldlM level? depth

@[simp] theorem levelAll?_nil (d : Nat) : levelAll? d [] = some d := rfl

@[simp] theorem levelAll?_cons (d : Nat) (t : List Char) (texts : List (List Char)) :
    levelAll? d (t :: texts) = (level? d t).bind fun e => levelAll? e texts :=
  List.foldlM_cons

theorem levelAll?_append (d : Nat) (s t : List (List Char)) :
    levelAll? d (s ++ t) = (levelAll? d s).bind fun e => levelAll? e t :=
  List.foldlM_append

/-- A separator without braces leaves the levels of the texts alone. -/
theorem level?_intercalate (ho : '{' ∉ separator) (hc : '}' ∉ separator) (d : Nat)
    (texts : List (List Char)) : level? d (separator.intercalate texts) = levelAll? d texts := by
  induction texts generalizing d with
  | nil => simp [List.intercalate_nil]
  | cons t texts ih =>
    by_cases he : texts = []
    · rw [he, List.intercalate_singleton, levelAll?_cons]
      cases level? d t <;> rfl
    · rw [List.intercalate_cons_of_ne_nil he, level?_append, level?_append, levelAll?_cons,
        Option.bind_assoc]
      refine congrArg (Option.bind _) (funext fun e => ?_)
      rw [level?_of_braceless ho hc, Option.bind_some, ih]

/-- Texts with a line feed behind each. -/
def lines (texts : List (List Char)) : List Char :=
  texts.flatMap (· ++ ['\n'])

theorem lines_append (s t : List (List Char)) : lines (s ++ t) = lines s ++ lines t :=
  List.flatMap_append

@[simp] theorem lines_cons (t : List Char) (texts : List (List Char)) :
    lines (t :: texts) = t ++ '\n' :: lines texts := by
  rw [lines, List.flatMap_cons, List.append_assoc, List.singleton_append]
  rfl

/-- A character of a text of lines is a line feed or stands in a line. -/
theorem mem_lines (h : c ∈ lines texts) : c = '\n' ∨ ∃ t ∈ texts, c ∈ t := by
  obtain ⟨t, ht, hc⟩ := List.mem_flatMap.mp h
  rcases List.mem_append.mp hc with hc | hc
  · exact .inr ⟨t, ht, hc⟩
  · exact .inl (List.mem_singleton.mp hc)

/-- Every line ends with its own line feed. -/
theorem count_lines (h : ∀ t ∈ texts, '\n' ∉ t) : (lines texts).count '\n' = texts.length := by
  induction texts with
  | nil => rfl
  | cons t texts ih =>
    have ht : t.count '\n' = 0 := List.count_eq_zero.mpr (h t List.mem_cons_self)
    rw [lines_cons, List.count_append, ht, List.count_cons_self,
      ih fun u hu => h u (List.mem_cons_of_mem t hu), List.length_cons, Nat.zero_add]

/-- Line feeds leave the levels of the texts alone. -/
theorem level?_lines (d : Nat) (texts : List (List Char)) :
    level? d (lines texts) = levelAll? d texts := by
  induction texts generalizing d with
  | nil => rw [lines, List.flatMap_nil, level?_nil, levelAll?_nil]
  | cons t texts ih =>
    rw [lines_cons, level?_append, levelAll?_cons]
    refine congrArg (Option.bind _) (funext fun e => ?_)
    rw [level?_cons_of_ne (by decide) (by decide), ih]

/-- Balanced lines make a balanced text. -/
theorem balanced_lines (h : ∀ t ∈ texts, Balanced t) : Balanced (lines texts) := by
  rw [balanced_iff, level?_lines]
  induction texts with
  | nil => rfl
  | cons t texts ih =>
    rw [levelAll?_cons, (h t List.mem_cons_self).level?, Option.bind_some]
    exact ih fun u hu => h u (List.mem_cons_of_mem t hu)

/-- Joining with line feeds leaves out the last of them. -/
theorem intercalate_append_feed (hne : texts ≠ []) :
    ['\n'].intercalate texts ++ ['\n'] = lines texts := by
  induction texts with
  | nil => exact absurd rfl hne
  | cons t texts ih =>
    by_cases he : texts = []
    · rw [he, List.intercalate_singleton, lines_cons]
      rfl
    · rw [List.intercalate_cons_of_ne_nil he, List.append_assoc, ih he, lines_cons,
        List.append_assoc, List.singleton_append]

end UmlDraft.Text
