import UmlDraft.Proofs.Diagram.Occurrence

/-!
# The grammar of clauses

Between its name and its brace a header may say `extends` one name and `implements` a list of names
with commas between them. A keyword announces what stands behind it and a gap, and it counts where
no word is under way before it. What clauses say is what the first keyword announces, taken as far
as it goes. Main statements: a parent is read exactly where the clauses extend it, and a list of
interfaces exactly where they implement it.
-/

namespace UmlDraft.Header

open Text Outline

/-- Names with a comma between each two of them, and blanks, if any, on either side of it. -/
inductive NameList : List (List Char) → List Char → Prop
  /-- One name. -/
  | single {name : List Char} (hn : IsName name) : NameList [name] name
  /-- A name, a comma, and further names. -/
  | more {name before after text : List Char} {names : List (List Char)} (hn : IsName name)
      (hb : ∀ c ∈ before, isBlank c = true) (ha : ∀ c ∈ after, isBlank c = true)
      (hl : NameList names text) :
      NameList (name :: names) (name ++ (before ++ ',' :: (after ++ text)))

/-- Behind a front of the clauses a keyword and a gap announce a text of a form. -/
structure Announces (keyword : String) (form : List Char → Prop)
    (clauses front text : List Char) : Prop where
  /-- No word is under way where the keyword begins. -/
  free : ∀ c ∈ front.getLast?, isWord c = false
  /-- The keyword, a gap and the text stand behind the front. -/
  stands : ∃ gap rest, IsGap gap ∧ clauses = front ++ (keyword.toList ++ (gap ++ (text ++ rest)))
  /-- The text has the form. -/
  formed : form text

/-- What a keyword announces at its first place, as far as it goes. -/
structure Takes (keyword : String) (form : List Char → Prop) (clauses front text : List Char) :
    Prop where
  /-- The text is announced. -/
  announces : Announces keyword form clauses front text
  /-- Nothing is announced further in front. -/
  first : ∀ front' text', Announces keyword form clauses front' text' →
    front.length ≤ front'.length
  /-- Nothing longer is announced there. -/
  longest : ∀ text', Announces keyword form clauses front text' → text' <+: text

/-- A text begins with another, and with none of the same form that is longer. -/
structure LongestIn (form : List Char → Prop) (s text : List Char) : Prop where
  /-- The text begins with the other. -/
  starts : text <+: s
  /-- The other has the form. -/
  formed : form text
  /-- Whatever of the form the text begins with goes no further. -/
  longest : ∀ text', form text' → text' <+: s → text' <+: text

/-- The clauses say that a name is extended, or that none is. -/
inductive Extends (clauses : List Char) : Option (List Char) → Prop
  /-- The name behind `extends`. -/
  | parent {front name : List Char} (h : Takes "extends" IsName clauses front name) :
      Extends clauses (some name)
  /-- No name stands behind `extends`. -/
  | nothing (h : ∀ front name, ¬ Announces "extends" IsName clauses front name) :
      Extends clauses none

/-- The clauses say that names are implemented, in order. -/
inductive Implements (clauses : List Char) : List (List Char) → Prop
  /-- The names of the list behind `implements`. -/
  | interfaces {front text : List Char} {names : List (List Char)}
      (h : Takes "implements" (∃ names, NameList names ·) clauses front text)
      (hl : NameList names text) : Implements clauses names
  /-- No list of names stands behind `implements`. -/
  | nothing (h : ∀ front text,
      ¬ Announces "implements" (∃ names, NameList names ·) clauses front text) :
      Implements clauses []

section Lists

variable {names : List (List Char)} {s text next rest : List Char}

theorem wordList_eq (s : List Char) : wordList s = leadingWord s ::
    match afterComma? (afterWord s) with
    | some next => wordList next
    | none => [] := by
  rw [wordList]
  split
  · next next h => rw [h]
  · next h => rw [h]

theorem leadingWord_ne_nil {name : List Char} (hn : IsName name) (rest : List Char) :
    leadingWord (name ++ rest) ≠ [] := by
  rw [leadingWord, List.takeWhile_append_of_pos hn.word]
  exact List.append_ne_nil_of_left_ne_nil hn.ne_nil _

/-- A list of names begins with a name. -/
theorem NameList.exists_name (h : NameList names text) :
    ∃ name more, IsName name ∧ text = name ++ more := by
  cases h with
  | single hn => exact ⟨text, [], hn, (List.append_nil text).symm⟩
  | more hn => exact ⟨_, _, hn, rfl⟩

theorem NameList.leadingWord_ne_nil (h : NameList names text) (rest : List Char) :
    leadingWord (text ++ rest) ≠ [] := by
  obtain ⟨name, more, hn, rfl⟩ := h.exists_name
  rw [List.append_assoc]
  exact Header.leadingWord_ne_nil hn _

theorem NameList.stops_isBlank (h : NameList names text) : Stops isBlank (text ++ rest) := by
  obtain ⟨name, more, hn, rfl⟩ := h.exists_name
  rw [List.append_assoc]
  exact hn.stops_isBlank

/-- A text that begins with a word does not begin with a blank. -/
theorem stops_isBlank_of_leadingWord (h : leadingWord s ≠ []) : Stops isBlank s := by
  have hstops : Stops isBlank (leadingWord s ++ afterWord s) := (isName_leadingWord h).stops_isBlank
  rwa [leadingWord_append_afterWord] at hstops

/-- A list goes on exactly behind a comma, blanks or not on either side, with a word behind it. -/
theorem afterComma?_eq_some_iff : afterComma? s = some next ↔
    ∃ before after, (∀ c ∈ before, isBlank c = true) ∧ (∀ c ∈ after, isBlank c = true) ∧
      s = before ++ ',' :: (after ++ next) ∧ leadingWord next ≠ [] := by
  constructor
  · intro h
    unfold afterComma? at h
    split at h
    · next rest hs =>
      split at h
      · cases h
      · next hw =>
        cases h
        refine ⟨s.takeWhile isBlank, rest.takeWhile isBlank, fun _ => mem_takeWhile,
          fun _ => mem_takeWhile, ?_, hw⟩
        rw [skipBlanks, List.takeWhile_append_dropWhile, ← hs, skipBlanks,
          List.takeWhile_append_dropWhile]
    · cases h
  · rintro ⟨before, after, hb, ha, rfl, hw⟩
    have hskip : skipBlanks (after ++ next) = next :=
      skipBlanks_run ha (stops_isBlank_of_leadingWord hw)
    rw [afterComma?, skipBlanks_run hb (stops_cons.mpr (by decide))]
    simp only [hskip, if_neg hw]

/-- Behind a name and blanks a comma ends the name. -/
theorem stops_isWord_comma {before : List Char} (hb : ∀ c ∈ before, isBlank c = true)
    (rest : List Char) : Stops isWord (before ++ ',' :: rest) := by
  cases before with
  | nil => exact stops_cons.mpr (by decide)
  | cons c before => exact stops_cons.mpr (isWord_of_isBlank (hb c List.mem_cons_self))

/-- The names of a list are read from it. -/
theorem NameList.wordList_eq (h : NameList names text) : wordList text = names := by
  induction h with
  | @single name hn =>
    have hword : leadingWord name = name := by
      simpa using leadingWord_run hn.word stops_nil
    have hrest : afterWord name = [] := by
      simpa using afterWord_run hn.word stops_nil
    rw [Header.wordList_eq, hword, hrest]
    rfl
  | @more name before after text names hn hb ha hl ih =>
    have hnext : afterComma? (before ++ ',' :: (after ++ text)) = some text := by
      refine afterComma?_eq_some_iff.mpr ⟨before, after, hb, ha, rfl, ?_⟩
      simpa using hl.leadingWord_ne_nil []
    rw [Header.wordList_eq, leadingWord_run hn.word (stops_isWord_comma hb _),
      afterWord_run hn.word (stops_isWord_comma hb _), hnext]
    simp only [ih]

/-- A name is the longest with which a text begins if it is the whole leading word. -/
theorem longestIn_leadingWord (hw : leadingWord s ≠ []) : LongestIn IsName s (leadingWord s) where
  starts := ⟨afterWord s, leadingWord_append_afterWord s⟩
  formed := isName_leadingWord hw
  longest := by
    rintro text' hn ⟨rest, he⟩
    exact run_prefix (he.trans (leadingWord_append_afterWord s).symm) hn.word
      (stops_dropWhile isWord s)

/-- A list with which a text begins has the leading word for its first name. It has no further
names, or it goes on behind the first name. -/
theorem NameList.starts_cases (h : NameList names text) (hs : s = text ++ rest) :
    text <+: leadingWord s ∨
      ∃ before after tail more, (∀ c ∈ before, isBlank c = true) ∧
        (∀ c ∈ after, isBlank c = true) ∧ NameList more tail ∧
        text = leadingWord s ++ (before ++ ',' :: (after ++ tail)) ∧
        afterWord s = before ++ ',' :: (after ++ (tail ++ rest)) := by
  cases h with
  | single hn =>
    have he := hs.symm.trans (leadingWord_append_afterWord s).symm
    exact Or.inl <| run_prefix he hn.word (stops_dropWhile isWord s)
  | @more name before after tail more hn hb ha hl =>
    have he : s = name ++ (before ++ ',' :: (after ++ (tail ++ rest))) := by
      simpa only [List.append_assoc, List.cons_append] using hs
    have hstop := stops_isWord_comma hb (after ++ (tail ++ rest))
    refine .inr ⟨before, after, tail, more, hb, ha, hl, ?_, ?_⟩
    · rw [he, leadingWord_run hn.word hstop]
    · rw [he, afterWord_run hn.word hstop]

/-- The words that are read from a text are those of the longest list that it begins with. -/
theorem exists_longestIn_wordList (hw : leadingWord s ≠ []) :
    ∃ text, LongestIn (∃ names, NameList names ·) s text ∧ NameList (wordList s) text := by
  induction hlen : s.length using Nat.strongRecOn generalizing s with
  | ind n ih =>
    subst hlen
    have hname := isName_leadingWord hw
    cases hcomma : afterComma? (afterWord s) with
    | none =>
      have hlist : wordList s = [leadingWord s] := by rw [Header.wordList_eq, hcomma]
      refine ⟨leadingWord s, ⟨⟨afterWord s, leadingWord_append_afterWord s⟩,
        ⟨_, .single hname⟩, ?_⟩, hlist ▸ .single hname⟩
      rintro text' ⟨names, hl⟩ ⟨rest, he⟩
      rcases hl.starts_cases he.symm with hp | ⟨before, after, tail, more, hb, ha, hl', -, hafter⟩
      · exact hp
      · have hgoes := afterComma?_eq_some_iff.mpr
          ⟨before, after, hb, ha, hafter, hl'.leadingWord_ne_nil rest⟩
        rw [hcomma] at hgoes
        cases hgoes
    | some next =>
      obtain ⟨before, after, hb, ha, hafter, hnext⟩ := afterComma?_eq_some_iff.mp hcomma
      have hlt : next.length < s.length :=
        Nat.lt_of_lt_of_le (length_afterComma? hcomma) (length_afterWord_le s)
      obtain ⟨text, ⟨⟨rest, htext⟩, -, hlong⟩, hl⟩ := ih next.length hlt hnext rfl
      have hlist : wordList s = leadingWord s :: wordList next := by rw [Header.wordList_eq, hcomma]
      have hwhole : NameList (wordList s)
          (leadingWord s ++ (before ++ ',' :: (after ++ text))) := hlist ▸ .more hname hb ha hl
      refine ⟨_, ⟨⟨rest, ?_⟩, ⟨_, hwhole⟩, ?_⟩, hwhole⟩
      · conv => rhs; rw [← leadingWord_append_afterWord s, hafter, ← htext]
        simp only [List.append_assoc, List.cons_append]
      · rintro text' ⟨names, hl'⟩ ⟨rest', he⟩
        rcases hl'.starts_cases he.symm with
          hp | ⟨before', after', tail, more, hb', ha', htail, rfl, hafter'⟩
        · exact hp.trans (List.prefix_append _ _)
        · -- The reader goes on at the same place, so the rest of the list is a list there.
          have hsame := afterComma?_eq_some_iff.mpr
            ⟨before', after', hb', ha', hafter', htail.leadingWord_ne_nil rest'⟩
          rw [hcomma, Option.some.injEq] at hsame
          have hnoComma : ∀ {blanks : List Char}, (∀ c ∈ blanks, isBlank c = true) →
              ',' ∉ blanks := fun h => not_mem_of_run h (by decide)
          obtain ⟨rfl, hbehind⟩ :=
            split_first (hafter'.symm.trans hafter) (hnoComma hb') (hnoComma hb)
          rw [← hsame, List.append_cancel_right_eq] at hbehind
          subst hbehind
          obtain ⟨last, rfl⟩ := hlong tail ⟨more, htail⟩ ⟨rest', hsame.symm⟩
          exact ⟨last, by simp only [List.append_assoc, List.cons_append]⟩

end Lists

section Search

variable {keyword : String} {f : Bool} {c d : Char} {s front target clauses : List Char}

/-- Behind a front a keyword counts, with a gap and then a target that begins with a word. -/
structure Targets (keyword : String) (f : Bool) (s front target : List Char) : Prop where
  /-- No word is under way where the keyword begins. -/
  free : wordBehind f front = false
  /-- The keyword, a gap and the target stand behind the front. -/
  stands : ∃ gap, IsGap gap ∧ s = front ++ (keyword.toList ++ (gap ++ target))
  /-- The target begins with a word. -/
  word : leadingWord target ≠ []

theorem targets_nil : Targets keyword f s [] target ↔
    f = false ∧ afterKeyword? keyword s = some target ∧ leadingWord target ≠ [] := by
  constructor
  · rintro ⟨hf, ⟨gap, hg, hs⟩, hw⟩
    exact ⟨hf, afterKeyword?_eq_some_iff.mpr ⟨gap, hg, hs, stops_isBlank_of_leadingWord hw⟩, hw⟩
  · rintro ⟨hf, hk, hw⟩
    obtain ⟨gap, hg, hs, -⟩ := afterKeyword?_eq_some_iff.mp hk
    exact ⟨hf, ⟨gap, hg, hs⟩, hw⟩

theorem targets_cons : Targets keyword f (c :: s) (d :: front) target ↔
    c = d ∧ Targets keyword (isWord c) s front target := by
  constructor
  · rintro ⟨hf, ⟨gap, hg, hs⟩, hw⟩
    obtain ⟨rfl, rfl⟩ := List.cons.inj hs
    exact ⟨rfl, hf, ⟨gap, hg, rfl⟩, hw⟩
  · rintro ⟨rfl, hf, ⟨gap, hg, rfl⟩, hw⟩
    exact ⟨hf, ⟨gap, hg, rfl⟩, hw⟩

/-- No keyword counts in a text without characters, as a gap would have to be in it. -/
theorem not_targets_nil : ¬ Targets keyword f [] front target := by
  rintro ⟨-, ⟨gap, hg, hs⟩, -⟩
  have hnil : gap ++ target = [] :=
    (List.append_eq_nil_iff.mp (List.append_eq_nil_iff.mp hs.symm).2).2
  exact hg.ne_nil (List.append_eq_nil_iff.mp hnil).1

/-- A search finds the target where it stands, or else what it finds further on. -/
theorem findKeyword?_cases (keyword : String) (f : Bool) (c : Char) (s : List Char) :
    (∃ target, Targets keyword f (c :: s) [] target ∧
        findKeyword? keyword f (c :: s) = some target) ∨
      (∀ target, ¬ Targets keyword f (c :: s) [] target) ∧
        findKeyword? keyword f (c :: s) = findKeyword? keyword (isWord c) s := by
  rw [findKeyword?]
  split
  · next target hfound =>
    obtain ⟨rfl, hk⟩ := eq_some_of_ite hfound
    split
    · next hempty =>
      refine .inr ⟨fun target' ht => ?_, rfl⟩
      obtain ⟨-, hk', hw⟩ := targets_nil.mp ht
      rw [hk, Option.some.injEq] at hk'
      exact hw (hk' ▸ hempty)
    · next hw => exact .inl ⟨target, targets_nil.mpr ⟨rfl, hk, hw⟩, rfl⟩
  · next hk =>
    refine .inr ⟨fun target ht => ?_, rfl⟩
    obtain ⟨rfl, hk', -⟩ := targets_nil.mp ht
    rw [if_neg Bool.false_ne_true, hk'] at hk
    cases hk

/-- What the search finds is the target behind the first place where the keyword counts. -/
theorem first_of_findKeyword? (h : findKeyword? keyword f s = some target) :
    ∃ front, Targets keyword f s front target ∧
      ∀ front' target', Targets keyword f s front' target' → front.length ≤ front'.length := by
  induction s generalizing f with
  | nil => cases h
  | cons c s ih =>
    rcases findKeyword?_cases keyword f c s with ⟨here, ht, he⟩ | ⟨hnot, he⟩
    · rw [he, Option.some.injEq] at h
      exact ⟨[], h ▸ ht, fun _ _ _ => Nat.zero_le _⟩
    · obtain ⟨front, ht, hfirst⟩ := ih (he ▸ h)
      refine ⟨c :: front, targets_cons.mpr ⟨rfl, ht⟩, fun front' target' ht' => ?_⟩
      cases front' with
      | nil => exact absurd ht' (hnot target')
      | cons d front' => exact Nat.succ_le_succ (hfirst front' target' (targets_cons.mp ht').2)

/-- Where the search fails, the keyword counts nowhere. -/
theorem not_targets_of_findKeyword? (h : findKeyword? keyword f s = none)
    (front target : List Char) : ¬ Targets keyword f s front target := by
  induction s generalizing f front with
  | nil => exact not_targets_nil
  | cons c s ih =>
    rcases findKeyword?_cases keyword f c s with ⟨here, -, he⟩ | ⟨hnot, he⟩
    · rw [he] at h
      cases h
    · cases front with
      | nil => exact hnot target
      | cons d front => exact fun ht => ih (he ▸ h) front (targets_cons.mp ht).2

variable {form : List Char → Prop} {text : List Char}

/-- What is taken is unique. -/
theorem Takes.unique {front' text' : List Char} (h : Takes keyword form clauses front text)
    (h' : Takes keyword form clauses front' text') : text = text' := by
  obtain ⟨gap, rest, -, hs⟩ := h.announces.stands
  obtain ⟨gap', rest', -, hs'⟩ := h'.announces.stands
  have hlen : front.length = front'.length :=
    Nat.le_antisymm (h.first _ _ h'.announces) (h'.first _ _ h.announces)
  have hfront : front = front' := by
    have := congrArg (List.take front.length) (hs.symm.trans hs')
    rwa [List.take_left, hlen, List.take_left] at this
  subst hfront
  have hle := h.longest _ h'.announces
  exact ((h'.longest _ h.announces).eq_of_length_le hle.length_le)

/-- What a keyword announces begins its target, if all texts of the form begin with a word. -/
theorem Announces.exists_targets (hform : ∀ t, form t → ∀ rest, leadingWord (t ++ rest) ≠ [])
    (h : Announces keyword form clauses front text) :
    ∃ rest, Targets keyword false clauses front (text ++ rest) := by
  obtain ⟨hfree, ⟨gap, rest, hg, hs⟩, hf⟩ := h
  exact ⟨rest, wordBehind_false_iff.mpr hfree, ⟨gap, hg, hs⟩, hform text hf rest⟩

/-- Behind one front there is one target, as a gap ends where the word behind it begins. -/
theorem Targets.unique {target' : List Char} (h : Targets keyword f s front target)
    (h' : Targets keyword f s front target') : target = target' := by
  obtain ⟨gap, hg, hs⟩ := h.stands
  obtain ⟨gap', hg', hs'⟩ := h'.stands
  have hbehind := List.append_cancel_left (List.append_cancel_left (hs.symm.trans hs'))
  have hskip := congrArg skipBlanks hbehind
  rwa [skipBlanks_run hg.blank (stops_isBlank_of_leadingWord h.word),
    skipBlanks_run hg'.blank (stops_isBlank_of_leadingWord h'.word)] at hskip

/-- A keyword takes the longest text of a form behind the place that the search finds. -/
theorem exists_takes (hform : ∀ t, form t → ∀ rest, leadingWord (t ++ rest) ≠ [])
    (h : findKeyword? keyword false clauses = some target) (hl : LongestIn form target text) :
    ∃ front, Takes keyword form clauses front text := by
  obtain ⟨front, ht, hfirst⟩ := first_of_findKeyword? h
  obtain ⟨rest, rfl⟩ := hl.starts
  obtain ⟨gap, hg, hs⟩ := ht.stands
  refine ⟨front, ⟨wordBehind_false_iff.mp ht.free, ⟨gap, rest, hg, hs⟩, hl.formed⟩, ?_, ?_⟩
  · intro front' text' ha
    obtain ⟨rest', ht'⟩ := ha.exists_targets hform
    exact hfirst front' _ ht'
  · intro text' ha
    obtain ⟨rest', ht'⟩ := ha.exists_targets hform
    exact hl.longest text' ha.formed ⟨rest', ht'.unique ht⟩

/-- Where the search for a keyword fails, the keyword announces nothing. -/
theorem not_announces (hform : ∀ t, form t → ∀ rest, leadingWord (t ++ rest) ≠ [])
    (h : findKeyword? keyword false clauses = none) (front text : List Char) :
    ¬ Announces keyword form clauses front text := by
  intro ha
  obtain ⟨rest, ht⟩ := ha.exists_targets hform
  exact not_targets_of_findKeyword? h front _ ht

end Search

section Readers

variable {clauses : List Char}

theorem extends_parent? (h : Header) : Extends h.clauses h.parent? := by
  have hform : ∀ t, IsName t → ∀ rest, leadingWord (t ++ rest) ≠ [] :=
    fun t hn => leadingWord_ne_nil hn
  cases hk : findKeyword? "extends" false h.clauses with
  | none =>
    rw [parent?, hk]
    exact .nothing (not_announces hform hk)
  | some target =>
    obtain ⟨_, htarget, -⟩ := first_of_findKeyword? hk
    obtain ⟨front, ht⟩ := exists_takes hform hk (longestIn_leadingWord htarget.word)
    rw [parent?, hk]
    exact .parent ht

theorem implements_interfaces (h : Header) : Implements h.clauses h.interfaces := by
  have hform : ∀ t, (∃ names, NameList names t) → ∀ rest, leadingWord (t ++ rest) ≠ [] :=
    fun t ⟨_, hl⟩ => hl.leadingWord_ne_nil
  cases hk : findKeyword? "implements" false h.clauses with
  | none =>
    rw [interfaces, hk]
    exact .nothing (not_announces hform hk)
  | some target =>
    obtain ⟨_, htarget, -⟩ := first_of_findKeyword? hk
    obtain ⟨text, hlong, hl⟩ := exists_longestIn_wordList htarget.word
    obtain ⟨front, ht⟩ := exists_takes hform hk hlong
    rw [interfaces, hk]
    exact .interfaces ht hl

/-- Clauses extend at most one name. -/
theorem Extends.unique {p q : Option (List Char)} (hp : Extends clauses p)
    (hq : Extends clauses q) : p = q := by
  cases hp with
  | parent h =>
    cases hq with
    | parent h' => rw [h.unique h']
    | nothing h' => exact absurd h.announces (h' _ _)
  | nothing h =>
    cases hq with
    | parent h' => exact absurd h'.announces (h _ _)
    | nothing => rfl

/-- Clauses implement one list of names, which may be empty. -/
theorem Implements.unique {names names' : List (List Char)} (h : Implements clauses names)
    (h' : Implements clauses names') : names = names' := by
  cases h with
  | interfaces ht hl =>
    cases h' with
    | interfaces ht' hl' =>
      obtain rfl := ht.unique ht'
      exact hl.wordList_eq.symm.trans hl'.wordList_eq
    | nothing hn => exact absurd ht.announces (hn _ _)
  | nothing hn =>
    cases h' with
    | interfaces ht' => exact absurd ht'.announces (hn _ _)
    | nothing => rfl

/-- The parent that is read is the name that the clauses extend. -/
theorem parent?_eq_iff {h : Header} {p : Option (List Char)} :
    h.parent? = p ↔ Extends h.clauses p :=
  ⟨fun e => e ▸ extends_parent? h, (extends_parent? h).unique⟩

/-- The interfaces that are read are the names that the clauses implement. -/
theorem interfaces_eq_iff {h : Header} {names : List (List Char)} :
    h.interfaces = names ↔ Implements h.clauses names :=
  ⟨fun e => e ▸ implements_interfaces h, (implements_interfaces h).unique⟩

end Readers

end UmlDraft.Header
