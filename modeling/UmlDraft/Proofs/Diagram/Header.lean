import UmlDraft.Diagram.Header
import UmlDraft.Proofs.Text.Runs

/-!
# The grammar of headers

A header text is keywords, a name, clauses, a gap and the opening brace. A text may be divided in
more ways than one, as a word can be cut and a gap may belong to the clauses; what a header
captures is the longest name and, with it, the longest clauses. Main statement: the reader accepts
exactly the texts that begin with a header text, and gives what the header captures together with
what stands behind it.
-/

namespace UmlDraft.Header

open Text

/-- The word that introduces a type, given what a plain class stands for. An interface is an
interface however it is introduced. -/
inductive Introduces (plain : Kind) : Kind → String → Prop
  /-- The word of a class. -/
  | ofClass : Introduces plain plain "class"
  /-- The word of an interface. -/
  | ofInterface : Introduces plain .interface "interface"

/-- The keywords of a header with the gaps behind them, and the kind that they stand for. -/
inductive Keywords (kind : Kind) : List Char → Prop
  /-- One keyword and a gap. -/
  | plain {word : String} {gap : List Char} (hw : Introduces .concreteClass kind word)
      (hg : IsGap gap) : Keywords kind (word.toList ++ gap)
  /-- Two keywords, each with a gap. -/
  | ofAbstract {word : String} {first gap : List Char} (hw : Introduces .abstractClass kind word)
      (hf : IsGap first) (hg : IsGap gap) :
      Keywords kind ("abstract".toList ++ (first ++ (word.toList ++ gap)))

/-- A way to divide a text, from its first character to its last, into the parts of a header. -/
inductive Divides : Header → List Char → Prop
  /-- Keywords, a name, clauses, a gap that may be empty, and the brace. -/
  | intro {kind : Kind} {keywords name clauses gap : List Char} (hk : Keywords kind keywords)
      (hn : IsName name) (hc : ∀ c ∈ clauses, isClauseChar c = true)
      (hg : ∀ c ∈ gap, isBlank c = true) :
      Divides ⟨kind, name, clauses⟩ (keywords ++ (name ++ (clauses ++ (gap ++ ['{']))))

/-- The header that a text captures is that of the division with the longest name, and of those the
one with the longest clauses. -/
structure Captures (h : Header) (text : List Char) : Prop where
  /-- The header divides the text. -/
  divides : h.Divides text
  /-- No division has another kind or a longer name, and none with that name has longer clauses. -/
  longest : ∀ g : Header, g.Divides text → g.kind = h.kind ∧ g.name <+: h.name ∧
    (g.name = h.name → g.clauses <+: h.clauses)

section Keywords

variable {s rest gap : List Char}

/-- A keyword is read where it stands with a gap behind it, and the whole gap is left out. -/
theorem afterKeyword?_eq_some_iff {keyword : String} :
    afterKeyword? keyword s = some rest ↔
      ∃ gap, IsGap gap ∧ s = keyword.toList ++ (gap ++ rest) ∧ Stops isBlank rest := by
  rw [afterKeyword?, Option.bind_eq_some_iff]
  constructor
  · rintro ⟨t, ht, hr⟩
    rw [dropLeading?_eq_some_iff] at ht
    cases t with
    | nil => simp [afterBlanks?] at hr
    | cons c t =>
      rw [afterBlanks?] at hr
      split at hr
      · next hc =>
        cases hr
        refine ⟨c :: t.takeWhile isBlank, ⟨by simp, ?_⟩, ?_, stops_skipBlanks t⟩
        · intro a ha
          rcases List.mem_cons.mp ha with rfl | ha
          · exact hc
          · exact mem_takeWhile ha
        · rw [ht, List.cons_append, skipBlanks, List.takeWhile_append_dropWhile]
      · cases hr
  · rintro ⟨gap, hg, rfl, hs⟩
    refine ⟨gap ++ rest, dropLeading?_eq_some_iff.mpr rfl, ?_⟩
    cases gap with
    | nil => exact absurd rfl hg.ne_nil
    | cons c gap =>
      rw [List.cons_append, afterBlanks?, if_pos (hg.blank c List.mem_cons_self),
        skipBlanks_run (fun a ha => hg.blank a (List.mem_cons_of_mem c ha)) hs]

theorem afterKeyword?_append {keyword : String} (hg : IsGap gap) (hs : Stops isBlank rest) :
    afterKeyword? keyword (keyword.toList ++ gap ++ rest) = some rest :=
  afterKeyword?_eq_some_iff.mpr ⟨gap, hg, List.append_assoc _ _ _, hs⟩

theorem readKeyword?_eq_some_iff {plain kind : Kind} :
    readKeyword? plain s = some (kind, rest) ↔
      ∃ word, Introduces plain kind word ∧ afterKeyword? word s = some rest := by
  unfold readKeyword?
  constructor
  · intro h
    split at h
    · next t ht =>
      cases h
      exact ⟨_, .ofClass, ht⟩
    · obtain ⟨t, ht, he⟩ := Option.map_eq_some_iff.mp h
      cases he
      exact ⟨_, .ofInterface, ht⟩
  · rintro ⟨word, hw, h⟩
    cases hw with
    | ofClass => rw [h]
    | ofInterface =>
      -- A text that begins with one keyword does not begin with the other.
      have hc : afterKeyword? "class" s = none := by
        obtain ⟨gap, -, rfl, -⟩ := afterKeyword?_eq_some_iff.mp h
        rfl
      rw [hc, h]
      rfl

/-- No keyword begins with a blank. -/
theorem Introduces.stops_isBlank {plain kind : Kind} {word : String}
    (h : Introduces plain kind word) : Stops isBlank (word.toList ++ rest) := by
  cases h <;> exact stops_cons.mpr rfl

/-- A keyword that introduces a type does not begin like the one that may come before it. -/
theorem Introduces.afterKeyword?_abstract {plain kind : Kind} {word : String}
    (h : Introduces plain kind word) : afterKeyword? "abstract" (word.toList ++ rest) = none := by
  cases h <;> rfl

/-- The keywords of a header are read where they stand, with all gaps behind them. -/
theorem readKind?_eq_some_iff {kind : Kind} :
    readKind? s = some (kind, rest) ↔
      ∃ keywords, Keywords kind keywords ∧ s = keywords ++ rest ∧ Stops isBlank rest := by
  constructor
  · intro h
    unfold readKind? at h
    split at h
    · next t ht =>
      obtain ⟨first, hf, rfl, -⟩ := afterKeyword?_eq_some_iff.mp ht
      obtain ⟨word, hw, hk⟩ := readKeyword?_eq_some_iff.mp h
      obtain ⟨gap, hg, rfl, hs⟩ := afterKeyword?_eq_some_iff.mp hk
      exact ⟨_, .ofAbstract hw hf hg, by simp only [List.append_assoc], hs⟩
    · obtain ⟨word, hw, hk⟩ := readKeyword?_eq_some_iff.mp h
      obtain ⟨gap, hg, rfl, hs⟩ := afterKeyword?_eq_some_iff.mp hk
      exact ⟨_, .plain hw hg, by simp only [List.append_assoc], hs⟩
  · rintro ⟨keywords, hk, rfl, hs⟩
    unfold readKind?
    cases hk with
    | @plain word gap hw hg =>
      rw [List.append_assoc, hw.afterKeyword?_abstract, ← List.append_assoc]
      exact readKeyword?_eq_some_iff.mpr ⟨word, hw, afterKeyword?_append hg hs⟩
    | @ofAbstract word first gap hw hf hg =>
      have ha : afterKeyword? "abstract"
          ("abstract".toList ++ (first ++ (word.toList ++ gap)) ++ rest) =
            some (word.toList ++ gap ++ rest) := by
        rw [← List.append_assoc, List.append_assoc]
        apply afterKeyword?_append hf
        rw [List.append_assoc]
        exact hw.stops_isBlank
      rw [ha]
      exact readKeyword?_eq_some_iff.mpr ⟨word, hw, afterKeyword?_append hg hs⟩

end Keywords

section Divisions

variable {h : Header} {kind : Kind} {keywords name clauses gap inside s text : List Char}

theorem isClauseChar_of_isWord {c : Char} (hc : isWord c = true) : isClauseChar c = true := by
  have ho : c ≠ '{' := by rintro rfl; revert hc; decide
  have hcl : c ≠ '}' := by rintro rfl; revert hc; decide
  have hn : c ≠ '\n' := by rintro rfl; revert hc; decide
  simp [isClauseChar, ho, hcl, hn]

/-- Keywords and gaps consist of word characters and blanks. -/
theorem Keywords.not_mem (hk : Keywords kind keywords) {c : Char} (hw : isWord c = false)
    (hb : isBlank c = false) : c ∉ keywords := by
  have gapless : ∀ {gap : List Char}, IsGap gap → c ∉ gap := fun hg hm => by
    rw [hg.blank c hm] at hb
    cases hb
  have wordless : ∀ {plain kind : Kind} {word : String}, Introduces plain kind word →
      c ∉ word.toList := by
    intro plain kind word hi
    cases hi with
    | ofClass => exact not_mem_of_run (List.all_eq_true.mp (by decide)) hw
    | ofInterface => exact not_mem_of_run (List.all_eq_true.mp (by decide)) hw
  cases hk with
  | plain hi hg =>
    rw [List.mem_append, not_or]
    exact ⟨wordless hi, gapless hg⟩
  | ofAbstract hi hf hg =>
    simp only [List.mem_append, not_or]
    exact ⟨not_mem_of_run (List.all_eq_true.mp (by decide)) hw, gapless hf, wordless hi,
      gapless hg⟩

theorem Divides.isName (hd : h.Divides text) : IsName h.name := by
  obtain ⟨-, hn, -, -⟩ := hd
  exact hn

/-- The opening brace is the last character of a header text and stands nowhere else in it. -/
theorem Divides.eq_append_open (hd : h.Divides text) :
    ∃ before, text = before ++ ['{'] ∧ '{' ∉ before := by
  cases hd with
  | @intro kind keywords name clauses gap hk hn hc hg =>
    refine ⟨keywords ++ (name ++ (clauses ++ gap)), by simp only [List.append_assoc], ?_⟩
    simp only [List.mem_append, not_or]
    exact ⟨hk.not_mem (by decide) (by decide), hn.not_mem (by decide),
      not_mem_of_run hc (by decide), not_mem_of_run hg (by decide)⟩

/-- No closing brace stands in a header text. -/
theorem Divides.close_not_mem (hd : h.Divides text) : '}' ∉ text := by
  cases hd with
  | @intro kind keywords name clauses gap hk hn hc hg =>
    simp only [List.mem_append, List.mem_singleton, not_or]
    exact ⟨hk.not_mem (by decide) (by decide), hn.not_mem (by decide),
      not_mem_of_run hc (by decide), not_mem_of_run hg (by decide), by decide⟩

/-- A text that a header divides is read up to its opening brace. -/
theorem Divides.read? (hd : h.Divides text) (inside : List Char) :
    ∃ g, Header.read? (text ++ inside) = some (g, inside) := by
  cases hd with
  | @intro kind keywords name clauses gap hk hn hc hg =>
    have hkind : readKind? (keywords ++ (name ++ (clauses ++ (gap ++ ['{']))) ++ inside) =
        some (kind, name ++ (clauses ++ (gap ++ '{' :: inside))) :=
      readKind?_eq_some_iff.mpr ⟨keywords, hk, by simp, hn.stops_isBlank⟩
    have hword : leadingWord (name ++ (clauses ++ (gap ++ '{' :: inside))) ≠ [] := by
      rw [leadingWord, List.takeWhile_append_of_pos hn.word]
      exact List.append_ne_nil_of_left_ne_nil hn.ne_nil _
    have hrest : skipBlanks
        ((afterWord (name ++ (clauses ++ (gap ++ '{' :: inside)))).dropWhile isClauseChar) =
          '{' :: inside := by
      rw [afterWord, List.dropWhile_append_of_pos hn.word,
        dropWhile_dropWhile fun _ => isClauseChar_of_isWord,
        List.dropWhile_append_of_pos hc, dropWhile_append_of_stops gap (stops_cons.mpr rfl)]
      exact skipBlanks_run (fun c hm => hg c ((List.dropWhile_suffix _).subset hm))
        (stops_cons.mpr (by decide))
    unfold Header.read?
    simp only [hkind, if_neg hword, hrest]
    exact ⟨_, rfl⟩

/-- A division whose name is a whole word and whose clauses go as far as they can is captured. -/
theorem captures_of_stops (hk : Keywords kind keywords) (hn : IsName name)
    (hc : ∀ c ∈ clauses, isClauseChar c = true) (hg : ∀ c ∈ gap, isBlank c = true)
    (hnw : Stops isWord (clauses ++ (gap ++ ['{'])))
    (hnc : Stops isClauseChar (gap ++ ['{'])) :
    Captures ⟨kind, name, clauses⟩ (keywords ++ (name ++ (clauses ++ (gap ++ ['{'])))) := by
  refine ⟨.intro hk hn hc hg, fun g hd => ?_⟩
  have hr : readKind? (keywords ++ (name ++ (clauses ++ (gap ++ ['{'])))) =
      some (kind, name ++ (clauses ++ (gap ++ ['{']))) :=
    readKind?_eq_some_iff.mpr ⟨keywords, hk, rfl, hn.stops_isBlank⟩
  generalize keywords ++ (name ++ (clauses ++ (gap ++ ['{']))) = text at hr hd
  cases hd with
  | @intro kind' keywords' name' clauses' gap' hk' hn' hc' hg' =>
    have hr' : readKind? (keywords' ++ (name' ++ (clauses' ++ (gap' ++ ['{'])))) =
        some (kind', name' ++ (clauses' ++ (gap' ++ ['{']))) :=
      readKind?_eq_some_iff.mpr ⟨keywords', hk', rfl, hn'.stops_isBlank⟩
    rw [hr'] at hr
    simp only [Option.some.injEq, Prod.mk.injEq] at hr
    refine ⟨hr.1, run_prefix hr.2 hn'.word hnw, fun he => ?_⟩
    simp only at he
    subst he
    exact run_prefix (List.append_cancel_left hr.2) hc' hnc

/-- What is read at the beginning of a text is what the text up to the brace captures. -/
theorem captures_of_read? (hr : Header.read? s = some (h, inside)) :
    ∃ text, s = text ++ inside ∧ h.Captures text := by
  unfold Header.read? at hr
  split at hr
  · cases hr
  · next kind rest hkind =>
    obtain ⟨keywords, hk, rfl, -⟩ := readKind?_eq_some_iff.mp hkind
    split at hr
    · cases hr
    · next hw =>
      split at hr
      · next t ht =>
        cases hr
        let clauses := (afterWord rest).takeWhile isClauseChar
        let gap := ((afterWord rest).dropWhile isClauseChar).takeWhile isBlank
        have hrest : rest = leadingWord rest ++ (clauses ++ (gap ++ '{' :: inside)) := by
          rw [← ht, skipBlanks, List.takeWhile_append_dropWhile, List.takeWhile_append_dropWhile,
            leadingWord_append_afterWord]
        have hafter : afterWord rest = clauses ++ (gap ++ '{' :: inside) := by
          rw [← ht, skipBlanks, List.takeWhile_append_dropWhile, List.takeWhile_append_dropWhile]
        have hgap : (afterWord rest).dropWhile isClauseChar = gap ++ '{' :: inside := by
          rw [← ht, skipBlanks, List.takeWhile_append_dropWhile]
        refine ⟨keywords ++ (leadingWord rest ++ (clauses ++ (gap ++ ['{']))), ?_,
          captures_of_stops hk (isName_leadingWord hw) (fun _ => mem_takeWhile)
            (fun _ => mem_takeWhile) ?_ ?_⟩
        · conv => lhs; rw [hrest]
          simp only [List.append_assoc, List.singleton_append]
        · have := stops_dropWhile isWord rest
          rw [show rest.dropWhile isWord = _ from hafter, ← List.append_assoc,
            stops_append_cons, List.append_assoc] at this
          exact this
        · have := stops_dropWhile isClauseChar (afterWord rest)
          rw [hgap, stops_append_cons] at this
          exact this
      · cases hr

/-- A text captures at most one header. -/
theorem Captures.unique {g : Header} (hh : h.Captures text) (hg : g.Captures text) : h = g := by
  obtain ⟨hk, hn, hc⟩ := hh.longest g hg.divides
  obtain ⟨-, hn', hc'⟩ := hg.longest h hh.divides
  have he : g.name = h.name := hn.eq_of_length_le hn'.length_le
  have hcl : g.clauses = h.clauses :=
    (hc he).eq_of_length_le (hc' he.symm).length_le
  cases h
  cases g
  simp only at hk he hcl
  rw [hk, he, hcl]

/-- The reader accepts exactly the texts that begin with a header text, and gives what the header
captures and what stands behind its opening brace. -/
theorem read?_eq_some_iff :
    Header.read? s = some (h, inside) ↔ ∃ text, s = text ++ inside ∧ h.Captures text := by
  constructor
  · exact captures_of_read?
  · rintro ⟨text, rfl, hc⟩
    obtain ⟨g, hr⟩ := hc.divides.read? inside
    obtain ⟨text', he, hg⟩ := captures_of_read? hr
    have ht : text' = text := (List.append_cancel_right he).symm
    subst ht
    rw [hr, hc.unique hg]

end Divisions

end UmlDraft.Header

namespace UmlDraft

open Text

/-- The words that introduce a type of a kind, with the space behind each. -/
def Kind.introduction : Kind → List Char
  | .concreteClass => "class".toList ++ [' ']
  | .abstractClass => "abstract".toList ++ ([' '] ++ ("class".toList ++ [' ']))
  | .interface => "interface".toList ++ [' ']

theorem Kind.keywords_introduction (kind : Kind) : Header.Keywords kind kind.introduction := by
  cases kind with
  | concreteClass => exact .plain .ofClass isGap_space
  | abstractClass => exact .ofAbstract .ofClass isGap_space isGap_space
  | interface => exact .plain .ofInterface isGap_space

end UmlDraft
