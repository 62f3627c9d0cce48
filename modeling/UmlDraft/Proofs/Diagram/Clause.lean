import UmlDraft.Proofs.Diagram.ClauseGrammar
import UmlDraft.Proofs.Diagram.Search
import UmlDraft.Proofs.Text.Join

/-!
# Clauses that are written out

A header may say that a type extends one name and implements a list of names, in this order and
with one space or comma between the words. Such clauses are read back as they were written, as
long as none of the names is one of the two keywords.
-/

namespace UmlDraft.Header

open Text

variable {parent : Option (List Char)} {targets : List (List Char)} {name n rest : List Char}

/-- A keyword and a text, with a space behind each. -/
def clause (keyword : String) (text : List Char) : List Char :=
  keyword.toList ++ ' ' :: (text ++ [' '])

/-- The clause that names a parent. -/
def parentClause : Option (List Char) → List Char
  | some parent => clause "extends" parent
  | none => []

/-- The clause that names interfaces. -/
def interfaceClause (targets : List (List Char)) : List Char :=
  if targets = [] then [] else clause "implements" (commaList targets)

/-- The clauses of a header, from the space behind the name to the space before the brace. -/
def clauseText (parent : Option (List Char)) (targets : List (List Char)) : List Char :=
  ' ' :: (parentClause parent ++ interfaceClause targets)

/-- A name that can be told from the keywords of clauses. -/
structure IsClauseName (name : List Char) : Prop where
  /-- The name is a word. -/
  isName : IsName name
  /-- The name does not announce a parent. -/
  ne_extends : "extends".toList ≠ name
  /-- The name does not announce interfaces. -/
  ne_implements : "implements".toList ≠ name

theorem isName_extends : IsName "extends".toList :=
  ⟨by decide, List.all_eq_true.mp (by decide : ("extends".toList.all isWord) = true)⟩

theorem isName_implements : IsName "implements".toList :=
  ⟨by decide, List.all_eq_true.mp (by decide : ("implements".toList.all isWord) = true)⟩

theorem clause_append (keyword : String) (text rest : List Char) :
    clause keyword text ++ rest = keyword.toList ++ ' ' :: (text ++ ' ' :: rest) := by
  simp [clause]

@[simp] theorem findKeyword?_nil (keyword : String) (f : Bool) :
    findKeyword? keyword f [] = none := rfl

/-- A keyword with a space and a word behind it is found where the search stands. -/
theorem findKeyword?_of_name {keyword : String} (hk : IsName keyword.toList) (hn : IsName name) :
    findKeyword? keyword false (keyword.toList ++ ' ' :: (name ++ rest)) = some (name ++ rest) := by
  have hafter : afterKeyword? keyword (keyword.toList ++ ' ' :: (name ++ rest)) =
      some (name ++ rest) := by
    exact afterKeyword?_eq_some_iff.mpr ⟨[' '], isGap_space, rfl, hn.stops_isBlank⟩
  obtain ⟨c, more, hc⟩ := List.exists_cons_of_ne_nil hk.ne_nil
  rw [hc, List.cons_append] at hafter ⊢
  rw [findKeyword?, if_neg Bool.false_ne_true, hafter]
  simp only [if_neg (leadingWord_ne_nil hn rest)]

/-- A comma separated list of names is read back. -/
theorem wordList_commaList (hne : targets ≠ []) (hn : ∀ n ∈ targets, IsName n) :
    wordList (commaList targets ++ [' ']) = targets := by
  induction targets with
  | nil => exact absurd rfl hne
  | cons n targets ih =>
    have hname : IsName n := hn n List.mem_cons_self
    by_cases he : targets = []
    · subst he
      have hstop : Stops isWord [' '] := stops_cons.mpr (by decide)
      have hnone : afterComma? [' '] = none := by decide
      rw [wordList_eq, commaList_singleton, leadingWord_run hname.word hstop,
        afterWord_run hname.word hstop, hnone]
    · obtain ⟨m, more, rfl⟩ := List.exists_cons_of_ne_nil he
      have hm : IsName m := hn m (List.mem_cons_of_mem n List.mem_cons_self)
      obtain ⟨tail, ht⟩ := commaList_eq_append m more
      have hstop : Stops isWord (',' :: ' ' :: commaList (m :: more) ++ [' ']) :=
        stops_cons.mpr (by decide)
      have hskip : skipBlanks (' ' :: (commaList (m :: more) ++ [' '])) =
          commaList (m :: more) ++ [' '] := by
        rw [ht, List.append_assoc]
        exact skipBlanks_run isGap_space.blank hm.stops_isBlank
      have hword : leadingWord (commaList (m :: more) ++ [' ']) ≠ [] := by
        rw [ht, List.append_assoc]
        exact leadingWord_ne_nil hm _
      have hnext : afterComma? (',' :: ' ' :: commaList (m :: more) ++ [' ']) =
          some (commaList (m :: more) ++ [' ']) := by
        rw [afterComma?, List.cons_append, List.cons_append,
          skipBlanks_of_stops (stops_cons.mpr (by decide))]
        simp only [hskip, if_neg hword]
      rw [wordList_eq, commaList_cons n he, List.append_assoc, leadingWord_run hname.word hstop,
        afterWord_run hname.word hstop, hnext]
      simp only
      rw [ih he fun n hmem => hn n (List.mem_cons_of_mem _ hmem)]

/-- A space is a blank behind a piece without characters. -/
theorem quiet_space {keyword : String} (hk : IsName keyword.toList) : Quiet [keyword] [' '] := by
  have hall : ∀ k ∈ [keyword], IsName k.toList := fun k hmem => List.mem_singleton.mp hmem ▸ hk
  exact .cons (dull_nil hall) isBlank_space .nil

/-- The clause of a parent does not announce interfaces. -/
theorem quiet_parentClause (hp : ∀ p ∈ parent, IsClauseName p) :
    Quiet ["implements"] (parentClause parent) := by
  cases parent with
  | none => exact .nil
  | some p =>
    obtain ⟨hname, -, hne⟩ := hp p rfl
    refine .cons (isName_extends.dull ?_) isBlank_space (.cons (hname.dull ?_) isBlank_space .nil)
    · intro k hk
      rw [List.mem_singleton.mp hk]
      decide
    · intro k hk
      rw [List.mem_singleton.mp hk]
      exact hne

/-- A list of names announces no parent. -/
theorem quiet_commaList (hne : targets ≠ []) (ht : ∀ t ∈ targets, IsClauseName t) :
    Quiet ["extends"] (commaList targets ++ [' ']) := by
  have hall : ∀ k ∈ ["extends"], IsName k.toList :=
    fun k hmem => List.mem_singleton.mp hmem ▸ isName_extends
  induction targets with
  | nil => exact absurd rfl hne
  | cons n targets ih =>
    obtain ⟨hname, hn, -⟩ := ht n List.mem_cons_self
    by_cases he : targets = []
    · rw [he, commaList_singleton]
      refine .cons (hname.dull fun k hk => ?_) isBlank_space .nil
      rw [List.mem_singleton.mp hk]
      exact hn
    · have hdull : Dull ["extends"] (n ++ [',']) :=
        dull_concat hall (fun c hc => isBlank_of_isWord (hname.word c hc)) (by decide) (by decide)
      have hsplit : commaList (n :: targets) ++ [' '] =
          (n ++ [',']) ++ ' ' :: (commaList targets ++ [' ']) := by
        rw [commaList_cons n he]
        simp
      rw [hsplit]
      exact .cons hdull isBlank_space (ih he fun t hmem => ht t (List.mem_cons_of_mem n hmem))

theorem quiet_interfaceClause (ht : ∀ t ∈ targets, IsClauseName t) :
    Quiet ["extends"] (interfaceClause targets) := by
  unfold interfaceClause
  split
  · exact .nil
  · next hne =>
    refine .cons (isName_implements.dull fun k hk => ?_) isBlank_space (quiet_commaList hne ht)
    rw [List.mem_singleton.mp hk]
    decide

/-- The parent is read back. -/
theorem parent?_of_clauseText {h : Header} (hc : h.clauses = clauseText parent targets)
    (hp : ∀ p ∈ parent, IsClauseName p) (ht : ∀ t ∈ targets, IsClauseName t) :
    h.parent? = parent := by
  have hpass := passes_findKeyword? "extends"
  have hall : ∀ k ∈ ["extends"], IsName k.toList :=
    fun k hmem => List.mem_singleton.mp hmem ▸ isName_extends
  have hskip : findKeyword? "extends" false h.clauses =
      findKeyword? "extends" false (parentClause parent ++ interfaceClause targets) := by
    rw [hc, clauseText]
    exact (quiet_space isName_extends).pass hpass hall _
  rw [parent?, hskip]
  cases parent with
  | none =>
    have hquiet := (quiet_interfaceClause ht).pass hpass hall []
    rw [List.append_nil, findKeyword?_nil] at hquiet
    rw [parentClause, List.nil_append, hquiet, Option.map_none]
  | some p =>
    have hname : IsName p := (hp p rfl).isName
    have hstop : Stops isWord (' ' :: interfaceClause targets) := stops_cons.mpr (by decide)
    rw [parentClause, clause_append, findKeyword?_of_name isName_extends hname, Option.map_some,
      leadingWord_run hname.word hstop]

/-- The interfaces are read back. -/
theorem interfaces_of_clauseText {h : Header} (hc : h.clauses = clauseText parent targets)
    (hp : ∀ p ∈ parent, IsClauseName p) (ht : ∀ t ∈ targets, IsName t) :
    h.interfaces = targets := by
  have hpass := passes_findKeyword? "implements"
  have hall : ∀ k ∈ ["implements"], IsName k.toList :=
    fun k hmem => List.mem_singleton.mp hmem ▸ isName_implements
  have hskip : findKeyword? "implements" false h.clauses =
      findKeyword? "implements" false (interfaceClause targets) := by
    rw [hc, clauseText, ← List.singleton_append, ← List.append_assoc]
    exact ((quiet_space isName_implements).append (quiet_parentClause hp)).pass hpass hall _
  rw [interfaces, hskip]
  cases targets with
  | nil => rfl
  | cons t targets =>
    have hfound : findKeyword? "implements" false (interfaceClause (t :: targets)) =
        some (commaList (t :: targets) ++ [' ']) := by
      obtain ⟨more, hmore⟩ := commaList_eq_append t targets
      rw [interfaceClause, if_neg (List.cons_ne_nil t targets), clause, hmore, List.append_assoc]
      exact findKeyword?_of_name isName_implements (ht t List.mem_cons_self)
    rw [hfound]
    exact wordList_commaList (List.cons_ne_nil t targets) ht

/-- No clause that is written out holds a character that ends the clauses. -/
theorem isClauseChar_of_mem_clauseText {c : Char} (hp : ∀ p ∈ parent, IsName p)
    (ht : ∀ t ∈ targets, IsName t) (hc : c ∈ clauseText parent targets) :
    isClauseChar c = true := by
  have hspace : isClauseChar ' ' = true := by decide
  have hname : ∀ {n : List Char}, IsName n → ∀ c ∈ n, isClauseChar c = true :=
    fun hn c hmem => isClauseChar_of_isWord (hn.word c hmem)
  have hclause : ∀ {k : String} {n : List Char}, IsName k.toList →
      (∀ c ∈ n, isClauseChar c = true) → ∀ c ∈ clause k n, isClauseChar c = true := by
    intro k n hk hn c hmem
    simp only [clause, List.mem_append, List.mem_cons, List.not_mem_nil, or_false] at hmem
    rcases hmem with hmem | rfl | hmem | rfl
    · exact hname hk c hmem
    · exact hspace
    · exact hn c hmem
    · exact hspace
  have hlist : ∀ c ∈ commaList targets, isClauseChar c = true := by
    intro c hmem
    rcases mem_intercalate hmem with hmem | ⟨t, hmem, hct⟩
    · exact List.all_eq_true.mp (by decide : ([',', ' '].all isClauseChar) = true) c hmem
    · exact hname (ht t hmem) c hct
  rcases List.mem_cons.mp hc with rfl | hc
  · exact hspace
  rcases List.mem_append.mp hc with hc | hc
  · cases parent with
    | none => cases hc
    | some p => exact hclause isName_extends (hname (hp p rfl)) c hc
  · unfold interfaceClause at hc
    split at hc
    · cases hc
    · exact hclause isName_implements hlist c hc

end UmlDraft.Header
