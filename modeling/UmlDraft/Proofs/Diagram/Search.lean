import UmlDraft.Proofs.Diagram.Occurrence

/-!
# Passing over text without keywords

A keyword counts where no word is under way before it and a blank comes behind it. A text is quiet
if each of its blanks stands behind something other than a keyword; whoever searches for the
keywords passes over a quiet text, whatever comes behind it. The searches for headers and for
clauses are both of this kind.
-/

namespace UmlDraft

open Text Outline

section Quiet

variable {β : Type} {keywords : List String} {search : Bool → List Char → β}
  {w s t rest : List Char} {c : Char}

/-- A search passes over a character inside a word, and over one where no keyword with a blank
behind it begins. -/
def Passes (keywords : List String) (search : Bool → List Char → β) : Prop :=
  ∀ f c rest, (f = true ∨ ∀ k ∈ keywords, ∀ b, isBlank b = true → ¬ k.toList ++ [b] <+: c :: rest) →
    search f (c :: rest) = search (isWord c) rest

/-- A piece of text without blanks that does not end with a keyword, other than as the end of a
longer word. -/
structure Dull (keywords : List String) (w : List Char) : Prop where
  /-- No character is a blank. -/
  blankless : ∀ c ∈ w, isBlank c = false
  /-- Before a keyword that ends the text a word is under way. -/
  under_way : ∀ k ∈ keywords, ∀ a, w = a ++ k.toList → wordBehind false a = true

/-- A text in which every blank stands behind a dull piece. -/
inductive Quiet (keywords : List String) : List Char → Prop
  /-- No piece at all. -/
  | nil : Quiet keywords []
  /-- A dull piece, a blank, and a quiet text. -/
  | cons {w s : List Char} {c : Char} (hw : Dull keywords w) (hc : isBlank c = true)
    (hs : Quiet keywords s) : Quiet keywords (w ++ c :: s)

/-- The empty piece is dull. -/
theorem dull_nil (hk : ∀ k ∈ keywords, IsName k.toList) : Dull keywords [] where
  blankless _ h := nomatch h
  under_way k hmem _ h := absurd (List.append_eq_nil_iff.mp h.symm).2 (hk k hmem).ne_nil

/-- A name that is no keyword is dull. -/
theorem Text.IsName.dull (hw : IsName w) (hk : ∀ k ∈ keywords, k.toList ≠ w) : Dull keywords w where
  blankless c hc := isBlank_of_isWord (hw.word c hc)
  under_way k hmem a h := by
    cases ha : wordBehind false a with
    | true => rfl
    | false =>
      rw [wordBehind_false_iff] at ha
      cases hlast : a.getLast? with
      | none =>
        rw [List.getLast?_eq_none_iff] at hlast
        subst hlast
        exact absurd h.symm (hk k hmem)
      | some d =>
        have hd : d ∈ w := h ▸ List.mem_append_left _ (List.mem_of_getLast? hlast)
        have := ha d hlast
        rw [hw.word d hd] at this
        cases this

/-- A piece that ends with a mark is dull. -/
theorem dull_concat (hk : ∀ k ∈ keywords, IsName k.toList) (hw : ∀ c ∈ w, isBlank c = false)
    (hword : isWord c = false) (hblank : isBlank c = false) : Dull keywords (w ++ [c]) where
  blankless d hd := by
    rcases List.mem_append.mp hd with hd | hd
    · exact hw d hd
    · rw [List.mem_singleton.mp hd]
      exact hblank
  under_way k hmem a h := by
    have hlast : k.toList.getLast? = some c := by
      have hl := congrArg List.getLast? h
      rw [List.getLast?_concat, List.getLast?_append] at hl
      cases hk' : k.toList.getLast? with
      | none => exact absurd (List.getLast?_eq_none_iff.mp hk') (hk k hmem).ne_nil
      | some d =>
        rw [hk', Option.some_or] at hl
        exact hl.symm
    rw [(hk k hmem).word c (List.mem_of_getLast? hlast)] at hword
    cases hword

theorem Quiet.append (hs : Quiet keywords s) (ht : Quiet keywords t) : Quiet keywords (s ++ t) := by
  induction hs with
  | nil => exact ht
  | cons hw hc _ ih =>
    rw [List.append_assoc, List.cons_append]
    exact .cons hw hc ih

/-- A keyword in front of a blank is all that stands before the first blank. -/
theorem eq_of_keyword_prefix {k : List Char} {b : Char} (hk : IsName k) (hb : isBlank b = true)
    (hw : ∀ c ∈ w, isBlank c = false) (hc : isBlank c = true)
    (h : k ++ [b] <+: w ++ c :: rest) : k = w := by
  obtain ⟨more, hm⟩ := h
  rw [List.append_assoc, List.singleton_append] at hm
  have run : ∀ {l : List Char}, (∀ c ∈ l, isBlank c = false) → ∀ c ∈ l, (!isBlank c) = true :=
    fun h c hc => by rw [h c hc]; rfl
  have stop : ∀ {d : Char} {l : List Char}, isBlank d = true → Stops (!isBlank ·) (d :: l) :=
    fun hd => stops_cons.mpr (by rw [hd]; rfl)
  have ht := congrArg (List.takeWhile (!isBlank ·)) hm
  rwa [takeWhile_run (run fun c hc => isBlank_of_isWord (hk.word c hc)) (stop hb),
    takeWhile_run (run hw) (stop hc)] at ht

/-- A search passes over a dull piece and the blank behind it. -/
theorem Dull.pass (hp : Passes keywords search) (hk : ∀ k ∈ keywords, IsName k.toList)
    (hw : Dull keywords w) (hc : isBlank c = true) (rest : List Char) :
    search false (w ++ c :: rest) = search false rest := by
  have key : ∀ (w : List Char) (f : Bool), (∀ c ∈ w, isBlank c = false) →
      (∀ k ∈ keywords, ∀ a, w = a ++ k.toList → wordBehind f a = true) →
      search f (w ++ c :: rest) = search false rest := by
    intro w
    induction w with
    | nil =>
      intro f _ _
      rw [List.nil_append, hp f c rest, isWord_of_isBlank hc]
      refine .inr fun k hmem b hb h => (hk k hmem).ne_nil ?_
      exact eq_of_keyword_prefix (hk k hmem) hb (fun _ h => nomatch h) hc h
    | cons d w ih =>
      intro f hblank hway
      have hblank' : ∀ c ∈ w, isBlank c = false := fun c hc => hblank c (List.mem_cons_of_mem d hc)
      rw [List.cons_append, hp f d (w ++ c :: rest)]
      · refine ih (isWord d) hblank' fun k hmem a ha => ?_
        exact hway k hmem (d :: a) (by rw [ha, List.cons_append])
      · cases hf : f with
        | true => exact .inl rfl
        | false =>
          refine .inr fun k hmem b hb h => ?_
          have he := eq_of_keyword_prefix (hk k hmem) hb hblank hc h
          have := hway k hmem [] he.symm
          rw [hf, wordBehind_nil] at this
          cases this
  exact key w false hw.blankless hw.under_way

/-- A search passes over a quiet text. -/
theorem Quiet.pass (hp : Passes keywords search) (hk : ∀ k ∈ keywords, IsName k.toList)
    (hs : Quiet keywords s) (rest : List Char) : search false (s ++ rest) = search false rest := by
  induction hs with
  | nil => rfl
  | cons hw hc _ ih =>
    rw [List.append_assoc, List.cons_append, hw.pass hp hk hc, ih]

end Quiet

section Searches

variable {s inside : List Char}

/-- The words that may begin a header. -/
def Header.introducers : List String :=
  ["abstract", "class", "interface"]

theorem Header.isName_introducers : ∀ k ∈ Header.introducers, IsName k.toList := by
  intro k hk
  have hall : (Header.introducers.all fun k => k.toList.all isWord) = true := by decide
  refine ⟨?_, fun c hc => List.all_eq_true.mp (List.all_eq_true.mp hall k hk) c hc⟩
  rintro h
  have hne : (Header.introducers.all fun k => !k.toList.isEmpty) = true := by decide
  have := List.all_eq_true.mp hne k hk
  rw [h] at this
  cases this

/-- A gap behind a word puts a blank behind it. -/
theorem Text.IsGap.prefix_append {gap : List Char} (hg : IsGap gap) (k rest : List Char) :
    ∃ b, isBlank b = true ∧ k ++ [b] <+: k ++ (gap ++ rest) := by
  obtain ⟨b, more, rfl⟩ := List.exists_cons_of_ne_nil hg.ne_nil
  refine ⟨b, hg.blank b List.mem_cons_self, ?_⟩
  rw [List.prefix_append_right_inj, List.cons_append]
  exact List.cons_prefix_cons.mpr ⟨rfl, List.nil_prefix⟩

/-- The words that a header of a kind may begin with. An interface may be called abstract. -/
def Kind.openings : Kind → List String
  | .concreteClass => ["class"]
  | .abstractClass => ["abstract"]
  | .interface => ["interface", "abstract"]

theorem Kind.openings_subset (kind : Kind) : kind.openings ⊆ Header.introducers := by
  cases kind <;> decide

/-- The keywords of a header begin with a word of its kind and a blank. -/
theorem Header.Keywords.exists_opening {kind : Kind} {keywords : List Char}
    (hk : Header.Keywords kind keywords) (rest : List Char) :
    ∃ k ∈ kind.openings, ∃ b, isBlank b = true ∧ k.toList ++ [b] <+: keywords ++ rest := by
  cases hk with
  | @plain word gap hw hg =>
    refine ⟨word, by cases hw <;> decide, ?_⟩
    rw [List.append_assoc]
    exact hg.prefix_append word.toList rest
  | ofAbstract hw hf hg =>
    refine ⟨"abstract", by cases hw <;> decide, ?_⟩
    rw [List.append_assoc, List.append_assoc]
    exact hf.prefix_append "abstract".toList _

/-- A header begins with one of the words of its kind and a blank. -/
theorem Header.Captures.exists_opening {h : Header} {text : List Char} (hc : h.Captures text)
    (rest : List Char) :
    ∃ k ∈ h.kind.openings, ∃ b, isBlank b = true ∧ k.toList ++ [b] <+: text ++ rest := by
  cases hc.divides with
  | intro hk hn hcl hg =>
    rw [List.append_assoc]
    exact hk.exists_opening _

/-- A header begins with one of its words and a blank. -/
theorem Header.exists_introducer {h : Header} (hr : Header.read? s = some (h, inside)) :
    ∃ k ∈ Header.introducers, ∃ b, isBlank b = true ∧ k.toList ++ [b] <+: s := by
  obtain ⟨text, rfl, hc⟩ := Header.read?_eq_some_iff.mp hr
  obtain ⟨k, hk, hblank⟩ := hc.exists_opening inside
  exact ⟨k, h.kind.openings_subset hk, hblank⟩

/-- The search for headers passes over everything but their words. -/
theorem passes_occurrences : Passes Header.introducers occurrences := by
  intro f c rest h
  refine occurrences_cons (h.imp_right fun h => ?_)
  rw [Option.eq_none_iff_forall_ne_some]
  rintro ⟨header, inside⟩ hr
  obtain ⟨k, hk, b, hb, hp⟩ := Header.exists_introducer hr
  exact h k hk b hb hp

/-- The search for a clause passes over everything but its keyword. -/
theorem passes_findKeyword? (keyword : String) :
    Passes [keyword] (Header.findKeyword? keyword) := by
  intro f c rest h
  have hnone : (if f then none else Header.afterKeyword? keyword (c :: rest)) = none := by
    cases f with
    | true => rfl
    | false =>
      rw [if_neg Bool.false_ne_true, Option.eq_none_iff_forall_ne_some]
      intro target ht
      obtain ⟨gap, hg, he, -⟩ := Header.afterKeyword?_eq_some_iff.mp ht
      obtain ⟨b, hb, hp⟩ := hg.prefix_append keyword.toList target
      exact h.resolve_left Bool.false_ne_true keyword (List.mem_singleton_self _) b hb (he ▸ hp)
  rw [Header.findKeyword?, hnone]

end Searches

end UmlDraft
