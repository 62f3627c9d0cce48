import Mathlib.Data.List.Forall2
import UmlDraft.Proofs.Diagram.AlikeMember
import UmlDraft.Proofs.Diagram.Clause
import UmlDraft.Proofs.Diagram.Outline

/-!
# Declarations of texts that are alike

Each reader of the outline is carried over to a text that differs in its gaps: a keyword with a gap
behind it, a header up to its brace, the words of its clauses, and a body up to the brace that
closes it. A gap begins no header, so the searches pass over it and meet the same header behind it
in both texts. Hence two texts that are alike have their declarations in step, each with the same
header edges and the same members.
-/

namespace UmlDraft

open Text

section Passing

variable {β : Type} {keywords : List String} {search : Bool → List Char → β} {c : Char}
  {g rest : List Char}

/-- A search for keywords passes over a blank, and no word is under way behind it. -/
theorem Passes.blank (hp : Passes keywords search) (hk : ∀ k ∈ keywords, IsName k.toList)
    (hc : isBlank c = true) (f : Bool) : search f (c :: rest) = search false rest := by
  rw [hp f c rest, isWord_of_isBlank hc]
  refine .inr fun k hmem b hb h => (hk k hmem).ne_nil ?_
  exact eq_of_keyword_prefix (w := []) (hk k hmem) hb (fun _ h => nomatch h) hc h

/-- A search for keywords passes over a gap. -/
theorem Passes.gap (hp : Passes keywords search) (hk : ∀ k ∈ keywords, IsName k.toList)
    (hg : IsGap g) (f : Bool) : search f (g ++ rest) = search false rest := by
  obtain ⟨hne, hblank⟩ := hg
  induction g generalizing f with
  | nil => exact absurd rfl hne
  | cons c g ih =>
    rw [List.cons_append, hp.blank hk (hblank c List.mem_cons_self)]
    cases g with
    | nil => rfl
    | cons d g =>
      exact ih false (List.cons_ne_nil d g) fun a ha => hblank a (List.mem_cons_of_mem c ha)

/-- Blanks before a text do not matter to a search for keywords. -/
theorem Passes.skipBlanks (hp : Passes keywords search) (hk : ∀ k ∈ keywords, IsName k.toList)
    (s : List Char) : search false (Text.skipBlanks s) = search false s := by
  induction s with
  | nil => rfl
  | cons c s ih =>
    cases hc : isBlank c with
    | true =>
      rw [hp.blank hk hc, ← ih, Text.skipBlanks, List.dropWhile_cons_of_pos hc, Text.skipBlanks]
    | false => rw [skipBlanks_of_stops (stops_cons.mpr hc)]

/-- A search for keywords finds in a blank text what it finds in none. -/
theorem Passes.of_blank (hp : Passes keywords search) (hk : ∀ k ∈ keywords, IsName k.toList)
    {result : β} (hnil : ∀ f, search f [] = result) (hg : ∀ c ∈ g, isBlank c = true) (f : Bool) :
    search f g = result := by
  by_cases hne : g = []
  · rw [hne]
    exact hnil f
  · rw [← List.append_nil g, hp.gap hk ⟨hne, hg⟩]
    exact hnil false

end Passing

namespace Header

variable {keyword : String} {kind : Kind} {s t rest inside keywords : List Char}
  {header header' : Header}

/-- A keyword that is read in one text is read in the other, if something comes behind the gap. -/
theorem alike_afterKeyword? (hk : IsName keyword.toList) (h : Alike s t)
    (hr : afterKeyword? keyword s = some rest) (hne : rest ≠ []) :
    ∃ rest', afterKeyword? keyword t = some rest' ∧ Alike rest rest' := by
  obtain ⟨gap, hg, rfl, hs⟩ := afterKeyword?_eq_some_iff.mp hr
  obtain ⟨u, rfl, hu⟩ := h.of_append hk.blankless
  obtain ⟨gap', rest', rfl, hgap, hrest, hs'⟩ := hu.of_gap hg hs hne
  exact ⟨rest', afterKeyword?_eq_some_iff.mpr ⟨gap', hgap.right, rfl, hs'⟩, hrest⟩

theorem Introduces.isName {plain kind : Kind} {word : String} (h : Introduces plain kind word) :
    IsName word.toList := by
  cases h with
  | ofClass => exact isName_introducers "class" (by simp [introducers])
  | ofInterface => exact isName_introducers "interface" (by simp [introducers])

/-- The keywords of a header stand in the other text as well, with other gaps behind them. -/
theorem Keywords.alike (hk : Keywords kind keywords) (hs : Stops isBlank rest) (hne : rest ≠ [])
    (h : Alike (keywords ++ rest) t) : ∃ keywords' rest', t = keywords' ++ rest' ∧
      Keywords kind keywords' ∧ Alike rest rest' ∧ Stops isBlank rest' := by
  cases hk with
  | @plain word gap hw hg =>
    rw [List.append_assoc] at h
    obtain ⟨u, rfl, hu⟩ := h.of_append hw.isName.blankless
    obtain ⟨gap', rest', rfl, hgap, hrest⟩ := hu.of_gap hg hs hne
    exact ⟨word.toList ++ gap', rest', (List.append_assoc _ _ _).symm, .plain hw hgap.right, hrest⟩
  | @ofAbstract word first gap hw hf hg =>
    have habstract : IsName "abstract".toList := isName_introducers _ (by simp [introducers])
    have hword : word.toList ++ (gap ++ rest) ≠ [] :=
      List.append_ne_nil_of_left_ne_nil hw.isName.ne_nil _
    rw [List.append_assoc, List.append_assoc, List.append_assoc] at h
    obtain ⟨u, rfl, hu⟩ := h.of_append habstract.blankless
    obtain ⟨first', v, rfl, hfirst, hv, -⟩ := hu.of_gap hf hw.isName.stops_isBlank hword
    obtain ⟨x, rfl, hx⟩ := hv.of_append hw.isName.blankless
    obtain ⟨gap', rest', rfl, hgap, hrest⟩ := hx.of_gap hg hs hne
    refine ⟨"abstract".toList ++ (first' ++ (word.toList ++ gap')), rest', ?_,
      .ofAbstract hw hfirst.right hgap.right, hrest⟩
    simp only [List.append_assoc]

/-- Two headers that differ in the gaps of their clauses. -/
structure AlikeTo (header header' : Header) : Prop where
  /-- The kind is the same. -/
  kind : header.kind = header'.kind
  /-- The name is the same. -/
  name : header.name = header'.name
  /-- The clauses are alike. -/
  clauses : Alike header.clauses header'.clauses

/-- The clauses of a header end with the line, if no brace ends them. -/
theorem lineClass_isClauseChar : LineClass isClauseChar := by
  intro c hc
  have hopen : c ≠ '{' := by
    rintro rfl
    cases hc
  have hclose : c ≠ '}' := by
    rintro rfl
    cases hc
  simp [isClauseChar, hopen, hclose]

/-- A header that is read in one text is read in the other. -/
theorem alike_of_read? (h : Alike s t) (hr : read? s = some (header, inside)) :
    ∃ header' inside', read? t = some (header', inside') ∧ header.AlikeTo header' ∧
      Alike inside inside' := by
  unfold read? at hr
  split at hr
  · cases hr
  · next kind rest hkind =>
    split at hr
    · cases hr
    · next hword =>
      have hne : rest ≠ [] := by
        rintro rfl
        exact hword rfl
      obtain ⟨keywords, hk, rfl, hstop⟩ := readKind?_eq_some_iff.mp hkind
      obtain ⟨keywords', rest', rfl, hk', hrest, hstop'⟩ := hk.alike hstop hne h
      have hkind' : readKind? (keywords' ++ rest') = some (kind, rest') :=
        readKind?_eq_some_iff.mpr ⟨keywords', hk', rfl, hstop'⟩
      obtain ⟨hname, hafter⟩ := hrest.word
      obtain ⟨hclauses, hbehind⟩ := hafter.line lineClass_isClauseChar
      have hskip := hbehind.skipBlanks
      split at hr
      · next inside₀ hinside =>
        cases hr
        rw [hinside] at hskip
        obtain ⟨inside', ht, hin⟩ := hskip.of_cons rfl
        refine ⟨⟨kind, leadingWord rest', (afterWord rest').takeWhile isClauseChar⟩, inside', ?_,
          ⟨rfl, hname, hclauses⟩, hin⟩
        unfold read?
        simp only [hkind', ← hname, if_neg hword, ht]
      · cases hr

/-- What follows the opening brace is an ending of the text. -/
theorem suffix_of_read? (h : read? s = some (header, inside)) : inside <:+ s := by
  obtain ⟨text, rfl, -⟩ := read?_eq_some_iff.mp h
  exact List.suffix_append text inside

/-- Texts that are alike begin with headers that are alike, or with none. -/
theorem alike_read? (h : Alike s t) :
    Option.Rel (fun a b => a.1.AlikeTo b.1 ∧ Alike a.2 b.2) (read? s) (read? t) := by
  refine h.rel ?_
  rintro u v huv ⟨header, inside⟩ hr
  obtain ⟨header', inside', ht, hh, hi⟩ := alike_of_read? huv hr
  exact ⟨(header', inside'), ht, hh, hi⟩

/-! ### Clauses -/

/-- What a keyword announces where it begins a text: blanks and a word come behind it. -/
def announced? (keyword : String) (s : List Char) : Option (List Char) :=
  (afterKeyword? keyword s).filter fun target => !(leadingWord target).isEmpty

theorem announced?_eq_some_iff : announced? keyword s = some rest ↔
    afterKeyword? keyword s = some rest ∧ leadingWord rest ≠ [] := by
  rw [announced?, Option.filter_eq_some_iff, Bool.not_eq_true', List.isEmpty_eq_false_iff]

/-- The same is announced in texts that are alike. -/
theorem alike_announced? (hk : IsName keyword.toList) (h : Alike s t) :
    Option.Rel Alike (announced? keyword s) (announced? keyword t) := by
  refine h.rel fun u v huv a ha => ?_
  obtain ⟨hafter, hword⟩ := announced?_eq_some_iff.mp ha
  have hne : a ≠ [] := by
    rintro rfl
    exact hword rfl
  obtain ⟨b, hb, hab⟩ := alike_afterKeyword? hk huv hafter hne
  exact ⟨b, announced?_eq_some_iff.mpr ⟨hb, hab.word.1 ▸ hword⟩, hab⟩

/-- The search for a keyword stops where the keyword announces a word. -/
theorem findKeyword?_cons (f : Bool) (c : Char) (s : List Char) :
    findKeyword? keyword f (c :: s) = (if f then none else announced? keyword (c :: s)).or
      (findKeyword? keyword (isWord c) s) := by
  rw [findKeyword?]
  cases f with
  | true => rfl
  | false =>
    rw [if_neg Bool.false_ne_true, if_neg Bool.false_ne_true, announced?]
    cases afterKeyword? keyword (c :: s) with
    | none => rfl
    | some target =>
      rw [Option.filter_some]
      by_cases hw : leadingWord target = []
      · simp [hw]
      · simp [hw]

/-- The first word that a keyword announces is found in both texts or in none. -/
theorem alike_findKeyword? (hk : IsName keyword.toList) (h : Alike s t) (f : Bool) :
    Option.Rel Alike (findKeyword? keyword f s) (findKeyword? keyword f t) := by
  have hkeywords : ∀ k ∈ [keyword], IsName k.toList := fun k hm => List.mem_singleton.mp hm ▸ hk
  have hpass := passes_findKeyword? keyword
  induction h generalizing f with
  | blank hg hg' =>
    rw [hpass.of_blank hkeywords (findKeyword?_nil keyword) hg,
      hpass.of_blank hkeywords (findKeyword?_nil keyword) hg']
    exact .none
  | @char c s t hc h ih =>
    rw [findKeyword?_cons, findKeyword?_cons]
    cases f with
    | true => exact ih (isWord c)
    | false =>
      rcases eq_none_or_some_of_rel (alike_announced? hk (.char hc h)) with
        ⟨hs, ht⟩ | ⟨a, b, hs, ht, hab⟩
      · rw [hs, ht]
        exact ih (isWord c)
      · rw [hs, ht]
        exact .some hab
  | gap hg hc h ih =>
    rw [hpass.gap hkeywords hg.left, hpass.gap hkeywords hg.right]
    exact ih false

/-- The word behind a comma is found in both texts or in none. -/
theorem alike_afterComma? (h : Alike s t) : Option.Rel Alike (afterComma? s) (afterComma? t) := by
  refine h.rel fun u v huv a ha => ?_
  have hskip := huv.skipBlanks
  unfold afterComma? at ha
  split at ha
  · next rest hrest =>
    split at ha
    · cases ha
    · next hword =>
      cases ha
      rw [hrest] at hskip
      obtain ⟨rest', hv, hr⟩ := hskip.of_cons rfl
      refine ⟨skipBlanks rest', ?_, hr.skipBlanks⟩
      unfold afterComma?
      rw [hv]
      exact if_neg (hr.skipBlanks.word.1 ▸ hword)
  · cases ha

/-- Lists that are alike have the same words. -/
theorem alike_wordList (h : Alike s t) : wordList s = wordList t := by
  induction hn : s.length using Nat.strongRecOn generalizing s t with
  | ind n ih =>
    subst hn
    obtain ⟨hword, hafter⟩ := h.word
    rw [wordList_eq, wordList_eq, hword]
    rcases eq_none_or_some_of_rel (alike_afterComma? hafter) with ⟨hs, ht⟩ | ⟨a, b, hs, ht, hab⟩
    · rw [hs, ht]
    · have hlen := Nat.lt_of_lt_of_le (length_afterComma? hs) (length_afterWord_le s)
      rw [hs, ht]
      exact congrArg (leadingWord t :: ·) (ih a.length hlen hab rfl)

/-- Headers that differ in the gaps of their clauses declare the same edges. -/
theorem AlikeTo.edges_eq (h : header.AlikeTo header') (offset : Nat) :
    header.edges offset = header'.edges offset := by
  have hparent : header.parent? = header'.parent? := by
    rw [parent?, parent?]
    rcases eq_none_or_some_of_rel (alike_findKeyword? isName_extends h.clauses false) with
      ⟨hs, ht⟩ | ⟨a, b, hs, ht, hab⟩
    · rw [hs, ht]
    · rw [hs, ht, Option.map_some, Option.map_some, hab.word.1]
  have hinterfaces : header.interfaces = header'.interfaces := by
    rw [interfaces, interfaces]
    rcases eq_none_or_some_of_rel (alike_findKeyword? isName_implements h.clauses false) with
      ⟨hs, ht⟩ | ⟨a, b, hs, ht, hab⟩
    · rw [hs, ht]
    · rw [hs, ht]
      exact alike_wordList hab
  rw [edges, edges, hparent, hinterfaces, h.name]

end Header

namespace Outline

variable {c : Char} {text text' s t body after : List Char} {d : Nat}

/-- The gaps of a text do not matter to the level behind it. -/
theorem alike_level? (h : Alike s t) (d : Nat) : level? d s = level? d t := by
  have hblank : ∀ {k : List Char}, (∀ c ∈ k, isBlank c = true) → ∀ e, level? e k = some e := by
    intro k hk e
    exact level?_of_braceless (not_mem_of_run hk rfl) (not_mem_of_run hk rfl) e
  induction h generalizing d with
  | blank hg hg' => rw [hblank hg, hblank hg']
  | @char c s t hc h ih =>
    have hcons : ∀ u : List Char, level? d (c :: u) = (level? d [c]).bind fun e => level? e u :=
      fun u => level?_append d [c] u
    rw [hcons s, hcons t]
    exact congrArg _ (funext ih)
  | gap hg hc h ih =>
    rw [level?_append, level?_append, hblank hg.left.blank, hblank hg.right.blank]
    exact ih d

/-- Bodies end in step. -/
theorem alike_bodyEnd? (h : Alike s t) (d : Nat) :
    Option.Rel (fun a b => Alike a.1 b.1 ∧ Alike a.2 b.2) (bodyEnd? d s) (bodyEnd? d t) := by
  refine h.rel ?_
  rintro u v huv ⟨body, after⟩ ha
  obtain ⟨rfl, hlevel⟩ := bodyEnd?_eq_some_iff_level.mp ha
  obtain ⟨body', after', rfl, hbody, hafter⟩ := huv.cut rfl
  refine ⟨(body', after'), bodyEnd?_eq_some_iff_level.mpr ⟨rfl, ?_⟩, hbody, hafter⟩
  rw [← alike_level? hbody, hlevel]

/-- What follows the closing brace is an ending of the text. -/
theorem suffix_of_bodyEnd? (h : bodyEnd? d s = some (body, after)) : after <:+ s := by
  rw [eq_of_bodyEnd? h]
  exact (List.suffix_cons '}' after).trans (List.suffix_append body _)

/-- Two declarations found at the same place of two texts. -/
structure Occurrence.InStep (text text' : List Char) (o o' : Occurrence) : Prop where
  /-- The headers begin at the same place. -/
  place : SamePlace text text' o.start o'.start
  /-- The headers differ in the gaps of their clauses. -/
  header : o.header.AlikeTo o'.header
  /-- The bodies are alike. -/
  body : Alike o.body o'.body

/-- Texts that are alike have their declarations in step. -/
theorem alike_occurrences (h : Alike s t) (hs : s <:+ text) (ht : t <:+ text') (f : Bool) :
    List.Forall₂ (Occurrence.InStep text text') (occurrences f s) (occurrences f t) := by
  have hk := Header.isName_introducers
  have hpass := passes_occurrences
  induction hn : s.length using Nat.strongRecOn generalizing s t f with
  | ind n ih =>
    subst hn
    cases h with
    | blank hg hg' =>
      rw [hpass.of_blank hk (fun _ => occurrences_nil) hg,
        hpass.of_blank hk (fun _ => occurrences_nil) hg']
      exact .nil
    | @char c s t hc h =>
      have hnext := ih s.length (Nat.lt_succ_self _) h ((List.suffix_cons c s).trans hs)
        ((List.suffix_cons c t).trans ht) (isWord c) rfl
      cases f with
      | true =>
        rw [occurrences_cons (.inl rfl), occurrences_cons (.inl rfl)]
        exact hnext
      | false =>
        rcases eq_none_or_some_of_rel (Header.alike_read? (.char hc h)) with
          ⟨hr, hr'⟩ | ⟨⟨header, inside⟩, ⟨header', inside'⟩, hr, hr', hheader, hinside⟩
        · rw [occurrences_cons (.inr hr), occurrences_cons (.inr hr')]
          exact hnext
        · have hlen := Header.length_read? hr
          have hsuffix := (Header.suffix_of_read? hr).trans hs
          have hsuffix' := (Header.suffix_of_read? hr').trans ht
          rcases eq_none_or_some_of_rel (alike_bodyEnd? hinside 0) with
            ⟨hb, hb'⟩ | ⟨⟨body, after⟩, ⟨body', after'⟩, hb, hb', hbody, hafter⟩
          · rw [occurrences_of_unclosed hr hb, occurrences_of_unclosed hr' hb']
            exact ih _ hlen hinside hsuffix hsuffix' false rfl
          · have hbehind := suffix_of_bodyEnd? hb
            have hlen' : after.length < (c :: s).length :=
              Nat.lt_of_le_of_lt hbehind.length_le hlen
            rw [occurrences_of_body hr hb, occurrences_of_body hr' hb']
            have hplace : SamePlace text text' (c :: s) (c :: t) :=
              ⟨hs, ht, stops_cons.mpr hc, stops_cons.mpr hc, .char hc h⟩
            refine .cons ⟨hplace, hheader, hbody⟩ ?_
            exact ih _ hlen' hafter (hbehind.trans hsuffix)
              ((suffix_of_bodyEnd? hb').trans hsuffix') false rfl
    | @gap c g g' s t hg hc h =>
      have hlen := length_lt_append hg.left.ne_nil (c :: s)
      rw [hpass.gap hk hg.left, hpass.gap hk hg.right]
      exact ih _ hlen h ((List.suffix_append g _).trans hs) ((List.suffix_append g' _).trans ht)
        false rfl

end Outline

end UmlDraft
