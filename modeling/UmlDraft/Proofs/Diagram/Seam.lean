import Mathlib.Data.List.Nodup
import UmlDraft.Proofs.Diagram.Outline

/-!
# Outlines across a seam

Where one text ends with a closing brace and the next closes every brace that it opens, nothing
reaches over the seam between them: no header does, since header texts hold no closing brace, and
no body does, since the second text closes nothing that the first has left open. Main statement:
the outline of the two texts put together is made of their outlines.
-/

namespace UmlDraft

open Text

/-- The declaration with its header so many lines further down. -/
def Declaration.lowered (feeds : Nat) (d : Declaration) : Declaration :=
  { d with line := d.line + feeds }

/-- The edge so many units further on. -/
def Edge.shifted (n : Nat) (e : Edge) : Edge :=
  { e with offset := e.offset + n }

namespace Outline

variable {f : Bool} {s t u inside body after before : List Char} {header : Header}
  {o : Occurrence}

/-- A closed text is empty or ends with a closing brace. -/
def Closed (s : List Char) : Prop :=
  ∀ c ∈ s.getLast?, c = '}'

theorem Closed.of_suffix (hs : Closed s) (h : t <:+ s) : Closed t :=
  fun c hc => hs c (mem_getLast?_of_suffix h hc)

/-- No word is under way behind a closed text. -/
theorem Closed.wordBehind (hs : Closed s) : wordBehind false s = false :=
  wordBehind_false_iff.mpr fun c hc => hs c hc ▸ rfl

theorem Closed.exists_eq_append (hs : Closed s) (hne : s ≠ []) : ∃ u, s = u ++ ['}'] :=
  eq_concat_of_getLast? hs hne

/-- No header text reaches over a closing brace. -/
theorem read?_append_close (u t : List Char) :
    Header.read? (u ++ '}' :: t) =
      (Header.read? (u ++ ['}'])).map fun r => (r.1, r.2 ++ t) := by
  cases hr : Header.read? (u ++ ['}']) with
  | some r =>
    obtain ⟨text, he, hc⟩ := Header.read?_eq_some_iff.mp hr
    refine Header.read?_eq_some_iff.mpr ⟨text, ?_, hc⟩
    rw [← List.append_assoc, ← he, List.append_assoc, List.singleton_append]
  | none =>
    rw [Option.map_none, Option.eq_none_iff_forall_ne_some]
    rintro ⟨header, inside⟩ hr'
    obtain ⟨text, he, hc⟩ := Header.read?_eq_some_iff.mp hr'
    have hclose := hc.divides.close_not_mem
    -- The header text ends before the brace, so it is read without what follows the brace.
    obtain ⟨v, rfl⟩ : ∃ v, u = text ++ v := by
      rcases List.append_eq_append_iff.mp he with ⟨v, rfl, hv⟩ | ⟨v, hv, -⟩
      · cases v with
        | nil => exact ⟨[], by rw [List.append_nil, List.append_nil]⟩
        | cons c v =>
          obtain rfl := (List.cons.inj hv).1
          exact absurd (List.mem_append_right u List.mem_cons_self) hclose
      · exact ⟨v, hv⟩
    have hread : Header.read? (text ++ v ++ ['}']) = some (header, v ++ ['}']) :=
      Header.read?_eq_some_iff.mpr ⟨text, List.append_assoc _ _ _, hc⟩
    rw [hread] at hr
    cases hr

/-- A body that ends does so whatever follows. -/
theorem bodyEnd?_append_of_some (h : bodyEnd? 0 s = some (body, after)) (t : List Char) :
    bodyEnd? 0 (s ++ t) = some (body, after ++ t) := by
  obtain ⟨rfl, hb⟩ := bodyEnd?_eq_some_iff.mp h
  refine bodyEnd?_eq_some_iff.mpr ⟨?_, hb⟩
  rw [List.append_assoc, List.cons_append]

/-- A balanced text ends no body that another text has left open. -/
theorem bodyEnd?_append_of_none (h : bodyEnd? 0 s = none) (ht : Balanced t) :
    bodyEnd? 0 (s ++ t) = none := by
  rw [Option.eq_none_iff_forall_ne_some]
  rintro ⟨body, after⟩ hb
  obtain ⟨he, hbal⟩ := bodyEnd?_eq_some_iff.mp hb
  have hopen : ∀ v, s ≠ body ++ '}' :: v := by
    rintro v rfl
    rw [bodyEnd?_eq_some_iff.mpr ⟨rfl, hbal⟩] at h
    cases h
  -- The brace would stand in the second text and close one more than that text has opened.
  rcases List.append_eq_append_iff.mp he with ⟨v, rfl, hv⟩ | ⟨v, hv, hv'⟩
  · have hlevel := balanced_iff.mp hbal
    rw [level?_append] at hlevel
    obtain ⟨e, hs, hlevel⟩ := Option.bind_eq_some_iff.mp hlevel
    have hprefix := ht.count_le (v ++ ['}']) ⟨after, by
      rw [hv, List.append_assoc, List.singleton_append]⟩
    have hcount := (level?_eq_some_iff.mp hlevel).2
    rw [List.count_append, List.count_append] at hprefix
    simp at hprefix
    omega
  · cases v with
    | nil =>
      have hclose := ht.count_le ['}'] ⟨after, by
        rw [List.singleton_append]
        exact hv'⟩
      exact absurd hclose (by decide)
    | cons c v =>
      obtain rfl := (List.cons.inj hv').1
      exact hopen v hv

/-- The occurrence in a text that goes on with another. -/
def Occurrence.extended (t : List Char) (o : Occurrence) : Occurrence :=
  { o with start := o.start ++ t }

/-- A header is read in a closed text as it is read where the text goes on. -/
theorem Closed.read?_append (hs : Closed s) (hne : s ≠ []) (t : List Char) :
    Header.read? (s ++ t) = (Header.read? s).map fun r => (r.1, r.2 ++ t) := by
  obtain ⟨u, rfl⟩ := hs.exists_eq_append hne
  rw [List.append_assoc, List.singleton_append, read?_append_close]

/-- The declarations of two texts put together are those of the first and those of the second. -/
theorem occurrences_append (hs : Closed s) (hw : wordBehind f s = false) (ht : Balanced t) :
    occurrences f (s ++ t) =
      (occurrences f s).map (Occurrence.extended t) ++ occurrences false t := by
  fun_induction occurrences f s with
  | case1 f =>
    rw [wordBehind_nil] at hw
    rw [hw, List.nil_append, List.map_nil, List.nil_append]
  | case2 f c rest hn ih =>
    have hnone : f = true ∨ Header.read? (c :: (rest ++ t)) = none := by
      cases f with
      | true => exact .inl rfl
      | false =>
        have hr : Header.read? (c :: rest) = none := hn
        rw [← List.cons_append, hs.read?_append (List.cons_ne_nil c rest), hr]
        exact .inr rfl
    rw [List.cons_append, occurrences_cons hnone, ih (hs.of_suffix (List.suffix_cons c rest)) hw]
  | case3 f c rest header inside hr body after hb ih =>
    obtain ⟨rfl, hheader⟩ := eq_some_of_ite hr
    obtain ⟨text, hst⟩ := exists_stands hheader hb
    have hafter : after <:+ c :: rest := ⟨text ++ (body ++ ['}']), by
      rw [show c :: rest = _ from hst.start_eq, List.append_assoc, List.append_assoc,
        List.singleton_append]⟩
    have hclosed := hs.of_suffix hafter
    have hread := hs.read?_append (List.cons_ne_nil c rest) t
    rw [hheader, Option.map_some] at hread
    rw [occurrences_of_body hread (bodyEnd?_append_of_some hb t),
      ih hclosed hclosed.wordBehind, List.map_cons, List.cons_append]
    rfl
  | case4 f c rest header inside hr hb ih =>
    obtain ⟨rfl, hheader⟩ := eq_some_of_ite hr
    obtain ⟨text, he, -⟩ := Header.read?_eq_some_iff.mp hheader
    have hclosed := hs.of_suffix ⟨text, he.symm⟩
    have hread := hs.read?_append (List.cons_ne_nil c rest) t
    rw [hheader, Option.map_some] at hread
    rw [occurrences_of_unclosed hread (bodyEnd?_append_of_none hb ht),
      ih hclosed hclosed.wordBehind]

/-- What a declaration that was found says of its place. -/
theorem Occurrence.declaration_eq (hs : s = before ++ o.start) :
    offsetIn s o.start = units before ∧ o.declaration s =
      { name := o.name
        kind := o.header.kind
        body := .ofList o.body
        attributes := []
        methods := []
        line := (1 + before.count '\n' : Nat) } := by
  have hoffset : offsetIn s o.start = units before := by rw [hs, offsetIn_append]
  refine ⟨hoffset, ?_⟩
  rw [declaration, hoffset, hs, Comment.lineAt_units]
  rfl

/-- What is found in the first of two texts has the place that it has there. -/
theorem extended_of_mem (ho : o ∈ occurrences false s) (t : List Char) :
    offsetIn (s ++ t) (o.extended t).start = offsetIn s o.start ∧
      (o.extended t).declaration (s ++ t) = o.declaration s := by
  obtain ⟨before, -, -, hs, -⟩ := exists_stands_of_mem ho
  have hst : s ++ t = before ++ (o.extended t).start := by
    rw [hs, List.append_assoc]
    rfl
  rw [(Occurrence.declaration_eq hst).1, (Occurrence.declaration_eq hst).2,
    (Occurrence.declaration_eq hs).1, (Occurrence.declaration_eq hs).2]
  exact ⟨rfl, rfl⟩

/-- What is found in the second of two texts lies behind the first. -/
theorem lowered_of_mem (ho : o ∈ occurrences false t) (s : List Char) :
    offsetIn (s ++ t) o.start = units s + offsetIn t o.start ∧
      o.declaration (s ++ t) = (o.declaration t).lowered (s.count '\n') := by
  obtain ⟨before, -, -, ht, -⟩ := exists_stands_of_mem ho
  have hst : s ++ t = (s ++ before) ++ o.start := by
    rw [ht, List.append_assoc]
  rw [(Occurrence.declaration_eq hst).1, (Occurrence.declaration_eq hst).2,
    (Occurrence.declaration_eq ht).1, (Occurrence.declaration_eq ht).2]
  have hline : ((1 + (s.count '\n' + before.count '\n') : Nat) : Int) =
      (1 + before.count '\n' : Nat) + s.count '\n' := by
    omega
  refine ⟨units_append s before, ?_⟩
  rw [Declaration.lowered, List.count_append, hline]

theorem edges_add (h : Header) (offset n : Nat) :
    h.edges (n + offset) = (h.edges offset).map (Edge.shifted n) := by
  have hcast : ((n + offset : Nat) : Int) = offset + n := by omega
  simp only [Header.edges, hcast, List.map_append, List.map_map, Option.toList_map]
  rfl

/-- Setting the entries of a table made from a list of found declarations lowers each of them. -/
theorem declarations_append (hs : Closed s) (ht : Balanced t) :
    Table.ofList ((occurrences false (s ++ t)).map fun o => (o.name, o.declaration (s ++ t))) =
      (Table.ofList ((occurrences false s).map fun o => (o.name, o.declaration s))).insertAll
        (((Table.ofList ((occurrences false t).map fun o => (o.name, o.declaration t))).mapValues
          (Declaration.lowered (s.count '\n'))).entries) := by
  have hfront : (occurrences false s).map
      ((fun o => (o.name, o.declaration (s ++ t))) ∘ Occurrence.extended t) =
        (occurrences false s).map fun o => (o.name, o.declaration s) :=
    List.map_congr_left fun o ho => congrArg (Prod.mk o.name) (extended_of_mem ho t).2
  have hback : (occurrences false t).map (fun o => (o.name, o.declaration (s ++ t))) =
      (occurrences false t).map
        fun o => (o.name, (o.declaration t).lowered (s.count '\n')) :=
    List.map_congr_left fun o ho => congrArg (Prod.mk o.name) (lowered_of_mem ho s).2
  rw [occurrences_append hs hs.wordBehind ht, List.map_append, List.map_map, hfront, hback,
    Table.mapValues_ofList, Table.insertAll_entries_ofList, List.map_map]
  exact Table.insertAll_append _ _ _

/-- Where two texts are put together, the headers of the first text count whose name the second
does not declare. -/
theorem headerEdges_append (hs : Closed s) (ht : Balanced t) {keep : String → Bool}
    (hkeep : ∀ n, keep n = true ↔ n ∉ (occurrences false t).map Occurrence.name) :
    (latest Occurrence.name (occurrences false (s ++ t))).flatMap
        (fun o => o.header.edges (offsetIn (s ++ t) o.start)) =
      ((latest Occurrence.name (occurrences false s)).flatMap
        fun o => o.header.edges (offsetIn s o.start)).filter (keep ·.source) ++
      ((latest Occurrence.name (occurrences false t)).flatMap
        fun o => o.header.edges (offsetIn t o.start)).map (Edge.shifted (units s)) := by
  have htest : (fun o : Occurrence =>
      decide (o.name ∉ (occurrences false t).map Occurrence.name)) = (keep ·.name) := by
    funext o
    rw [Bool.eq_iff_iff, decide_eq_true_iff, hkeep]
  have hfront : ∀ o ∈ (latest Occurrence.name (occurrences false s)).filter (keep ·.name),
      (o.extended t).header.edges (offsetIn (s ++ t) (o.extended t).start) =
        o.header.edges (offsetIn s o.start) := by
    intro o ho
    have hmem := latest_subset _ (List.mem_filter.mp ho).1
    rw [(extended_of_mem hmem t).1]
    rfl
  have hback : ∀ o ∈ latest Occurrence.name (occurrences false t),
      o.header.edges (offsetIn (s ++ t) o.start) =
        (o.header.edges (offsetIn t o.start)).map (Edge.shifted (units s)) := by
    intro o ho
    rw [(lowered_of_mem (latest_subset _ ho) s).1, edges_add]
  rw [occurrences_append hs hs.wordBehind ht, latest_append, List.flatMap_append,
    latest_map, htest, filter_flatMap_edges, List.map_flatMap, List.flatMap_congr hback]
  rw [List.filter_map, List.flatMap_map]
  exact congrArg (· ++ _) (List.flatMap_congr hfront)

theorem names_append (hs : Closed s) (ht : Balanced t) :
    (occurrences false (s ++ t)).map Occurrence.name =
      (occurrences false s).map Occurrence.name ++ (occurrences false t).map Occurrence.name := by
  rw [occurrences_append hs hs.wordBehind ht, List.map_append, List.map_map]
  rfl

/-- Of two lists put together, a name is repeated as often as in each of them, and once more if
both have it. -/
theorem perm_repeated_append {l r names : List String} {shared : String → Bool}
    (hnodup : names.Nodup) (hnames : ∀ n, n ∈ names ↔ n ∈ l)
    (hshared : ∀ n, shared n = true ↔ n ∈ r) :
    (repeated [] (l ++ r)).Perm (repeated [] l ++ repeated [] r ++ names.filter shared) := by
  rw [List.perm_iff_count]
  intro n
  have hnil : ∀ k : List String, (repeated [] k).count n = k.count n - 1 := fun k => by
    rw [count_repeated, if_neg List.not_mem_nil]
  have hmem : n ∈ names.filter shared ↔ n ∈ l ∧ n ∈ r := by
    rw [List.mem_filter, hnames, hshared]
  have hcount := (hnodup.sublist List.filter_sublist).count (a := n) (l := names.filter shared)
  rw [repeated_append, List.append_nil, List.count_append, List.count_append, List.count_append,
    hnil, hnil, count_repeated, hcount, if_congr hmem rfl rfl]
  by_cases hl : n ∈ l
  · by_cases hr : n ∈ r
    · have hpos : 0 < r.count n := List.count_pos_iff.mpr hr
      rw [if_pos hl, if_pos ⟨hl, hr⟩]
      omega
    · have hzero : r.count n = 0 := List.count_eq_zero.mpr hr
      rw [if_pos hl, if_neg fun h => hr h.2]
      omega
  · rw [if_neg hl, if_neg fun h => hl h.1]
    omega

/-- Names that were not seen before are repeated as if nothing had been. -/
theorem repeated_of_disjoint {seen names : List String} (h : ∀ n ∈ names, n ∉ seen)
    (more : List String) : repeated (more ++ seen) names = repeated more names := by
  induction names generalizing more with
  | nil => rfl
  | cons n names ih =>
    have hn : n ∈ more ++ seen ↔ n ∈ more := by
      rw [List.mem_append, or_iff_left (h n List.mem_cons_self)]
    have hrest := ih fun m hm => h m (List.mem_cons_of_mem n hm)
    rw [repeated, repeated, if_congr hn rfl rfl, hrest more, ← List.cons_append, hrest (n :: more)]

/-- The outline of two texts put together, where the first is empty or ends with a closing brace
and the second closes what it opens. Its declarations are those of the first text, updated by those
of the second, which stand so many lines further down as the first text has line feeds. Its header
edges are those of the first text whose source the second does not declare, and behind them those
of the second, so many units further on as the first text has. Its duplicates are those of the two
texts and, once more, the names that both declare; without such a name they keep their order. -/
theorem ofText_append {s t : String} (hs : Closed s.toList) (ht : Balanced t.toList) :
    (ofText (s ++ t)).declarations =
        (ofText s).declarations.insertAll
          ((ofText t).declarations.mapValues (Declaration.lowered (s.toList.count '\n'))).entries ∧
      (ofText (s ++ t)).headerEdges =
        (ofText s).headerEdges.filter (fun e => !(ofText t).declarations.contains e.source) ++
          (ofText t).headerEdges.map (Edge.shifted (units s.toList)) ∧
      (ofText (s ++ t)).duplicates.Perm ((ofText s).duplicates ++ (ofText t).duplicates ++
        (ofText s).declarations.keys.filter (ofText t).declarations.contains) ∧
      ((∀ name ∈ (ofText s).declarations.keys, name ∉ (ofText t).declarations.keys) →
        (ofText (s ++ t)).duplicates = (ofText s).duplicates ++ (ofText t).duplicates) := by
  have htext : (s ++ t).toList = s.toList ++ t.toList := String.toList_append
  have hnames (u : String) (n : String) : n ∈ (ofText u).declarations.keys ↔
      n ∈ (occurrences false u.toList).map Occurrence.name := by
    rw [← Table.contains_eq_true]
    exact contains_foldl u.toList (occurrences false u.toList) n
  have hdeclared (n : String) : (ofText t).declarations.contains n = true ↔
      n ∈ (occurrences false t.toList).map Occurrence.name := by
    rw [Table.contains_eq_true, hnames]
  refine ⟨?_, ?_, ?_, ?_⟩
  · simp only [ofText, declarations_foldl, htext]
    exact declarations_append hs ht
  · have hkeep (n : String) : (!(ofText t).declarations.contains n) = true ↔
        n ∉ (occurrences false t.toList).map Occurrence.name := by
      rw [Bool.not_eq_true', ← Bool.not_eq_true, hdeclared]
    have hedges := headerEdges_append hs ht hkeep
    simp only [ofText, headerEdges_foldl, htext] at hedges ⊢
    exact hedges
  · have hperm := perm_repeated_append (ofText s).declarations.nodup (hnames s) hdeclared
    simp only [ofText, duplicates_foldl, htext, names_append hs ht] at hperm ⊢
    exact hperm
  · intro hdisjoint
    have hnew : ∀ n ∈ (occurrences false t.toList).map Occurrence.name,
        n ∉ (occurrences false s.toList).map Occurrence.name := by
      intro n hn hm
      exact hdisjoint n ((hnames s n).mpr hm) ((hnames t n).mpr hn)
    have hback := repeated_of_disjoint hnew []
    simp only [ofText, duplicates_foldl, htext, names_append hs ht, repeated_append]
    rw [List.append_nil]
    exact congrArg _ hback

/-- A text with a body that never ends and a declaration with a parent. -/
def openText : String :=
  "class X \x7b\nabstract class A extends B \x7b\n\x7d"

/-- A text that declares the same name again, and one that is new. -/
def nextText : String :=
  "\ninterface A \x7b \x7b \x7d \x7d\nclass C implements A \x7b\x7d"

/-- Two texts that share a name, put together. -/
theorem ofText_append_shared :
    Closed openText.toList ∧ Balanced nextText.toList ∧
      (ofText openText).declarations.keys = ["A"] ∧
      (ofText nextText).declarations.keys = ["A", "C"] ∧
      (ofText (openText ++ nextText)).declarations =
        (ofText openText).declarations.insertAll ((ofText nextText).declarations.mapValues
          (Declaration.lowered (openText.toList.count '\n'))).entries ∧
      (ofText (openText ++ nextText)).headerEdges =
        (ofText openText).headerEdges.filter
            (fun e => !(ofText nextText).declarations.contains e.source) ++
          (ofText nextText).headerEdges.map (Edge.shifted (units openText.toList)) ∧
      (ofText (openText ++ nextText)).duplicates.Perm
        ((ofText openText).duplicates ++ (ofText nextText).duplicates ++
          (ofText openText).declarations.keys.filter (ofText nextText).declarations.contains) := by
  have hs : Closed openText.toList := fun c hc => (Option.some.inj hc).symm
  have ht : Balanced nextText.toList := balanced_iff.mpr rfl
  obtain ⟨hdeclarations, hedges, hduplicates, -⟩ := ofText_append hs ht
  exact ⟨hs, ht, by decide +kernel, by decide +kernel, hdeclarations, hedges, hduplicates⟩

end Outline

end UmlDraft
