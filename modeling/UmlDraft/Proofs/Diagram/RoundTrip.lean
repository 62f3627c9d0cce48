import UmlDraft.Proofs.Diagram.Links
import UmlDraft.Proofs.Diagram.MemberLine
import UmlDraft.Proofs.Diagram.Outline

/-!
# Diagrams read back

Reading the printed text of a printable diagram gives the diagram back. The text holds no quote,
so stripping comments keeps it. Its declarations are found one behind the other, each up to its
own closing brace, and none among the lines of the relations, which hold no brace; its arrows are
found in the lines of the relations only, as no bar stands before them. Main statement:
`Model.ofText_print`.
-/

namespace UmlDraft

open Text Outline

namespace Declaration

variable {d : Declaration} {ds : List Declaration} {s before rest : List Char}

/-- The header that a printed declaration has. -/
def printedHead (d : Declaration) : Header :=
  ⟨d.kind, d.name.toList, [' ']⟩

theorem Printable.captures (h : d.Printable) : d.printedHead.Captures d.printedHeader := by
  have hclauses : ∀ c ∈ [' '], Header.isClauseChar c = true := List.all_eq_true.mp (by decide)
  have hgap : ∀ c ∈ ([] : List Char), isBlank c = true := fun c hc => absurd hc List.not_mem_nil
  have hword : Stops isWord ([' '] ++ ([] ++ ['{'])) := stops_cons.mpr (by decide)
  have hopen : Stops Header.isClauseChar ([] ++ ['{']) := stops_cons.mpr (by decide)
  rw [printedHeader_eq]
  exact Header.captures_of_stops d.kind.keywords_introduction h.name hclauses hgap hword hopen

/-- A printed header announces no relations. -/
theorem edges_printedHead (d : Declaration) (offset : Nat) : d.printedHead.edges offset = [] := by
  have hextends : d.printedHead.parent? = none := by
    rw [Header.parent?, printedHead]
    rfl
  have himplements : d.printedHead.interfaces = [] := by
    rw [Header.interfaces, printedHead]
    rfl
  rw [Header.edges, hextends, himplements]
  rfl

theorem occurrences_feed (s : List Char) : occurrences false ('\n' :: s) = occurrences false s :=
  occurrences_cons (.inr rfl)

/-- A printed declaration is found, and the search goes on behind it. -/
theorem Printable.occurrences_print (h : d.Printable) (rest : List Char) :
    occurrences false (d.print ++ rest) =
      ⟨d.print ++ rest, d.printedHead, d.printedBody⟩ :: occurrences false rest := by
  have hread : Header.read? (d.print ++ rest) =
      some (d.printedHead, d.printedBody ++ '}' :: '\n' :: rest) := by
    refine Header.read?_eq_some_iff.mpr ⟨d.printedHeader, ?_, h.captures⟩
    simp only [print, List.append_assoc, List.cons_append, List.nil_append]
  have hbody : bodyEnd? 0 (d.printedBody ++ '}' :: '\n' :: rest) =
      some (d.printedBody, '\n' :: rest) :=
    bodyEnd?_eq_some_iff.mpr ⟨rfl, h.balanced_printedBody⟩
  rw [occurrences_of_body hread hbody, occurrences_feed]

/-- The occurrences of declarations that are printed one after the other in front of a text. -/
def printedOccurrences (rest : List Char) : List Declaration → List Occurrence
  | [] => []
  | d :: ds =>
    ⟨d.print ++ (ds.flatMap print ++ rest), d.printedHead, d.printedBody⟩ ::
      printedOccurrences rest ds

theorem occurrences_flatMap_print (h : ∀ d ∈ ds, d.Printable) (rest : List Char) :
    occurrences false (ds.flatMap print ++ rest) =
      printedOccurrences rest ds ++ occurrences false rest := by
  induction ds with
  | nil => rfl
  | cons d ds ih =>
    rw [List.flatMap_cons, List.append_assoc, (h d List.mem_cons_self).occurrences_print,
      ih fun e he => h e (List.mem_cons_of_mem d he), printedOccurrences, List.cons_append]

theorem Printable.isLineChar_printedHeader (h : d.Printable) :
    ∀ c ∈ d.printedHeader, UmlDraft.isLineChar c = true := by
  have hkeywords : (d.kind.introduction.all UmlDraft.isLineChar) = true := by
    cases d.kind with
    | concreteClass | abstractClass | interface => decide
  intro c hc
  rw [printedHeader_eq, List.mem_append, List.mem_append] at hc
  rcases hc with hc | hc | hc
  · exact List.all_eq_true.mp hkeywords c hc
  · exact isLineChar_of_isListChar
      (isListChar_of_isTypeChar (isTypeChar_of_isWord (h.name.word c hc)))
  · exact List.all_eq_true.mp (by decide : [' ', '{'].all UmlDraft.isLineChar = true) c hc

/-- A printed declaration consists of line characters and line feeds. -/
theorem Printable.mem_print (h : d.Printable) {c : Char} (hc : c ∈ d.print) :
    UmlDraft.isLineChar c = true ∨ c = '\n' := by
  rw [print, List.mem_append, List.mem_append] at hc
  rcases hc with hc | hc | hc
  · exact .inl (h.isLineChar_printedHeader c hc)
  · rcases List.mem_cons.mp hc with hc | hc
    · exact .inr hc
    · rcases mem_lines hc with hc | ⟨t, ht, hc⟩
      · exact .inr hc
      · exact .inl (h.isLineChar t ht c hc)
  · rw [List.mem_cons, List.mem_singleton] at hc
    rcases hc with rfl | rfl
    · exact .inl (by decide)
    · exact .inr rfl

theorem Printable.not_mem_print (h : d.Printable) {c : Char} (hc : UmlDraft.isLineChar c = false)
    (hn : c ≠ '\n') : c ∉ d.print := by
  intro hmem
  rcases h.mem_print hmem with hl | hl
  · rw [hc] at hl
    cases hl
  · exact hn hl

/-- A printed declaration takes as many lines as it says. -/
theorem Printable.count_print (h : d.Printable) : d.print.count '\n' = d.height := by
  have hheader : d.printedHeader.count '\n' = 0 :=
    List.count_eq_zero.mpr (not_mem_of_run h.isLineChar_printedHeader (by decide))
  have hbody : (lines d.memberLines).count '\n' = d.memberLines.length :=
    count_lines fun t ht => not_mem_of_run (h.isLineChar t ht) (by decide)
  have hend : ['}', '\n'].count '\n' = 1 := by decide
  rw [print, printedBody, List.count_append, List.count_append, List.count_cons_self, hheader,
    hbody, hend, height]
  omega

/-- The declarations of printed texts have the lines of their headers, and the members that were
printed. -/
theorem printedOccurrences_declarations (h : ∀ d ∈ ds, d.Printable) (before rest : List Char) :
    (printedOccurrences rest ds).map (fun o =>
        (o.name, (o.declaration (before ++ (ds.flatMap print ++ rest))).withMembers)) =
      printedFrom (1 + before.count '\n') (ds.map fun d => (d.name, d)) := by
  induction ds generalizing before with
  | nil => rfl
  | cons d ds ih =>
    have hd : d.Printable := h d List.mem_cons_self
    have htext : before ++ ((d :: ds).flatMap print ++ rest) =
        (before ++ d.print) ++ (ds.flatMap print ++ rest) := by
      simp only [List.flatMap_cons, List.append_assoc]
    have hline : 1 + (before ++ d.print).count '\n' = 1 + before.count '\n' + d.height := by
      rw [List.count_append, hd.count_print, Nat.add_assoc]
    have hrest := ih (fun e he => h e (List.mem_cons_of_mem d he)) (before ++ d.print)
    rw [printedOccurrences, List.map_cons, List.map_cons, printedFrom, htext, hrest, hline]
    refine congrArg (· :: _) (Prod.ext ?_ ?_)
    · exact String.ofList_toList
    · rw [← hd.withMembers]
      simp only [Occurrence.declaration, printedHead, String.ofList_toList, List.append_assoc,
        offsetIn_append, Comment.lineAt_units]

theorem printedOccurrences_names (rest : List Char) (ds : List Declaration) :
    (printedOccurrences rest ds).map Occurrence.name = ds.map Declaration.name := by
  induction ds with
  | nil => rfl
  | cons d ds ih =>
    rw [printedOccurrences, List.map_cons, List.map_cons, ih]
    exact congrArg (· :: _) String.ofList_toList

theorem header_of_mem_printedOccurrences {o : Occurrence} (ho : o ∈ printedOccurrences rest ds) :
    ∃ d ∈ ds, o.header = d.printedHead := by
  induction ds with
  | nil => cases ho
  | cons d ds ih =>
    rcases List.mem_cons.mp ho with rfl | ho
    · exact ⟨d, List.mem_cons_self, rfl⟩
    · obtain ⟨e, he, heq⟩ := ih ho
      exact ⟨e, List.mem_cons_of_mem d he, heq⟩

/-- No arrow is found among printed declarations. -/
theorem scan_flatMap_print (h : ∀ d ∈ ds, d.Printable) (a : Arrow) (offset : Nat)
    (rest : List Char) : a.scan offset (ds.flatMap print ++ rest) =
      a.scan (offset + units (ds.flatMap print)) rest := by
  induction ds generalizing offset with
  | nil => rfl
  | cons d ds ih =>
    have hd : d.Printable := h d List.mem_cons_self
    have hbar : '|' ∉ d.printedHeader ++ d.printedBody := by
      have hprint : '|' ∉ d.print := hd.not_mem_print (by decide) (by decide)
      rw [print, ← List.append_assoc, List.mem_append, not_or] at hprint
      exact hprint.1
    have htext : (d :: ds).flatMap print ++ rest =
        (d.printedHeader ++ d.printedBody) ++ '}' :: '\n' :: (ds.flatMap print ++ rest) := by
      simp only [List.flatMap_cons, print, List.append_assoc, List.cons_append, List.nil_append]
    rw [htext, Arrow.scan_append_close hbar, Arrow.scan_of_not_word (by decide),
      ih fun e he => h e (List.mem_cons_of_mem d he)]
    apply congrArg (a.scan · rest)
    simp only [List.flatMap_cons, print, units_append, units_cons, units_nil]
    have hclose : width '}' = 1 := rfl
    omega

end Declaration

namespace Model

variable {m : Model}

/-- The text of the declarations of a diagram. -/
def declarationText (m : Model) : List Char :=
  m.declarations.values.flatMap Declaration.print

theorem print_toList (m : Model) :
    m.print.toList = m.declarationText ++ Text.lines m.relationships.lines :=
  String.toList_ofList

/-- The entries of a diagram list its declarations under their names. -/
theorem Printable.entries_eq (h : m.Printable) :
    m.declarations.entries = m.declarations.values.map fun d => (d.name, d) :=
  Table.entries_eq_map_values h.names

/-- The declared names are words. -/
theorem Printable.isName_of_mem_keys (h : m.Printable) {name : String}
    (hn : name ∈ m.declarations.keys) : IsName name.toList := by
  obtain ⟨e, he, rfl⟩ := List.mem_map.mp hn
  rw [← h.names e he]
  exact (h.declarations e.2 (List.mem_map_of_mem he)).name

/-- The relations of a printable diagram are well-formed. -/
theorem Printable.wellFormed (h : m.Printable) :
    m.relationships.WellFormed fun name => m.declarations.contains name where
  parents child parent hget := by
    rw [Table.contains_eq_true, Table.contains_eq_true]
    exact h.parents (child, parent) (Table.mem_entries_iff.mpr hget)
  interfaces name targets hget := by
    have he := Table.mem_entries_iff.mpr hget
    refine ⟨?_, fun t ht => ?_, h.ne_nil _ he, h.nodup _ he⟩
    · rw [Table.contains_eq_true]
      exact h.implementing _ he
    · rw [Table.contains_eq_true]
      exact h.implemented _ he t ht

/-- The ends of every link are declared. -/
theorem Printable.declared_of_mem_links (h : m.Printable) {k : Link}
    (hk : k ∈ m.relationships.links) :
    k.left ∈ m.declarations.keys ∧ k.right ∈ m.declarations.keys := by
  have := h.wellFormed.declared_of_mem_links hk
  rwa [Table.contains_eq_true, Table.contains_eq_true] at this

theorem Printable.named (h : m.Printable) : ∀ k ∈ m.relationships.links, k.Named := fun _ hk =>
  ⟨h.isName_of_mem_keys (h.declared_of_mem_links hk).1,
    h.isName_of_mem_keys (h.declared_of_mem_links hk).2⟩

/-- Printed relations consist of names, arrows, spaces and line feeds. -/
theorem Printable.not_mem_lines (h : m.Printable) {c : Char} (hw : isWord c = false)
    (ha : c ∉ ['\n', ' ', '<', '>', '|', '-', '.']) : c ∉ Text.lines m.relationships.lines := by
  rw [Relationships.lines_eq]
  intro hc
  rcases mem_lines hc with rfl | ⟨t, ht, hc⟩
  · exact ha List.mem_cons_self
  · obtain ⟨k, hk, rfl⟩ := List.mem_map.mp ht
    rcases (h.named k hk).mem_print hc with hc | hc
    · rw [hw] at hc
      cases hc
    · exact ha (List.mem_cons_of_mem _ hc)

/-- A printed diagram has no comments. -/
theorem Printable.strip_print (h : m.Printable) : Comment.strip m.print = m.print := by
  apply Comment.strip_of_quoteless
  rw [print_toList, List.mem_append, not_or]
  constructor
  · intro hc
    obtain ⟨d, hd, hc⟩ := List.mem_flatMap.mp hc
    exact (h.declarations d hd).not_mem_print (by decide) (by decide) hc
  · exact h.not_mem_lines (by decide) (by decide)

/-- The declarations of a printed diagram are found one behind the other. -/
theorem Printable.occurrences_print (h : m.Printable) :
    occurrences false m.print.toList =
      Declaration.printedOccurrences (Text.lines m.relationships.lines) m.declarations.values := by
  have hopen : '{' ∉ Text.lines m.relationships.lines := h.not_mem_lines (by decide) (by decide)
  rw [print_toList, declarationText, Declaration.occurrences_flatMap_print h.declarations,
    occurrences_of_not_mem hopen, List.append_nil]

theorem Printable.keys_eq (h : m.Printable) :
    m.declarations.keys = m.declarations.values.map Declaration.name := by
  rw [Table.keys, h.entries_eq, List.map_map]
  rfl

/-- The names of a diagram are found in order. -/
theorem Printable.names_occurrences (h : m.Printable) :
    (occurrences false m.print.toList).map Occurrence.name = m.declarations.keys := by
  rw [h.occurrences_print, Declaration.printedOccurrences_names, h.keys_eq]

/-- The entries of the outline are what is found, in the same order. -/
theorem Printable.entries_outline (h : m.Printable) :
    (Outline.ofText m.print).declarations.entries =
      (occurrences false m.print.toList).map fun o => (o.name, o.declaration m.print.toList) := by
  have hkeys : ((occurrences false m.print.toList).map fun o =>
      (o.name, o.declaration m.print.toList)).map Prod.fst = m.declarations.keys := by
    rw [List.map_map]
    exact h.names_occurrences
  have hnodup : m.declarations.keys.Nodup := m.declarations.nodup
  rw [Outline.ofText, declarations_foldl, Table.entries_ofList (hkeys ▸ hnodup)]

/-- The names of the outline are those of the diagram, in order. -/
theorem Printable.keys_outline (h : m.Printable) :
    (Outline.ofText m.print).declarations.keys = m.declarations.keys := by
  rw [Table.keys, h.entries_outline, List.map_map]
  exact h.names_occurrences

/-- No name of the diagram is declared twice. -/
theorem Printable.duplicates_outline (h : m.Printable) :
    (Outline.ofText m.print).duplicates = [] := by
  rw [Outline.ofText, duplicates_foldl, h.names_occurrences]
  exact repeated_of_nodup m.declarations.nodup fun _ _ => List.not_mem_nil

/-- No printed header has an edge. -/
theorem Printable.headerEdges_outline (h : m.Printable) :
    (Outline.ofText m.print).headerEdges = [] := by
  rw [Outline.ofText, headerEdges_foldl, List.flatMap_eq_nil_iff]
  intro o ho
  have hmem := latest_subset _ ho
  rw [h.occurrences_print] at hmem
  obtain ⟨d, -, hd⟩ := Declaration.header_of_mem_printedOccurrences hmem
  rw [hd, d.edges_printedHead]

/-- The declarations of a printed diagram are read with their members. -/
theorem Printable.declarations_print (h : m.Printable) :
    ((Outline.ofText m.print).declarations.mapValues Declaration.withMembers).entries =
      Declaration.printedFrom 1 m.declarations.entries := by
  have hread := Declaration.printedOccurrences_declarations h.declarations []
    (Text.lines m.relationships.lines)
  have htext : [] ++ (m.declarations.values.flatMap Declaration.print ++
      Text.lines m.relationships.lines) = m.print.toList := by
    rw [List.nil_append, print_toList, declarationText]
  rw [htext, ← h.entries_eq, ← h.occurrences_print] at hread
  have hvalues : ((Outline.ofText m.print).declarations.mapValues Declaration.withMembers).entries =
      (Outline.ofText m.print).declarations.entries.map fun e => (e.1, e.2.withMembers) := rfl
  rw [hvalues, h.entries_outline, List.map_map]
  exact hread

/-- The arrows of a printed diagram are those of its links. -/
theorem Printable.edges_print (h : m.Printable) :
    Arrow.edges m.print =
      (Link.placed (units m.declarationText) m.relationships.links).map fun p => p.2.edge p.1 := by
  have hscan : ∀ a : Arrow, a.scan 0 m.print.toList =
      a.scan (units m.declarationText) (Text.lines m.relationships.lines) := by
    intro a
    rw [print_toList, declarationText, Declaration.scan_flatMap_print h.declarations, Nat.zero_add]
  rw [Arrow.edges, ← Relationships.edges_lines m.relationships h.named]
  exact List.flatMap_congr fun a _ => hscan a

/-- The relations of a printed diagram are read back. -/
theorem Printable.relationships_print (h : m.Printable) :
    Relationships.ofText m.print (Outline.ofText m.print).declarations.contains [] =
      m.relationships := by
  have hdeclared : ∀ k ∈ m.relationships.links,
      (Outline.ofText m.print).declarations.contains k.left = true ∧
        (Outline.ofText m.print).declarations.contains k.right = true := by
    intro k hk
    rw [Table.contains_eq_true, Table.contains_eq_true, h.keys_outline]
    exact h.declared_of_mem_links hk
  rw [Relationships.ofText, List.nil_append, h.edges_print, Relationships.ofEdges,
    Relationships.effective_placed hdeclared, Relationships.foldl_placed,
    h.wellFormed.foldl_links]

/-- Reading undoes printing. The text of a printable diagram is read as its declarations, each
with its kind, its attributes and its methods, and with the body and the line that it has in the
text; as its relations, in their order; and without a duplicate. -/
theorem ofText_print (h : m.Printable) :
    (Model.ofText m.print).declarations.entries =
        Declaration.printedFrom 1 m.declarations.entries ∧
      (Model.ofText m.print).relationships = m.relationships ∧
      (Model.ofText m.print).duplicates = [] := by
  rw [Model.ofText, h.strip_print]
  refine ⟨h.declarations_print, ?_, h.duplicates_outline⟩
  rw [h.headerEdges_outline]
  exact h.relationships_print

/-- A diagram whose names are keywords and digits, and whose types have arguments and arrays. -/
def keywordDiagram : Model where
  declarations := .ofList
    [("extends", {
        name := "extends"
        kind := .abstractClass
        body := ""
        attributes := [⟨.priv, "Map<K, V>[]", "class"⟩]
        methods :=
          [⟨.prot, "static", [.typed "interface" "a.b", .typed "at" "T[][]"], "..", true, true⟩]
        line := 0 }),
      ("class", ⟨"class", .concreteClass, "", [], [], 0⟩),
      ("42", ⟨"42", .interface, "", [], [⟨.pack, "x", [], "void", false, false⟩], 0⟩)]
  relationships := {
    parents := .ofList [("class", "extends")]
    interfaces := .ofList [("extends", ["42", "class"])] }

theorem printable_keywordDiagram : keywordDiagram.Printable := by
  have hname : ∀ w ∈ ["extends", "class", "42", "static", "interface", "at", "x"],
      IsName w.toList := by
    intro w hw
    simp only [List.mem_cons, List.not_mem_nil, or_false] at hw
    rcases hw with rfl | rfl | rfl | rfl | rfl | rfl | rfl
    all_goals exact ⟨by decide, List.all_eq_true.mp (by decide)⟩
  have hdotted : ∀ t ∈ ["a.b", "..", "void"], IsPlainType t.toList := by
    intro t ht
    rw [← List.append_nil t.toList, ← List.append_nil (t.toList ++ [])]
    simp only [List.mem_cons, List.not_mem_nil, or_false] at ht
    rcases ht with rfl | rfl | rfl
    all_goals exact .mk 0 (by decide) (List.all_eq_true.mp (by decide)) .none
  have hmap : IsPlainType "Map<K, V>[]".toList :=
    .mk 1 (by decide : "Map".toList ≠ []) (List.all_eq_true.mp (by decide))
      (isPlainArguments_of_all (s := "K, V".toList) (by decide) (by decide))
  have hgrid : IsPlainType "T[][]".toList :=
    .mk 2 (by decide : ['T'] ≠ []) (List.all_eq_true.mp (by decide)) .none
  refine ⟨by decide, ?_, by decide, by decide, by decide, by decide, by decide⟩
  intro d hd
  have hvalues : keywordDiagram.declarations.values = [_, _, _] := rfl
  rw [hvalues] at hd
  simp only [List.mem_cons, List.not_mem_nil, or_false] at hd
  rcases hd with rfl | rfl | rfl
  · refine ⟨hname _ (by decide), ?_, ?_⟩
    · intro a ha
      obtain rfl := List.mem_singleton.mp ha
      exact ⟨hname _ (by decide), hmap⟩
    · intro m hm
      obtain rfl := List.mem_singleton.mp hm
      refine ⟨hname _ (by decide), hdotted _ (by decide), ?_⟩
      intro p hp
      simp only [List.mem_cons, List.not_mem_nil, or_false] at hp
      rcases hp with rfl | rfl
      · exact .typed (hname _ (by decide)) (hdotted _ (by decide)) (by decide)
      · exact .typed (hname _ (by decide)) hgrid (by decide)
  · refine ⟨hname _ (by decide), ?_, ?_⟩
    · exact fun a ha => absurd ha List.not_mem_nil
    · exact fun m hm => absurd hm List.not_mem_nil
  · refine ⟨hname _ (by decide), fun a ha => absurd ha List.not_mem_nil, ?_⟩
    intro m hm
    obtain rfl := List.mem_singleton.mp hm
    exact ⟨hname _ (by decide), hdotted _ (by decide), fun p hp => absurd hp List.not_mem_nil⟩

/-- The diagram is read back from its text. -/
theorem ofText_print_keywords : keywordDiagram.Printable ∧
    keywordDiagram.print = "abstract class extends \x7b\n  - class: Map<K, V>[]\n" ++
      "  # \x7babstract\x7d \x7bstatic\x7d static(interface: a.b, at: T[][]): ..\n\x7d\n" ++
      "class class \x7b\n\x7d\ninterface 42 \x7b\n  ~ x(): void\n\x7d\n" ++
      "extends <|-- class\nextends ..|> 42\nextends ..|> class\n" ∧
    (Model.ofText keywordDiagram.print).declarations.entries =
      Declaration.printedFrom 1 keywordDiagram.declarations.entries ∧
    (Model.ofText keywordDiagram.print).relationships = keywordDiagram.relationships ∧
    (Model.ofText keywordDiagram.print).duplicates = [] :=
  ⟨printable_keywordDiagram, by decide +kernel, ofText_print printable_keywordDiagram⟩

end Model

end UmlDraft
