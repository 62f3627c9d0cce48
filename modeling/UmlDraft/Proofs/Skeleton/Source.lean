import UmlDraft.Proofs.Diagram.Clause
import UmlDraft.Proofs.Diagram.WellFormed
import UmlDraft.Proofs.Skeleton.Block
import UmlDraft.Setup.Load

/-!
# Generated types read back

A generated type is a declaration in the notation of diagrams: its header is one that the outline
reads, and its body ends at the last brace. Before the header stand lines that announce nothing,
and behind the closing brace stands a line feed. So the outline of a generated file is the one
declaration that it was generated from, with the parent and the interfaces that its header names.
-/

namespace UmlDraft

open Text

/-- A text leaves the level as it was. -/
def Flat (s : String) : Prop :=
  ∀ d, level? d s.toList = some d

section Body

variable {ls : List String} {separator : String} {d : Declaration} {m : Model} {style : Style}

/-- Even lines that are joined leave the level as it was. -/
theorem flat_intercalate (hs : Plain separator) (h : Even ls) :
    Flat (separator.intercalate ls) := by
  intro d
  rw [String.toList_intercalate, level?_intercalate hs.1 hs.2, h]

theorem even_of_flat (h : ∀ s ∈ ls, Flat s) : Even ls := by
  intro d
  induction ls with
  | nil => rfl
  | cons s ls ih =>
    rw [List.map_cons, levelAll?_cons, h s List.mem_cons_self, Option.bind_some]
    exact ih fun s hs => h s (List.mem_cons_of_mem _ hs)

/-- A declaration whose members and whose parent's attributes can be written out without a brace. -/
structure Declaration.Writable (d : Declaration) (m : Model) : Prop where
  /-- The name is a word. -/
  name : IsName d.name.toList
  /-- The type's own attributes. -/
  attributes : ∀ a ∈ d.attributes, a.Plain
  /-- The attributes of the parent. -/
  inherited : ∀ a ∈ d.inherited m, a.Plain
  /-- The methods. -/
  methods : ∀ method ∈ d.methods, method.Plain

namespace Declaration

theorem mem_attributes_of_mem_fields {a : Attribute} (h : a ∈ d.fields) : a ∈ d.attributes := by
  unfold fields at h
  split at h
  · cases h
  · exact h

/-- What the blocks of a type are: its fields, and for a class its constructor and the accessors of
its private fields, and its methods. -/
theorem mem_blocks_iff {b : Block} :
    b ∈ d.blocks m ↔ (d.fields ≠ [] ∧ b = .fields d.fields) ∨
      (d.kind ≠ .interface ∧ (b = .construction d.name (d.inherited m) d.fields ∨
        ∃ a ∈ d.fields, a.visibility = .priv ∧ (b = .getter a ∨ b = .setter a))) ∨
      ∃ method ∈ d.methods, b = .ofMethod d.kind method := by
  have hfields : b ∈ (if d.fields = [] then [] else [Block.fields d.fields]) ↔
      d.fields ≠ [] ∧ b = .fields d.fields := by
    split <;> simp [*]
  have haccessors : ∀ a, b ∈ Block.accessors a ↔
      a.visibility = .priv ∧ (b = .getter a ∨ b = .setter a) := by
    intro a
    unfold Block.accessors
    split <;> simp [*]
  have hclass : b ∈ (if d.kind = .interface then []
      else .construction d.name (d.inherited m) d.fields :: d.fields.flatMap Block.accessors) ↔
      d.kind ≠ .interface ∧ (b = .construction d.name (d.inherited m) d.fields ∨
        ∃ a ∈ d.fields, a.visibility = .priv ∧ (b = .getter a ∨ b = .setter a)) := by
    split <;> simp [*]
  rw [blocks, List.mem_append, List.mem_append, hfields, hclass, List.mem_map, or_assoc]
  simp only [eq_comm]

/-- Every block of a type that can be written out is plain. -/
theorem Writable.plain_of_mem_blocks (hd : d.Writable m) {b : Block} (hb : b ∈ d.blocks m) :
    b.Plain := by
  have hfields : ∀ a ∈ d.fields, a.Plain := fun a ha =>
    hd.attributes a (mem_attributes_of_mem_fields ha)
  rcases mem_blocks_iff.mp hb with ⟨-, rfl⟩ | ⟨-, rfl | ⟨a, ha, -, rfl | rfl⟩⟩ | ⟨method, hm, rfl⟩
  · exact hfields
  · refine ⟨hd.name, fun a ha => ?_⟩
    rcases List.mem_append.mp ha with ha | ha
    · exact hd.inherited a ha
    · exact hfields a ha
  · exact hfields a ha
  · exact hfields a ha
  · have hplain := hd.methods method hm
    unfold Block.ofMethod
    split
    · exact hplain
    · split
      · exact hplain
      · exact hplain
    · exact hplain

/-- The text between the braces of a generated type leaves the level as it was. -/
theorem Writable.even_bodyText (hd : d.Writable m) (hi : UmlDraft.Plain style.indentation) :
    Even (d.bodyText style m) := by
  unfold bodyText
  split
  · exact fun _ => rfl
  · refine even_of_flat fun s hs => ?_
    rw [List.mem_singleton.mp hs]
    refine flat_intercalate (by decide) (even_of_flat fun t ht => ?_)
    obtain ⟨b, hb, rfl⟩ := List.mem_map.mp ht
    exact flat_intercalate (by decide) (Block.even_lines hi (hd.plain_of_mem_blocks hb))

end Declaration

end Body

section Preamble

variable {start name : String} {ls : List String} {w : List Char} {style : Style}
  {d : Declaration} {m : Model}

/-- A line announces nothing if it is quiet together with its line feed. -/
def Silent (s : String) : Prop :=
  Quiet Header.introducers (s.toList ++ ['\n'])

theorem quiet_lines (h : ∀ s ∈ ls, Silent s) :
    Quiet Header.introducers (lines (ls.map String.toList)) := by
  induction ls with
  | nil => exact .nil
  | cons s ls ih =>
    rw [List.map_cons, lines_cons, ← List.singleton_append, ← List.append_assoc]
    exact (h s List.mem_cons_self).append (ih fun s hs => h s (List.mem_cons_of_mem _ hs))

theorem silent_empty : Silent "" :=
  .cons (dull_nil Header.isName_introducers) isBlank_feed .nil

/-- A statement of a word, a space and a name without blanks announces nothing. -/
theorem silent_statement (hs : start.toList = w ++ [' ']) (hw : IsName w)
    (hk : ∀ k ∈ Header.introducers, k.toList ≠ w) (hn : ∀ c ∈ name.toList, isBlank c = false) :
    Silent (start ++ name ++ ";") := by
  have hmark : Dull Header.introducers (name.toList ++ [';']) :=
    dull_concat Header.isName_introducers hn (by decide) (by decide)
  have hsplit : (start ++ name ++ ";").toList ++ ['\n'] =
      w ++ ' ' :: ((name.toList ++ [';']) ++ ['\n']) := by
    simp [hs]
  rw [Silent, hsplit]
  exact .cons (hw.dull hk) isBlank_space (.cons hmark isBlank_feed .nil)

/-- No blank stands in a chain of identifiers. -/
theorem blankless_of_isPackageName (h : Config.isPackageName name = true) :
    ∀ c ∈ name.toList, isBlank c = false := by
  intro c hc
  have hjoin : ['.'].intercalate (name.toList.splitOn '.') = name.toList :=
    List.intercalate_splitOn '.'
  rw [← hjoin] at hc
  rcases mem_intercalate hc with hc | ⟨piece, hp, hc⟩
  · rw [List.mem_singleton.mp hc]
    decide
  · have hid : Config.isIdentifier piece = true := List.all_eq_true.mp h piece hp
    cases piece with
    | nil => cases hc
    | cons a rest =>
      simp only [Config.isIdentifier, Bool.and_eq_true, List.all_eq_true, Bool.or_eq_true,
        beq_iff_eq] at hid
      have hchar : isWord c = true ∨ c = '$' := by
        rcases List.mem_cons.mp hc with rfl | hc
        · exact hid.1.imp_left And.left
        · exact hid.2 c hc
      rcases hchar with hword | rfl
      · exact isBlank_of_isWord hword
      · decide

theorem silent_preamble (hp : ∀ p ∈ style.packageName, Config.isPackageName p = true) :
    ∀ s ∈ d.preamble style m, Silent s := by
  have himport : IsName "import".toList :=
    ⟨by decide, List.all_eq_true.mp (by decide : ("import".toList.all isWord) = true)⟩
  have hpackage : IsName "package".toList :=
    ⟨by decide, List.all_eq_true.mp (by decide : ("package".toList.all isWord) = true)⟩
  have hlibrary : ∀ e ∈ Signature.wellKnown, ∀ name ∈ e.2, ∀ c ∈ name.toList,
      isBlank c = false := by
    have hall : (Signature.wellKnown.all fun e => e.2.all fun name =>
        name.toList.all fun c => !isBlank c) = true := by
      decide
    intro e he name hn c hc
    have := List.all_eq_true.mp (List.all_eq_true.mp (List.all_eq_true.mp hall e he) name hn) c hc
    simpa using this
  have himports : ∀ s ∈ Signature.importLines (d.signatures m), Silent s := by
    intro s hs
    obtain ⟨e, he, hs⟩ := List.mem_flatMap.mp hs
    obtain ⟨name, hn, rfl⟩ := List.mem_map.mp hs
    exact silent_statement (by decide) himport (by decide)
      (hlibrary e (List.mem_filter.mp he).1 name hn)
  intro s hs
  rcases List.mem_append.mp hs with hs | hs
  · split at hs
    · next name hname =>
      have hmem := (Option.filter_eq_some_iff.mp hname).1
      rcases List.mem_cons.mp hs with rfl | hs
      · exact silent_statement (by decide) hpackage (by decide)
          (blankless_of_isPackageName (hp name hmem))
      · rw [List.mem_singleton.mp hs]
        exact silent_empty
    · cases hs
  · split at hs
    · cases hs
    · rcases List.mem_append.mp hs with hs | hs
      · exact himports s hs
      · rw [List.mem_singleton.mp hs]
        exact silent_empty

end Preamble

section Header

variable {d : Declaration} {m : Model} {style : Style}

/-- The name that the header of a generated type says is extended. -/
def Declaration.parentText (d : Declaration) (m : Model) : Option (List Char) :=
  (m.parent? d.name).map String.toList

/-- The names that the header of a generated type says are implemented. -/
def Declaration.interfaceTexts (d : Declaration) (m : Model) : List (List Char) :=
  (if d.kind = .interface then [] else m.interfacesOf d.name).map String.toList

/-- The header of a generated type. -/
def Declaration.header (d : Declaration) (m : Model) : Header where
  kind := d.kind
  name := d.name.toList
  clauses := Header.clauseText (d.parentText m) (d.interfaceTexts m)

/-- The text of the header of a generated type, from its first keyword to its opening brace. -/
def Declaration.headerText (d : Declaration) (m : Model) : List Char :=
  d.kind.introduction ++ (d.name.toList ++ ((d.header m).clauses ++ ([] ++ ['{'])))

/-- The words for a parent are its clause, up to the space that they share with what follows. -/
theorem parentClause_toList (parent : Option String) (x : List Char) :
    (match parent with
      | some parent => " extends " ++ parent
      | none => "").toList ++ ' ' :: x =
      ' ' :: (Header.parentClause (parent.map String.toList) ++ x) := by
  cases parent with
  | none => rfl
  | some p =>
    have hextends : " extends ".toList = ' ' :: ("extends".toList ++ [' ']) := by decide
    rw [Option.map_some, Header.parentClause, Header.clause_append, String.toList_append, hextends]
    simp only [List.cons_append, List.append_assoc, List.nil_append]

/-- The words for interfaces are their clause, up to the space that they share with what follows. -/
theorem interfaceClause_toList (targets : List String) (x : List Char) :
    (if targets = [] then "" else " implements " ++ ", ".intercalate targets).toList ++ ' ' :: x =
      ' ' :: (Header.interfaceClause (targets.map String.toList) ++ x) := by
  unfold Header.interfaceClause
  by_cases h : targets = []
  · rw [if_pos h, if_pos (by rw [h]; rfl)]
    rfl
  · have himplements : " implements ".toList = ' ' :: ("implements".toList ++ [' ']) := by decide
    rw [if_neg h, if_neg (fun he => h (List.map_eq_nil_iff.mp he)), Header.clause_append,
      String.toList_append, toList_intercalate_comma, himplements]
    simp only [List.cons_append, List.append_assoc, List.nil_append]

/-- The line that opens a generated type is its header with one word before it. -/
theorem Declaration.headerLine_toList (d : Declaration) (m : Model) :
    (d.headerLine m).toList = "public ".toList ++ d.headerText m := by
  have hkind : (d.kind.keywords ++ " ").toList = "public ".toList ++ d.kind.introduction := by
    cases d.kind <;> decide
  have hinterfaces : (if d.kind = .interface ∨ m.interfacesOf d.name = [] then ""
      else " implements " ++ ", ".intercalate (m.interfacesOf d.name)) =
      if (if d.kind = .interface then [] else m.interfacesOf d.name) = [] then ""
      else " implements " ++
        ", ".intercalate (if d.kind = .interface then [] else m.interfacesOf d.name) := by
    by_cases hk : d.kind = .interface
    · rw [if_pos hk, if_pos (.inl hk), if_pos rfl]
    · simp only [hk, false_or, if_false]
  have hopen : " \x7b".toList = ' ' :: ['{'] := by decide
  rw [headerLine, hinterfaces, String.toList_append, String.toList_append, String.toList_append,
    String.toList_append, hkind, hopen]
  have hhead : d.headerText m = d.kind.introduction ++ (d.name.toList ++
      ' ' :: (Header.parentClause (d.parentText m) ++
        (Header.interfaceClause (d.interfaceTexts m) ++ ['{']))) := by
    rw [headerText, header, Header.clauseText, List.nil_append, List.cons_append,
      List.append_assoc]
  simp only [List.append_assoc]
  rw [interfaceClause_toList, hhead]
  exact congrArg (fun x => "public ".toList ++ (d.kind.introduction ++ (d.name.toList ++ x)))
    (parentClause_toList (m.parent? d.name) _)

/-- A declaration whose header can be read: it has a name, and none of the names in its clauses
announces a clause itself. -/
structure Declaration.Readable (d : Declaration) (m : Model) : Prop where
  /-- The name is a word. -/
  name : IsName d.name.toList
  /-- The parent can be told from a keyword. -/
  parent : ∀ p ∈ d.parentText m, Header.IsClauseName p
  /-- The interfaces can be told from keywords. -/
  interfaces : ∀ i ∈ d.interfaceTexts m, Header.IsClauseName i

/-- The text of the header captures the header. -/
theorem Declaration.Readable.captures (h : d.Readable m) :
    (d.header m).Captures (d.headerText m) := by
  have hclause : ∀ c ∈ (d.header m).clauses, Header.isClauseChar c = true := fun c hc =>
    Header.isClauseChar_of_mem_clauseText (fun p hp => (h.parent p hp).isName)
      (fun i hi => (h.interfaces i hi).isName) hc
  exact Header.captures_of_stops d.kind.keywords_introduction h.name hclause
    (fun _ hc => nomatch hc) (stops_cons.mpr (by decide)) (stops_cons.mpr (by decide))

/-- The edges of the header are the parent and the interfaces that it names. -/
theorem Declaration.Readable.edges (h : d.Readable m) (offset : Nat) :
    (d.header m).edges offset =
      ((m.parent? d.name).map fun p => ⟨.generalization, d.name, p, offset⟩).toList ++
        (if d.kind = .interface then [] else m.interfacesOf d.name).map
          fun i => ⟨.realization, d.name, i, offset⟩ := by
  have hparent : (d.header m).parent? = d.parentText m :=
    Header.parent?_of_clauseText rfl h.parent h.interfaces
  have hinterfaces : (d.header m).interfaces = d.interfaceTexts m :=
    Header.interfaces_of_clauseText rfl h.parent fun i hi => (h.interfaces i hi).isName
  rw [Header.edges, hparent, hinterfaces, parentText, interfaceTexts, Option.map_map, List.map_map]
  simp only [Function.comp_def, header, String.ofList_toList]

end Header

section ReadBack

variable {d : Declaration} {m : Model} {style : Style}

/-- The lines before the header of a generated type and the word that begins its line. -/
def Declaration.lead (style : Style) (d : Declaration) (m : Model) : List Char :=
  lines ((d.preamble style m).map String.toList) ++ "public ".toList

/-- The text between the braces of a generated type. -/
def Declaration.inside (style : Style) (d : Declaration) (m : Model) : List Char :=
  '\n' :: lines ((d.bodyText style m).map String.toList)

/-- A generated file is the lines of its preamble, its header line, and the lines that follow. -/
theorem Declaration.render_eq_lines (style : Style) (d : Declaration) (m : Model) :
    (d.render style m).toList = lines ((d.preamble style m).map String.toList) ++
      ((d.headerLine m).toList ++
        '\n' :: lines ((d.bodyText style m ++ ["\x7d"]).map String.toList)) := by
  have hfeed : "\n".toList = ['\n'] := by decide
  rw [render, String.toList_append, String.toList_intercalate, hfeed, intercalate_append_feed]
  · rw [List.append_assoc, List.append_assoc, List.map_append, lines_append, List.singleton_append,
      List.map_cons, lines_cons]
  · simp

/-- A generated file is what leads to the header, the header, the body, its closing brace and a line
feed. -/
theorem Declaration.render_toList (style : Style) (d : Declaration) (m : Model) :
    (d.render style m).toList =
      d.lead style m ++ (d.headerText m ++ (d.inside style m ++ '}' :: ['\n'])) := by
  have hclose : "\x7d".toList = ['}'] := by decide
  rw [render_eq_lines, headerLine_toList, List.map_append, lines_append, List.map_singleton,
    lines_cons, hclose]
  simp only [lead, inside, lines, List.flatMap_nil, List.append_assoc, List.cons_append,
    List.nil_append]

/-- What a block prints stands in the file. -/
theorem Declaration.infix_render {b : Block} (hb : b ∈ d.blocks m) (style : Style) :
    ("\n".intercalate (b.lines style.indentation)).toList <:+: (d.render style m).toList := by
  have hbody : "\n\n".intercalate ((d.blocks m).map fun b =>
      "\n".intercalate (b.lines style.indentation)) ∈
        d.preamble style m ++ [d.headerLine m] ++ d.bodyText style m ++ ["\x7d"] := by
    rw [bodyText, if_neg (List.ne_nil_of_mem hb)]
    simp
  rw [render, String.toList_append]
  exact ((infix_toList_intercalate (List.mem_map_of_mem hb)).trans
    (infix_toList_intercalate hbody)).trans (List.prefix_append _ _).isInfix

theorem quiet_lead (hp : ∀ p ∈ style.packageName, Config.isPackageName p = true) :
    Quiet Header.introducers (d.lead style m) := by
  have hpublic : "public ".toList = "public".toList ++ ' ' :: [] := by decide
  have hname : IsName "public".toList :=
    ⟨by decide, List.all_eq_true.mp (by decide : ("public".toList.all isWord) = true)⟩
  rw [Declaration.lead, hpublic]
  exact (quiet_lines (silent_preamble hp)).append
    (.cons (hname.dull (by decide)) isBlank_space .nil)

/-- The declaration in the text of a generated type. -/
def Declaration.occurrence (style : Style) (d : Declaration) (m : Model) : Outline.Occurrence where
  start := d.headerText m ++ (d.inside style m ++ '}' :: ['\n'])
  header := d.header m
  body := d.inside style m

/-- The declaration has the name and the kind of the one that it was generated from. -/
theorem Declaration.occurrence_declaration (style : Style) (d : Declaration) (m : Model) :
    (d.occurrence style m).declaration (d.render style m).toList =
      { name := d.name
        kind := d.kind
        body := .ofList (d.inside style m)
        attributes := []
        methods := []
        line := (1 + (d.lead style m).count '\n' : Nat) } := by
  rw [Outline.Occurrence.declaration, render_toList, occurrence, Outline.offsetIn_append,
    Comment.lineAt_units]
  simp only [header, String.ofList_toList]

/-- A file that is generated from a declaration that can be written out and read has that
declaration and no other. -/
theorem Declaration.occurrences_render (hp : ∀ p ∈ style.packageName, Config.isPackageName p = true)
    (hi : UmlDraft.Plain style.indentation) (hw : d.Writable m) (hr : d.Readable m) :
    Outline.occurrences false (d.render style m).toList = [d.occurrence style m] := by
  have hlevel : level? 0 (d.inside style m) = some 0 := by
    rw [inside, level?_cons_of_ne (by decide) (by decide), level?_lines]
    exact hw.even_bodyText hi 0
  have hread : Header.read? (d.headerText m ++ (d.inside style m ++ '}' :: ['\n'])) =
      some (d.header m, d.inside style m ++ '}' :: ['\n']) :=
    Header.read?_eq_some_iff.mpr ⟨d.headerText m, rfl, hr.captures⟩
  have hbody : Outline.bodyEnd? 0 (d.inside style m ++ '}' :: ['\n']) =
      some (d.inside style m, ['\n']) :=
    Outline.bodyEnd?_eq_some_iff.mpr ⟨rfl, balanced_iff.mpr hlevel⟩
  have hend : Outline.occurrences false ['\n'] = [] := Outline.occurrences_of_not_mem (by decide)
  rw [render_toList, (quiet_lead hp).pass passes_occurrences Header.isName_introducers,
    Outline.occurrences_of_body hread hbody, hend, occurrence]

end ReadBack

section Generate

variable {source n : String} {d : Declaration} {style : Style}

/-- Every declaration of a diagram that is read is listed under its name. -/
theorem Model.name_of_mem_entries (source : String) :
    ∀ e ∈ (ofText source).declarations.entries, e.2.name = e.1 := fun _ he =>
  (wellFormed_of_get? (Table.mem_entries_iff.mp he)).name

/-- A diagram that is read has one file for each declared type. -/
theorem entries_generate (style : Style) (source : String) :
    (generate style source).entries = (Model.ofText source).declarations.entries.map fun e =>
      (e.1, e.2.render style (Model.ofText source)) := by
  have hlist : ((Model.ofText source).declarations.values.map fun d =>
        (d.name, d.render style (Model.ofText source))) =
      (Model.ofText source).declarations.entries.map fun e =>
        (e.1, e.2.render style (Model.ofText source)) := by
    rw [Table.values, List.map_map]
    exact List.map_congr_left fun e he => Prod.ext (Model.name_of_mem_entries source e he) rfl
  rw [generate, Model.render, hlist, Table.entries_ofList]
  rw [List.map_map]
  exact (Model.ofText source).declarations.nodup

theorem keys_generate (style : Style) (source : String) :
    (generate style source).keys = (Model.ofText source).declarations.keys := by
  rw [Table.keys, entries_generate, List.map_map]
  rfl

/-- The file of a declared type is generated from its declaration. -/
theorem get?_generate (h : (Model.ofText source).declarations.get? n = some d) :
    (generate style source).get? n = some (d.render style (Model.ofText source)) := by
  rw [← Table.mem_entries_iff, entries_generate]
  exact List.mem_map_of_mem (Table.mem_entries_iff.mpr h)

/-- No declared name announces a clause, if neither keyword is declared. -/
theorem isClauseName_of_mem_keys (he : "extends" ∉ (Model.ofText source).declarations.keys)
    (hi : "implements" ∉ (Model.ofText source).declarations.keys)
    (hn : n ∈ (Model.ofText source).declarations.keys) : Header.IsClauseName n.toList := by
  refine ⟨Model.isName_of_mem_keys hn, fun h => he ?_, fun h => hi ?_⟩
  · rw [String.toList_inj.mp h]
    exact hn
  · rw [String.toList_inj.mp h]
    exact hn

/-- The parent of a type is never the empty name. -/
theorem parent?_ofText (source name : String) :
    (Model.ofText source).parent? name = (Model.ofText source).relationships.parents.get? name := by
  rw [Model.parent?]
  cases hp : (Model.ofText source).relationships.parents.get? name with
  | none => rfl
  | some p =>
    have hdeclared := ((Model.wellFormed_relationships source).parents name p hp).2
    have hname := Model.isName_of_mem_keys (Table.contains_eq_true.mp hdeclared)
    rw [Option.filter_some, if_pos]
    refine decide_eq_true fun he => hname.ne_nil ?_
    rw [he]
    rfl

/-- The parent in the header of a generated type is a declared name. -/
theorem declared_of_mem_parentText {p : List Char} (hp : p ∈ d.parentText (Model.ofText source)) :
    ∃ name ∈ (Model.ofText source).declarations.keys, p = name.toList := by
  rw [Declaration.parentText, parent?_ofText] at hp
  obtain ⟨parent, hget, rfl⟩ := Option.map_eq_some_iff.mp hp
  have hdeclared := ((Model.wellFormed_relationships source).parents _ _ hget).2
  exact ⟨parent, Table.contains_eq_true.mp hdeclared, rfl⟩

/-- So are its interfaces. -/
theorem declared_of_mem_interfaceTexts {i : List Char}
    (hi : i ∈ d.interfaceTexts (Model.ofText source)) :
    ∃ name ∈ (Model.ofText source).declarations.keys, i = name.toList := by
  obtain ⟨target, ht, rfl⟩ := List.mem_map.mp hi
  split at ht
  · cases ht
  · rw [Model.interfacesOf] at ht
    cases hget : (Model.ofText source).relationships.interfaces.get? d.name with
    | none =>
      rw [hget] at ht
      cases ht
    | some targets =>
      rw [hget] at ht
      have hinterfaces := (Model.wellFormed_relationships source).interfaces _ _ hget
      exact ⟨target, Table.contains_eq_true.mp (hinterfaces.target target ht), rfl⟩

theorem readable_of_get? (he : "extends" ∉ (Model.ofText source).declarations.keys)
    (hi : "implements" ∉ (Model.ofText source).declarations.keys)
    (h : (Model.ofText source).declarations.get? n = some d) :
    d.Readable (Model.ofText source) := by
  have hd := Model.wellFormed_of_get? h
  refine ⟨hd.name ▸ hd.isName, fun p hp => ?_, fun i hi' => ?_⟩
  · obtain ⟨name, hname, rfl⟩ := declared_of_mem_parentText hp
    exact isClauseName_of_mem_keys he hi hname
  · obtain ⟨name, hname, rfl⟩ := declared_of_mem_interfaceTexts hi'
    exact isClauseName_of_mem_keys he hi hname

theorem writable_of_get? (hp : ∀ d ∈ (Model.ofText source).declarations.values, d.Plain)
    (h : (Model.ofText source).declarations.get? n = some d) :
    d.Writable (Model.ofText source) := by
  have hattributes : ∀ {key : String} {e : Declaration},
      (Model.ofText source).declarations.get? key = some e → ∀ a ∈ e.attributes, a.Plain := by
    intro key e he a ha
    have hmem := Table.mem_values_of_get? he
    exact ⟨((Model.wellFormed_of_get? he).attributes a ha).name, (hp e hmem).attributes a ha⟩
  have hd := Model.wellFormed_of_get? h
  have hplain := hp d (Table.mem_values_of_get? h)
  refine ⟨hd.name ▸ hd.isName, hattributes h, fun a ha => ?_, fun method hm => ?_⟩
  · unfold Declaration.inherited at ha
    split at ha
    · cases ha
    split at ha
    · next parent hparent =>
      obtain ⟨p, -, hget⟩ := Option.bind_eq_some_iff.mp hparent
      exact hattributes hget a (Declaration.mem_attributes_of_mem_fields ha)
    · cases ha
  · exact ⟨(hd.methods method hm).name, hplain.returnTypes method hm, hplain.parameters method hm⟩

/-- A generated file reads back as the one declaration that it was generated from. Its header has
the kind and the name, its body ends at the last brace, in front of the last line feed, and its
edges are the parent and, for a class, the interfaces of the type. This needs that no type or
parameter of the diagram holds a brace, nor the indentation, that the package is none or a chain
of identifiers, and that no type is named like a keyword of clauses. -/
theorem outline_generate (hpackage : ∀ p ∈ style.packageName, Config.isPackageName p = true)
    (hindent : Plain style.indentation)
    (hplain : ∀ d ∈ (Model.ofText source).declarations.values, d.Plain)
    (hextends : "extends" ∉ (Model.ofText source).declarations.keys)
    (himplements : "implements" ∉ (Model.ofText source).declarations.keys)
    (h : (Model.ofText source).declarations.get? n = some d) :
    ∃ (text : String) (lead head body : List Char), (generate style source).get? n = some text ∧
      text.toList = lead ++ (head ++ '{' :: (body ++ ['}', '\n'])) ∧
      Outline.ofText text =
        { declarations := .ofList [(n, {
            name := n
            kind := d.kind
            body := .ofList body
            attributes := []
            methods := []
            line := (1 + lead.count '\n' : Nat) })]
          duplicates := []
          headerEdges :=
            (((Model.ofText source).relationships.parents.get? n).map fun p =>
              ⟨.generalization, n, p, units lead⟩).toList ++
            (if d.kind = .interface then []
              else ((Model.ofText source).relationships.interfaces.get? n).getD []).map
                fun i => ⟨.realization, n, i, units lead⟩ } := by
  have hr := readable_of_get? hextends himplements h
  have hname : d.name = n := (Model.wellFormed_of_get? h).name
  have hocc := Declaration.occurrences_render hpackage hindent (writable_of_get? hplain h) hr
  obtain ⟨head, hhead, -⟩ := hr.captures.divides.eq_append_open
  refine ⟨_, d.lead style (Model.ofText source), head, d.inside style (Model.ofText source),
    get?_generate h, ?_, ?_⟩
  · rw [Declaration.render_toList, hhead, List.append_assoc, List.singleton_append]
  · have hoffset : Outline.offsetIn (d.render style (Model.ofText source)).toList
        (d.occurrence style (Model.ofText source)).start =
          units (d.lead style (Model.ofText source)) := by
      rw [Declaration.render_toList, Declaration.occurrence, Outline.offsetIn_append]
    rw [Outline.ofText_of_occurrence hocc, Declaration.occurrence_declaration, hoffset,
      Declaration.occurrence, hr.edges, parent?_ofText, hname]
    simp only [Outline.Occurrence.name, Declaration.header, String.ofList_toList, hname,
      Model.interfacesOf]

/-- A class with a parent and an interface, a private attribute and a method. -/
def petDiagram : String :=
  "class Cat extends Pet implements Named \x7b\n" ++
    "- age: int\n+ call(by: Name, at): List<Pet>\n\x7d\n" ++
    "class Pet \x7b\x7d\ninterface Named \x7b\x7d"

/-- The class of the diagram reads back from the file that is generated for it in a package. -/
theorem outline_generate_cat :
    ∃ (text : String) (lead head body : List Char),
      (generate { packageName := some "zoo.pets" } petDiagram).get? "Cat" = some text ∧
      text.toList = lead ++ (head ++ '{' :: (body ++ ['}', '\n'])) ∧
      Outline.ofText text =
        { declarations := .ofList [("Cat", {
            name := "Cat"
            kind := .concreteClass
            body := .ofList body
            attributes := []
            methods := []
            line := (1 + lead.count '\n' : Nat) })]
          duplicates := []
          headerEdges :=
            (((Model.ofText petDiagram).relationships.parents.get? "Cat").map fun p =>
              ⟨.generalization, "Cat", p, units lead⟩).toList ++
            (((Model.ofText petDiagram).relationships.interfaces.get? "Cat").getD []).map
                fun i => ⟨.realization, "Cat", i, units lead⟩ } := by
  let cat : Declaration :=
    { name := "Cat"
      kind := .concreteClass
      body := "\n- age: int\n+ call(by: Name, at): List<Pet>\n"
      attributes := [⟨.priv, "int", "age"⟩]
      methods := [⟨.pub, "call", [.typed "by" "Name", .raw "at"], "List<Pet>", false, false⟩]
      line := 1 }
  have hentries : (Model.ofText petDiagram).declarations.entries =
      [("Cat", cat), ("Pet", ⟨"Pet", .concreteClass, "", [], [], 5⟩),
        ("Named", ⟨"Named", .interface, "", [], [], 6⟩)] := by
    decide +kernel
  have hkeys : (Model.ofText petDiagram).declarations.keys = ["Cat", "Pet", "Named"] := by
    rw [Table.keys, hentries]
    rfl
  have hplain : ∀ d ∈ (Model.ofText petDiagram).declarations.values, d.Plain := by
    rw [Table.values, hentries]
    decide
  have hcat : (Model.ofText petDiagram).declarations.get? "Cat" = some cat := by
    rw [← Table.mem_entries_iff, hentries]
    exact List.mem_cons_self
  exact outline_generate (by decide +kernel) (by decide) hplain (by rw [hkeys]; decide)
    (by rw [hkeys]; decide) hcat

end Generate

end UmlDraft
