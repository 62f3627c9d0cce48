import Mathlib.Data.List.Forall2
import Mathlib.Data.List.Nodup
import Mathlib.Data.List.Permutation
import UmlDraft.Proofs.Json.Listed
import UmlDraft.Proofs.Skeleton.Source
import UmlDraft.Report.Complete

/-!
# What a JSON report says

A JSON value shows a part of a diagram if it is an object with a member for each field of the part.
Main statement: the report on a diagram is a single line, and the value that is read from it shows
the counts and the diagram with everything but the bodies. Hence diagrams with one report differ in
their bodies and in the order of their relations at most.
-/

namespace UmlDraft

open Json

namespace Json

variable {α β : Type} {v : Json} {key s t : String} {shows : α → Json → Prop} {xs ys : List α}

/-- The names of the members of an object. -/
def names? (v : Json) : Option (List String) :=
  v.members?.map (·.map Prod.fst)

/-- An array shows a list: each of its items shows the element at its place. -/
inductive ListsItems (shows : α → Json → Prop) (xs : List α) : Json → Prop where
  /-- The items are given. -/
  | intro {items : List Json} (hitems : List.Forall₂ shows xs items) :
    ListsItems shows xs (.array items)

theorem listsItems_map {shown : α → Json} (h : ∀ x, shows x (shown x)) (xs : List α) :
    ListsItems shows xs (.array (xs.map shown)) :=
  .intro (List.forall₂_map_right_iff.mpr (List.forall₂_same.mpr fun x _ => h x))

/-- What every item says of its element, an array says of its list. -/
theorem ListsItems.map_eq {f : α → β} (hx : ListsItems shows xs v) (hy : ListsItems shows ys v)
    (hf : ∀ x y v, shows x v → shows y v → f x = f y) : xs.map f = ys.map f := by
  obtain ⟨hx⟩ := hx
  obtain ⟨hy⟩ := hy
  induction hx generalizing ys with
  | nil =>
    cases hy
    rfl
  | cons hhead _ ih =>
    cases hy with
    | cons hhead' hrest' => rw [List.map_cons, List.map_cons, hf _ _ _ hhead hhead', ih hrest']

/-- A member that is an array says of its list what every item says of its element. -/
theorem map_eq_of_get? {f : α → β} (hx : ∃ j, v.get? key = some j ∧ ListsItems shows xs j)
    (hy : ∃ j, v.get? key = some j ∧ ListsItems shows ys j)
    (hf : ∀ x y v, shows x v → shows y v → f x = f y) : xs.map f = ys.map f := by
  obtain ⟨j, hj, hlists⟩ := hx
  obtain ⟨j', hj', hlists'⟩ := hy
  cases hj.symm.trans hj'
  exact hlists.map_eq hlists' hf

/-- A member that is an array has one list, if every item has one element. -/
theorem eq_of_get? (hx : ∃ j, v.get? key = some j ∧ ListsItems shows xs j)
    (hy : ∃ j, v.get? key = some j ∧ ListsItems shows ys j)
    (hshows : ∀ x y v, shows x v → shows y v → x = y) : xs = ys := by
  have hmap := map_eq_of_get? (f := id) hx hy hshows
  rwa [List.map_id, List.map_id] at hmap

/-- A member has one text. -/
theorem string_inj_of_get? (hs : v.get? key = some (.string s))
    (ht : v.get? key = some (.string t)) : s = t :=
  Json.string.inj (Option.some.inj (hs.symm.trans ht))

theorem int_inj {m n : Int} (h : int m = int n) : m = n :=
  Decimal.written_ofInt_inj (congrArg Decimal.written (Json.number.inj h))

end Json

/-! ### Parts of a diagram -/

/-- A value shows an attribute. -/
structure Attribute.ShownBy (a : Attribute) (v : Json) : Prop where
  /-- There is a member for each field. -/
  names : v.names? = some ["visibility", "type", "name"]
  /-- Who may use the attribute. -/
  visibility : v.get? "visibility" = some (.string a.visibility.name)
  /-- The text of its type. -/
  type : v.get? "type" = some (.string a.type)
  /-- Its name. -/
  name : v.get? "name" = some (.string a.name)

/-- A value shows a parameter. -/
inductive Parameter.ShownBy : Parameter → Json → Prop where
  /-- The parameter has a name and a type. -/
  | typed {name type : String} {v : Json} (hnames : v.names? = some ["kind", "name", "type"])
    (hkind : v.get? "kind" = some (.string "typed"))
    (hname : v.get? "name" = some (.string name)) (htype : v.get? "type" = some (.string type)) :
    ShownBy (.typed name type) v
  /-- The parameter is a text. -/
  | raw {text : String} {v : Json} (hnames : v.names? = some ["kind", "text"])
    (hkind : v.get? "kind" = some (.string "raw"))
    (htext : v.get? "text" = some (.string text)) : ShownBy (.raw text) v

/-- A value shows a method. -/
structure Method.ShownBy (m : Method) (v : Json) : Prop where
  /-- There is a member for each field. -/
  names : v.names? =
    some ["visibility", "name", "parameters", "returnType", "isAbstract", "isStatic"]
  /-- Who may call the method. -/
  visibility : v.get? "visibility" = some (.string m.visibility.name)
  /-- Its name. -/
  name : v.get? "name" = some (.string m.name)
  /-- Its parameters in order. -/
  parameters : ∃ j, v.get? "parameters" = some j ∧ ListsItems Parameter.ShownBy m.parameters j
  /-- The text of its return type. -/
  returnType : v.get? "returnType" = some (.string m.returnType)
  /-- Whether it is marked abstract. -/
  isAbstract : v.get? "isAbstract" = some (.bool m.isAbstract)
  /-- Whether it is marked static. -/
  isStatic : v.get? "isStatic" = some (.bool m.isStatic)

/-- A value shows a declaration without its body. -/
structure Declaration.ShownBy (d : Declaration) (v : Json) : Prop where
  /-- There is a member for each field but the body. -/
  names : v.names? = some ["name", "kind", "attributes", "methods", "line"]
  /-- The name of the type. -/
  name : v.get? "name" = some (.string d.name)
  /-- What sort of type it is. -/
  kind : v.get? "kind" = some (.string d.kind.name)
  /-- The attributes in order. -/
  attributes : ∃ j, v.get? "attributes" = some j ∧ ListsItems Attribute.ShownBy d.attributes j
  /-- The methods in order. -/
  methods : ∃ j, v.get? "methods" = some j ∧ ListsItems Method.ShownBy d.methods j
  /-- The line of the header. -/
  line : v.get? "line" = some (.int d.line)

/-- A value shows a diagram without the bodies of its declarations. -/
structure Model.ShownBy (m : Model) (v : Json) : Prop where
  /-- There is a member for each part. -/
  names : v.names? = some ["declarations", "extends", "implements", "duplicates"]
  /-- The declarations in order. -/
  declarations : ∃ j, v.get? "declarations" = some j ∧
    ListsItems Declaration.ShownBy m.declarations.values j
  /-- The parent of each type that has one. -/
  parents : ∃ members, v.get? "extends" = some (.object members) ∧
    ListsTable Json.string m.relationships.parents members
  /-- The interfaces of each type that implements some. -/
  interfaces : ∃ members, v.get? "implements" = some (.object members) ∧
    ListsTable Report.ofTexts m.relationships.interfaces members
  /-- The names that were declared again. -/
  duplicates : v.get? "duplicates" = some (Report.ofTexts m.duplicates)

/-- Two diagrams differ in the bodies of their declarations and in the order of their relations at
most. -/
structure Model.Resembles (m m' : Model) : Prop where
  /-- The declarations agree, and so does their order. -/
  declarations : m.bodiless.declarations = m'.bodiless.declarations
  /-- The same types have the same parents. -/
  parents : m.relationships.parents.entries.Perm m'.relationships.parents.entries
  /-- The same types implement the same interfaces. -/
  interfaces : m.relationships.interfaces.entries.Perm m'.relationships.interfaces.entries
  /-- The same names were declared again. -/
  duplicates : m.duplicates = m'.duplicates

/-! ### The parts are shown -/

namespace Report

theorem shownBy_ofAttribute (a : Attribute) : a.ShownBy (ofAttribute a) :=
  ⟨rfl, rfl, rfl, rfl⟩

theorem shownBy_ofParameter (p : Parameter) : p.ShownBy (ofParameter p) := by
  cases p with
  | typed name type => exact .typed rfl rfl rfl rfl
  | raw text => exact .raw rfl rfl rfl

theorem shownBy_ofMethod (m : Method) : m.ShownBy (ofMethod m) :=
  ⟨rfl, rfl, rfl, ⟨_, rfl, listsItems_map shownBy_ofParameter _⟩, rfl, rfl, rfl⟩

theorem shownBy_ofDeclaration (d : Declaration) : d.ShownBy (ofDeclaration d) :=
  ⟨rfl, rfl, rfl, ⟨_, rfl, listsItems_map shownBy_ofAttribute _⟩,
    ⟨_, rfl, listsItems_map shownBy_ofMethod _⟩, rfl⟩

theorem shownBy_ofModel (m : Model) : m.ShownBy (ofModel m) := by
  obtain ⟨parents, hparents, hlists⟩ := listsTable_ofTable Json.string m.relationships.parents
  obtain ⟨interfaces, hinterfaces, hlists'⟩ :=
    listsTable_ofTable ofTexts m.relationships.interfaces
  refine ⟨rfl, ⟨_, rfl, listsItems_map shownBy_ofDeclaration _⟩, ⟨parents, ?_, hlists⟩,
    ⟨interfaces, ?_, hlists'⟩, rfl⟩
  · rw [← hparents]
    rfl
  · rw [← hinterfaces]
    rfl

/-- A report shows the counts of a command and a diagram. -/
structure Shows (order : List Counter) (stats : Stats) (m : Model) (v : Json) : Prop where
  /-- There is a member for each part. -/
  names : v.names? = some ["type", "command", "stats", "model"]
  /-- It is the report of a command that is done. -/
  type : v.get? "type" = some (.string "complete")
  /-- The command is the one that shows a diagram. -/
  command : v.get? "command" = some (.string "parse")
  /-- The counts, under their names. -/
  stats : ∃ j, v.get? "stats" = some j ∧ j.names? = some (order.map Counter.name) ∧
    ∀ counter ∈ order, j.get? counter.name = some (.int (stats.get counter))
  /-- The diagram. -/
  model : ∃ j, v.get? "model" = some j ∧ m.ShownBy j

theorem counter_name_inj {a b : Counter} (h : a.name = b.name) : a = b := by
  cases a <;> cases b <;> first | rfl | exact absurd h (by decide)

/-- Every count stands under its name. -/
theorem get?_ofStats {order : List Counter} {counter : Counter} (h : counter ∈ order)
    (stats : Stats) :
    (ofStats order stats).get? counter.name = some (.int (stats.get counter)) := by
  rw [ofStats, get?]
  induction order with
  | nil => cases h
  | cons other order ih =>
    rw [List.map_cons, Entries.lookup_cons]
    by_cases hname : counter.name = other.name
    · rw [if_pos hname, counter_name_inj hname]
    · rw [if_neg hname]
      refine ih ((List.mem_cons.mp h).resolve_left ?_)
      rintro rfl
      exact hname rfl

/-- The record of a diagram that was asked for shows it. -/
theorem shows_record {order : List Counter} {o : Outcome} {m : Model} (h : o.model = some m) :
    Shows order o.stats m (record order .parse o) := by
  have hsubject : subject .parse o = ("model", ofModel m) := by
    simp only [subject, h]
  rw [record, hsubject]
  refine ⟨rfl, rfl, rfl, ⟨_, rfl, ?_, fun counter hcounter => get?_ofStats hcounter o.stats⟩,
    _, rfl, shownBy_ofModel m⟩
  rw [ofStats, names?, members?, Option.map_some, List.map_map]
  rfl

/-! ### No object names a member twice -/

theorem proper_ofTexts (texts : List String) : Proper (ofTexts texts) :=
  .array (List.forall_mem_map.mpr fun s _ => .string s)

theorem proper_ofAttribute (a : Attribute) : Proper (ofAttribute a) := by
  refine .object (by simp) ?_
  simp only [List.forall_mem_cons]
  exact ⟨.string _, .string _, .string _, nofun⟩

theorem proper_ofParameter (p : Parameter) : Proper (ofParameter p) := by
  cases p with
  | typed name type =>
    refine .object (by simp) ?_
    simp only [List.forall_mem_cons]
    exact ⟨.string _, .string _, .string _, nofun⟩
  | raw text =>
    refine .object (by simp) ?_
    simp only [List.forall_mem_cons]
    exact ⟨.string _, .string _, nofun⟩

theorem proper_ofMethod (m : Method) : Proper (ofMethod m) := by
  refine .object (by simp) ?_
  simp only [List.forall_mem_cons]
  exact ⟨.string _, .string _, .array (List.forall_mem_map.mpr fun p _ => proper_ofParameter p),
    .string _, .bool _, .bool _, nofun⟩

theorem proper_ofDeclaration (d : Declaration) : Proper (ofDeclaration d) := by
  refine .object (by simp) ?_
  simp only [List.forall_mem_cons]
  exact ⟨.string _, .string _, .array (List.forall_mem_map.mpr fun a _ => proper_ofAttribute a),
    .array (List.forall_mem_map.mpr fun m _ => proper_ofMethod m), .number _, nofun⟩

theorem proper_ofTable {β : Type} {shown : β → Json} (hshown : ∀ b, Proper (shown b))
    (t : Table String β) : Proper (.ofTable (t.mapValues shown)) := by
  obtain ⟨members, hmembers, hlists⟩ := listsTable_ofTable shown t
  rw [hmembers]
  exact hlists.proper hshown

theorem proper_ofModel (m : Model) : Proper (ofModel m) := by
  refine .object (by simp [Relation.name]) ?_
  simp only [List.forall_mem_cons]
  exact ⟨.array (List.forall_mem_map.mpr fun d _ => proper_ofDeclaration d),
    proper_ofTable .string _, proper_ofTable proper_ofTexts _, proper_ofTexts _, nofun⟩

theorem proper_ofStats {order : List Counter} (h : order.Nodup) (stats : Stats) :
    Proper (ofStats order stats) := by
  refine .object ?_ (List.forall_mem_map.mpr fun _ _ => .number _)
  rw [List.map_map]
  exact List.Nodup.map (fun _ _ => counter_name_inj) h

theorem proper_record {order : List Counter} {o : Outcome} {m : Model} (horder : order.Nodup)
    (h : o.model = some m) : Proper (record order .parse o) := by
  rw [record]
  simp only [subject, h]
  refine .object (by simp) ?_
  simp only [List.forall_mem_cons]
  exact ⟨.string _, .string _, proper_ofStats horder o.stats, proper_ofModel m, nofun⟩

end Report

/-! ### What is shown is determined -/

theorem Visibility.name_inj {a b : Visibility} (h : a.name = b.name) : a = b := by
  cases a <;> cases b <;> first | rfl | exact absurd h (by decide)

theorem Kind.name_inj {a b : Kind} (h : a.name = b.name) : a = b := by
  cases a <;> cases b <;> first | rfl | exact absurd h (by decide)

theorem Attribute.ShownBy.eq {a b : Attribute} {v : Json} (ha : a.ShownBy v) (hb : b.ShownBy v) :
    a = b := by
  have hvisibility := Visibility.name_inj (string_inj_of_get? ha.visibility hb.visibility)
  have htype := string_inj_of_get? ha.type hb.type
  have hname := string_inj_of_get? ha.name hb.name
  cases a
  cases b
  congr

theorem Parameter.ShownBy.eq {p q : Parameter} {v : Json} (hp : p.ShownBy v) (hq : q.ShownBy v) :
    p = q := by
  cases hp with
  | typed _ hkind hname htype =>
    cases hq with
    | typed _ _ hname' htype' =>
      rw [string_inj_of_get? hname hname', string_inj_of_get? htype htype']
    | raw _ hkind' => exact absurd (string_inj_of_get? hkind hkind') (by decide)
  | raw _ hkind htext =>
    cases hq with
    | typed _ hkind' => exact absurd (string_inj_of_get? hkind hkind') (by decide)
    | raw _ _ htext' => rw [string_inj_of_get? htext htext']

theorem Method.ShownBy.eq {m n : Method} {v : Json} (hm : m.ShownBy v) (hn : n.ShownBy v) :
    m = n := by
  have hvisibility := Visibility.name_inj (string_inj_of_get? hm.visibility hn.visibility)
  have hname := string_inj_of_get? hm.name hn.name
  have hparameters := eq_of_get? hm.parameters hn.parameters fun _ _ _ => Parameter.ShownBy.eq
  have hreturnType := string_inj_of_get? hm.returnType hn.returnType
  have habstract := Json.bool.inj (Option.some.inj (hm.isAbstract.symm.trans hn.isAbstract))
  have hstatic := Json.bool.inj (Option.some.inj (hm.isStatic.symm.trans hn.isStatic))
  cases m
  cases n
  congr

/-- A value says everything of a declaration but its body. -/
theorem Declaration.ShownBy.bodiless_eq {d e : Declaration} {v : Json} (hd : d.ShownBy v)
    (he : e.ShownBy v) : d.bodiless = e.bodiless := by
  have hname := string_inj_of_get? hd.name he.name
  have hkind := Kind.name_inj (string_inj_of_get? hd.kind he.kind)
  have hattributes := eq_of_get? hd.attributes he.attributes fun _ _ _ => Attribute.ShownBy.eq
  have hmethods := eq_of_get? hd.methods he.methods fun _ _ _ => Method.ShownBy.eq
  have hline := int_inj (Option.some.inj (hd.line.symm.trans he.line))
  rw [bodiless, bodiless, hname, hkind, hattributes, hmethods, hline]

theorem Report.ofTexts_injective : Function.Injective Report.ofTexts := fun _ _ h =>
  List.map_injective_iff.mpr (fun _ _ => Json.string.inj) (Json.array.inj h)

/-- A value says everything of a diagram but the bodies and the order of the relations. -/
theorem Model.ShownBy.resembles {m m' : Model} {v : Json}
    (hnames : ∀ e ∈ m.declarations.entries, e.2.name = e.1)
    (hnames' : ∀ e ∈ m'.declarations.entries, e.2.name = e.1) (h : m.ShownBy v)
    (h' : m'.ShownBy v) : m.Resembles m' := by
  refine ⟨?_, ?_, ?_, ?_⟩
  · have hvalues := map_eq_of_get? h.declarations h'.declarations fun _ _ _ =>
      Declaration.ShownBy.bodiless_eq
    rw [← Table.values_mapValues, ← Table.values_mapValues] at hvalues
    exact Table.eq_of_values Declaration.name (List.forall_mem_map.mpr hnames)
      (List.forall_mem_map.mpr hnames') hvalues
  · obtain ⟨members, hmembers, hlists⟩ := h.parents
    obtain ⟨members', hmembers', hlists'⟩ := h'.parents
    cases hmembers.symm.trans hmembers'
    exact hlists.perm_entries (fun _ _ => Json.string.inj) hlists'
  · obtain ⟨members, hmembers, hlists⟩ := h.interfaces
    obtain ⟨members', hmembers', hlists'⟩ := h'.interfaces
    cases hmembers.symm.trans hmembers'
    exact hlists.perm_entries Report.ofTexts_injective hlists'
  · exact Report.ofTexts_injective (Option.some.inj (h.duplicates.symm.trans h'.duplicates))

namespace Report

variable {source other : String} {order order' : List Counter} {stats stats' : Stats} {o : Outcome}

/-- One value shows diagrams that resemble each other only. -/
theorem Shows.resembles {v : Json} (h : Shows order stats (Model.ofText source) v)
    (h' : Shows order' stats' (Model.ofText other) v) :
    (Model.ofText source).Resembles (Model.ofText other) := by
  obtain ⟨j, hj, hshown⟩ := h.model
  obtain ⟨j', hj', hshown'⟩ := h'.model
  cases hj.symm.trans hj'
  exact hshown.resembles (Model.name_of_mem_entries source) (Model.name_of_mem_entries other)
    hshown'

/-- The report on a diagram is one line, on which the counts and the diagram can be read but for the
bodies. Diagrams that are reported by one line differ in their bodies and in the order of their
relations at most. -/
theorem printed_json (horder : order.Nodup) (hmodel : o.model = some (Model.ofText source))
    (c : Config) :
    ∃ line v, printed order .json .parse c o = [line] ∧ '\n' ∉ line.toList ∧
      Json.parse? line = some v ∧ Shows order o.stats (Model.ofText source) v ∧
      ∀ (other : String) (order' : List Counter) (c' : Config) (o' : Outcome), order'.Nodup →
        o'.model = some (Model.ofText other) → printed order' .json .parse c' o' = [line] →
        (Model.ofText source).Resembles (Model.ofText other) := by
  have hproper := proper_record horder hmodel
  have hshows : Shows order o.stats (Model.ofText source) (record order .parse o) :=
    shows_record hmodel
  refine ⟨_, _, rfl, ?_, parse?_compress hproper, hshows,
    fun other order' c' o' horder' hother h => ?_⟩
  · rw [compress, String.toList_ofList]
    exact hproper.newline_not_mem_print
  · -- One line is read as one value, and this shows both diagrams.
    have hline : (record order' .parse o').compress = (record order .parse o).compress :=
      List.cons.inj h |>.1
    have hrecord := compress_inj (proper_record horder' hother) hproper hline
    have hshows' : Shows order' o'.stats (Model.ofText other) (record order' .parse o') :=
      shows_record hother
    rw [hrecord] at hshows'
    exact hshows.resembles hshows'

/-- A diagram with names that are numbers or look like one, and with a type that is escaped. -/
def numberedDiagram : String :=
  "class 01 \x7b\n + f(a: \"\\é\")\n\x7d\nclass 7 \x7b\n\x7d\nclass 0 \x7b\n\x7d\n" ++
    "7 <|-- 01\n0 <|-- 7\n"

/-- The edges of this diagram. -/
def numberedEdges : List Edge :=
  [⟨.generalization, "01", "7", 51⟩, ⟨.generalization, "7", "0", 61⟩]

theorem entries_numberedDiagram :
    (Model.ofText numberedDiagram).relationships.parents.entries = [("01", "7"), ("7", "0")] := by
  have hedges : (Outline.ofText (Comment.strip numberedDiagram)).headerEdges ++
      Arrow.edges (Comment.strip numberedDiagram) = numberedEdges := by
    decide +kernel
  have hdeclared : ∀ e ∈ numberedEdges,
      ((Outline.ofText (Comment.strip numberedDiagram)).declarations.contains e.source &&
        (Outline.ofText (Comment.strip numberedDiagram)).declarations.contains e.target) := by
    decide +kernel
  simp only [Model.ofText, Relationships.ofText, hedges, Relationships.ofEdges,
    Relationships.effective]
  rw [List.mergeSort_of_pairwise (by decide), List.filter_eq_self.mpr hdeclared]
  rfl

/-- The report lists the parent of the type `7` before that of the type `01`, which was given
first. -/
theorem printed_json_numbered :
    let o : Outcome := { model := some (Model.ofText numberedDiagram) }
    let c : Config := { input := "d.puml", outputDir := "out" }
    (Counter.all.Nodup ∧
        (Model.ofText numberedDiagram).relationships.parents.keys = ["01", "7"]) ∧
      ∃ line v j members, printed Counter.all .json .parse c o = [line] ∧
        Json.parse? line = some v ∧ v.get? "model" = some j ∧
        j.get? "extends" = some (.object members) ∧ members.map Prod.fst = ["7", "01"] := by
  intro o c
  have horder : Counter.all.Nodup := by decide
  have hkeys : (Model.ofText numberedDiagram).relationships.parents.keys = ["01", "7"] := by
    rw [Table.keys, entries_numberedDiagram]
    rfl
  have hmodel : o.model = some (Model.ofText numberedDiagram) := rfl
  obtain ⟨line, v, hprinted, -, hparse, hshows, -⟩ := printed_json horder hmodel c
  obtain ⟨j, hj, hshown⟩ := hshows.model
  obtain ⟨members, hmembers, hlists⟩ := hshown.parents
  refine ⟨⟨horder, hkeys⟩, line, v, j, members, hprinted, hparse, hj, hmembers, ?_⟩
  have hperm : (members.map Prod.fst).Perm ["01", "7"] := by
    have hnames := hlists.perm.map Prod.fst
    rwa [List.map_map, entries_numberedDiagram] at hnames
  rcases List.perm_pair.mp hperm with hnames | hnames
  · -- The table has this order, but `01` is no array index and `7` is.
    have hordered := hlists.order
    rw [hnames] at hordered
    have hseven : IsIndex "7" := ⟨7, by decide, by decide⟩
    have hfirst := hordered.isIndex_head ⟨"7", List.mem_singleton_self _, hseven⟩
    rw [← isSome_arrayIndex?_iff] at hfirst
    exact absurd hfirst (by decide)
  · exact hnames

end Report

end UmlDraft
