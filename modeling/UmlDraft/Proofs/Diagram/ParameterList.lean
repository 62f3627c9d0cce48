import Mathlib.Data.List.Basic
import UmlDraft.Proofs.Diagram.MemberGrammar
import UmlDraft.Proofs.Diagram.PlainType
import UmlDraft.Proofs.Text.Split

/-!
# Parameter lists

A list of parameters is cut at every comma, and what stands between two commas is read by itself. A
comma within the angle brackets of a type is one of them: of a parameter with such a type, the name
gets what stands before the comma for its type, and the rest is kept as texts. Hence a list of names
with types is read as these parameters exactly if no type holds a comma.
-/

namespace UmlDraft

open Text TypeToken

variable {s t name : List Char} {texts : List (List Char)}

namespace Member

/-! ### Lists -/

/-- Lists on both sides of a comma are read by themselves. -/
theorem readParameters_append_comma (s t : List Char) :
    readParameters (s ++ ',' :: t) = readParameters s ++ readParameters t := by
  rw [readParameters, readParameters, readParameters, List.splitOn_append_cons_self,
    List.map_append, List.filter_append, List.map_append]

/-- A space before a list does not matter. -/
theorem readParameters_space_cons (s : List Char) :
    readParameters (' ' :: s) = readParameters s := by
  obtain ⟨first, more, hs, hcons⟩ := splitOn_cons ',' ' ' s
  rw [if_neg (by decide)] at hcons
  rw [readParameters, readParameters, hs, hcons, List.map_cons, List.map_cons, trim_space_cons]

/-- A comma separated list is read text by text. -/
theorem readParameters_commaList (texts : List (List Char)) :
    readParameters (commaList texts) = texts.flatMap readParameters := by
  induction texts with
  | nil => rfl
  | cons t texts ih =>
    by_cases hne : texts = []
    · rw [hne, commaList_singleton, List.flatMap_singleton]
    · rw [commaList_cons t hne, readParameters_append_comma, readParameters_space_cons, ih,
        List.flatMap_cons]

/-- A text without a comma is one parameter unless it is blank. -/
theorem readParameters_of_not_mem (h : ',' ∉ s) (hne : trim s ≠ []) :
    readParameters s = [readParameter (trim s)] := by
  rw [readParameters, List.splitOn_eq_singleton h, List.map_singleton,
    List.filter_cons_of_pos (by simpa using hne), List.filter_nil, List.map_singleton]

/-- A text without a colon is kept as it is. -/
theorem readParameter_of_not_mem (h : ':' ∉ s) : readParameter s = .raw (.ofList s) := by
  rw [readParameter, List.splitOn_eq_singleton h]

/-- A name and a type are found on the sides of the only colon, once the whole is trimmed. -/
theorem readParameter_trim_typed (hs : trim s = s) (hcolon : ':' ∉ s) (ht : ':' ∉ t) :
    trim (s ++ ':' :: ' ' :: t) ≠ [] ∧
      readParameter (trim (s ++ ':' :: ' ' :: t)) = .typed (.ofList s) (.ofList (trim t)) := by
  obtain ⟨front, trail, hcut, htrail, hend⟩ := exists_trail (' ' :: t)
  have htrim : trim front = trim t := by
    rw [← trim_append_blank front htrail, ← hcut, trim_space_cons]
  have hfront : ':' ∉ front := by
    intro hmem
    have hmem' : ':' ∈ ' ' :: t := hcut ▸ List.mem_append_left trail hmem
    exact (List.mem_cons.mp hmem').elim (by decide) ht
  have hline : trim (s ++ ':' :: ' ' :: t) = s ++ ':' :: front := by
    rw [hcut, ← List.cons_append, ← List.append_assoc, trim_append_blank _ htrail,
      trim_eq_self_iff]
    refine ⟨stops_append (trim_eq_self_iff.mp hs).1 fun _ => stops_cons.mpr rfl, ?_⟩
    rw [List.reverse_append, List.reverse_cons, List.append_assoc]
    exact stops_append hend fun _ => stops_cons.mpr rfl
  rw [hline, readParameter, List.splitOn_append_cons_self_of_not_mem hcolon,
    List.splitOn_eq_singleton hfront]
  exact ⟨List.append_ne_nil_of_right_ne_nil _ (List.cons_ne_nil ':' front), by simp only [hs, htrim]⟩

/-- Tidy texts that begin with no blank make a tidy list. -/
theorem tidy_commaList (h : ∀ t ∈ texts, Tidy t) (hs : ∀ t ∈ texts, t ≠ [] ∧ Stops isBlank t) :
    Tidy (commaList texts) := by
  induction texts with
  | nil => exact tidy_nil
  | cons t texts ih =>
    have ht : Tidy t := h t List.mem_cons_self
    cases texts with
    | nil => rwa [commaList_singleton]
    | cons u texts =>
      have hu : Stops isBlank (commaList (u :: texts)) := by
        obtain ⟨more, hmore⟩ := commaList_eq_append u texts
        obtain ⟨hne, hstop⟩ := hs u (List.mem_cons_of_mem t List.mem_cons_self)
        rw [hmore]
        exact stops_append hstop fun he => absurd he hne
      have hrest : Tidy (commaList (u :: texts)) :=
        ih (fun v hv => h v (List.mem_cons_of_mem t hv)) fun v hv =>
          hs v (List.mem_cons_of_mem t hv)
      rw [commaList_cons t (List.cons_ne_nil u texts)]
      exact ht.append_cons (by simp) (hrest.space_cons hu)

end Member

open Member

/-- A plain type holds none of the characters that punctuate members, and no marker. -/
theorem IsPlainType.tidy (h : IsPlainType s) : Tidy s :=
  ⟨singleSpaced_of_collapse_eq h.collapse_eq,
    markerFree_of_not_mem (not_mem_of_run h.isTypeChar rfl)⟩

/-! ### Names with types -/

/-- A parameter with a plain type. -/
structure TypedParameter where
  /-- The name. -/
  name : List Char
  /-- The type. -/
  type : List Char
  /-- The name is a word. -/
  isName : IsName name
  /-- The type is plain. -/
  isPlainType : IsPlainType type

namespace TypedParameter

variable {p : TypedParameter} {ps : List TypedParameter}

/-- The text of a parameter. -/
def print (p : TypedParameter) : List Char :=
  p.name ++ ':' :: ' ' :: p.type

/-- The parameter with its name and its type. -/
def parameter (p : TypedParameter) : Parameter :=
  .typed (.ofList p.name) (.ofList p.type)

/-- What is left of a parameter that is cut at the commas of its type: the name with what stands
before the first comma, and each of the other pieces by itself unless it is blank. -/
def cut (p : TypedParameter) : List Parameter :=
  .typed (.ofList p.name) (.ofList (trim ((p.type.splitOn ',').headD []))) ::
    (((p.type.splitOn ',').tail.map trim).filter (· ≠ [])).map fun t => .raw (.ofList t)

/-- The line of a method with a list of parameters and nothing else. -/
def methodLine (name : List Char) (ps : List TypedParameter) : List Char :=
  name ++ '(' :: (commaList (ps.map print) ++ [')'])

/-- The method with a name and parameters, and without anything else that a line can say. -/
def method (name : List Char) (parameters : List Parameter) : Method where
  visibility := .pub
  name := .ofList name
  parameters := parameters
  returnType := "void"
  isAbstract := false
  isStatic := false

/-- A parameter is cut at the commas of its type. -/
theorem readParameters_print (p : TypedParameter) : readParameters p.print = p.cut := by
  have htype : ':' ∉ p.type := not_mem_of_run p.isPlainType.isTypeChar (by decide)
  have hcolon : ∀ piece ∈ p.type.splitOn ',', ':' ∉ piece := fun piece hpiece hmem =>
    htype ((infix_of_mem_splitOn hpiece).subset hmem)
  obtain ⟨first, more, hsplit⟩ := List.exists_cons_of_ne_nil (List.splitOn_ne_nil ',' p.type)
  rw [hsplit] at hcolon
  have hname : ',' ∉ p.name ++ [':', ' '] := by
    rw [List.mem_append, not_or]
    exact ⟨p.isName.not_mem rfl, by decide⟩
  have hprint : p.print.splitOn ',' = (p.name ++ ':' :: ' ' :: first) :: more := by
    have hsplit' := splitOn_append_of_not_mem hname hsplit
    rwa [List.append_assoc, List.append_assoc] at hsplit'
  obtain ⟨hne, hread⟩ := readParameter_trim_typed p.isName.trim_eq (p.isName.not_mem rfl)
    (hcolon first List.mem_cons_self)
  have hraw : ∀ t ∈ (more.map trim).filter (· ≠ []), readParameter t = .raw (.ofList t) := by
    intro t ht
    obtain ⟨piece, hpiece, rfl⟩ := List.mem_map.mp (List.mem_filter.mp ht).1
    exact readParameter_of_not_mem fun hmem =>
      hcolon piece (List.mem_cons_of_mem first hpiece) (mem_of_mem_trim hmem)
  rw [readParameters, hprint, List.map_cons, List.filter_cons_of_pos (by simpa using hne),
    List.map_cons, hread, List.map_congr_left hraw, cut, hsplit]
  rfl

/-- Where no type holds a comma, nothing is cut. -/
theorem cut_eq (h : ',' ∉ p.type) : p.cut = [p.parameter] := by
  rw [cut, List.splitOn_eq_singleton h, parameter]
  simp only [List.headD_cons, List.tail_cons, List.map_nil, List.filter_nil,
    p.isPlainType.isType.trim_eq]

/-- A comma in the type leaves a text behind. -/
theorem exists_raw_mem_cut (h : ',' ∈ p.type) : ∃ text, .raw text ∈ p.cut := by
  obtain ⟨before, behind, htype, hbefore, hclose⟩ := p.isPlainType.exists_comma h
  obtain ⟨piece, hpiece, hmem⟩ := exists_mem_splitOn (c := ',') hclose (by decide)
  have hne : trim piece ≠ [] := by
    intro he
    have hblank := isBlank_of_trim_eq_nil he '>' hmem
    cases hblank
  refine ⟨.ofList (trim piece), ?_⟩
  rw [cut, htype, List.splitOn_append_cons_self_of_not_mem hbefore, List.tail_cons]
  refine List.mem_cons_of_mem _ (List.mem_map.mpr ⟨trim piece, ?_, rfl⟩)
  exact List.mem_filter.mpr ⟨List.mem_map_of_mem hpiece, by simpa using hne⟩

/-- Parameters are kept whole exactly if no type holds a comma. -/
theorem flatMap_cut_eq_iff :
    ps.flatMap cut = ps.map parameter ↔ ∀ p ∈ ps, ',' ∉ p.type := by
  constructor
  · intro h p hp hcomma
    obtain ⟨text, hraw⟩ := p.exists_raw_mem_cut hcomma
    have hmem : .raw text ∈ ps.map parameter := h ▸ List.mem_flatMap.mpr ⟨p, hp, hraw⟩
    obtain ⟨q, -, hq⟩ := List.mem_map.mp hmem
    cases hq
  · intro h
    rw [List.map_eq_flatMap]
    exact List.flatMap_congr fun p hp => cut_eq (h p hp)

theorem isListChar_print (p : TypedParameter) : ∀ c ∈ p.print, isListChar c = true :=
  isListChar_typed p.isName p.isPlainType

theorem tidy_print (p : TypedParameter) : Tidy p.print :=
  (tidy_of_isName p.isName).append_cons (by simp)
    (p.isPlainType.tidy.space_cons (trim_eq_self_iff.mp p.isPlainType.isType.trim_eq).1)

/-- A line with a list of parameters is read as a method with the parameters that are left. -/
theorem ofLine?_methodLine (hname : IsName name) (ps : List TypedParameter) :
    ofLine? (methodLine name ps) = some (.method (method name (ps.flatMap cut))) := by
  have hlist : Tidy (commaList (ps.map print)) := by
    refine tidy_commaList (List.forall_mem_map.mpr fun p _ => p.tidy_print) ?_
    refine List.forall_mem_map.mpr fun p _ => ⟨?_, p.isName.stops_isBlank⟩
    exact List.append_ne_nil_of_left_ne_nil p.isName.ne_nil _
  have hclose : ')' ∉ commaList (ps.map print) :=
    not_mem_of_run (forall_mem_commaList rfl rfl
      (List.forall_mem_map.mpr fun p _ => p.isListChar_print)) rfl
  have htidy : Tidy (methodLine name ps) :=
    (tidy_of_isName hname).append_cons (by simp) (hlist.append_cons (by simp) tidy_nil)
  have htrim : trim (methodLine name ps) = methodLine name ps := by
    refine trim_eq_self_of_suffix hname.stops_isBlank (t := [')']) ?_ (List.cons_ne_nil _ _)
      (stops_cons.mpr rfl)
    exact (List.suffix_append _ [')']).trans ((List.suffix_cons '(' _).trans (List.suffix_append _ _))
  have hwritten : Parts.Written ⟨none, name, none, some (commaList (ps.map print)), none⟩
      (methodLine name ps) :=
    Parts.written_of_eq _ .missing hname .missing (listPart_parentheses hclose) .missing
      (by rw [List.append_nil]; rfl)
  rw [ofLine?, htidy.markerFree.unmark_eq, htidy.singleSpaced.collapse_eq, htrim,
    hwritten.readParts?, Option.map_some]
  apply congrArg (some <| Member.method <| method name ·)
  rw [readParameters_commaList, List.flatMap_map]
  exact List.flatMap_congr fun p _ => p.readParameters_print

/-- A line that consists of a name and a list of names with types declares one method. Its
parameters are those that are left of the list once it is cut at every comma, and these are the
names with their types exactly if no type holds a comma. -/
theorem ofLine?_parameterList (hname : IsName name) (ps : List TypedParameter) :
    ofLine? (methodLine name ps) = some (.method (method name (ps.flatMap cut))) ∧
      (ps.flatMap cut = ps.map parameter ↔ ∀ p ∈ ps, ',' ∉ p.type) :=
  ⟨ofLine?_methodLine hname ps, flatMap_cut_eq_iff⟩

/-- Without a comma in its type, a parameter is kept whole. -/
theorem ofLine?_parameterList_kept : ∃ f,
    ofLine? "put(k: List<Int>[])".toList = some (.method f) ∧
      f.parameters = [.typed "k" "List<Int>[]"] := by
  have hname : ∀ {w : List Char}, w ≠ [] → w.all isWord = true → IsName w := fun hne hall =>
    ⟨hne, List.all_eq_true.mp hall⟩
  have harguments := isPlainArguments_of_all (s := "Int".toList) (by decide) (by decide)
  let key : TypedParameter :=
    { name := ['k'], type := "List<Int>[]".toList, isName := hname (by decide) (by decide)
      isPlainType :=
        .mk 1 (by decide : "List".toList ≠ []) (List.all_eq_true.mp (by decide)) harguments }
  obtain ⟨hread, hkept⟩ := ofLine?_parameterList (hname (w := "put".toList) (by decide) (by decide))
    [key]
  refine ⟨_, hread, hkept.mpr fun p hp => ?_⟩
  rw [List.mem_singleton.mp hp]
  exact (by decide : ',' ∉ "List<Int>[]".toList)

/-- A parameter with a comma in its type. -/
def lookup : TypedParameter where
  name := "m".toList
  type := "Map<String, Int>".toList
  isName := ⟨by decide, List.all_eq_true.mp (by decide)⟩
  isPlainType :=
    .mk 0 (by decide : "Map".toList ≠ []) (List.all_eq_true.mp (by decide))
      (isPlainArguments_of_all (s := "String, Int".toList) (by decide) (by decide))

/-- The comma of a map cuts its type, so the method does not have the parameter that is written. -/
theorem ofLine?_lookup :
    methodLine "put".toList [lookup] = "put(m: Map<String, Int>)".toList ∧
      ofLine? "put(m: Map<String, Int>)".toList =
        some (.method (method "put".toList [.typed "m" "Map<String", .raw "Int>"])) ∧
      ¬ ∃ f, ofLine? "put(m: Map<String, Int>)".toList = some (.method f) ∧
        f.parameters = [.typed "m" "Map<String, Int>"] := by
  have hname : IsName "put".toList := ⟨by decide, List.all_eq_true.mp (by decide)⟩
  have hline : methodLine "put".toList [lookup] = "put(m: Map<String, Int>)".toList := rfl
  have hcut : [lookup].flatMap cut = [.typed "m" "Map<String", .raw "Int>"] := by decide
  have hread := ofLine?_methodLine hname [lookup]
  rw [hline, hcut] at hread
  refine ⟨hline, hread, ?_⟩
  rintro ⟨f, hf, hparameters⟩
  rw [hread] at hf
  cases hf
  exact absurd hparameters (by decide)

end TypedParameter

end UmlDraft
