import Mathlib.Data.List.Basic
import UmlDraft.Proofs.Diagram.Member
import UmlDraft.Proofs.Diagram.ParameterList
import UmlDraft.Proofs.Diagram.Print

/-!
# Listed members

The line that lists a member is read back as that member. Every text of a member that was read is
tidy, so a line holds no gap but single spaces and no markers but those it begins with. Each of
these leaves one more space before the name, and what stands behind that gap is a text that
collapsing and trimming leave alone: the readers of a line meet the parts exactly as they were
listed. Hence listing the members of any body and reading the lines gives the same members.
-/

namespace UmlDraft

open Text TypeToken Member

variable {s t : List Char}

namespace Visibility

/-- A visibility symbol is read as one. -/
theorem isSymbol_sign (v : Visibility) : isSymbol v.sign = true := by
  cases v with
  | pub | priv | prot | pack => rfl

theorem isBlank_sign (v : Visibility) : isBlank v.sign = false := by
  cases v with
  | pub | priv | prot | pack => rfl

/-- A symbol says the visibility it stands for. -/
theorem visibilityOf_sign (v : Visibility) : visibilityOf (some v.sign) = v := by
  cases v with
  | pub | priv | prot | pack => rfl

/-- No marker stands before the text of a member. -/
theorem open_not_mem_print (v : Visibility) : '{' ∉ v.print := by
  cases v with
  | pub | priv | prot | pack => decide

theorem feed_not_mem_print (v : Visibility) : '\n' ∉ v.print := by
  cases v with
  | pub | priv | prot | pack => decide

end Visibility

/-- Behind its symbol, a gap of any length counts as one space. -/
theorem squeeze_eq (v : Visibility) {gap text : List Char} (hgap : IsGap gap)
    (htext : SingleSpaced text) (htrim : trim text = text) (hne : text ≠ []) :
    trim (collapse (' ' :: ' ' :: v.sign :: (gap ++ text))) = v.sign :: ' ' :: text := by
  obtain ⟨hs, hr⟩ := trim_eq_self_iff.mp htrim
  have hindent : IsGap [' ', ' '] := ⟨List.cons_ne_nil _ _, by simp [isBlank_space]⟩
  have hsymbol : Stops isBlank (v.sign :: (gap ++ text)) := stops_cons.mpr v.isBlank_sign
  have hcollapse : collapse (' ' :: ' ' :: v.sign :: (gap ++ text)) =
      ' ' :: v.sign :: ' ' :: text := by
    rw [← htext.collapse_eq, ← collapse_gap hgap hs, ← collapse_cons_of_not_blank v.isBlank_sign,
      ← collapse_gap hindent hsymbol, htext.collapse_eq]
    rfl
  rw [hcollapse, trim_space_cons]
  refine trim_eq_self_of_suffix (stops_cons.mpr v.isBlank_sign) ?_ hne hr
  exact (List.suffix_cons ' ' text).trans (List.suffix_cons v.sign _)

/-- A visibility symbol stands before a space. -/
theorem symbolPart_sign (v : Visibility) : SymbolPart (some v.sign) [v.sign, ' '] := by
  obtain ⟨word, blank, bracket, unit⟩ := isSymbol_iff.mp v.isSymbol_sign
  exact .present word blank bracket unit fun c hc => List.mem_singleton.mp hc

namespace Parameter

variable {p : Parameter}

/-- What the readers of a parameter list need to know of the text of a parameter. -/
structure Readable (p : Parameter) : Prop where
  /-- The text is not blank. -/
  ne_nil : trim p.print ≠ []
  /-- No blank begins the text. -/
  stops_isBlank : Stops isBlank p.print
  /-- The text is tidy. -/
  tidy : Tidy p.print
  /-- The text holds no comma or closing parenthesis. -/
  plain : ∀ c ∈ [',', ')'], c ∉ p.print
  /-- The text is read as the parameter. -/
  read : readParameter (trim p.print) = p

theorem WellFormed.readable (h : p.WellFormed) (hs : p.SingleSpaced) : p.Readable := by
  cases p with
  | typed name type =>
    obtain ⟨⟨hname, hnamePlain, hnameFree⟩, ⟨htype, htypePlain, htypeFree⟩⟩ := h
    have hstop := (trim_eq_self_iff.mp hname).1
    obtain ⟨hne, hread⟩ := readParameter_trim_typed hname (hnamePlain ':' (by simp))
      (htypePlain ':' (by simp))
    rw [← print_typed] at hne hread
    have hspace : Tidy (' ' :: type.toList) :=
      Tidy.space_cons ⟨hs.2, htypeFree⟩ (trim_eq_self_iff.mp htype).1
    refine ⟨hne, ?_, ?_, ?_, ?_⟩
    · rw [print_typed]
      exact stops_append hstop fun _ => stops_cons.mpr rfl
    · rw [print_typed]
      exact Tidy.append_cons ⟨hs.1, hnameFree⟩ (by simp) hspace
    · intro c hc
      have hmem : c ∈ [',', ':', ')'] := by
        simp only [List.mem_cons, List.not_mem_nil, or_false] at hc ⊢
        exact hc.imp_right .inr
      have hmark : c ≠ ':' ∧ c ≠ ' ' := by
        simp only [List.mem_cons, List.not_mem_nil, or_false] at hc
        rcases hc with rfl | rfl
        all_goals decide
      rw [print_typed, List.mem_append, List.mem_cons, List.mem_cons, not_or, not_or, not_or]
      exact ⟨hnamePlain c hmem, hmark.1, hmark.2, htypePlain c hmem⟩
    · rw [hread, htype, String.ofList_toList, String.ofList_toList]
  | raw text =>
    obtain ⟨hne, htrim, hplain, hcount, hfree⟩ := h
    have hread : readParameter text.toList = .raw text := by
      unfold readParameter
      split
      · next name type hsplit =>
        have hlen := length_splitOn ':' text.toList
        rw [hsplit] at hlen
        exact absurd (Nat.succ.inj hlen).symm hcount
      · rw [String.ofList_toList]
    refine ⟨?_, (trim_eq_self_iff.mp htrim).1, ⟨hs, hfree⟩, hplain, ?_⟩
    · rw [print, Listing.parameterText, htrim]
      exact hne
    · rw [print, Listing.parameterText, htrim]
      exact hread

end Parameter

/-- The list of readable parameters is read as those parameters. -/
theorem readParameters_print {ps : List Parameter} (h : ∀ p ∈ ps, p.Readable) :
    readParameters (commaList (ps.map Parameter.print)) = ps := by
  have hone : ∀ p ∈ ps, readParameters p.print = [p] := fun p hp => by
    rw [readParameters_of_not_mem ((h p hp).plain ',' (by simp)) (h p hp).ne_nil, (h p hp).read]
  rw [readParameters_commaList, List.flatMap_map, List.flatMap_congr hone, List.flatMap_singleton']

/-- A marker with a space behind it leaves two spaces. -/
theorem unmark_marker_space {m : Modifier} {w : String} (h : w ∈ m.texts) (rest : List Char) :
    unmark (w.toList ++ ' ' :: rest) = (' ' :: ' ' :: (unmark rest).1, m :: (unmark rest).2) := by
  have hspace : unmark (' ' :: rest) = (' ' :: (unmark rest).1, (unmark rest).2) :=
    unmark_append_of_not_mem (by decide : '{' ∉ [' ']) rest
  rw [unmark_append_marker (Modifier.saidBy_text h), hspace]

/-- A marker that may be left out leaves spaces, and says its modifier where it stands. -/
theorem unmark_flag {m : Modifier} {w : String} (h : w ∈ m.texts) (flag : Bool)
    (rest : List Char) : ∃ gap, (∀ c ∈ gap, isBlank c = true) ∧
      unmark ((if flag then w.toList ++ [' '] else []) ++ rest) =
        (gap ++ (unmark rest).1, (if flag then [m] else []) ++ (unmark rest).2) := by
  cases flag with
  | false =>
    refine ⟨[], ?_, rfl⟩
    intro c hc
    cases hc
  | true =>
    refine ⟨[' ', ' '], by simp [isBlank_space], ?_⟩
    rw [if_pos rfl, if_pos rfl, List.append_assoc, List.singleton_append, unmark_marker_space h]
    rfl

namespace Method

variable {m : Method}

/-- The modifiers that the markers of a method say. -/
def modifiers (m : Method) : List Modifier :=
  (if m.isAbstract then [.abstract] else []) ++ (if m.isStatic then [.static] else [])

theorem contains_abstract (m : Method) : m.modifiers.contains .abstract = m.isAbstract := by
  unfold modifiers
  cases m.isAbstract <;> cases m.isStatic <;> rfl

theorem contains_static (m : Method) : m.modifiers.contains .static = m.isStatic := by
  unfold modifiers
  cases m.isAbstract <;> cases m.isStatic <;> rfl

/-- The markers of a method leave spaces, and say its modifiers. -/
theorem unmark_markers (m : Method) (h : MarkerFree s) : ∃ gap, (∀ c ∈ gap, isBlank c = true) ∧
    unmark (m.markers ++ s) = (gap ++ s, m.modifiers) := by
  obtain ⟨gap₁, hg₁, h₁⟩ := unmark_flag (m := .static) (w := "\x7bstatic\x7d")
    List.mem_cons_self m.isStatic s
  obtain ⟨gap₂, hg₂, h₂⟩ := unmark_flag (m := .abstract) (w := "\x7babstract\x7d")
    List.mem_cons_self m.isAbstract
    ((if m.isStatic then "\x7bstatic\x7d".toList ++ [' '] else []) ++ s)
  refine ⟨gap₂ ++ gap₁, fun c hc => ?_, ?_⟩
  · rcases List.mem_append.mp hc with hc | hc
    · exact hg₂ c hc
    · exact hg₁ c hc
  · rw [markers, List.append_assoc, h₂, h₁, h.unmark_eq, List.append_nil, List.append_assoc,
      modifiers]

theorem feed_not_mem_markers (m : Method) : '\n' ∉ m.markers := by
  unfold markers
  cases m.isAbstract <;> cases m.isStatic <;> decide

theorem Listable.readable (h : m.Listable) : ∀ p ∈ m.parameters, p.Readable :=
  fun p hp => (h.parameters p hp).readable (h.parameters_singleSpaced p hp)

/-- The name of a listed method, its parameters and its return type make a tidy text. -/
theorem Listable.tidy_signature (h : m.Listable) : Tidy m.signature := by
  have hlist : Tidy (commaList (m.parameters.map Parameter.print)) := by
    apply tidy_commaList
    · exact List.forall_mem_map.mpr fun p hp => (h.readable p hp).tidy
    · refine List.forall_mem_map.mpr fun p hp => ⟨fun he => ?_, (h.readable p hp).stops_isBlank⟩
      apply (h.readable p hp).ne_nil
      rw [he]
      rfl
  have htype : Tidy (' ' :: m.returnType.toList) :=
    Tidy.space_cons ⟨h.returnType_singleSpaced, h.returnType_markerFree⟩
      (trim_eq_self_iff.mp h.returnType.trim_eq).1
  have hcolon : Tidy (':' :: ' ' :: m.returnType.toList) :=
    tidy_nil.append_cons (by simp) htype
  exact (tidy_of_isName h.name).append_cons (by simp) (hlist.append_cons (by simp) hcolon)

/-- No blank begins or ends a listed method behind its markers. -/
theorem Listable.trim_signature (h : m.Listable) : trim m.signature = m.signature := by
  have hsuffix : m.returnType.toList <:+ m.signature := by
    refine List.IsSuffix.trans ?_ (List.suffix_append m.name.toList _)
    refine List.IsSuffix.trans ?_ (List.suffix_cons '(' _)
    exact (suffix_typed [')'] _).trans (List.suffix_append _ _)
  exact trim_eq_self_of_suffix h.name.stops_isBlank hsuffix h.returnType.ne_nil
    (trim_eq_self_iff.mp h.returnType.trim_eq).2

end Method

/-- A line that squeezes to a symbol, a space and a text of parts declares what the parts say. -/
theorem ofLine?_eq {line text : List Char} {modifiers : List Modifier} {p : Parts}
    (hu : (unmark line).2 = modifiers) (hl : trim (collapse (unmark line).1) = text)
    (hp : readParts? text = some p) : ofLine? line = some (ofParts p modifiers) := by
  rw [ofLine?, hl, hp, hu, Option.map_some]

/-- The text of a listed attribute is tidy. -/
theorem Attribute.Listable.tidy_text {a : Attribute} (h : a.Listable) :
    Tidy (a.name.toList ++ ':' :: ' ' :: a.type.toList) :=
  (tidy_of_isName h.name).append_cons (by simp)
    (Tidy.space_cons ⟨h.type_singleSpaced, h.type_markerFree⟩ (trim_eq_self_iff.mp h.type.trim_eq).1)

/-- The line of an attribute is read as that attribute. -/
theorem Attribute.Listable.ofLine? {a : Attribute} (h : a.Listable) :
    ofLine? a.print = some (.attribute a) := by
  have htidy := h.tidy_text
  have hu : unmark a.print =
      (a.visibility.print ++ (a.name.toList ++ ':' :: ' ' :: a.type.toList), []) := by
    rw [print_eq, unmark_append_of_not_mem a.visibility.open_not_mem_print,
      htidy.markerFree.unmark_eq]
  have htrim := trim_eq_self_of_suffix h.name.stops_isBlank (suffix_typed _ _) h.type.ne_nil
    (trim_eq_self_iff.mp h.type.trim_eq).2
  have hl := squeeze_eq a.visibility isGap_space htidy.singleSpaced htrim
    (List.append_ne_nil_of_left_ne_nil h.name.ne_nil _)
  have hp : Parts.Written ⟨some a.visibility.sign, a.name.toList, some a.type.toList, none, none⟩
      (a.visibility.sign :: ' ' :: (a.name.toList ++ ':' :: ' ' :: a.type.toList)) :=
    Parts.written_of_eq _ (symbolPart_sign a.visibility) h.name (typePart_colon h.type) .missing
      .missing (by rw [List.append_nil, List.append_nil]; rfl)
  rw [ofLine?_eq (congrArg Prod.snd hu) (by rw [hu]; exact hl) hp.readParts?]
  simp only [ofParts, Parts.settled, a.visibility.visibilityOf_sign, String.ofList_toList, Option.some_or,
    Option.map_some, Option.getD_some]

/-- The line of a method is read as that method. -/
theorem Method.Listable.ofLine? {m : Method} (h : m.Listable) :
    ofLine? m.print = some (.method m) := by
  have htidy := h.tidy_signature
  obtain ⟨gap, hgap, hmarkers⟩ := unmark_markers m htidy.markerFree
  have hu : unmark m.print = (m.visibility.print ++ (gap ++ m.signature), m.modifiers) := by
    rw [print_eq, unmark_append_of_not_mem m.visibility.open_not_mem_print, hmarkers]
  have hclose : ')' ∉ commaList (m.parameters.map Parameter.print) := by
    refine fun hmem => forall_mem_commaList (p := (· ≠ ')')) (by decide) (by decide) ?_ ')' hmem rfl
    refine List.forall_mem_map.mpr fun p hp c hc he => ?_
    exact (h.readable p hp).plain ')' (by simp) (he ▸ hc)
  have hspaces : IsGap (' ' :: gap) := by
    refine ⟨List.cons_ne_nil ' ' gap, fun c hc => ?_⟩
    rcases List.mem_cons.mp hc with rfl | hc
    · exact isBlank_space
    · exact hgap c hc
  have hl := squeeze_eq m.visibility hspaces htidy.singleSpaced h.trim_signature
    (List.append_ne_nil_of_left_ne_nil h.name.ne_nil _)
  have hp : Parts.Written ⟨some m.visibility.sign, m.name.toList, none,
      some (commaList (m.parameters.map Parameter.print)), some m.returnType.toList⟩
      (m.visibility.sign :: ' ' :: m.signature) :=
    Parts.written_of_eq _ (symbolPart_sign m.visibility) h.name .missing
      (listPart_parentheses hclose) (typePart_colon h.returnType) (by simp [signature])
  rw [ofLine?_eq (congrArg Prod.snd hu) (by rw [hu]; exact hl) hp.readParts?]
  simp only [ofParts, Parts.settled, m.visibility.visibilityOf_sign, String.ofList_toList, Option.map_some,
    Option.getD_some, readParameters_print h.readable, m.contains_abstract, m.contains_static]

/-- No line of an attribute is broken. -/
theorem Attribute.Listable.feed_not_mem {a : Attribute} (h : a.Listable) : '\n' ∉ a.print := by
  rw [print_eq, List.mem_append, not_or]
  exact ⟨a.visibility.feed_not_mem_print,
    h.tidy_text.singleSpaced.not_mem isBlank_feed (by decide)⟩

/-- No line of a method is broken. -/
theorem Method.Listable.feed_not_mem {m : Method} (h : m.Listable) : '\n' ∉ m.print := by
  rw [print_eq, List.mem_append, List.mem_append, not_or, not_or]
  exact ⟨m.visibility.feed_not_mem_print, m.feed_not_mem_markers,
    h.tidy_signature.singleSpaced.not_mem isBlank_feed (by decide)⟩

namespace Declaration

variable {d : Declaration}

/-- The members of a declaration, attributes first. -/
def members (d : Declaration) : List Member :=
  d.attributes.map Member.attribute ++ d.methods.map Member.method

theorem filterMap_attribute?_members (d : Declaration) :
    d.members.filterMap attribute? = d.attributes := by
  have hnone : d.methods.filterMap (attribute? ∘ Member.method) = [] :=
    List.filterMap_eq_nil_iff.mpr fun m hm => rfl
  rw [members, List.filterMap_append, List.filterMap_map, List.filterMap_map, hnone,
    List.append_nil]
  exact List.filterMap_some

theorem filterMap_method?_members (d : Declaration) :
    d.members.filterMap method? = d.methods := by
  have hnone : d.attributes.filterMap (method? ∘ Member.attribute) = [] :=
    List.filterMap_eq_nil_iff.mpr fun a ha => rfl
  rw [members, List.filterMap_append, List.filterMap_map, List.filterMap_map, hnone,
    List.nil_append]
  exact List.filterMap_some

/-- A declaration whose body is read as the members of another gets these members. -/
theorem withMembers_of_members {e : Declaration} (h : ofBody e.body = d.members) :
    e.withMembers.attributes = d.attributes ∧ e.withMembers.methods = d.methods := by
  rw [← filterMap_attribute?_members d, ← filterMap_method?_members d, ← h]
  exact ⟨rfl, rfl⟩

/-- A declaration whose members can all be listed. -/
structure Listable (d : Declaration) : Prop where
  /-- Every attribute can be listed. -/
  attributes : ∀ a ∈ d.attributes, a.Listable
  /-- Every method can be listed. -/
  methods : ∀ m ∈ d.methods, m.Listable

/-- Members that have been read can be listed. -/
theorem listable_withMembers (d : Declaration) : d.withMembers.Listable :=
  ⟨fun _ => listable_of_mem_attributes, fun _ => listable_of_mem_methods⟩

/-- The lines of the members are read as the members. -/
theorem Listable.filterMap_memberLines (h : d.Listable) :
    d.memberLines.filterMap ofLine? = d.members := by
  have ha : (d.attributes.map Attribute.print).filterMap ofLine? =
      d.attributes.map Member.attribute := by
    rw [List.filterMap_map, ← List.filterMap_eq_map, List.filterMap_congr]
    exact fun a ha => (h.attributes a ha).ofLine?
  have hm : (d.methods.map Method.print).filterMap ofLine? = d.methods.map Member.method := by
    rw [List.filterMap_map, ← List.filterMap_eq_map, List.filterMap_congr]
    exact fun m hm => (h.methods m hm).ofLine?
  rw [memberLines, List.filterMap_append, ha, hm, members]

theorem Listable.feed_not_mem (h : d.Listable) : ∀ t ∈ d.memberLines, '\n' ∉ t := by
  intro t ht
  rcases List.mem_append.mp ht with ht | ht
  · obtain ⟨a, ha, rfl⟩ := List.mem_map.mp ht
    exact (h.attributes a ha).feed_not_mem
  · obtain ⟨m, hm, rfl⟩ := List.mem_map.mp ht
    exact (h.methods m hm).feed_not_mem

/-- The lines of the members with line feeds between them are a body with these members. -/
theorem Listable.ofBody_memberLines (h : d.Listable) :
    ofBody (.ofList (['\n'].intercalate d.memberLines)) = d.members := by
  rw [ofBody, String.toList_ofList, ← h.filterMap_memberLines]
  by_cases hne : d.memberLines = []
  · rw [hne, List.intercalate_nil, List.splitOn_nil, List.filterMap_cons, ofLine?_nil]
  · rw [List.splitOn_intercalate '\n' h.feed_not_mem hne]

/-- The lines behind the first of a listed declaration are those of its members. -/
theorem toList_intercalate_declarationLines (d : Declaration) :
    ("\n".intercalate (Listing.declarationLines d).tail).toList =
      ['\n'].intercalate d.memberLines := by
  have htail : (Listing.declarationLines d).tail.map String.toList = d.memberLines := by
    have hlines : (Listing.declarationLines d).tail =
        (d.attributes.map fun a => "  " ++ Listing.attributeLine a) ++
          d.methods.map fun m => "  " ++ Listing.methodLine m := rfl
    rw [hlines, List.map_append, List.map_map, List.map_map]
    rfl
  rw [String.toList_intercalate, htail]
  rfl

/-- Whatever the body, listing its members and reading the lines again gives the same members. -/
theorem withMembers_memberListing (d : Declaration) :
    let listed := "\n".intercalate (Listing.declarationLines d.withMembers).tail
    (Declaration.withMembers { d with body := listed }).attributes = d.withMembers.attributes ∧
      (Declaration.withMembers { d with body := listed }).methods = d.withMembers.methods := by
  intro listed
  have hlisted : listed = .ofList (['\n'].intercalate d.withMembers.memberLines) := by
    rw [← toList_intercalate_declarationLines, String.ofList_toList]
  have hbody : ofBody listed = d.withMembers.members := by
    rw [hlisted, d.listable_withMembers.ofBody_memberLines]
  exact withMembers_of_members hbody

end Declaration

end UmlDraft
