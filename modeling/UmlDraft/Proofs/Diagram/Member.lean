import UmlDraft.Diagram.Model
import UmlDraft.Proofs.Diagram.MemberGrammar
import UmlDraft.Proofs.Text.Split

/-!
# Members that are read

Whatever a line says, the member that is read from it has a name and a type of the required form,
its parameters are trimmed and hold none of the characters that separate them, no marker is left
in any of its texts, and these are single spaced. The parts of a line are pieces of the line without
its markers and with its blanks collapsed, which is why none of them can hold a marker or a longer
gap.
-/

namespace UmlDraft

open Text Member TypeToken

/-- The name or the type of a typed parameter: trimmed, and free of the characters that end it. -/
structure IsParameterPart (s : List Char) : Prop where
  /-- No blank begins or ends the text. -/
  trimmed : trim s = s
  /-- The text holds no comma, colon or closing parenthesis. -/
  plain : ∀ c ∈ [',', ':', ')'], c ∉ s
  /-- The text holds no marker. -/
  markerFree : MarkerFree s

/-- The text of a parameter that is no name and type. -/
structure IsRawParameter (s : List Char) : Prop where
  /-- The text is not empty. -/
  ne_nil : s ≠ []
  /-- No blank begins or ends the text. -/
  trimmed : trim s = s
  /-- The text holds no comma or closing parenthesis. -/
  plain : ∀ c ∈ [',', ')'], c ∉ s
  /-- With one colon the text would be a name and a type. -/
  count_colon : s.count ':' ≠ 1
  /-- The text holds no marker. -/
  markerFree : MarkerFree s

/-- A parameter as it can be read. -/
def Parameter.WellFormed : Parameter → Prop
  | .typed name type => IsParameterPart name.toList ∧ IsParameterPart type.toList
  | .raw text => IsRawParameter text.toList

/-- An attribute as it can be read. -/
structure Attribute.WellFormed (a : Attribute) : Prop where
  /-- The name is a word. -/
  name : IsName a.name.toList
  /-- The type has the form of a type. -/
  type : IsType a.type.toList
  /-- The name holds no marker. -/
  name_markerFree : MarkerFree a.name.toList
  /-- The type holds no marker. -/
  type_markerFree : MarkerFree a.type.toList

/-- A method as it can be read. -/
structure Method.WellFormed (m : Method) : Prop where
  /-- The name is a word. -/
  name : IsName m.name.toList
  /-- The return type has the form of a type. -/
  returnType : IsType m.returnType.toList
  /-- The name holds no marker. -/
  name_markerFree : MarkerFree m.name.toList
  /-- The return type holds no marker. -/
  returnType_markerFree : MarkerFree m.returnType.toList
  /-- Every parameter is well-formed. -/
  parameters : ∀ p ∈ m.parameters, p.WellFormed

/-- A parameter whose texts have single spaces only. -/
def Parameter.SingleSpaced : Parameter → Prop
  | .typed name type => Text.SingleSpaced name.toList ∧ Text.SingleSpaced type.toList
  | .raw text => Text.SingleSpaced text.toList

/-- An attribute whose line says all of it. -/
structure Attribute.Listable (a : Attribute) : Prop extends a.WellFormed where
  /-- The type is single spaced. -/
  type_singleSpaced : SingleSpaced a.type.toList

/-- A method whose line says all of it. -/
structure Method.Listable (m : Method) : Prop extends m.WellFormed where
  /-- The return type is single spaced. -/
  returnType_singleSpaced : SingleSpaced m.returnType.toList
  /-- Every parameter is single spaced. -/
  parameters_singleSpaced : ∀ p ∈ m.parameters, p.SingleSpaced

namespace Member

variable {line s text piece : List Char} {p : Parts}

/-- A type that may be missing has the form of a type and is a piece of the text. -/
def IsTypeIn (s : List Char) (type : Option (List Char)) : Prop :=
  ∀ t ∈ type, IsType t ∧ t <:+: s

/-- The parts of a line are pieces of it, and each has its form. -/
structure Parts.Sound (s : List Char) (p : Parts) : Prop where
  /-- The name is a word. -/
  name : IsName p.name
  /-- The type behind the name. -/
  first : IsTypeIn s p.first
  /-- The parameters end at the first closing parenthesis. -/
  parameters : ∀ t ∈ p.parameters, ')' ∉ t ∧ t <:+: s
  /-- The type that stands last. -/
  second : IsTypeIn s p.second

theorem TypePart.isTypeIn {type : Option (List Char)} (h : TypePart type piece)
    (hs : piece <:+: s) : IsTypeIn s type := by
  cases h with
  | missing => exact fun _ ht => nomatch ht
  | @present g k t spaces spaces' type =>
    intro u hu
    cases hu
    have hsuffix : t <:+ g ++ ':' :: (k ++ t) :=
      ((List.suffix_append k t).trans (List.suffix_cons ':' _)).trans (List.suffix_append g _)
    exact ⟨type, hsuffix.isInfix.trans hs⟩

/-- Parts that are written in a line are pieces of it. -/
theorem Parts.Written.sound (h : p.Written s) : p.Sound s := by
  obtain ⟨hsymbol, hname, hfirst, hlist, hsecond⟩ := h
  next c f l t =>
  have hl : l ++ t <:+ f ++ (l ++ t) := List.suffix_append f _
  have hline : f ++ (l ++ t) <:+ c ++ (p.name ++ (f ++ (l ++ t))) :=
    (List.suffix_append p.name _).trans (List.suffix_append c _)
  refine ⟨hname, ?_, ?_, ?_⟩
  · exact hfirst.isTypeIn ((List.prefix_append f _).isInfix.trans hline.isInfix)
  · intro u hu
    rw [Option.mem_def.mp hu] at hlist
    cases hlist with
    | @present g list spaces close =>
      have hu' : u <:+: g ++ '(' :: (u ++ [')']) := ⟨g ++ ['('], [')'], by simp⟩
      exact ⟨close, hu'.trans ((List.prefix_append _ t).isInfix.trans (hl.trans hline).isInfix)⟩
  · exact hsecond.isTypeIn ((List.suffix_append l t).trans (hl.trans hline)).isInfix

/-- A piece of a parameter between its colons is the name or the type of a well-formed one. -/
theorem isParameterPart_of_mem (hplain : ∀ c ∈ [',', ')'], c ∉ text) (hfree : MarkerFree text)
    (h : s ∈ text.splitOn ':') : IsParameterPart (String.ofList (trim s)).toList := by
  rw [String.toList_ofList]
  refine ⟨trim_trim s, ?_, (hfree.mono (infix_of_mem_splitOn h)).trim⟩
  intro c hc hmem
  have hs : c ∈ s := mem_of_mem_trim hmem
  rcases List.mem_cons.mp hc with rfl | hc
  · exact hplain ',' (by simp) ((infix_of_mem_splitOn h).subset hs)
  rcases List.mem_cons.mp hc with rfl | hc
  · exact not_mem_of_mem_splitOn h hs
  · rw [List.mem_singleton.mp hc] at hs
    exact hplain ')' (by simp) ((infix_of_mem_splitOn h).subset hs)

/-- A trimmed text between two commas is read as a well-formed parameter. -/
theorem wellFormed_readParameter (hne : text ≠ []) (htrim : trim text = text)
    (hplain : ∀ c ∈ [',', ')'], c ∉ text) (hfree : MarkerFree text) :
    (readParameter text).WellFormed := by
  unfold readParameter
  split
  · next name type hs =>
    have hname : name ∈ text.splitOn ':' := hs ▸ List.mem_cons_self
    have htype : type ∈ text.splitOn ':' :=
      hs ▸ List.mem_cons_of_mem name (List.mem_singleton_self type)
    exact ⟨isParameterPart_of_mem hplain hfree hname, isParameterPart_of_mem hplain hfree htype⟩
  · next hs =>
    rw [Parameter.WellFormed, String.toList_ofList]
    refine ⟨hne, htrim, hplain, ?_, hfree⟩
    intro hcount
    have hlen := length_splitOn ':' text
    rw [hcount] at hlen
    obtain ⟨name, more, h⟩ := List.exists_cons_of_ne_nil (List.splitOn_ne_nil ':' text)
    rw [h, List.length_cons, Nat.add_right_cancel_iff, List.length_eq_one_iff] at hlen
    obtain ⟨type, rfl⟩ := hlen
    exact hs name type h

/-- A single spaced text is read as a single spaced parameter. -/
theorem singleSpaced_readParameter (h : SingleSpaced text) : (readParameter text).SingleSpaced := by
  have hpiece : ∀ piece ∈ text.splitOn ':', SingleSpaced (String.ofList (trim piece)).toList := by
    intro piece hpiece
    rw [String.toList_ofList]
    exact h.mono ((isInfix_trim piece).trans (infix_of_mem_splitOn hpiece))
  unfold readParameter
  split
  · next name type hs =>
    rw [hs] at hpiece
    exact ⟨hpiece name List.mem_cons_self,
      hpiece type (List.mem_cons_of_mem name (List.mem_singleton_self type))⟩
  · rw [Parameter.SingleSpaced, String.toList_ofList]
    exact h

/-- The parameters of a tidy list are well-formed and single spaced. -/
theorem sound_of_mem_readParameters {p : Parameter} (hclose : ')' ∉ text) (htidy : Tidy text)
    (h : p ∈ readParameters text) : p.WellFormed ∧ p.SingleSpaced := by
  obtain ⟨t, ht, rfl⟩ := List.mem_map.mp h
  obtain ⟨hmem, hne⟩ := List.mem_filter.mp ht
  obtain ⟨piece, hpiece, rfl⟩ := List.mem_map.mp hmem
  have hpart : trim piece <:+: text := (isInfix_trim piece).trans (infix_of_mem_splitOn hpiece)
  have hplain : ∀ c ∈ [',', ')'], c ∉ trim piece := by
    intro c hc hmem
    rcases List.mem_cons.mp hc with rfl | hc
    · exact not_mem_of_mem_splitOn hpiece (mem_of_mem_trim hmem)
    · rw [List.mem_singleton.mp hc] at hmem
      exact hclose (hpart.subset hmem)
  have htrimmed := htidy.mono hpart
  exact ⟨wellFormed_readParameter (by simpa using hne) (trim_trim piece) hplain htrimmed.markerFree,
    singleSpaced_readParameter htrimmed.singleSpaced⟩

/-- The types that stand for a type that is not written have the form of a type and are tidy. -/
theorem isType_default {t : String} (h : t = defaultType ∨ t = defaultReturnType) :
    IsType t.toList ∧ Tidy t.toList := by
  rcases h with rfl | rfl
  · exact ⟨isToken_iff.mp (by decide), tidy_of_isName ⟨by decide, List.all_eq_true.mp (by decide)⟩⟩
  · exact ⟨isToken_iff.mp (by decide), tidy_of_isName ⟨by decide, List.all_eq_true.mp (by decide)⟩⟩

/-- A type of a tidy line, or its default, has the form of a type and is tidy. -/
theorem isType_getD {type : Option (List Char)} {default : String} (htidy : Tidy s)
    (h : IsTypeIn s type) (hd : default = defaultType ∨ default = defaultReturnType) :
    IsType ((type.map String.ofList).getD default).toList ∧
      Tidy ((type.map String.ofList).getD default).toList := by
  cases type with
  | none => exact isType_default hd
  | some t =>
    obtain ⟨ht, hs⟩ := h t rfl
    rw [Option.map_some, Option.getD_some, String.toList_ofList]
    exact ⟨ht, htidy.mono hs⟩

/-- An empty line declares nothing. -/
theorem ofLine?_nil : ofLine? [] = none := by
  rw [ofLine?, unmark_nil]
  rfl

/-- A line says what its parts say, and these are pieces of a tidy text. -/
theorem parts_of_ofLine? {m : Member} (h : ofLine? line = some m) :
    ∃ s p modifiers, Tidy s ∧ p.Sound s ∧ m = ofParts p modifiers := by
  obtain ⟨p, hp, rfl⟩ := Option.map_eq_some_iff.mp h
  exact ⟨_, p, _, tidy_line line, (written_of_line hp).sound, rfl⟩

/-- Every attribute that a line declares can be listed. -/
theorem listable_of_ofLine?_attribute {a : Attribute} (h : ofLine? line = some (.attribute a)) :
    a.Listable := by
  obtain ⟨s, p, modifiers, htidy, hp, hm⟩ := parts_of_ofLine? h
  unfold ofParts at hm
  split at hm
  · cases hm
  · cases hm
    have htype : IsTypeIn s (p.first.or p.second) := by
      intro t ht
      rcases Option.or_eq_some_iff.mp ht with h₁ | ⟨-, h₂⟩
      · exact hp.first t h₁
      · exact hp.second t h₂
    obtain ⟨hform, hmember⟩ := isType_getD htidy htype (.inl rfl)
    have hname : IsName (String.ofList p.name).toList := by
      rw [String.toList_ofList]
      exact hp.name
    exact ⟨⟨hname, hform, markerFree_of_isName hname, hmember.markerFree⟩, hmember.singleSpaced⟩

/-- Every method that a line declares can be listed. -/
theorem listable_of_ofLine?_method {m : Method} (h : ofLine? line = some (.method m)) :
    m.Listable := by
  obtain ⟨s, p, modifiers, htidy, hp, hm⟩ := parts_of_ofLine? h
  unfold ofParts at hm
  split at hm
  · next text htext =>
    cases hm
    obtain ⟨hform, hmember⟩ := isType_getD htidy hp.second (.inr rfl)
    obtain ⟨hclose, hpart⟩ := hp.parameters text htext
    have hname : IsName (String.ofList p.name).toList := by
      rw [String.toList_ofList]
      exact hp.name
    have hparameters : ∀ q ∈ readParameters text, q.WellFormed ∧ q.SingleSpaced := fun q hq =>
      sound_of_mem_readParameters hclose (htidy.mono hpart) hq
    exact ⟨⟨hname, hform, markerFree_of_isName hname, hmember.markerFree,
      fun q hq => (hparameters q hq).1⟩, hmember.singleSpaced, fun q hq => (hparameters q hq).2⟩
  · cases hm

end Member

variable {d : Declaration}

/-- Every attribute of a declaration whose body has been read can be listed. -/
theorem Declaration.listable_of_mem_attributes {a : Attribute}
    (h : a ∈ d.withMembers.attributes) : a.Listable := by
  obtain ⟨m, hm, ha⟩ := List.mem_filterMap.mp h
  obtain ⟨line, -, hline⟩ := List.mem_filterMap.mp hm
  rcases m with b | _
  · cases ha
    exact listable_of_ofLine?_attribute hline
  · cases ha

/-- Every method of a declaration whose body has been read can be listed. -/
theorem Declaration.listable_of_mem_methods {m : Method}
    (h : m ∈ d.withMembers.methods) : m.Listable := by
  obtain ⟨member, hm, ha⟩ := List.mem_filterMap.mp h
  obtain ⟨line, -, hline⟩ := List.mem_filterMap.mp hm
  rcases member with _ | m'
  · cases ha
  · cases ha
    exact listable_of_ofLine?_method hline

end UmlDraft
