import Mathlib.Data.List.Basic
import UmlDraft.Proofs.Diagram.ListedMember

/-!
# Printed members

A printable member can be listed, so its line is read back as that member. A line holds few kinds of
characters: those of names and types, a visibility symbol, the punctuation of the line, and the
braces of markers, which close where they open.
-/

namespace UmlDraft

open Text TypeToken Member

variable {s t : List Char}

theorem Visibility.close_not_mem_print (v : Visibility) : '}' ∉ v.print := by
  cases v with
  | pub | priv | prot | pack => decide

/-- A printable attribute can be listed. -/
theorem Attribute.Printable.listable {a : Attribute} (h : a.Printable) : a.Listable :=
  ⟨⟨h.name, h.type.isType, markerFree_of_isName h.name, h.type.tidy.markerFree⟩,
    h.type.tidy.singleSpaced⟩

namespace Parameter

variable {p : Parameter}

/-- A printable parameter is well-formed. -/
theorem Printable.wellFormed (h : p.Printable) : p.WellFormed := by
  obtain ⟨hname, htype, hcomma⟩ := h
  refine ⟨⟨hname.trim_eq, fun c hc => ?_, markerFree_of_isName hname⟩,
    ⟨htype.isType.trim_eq, fun c hc => ?_, htype.tidy.markerFree⟩⟩
  · simp only [List.mem_cons, List.not_mem_nil, or_false] at hc
    rcases hc with rfl | rfl | rfl
    all_goals exact hname.not_mem rfl
  · simp only [List.mem_cons, List.not_mem_nil, or_false] at hc
    rcases hc with rfl | rfl | rfl
    · exact hcomma
    · exact not_mem_of_run htype.isTypeChar rfl
    · exact not_mem_of_run htype.isTypeChar rfl

/-- A printable parameter is single spaced. -/
theorem Printable.singleSpaced (h : p.Printable) : p.SingleSpaced := by
  obtain ⟨hname, htype, -⟩ := h
  exact ⟨(tidy_of_isName hname).singleSpaced, htype.tidy.singleSpaced⟩

theorem Printable.isListChar (h : p.Printable) : ∀ c ∈ p.print, isListChar c = true := by
  obtain ⟨hname, htype, -⟩ := h
  rw [print_typed]
  exact isListChar_typed hname htype

end Parameter

namespace Method

variable {m : Method}

/-- A printable method can be listed. -/
theorem Printable.listable (h : m.Printable) : m.Listable :=
  ⟨⟨h.name, h.returnType.isType, markerFree_of_isName h.name, h.returnType.tidy.markerFree,
    fun p hp => (h.parameters p hp).wellFormed⟩, h.returnType.tidy.singleSpaced,
    fun p hp => (h.parameters p hp).singleSpaced⟩

/-- The texts of printable parameters stand in a list without parentheses and braces. -/
theorem Printable.isListChar_parameters (h : m.Printable) :
    ∀ c ∈ commaList (m.parameters.map Parameter.print), isListChar c = true := by
  refine forall_mem_commaList rfl rfl ?_
  exact List.forall_mem_map.mpr fun p hp => (h.parameters p hp).isListChar

/-- The characters of a signature are those of lists and the two parentheses. -/
theorem Printable.mem_signature (h : m.Printable) {c : Char} (hc : c ∈ m.signature) :
    isListChar c = true ∨ c = '(' ∨ c = ')' := by
  rw [signature, List.mem_append, List.mem_cons, List.mem_append] at hc
  rcases hc with hc | rfl | hc | hc
  · exact .inl (isListChar_of_isTypeChar (isTypeChar_of_isWord (h.name.word c hc)))
  · exact .inr (.inl rfl)
  · exact .inl (h.isListChar_parameters c hc)
  · rw [List.mem_cons, List.mem_cons, List.mem_cons] at hc
    rcases hc with rfl | rfl | rfl | hc
    · exact .inr (.inr rfl)
    · exact .inl (by decide)
    · exact .inl (by decide)
    · exact .inl (isListChar_of_isTypeChar (h.returnType.isTypeChar c hc))

theorem Printable.not_mem_signature (h : m.Printable) {c : Char} (hl : isListChar c = false)
    (hp : c ∉ ['(', ')']) : c ∉ m.signature := by
  intro hc
  rcases h.mem_signature hc with hc | rfl | rfl
  · rw [hl] at hc
    cases hc
  · exact hp List.mem_cons_self
  · exact hp (List.mem_cons_of_mem _ List.mem_cons_self)

end Method

theorem Visibility.isLineChar_print (v : Visibility) : ∀ c ∈ v.print, isLineChar c = true := by
  cases v with
  | pub | priv | prot | pack => exact List.all_eq_true.mp (by decide)

theorem Visibility.balanced_print (v : Visibility) : Balanced v.print :=
  balanced_of_braceless v.open_not_mem_print v.close_not_mem_print

theorem Attribute.Printable.isLineChar {a : Attribute} (h : a.Printable) :
    ∀ c ∈ a.print, isLineChar c = true := by
  intro c hc
  rw [print_eq, List.mem_append] at hc
  rcases hc with hc | hc
  · exact a.visibility.isLineChar_print c hc
  · exact isLineChar_of_isListChar (isListChar_typed h.name h.type c hc)

theorem Attribute.Printable.balanced {a : Attribute} (h : a.Printable) : Balanced a.print := by
  have htext := isListChar_typed h.name h.type
  rw [print_eq]
  exact a.visibility.balanced_print.append
    (balanced_of_braceless (not_mem_of_run htext (by decide)) (not_mem_of_run htext (by decide)))

theorem Method.isLineChar_markers (m : Method) : ∀ c ∈ m.markers, isLineChar c = true := by
  unfold markers
  cases m.isAbstract <;> cases m.isStatic <;> exact List.all_eq_true.mp (by decide)

/-- Every marker closes its own brace. -/
theorem Method.balanced_markers (m : Method) : Balanced m.markers := by
  rw [balanced_iff]
  unfold markers
  cases m.isAbstract <;> cases m.isStatic <;> rfl

theorem Method.Printable.isLineChar {m : Method} (h : m.Printable) :
    ∀ c ∈ m.print, isLineChar c = true := by
  intro c hc
  rw [print_eq, List.mem_append, List.mem_append] at hc
  rcases hc with hc | hc | hc
  · exact m.visibility.isLineChar_print c hc
  · exact m.isLineChar_markers c hc
  · rcases h.mem_signature hc with hc | rfl | rfl
    · exact isLineChar_of_isListChar hc
    · decide
    · decide

theorem Method.Printable.balanced {m : Method} (h : m.Printable) : Balanced m.print := by
  have hsignature : Balanced m.signature :=
    balanced_of_braceless (h.not_mem_signature (by decide) (by decide))
      (h.not_mem_signature (by decide) (by decide))
  rw [print_eq]
  exact m.visibility.balanced_print.append (m.balanced_markers.append hsignature)

namespace Declaration

variable {d : Declaration}

/-- The members of a printable declaration can be listed. -/
theorem Printable.listable (h : d.Printable) : d.Listable :=
  ⟨fun a ha => (h.attributes a ha).listable, fun m hm => (h.methods m hm).listable⟩

/-- What holds of the lines of printable members holds of the lines of a printable declaration. -/
theorem Printable.forall_mem_memberLines (h : d.Printable) {p : List Char → Prop}
    (ha : ∀ a : Attribute, a.Printable → p a.print) (hm : ∀ m : Method, m.Printable → p m.print) :
    ∀ t ∈ d.memberLines, p t := by
  intro t ht
  rcases List.mem_append.mp ht with ht | ht
  · obtain ⟨a, hmem, rfl⟩ := List.mem_map.mp ht
    exact ha a (h.attributes a hmem)
  · obtain ⟨m, hmem, rfl⟩ := List.mem_map.mp ht
    exact hm m (h.methods m hmem)

theorem Printable.isLineChar (h : d.Printable) :
    ∀ t ∈ d.memberLines, ∀ c ∈ t, isLineChar c = true :=
  h.forall_mem_memberLines (fun _ => Attribute.Printable.isLineChar)
    fun _ => Method.Printable.isLineChar

/-- The body of a printable declaration closes the braces it opens. -/
theorem Printable.balanced_printedBody (h : d.Printable) : Balanced d.printedBody := by
  have hlines := balanced_lines (h.forall_mem_memberLines (fun _ => Attribute.Printable.balanced)
    fun _ => Method.Printable.balanced)
  exact (balanced_of_braceless (by decide) (by decide) : Balanced ['\n']).append hlines

/-- The body of a printed declaration is read as its members. -/
theorem Printable.ofBody (h : d.Printable) : ofBody (.ofList d.printedBody) = d.members := by
  have hsplit : d.printedBody.splitOn '\n' = [] :: (d.memberLines ++ [[]]) := by
    have := List.splitOn_append_cons_self_of_not_mem (List.not_mem_nil (a := '\n'))
      (lines d.memberLines)
    rwa [splitOn_lines h.listable.feed_not_mem] at this
  rw [Member.ofBody, String.toList_ofList, hsplit, List.filterMap_cons, ofLine?_nil,
    List.filterMap_append, h.listable.filterMap_memberLines, List.filterMap_cons, ofLine?_nil,
    List.filterMap_nil, List.append_nil]

/-- A declaration with the header and the body of a printed one has its members. -/
theorem Printable.withMembers (h : d.Printable) (line : Nat) :
    Declaration.withMembers ⟨d.name, d.kind, .ofList d.printedBody, [], [], line⟩ =
      d.printed line := by
  simp only [Declaration.withMembers, h.ofBody, filterMap_attribute?_members,
    filterMap_method?_members]
  rfl

end Declaration

end UmlDraft
