import UmlDraft.Proofs.Diagram.Comment
import UmlDraft.Proofs.Diagram.Member
import UmlDraft.Proofs.Diagram.Outline
import UmlDraft.Proofs.Diagram.Relationship

/-!
# Well-formed diagrams

Reading never fails, and whatever the text, the diagram that is read is well-formed: names, types
and parameters have their form and hold no marker, bodies are balanced, lines lie in the text, and
every relation and every duplicate speaks of declared names.
-/

namespace UmlDraft

open Text

/-- A declaration as it can be read under a key from a text with the given number of line feeds. -/
structure Declaration.WellFormed (feeds : Nat) (key : String) (d : Declaration) : Prop where
  /-- The declaration is listed under its name. -/
  name : d.name = key
  /-- The name is a word. -/
  isName : IsName key.toList
  /-- The name holds no marker. -/
  markerFree : Member.MarkerFree key.toList
  /-- Lines are counted from one. -/
  line_pos : 1 ≤ d.line
  /-- There is one line more than there are line feeds. -/
  line_le : d.line ≤ 1 + feeds
  /-- The body closes what it opens and nothing else. -/
  body : Balanced d.body.toList
  /-- Every attribute is well-formed. -/
  attributes : ∀ a ∈ d.attributes, a.WellFormed
  /-- Every method is well-formed. -/
  methods : ∀ m ∈ d.methods, m.WellFormed

/-- A diagram as it can be read from a text with the given number of line feeds. -/
structure Model.WellFormed (feeds : Nat) (m : Model) : Prop where
  /-- Every declaration is well-formed. -/
  declarations : ∀ key d, m.declarations.get? key = some d → d.WellFormed feeds key
  /-- Every relation is one of declared names. -/
  relationships : m.relationships.WellFormed m.declarations.contains
  /-- Every name that was declared again is declared. -/
  duplicates : ∀ name ∈ m.duplicates, m.declarations.contains name

namespace Outline

variable {s : List Char} {o : Occurrence}

theorem repeated_subset (seen l : List String) : repeated seen l ⊆ l := by
  induction l generalizing seen with
  | nil => exact List.Subset.refl _
  | cons n l ih =>
    rw [repeated]
    split
    · exact List.cons_subset_cons n (ih _)
    · exact List.subset_cons_of_subset n (ih _)

/-- A declaration that was found has a name, a balanced body, and a line of the text. -/
theorem wellFormed_of_mem_occurrences (ho : o ∈ occurrences false s) :
    ((o.declaration s).withMembers).WellFormed (s.count '\n') o.name := by
  obtain ⟨before, text, after, hs, -, hst⟩ := exists_stands_of_mem ho
  have hkey : IsName o.name.toList := by
    rw [Occurrence.name, String.toList_ofList]
    exact hst.captures.divides.isName
  have hline : ((o.declaration s).withMembers).line = (1 + before.count '\n' : Nat) := by
    rw [Declaration.withMembers, Occurrence.declaration, hs, offsetIn_append, Comment.lineAt_units]
  have hcount : before.count '\n' ≤ s.count '\n' := by
    rw [hs, List.count_append]
    exact Nat.le_add_right _ _
  refine ⟨rfl, hkey, Member.markerFree_of_isName hkey, ?_, ?_, ?_,
    fun _ ha => (Declaration.listable_of_mem_attributes ha).toWellFormed,
    fun _ hm => (Declaration.listable_of_mem_methods hm).toWellFormed⟩
  · rw [hline]
    omega
  · rw [hline]
    omega
  · rw [Declaration.withMembers, Occurrence.declaration, String.toList_ofList]
    exact hst.balanced

end Outline

/-- The declarations of a diagram are those that were found in its text. -/
theorem Model.exists_occurrence {source key : String} {d : Declaration}
    (h : (Model.ofText source).declarations.get? key = some d) :
    ∃ o ∈ Outline.occurrences false (Comment.strip source).toList, o.name = key ∧
      d = (o.declaration (Comment.strip source).toList).withMembers := by
  rw [Model.ofText, Table.get?_mapValues, Option.map_eq_some_iff] at h
  obtain ⟨d, hd, rfl⟩ := h
  rw [Outline.ofText, Outline.declarations_foldl] at hd
  obtain ⟨o, ho, he⟩ := List.mem_map.mp (Table.mem_of_get?_ofList hd)
  cases he
  exact ⟨o, ho, rfl, rfl⟩

theorem Model.contains_ofText (source name : String) :
    (Model.ofText source).declarations.contains name =
      (Outline.ofText (Comment.strip source)).declarations.contains name := by
  simp only [Model.ofText, Table.contains, Table.keys_mapValues]

/-- Every declaration that is read is well-formed. -/
theorem Model.wellFormed_of_get? {source key : String} {d : Declaration}
    (h : (Model.ofText source).declarations.get? key = some d) :
    d.WellFormed (source.toList.count '\n') key := by
  obtain ⟨o, ho, rfl, rfl⟩ := exists_occurrence h
  rw [← Comment.count_strip]
  exact Outline.wellFormed_of_mem_occurrences ho

/-- Every declared name is a word. -/
theorem Model.isName_of_mem_keys {source name : String}
    (h : name ∈ (Model.ofText source).declarations.keys) : IsName name.toList := by
  cases hd : (Model.ofText source).declarations.get? name with
  | none => exact absurd h (Table.get?_eq_none_iff.mp hd)
  | some d => exact (Model.wellFormed_of_get? hd).isName

/-- Every relation that is read is one of declared names. -/
theorem Model.wellFormed_relationships (source : String) :
    (Model.ofText source).relationships.WellFormed
      (Model.ofText source).declarations.contains := by
  have hdeclared : (Model.ofText source).declarations.contains =
      (Outline.ofText (Comment.strip source)).declarations.contains :=
    funext (contains_ofText source)
  rw [hdeclared]
  exact Relationships.wellFormed_ofEdges _ _

/-- Whatever the text, the diagram that is read from it is well-formed. -/
theorem Model.wellFormed_ofText (source : String) :
    (Model.ofText source).WellFormed (source.toList.count '\n') := by
  refine ⟨fun key d h => wellFormed_of_get? h, wellFormed_relationships source, fun name h => ?_⟩
  rw [contains_ofText, Outline.ofText, Outline.contains_foldl]
  apply Outline.repeated_subset [] _
  rwa [← Outline.duplicates_foldl (Comment.strip source).toList]

end UmlDraft
