import UmlDraft.Diagram.Model
import UmlDraft.Proofs.Diagram.AlikeArrow

/-!
# Diagrams of texts that are alike

Two texts whose stripped forms differ in their gaps describe the same diagram. The declarations come
in step, so the names, the duplicates and the last declaration of each name are the same; the bodies
declare the same members; and the edges of the headers that count are in step with each other as the
arrows are, so that they take effect in one order. What a gap does change is the line of what comes
behind it.
-/

namespace UmlDraft

open Text

variable {text text' : List Char} {f : Int → Int}

/-- The declaration on another line. -/
def Declaration.relined (f : Int → Int) (d : Declaration) : Declaration :=
  { d with line := f d.line }

/-- The diagram with its declarations on other lines. -/
def Model.relined (f : Int → Int) (m : Model) : Model :=
  { m with declarations := m.declarations.mapValues (Declaration.relined f) }

/-- Declarations that keep their lines make the same diagram. -/
theorem Model.relined_id (m : Model) : m.relined id = m := by
  have hid : m.declarations.mapValues (Declaration.relined id) = m.declarations :=
    Table.ext_entries (List.map_id' m.declarations.entries)
  rw [relined, hid]

namespace Outline

section Related

variable {α β : Type} {R : α → β → Prop} {name : α → String} {name' : β → String} {l : List α}
  {l' : List β}

theorem map_eq_of_forall₂ {γ : Type} {g : α → γ} {g' : β → γ} (h : List.Forall₂ R l l')
    (hg : ∀ a b, R a b → g a = g' b) : l.map g = l'.map g' := by
  rw [← List.forall₂_eq_eq_eq]
  exact List.rel_map (fun a b => hg a b) h

/-- Of related lists, the entries that count are related. -/
theorem forall₂_latest (h : List.Forall₂ R l l') (hname : ∀ a b, R a b → name a = name' b) :
    List.Forall₂ R (latest name l) (latest name' l') := by
  induction h with
  | nil => exact .nil
  | @cons a b l l' hab h ih =>
    rw [latest, latest, map_eq_of_forall₂ h hname, hname a b hab]
    split
    · exact ih
    · exact .cons hab ih

end Related

/-- Texts that are alike but for blanks before them have their declarations in step. -/
theorem forall₂_occurrences (h : Alike (skipBlanks text) (skipBlanks text')) :
    List.Forall₂ (Occurrence.InStep text text') (occurrences false text)
      (occurrences false text') := by
  have hskip := passes_occurrences.skipBlanks Header.isName_introducers
  rw [← hskip text, ← hskip text']
  exact alike_occurrences h (List.dropWhile_suffix isBlank) (List.dropWhile_suffix isBlank) false

namespace Occurrence

variable {o o' : Occurrence}

theorem InStep.name_eq (h : o.InStep text text' o') : o.name = o'.name := by
  rw [name, name, h.header.name]

/-- The headers of declarations in step declare edges in step. -/
theorem InStep.edges (h : o.InStep text text' o') :
    List.Forall₂ (Edge.InStep text text') (o.header.edges (offsetIn text o.start))
      (o'.header.edges (offsetIn text' o'.start)) := by
  have hedge : ∀ (r : Relation) (target : List Char), Edge.InStep text text'
      ⟨r, .ofList o.header.name, .ofList target, offsetIn text o.start⟩
      ⟨r, .ofList o.header.name, .ofList target, offsetIn text' o'.start⟩ := fun r target =>
    ⟨rfl, rfl, rfl, o.start, o'.start, h.place, rfl, rfl⟩
  rw [← h.header.edges_eq, Header.edges, Header.edges]
  refine List.rel_append ?_ ?_
  · cases o.header.parent? with
    | none => exact .nil
    | some target => exact .cons (hedge .generalization target) .nil
  · rw [List.forall₂_map_left_iff, List.forall₂_map_right_iff, List.forall₂_same]
    exact fun target _ => hedge .realization target

/-- Declarations in step differ in their bodies and lines at most. -/
theorem InStep.bodiless_eq (h : o.InStep text text' o')
    (hline : (Comment.lineAt (.ofList text') (offsetIn text' o'.start) : Int) =
      f (Comment.lineAt (.ofList text) (offsetIn text o.start))) :
    (o'.declaration text').withMembers.bodiless =
      ((o.declaration text).withMembers.bodiless).relined f := by
  have hmembers : Member.ofBody (.ofList o'.body) = Member.ofBody (.ofList o.body) := by
    rw [Member.ofBody_ofList, Member.ofBody_ofList, Member.alike_ofLines h.body]
  simp only [Declaration.bodiless, Declaration.withMembers, Declaration.relined,
    Occurrence.declaration, hmembers, hline, h.header.name, h.header.kind]

end Occurrence

section Texts

variable {text text' : String}

/-- Texts that are alike declare the same names, as often as each other, and the edges of the
headers that count are in step. -/
theorem ofText_alike (h : Alike (skipBlanks text.toList) (skipBlanks text'.toList)) :
    (ofText text').declarations.contains = (ofText text).declarations.contains ∧
      (ofText text').duplicates = (ofText text).duplicates ∧
      List.Forall₂ (Edge.InStep text.toList text'.toList) (ofText text).headerEdges
        (ofText text').headerEdges := by
  have hstep := forall₂_occurrences h
  have hnames := map_eq_of_forall₂ hstep fun _ _ ho => ho.name_eq
  refine ⟨?_, ?_, ?_⟩
  · funext n
    rw [Bool.eq_iff_iff, ofText, ofText, contains_foldl, contains_foldl, hnames]
  · rw [ofText, ofText, duplicates_foldl, duplicates_foldl, hnames]
  · rw [ofText, ofText, headerEdges_foldl, headerEdges_foldl]
    exact List.rel_flatMap (forall₂_latest hstep fun _ _ ho => ho.name_eq) fun _ _ ho => ho.edges

/-- The declarations of texts that are alike differ in their bodies and lines at most. -/
theorem declarations_alike (h : Alike (skipBlanks text.toList) (skipBlanks text'.toList))
    (hline : ∀ u v, SamePlace text.toList text'.toList u v →
      (Comment.lineAt text' (offsetIn text'.toList v) : Int) =
        f (Comment.lineAt text (offsetIn text.toList u))) :
    ((ofText text').declarations.mapValues Declaration.withMembers).mapValues
        Declaration.bodiless =
      (((ofText text).declarations.mapValues Declaration.withMembers).mapValues
        Declaration.bodiless).mapValues (Declaration.relined f) := by
  have hentry : ∀ o o' : Occurrence, o.InStep text.toList text'.toList o' →
      (o'.name, (o'.declaration text'.toList).withMembers.bodiless) =
        (o.name, (o.declaration text.toList).withMembers.bodiless.relined f) := by
    intro o o' ho
    refine Prod.ext ho.name_eq.symm (ho.bodiless_eq ?_)
    rw [String.ofList_toList, String.ofList_toList]
    exact hline o.start o'.start ho.place
  have hmap := map_eq_of_forall₂ (forall₂_occurrences h) fun o o' ho => (hentry o o' ho).symm
  rw [ofText, ofText, declarations_foldl, declarations_foldl]
  simp only [Table.mapValues_ofList, List.map_map]
  exact congrArg Table.ofList hmap.symm

end Texts

end Outline

/-- The line of an ending counts the line feeds before it. -/
theorem Comment.lineAt_offsetIn (s t : List Char) :
    lineAt (.ofList (s ++ t)) (Outline.offsetIn (s ++ t) t) = 1 + s.count '\n' := by
  rw [Outline.offsetIn_append, lineAt_units]

/-- Two texts that are alike once their comments are stripped describe the same diagram, but for the
bodies, and but for the lines where those of the same place differ. -/
theorem Model.ofText_alike {source source' : String}
    (h : Alike (skipBlanks (Comment.strip source).toList)
      (skipBlanks (Comment.strip source').toList))
    (hline : ∀ u v, SamePlace (Comment.strip source).toList (Comment.strip source').toList u v →
      (Comment.lineAt (Comment.strip source')
        (Outline.offsetIn (Comment.strip source').toList v) : Int) =
      f (Comment.lineAt (Comment.strip source)
        (Outline.offsetIn (Comment.strip source).toList u))) :
    (ofText source').bodiless = (ofText source).bodiless.relined f := by
  obtain ⟨hdeclared, hduplicates, hheader⟩ := Outline.ofText_alike h
  have hdeclarations := Outline.declarations_alike h hline
  have hrelations := Relationships.ofEdges_inStep
    (Outline.ofText (Comment.strip source)).declarations.contains
    (List.rel_append hheader (Arrow.forall₂_edges h))
  simp only [ofText, bodiless, relined, Relationships.ofText, hdeclarations, hduplicates,
    hdeclared, hrelations]

end UmlDraft
