import UmlDraft.Diagram.Member
import UmlDraft.Diagram.Outline
import UmlDraft.Diagram.Relationship

/-!
# From text to diagram

Reading a diagram never fails: what is not understood is left out. Comments are stripped first; the
outline gives the declarations, their bodies the members, and the whole text the relations.
-/

namespace UmlDraft

/-- A declaration with the members that its body declares. -/
def Declaration.withMembers (d : Declaration) : Declaration :=
  let members := Member.ofBody d.body
  { d with
    attributes := members.filterMap Member.attribute?
    methods := members.filterMap Member.method? }

/-- The declaration without its body, which says no more than its members once these are read. -/
def Declaration.bodiless (d : Declaration) : Declaration :=
  { d with body := "" }

/-- The diagram without the bodies of its declarations. -/
def Model.bodiless (m : Model) : Model :=
  { m with declarations := m.declarations.mapValues Declaration.bodiless }

/-- The diagram that a text describes. -/
def Model.ofText (source : String) : Model :=
  let text := Comment.strip source
  let outline := Outline.ofText text
  { declarations := outline.declarations.mapValues Declaration.withMembers
    relationships := .ofText text outline.declarations.contains outline.headerEdges
    duplicates := outline.duplicates }

end UmlDraft
