import UmlDraft.Diagram.Arrow

/-!
# Relationships

The relations of a diagram are built from its edges in the order of their offsets, edges of headers
before arrows at the same offset. An edge counts if both its names are declared. A type keeps the
last parent it is given, and every interface once, where it was first named.
-/

namespace UmlDraft

namespace Relationships

/-- Adds an interface to those of a type, unless it is there. -/
def addInterface (interfaces : List String) (target : String) : List String :=
  if interfaces.contains target then interfaces else interfaces ++ [target]

/-- Puts an edge into effect. -/
def apply (r : Relationships) (e : Edge) : Relationships :=
  match e.relation with
  | .generalization => { r with parents := r.parents.insert e.source e.target }
  | .realization =>
    { r with
      interfaces :=
        r.interfaces.insert e.source
          (addInterface ((r.interfaces.get? e.source).getD []) e.target) }

/-- The edges between declared names in the order of their offsets. Edges with one offset keep the
order in which they are given. -/
def effective (declared : String → Bool) (edges : List Edge) : List Edge :=
  (edges.mergeSort fun a b => a.offset ≤ b.offset).filter fun e =>
    declared e.source && declared e.target

/-- The relations that a list of edges gives rise to. -/
def ofEdges (declared : String → Bool) (edges : List Edge) : Relationships :=
  (effective declared edges).foldl apply {}

/-- The relations of a text: its header edges and its arrows. -/
def ofText (source : String) (declared : String → Bool) (headerEdges : List Edge) :
    Relationships :=
  ofEdges declared (headerEdges ++ Arrow.edges source)

end Relationships

end UmlDraft
