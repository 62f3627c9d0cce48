import UmlDraft.Diagram.Comment
import UmlDraft.Diagram.Header

/-!
# Outlines

The outline of a diagram: its declarations with their bodies unread, the names declared more than
once, and the edges written in headers. A body ends at the brace that balances its opening brace,
so braces inside a body belong to it. A header whose body never ends declares nothing, and the
search goes on inside it; behind a body that ends, the search goes on after its closing brace. Main
statement: a body, its closing brace and what follows make up the text it was found in.
-/

namespace UmlDraft

open Text

namespace Outline

/-- The text up to the brace that closes one more level than `depth` and the text behind that
brace. -/
def bodyEnd? : Nat → List Char → Option (List Char × List Char)
  | _, [] => none
  | 0, '}' :: rest => some ([], rest)
  | depth + 1, '}' :: rest => (bodyEnd? depth rest).map fun r => ('}' :: r.1, r.2)
  | depth, '{' :: rest => (bodyEnd? (depth + 1) rest).map fun r => ('{' :: r.1, r.2)
  | depth, c :: rest => (bodyEnd? depth rest).map fun r => (c :: r.1, r.2)

/-- A body, its closing brace and the text behind it make up the text. -/
theorem eq_of_bodyEnd? {depth : Nat} {s body after : List Char}
    (h : bodyEnd? depth s = some (body, after)) : s = body ++ '}' :: after := by
  fun_induction bodyEnd? depth s generalizing body after with
  | case1 => cases h
  | case2 rest =>
    simp only [Option.some.injEq, Prod.mk.injEq] at h
    simp [← h.1, ← h.2]
  | case3 depth rest ih | case4 depth rest ih | case5 depth c rest _ _ _ ih =>
    obtain ⟨⟨b, a⟩, hr, he⟩ := Option.map_eq_some_iff.1 h
    simp only [Prod.mk.injEq] at he
    rw [ih hr, ← he.1, ← he.2, List.cons_append]

/-- A declaration where it was found. -/
structure Occurrence where
  /-- The text from the header on. -/
  start : List Char
  /-- The header. -/
  header : Header
  /-- The text between the braces. -/
  body : List Char
  deriving DecidableEq, Repr

set_option linter.unusedVariables false in
/-- The declarations of a text in order. A header begins where no word is under way. -/
def occurrences (afterWord : Bool) (s : List Char) : List Occurrence :=
  match s with
  | [] => []
  | c :: rest =>
    match h : if afterWord then none else Header.read? (c :: rest) with
    | none => occurrences (isWord c) rest
    | some (header, inside) =>
      match hb : bodyEnd? 0 inside with
      | some (body, after) => ⟨c :: rest, header, body⟩ :: occurrences false after
      | none => occurrences false inside
termination_by s.length
decreasing_by
  · simp
  · have h1 : inside.length < (c :: rest).length := by
      split at h
      · cases h
      · exact Header.length_read? h
    have h2 := congrArg List.length (eq_of_bodyEnd? hb)
    simp only [List.length_append, List.length_cons] at h1 h2 ⊢
    omega
  · split at h
    · cases h
    · exact Header.length_read? h

/-- Where in a text one of its endings begins, counted in units. -/
def offsetIn (source ending : List Char) : Nat :=
  units source - units ending

@[simp] theorem offsetIn_append (s t : List Char) : offsetIn (s ++ t) t = units s := by
  simp [offsetIn]

end Outline

/-- The declarations of a diagram before their bodies are read. -/
structure Outline where
  /-- The declarations by name, without members. -/
  declarations : Table String Declaration := .empty
  /-- The names that were declared again, in the order in which that happened. -/
  duplicates : List String := []
  /-- The edges written in the headers that count. -/
  headerEdges : List Edge := []
  deriving DecidableEq, Repr

namespace Outline

/-- The declaration of an occurrence, without members. -/
def Occurrence.declaration (source : List Char) (o : Occurrence) : Declaration where
  name := .ofList o.header.name
  kind := o.header.kind
  body := .ofList o.body
  attributes := []
  methods := []
  line := Comment.lineAt (.ofList source) (offsetIn source o.start)

/-- Adds a declaration. One that repeats a name takes the place of the earlier one, whose header
edges are dropped. -/
def add (source : List Char) (outline : Outline) (o : Occurrence) : Outline :=
  let declaration := o.declaration source
  let name := declaration.name
  let edges := o.header.edges (offsetIn source o.start)
  if outline.declarations.contains name then
    { declarations := outline.declarations.insert name declaration
      duplicates := outline.duplicates ++ [name]
      headerEdges := outline.headerEdges.filter (·.source != name) ++ edges }
  else
    { outline with
      declarations := outline.declarations.insert name declaration
      headerEdges := outline.headerEdges ++ edges }

/-- The outline of a text whose comments have been stripped. -/
def ofText (source : String) : Outline :=
  (occurrences false source.toList).foldl (add source.toList) {}

end Outline

end UmlDraft
