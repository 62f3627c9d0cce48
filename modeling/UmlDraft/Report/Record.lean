import UmlDraft.CommandLine.Flag
import UmlDraft.Json.Printer
import UmlDraft.Run.Outcome

/-!
# JSON reports

The outcome of a command as one JSON object: what was asked for, the counts, and either the diagram
or the files that were written.
-/

namespace UmlDraft.Report

/-- An attribute. -/
def ofAttribute (a : Attribute) : Json :=
  .object [("visibility", .string a.visibility.name), ("type", .string a.type),
    ("name", .string a.name)]

/-- A parameter. -/
def ofParameter : Parameter → Json
  | .typed name type =>
    .object [("kind", .string "typed"), ("name", .string name), ("type", .string type)]
  | .raw text => .object [("kind", .string "raw"), ("text", .string text)]

/-- A method. -/
def ofMethod (m : Method) : Json :=
  .object [("visibility", .string m.visibility.name), ("name", .string m.name),
    ("parameters", .array (m.parameters.map ofParameter)), ("returnType", .string m.returnType),
    ("isAbstract", .bool m.isAbstract), ("isStatic", .bool m.isStatic)]

/-- A declaration without its body. -/
def ofDeclaration (d : Declaration) : Json :=
  .object [("name", .string d.name), ("kind", .string d.kind.name),
    ("attributes", .array (d.attributes.map ofAttribute)),
    ("methods", .array (d.methods.map ofMethod)), ("line", .int d.line)]

/-- A list of texts. -/
def ofTexts (texts : List String) : Json :=
  .array (texts.map Json.string)

/-- A diagram. -/
def ofModel (m : Model) : Json :=
  .object [("declarations", .array (m.declarations.values.map ofDeclaration)),
    (Relation.generalization.name, .ofTable (m.relationships.parents.mapValues Json.string)),
    (Relation.realization.name, .ofTable (m.relationships.interfaces.mapValues ofTexts)),
    ("duplicates", ofTexts m.duplicates)]

/-- Counts in the given order. -/
def ofStats (order : List Counter) (s : Stats) : Json :=
  .object (order.map fun c => (c.name, .int (s.get c)))

/-- What a command shows: the diagram that was asked for, if it was read, and otherwise the files
that were written. -/
def subject (c : Command) (o : Outcome) : String × Json :=
  match c, o.model with
  | .parse, some m => ("model", ofModel m)
  | _, _ => ("files", ofTexts (o.written.map Artifact.path))

/-- The outcome of a command. -/
def record (order : List Counter) (c : Command) (o : Outcome) : Json :=
  .object [("type", .string "complete"), ("command", .string c.name),
    ("stats", ofStats order o.stats), subject c o]

end UmlDraft.Report
