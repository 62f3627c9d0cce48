import UmlDraft.Diagram.Basic
import UmlDraft.Event.Payload

/-!
# Settings and outcomes of a run

What a run is asked to do, and what it gives back. All its texts are of whole characters: half of a
surrogate pair that stands alone has no place in them, as it has none in the bytes of a file.
-/

namespace UmlDraft

/-- What a run is asked to do. -/
structure Config where
  /-- The diagram to read. -/
  input : String
  /-- The directory that receives one file for each declared type. -/
  outputDir : String
  /-- The package of every generated file. -/
  packageName : Option String := none
  /-- One level of indentation. -/
  indent : Option String := none
  /-- Whether the sample diagram is written where the input does not exist. -/
  createSample : Option Bool := none
  /-- Whether nothing is to be written. -/
  dryRun : Bool := false
  deriving DecidableEq, Repr

/-- The settings that hold where nothing else is said. -/
structure Settings where
  /-- The diagram to read. -/
  input : String := "diagram.puml"
  /-- The directory that receives the generated files. -/
  outputDir : String := "generated_java"
  /-- The package of every generated file. -/
  packageName : Option String := none
  /-- One level of indentation. -/
  indent : String := "    "
  /-- Whether the sample diagram is written where the input does not exist. -/
  createSample : Bool := true
  deriving DecidableEq, Repr

/-- A generated file that was written. -/
structure Artifact where
  /-- The name of the declared type. -/
  name : String
  /-- The path of the file. -/
  path : String
  deriving DecidableEq, Repr

/-- The counters of a run. -/
inductive Counter where
  /-- Declared types. -/
  | declarations
  /-- Relations between them. -/
  | relationships
  /-- Generated files. -/
  | artifactsRendered
  /-- Written files. -/
  | artifactsWritten
  /-- Problems. -/
  | errorsCount
  deriving DecidableEq, Repr

/-- The counters in the order in which a run gives them. -/
def Counter.all : List Counter :=
  [.declarations, .relationships, .artifactsRendered, .artifactsWritten, .errorsCount]

/-- The written form of a counter. -/
def Counter.name : Counter → String
  | .declarations => "declarations"
  | .relationships => "relationships"
  | .artifactsRendered => "artifactsRendered"
  | .artifactsWritten => "artifactsWritten"
  | .errorsCount => "errorsCount"

/-- The counts of a run. A run counts from zero; a report shows any whole number. -/
structure Stats where
  /-- Declared types. -/
  declarations : Int := 0
  /-- Relations between them. -/
  relationships : Int := 0
  /-- Generated files. -/
  artifactsRendered : Int := 0
  /-- Written files. -/
  artifactsWritten : Int := 0
  /-- Problems. -/
  errorsCount : Int := 0
  deriving DecidableEq, Repr

/-- The value of a counter. -/
def Stats.get (s : Stats) : Counter → Int
  | .declarations => s.declarations
  | .relationships => s.relationships
  | .artifactsRendered => s.artifactsRendered
  | .artifactsWritten => s.artifactsWritten
  | .errorsCount => s.errorsCount

/-- What a run gives back. -/
structure Outcome where
  /-- The path of the diagram, if it was read. -/
  input : Option String := none
  /-- Whether the sample diagram was written. -/
  sampleCreated : Bool := false
  /-- The diagram, if it was read. -/
  model : Option Model := none
  /-- The generated files by the names of their types. -/
  sources : Table String String := .empty
  /-- The files that were written. -/
  written : List Artifact := []
  /-- The problems. -/
  errors : List Event.Problem := []
  /-- The counts. -/
  stats : Stats := {}
  deriving Repr

end UmlDraft
