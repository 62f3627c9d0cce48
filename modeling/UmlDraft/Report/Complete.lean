import UmlDraft.Report.Listing
import UmlDraft.Report.Record

/-!
# Reports

What is printed when a command is done. JSON is one line for either command. Otherwise the diagram is
printed whenever it was asked for and read, however quiet the report is to be; what was generated is
summed up unless the report is to be quiet, and a verbose one names the files.
-/

namespace UmlDraft.Report

/-- How much is reported. -/
inductive Mode where
  /-- The summary. -/
  | normal
  /-- The summary and the files. -/
  | verbose
  /-- Only what was asked for. -/
  | quiet
  /-- One line of JSON. -/
  | json
  deriving DecidableEq, Repr

/-- The written form of a mode. -/
def Mode.name : Mode → String
  | .normal => "normal"
  | .verbose => "verbose"
  | .quiet => "quiet"
  | .json => "json"

/-- The modes. -/
def Mode.all : List Mode :=
  [.normal, .verbose, .quiet, .json]

/-- The summary of what was generated. -/
def summary (c : Config) (o : Outcome) : String :=
  let count (counter : Counter) : String := (Decimal.ofInt (o.stats.get counter)).text
  if c.dryRun then
    "Dry run complete: " ++ count .artifactsRendered ++ " files rendered from " ++
      count .declarations ++ " declarations, nothing written"
  else
    (match o.sampleCreated, o.input.filter (· ≠ "") with
      | true, some path => "Sample diagram created at " ++ path ++ "\n"
      | _, _ => "") ++
    "Generation complete: " ++ count .artifactsWritten ++ " files written to " ++
      c.outputDir ++ ", " ++ count .errorsCount ++ " errors"

/-- What is printed. The counts of a JSON report stand in the given order. -/
def printed (order : List Counter) (mode : Mode) (command : Command) (c : Config) (o : Outcome) :
    List String :=
  match mode, command with
  | .json, _ => [(record order command o).compress]
  | _, .parse => (o.model.map Model.listing).toList
  | .quiet, .generate => []
  | .normal, .generate => [summary c o]
  | .verbose, .generate => summary c o :: o.written.map fun a => "  " ++ a.path

end UmlDraft.Report
