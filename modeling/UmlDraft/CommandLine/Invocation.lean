import UmlDraft.CommandLine.Help
import UmlDraft.Report.Complete
import UmlDraft.Run.Pipeline
import UmlDraft.Setup.Load

/-!
# Invocations

The program as a function of the world and the words of a command line. Words that are refused and a
configuration that cannot be built end it before anything runs; help and the version are printed and
nothing runs either; otherwise one run takes place and is reported. Main statements: the exit code
tells these cases apart, and without a run the disk stays as it was.
-/

namespace UmlDraft

/-- How an invocation ends. -/
inductive Exit where
  /-- All went well. -/
  | success
  /-- A run had problems. -/
  | problems
  /-- Nothing ran, for what was asked was refused. -/
  | refused
  deriving DecidableEq, Repr

/-- The exit code. -/
def Exit.code : Exit → Nat
  | .success => 0
  | .problems => 1
  | .refused => 2

/-- How much a command line wants reported. JSON goes before silence and silence before details. -/
def Options.mode (o : Options) : Report.Mode :=
  if o.json then .json
  else if o.quiet then .quiet
  else if o.verbose then .verbose
  else .normal

/-- How much is logged beside a report. -/
def Report.Mode.logMode : Report.Mode → Log.Mode
  | .quiet => .error
  | .normal => .info
  | .verbose => .debug
  | .json => .debug

/-- The logger beside a report. -/
def Report.Mode.logger (m : Report.Mode) : Log.Logger :=
  if m = .json then .json Log.defaultName m.logMode else .pretty Log.defaultName m.logMode

/-- A finished invocation. -/
structure Invocation where
  /-- How it ended. -/
  exit : Exit
  /-- What was printed. -/
  printed : List String := []
  /-- The log. -/
  logs : List Log.Record := []
  /-- The run that took place, with its configuration. -/
  run : Option (Config × Run.Report) := none
  deriving Repr

namespace Invocation

/-- The disk behind an invocation. -/
def disk (w : World) (i : Invocation) : Disk :=
  match i.run with
  | some r => r.2.disk
  | none => w.disk

/-- The record of a problem. -/
def problemRecord (p : Event.Problem) : Log.Record where
  level := .error
  message := "[" ++ p.phase.name ++ "] " ++ p.path ++ ": " ++ " ".intercalate p.userMessage
  context := some (.ofList [("code", .string p.code)])

/-- An invocation that was refused. -/
def refusal (logger : Log.Logger) (message : String) : Invocation where
  exit := .refused
  logs := logger.pass [⟨.error, message, none⟩]

/-- The invocation that a run makes up. -/
def ofRun (mode : Report.Mode) (command : Command) (c : Config) (r : Run.Report) : Invocation where
  exit := if r.outcome.errors = [] then .success else .problems
  printed := Report.printed Counter.all mode command c r.outcome
  logs := mode.logger.pass (r.logs ++ r.outcome.errors.map problemRecord)
  run := some (c, r)

/-- The invocation that options ask for. -/
def ofOptions (w : World) (renderer : Renderer) (o : Options) : Invocation :=
  if o.help then { exit := .success, printed := [Help.text] }
  else if o.version then { exit := .success, printed := [Help.version] }
  else
    match Config.build w o with
    | .error e => refusal o.mode.logger ("Config error: " ++ e.message)
    | .ok c => ofRun o.mode o.command c (Run.run renderer c w.cwd w.disk)

/-- The invocation of a command line. -/
def ofArguments (w : World) (renderer : Renderer) (arguments : List String) : Invocation :=
  match Options.ofArguments arguments with
  | .error e => refusal .pretty e.message
  | .ok o => ofOptions w renderer o

/-- Without a run the disk stays as it was. -/
theorem disk_eq_of_run_eq_none {w : World} {i : Invocation} (h : i.run = none) :
    i.disk w = w.disk := by
  simp [disk, h]

@[simp] theorem exit_ofRun_eq_success_iff {mode : Report.Mode} {command : Command} {c : Config}
    {r : Run.Report} : (ofRun mode command c r).exit = .success ↔ r.outcome.errors = [] := by
  unfold ofRun
  dsimp only
  split <;> simp_all

/-- Nothing runs in an invocation that is refused. -/
theorem run_eq_none_of_refused {w : World} {renderer : Renderer} {arguments : List String}
    (h : (ofArguments w renderer arguments).exit = .refused) :
    (ofArguments w renderer arguments).run = none := by
  unfold ofArguments ofOptions at h ⊢
  split
  · rfl
  · next o ho =>
    rw [ho] at h
    dsimp only at h ⊢
    split
    · rfl
    · next hh =>
      rw [if_neg hh] at h
      split
      · rfl
      · next hv =>
        rw [if_neg hv] at h
        split
        · rfl
        · next c hc =>
          rw [hc] at h
          dsimp only [ofRun] at h
          split at h <;> cases h

end Invocation

end UmlDraft
