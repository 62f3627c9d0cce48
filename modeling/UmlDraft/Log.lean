import UmlDraft.Json.Value

/-!
# Logging

What is logged, and which loggers let it through. A logger passes on the records whose severity is
at least its threshold; the threshold follows from how talkative the program was asked to be.
-/

namespace UmlDraft

/-- Named values that accompany a message. -/
abbrev Fields := Table String Json

/-- How serious a message is. -/
inductive Level where
  /-- Something failed. -/
  | error
  /-- Something deserves attention. -/
  | warn
  /-- Something worth knowing happened. -/
  | info
  /-- A detail. -/
  | debug
  deriving DecidableEq, Repr

/-- The written form of a level. -/
def Level.name : Level → String
  | .error => "ERROR"
  | .warn => "WARN"
  | .info => "INFO"
  | .debug => "DEBUG"

namespace Log

/-- One logged message. -/
structure Record where
  /-- How serious it is. -/
  level : Level
  /-- The message. -/
  message : String
  /-- The values that accompany it, if any were given. -/
  context : Option Fields := none
  deriving Repr

/-- The severities that a logger distinguishes, from least to most severe. -/
inductive Severity where
  /-- Below tracing. -/
  | silly
  /-- Tracing. -/
  | trace
  /-- Details. -/
  | debug
  /-- Normal operation. -/
  | info
  /-- Warnings. -/
  | warn
  /-- Failures. -/
  | error
  /-- Failures that end the program. -/
  | fatal
  deriving DecidableEq, Repr

namespace Severity

/-- The severities in ascending order. -/
def all : List Severity :=
  [.silly, .trace, .debug, .info, .warn, .error, .fatal]

/-- The rank of a severity. -/
def rank : Severity → Nat
  | .silly => 0
  | .trace => 1
  | .debug => 2
  | .info => 3
  | .warn => 4
  | .error => 5
  | .fatal => 6

/-- The written form of a severity. -/
def name : Severity → String
  | .silly => "SILLY"
  | .trace => "TRACE"
  | .debug => "DEBUG"
  | .info => "INFO"
  | .warn => "WARN"
  | .error => "ERROR"
  | .fatal => "FATAL"

end Severity

/-- The severity of a level. -/
def severity : Level → Severity
  | .error => .error
  | .warn => .warn
  | .info => .info
  | .debug => .debug

/-- How talkative a logger is. -/
inductive Mode where
  /-- It says nothing. -/
  | silent
  /-- It reports failures. -/
  | error
  /-- It reports normal operation. -/
  | info
  /-- It reports details. -/
  | debug
  deriving DecidableEq, Repr

/-- The least rank that a logger passes on. A silent one asks for more than there is. -/
def Mode.threshold : Mode → Nat
  | .silent => 7
  | .error => 5
  | .info => 3
  | .debug => 2

/-- How a logger writes its records. -/
inductive Style where
  /-- As lines for people. -/
  | pretty
  /-- As one JSON object a line. -/
  | json
  /-- Not at all, though whoever listens to the logger still hears them. -/
  | hidden
  deriving DecidableEq, Repr

/-- The written form of a style. -/
def Style.name : Style → String
  | .pretty => "pretty"
  | .json => "json"
  | .hidden => "hidden"

/-- The name of a logger that is given none. -/
def defaultName : String :=
  "plantforge"

/-- A logger. -/
structure Logger where
  /-- The name it signs its records with. -/
  name : String
  /-- How it writes. -/
  style : Style
  /-- The least rank that it passes on. -/
  threshold : Nat
  deriving DecidableEq, Repr

namespace Logger

/-- A logger of the given style. A silent one is hidden whatever its style. -/
def ofMode (style : Style) (name : String) (mode : Mode) : Logger where
  name := name
  style := if mode = .silent then .hidden else style
  threshold := mode.threshold

/-- A logger that writes lines for people. -/
def pretty (name : String := defaultName) (mode : Mode := .info) : Logger :=
  ofMode .pretty name mode

/-- A logger that writes JSON lines, details included unless it is told otherwise. -/
def json (name : String := defaultName) (mode : Mode := .debug) : Logger :=
  ofMode .json name mode

/-- A logger that writes nothing but passes on all details to those who listen. -/
def silent (name : String := defaultName) : Logger :=
  ofMode .hidden name .debug

/-- Whether a logger passes on messages of a severity. -/
def delivers (l : Logger) (s : Severity) : Bool :=
  l.threshold ≤ s.rank

/-- The records that a logger passes on. -/
def pass (l : Logger) (records : List Record) : List Record :=
  records.filter fun r => l.delivers (severity r.level)

theorem delivers_iff {l : Logger} {s : Severity} :
    l.delivers s = true ↔ l.threshold ≤ s.rank := by
  simp [delivers]

/-- In silent mode nothing is passed on. -/
theorem pass_ofMode_silent (style : Style) (name : String) (records : List Record) :
    (ofMode style name .silent).pass records = [] := by
  have h : ∀ level, (ofMode style name .silent).delivers (severity level) = false := by
    intro level
    cases level <;> rfl
  simp [pass, h]

end Logger

end Log

end UmlDraft
