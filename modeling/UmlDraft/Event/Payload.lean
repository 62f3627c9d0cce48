import UmlDraft.Log

/-!
# Events

What a run announces while it goes on. Every announcement names what happened, how serious it is
and the phase it belongs to; beyond that it is a failure, a message, or the boundary of a phase.
Each has one record in the log, apart from a message announced at the level of failures.
-/

namespace UmlDraft

/-- The phases of a run. -/
inductive Phase where
  /-- The diagram is read. -/
  | read
  /-- Declarations and relations are extracted. -/
  | extract
  /-- Sources are rendered. -/
  | render
  /-- Sources are written. -/
  | write
  deriving DecidableEq, Repr

/-- The written form of a phase. -/
def Phase.name : Phase → String
  | .read => "read"
  | .extract => "extract"
  | .render => "render"
  | .write => "write"

/-- The name of a phase in messages. -/
def Phase.label : Phase → String
  | .read => "Read"
  | .extract => "Extract"
  | .render => "Render"
  | .write => "Write"

namespace Event

/-- What happened. -/
inductive Topic where
  /-- Something that belongs to no other topic. -/
  | log
  /-- A phase began. -/
  | phaseStart
  /-- A phase ended. -/
  | phaseEnd
  /-- A diagram was read, or could not be. -/
  | fileRead
  /-- The sample diagram was written. -/
  | sampleCreated
  /-- A source was written, or could not be. -/
  | fileWrite
  /-- A diagram was parsed. -/
  | diagramParse
  /-- A type was declared again. -/
  | duplicateDeclaration
  /-- A source was rendered, or could not be. -/
  | sourceRender
  deriving DecidableEq, Repr

/-- The written form of a topic. -/
def Topic.name : Topic → String
  | .log => "LOG"
  | .phaseStart => "PHASE_START"
  | .phaseEnd => "PHASE_END"
  | .fileRead => "FILE_READ"
  | .sampleCreated => "SAMPLE_CREATED"
  | .fileWrite => "FILE_WRITE"
  | .diagramParse => "DIAGRAM_PARSE"
  | .duplicateDeclaration => "DUPLICATE_DECLARATION"
  | .sourceRender => "SOURCE_RENDER"

/-- What went wrong. -/
structure Failure where
  /-- The file concerned. -/
  path : String
  /-- The message of the failed operation. -/
  message : String
  /-- The code of the failure. -/
  code : String
  /-- A headline for the user and lines of detail. -/
  userMessage : List String
  deriving DecidableEq, Repr

/-- A failure and the phase in which it occurred. -/
structure Problem extends Failure where
  /-- The phase. -/
  phase : Phase
  deriving DecidableEq, Repr

/-- What an announcement says. -/
inductive Body where
  /-- Something failed. -/
  | failure (f : Failure)
  /-- A message, with values that accompany it. -/
  | message (text : String) (context : Option Fields)
  /-- A phase begins or ends, with counters. -/
  | boundary (stats : Option Fields)
  deriving Repr

/-- An announcement. -/
structure Payload where
  /-- What happened. -/
  topic : Topic
  /-- How serious it is. -/
  level : Level
  /-- The phase it belongs to. -/
  phase : Phase
  /-- What it says. -/
  body : Body
  deriving Repr

namespace Payload

/-- Announces a failure. -/
def failure (topic : Topic) (phase : Phase) (f : Failure) : Payload :=
  ⟨topic, .error, phase, .failure f⟩

/-- Announces a message that deserves attention. -/
def warn (topic : Topic) (phase : Phase) (text : String) (context : Option Fields := none) :
    Payload :=
  ⟨topic, .warn, phase, .message text context⟩

/-- Announces a message of normal operation. -/
def info (topic : Topic) (phase : Phase) (text : String) (context : Option Fields := none) :
    Payload :=
  ⟨topic, .info, phase, .message text context⟩

/-- Announces a detail. -/
def debug (topic : Topic) (phase : Phase) (text : String) (context : Option Fields := none) :
    Payload :=
  ⟨topic, .debug, phase, .message text context⟩

/-- Announces that a phase begins. -/
def phaseStart (phase : Phase) (stats : Option Fields := none) : Payload :=
  ⟨.phaseStart, .info, phase, .boundary stats⟩

/-- Announces that a phase ends. -/
def phaseEnd (phase : Phase) (stats : Option Fields := none) : Payload :=
  ⟨.phaseEnd, .info, phase, .boundary stats⟩

/-- The phase of an announcement and the values that accompany it. A value named `phase` among them
takes the place of the phase. -/
def context (p : Payload) (values : Option Fields) : Fields :=
  (Table.ofList [("phase", .string p.phase.name)]).insertAll ((values.map (·.entries)).getD [])

/-- The record that an announcement leaves in the log. A failure is logged as a warning; a message
at the level of failures has no record. -/
def record? (p : Payload) : Option Log.Record :=
  match p.body with
  | .boundary stats =>
    let verb := if p.topic = .phaseStart then "started" else "ended"
    some ⟨.info, p.phase.label ++ " phase " ++ verb, some (p.context stats)⟩
  | .failure f =>
    some ⟨.warn, f.message,
      some (.ofList [("phase", .string p.phase.name), ("path", .string f.path),
        ("code", .string f.code)])⟩
  | .message text values =>
    if p.level = .error then none else some ⟨p.level, text, some (p.context values)⟩

/-- The problem that an announcement reports. -/
def problem? (p : Payload) : Option Problem :=
  match p.body with
  | .failure f => some { f with phase := p.phase }
  | _ => none

end Payload

end Event

end UmlDraft
