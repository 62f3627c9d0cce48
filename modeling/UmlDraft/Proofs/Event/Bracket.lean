import UmlDraft.File.Fault
import UmlDraft.Proofs.Event.Payload

/-!
# The phases in a log

A log is followed record by record. A phase is open from its first record to its last, one phase at
a time and each at most once, and a record between them belongs to the phase that is open. Main
statement: phases can be followed one after the other if the records inside each of them belong to
it.
-/

namespace UmlDraft

open Event

/-- A boundary of a phase in a log. -/
inductive Mark where
  /-- The phase begins. -/
  | started (phase : Phase)
  /-- The phase ends. -/
  | ended (phase : Phase)
  deriving DecidableEq, Repr

namespace Mark

/-- The message of a boundary. -/
def text : Mark → String
  | .started phase => phase.label ++ " phase started"
  | .ended phase => phase.label ++ " phase ended"

/-- All boundaries. -/
def all : List Mark :=
  [Phase.read, .extract, .render, .write].flatMap fun phase => [.started phase, .ended phase]

/-- The boundary with a message. -/
def ofText? (message : String) : Option Mark :=
  all.find? fun m => message = m.text

theorem ofText?_text (m : Mark) : ofText? m.text = some m := by
  cases m with
  | started phase | ended phase => cases phase <;> decide

/-- As much of a message as tells it from those of the boundaries. -/
def head (message : String) : List Char :=
  message.toList.take 8

/-- What no boundary begins with begins no message of a boundary. -/
theorem ofText?_append {s : String} (hlength : 8 ≤ s.length)
    (hhead : ∀ m ∈ all, head s ≠ head m.text) (t : String) : ofText? (s ++ t) = none := by
  refine List.find?_eq_none.mpr fun m hm => ?_
  rw [decide_eq_true_eq]
  intro heq
  refine hhead m hm ?_
  rw [← heq, head, head, String.toList_append, List.take_append_of_le_length hlength]

/-- The message of a failed operation begins with the code of its cause, or says what is wrong with
the path. -/
theorem ofText?_message (e : FileError) : ofText? e.message = none := by
  rw [FileError.message, String.append_assoc]
  cases e.fault with
  | missing | notDirectory | isDirectory | occupied | nameTooLong =>
    exact ofText?_append (by decide) (by decide) _
  | nullCharacter => exact ofText?_append (by decide) (by decide) _

end Mark

namespace Log.Record

/-- The boundary that a record is. -/
def mark? (r : Record) : Option Mark :=
  Mark.ofText? r.message

/-- The phase that a record names. -/
def phase? (r : Record) : Option String :=
  (r.context.bind fun values => values.get? "phase").bind Json.string?

/-- A record inside a phase. -/
structure Within (phase : Phase) (r : Record) : Prop where
  /-- It names the phase. -/
  named : r.phase? = some phase.name
  /-- It is no boundary. -/
  unmarked : r.mark? = none

variable {phase : Phase} {level : Level} {message : String} {values : List (String × Json)}

theorem phase?_noted (h : "phase" ∉ values.map Prod.fst) :
    (Payload.noted level phase message values).phase? = some phase.name := by
  have hothers : values.filter (fun e => e.1 = "phase") = [] :=
    List.filter_eq_nil_iff.mpr fun e he heq =>
      h (List.mem_map.mpr ⟨e, he, of_decide_eq_true heq⟩)
  have hget : (Table.ofList (("phase", Json.string phase.name) :: values)).get? "phase" =
      some (.string phase.name) := by
    rw [Table.get?_ofList, List.filter_cons_of_pos (by simp), hothers]
    rfl
  rw [phase?, Payload.noted]
  dsimp only [Option.bind]
  rw [hget]
  rfl

theorem within_noted (hvalues : "phase" ∉ values.map Prod.fst)
    (hmessage : Mark.ofText? message = none) :
    Within phase (Payload.noted level phase message values) :=
  ⟨phase?_noted hvalues, hmessage⟩

theorem mark?_started (phase : Phase) : mark? (Payload.started phase) = some (.started phase) :=
  Mark.ofText?_text (.started phase)

theorem mark?_ended (phase : Phase) (counters : List (String × Json)) :
    mark? (Payload.ended phase counters) = some (.ended phase) :=
  Mark.ofText?_text (.ended phase)

end Log.Record

/-- How far a log has been followed. -/
structure Stage where
  /-- The phases that have ended. -/
  closed : List Phase := []
  /-- The phase that is open. -/
  current : Option Phase := none
  deriving DecidableEq, Repr

namespace Stage

open Log

/-- Follows one record. -/
def step (s : Stage) (r : Record) : Option Stage :=
  match r.mark? with
  | some (.started phase) =>
    if s.current = none ∧ phase ∉ s.closed ∧ r.phase? = some phase.name then
      some { s with current := some phase }
    else none
  | some (.ended phase) =>
    if s.current = some phase ∧ r.phase? = some phase.name then
      some { closed := s.closed ++ [phase] }
    else none
  | none =>
    if s.current ≠ none ∧ r.phase? = s.current.map Phase.name then some s else none

/-- Follows a log. -/
def follow (s : Stage) (records : List Record) : Option Stage :=
  records.foldlM step s

variable {closed : List Phase} {phase : Phase} {r : Record} {inner : List Record}
  {counters : List (String × Json)}

/-- A record inside a phase is followed while the phase is open, and nothing else happens. -/
theorem step_within (h : r.Within phase) :
    step ⟨closed, some phase⟩ r = some ⟨closed, some phase⟩ := by
  rw [step, h.unmarked]
  exact if_pos ⟨Option.some_ne_none phase, h.named⟩

theorem step_started (h : phase ∉ closed) :
    step { closed } (Payload.started phase) = some ⟨closed, some phase⟩ := by
  rw [step, Record.mark?_started]
  exact if_pos ⟨rfl, h, Record.phase?_noted List.not_mem_nil⟩

theorem step_ended (h : "phase" ∉ counters.map Prod.fst) :
    step ⟨closed, some phase⟩ (Payload.ended phase counters) =
      some { closed := closed ++ [phase] } := by
  rw [step, Record.mark?_ended]
  exact if_pos ⟨rfl, Record.phase?_noted h⟩

/-- All records inside a phase are followed. -/
theorem follow_within (h : ∀ r ∈ inner, r.Within phase) :
    follow ⟨closed, some phase⟩ inner = some ⟨closed, some phase⟩ := by
  induction inner with
  | nil => rfl
  | cons r inner ih =>
    rw [List.forall_mem_cons] at h
    rw [follow, List.foldlM_cons, step_within h.1]
    exact ih h.2

/-- The records of a phase. -/
def bracket (phase : Phase) (inner : List Record) (counters : List (String × Json)) : List Record :=
  Payload.started phase :: inner ++ [Payload.ended phase counters]

/-- What is announced of a phase leaves its records. -/
theorem filterMap_record?_phased (phase : Phase) (events : List Payload)
    (counters : List (String × Json)) :
    (Payload.phased phase events counters).filterMap Payload.record? =
      bracket phase (events.filterMap Payload.record?) counters := by
  rw [Payload.phased, List.filterMap_append, List.filterMap_append, List.filterMap_cons,
    Payload.record?_phaseStart, List.filterMap_cons, Payload.record?_phaseEnd, bracket]
  rfl

/-- A phase that has not been open yet can be followed from its beginning to its end. -/
theorem follow_bracket (hphase : phase ∉ closed) (hinner : ∀ r ∈ inner, r.Within phase)
    (hcounters : "phase" ∉ counters.map Prod.fst) :
    follow { closed } (bracket phase inner counters) = some { closed := closed ++ [phase] } := by
  have hmiddle : follow ⟨closed, some phase⟩ inner = some ⟨closed, some phase⟩ :=
    follow_within hinner
  rw [follow] at hmiddle
  rw [follow, bracket, List.cons_append, List.foldlM_cons, step_started hphase]
  dsimp only [Option.bind_eq_bind, Option.bind_some]
  rw [List.foldlM_append, hmiddle]
  dsimp only [Option.bind_eq_bind, Option.bind_some]
  rw [List.foldlM_cons, step_ended hcounters]
  rfl

/-- Different phases can be followed one after the other. -/
theorem follow_brackets {phases : List Phase} {inner : Phase → List Record}
    {counters : Phase → List (String × Json)} (hphases : (closed ++ phases).Nodup)
    (hinner : ∀ phase ∈ phases, ∀ r ∈ inner phase, r.Within phase)
    (hcounters : ∀ phase, "phase" ∉ (counters phase).map Prod.fst) :
    follow { closed } (phases.flatMap fun phase => bracket phase (inner phase) (counters phase)) =
      some { closed := closed ++ phases } := by
  induction phases generalizing closed with
  | nil => rw [List.append_nil]; rfl
  | cons phase phases ih =>
    rw [List.forall_mem_cons] at hinner
    have hphase : phase ∉ closed := fun h =>
      (List.nodup_append.mp hphases).2.2 phase h phase List.mem_cons_self rfl
    rw [List.append_cons] at hphases ⊢
    have hfirst := follow_bracket hphase hinner.1 (hcounters phase)
    rw [follow] at hfirst
    rw [follow, List.flatMap_cons, List.foldlM_append, hfirst]
    exact ih hphases hinner.2

/-- A phase inside another one cannot be followed, and no phase can be followed twice. -/
example : follow {} (bracket .read (bracket .extract [] []) []) = none ∧
    follow {} (bracket .read [] [] ++ bracket .read [] []) = none := by
  decide

end Stage

end UmlDraft
