import Mathlib.Data.List.Forall2
import UmlDraft.Proofs.Event.Delivery
import UmlDraft.Proofs.Event.History

/-!
# What becomes of notices

A run gives notice in six ways: of failures, of what deserves attention or is worth knowing, of
details, and of the two boundaries of a phase. Its log listens to everything, and the listener that
collects problems to failures. Others may join at any time. Main statement: after any number of
notices the problems are the failures among them, and the log has one record of each notice, both
in the order in which the notices were given.
-/

namespace UmlDraft.Event

/-- What a run gives notice of. -/
inductive Notice where
  /-- A failure. -/
  | failure (topic : Topic) (phase : Phase) (f : Failure)
  /-- A message that deserves attention. -/
  | warn (topic : Topic) (phase : Phase) (text : String) (context : Option Fields)
  /-- A message of normal operation. -/
  | info (topic : Topic) (phase : Phase) (text : String) (context : Option Fields)
  /-- A detail. -/
  | debug (topic : Topic) (phase : Phase) (text : String) (context : Option Fields)
  /-- A phase begins. -/
  | phaseStart (phase : Phase) (stats : Option Fields)
  /-- A phase ends. -/
  | phaseEnd (phase : Phase) (stats : Option Fields)

namespace Notice

/-- The announcement that is made. -/
def payload : Notice → Payload
  | .failure topic phase f => .failure topic phase f
  | .warn topic phase text context => .warn topic phase text context
  | .info topic phase text context => .info topic phase text context
  | .debug topic phase text context => .debug topic phase text context
  | .phaseStart phase stats => .phaseStart phase stats
  | .phaseEnd phase stats => .phaseEnd phase stats

/-- How serious the record in the log is. A failure is logged as a warning. -/
def severity : Notice → Level
  | .failure .. | .warn .. => .warn
  | .info .. | .phaseStart .. | .phaseEnd .. => .info
  | .debug .. => .debug

/-- What the record in the log says. -/
def text : Notice → String
  | .failure _ _ f => f.message
  | .warn _ _ text _ | .info _ _ text _ | .debug _ _ text _ => text
  | .phaseStart phase _ => phase.label ++ " phase started"
  | .phaseEnd phase _ => phase.label ++ " phase ended"

/-- The values that are given along with it. -/
def values : Notice → Fields
  | .failure _ _ f => .ofList [("path", .string f.path), ("code", .string f.code)]
  | .warn _ _ _ values | .info _ _ _ values | .debug _ _ _ values
  | .phaseStart _ values | .phaseEnd _ values => values.getD .empty

/-- The problem that it is, with the phase in which it occurred. -/
def problem? : Notice → Option Problem
  | .failure _ phase f => some { f with phase }
  | _ => none

/-- Whether it is notice of a failure. -/
def isFailure : Notice → Bool
  | .failure .. => true
  | _ => false

/-- What a notice leaves in the log. -/
structure Leaves (n : Notice) (r : Log.Record) : Prop where
  /-- The level follows from the kind of the notice. -/
  level : r.level = n.severity
  /-- So does the message. -/
  message : r.message = n.text
  /-- The context holds what was given, and the phase unless something else was given as such. -/
  context : ∃ fields, r.context = some fields ∧ ∀ key, fields.get? key =
    (n.values.get? key).or (if key = "phase" then some (.string n.payload.phase.name) else none)

theorem record?_payload (n : Notice) :
    n.payload.record? = some ⟨n.severity, n.text, some (n.payload.context (some n.values))⟩ := by
  cases n with
  | failure => rfl
  | warn _ _ _ values | info _ _ _ values | debug _ _ _ values => cases values <;> rfl
  | phaseStart phase values | phaseEnd phase values => cases phase <;> cases values <;> rfl

/-- Each notice leaves a record. -/
theorem exists_leaves (n : Notice) : ∃ r, n.payload.record? = some r ∧ n.Leaves r :=
  ⟨_, n.record?_payload, rfl, rfl, _, rfl, n.payload.get?_context n.values⟩

theorem reported?_payload (n : Notice) : n.payload.reported? = n.problem? := by
  cases n <;> rfl

theorem length_filterMap_problem? (ns : List Notice) :
    (ns.filterMap problem?).length = ns.countP isFailure := by
  induction ns with
  | nil => rfl
  | cons n ns ih =>
    rw [List.countP_cons, List.filterMap_cons, ← ih]
    cases n <;> rfl

end Notice

/-- What happens during a run. -/
inductive Act where
  /-- Notice is given. -/
  | notify (n : Notice)
  /-- Another listener joins a channel. -/
  | join (c : Channel) (name : String)

/-- The step that is taken. -/
def Act.step : Act → Step
  | .notify n => .emit n.payload
  | .join c name => .subscribe c (.named name)

/-- The notice that is given, if any is. -/
def Act.notice? : Act → Option Notice
  | .notify n => some n
  | .join _ _ => none

/-- The notices among what happens. -/
def notices (acts : List Act) : List Notice :=
  acts.filterMap Act.notice?

theorem notices_concat (acts : List Act) (act : Act) :
    notices (acts ++ [act]) = notices acts ++ act.notice?.toList := by
  rw [notices, List.filterMap_append, ← notices]
  cases act <;> rfl

namespace Hub

variable {h : Hub}

/-- What a listener adds to its notes at each call, it adds as often as it is called. -/
theorem notes_answerAll {α : Type} {notes : Hub → List α} {l : Listener} {added : List α}
    {p : Payload}
    (hnotes : ∀ h a, notes (answer h p a) = notes h ++ if a.listener = l then added else [])
    (h : Hub) (calls : List (Call Listener)) :
    notes (h.answerAll p calls) =
      notes h ++ (List.replicate ((calls.map Call.listener).count l) added).flatten := by
  induction calls generalizing h with
  | nil => exact (List.append_nil _).symm
  | cons a calls ih =>
    refine (ih (h.answer p a)).trans ?_
    rw [hnotes, List.map_cons, List.append_assoc]
    by_cases hl : a.listener = l
    · rw [if_pos hl, hl, List.count_cons_self, List.replicate_succ, List.flatten_cons]
    · rw [if_neg hl, List.count_cons_of_ne hl, List.nil_append]

theorem problems_answerAll (h : Hub) (p : Payload) (calls : List (Call Listener)) :
    (h.answerAll p calls).problems = h.problems ++
      (List.replicate ((calls.map Call.listener).count .problems) p.problem?.toList).flatten := by
  refine notes_answerAll (fun h a => ?_) h calls
  obtain ⟨c, i, l, chs⟩ := a
  cases l with
  | problems => rfl
  | log | named => exact (List.append_nil _).symm

theorem logged_answerAll (h : Hub) (p : Payload) (calls : List (Call Listener)) :
    (h.answerAll p calls).logged = h.logged ++
      (List.replicate ((calls.map Call.listener).count .log) p.record?.toList).flatten := by
  refine notes_answerAll (fun h a => ?_) h calls
  obtain ⟨c, i, l, chs⟩ := a
  cases l with
  | log => rfl
  | problems | named => exact (List.append_nil _).symm

/-- A hub whose problems and log are looked after as in a run, whoever else listens. -/
structure Attended (h : Hub) : Prop where
  /-- The others do nothing but listen. -/
  script : ∀ l, h.script l = {}
  /-- Problems are collected once of each failure. -/
  problems : ∀ c, (h.bus.listeners c).count .problems = if c = .level .error then 1 else 0
  /-- The log hears of everything once. -/
  log : ∀ c, (h.bus.listeners c).count .log = if c = .all then 1 else 0

theorem attended_wired : wired.Attended where
  script l := by cases l <;> rfl
  problems c := by
    rw [isWired_wired.listeners]
    split
    · rfl
    · split <;> rfl
  log c := by
    rw [isWired_wired.listeners]
    split
    · next hc => rw [hc]; rfl
    · split <;> rfl

namespace Attended

theorem join (ha : h.Attended) (c : Channel) (name : String) :
    ({ h with bus := h.bus.subscribe c (.named name) } : Hub).Attended where
  script := ha.script
  problems d := by
    rw [Bus.listeners_subscribe, ← ha.problems]
    split
    · next hd => simp [hd]
    · rfl
  log d := by
    rw [Bus.listeners_subscribe, ← ha.log]
    split
    · next hd => simp [hd]
    · rfl

theorem aloof (ha : h.Attended) : h.Aloof :=
  fun l => congrArg Script.once (ha.script l)

theorem throws (ha : h.Attended) (l : Listener) : h.throws l = none :=
  congrArg Script.throws (ha.script l)

/-- An announcement reaches everyone. -/
theorem emit_eq (ha : h.Attended) (p : Payload) :
    h.emit p = (h.answerAll p (h.bus.calls p.channels), none) := by
  have hnone : (h.bus.calls p.channels).findSome? (h.throws ∘ Call.listener) = none :=
    List.findSome?_eq_none_iff.mpr fun a _ => ha.throws a.listener
  rw [emit_of_aloof ha.aloof, hnone, upToThrow_eq_self hnone]

theorem emit (ha : h.Attended) (p : Payload) : (h.emit p).1.Attended := by
  have hbus : (h.emit p).1.bus = h.bus := bus_take_of_aloof ha.aloof (.emit p)
  refine ⟨fun l => ?_, ?_, ?_⟩
  · exact (script_take_of_aloof ha.aloof (.emit p) l).trans (ha.script l)
  · rw [hbus]
    exact ha.problems
  · rw [hbus]
    exact ha.log

/-- It is collected if it is at the level of failures. -/
theorem problems_emit (ha : h.Attended) (p : Payload) :
    (h.emit p).1.problems = h.problems ++ p.reported?.toList := by
  rw [ha.emit_eq, problems_answerAll, Bus.map_listener_calls, List.count_flatMap,
    Payload.channels, Payload.reported?]
  simp only [List.map_cons, List.map_nil, ha.problems, Function.comp_apply]
  by_cases hlevel : p.level = .error
  · simp [hlevel]
  · simp [hlevel]

/-- It is logged whatever it is. -/
theorem logged_emit (ha : h.Attended) (p : Payload) :
    (h.emit p).1.logged = h.logged ++ p.record?.toList := by
  rw [ha.emit_eq, logged_answerAll, Bus.map_listener_calls, List.count_flatMap, Payload.channels]
  simp [ha.log]

end Attended

/-- What is kept of notices. -/
structure Keeps (h : Hub) (ns : List Notice) : Prop where
  /-- The problems are the failures, with their phases. -/
  problems : h.problems = ns.filterMap Notice.problem?
  /-- There are as many problems as failures. -/
  count : h.problems.length = ns.countP Notice.isFailure
  /-- The log has one record of each notice, in order. -/
  logged : List.Forall₂ Notice.Leaves ns h.logged

/-- One more notice is kept along with those before it. -/
theorem Keeps.emit {ns : List Notice} (hk : h.Keeps ns) (ha : h.Attended) (n : Notice) :
    (h.emit n.payload).1.Keeps (ns ++ [n]) := by
  have hproblems : (h.emit n.payload).1.problems = (ns ++ [n]).filterMap Notice.problem? := by
    rw [ha.problems_emit, hk.problems, n.reported?_payload, List.filterMap_append]
    cases n <;> rfl
  obtain ⟨r, hrecord, hleaves⟩ := n.exists_leaves
  refine ⟨hproblems, hproblems ▸ Notice.length_filterMap_problem? _, ?_⟩
  rw [ha.logged_emit, hrecord]
  exact List.rel_append hk.logged (.cons hleaves .nil)

/-- What happens next in a run throws nothing, and what is kept stays in step with the notices. -/
theorem Keeps.take {ns : List Notice} (hk : h.Keeps ns) (ha : h.Attended) (act : Act) :
    (h.take act.step).2 = none ∧ (h.take act.step).1.Attended ∧
      (h.take act.step).1.Keeps (ns ++ act.notice?.toList) := by
  cases act with
  | notify n => exact ⟨congrArg Prod.snd (ha.emit_eq n.payload), ha.emit n.payload, hk.emit ha n⟩
  | join c name =>
    have htake : h.take (Act.join c name).step =
        ({ h with bus := h.bus.subscribe c (.named name) }, none) := by
      rw [Hub.take, Act.step, Hub.step]
    rw [htake, Act.notice?, Option.toList_none, List.append_nil]
    exact ⟨rfl, ha.join c name, hk.problems, hk.count, hk.logged⟩

/-- Whatever notices are given in whatever order, and whoever joins meanwhile: nothing is thrown,
the problems are at any time the failures so far with their phases, and the log has one record of
each notice so far, in order. -/
theorem keeps_notices (acts : List Act) :
    (wired.takeEach (acts.map Act.step)).Keeps (notices acts) ∧
      ∀ act : Act, ((wired.takeEach (acts.map Act.step)).take act.step).2 = none := by
  suffices hrun : (wired.takeEach (acts.map Act.step)).Attended ∧
      (wired.takeEach (acts.map Act.step)).Keeps (notices acts) from
    ⟨hrun.2, fun act => (hrun.2.take hrun.1 act).1⟩
  induction acts using List.reverseRecOn with
  | nil => exact ⟨attended_wired, rfl, rfl, .nil⟩
  | append_singleton acts act ih =>
    have hlast : wired.takeEach ((acts ++ [act]).map Act.step) =
        ((wired.takeEach (acts.map Act.step)).take act.step).1 := by
      rw [List.map_append, List.map_singleton, takeEach, List.foldl_append]
      rfl
    rw [hlast, notices_concat]
    exact (ih.2.take ih.1 act).2

end Hub

end UmlDraft.Event
