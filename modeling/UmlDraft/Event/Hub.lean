import UmlDraft.Event.Bus

/-!
# Delivery

A hub is a bus whose listeners act. One listener collects problems and one writes the log; a named
listener only notes what it was given, but the first time it is called it first takes a list of
steps, which may subscribe, unsubscribe and announce, and it may throw. Delivery walks the three
channels of an announcement by position while they change: whoever subscribes meanwhile is still
reached, and a subscription that ends lets the next one slip into its place. Whatever throws stops
the announcement and all that it is part of.
-/

namespace UmlDraft.Event

/-- A listener. -/
inductive Listener where
  /-- Collects problems. -/
  | problems
  /-- Writes the log. -/
  | log
  /-- Does what is laid down under its name. -/
  | named (name : String)
  deriving DecidableEq, Repr

/-- An action on a hub. -/
inductive Step where
  /-- A listener subscribes to a channel. -/
  | subscribe (c : Channel) (l : Listener)
  /-- A listener ends a subscription. -/
  | unsubscribe (c : Channel) (l : Listener)
  /-- Something is announced. -/
  | emit (p : Payload)
  deriving Repr

/-- What a named listener does. -/
structure Script where
  /-- The steps that it takes the first time it is called. -/
  once : List Step := []
  /-- The message that it throws whenever it is called. -/
  throws : Option String := none
  deriving Repr

/-- A bus with its listeners and all that they noted. -/
structure Hub where
  /-- The subscriptions. -/
  bus : Bus Listener := {}
  /-- What the named listeners do. -/
  scripts : Table String Script := .empty
  /-- The named listeners that have not been called. -/
  uncalled : List String := []
  /-- What named listeners were given, in order. -/
  delivered : List (String × Payload) := []
  /-- The log. -/
  logged : List Log.Record := []
  /-- The problems. -/
  problems : List Problem := []
  deriving Repr

namespace Hub

/-- A hub without subscriptions whose named listeners follow the given scripts. -/
def ofScripts (scripts : Table String Script) : Hub :=
  { scripts, uncalled := scripts.keys }

/-- The hub of a run: the log hears everything and problems are collected from failures. -/
def wired : Hub :=
  { bus := (Bus.subscribe {} .all .log).subscribe (.level .error) .problems }

/-- Notes that a listener was given an announcement. -/
def note (h : Hub) (l : Listener) (p : Payload) : Hub :=
  match l with
  | .problems => { h with problems := h.problems ++ p.problem?.toList }
  | .log => { h with logged := h.logged ++ p.record?.toList }
  | .named name => { h with delivered := h.delivered ++ [(name, p)] }

@[simp] theorem bus_note (h : Hub) (l : Listener) (p : Payload) : (h.note l p).bus = h.bus := by
  cases l <;> rfl

@[simp] theorem uncalled_note (h : Hub) (l : Listener) (p : Payload) :
    (h.note l p).uncalled = h.uncalled := by
  cases l <;> rfl

/-- What a listener does. -/
def script (h : Hub) : Listener → Script
  | .named name => (h.scripts.get? name).getD {}
  | _ => {}

/-- Whether a listener is called for the first time. -/
def isFresh (h : Hub) : Listener → Bool
  | .named name => h.uncalled.contains name
  | _ => false

/-- Notes that a listener has been called. -/
def markCalled (h : Hub) : Listener → Hub
  | .named name => { h with uncalled := h.uncalled.erase name }
  | _ => h

/-- The hub after an action, and what was thrown. -/
abbrev Outcome := Hub × Option String

set_option linter.unusedVariables false in
mutual

/-- Serves a channel from a position on. The budget bounds the listeners that have not been called;
it falls with each of them, and between two of them the channel does not change. -/
def serve (budget : Nat) (p : Payload) (c : Channel) (position : Nat) (h : Hub) : Outcome :=
  match hl : (h.bus.listeners c)[position]? with
  | none => (h, none)
  | some l =>
    if h.isFresh l then
      match budget with
      | 0 => (h, none)
      | budget + 1 =>
        match steps budget (h.script l).once ((h.note l p).markCalled l) with
        | (h', some thrown) => (h', some thrown)
        | (h', none) =>
          match (h'.script l).throws with
          | some thrown => (h', some thrown)
          | none => serve budget p c (position + 1) h'
    else
      match (h.script l).throws with
      | some thrown => (h.note l p, some thrown)
      | none => serve budget p c (position + 1) (h.note l p)
termination_by (budget, 0, (h.bus.listeners c).length - position)
decreasing_by
  · exact Prod.Lex.left _ _ (Nat.lt_succ_self _)
  · exact Prod.Lex.left _ _ (Nat.lt_succ_self _)
  · rw [bus_note]
    refine Prod.Lex.right _ (Prod.Lex.right _ ?_)
    have := (List.getElem?_eq_some_iff.1 hl).1
    omega

/-- Serves several channels, one after the other. -/
def serveAll (budget : Nat) (p : Payload) (cs : List Channel) (h : Hub) : Outcome :=
  match cs with
  | [] => (h, none)
  | c :: rest =>
    match serve budget p c 0 h with
    | (h', some thrown) => (h', some thrown)
    | (h', none) => serveAll budget p rest h'
termination_by (budget, 1, cs.length)

/-- Takes one step. -/
def step (budget : Nat) (s : Step) (h : Hub) : Outcome :=
  match s with
  | .subscribe c l => ({ h with bus := h.bus.subscribe c l }, none)
  | .unsubscribe c l => ({ h with bus := h.bus.unsubscribe c l }, none)
  | .emit p => serveAll budget p p.channels h
termination_by (budget, 2, 0)

/-- Takes several steps, one after the other. -/
def steps (budget : Nat) (ss : List Step) (h : Hub) : Outcome :=
  match ss with
  | [] => (h, none)
  | s :: rest =>
    match step budget s h with
    | (h', some thrown) => (h', some thrown)
    | (h', none) => steps budget rest h'
termination_by (budget, 3, ss.length)

end

/-- Takes a step. The listeners not yet called bound how deep it can lead. -/
def take (h : Hub) (s : Step) : Outcome :=
  step h.uncalled.length s h

/-- Announces something. -/
def emit (h : Hub) (p : Payload) : Outcome :=
  h.take (.emit p)

/-- Announces several things on a hub whose listeners do not throw. -/
def emitAll (h : Hub) (ps : List Payload) : Hub :=
  ps.foldl (fun h p => (h.emit p).1) h

end Hub

end UmlDraft.Event
