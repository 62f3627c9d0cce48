import UmlDraft.Event.Hub
import UmlDraft.Proofs.Event.Payload

/-!
# Delivery without side effects

A listener that collects problems or writes the log only notes what it is given. Where all listeners
of a channel are of this sort, an announcement is noted by each of them in turn and nothing is
thrown. The hub of a run is of this sort, so each announcement leaves its record in the log and its
problem among the problems, in the order of the announcements.
-/

namespace UmlDraft.Event

/-- Whether a listener notes what it is given and does nothing else. -/
def Listener.Passive : Listener → Prop
  | .named _ => False
  | _ => True

namespace Hub

variable {h : Hub} {c : Channel} {l : Listener}

theorem isFresh_of_passive (h : Hub) (hl : l.Passive) : h.isFresh l = false := by
  cases l with
  | problems | log => rfl
  | named => exact hl.elim

theorem script_of_passive (h : Hub) (hl : l.Passive) : h.script l = {} := by
  cases l with
  | problems | log => rfl
  | named => exact hl.elim

/-- Notes an announcement for several listeners, one after the other. -/
def noteAll (h : Hub) (p : Payload) (ls : List Listener) : Hub :=
  ls.foldl (fun h l => h.note l p) h

@[simp] theorem bus_noteAll (h : Hub) (p : Payload) (ls : List Listener) :
    (h.noteAll p ls).bus = h.bus := by
  induction ls generalizing h with
  | nil => rfl
  | cons l ls ih => exact (ih (h.note l p)).trans (bus_note h l p)

/-- From a position on, a channel of passive listeners has the announcement noted by each. -/
theorem serve_of_passive (hc : ∀ l ∈ h.bus.listeners c, l.Passive) (budget : Nat) (p : Payload)
    (position : Nat) :
    serve budget p c position h = (h.noteAll p ((h.bus.listeners c).drop position), none) := by
  -- The channel stays as it is, so what is left of it behind the position gets shorter.
  induction hn : (h.bus.listeners c).length - position generalizing h position with
  | zero =>
    have hend : (h.bus.listeners c).length ≤ position := Nat.le_of_sub_eq_zero hn
    rw [serve, List.drop_eq_nil_of_le hend]
    split
    · rfl
    · next l hl =>
      rw [List.getElem?_eq_none hend] at hl
      cases hl
  | succ n ih =>
    have hlt : position < (h.bus.listeners c).length := by omega
    have hpassive := hc _ (List.getElem_mem hlt)
    have hrest := ih (h := h.note (h.bus.listeners c)[position] p) (by rwa [bus_note])
      (position + 1) (by rw [bus_note]; omega)
    rw [bus_note] at hrest
    rw [serve, List.drop_eq_getElem_cons hlt]
    split
    · next hnone =>
      rw [List.getElem?_eq_getElem hlt] at hnone
      cases hnone
    · next l hl =>
      rw [List.getElem?_eq_getElem hlt] at hl
      cases hl
      rw [if_neg (by rw [isFresh_of_passive h hpassive]; exact Bool.false_ne_true),
        script_of_passive h hpassive]
      exact hrest

/-- A hub on which only the log and the problems are kept, as in a run. -/
def IsWired (h : Hub) : Prop :=
  h.bus = wired.bus

theorem isWired_wired : wired.IsWired :=
  rfl

theorem IsWired.listeners (hw : h.IsWired) (c : Channel) :
    h.bus.listeners c =
      if c = .level .error then [.problems] else if c = .all then [.log] else [] := by
  rw [hw, wired, Bus.listeners_subscribe, Bus.listeners_subscribe, Bus.listeners_subscribe]
  split
  · rfl
  · rfl

theorem IsWired.passive (hw : h.IsWired) (c : Channel) : ∀ l ∈ h.bus.listeners c, l.Passive := by
  intro l hl
  rw [hw.listeners] at hl
  split at hl
  · rw [List.mem_singleton.mp hl]
    trivial
  · split at hl
    · rw [List.mem_singleton.mp hl]
      trivial
    · cases hl

theorem IsWired.serveAll (hw : h.IsWired) (budget : Nat) (p : Payload) (cs : List Channel) :
    serveAll budget p cs h = (h.noteAll p (cs.flatMap h.bus.listeners), none) := by
  induction cs generalizing h with
  | nil =>
    rw [Hub.serveAll]
    rfl
  | cons c cs ih =>
    have hnoted : (h.noteAll p (h.bus.listeners c)).IsWired := (bus_noteAll h p _).trans hw
    have hrest := ih hnoted
    rw [bus_noteAll] at hrest
    rw [Hub.serveAll, serve_of_passive (hw.passive c), List.drop_zero]
    dsimp only
    rw [hrest, List.flatMap_cons, noteAll, noteAll, noteAll, List.foldl_append]

/-- On the hub of a run an announcement leaves its record and its problem, and nothing is thrown. -/
theorem IsWired.step_emit (hw : h.IsWired) (budget : Nat) (p : Payload) :
    step budget (.emit p) h =
      ({ h with
          problems := h.problems ++ p.reported?.toList
          logged := h.logged ++ p.record?.toList }, none) := by
  have hlisteners : p.channels.flatMap h.bus.listeners =
      if p.level = .error then [.problems, .log] else [.log] := by
    simp only [Payload.channels, List.flatMap_cons, List.flatMap_nil, hw.listeners,
      Channel.level.injEq, reduceCtorEq, if_false, if_true, List.nil_append, List.append_nil]
    split
    · rfl
    · rfl
  rw [step, hw.serveAll, hlisteners, Payload.reported?]
  split
  · rfl
  · simp [noteAll, note]

theorem IsWired.emit (hw : h.IsWired) (p : Payload) :
    h.emit p =
      ({ h with
          problems := h.problems ++ p.reported?.toList
          logged := h.logged ++ p.record?.toList }, none) :=
  hw.step_emit h.uncalled.length p

/-- Several announcements leave their records and their problems in order. -/
theorem IsWired.emitAll (hw : h.IsWired) (ps : List Payload) :
    h.emitAll ps =
      { h with
        problems := h.problems ++ ps.filterMap Payload.reported?
        logged := h.logged ++ ps.filterMap Payload.record? } := by
  induction ps generalizing h with
  | nil => simp [Hub.emitAll]
  | cons p ps ih =>
    have hnext : (h.emit p).1.IsWired := by
      rw [hw.emit]
      exact hw
    have hrest := ih hnext
    rw [hw.emit] at hrest
    rw [Hub.emitAll, List.foldl_cons, ← Hub.emitAll, hw.emit, hrest]
    simp only [List.append_assoc, List.filterMap_cons]
    congr 2
    · cases p.record? <;> rfl
    · cases p.reported? <;> rfl

/-- Announcing step by step, where whatever is thrown would stop the rest, comes to the same. -/
theorem IsWired.steps_emit (hw : h.IsWired) (budget : Nat) (ps : List Payload) :
    steps budget (ps.map Step.emit) h = (h.emitAll ps, none) := by
  induction ps generalizing h with
  | nil =>
    rw [List.map_nil, steps]
    rfl
  | cons p ps ih =>
    have hnext : (h.emit p).1.IsWired := by
      rw [hw.emit]
      exact hw
    rw [List.map_cons, steps, hw.step_emit budget p]
    dsimp only
    rw [Hub.emitAll, List.foldl_cons, ← Hub.emitAll, ← ih hnext, hw.emit]

theorem logged_emitAll_wired (ps : List Payload) :
    (wired.emitAll ps).logged = ps.filterMap Payload.record? := by
  rw [isWired_wired.emitAll]
  rfl

theorem problems_emitAll_wired (ps : List Payload) :
    (wired.emitAll ps).problems = ps.filterMap Payload.reported? := by
  rw [isWired_wired.emitAll]
  rfl

end Hub

end UmlDraft.Event
