import UmlDraft.Event.Hub
import UmlDraft.Proofs.Event.Round

/-!
# Listeners that change the subscriptions

On a hub whose listeners throw nothing and do nothing but subscribe and unsubscribe, an announcement
is a round: it comes to its end, each listener makes the changes that are laid down for it, and what
was delivered is what the round called, in order. Main statement: what becomes of the subscriptions
that are there when an announcement begins.
-/

namespace UmlDraft.Event

/-- A change as a step of a listener. -/
def Change.step : Change Listener → Step
  | .subscribe c l => .subscribe c l
  | .unsubscribe c l => .unsubscribe c l

namespace Hub

variable {h : Hub} {p : Payload} {cs : List Channel} {a : Call Listener}
  {calls calls' : List (Call Listener)}

/-- Whether the listeners of a hub throw nothing and take no step but to change the
subscriptions. -/
def Tame (h : Hub) : Prop :=
  ∀ l, (h.script l).throws = none ∧
    ∃ chs : List (Change Listener), (h.script l).once = chs.map Change.step

/-- The hub after a call. -/
def answer (h : Hub) (p : Payload) (a : Call Listener) : Hub :=
  { (h.note a.listener p).markCalled a.listener with bus := h.bus.changeAll a.changes }

/-- The hub after several calls. -/
def answerAll (h : Hub) (p : Payload) (calls : List (Call Listener)) : Hub :=
  calls.foldl (fun h a => h.answer p a) h

/-- Whether the listeners that are called make the changes of their scripts, the first time only. -/
def Scripted (p : Payload) : Hub → List (Call Listener) → Prop
  | _, [] => True
  | h, a :: calls =>
    a.changes.map Change.step =
        (if h.isFresh a.listener then (h.script a.listener).once else []) ∧
      Scripted p (h.answer p a) calls

/-- What a round delivers to named listeners. -/
def deliveries (p : Payload) (calls : List (Call Listener)) : List (String × Payload) :=
  calls.filterMap fun a =>
    match a.listener with
    | .named name => some (name, p)
    | _ => none

/-! ### One call -/

theorem script_answer (h : Hub) (p : Payload) (a : Call Listener) (l : Listener) :
    (h.answer p a).script l = h.script l := by
  obtain ⟨c, i, listener, chs⟩ := a
  cases listener <;> cases l <;> rfl

theorem Tame.answer (ht : h.Tame) (p : Payload) (a : Call Listener) : (h.answer p a).Tame := by
  intro l
  rw [script_answer]
  exact ht l

theorem uncalled_answer_le (h : Hub) (p : Payload) (a : Call Listener) :
    (h.answer p a).uncalled.length ≤ h.uncalled.length := by
  obtain ⟨c, i, listener, chs⟩ := a
  cases listener with
  | problems | log => exact Nat.le_refl _
  | named name => exact List.length_erase_le

/-- With each listener that is called for the first time fewer are left. -/
theorem uncalled_answer_lt (p : Payload) (hfresh : h.isFresh a.listener = true) :
    (h.answer p a).uncalled.length < h.uncalled.length := by
  obtain ⟨c, i, listener, chs⟩ := a
  cases listener with
  | problems | log => cases hfresh
  | named name =>
    have hmem : name ∈ h.uncalled := List.contains_iff_mem.mp hfresh
    have hlength := List.length_erase_of_mem hmem
    have hpos := List.length_pos_of_mem hmem
    change (h.uncalled.erase name).length < _
    omega

/-- A listener that was called before only notes what it is given. -/
theorem answer_of_not_fresh (p : Payload) {c : Channel} {i : Nat} {l : Listener}
    (hstale : h.isFresh l = false) : h.answer p ⟨c, i, l, []⟩ = h.note l p := by
  cases l with
  | problems | log => rfl
  | named name =>
    have hnot : name ∉ h.uncalled := fun hmem => by
      rw [isFresh, List.contains_iff_mem.mpr hmem] at hstale
      cases hstale
    change { h.note (.named name) p with uncalled := h.uncalled.erase name } = _
    rw [List.erase_of_not_mem hnot]
    rfl

/-- Steps that change the subscriptions do that and no more. -/
theorem steps_changes (budget : Nat) (chs : List (Change Listener)) (h : Hub) :
    steps budget (chs.map Change.step) h = ({ h with bus := h.bus.changeAll chs }, none) := by
  induction chs generalizing h with
  | nil =>
    rw [List.map_nil, steps]
    rfl
  | cons ch chs ih =>
    have hstep : step budget ch.step h = ({ h with bus := h.bus.change ch }, none) := by
      cases ch with
      | subscribe | unsubscribe =>
        rw [Change.step, step]
        rfl
    rw [List.map_cons, steps, hstep]
    dsimp only
    rw [ih]
    rfl

variable {c : Channel} {i : Nat} {l : Listener} {chs : List (Change Listener)}

/-- Where no listener is next, serving a channel is over. -/
theorem serve_of_end (budget : Nat) (p : Payload) (hend : (h.bus.listeners c)[i]? = none) :
    serve budget p c i h = (h, none) := by
  rw [serve]
  split
  · rfl
  · next l hl =>
    rw [hend] at hl
    cases hl

/-- A listener that is called for the first time makes its changes. Serving goes on behind it unless
it throws. -/
theorem serve_eq_of_fresh (budget : Nat) (p : Payload) (hl : (h.bus.listeners c)[i]? = some l)
    (hfresh : h.isFresh l = true) (honce : (h.script l).once = chs.map Change.step) :
    serve (budget + 1) p c i h =
      match (h.script l).throws with
      | some message => (h.answer p ⟨c, i, l, chs⟩, some message)
      | none => serve budget p c (i + 1) (h.answer p ⟨c, i, l, chs⟩) := by
  have hsteps : steps budget (h.script l).once ((h.note l p).markCalled l) =
      (h.answer p ⟨c, i, l, chs⟩, none) := by
    rw [honce, steps_changes, answer]
    cases l <;> rfl
  rw [serve]
  split
  · next hend =>
    rw [hl] at hend
    cases hend
  · next l' hl' =>
    rw [hl] at hl'
    cases hl'
    rw [if_pos hfresh]
    dsimp only
    rw [hsteps]
    dsimp only
    rewrite [script_answer]
    rfl

/-- A listener that was called before changes nothing. Serving goes on behind it unless it
throws. -/
theorem serve_eq_of_not_fresh (budget : Nat) (p : Payload)
    (hl : (h.bus.listeners c)[i]? = some l) (hstale : h.isFresh l = false) :
    serve budget p c i h =
      match (h.script l).throws with
      | some message => (h.answer p ⟨c, i, l, []⟩, some message)
      | none => serve budget p c (i + 1) (h.answer p ⟨c, i, l, []⟩) := by
  rw [serve]
  split
  · next hend =>
    rw [hl] at hend
    cases hend
  · next l' hl' =>
    rw [hl] at hl'
    cases hl'
    rewrite [if_neg (by simp [hstale]), answer_of_not_fresh p hstale]
    rfl

/-- A listener that is called for the first time makes its changes, and serving goes on. -/
theorem serve_of_fresh (budget : Nat) (p : Payload) (hl : (h.bus.listeners c)[i]? = some l)
    (hfresh : h.isFresh l = true) (hthrows : (h.script l).throws = none)
    (honce : (h.script l).once = chs.map Change.step) :
    serve (budget + 1) p c i h = serve budget p c (i + 1) (h.answer p ⟨c, i, l, chs⟩) := by
  rw [serve_eq_of_fresh budget p hl hfresh honce, hthrows]

/-- A listener that was called before changes nothing, and serving goes on. -/
theorem serve_of_not_fresh (budget : Nat) (p : Payload) (hl : (h.bus.listeners c)[i]? = some l)
    (hstale : h.isFresh l = false) (hthrows : (h.script l).throws = none) :
    serve budget p c i h = serve budget p c (i + 1) (h.answer p ⟨c, i, l, []⟩) := by
  rw [serve_eq_of_not_fresh budget p hl hstale, hthrows]

/-! ### Several calls -/

theorem answerAll_append (h : Hub) (p : Payload) (calls calls' : List (Call Listener)) :
    h.answerAll p (calls ++ calls') = (h.answerAll p calls).answerAll p calls' :=
  List.foldl_append

theorem script_answerAll (h : Hub) (p : Payload) (calls : List (Call Listener)) (l : Listener) :
    (h.answerAll p calls).script l = h.script l := by
  induction calls generalizing h with
  | nil => rfl
  | cons a calls ih => exact (ih (h.answer p a)).trans (script_answer h p a l)

theorem Tame.answerAll (ht : h.Tame) (p : Payload) (calls : List (Call Listener)) :
    (h.answerAll p calls).Tame := by
  intro l
  rw [script_answerAll]
  exact ht l

theorem uncalled_answerAll_le (h : Hub) (p : Payload) (calls : List (Call Listener)) :
    (h.answerAll p calls).uncalled.length ≤ h.uncalled.length := by
  induction calls generalizing h with
  | nil => exact Nat.le_refl _
  | cons a calls ih => exact Nat.le_trans (ih (h.answer p a)) (uncalled_answer_le h p a)

theorem Scripted.append (hcalls : Scripted p h calls)
    (hcalls' : Scripted p (h.answerAll p calls) calls') : Scripted p h (calls ++ calls') := by
  induction calls generalizing h with
  | nil => exact hcalls'
  | cons a calls ih => exact ⟨hcalls.1, ih hcalls.2 hcalls'⟩

theorem delivered_answerAll (h : Hub) (p : Payload) (calls : List (Call Listener)) :
    (h.answerAll p calls).delivered = h.delivered ++ deliveries p calls := by
  induction calls generalizing h with
  | nil => exact (List.append_nil _).symm
  | cons a calls ih =>
    refine (ih (h.answer p a)).trans ?_
    obtain ⟨c, i, listener, chs⟩ := a
    cases listener with
    | problems | log => rfl
    | named name => exact List.append_assoc _ _ _

/-! ### Announcements are rounds -/

/-- Serving a channel is a part of a round. -/
theorem exists_round_serve (budget : Nat) (p : Payload) (c : Channel) (i : Nat) (h : Hub)
    (ht : h.Tame) (hbudget : h.uncalled.length ≤ budget) :
    ∃ calls, serve budget p c i h = (h.answerAll p calls, none) ∧ Scripted p h calls ∧
      ∀ cs, Round ⟨c :: cs, i, h.bus⟩ calls ⟨cs, 0, (h.answerAll p calls).bus⟩ := by
  cases hl : (h.bus.listeners c)[i]? with
  | none => exact ⟨[], serve_of_end budget p hl, trivial, fun cs => .next hl (.stay _)⟩
  | some l =>
    obtain ⟨hthrows, chs, honce⟩ := ht l
    cases hfresh : h.isFresh l with
    | true =>
      have hless := uncalled_answer_lt (a := ⟨c, i, l, chs⟩) p hfresh
      cases budget with
      | zero => omega
      | succ budget =>
        obtain ⟨calls, hserve, hscripted, hround⟩ := exists_round_serve budget p c (i + 1)
          (h.answer p ⟨c, i, l, chs⟩) (ht.answer p _) (by omega)
        refine ⟨⟨c, i, l, chs⟩ :: calls, ?_, ⟨?_, hscripted⟩, fun cs => .call hl chs (hround cs)⟩
        · rw [serve_of_fresh budget p hl hfresh hthrows honce, hserve]
          rfl
        · rw [if_pos hfresh, honce]
    | false =>
      have hleft : ((h.answer p ⟨c, i, l, []⟩).bus.listeners c).length - (i + 1) <
          (h.bus.listeners c).length - i := by
        have hlt := (List.getElem?_eq_some_iff.mp hl).1
        rw [answer_of_not_fresh p hfresh, bus_note]
        omega
      obtain ⟨calls, hserve, hscripted, hround⟩ := exists_round_serve budget p c (i + 1)
        (h.answer p ⟨c, i, l, []⟩) (ht.answer p _)
        (Nat.le_trans (uncalled_answer_le h p _) hbudget)
      refine ⟨⟨c, i, l, []⟩ :: calls, ?_, ⟨?_, hscripted⟩, fun cs => .call hl [] (hround cs)⟩
      · rw [serve_of_not_fresh budget p hl hfresh hthrows, hserve]
        rfl
      · rw [if_neg (by simp [hfresh])]
        rfl
termination_by (budget, (h.bus.listeners c).length - i)

/-- Serving several channels is a round. -/
theorem exists_round_serveAll (budget : Nat) (p : Payload) (cs : List Channel) (ht : h.Tame)
    (hbudget : h.uncalled.length ≤ budget) :
    ∃ calls, serveAll budget p cs h = (h.answerAll p calls, none) ∧ Scripted p h calls ∧
      Round ⟨cs, 0, h.bus⟩ calls ⟨[], 0, (h.answerAll p calls).bus⟩ := by
  induction cs generalizing h with
  | nil =>
    refine ⟨[], ?_, trivial, .stay _⟩
    rw [serveAll]
    rfl
  | cons c cs ih =>
    obtain ⟨calls, hserve, hscripted, hround⟩ := exists_round_serve budget p c 0 h ht hbudget
    obtain ⟨calls', hserve', hscripted', hround'⟩ := ih (ht.answerAll p calls)
      (Nat.le_trans (uncalled_answerAll_le h p calls) hbudget)
    refine ⟨calls ++ calls', ?_, hscripted.append hscripted', ?_⟩
    · rw [serveAll, hserve]
      dsimp only
      rw [hserve', answerAll_append]
    · rw [answerAll_append]
      exact (hround cs).trans hround'

/-- Whatever listeners change in a round, a subscription that is there when it begins is called for
once, or it ends before its turn, or it is skipped where an earlier one ended, and then it is never
called for. On a hub whose listeners change subscriptions and throw nothing, an announcement is a
round that comes to its end. -/
theorem emit_accounted {η : Type} [DecidableEq η] (p : Payload) :
    (∀ (b : Bus η) (calls : List (Call η)) (t : Service η),
      Round ⟨p.channels, 0, b⟩ calls t →
        ∀ c ∈ p.channels, ∀ k < (b.listeners c).length, Accounted b calls t c k) ∧
    ∀ h : Hub, h.Tame → ∃ calls,
      h.emit p = (h.answerAll p calls, none) ∧ Scripted p h calls ∧
        Round ⟨p.channels, 0, h.bus⟩ calls ⟨[], 0, (h.emit p).1.bus⟩ ∧
        (h.emit p).1.delivered = h.delivered ++ deliveries p calls := by
  have hchannels : p.channels.Nodup := by simp [Payload.channels]
  refine ⟨fun b calls t hround c hc k hk => hround.accounted hchannels hc hk, fun h ht => ?_⟩
  obtain ⟨calls, hserve, hscripted, hround⟩ :=
    exists_round_serveAll h.uncalled.length p p.channels ht (Nat.le_refl _)
  have hemit : h.emit p = (h.answerAll p calls, none) := by rw [emit, take, step, hserve]
  refine ⟨calls, hemit, hscripted, ?_, ?_⟩
  · rw [hemit]
    exact hround
  · rw [hemit]
    exact delivered_answerAll h p calls

/-- A hub with two listeners, of which the first leaves when it is called. -/
def leavingHub : Hub :=
  { ofScripts (.ofList [("a", { once := [.unsubscribe .all (.named "a")] }), ("b", {})]) with
    bus := (Bus.subscribe {} .all (.named "a")).subscribe .all (.named "b") }

/-- An announcement to it. -/
def greeting : Payload :=
  .info .log .read "m"

theorem tame_leavingHub : leavingHub.Tame := by
  intro l
  cases l with
  | problems | log => exact ⟨rfl, [], rfl⟩
  | named name =>
    have hscript : leavingHub.script (.named name) =
        if name = "b" then {}
        else if name = "a" then { once := [.unsubscribe .all (.named "a")] }
        else {} := by
      simp only [script, leavingHub, ofScripts, Table.ofList, Table.insertAll, List.foldl_cons,
        List.foldl_nil, Table.get?_insert, Table.get?_empty]
      split
      · rfl
      · split <;> rfl
    rw [hscript]
    split
    · exact ⟨rfl, [], rfl⟩
    · split
      · exact ⟨rfl, [.unsubscribe .all (.named "a")], rfl⟩
      · exact ⟨rfl, [], rfl⟩

/-- The second listener is accounted for in the round of an announcement. -/
theorem emit_accounted_leaving :
    leavingHub.Tame ∧ Channel.all ∈ greeting.channels ∧
      1 < (leavingHub.bus.listeners .all).length ∧
      ∃ calls t, Round ⟨greeting.channels, 0, leavingHub.bus⟩ calls t ∧ t.channels = [] ∧
        Accounted leavingHub.bus calls t .all 1 ∧
        (leavingHub.emit greeting).1.delivered = deliveries greeting calls := by
  have hall : Channel.all ∈ greeting.channels := by decide
  have hplace : 1 < (leavingHub.bus.listeners .all).length := by decide
  obtain ⟨haccounted, hemit⟩ := @emit_accounted Listener _ greeting
  obtain ⟨calls, -, -, hround, hdelivered⟩ := hemit leavingHub tame_leavingHub
  exact ⟨tame_leavingHub, hall, hplace, calls, _, hround, rfl,
    haccounted _ calls _ hround .all hall 1 hplace, hdelivered⟩

/-- The second listener is subscribed before and after the announcement and is given nothing: the
first one leaves when it is called, and the second one slips into its place. -/
theorem skipped_of_leaving :
    leavingHub.bus.listeners .all = [.named "a", .named "b"] ∧
      leavingHub.script (.named "a") = { once := [.unsubscribe .all (.named "a")] } ∧
      leavingHub.script (.named "b") = {} ∧
      (leavingHub.emit greeting).2 = none ∧
      (leavingHub.emit greeting).1.bus.listeners .all = [.named "b"] ∧
      (leavingHub.emit greeting).1.delivered = [("a", greeting)] ∧
      fate? .all 1 leavingHub.bus
        [⟨.all, 0, .named "a", [.unsubscribe .all (.named "a")]⟩] = some .skipped := by
  have honce : (leavingHub.script (.named "a")).once =
      [Change.unsubscribe .all (.named "a")].map Change.step := rfl
  have hserve : serve 2 greeting .all 0 leavingHub = (leavingHub.answer greeting
      ⟨.all, 0, .named "a", [.unsubscribe .all (.named "a")]⟩, none) := by
    rw [serve_of_fresh 1 greeting rfl (by decide) rfl honce]
    exact serve_of_end 1 greeting rfl
  have hemit : leavingHub.emit greeting = (leavingHub.answer greeting
      ⟨.all, 0, .named "a", [.unsubscribe .all (.named "a")]⟩, none) := by
    have hlevel : serve 2 greeting (.level .info) 0 leavingHub = (leavingHub, none) :=
      serve_of_end 2 greeting rfl
    have htopic : serve 2 greeting (.topic .log) 0 leavingHub = (leavingHub, none) :=
      serve_of_end 2 greeting rfl
    have hchannels : greeting.channels = [.level .info, .topic .log, .all] := rfl
    have hbudget : leavingHub.uncalled.length = 2 := by decide
    rw [emit, take, step, hbudget, hchannels, serveAll, hlevel]
    dsimp only
    rw [serveAll, htopic]
    dsimp only
    rw [serveAll, hserve]
    dsimp only
    rw [serveAll]
  rw [hemit]
  exact ⟨rfl, rfl, rfl, rfl, rfl, rfl, rfl⟩

end Hub

end UmlDraft.Event
