import UmlDraft.Proofs.Event.Scripted

/-!
# Listeners that leave the subscriptions alone

Where no listener changes the subscriptions, a round calls for what the channels hold when it
begins, in order, and there is no other way for it to go. A listener may throw all the same; then
the announcement stops with it. Main statement: on a hub whose listeners take no steps, an
announcement calls the subscribed listeners up to and including the first that throws.
-/

namespace UmlDraft.Event

/-! ### Stopping at what is thrown -/

section Throwing

variable {α β : Type} {throws : α → Option String} {message : String} {xs ys : List α}

/-- The elements of a list up to and including the first for which something is thrown. -/
def upToThrow (throws : α → Option String) : List α → List α
  | [] => []
  | x :: xs =>
    match throws x with
    | none => x :: upToThrow throws xs
    | some _ => [x]

theorem upToThrow_prefix_self (throws : α → Option String) (xs : List α) :
    upToThrow throws xs <+: xs := by
  induction xs with
  | nil => exact List.prefix_rfl
  | cons x xs ih =>
    rw [upToThrow]
    split
    · exact List.cons_prefix_cons.mpr ⟨rfl, ih⟩
    · exact List.cons_prefix_cons.mpr ⟨rfl, List.nil_prefix⟩

theorem upToThrow_append_of_none (h : xs.findSome? throws = none) (ys : List α) :
    upToThrow throws (xs ++ ys) = xs ++ upToThrow throws ys := by
  induction xs with
  | nil => rfl
  | cons x xs ih =>
    rw [List.findSome?_cons] at h
    split at h
    · cases h
    · next hx =>
      rw [List.cons_append, upToThrow, hx]
      exact congrArg _ (ih h)

theorem upToThrow_eq_self (h : xs.findSome? throws = none) : upToThrow throws xs = xs := by
  have happend := upToThrow_append_of_none h []
  rwa [List.append_nil, upToThrow, List.append_nil] at happend

theorem upToThrow_append_of_some (h : xs.findSome? throws = some message) (ys : List α) :
    upToThrow throws (xs ++ ys) = upToThrow throws xs := by
  induction xs with
  | nil => cases h
  | cons x xs ih =>
    rw [List.cons_append, upToThrow, upToThrow]
    split
    · next hx =>
      rw [List.findSome?_cons, hx] at h
      exact congrArg _ (ih h)
    · rfl

theorem upToThrow_ne_nil (h : xs.findSome? throws = some message) :
    upToThrow throws xs ≠ [] := by
  cases xs with
  | nil => cases h
  | cons x xs =>
    rw [upToThrow]
    split
    · exact List.cons_ne_nil _ _
    · exact List.cons_ne_nil _ _

theorem map_upToThrow (f : β → α) (xs : List β) :
    (upToThrow (throws ∘ f) xs).map f = upToThrow throws (xs.map f) := by
  induction xs with
  | nil => rfl
  | cons x xs ih =>
    rw [upToThrow, List.map_cons, upToThrow, Function.comp_apply]
    split
    · rw [List.map_cons, ih]
    · rfl

end Throwing

/-! ### Quiet rounds -/

section Rounds

variable {η : Type}

/-- Whether calls leave the subscriptions alone. -/
def Quiet (calls : List (Call η)) : Prop :=
  ∀ a ∈ calls, a.changes = []

namespace Bus

/-- The calls for the subscriptions of a channel. -/
def callsOn (b : Bus η) (c : Channel) : List (Call η) :=
  (b.listeners c).mapIdx fun i l => ⟨c, i, l, []⟩

/-- The calls for the subscriptions of several channels, one after the other. -/
def calls (b : Bus η) (cs : List Channel) : List (Call η) :=
  cs.flatMap b.callsOn

variable {b : Bus η} {c : Channel} {i : Nat} {l : η}

theorem map_listener_calls (b : Bus η) (cs : List Channel) :
    (b.calls cs).map Call.listener = cs.flatMap b.listeners := by
  rw [calls, List.map_flatMap]
  refine congrArg (List.flatMap · cs) (funext fun c => List.ext_getElem? fun i => ?_)
  rw [callsOn, List.getElem?_map, List.getElem?_mapIdx, Option.map_map]
  exact congrFun Option.map_id _

theorem quiet_calls (b : Bus η) (cs : List Channel) : Quiet (b.calls cs) := by
  intro a ha
  obtain ⟨c, -, hc⟩ := List.mem_flatMap.mp ha
  obtain ⟨i, hi, rfl⟩ := List.mem_mapIdx.mp hc
  rfl

theorem quiet_upToThrow (b : Bus η) (cs : List Channel) (throws : Call η → Option String) :
    Quiet (upToThrow throws (b.calls cs)) :=
  fun a ha => b.quiet_calls cs a ((upToThrow_prefix_self throws _).subset ha)

theorem drop_callsOn_of_none (h : (b.listeners c)[i]? = none) : (b.callsOn c).drop i = [] := by
  refine List.drop_eq_nil_of_le ?_
  rw [callsOn, List.length_mapIdx]
  exact List.getElem?_eq_none_iff.mp h

theorem drop_callsOn_of_some (h : (b.listeners c)[i]? = some l) :
    (b.callsOn c).drop i = ⟨c, i, l, []⟩ :: (b.callsOn c).drop (i + 1) := by
  rw [List.drop_eq_getElem?_toList_append, callsOn, List.getElem?_mapIdx, h]
  rfl

end Bus

variable [DecidableEq η] {b b' : Bus η} {s t : Service η} {calls as bs : List (Call η)}
  {cs : List Channel} {p : Payload} {thrown : Option String}

theorem round_callsOn (b : Bus η) (c : Channel) (cs : List Channel) (i : Nat) :
    Round ⟨c :: cs, i, b⟩ ((b.callsOn c).drop i) ⟨cs, 0, b⟩ := by
  cases hl : (b.listeners c)[i]? with
  | none =>
    rw [Bus.drop_callsOn_of_none hl]
    exact .next hl (.stay _)
  | some l =>
    have hlt := (List.getElem?_eq_some_iff.mp hl).1
    rw [Bus.drop_callsOn_of_some hl]
    exact .call hl [] (round_callsOn b c cs (i + 1))
termination_by (b.listeners c).length - i

/-- The calls for all subscriptions make up a round. -/
theorem round_calls (b : Bus η) (cs : List Channel) :
    Round ⟨cs, 0, b⟩ (b.calls cs) ⟨[], 0, b⟩ := by
  induction cs with
  | nil => exact .stay _
  | cons c cs ih => exact (round_callsOn b c cs 0).trans ih

/-- A round may be left after any of its calls. -/
theorem Round.exists_start (h : Round s (as ++ bs) t) : ∃ u, Round s as u := by
  generalize hcalls : as ++ bs = calls at h
  induction h generalizing as with
  | stay s =>
    rw [(List.append_eq_nil_iff.mp hcalls).1]
    exact ⟨s, .stay s⟩
  | next hend _ ih =>
    obtain ⟨u, hu⟩ := ih hcalls
    exact ⟨u, .next hend hu⟩
  | call hl chs _ ih =>
    cases as with
    | nil => exact ⟨_, .stay _⟩
    | cons a as =>
      obtain ⟨rfl, hrest⟩ := List.cons.inj hcalls
      obtain ⟨u, hu⟩ := ih hrest
      exact ⟨u, .call hl chs hu⟩

theorem Round.bus_eq (h : Round s calls t) (hquiet : Quiet calls) : t.bus = s.bus := by
  induction h with
  | stay => rfl
  | next _ _ ih => exact ih hquiet
  | call hl chs _ ih =>
    obtain ⟨rfl, hrest⟩ := List.forall_mem_cons.mp hquiet
    exact ih hrest

/-- A quiet round calls for the subscriptions that there are, however far it gets. -/
theorem Round.prefix_calls (h : Round ⟨cs, 0, b⟩ calls t) (hquiet : Quiet calls) :
    calls <+: b.calls cs := by
  refine (round_calls b cs).prefix_of_agree rfl h fun as a a' bs bs' heq heq' _ => ?_
  rw [b.quiet_calls cs a (heq ▸ List.mem_append_right as List.mem_cons_self),
    hquiet a' (heq' ▸ List.mem_append_right as List.mem_cons_self)]

/-- A quiet round that comes to its end calls for all of them. -/
theorem Round.calls_eq (h : Round ⟨cs, 0, b⟩ calls t) (hquiet : Quiet calls)
    (hend : t.channels = []) : calls = b.calls cs := by
  have hstart := h.prefix_calls hquiet
  refine hstart.eq_of_length (Nat.le_antisymm hstart.length_le ?_)
  refine (h.prefix_of_agree hend (round_calls b cs) fun as a a' bs bs' heq heq' _ => ?_).length_le
  rw [hquiet a (heq ▸ List.mem_append_right as List.mem_cons_self),
    b.quiet_calls cs a' (heq' ▸ List.mem_append_right as List.mem_cons_self)]

/-- An announcement comes to its end, or what the last listener throws stops it. -/
inductive Emission (b : Bus η) (p : Payload) :
    List (Call η) → Option String → Bus η → Prop where
  /-- Nothing is thrown. -/
  | ended {calls : List (Call η)} {b' : Bus η}
    (hround : Round ⟨p.channels, 0, b⟩ calls ⟨[], 0, b'⟩) : Emission b p calls none b'
  /-- The listener that is called last throws. -/
  | stopped {calls : List (Call η)} {a : Call η} {message : String} {t : Service η}
    (hround : Round ⟨p.channels, 0, b⟩ (calls ++ [a]) t) :
    Emission b p (calls ++ [a]) (some message) t.bus

theorem Emission.bus_eq (h : Emission b p calls thrown b') (hquiet : Quiet calls) : b' = b := by
  cases h with
  | ended hround | stopped hround => exact hround.bus_eq hquiet

/-- An announcement may stop at whatever is thrown first. -/
theorem emission_upToThrow (b : Bus η) (p : Payload) (throws : Call η → Option String) :
    Emission b p (upToThrow throws (b.calls p.channels))
      ((b.calls p.channels).findSome? throws) b := by
  have hround := round_calls b p.channels
  cases hthrown : (b.calls p.channels).findSome? throws with
  | none =>
    rw [upToThrow_eq_self hthrown]
    exact .ended hround
  | some message =>
    obtain ⟨rest, hrest⟩ := upToThrow_prefix_self throws (b.calls p.channels)
    rw [← hrest] at hround
    obtain ⟨t, ht⟩ := hround.exists_start
    have hbus : t.bus = b := ht.bus_eq (b.quiet_upToThrow p.channels throws)
    obtain ⟨calls, a, hlast⟩ :=
      (List.eq_nil_or_concat _).resolve_left (upToThrow_ne_nil hthrown)
    rw [hlast, List.concat_eq_append] at ht ⊢
    have hstopped : Emission b p (calls ++ [a]) (some message) t.bus := .stopped ht
    rwa [hbus] at hstopped

end Rounds

/-! ### Hubs whose listeners take no steps -/

namespace Hub

variable {h : Hub} {c : Channel} {i : Nat} {l : Listener}

/-- What a listener throws. -/
def throws (h : Hub) (l : Listener) : Option String :=
  (h.script l).throws

/-- Whether the listeners of a hub take no steps. They may throw. -/
def Aloof (h : Hub) : Prop :=
  ∀ l, (h.script l).once = []

theorem throws_answer (h : Hub) (p : Payload) (a : Call Listener) :
    (h.answer p a).throws = h.throws :=
  funext fun l => congrArg Script.throws (script_answer h p a l)

theorem Aloof.answer (ha : h.Aloof) (p : Payload) (a : Call Listener) : (h.answer p a).Aloof :=
  fun l => (congrArg Script.once (script_answer h p a l)).trans (ha l)

theorem throws_answerAll (h : Hub) (p : Payload) (calls : List (Call Listener)) :
    (h.answerAll p calls).throws = h.throws :=
  funext fun l => congrArg Script.throws (script_answerAll h p calls l)

theorem Aloof.answerAll (ha : h.Aloof) (p : Payload) (calls : List (Call Listener)) :
    (h.answerAll p calls).Aloof :=
  fun l => (congrArg Script.once (script_answerAll h p calls l)).trans (ha l)

theorem bus_answerAll_of_quiet (h : Hub) (p : Payload) {calls : List (Call Listener)}
    (hquiet : Quiet calls) : (h.answerAll p calls).bus = h.bus := by
  induction calls generalizing h with
  | nil => rfl
  | cons a calls ih =>
    obtain ⟨hchanges, hquiet⟩ := List.forall_mem_cons.mp hquiet
    refine (ih (h.answer p a) hquiet).trans ?_
    rw [Hub.answer, hchanges]
    rfl

/-- A listener that takes no steps stops the delivery if it throws, and leaves it to those behind it
otherwise. -/
theorem exists_serve_eq {budget : Nat} (hbudget : h.uncalled.length ≤ budget) (p : Payload)
    (hl : (h.bus.listeners c)[i]? = some l) (honce : (h.script l).once = []) :
    ∃ budget', (h.answer p ⟨c, i, l, []⟩).uncalled.length ≤ budget' ∧
      serve budget p c i h =
        match h.throws l with
        | some message => (h.answer p ⟨c, i, l, []⟩, some message)
        | none => serve budget' p c (i + 1) (h.answer p ⟨c, i, l, []⟩) := by
  cases hfresh : h.isFresh l with
  | true =>
    have hless := uncalled_answer_lt (a := ⟨c, i, l, []⟩) p hfresh
    cases budget with
    | zero => omega
    | succ budget => exact ⟨budget, by omega, serve_eq_of_fresh budget p hl hfresh honce⟩
  | false =>
    exact ⟨budget, Nat.le_trans (uncalled_answer_le h p _) hbudget,
      serve_eq_of_not_fresh budget p hl hfresh⟩

/-- From a place on, the listeners of a channel are called up to the first that throws. -/
theorem serve_of_aloof {h : Hub} (ha : h.Aloof) (budget : Nat)
    (hbudget : h.uncalled.length ≤ budget) (p : Payload) (c : Channel) (i : Nat) :
    serve budget p c i h =
      (h.answerAll p (upToThrow (h.throws ∘ Call.listener) ((h.bus.callsOn c).drop i)),
        ((h.bus.callsOn c).drop i).findSome? (h.throws ∘ Call.listener)) := by
  cases hl : (h.bus.listeners c)[i]? with
  | none =>
    rw [Bus.drop_callsOn_of_none hl, serve_of_end budget p hl]
    rfl
  | some l =>
    have hleft : ((h.answer p ⟨c, i, l, []⟩).bus.listeners c).length - (i + 1) <
        (h.bus.listeners c).length - i := by
      have hlt := (List.getElem?_eq_some_iff.mp hl).1
      change (h.bus.listeners c).length - (i + 1) < _
      omega
    obtain ⟨budget', hbudget', hserve⟩ := exists_serve_eq hbudget p hl (ha l)
    rw [Bus.drop_callsOn_of_some hl, hserve, upToThrow, List.findSome?_cons]
    dsimp only [Function.comp_apply]
    cases h.throws l with
    | some message => rfl
    | none =>
      have hrest := serve_of_aloof (ha.answer p ⟨c, i, l, []⟩) budget' hbudget' p c (i + 1)
      rw [throws_answer] at hrest
      exact hrest
termination_by (h.bus.listeners c).length - i

theorem serveAll_of_aloof (ha : h.Aloof) {budget : Nat} (hbudget : h.uncalled.length ≤ budget)
    (p : Payload) (cs : List Channel) :
    serveAll budget p cs h =
      (h.answerAll p (upToThrow (h.throws ∘ Call.listener) (h.bus.calls cs)),
        (h.bus.calls cs).findSome? (h.throws ∘ Call.listener)) := by
  induction cs generalizing h with
  | nil =>
    rw [serveAll]
    rfl
  | cons c cs ih =>
    have hsplit : h.bus.calls (c :: cs) = h.bus.callsOn c ++ h.bus.calls cs := List.flatMap_cons
    rw [serveAll, serve_of_aloof ha budget hbudget, List.drop_zero, hsplit, List.findSome?_append]
    cases hfirst : (h.bus.callsOn c).findSome? (h.throws ∘ Call.listener) with
    | some message =>
      rw [upToThrow_append_of_some hfirst]
      rfl
    | none =>
      have hquiet : Quiet (h.bus.callsOn c) := fun a hac =>
        h.bus.quiet_calls [c] a (List.mem_flatMap.mpr ⟨c, List.mem_singleton_self c, hac⟩)
      have hrest := ih (ha.answerAll p (h.bus.callsOn c))
        (Nat.le_trans (uncalled_answerAll_le h p _) hbudget)
      rw [throws_answerAll, bus_answerAll_of_quiet h p hquiet, ← answerAll_append] at hrest
      rw [upToThrow_eq_self hfirst, upToThrow_append_of_none hfirst]
      exact hrest

/-- On a hub whose listeners take no steps, an announcement calls the subscribed listeners up to and
including the first that throws. -/
theorem emit_of_aloof (ha : h.Aloof) (p : Payload) :
    h.emit p =
      (h.answerAll p (upToThrow (h.throws ∘ Call.listener) (h.bus.calls p.channels)),
        (h.bus.calls p.channels).findSome? (h.throws ∘ Call.listener)) := by
  rw [emit, take, step, serveAll_of_aloof ha (Nat.le_refl _)]

end Hub

end UmlDraft.Event
