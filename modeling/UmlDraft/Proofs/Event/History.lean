import Mathlib.Data.List.Induction
import UmlDraft.Proofs.Event.Quiet
import UmlDraft.Proofs.Table

/-!
# Histories of a bus

What a new bus has been through is a list of deeds: changes of the subscriptions, and announcements,
some of which were stopped by what a listener threw. The list of a channel follows from the changes
of this channel alone, and an announcement calls what the lists of its channels hold at the time.
Nothing else in the history matters, an announcement that was stopped as little as any other. Main
statement: this holds whatever the listeners do, as long as they leave the subscriptions alone, and
on a hub the listeners are called up to and including the first that throws.
-/

namespace UmlDraft.Event

section Bus

variable {η : Type}

/-- The channel that is changed. -/
def Change.channel : Change η → Channel
  | .subscribe c _ => c
  | .unsubscribe c _ => c

/-- What happens to a bus. -/
inductive Deed (η : Type) where
  /-- The subscriptions are changed. -/
  | change (ch : Change η)
  /-- Something is announced; listeners are called, and the last of them may throw. -/
  | emission (p : Payload) (calls : List (Call η)) (thrown : Option String)

/-- The change that is made, if one is. -/
def Deed.change? : Deed η → Option (Change η)
  | .change ch => some ch
  | .emission _ _ _ => none

/-- The changes among what happens. -/
def changes (ds : List (Deed η)) : List (Change η) :=
  ds.filterMap Deed.change?

variable [DecidableEq η]

/-- The list of a channel after it is changed. Who subscribes is added at the end, and who
unsubscribes is removed where it stands first, if it stands there at all. -/
def Change.apply (ls : List η) : Change η → List η
  | .subscribe _ l => ls ++ [l]
  | .unsubscribe _ l => ls.erase l

/-- The subscriptions to a channel that a listener has left after the channel is changed. -/
def Change.countFor (l : η) (n : Nat) : Change η → Nat
  | .subscribe _ l' => if l' = l then n + 1 else n
  | .unsubscribe _ l' => if l' = l then n - 1 else n

/-- The changes of one channel. -/
def changesOf (chs : List (Change η)) (c : Channel) : List (Change η) :=
  chs.filter fun ch => c = ch.channel

/-- The list that the changes of a channel make up. Those of other channels do not count. -/
def subscribers (chs : List (Change η)) (c : Channel) : List η :=
  (changesOf chs c).foldl Change.apply []

/-- The subscriptions that the changes of a channel leave to a listener. -/
def remaining (chs : List (Change η)) (c : Channel) (l : η) : Nat :=
  (changesOf chs c).foldl (Change.countFor l) 0

/-- What a new bus has been through. -/
inductive History : List (Deed η) → Bus η → Prop where
  /-- Nothing. -/
  | new : History [] {}
  /-- At last, the subscriptions were changed. -/
  | change {ds : List (Deed η)} {b : Bus η} (h : History ds b) (ch : Change η) :
    History (ds ++ [.change ch]) (b.change ch)
  /-- At last, something was announced to listeners that left the subscriptions alone. -/
  | emission {ds : List (Deed η)} {b b' : Bus η} {p : Payload} {calls : List (Call η)}
    {thrown : Option String} (h : History ds b) (hemission : Emission b p calls thrown b')
    (hquiet : Quiet calls) : History (ds ++ [.emission p calls thrown]) b'

/-- An announcement calls what the lists of its channels hold after some changes. -/
structure Delivered (chs : List (Change η)) (p : Payload) (calls : List (Call η))
    (thrown : Option String) : Prop where
  /-- The listeners are called in the order of the lists. -/
  inOrder : calls.map Call.listener <+: p.channels.flatMap (subscribers chs)
  /-- If nothing is thrown, all of them are called. -/
  complete : thrown = none → calls.map Call.listener = p.channels.flatMap (subscribers chs)
  /-- Then a listener is called for each subscription that it has left. -/
  times : thrown = none → ∀ l, (calls.map Call.listener).count l =
    remaining chs (.level p.level) l + (remaining chs (.topic p.topic) l + remaining chs .all l)
  /-- Otherwise there is a listener that throws, and it is called last. -/
  stopped : thrown ≠ none → calls ≠ []

variable {ds : List (Deed η)} {b b' : Bus η} {chs : List (Change η)} {p : Payload}
  {calls : List (Call η)} {thrown : Option String}

omit [DecidableEq η] in
theorem changesOf_concat (chs : List (Change η)) (ch : Change η) (c : Channel) :
    changesOf (chs ++ [ch]) c =
      if c = ch.channel then changesOf chs c ++ [ch] else changesOf chs c := by
  rw [changesOf, List.filter_append, ← changesOf]
  split
  · next hc => rw [List.filter_cons_of_pos (by simpa using hc), List.filter_nil]
  · next hc =>
    rw [List.filter_cons_of_neg (by simpa using hc), List.filter_nil, List.append_nil]

theorem subscribers_concat (chs : List (Change η)) (ch : Change η) (c : Channel) :
    subscribers (chs ++ [ch]) c =
      if c = ch.channel then ch.apply (subscribers chs c) else subscribers chs c := by
  rw [subscribers, changesOf_concat]
  split
  · rw [List.foldl_append]
    rfl
  · rfl

theorem remaining_concat (chs : List (Change η)) (ch : Change η) (c : Channel) (l : η) :
    remaining (chs ++ [ch]) c l =
      if c = ch.channel then ch.countFor l (remaining chs c l) else remaining chs c l := by
  rw [remaining, changesOf_concat]
  split
  · rw [List.foldl_append]
    rfl
  · rfl

theorem count_apply (l : η) (ls : List η) (ch : Change η) :
    (ch.apply ls).count l = ch.countFor l (ls.count l) := by
  cases ch with
  | subscribe c l' =>
    rw [Change.apply, Change.countFor, List.count_append, List.count_singleton]
    split <;> simp_all
  | unsubscribe c l' =>
    rw [Change.apply, Change.countFor, List.count_erase]
    split <;> simp_all

/-- A listener stands in the list of a channel as often as it has subscriptions left. -/
theorem count_subscribers (chs : List (Change η)) (c : Channel) (l : η) :
    (subscribers chs c).count l = remaining chs c l := by
  induction chs using List.reverseRecOn with
  | nil => rfl
  | append_singleton chs ch ih =>
    rw [subscribers_concat, remaining_concat]
    split
    · rw [count_apply, ih]
    · exact ih

theorem Bus.listeners_change (b : Bus η) (ch : Change η) (c : Channel) :
    (b.change ch).listeners c =
      if c = ch.channel then ch.apply (b.listeners c) else b.listeners c := by
  cases ch with
  | subscribe d l =>
    rw [Bus.change, Bus.listeners_subscribe]
    by_cases hc : c = d
    · subst hc
      rw [if_pos rfl]
      exact (if_pos rfl).symm
    · rw [if_neg hc]
      exact (if_neg hc).symm
  | unsubscribe d l =>
    rw [Bus.change, Bus.listeners_unsubscribe]
    by_cases hc : c = d
    · subst hc
      rw [if_pos rfl]
      exact (if_pos rfl).symm
    · rw [if_neg hc]
      exact (if_neg hc).symm

theorem Bus.changeAll_concat (b : Bus η) (chs : List (Change η)) (ch : Change η) :
    b.changeAll (chs ++ [ch]) = (b.changeAll chs).change ch :=
  List.foldl_append

/-- The list of a channel follows from the changes of this channel. -/
theorem listeners_changeAll (chs : List (Change η)) (c : Channel) :
    (({} : Bus η).changeAll chs).listeners c = subscribers chs c := by
  induction chs using List.reverseRecOn with
  | nil => rfl
  | append_singleton chs ch ih =>
    rw [Bus.changeAll_concat, Bus.listeners_change, subscribers_concat, ih]

/-- The subscriptions are those that the changes leave. -/
theorem History.bus_eq (h : History ds b) : b = ({} : Bus η).changeAll (changes ds) := by
  induction h with
  | new => rfl
  | change h ch ih =>
    rw [changes, List.filterMap_append, ← changes, ih]
    exact (Bus.changeAll_concat _ _ _).symm
  | emission h hemission hquiet ih =>
    rw [changes, List.filterMap_append, ← changes, hemission.bus_eq hquiet, ih]
    exact congrArg _ (List.append_nil _).symm

theorem History.listeners_eq (h : History ds b) (c : Channel) :
    b.listeners c = subscribers (changes ds) c := by
  rw [h.bus_eq, listeners_changeAll]

/-- An announcement on a bus with a history calls what the history says. -/
theorem History.delivered (h : History ds b) (hemission : Emission b p calls thrown b')
    (hquiet : Quiet calls) : Delivered (changes ds) p calls thrown := by
  have hlists : (b.calls p.channels).map Call.listener =
      p.channels.flatMap (subscribers (changes ds)) := by
    rw [Bus.map_listener_calls]
    exact congrArg (List.flatMap · p.channels) (funext h.listeners_eq)
  cases hemission with
  | ended hround =>
    have hall := hround.calls_eq hquiet rfl
    have hcomplete : calls.map Call.listener = p.channels.flatMap (subscribers (changes ds)) := by
      rw [hall, hlists]
    refine ⟨hcomplete ▸ List.prefix_rfl, fun _ => hcomplete, fun _ l => ?_,
      fun hne => absurd rfl hne⟩
    rw [hcomplete, Payload.channels, List.flatMap_cons, List.flatMap_cons, List.flatMap_singleton,
      List.count_append, List.count_append]
    simp only [count_subscribers]
  | stopped hround =>
    refine ⟨?_, fun hnone => (Option.some_ne_none _ hnone).elim,
      fun hnone => (Option.some_ne_none _ hnone).elim,
      fun _ => List.append_ne_nil_of_right_ne_nil _ (List.cons_ne_nil _ _)⟩
    rw [← hlists]
    exact (hround.prefix_calls hquiet).map Call.listener

/-- An entry of a list to which one more is added is that one, or it was there before. -/
theorem eq_or_exists_of_concat {α : Type} {xs before after : List α} {x y : α}
    (h : xs ++ [x] = before ++ y :: after) :
    (before = xs ∧ y = x) ∨ ∃ rest, xs = before ++ y :: rest := by
  rcases List.eq_nil_or_concat after with rfl | ⟨rest, z, rfl⟩
  · obtain ⟨hbefore, hlast⟩ := List.append_inj' h rfl
    exact .inl ⟨hbefore.symm, (List.singleton_inj.mp hlast).symm⟩
  · rw [List.concat_eq_append, ← List.cons_append, ← List.append_assoc] at h
    exact .inr ⟨rest, (List.append_inj' h rfl).1⟩

/-- Each announcement in a history was made on a bus that the history before it had left. -/
theorem History.exists_emission (h : History ds b) {before after : List (Deed η)}
    (heq : ds = before ++ .emission p calls thrown :: after) :
    ∃ b₁ b₂, History before b₁ ∧ Emission b₁ p calls thrown b₂ ∧ Quiet calls := by
  induction h generalizing after with
  | new => simp at heq
  | change _ ch ih =>
    rcases eq_or_exists_of_concat heq with ⟨-, hlast⟩ | ⟨rest, hrest⟩
    · cases hlast
    · exact ih hrest
  | @emission ds b b' q calls' thrown' h hemission hquiet ih =>
    rcases eq_or_exists_of_concat heq with ⟨rfl, hlast⟩ | ⟨rest, hrest⟩
    · cases hlast
      exact ⟨b, b', h, hemission, hquiet⟩
    · exact ih hrest

end Bus

/-- The change that a step makes of itself. -/
def Step.change? : Step → Option (Change Listener)
  | .subscribe c l => some (.subscribe c l)
  | .unsubscribe c l => some (.unsubscribe c l)
  | .emit _ => none

namespace Hub

variable {h : Hub}

/-- Takes several steps. What is thrown ends the step that it comes from and nothing else. -/
def takeEach (h : Hub) (ss : List Step) : Hub :=
  ss.foldl (fun h s => (h.take s).1) h

/-- Listeners whose scripts have no steps take none. -/
theorem aloof_ofScripts {scripts : Table String Script} (h : ∀ s ∈ scripts.values, s.once = []) :
    (ofScripts scripts).Aloof := by
  intro l
  cases l with
  | problems | log => rfl
  | named name =>
    change ((scripts.get? name).getD {}).once = []
    cases hscript : scripts.get? name with
    | none => rfl
    | some s => exact h s (Table.mem_values_of_get? hscript)

/-- On a hub whose listeners take no steps, a step makes its own change and no other. -/
theorem bus_take_of_aloof (ha : h.Aloof) (s : Step) :
    (h.take s).1.bus = h.bus.changeAll s.change?.toList := by
  cases s with
  | subscribe | unsubscribe =>
    rw [take, step]
    rfl
  | emit p =>
    change (h.emit p).1.bus = h.bus
    rw [emit_of_aloof ha]
    exact bus_answerAll_of_quiet h p (h.bus.quiet_upToThrow _ _)

/-- It leaves the listeners as they are. -/
theorem script_take_of_aloof (ha : h.Aloof) (s : Step) (l : Listener) :
    (h.take s).1.script l = h.script l := by
  cases s with
  | subscribe | unsubscribe =>
    rw [take, step]
    rfl
  | emit p =>
    change (h.emit p).1.script l = _
    rw [emit_of_aloof ha]
    exact script_answerAll h p _ l

theorem script_takeEach_of_aloof (ha : h.Aloof) (ss : List Step) (l : Listener) :
    (h.takeEach ss).script l = h.script l := by
  induction ss generalizing h with
  | nil => rfl
  | cons s ss ih =>
    have hnext : (h.take s).1.Aloof := fun l => by rw [script_take_of_aloof ha, ha]
    exact (ih hnext).trans (script_take_of_aloof ha s l)

theorem bus_takeEach_of_aloof (ha : h.Aloof) (ss : List Step) :
    (h.takeEach ss).bus = h.bus.changeAll (ss.filterMap Step.change?) := by
  induction ss generalizing h with
  | nil => rfl
  | cons s ss ih =>
    have hnext : (h.take s).1.Aloof := fun l => by rw [script_take_of_aloof ha, ha]
    refine (ih hnext).trans ?_
    rw [bus_take_of_aloof ha, List.filterMap_cons]
    cases s <;> rfl

end Hub

/-- Whatever listeners do that leave the subscriptions alone, each announcement in the history of a
bus calls what the changes before it have left in the lists of its channels, up to and including a
listener that throws. On a hub whose listeners take no steps it throws to whoever announces what is
thrown first, and all the subscriptions are as before. -/
theorem history_delivered {η : Type} [DecidableEq η] :
    (∀ (ds : List (Deed η)) (b : Bus η), History ds b →
      (∀ c, b.listeners c = subscribers (changes ds) c) ∧
        ∀ before p calls thrown after, ds = before ++ .emission p calls thrown :: after →
          Delivered (changes before) p calls thrown) ∧
    ∀ (scripts : Table String Script) (steps : List Step) (p : Payload),
      (∀ s ∈ scripts.values, s.once = []) →
        let h := (Hub.ofScripts scripts).takeEach steps
        let throws := (Hub.ofScripts scripts).throws
        let ls := p.channels.flatMap (subscribers (steps.filterMap Step.change?))
        (∀ c, h.bus.listeners c = subscribers (steps.filterMap Step.change?) c) ∧
          (h.emit p).1.bus = h.bus ∧ (h.emit p).2 = ls.findSome? throws ∧
          ∃ calls, calls.map Call.listener = upToThrow throws ls ∧ Quiet calls ∧
            Emission h.bus p calls (h.emit p).2 h.bus ∧
            (h.emit p).1.delivered = h.delivered ++ Hub.deliveries p calls := by
  refine ⟨fun ds b hhistory => ⟨hhistory.listeners_eq, ?_⟩, fun scripts steps p hscripts => ?_⟩
  · intro before p calls thrown after heq
    obtain ⟨b₁, b₂, hbefore, hemission, hquiet⟩ := hhistory.exists_emission heq
    exact hbefore.delivered hemission hquiet
  · intro h throws ls
    have hstart := Hub.aloof_ofScripts hscripts
    have haloof : h.Aloof := fun l => by rw [Hub.script_takeEach_of_aloof hstart, hstart]
    have hthrows : h.throws = throws := funext fun l =>
      congrArg Script.throws (Hub.script_takeEach_of_aloof hstart steps l)
    have hlisteners : ∀ c, h.bus.listeners c = subscribers (steps.filterMap Step.change?) c :=
      fun c => by rw [Hub.bus_takeEach_of_aloof hstart, ← listeners_changeAll]; rfl
    have hlists : (h.bus.calls p.channels).map Call.listener = ls := by
      rw [Bus.map_listener_calls]
      exact congrArg (List.flatMap · p.channels) (funext hlisteners)
    have hbus : (h.emit p).1.bus = h.bus := Hub.bus_take_of_aloof haloof (.emit p)
    have hemit := Hub.emit_of_aloof haloof p
    rw [hthrows] at hemit
    refine ⟨hlisteners, hbus, ?_, upToThrow (throws ∘ Call.listener) (h.bus.calls p.channels),
      ?_, ?_, ?_, ?_⟩
    · rw [hemit, ← hlists, List.findSome?_map]
    · rw [map_upToThrow, hlists]
    · exact h.bus.quiet_upToThrow _ _
    · rw [hemit]
      exact emission_upToThrow h.bus p (throws ∘ Call.listener)
    · rw [hemit]
      exact Hub.delivered_answerAll h p _

/-- A history in which the first of two listeners stops an announcement and leaves. -/
def stoppedHistory : List (Deed String) :=
  [.change (.subscribe .all "a"), .change (.subscribe .all "b"),
    .emission Hub.greeting [⟨.all, 0, "a", []⟩] (some "stop"), .change (.unsubscribe .all "a"),
    .emission Hub.greeting [⟨.all, 0, "b", []⟩] none]

theorem history_stoppedHistory :
    History stoppedHistory (({} : Bus String).changeAll (changes stoppedHistory)) := by
  have hsubscribed := (History.new.change (.subscribe .all "a")).change (.subscribe .all "b")
  have hstopped := hsubscribed.emission (emission_upToThrow _ Hub.greeting
    fun a => if a.listener = "a" then some "stop" else none) (Bus.quiet_upToThrow _ _ _)
  have hleft := hstopped.change (.unsubscribe .all "a")
  have hended := hleft.emission (emission_upToThrow _ Hub.greeting fun _ => none)
    (Bus.quiet_upToThrow _ _ _)
  exact hended

/-- Three listeners of which the second one throws. -/
def stoppingScripts : Table String Script :=
  .ofList [("a", {}), ("b", { throws := some "stop" }), ("c", {})]

/-- They subscribe, an announcement is stopped, and the first one leaves. -/
def stoppingSteps : List Step :=
  [.subscribe .all (.named "a"), .subscribe .all (.named "b"),
    .subscribe (.level .info) (.named "c"), .subscribe .all (.named "c"), .emit Hub.greeting,
    .unsubscribe .all (.named "a")]

/-- What an announcement calls after another one was stopped. -/
theorem history_delivered_stopped :
    (∃ b, History stoppedHistory b ∧ b.listeners .all = ["b"] ∧
      Delivered (changes (stoppedHistory.take 2)) Hub.greeting [⟨.all, 0, "a", []⟩]
        (some "stop") ∧
      Delivered (changes (stoppedHistory.take 4)) Hub.greeting [⟨.all, 0, "b", []⟩] none) ∧
    (∀ s ∈ stoppingScripts.values, s.once = []) ∧
      let h := (Hub.ofScripts stoppingScripts).takeEach stoppingSteps
      (h.emit Hub.greeting).1.bus = h.bus ∧ (h.emit Hub.greeting).2 = some "stop" ∧
        ∃ calls, calls.map Call.listener = [.named "c", .named "b"] ∧
          (h.emit Hub.greeting).1.delivered =
            h.delivered ++ Hub.deliveries Hub.greeting calls := by
  have hscripts : ∀ s ∈ stoppingScripts.values, s.once = [] := by
    intro s hs
    have hvalues : stoppingScripts.values = [{}, { throws := some "stop" }, {}] := rfl
    rw [hvalues] at hs
    simp only [List.mem_cons, List.not_mem_nil, or_false] at hs
    rcases hs with rfl | rfl | rfl <;> rfl
  obtain ⟨hgeneral, -⟩ := @history_delivered String _
  obtain ⟨hlists, hemissions⟩ := hgeneral _ _ history_stoppedHistory
  obtain ⟨-, hhub⟩ := @history_delivered Listener _
  obtain ⟨-, hbus, hthrown, calls, hcalls, -, -, hdelivered⟩ :=
    hhub stoppingScripts stoppingSteps Hub.greeting hscripts
  exact ⟨⟨_, history_stoppedHistory, hlists .all, hemissions _ _ _ _ _ rfl,
    hemissions _ _ _ _ _ rfl⟩, hscripts, hbus, hthrown, calls, hcalls, hdelivered⟩

end UmlDraft.Event
