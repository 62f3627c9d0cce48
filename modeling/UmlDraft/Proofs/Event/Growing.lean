import UmlDraft.Proofs.Event.Scripted

/-!
# Subscribing while an announcement is delivered

A listener that is called may subscribe itself and others, to the channel that is being served and
to any other. The list of a channel then only grows, at its end, and the round walks on into what
was added. So it serves a channel as the channel stands when the round leaves it. Main statement: if
listeners do no more than subscribe when they are first called, an announcement comes to its end,
and it calls for each subscription of each channel in order and once.
-/

namespace UmlDraft.Event

variable {η : Type}

/-- A change that adds a subscription. -/
def Change.Adds : Change η → Prop
  | .subscribe _ _ => True
  | .unsubscribe _ _ => False

/-- A call in which the listener does no more than subscribe. -/
def Call.Adds (a : Call η) : Prop :=
  ∀ ch ∈ a.changes, ch.Adds

variable [DecidableEq η]

/-! ### Lists that grow -/

namespace Bus

variable {b : Bus η} {c : Channel} {k : Nat} {ch : Change η} {chs : List (Change η)}

/-- The subscriptions after several calls. -/
def afterCalls (b : Bus η) (calls : List (Call η)) : Bus η :=
  calls.foldl (fun b a => b.changeAll a.changes) b

theorem place?_of_adds (h : ch.Adds) : b.place? c k ch = some k := by
  cases ch with
  | subscribe => rfl
  | unsubscribe => exact h.elim

/-- Where nothing ends, every subscription keeps its place. -/
theorem placeAfter?_of_adds (h : ∀ ch ∈ chs, ch.Adds) : b.placeAfter? c k chs = some k := by
  induction chs generalizing b with
  | nil => rfl
  | cons ch chs ih =>
    rw [List.forall_mem_cons] at h
    rw [placeAfter?, place?_of_adds h.1]
    exact ih h.2

theorem listeners_prefix_change (b : Bus η) (c : Channel) (h : ch.Adds) :
    b.listeners c <+: (b.change ch).listeners c := by
  cases ch with
  | subscribe d l =>
    rw [change, listeners_subscribe]
    split
    · next hc =>
      rw [hc]
      exact List.prefix_append _ _
    · exact List.prefix_rfl
  | unsubscribe => exact h.elim

theorem listeners_prefix_changeAll (b : Bus η) (c : Channel) (h : ∀ ch ∈ chs, ch.Adds) :
    b.listeners c <+: (b.changeAll chs).listeners c := by
  induction chs generalizing b with
  | nil => exact List.prefix_rfl
  | cons ch chs ih =>
    rw [List.forall_mem_cons] at h
    exact (listeners_prefix_change b c h.1).trans (ih (b.change ch) h.2)

/-- Calls in which listeners only subscribe leave at the head of a channel what it held. -/
theorem listeners_prefix_afterCalls (b : Bus η) (c : Channel) {calls : List (Call η)}
    (h : ∀ a ∈ calls, a.Adds) : b.listeners c <+: (b.afterCalls calls).listeners c := by
  induction calls generalizing b with
  | nil => exact List.prefix_rfl
  | cons a calls ih =>
    rw [List.forall_mem_cons] at h
    exact (listeners_prefix_changeAll b c h.1).trans (ih (b.changeAll a.changes) h.2)

theorem afterCalls_append (b : Bus η) (calls calls' : List (Call η)) :
    b.afterCalls (calls ++ calls') = (b.afterCalls calls).afterCalls calls' :=
  List.foldl_append

end Bus

/-! ### Channels that are served to their end -/

/-- Calls that serve a channel as it stands in the end: each subscription in order and once, those
first that were there in the beginning. -/
structure Served (start finish : Bus η) (c : Channel) (calls : List (Call η)) : Prop where
  /-- The channel is the one that is served. -/
  channel : ∀ a ∈ calls, a.channel = c
  /-- Its places are called for one after the other. -/
  place : calls.map Call.place = List.range calls.length
  /-- The listeners are those of the channel in the end. -/
  listener : calls.map Call.listener = finish.listeners c
  /-- What was there in the beginning comes first. -/
  present : start.listeners c <+: finish.listeners c

variable {b : Bus η} {s t : Service η} {calls : List (Call η)} {c : Channel} {cs : List Channel}
  {i k : Nat} {p : Payload}

/-- A round that gets beyond a channel serves it from the place that is next to the end that it has
then. -/
theorem Round.exists_leg (h : Round s calls t) (hs : s.channels = c :: cs)
    (hleft : t.channels.length ≤ cs.length) (hadds : ∀ a ∈ calls, a.Adds) :
    ∃ leg rest, calls = leg ++ rest ∧ (∀ a ∈ leg, a.channel = c) ∧
      leg.map Call.place = List.range' s.place leg.length ∧
      leg.map Call.listener = ((s.bus.afterCalls leg).listeners c).drop s.place ∧
      Round ⟨cs, 0, s.bus.afterCalls leg⟩ rest t := by
  induction h with
  | stay =>
    rw [hs] at hleft
    exact absurd hleft (Nat.not_succ_le_self cs.length)
  | next hend hrest =>
    cases hs
    refine ⟨[], _, rfl, nofun, rfl, ?_, hrest⟩
    exact (List.drop_eq_nil_of_le (List.getElem?_eq_none_iff.mp hend)).symm
  | @call d ds i b calls t l hl chs hrest ih =>
    cases hs
    rw [List.forall_mem_cons] at hadds
    obtain ⟨leg, rest, rfl, hchannel, hplace, hlistener, hbeyond⟩ := ih rfl hleft hadds.2
    have haddsLeg : ∀ a ∈ ⟨c, i, l, chs⟩ :: leg, a.Adds := by
      rw [List.forall_mem_cons]
      exact ⟨hadds.1, fun a ha => hadds.2 a (List.mem_append_left rest ha)⟩
    refine ⟨⟨c, i, l, chs⟩ :: leg, rest, rfl, ?_, ?_, ?_, hbeyond⟩
    · rw [List.forall_mem_cons]
      exact ⟨rfl, hchannel⟩
    · rw [List.map_cons, hplace, List.length_cons, List.range'_succ]
    · -- The listener that is called keeps its place while the list grows behind it.
      obtain ⟨hi, rfl⟩ := List.getElem?_eq_some_iff.mp hl
      have hstays :=
        List.prefix_iff_getElem?.mp (Bus.listeners_prefix_afterCalls b c haddsLeg) i hi
      dsimp only at hlistener ⊢
      rw [List.drop_eq_getElem?_toList_append, hstays, List.map_cons, hlistener]
      rfl

/-- The channel that is next after some calls is served to its end. -/
theorem Round.exists_served_next {before : List (Call η)} (hbefore : ∀ a ∈ before, a.Adds)
    (h : Round ⟨c :: cs, 0, b.afterCalls before⟩ calls t) (hend : t.channels = [])
    (hadds : ∀ a ∈ calls, a.Adds) :
    ∃ leg rest, calls = leg ++ rest ∧ Served b (b.afterCalls (before ++ leg)) c leg ∧
      Round ⟨cs, 0, b.afterCalls (before ++ leg)⟩ rest t := by
  have hleft : t.channels.length ≤ cs.length := by
    rw [hend]
    exact Nat.zero_le _
  obtain ⟨leg, rest, rfl, hchannel, hplace, hlistener, hbeyond⟩ := h.exists_leg rfl hleft hadds
  rw [List.forall_mem_append] at hadds
  have hgrown : ∀ a ∈ before ++ leg, a.Adds := List.forall_mem_append.mpr ⟨hbefore, hadds.1⟩
  rw [← Bus.afterCalls_append] at hlistener hbeyond
  refine ⟨leg, rest, rfl, ⟨hchannel, ?_, hlistener, ?_⟩, hbeyond⟩
  · rw [hplace, List.range_eq_range']
  · exact Bus.listeners_prefix_afterCalls b c hgrown

/-- A round that comes to its end serves its channels one after the other. -/
theorem Round.exists_served (h : Round ⟨p.channels, 0, b⟩ calls t) (hend : t.channels = [])
    (hadds : ∀ a ∈ calls, a.Adds) :
    ∃ byLevel byTopic byAll, calls = byLevel ++ byTopic ++ byAll ∧
      Served b (b.afterCalls byLevel) (.level p.level) byLevel ∧
      Served b (b.afterCalls (byLevel ++ byTopic)) (.topic p.topic) byTopic ∧
      Served b (b.afterCalls calls) .all byAll := by
  have hnone : ∀ a ∈ ([] : List (Call η)), a.Adds := nofun
  obtain ⟨byLevel, rest, rfl, hlevel, h⟩ := Round.exists_served_next hnone h hend hadds
  obtain ⟨haddsLevel, hadds⟩ := List.forall_mem_append.mp hadds
  obtain ⟨byTopic, rest, rfl, htopic, h⟩ := h.exists_served_next haddsLevel hend hadds
  obtain ⟨haddsTopic, hadds⟩ := List.forall_mem_append.mp hadds
  obtain ⟨byAll, rest, rfl, hall, h⟩ :=
    h.exists_served_next (List.forall_mem_append.mpr ⟨haddsLevel, haddsTopic⟩) hend hadds
  -- No channel is left, so nothing else is called.
  cases h with
  | stay =>
    refine ⟨byLevel, byTopic, byAll, ?_, hlevel, htopic, ?_⟩
    · rw [List.append_nil, List.append_assoc]
    · rwa [List.append_nil, ← List.append_assoc]

theorem fate?_ne_ended (hadds : ∀ a ∈ calls, a.Adds) : fate? c k b calls ≠ some .ended := by
  induction calls generalizing b k with
  | nil => simp [fate?]
  | cons a calls ih =>
    rw [List.forall_mem_cons] at hadds
    rw [fate?, Bus.placeAfter?_of_adds hadds.1]
    dsimp only
    split
    · simp
    · split
      · simp
      · exact ih hadds.2

/-- Where nothing ends, nothing is skipped: what was there when a round began is called for. -/
theorem Round.timesCalled_of_adds (h : Round ⟨cs, 0, b⟩ calls t) (hcs : cs.Nodup)
    (hend : t.channels = []) (hadds : ∀ a ∈ calls, a.Adds) (hc : c ∈ cs)
    (hk : k < (b.listeners c).length) : timesCalled c k b calls = 1 := by
  have haccounted := h.accounted hcs hc hk
  refine haccounted.once ?_
  cases hfate : fate? c k b calls with
  | none => exact absurd hfate (haccounted.decided hend)
  | some fate =>
    cases fate with
    | called => rfl
    | ended => exact absurd hfate (fate?_ne_ended hadds)
    | skipped =>
      obtain ⟨a, ha, -, l, hl⟩ := haccounted.skipped hfate
      exact (hadds a ha _ hl).elim

/-! ### Announcements -/

theorem Change.step_inj (ch ch' : Change Listener) (h : ch.step = ch'.step) : ch = ch' := by
  cases ch <;> cases ch' <;> cases h <;> rfl

namespace Hub

variable {h : Hub} {calls calls' : List (Call Listener)} {s t t' : Service Listener}

/-- Whether the listeners of a hub throw nothing and do no more than subscribe. -/
def OnlySubscribes (h : Hub) : Prop :=
  ∀ l, (h.script l).throws = none ∧
    ∃ subscriptions : List (Channel × Listener),
      (h.script l).once = subscriptions.map fun s => .subscribe s.1 s.2

theorem OnlySubscribes.tame (honly : h.OnlySubscribes) : h.Tame := by
  intro l
  obtain ⟨hthrows, subscriptions, honce⟩ := honly l
  refine ⟨hthrows, subscriptions.map fun s => .subscribe s.1 s.2, ?_⟩
  rw [honce, List.map_map]
  rfl

theorem OnlySubscribes.answer (honly : h.OnlySubscribes) (p : Payload) (a : Call Listener) :
    (h.answer p a).OnlySubscribes := by
  intro l
  rw [script_answer]
  exact honly l

theorem Scripted.adds (honly : h.OnlySubscribes) (hcalls : Scripted p h calls) :
    ∀ a ∈ calls, a.Adds := by
  induction calls generalizing h with
  | nil => nofun
  | cons a calls ih =>
    rw [List.forall_mem_cons]
    refine ⟨fun ch hch => ?_, ih (honly.answer p a) hcalls.2⟩
    have hstep : ch.step ∈ a.changes.map Change.step := List.mem_map_of_mem hch
    rw [hcalls.1] at hstep
    split at hstep
    · obtain ⟨-, subscriptions, honce⟩ := honly a.listener
      rw [honce] at hstep
      obtain ⟨s, -, hs⟩ := List.mem_map.mp hstep
      cases ch with
      | subscribe => trivial
      | unsubscribe => cases hs
    · cases hstep

theorem bus_answerAll (h : Hub) (p : Payload) (calls : List (Call Listener)) :
    (h.answerAll p calls).bus = h.bus.afterCalls calls := by
  induction calls generalizing h with
  | nil => rfl
  | cons a calls ih => exact ih (h.answer p a)

/-- What a listener changes in a call follows from the calls before it. -/
theorem Scripted.changes_eq {before after : List (Call Listener)} {a : Call Listener}
    (hcalls : Scripted p h (before ++ a :: after)) :
    a.changes.map Change.step =
      if (h.answerAll p before).isFresh a.listener then
        ((h.answerAll p before).script a.listener).once
      else [] := by
  induction before generalizing h with
  | nil => exact hcalls.1
  | cons first before ih => exact ih hcalls.2

/-- Scripts leave a round no choice. -/
theorem Scripted.prefix_of_round (hround : Round s calls t) (hend : t.channels = [])
    (hcalls : Scripted p h calls) (hround' : Round s calls' t') (hcalls' : Scripted p h calls') :
    calls' <+: calls := by
  refine hround.prefix_of_agree hend hround' fun as a a' bs bs' heq heq' hlistener => ?_
  rw [heq] at hcalls
  rw [heq'] at hcalls'
  have hsame := hcalls.changes_eq.trans (hlistener ▸ hcalls'.changes_eq.symm)
  exact (List.map_inj_right Change.step_inj).mp hsame

/-- Where listeners do no more than subscribe when they are first called, an announcement comes to
its end, and there is no other way for it to go. It calls for the subscriptions to its level, to its
topic and to everything, of each channel those that it has when it is done, in order and once, and
first those that were there when the announcement began. -/
theorem emit_onlySubscribes (honly : h.OnlySubscribes) (p : Payload) :
    ∃ byLevel byTopic byAll : List (Call Listener),
      let calls := byLevel ++ byTopic ++ byAll
      h.emit p = (h.answerAll p calls, none) ∧
        (h.emit p).1.delivered = h.delivered ++ deliveries p calls ∧
        Scripted p h calls ∧ Round ⟨p.channels, 0, h.bus⟩ calls ⟨[], 0, (h.emit p).1.bus⟩ ∧
        (∀ calls' t, Round ⟨p.channels, 0, h.bus⟩ calls' t → Scripted p h calls' →
          calls' <+: calls) ∧
        Served h.bus (h.answerAll p byLevel).bus (.level p.level) byLevel ∧
        Served h.bus (h.answerAll p (byLevel ++ byTopic)).bus (.topic p.topic) byTopic ∧
        Served h.bus (h.emit p).1.bus .all byAll ∧
        ∀ c ∈ p.channels, ∀ k < (h.bus.listeners c).length,
          timesCalled c k h.bus calls = 1 := by
  have hchannels : p.channels.Nodup := by simp [Payload.channels]
  obtain ⟨calls, hserve, hscripted, hround⟩ :=
    exists_round_serveAll h.uncalled.length p p.channels honly.tame (Nat.le_refl _)
  have hemit : h.emit p = (h.answerAll p calls, none) := by rw [emit, take, step, hserve]
  have hadds := hscripted.adds honly
  obtain ⟨byLevel, byTopic, byAll, rfl, hlevel, htopic, hall⟩ := hround.exists_served rfl hadds
  refine ⟨byLevel, byTopic, byAll, hemit, ?_, hscripted, ?_, ?_, ?_, ?_, ?_, ?_⟩
  · rw [hemit]
    exact delivered_answerAll h p _
  · rwa [hemit]
  · exact fun calls' t hround' hscripted' =>
      hscripted.prefix_of_round hround rfl hround' hscripted'
  · rwa [bus_answerAll]
  · rwa [bus_answerAll]
  · rwa [hemit, bus_answerAll]
  · exact fun c hc k hk => hround.timesCalled_of_adds hchannels rfl hadds hc hk

/-- A hub with two listeners that subscribe each other and themselves when they are first called. -/
def growingHub : Hub :=
  { ofScripts (.ofList
      [("a", { once := [.subscribe (.level .info) (.named "b"), .subscribe .all (.named "a")] }),
        ("b", { once := [.subscribe .all (.named "b"), .subscribe (.level .info) (.named "a")] })])
    with bus := Bus.subscribe {} (.level .info) (.named "a") }

theorem onlySubscribes_growingHub : growingHub.OnlySubscribes := by
  intro l
  cases l with
  | problems | log => exact ⟨rfl, [], rfl⟩
  | named name =>
    by_cases ha : name = "a"
    · subst ha
      exact ⟨rfl, [(.level .info, .named "b"), (.all, .named "a")], rfl⟩
    · by_cases hb : name = "b"
      · subst hb
        exact ⟨rfl, [(.all, .named "b"), (.level .info, .named "a")], rfl⟩
      · have hscript : growingHub.script (.named name) = {} := by
          simp [script, growingHub, ofScripts, Table.ofList, Table.insertAll, Table.get?_insert,
            ha, hb]
        rw [hscript]
        exact ⟨rfl, [], rfl⟩

/-- What an announcement to it calls: three listeners for the level, where there was one, and two
for everything, where there was none. -/
def growingCalls : List (Call Listener) :=
  [⟨.level .info, 0, .named "a",
      [.subscribe (.level .info) (.named "b"), .subscribe .all (.named "a")]⟩,
    ⟨.level .info, 1, .named "b",
      [.subscribe .all (.named "b"), .subscribe (.level .info) (.named "a")]⟩,
    ⟨.level .info, 2, .named "a", []⟩, ⟨.all, 0, .named "a", []⟩, ⟨.all, 1, .named "b", []⟩]

theorem scripted_growingCalls : Scripted greeting growingHub growingCalls :=
  ⟨rfl, rfl, rfl, rfl, rfl, trivial⟩

theorem round_growingCalls :
    Round ⟨greeting.channels, 0, growingHub.bus⟩ growingCalls
      ⟨[], 0, growingHub.bus.afterCalls growingCalls⟩ :=
  .call rfl _ (.call rfl _ (.call rfl _ (.next rfl (.next rfl (.call rfl _ (.call rfl _
    (.next rfl (.stay _))))))))

/-- The announcement makes just these calls. -/
theorem emit_onlySubscribes_growing :
    growingHub.OnlySubscribes ∧ ∃ byLevel byTopic byAll,
      byLevel ++ byTopic ++ byAll = growingCalls ∧
        growingHub.emit greeting = (growingHub.answerAll greeting growingCalls, none) ∧
        (growingHub.emit greeting).1.delivered.map Prod.fst = ["a", "b", "a", "a", "b"] ∧
        Served growingHub.bus (growingHub.answerAll greeting byLevel).bus (.level .info) byLevel ∧
        Served growingHub.bus (growingHub.emit greeting).1.bus .all byAll := by
  obtain ⟨byLevel, byTopic, byAll, hemit, hdelivered, hscripted, hround, hunique, hlevel, -, hall,
    -⟩ := emit_onlySubscribes onlySubscribes_growingHub greeting
  have hcalls : byLevel ++ byTopic ++ byAll = growingCalls := by
    have hstart := hunique _ _ round_growingCalls scripted_growingCalls
    have hstart' :=
      scripted_growingCalls.prefix_of_round round_growingCalls rfl hround hscripted
    exact hstart'.eq_of_length (Nat.le_antisymm hstart'.length_le hstart.length_le)
  rw [hcalls] at hemit hdelivered
  refine ⟨onlySubscribes_growingHub, byLevel, byTopic, byAll, hcalls, hemit, ?_, hlevel, hall⟩
  rw [hdelivered]
  rfl

end Hub

end UmlDraft.Event
