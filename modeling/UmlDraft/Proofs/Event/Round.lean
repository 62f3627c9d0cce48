import UmlDraft.Event.Bus

/-!
# Rounds

A round delivers an announcement channel by channel and place by place, while the listeners that it
calls change the subscriptions. A subscription is followed through these changes by its place in its
channel, which falls when an earlier one ends. What becomes of a subscription that a round has yet
to reach is one of three things: its listener is called, it ends before its turn, or its place falls
behind the round, so that it is skipped. Nothing is assumed of the listeners, and a round need not
come to an end.
-/

namespace UmlDraft.Event

/-- A change of the subscriptions. -/
inductive Change (η : Type) where
  /-- A listener subscribes to a channel. -/
  | subscribe (c : Channel) (l : η)
  /-- A listener ends its first subscription to a channel. -/
  | unsubscribe (c : Channel) (l : η)
  deriving DecidableEq, Repr

variable {η : Type} [DecidableEq η]

/-! ### Places -/

namespace Bus

variable {b : Bus η} {c : Channel} {k k' : Nat} {ch : Change η} {chs : List (Change η)}

/-- The subscriptions after a change. -/
def change (b : Bus η) : Change η → Bus η
  | .subscribe c l => b.subscribe c l
  | .unsubscribe c l => b.unsubscribe c l

/-- The subscriptions after several changes. -/
def changeAll (b : Bus η) (chs : List (Change η)) : Bus η :=
  chs.foldl change b

/-- The place in its channel that a subscription has after a change, if it has not ended. -/
def place? (b : Bus η) (c : Channel) (k : Nat) : Change η → Option Nat
  | .subscribe _ _ => some k
  | .unsubscribe d l =>
    if d = c ∧ l ∈ b.listeners c then
      if k < (b.listeners c).idxOf l then some k
      else if k = (b.listeners c).idxOf l then none
      else some (k - 1)
    else some k

/-- The place in its channel that a subscription has after several changes. -/
def placeAfter? (b : Bus η) (c : Channel) (k : Nat) : List (Change η) → Option Nat
  | [] => some k
  | ch :: chs =>
    match b.place? c k ch with
    | none => none
    | some k' => (b.change ch).placeAfter? c k' chs

theorem place?_le (h : b.place? c k ch = some k') : k' ≤ k := by
  unfold place? at h
  split at h
  · cases h
    exact Nat.le_refl _
  · split at h
    · split at h
      · cases h
        exact Nat.le_refl _
      · split at h
        · cases h
        · cases h
          exact Nat.sub_le k 1
    · cases h
      exact Nat.le_refl _

/-- A place falls only if a subscription to the channel ends. -/
theorem exists_unsubscribe_of_place?_lt (h : b.place? c k ch = some k') (hlt : k' < k) :
    ∃ l, ch = .unsubscribe c l := by
  unfold place? at h
  split at h
  · cases h
    exact absurd hlt (Nat.lt_irrefl _)
  · split at h
    · next hd => exact ⟨_, by rw [hd.1]⟩
    · cases h
      exact absurd hlt (Nat.lt_irrefl _)

/-- At its new place a subscription has its old listener. -/
theorem getElem?_change (hk : k < (b.listeners c).length) (h : b.place? c k ch = some k') :
    ((b.change ch).listeners c)[k']? = (b.listeners c)[k]? := by
  unfold place? at h
  split at h
  · next d l =>
    cases h
    rw [change, listeners_subscribe]
    split
    · next hd => rw [← hd, List.getElem?_append_left hk]
    · rfl
  · next d l =>
    rw [change, listeners_unsubscribe]
    split at h
    · next hd =>
      obtain ⟨rfl, hl⟩ := hd
      rw [if_pos rfl, List.erase_eq_eraseIdx_of_idxOf rfl]
      split at h
      · next hbefore =>
        cases h
        rw [List.getElem?_eraseIdx_of_lt hbefore]
      · next hnot =>
        split at h
        · cases h
        · next hne =>
          cases h
          rw [List.getElem?_eraseIdx_of_ge (by omega), Nat.sub_add_cancel (by omega)]
    · next hd =>
      cases h
      split
      · next hc =>
        rw [← hc, List.erase_of_not_mem fun hl => hd ⟨hc.symm, hl⟩]
      · rfl

theorem placeAfter?_le (h : b.placeAfter? c k chs = some k') : k' ≤ k := by
  induction chs generalizing b k with
  | nil =>
    cases h
    exact Nat.le_refl _
  | cons ch chs ih =>
    rw [placeAfter?] at h
    split at h
    · cases h
    · next hplace => exact Nat.le_trans (ih h) (place?_le hplace)

theorem exists_unsubscribe_of_placeAfter?_lt (h : b.placeAfter? c k chs = some k') (hlt : k' < k) :
    ∃ l, Change.unsubscribe c l ∈ chs := by
  induction chs generalizing b k with
  | nil =>
    cases h
    exact absurd hlt (Nat.lt_irrefl _)
  | cons ch chs ih =>
    rw [placeAfter?] at h
    split at h
    · cases h
    · next between hplace =>
      by_cases hfirst : between < k
      · obtain ⟨l, rfl⟩ := exists_unsubscribe_of_place?_lt hplace hfirst
        exact ⟨l, List.mem_cons_self⟩
      · obtain ⟨l, hl⟩ := ih h (Nat.lt_of_lt_of_le hlt (Nat.le_of_not_lt hfirst))
        exact ⟨l, List.mem_cons_of_mem _ hl⟩

theorem getElem?_changeAll (hk : k < (b.listeners c).length)
    (h : b.placeAfter? c k chs = some k') :
    ((b.changeAll chs).listeners c)[k']? = (b.listeners c)[k]? := by
  induction chs generalizing b k with
  | nil =>
    cases h
    rfl
  | cons ch chs ih =>
    rw [placeAfter?] at h
    split at h
    · cases h
    · next between hplace =>
      have hbetween := getElem?_change hk hplace
      have hlt : between < ((b.change ch).listeners c).length := by
        rw [List.getElem?_eq_getElem hk] at hbetween
        exact (List.getElem?_eq_some_iff.mp hbetween).1
      rw [changeAll, List.foldl_cons, ← changeAll, ih hlt h, hbetween]

/-- A subscription that has not ended is in its channel. -/
theorem lt_length_changeAll (hk : k < (b.listeners c).length)
    (h : b.placeAfter? c k chs = some k') : k' < ((b.changeAll chs).listeners c).length := by
  have hsame := getElem?_changeAll hk h
  rw [List.getElem?_eq_getElem hk] at hsame
  exact (List.getElem?_eq_some_iff.mp hsame).1

end Bus

/-! ### Rounds -/

/-- A listener that a round called. -/
structure Call (η : Type) where
  /-- The channel that was served. -/
  channel : Channel
  /-- The place in it. -/
  place : Nat
  /-- The listener. -/
  listener : η
  /-- What the listener changed while it was called. -/
  changes : List (Change η)

/-- How far a round has come. -/
structure Service (η : Type) where
  /-- The channels that are not done. The first of them is being served. -/
  channels : List Channel
  /-- The place in it that is next. -/
  place : Nat
  /-- The subscriptions. -/
  bus : Bus η

/-- A round comes from one point to another by calls. -/
inductive Round : Service η → List (Call η) → Service η → Prop where
  /-- It stays. -/
  | stay (s : Service η) : Round s [] s
  /-- Where no listener is next in a channel, it goes on with the next channel. -/
  | next {c : Channel} {cs : List Channel} {i : Nat} {b : Bus η} {calls : List (Call η)}
    {t : Service η} (hend : (b.listeners c)[i]? = none) (hrest : Round ⟨cs, 0, b⟩ calls t) :
    Round ⟨c :: cs, i, b⟩ calls t
  /-- It calls the listener that is next, which may make any changes. -/
  | call {c : Channel} {cs : List Channel} {i : Nat} {b : Bus η} {calls : List (Call η)}
    {t : Service η} {l : η} (hl : (b.listeners c)[i]? = some l) (chs : List (Change η))
    (hrest : Round ⟨c :: cs, i + 1, b.changeAll chs⟩ calls t) :
    Round ⟨c :: cs, i, b⟩ (⟨c, i, l, chs⟩ :: calls) t

/-- What becomes of a subscription that a round has yet to reach. -/
inductive Fate where
  /-- Its listener is called in its turn. -/
  | called
  /-- It ends before its turn. -/
  | ended
  /-- Its place falls behind the round, and it is passed over. -/
  | skipped
  deriving DecidableEq, Repr

/-- How often a subscription is called for. -/
def timesCalled (c : Channel) : Nat → Bus η → List (Call η) → Nat
  | _, _, [] => 0
  | k, b, a :: calls =>
    (if a.channel = c ∧ a.place = k then 1 else 0) +
      match b.placeAfter? c k a.changes with
      | none => 0
      | some k' => timesCalled c k' (b.changeAll a.changes) calls

/-- The first thing that becomes of a subscription that is to be reached, if anything does. -/
def fate? (c : Channel) : Nat → Bus η → List (Call η) → Option Fate
  | _, _, [] => none
  | k, b, a :: calls =>
    if a.channel = c ∧ a.place = k then some .called
    else
      match b.placeAfter? c k a.changes with
      | none => some .ended
      | some k' =>
        if a.channel = c ∧ k' ≤ a.place then some .skipped
        else fate? c k' (b.changeAll a.changes) calls

/-- A subscription that a round has yet to reach. -/
inductive Awaits : Service η → Channel → Nat → Prop where
  /-- It is in the channel that is being served, not before the place that is next. -/
  | here {c : Channel} {cs : List Channel} {i k : Nat} {b : Bus η} (hplace : i ≤ k)
    (hk : k < (b.listeners c).length) : Awaits ⟨c :: cs, i, b⟩ c k
  /-- It is in a later channel. -/
  | later {c d : Channel} {cs : List Channel} {i k : Nat} {b : Bus η} (hc : c ∈ cs)
    (hk : k < (b.listeners c).length) : Awaits ⟨d :: cs, i, b⟩ c k

/-- A subscription that a round has behind it. -/
inductive Passed : Service η → Channel → Nat → Prop where
  /-- It is in the channel that is being served, before the place that is next. -/
  | here {c : Channel} {cs : List Channel} {i k : Nat} {b : Bus η} (hplace : k < i) :
    Passed ⟨c :: cs, i, b⟩ c k
  /-- It is in no channel that is to be served. -/
  | done {c : Channel} {cs : List Channel} {i k : Nat} {b : Bus η} (hc : c ∉ cs) :
    Passed ⟨cs, i, b⟩ c k

variable {b : Bus η} {s t u : Service η} {as calls : List (Call η)} {c d : Channel}
  {cs : List Channel} {i k k' : Nat} {chs : List (Change η)}

omit [DecidableEq η] in
/-- A subscription that is to be reached is in its channel. -/
theorem Awaits.lt_length (h : Awaits s c k) : k < (s.bus.listeners c).length := by
  cases h with
  | here _ hk => exact hk
  | later _ hk => exact hk

theorem Round.trans (h : Round s as t) (h' : Round t calls u) : Round s (as ++ calls) u := by
  induction h with
  | stay => exact h'
  | next hend _ ih => exact .next hend (ih h')
  | call hl chs _ ih => exact .call hl chs (ih h')

/-! ### What one move of a round preserves -/

omit [DecidableEq η] in
theorem Passed.next (h : Passed ⟨d :: cs, i, b⟩ c k) (hcs : (d :: cs).Nodup) :
    Passed ⟨cs, 0, b⟩ c k := by
  cases h with
  | here => exact .done (List.nodup_cons.mp hcs).1
  | done hc => exact .done (List.not_mem_of_not_mem_cons hc)

omit [DecidableEq η] in
/-- What is behind a round is not called for. -/
theorem Passed.not_next (h : Passed ⟨d :: cs, i, b⟩ c k) : ¬ (d = c ∧ i = k) := by
  rintro ⟨rfl, rfl⟩
  cases h with
  | here hplace => exact Nat.lt_irrefl i hplace
  | done hc => exact hc List.mem_cons_self

theorem Passed.call (h : Passed ⟨d :: cs, i, b⟩ c k) (hplace : b.placeAfter? c k chs = some k') :
    Passed ⟨d :: cs, i + 1, b.changeAll chs⟩ c k' := by
  cases h with
  | here hlt => exact .here (Nat.lt_of_le_of_lt (Bus.placeAfter?_le hplace) (Nat.lt_succ_of_lt hlt))
  | done hc => exact .done hc

omit [DecidableEq η] in
/-- Whatever is in a channel that is not begun is to be reached. -/
theorem awaits_of_mem (hc : c ∈ cs) (hk : k < (b.listeners c).length) : Awaits ⟨cs, 0, b⟩ c k := by
  cases hc with
  | head => exact .here (Nat.zero_le k) hk
  | tail _ hc => exact .later hc hk

omit [DecidableEq η] in
theorem Awaits.next (h : Awaits ⟨d :: cs, i, b⟩ c k) (hend : (b.listeners d)[i]? = none) :
    Awaits ⟨cs, 0, b⟩ c k := by
  cases h with
  | here hplace hk =>
    have hlength := List.getElem?_eq_none_iff.mp hend
    omega
  | later hc hk => exact awaits_of_mem hc hk

/-- A subscription that was not next is still to be reached after a call, unless its place has
fallen behind the round. -/
theorem Awaits.call (h : Awaits ⟨d :: cs, i, b⟩ c k) (hplace : b.placeAfter? c k chs = some k')
    (hbehind : ¬ (d = c ∧ k' ≤ i)) : Awaits ⟨d :: cs, i + 1, b.changeAll chs⟩ c k' := by
  cases h with
  | here _ hk =>
    exact .here (Nat.lt_of_not_le fun hle => hbehind ⟨rfl, hle⟩) (Bus.lt_length_changeAll hk hplace)
  | later hc hk => exact .later hc (Bus.lt_length_changeAll hk hplace)

omit [DecidableEq η] in
/-- The subscription that is called for is behind the round, and so is one whose place has fallen
to it. -/
theorem Passed.of_le (hle : k' ≤ i) : Passed (⟨c :: cs, i + 1, b⟩ : Service η) c k' :=
  .here (Nat.lt_succ_of_le hle)

/-! ### What a round does to a subscription -/

/-- What is behind a round is not called for again. -/
theorem Round.timesCalled_of_passed (h : Round s calls t) (hs : s.channels.Nodup)
    (hpassed : Passed s c k) : timesCalled c k s.bus calls = 0 := by
  induction h generalizing k with
  | stay => rfl
  | next hend _ ih => exact ih (List.nodup_cons.mp hs).2 (hpassed.next hs)
  | call hl chs _ ih =>
    rw [timesCalled, if_neg hpassed.not_next, Nat.zero_add]
    split
    · rfl
    · next hplace => exact ih hs (hpassed.call hplace)

/-- A subscription that a round has yet to reach is called for once or never, and once exactly if
that is its fate. -/
theorem Round.timesCalled_of_awaits (h : Round s calls t) (hs : s.channels.Nodup)
    (hawaits : Awaits s c k) :
    timesCalled c k s.bus calls = if fate? c k s.bus calls = some .called then 1 else 0 := by
  induction h generalizing k with
  | stay => rfl
  | next hend _ ih => exact ih (List.nodup_cons.mp hs).2 (hawaits.next hend)
  | @call d cs i b calls t l hl chs hrest ih =>
    rw [timesCalled, fate?]
    by_cases hnext : d = c ∧ i = k
    · -- It is called for now, and then it is behind the round.
      rw [if_pos hnext, if_pos hnext, if_pos rfl]
      obtain ⟨rfl, rfl⟩ := hnext
      split
      · rfl
      · next hplace =>
        rw [hrest.timesCalled_of_passed hs (.of_le (Bus.placeAfter?_le hplace))]
    · rw [if_neg hnext, if_neg hnext, Nat.zero_add]
      split
      · rfl
      · next k' hplace =>
        split
        · next hbehind =>
          obtain ⟨rfl, hle⟩ := hbehind
          exact hrest.timesCalled_of_passed hs (.of_le hle)
        · next hbehind => exact ih hs (hawaits.call hplace hbehind)

/-- A subscription to which nothing has happened is still to be reached, with its listener. -/
theorem Round.awaits_of_fate?_eq_none (h : Round s calls t) (hawaits : Awaits s c k)
    (hfate : fate? c k s.bus calls = none) :
    ∃ k', Awaits t c k' ∧ (t.bus.listeners c)[k']? = (s.bus.listeners c)[k]? := by
  induction h generalizing k with
  | stay => exact ⟨k, hawaits, rfl⟩
  | next hend _ ih => exact ih (hawaits.next hend) hfate
  | call hl chs _ ih =>
    rw [fate?] at hfate
    split at hfate
    · cases hfate
    · split at hfate
      · cases hfate
      · next hplace =>
        split at hfate
        · cases hfate
        · next hbehind =>
          obtain ⟨last, hlast, hsame⟩ := ih (hawaits.call hplace hbehind) hfate
          have hk := hawaits.lt_length
          exact ⟨last, hlast, hsame.trans (Bus.getElem?_changeAll hk hplace)⟩

/-- A subscription is skipped only where a subscription to its channel ends in a call for the
channel. -/
theorem Round.exists_unsubscribe_of_skipped (h : Round s calls t) (hs : s.channels.Nodup)
    (hawaits : Awaits s c k) (hfate : fate? c k s.bus calls = some .skipped) :
    ∃ a ∈ calls, a.channel = c ∧ ∃ l, Change.unsubscribe c l ∈ a.changes := by
  induction h generalizing k with
  | stay => cases hfate
  | next hend _ ih => exact ih (List.nodup_cons.mp hs).2 (hawaits.next hend) hfate
  | call hl chs _ ih =>
    rw [fate?] at hfate
    split at hfate
    · cases hfate
    · next hnext =>
      split at hfate
      · cases hfate
      · next hplace =>
        split at hfate
        · next hbehind =>
          obtain ⟨rfl, hle⟩ := hbehind
          refine ⟨_, List.mem_cons_self, rfl, Bus.exists_unsubscribe_of_placeAfter?_lt hplace ?_⟩
          cases hawaits with
          | here hplace =>
            exact Nat.lt_of_le_of_lt hle (Nat.lt_of_le_of_ne hplace fun heq => hnext ⟨rfl, heq⟩)
          | later hc => exact absurd hc (List.nodup_cons.mp hs).1
        · next hbehind =>
          obtain ⟨a, ha, hchannel⟩ := ih hs (hawaits.call hplace hbehind) hfate
          exact ⟨a, List.mem_cons_of_mem _ ha, hchannel⟩

/-- Rounds from one point part ways only where a listener makes different changes. Where it does
not, however far a round gets, it is a start of one that comes to its end. -/
theorem Round.prefix_of_agree {u : Service η} {calls' : List (Call η)} (h : Round s calls t)
    (hend : t.channels = []) (h' : Round s calls' u)
    (hagree : ∀ as a a' bs bs', calls = as ++ a :: bs → calls' = as ++ a' :: bs' →
      a.listener = a'.listener → a.changes = a'.changes) : calls' <+: calls := by
  induction h' generalizing calls with
  | stay => exact List.nil_prefix
  | next hnone _ ih =>
    cases h with
    | stay => cases hend
    | next _ hrest => exact ih hrest hagree
    | call hl =>
      rw [hnone] at hl
      cases hl
  | call hl chs _ ih =>
    cases h with
    | stay => cases hend
    | next hnone =>
      rw [hl] at hnone
      cases hnone
    | call hl' chs' hrest =>
      obtain rfl := Option.some.inj (hl.symm.trans hl')
      obtain rfl : chs' = chs := hagree [] _ _ _ _ rfl rfl rfl
      refine List.cons_prefix_cons.mpr ⟨rfl, ih hrest fun as a a' bs bs' hcalls hcalls' => ?_⟩
      exact hagree (_ :: as) a a' bs bs' (congrArg _ hcalls) (congrArg _ hcalls')

/-- What a round does to a subscription that was there when it began. -/
structure Accounted (b : Bus η) (calls : List (Call η)) (t : Service η) (c : Channel) (k : Nat) :
    Prop where
  /-- If it is called for, then once. -/
  once : fate? c k b calls = some .called → timesCalled c k b calls = 1
  /-- Otherwise it is never called for. -/
  never : fate? c k b calls ≠ some .called → timesCalled c k b calls = 0
  /-- It is skipped only where a subscription to its channel ends in a call for the channel. -/
  skipped : fate? c k b calls = some .skipped →
    ∃ a ∈ calls, a.channel = c ∧ ∃ l, Change.unsubscribe c l ∈ a.changes
  /-- If it has no fate, the round is still to reach it. -/
  waiting : fate? c k b calls = none →
    ∃ k', Awaits t c k' ∧ (t.bus.listeners c)[k']? = (b.listeners c)[k]?
  /-- At the end of the round it has one. -/
  decided : t.channels = [] → fate? c k b calls ≠ none

theorem Round.accounted (h : Round ⟨cs, 0, b⟩ calls t) (hcs : cs.Nodup) (hc : c ∈ cs)
    (hk : k < (b.listeners c).length) : Accounted b calls t c k := by
  have hawaits := awaits_of_mem hc hk
  have htimes := h.timesCalled_of_awaits hcs hawaits
  refine ⟨fun hfate => ?_, fun hfate => ?_, h.exists_unsubscribe_of_skipped hcs hawaits,
    h.awaits_of_fate?_eq_none hawaits, fun hend hfate => ?_⟩
  · rw [htimes, if_pos hfate]
  · rw [htimes, if_neg hfate]
  · obtain ⟨k', hlast, -⟩ := h.awaits_of_fate?_eq_none hawaits hfate
    cases hlast with
    | here | later => cases hend

end UmlDraft.Event
