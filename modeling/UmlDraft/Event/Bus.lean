import UmlDraft.Event.Payload

/-!
# Subscriptions

Listeners subscribe to a channel: the announcements of one level, those of one topic, or all. A
channel keeps its listeners in the order in which they subscribed, one entry for each subscription.
Main statements: what a channel holds after one more subscription and after one less.
-/

namespace UmlDraft.Event

/-- What a listener can subscribe to. -/
inductive Channel where
  /-- The announcements of one level. -/
  | level (l : Level)
  /-- The announcements of one topic. -/
  | topic (t : Topic)
  /-- Every announcement. -/
  | all
  deriving DecidableEq, Repr

/-- The channels of an announcement in the order in which they are served. -/
def Payload.channels (p : Payload) : List Channel :=
  [.level p.level, .topic p.topic, .all]

variable {η : Type}

/-- The listeners of every channel. -/
structure Bus (η : Type) where
  /-- The listeners of the channels that ever had some. -/
  table : Table Channel (List η) := .empty
  deriving DecidableEq, Repr

namespace Bus

/-- The listeners of a channel. -/
def listeners (b : Bus η) (c : Channel) : List η :=
  (b.table.get? c).getD []

/-- Adds a listener at the end of a channel. -/
def subscribe (b : Bus η) (c : Channel) (l : η) : Bus η :=
  ⟨b.table.insert c (b.listeners c ++ [l])⟩

/-- Removes the first subscription of a listener to a channel. -/
def unsubscribe [DecidableEq η] (b : Bus η) (c : Channel) (l : η) : Bus η :=
  if l ∈ b.listeners c then ⟨b.table.insert c ((b.listeners c).erase l)⟩ else b

@[simp] theorem listeners_empty (c : Channel) : listeners ({} : Bus η) c = [] := rfl

theorem listeners_subscribe (b : Bus η) (c d : Channel) (l : η) :
    (b.subscribe c l).listeners d =
      if d = c then b.listeners c ++ [l] else b.listeners d := by
  simp only [subscribe, listeners, Table.get?_insert]
  split <;> rfl

theorem listeners_unsubscribe [DecidableEq η] (b : Bus η) (c d : Channel) (l : η) :
    (b.unsubscribe c l).listeners d =
      if d = c then (b.listeners c).erase l else b.listeners d := by
  unfold unsubscribe
  split
  · simp only [listeners, Table.get?_insert]
    split <;> rfl
  · next h =>
    split
    · next e => rw [e, List.erase_of_not_mem h]
    · rfl

end Bus

end UmlDraft.Event
