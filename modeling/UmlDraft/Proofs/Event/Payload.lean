import UmlDraft.Event.Payload
import UmlDraft.Proofs.Table

/-!
# What announcements leave

Every announcement of a run leaves one record in the log, which says the phase of the announcement
before anything else, and a failure leaves one problem.
-/

namespace UmlDraft.Event.Payload

variable {topic : Topic} {phase : Phase}

/-- A record whose first value is the phase it belongs to. -/
def noted (level : Level) (phase : Phase) (message : String) (values : List (String × Json)) :
    Log.Record :=
  ⟨level, message, some (.ofList (("phase", .string phase.name) :: values))⟩

/-- The problem that is collected from an announcement at the level of failures. -/
def reported? (p : Payload) : Option Problem :=
  if p.level = .error then p.problem? else none

/-- What is announced of a phase: that it begins, what happens in it, and that it ends. -/
def phased (phase : Phase) (events : List Payload) (counters : List (String × Json)) :
    List Payload :=
  [phaseStart phase] ++ events ++ [phaseEnd phase (some (.ofList counters))]

/-- The boundaries of a phase report no problem. -/
theorem filterMap_reported?_phased (phase : Phase) (events : List Payload)
    (counters : List (String × Json)) :
    (phased phase events counters).filterMap reported? = events.filterMap reported? := by
  rw [phased, List.filterMap_append, List.filterMap_append]
  exact List.append_nil _

/-- The values of an announcement follow its phase. -/
theorem context_ofList (p : Payload) (values : List (String × Json)) :
    p.context (some (.ofList values)) = .ofList (("phase", .string p.phase.name) :: values) :=
  Table.insertAll_entries_ofList _ values

/-- The values of an announcement are those that were given, and its phase unless another value was
given in its name. -/
theorem get?_context (p : Payload) (values : Fields) (key : String) :
    (p.context (some values)).get? key =
      (values.get? key).or (if key = "phase" then some (.string p.phase.name) else none) := by
  change ((Table.ofList [("phase", .string p.phase.name)]).insertAll values.entries).get? key = _
  rw [Table.get?_insertAll, Table.ofList_entries]
  exact congrArg _ (Table.get?_insert .empty "phase" key _)

@[simp] theorem record?_failure (f : Failure) :
    (failure topic phase f).record? =
      some (noted .warn phase f.message [("path", .string f.path), ("code", .string f.code)]) :=
  rfl

/-- No announcement is noted at the level of failures. -/
theorem level_ne_error_of_record? {p : Payload} {r : Log.Record} (h : p.record? = some r) :
    r.level ≠ .error := by
  unfold record? at h
  split at h
  · cases h
    nofun
  · cases h
    nofun
  · split at h
    · cases h
    · next hlevel =>
      cases h
      exact hlevel

/-- A message below the level of failures is noted with its values. -/
theorem record?_message {p : Payload} {text : String} {values : List (String × Json)}
    (hbody : p.body = .message text (some (.ofList values))) (hlevel : p.level ≠ .error) :
    p.record? = some (noted p.level p.phase text values) := by
  rw [record?, hbody]
  dsimp only
  rw [if_neg hlevel, context_ofList, noted]

@[simp] theorem record?_warn (text : String) (values : List (String × Json)) :
    (warn topic phase text (some (.ofList values))).record? =
      some (noted .warn phase text values) :=
  record?_message rfl nofun

@[simp] theorem record?_info (text : String) (values : List (String × Json)) :
    (info topic phase text (some (.ofList values))).record? =
      some (noted .info phase text values) :=
  record?_message rfl nofun

@[simp] theorem record?_debug (text : String) (values : List (String × Json)) :
    (debug topic phase text (some (.ofList values))).record? =
      some (noted .debug phase text values) :=
  record?_message rfl nofun

/-- Announcements with one record each leave these records. -/
theorem filterMap_record?_map {α : Type} {announce : α → Payload} {record : α → Log.Record}
    (h : ∀ a, (announce a).record? = some (record a)) (items : List α) :
    (items.map announce).filterMap record? = items.map record := by
  rw [List.filterMap_map, ← List.filterMap_eq_map]
  exact congrArg (List.filterMap · items) (funext h)

/-- The record of a phase that begins. -/
def started (phase : Phase) : Log.Record :=
  noted .info phase (phase.label ++ " phase started") []

/-- The record of a phase that ends, with its counters. -/
def ended (phase : Phase) (counters : List (String × Json)) : Log.Record :=
  noted .info phase (phase.label ++ " phase ended") counters

@[simp] theorem record?_phaseStart : (phaseStart phase).record? = some (started phase) := by
  cases phase <;> rfl

@[simp] theorem record?_phaseEnd (counters : List (String × Json)) :
    (phaseEnd phase (some (.ofList counters))).record? = some (ended phase counters) := by
  rw [record?]
  dsimp only [phaseEnd]
  rw [context_ofList, ended, noted]
  cases phase <;> rfl

end UmlDraft.Event.Payload
