import Mathlib.Data.List.Forall2
import UmlDraft.CommandLine.Invocation
import UmlDraft.Proofs.Run.Phases

/-!
# Verdicts

An invocation is refused, answers a question about the program, or makes a run. Its exit code tells
which, and of a run whether it had problems. A refusal is logged as one failure. The announcements
of a run are never logged as failures, so the failures in the log of an invocation that makes a run
are its problems, each once and in order.
-/

namespace UmlDraft

open Event

/-- A failure in the log that tells a problem: where it arose, and its code. -/
structure Log.Record.Tells (r : Log.Record) (p : Problem) : Prop where
  /-- It is a failure. -/
  level : r.level = .error
  /-- The message names the phase and the path. -/
  message : ∃ rest, r.message = "[" ++ p.phase.name ++ "] " ++ p.path ++ ": " ++ rest
  /-- The code is given beside it. -/
  code : r.context = some (.ofList [("code", .string p.code)])

/-- Every logger beside a report passes failures on. -/
theorem Report.Mode.delivers_error (m : Report.Mode) : m.logger.delivers .error = true := by
  cases m <;> decide

/-- No announcement of a run is logged as a failure. -/
theorem Run.level_ne_error_of_mem_logs {renderer : Renderer} {c : Config} {cwd : Path} {d : Disk}
    {r : Log.Record} (hr : r ∈ (Run.run renderer c cwd d).logs) : r.level ≠ .error := by
  rw [Run.run_eq] at hr
  obtain ⟨p, -, hp⟩ := List.mem_filterMap.mp hr
  exact Payload.level_ne_error_of_record? hp

namespace Invocation

variable {w : World} {renderer : Renderer} {arguments : List String} {o : Options} {c : Config}

/-- What a command line asks for is refused. -/
inductive Refused (w : World) (arguments : List String) : Prop where
  /-- Its words are refused. -/
  | words {e : ArgumentError} (hwords : Options.ofArguments arguments = .error e)
  /-- A run is asked for, but no configuration can be built. -/
  | setup {o : Options} {e : SetupError} (hwords : Options.ofArguments arguments = .ok o)
    (hhelp : o.help = false) (hversion : o.version = false) (hbuild : Config.build w o = .error e)

/-- How an invocation ends. -/
inductive Verdict (w : World) (renderer : Renderer) (arguments : List String) (i : Invocation) :
    Prop where
  /-- It is refused: nothing runs, nothing is printed, and one failure is logged. -/
  | refused (hrefused : Refused w arguments) (hcode : i.exit.code = 2) (hrun : i.run = none)
    (hdisk : i.disk w = w.disk) (hprinted : i.printed = [])
    (hlogs : ∃ message, i.logs = [⟨.error, message, none⟩])
  /-- It answers a question about the program: nothing runs. -/
  | answered {o : Options} (hwords : Options.ofArguments arguments = .ok o)
    (hasked : o.help = true ∨ o.version = true) (hcode : i.exit.code = 0) (hrun : i.run = none)
  /-- It makes a run, and the failures in the log tell the problems. -/
  | ran {o : Options} {c : Config} {r : Run.Report}
    (hwords : Options.ofArguments arguments = .ok o) (hhelp : o.help = false)
    (hversion : o.version = false) (hbuild : Config.build w o = .ok c)
    (hrun : i.run = some (c, r)) (hreport : r = Run.run renderer c w.cwd w.disk)
    (hproblems : i.exit.code = 1 ↔ r.outcome.errors ≠ [])
    (hsuccess : i.exit.code = 0 ↔ r.outcome.errors = [])
    (hlogs : List.Forall₂ Log.Record.Tells (i.logs.filter fun l => l.level = .error)
      r.outcome.errors)

theorem ofArguments_of_error {e : ArgumentError} (h : Options.ofArguments arguments = .error e) :
    ofArguments w renderer arguments = refusal .pretty e.message := by
  rw [ofArguments, h]

theorem ofArguments_of_ok (h : Options.ofArguments arguments = .ok o) :
    ofArguments w renderer arguments = ofOptions w renderer o := by
  rw [ofArguments, h]

/-- Options that ask for a run make it if its configuration can be built. -/
theorem ofOptions_of_build (hhelp : o.help = false) (hversion : o.version = false)
    (hbuild : Config.build w o = .ok c) :
    ofOptions w renderer o = ofRun o.mode o.command c (Run.run renderer c w.cwd w.disk) := by
  rw [ofOptions, if_neg (by simp [hhelp]), if_neg (by simp [hversion]), hbuild]

theorem ofOptions_of_error {e : SetupError} (hhelp : o.help = false) (hversion : o.version = false)
    (hbuild : Config.build w o = .error e) :
    ofOptions w renderer o = refusal o.mode.logger ("Config error: " ++ e.message) := by
  rw [ofOptions, if_neg (by simp [hhelp]), if_neg (by simp [hversion]), hbuild]

/-- A question about the program is answered without a run. -/
theorem code_ofOptions_of_asked (w : World) (renderer : Renderer)
    (hasked : o.help = true ∨ o.version = true) :
    (ofOptions w renderer o).exit.code = 0 ∧ (ofOptions w renderer o).run = none := by
  unfold ofOptions
  split
  · exact ⟨rfl, rfl⟩
  · next hhelp =>
    rw [if_pos (hasked.resolve_left hhelp)]
    exact ⟨rfl, rfl⟩

theorem code_ofRun_eq_zero_iff {mode : Report.Mode} {command : Command} {r : Run.Report} :
    (ofRun mode command c r).exit.code = 0 ↔ r.outcome.errors = [] := by
  unfold ofRun
  by_cases h : r.outcome.errors = []
  · simp [h, Exit.code]
  · simp [h, Exit.code]

theorem code_ofRun_eq_one_iff {mode : Report.Mode} {command : Command} {r : Run.Report} :
    (ofRun mode command c r).exit.code = 1 ↔ r.outcome.errors ≠ [] := by
  unfold ofRun
  by_cases h : r.outcome.errors = []
  · simp [h, Exit.code]
  · simp [h, Exit.code]

/-- The record of a problem tells it. -/
theorem tells_problemRecord (p : Problem) : (problemRecord p).Tells p :=
  ⟨rfl, ⟨_, rfl⟩, rfl⟩

/-- The failures in the log of an invocation that makes a run are the records of its problems. -/
theorem filter_logs_ofRun (mode : Report.Mode) (command : Command) (c : Config) {r : Run.Report}
    (hr : ∀ l ∈ r.logs, l.level ≠ .error) :
    ((ofRun mode command c r).logs.filter fun l => l.level = .error) =
      r.outcome.errors.map problemRecord := by
  have hnotes : (r.logs.filter fun l => l.level = .error) = [] :=
    List.filter_eq_nil_iff.mpr fun l hl => by simpa using hr l hl
  have hproblems : ((r.outcome.errors.map problemRecord).filter fun l => l.level = .error) =
      r.outcome.errors.map problemRecord :=
    List.filter_eq_self.mpr (List.forall_mem_map.mpr fun _ _ => rfl)
  have hpass : ∀ l ∈ r.outcome.errors.map problemRecord,
      mode.logger.delivers (Log.severity l.level) = true :=
    List.forall_mem_map.mpr fun _ _ => mode.delivers_error
  rw [ofRun, Log.Logger.pass, List.filter_comm, List.filter_append, hnotes, hproblems,
    List.nil_append, List.filter_eq_self.mpr hpass]

/-- What is refused ends as refused. -/
theorem code_of_refused (renderer : Renderer) (h : Refused w arguments) :
    (ofArguments w renderer arguments).exit.code = 2 := by
  cases h with
  | words hwords =>
    rw [ofArguments_of_error hwords]
    rfl
  | setup hwords hhelp hversion hbuild =>
    rw [ofArguments_of_ok hwords, ofOptions_of_error hhelp hversion hbuild]
    rfl

/-- A refusal by a logger that passes failures on is one failure in the log. -/
theorem Verdict.of_refusal {logger : Log.Logger} (hlogger : logger.delivers .error = true)
    (hrefused : Refused w arguments) (message : String) :
    Verdict w renderer arguments (refusal logger message) := by
  refine .refused hrefused rfl rfl rfl rfl ⟨message, ?_⟩
  exact List.filter_eq_self.mpr fun l hl => List.mem_singleton.mp hl ▸ hlogger

/-- A run with its report. -/
theorem Verdict.of_run (hwords : Options.ofArguments arguments = .ok o) (hhelp : o.help = false)
    (hversion : o.version = false) (hbuild : Config.build w o = .ok c) :
    Verdict w renderer arguments
      (ofRun o.mode o.command c (Run.run renderer c w.cwd w.disk)) := by
  generalize hr : Run.run renderer c w.cwd w.disk = r
  have hnotes : ∀ l ∈ r.logs, l.level ≠ .error := fun l hl =>
    Run.level_ne_error_of_mem_logs (hr ▸ hl)
  refine .ran hwords hhelp hversion hbuild rfl hr.symm code_ofRun_eq_one_iff
    code_ofRun_eq_zero_iff ?_
  rw [filter_logs_ofRun o.mode o.command c hnotes, List.forall₂_map_left_iff, List.forall₂_same]
  exact fun p _ => tells_problemRecord p

/-- Every invocation is refused, answers a question about the program, or makes a run. -/
theorem verdict_of_ofArguments (w : World) (renderer : Renderer) (arguments : List String) :
    Verdict w renderer arguments (ofArguments w renderer arguments) := by
  cases hwords : Options.ofArguments arguments with
  | error e =>
    rw [ofArguments_of_error hwords]
    exact .of_refusal rfl (.words hwords) e.message
  | ok o =>
    rw [ofArguments_of_ok hwords]
    by_cases hasked : o.help = true ∨ o.version = true
    · obtain ⟨hcode, hrun⟩ := code_ofOptions_of_asked w renderer hasked
      exact .answered hwords hasked hcode hrun
    · obtain ⟨hhelp, hversion⟩ := not_or.mp hasked
      rw [Bool.not_eq_true] at hhelp hversion
      cases hbuild : Config.build w o with
      | error e =>
        rw [ofOptions_of_error hhelp hversion hbuild]
        exact .of_refusal o.mode.delivers_error (.setup hwords hhelp hversion hbuild) _
      | ok c =>
        rw [ofOptions_of_build hhelp hversion hbuild]
        exact .of_run hwords hhelp hversion hbuild

/-- An invocation ends as refused exactly if what was asked for is refused, and however it ends, its
exit code, its log and the disk say so. -/
theorem verdict_ofArguments (w : World) (renderer : Renderer) (arguments : List String) :
    ((ofArguments w renderer arguments).exit.code = 2 ↔ Refused w arguments) ∧
      Verdict w renderer arguments (ofArguments w renderer arguments) := by
  have hverdict := verdict_of_ofArguments w renderer arguments
  refine ⟨⟨fun htwo => ?_, code_of_refused renderer⟩, hverdict⟩
  cases hverdict with
  | refused hrefused => exact hrefused
  | answered _ _ hcode => cases htwo.symm.trans hcode
  | ran _ _ _ _ _ _ hproblems hsuccess =>
    -- With problems the code is 1, and without problems it is 0.
    have hnone := not_not.mp fun hne => absurd (htwo.symm.trans (hproblems.mpr hne)) (by decide)
    exact absurd (htwo.symm.trans (hsuccess.mpr hnone)) (by decide)

end Invocation

end UmlDraft
