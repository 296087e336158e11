import AnchorRuntime.Sequential

/-!
# The row and the log

Status, result, error, usage and the cancel flag of a run are written by other statements than
the events: a run that goes from PENDING to RUNNING appends nothing, and RunCompleted carries no
result.

Results: `row_not_cached`, whatever is deployed, those columns are no function of the run's
events; `result_not_logged`, nor is the result where only completed runs are looked at.
-/

namespace AnchorRuntime

open Machine

/-- The columns of a row that tell how the run stands. -/
def RunRecord.columns (run : RunRecord) : RunStatus × Value × Option RunError × Usage × Bool :=
  (run.status, run.result, run.error, run.usage, run.cancelRequested)

/-- The function computes the columns of every run from its events, in every state that
attempts that follow one another, submissions and cancel requests lead to. -/
def Rebuilds (cfg : Config) (now : Int)
    (f : List Event → RunStatus × Value × Option RunError × Usage × Bool) : Prop :=
  ∀ w, Reaches (World.step cfg) oneAfterAnother (.init now) w →
    ∀ j run, w.store.getRun j = some run → run.columns = f (w.store.loadEvents j)

namespace Sample

/-- The log of a run that has been submitted. -/
def submittedLog (now : Int) : List Event :=
  [⟨1, none, .runStarted "w" .none ⟨none, none, none, none, none⟩, now⟩]

/-- The engine sets the run to RUNNING. -/
def starting : List Action := [submitted, .execute runId] ++ proceed 0 3

/-- The workflow returns a value. -/
def returning (v : Value) : List Action := opening ++ [.main 0 (.value v)] ++ proceed 0 4

/-- The log of a run whose workflow has returned at once. -/
def returnedLog : List Event :=
  submittedLog 0 ++ [⟨2, none, .runCompleted .zero ((0 - 0 : Int) / 1000000) 0 0, 0⟩]

end Sample

theorem submitted_pending (cfg : Config) (now : Int) : ∃ w run,
    Machine.run (World.step cfg) oneAfterAnother (.init now) [Sample.submitted] = some w ∧
    w.store.getRun Sample.runId = some run ∧ run.status = .pending ∧
    w.store.loadEvents Sample.runId = Sample.submittedLog now :=
  ⟨_, _, rfl, rfl, rfl, rfl⟩

theorem starting_running (cfg : Config) (now : Int) : ∃ w run,
    Machine.run (World.step cfg) oneAfterAnother (.init now) Sample.starting = some w ∧
    w.store.getRun Sample.runId = some run ∧ run.status = .running ∧
    w.store.loadEvents Sample.runId = Sample.submittedLog now :=
  ⟨_, _, rfl, rfl, rfl, rfl⟩

theorem returning_completed (b : Bool) : ∃ w run,
    Machine.run (World.step Sample.cfg) oneAfterAnother (.init 0) (Sample.returning (.bool b)) =
      some w ∧
    w.store.getRun Sample.runId = some run ∧ run.status = .completed ∧ run.result = .bool b ∧
    w.store.loadEvents Sample.runId = Sample.returnedLog :=
  ⟨_, _, rfl, rfl, rfl, rfl, rfl⟩

/-- Whatever workflows and tools there are, no function of the events gives the columns of the
row. -/
theorem row_not_cached (cfg : Config) (now : Int) : ¬ ∃ f, Rebuilds cfg now f := by
  rintro ⟨f, rebuilds⟩
  obtain ⟨w, run, h, row, status, log⟩ := submitted_pending cfg now
  obtain ⟨w', run', h', row', status', log'⟩ := starting_running cfg now
  have before := rebuilds w (run_reaches h) _ run row
  have after := rebuilds w' (run_reaches h') _ run' row'
  have same : run.columns = run'.columns := by rw [before, after, log, log']
  cases status.symm.trans ((congrArg Prod.fst same).trans status')

/-- Two runs of a workflow that return different values have the same events. -/
theorem result_not_logged : ¬ ∃ f : List Event → Value, ∀ w,
    Reaches (World.step Sample.cfg) oneAfterAnother (.init 0) w → ∀ j run,
      w.store.getRun j = some run → run.status = .completed →
      run.result = f (w.store.loadEvents j) := by
  rintro ⟨f, rebuilds⟩
  obtain ⟨w, run, h, row, status, result, log⟩ := returning_completed true
  obtain ⟨w', run', h', row', status', result', log'⟩ := returning_completed false
  have before := rebuilds w (run_reaches h) _ run row status
  have after := rebuilds w' (run_reaches h') _ run' row' status'
  rw [log, result] at before
  rw [log', result'] at after
  cases before.trans after.symm

end AnchorRuntime
