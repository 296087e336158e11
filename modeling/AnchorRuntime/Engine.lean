import AnchorRuntime.Context

/-!
# The engine and the worker

`engine.py`: one attempt of one run, from the status check to the terminal status, and
`worker.py`: what a worker does with the outcome of the attempt it claimed. The loop that
claims is not here: which worker claims when is a matter of the schedule.
-/

namespace AnchorRuntime

open Effect Code

/-- `Outcome` -/
structure Outcome where
  runId : Uuid
  status : RunStatus
  result : Value
  error : Option RunError
  replayedSteps : Nat
  executedSteps : Nat

/-- `Outcome.should_dequeue` -/
def Outcome.shouldDequeue (o : Outcome) : Bool := o.status.terminal

section Engine

variable (cfg : Config) (runId : Uuid)

/-- `Engine._outcome` -/
def outcome (status : RunStatus) (result : Value) (error : Option RunError) : Code Outcome := do
  let ctx ← snapshot
  return ⟨runId, status, result, error, ctx.replayedSteps, ctx.executedSteps⟩

/-- `Engine._fail`, given the error with its extra keys. -/
def fail (error : RunError) : Code Outcome := do
  let _ ← appendEvent none (.runFailed error)
  saveUsage
  setStatus .failed .none (some error)
  outcome runId .failed .none (some error)

/-- `str(exc) or repr(exc)` -/
def Exn.message (e : Exn) : String := if e.str = "" then e.repr else e.str

/-- The part of `Engine.execute` after the workflow has ended: the `except` clauses and,
when none applies, the completion of the run. -/
def conclude : Except Exn Value → Code Outcome
  | .ok result => do
    let ctx ← snapshot
    let _ ← appendEvent none
      (.runCompleted ctx.usage ctx.elapsedSeconds ctx.replayedSteps ctx.executedSteps)
    saveUsage
    setStatus .completed result none
    outcome runId .completed result none
  | .error exc =>
    match exc with
    | .cancellationRequested _ => do
      let _ ← appendEvent none (.runCancelled exc.str)
      setStatus .cancelled .none none
      outcome runId .cancelled .none none
    | .budgetExceeded dimension limit observed => do
      let _ ← appendEvent none (.budgetExceeded dimension limit observed)
      fail runId
        { type := "BudgetExceededError", message := exc.str, retryable := some false,
          dimension := some dimension }
    | .ambiguousStep stepKey token => do
      let _ ← appendEvent (some stepKey) (.runNeedsReview token "unresolved_at_most_once_step")
      setStatus .needsReview .none (some
        { type := "AmbiguousStepError", message := exc.str, stepKey := some stepKey,
          token := some token, retryable := some false })
      outcome runId .needsReview .none none
    | .leaseLost _ =>
      outcome runId .running .none (some { type := "LeaseLost", message := exc.str })
    | .stepFailed stepKey attempts _ =>
      fail runId
        { type := "StepFailedError", message := exc.str, retryable := some false,
          stepKey := some stepKey, attempts := some attempts }
    | _ =>
      fail runId
        { type := exc.typeName, message := exc.message, retryable := some false,
          traceback := some (cfg.formatExc exc) }

/-- The part of `Engine.execute` that has a context: look the workflow up, run it, conclude. -/
def runWorkflow (run : RunRecord) : Code Outcome :=
  match cfg.workflow run.workflow with
  | .error exc =>
    fail runId { type := "WorkflowNotFound", message := exc.str, retryable := some false }
  | .ok () => do
    let ending ← (invoke (.workflow run.workflow run.input)).attempt
    conclude cfg runId ending

/-- `Engine.execute` -/
def execute : Code Outcome := do
  match ← getRun with
  | none => .raise (.exception "LookupError" s!"run {runId.str} does not exist")
  | some run =>
    if run.status.terminal then
      return ⟨runId, run.status, run.result, run.error, 0, 0⟩
    else do
      match ← bumpAttempt with
      | none =>
        .raise (.exception "TypeError"
          "'>' not supported between instances of 'NoneType' and 'int'")
      | some attempt =>
        if 1 < attempt then
          let _ ← appendEvent none (.runResumed attempt run.eventSeq)
        setStatus .running .none none
        let run ← getRun
        let events ← loadEvents
        match run with
        | none =>
          .raise (.exception "AttributeError" "'NoneType' object has no attribute 'run_id'")
        | some run =>
          newContext run events
          runWorkflow cfg runId run

/-- `Worker._process`. The `finally` clause awaits the heartbeat task, so an exception
that ended that task leaves here. -/
def process : Code (Option Outcome) := do
  match ← (execute cfg runId).attempt with
  | .error _ => do
    let released ← release.attempt
    stopHeartbeat
    .ofExcept released
    return none
  | .ok outcome => do
    stopHeartbeat
    if outcome.shouldDequeue then dequeue
    return some outcome

end Engine

end AnchorRuntime
