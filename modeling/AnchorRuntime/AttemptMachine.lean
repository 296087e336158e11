import AnchorRuntime.Engine

/-!
# The attempt as a state machine

What one attempt is for, apart from its code: it reads the run, stops if the run is
terminal, otherwise marks it running, loads its log, runs the workflow and writes one
terminal status. `Phase` says how far an attempt has got.

Results: `process_obeys` and `execute_obeys`, the code of the worker and of the engine
refine this machine.
-/

namespace AnchorRuntime

open Effect Code

/-! ## The machine -/

/-- How far an attempt has got. -/
inductive Phase
  | start
  -- the run was not terminal when it was read
  | checked
  | resuming
  | starting
  | reading
  -- the row is read again, then the log
  | loading (run : Option RunRecord)
  | loaded (run : Option RunRecord) (events : List Event)
  | built
  -- the workflow is running
  | inside
  -- the workflow has ended, and the log does not say how yet
  | ended (ending : Except Exn Value)
  -- the log says how, and the status is still to be written
  | announced (status : RunStatus) (result : Value) (error : Option RunError)
  -- the run is terminal, as far as this attempt knows
  | settled
  -- the lease was lost
  | standing
  -- a store call raised
  | failing

namespace Phase

/-- Where a store call leads that the attempt needs nothing from. -/
def after {α : Type} (done : Phase) : Except Exn α → Phase
  | .ok _ => done
  | .error _ => .failing

/-- Where the status check leads. -/
def checkedRun : Except Exn (Option RunRecord) → Phase
  | .ok (some run) => if run.status.terminal then .settled else .checked
  | _ => .failing

/-- Where the row that is read again leads. -/
def reread : Except Exn (Option RunRecord) → Phase
  | .ok run => .loading run
  | .error _ => .failing

/-- Where the end of the workflow leads. -/
def left : Except Exn Value → Phase
  | .error (.leaseLost _) => .standing
  | ending => .ended ending

end Phase

/-- The exceptions that fail a run. -/
def Exn.fails : Exn → Bool
  | .cancellationRequested _ | .ambiguousStep _ _ | .leaseLost _ => false
  | _ => true

/-- The error record of a run parked for review. -/
def reviewError (stepKey token : String) : RunError :=
  { type := "AmbiguousStepError", message := (Exn.ambiguousStep stepKey token).str,
    stepKey := some stepKey, token := some token, retryable := some false }

/-- The events that say how the workflow has ended. -/
def Concludes : Except Exn Value → Option String → Payload → Prop
  | .ok _, key, .runCompleted _ _ _ _ => key = none
  | .error (.cancellationRequested message), key, .runCancelled reason =>
    key = none ∧ reason = message
  | .error (.budgetExceeded d l o), key, .budgetExceeded d' l' o' =>
    key = none ∧ (d', l', o') = (d, l, o)
  | .error (.ambiguousStep stepKey token), key, .runNeedsReview token' _ =>
    key = some stepKey ∧ token' = token
  | .error exc, key, .runFailed _ => key = none ∧ exc.fails = true
  | _, _, _ => False

/-- Where an event that says how the workflow has ended leads. -/
def Phase.announce (ending : Except Exn Value) : Payload → Phase
  | .runCompleted _ _ _ _ =>
    match ending with
    | .ok result => .announced .completed result none
    | .error _ => .ended ending
  | .runCancelled _ => .announced .cancelled .none none
  | .runNeedsReview _ _ =>
    match ending with
    | .error (.ambiguousStep stepKey token) =>
      .announced .needsReview .none (some (reviewError stepKey token))
    | _ => .ended ending
  | .runFailed error => .announced .failed .none (some error)
  | _ => .ended ending

namespace Phase

/-- The operations an attempt may perform next. -/
def allowed : Phase → Op → Prop
  | .start, o => o = .getRun
  | .checked, o => o = .bumpAttempt
  | .resuming, o => ∃ attempt seq, o = .appendEvent none (.runResumed attempt seq)
  | .starting, o => o = .setStatus .running .none none
  | .reading, o => o = .getRun
  | .loading _, o => o = .loadEvents
  | .loaded run events, o => (∃ r, run = some r ∧ o = .newContext r events) ∨ o = .release
  | .built, o =>
    (∃ name input, o = .enter (.workflow name input)) ∨
      ∃ error, o = .appendEvent none (.runFailed error)
  | .inside, o => ∃ name input, o = .leave (.workflow name input)
  | .ended ending, o =>
    o = .snapshot ∨ ∃ key payload, Concludes ending key payload ∧ o = .appendEvent key payload
  | .announced status result error, o =>
    o = .saveUsage ∨ (status.terminal = true ∧ o = .setStatus status result error)
  | .settled, o => o = .snapshot ∨ o = .stopHeartbeat ∨ o = .dequeue
  | .standing, o => o = .snapshot ∨ o = .stopHeartbeat
  | .failing, o => o = .release ∨ o = .stopHeartbeat

/-- Where the answer to an operation leads. -/
def next : Phase → (o : Op) → Ans o → Phase
  | .start, .getRun, r => .checkedRun r
  | .checked, .bumpAttempt, .ok (some attempt) => if 1 < attempt then .resuming else .starting
  | .checked, .bumpAttempt, _ => .failing
  | .resuming, .appendEvent _ _, r => .after .starting r
  | .starting, .setStatus _ _ _, r => .after .reading r
  | .reading, .getRun, r => .reread r
  | .loading run, .loadEvents, .ok events => .loaded run events
  | .loading _, .loadEvents, .error _ => .failing
  | .loaded _ _, .newContext _ _, _ => .built
  | .loaded _ _, .release, _ => .failing
  | .built, .enter _, _ => .inside
  | .built, .appendEvent _ payload, r => .after (.announce (.ok .none) payload) r
  | .inside, .leave _, r => .left r
  | .ended ending, .appendEvent _ payload, r => .after (.announce ending payload) r
  | .announced status result error, .saveUsage, r => .after (.announced status result error) r
  | .announced _ _ _, .setStatus _ _ _, r => .after .settled r
  | phase, _, _ => phase

end Phase

/-- The moves of the machine, one constructor for each thing an attempt can do. -/
inductive Phase.Moves : Phase → (o : Op) → Ans o → Phase → Prop
  | missing : Moves .start .getRun (.ok none) .failing
  | terminal {run : RunRecord} : run.status.terminal = true →
      Moves .start .getRun (.ok (some run)) .settled
  | check {run : RunRecord} : run.status.terminal = false →
      Moves .start .getRun (.ok (some run)) .checked
  | vanished : Moves .checked .bumpAttempt (.ok none) .failing
  | first {attempt : Nat} :
      ¬ 1 < attempt → Moves .checked .bumpAttempt (.ok (some attempt)) .starting
  | again {attempt : Nat} : 1 < attempt → Moves .checked .bumpAttempt (.ok (some attempt)) .resuming
  | resume (attempt seq : Nat) (n : Option Nat) :
      Moves .resuming (.appendEvent none (.runResumed attempt seq)) (.ok n) .starting
  | markRunning : Moves .starting (.setStatus .running .none none) (.ok ()) .reading
  | reread (run : Option RunRecord) : Moves .reading .getRun (.ok run) (.loading run)
  | load (run : Option RunRecord) (events : List Event) :
      Moves (.loading run) .loadEvents (.ok events) (.loaded run events)
  | build (run : RunRecord) (events : List Event) :
      Moves (.loaded (some run) events) (.newContext run events) () .built
  | undo (run : Option RunRecord) (events : List Event) (r : Except Exn Unit) :
      Moves (.loaded run events) .release r .failing
  | enter (name : String) (input : Value) : Moves .built (.enter (.workflow name input)) () .inside
  | unknown (error : RunError) (n : Option Nat) :
      Moves .built (.appendEvent none (.runFailed error)) (.ok n)
        (.announced .failed .none (some error))
  | leave (name : String) (input : Value) (r : Except Exn Value) :
      Moves .inside (.leave (.workflow name input)) r (.left r)
  | snapshot {phase : Phase} (r : Snapshot) :
      (∃ ending, phase = .ended ending) ∨ phase = .settled ∨ phase = .standing →
      Moves phase .snapshot r phase
  | completed (result : Value) (usage : Usage) (elapsed : Rat) (replayed executed : Nat)
      (n : Option Nat) :
      Moves (.ended (.ok result))
        (.appendEvent none (.runCompleted usage elapsed replayed executed)) (.ok n)
        (.announced .completed result none)
  | cancelled (message : String) (n : Option Nat) :
      Moves (.ended (.error (.cancellationRequested message)))
        (.appendEvent none (.runCancelled message)) (.ok n) (.announced .cancelled .none none)
  | exceeded (d : String) (l o : Rat) (n : Option Nat) :
      Moves (.ended (.error (.budgetExceeded d l o))) (.appendEvent none (.budgetExceeded d l o))
        (.ok n) (.ended (.error (.budgetExceeded d l o)))
  | review (stepKey token reason : String) (n : Option Nat) :
      Moves (.ended (.error (.ambiguousStep stepKey token)))
        (.appendEvent (some stepKey) (.runNeedsReview token reason)) (.ok n)
        (.announced .needsReview .none (some (reviewError stepKey token)))
  | failed {exc : Exn} (error : RunError) (n : Option Nat) : exc.fails = true →
      Moves (.ended (.error exc)) (.appendEvent none (.runFailed error)) (.ok n)
        (.announced .failed .none (some error))
  | saveUsage {status : RunStatus} (result : Value) (error : Option RunError) :
      Moves (.announced status result error) .saveUsage (.ok ()) (.announced status result error)
  | finish {status : RunStatus} (result : Value) (error : Option RunError) :
      status.terminal = true →
      Moves (.announced status result error) (.setStatus status result error) (.ok ()) .settled
  | stopHeartbeat {phase : Phase} (r : Except Exn Unit) :
      phase = .settled ∨ phase = .standing ∨ phase = .failing → Moves phase .stopHeartbeat r phase
  | dequeue (r : Except Exn Unit) : Moves .settled .dequeue r .settled
  | release (r : Except Exn Unit) : Moves .failing .release r .failing
  | raise {phase : Phase} {o : Op} {r : Ans o} {exc : Exn} : phase.allowed o →
      failure o r = some exc → Moves phase o r .failing

/-- The event that says how the workflow has ended, once it is written. -/
theorem concludes_moves {ending : Except Exn Value} {key : Option String} {payload : Payload}
    (h : Concludes ending key payload) (n : Option Nat) :
    Phase.Moves (.ended ending) (.appendEvent key payload) (.ok n) (.announce ending payload) := by
  unfold Concludes at h
  split at h
  · subst h
    exact .completed _ _ _ _ _ n
  · obtain ⟨rfl, rfl⟩ := h
    exact .cancelled _ n
  · obtain ⟨rfl, same⟩ := h
    cases same
    exact .exceeded _ _ _ n
  · obtain ⟨rfl, rfl⟩ := h
    exact .review _ _ _ n
  · obtain ⟨rfl, fails⟩ := h
    exact .failed _ n fails
  · exact h.elim

/-- An allowed operation is one of the moves, whatever its answer. -/
theorem Phase.moves {phase : Phase} {o : Op} (may : phase.allowed o) (r : Ans o) :
    phase.Moves o r (phase.next o r) := by
  have raise : ∀ {exc : Exn}, failure o r = some exc → phase.Moves o r .failing :=
    fun failed => .raise may failed
  cases phase with
  | start =>
    cases may
    rcases r with e | _ | run
    · exact raise rfl
    · exact .missing
    · cases hs : run.status.terminal with
      | true => simpa only [Phase.next, Phase.checkedRun, hs, if_pos] using Moves.terminal hs
      | false => simpa [Phase.next, Phase.checkedRun, hs] using Moves.check hs
  | checked =>
    cases may
    rcases r with e | _ | attempt
    · exact raise rfl
    · exact .vanished
    · by_cases more : 1 < attempt
      · simpa only [Phase.next, if_pos more] using Moves.again more
      · simpa only [Phase.next, if_neg more] using Moves.first more
  | resuming =>
    obtain ⟨attempt, seq, rfl⟩ := may
    rcases r with e | n
    · exact raise rfl
    · exact .resume attempt seq n
  | starting =>
    cases may
    rcases r with e | _
    · exact raise rfl
    · exact .markRunning
  | reading =>
    cases may
    rcases r with e | run
    · exact raise rfl
    · exact .reread run
  | loading run =>
    cases may
    rcases r with e | events
    · exact raise rfl
    · exact .load run events
  | loaded run events =>
    rcases may with ⟨row, rfl, rfl⟩ | rfl
    · exact .build row events
    · exact .undo run events r
  | built =>
    rcases may with ⟨name, input, rfl⟩ | ⟨error, rfl⟩
    · exact .enter name input
    · rcases r with e | n
      · exact raise rfl
      · exact .unknown error n
  | inside =>
    obtain ⟨name, input, rfl⟩ := may
    exact .leave name input r
  | ended ending =>
    rcases may with rfl | ⟨key, payload, concludes, rfl⟩
    · exact .snapshot r (.inl ⟨_, rfl⟩)
    · rcases r with e | n
      · exact raise rfl
      · exact concludes_moves concludes n
  | announced status result error =>
    rcases may with rfl | ⟨terminal, rfl⟩
    · rcases r with e | _
      · exact raise rfl
      · exact .saveUsage result error
    · rcases r with e | _
      · exact raise rfl
      · exact .finish result error terminal
  | settled =>
    rcases may with rfl | rfl | rfl
    · exact .snapshot r (.inr (.inl rfl))
    · exact .stopHeartbeat r (.inl rfl)
    · exact .dequeue r
  | standing =>
    rcases may with rfl | rfl
    · exact .snapshot r (.inr (.inr rfl))
    · exact .stopHeartbeat r (.inr (.inl rfl))
  | failing =>
    rcases may with rfl | rfl
    · exact .release r
    · exact .stopHeartbeat r (.inr (.inr rfl))

/-- The machine as a protocol. -/
def attemptProtocol : Protocol Ans Phase := ⟨Phase.allowed, Phase.next⟩

/-! ## The code refines the machine -/

/-- What `execute` returns or raises, and in which phase. -/
def ExecuteEnds : Phase → Except Exn Outcome → Prop
  | .settled, .ok outcome => outcome.shouldDequeue = true
  | .standing, .ok outcome => outcome.shouldDequeue = false
  | .failing, .error _ | .loaded _ _, .error _ => True
  | _, _ => False

namespace AttemptMachineLemmas

variable {cfg : Config} {runId : Uuid} {guarded : Bool}

@[simp] theorem attemptProtocol_allowed : attemptProtocol.allowed = Phase.allowed := rfl

@[simp] theorem attemptProtocol_next : attemptProtocol.next = Phase.next := rfl

/-- A store call that the attempt needs nothing from. -/
theorem perform_obeys {α : Type} {o : Op} {h : Ans o → Except Exn α} (done : Phase)
    {phase : Phase} {Q : Phase → Except Exn α → Prop} (may : phase.allowed o)
    (next : ∀ r, phase.next o r = .after done (h r))
    (ok : ∀ a, Q done (.ok a)) (error : ∀ e, Q .failing (.error e)) :
    Obeys attemptProtocol phase (.perform o h) Q := by
  simp only [obeys_perform, attemptProtocol_allowed, attemptProtocol_next]
  refine ⟨may, fun r => ?_⟩
  rw [next]
  cases h r with
  | ok a => exact ok a
  | error e => exact error e

theorem append_obeys (done : Phase) {phase : Phase} {key : Option String} {payload : Payload}
    {Q : Phase → Except Exn (Option Nat) → Prop}
    (may : phase.allowed (.appendEvent key payload))
    (next : ∀ r, phase.next (.appendEvent key payload) r = .after done r)
    (ok : ∀ n, Q done (.ok n)) (error : ∀ e, Q .failing (.error e)) :
    Obeys attemptProtocol phase (appendEvent key payload) Q :=
  perform_obeys done may next ok error

theorem setStatus_obeys (done : Phase) {phase : Phase} {status : RunStatus} {result : Value}
    {error : Option RunError} {Q : Phase → Except Exn Unit → Prop}
    (may : phase.allowed (.setStatus status result error))
    (next : ∀ r, phase.next (.setStatus status result error) r = .after done r)
    (ok : Q done (.ok ())) (raises : ∀ e, Q .failing (.error e)) :
    Obeys attemptProtocol phase (setStatus status result error) Q :=
  perform_obeys done may next (fun _ => ok) raises

theorem saveUsage_obeys {status : RunStatus} {result : Value} {error : Option RunError}
    {Q : Phase → Except Exn Unit → Prop} (ok : Q (.announced status result error) (.ok ()))
    (raises : ∀ e, Q .failing (.error e)) :
    Obeys attemptProtocol (.announced status result error) saveUsage Q :=
  perform_obeys (.announced status result error) (.inl rfl) (fun _ => rfl) (fun _ => ok) raises

/-- The last lines of every way to conclude: the announced status, then the outcome. -/
theorem finish_obeys {status : RunStatus} {result result' : Value} {error error' : Option RunError}
    (terminal : status.terminal = true) :
    Obeys attemptProtocol (.announced status result error)
      (do setStatus status result error; outcome runId status result' error') ExecuteEnds := by
  rw [obeys_bind]
  refine setStatus_obeys .settled (.inr ⟨terminal, rfl⟩) (fun _ => rfl) ?_ fun _ => trivial
  simp only [then_ok, outcome, snapshot, obeys_bind, obeys_ask]
  exact ⟨.inl rfl, fun _ => terminal⟩

theorem announce_obeys {ending : Except Exn Value} {key : Option String} {payload : Payload}
    (concludes : Concludes ending key payload) {Q : Phase → Except Exn (Option Nat) → Prop}
    (ok : ∀ n, Q (.announce ending payload) (.ok n)) (error : ∀ e, Q .failing (.error e)) :
    Obeys attemptProtocol (.ended ending) (appendEvent key payload) Q :=
  append_obeys (.announce ending payload) (.inr ⟨_, _, concludes, rfl⟩) (fun _ => rfl) ok error

theorem fail_obeys {phase : Phase} {error : RunError}
    (h : phase = .built ∨ ∃ exc, exc.fails = true ∧ phase = .ended (.error exc)) :
    Obeys attemptProtocol phase (fail runId error) ExecuteEnds := by
  have rest : Obeys attemptProtocol (.announced .failed .none (some error)) (do
      saveUsage
      setStatus .failed .none (some error)
      outcome runId .failed .none (some error)) ExecuteEnds := by
    rw [obeys_bind]
    exact saveUsage_obeys (finish_obeys rfl) fun _ => trivial
  unfold fail
  rw [obeys_bind]
  rcases h with rfl | ⟨exc, fails, rfl⟩
  · exact append_obeys (.announced .failed .none (some error)) (.inr ⟨_, rfl⟩) (fun _ => rfl)
      (fun _ => rest) fun _ => trivial
  · refine announce_obeys (?_ : Concludes (.error exc) none (.runFailed error)) (fun _ => rest)
      fun _ => trivial
    cases exc <;> exact ⟨rfl, fails⟩

theorem conclude_obeys (ending : Except Exn Value) :
    Obeys attemptProtocol (.left ending) (conclude cfg runId ending) ExecuteEnds := by
  cases ending with
  | ok result =>
    simp only [conclude, Phase.left, snapshot, obeys_bind, obeys_ask]
    refine ⟨.inl rfl, fun _ => ?_⟩
    rw [then_ok, obeys_bind]
    refine announce_obeys ?_ (fun _ => ?_) fun _ => trivial
    · exact rfl
    · rw [then_ok, obeys_bind]
      exact saveUsage_obeys (finish_obeys rfl) fun _ => trivial
  | error exc =>
    cases exc with
    | cancellationRequested message =>
      rw [conclude, obeys_bind]
      refine announce_obeys ?_ (fun _ => finish_obeys rfl) fun _ => trivial
      exact ⟨rfl, rfl⟩
    | budgetExceeded dimension limit observed =>
      rw [conclude, obeys_bind]
      refine announce_obeys ?_ (fun _ => fail_obeys (.inr ⟨_, rfl, rfl⟩)) fun _ => trivial
      exact ⟨rfl, rfl⟩
    | ambiguousStep stepKey token =>
      rw [conclude, obeys_bind]
      refine announce_obeys ?_ (fun _ => finish_obeys rfl) fun _ => trivial
      exact ⟨rfl, rfl⟩
    | leaseLost message =>
      simp only [conclude, Phase.left, outcome, snapshot, obeys_bind, obeys_ask]
      exact ⟨.inl rfl, fun _ => rfl⟩
    | stepFailed stepKey attempts cause => exact fail_obeys (.inr ⟨_, rfl, rfl⟩)
    | workflowNotFound message => exact fail_obeys (.inr ⟨_, rfl, rfl⟩)
    | toolNotFound message => exact fail_obeys (.inr ⟨_, rfl, rfl⟩)
    | exception type message => exact fail_obeys (.inr ⟨_, rfl, rfl⟩)

theorem runWorkflow_obeys (run : RunRecord) :
    Obeys attemptProtocol .built (runWorkflow cfg runId run) ExecuteEnds := by
  unfold runWorkflow
  cases cfg.workflow run.workflow with
  | error exc => exact fail_obeys (.inl rfl)
  | ok _ =>
    simp only [invoke, obeys_bind, obeys_attempt, obeys_ask, obeys_perform, then_ok]
    exact ⟨.inl ⟨_, _, rfl⟩, fun _ => ⟨⟨_, _, rfl⟩, fun r => conclude_obeys r⟩⟩

end AttemptMachineLemmas

open AttemptMachineLemmas

/-- The engine from the RUNNING status on, whatever it makes of the row and the log it reads. -/
theorem started_obeys {cfg : Config} {runId : Uuid}
    (rest : Option RunRecord → List Event → Code Outcome)
    (gone : ∀ events, rest none events =
      .raise (.exception "AttributeError" "'NoneType' object has no attribute 'run_id'"))
    (goes : ∀ run events, rest (some run) events = (do
      newContext run events
      runWorkflow cfg runId run)) :
    Obeys attemptProtocol .starting (do
      setStatus .running .none none
      let run ← getRun
      let events ← loadEvents
      rest run events) ExecuteEnds := by
  rw [obeys_bind]
  refine setStatus_obeys .reading rfl (fun _ => rfl) ?_ fun _ => trivial
  simp only [getRun, then_ok, obeys_bind, obeys_perform]
  refine ⟨rfl, ?_⟩
  rintro (_ | run)
  · trivial
  · simp only [id, then_ok, loadEvents, obeys_bind, obeys_perform]
    refine ⟨rfl, ?_⟩
    rintro (_ | events)
    · trivial
    · cases run with
      | none =>
        show Obeys attemptProtocol _ (rest none events) ExecuteEnds
        rw [gone]
        trivial
      | some run =>
        show Obeys attemptProtocol _ (rest (some run) events) ExecuteEnds
        rw [goes]
        simp only [newContext, obeys_bind, obeys_ask]
        exact ⟨.inl ⟨run, rfl, rfl⟩, fun _ => runWorkflow_obeys run⟩

/-- The engine refines the attempt machine. -/
theorem execute_obeys (cfg : Config) (runId : Uuid) :
    Obeys attemptProtocol .start (execute cfg runId) ExecuteEnds := by
  simp only [execute, getRun, obeys_bind, obeys_perform]
  refine ⟨rfl, ?_⟩
  rintro (_ | _ | run)
  · trivial
  · trivial
  · simp only [id, then_ok, attemptProtocol_next, Phase.next, Phase.checkedRun]
    split
    · next terminal => exact terminal
    · simp only [bumpAttempt, obeys_bind, obeys_perform]
      refine ⟨rfl, ?_⟩
      rintro (_ | _ | attempt)
      · trivial
      · trivial
      · simp only [id, then_ok, attemptProtocol_next, Phase.next]
        split
        · rw [obeys_bind]
          exact append_obeys .starting ⟨_, _, rfl⟩ (fun _ => rfl)
            (fun _ => started_obeys _ (fun _ => rfl) fun _ _ => rfl) fun _ => trivial
        · exact started_obeys _ (fun _ => rfl) fun _ _ => rfl

/-- The worker refines the attempt machine. -/
theorem process_obeys (cfg : Config) (runId : Uuid) :
    Obeys attemptProtocol .start (process cfg runId) fun _ _ => True := by
  unfold process
  rw [obeys_bind, obeys_attempt]
  refine (execute_obeys cfg runId).mono ?_
  rintro phase (e | outcome) ends
  · have undo : phase.allowed .release ∧ ∀ r, phase.next .release r = .failing := by
      cases phase with
      | failing => exact ⟨.inl rfl, fun _ => rfl⟩
      | loaded run events => exact ⟨.inr rfl, fun _ => rfl⟩
      | _ => exact ends.elim
    simp only [then_ok, release, stopHeartbeat, obeys_bind, obeys_attempt, obeys_perform,
      attemptProtocol_allowed, attemptProtocol_next, undo.2]
    refine ⟨undo.1, fun released => ⟨.inr rfl, ?_⟩⟩
    rintro (_ | _)
    · trivial
    · cases released <;> trivial
  · have stop : phase.allowed .stopHeartbeat ∧ (∀ r, phase.next .stopHeartbeat r = phase) ∧
        (outcome.shouldDequeue = true → phase.allowed .dequeue) := by
      cases phase with
      | settled => exact ⟨.inr (.inl rfl), fun _ => rfl, fun _ => .inr (.inr rfl)⟩
      | standing => exact ⟨.inr rfl, fun _ => rfl, fun h => absurd (h.symm.trans ends) (by simp)⟩
      | _ => exact ends.elim
    simp only [then_ok, stopHeartbeat, obeys_bind, obeys_perform, attemptProtocol_allowed,
      attemptProtocol_next, stop.2.1]
    refine ⟨stop.1, ?_⟩
    rintro (_ | _)
    · trivial
    · show Obeys _ _ _ _
      split
      · next terminal =>
        simp only [dequeue, obeys_bind, obeys_perform]
        refine ⟨stop.2.2 terminal, ?_⟩
        rintro (_ | _) <;> trivial
      · trivial

end AnchorRuntime
