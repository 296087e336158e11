import AnchorRuntime.Context

/-!
# The step as a state machine

What a step is for, apart from its code: it looks its key up, passes its boundary checks,
opens its window or resolves an open one, invokes the body until a try succeeds or none is
left, and closes the window. `Stage` says how far a step has got and what it has learnt;
`Stage.allowed` is the one operation (or few) it may perform next, and `Stage.next` is
where an answer leads.

Results: `call_obeys`, the code of every call on the context refines this machine. What a
step can do is said here once; the claims about steps are derived from the machine.
-/

namespace AnchorRuntime

open Effect Code

/-! ## The machine -/

/-- The kind of call a step belongs to: tool and model calls are metered. -/
inductive StepKind
  | plain
  | tool
  | model
  deriving DecidableEq

/-- What a call fixes for one of its keys. -/
structure StepSetup where
  runId : Uuid
  guarded : Bool
  key : String
  token : Uuid
  idempotency : StepIdempotency
  verify : Bool
  attempts : Int
  kind : StepKind

/-- The body of a step on its n-th try: user code, or the provider. -/
def StepSetup.body (s : StepSetup) (n : Nat) : UserCall :=
  match s.kind with
  | .model => .complete s.key s.token n
  | _ => .body s.key s.token n

@[simp] theorem StepSetup.body_invocation (s : StepSetup) (n : Nat) :
    (s.body n).invocation = some (s.key, s.token, n) := by
  unfold StepSetup.body
  cases s.kind <;> rfl

/-- How far a step has got. -/
inductive Stage
  | entry
  | replayed (result : Value)
  -- the boundary checks: lease, cancellation, budget, then the crash window
  | boundary
  | leased
  | uncancelled
  | admitted
  -- an open window
  | recovering
  | verifying
  | recovered (outcome : Value)
  | unknown
  -- a new window
  | starting
  -- try n, and whether its tool call is counted yet
  | ready (n : Nat) (counted : Bool)
  | running (n : Nat)
  | returned (n : Nat) (value : Value)
  | raised (n : Nat) (exc : Exn)
  | waiting (n : Nat)
  | failed (n : Nat) (exc : Exn)
  -- the window is closed with a result, by the verifier or by a try
  | resolved (result : Value)
  | recorded (result : Value)
  -- the usage is saved; of a model call, its own usage is added, then saved
  | saved (result : Value)
  | billed (result : Value)
  | metered (result : Value)
  -- the event that follows the result is written
  | closed (result : Value)
  -- left by an exception that closed nothing
  | escaped (exc : Exn)

namespace Stage

/-- Where the end of try `n` leads. -/
def tried (n : Nat) : Except Exn Value → Stage
  | .ok value => .returned n value
  | .error exc => .raised n exc

/-- Where the end of the verifier leads. -/
def verified : Except Exn Value → Stage
  | .ok outcome => if outcome.isNone then .unknown else .recovered outcome
  | .error exc => .escaped exc

/-- Where a store call leads that the step needs nothing from. -/
def after {α : Type} (done : Stage) : Except Exn α → Stage
  | .ok _ => done
  | .error exc => .escaped exc

end Stage

/-- The events that follow a recorded result under the step's key. -/
def Payload.trailing : Payload → Prop
  | .toolInvoked _ _ _ | .modelCalled _ _ _ _ _ => True
  | _ => False

namespace StepSetup

variable (s : StepSetup)

/-- The event a step writes when a try has raised. -/
def raisedEvent (n : Nat) (exc : Exn) : Payload :=
  if (n : Int) < s.attempts then .stepErrorRetried n exc.repr else .stepFailed n exc.repr

/-- The operations a step may perform next. -/
def allowed : Stage → Op → Prop
  | .entry, o => o = .completed s.key
  | .replayed _, o => o = .countReplayed
  | .boundary, o => o = .heartbeat
  | .leased, o => o = .isCancelRequested
  | .uncancelled, o => o = .checkBudget
  | .admitted, o => o = .unresolved s.key
  | .recovering, o => o = .enter (.verify s.key s.token)
  | .verifying, o => o = .leave (.verify s.key s.token)
  | .recovered v, o => v.jsonable ∧ o = .appendEvent (some s.key) (.stepCompleted v .verify)
  | .unknown, o =>
    s.idempotency = .atLeastOnce ∧
      o = .appendEvent (some s.key) (.crashWindowRetried s.token.str)
  | .starting, o => o = .appendEvent (some s.key) (.stepStarted s.token.str)
  | .ready n counted, o =>
    (n : Int) ≤ s.attempts ∧ ((s.kind = .tool ∧ counted = false ∧ o = .addToolCall) ∨
      ((s.kind = .tool → counted = true) ∧ o = .enter (s.body n)))
  | .running n, o => o = .leave (s.body n)
  | .returned n v, o =>
    v.jsonable ∧ o = .appendEvent (some s.key) (.stepCompleted v (.attempt n))
  | .raised n exc, o =>
    exc.control = false ∧ o = .appendEvent (some s.key) (s.raisedEvent n exc)
  | .waiting _, o => ∃ seconds, o = .sleep seconds
  | .resolved v, o => o = .recordResult s.key v
  | .recorded v, o => o = .recordResult s.key v ∨ o = .countExecuted ∨ o = .saveUsage
  | .saved v, o =>
    (s.kind = .tool ∧
      ∃ payload, payload.trailing ∧ o = .appendEvent (some s.key) payload) ∨
    (s.kind = .model ∧ ∃ response, ModelResponse.fromDict v = .ok response ∧
      o = .addModelUsage response.inputTokens response.outputTokens response.costUsd)
  | .billed _, o => o = .saveUsage
  | .metered _, o => ∃ payload, payload.trailing ∧ o = .appendEvent (some s.key) payload
  | .closed _, _ | .failed _ _, _ | .escaped _, _ => False

/-- Where the answer to an operation leads. -/
def next : Stage → (o : Op) → Ans o → Stage
  | .entry, .completed _, some result => .replayed result
  | .entry, .completed _, none => if s.guarded then .boundary else .leased
  | .boundary, .heartbeat, .ok owned => if owned then .leased else .escaped (leaseLost s.runId)
  | .boundary, .heartbeat, .error exc => .escaped exc
  | .leased, .isCancelRequested, .ok requested =>
    if requested then .escaped (cancelled s.runId) else .uncancelled
  | .leased, .isCancelRequested, .error exc => .escaped exc
  | .uncancelled, .checkBudget, r => Stage.after .admitted r
  | .admitted, .unresolved _, recovering =>
    if recovering then if s.verify then .recovering else .unknown else .starting
  | .recovering, .enter _, _ => .verifying
  | .verifying, .leave _, r => Stage.verified r
  | .recovered v, .appendEvent _ _, r => Stage.after (.resolved v) r
  | .unknown, .appendEvent _ _, r => Stage.after (.ready 1 false) r
  | .starting, .appendEvent _ _, r => Stage.after (.ready 1 false) r
  | .ready n _, .addToolCall, _ => .ready n true
  | .ready n _, .enter _, _ => .running n
  | .running n, .leave _, r => Stage.tried n r
  | .returned _ v, .appendEvent _ _, r => Stage.after (.recorded v) r
  | .raised n exc, .appendEvent _ _, r =>
    Stage.after (if (n : Int) < s.attempts then .waiting n else .failed n exc) r
  | .waiting n, .sleep _, _ => .ready (n + 1) false
  | .recorded v, .saveUsage, r => Stage.after (.saved v) r
  | .saved v, .addModelUsage _ _ _, _ => .billed v
  | .saved v, .appendEvent _ _, r => Stage.after (.closed v) r
  | .billed v, .saveUsage, r => Stage.after (.metered v) r
  | .metered v, .appendEvent _ _, r => Stage.after (.closed v) r
  | stage, _, _ => stage

/-- How a step at this stage can end, `reply` being what the call makes of its result. -/
def Ends (reply : Value → Except Exn Value) : Stage → Except Exn Value → Prop
  | .replayed v, r | .resolved v, r | .closed v, r => r = reply v
  | .saved v, r =>
    r = reply v ∧ (s.kind = .plain ∨ ∃ exc, ModelResponse.fromDict v = .error exc)
  | .unknown, r =>
    s.idempotency = .atMostOnce ∧ r = .error (.ambiguousStep s.key s.token.str)
  | .recovered v, r | .returned _ v, r =>
    v.jsonable = false ∧ r = .error (notSerialisable v s.key)
  | .ready n _, r => s.attempts < n ∧ ∃ exc, r = .error (.stepFailed s.key s.attempts exc)
  | .raised _ exc, r => exc.control = true ∧ r = .error exc
  | .failed n exc, r => r = .error (.stepFailed s.key n exc)
  | .escaped exc, r => r = .error exc
  | _, _ => False

end StepSetup

/-- The moves of the machine, one constructor for each thing a step can do. -/
inductive StepSetup.Moves (s : StepSetup) : Stage → (o : Op) → Ans o → Stage → Prop
  | replay (v : Value) : Moves s .entry (.completed s.key) (some v) (.replayed v)
  | guard : s.guarded = true → Moves s .entry (.completed s.key) none .boundary
  | unguarded : s.guarded = false → Moves s .entry (.completed s.key) none .leased
  | countReplayed (v : Value) : Moves s (.replayed v) .countReplayed () (.replayed v)
  | owned : Moves s .boundary .heartbeat (.ok true) .leased
  | lost : Moves s .boundary .heartbeat (.ok false) (.escaped (leaseLost s.runId))
  | uncancelled : Moves s .leased .isCancelRequested (.ok false) .uncancelled
  | cancelled : Moves s .leased .isCancelRequested (.ok true) (.escaped (cancelled s.runId))
  | admitted : Moves s .uncancelled .checkBudget (.ok ()) .admitted
  | fresh : Moves s .admitted (.unresolved s.key) false .starting
  | verifiable : s.verify = true → Moves s .admitted (.unresolved s.key) true .recovering
  | unverifiable : s.verify = false → Moves s .admitted (.unresolved s.key) true .unknown
  | verify : Moves s .recovering (.enter (.verify s.key s.token)) () .verifying
  | landed {v : Value} : v.isNone = false →
      Moves s .verifying (.leave (.verify s.key s.token)) (.ok v) (.recovered v)
  | undecided {v : Value} : v.isNone = true →
      Moves s .verifying (.leave (.verify s.key s.token)) (.ok v) .unknown
  | verifierRaised (exc : Exn) :
      Moves s .verifying (.leave (.verify s.key s.token)) (.error exc) (.escaped exc)
  | resolve {v : Value} (seq : Option Nat) : v.jsonable = true →
      Moves s (.recovered v) (.appendEvent (some s.key) (.stepCompleted v .verify)) (.ok seq)
        (.resolved v)
  | again (seq : Option Nat) : s.idempotency = .atLeastOnce →
      Moves s .unknown (.appendEvent (some s.key) (.crashWindowRetried s.token.str)) (.ok seq)
        (.ready 1 false)
  | start (seq : Option Nat) :
      Moves s .starting (.appendEvent (some s.key) (.stepStarted s.token.str)) (.ok seq)
        (.ready 1 false)
  | addToolCall {n : Nat} : (n : Int) ≤ s.attempts → s.kind = .tool →
      Moves s (.ready n false) .addToolCall () (.ready n true)
  | enter {n : Nat} {counted : Bool} {u : UserCall} : (n : Int) ≤ s.attempts →
      (s.kind = .tool → counted = true) → u = s.body n →
      Moves s (.ready n counted) (.enter u) () (.running n)
  | returned {n : Nat} {u : UserCall} (v : Value) : u = s.body n →
      Moves s (.running n) (.leave u) (.ok v) (.returned n v)
  | raised {n : Nat} {u : UserCall} (exc : Exn) : u = s.body n →
      Moves s (.running n) (.leave u) (.error exc) (.raised n exc)
  | complete {n : Nat} {v : Value} (seq : Option Nat) : v.jsonable = true →
      Moves s (.returned n v) (.appendEvent (some s.key) (.stepCompleted v (.attempt n))) (.ok seq)
        (.recorded v)
  | retry {n : Nat} {exc : Exn} (seq : Option Nat) : exc.control = false →
      (n : Int) < s.attempts →
      Moves s (.raised n exc) (.appendEvent (some s.key) (.stepErrorRetried n exc.repr)) (.ok seq)
        (.waiting n)
  | fail {n : Nat} {exc : Exn} (seq : Option Nat) : exc.control = false →
      ¬ (n : Int) < s.attempts →
      Moves s (.raised n exc) (.appendEvent (some s.key) (.stepFailed n exc.repr)) (.ok seq)
        (.failed n exc)
  | sleep (n : Nat) (seconds : Rat) :
      Moves s (.waiting n) (.sleep seconds) () (.ready (n + 1) false)
  | recordResolved (v : Value) : Moves s (.resolved v) (.recordResult s.key v) () (.resolved v)
  | record (v : Value) : Moves s (.recorded v) (.recordResult s.key v) () (.recorded v)
  | countExecuted (v : Value) : Moves s (.recorded v) .countExecuted () (.recorded v)
  | saveUsage (v : Value) : Moves s (.recorded v) .saveUsage (.ok ()) (.saved v)
  | addModelUsage {v : Value} {response : ModelResponse} : s.kind = .model →
      ModelResponse.fromDict v = .ok response →
      Moves s (.saved v)
        (.addModelUsage response.inputTokens response.outputTokens response.costUsd) () (.billed v)
  | saveBill (v : Value) : Moves s (.billed v) .saveUsage (.ok ()) (.metered v)
  | invoked {v : Value} {payload : Payload} (seq : Option Nat) : s.kind = .tool →
      payload.trailing →
      Moves s (.saved v) (.appendEvent (some s.key) payload) (.ok seq) (.closed v)
  | called {v : Value} {payload : Payload} (seq : Option Nat) : payload.trailing →
      Moves s (.metered v) (.appendEvent (some s.key) payload) (.ok seq) (.closed v)
  | raise {stage : Stage} {o : Op} {r : Ans o} {exc : Exn} : s.allowed stage o →
      failure o r = some exc → Moves s stage o r (.escaped exc)

/-- An allowed operation is one of the moves, whatever its answer. -/
theorem StepSetup.moves {s : StepSetup} {stage : Stage} {o : Op} (may : s.allowed stage o)
    (r : Ans o) : s.Moves stage o r (s.next stage o r) := by
  have raise : ∀ {exc : Exn}, failure o r = some exc → s.Moves stage o r (.escaped exc) :=
    fun failed => .raise may failed
  cases stage with
  | entry =>
    cases may
    cases r with
    | some v => exact .replay v
    | none =>
      cases hg : s.guarded with
      | true => simpa only [StepSetup.next, hg, if_pos] using Moves.guard hg
      | false => simpa [StepSetup.next, hg] using Moves.unguarded hg
  | replayed v =>
    cases may
    exact .countReplayed v
  | boundary =>
    cases may
    rcases r with e | _ | _
    · exact raise rfl
    · exact .lost
    · exact .owned
  | leased =>
    cases may
    rcases r with e | _ | _
    · exact raise rfl
    · exact .uncancelled
    · exact .cancelled
  | uncancelled =>
    cases may
    rcases r with e | _
    · exact raise rfl
    · exact .admitted
  | admitted =>
    cases may
    cases r with
    | false => exact .fresh
    | true =>
      cases hv : s.verify with
      | true => simpa only [StepSetup.next, hv, if_pos] using Moves.verifiable hv
      | false => simpa [StepSetup.next, hv] using Moves.unverifiable hv
  | recovering =>
    cases may
    exact .verify
  | verifying =>
    cases may
    rcases r with exc | v
    · exact .verifierRaised exc
    · cases hv : v.isNone with
      | true => simpa [StepSetup.next, Stage.verified, hv] using Moves.undecided hv
      | false => simpa [StepSetup.next, Stage.verified, hv] using Moves.landed hv
  | recovered v =>
    obtain ⟨json, rfl⟩ := may
    rcases r with e | seq
    · exact raise rfl
    · exact .resolve seq json
  | unknown =>
    obtain ⟨class_, rfl⟩ := may
    rcases r with e | seq
    · exact raise rfl
    · exact .again seq class_
  | starting =>
    cases may
    rcases r with e | seq
    · exact raise rfl
    · exact .start seq
  | ready n counted =>
    obtain ⟨left, ⟨tool, rfl, rfl⟩ | ⟨counts, rfl⟩⟩ := may
    · exact .addToolCall left tool
    · exact .enter left counts rfl
  | running n =>
    cases may
    rcases r with exc | v
    · exact .raised exc rfl
    · exact .returned v rfl
  | returned n v =>
    obtain ⟨json, rfl⟩ := may
    rcases r with e | seq
    · exact raise rfl
    · exact .complete seq json
  | raised n exc =>
    obtain ⟨control, rfl⟩ := may
    generalize event : s.raisedEvent n exc = payload at r raise
    by_cases more : (n : Int) < s.attempts
    · obtain rfl : _ = payload := (if_pos more).symm.trans event
      simp only [StepSetup.next, if_pos more]
      rcases r with e | seq
      · exact raise rfl
      · exact .retry seq control more
    · obtain rfl : _ = payload := (if_neg more).symm.trans event
      simp only [StepSetup.next, if_neg more]
      rcases r with e | seq
      · exact raise rfl
      · exact .fail seq control more
  | waiting n =>
    obtain ⟨seconds, rfl⟩ := may
    exact .sleep n seconds
  | resolved v =>
    cases may
    exact .recordResolved v
  | recorded v =>
    rcases may with rfl | rfl | rfl
    · exact .record v
    · exact .countExecuted v
    · rcases r with e | _
      · exact raise rfl
      · exact .saveUsage v
  | saved v =>
    rcases may with ⟨tool, payload, trailing, rfl⟩ | ⟨model, response, read, rfl⟩
    · rcases r with e | seq
      · exact raise rfl
      · exact .invoked seq tool trailing
    · exact .addModelUsage model read
  | billed v =>
    cases may
    rcases r with e | _
    · exact raise rfl
    · exact .saveBill v
  | metered v =>
    obtain ⟨payload, trailing, rfl⟩ := may
    rcases r with e | seq
    · exact raise rfl
    · exact .called seq trailing
  | closed v => exact may.elim
  | failed n exc => exact may.elim
  | escaped exc => exact may.elim

/-- The machine as a protocol. -/
def stepProtocol (s : StepSetup) : Protocol Ans Stage := ⟨s.allowed, s.next⟩

/-! ## The code refines the machine -/

/-- What `_step_with_key` fixes for its key. -/
def StepCall.setup (cfg : Config) (runId : Uuid) (guarded : Bool) (kind : StepKind)
    (c : StepCall) : StepSetup where
  runId := runId
  guarded := guarded
  key := c.key
  token := stepToken cfg runId c.key
  idempotency := c.idempotency
  verify := c.verify.isSome
  attempts := effectiveAttempts cfg c.maxAttempts
  kind := kind

/-- What `_step_with_key` returns or raises, and at which stage. -/
def StepEnds (s : StepSetup) (stage : Stage) : Except Exn (Value × Bool) → Prop
  | .ok (v, true) => stage = .saved v
  | .ok (v, false) => stage = .replayed v ∨ stage = .resolved v
  | .error exc => s.Ends .ok stage (.error exc)

namespace StepMachineLemmas

variable {cfg : Config} {runId : Uuid} {guarded : Bool} {kind : StepKind} {s : StepSetup}

@[simp] theorem stepProtocol_allowed : (stepProtocol s).allowed = s.allowed := rfl

@[simp] theorem stepProtocol_next : (stepProtocol s).next = s.next := rfl

theorem append_obeys (done : Stage) {stage : Stage} {key : Option String} {payload : Payload}
    {Q : Stage → Except Exn (Option Nat) → Prop}
    (may : s.allowed stage (.appendEvent key payload))
    (next : ∀ r, s.next stage (.appendEvent key payload) r = .after done r)
    (ok : ∀ n, Q done (.ok n)) (error : ∀ e, Q (.escaped e) (.error e)) :
    Obeys (stepProtocol s) stage (appendEvent key payload) Q := by
  simp only [appendEvent, obeys_perform, stepProtocol_allowed, stepProtocol_next]
  refine ⟨may, fun r => ?_⟩
  rw [next]
  cases r with
  | ok n => exact ok n
  | error e => exact error e

theorem invoke_obeys {stage : Stage} {u : UserCall} {Q : Stage → Except Exn Value → Prop}
    (enter : s.allowed stage (.enter u))
    (leave : s.allowed (s.next stage (.enter u) ()) (.leave u))
    (post : ∀ r, Q (s.next (s.next stage (.enter u) ()) (.leave u) r) r) :
    Obeys (stepProtocol s) stage (invoke u) Q := by
  simp only [invoke, obeys_bind, obeys_ask, obeys_perform, then_ok, stepProtocol_allowed,
    stepProtocol_next]
  exact ⟨enter, fun _ => ⟨leave, post⟩⟩

theorem saveUsage_obeys (done : Stage) {stage : Stage} {Q : Stage → Except Exn Unit → Prop}
    (may : s.allowed stage .saveUsage) (next : ∀ r, s.next stage .saveUsage r = .after done r)
    (ok : Q done (.ok ())) (error : ∀ e, Q (.escaped e) (.error e)) :
    Obeys (stepProtocol s) stage saveUsage Q := by
  simp only [saveUsage, obeys_perform, stepProtocol_allowed, stepProtocol_next]
  refine ⟨may, fun r => ?_⟩
  rw [next]
  cases r with
  | ok _ => exact ok
  | error e => exact error e

theorem checkpoint_obeys (run : s.runId = runId) (lease : s.guarded = guarded)
    {Q : Stage → Except Exn Unit → Prop}
    (ok : Q .admitted (.ok ())) (error : ∀ e, Q (.escaped e) (.error e)) :
    Obeys (stepProtocol s) (if s.guarded then .boundary else .leased)
      (checkpointGuards runId guarded) Q := by
  subst run lease
  have budget : Obeys (stepProtocol s) .uncancelled checkBudget Q := by
    simp only [checkBudget, obeys_perform, stepProtocol_allowed, stepProtocol_next]
    refine ⟨rfl, ?_⟩
    rintro (e | _)
    · exact error e
    · exact ok
  have cancel : Obeys (stepProtocol s) .leased (do
      let requested ← isCancelRequested
      if requested then .raise (cancelled s.runId)
      checkBudget) Q := by
    simp only [isCancelRequested, obeys_bind, obeys_perform, stepProtocol_allowed,
      stepProtocol_next]
    refine ⟨rfl, ?_⟩
    rintro (e | _ | _)
    · exact error e
    · exact budget
    · exact error _
  cases guarded : s.guarded with
  | false => simpa [checkpointGuards, guarded] using cancel
  | true =>
    simp only [checkpointGuards, heartbeat, if_true, obeys_bind, obeys_perform,
      stepProtocol_allowed, stepProtocol_next]
    refine ⟨rfl, ?_⟩
    rintro (e | _ | _)
    · exact error e
    · exact error _
    · show Obeys _ Stage.leased _ _
      simpa using cancel

/-! The retry loop: `left` rounds remain when try `n` is the next one. -/

theorem loop_obeys {c : StepCall} (hs : s = c.setup cfg runId guarded kind)
    (body : ∀ n : Nat, (n : Int) ≤ s.attempts →
      Obeys (stepProtocol s) (.ready n false) (c.fn s.token n) fun stage r => stage = .tried n r)
    (left n : Nat) (last : Option Exn) (rounds : n + left = s.attempts.toNat + 1) (pos : 0 < n) :
    Obeys (stepProtocol s) (.ready n false) (attemptLoop cfg c s.token s.attempts left n last)
      (StepEnds s) := by
  have key : s.key = c.key := by rw [hs]; rfl
  induction left generalizing n last with
  | zero =>
    have none_left : s.attempts < n := by omega
    exact ⟨none_left, _, by rw [key]⟩
  | succ left ih =>
    have tries_left : (n : Int) ≤ s.attempts := by omega
    simp only [attemptLoop, obeys_bind, obeys_attempt]
    refine (body n tries_left).mono ?_
    rintro _ (exc | value) rfl
    · -- the try raised: a control signal, a retry, or the last failure
      simp only [then_ok, Stage.tried]
      cases control : exc.control with
      | true => exact ⟨control, rfl⟩
      | false =>
        by_cases more : (n : Int) < s.attempts
        · rw [if_neg (by simp), if_pos more, obeys_bind]
          refine append_obeys (.waiting n)
            ⟨control, by rw [StepSetup.raisedEvent, if_pos more, key]⟩
            (fun r => by simp only [StepSetup.next, if_pos more]) (fun _ => ?_) fun e => rfl
          simp only [then_ok, sleep, obeys_bind, obeys_ask]
          exact ⟨⟨_, rfl⟩, fun _ => ih (n + 1) _ (by omega) (by omega)⟩
        · rw [if_neg (by simp), if_neg more, obeys_bind]
          refine append_obeys (.failed n exc)
            ⟨control, by rw [StepSetup.raisedEvent, if_neg more, key]⟩
            (fun r => by simp only [StepSetup.next, if_neg more]) (fun _ => ?_) fun e => rfl
          show _ = _
          rw [key]
    · -- the try returned: record it before anyone sees it
      simp only [then_ok, Stage.tried, ensureJson]
      cases json : value.jsonable with
      | false =>
        rw [if_neg (by simp)]
        exact ⟨json, by rw [key]⟩
      | true =>
        rw [if_pos rfl, obeys_bind, obeys_ofExcept, then_ok, obeys_bind]
        refine append_obeys (.recorded value) ⟨json, by rw [key]⟩ (fun _ => rfl)
          (fun _ => ?_) fun e => rfl
        simp only [then_ok, recordResult, countExecuted, persistUsage, obeys_bind, obeys_ask]
        refine ⟨.inl (by rw [key]), fun _ => ⟨.inr (.inl rfl), fun _ => ?_⟩⟩
        exact saveUsage_obeys (.saved value) (.inr (.inr rfl)) (fun _ => rfl) rfl fun e => rfl

/-! The crash window. -/

theorem window_obeys {c : StepCall} (hs : s = c.setup cfg runId guarded kind)
    (verify : ∀ v, c.verify = some v →
      Obeys (stepProtocol s) .recovering (v s.token) fun stage r => stage = .verified r)
    {Q : Stage → Except Exn (Option Value) → Prop}
    (resolved : ∀ v, Q (.resolved v) (.ok (some v))) (again : Q (.ready 1 false) (.ok none))
    (error : ∀ stage e, s.Ends .ok stage (.error e) → Q stage (.error e)) :
    Obeys (stepProtocol s) (if s.verify then .recovering else .unknown)
      (resolveCrashWindow c s.token) Q := by
  have key : s.key = c.key := by rw [hs]; rfl
  have class_ : s.idempotency = c.idempotency := by rw [hs]; rfl
  have known : s.verify = c.verify.isSome := by rw [hs]; rfl
  -- the window after the verifier, if there is one, knew nothing
  have undecided : Obeys (stepProtocol s) .unknown
      (if c.idempotency = .atLeastOnce then do
        let _ ← appendEvent (some c.key) (.crashWindowRetried s.token.str)
        return none
      else .raise (.ambiguousStep c.key s.token.str)) Q := by
    split
    · next h =>
      rw [obeys_bind]
      exact append_obeys (.ready 1 false) ⟨class_.trans h, by rw [key]⟩ (fun _ => rfl)
        (fun _ => again) fun e => error _ e rfl
    · next h =>
      refine error _ _ ⟨?_, by rw [key]⟩
      cases hi : s.idempotency with
      | atMostOnce => rfl
      | atLeastOnce => exact absurd (class_.symm.trans hi) h
  unfold resolveCrashWindow
  cases hv : c.verify with
  | none =>
    rw [hv] at known
    simpa [known, Value.isNone] using undecided
  | some v =>
    rw [hv] at known
    simp only [known, Option.isSome_some, if_true, obeys_bind]
    refine (verify v hv).mono ?_
    rintro _ (e | outcome) rfl
    · exact error _ e rfl
    · cases landed : outcome.isNone with
      | true => simpa [Stage.verified, landed] using undecided
      | false =>
        simp only [then_ok, Stage.verified, landed, ensureJson, Bool.not_false, if_true,
          Bool.false_eq_true, if_false, obeys_bind, obeys_ofExcept]
        cases json : outcome.jsonable with
        | false => exact error _ _ ⟨json, by rw [key]⟩
        | true =>
          simp only [if_true, then_ok, obeys_bind]
          refine append_obeys (.resolved outcome) ⟨json, by rw [key]⟩ (fun _ => rfl)
            (fun _ => ?_) fun e => error _ e rfl
          simp only [then_ok, recordResult, obeys_bind, obeys_ask]
          exact ⟨congrArg (Op.recordResult · outcome) key.symm, fun _ => resolved outcome⟩

/-! The whole of `_step_with_key`. -/

theorem stepWithKey_obeys {c : StepCall} (hs : s = c.setup cfg runId guarded kind)
    (body : ∀ n : Nat, (n : Int) ≤ s.attempts →
      Obeys (stepProtocol s) (.ready n false) (c.fn s.token n) fun stage r => stage = .tried n r)
    (verify : ∀ v, c.verify = some v →
      Obeys (stepProtocol s) .recovering (v s.token) fun stage r => stage = .verified r) :
    Obeys (stepProtocol s) .entry (stepWithKey cfg runId guarded c) (StepEnds s) := by
  have key : s.key = c.key := by rw [hs]; rfl
  have token : stepToken cfg runId c.key = s.token := by rw [hs]; rfl
  have attempts : effectiveAttempts cfg c.maxAttempts = s.attempts := by rw [hs]; rfl
  have loop : Obeys (stepProtocol s) (.ready 1 false)
      (attemptLoop cfg c s.token s.attempts s.attempts.toNat 1 none) (StepEnds s) :=
    loop_obeys hs body _ 1 none (by omega) (by omega)
  simp only [stepWithKey, completed, unresolved, obeys_bind, obeys_ask, stepProtocol_allowed,
    stepProtocol_next, token, attempts]
  refine ⟨congrArg Op.completed key.symm, ?_⟩
  rintro (_ | result)
  · -- nothing recorded: the boundary, then a new window or the old one
    simp only [then_ok, obeys_bind]
    show Obeys _ (if s.guarded then Stage.boundary else Stage.leased) _ _
    refine checkpoint_obeys (by rw [hs]; rfl) (by rw [hs]; rfl) ?_ fun e => rfl
    simp only [then_ok, obeys_bind, obeys_ask, stepProtocol_allowed, stepProtocol_next]
    refine ⟨congrArg Op.unresolved key.symm, ?_⟩
    rintro (_ | _)
    · rw [if_neg (by simp), obeys_bind]
      exact append_obeys (.ready 1 false)
        (congrArg (fun k => Op.appendEvent (some k) _) key.symm) (fun _ => rfl)
        (fun _ => loop) fun e => rfl
    · rw [if_pos rfl, obeys_bind]
      exact window_obeys hs verify (fun v => .inr rfl) loop fun stage e h => h
  · simp only [then_ok, countReplayed, obeys_bind, obeys_ask, stepProtocol_allowed,
      stepProtocol_next]
    exact ⟨rfl, fun _ => .inl rfl⟩

/-! The public steps. What a call makes of a result does not change how else it ends. -/

theorem ends_reply_error {stage : Stage} {e : Exn} (reply : Value → Except Exn Value)
    (h : s.Ends .ok stage (.error e)) : s.Ends reply stage (.error e) := by
  cases stage with
  | replayed v | resolved v | closed v => cases h
  | saved v => cases h.1
  | _ => exact h

/-- Where a step ends that was not executed. -/
theorem ends_found {stage : Stage} {v : Value} (reply : Value → Except Exn Value)
    (h : stage = .replayed v ∨ stage = .resolved v) : s.Ends reply stage (reply v) := by
  rcases h with rfl | rfl <;> rfl

theorem step_obeys (key : String) (idempotency : StepIdempotency) (verify : Bool)
    (maxAttempts : Option Int) (hs : s = ⟨runId, guarded, key, stepToken cfg runId key,
      idempotency, verify, effectiveAttempts cfg maxAttempts, .plain⟩) :
    Obeys (stepProtocol s) .entry (step cfg runId guarded key idempotency verify maxAttempts)
      (s.Ends .ok) := by
  unfold step
  rw [obeys_bind]
  refine (stepWithKey_obeys (?_ : _ = StepCall.setup _ _ _ .plain _) (fun n le => ?_)
    fun v hv => ?_).mono ?_
  · rw [hs]
    cases verify <;> rfl
  · subst hs
    exact invoke_obeys ⟨le, .inr ⟨nofun, rfl⟩⟩ rfl fun _ => rfl
  · subst hs
    obtain ⟨_, rfl⟩ : verify = true ∧ (fun token => invoke (.verify key token)) = v := by
      simpa using hv
    exact invoke_obeys rfl rfl fun _ => rfl
  · rintro stage (e | ⟨v, _ | _⟩) ends
    · exact ends
    · exact ends_found .ok ends
    · obtain rfl : stage = .saved v := ends
      exact ⟨rfl, .inl (by rw [hs])⟩

theorem callTool_obeys (spec : ToolSpec) (arguments : Value) (key : String)
    (hs : s = ⟨runId, guarded, key, stepToken cfg runId key, spec.idempotency, spec.verify,
      effectiveAttempts cfg none, .tool⟩) :
    Obeys (stepProtocol s) .entry (callTool cfg runId guarded spec arguments key)
      (s.Ends .ok) := by
  unfold callTool
  rw [obeys_bind]
  refine (stepWithKey_obeys (?_ : _ = StepCall.setup _ _ _ .tool _) (fun n le => ?_)
    fun v hv => ?_).mono ?_
  · rw [hs]
    cases spec.verify <;> rfl
  · subst hs
    simp only [addToolCall, obeys_bind, obeys_ask]
    exact ⟨⟨le, .inl ⟨rfl, rfl, rfl⟩⟩, fun _ =>
      invoke_obeys ⟨le, .inr ⟨fun _ => rfl, rfl⟩⟩ rfl fun _ => rfl⟩
  · subst hs
    obtain ⟨_, rfl⟩ : spec.verify = true ∧ (fun token => invoke (.verify key token)) = v := by
      simpa using hv
    exact invoke_obeys rfl rfl fun _ => rfl
  · rintro stage (e | ⟨v, _ | _⟩) ends
    · exact ends
    · exact ends_found .ok ends
    · obtain rfl : stage = .saved v := ends
      subst hs
      simp only [then_ok, if_true, obeys_bind]
      exact append_obeys (.closed v) (.inl ⟨rfl, _, by trivial, rfl⟩) (fun _ => rfl)
        (fun _ => rfl) fun _ => rfl

theorem model_obeys (key name : String) (hs : s = ⟨runId, guarded, key, stepToken cfg runId key,
      .atLeastOnce, false, effectiveAttempts cfg none, .model⟩) :
    Obeys (stepProtocol s) .entry (model cfg runId guarded key)
      (s.Ends (Call.model name).reply) := by
  unfold model
  rw [obeys_bind]
  refine (stepWithKey_obeys (?_ : _ = StepCall.setup _ _ _ .model _) (fun n le => ?_)
    fun v hv => ?_).mono ?_
  · rw [hs]
    rfl
  · subst hs
    exact invoke_obeys ⟨le, .inr ⟨nofun, rfl⟩⟩ rfl fun _ => rfl
  · exact absurd hv (by simp)
  · have reply : ∀ raw, (Call.model name).reply raw =
        (ModelResponse.fromDict raw).map (·.toDict) := fun _ => rfl
    rintro stage (e | ⟨raw, _ | _⟩) ends
    · exact ends_reply_error _ ends
    · have done := ends_found (s := s) (Call.model name).reply ends
      rw [then_ok, obeys_bind, obeys_ofExcept]
      rw [reply] at done
      cases hr : ModelResponse.fromDict raw with
      | error e => rwa [hr] at done
      | ok response => rwa [hr] at done
    · obtain rfl : stage = .saved raw := ends
      rw [then_ok, obeys_bind, obeys_ofExcept]
      cases hr : ModelResponse.fromDict raw with
      | error e => exact ⟨by rw [reply, hr]; rfl, .inr ⟨e, hr⟩⟩
      | ok response =>
        subst hs
        simp only [then_ok, if_true, addModelUsage, persistUsage, obeys_bind, obeys_ask]
        refine ⟨.inr ⟨rfl, response, hr, rfl⟩, fun _ => ?_⟩
        refine saveUsage_obeys (.metered raw) rfl (fun _ => rfl) ?_ fun _ => rfl
        rw [then_ok, obeys_bind]
        refine append_obeys (.closed raw) ⟨_, by trivial, rfl⟩ (fun _ => rfl) (fun _ => ?_)
          fun _ => rfl
        show _ = _
        rw [reply, hr]
        rfl

end StepMachineLemmas

open StepMachineLemmas

def Call.kind : Call → StepKind
  | .callTool _ _ => .tool
  | .model _ => .model
  | .step _ _ _ _ | .gather _ _ _ => .plain

/-- What a call on the context fixes for one of its keys. -/
def Call.setup (cfg : Config) (runId : Uuid) (guarded : Bool) (key : String) (c : Call) :
    StepSetup where
  runId := runId
  guarded := guarded
  key := key
  token := stepToken cfg runId key
  idempotency := c.idempotency cfg
  verify := c.verify cfg
  attempts := c.attempts cfg
  kind := c.kind

/-- The code of every call refines the machine: it performs only the operations the machine
allows, whatever the answers, and ends as the stage it has reached says. -/
theorem call_obeys {cfg : Config} {runId : Uuid} {guarded : Bool} {key : String} {c : Call}
    {names : List String} (known : c.names cfg = .ok names) :
    Obeys (stepProtocol (c.setup cfg runId guarded key)) .entry (c.code cfg runId guarded key)
      ((c.setup cfg runId guarded key).Ends c.reply) := by
  cases c with
  | step name idempotency verify maxAttempts =>
    exact step_obeys key idempotency verify maxAttempts rfl
  | model name => exact model_obeys key name rfl
  | gather name branches idempotency => exact step_obeys key idempotency false none rfl
  | callTool name arguments =>
    cases tool : cfg.tool name with
    | error e => simp [Call.names, tool, bind, Except.bind] at known
    | ok spec =>
      simp only [Call.code, tool, obeys_bind, obeys_ofExcept, then_ok]
      refine callTool_obeys spec arguments key ?_
      simp [Call.setup, Call.idempotency, Call.verify, Call.attempts, Call.kind, tool,
        Except.toOption]

end AnchorRuntime
