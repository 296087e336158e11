import AnchorRuntime.Lib.Effect
import AnchorRuntime.Models

/-!
# The run context

`context.py`: the per-attempt memory of a run, its replay state, and the durable steps.
Code is a program over `Op`: one operation for each store call and for each piece of user
code, and one for each access to the memory the branches of an attempt share. Between two
operations anything may happen, another branch of the attempt included.

User code is entered and left: `enter u` is the call, `leave u` is where the caller waits
for what it returns or raises.
-/

namespace AnchorRuntime

open Effect

/-! ## Memory -/

/-- `RunContext`, the state behind the methods. `loaded` are the events it was built from;
no code reads them again. -/
structure RunContext where
  run : RunRecord
  loaded : List Event
  usage : Usage
  ordinals : String → Nat
  completed : String → Option Value
  unresolved : String → Option String
  replayedSteps : Nat
  executedSteps : Nat

namespace RunContext

/-- One round of the loop of `_build_replay_state`. -/
def replayEvent (ctx : RunContext) (event : Event) : RunContext :=
  match event.stepKey with
  | none => ctx
  | some key =>
    match event.payload with
    | .stepStarted token =>
      { ctx with unresolved := Function.update ctx.unresolved key (some token) }
    | .stepCompleted result _ =>
      { ctx with
        completed := Function.update ctx.completed key (some result)
        unresolved := Function.update ctx.unresolved key none }
    | .stepFailed _ _ => { ctx with unresolved := Function.update ctx.unresolved key none }
    | _ => ctx

/-- `_build_replay_state` -/
def buildReplayState (ctx : RunContext) (events : List Event) : RunContext :=
  events.foldl replayEvent ctx

/-- `RunContext.__init__` -/
def init (run : RunRecord) (events : List Event) : RunContext :=
  buildReplayState
    { run, loaded := events, usage := run.usage, ordinals := fun _ => 0,
      completed := fun _ => none, unresolved := fun _ => none,
      replayedSteps := 0, executedSteps := 0 } events

/-- `f"{name}#{n}"` -/
def stepKey (name : String) (n : Nat) : String := s!"{name}#{n}"

/-- `_next_key` -/
def nextKey (ctx : RunContext) (name : String) : String × RunContext :=
  let n := ctx.ordinals name + 1
  (stepKey name n, { ctx with ordinals := Function.update ctx.ordinals name n })

/-- Keys for several names, in list order. -/
def nextKeys (ctx : RunContext) : List String → List String × RunContext
  | [] => ([], ctx)
  | name :: names =>
    let (key, ctx) := ctx.nextKey name
    let (keys, ctx) := nextKeys ctx names
    (key :: keys, ctx)

/-- `BudgetTracker.elapsed_seconds` -/
def elapsedSeconds (ctx : RunContext) (now : Int) : Rat :=
  (now - ctx.run.createdAt : Int) / 1000000

end RunContext

/-! ## Operations -/

/-- What a boundary raises when another worker holds the lease. -/
def leaseLost (runId : Uuid) : Exn := .leaseLost s!"lease lost for run {runId.str}"

/-- What a boundary raises when the run is cancelled. -/
def cancelled (runId : Uuid) : Exn := .cancellationRequested s!"run {runId.str} was cancelled"

/-- User code: the workflow function, a step or tool body on its n-th try, a verifier, and
the provider called by a model step on its n-th try. -/
inductive UserCall
  | workflow (name : String) (input : Value)
  | body (key : String) (token : Uuid) (attempt : Nat)
  | verify (key : String) (token : Uuid)
  | complete (key : String) (token : Uuid) (attempt : Nat)

/-- The invocations of a step's body: its key, its token and the number of the try. -/
def UserCall.invocation : UserCall → Option (String × Uuid × Nat)
  | .body key token attempt | .complete key token attempt => some (key, token, attempt)
  | _ => none

/-- What the end of an attempt reads off its context. -/
structure Snapshot where
  usage : Usage
  elapsedSeconds : Rat
  replayedSteps : Nat
  executedSteps : Nat

/-- What the code of an attempt waits for. -/
inductive Op
  -- store calls
  | getRun
  | bumpAttempt
  | setStatus (status : RunStatus) (result : Value) (error : Option RunError)
  | saveUsage
  | isCancelRequested
  | appendEvent (stepKey : Option String) (payload : Payload)
  | loadEvents
  | heartbeat
  | release
  | dequeue
  -- the memory of the attempt
  | newContext (run : RunRecord) (events : List Event)
  | completed (key : String)
  | countReplayed
  | unresolved (key : String)
  | recordResult (key : String) (result : Value)
  | countExecuted
  | checkBudget
  | addToolCall
  | addModelUsage (inputTokens outputTokens : Int) (costUsd : Rat)
  | snapshot
  -- user code
  | enter (u : UserCall)
  | leave (u : UserCall)
  -- the event loop
  | sleep (seconds : Rat)
  | stopHeartbeat

/-- The answer of each operation. A store call or user code may raise. -/
@[reducible] def Ans : Op → Type
  | .getRun => Except Exn (Option RunRecord)
  | .bumpAttempt => Except Exn (Option Nat)
  | .setStatus _ _ _ | .saveUsage | .release | .dequeue => Except Exn Unit
  | .isCancelRequested | .heartbeat => Except Exn Bool
  | .appendEvent _ _ => Except Exn (Option Nat)
  | .loadEvents => Except Exn (List Event)
  | .completed _ => Option Value
  | .unresolved _ => Bool
  | .checkBudget | .stopHeartbeat => Except Exn Unit
  | .snapshot => Snapshot
  | .leave _ => Except Exn Value
  | .newContext _ _ | .countReplayed | .recordResult _ _ | .countExecuted | .addToolCall
  | .addModelUsage _ _ _ | .enter _ | .sleep _ => Unit

/-- The exception an operation has raised, where the code does not catch it. -/
def failure : (o : Op) → Ans o → Option Exn
  | .getRun, .error exc | .bumpAttempt, .error exc | .setStatus _ _ _, .error exc
  | .saveUsage, .error exc | .isCancelRequested, .error exc | .appendEvent _ _, .error exc
  | .loadEvents, .error exc | .heartbeat, .error exc | .checkBudget, .error exc => some exc
  | _, _ => none

abbrev Code := Prog Ans Exn

namespace Code

def getRun : Code (Option RunRecord) := .perform .getRun id

def bumpAttempt : Code (Option Nat) := .perform .bumpAttempt id

def setStatus (status : RunStatus) (result : Value) (error : Option RunError) : Code Unit :=
  .perform (.setStatus status result error) id

def saveUsage : Code Unit := .perform .saveUsage id

def isCancelRequested : Code Bool := .perform .isCancelRequested id

def appendEvent (stepKey : Option String) (payload : Payload) : Code (Option Nat) :=
  .perform (.appendEvent stepKey payload) id

def loadEvents : Code (List Event) := .perform .loadEvents id

def heartbeat : Code Bool := .perform .heartbeat id

def release : Code Unit := .perform .release id

def dequeue : Code Unit := .perform .dequeue id

def newContext (run : RunRecord) (events : List Event) : Code Unit :=
  .ask (Op.newContext run events)

def completed (key : String) : Code (Option Value) := .ask (Op.completed key)

def countReplayed : Code Unit := .ask Op.countReplayed

def unresolved (key : String) : Code Bool := .ask (Op.unresolved key)

def recordResult (key : String) (result : Value) : Code Unit := .ask (Op.recordResult key result)

def countExecuted : Code Unit := .ask Op.countExecuted

def checkBudget : Code Unit := .perform .checkBudget id

def addToolCall : Code Unit := .ask Op.addToolCall

def addModelUsage (inputTokens outputTokens : Int) (costUsd : Rat) : Code Unit :=
  .ask (Op.addModelUsage inputTokens outputTokens costUsd)

def snapshot : Code Snapshot := .ask Op.snapshot

def sleep (seconds : Rat) : Code Unit := .ask (Op.sleep seconds)

def stopHeartbeat : Code Unit := .perform .stopHeartbeat id

/-- Call user code and wait for it. -/
def invoke (u : UserCall) : Code Value := do
  .ask (Op.enter u)
  .perform (.leave u) id

end Code

open Code

/-! ## Steps -/

/-- What `_ensure_json` raises. -/
def notSerialisable (value : Value) (key : String) : Exn :=
  .exception "TypeError"
    (s!"step {pyRepr key} returned a value that is not JSON-serialisable " ++
      s!"({value.typeName}); step results are persisted to the event log")

/-- `_ensure_json` -/
def ensureJson (value : Value) (key : String) : Except Exn Value :=
  if value.jsonable then .ok value else .error (notSerialisable value key)

/-- `max_attempts or settings.step_max_attempts` -/
def effectiveAttempts (cfg : Config) : Option Int → Int
  | none => cfg.stepMaxAttempts
  | some n => if n = 0 then cfg.stepMaxAttempts else n

/-- What a call hands to `_step_with_key`. -/
structure StepCall where
  key : String
  fn : Uuid → Nat → Code Value
  idempotency : StepIdempotency
  verify : Option (Uuid → Code Value)
  maxAttempts : Option Int

section Steps

variable (cfg : Config) (runId : Uuid) (guarded : Bool)

/-- `_checkpoint_guards`: lease, cancellation, budget. -/
def checkpointGuards : Code Unit := do
  let owned ← if guarded then heartbeat else pure true
  if !owned then .raise (leaseLost runId)
  let requested ← isCancelRequested
  if requested then .raise (cancelled runId)
  checkBudget

/-- `_persist_usage`; the usage is read when the statement runs, so the lock around the
call orders nothing else. -/
def persistUsage : Code Unit := saveUsage

/-- `_resolve_crash_window`; none is the sentinel `_UNRESOLVED`. -/
def resolveCrashWindow (s : StepCall) (token : Uuid) : Code (Option Value) := do
  let outcome ← match s.verify with
    | none => pure Value.none
    | some verify => verify token
  if !outcome.isNone then
    let result ← .ofExcept (ensureJson outcome s.key)
    let _ ← appendEvent (some s.key) (.stepCompleted result .verify)
    recordResult s.key outcome
    return some outcome
  else if s.idempotency = .atLeastOnce then
    let _ ← appendEvent (some s.key) (.crashWindowRetried token.str)
    return none
  else .raise (.ambiguousStep s.key token.str)

/-- The retry loop of `_step_with_key`, `left` rounds before the end of its range. -/
def attemptLoop (s : StepCall) (token : Uuid) (attempts : Int) :
    (left attempt : Nat) → Option Exn → Code (Value × Bool)
  | 0, _, lastError =>
    .raise (.stepFailed s.key attempts (lastError.getD (.exception "RuntimeError" "unknown")))
  | left + 1, attempt, _ => do
    let outcome ← (s.fn token attempt).attempt
    match outcome with
    | .ok value =>
      let result ← .ofExcept (ensureJson value s.key)
      let _ ← appendEvent (some s.key) (.stepCompleted result (.attempt attempt))
      recordResult s.key value
      countExecuted
      persistUsage
      return (value, true)
    | .error exc =>
      if exc.control then .raise exc
      else if (attempt : Int) < attempts then
        let _ ← appendEvent (some s.key) (.stepErrorRetried attempt exc.repr)
        sleep (cfg.stepBackoffBase * 2 ^ (attempt - 1))
        attemptLoop s token attempts left (attempt + 1) (some exc)
      else
        let _ ← appendEvent (some s.key) (.stepFailed attempt exc.repr)
        .raise (.stepFailed s.key attempt exc)

/-- `_step_with_key` -/
def stepWithKey (s : StepCall) : Code (Value × Bool) := do
  match ← completed s.key with
  | some result =>
    countReplayed
    return (result, false)
  | none =>
    checkpointGuards runId guarded
    let token := stepToken cfg runId s.key
    let attempts := effectiveAttempts cfg s.maxAttempts
    let recovering ← unresolved s.key
    if recovering then
      match ← resolveCrashWindow s token with
      | some resolved => return (resolved, false)
      | none => attemptLoop cfg s token attempts attempts.toNat 1 none
    else
      let _ ← appendEvent (some s.key) (.stepStarted token.str)
      attemptLoop cfg s token attempts attempts.toNat 1 none

/-! ## Public steps, once their keys are allocated -/

/-- `step` and one branch of `gather` -/
def step (key : String) (idempotency : StepIdempotency) (verify : Bool)
    (maxAttempts : Option Int) : Code Value := do
  let (result, _) ← stepWithKey cfg runId guarded
    { key, idempotency, maxAttempts
      fn := fun token attempt => invoke (.body key token attempt)
      verify := if verify then some fun token => invoke (.verify key token) else none }
  return result

/-- `call_tool` -/
def callTool (spec : ToolSpec) (arguments : Value) (key : String) : Code Value := do
  let (result, executed) ← stepWithKey cfg runId guarded
    { key, idempotency := spec.idempotency, maxAttempts := none
      fn := fun token attempt => do
        addToolCall
        invoke (.body key token attempt)
      verify := if spec.verify then some fun token => invoke (.verify key token) else none }
  if executed then
    let _ ← appendEvent (some key) (.toolInvoked spec.name arguments.orEmpty spec.idempotency)
  return result

/-- `model`; the response the workflow gets is given by its dict. -/
def model (key : String) : Code Value := do
  let (raw, executed) ← stepWithKey cfg runId guarded
    { key, idempotency := .atLeastOnce, maxAttempts := none, verify := none
      fn := fun token attempt => invoke (.complete key token attempt) }
  let response ← .ofExcept (ModelResponse.fromDict raw)
  if executed then
    addModelUsage response.inputTokens response.outputTokens response.costUsd
    persistUsage
    let _ ← appendEvent (some key) (.modelCalled response.model response.stopReason
      response.inputTokens response.outputTokens (response.toolCalls.map (·.name)))
  return response.toDict

end Steps

/-! ## Calls on the context -/

/-- A call of user code on the context. -/
inductive Call
  | step (name : String) (idempotency : StepIdempotency) (verify : Bool)
      (maxAttempts : Option Int)
  | callTool (name : String) (arguments : Value)
  | model (name : String)
  | gather (name : String) (branches : Nat) (idempotency : StepIdempotency)
  deriving DecidableEq

/-- The names a call allocates keys for. `call_tool` on an unknown tool raises before it
allocates one. -/
def Call.names (cfg : Config) : Call → Except Exn (List String)
  | .step name _ _ _ | .model name => .ok [name]
  | .callTool name _ => do
    let spec ← cfg.tool name
    return [s!"tool:{spec.name}"]
  | .gather name branches _ => .ok ((List.range branches).map fun i => s!"{name}[{i}]")

/-- The class a call declares. -/
def Call.idempotency (cfg : Config) : Call → StepIdempotency
  | .step _ idempotency _ _ | .gather _ _ idempotency => idempotency
  | .callTool name _ => ((cfg.tool name).toOption.map (·.idempotency)).getD .atLeastOnce
  | .model _ => .atLeastOnce

/-- How many tries a call allows its body. -/
def Call.attempts (cfg : Config) : Call → Int
  | .step _ _ _ maxAttempts => effectiveAttempts cfg maxAttempts
  | _ => effectiveAttempts cfg none

/-- Whether a call comes with a verifier. -/
def Call.verify (cfg : Config) : Call → Bool
  | .step _ _ verify _ => verify
  | .callTool name _ => ((cfg.tool name).toOption.map (·.verify)).getD false
  | _ => false

/-- What a call makes of the recorded result of its step. -/
def Call.reply : Call → Value → Except Exn Value
  | .model _, raw => (ModelResponse.fromDict raw).map (·.toDict)
  | _, raw => .ok raw

/-- The code a call runs for one of its keys. -/
def Call.code (cfg : Config) (runId : Uuid) (guarded : Bool) (key : String) : Call → Code Value
  | .step _ idempotency verify maxAttempts =>
    AnchorRuntime.step cfg runId guarded key idempotency verify maxAttempts
  | .callTool name arguments => do
    let spec ← .ofExcept (cfg.tool name)
    AnchorRuntime.callTool cfg runId guarded spec arguments key
  | .model _ => AnchorRuntime.model cfg runId guarded key
  | .gather _ _ idempotency =>
    AnchorRuntime.step cfg runId guarded key idempotency false none

end AnchorRuntime
