import AnchorRuntime.AttemptMachine
import AnchorRuntime.StepMachine
import AnchorRuntime.Store
import AnchorRuntime.Lib.Machine

/-!
# The system

One database, any number of processes working on attempts of runs, the clients that submit
and cancel, and the clock. A step of the system is one atomic action of one party: a
statement, an access to memory, or the call or end of a piece of user code. User code is
free: what it returns or raises, when, and which calls it makes on its context are part of
the action. A store call may also raise without effect.

Some fields record what happened and are read by no code: the stage of a task and the
phase of an attempt (`StepMachine`, `AttemptMachine`), whether an attempt has begun, and
the moments at which user code was entered and left.
-/

namespace AnchorRuntime

open Effect

/-! ## What an operation does -/

/-- The background heartbeat task of a worker's attempt. -/
inductive Beat
  | running
  | stopped
  | died (exc : Exn)

/-- What the code of one attempt shares: the run, the worker's id (none when the engine is
called without a lease guard), the context and the heartbeat task. -/
structure Local where
  runId : Uuid
  worker : Option String
  ctx : Option RunContext
  beat : Beat

def Local.guarded (loc : Local) : Bool := loc.worker.isSome

/-- How an operation is answered: as the state determines, or by what user code or the
database driver chose. -/
inductive Answer
  | done
  | raise (exc : Exn)
  | value (v : Value)
  | response (r : ModelResponse)

/-- A store call. The driver raises none of the runtime's own exceptions. -/
def storeCall {α : Type} (st : Store) (loc : Local) (outcome : Except Exn (α × Store)) :
    Answer → Option (Except Exn α × Store × Local)
  | .done =>
    match outcome with
    | .ok (a, st') => some (.ok a, st', loc)
    | .error exc => some (.error exc, st, loc)
  | .raise (.exception type message) => some (.error (.exception type message), st, loc)
  | _ => none

/-- An access to the context. -/
def memory {α : Type} (st : Store) (loc : Local) (f : RunContext → α × RunContext) :
    Answer → Option (α × Store × Local)
  | .done => loc.ctx.map fun ctx => ((f ctx).1, st, { loc with ctx := some (f ctx).2 })
  | _ => none

/-- The end of user code. -/
def leaveUser (st : Store) (loc : Local) (u : UserCall) :
    Answer → Option (Except Exn Value × Store × Local)
  | .raise exc => some (.error exc, st, loc)
  | .value v =>
    match u with
    | .complete _ _ _ => none
    | _ => some (.ok v, st, loc)
  | .response r =>
    match u with
    | .complete _ _ _ => some (.ok r.toDict, st, loc)
    | _ => none
  | .done => none

/-- Perform an operation at time `now`. -/
def exec (cfg : Config) (now : Int) (st : Store) (loc : Local) (ans : Answer) :
    (o : Op) → Option (Ans o × Store × Local)
  | .getRun => storeCall st loc (.ok (st.getRun loc.runId, st)) ans
  | .bumpAttempt => storeCall st loc (.ok (st.bumpAttempt now loc.runId)) ans
  | .setStatus status result error =>
    storeCall st loc (st.setStatus now loc.runId status result error) ans
  | .saveUsage =>
    loc.ctx.bind fun ctx => storeCall st loc (.ok ((), st.saveUsage now loc.runId ctx.usage)) ans
  | .isCancelRequested => storeCall st loc (.ok (st.isCancelRequested loc.runId, st)) ans
  | .appendEvent key payload => storeCall st loc (st.appendEvent now loc.runId key payload) ans
  | .loadEvents => storeCall st loc (.ok (st.loadEvents loc.runId, st)) ans
  | .heartbeat =>
    loc.worker.bind fun worker =>
      storeCall st loc (.ok (st.heartbeat now loc.runId worker cfg.leaseSeconds)) ans
  | .release =>
    loc.worker.bind fun worker =>
      storeCall st loc (.ok ((), st.release now loc.runId worker cfg.pollIntervalSeconds)) ans
  | .dequeue => storeCall st loc (.ok ((), st.dequeue loc.runId)) ans
  | .newContext run events =>
    match ans with
    | .done => some ((), st, { loc with ctx := some (.init run events) })
    | _ => none
  | .completed key => memory st loc (fun ctx => (ctx.completed key, ctx)) ans
  | .countReplayed =>
    memory st loc (fun ctx => ((), { ctx with replayedSteps := ctx.replayedSteps + 1 })) ans
  | .unresolved key => memory st loc (fun ctx => ((ctx.unresolved key).isSome, ctx)) ans
  | .recordResult key result =>
    memory st loc (fun ctx => ((), { ctx with
      completed := Function.update ctx.completed key (some result)
      unresolved := Function.update ctx.unresolved key none })) ans
  | .countExecuted =>
    memory st loc (fun ctx => ((), { ctx with executedSteps := ctx.executedSteps + 1 })) ans
  | .checkBudget =>
    memory st loc (fun ctx => (ctx.run.budget.check ctx.usage (ctx.elapsedSeconds now), ctx)) ans
  | .addToolCall =>
    memory st loc (fun ctx => ((), { ctx with
      usage := { ctx.usage with toolCalls := ctx.usage.toolCalls + 1 } })) ans
  | .addModelUsage inputTokens outputTokens costUsd =>
    memory st loc (fun ctx => ((), { ctx with
      usage := { ctx.usage with
        inputTokens := ctx.usage.inputTokens + inputTokens
        outputTokens := ctx.usage.outputTokens + outputTokens
        costUsd := ctx.usage.costUsd + costUsd
        modelCalls := ctx.usage.modelCalls + 1 } })) ans
  | .snapshot =>
    memory st loc (fun ctx =>
      (⟨ctx.usage, ctx.elapsedSeconds now, ctx.replayedSteps, ctx.executedSteps⟩, ctx)) ans
  | .enter _ | .sleep _ =>
    match ans with
    | .done => some ((), st, loc)
    | _ => none
  | .leave u => leaveUser st loc u ans
  | .stopHeartbeat =>
    match ans, loc.beat with
    | .done, .died exc => some (.error exc, st, loc)
    | .done, _ => some (.ok (), st, { loc with beat := .stopped })
    | _, _ => none

/-! ## Attempts -/

/-- The user code a call on the context is made from. -/
inductive Role
  | workflow
  | body (attempt : Nat)
  | verify
  deriving DecidableEq

/-- One step down the call tree: the call's number among the calls of its caller, and its
branch. -/
structure Place where
  verifier : Bool
  index : Nat
  branch : Nat
  deriving DecidableEq

/-- One key of a call: the coroutine of `_step_with_key` and what its caller does with it. -/
structure Task where
  key : String
  path : List Place
  stage : Stage
  prog : Code Value

/-- A call on the context, by the workflow (`caller = []`) or by the body or verifier of the
task at `caller`. -/
structure CallRecord where
  caller : List Place
  role : Role
  index : Nat
  call : Call
  refused : Option Exn
  tasks : List Task

/-- One attempt of one run. It is stopped when its process has crashed or when nothing of it
is left to do. -/
structure Proc where
  loc : Local
  phase : Phase
  main : Code (Option Outcome)
  calls : List CallRecord
  started : Bool
  stopped : Bool

namespace Proc

/-- The attempt a worker starts for a claim. -/
def claimed (cfg : Config) (worker : String) (runId : Uuid) : Proc :=
  ⟨⟨runId, some worker, none, .running⟩, .start, process cfg runId, [], false, false⟩

/-- The attempt that `Engine.execute` makes without a worker. -/
def executed (cfg : Config) (runId : Uuid) : Proc :=
  ⟨⟨runId, none, none, .stopped⟩, .start, some <$> execute cfg runId, [], false, false⟩

def task? (proc : Proc) (c b : Nat) : Option Task := (proc.calls[c]?).bind (·.tasks[b]?)

/-- How many calls this caller has made. -/
def callsBy (proc : Proc) (caller : List Place) (role : Role) : Nat :=
  (proc.calls.filter fun r => r.caller = caller && r.role = role).length

/-- The tasks of a call whose keys are allocated. -/
def newTasks (cfg : Config) (proc : Proc) (caller : List Place) (role : Role) (c : Call)
    (keys : List String) : List Task :=
  keys.mapIdx fun branch key =>
    { key, path := caller ++ [⟨role = .verify, proc.callsBy caller role, branch⟩],
      stage := .entry, prog := c.code cfg proc.loc.runId proc.loc.guarded key }

def setTask (proc : Proc) (c b : Nat) (t : Task) : Proc :=
  { proc with calls := proc.calls.modify c fun r => { r with tasks := r.tasks.set b t } }

end Proc

/-- A moment at which user code was entered or, with its outcome, left; `logged` is the
length of the run's log then. -/
structure Moment where
  proc : Nat
  runId : Uuid
  call : UserCall
  outcome : Option (Except Exn Value)
  logged : Nat

/-! ## The world -/

structure World where
  now : Int
  store : Store
  procs : List Proc
  moments : List Moment

def World.init (now : Int) : World := ⟨now, .empty, [], []⟩

inductive Action
  | submit (runId : Uuid) (workflow : String) (payload : Value) (idempotencyKey : String)
      (budget : Budget)
  | cancel (runId : Uuid)
  | tick (elapsed : Nat)
  | claim (worker : String) (locked : List Uuid)
  | execute (runId : Uuid)
  | beat (p : Nat) (ans : Answer)
  | main (p : Nat) (ans : Answer)
  | task (p c b : Nat) (ans : Answer)
  | call (p : Nat) (caller : Option (Nat × Nat)) (role : Role) (c : Call)
  | stop (p : Nat)

/-- What an operation shows of user code. -/
def observed : (o : Op) → Ans o → Option (UserCall × Option (Except Exn Value))
  | .enter u, _ => some (u, none)
  | .leave u, r => some (u, some r)
  | _, _ => none

namespace World

def setProc (w : World) (p : Nat) (proc : Proc) : World :=
  { w with procs := w.procs.set p proc }

/-- The moment an operation of attempt `p` makes, if it is one. -/
def moment (w : World) (p : Nat) (runId : Uuid) (o : Op) (r : Ans o) : List Moment :=
  match observed o r with
  | some (call, outcome) => [⟨p, runId, call, outcome, (w.store.loadEvents runId).length⟩]
  | none => []

/-- Whether attempt `p` has entered the user code of this role, of the step `key` when the
role is not the workflow's. -/
def entered (w : World) (p : Nat) (role : Role) (key : String) : Bool :=
  w.moments.any fun m =>
    m.proc = p && m.outcome.isNone &&
      match m.call, role with
      | .workflow _ _, .workflow => true
      | .body k _ n, .body attempt => k = key && n = attempt
      | .verify k _, .verify => k = key
      | _, _ => false

/-- One step of the main code of an attempt. -/
def stepMain (cfg : Config) (w : World) (p : Nat) (proc : Proc) (ans : Answer) : Option World :=
  match proc.main with
  | .step o k =>
    (exec cfg w.now w.store proc.loc ans o).map fun (r, store, loc) =>
      { w with
        store
        procs := w.procs.set p
          { proc with loc, phase := proc.phase.next o r, main := k r, started := true }
        moments := w.moments ++ w.moment p proc.loc.runId o r }
  | _ => none

/-- One step of a task. -/
def stepTask (cfg : Config) (w : World) (p c b : Nat) (proc : Proc) (r : CallRecord) (t : Task)
    (ans : Answer) : Option World :=
  match t.prog with
  | .step o k =>
    (exec cfg w.now w.store proc.loc ans o).map fun (a, store, loc) =>
      let setup := r.call.setup cfg proc.loc.runId proc.loc.guarded t.key
      { w with
        store
        procs := w.procs.set p
          ({ proc with loc }.setTask c b { t with stage := setup.next t.stage o a, prog := k a })
        moments := w.moments ++ w.moment p proc.loc.runId o a }
  | _ => none

/-- A call on the context: its keys are allocated at once, in list order. -/
def callContext (cfg : Config) (w : World) (p : Nat) (proc : Proc) (caller : List Place)
    (role : Role) (c : Call) : Option World :=
  proc.loc.ctx.map fun ctx =>
    let index := proc.callsBy caller role
    match c.names cfg with
    | .error exc =>
      w.setProc p
        { proc with calls := proc.calls ++ [⟨caller, role, index, c, some exc, []⟩] }
    | .ok names =>
      let (keys, ctx) := ctx.nextKeys names
      w.setProc p
        { proc with
          loc := { proc.loc with ctx := some ctx }
          calls := proc.calls ++
            [⟨caller, role, index, c, none, proc.newTasks cfg caller role c keys⟩] }

/-- The caller's place in the call tree, if it has entered the user code the call is made
from. -/
def callerPath (w : World) (p : Nat) (proc : Proc) (role : Role) :
    Option (Nat × Nat) → Option (List Place)
  | none => if role = .workflow && w.entered p .workflow "" then some [] else none
  | some (c, b) =>
    match proc.task? c b with
    | some t => if role ≠ .workflow && w.entered p role t.key then some t.path else none
    | none => none

/-- One action. An attempt that has stopped does nothing. -/
def step (cfg : Config) (w : World) : Action → Option World
  | .submit runId workflow payload idempotencyKey budget =>
    match w.store.submitRun w.now runId workflow payload idempotencyKey budget with
    | .ok (_, store) => some { w with store }
    | .error _ => none
  | .cancel runId =>
    match w.store.requestCancel w.now runId with
    | .ok (_, store) => some { w with store }
    | .error _ => none
  | .tick elapsed => some { w with now := w.now + elapsed }
  | .claim worker locked =>
    match w.store.claim w.now worker cfg.leaseSeconds locked with
    | (some claim, store) =>
      some { w with store, procs := w.procs ++ [.claimed cfg worker claim.runId] }
    | (none, _) => none
  | .execute runId => some { w with procs := w.procs ++ [.executed cfg runId] }
  | .beat p ans => do
    let proc ← w.procs[p]?
    let worker ← proc.loc.worker
    if proc.stopped then none
    match proc.loc.beat with
    | .running =>
      let (r, store, loc) ← storeCall w.store proc.loc
        (.ok (w.store.heartbeat w.now proc.loc.runId worker cfg.leaseSeconds)) ans
      let beat : Beat :=
        match r with
        | .ok true => .running
        | .ok false => .stopped
        | .error exc => .died exc
      some { w with store, procs := w.procs.set p { proc with loc := { loc with beat } } }
    | _ => none
  | .main p ans => do
    let proc ← w.procs[p]?
    if proc.stopped then none
    w.stepMain cfg p proc ans
  | .task p c b ans => do
    let proc ← w.procs[p]?
    if proc.stopped then none
    let r ← proc.calls[c]?
    let t ← r.tasks[b]?
    w.stepTask cfg p c b proc r t ans
  | .call p caller role c => do
    let proc ← w.procs[p]?
    if proc.stopped then none
    let path ← w.callerPath p proc role caller
    w.callContext cfg p proc path role c
  | .stop p => do
    let proc ← w.procs[p]?
    some (w.setProc p { proc with stopped := true })

end World

/-! ## A small deployment

One workflow, no tools, for runs that are executed. -/

namespace Sample

def runId : Uuid := ⟨7⟩

/-- The tokens of the keys that occur. -/
def uuid5 (_ : Uuid) (name : String) : Uuid :=
  if name = s!"{runId.str}:x#1" then ⟨0x6b7a4f7389d85c8587043352827c79af⟩
  else if name = s!"{runId.str}:x#2" then ⟨0xa88144f1a8055ce7b287f2679a24c506⟩
  else if name = s!"{runId.str}:outer#1" then ⟨0x832e8e1ab93255d295ca6c829f34826f⟩
  else ⟨0xc308c143f4825d9384ffd6a2b5a5d6ba⟩

def cfg : Config where
  leaseSeconds := 30000000
  pollIntervalSeconds := 250000
  stepMaxAttempts := 3
  stepBackoffBase := 1 / 5
  workflows := ["w"]
  tools := []
  uuid5 := uuid5
  formatExc := Exn.repr

def submitted : Action :=
  .submit runId "w" .none "request" ⟨none, none, none, none, none⟩

/-- The attempt performs its next `n` operations, none of which user code answers. -/
def proceed (p n : Nat) : List Action := List.replicate n (.main p .done)

/-- The first key of a call performs its next `n` operations. -/
def advance (p c n : Nat) : List Action := List.replicate n (.task p c 0 .done)

/-- A worker claims the run and its first attempt enters the workflow. -/
def opening : List Action := [submitted, .claim "a" []] ++ proceed 0 7

/-- The workflow makes its next call. -/
def calls (p : Nat) (name : String) (idempotency : StepIdempotency) : Action :=
  .call p none .workflow (.step name idempotency false none)

end Sample

end AnchorRuntime
