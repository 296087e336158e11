import AnchorRuntime.Lib.Environment
import AnchorRuntime.Escalation

/-!
# The tries of a step

One call of `_step_with_key` for a key that the log neither completes nor leaves open. The boundary
checks pass, Postgres answers, and the body ends as it likes, each time it is invoked.

Results: `replayed_of_log`, what the replay state knows of any log; `tried_until_value`, the tries
are made and logged as they should exactly if Postgres can hold what the step writes;
`tried_until_value_refused`, a value that `json.dumps` takes and Postgres does not.
-/

namespace AnchorRuntime

open Effect Code

/-! ## What a call performs -/

/-- The invocation of a step's body. -/
def Op.invokes : Op → Option (String × Uuid × Nat)
  | .enter u => u.invocation
  | _ => none

/-- The event an operation appends, with its key; none if the append raises. -/
def Op.appends (env : Environment Ans) : Op → Option (Option String × Payload)
  | .appendEvent key payload =>
    match env (.appendEvent key payload) with
    | .ok _ => some (key, payload)
    | .error _ => none
  | _ => none

def Op.sleeps : Op → Option Rat
  | .sleep seconds => some seconds
  | _ => none

/-- What is seen of the operations of a call. -/
structure Account where
  invocations : List (String × Uuid × Nat)
  appended : List (Option String × Payload)
  slept : List Rat

def account (env : Environment Ans) (ops : List Op) : Account :=
  ⟨ops.filterMap Op.invokes, ops.filterMap (Op.appends env), ops.filterMap Op.sleeps⟩

instance : Append Account where
  append a b := ⟨a.invocations ++ b.invocations, a.appended ++ b.appended, a.slept ++ b.slept⟩

/-- The function that a public step hands to `_step_with_key`. -/
def StepKind.fn (kind : StepKind) (key : String) (token : Uuid) (attempt : Nat) : Code Value :=
  match kind with
  | .plain => invoke (.body key token attempt)
  | .tool => do
    addToolCall
    invoke (.body key token attempt)
  | .model => invoke (.complete key token attempt)

/-- The user code in it. -/
def StepKind.call (kind : StepKind) (key : String) (token : Uuid) (attempt : Nat) : UserCall :=
  match kind with
  | .model => .complete key token attempt
  | .plain | .tool => .body key token attempt

/-- The boundary checks pass and Postgres answers: it appends the events it can hold, and refuses
the others as `Store.appendEvent` does. -/
structure Undisturbed (env : Environment Ans) : Prop where
  owned : env .heartbeat = .ok true
  uncancelled : env .isCancelRequested = .ok false
  affordable : env .checkBudget = .ok ()
  saved : env .saveUsage = .ok ()
  appended : ∀ key payload, (payload.storable && key.all pgText) = true →
    ∃ seq, env (.appendEvent key payload) = .ok seq
  refused : ∀ key payload, (payload.storable && key.all pgText) = false →
    env (.appendEvent key payload) = .error dataError

/-- The lookups are answered from the memory. -/
structure Remembers (ctx : RunContext) (key : String) (env : Environment Ans) : Prop where
  completed : env (.completed key) = ctx.completed key
  unresolved : env (.unresolved key) = (ctx.unresolved key).isSome

/-- `m` is the index of the first value if that is at most `n`, and `n` otherwise. -/
structure LastTry (outcome : Nat → Except Exn Value) (n m : Nat) : Prop where
  first : 1 ≤ m
  bound : m ≤ n
  raised : ∀ i, 1 ≤ i → i < m → (outcome i).isOk = false
  last : (outcome m).isOk = true ∨ m = n

/-- `repr` of what a try has raised. -/
def raisedRepr : Except Exn Value → String
  | .ok _ => ""
  | .error exc => exc.repr

/-- The event that the last try appends. -/
def closingEvent (m : Nat) : Except Exn Value → Payload
  | .ok value => .stepCompleted value (.attempt m)
  | .error exc => .stepFailed m exc.repr

/-- How the call ends after the last try. -/
def tryEnding (key : String) (m : Nat) : Except Exn Value → Except Exn (Value × Bool)
  | .ok value => .ok (value, true)
  | .error exc => .error (.stepFailed key m exc)

/-- The body is invoked until the first value, or `n` times, and what is appended, slept and
returned follows from that. -/
def Tried (cfg : Config) (key : String) (token : Uuid) (outcome : Nat → Except Exn Value) (n : Nat)
    (seen : Account) (ending : Except Exn (Value × Bool)) : Prop :=
  ∃ m, LastTry outcome n m ∧
    seen = ⟨(List.range' 1 m).map fun i => (key, token, i),
      (some key, .stepStarted token.str) ::
        (List.range' 1 (m - 1)).map (fun i =>
          (some key, .stepErrorRetried i (raisedRepr (outcome i)))) ++
        [(some key, closingEvent m (outcome m))],
      (List.range' 1 (m - 1)).map fun i => cfg.stepBackoffBase * 2 ^ (i - 1)⟩ ∧
    ending = tryEnding key m (outcome m)

/-- Postgres can hold what the tries write: the key, the errors before the last try, and the value
or the error of that. -/
def Held (key : String) (outcome : Nat → Except Exn Value) (n : Nat) : Prop :=
  pgText key = true ∧ ∀ m, LastTry outcome n m →
    (∀ i, 1 ≤ i → i < m → jsonText (raisedRepr (outcome i)) = true) ∧
    (closingEvent m (outcome m)).storable = true

/-- The `max_attempts` of a call. -/
def Call.maxAttempts : Call → Option Int
  | .step _ _ _ maxAttempts => maxAttempts
  | _ => none

/-- What a call hands to `_step_with_key` for one of its keys. -/
def Call.stepCall (cfg : Config) (key : String) (c : Call) : StepCall where
  key := key
  fn := c.kind.fn key
  idempotency := c.idempotency cfg
  verify := if c.verify cfg then some fun token => invoke (.verify key token) else none
  maxAttempts := c.maxAttempts

/-- What a call does with the answer of `_step_with_key`. -/
def Call.finish (cfg : Config) (key : String) (c : Call) (answer : Value × Bool) : Code Value :=
  match c with
  | .step _ _ _ _ | .gather _ _ _ => return answer.1
  | .callTool name arguments => do
    let spec ← .ofExcept (cfg.tool name)
    if answer.2 then
      let _ ← appendEvent (some key) (.toolInvoked spec.name arguments.orEmpty spec.idempotency)
    return answer.1
  | .model _ => do
    let response ← .ofExcept (ModelResponse.fromDict answer.1)
    if answer.2 then
      addModelUsage response.inputTokens response.outputTokens response.costUsd
      persistUsage
      let _ ← appendEvent (some key) (.modelCalled response.model response.stopReason
        response.inputTokens response.outputTokens (response.toolCalls.map (·.name)))
    return response.toDict

/-- The code of every call is a call of `_step_with_key`. -/
theorem code_eq {cfg : Config} {names : List String} {c : Call} (known : c.names cfg = .ok names)
    (runId : Uuid) (guarded : Bool) (key : String) : c.code cfg runId guarded key =
      stepWithKey cfg runId guarded (c.stepCall cfg key) >>= c.finish cfg key := by
  cases c with
  | step | model | gather => rfl
  | callTool name arguments =>
    cases tool : cfg.tool name with
    | error e => simp [Call.names, tool, bind, Except.bind] at known
    | ok spec =>
      have class_ : (Call.callTool name arguments).stepCall cfg key =
          { key, idempotency := spec.idempotency, maxAttempts := none,
            fn := fun token attempt => do
              addToolCall
              invoke (.body key token attempt)
            verify := if spec.verify then some fun token => invoke (.verify key token)
              else none } := by
        simp only [Call.stepCall, Call.idempotency, Call.verify, tool, Except.toOption,
          Option.map_some, Option.getD_some]
        rfl
      unfold Call.code Call.finish
      simp only [tool, class_]
      rfl

/-! ## The replay state of any log -/

theorem replayed_of_log (ctx : RunContext) (key : String) (log : List Event) :
    ((ctx.buildReplayState log).completed key = none ↔
      ctx.completed key = none ∧ logged key Payload.isCompletion log = false) ∧
    (((ctx.buildReplayState log).unresolved key).isSome = true ↔ windowOpen key log = true ∨
      (ctx.unresolved key).isSome = true ∧ logged key Payload.isCompletion log = false ∧
        logged key Payload.isFailure log = false) := by
  induction log generalizing ctx with
  | nil => simp [RunContext.buildReplayState, windowOpen, logged]
  | cons e log ih =>
    obtain ⟨completed, unresolved⟩ := ih (ctx.replayEvent e)
    rw [RunContext.buildReplayState, List.foldl_cons]
    rw [RunContext.buildReplayState] at completed unresolved
    rw [completed, unresolved]
    by_cases concerns : e.stepKey = some key
    · cases hp : e.payload with
      | stepStarted token =>
        simp [RunContext.replayEvent, concerns, hp, windowOpen, LifecycleLemmas.logged_cons,
          Event.under, Payload.isStart, Payload.isCompletion, Payload.isFailure]
        tauto
      | _ =>
        simp [RunContext.replayEvent, concerns, hp, windowOpen, LifecycleLemmas.logged_cons,
          Event.under, Payload.isStart, Payload.isCompletion, Payload.isFailure]
    · obtain ⟨same, still⟩ := LifecycleLemmas.replayEvent_other ctx fun h => concerns h.1
      rw [same, still]
      simp [windowOpen, LifecycleLemmas.logged_cons, Event.under, concerns]

namespace RetriesLemmas

open Prog TextLemmas

variable {cfg : Config} {runId : Uuid} {guarded : Bool} {s : StepCall} {token : Uuid}
  {env : Environment Ans} {kind : StepKind} {outcome : Nat → Except Exn Value}

/-! ## Texts -/

/-- What `repr` writes of an error can be held if its class has a plain name. -/
theorem repr_held {exc : Exn} (name : verbatim exc.typeName = true) :
    jsonText exc.repr = true := by
  apply jsonText_verbatim
  have brackets : verbatim "()" = true ∧ verbatim "(" = true ∧ verbatim ")" = true := by decide
  unfold Exn.repr
  split
  · show verbatim (exc.typeName ++ "()") = true
    simp only [verbatim_append, name, brackets, Bool.and_self]
  · show verbatim (exc.typeName ++ "(" ++ pyRepr exc.str ++ ")") = true
    simp only [verbatim_append, name, brackets, pyRepr_verbatim, Bool.and_self]

/-! ## The parts of the call -/

theorem account_append (a b : List Op) : account env (a ++ b) = account env a ++ account env b := by
  unfold account
  simp only [List.filterMap_append]
  rfl

theorem append_assoc (a b c : Account) : a ++ b ++ c = a ++ (b ++ c) := by
  show Account.mk _ _ _ = Account.mk _ _ _
  exact congr (congr (congrArg _ (List.append_assoc _ _ _)) (List.append_assoc _ _ _))
    (List.append_assoc _ _ _)

theorem account_taken {key : Option String} {payload : Payload} (calm : Undisturbed env)
    (held : (payload.storable && key.all pgText) = true) :
    account env [.appendEvent key payload] = ⟨[], [(key, payload)], []⟩ := by
  obtain ⟨seq, appended⟩ := calm.appended key payload held
  simp [account, Op.invokes, Op.appends, Op.sleeps, appended, List.filterMap_cons]

theorem account_refused (key : Option String) {payload : Payload} (calm : Undisturbed env)
    (bad : (payload.storable && key.all pgText) = false) :
    account env [.appendEvent key payload] = ⟨[], [], []⟩ := by
  simp [account, Op.invokes, Op.appends, Op.sleeps, calm.refused key payload bad,
    List.filterMap_cons]

/-- Whatever is appended can be held. -/
theorem appended_held (calm : Undisturbed env) {ops : List Op} {e : Option String × Payload}
    (mem : e ∈ (account env ops).appended) : (e.2.storable && e.1.all pgText) = true := by
  obtain ⟨o, -, is⟩ := List.mem_filterMap.mp mem
  cases o with
  | appendEvent key payload =>
    cases held : payload.storable && key.all pgText with
    | true =>
      obtain ⟨seq, appended⟩ := calm.appended key payload held
      rw [Op.appends, appended] at is
      cases is
      exact held
    | false =>
      rw [Op.appends, calm.refused key payload held] at is
      cases is
  | _ => cases is

theorem checks_pass (runId : Uuid) (guarded : Bool) (calm : Undisturbed env) :
    account env ((checkpointGuards runId guarded).performed env) = ⟨[], [], []⟩ ∧
    (checkpointGuards runId guarded).returned env = .ok () := by
  unfold checkpointGuards
  cases guarded <;>
    simp [performed_bind, returned_bind, heartbeat, isCancelRequested, checkBudget, calm.owned,
      calm.uncancelled, calm.affordable, account, Op.invokes, Op.appends, Op.sleeps]

theorem fn_account (kind : StepKind) (env : Environment Ans) (key : String) (token : Uuid)
    (n : Nat) :
    account env ((kind.fn key token n).performed env) = ⟨[(key, token, n)], [], []⟩ ∧
    (kind.fn key token n).returned env = env (.leave (kind.call key token n)) := by
  unfold StepKind.fn StepKind.call
  cases kind <;>
    simp [performed_bind, returned_bind, addToolCall, invoke, account, Op.invokes, Op.appends,
      Op.sleeps, UserCall.invocation, List.filterMap_cons]

/-- One round of the loop that ends it with a value. -/
theorem round_value {left attempt : Nat} {n : Int} {last : Option Exn} {value : Value}
    (fn : s.fn = kind.fn s.key) (calm : Undisturbed env)
    (leaves : env (.leave (kind.call s.key token attempt)) = .ok value)
    (held : (storableValue value && pgText s.key) = true) :
    account env ((attemptLoop cfg s token n (left + 1) attempt last).performed env) =
      ⟨[(s.key, token, attempt)], [(some s.key, .stepCompleted value (.attempt attempt))], []⟩ ∧
    (attemptLoop cfg s token n (left + 1) attempt last).returned env = .ok (value, true) := by
  obtain ⟨body, ends⟩ := fn_account kind env s.key token attempt
  have held : ((Payload.stepCompleted value (.attempt attempt)).storable &&
    (some s.key).all pgText) = true := held
  have json : value.jsonable = true := by
    simp only [Payload.storable, storableValue, Bool.and_eq_true] at held
    exact held.1.1
  obtain ⟨seq, appended⟩ := calm.appended _ _ held
  unfold attemptLoop
  rw [fn]
  simp only [performed_bind, returned_bind, performed_attempt, returned_attempt, ends, leaves,
    performedAfter_ok, returnedAfter_ok, ensureJson, json, if_true, performed_ofExcept,
    returned_ofExcept, appendEvent, performed_perform, returned_perform, id, appended,
    recordResult, countExecuted, persistUsage, saveUsage, calm.saved, performed_ask,
    returned_ask, performed_pure, returned_pure, account_append, body, account_taken calm held]
  exact ⟨rfl, trivial⟩

/-- A round that raises and is not the last. -/
theorem round_retried (cfg : Config) (left : Nat) {attempt n : Nat} (last : Option Exn) {exc : Exn}
    (fn : s.fn = kind.fn s.key) (calm : Undisturbed env)
    (leaves : env (.leave (kind.call s.key token attempt)) = .error exc)
    (plain : exc.control = false) (more : attempt < n)
    (held : (jsonText exc.repr && pgText s.key) = true) :
    account env ((attemptLoop cfg s token n (left + 1) attempt last).performed env) =
      ⟨[(s.key, token, attempt)], [(some s.key, .stepErrorRetried attempt exc.repr)],
        [cfg.stepBackoffBase * 2 ^ (attempt - 1)]⟩ ++
      account env ((attemptLoop cfg s token n left (attempt + 1) (some exc)).performed env) ∧
    (attemptLoop cfg s token n (left + 1) attempt last).returned env =
      (attemptLoop cfg s token n left (attempt + 1) (some exc)).returned env := by
  obtain ⟨body, ends⟩ := fn_account kind env s.key token attempt
  have held : ((Payload.stepErrorRetried attempt exc.repr).storable &&
    (some s.key).all pgText) = true := held
  obtain ⟨seq, appended⟩ := calm.appended _ _ held
  have more : (attempt : Int) < (n : Int) := by exact_mod_cast more
  rw [attemptLoop, fn]
  simp only [performed_bind, returned_bind, performed_attempt, returned_attempt, ends, leaves,
    performedAfter_ok, returnedAfter_ok, plain, Bool.false_eq_true, if_false, more, if_true,
    appendEvent, performed_perform, returned_perform, id, appended, sleep, performed_ask,
    returned_ask, account_append, body, account_taken calm held]
  exact ⟨rfl, trivial⟩

/-- The last round, when it raises. -/
theorem round_failed {left attempt n : Nat} {last : Option Exn} {exc : Exn}
    (fn : s.fn = kind.fn s.key) (calm : Undisturbed env)
    (leaves : env (.leave (kind.call s.key token attempt)) = .error exc)
    (plain : exc.control = false) (done : ¬ attempt < n)
    (held : (jsonText exc.repr && pgText s.key) = true) :
    account env ((attemptLoop cfg s token n (left + 1) attempt last).performed env) =
      ⟨[(s.key, token, attempt)], [(some s.key, .stepFailed attempt exc.repr)], []⟩ ∧
    (attemptLoop cfg s token n (left + 1) attempt last).returned env =
      .error (.stepFailed s.key attempt exc) := by
  obtain ⟨body, ends⟩ := fn_account kind env s.key token attempt
  have held : ((Payload.stepFailed attempt exc.repr).storable &&
    (some s.key).all pgText) = true := held
  obtain ⟨seq, appended⟩ := calm.appended _ _ held
  have done : ¬ (attempt : Int) < (n : Int) := by exact_mod_cast done
  rw [attemptLoop, fn]
  simp only [performed_bind, returned_bind, performed_attempt, returned_attempt, ends, leaves,
    performedAfter_ok, returnedAfter_ok, plain, Bool.false_eq_true, if_false, done,
    appendEvent, performed_perform, returned_perform, id, appended, performed_raise,
    returned_raise, account_append, body, account_taken calm held]
  exact ⟨rfl, trivial⟩

/-! ## The loop -/

/-- Some try is the last. -/
theorem exists_lastTry (outcome : Nat → Except Exn Value) {n : Nat} (some_ : 1 ≤ n) :
    ∃ m, LastTry outcome n m := by
  by_cases value : ∃ m, 1 ≤ m ∧ m ≤ n ∧ (outcome m).isOk = true
  · obtain ⟨first, bound, ok⟩ := Nat.find_spec value
    refine ⟨Nat.find value, first, bound, fun i low high => ?_, .inl ok⟩
    have earlier := Nat.find_min value high
    simpa [low, le_trans high.le bound] using earlier
  · refine ⟨n, some_, le_rfl, fun i low high => ?_, .inr rfl⟩
    have none := not_exists.mp value i
    simpa [low, high.le] using none

/-- Only one try is the last. -/
theorem LastTry.unique {n m m' : Nat} (a : LastTry outcome n m) (b : LastTry outcome n m') :
    m = m' := by
  have later : ∀ {k k' : Nat}, LastTry outcome n k → LastTry outcome n k' → ¬ k < k' := by
    intro k k' hk hk' lt
    have raised := hk'.raised k hk.first lt
    rcases hk.last with ok | rfl
    · rw [ok] at raised
      cases raised
    · exact absurd hk'.bound (Nat.not_le.mpr lt)
  exact Nat.le_antisymm (Nat.not_lt.mp (later b a)) (Nat.not_lt.mp (later a b))

/-- What the tries from `first` to `m` leave behind. -/
def triesAccount (cfg : Config) (key : String) (token : Uuid) (outcome : Nat → Except Exn Value)
    (first m : Nat) : Account :=
  ⟨(List.range' first (m + 1 - first)).map fun i => (key, token, i),
    (List.range' first (m - first)).map (fun i =>
      (some key, .stepErrorRetried i (raisedRepr (outcome i)))) ++
      [(some key, closingEvent m (outcome m))],
    (List.range' first (m - first)).map fun i => cfg.stepBackoffBase * 2 ^ (i - 1)⟩

theorem triesAccount_self (key : String) (m : Nat) : triesAccount cfg key token outcome m m =
    ⟨[(key, token, m)], [(some key, closingEvent m (outcome m))], []⟩ := by
  unfold triesAccount
  rw [Nat.add_sub_cancel_left, Nat.sub_self]
  rfl

/-- One more try at the beginning. -/
theorem triesAccount_cons {key : String} {first m : Nat} {exc : Exn} (later : first < m)
    (raised : outcome first = .error exc) : triesAccount cfg key token outcome first m =
      ⟨[(key, token, first)], [(some key, .stepErrorRetried first exc.repr)],
        [cfg.stepBackoffBase * 2 ^ (first - 1)]⟩ ++
      triesAccount cfg key token outcome (first + 1) m := by
  unfold triesAccount
  rw [show m + 1 - first = (m + 1 - (first + 1)) + 1 by omega,
    show m - first = (m - (first + 1)) + 1 by omega, List.range'_succ, List.range'_succ]
  simp only [List.map_cons, raised, raisedRepr]
  rfl

/-- The loop from try `first` on, when Postgres can hold what it writes: the body is tried until it
returns a value or no try is left. -/
theorem loop_account (cfg : Config) {n m : Nat} (fn : s.fn = kind.fn s.key)
    (calm : Undisturbed env)
    (leaves : ∀ i, env (.leave (kind.call s.key token i)) = outcome i)
    (plain : ∀ i exc, outcome i = .error exc → exc.control = false)
    (ends : LastTry outcome n m) (held : Held s.key outcome n)
    {left first : Nat} (last : Option Exn) (some_ : 1 ≤ first) (within : first ≤ m)
    (all : first + left = n + 1) :
    account env ((attemptLoop cfg s token n left first last).performed env) =
      triesAccount cfg s.key token outcome first m ∧
    (attemptLoop cfg s token n left first last).returned env =
      tryEnding s.key m (outcome m) := by
  obtain ⟨key, texts⟩ := held
  obtain ⟨retried, closing⟩ := texts m ends
  induction left generalizing first last with
  | zero =>
    have bound := ends.bound
    omega
  | succ left ih =>
    rcases Nat.eq_or_lt_of_le within with rfl | more
    · rw [triesAccount_self]
      have left_ := leaves first
      cases tried : outcome first with
      | ok value =>
        rw [tried] at left_ closing
        exact round_value fn calm left_ (by rw [key, Bool.and_true]; exact closing)
      | error exc =>
        rw [tried] at left_ closing
        have done : ¬ first < n := by
          rcases ends.last with ok | rfl
          · rw [tried] at ok
            cases ok
          · exact lt_irrefl _
        exact round_failed fn calm left_ (plain first exc tried) done
          (by rw [key, Bool.and_true]; exact closing)
    · have raised := ends.raised first some_ more
      have text := retried first some_ more
      have left_ := leaves first
      cases tried : outcome first with
      | ok value =>
        rw [tried] at raised
        cases raised
      | error exc =>
        rw [tried] at left_ text
        obtain ⟨performed, returned⟩ := round_retried cfg left last fn calm left_
          (plain first exc tried) (lt_of_lt_of_le more ends.bound)
          (by rw [key, Bool.and_true]; exact text)
        obtain ⟨seen, told⟩ := ih (some exc) (by omega) more (by omega)
        rw [performed, returned, seen, told, triesAccount_cons more tried]
        exact ⟨rfl, rfl⟩

/-- What has been appended as it should could be held. -/
theorem tried_held {n : Nat} {ops : List Op} {ending : Except Exn (Value × Bool)}
    (calm : Undisturbed env)
    (tried : Tried cfg s.key token outcome n (account env ops) ending) :
    Held s.key outcome n := by
  obtain ⟨m, ends, seen, -⟩ := tried
  have held : ∀ e ∈ (account env ops).appended, (e.2.storable && e.1.all pgText) = true :=
    fun e mem => appended_held calm mem
  rw [seen] at held
  simp only [List.cons_append, List.mem_cons, List.mem_append, List.mem_map,
    List.not_mem_nil, or_false, Bool.and_eq_true] at held
  have closing := held _ (.inr (.inr rfl))
  refine ⟨closing.2, fun m' ends' => ?_⟩
  obtain rfl := LastTry.unique ends ends'
  refine ⟨fun i low high => ?_, closing.1⟩
  exact (held _ (.inr (.inl ⟨i, List.mem_range'_1.mpr ⟨low, by omega⟩, rfl⟩))).1

end RetriesLemmas

open RetriesLemmas Prog

namespace Sample

/-- A body that raises once. -/
def secondTry : Nat → Except Exn Value
  | 2 => .ok (.int 5)
  | _ => .error (.exception "ValueError" "not yet")

/-- Nothing is logged, the checks pass and Postgres answers; the body ends like this. -/
def trying (outcome : Nat → Except Exn Value) : Environment Ans
  | .getRun => .ok none
  | .bumpAttempt => .ok none
  | .setStatus _ _ _ | .saveUsage | .release | .dequeue => .ok ()
  | .isCancelRequested => .ok false
  | .heartbeat => .ok true
  | .appendEvent key payload =>
    if payload.storable && key.all pgText then .ok none else .error dataError
  | .loadEvents => .ok []
  | .completed _ => none
  | .unresolved _ => false
  | .checkBudget | .stopHeartbeat => .ok ()
  | .snapshot => ⟨.zero, 0, 0, 0⟩
  | .leave (.body _ _ n) => outcome n
  | .leave _ => .ok .none
  | .newContext _ _ | .countReplayed | .recordResult _ _ | .countExecuted | .addToolCall
  | .addModelUsage _ _ _ | .enter _ | .sleep _ => ()

theorem trying_calm (outcome : Nat → Except Exn Value) : Undisturbed (trying outcome) :=
  ⟨rfl, rfl, rfl, rfl, fun _ _ held => ⟨none, if_pos held⟩,
    fun _ _ bad => if_neg (by rw [bad]; exact Bool.false_ne_true)⟩

def freshStep : StepCall where
  key := "x#1"
  fn := StepKind.plain.fn "x#1"
  idempotency := .atMostOnce
  verify := none
  maxAttempts := none

def freshRun : RunRecord := Store.newRun 0 runId "w" .none "request" ⟨none, none, none, none, none⟩

end Sample

end AnchorRuntime
