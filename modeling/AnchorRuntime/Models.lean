import AnchorRuntime.Text

/-!
# Value types

The value types of `models.py`, `events.py`, `errors.py` and `providers/base.py`: Python
values, uuids, exceptions, statuses, budgets, run rows and events. A payload that the
source writes as a dict with fixed keys is a constructor or a structure with those keys as
fields; a value that user code chooses is a `Value`. Times are microseconds since the
epoch, as Postgres keeps them, and durations are microseconds.
-/

namespace AnchorRuntime

/-! ## Python values -/

/-- A Python value, as far as the runtime tells values apart. `nonFinite` are the floats
NaN and the infinities, `object` is anything `json.dumps` does not know. Texts stand for Python
strings as `pyStr` says. -/
inductive Value
  | none
  | bool (b : Bool)
  | int (n : Int)
  | float (q : Rat)
  | nonFinite (text : String)
  | str (s : String)
  | list (items : List Value)
  | tuple (items : List Value)
  | dict (entries : List (Value × Value))
  | object (type : String)

namespace Value

mutual
def beq : Value → Value → Bool
  | .none, .none => true
  | .bool a, .bool b => a = b
  | .int m, .int n => m = n
  | .float p, .float q => p = q
  | .nonFinite s, .nonFinite t | .str s, .str t | .object s, .object t => s = t
  | .list vs, .list ws | .tuple vs, .tuple ws => beqItems vs ws
  | .dict es, .dict fs => beqEntries es fs
  | _, _ => false

def beqItems : List Value → List Value → Bool
  | [], [] => true
  | v :: vs, w :: ws => beq v w && beqItems vs ws
  | _, _ => false

def beqEntries : List (Value × Value) → List (Value × Value) → Bool
  | [], [] => true
  | (k, v) :: es, (l, w) :: fs => beq k l && beq v w && beqEntries es fs
  | _, _ => false
end

mutual
theorem beq_eq : ∀ (v : Value) {w : Value}, v.beq w = true → v = w
  | .none, w, h => by cases w <;> first | rfl | cases h
  | .bool _, w, h => by cases w <;> first | exact congrArg _ (of_decide_eq_true h) | cases h
  | .int _, w, h => by cases w <;> first | exact congrArg _ (of_decide_eq_true h) | cases h
  | .float _, w, h => by cases w <;> first | exact congrArg _ (of_decide_eq_true h) | cases h
  | .nonFinite _, w, h => by cases w <;> first | exact congrArg _ (of_decide_eq_true h) | cases h
  | .str _, w, h => by cases w <;> first | exact congrArg _ (of_decide_eq_true h) | cases h
  | .object _, w, h => by cases w <;> first | exact congrArg _ (of_decide_eq_true h) | cases h
  | .list vs, w, h => by cases w <;> first | exact congrArg _ (beqItems_eq vs h) | cases h
  | .tuple vs, w, h => by cases w <;> first | exact congrArg _ (beqItems_eq vs h) | cases h
  | .dict es, w, h => by cases w <;> first | exact congrArg _ (beqEntries_eq es h) | cases h

theorem beqItems_eq : ∀ (vs : List Value) {ws : List Value}, beqItems vs ws = true → vs = ws
  | [], ws, h => by cases ws <;> first | rfl | cases h
  | v :: vs, ws, h => by
    cases ws with
    | nil => cases h
    | cons w ws =>
      obtain ⟨first, rest⟩ := (Bool.and_eq_true _ _).mp h
      rw [beq_eq v first, beqItems_eq vs rest]

theorem beqEntries_eq : ∀ (es : List (Value × Value)) {fs : List (Value × Value)},
    beqEntries es fs = true → es = fs
  | [], fs, h => by cases fs <;> first | rfl | cases h
  | (k, v) :: es, fs, h => by
    cases fs with
    | nil => cases h
    | cons f fs =>
      obtain ⟨entry, rest⟩ := (Bool.and_eq_true _ _).mp h
      obtain ⟨key, value⟩ := (Bool.and_eq_true _ _).mp entry
      rw [beq_eq k key, beq_eq v value, beqEntries_eq es rest]
end

mutual
theorem beq_self : ∀ v : Value, v.beq v = true
  | .none => rfl
  | .bool _ | .int _ | .float _ | .nonFinite _ | .str _ | .object _ => decide_eq_true rfl
  | .list vs | .tuple vs => beqItems_self vs
  | .dict es => beqEntries_self es

theorem beqItems_self : ∀ vs : List Value, beqItems vs vs = true
  | [] => rfl
  | v :: vs => by rw [beqItems, beq_self v, beqItems_self vs, Bool.and_self]

theorem beqEntries_self : ∀ es : List (Value × Value), beqEntries es es = true
  | [] => rfl
  | (k, v) :: es => by
    rw [beqEntries, beq_self k, beq_self v, beqEntries_self es, Bool.and_self, Bool.and_self]
end

instance : DecidableEq Value := fun v w =>
  decidable_of_iff (v.beq w = true) ⟨beq_eq v, fun same => same ▸ beq_self v⟩

/-- `type(value).__name__` -/
def typeName : Value → String
  | .none => "NoneType"
  | .bool _ => "bool"
  | .int _ => "int"
  | .float _ | .nonFinite _ => "float"
  | .str _ => "str"
  | .list _ => "list"
  | .tuple _ => "tuple"
  | .dict _ => "dict"
  | .object type => type

/-- `value is None` -/
def isNone : Value → Bool
  | .none => true
  | _ => false

/-- `int.__repr__` raises for ints of more than 4300 digits. -/
def intText (n : Int) : Bool := (Nat.toDigits 10 n.natAbs).length ≤ 4300

/-- The dict keys `json.dumps` accepts. -/
def jsonKey : Value → Bool
  | .none | .bool _ | .float _ | .nonFinite _ | .str _ => true
  | .int n => intText n
  | _ => false

mutual
/-- Whether `json.dumps(value)` returns rather than raises. How deep values are nested is not
bounded here. -/
def jsonable : Value → Bool
  | .int n => intText n
  | .list items | .tuple items => jsonableItems items
  | .dict entries => jsonableEntries entries
  | .object _ => false
  | _ => true

def jsonableItems : List Value → Bool
  | [] => true
  | v :: vs => v.jsonable && jsonableItems vs

def jsonableEntries : List (Value × Value) → Bool
  | [] => true
  | e :: es => e.1.jsonKey && e.2.jsonable && jsonableEntries es
end

/-- What a dict key is written as is a string, whatever the key is. -/
def jsonbKey : Value → Bool
  | .str s => jsonText s
  | _ => true

mutual
/-- Whether the JSON text of a value is a `jsonb` value: no NaN, no infinity, no NUL, no
surrogate but in pairs. -/
def jsonb : Value → Bool
  | .nonFinite _ => false
  | .str s => jsonText s
  | .list items | .tuple items => jsonbItems items
  | .dict entries => jsonbEntries entries
  | _ => true

def jsonbItems : List Value → Bool
  | [] => true
  | v :: vs => v.jsonb && jsonbItems vs

def jsonbEntries : List (Value × Value) → Bool
  | [] => true
  | e :: es => e.1.jsonbKey && e.2.jsonb && jsonbEntries es
end

/-- `bool(value)` -/
def truthy : Value → Bool
  | .none => false
  | .bool b => b
  | .int n => n ≠ 0
  | .float q => q ≠ 0
  | .str s => s ≠ ""
  | .list items | .tuple items => !items.isEmpty
  | .dict entries => !entries.isEmpty
  | .nonFinite _ | .object _ => true

/-- `value or {}` -/
def orEmpty (v : Value) : Value := if v.truthy then v else .dict []

/-- `value.get(key)` on a dict. -/
def get? (value : Value) (key : String) : Option Value :=
  match value with
  | .dict entries =>
    (entries.find? fun e => match e.1 with | .str s => s = key | _ => false).map (·.2)
  | _ => Option.none

end Value

/-! ## Identifiers -/

/-- A uuid is a 128-bit number. -/
structure Uuid where
  int : Fin (2 ^ 128)
  deriving DecidableEq

instance Uuid.neZero : NeZero (2 ^ 128) := ⟨by decide⟩

/-- `str(uuid)`: 32 hex digits in groups of 8, 4, 4, 4 and 12. -/
def Uuid.str (u : Uuid) : String :=
  let digits := Nat.toDigits 16 u.int
  let hex := List.replicate (32 - digits.length) '0' ++ digits
  String.ofList (hex.take 8 ++ '-' :: (hex.drop 8).take 4 ++ '-' :: (hex.drop 12).take 4 ++
    '-' :: (hex.drop 16).take 4 ++ '-' :: hex.drop 20)

/-- One namespace for the whole product. -/
def TOKEN_NAMESPACE : Uuid := ⟨0x6f1b7a4e3c254a8f9f6f2f0d1c9b8a77⟩

/-! ## Exceptions -/

/-- The exceptions the runtime raises or tells apart; `exception` is any other class
derived from `Exception`, with its name and text. -/
inductive Exn
  | workflowNotFound (message : String)
  | toolNotFound (message : String)
  | stepFailed (stepKey : String) (attempts : Int) (cause : Exn)
  | budgetExceeded (dimension : String) (limit observed : Rat)
  | cancellationRequested (message : String)
  | ambiguousStep (stepKey token : String)
  | leaseLost (message : String)
  | exception (type message : String)
  deriving DecidableEq

namespace Exn

/-- `type(exc).__name__` -/
def typeName : Exn → String
  | .workflowNotFound _ => "WorkflowNotFound"
  | .toolNotFound _ => "ToolNotFound"
  | .stepFailed _ _ _ => "StepFailedError"
  | .budgetExceeded _ _ _ => "BudgetExceededError"
  | .cancellationRequested _ => "CancellationRequested"
  | .ambiguousStep _ _ => "AmbiguousStepError"
  | .leaseLost _ => "LeaseLost"
  | .exception type _ => type

/-- `str(exc)`; numbers are written exactly rather than as Python writes floats. -/
def str : Exn → String
  | .workflowNotFound message | .toolNotFound message | .cancellationRequested message
  | .leaseLost message | .exception _ message => message
  | .stepFailed stepKey attempts cause =>
    s!"step {pyRepr stepKey} failed after {attempts} attempt(s): " ++
      s!"{cause.typeName}({pyRepr cause.str})"
  | .budgetExceeded dimension limit observed =>
    s!"budget exceeded on {dimension}: {observed} > {limit}"
  | .ambiguousStep stepKey token =>
    s!"step {pyRepr stepKey} (token {token}) started but never completed; " ++
      "outcome unknown and step is declared at-most-once"

/-- `repr(exc)` -/
def repr (e : Exn) : String :=
  if e.str = "" then s!"{e.typeName}()" else s!"{e.typeName}({pyRepr e.str})"

/-- The signals that leave the retry loop of a step at once. -/
def control : Exn → Bool
  | .cancellationRequested _ | .leaseLost _ => true
  | _ => false

end Exn

/-! ## Statuses and classes -/

inductive RunStatus
  | pending
  | running
  | completed
  | failed
  | cancelled
  | needsReview
  deriving DecidableEq

/-- `RunStatus.terminal` -/
def RunStatus.terminal : RunStatus → Bool
  | .completed | .failed | .cancelled | .needsReview => true
  | _ => false

inductive StepIdempotency
  | atLeastOnce
  | atMostOnce
  deriving DecidableEq

/-! ## Budgets and usage -/

/-- Declared ceilings for a single run. -/
structure Budget where
  maxTokens : Option Int
  maxToolCalls : Option Int
  maxModelCalls : Option Int
  maxWallSeconds : Option Rat
  maxCostUsd : Option Rat

/-- Accumulated consumption. -/
structure Usage where
  inputTokens : Int
  outputTokens : Int
  toolCalls : Int
  modelCalls : Int
  costUsd : Rat
  deriving DecidableEq

def Usage.zero : Usage := ⟨0, 0, 0, 0, 0⟩

/-- `Usage.total_tokens` -/
def Usage.totalTokens (u : Usage) : Int := u.inputTokens + u.outputTokens

/-- `BudgetTracker.check`: raise if any ceiling is already breached. What was observed is
not rounded. -/
def Budget.check (b : Budget) (usage : Usage) (elapsedSeconds : Rat) : Except Exn Unit := do
  if let some limit := b.maxWallSeconds then
    if elapsedSeconds > limit then throw (.budgetExceeded "wall_seconds" limit elapsedSeconds)
  if let some limit := b.maxTokens then
    if usage.totalTokens > limit then throw (.budgetExceeded "tokens" limit usage.totalTokens)
  if let some limit := b.maxToolCalls then
    if usage.toolCalls ≥ limit then throw (.budgetExceeded "tool_calls" limit usage.toolCalls)
  if let some limit := b.maxModelCalls then
    if usage.modelCalls ≥ limit then throw (.budgetExceeded "model_calls" limit usage.modelCalls)
  if let some limit := b.maxCostUsd then
    if usage.costUsd > limit then throw (.budgetExceeded "cost_usd" limit usage.costUsd)

/-! ## Model responses -/

structure ToolCall where
  id : String
  name : String
  arguments : Value

structure ModelResponse where
  text : String
  toolCalls : List ToolCall
  stopReason : String
  inputTokens : Int
  outputTokens : Int
  costUsd : Rat
  model : String

/-- `ToolCall.to_dict` -/
def ToolCall.toDict (t : ToolCall) : Value :=
  .dict [(.str "id", .str t.id), (.str "name", .str t.name), (.str "arguments", t.arguments)]

/-- `ModelResponse.to_dict` -/
def ModelResponse.toDict (r : ModelResponse) : Value :=
  .dict [(.str "text", .str r.text), (.str "tool_calls", .list (r.toolCalls.map (·.toDict))),
    (.str "stop_reason", .str r.stopReason), (.str "input_tokens", .int r.inputTokens),
    (.str "output_tokens", .int r.outputTokens), (.str "cost_usd", .float r.costUsd),
    (.str "model", .str r.model)]

namespace ModelResponse

/-! `from_dict` reads what `to_dict` wrote. The source does not look at the types of what it
reads; a dict of other types stands for a malformed response and raises. -/

def malformed : Exn := .exception "TypeError" "malformed model response"

def strField (raw : Value) (key default : String) : Except Exn String :=
  match raw.get? key with
  | Option.none => .ok default
  | some (.str s) => .ok s
  | some _ => .error malformed

def intField (raw : Value) (key : String) : Except Exn Int :=
  match raw.get? key with
  | Option.none => .ok 0
  | some (.int n) => .ok n
  | some _ => .error malformed

def costField (raw : Value) (key : String) : Except Exn Rat :=
  match raw.get? key with
  | Option.none => .ok 0
  | some (.float q) => .ok q
  | some (.int n) => .ok n
  | some _ => .error malformed

/-- `ToolCall.from_dict` -/
def toolCall (raw : Value) : Except Exn ToolCall :=
  match raw.get? "id", raw.get? "name" with
  | some (.str id), some (.str name) =>
    .ok ⟨id, name, ((raw.get? "arguments").getD .none).orEmpty⟩
  | _, _ => .error malformed

def toolCallsField (raw : Value) : Except Exn (List ToolCall) :=
  match raw.get? "tool_calls" with
  | Option.none => .ok []
  | some (.list items) => items.mapM toolCall
  | some _ => .error malformed

/-- `ModelResponse.from_dict` -/
def fromDict (raw : Value) : Except Exn ModelResponse := do
  return {
    text := ← strField raw "text" ""
    toolCalls := ← toolCallsField raw
    stopReason := ← strField raw "stop_reason" "end_turn"
    inputTokens := ← intField raw "input_tokens"
    outputTokens := ← intField raw "output_tokens"
    costUsd := ← costField raw "cost_usd"
    model := ← strField raw "model" "unknown" }

end ModelResponse

/-! ## Runs -/

/-- The `error` column: the dict the engine writes, absent keys as none. -/
structure RunError where
  type : String
  message : String
  retryable : Option Bool := none
  dimension : Option String := none
  stepKey : Option String := none
  token : Option String := none
  attempts : Option Int := none
  traceback : Option String := none
  deriving DecidableEq

/-- A row of `runs`; `result` is `Value.none` when the column is NULL. -/
structure RunRecord where
  runId : Uuid
  workflow : String
  input : Value
  idempotencyKey : String
  status : RunStatus
  eventSeq : Nat
  attempt : Nat
  budget : Budget
  usage : Usage
  result : Value
  error : Option RunError
  cancelRequested : Bool
  createdAt : Int
  updatedAt : Int
  finishedAt : Option Int

/-! ## Events -/

/-- Who completed a step: the body on some try, or the verifier. -/
inductive CompletedBy
  | attempt (n : Nat)
  | verify

/-- Event types with their payloads. -/
inductive Payload
  | runStarted (workflow : String) (input : Value) (budget : Budget)
  | runResumed (attempt eventsBeforeResume : Nat)
  | stepStarted (token : String)
  | stepCompleted (result : Value) (by_ : CompletedBy)
  | stepErrorRetried (attempt : Nat) (error : String)
  | crashWindowRetried (token : String)
  | stepFailed (attempts : Nat) (error : String)
  | modelCalled (model stopReason : String) (inputTokens outputTokens : Int)
      (toolCalls : List String)
  | toolInvoked (tool : String) (arguments : Value) (idempotency : StepIdempotency)
  | budgetExceeded (dimension : String) (limit observed : Rat)
  | cancelRequested
  | runCompleted (usage : Usage) (elapsedSeconds : Rat) (replayedSteps executedSteps : Nat)
  | runFailed (error : RunError)
  | runCancelled (reason : String)
  | runNeedsReview (token reason : String)

structure Event where
  seq : Nat
  stepKey : Option String
  payload : Payload
  createdAt : Int

/-- A leased unit of work. -/
structure Claim where
  runId : Uuid
  attempts : Nat

/-! ## Deployment -/

/-- A registered tool; its function and verifier are user code. -/
structure ToolSpec where
  name : String
  idempotency : StepIdempotency
  verify : Bool

/-- Settings, registry and the parts of Python's library the runtime calls as black boxes. -/
structure Config where
  leaseSeconds : Int
  pollIntervalSeconds : Int
  stepMaxAttempts : Int
  stepBackoffBase : Rat
  workflows : List String
  tools : List ToolSpec
  uuid5 : Uuid → String → Uuid
  formatExc : Exn → String

/-- `step_token` -/
def stepToken (cfg : Config) (runId : Uuid) (stepKey : String) : Uuid :=
  cfg.uuid5 TOKEN_NAMESPACE s!"{runId.str}:{stepKey}"

/-- The names of a registry, as an error message lists them. -/
def known (names : List String) : String :=
  if names.isEmpty then "<none>" else String.intercalate ", " (names.insertionSort (· ≤ ·))

/-- `Registry.workflow`, up to the function itself. -/
def Config.workflow (cfg : Config) (name : String) : Except Exn Unit :=
  if cfg.workflows.contains name then .ok ()
  else .error (.workflowNotFound s!"{pyRepr name} not registered (known: {known cfg.workflows})")

/-- `Registry.tool` -/
def Config.tool (cfg : Config) (name : String) : Except Exn ToolSpec :=
  match cfg.tools.find? (·.name = name) with
  | some spec => .ok spec
  | none =>
    .error (.toolNotFound
      s!"{pyRepr name} not registered (known: {known (cfg.tools.map (·.name))})")

end AnchorRuntime
