import AnchorRuntime.DynamoLog
import AnchorRuntime.Readback
import AnchorRuntime.SideEffects

/-!
# The calls of both stores

The twelve calls of the `Store` protocol on runs, events and effects, as `store/postgres.py` and
`store/dynamo.py` answer them one at a time. Event types and payloads, results and errors are any
text and any JSON; a column is kept as it is read back. `run_queue` and the messages are left out:
none of these calls reads them. A read of the table sees every earlier write.

Result: `read_norm`, the JSON that both stores give back alike.
-/

namespace AnchorRuntime

open Relational

/-! ## What goes in and what comes back -/

/-- `asdict`, and the total. -/
def Usage.toDict (u : Usage) : Value :=
  .dict [(.str "input_tokens", .int u.inputTokens), (.str "output_tokens", .int u.outputTokens),
    (.str "tool_calls", .int u.toolCalls), (.str "model_calls", .int u.modelCalls),
    (.str "cost_usd", .float u.costUsd), (.str "total_tokens", .int u.totalTokens)]

/-- What a store gives back of a JSON value, none where it raises, and of the numbers in a budget
or a usage. -/
structure Codec where
  value : Value → Option Value
  int : Int → Int
  float : Rat → Rat

namespace Codec

variable (c : Codec)

/-- `Budget.from_dict` of what comes back of `to_dict`. -/
def budget (b : Budget) : Budget :=
  ⟨b.maxTokens.map c.int, b.maxToolCalls.map c.int, b.maxModelCalls.map c.int,
    b.maxWallSeconds.map c.float, b.maxCostUsd.map c.float⟩

/-- `Usage.from_dict` of what comes back of `to_dict`. -/
def usage (u : Usage) : Usage :=
  ⟨c.int u.inputTokens, c.int u.outputTokens, c.int u.toolCalls, c.int u.modelCalls,
    c.float u.costUsd⟩

/-- An argument whose default is None. -/
def optional (v : Value) : Option Value := if v.isNone then some .none else c.value v

end Codec

section Jsonb

-- the number that `float.__repr__` writes
variable (text : Rat → Rat)

mutual
/-- `json.loads` of what a `jsonb` column gives back of `json.dumps`, for dicts with string keys and
up to their order. -/
def readJsonb : Value → Value
  | .float q => if writtenOut q then .int (text q).num else .float q
  | .list items | .tuple items => .list (readJsonbItems items)
  | .dict entries => .dict (readJsonbEntries entries)
  | v => v

def readJsonbItems : List Value → List Value
  | [] => []
  | v :: vs => readJsonb v :: readJsonbItems vs

def readJsonbEntries : List (Value × Value) → List (Value × Value)
  | [] => []
  | (k, v) :: es => (k, readJsonb v) :: readJsonbEntries es
end

/-- `jsonb` columns. -/
def jsonbCodec : Codec where
  value v := if storableValue v then some (readJsonb text v) else none
  int n := n
  float q := if writtenOut q then text q else q

mutual
/-- No float is rounded when it is written out. -/
def Value.writes : Value → Bool
  | .float q => !writtenOut q || (q.den = 1 && text q = q)
  | .list items | .tuple items => writesItems items
  | .dict entries => writesEntries entries
  | _ => true

def Value.writesItems : List Value → Bool
  | [] => true
  | v :: vs => v.writes && writesItems vs

def Value.writesEntries : List (Value × Value) → Bool
  | [] => true
  | (_, v) :: es => v.writes && writesEntries es
end

end Jsonb

/-- Attributes, written by `_enc` and read by `_dec`. -/
def tableCodec : Codec where
  value v := (enc true v).map dec
  int := toDouble
  float q := q

/-- What `_from_item` makes of an item that was never in the table: no int has been a float. -/
def itemCodec : Codec where
  value v := (enc true v).map fun _ => v.norm
  int n := n
  float q := q

mutual
/-- Every int in the value is one that a double represents. -/
def Value.exact : Value → Bool
  | .int n => toDouble n = n
  | .list items | .tuple items => exactItems items
  | .dict entries => exactEntries entries
  | _ => true

def Value.exactItems : List Value → Bool
  | [] => true
  | v :: vs => v.exact && exactItems vs

def Value.exactEntries : List (Value × Value) → Bool
  | [] => true
  | (_, v) :: es => v.exact && exactEntries es
end

mutual
/-- Both stores give back the same, up to Python's `1 == 1.0`. -/
theorem read_norm {text : Rat → Rat} {reached : Bool} {a : Attr} : ∀ v : Value,
    enc reached v = some a → v.exact = true → v.writes text = true →
      (readJsonb text v).norm = (dec a).norm
  | .none, held, _, _ | .bool _, held, _, _ => by
    cases held
    rfl
  | .str _, held, _, _ => by
    rw [enc_str held]
    rfl
  | .nonFinite _, held, _, _ | .object _, held, _, _ => by cases held
  | .int n, held, exact, _ => by
    unfold enc at held
    split at held
    · cases held
      have kept : toDouble n = n := of_decide_eq_true exact
      simp only [readJsonb, dec, kept]
    · cases held
  | .float q, held, _, writes => by
    unfold enc at held
    split at held
    · cases held
      unfold readJsonb
      split
      · next long =>
        simp only [Value.writes, long, Bool.not_true, Bool.false_or, Bool.and_eq_true,
          decide_eq_true_eq] at writes
        simp only [dec, writes.1, writes.2, if_true]
      · unfold dec
        by_cases whole : q.den = 1
        · simp only [Value.norm, whole, if_true]
        · simp only [whole, if_false]
    · cases held
  | .list items, held, exact, writes | .tuple items, held, exact, writes => by
    obtain ⟨as, items', rfl⟩ := Option.map_eq_some_iff.mp held
    simp only [readJsonb, dec, Value.norm, readItems_norm items items' exact writes]
  | .dict entries, held, exact, writes => by
    obtain ⟨as, entries', rfl⟩ := Option.map_eq_some_iff.mp held
    simp only [readJsonb, dec, Value.norm, readEntries_norm entries entries' exact writes]

theorem readItems_norm {text : Rat → Rat} {reached : Bool} {as : List Attr} : ∀ vs : List Value,
    encItems reached vs = some as → Value.exactItems vs = true → Value.writesItems text vs = true →
      Value.normItems (readJsonbItems text vs) = Value.normItems (decItems as)
  | [], held, _, _ => by
    cases held
    rfl
  | v :: vs, held, exact, writes => by
    obtain ⟨a, first, held⟩ := Option.bind_eq_some_iff.mp held
    obtain ⟨as, rest, held⟩ := Option.bind_eq_some_iff.mp held
    obtain ⟨exact, exact'⟩ := Bool.and_eq_true _ _ ▸ exact
    obtain ⟨writes, writes'⟩ := Bool.and_eq_true _ _ ▸ writes
    cases held
    simp only [readJsonbItems, decItems, Value.normItems, read_norm v first exact writes,
      readItems_norm vs rest exact' writes']

theorem readEntries_norm {text : Rat → Rat} {reached : Bool} {as : List (String × Attr)} :
    ∀ es : List (Value × Value), encEntries reached es = some as →
      Value.exactEntries es = true → Value.writesEntries text es = true →
        Value.normEntries (readJsonbEntries text es) = Value.normEntries (decEntries as)
  | [], held, _, _ => by
    cases held
    rfl
  | (k, v) :: es, held, exact, writes => by
    cases k with
    | str k =>
      obtain ⟨a, as, first, rest, rfl⟩ := encEntries_cons held
      obtain ⟨exact, exact'⟩ := Bool.and_eq_true _ _ ▸ exact
      obtain ⟨writes, writes'⟩ := Bool.and_eq_true _ _ ▸ writes
      simp only [readJsonbEntries, decEntries, Value.normEntries, read_norm v first exact writes,
        readEntries_norm es rest exact' writes']
    | none | bool | int | float | nonFinite | list | tuple | dict | object => cases held
end

/-! ## Calls and replies -/

/-- A row of `runs` as `_to_run` gives it back, or META as `_from_item` does. -/
structure RunRow where
  runId : Uuid
  workflow : String
  input : Value
  idempotencyKey : String
  status : RunStatus
  eventSeq : Nat
  attempt : Nat
  budget : Budget
  usage : Usage
  result : Value
  error : Value
  cancelRequested : Bool
  createdAt : Int
  updatedAt : Int
  finishedAt : Option Int

/-- A call with its arguments; a submission comes with the run id that `uuid4` drew. -/
inductive RunCall
  | submitRun (runId : Uuid) (workflow : String) (payload : Value) (idempotencyKey : String)
      (budget : Budget)
  | getRun (runId : Uuid)
  | appendEvent (runId : Uuid) (type : String) (stepKey : Option String) (payload : Value)
  | loadEvents (runId : Uuid)
  | setStatus (runId : Uuid) (status : RunStatus) (result error : Value)
  | bumpAttempt (runId : Uuid)
  | saveUsage (runId : Uuid) (usage : Usage)
  | requestCancel (runId : Uuid)
  | isCancelRequested (runId : Uuid)
  | recordSideEffect (token runId : Uuid) (kind : String) (payload : Value)
  | findSideEffect (token : Uuid)
  | countSideEffects (runId : Uuid) (kind : String)

/-- What a call returns or raises. -/
inductive Reply
  | done
  | submitted (run : Option RunRow) (created : Bool)
  | run (run : Option RunRow)
  -- an int, or None
  | number (n : Option Nat)
  | flag (b : Bool)
  | events (events : List LoadedEvent)
  | effect (row : Option SideEffect)
  | raised (exc : Exn)

/-- The columns of a new run. -/
def newRow (c : Codec) (now : Int) (runId : Uuid) (workflow : String) (input : Value)
    (idempotencyKey : String) (budget : Budget) : RunRow :=
  { runId, workflow, input, idempotencyKey, status := .pending, eventSeq := 0, attempt := 0,
    budget := c.budget budget, usage := .zero, result := .none, error := .none,
    cancelRequested := false, createdAt := now, updatedAt := now, finishedAt := none }

/-- The payload of RunStarted. -/
def startedPayload (workflow : String) (input : Value) (budget : Budget) : Value :=
  .dict [(.str "workflow", .str workflow), (.str "input", input), (.str "budget", budget.toDict)]

/-! ## Postgres -/

/-- `runs`, the events of each run, and `side_effects`. -/
structure PostgresStore where
  runs : Table RunRow.runId
  events : Uuid → List LoadedEvent
  sideEffects : SideEffects

namespace PostgresStore

def empty : PostgresStore := ⟨.empty, fun _ => [], .empty⟩

section

variable (c : Codec) (p : PostgresStore) (now : Int)

/-- `UPDATE runs SET ..., updated_at = now() WHERE run_id = $1` -/
def updateRun (runId : Uuid) (f : RunRow → RunRow) (same : ∀ r, (f r).runId = r.runId) :
    PostgresStore :=
  { p with runs := p.runs.update runId (fun r => { f r with updatedAt := now }) same }

/-- `_append_event_conn` -/
def appendEvent (runId : Uuid) (type : String) (stepKey : Option String) (payload : Value) :
    Reply × PostgresStore :=
  match c.value payload, pgText type && stepKey.all pgText with
  | some payload, true =>
    match p.runs.find runId with
    | none => (.number none, p)
    | some run =>
      let seq := run.eventSeq + 1
      if (p.events runId).any (·.seq = seq) then (.raised uniqueViolation, p)
      else
        (.number (some seq),
          { p.updateRun now runId (fun r => { r with eventSeq := r.eventSeq + 1 })
              (fun _ => rfl) with
            events := Function.update p.events runId
              (p.events runId ++ [⟨seq, type, stepKey, payload, now⟩]) })
  | _, _ => (.raised dataError, p)

/-- `submit_run`, one transaction. -/
def submitRun (runId : Uuid) (workflow : String) (payload : Value) (idempotencyKey : String)
    (budget : Budget) : Reply × PostgresStore :=
  match c.value payload, c.value budget.toDict, pgText workflow && pgText idempotencyKey with
  | some input, some _, true =>
    match p.runs.rows.find? fun r => r.idempotencyKey = idempotencyKey with
    | some existing => (.submitted (some existing) false, p)
    | none =>
      match p.runs.insert (newRow c now runId workflow input idempotencyKey budget) with
      | none => (.raised uniqueViolation, p)
      | some runs =>
        match appendEvent c { p with runs } now runId "RunStarted" none
            (startedPayload workflow payload budget) with
        | (.raised exc, _) => (.raised exc, p)
        | (_, p) => (.submitted (p.runs.find runId) true, p)
  | _, _, _ => (.raised dataError, p)

/-- `load_events`: `ORDER BY seq`. -/
def loadEvents (runId : Uuid) : List LoadedEvent :=
  (p.events runId).insertionSort fun a b => a.seq ≤ b.seq

/-- `set_status` -/
def setStatus (runId : Uuid) (status : RunStatus) (result error : Value) :
    Reply × PostgresStore :=
  match c.optional result, c.optional error with
  | some result, some error =>
    (.done, p.updateRun now runId (fun r =>
      { r with
        status
        result := if result.isNone then r.result else result
        error := if error.isNone then r.error else error
        finishedAt := if status.terminal then some now else r.finishedAt }) fun _ => rfl)
  | _, _ => (.raised dataError, p)

/-- `bump_attempt` -/
def bumpAttempt (runId : Uuid) : Reply × PostgresStore :=
  (.number ((p.runs.find runId).map (·.attempt + 1)),
    p.updateRun now runId (fun r => { r with attempt := r.attempt + 1 }) fun _ => rfl)

/-- `save_usage` -/
def saveUsage (runId : Uuid) (usage : Usage) : Reply × PostgresStore :=
  match c.value usage.toDict with
  | some _ =>
    (.done, p.updateRun now runId (fun r => { r with usage := c.usage usage }) fun _ => rfl)
  | none => (.raised dataError, p)

/-- `request_cancel`, one transaction. -/
def requestCancel (runId : Uuid) : Reply × PostgresStore :=
  match p.runs.find runId with
  | none => (.flag false, p)
  | some run =>
    if run.status.terminal then (.flag false, p)
    else
      match appendEvent c
          (p.updateRun now runId (fun r => { r with cancelRequested := true }) fun _ => rfl) now
          runId "CancelRequested" none (.dict []) with
      | (.raised exc, _) => (.raised exc, p)
      | (_, p) => (.flag true, p)

/-- `record_side_effect` -/
def recordSideEffect (token runId : Uuid) (kind : String) (payload : Value) :
    Reply × PostgresStore :=
  match c.value payload, pgText kind with
  | some payload, true =>
    match p.sideEffects.insert ⟨token, runId, kind, payload, now⟩ with
    | some sideEffects => (.flag true, { p with sideEffects })
    | none => (.flag false, p)
  | _, _ => (.raised dataError, p)

/-- `count_side_effects` -/
def countSideEffects (runId : Uuid) (kind : String) : Nat :=
  (p.sideEffects.rows.filter fun row => row.runId = runId && row.kind = kind).length

end

/-- A call of `PostgresStore`. -/
def perform (c : Codec) (p : PostgresStore) (now : Int) : RunCall → Reply × PostgresStore
  | .submitRun runId workflow payload key budget =>
    p.submitRun c now runId workflow payload key budget
  | .getRun runId => (.run (p.runs.find runId), p)
  | .appendEvent runId type stepKey payload =>
    p.appendEvent c now runId type stepKey payload.orEmpty
  | .loadEvents runId => (.events (p.loadEvents runId), p)
  | .setStatus runId status result error => p.setStatus c now runId status result error
  | .bumpAttempt runId => p.bumpAttempt now runId
  | .saveUsage runId usage => p.saveUsage c now runId usage
  | .requestCancel runId => p.requestCancel c now runId
  | .isCancelRequested runId => (.flag ((p.runs.find runId).any (·.cancelRequested)), p)
  | .recordSideEffect token runId kind payload =>
    p.recordSideEffect c now token runId kind payload
  | .findSideEffect token => (.effect (p.sideEffects.find token), p)
  | .countSideEffects runId kind => (.number (some (p.countSideEffects runId kind)), p)

end PostgresStore

/-! ## DynamoDB -/

/-- What a META item may hold. `update_item` makes one where there is none. -/
structure MetaItem where
  runId : Option Uuid := none
  workflow : Option String := none
  input : Option Value := none
  idempotencyKey : Option String := none
  status : Option RunStatus := none
  eventSeq : Option Nat := none
  attempt : Option Nat := none
  budget : Option Budget := none
  usage : Option Usage := none
  result : Option Value := none
  error : Option Value := none
  cancelRequested : Option Bool := none
  createdAt : Option Int := none
  updatedAt : Option Int := none
  finishedAt : Option Int := none

/-- `item[key]` -/
def item {α : Type} (key : String) : Option α → Except Exn α
  | some a => .ok a
  | none => .error (.exception "KeyError" (pyRepr key))

/-- `_from_item` -/
def MetaItem.fromItem (m : MetaItem) : Except Exn RunRow := do
  let runId ← item "run_id" m.runId
  let workflow ← item "workflow" m.workflow
  let idempotencyKey ← item "idempotency_key" m.idempotencyKey
  let status ← item "status" m.status
  let createdAt ← item "created_at" m.createdAt
  let updatedAt ← item "updated_at" m.updatedAt
  return {
    runId, workflow, idempotencyKey, status, createdAt, updatedAt
    input := m.input.getD (.dict [])
    eventSeq := m.eventSeq.getD 0
    attempt := m.attempt.getD 0
    budget := m.budget.getD ⟨none, none, none, none, none⟩
    usage := m.usage.getD .zero
    result := m.result.getD .none
    error := m.error.getD .none
    cancelRequested := m.cancelRequested.getD false
    finishedAt := m.finishedAt }

/-- The item that `submit_run` puts. -/
def MetaItem.ofRow (r : RunRow) : MetaItem where
  runId := some r.runId
  workflow := some r.workflow
  input := some r.input
  idempotencyKey := some r.idempotencyKey
  status := some r.status
  eventSeq := some r.eventSeq
  attempt := some r.attempt
  budget := some r.budget
  usage := some r.usage
  result := if r.result.isNone then none else some r.result
  error := if r.error.isNone then none else some r.error
  cancelRequested := some r.cancelRequested
  createdAt := some r.createdAt
  updatedAt := some r.updatedAt
  finishedAt := r.finishedAt

/-- The items of the table: IDEMPOTENCY by key, META, COUNTER and the EVENT items by run, the
effects by token. -/
structure DynamoDBStore where
  idem : String → Option Uuid
  runs : Uuid → Option MetaItem
  counter : Uuid → Option Nat
  events : Uuid → List EventItem
  effects : SideEffects

/-- What the service holds: the items of a call, where they have at most 400 KB each, and in one
answer the items of a `Query` that fill a page by their sizes, and the effects that a `Scan`
reaches. -/
structure Pages where
  fits : DynamoDBStore → RunCall → Bool
  size : EventItem → Nat
  page : Nat
  reaches : DynamoDBStore → Uuid → Bool

namespace DynamoDBStore

def empty : DynamoDBStore := ⟨fun _ => none, fun _ => none, fun _ => none, fun _ => [], .empty⟩

section

variable (d : DynamoDBStore) (now : Int)

/-- `update_item` of META with `updated_at = :now`. -/
def updateMeta (runId : Uuid) (f : MetaItem → MetaItem) : DynamoDBStore :=
  { d with
    runs := Function.update d.runs runId
      (some { f ((d.runs runId).getD {}) with updatedAt := some now }) }

/-- `append_event` -/
def appendEvent (runId : Uuid) (type : String) (stepKey : Option String) (payload : Value) :
    Reply × DynamoDBStore :=
  match d.counter runId with
  | none => (.raised validationError, d)
  | some n =>
    let d := { d with counter := Function.update d.counter runId (some (n + 1)) }
    let d := d.updateMeta now runId fun m => { m with eventSeq := some (n + 1) }
    match enc true payload with
    | none => (.raised serializeError, d)
    | some payload =>
      (.number (some (n + 1)),
        { d with
          events := Function.update d.events runId
            (putEvent ⟨n + 1, type, stepKey, payload, now⟩ (d.events runId)) })

/-- `get_run` -/
def getRun (runId : Uuid) : Except Exn (Option RunRow) :=
  match d.runs runId with
  | none => .ok none
  | some m => m.fromItem.map some

/-- `submit_run` -/
def submitRun (runId : Uuid) (workflow : String) (payload : Value) (idempotencyKey : String)
    (budget : Budget) : Reply × DynamoDBStore :=
  match d.idem idempotencyKey with
  | some owner =>
    match d.getRun owner with
    | .ok existing => (.submitted existing false, d)
    | .error exc => (.raised exc, d)
  | none =>
    let d := { d with idem := Function.update d.idem idempotencyKey (some runId) }
    match tableCodec.value payload, tableCodec.value budget.toDict with
    | some input, some _ =>
      let run := newRow tableCodec now runId workflow input idempotencyKey budget
      let d := { d with
        runs := Function.update d.runs runId (some (.ofRow run))
        counter := Function.update d.counter runId (some 0) }
      match d.appendEvent now runId "RunStarted" none (startedPayload workflow payload budget) with
      | (.raised exc, d) => (.raised exc, d)
      -- the run as it was put, not as it is now
      | (_, d) => (.submitted ((itemCodec.value payload).map fun input =>
          newRow itemCodec now runId workflow input idempotencyKey budget) true, d)
    | _, _ => (.raised serializeError, d)

/-- `load_events` -/
def loadEvents (pages : Pages) (runId : Uuid) : List LoadedEvent :=
  (firstPage pages.size pages.page (d.events runId)).map EventItem.load

/-- `set_status` -/
def setStatus (runId : Uuid) (status : RunStatus) (result error : Value) :
    Reply × DynamoDBStore :=
  match tableCodec.optional result, tableCodec.optional error with
  | some result, some error =>
    (.done, d.updateMeta now runId fun m =>
      { m with
        status := some status
        result := if result.isNone then m.result else some result
        error := if error.isNone then m.error else some error
        finishedAt := if status.terminal then some now else m.finishedAt })
  | _, _ => (.raised serializeError, d)

/-- `bump_attempt` -/
def bumpAttempt (runId : Uuid) : Reply × DynamoDBStore :=
  match (d.runs runId).bind (·.attempt) with
  | none => (.raised validationError, d)
  | some n =>
    (.number (some (n + 1)),
      d.updateMeta now runId fun m => { m with attempt := some (n + 1) })

/-- `save_usage`. `usage` is a reserved word, and the expression writes it out: the service
refuses the update. -/
def saveUsage (usage : Usage) : Reply × DynamoDBStore :=
  match tableCodec.value usage.toDict with
  | some _ => (.raised validationError, d)
  | none => (.raised serializeError, d)

/-- `request_cancel`: the condition is a status PENDING or RUNNING. -/
def requestCancel (runId : Uuid) : Reply × DynamoDBStore :=
  match (d.runs runId).bind (·.status) with
  | none => (.flag false, d)
  | some status =>
    if status = .pending ∨ status = .running then
      let d := d.updateMeta now runId fun m => { m with cancelRequested := some true }
      match d.appendEvent now runId "CancelRequested" none (.dict []) with
      | (.raised exc, d) => (.raised exc, d)
      | (_, d) => (.flag true, d)
    else (.flag false, d)

/-- `is_cancel_requested` -/
def isCancelRequested (runId : Uuid) : Bool :=
  ((d.runs runId).bind (·.cancelRequested)).getD false

/-- `record_side_effect` -/
def recordSideEffect (token runId : Uuid) (kind : String) (payload : Value) :
    Reply × DynamoDBStore :=
  match tableCodec.value payload with
  | some payload =>
    match d.effects.insert ⟨token, runId, kind, payload, now⟩ with
    | some effects => (.flag true, { d with effects })
    | none => (.flag false, d)
  | none => (.raised serializeError, d)

/-- `count_side_effects` -/
def countSideEffects (pages : Pages) (runId : Uuid) (kind : String) : Nat :=
  ((d.effects.rows.filter fun row => pages.reaches d row.token).filter fun row =>
    row.runId = runId && row.kind = kind).length

end

/-- A call of `DynamoDBStore`. -/
def perform (pages : Pages) (d : DynamoDBStore) (now : Int) : RunCall → Reply × DynamoDBStore
  | .submitRun runId workflow payload key budget =>
    d.submitRun now runId workflow payload key budget
  | .getRun runId =>
    match d.getRun runId with
    | .ok run => (.run run, d)
    | .error exc => (.raised exc, d)
  | .appendEvent runId type stepKey payload =>
    d.appendEvent now runId type stepKey payload.orEmpty
  | .loadEvents runId => (.events (d.loadEvents pages runId), d)
  | .setStatus runId status result error => d.setStatus now runId status result error
  | .bumpAttempt runId => d.bumpAttempt now runId
  | .saveUsage _ usage => d.saveUsage usage
  | .requestCancel runId => d.requestCancel now runId
  | .isCancelRequested runId => (.flag (d.isCancelRequested runId), d)
  | .recordSideEffect token runId kind payload =>
    d.recordSideEffect now token runId kind payload
  | .findSideEffect token => (.effect (d.effects.find token), d)
  | .countSideEffects runId kind => (.number (some (d.countSideEffects pages runId kind)), d)

end DynamoDBStore

end AnchorRuntime
