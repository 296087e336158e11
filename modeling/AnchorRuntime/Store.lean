import AnchorRuntime.Models
import AnchorRuntime.Lib.Table

/-!
# The Postgres store

The tables of `001_init.sql` and the statements of `store/postgres.py` on them. Each
function is one atomic statement or transaction at time `now`; an `Except` error is the
exception the call raises, and then the store is unchanged.

Results: `Store.Numbered` is preserved by every statement, so `loadEvents` returns a run's
events in the order they were appended (`appendEvent_log`), and the primary key of `events`
never rejects an append (`appendEvent_ok`).
-/

namespace AnchorRuntime

open Relational

/-! ## Tables -/

structure EventRow where
  runId : Uuid
  event : Event

/-- `PRIMARY KEY (run_id, seq)` -/
def EventRow.key (r : EventRow) : Uuid × Nat := (r.runId, r.event.seq)

structure QueueRow where
  runId : Uuid
  visibleAt : Int
  lockedUntil : Option Int
  workerId : Option String
  attempts : Nat

structure Store where
  runs : Table RunRecord.runId
  events : Table EventRow.key
  runQueue : Table QueueRow.runId

def Store.empty : Store := ⟨.empty, .empty, .empty⟩

/-! ## Encoding -/

def storableValue (v : Value) : Bool := v.jsonable && v.jsonb

def RunError.storable (e : RunError) : Bool :=
  jsonText e.type && jsonText e.message && e.dimension.all jsonText && e.stepKey.all jsonText &&
    e.token.all jsonText && e.traceback.all jsonText

/-- Whether `json.dumps` and `jsonb` take the payload. -/
def Payload.storable : Payload → Bool
  | .runStarted workflow input _ => jsonText workflow && storableValue input
  | .stepCompleted result _ => storableValue result
  | .stepErrorRetried _ error | .stepFailed _ error => jsonText error
  | .modelCalled model stopReason _ _ toolCalls =>
    jsonText model && jsonText stopReason && toolCalls.all jsonText
  | .toolInvoked tool arguments _ => jsonText tool && storableValue arguments
  | .runFailed error => error.storable
  | .runCancelled reason => jsonText reason
  | .budgetExceeded dimension _ _ => jsonText dimension
  | .runNeedsReview token reason => jsonText token && jsonText reason
  | _ => true

/-- What asyncpg raises for an argument it cannot encode or Postgres cannot hold. -/
def dataError : Exn := .exception "DataError" "invalid input for query argument"

def uniqueViolation : Exn :=
  .exception "UniqueViolationError" "duplicate key value violates unique constraint"

namespace Store

/-! ## Runs -/

/-- `get_run` -/
def getRun (st : Store) (runId : Uuid) : Option RunRecord := st.runs.find runId

/-- `load_events`: `WHERE run_id = $1 ORDER BY seq` -/
def loadEvents (st : Store) (runId : Uuid) : List Event :=
  ((st.events.rows.filter fun r => r.runId = runId).map (·.event)).insertionSort
    fun a b => a.seq ≤ b.seq

/-- `_append_event_conn`: bump `event_seq` and insert the event under it. -/
def appendEvent (st : Store) (now : Int) (runId : Uuid) (stepKey : Option String)
    (payload : Payload) : Except Exn (Option Nat × Store) :=
  if payload.storable && stepKey.all pgText then
    match st.runs.find runId with
    | none => .ok (none, st)
    | some run =>
      let seq := run.eventSeq + 1
      match st.events.insert ⟨runId, ⟨seq, stepKey, payload, now⟩⟩ with
      | none => .error uniqueViolation
      | some events =>
        let runs := st.runs.update runId
          (fun r => { r with eventSeq := r.eventSeq + 1, updatedAt := now }) fun _ => rfl
        .ok (some seq, { st with runs, events })
  else .error dataError

/-- The rows of a new run. -/
def insertRun (st : Store) (now : Int) (run : RunRecord) : Option Store := do
  let runs ← st.runs.insert run
  let runQueue ← st.runQueue.insert ⟨run.runId, now, none, none, 0⟩
  some { st with runs, runQueue }

/-- The row of a new run. -/
def newRun (now : Int) (runId : Uuid) (workflow : String) (payload : Value)
    (idempotencyKey : String) (budget : Budget) : RunRecord :=
  { runId, workflow, input := payload, idempotencyKey, status := .pending, eventSeq := 0,
    attempt := 0, budget, usage := .zero, result := .none, error := none,
    cancelRequested := false, createdAt := now, updatedAt := now, finishedAt := none }

/-- `submit_run` with the run id `uuid4` drew: one transaction. The arguments of the insert
are encoded before it looks for a conflict. -/
def submitRun (st : Store) (now : Int) (runId : Uuid) (workflow : String) (payload : Value)
    (idempotencyKey : String) (budget : Budget) : Except Exn ((RunRecord × Bool) × Store) :=
  if storableValue payload && pgText workflow && pgText idempotencyKey then
    match st.runs.rows.find? fun r => r.idempotencyKey = idempotencyKey with
    | some existing => .ok ((existing, false), st)
    | none =>
      let run := newRun now runId workflow payload idempotencyKey budget
      match st.insertRun now run with
      | none => .error uniqueViolation
      | some st => do
        let (_, st) ← st.appendEvent now runId none (.runStarted workflow payload budget)
        return (((st.runs.find runId).getD run, true), st)
  else .error dataError

/-- `set_status`: no condition on the status the row has. -/
def setStatus (st : Store) (now : Int) (runId : Uuid) (status : RunStatus) (result : Value)
    (error : Option RunError) : Except Exn (Unit × Store) :=
  if storableValue result && error.all (·.storable) then
    .ok ((), { st with
      runs := st.runs.update runId (fun r =>
        { r with
          status
          result := if result.isNone then r.result else result
          error := error.orElse fun _ => r.error
          updatedAt := now
          finishedAt := if status.terminal then some now else r.finishedAt }) fun _ => rfl })
  else .error dataError

/-- `bump_attempt` -/
def bumpAttempt (st : Store) (now : Int) (runId : Uuid) : Option Nat × Store :=
  ((st.runs.find runId).map (·.attempt + 1),
    { st with
      runs := st.runs.update runId
        (fun r => { r with attempt := r.attempt + 1, updatedAt := now }) fun _ => rfl })

/-- `save_usage` -/
def saveUsage (st : Store) (now : Int) (runId : Uuid) (usage : Usage) : Store :=
  { st with
    runs := st.runs.update runId (fun r => { r with usage, updatedAt := now }) fun _ => rfl }

/-- `cancel_requested = TRUE` -/
def flag (st : Store) (now : Int) (runId : Uuid) : Store :=
  { st with
    runs := st.runs.update runId
      (fun r => { r with cancelRequested := true, updatedAt := now }) fun _ => rfl }

/-- `request_cancel`: the flag and its event in one transaction. -/
def requestCancel (st : Store) (now : Int) (runId : Uuid) : Except Exn (Bool × Store) :=
  match st.runs.find runId with
  | none => .ok (false, st)
  | some run =>
    if run.status.terminal then .ok (false, st)
    else do
      let (_, st) ← (st.flag now runId).appendEvent now runId none .cancelRequested
      return (true, st)

/-- `is_cancel_requested` -/
def isCancelRequested (st : Store) (runId : Uuid) : Bool :=
  (st.runs.find runId).any (·.cancelRequested)

/-! ## Queue -/

/-- `visible_at <= now() AND (locked_until IS NULL OR locked_until < now())` -/
def claimable (now : Int) (q : QueueRow) : Bool :=
  q.visibleAt ≤ now && q.lockedUntil.all (· < now)

/-- `claim`: the claimable row with the least `visible_at` among those no other transaction
has locked (`FOR UPDATE SKIP LOCKED`). -/
def claim (st : Store) (now : Int) (workerId : String) (lease : Int) (locked : List Uuid) :
    Option Claim × Store :=
  match ((st.runQueue.rows.filter fun q =>
      claimable now q && !locked.contains q.runId).insertionSort
        fun a b => a.visibleAt ≤ b.visibleAt).head? with
  | none => (none, st)
  | some q =>
    (some ⟨q.runId, q.attempts + 1⟩,
      { st with
        runQueue := st.runQueue.update q.runId
          (fun q => { q with
            lockedUntil := some (now + lease)
            workerId := some workerId
            attempts := q.attempts + 1 }) fun _ => rfl })

/-- `worker_id = $2 AND locked_until > now()` -/
def holds (now : Int) (workerId : String) (q : QueueRow) : Bool :=
  q.workerId = some workerId && q.lockedUntil.any (now < ·)

/-- `heartbeat` -/
def heartbeat (st : Store) (now : Int) (runId : Uuid) (workerId : String) (lease : Int) :
    Bool × Store :=
  if (st.runQueue.find runId).any (holds now workerId) then
    (true, { st with
      runQueue := st.runQueue.update runId
        (fun q => { q with lockedUntil := some (now + lease) }) fun _ => rfl })
  else (false, st)

/-- `release` -/
def release (st : Store) (now : Int) (runId : Uuid) (workerId : String) (delay : Int) : Store :=
  if (st.runQueue.find runId).any fun q => q.workerId = some workerId then
    { st with
      runQueue := st.runQueue.update runId
        (fun q => { q with
          lockedUntil := none, workerId := none, visibleAt := now + delay }) fun _ => rfl }
  else st

/-- `dequeue`: no condition on the worker. -/
def dequeue (st : Store) (runId : Uuid) : Store :=
  { st with runQueue := st.runQueue.delete runId }

/-! ## The log -/

/-- The events of a run in the order in which they were inserted. -/
def eventsOf (st : Store) (runId : Uuid) : List Event :=
  (st.events.rows.filter fun r => r.runId = runId).map (·.event)

/-- The counter of a run, zero before the run exists. -/
def eventSeq (st : Store) (runId : Uuid) : Nat := ((st.getRun runId).map (·.eventSeq)).getD 0

/-- The events of every run are numbered 1, 2, ... up to the counter on its row. -/
def Numbered (st : Store) : Prop :=
  ∀ runId, (st.eventsOf runId).map (·.seq) = List.range' 1 (st.eventSeq runId)

/-- What a run row says of the run's fate. -/
def standing (st : Store) (runId : Uuid) : Option (RunStatus × Value × Option RunError) :=
  (st.getRun runId).map fun run => (run.status, run.result, run.error)

end Store

namespace StoreLemmas

theorem numbered_empty : Store.empty.Numbered := by
  intro runId
  rfl

theorem sorted_of_numbered {events : List Event} {n : Nat}
    (h : events.map (·.seq) = List.range' 1 n) :
    events.Pairwise fun a b => a.seq ≤ b.seq := by
  have sorted : (events.map (·.seq)).Pairwise (· < ·) := by
    rw [h]
    exact List.pairwise_lt_range'
  exact (List.pairwise_map.mp sorted).imp Nat.le_of_lt

/-- Loading sorts what is already in order. -/
theorem loadEvents_eq {st : Store} (h : st.Numbered) (runId : Uuid) :
    st.loadEvents runId = st.eventsOf runId :=
  (sorted_of_numbered (h runId)).insertionSort_eq

/-- A statement that leaves the events and the counters alone leaves the log alone. -/
theorem numbered_of_same {st st' : Store} (h : st.Numbered) (events : st'.events = st.events)
    (seq : ∀ runId, st'.eventSeq runId = st.eventSeq runId) :
    st'.Numbered ∧ ∀ runId, st'.loadEvents runId = st.loadEvents runId := by
  have same : ∀ runId, st'.eventsOf runId = st.eventsOf runId := fun runId => by
    rw [Store.eventsOf, events, Store.eventsOf]
  have numbered : st'.Numbered := fun runId => by rw [same, seq, h]
  exact ⟨numbered, fun runId => by rw [loadEvents_eq numbered, loadEvents_eq h, same]⟩

theorem numbered_update {st : Store} (h : st.Numbered) {runId : Uuid} {f : RunRecord → RunRecord}
    {same : ∀ r, (f r).runId = r.runId} (seq : ∀ r, (f r).eventSeq = r.eventSeq)
    (queue : Table QueueRow.runId) :
    Store.Numbered ⟨st.runs.update runId f same, st.events, queue⟩ ∧ ∀ j,
      Store.loadEvents ⟨st.runs.update runId f same, st.events, queue⟩ j = st.loadEvents j :=
  numbered_of_same h rfl fun j =>
    congrArg (Option.getD · 0) (Table.map_find_update st.runs runId f same _ seq j)

theorem numbered_queue {st : Store} (h : st.Numbered) (queue : Table QueueRow.runId) :
    Store.Numbered ⟨st.runs, st.events, queue⟩ ∧
      ∀ j, Store.loadEvents ⟨st.runs, st.events, queue⟩ j = st.loadEvents j :=
  numbered_of_same h rfl fun _ => rfl

theorem eventsOf_insert {st : Store} {row : EventRow} {events : Table EventRow.key}
    (h : st.events.insert row = some events) (runs : Table RunRecord.runId)
    (queue : Table QueueRow.runId) (runId : Uuid) :
    Store.eventsOf ⟨runs, events, queue⟩ runId =
      st.eventsOf runId ++ if runId = row.runId then [row.event] else [] := by
  obtain ⟨_, rows⟩ := Table.rows_insert h
  rw [Store.eventsOf, rows, List.filter_append, List.map_append]
  congr 1
  by_cases same : runId = row.runId
  · simp [same]
  · simp [same, Ne.symm same]

/-- The counter update of an append. -/
def bumped (now : Int) (r : RunRecord) : RunRecord :=
  { r with eventSeq := r.eventSeq + 1, updatedAt := now }

theorem bumped_runId (now : Int) (r : RunRecord) : (bumped now r).runId = r.runId := rfl

theorem eventSeq_bumped {t : Table RunRecord.runId} {run : RunRecord} {runId : Uuid}
    (found : t.find runId = some run) (now : Int) (j : Uuid) :
    (((t.update runId (bumped now) (bumped_runId now)).find j).map (·.eventSeq)).getD 0 =
      if j = runId then run.eventSeq + 1 else ((t.find j).map (·.eventSeq)).getD 0 := by
  rw [Table.find_update]
  split
  · next same =>
    rw [same, found]
    rfl
  · rfl

/-- The primary key is free: the log holds no event beyond its counter. -/
theorem insert_next {st : Store} (h : st.Numbered) {run : RunRecord} {runId : Uuid}
    (found : st.runs.find runId = some run) (key : Option String) (payload : Payload) (now : Int) :
    ∃ events, st.events.insert ⟨runId, ⟨run.eventSeq + 1, key, payload, now⟩⟩ = some events := by
  refine Table.insert_isSome (Table.find_eq_none.mpr fun taken => ?_)
  obtain ⟨row, mem, same⟩ := List.mem_map.mp taken
  obtain ⟨run_eq, seq_eq⟩ : row.runId = runId ∧ row.event.seq = run.eventSeq + 1 := by
    simpa [EventRow.key] using same
  have mem_seq : row.event.seq ∈ (st.eventsOf runId).map (·.seq) :=
    List.mem_map.mpr ⟨row.event,
      List.mem_map.mpr ⟨row, List.mem_filter.mpr ⟨mem, by simpa using run_eq⟩, rfl⟩, rfl⟩
  rw [h runId, List.mem_range'_1, Store.eventSeq, Store.getRun, found] at mem_seq
  simp only [Option.map_some, Option.getD_some] at mem_seq
  omega

end StoreLemmas

open StoreLemmas

/-! ## What each statement does to the log -/

/-- What an append does: nothing when there is no such run, else one event at the end of the
run's log, under the next number. -/
theorem appendEvent_log {st st' : Store} {now : Int} {runId : Uuid} {key : Option String}
    {payload : Payload} {n : Option Nat} (h : st.Numbered)
    (run : st.appendEvent now runId key payload = .ok (n, st')) :
    st'.Numbered ∧ (n = none → st' = st ∧ st.getRun runId = none) ∧
      ∀ j, st'.loadEvents j = st.loadEvents j ++
        if j = runId then n.toList.map fun seq => ⟨seq, key, payload, now⟩ else [] := by
  unfold Store.appendEvent at run
  split at run
  · split at run
    · next absent =>
      cases run
      exact ⟨h, fun _ => ⟨rfl, absent⟩, fun j => by simp⟩
    · next r found =>
      obtain ⟨events, inserted⟩ := insert_next h found key payload now
      simp only [inserted] at run
      cases run
      have seq : st.eventSeq runId = r.eventSeq := by
        rw [Store.eventSeq, Store.getRun, found]
        rfl
      have log := eventsOf_insert inserted
        (st.runs.update runId (bumped now) (bumped_runId now)) st.runQueue
      have numbered : Store.Numbered ⟨st.runs.update runId (bumped now) (bumped_runId now), events,
          st.runQueue⟩ := by
        intro j
        rw [log, Store.eventSeq, Store.getRun, eventSeq_bumped found]
        split
        · next same =>
          rw [same, List.map_append, h runId, seq, List.range'_1_concat, Nat.add_comm]
          rfl
        · rw [List.append_nil, h j]
          rfl
      refine ⟨numbered, fun none => absurd none (by simp), fun j => ?_⟩
      rw [loadEvents_eq h]
      exact (loadEvents_eq numbered j).trans (log j)
  · exact absurd run (by simp)

/-- The primary key of `events` never rejects an append: it raises only for data it cannot
store. -/
theorem appendEvent_ok {st : Store} {now : Int} {runId : Uuid} {key : Option String}
    {payload : Payload} {exc : Exn} (h : st.Numbered)
    (run : st.appendEvent now runId key payload = .error exc) :
    exc = dataError ∧ (payload.storable && key.all pgText) = false := by
  unfold Store.appendEvent at run
  split at run
  · split at run
    · exact absurd run (by simp)
    · next r found =>
      obtain ⟨events, inserted⟩ := insert_next h found key payload now
      simp [inserted] at run
  · next bad =>
    cases run
    exact ⟨rfl, by simpa using bad⟩

/-- What has been appended could be held. -/
theorem appendEvent_held {st st' : Store} {now : Int} {runId : Uuid} {key : Option String}
    {payload : Payload} {n : Option Nat}
    (run : st.appendEvent now runId key payload = .ok (n, st')) :
    (payload.storable && key.all pgText) = true := by
  unfold Store.appendEvent at run
  split at run
  · next held => exact held
  · cases run

theorem setStatus_log {st st' : Store} {now : Int} {runId : Uuid} {status : RunStatus}
    {result : Value} {error : Option RunError} (h : st.Numbered)
    (run : st.setStatus now runId status result error = .ok ((), st')) :
    st'.Numbered ∧ ∀ j, st'.loadEvents j = st.loadEvents j := by
  unfold Store.setStatus at run
  split at run
  · cases run
    exact numbered_update h (fun _ => by rfl) _
  · exact absurd run (by simp)

theorem heartbeat_log {st : Store} (h : st.Numbered) (now : Int) (runId : Uuid)
    (worker : String) (lease : Int) : (st.heartbeat now runId worker lease).2.Numbered ∧
      ∀ j, (st.heartbeat now runId worker lease).2.loadEvents j = st.loadEvents j := by
  unfold Store.heartbeat
  split
  · exact numbered_queue h _
  · exact ⟨h, fun _ => rfl⟩

theorem release_log {st : Store} (h : st.Numbered) (now : Int) (runId : Uuid)
    (worker : String) (delay : Int) : (st.release now runId worker delay).Numbered ∧
      ∀ j, (st.release now runId worker delay).loadEvents j = st.loadEvents j := by
  unfold Store.release
  split
  · exact numbered_queue h _
  · exact ⟨h, fun _ => rfl⟩

theorem claim_log {st : Store} (h : st.Numbered) (now : Int) (worker : String) (lease : Int)
    (locked : List Uuid) : (st.claim now worker lease locked).2.Numbered ∧
      ∀ j, (st.claim now worker lease locked).2.loadEvents j = st.loadEvents j := by
  unfold Store.claim
  split
  · exact ⟨h, fun _ => rfl⟩
  · exact numbered_queue h _

/-- What a cancel request does: it finds no run that goes on and leaves the store alone, or it
sets the flag and appends its event. -/
theorem requestCancel_done {st st' : Store} {now : Int} {runId : Uuid} {granted : Bool}
    (run : st.requestCancel now runId = .ok (granted, st')) :
    (granted = false ∧ st' = st ∧
      ∀ row, st.getRun runId = some row → row.status.terminal = true) ∨
    (granted = true ∧ (∃ row, st.getRun runId = some row ∧ row.status.terminal = false) ∧
      ∃ seq, (st.flag now runId).appendEvent now runId none .cancelRequested =
        .ok (seq, st')) := by
  unfold Store.requestCancel at run
  split at run
  · next absent =>
    cases run
    exact .inl ⟨rfl, rfl, fun row found => by cases absent.symm.trans found⟩
  · next row found =>
    split at run
    · next terminal =>
      cases run
      refine .inl ⟨rfl, rfl, fun row' found' => ?_⟩
      cases found.symm.trans found'
      exact terminal
    · next going =>
      cases appended : (st.flag now runId).appendEvent now runId none .cancelRequested with
      | error e => simp [appended, bind, Except.bind] at run
      | ok a =>
        simp only [appended, bind, Except.bind, pure, Except.pure, Except.ok.injEq,
          Prod.mk.injEq] at run
        obtain ⟨rfl, rfl⟩ := run
        exact .inr ⟨rfl, ⟨row, found, by simpa using going⟩, a.1, rfl⟩

/-- A cancel request adds one event, under no step key, or nothing. -/
theorem requestCancel_log {st st' : Store} {now : Int} {runId : Uuid} {granted : Bool}
    (h : st.Numbered) (run : st.requestCancel now runId = .ok (granted, st')) :
    st'.Numbered ∧ ∀ j, ∃ es, st'.loadEvents j = st.loadEvents j ++ es ∧
      ∀ e ∈ es, e.stepKey = none := by
  have flagged : (st.flag now runId).Numbered ∧
      ∀ j, (st.flag now runId).loadEvents j = st.loadEvents j :=
    numbered_update h (fun _ => by rfl) _
  rcases requestCancel_done run with ⟨-, rfl, -⟩ | ⟨-, -, seq, appended⟩
  · exact ⟨h, fun j => ⟨[], (List.append_nil _).symm, by simp⟩⟩
  · obtain ⟨numbered, -, log⟩ := appendEvent_log flagged.1 appended
    refine ⟨numbered, fun j => ⟨_, (log j).trans (by rw [flagged.2]), fun e mem => ?_⟩⟩
    split at mem
    · obtain ⟨_, _, rfl⟩ := List.mem_map.mp mem
      rfl
    · exact absurd mem (by simp)

theorem insertRun_log {st : Store} {run : RunRecord} {runs : Table RunRecord.runId}
    (h : st.Numbered) (seq : run.eventSeq = 0) (inserted : st.runs.insert run = some runs)
    (queue : Table QueueRow.runId) :
    Store.Numbered ⟨runs, st.events, queue⟩ ∧
      ∀ j, Store.loadEvents ⟨runs, st.events, queue⟩ j = st.loadEvents j := by
  refine numbered_of_same h rfl fun j => ?_
  have absent := (Table.rows_insert inserted).1
  rw [Store.eventSeq, Store.getRun, Table.find_insert inserted, Store.eventSeq, Store.getRun]
  split
  · next e => simp [e, absent, seq]
  · rfl

theorem find_newRun {t t' : Table RunRecord.runId} {now : Int} {runId : Uuid} {workflow : String}
    {payload : Value} {idempotencyKey : String} {budget : Budget}
    (h : t.insert (Store.newRun now runId workflow payload idempotencyKey budget) = some t')
    (j : Uuid) : t'.find j =
      if j = runId then some (Store.newRun now runId workflow payload idempotencyKey budget)
      else t.find j :=
  Table.find_insert h j

/-- What a submission that returns has done. -/
inductive Submitted (st : Store) (now : Int) (runId : Uuid) (workflow : String) (payload : Value)
    (idempotencyKey : String) (budget : Budget) : RunRecord × Bool → Store → Prop
  | existing {run : RunRecord} :
      (st.runs.rows.find? fun r => r.idempotencyKey = idempotencyKey) = some run →
      Submitted st now runId workflow payload idempotencyKey budget (run, false) st
  | created {runs : Table RunRecord.runId} {queue : Table QueueRow.runId} {seq : Option Nat}
      {st' : Store} :
      (st.runs.rows.find? fun r => r.idempotencyKey = idempotencyKey) = none →
      st.runs.insert (Store.newRun now runId workflow payload idempotencyKey budget) = some runs →
      st.runQueue.insert ⟨runId, now, none, none, 0⟩ = some queue →
      Store.appendEvent { st with runs, runQueue := queue } now runId none
        (.runStarted workflow payload budget) = .ok (seq, st') →
      Submitted st now runId workflow payload idempotencyKey budget
        ((st'.runs.find runId).getD
          (Store.newRun now runId workflow payload idempotencyKey budget), true) st'

theorem submitRun_cases {st st' : Store} {now : Int} {runId : Uuid} {workflow : String}
    {payload : Value} {idempotencyKey : String} {budget : Budget} {answer : RunRecord × Bool}
    (run : st.submitRun now runId workflow payload idempotencyKey budget = .ok (answer, st')) :
    Submitted st now runId workflow payload idempotencyKey budget answer st' := by
  unfold Store.submitRun at run
  split at run
  · split at run
    · next found =>
      cases run
      exact .existing found
    · next free =>
      simp only at run
      split at run
      · cases run
      · next st₁ inserted =>
        simp only [Store.insertRun, Option.bind_eq_bind, Option.bind_eq_some_iff] at inserted
        obtain ⟨runs, hruns, queue, hqueue, same⟩ := inserted
        cases same
        cases appended : Store.appendEvent { st with runs, runQueue := queue } now runId none
            (.runStarted workflow payload budget) with
        | error e => simp [appended, bind, Except.bind] at run
        | ok a =>
          obtain ⟨seq, st₂⟩ := a
          simp only [appended, bind, Except.bind, pure, Except.pure, Except.ok.injEq,
            Prod.mk.injEq] at run
          obtain ⟨rfl, rfl⟩ := run
          exact .created free hruns hqueue appended
  · cases run

/-- What a submission does: it starts the log of a run that had none, or nothing. -/
theorem submitRun_log {st st' : Store} {now : Int} {runId : Uuid} {workflow : String}
    {payload : Value} {idempotencyKey : String} {budget : Budget} {answer : RunRecord × Bool}
    (h : st.Numbered)
    (run : st.submitRun now runId workflow payload idempotencyKey budget = .ok (answer, st')) :
    st'.Numbered ∧ ∀ j, ∃ es, st'.loadEvents j = st.loadEvents j ++ es ∧
      ∀ e ∈ es, e.stepKey = none := by
  cases submitRun_cases run with
  | existing => exact ⟨h, fun j => ⟨[], (List.append_nil _).symm, by simp⟩⟩
  | created _ inserted _ appended =>
    have rows := insertRun_log h rfl inserted
    obtain ⟨numbered, -, log⟩ := appendEvent_log (rows _).1 appended
    refine ⟨numbered, fun j => ⟨_, (log j).trans (by rw [(rows _).2]), fun e mem => ?_⟩⟩
    split at mem
    · obtain ⟨_, _, rfl⟩ := List.mem_map.mp mem
      rfl
    · exact absurd mem (by simp)

/-! ## What each statement does to the rows -/

/-- The assignments of `set_status` to status, result and error. -/
def restand (status : RunStatus) (result : Value) (error : Option RunError)
    (old : RunStatus × Value × Option RunError) : RunStatus × Value × Option RunError :=
  (status, if result.isNone then old.2.1 else result, error.orElse fun _ => old.2.2)

namespace StoreLemmas

theorem standing_update {st : Store} {runId : Uuid} {f : RunRecord → RunRecord}
    {same : ∀ r, (f r).runId = r.runId} (status : ∀ r, (f r).status = r.status)
    (result : ∀ r, (f r).result = r.result) (error : ∀ r, (f r).error = r.error)
    (events : Table EventRow.key) (queue : Table QueueRow.runId) (j : Uuid) :
    Store.standing ⟨st.runs.update runId f same, events, queue⟩ j = st.standing j :=
  Table.map_find_update st.runs runId f same _ (fun r => by rw [status, result, error]) j

end StoreLemmas

theorem appendEvent_standing {st st' : Store} {now : Int} {runId : Uuid} {key : Option String}
    {payload : Payload} {n : Option Nat}
    (run : st.appendEvent now runId key payload = .ok (n, st')) (j : Uuid) :
    st'.standing j = st.standing j ∧ st'.runQueue = st.runQueue := by
  unfold Store.appendEvent at run
  split at run
  · split at run
    · cases run
      exact ⟨rfl, rfl⟩
    · simp only at run
      split at run
      · cases run
      · cases run
        exact ⟨standing_update (fun _ => by rfl) (fun _ => by rfl) (fun _ => by rfl) _ _ j, rfl⟩
  · cases run

theorem setStatus_standing {st st' : Store} {now : Int} {runId : Uuid} {status : RunStatus}
    {result : Value} {error : Option RunError}
    (run : st.setStatus now runId status result error = .ok ((), st')) (j : Uuid) :
    st'.standing j = (if j = runId then (st.standing j).map (restand status result error)
      else st.standing j) ∧ st'.runQueue = st.runQueue := by
  unfold Store.setStatus at run
  split at run
  · cases run
    refine ⟨?_, rfl⟩
    simp only [Store.standing, Store.getRun, Table.find_update]
    split
    · rw [Option.map_map, Option.map_map]
      rfl
    · rfl
  · cases run

/-- A cancel request leaves the fate of every run and the queue alone. -/
theorem requestCancel_standing {st st' : Store} {now : Int} {runId : Uuid} {granted : Bool}
    (run : st.requestCancel now runId = .ok (granted, st')) (j : Uuid) :
    st'.standing j = st.standing j ∧ st'.runQueue = st.runQueue := by
  rcases requestCancel_done run with ⟨-, rfl, -⟩ | ⟨-, -, seq, appended⟩
  · exact ⟨rfl, rfl⟩
  · obtain ⟨standing, queue⟩ := appendEvent_standing appended j
    refine ⟨standing.trans ?_, queue⟩
    exact standing_update (fun _ => by rfl) (fun _ => by rfl) (fun _ => by rfl) _ _ j

/-- A submission leaves the fate of every other run and its queue row alone; a new run is
pending and queued. -/
theorem submitRun_standing {st st' : Store} {now : Int} {runId : Uuid} {workflow : String}
    {payload : Value} {idempotencyKey : String} {budget : Budget} {answer : RunRecord × Bool}
    (run : st.submitRun now runId workflow payload idempotencyKey budget = .ok (answer, st'))
    (j : Uuid) :
    (st'.standing j = st.standing j ∧ st'.runQueue.find j = st.runQueue.find j) ∨
      (st.standing j = none ∧ st'.standing j = some (.pending, .none, none) ∧
        (st'.runQueue.find j).isSome = true) := by
  cases submitRun_cases run with
  | existing => exact .inl ⟨rfl, rfl⟩
  | created _ hruns hrows appended =>
    obtain ⟨standing, queue⟩ := appendEvent_standing appended j
    rw [queue, standing]
    simp only [Store.standing, Store.getRun, find_newRun hruns, Table.find_insert hrows]
    by_cases e : j = runId
    · have absent := (Table.rows_insert hruns).1
      refine .inr ⟨?_, ?_, ?_⟩
      · rw [e]
        exact congrArg _ absent
      · rw [if_pos e]
        rfl
      · rw [if_pos e]
        rfl
    · refine .inl ⟨?_, ?_⟩
      · rw [if_neg e]
      · exact if_neg e

theorem claim_standing (st : Store) (now : Int) (worker : String) (lease : Int)
    (locked : List Uuid) (j : Uuid) :
    (st.claim now worker lease locked).2.standing j = st.standing j ∧
      ((st.claim now worker lease locked).2.runQueue.find j).isSome =
        (st.runQueue.find j).isSome := by
  unfold Store.claim
  split
  · exact ⟨rfl, rfl⟩
  · refine ⟨rfl, ?_⟩
    simp only [Table.find_update]
    split <;> simp

theorem heartbeat_standing (st : Store) (now : Int) (runId : Uuid) (worker : String)
    (lease : Int) (j : Uuid) :
    (st.heartbeat now runId worker lease).2.standing j = st.standing j ∧
      ((st.heartbeat now runId worker lease).2.runQueue.find j).isSome =
        (st.runQueue.find j).isSome := by
  unfold Store.heartbeat
  split
  · refine ⟨rfl, ?_⟩
    simp only [Table.find_update]
    split <;> simp
  · exact ⟨rfl, rfl⟩

theorem release_standing (st : Store) (now : Int) (runId : Uuid) (worker : String)
    (delay : Int) (j : Uuid) :
    (st.release now runId worker delay).standing j = st.standing j ∧
      ((st.release now runId worker delay).runQueue.find j).isSome =
        (st.runQueue.find j).isSome := by
  unfold Store.release
  split
  · refine ⟨rfl, ?_⟩
    simp only [Table.find_update]
    split <;> simp
  · exact ⟨rfl, rfl⟩

end AnchorRuntime
