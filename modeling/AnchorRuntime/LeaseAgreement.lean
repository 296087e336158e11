import AnchorRuntime.Queue
import AnchorRuntime.DynamoLease

/-!
# The leases of the two stores

The same calls, one at a time, on a queue with one run in Postgres and on its SQS message with the
LEASE items. In Postgres the row says who owns the lease and when the run is visible; over SQS the
worker's LEASE item is the right to change the message for as long as the message is hidden,
whatever it is hidden for.

Results: `leases_agree`, where a worker that has given the run back leaves it alone, gives it back
while its lease runs, and the run is dequeued while it is hidden, the two give the same answers;
`claimNow_runs`, `heartbeatNow_runs` and `dequeueNow_runs`, the calls are the coroutines run alone;
`release_lapsed`, a release after the lease has lapsed delays the run in Postgres only.
-/

namespace AnchorRuntime

open Relational Machine

/-! ## The calls over SQS, one at a time -/

/-- `max(0, int(delay_seconds))`, in microseconds -/
def visibilityDelay (delaySeconds : Rat) : Int :=
  max 0 (delaySeconds.num.tdiv delaySeconds.den) * 1000000

namespace Deliveries

/-- `claim` -/
def claimNow (d : Deliveries) (workerId : String) (leaseSeconds : Rat) : Option Nat × Deliveries :=
  if d.deleted || d.now < d.visibleAt then (none, d)
  else
    let receipt := d.latest + 1
    let stale := d.leases.map (·.workerId)
    (some (d.attemptCount + 1), { d with
      latest := receipt
      visibleAt := d.now + visibilityTimeout leaseSeconds
      leases := putLease ⟨workerId, receipt⟩ (stale.foldl (fun l w => deleteLease w l) d.leases)
      attemptCount := d.attemptCount + 1 })

/-- `heartbeat` -/
def heartbeatNow (d : Deliveries) (workerId : String) (leaseSeconds : Rat) : Bool × Deliveries :=
  match d.leaseOf workerId with
  | none => (false, d)
  | some receipt =>
    if d.live receipt then
      (true, { d with visibleAt := d.now + visibilityTimeout leaseSeconds })
    else (false, d)

/-- `release`; that the visibility is not changed goes unnoticed. -/
def releaseNow (d : Deliveries) (workerId : String) (delaySeconds : Rat) : Deliveries :=
  match d.leaseOf workerId with
  | none => d
  | some receipt =>
    if d.live receipt then { d with visibleAt := d.now + visibilityDelay delaySeconds } else d

/-- `dequeue` -/
def dequeueNow (d : Deliveries) : Deliveries :=
  match d.leases.head? with
  | none => d
  | some item =>
    { d with
      deleted := d.deleted || d.live item.receipt
      leases := deleteLease item.workerId d.leases }

end Deliveries

/-- A coroutine makes its calls with no other in between. -/
abbrev Alone (d : Deliveries) (call : LeaseCall) (d' : Deliveries) (call' : LeaseCall) : Prop :=
  Relation.ReflTransGen (fun s t : Deliveries × LeaseCall => s.2.step s.1 = some t)
    (d, call) (d', call')

/-! ## Both stores -/

/-- A call; lease lengths and delays are whole seconds. -/
inductive LeaseOp
  | claim (workerId : String) (leaseSeconds : Nat)
  | heartbeat (workerId : String) (leaseSeconds : Nat)
  | release (workerId : String) (delaySeconds : Nat)
  | dequeue

deriving instance DecidableEq for Claim

inductive LeaseAnswer
  | claimed (claim : Option Claim)
  | extended (ok : Bool)
  | done
  deriving DecidableEq

/-- A call at a time. -/
structure TimedOp where
  time : Int
  op : LeaseOp

/-- The store of Postgres and the message, at the time of the last call. -/
structure Backends where
  now : Int
  store : Store
  message : Deliveries

/-- The microseconds of whole seconds. -/
def seconds (n : Nat) : Int := n * 1000000

/-- A call to `PostgresStore`. -/
def LeaseOp.postgres (runId : Uuid) (now : Int) (st : Store) : LeaseOp → LeaseAnswer × Store
  | .claim w s => ((st.claim now w (seconds s) []).map .claimed id)
  | .heartbeat w s => ((st.heartbeat now runId w (seconds s)).map .extended id)
  | .release w s => (.done, st.release now runId w (seconds s))
  | .dequeue => (.done, st.dequeue runId)

/-- A call to `DynamoDBStore`. -/
def LeaseOp.dynamo (runId : Uuid) (d : Deliveries) : LeaseOp → LeaseAnswer × Deliveries
  | .claim w s => (d.claimNow w s).map (fun n => .claimed (n.map fun n => ⟨runId, n⟩)) id
  | .heartbeat w s => (d.heartbeatNow w s).map .extended id
  | .release w s => (.done, d.releaseNow w s)
  | .dequeue => (.done, d.dequeueNow)

/-- Leases are of at least one second. -/
def LeaseOp.sound : LeaseOp → Bool
  | .claim _ s | .heartbeat _ s => 1 ≤ s
  | .release _ _ | .dequeue => true

namespace Backends

/-- The message at the time of a call. -/
def at_ (b : Backends) (now : Int) : Deliveries := { b.message with now }

/-- The call comes after the last one, and not exactly when something expires. -/
def timely (b : Backends) (a : TimedOp) : Bool :=
  b.now < a.time && a.op.sound && b.message.visibleAt ≠ a.time &&
    b.store.runQueue.rows.all fun row => row.visibleAt ≠ a.time && row.lockedUntil ≠ some a.time

def next (runId : Uuid) (b : Backends) (a : TimedOp) : Backends :=
  ⟨a.time, (a.op.postgres runId a.time b.store).2, (a.op.dynamo runId (b.at_ a.time)).2⟩

def step (runId : Uuid) (b : Backends) (a : TimedOp) : Option Backends :=
  if b.timely a then some (b.next runId a) else none

/-- The two answers to a call are the same. -/
def agree (runId : Uuid) (b : Backends) (a : TimedOp) : Prop :=
  (a.op.postgres runId a.time b.store).1 = (a.op.dynamo runId (b.at_ a.time)).1

instance (runId : Uuid) (b : Backends) (a : TimedOp) : Decidable (b.agree runId a) :=
  inferInstanceAs (Decidable (_ = _))

/-- The run has just been submitted. -/
def init (st : Store) (now : Int) : Backends := ⟨now, st, ⟨now, 0, now, false, [], 0⟩⟩

end Backends

/-- Whoever may change the message owns the row; a release of the owner finds its lease running, or
has no delay; the run is dequeued while its message is hidden for somebody. -/
def LeaseOp.careful (d : Deliveries) (row : QueueRow) : LeaseOp → Prop
  | .claim _ _ => True
  | .heartbeat w _ => d.holder w = true → row.workerId = some w
  | .release w s =>
    (d.holder w = true → row.workerId = some w) ∧
      (row.workerId = some w → d.holder w = true ∨ s = 0)
  | .dequeue => d.leases.head?.any (fun x => d.live x.receipt) = true

instance (d : Deliveries) (row : QueueRow) : (op : LeaseOp) → Decidable (op.careful d row)
  | .claim _ _ => .isTrue trivial
  | .heartbeat w _ => inferInstanceAs (Decidable (d.holder w = true → row.workerId = some w))
  | .release w s => inferInstanceAs (Decidable ((d.holder w = true → row.workerId = some w) ∧
      (row.workerId = some w → d.holder w = true ∨ s = 0)))
  | .dequeue => inferInstanceAs (Decidable (d.leases.head?.any (fun x => d.live x.receipt) = true))

/-- A call on the queued run is made with care. -/
def Backends.careful (runId : Uuid) (b : Backends) (a : TimedOp) : Prop :=
  ∀ row ∈ b.store.runQueue.find runId, a.op.careful (b.at_ a.time) row

instance (runId : Uuid) (b : Backends) (a : TimedOp) : Decidable (b.careful runId a) :=
  inferInstanceAs (Decidable (∀ row ∈ b.store.runQueue.find runId,
    a.op.careful (b.at_ a.time) row))

/-! ## The two stores side by side -/

/-- What the row and the message have in common. -/
inductive Backends.Agreed (runId : Uuid) (b : Backends) : Prop
  -- dequeued
  | gone : b.store.runQueue.rows = [] → b.message.deleted = true → b.message.leases = [] →
      Agreed runId b
  -- given back or never claimed; the last owner may have its LEASE item still
  | free (row : QueueRow) : b.store.runQueue.rows = [row] → row.runId = runId →
      row.lockedUntil = none → row.workerId = none → row.attempts = b.message.attemptCount →
      b.message.deleted = false →
      (∀ x ∈ b.message.leases, b.message.leases = [x] ∧ x.receipt = b.message.latest) →
      (row.visibleAt = b.message.visibleAt ∨
        row.visibleAt ≤ b.now ∧ b.message.visibleAt ≤ b.now) → Agreed runId b
  -- claimed, and perhaps expired since
  | leased (row : QueueRow) (worker : String) : b.store.runQueue.rows = [row] →
      row.runId = runId → row.lockedUntil = some b.message.visibleAt →
      row.workerId = some worker → row.attempts = b.message.attemptCount →
      b.message.deleted = false → b.message.leases = [⟨worker, b.message.latest⟩] →
      row.visibleAt ≤ b.now → Agreed runId b

namespace LeaseAgreementLemmas

variable {runId : Uuid} {b : Backends} {row : QueueRow} {time : Int} {st : Store}

theorem visibilityTimeout_seconds {n : Nat} (h : 1 ≤ n) :
    visibilityTimeout n = seconds n := by
  unfold visibilityTimeout seconds
  rw [Rat.num_natCast, Rat.den_natCast, Nat.cast_one, Int.tdiv_one]
  omega

theorem visibilityDelay_seconds (n : Nat) : visibilityDelay n = seconds n := by
  unfold visibilityDelay seconds
  rw [Rat.num_natCast, Rat.den_natCast, Nat.cast_one, Int.tdiv_one]
  omega

/-! A queue with one row. -/

theorem find_row (rows : st.runQueue.rows = [row]) (same : row.runId = runId) :
    st.runQueue.find runId = some row := by
  unfold Table.find
  rw [rows, List.find?_singleton, decide_eq_true same]
  rfl

theorem update_row (rows : st.runQueue.rows = [row]) (same : row.runId = runId)
    (f : QueueRow → QueueRow) (keeps : ∀ r, (f r).runId = r.runId) :
    (st.runQueue.update runId f keeps).rows = [f row] := by
  show st.runQueue.rows.map (fun r => if r.runId = runId then f r else r) = [f row]
  rw [rows, List.map_singleton, if_pos same]

theorem claim_taken (rows : st.runQueue.rows = [row]) (free : Store.claimable time row = true)
    (worker : String) (lease : Int) :
    ∃ st', st.claim time worker lease [] = (some ⟨row.runId, row.attempts + 1⟩, st') ∧
      st'.runQueue.rows = [{ row with
        lockedUntil := some (time + lease), workerId := some worker,
        attempts := row.attempts + 1 }] := by
  unfold Store.claim
  rw [rows]
  simp only [List.filter_cons, free, List.contains_nil, Bool.not_false, Bool.and_self, if_true,
    List.filter_nil, List.insertionSort_cons, List.insertionSort_nil, List.orderedInsert_nil,
    List.head?_cons]
  exact ⟨_, rfl, update_row rows rfl _ (by intro _; rfl)⟩

theorem claim_refused (h : ∀ row ∈ st.runQueue.rows, Store.claimable time row = false)
    (worker : String) (lease : Int) : st.claim time worker lease [] = (none, st) := by
  have none_ : st.runQueue.rows.filter
      (fun q => Store.claimable time q && !([] : List Uuid).contains q.runId) = [] := by
    rw [List.filter_eq_nil_iff]
    intro row mem
    rw [h row mem, Bool.false_and]
    exact Bool.false_ne_true
  unfold Store.claim
  rw [none_]
  rfl

/-! The calls on the message. -/

theorem mem_delete {workers : List String} {x : LeaseItem} {l : List LeaseItem} :
    x ∈ workers.foldl (fun l w => deleteLease w l) l ↔ x ∈ l ∧ x.workerId ∉ workers := by
  induction workers generalizing l with
  | nil => simp
  | cons w workers ih =>
    rw [List.foldl_cons, ih, deleteLease, List.mem_filter, List.mem_cons, not_or,
      decide_eq_true_eq, and_assoc]

/-- A claim deletes every LEASE item before it puts its own. -/
theorem clear_leases (l : List LeaseItem) :
    (l.map (·.workerId)).foldl (fun l w => deleteLease w l) l = [] := by
  rw [List.eq_nil_iff_forall_not_mem]
  intro x mem
  obtain ⟨mem, unlisted⟩ := mem_delete.mp mem
  exact unlisted (List.mem_map_of_mem mem)

theorem claimNow_taken {d : Deliveries} (there : d.deleted = false) (due : d.visibleAt ≤ d.now)
    (w : String) (s : Rat) :
    d.claimNow w s = (some (d.attemptCount + 1), { d with
      latest := d.latest + 1
      visibleAt := d.now + visibilityTimeout s
      leases := [⟨w, d.latest + 1⟩]
      attemptCount := d.attemptCount + 1 }) := by
  have shown : ¬ (d.deleted || decide (d.now < d.visibleAt)) = true := by
    rw [there, Bool.false_or, decide_eq_true_eq]
    omega
  unfold Deliveries.claimNow
  rw [if_neg shown]
  simp only [clear_leases, putLease]

theorem claimNow_refused {d : Deliveries} (h : d.deleted = true ∨ d.now < d.visibleAt)
    (w : String) (s : Rat) : d.claimNow w s = (none, d) := by
  unfold Deliveries.claimNow
  rw [if_pos (by simpa using h)]

theorem leaseOf_single {d : Deliveries} {x : LeaseItem} (h : d.leases = [x]) (w : String) :
    d.leaseOf w = if x.workerId = w then some x.receipt else none := by
  unfold Deliveries.leaseOf
  rw [h, List.find?_singleton]
  by_cases same : x.workerId = w <;> simp [same]

theorem leaseOf_nil {d : Deliveries} (h : d.leases = []) (w : String) : d.leaseOf w = none := by
  unfold Deliveries.leaseOf
  rw [h]
  rfl

/-- A heartbeat is the holder's or changes nothing. -/
theorem heartbeatNow_eq (d : Deliveries) (w : String) (s : Rat) :
    d.heartbeatNow w s = if d.holder w then
      (true, { d with visibleAt := d.now + visibilityTimeout s }) else (false, d) := by
  unfold Deliveries.heartbeatNow Deliveries.holder
  cases d.leaseOf w with
  | none => rfl
  | some receipt => rfl

theorem releaseNow_eq (d : Deliveries) (w : String) (s : Rat) :
    d.releaseNow w s = if d.holder w then
      { d with visibleAt := d.now + visibilityDelay s } else d := by
  unfold Deliveries.releaseNow Deliveries.holder
  cases d.leaseOf w with
  | none => rfl
  | some receipt => rfl

theorem dequeueNow_nil {d : Deliveries} (h : d.leases = []) : d.dequeueNow = d := by
  unfold Deliveries.dequeueNow
  rw [h]
  rfl

theorem dequeueNow_single {d : Deliveries} {x : LeaseItem} (h : d.leases = [x]) :
    d.dequeueNow = { d with deleted := d.deleted || d.live x.receipt, leases := [] } := by
  unfold Deliveries.dequeueNow
  rw [h]
  simp [deleteLease]

/-! The calls on both. -/

theorem agreed_later (inv : b.Agreed runId) (later : b.now < time) :
    Backends.Agreed runId ⟨time, b.store, b.at_ time⟩ := by
  cases inv with
  | gone rows deleted none_ => exact .gone rows deleted none_
  | free row rows same unlocked unowned attempts there leases shown =>
    refine .free row rows same unlocked unowned attempts there leases ?_
    rcases shown with same | ⟨row_shown, message_shown⟩
    · exact .inl same
    · exact .inr ⟨row_shown.trans later.le, message_shown.trans later.le⟩
  | leased row worker rows same locked owned attempts there leases shown =>
    exact .leased row worker rows same locked owned attempts there leases (shown.trans later.le)

/-- Either both hold nothing, or the row can be claimed when the message can be received. -/
theorem agreed_cases (inv : b.Agreed runId) (later : b.now < time)
    (off : b.message.visibleAt ≠ time) :
    (b.store.runQueue.rows = [] ∧ b.message.deleted = true) ∨
    ∃ row, b.store.runQueue.rows = [row] ∧ row.runId = runId ∧
      row.attempts = b.message.attemptCount ∧ b.message.deleted = false ∧
      (Store.claimable time row = true ↔ b.message.visibleAt ≤ time) ∧
      (Store.claimable time row = true → row.visibleAt ≤ time) := by
  cases inv with
  | gone rows deleted _ => exact .inl ⟨rows, deleted⟩
  | free row rows same unlocked _ attempts there _ shown =>
    refine .inr ⟨row, rows, same, attempts, there, ?_, fun h => ?_⟩
    · unfold Store.claimable
      rw [unlocked, Option.all_none, Bool.and_true, decide_eq_true_eq]
      omega
    · unfold Store.claimable at h
      rw [Bool.and_eq_true, decide_eq_true_eq] at h
      exact h.1
  | leased row worker rows same locked _ attempts there _ shown =>
    refine .inr ⟨row, rows, same, attempts, there, ?_, fun _ => by omega⟩
    unfold Store.claimable
    rw [locked, Option.all_some, Bool.and_eq_true, decide_eq_true_eq, decide_eq_true_eq]
    omega

theorem claim_agrees {w : String} {s : Nat} (inv : b.Agreed runId) (later : b.now < time)
    (sound : 1 ≤ s) (off : b.message.visibleAt ≠ time) :
    b.agree runId ⟨time, .claim w s⟩ ∧ (b.next runId ⟨time, .claim w s⟩).Agreed runId := by
  unfold Backends.agree Backends.next
  simp only [LeaseOp.postgres, LeaseOp.dynamo]
  rcases agreed_cases inv later off with ⟨rows, deleted⟩ |
    ⟨row, rows, same, attempts, there, claimable_iff, shown⟩
  · rw [claim_refused (by rw [rows]; intro row mem; cases mem) w,
      claimNow_refused (d := b.at_ time) (.inl deleted)]
    refine ⟨rfl, ?_⟩
    cases inv with
    | gone _ _ none_ => exact .gone rows deleted none_
    | free row rows' => rw [rows] at rows'; cases rows'
    | leased row _ rows' => rw [rows] at rows'; cases rows'
  · by_cases due : b.message.visibleAt ≤ time
    · have free := claimable_iff.mpr due
      obtain ⟨st', claimed, rows'⟩ := claim_taken rows free w (seconds s)
      rw [claimed, claimNow_taken (d := b.at_ time) there due]
      refine ⟨?_, ?_⟩
      · show LeaseAnswer.claimed (some ⟨row.runId, row.attempts + 1⟩) =
          .claimed (some ⟨runId, b.message.attemptCount + 1⟩)
        rw [same, attempts]
      · refine .leased _ w rows' same ?_ rfl ?_ there rfl (shown free)
        · show some (time + seconds s) = some (time + visibilityTimeout s)
          rw [visibilityTimeout_seconds sound]
        · exact congrArg (· + 1) attempts
    · have taken : Store.claimable time row = false := by
        rw [← Bool.not_eq_true, claimable_iff]
        exact due
      rw [claim_refused (by rw [rows]; intro r mem; rw [List.mem_singleton.mp mem]; exact taken),
        claimNow_refused (d := b.at_ time) (.inr (Int.not_le.mp due))]
      exact ⟨rfl, agreed_later inv later⟩

/-- In Postgres the owner holds the row while the lease runs. -/
theorem holds_iff {w : String} (rows : b.store.runQueue.rows = [row]) (same : row.runId = runId) :
    (b.store.runQueue.find runId).any (Store.holds time w) = true ↔
      row.workerId = some w ∧ row.lockedUntil.any (time < ·) = true := by
  rw [find_row rows same, Option.any_some, Store.holds, Bool.and_eq_true, decide_eq_true_eq]

/-- Over SQS the owner of the one LEASE item holds the message while it is hidden. -/
theorem holder_iff {d : Deliveries} {x : LeaseItem} (there : d.deleted = false)
    (leases : d.leases = [x]) (latest : x.receipt = d.latest) (w : String) :
    d.holder w = true ↔ x.workerId = w ∧ d.now < d.visibleAt := by
  unfold Deliveries.holder
  rw [leaseOf_single leases]
  by_cases same : x.workerId = w
  · simp [same, Deliveries.live, Deliveries.holds, there, latest]
  · simp [same]

theorem holder_nil {d : Deliveries} (leases : d.leases = []) (w : String) :
    d.holder w = false := by
  unfold Deliveries.holder
  rw [leaseOf_nil leases]
  rfl

/-- A heartbeat that neither store grants. -/
theorem heartbeat_refused {w : String} {s : Nat} (inv : b.Agreed runId) (later : b.now < time)
    (row_refuses : ¬ (b.store.runQueue.find runId).any (Store.holds time w) = true)
    (message_refuses : ¬ (b.at_ time).holder w = true) :
    b.agree runId ⟨time, .heartbeat w s⟩ ∧ (b.next runId ⟨time, .heartbeat w s⟩).Agreed runId := by
  unfold Backends.agree Backends.next
  simp only [LeaseOp.postgres, LeaseOp.dynamo]
  rw [heartbeatNow_eq, if_neg message_refuses, Store.heartbeat, if_neg row_refuses]
  exact ⟨rfl, agreed_later inv later⟩

theorem heartbeat_agrees {w : String} {s : Nat} (inv : b.Agreed runId) (later : b.now < time)
    (sound : 1 ≤ s) (careful : b.careful runId ⟨time, .heartbeat w s⟩) :
    b.agree runId ⟨time, .heartbeat w s⟩ ∧ (b.next runId ⟨time, .heartbeat w s⟩).Agreed runId := by
  cases inv with
  | gone rows deleted leases =>
    refine heartbeat_refused (.gone rows deleted leases) later ?_ ?_
    · rw [Table.find, rows]
      exact Bool.false_ne_true
    · rw [holder_nil (d := b.at_ time) leases]
      exact Bool.false_ne_true
  | free row rows same unlocked unowned attempts there leases shown =>
    have unheld : ¬ (b.at_ time).holder w = true := by
      intro holds
      have owned : row.workerId = some w := careful row (find_row rows same) holds
      rw [unowned] at owned
      cases owned
    refine heartbeat_refused (.free row rows same unlocked unowned attempts there leases shown)
      later ?_ unheld
    rw [holds_iff rows same, unowned]
    intro h
    cases h.1
  | leased row worker rows same locked owned attempts there leases shown =>
    have message_iff := holder_iff (d := b.at_ time) there leases rfl w
    have row_iff : (b.store.runQueue.find runId).any (Store.holds time w) = true ↔
        worker = w ∧ time < b.message.visibleAt := by
      rw [holds_iff rows same, owned, locked, Option.some.injEq, Option.any_some,
        decide_eq_true_eq]
    by_cases held : worker = w ∧ time < b.message.visibleAt
    · unfold Backends.agree Backends.next
      simp only [LeaseOp.postgres, LeaseOp.dynamo]
      rw [heartbeatNow_eq, if_pos (message_iff.mpr held), Store.heartbeat,
        if_pos (row_iff.mpr held)]
      refine ⟨rfl, .leased _ worker (update_row rows same _ (by intro _; rfl)) same ?_ owned
        attempts there leases (shown.trans later.le)⟩
      show some (time + seconds s) = some (time + visibilityTimeout s)
      rw [visibilityTimeout_seconds sound]
    · exact heartbeat_refused
        (.leased row worker rows same locked owned attempts there leases shown) later
        (fun h => held (row_iff.mp h)) fun h => held (message_iff.mp h)

/-- A release that changes nothing in either store. -/
theorem release_refused {w : String} {s : Nat} (inv : b.Agreed runId) (later : b.now < time)
    (row_refuses : ∀ row ∈ b.store.runQueue.find runId, row.workerId ≠ some w)
    (message_refuses : ¬ (b.at_ time).holder w = true) :
    (b.next runId ⟨time, .release w s⟩).Agreed runId := by
  have unowned : ¬ (b.store.runQueue.find runId).any (fun q => q.workerId = some w) = true := by
    intro h
    obtain ⟨row, found, owned⟩ := (Option.any_eq_true _ _).mp h
    exact row_refuses row found (of_decide_eq_true owned)
  unfold Backends.next
  simp only [LeaseOp.postgres, LeaseOp.dynamo]
  rw [releaseNow_eq, if_neg message_refuses, Store.release, if_neg unowned]
  exact agreed_later inv later

theorem release_agrees {w : String} {s : Nat} (inv : b.Agreed runId) (later : b.now < time)
    (careful : b.careful runId ⟨time, .release w s⟩) :
    (b.next runId ⟨time, .release w s⟩).Agreed runId := by
  cases inv with
  | gone rows deleted leases =>
    refine release_refused (.gone rows deleted leases) later ?_ ?_
    · intro row found
      rw [Table.find, rows] at found
      cases found
    · rw [holder_nil (d := b.at_ time) leases]
      exact Bool.false_ne_true
  | free row rows same unlocked unowned attempts there leases shown =>
    have found := find_row rows same
    refine release_refused (.free row rows same unlocked unowned attempts there leases shown)
      later ?_ ?_
    · intro other other_found owned
      rw [found, Option.mem_some_iff] at other_found
      rw [← other_found, unowned] at owned
      cases owned
    · intro holds
      have owned : row.workerId = some w := (careful row found).1 holds
      rw [unowned] at owned
      cases owned
  | leased row worker rows same locked owned attempts there leases shown =>
    have found := find_row rows same
    have message_iff := holder_iff (d := b.at_ time) there leases rfl w
    by_cases mine : worker = w
    · have row_iff : (b.store.runQueue.find runId).any (fun q => q.workerId = some w) = true := by
        rw [found, Option.any_some, owned, mine, decide_eq_true rfl]
      have item : ∀ x ∈ b.message.leases,
          b.message.leases = [x] ∧ x.receipt = b.message.latest := by
        intro x mem
        rw [leases, List.mem_singleton] at mem
        rw [leases, mem]
        exact ⟨rfl, rfl⟩
      unfold Backends.next
      simp only [LeaseOp.postgres, LeaseOp.dynamo]
      rw [releaseNow_eq, Store.release, if_pos row_iff]
      by_cases running : (b.at_ time).holder w = true
      · rw [if_pos running]
        refine .free _ (update_row rows same _ (by intro _; rfl)) same rfl rfl attempts there item
          (.inl ?_)
        show time + seconds s = time + visibilityDelay s
        rw [visibilityDelay_seconds]
      · rw [if_neg running]
        refine .free _ (update_row rows same _ (by intro _; rfl)) same rfl rfl attempts there item
          (.inr ?_)
        have none_ : s = 0 := ((careful row found).2 (by rw [owned, mine])).resolve_left running
        have lapsed : ¬ time < b.message.visibleAt := fun h => running (message_iff.mpr ⟨mine, h⟩)
        subst none_
        show time + seconds 0 ≤ time ∧ b.message.visibleAt ≤ time
        unfold seconds
        omega
    · refine release_refused
        (.leased row worker rows same locked owned attempts there leases shown) later ?_ ?_
      · intro other other_found other_owned
        rw [found, Option.mem_some_iff] at other_found
        rw [← other_found, owned, Option.some.injEq] at other_owned
        exact mine other_owned
      · intro h
        exact mine (message_iff.mp h).1

theorem dequeue_agrees (inv : b.Agreed runId) (careful : b.careful runId ⟨time, .dequeue⟩) :
    (b.next runId ⟨time, .dequeue⟩).Agreed runId := by
  have gone : ∀ {row : QueueRow} {x : LeaseItem}, b.store.runQueue.rows = [row] →
      row.runId = runId → b.message.leases = [x] → (b.at_ time).live x.receipt = true →
      (b.next runId ⟨time, .dequeue⟩).Agreed runId := by
    intro row x rows same leases live
    have none_ : (b.store.runQueue.delete runId).rows = [] := by
      show b.store.runQueue.rows.filter (fun r => r.runId ≠ runId) = []
      rw [rows]
      simp [same]
    refine .gone none_ ?_ ?_
    all_goals unfold Backends.next
    all_goals simp only [LeaseOp.dynamo]
    all_goals rw [dequeueNow_single (d := b.at_ time) leases]
    show (b.message.deleted || (b.at_ time).live x.receipt) = true
    rw [live, Bool.or_true]
  cases inv with
  | gone rows deleted leases =>
    have none_ : (b.store.runQueue.delete runId).rows = [] := by
      show b.store.runQueue.rows.filter (fun r => r.runId ≠ runId) = []
      rw [rows]
      rfl
    unfold Backends.next
    simp only [LeaseOp.postgres, LeaseOp.dynamo]
    rw [dequeueNow_nil (d := b.at_ time) leases]
    exact .gone none_ deleted leases
  | free row rows same unlocked unowned attempts there leases shown =>
    have hidden := careful row (find_row rows same)
    obtain ⟨x, first, live⟩ := (Option.any_eq_true _ _).mp hidden
    obtain ⟨only, _⟩ := leases x (List.mem_of_mem_head? first)
    exact gone rows same only live
  | leased row worker rows same locked owned attempts there leases shown =>
    have hidden := careful row (find_row rows same)
    obtain ⟨x, first, live⟩ := (Option.any_eq_true _ _).mp hidden
    have is : (⟨worker, b.message.latest⟩ : LeaseItem) = x := by
      simpa [LeaseOp.careful, Backends.at_, leases] using first
    exact gone rows same (is ▸ leases) live

theorem op_agrees {a : TimedOp} (inv : b.Agreed runId) (timely : b.timely a = true)
    (careful : b.careful runId a) : b.agree runId a ∧ (b.next runId a).Agreed runId := by
  unfold Backends.timely at timely
  simp only [Bool.and_eq_true, decide_eq_true_eq] at timely
  obtain ⟨⟨⟨later, sound⟩, off⟩, _⟩ := timely
  obtain ⟨time, op⟩ := a
  cases op with
  | claim w s => exact claim_agrees inv later (of_decide_eq_true sound) off
  | heartbeat w s => exact heartbeat_agrees inv later (of_decide_eq_true sound) careful
  | release w s => exact ⟨rfl, release_agrees inv later careful⟩
  | dequeue => exact ⟨rfl, dequeue_agrees inv careful⟩

theorem agreed_init {before : Store} {now : Int} {workflow : String} {payload : Value}
    {idempotencyKey : String} {budget : Budget} {run : RunRecord}
    (empty : before.runQueue.rows = [])
    (submitted : before.submitRun now runId workflow payload idempotencyKey budget =
      .ok ((run, true), st)) : (Backends.init st now).Agreed runId := by
  have rows : st.runQueue.rows = [⟨runId, now, none, none, 0⟩] := by
    generalize is : (run, true) = answer at submitted
    cases submitRun_cases submitted with
    | existing => cases is
    | created _ _ queued appended =>
      rw [(appendEvent_standing appended runId).2, (Table.rows_insert queued).2, empty]
      rfl
  refine .free _ rows rfl rfl rfl rfl rfl ?_ (.inl rfl)
  intro x mem
  cases mem

theorem agreed_reaches {s : Backends} (start : s.Agreed runId)
    (h : Reaches (Backends.step runId) (Backends.careful runId) s b) : b.Agreed runId := by
  refine h.invariant (I := Backends.Agreed runId) start ?_
  intro t a u _ inv careful hs
  unfold Backends.step at hs
  split at hs
  · next timely =>
    cases hs
    exact (op_agrees inv timely careful).2
  · cases hs

/-! The calls and the coroutines. -/

theorem alone_clears (d : Deliveries) (w : String) (s : Rat) (receipt : Nat) (stale : List String) :
    Alone d (.claim w s (.clearing receipt stale))
      { d with leases := stale.foldl (fun l x => deleteLease x l) d.leases }
      (.claim w s (.clearing receipt [])) := by
  induction stale generalizing d with
  | nil => exact .refl
  | cons x stale ih => exact .head rfl (ih { d with leases := deleteLease x d.leases })

end LeaseAgreementLemmas

open LeaseAgreementLemmas

/-! ## Results -/

theorem claimNow_runs (d : Deliveries) (w : String) (s : Rat) :
    ∃ end_, Alone d (.claim w s .start) (d.claimNow w s).2 (.claim w s end_) ∧
      ((d.claimNow w s).1 = none ∧ end_ = .nothing ∨
        ∃ n, (d.claimNow w s).1 = some n ∧ end_ = .claimed (d.latest + 1) n) := by
  by_cases hidden : (d.deleted || d.now < d.visibleAt) = true
  · have here : (LeaseCall.claim w s .start).step d = some (d, .claim w s .nothing) := by
      simp only [LeaseCall.step, ClaimAt.step, if_pos hidden, Option.map_some]
    unfold Deliveries.claimNow
    rw [if_pos hidden]
    exact ⟨.nothing, .single here, .inl ⟨rfl, rfl⟩⟩
  · have received : (LeaseCall.claim w s .start).step d =
        some ({ d with latest := d.latest + 1, visibleAt := d.now + visibilityTimeout s },
          .claim w s (.received (d.latest + 1))) := by
      simp only [LeaseCall.step, ClaimAt.step, if_neg hidden, Option.map_some]
    unfold Deliveries.claimNow
    rw [if_neg hidden]
    refine ⟨_, ?_, .inr ⟨_, rfl, rfl⟩⟩
    have cleared := alone_clears
      { d with latest := d.latest + 1, visibleAt := d.now + visibilityTimeout s } w s
      (d.latest + 1) (d.leases.map (·.workerId))
    exact .head received (.head rfl ((cleared.tail rfl).tail rfl))

theorem heartbeatNow_runs (d : Deliveries) (w : String) (s : Rat) :
    Alone d (.heartbeat w s .start) (d.heartbeatNow w s).2
      (.heartbeat w s (.returned (d.heartbeatNow w s).1)) := by
  cases own : d.leaseOf w with
  | none =>
    have here : (LeaseCall.heartbeat w s .start).step d =
        some (d, .heartbeat w s (.returned false)) := by
      simp only [LeaseCall.step, HeartbeatAt.step, own, Option.map_some]
    unfold Deliveries.heartbeatNow
    rw [own]
    exact .single here
  | some receipt =>
    have here : (LeaseCall.heartbeat w s .start).step d =
        some (d, .heartbeat w s (.found receipt)) := by
      simp only [LeaseCall.step, HeartbeatAt.step, own, Option.map_some]
    refine .head here (.single ?_)
    unfold Deliveries.heartbeatNow
    rw [own]
    by_cases live : d.live receipt = true
    · simp only [LeaseCall.step, HeartbeatAt.step, live, if_true, Option.map_some]
    · simp only [LeaseCall.step, HeartbeatAt.step, live, if_false, Bool.false_eq_true,
        Option.map_some]

theorem dequeueNow_runs (d : Deliveries) (caller : String) :
    Alone d (.dequeue caller .start) d.dequeueNow (.dequeue caller .returned) := by
  cases first : d.leases.head? with
  | none =>
    have here : (LeaseCall.dequeue caller .start).step d = some (d, .dequeue caller .returned) := by
      simp only [LeaseCall.step, DequeueAt.step, first, Option.map_some]
    unfold Deliveries.dequeueNow
    rw [first]
    exact .single here
  | some item =>
    have here : (LeaseCall.dequeue caller .start).step d =
        some (d, .dequeue caller (.found item)) := by
      simp only [LeaseCall.step, DequeueAt.step, first, Option.map_some]
    unfold Deliveries.dequeueNow
    rw [first]
    exact .head here (.head rfl (.single rfl))

/-- After a submission, as long as every call is made with care, the stores give the same
answers. -/
theorem leases_agree {before st : Store} {now : Int} {runId : Uuid} {workflow : String}
    {payload : Value} {idempotencyKey : String} {budget : Budget} {run : RunRecord} {b : Backends}
    {a : TimedOp} (empty : before.runQueue.rows = [])
    (submitted : before.submitRun now runId workflow payload idempotencyKey budget =
      .ok ((run, true), st))
    (h : Reaches (Backends.step runId) (Backends.careful runId) (.init st now) b)
    (timely : b.timely a = true) (careful : b.careful runId a) : b.agree runId a :=
  (op_agrees (agreed_reaches (agreed_init empty submitted) h) timely careful).1

namespace Sample

/-- The store after a submission. -/
def queued : Store :=
  (Store.empty.submitRun 0 runId "w" .none "request" ⟨none, none, none, none, none⟩).toOption.elim
    .empty (·.2)

/-- A worker gives the run back while its lease runs, and another one waits for it. -/
def givenBack : List TimedOp :=
  [⟨1, .claim "a" 10⟩, ⟨seconds 5, .heartbeat "a" 10⟩, ⟨seconds 10, .release "a" 3⟩,
    ⟨seconds 11, .claim "b" 10⟩]

/-- A worker gives the run back after its lease has lapsed. -/
def lapsed : List TimedOp := [⟨1, .claim "a" 10⟩, ⟨seconds 20, .release "a" 100⟩]

end Sample

theorem submitRun_queued : ∃ run,
    Store.empty.submitRun 0 Sample.runId "w" .none "request" ⟨none, none, none, none, none⟩ =
      .ok ((run, true), Sample.queued) :=
  ⟨_, rfl⟩

theorem leases_agree_given_back : ∃ b,
    Machine.run (Backends.step Sample.runId) (Backends.careful Sample.runId)
      (.init Sample.queued 0) Sample.givenBack = some b ∧
    (b.store.claim (seconds 14) "b" (seconds 10) []).1 = some ⟨Sample.runId, 2⟩ ∧
    b.agree Sample.runId ⟨seconds 14, .claim "b" 10⟩ := by
  obtain ⟨b, h, claimed, timely⟩ := run_exists (Backends.step Sample.runId)
    (Backends.careful Sample.runId) (.init Sample.queued 0) Sample.givenBack (fun b =>
      (b.store.claim (seconds 14) "b" (seconds 10) []).1 = some ⟨Sample.runId, 2⟩ ∧
        b.timely ⟨seconds 14, .claim "b" 10⟩ = true) (by decide +kernel)
  obtain ⟨_, submitted⟩ := submitRun_queued
  refine ⟨b, h, claimed, leases_agree rfl submitted (run_reaches h) timely ?_⟩
  intro row _
  trivial

/-- A release after the lease has lapsed delays the run in Postgres only. -/
theorem release_lapsed : ¬ ∀ b,
    Reaches (Backends.step Sample.runId) (fun _ _ => True) (.init Sample.queued 0) b →
    ∀ a, b.timely a = true → b.agree Sample.runId a := by
  obtain ⟨b, h, timely, differ⟩ := run_exists (Backends.step Sample.runId) (fun _ _ => True)
    (.init Sample.queued 0) Sample.lapsed (fun b =>
      b.timely ⟨seconds 21, .claim "b" 10⟩ = true ∧
        ¬ b.agree Sample.runId ⟨seconds 21, .claim "b" 10⟩) (by decide +kernel)
  intro agree
  exact differ (agree b (run_reaches h) _ timely)

end AnchorRuntime
