import AnchorRuntime.Lib.Machine
import AnchorRuntime.Lib.Slots

/-!
# Leases over SQS

The message of one run and its LEASE items. `claim`, `heartbeat` and `dequeue` of
`store/dynamo.py` are coroutines of queue and table calls with nothing that holds them
together: a claimant that is slow may take down the lease item of the next owner, and
`dequeue` takes whatever lease item comes first.

Results: `claims_keep_owner`, where no live lease item is taken down or overwritten and a
dequeue finds the item of its caller, who holds the message gets `True` from heartbeats and
gets rid of the message, and nobody else gets `True`; `owner_refused`, a heartbeat of the
holder that fails because of a slow claimant.
-/

namespace AnchorRuntime

open Machine Slots

/-! ## The message and the lease items -/

/-- A LEASE item. The receipts of a message are numbered as they are handed out. -/
structure LeaseItem where
  workerId : String
  receipt : Nat
  deriving DecidableEq

/-- The message of a run, the LEASE items by worker, and `attempt_count` of META. -/
structure Deliveries where
  now : Int
  -- the latest receipt handed out, 0 for none
  latest : Nat
  visibleAt : Int
  deleted : Bool
  leases : List LeaseItem
  attemptCount : Nat

/-- `max(1, int(lease_seconds))`, in microseconds -/
def visibilityTimeout (leaseSeconds : Rat) : Int :=
  max 1 (leaseSeconds.num.tdiv leaseSeconds.den) * 1000000

namespace Deliveries

/-- The visibility timeout of the receipt has not lapsed. -/
def holds (d : Deliveries) (receipt : Nat) : Bool := receipt = d.latest && d.now < d.visibleAt

/-- The receipt works. -/
def live (d : Deliveries) (receipt : Nat) : Bool := d.holds receipt && !d.deleted

/-- The receipt in the worker's LEASE item. -/
def leaseOf (d : Deliveries) (workerId : String) : Option Nat :=
  (d.leases.find? fun x => x.workerId = workerId).map (·.receipt)

end Deliveries

/-- `put_item` of a LEASE item -/
def putLease (x : LeaseItem) : List LeaseItem → List LeaseItem
  | [] => [x]
  | y :: ys =>
    if x.workerId = y.workerId then x :: ys
    else if x.workerId < y.workerId then x :: y :: ys
    else y :: putLease x ys

/-- `delete_item` of a LEASE item -/
def deleteLease (workerId : String) (leases : List LeaseItem) : List LeaseItem :=
  leases.filter fun x => x.workerId ≠ workerId

/-! ## The calls -/

/-- How far a `claim` has got. -/
inductive ClaimAt
  | start
  | received (receipt : Nat)
  -- the stale items it has still to delete
  | clearing (receipt : Nat) (stale : List String)
  | leased (receipt : Nat)
  | claimed (receipt : Nat) (attempts : Nat)
  | nothing
  deriving DecidableEq

/-- How far a `heartbeat` has got. -/
inductive HeartbeatAt
  | start
  | found (receipt : Nat)
  | returned (extended : Bool)
  deriving DecidableEq

/-- How far a `dequeue` has got. -/
inductive DequeueAt
  | start
  | found (item : LeaseItem)
  | removing (item : LeaseItem)
  | returned
  deriving DecidableEq

/-- A call and who makes it; `dequeue` is not told by whom. -/
inductive LeaseCall
  | claim (workerId : String) (leaseSeconds : Rat) (at_ : ClaimAt)
  | heartbeat (workerId : String) (leaseSeconds : Rat) (at_ : HeartbeatAt)
  | dequeue (caller : String) (at_ : DequeueAt)
  deriving DecidableEq

/-- The next queue or table call of `claim`. -/
def ClaimAt.step (workerId : String) (leaseSeconds : Rat) (d : Deliveries) :
    ClaimAt → Option (Deliveries × ClaimAt)
  | .start =>
    if d.deleted || d.now < d.visibleAt then some (d, .nothing)
    else
      some ({ d with
        latest := d.latest + 1
        visibleAt := d.now + visibilityTimeout leaseSeconds }, .received (d.latest + 1))
  | .received receipt => some (d, .clearing receipt (d.leases.map (·.workerId)))
  | .clearing receipt (stale :: rest) =>
    some ({ d with leases := deleteLease stale d.leases }, .clearing receipt rest)
  | .clearing receipt [] =>
    some ({ d with leases := putLease ⟨workerId, receipt⟩ d.leases }, .leased receipt)
  | .leased receipt =>
    some ({ d with attemptCount := d.attemptCount + 1 }, .claimed receipt (d.attemptCount + 1))
  | .claimed _ _ | .nothing => none

/-- The next queue or table call of `heartbeat`. -/
def HeartbeatAt.step (workerId : String) (leaseSeconds : Rat) (d : Deliveries) :
    HeartbeatAt → Option (Deliveries × HeartbeatAt)
  | .start =>
    match d.leaseOf workerId with
    | none => some (d, .returned false)
    | some receipt => some (d, .found receipt)
  | .found receipt =>
    if d.live receipt then
      some ({ d with visibleAt := d.now + visibilityTimeout leaseSeconds }, .returned true)
    else some (d, .returned false)
  | .returned _ => none

/-- The next queue or table call of `dequeue`; that the message is not deleted goes unnoticed. -/
def DequeueAt.step (d : Deliveries) : DequeueAt → Option (Deliveries × DequeueAt)
  | .start =>
    match d.leases.head? with
    | none => some (d, .returned)
    | some item => some (d, .found item)
  | .found item => some ({ d with deleted := d.deleted || d.live item.receipt }, .removing item)
  | .removing item => some ({ d with leases := deleteLease item.workerId d.leases }, .returned)
  | .returned => none

def LeaseCall.step (d : Deliveries) : LeaseCall → Option (Deliveries × LeaseCall)
  | .claim w s a => (a.step w s d).map fun (d, a) => (d, .claim w s a)
  | .heartbeat w s a => (a.step w s d).map fun (d, a) => (d, .heartbeat w s a)
  | .dequeue w a => (a.step d).map fun (d, a) => (d, .dequeue w a)

structure LeaseWorld where
  deliveries : Deliveries
  calls : List LeaseCall

/-- The run has just been submitted. -/
def LeaseWorld.init (now : Int) : LeaseWorld := ⟨⟨now, 0, now, false, [], 0⟩, []⟩

inductive LeaseAction
  | claim (workerId : String) (leaseSeconds : Rat)
  | heartbeat (workerId : String) (leaseSeconds : Rat)
  | dequeue (caller : String)
  -- call `i` makes its next queue or table call; a call that crashes makes none any more
  | go (i : Nat)
  | tick (elapsed : Nat)

def LeaseWorld.step (w : LeaseWorld) : LeaseAction → Option LeaseWorld
  | .claim worker s => some { w with calls := w.calls ++ [.claim worker s .start] }
  | .heartbeat worker s => some { w with calls := w.calls ++ [.heartbeat worker s .start] }
  | .dequeue worker => some { w with calls := w.calls ++ [.dequeue worker .start] }
  | .go i =>
    match w.calls[i]? with
    | none => none
    | some call => (call.step w.deliveries).map fun (d, call) => ⟨d, w.calls.set i call⟩
  | .tick elapsed =>
    some { w with deliveries := { w.deliveries with now := w.deliveries.now + elapsed } }

/-! ## The condition -/

/-- The LEASE item that the next step of the call deletes or replaces. -/
def LeaseCall.replaces : LeaseCall → Option String
  | .claim _ _ (.clearing _ (stale :: _)) => some stale
  | .claim worker _ (.clearing _ []) => some worker
  | .dequeue _ (.removing item) => some item.workerId
  | _ => none

/-- The worker's LEASE item has a receipt that works. -/
def Deliveries.holder (d : Deliveries) (workerId : String) : Bool :=
  (d.leaseOf workerId).any d.live

/-- A dequeue that begins by whom or at whose item the message is held finds the item of its
caller. -/
def LeaseCall.findsOwn (d : Deliveries) : LeaseCall → Bool
  | .dequeue worker .start => d.leases.head?.all fun x =>
      x.workerId = worker || !(d.live x.receipt || d.holder worker)
  | _ => true

/-- No LEASE item whose receipt works is deleted or replaced, and dequeues find the items of
their callers. -/
def keepsLeases (w : LeaseWorld) : LeaseAction → Prop
  | .go i => ∀ call ∈ w.calls[i]?,
      (∀ worker ∈ call.replaces, w.deliveries.holder worker = false) ∧
        call.findsOwn w.deliveries = true
  | _ => True

instance (w : LeaseWorld) (a : LeaseAction) : Decidable (keepsLeases w a) :=
  match a with
  | .go i => inferInstanceAs (Decidable (∀ call ∈ w.calls[i]?,
      (∀ worker ∈ call.replaces, w.deliveries.holder worker = false) ∧
        call.findsOwn w.deliveries = true))
  | .claim _ _ | .heartbeat _ _ | .dequeue _ | .tick _ => .isTrue trivial

/-! ## The invariant -/

/-- The receipt of a claim. -/
def ClaimAt.receipt : ClaimAt → Option Nat
  | .start | .nothing => none
  | .received receipt | .clearing receipt _ | .leased receipt | .claimed receipt _ => some receipt

/-- The receipt that a claim has put into its LEASE item. -/
def ClaimAt.leased? : ClaimAt → Option Nat
  | .leased receipt | .claimed receipt _ => some receipt
  | _ => none

namespace LeaseCall

/-- By whom a receipt is had. -/
def receipt : LeaseCall → Option (String × Nat)
  | .claim worker _ a => a.receipt.map (worker, ·)
  | _ => none

/-- By whom a receipt has been put into a LEASE item. -/
def leased : LeaseCall → Option (String × Nat)
  | .claim worker _ a => a.leased?.map (worker, ·)
  | _ => none

/-- The call has not made its first table or queue call. -/
def fresh : LeaseCall → Bool
  | .claim _ _ .start | .heartbeat _ _ .start | .dequeue _ .start => true
  | _ => false

/-- By whom a receipt is used that was read from a LEASE item. -/
def uses : LeaseCall → Option (String × Nat)
  | .heartbeat worker _ (.found receipt) => some (worker, receipt)
  | _ => none

end LeaseCall

/-- The receipt was handed to a claim of the worker. -/
def LeaseWorld.Issued (w : LeaseWorld) (worker : String) (receipt : Nat) : Prop :=
  ∃ (k : Nat) (call : LeaseCall), w.calls[k]? = some call ∧ call.receipt = some (worker, receipt)

structure LeaseWorld.Tracked (w : LeaseWorld) : Prop where
  bounded : ∀ worker receipt, w.Issued worker receipt → receipt ≤ w.deliveries.latest
  unique : ∀ (k k' : Nat) (call call' : LeaseCall) worker worker' receipt,
    w.calls[k]? = some call → w.calls[k']? = some call' →
    call.receipt = some (worker, receipt) → call'.receipt = some (worker', receipt) → k = k'
  items : ∀ x ∈ w.deliveries.leases, w.Issued x.workerId x.receipt
  used : ∀ (k : Nat) (call : LeaseCall) worker receipt, w.calls[k]? = some call →
    call.uses = some (worker, receipt) → w.Issued worker receipt
  held : ∀ (k : Nat) (call : LeaseCall) worker receipt, w.calls[k]? = some call →
    call.leased = some (worker, receipt) → w.deliveries.live receipt = true →
    w.deliveries.leaseOf worker = some receipt

namespace LeaseLemmas

variable {w w' : LeaseWorld} {d d' : Deliveries} {call call' : LeaseCall} {worker other : String}
  {s : Rat} {receipt i : Nat} {x y : LeaseItem} {l : List LeaseItem}

/-! Lease items. -/

theorem mem_putLease (h : y ∈ putLease x l) : y = x ∨ y ∈ l := by
  induction l with
  | nil => exact .inl (List.mem_singleton.mp h)
  | cons z l ih =>
    unfold putLease at h
    split at h
    · exact (List.mem_cons.mp h).imp id (List.mem_cons_of_mem _)
    · split at h
      · exact List.mem_cons.mp h
      · rcases List.mem_cons.mp h with rfl | h
        · exact .inr List.mem_cons_self
        · exact (ih h).imp id (List.mem_cons_of_mem _)

theorem find_putLease : (putLease x l).find? (fun y => y.workerId = worker) =
    if x.workerId = worker then some x else l.find? fun y => y.workerId = worker := by
  induction l with
  | nil => by_cases h : x.workerId = worker <;> simp [putLease, h]
  | cons z l ih =>
    unfold putLease
    split
    · next same => by_cases h : x.workerId = worker <;> simp [h, ← same]
    · next differ =>
      split
      · by_cases h : x.workerId = worker <;> simp [List.find?_cons, h]
      · by_cases h : z.workerId = worker
        · simp [h, show x.workerId ≠ worker from fun e => differ (e.trans h.symm)]
        · simp [h, ih]

theorem find_deleteLease (ne : worker ≠ other) :
    (deleteLease other l).find? (fun y => y.workerId = worker) =
      l.find? fun y => y.workerId = worker := by
  rw [deleteLease, List.find?_filter]
  congr 1
  funext y
  by_cases h : y.workerId = worker <;> simp [h, ne]

/-! The moves of the calls. -/

inductive LeaseMoves (d : Deliveries) : LeaseCall → Deliveries → LeaseCall → Prop
  | receive (worker : String) (s : Rat) : d.deleted = false → d.visibleAt ≤ d.now →
      LeaseMoves d (.claim worker s .start)
        { d with latest := d.latest + 1, visibleAt := d.now + visibilityTimeout s }
        (.claim worker s (.received (d.latest + 1)))
  | hidden (worker : String) (s : Rat) :
      LeaseMoves d (.claim worker s .start) d (.claim worker s .nothing)
  | query (worker : String) (s : Rat) (receipt : Nat) :
      LeaseMoves d (.claim worker s (.received receipt)) d
        (.claim worker s (.clearing receipt (d.leases.map (·.workerId))))
  | clear (worker : String) (s : Rat) (receipt : Nat) (stale : String) (rest : List String) :
      LeaseMoves d (.claim worker s (.clearing receipt (stale :: rest)))
        { d with leases := deleteLease stale d.leases } (.claim worker s (.clearing receipt rest))
  | put (worker : String) (s : Rat) (receipt : Nat) :
      LeaseMoves d (.claim worker s (.clearing receipt []))
        { d with leases := putLease ⟨worker, receipt⟩ d.leases } (.claim worker s (.leased receipt))
  | count (worker : String) (s : Rat) (receipt : Nat) :
      LeaseMoves d (.claim worker s (.leased receipt)) { d with attemptCount := d.attemptCount + 1 }
        (.claim worker s (.claimed receipt (d.attemptCount + 1)))
  | unleased (worker : String) (s : Rat) : d.leaseOf worker = none →
      LeaseMoves d (.heartbeat worker s .start) d (.heartbeat worker s (.returned false))
  | find (worker : String) (s : Rat) (receipt : Nat) : d.leaseOf worker = some receipt →
      LeaseMoves d (.heartbeat worker s .start) d (.heartbeat worker s (.found receipt))
  | extend (worker : String) (s : Rat) (receipt : Nat) : d.live receipt = true →
      LeaseMoves d (.heartbeat worker s (.found receipt))
        { d with visibleAt := d.now + visibilityTimeout s } (.heartbeat worker s (.returned true))
  | lapsed (worker : String) (s : Rat) (receipt : Nat) : d.live receipt = false →
      LeaseMoves d (.heartbeat worker s (.found receipt)) d (.heartbeat worker s (.returned false))
  | empty (worker : String) : d.leases.head? = none →
      LeaseMoves d (.dequeue worker .start) d (.dequeue worker .returned)
  | first (worker : String) (item : LeaseItem) : d.leases.head? = some item →
      LeaseMoves d (.dequeue worker .start) d (.dequeue worker (.found item))
  | delete (worker : String) (item : LeaseItem) :
      LeaseMoves d (.dequeue worker (.found item))
        { d with deleted := d.deleted || d.live item.receipt } (.dequeue worker (.removing item))
  | remove (worker : String) (item : LeaseItem) :
      LeaseMoves d (.dequeue worker (.removing item))
        { d with leases := deleteLease item.workerId d.leases } (.dequeue worker .returned)

theorem lease_moves (h : call.step d = some (d', call')) : LeaseMoves d call d' call' := by
  cases call with
  | claim worker s a =>
    obtain ⟨⟨d₁, a'⟩, step, is⟩ := Option.map_eq_some_iff.mp h
    cases is
    match a with
    | .start =>
      simp only [ClaimAt.step] at step
      split at step
      · cases step
        exact .hidden worker s
      · next free =>
        cases step
        simp only [Bool.or_eq_true, decide_eq_true_eq, not_or, Bool.not_eq_true, not_lt] at free
        exact .receive worker s free.1 free.2
    | .received receipt =>
      cases step
      exact .query worker s receipt
    | .clearing receipt (stale :: rest) =>
      cases step
      exact .clear worker s receipt stale rest
    | .clearing receipt [] =>
      cases step
      exact .put worker s receipt
    | .leased receipt =>
      cases step
      exact .count worker s receipt
  | heartbeat worker s a =>
    obtain ⟨⟨d₁, a'⟩, step, is⟩ := Option.map_eq_some_iff.mp h
    cases is
    match a with
    | .start =>
      simp only [HeartbeatAt.step] at step
      split at step
      · next none =>
        cases step
        exact .unleased worker s none
      · next receipt found =>
        cases step
        exact .find worker s receipt found
    | .found receipt =>
      simp only [HeartbeatAt.step] at step
      split at step
      · next works =>
        cases step
        exact .extend worker s receipt works
      · next lapsed =>
        cases step
        exact .lapsed worker s receipt (Bool.not_eq_true _ ▸ lapsed)
  | dequeue worker a =>
    obtain ⟨⟨d₁, a'⟩, step, is⟩ := Option.map_eq_some_iff.mp h
    cases is
    match a with
    | .start =>
      simp only [DequeueAt.step] at step
      split at step
      · next none =>
        cases step
        exact .empty worker none
      · next item found =>
        cases step
        exact .first worker item found
    | .found item =>
      cases step
      exact .delete worker item
    | .removing item =>
      cases step
      exact .remove worker item

theorem holds_iff : d.holds receipt = true ↔ receipt = d.latest ∧ d.now < d.visibleAt := by
  simp [Deliveries.holds]

theorem live_iff : d.live receipt = true ↔ d.holds receipt = true ∧ d.deleted = false := by
  simp [Deliveries.live]

theorem leaseOf_mem (h : d.leaseOf worker = some receipt) : ⟨worker, receipt⟩ ∈ d.leases := by
  obtain ⟨x, found, rfl⟩ := Option.map_eq_some_iff.mp h
  have named : x.workerId = worker := by simpa using List.find?_some found
  exact named ▸ List.mem_of_find?_eq_some found

theorem leaseOf_head (h : d.leases.head? = some x) : d.leaseOf x.workerId = some x.receipt := by
  obtain ⟨rest, is⟩ := List.head?_eq_some_iff.mp h
  simp [Deliveries.leaseOf, is]

/-- A receipt that holds has held before. -/
theorem holds_back (moves : LeaseMoves d call d' call') (old : receipt ≤ d.latest)
    (holds : d'.holds receipt = true) : d.holds receipt = true := by
  cases moves with
  | receive =>
    obtain ⟨is, -⟩ := holds_iff.mp holds
    have is : receipt = d.latest + 1 := is
    omega
  | extend worker s mine live =>
    obtain ⟨own, lasts⟩ := holds_iff.mp (live_iff.mp live).1
    exact holds_iff.mpr ⟨(holds_iff.mp holds).1, lasts⟩
  | _ => exact holds

/-- A message that is gone stays gone. -/
theorem deleted_back (moves : LeaseMoves d call d' call') (there : d'.deleted = false) :
    d.deleted = false := by
  cases moves with
  | delete worker item => exact (Bool.or_eq_false_iff.mp there).1
  | _ => exact there

theorem live_back (moves : LeaseMoves d call d' call') (old : receipt ≤ d.latest)
    (live : d'.live receipt = true) : d.live receipt = true := by
  obtain ⟨holds, there⟩ := live_iff.mp live
  exact live_iff.mpr ⟨holds_back moves old holds, deleted_back moves there⟩

theorem latest_grows (moves : LeaseMoves d call d' call') : d.latest ≤ d'.latest := by
  cases moves with
  | receive => exact Nat.le_succ _
  | _ => exact le_rfl

/-- A live item stays where no live item is replaced. -/
theorem leaseOf_kept (moves : LeaseMoves d call d' call')
    (keeps : ∀ worker ∈ call.replaces, d.holder worker = false)
    (lease : d.leaseOf worker = some receipt) (live : d.live receipt = true) :
    d'.leaseOf worker = some receipt := by
  have holder : d.holder worker = true := by simpa [Deliveries.holder, lease] using live
  have differ : ∀ other ∈ call.replaces, worker ≠ other := by
    rintro other mem rfl
    cases (keeps _ mem).symm.trans holder
  have removed : ∀ other ∈ call.replaces,
      Deliveries.leaseOf { d with leases := deleteLease other d.leases } worker = some receipt := by
    intro other mem
    show ((deleteLease other d.leases).find? _).map _ = _
    rw [find_deleteLease (differ other mem)]
    exact lease
  cases moves with
  | clear worker s receipt stale rest => exact removed stale rfl
  | remove worker item => exact removed item.workerId rfl
  | put other s mine =>
    show ((putLease _ d.leases).find? _).map _ = _
    rw [find_putLease, if_neg (differ other rfl).symm]
    exact lease
  | _ => exact lease

theorem items_back (moves : LeaseMoves d call d' call') (mem : x ∈ d'.leases) :
    x ∈ d.leases ∨ call'.receipt = some (x.workerId, x.receipt) := by
  cases moves with
  | clear | remove => exact .inl (List.mem_of_mem_filter mem)
  | put worker s receipt => exact (mem_putLease mem).symm.imp id fun is => by rw [is]; rfl
  | _ => exact .inl mem

theorem receipt_moves (moves : LeaseMoves d call d' call') :
    call'.receipt = call.receipt ∨
      call.receipt = none ∧ ∃ worker, call'.receipt = some (worker, d.latest + 1) ∧
        d'.latest = d.latest + 1 := by
  cases moves with
  | receive worker => exact .inr ⟨rfl, worker, rfl, rfl⟩
  | _ => exact .inl rfl

theorem uses_moves (moves : LeaseMoves d call d' call')
    (uses : call'.uses = some (worker, receipt)) : ⟨worker, receipt⟩ ∈ d.leases := by
  cases moves with
  | find mine s read lease =>
    cases uses
    exact leaseOf_mem lease
  | _ => cases uses

theorem leased_moves (moves : LeaseMoves d call d' call')
    (leased : call'.leased = some (worker, receipt)) :
    call.leased = some (worker, receipt) ∨ d'.leaseOf worker = some receipt := by
  cases moves with
  | put mine s read =>
    cases leased
    right
    show ((putLease _ d.leases).find? _).map _ = _
    rw [find_putLease, if_pos rfl]
    rfl
  | count => exact .inl leased
  | _ => cases leased

theorem leased_receipt (h : call.leased = some (worker, receipt)) :
    call.receipt = some (worker, receipt) := by
  cases call with
  | claim mine s a => cases a <;> first | exact h | cases h
  | _ => cases h

theorem fresh_idle (h : call.fresh = true) :
    call.receipt = none ∧ call.uses = none ∧ call.leased = none := by
  cases call with
  | claim worker s a => cases a <;> first | exact ⟨rfl, rfl, rfl⟩ | cases h
  | heartbeat worker s a => cases a <;> first | exact ⟨rfl, rfl, rfl⟩ | cases h
  | dequeue => exact ⟨rfl, rfl, rfl⟩

theorem issued_begin (call : LeaseCall) (issued : w.Issued worker receipt) :
    LeaseWorld.Issued { w with calls := w.calls ++ [call] } worker receipt := by
  obtain ⟨k, old, hk, has⟩ := issued
  refine ⟨k, old, ?_, has⟩
  exact (List.getElem?_append_left (List.getElem?_eq_some_iff.mp hk).1).trans hk

theorem issued_go (hi : w.calls[i]? = some call) (moves : LeaseMoves w.deliveries call d' call')
    (issued : w.Issued worker receipt) :
    LeaseWorld.Issued ⟨d', w.calls.set i call'⟩ worker receipt := by
  obtain ⟨k, old, hk, has⟩ := issued
  by_cases e : k = i
  · subst e
    cases hi.symm.trans hk
    rcases receipt_moves moves with same | ⟨none, -⟩
    · exact ⟨k, call', set_self hi, same.trans has⟩
    · cases none.symm.trans has
  · exact ⟨k, old, (List.getElem?_set_ne (Ne.symm e)).trans hk, has⟩

theorem tracked_begin (inv : w.Tracked) (fresh : call.fresh = true) :
    LeaseWorld.Tracked { w with calls := w.calls ++ [call] } := by
  obtain ⟨receipt_, uses, leased⟩ := fresh_idle fresh
  have kept : ∀ worker receipt, w.Issued worker receipt →
      LeaseWorld.Issued { w with calls := w.calls ++ [call] } worker receipt :=
    fun _ _ => issued_begin call
  refine ⟨?_, fun k k' one two worker worker' receipt hk hk' has has' => ?_,
    fun x mem => kept _ _ (inv.items x mem), fun k one worker receipt hk uses' => ?_,
    fun k one worker receipt hk leased' live => ?_⟩
  · rintro worker receipt ⟨k, one, hk, has⟩
    rcases concat_cases hk with old | ⟨-, rfl⟩
    · exact inv.bounded worker receipt ⟨k, one, old, has⟩
    · cases receipt_.symm.trans has
  · rcases concat_cases hk with old | ⟨-, rfl⟩
    · rcases concat_cases hk' with old' | ⟨-, rfl⟩
      · exact inv.unique k k' one two worker worker' receipt old old' has has'
      · cases receipt_.symm.trans has'
    · cases receipt_.symm.trans has
  · rcases concat_cases hk with old | ⟨-, rfl⟩
    · exact kept _ _ (inv.used k one worker receipt old uses')
    · cases uses.symm.trans uses'
  · rcases concat_cases hk with old | ⟨-, rfl⟩
    · exact inv.held k one worker receipt old leased' live
    · cases leased.symm.trans leased'

theorem tracked_go (inv : w.Tracked) (hi : w.calls[i]? = some call)
    (moves : LeaseMoves w.deliveries call d' call')
    (keeps : ∀ worker ∈ call.replaces, w.deliveries.holder worker = false) :
    LeaseWorld.Tracked ⟨d', w.calls.set i call'⟩ := by
  have mine : (w.calls.set i call')[i]? = some call' := set_self hi
  have grows := latest_grows moves
  have kept : ∀ worker receipt, w.Issued worker receipt →
      LeaseWorld.Issued ⟨d', w.calls.set i call'⟩ worker receipt :=
    fun _ _ => issued_go hi moves
  -- who has a receipt has it from before, or it is the new one
  have back : ∀ (k : Nat) (one : LeaseCall) worker receipt, (w.calls.set i call')[k]? = some one →
      one.receipt = some (worker, receipt) →
      (∃ old, w.calls[k]? = some old ∧ old.receipt = some (worker, receipt)) ∨
        k = i ∧ receipt = w.deliveries.latest + 1 ∧ d'.latest = w.deliveries.latest + 1 := by
    intro k one worker receipt hk has
    rcases set_cases hk with ⟨rfl, rfl⟩ | ⟨-, old⟩
    · rcases receipt_moves moves with same | ⟨-, other, new, latest⟩
      · exact .inl ⟨call, hi, same ▸ has⟩
      · cases new.symm.trans has
        exact .inr ⟨rfl, rfl, latest⟩
    · exact .inl ⟨one, old, has⟩
  refine ⟨?_, fun k k' one two worker worker' receipt hk hk' has has' => ?_, fun x mem => ?_,
    fun k one worker receipt hk uses => ?_, fun k one worker receipt hk leased live => ?_⟩
  · rintro worker receipt ⟨k, one, hk, has⟩
    rcases back k one worker receipt hk has with ⟨old, hold, had⟩ | ⟨-, is, latest⟩
    · exact (inv.bounded worker receipt ⟨k, old, hold, had⟩).trans grows
    · exact (is.trans latest.symm).le
  · rcases back k one worker receipt hk has with ⟨old, hold, had⟩ | ⟨rfl, is, -⟩
    · rcases back k' two worker' receipt hk' has' with ⟨old', hold', had'⟩ | ⟨rfl, is, -⟩
      · exact inv.unique k k' old old' worker worker' receipt hold hold' had had'
      · have := inv.bounded worker receipt ⟨k, old, hold, had⟩
        omega
    · rcases back k' two worker' receipt hk' has' with ⟨old', hold', had'⟩ | ⟨rfl, -, -⟩
      · have := inv.bounded worker' receipt ⟨k', old', hold', had'⟩
        omega
      · rfl
  · rcases items_back moves mem with old | has
    · exact kept _ _ (inv.items x old)
    · exact ⟨i, call', mine, has⟩
  · rcases set_cases hk with ⟨rfl, rfl⟩ | ⟨-, old⟩
    · exact kept _ _ (inv.items _ (uses_moves moves uses))
    · exact kept _ _ (inv.used k one worker receipt old uses)
  · have before : ∀ old, w.calls[k]? = some old → old.leased = some (worker, receipt) →
        d'.leaseOf worker = some receipt := by
      intro old hold leased
      have bound := inv.bounded worker receipt ⟨k, old, hold, leased_receipt leased⟩
      have live := live_back moves bound live
      exact leaseOf_kept moves keeps (inv.held k old worker receipt hold leased live) live
    rcases set_cases hk with ⟨rfl, rfl⟩ | ⟨-, old⟩
    · rcases leased_moves moves leased with old | now
      · exact before call hi old
      · exact now
    · exact before one old leased

/-- What an action does. -/
inductive LeaseHappens (w : LeaseWorld) : LeaseAction → LeaseWorld → Prop
  | begins {action : LeaseAction} (call : LeaseCall) : call.fresh = true →
      LeaseHappens w action { w with calls := w.calls ++ [call] }
  | goes {i : Nat} {call call' : LeaseCall} {d : Deliveries} : w.calls[i]? = some call →
      LeaseMoves w.deliveries call d call' →
      LeaseHappens w (.go i) ⟨d, w.calls.set i call'⟩
  | tick (elapsed : Nat) : LeaseHappens w (.tick elapsed)
      { w with deliveries := { w.deliveries with now := w.deliveries.now + elapsed } }

theorem lease_happens {action : LeaseAction} (h : w.step action = some w') :
    LeaseHappens w action w' := by
  cases action with
  | claim | heartbeat | dequeue =>
    cases h
    exact .begins _ rfl
  | go i =>
    simp only [LeaseWorld.step] at h
    split at h
    · cases h
    · next call hi =>
      obtain ⟨⟨d, call'⟩, step, is⟩ := Option.map_eq_some_iff.mp h
      cases is
      exact .goes hi (lease_moves step)
  | tick elapsed =>
    cases h
    exact .tick elapsed

theorem holds_tick {elapsed : Nat}
    (h : Deliveries.holds { d with now := d.now + elapsed } receipt = true) :
    d.holds receipt = true := by
  obtain ⟨is, lasts⟩ := holds_iff.mp h
  have lasts : d.now + elapsed < d.visibleAt := lasts
  exact holds_iff.mpr ⟨is, by omega⟩

theorem tracked_step {action : LeaseAction} (h : w.step action = some w')
    (ok : keepsLeases w action) (inv : w.Tracked) : w'.Tracked := by
  cases lease_happens h with
  | begins call fresh => exact tracked_begin inv fresh
  | goes hi moves => exact tracked_go inv hi moves (ok _ hi).1
  | tick elapsed =>
    refine ⟨inv.bounded, inv.unique, inv.items, inv.used,
      fun k one worker receipt hk leased live => ?_⟩
    obtain ⟨holds, there⟩ := live_iff.mp live
    exact inv.held k one worker receipt hk leased (live_iff.mpr ⟨holds_tick holds, there⟩)

end LeaseLemmas

/-- A dequeue of the worker is past its `delete_message`, with this receipt where it has not
returned yet. -/
def LeaseWorld.Dequeued (w : LeaseWorld) (worker : String) (receipt : Nat) : Prop :=
  ∃ (k : Nat) (a : DequeueAt), w.calls[k]? = some (.dequeue worker a) ∧
    (a = .removing ⟨worker, receipt⟩ ∨ a = .returned)

/-- Who could delete the message, and who has. -/
structure LeaseWorld.Guarded (w : LeaseWorld) : Prop where
  read : ∀ (k : Nat) caller item, w.calls[k]? = some (.dequeue caller (.found item)) →
    w.Issued item.workerId item.receipt ∧
      (w.deliveries.live item.receipt = true → item.workerId = caller)
  gone : ∀ (k : Nat) (call : LeaseCall) worker receipt, w.calls[k]? = some call →
    call.receipt = some (worker, receipt) → w.deliveries.holds receipt = true →
    w.deliveries.deleted = true → w.Dequeued worker receipt

namespace LeaseLemmas

variable {w w' : LeaseWorld} {d' : Deliveries} {call call' : LeaseCall} {worker : String}
  {receipt i : Nat}

theorem dequeued_begin (call : LeaseCall) (gone : w.Dequeued worker receipt) :
    LeaseWorld.Dequeued { w with calls := w.calls ++ [call] } worker receipt := by
  obtain ⟨k, a, hk, past⟩ := gone
  refine ⟨k, a, ?_, past⟩
  exact (List.getElem?_append_left (List.getElem?_eq_some_iff.mp hk).1).trans hk

theorem dequeued_go (hi : w.calls[i]? = some call) (moves : LeaseMoves w.deliveries call d' call')
    (gone : w.Dequeued worker receipt) :
    LeaseWorld.Dequeued ⟨d', w.calls.set i call'⟩ worker receipt := by
  obtain ⟨k, a, hk, past⟩ := gone
  by_cases e : k = i
  · subst e
    cases hi.symm.trans hk
    rcases past with rfl | rfl
    · cases moves
      exact ⟨k, .returned, set_self hi, .inr rfl⟩
    · cases moves
  · exact ⟨k, a, (List.getElem?_set_ne (Ne.symm e)).trans hk, past⟩

theorem guarded_begin (inv : w.Guarded) (fresh : call.fresh = true) :
    LeaseWorld.Guarded { w with calls := w.calls ++ [call] } := by
  constructor
  · intro k caller item hk
    rcases concat_cases hk with old | ⟨-, rfl⟩
    · obtain ⟨issued, own⟩ := inv.read k caller item old
      exact ⟨issued_begin call issued, own⟩
    · cases fresh
  · intro k one worker receipt hk has holds gone
    rcases concat_cases hk with old | ⟨-, rfl⟩
    · exact dequeued_begin call (inv.gone k one worker receipt old has holds gone)
    · cases (fresh_idle fresh).1.symm.trans has

/-- The item that a dequeue finds, when it begins at one that works, is its caller's. -/
theorem found_own {caller : String} {item : LeaseItem}
    (own : call.findsOwn w.deliveries = true)
    (moves : LeaseMoves w.deliveries call d' (.dequeue caller (.found item)))
    (live : w.deliveries.live item.receipt = true) : item.workerId = caller := by
  cases moves with
  | first _ _ head => simpa [LeaseCall.findsOwn, head, live] using own

theorem guarded_go (tracked : w.Tracked) (inv : w.Guarded) (hi : w.calls[i]? = some call)
    (moves : LeaseMoves w.deliveries call d' call') (own : call.findsOwn w.deliveries = true) :
    LeaseWorld.Guarded ⟨d', w.calls.set i call'⟩ := by
  constructor
  · intro k caller item hk
    rcases set_cases hk with ⟨rfl, is⟩ | ⟨-, old⟩
    · subst is
      have issued : w.Issued item.workerId item.receipt := by
        cases moves with
        | first _ _ head => exact tracked.items item (List.mem_of_head? head)
      have bound := tracked.bounded _ _ issued
      exact ⟨issued_go hi moves issued,
        fun live => found_own own moves (live_back moves bound live)⟩
    · obtain ⟨issued, own⟩ := inv.read k caller item old
      have bound := tracked.bounded _ _ issued
      exact ⟨issued_go hi moves issued, fun live => own (live_back moves bound live)⟩
  · intro k one worker receipt hk has holds gone
    -- the receipt is an old one, since nothing is received once the message is gone
    obtain ⟨old, hold, had⟩ : ∃ old, w.calls[k]? = some old ∧
        old.receipt = some (worker, receipt) := by
      rcases set_cases hk with ⟨rfl, rfl⟩ | ⟨-, old⟩
      · cases moves with
        | receive _ _ there =>
          have gone : w.deliveries.deleted = true := gone
          cases there.symm.trans gone
        | _ => exact ⟨_, hi, has⟩
      · exact ⟨one, old, has⟩
    have bound := tracked.bounded worker receipt ⟨k, old, hold, had⟩
    have held := holds_back moves bound holds
    cases before : w.deliveries.deleted with
    | true => exact dequeued_go hi moves (inv.gone k old worker receipt hold had held before)
    | false =>
      cases moves with
      | delete caller item =>
        have live : w.deliveries.live item.receipt = true := by
          have now : (w.deliveries.deleted || w.deliveries.live item.receipt) = true := gone
          simpa [before] using now
        obtain ⟨⟨j, claimant, hj, handed⟩, own⟩ := inv.read i caller item hi
        obtain rfl : item.receipt = receipt :=
          (holds_iff.mp (live_iff.mp live).1).1.trans (holds_iff.mp held).1.symm
        -- the item is of the one claim that this receipt was handed to
        obtain rfl := tracked.unique j k claimant old _ _ _ hj hold handed had
        cases hj.symm.trans hold
        cases handed.symm.trans had
        obtain rfl := own live
        exact ⟨i, _, set_self hi, .inl rfl⟩
      | _ =>
        have gone : w.deliveries.deleted = true := gone
        cases before.symm.trans gone

theorem guarded_step {action : LeaseAction} (h : w.step action = some w')
    (ok : keepsLeases w action) (tracked : w.Tracked) (inv : w.Guarded) : w'.Guarded := by
  cases lease_happens h with
  | begins call fresh => exact guarded_begin inv fresh
  | goes hi moves => exact guarded_go tracked inv hi moves (ok _ hi).2
  | tick elapsed =>
    refine ⟨fun k caller item hk => ?_, fun k one worker receipt hk has holds gone =>
      inv.gone k one worker receipt hk has (holds_tick holds) gone⟩
    obtain ⟨issued, own⟩ := inv.read k caller item hk
    refine ⟨issued, fun live => own ?_⟩
    obtain ⟨holds, there⟩ := live_iff.mp live
    exact live_iff.mpr ⟨holds_tick holds, there⟩

theorem tracked_reaches {now : Int} (h : Reaches LeaseWorld.step keepsLeases (.init now) w) :
    w.Tracked :=
  h.invariant
    ⟨fun _ _ ⟨_, _, hk, _⟩ => (by cases hk), fun _ _ _ _ _ _ _ hk => (by cases hk),
      fun _ mem => (by cases mem), fun _ _ _ _ hk => (by cases hk),
      fun _ _ _ _ hk => (by cases hk)⟩
    fun _ _ _ _ inv ok step => tracked_step step ok inv

theorem guarded_reaches {now : Int} (h : Reaches LeaseWorld.step keepsLeases (.init now) w) :
    w.Guarded :=
  h.invariant ⟨fun _ _ _ hk => (by cases hk), fun _ _ _ _ hk => (by cases hk)⟩
    fun _ _ _ reached inv ok step => guarded_step step ok (tracked_reaches reached) inv

end LeaseLemmas

/-- From `before` on the claim `i` of the worker has the receipt, and what has become of the
calls made since. -/
structure LeaseWorld.Owned (before : LeaseWorld) (worker : String) (receipt i : Nat)
    (w : LeaseWorld) : Prop where
  owner : ∃ s n, w.calls[i]? = some (.claim worker s (.claimed receipt n))
  beats : ∀ (k : Nat) s a, w.calls[k]? = some (.heartbeat worker s a) →
    (∀ s a, before.calls[k]? = some (.heartbeat worker s a) → a = .start) →
    w.deliveries.live receipt = true → a = .start ∨ a = .found receipt ∨ a = .returned true
  others : ∀ (k : Nat) other s, other ≠ worker →
    w.calls[k]? = some (.heartbeat other s (.returned true)) →
    w.deliveries.holds receipt = true →
    before.calls[k]? = some (.heartbeat other s (.returned true))
  dequeues : ∀ (k : Nat) a, w.calls[k]? = some (.dequeue worker a) →
    (∀ a, before.calls[k]? = some (.dequeue worker a) → a = .start) →
    w.deliveries.holds receipt = true →
    a = .start ∨ a = .found ⟨worker, receipt⟩ ∨ w.deliveries.deleted = true

namespace LeaseLemmas

variable {before w w' : LeaseWorld} {d' : Deliveries} {call call' : LeaseCall} {worker : String}
  {receipt i j : Nat}

theorem owned_begin (owned : before.Owned worker receipt i w) (fresh : call.fresh = true) :
    before.Owned worker receipt i { w with calls := w.calls ++ [call] } := by
  obtain ⟨s, n, owner⟩ := owned.owner
  refine ⟨⟨s, n, ?_⟩, fun k s a hk since live => ?_, fun k other s ne hk holds => ?_,
    fun k a hk since holds => ?_⟩
  · exact (List.getElem?_append_left (List.getElem?_eq_some_iff.mp owner).1).trans owner
  · rcases concat_cases hk with old | ⟨-, is⟩
    · exact owned.beats k s a old since live
    · rw [← is] at fresh
      cases a <;> first | exact .inl rfl | cases fresh
  · rcases concat_cases hk with old | ⟨-, is⟩
    · exact owned.others k other s ne old holds
    · rw [← is] at fresh
      cases fresh
  · rcases concat_cases hk with old | ⟨-, is⟩
    · exact owned.dequeues k a old since holds
    · rw [← is] at fresh
      cases a <;> first | exact .inl rfl | cases fresh

/-- A heartbeat of the owner that moves. -/
theorem beats_moves {s : Rat} {a : HeartbeatAt} {a' : HeartbeatAt}
    (moves : LeaseMoves w.deliveries (.heartbeat worker s a) d' (.heartbeat worker s a'))
    (lease : w.deliveries.leaseOf worker = some receipt)
    (live : w.deliveries.live receipt = true)
    (was : a = .start ∨ a = .found receipt ∨ a = .returned true) :
    a' = .start ∨ a' = .found receipt ∨ a' = .returned true := by
  cases moves with
  | unleased _ _ none => cases lease.symm.trans none
  | find _ _ read found =>
    obtain rfl := Option.some.inj (lease.symm.trans found)
    exact .inr (.inl rfl)
  | extend => exact .inr (.inr rfl)
  | lapsed _ _ read lapsed =>
    rcases was with is | is | is <;> cases is
    cases lapsed.symm.trans live

/-- Only the owner's heartbeats extend the message. -/
theorem extends_owner (inv : w.Tracked) {n : Nat} {s s' : Rat} {other : String}
    (owner : w.calls[i]? = some (.claim worker s (.claimed receipt n)))
    (holds : w.deliveries.holds receipt = true) (hj : w.calls[j]? = some call)
    (moves : LeaseMoves w.deliveries call d' (.heartbeat other s' (.returned true))) :
    other = worker := by
  cases moves with
  | extend _ _ read live =>
    have same : read = receipt :=
      (holds_iff.mp (live_iff.mp live).1).1.trans (holds_iff.mp holds).1.symm
    obtain ⟨k, claimant, hk, has⟩ := inv.used j _ other read hj rfl
    have one := inv.unique k i claimant _ other worker read hk owner has (same ▸ rfl)
    subst one
    cases owner.symm.trans hk
    cases has
    rfl

/-- A dequeue of the owner that moves. -/
theorem dequeues_moves {a a' : DequeueAt}
    (moves : LeaseMoves w.deliveries (.dequeue worker a) d' (.dequeue worker a'))
    (lease : w.deliveries.live receipt = true → w.deliveries.leaseOf worker = some receipt)
    (holds : w.deliveries.holds receipt = true)
    (own : (LeaseCall.dequeue worker a).findsOwn w.deliveries = true)
    (was : a = .start ∨ a = .found ⟨worker, receipt⟩ ∨ w.deliveries.deleted = true) :
    a' = .start ∨ a' = .found ⟨worker, receipt⟩ ∨ d'.deleted = true := by
  cases gone : w.deliveries.deleted with
  | true =>
    right; right
    cases moves with
    | delete => exact Bool.or_eq_true_iff.mpr (.inl gone)
    | _ => exact gone
  | false =>
    have live := live_iff.mpr ⟨holds, gone⟩
    have lease := lease live
    cases moves with
    | empty _ none =>
      have mem := leaseOf_mem lease
      rw [List.head?_eq_none_iff.mp none] at mem
      cases mem
    | first _ item head =>
      have holder : w.deliveries.holder worker = true := by
        simpa [Deliveries.holder, lease] using live
      have named : item.workerId = worker := by
        simpa [LeaseCall.findsOwn, head, holder] using own
      have read := leaseOf_head head
      rw [named, lease] at read
      obtain rfl := Option.some.inj read
      subst named
      exact .inr (.inl rfl)
    | delete _ item =>
      rcases was with is | is | is
      · cases is
      · cases is
        exact .inr (.inr (Bool.or_eq_true_iff.mpr (.inr live)))
      · cases is.symm.trans gone
    | remove _ item =>
      rcases was with is | is | is
      · cases is
      · cases is
      · cases is.symm.trans gone

theorem owned_go (inv : w.Tracked) (hj : w.calls[j]? = some call)
    (moves : LeaseMoves w.deliveries call d' call')
    (own : call.findsOwn w.deliveries = true) (owned : before.Owned worker receipt i w) :
    before.Owned worker receipt i ⟨d', w.calls.set j call'⟩ := by
  obtain ⟨s, n, owner⟩ := owned.owner
  have bound := inv.bounded worker receipt ⟨i, _, owner, rfl⟩
  have lease := inv.held i _ worker receipt owner rfl
  refine ⟨⟨s, n, ?_⟩, fun k s a hk since live => ?_, fun k other s ne hk holds => ?_,
    fun k a hk since holds => ?_⟩
  · have ne : j ≠ i := by
      rintro rfl
      cases hj.symm.trans owner
      cases moves
    exact (List.getElem?_set_ne ne).trans owner
  · have was := live_back moves bound live
    rcases set_cases hk with ⟨rfl, rfl⟩ | ⟨-, old⟩
    · obtain ⟨b, rfl⟩ : ∃ b, call = .heartbeat worker s b := by cases moves <;> exact ⟨_, rfl⟩
      exact beats_moves moves (lease was) was (owned.beats k s b hj since was)
    · exact owned.beats k s a old since was
  · have held := holds_back moves bound holds
    rcases set_cases hk with ⟨rfl, rfl⟩ | ⟨-, old⟩
    · exact absurd (extends_owner inv owner held hj moves) ne
    · exact owned.others k other s ne old held
  · have held := holds_back moves bound holds
    rcases set_cases hk with ⟨rfl, rfl⟩ | ⟨-, old⟩
    · obtain ⟨b, rfl⟩ : ∃ b, call = .dequeue worker b := by cases moves <;> exact ⟨_, rfl⟩
      exact dequeues_moves moves lease held own (owned.dequeues k b hj since held)
    · refine (owned.dequeues k a old since held).imp id (.imp id fun gone => ?_)
      cases there : d'.deleted with
      | true => rfl
      | false => cases gone.symm.trans (deleted_back moves there)

theorem owned_step {action : LeaseAction} (h : w.step action = some w')
    (ok : keepsLeases w action) (inv : w.Tracked) (owned : before.Owned worker receipt i w) :
    before.Owned worker receipt i w' := by
  cases lease_happens h with
  | begins call fresh => exact owned_begin owned fresh
  | goes hj moves => exact owned_go inv hj moves (ok _ hj).2 owned
  | tick elapsed =>
    refine ⟨owned.owner, fun k s a hk since live => ?_, fun k other s ne hk holds => ?_,
      fun k a hk since holds => ?_⟩
    · obtain ⟨holds, there⟩ := live_iff.mp live
      exact owned.beats k s a hk since (live_iff.mpr ⟨holds_tick holds, there⟩)
    · exact owned.others k other s ne hk (holds_tick holds)
    · exact owned.dequeues k a hk since (holds_tick holds)

end LeaseLemmas

open LeaseLemmas

/-- The owner of a message: however the queue and table calls of claims, heartbeats and dequeues
are interleaved, as long as no lease item whose receipt works is deleted or replaced and
dequeues find the items of their callers, from the moment when a claim has returned and until
its visibility timeout lapses, heartbeats that its worker begins return `True` until a dequeue of
that worker itself has deleted the message, no heartbeat of another worker returns `True`, and
where the worker begins a dequeue that gets to its end the message is deleted. -/
theorem claims_keep_owner {now : Int} {before w : LeaseWorld}
    (h : Reaches LeaseWorld.step keepsLeases (.init now) before)
    {worker : String} {s : Rat} {receipt attempts i : Nat}
    (claimed : before.calls[i]? = some (.claim worker s (.claimed receipt attempts)))
    (since : Reaches LeaseWorld.step keepsLeases before w)
    (holds : w.deliveries.holds receipt = true) :
    (∀ (k : Nat) s extended,
      (∀ s a, before.calls[k]? = some (.heartbeat worker s a) → a = .start) →
      w.calls[k]? = some (.heartbeat worker s (.returned extended)) →
      extended = true ∨ w.deliveries.deleted = true ∧ w.Dequeued worker receipt) ∧
    (∀ (k : Nat) other s, other ≠ worker →
      w.calls[k]? = some (.heartbeat other s (.returned true)) →
      before.calls[k]? = some (.heartbeat other s (.returned true))) ∧
    ∀ k : Nat, (∀ a, before.calls[k]? = some (.dequeue worker a) → a = .start) →
      w.calls[k]? = some (.dequeue worker .returned) → w.deliveries.deleted = true := by
  have start : before.Owned worker receipt i before :=
    ⟨⟨s, attempts, claimed⟩, fun k s a hk since _ => .inl (since s a hk), fun _ _ _ _ hk _ => hk,
      fun k a hk since _ => .inl (since a hk)⟩
  have owned : before.Owned worker receipt i w := since.invariant start
    fun _ _ _ reached owned ok step => owned_step step ok (tracked_reaches (h.trans reached)) owned
  obtain ⟨_, _, owner⟩ := owned.owner
  refine ⟨fun k s extended begun hk => ?_, fun k other s ne hk =>
    owned.others k other s ne hk holds, fun k begun hk => ?_⟩
  · cases there : w.deliveries.deleted with
    | true =>
      exact .inr ⟨rfl, (guarded_reaches (h.trans since)).gone i _ worker receipt owner rfl holds
        there⟩
    | false =>
      rcases owned.beats k s _ hk begun (live_iff.mpr ⟨holds, there⟩) with is | is | is <;>
        cases is
      exact .inl rfl
  · rcases owned.dequeues k _ hk begun holds with is | is | gone
    · cases is
    · cases is
    · exact gone

/-! ## A slow claimant -/

namespace Sample

def claims (worker : String) : LeaseAction := .claim worker 1

/-- A worker claims, and begins a heartbeat and a dequeue. -/
def claimedOnce : List LeaseAction :=
  claims "a" :: List.replicate 4 (.go 0) ++ [.heartbeat "a" 1, .dequeue "a"]

/-- They come to their ends. -/
def released : List LeaseAction := [.go 1, .go 1, .go 2, .go 2, .go 2]

/-- The first worker receives the message and is slow; the second one claims after it. -/
def slowClaim : List LeaseAction :=
  [claims "a", .go 0, .tick 1000000, claims "b"] ++ List.replicate 4 (.go 1) ++ [.heartbeat "b" 1]

/-- The first one goes on with the lease item of the second. -/
def wentOn : List LeaseAction := [.go 0, .go 0, .go 2]

end Sample

theorem claims_keep_owner_once : ∃ before w,
    Reaches LeaseWorld.step keepsLeases (.init 0) before ∧
    before.calls[0]? = some (.claim "a" 1 (.claimed 1 1)) ∧
    Reaches LeaseWorld.step keepsLeases before w ∧
    w.calls[1]? = some (.heartbeat "a" 1 (.returned true)) ∧
    w.calls[2]? = some (.dequeue "a" .returned) ∧ w.deliveries.deleted = true := by
  obtain ⟨before, h, claimed, begun, rest⟩ := run_exists LeaseWorld.step keepsLeases (.init 0)
    Sample.claimedOnce (fun before => before.calls[0]? = some (.claim "a" 1 (.claimed 1 1)) ∧
      before.calls[2]? = some (.dequeue "a" .start) ∧
      (run LeaseWorld.step keepsLeases before Sample.released).any (fun w =>
        w.deliveries.holds 1 = true ∧ w.calls[1]? = some (.heartbeat "a" 1 (.returned true)) ∧
          w.calls[2]? = some (.dequeue "a" .returned)) = true)
    (by decide +kernel)
  obtain ⟨w, h', holds, beat, gone⟩ := run_exists LeaseWorld.step keepsLeases before Sample.released
    (fun w => w.deliveries.holds 1 = true ∧
      w.calls[1]? = some (.heartbeat "a" 1 (.returned true)) ∧
        w.calls[2]? = some (.dequeue "a" .returned)) rest
  have keeps := claims_keep_owner (run_reaches h) claimed (run_reaches h') holds
  refine ⟨before, w, run_reaches h, claimed, run_reaches h', beat, gone, keeps.2.2 2 ?_ gone⟩
  intro a is
  cases begun.symm.trans is
  rfl

/-- A claimant that is slow makes a heartbeat of the owner return `False`. -/
theorem owner_refused : ¬ ∀ before w,
    Reaches LeaseWorld.step (fun _ _ => True) (.init 0) before →
    before.calls[1]? = some (.claim "b" 1 (.claimed 2 1)) →
    Reaches LeaseWorld.step (fun _ _ => True) before w → w.deliveries.holds 2 = true →
    w.deliveries.deleted = false → before.calls[2]? = some (.heartbeat "b" 1 .start) →
    ∀ extended, w.calls[2]? = some (.heartbeat "b" 1 (.returned extended)) → extended = true := by
  obtain ⟨before, h, claimed, begun, rest⟩ := run_exists LeaseWorld.step (fun _ _ => True)
    (.init 0) Sample.slowClaim (fun before =>
      before.calls[1]? = some (.claim "b" 1 (.claimed 2 1)) ∧
      before.calls[2]? = some (.heartbeat "b" 1 .start) ∧
      (run LeaseWorld.step (fun _ _ => True) before Sample.wentOn).any (fun w =>
        w.deliveries.holds 2 = true ∧ w.deliveries.deleted = false ∧
          w.calls[2]? = some (.heartbeat "b" 1 (.returned false))) = true)
    (by decide +kernel)
  obtain ⟨w, h', holds, there, refused⟩ := run_exists LeaseWorld.step (fun _ _ => True) before
    Sample.wentOn (fun w => w.deliveries.holds 2 = true ∧ w.deliveries.deleted = false ∧
      w.calls[2]? = some (.heartbeat "b" 1 (.returned false))) rest
  intro extends_
  cases extends_ before w (run_reaches h) claimed (run_reaches h') holds there begun false refused

end AnchorRuntime
