import AnchorRuntime.Lib.Monitor
import AnchorRuntime.System

/-!
# The queue

Leases, apart from what workers do with them: any number of workers claim, renew, release
and delete the rows of the queue, each with its own lease length, while the clock goes on.
What a call has done is kept with its time in a trace that no call reads.

Results: `claim_row`, `heartbeat_row` and `release_row`, what a call does to the row of a
run, and `lease_exclusion`, what the answers tell a worker about the others.
-/

namespace AnchorRuntime

open Relational Machine

/-! ## What each statement does to the row of a run -/

theorem claim_row {st st' : Store} {now lease : Int} {worker : String} {locked : List Uuid}
    {claim : Claim} (h : st.claim now worker lease locked = (some claim, st')) :
    st'.runs = st.runs ∧ ∃ row, st.runQueue.find claim.runId = some row ∧
      Store.claimable now row = true ∧
      ∀ j, st'.runQueue.find j = if j = claim.runId then
        some { row with
          lockedUntil := some (now + lease), workerId := some worker,
          attempts := row.attempts + 1 }
      else st.runQueue.find j := by
  unfold Store.claim at h
  split at h
  · cases h
  · next row first =>
    cases h
    have mem := List.mem_of_mem_head? first
    rw [List.mem_insertionSort, List.mem_filter, Bool.and_eq_true] at mem
    refine ⟨rfl, row, Table.find_of_mem mem.1, mem.2.1, fun j => ?_⟩
    rw [Table.find_update]
    split
    · next same => rw [same, Table.find_of_mem mem.1, Option.map_some]
    · rfl

theorem heartbeat_row (st : Store) (now : Int) (runId : Uuid) (worker : String) (lease : Int) :
    st.heartbeat now runId worker lease = (false, st) ∨
    ∃ row st', st.heartbeat now runId worker lease = (true, st') ∧ st'.runs = st.runs ∧
      st.runQueue.find runId = some row ∧ Store.holds now worker row = true ∧
      ∀ j, st'.runQueue.find j = if j = runId then
        some { row with lockedUntil := some (now + lease) } else st.runQueue.find j := by
  unfold Store.heartbeat
  split
  · next held =>
    obtain ⟨row, found, holds⟩ := (Option.any_eq_true _ _).mp held
    refine .inr ⟨row, _, rfl, rfl, found, holds, fun j => ?_⟩
    rw [Table.find_update]
    split
    · next same => rw [same, found, Option.map_some]
    · rfl
  · exact .inl rfl

theorem release_row (st : Store) (now : Int) (runId : Uuid) (worker : String) (delay : Int) :
    (st.release now runId worker delay = st ∧
      ∀ row, st.runQueue.find runId = some row → row.workerId ≠ some worker) ∨
    (st.release now runId worker delay).runs = st.runs ∧
    ∃ row, st.runQueue.find runId = some row ∧ row.workerId = some worker ∧
      ∀ j, (st.release now runId worker delay).runQueue.find j = if j = runId then
        some { row with lockedUntil := none, workerId := none, visibleAt := now + delay }
      else st.runQueue.find j := by
  unfold Store.release
  split
  · next owned =>
    obtain ⟨row, found, owner⟩ := (Option.any_eq_true _ _).mp owned
    refine .inr ⟨rfl, row, found, of_decide_eq_true owner, fun j => ?_⟩
    rw [Table.find_update]
    split
    · next same => rw [same, found, Option.map_some]
    · rfl
  · next owned =>
    refine .inl ⟨rfl, fun row found owner => owned ?_⟩
    rw [found]
    exact decide_eq_true owner

/-- A submission queues a run that had no row in `runs`, free, or touches no row. -/
theorem submitRun_row {st st' : Store} {now : Int} {runId : Uuid} {workflow : String}
    {payload : Value} {idempotencyKey : String} {budget : Budget} {answer : RunRecord × Bool}
    (h : st.submitRun now runId workflow payload idempotencyKey budget = .ok (answer, st'))
    (j : Uuid) :
    ((st'.getRun j).isSome = (st.getRun j).isSome ∧ st'.runQueue.find j = st.runQueue.find j) ∨
      (st.getRun j = none ∧ (st'.getRun j).isSome = true ∧
        ∃ row, st'.runQueue.find j = some row ∧ row.workerId = none) := by
  have same : ∀ {a b : Store} {k : Option String} {p : Payload} {n : Option Nat},
      a.appendEvent now runId k p = .ok (n, b) → (b.getRun j).isSome = (a.getRun j).isSome ∧
        b.runQueue = a.runQueue := by
    intro a b k p n appended
    obtain ⟨standing, queue⟩ := appendEvent_standing appended j
    have some_ := congrArg Option.isSome standing
    simp only [Store.standing, Option.isSome_map] at some_
    exact ⟨some_, queue⟩
  cases submitRun_cases h with
  | existing => exact .inl ⟨rfl, rfl⟩
  | created _ hruns hrows appended =>
    obtain ⟨some_, queue⟩ := same appended
    rw [queue, some_]
    simp only [Store.getRun, find_newRun hruns, Table.find_insert hrows]
    split
    · next e =>
      subst e
      exact .inr ⟨(Table.rows_insert hruns).1, rfl, _, rfl, rfl⟩
    · exact .inl ⟨rfl, rfl⟩

/-! ## The machine -/

/-- What a call has done: a successful claim, a heartbeat that returned True, a release, a
`dequeue` that deleted the row. -/
inductive Done
  | claimed (runId : Uuid) (worker : String)
  | renewed (runId : Uuid) (worker : String)
  | released (runId : Uuid) (worker : String)
  | dequeued (runId : Uuid)
  deriving DecidableEq

structure Mark where
  done : Done
  time : Int
  deriving DecidableEq

structure Queue where
  now : Int
  store : Store
  trace : List Mark

def Queue.init (now : Int) : Queue := ⟨now, .empty, []⟩

inductive QueueCall
  | submit (runId : Uuid) (workflow : String) (payload : Value) (idempotencyKey : String)
      (budget : Budget)
  | claim (worker : String) (locked : List Uuid)
  | heartbeat (runId : Uuid) (worker : String)
  | release (runId : Uuid) (worker : String) (delay : Int)
  | dequeue (runId : Uuid)
  | tick (elapsed : Nat)

namespace Queue

def after (q : Queue) (store : Store) (done : List Done) : Queue :=
  ⟨q.now, store, q.trace ++ done.map fun d => ⟨d, q.now⟩⟩

/-- One call of one worker, who uses its own lease length, or the clock. -/
def step (lease : String → Int) (q : Queue) : QueueCall → Option Queue
  | .submit runId workflow payload idempotencyKey budget =>
    match q.store.submitRun q.now runId workflow payload idempotencyKey budget with
    | .ok (_, store) => some (q.after store [])
    | .error _ => none
  | .claim worker locked =>
    match q.store.claim q.now worker (lease worker) locked with
    | (some claim, store) => some (q.after store [.claimed claim.runId worker])
    | (none, _) => none
  | .heartbeat runId worker =>
    match q.store.heartbeat q.now runId worker (lease worker) with
    | (true, store) => some (q.after store [.renewed runId worker])
    | (false, store) => some (q.after store [])
  | .release runId worker delay =>
    some (q.after (q.store.release q.now runId worker delay) [.released runId worker])
  | .dequeue runId =>
    some (q.after (q.store.dequeue runId)
      (if (q.store.runQueue.find runId).isSome then [.dequeued runId] else []))
  | .tick elapsed => some { q with now := q.now + elapsed }

end Queue

/-! ## Holding -/

/-- The calls that give a worker the lease or prolong it. -/
def Done.grants (runId : Uuid) (worker : String) (d : Done) : Prop :=
  d = .claimed runId worker ∨ d = .renewed runId worker

/-- The worker made the most recent claim of the run and has not released it since. -/
def Holds (trace : List Mark) (runId : Uuid) (worker : String) : Prop :=
  ∃ before time since, trace = before ++ ⟨.claimed runId worker, time⟩ :: since ∧
    ∀ m ∈ since, (∀ other, m.done ≠ .claimed runId other) ∧ m.done ≠ .released runId worker

/-- The row of the run is the worker's until some time, if it is there. -/
def Secured (st : Store) (runId : Uuid) (worker : String) (until_ : Int) : Prop :=
  ∀ row, st.runQueue.find runId = some row →
    row.workerId = some worker ∧ ∃ locked, row.lockedUntil = some locked ∧ until_ ≤ locked

/-- What a grant is still good for: the worker has released it since, it has lapsed, or the
row is the worker's. -/
def Good (q : Queue) (since : List Mark) (runId : Uuid) (worker : String) (until_ : Int) : Prop :=
  (∃ m ∈ since, m.done = .released runId worker) ∨ until_ < q.now ∨
    Secured q.store runId worker until_

structure Queue.Leased (lease : String → Int) (q : Queue) : Prop where
  past : ∀ m ∈ q.trace, m.time ≤ q.now
  rows : ∀ j, (q.store.runQueue.find j).isSome = true → (q.store.getRun j).isSome = true
  known : ∀ m ∈ q.trace, ∀ j worker, m.done.grants j worker → (q.store.getRun j).isSome = true
  gone : ∀ m ∈ q.trace, ∀ j, m.done = .dequeued j →
    (q.store.getRun j).isSome = true ∧ q.store.runQueue.find j = none
  owner : ∀ j row worker, q.store.runQueue.find j = some row → row.workerId = some worker →
    Holds q.trace j worker
  good : ∀ before m since, q.trace = before ++ m :: since → ∀ j worker, m.done.grants j worker →
    Good q since j worker (m.time + lease worker)
  exclusive : ∀ before m between n since, q.trace = before ++ m :: between ++ n :: since →
    ∀ j worker other, m.done.grants j worker → n.done = .claimed j other →
    n.time ≤ m.time + lease worker → ∃ r ∈ between, r.done = .released j worker

namespace QueueLemmas

variable {lease : String → Int} {q : Queue}

theorem holds_last (trace : List Mark) (runId : Uuid) (worker : String) (time : Int) :
    Holds (trace ++ [⟨.claimed runId worker, time⟩]) runId worker :=
  ⟨trace, time, [], rfl, by simp⟩

theorem holds_keep {trace news : List Mark} {runId : Uuid} {worker : String}
    (h : Holds trace runId worker)
    (quiet : ∀ m ∈ news, (∀ other, m.done ≠ .claimed runId other) ∧
      m.done ≠ .released runId worker) : Holds (trace ++ news) runId worker := by
  obtain ⟨before, time, since, rfl, old⟩ := h
  refine ⟨before, time, since ++ news, by simp, fun n mem => ?_⟩
  rcases List.mem_append.mp mem with mem | mem
  · exact old n mem
  · exact quiet n mem

/-- What a call may do to the rows and the trace. -/
structure Grows (lease : String → Int) (q q' : Queue) (news : List Mark) : Prop where
  trace : q'.trace = q.trace ++ news
  one : news = [] ∨ ∃ done, news = [⟨done, q.now⟩]
  now : q.now ≤ q'.now
  runs : ∀ j, (q.store.getRun j).isSome = true → (q'.store.getRun j).isSome = true
  rows : ∀ j, (q'.store.runQueue.find j).isSome = true → (q'.store.getRun j).isSome = true
  absent : ∀ j, (q.store.getRun j).isSome = true → q.store.runQueue.find j = none →
    q'.store.runQueue.find j = none
  deleted : ∀ m ∈ news, ∀ j, m.done = .dequeued j →
    (q'.store.getRun j).isSome = true ∧ q'.store.runQueue.find j = none
  granted : ∀ m ∈ news, ∀ j worker, m.done.grants j worker →
    (q'.store.getRun j).isSome = true ∧ Secured q'.store j worker (q.now + lease worker)
  owner : ∀ j row worker, q'.store.runQueue.find j = some row → row.workerId = some worker →
    news = [⟨.claimed j worker, q.now⟩] ∨
    (∃ row, q.store.runQueue.find j = some row ∧ row.workerId = some worker) ∧
      ∀ m ∈ news, (∀ other, m.done ≠ .claimed j other) ∧ m.done ≠ .released j worker
  kept : ∀ j worker time, (q.store.getRun j).isSome = true → time ≤ q.now →
    Secured q.store j worker (time + lease worker) →
    (∃ m ∈ news, m.done = .released j worker) ∨
      Secured q'.store j worker (time + lease worker) ∨ time + lease worker < q.now
  lapsed : ∀ m ∈ news, ∀ j worker other until_, m.done = .claimed j other →
    Secured q.store j worker until_ → until_ < q.now

theorem leased_grow {q' : Queue} {news : List Mark} (inv : q.Leased lease)
    (g : Grows lease q q' news) : q'.Leased lease := by
  have news_time : ∀ m ∈ news, m.time = q.now := by
    intro m mem
    rcases g.one with rfl | ⟨done, rfl⟩
    · cases mem
    · rw [List.mem_singleton.mp mem]
  refine ⟨?_, g.rows, ?_, ?_, ?_, ?_, ?_⟩
  · intro m mem
    rw [g.trace, List.mem_append] at mem
    rcases mem with old | new
    · exact (inv.past m old).trans g.now
    · exact (news_time m new).le.trans g.now
  · intro m mem j worker grants
    rw [g.trace, List.mem_append] at mem
    rcases mem with old | new
    · exact g.runs j (inv.known m old j worker grants)
    · exact (g.granted m new j worker grants).1
  · intro m mem j dequeued
    rw [g.trace, List.mem_append] at mem
    rcases mem with old | new
    · obtain ⟨run, none⟩ := inv.gone m old j dequeued
      exact ⟨g.runs j run, g.absent j run none⟩
    · exact g.deleted m new j dequeued
  · intro j row worker found owner
    rw [g.trace]
    rcases g.owner j row worker found owner with rfl | ⟨⟨old, found', owner'⟩, quiet⟩
    · exact holds_last _ _ _ _
    · exact holds_keep (inv.owner j old worker found' owner') quiet
  · -- what a grant is good for: an old one by its own row, a new one because it is new
    have old : ∀ before m since, q.trace = before ++ m :: since → ∀ j worker,
        m.done.grants j worker → Good q' (since ++ news) j worker (m.time + lease worker) := by
      intro before m since split j worker grants
      have mem : m ∈ q.trace := by simp [split]
      rcases inv.good before m since split j worker grants with ⟨r, hr, released⟩ | late | secured
      · exact .inl ⟨r, List.mem_append_left _ hr, released⟩
      · exact .inr (.inl (lt_of_lt_of_le late g.now))
      · rcases g.kept j worker m.time (inv.known m mem j worker grants) (inv.past m mem) secured
          with ⟨r, hr, released⟩ | secured | late
        · exact .inl ⟨r, List.mem_append_right _ hr, released⟩
        · exact .inr (.inr secured)
        · exact .inr (.inl (lt_of_lt_of_le late g.now))
    intro before m since split j worker grants
    rw [g.trace] at split
    rcases g.one with none | ⟨done, new⟩
    · have := old before m since (by simpa [none] using split) j worker grants
      simpa [none] using this
    · rw [new] at split
      rcases Monitor.split_concat split with ⟨rfl, rfl, -⟩ | ⟨since, rfl, earlier⟩
      · exact .inr (.inr (g.granted _ (by simp [new]) j worker grants).2)
      · have := old before m since earlier j worker grants
        rwa [new] at this
  · intro before m between n since split j worker other grants claimed early
    rw [g.trace] at split
    rcases g.one with none | ⟨done, new⟩
    · exact inv.exclusive before m between n since (by simpa [none] using split) j worker other
        grants claimed early
    · rw [new] at split
      rcases Monitor.split_concat split with ⟨-, rfl, earlier⟩ | ⟨since, -, earlier⟩
      · -- the new claim: the grant before it was released, or has lapsed
        rcases inv.good before m between earlier j worker grants with released | late | secured
        · exact released
        · exact absurd (lt_of_lt_of_le late early) (lt_irrefl _)
        · have late := g.lapsed _ (by simp [new]) j worker other _ claimed secured
          exact absurd (lt_of_lt_of_le late early) (lt_irrefl _)
      · exact inv.exclusive before m between n since earlier j worker other grants claimed early

/-- A call that leaves every row alone, or puts free rows in for new runs. -/
theorem grows_quiet {q' : Queue} {news : List Mark} (inv : q.Leased lease)
    (trace : q'.trace = q.trace ++ news)
    (released : news = [] ∨ ∃ j worker, news = [⟨.released j worker, q.now⟩] ∧
      ∀ row, q.store.runQueue.find j = some row → row.workerId ≠ some worker)
    (now : q.now ≤ q'.now)
    (rows : ∀ j, ((q'.store.getRun j).isSome = (q.store.getRun j).isSome ∧
      q'.store.runQueue.find j = q.store.runQueue.find j) ∨
      (q.store.getRun j = none ∧ (q'.store.getRun j).isSome = true ∧
        ∃ row, q'.store.runQueue.find j = some row ∧ row.workerId = none)) :
    Grows lease q q' news := by
  have quiet : ∀ m ∈ news, ∃ j worker, m.done = .released j worker ∧
      ∀ row, q.store.runQueue.find j = some row → row.workerId ≠ some worker := by
    intro m mem
    rcases released with rfl | ⟨j, worker, rfl, free⟩
    · cases mem
    · exact ⟨j, worker, by rw [List.mem_singleton.mp mem], free⟩
  refine ⟨trace, ?_, now, ?_, ?_, ?_, ?_, ?_, ?_, ?_, ?_⟩
  · rcases released with rfl | ⟨j, worker, rfl, -⟩
    · exact .inl rfl
    · exact .inr ⟨_, rfl⟩
  · intro j run
    rcases rows j with ⟨same, -⟩ | ⟨-, some_, -⟩
    · rw [same]
      exact run
    · exact some_
  · intro j queued
    rcases rows j with ⟨same, queue⟩ | ⟨-, some_, -⟩
    · rw [same]
      exact inv.rows j (queue ▸ queued)
    · exact some_
  · intro j run none
    rcases rows j with ⟨-, queue⟩ | ⟨absent, -⟩
    · rw [queue]
      exact none
    · simp [absent] at run
  · intro m mem j dequeued
    obtain ⟨_, _, released, -⟩ := quiet m mem
    exact absurd (released.symm.trans dequeued) (by simp)
  · intro m mem j worker grants
    obtain ⟨_, _, released, -⟩ := quiet m mem
    rcases grants with is | is <;> exact absurd (released.symm.trans is) (by simp)
  · intro j row worker found owner
    rcases rows j with ⟨-, queue⟩ | ⟨-, -, free, found', none⟩
    · refine .inr ⟨⟨row, queue ▸ found, owner⟩, fun m mem => ?_⟩
      obtain ⟨j', worker', released, free⟩ := quiet m mem
      refine ⟨fun other is => absurd (released.symm.trans is) (by simp), fun is => ?_⟩
      cases released.symm.trans is
      exact free row (queue ▸ found) owner
    · cases found.symm.trans found'
      exact absurd (none.symm.trans owner) (by simp)
  · intro j worker time run _ secured
    rcases rows j with ⟨-, queue⟩ | ⟨absent, -⟩
    · exact .inr (.inl fun row found => secured row (queue ▸ found))
    · simp [absent] at run
  · intro m mem j worker other until_ claimed
    obtain ⟨_, _, released, -⟩ := quiet m mem
    exact absurd (released.symm.trans claimed) (by simp)

/-- A call that changes the row of one run, which is there. -/
theorem grows_row {store : Store} {done : Done} {i : Uuid} {row : QueueRow} {row' : Option QueueRow}
    (inv : q.Leased lease) (found : q.store.runQueue.find i = some row)
    (runs : store.runs = q.store.runs)
    (rows : ∀ j, store.runQueue.find j = if j = i then row' else q.store.runQueue.find j)
    (about : ∀ j worker, done.grants j worker → j = i ∧ ∃ new, row' = some new ∧
      new.workerId = some worker ∧ new.lockedUntil = some (q.now + lease worker))
    (deleted : ∀ j, done = .dequeued j → j = i ∧ row' = none)
    (released : ∀ j worker, done = .released j worker → j = i ∧ ∀ new, row' = some new →
      new.workerId = none)
    (owner : ∀ new worker, row' = some new → new.workerId = some worker →
      done = .claimed i worker ∨ (done = .renewed i worker ∧ row.workerId = some worker))
    (kept : ∀ worker time, time ≤ q.now → row.workerId = some worker →
      (∃ locked, row.lockedUntil = some locked ∧ time + lease worker ≤ locked) →
      done = .released i worker ∨ (∀ new, row' = some new → new.workerId = some worker ∧
        ∃ locked, new.lockedUntil = some locked ∧ time + lease worker ≤ locked) ∨
        time + lease worker < q.now)
    (lapsed : ∀ other locked, done = .claimed i other → row.lockedUntil = some locked →
      locked < q.now) : Grows lease q (q.after store [done]) [⟨done, q.now⟩] := by
  have here : store.runQueue.find i = row' := by rw [rows, if_pos rfl]
  have there : ∀ {j}, j ≠ i → store.runQueue.find j = q.store.runQueue.find j := fun ne => by
    rw [rows, if_neg ne]
  have run : ∀ j, store.getRun j = q.store.getRun j := fun j => by
    rw [Store.getRun, Store.getRun, runs]
  have run_i : (store.getRun i).isSome = true := by
    rw [run]
    exact inv.rows i (by rw [found]; rfl)
  simp only [Queue.after, List.map_cons, List.map_nil]
  refine ⟨rfl, .inr ⟨done, rfl⟩, le_refl _, ?_, ?_, ?_, ?_, ?_, ?_, ?_, ?_⟩
  · intro j some_
    rw [run]
    exact some_
  · intro j queued
    by_cases e : j = i
    · rw [e]
      exact run_i
    · rw [run]
      exact inv.rows j (by rw [← there e]; exact queued)
  · intro j _ none
    by_cases e : j = i
    · rw [e, found] at none
      cases none
    · exact (there e).trans none
  · intro m mem j dequeued
    rw [List.mem_singleton.mp mem] at dequeued
    obtain ⟨rfl, none⟩ := deleted j dequeued
    exact ⟨run_i, here.trans none⟩
  · intro m mem j worker grants
    rw [List.mem_singleton.mp mem] at grants
    obtain ⟨rfl, new, is, own, locked⟩ := about j worker grants
    refine ⟨run_i, fun r hr => ?_⟩
    cases (here.trans is).symm.trans hr
    exact ⟨own, _, locked, le_refl _⟩
  · intro j r worker hr own
    by_cases e : j = i
    · subst e
      rcases owner r worker (here.symm.trans hr) own with rfl | ⟨rfl, own'⟩
      · exact .inl rfl
      · refine .inr ⟨⟨row, found, own'⟩, fun m mem => ?_⟩
        rw [List.mem_singleton.mp mem]
        simp
    · refine .inr ⟨⟨r, (there e).symm.trans hr, own⟩, fun m mem => ?_⟩
      rw [List.mem_singleton.mp mem]
      refine ⟨fun other is => e (about j other (.inl is)).1, fun is => e (released j worker is).1⟩
  · intro j worker time _ past secured
    by_cases e : j = i
    · subst e
      obtain ⟨own, locked⟩ := secured row found
      rcases kept worker time past own locked with is | still | late
      · exact .inl ⟨_, List.mem_singleton_self _, is⟩
      · exact .inr (.inl fun r hr => still r (here.symm.trans hr))
      · exact .inr (.inr late)
    · exact .inr (.inl fun r hr => secured r ((there e).symm.trans hr))
  · intro m mem j worker other until_ claimed secured
    rw [List.mem_singleton.mp mem] at claimed
    obtain ⟨rfl, -⟩ := about j other (.inl claimed)
    obtain ⟨-, locked, is, le⟩ := secured row found
    exact lt_of_le_of_lt le (lapsed other locked claimed is)

/-! What each call leaves behind. -/

theorem claim_grows {store : Store} {worker : String} {locked : List Uuid} {claim : Claim}
    (inv : q.Leased lease)
    (done : q.store.claim q.now worker (lease worker) locked = (some claim, store)) :
    Grows lease q (q.after store [.claimed claim.runId worker])
      [⟨.claimed claim.runId worker, q.now⟩] := by
  obtain ⟨runs, row, found, free, rows⟩ := claim_row done
  simp only [Store.claimable, Bool.and_eq_true, Option.all_eq_true, decide_eq_true_eq] at free
  refine grows_row inv found runs rows ?_ ?_ ?_ ?_ ?_ ?_
  · rintro j w (is | is)
    · cases is
      exact ⟨rfl, _, rfl, rfl, rfl⟩
    · cases is
  · intro j is
    cases is
  · intro j w is
    cases is
  · rintro new w is own
    cases is
    cases own
    exact .inl rfl
  · rintro w time past own ⟨until_, is, le⟩
    exact .inr (.inr (lt_of_le_of_lt le (free.2 until_ is)))
  · intro other until_ _ is
    exact free.2 until_ is

/-- A heartbeat that succeeds, of the worker in the row. -/
theorem heartbeat_grows {store : Store} {runId : Uuid} {worker : String} {row : QueueRow}
    (inv : q.Leased lease) (runs : store.runs = q.store.runs)
    (found : q.store.runQueue.find runId = some row) (holds : Store.holds q.now worker row = true)
    (rows : ∀ j, store.runQueue.find j = if j = runId then
      some { row with lockedUntil := some (q.now + lease worker) } else q.store.runQueue.find j) :
    Grows lease q (q.after store [.renewed runId worker]) [⟨.renewed runId worker, q.now⟩] := by
  simp only [Store.holds, Bool.and_eq_true, decide_eq_true_eq] at holds
  refine grows_row inv found runs rows ?_ ?_ ?_ ?_ ?_ ?_
  · rintro j w (is | is)
    · cases is
    · cases is
      exact ⟨rfl, _, rfl, holds.1, rfl⟩
  · intro j is
    cases is
  · intro j w is
    cases is
  · rintro new w is own
    cases is
    cases own.symm.trans holds.1
    exact .inr ⟨rfl, own⟩
  · rintro w time past own -
    refine .inr (.inl fun new is => ?_)
    cases is
    cases own.symm.trans holds.1
    exact ⟨own, _, rfl, by omega⟩
  · intro other until_ is
    cases is

theorem release_grows (inv : q.Leased lease) (runId : Uuid) (worker : String) (delay : Int) :
    Grows lease q (q.after (q.store.release q.now runId worker delay) [.released runId worker])
      [⟨.released runId worker, q.now⟩] := by
  rcases release_row q.store q.now runId worker delay with
    ⟨same, free⟩ | ⟨runs, row, found, own, rows⟩
  · rw [same]
    exact grows_quiet inv rfl (.inr ⟨runId, worker, rfl, free⟩) (le_refl _)
      fun j => .inl ⟨rfl, rfl⟩
  · refine grows_row inv found runs rows ?_ ?_ ?_ ?_ ?_ ?_
    · rintro j w (is | is) <;> cases is
    · intro j is
      cases is
    · intro j w is
      cases is
      refine ⟨rfl, fun new is => ?_⟩
      cases is
      rfl
    · rintro new w is own'
      cases is
      cases own'
    · rintro w time - own' -
      cases own.symm.trans own'
      exact .inl rfl
    · intro other until_ is
      cases is

/-- A `dequeue` that finds no row. -/
theorem dequeue_nothing {runId : Uuid} (inv : q.Leased lease)
    (none : q.store.runQueue.find runId = none) :
    Grows lease q (q.after (q.store.dequeue runId) []) [] := by
  refine grows_quiet inv rfl (.inl rfl) (le_refl _) fun j => .inl ⟨rfl, ?_⟩
  show (q.store.runQueue.delete runId).find j = _
  rw [Table.find_delete]
  split
  · next e => rw [e, none]
  · rfl

theorem dequeue_grows {runId : Uuid} {row : QueueRow} (inv : q.Leased lease)
    (found : q.store.runQueue.find runId = some row) :
    Grows lease q (q.after (q.store.dequeue runId) [.dequeued runId])
      [⟨.dequeued runId, q.now⟩] := by
  refine grows_row inv found rfl (Table.find_delete _ runId) ?_ ?_ ?_ ?_ ?_ ?_
  · rintro j w (is | is) <;> cases is
  · intro j is
    cases is
    exact ⟨rfl, rfl⟩
  · intro j w is
    cases is
  · rintro new w is
    cases is
  · rintro w time - - -
    exact .inr (.inl fun new is => by cases is)
  · intro other until_ is
    cases is

theorem step_grows {q' : Queue} {a : QueueCall} (inv : q.Leased lease)
    (h : q.step lease a = some q') : ∃ news, Grows lease q q' news := by
  cases a with
  | tick elapsed =>
    cases h
    refine ⟨[], grows_quiet inv (by simp) (.inl rfl) ?_ fun j => .inl ⟨rfl, rfl⟩⟩
    simp
  | submit =>
    simp only [Queue.step] at h
    split at h
    · next done =>
      cases h
      exact ⟨[], grows_quiet inv rfl (.inl rfl) (le_refl _) (submitRun_row done)⟩
    · cases h
  | claim worker locked =>
    simp only [Queue.step] at h
    split at h
    · next done =>
      cases h
      exact ⟨_, claim_grows inv done⟩
    · cases h
  | heartbeat runId worker =>
    simp only [Queue.step] at h
    rcases heartbeat_row q.store q.now runId worker (lease worker) with
      same | ⟨row, store, done, runs, found, holds, rows⟩
    · rw [same] at h
      cases h
      exact ⟨[], grows_quiet inv rfl (.inl rfl) (le_refl _) fun j => .inl ⟨rfl, rfl⟩⟩
    · rw [done] at h
      cases h
      exact ⟨_, heartbeat_grows inv runs found holds rows⟩
  | release runId worker delay =>
    cases h
    exact ⟨_, release_grows inv runId worker delay⟩
  | dequeue runId =>
    simp only [Queue.step] at h
    cases found : q.store.runQueue.find runId with
    | none =>
      simp only [found, Option.isSome_none, Bool.false_eq_true, if_false] at h
      cases h
      exact ⟨_, dequeue_nothing inv found⟩
    | some row =>
      simp only [found, Option.isSome_some, if_true] at h
      cases h
      exact ⟨_, dequeue_grows inv found⟩

theorem leased_step {q' : Queue} {a : QueueCall} (inv : q.Leased lease)
    (h : q.step lease a = some q') : q'.Leased lease := by
  obtain ⟨news, grows⟩ := step_grows inv h
  exact leased_grow inv grows

theorem leased_init (now : Int) : (Queue.init now).Leased lease := by
  refine ⟨?_, ?_, ?_, ?_, ?_, ?_, ?_⟩ <;> simp [Queue.init, Store.empty]

theorem leased_reaches {now : Int}
    (h : Reaches (Queue.step lease) (fun _ _ => True) (.init now) q) :
    q.Leased lease :=
  h.invariant (leased_init now) fun _ _ _ _ inv _ step => leased_step inv step

end QueueLemmas

open QueueLemmas

/-- Lease exclusion: a heartbeat succeeds only for the worker of the most recent claim that it
has not released; after a grant nobody claims the run up to the end of the lease, unless the
worker releases it first; a claim returns a row that is visible and was not deleted; and
calls of a worker that does not hold the run change nothing. -/
theorem lease_exclusion {lease : String → Int} {now : Int} {q : Queue}
    (h : Reaches (Queue.step lease) (fun _ _ => True) (.init now) q) (runId : Uuid)
    (worker : String) :
    ((q.store.heartbeat q.now runId worker (lease worker)).1 = true →
      Holds q.trace runId worker) ∧
    (∀ before m between n since, q.trace = before ++ m :: between ++ n :: since →
      m.done.grants runId worker → (∃ other, n.done = .claimed runId other) →
      n.time ≤ m.time + lease worker → ∃ r ∈ between, r.done = .released runId worker) ∧
    (∀ locked claim store, q.store.claim q.now worker (lease worker) locked = (some claim, store) →
      (∃ row, q.store.runQueue.find claim.runId = some row ∧ row.visibleAt ≤ q.now) ∧
        ∀ m ∈ q.trace, m.done ≠ .dequeued claim.runId) ∧
    (¬ Holds q.trace runId worker →
      q.store.heartbeat q.now runId worker (lease worker) = (false, q.store) ∧
        ∀ delay, q.store.release q.now runId worker delay = q.store) := by
  have inv := leased_reaches h
  refine ⟨fun held => ?_, ?_, ?_, fun loose => ⟨?_, fun delay => ?_⟩⟩
  · rcases heartbeat_row q.store q.now runId worker (lease worker) with
      rejected | ⟨row, _, -, -, found, holds, -⟩
    · rw [rejected] at held
      cases held
    · simp only [Store.holds, Bool.and_eq_true, decide_eq_true_eq] at holds
      exact inv.owner runId row worker found holds.1
  · rintro before m between n since split grants ⟨other, claimed⟩ early
    exact inv.exclusive before m between n since split runId worker other grants claimed early
  · intro locked claim store done
    obtain ⟨-, row, found, free, -⟩ := claim_row done
    simp only [Store.claimable, Bool.and_eq_true, decide_eq_true_eq] at free
    refine ⟨⟨row, found, free.1⟩, fun m mem dequeued => ?_⟩
    rw [(inv.gone m mem claim.runId dequeued).2] at found
    cases found
  · rcases heartbeat_row q.store q.now runId worker (lease worker) with
      rejected | ⟨row, _, -, -, found, holds, -⟩
    · exact rejected
    · simp only [Store.holds, Bool.and_eq_true, decide_eq_true_eq] at holds
      exact absurd (inv.owner runId row worker found holds.1) loose
  · rcases release_row q.store q.now runId worker delay with ⟨same, -⟩ | ⟨-, row, found, own, -⟩
    · exact same
    · exact absurd (inv.owner runId row worker found own) loose

/-- A worker whose lease lapses, another that takes the run over, and the first again. -/
def Sample.takeover : List QueueCall :=
  [.submit runId "w" .none "request" ⟨none, none, none, none, none⟩, .claim "a" [], .tick 10,
    .heartbeat runId "a", .tick 31, .claim "b" [], .heartbeat runId "a"]

/-- There the first worker holds the run no longer, and its heartbeat is rejected. -/
theorem lease_exclusion_takeover : ∃ q,
    Machine.run (Queue.step fun _ => 30) (fun _ _ => True) (.init 0) Sample.takeover = some q ∧
    q.trace = [⟨.claimed Sample.runId "a", 0⟩, ⟨.renewed Sample.runId "a", 10⟩,
      ⟨.claimed Sample.runId "b", 41⟩] ∧
    (q.store.heartbeat q.now Sample.runId "a" 30).1 = false ∧
    ((q.store.heartbeat q.now Sample.runId "b" 30).1 = true → Holds q.trace Sample.runId "b") := by
  obtain ⟨q, h, trace, rejected⟩ := run_exists (Queue.step fun _ => 30) (fun _ _ => True) (.init 0)
    Sample.takeover (fun q => q.trace = [⟨.claimed Sample.runId "a", 0⟩,
      ⟨.renewed Sample.runId "a", 10⟩, ⟨.claimed Sample.runId "b", 41⟩] ∧
      (q.store.heartbeat q.now Sample.runId "a" 30).1 = false) (by decide)
  exact ⟨q, h, trace, rejected, (lease_exclusion (run_reaches h) Sample.runId "b").1⟩

end AnchorRuntime
