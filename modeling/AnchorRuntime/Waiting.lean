import AnchorRuntime.Guards
import AnchorRuntime.Lib.Fragment

/-!
# Waiting

How long a run waits that nobody works on: its attempts have stopped, its lease has lapsed, and it
is due. Claims draw the run that has been due for longest, so what is ahead of it are the runs due
before; each is drawn at most once before the leases of these claims lapse, and none joins them.

Results: `waiting_is_bounded`, within the length of a lease there are no more claims than there are
runs ahead of it until it is claimed.
-/

namespace AnchorRuntime

open Effect Machine Relational

/-- The row can be drawn before another that has been due since `due`, and before `horizon`. -/
def QueueRow.precedes (due horizon : Int) (q : QueueRow) : Bool :=
  q.visibleAt ≤ due && q.lockedUntil.all (· < horizon)

/-- How many runs are ahead of run `j`. -/
def Store.ahead (st : Store) (j : Uuid) (due horizon : Int) : Nat :=
  st.runQueue.rows.countP fun q => q.runId ≠ j && q.precedes due horizon

/-- How many claims have drawn a run. -/
def World.claimsMade (w : World) : Nat := w.procs.countP (·.loc.worker.isSome)

/-- No other transaction holds the row of run `j` when a worker claims, nobody executes the run
without a claim, and the leases of the claims made have not lapsed. -/
def offered (j : Uuid) (horizon : Int) (w : World) : Action → Prop
  | .claim _ locked => w.now ≤ horizon ∧ j ∉ locked
  | .execute i => w.now ≤ horizon ∧ i ≠ j
  | _ => w.now ≤ horizon

instance (j : Uuid) (horizon : Int) (w : World) (a : Action) : Decidable (offered j horizon w a) :=
  match a with
  | .claim _ _ | .execute _ => inferInstanceAs (Decidable (_ ∧ _))
  | .submit _ _ _ _ _ | .cancel _ | .tick _ | .beat _ _ | .main _ _ | .task _ _ _ _
  | .call _ _ _ _ | .stop _ => inferInstanceAs (Decidable (w.now ≤ horizon))

/-- Nobody works on run `j`, and it is due since `due`. -/
structure World.Waits (w : World) (j : Uuid) (row : QueueRow) : Prop where
  queued : w.store.runQueue.find j = some row
  due : row.visibleAt < w.now
  free : row.lockedUntil.all (· < w.now) = true
  stopped : ∀ proc ∈ w.procs, proc.loc.runId = j → proc.stopped = true

namespace WaitingLemmas

variable {cfg : Config} {now : Int} {st st' : Store} {loc loc' : Local} {ans : Answer}
  {w w' : World} {a : Action} {p : Nat} {proc new : Proc} {i j : Uuid} {row : QueueRow}
  {due horizon : Int}

/-! ## Who is ahead -/

/-- A statement on the row of another run that does not move it ahead. -/
theorem ahead_update {f : QueueRow → QueueRow} {same : ∀ q, (f q).runId = q.runId}
    (back : ∀ q, (f q).precedes due horizon = false) :
    Store.ahead { st with runQueue := st.runQueue.update i f same } j due horizon ≤
      st.ahead j due horizon := by
  refine Table.countP_update_le f same fun q _ counts => ?_
  simp [back] at counts

/-- A statement on the row of a run ahead that moves it back. -/
theorem ahead_drawn {f : QueueRow → QueueRow} {same : ∀ q, (f q).runId = q.runId} {q : QueueRow}
    (there : st.runQueue.find i = some q) (apart : i ≠ j) (before : q.precedes due horizon = true)
    (back : ∀ q, (f q).precedes due horizon = false) :
    Store.ahead { st with runQueue := st.runQueue.update i f same } j due horizon + 1 ≤
      st.ahead j due horizon := by
  refine Table.countP_update_lt f same there ?_ fun q _ => ?_
  · have name : q.runId = i := Table.find_some_key there
    simp [name, apart, before]
  · simp [back]

theorem ahead_heartbeat {worker : String} {lease : Int} (late : horizon ≤ now + lease) :
    (st.heartbeat now i worker lease).2.ahead j due horizon ≤ st.ahead j due horizon := by
  unfold Store.heartbeat
  split
  · refine ahead_update fun q => ?_
    simp only [QueueRow.precedes, Option.all_some, Bool.and_eq_false_imp, decide_eq_false_iff_not]
    omega
  · exact le_rfl

theorem ahead_release {worker : String} {delay : Int} (later : due < now + delay) :
    (st.release now i worker delay).ahead j due horizon ≤ st.ahead j due horizon := by
  unfold Store.release
  split
  · refine ahead_update fun q => ?_
    simp only [QueueRow.precedes, Bool.and_eq_false_imp, decide_eq_true_eq]
    omega
  · exact le_rfl

/-- No operation of another run's attempt gets ahead. -/
theorem ahead_exec {o : Op} {r : Ans o} (run : exec cfg now st loc ans o = some (r, st', loc'))
    (apart : loc.runId ≠ j) (late : horizon ≤ now + cfg.leaseSeconds)
    (later : due < now + cfg.pollIntervalSeconds) :
    st'.ahead j due horizon ≤ st.ahead j due horizon ∧
      st'.runQueue.find j = st.runQueue.find j := by
  have still : ∀ {s : Store}, s.runQueue = st.runQueue → s.ahead j due horizon ≤
      st.ahead j due horizon ∧ s.runQueue.find j = st.runQueue.find j := by
    intro s same
    unfold Store.ahead
    rw [same]
    exact ⟨le_rfl, rfl⟩
  rcases exec_store run with ⟨rfl, -⟩ | wrote
  · exact ⟨le_rfl, rfl⟩
  · cases wrote with
    | appendEvent ok => exact still (appendEvent_standing ok j).2
    | setStatus ok => exact still (setStatus_standing ok j).2
    | bumpAttempt | saveUsage => exact still rfl
    | heartbeat =>
      refine ⟨ahead_heartbeat late, ?_⟩
      unfold Store.heartbeat
      split
      · rw [Table.find_update_ne _ _ _ (Ne.symm apart)]
      · rfl
    | release =>
      refine ⟨ahead_release later, ?_⟩
      unfold Store.release
      split
      · rw [Table.find_update_ne _ _ _ (Ne.symm apart)]
      · rfl
    | dequeue =>
      refine ⟨Table.countP_delete_le, ?_⟩
      rw [Store.dequeue, Table.find_delete, if_neg (Ne.symm apart)]

/-- The run is drawn, or one that was ahead of it and no longer is. -/
theorem ahead_claim {worker : String} {lease : Int} {locked : List Uuid} {claim : Claim}
    (run : st.claim now worker lease locked = (some claim, st'))
    (queued : st.runQueue.find j = some row) (due : row.visibleAt ≤ now)
    (free : row.lockedUntil.all (· < now) = true) (unlocked : j ∉ locked)
    (early : now ≤ horizon) (late : horizon ≤ now + lease) : claim.runId = j ∨
      st'.ahead j row.visibleAt horizon + 1 ≤ st.ahead j row.visibleAt horizon ∧
        st'.runQueue.find j = st.runQueue.find j := by
  unfold Store.claim at run
  split at run
  · cases run
  · next q first =>
    cases run
    by_cases drawn : q.runId = j
    · exact .inl drawn
    refine .inr ⟨?_, by rw [Table.find_update_ne _ _ _ (Ne.symm drawn)]⟩
    -- the run itself could be drawn, so what is drawn is due no later
    have mine : row ∈ (st.runQueue.rows.filter fun q =>
        Store.claimable now q && !locked.contains q.runId).insertionSort
          fun a b => a.visibleAt ≤ b.visibleAt := by
      rw [List.mem_insertionSort, List.mem_filter]
      refine ⟨Table.find_mem queued, ?_⟩
      have name : row.runId = j := Table.find_some_key queued
      simp [Store.claimable, due, free, name, unlocked]
    obtain ⟨rest, sorted⟩ := List.head?_eq_some_iff.mp first
    have order := List.pairwise_insertionSort (fun a b : QueueRow => a.visibleAt ≤ b.visibleAt)
      (st.runQueue.rows.filter fun q => Store.claimable now q && !locked.contains q.runId)
    rw [sorted] at mine order
    have sooner : q.visibleAt ≤ row.visibleAt := by
      rcases List.mem_cons.mp mine with rfl | later
      · exact le_rfl
      · exact List.rel_of_pairwise_cons order later
    have there := List.mem_of_head? first
    rw [List.mem_insertionSort, List.mem_filter] at there
    obtain ⟨there, open_⟩ := there
    have claimable := (Bool.and_eq_true_iff.mp open_).1
    simp only [Store.claimable, Bool.and_eq_true] at claimable
    refine ahead_drawn (Table.find_of_mem there) drawn ?_ fun x => ?_
    · have locks : q.lockedUntil.all (· < horizon) = true := by
        cases until_ : q.lockedUntil with
        | none => rfl
        | some e =>
          have lapsed := claimable.2
          rw [until_] at lapsed
          simp only [Option.all_some, decide_eq_true_eq] at lapsed ⊢
          omega
      simp [QueueRow.precedes, sooner, locks]
    · simp only [QueueRow.precedes, Option.all_some, Bool.and_eq_false_imp,
        decide_eq_false_iff_not]
      omega

theorem ahead_submit {workflow idempotencyKey : String} {payload : Value} {budget : Budget}
    {answer : RunRecord × Bool}
    (run : st.submitRun now i workflow payload idempotencyKey budget = .ok (answer, st'))
    (queued : st.runQueue.find j = some row) (later : due < now) :
    st'.ahead j due horizon = st.ahead j due horizon ∧ st'.runQueue.find j = some row := by
  cases submitRun_cases run with
  | existing => exact ⟨rfl, queued⟩
  | created _ _ hqueue appended =>
    unfold Store.ahead
    rw [(appendEvent_standing appended j).2]
    refine ⟨Table.countP_insert ?_ hqueue, ?_⟩
    · simp [QueueRow.precedes, later]
    · rw [Table.find_insert hqueue]
      split
      · next same =>
        subst same
        rw [(Table.rows_insert hqueue).1] at queued
        cases queued
      · exact queued

/-! ## The system -/

theorem claimsMade_set (hp : w.procs[p]? = some proc) (worker : new.loc.worker = proc.loc.worker)
    (procs : w'.procs = w.procs.set p new) : w'.claimsMade = w.claimsMade := by
  have names : w'.procs.map (·.loc.worker) = w.procs.map (·.loc.worker) := by
    have there : (w.procs.map (·.loc.worker))[p]? = some proc.loc.worker := by
      rw [List.getElem?_map, hp]
      rfl
    obtain ⟨bound, at_⟩ := List.getElem?_eq_some_iff.mp there
    rw [procs, List.map_set, worker, ← at_]
    exact List.set_getElem_self bound
  have counts : ∀ l : List Proc, l.countP (·.loc.worker.isSome) =
      (l.map (·.loc.worker)).countP (·.isSome) := fun l => by
    rw [List.countP_map]
    rfl
  rw [World.claimsMade, World.claimsMade, counts, counts, names]

/-- The run still waits, and no more claims have been made than runs were ahead. -/
def Bounded (w w' : World) (j : Uuid) (row : QueueRow) (horizon : Int) : Prop :=
  w'.Waits j row ∧ w'.claimsMade + w'.store.ahead j row.visibleAt horizon ≤
    w.claimsMade + w.store.ahead j row.visibleAt horizon

/-- An attempt of another run, or one of the run that has stopped, moves. -/
theorem bounded_set (waits : w.Waits j row) (hp : w.procs[p]? = some proc)
    (runId : new.loc.runId = proc.loc.runId) (worker : new.loc.worker = proc.loc.worker)
    (procs : w'.procs = w.procs.set p new) (now : w'.now = w.now)
    (stops : new.loc.runId = j → new.stopped = true)
    (ahead : w'.store.ahead j row.visibleAt horizon ≤ w.store.ahead j row.visibleAt horizon)
    (queued : w'.store.runQueue.find j = w.store.runQueue.find j) :
    Bounded w w' j row horizon := by
  refine ⟨⟨queued.trans waits.queued, now ▸ waits.due, now ▸ waits.free, ?_⟩, ?_⟩
  · intro other mem own
    rw [procs] at mem
    rcases List.mem_or_eq_of_mem_set mem with old | rfl
    · exact waits.stopped other old own
    · exact stops own
  · rw [claimsMade_set hp worker procs]
    omega

/-- A lease that has lapsed stays so. -/
theorem bounded_tick (waits : w.Waits j row) (elapsed : Nat) :
    Bounded w { w with now := w.now + elapsed } j row horizon := by
  refine ⟨⟨waits.queued, ?_, ?_, waits.stopped⟩, le_rfl⟩
  · have := waits.due
    simp only
    omega
  · have free := waits.free
    cases until_ : row.lockedUntil with
    | none => rfl
    | some e =>
      rw [until_] at free
      simp only [Option.all_some, decide_eq_true_eq] at free ⊢
      omega

/-- A claim draws the run, or one that was ahead of it. -/
theorem bounded_claim {worker : String} {locked : List Uuid} {claim : Claim} {store : Store}
    (waits : w.Waits j row)
    (done : w.store.claim w.now worker cfg.leaseSeconds locked = (some claim, store))
    (unlocked : j ∉ locked) (early : w.now ≤ horizon) (late : horizon ≤ w.now + cfg.leaseSeconds) :
    let w' : World := { w with store, procs := w.procs ++ [.claimed cfg worker claim.runId] }
    (w.claims j).length < (w'.claims j).length ∨ Bounded w w' j row horizon := by
  intro w'
  have claims : w'.claims j = _ := GuardLemmas.claims_claimed rfl j
  by_cases own : claim.runId = j
  · refine .inl ?_
    rw [claims, if_pos own.symm, List.length_append]
    simp
  · obtain ⟨ahead, queued⟩ := (ahead_claim done waits.queued waits.due.le waits.free unlocked early
      late).resolve_left own
    refine .inr ⟨⟨queued.trans waits.queued, waits.due, waits.free, fun proc mem mine => ?_⟩, ?_⟩
    · rcases List.mem_append.mp mem with old | new
      · exact waits.stopped proc old mine
      · obtain rfl := List.mem_singleton.mp new
        exact absurd mine own
    · have one : [Proc.claimed cfg worker claim.runId].countP (·.loc.worker.isSome) = 1 := rfl
      rw [World.claimsMade, World.claimsMade, List.countP_append, one]
      show _ + 1 + store.ahead j row.visibleAt horizon ≤ _
      omega

theorem bounded_step (h : w.step cfg a = some w') (ok : offered j horizon w a)
    (waits : w.Waits j row) (late : horizon ≤ w.now + cfg.leaseSeconds)
    (delay : 0 ≤ cfg.pollIntervalSeconds) :
    (w.claims j).length < (w'.claims j).length ∨ Bounded w w' j row horizon := by
  have later : row.visibleAt < w.now + cfg.pollIntervalSeconds := by
    have := waits.due
    omega
  -- the attempts of the run have stopped, so the one that acts is of another run
  have apart : ∀ {p : Nat} {proc : Proc}, w.procs[p]? = some proc → proc.stopped = false →
      proc.loc.runId ≠ j := fun hp alive own => by
    rw [waits.stopped _ (List.mem_of_getElem? hp) own] at alive
    cases alive
  cases step_happens h with
  | submit done =>
    obtain ⟨ahead, queued⟩ := ahead_submit done waits.queued waits.due
    exact .inr ⟨⟨queued, waits.due, waits.free, waits.stopped⟩, by rw [ahead]; rfl⟩
  | cancel done =>
    have queue := (requestCancel_standing done j).2
    refine .inr ⟨⟨?_, waits.due, waits.free, waits.stopped⟩, ?_⟩
    · rw [queue]
      exact waits.queued
    · unfold Store.ahead
      rw [queue]
      rfl
  | tick => exact .inr (bounded_tick waits _)
  | execute =>
    refine .inr ⟨⟨waits.queued, waits.due, waits.free, fun proc mem own => ?_⟩, ?_⟩
    · rcases List.mem_append.mp mem with old | new
      · exact waits.stopped proc old own
      · obtain rfl := List.mem_singleton.mp new
        exact absurd own ok.2
    · rw [World.claimsMade, List.countP_append]
      rfl
  | claim done => exact bounded_claim waits done ok.2 ok.1 late
  | beat _ hp alive _ store =>
    refine .inr (bounded_set waits hp (by rfl) (by rfl) rfl rfl
      (fun own => (apart hp alive own).elim) ?_ ?_)
    · rcases store with rfl | rfl
      · exact le_rfl
      · exact ahead_heartbeat late
    · rcases store with rfl | rfl
      · rfl
      · unfold Store.heartbeat
        split
        · rw [Table.find_update_ne _ _ _ (Ne.symm (apart hp alive))]
        · rfl
  | main hp alive _ run =>
    obtain ⟨runId, worker, -⟩ := exec_ctx run
    obtain ⟨ahead, queued⟩ := ahead_exec run (apart hp alive) late later
    exact .inr (bounded_set waits hp runId worker rfl rfl
      (fun own => absurd (runId.symm.trans own) (apart hp alive)) ahead queued)
  | task hp alive _ _ _ run =>
    obtain ⟨runId, worker, -⟩ := exec_ctx run
    obtain ⟨ahead, queued⟩ := ahead_exec run (apart hp alive) late later
    exact .inr (bounded_set waits hp runId worker rfl rfl
      (fun own => absurd (runId.symm.trans own) (apart hp alive)) ahead queued)
  | refused hp alive | call hp alive =>
    exact .inr (bounded_set waits hp (by rfl) (by rfl) rfl rfl
      (fun own => (apart hp alive own).elim) le_rfl rfl)
  | stop hp => exact .inr (bounded_set waits hp (by rfl) (by rfl) rfl rfl (fun _ => rfl) le_rfl rfl)

/-- Claims are never taken back. -/
theorem claims_kept (h : w.step cfg a = some w') (j : Uuid) :
    (w.claims j).length ≤ (w'.claims j).length := by
  cases step_happens h with
  | submit | cancel | tick => exact le_rfl
  | execute => exact (congrArg List.length (GuardLemmas.claims_executed rfl j)).ge
  | @claim worker _ claim store =>
    have claims : World.claims { w with
        store, procs := w.procs ++ [.claimed cfg worker claim.runId] } j = _ :=
      GuardLemmas.claims_claimed rfl j
    rw [claims]
    split
    · simp
    · exact le_rfl
  | beat _ hp | refused hp | call hp | stop hp =>
    exact (congrArg List.length (GuardLemmas.claims_set hp (by rfl) (by rfl) rfl j)).ge
  | main hp _ _ run | task hp _ _ _ _ run =>
    obtain ⟨runId, worker, -⟩ := exec_ctx run
    exact (congrArg List.length (GuardLemmas.claims_set hp runId worker rfl j)).ge

theorem now_kept (h : w.step cfg a = some w') : w.now ≤ w'.now := by
  cases step_happens h with
  | tick => simp
  | _ => exact le_rfl

/-- As long as the run waits, a claim draws something. -/
theorem claim_succeeds (waits : w.Waits j row) (worker : String) :
    (w.step cfg (.claim worker [])).isSome = true := by
  have mine : row ∈ (w.store.runQueue.rows.filter fun q =>
      Store.claimable w.now q && !([] : List Uuid).contains q.runId).insertionSort
        fun a b => a.visibleAt ≤ b.visibleAt := by
    rw [List.mem_insertionSort, List.mem_filter]
    refine ⟨Table.find_mem waits.queued, ?_⟩
    simp [Store.claimable, waits.due.le, waits.free]
  obtain ⟨q, rest, sorted⟩ := List.exists_cons_of_ne_nil (List.ne_nil_of_mem mine)
  simp only [World.step, Store.claim, sorted, List.head?_cons, Option.isSome_some]

end WaitingLemmas

open WaitingLemmas

/-- A run that nobody works on waits for the runs that are ahead of it and no others: until it is
claimed, and as long as the leases of the claims made meanwhile last, there are no more claims than
there were runs ahead, whatever else happens; and no worker that asks for work gets none. -/
theorem waiting_is_bounded {cfg : Config} {w w' : World} {j : Uuid} {row : QueueRow}
    (waits : w.Waits j row) (delay : 0 ≤ cfg.pollIntervalSeconds)
    (h : Reaches (World.step cfg) (offered j (w.now + cfg.leaseSeconds)) w w') :
    (w.claims j).length < (w'.claims j).length ∨
      w'.claimsMade ≤ w.claimsMade + w.store.ahead j row.visibleAt (w.now + cfg.leaseSeconds) ∧
      ∀ worker, (w'.step cfg (.claim worker [])).isSome = true := by
  have inv := h.invariant (I := fun v => w.now ≤ v.now ∧
      ((w.claims j).length < (v.claims j).length ∨ (w.claims j).length ≤ (v.claims j).length ∧
        Bounded w v j row (w.now + cfg.leaseSeconds))) ⟨le_rfl, .inr ⟨le_rfl, waits, le_rfl⟩⟩ ?_
  swap
  · intro t a u _ inv ok step
    obtain ⟨since, claimed | ⟨kept, waits, few⟩⟩ := inv
    · exact ⟨since.trans (now_kept step), .inl (claimed.trans_le (claims_kept step j))⟩
    · refine ⟨since.trans (now_kept step), ?_⟩
      rcases bounded_step step ok waits (by omega) delay with claimed | ⟨waits', fewer⟩
      · exact .inl (kept.trans_lt claimed)
      · exact .inr ⟨kept.trans (claims_kept step j), waits', fewer.trans few⟩
  obtain ⟨-, claimed | ⟨-, waits, few⟩⟩ := inv
  · exact .inl claimed
  · refine .inr ⟨?_, claim_succeeds waits⟩
    exact (Nat.le_add_right ..).trans few

/-- Two runs are due. -/
def Sample.twoDue : List Action :=
  [submitted, .tick 1, .submit ⟨8⟩ "w" .none "other" ⟨none, none, none, none, none⟩, .tick 1]

/-- A worker draws the one that has been due for longer, and crashes. -/
def Sample.drawn : List Action := [.claim "a" []] ++ proceed 0 3 ++ [.stop 0, .tick 20000000]

theorem waiting_is_bounded_drawn : ∃ w w' row,
    run (World.step Sample.cfg) (fun _ _ => True) (.init 0) Sample.twoDue = some w ∧
    w.store.runQueue.find ⟨8⟩ = some row ∧ row.visibleAt = 1 ∧
    run (World.step Sample.cfg) (offered ⟨8⟩ (w.now + Sample.cfg.leaseSeconds)) w Sample.drawn =
      some w' ∧
    ((w.claims ⟨8⟩).length < (w'.claims ⟨8⟩).length ∨
      w'.claimsMade ≤
        w.claimsMade + w.store.ahead ⟨8⟩ row.visibleAt (w.now + Sample.cfg.leaseSeconds) ∧
      ∀ worker, (w'.step Sample.cfg (.claim worker [])).isSome = true) := by
  obtain ⟨w, ran, queued, alone, rest⟩ := run_exists (World.step Sample.cfg) (fun _ _ => True)
    (.init 0) Sample.twoDue (fun w => ((w.store.runQueue.find ⟨8⟩).any fun row =>
      row.visibleAt = 1 && row.lockedUntil.isNone && decide (w.now = 2)) = true ∧
      w.procs.length = 0 ∧ (run (World.step Sample.cfg)
        (offered ⟨8⟩ (w.now + Sample.cfg.leaseSeconds)) w Sample.drawn).isSome = true)
    (by decide +kernel)
  obtain ⟨row, found, is⟩ := (Option.any_eq_true _ _).mp queued
  simp only [Bool.and_eq_true, decide_eq_true_eq, Option.isNone_iff_eq_none] at is
  obtain ⟨⟨due, free⟩, now⟩ := is
  obtain ⟨w', ran'⟩ := Option.isSome_iff_exists.mp rest
  have waits : w.Waits ⟨8⟩ row := by
    refine ⟨found, by omega, by rw [free]; rfl, fun proc mem => ?_⟩
    rw [List.length_eq_zero_iff.mp alone] at mem
    cases mem
  exact ⟨w, w', row, ran, found, due, ran',
    waiting_is_bounded waits (by decide) (run_reaches ran')⟩

end AnchorRuntime
