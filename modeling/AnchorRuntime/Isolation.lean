import AnchorRuntime.Actors
import AnchorRuntime.Lib.Fragment

/-!
# Isolation

Runs share the tables, the queue, the workers and the clock, and nothing else. What the tables hold
of one run, with its attempts, is a fragment of the world. Every action on the run is an action on
the fragment; an action on another run leaves the fragment as it is. Statements and queue scans run
on tables that hold all runs, so this has to be shown statement by statement.

Results: `runs_isolated`, what has happened to a run in the midst of others also happens when it is
the only one.
-/

namespace AnchorRuntime

open Effect Relational Machine Fragment ProcLemmas

/-! ## The fragment of a run -/

/-- The rows of a run. -/
def Store.only (j : Uuid) (st : Store) : Store :=
  ⟨st.runs.only (· = j), st.events.only (·.1 = j), st.runQueue.only (· = j)⟩

/-- Whether an attempt is of the run. -/
def Proc.isOf (j : Uuid) (proc : Proc) : Bool := proc.loc.runId = j

/-- The number of an attempt among those of the run. -/
def World.rank (w : World) (j : Uuid) (p : Nat) : Nat := Fragment.rank (Proc.isOf j) w.procs p

/-- What a run has of the world. -/
def World.only (j : Uuid) (w : World) : World where
  now := w.now
  store := w.store.only j
  procs := w.procs.filter (Proc.isOf j)
  moments := (w.moments.filter (·.runId = j)).map fun m => { m with proc := w.rank j m.proc }

/-- The actions that name a run name this one. -/
def concerning (j : Uuid) (_ : World) : Action → Prop
  | .submit runId _ _ _ _ | .cancel runId | .execute runId => runId = j
  | _ => True

/-- Moments are of the run of their attempt. -/
def World.Attributed (w : World) : Prop :=
  ∀ m ∈ w.moments, ∃ proc, w.procs[m.proc]? = some proc ∧ proc.loc.runId = m.runId

namespace IsolationLemmas

variable {cfg : Config} {st st' : Store} {now : Int} {i j : Uuid} {loc loc' : Local} {ans : Answer}

/-! ## Statements on the run -/

@[simp] theorem getRun_only : (st.only j).getRun j = st.getRun j := Table.find_only (by simp)

@[simp] theorem find_queue : (st.only j).runQueue.find j = st.runQueue.find j :=
  Table.find_only (by simp)

@[simp] theorem loadEvents_only : (st.only j).loadEvents j = st.loadEvents j := by
  have rows : ((st.only j).events.rows.filter fun r => r.runId = j) =
      st.events.rows.filter fun r => r.runId = j := by
    show List.filter _ (List.filter _ st.events.rows) = _
    rw [List.filter_filter]
    exact List.filter_congr fun r _ => Bool.and_self (decide (r.runId = j))
  unfold Store.loadEvents
  rw [rows]

theorem runs_only (f : RunRecord → RunRecord) (same : ∀ r, (f r).runId = r.runId) :
    Store.only j { st with runs := st.runs.update j f same } =
      { st.only j with runs := (st.only j).runs.update j f same } := by
  unfold Store.only
  rw [Table.only_update]

theorem queue_only (f : QueueRow → QueueRow) (same : ∀ q, (f q).runId = q.runId) :
    Store.only j { st with runQueue := st.runQueue.update j f same } =
      { st.only j with runQueue := (st.only j).runQueue.update j f same } := by
  unfold Store.only
  rw [Table.only_update]

theorem appendEvent_only (key : Option String) (payload : Payload) :
    (st.only j).appendEvent now j key payload =
      (st.appendEvent now j key payload).map fun x => (x.1, x.2.only j) := by
  unfold Store.appendEvent
  split
  · have found : (st.only j).runs.find j = st.runs.find j := getRun_only
    rw [found]
    cases st.runs.find j with
    | none => rfl
    | some run =>
      have inserted : (st.only j).events.insert ⟨j, ⟨run.eventSeq + 1, key, payload, now⟩⟩ =
          (st.events.insert ⟨j, ⟨run.eventSeq + 1, key, payload, now⟩⟩).map
            (Table.only (·.1 = j)) := Table.only_insert (by simp [EventRow.key])
      simp only [inserted]
      cases st.events.insert ⟨j, ⟨run.eventSeq + 1, key, payload, now⟩⟩ with
      | none => rfl
      | some events =>
        simp only [Option.map_some, Except.map, Store.only]
        rw [Table.only_update]
  · rfl

theorem bumpAttempt_only : (st.only j).bumpAttempt now j =
    ((st.bumpAttempt now j).1, (st.bumpAttempt now j).2.only j) :=
  Prod.ext (congrArg (Option.map fun run : RunRecord => run.attempt + 1) getRun_only)
    (runs_only _ _).symm

theorem setStatus_only (status : RunStatus) (result : Value) (error : Option RunError) :
    (st.only j).setStatus now j status result error =
      (st.setStatus now j status result error).map fun x => (x.1, x.2.only j) := by
  unfold Store.setStatus
  split
  · rw [Except.map, runs_only]
  · rfl

theorem saveUsage_only (usage : Usage) :
    (st.only j).saveUsage now j usage = (st.saveUsage now j usage).only j := (runs_only _ _).symm

theorem isCancelRequested_only : (st.only j).isCancelRequested j = st.isCancelRequested j :=
  congrArg (Option.any fun run : RunRecord => run.cancelRequested) getRun_only

theorem requestCancel_only : (st.only j).requestCancel now j =
    (st.requestCancel now j).map fun x => (x.1, x.2.only j) := by
  unfold Store.requestCancel
  have found : (st.only j).runs.find j = st.runs.find j := getRun_only
  rw [found]
  cases st.runs.find j with
  | none => rfl
  | some run =>
    simp only
    split
    · rfl
    · have flagged : (st.only j).flag now j = (st.flag now j).only j := (runs_only _ _).symm
      rw [flagged, appendEvent_only]
      cases (st.flag now j).appendEvent now j none .cancelRequested <;> rfl

theorem heartbeat_only (worker : String) (lease : Int) :
    (st.only j).heartbeat now j worker lease =
      ((st.heartbeat now j worker lease).1, (st.heartbeat now j worker lease).2.only j) := by
  unfold Store.heartbeat
  rw [find_queue]
  split
  · rw [queue_only]
  · rfl

theorem heartbeat_answer (worker : String) (lease : Int) :
    (.ok ((st.only j).heartbeat now j worker lease) : Except Exn (Bool × Store)) =
      Except.map (fun x => (x.1, x.2.only j)) (.ok (st.heartbeat now j worker lease)) := by
  rw [heartbeat_only]
  rfl

theorem release_only (worker : String) (delay : Int) :
    (st.only j).release now j worker delay = (st.release now j worker delay).only j := by
  unfold Store.release
  rw [find_queue]
  split
  · rw [queue_only]
  · rfl

theorem dequeue_only : (st.only j).dequeue j = (st.dequeue j).only j := by
  unfold Store.dequeue Store.only
  rw [Table.only_delete]

/-! ## Statements on other runs -/

theorem runs_elsewhere (apart : i ≠ j) (f : RunRecord → RunRecord)
    (same : ∀ r, (f r).runId = r.runId) :
    Store.only j { st with runs := st.runs.update i f same } = st.only j := by
  unfold Store.only
  rw [Table.update_dropped (by simpa using apart)]

theorem queue_elsewhere (apart : i ≠ j) (f : QueueRow → QueueRow)
    (same : ∀ q, (f q).runId = q.runId) :
    Store.only j { st with runQueue := st.runQueue.update i f same } = st.only j := by
  unfold Store.only
  rw [Table.update_dropped (by simpa using apart)]

theorem appendEvent_elsewhere (apart : i ≠ j) {key : Option String} {payload : Payload}
    {n : Option Nat} (run : st.appendEvent now i key payload = .ok (n, st')) :
    st'.only j = st.only j := by
  unfold Store.appendEvent at run
  split at run
  · split at run
    · cases run
      rfl
    · simp only at run
      split at run
      · cases run
      · next events inserted =>
        cases run
        have dropped : events.only (·.1 = j) = st.events.only (·.1 = j) := by
          refine Table.insert_dropped ?_ inserted
          exact decide_eq_false apart
        unfold Store.only
        rw [Table.update_dropped (by simpa using apart), dropped]
  · cases run

theorem heartbeat_elsewhere (apart : i ≠ j) (worker : String) (lease : Int) :
    (st.heartbeat now i worker lease).2.only j = st.only j := by
  unfold Store.heartbeat
  split
  · exact queue_elsewhere apart _ _
  · rfl

theorem release_elsewhere (apart : i ≠ j) (worker : String) (delay : Int) :
    (st.release now i worker delay).only j = st.only j := by
  unfold Store.release
  split
  · exact queue_elsewhere apart _ _
  · rfl

theorem requestCancel_elsewhere (apart : i ≠ j) {granted : Bool}
    (run : st.requestCancel now i = .ok (granted, st')) : st'.only j = st.only j := by
  rcases requestCancel_done run with ⟨-, rfl, -⟩ | ⟨-, -, seq, appended⟩
  · rfl
  · exact (appendEvent_elsewhere apart appended).trans (runs_elsewhere apart _ _)

/-! ## Submissions and claims -/

/-- A submission creates the run, or does nothing to its rows. -/
theorem submitRun_only {workflow idempotencyKey : String} {payload : Value} {budget : Budget}
    {answer : RunRecord × Bool}
    (run : st.submitRun now i workflow payload idempotencyKey budget = .ok (answer, st')) :
    st'.only j = st.only j ∨ i = j ∧ ∃ answer,
      (st.only j).submitRun now j workflow payload idempotencyKey budget =
        .ok (answer, st'.only j) := by
  have checked : (storableValue payload && pgText workflow && pgText idempotencyKey) = true := by
    by_contra bad
    rw [Store.submitRun, if_neg bad] at run
    cases run
  cases submitRun_cases run with
  | existing => exact .inl rfl
  | @created runs queue seq _ free hruns hqueue appended =>
    by_cases same : i = j
    · subst same
      refine .inr ⟨rfl, ?_⟩
      have absent : ((st.only i).runs.rows.find? fun r => r.idempotencyKey = idempotencyKey) =
          none := by
        rw [List.find?_eq_none] at free ⊢
        exact fun r mem => free r (List.mem_filter.mp mem).1
      have runs_ : (st.only i).runs.insert
          (Store.newRun now i workflow payload idempotencyKey budget) =
            some (runs.only (· = i)) := by
        have inserted := Table.only_insert (t := st.runs) (p := (· = i))
          (r := Store.newRun now i workflow payload idempotencyKey budget) (by simp [Store.newRun])
        rw [hruns] at inserted
        exact inserted
      have queue_ : (st.only i).runQueue.insert
          ⟨(Store.newRun now i workflow payload idempotencyKey budget).runId, now, none, none, 0⟩ =
            some (queue.only (· = i)) := by
        have inserted := Table.only_insert (t := st.runQueue) (p := (· = i))
          (r := ⟨i, now, none, none, 0⟩) (by simp)
        rw [hqueue] at inserted
        exact inserted
      have logged : Store.appendEvent { st.only i with
          runs := runs.only (· = i), runQueue := queue.only (· = i) } now i none
          (.runStarted workflow payload budget) = .ok (seq, st'.only i) := by
        have appends := @appendEvent_only { st with runs, runQueue := queue } now i none
          (.runStarted workflow payload budget)
        refine appends.trans ?_
        rw [appended]
        rfl
      unfold Store.submitRun
      rw [if_pos checked, absent]
      simp only [Store.insertRun, runs_, queue_, Option.bind_eq_bind, Option.bind_some, logged]
      exact ⟨_, rfl⟩
    · refine .inl ((appendEvent_elsewhere same appended).trans ?_)
      have runs_ : runs.only (· = j) = st.runs.only (· = j) :=
        Table.insert_dropped (show decide (i = j) = false from decide_eq_false same) hruns
      have queue_ : queue.only (· = j) = st.runQueue.only (· = j) :=
        Table.insert_dropped (show decide (i = j) = false from decide_eq_false same) hqueue
      unfold Store.only
      rw [runs_, queue_]

/-- A claim that draws the run draws it in its fragment. -/
theorem claim_only {worker : String} {lease : Int} {locked : List Uuid} {claim : Claim}
    (run : st.claim now worker lease locked = (some claim, st')) :
    (claim.runId ≠ j ∧ st'.only j = st.only j) ∨ claim.runId = j ∧
      (st.only j).claim now worker lease [] = (some claim, st'.only j) := by
  unfold Store.claim at run
  split at run
  · cases run
  · next q first =>
    cases run
    by_cases same : q.runId = j
    · subst same
      refine .inr ⟨rfl, ?_⟩
      have drawn := List.mem_of_head? first
      obtain ⟨there, open_⟩ := List.mem_filter.mp ((List.mem_insertionSort _).mp drawn)
      obtain ⟨free, -⟩ := (Bool.and_eq_true _ _).mp open_
      -- the only row of the fragment is the one that was drawn
      have rows : (st.only q.runId).runQueue.rows = [q] := Table.only_one there
      have drawn' : (((st.only q.runId).runQueue.rows.filter fun q =>
          Store.claimable now q && !([] : List Uuid).contains q.runId).insertionSort
            fun a b => a.visibleAt ≤ b.visibleAt).head? = some q := by
        rw [rows]
        simp [free]
      unfold Store.claim
      rw [drawn']
      simp only [queue_only]
    · exact .inl ⟨same, queue_elsewhere same _ _⟩

/-! ## Operations -/

theorem storeCall_only {α : Type} {outcome outcome' : Except Exn (α × Store)}
    {r : Except Exn α} (same : outcome' = outcome.map fun x => (x.1, x.2.only j))
    (run : storeCall st loc outcome ans = some (r, st', loc')) :
    storeCall (st.only j) loc outcome' ans = some (r, st'.only j, loc') := by
  subst same
  unfold storeCall at run ⊢
  split at run
  · split at run <;> cases run <;> rfl
  · cases run
    rfl
  · cases run

theorem memory_only {α : Type} {f : RunContext → α × RunContext} {r : α}
    (run : memory st loc f ans = some (r, st', loc')) :
    memory (st.only j) loc f ans = some (r, st'.only j, loc') := by
  unfold memory at run ⊢
  split at run
  · obtain ⟨ctx, hctx, is⟩ := Option.map_eq_some_iff.mp run
    cases is
    simp [hctx]
  · cases run

/-- An operation of an attempt of the run. -/
theorem exec_only {o : Op} {r : Ans o} (own : loc.runId = j)
    (run : exec cfg now st loc ans o = some (r, st', loc')) :
    exec cfg now (st.only j) loc ans o = some (r, st'.only j, loc') := by
  subst own
  cases o with
  | getRun =>
    simp only [exec] at run ⊢
    refine storeCall_only ?_ run
    rw [getRun_only]
    rfl
  | bumpAttempt =>
    simp only [exec] at run ⊢
    refine storeCall_only ?_ run
    rw [bumpAttempt_only]
    rfl
  | setStatus status result error => exact storeCall_only (setStatus_only status result error) run
  | saveUsage =>
    obtain ⟨ctx, hctx, run⟩ := Option.bind_eq_some_iff.mp run
    refine Option.bind_eq_some_iff.mpr ⟨ctx, hctx, storeCall_only ?_ run⟩
    rw [saveUsage_only]
    rfl
  | isCancelRequested =>
    simp only [exec] at run ⊢
    refine storeCall_only ?_ run
    rw [isCancelRequested_only]
    rfl
  | appendEvent key payload => exact storeCall_only (appendEvent_only key payload) run
  | loadEvents =>
    simp only [exec] at run ⊢
    refine storeCall_only ?_ run
    rw [loadEvents_only]
    rfl
  | heartbeat =>
    obtain ⟨worker, known, run⟩ := Option.bind_eq_some_iff.mp run
    refine Option.bind_eq_some_iff.mpr ⟨worker, known, storeCall_only ?_ run⟩
    rw [heartbeat_only]
    rfl
  | release =>
    obtain ⟨worker, known, run⟩ := Option.bind_eq_some_iff.mp run
    refine Option.bind_eq_some_iff.mpr ⟨worker, known, storeCall_only ?_ run⟩
    rw [release_only]
    rfl
  | dequeue =>
    simp only [exec] at run ⊢
    refine storeCall_only ?_ run
    rw [dequeue_only]
    rfl
  | completed | countReplayed | unresolved | recordResult | countExecuted | checkBudget
  | addToolCall | addModelUsage | snapshot => exact memory_only run
  | newContext | enter | sleep =>
    cases ans with
    | done =>
      cases run
      rfl
    | _ => cases run
  | leave u =>
    cases ans with
    | raise exc =>
      cases run
      rfl
    | value | response =>
      cases u <;> cases run
      all_goals rfl
    | done => cases run
  | stopHeartbeat =>
    cases ans with
    | done =>
      simp only [exec] at run ⊢
      cases beat : loc.beat with
      | died exc =>
        rw [beat] at run
        cases run
        rfl
      | running | stopped =>
        rw [beat] at run
        cases run
        rfl
    | _ => cases run

/-- An operation of an attempt of another run. -/
theorem exec_elsewhere {o : Op} {r : Ans o} (apart : loc.runId ≠ j)
    (run : exec cfg now st loc ans o = some (r, st', loc')) : st'.only j = st.only j := by
  rcases exec_store run with ⟨rfl, -⟩ | wrote
  · rfl
  · cases wrote with
    | appendEvent appended => exact appendEvent_elsewhere apart appended
    | setStatus done =>
      unfold Store.setStatus at done
      split at done <;> cases done
      exact runs_elsewhere apart _ _
    | bumpAttempt => exact runs_elsewhere apart _ _
    | saveUsage => exact runs_elsewhere apart _ _
    | heartbeat => exact heartbeat_elsewhere apart _ _
    | release => exact release_elsewhere apart _ _
    | dequeue =>
      unfold Store.dequeue Store.only
      rw [Table.delete_dropped (by simpa using apart)]

/-! ## Attempts -/

variable {w w' : World} {a : Action} {p : Nat} {proc proc' : Proc}

theorem procs_only (hp : w.procs[p]? = some proc) (own : proc.loc.runId = j) :
    (w.only j).procs[w.rank j p]? = some proc :=
  filter_rank hp (decide_eq_true own)

/-- Only the run's own code writes to its fragment. -/
theorem set_only (hp : w.procs[p]? = some proc) (own : proc.loc.runId = j)
    (own' : proc'.loc.runId = j) (store : Store) (ms : List Moment) :
    World.only j { w with store, procs := w.procs.set p proc', moments := w.moments ++ ms } =
      { w.only j with
        store := store.only j
        procs := (w.only j).procs.set (w.rank j p) proc'
        moments := (w.only j).moments ++
          (ms.filter (·.runId = j)).map fun m => { m with proc := w.rank j m.proc } } := by
  have kept : Proc.isOf j proc = true := decide_eq_true own
  have kept' : Proc.isOf j proc' = true := decide_eq_true own'
  unfold World.only World.rank
  simp only [filter_set hp kept kept', rank_set hp (kept'.trans kept.symm), List.filter_append,
    List.map_append]

theorem set_elsewhere (hp : w.procs[p]? = some proc) (apart : proc.loc.runId ≠ j)
    (same : proc'.loc.runId = proc.loc.runId) {store : Store} (kept : store.only j = w.store.only j)
    {ms : List Moment} (others : ∀ m ∈ ms, m.runId = proc.loc.runId) :
    World.only j { w with store, procs := w.procs.set p proc', moments := w.moments ++ ms } =
      w.only j := by
  have dropped : Proc.isOf j proc = false := decide_eq_false apart
  have dropped' : Proc.isOf j proc' = false := decide_eq_false (same ▸ apart)
  have none : ms.filter (·.runId = j) = [] :=
    List.filter_eq_nil_iff.mpr fun m mem own =>
      apart ((others m mem).symm.trans (of_decide_eq_true own))
  unfold World.only World.rank
  simp only [filter_set_dropped hp dropped dropped', rank_set hp (dropped'.trans dropped.symm),
    List.filter_append, none, List.append_nil, kept]

theorem set_only_silent (hp : w.procs[p]? = some proc) (own : proc.loc.runId = j)
    (own' : proc'.loc.runId = j) (store : Store) :
    World.only j { w with store, procs := w.procs.set p proc' } =
      { w.only j with
        store := store.only j
        procs := (w.only j).procs.set (w.rank j p) proc' } := by
  have set := set_only hp own own' store []
  rw [List.append_nil, List.filter_nil, List.map_nil, List.append_nil] at set
  exact set

theorem set_elsewhere_silent (hp : w.procs[p]? = some proc) (apart : proc.loc.runId ≠ j)
    (same : proc'.loc.runId = proc.loc.runId) {store : Store}
    (kept : store.only j = w.store.only j) :
    World.only j { w with store, procs := w.procs.set p proc' } = w.only j := by
  have set := set_elsewhere hp apart same kept (List.forall_mem_nil _)
  rw [List.append_nil] at set
  exact set

/-- An attempt more. -/
theorem append_only (attributed : w.Attributed) (store : Store) (proc : Proc) :
    World.only j { w with store, procs := w.procs ++ [proc] } =
      { w.only j with
        store := store.only j
        procs := (w.only j).procs ++ if proc.loc.runId = j then [proc] else [] } := by
  have ranks : ∀ m ∈ w.moments.filter (·.runId = j),
      Fragment.rank (Proc.isOf j) (w.procs ++ [proc]) m.proc =
        Fragment.rank (Proc.isOf j) w.procs m.proc := by
    intro m mem
    obtain ⟨other, hm, -⟩ := attributed m (List.mem_filter.mp mem).1
    exact rank_append (List.getElem?_eq_some_iff.mp hm).1.le
  have moments := List.map_congr_left fun m mem =>
    congrArg (fun n => { m with proc := n }) (ranks m mem)
  unfold World.only World.rank
  simp only [moments, List.filter_append, List.filter_singleton]
  by_cases own : proc.loc.runId = j <;> simp [Proc.isOf, own]

/-- The user code entered by an attempt. -/
theorem entered_only (attributed : w.Attributed) (hp : w.procs[p]? = some proc)
    (own : proc.loc.runId = j) (role : Role) (key : String) :
    (w.only j).entered (w.rank j p) role key = w.entered p role key := by
  have same : ∀ m ∈ w.moments, (decide (m.runId = j) && decide (w.rank j m.proc = w.rank j p)) =
      decide (m.proc = p) := by
    intro m mem
    obtain ⟨other, hm, run⟩ := attributed m mem
    by_cases here : m.proc = p
    · rw [here] at hm ⊢
      obtain rfl := Option.some.inj (hm.symm.trans hp)
      simp [← run, own]
    · by_cases mine : m.runId = j
      · have ranks : w.rank j m.proc ≠ w.rank j p := fun ranks =>
          here (rank_inj hm (decide_eq_true (run.trans mine)) hp (decide_eq_true own) ranks)
        simp [here, ranks]
      · simp [here, mine]
  unfold World.entered World.only
  rw [List.any_map, List.any_filter]
  rw [Bool.eq_iff_iff, List.any_eq_true, List.any_eq_true]
  refine exists_congr fun m => and_congr_right fun mem => ?_
  simp only [Function.comp_apply, ← Bool.and_assoc]
  rw [same m mem]

theorem callerPath_only (attributed : w.Attributed) (hp : w.procs[p]? = some proc)
    (own : proc.loc.runId = j) (role : Role) (caller : Option (Nat × Nat)) :
    (w.only j).callerPath (w.rank j p) proc role caller = w.callerPath p proc role caller := by
  unfold World.callerPath
  simp only [entered_only attributed hp own]

theorem moment_only (p : Nat) (o : Op) (r : Ans o) :
    (w.only j).moment (w.rank j p) j o r = ((w.moment p j o r).filter (·.runId = j)).map fun m =>
      { m with proc := w.rank j m.proc } := by
  unfold World.moment
  have logged : (w.only j).store.loadEvents j = w.store.loadEvents j := loadEvents_only
  cases observed o r with
  | none => rfl
  | some shown => simp [logged]

theorem moment_runId (w : World) (p : Nat) (runId : Uuid) (o : Op) (r : Ans o) :
    ∀ m ∈ w.moment p runId o r, m.proc = p ∧ m.runId = runId := by
  unfold World.moment
  cases observed o r <;> simp

theorem attributed_step
    (shaped : ∀ (p : Nat) (proc : Proc), w.procs[p]? = some proc → proc.Shaped cfg)
    (h : w.step cfg a = some w') (attributed : w.Attributed) : w'.Attributed := by
  have stays : ∀ m ∈ w.moments, ∃ proc, w'.procs[m.proc]? = some proc ∧
      proc.loc.runId = m.runId := by
    intro m mem
    obtain ⟨proc, hp, run⟩ := attributed m mem
    obtain ⟨proc', hp', run', -⟩ := attempt_persists shaped h hp
    exact ⟨proc', hp', run'.trans run⟩
  have grows : ∀ {p : Nat} {proc : Proc} {o : Op} {r : Ans o}, w.procs[p]? = some proc →
      w'.moments = w.moments ++ w.moment p proc.loc.runId o r → w'.Attributed := by
    intro p proc o r hp moments m mem
    rw [moments] at mem
    rcases List.mem_append.mp mem with old | new
    · exact stays m old
    · obtain ⟨rfl, run⟩ := moment_runId w p _ o r m new
      obtain ⟨proc', hp', run', -⟩ := attempt_persists shaped h hp
      exact ⟨proc', hp', run'.trans run.symm⟩
  cases step_happens h with
  | main hp | task hp => exact grows hp rfl
  | _ => exact stays

/-- The step is one on the fragment of the run, or none. -/
def FragmentStep (cfg : Config) (j : Uuid) (w w' : World) : Prop :=
  w'.only j = w.only j ∨
    ∃ b, concerning j (w.only j) b ∧ (w.only j).step cfg b = some (w'.only j)

theorem store_fragment {store : Store} (same : store.only j = w.store.only j) :
    World.only j { w with store } = w.only j := by
  unfold World.only World.rank
  rw [same]

theorem beat_fragment {ans : Answer} (h : w.step cfg (.beat p ans) = some w') :
    FragmentStep cfg j w w' := by
  simp only [World.step, Option.bind_eq_bind, Option.bind_eq_some_iff] at h
  obtain ⟨proc, hp, worker, known, h⟩ := h
  split at h
  · cases h
  · next alive =>
    split at h
    · next running =>
      obtain ⟨⟨r, store, loc⟩, called, h⟩ := Option.bind_eq_some_iff.mp h
      cases h
      by_cases own : proc.loc.runId = j
      · subst own
        obtain ⟨rfl, -⟩ := ExecLemmas.storeCall_cases called
        refine .inr ⟨.beat (w.rank proc.loc.runId p) ans, trivial, ?_⟩
        have called' := storeCall_only (heartbeat_answer worker cfg.leaseSeconds) called
        have hq := procs_only hp rfl
        rw [set_only_silent hp rfl (by rfl) store]
        simp only [World.step, hq, Option.bind_eq_bind, Option.bind_some, known, alive, running]
        exact Option.bind_eq_some_iff.mpr ⟨_, called', by simp [known]⟩
      · refine .inl (set_elsewhere_silent hp own ?_ ?_)
        · rw [(ExecLemmas.storeCall_cases called).1]
        · obtain ⟨-, ⟨b, ok, -⟩ | ⟨exc, -, same, -⟩⟩ := ExecLemmas.storeCall_cases called
          · have same :
                (w.store.heartbeat w.now proc.loc.runId worker cfg.leaseSeconds).2 = store :=
              (Prod.ext_iff.mp (Except.ok.inj ok)).2
            rw [← same]
            exact heartbeat_elsewhere own _ _
          · exact congrArg (Store.only j) same
    · cases h

theorem main_fragment {ans : Answer} {o : Op} {k : Ans o → Code (Option Outcome)} {r : Ans o}
    {store : Store} {loc : Local} (hp : w.procs[p]? = some proc) (alive : proc.stopped = false)
    (main : proc.main = .step o k)
    (run : exec cfg w.now w.store proc.loc ans o = some (r, store, loc)) :
    FragmentStep cfg j w { w with
      store
      procs := w.procs.set p
        { proc with loc, phase := proc.phase.next o r, main := k r, started := true }
      moments := w.moments ++ w.moment p proc.loc.runId o r } := by
  have same := (exec_ctx run).1
  by_cases own : proc.loc.runId = j
  · subst own
    refine .inr ⟨.main (w.rank proc.loc.runId p) ans, trivial, ?_⟩
    rw [set_only hp rfl same, ← moment_only]
    exact step_main (procs_only hp rfl) alive main (exec_only rfl run)
  · exact .inl (set_elsewhere hp own same (exec_elsewhere own run) fun m mem =>
      (moment_runId w p _ o r m mem).2)

theorem task_fragment {c b : Nat} {ans : Answer} {rec : CallRecord} {t : Task} {o : Op}
    {k : Ans o → Code Value} {r : Ans o} {store : Store} {loc : Local}
    (hp : w.procs[p]? = some proc) (alive : proc.stopped = false)
    (hrec : proc.calls[c]? = some rec) (ht : rec.tasks[b]? = some t) (hprog : t.prog = .step o k)
    (run : exec cfg w.now w.store proc.loc ans o = some (r, store, loc)) :
    FragmentStep cfg j w { w with
      store
      procs := w.procs.set p ({ proc with loc }.setTask c b
        { t with
          stage := (rec.call.setup cfg proc.loc.runId proc.loc.guarded t.key).next t.stage o r
          prog := k r })
      moments := w.moments ++ w.moment p proc.loc.runId o r } := by
  have same := (exec_ctx run).1
  by_cases own : proc.loc.runId = j
  · subst own
    refine .inr ⟨.task (w.rank proc.loc.runId p) c b ans, trivial, ?_⟩
    have run' := exec_only rfl run
    rw [set_only hp rfl same, ← moment_only]
    simp only [World.step, procs_only hp rfl, Option.bind_eq_bind, Option.bind_some, alive,
      if_neg Bool.false_ne_true, hrec, ht, World.stepTask, hprog]
    exact Option.map_eq_some_iff.mpr ⟨_, run', rfl⟩
  · exact .inl (set_elsewhere hp own same (exec_elsewhere own run) fun m mem =>
      (moment_runId w p _ o r m mem).2)

/-- A call on the context, and an attempt that is stopped. -/
theorem quiet_fragment {b : Action} (hp : w.procs[p]? = some proc)
    (same : proc'.loc.runId = proc.loc.runId) (free : concerning j (w.only j) b)
    (moved : proc.loc.runId = j → (w.only j).step cfg b =
      some ((w.only j).setProc (w.rank j p) proc')) :
    FragmentStep cfg j w (w.setProc p proc') := by
  by_cases own : proc.loc.runId = j
  · refine .inr ⟨b, free, (moved own).trans (congrArg some ?_)⟩
    exact (set_only_silent hp own (same.trans own) w.store).symm
  · exact .inl (set_elsewhere_silent hp own same rfl)

/-- An action on the run is one on its fragment; the others leave the fragment alone. -/
theorem only_step (attributed : w.Attributed) (h : w.step cfg a = some w') :
    FragmentStep cfg j w w' := by
  cases step_happens h with
  | @submit runId workflow payload key budget answer store submitted =>
    rcases submitRun_only (j := j) submitted with same | ⟨rfl, answer', done⟩
    · exact .inl (store_fragment same)
    · refine .inr ⟨.submit runId workflow payload key budget, rfl, ?_⟩
      simp only [World.step]
      rw [show (w.only runId).store.submitRun (w.only runId).now runId workflow payload key budget =
        _ from done]
      rfl
  | @cancel runId granted store requested =>
    by_cases own : runId = j
    · subst own
      refine .inr ⟨.cancel runId, rfl, ?_⟩
      have requested' := @requestCancel_only w.store w.now runId
      rw [requested] at requested'
      simp only [World.step]
      rw [show (w.only runId).store.requestCancel (w.only runId).now runId = _ from requested']
      rfl
    · exact .inl (store_fragment (requestCancel_elsewhere own requested))
  | @tick elapsed => exact .inr ⟨.tick elapsed, trivial, rfl⟩
  | @claim worker locked claim store claimed =>
    rcases claim_only (j := j) claimed with ⟨apart, same⟩ | ⟨rfl, drawn⟩
    · refine .inl ((append_only attributed store _).trans ?_)
      rw [if_neg (show (Proc.claimed cfg worker claim.runId).loc.runId ≠ j from apart),
        List.append_nil, same]
      rfl
    · refine .inr ⟨.claim worker [], trivial, ?_⟩
      rw [append_only attributed store _,
        if_pos (show (Proc.claimed cfg worker claim.runId).loc.runId = claim.runId from rfl)]
      simp only [World.step]
      rw [show (w.only claim.runId).store.claim (w.only claim.runId).now worker
        cfg.leaseSeconds [] = _ from drawn]
  | @execute runId =>
    have append := append_only (j := j) attributed w.store (.executed cfg runId)
    by_cases own : runId = j
    · refine .inr ⟨.execute runId, own, ?_⟩
      rw [if_pos (show (Proc.executed cfg runId).loc.runId = j from own)] at append
      exact congrArg some append.symm
    · refine .inl (append.trans ?_)
      rw [if_neg (show (Proc.executed cfg runId).loc.runId ≠ j from own), List.append_nil]
      rfl
  | beat => exact beat_fragment h
  | main hp alive main run => exact main_fragment hp alive main run
  | task hp alive hrec ht hprog run => exact task_fragment hp alive hrec ht hprog run
  | @refused p caller role c proc path exc ctx hp alive path_ hctx names =>
    refine quiet_fragment (b := .call (w.rank j p) caller role c) hp rfl trivial fun own => ?_
    have path' := (callerPath_only attributed hp own role caller).trans path_
    simp only [World.step, procs_only hp own, Option.bind_eq_bind, Option.bind_some, alive,
      if_neg Bool.false_ne_true, path', World.callContext, hctx, Option.map_some, names]
  | @call p caller role c proc path names ctx hp alive path_ hctx known =>
    refine quiet_fragment (b := .call (w.rank j p) caller role c) hp rfl trivial fun own => ?_
    have path' := (callerPath_only attributed hp own role caller).trans path_
    simp only [World.step, procs_only hp own, Option.bind_eq_bind, Option.bind_some, alive,
      if_neg Bool.false_ne_true, path', World.callContext, hctx, Option.map_some, known]
  | @stop p proc hp =>
    refine quiet_fragment (b := .stop (w.rank j p)) hp rfl trivial fun own => ?_
    simp only [World.step, procs_only hp own, Option.bind_eq_bind, Option.bind_some]

end IsolationLemmas

open IsolationLemmas

theorem attributed_reaches {cfg : Config} {now : Int} {ok : World → Action → Prop} {w : World}
    (h : Reaches (World.step cfg) ok (.init now) w) : w.Attributed :=
  h.invariant (fun _ mem => by cases mem) fun _ _ _ reached attributed _ step =>
    attributed_step (fun _ _ => shaped_reaches reached) step attributed

/-- Runs do not interfere: whatever the other runs, their workers and crashes, what has happened to
a run also happens when it is the only one. Its row, its log, its queue entry and its attempts are
in some run of the system without the others what they are in this one. -/
theorem runs_isolated {cfg : Config} {now : Int} {ok : World → Action → Prop} {w : World}
    (h : Reaches (World.step cfg) ok (.init now) w) (j : Uuid) :
    ∃ v, Reaches (World.step cfg) (concerning j) (.init now) v ∧ v.now = w.now ∧
      v.store.getRun j = w.store.getRun j ∧ v.store.loadEvents j = w.store.loadEvents j ∧
      v.store.runQueue.find j = w.store.runQueue.find j ∧
      v.procs = w.procs.filter (Proc.isOf j) ∧ (∀ row ∈ v.store.runs.rows, row.runId = j) := by
  refine ⟨w.only j, ?_, rfl, getRun_only, loadEvents_only, find_queue, rfl, fun row mem => ?_⟩
  · exact h.fragment (World.only j) fun t a u reached _ step =>
      only_step (attributed_reaches reached) step
  · exact of_decide_eq_true (List.mem_filter.mp mem).2

/-- Two workers on two runs: the other run is cancelled, and its worker crashes. -/
def Sample.besides : List Action :=
  opening ++ [.submit ⟨8⟩ "w" .none "other" ⟨none, none, none, none, none⟩, .claim "b" []] ++
    proceed 1 3 ++ [.cancel ⟨8⟩, .call 0 none .workflow (.step "x" .atLeastOnce false none)] ++
    advance 0 0 7 ++ [.stop 1, .task 0 0 0 (.value (.int 5)), .task 0 0 0 .done]

theorem runs_isolated_two : ∃ w,
    run (World.step Sample.cfg) (fun _ _ => True) (.init 0) Sample.besides = some w ∧
    (w.store.runs.rows.length = 2 ∧ w.procs.length = 2 ∧
      (w.store.loadEvents Sample.runId).length = 3) ∧
    ∃ v, Reaches (World.step Sample.cfg) (concerning Sample.runId) (.init 0) v ∧
      v.now = w.now ∧ v.store.getRun Sample.runId = w.store.getRun Sample.runId ∧
      v.store.loadEvents Sample.runId = w.store.loadEvents Sample.runId ∧
      v.store.runQueue.find Sample.runId = w.store.runQueue.find Sample.runId ∧
      v.procs = w.procs.filter (Proc.isOf Sample.runId) ∧
      ∀ row ∈ v.store.runs.rows, row.runId = Sample.runId := by
  obtain ⟨w, ran, facts⟩ := run_exists (World.step Sample.cfg) (fun _ _ => True) (.init 0)
    Sample.besides (fun w => w.store.runs.rows.length = 2 ∧ w.procs.length = 2 ∧
      (w.store.loadEvents Sample.runId).length = 3) (by decide +kernel)
  exact ⟨w, ran, facts, runs_isolated (run_reaches ran) Sample.runId⟩

end AnchorRuntime
