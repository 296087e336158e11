import AnchorRuntime.Actors

/-!
# Rows of runs

What the actions do to the columns of a run row that the status does not show: the usage,
and what a run keeps from its submission.

Results: `exec_usage` and `step_usage`, only `save_usage` changes the usage; `exec_field` and
`step_field`, the columns no statement of an attempt writes; `requestCancel_cases` and
`outside_log`, what the requests of clients do to a run and its log.
-/

namespace AnchorRuntime

open Effect Relational Machine

/-- The usage on the row of a run. -/
def Store.usage (st : Store) (runId : Uuid) : Option Usage := (st.getRun runId).map (·.usage)

/-- A column that the statements of an attempt leave alone. -/
def Column {β : Type} (g : RunRecord → β) : Prop :=
  ∀ (r : RunRecord) (eventSeq attempt : Nat) (status : RunStatus) (result : Value)
    (error : Option RunError) (usage : Usage) (updatedAt : Int) (finishedAt : Option Int),
    g { r with eventSeq, attempt, status, result, error, usage, updatedAt, finishedAt } = g r

/-- A column that an append leaves alone. -/
def Steady {β : Type} (g : RunRecord → β) : Prop :=
  ∀ (r : RunRecord) (eventSeq : Nat) (updatedAt : Int), g { r with eventSeq, updatedAt } = g r

theorem Column.steady {β : Type} {g : RunRecord → β} (column : Column g) : Steady g :=
  fun r eventSeq updatedAt =>
    column r eventSeq r.attempt r.status r.result r.error r.usage updatedAt r.finishedAt

namespace RowLemmas

variable {cfg : Config} {now : Int} {st st' : Store} {loc loc' : Local} {ans : Answer}

theorem appendEvent_row {key : Option String} {payload : Payload} {n : Option Nat} {runId : Uuid}
    (h : st.appendEvent now runId key payload = .ok (n, st')) (j : Uuid) :
    st'.getRun j = st.getRun j ∨ st'.getRun j =
      (st.getRun j).map fun r => { r with eventSeq := r.eventSeq + 1, updatedAt := now } := by
  unfold Store.appendEvent at h
  split at h
  · split at h
    · cases h
      exact .inl rfl
    · simp only at h
      split at h
      · cases h
      · cases h
        simp only [Store.getRun, Table.find_update]
        split
        · exact .inr rfl
        · exact .inl rfl
  · cases h

theorem map_row {β : Type} {a b : Option RunRecord} {f : RunRecord → RunRecord} {g : RunRecord → β}
    (h : b = a ∨ b = a.map f) (keeps : ∀ r, g (f r) = g r) : b.map g = a.map g := by
  rcases h with rfl | rfl
  · rfl
  · rw [Option.map_map]
    congr 1
    funext r
    exact keeps r

/-- A heartbeat touches the queue only. -/
theorem heartbeat_usage (st : Store) (now : Int) (runId : Uuid) (worker : String) (lease : Int)
    (j : Uuid) : (st.heartbeat now runId worker lease).2.usage j = st.usage j := by
  unfold Store.heartbeat
  split <;> rfl

end RowLemmas

open RowLemmas

variable {cfg : Config} {now : Int} {st st' : Store} {loc loc' : Local} {ans : Answer}

/-- No operation of an attempt changes such a column. -/
theorem exec_field {o : Op} {r : Ans o} {β : Type} {g : RunRecord → β} (column : Column g)
    (run : exec cfg now st loc ans o = some (r, st', loc')) (j : Uuid) :
    (st'.getRun j).map g = (st.getRun j).map g := by
  rcases exec_store run with ⟨rfl, -⟩ | wrote
  · rfl
  · cases wrote with
    | appendEvent ok => exact map_row (appendEvent_row ok j) fun r => column r _ _ _ _ _ _ _ _
    | setStatus ok =>
      unfold Store.setStatus at ok
      split at ok
      · cases ok
        exact Table.map_find_update st.runs loc.runId _ (fun _ => by rfl) g
          (fun r => column r _ _ _ _ _ _ _ _) j
      · cases ok
    | bumpAttempt | saveUsage =>
      exact Table.map_find_update st.runs loc.runId _ (fun _ => by rfl) g
        (fun r => column r _ _ _ _ _ _ _ _) j
    | @heartbeat worker _ =>
      unfold Store.heartbeat
      split <;> rfl
    | @release worker _ =>
      unfold Store.release
      split <;> rfl
    | dequeue => rfl

/-- What an operation does to the usage on a row. -/
theorem exec_usage {o : Op} {r : Ans o}
    (run : exec cfg now st loc ans o = some (r, st', loc')) (j : Uuid) :
    st'.usage j = st.usage j ∨ (o = .saveUsage ∧ j = loc.runId ∧ ∃ ctx, loc.ctx = some ctx ∧
      st'.usage j = (st.usage j).map fun _ => ctx.usage) := by
  rcases exec_store run with ⟨rfl, -⟩ | wrote
  · exact .inl rfl
  · cases wrote with
    | saveUsage usage =>
      obtain ⟨ctx, hctx, run⟩ := Option.bind_eq_some_iff.mp run
      obtain ⟨-, ⟨_, ok, -⟩ | ⟨_, error, -⟩⟩ := ExecLemmas.storeCall_cases run
      · obtain ⟨-, same⟩ := Prod.mk.inj (Except.ok.inj ok)
        rw [← same]
        simp only [Store.usage, Store.getRun, Store.saveUsage, Table.find_update]
        split
        · next e =>
          refine .inr ⟨trivial, e, ctx, hctx, ?_⟩
          rw [Option.map_map, Option.map_map]
          rfl
        · exact .inl rfl
      · cases error
    | appendEvent ok => exact .inl (map_row (appendEvent_row ok j) fun r => by rfl)
    | setStatus ok =>
      unfold Store.setStatus at ok
      split at ok
      · cases ok
        exact .inl (Table.map_find_update st.runs loc.runId _ (fun _ => by rfl) _
          (fun r => by rfl) j)
      · cases ok
    | bumpAttempt =>
      exact .inl (Table.map_find_update st.runs loc.runId _ (fun _ => by rfl) _
        (fun r => by rfl) j)
    | @heartbeat worker _ =>
      left
      unfold Store.heartbeat
      split <;> rfl
    | @release worker _ =>
      left
      unfold Store.release
      split <;> rfl
    | dequeue => exact .inl rfl

/-- What a `save_usage` that did not raise leaves on the row. -/
theorem exec_saveUsage (run : exec cfg now st loc ans .saveUsage = some (.ok (), st', loc')) :
    ∃ ctx, loc.ctx = some ctx ∧ loc' = loc ∧
      st'.usage loc.runId = (st.usage loc.runId).map fun _ => ctx.usage := by
  obtain ⟨ctx, hctx, run⟩ := Option.bind_eq_some_iff.mp run
  obtain ⟨rfl, ⟨_, ok, -⟩ | ⟨_, error, -⟩⟩ := ExecLemmas.storeCall_cases run
  · refine ⟨ctx, hctx, rfl, ?_⟩
    obtain ⟨-, same⟩ := Prod.mk.inj (Except.ok.inj ok)
    rw [← same]
    simp only [Store.usage, Store.getRun, Store.saveUsage, Table.find_update, if_true,
      Option.map_map]
    rfl
  · cases error

/-! ## Actions that run no code of an attempt -/

/-- A submission leaves the rows there are, and adds at most one. -/
theorem submitRun_field {runId : Uuid} {workflow : String} {payload : Value}
    {idempotencyKey : String} {budget : Budget} {answer : RunRecord × Bool} {β : Type}
    {g : RunRecord → β} (steady : Steady g)
    (h : st.submitRun now runId workflow payload idempotencyKey budget = .ok (answer, st'))
    (j : Uuid) : (st'.getRun j).map g = (st.getRun j).map g ∨
      (st.getRun j = none ∧ ∃ run, st'.getRun j = some run ∧ run.usage = .zero ∧
        run.cancelRequested = false ∧ runId = j ∧ run.input = payload) := by
  cases submitRun_cases h with
  | existing => exact .inl rfl
  | created _ hruns _ appended =>
    have row := appendEvent_row appended j
    simp only [Store.getRun, find_newRun hruns] at row ⊢
    by_cases e : j = runId
    · right
      rw [if_pos e] at row
      refine ⟨by rw [e]; exact (Table.rows_insert hruns).1, ?_⟩
      rcases row with row | row
      · exact ⟨_, row, rfl, rfl, e.symm, rfl⟩
      · exact ⟨_, row, rfl, rfl, e.symm, rfl⟩
    · left
      rw [if_neg e] at row
      exact map_row row fun r => steady r _ _

/-- A cancel request that is granted sets the flag of a run that is not terminal, and leaves
the other columns. -/
theorem requestCancel_field {runId : Uuid} {granted : Bool} {β : Type} {g : RunRecord → β}
    (steady : Steady g)
    (flags : ∀ r upd, g { r with cancelRequested := true, updatedAt := upd } = g r)
    (h : st.requestCancel now runId = .ok (granted, st')) (j : Uuid) :
    (st'.getRun j).map g = (st.getRun j).map g := by
  rcases requestCancel_done h with ⟨-, rfl, -⟩ | ⟨-, -, seq, appended⟩
  · rfl
  · refine (map_row (appendEvent_row appended j) fun r => steady r _ _).trans ?_
    exact Table.map_find_update st.runs runId _ (fun _ => by rfl) g (fun r => flags r _) j

/-- A cancel request touches the row of its own run only. -/
theorem requestCancel_other {runId : Uuid} {granted : Bool} {β : Type} {g : RunRecord → β}
    (steady : Steady g) (h : st.requestCancel now runId = .ok (granted, st')) {j : Uuid}
    (other : j ≠ runId) : (st'.getRun j).map g = (st.getRun j).map g := by
  rcases requestCancel_done h with ⟨-, rfl, -⟩ | ⟨-, -, seq, appended⟩
  · rfl
  · refine (map_row (appendEvent_row appended j) fun r => steady r _ _).trans ?_
    rw [Store.flag, Store.getRun, Table.find_update_ne _ _ _ other]
    rfl

/-- What one action does to a column no statement of an attempt writes, nor a cancel request. -/
theorem step_field {w w' : World} {a : Action} {β : Type} {g : RunRecord → β} (column : Column g)
    (flags : ∀ r upd, g { r with cancelRequested := true, updatedAt := upd } = g r)
    (h : w.step cfg a = some w') (j : Uuid) :
    (w'.store.getRun j).map g = (w.store.getRun j).map g ∨
    (w.store.getRun j = none ∧ ∃ workflow payload key budget run,
      a = .submit j workflow payload key budget ∧ w'.store.getRun j = some run ∧
      run.input = payload) := by
  cases step_happens h with
  | submit done =>
    refine (submitRun_field column.steady done j).imp_right ?_
    rintro ⟨none, run, new, -, -, rfl, input⟩
    exact ⟨none, _, _, _, _, run, rfl, new, input⟩
  | cancel done => exact .inl (requestCancel_field column.steady flags done j)
  | claim done =>
    unfold Store.claim at done
    split at done
    · cases done
    · cases done
      exact .inl rfl
  | beat _ _ _ _ store =>
    rcases store with rfl | rfl
    · exact .inl rfl
    · unfold Store.heartbeat
      split <;> exact .inl rfl
  | main _ _ _ run => exact .inl (exec_field column run j)
  | task _ _ _ _ _ run => exact .inl (exec_field column run j)
  | _ => exact .inl rfl

/-- What one action does to the usage on a row: nothing, or it makes the row, or an attempt
of the run has saved its own. -/
theorem step_usage {w w' : World} {a : Action} (h : w.step cfg a = some w') (j : Uuid) :
    w'.store.usage j = w.store.usage j ∨
    (w.store.usage j = none ∧ w'.store.usage j = some .zero) ∨
    ∃ (p : Nat) (proc : Proc) (ctx : RunContext), a.runsCode ∧ w.procs[p]? = some proc ∧
      proc.stopped = false ∧ proc.loc.runId = j ∧ proc.loc.ctx = some ctx ∧
      w'.store.usage j = (w.store.usage j).map fun _ => ctx.usage := by
  cases step_happens h with
  | submit done =>
    have usage : Steady RunRecord.usage := fun _ _ _ => rfl
    rcases submitRun_field usage done j with same | ⟨none, run, new, zero, -⟩
    · exact .inl same
    · refine .inr (.inl ⟨by rw [Store.usage, none]; rfl, ?_⟩)
      show (Store.getRun _ j).map _ = _
      rw [new, Option.map_some, zero]
  | cancel done =>
    have usage : Steady RunRecord.usage := fun _ _ _ => rfl
    exact .inl (requestCancel_field usage (fun _ _ => rfl) done j)
  | claim done =>
    unfold Store.claim at done
    split at done
    · cases done
    · cases done
      exact .inl rfl
  | beat _ _ _ _ store =>
    rcases store with rfl | rfl
    · exact .inl rfl
    · unfold Store.heartbeat
      split <;> exact .inl rfl
  | main hp alive _ run =>
    rcases exec_usage run j with same | ⟨-, e, ctx, hctx, new⟩
    · exact .inl same
    · exact .inr (.inr ⟨_, _, ctx, trivial, hp, alive, e.symm, hctx, new⟩)
  | task hp alive _ _ _ run =>
    rcases exec_usage run j with same | ⟨-, e, ctx, hctx, new⟩
    · exact .inl same
    · exact .inr (.inr ⟨_, _, ctx, trivial, hp, alive, e.symm, hctx, new⟩)
  | _ => exact .inl rfl

/-! ## Requests and the log -/

/-- A submission starts the log of a run that is not there yet, or leaves the log alone. -/
theorem submitRun_events {runId : Uuid} {workflow : String} {payload : Value}
    {idempotencyKey : String} {budget : Budget} {answer : RunRecord × Bool}
    (numbered : st.Numbered)
    (h : st.submitRun now runId workflow payload idempotencyKey budget = .ok (answer, st'))
    (j : Uuid) : st'.loadEvents j = st.loadEvents j ∨
      (st.getRun j = none ∧ st.loadEvents j = [] ∧ ∃ e, st'.loadEvents j = [e] ∧
        e.stepKey = none ∧ e.payload = .runStarted workflow payload budget) := by
  cases submitRun_cases h with
  | existing => exact .inl rfl
  | @created _ _ seq _ _ hruns _ appended =>
    have rows := insertRun_log numbered rfl hruns
    obtain ⟨-, missing, log⟩ := appendEvent_log (rows _).1 appended
    obtain ⟨absent, -⟩ := Table.rows_insert hruns
    have there := find_newRun hruns runId
    rw [if_pos rfl] at there
    by_cases e : j = runId
    · right
      have empty : st.loadEvents j = [] := by
        have none_ : (st.eventsOf j).map (·.seq) = List.range' 1 0 := by
          rw [numbered j, Store.eventSeq, Store.getRun, e]
          exact congrArg (fun row => List.range' 1 ((row.map RunRecord.eventSeq).getD 0)) absent
        rw [StoreLemmas.loadEvents_eq numbered]
        exact List.map_eq_nil_iff.mp none_
      refine ⟨by rw [e]; exact absent, empty, ?_⟩
      cases seq with
      | none => cases there.symm.trans (missing rfl).2
      | some seq =>
        refine ⟨⟨seq, none, .runStarted workflow payload budget, now⟩, ?_, rfl, rfl⟩
        rw [log, (rows _).2, empty, if_pos e]
        rfl
    · left
      rw [log, (rows _).2, if_neg e, List.append_nil]

/-- What a cancel request does: it is refused and leaves the store alone, or it is granted,
and then sets the flag and appends its event. -/
theorem requestCancel_cases {runId : Uuid} {granted : Bool} (numbered : st.Numbered)
    (h : st.requestCancel now runId = .ok (granted, st')) :
    (granted = false ∧ st' = st ∧
      ∀ run, st.getRun runId = some run → run.status.terminal = true) ∨
    (granted = true ∧ (∃ run, st.getRun runId = some run ∧ run.status.terminal = false) ∧
      st'.isCancelRequested runId = true ∧
      ∃ seq, ∀ j, st'.loadEvents j = st.loadEvents j ++
        if j = runId then [⟨seq, none, .cancelRequested, now⟩] else []) := by
  refine (requestCancel_done h).imp id ?_
  rintro ⟨granted, ⟨run, found, going⟩, seq, appended⟩
  have flagged : (st.flag now runId).Numbered ∧
      ∀ j, (st.flag now runId).loadEvents j = st.loadEvents j :=
    StoreLemmas.numbered_update numbered (fun _ => by rfl) _
  have set : (st.flag now runId).getRun runId =
      some { run with cancelRequested := true, updatedAt := now } := by
    rw [Store.flag, Store.getRun, Table.find_update_self]
    exact congrArg (Option.map _) found
  obtain ⟨-, missing, log⟩ := appendEvent_log flagged.1 appended
  refine ⟨granted, ⟨run, found, going⟩, ?_, ?_⟩
  · show (st'.getRun runId).any (·.cancelRequested) = true
    rcases appendEvent_row appended runId with row | row <;>
      (rw [row, set]; rfl)
  · cases seq with
    | none => cases set.symm.trans (missing rfl).2
    | some seq =>
      refine ⟨seq, fun j => ?_⟩
      rw [log, flagged.2]
      split <;> rfl

/-- What an action that runs no code of an attempt adds to a log: nothing, the start of a run
that was not there, or the event of a cancel request of a run that was not terminal. -/
theorem outside_log {w w' : World} {a : Action} (numbered : w.store.Numbered)
    (h : w.step cfg a = some w') (outside : ¬ a.runsCode) (j : Uuid) :
    w'.store.loadEvents j = w.store.loadEvents j ∨
    (w.store.getRun j = none ∧ w.store.loadEvents j = [] ∧
      ∃ e workflow payload budget, w'.store.loadEvents j = [e] ∧ e.stepKey = none ∧
        e.payload = .runStarted workflow payload budget) ∨
    (a = .cancel j ∧ (∃ run, w.store.getRun j = some run ∧ run.status.terminal = false) ∧
      ∃ e, w'.store.loadEvents j = w.store.loadEvents j ++ [e] ∧ e.stepKey = none ∧
        e.payload = .cancelRequested) := by
  cases step_happens h with
  | submit done =>
    rcases submitRun_events numbered done j with same | ⟨none, empty, e, new, key, payload⟩
    · exact .inl same
    · exact .inr (.inl ⟨none, empty, e, _, _, _, new, key, payload⟩)
  | @cancel runId _ _ done =>
    rcases requestCancel_cases numbered done with ⟨-, rfl, -⟩ | ⟨-, going, -, seq, log⟩
    · exact .inl rfl
    · by_cases e : j = runId
      · subst e
        refine .inr (.inr ⟨rfl, going, _, (log j).trans (by rw [if_pos rfl]), rfl, rfl⟩)
      · exact .inl ((log j).trans (by rw [if_neg e, List.append_nil]))
  | @claim worker locked _ _ done =>
    have log := (claim_log numbered w.now worker cfg.leaseSeconds locked).2 j
    rw [done] at log
    exact .inl log
  | @beat _ _ proc worker _ _ _ _ _ store =>
    rcases store with rfl | rfl
    · exact .inl rfl
    · exact .inl ((heartbeat_log numbered w.now proc.loc.runId worker cfg.leaseSeconds).2 j)
  | main | task => exact absurd trivial outside
  | tick | execute | refused | call | stop => exact .inl rfl

end AnchorRuntime
