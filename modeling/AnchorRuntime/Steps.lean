import AnchorRuntime.System

/-!
# What a step of the system does

One inversion for `exec`, for each aspect of the state, and one for `World.step`. The
invariants are proved from these.

Results: `exec_log` and `exec_ctx`, what an operation does to the log and to the memory;
`step_cases`, what one action does to the world.
-/

namespace AnchorRuntime

open Effect Relational

/-! ## Operations -/

namespace ExecLemmas

theorem storeCall_cases {α : Type} {st st' : Store} {loc loc' : Local}
    {outcome : Except Exn (α × Store)} {ans : Answer} {r : Except Exn α}
    (h : storeCall st loc outcome ans = some (r, st', loc')) :
    loc' = loc ∧ ((∃ a, outcome = .ok (a, st') ∧ r = .ok a) ∨
      ∃ exc, r = .error exc ∧ st' = st ∧
        (outcome = .error exc ∨ ∃ type message, exc = .exception type message)) := by
  unfold storeCall at h
  split at h
  · split at h
    · cases h
      exact ⟨rfl, .inl ⟨_, rfl, rfl⟩⟩
    · cases h
      exact ⟨rfl, .inr ⟨_, rfl, rfl, .inl rfl⟩⟩
  · cases h
    exact ⟨rfl, .inr ⟨_, rfl, rfl, .inr ⟨_, _, rfl⟩⟩⟩
  · exact absurd h (by simp)

theorem memory_cases {α : Type} {st st' : Store} {loc loc' : Local}
    {f : RunContext → α × RunContext} {ans : Answer} {a : α}
    (h : memory st loc f ans = some (a, st', loc')) :
    ∃ ctx, loc.ctx = some ctx ∧ a = (f ctx).1 ∧ st' = st ∧
      loc' = { loc with ctx := some (f ctx).2 } := by
  unfold memory at h
  split at h
  · obtain ⟨ctx, hctx, same⟩ := Option.map_eq_some_iff.mp h
    cases same
    exact ⟨ctx, hctx, rfl, rfl, rfl⟩
  · exact absurd h (by simp)

theorem leaveUser_cases {st st' : Store} {loc loc' : Local} {u : UserCall} {ans : Answer}
    {r : Except Exn Value} (h : leaveUser st loc u ans = some (r, st', loc')) :
    st' = st ∧ loc' = loc := by
  cases ans <;> cases u <;> simp_all [leaveUser]

end ExecLemmas

open ExecLemmas

variable {cfg : Config} {now : Int} {st st' : Store} {loc loc' : Local} {ans : Answer}

/-- The statements that change the store, with the store they leave. -/
inductive Wrote (cfg : Config) (now : Int) (st : Store) (loc : Local) :
    (o : Op) → Ans o → Store → Prop
  | appendEvent {key : Option String} {payload : Payload} {n : Option Nat} {st' : Store} :
      st.appendEvent now loc.runId key payload = .ok (n, st') →
      Wrote cfg now st loc (.appendEvent key payload) (.ok n) st'
  | setStatus {status : RunStatus} {result : Value} {error : Option RunError} {st' : Store} :
      st.setStatus now loc.runId status result error = .ok ((), st') →
      Wrote cfg now st loc (.setStatus status result error) (.ok ()) st'
  | bumpAttempt :
      Wrote cfg now st loc .bumpAttempt (.ok (st.bumpAttempt now loc.runId).1)
        (st.bumpAttempt now loc.runId).2
  | saveUsage (usage : Usage) :
      Wrote cfg now st loc .saveUsage (.ok ()) (st.saveUsage now loc.runId usage)
  | heartbeat {worker : String} : loc.worker = some worker →
      Wrote cfg now st loc .heartbeat
        (.ok (st.heartbeat now loc.runId worker cfg.leaseSeconds).1)
        (st.heartbeat now loc.runId worker cfg.leaseSeconds).2
  | release {worker : String} : loc.worker = some worker →
      Wrote cfg now st loc .release (.ok ())
        (st.release now loc.runId worker cfg.pollIntervalSeconds)
  | dequeue : Wrote cfg now st loc .dequeue (.ok ()) (st.dequeue loc.runId)

/-- The statements that change the store, once they have not raised. -/
def writes : (o : Op) → Ans o → Prop
  | .appendEvent _ _, .ok _ | .setStatus _ _ _, .ok _ | .bumpAttempt, .ok _ | .saveUsage, .ok _
  | .heartbeat, .ok _ | .release, .ok _ | .dequeue, .ok _ => True
  | _, _ => False

/-- What an operation does to the store. -/
theorem exec_store {o : Op} {r : Ans o} (run : exec cfg now st loc ans o = some (r, st', loc')) :
    (st' = st ∧ ¬ writes o r) ∨ Wrote cfg now st loc o r st' := by
  cases o with
  | appendEvent key payload =>
    obtain ⟨-, ⟨n, ok, rfl⟩ | ⟨exc, rfl, rfl, -⟩⟩ := storeCall_cases run
    · exact .inr (.appendEvent ok)
    · exact .inl ⟨rfl, id⟩
  | setStatus status result error =>
    obtain ⟨-, ⟨n, ok, rfl⟩ | ⟨exc, rfl, rfl, -⟩⟩ := storeCall_cases run
    · exact .inr (.setStatus ok)
    · exact .inl ⟨rfl, id⟩
  | bumpAttempt =>
    simp only [exec] at run
    obtain ⟨-, ⟨n, ok, rfl⟩ | ⟨exc, rfl, rfl, -⟩⟩ := storeCall_cases run
    · cases ok
      exact .inr .bumpAttempt
    · exact .inl ⟨rfl, id⟩
  | saveUsage =>
    obtain ⟨ctx, -, run⟩ := Option.bind_eq_some_iff.mp run
    obtain ⟨-, ⟨n, ok, rfl⟩ | ⟨exc, rfl, rfl, -⟩⟩ := storeCall_cases run
    · cases ok
      exact .inr (.saveUsage ctx.usage)
    · exact .inl ⟨rfl, id⟩
  | heartbeat =>
    obtain ⟨worker, known, run⟩ := Option.bind_eq_some_iff.mp run
    obtain ⟨-, ⟨n, ok, rfl⟩ | ⟨exc, rfl, rfl, -⟩⟩ := storeCall_cases run
    · obtain ⟨rfl, rfl⟩ := Prod.ext_iff.mp (Except.ok.inj ok)
      exact .inr (.heartbeat known)
    · exact .inl ⟨rfl, id⟩
  | release =>
    obtain ⟨worker, known, run⟩ := Option.bind_eq_some_iff.mp run
    obtain ⟨-, ⟨n, ok, rfl⟩ | ⟨exc, rfl, rfl, -⟩⟩ := storeCall_cases run
    · cases ok
      exact .inr (.release known)
    · exact .inl ⟨rfl, id⟩
  | dequeue =>
    simp only [exec] at run
    obtain ⟨-, ⟨n, ok, rfl⟩ | ⟨exc, rfl, rfl, -⟩⟩ := storeCall_cases run
    · cases ok
      exact .inr .dequeue
    · exact .inl ⟨rfl, id⟩
  | getRun | isCancelRequested | loadEvents =>
    simp only [exec] at run
    obtain ⟨-, ⟨n, ok, rfl⟩ | ⟨exc, rfl, rfl, -⟩⟩ := storeCall_cases run
    · cases ok
      exact .inl ⟨rfl, id⟩
    · exact .inl ⟨rfl, id⟩
  | completed | countReplayed | unresolved | recordResult | countExecuted | checkBudget
  | addToolCall | addModelUsage | snapshot =>
    obtain ⟨ctx, -, -, same, -⟩ := memory_cases run
    exact .inl ⟨same, id⟩
  | leave u => exact .inl ⟨(leaveUser_cases run).1, id⟩
  | newContext _ _ | enter _ | sleep _ =>
    cases ans <;> first | (cases run <;> exact .inl ⟨rfl, id⟩)
  | stopHeartbeat =>
    simp only [exec] at run
    split at run <;> (cases run <;> exact .inl ⟨rfl, id⟩)

/-- The events an answered operation has written, under the run of its attempt. -/
def written (now : Int) : (o : Op) → Ans o → List Event
  | .appendEvent key payload, .ok (some seq) => [⟨seq, key, payload, now⟩]
  | _, _ => []

/-- What an operation does to the logs. -/
theorem exec_log {o : Op} {r : Ans o} (h : st.Numbered)
    (run : exec cfg now st loc ans o = some (r, st', loc')) :
    st'.Numbered ∧ ∀ j, st'.loadEvents j =
      st.loadEvents j ++ if j = loc.runId then written now o r else [] := by
  have quiet : ∀ {s : Store}, (s.Numbered ∧ ∀ j, s.loadEvents j = st.loadEvents j) →
      written now o r = [] → s.Numbered ∧ ∀ j, s.loadEvents j =
        st.loadEvents j ++ if j = loc.runId then written now o r else [] := by
    rintro s ⟨numbered, log⟩ none
    exact ⟨numbered, fun j => by rw [log, none, ite_self, List.append_nil]⟩
  rcases exec_store run with ⟨rfl, idle⟩ | wrote
  · refine quiet ⟨h, fun _ => rfl⟩ ?_
    unfold written
    split
    · exact absurd trivial idle
    · rfl
  · cases wrote with
    | @appendEvent _ _ n _ ok =>
      obtain ⟨numbered, -, log⟩ := appendEvent_log h ok
      refine ⟨numbered, fun j => ?_⟩
      rw [log]
      split
      · cases n <;> rfl
      · rfl
    | setStatus ok => exact quiet (setStatus_log h ok) rfl
    | bumpAttempt => exact quiet (StoreLemmas.numbered_update h (fun _ => by rfl) _) rfl
    | saveUsage usage => exact quiet (StoreLemmas.numbered_update h (fun _ => by rfl) _) rfl
    | heartbeat => exact quiet (heartbeat_log h _ _ _ _) rfl
    | release => exact quiet (release_log h _ _ _ _) rfl
    | dequeue => exact quiet (StoreLemmas.numbered_queue h _) rfl

/-- What an operation makes of the fate of its run. -/
def stood : (o : Op) → Ans o → RunStatus × Value × Option RunError →
    RunStatus × Value × Option RunError
  | .setStatus status result error, .ok _ => restand status result error
  | _, _ => id

/-- What an operation does to the fate of runs and to the queue. -/
theorem exec_standing {o : Op} {r : Ans o} (run : exec cfg now st loc ans o = some (r, st', loc'))
    (j : Uuid) :
    st'.standing j = (if j = loc.runId then (st.standing j).map (stood o r)
      else st.standing j) ∧
    ((st.runQueue.find j).isSome = true → (st'.runQueue.find j).isSome = true ∨
      (o = .dequeue ∧ j = loc.runId)) := by
  have still : ∀ {s : Store}, s.standing j = st.standing j → stood o r = id →
      (s.runQueue.find j).isSome = (st.runQueue.find j).isSome →
      s.standing j = (if j = loc.runId then (st.standing j).map (stood o r)
        else st.standing j) ∧
      ((st.runQueue.find j).isSome = true → (s.runQueue.find j).isSome = true ∨
        (o = .dequeue ∧ j = loc.runId)) := by
    intro s standing none queue
    refine ⟨?_, fun h => .inl (queue.trans h)⟩
    rw [standing, none, Option.map_id, id, ite_self]
  rcases exec_store run with ⟨rfl, idle⟩ | wrote
  · refine still rfl ?_ rfl
    unfold stood
    split
    · exact absurd trivial idle
    · rfl
  · cases wrote with
    | appendEvent ok =>
      obtain ⟨standing, queue⟩ := appendEvent_standing ok j
      exact still standing rfl (by rw [queue])
    | setStatus ok =>
      obtain ⟨standing, queue⟩ := setStatus_standing ok j
      exact ⟨standing, fun h => .inl (by rw [queue]; exact h)⟩
    | bumpAttempt =>
      exact still (StoreLemmas.standing_update (fun _ => by rfl) (fun _ => by rfl)
        (fun _ => by rfl) _ _ j) rfl rfl
    | saveUsage usage =>
      exact still (StoreLemmas.standing_update (fun _ => by rfl) (fun _ => by rfl)
        (fun _ => by rfl) _ _ j) rfl rfl
    | @heartbeat worker _ =>
      obtain ⟨standing, queue⟩ := heartbeat_standing st now loc.runId worker cfg.leaseSeconds j
      exact still standing rfl queue
    | @release worker _ =>
      obtain ⟨standing, queue⟩ :=
        release_standing st now loc.runId worker cfg.pollIntervalSeconds j
      exact still standing rfl queue
    | dequeue =>
      refine ⟨?_, fun h => ?_⟩
      · rw [show stood .dequeue _ = id from rfl, Option.map_id, id, ite_self]
        rfl
      · by_cases e : j = loc.runId
        · exact .inr ⟨rfl, e⟩
        · refine .inl ?_
          rw [Store.dequeue, Table.find_delete, if_neg e]
          exact h

/-- Contexts that agree on everything replay is decided by. -/
structure SameMemory (a b : RunContext) : Prop where
  run : b.run = a.run
  loaded : b.loaded = a.loaded
  ordinals : b.ordinals = a.ordinals
  completed : b.completed = a.completed
  unresolved : b.unresolved = a.unresolved

theorem SameMemory.refl (a : RunContext) : SameMemory a a := ⟨rfl, rfl, rfl, rfl, rfl⟩

/-- What is in the memory once a step has recorded its result. -/
def RunContext.record (ctx : RunContext) (key : String) (result : Value) : RunContext :=
  { ctx with
    completed := Function.update ctx.completed key (some result)
    unresolved := Function.update ctx.unresolved key none }

/-- What an operation may do to the context. -/
inductive Remembered : (o : Op) → Option RunContext → Option RunContext → Prop
  | none {o : Op} : Remembered o none none
  | same {o : Op} {ctx ctx' : RunContext} : SameMemory ctx ctx' →
      Remembered o (some ctx) (some ctx')
  | build {run : RunRecord} {events : List Event} {ctx : Option RunContext} :
      Remembered (.newContext run events) ctx (some (.init run events))
  | record {key : String} {result : Value} {ctx : RunContext} :
      Remembered (.recordResult key result) (some ctx) (some (ctx.record key result))

theorem remembered_refl {o : Op} (ctx : Option RunContext) : Remembered o ctx ctx := by
  cases ctx with
  | none => exact .none
  | some ctx => exact .same (.refl ctx)

/-- What an operation does to the attempt's shared state. -/
theorem exec_ctx {o : Op} {r : Ans o} (run : exec cfg now st loc ans o = some (r, st', loc')) :
    loc'.runId = loc.runId ∧ loc'.worker = loc.worker ∧ Remembered o loc.ctx loc'.ctx := by
  have unchanged : ∀ {l : Local}, l = loc →
      l.runId = loc.runId ∧ l.worker = loc.worker ∧ Remembered o loc.ctx l.ctx := by
    rintro _ rfl
    exact ⟨rfl, rfl, remembered_refl _⟩
  cases o with
  | saveUsage | heartbeat | release =>
    obtain ⟨_, -, run⟩ := Option.bind_eq_some_iff.mp run
    exact unchanged (storeCall_cases run).1
  | appendEvent | setStatus | bumpAttempt | dequeue | getRun | isCancelRequested | loadEvents =>
    simp only [exec] at run
    exact unchanged (storeCall_cases run).1
  | recordResult key result =>
    obtain ⟨ctx, known, -, -, rfl⟩ := memory_cases run
    rw [known]
    exact ⟨rfl, rfl, .record⟩
  | completed | countReplayed | unresolved | countExecuted | checkBudget | addToolCall
  | addModelUsage | snapshot =>
    obtain ⟨ctx, known, -, -, rfl⟩ := memory_cases run
    rw [known]
    exact ⟨rfl, rfl, .same ⟨rfl, rfl, rfl, rfl, rfl⟩⟩
  | leave u => exact unchanged (leaveUser_cases run).2
  | newContext _ _ =>
    cases ans <;> first | (cases run <;> exact ⟨rfl, rfl, .build⟩)
  | enter _ | sleep _ =>
    cases ans <;> first | (cases run <;> exact unchanged rfl)
  | stopHeartbeat =>
    simp only [exec] at run
    split at run <;> (cases run <;> exact ⟨rfl, rfl, remembered_refl _⟩)

/-! ## Actions -/

/-- What one action does to the world. -/
inductive Happens (cfg : Config) (w : World) : Action → World → Prop
  | submit {runId : Uuid} {workflow : String} {payload : Value} {key : String} {budget : Budget}
      {answer : RunRecord × Bool} {store : Store} :
      w.store.submitRun w.now runId workflow payload key budget = .ok (answer, store) →
      Happens cfg w (.submit runId workflow payload key budget) { w with store }
  | cancel {runId : Uuid} {granted : Bool} {store : Store} :
      w.store.requestCancel w.now runId = .ok (granted, store) →
      Happens cfg w (.cancel runId) { w with store }
  | tick {elapsed : Nat} : Happens cfg w (.tick elapsed) { w with now := w.now + elapsed }
  | claim {worker : String} {locked : List Uuid} {claim : Claim} {store : Store} :
      w.store.claim w.now worker cfg.leaseSeconds locked = (some claim, store) →
      Happens cfg w (.claim worker locked)
        { w with store, procs := w.procs ++ [.claimed cfg worker claim.runId] }
  | execute {runId : Uuid} :
      Happens cfg w (.execute runId) { w with procs := w.procs ++ [.executed cfg runId] }
  | beat {p : Nat} {ans : Answer} {proc : Proc} {worker : String} {store : Store} (beat : Beat) :
      w.procs[p]? = some proc → proc.stopped = false → proc.loc.worker = some worker →
      store = w.store ∨
        store = (w.store.heartbeat w.now proc.loc.runId worker cfg.leaseSeconds).2 →
      Happens cfg w (.beat p ans)
        { w with store, procs := w.procs.set p { proc with loc := { proc.loc with beat } } }
  | main {p : Nat} {ans : Answer} {proc : Proc} {o : Op} {k : Ans o → Code (Option Outcome)}
      {r : Ans o} {store : Store} {loc : Local} :
      w.procs[p]? = some proc → proc.stopped = false → proc.main = .step o k →
      exec cfg w.now w.store proc.loc ans o = some (r, store, loc) →
      Happens cfg w (.main p ans)
        { w with
          store
          procs := w.procs.set p
            { proc with loc, phase := proc.phase.next o r, main := k r, started := true }
          moments := w.moments ++ w.moment p proc.loc.runId o r }
  | task {p c b : Nat} {ans : Answer} {proc : Proc} {rec : CallRecord} {t : Task} {o : Op}
      {k : Ans o → Code Value} {r : Ans o} {store : Store} {loc : Local} :
      w.procs[p]? = some proc → proc.stopped = false → proc.calls[c]? = some rec →
      rec.tasks[b]? = some t → t.prog = .step o k →
      exec cfg w.now w.store proc.loc ans o = some (r, store, loc) →
      Happens cfg w (.task p c b ans)
        { w with
          store
          procs := w.procs.set p ({ proc with loc }.setTask c b
            { t with
              stage := (rec.call.setup cfg proc.loc.runId proc.loc.guarded t.key).next t.stage o r
              prog := k r })
          moments := w.moments ++ w.moment p proc.loc.runId o r }
  | refused {p : Nat} {caller : Option (Nat × Nat)} {role : Role} {c : Call} {proc : Proc}
      {path : List Place} {exc : Exn} {ctx : RunContext} :
      w.procs[p]? = some proc → proc.stopped = false →
      w.callerPath p proc role caller = some path → proc.loc.ctx = some ctx →
      c.names cfg = .error exc →
      Happens cfg w (.call p caller role c)
        (w.setProc p { proc with
          calls := proc.calls ++ [⟨path, role, proc.callsBy path role, c, some exc, []⟩] })
  | call {p : Nat} {caller : Option (Nat × Nat)} {role : Role} {c : Call} {proc : Proc}
      {path : List Place} {names : List String} {ctx : RunContext} :
      w.procs[p]? = some proc → proc.stopped = false →
      w.callerPath p proc role caller = some path → proc.loc.ctx = some ctx →
      c.names cfg = .ok names →
      Happens cfg w (.call p caller role c)
        (w.setProc p { proc with
          loc := { proc.loc with ctx := some (ctx.nextKeys names).2 }
          calls := proc.calls ++ [⟨path, role, proc.callsBy path role, c, none,
            proc.newTasks cfg path role c (ctx.nextKeys names).1⟩] })
  | stop {p : Nat} {proc : Proc} : w.procs[p]? = some proc →
      Happens cfg w (.stop p) (w.setProc p { proc with stopped := true })

theorem step_happens {w w' : World} {a : Action} (h : w.step cfg a = some w') :
    Happens cfg w a w' := by
  cases a with
  | submit runId workflow payload key budget =>
    simp only [World.step] at h
    split at h
    · next done =>
      cases h
      exact .submit done
    · exact absurd h (by simp)
  | cancel runId =>
    simp only [World.step] at h
    split at h
    · next done =>
      cases h
      exact .cancel done
    · exact absurd h (by simp)
  | tick elapsed =>
    cases h
    exact .tick
  | claim worker locked =>
    simp only [World.step] at h
    split at h
    · next done =>
      cases h
      exact .claim done
    · exact absurd h (by simp)
  | execute runId =>
    cases h
    exact .execute
  | beat p ans =>
    simp only [World.step, Option.bind_eq_bind, Option.bind_eq_some_iff] at h
    obtain ⟨proc, hproc, worker, hworker, h⟩ := h
    split at h
    · exact absurd h (by simp)
    · next live =>
      split at h
      · obtain ⟨⟨r, store, loc⟩, hbeat, h⟩ := Option.bind_eq_some_iff.mp h
        cases h
        obtain ⟨rfl, cases_⟩ := ExecLemmas.storeCall_cases hbeat
        refine .beat _ hproc (by simpa using live) hworker ?_
        rcases cases_ with ⟨b, ok, -⟩ | ⟨exc, -, same, -⟩
        · exact .inr (Prod.ext_iff.mp (Except.ok.inj ok)).2.symm
        · exact .inl same
      · exact absurd h (by simp)
  | main p ans =>
    simp only [World.step, Option.bind_eq_bind, Option.bind_eq_some_iff] at h
    obtain ⟨proc, hproc, h⟩ := h
    split at h
    · exact absurd h (by simp)
    · next live =>
      simp only [World.stepMain] at h
      split at h
      · next o k hmain =>
        obtain ⟨⟨r, store, loc⟩, hexec, rfl⟩ := Option.map_eq_some_iff.mp h
        exact .main hproc (by simpa using live) hmain hexec
      · exact absurd h (by simp)
  | task p c b ans =>
    simp only [World.step, Option.bind_eq_bind, Option.bind_eq_some_iff] at h
    obtain ⟨proc, hproc, h⟩ := h
    split at h
    · exact absurd h (by simp)
    · next live =>
      simp only [Option.bind_eq_some_iff] at h
      obtain ⟨rec, hrec, t, ht, h⟩ := h
      simp only [World.stepTask] at h
      split at h
      · next o k hprog =>
        obtain ⟨⟨r, store, loc⟩, hexec, rfl⟩ := Option.map_eq_some_iff.mp h
        exact .task hproc (by simpa using live) hrec ht hprog hexec
      · exact absurd h (by simp)
  | call p caller role c =>
    simp only [World.step, Option.bind_eq_bind, Option.bind_eq_some_iff] at h
    obtain ⟨proc, hproc, h⟩ := h
    split at h
    · exact absurd h (by simp)
    · next live =>
      simp only [Option.bind_eq_some_iff] at h
      obtain ⟨path, hpath, h⟩ := h
      simp only [World.callContext] at h
      obtain ⟨ctx, hctx, h⟩ := Option.map_eq_some_iff.mp h
      split at h
      · next names =>
        subst h
        exact .refused hproc (by simpa using live) hpath hctx names
      · next names =>
        subst h
        exact .call hproc (by simpa using live) hpath hctx names
  | stop p =>
    simp only [World.step, Option.bind_eq_bind, Option.bind_eq_some_iff] at h
    obtain ⟨proc, hproc, h⟩ := h
    cases h
    exact .stop hproc

/-- The main code of an attempt that goes on takes its step when its operation is answered. -/
theorem step_main {w : World} {p : Nat} {ans : Answer} {proc : Proc} {o : Op}
    {k : Ans o → Code (Option Outcome)} {r : Ans o} {store : Store} {loc : Local}
    (hp : w.procs[p]? = some proc) (alive : proc.stopped = false) (main : proc.main = .step o k)
    (run : exec cfg w.now w.store proc.loc ans o = some (r, store, loc)) :
    w.step cfg (.main p ans) = some
      { w with
        store
        procs := w.procs.set p
          { proc with loc, phase := proc.phase.next o r, main := k r, started := true }
        moments := w.moments ++ w.moment p proc.loc.runId o r } := by
  simp only [World.step, hp, Option.bind_eq_bind, Option.bind_some, alive, World.stepMain, main,
    run, Option.map_some, if_neg Bool.false_ne_true]

end AnchorRuntime
