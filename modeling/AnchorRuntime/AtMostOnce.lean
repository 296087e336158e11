import AnchorRuntime.Completion

/-!
# At-most-once bodies

A step declared at-most-once guards its body against a crash, not against the body's own
exception: the retry loop runs it again while a try is left, and a recorded failure closes
the window, so that a later attempt starts the body anew.

Results: `invoked_at_most_once`, away from these two the body of an at-most-once key is
invoked at most once over all attempts.
-/

namespace AnchorRuntime

open Effect Machine ShapeLemmas ProcLemmas

/-! ## The condition -/

/-- The end of the task's body makes the step try again. -/
def Task.retried (attempts : Int) (t : Task) : Answer → Bool
  | .raise exc =>
    match t.stage with
    | .running n => !exc.control && n < attempts
    | _ => false
  | _ => false

/-- The task is about to open a window although the log records a failure of its key. -/
def Task.reopens (log : List Event) (t : Task) : Bool :=
  match t.stage with
  | .starting => logged t.key Payload.isFailure log
  | _ => false

/-- No at-most-once body raises with a try left, and none is started once its failure is in
the log. -/
def firstTryOnly (cfg : Config) (w : World) : Action → Prop
  | .task p c b ans => ∀ proc ∈ w.procs[p]?, ∀ rec ∈ proc.calls[c]?, ∀ t ∈ rec.tasks[b]?,
    rec.call.idempotency cfg = .atMostOnce →
      t.retried (rec.call.attempts cfg) ans = false ∧
        t.reopens (w.store.loadEvents proc.loc.runId) = false
  | _ => True

instance (cfg : Config) (w : World) (a : Action) : Decidable (firstTryOnly cfg w a) :=
  match a with
  | .task p c b ans => inferInstanceAs (Decidable (∀ proc ∈ w.procs[p]?, ∀ rec ∈ proc.calls[c]?,
      ∀ t ∈ rec.tasks[b]?, rec.call.idempotency cfg = .atMostOnce →
        t.retried (rec.call.attempts cfg) ans = false ∧
          t.reopens (w.store.loadEvents proc.loc.runId) = false))
  | .submit _ _ _ _ _ | .cancel _ | .tick _ | .claim _ _ | .execute _ | .beat _ _ | .main _ _
  | .call _ _ _ _ | .stop _ => .isTrue trivial

/-- Every step on the key was declared at-most-once, in every attempt. -/
def World.AtMostOnce (cfg : Config) (w : World) (runId : Uuid) (key : String) : Prop :=
  ∀ proc ∈ w.procs, proc.loc.runId = runId → ∀ rec ∈ proc.calls, ∀ t ∈ rec.tasks, t.key = key →
    rec.call.idempotency cfg = .atMostOnce

instance (cfg : Config) (w : World) (runId : Uuid) (key : String) :
    Decidable (w.AtMostOnce cfg runId key) :=
  inferInstanceAs (Decidable (∀ proc ∈ w.procs, proc.loc.runId = runId → ∀ rec ∈ proc.calls,
    ∀ t ∈ rec.tasks, t.key = key → rec.call.idempotency cfg = .atMostOnce))

/-! ## The invariant -/

/-- What a stage of an at-most-once step says when no try was repeated; `uninvoked` says that
the body was never invoked. -/
def Stage.FirstTry (attempts : Int) (uninvoked : Prop) : Stage → Prop
  | .ready n _ => n = 1 ∧ uninvoked
  | .raised n exc => exc.control = true ∨ ¬ (n : Int) < attempts
  | .waiting _ => False
  | _ => True

structure World.Once (cfg : Config) (w : World) (runId : Uuid) (key : String) : Prop where
  once : (w.invocations runId key).length ≤ 1
  fresh : w.life cfg runId key = some .fresh → w.invocations runId key = []
  tasks : ∀ (p : Nat) (proc : Proc), w.procs[p]? = some proc → proc.stopped = false →
    proc.loc.runId = runId → ∀ c b rec t, proc.At c b rec t → t.key = key →
    t.stage.FirstTry (rec.call.attempts cfg) (w.invocations runId key = [])

namespace AtMostOnceLemmas

variable {cfg : Config} {w w' : World} {a : Action} {s : StepSetup} {stage : Stage}
  {runId : Uuid} {key : String}

theorem firstTry_next {o : Op} {r : Ans o} {old new : Prop} (amo : s.idempotency = .atMostOnce)
    (may : s.allowed stage o) (first : stage.FirstTry s.attempts old)
    (raised : ∀ n exc, stage = .running n → s.next stage o r = .raised n exc →
      exc.control = true ∨ ¬ (n : Int) < s.attempts)
    (start : stage = .starting → new) (keep : o = .addToolCall → old → new) :
    (s.next stage o r).FirstTry s.attempts new := by
  have moves := StepSetup.moves may r
  generalize s.next stage o r = stage' at moves raised ⊢
  cases moves with
  | start seq => exact ⟨rfl, start rfl⟩
  | again seq class_ => exact absurd (amo.symm.trans class_) (by simp)
  | addToolCall => exact ⟨first.1, keep rfl first.2⟩
  | raised exc => exact raised _ exc rfl rfl
  | retry seq control more =>
    rcases first with is | last
    · exact absurd (is.symm.trans control) (by simp)
    · exact absurd more last
  | sleep => exact first.elim
  | _ => trivial

/-- Only a start opens the first window. -/
theorem begun_stays {token : String} {life life' : Life} {es : List Event}
    (h : Monitor.run (Life.step token key) life es = some life') (begun : life.begun) :
    life'.begun := by
  have step : ∀ u e v, Life.begun u → Life.step token key u e = some v → v.begun ∧ ¬ False := by
    intro u e v begun move
    refine ⟨?_, id⟩
    unfold Life.step at move
    split at move
    · cases u <;> cases hp : e.payload <;> simp [hp, Life.move, Payload.lifecycle] at move <;>
        first | exact begun.elim | (subst move; trivial) | (obtain ⟨-, rfl⟩ := move; trivial)
    · cases move
      exact begun
  exact (Monitor.run_absorbed Life.begun (fun _ => False) step h begun).1

/-- A failed window has its failure in the log. -/
theorem failed_logged {token : String} {log : List Event}
    (h : lifeOf token key log = some .failed) : logged key Payload.isFailure log = true := by
  have step : ∀ u e v, Life.step token key u e = some v → v = .failed →
      u = .failed ∨ e.under key Payload.isFailure = true := by
    rintro u e v move rfl
    unfold Life.step at move
    split at move
    · next same =>
      cases hp : e.payload with
      | stepFailed n error => exact .inr (by simp [Event.under, same, hp, Payload.isFailure])
      | _ => cases u <;> simp [hp, Life.move, Payload.lifecycle] at move <;> exact .inl rfl
    · cases move
      exact .inl rfl
  rw [logged, List.any_eq_true]
  rcases Monitor.run_entered (· = .failed) (fun e => e.under key Payload.isFailure = true) step h
    rfl with fresh | found
  · cases fresh
  · exact found

theorem atMostOnce_at {p c b : Nat} {proc : Proc} {rec : CallRecord} {t : Task}
    (amo : w.AtMostOnce cfg runId key) (hp : w.procs[p]? = some proc)
    (run : proc.loc.runId = runId) (at_ : proc.At c b rec t) (hkey : t.key = key) :
    rec.call.idempotency cfg = .atMostOnce :=
  amo proc (List.mem_of_getElem? hp) run rec (List.mem_of_getElem? at_.1) t
    (List.mem_of_getElem? at_.2) hkey

/-- A key that was never declared otherwise had not been before. -/
theorem atMostOnce_before (h : w.step cfg a = some w') (amo : w'.AtMostOnce cfg runId key) :
    w.AtMostOnce cfg runId key := by
  intro proc hproc run rec hrec t ht hkey
  obtain ⟨p, hp⟩ := List.mem_iff_getElem?.mp hproc
  obtain ⟨c, hc⟩ := List.mem_iff_getElem?.mp hrec
  obtain ⟨b, hb⟩ := List.mem_iff_getElem?.mp ht
  obtain ⟨proc', rec', t', hp', run', at', call, key', -⟩ :=
    task_persists h hp (show proc.At c b rec t from ⟨hc, hb⟩)
  rw [← call.call]
  exact atMostOnce_at amo hp' (run'.trans run) at' (key'.trans hkey)

/-- What the guard says of a step of a task. -/
theorem firstTryOnly_task {p c b : Nat} {ans : Answer} {proc : Proc} {rec : CallRecord} {t : Task}
    (ok : firstTryOnly cfg w (.task p c b ans)) (hp : w.procs[p]? = some proc)
    (at_ : proc.At c b rec t) (amo : rec.call.idempotency cfg = .atMostOnce) :
    t.retried (rec.call.attempts cfg) ans = false ∧
      t.reopens (w.store.loadEvents proc.loc.runId) = false :=
  ok proc hp rec at_.1 t at_.2 amo

theorem leave_raise {now : Int} {st st' : Store} {loc loc' : Local} {ans : Answer} {u : UserCall}
    {exc : Exn} (run : exec cfg now st loc ans (.leave u) = some (.error exc, st', loc')) :
    ans = .raise exc := by
  cases ans <;> cases u <;> simp_all [exec, leaveUser]

/-- The guard keeps a raised at-most-once body from being tried again. -/
theorem raised_last {ans : Answer} {proc : Proc} {t : Task} {o : Op} {r : Ans o} {st' : Store}
    {loc' : Local} {s : StepSetup}
    (ok : t.retried s.attempts ans = false)
    (may : s.allowed t.stage o)
    (run : exec cfg w.now w.store proc.loc ans o = some (r, st', loc')) (n : Nat) (exc : Exn)
    (running : t.stage = .running n) (next : s.next t.stage o r = .raised n exc) :
    exc.control = true ∨ ¬ (n : Int) < s.attempts := by
  rw [running] at may next
  obtain ⟨u, -, rfl⟩ := may
  cases r with
  | ok v => cases next
  | error e =>
    cases next
    rw [leave_raise run] at ok
    simp only [Task.retried, running, Bool.and_eq_false_iff, Bool.not_eq_false',
      decide_eq_false_iff_not] at ok
    exact ok

/-- While a live task on the key does nothing, nobody invokes the body. -/
theorem invocations_unmoved {q c b : Nat} {proc : Proc} {rec : CallRecord} {t : Task}
    (shaped : ∀ (p : Nat) (proc : Proc), w.procs[p]? = some proc → proc.Shaped cfg)
    (h : w.step cfg a = some w') (ooa : oneAfterAnother w a) (hq : w.procs[q]? = some proc)
    (live : proc.stopped = false) (run : proc.loc.runId = runId) (at_ : proc.At c b rec t)
    (hkey : t.key = key) (elsewhere : ∀ ans, a ≠ .task q c b ans) :
    w'.invocations runId key = w.invocations runId key := by
  rcases invocations_step shaped h runId key with same | ⟨m, -, enters⟩
  · exact same
  · cases enters with
    | @task _ _ _ _ ans _ _ _ _ hp alive at' hkey' run' =>
      obtain rfl := ooa.idle rfl hp hq (run.trans run'.symm) live (shaped _ _ hq) at_
      cases Option.some.inj (hp.symm.trans hq)
      obtain ⟨rfl, rfl⟩ := at_key_inj (shaped _ _ hp).nodup at' at_ (hkey'.trans hkey.symm)
      exact absurd rfl (elsewhere ans)

/-- A task that does something else than to enter its body invokes nothing. -/
theorem invocations_stay (runId : Uuid) (key : String) {q c b : Nat} {ans : Answer}
    {proc : Proc} {rec : CallRecord} {t : Task} {o : Op} {k : Ans o → Code Value}
    (shaped : ∀ (p : Nat) (proc : Proc), w.procs[p]? = some proc → proc.Shaped cfg)
    (h : w.step cfg (.task q c b ans) = some w') (hq : w.procs[q]? = some proc)
    (at_ : proc.At c b rec t) (hprog : t.prog = .step o k) (other : ∀ u, o ≠ .enter u) :
    w'.invocations runId key = w.invocations runId key := by
  rcases invocations_step shaped h runId key with same | ⟨m, -, enters⟩
  · exact same
  · cases enters with
    | task hp _ at' _ _ _ _ _ _ _ _ next =>
      cases Option.some.inj (hq.symm.trans hp)
      cases Option.some.inj (at_.1.symm.trans at'.1)
      cases Option.some.inj (at_.2.symm.trans at'.2)
      rw [hprog] at next
      exact absurd (Option.some.inj next) (other _)

/-- A task about to open a window opens the first one, unless it reopens a failed one. -/
theorem first_window {c b : Nat} {proc : Proc} {rec : CallRecord} {t : Task}
    (shaped : proc.Shaped cfg) (inv : proc.InStep cfg w) (at_ : proc.At c b rec t)
    (starting : t.stage = .starting)
    (ok : t.reopens (w.store.loadEvents proc.loc.runId) = false) :
    w.life cfg proc.loc.runId t.key = some .fresh := by
  obtain ⟨ctx, hctx⟩ := Option.isSome_iff_exists.mp (TaskLemmas.at_known shaped at_)
  obtain ⟨life, hlife, agrees⟩ := inv.tasks ctx hctx c b rec t at_
  rw [starting] at agrees
  rcases agrees with rfl | rfl
  · exact hlife
  · simp only [Task.reopens, starting, failed_logged hlife] at ok
    cases ok

theorem once_tasks
    (shaped : ∀ (p : Nat) (proc : Proc), w.procs[p]? = some proc → proc.Shaped cfg)
    (h : w.step cfg a = some w') (ooa : oneAfterAnother w a) (ok : firstTryOnly cfg w a)
    (inv : w.Consistent cfg) (amo : w.AtMostOnce cfg runId key) (once : w.Once cfg runId key)
    {q c b : Nat} {proc' : Proc} {rec' : CallRecord} {t' : Task} (hq : w'.procs[q]? = some proc')
    (live : proc'.stopped = false) (run : proc'.loc.runId = runId) (at' : proc'.At c b rec' t')
    (hkey : t'.key = key) :
    t'.stage.FirstTry (rec'.call.attempts cfg) (w'.invocations runId key = []) := by
  cases task_cases shaped h hq at' with
  | same hp at_ call same alive elsewhere =>
    have run := same.runId.symm.trans run
    rw [invocations_unmoved shaped h ooa hp (alive live) run at_ hkey elsewhere, call.call]
    exact once.tasks _ _ hp (alive live) run _ _ _ _ at_ hkey
  | called => trivial
  | @moved proc rec t ans o k r act hp alive at_ call hprog hexec may =>
    subst act
    have run : proc.loc.runId = runId := (exec_ctx hexec).1.symm.trans run
    have hkey : t.key = key := hkey
    have class_ := atMostOnce_at amo hp run at_ hkey
    have guard := firstTryOnly_task ok hp at_ class_
    have stay := fun other => invocations_stay runId key shaped h hp at_ hprog other
    rw [call.call]
    refine firstTry_next class_ may (once.tasks _ _ hp alive run _ _ _ _ at_ hkey)
      (raised_last guard.1 may hexec) (fun starting => ?_) fun hop none => ?_
    · -- the window had never been opened, so the body had never been entered
      have fresh := first_window (shaped q proc hp) (inv.procs q proc hp alive) at_ starting guard.2
      rw [run, hkey] at fresh
      refine (stay fun u e => ?_).trans (once.fresh fresh)
      subst e
      rw [starting] at may
      cases may
    · exact (stay fun u e => by cases hop.symm.trans e).trans none

theorem once_step (numbered : w.store.Numbered)
    (shaped : ∀ (p : Nat) (proc : Proc), w.procs[p]? = some proc → proc.Shaped cfg)
    (h : w.step cfg a = some w') (ooa : oneAfterAnother w a) (ok : firstTryOnly cfg w a)
    (inv : w.Consistent cfg) (amo : w.AtMostOnce cfg runId key) (once : w.Once cfg runId key) :
    w'.Once cfg runId key := by
  obtain ⟨es, log, -⟩ := log_step numbered shaped h runId
  obtain ⟨life, hlife⟩ := inv.lives runId key
  -- the log says that no window was opened only if it said so before
  have fresh : w'.life cfg runId key = some .fresh → life = .fresh := by
    intro now
    rw [World.life, lifeOf, log, Monitor.run_append, ← lifeOf, ← World.life, hlife] at now
    cases life with
    | fresh => rfl
    | _ => exact (begun_stays now trivial).elim
  refine ⟨?_, fun now => ?_, fun q proc' hq live run c b rec' t' at' hkey =>
    once_tasks shaped h ooa ok inv amo once hq live run at' hkey⟩
  · rcases invocations_step shaped h runId key with same | ⟨m, one, enters⟩
    · rw [same]
      exact once.once
    · cases enters with
      | task hp alive at_ hkey run stage =>
        have first := once.tasks _ _ hp alive run _ _ _ _ at_ hkey
        obtain ⟨counted, stage⟩ := InvocationLemmas.trying_eq stage
        rw [stage] at first
        simp [one, first.2]
  · rcases invocations_step shaped h runId key with same | ⟨m, -, enters⟩
    · rw [same]
      exact once.fresh (fresh now ▸ hlife)
    · have opened := CompletionLemmas.enters_opened shaped inv enters
      rw [hlife, fresh now] at opened
      cases opened

end AtMostOnceLemmas

open AtMostOnceLemmas

/-- When no at-most-once body raises with a try left, and none is started once its failure
is in the log, attempts that follow one another invoke the body of an at-most-once key at
most once in total. -/
theorem invoked_at_most_once {cfg : Config} {now : Int} {w : World}
    (h : Reaches (World.step cfg) (fun w a => oneAfterAnother w a ∧ firstTryOnly cfg w a)
      (.init now) w) {runId : Uuid} {key : String} (amo : w.AtMostOnce cfg runId key) :
    (w.invocations runId key).length ≤ 1 := by
  suffices w.Once cfg runId key from this.once
  induction h with
  | refl =>
    exact ⟨Nat.zero_le _, fun _ => rfl, fun _ _ h => absurd h (by simp [World.init])⟩
  | tail h ok hs ih =>
    have before := atMostOnce_before hs amo
    exact once_step (numbered_reaches h) (fun _ _ => shaped_reaches h) hs ok.1 ok.2
      (consistent_reaches h fun _ _ ok => ok.1) before (ih before)

/-- An attempt that crashes in the body of an at-most-once step, and the next, which does not
run it again. -/
def Sample.cut : List Action :=
  opening ++ [calls 0 "x" .atMostOnce] ++ advance 0 0 7 ++
    [.stop 0, .tick 31000000, .claim "b" []] ++ proceed 1 8 ++ [calls 1 "x" .atMostOnce] ++
    advance 1 0 5

theorem invoked_at_most_once_cut : ∃ w,
    run (World.step Sample.cfg) (fun w a => oneAfterAnother w a ∧ firstTryOnly Sample.cfg w a)
      (.init 0) Sample.cut = some w ∧
    w.AtMostOnce Sample.cfg Sample.runId "x#1" ∧
    (w.invocations Sample.runId "x#1").length ≤ 1 := by
  obtain ⟨w, h, amo⟩ := run_exists (World.step Sample.cfg)
    (fun w a => oneAfterAnother w a ∧ firstTryOnly Sample.cfg w a) (.init 0) Sample.cut
    (fun w => w.AtMostOnce Sample.cfg Sample.runId "x#1") (by decide)
  exact ⟨w, h, amo, invoked_at_most_once (run_reaches h) amo⟩

/-- An attempt whose at-most-once body raises, and is run again by the retry loop. -/
def Sample.retried : List Action :=
  opening ++ [calls 0 "x" .atMostOnce] ++ advance 0 0 7 ++
    [.task 0 0 0 (.raise (.exception "ConnectionError" "reset"))] ++ advance 0 0 3

/-- A single attempt, without a crash, may invoke an at-most-once body twice. -/
theorem invoked_twice : ∃ w,
    run (World.step Sample.cfg) oneAfterAnother (.init 0) Sample.retried = some w ∧
    w.AtMostOnce Sample.cfg Sample.runId "x#1" ∧
    (w.invocations Sample.runId "x#1").length = 2 :=
  run_exists (World.step Sample.cfg) oneAfterAnother (.init 0) Sample.retried
    (fun w => w.AtMostOnce Sample.cfg Sample.runId "x#1" ∧
      (w.invocations Sample.runId "x#1").length = 2) (by decide)

end AnchorRuntime
