import AnchorRuntime.Terminal
import AnchorRuntime.Cancellation
import AnchorRuntime.AtMostOnce

/-!
# Unknown outcomes

A run parks itself for review where a step declared at-most-once has been started and nobody
knows what became of it. Other exits may come first: a check at the step's boundary, a
verifier that raises, a result that is no JSON, a workflow that ends before it comes back to
the step.

Results: `windowOpen_iff`, what it is for the window of a key to be open in a log;
`unknown_outcomes_escalated`, away from these exits a run that is over and has an open
window of an at-most-once step is in review with that step in its error record.
-/

namespace AnchorRuntime

open Effect Machine ShapeLemmas ProcLemmas TaskLemmas SequentialLemmas TerminalLemmas

/-! ## Open windows -/

/-- The log starts the key and neither completes nor fails it afterwards. -/
def windowOpen (key : String) : List Event → Bool
  | [] => false
  | e :: log => windowOpen key log ||
      (e.under key Payload.isStart &&
        !(logged key Payload.isCompletion log || logged key Payload.isFailure log))

theorem windowOpen_iff {key : String} {log : List Event} : windowOpen key log = true ↔
    ∃ a e b, log = a ++ e :: b ∧ e.under key Payload.isStart = true ∧
      ∀ f ∈ b, f.under key Payload.isCompletion = false ∧
        f.under key Payload.isFailure = false := by
  induction log with
  | nil => simp [windowOpen]
  | cons e log ih =>
    simp only [windowOpen, Bool.or_eq_true, ih, Bool.and_eq_true, Bool.not_eq_true',
      Bool.or_eq_false_iff, logged, List.any_eq_false, Bool.not_eq_true]
    constructor
    · rintro (⟨a, f, b, rfl, start, still⟩ | ⟨start, completed, failed⟩)
      · exact ⟨e :: a, f, b, rfl, start, still⟩
      · exact ⟨[], e, log, rfl, start, fun f mem => ⟨completed f mem, failed f mem⟩⟩
    · rintro ⟨a, f, b, split, start, still⟩
      cases a with
      | nil =>
        obtain ⟨rfl, rfl⟩ := List.cons.inj split
        exact .inr ⟨start, fun f mem => (still f mem).1, fun f mem => (still f mem).2⟩
      | cons x a =>
        obtain ⟨rfl, rfl⟩ := List.cons.inj split
        exact .inl ⟨a, f, b, rfl, start, still⟩

namespace EscalationLemmas

variable {token key : String} {life life' : Life} {e : Event} {log es : List Event}

theorem step_opened (h : life.step token key e = some life') : life' = .opened ↔
    e.under key Payload.isStart = true ∨ (life = .opened ∧
      e.under key Payload.isCompletion = false ∧ e.under key Payload.isFailure = false) := by
  unfold Life.step at h
  split at h
  · next same =>
    cases hp : e.payload with
    | stepStarted t =>
      rw [hp] at h
      cases life with
      | fresh | failed =>
        simp only [Life.move] at h
        split at h
        · cases h
          simp [Event.under, same, hp, Payload.isStart]
        · cases h
      | opened | done => cases h
    | _ =>
      rw [hp] at h
      cases life <;> cases h <;>
        simp [Event.under, same, hp, Payload.isStart, Payload.isCompletion, Payload.isFailure]
  · next other =>
    cases h
    simp [Event.under, other]

theorem opened_run (h : Monitor.run (Life.step token key) life log = some life') :
    life' = .opened ↔ windowOpen key log = true ∨ (life = .opened ∧
      logged key Payload.isCompletion log = false ∧ logged key Payload.isFailure log = false) := by
  induction log generalizing life with
  | nil =>
    cases h
    simp [windowOpen, logged]
  | cons e log ih =>
    rw [Monitor.run_cons] at h
    obtain ⟨u, move, rest⟩ := Option.bind_eq_some_iff.mp h
    rw [ih rest, step_opened move]
    simp only [windowOpen, logged, List.any_cons, Bool.or_eq_true, Bool.and_eq_true,
      Bool.not_eq_true', Bool.or_eq_false_iff]
    tauto

/-- In a log that keeps to the key's life, the window is open where the life says so. -/
theorem windowOpen_life (h : lifeOf token key log = some life) :
    windowOpen key log = true ↔ life = .opened := by
  rw [opened_run h]
  simp

theorem windowOpen_append (h : windowOpen key (log ++ es) = true) :
    windowOpen key log = true ∨ ∃ e ∈ es, e.under key Payload.isStart = true := by
  obtain ⟨a, e, b, split, start, still⟩ := windowOpen_iff.mp h
  rcases List.append_eq_append_iff.mp split with ⟨mid, rfl, new⟩ | ⟨mid, rfl, new⟩
  · exact .inr ⟨e, by rw [new]; simp, start⟩
  · cases mid with
    | nil =>
      rw [List.nil_append] at new
      exact .inr ⟨e, by rw [← new]; simp, start⟩
    | cons f mid =>
      obtain ⟨rfl, rfl⟩ := List.cons.inj new
      exact .inl (windowOpen_iff.mpr ⟨a, e, mid, rfl, start,
        fun f mem => still f (List.mem_append_left _ mem)⟩)

end EscalationLemmas

/-! ## The condition -/

/-- `LeaseLost` -/
def Exn.lostLease : Exn → Bool
  | .leaseLost _ => true
  | _ => false

/-- The exception the answer raises. -/
def Answer.raised : Answer → Option Exn
  | .raise exc => some exc
  | _ => none

/-- The exception the coroutine of the step has raised. -/
def Task.raised (t : Task) : Option Exn :=
  match t.prog.ending with
  | some (.error exc) => some exc
  | _ => none

/-- The answer raises `LeaseLost`. -/
def Answer.lost (ans : Answer) : Bool := ans.raised.any Exn.lostLease

/-- The workflow runs, or has lost its lease. -/
def Phase.loose : Phase → Bool
  | .inside | .standing => true
  | _ => false

/-- The attempt has its context and has not entered its workflow. -/
def Phase.isBuilt : Phase → Bool
  | .built => true
  | _ => false

/-- The main code of the attempt goes into user code next. -/
def Proc.enters (proc : Proc) : Bool :=
  match proc.main.next with
  | some (.enter _) => true
  | _ => false

/-- With this answer the step leaves behind the window it has opened or found open. -/
def Task.deserts (w : World) (proc : Proc) (attempts : Int) (t : Task) (ans : Answer) : Bool :=
  let isOpen := windowOpen t.key (w.store.loadEvents proc.loc.runId)
  match t.stage, ans with
  -- a check at the boundary
  | .boundary, .raise _ | .leased, .raise _ => isOpen
  | .leased, _ => isOpen && w.store.isCancelRequested proc.loc.runId
  | .uncancelled, _ => isOpen && proc.loc.ctx.any fun ctx =>
      !(ctx.run.budget.check ctx.usage (ctx.elapsedSeconds w.now)).isOk
  -- the verifier
  | .verifying, .raise exc => !exc.lostLease
  | .verifying, .value v => !v.isNone && !v.jsonable
  -- the body, or no try at all
  | .starting, _ => attempts < 1
  | .running _, .raise exc => exc.control && !exc.lostLease
  | .running _, .value v => !v.jsonable
  | .running _, .response r => !r.toDict.jsonable
  | _, _ => false

/-- The event by which the step says what it knows of its outcome. -/
def Task.verdict (attempts : Int) (t : Task) : Option Payload :=
  match t.stage with
  | .recovered v => some (.stepCompleted v .verify)
  | .returned n v => some (.stepCompleted v (.attempt n))
  | .raised n exc =>
    some (if (n : Int) < attempts then .stepErrorRetried n exc.repr else .stepFailed n exc.repr)
  | _ => none

/-- That event is not stored. -/
def Task.unwritten (attempts : Int) (t : Task) (ans : Answer) : Bool :=
  (t.verdict attempts).any fun payload =>
    ans.raised.isSome || !(payload.storable && pgText t.key)

/-- No at-most-once step deserts its window, and its verdict is stored. -/
def faithful (cfg : Config) (w : World) : Action → Prop
  | .task p c b ans => ∀ proc ∈ w.procs[p]?, ∀ rec ∈ proc.calls[c]?, ∀ t ∈ rec.tasks[b]?,
    rec.call.idempotency cfg = .atMostOnce →
      t.deserts w proc (rec.call.attempts cfg) ans = false ∧
        t.unwritten (rec.call.attempts cfg) ans = false
  | _ => True

instance (cfg : Config) (w : World) (a : Action) : Decidable (faithful cfg w a) :=
  match a with
  | .task p c b ans => inferInstanceAs (Decidable (∀ proc ∈ w.procs[p]?, ∀ rec ∈ proc.calls[c]?,
      ∀ t ∈ rec.tasks[b]?, rec.call.idempotency cfg = .atMostOnce →
        t.deserts w proc (rec.call.attempts cfg) ans = false ∧
          t.unwritten (rec.call.attempts cfg) ans = false))
  | .submit _ _ _ _ _ | .cancel _ | .tick _ | .claim _ _ | .execute _ | .beat _ _ | .main _ _
  | .call _ _ _ _ | .stop _ => .isTrue trivial

/-- The keys of open at-most-once windows. -/
def World.undecided (cfg : Config) (w : World) (j : Uuid) : List String :=
  ((w.store.loadEvents j).filterMap (·.stepKey)).filter fun key =>
    windowOpen key (w.store.loadEvents j) && decide (w.AtMostOnce cfg j key)

/-- The attempt has called its context for the key, and what the step has raised is what the
answer raises. -/
def Proc.lets (proc : Proc) (key : String) (ans : Answer) : Bool :=
  proc.keys.contains key && proc.calls.all fun rec => rec.tasks.all fun t =>
    t.key ≠ key || t.raised.all fun exc => ans.raised = some exc

/-- Unless it loses its lease the workflow ends only once its steps have ended and it has
called its context for every open at-most-once window, and it lets out what their steps have
raised; a workflow that is not registered leaves no such window; and contexts are called only
while their workflows run. -/
def accountable (cfg : Config) (w : World) : Action → Prop
  | .main p ans => ∀ proc ∈ w.procs[p]?,
    (proc.phase.isInside = true → ans.lost = true ∨
      (proc.quiet = true ∧ ∀ key ∈ w.undecided cfg proc.loc.runId, proc.lets key ans = true)) ∧
    (proc.phase.isBuilt = true → proc.enters = true ∨ w.undecided cfg proc.loc.runId = [])
  | .call p _ _ _ => ∀ proc ∈ w.procs[p]?, proc.phase.loose = true
  | _ => True

instance (cfg : Config) (w : World) (a : Action) : Decidable (accountable cfg w a) :=
  match a with
  | .main p ans => inferInstanceAs (Decidable (∀ proc ∈ w.procs[p]?,
      (proc.phase.isInside = true → ans.lost = true ∨
        (proc.quiet = true ∧ ∀ key ∈ w.undecided cfg proc.loc.runId, proc.lets key ans = true)) ∧
      (proc.phase.isBuilt = true → proc.enters = true ∨
        w.undecided cfg proc.loc.runId = [])))
  | .call p _ _ _ => inferInstanceAs (Decidable (∀ proc ∈ w.procs[p]?, proc.phase.loose = true))
  | .submit _ _ _ _ _ | .cancel _ | .tick _ | .claim _ _ | .execute _ | .beat _ _
  | .task _ _ _ _ | .stop _ => .isTrue trivial

/-- Attempts follow one another, and none loses sight of an at-most-once step. -/
def escalating (cfg : Config) (w : World) (a : Action) : Prop :=
  oneAfterAnother w a ∧ faithful cfg w a ∧ accountable cfg w a

instance (cfg : Config) (w : World) (a : Action) : Decidable (escalating cfg w a) :=
  inferInstanceAs (Decidable (_ ∧ _ ∧ _))

/-! ## Steps that keep to their windows -/

/-- No step is under way unless its workflow runs or has lost its lease. -/
def World.Waited (w : World) : Prop :=
  ∀ (p : Nat) (proc : Proc), w.procs[p]? = some proc → proc.phase.loose = false →
    proc.quiet = true

/-- What a faithful at-most-once step knows at a stage. -/
def Stage.Kept (attempts : Int) (isOpen : Prop) : Stage → Prop
  | .recovered v | .returned _ v => v.jsonable = true
  | .ready n _ => (n : Int) ≤ attempts
  | .waiting n => (n : Int) < attempts
  | .raised _ exc => exc.control = true → exc.lostLease = true
  | .escaped exc => isOpen → exc.lostLease = true
  | _ => True

/-- The at-most-once steps of live attempts are faithful. -/
def World.Kept (cfg : Config) (w : World) : Prop :=
  ∀ (p : Nat) (proc : Proc), w.procs[p]? = some proc → proc.stopped = false →
    ∀ c b rec t, proc.At c b rec t → rec.call.idempotency cfg = .atMostOnce →
    t.stage.Kept (rec.call.attempts cfg)
      (windowOpen t.key (w.store.loadEvents proc.loc.runId) = true)

namespace EscalationLemmas

variable {cfg : Config} {w w' : World} {a : Action} {p q c b : Nat} {proc proc' : Proc}
  {rec : CallRecord} {t : Task} {j : Uuid} {key : String}

/-- What the end of user code answers. -/
theorem leave_answer {now : Int} {st st' : Store} {loc loc' : Local} {ans : Answer} {u : UserCall}
    {r : Except Exn Value} (run : exec cfg now st loc ans (.leave u) = some (r, st', loc')) :
    match r with
    | .ok v => ans = .value v ∨ ∃ response, ans = .response response ∧ v = response.toDict
    | .error exc => ans = .raise exc := by
  cases ans with
  | raise exc =>
    cases run
    rfl
  | value v =>
    cases u with
    | complete => cases run
    | _ =>
      cases run
      exact .inl rfl
  | response response =>
    cases u with
    | complete =>
      cases run
      exact .inr ⟨_, rfl, rfl⟩
    | _ => cases run
  | done => cases u <;> cases run

/-- Where the end of the workflow leads. -/
theorem left_loose {r : Except Exn Value} (resting : (Phase.left r).loose = false) :
    Phase.left r = .ended r ∧ ∀ message, r ≠ .error (.leaseLost message) := by
  unfold Phase.left at resting ⊢
  split at resting
  · cases resting
  · next ne => exact ⟨rfl, ne⟩

theorem waited_step
    (shaped : ∀ (p : Nat) (proc : Proc), w.procs[p]? = some proc → proc.Shaped cfg)
    (h : w.step cfg a = some w') (ok : accountable cfg w a) (inv : w.Waited) : w'.Waited := by
  intro q proc' hq resting
  cases attempt_cases shaped h hq with
  | same hp => exact inv q _ hp resting
  | fresh _ _ _ none => rw [Proc.quiet, none]; rfl
  | beat _ _ hp | stop _ hp =>
    have was := inv q _ hp
    exact was resting
  | @main proc ans o k r loc is acts =>
    show proc.quiet = true
    cases old : proc.phase.loose with
    | false => exact inv q proc acts.hp old
    | true =>
      have moves := Phase.moves acts.may r
      have run := acts.run
      change (proc.phase.next o r).loose = false at resting
      generalize proc.phase.next o r = phase' at moves resting
      generalize hphase : proc.phase = phase at moves old
      subst is
      cases moves with
      | leave name input r =>
        obtain ⟨-, ne⟩ := left_loose resting
        refine ((ok proc acts.hp).1 (by rw [hphase]; rfl)).elim (fun lost => ?_) And.left
        have answer := leave_answer run
        cases r with
        | ok v => rcases answer with rfl | ⟨_, rfl, -⟩ <;> cases lost
        | error exc =>
          obtain rfl : ans = .raise exc := answer
          cases exc with
          | leaseLost message => exact absurd rfl (ne message)
          | _ => cases lost
      | raise may failed =>
        rw [← hphase] at may
        cases hphase' : phase with
        | inside =>
          obtain ⟨_, _, rfl⟩ := hphase' ▸ hphase ▸ acts.may
          cases failed
        | standing =>
          rcases hphase' ▸ hphase ▸ acts.may with rfl | rfl <;> cases failed
        | _ =>
          rw [hphase'] at old
          cases old
      | snapshot _ is =>
        obtain ⟨_, rfl⟩ | rfl | rfl := is
        · cases old
        · cases old
        · cases resting
      | stopHeartbeat _ is =>
        obtain rfl | rfl | rfl := is
        · cases old
        · cases resting
        · cases old
      | _ => cases old
  | @task proc c b ans rec t o k r loc _ acts hprog =>
    have resting : proc.phase.loose = false := resting
    have ended := List.all_eq_true.mp
      (List.all_eq_true.mp (inv q proc acts.hp resting) rec (List.mem_of_getElem? acts.at_.1)) t
      (List.mem_of_getElem? acts.at_.2)
    rw [Task.ended, hprog] at ended
    cases ended
  | refused is hp | call is hp =>
    subst is
    have loose := ok _ hp
    exact absurd (loose.symm.trans resting) (by simp)

/-- Whose start has opened a window. -/
theorem opens_cases (numbered : w.store.Numbered)
    (shaped : ∀ (p : Nat) (proc : Proc), w.procs[p]? = some proc → proc.Shaped cfg)
    (h : w.step cfg a = some w') (isOpen : windowOpen key (w'.store.loadEvents j) = true) :
    windowOpen key (w.store.loadEvents j) = true ∨
    ∃ p c b ans proc rec t o, ∃ (r : Ans o) (loc : Local), a = .task p c b ans ∧
      TaskActs cfg w w' p c b ans proc rec t o r loc ∧ t.stage = .starting ∧ t.key = key ∧
        proc.loc.runId = j := by
  obtain ⟨es, log, -⟩ := log_step numbered shaped h j
  rw [log] at isOpen
  refine (windowOpen_append isOpen).imp id fun ⟨e, mem, start⟩ => ?_
  simp only [Event.under, Bool.and_eq_true, decide_eq_true_eq] at start
  have concerns : e.concerns key := by
    refine ⟨start.1, ?_⟩
    cases hp : e.payload <;> rw [hp] at start <;> first | rfl | cases start.2
  obtain ⟨p, c, b, ans, proc, rec, t, r, loc, is, acts, hkey, own, -⟩ :=
    event_cases numbered shaped h log mem concerns
  exact ⟨p, c, b, ans, proc, rec, t, _, r, loc, is, acts, start_starting acts.may start.2, hkey,
    own⟩

theorem storeCall_raised {α : Type} {st st' : Store} {loc loc' : Local}
    {outcome : Except Exn (α × Store)} {ans : Answer} {exc : Exn}
    (h : storeCall st loc outcome ans = some (.error exc, st', loc')) :
    ans.raised.isSome = true ∨ outcome = .error exc := by
  cases ans with
  | done =>
    cases outcome with
    | ok => cases h
    | error e =>
      cases h
      exact .inr rfl
  | raise => exact .inl rfl
  | value | response => cases h

/-- Where its window is open no operation of a faithful step fails. -/
theorem kept_raise (numbered : w.store.Numbered)
    {ans : Answer} {o : Op} {r : Ans o} {loc : Local} {st : Store} {ctx : RunContext} {exc : Exn}
    (run : exec cfg w.now w.store proc.loc ans o = some (r, st, loc))
    (may : (rec.call.setup cfg proc.loc.runId proc.loc.guarded t.key).allowed t.stage o)
    (amo : rec.call.idempotency cfg = .atMostOnce) (hctx : proc.loc.ctx = some ctx)
    (isOpen : windowOpen t.key (w.store.loadEvents proc.loc.runId) = true)
    (failed : failure o r = some exc)
    (stays : t.deserts w proc (rec.call.attempts cfg) ans = false)
    (writes : t.unwritten (rec.call.attempts cfg) ans = false)
    (agrees : t.stage.Agrees ctx t.key .opened) : False := by
  -- the verdict is stored
  have verdict : ∀ {payload : Payload}, t.verdict (rec.call.attempts cfg) = some payload →
      o ≠ .appendEvent (some t.key) payload := by
    rintro payload is rfl
    cases r with
    | ok => cases failed
    | error e =>
      simp only [Task.unwritten, is, Option.any_some, Bool.or_eq_false_iff,
        Bool.not_eq_false'] at writes
      rcases storeCall_raised run with raised | rejected
      · exact absurd (raised.symm.trans writes.1) (by simp)
      · have bad := (appendEvent_ok numbered rejected).2
        simp [writes.2] at bad
  generalize hold : t.stage = stage at may agrees
  cases stage with
  | boundary =>
    cases may
    cases r with
    | ok => cases failed
    | error e =>
      obtain ⟨worker, -, run⟩ := Option.bind_eq_some_iff.mp run
      cases ans with
      | raise => simp [Task.deserts, hold, isOpen] at stays
      | _ => cases run
  | leased =>
    cases may
    cases r with
    | ok => cases failed
    | error e =>
      cases ans with
      | raise => simp [Task.deserts, hold, isOpen] at stays
      | _ => cases run
  | uncancelled =>
    cases may
    obtain ⟨_, known, is, -⟩ := ExecLemmas.memory_cases run
    obtain rfl := Option.some.inj (hctx.symm.trans known)
    cases r with
    | ok => cases failed
    | error e =>
      have fails : ctx.run.budget.check ctx.usage (ctx.elapsedSeconds w.now) = .error e := is.symm
      simp [Task.deserts, hold, isOpen, hctx, fails, Except.isOk, Except.toBool] at stays
  | recovered v => exact verdict (by rw [Task.verdict, hold]) may.2
  | returned n v => exact verdict (by rw [Task.verdict, hold]) may.2
  | raised n e =>
    refine verdict ?_ may.2
    rw [Task.verdict, hold]
    rfl
  | unknown => exact absurd (amo.symm.trans may.1) (by simp)
  | starting => rcases agrees with is | is <;> cases is
  | recorded | saved | billed | metered => cases agrees
  | waiting =>
    obtain ⟨_, rfl⟩ := may
    cases failed
  | ready =>
    obtain ⟨-, ⟨-, -, rfl⟩ | ⟨-, rfl⟩⟩ := may <;> cases failed
  | closed | failed | escaped => exact may.elim
  | entry | replayed | admitted | recovering | verifying | running | resolved =>
    cases may
    cases failed

/-- A faithful at-most-once step stays so. -/
theorem kept_acts (numbered : w.store.Numbered) (inv : w.Consistent cfg)
    (shaped : ∀ (p : Nat) (proc : Proc), w.procs[p]? = some proc → proc.Shaped cfg)
    {ans : Answer} {o : Op} {r : Ans o} {loc : Local} (hp : w.procs[p]? = some proc)
    (alive : proc.stopped = false) (at_ : proc.At c b rec t)
    (run : exec cfg w.now w.store proc.loc ans o = some (r, w'.store, loc))
    (may : (rec.call.setup cfg proc.loc.runId proc.loc.guarded t.key).allowed t.stage o)
    (amo : rec.call.idempotency cfg = .atMostOnce)
    (stays : t.deserts w proc (rec.call.attempts cfg) ans = false)
    (writes : t.unwritten (rec.call.attempts cfg) ans = false)
    (kept : t.stage.Kept (rec.call.attempts cfg)
      (windowOpen t.key (w.store.loadEvents proc.loc.runId) = true)) :
    ((rec.call.setup cfg proc.loc.runId proc.loc.guarded t.key).next t.stage o r).Kept
      (rec.call.attempts cfg) (windowOpen t.key (w'.store.loadEvents proc.loc.runId) = true) := by
  obtain ⟨ctx, hctx⟩ := Option.isSome_iff_exists.mp (at_known (shaped p proc hp) at_)
  obtain ⟨life, hlife, agrees⟩ := (inv.procs p proc hp alive).tasks ctx hctx c b rec t at_
  have opened := windowOpen_life hlife
  have log := (exec_log numbered run).2 proc.loc.runId
  rw [if_pos rfl] at log
  have moves := StepSetup.moves may r
  generalize (rec.call.setup cfg proc.loc.runId proc.loc.guarded t.key).next _ _ _ = stage'
    at moves ⊢
  generalize hold : t.stage = stage at moves agrees kept
  cases moves with
  | lost => exact fun _ => rfl
  | cancelled =>
    -- the window was not open
    have flag := CancellationLemmas.exec_isCancelRequested run rfl
    have none : written w.now .isCancelRequested (.ok true) = [] := rfl
    intro isOpen
    rw [log, none, List.append_nil] at isOpen
    cases ans <;> simp [Task.deserts, hold, isOpen, ← flag] at stays
  | @landed v some_ =>
    rcases leave_answer run with rfl | ⟨_, rfl, rfl⟩
    · have known : v.jsonable = true := by simpa [Task.deserts, hold, some_] using stays
      exact known
    · cases run
  | verifierRaised exc =>
    obtain rfl : ans = .raise exc := leave_answer run
    intro
    simpa [Task.deserts, hold] using stays
  | again _ class_ => exact absurd (amo.symm.trans class_) (by simp)
  | start =>
    have tries : 1 ≤ rec.call.attempts cfg := by simpa [Task.deserts, hold] using stays
    exact tries
  | returned v is =>
    have known : v.jsonable = true := by
      rcases leave_answer run with rfl | ⟨_, rfl, rfl⟩ <;> simpa [Task.deserts, hold] using stays
    exact known
  | raised exc is =>
    obtain rfl : ans = .raise exc := leave_answer run
    intro control
    simpa [Task.deserts, hold, control] using stays
  | retry _ _ more => exact more
  | sleep => exact kept
  | addToolCall => exact kept
  | @raise _ _ _ exc may failed =>
    intro isOpen
    rw [log, ConsistencyLemmas.written_failure failed, List.append_nil] at isOpen
    obtain rfl := opened.mp isOpen
    exact (kept_raise numbered run (hold ▸ may) amo hctx isOpen failed stays writes
      (hold ▸ agrees)).elim
  | _ => trivial

theorem faithful_task {ans : Answer} (ok : faithful cfg w (.task p c b ans))
    (hp : w.procs[p]? = some proc) (at_ : proc.At c b rec t)
    (amo : rec.call.idempotency cfg = .atMostOnce) :
    t.deserts w proc (rec.call.attempts cfg) ans = false ∧
      t.unwritten (rec.call.attempts cfg) ans = false :=
  ok proc hp rec at_.1 t at_.2 amo

theorem kept_step (numbered : w.store.Numbered) (consistent : w.Consistent cfg)
    (shaped : ∀ (p : Nat) (proc : Proc), w.procs[p]? = some proc → proc.Shaped cfg)
    (h : w.step cfg a = some w') (ooa : oneAfterAnother w a) (ok : faithful cfg w a)
    (inv : w.Kept cfg) : w'.Kept cfg := by
  intro q proc' hq live c b rec' t' at' amo
  cases task_cases shaped h hq at' with
  | @same proc rec t hp at_ same sameLoc alive elsewhere =>
    have kept := inv q proc hp (alive live) c b rec t' at_ (same.call ▸ amo)
    rw [same.call]
    generalize hstage : t'.stage = stage at kept ⊢
    cases stage with
    | escaped exc =>
      intro isOpen
      rw [sameLoc.runId] at isOpen
      refine kept ?_
      -- only the step itself could have opened the window
      rcases opens_cases numbered shaped h isOpen with
        was | ⟨p', c', b', ans, actor, rec₀, t₀, o, r, loc, rfl, acts, starting, hkey, own⟩
      · exact was
      · obtain rfl := ooa.idle rfl acts.hp hp own.symm (alive live) (shaped q proc hp) at_
        obtain rfl := Option.some.inj (hp.symm.trans acts.hp)
        obtain ⟨rfl, rfl⟩ := at_key_inj (shaped _ proc hp).nodup at_ acts.at_ hkey.symm
        exact absurd rfl (elsewhere ans)
    | _ => exact kept
  | @moved proc rec t ans o k r is hp alive at_ same hprog run may =>
    subst is
    rw [same.call] at amo ⊢
    obtain ⟨stays, writes⟩ := faithful_task ok hp at_ amo
    rw [(exec_ctx run).1]
    exact kept_acts numbered consistent shaped hp alive at_ run may amo stays writes
      (inv q proc hp alive c b rec t at_ amo)
  | called => trivial

/-- The open at-most-once windows are those of the undecided keys. -/
theorem mem_undecided : key ∈ w.undecided cfg j ↔
    windowOpen key (w.store.loadEvents j) = true ∧ w.AtMostOnce cfg j key := by
  simp only [World.undecided, List.mem_filter, Bool.and_eq_true, decide_eq_true_eq]
  refine ⟨And.right, fun facts => ⟨?_, facts⟩⟩
  obtain ⟨a, e, b, split, start, -⟩ := windowOpen_iff.mp facts.1
  rw [Event.under, Bool.and_eq_true, decide_eq_true_eq] at start
  exact List.mem_filterMap.mpr ⟨e, by rw [split]; simp, start.1⟩

/-- A faithful at-most-once step that has ended in its window does not know what became of it,
or has lost its lease. -/
theorem ended_open {ctx : RunContext} (shaped : proc.Shaped cfg) (at_ : proc.At c b rec t)
    (ended : t.ended = true)
    (agrees : t.stage.Agrees ctx t.key .opened) (kept : t.stage.Kept (rec.call.attempts cfg) True) :
    ∃ exc, t.raised = some exc ∧ (exc.lostLease = true ∨
      exc = .ambiguousStep t.key (stepToken cfg proc.loc.runId t.key).str) := by
  obtain ⟨r, ending⟩ := OutlivingLemmas.ended_ending ended
  have ends := ending_ends shaped at_ ending
  rw [Task.raised, ending]
  generalize t.stage = stage at agrees kept ends
  cases stage with
  | unknown =>
    obtain ⟨-, rfl⟩ := ends
    exact ⟨_, rfl, .inr rfl⟩
  | escaped exc =>
    obtain rfl : r = .error exc := ends
    exact ⟨_, rfl, .inl (kept trivial)⟩
  | raised n exc =>
    obtain ⟨control, rfl⟩ := ends
    exact ⟨_, rfl, .inl (kept control)⟩
  | recovered v | returned n v => exact absurd (ends.1.symm.trans kept) (by simp)
  | ready n counted => exact absurd ends.1 (by exact not_lt.mpr kept)
  | replayed | resolved | closed | saved | recorded | billed | metered | failed => cases agrees
  | _ => exact ends.elim

end EscalationLemmas

/-! ## From the end of the workflow to the row -/

/-- An attempt that concludes its run does so for the sake of this step. -/
def Phase.Escalates (key token : String) : Phase → Prop
  | .ended ending => ending = .error (.ambiguousStep key token)
  | .announced status _ error => status = .needsReview ∧ error = some (reviewError key token)
  | _ => True

/-- Open at-most-once windows are why live attempts conclude and why rows are terminal. -/
structure World.Escalated (cfg : Config) (w : World) : Prop where
  phase : ∀ (p : Nat) (proc : Proc), w.procs[p]? = some proc → proc.stopped = false →
    ∀ key ∈ w.undecided cfg proc.loc.runId,
      proc.phase.Escalates key (stepToken cfg proc.loc.runId key).str
  row : ∀ j, ∀ s ∈ w.store.standing j, s.1.terminal = true → ∀ key ∈ w.undecided cfg j,
    s.1 = .needsReview ∧ s.2.2 = some (reviewError key (stepToken cfg j key).str)

namespace EscalationLemmas

variable {cfg : Config} {w w' : World} {a : Action} {p q c b : Nat} {proc proc' : Proc}
  {rec : CallRecord} {t : Task} {j : Uuid} {key token : String}

/-- The end of the workflow while a window is open. -/
theorem left_ambiguous (consistent : w.Consistent cfg) (kept : w.Kept cfg)
    (shaped : ∀ (p : Nat) (proc : Proc), w.procs[p]? = some proc → proc.Shaped cfg)
    (hp : w.procs[p]? = some proc) (live : proc.stopped = false)
    (undecided : key ∈ w.undecided cfg proc.loc.runId) (quiet : proc.quiet = true) {ans : Answer}
    (lets : proc.lets key ans = true) (held : ans.lost = false) :
    ans = .raise (.ambiguousStep key (stepToken cfg proc.loc.runId key).str) := by
  obtain ⟨isOpen, amo⟩ := mem_undecided.mp undecided
  simp only [Proc.lets, Bool.and_eq_true, List.contains_iff_mem, List.all_eq_true,
    Bool.or_eq_true, decide_eq_true_eq] at lets
  obtain ⟨c, b, rec, t, at_, rfl⟩ := mem_keys lets.1
  have ended : t.ended = true := List.all_eq_true.mp
    (List.all_eq_true.mp quiet rec (List.mem_of_getElem? at_.1)) t (List.mem_of_getElem? at_.2)
  obtain ⟨ctx, hctx⟩ := Option.isSome_iff_exists.mp (at_known (shaped p proc hp) at_)
  obtain ⟨life, hlife, agrees⟩ := (consistent.procs p proc hp live).tasks ctx hctx c b rec t at_
  obtain rfl := (windowOpen_life hlife).mp isOpen
  have keeps := kept p proc hp live c b rec t at_
    (AtMostOnceLemmas.atMostOnce_at amo hp rfl at_ rfl)
  rw [isOpen, eq_self] at keeps
  obtain ⟨exc, raised, which⟩ := ended_open (shaped p proc hp) at_ ended agrees keeps
  have same := (lets.2 rec (List.mem_of_getElem? at_.1) t (List.mem_of_getElem? at_.2)).resolve_left
    (by simp)
  rw [raised, Option.all_some, decide_eq_true_eq] at same
  rcases which with lost | rfl
  · rw [Answer.lost, same, Option.any_some, lost] at held
    cases held
  · cases ans <;> cases same
    rfl

/-- An attempt that concludes for the sake of a step goes on to do so. -/
theorem escalates_next {phase : Phase} {o : Op} {r : Ans o} (may : phase.allowed o)
    (escalates : phase.Escalates key token)
    (leaves : ∀ name input, o = .leave (.workflow name input) →
      (phase.next o r).Escalates key token)
    (known : ∀ error, phase = .built → o ≠ .appendEvent none (.runFailed error)) :
    (phase.next o r).Escalates key token := by
  have moves := Phase.moves may r
  generalize phase.next o r = phase' at moves leaves ⊢
  cases moves with
  | leave name input => exact leaves name input rfl
  | unknown error => exact absurd rfl (known error rfl)
  | completed | cancelled => cases escalates
  | review =>
    cases escalates
    exact ⟨rfl, rfl⟩
  | failed error n fails =>
    cases escalates
    cases fails
  | snapshot | exceeded | saveUsage | stopHeartbeat => exact escalates
  | _ => trivial

/-- An open at-most-once window was open before, or a step in a running workflow has just
opened it. -/
theorem undecided_cases (numbered : w.store.Numbered)
    (shaped : ∀ (p : Nat) (proc : Proc), w.procs[p]? = some proc → proc.Shaped cfg)
    (h : w.step cfg a = some w') (waited : w.Waited) (undecided : key ∈ w'.undecided cfg j) :
    key ∈ w.undecided cfg j ∨ ∃ p c b ans proc rec t o, ∃ (r : Ans o) (loc : Local),
      a = .task p c b ans ∧ TaskActs cfg w w' p c b ans proc rec t o r loc ∧
        proc.phase.loose = true ∧ proc.loc.runId = j := by
  obtain ⟨isOpen, amo⟩ := mem_undecided.mp undecided
  rcases opens_cases numbered shaped h isOpen with
    was | ⟨p, c, b, ans, proc, rec, t, o, r, loc, is, acts, -, -, own⟩
  · exact .inl (mem_undecided.mpr ⟨was, AtMostOnceLemmas.atMostOnce_before h amo⟩)
  · refine .inr ⟨p, c, b, ans, proc, rec, t, o, r, loc, is, acts, ?_, own⟩
    by_contra resting
    have quiet := waited p proc acts.hp (by simpa using resting)
    have ended := List.all_eq_true.mp
      (List.all_eq_true.mp quiet rec (List.mem_of_getElem? acts.at_.1)) t
      (List.mem_of_getElem? acts.at_.2)
    obtain ⟨k, hprog, -⟩ := acts.after
    rw [Task.ended, hprog] at ended
    cases ended

theorem loose_escalates {phase : Phase} (loose : phase.loose = true) :
    phase.Escalates key token := by
  cases phase <;> trivial

/-- The main code of an attempt under the guard. -/
theorem escalates_main (consistent : w.Consistent cfg) (kept : w.Kept cfg)
    (shaped : ∀ (p : Nat) (proc : Proc), w.procs[p]? = some proc → proc.Shaped cfg)
    {ans : Answer} {o : Op} {r : Ans o} {loc : Local}
    (acts : MainActs cfg w w' p ans proc o r loc) (ok : accountable cfg w (.main p ans))
    (undecided : key ∈ w.undecided cfg proc.loc.runId)
    (escalates : proc.phase.Escalates key (stepToken cfg proc.loc.runId key).str) :
    (proc.phase.next o r).Escalates key (stepToken cfg proc.loc.runId key).str := by
  obtain ⟨inside, built⟩ := ok proc acts.hp
  refine escalates_next acts.may escalates ?_ ?_
  · rintro name input rfl
    have may := acts.may
    have phase : proc.phase = .inside := by
      generalize proc.phase = phase at may
      cases phase with
      | inside => rfl
      | loaded | built | ended | announced | settled | standing | failing | resuming =>
        simp [Phase.allowed] at may
      | _ => cases may
    have answer := leave_answer acts.run
    rw [phase] at inside ⊢
    cases held : ans.lost with
    | true =>
      cases r with
      | ok v => rcases answer with rfl | ⟨_, rfl, -⟩ <;> cases held
      | error exc =>
        obtain rfl : ans = .raise exc := answer
        cases exc <;> trivial
    | false =>
      obtain ⟨quiet, lets⟩ := (inside rfl).resolve_left (by simp [held])
      have raises := left_ambiguous consistent kept shaped acts.hp acts.alive undecided quiet
        (lets key undecided) held
      cases r with
      | ok v => rcases answer with rfl | ⟨_, rfl, -⟩ <;> cases raises
      | error exc =>
        obtain rfl : ans = .raise exc := answer
        cases raises
        rfl
  · rintro error phase rfl
    obtain ⟨k, hmain, -⟩ := acts.after
    rcases built (by rw [phase]; rfl) with enters | none
    · rw [Proc.enters, hmain] at enters
      cases enters
    · rw [none] at undecided
      cases undecided

theorem escalated_step (numbered : w.store.Numbered) (consistent : w.Consistent cfg)
    (kept : w.Kept cfg) (waited : w.Waited) (parked : w.Parked)
    (shaped : ∀ (p : Nat) (proc : Proc), w.procs[p]? = some proc → proc.Shaped cfg)
    (h : w.step cfg a = some w') (ooa : oneAfterAnother w a) (ok : accountable cfg w a)
    (inv : w.Escalated cfg) : w'.Escalated cfg := by
  refine ⟨fun q proc' hq live key undecided' => ?_, fun j s mem terminal key undecided' => ?_⟩
  · rcases undecided_cases numbered shaped h waited undecided' with
      undecided | ⟨p, c, b, ans, actor, rec, t, o, r, loc, rfl, acts, loose, own⟩
    · cases attempt_cases shaped h hq with
      | same hp => exact inv.phase q _ hp live key undecided
      | fresh _ start =>
        rw [start]
        trivial
      | beat _ _ hp | refused _ hp | call _ hp =>
        have was := inv.phase q _ hp
        exact was live key undecided
      | stop => cases live
      | @task proc _ _ _ _ _ _ _ _ loc _ acts =>
        have same : loc.runId = proc.loc.runId := (exec_ctx acts.run).1
        have undecided : key ∈ w.undecided cfg loc.runId := undecided
        rw [same] at undecided
        have was := inv.phase q proc acts.hp acts.alive key undecided
        rw [← same] at was
        exact was
      | @main proc _ o k r loc is acts =>
        subst is
        have same : loc.runId = proc.loc.runId := (exec_ctx acts.run).1
        have undecided : key ∈ w.undecided cfg loc.runId := undecided
        rw [same] at undecided
        have next := escalates_main consistent kept shaped acts ok undecided
          (inv.phase q proc acts.hp acts.alive key undecided)
        rw [← same] at next
        exact next
    · -- the workflow of the only attempt under way is still running
      cases attempt_cases shaped h hq with
      | same hp elsewhere =>
        cases began : proc'.started with
        | false =>
          rw [(shaped q proc' hp).fresh began]
          trivial
        | true =>
          by_cases me : q = p
          · exact absurd rfl (me ▸ elsewhere c b ans)
          · have stopped := ooa p rfl actor acts.hp q proc' hp me own.symm began
            exact absurd (stopped.symm.trans live) (by simp)
      | fresh _ start =>
        rw [start]
        trivial
      | @task proc _ _ _ _ _ _ _ _ _ is acts' =>
        cases is
        obtain rfl := Option.some.inj (acts.hp.symm.trans acts'.hp)
        exact loose_escalates loose
      | main is | beat _ is | refused is | call is | stop is => cases is
  · rcases standing_cases shaped h j with
      same | ⟨-, new⟩ | ⟨p, ans, proc, status, result, error, loc, rfl, acts, own, new⟩
    · rw [same] at mem
      rcases undecided_cases numbered shaped h waited undecided' with
        undecided | ⟨p, c, b, ans, actor, rec, t, o, r, loc, rfl, acts, loose, rfl⟩
      · exact inv.row j s mem terminal key undecided
      · -- nothing runs on a terminal row
        have over_ := parked p actor acts.hp (began_of_task (shaped p actor acts.hp) acts.at_)
          acts.alive (by rw [World.terminal, Option.mem_def.mp mem, Option.any_some, terminal])
        generalize actor.phase = phase at loose over_
        cases phase with
        | inside | standing => cases over_
        | _ => cases loose
    · rw [new] at mem
      cases mem
      cases terminal
    · rcases undecided_cases numbered shaped h waited undecided' with
        undecided | ⟨_, _, _, _, _, _, _, _, _, _, is, -⟩
      · rw [new] at mem
        obtain ⟨old, -, rfl⟩ := Option.mem_map.mp mem
        rw [← own] at undecided ⊢
        have escalates := inv.phase p proc acts.hp acts.alive key undecided
        have moves := Phase.moves acts.may (.ok ())
        generalize proc.phase.next (.setStatus status result error) (.ok ()) = phase' at moves
        generalize proc.phase = phase at moves escalates
        cases moves with
        | markRunning => cases terminal
        | finish =>
          obtain ⟨rfl, rfl⟩ := escalates
          exact ⟨rfl, rfl⟩
        | raise _ failed => cases failed
      · cases is

end EscalationLemmas

open EscalationLemmas

theorem waited_reaches {cfg : Config} {now : Int} {w : World}
    (h : Reaches (World.step cfg) (escalating cfg) (.init now) w) : w.Waited :=
  h.invariant (fun _ _ hp => absurd hp (by simp [World.init]))
    fun _ _ _ reached inv ok step =>
      waited_step (fun _ _ => shaped_reaches reached) step ok.2.2 inv

theorem kept_reaches {cfg : Config} {now : Int} {w : World}
    (h : Reaches (World.step cfg) (escalating cfg) (.init now) w) : w.Kept cfg :=
  h.invariant (fun _ _ hp => absurd hp (by simp [World.init]))
    fun _ _ _ reached inv ok step =>
      kept_step (numbered_reaches reached) (consistent_reaches reached fun _ _ ok => ok.1)
        (fun _ _ => shaped_reaches reached) step ok.1 ok.2.1 inv

theorem escalated_reaches {cfg : Config} {now : Int} {w : World}
    (h : Reaches (World.step cfg) (escalating cfg) (.init now) w) : w.Escalated cfg :=
  h.invariant
    { phase := fun _ _ hp => absurd hp (by simp [World.init])
      row := fun _ _ mem => by cases mem }
    fun _ _ _ reached inv ok step =>
      escalated_step (numbered_reaches reached) (consistent_reaches reached fun _ _ ok => ok.1)
        (kept_reaches reached) (waited_reaches reached)
        (parked_reaches reached fun _ _ ok => ok.1) (fun _ _ => shaped_reaches reached) step ok.1
        ok.2.2 inv

/-- Unknown outcomes are escalated: where attempts follow one another and none loses sight of
an at-most-once step, no step declared at-most-once is left open by a run that is completed or
failed, and a run that is over while such a step is open is in review, with the key and the
token of the step in its error record. -/
theorem unknown_outcomes_escalated {cfg : Config} {now : Int} {w : World}
    (h : Reaches (World.step cfg) (escalating cfg) (.init now) w) (j : Uuid) (key : String)
    (amo : w.AtMostOnce cfg j key) (run : RunRecord) (row : w.store.getRun j = some run) :
    (run.status = .completed ∨ run.status = .failed →
      windowOpen key (w.store.loadEvents j) = false) ∧
    (run.status.terminal = true → windowOpen key (w.store.loadEvents j) = true →
      run.status = .needsReview ∧ ∃ error, run.error = some error ∧ error.stepKey = some key ∧
        error.token = some (stepToken cfg j key).str) := by
  have review : run.status.terminal = true → windowOpen key (w.store.loadEvents j) = true →
      run.status = .needsReview ∧
        run.error = some (reviewError key (stepToken cfg j key).str) := fun terminal isOpen =>
    (escalated_reaches h).row j (run.status, run.result, run.error)
      (by rw [Store.standing, row]; rfl) terminal key (mem_undecided.mpr ⟨isOpen, amo⟩)
  refine ⟨fun over_ => ?_, fun terminal isOpen => ?_⟩
  · by_contra isOpen
    have status :=
      (review (by rcases over_ with is | is <;> rw [is] <;> rfl) (by simpa using isOpen)).1
    rcases over_ with is | is <;> exact absurd (is.symm.trans status) (by simp)
  · obtain ⟨status, error⟩ := review terminal isOpen
    exact ⟨status, _, error, rfl, rfl⟩

/-- An attempt that crashes in the body of an at-most-once step, and the next, which raises
what it does not know. -/
def Sample.parkedRun : List Action :=
  opening ++ [calls 0 "x" .atMostOnce] ++ advance 0 0 7 ++
    [.stop 0, .tick 31000000, .claim "b" []] ++ proceed 1 8 ++ [calls 1 "x" .atMostOnce] ++
    advance 1 0 5 ++ [.main 1 (.raise (.ambiguousStep "x#1" (stepToken cfg runId "x#1").str))] ++
    proceed 1 4

theorem unknown_outcomes_escalated_parked : ∃ w,
    run (World.step Sample.cfg) (escalating Sample.cfg) (.init 0) Sample.parkedRun = some w ∧
    (w.AtMostOnce Sample.cfg Sample.runId "x#1" ∧
      windowOpen "x#1" (w.store.loadEvents Sample.runId) = true) ∧
    ∃ run, w.store.getRun Sample.runId = some run ∧ run.status.terminal = true ∧
      (run.status = .completed ∨ run.status = .failed →
        windowOpen "x#1" (w.store.loadEvents Sample.runId) = false) ∧
      (run.status.terminal = true → windowOpen "x#1" (w.store.loadEvents Sample.runId) = true →
        run.status = .needsReview ∧ ∃ error, run.error = some error ∧
          error.stepKey = some "x#1" ∧
          error.token = some (stepToken Sample.cfg Sample.runId "x#1").str) := by
  obtain ⟨w, h, ⟨amo, isOpen⟩, found⟩ := run_exists (World.step Sample.cfg)
    (escalating Sample.cfg) (.init 0) Sample.parkedRun
    (fun w => (w.AtMostOnce Sample.cfg Sample.runId "x#1" ∧
      windowOpen "x#1" (w.store.loadEvents Sample.runId) = true) ∧
      (w.store.getRun Sample.runId).any (·.status.terminal) = true) (by decide +kernel)
  obtain ⟨run, row, terminal⟩ := (Option.any_eq_true _ _).mp found
  exact ⟨w, h, ⟨amo, isOpen⟩, run, row, terminal,
    unknown_outcomes_escalated (run_reaches h) Sample.runId "x#1" amo run row⟩

/-- A run of ten seconds at most whose first attempt crashes in the body of an at-most-once
step; the next finds the run too old before it comes to ask what became of the step, and its
workflow lets the exception out. -/
def Sample.overdue : List Action :=
  [.submit runId "w" .none "request" ⟨none, none, none, some 10, none⟩, .claim "a" []] ++
    proceed 0 7 ++ [calls 0 "x" .atMostOnce] ++ advance 0 0 7 ++
    [.stop 0, .tick 31000000, .claim "b" []] ++ proceed 1 8 ++ [calls 1 "x" .atMostOnce] ++
    advance 1 0 4 ++ [.main 1 (.raise (.budgetExceeded "wall_seconds" 10 31))] ++ proceed 1 4

/-- The run has failed, and nobody will ask. -/
theorem unknown_outcome_failed : ∃ w,
    run (World.step Sample.cfg) oneAfterAnother (.init 0) Sample.overdue = some w ∧
    w.AtMostOnce Sample.cfg Sample.runId "x#1" ∧
    (w.procs[1]?.any fun proc => proc.calls.any fun rec => rec.tasks.any fun t =>
      t.raised = some (.budgetExceeded "wall_seconds" 10 31)) = true ∧
    windowOpen "x#1" (w.store.loadEvents Sample.runId) = true ∧
    (w.store.getRun Sample.runId).map (·.status) = some .failed :=
  run_exists (World.step Sample.cfg) oneAfterAnother (.init 0) Sample.overdue
    (fun w => w.AtMostOnce Sample.cfg Sample.runId "x#1" ∧
      (w.procs[1]?.any fun proc => proc.calls.any fun rec => rec.tasks.any fun t =>
        t.raised = some (.budgetExceeded "wall_seconds" 10 31)) = true ∧
      windowOpen "x#1" (w.store.loadEvents Sample.runId) = true ∧
      (w.store.getRun Sample.runId).map (·.status) = some .failed) (by decide +kernel)

end AnchorRuntime
