import AnchorRuntime.Breaches
import AnchorRuntime.Retries
import AnchorRuntime.Lib.Gathered

/-!
# Fan-out

One `gather` of an attempt, from the call until every branch has returned. In between its
branches start, interleave and finish in any order, each a leaf: it makes no call on the context,
and what it returns depends on its place in the list and on its token only. The workflow waits.

Results: `completed_where`, what an attempt knows as completed it has loaded or it has a step for;
`gather_schedule_free`, the keys, the results, the branches that execute and what is recorded
in the end, none of which mentions the schedule.
-/

namespace AnchorRuntime

open Effect Code Machine ShapeLemmas ProcLemmas TaskLemmas BreachLemmas

/-! ## What is observed -/

/-- The names of the branches of a gather. -/
def gatherNames (name : String) (branches : Nat) : List String :=
  (List.range branches).map fun i => s!"{name}[{i}]"

/-- The keys of the next gather of this name. -/
def gatherKeys (ctx : RunContext) (name : String) (branches : Nat) : List String :=
  (gatherNames name branches).map fun n => RunContext.stepKey n (ctx.ordinals n + 1)

/-- `[result for result, _ in results]`, once every branch has returned. -/
def CallRecord.gathered (rec : CallRecord) : Option (List Value) :=
  rec.tasks.mapM fun t => t.prog.ending.bind (·.toOption)

def Stage.isRunning : Stage → Bool
  | .running _ => true
  | _ => false

/-- While attempt `p` waits for its call `c` only the branches of the call go on in it; they make
no call on the context, and `value` says what their bodies return. -/
def leavesOnly (cfg : Config) (p c : Nat) (value : Nat → Uuid → Value) (w : World) :
    Action → Prop
  | .task q c' b ans => q = p → c' = c ∧ ∀ proc ∈ w.procs[p]?, ∀ t ∈ proc.task? c b,
      t.stage.isRunning = true → ∀ v, ans = .value v →
        v = value b (stepToken cfg proc.loc.runId t.key)
  | .main q _ | .call q _ _ _ => q ≠ p
  | _ => True

/-- Attempts follow one another, and the one with the gather waits for it. -/
def awaiting (cfg : Config) (p c : Nat) (value : Nat → Uuid → Value) (w : World) (a : Action) :
    Prop :=
  oneAfterAnother w a ∧ leavesOnly cfg p c value w a

/-! ## What an attempt knows as completed -/

/-- What the memory has as completed was loaded, or belongs to a step of the attempt. -/
def Proc.Sourced (proc : Proc) : Prop :=
  ∀ ctx, proc.loc.ctx = some ctx → ∀ key, (ctx.completed key).isSome = true →
    logged key Payload.isCompletion ctx.loaded = true ∨ key ∈ proc.keys

namespace FanOutLemmas

variable {cfg : Config}

theorem init_sourced (run : RunRecord) (events : List Event) (key : String)
    (known : ((RunContext.init run events).completed key).isSome = true) :
    logged key Payload.isCompletion (RunContext.init run events).loaded = true := by
  rw [MemoryLemmas.init_loaded]
  by_contra unlogged
  have none_ : (RunContext.init run events).completed key = none :=
    (replayed_of_log _ key events).1.mpr ⟨rfl, Bool.eq_false_iff.mpr unlogged⟩
  rw [none_] at known
  cases known

/-- Operations other than building the context and recording a result leave it as sourced as it
was. -/
theorem sourced_exec {proc : Proc} {o : Op} {r : Ans o} {now : Int} {st st' : Store}
    {loc : Local} {ans : Answer} {keys : List String}
    (run : exec cfg now st proc.loc ans o = some (r, st', loc))
    (own : ∀ key result, o = .recordResult key result → key ∈ keys)
    (inv : ∀ ctx, proc.loc.ctx = some ctx → ∀ key, (ctx.completed key).isSome = true →
      logged key Payload.isCompletion ctx.loaded = true ∨ key ∈ keys) :
    ∀ ctx, loc.ctx = some ctx → ∀ key, (ctx.completed key).isSome = true →
      logged key Payload.isCompletion ctx.loaded = true ∨ key ∈ keys := by
  intro ctx' hctx' key known
  obtain ⟨-, -, remembered⟩ := exec_ctx run
  rw [hctx'] at remembered
  generalize hold : proc.loc.ctx = old at remembered
  cases remembered with
  | same memory =>
    rw [memory.completed] at known
    rw [memory.loaded]
    exact inv _ hold key known
  | build => exact .inl (init_sourced _ _ key known)
  | @record other result ctx =>
    by_cases same : key = other
    · exact .inr (same ▸ own other result rfl)
    · refine inv ctx hold key ?_
      simpa [RunContext.record, same] using known

theorem sourced_kept : Kept cfg fun proc => proc.Shaped cfg ∧ proc.Sourced where
  claimed := by
    intro worker runId
    refine ⟨shaped_kept.claimed worker runId, ?_⟩
    intro ctx hctx
    cases hctx
  executed := by
    intro runId
    refine ⟨shaped_kept.executed runId, ?_⟩
    intro ctx hctx
    cases hctx
  beat := fun proc beat h => ⟨shaped_kept.beat proc beat h.1, h.2⟩
  main := by
    intro proc o k r now st st' loc ans h hmain run
    refine ⟨shaped_kept.main _ _ _ _ _ _ _ _ _ h.1 hmain run, sourced_exec run ?_ h.2⟩
    rintro key result rfl
    have may := h.1.main
    rw [hmain, obeys_step] at may
    have may : proc.phase.allowed (.recordResult key result) := may.1
    exact absurd may (by cases proc.phase <;> simp [Phase.allowed])
  task := by
    intro proc c b rec t o k r now st st' loc ans h at_ hprog run
    refine ⟨shaped_kept.task _ _ _ _ _ _ _ _ _ _ _ _ _ h.1 at_ hprog run, ?_⟩
    have at_loc : Proc.At { proc with loc } c b rec t := at_
    have own : ∀ key result, o = .recordResult key result → key ∈ proc.keys := by
      rintro key result rfl
      rw [records_own (task_allowed h.1 at_ hprog)]
      exact at_key_mem at_
    intro ctx' hctx' key known
    refine (sourced_exec run own h.2 ctx' hctx' key known).imp id fun mem => ?_
    rw [keys_setTask at_loc]
    · exact mem
    · rfl
  refused := by
    intro proc path role c exc ctx h caller hctx hnames
    refine ⟨shaped_kept.refused _ _ _ _ _ _ h.1 caller hctx hnames, ?_⟩
    intro ctx' hctx' key known
    rw [keys_concat proc _ proc.loc]
    exact (h.2 ctx' hctx' key known).imp id fun mem => List.mem_append_left _ mem
  call := by
    intro proc path role c names ctx h caller hctx hnames
    refine ⟨shaped_kept.call _ _ _ _ _ _ h.1 caller hctx hnames, ?_⟩
    intro ctx' hctx' key known
    cases hctx'
    rw [RunContext.nextKeys_same] at known ⊢
    rw [keys_concat proc]
    exact (h.2 ctx hctx key known).imp id fun mem => List.mem_append_left _ mem
  stop := fun proc h => ⟨shaped_kept.stop proc h.1, h.2⟩

end FanOutLemmas

open FanOutLemmas

theorem completed_where {now : Int} {ok : World → Action → Prop} {cfg : Config} {w : World}
    (h : Reaches (World.step cfg) ok (.init now) w) {p : Nat} {proc : Proc}
    (hp : w.procs[p]? = some proc) : proc.Sourced :=
  (sourced_kept.reaches h p proc hp).2

/-! ## One branch -/

/-- What the step of a leaf that was not completed when it was called says at each stage; `ran`
says that its body was invoked since. -/
def Stage.Leaf (ctx : RunContext) (key : String) (value : Value) (ran : Prop) : Stage → Prop
  | .entry => ctx.completed key = none
  | .running _ | .raised _ _ | .waiting _ | .failed _ _ => ran
  | .returned _ v | .recorded v | .saved v | .closed v => ran ∧ v = value
  | .replayed _ | .recovering | .verifying | .recovered _ | .resolved _ | .billed _
  | .metered _ => False
  | .boundary | .leased | .uncancelled | .admitted | .unknown | .starting | .ready _ _
  | .escaped _ => True

namespace FanOutLemmas

variable {cfg : Config} {w w' : World} {a : Action} {p q c b : Nat} {proc proc' : Proc}
  {rec rec' : CallRecord} {t : Task}

theorem leaf_congr {ctx ctx' : RunContext} {key : String} {value : Value} {ran ran' : Prop}
    {stage : Stage} (leaf : stage.Leaf ctx key value ran)
    (same : ctx'.completed key = ctx.completed key) (more : ran → ran') :
    stage.Leaf ctx' key value ran' := by
  cases stage with
  | entry => exact same.trans leaf
  | running | raised | waiting | failed => exact more leaf
  | returned | recorded | saved | closed => exact ⟨more leaf.1, leaf.2⟩
  | replayed | recovering | verifying | recovered | resolved | billed | metered => exact leaf
  | boundary | leased | uncancelled | admitted | unknown | starting | ready | escaped => trivial

theorem leave_value {now : Int} {st st' : Store} {loc loc' : Local} {ans : Answer} {u : UserCall}
    {x : Value} (plain : ∀ key token n, u ≠ .complete key token n)
    (run : exec cfg now st loc ans (.leave u) = some (.ok x, st', loc')) : ans = .value x := by
  cases u with
  | complete key token n => exact absurd rfl (plain key token n)
  | workflow | body | verify => cases ans <;> simp_all [exec, leaveUser]

/-- A step of a branch. -/
theorem leaf_next {s : StepSetup} {stage : Stage} {o : Op} {r : Ans o} {now : Int}
    {st st' : Store} {loc loc' : Local} {ans : Answer} {ctx ctx' : RunContext} {value : Value}
    {ran ran' : Prop} (plain : s.kind = .plain) (unverified : s.verify = false)
    (may : s.allowed stage o) (run : exec cfg now st loc ans o = some (r, st', loc'))
    (hctx : loc.ctx = some ctx) (more : ran → ran') (enters : ∀ n, o = .enter (s.body n) → ran')
    (answer : ∀ n x, stage = .running n → ans = .value x → x = value)
    (leaf : stage.Leaf ctx s.key value ran) : (s.next stage o r).Leaf ctx' s.key value ran' := by
  have moves := StepSetup.moves may r
  generalize s.next stage o r = stage' at moves ⊢
  cases moves with
  | replay v =>
    have known := (MemoryLemmas.exec_lookup hctx).1 _ run
    cases known.trans leaf
  | verifiable verifies =>
    rw [unverified] at verifies
    cases verifies
  | enter _ _ mine =>
    subst mine
    exact enters _ rfl
  | @returned n u v mine =>
    subst mine
    refine ⟨more leaf, answer n v rfl (leave_value ?_ run)⟩
    intro key token m
    unfold StepSetup.body
    rw [plain]
    intro is
    cases is
  | raised => exact more leaf
  | complete | record | countExecuted | saveUsage => exact ⟨more leaf.1, leaf.2⟩
  | retry | fail => exact more leaf
  | addModelUsage kind | invoked _ kind => cases plain.symm.trans kind
  | countReplayed | verify | landed | undecided | verifierRaised | resolve | recordResolved
  | saveBill | called => exact leaf.elim
  | guard | unguarded | owned | lost | uncancelled | cancelled | admitted | fresh | unverifiable
  | again | start | addToolCall | sleep | raise => trivial

/-! ## The call and its branches -/

/-- A call after the progress of one of its tasks. -/
theorem record_set {new : Task} (at_ : proc.At c b rec t) (same : new.key = t.key) :
    ∃ rec', (proc.setTask c b new).calls[c]? = some rec' ∧ rec'.call = rec.call ∧
      rec'.tasks.map (·.key) = rec.tasks.map (·.key) := by
  refine ⟨{ rec with tasks := rec.tasks.set b new }, ?_, rfl, tasks_set at_ same⟩
  rw [setTask_calls, if_pos rfl, at_.1]
  rfl

/-- No call is lost, and none of its keys. -/
theorem record_step
    (shaped : ∀ (p : Nat) (proc : Proc), w.procs[p]? = some proc → proc.Shaped cfg)
    (h : w.step cfg a = some w') (hp : w.procs[p]? = some proc) (hrec : proc.calls[c]? = some rec)
    (hp' : w'.procs[p]? = some proc') :
    ∃ rec', proc'.calls[c]? = some rec' ∧ rec'.call = rec.call ∧
      rec'.tasks.map (·.key) = rec.tasks.map (·.key) := by
  have longer : ∀ new, (proc.calls ++ [new])[c]? = some rec := fun new =>
    (List.getElem?_append_left (List.getElem?_eq_some_iff.mp hrec).1).trans hrec
  cases attempt_cases shaped h hp' with
  | same old =>
    cases hp.symm.trans old
    exact ⟨rec, hrec, rfl, rfl⟩
  | fresh none =>
    cases hp.symm.trans none
  | beat _ _ old | stop _ old =>
    cases hp.symm.trans old
    exact ⟨rec, hrec, rfl, rfl⟩
  | main _ acts =>
    cases hp.symm.trans acts.hp
    exact ⟨rec, hrec, rfl, rfl⟩
  | @task _ c' b _ rec₀ t _ _ _ loc _ acts =>
    cases hp.symm.trans acts.hp
    by_cases same : c' = c
    · subst same
      cases hrec.symm.trans acts.at_.1
      exact record_set (show Proc.At { proc with loc } c' b rec t from acts.at_) rfl
    · refine ⟨rec, (setTask_calls c).trans ?_, rfl, rfl⟩
      rw [if_neg same]
      exact hrec
  | refused _ old | call _ old =>
    cases hp.symm.trans old
    exact ⟨rec, longer _, rfl, rfl⟩

/-- An attempt that has made a call has begun. -/
theorem began_of_call (shaped : proc.Shaped cfg) (hrec : proc.calls[c]? = some rec) :
    proc.started = true := by
  by_contra not
  have early : proc.phase.early := by
    rw [shaped.fresh (Bool.eq_false_iff.mpr not)]
    trivial
  rw [shaped.uncalled (shaped.early early)] at hrec
  cases hrec

/-- While an attempt with a call is live no other attempt of its run acts. -/
theorem acts_alone {other : Proc} (ok : oneAfterAnother w a)
    (shaped : proc.Shaped cfg) (hp : w.procs[p]? = some proc) (live : proc.stopped = false)
    (hrec : proc.calls[c]? = some rec) (hq : w.procs[q]? = some other) (actor : a.actor = some q)
    (run : other.loc.runId = proc.loc.runId) : q = p := by
  by_contra ne
  have stopped := ok q actor other hq p proc hp (Ne.symm ne) run.symm (began_of_call shaped hrec)
  rw [live] at stopped
  cases stopped

/-- A completed key has its result in the log. -/
theorem logged_recorded {runId : Uuid} {key : String} :
    logged key Payload.isCompletion (w.store.loadEvents runId) = true ↔
      ∃ result, w.Recorded runId key result := by
  unfold logged World.Recorded Event.under
  simp only [List.any_eq_true, Bool.and_eq_true, decide_eq_true_eq]
  constructor
  · rintro ⟨e, mem, same, is⟩
    cases payload : e.payload with
    | stepCompleted result by_ => exact ⟨result, e, mem, same, by_, payload⟩
    | _ =>
      rw [payload] at is
      cases is
  · rintro ⟨result, e, mem, same, by_, payload⟩
    refine ⟨e, mem, same, ?_⟩
    rw [payload]
    rfl

/-- What a step enters of its body is an invocation of it. -/
theorem entered_counts {ans : Answer} {o : Op} {r : Ans o} {loc : Local} {n : Nat}
    (acts : TaskActs cfg w w' p c b ans proc rec t o r loc)
    (enters : o = .enter
      ((rec.call.setup cfg proc.loc.runId proc.loc.guarded t.key).body n)) :
    (w.invocations proc.loc.runId t.key).length <
      (w'.invocations proc.loc.runId t.key).length := by
  obtain ⟨k, -, after⟩ := acts.after
  subst enters
  rw [after]
  unfold World.invocations World.moment
  simp [observed, Moment.invokes, Call.setup]

end FanOutLemmas

/-! ## The fan-out -/

/-- What holds from the gather on, `before` being the world it was called in: of the keys of
call `c` of attempt `p`, those not completed then go on as leaves, and nothing else is
recorded. -/
structure World.Fanned (cfg : Config) (before : World) (p c : Nat) (call : Call)
    (keys : List String) (value : Nat → Uuid → Value) (runId : Uuid) (w : World) : Prop where
  record : ∃ proc rec, w.procs[p]? = some proc ∧ proc.loc.runId = runId ∧
    proc.calls[c]? = some rec ∧ rec.call = call ∧ rec.tasks.map (·.key) = keys
  kept : ∀ key x, before.Recorded runId key x → w.Recorded runId key x
  idle : ∀ key x, before.Recorded runId key x →
    w.invocations runId key = before.invocations runId key
  ran : ∀ key, (before.invocations runId key).length ≤ (w.invocations runId key).length
  tasks : ∀ proc, w.procs[p]? = some proc → proc.stopped = false → ∀ ctx,
    proc.loc.ctx = some ctx → ∀ b rec t, proc.At c b rec t →
    (∀ x, ¬ before.Recorded runId t.key x) →
    t.stage.Leaf ctx t.key (value b (stepToken cfg runId t.key))
      ((before.invocations runId t.key).length < (w.invocations runId t.key).length)
  news : ∀ proc, w.procs[p]? = some proc → proc.stopped = false → ∀ key x,
    w.Recorded runId key x → before.Recorded runId key x ∨
      ∃ b, keys[b]? = some key ∧ (∀ x, ¬ before.Recorded runId key x) ∧
        x = value b (stepToken cfg runId key)

namespace FanOutLemmas

variable {cfg : Config} {before w w' : World} {a : Action} {p c n : Nat} {call : Call}
  {keys : List String} {value : Nat → Uuid → Value} {runId : Uuid} {name : String}
  {idempotency : StepIdempotency}

theorem invocations_le
    (shaped : ∀ (p : Nat) (proc : Proc), w.procs[p]? = some proc → proc.Shaped cfg)
    (h : w.step cfg a = some w') (runId : Uuid) (key : String) :
    (w.invocations runId key).length ≤ (w'.invocations runId key).length := by
  rcases invocations_step shaped h runId key with same | ⟨m, more, -⟩
  · rw [same]
  · rw [more, List.length_append]
    exact Nat.le_add_right _ _

/-- The body of a completed key is not entered. -/
theorem invocations_recorded {key : String} {x : Value}
    (shaped : ∀ (p : Nat) (proc : Proc), w.procs[p]? = some proc → proc.Shaped cfg)
    (inv : w.Consistent cfg) (h : w.step cfg a = some w') (recorded : w.Recorded runId key x) :
    w'.invocations runId key = w.invocations runId key := by
  rcases invocations_step shaped h runId key with same | ⟨m, -, enters⟩
  · exact same
  · have opened := CompletionLemmas.enters_opened shaped inv enters
    rw [life_of_recorded inv recorded] at opened
    cases opened

/-- Who has recorded a new result: the branch of the call that the result belongs to. -/
theorem news_step (numbered : w.store.Numbered)
    (shaped : ∀ (p : Nat) (proc : Proc), w.procs[p]? = some proc → proc.Shaped cfg)
    (inv : w.Consistent cfg) (h : w.step cfg a = some w') (ok : awaiting cfg p c value w a)
    (fan : before.Fanned cfg p c (.gather name n idempotency) keys value runId w) {proc : Proc}
    (hp : w.procs[p]? = some proc) (live : proc.stopped = false) {key : String} {x : Value}
    (recorded : w'.Recorded runId key x) : before.Recorded runId key x ∨
      ∃ b, keys[b]? = some key ∧ (∀ x, ¬ before.Recorded runId key x) ∧
        x = value b (stepToken cfg runId key) := by
  obtain ⟨e, mem, same, by_, payload⟩ := recorded
  obtain ⟨es, log, -⟩ := log_step numbered shaped h runId
  rw [log, List.mem_append] at mem
  rcases mem with old | new
  · exact fan.news proc hp live key x ⟨e, old, same, by_, payload⟩
  have concerns : e.concerns key := ⟨same, by rw [payload]; rfl⟩
  obtain ⟨q, c', b, ans, proc', rec, t, r, loc, rfl, acts, rfl, run, -⟩ :=
    event_cases numbered shaped h log new concerns
  obtain ⟨own, rec₀, hp', run', hrec, isCall, hkeys⟩ := fan.record
  cases hp.symm.trans hp'
  obtain rfl := acts_alone ok.1 (shaped p proc hp) hp live hrec acts.hp rfl (run.trans run'.symm)
  cases hp.symm.trans acts.hp
  obtain ⟨rfl, -⟩ := ok.2 rfl
  cases hrec.symm.trans acts.at_.1
  obtain ⟨ctx, hctx⟩ := Option.isSome_iff_exists.mp (at_known (shaped _ _ hp) acts.at_)
  obtain ⟨life, hlife, agrees⟩ := (inv.procs _ _ hp live).tasks ctx hctx _ _ _ _ acts.at_
  have may := acts.may
  rw [payload] at may
  have key : keys[b]? = some t.key := by
    rw [← hkeys, List.getElem?_map, acts.at_.2]
    rfl
  have fresh : (t.stage.Agrees ctx t.key life → life = .opened) →
      ∀ x, ¬ before.Recorded runId t.key x := by
    intro opened y was
    have done := life_of_recorded inv (fan.kept _ y was)
    rw [run] at hlife
    rw [hlife, opened agrees] at done
    cases done
  rcases completion_open may rfl with ⟨v, stage, -⟩ | ⟨m, v, stage, is⟩
  · have leaf := fan.tasks _ hp live ctx hctx b _ t acts.at_ (fresh fun is => by rwa [stage] at is)
    rw [stage] at leaf
    exact leaf.elim
  · have unrecorded := fresh fun is => by rwa [stage] at is
    have leaf := fan.tasks _ hp live ctx hctx b _ t acts.at_ unrecorded
    rw [stage] at leaf
    cases is
    exact .inr ⟨b, key, unrecorded, leaf.2⟩

/-- A branch of the gather after an action. -/
theorem tasks_step
    (shaped : ∀ (p : Nat) (proc : Proc), w.procs[p]? = some proc → proc.Shaped cfg)
    (h : w.step cfg a = some w') (ok : awaiting cfg p c value w a)
    (fan : before.Fanned cfg p c (.gather name n idempotency) keys value runId w)
    {proc' : Proc} (hp' : w'.procs[p]? = some proc') (live : proc'.stopped = false)
    {ctx' : RunContext} (hctx' : proc'.loc.ctx = some ctx') {b : Nat} {rec' : CallRecord}
    {t' : Task} (at' : proc'.At c b rec' t')
    (fresh : ∀ x, ¬ before.Recorded runId t'.key x) :
    t'.stage.Leaf ctx' t'.key (value b (stepToken cfg runId t'.key))
      ((before.invocations runId t'.key).length < (w'.invocations runId t'.key).length) := by
  obtain ⟨proc, rec, hp, run, hrec, isCall, hkeys⟩ := fan.record
  have more : ∀ key, (before.invocations runId key).length < (w.invocations runId key).length →
      (before.invocations runId key).length < (w'.invocations runId key).length := fun key ran =>
    ran.trans_le (invocations_le shaped h runId key)
  cases task_cases shaped h hp' at' with
  | same old at_ _ same alive =>
    cases hp.symm.trans old
    obtain ⟨ctx, hctx⟩ := Option.isSome_iff_exists.mp (at_known (shaped _ _ hp) at_)
    obtain ⟨ctx'', hctx'', -, completed, -⟩ := same.ctx ctx hctx
    cases hctx'.symm.trans hctx''
    exact leaf_congr (fan.tasks _ hp (alive live) ctx hctx b _ _ at_ fresh) completed (more _)
  | @called _ key path prog old _ new =>
    cases hp.symm.trans old
    obtain ⟨rec'', hrec'', -, same⟩ := record_step shaped h hp hrec hp'
    cases at'.1.symm.trans hrec''
    refine absurd ?_ new
    have mem : key ∈ rec'.tasks.map (·.key) := by
      rw [List.mem_map]
      exact ⟨_, List.mem_of_getElem? at'.2, rfl⟩
    rw [same] at mem
    exact List.mem_flatMap.mpr ⟨rec, List.mem_of_getElem? hrec, mem⟩
  | @moved _ rec₀ t ans o k r is old alive at_ _ hprog exec_ may =>
    subst is
    cases hp.symm.trans old
    cases hrec.symm.trans at_.1
    obtain ⟨ctx, hctx⟩ := Option.isSome_iff_exists.mp (at_known (shaped _ _ hp) at_)
    obtain ⟨_, _, _, o', r', loc, acts⟩ := task_acts shaped h
    cases hp.symm.trans acts.hp
    cases hrec.symm.trans acts.at_.1
    cases at_.2.symm.trans acts.at_.2
    have plain : (rec.call.setup cfg proc.loc.runId proc.loc.guarded t.key).kind = .plain := by
      rw [isCall]
      rfl
    have unverified :
        (rec.call.setup cfg proc.loc.runId proc.loc.guarded t.key).verify = false := by
      rw [isCall]
      rfl
    refine leaf_next plain unverified may exec_ hctx (more t.key) ?_ ?_
      (fan.tasks _ hp alive ctx hctx b _ t at_ fresh)
    · rintro m rfl
      obtain ⟨k', hprog', -⟩ := acts.after
      cases hprog.symm.trans hprog'
      have counts := entered_counts acts rfl
      rw [run] at counts
      exact (fan.ran t.key).trans_lt counts
    · intro m x running is
      have told := (ok.2 rfl).2 proc hp t (by rw [Proc.task?, hrec]; exact at_.2)
        (by rw [running]; rfl) x is
      rw [told, run]

theorem fanned_step (numbered : w.store.Numbered)
    (shaped : ∀ (p : Nat) (proc : Proc), w.procs[p]? = some proc → proc.Shaped cfg)
    (inv : w.Consistent cfg) (h : w.step cfg a = some w') (ok : awaiting cfg p c value w a)
    (fan : before.Fanned cfg p c (.gather name n idempotency) keys value runId w) :
    before.Fanned cfg p c (.gather name n idempotency) keys value runId w' := by
  obtain ⟨proc, rec, hp, run, hrec, isCall, hkeys⟩ := fan.record
  obtain ⟨proc', hp', run', -⟩ := attempt_persists shaped h hp
  refine ⟨?_, ?_, ?_, ?_, ?_, ?_⟩
  · obtain ⟨rec', hrec', same, keys'⟩ := record_step shaped h hp hrec hp'
    exact ⟨proc', rec', hp', run'.trans run, hrec', same.trans isCall, keys'.trans hkeys⟩
  · intro key x was
    exact recorded_step numbered shaped h (fan.kept key x was)
  · intro key x was
    exact (invocations_recorded shaped inv h (fan.kept key x was)).trans (fan.idle key x was)
  · intro key
    exact (fan.ran key).trans (invocations_le shaped h runId key)
  · intro other hother live ctx hctx b rec' t at_ fresh
    exact tasks_step shaped h ok fan hother live hctx at_ fresh
  · intro other hother live key x recorded
    obtain ⟨rec', hrec', -⟩ := record_step shaped h hp hrec hother
    have began := began_of_call (shaped_kept.step h shaped p other hother) hrec'
    obtain ⟨old, hold, -, alive, -⟩ := SequentialLemmas.under_way h hother began live
    exact news_step numbered shaped inv h ok fan hold alive recorded

theorem gatherNames_nodup (name : String) (branches : Nat) :
    (gatherNames name branches).Nodup := by
  refine List.nodup_range.map ?_
  intro i j same
  have lists := congrArg String.toList same
  have digits : i.repr.toList = j.repr.toList := by
    simpa [toString] using lists
  exact Nat.repr_inj.mp (String.toList_inj.mp digits)

/-- Each branch of a gather has its own name, so that its key is numbered by the earlier calls
alone. -/
theorem nextKeys_gather (ctx : RunContext) (name : String) (branches : Nat) :
    (ctx.nextKeys (gatherNames name branches)).1 = gatherKeys ctx name branches := by
  refine List.ext_getElem? fun i => ?_
  rw [gatherKeys, List.getElem?_map]
  cases at_ : (gatherNames name branches)[i]? with
  | none =>
    show (ctx.nextKeys (gatherNames name branches)).1[i]? = none
    rw [List.getElem?_eq_none_iff, RunContext.nextKeys_length]
    exact List.getElem?_eq_none_iff.mp at_
  | some n =>
    have new : ((gatherNames name branches).take i).count n = 0 := by
      rw [List.count_eq_zero]
      intro mem
      obtain ⟨j, low, is⟩ := List.mem_take_iff_getElem.mp mem
      obtain ⟨bound, is'⟩ := List.getElem?_eq_some_iff.mp at_
      have same := (gatherNames_nodup name branches).getElem_inj_iff.mp (is.trans is'.symm)
      omega
    rw [RunContext.nextKeys_get ctx _ at_, new]
    rfl

/-- A key that the attempt has not allocated is known as completed when the log says so. -/
theorem completed_untouched {proc : Proc} {ctx : RunContext} (inv : proc.InStep cfg w)
    (hctx : proc.loc.ctx = some ctx) {key : String} (untouched : key ∉ proc.keys)
    (fresh : ∀ x, ¬ w.Recorded proc.loc.runId key x) : ctx.completed key = none := by
  obtain ⟨life, hlife, synced⟩ := inv.untouched ctx hctx key untouched
  cases life with
  | fresh | failed | opened => exact synced.1
  | done x => exact absurd (CompletionLemmas.done_recorded hlife) (fresh x)

/-- Where the gather is called. -/
theorem fanned_called {proc : Proc} {ctx : RunContext} {caller : Option (Nat × Nat)} {role : Role}
    (shaped : ∀ (p : Nat) (proc : Proc), w.procs[p]? = some proc → proc.Shaped cfg)
    (inv : w.Consistent cfg) (hp : w.procs[p]? = some proc) (hctx : proc.loc.ctx = some ctx)
    (h : w.step cfg (.call p caller role (.gather name n idempotency)) = some w') :
    w.Fanned cfg p proc.calls.length (.gather name n idempotency) (gatherKeys ctx name n) value
      proc.loc.runId w' := by
  cases step_happens h with
  | refused _ _ _ _ names => cases names
  | @call _ _ _ _ _ path names _ old live _ hctx' hnames =>
    cases hp.symm.trans old
    cases hctx.symm.trans hctx'
    obtain rfl : gatherNames name n = names := Except.ok.inj hnames
    have own := List.getElem?_set_self (a := { proc with
      loc := { proc.loc with ctx := some (ctx.nextKeys (gatherNames name n)).2 }
      calls := proc.calls ++ [⟨path, role, proc.callsBy path role,
        .gather name n idempotency, none, proc.newTasks cfg path role
        (.gather name n idempotency) (ctx.nextKeys (gatherNames name n)).1⟩] })
      (List.getElem?_eq_some_iff.mp hp).1
    refine ⟨⟨_, _, own, rfl, List.getElem?_concat_length, rfl, ?_⟩, fun _ _ was => was,
      fun _ _ _ => rfl, fun _ => le_rfl, ?_, fun _ _ _ _ _ was => .inl was⟩
    · rw [newTasks_keys, nextKeys_gather]
    · intro proc' hp' live' ctx' hctx' b rec t at_ fresh
      cases own.symm.trans hp'
      cases hctx'
      rcases at_concat at_ with old' | ⟨-, rfl, new⟩
      · exact absurd (List.getElem?_eq_some_iff.mp old'.1).1 (lt_irrefl _)
      · obtain ⟨key, hkey, rfl⟩ := newTasks_get new
        show (ctx.nextKeys (gatherNames name n)).2.completed key = none
        rw [RunContext.nextKeys_same]
        refine completed_untouched (inv.procs p proc hp live) hctx ?_ fresh
        intro mem
        exact RunContext.nextKeys_fresh _ _ (List.mem_of_getElem? hkey)
          ((shaped _ _ hp).allocated _ hctx key mem)

theorem fanned_reaches {now : Int} {w₁ w₂ : World}
    (h : Reaches (World.step cfg) oneAfterAnother (.init now) w₁)
    (waits : Reaches (World.step cfg) (awaiting cfg p c value) w₁ w₂)
    (fan : before.Fanned cfg p c (.gather name n idempotency) keys value runId w₁) :
    before.Fanned cfg p c (.gather name n idempotency) keys value runId w₂ := by
  refine waits.invariant fan ?_
  intro w a w' reached fan ok step
  have reached := h.trans (reached.weaken fun _ _ ok => ok.1)
  exact fanned_step (numbered_reaches reached) (fun _ _ => shaped_reaches reached)
    (consistent_reaches reached fun _ _ ok => ok) step ok fan

/-! ## The results -/

/-- A branch that has returned has its result in the log; if it was not completed before, it
has executed. -/
theorem branch_returned {proc : Proc} {rec : CallRecord} {t : Task} {b : Nat} {result : Value}
    (shaped : proc.Shaped cfg) (inv : proc.InStep cfg w) (at_ : proc.At c b rec t)
    (gather : rec.call = .gather name n idempotency)
    (returned : t.prog.ending.bind (·.toOption) = some result) :
    w.Recorded proc.loc.runId t.key result ∧ ∀ ctx value ran,
      t.stage.Leaf ctx t.key value ran → ran ∧ result = value := by
  obtain ⟨ctx, hctx⟩ := Option.isSome_iff_exists.mp (at_known shaped at_)
  obtain ⟨life, hlife, agrees⟩ := inv.tasks ctx hctx _ _ _ _ at_
  obtain ⟨ending, ends, ok⟩ := Option.bind_eq_some_iff.mp returned
  cases ending with
  | error exc => cases ok
  | ok v =>
    cases ok
    have told := ending_ends shaped at_ ends
    rw [gather] at told
    have replayed : ∀ x, Call.reply (.gather name n idempotency) x = .ok x := fun _ => rfl
    generalize t.stage = stage at told agrees ⊢
    cases stage with
    | replayed x | resolved x =>
      obtain rfl : result = x := Except.ok.inj told
      cases agrees
      exact ⟨CompletionLemmas.done_recorded hlife, fun _ _ _ leaf => leaf.elim⟩
    | closed x =>
      obtain rfl : result = x := Except.ok.inj told
      cases agrees
      exact ⟨CompletionLemmas.done_recorded hlife, fun _ _ _ leaf => leaf⟩
    | saved x =>
      obtain rfl : result = x := Except.ok.inj told.1
      cases agrees
      exact ⟨CompletionLemmas.done_recorded hlife, fun _ _ _ leaf => leaf⟩
    | _ => simp [StepSetup.Ends] at told

theorem recorded_unique {key : String} {x y : Value} (inv : w.Consistent cfg)
    (h : w.Recorded runId key x) (h' : w.Recorded runId key y) : x = y := by
  have same := (life_of_recorded inv h).symm.trans (life_of_recorded inv h')
  cases same
  rfl

theorem called_live {proc : Proc} {caller : Option (Nat × Nat)} {role : Role} {call : Call}
    (h : w.step cfg (.call p caller role call) = some w') (hp : w.procs[p]? = some proc) :
    proc.stopped = false := by
  cases step_happens h with
  | refused old live | call old live =>
    cases hp.symm.trans old
    exact live

/-- The keys of the next gather are new. -/
theorem gatherKeys_fresh {proc : Proc} {ctx : RunContext} (shaped : proc.Shaped cfg)
    (hctx : proc.loc.ctx = some ctx) {key : String} (mem : key ∈ gatherKeys ctx name n) :
    key ∉ proc.keys := by
  intro old
  rw [← nextKeys_gather] at mem
  exact RunContext.nextKeys_fresh _ _ mem (shaped.allocated ctx hctx key old)

/-- The attempt has loaded the completions of the keys it has not allocated. -/
theorem loaded_iff {proc : Proc} {ctx : RunContext} {key : String} (loaded : w.Loaded)
    (sourced : proc.Sourced) (inv : w.Consistent cfg) (hp : w.procs[p]? = some proc)
    (live : proc.stopped = false) (hctx : proc.loc.ctx = some ctx) (untouched : key ∉ proc.keys) :
    logged key Payload.isCompletion ctx.loaded = true ↔
      ∃ x, w.Recorded proc.loc.runId key x := by
  constructor
  · intro was
    obtain ⟨rest, log⟩ := loaded.ctx p proc hp ctx hctx
    rw [← logged_recorded, ← log, LifecycleLemmas.logged_append, was, Bool.true_or]
  · rintro ⟨x, recorded⟩
    obtain ⟨life, hlife, synced⟩ := (inv.procs p proc hp live).untouched ctx hctx key untouched
    cases hlife.symm.trans (life_of_recorded inv recorded)
    refine (sourced ctx hctx key ?_).resolve_right untouched
    rw [show ctx.completed key = some x from synced]
    rfl

end FanOutLemmas

/-- What a gather of the keys has done when it returns `results`: `loaded` is the log as it was
when the attempt began. -/
structure FansOut (cfg : Config) (runId : Uuid) (loaded : List Event) (keys : List String)
    (value : Nat → Uuid → Value) (before after : World) (results : List Value) : Prop where
  length : results.length = keys.length
  recorded : ∀ (i : Nat) (key : String), keys[i]? = some key → ∀ x,
    after.Recorded runId key x ↔ results[i]? = some x
  executed : ∀ key ∈ keys,
    (before.invocations runId key).length < (after.invocations runId key).length ↔
      logged key Payload.isCompletion loaded = false
  log : ∀ key x, after.Recorded runId key x ↔ before.Recorded runId key x ∨
    ∃ i, keys[i]? = some key ∧ logged key Payload.isCompletion loaded = false ∧
      x = value i (stepToken cfg runId key)

/-- Call `c` of attempt `p`, made in `called`, has returned `results` for its keys. -/
structure World.Gathers (cfg : Config) (p c : Nat) (value : Nat → Uuid → Value)
    (called after : World) (keys : List String) (results : List Value) : Prop where
  waits : Reaches (World.step cfg) (awaiting cfg p c value) called after
  returned : ∃ proc rec, after.procs[p]? = some proc ∧ proc.stopped = false ∧
    proc.calls[c]? = some rec ∧ rec.tasks.map (·.key) = keys ∧ rec.gathered = some results

theorem fans_out {cfg : Config} {now : Int} {w w₁ w₂ : World} {p n : Nat}
    {caller : Option (Nat × Nat)} {role : Role} {name : String} {idempotency : StepIdempotency}
    {value : Nat → Uuid → Value} {proc : Proc} {ctx : RunContext} {keys : List String}
    {results : List Value}
    (h : Reaches (World.step cfg) oneAfterAnother (.init now) w)
    (hp : w.procs[p]? = some proc) (hctx : proc.loc.ctx = some ctx)
    (orderly : oneAfterAnother w (.call p caller role (.gather name n idempotency)))
    (call : w.step cfg (.call p caller role (.gather name n idempotency)) = some w₁)
    (gathers : World.Gathers cfg p proc.calls.length value w₁ w₂ keys results) :
    keys = gatherKeys ctx name n ∧
      FansOut cfg proc.loc.runId ctx.loaded keys value w w₂ results := by
  have shaped : ∀ (p : Nat) (proc : Proc), w.procs[p]? = some proc → proc.Shaped cfg :=
    fun _ _ => shaped_reaches h
  have inv := consistent_reaches h fun _ _ ok => ok
  have h₁ := h.tail orderly call
  have h₂ := h₁.trans (gathers.waits.weaken fun _ _ ok => ok.1)
  have inv₂ := consistent_reaches h₂ fun _ _ ok => ok
  have fan := fanned_reaches h₁ gathers.waits (fanned_called shaped inv hp hctx call)
  obtain ⟨proc₂, rec₂, hp₂, live₂, hrec₂, hkeys, done⟩ := gathers.returned
  obtain ⟨proc', rec', hp', run, hrec', isGather, hkeys'⟩ := fan.record
  cases hp₂.symm.trans hp'
  cases hrec₂.symm.trans hrec'
  cases hkeys.symm.trans hkeys'
  refine ⟨rfl, ?_⟩
  have logged_ : ∀ key ∈ gatherKeys ctx name n,
      logged key Payload.isCompletion ctx.loaded = false ↔
        ∀ x, ¬ w.Recorded proc.loc.runId key x := by
    intro key mem
    rw [← Bool.not_eq_true, loaded_iff (loaded_reaches h) (completed_where h hp) inv hp
      (called_live call hp) hctx (gatherKeys_fresh (shaped p proc hp) hctx mem), not_exists]
  obtain ⟨length, branches⟩ := Gathered.mapM_get done
  have each : ∀ i key, (gatherKeys ctx name n)[i]? = some key → ∃ result,
      results[i]? = some result ∧ w₂.Recorded proc.loc.runId key result ∧
      ((∀ x, ¬ w.Recorded proc.loc.runId key x) →
        (w.invocations proc.loc.runId key).length < (w₂.invocations proc.loc.runId key).length ∧
          result = value i (stepToken cfg proc.loc.runId key)) := by
    intro i key at_
    rw [← hkeys, List.getElem?_map] at at_
    obtain ⟨t, ht, rfl⟩ := Option.map_eq_some_iff.mp at_
    obtain ⟨result, is, returned⟩ := branches i t ht
    have at₂ : proc₂.At proc.calls.length i rec₂ t := ⟨hrec₂, ht⟩
    obtain ⟨ctx₂, hctx₂⟩ := Option.isSome_iff_exists.mp (at_known (shaped_reaches h₂ hp₂) at₂)
    obtain ⟨recorded, leaf⟩ :=
      branch_returned (shaped_reaches h₂ hp₂) (inv₂.procs p proc₂ hp₂ live₂) at₂ isGather returned
    rw [run] at recorded
    exact ⟨result, is, recorded, fun fresh =>
      leaf ctx₂ _ _ (fan.tasks proc₂ hp₂ live₂ ctx₂ hctx₂ i rec₂ t at₂ fresh)⟩
  refine ⟨?_, ?_, ?_, ?_⟩
  · rw [length, ← hkeys, List.length_map]
  · intro i key at_ x
    obtain ⟨result, is, recorded, -⟩ := each i key at_
    constructor
    · intro other
      rw [is, recorded_unique inv₂ recorded other]
    · intro other
      cases is.symm.trans other
      exact recorded
  · intro key mem
    rw [logged_ key mem]
    constructor
    · intro ran x was
      rw [fan.idle key x was] at ran
      exact lt_irrefl _ ran
    · intro fresh
      obtain ⟨i, at_⟩ := List.mem_iff_getElem?.mp mem
      obtain ⟨result, -, -, leaf⟩ := each i key at_
      exact (leaf fresh).1
  · intro key x
    constructor
    · intro recorded
      refine (fan.news proc₂ hp₂ live₂ key x recorded).imp id ?_
      rintro ⟨i, at_, fresh, is⟩
      exact ⟨i, at_, (logged_ key (List.mem_of_getElem? at_)).mpr fresh, is⟩
    · rintro (was | ⟨i, at_, fresh, rfl⟩)
      · exact fan.kept key x was
      · obtain ⟨result, -, recorded, leaf⟩ := each i key at_
        rw [← (leaf ((logged_ key (List.mem_of_getElem? at_)).mp fresh)).2]
        exact recorded

/-- Fan-out is independent of the schedule: whatever order the branches of a gather start,
interleave and finish in, the same keys are allocated, the branches that were not completed
execute, the results are those recorded for the keys, and the same results are recorded. -/
theorem gather_schedule_free {cfg : Config} {now : Int} {w w₁ w₂ w₃ : World} {p n : Nat}
    {caller : Option (Nat × Nat)} {role : Role} {name : String} {idempotency : StepIdempotency}
    {value : Nat → Uuid → Value} {proc : Proc} {ctx : RunContext} {keys keys' : List String}
    {results results' : List Value}
    (h : Reaches (World.step cfg) oneAfterAnother (.init now) w)
    (hp : w.procs[p]? = some proc) (hctx : proc.loc.ctx = some ctx)
    (orderly : oneAfterAnother w (.call p caller role (.gather name n idempotency)))
    (call : w.step cfg (.call p caller role (.gather name n idempotency)) = some w₁)
    (one : World.Gathers cfg p proc.calls.length value w₁ w₂ keys results)
    (other : World.Gathers cfg p proc.calls.length value w₁ w₃ keys' results') :
    keys = gatherKeys ctx name n ∧ results.length = n ∧
    FansOut cfg proc.loc.runId ctx.loaded keys value w w₂ results ∧
    keys' = keys ∧ results' = results ∧
    ∀ key x, w₃.Recorded proc.loc.runId key x ↔ w₂.Recorded proc.loc.runId key x := by
  obtain ⟨allocated, first⟩ := fans_out h hp hctx orderly call one
  obtain ⟨allocated', second⟩ := fans_out h hp hctx orderly call other
  obtain rfl : keys' = keys := allocated'.trans allocated.symm
  have log : ∀ key x, w₃.Recorded proc.loc.runId key x ↔ w₂.Recorded proc.loc.runId key x := by
    intro key x
    rw [first.log, second.log]
  refine ⟨allocated, ?_, first, rfl, ?_, log⟩
  · rw [first.length, allocated, gatherKeys, gatherNames, List.length_map, List.length_map,
      List.length_range]
  · refine List.ext_getElem? fun i => ?_
    cases at_ : keys'[i]? with
    | none =>
      have short := List.getElem?_eq_none_iff.mp at_
      rw [List.getElem?_eq_none (second.length.trans_le short),
        List.getElem?_eq_none (first.length.trans_le short)]
    | some key =>
      refine Option.ext fun x => ?_
      rw [← first.recorded i key at_, ← second.recorded i key at_, log]

namespace Sample

/-- Each branch returns its place. -/
def places (b : Nat) (_ : Uuid) : Value := .int b

def placed (b : Nat) : Answer → Bool
  | .value (.int k) => k = b
  | .value _ => false
  | _ => true

/-- Only the branches of the first call of the second attempt go on in it. -/
def branching : Action → Bool
  | .task q c b ans => q ≠ 1 || (c = 0 && placed b ans)
  | .main q _ | .call q _ _ _ => q ≠ 1
  | _ => true

/-- The attempt makes a gather of two branches. -/
def gathers (p : Nat) : Action := .call p none .workflow (.gather "x" 2 .atLeastOnce)

/-- The branch performs its next `n` operations. -/
def branch (p b n : Nat) : List Action := List.replicate n (.task p 0 b .done)

/-- An attempt that crashes when the first branch of its gather is completed, and the next. -/
def halfway : List Action :=
  opening ++ [gathers 0] ++ branch 0 0 7 ++
    [.task 0 0 0 (.value (.int 0)), .task 0 0 0 .done, .stop 0, .tick 31000000, .claim "b" []] ++
    proceed 1 8

/-- The branches one after another. -/
def inTurn : List Action :=
  branch 1 0 2 ++ branch 1 1 7 ++ [.task 1 0 1 (.value (.int 1))] ++ branch 1 1 4

/-- The first branch while the body of the second is running. -/
def overlapped : List Action :=
  branch 1 1 7 ++ branch 1 0 1 ++ [.task 1 0 1 (.value (.int 1))] ++ branch 1 0 1 ++ branch 1 1 4

/-- The second attempt is about to make its first call. -/
def ready (w : World) : Bool :=
  w.procs[1]?.any fun proc => proc.loc.runId = runId && proc.calls.length = 0 &&
    proc.loc.ctx.any fun ctx => gatherKeys ctx "x" 2 = ["x[0]#1", "x[1]#1"]

/-- Both branches of the second attempt have returned, and each has executed once. -/
def returned (w : World) : Bool :=
  (w.procs[1]?.any fun proc => !proc.stopped &&
    proc.calls[0]?.any fun rec => rec.gathered.isSome) &&
  (w.invocations runId "x[0]#1").length = 1 && (w.invocations runId "x[1]#1").length = 1

/-- Attempts follow one another, and of the second only the branches go on. -/
def inGather (w : World) (a : Action) : Prop := oneAfterAnother w a ∧ branching a = true

instance (w : World) (a : Action) : Decidable (inGather w a) :=
  inferInstanceAs (Decidable (_ ∧ _))

/-- The second attempt's gather, called and brought to its end. -/
def settles (w : World) (schedule : List Action) : Bool :=
  (w.step cfg (gathers 1)).any fun w₁ =>
    (run (World.step cfg) inGather w₁ schedule).any returned

end Sample

theorem inGather_awaits {w : World} {a : Action} (ok : Sample.inGather w a) :
    awaiting Sample.cfg 1 0 Sample.places w a := by
  obtain ⟨orderly, only⟩ := ok
  refine ⟨orderly, ?_⟩
  cases a with
  | task q c b ans =>
    rintro rfl
    simp only [Sample.branching, ne_eq, not_true_eq_false, decide_false, Bool.false_or,
      Bool.and_eq_true, decide_eq_true_eq] at only
    refine ⟨only.1, ?_⟩
    rintro proc - t - - v rfl
    have is := only.2
    cases v with
    | int k =>
      have same : k = b := by simpa [Sample.placed] using is
      rw [same]
      rfl
    | _ => cases is
  | main q ans =>
    show q ≠ 1
    simpa [Sample.branching] using only
  | call q caller role c =>
    show q ≠ 1
    simpa [Sample.branching] using only
  | _ => trivial

/-- A schedule of the second attempt that returns. -/
theorem gathers_of_run {w w₁ : World} {schedule : List Action}
    (call : w.step Sample.cfg (Sample.gathers 1) = some w₁)
    (is : Sample.settles w schedule = true) : ∃ w₂ keys results,
      World.Gathers Sample.cfg 1 0 Sample.places w₁ w₂ keys results ∧
      (w₂.invocations Sample.runId "x[0]#1").length = 1 ∧
      (w₂.invocations Sample.runId "x[1]#1").length = 1 := by
  obtain ⟨_, step, is⟩ := (Option.any_eq_true _ _).mp is
  cases call.symm.trans step
  obtain ⟨w₂, ran, is⟩ := (Option.any_eq_true _ _).mp is
  unfold Sample.returned at is
  simp only [Bool.and_eq_true, decide_eq_true_eq] at is
  obtain ⟨⟨ends, first⟩, second⟩ := is
  obtain ⟨proc, hproc, is⟩ := (Option.any_eq_true _ _).mp ends
  obtain ⟨live, is⟩ := (Bool.and_eq_true_iff).mp is
  obtain ⟨rec, hrec, done⟩ := (Option.any_eq_true _ _).mp is
  obtain ⟨results, done⟩ := Option.isSome_iff_exists.mp done
  have live : proc.stopped = false := by simpa using live
  exact ⟨w₂, _, results, ⟨(run_reaches ran).weaken fun _ _ ok => inGather_awaits ok,
    proc, rec, hproc, live, hrec, rfl, done⟩, first, second⟩

theorem gather_schedule_free_halfway : ∃ (w₂ w₃ : World) (keys : List String)
    (results results' : List Value),
    ((w₂.invocations Sample.runId "x[0]#1").length = 1 ∧
      (w₂.invocations Sample.runId "x[1]#1").length = 1) ∧
    keys = ["x[0]#1", "x[1]#1"] ∧ results.length = 2 ∧ results' = results ∧
    ∀ key x, w₃.Recorded Sample.runId key x ↔ w₂.Recorded Sample.runId key x := by
  obtain ⟨w, ran, ready, orderly, inTurn, interleaved⟩ := run_exists (World.step Sample.cfg)
    oneAfterAnother (.init 0) Sample.halfway
    (fun w => Sample.ready w = true ∧ oneAfterAnother w (Sample.gathers 1) ∧
      Sample.settles w Sample.inTurn = true ∧ Sample.settles w Sample.overlapped = true)
    (by decide +kernel)
  obtain ⟨proc, hp, is⟩ := (Option.any_eq_true _ _).mp ready
  simp only [Bool.and_eq_true, decide_eq_true_eq] at is
  obtain ⟨⟨runId, uncalled⟩, is⟩ := is
  obtain ⟨ctx, hctx, keys⟩ := (Option.any_eq_true _ _).mp is
  obtain ⟨w₁, call, -⟩ := (Option.any_eq_true _ _).mp inTurn
  obtain ⟨w₂, _, results, one, first, second⟩ := gathers_of_run call inTurn
  obtain ⟨w₃, _, results', other, -⟩ := gathers_of_run call interleaved
  rw [← uncalled] at one other
  obtain ⟨allocated, length, -, -, same, log⟩ :=
    gather_schedule_free (run_reaches ran) hp hctx orderly call one other
  rw [runId] at log
  exact ⟨w₂, w₃, _, results, results', ⟨first, second⟩, of_decide_eq_true keys, length, same, log⟩

end AnchorRuntime
