import AnchorRuntime.Ledger
import AnchorRuntime.Sequential

/-!
# What an attempt counts

Where the usage an attempt goes by comes from, and which keys are keys of model and of tool
steps.

Results: `held_cases`, an attempt has read its usage off the row, or has counted one more
call; `saved_cases`, the usage on a row is what the attempt under way has counted;
`responses_reaches`, what a model step records is what the provider reported.
-/

namespace AnchorRuntime

open Effect Machine ShapeLemmas ProcLemmas TaskLemmas SequentialLemmas

/-! ## The usage of an attempt -/

/-- The usage an attempt goes by: what its context counts, before that what it has read. -/
def Proc.held (proc : Proc) : Option Usage :=
  match proc.loc.ctx, proc.phase with
  | some ctx, _ => some ctx.usage
  | none, .loading (some run) | none, .loaded (some run) _ => some run.usage
  | _, _ => none

theorem held_of_ctx {proc : Proc} {ctx : RunContext} (h : proc.loc.ctx = some ctx) :
    proc.held = some ctx.usage := by
  simp only [Proc.held, h]

/-- How many steps of the attempt are such. -/
def Proc.tally (proc : Proc) (g : StepKind → Task → Bool) : Nat :=
  (proc.calls.map fun rec => rec.tasks.countP fun t => g rec.call.kind t).sum

/-- How many steps of the attempt are of a kind at a stage. -/
def Proc.number (proc : Proc) (f : StepKind → Stage → Bool) : Nat :=
  (proc.calls.map fun rec => rec.tasks.countP fun t => f rec.call.kind t.stage).sum

/-- Where the usage comes from that attempt `q` of the next world goes by. -/
inductive HeldStep (cfg : Config) (w w' : World) (a : Action) (q : Nat) (proc' : Proc) :
    Usage → Prop
  | kept {proc : Proc} {u : Usage} : w.procs[q]? = some proc → proc.stopped = false →
      proc.loc.runId = proc'.loc.runId → proc.held = some u → (∀ c b ans, a ≠ .task q c b ans) →
      (∀ f : StepKind → Stage → Bool, (∀ kind, f kind .entry = false) →
        proc'.number f = proc.number f) → HeldStep cfg w w' a q proc' u
  | metered {proc : Proc} {c b : Nat} {ans : Answer} {rec : CallRecord} {t : Task} {o : Op}
      {r : Ans o} {loc : Local} {ctx : RunContext} : a = .task q c b ans →
      TaskActs cfg w w' q c b ans proc rec t o r loc → proc.loc.runId = proc'.loc.runId →
      proc.loc.ctx = some ctx → HeldStep cfg w w' a q proc' (metered o ctx.usage)
  | read {proc : Proc} {u : Usage} {ans : Answer} : a = .main q ans → w.procs[q]? = some proc →
      proc.stopped = false → proc.phase = .reading → proc.loc.runId = proc'.loc.runId →
      w'.store = w.store → w.store.usage proc'.loc.runId = some u → proc'.calls = [] →
      HeldStep cfg w w' a q proc' u

namespace MeteringLemmas

variable {cfg : Config} {w w' : World} {a : Action} {p q c b : Nat} {proc proc' : Proc}
  {rec : CallRecord} {t : Task}

/-! Counting steps. -/

theorem countP_set {α : Type} {l : List α} {x y : α} (f : α → Bool) (h : l[b]? = some x) :
    (l.set b y).countP f + (f x).toNat = l.countP f + (f y).toNat := by
  induction l generalizing b with
  | nil => cases h
  | cons z l ih =>
    cases b with
    | zero =>
      obtain rfl := Option.some.inj h
      rw [List.set_cons_zero, List.countP_cons, List.countP_cons]
      cases f y <;> cases f z <;> simp
    | succ b =>
      have ih := ih h
      rw [List.set_cons_succ, List.countP_cons, List.countP_cons]
      omega

theorem tally_modify {calls : List CallRecord} (g : StepKind → Task → Bool) {t' : Task}
    (hrec : calls[c]? = some rec) (ht : rec.tasks[b]? = some t) :
    ((calls.modify c fun r => { r with tasks := r.tasks.set b t' }).map fun rec =>
        rec.tasks.countP fun t => g rec.call.kind t).sum + (g rec.call.kind t).toNat =
      (calls.map fun rec => rec.tasks.countP fun t => g rec.call.kind t).sum +
        (g rec.call.kind t').toNat := by
  induction calls generalizing c with
  | nil => cases hrec
  | cons first calls ih =>
    cases c with
    | zero =>
      obtain rfl := Option.some.inj hrec
      have one := countP_set (y := t') (fun t => g first.call.kind t) ht
      simp only [List.modify_zero_cons, List.map_cons, List.sum_cons]
      omega
    | succ c =>
      have ih := ih hrec
      simp only [List.modify_succ_cons, List.map_cons, List.sum_cons]
      omega

/-- A step that moves is counted as it is now. -/
theorem tally_setTask (g : StepKind → Task → Bool) {loc : Local} {t' : Task}
    (at_ : proc.At c b rec t) :
    ({ proc with loc }.setTask c b t').tally g + (g rec.call.kind t).toNat =
      proc.tally g + (g rec.call.kind t').toNat :=
  tally_modify g at_.1 at_.2

theorem tally_concat (g : StepKind → Task → Bool) {loc : Local} {rec₀ : CallRecord} :
    Proc.tally { proc with loc, calls := proc.calls ++ [rec₀] } g =
      proc.tally g + rec₀.tasks.countP fun t => g rec₀.call.kind t := by
  simp [Proc.tally]

/-- Steps that have just been called for. -/
theorem tally_newTasks {g : StepKind → Task → Bool}
    (entry : ∀ kind t, t.stage = .entry → g kind t = false)
    (caller : List Place) (role : Role) (call : Call) (keys : List String) :
    ((proc.newTasks cfg caller role call keys).countP fun t => g call.kind t) = 0 := by
  rw [List.countP_eq_zero]
  intro t mem
  obtain ⟨b, hb⟩ := List.getElem?_of_mem mem
  obtain ⟨key, -, rfl⟩ := newTasks_get hb
  simp [entry]

theorem number_concat (f : StepKind → Stage → Bool) {loc : Local} {rec₀ : CallRecord} :
    Proc.number { proc with loc, calls := proc.calls ++ [rec₀] } f =
      proc.number f + rec₀.tasks.countP fun t => f rec₀.call.kind t.stage :=
  tally_concat fun kind t => f kind t.stage

theorem number_newTasks {f : StepKind → Stage → Bool} (entry : ∀ kind, f kind .entry = false)
    (caller : List Place) (role : Role) (call : Call) (keys : List String) :
    ((proc.newTasks cfg caller role call keys).countP fun t => f call.kind t.stage) = 0 :=
  tally_newTasks (g := fun kind t => f kind t.stage)
    (fun kind t stage => by rw [stage, entry]) caller role call keys

theorem number_acts {ans : Answer} {o : Op} {r : Ans o} {loc : Local}
    (acts : TaskActs cfg w w' q c b ans proc rec t o r loc) (hq : w'.procs[q]? = some proc')
    (f : StepKind → Stage → Bool) :
    proc'.number f + (f rec.call.kind t.stage).toNat = proc.number f + (f rec.call.kind
      ((rec.call.setup cfg proc.loc.runId proc.loc.guarded t.key).next t.stage o r)).toNat := by
  obtain ⟨k, -, world⟩ := acts.after
  rw [world, ConsistencyLemmas.mem_set acts.hp] at hq
  obtain rfl := Option.some.inj hq
  exact tally_setTask (fun kind t => f kind t.stage) acts.at_

/-- Who goes by a usage has begun. -/
theorem held_began (shaped : proc.Shaped cfg) {u : Usage} (h : proc.held = some u) :
    proc.started = true := by
  cases hs : proc.started with
  | true => rfl
  | false =>
    have start := shaped.fresh hs
    have none := shaped.early (by rw [start]; trivial)
    rw [Proc.held, none, start] at h
    cases h

/-- The main code of an attempt meters nothing. -/
theorem phase_metered {phase : Phase} {o : Op} (may : phase.allowed o) (u : Usage) :
    metered o u = u := by
  have moves : ∀ r, phase.Moves o r (phase.next o r) := Phase.moves may
  cases o with
  | addToolCall =>
    have moves := moves ()
    generalize phase.next _ _ = phase' at moves
    cases moves with
    | raise _ failed => cases failed
  | addModelUsage =>
    have moves := moves ()
    generalize phase.next _ _ = phase' at moves
    cases moves with
    | raise _ failed => cases failed
  | _ => rfl

/-- Without a context an attempt goes by the row it has read. -/
theorem held_unbuilt (unbuilt : proc.loc.ctx = none) {u : Usage} (h : proc.held = some u) :
    (∃ row, proc.phase = .loading (some row) ∧ row.usage = u) ∨
      ∃ row events, proc.phase = .loaded (some row) events ∧ row.usage = u := by
  unfold Proc.held at h
  rw [unbuilt] at h
  cases hphase : proc.phase with
  | loading row =>
    rw [hphase] at h
    cases row with
    | none => cases h
    | some row => exact .inl ⟨row, rfl, Option.some.inj h⟩
  | loaded row events =>
    rw [hphase] at h
    cases row with
    | none => cases h
    | some row => exact .inr ⟨row, events, rfl, Option.some.inj h⟩
  | _ =>
    rw [hphase] at h
    cases h

/-- Only the answer to `get_run` makes an attempt go on with a row. -/
theorem exec_reread {phase : Phase} {o : Op} {r : Ans o} {row : Option RunRecord} {now : Int}
    {st st' : Store} {loc loc' : Local} {ans : Answer} (may : phase.allowed o)
    (run : exec cfg now st loc ans o = some (r, st', loc')) (h : phase.next o r = .loading row) :
    phase = .reading ∧ st' = st ∧ row = st.getRun loc.runId := by
  have moves := Phase.moves may r
  generalize phase.next o r = phase' at moves h
  cases moves with
  | reread =>
    cases h
    refine ⟨rfl, ?_, exec_getRun run⟩
    rcases exec_store run with ⟨same, -⟩ | wrote
    · exact same
    · cases wrote
  | leave name input r =>
    cases r with
    | ok v => cases h
    | error exc => cases exc <;> cases h
  | snapshot r is => obtain ⟨_, rfl⟩ | rfl | rfl := is <;> cases h
  | stopHeartbeat r is => obtain rfl | rfl | rfl := is <;> cases h
  | _ => cases h

/-- The usage an attempt goes by after its main code has moved. -/
theorem held_main (shaped : proc.Shaped cfg) {ans : Answer} {o : Op} {r : Ans o} {loc : Local}
    {k : Ans o → Code (Option Outcome)} {u : Usage}
    (acts : MainActs cfg w w' q ans proc o r loc)
    (h : Proc.held { proc with loc, phase := proc.phase.next o r, main := k r, started := true } =
      some u) :
    proc.held = some u ∨ (proc.phase = .reading ∧ w'.store = w.store ∧
      w.store.usage proc.loc.runId = some u ∧ proc.calls = []) := by
  have run := acts.run
  have moves := Phase.moves acts.may r
  cases hctx : proc.loc.ctx with
  | some ctx =>
    have built : ∀ run events, o ≠ .newContext run events := by
      rintro run events rfl
      exact absurd ((shaped.early (newContext_early acts.may)).symm.trans hctx) (by simp)
    rcases remembered_same (exec_ctx run).2.2 built with ⟨none, -⟩ | ⟨_, ctx', -, hctx', -⟩
    · exact absurd (none.symm.trans hctx) (by simp)
    · rw [held_of_ctx hctx'] at h
      refine .inl ?_
      rw [held_of_ctx hctx, ← h, (exec_usage_ctx run hctx hctx' built).1, phase_metered acts.may]
  | none =>
    have loading : ∀ row, proc.phase = .loading (some row) → proc.held = some row.usage := by
      intro row phase
      rw [Proc.held, hctx, phase]
    have loaded : ∀ row events, proc.phase = .loaded (some row) events →
        proc.held = some row.usage := by
      intro row events phase
      rw [Proc.held, hctx, phase]
    have remembered := (exec_ctx run).2.2
    rw [hctx] at remembered
    generalize hloc : loc.ctx = known at remembered
    cases remembered with
    | @build row events =>
      refine .inl ?_
      rw [held_of_ctx hloc, (init_usage row events).1] at h
      rw [loaded row events (newContext_loaded acts.may)]
      exact h
    | none =>
      -- without a context it goes by what it has just read, or has read before
      rcases held_unbuilt hloc h with ⟨row, phase, rfl⟩ | ⟨row, events, phase, rfl⟩
      · obtain ⟨reading, same, found⟩ := exec_reread acts.may run phase
        refine .inr ⟨reading, same, ?_, shaped.uncalled hctx⟩
        rw [Store.usage, ← found]
        rfl
      · exact .inl (loading row (next_loaded acts.may phase))

end MeteringLemmas

open MeteringLemmas

theorem held_cases {cfg : Config} {w w' : World} {a : Action} {q : Nat} {proc' : Proc} {u : Usage}
    (shaped : ∀ (p : Nat) (proc : Proc), w.procs[p]? = some proc → proc.Shaped cfg)
    (h : w.step cfg a = some w') (hq : w'.procs[q]? = some proc') (live : proc'.stopped = false)
    (held : proc'.held = some u) : HeldStep cfg w w' a q proc' u := by
  cases attempt_cases shaped h hq with
  | same hq other => exact .kept hq live rfl held other fun _ _ => rfl
  | fresh _ start _ _ none =>
    rcases held_unbuilt none held with ⟨_, phase, -⟩ | ⟨_, _, phase, -⟩
    · exact absurd (start.symm.trans phase) (by simp)
    · exact absurd (start.symm.trans phase) (by simp)
  | beat beat is hp => exact .kept hp live rfl held (by rw [is]; nofun) fun _ _ => rfl
  | stop _ hp => cases live
  | @main proc ans o k r loc is acts _ =>
    have own := (exec_ctx acts.run).1
    rcases held_main (shaped q proc acts.hp) acts held with old | ⟨reading, same, row, calls⟩
    · exact .kept acts.hp acts.alive own.symm old (by rw [is]; nofun) fun _ _ => rfl
    · exact .read is acts.hp acts.alive reading own.symm same (own.symm ▸ row) calls
  | @task proc c b ans rec t o k r loc is acts _ =>
    obtain ⟨ctx, ctx', hctx, hctx', -⟩ := ConsistencyLemmas.task_contexts
      (shaped q proc acts.hp) acts.at_ acts.may acts.run
    have counted := (exec_usage_ctx acts.run hctx hctx' (allowed_ne_newContext acts.may)).1
    have now : Proc.held { proc with loc } = some ctx'.usage := held_of_ctx hctx'
    rw [← Option.some.inj (now.symm.trans held), counted]
    exact .metered is acts (exec_ctx acts.run).1.symm hctx
  | @refused proc caller path role c exc ctx is hp alive _ _ _ =>
    exact .kept hp alive rfl held (by rw [is]; nofun) fun f _ => number_concat f
  | @call proc caller path role c names ctx is hp alive _ hctx _ =>
    refine .kept hp alive rfl ?_ (by rw [is]; nofun) fun f entry => ?_
    rotate_left
    · exact (number_concat f).trans (by rw [number_newTasks entry]; rfl)
    have same : (ctx.nextKeys names).2.usage = ctx.usage := by
      rw [RunContext.nextKeys_same]
    rw [held_of_ctx hctx, ← same]
    exact held

/-! ## Saved usage -/

/-- The usage on the row of a run after an action: what it was, the usage a run starts with,
or what the attempt under way has counted. -/
theorem saved_cases {cfg : Config} {w w' : World} {a : Action} {j : Uuid} {u : Usage}
    (shaped : ∀ (p : Nat) (proc : Proc), w.procs[p]? = some proc → proc.Shaped cfg)
    (h : w.step cfg a = some w') (saved : w'.store.usage j = some u) :
    w.store.usage j = some u ∨ (w.store.usage j = none ∧ u = .zero) ∨
    ∃ (p : Nat) (proc : Proc), w.procs[p]? = some proc ∧ proc.started = true ∧
      proc.stopped = false ∧ proc.loc.runId = j ∧ proc.held = some u := by
  rcases step_usage h j with same | ⟨none, zero⟩ | ⟨p, proc, ctx, -, hp, live, run, hctx, set⟩
  · exact .inl (same.symm.trans saved)
  · exact .inr (.inl ⟨none, Option.some.inj (saved.symm.trans zero)⟩)
  · have count : ctx.usage = u := by
      rw [set, Option.map_eq_some_iff] at saved
      obtain ⟨_, -, count⟩ := saved
      exact count
    have held : proc.held = some u := (held_of_ctx hctx).trans (congrArg some count)
    exact .inr (.inr ⟨p, proc, hp, held_began (shaped p proc hp) held, live, run, held⟩)

/-! ## Responses -/

/-- The provider reports non-negative usage. -/
def providerNonNegative : Action → Bool
  | .task _ _ _ (.response r) => r.nonNegative
  | _ => true

/-- The value a try has returned, until its usage is counted. -/
def Stage.answer : Stage → Option Value
  | .returned _ v | .recorded v | .saved v => some v
  | _ => none

/-- What a model step is about to record or to bill is a response of the provider's. -/
def World.Responses (w : World) : Prop :=
  ∀ (p : Nat) (proc : Proc), w.procs[p]? = some proc → ∀ c b rec t, proc.At c b rec t →
    rec.call.kind = .model → ∀ v, t.stage.answer = some v → ∃ r : ModelResponse,
      r.nonNegative = true ∧ v = r.toDict

namespace MeteringLemmas

variable {cfg : Config} {w w' : World} {a : Action}

/-- Where the value of a step comes from: it had it, or its body has just returned it. -/
theorem answer_next {s : StepSetup} {stage : Stage} {o : Op} {r : Ans o} {v : Value}
    (may : s.allowed stage o) (answer : (s.next stage o r).answer = some v) :
    stage.answer = some v ∨ ∃ n, o = .leave (s.body n) ∧ HEq r (Except.ok (ε := Exn) v) := by
  have moves := StepSetup.moves may r
  generalize s.next stage o r = stage' at moves answer
  cases moves with
  | returned v' is =>
    cases answer
    exact .inr ⟨_, by rw [is], HEq.rfl⟩
  | complete | record | countExecuted | saveUsage => exact .inl answer
  | _ => cases answer

/-- What the provider returns. -/
theorem leave_complete {now : Int} {st st' : Store} {loc loc' : Local} {ans : Answer}
    {key : String} {token : Uuid} {n : Nat} {v : Value}
    (run : exec cfg now st loc ans (.leave (.complete key token n)) = some (.ok v, st', loc')) :
    ∃ r, ans = .response r ∧ v = r.toDict := by
  cases ans with
  | response r =>
    cases run
    exact ⟨r, rfl, rfl⟩
  | _ => cases run

theorem responses_step
    (shaped : ∀ (p : Nat) (proc : Proc), w.procs[p]? = some proc → proc.Shaped cfg)
    (h : w.step cfg a = some w') (ok : providerNonNegative a = true) (inv : w.Responses) :
    w'.Responses := by
  intro q proc' hq c b rec' t' at' model v answer
  cases task_cases shaped h hq at' with
  | same hp at_ same _ _ _ =>
    exact inv q _ hp c b _ _ at_ (same.call ▸ model) v answer
  | @moved proc rec t ans o k r is hp _ at_ same _ run may =>
    rw [same.call] at model
    rcases answer_next may answer with old | ⟨n, rfl, returned⟩
    · exact inv q _ hp c b _ _ at_ model v old
    · have body : (rec.call.setup cfg proc.loc.runId proc.loc.guarded t.key).body n =
          .complete t.key (stepToken cfg proc.loc.runId t.key) n := by
        unfold StepSetup.body Call.setup
        rw [model]
      cases returned
      rw [body] at run
      obtain ⟨response, rfl, rfl⟩ := leave_complete run
      rw [is] at ok
      exact ⟨response, ok, rfl⟩
  | called => cases answer

end MeteringLemmas

theorem responses_reaches {cfg : Config} {now : Int} {ok : World → Action → Prop} {w : World}
    (h : Reaches (World.step cfg) ok (.init now) w)
    (reported : ∀ w a, ok w a → providerNonNegative a = true) : w.Responses :=
  h.invariant (fun _ _ hp => absurd hp (by simp [World.init]))
    fun _ _ _ reached inv ok step =>
      responses_step (fun _ _ => shaped_reaches reached) step (reported _ _ ok) inv

/-! ## Keys of model and of tool steps -/

/-- Some attempt of the run has called the context for the key in this way. -/
def World.calledAs (w : World) (j : Uuid) (kind : StepKind) (key : String) : Bool :=
  w.procs.any fun proc => proc.loc.runId = j &&
    proc.calls.any fun rec => rec.call.kind = kind && rec.tasks.any fun t => t.key = key

theorem calledAs_iff {w : World} {j : Uuid} {kind : StepKind} {key : String} :
    w.calledAs j kind key = true ↔ ∃ (p : Nat) (proc : Proc), w.procs[p]? = some proc ∧
      proc.loc.runId = j ∧ ∃ c b rec t, proc.At c b rec t ∧ rec.call.kind = kind ∧ t.key = key := by
  have at_iff : ∀ proc : Proc, (decide (proc.loc.runId = j) && proc.calls.any fun rec =>
      rec.call.kind = kind && rec.tasks.any fun t => t.key = key) = true ↔ proc.loc.runId = j ∧
        ∃ c b rec t, proc.At c b rec t ∧ rec.call.kind = kind ∧ t.key = key := fun proc => by
    simp only [Bool.and_eq_true, ProcLemmas.any_task_of, decide_eq_true_eq]
  rw [World.calledAs, List.any_eq_true]
  constructor
  · rintro ⟨proc, hproc, called⟩
    obtain ⟨p, hp⟩ := List.getElem?_of_mem hproc
    exact ⟨p, proc, hp, (at_iff proc).mp called⟩
  · rintro ⟨p, proc, hp, called⟩
    exact ⟨proc, List.mem_of_getElem? hp, (at_iff proc).mpr called⟩

/-- A key keeps its kinds. -/
theorem calledAs_step {cfg : Config} {w w' : World} {a : Action} (h : w.step cfg a = some w')
    {j : Uuid} {kind : StepKind} {key : String} (called : w.calledAs j kind key = true) :
    w'.calledAs j kind key = true := by
  obtain ⟨p, proc, hp, run, c, b, rec, t, at_, is, hkey⟩ := calledAs_iff.mp called
  obtain ⟨proc', rec', t', hp', run', at', same, key', -⟩ := task_persists h hp at_
  exact calledAs_iff.mpr ⟨p, proc', hp', run'.trans run, c, b, rec', t', at',
    same.call ▸ is, key'.trans hkey⟩

end AnchorRuntime
