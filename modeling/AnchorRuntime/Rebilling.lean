import AnchorRuntime.Metering
import AnchorRuntime.Completion

/-!
# Replay and the bill

The usage on a row is saved as an absolute value, by every attempt in turn. It never goes
back, and it never holds a response twice: what an attempt goes by is at most what the
completions in the log are worth, those left out that it has still to count.

Results: `ahead_reaches`, the attempt under way is never behind its row; `bounded_reaches`,
nor ahead of the log; `replay_never_rebills`.
-/

namespace AnchorRuntime

open Effect Machine Tally ShapeLemmas ProcLemmas TaskLemmas SequentialLemmas MeteringLemmas
  CompletionLemmas

/-! ## The condition -/

/-- Attempts follow one another and the provider reports non-negative usage. -/
def billable (w : World) (a : Action) : Prop := oneAfterAnother w a ∧ providerNonNegative a = true

instance (w : World) (a : Action) : Decidable (billable w a) :=
  inferInstanceAs (Decidable (_ ∧ _))

/-! ## What counts -/

/-- A completed model step has its response recorded and its usage not yet added. -/
def Stage.unbilled : Stage → Bool
  | .recorded _ | .saved _ => true
  | _ => false

/-- The attempt has still to count what it has recorded under the key. -/
def Proc.unbilled (proc : Proc) (key : String) : Bool :=
  proc.calls.any fun rec => rec.call.kind = .model &&
    rec.tasks.any fun t => t.key = key && t.stage.unbilled

/-- The completions of model steps of the run. A value that reports negative usage is none of
the provider's. -/
def World.modelSteps (w : World) (j : Uuid) (key : String) (result : Value) : Bool :=
  w.calledAs j .model key && result.nonNegative

/-- The completions the attempt has counted, or an attempt before it. -/
def World.billed (w : World) (proc : Proc) (key : String) (result : Value) : Bool :=
  w.modelSteps proc.loc.runId key result && !proc.unbilled key

/-- The usage is at most what the completions that count are worth. -/
structure Usage.Within (u : Usage) (counts : String → Value → Bool) (log : List Event) : Prop where
  modelCalls : u.modelCalls ≤ worth Meter.modelCalls.due counts log
  inputTokens : u.inputTokens ≤ worth Meter.inputTokens.due counts log
  outputTokens : u.outputTokens ≤ worth Meter.outputTokens.due counts log
  costUsd : u.costUsd ≤ worth Meter.costUsd.due counts log

/-- Attempts under way are not behind the usage on their row. -/
def World.Ahead (w : World) : Prop :=
  ∀ (p : Nat) (proc : Proc), w.procs[p]? = some proc → proc.stopped = false → ∀ u,
    proc.held = some u → ∀ saved, w.store.usage proc.loc.runId = some saved → saved.Le u

/-- Rows and attempts under way are not ahead of the log. -/
structure World.Bounded (m : Meter) (w : World) : Prop where
  row : ∀ j u, w.store.usage j = some u →
    m.read u ≤ worth m.due (w.modelSteps j) (w.store.loadEvents j)
  held : ∀ (p : Nat) (proc : Proc), w.procs[p]? = some proc → proc.stopped = false → ∀ u,
    proc.held = some u → m.read u ≤ worth m.due (w.billed proc) (w.store.loadEvents proc.loc.runId)

namespace RebillingLemmas

variable {cfg : Config} {w w' : World} {a : Action} {p q c b : Nat} {proc proc' : Proc}
  {rec : CallRecord} {t : Task}

theorem unbilled_iff {key : String} : proc.unbilled key = true ↔ ∃ c b rec t,
    proc.At c b rec t ∧ rec.call.kind = .model ∧ t.key = key ∧ t.stage.unbilled = true := by
  simp only [Proc.unbilled, ProcLemmas.any_task_of, Bool.and_eq_true, decide_eq_true_eq]

theorem modelSteps_nonneg (m : Meter) (w : World) (j : Uuid) (key : String) (result : Value)
    (h : w.modelSteps j key result = true) : 0 ≤ m.due result :=
  m.due_nonneg (Bool.and_eq_true _ _ ▸ h).2

theorem billed_modelSteps {key : String} {result : Value} (h : w.billed proc key result = true) :
    w.modelSteps proc.loc.runId key result = true :=
  (Bool.and_eq_true _ _ ▸ h).1

theorem billed_nonneg (m : Meter) (w : World) (proc : Proc) (key : String) (result : Value)
    (h : w.billed proc key result = true) : 0 ≤ m.due result :=
  modelSteps_nonneg m w _ key result (billed_modelSteps h)

theorem modelSteps_step (h : w.step cfg a = some w') {j : Uuid} {key : String} {result : Value}
    (counted : w.modelSteps j key result = true) : w'.modelSteps j key result = true := by
  simp only [World.modelSteps, Bool.and_eq_true] at counted ⊢
  exact ⟨calledAs_step h counted.1, counted.2⟩

/-- An operation takes nothing off the usage. -/
theorem metered_le (responses : w.Responses) {ans : Answer} {o : Op} {r : Ans o} {loc : Local}
    (acts : TaskActs cfg w w' p c b ans proc rec t o r loc) (u : Usage) : u.Le (metered o u) := by
  have bill : ∀ {v : Value} {response : ModelResponse}, t.stage = .saved v →
      rec.call.kind = .model → ModelResponse.fromDict v = .ok response →
      response.nonNegative = true := by
    intro v response stage model read
    obtain ⟨r', nonneg, rfl⟩ := responses p proc acts.hp c b rec t acts.at_ model v
      (by rw [stage]; rfl)
    have due := nonNegative_toDict nonneg
    rw [Value.nonNegative, read] at due
    exact due
  have moves := StepSetup.moves acts.may r
  generalize (rec.call.setup cfg proc.loc.runId proc.loc.guarded t.key).next _ _ _ = stage'
    at moves
  generalize hstage : t.stage = stage at moves
  cases moves with
  | addToolCall =>
    exact ⟨le_rfl, le_rfl, by simp [metered, Usage.addTool], le_rfl, le_rfl⟩
  | addModelUsage model read =>
    have nonneg := ModelResponse.nonNegative_iff.mp (bill hstage model read)
    refine ⟨?_, ?_, le_rfl, ?_, ?_⟩
    all_goals simp only [metered, Usage.addModel]; linarith
  | raise may failed => cases o <;> first | exact Usage.Le.refl u | cases failed
  | _ => exact Usage.Le.refl u

/-! The attempt under way and its row. -/

theorem row_of_held (rows : w.Rows) (hp : w.procs[p]? = some proc) {u : Usage}
    (held : proc.held = some u) : (w.store.usage proc.loc.runId).isSome = true := by
  have standing : (w.store.standing proc.loc.runId).isSome = true := by
    refine rows p proc hp ?_
    cases hctx : proc.loc.ctx with
    | some ctx => exact .inr rfl
    | none =>
      rcases held_unbuilt hctx held with ⟨_, phase, -⟩ | ⟨_, _, phase, -⟩ <;> simp [phase]
  rw [Store.usage, Option.isSome_map]
  rwa [Store.standing, Option.isSome_map] at standing

theorem ahead_step
    (shaped : ∀ (p : Nat) (proc : Proc), w.procs[p]? = some proc → proc.Shaped cfg)
    (rows : w.Rows) (sole : w.Sole) (responses : w.Responses) (h : w.step cfg a = some w')
    (inv : w.Ahead) : w'.Ahead := by
  intro q proc' hq live u held saved hsaved
  -- an attempt that was under way was not behind its row, and only it can have saved
  have ahead : ∀ {proc : Proc} {v : Usage}, w.procs[q]? = some proc → proc.stopped = false →
      proc.loc.runId = proc'.loc.runId → proc.held = some v → saved.Le v := by
    intro proc v hp alive run was
    rw [← run] at hsaved
    rcases saved_cases shaped h hsaved with
      same | ⟨none, -⟩ | ⟨p, actor, hactor, began, alive', run', counts⟩
    · exact inv q proc hp alive v was saved same
    · have row := row_of_held rows hp was
      rw [none] at row
      cases row
    · obtain rfl : p = q := sole p q actor proc hactor hp run'.symm began alive'
        (held_began (shaped q proc hp) was) alive
      obtain rfl := Option.some.inj (hp.symm.trans hactor)
      obtain rfl := Option.some.inj (was.symm.trans counts)
      exact .refl v
  cases held_cases shaped h hq live held with
  | kept hp alive run was => exact ahead hp alive run was
  | metered _ acts run hctx =>
    exact (ahead acts.hp acts.alive run (held_of_ctx hctx)).trans (metered_le responses acts _)
  | read _ _ _ _ _ same row _ =>
    rw [same, row] at hsaved
    cases hsaved
    exact .refl u

end RebillingLemmas

open RebillingLemmas

theorem ahead_reaches {cfg : Config} {now : Int} {ok : World → Action → Prop} {w : World}
    (h : Reaches (World.step cfg) ok (.init now) w) (fair : ∀ w a, ok w a → billable w a) :
    w.Ahead :=
  h.invariant (fun _ _ hp => absurd hp (by simp [World.init]))
    fun _ _ _ reached inv _ step =>
      ahead_step (fun _ _ => shaped_reaches reached) (rows_reaches reached)
        (sole_reaches reached fun w a ok => (fair w a ok).1)
        (responses_reaches reached fun w a ok => (fair w a ok).2) step inv

/-! ## Rows and the log -/

namespace RebillingLemmas

variable {cfg : Config} {w w' : World} {a : Action} {m : Meter} {p q c b : Nat}
  {proc proc' : Proc} {rec : CallRecord} {t : Task}

/-- What an attempt has newly to count had no completion in the log. -/
theorem unbilled_step (inv : w.Consistent cfg)
    (shaped : ∀ (p : Nat) (proc : Proc), w.procs[p]? = some proc → proc.Shaped cfg)
    (h : w.step cfg a = some w') (hq : w'.procs[q]? = some proc') (hp : w.procs[q]? = some proc)
    {e : Event} {key : String} (mem : e ∈ w.store.loadEvents proc.loc.runId)
    (completes : e.completes key) (unbilled : proc'.unbilled key = true) :
    proc.unbilled key = true := by
  obtain ⟨c, b, rec', t', at', model, hkey, stage⟩ := unbilled_iff.mp unbilled
  cases task_cases shaped h hq at' with
  | same old at_ same =>
    obtain rfl := Option.some.inj (hp.symm.trans old)
    exact unbilled_iff.mpr ⟨c, b, _, _, at_, same.call ▸ model, hkey, stage⟩
  | @moved proc rec t ans o k r _ old alive at_ same _ run may =>
    obtain rfl := Option.some.inj (hp.symm.trans old)
    rw [same.call] at model
    suffices was : t.stage.unbilled = true by
      exact unbilled_iff.mpr ⟨c, b, rec, t, at_, model, hkey, was⟩
    obtain ⟨ctx, hctx⟩ := Option.isSome_iff_exists.mp (at_known (shaped q _ hp) at_)
    obtain ⟨life, hlife, agrees⟩ := (inv.procs q _ hp alive).tasks ctx hctx c b rec t at_
    have moves := StepSetup.moves may r
    generalize (rec.call.setup cfg _ _ t.key).next _ _ _ = stage' at moves stage
    generalize t.stage = before at moves agrees
    cases moves with
    | complete =>
      obtain rfl : life = .opened := agrees
      subst hkey
      exact absurd completes ((opened_started hlife).2 e mem)
    | record | countExecuted | saveUsage => rfl
    | _ => cases stage
  | called => cases stage

theorem billed_step (inv : w.Consistent cfg)
    (shaped : ∀ (p : Nat) (proc : Proc), w.procs[p]? = some proc → proc.Shaped cfg)
    (h : w.step cfg a = some w') (hq : w'.procs[q]? = some proc') (hp : w.procs[q]? = some proc)
    (run : proc.loc.runId = proc'.loc.runId) :
    ∀ e ∈ w.store.loadEvents proc.loc.runId, ∀ key, e.completes key → ∀ result,
      w.billed proc key result = true → w'.billed proc' key result = true := by
  intro e mem key completes result billed
  simp only [World.billed, Bool.and_eq_true, Bool.not_eq_true'] at billed ⊢
  refine ⟨run ▸ modelSteps_step h billed.1, ?_⟩
  cases unbilled : proc'.unbilled key with
  | false => rfl
  | true => exact (unbilled_step inv shaped h hq hp mem completes unbilled).symm.trans billed.2

/-- A model step that adds its usage adds what its completion in the log is worth. -/
theorem bill_step (inv : w.Consistent cfg) (responses : w.Responses)
    (shaped : ∀ (p : Nat) (proc : Proc), w.procs[p]? = some proc → proc.Shaped cfg)
    (shaped' : ∀ (p : Nat) (proc : Proc), w'.procs[p]? = some proc → proc.Shaped cfg)
    (h : w.step cfg a = some w') (hq : w'.procs[q]? = some proc') {ans : Answer}
    {o : Op} {r : Ans o} {loc : Local} {ctx : RunContext}
    (acts : TaskActs cfg w w' q c b ans proc rec t o r loc)
    (run : proc.loc.runId = proc'.loc.runId) (hctx : proc.loc.ctx = some ctx)
    (le : m.read ctx.usage ≤ worth m.due (w.billed proc) (w.store.loadEvents proc.loc.runId)) :
    m.read (metered o ctx.usage) ≤
      worth m.due (w'.billed proc') (w.store.loadEvents proc.loc.runId) := by
  have grows := billed_step inv shaped h hq acts.hp run
  have le' := le.trans (worth_le (billed_nonneg m w' proc') grows)
  obtain ⟨life, hlife, agrees⟩ := (inv.procs q proc acts.hp acts.alive).tasks ctx hctx c b rec t
    acts.at_
  obtain ⟨_, rec', t', hq', -, at', same, hkey, hstage⟩ := acts.moved
  obtain rfl := Option.some.inj (hq.symm.trans hq')
  have moves := StepSetup.moves acts.may r
  rw [hstage.symm] at moves
  generalize hold : t.stage = stage at moves agrees
  generalize hnew : t'.stage = stage' at moves
  cases moves with
  | addToolCall => exact (m.tool _).le.trans le'
  | @addModelUsage v response model read =>
    -- the response is in the log, and now counts
    obtain ⟨e, mem, ekey, by_, payload⟩ := done_recorded (agrees ▸ hlife)
    obtain ⟨r₀, nonneg, rfl⟩ :=
      responses q proc acts.hp c b rec t acts.at_ model v (by rw [hold]; rfl)
    have counts : w.modelSteps proc.loc.runId t.key r₀.toDict = true := by
      rw [World.modelSteps, nonNegative_toDict nonneg, Bool.and_true]
      exact calledAs_iff.mpr ⟨q, proc, acts.hp, rfl, c, b, rec, t, acts.at_, model, rfl⟩
    have before : w.billed proc t.key r₀.toDict = false := by
      rw [World.billed, unbilled_iff.mpr ⟨c, b, rec, t, acts.at_, model, rfl, by rw [hold]; rfl⟩]
      exact Bool.and_false _
    have after : w'.billed proc' t.key r₀.toDict = true := by
      rw [World.billed, ← run, modelSteps_step h counts, Bool.true_and, Bool.not_eq_true']
      cases unbilled : proc'.unbilled t.key with
      | false => rfl
      | true =>
        obtain ⟨c', b', rec'', t'', at'', -, key'', stage''⟩ := unbilled_iff.mp unbilled
        obtain ⟨rfl, rfl⟩ := at_key_inj (shaped' q _ hq).nodup at' at'' (hkey.trans key''.symm)
        obtain rfl := Option.some.inj (at'.1.symm.trans at''.1)
        obtain rfl := Option.some.inj (at'.2.symm.trans at''.2)
        rw [hnew] at stage''
        cases stage''
    calc m.read (metered (.addModelUsage response.inputTokens response.outputTokens
          response.costUsd) ctx.usage) = m.read ctx.usage + m.bill response := m.model _ _
      _ = m.read ctx.usage + m.due r₀.toDict := by rw [m.due_of_fromDict read]
      _ ≤ worth m.due (w.billed proc) (w.store.loadEvents proc.loc.runId) + m.due r₀.toDict := by
        gcongr
      _ ≤ _ := worth_add (billed_nonneg m w' proc') mem ekey payload before after grows
  | raise may failed => cases o <;> first | exact le' | cases failed
  | _ => exact le'

theorem bounded_step (numbered : w.store.Numbered) (inv : w.Consistent cfg)
    (responses : w.Responses)
    (shaped : ∀ (p : Nat) (proc : Proc), w.procs[p]? = some proc → proc.Shaped cfg)
    (shaped' : ∀ (p : Nat) (proc : Proc), w'.procs[p]? = some proc → proc.Shaped cfg)
    (h : w.step cfg a = some w') (bounded : w.Bounded m) : w'.Bounded m := by
  have grows : ∀ j, ∃ es, w'.store.loadEvents j = w.store.loadEvents j ++ es := fun j =>
    (log_step numbered shaped h j).imp fun _ step => step.1
  -- what is worth something by a row stays worth it
  have row : ∀ {j : Uuid} {x : Rat}, x ≤ worth m.due (w.modelSteps j) (w.store.loadEvents j) →
      x ≤ worth m.due (w'.modelSteps j) (w'.store.loadEvents j) := by
    intro j x le
    obtain ⟨es, log⟩ := grows j
    rw [log]
    exact le.trans (worth_mono (modelSteps_nonneg m w' j) fun _ _ _ _ _ => modelSteps_step h)
  refine ⟨fun j u saved => ?_, fun q proc' hq live u held => ?_⟩
  · rcases saved_cases shaped h saved with same | ⟨-, rfl⟩ | ⟨p, proc, hp, -, alive, rfl, held⟩
    · exact row (bounded.row j u same)
    · rw [m.zero]
      exact worth_nonneg (modelSteps_nonneg m w' j)
    · have le := bounded.held p proc hp alive u held
      exact row (le.trans (worth_le (modelSteps_nonneg m w _) fun _ _ _ _ _ => billed_modelSteps))
  · obtain ⟨es, log⟩ := grows proc'.loc.runId
    rw [log]
    -- what is counted in the old log is counted in the new one
    have later : worth m.due (w'.billed proc') (w.store.loadEvents proc'.loc.runId) ≤
        worth m.due (w'.billed proc') (w.store.loadEvents proc'.loc.runId ++ es) :=
      worth_mono (billed_nonneg m w' proc') fun _ _ _ _ _ => id
    cases held_cases shaped h hq live held with
    | @kept proc _ hp alive run was =>
      have le := bounded.held q proc hp alive u was
      have grown := worth_le (billed_nonneg m w' proc') (billed_step inv shaped h hq hp run)
      rw [run] at le grown
      exact (le.trans grown).trans later
    | @metered proc _ _ _ _ _ _ _ _ ctx _ acts run hctx =>
      have le := bounded.held q proc acts.hp acts.alive _ (held_of_ctx hctx)
      have billed := bill_step inv responses shaped shaped' h hq acts run hctx le
      rw [run] at billed
      exact billed.trans later
    | read _ hp _ _ run _ found calls =>
      refine (bounded.row _ u found).trans ?_
      refine worth_mono (billed_nonneg m w' proc') fun _ _ key _ result counted => ?_
      have none : proc'.unbilled key = false := by rw [Proc.unbilled, calls]; rfl
      rw [World.billed, modelSteps_step h counted, none]
      rfl

theorem bounded_init (m : Meter) (now : Int) : (World.init now).Bounded m where
  row := fun _ _ saved => by cases saved
  held := fun _ _ hp => absurd hp (by simp [World.init])

end RebillingLemmas

theorem bounded_reaches {cfg : Config} {now : Int} {ok : World → Action → Prop} {w : World}
    (m : Meter) (h : Reaches (World.step cfg) ok (.init now) w)
    (fair : ∀ w a, ok w a → billable w a) : w.Bounded m :=
  h.invariant (bounded_init m now)
    fun _ _ _ reached inv good step =>
      bounded_step (numbered_reaches reached)
        (consistent_reaches reached fun w a ok => (fair w a ok).1)
        (responses_reaches reached fun w a ok => (fair w a ok).2)
        (fun _ _ => shaped_reaches reached) (fun _ _ => shaped_reaches (.tail reached good step))
        step inv

theorem within_reaches {cfg : Config} {now : Int} {ok : World → Action → Prop} {w : World}
    (h : Reaches (World.step cfg) ok (.init now) w) (fair : ∀ w a, ok w a → billable w a)
    {j : Uuid} {u : Usage} (saved : w.store.usage j = some u) :
    u.Within (w.modelSteps j) (w.store.loadEvents j) where
  modelCalls := (bounded_reaches .modelCalls h fair).row j u saved
  inputTokens := (bounded_reaches .inputTokens h fair).row j u saved
  outputTokens := (bounded_reaches .outputTokens h fair).row j u saved
  costUsd := (bounded_reaches .costUsd h fair).row j u saved

/-! ## What is saved never goes back -/

namespace RebillingLemmas

theorem saved_step {cfg : Config} {w w' : World} {a : Action} {j : Uuid} {u : Usage}
    (ahead : w.Ahead) (h : w.step cfg a = some w') (saved : w.store.usage j = some u) :
    ∃ u', w'.store.usage j = some u' ∧ u.Le u' := by
  rcases step_usage h j with same | ⟨none, -⟩ | ⟨p, proc, ctx, -, hp, alive, rfl, hctx, set⟩
  · exact ⟨u, same.trans saved, .refl u⟩
  · exact absurd (none.symm.trans saved) (by simp)
  · exact ⟨ctx.usage, by rw [set, saved]; rfl, ahead p proc hp alive _ (held_of_ctx hctx) u saved⟩

end RebillingLemmas

theorem saved_reaches {cfg : Config} {now : Int} {ok : World → Action → Prop} {w w' : World}
    (h : Reaches (World.step cfg) ok (.init now) w) (rest : Reaches (World.step cfg) ok w w')
    (fair : ∀ w a, ok w a → billable w a) {j : Uuid} {u : Usage}
    (saved : w.store.usage j = some u) : ∃ u', w'.store.usage j = some u' ∧ u.Le u' := by
  induction rest with
  | refl => exact ⟨u, saved, .refl u⟩
  | tail rest ok step ih =>
    obtain ⟨v, hv, le⟩ := ih
    have reached := h.trans rest
    obtain ⟨u', hu', le'⟩ := saved_step (ahead_reaches reached fair) step hv
    exact ⟨u', hu', le.trans le'⟩

/-- Replay never re-bills: whatever the attempts of a run are cut by, as long as they follow
one another and the provider reports non-negative usage, the usage saved on the row never
goes back in any component, and its model calls, tokens and cost are at most what the
completions of model steps in the log are worth, each key having one at most. -/
theorem replay_never_rebills {cfg : Config} {now : Int} {w w' : World}
    (h : Reaches (World.step cfg) billable (.init now) w)
    (rest : Reaches (World.step cfg) billable w w') (j : Uuid) :
    (∀ u u', w.store.usage j = some u → w'.store.usage j = some u' → u.Le u') ∧
    (∀ u, w'.store.usage j = some u → u.Within (w'.modelSteps j) (w'.store.loadEvents j)) ∧
    ∀ a e b key, w'.store.loadEvents j = a ++ e :: b → e.completes key →
      ∀ f ∈ a ++ b, ¬ f.completes key := by
  have reached := h.trans rest
  refine ⟨fun u u' saved saved' => ?_, fun u saved => within_reaches reached (fun _ _ => id) saved,
    fun a e b key split completes => ?_⟩
  · obtain ⟨v, hv, le⟩ := saved_reaches h rest (fun _ _ => id) saved
    exact Option.some.inj (hv.symm.trans saved') ▸ le
  · obtain ⟨life, accepted⟩ := (consistent_reaches reached fun _ _ => And.left).lives j key
    exact completed_once accepted split completes

/-- What the provider answers. -/
def Sample.response : ModelResponse := ⟨"hi", [], "end", 10, 20, 1 / 4, "m"⟩

/-- A model call whose usage is saved before its attempt crashes. -/
def Sample.modelled : List Action :=
  opening ++ [.call 0 none .workflow (.model "ask")] ++ advance 0 0 7 ++
    [.task 0 0 0 (.response response)] ++ advance 0 0 6 ++ [.stop 0]

/-- The next attempt replays the call and makes another. -/
def Sample.remodelled : List Action :=
  [.tick 31000000, .claim "b" []] ++ proceed 1 8 ++ [.call 1 none .workflow (.model "ask")] ++
    advance 1 0 2 ++ [.call 1 none .workflow (.model "ask")] ++ advance 1 1 7 ++
    [.task 1 1 0 (.response response)] ++ advance 1 1 7

theorem replay_never_rebills_replayed : ∃ w w',
    run (World.step Sample.cfg) billable (.init 0) Sample.modelled = some w ∧
    run (World.step Sample.cfg) billable w Sample.remodelled = some w' ∧
    ((w.store.usage Sample.runId).map (fun u => (u.modelCalls, u.costUsd)) = some (1, 1 / 4) ∧
      (w'.store.usage Sample.runId).map (fun u => (u.modelCalls, u.costUsd)) = some (2, 1 / 2)) ∧
    (∀ u u', w.store.usage Sample.runId = some u → w'.store.usage Sample.runId = some u' →
      u.Le u') ∧
    (∀ u, w'.store.usage Sample.runId = some u →
      u.Within (w'.modelSteps Sample.runId) (w'.store.loadEvents Sample.runId)) ∧
    ∀ a e b key, w'.store.loadEvents Sample.runId = a ++ e :: b → e.completes key →
      ∀ f ∈ a ++ b, ¬ f.completes key := by
  obtain ⟨w, h, later⟩ := run_exists (World.step Sample.cfg) billable (.init 0) Sample.modelled
    (fun w => ((run (World.step Sample.cfg) billable w Sample.remodelled).any fun w' =>
      (w.store.usage Sample.runId).map (fun u => (u.modelCalls, u.costUsd)) = some (1, 1 / 4) ∧
      (w'.store.usage Sample.runId).map (fun u => (u.modelCalls, u.costUsd)) =
        some (2, 1 / 2)) = true) (by decide +kernel)
  obtain ⟨w', rest, facts⟩ := run_exists (World.step Sample.cfg) billable w Sample.remodelled
    (fun w' => (w.store.usage Sample.runId).map (fun u => (u.modelCalls, u.costUsd)) =
        some (1, 1 / 4) ∧
      (w'.store.usage Sample.runId).map (fun u => (u.modelCalls, u.costUsd)) = some (2, 1 / 2))
    later
  exact ⟨w, w', h, rest, facts,
    replay_never_rebills (run_reaches h) (run_reaches rest) Sample.runId⟩

end AnchorRuntime
