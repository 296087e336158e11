import AnchorRuntime.Rebilling
import AnchorRuntime.Memory
import AnchorRuntime.Cancellation

/-!
# Breached budgets

A workflow that awaits its steps one after another checks its budget before each new step,
with a usage that is never behind the saved one. Once a ceiling is breached no step starts.

Results: `termed_reaches`, an attempt goes by the budget and the creation time on its row;
`cleared_reaches`, a step that has passed its check has nothing breached behind it;
`breached_stays_breached`.
-/

namespace AnchorRuntime

open Effect Machine ShapeLemmas ProcLemmas TaskLemmas SequentialLemmas MeteringLemmas
  CompletionLemmas RebillingLemmas CancellationLemmas OutlivingLemmas

/-! ## Budgets -/

/-- A ceiling on the usage is breached. -/
def Budget.spent (b : Budget) (u : Usage) : Bool :=
  b.maxTokens.any (· < u.totalTokens) || b.maxToolCalls.any (· ≤ u.toolCalls) ||
    b.maxModelCalls.any (· ≤ u.modelCalls) || b.maxCostUsd.any (· < u.costUsd)

/-- The ceiling on the age of the run is breached. -/
def Budget.expired (b : Budget) (elapsedSeconds : Rat) : Bool :=
  b.maxWallSeconds.any (· < elapsedSeconds)

def Budget.nonNegative (b : Budget) : Bool :=
  b.maxTokens.all (0 ≤ ·) && b.maxToolCalls.all (0 ≤ ·) && b.maxModelCalls.all (0 ≤ ·) &&
    b.maxWallSeconds.all (0 ≤ ·) && b.maxCostUsd.all (0 ≤ ·)

/-- The age of the run, in seconds. -/
def RunRecord.age (run : RunRecord) (now : Int) : Rat := (now - run.createdAt : Int) / 1000000

theorem check_ok {b : Budget} {u : Usage} {elapsed : Rat} (h : b.check u elapsed = .ok ()) :
    b.spent u = false ∧ b.expired elapsed = false := by
  obtain ⟨tokens, tools, models, wall, cost⟩ := b
  unfold Budget.check at h
  have unbreached : ∀ {α : Type} {o : Option α} {p : α → Prop} [DecidablePred p],
      (∀ l, o = some l → ¬ p l) → o.any (fun l => p l) = false := by
    intro α o p _ all
    cases o with
    | none => rfl
    | some l => simpa using all l rfl
  simp only [Budget.spent, Budget.expired, Bool.or_eq_false_iff]
  refine ⟨⟨⟨⟨unbreached ?_, unbreached ?_⟩, unbreached ?_⟩, unbreached ?_⟩, unbreached ?_⟩
  -- a ceiling that is breached raises, unless one before it has
  all_goals
    rintro l rfl breached
    simp only [breached, gt_iff_lt, ge_iff_le, if_true] at h
    repeat' split at h
    all_goals cases h

theorem spent_mono {b : Budget} {u v : Usage} (le : u.Le v) (h : b.spent u = true) :
    b.spent v = true := by
  simp only [Budget.spent, Bool.or_eq_true, Option.any_eq_true, decide_eq_true_eq] at h ⊢
  have tokens : u.totalTokens ≤ v.totalTokens := add_le_add le.inputTokens le.outputTokens
  rcases h with ((⟨l, is, h⟩ | ⟨l, is, h⟩) | ⟨l, is, h⟩) | ⟨l, is, h⟩
  · exact .inl (.inl (.inl ⟨l, is, h.trans_le tokens⟩))
  · exact .inl (.inl (.inr ⟨l, is, h.trans le.toolCalls⟩))
  · exact .inl (.inr ⟨l, is, h.trans le.modelCalls⟩)
  · exact .inr ⟨l, is, h.trans_le le.costUsd⟩

theorem expired_mono {b : Budget} {x y : Rat} (le : x ≤ y) (h : b.expired x = true) :
    b.expired y = true := by
  simp only [Budget.expired, Option.any_eq_true, decide_eq_true_eq] at h ⊢
  obtain ⟨l, is, h⟩ := h
  exact ⟨l, is, h.trans_le le⟩

/-! ## The terms of a run -/

/-- Every attempt goes by what the row of its run has in a column. -/
structure World.GoesBy {β : Type} (g : RunRecord → β) (w : World) : Prop where
  read : ∀ (p : Nat) (proc : Proc), w.procs[p]? = some proc → ∀ run,
    (proc.phase = .loading (some run) ∨ ∃ events, proc.phase = .loaded (some run) events) →
    (w.store.getRun proc.loc.runId).map g = some (g run)
  ctx : ∀ (p : Nat) (proc : Proc), w.procs[p]? = some proc → ∀ ctx, proc.loc.ctx = some ctx →
    (w.store.getRun proc.loc.runId).map g = some (g ctx.run)

/-- What a run keeps from its submission that its budget is checked by. -/
def RunRecord.terms (run : RunRecord) : Budget × Int := (run.budget, run.createdAt)

/-- An attempt goes by the terms on its row. -/
structure World.Termed (w : World) : Prop where
  read : ∀ (p : Nat) (proc : Proc), w.procs[p]? = some proc → ∀ run,
    (proc.phase = .loading (some run) ∨ ∃ events, proc.phase = .loaded (some run) events) →
    (w.store.getRun proc.loc.runId).map RunRecord.terms = some run.terms
  ctx : ∀ (p : Nat) (proc : Proc), w.procs[p]? = some proc → ∀ ctx, proc.loc.ctx = some ctx →
    (w.store.getRun proc.loc.runId).map RunRecord.terms = some ctx.run.terms

namespace BreachLemmas

variable {cfg : Config} {w w' : World} {a : Action} {p q c b : Nat} {proc proc' : Proc}
  {rec : CallRecord} {t : Task} {j : Uuid} {β : Type} {g : RunRecord → β}

/-- What a row has in a column that nobody writes stays. -/
theorem column_step (column : Column g)
    (flags : ∀ r upd, g { r with cancelRequested := true, updatedAt := upd } = g r)
    (h : w.step cfg a = some w') {x : β} (was : (w.store.getRun j).map g = some x) :
    (w'.store.getRun j).map g = some x := by
  rcases step_field column flags h j with same | ⟨none, -⟩
  · exact same.trans was
  · rw [none] at was
    cases was

/-- The terms of a run stay as they are. -/
theorem terms_step (h : w.step cfg a = some w') {terms : Budget × Int}
    (was : (w.store.getRun j).map RunRecord.terms = some terms) :
    (w'.store.getRun j).map RunRecord.terms = some terms :=
  column_step (fun _ _ _ _ _ _ _ _ _ => rfl) (fun _ _ => rfl) h was

/-- Where the row comes from that an attempt has read: it had it, or has just read it. -/
theorem read_cases
    (shaped : ∀ (p : Nat) (proc : Proc), w.procs[p]? = some proc → proc.Shaped cfg)
    (h : w.step cfg a = some w') (hq : w'.procs[q]? = some proc') {run : RunRecord}
    (has : proc'.phase = .loading (some run) ∨ ∃ events, proc'.phase = .loaded (some run) events) :
    (∃ proc, w.procs[q]? = some proc ∧ proc.loc.runId = proc'.loc.runId ∧
      (proc.phase = .loading (some run) ∨ ∃ events, proc.phase = .loaded (some run) events)) ∨
    (w.store.getRun proc'.loc.runId = some run ∧ w'.store = w.store) := by
  cases attempt_cases shaped h hq with
  | same hp | beat _ _ hp | stop _ hp | refused _ hp | call _ hp =>
    exact .inl ⟨_, hp, rfl, has⟩
  | fresh _ start =>
    rcases has with phase | ⟨_, phase⟩
    · exact absurd (start.symm.trans phase) (by simp)
    · exact absurd (start.symm.trans phase) (by simp)
  | task _ acts => exact .inl ⟨_, acts.hp, (exec_ctx acts.run).1.symm, has⟩
  | main _ acts =>
    have own := (exec_ctx acts.run).1
    rcases has with phase | ⟨events, phase⟩
    · obtain ⟨-, same, found⟩ := exec_reread acts.may acts.run phase
      exact .inr ⟨(congrArg w.store.getRun own).trans found.symm, same⟩
    · exact .inl ⟨_, acts.hp, own.symm, .inl (next_loaded acts.may phase)⟩

theorem goesBy_step (column : Column g)
    (flags : ∀ r upd, g { r with cancelRequested := true, updatedAt := upd } = g r)
    (shaped : ∀ (p : Nat) (proc : Proc), w.procs[p]? = some proc → proc.Shaped cfg)
    (h : w.step cfg a = some w') (inv : w.GoesBy g) : w'.GoesBy g := by
  refine ⟨fun q proc' hq run has => ?_, fun q proc' hq ctx hctx => ?_⟩
  · rcases read_cases shaped h hq has with ⟨proc, hp, own, had⟩ | ⟨found, same⟩
    · exact column_step column flags h (own ▸ inv.read q proc hp run had)
    · rw [same, found]
      rfl
  · cases context_cases shaped h hq hctx with
    | kept hp hold run same =>
      rw [same, run]
      exact column_step column flags h (inv.ctx q _ hp _ hold)
    | built hp phase run =>
      rw [(init_usage _ _).2, run]
      exact column_step column flags h (inv.read q _ hp _ (.inr ⟨_, phase⟩))

end BreachLemmas

open BreachLemmas

theorem goesBy_reaches {cfg : Config} {now : Int} {ok : World → Action → Prop} {w : World}
    {β : Type} {g : RunRecord → β} (column : Column g)
    (flags : ∀ r upd, g { r with cancelRequested := true, updatedAt := upd } = g r)
    (h : Reaches (World.step cfg) ok (.init now) w) : w.GoesBy g :=
  h.invariant
    { read := fun _ _ hp => absurd hp (by simp [World.init])
      ctx := fun _ _ hp => absurd hp (by simp [World.init]) }
    fun _ _ _ reached inv _ step =>
      goesBy_step column flags (fun _ _ => shaped_reaches reached) step inv

theorem termed_reaches {cfg : Config} {now : Int} {ok : World → Action → Prop} {w : World}
    (h : Reaches (World.step cfg) ok (.init now) w) : w.Termed := by
  have by_ : w.GoesBy RunRecord.terms :=
    goesBy_reaches (fun _ _ _ _ _ _ _ _ _ => rfl) (fun _ _ => rfl) h
  exact ⟨by_.read, by_.ctx⟩

/-! ## The condition -/

/-- Only the workflow calls the context, for one key at a time, and only when every earlier
step has ended. -/
def oneStepAtATime (cfg : Config) (w : World) : Action → Prop
  | .call p caller _ c => caller = none ∧
      (∀ proc ∈ w.procs[p]?, ∀ rec ∈ proc.calls, ∀ t ∈ rec.tasks, t.ended = true) ∧
      ∀ names ∈ (c.names cfg).toOption, names.length ≤ 1
  | _ => True

instance (cfg : Config) (w : World) (a : Action) : Decidable (oneStepAtATime cfg w a) :=
  match a with
  | .call p caller _ c => inferInstanceAs (Decidable (caller = none ∧
      (∀ proc ∈ w.procs[p]?, ∀ rec ∈ proc.calls, ∀ t ∈ rec.tasks, t.ended = true) ∧
      ∀ names ∈ (c.names cfg).toOption, names.length ≤ 1))
  | .submit _ _ _ _ _ | .cancel _ | .tick _ | .claim _ _ | .execute _ | .beat _ _ | .main _ _
  | .task _ _ _ _ | .stop _ => .isTrue trivial

/-- Attempts follow one another, and so do the steps of each; the provider reports
non-negative usage. -/
def stepwise (cfg : Config) (w : World) (a : Action) : Prop :=
  billable w a ∧ oneStepAtATime cfg w a

instance (cfg : Config) (w : World) (a : Action) : Decidable (stepwise cfg w a) :=
  inferInstanceAs (Decidable (_ ∧ _))

/-- Of the steps of an attempt one at most has not ended. -/
def World.OneActive (w : World) : Prop := w.OneBusy fun t => !t.ended

namespace BreachLemmas

variable {cfg : Config} {w w' : World} {a : Action} {p q c b : Nat} {proc proc' : Proc}
  {rec : CallRecord} {t : Task} {j : Uuid}

theorem oneActive_step
    (shaped : ∀ (p : Nat) (proc : Proc), w.procs[p]? = some proc → proc.Shaped cfg)
    (h : w.step cfg a = some w') (ok : oneStepAtATime cfg w a) (inv : w.OneActive) :
    w'.OneActive := by
  refine oneBusy_step shaped h (fun acts _ _ => by rw [acts_active acts]; rfl) ?_ inv
  rintro p caller role c rfl
  refine ⟨fun proc hp c b rec t at_ => ?_, fun names hnames => ok.2.2 names (by rw [hnames]; rfl)⟩
  rw [ok.2.1 proc hp rec (List.mem_of_getElem? at_.1) t (List.mem_of_getElem? at_.2)]
  rfl

end BreachLemmas

theorem oneActive_reaches {cfg : Config} {now : Int} {ok : World → Action → Prop} {w : World}
    (h : Reaches (World.step cfg) ok (.init now) w)
    (inOrder : ∀ w a, ok w a → oneStepAtATime cfg w a) : w.OneActive :=
  h.invariant (fun _ _ hp => absurd hp (by simp [World.init]))
    fun _ _ _ reached inv ok step =>
      oneActive_step (fun _ _ => shaped_reaches reached) step (inOrder _ _ ok) inv

/-! ## Past the check -/

/-- What has been checked still holds: a step is about to start, or a model step has not
counted its usage yet. -/
def Stage.cleared (kind : StepKind) : Stage → Bool
  | .admitted | .starting => true
  | .recovering | .verifying | .unknown | .ready _ _ | .running _ | .returned _ _ | .raised _ _
  | .waiting _ | .recorded _ | .saved _ => kind = .model
  | _ => false

/-- Behind a step that has passed its check nothing is breached. -/
def World.Cleared (w : World) : Prop :=
  ∀ (p : Nat) (proc : Proc), w.procs[p]? = some proc → proc.stopped = false → ∀ ctx,
    proc.loc.ctx = some ctx → ∀ c b rec t, proc.At c b rec t → t.ended = false →
    t.stage.cleared rec.call.kind = true → ctx.run.budget.spent ctx.usage = false

namespace BreachLemmas

variable {cfg : Config} {w w' : World} {a : Action} {p q c b : Nat} {proc proc' : Proc}
  {rec : CallRecord} {t : Task} {j : Uuid}

/-- A budget check that has passed. -/
theorem exec_check {now : Int} {st st' : Store} {loc loc' : Local} {ans : Answer}
    {ctx : RunContext} {r : Except Exn Unit} (hctx : loc.ctx = some ctx)
    (run : exec cfg now st loc ans .checkBudget = some (r, st', loc')) :
    r = ctx.run.budget.check ctx.usage (ctx.elapsedSeconds now) ∧ loc' = loc := by
  obtain ⟨ctx₀, known, is, -, rfl⟩ := ExecLemmas.memory_cases run
  obtain rfl := Option.some.inj (hctx.symm.trans known)
  refine ⟨is, ?_⟩
  cases loc
  cases hctx
  rfl

/-- Past its check a step was cleared before, and has counted nothing; or it has just been
checked. -/
theorem cleared_next {s : StepSetup} {stage : Stage} {o : Op} {r : Ans o} (may : s.allowed stage o)
    (cleared : (s.next stage o r).cleared s.kind = true) (u : Usage) :
    (stage.cleared s.kind = true ∧ metered o u = u) ∨
      (stage = .uncancelled ∧ o = .checkBudget ∧ HEq r (Except.ok (ε := Exn) ())) := by
  have moves := StepSetup.moves may r
  generalize s.next stage o r = stage' at moves cleared
  cases moves with
  | admitted => exact .inr ⟨rfl, rfl, HEq.rfl⟩
  | fresh | unverifiable | undecided => exact .inl ⟨by first | rfl | exact cleared, rfl⟩
  | addToolCall _ tool =>
    rw [tool] at cleared
    cases cleared
  | _ => first | exact .inl ⟨cleared, rfl⟩ | exact .inl ⟨rfl, rfl⟩ | cases cleared

theorem cleared_step (active : w.OneActive)
    (shaped : ∀ (p : Nat) (proc : Proc), w.procs[p]? = some proc → proc.Shaped cfg)
    (h : w.step cfg a = some w') (inv : w.Cleared) : w'.Cleared := by
  intro q proc' hq live ctx' hctx' c b rec' t' at' unended cleared
  cases task_cases shaped h hq at' with
  | @same proc rec t hp at_ same _ alive other =>
    have alive := alive live
    obtain ⟨ctx, hctx⟩ := Option.isSome_iff_exists.mp (at_known (shaped q proc hp) at_)
    have clear := inv q proc hp alive ctx hctx c b rec _ at_ unended (same.call ▸ cleared)
    -- no other step of the attempt is active, so its context is as it was
    have idle : ∀ c b ans, a ≠ .task q c b ans := by
      rintro c' b' ans rfl
      obtain ⟨_, rec₀, t₀, o, r, loc, acts⟩ := task_acts shaped h
      obtain rfl := Option.some.inj (hp.symm.trans acts.hp)
      obtain ⟨rfl, rfl⟩ := active q proc hp _ _ _ _ _ _ _ _ at_ acts.at_ (by simp [unended])
        (by simp [acts_active acts])
      exact other ans rfl
    have usage : ctx'.usage = ctx.usage := by
      have step := held_cases shaped h hq live (held_of_ctx hctx')
      generalize ctx'.usage = u' at step
      cases step with
      | kept hp' _ _ was =>
        obtain rfl := Option.some.inj (hp.symm.trans hp')
        exact Option.some.inj (was.symm.trans (held_of_ctx hctx))
      | metered is => exact absurd is (idle _ _ _)
      | read _ _ _ _ _ _ _ none => exact absurd at'.1 (by simp [none])
    have run : ctx'.run = ctx.run := by
      cases context_cases shaped h hq hctx' with
      | kept hp' hold _ run =>
        obtain rfl := Option.some.inj (hp.symm.trans hp')
        rw [run, Option.some.inj (hctx.symm.trans hold)]
      | built hp' phase =>
        obtain rfl := Option.some.inj (hp.symm.trans hp')
        have none := (shaped q proc hp).early (by rw [phase]; trivial)
        rw [none] at hctx
        cases hctx
    rw [usage, run]
    exact clear
  | @moved proc rec t ans o k r is hp alive at_ same hprog run may =>
    obtain ⟨ctx, hctx⟩ := Option.isSome_iff_exists.mp (at_known (shaped q proc hp) at_)
    have active : t.ended = false := by rw [Task.ended, hprog]; rfl
    obtain ⟨usage, sameRun⟩ := exec_usage_ctx run hctx hctx' (allowed_ne_newContext may)
    have kind : (rec.call.setup cfg proc.loc.runId proc.loc.guarded t.key).kind = rec.call.kind :=
      rfl
    rw [usage, sameRun]
    rcases cleared_next may (u := ctx.usage) (kind ▸ same.call ▸ cleared) with
      ⟨before, quiet⟩ | ⟨-, rfl, passed⟩
    · rw [quiet]
      exact inv q proc hp alive ctx hctx c b rec t at_ active before
    · cases passed
      exact (check_ok (exec_check hctx run).1.symm).1
  | called => cases cleared

end BreachLemmas

theorem cleared_reaches {cfg : Config} {now : Int} {ok : World → Action → Prop} {w : World}
    (h : Reaches (World.step cfg) ok (.init now) w)
    (inOrder : ∀ w a, ok w a → oneStepAtATime cfg w a) : w.Cleared :=
  h.invariant (fun _ _ hp => absurd hp (by simp [World.init]))
    fun _ _ _ reached inv _ step =>
      cleared_step (oneActive_reaches reached inOrder) (fun _ _ => shaped_reaches reached) step inv

/-! ## Nothing starts -/

/-- No step of the run has started from the one world to the other. -/
def World.Unstarted (w : World) (j : Uuid) (w' : World) : Prop :=
  ∃ es, w'.store.loadEvents j = w.store.loadEvents j ++ es ∧ ∀ e ∈ es, e.payload.isStart = false

/-- A live step of the run is past its check and has not started yet. -/
def World.Poised (w : World) (j : Uuid) : Prop :=
  ∃ (p : Nat) (proc : Proc), w.procs[p]? = some proc ∧ proc.stopped = false ∧
    proc.loc.runId = j ∧ ∃ c b rec t, proc.At c b rec t ∧ t.ended = false ∧
      (t.stage = .admitted ∨ t.stage = .starting)

namespace BreachLemmas

variable {cfg : Config} {w w' : World} {a : Action} {p q c b : Nat} {proc proc' : Proc}
  {rec : CallRecord} {t : Task} {j : Uuid}

/-- Who has written a start. -/
theorem start_cases (numbered : w.store.Numbered)
    (shaped : ∀ (p : Nat) (proc : Proc), w.procs[p]? = some proc → proc.Shaped cfg)
    (h : w.step cfg a = some w') {es : List Event} {e : Event}
    (log : w'.store.loadEvents j = w.store.loadEvents j ++ es) (mem : e ∈ es)
    (start : e.payload.isStart = true) :
    ∃ p c b ans proc rec t o, ∃ (r : Ans o) (loc : Local),
      TaskActs cfg w w' p c b ans proc rec t o r loc ∧ t.stage = .starting ∧
        proc.loc.runId = j := by
  cases a with
  | task p c b ans =>
    obtain ⟨proc, rec, t, o, r, loc, acts⟩ := task_acts shaped h
    rw [List.append_cancel_left (log.symm.trans (acts.log numbered j))] at mem
    split at mem
    · next own =>
      obtain ⟨_, rfl, -⟩ := InvocationLemmas.written_event mem
      exact ⟨p, c, b, ans, proc, rec, t, _, r, loc, acts, start_starting acts.may start, own.symm⟩
    · cases mem
  | main p ans =>
    obtain ⟨proc, o, r, loc, acts⟩ := main_acts shaped h
    rw [List.append_cancel_left (log.symm.trans (acts.log numbered j))] at mem
    split at mem
    · obtain ⟨_, rfl, -⟩ := InvocationLemmas.written_event mem
      exact absurd (start.symm.trans (phase_uncancelling acts.may).2) (by simp)
    · cases mem
  | _ =>
    rcases outside_log numbered h (by simp [Action.runsCode]) j with
      same | ⟨-, empty, f, _, _, _, new, -, payload⟩ | ⟨-, -, f, new, -, payload⟩
    · have none : es = [] := by simpa using (log.symm.trans same)
      rw [none] at mem
      cases mem
    · have one : es = [f] := by simpa [empty] using (log.symm.trans new)
      rw [one, List.mem_singleton] at mem
      rw [mem, payload] at start
      cases start
    · have one : es = [f] := by simpa using (log.symm.trans new)
      rw [one, List.mem_singleton] at mem
      rw [mem, payload] at start
      cases start

/-- A property of worlds under which no step starts, and which every action keeps. -/
theorem unstarted_run {ok : World → Action → Prop} {now : Int} {I : World → Prop}
    (h : Reaches (World.step cfg) ok (.init now) w) (rest : Reaches (World.step cfg) ok w w')
    (start : I w)
    (kept : ∀ v a v', Reaches (World.step cfg) ok (.init now) v → I v → ok v a →
      v.step cfg a = some v' → I v')
    (idle : ∀ v, Reaches (World.step cfg) ok (.init now) v → I v →
      ∀ (p : Nat) (proc : Proc), v.procs[p]? = some proc → proc.stopped = false →
        proc.loc.runId = j → ∀ c b rec t, proc.At c b rec t → t.ended = false →
        t.stage ≠ .starting) :
    w.Unstarted j w' := by
  suffices I w' ∧ w.Unstarted j w' from this.2
  induction rest with
  | refl => exact ⟨start, [], by simp, by simp⟩
  | @tail v v' a rest good step ih =>
    obtain ⟨inv, es, log, none⟩ := ih
    have reached := h.trans rest
    have shaped : ∀ (p : Nat) (proc : Proc), v.procs[p]? = some proc → proc.Shaped cfg :=
      fun _ _ => shaped_reaches reached
    obtain ⟨new, grown, -⟩ := log_step (numbered_reaches reached) shaped step j
    refine ⟨kept v a v' reached inv good step, es ++ new, by rw [grown, log, List.append_assoc],
      fun e mem => ?_⟩
    rcases List.mem_append.mp mem with old | mem
    · exact none e old
    · by_contra starts
      obtain ⟨p, c, b, ans, proc, rec, t, o, r, loc, acts, stage, own⟩ :=
        start_cases (numbered_reaches reached) shaped step grown mem (by simpa using starts)
      exact idle v reached inv p proc acts.hp acts.alive own c b rec t acts.at_ (acts_active acts)
        stage

/-- Once its saved usage breaches a ceiling no step of the run starts. -/
theorem spent_unstarted {now : Int} (h : Reaches (World.step cfg) (stepwise cfg) (.init now) w)
    (rest : Reaches (World.step cfg) (stepwise cfg) w w') {run : RunRecord}
    (row : w.store.getRun j = some run) (spent : run.budget.spent run.usage = true) :
    w.Unstarted j w' := by
  have fair : ∀ w a, stepwise cfg w a → billable w a := fun _ _ ok => ok.1
  -- the terms of the run stay, and the saved usage does not go back
  refine unstarted_run (I := fun v => (v.store.getRun j).map RunRecord.terms = some run.terms ∧
    ∃ u, v.store.usage j = some u ∧ run.budget.spent u = true) h rest
    ⟨by rw [row]; rfl, run.usage, by rw [Store.usage, row]; rfl, spent⟩ ?_ ?_
  · rintro v a v' reached ⟨terms, u, saved, spent⟩ ok step
    obtain ⟨u', saved', le⟩ := saved_step (ahead_reaches reached fair) step saved
    exact ⟨terms_step step terms, u', saved', spent_mono le spent⟩
  · rintro v reached ⟨terms, u, saved, spent⟩ p proc hp live rfl c b rec t at_ active starting
    obtain ⟨ctx, hctx⟩ := Option.isSome_iff_exists.mp (at_known (shaped_reaches reached hp) at_)
    have clear := cleared_reaches reached (fun _ _ ok => ok.2) p proc hp live ctx hctx c b rec t at_
      active (by rw [starting]; rfl)
    have same :=
      Option.some.inj (((termed_reaches reached).ctx p proc hp ctx hctx).symm.trans terms)
    have le := ahead_reaches reached fair p proc hp live _ (held_of_ctx hctx) u saved
    obtain ⟨budget, -⟩ := Prod.mk.inj same
    rw [budget, spent_mono le spent] at clear
    cases clear

theorem now_step (h : w.step cfg a = some w') : w.now ≤ w'.now := by
  cases step_happens h with
  | tick => exact Int.le_add_of_nonneg_right (Int.natCast_nonneg _)
  | _ => exact le_rfl

theorem age_mono {run : RunRecord} {x y : Int} (le : x ≤ y) : run.age x ≤ run.age y := by
  unfold RunRecord.age
  gcongr

/-- Who is past its check was so before, or its check has just passed. -/
theorem poised_step
    (shaped : ∀ (p : Nat) (proc : Proc), w.procs[p]? = some proc → proc.Shaped cfg)
    (h : w.step cfg a = some w') (poised : w'.Poised j) :
    w.Poised j ∨ ∃ (p : Nat) (proc : Proc) (ctx : RunContext), w.procs[p]? = some proc ∧
      proc.loc.runId = j ∧ proc.loc.ctx = some ctx ∧
      ctx.run.budget.expired (ctx.run.age w.now) = false := by
  obtain ⟨q, proc', hq, live, rfl, c, b, rec', t', at', active, stage⟩ := poised
  cases task_cases shaped h hq at' with
  | same hp at_ _ run alive =>
    exact .inl ⟨q, _, hp, alive live, run.runId.symm, c, b, _, _, at_, active, stage⟩
  | @moved proc rec t ans o k r is hp alive at_ same hprog run may =>
    have own : proc'.loc.runId = proc.loc.runId := (exec_ctx run).1
    have before : t.ended = false := by rw [Task.ended, hprog]; rfl
    have moves := StepSetup.moves may r
    generalize (rec.call.setup cfg _ _ t.key).next _ _ _ = stage' at moves stage
    generalize old : t.stage = stage₀ at moves
    cases moves with
    | admitted =>
      obtain ⟨ctx, hctx⟩ := Option.isSome_iff_exists.mp (at_known (shaped q proc hp) at_)
      exact .inr ⟨q, proc, ctx, hp, own.symm, hctx, (check_ok (exec_check hctx run).1.symm).2⟩
    | fresh =>
      exact .inl ⟨q, proc, hp, alive, own.symm, c, b, rec, t, at_, before, .inl old⟩
    | replay | countReplayed | record | countExecuted | recordResolved =>
      rcases stage with stage | stage <;> cases stage
    | _ => rcases stage with stage | stage <;> cases stage
  | called => rcases stage with stage | stage <;> cases stage

/-- Once the run is too old and no step is past its check, no step of the run starts. -/
theorem expired_unstarted {now : Int} (h : Reaches (World.step cfg) (stepwise cfg) (.init now) w)
    (rest : Reaches (World.step cfg) (stepwise cfg) w w') {run : RunRecord}
    (row : w.store.getRun j = some run) (expired : run.budget.expired (run.age w.now) = true)
    (nobody : ¬ w.Poised j) : w.Unstarted j w' := by
  refine unstarted_run (I := fun v => (v.store.getRun j).map RunRecord.terms = some run.terms ∧
    run.budget.expired (run.age v.now) = true ∧ ¬ v.Poised j) h rest
    ⟨by rw [row]; rfl, expired, nobody⟩ ?_ ?_
  · rintro v a v' reached ⟨terms, expired, nobody⟩ ok step
    refine ⟨terms_step step terms, expired_mono (age_mono (now_step step)) expired,
      fun poised => ?_⟩
    rcases poised_step (fun _ _ => shaped_reaches reached) step poised with
      old | ⟨p, proc, ctx, hp, rfl, hctx, young⟩
    · exact nobody old
    · have same := Option.some.inj
        (((termed_reaches reached).ctx p proc hp ctx hctx).symm.trans terms)
      obtain ⟨budget, created⟩ := Prod.mk.inj same
      have age : ctx.run.age v.now = run.age v.now := by rw [RunRecord.age, created]; rfl
      rw [budget, age, expired] at young
      cases young
  · rintro v - ⟨-, -, nobody⟩ p proc hp live own c b rec t at_ active starting
    exact nobody ⟨p, proc, hp, live, own, c, b, rec, t, at_, active, .inr starting⟩

/-- While a step checks its budget no step of its run is past its check. -/
theorem unpoised {now : Int} (h : Reaches (World.step cfg) (stepwise cfg) (.init now) w)
    (hp : w.procs[p]? = some proc) (live : proc.stopped = false) (at_ : proc.At c b rec t)
    (active : t.ended = false) (stage : t.stage = .uncancelled) : ¬ w.Poised proc.loc.runId := by
  rintro ⟨q, other, hq, live', run, c', b', rec', t', at', active', stage'⟩
  obtain rfl := sole_reaches h (fun _ _ ok => ok.1.1) p q proc other hp hq run
    (began_of_task (shaped_reaches h hp) at_) live (began_of_task (shaped_reaches h hq) at') live'
  obtain rfl := Option.some.inj (hp.symm.trans hq)
  obtain ⟨rfl, rfl⟩ := oneActive_reaches h (fun _ _ ok => ok.2) p proc hp _ _ _ _ _ _ _ _ at_ at'
    (by simp [active]) (by simp [active'])
  obtain rfl := Option.some.inj (at_.1.symm.trans at'.1)
  obtain rfl := Option.some.inj (at_.2.symm.trans at'.2)
  rcases stage' with stage' | stage' <;> cases stage.symm.trans stage'

end BreachLemmas

/-! ## Completed steps are replayed -/

/-- The log holds the result of the key. -/
def World.Recorded (w : World) (j : Uuid) (key : String) (result : Value) : Prop :=
  ∃ e ∈ w.store.loadEvents j, e.stepKey = some key ∧ ∃ by_, e.payload = .stepCompleted result by_

namespace BreachLemmas

variable {cfg : Config} {w w' : World} {a : Action} {p q c b : Nat} {proc proc' : Proc}
  {rec : CallRecord} {t : Task} {j : Uuid} {key : String} {result : Value}

/-- Where the log holds a result of a key, its window is closed with it. -/
theorem life_of_recorded (inv : w.Consistent cfg) (recorded : w.Recorded j key result) :
    w.life cfg j key = some (.done result) := by
  obtain ⟨e, mem, same, by_, payload⟩ := recorded
  obtain ⟨life, hlife⟩ := inv.lives j key
  have completes : e.completes key := ⟨same, result, by_, payload⟩
  obtain ⟨a, b, split⟩ := List.append_of_mem mem
  have accepted := hlife
  rw [World.life, split] at hlife
  obtain ⟨u, -, hrest⟩ := Monitor.run_prefix hlife
  obtain ⟨v, hv, hb⟩ := Option.bind_eq_some_iff.mp hrest
  have closed := (Monitor.run_absorbed Life.isDone (Event.concerns key)
    (fun _ _ _ => LifecycleLemmas.step_done) hb (LifecycleLemmas.step_completes completes hv).2).1
  cases life with
  | done other =>
    obtain ⟨f, mem', same', by', payload'⟩ := done_recorded accepted
    have only := completed_once accepted split completes
    rw [split, List.mem_append, List.mem_cons] at mem'
    have is : f = e := by
      by_contra ne
      exact only f (by simp only [List.mem_append]; tauto) ⟨same', other, by', payload'⟩
    rw [is, payload] at payload'
    cases payload'
    exact accepted
  | fresh | failed | opened => exact closed.elim

theorem recorded_step (numbered : w.store.Numbered)
    (shaped : ∀ (p : Nat) (proc : Proc), w.procs[p]? = some proc → proc.Shaped cfg)
    (h : w.step cfg a = some w') (recorded : w.Recorded j key result) :
    w'.Recorded j key result := by
  obtain ⟨e, mem, facts⟩ := recorded
  obtain ⟨es, log, -⟩ := log_step numbered shaped h j
  exact ⟨e, by rw [log]; exact List.mem_append_left _ mem, facts⟩

/-- What a step of a completed key moves to. -/
theorem replay_next (inv : w.Consistent cfg)
    (rows : w.Rows) (shaped : ∀ (p : Nat) (proc : Proc), w.procs[p]? = some proc → proc.Shaped cfg)
    {ans : Answer} {o : Op} {r : Ans o} {loc : Local}
    (acts : TaskActs cfg w w' p c b ans proc rec t o r loc)
    (recorded : w.Recorded proc.loc.runId t.key result)
    (stage : t.stage = .entry ∨ t.stage = .replayed result) :
    (rec.call.setup cfg proc.loc.runId proc.loc.guarded t.key).next t.stage o r =
      .replayed result := by
  obtain ⟨ctx, hctx⟩ := Option.isSome_iff_exists.mp (at_known (shaped p proc acts.hp) acts.at_)
  obtain ⟨life, hlife, agrees⟩ := (inv.procs p proc acts.hp acts.alive).tasks ctx hctx c b rec t
    acts.at_
  obtain rfl := Option.some.inj (hlife.symm.trans (life_of_recorded inv recorded))
  have told :=
    ConsistencyLemmas.exec_told acts.run hctx (rows p proc acts.hp (.inr (by simp [hctx])))
  have moves := StepSetup.moves acts.may r
  generalize (rec.call.setup cfg _ _ t.key).next _ _ _ = stage' at moves ⊢
  rcases stage with stage | stage
  · rw [stage] at moves agrees
    have known : ctx.completed t.key = some result := agrees
    cases moves with
    | replay v =>
      have same : some v = ctx.completed t.key := told
      rw [Option.some.inj (same.trans known)]
    | guard | unguarded =>
      have same : none = ctx.completed t.key := told
      exact absurd (same.trans known) (by simp)
    | raise may failed =>
      cases may
      cases failed
  · rw [stage] at moves
    cases moves with
    | countReplayed => rfl
    | raise may failed =>
      cases may
      cases failed

end BreachLemmas

/-- A step of a completed key is replayed: it moves nowhere else, and ends with what the call
makes of the recorded result. -/
theorem recorded_replayed {cfg : Config} {now : Int} {ok : World → Action → Prop} {w w' : World}
    (h : Reaches (World.step cfg) ok (.init now) w) (rest : Reaches (World.step cfg) ok w w')
    (orderly : ∀ w a, ok w a → oneAfterAnother w a) {p c b : Nat} {proc : Proc}
    {rec : CallRecord} {t : Task} {result : Value} (hp : w.procs[p]? = some proc)
    (at_ : proc.At c b rec t) (entry : t.stage = .entry)
    (recorded : w.Recorded proc.loc.runId t.key result) :
    ∃ proc' rec' t', w'.procs[p]? = some proc' ∧ proc'.At c b rec' t' ∧
      (t'.stage = .entry ∨ t'.stage = .replayed result) ∧
      ∀ r, t'.prog.ending = some r → r = rec.call.reply result := by
  suffices inv : ∃ proc' rec' t', w'.procs[p]? = some proc' ∧ proc'.loc.runId = proc.loc.runId ∧
      proc'.At c b rec' t' ∧ rec.SameCall rec' ∧ w'.Recorded proc.loc.runId t'.key result ∧
      (t'.stage = .entry ∨ t'.stage = .replayed result) by
    obtain ⟨proc', rec', t', hp', -, at', same, -, stage⟩ := inv
    refine ⟨proc', rec', t', hp', at', stage, fun r ended => ?_⟩
    have ends := (shaped_reaches (h.trans rest) hp').tasks c b rec' t' at'
    rw [same.call] at ends
    rcases stage with stage | stage
    · rw [stage] at ends
      cases hprog : t'.prog <;> rw [hprog] at ends ended <;> first | exact ends.elim | cases ended
    · rw [stage] at ends
      cases hprog : t'.prog <;> rw [hprog] at ends ended <;> cases ended <;> exact ends
  induction rest with
  | refl => exact ⟨proc, rec, t, hp, rfl, at_, sameCall_refl rec, recorded, .inl entry⟩
  | @tail v v' a rest good step ih =>
    obtain ⟨proc₁, rec₁, t₁, hp₁, run, at₁, same, recorded, stage⟩ := ih
    have reached := h.trans rest
    have shaped : ∀ (p : Nat) (proc : Proc), v.procs[p]? = some proc → proc.Shaped cfg :=
      fun _ _ => shaped_reaches reached
    obtain ⟨proc', rec', t', hp', run', at', same', key, -, moved⟩ := task_next shaped step hp₁ at₁
    have recorded' := recorded_step (numbered_reaches reached) shaped step recorded
    refine ⟨proc', rec', t', hp', run'.trans run, at', sameCall_trans same same',
      key ▸ recorded', ?_⟩
    rcases moved with rfl | ⟨ans, o, r, loc, -, acts, stage'⟩
    · exact stage
    · rw [stage', replay_next (consistent_reaches reached orderly) (rows_reaches reached) shaped
        acts (run ▸ recorded) stage]
      exact .inr rfl

/-! ## What the ceilings bound -/

/-- The usage keeps to the ceilings on model calls and on tokens, the tokens of one response
in the log apart. -/
structure World.Keeps (w : World) (j : Uuid) (b : Budget) (u : Usage) : Prop where
  modelCalls : ∀ limit, b.maxModelCalls = some limit → u.modelCalls ≤ limit
  tokens : ∀ limit, b.maxTokens = some limit → u.totalTokens ≤ limit ∨
    ∃ key result response, w.calledAs j .model key = true ∧ w.Recorded j key result ∧
      ModelResponse.fromDict result = .ok response ∧
      u.totalTokens ≤ limit + (response.inputTokens + response.outputTokens)

/-- Rows and live attempts keep to the ceilings of their run. -/
structure World.Capped (w : World) : Prop where
  row : ∀ j run, w.store.getRun j = some run → run.budget.nonNegative = true →
    w.Keeps j run.budget run.usage
  held : ∀ (p : Nat) (proc : Proc), w.procs[p]? = some proc → proc.stopped = false → ∀ u,
    proc.held = some u → ∀ run, w.store.getRun proc.loc.runId = some run →
    run.budget.nonNegative = true → w.Keeps proc.loc.runId run.budget u

namespace BreachLemmas

variable {cfg : Config} {w w' : World} {a : Action} {p q c b : Nat} {proc proc' : Proc}
  {rec : CallRecord} {t : Task} {j : Uuid} {u : Usage}

theorem keeps_step (numbered : w.store.Numbered)
    (shaped : ∀ (p : Nat) (proc : Proc), w.procs[p]? = some proc → proc.Shaped cfg)
    (h : w.step cfg a = some w') {bud : Budget} (keeps : w.Keeps j bud u) : w'.Keeps j bud u where
  modelCalls := keeps.modelCalls
  tokens := fun limit is => (keeps.tokens limit is).imp id
    fun ⟨key, result, response, called, recorded, read, le⟩ =>
      ⟨key, result, response, calledAs_step h called, recorded_step numbered shaped h recorded,
        read, le⟩

theorem keeps_zero {bud : Budget} (nonneg : bud.nonNegative = true) : w.Keeps j bud .zero := by
  simp only [Budget.nonNegative, Bool.and_eq_true] at nonneg
  obtain ⟨⟨⟨⟨tokens, -⟩, models⟩, -⟩, -⟩ := nonneg
  refine ⟨fun limit is => ?_, fun limit is => .inl ?_⟩
  · rw [is] at models
    exact of_decide_eq_true models
  · rw [is] at tokens
    exact of_decide_eq_true tokens

/-- A step that passed its check meters at most one call past a ceiling. -/
theorem keeps_metered (inv : w.Consistent cfg) (cleared : w.Cleared) (termed : w.Termed)
    {ans : Answer} {o : Op} {r : Ans o} {loc : Local} {ctx : RunContext} {run : RunRecord}
    (acts : TaskActs cfg w w' q c b ans proc rec t o r loc) (hctx : proc.loc.ctx = some ctx)
    (row : w.store.getRun proc.loc.runId = some run)
    (keeps : w.Keeps proc.loc.runId run.budget ctx.usage) :
    w.Keeps proc.loc.runId run.budget (metered o ctx.usage) := by
  obtain ⟨life, hlife, agrees⟩ := (inv.procs q proc acts.hp acts.alive).tasks ctx hctx c b rec t
    acts.at_
  have moves := StepSetup.moves acts.may r
  generalize (rec.call.setup cfg _ _ t.key).next _ _ _ = stage' at moves
  generalize hold : t.stage = stage at moves agrees
  cases moves with
  | addToolCall => exact ⟨keeps.modelCalls, keeps.tokens⟩
  | @addModelUsage v response model read =>
    have budget : ctx.run.budget = run.budget := by
      have terms := termed.ctx q proc acts.hp ctx hctx
      rw [row] at terms
      exact (Prod.mk.inj (Option.some.inj terms)).1.symm
    have clear := cleared q proc acts.hp acts.alive ctx hctx c b rec t acts.at_ (acts_active acts)
      (by rw [hold]; exact decide_eq_true model)
    obtain ⟨e, mem, same, by_, payload⟩ := done_recorded (agrees ▸ hlife)
    have called := calledAs_iff.mpr ⟨q, proc, acts.hp, rfl, c, b, rec, t, acts.at_, model, rfl⟩
    simp only [budget, Budget.spent, Bool.or_eq_false_iff] at clear
    obtain ⟨⟨⟨tokens, -⟩, models⟩, -⟩ := clear
    refine ⟨fun limit is => ?_, fun limit is => .inr ?_⟩
    · have below : ctx.usage.modelCalls < limit := by simpa [is] using models
      exact below
    · have below : ctx.usage.totalTokens ≤ limit := by simpa [is] using tokens
      refine ⟨t.key, v, response, called, ⟨e, mem, same, by_, payload⟩, read, ?_⟩
      simp only [Usage.totalTokens, metered, Usage.addModel] at below ⊢
      omega
  | raise may failed => cases o <;> first | exact keeps | cases failed
  | _ => exact keeps

theorem capped_step (numbered : w.store.Numbered) (inv : w.Consistent cfg) (cleared : w.Cleared)
    (termed : w.Termed) (rows : w.Rows)
    (shaped : ∀ (p : Nat) (proc : Proc), w.procs[p]? = some proc → proc.Shaped cfg)
    (h : w.step cfg a = some w') (capped : w.Capped) : w'.Capped := by
  -- a run that had a row has it still, with its budget
  have before : ∀ {j : Uuid} {run' : RunRecord}, w'.store.getRun j = some run' →
      (w.store.usage j).isSome = true →
      ∃ run, w.store.getRun j = some run ∧ run.budget = run'.budget := by
    intro j run' row had
    rw [Store.usage, Option.isSome_map] at had
    obtain ⟨run, old⟩ := Option.isSome_iff_exists.mp had
    have terms : (w'.store.getRun j).map RunRecord.terms = some run.terms :=
      terms_step h (by rw [old]; rfl)
    rw [row] at terms
    exact ⟨run, old, (Prod.mk.inj (Option.some.inj terms)).1.symm⟩
  -- what a live attempt went by keeps to the ceilings
  have held : ∀ {p : Nat} {proc : Proc} {u : Usage} {run' : RunRecord}, w.procs[p]? = some proc →
      proc.stopped = false → proc.held = some u →
      w'.store.getRun proc.loc.runId = some run' → run'.budget.nonNegative = true →
      w.Keeps proc.loc.runId run'.budget u := by
    intro p proc u run' hp alive went row nonneg
    obtain ⟨run, old, same⟩ := before row (row_of_held rows hp went)
    rw [← same] at nonneg ⊢
    exact capped.held p proc hp alive u went run old nonneg
  have saved : ∀ {j : Uuid} {u : Usage} {run' : RunRecord}, w.store.usage j = some u →
      w'.store.getRun j = some run' → run'.budget.nonNegative = true →
      w.Keeps j run'.budget u := by
    intro j u run' was row nonneg
    obtain ⟨run, old, same⟩ := before row (by rw [was]; rfl)
    rw [Store.usage, old] at was
    rw [← Option.some.inj was, ← same]
    exact capped.row j run old (same ▸ nonneg)
  refine ⟨fun j run' row nonneg => ?_, fun q proc' hq live u went run' row nonneg => ?_⟩
  · rcases saved_cases shaped h (j := j) (u := run'.usage) (by rw [Store.usage, row]; rfl) with
      same | ⟨-, zero⟩ | ⟨p, proc, hp, -, alive, rfl, went⟩
    · exact keeps_step numbered shaped h (saved same row nonneg)
    · rw [zero]
      exact keeps_zero nonneg
    · exact keeps_step numbered shaped h (held hp alive went row nonneg)
  · refine keeps_step numbered shaped h ?_
    cases held_cases shaped h hq live went with
    | kept hp alive run was =>
      rw [← run] at row ⊢
      exact held hp alive was row nonneg
    | metered _ acts run hctx =>
      rw [← run] at row ⊢
      have was := held_of_ctx hctx
      obtain ⟨old, hold, same⟩ := before row (row_of_held rows acts.hp was)
      have keeps := held acts.hp acts.alive was row nonneg
      rw [← same] at keeps ⊢
      exact keeps_metered inv cleared termed acts hctx hold keeps
    | read _ _ _ _ _ _ found => exact saved found row nonneg

end BreachLemmas

theorem capped_reaches {cfg : Config} {now : Int} {w : World}
    (h : Reaches (World.step cfg) (stepwise cfg) (.init now) w) : w.Capped :=
  h.invariant
    { row := fun _ _ row => by cases row
      held := fun _ _ hp => absurd hp (by simp [World.init]) }
    fun _ _ _ reached inv _ step =>
      capped_step (numbered_reaches reached)
        (consistent_reaches reached fun _ _ ok => ok.1.1)
        (cleared_reaches reached fun _ _ ok => ok.2) (termed_reaches reached)
        (rows_reaches reached) (fun _ _ => shaped_reaches reached) step inv

/-! ## The result -/

/-- A breached budget stays breached: where the workflow calls its steps one after another and
attempts follow one another, no step starts once the usage on the row breaches a ceiling, nor
once a step that checks its budget finds the run too old; steps whose result is in the log are
replayed all the same; and under a non-negative budget the saved model calls never exceed their
ceiling, nor the saved tokens theirs by more than one response of a model step in the log. -/
theorem breached_stays_breached {cfg : Config} {now : Int} {w w' : World}
    (h : Reaches (World.step cfg) (stepwise cfg) (.init now) w)
    (rest : Reaches (World.step cfg) (stepwise cfg) w w') (j : Uuid) :
    (∀ run, w.store.getRun j = some run → run.budget.spent run.usage = true →
      w.Unstarted j w') ∧
    (∀ run, w.store.getRun j = some run → run.budget.expired (run.age w.now) = true →
      ∀ (p : Nat) (proc : Proc), w.procs[p]? = some proc → proc.stopped = false →
      proc.loc.runId = j → ∀ c b rec t, proc.At c b rec t → t.ended = false →
      t.stage = .uncancelled → w.Unstarted j w') ∧
    (∀ (p : Nat) (proc : Proc), w.procs[p]? = some proc → proc.loc.runId = j →
      ∀ c b rec t, proc.At c b rec t → t.stage = .entry → ∀ result,
      w.Recorded j t.key result → ∃ proc' rec' t', w'.procs[p]? = some proc' ∧
        proc'.At c b rec' t' ∧ (t'.stage = .entry ∨ t'.stage = .replayed result) ∧
        ∀ r, t'.prog.ending = some r → r = rec.call.reply result) ∧
    ∀ run, w.store.getRun j = some run → run.budget.nonNegative = true →
      w.Keeps j run.budget run.usage := by
  refine ⟨fun run row spent => spent_unstarted h rest row spent, ?_, ?_, (capped_reaches h).row j⟩
  · rintro run row expired p proc hp live rfl c b rec t at_ active stage
    exact expired_unstarted h rest row expired (unpoised h hp live at_ active stage)
  · rintro p proc hp rfl c b rec t at_ entry result recorded
    exact recorded_replayed h rest (fun _ _ ok => ok.1.1) hp at_ entry recorded

/-- A run with one model call to spend, spent by an attempt that crashes. -/
def Sample.spentCall : List Action :=
  [.submit runId "w" .none "request" ⟨none, none, some 1, none, none⟩, .claim "a" []] ++
    proceed 0 7 ++ [.call 0 none .workflow (.model "ask")] ++ advance 0 0 7 ++
    [.task 0 0 0 (.response response)] ++ advance 0 0 6 ++ [.stop 0]

/-- The next attempt replays the call, and is refused another. -/
def Sample.refusedCall : List Action :=
  [.tick 31000000, .claim "b" []] ++ proceed 1 8 ++ [.call 1 none .workflow (.model "ask")] ++
    advance 1 0 2 ++ [.call 1 none .workflow (.model "ask")] ++ advance 1 1 4

theorem breached_stays_breached_refused : ∃ w w',
    run (World.step Sample.cfg) (stepwise Sample.cfg) (.init 0) Sample.spentCall = some w ∧
    run (World.step Sample.cfg) (stepwise Sample.cfg) w Sample.refusedCall = some w' ∧
    (((w.store.getRun Sample.runId).map fun run => run.budget.spent run.usage) = some true ∧
      (w'.store.loadEvents Sample.runId).length =
        (w.store.loadEvents Sample.runId).length + 1) ∧
    (∀ run, w.store.getRun Sample.runId = some run → run.budget.spent run.usage = true →
      w.Unstarted Sample.runId w') ∧
    (∀ run, w.store.getRun Sample.runId = some run → run.budget.expired (run.age w.now) = true →
      ∀ (p : Nat) (proc : Proc), w.procs[p]? = some proc → proc.stopped = false →
      proc.loc.runId = Sample.runId → ∀ c b rec t, proc.At c b rec t → t.ended = false →
      t.stage = .uncancelled → w.Unstarted Sample.runId w') ∧
    (∀ (p : Nat) (proc : Proc), w.procs[p]? = some proc → proc.loc.runId = Sample.runId →
      ∀ c b rec t, proc.At c b rec t → t.stage = .entry → ∀ result,
      w.Recorded Sample.runId t.key result → ∃ proc' rec' t', w'.procs[p]? = some proc' ∧
        proc'.At c b rec' t' ∧ (t'.stage = .entry ∨ t'.stage = .replayed result) ∧
        ∀ r, t'.prog.ending = some r → r = rec.call.reply result) ∧
    ∀ run, w.store.getRun Sample.runId = some run → run.budget.nonNegative = true →
      w.Keeps Sample.runId run.budget run.usage := by
  obtain ⟨w, h, later⟩ := run_exists (World.step Sample.cfg) (stepwise Sample.cfg) (.init 0)
    Sample.spentCall (fun w => ((run (World.step Sample.cfg) (stepwise Sample.cfg) w
      Sample.refusedCall).any fun w' =>
        ((w.store.getRun Sample.runId).map fun run => run.budget.spent run.usage) = some true ∧
        (w'.store.loadEvents Sample.runId).length =
          (w.store.loadEvents Sample.runId).length + 1) = true) (by decide +kernel)
  obtain ⟨w', rest, facts⟩ := run_exists (World.step Sample.cfg) (stepwise Sample.cfg) w
    Sample.refusedCall (fun w' =>
      ((w.store.getRun Sample.runId).map fun run => run.budget.spent run.usage) = some true ∧
      (w'.store.loadEvents Sample.runId).length =
        (w.store.loadEvents Sample.runId).length + 1) later
  exact ⟨w, w', h, rest, facts,
    breached_stays_breached (run_reaches h) (run_reaches rest) Sample.runId⟩

end AnchorRuntime
