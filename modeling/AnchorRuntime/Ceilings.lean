import AnchorRuntime.Breaches

/-!
# Ceilings

The ceilings on tool and on model calls are checked once a step, against a counter that the
attempt bumps at every try of a tool and after a model call, and that reaches the row when the
step has ended. A try without a check, two branches between their check and their count, or a
crash before the count is saved lets work escape the count.

Results: `work_acts`, which steps do the work that is bounded; `gauged_step`, where the counter
has caught up at every check the work done, and what is under way, keep to the ceilings;
`ceilings_bound_work`; `ceiling_overrun`, a tool that is run three times under a ceiling of one.
-/

namespace AnchorRuntime

open Effect Machine ShapeLemmas ProcLemmas TaskLemmas SequentialLemmas MeteringLemmas
  BreachLemmas

/-! ## The work -/

/-- Attempt `p` has called its context for the key in this way. -/
def World.calledBy (w : World) (p : Nat) (kind : StepKind) (key : String) : Bool :=
  w.procs[p]?.any fun proc => proc.calls.any fun rec =>
    rec.call.kind = kind && rec.tasks.any fun t => t.key = key

/-- The moment is an invocation of the body of a tool. -/
def World.entersTool (w : World) (m : Moment) : Bool :=
  m.outcome.isNone &&
    match m.call with
    | .body key _ _ => w.calledBy m.proc .tool key
    | _ => false

/-- The moment is a successful return from `provider.complete`. -/
def Moment.succeeds (m : Moment) : Bool :=
  match m.call, m.outcome with
  | .complete _ _ _, some (.ok _) => true
  | _, _ => false

/-- Which of the two ceilings on work. -/
inductive Gauge
  | tools
  | models

namespace Gauge

def kind : Gauge → StepKind
  | .tools => .tool
  | .models => .model

def read : Gauge → Usage → Int
  | .tools, u => u.toolCalls
  | .models, u => u.modelCalls

def limit : Gauge → Budget → Option Int
  | .tools, b => b.maxToolCalls
  | .models, b => b.maxModelCalls

/-- The moment is work. -/
def counts (w : World) : Gauge → Moment → Bool
  | .tools, m => w.entersTool m
  | .models, m => m.succeeds

/-- The work done for a run: the invocations of tool bodies over all its attempts, or the
successful calls of `provider.complete`. -/
def work (g : Gauge) (w : World) (j : Uuid) : Nat :=
  w.moments.countP fun m => m.runId = j && g.counts w m

/-- The operation of a step of this kind is work. -/
def works : Gauge → (o : Op) → Ans o → Bool
  | .tools, .enter (.body _ _ _), _ => true
  | .models, .leave (.complete _ _ _), .ok _ => true
  | _, _, _ => false

/-- The step is past its check, and may do the work without another one. -/
def underWay : Gauge → Stage → Bool
  | _, .admitted | _, .recovering | _, .verifying | _, .unknown | _, .starting
  | _, .ready _ _ => true
  | .models, .running _ | .models, .raised _ _ | .models, .waiting _ => true
  | _, _ => false

/-- From here the step goes on to the work: at its check, and for a tool at each retry. -/
def commits : Gauge → Stage → Bool
  | _, .uncancelled => true
  | .tools, .waiting _ => true
  | _, _ => false

/-- The step is under way to the work. -/
def awaits (g : Gauge) (kind : StepKind) (t : Task) : Bool :=
  kind = g.kind && !t.ended && g.underWay t.stage

/-- How many steps of the attempt are. -/
def pending (g : Gauge) (proc : Proc) : Nat := proc.tally g.awaits

end Gauge

/-- The ceiling a kind of call is subject to. -/
def StepKind.gauge : StepKind → Option Gauge
  | .plain => none
  | .tool => some .tools
  | .model => some .models

/-! ## The condition -/

/-- The step waits before its next try. -/
def Stage.isWaiting : Stage → Bool
  | .waiting _ => true
  | _ => false

/-- Where a step goes on to bounded work its attempt has counted all of it, what is under way in
other branches included, and a retry finds room under the ceiling. -/
def counted (w : World) : Action → Prop
  | .task p c b _ => ∀ proc ∈ w.procs[p]?, ∀ rec ∈ proc.calls[c]?, ∀ t ∈ rec.tasks[b]?,
    ∀ ctx ∈ proc.loc.ctx, ∀ g ∈ rec.call.kind.gauge, g.commits t.stage = true →
      ∀ limit ∈ g.limit ctx.run.budget,
        (t.stage.isWaiting = true → g.read ctx.usage < limit) ∧
        (g.read ctx.usage < limit →
          (g.work w proc.loc.runId + g.pending proc : Int) ≤ g.read ctx.usage)
  | _ => True

instance (w : World) (a : Action) : Decidable (counted w a) :=
  match a with
  | .task p c b _ => inferInstanceAs (Decidable (∀ proc ∈ w.procs[p]?, ∀ rec ∈ proc.calls[c]?,
      ∀ t ∈ rec.tasks[b]?, ∀ ctx ∈ proc.loc.ctx, ∀ g ∈ rec.call.kind.gauge,
      g.commits t.stage = true → ∀ limit ∈ g.limit ctx.run.budget,
        (t.stage.isWaiting = true → g.read ctx.usage < limit) ∧
        (g.read ctx.usage < limit →
          (g.work w proc.loc.runId + g.pending proc : Int) ≤ g.read ctx.usage)))
  | .submit _ _ _ _ _ | .cancel _ | .tick _ | .claim _ _ | .execute _ | .beat _ _ | .main _ _
  | .call _ _ _ _ | .stop _ => .isTrue trivial

/-! ## The invariant -/

/-- Bodies are entered for keys the attempt has called its context for. -/
def World.Placed (w : World) : Prop :=
  ∀ m ∈ w.moments, m.outcome = none → ∀ key token n, m.call = .body key token n →
    ∃ proc, w.procs[m.proc]? = some proc ∧ key ∈ proc.keys

/-- The work of every run keeps to its ceilings, and so does what a live attempt will have done
with what it has under way. -/
structure World.Gauged (w : World) (j : Uuid) (g : Gauge) : Prop where
  unsubmitted : w.store.getRun j = none → g.work w j = 0
  work : ∀ run, w.store.getRun j = some run → ∀ T : Nat, g.limit run.budget = some (T : Int) →
    g.work w j ≤ T
  live : ∀ run, w.store.getRun j = some run → ∀ T : Nat, g.limit run.budget = some (T : Int) →
    ∀ (p : Nat) (proc : Proc), w.procs[p]? = some proc → proc.loc.runId = j →
    proc.stopped = false → g.work w j + g.pending proc ≤ T

namespace CeilingLemmas

variable {cfg : Config} {w w' : World} {a : Action} {p q c b : Nat} {proc proc' : Proc}
  {rec : CallRecord} {t : Task} {j : Uuid} {key : String} {g : Gauge}

/-- The moments an action adds: none, or what an attempt has entered or left. -/
theorem moments_cases
    (shaped : ∀ (p : Nat) (proc : Proc), w.procs[p]? = some proc → proc.Shaped cfg)
    (h : w.step cfg a = some w') :
    w'.moments = w.moments ∨
    (∃ p ans proc o, ∃ (r : Ans o) (loc : Local), a = .main p ans ∧
      MainActs cfg w w' p ans proc o r loc ∧
      w'.moments = w.moments ++ w.moment p proc.loc.runId o r) ∨
    ∃ p c b ans proc rec t o, ∃ (r : Ans o) (loc : Local), a = .task p c b ans ∧
      TaskActs cfg w w' p c b ans proc rec t o r loc ∧
      w'.moments = w.moments ++ w.moment p proc.loc.runId o r := by
  cases a with
  | main p ans =>
    obtain ⟨proc, o, r, loc, acts⟩ := main_acts shaped h
    obtain ⟨k, -, world⟩ := acts.after
    exact .inr (.inl ⟨p, ans, proc, o, r, loc, rfl, acts, by rw [world]⟩)
  | task p c b ans =>
    obtain ⟨proc, rec, t, o, r, loc, acts⟩ := task_acts shaped h
    obtain ⟨k, -, world⟩ := acts.after
    exact .inr (.inr ⟨p, c, b, ans, proc, rec, t, o, r, loc, rfl, acts, by rw [world]⟩)
  | _ =>
    left
    cases step_happens h <;> rfl

/-- The user code a moment is about. -/
theorem moment_call {o : Op} {r : Ans o} {m : Moment} (mem : m ∈ w.moment p j o r) :
    m.proc = p ∧ m.runId = j ∧ ((o = .enter m.call ∧ m.outcome = none) ∨
      ∃ u r', o = .leave u ∧ HEq r r' ∧ m.call = u ∧ m.outcome = some r') := by
  cases o with
  | enter u =>
    obtain rfl := List.mem_singleton.mp mem
    exact ⟨rfl, rfl, .inl ⟨rfl, rfl⟩⟩
  | leave u =>
    obtain rfl := List.mem_singleton.mp mem
    exact ⟨rfl, rfl, .inr ⟨u, r, rfl, HEq.rfl, rfl, rfl⟩⟩
  | _ => cases mem

theorem keys_persist (h : w.step cfg a = some w') (hp : w.procs[p]? = some proc)
    (mem : key ∈ proc.keys) : ∃ proc', w'.procs[p]? = some proc' ∧ key ∈ proc'.keys := by
  obtain ⟨c, b, rec, t, at_, rfl⟩ := mem_keys mem
  obtain ⟨proc', rec', t', hp', -, at', -, same, -⟩ := task_persists h hp at_
  exact ⟨proc', hp', same ▸ at_key_mem at'⟩

theorem placed_step
    (shaped : ∀ (p : Nat) (proc : Proc), w.procs[p]? = some proc → proc.Shaped cfg)
    (h : w.step cfg a = some w') (inv : w.Placed) : w'.Placed := by
  intro m mem entered key token n call
  have old : m ∈ w.moments → ∃ proc, w'.procs[m.proc]? = some proc ∧ key ∈ proc.keys := by
    intro mem
    obtain ⟨proc, hp, mine⟩ := inv m mem entered key token n call
    exact keys_persist h hp mine
  rcases moments_cases shaped h with
    same | ⟨p, ans, proc, o, r, loc, -, acts, added⟩ |
      ⟨p, c, b, ans, proc, rec, t, o, r, loc, -, acts, added⟩
  · exact old (same ▸ mem)
  · rw [added, List.mem_append] at mem
    refine mem.elim old fun new => ?_
    obtain ⟨-, -, ⟨rfl, -⟩ | ⟨_, _, -, -, -, left⟩⟩ := moment_call new
    · have none := InvocationLemmas.phase_enter acts.may
      rw [call] at none
      cases none
    · cases left.symm.trans entered
  · rw [added, List.mem_append] at mem
    refine mem.elim old fun new => ?_
    obtain ⟨place, -, ⟨rfl, -⟩ | ⟨_, _, -, -, -, left⟩⟩ := moment_call new
    · obtain ⟨-, -, rfl, -⟩ := InvocationLemmas.allowed_enter acts.may (by rw [call]; rfl)
      exact place ▸ keys_persist h acts.hp (at_key_mem acts.at_)
    · cases left.symm.trans entered

theorem calledBy_iff {kind : StepKind} : w.calledBy p kind key = true ↔
    ∃ proc c b rec t, w.procs[p]? = some proc ∧ proc.At c b rec t ∧ rec.call.kind = kind ∧
      t.key = key := by
  simp only [World.calledBy, Option.any_eq_true, ProcLemmas.any_task_of, decide_eq_true_eq,
    exists_and_left]

/-- A key of an attempt keeps its kind. -/
theorem calledBy_step
    (shaped : ∀ (p : Nat) (proc : Proc), w.procs[p]? = some proc → proc.Shaped cfg)
    (h : w.step cfg a = some w') (hp : w.procs[p]? = some proc) (mem : key ∈ proc.keys)
    (kind : StepKind) : w'.calledBy p kind key = w.calledBy p kind key := by
  rw [Bool.eq_iff_iff, calledBy_iff, calledBy_iff]
  constructor
  · rintro ⟨proc', c, b, rec', t', hp', at', is, hkey⟩
    cases task_cases shaped h hp' at' with
    | same old at_ same => exact ⟨_, c, b, _, _, old, at_, same.call ▸ is, hkey⟩
    | moved _ old _ at_ same => exact ⟨_, c, b, _, _, old, at_, same.call ▸ is, hkey⟩
    | @called proc₁ key₁ _ _ old _ new =>
      obtain rfl := Option.some.inj (hp.symm.trans old)
      have same : key₁ = key := hkey
      exact absurd mem (same ▸ new)
  · rintro ⟨_, c, b, rec, t, old, at_, is, hkey⟩
    obtain ⟨proc', rec', t', hp', -, at', same, key', -⟩ := task_persists h old at_
    exact ⟨proc', c, b, rec', t', hp', at', same.call ▸ is, key'.trans hkey⟩

/-- Moments that were there count as they did. -/
theorem counts_step
    (shaped : ∀ (p : Nat) (proc : Proc), w.procs[p]? = some proc → proc.Shaped cfg)
    (h : w.step cfg a = some w') (placed : w.Placed) (g : Gauge) {m : Moment}
    (mem : m ∈ w.moments) : g.counts w' m = g.counts w m := by
  cases g with
  | models => rfl
  | tools =>
    show w'.entersTool m = w.entersTool m
    cases entered : m.outcome with
    | some => simp [World.entersTool, entered]
    | none =>
      simp only [World.entersTool, entered, Option.isNone_none, Bool.true_and]
      split
      · next key token n call =>
        obtain ⟨proc, hp, mine⟩ := placed m mem entered key token n call
        exact calledBy_step shaped h hp mine .tool
      · rfl

theorem work_append
    (shaped : ∀ (p : Nat) (proc : Proc), w.procs[p]? = some proc → proc.Shaped cfg)
    (h : w.step cfg a = some w') (placed : w.Placed) {new : List Moment}
    (added : w'.moments = w.moments ++ new) (g : Gauge) (j : Uuid) :
    g.work w' j = g.work w j + new.countP fun m => m.runId = j && g.counts w' m := by
  rw [Gauge.work, added, List.countP_append, Gauge.work]
  congr 1
  refine List.countP_congr fun m mem => ?_
  rw [counts_step shaped h placed g mem]

/-- Who does not act on a step does no work. -/
theorem work_idle
    (shaped : ∀ (p : Nat) (proc : Proc), w.procs[p]? = some proc → proc.Shaped cfg)
    (h : w.step cfg a = some w') (placed : w.Placed) (idle : ∀ p c b ans, a ≠ .task p c b ans)
    (g : Gauge) (j : Uuid) : g.work w' j = g.work w j := by
  rcases moments_cases shaped h with
    same | ⟨p, ans, proc, o, r, loc, -, acts, added⟩ | ⟨p, c, b, ans, _, _, _, _, _, _, is, -⟩
  · have none : w'.moments = w.moments ++ [] := by rw [same, List.append_nil]
    rw [work_append shaped h placed none]
    rfl
  · rw [work_append shaped h placed added, List.countP_eq_zero.mpr]
    · rfl
    · intro m mem
      -- it enters and leaves the workflow only
      obtain ⟨name, input, is⟩ : ∃ name input, m.call = .workflow name input := by
        have may := acts.may
        obtain ⟨-, -, ⟨rfl, -⟩ | ⟨u, r', rfl, -, rfl, -⟩⟩ := moment_call mem
        all_goals
          generalize proc.phase = phase at may
          cases phase <;> simp [Phase.allowed] at may
          exact may
      have not_work : g.counts w' m = false := by
        cases g <;> simp [Gauge.counts, Moment.succeeds, World.entersTool, is]
      simp [not_work]
  · exact absurd is (idle _ _ _ _)

theorem toNat_eq (x : Bool) : x.toNat = if x = true then 1 else 0 := by
  cases x <;> rfl

/-- Only a model step calls `provider.complete`. -/
theorem left_complete {s : StepSetup} {stage : Stage} {token : Uuid} {n : Nat}
    (may : s.allowed stage (.leave (.complete key token n))) : s.kind = .model := by
  have moves := StepSetup.moves may (.ok .none)
  generalize s.next stage (.leave (.complete key token n)) (.ok .none) = stage' at moves
  cases moves with
  | returned v is =>
    unfold StepSetup.body at is
    cases kind : s.kind with
    | model => rfl
    | plain | tool =>
      rw [kind] at is
      cases is
  | raise _ failed => cases failed

/-- What a step that acts does of the work. -/
theorem work_acts
    (shaped : ∀ (p : Nat) (proc : Proc), w.procs[p]? = some proc → proc.Shaped cfg)
    (shaped' : ∀ (p : Nat) (proc : Proc), w'.procs[p]? = some proc → proc.Shaped cfg)
    (h : w.step cfg a = some w') (placed : w.Placed) {ans : Answer} {o : Op} {r : Ans o}
    {loc : Local} (acts : TaskActs cfg w w' q c b ans proc rec t o r loc) (g : Gauge) (j : Uuid) :
    g.work w' j = g.work w j +
      (proc.loc.runId = j && rec.call.kind = g.kind && g.works o r : Bool).toNat := by
  obtain ⟨k, -, world⟩ := acts.after
  rw [work_append shaped h placed (by rw [world])]
  congr 1
  have may := acts.may
  cases o with
  | enter u =>
    rw [show w.moment q proc.loc.runId (.enter u) r =
      [⟨q, proc.loc.runId, u, none, (w.store.loadEvents proc.loc.runId).length⟩] from rfl]
    cases g with
    | models => simp [Gauge.counts, Moment.succeeds, Gauge.works]
    | tools =>
      cases u with
      | body key token n =>
        obtain ⟨-, -, rfl, -⟩ := InvocationLemmas.allowed_enter may rfl
        have kind : w'.calledBy q .tool t.key = decide (rec.call.kind = .tool) := by
          obtain ⟨proc', rec', t', hp', -, at', same, hkey, -⟩ := acts.moved
          rw [Bool.eq_iff_iff, calledBy_iff, decide_eq_true_eq]
          constructor
          · rintro ⟨_, c', b', rec'', t'', hq, at'', is, hkey'⟩
            obtain rfl := Option.some.inj (hp'.symm.trans hq)
            obtain ⟨rfl, rfl⟩ := at_key_inj (shaped' q _ hq).nodup at' at'' (hkey.trans hkey'.symm)
            obtain rfl := Option.some.inj (at'.1.symm.trans at''.1)
            exact same.call ▸ is
          · exact fun is => ⟨proc', c, b, rec', t', hp', at', same.call ▸ is, hkey⟩
        have own : (rec.call.setup cfg proc.loc.runId proc.loc.guarded t.key).key = t.key := rfl
        rw [List.countP_singleton, ← toNat_eq]
        simp [Gauge.counts, World.entersTool, Gauge.works, Gauge.kind, own, kind]
        rfl
      | _ => simp [Gauge.counts, World.entersTool, Gauge.works]
  | leave u =>
    rw [show w.moment q proc.loc.runId (.leave u) r =
      [⟨q, proc.loc.runId, u, some r, (w.store.loadEvents proc.loc.runId).length⟩] from rfl]
    cases g with
    | tools => simp [Gauge.counts, World.entersTool, Gauge.works]
    | models =>
      cases u with
      | complete key token n =>
        have model : rec.call.kind = .model := left_complete may
        rw [List.countP_singleton, ← toNat_eq]
        cases r <;> simp [Gauge.counts, Moment.succeeds, Gauge.works, Gauge.kind, model]
      | _ => simp [Gauge.counts, Moment.succeeds, Gauge.works]
  | _ => cases g <;> simp [World.moment, observed, Gauge.works]

/-! The steps of the machine. -/

/-- A step does bounded work only where it was under way to it, and gets under way only where it
commits. -/
theorem gauge_next {s : StepSetup} {stage : Stage} {o : Op} {r : Ans o} (kind : s.kind = g.kind)
    (may : s.allowed stage o) :
    (g.works o r).toNat + (g.underWay (s.next stage o r)).toNat ≤ (g.underWay stage).toNat ∨
      (g.commits stage = true ∧ g.works o r = false ∧
        (stage.isWaiting = true ∨ (o = .checkBudget ∧ HEq r (Except.ok (ε := Exn) ())))) := by
  have moves := StepSetup.moves may r
  generalize s.next stage o r = stage' at moves ⊢
  cases moves with
  | admitted => exact .inr ⟨by cases g <;> rfl, by cases g <;> rfl, .inr ⟨rfl, HEq.rfl⟩⟩
  | sleep =>
    cases g with
    | tools => exact .inr ⟨rfl, rfl, .inl rfl⟩
    | models => exact .inl (by simp [Gauge.works, Gauge.underWay])
  | @enter n _ _ _ _ is =>
    left
    cases g with
    | tools =>
      have none : Gauge.underWay .tools (.running n) = false := rfl
      rw [none]
      exact Bool.toNat_le _
    | models => simp [Gauge.works, Gauge.underWay]
  | @returned n _ v is =>
    left
    cases g with
    | tools => simp [Gauge.works, Gauge.underWay]
    | models =>
      have none : Gauge.underWay .models (.returned n v) = false := rfl
      rw [none]
      exact Bool.toNat_le _
  | raise may failed =>
    left
    cases o with
    | enter | leave => cases failed
    | _ => cases g <;> simp [Gauge.works, Gauge.underWay]
  | _ => exact .inl (by cases g <;> simp [Gauge.works, Gauge.underWay])

/-! Steps under way. -/

theorem pending_acts {ans : Answer} {o : Op} {r : Ans o} {loc : Local}
    (acts : TaskActs cfg w w' q c b ans proc rec t o r loc) (hq : w'.procs[q]? = some proc')
    (g : Gauge) : g.pending proc' + (rec.call.kind = g.kind && g.underWay t.stage : Bool).toNat ≤
      g.pending proc + (rec.call.kind = g.kind && g.underWay
        ((rec.call.setup cfg proc.loc.runId proc.loc.guarded t.key).next t.stage o r) :
          Bool).toNat := by
  have active := OutlivingLemmas.acts_active acts
  obtain ⟨k, -, world⟩ := acts.after
  rw [world, ConsistencyLemmas.mem_set acts.hp] at hq
  obtain rfl := Option.some.inj hq
  have before : g.awaits rec.call.kind t =
      (rec.call.kind = g.kind && g.underWay t.stage : Bool) := by
    simp [Gauge.awaits, active]
  rw [← before]
  refine (Nat.le_of_eq (tally_setTask g.awaits acts.at_)).trans (Nat.add_le_add_left ?_ _)
  refine Bool.toNat_le_toNat fun is => ?_
  have is : (rec.call.kind = g.kind && _ && g.underWay _ : Bool) = true := is
  simp only [Bool.and_eq_true] at is ⊢
  exact ⟨is.1.1, is.2⟩

theorem pending_row (shaped : proc.Shaped cfg) (termed : w.Termed) (hp : w.procs[p]? = some proc)
    (missing : w.store.getRun proc.loc.runId = none) : g.pending proc = 0 := by
  cases hctx : proc.loc.ctx with
  | none =>
    rw [Gauge.pending, Proc.tally, shaped.uncalled hctx]
    rfl
  | some ctx =>
    have row := termed.ctx p proc hp ctx hctx
    rw [missing] at row
    cases row

/-- An attempt none of whose steps acts has under way what it had. -/
theorem pending_cases
    (shaped : ∀ (p : Nat) (proc : Proc), w.procs[p]? = some proc → proc.Shaped cfg)
    (h : w.step cfg a = some w') (hq : w'.procs[q]? = some proc') (live : proc'.stopped = false)
    (idle : ∀ c b ans, a ≠ .task q c b ans) (g : Gauge) :
    g.pending proc' = 0 ∨ ∃ proc, w.procs[q]? = some proc ∧ proc.stopped = false ∧
      proc.loc.runId = proc'.loc.runId ∧ g.pending proc' = g.pending proc := by
  have none : ∀ {new : Proc}, new.calls = [] → g.pending new = 0 := by
    intro new calls
    rw [Gauge.pending, Proc.tally, calls]
    rfl
  cases attempt_cases shaped h hq with
  | same hp | beat _ _ hp => exact .inr ⟨_, hp, live, rfl, rfl⟩
  | fresh _ _ _ calls => exact .inl (none calls)
  | stop => cases live
  | main _ acts => exact .inr ⟨_, acts.hp, acts.alive, (exec_ctx acts.run).1.symm, rfl⟩
  | task is => exact absurd is (idle _ _ _)
  | refused _ hp => exact .inr ⟨_, hp, live, rfl, tally_concat _⟩
  | call _ hp =>
    refine .inr ⟨_, hp, live, rfl, (tally_concat g.awaits).trans ?_⟩
    rw [tally_newTasks fun kind t entry => by simp [Gauge.awaits, entry, Gauge.underWay]]
    rfl

/-! The ceilings. -/

/-- A run that has a row has had it, with its budget, or has just been submitted. -/
theorem row_back (h : w.step cfg a = some w') {run' : RunRecord}
    (row : w'.store.getRun j = some run') :
    w.store.getRun j = none ∨
      ∃ run, w.store.getRun j = some run ∧ run.budget = run'.budget := by
  cases old : w.store.getRun j with
  | none => exact .inl rfl
  | some run =>
    have terms : (w'.store.getRun j).map RunRecord.terms = some run.terms :=
      terms_step h (by rw [old]; rfl)
    rw [row] at terms
    exact .inr ⟨run, rfl, (Prod.mk.inj (Option.some.inj terms)).1.symm⟩

theorem row_stays (h : w.step cfg a = some w') (gone : w'.store.getRun j = none) :
    w.store.getRun j = none := by
  cases old : w.store.getRun j with
  | none => rfl
  | some run =>
    have terms : (w'.store.getRun j).map RunRecord.terms = some run.terms :=
      terms_step h (by rw [old]; rfl)
    rw [gone] at terms
    cases terms

/-- While no step of the run acts its work stays, and so does what is under way. -/
theorem gauged_idle
    (shaped : ∀ (p : Nat) (proc : Proc), w.procs[p]? = some proc → proc.Shaped cfg)
    (termed : w.Termed) (h : w.step cfg a = some w') (same : g.work w' j = g.work w j)
    (idle : ∀ p c b ans proc, a = .task p c b ans → w.procs[p]? = some proc →
      proc.loc.runId ≠ j)
    (inv : w.Gauged j g) : w'.Gauged j g where
  unsubmitted none := same.trans (inv.unsubmitted (row_stays h none))
  work run' row T is := by
    rw [same]
    rcases row_back h row with none | ⟨run, old, budget⟩
    · exact (inv.unsubmitted none).trans_le (Nat.zero_le T)
    · exact inv.work run old T (budget ▸ is)
  live run' row T is q proc' hq own live := by
    have quiet : ∀ c b ans, a ≠ .task q c b ans := by
      rintro c b ans rfl
      obtain ⟨proc, _, _, _, _, _, acts⟩ := task_acts shaped h
      obtain ⟨proc₁, _, _, hq₁, loc, -⟩ := acts.moved
      obtain rfl := Option.some.inj (hq₁.symm.trans hq)
      exact idle q c b ans proc rfl acts.hp ((exec_ctx acts.run).1.symm.trans (loc ▸ own))
    rw [same]
    rcases row_back h row with none | ⟨run, old, budget⟩
    · rcases pending_cases shaped h hq live quiet g with zero | ⟨proc, hp, -, run, pending⟩
      · rw [zero, inv.unsubmitted none]
        exact Nat.zero_le T
      · rw [pending, pending_row (shaped q proc hp) termed hp (run.trans own ▸ none),
          inv.unsubmitted none]
        exact Nat.zero_le T
    · rcases pending_cases shaped h hq live quiet g with zero | ⟨proc, hp, alive, run₁, pending⟩
      · rw [zero]
        exact inv.work run old T (budget ▸ is)
      · rw [pending]
        exact inv.live run old T (budget ▸ is) q proc hp (run₁.trans own) alive

/-- What a step adds to the work and to what is under way there was room for. -/
theorem room_acts (termed : w.Termed) (placed : w.Placed)
    (shaped : ∀ (p : Nat) (proc : Proc), w.procs[p]? = some proc → proc.Shaped cfg)
    (shaped' : ∀ (p : Nat) (proc : Proc), w'.procs[p]? = some proc → proc.Shaped cfg)
    {ans : Answer} (h : w.step cfg (.task q c b ans) = some w')
    (ok : counted w (.task q c b ans)) {o : Op} {r : Ans o}
    {loc : Local} (acts : TaskActs cfg w w' q c b ans proc rec t o r loc)
    (hq : w'.procs[q]? = some proc') {run : RunRecord}
    (row : w.store.getRun proc.loc.runId = some run) {T : Nat}
    (limit : g.limit run.budget = some (T : Int))
    (room : g.work w proc.loc.runId + g.pending proc ≤ T) :
    g.work w' proc.loc.runId + g.pending proc' ≤ T := by
  have work := work_acts shaped shaped' h placed acts g proc.loc.runId
  have pending := pending_acts acts hq g
  simp only [decide_true, Bool.true_and] at work
  by_cases kind : rec.call.kind = g.kind
  · simp only [kind, decide_true, Bool.true_and] at work pending
    rcases gauge_next (s := rec.call.setup cfg proc.loc.runId proc.loc.guarded t.key) (r := r)
      kind acts.may with within | ⟨commits, idle, passes⟩
    · omega
    · -- the counter has caught up, and is below the ceiling
      obtain ⟨ctx, hctx⟩ := Option.isSome_iff_exists.mp (at_known (shaped q proc acts.hp) acts.at_)
      have terms := termed.ctx q proc acts.hp ctx hctx
      rw [row] at terms
      have budget : run.budget = ctx.run.budget := (Prod.mk.inj (Option.some.inj terms)).1
      rw [budget] at limit
      have gauge : g ∈ rec.call.kind.gauge := by
        rw [kind]
        cases g <;> rfl
      obtain ⟨waits, caught⟩ := ok proc acts.hp rec acts.at_.1 t acts.at_.2 ctx hctx g gauge commits
        T limit
      have below : g.read ctx.usage < T := by
        rcases passes with waiting | ⟨rfl, passed⟩
        · exact waits waiting
        · cases passed
          have clear := (check_ok (exec_check hctx acts.run).1.symm).1
          simp only [Budget.spent, Bool.or_eq_false_iff] at clear
          cases g with
          | tools =>
            have limit : ctx.run.budget.maxToolCalls = some (T : Int) := limit
            have tools := clear.1.1.2
            rw [limit] at tools
            show ctx.usage.toolCalls < (T : Int)
            simpa using tools
          | models =>
            have limit : ctx.run.budget.maxModelCalls = some (T : Int) := limit
            have models := clear.1.2
            rw [limit] at models
            show ctx.usage.modelCalls < (T : Int)
            simpa using models
      have caught := caught below
      have most := Bool.toNat_le (g.underWay
        ((rec.call.setup cfg proc.loc.runId proc.loc.guarded t.key).next t.stage o r))
      simp only [idle, Bool.toNat_false] at work
      omega
  · simp only [kind, decide_false, Bool.false_and, Bool.toNat_false] at work pending
    omega

theorem gauged_step (termed : w.Termed) (placed : w.Placed)
    (shaped : ∀ (p : Nat) (proc : Proc), w.procs[p]? = some proc → proc.Shaped cfg)
    (shaped' : ∀ (p : Nat) (proc : Proc), w'.procs[p]? = some proc → proc.Shaped cfg)
    (h : w.step cfg a = some w') (orderly : oneAfterAnother w a) (ok : counted w a)
    (inv : w.Gauged j g) : w'.Gauged j g := by
  cases a with
  | task p c b ans =>
    obtain ⟨proc, rec, t, o, r, loc, acts⟩ := task_acts shaped h
    by_cases own : proc.loc.runId = j
    · subst own
      obtain ⟨ctx, hctx⟩ := Option.isSome_iff_exists.mp (at_known (shaped p proc acts.hp) acts.at_)
      obtain ⟨run, row, -⟩ := Option.map_eq_some_iff.mp (termed.ctx p proc acts.hp ctx hctx)
      obtain ⟨proc', _, _, hp', loc', -⟩ := acts.moved
      have own' : proc'.loc.runId = proc.loc.runId := loc' ▸ (exec_ctx acts.run).1
      have room : ∀ {run'}, w'.store.getRun proc.loc.runId = some run' → ∀ T : Nat,
          g.limit run'.budget = some (T : Int) →
          g.work w' proc.loc.runId + g.pending proc' ≤ T := by
        intro run' row' T is
        rcases row_back h row' with none | ⟨old, hold, budget⟩
        · cases none.symm.trans row
        · have limit : g.limit old.budget = some (T : Int) := budget ▸ is
          exact room_acts termed placed shaped shaped' h ok acts hp' hold limit
            (inv.live old hold T limit p proc acts.hp rfl acts.alive)
      refine ⟨fun missing => ?_, fun run' row' T is => ?_,
        fun run' row' T is q other hq run live => ?_⟩
      · cases (row_stays h missing).symm.trans row
      · exact (Nat.le_add_right _ _).trans (room row' T is)
      · by_cases mine : q = p
        · subst mine
          obtain rfl := Option.some.inj (hp'.symm.trans hq)
          exact room row' T is
        · -- no other attempt of the run is live and has steps
          have quiet : g.pending other = 0 := by
            rcases pending_cases shaped h hq live (fun _ _ _ is => mine (by cases is; rfl)) g with
              zero | ⟨old, hold, alive, run₁, pending⟩
            · exact zero
            · rw [pending]
              cases began : old.started with
              | true =>
                have stopped := orderly p rfl proc acts.hp q old hold mine (run₁.trans run) began
                cases stopped.symm.trans alive
              | false =>
                have fresh := shaped q old hold
                have calls := fresh.uncalled (fresh.early (by rw [fresh.fresh began]; trivial))
                rw [Gauge.pending, Proc.tally, calls]
                rfl
          rw [quiet]
          exact (Nat.le_add_right _ _).trans (room row' T is)
    · refine gauged_idle shaped termed h ?_ ?_ inv
      · rw [work_acts shaped shaped' h placed acts g j]
        simp [own]
      · rintro _ _ _ _ _ is hp
        cases is
        obtain rfl := Option.some.inj (acts.hp.symm.trans hp)
        exact own
  | _ =>
    refine gauged_idle shaped termed h ?_ ?_ inv
    · exact work_idle shaped h placed (fun _ _ _ _ is => by cases is) g j
    · exact fun _ _ _ _ _ is => by cases is

end CeilingLemmas

open CeilingLemmas

theorem placed_reaches {cfg : Config} {now : Int} {ok : World → Action → Prop} {w : World}
    (h : Reaches (World.step cfg) ok (.init now) w) : w.Placed :=
  h.invariant (fun m mem => by cases mem)
    fun _ _ _ reached inv _ step => placed_step (fun _ _ => shaped_reaches reached) step inv

/-- Attempts that follow one another and whose counters have caught up wherever a step goes on to
bounded work keep to the ceilings: over the whole run the tool bodies are invoked at most
`max_tool_calls` times, and `provider.complete` succeeds at most `max_model_calls` times. -/
theorem ceilings_bound_work {cfg : Config} {now : Int} {w : World}
    (h : Reaches (World.step cfg) (fun w a => oneAfterAnother w a ∧ counted w a) (.init now) w)
    (runId : Uuid) (run : RunRecord) (row : w.store.getRun runId = some run) (T : Nat) :
    (run.budget.maxToolCalls = some (T : Int) → Gauge.tools.work w runId ≤ T) ∧
    (run.budget.maxModelCalls = some (T : Int) → Gauge.models.work w runId ≤ T) := by
  have gauged : ∀ g, w.Gauged runId g := by
    intro g
    clear row
    induction h with
    | refl =>
      refine ⟨fun _ => rfl, fun run row => ?_, fun run row => ?_⟩
      · cases row
      · cases row
    | tail h ok step ih =>
      exact gauged_step (termed_reaches h) (placed_reaches h) (fun _ _ => shaped_reaches h)
        (fun _ _ => shaped_reaches (h.tail ok step)) step ok.1 ok.2 ih
  exact ⟨(gauged .tools).work run row T, (gauged .models).work run row T⟩

namespace Sample

/-- A deployment with one tool, which may be run again. -/
def tooledCfg : Config := { cfg with tools := [⟨"pay", .atLeastOnce, false⟩] }

/-- A run that may call one tool once; its first attempt is in the body of the tool. -/
def oneTool : List Action :=
  [.submit runId "w" .none "request" ⟨none, some 1, none, none, none⟩, .claim "a" []] ++
    proceed 0 7 ++ [.call 0 none .workflow (.callTool "pay" .none)] ++ advance 0 0 8

/-- The body raises twice, and is run again each time without another look at the ceiling. -/
def twoRetries : List Action :=
  let again : List Action :=
    [.task 0 0 0 (.raise (.exception "ConnectionError" "reset"))] ++ advance 0 0 4
  again ++ again

end Sample

theorem ceilings_bound_work_once : ∃ w,
    run (World.step Sample.tooledCfg) (fun w a => oneAfterAnother w a ∧ counted w a) (.init 0)
      Sample.oneTool = some w ∧
    ∃ run, w.store.getRun Sample.runId = some run ∧ run.budget.maxToolCalls = some 1 ∧
      Gauge.tools.work w Sample.runId ≤ 1 := by
  obtain ⟨w, h, found⟩ := run_exists (World.step Sample.tooledCfg)
    (fun w a => oneAfterAnother w a ∧ counted w a) (.init 0) Sample.oneTool
    (fun w => (w.store.getRun Sample.runId).any (·.budget.maxToolCalls = some 1) = true)
    (by decide +kernel)
  obtain ⟨run, row, ceiling⟩ := (Option.any_eq_true _ _).mp found
  have ceiling : run.budget.maxToolCalls = some ((1 : Nat) : Int) := of_decide_eq_true ceiling
  exact ⟨w, h, run, row, ceiling,
    (ceilings_bound_work (run_reaches h) Sample.runId run row 1).1 ceiling⟩

/-- One attempt, without a crash and with one branch, may run a tool three times under a ceiling
of one. -/
theorem ceiling_overrun : ∃ w,
    run (World.step Sample.tooledCfg) oneAfterAnother (.init 0)
      (Sample.oneTool ++ Sample.twoRetries) = some w ∧
    (w.store.getRun Sample.runId).any (·.budget.maxToolCalls = some 1) = true ∧
    Gauge.tools.work w Sample.runId = 3 :=
  run_exists (World.step Sample.tooledCfg) oneAfterAnother (.init 0)
    (Sample.oneTool ++ Sample.twoRetries)
    (fun w => (w.store.getRun Sample.runId).any (·.budget.maxToolCalls = some 1) = true ∧
      Gauge.tools.work w Sample.runId = 3) (by decide +kernel)

end AnchorRuntime
