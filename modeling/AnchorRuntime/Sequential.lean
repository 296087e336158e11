import AnchorRuntime.Consistency
import AnchorRuntime.Outliving

/-!
# Sequential workflows

A sequential workflow awaits its calls one after another, and so does each body that calls
the context. At any moment at most one of its steps has not opened its window yet.

Results: `sole_reaches`, of attempts that follow one another one at most is under way;
`prelude_unique`, of their steps one at most has not opened its window.
-/

namespace AnchorRuntime

open Effect Machine Slots ShapeLemmas ProcLemmas TaskLemmas

/-! ## The condition -/

/-- The step waits for its body or its verifier. -/
def Stage.inUserCode : Stage → Bool
  | .running _ | .verifying => true
  | _ => false

/-- The context is called for one key at most, and only when every earlier step has ended or
is in the user code that makes the call. -/
def sequential (cfg : Config) (w : World) : Action → Prop
  | .call p _ _ c => (∀ proc ∈ w.procs[p]?, ∀ rec ∈ proc.calls, ∀ t ∈ rec.tasks,
      (t.ended || t.stage.inUserCode) = true) ∧
      ∀ names ∈ (c.names cfg).toOption, names.length ≤ 1
  | _ => True

instance (cfg : Config) (w : World) (a : Action) : Decidable (sequential cfg w a) :=
  match a with
  | .call p _ _ c => inferInstanceAs (Decidable ((∀ proc ∈ w.procs[p]?, ∀ rec ∈ proc.calls,
      ∀ t ∈ rec.tasks, (t.ended || t.stage.inUserCode) = true) ∧
      ∀ names ∈ (c.names cfg).toOption, names.length ≤ 1))
  | .submit _ _ _ _ _ | .cancel _ | .tick _ | .claim _ _ | .execute _ | .beat _ _ | .main _ _
  | .task _ _ _ _ | .stop _ => .isTrue trivial

/-! ## One attempt at a time -/

/-- Of the attempts of a run one at most is under way. -/
def World.Sole (w : World) : Prop :=
  ∀ (p q : Nat) (proc other : Proc), w.procs[p]? = some proc → w.procs[q]? = some other →
    other.loc.runId = proc.loc.runId → proc.started = true → proc.stopped = false →
    other.started = true → other.stopped = false → p = q

namespace SequentialLemmas

variable {cfg : Config} {w w' : World} {a : Action} {p q c b : Nat} {proc other : Proc}
  {rec : CallRecord} {t : Task}

/-- Where an attempt that is under way comes from: it was, or it has just begun. -/
theorem under_way (h : w.step cfg a = some w') {proc' : Proc} (hp : w'.procs[p]? = some proc')
    (began : proc'.started = true) (live : proc'.stopped = false) :
    ∃ proc, w.procs[p]? = some proc ∧ proc'.loc.runId = proc.loc.runId ∧ proc.stopped = false ∧
      (proc.started = true ∨ ∃ ans, a = .main p ans) := by
  have moved : ∀ {q : Nat} {old new : Proc}, w.procs[q]? = some old →
      w'.procs = w.procs.set q new → new.loc.runId = old.loc.runId →
      (new.stopped = false → old.stopped = false) →
      (new.started = true → old.started = true ∨ ∃ ans, a = .main q ans) →
      ∃ proc, w.procs[p]? = some proc ∧ proc'.loc.runId = proc.loc.runId ∧
        proc.stopped = false ∧ (proc.started = true ∨ ∃ ans, a = .main p ans) := by
    intro q old new hq procs run stopped started
    rw [procs] at hp
    rcases procs_set hp with ⟨rfl, rfl⟩ | ⟨-, hp⟩
    · exact ⟨old, hq, run, stopped live, started began⟩
    · exact ⟨proc', hp, rfl, live, .inl began⟩
  have added : ∀ {new : Proc}, w'.procs = w.procs ++ [new] → new.started = false →
      ∃ proc, w.procs[p]? = some proc ∧ proc'.loc.runId = proc.loc.runId ∧
        proc.stopped = false ∧ (proc.started = true ∨ ∃ ans, a = .main p ans) := by
    intro new procs fresh
    rw [procs] at hp
    rcases concat_cases hp with hp | ⟨-, rfl⟩
    · exact ⟨proc', hp, rfl, live, .inl began⟩
    · exact absurd (fresh.symm.trans began) (by simp)
  cases step_happens h with
  | submit | cancel | tick => exact ⟨proc', hp, rfl, live, .inl began⟩
  | claim => exact added rfl rfl
  | execute => exact added rfl rfl
  | beat _ hq => exact moved hq rfl rfl id .inl
  | stop hq => exact moved hq rfl rfl nofun .inl
  | main hq _ _ run => exact moved hq rfl (exec_ctx run).1 id fun _ => .inr ⟨_, rfl⟩
  | task hq _ _ _ _ run => exact moved hq rfl (exec_ctx run).1 id .inl
  | refused hq => exact moved hq rfl rfl id .inl
  | call hq => exact moved hq rfl rfl id .inl

theorem sole_step (h : w.step cfg a = some w') (ok : oneAfterAnother w a) (inv : w.Sole) :
    w'.Sole := by
  intro p q proc' other' hp hq run began live began' live'
  obtain ⟨proc, hp, sameP, live, begins⟩ := under_way h hp began live
  obtain ⟨other, hq, sameQ, live', begins'⟩ := under_way h hq began' live'
  have run : other.loc.runId = proc.loc.runId := sameQ.symm.trans (run.trans sameP)
  by_contra ne
  rcases begins with began | ⟨ans, rfl⟩
  · rcases begins' with began' | ⟨ans, rfl⟩
    · exact ne (inv p q proc other hp hq run began live began' live')
    · have stopped := ok q rfl other hq p proc hp ne run.symm began
      exact absurd (stopped.symm.trans live) (by simp)
  · rcases begins' with began' | ⟨ans', e⟩
    · have stopped := ok p rfl proc hp q other hq (Ne.symm ne) run began'
      exact absurd (stopped.symm.trans live') (by simp)
    · cases e
      exact ne rfl

/-- An attempt with steps has begun. -/
theorem began_of_task (shaped : proc.Shaped cfg) (at_ : proc.At c b rec t) :
    proc.started = true := by
  by_contra fresh
  have early := shaped.early (by rw [shaped.fresh (Bool.eq_false_iff.mpr fresh)]; trivial)
  exact absurd (at_known shaped at_) (by simp [early])

end SequentialLemmas

open SequentialLemmas

theorem sole_reaches {cfg : Config} {now : Int} {ok : World → Action → Prop} {w : World}
    (h : Reaches (World.step cfg) ok (.init now) w)
    (orderly : ∀ w a, ok w a → oneAfterAnother w a) : w.Sole :=
  h.invariant (fun _ _ _ _ hp => absurd hp (by simp [World.init]))
    fun _ _ _ _ inv ok step => sole_step step (orderly _ _ ok) inv

/-! ## One step at a time -/

/-- The stages before the step's window. -/
def Stage.prelude : Stage → Bool
  | .entry | .boundary | .leased | .uncancelled | .admitted | .starting => true
  | _ => false

/-- Of the steps of every attempt one at most is busy. -/
def World.OneBusy (busy : Task → Bool) (w : World) : Prop :=
  ∀ (p : Nat) (proc : Proc), w.procs[p]? = some proc → ∀ c b rec t c' b' rec' t',
    proc.At c b rec t → proc.At c' b' rec' t' → busy t = true → busy t' = true → c = c' ∧ b = b'

/-- Of the steps of every attempt one at most has not opened its window. -/
def World.OnePrelude (w : World) : Prop := w.OneBusy fun t => t.stage.prelude

namespace SequentialLemmas

variable {cfg : Config} {w w' : World} {a : Action} {p q c b : Nat} {proc other : Proc}
  {rec : CallRecord} {t : Task}

theorem prelude_next {s : StepSetup} {stage : Stage} {o : Op} {r : Ans o} (may : s.allowed stage o)
    (inside : (s.next stage o r).prelude = true) : stage.prelude = true := by
  have moves := StepSetup.moves may r
  generalize s.next stage o r = stage' at moves inside
  cases moves <;> first | rfl | cases inside

/-- A step that has ended, or waits for user code, is past its prelude. -/
theorem past_prelude (shaped : proc.Shaped cfg) (at_ : proc.At c b rec t)
    (idle : (t.ended || t.stage.inUserCode) = true) : t.stage.prelude = false := by
  rcases Bool.or_eq_true_iff.mp idle with ended | waits
  · have obeys := shaped.tasks c b rec t at_
    rw [Task.ended] at ended
    cases hprog : t.prog with
    | step o k =>
      rw [hprog] at ended
      cases ended
    | ret v | raise e =>
      rw [hprog] at obeys
      cases hstage : t.stage <;> first
        | rfl
        | (rw [hstage] at obeys; exact obeys.elim)
  · cases hstage : t.stage <;> first
      | rfl
      | (rw [hstage] at waits; cases waits)

/-- Calls are made one key at a time and when no step is busy, and no step gets busy by itself:
then at most one step is busy. -/
theorem oneBusy_step {busy : Task → Bool}
    (shaped : ∀ (p : Nat) (proc : Proc), w.procs[p]? = some proc → proc.Shaped cfg)
    (h : w.step cfg a = some w')
    (back : ∀ {p c b : Nat} {ans : Answer} {proc : Proc} {rec : CallRecord} {t : Task} {o : Op}
      {k : Ans o → Code Value} {r : Ans o} {loc : Local},
      TaskActs cfg w w' p c b ans proc rec t o r loc → t.prog = .step o k →
      busy { t with
        stage := (rec.call.setup cfg proc.loc.runId proc.loc.guarded t.key).next t.stage o r
        prog := k r } = true → busy t = true)
    (calls : ∀ p caller role c, a = .call p caller role c →
      (∀ proc, w.procs[p]? = some proc → ∀ c b rec t, proc.At c b rec t → busy t = false) ∧
      ∀ names, c.names cfg = .ok names → names.length ≤ 1)
    (inv : w.OneBusy busy) : w'.OneBusy busy := by
  intro q proc' hq c b rec t c' b' rec' t' at_ at' is is'
  cases attempt_cases shaped h hq with
  | same hp | beat _ _ hp | stop _ hp => exact inv q _ hp _ _ _ _ _ _ _ _ at_ at' is is'
  | fresh _ _ _ none => exact absurd at_.1 (by simp [none])
  | main _ acts => exact inv q _ acts.hp _ _ _ _ _ _ _ _ at_ at' is is'
  | @task proc c₀ b₀ ans rec₀ t₀ o k r loc _ acts hprog =>
    have before : ∀ {c b : Nat} {rec : CallRecord} {t : Task},
        Proc.At ({ proc with loc }.setTask c₀ b₀
          { t₀ with
            stage := (rec₀.call.setup cfg proc.loc.runId proc.loc.guarded t₀.key).next t₀.stage o r
            prog := k r }) c b rec t → busy t = true →
        ∃ rec₁ t₁, proc.At c b rec₁ t₁ ∧ busy t₁ = true := by
      intro c b rec t at_ is
      obtain ⟨old, -, -, ⟨rfl, rfl, rfl⟩ | ⟨-, at_old⟩⟩ :=
        at_setTask (show Proc.At { proc with loc } c₀ b₀ rec₀ t₀ from acts.at_) at_
      · exact ⟨rec₀, t₀, acts.at_, back acts hprog is⟩
      · exact ⟨old, t, at_old, is⟩
    obtain ⟨_, _, at₀, is₀⟩ := before at_ is
    obtain ⟨_, _, at₁, is₁⟩ := before at' is'
    exact inv q proc acts.hp _ _ _ _ _ _ _ _ at₀ at₁ is₀ is₁
  | refused _ hp =>
    rcases at_concat at_ with at_ | ⟨-, rfl, none⟩
    · rcases at_concat at' with at' | ⟨-, rfl, none⟩
      · exact inv q _ hp _ _ _ _ _ _ _ _ at_ at' is is'
      · cases none
    · cases none
  | @call proc _ path role call names ctx made hp _ _ _ hnames =>
    obtain ⟨idle, one⟩ := calls q _ role call made
    -- both are of the new call, which has one key
    have new : ∀ {c b : Nat} {rec : CallRecord} {t : Task}, Proc.At { proc with
          loc := { proc.loc with ctx := some (ctx.nextKeys names).2 }
          calls := proc.calls ++ [⟨path, role, proc.callsBy path role, call, none,
            proc.newTasks cfg path role call (ctx.nextKeys names).1⟩] } c b rec t →
        busy t = true → c = proc.calls.length ∧ b = 0 := by
      intro c b rec t at_ is
      rcases at_concat at_ with before | ⟨rfl, rfl, mem⟩
      · exact absurd ((idle proc hp c b rec t before).symm.trans is) (by simp)
      · obtain ⟨key, hkey, -⟩ := newTasks_get mem
        have bound := (List.getElem?_eq_some_iff.mp hkey).1
        rw [RunContext.nextKeys_length] at bound
        have one := one names hnames
        exact ⟨rfl, by omega⟩
    obtain ⟨rfl, rfl⟩ := new at_ is
    obtain ⟨rfl, rfl⟩ := new at' is'
    exact ⟨rfl, rfl⟩

theorem onePrelude_step
    (shaped : ∀ (p : Nat) (proc : Proc), w.procs[p]? = some proc → proc.Shaped cfg)
    (h : w.step cfg a = some w') (ok : sequential cfg w a) (inv : w.OnePrelude) :
    w'.OnePrelude := by
  refine oneBusy_step shaped h (fun acts _ => prelude_next acts.may) ?_ inv
  rintro p caller role c rfl
  refine ⟨fun proc hp c b rec t at_ => ?_, fun names hnames => ok.2 names (by rw [hnames]; rfl)⟩
  exact past_prelude (shaped p proc hp) at_ (ok.1 proc hp rec (List.mem_of_getElem? at_.1) t
    (List.mem_of_getElem? at_.2))

end SequentialLemmas

/-- Of the live steps of a run one at most has not opened its window. -/
theorem prelude_unique {cfg : Config} {now : Int} {ok : World → Action → Prop} {w : World}
    (h : Reaches (World.step cfg) ok (.init now) w)
    (orderly : ∀ w a, ok w a → oneAfterAnother w a) (inOrder : ∀ w a, ok w a → sequential cfg w a)
    {p q c b c' b' : Nat} {proc other : Proc} {rec rec' : CallRecord} {t t' : Task}
    (hp : w.procs[p]? = some proc) (hq : w.procs[q]? = some other)
    (live : proc.stopped = false) (live' : other.stopped = false)
    (run : other.loc.runId = proc.loc.runId) (at_ : proc.At c b rec t)
    (at' : other.At c' b' rec' t') (inside : t.stage.prelude = true)
    (inside' : t'.stage.prelude = true) : p = q ∧ c = c' ∧ b = b' := by
  have one : w.OnePrelude := h.invariant (fun _ _ hp => absurd hp (by simp [World.init]))
    fun _ _ _ reached inv ok step =>
      onePrelude_step (fun _ _ hp => shaped_reaches reached hp) step (inOrder _ _ ok) inv
  obtain rfl := sole_reaches h orderly p q proc other hp hq run
    (began_of_task (shaped_reaches h hp) at_) live (began_of_task (shaped_reaches h hq) at') live'
  obtain rfl : proc = other := Option.some.inj (hp.symm.trans hq)
  exact ⟨rfl, one p proc hp c b rec t c' b' rec' t' at_ at' inside inside'⟩

end AnchorRuntime
