import AnchorRuntime.DoubleStart
import AnchorRuntime.Outliving

/-!
# Failed steps

A StepFailed closes the window of its key and leaves nothing else behind: an attempt that loads
the log finds neither a result nor an open window under the key, and invokes the body again when
the workflow comes to the step.

Results: `failures_replayed_iff`, a recorded failure is replayed only as long as the attempt has
not got to the body; `failure_undone`, a recorded failure that the next attempt turns into a
result.
-/

namespace AnchorRuntime

open Effect Machine ShapeLemmas ProcLemmas TaskLemmas

/-! ## Replaying a failure -/

/-- The attempt has loaded a StepFailed of the key. -/
def Proc.knowsFailure (proc : Proc) (key : String) : Bool :=
  proc.loc.ctx.any fun ctx => logged key Payload.isFailure ctx.loaded

/-- Attempt `p` has invoked the body of the key. -/
def World.invokedBy (w : World) (p : Nat) (runId : Uuid) (key : String) : Bool :=
  (w.invocations runId key).any (·.proc = p)

/-- Where `_step_with_key` raises StepFailedError: the last try has failed, or none is left. -/
def Stage.fails : Stage → Bool
  | .failed _ _ | .ready _ _ => true
  | _ => false

/-- Whatever an attempt calls whose StepFailed it has loaded raises StepFailedError, and its body
is not invoked. -/
def World.ReplaysFailures (w : World) : Prop :=
  ∀ p < w.procs.length, ∀ proc ∈ w.procs[p]?, ∀ rec ∈ proc.calls, ∀ t ∈ rec.tasks,
    proc.knowsFailure t.key = true → w.invokedBy p proc.loc.runId t.key = false ∧
      (t.ended = true → t.stage.fails = true)

instance (w : World) : Decidable w.ReplaysFailures :=
  inferInstanceAs (Decidable (∀ p < w.procs.length, ∀ proc ∈ w.procs[p]?, ∀ rec ∈ proc.calls,
    ∀ t ∈ rec.tasks, proc.knowsFailure t.key = true →
      w.invokedBy p proc.loc.runId t.key = false ∧ (t.ended = true → t.stage.fails = true)))

/-- The step has not come to its body. -/
def Stage.unentered : Stage → Bool
  | .ready n _ => n ≤ 1
  | .running _ | .returned _ _ | .raised _ _ | .waiting _ | .failed _ _ | .recorded _ | .saved _
  | .billed _ | .metered _ | .closed _ | .escaped _ => false
  | _ => true

/-- The step is cut off before its body, or is one that allows no try. -/
def Task.spared (attempts : Int) (t : Task) : Bool :=
  if t.ended then attempts < 1 && t.stage.trying.isSome else t.stage.unentered

/-- No attempt gets to the body of a step, or to its end, whose StepFailed it has loaded. -/
def World.SparesFailures (cfg : Config) (w : World) : Prop :=
  ∀ p < w.procs.length, ∀ proc ∈ w.procs[p]?, ∀ rec ∈ proc.calls, ∀ t ∈ rec.tasks,
    proc.knowsFailure t.key = true → t.spared (rec.call.attempts cfg) = true

/-! ## The tries of a step -/

/-- The operation enters the body of a step. -/
def Op.entersBody : Op → Bool
  | .enter u => u.invocation.isSome
  | _ => false

/-- Where a step is in its tries; `invoked` says that its attempt has invoked the body. -/
def Stage.Tried (attempts : Int) (invoked : Prop) : Stage → Prop
  | .ready n _ => n = 1 ∧ ¬ invoked ∨ 1 < n ∧ (n : Int) ≤ attempts ∧ invoked
  | .waiting n => 0 < n ∧ (n : Int) < attempts ∧ invoked
  | .running n | .returned n _ | .raised n _ => 0 < n ∧ invoked
  | .failed _ _ | .recorded _ | .saved _ | .billed _ | .metered _ | .closed _ => invoked
  | .escaped _ => True
  | _ => ¬ invoked

/-- The steps of all attempts are in their tries, and nothing else invokes a body. -/
structure World.Tried (cfg : Config) (w : World) : Prop where
  stage : ∀ (p : Nat) (proc : Proc), w.procs[p]? = some proc → ∀ c b rec t, proc.At c b rec t →
    t.stage.Tried (rec.call.attempts cfg) (w.invokedBy p proc.loc.runId t.key = true)
  invoked : ∀ p runId key, w.invokedBy p runId key = true →
    ∃ rec t, w.HasTask runId key p rec t

namespace FailedStepLemmas

variable {cfg : Config} {w w' : World} {a : Action} {p c b : Nat} {proc : Proc}
  {rec : CallRecord} {t : Task} {runId : Uuid} {key : String}

theorem tried_congr {attempts : Int} {old new : Prop} {stage : Stage} (same : new ↔ old)
    (tried : stage.Tried attempts old) : stage.Tried attempts new := by
  rw [propext same]
  exact tried

/-- A step that enters its body has invoked it, and nothing else it does has. -/
theorem tried_next {s : StepSetup} {stage : Stage} {o : Op} {r : Ans o} {old new : Prop}
    (may : s.allowed stage o) (news : new ↔ old ∨ o.entersBody = true)
    (tried : stage.Tried s.attempts old) : (s.next stage o r).Tried s.attempts new := by
  have quiet : o.entersBody = false → (new ↔ old) := fun none => by simp [news, none]
  have moves := StepSetup.moves may r
  generalize s.next stage o r = stage' at moves ⊢
  cases moves with
  | again | start => exact .inl ⟨rfl, mt (quiet rfl).mp tried⟩
  | addToolCall => exact tried_congr (quiet rfl) tried
  | @enter n _ _ _ _ is =>
    have pos : 0 < n := tried.elim (fun first => by omega) (fun later => by omega)
    exact ⟨pos, news.mpr (.inr (by rw [is, Op.entersBody, s.body_invocation]; rfl))⟩
  | returned | raised => exact ⟨tried.1, (quiet rfl).mpr tried.2⟩
  | complete | fail => exact (quiet rfl).mpr tried.2
  | retry _ _ left => exact ⟨tried.1, left, (quiet rfl).mpr tried.2⟩
  | sleep n =>
    obtain ⟨pos, left, invoked⟩ := tried
    exact .inr ⟨by omega, by push_cast; omega, (quiet rfl).mpr invoked⟩
  | raise => trivial
  | lost | cancelled | verifierRaised => trivial
  | record | countExecuted | saveUsage | addModelUsage | saveBill | invoked | called =>
    exact (quiet rfl).mpr tried
  | _ => exact mt (quiet rfl).mp tried

theorem invokedBy_mono
    (shaped : ∀ (p : Nat) (proc : Proc), w.procs[p]? = some proc → proc.Shaped cfg)
    (h : w.step cfg a = some w') (invoked : w.invokedBy p runId key = true) :
    w'.invokedBy p runId key = true := by
  unfold World.invokedBy at invoked ⊢
  rcases invocations_step shaped h runId key with same | ⟨m, more, -⟩
  · rw [same]
    exact invoked
  · rw [more, List.any_append, invoked, Bool.true_or]

/-- Who has invoked a body now had done so before, or is the task that has just entered it. -/
theorem invokedBy_cases
    (shaped : ∀ (p : Nat) (proc : Proc), w.procs[p]? = some proc → proc.Shaped cfg)
    (h : w.step cfg a = some w') (invoked : w'.invokedBy p runId key = true) :
    w.invokedBy p runId key = true ∨ ∃ c b ans proc rec t, a = .task p c b ans ∧
      w.procs[p]? = some proc ∧ proc.At c b rec t ∧ t.key = key ∧ proc.loc.runId = runId ∧
      t.prog.next.any Op.entersBody = true := by
  unfold World.invokedBy at invoked ⊢
  rcases invocations_step shaped h runId key with same | ⟨m, more, enters⟩
  · exact .inl (same ▸ invoked)
  · rw [more, List.any_append, Bool.or_eq_true] at invoked
    refine invoked.imp id fun mine => ?_
    cases enters with
    | task hp _ at_ hkey run _ _ who _ _ is next =>
      obtain rfl : _ = p := who.symm.trans (by simpa using mine)
      exact ⟨_, _, _, _, _, _, rfl, hp, at_, hkey, run, by rw [next]; simp [Op.entersBody, is]⟩

/-- Who enters the body of its key has invoked it. -/
theorem acts_invoked {ans : Answer} {o : Op} {r : Ans o} {loc : Local}
    (acts : TaskActs cfg w w' p c b ans proc rec t o r loc) (enters : o.entersBody = true) :
    w'.invokedBy p proc.loc.runId t.key = true := by
  obtain ⟨k, -, after⟩ := acts.after
  cases o with
  | enter u =>
    obtain ⟨⟨key, token, n⟩, is⟩ := Option.isSome_iff_exists.mp enters
    obtain ⟨-, -, rfl, -⟩ := InvocationLemmas.allowed_enter acts.may is
    rw [after]
    simp [World.invokedBy, World.invocations, World.moment, observed, Moment.invokes, is,
      Call.setup]
  | _ => cases enters

theorem stage_step
    (shaped : ∀ (p : Nat) (proc : Proc), w.procs[p]? = some proc → proc.Shaped cfg)
    (h : w.step cfg a = some w') (inv : w.Tried cfg) {q : Nat} {proc' : Proc} {rec' : CallRecord}
    {t' : Task} (hq : w'.procs[q]? = some proc') (at' : proc'.At c b rec' t') :
    t'.stage.Tried (rec'.call.attempts cfg)
      (w'.invokedBy q proc'.loc.runId t'.key = true) := by
  cases task_cases shaped h hq at' with
  | @same proc rec _ old at_ call key _ elsewhere =>
    have tried := inv.stage q proc old c b rec t' at_
    rw [call.call, key.runId]
    refine tried_congr ⟨fun invoked => ?_, invokedBy_mono shaped h⟩ tried
    refine (invokedBy_cases shaped h invoked).resolve_right ?_
    rintro ⟨c₂, b₂, ans, proc₂, rec₂, t₂, rfl, hp₂, at₂, hkey, -, -⟩
    obtain rfl := Option.some.inj (old.symm.trans hp₂)
    obtain ⟨rfl, rfl⟩ := at_key_inj (shaped _ _ old).nodup at_ at₂ hkey.symm
    exact elsewhere ans rfl
  | @moved proc rec t ans o k r is old alive at_ call prog run may =>
    subst is
    obtain ⟨_, _, _, o', r', loc, acts⟩ := task_acts shaped h
    obtain rfl := Option.some.inj (old.symm.trans acts.hp)
    obtain rfl := Option.some.inj (at_.1.symm.trans acts.at_.1)
    obtain rfl := Option.some.inj (at_.2.symm.trans acts.at_.2)
    obtain ⟨k', prog', -⟩ := acts.after
    obtain ⟨rfl, -⟩ := Prog.step.inj (prog.symm.trans prog')
    rw [call.call, (exec_ctx run).1]
    refine tried_next may ⟨fun invoked => ?_, ?_⟩ (inv.stage q proc old c b rec t at_)
    · refine (invokedBy_cases shaped h invoked).imp id ?_
      rintro ⟨c₂, b₂, ans₂, proc₂, rec₂, t₂, is, hp₂, at₂, -, -, enters⟩
      cases is
      obtain rfl := Option.some.inj (old.symm.trans hp₂)
      obtain rfl := Option.some.inj (at_.1.symm.trans at₂.1)
      obtain rfl := Option.some.inj (at_.2.symm.trans at₂.2)
      rw [prog] at enters
      exact enters
    · rintro (invoked | enters)
      · exact invokedBy_mono shaped h invoked
      · show w'.invokedBy q proc.loc.runId t.key = true
        exact acts_invoked acts enters
  | @called proc key _ _ old _ fresh run elsewhere =>
    have unknown : ∀ {proc₂ : Proc} {c₂ b₂ : Nat} {rec₂ : CallRecord} {t₂ : Task},
        w.procs[q]? = some proc₂ → proc₂.At c₂ b₂ rec₂ t₂ → t₂.key ≠ key := by
      rintro proc₂ c₂ b₂ rec₂ t₂ hp at_ rfl
      obtain rfl := Option.some.inj (old.symm.trans hp)
      exact fresh (at_key_mem at_)
    intro invoked
    rcases invokedBy_cases shaped h invoked with
      before | ⟨_, _, _, _, _, _, -, hp, at_, hkey, -⟩
    · obtain ⟨_, _, _, _, _, hp, -, at_, hkey⟩ := inv.invoked _ _ _ before
      exact unknown hp at_ hkey
    · exact unknown hp at_ hkey

theorem tried_step
    (shaped : ∀ (p : Nat) (proc : Proc), w.procs[p]? = some proc → proc.Shaped cfg)
    (h : w.step cfg a = some w') (inv : w.Tried cfg) : w'.Tried cfg where
  stage _ _ hq _ _ _ _ at' := stage_step shaped h inv hq at'
  invoked p runId key invoked := by
    have stays : ∀ {rec t}, w.HasTask runId key p rec t →
        ∃ rec t, w'.HasTask runId key p rec t := by
      rintro rec t ⟨proc, c, b, hp, run, at_, hkey⟩
      obtain ⟨proc', rec', t', hp', run', at', -, hkey', -⟩ := task_persists h hp at_
      exact ⟨rec', t', proc', c, b, hp', run'.trans run, at', hkey'.trans hkey⟩
    rcases invokedBy_cases shaped h invoked with
      before | ⟨c, b, _, proc, rec, t, -, hp, at_, hkey, run, -⟩
    · obtain ⟨_, _, has⟩ := inv.invoked p runId key before
      exact stays has
    · exact stays ⟨proc, c, b, hp, run, at_, hkey⟩

theorem tried_reaches {now : Int} {ok : World → Action → Prop}
    (h : Reaches (World.step cfg) ok (.init now) w) : w.Tried cfg := by
  induction h with
  | refl =>
    refine ⟨fun p proc hp => ?_, fun p runId key invoked => ?_⟩
    · exact absurd hp (by simp [World.init])
    · exact absurd invoked (by simp [World.invokedBy, World.invocations, World.init])
  | tail h _ hs ih => exact tried_step (fun _ _ => shaped_reaches h) hs ih

/-- A step that goes on has not been left by an exception. -/
theorem escaped_ended (shaped : proc.Shaped cfg) (at_ : proc.At c b rec t)
    (going : t.ended = false) (exc : Exn) : t.stage ≠ .escaped exc := by
  intro escaped
  rw [Task.ended] at going
  cases hprog : t.prog with
  | step o k =>
    have may := task_allowed shaped at_ hprog
    rw [escaped] at may
    exact may
  | ret | raise =>
    rw [hprog] at going
    cases going

/-- What a step does about a failure depends on how far it has got, and on nothing else. -/
theorem spared_iff (shaped : proc.Shaped cfg) (at_ : proc.At c b rec t) {invoked : Bool}
    (tried : t.stage.Tried (rec.call.attempts cfg) (invoked = true)) :
    (invoked = false ∧ (t.ended = true → t.stage.fails = true)) ↔
      t.spared (rec.call.attempts cfg) = true := by
  unfold Task.spared
  cases isOver : t.ended with
  | false =>
    have going := escaped_ended shaped at_ isOver
    generalize t.stage = stage at tried going ⊢
    cases stage with
    | escaped exc => exact absurd rfl (going exc)
    | ready n counted =>
      rcases tried with ⟨rfl, none⟩ | ⟨later, -, rfl⟩
      · simpa [Stage.unentered] using none
      · simp [Stage.unentered, later]
    | waiting => simp [Stage.unentered, tried.2.2]
    | running | returned | raised => simp [Stage.unentered, tried.2]
    | failed | recorded | saved | billed | metered | closed =>
      have invoked : invoked = true := tried
      simp [Stage.unentered, invoked]
    | _ =>
      have none : ¬ invoked = true := tried
      simpa [Stage.unentered] using none
  | true =>
    obtain ⟨r, ending⟩ := OutlivingLemmas.ended_ending isOver
    have ends := ending_ends shaped at_ ending
    generalize t.stage = stage at tried ends ⊢
    cases stage with
    | ready n counted =>
      have none_left : rec.call.attempts cfg < n := ends.1
      rcases tried with ⟨rfl, none⟩ | ⟨-, left, -⟩
      · have none_left : rec.call.attempts cfg < 1 := none_left
        simpa [Stage.fails, Stage.trying, none_left] using none
      · exact absurd left (not_le.mpr none_left)
    | failed =>
      have invoked : invoked = true := tried
      simp [Stage.trying, invoked]
    | _ => simp [Stage.fails, Stage.trying]

end FailedStepLemmas

open FailedStepLemmas

/-- A failed step is replayed as failed exactly as long as no attempt that has loaded the failure
gets to the body, or to the end of a step that has a try. -/
theorem failures_replayed_iff {cfg : Config} {now : Int} {ok : World → Action → Prop} {w : World}
    (h : Reaches (World.step cfg) ok (.init now) w) :
    w.ReplaysFailures ↔ w.SparesFailures cfg := by
  have each : ∀ (p : Nat) (proc : Proc), w.procs[p]? = some proc → ∀ rec ∈ proc.calls,
      ∀ t ∈ rec.tasks, ((w.invokedBy p proc.loc.runId t.key = false ∧
        (t.ended = true → t.stage.fails = true)) ↔ t.spared (rec.call.attempts cfg) = true) := by
    intro p proc hp rec hrec t ht
    obtain ⟨c, hc⟩ := List.mem_iff_getElem?.mp hrec
    obtain ⟨b, hb⟩ := List.mem_iff_getElem?.mp ht
    exact spared_iff (shaped_reaches h hp) ⟨hc, hb⟩
      ((tried_reaches h).stage p proc hp c b rec t ⟨hc, hb⟩)
  refine ⟨fun replays p there proc hp rec hrec t ht failed => ?_,
    fun spares p there proc hp rec hrec t ht failed => ?_⟩
  · exact (each p proc hp rec hrec t ht).mp (replays p there proc hp rec hrec t ht failed)
  · exact (each p proc hp rec hrec t ht).mpr (spares p there proc hp rec hrec t ht failed)

/-- An attempt whose step fails, after three tries, and that crashes before the run is failed;
the next one loads the failure and calls the step again. -/
def Sample.failedStep : List Action :=
  let raises : Action := .task 0 0 0 (.raise (.exception "ConnectionError" "reset"))
  opening ++ [calls 0 "x" .atLeastOnce] ++ advance 0 0 7 ++ [raises] ++ advance 0 0 3 ++
    [raises] ++ advance 0 0 3 ++ [raises] ++ advance 0 0 1 ++
    [.stop 0, .tick 31000000, .claim "b" []] ++ proceed 1 8 ++ [calls 1 "x" .atLeastOnce]

theorem failures_replayed_iff_cut : ∃ w,
    run (World.step Sample.cfg) oneAfterAnother (.init 0)
      (Sample.failedStep ++ Sample.advance 1 0 5) = some w ∧
    (w.procs[1]?.any fun proc => proc.knowsFailure "x#1") = true ∧
    (w.ReplaysFailures ↔ w.SparesFailures Sample.cfg) := by
  obtain ⟨w, h, failed⟩ := run_exists (World.step Sample.cfg) oneAfterAnother (.init 0)
    (Sample.failedStep ++ Sample.advance 1 0 5)
    (fun w => (w.procs[1]?.any fun proc => proc.knowsFailure "x#1") = true) (by decide +kernel)
  exact ⟨w, h, failed, failures_replayed_iff (run_reaches h)⟩

/-- The next attempt gets through the step: its body returns, and the result is recorded. -/
def Sample.failedThenDone : List Action :=
  failedStep ++ advance 1 0 7 ++ [.task 1 0 0 (.value (.int 5)), .task 1 0 0 .done]

/-- The failure and a result are both in the log, of attempts that followed one another. -/
theorem failure_undone : ∃ w,
    run (World.step Sample.cfg) oneAfterAnother (.init 0) Sample.failedThenDone = some w ∧
    logged "x#1" Payload.isFailure (w.store.loadEvents Sample.runId) = true ∧
    logged "x#1" Payload.isCompletion (w.store.loadEvents Sample.runId) = true ∧
    ¬ w.ReplaysFailures :=
  run_exists (World.step Sample.cfg) oneAfterAnother (.init 0) Sample.failedThenDone
    (fun w => logged "x#1" Payload.isFailure (w.store.loadEvents Sample.runId) = true ∧
      logged "x#1" Payload.isCompletion (w.store.loadEvents Sample.runId) = true ∧
      ¬ w.ReplaysFailures) (by decide +kernel)

end AnchorRuntime
