import AnchorRuntime.AtMostOnce
import AnchorRuntime.Overlap

/-!
# Double starts

An at-most-once body is kept to one worker by its start in the log, which another attempt
finds when it loads the log. A start that is written after another attempt has loaded the
log, and before that one opens its own window, is found by nobody.

Results: `started_once`, when nobody opens the window of an at-most-once key that has been
started since the log was loaded, the body is invoked once at most over all workers.
-/

namespace AnchorRuntime

open Effect Machine ShapeLemmas ProcLemmas

/-! ## The condition -/

/-- The step opens a new window next. -/
def Stage.opens : Stage → Bool
  | .starting => true
  | _ => false

/-- Whether the attempt has loaded a start of the key, if the log has one. -/
def Proc.knowsStart (proc : Proc) (log : List Event) (key : String) : Bool :=
  !logged key Payload.isStart log ||
    proc.loc.ctx.all fun ctx => logged key Payload.isStart ctx.loaded

/-- An at-most-once step opens a window only when its attempt has loaded a start of the key,
if the log has one. -/
def startsKnown (cfg : Config) (w : World) : Action → Prop
  | .task p c b _ => ∀ proc ∈ w.procs[p]?, ∀ rec ∈ proc.calls[c]?, ∀ t ∈ rec.tasks[b]?,
    rec.call.idempotency cfg = .atMostOnce → t.stage.opens = true →
      proc.knowsStart (w.store.loadEvents proc.loc.runId) t.key = true
  | _ => True

instance (cfg : Config) (w : World) (a : Action) : Decidable (startsKnown cfg w a) :=
  match a with
  | .task p c b _ => inferInstanceAs (Decidable (∀ proc ∈ w.procs[p]?, ∀ rec ∈ proc.calls[c]?,
      ∀ t ∈ rec.tasks[b]?, rec.call.idempotency cfg = .atMostOnce → t.stage.opens = true →
        proc.knowsStart (w.store.loadEvents proc.loc.runId) t.key = true))
  | .submit _ _ _ _ _ | .cancel _ | .tick _ | .claim _ _ | .execute _ | .beat _ _ | .main _ _
  | .call _ _ _ _ | .stop _ => .isTrue trivial

/-- The body of the key is running. -/
def Task.inBody (key : String) (t : Task) : Bool :=
  t.key = key && match t.stage with
    | .running _ => true
    | _ => false

/-- The first invocation of the key's body does not raise. -/
def returnsFirst (runId : Uuid) (key : String) (w : World) : Action → Prop
  | .task p c b ans => ∀ proc ∈ w.procs[p]?, ∀ rec ∈ proc.calls[c]?, ∀ t ∈ rec.tasks[b]?,
    proc.loc.runId = runId → t.inBody key = true → (w.invocations runId key).length ≤ 1 →
      ans.raises = false
  | _ => True

instance (runId : Uuid) (key : String) (w : World) (a : Action) :
    Decidable (returnsFirst runId key w a) :=
  match a with
  | .task p c b ans => inferInstanceAs (Decidable (∀ proc ∈ w.procs[p]?, ∀ rec ∈ proc.calls[c]?,
      ∀ t ∈ rec.tasks[b]?, proc.loc.runId = runId → t.inBody key = true →
        (w.invocations runId key).length ≤ 1 → ans.raises = false))
  | .submit _ _ _ _ _ | .cancel _ | .tick _ | .claim _ _ | .execute _ | .beat _ _ | .main _ _
  | .call _ _ _ _ | .stop _ => .isTrue trivial

/-! ## The invariant -/

/-- The stages of a try that may still return. -/
def Stage.tries : Stage → Bool
  | .ready _ _ | .running _ | .returned _ _ => true
  | _ => false

/-- No try has raised; `uninvoked` says that the body was never invoked. -/
def Stage.Calm (uninvoked : Prop) : Stage → Prop
  | .ready n _ => n = 1 ∧ uninvoked
  | .raised _ _ | .waiting _ | .failed _ _ => False
  | _ => True

/-- Attempt `p` of the run has a task on the key, at a stage. -/
def World.HasTask (w : World) (runId : Uuid) (key : String) (p : Nat) (rec : CallRecord)
    (t : Task) : Prop :=
  ∃ proc c b, w.procs[p]? = some proc ∧ proc.loc.runId = runId ∧ proc.At c b rec t ∧ t.key = key

structure World.Single (w : World) (runId : Uuid) (key : String) : Prop where
  once : (w.invocations runId key).length ≤ 1
  unfailed : logged key Payload.isFailure (w.store.loadEvents runId) = false
  unstarted : logged key Payload.isStart (w.store.loadEvents runId) = false →
    w.invocations runId key = []
  calm : ∀ p rec t, w.HasTask runId key p rec t → t.stage.Calm (w.invocations runId key = [])
  started : ∀ p rec t, w.HasTask runId key p rec t → t.stage.tries = true →
    logged key Payload.isStart (w.store.loadEvents runId) = true
  unique : ∀ p q rec rec' t t', w.HasTask runId key p rec t → w.HasTask runId key q rec' t' →
    t.stage.tries = true → t'.stage.tries = true → p = q

namespace DoubleStartLemmas

variable {cfg : Config} {w w' : World} {a : Action} {runId : Uuid} {key : String}

theorem tries_next {s : StepSetup} {stage : Stage} {o : Op} {r : Ans o} {uninvoked : Prop}
    (amo : s.idempotency = .atMostOnce) (may : s.allowed stage o) (calm : stage.Calm uninvoked)
    (tries : (s.next stage o r).tries = true) :
    stage.tries = true ∨ (stage = .starting ∧ ∃ seq, o = .appendEvent (some s.key)
      (.stepStarted s.token.str) ∧ HEq r (.ok seq : Except Exn (Option Nat))) := by
  have moves := StepSetup.moves may r
  generalize s.next stage o r = stage' at moves tries
  cases moves with
  | start seq => exact .inr ⟨rfl, seq, rfl, HEq.rfl⟩
  | again seq class_ => exact absurd (amo.symm.trans class_) (by decide)
  | sleep => exact calm.elim
  | addToolCall | enter | returned => exact .inl rfl
  | _ => cases tries

theorem calm_next {s : StepSetup} {stage : Stage} {o : Op} {r : Ans o} {old new : Prop}
    (amo : s.idempotency = .atMostOnce) (may : s.allowed stage o) (calm : stage.Calm old)
    (returns : ∀ n u exc, stage = .running n → o = .leave u →
      ¬ HEq r (.error exc : Except Exn Value))
    (start : stage = .starting → new) (keep : o = .addToolCall → old → new) :
    (s.next stage o r).Calm new := by
  have moves := StepSetup.moves may r
  generalize s.next stage o r = stage' at moves ⊢
  cases moves with
  | start seq => exact ⟨rfl, start rfl⟩
  | again seq class_ => exact absurd (amo.symm.trans class_) (by decide)
  | addToolCall => exact ⟨calm.1, keep rfl calm.2⟩
  | raised exc => exact absurd HEq.rfl (returns _ _ exc rfl rfl)
  | retry | fail | sleep => exact calm.elim
  | _ => trivial

/-- Where a task on the key comes from. -/
theorem hasTask_cases
    (shaped : ∀ (p : Nat) (proc : Proc), w.procs[p]? = some proc → proc.Shaped cfg)
    (h : w.step cfg a = some w') {p : Nat} {rec' : CallRecord} {t' : Task}
    (has : w'.HasTask runId key p rec' t') :
    (∃ rec, w.HasTask runId key p rec t' ∧ ∀ proc c b ans, w.procs[p]? = some proc →
        proc.At c b rec t' → a ≠ .task p c b ans) ∨ t'.stage = .entry ∨
      ∃ c b ans proc rec t o r loc, a = .task p c b ans ∧
        TaskActs cfg w w' p c b ans proc rec t o r loc ∧ w.HasTask runId key p rec t ∧
        proc.loc.runId = runId ∧ t.key = key ∧
        t'.stage = (rec.call.setup cfg proc.loc.runId proc.loc.guarded t.key).next t.stage o r := by
  obtain ⟨proc', c, b, hp', run, at', hkey⟩ := has
  cases task_cases shaped h hp' at' with
  | @same proc rec _ hp at_ _ same _ elsewhere =>
    refine .inl ⟨rec, ⟨proc, c, b, hp, same.runId.symm.trans run, at_, hkey⟩, ?_⟩
    intro proc₂ c₂ b₂ ans hp₂ at₂
    cases hp.symm.trans hp₂
    obtain ⟨rfl, rfl⟩ := at_key_inj (shaped _ _ hp).nodup at_ at₂ rfl
    exact elsewhere ans
  | called => exact .inr (.inl rfl)
  | @moved proc rec t ans o k r act hp alive at_ call hprog hexec may =>
    subst act
    obtain ⟨_, _, _, o', r', loc, acts⟩ := task_acts shaped h
    cases hp.symm.trans acts.hp
    cases at_.1.symm.trans acts.at_.1
    cases at_.2.symm.trans acts.at_.2
    have run : proc.loc.runId = runId := (exec_ctx hexec).1.symm.trans run
    obtain ⟨proc₂, rec₂, t₂, hp₂, -, at₂, -, -, stage⟩ := acts.moved
    cases hp'.symm.trans hp₂
    cases at'.1.symm.trans at₂.1
    cases at'.2.symm.trans at₂.2
    exact .inr (.inr ⟨c, b, ans, proc, rec, t, o', r', loc, rfl, acts,
      ⟨proc, c, b, hp, run, at_, hkey⟩, run, hkey, stage⟩)

theorem hasTask_class (amo : w.AtMostOnce cfg runId key) {p : Nat} {rec : CallRecord} {t : Task}
    (has : w.HasTask runId key p rec t) : rec.call.idempotency cfg = .atMostOnce := by
  obtain ⟨proc, c, b, hp, run, at_, hkey⟩ := has
  exact AtMostOnceLemmas.atMostOnce_at amo hp run at_ hkey

/-- Who enters the body of the key is a task at a try. -/
theorem enters_hasTask {m : Moment} (h : Enters cfg w runId key a m) :
    ∃ p c b ans proc rec t n, a = .task p c b ans ∧ w.procs[p]? = some proc ∧
      proc.At c b rec t ∧ t.key = key ∧ w.HasTask runId key p rec t ∧ t.stage.trying = some n := by
  cases h with
  | task hp _ at_ hkey run stage =>
    exact ⟨_, _, _, _, _, _, _, _, rfl, hp, at_, hkey, ⟨_, _, _, hp, run, at_, hkey⟩, stage⟩

/-- An at-most-once step opens its window only if the log has no start of the key. -/
theorem opens_unstarted {p c b : Nat} {ans : Answer} {proc : Proc} {rec : CallRecord} {t : Task}
    {o : Op} {r : Ans o} {loc : Local}
    (shaped : ∀ (p : Nat) (proc : Proc), w.procs[p]? = some proc → proc.Shaped cfg)
    (recalls : w.Recalls) (loaded : w.Loaded) (inv : w.Single runId key)
    (ok : startsKnown cfg w (.task p c b ans))
    (acts : TaskActs cfg w w' p c b ans proc rec t o r loc) (run : proc.loc.runId = runId)
    (hkey : t.key = key) (amo : rec.call.idempotency cfg = .atMostOnce)
    (starting : t.stage = .starting) :
    logged key Payload.isStart (w.store.loadEvents runId) = false := by
  have known := ok proc acts.hp rec acts.at_.1 t acts.at_.2 amo (by rw [starting]; rfl)
  obtain ⟨ctx, hctx⟩ :=
    Option.isSome_iff_exists.mp (TaskLemmas.at_known (shaped _ _ acts.hp) acts.at_)
  have asked := recalls.tasks p proc acts.hp ctx hctx c b rec t acts.at_
  rw [starting] at asked
  cases has : logged key Payload.isStart (w.store.loadEvents runId) with
  | false => rfl
  | true =>
    -- the start would have been loaded, and then remembered
    simp only [Proc.knowsStart, run, hkey, has, hctx, Bool.not_true, Bool.false_or,
      Option.all_some] at known
    obtain ⟨rest, prefix_⟩ := loaded.ctx p proc acts.hp ctx hctx
    have unfailed := inv.unfailed
    rw [← run, ← prefix_, LifecycleLemmas.logged_append, Bool.or_eq_false_iff] at unfailed
    obtain ⟨completed, unresolved⟩ := asked
    rw [hkey] at completed unresolved
    rcases (recalls.ctx p proc acts.hp ctx hctx).started key known unfailed.1 with some_ | some_
    · simp [completed] at some_
    · simp [unresolved] at some_

/-- An invocation is made at a try, and was the first. -/
theorem invoked_first {m : Moment} (inv : w.Single runId key)
    (enters : Enters cfg w runId key a m) : w.invocations runId key = [] := by
  obtain ⟨p, _, _, _, _, _, _, _, -, -, -, -, has, stage⟩ := enters_hasTask enters
  have calm := inv.calm p _ _ has
  obtain ⟨counted, stage⟩ := InvocationLemmas.trying_eq stage
  rw [stage] at calm
  exact calm.2

section

variable (shaped : ∀ (p : Nat) (proc : Proc), w.procs[p]? = some proc → proc.Shaped cfg)
  (h : w.step cfg a = some w') (inv : w.Single runId key)

include shaped h inv

/-- While a task at a try does nothing, nobody invokes the body. -/
theorem invocations_still {p : Nat} {rec : CallRecord} {t : Task}
    (has : w.HasTask runId key p rec t) (tries : t.stage.tries = true)
    (elsewhere : ∀ proc c b ans, w.procs[p]? = some proc → proc.At c b rec t →
      a ≠ .task p c b ans) :
    w'.invocations runId key = w.invocations runId key := by
  rcases invocations_step shaped h runId key with same | ⟨m, -, enters⟩
  · exact same
  · obtain ⟨q, c, b, ans, proc, rec', t', n, rfl, hq, at', hkey', has', stage⟩ :=
      enters_hasTask enters
    obtain ⟨counted, stage⟩ := InvocationLemmas.trying_eq stage
    obtain rfl := inv.unique p q rec rec' t t' has has' tries (by rw [stage]; rfl)
    obtain ⟨proc₂, c₂, b₂, hp₂, -, at₂, hkey₂⟩ := has
    cases hq.symm.trans hp₂
    obtain ⟨rfl, rfl⟩ := at_key_inj (shaped _ _ hq).nodup at' at₂ (hkey'.trans hkey₂.symm)
    cases at'.1.symm.trans at₂.1
    cases at'.2.symm.trans at₂.2
    exact absurd rfl (elsewhere proc c b ans hq at')

theorem single_once : (w'.invocations runId key).length ≤ 1 := by
  rcases invocations_step shaped h runId key with same | ⟨m, one, enters⟩
  · rw [same]
    exact inv.once
  · simp [one, invoked_first inv enters]

/-- No step of the key fails before its body has raised. -/
theorem single_unfailed (numbered : w.store.Numbered) :
    logged key Payload.isFailure (w'.store.loadEvents runId) = false := by
  obtain ⟨es, log, -⟩ := log_step numbered shaped h runId
  rw [log, LifecycleLemmas.logged_append, inv.unfailed, Bool.false_or]
  cases failed : logged key Payload.isFailure es with
  | false => rfl
  | true =>
    obtain ⟨e, mem, under⟩ := List.any_eq_true.mp failed
    obtain ⟨p, c, b, ans, proc, rec, t, r, loc, rfl, acts, hkey, run, -⟩ :=
      event_cases numbered shaped h log mem
        (LifecycleLemmas.under_concerns under LifecycleLemmas.failure_lifecycle)
    have calm := inv.calm p rec t ⟨proc, c, b, acts.hp, run, acts.at_, hkey⟩
    simp only [Event.under, Bool.and_eq_true] at under
    obtain ⟨n, exc, raised⟩ := failure_raised acts.may under.2
    rw [raised] at calm
    exact calm.elim

/-- Nobody invokes the body before its start is in the log. -/
theorem single_unstarted (numbered : w.store.Numbered)
    (unstarted : logged key Payload.isStart (w'.store.loadEvents runId) = false) :
    w'.invocations runId key = [] := by
  obtain ⟨es, log, -⟩ := log_step numbered shaped h runId
  have before : logged key Payload.isStart (w.store.loadEvents runId) = false := by
    rw [log, LifecycleLemmas.logged_append, Bool.or_eq_false_iff] at unstarted
    exact unstarted.1
  rcases invocations_step shaped h runId key with same | ⟨m, -, enters⟩
  · rw [same]
    exact inv.unstarted before
  · obtain ⟨p, _, _, _, _, _, _, _, -, -, -, -, has, stage⟩ := enters_hasTask enters
    obtain ⟨counted, stage⟩ := InvocationLemmas.trying_eq stage
    have started := inv.started p _ _ has (by rw [stage]; rfl)
    exact absurd (started.symm.trans before) (by decide)

theorem single_calm (recalls : w.Recalls) (loaded : w.Loaded) (ok : startsKnown cfg w a)
    (returns : returnsFirst runId key w a) (amo : w.AtMostOnce cfg runId key) {p : Nat}
    {rec' : CallRecord} {t' : Task} (has : w'.HasTask runId key p rec' t') :
    t'.stage.Calm (w'.invocations runId key = []) := by
  rcases hasTask_cases shaped h has with ⟨rec, old, elsewhere⟩ | entry |
    ⟨c, b, ans, proc, rec, t, o, r, loc, rfl, acts, old, run, hkey, stage⟩
  · have calm := inv.calm p rec t' old
    cases hs : t'.stage with
    | ready n =>
      rw [hs] at calm
      rw [invocations_still shaped h inv old (by rw [hs]; rfl) elsewhere]
      exact calm
    | raised | waiting | failed =>
      rw [hs] at calm
      exact calm.elim
    | _ => trivial
  · rw [entry]
    trivial
  · have class_ := hasTask_class amo old
    obtain ⟨k, hprog, -⟩ := acts.after
    rw [stage]
    refine calm_next class_ acts.may (inv.calm p rec t old) ?_ (fun starting => ?_)
      fun isCount none => ?_
    · rintro n u exc running rfl error
      cases error
      have raised := AtMostOnceLemmas.leave_raise acts.run
      have first := returns proc acts.hp rec acts.at_.1 t acts.at_.2 run
        (by simp [Task.inBody, hkey, running]) inv.once
      rw [raised] at first
      cases first
    · have unstarted := opens_unstarted shaped recalls loaded inv ok acts run hkey class_ starting
      refine (AtMostOnceLemmas.invocations_stay runId key shaped h acts.hp acts.at_ hprog
        fun u e => ?_).trans (inv.unstarted unstarted)
      have may := acts.may
      rw [starting, e] at may
      cases may
    · exact (AtMostOnceLemmas.invocations_stay runId key shaped h acts.hp acts.at_ hprog
        fun u e => by cases isCount.symm.trans e).trans none

/-- Who comes to a try has written its start. -/
theorem single_started (numbered : w.store.Numbered) (rows : w.Rows)
    (amo : w.AtMostOnce cfg runId key) {p : Nat} {rec' : CallRecord} {t' : Task}
    (has : w'.HasTask runId key p rec' t') (tries : t'.stage.tries = true) :
    logged key Payload.isStart (w'.store.loadEvents runId) = true := by
  obtain ⟨es, log, -⟩ := log_step numbered shaped h runId
  rw [log, LifecycleLemmas.logged_append, Bool.or_eq_true]
  rcases hasTask_cases shaped h has with ⟨rec, old, -⟩ | entry |
    ⟨c, b, ans, proc, rec, t, o, r, loc, rfl, acts, old, run, hkey, stage⟩
  · exact .inl (inv.started p rec t' old tries)
  · rw [entry] at tries
    cases tries
  · rw [stage] at tries
    rcases tries_next (hasTask_class amo old) acts.may (inv.calm p rec t old) tries with
      was | ⟨-, seq, rfl, same⟩
    · exact .inl (inv.started p rec t old was)
    · cases same
      right
      have grown := acts.log numbered runId
      rw [if_pos run.symm] at grown
      rw [List.append_cancel_left (log.symm.trans grown)]
      obtain ⟨ctx, hctx⟩ :=
        Option.isSome_iff_exists.mp (TaskLemmas.at_known (shaped _ _ acts.hp) acts.at_)
      have told := ConsistencyLemmas.exec_told acts.run hctx
        (rows p proc acts.hp (.inr (by rw [hctx]; rfl)))
      cases seq with
      | none => exact absurd rfl told
      | some n =>
        have own : (rec.call.setup cfg proc.loc.runId proc.loc.guarded t.key).key = key := hkey
        simp [written, logged, Event.under, own, Payload.isStart]

/-- Who is at a try was at one before, or has opened its window where the log had no start. -/
theorem tried_before (recalls : w.Recalls) (loaded : w.Loaded) (ok : startsKnown cfg w a)
    (amo : w.AtMostOnce cfg runId key) {p : Nat} {rec' : CallRecord} {t' : Task}
    (has : w'.HasTask runId key p rec' t') (tries : t'.stage.tries = true) :
    (∃ rec t, w.HasTask runId key p rec t ∧ t.stage.tries = true) ∨
      ((∃ c b ans, a = .task p c b ans) ∧
        logged key Payload.isStart (w.store.loadEvents runId) = false) := by
  rcases hasTask_cases shaped h has with ⟨rec, old, -⟩ | entry |
    ⟨c, b, ans, proc, rec, t, o, r, loc, rfl, acts, old, run, hkey, stage⟩
  · exact .inl ⟨rec, t', old, tries⟩
  · rw [entry] at tries
    cases tries
  · rw [stage] at tries
    have class_ := hasTask_class amo old
    rcases tries_next class_ acts.may (inv.calm p rec t old) tries with was | ⟨starting, -⟩
    · exact .inl ⟨rec, t, old, was⟩
    · exact .inr ⟨⟨c, b, ans, rfl⟩,
        opens_unstarted shaped recalls loaded inv ok acts run hkey class_ starting⟩

/-- A second attempt at a try would have opened its window after the first. -/
theorem single_unique (recalls : w.Recalls) (loaded : w.Loaded) (ok : startsKnown cfg w a)
    (amo : w.AtMostOnce cfg runId key) {p q : Nat} {rec₁ rec₂ : CallRecord} {t₁ t₂ : Task}
    (has₁ : w'.HasTask runId key p rec₁ t₁) (has₂ : w'.HasTask runId key q rec₂ t₂)
    (tries₁ : t₁.stage.tries = true) (tries₂ : t₂.stage.tries = true) : p = q := by
  rcases tried_before shaped h inv recalls loaded ok amo has₁ tries₁ with
    ⟨_, _, old₁, was₁⟩ | ⟨⟨_, _, _, act₁⟩, none₁⟩ <;>
  rcases tried_before shaped h inv recalls loaded ok amo has₂ tries₂ with
    ⟨_, _, old₂, was₂⟩ | ⟨⟨_, _, _, act₂⟩, none₂⟩
  · exact inv.unique p q _ _ _ _ old₁ old₂ was₁ was₂
  · exact absurd ((inv.started p _ _ old₁ was₁).symm.trans none₂) (by decide)
  · exact absurd ((inv.started q _ _ old₂ was₂).symm.trans none₁) (by decide)
  · cases act₁.symm.trans act₂
    rfl

end

theorem single_step (numbered : w.store.Numbered) (rows : w.Rows)
    (shaped : ∀ (p : Nat) (proc : Proc), w.procs[p]? = some proc → proc.Shaped cfg)
    (recalls : w.Recalls) (loaded : w.Loaded) (h : w.step cfg a = some w')
    (ok : startsKnown cfg w a) (returns : returnsFirst runId key w a)
    (amo : w.AtMostOnce cfg runId key) (inv : w.Single runId key) : w'.Single runId key where
  once := single_once shaped h inv
  unfailed := single_unfailed shaped h inv numbered
  unstarted := single_unstarted shaped h inv numbered
  calm _ _ _ has := single_calm shaped h inv recalls loaded ok returns amo has
  started _ _ _ has tries := single_started shaped h inv numbered rows amo has tries
  unique _ _ _ _ _ _ has₁ has₂ tries₁ tries₂ :=
    single_unique shaped h inv recalls loaded ok amo has₁ has₂ tries₁ tries₂

end DoubleStartLemmas

open DoubleStartLemmas

/-- No double start: where at-most-once windows are opened only by attempts that have loaded
the start of the key, if there is one, and the first invocation of the key's body does not
raise, the body is invoked once at most, whoever works on the run and whenever. -/
theorem started_once {cfg : Config} {now : Int} {w : World} {runId : Uuid} {key : String}
    (h : Reaches (World.step cfg) (fun w a => startsKnown cfg w a ∧ returnsFirst runId key w a)
      (.init now) w) (amo : w.AtMostOnce cfg runId key) :
    (w.invocations runId key).length ≤ 1 := by
  suffices w.Single runId key from this.once
  induction h with
  | refl =>
    have none : ∀ {p rec t}, ¬ (World.init now).HasTask runId key p rec t := by
      rintro p rec t ⟨_, _, _, h, -⟩
      simp [World.init] at h
    exact ⟨Nat.zero_le _, rfl, fun _ => rfl, fun _ _ _ has => (none has).elim,
      fun _ _ _ has => (none has).elim, fun _ _ _ _ _ _ has => (none has).elim⟩
  | tail h ok hs ih =>
    have before := AtMostOnceLemmas.atMostOnce_before hs amo
    exact single_step (numbered_reaches h) (rows_reaches h) (fun _ _ => shaped_reaches h)
      (recalls_reaches h) (loaded_reaches h) hs ok.1 ok.2 before (ih before)

/-- An attempt whose lease lapses inside an at-most-once body, and another that finds the
start. -/
def Sample.found : List Action :=
  opening ++ [calls 0 "x" .atMostOnce] ++ advance 0 0 7 ++ [.tick 31000000, .claim "b" []] ++
    proceed 1 8 ++ [calls 1 "x" .atMostOnce] ++ advance 1 0 5 ++ [.task 0 0 0 (.value (.int 5))]

theorem started_once_found : ∃ w,
    run (World.step Sample.cfg) (fun w a => startsKnown Sample.cfg w a ∧
      returnsFirst Sample.runId "x#1" w a) (.init 0) Sample.found = some w ∧
    w.AtMostOnce Sample.cfg Sample.runId "x#1" ∧
    (w.invocations Sample.runId "x#1").length ≤ 1 := by
  obtain ⟨w, h, amo⟩ := run_exists (World.step Sample.cfg) (fun w a => startsKnown Sample.cfg w a ∧
      returnsFirst Sample.runId "x#1" w a) (.init 0) Sample.found
    (fun w => w.AtMostOnce Sample.cfg Sample.runId "x#1") (by decide)
  exact ⟨w, h, amo, started_once (run_reaches h) amo⟩

/-- An attempt that pauses between its last boundary check and its start, another that starts
the step meanwhile, and the first, which starts it too. -/
def Sample.startedTwice : List Action :=
  opening ++ [calls 0 "x" .atMostOnce] ++ advance 0 0 5 ++ [.tick 31000000, .claim "b" []] ++
    proceed 1 8 ++ [calls 1 "x" .atMostOnce] ++ advance 1 0 7 ++ advance 0 0 2

/-- The body is entered by the attempts of two workers. -/
theorem started_by_two : ∃ w,
    run (World.step Sample.cfg) (returnsFirst Sample.runId "x#1") (.init 0)
      Sample.startedTwice = some w ∧
    w.AtMostOnce Sample.cfg Sample.runId "x#1" ∧
    (w.procs.map (·.loc.worker)) = [some "a", some "b"] ∧
    (w.invocations Sample.runId "x#1").map (·.proc) = [1, 0] :=
  run_exists (World.step Sample.cfg) (returnsFirst Sample.runId "x#1") (.init 0)
    Sample.startedTwice
    (fun w => w.AtMostOnce Sample.cfg Sample.runId "x#1" ∧
      (w.procs.map (·.loc.worker)) = [some "a", some "b"] ∧
      (w.invocations Sample.runId "x#1").map (·.proc) = [1, 0]) (by decide)

end AnchorRuntime
