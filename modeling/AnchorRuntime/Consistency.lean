import AnchorRuntime.Invocations
import AnchorRuntime.Tasks

/-!
# One attempt after another

Attempts of a run that follow one another keep every key of the log within its life.

Results: `consistent_reaches`, the invariant that ties the log, the replay state of the
attempt in progress and the stages of its tasks.
-/

namespace AnchorRuntime

open Effect Machine Slots ShapeLemmas ProcLemmas

/-! ## One step of one task -/

/-- What the answers a step reads off its memory and its store calls tell it. -/
def Told (ctx : RunContext) : (o : Op) → Ans o → Prop
  | .completed key, r => r = ctx.completed key
  | .unresolved key, r => r = (ctx.unresolved key).isSome
  | .appendEvent _ _, r => r ≠ .ok none
  | _, _ => True

/-- What the life of a key becomes by what an operation writes. -/
def lifeAfter (s : StepSetup) (now : Int) (o : Op) (r : Ans o) (life : Life) : Option Life :=
  Monitor.run (Life.step s.token.str s.key) life (written now o r)

namespace ConsistencyLemmas

variable {s : StepSetup} {ctx ctx' : RunContext} {now : Int} {life : Life} {stage : Stage}

theorem lifeAfter_quiet {o : Op} {r : Ans o} (h : written now o r = []) :
    lifeAfter s now o r life = some life := by
  rw [lifeAfter, h]
  rfl

/-- An append of an event the monitor accepts. -/
theorem lifeAfter_append {payload : Payload} {n : Nat} {life' : Life}
    (h : life.move s.token.str payload = some life') :
    lifeAfter s now (.appendEvent (some s.key) payload) (.ok (some n)) life = some life' := by
  simp only [lifeAfter, written, Monitor.run_cons, Monitor.run_nil, Life.step, if_pos]
  rw [h]
  rfl

theorem written_failure {o : Op} {r : Ans o} {exc : Exn} (h : failure o r = some exc) :
    written now o r = [] := by
  unfold failure at h
  split at h <;> first | rfl | cases h

/-- The window's events move the life of the key, when they are written. -/
theorem agrees_append {payload : Payload} {done : Stage} {life' : Life} {seq : Option Nat}
    (told : Told ctx (.appendEvent (some s.key) payload) (.ok seq))
    (move : life.move s.token.str payload = some life') (agrees : done.Agrees ctx' s.key life') :
    ∃ life', lifeAfter s now (.appendEvent (some s.key) payload) (.ok seq) life = some life' ∧
      done.Agrees ctx' s.key life' := by
  cases seq with
  | none => exact absurd rfl told
  | some n => exact ⟨life', lifeAfter_append move, agrees⟩

theorem remembered_synced (s : StepSetup) {o : Op} (h : Remembered o (some ctx) (some ctx'))
    (built : ∀ run events, o ≠ .newContext run events)
    (quiet : ∀ result, o ≠ .recordResult s.key result) :
    ctx'.completed s.key = ctx.completed s.key ∧ ctx'.unresolved s.key = ctx.unresolved s.key := by
  cases h with
  | same same => exact ⟨by rw [same.completed], by rw [same.unresolved]⟩
  | build => exact absurd rfl (built _ _)
  | @record key result _ =>
    have other : s.key ≠ key := fun e => quiet result (by rw [e])
    exact ⟨by simp [RunContext.record, other], by simp [RunContext.record, other]⟩

/-- A boundary check that passes changes nothing. -/
theorem checks_agree (agrees : Synced ctx s.key life ∧ ctx.completed s.key = none)
    (same : ctx'.completed s.key = ctx.completed s.key ∧
      ctx'.unresolved s.key = ctx.unresolved s.key) :
    Synced ctx' s.key life ∧ ctx'.completed s.key = none :=
  ⟨LifecycleLemmas.synced_congr agrees.1 same.1 same.2, same.1.trans agrees.2⟩

/-- A step keeps to the life of its key. -/
theorem agrees_next {o : Op} {r : Ans o} (may : s.allowed stage o)
    (agrees : stage.Agrees ctx s.key life) (told : Told ctx o r)
    (mem : Remembered o (some ctx) (some ctx')) :
    ∃ life', lifeAfter s now o r life = some life' ∧
      (s.next stage o r).Agrees ctx' s.key life' := by
  have built := ShapeLemmas.allowed_ne_newContext may
  have quiet : written now o r = [] → (s.next stage o r).Agrees ctx' s.key life →
      ∃ life', lifeAfter s now o r life = some life' ∧
        (s.next stage o r).Agrees ctx' s.key life' :=
    fun none agrees => ⟨life, lifeAfter_quiet none, agrees⟩
  have moves := StepSetup.moves may r
  generalize s.next stage o r = stage' at moves quiet ⊢
  cases moves with
  | replay v =>
    refine quiet rfl (?_ : life = .done v)
    have told : some v = ctx.completed s.key := told
    cases life with
    | fresh | failed | opened => exact absurd (told.trans agrees.1) (by simp)
    | done result => exact congrArg Life.done (Option.some.inj (told.trans agrees)).symm
  | guard | unguarded =>
    have same := remembered_synced s mem built (by simp)
    have told : none = ctx.completed s.key := told
    exact quiet rfl ⟨LifecycleLemmas.synced_congr agrees same.1 same.2, same.1.trans told.symm⟩
  | owned | uncancelled | admitted =>
    exact quiet rfl (checks_agree agrees (remembered_synced s mem built (by simp)))
  | fresh =>
    have told : false = (ctx.unresolved s.key).isSome := told
    obtain ⟨synced, none⟩ := agrees
    cases life with
    | fresh => exact quiet rfl (.inl rfl)
    | failed => exact quiet rfl (.inr rfl)
    | opened => exact absurd (told.trans synced.2) (by simp)
    | done result => exact absurd (synced.symm.trans none) (by simp)
  | verifiable | unverifiable =>
    have told : true = (ctx.unresolved s.key).isSome := told
    obtain ⟨synced, none⟩ := agrees
    cases life with
    | fresh | failed => exact absurd told (by simp [synced.2])
    | opened => exact quiet rfl rfl
    | done result => exact absurd (synced.symm.trans none) (by simp)
  | resolve seq | complete seq =>
    obtain rfl : life = .opened := agrees
    exact agrees_append told rfl rfl
  | again seq | retry seq | fail seq =>
    obtain rfl : life = .opened := agrees
    exact agrees_append told rfl rfl
  | start seq =>
    refine agrees_append told (?_ : _ = some Life.opened) rfl
    rcases agrees with rfl | rfl <;> exact if_pos rfl
  | @invoked v payload seq _ trailing | @called v payload seq trailing =>
    obtain rfl : life = .done v := agrees
    refine agrees_append told ?_ rfl
    cases payload <;> first | exact trailing.elim | rfl
  | raise _ failed => exact quiet (written_failure failed) trivial
  | lost | cancelled | verifierRaised => exact quiet rfl trivial
  | _ => exact quiet rfl agrees

end ConsistencyLemmas

/-! ## The schedule -/

/-- The attempt whose code or user code an action runs. -/
def Action.actor : Action → Option Nat
  | .main p _ | .task p _ _ _ | .call p _ _ _ => some p
  | _ => none

/-- An attempt acts only while every other attempt of its run has not begun or has stopped.
An attempt that has left a task running has not stopped. -/
def oneAfterAnother (w : World) (a : Action) : Prop :=
  ∀ p, a.actor = some p → ∀ proc, w.procs[p]? = some proc → ∀ (q : Nat) (other : Proc),
    w.procs[q]? = some other → q ≠ p → other.loc.runId = proc.loc.runId →
    other.started = true → other.stopped = true

instance (w : World) (a : Action) : Decidable (oneAfterAnother w a) :=
  decidable_of_iff (∀ p ∈ a.actor, ∀ proc ∈ w.procs[p]?, ∀ q < w.procs.length,
      ∀ other ∈ w.procs[q]?, q ≠ p → other.loc.runId = proc.loc.runId →
      other.started = true → other.stopped = true)
    ⟨fun h p hp proc hproc q other hq =>
      h p hp proc hproc q (List.getElem?_eq_some_iff.mp hq).1 other hq,
    fun h p hp proc hproc q _ other hq => h p hp proc hproc q other hq⟩

/-- While an attempt acts no other attempt of its run is live and has tasks. -/
theorem oneAfterAnother.idle {cfg : Config} {w : World} {a : Action} {p q c b : Nat}
    {proc other : Proc} {rec : CallRecord} {t : Task} (ok : oneAfterAnother w a)
    (actor : a.actor = some p) (hp : w.procs[p]? = some proc) (hq : w.procs[q]? = some other)
    (run : other.loc.runId = proc.loc.runId) (live : other.stopped = false)
    (shaped : other.Shaped cfg) (at_ : other.At c b rec t) : q = p := by
  by_contra ne
  cases started : other.started with
  | true => exact absurd (live.symm.trans (ok p actor proc hp q other hq ne run started)) (by simp)
  | false =>
    have none := shaped.early (by rw [shaped.fresh started]; trivial)
    exact absurd at_.1 (by simp [shaped.uncalled none])

/-! ## The invariant -/

/-- The life of a key in the log of a run, read with the key's token. -/
def World.life (cfg : Config) (w : World) (runId : Uuid) (key : String) : Option Life :=
  lifeOf (stepToken cfg runId key).str key (w.store.loadEvents runId)

/-- What an attempt in progress knows of the log agrees with the log. -/
structure Proc.InStep (cfg : Config) (w : World) (proc : Proc) : Prop where
  loaded : ∀ run events, proc.phase = .loaded run events → ∀ key,
    lifeOf (stepToken cfg proc.loc.runId key).str key events = w.life cfg proc.loc.runId key
  untouched : ∀ ctx, proc.loc.ctx = some ctx → ∀ key, key ∉ proc.keys →
    ∃ life, w.life cfg proc.loc.runId key = some life ∧ Synced ctx key life
  tasks : ∀ ctx, proc.loc.ctx = some ctx → ∀ c b rec t, proc.At c b rec t →
    ∃ life, w.life cfg proc.loc.runId t.key = some life ∧ t.stage.Agrees ctx t.key life

/-- Every key of every log is within its life, and the attempts in progress know it. -/
structure World.Consistent (cfg : Config) (w : World) : Prop where
  lives : ∀ runId key, ∃ life, w.life cfg runId key = some life
  procs : ∀ (p : Nat) (proc : Proc), w.procs[p]? = some proc → proc.stopped = false →
    proc.InStep cfg w

namespace ConsistencyLemmas

variable {cfg : Config} {w w' : World} {proc : Proc} {loc loc' : Local} {st st' : Store}
  {ans : Answer} {s : StepSetup} {ctx ctx' : RunContext} {now : Int} {life : Life} {stage : Stage}

theorem exec_told {o : Op} {r : Ans o} (run : exec cfg now st loc ans o = some (r, st', loc'))
    (hctx : loc.ctx = some ctx) (row : (st.standing loc.runId).isSome = true) : Told ctx o r := by
  cases o with
  | completed key =>
    obtain ⟨_, known, rfl, -, -⟩ := ExecLemmas.memory_cases run
    cases hctx.symm.trans known
    rfl
  | unresolved key =>
    obtain ⟨_, known, rfl, -, -⟩ := ExecLemmas.memory_cases run
    cases hctx.symm.trans known
    rfl
  | appendEvent key payload =>
    rintro rfl
    obtain ⟨-, ⟨n, ok, same⟩ | ⟨exc, error, -⟩⟩ := ExecLemmas.storeCall_cases run
    · cases same
      simp only [Store.standing, Option.isSome_map] at row
      obtain ⟨found, hfound⟩ := Option.isSome_iff_exists.mp row
      unfold Store.appendEvent at ok
      split at ok
      · rw [show st.runs.find loc.runId = some found from hfound] at ok
        simp only at ok
        split at ok <;> cases ok
      · cases ok
    · cases error
  | _ => trivial

/-! What a step writes. -/

theorem allowed_written {o : Op} {r : Ans o} (may : s.allowed stage o) :
    ∀ e ∈ written now o r, e.stepKey = some s.key := by
  intro e mem
  obtain ⟨_, rfl, -⟩ := InvocationLemmas.written_event mem
  exact InvocationLemmas.allowed_key may

theorem phase_written {phase : Phase} {o : Op} {r : Ans o} (may : phase.allowed o) :
    ∀ e ∈ written now o r, ∀ key, ¬ e.concerns key := by
  intro e mem key concerns
  obtain ⟨_, rfl, -⟩ := InvocationLemmas.written_event mem
  exact absurd (concerns.2.symm.trans (InvocationLemmas.phase_quiet may)) (by simp)

theorem phase_ne_record {phase : Phase} {o : Op} (may : phase.allowed o) (key : String)
    (result : Value) : o ≠ .recordResult key result := by
  rintro rfl
  cases phase <;> simp [Phase.allowed] at may

/-! Frames. -/

theorem agrees_congr {key : String} (agrees : stage.Agrees ctx key life)
    (completed : ctx'.completed key = ctx.completed key)
    (unresolved : ctx'.unresolved key = ctx.unresolved key) : stage.Agrees ctx' key life := by
  cases stage with
  | entry => exact LifecycleLemmas.synced_congr agrees completed unresolved
  | boundary | leased | uncancelled | admitted =>
    exact ⟨LifecycleLemmas.synced_congr agrees.1 completed unresolved,
      completed.trans agrees.2⟩
  | _ => exact agrees

/-- An attempt that has not moved stays in step while the log says the same of its keys. -/
theorem inStep_frame (h : proc.InStep cfg w)
    (same : ∀ key, w'.life cfg proc.loc.runId key = w.life cfg proc.loc.runId key) :
    proc.InStep cfg w' where
  loaded := fun run events phase key => (h.loaded run events phase key).trans (same key).symm
  untouched := fun ctx hctx key free => by rw [same]; exact h.untouched ctx hctx key free
  tasks := fun ctx hctx c b rec t at_ => by rw [same]; exact h.tasks ctx hctx c b rec t at_

/-- An attempt without a context has nothing to be out of step with, before it has read the
log. -/
theorem inStep_fresh (phase : proc.phase = .start) (none : proc.loc.ctx = none) :
    proc.InStep cfg w where
  loaded := fun run events loaded => absurd (phase.symm.trans loaded) (by simp)
  untouched := fun ctx hctx => absurd (none.symm.trans hctx) (by simp)
  tasks := fun ctx hctx => absurd (none.symm.trans hctx) (by simp)

/-! Where no window moves. -/

theorem life_same {runId : Uuid} {key : String} {es : List Event}
    (log : w'.store.loadEvents runId = w.store.loadEvents runId ++ es)
    (quiet : ∀ e ∈ es, ¬ e.concerns key) : w'.life cfg runId key = w.life cfg runId key := by
  rw [World.life, World.life, log]
  exact LifecycleLemmas.lifeOf_append_quiet quiet

theorem quiet_life {a : Action} (numbered : w.store.Numbered) (h : w.step cfg a = some w')
    (outside : ¬ a.runsCode) (runId : Uuid) (key : String) :
    w'.life cfg runId key = w.life cfg runId key := by
  obtain ⟨es, log, quiet⟩ := (quiet_log numbered h outside).2 runId
  exact life_same log fun e mem concerns =>
    absurd (concerns.1.symm.trans (quiet e mem)) (by simp)

/-- A step of an attempt's main code leaves it in step. -/
theorem inStep_main {o : Op} {k : Ans o → Code (Option Outcome)} {r : Ans o}
    (shaped : proc.Shaped cfg) (hmain : proc.main = .step o k)
    (run : exec cfg w.now w.store proc.loc ans o = some (r, st', loc))
    (lives : ∀ key, ∃ life, w'.life cfg proc.loc.runId key = some life)
    (same : ∀ key, w'.life cfg proc.loc.runId key = w.life cfg proc.loc.runId key)
    (h : proc.InStep cfg w) :
    Proc.InStep cfg w'
      { proc with loc, phase := proc.phase.next o r, main := k r, started := true } := by
  have may := shaped.main
  rw [hmain, obeys_step] at may
  have may : proc.phase.allowed o := may.1
  obtain ⟨runId, -, remembered⟩ := exec_ctx run
  have h := inStep_frame h same
  have known : ∀ ctx', loc.ctx = some ctx' →
      (∃ ctx, proc.loc.ctx = some ctx ∧ SameMemory ctx ctx') ∨
      ((∀ key, ∃ life, w'.life cfg proc.loc.runId key = some life ∧ Synced ctx' key life) ∧
        proc.calls = []) := by
    intro ctx' hctx'
    generalize hold : proc.loc.ctx = old at remembered
    generalize hnew : loc.ctx = new at remembered
    cases remembered with
    | none => exact absurd (hnew.symm.trans hctx') (by simp)
    | same memory =>
      cases hnew.symm.trans hctx'
      exact .inl ⟨_, rfl, memory⟩
    | build =>
      cases hnew.symm.trans hctx'
      have phase := newContext_loaded may
      refine .inr ⟨fun key => ?_, shaped.uncalled (shaped.early (newContext_early may))⟩
      obtain ⟨life, hlife⟩ := lives key
      exact ⟨life, hlife, init_synced _ ((h.loaded _ _ phase key).trans hlife)⟩
    | record => exact absurd rfl (phase_ne_record may _ _)
  refine ⟨fun record events phase key => ?_, fun ctx' hctx' key free => ?_,
    fun ctx' hctx' c b rec t at_ => ?_⟩
  · show lifeOf (stepToken cfg loc.runId key).str key events = w'.life cfg loc.runId key
    have loading := next_loaded may phase
    rw [loading] at may
    cases may
    rcases r with e | evs
    · rw [loading] at phase
      cases phase
    · rw [loading] at phase
      cases phase
      rw [runId, same, World.life, ← exec_loadEvents run]
  · show ∃ life, w'.life cfg loc.runId key = some life ∧ Synced ctx' key life
    rw [runId]
    rcases known ctx' hctx' with ⟨ctx, hctx, memory⟩ | ⟨all, -⟩
    · obtain ⟨life, hlife, synced⟩ := h.untouched ctx hctx key free
      exact ⟨life, hlife, LifecycleLemmas.synced_congr synced (by rw [memory.completed])
        (by rw [memory.unresolved])⟩
    · exact all key
  · show ∃ life, w'.life cfg loc.runId t.key = some life ∧ t.stage.Agrees ctx' t.key life
    rw [runId]
    rcases known ctx' hctx' with ⟨ctx, hctx, memory⟩ | ⟨-, none⟩
    · obtain ⟨life, hlife, agrees⟩ := h.tasks ctx hctx c b rec t at_
      exact ⟨life, hlife, agrees_congr agrees (by rw [memory.completed])
        (by rw [memory.unresolved])⟩
    · exact absurd at_.1 (by simp [none])

/-- What a task does to the memory touches no other key. -/
theorem remembered_other {o : Op} {key : String} (may : s.allowed stage o) (other : key ≠ s.key)
    (h : Remembered o (some ctx) (some ctx')) :
    ctx'.completed key = ctx.completed key ∧ ctx'.unresolved key = ctx.unresolved key := by
  cases h with
  | same memory => exact ⟨by rw [memory.completed], by rw [memory.unresolved]⟩
  | build => exact absurd rfl (ShapeLemmas.allowed_ne_newContext may _ _)
  | record =>
    have other : key ≠ _ := fun e => other (e.trans (TaskLemmas.records_own may))
    exact ⟨by simp [RunContext.record, other], by simp [RunContext.record, other]⟩

/-- The context of an attempt that has tasks, before and after one of their steps. -/
theorem task_contexts {c b : Nat} {rec : CallRecord} {t : Task} {o : Op} {r : Ans o}
    (shaped : proc.Shaped cfg) (at_ : proc.At c b rec t) (may : s.allowed stage o)
    (run : exec cfg now st proc.loc ans o = some (r, st', loc)) :
    ∃ ctx ctx', proc.loc.ctx = some ctx ∧ loc.ctx = some ctx' ∧
      Remembered o (some ctx) (some ctx') := by
  obtain ⟨-, -, remembered⟩ := exec_ctx run
  rcases ShapeLemmas.remembered_same remembered (ShapeLemmas.allowed_ne_newContext may) with
    ⟨none, -⟩ | ⟨ctx, ctx', hctx, hctx', -⟩
  · exact absurd at_.1 (by simp [shaped.uncalled none])
  · rw [hctx, hctx'] at remembered
    exact ⟨ctx, ctx', hctx, hctx', remembered⟩

/-- What a task's step makes of the life of a key of its run. -/
theorem life_append {runId : Uuid} {o : Op} {r : Ans o}
    (token : s.token = stepToken cfg runId s.key)
    (log : w'.store.loadEvents runId = w.store.loadEvents runId ++ written now o r)
    (h : w.life cfg runId s.key = some life) :
    w'.life cfg runId s.key = lifeAfter s now o r life := by
  rw [World.life, lifeOf, log, Monitor.run_append, ← lifeOf, ← World.life, h]
  unfold lifeAfter
  rw [token]
  rfl

/-- A step of a task leaves its key within its life. -/
theorem task_life {c b : Nat} {rec : CallRecord} {t : Task} {o : Op}
    {k : Ans o → Code Value} {r : Ans o}
    (shaped : proc.Shaped cfg) (row : (w.store.standing proc.loc.runId).isSome = true)
    (at_ : proc.At c b rec t) (hprog : t.prog = .step o k)
    (run : exec cfg w.now w.store proc.loc ans o = some (r, st', loc))
    (log : w'.store.loadEvents proc.loc.runId =
      w.store.loadEvents proc.loc.runId ++ written w.now o r)
    (h : proc.InStep cfg w) :
    ∃ life ctx', w'.life cfg proc.loc.runId t.key = some life ∧ loc.ctx = some ctx' ∧
      ((rec.call.setup cfg proc.loc.runId proc.loc.guarded t.key).next t.stage o r).Agrees
        ctx' t.key life := by
  have may := shaped.tasks c b rec t at_
  rw [hprog, obeys_step] at may
  have may := may.1
  obtain ⟨ctx, ctx', hctx, hctx', remembered⟩ := task_contexts shaped at_ may run
  obtain ⟨before, hbefore, agrees⟩ := h.tasks ctx hctx c b rec t at_
  obtain ⟨life, hlife, agrees'⟩ :=
    agrees_next may agrees (exec_told run hctx row) remembered
  refine ⟨life, ctx', ?_, hctx', agrees'⟩
  have key : (rec.call.setup cfg proc.loc.runId proc.loc.guarded t.key).key = t.key := rfl
  rw [← key] at hbefore
  exact (life_append rfl log hbefore).trans hlife

/-- A step of a task leaves the other keys of its run as they were. -/
theorem other_life {c b : Nat} {rec : CallRecord} {t : Task} {o : Op}
    {k : Ans o → Code Value} {r : Ans o} {key : String}
    (shaped : proc.Shaped cfg) (at_ : proc.At c b rec t) (hprog : t.prog = .step o k)
    (log : w'.store.loadEvents proc.loc.runId =
      w.store.loadEvents proc.loc.runId ++ written w.now o r) (other : key ≠ t.key) :
    w'.life cfg proc.loc.runId key = w.life cfg proc.loc.runId key := by
  have may := shaped.tasks c b rec t at_
  rw [hprog, obeys_step] at may
  exact life_same log fun e mem concerns =>
    other (Option.some.inj (concerns.1.symm.trans (allowed_written may.1 e mem)))

/-- A step of a task leaves its attempt in step. -/
theorem inStep_task {c b : Nat} {rec : CallRecord} {t : Task} {o : Op} {k : Ans o → Code Value}
    {r : Ans o} (shaped : proc.Shaped cfg)
    (row : (w.store.standing proc.loc.runId).isSome = true)
    (at_ : proc.At c b rec t) (hprog : t.prog = .step o k)
    (run : exec cfg w.now w.store proc.loc ans o = some (r, st', loc))
    (log : w'.store.loadEvents proc.loc.runId =
      w.store.loadEvents proc.loc.runId ++ written w.now o r)
    (h : proc.InStep cfg w) :
    Proc.InStep cfg w' ({ proc with loc }.setTask c b
      { t with
        stage := (rec.call.setup cfg proc.loc.runId proc.loc.guarded t.key).next t.stage o r
        prog := k r }) := by
  have may := shaped.tasks c b rec t at_
  rw [hprog, obeys_step] at may
  have may := may.1
  obtain ⟨runId, -, -⟩ := exec_ctx run
  obtain ⟨ctx, ctx', hctx, hctx', remembered⟩ := task_contexts shaped at_ may run
  have at_loc : Proc.At { proc with loc } c b rec t := at_
  -- the keys that are not this task's
  have frame : ∀ key, key ≠ t.key →
      w'.life cfg loc.runId key = w.life cfg proc.loc.runId key ∧
        ctx'.completed key = ctx.completed key ∧ ctx'.unresolved key = ctx.unresolved key :=
    fun key other => ⟨by rw [runId]; exact other_life shaped at_ hprog log other,
      remembered_other may other remembered⟩
  refine ⟨fun run events phase => ?_, fun found hfound key free => ?_,
    fun found hfound c' b' rec' t' at' => ?_⟩
  · have early : proc.phase.early := by rw [show proc.phase = _ from phase]; trivial
    exact absurd (hctx.symm.trans (shaped.early early)) (by simp)
  · cases hctx'.symm.trans hfound
    have keys := keys_setTask at_loc (show (Task.mk t.key t.path
      ((rec.call.setup cfg proc.loc.runId proc.loc.guarded t.key).next t.stage o r)
      (k r)).key = t.key from rfl)
    have free : key ∉ proc.keys := fun mem => free (keys ▸ mem)
    have other : key ≠ t.key := fun e => free (e ▸ at_key_mem at_)
    obtain ⟨life, completed, unresolved⟩ := frame key other
    obtain ⟨l, hlife, synced⟩ := h.untouched ctx hctx key free
    exact ⟨l, life.trans hlife, LifecycleLemmas.synced_congr synced completed unresolved⟩
  · cases hctx'.symm.trans hfound
    obtain ⟨old, hold, -, ⟨rfl, rfl, rfl⟩ | ⟨elsewhere, at_old⟩⟩ := at_setTask at_loc at'
    · obtain ⟨life, ctx'', hlife, hctx'', agrees⟩ :=
        task_life shaped row at_ hprog run log h
      cases hctx'.symm.trans hctx''
      refine ⟨life, ?_, agrees⟩
      show w'.life cfg loc.runId t.key = some life
      rw [runId]
      exact hlife
    · have other : t'.key ≠ t.key := fun e =>
        elsewhere (at_key_inj shaped.nodup (show proc.At c' b' old t' from at_old) at_ e)
      obtain ⟨life, completed, unresolved⟩ := frame t'.key other
      obtain ⟨l, hlife, agrees⟩ := h.tasks ctx hctx c' b' old t' at_old
      exact ⟨l, life.trans hlife, agrees_congr agrees completed unresolved⟩

/-- A call leaves its attempt in step: its keys are new. -/
theorem inStep_call {path : List Place} {role : Role} {c : Call} {names : List String}
    (shaped : proc.Shaped cfg) (hctx : proc.loc.ctx = some ctx)
    (same : ∀ key, w'.life cfg proc.loc.runId key = w.life cfg proc.loc.runId key)
    (h : proc.InStep cfg w) :
    Proc.InStep cfg w' { proc with
      loc := { proc.loc with ctx := some (ctx.nextKeys names).2 }
      calls := proc.calls ++ [⟨path, role, proc.callsBy path role, c, none,
        proc.newTasks cfg path role c (ctx.nextKeys names).1⟩] } := by
  have h := inStep_frame h same
  have memory : ∀ key, (ctx.nextKeys names).2.completed key = ctx.completed key ∧
      (ctx.nextKeys names).2.unresolved key = ctx.unresolved key := fun key => by
    rw [RunContext.nextKeys_same]
    exact ⟨rfl, rfl⟩
  refine ⟨fun run events phase => h.loaded run events phase, fun found hfound key free => ?_,
    fun found hfound c' b rec t at_ => ?_⟩
  · cases hfound
    rw [keys_concat, List.mem_append, not_or] at free
    obtain ⟨life, hlife, synced⟩ := h.untouched ctx hctx key free.1
    exact ⟨life, hlife, LifecycleLemmas.synced_congr synced (memory key).1 (memory key).2⟩
  · cases hfound
    rcases at_concat at_ with old | ⟨-, rfl, new⟩
    · obtain ⟨life, hlife, agrees⟩ := h.tasks ctx hctx c' b rec t old
      exact ⟨life, hlife, agrees_congr agrees (memory _).1 (memory _).2⟩
    · obtain ⟨key, hkey, rfl⟩ := newTasks_get new
      have fresh : key ∉ proc.keys := fun mem =>
        RunContext.nextKeys_fresh ctx names (List.mem_of_getElem? hkey)
          (shaped.allocated ctx hctx key mem)
      obtain ⟨life, hlife, synced⟩ := h.untouched ctx hctx key fresh
      exact ⟨life, hlife,
        LifecycleLemmas.synced_congr synced (memory key).1 (memory key).2⟩

theorem inStep_refused {path : List Place} {role : Role} {c : Call} {exc : Exn}
    (same : ∀ key, w'.life cfg proc.loc.runId key = w.life cfg proc.loc.runId key)
    (h : proc.InStep cfg w) :
    Proc.InStep cfg w' { proc with
      calls := proc.calls ++ [⟨path, role, proc.callsBy path role, c, some exc, []⟩] } := by
  have h := inStep_frame h same
  refine ⟨fun run events phase => h.loaded run events phase, fun ctx hctx key free => ?_,
    fun ctx hctx c' b rec t at_ => ?_⟩
  · rw [show Proc.keys { proc with calls := proc.calls ++
        [⟨path, role, proc.callsBy path role, c, some exc, []⟩] } = proc.keys from
      (keys_concat proc _ proc.loc).trans (by simp)] at free
    exact h.untouched ctx hctx key free
  · rcases at_concat at_ with old | ⟨-, -, none⟩
    · exact h.tasks ctx hctx c' b rec t old
    · exact absurd none (by simp)

/-- The other attempts while one acts: of its run none is under way. -/
theorem inStep_other {a : Action} {p q : Nat} {other : Proc} (actor : a.actor = some p)
    (ok : oneAfterAnother w a) (shaped : other.Shaped cfg) (hp : w.procs[p]? = some proc)
    (hq : w.procs[q]? = some other) (ne : q ≠ p) (live : other.stopped = false)
    (elsewhere : ∀ j, j ≠ proc.loc.runId → ∀ key, w'.life cfg j key = w.life cfg j key)
    (h : other.InStep cfg w) : other.InStep cfg w' := by
  by_cases run : other.loc.runId = proc.loc.runId
  · cases started : other.started with
    | true =>
      exact absurd (live.symm.trans (ok p actor proc hp q other hq ne run started)) (by simp)
    | false =>
      have phase := shaped.fresh started
      exact inStep_fresh phase (shaped.early (by rw [phase]; trivial))
  · exact inStep_frame h (elsewhere _ run)

/-- The logs after an action that runs code. -/
theorem exec_elsewhere {o : Op} {r : Ans o} (numbered : w.store.Numbered)
    (run : exec cfg w.now w.store loc ans o = some (r, w'.store, loc')) :
    w'.store.loadEvents loc.runId = w.store.loadEvents loc.runId ++ written w.now o r ∧
      ∀ j, j ≠ loc.runId → ∀ key, w'.life cfg j key = w.life cfg j key := by
  have log := (exec_log numbered run).2
  refine ⟨by rw [log, if_pos rfl], fun j ne key => ?_⟩
  rw [World.life, World.life, log, if_neg ne, List.append_nil]

/-! One action. -/

theorem mem_set {p : Nat} {new old : Proc} (h : w.procs[p]? = some old) :
    (w.procs.set p new)[p]? = some new := by
  rw [List.getElem?_set_self (List.getElem?_eq_some_iff.mp h).1]

/-- Actions that run no code. -/
theorem consistent_quiet {a : Action} (numbered : w.store.Numbered)
    (shaped : ∀ (p : Nat) (proc : Proc), w.procs[p]? = some proc → proc.Shaped cfg)
    (h : w.step cfg a = some w') (outside : ¬ a.runsCode) (inv : w.Consistent cfg) :
    w'.Consistent cfg := by
  have same := quiet_life numbered h outside
  refine ⟨fun runId key => by rw [same]; exact inv.lives runId key, fun p proc hproc live => ?_⟩
  have frame : ∀ {q : Nat} {other : Proc}, w.procs[q]? = some other → other.stopped = false →
      other.InStep cfg w' := fun hq live => inStep_frame (inv.procs _ _ hq live) (same _)
  cases step_happens h with
  | submit | cancel | tick => exact frame hproc live
  | claim | execute =>
    rcases concat_cases hproc with old | ⟨-, rfl⟩
    · exact frame old live
    · exact inStep_fresh rfl rfl
  | beat b hp alive =>
    rcases procs_set hproc with ⟨-, rfl⟩ | ⟨-, old⟩
    · have kept := frame hp alive
      exact ⟨kept.loaded, kept.untouched, kept.tasks⟩
    · exact frame old live
  | stop =>
    rcases procs_set hproc with ⟨-, rfl⟩ | ⟨-, old⟩
    · cases live
    · exact frame old live
  | refused hp alive =>
    rcases procs_set hproc with ⟨-, rfl⟩ | ⟨-, old⟩
    · exact inStep_refused (same _) (inv.procs _ _ hp alive)
    · exact frame old live
  | call hp alive _ hctx =>
    rcases procs_set hproc with ⟨-, rfl⟩ | ⟨-, old⟩
    · exact inStep_call (shaped _ _ hp) hctx (same _) (inv.procs _ _ hp alive)
    · exact frame old live
  | main => exact absurd trivial outside
  | task => exact absurd trivial outside

theorem consistent_main {p : Nat} {o : Op} {k : Ans o → Code (Option Outcome)} {r : Ans o}
    {a : Action} (numbered : w.store.Numbered)
    (shaped : ∀ (p : Nat) (proc : Proc), w.procs[p]? = some proc → proc.Shaped cfg)
    (hp : w.procs[p]? = some proc) (alive : proc.stopped = false) (hmain : proc.main = .step o k)
    (run : exec cfg w.now w.store proc.loc ans o = some (r, w'.store, loc))
    (procs : w'.procs = w.procs.set p
      { proc with loc, phase := proc.phase.next o r, main := k r, started := true })
    (actor : a.actor = some p) (ok : oneAfterAnother w a) (inv : w.Consistent cfg) :
    w'.Consistent cfg := by
  have may := (shaped p proc hp).main
  rw [hmain, obeys_step] at may
  obtain ⟨log, elsewhere⟩ := exec_elsewhere numbered run
  have same : ∀ j key, w'.life cfg j key = w.life cfg j key := by
    intro j key
    by_cases own : j = proc.loc.runId
    · exact own ▸ life_same log fun e mem => phase_written may.1 e mem key
    · exact elsewhere j own key
  have lives : ∀ j key, ∃ life, w'.life cfg j key = some life :=
    fun j key => by rw [same]; exact inv.lives j key
  refine ⟨lives, fun q other hq live => ?_⟩
  rw [procs] at hq
  rcases procs_set hq with ⟨rfl, rfl⟩ | ⟨ne, old⟩
  · exact inStep_main (shaped q proc hp) hmain run (lives _) (same _) (inv.procs q proc hp alive)
  · exact inStep_other actor ok (shaped q other old) hp old ne live elsewhere
      (inv.procs q other old live)

theorem consistent_task {p c b : Nat} {rec : CallRecord} {t : Task} {o : Op}
    {k : Ans o → Code Value} {r : Ans o} {a : Action} (numbered : w.store.Numbered)
    (rows : w.Rows)
    (shaped : ∀ (p : Nat) (proc : Proc), w.procs[p]? = some proc → proc.Shaped cfg)
    (hp : w.procs[p]? = some proc) (alive : proc.stopped = false) (at_ : proc.At c b rec t)
    (hprog : t.prog = .step o k)
    (run : exec cfg w.now w.store proc.loc ans o = some (r, w'.store, loc))
    (procs : w'.procs = w.procs.set p ({ proc with loc }.setTask c b
      { t with
        stage := (rec.call.setup cfg proc.loc.runId proc.loc.guarded t.key).next t.stage o r
        prog := k r }))
    (actor : a.actor = some p) (ok : oneAfterAnother w a) (inv : w.Consistent cfg) :
    w'.Consistent cfg := by
  obtain ⟨log, elsewhere⟩ := exec_elsewhere numbered run
  have inStep := inv.procs p proc hp alive
  have row : (w.store.standing proc.loc.runId).isSome = true := by
    refine rows p proc hp (.inr ?_)
    cases hctx : proc.loc.ctx with
    | some ctx => rfl
    | none => exact absurd at_.1 (by simp [(shaped p proc hp).uncalled hctx])
  refine ⟨fun j key => ?_, fun q other hq live => ?_⟩
  · by_cases own : j = proc.loc.runId
    · subst own
      by_cases mine : key = t.key
      · subst mine
        obtain ⟨life, -, hlife, -⟩ := task_life (shaped p proc hp) row at_ hprog run log inStep
        exact ⟨life, hlife⟩
      · rw [other_life (shaped p proc hp) at_ hprog log mine]
        exact inv.lives _ key
    · rw [elsewhere j own]
      exact inv.lives j key
  · rw [procs] at hq
    rcases procs_set hq with ⟨rfl, rfl⟩ | ⟨ne, old⟩
    · exact inStep_task (shaped q proc hp) row at_ hprog run log inStep
    · exact inStep_other actor ok (shaped q other old) hp old ne live elsewhere
        (inv.procs q other old live)

/-- One action of a world whose attempts follow one another. -/
theorem consistent_step {a : Action} (numbered : w.store.Numbered) (rows : w.Rows)
    (shaped : ∀ (p : Nat) (proc : Proc), w.procs[p]? = some proc → proc.Shaped cfg)
    (h : w.step cfg a = some w') (ok : oneAfterAnother w a) (inv : w.Consistent cfg) :
    w'.Consistent cfg := by
  by_cases code : a.runsCode
  · cases step_happens h with
    | main hp alive hmain run =>
      exact consistent_main numbered shaped hp alive hmain run rfl rfl ok inv
    | task hp alive hrec ht hprog run =>
      exact consistent_task numbered rows shaped hp alive ⟨hrec, ht⟩ hprog run rfl rfl ok inv
    | _ => exact code.elim
  · exact consistent_quiet numbered shaped h code inv

theorem consistent_init (now : Int) : (World.init now).Consistent cfg where
  lives := fun _ _ => ⟨.fresh, rfl⟩
  procs := fun _ _ h => absurd h (by simp [World.init])

end ConsistencyLemmas

/-- Whatever the crashes, attempts that follow one another keep the log consistent. -/
theorem consistent_reaches {cfg : Config} {now : Int} {ok : World → Action → Prop} {w : World}
    (h : Reaches (World.step cfg) ok (.init now) w)
    (orderly : ∀ w a, ok w a → oneAfterAnother w a) : w.Consistent cfg := by
  induction h with
  | refl => exact ConsistencyLemmas.consistent_init now
  | tail h may hs inv =>
    exact ConsistencyLemmas.consistent_step (numbered_reaches h) (rows_reaches h)
      (fun _ _ => shaped_reaches h) hs (orderly _ _ may) inv

end AnchorRuntime
