import AnchorRuntime.Invocations
import AnchorRuntime.Tasks

/-!
# What an attempt remembers

The log an attempt has loaded is a prefix of the log, and what it remembers of a key is at
least what it loaded. Neither needs an assumption on the schedule.

Results: `context_cases`, where the context of an attempt comes from; `loaded_reaches` and
`recalls_reaches`.
-/

namespace AnchorRuntime

open Effect Machine Slots ShapeLemmas ProcLemmas

/-- Where the context of attempt `q` comes from: it is an old one, in which at most some key
has got a result, or it has just been built. -/
inductive ContextStep (w : World) (q : Nat) (proc' : Proc) : RunContext → Prop
  | kept {proc : Proc} {ctx ctx' : RunContext} :
      w.procs[q]? = some proc → proc.loc.ctx = some ctx → proc'.loc.runId = proc.loc.runId →
      ctx'.run = ctx.run → ctx'.loaded = ctx.loaded →
      (∀ key, (ctx'.completed key = ctx.completed key ∧ ctx'.unresolved key = ctx.unresolved key) ∨
        (ctx'.completed key).isSome = true) → ContextStep w q proc' ctx'
  | built {proc : Proc} {run : RunRecord} {events : List Event} :
      w.procs[q]? = some proc → proc.phase = .loaded (some run) events →
      proc'.loc.runId = proc.loc.runId → ContextStep w q proc' (.init run events)

namespace MemoryLemmas

variable {cfg : Config} {w w' : World} {a : Action} {proc proc' : Proc}

theorem same_step {q : Nat} {ctx : RunContext} (hq : w.procs[q]? = some proc)
    (hctx : proc'.loc.ctx = some ctx) (loc : proc'.loc.ctx = proc.loc.ctx)
    (runId : proc'.loc.runId = proc.loc.runId) : ContextStep w q proc' ctx :=
  .kept hq (loc.symm.trans hctx) runId rfl rfl fun _ => .inl ⟨rfl, rfl⟩

theorem exec_step {q : Nat} {o : Op} {r : Ans o} {now : Int} {st st' : Store} {ans : Answer}
    {ctx' : RunContext} (hq : w.procs[q]? = some proc)
    (run : exec cfg now st proc.loc ans o = some (r, st', proc'.loc))
    (built : ∀ run events, o = .newContext run events →
      proc.phase = .loaded (some run) events)
    (hctx : proc'.loc.ctx = some ctx') : ContextStep w q proc' ctx' := by
  obtain ⟨runId, -, remembered⟩ := exec_ctx run
  rw [hctx] at remembered
  generalize hold : proc.loc.ctx = old at remembered
  cases remembered with
  | same memory =>
    exact .kept hq hold runId memory.run memory.loaded fun key =>
      .inl ⟨by rw [memory.completed], by rw [memory.unresolved]⟩
  | build => exact .built hq (built _ _ rfl) runId
  | @record key result ctx =>
    refine .kept hq hold runId rfl rfl fun other => ?_
    by_cases same : other = key
    · exact .inr (by simp [RunContext.record, same])
    · exact .inl ⟨by simp [RunContext.record, same], by simp [RunContext.record, same]⟩

end MemoryLemmas

open MemoryLemmas

theorem context_cases {cfg : Config} {w w' : World} {a : Action} {q : Nat} {proc' : Proc}
    {ctx' : RunContext}
    (shaped : ∀ (p : Nat) (proc : Proc), w.procs[p]? = some proc → proc.Shaped cfg)
    (h : w.step cfg a = some w') (hq : w'.procs[q]? = some proc')
    (hctx : proc'.loc.ctx = some ctx') : ContextStep w q proc' ctx' := by
  cases step_happens h with
  | submit | cancel | tick => exact same_step hq hctx rfl rfl
  | claim | execute =>
    rcases concat_cases hq with old | ⟨-, rfl⟩
    · exact same_step old hctx rfl rfl
    · cases hctx
  | beat _ hp | stop hp | refused hp =>
    rcases procs_set hq with ⟨rfl, rfl⟩ | ⟨-, old⟩
    · exact same_step hp hctx rfl rfl
    · exact same_step old hctx rfl rfl
  | main hp _ hmain run =>
    rcases procs_set hq with ⟨rfl, rfl⟩ | ⟨-, old⟩
    · refine exec_step hp run ?_ hctx
      rintro record events rfl
      have may := (shaped _ _ hp).main
      rw [hmain, obeys_step] at may
      exact newContext_loaded may.1
    · exact same_step old hctx rfl rfl
  | task hp _ hrec ht hprog run =>
    rcases procs_set hq with ⟨rfl, rfl⟩ | ⟨-, old⟩
    · refine exec_step hp run ?_ hctx
      rintro record events rfl
      have may := TaskLemmas.task_allowed (shaped _ _ hp) ⟨hrec, ht⟩ hprog
      exact absurd rfl (allowed_ne_newContext may record events)
    · exact same_step old hctx rfl rfl
  | call hp _ _ hold =>
    rcases procs_set hq with ⟨rfl, rfl⟩ | ⟨-, old⟩
    · cases hctx
      refine .kept hp hold rfl ?_ ?_ fun key => .inl ?_
      · rw [RunContext.nextKeys_same]
      · rw [RunContext.nextKeys_same]
      · rw [RunContext.nextKeys_same]
        exact ⟨rfl, rfl⟩
    · exact same_step old hctx rfl rfl

/-! ## What was loaded -/

/-- The events an attempt has loaded are the beginning of its run's log. -/
structure World.Loaded (w : World) : Prop where
  phase : ∀ (p : Nat) (proc : Proc), w.procs[p]? = some proc → ∀ run events,
    proc.phase = .loaded run events → events <+: w.store.loadEvents proc.loc.runId
  ctx : ∀ (p : Nat) (proc : Proc), w.procs[p]? = some proc → ∀ ctx, proc.loc.ctx = some ctx →
    ctx.loaded <+: w.store.loadEvents proc.loc.runId

namespace MemoryLemmas

variable {cfg : Config} {w w' : World} {a : Action}

theorem init_loaded (run : RunRecord) (events : List Event) :
    (RunContext.init run events).loaded = events :=
  LifecycleLemmas.replay_same (·.loaded) (fun _ _ _ => rfl) _ events

/-- Who goes on with events has just read the log or went on with them before. -/
theorem phase_cases
    (shaped : ∀ (p : Nat) (proc : Proc), w.procs[p]? = some proc → proc.Shaped cfg)
    (h : w.step cfg a = some w') {q : Nat} {proc' : Proc} {record : Option RunRecord}
    {events : List Event} (hq : w'.procs[q]? = some proc')
    (hphase : proc'.phase = .loaded record events) :
    (∃ proc, w.procs[q]? = some proc ∧ proc.phase = .loaded record events ∧
      proc'.loc.runId = proc.loc.runId) ∨
    events = w.store.loadEvents proc'.loc.runId := by
  have old : ∀ {proc : Proc}, w.procs[q]? = some proc → proc'.phase = proc.phase →
      proc'.loc.runId = proc.loc.runId → (∃ proc, w.procs[q]? = some proc ∧
        proc.phase = .loaded record events ∧ proc'.loc.runId = proc.loc.runId) ∨
        events = w.store.loadEvents proc'.loc.runId :=
    fun hq same run => .inl ⟨_, hq, same.symm.trans hphase, run⟩
  cases step_happens h with
  | submit | cancel | tick => exact old hq rfl rfl
  | claim | execute =>
    rcases concat_cases hq with same | ⟨-, rfl⟩
    · exact old same rfl rfl
    · cases hphase
  | beat _ hp | stop hp | refused hp | call hp =>
    rcases procs_set hq with ⟨rfl, rfl⟩ | ⟨-, same⟩
    · exact old hp rfl rfl
    · exact old same rfl rfl
  | task hp _ _ _ _ run =>
    rcases procs_set hq with ⟨rfl, rfl⟩ | ⟨-, same⟩
    · exact old hp rfl (exec_ctx run).1
    · exact old same rfl rfl
  | @main _ _ proc o k r _ loc hp _ hmain run =>
    rcases procs_set hq with ⟨rfl, rfl⟩ | ⟨-, same⟩
    · right
      have may := (shaped _ _ hp).main
      rw [hmain, obeys_step] at may
      have may : proc.phase.allowed o := may.1
      have loading := next_loaded may hphase
      rw [loading] at may
      cases may
      have hphase : proc.phase.next .loadEvents r = .loaded record events := hphase
      rw [loading] at hphase
      rcases r with e | evs
      · cases hphase
      · cases hphase
        show events = w.store.loadEvents loc.runId
        rw [(exec_ctx run).1]
        exact exec_loadEvents run
    · exact old same rfl rfl

theorem loaded_step (numbered : w.store.Numbered)
    (shaped : ∀ (p : Nat) (proc : Proc), w.procs[p]? = some proc → proc.Shaped cfg)
    (h : w.step cfg a = some w') (inv : w.Loaded) : w'.Loaded := by
  have grows : ∀ j, w.store.loadEvents j <+: w'.store.loadEvents j := fun j => by
    obtain ⟨es, log, -⟩ := log_step numbered shaped h j
    exact ⟨es, log.symm⟩
  refine ⟨fun q proc' hq run events hphase => ?_, fun q proc' hq ctx hctx => ?_⟩
  · rcases phase_cases shaped h hq hphase with ⟨proc, hp, old, same⟩ | rfl
    · rw [same]
      exact (inv.phase q proc hp run events old).trans (grows _)
    · exact grows _
  · cases context_cases shaped h hq hctx with
    | kept hp hold run _ same =>
      rw [run, same]
      exact (inv.ctx q _ hp _ hold).trans (grows _)
    | built hp phase run =>
      rw [run, init_loaded]
      exact (inv.phase q _ hp _ _ phase).trans (grows _)

end MemoryLemmas

theorem loaded_reaches {cfg : Config} {now : Int} {ok : World → Action → Prop} {w : World}
    (h : Reaches (World.step cfg) ok (.init now) w) : w.Loaded := by
  induction h with
  | refl =>
    exact ⟨fun _ _ h => absurd h (by simp [World.init]),
      fun _ _ h => absurd h (by simp [World.init])⟩
  | tail h _ hs inv =>
    exact loaded_step (numbered_reaches h) (fun _ _ => shaped_reaches h) hs inv

/-! ## What is remembered of it -/

/-- The memory is at least what was loaded: a completion is a result, and a start without a
failure is a window or a result. -/
structure RunContext.Recalls (ctx : RunContext) : Prop where
  completed : ∀ key, logged key Payload.isCompletion ctx.loaded = true →
    (ctx.completed key).isSome = true
  started : ∀ key, logged key Payload.isStart ctx.loaded = true →
    logged key Payload.isFailure ctx.loaded = false →
    (ctx.completed key).isSome = true ∨ (ctx.unresolved key).isSome = true

/-- What a step that has looked its key up knows of it. -/
def Stage.Asked (ctx : RunContext) (key : String) : Stage → Prop
  | .boundary | .leased | .uncancelled | .admitted => ctx.completed key = none
  | .starting => ctx.completed key = none ∧ ctx.unresolved key = none
  | _ => True

structure World.Recalls (w : World) : Prop where
  ctx : ∀ (p : Nat) (proc : Proc), w.procs[p]? = some proc → ∀ ctx, proc.loc.ctx = some ctx →
    ctx.Recalls
  tasks : ∀ (p : Nat) (proc : Proc), w.procs[p]? = some proc → ∀ ctx, proc.loc.ctx = some ctx →
    ∀ c b rec t, proc.At c b rec t → t.stage.Asked ctx t.key

namespace MemoryLemmas

variable {cfg : Config} {w w' : World} {a : Action}

theorem init_recalls (run : RunRecord) (events : List Event) :
    (RunContext.init run events).Recalls := by
  refine ⟨fun key h => ?_, fun key started unfailed => ?_⟩
  · rw [init_loaded] at h
    exact LifecycleLemmas.replay_completed _ h
  · rw [init_loaded] at started unfailed
    exact LifecycleLemmas.replay_started _ (.inr (.inr started)) unfailed

theorem recalls_kept {ctx ctx' : RunContext} (h : ctx.Recalls) (loaded : ctx'.loaded = ctx.loaded)
    (memory : ∀ key, (ctx'.completed key = ctx.completed key ∧
      ctx'.unresolved key = ctx.unresolved key) ∨ (ctx'.completed key).isSome = true) :
    ctx'.Recalls := by
  refine ⟨fun key was => ?_, fun key started unfailed => ?_⟩
  · rcases memory key with ⟨completed, -⟩ | some
    · rw [completed]
      exact h.completed key (loaded ▸ was)
    · exact some
  · rcases memory key with ⟨completed, unresolved⟩ | some
    · rw [completed, unresolved]
      exact h.started key (loaded ▸ started) (loaded ▸ unfailed)
    · exact .inl some

theorem asked_congr {ctx ctx' : RunContext} {key : String} {stage : Stage}
    (h : stage.Asked ctx key) (completed : ctx'.completed key = ctx.completed key)
    (unresolved : ctx'.unresolved key = ctx.unresolved key) : stage.Asked ctx' key := by
  cases stage <;> simp only [Stage.Asked, completed, unresolved] at h ⊢ <;> exact h

/-- What a lookup answers. -/
theorem exec_lookup {now : Int} {st st' : Store} {loc loc' : Local} {ans : Answer} {key : String}
    {ctx : RunContext} (hctx : loc.ctx = some ctx) :
    (∀ r, exec cfg now st loc ans (.completed key) = some (r, st', loc') →
      r = ctx.completed key) ∧
    ∀ r, exec cfg now st loc ans (.unresolved key) = some (r, st', loc') →
      r = (ctx.unresolved key).isSome := by
  refine ⟨fun r run => ?_, fun r run => ?_⟩
  · obtain ⟨_, known, rfl, -, -⟩ := ExecLemmas.memory_cases run
    cases hctx.symm.trans known
    rfl
  · obtain ⟨_, known, rfl, -, -⟩ := ExecLemmas.memory_cases run
    cases hctx.symm.trans known
    rfl

theorem asked_next {s : StepSetup} {stage : Stage} {o : Op} {r : Ans o} {now : Int}
    {st st' : Store} {loc loc' : Local} {ans : Answer} {ctx ctx' : RunContext}
    (may : s.allowed stage o) (h : stage.Asked ctx s.key)
    (run : exec cfg now st loc ans o = some (r, st', loc')) (hctx : loc.ctx = some ctx)
    (hctx' : loc'.ctx = some ctx') : (s.next stage o r).Asked ctx' s.key := by
  have moves := StepSetup.moves may r
  generalize s.next stage o r = stage' at moves ⊢
  have kept : (∀ result, o ≠ .recordResult s.key result) →
      ctx'.completed s.key = ctx.completed s.key ∧
        ctx'.unresolved s.key = ctx.unresolved s.key := by
    intro quiet
    obtain ⟨ctx'', hctx'', -, same⟩ :=
      (TaskLemmas.sameKey_exec run (allowed_ne_newContext may) quiet).ctx ctx hctx
    cases hctx'.symm.trans hctx''
    exact same
  cases moves with
  | guard | unguarded =>
    exact (kept (by simp)).1.trans ((exec_lookup hctx).1 _ run).symm
  | owned | uncancelled | admitted => exact (kept (by simp)).1.trans h
  | fresh =>
    obtain ⟨completed, unresolved⟩ := kept (by simp)
    refine ⟨completed.trans h, unresolved.trans ?_⟩
    have told := (exec_lookup hctx).2 _ run
    cases hu : ctx.unresolved s.key with
    | none => rfl
    | some token => simp [hu] at told
  | _ => trivial

theorem recalls_step (shaped : ∀ (p : Nat) (proc : Proc), w.procs[p]? = some proc → proc.Shaped cfg)
    (h : w.step cfg a = some w') (inv : w.Recalls) : w'.Recalls := by
  refine ⟨fun q proc' hq ctx hctx => ?_, fun q proc' hq ctx' hctx' c b rec' t' at' => ?_⟩
  · cases context_cases shaped h hq hctx with
    | kept hp hold _ _ loaded memory => exact recalls_kept (inv.ctx q _ hp _ hold) loaded memory
    | built => exact init_recalls _ _
  · cases task_cases shaped h hq at' with
    | same hp at_ _ same =>
      obtain ⟨ctx, hctx⟩ := Option.isSome_iff_exists.mp (TaskLemmas.at_known (shaped _ _ hp) at_)
      obtain ⟨ctx'', hctx'', -, completed, unresolved⟩ := same.ctx ctx hctx
      cases hctx'.symm.trans hctx''
      exact asked_congr (inv.tasks q _ hp ctx hctx _ _ _ _ at_) completed unresolved
    | called => trivial
    | moved _ hp _ at_ _ _ run may =>
      obtain ⟨ctx, hctx⟩ := Option.isSome_iff_exists.mp (TaskLemmas.at_known (shaped _ _ hp) at_)
      exact asked_next may (inv.tasks q _ hp ctx hctx _ _ _ _ at_) run hctx hctx'

end MemoryLemmas

theorem recalls_reaches {cfg : Config} {now : Int} {ok : World → Action → Prop} {w : World}
    (h : Reaches (World.step cfg) ok (.init now) w) : w.Recalls := by
  induction h with
  | refl =>
    exact ⟨fun _ _ h => absurd h (by simp [World.init]),
      fun _ _ h => absurd h (by simp [World.init])⟩
  | tail h _ hs inv => exact recalls_step (fun _ _ => shaped_reaches h) hs inv

end AnchorRuntime
