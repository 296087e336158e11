import AnchorRuntime.Steps
import AnchorRuntime.Keys
import AnchorRuntime.Lib.Slots

/-!
# What every attempt looks like

The invariants of an attempt that need no assumption on the schedule: its main code and its
tasks are where their machines say, its keys are distinct, and it has no task before it has
a context.

Results: `Kept.reaches`, an invariant of attempts holds in every reachable world once each
kind of step keeps it; `shaped_reaches`, every attempt is `Shaped`; `numbered_reaches`.
-/

namespace AnchorRuntime

open Effect Machine Slots

/-! ## Tasks of an attempt -/

/-- Task `b` of call `c` of the attempt, with its record. -/
def Proc.At (proc : Proc) (c b : Nat) (rec : CallRecord) (t : Task) : Prop :=
  proc.calls[c]? = some rec ∧ rec.tasks[b]? = some t

/-- The keys the attempt has allocated, in order. -/
def Proc.keys (proc : Proc) : List String := proc.calls.flatMap fun r => r.tasks.map (·.key)

/-- The places calls are made from: the workflow, or a task of the attempt. -/
def Proc.Caller (proc : Proc) (path : List Place) (role : Role) : Prop :=
  (path = [] ∧ role = .workflow) ∨
    (role ≠ .workflow ∧ ∃ c b rec t, proc.At c b rec t ∧ path = t.path)

/-- Records that differ in the progress of their tasks only. -/
structure CallRecord.SameCall (a b : CallRecord) : Prop where
  caller : b.caller = a.caller
  role : b.role = a.role
  index : b.index = a.index
  call : b.call = a.call
  refused : b.refused = a.refused

namespace ProcLemmas

variable {proc : Proc} {c b c' b' : Nat} {rec rec' : CallRecord} {t t' t'' : Task}

theorem at_key_mem (h : proc.At c b rec t) : t.key ∈ proc.keys :=
  List.mem_flatMap.mpr ⟨rec, List.mem_of_getElem? h.1,
    List.mem_map_of_mem (List.mem_of_getElem? h.2)⟩

theorem mem_keys {key : String} (h : key ∈ proc.keys) :
    ∃ c b rec t, proc.At c b rec t ∧ t.key = key := by
  obtain ⟨rec, hrec, hkey⟩ := List.mem_flatMap.mp h
  obtain ⟨t, ht, rfl⟩ := List.mem_map.mp hkey
  obtain ⟨c, hc⟩ := List.mem_iff_getElem?.mp hrec
  obtain ⟨b, hb⟩ := List.mem_iff_getElem?.mp ht
  exact ⟨c, b, rec, t, ⟨hc, hb⟩, rfl⟩

/-- A search through the tasks of an attempt. -/
theorem any_task {f : CallRecord → Task → Bool} :
    (proc.calls.any fun rec => rec.tasks.any (f rec)) = true ↔
      ∃ c b rec t, proc.At c b rec t ∧ f rec t = true := by
  simp only [List.any_eq_true]
  constructor
  · rintro ⟨rec, hrec, t, ht, is⟩
    obtain ⟨c, hc⟩ := List.getElem?_of_mem hrec
    obtain ⟨b, hb⟩ := List.getElem?_of_mem ht
    exact ⟨c, b, rec, t, ⟨hc, hb⟩, is⟩
  · rintro ⟨c, b, rec, t, at_, is⟩
    exact ⟨rec, List.mem_of_getElem? at_.1, t, List.mem_of_getElem? at_.2, is⟩

/-- A search through the tasks of certain calls. -/
theorem any_task_of {f : CallRecord → Bool} {g : Task → Bool} :
    (proc.calls.any fun rec => f rec && rec.tasks.any g) = true ↔
      ∃ c b rec t, proc.At c b rec t ∧ f rec = true ∧ g t = true := by
  simp only [List.and_any_distrib_left, any_task, Bool.and_eq_true]

/-- Distinct keys: a key belongs to one task. -/
theorem at_key_inj (nodup : proc.keys.Nodup) (h : proc.At c b rec t) (h' : proc.At c' b' rec' t')
    (same : t.key = t'.key) : c = c' ∧ b = b' := by
  obtain ⟨each, apart⟩ := List.nodup_flatMap.mp nodup
  have one_call : ∀ {i j : Nat} {r s : CallRecord} {k : String}, proc.calls[i]? = some r →
      proc.calls[j]? = some s → k ∈ r.tasks.map (·.key) → k ∈ s.tasks.map (·.key) → ¬ i < j := by
    intro i j r s k hr hs kr ks lt
    obtain ⟨bi, rfl⟩ := List.getElem?_eq_some_iff.mp hr
    obtain ⟨bj, rfl⟩ := List.getElem?_eq_some_iff.mp hs
    exact List.pairwise_iff_getElem.mp apart i j bi bj lt kr ks
  have key_here : t.key ∈ rec.tasks.map (·.key) := List.mem_map_of_mem (List.mem_of_getElem? h.2)
  have key_there : t.key ∈ rec'.tasks.map (·.key) :=
    same ▸ List.mem_map_of_mem (List.mem_of_getElem? h'.2)
  obtain rfl : c = c' := by
    rcases Nat.lt_trichotomy c c' with lt | eq | gt
    · exact absurd lt (one_call h.1 h'.1 key_here key_there)
    · exact eq
    · exact absurd gt (one_call h'.1 h.1 key_there key_here)
  obtain rfl : rec = rec' := Option.some.inj (h.1.symm.trans h'.1)
  refine ⟨rfl, ?_⟩
  have nodup_rec := each rec (List.mem_of_getElem? h.1)
  have bound : b < (rec.tasks.map (·.key)).length := by
    simpa using (List.getElem?_eq_some_iff.mp h.2).1
  refine (List.getElem?_inj bound nodup_rec).mp ?_
  rw [List.getElem?_map, List.getElem?_map, h.2, h'.2]
  exact congrArg some same

theorem setTask_calls (c' : Nat) : (proc.setTask c b t').calls[c']? =
    if c = c' then (proc.calls[c']?).map fun r => { r with tasks := r.tasks.set b t' }
    else proc.calls[c']? := by
  simp only [Proc.setTask, List.getElem?_modify]
  split
  · rfl
  · simp

/-- A task after the progress of one. -/
theorem at_setTask (h : proc.At c b rec t) (h' : (proc.setTask c b t').At c' b' rec' t'') :
    ∃ old, proc.calls[c']? = some old ∧ old.SameCall rec' ∧
      ((c' = c ∧ b' = b ∧ t'' = t') ∨ (¬ (c' = c ∧ b' = b) ∧ proc.At c' b' old t'')) := by
  obtain ⟨hrec', ht''⟩ := h'
  rw [setTask_calls] at hrec'
  split at hrec'
  · next e =>
    subst e
    rw [h.1] at hrec'
    cases hrec'
    refine ⟨rec, h.1, ⟨rfl, rfl, rfl, rfl, rfl⟩, ?_⟩
    rw [List.getElem?_set] at ht''
    split at ht''
    · next e =>
      subst e
      split at ht''
      · cases ht''
        exact .inl ⟨rfl, rfl, rfl⟩
      · exact absurd ht'' (by simp)
    · next ne => exact .inr ⟨fun e => ne e.2.symm, h.1, ht''⟩
  · next ne =>
    exact ⟨rec', hrec', ⟨rfl, rfl, rfl, rfl, rfl⟩, .inr ⟨fun e => ne e.1.symm, hrec', ht''⟩⟩

/-- Progress of a task changes nothing of its call that does not depend on it. -/
theorem tasks_set {γ : Type} {f : Task → γ} (h : proc.At c b rec t) (same : f t' = f t) :
    (rec.tasks.set b t').map f = rec.tasks.map f := by
  have old : (rec.tasks.map f)[b]? = some (f t') := by
    rw [List.getElem?_map, h.2, same]
    rfl
  obtain ⟨bound, is⟩ := List.getElem?_eq_some_iff.mp old
  rw [List.map_set, ← is, List.set_getElem_self]

/-- Progress of a task changes nothing that does not depend on it. -/
theorem map_setTask {γ : Type} {f : CallRecord → γ} (h : proc.At c b rec t)
    (same : f { rec with tasks := rec.tasks.set b t' } = f rec) :
    (proc.setTask c b t').calls.map f = proc.calls.map f := by
  refine List.ext_getElem? fun i => ?_
  rw [List.getElem?_map, setTask_calls, List.getElem?_map]
  split
  · next e =>
    subst e
    rw [h.1]
    exact congrArg some same
  · rfl

/-- Progress allocates nothing. -/
theorem keys_setTask (h : proc.At c b rec t) (same : t'.key = t.key) :
    (proc.setTask c b t').keys = proc.keys :=
  congrArg List.flatten (map_setTask h (tasks_set h same))

@[simp] theorem setTask_loc : (proc.setTask c b t').loc = proc.loc := rfl

@[simp] theorem setTask_main : (proc.setTask c b t').main = proc.main := rfl

@[simp] theorem setTask_phase : (proc.setTask c b t').phase = proc.phase := rfl

@[simp] theorem setTask_started : (proc.setTask c b t').started = proc.started := rfl

@[simp] theorem setTask_stopped : (proc.setTask c b t').stopped = proc.stopped := rfl

/-- The tasks after a call: those from before and those of the call. -/
theorem at_concat {rec₀ : CallRecord} {loc : Local}
    (h : Proc.At { proc with loc, calls := proc.calls ++ [rec₀] } c b rec t) :
    proc.At c b rec t ∨ (c = proc.calls.length ∧ rec = rec₀ ∧ rec₀.tasks[b]? = some t) := by
  obtain ⟨hrec, ht⟩ := h
  rcases concat_cases hrec with old | ⟨rfl, rfl⟩
  · exact .inl ⟨old, ht⟩
  · exact .inr ⟨rfl, rfl, ht⟩

theorem keys_concat (proc : Proc) (rec₀ : CallRecord) (loc : Local) :
    Proc.keys { proc with loc, calls := proc.calls ++ [rec₀] } =
      proc.keys ++ rec₀.tasks.map (·.key) := by
  simp [Proc.keys, List.flatMap_append]

theorem newTasks_keys (cfg : Config) (caller : List Place) (role : Role) (call : Call)
    (keys : List String) : (proc.newTasks cfg caller role call keys).map (·.key) = keys := by
  refine List.ext_getElem? fun i => ?_
  simp only [Proc.newTasks, List.getElem?_map, List.getElem?_mapIdx, Option.map_map]
  cases keys[i]? <;> rfl

theorem newTasks_get {cfg : Config} {caller : List Place} {role : Role} {call : Call}
    {keys : List String} (h : (proc.newTasks cfg caller role call keys)[b]? = some t) :
    ∃ key, keys[b]? = some key ∧
      t = ⟨key, caller ++ [⟨role = .verify, proc.callsBy caller role, b⟩], .entry,
        call.code cfg proc.loc.runId proc.loc.guarded key⟩ := by
  rw [Proc.newTasks, List.getElem?_mapIdx] at h
  obtain ⟨key, hkey, rfl⟩ := Option.map_eq_some_iff.mp h
  exact ⟨key, hkey, rfl⟩

theorem callerPath_caller {w : World} {p : Nat} {role : Role} {caller : Option (Nat × Nat)}
    {path : List Place} (h : w.callerPath p proc role caller = some path) :
    proc.Caller path role := by
  unfold World.callerPath at h
  split at h
  · split at h
    · next is =>
      cases h
      simp only [Bool.and_eq_true, decide_eq_true_eq] at is
      exact .inl ⟨rfl, is.1⟩
    · exact absurd h (by simp)
  · split at h
    · next t ht =>
      split at h
      · next is =>
        cases h
        simp only [ne_eq, Bool.and_eq_true, decide_eq_true_eq] at is
        obtain ⟨rec, hrec, hb⟩ := Option.bind_eq_some_iff.mp ht
        exact .inr ⟨is.1, _, _, rec, t, ⟨hrec, hb⟩, rfl⟩
      · exact absurd h (by simp)
    · exact absurd h (by simp)

end ProcLemmas

open ProcLemmas

/-! ## Invariants of attempts -/

/-- A predicate on attempts that every kind of step keeps. -/
structure Kept (cfg : Config) (I : Proc → Prop) : Prop where
  claimed : ∀ worker runId, I (.claimed cfg worker runId)
  executed : ∀ runId, I (.executed cfg runId)
  beat : ∀ proc beat, I proc → I { proc with loc := { proc.loc with beat } }
  main : ∀ proc o k r now st st' loc ans, I proc → proc.main = .step o k →
    exec cfg now st proc.loc ans o = some (r, st', loc) →
    I { proc with loc, phase := proc.phase.next o r, main := k r, started := true }
  task : ∀ proc c b rec t o k r now st st' loc ans, I proc → proc.At c b rec t →
    t.prog = .step o k → exec cfg now st proc.loc ans o = some (r, st', loc) →
    I ({ proc with loc }.setTask c b
      { t with
        stage := (rec.call.setup cfg proc.loc.runId proc.loc.guarded t.key).next t.stage o r
        prog := k r })
  refused : ∀ proc path role c exc ctx, I proc → proc.Caller path role →
    proc.loc.ctx = some ctx → c.names cfg = .error exc →
    I { proc with
      calls := proc.calls ++ [⟨path, role, proc.callsBy path role, c, some exc, []⟩] }
  call : ∀ proc path role c names ctx, I proc → proc.Caller path role →
    proc.loc.ctx = some ctx → c.names cfg = .ok names →
    I { proc with
      loc := { proc.loc with ctx := some (ctx.nextKeys names).2 }
      calls := proc.calls ++ [⟨path, role, proc.callsBy path role, c, none,
        proc.newTasks cfg path role c (ctx.nextKeys names).1⟩] }
  stop : ∀ proc, I proc → I { proc with stopped := true }

theorem Kept.step {cfg : Config} {I : Proc → Prop} (kept : Kept cfg I) {w w' : World}
    {a : Action} (h : w.step cfg a = some w')
    (inv : ∀ (p : Nat) (proc : Proc), w.procs[p]? = some proc → I proc)
    (p : Nat) (proc : Proc) (hproc : w'.procs[p]? = some proc) : I proc := by
  have set : ∀ {q : Nat} {old new : Proc}, w.procs[q]? = some old → (I old → I new) →
      (w.procs.set q new)[p]? = some proc → I proc := by
    intro q old new hold keeps hnew
    rw [List.getElem?_set] at hnew
    split at hnew
    · split at hnew
      · cases hnew
        exact keeps (inv q old hold)
      · exact absurd hnew (by simp)
    · exact inv p proc hnew
  cases step_happens h with
  | submit | cancel | tick => exact inv p proc hproc
  | claim =>
    rcases concat_cases hproc with old | ⟨-, rfl⟩
    · exact inv p proc old
    · exact kept.claimed _ _
  | execute =>
    rcases concat_cases hproc with old | ⟨-, rfl⟩
    · exact inv p proc old
    · exact kept.executed _
  | beat b hp _ _ _ => exact set hp (kept.beat _ b) hproc
  | main hp _ hmain hexec => exact set hp (fun i => kept.main _ _ _ _ _ _ _ _ _ i hmain hexec) hproc
  | task hp _ hrec ht hprog hexec =>
    exact set hp (fun i => kept.task _ _ _ _ _ _ _ _ _ _ _ _ _ i ⟨hrec, ht⟩ hprog hexec) hproc
  | refused hp _ hpath hctx hnames =>
    exact set hp (fun i => kept.refused _ _ _ _ _ _ i (callerPath_caller hpath) hctx hnames) hproc
  | call hp _ hpath hctx hnames =>
    exact set hp (fun i => kept.call _ _ _ _ _ _ i (callerPath_caller hpath) hctx hnames) hproc
  | stop hp => exact set hp (kept.stop _) hproc

theorem Kept.reaches {cfg : Config} {I : Proc → Prop} (kept : Kept cfg I) {now : Int}
    {ok : World → Action → Prop} {w : World} (h : Reaches (World.step cfg) ok (.init now) w) :
    ∀ (p : Nat) (proc : Proc), w.procs[p]? = some proc → I proc := by
  induction h with
  | refl => exact fun p proc hproc => absurd hproc (by simp [World.init])
  | tail _ _ hs inv => exact kept.step hs inv

/-! ## The shape of an attempt -/

/-- The phases before an attempt has a context. -/
def Phase.early : Phase → Prop
  | .start | .checked | .resuming | .starting | .reading | .loading _ | .loaded _ _ => True
  | _ => False

/-- What the code of an attempt and its tasks may still do, and what its memory is good for. -/
structure Proc.Shaped (cfg : Config) (proc : Proc) : Prop where
  main : Obeys attemptProtocol proc.phase proc.main fun _ _ => True
  early : proc.phase.early → proc.loc.ctx = none
  uncalled : proc.loc.ctx = none → proc.calls = []
  fresh : proc.started = false → proc.phase = .start
  known : ∀ c b rec t, proc.At c b rec t → ∃ names, rec.call.names cfg = .ok names
  tasks : ∀ c b rec t, proc.At c b rec t →
    Obeys (stepProtocol (rec.call.setup cfg proc.loc.runId proc.loc.guarded t.key)) t.stage t.prog
      ((rec.call.setup cfg proc.loc.runId proc.loc.guarded t.key).Ends rec.call.reply)
  nodup : proc.keys.Nodup
  allocated : ∀ ctx, proc.loc.ctx = some ctx → ∀ key ∈ proc.keys, ctx.Allocated key

namespace ShapeLemmas

variable {cfg : Config} {proc : Proc}

/-- Before it has a context an attempt only gets one where it builds it. -/
theorem early_next {phase : Phase} {o : Op} {r : Ans o} (may : phase.allowed o)
    (early : (phase.next o r).early) :
    phase.early ∧ ∀ run events, o ≠ .newContext run events := by
  have moves := Phase.moves may r
  generalize phase.next o r = phase' at moves early
  cases moves with
  | leave name input r =>
    cases r with
    | ok v => exact early.elim
    | error exc => cases exc <;> exact early.elim
  | snapshot r is =>
    obtain ⟨_, rfl⟩ | rfl | rfl := is <;> exact early.elim
  | stopHeartbeat r is =>
    obtain rfl | rfl | rfl := is <;> exact early.elim
  | build | undo | enter | unknown | completed | cancelled | exceeded | review | failed | saveUsage
  | finish | dequeue | release | terminal | missing | vanished | raise => exact early.elim
  | _ => exact ⟨trivial, by simp⟩

/-- An attempt builds its context from the events it has loaded. -/
theorem newContext_loaded {phase : Phase} {run : RunRecord} {events : List Event}
    (may : phase.allowed (.newContext run events)) : phase = .loaded (some run) events := by
  have moves := Phase.moves may ()
  generalize phase.next (.newContext run events) () = phase' at moves
  cases moves with
  | build => rfl
  | raise _ failed => cases failed

/-- An attempt builds its context before it has one. -/
theorem newContext_early {phase : Phase} {run : RunRecord} {events : List Event}
    (may : phase.allowed (.newContext run events)) : phase.early := by
  rw [newContext_loaded may]
  trivial

/-- Only the answer to `load_events` makes an attempt go on with events. -/
theorem next_loaded {phase : Phase} {o : Op} {r : Ans o} {run : Option RunRecord}
    {events : List Event} (may : phase.allowed o) (h : phase.next o r = .loaded run events) :
    phase = .loading run := by
  have moves := Phase.moves may r
  generalize phase.next o r = phase' at moves h
  cases moves with
  | load =>
    cases h
    rfl
  | leave name input r =>
    cases r with
    | ok v => cases h
    | error exc => cases exc <;> cases h
  | snapshot r is => obtain ⟨_, rfl⟩ | rfl | rfl := is <;> cases h
  | stopHeartbeat r is => obtain rfl | rfl | rfl := is <;> cases h
  | _ => cases h

/-- A step of a workflow builds no context. -/
theorem allowed_ne_newContext {s : StepSetup} {stage : Stage} {o : Op} (may : s.allowed stage o)
    (run : RunRecord) (events : List Event) : o ≠ .newContext run events := by
  rintro rfl
  cases stage <;> simp [StepSetup.allowed] at may

/-- Away from its construction a context keeps its counters and what it was built from. -/
theorem remembered_same {o : Op} {a b : Option RunContext} (h : Remembered o a b)
    (built : ∀ run events, o ≠ .newContext run events) :
    (a = none ∧ b = none) ∨ ∃ ctx ctx', a = some ctx ∧ b = some ctx' ∧ ctx'.run = ctx.run ∧
      ctx'.loaded = ctx.loaded ∧ ctx'.ordinals = ctx.ordinals := by
  cases h with
  | none => exact .inl ⟨rfl, rfl⟩
  | same same => exact .inr ⟨_, _, rfl, rfl, same.run, same.loaded, same.ordinals⟩
  | build => exact absurd rfl (built _ _)
  | record => exact .inr ⟨_, _, rfl, rfl, rfl, rfl, rfl⟩

theorem remembered_none {o : Op} {a b : Option RunContext} (h : Remembered o a b)
    (none : b = none) : a = Option.none := by
  subst none
  cases h
  rfl

theorem shaped_claimed (worker : String) (runId : Uuid) :
    (Proc.claimed cfg worker runId).Shaped cfg where
  main := process_obeys cfg runId
  early := fun _ => rfl
  uncalled := fun _ => rfl
  fresh := fun _ => rfl
  known := fun _ _ _ _ h => absurd h.1 (by simp [Proc.claimed])
  tasks := fun _ _ _ _ h => absurd h.1 (by simp [Proc.claimed])
  nodup := List.nodup_nil
  allocated := fun _ h => absurd h (by simp [Proc.claimed])

theorem shaped_executed (runId : Uuid) : (Proc.executed cfg runId).Shaped cfg where
  main := by
    show Obeys _ _ (execute cfg runId >>= fun outcome => pure (some outcome)) _
    rw [obeys_bind]
    refine (execute_obeys cfg runId).mono fun phase r _ => ?_
    cases r <;> trivial
  early := fun _ => rfl
  uncalled := fun _ => rfl
  fresh := fun _ => rfl
  known := fun _ _ _ _ h => absurd h.1 (by simp [Proc.executed])
  tasks := fun _ _ _ _ h => absurd h.1 (by simp [Proc.executed])
  nodup := List.nodup_nil
  allocated := fun _ h => absurd h (by simp [Proc.executed])

theorem shaped_main {o : Op} {k : Ans o → Code (Option Outcome)} {r : Ans o} {now : Int}
    {st st' : Store} {loc : Local} {ans : Answer} (h : proc.Shaped cfg)
    (hmain : proc.main = .step o k)
    (run : exec cfg now st proc.loc ans o = some (r, st', loc)) :
    Proc.Shaped cfg
      { proc with loc, phase := proc.phase.next o r, main := k r, started := true } := by
  have obeys := h.main
  rw [hmain, obeys_step] at obeys
  obtain ⟨runId, worker, remembered⟩ := exec_ctx run
  have guarded : loc.guarded = proc.loc.guarded := by rw [Local.guarded, worker, Local.guarded]
  refine ⟨obeys.2 r, fun early => ?_, fun none => ?_, fun no => absurd no (by simp), h.known,
    fun c b rec t at_ => ?_, h.nodup, fun ctx hctx key mem => ?_⟩
  · obtain ⟨was, built⟩ := early_next obeys.1 early
    have none := h.early was
    rcases remembered_same remembered built with ⟨-, none⟩ | ⟨_, _, some, -⟩
    · exact none
    · exact absurd (none.symm.trans some) (by simp)
  · exact h.uncalled (remembered_none remembered none)
  · have := h.tasks c b rec t at_
    show Obeys (stepProtocol (rec.call.setup cfg loc.runId loc.guarded t.key)) _ _ _
    rw [runId, guarded]
    exact this
  · by_cases built : ∃ run events, o = .newContext run events
    · obtain ⟨run, events, rfl⟩ := built
      have uncalled := h.uncalled (h.early (newContext_early obeys.1))
      have mem : key ∈ proc.keys := mem
      rw [Proc.keys, uncalled] at mem
      exact absurd mem (by simp)
    · rcases remembered_same remembered (fun run events e => built ⟨run, events, e⟩) with
        ⟨-, none⟩ | ⟨before, after, hbefore, hafter, -, -, ordinals⟩
      · exact absurd (hctx.symm.trans none) (by simp)
      · cases hctx.symm.trans hafter
        exact RunContext.allocated_mono (fun name => by rw [ordinals])
          (h.allocated before hbefore key mem)

theorem shaped_task {c b : Nat} {rec : CallRecord} {t : Task} {o : Op} {k : Ans o → Code Value}
    {r : Ans o} {now : Int} {st st' : Store} {loc : Local} {ans : Answer} (h : proc.Shaped cfg)
    (at_ : proc.At c b rec t) (hprog : t.prog = .step o k)
    (run : exec cfg now st proc.loc ans o = some (r, st', loc)) :
    Proc.Shaped cfg ({ proc with loc }.setTask c b
      { t with
        stage := (rec.call.setup cfg proc.loc.runId proc.loc.guarded t.key).next t.stage o r
        prog := k r }) := by
  have obeys := h.tasks c b rec t at_
  rw [hprog, obeys_step, StepMachineLemmas.stepProtocol_allowed,
    StepMachineLemmas.stepProtocol_next] at obeys
  obtain ⟨runId, worker, remembered⟩ := exec_ctx run
  have guarded : loc.guarded = proc.loc.guarded := by rw [Local.guarded, worker, Local.guarded]
  have at_loc : Proc.At { proc with loc } c b rec t := at_
  have keys : Proc.keys ({ proc with loc }.setTask c b
      { t with
        stage := (rec.call.setup cfg proc.loc.runId proc.loc.guarded t.key).next t.stage o r
        prog := k r }) = proc.keys := keys_setTask at_loc rfl
  obtain ⟨ctx₀, some₀⟩ : ∃ ctx, proc.loc.ctx = some ctx := by
    cases hctx : proc.loc.ctx with
    | none => exact absurd at_.1 (by simp [h.uncalled hctx])
    | some ctx => exact ⟨ctx, rfl⟩
  rcases remembered_same remembered (allowed_ne_newContext obeys.1) with
    ⟨none, -⟩ | ⟨before, after, hbefore, hafter, -, -, ordinals⟩
  · exact absurd (some₀.symm.trans none) (by simp)
  refine ⟨h.main, fun early => ?_, fun none => ?_, h.fresh, fun c' b' rec' t' at' => ?_,
    fun c' b' rec' t' at' => ?_, keys ▸ h.nodup, fun ctx hctx key mem => ?_⟩
  · exact absurd (some₀.symm.trans (h.early early)) (by simp)
  · exact absurd (hafter.symm.trans none) (by simp)
  · obtain ⟨old, hold, same, ⟨rfl, -, -⟩ | ⟨-, at_old⟩⟩ := at_setTask at_loc at'
    · obtain rfl : old = rec := Option.some.inj (hold.symm.trans at_.1)
      rw [same.call]
      exact h.known _ _ _ _ at_
    · rw [same.call]
      exact h.known _ _ _ _ at_old
  · show Obeys (stepProtocol (rec'.call.setup cfg loc.runId loc.guarded t'.key)) _ _
      ((rec'.call.setup cfg loc.runId loc.guarded t'.key).Ends _)
    rw [runId, guarded]
    obtain ⟨old, hold, same, ⟨rfl, -, ht⟩ | ⟨-, at_old⟩⟩ := at_setTask at_loc at'
    · obtain rfl : old = rec := Option.some.inj (hold.symm.trans at_.1)
      rw [same.call, ht]
      exact obeys.2 r
    · rw [same.call]
      exact h.tasks _ _ _ _ at_old
  · cases hctx.symm.trans hafter
    rw [keys] at mem
    exact RunContext.allocated_mono (fun name => by rw [ordinals])
      (h.allocated before hbefore key mem)

theorem shaped_refused {path : List Place} {role : Role} {c : Call} {exc : Exn} {ctx : RunContext}
    (h : proc.Shaped cfg) (hctx : proc.loc.ctx = some ctx) :
    Proc.Shaped cfg { proc with
      calls := proc.calls ++ [⟨path, role, proc.callsBy path role, c, some exc, []⟩] } := by
  have old : ∀ {c' b rec t}, Proc.At { proc with
      calls := proc.calls ++ [⟨path, role, proc.callsBy path role, c, some exc, []⟩] } c' b rec t →
      proc.At c' b rec t := by
    intro c' b rec t at_
    rcases at_concat at_ with old | ⟨-, -, none⟩
    · exact old
    · exact absurd none (by simp)
  have keys : Proc.keys { proc with
      calls := proc.calls ++ [⟨path, role, proc.callsBy path role, c, some exc, []⟩] } =
      proc.keys := (keys_concat proc _ proc.loc).trans (by simp)
  refine ⟨h.main, h.early, fun none => ?_, h.fresh, fun c' b rec t at_ => h.known _ _ _ _ (old at_),
    fun c' b rec t at_ => h.tasks _ _ _ _ (old at_), keys ▸ h.nodup, ?_⟩
  · exact absurd (hctx.symm.trans none) (by simp)
  · rw [keys]
    exact h.allocated

theorem shaped_call {path : List Place} {role : Role} {c : Call} {names : List String}
    {ctx : RunContext} (h : proc.Shaped cfg) (hctx : proc.loc.ctx = some ctx)
    (hnames : c.names cfg = .ok names) :
    Proc.Shaped cfg { proc with
      loc := { proc.loc with ctx := some (ctx.nextKeys names).2 }
      calls := proc.calls ++ [⟨path, role, proc.callsBy path role, c, none,
        proc.newTasks cfg path role c (ctx.nextKeys names).1⟩] } := by
  have keys := (keys_concat proc ⟨path, role, proc.callsBy path role, c, none,
    proc.newTasks cfg path role c (ctx.nextKeys names).1⟩
    { proc.loc with ctx := some (ctx.nextKeys names).2 }).trans
    (by rw [newTasks_keys])
  refine ⟨h.main, fun early => ?_, fun none => absurd none (by simp), h.fresh,
    fun c' b rec t at_ => ?_, fun c' b rec t at_ => ?_, ?_, fun ctx' hctx' key mem => ?_⟩
  · exact absurd (hctx.symm.trans (h.early early)) (by simp)
  · rcases at_concat at_ with old | ⟨-, rfl, -⟩
    · exact h.known _ _ _ _ old
    · exact ⟨names, hnames⟩
  · rcases at_concat at_ with old | ⟨-, rfl, new⟩
    · exact h.tasks _ _ _ _ old
    · obtain ⟨key, -, rfl⟩ := newTasks_get new
      exact call_obeys hnames
  · rw [keys, List.nodup_append]
    refine ⟨h.nodup, RunContext.nextKeys_nodup ctx names, fun a ha b hb e => ?_⟩
    exact RunContext.nextKeys_fresh ctx names hb (e ▸ h.allocated ctx hctx a ha)
  · cases hctx'
    rw [keys] at mem
    rcases List.mem_append.mp mem with old | new
    · refine RunContext.allocated_mono (fun name => ?_) (h.allocated ctx hctx key old)
      rw [RunContext.nextKeys_ordinals]
      omega
    · exact RunContext.nextKeys_allocated ctx names new

theorem shaped_kept : Kept cfg (Proc.Shaped cfg) where
  claimed := shaped_claimed
  executed := shaped_executed
  beat := fun _ _ h =>
    ⟨h.main, h.early, h.uncalled, h.fresh, h.known, h.tasks, h.nodup, h.allocated⟩
  main := fun _ _ _ _ _ _ _ _ _ h hmain run => shaped_main h hmain run
  task := fun _ _ _ _ _ _ _ _ _ _ _ _ _ h at_ hprog run => shaped_task h at_ hprog run
  refused := fun _ _ _ _ _ _ h _ hctx _ => shaped_refused h hctx
  call := fun _ _ _ _ _ _ h _ hctx hnames => shaped_call h hctx hnames
  stop := fun _ h => ⟨h.main, h.early, h.uncalled, h.fresh, h.known, h.tasks, h.nodup, h.allocated⟩

end ShapeLemmas

open ShapeLemmas

/-- Every attempt of every reachable world is well shaped. -/
theorem shaped_reaches {cfg : Config} {now : Int} {ok : World → Action → Prop} {w : World}
    (h : Reaches (World.step cfg) ok (.init now) w) {p : Nat} {proc : Proc}
    (hproc : w.procs[p]? = some proc) : proc.Shaped cfg :=
  shaped_kept.reaches h p proc hproc

/-! ## The log -/

/-- The actions that run code of an attempt. -/
def Action.runsCode : Action → Prop
  | .main _ _ | .task _ _ _ _ => True
  | _ => False

/-- What an action that runs no code of an attempt does to the logs: it may add events of the
run itself, under no step key. -/
theorem quiet_log {cfg : Config} {w w' : World} {a : Action} (numbered : w.store.Numbered)
    (h : w.step cfg a = some w') (outside : ¬ a.runsCode) :
    w'.store.Numbered ∧ ∀ j, ∃ es, w'.store.loadEvents j = w.store.loadEvents j ++ es ∧
      ∀ e ∈ es, e.stepKey = none := by
  have same : ∀ {st : Store}, (st.Numbered ∧ ∀ j, st.loadEvents j = w.store.loadEvents j) →
      st.Numbered ∧ ∀ j, ∃ es, st.loadEvents j = w.store.loadEvents j ++ es ∧
        ∀ e ∈ es, e.stepKey = none :=
    fun h => ⟨h.1, fun j => ⟨[], by rw [h.2, List.append_nil], by simp⟩⟩
  cases step_happens h with
  | submit done => exact submitRun_log numbered done
  | cancel done => exact requestCancel_log numbered done
  | @claim worker locked _ _ done =>
    have log := claim_log numbered w.now worker cfg.leaseSeconds locked
    rw [done] at log
    exact same log
  | beat b hp live hworker store =>
    rcases store with rfl | rfl
    · exact same ⟨numbered, fun _ => rfl⟩
    · exact same (heartbeat_log numbered _ _ _ _)
  | main => exact absurd trivial outside
  | task => exact absurd trivial outside
  | _ => exact same ⟨numbered, fun _ => rfl⟩

theorem numbered_reaches {cfg : Config} {now : Int} {ok : World → Action → Prop} {w : World}
    (h : Reaches (World.step cfg) ok (.init now) w) : w.store.Numbered := by
  induction h with
  | refl => exact StoreLemmas.numbered_empty
  | @tail t u a _ _ hs numbered =>
    by_cases code : a.runsCode
    · cases step_happens hs with
      | main _ _ _ run => exact (exec_log numbered run).1
      | task _ _ _ _ _ run => exact (exec_log numbered run).1
      | _ => exact code.elim
    · exact (quiet_log numbered hs code).1

/-- What an action that runs no code of an attempt does to the fate of a run and to its place
in the queue: nothing, unless it submits it. -/
theorem quiet_standing {cfg : Config} {w w' : World} {a : Action} (h : w.step cfg a = some w')
    (outside : ¬ a.runsCode) (j : Uuid) :
    (w'.store.standing j = w.store.standing j ∧
      (w'.store.runQueue.find j).isSome = (w.store.runQueue.find j).isSome) ∨
    (w.store.standing j = none ∧ w'.store.standing j = some (.pending, .none, none) ∧
      (w'.store.runQueue.find j).isSome = true) := by
  cases step_happens h with
  | submit done =>
    rcases submitRun_standing done j with ⟨standing, queue⟩ | new
    · exact .inl ⟨standing, by rw [queue]⟩
    · exact .inr new
  | cancel done =>
    obtain ⟨standing, queue⟩ := requestCancel_standing done j
    exact .inl ⟨standing, by rw [queue]⟩
  | @claim worker locked _ _ done =>
    have standing := claim_standing w.store w.now worker cfg.leaseSeconds locked j
    rw [done] at standing
    exact .inl standing
  | beat b hp live hworker store =>
    rcases store with rfl | rfl
    · exact .inl ⟨rfl, rfl⟩
    · exact .inl (heartbeat_standing _ _ _ _ _ j)
  | main => exact absurd trivial outside
  | task => exact absurd trivial outside
  | _ => exact .inl ⟨rfl, rfl⟩

/-- Runs are never deleted. -/
theorem row_step {cfg : Config} {w w' : World} {a : Action} (h : w.step cfg a = some w')
    {j : Uuid} (row : (w.store.standing j).isSome = true) :
    (w'.store.standing j).isSome = true := by
  by_cases code : a.runsCode
  · cases step_happens h with
    | main _ _ _ run =>
      rw [(exec_standing run j).1]
      split <;> simpa using row
    | task _ _ _ _ _ run =>
      rw [(exec_standing run j).1]
      split <;> simpa using row
    | _ => exact code.elim
  · rcases quiet_standing h code j with ⟨same, -⟩ | ⟨none, -, -⟩
    · rw [same]
      exact row
    · exact absurd (none ▸ row) (by simp)

/-! ## Rows -/

theorem exec_getRun {cfg : Config} {now : Int} {st st' : Store} {loc loc' : Local} {ans : Answer}
    {run : Option RunRecord} (h : exec cfg now st loc ans .getRun = some (.ok run, st', loc')) :
    run = st.getRun loc.runId := by
  simp only [exec] at h
  obtain ⟨-, ⟨a, ok, same⟩ | ⟨exc, error, -⟩⟩ := ExecLemmas.storeCall_cases h
  · cases ok
    exact Except.ok.inj same
  · cases error

theorem exec_loadEvents {cfg : Config} {now : Int} {st st' : Store} {loc loc' : Local}
    {ans : Answer} {events : List Event}
    (h : exec cfg now st loc ans .loadEvents = some (.ok events, st', loc')) :
    events = st.loadEvents loc.runId := by
  simp only [exec] at h
  obtain ⟨-, ⟨a, ok, same⟩ | ⟨exc, error, -⟩⟩ := ExecLemmas.storeCall_cases h
  · cases ok
    exact Except.ok.inj same
  · cases error

/-- An attempt that has got past the status check, or has a context, is of a run that exists. -/
def World.Rows (w : World) : Prop :=
  ∀ (p : Nat) (proc : Proc), w.procs[p]? = some proc →
    (proc.phase ≠ .start ∧ proc.phase ≠ .failing) ∨ proc.loc.ctx.isSome = true →
    (w.store.standing proc.loc.runId).isSome = true

namespace ShapeLemmas

/-- The attempts after a step: one has moved or is new, the others are as they were. -/
theorem procs_set {w : World} {p q : Nat} {new proc : Proc}
    (h : (w.procs.set q new)[p]? = some proc) :
    (p = q ∧ proc = new) ∨ (p ≠ q ∧ w.procs[p]? = some proc) :=
  set_cases h

/-- Without a new context, an attempt that has one had one. -/
theorem remembered_some {o : Op} {a b : Option RunContext} (h : Remembered o a b)
    (built : ∀ run events, o ≠ .newContext run events) (some : b.isSome = true) :
    a.isSome = true := by
  rcases remembered_same h built with ⟨-, rfl⟩ | ⟨ctx, _, rfl, -⟩
  · cases some
  · rfl

theorem standing_of_row {st : Store} {runId : Uuid} {run : RunRecord}
    (h : some run = st.getRun runId) : (st.standing runId).isSome = true := by
  rw [Store.standing, ← h]
  rfl

/-- An attempt only gets past the status check by reading its run. -/
theorem main_known {cfg : Config} {proc : Proc} {o : Op} {k : Ans o → Code (Option Outcome)}
    {r : Ans o} {now : Int} {st st' : Store} {loc : Local} {ans : Answer}
    (shaped : proc.Shaped cfg) (hmain : proc.main = .step o k)
    (run : exec cfg now st proc.loc ans o = some (r, st', loc))
    (live : (proc.phase.next o r ≠ .start ∧ proc.phase.next o r ≠ .failing) ∨
      loc.ctx.isSome = true) :
    ((proc.phase ≠ .start ∧ proc.phase ≠ .failing) ∨ proc.loc.ctx.isSome = true) ∨
      (st.standing proc.loc.runId).isSome = true := by
  have may := shaped.main
  rw [hmain, obeys_step] at may
  have may := may.1
  obtain ⟨-, -, remembered⟩ := exec_ctx run
  cases phase : proc.phase with
  | start =>
    rw [phase] at may live
    cases may
    rcases live with ⟨-, checked⟩ | some
    · rcases r with e | _ | found
      · exact absurd rfl checked
      · exact absurd rfl checked
      · exact .inr (standing_of_row (exec_getRun run))
    · exact .inl (.inr (remembered_some remembered (by simp) some))
  | failing =>
    rw [phase] at may live
    rcases may with rfl | rfl
    · rcases live with ⟨-, failing⟩ | some
      · exact absurd rfl failing
      · exact .inl (.inr (remembered_some remembered (by simp) some))
    · rcases live with ⟨-, failing⟩ | some
      · exact absurd rfl failing
      · exact .inl (.inr (remembered_some remembered (by simp) some))
  | _ => exact .inl (.inl ⟨by simp, by simp⟩)

theorem rows_step {cfg : Config} {w w' : World} {a : Action}
    (shaped : ∀ (p : Nat) (proc : Proc), w.procs[p]? = some proc → proc.Shaped cfg)
    (h : w.step cfg a = some w') (rows : w.Rows) : w'.Rows := by
  have row := fun j => row_step h (j := j)
  have moved : ∀ {p q : Nat} {old new proc : Proc}, w.procs[q]? = some old →
      (w.procs.set q new)[p]? = some proc → new.loc.runId = old.loc.runId →
      ((new.phase ≠ .start ∧ new.phase ≠ .failing) ∨ new.loc.ctx.isSome = true →
        ((old.phase ≠ .start ∧ old.phase ≠ .failing) ∨ old.loc.ctx.isSome = true) ∨
          (w.store.standing old.loc.runId).isSome = true) →
      (proc.phase ≠ .start ∧ proc.phase ≠ .failing) ∨ proc.loc.ctx.isSome = true →
      (w'.store.standing proc.loc.runId).isSome = true := by
    intro p q old new proc hold hnew run back live
    rcases procs_set hnew with ⟨-, rfl⟩ | ⟨-, same⟩
    · rw [run]
      rcases back live with before | known
      · exact row _ (rows q old hold before)
      · exact row _ known
    · exact row _ (rows p proc same live)
  intro p proc hproc live
  cases step_happens h with
  | submit | cancel | tick => exact row _ (rows p proc hproc live)
  | claim done =>
    rcases concat_cases hproc with old | ⟨-, rfl⟩
    · exact row _ (rows p proc old live)
    · rcases live with ⟨ne, -⟩ | some
      · exact absurd rfl ne
      · cases some
  | execute =>
    rcases concat_cases hproc with old | ⟨-, rfl⟩
    · exact row _ (rows p proc old live)
    · rcases live with ⟨ne, -⟩ | some
      · exact absurd rfl ne
      · cases some
  | beat b hp => exact moved hp hproc rfl .inl live
  | stop hp => exact moved hp hproc rfl .inl live
  | refused hp => exact moved hp hproc rfl .inl live
  | call hp _ _ hctx =>
    exact moved hp hproc rfl (fun _ => .inl (.inr (by rw [hctx]; rfl))) live
  | task hp _ hrec ht _ run =>
    obtain ⟨same, -, -⟩ := exec_ctx run
    refine moved hp hproc same (fun _ => .inl (.inr ?_)) live
    cases hctx : Proc.loc _ |>.ctx with
    | some ctx => rfl
    | none =>
      rw [(shaped _ _ hp).uncalled hctx] at hrec
      cases hrec
  | main hp _ hmain run =>
    exact moved hp hproc (exec_ctx run).1 (main_known (shaped _ _ hp) hmain run) live

end ShapeLemmas

theorem rows_reaches {cfg : Config} {now : Int} {ok : World → Action → Prop} {w : World}
    (h : Reaches (World.step cfg) ok (.init now) w) : w.Rows := by
  induction h with
  | refl => exact fun p proc hproc => absurd hproc (by simp [World.init])
  | tail h _ hs rows => exact rows_step (fun _ _ => shaped_reaches h) hs rows

end AnchorRuntime
