import AnchorRuntime.Completion
import AnchorRuntime.Memory
import AnchorRuntime.Actors

/-!
# Overlapping attempts

The log of a run takes every event it is given, in turn: nothing about the sequence number
tells a second writer from the first. What keeps two attempts apart is the lease, which is
looked at before a window and not again inside it.

Results: `one_result`, a key is completed once when no attempt enters the window of a key
that another is in or has completed meanwhile.
-/

namespace AnchorRuntime

open Effect Machine ShapeLemmas ProcLemmas

/-! ## The condition -/

/-- The stages from the last boundary check of a step to the end of its window. -/
def Stage.inWindow : Stage → Bool
  | .recovering | .verifying | .recovered _ | .unknown | .starting | .ready _ _ | .running _
  | .returned _ _ | .raised _ _ | .waiting _ => true
  | _ => false

/-- The step has passed its boundary checks and enters its window next. -/
def Stage.passed : Stage → Bool
  | .admitted => true
  | _ => false

/-- Whether a step of the attempt is in the window of the key. -/
def Proc.inWindow (proc : Proc) (key : String) : Bool :=
  proc.calls.any fun rec => rec.tasks.any fun t => t.key = key && t.stage.inWindow

/-- Whether the attempt has loaded the completion of the key, if the log has one. -/
def Proc.upToDate (proc : Proc) (log : List Event) (key : String) : Bool :=
  !logged key Payload.isCompletion log ||
    proc.loc.ctx.all fun ctx => logged key Payload.isCompletion ctx.loaded

/-- No other live attempt of the run is in the window of the key. -/
def World.othersOut (w : World) (p : Nat) (runId : Uuid) (key : String) : Prop :=
  ∀ q < w.procs.length, ∀ other ∈ w.procs[q]?, q ≠ p → other.loc.runId = runId →
    other.stopped = false → other.inWindow key = false

instance (w : World) (p : Nat) (runId : Uuid) (key : String) :
    Decidable (w.othersOut p runId key) :=
  inferInstanceAs (Decidable (∀ q < w.procs.length, ∀ other ∈ w.procs[q]?, q ≠ p →
    other.loc.runId = runId → other.stopped = false → other.inWindow key = false))

/-- A step enters its window only when its attempt has loaded the completion of the key, if
the log has one, and no other live attempt of the run is in the window of that key. -/
def aloneInWindow (w : World) : Action → Prop
  | .task p c b _ => ∀ proc ∈ w.procs[p]?, ∀ rec ∈ proc.calls[c]?, ∀ t ∈ rec.tasks[b]?,
    t.stage.passed = true → proc.upToDate (w.store.loadEvents proc.loc.runId) t.key = true ∧
      w.othersOut p proc.loc.runId t.key
  | _ => True

instance (w : World) (a : Action) : Decidable (aloneInWindow w a) :=
  match a with
  | .task p c b _ => inferInstanceAs (Decidable (∀ proc ∈ w.procs[p]?, ∀ rec ∈ proc.calls[c]?,
      ∀ t ∈ rec.tasks[b]?, t.stage.passed = true →
      proc.upToDate (w.store.loadEvents proc.loc.runId) t.key = true ∧
      w.othersOut p proc.loc.runId t.key))
  | .submit _ _ _ _ _ | .cancel _ | .tick _ | .claim _ _ | .execute _ | .beat _ _ | .main _ _
  | .call _ _ _ _ | .stop _ => .isTrue trivial

/-! ## The invariant -/

/-- Live attempt `p` of the run is in the window of the key. -/
def World.InWindow (w : World) (runId : Uuid) (key : String) (p : Nat) : Prop :=
  ∃ proc, w.procs[p]? = some proc ∧ proc.stopped = false ∧ proc.loc.runId = runId ∧
    proc.inWindow key = true

/-- The key is completed once at most, nobody is in the window of a completed key, and no two
attempts are in its window. -/
structure World.Alone (w : World) (runId : Uuid) (key : String) : Prop where
  once : ((w.store.loadEvents runId).filter (·.under key Payload.isCompletion)).length ≤ 1
  incomplete : ∀ p, w.InWindow runId key p →
    logged key Payload.isCompletion (w.store.loadEvents runId) = false
  exclusive : ∀ p q, w.InWindow runId key p → w.InWindow runId key q → p = q

namespace OverlapLemmas

variable {cfg : Config} {w w' : World} {a : Action} {runId : Uuid} {key : String}

theorem inWindow_at {proc : Proc} :
    proc.inWindow key = true ↔
      ∃ c b rec t, proc.At c b rec t ∧ t.key = key ∧ t.stage.inWindow = true := by
  simp only [Proc.inWindow, any_task, Bool.and_eq_true, decide_eq_true_eq]

/-- A step enters its window after its boundary checks, or was in it. -/
theorem window_next {s : StepSetup} {stage : Stage} {o : Op} {r : Ans o}
    (may : s.allowed stage o) (inside : (s.next stage o r).inWindow = true) :
    stage.inWindow = true ∨ stage = .admitted := by
  have moves := StepSetup.moves may r
  generalize s.next stage o r = stage' at moves inside
  cases moves with
  | fresh | verifiable | unverifiable => exact .inr rfl
  | verify | landed | undecided | again | start | addToolCall | enter | returned | raised | retry
  | sleep => exact .inl rfl
  | _ => cases inside

/-- A completion is written from inside a window, and ends it. -/
theorem completion_window {s : StepSetup} {stage : Stage} {key : Option String}
    {payload : Payload} (may : s.allowed stage (.appendEvent key payload))
    (is : payload.isCompletion = true) (r : Ans (.appendEvent key payload)) :
    stage.inWindow = true ∧ (s.next stage (.appendEvent key payload) r).inWindow = false := by
  have inside : stage.inWindow = true := by
    rcases completion_open may is with ⟨_, rfl, -⟩ | ⟨_, _, rfl, -⟩ <;> rfl
  refine ⟨inside, ?_⟩
  have moves := StepSetup.moves may r
  generalize s.next stage (.appendEvent key payload) r = stage' at moves
  cases moves with
  | resolve | complete | fail | invoked | called | raise => rfl
  | again | start | retry => cases is

/-- Who is in the window after an action was in it before, or has just passed its checks
alone; either way the log had no completion of the key. -/
theorem window_cases
    (shaped : ∀ (p : Nat) (proc : Proc), w.procs[p]? = some proc → proc.Shaped cfg)
    (recalls : w.Recalls) (h : w.step cfg a = some w') (ok : aloneInWindow w a) {p : Nat}
    (inside : w'.InWindow runId key p) :
    w.InWindow runId key p ∨
      ((∃ c b ans, a = .task p c b ans) ∧
        logged key Payload.isCompletion (w.store.loadEvents runId) = false ∧
        ∀ q, w.InWindow runId key q → q = p) := by
  obtain ⟨proc', hp', live, run, inside⟩ := inside
  obtain ⟨c, b, rec', t', at', hkey, inside⟩ := inWindow_at.mp inside
  cases task_cases shaped h hp' at' with
  | @same proc rec _ hp at_ _ same alive =>
    exact .inl ⟨proc, hp, alive live, same.runId.symm.trans run,
      inWindow_at.mpr ⟨c, b, rec, t', at_, hkey, inside⟩⟩
  | called => cases inside
  | @moved proc rec t ans o k r act hp alive at_ call hprog hexec may =>
    have run : proc.loc.runId = runId := (exec_ctx hexec).1.symm.trans run
    rcases window_next may inside with was | admitted
    · exact .inl ⟨proc, hp, alive, run, inWindow_at.mpr ⟨c, b, rec, t, at_, hkey, was⟩⟩
    · subst act
      obtain ⟨known, others⟩ := ok proc hp rec at_.1 t at_.2 (by rw [admitted]; rfl)
      obtain ⟨ctx, hctx⟩ := Option.isSome_iff_exists.mp (TaskLemmas.at_known (shaped _ _ hp) at_)
      have asked := recalls.tasks p proc hp ctx hctx c b rec t at_
      rw [admitted] at asked
      refine .inr ⟨⟨c, b, ans, rfl⟩, ?_, fun q ⟨other, hq, live, run', inside⟩ => ?_⟩
      · -- a completion would have been loaded, and then remembered
        cases has : logged key Payload.isCompletion (w.store.loadEvents runId) with
        | false => rfl
        | true =>
          have hkey : t.key = key := hkey
          simp only [Proc.upToDate, run, hkey, has, hctx, Bool.not_true, Bool.false_or,
            Option.all_some] at known
          have some_ := (recalls.ctx p proc hp ctx hctx).completed key known
          rw [hkey] at asked
          rw [show ctx.completed key = none from asked] at some_
          cases some_
      · by_contra ne
        have out := others q (List.getElem?_eq_some_iff.mp hq).1 other hq ne (run'.trans run.symm)
          live
        rw [show t.key = key from hkey, inside] at out
        cases out

/-- Who completes a key was alone in its window and leaves it. -/
theorem completes_leaves (numbered : w.store.Numbered)
    (shaped : ∀ (p : Nat) (proc : Proc), w.procs[p]? = some proc → proc.Shaped cfg)
    (h : w.step cfg a = some w') {es : List Event}
    (log : w'.store.loadEvents runId = w.store.loadEvents runId ++ es)
    (new : logged key Payload.isCompletion es = true) :
    ∃ p c b ans, a = .task p c b ans ∧ w.InWindow runId key p ∧ ¬ w'.InWindow runId key p ∧
      ∃ e, es = [e] := by
  obtain ⟨e, mem, under⟩ := List.any_eq_true.mp new
  have concerns := LifecycleLemmas.under_concerns under LifecycleLemmas.completion_lifecycle
  simp only [Event.under, Bool.and_eq_true, decide_eq_true_eq] at under
  obtain ⟨p, c, b, ans, proc, rec, t, r, loc, rfl, acts, hkey, run, one⟩ :=
    event_cases numbered shaped h log mem concerns
  obtain ⟨inside, outside⟩ := completion_window acts.may under.2 r
  refine ⟨p, c, b, ans, rfl, ⟨proc, acts.hp, acts.alive, run,
    inWindow_at.mpr ⟨c, b, rec, t, acts.at_, hkey, inside⟩⟩, ?_, e, one⟩
  rintro ⟨proc', hp', -, -, still⟩
  obtain ⟨c', b', rec', t', at', hkey', still⟩ := inWindow_at.mp still
  obtain ⟨_, _, new, hp₂, -, at₂, -, hkey₂, stage⟩ := acts.moved
  cases hp'.symm.trans hp₂
  obtain ⟨rfl, rfl⟩ := at_key_inj (shaped_kept.step h shaped p proc' hp').nodup at' at₂
    (hkey'.trans (hkey₂.trans hkey).symm)
  cases at'.1.symm.trans at₂.1
  cases at'.2.symm.trans at₂.2
  rw [stage, outside] at still
  cases still

theorem alone_step (numbered : w.store.Numbered)
    (shaped : ∀ (p : Nat) (proc : Proc), w.procs[p]? = some proc → proc.Shaped cfg)
    (recalls : w.Recalls) (h : w.step cfg a = some w') (ok : aloneInWindow w a)
    (inv : w.Alone runId key) : w'.Alone runId key := by
  obtain ⟨es, log, -⟩ := log_step numbered shaped h runId
  have before : ∀ p, w'.InWindow runId key p →
      logged key Payload.isCompletion (w.store.loadEvents runId) = false := by
    intro p inside
    rcases window_cases shaped recalls h ok inside with was | ⟨-, none, -⟩
    · exact inv.incomplete p was
    · exact none
  refine ⟨?_, fun p inside => ?_, fun p q hp hq => ?_⟩
  · rw [log, List.filter_append, List.length_append]
    cases new : logged key Payload.isCompletion es with
    | false =>
      have none : es.filter (·.under key Payload.isCompletion) = [] := by
        simpa [logged] using new
      rw [none]
      exact inv.once
    | true =>
      obtain ⟨p, _, _, _, -, inside, -, e, rfl⟩ := completes_leaves numbered shaped h log new
      have none : (w.store.loadEvents runId).filter (·.under key Payload.isCompletion) = [] := by
        simpa [logged] using inv.incomplete p inside
      rw [none]
      exact (Nat.zero_add _).trans_le (List.length_filter_le _ [e])
  · rw [log, LifecycleLemmas.logged_append, before p inside, Bool.false_or]
    cases new : logged key Payload.isCompletion es with
    | false => rfl
    | true =>
      obtain ⟨q, c, b, ans, rfl, was, left, -⟩ := completes_leaves numbered shaped h log new
      rcases window_cases shaped recalls h ok inside with still | ⟨⟨_, _, _, same⟩, -, alone⟩
      · exact absurd (inv.exclusive q p was still ▸ inside) left
      · cases same
        exact absurd inside left
  · rcases window_cases shaped recalls h ok hp with wasp | ⟨⟨_, _, _, actp⟩, -, alonep⟩
    · rcases window_cases shaped recalls h ok hq with wasq | ⟨-, -, aloneq⟩
      · exact inv.exclusive p q wasp wasq
      · exact aloneq p wasp
    · rcases window_cases shaped recalls h ok hq with wasq | ⟨⟨_, _, _, actq⟩, -, -⟩
      · exact (alonep q wasq).symm
      · cases actp.symm.trans actq
        rfl

/-- Replay of a log with one completion of the key remembers its result. -/
theorem replay_one (ctx : RunContext) {log : List Event} {e : Event} {result : Value}
    {by_ : CompletedBy} (once : (log.filter (·.under key Payload.isCompletion)).length ≤ 1)
    (mem : e ∈ log) (same : e.stepKey = some key)
    (payload : e.payload = .stepCompleted result by_) :
    (ctx.buildReplayState log).completed key = some result := by
  have under : e.under key Payload.isCompletion = true := by
    simp [Event.under, same, payload, Payload.isCompletion]
  obtain ⟨a, b, rfl⟩ := List.append_of_mem mem
  -- nothing after it completes the key
  have rest : ∀ f ∈ b, f.under key Payload.isCompletion = false := by
    intro f hf
    cases hu : f.under key Payload.isCompletion with
    | false => rfl
    | true =>
      have : 0 < (b.filter (·.under key Payload.isCompletion)).length :=
        List.length_pos_of_mem (List.mem_filter.mpr ⟨hf, hu⟩)
      simp only [List.filter_append, List.filter_cons, under, if_true, List.length_append,
        List.length_cons] at once
      omega
  have stays : ∀ (fs : List Event) (ctx : RunContext),
      (∀ f ∈ fs, f.under key Payload.isCompletion = false) →
      (ctx.buildReplayState fs).completed key = ctx.completed key := by
    intro fs
    induction fs with
    | nil => exact fun _ _ => rfl
    | cons f fs ih =>
      intro ctx quiet
      refine (ih (ctx.replayEvent f) fun g hg => quiet g (List.mem_cons_of_mem _ hg)).trans ?_
      have hf := quiet f List.mem_cons_self
      unfold RunContext.replayEvent
      cases hk : f.stepKey with
      | none => rfl
      | some k =>
        cases hp : f.payload with
        | stepCompleted v by_ =>
          have ne : key ≠ k := by
            rintro rfl
            simp [Event.under, hk, hp, Payload.isCompletion] at hf
          simp [ne]
        | _ => rfl
  rw [RunContext.buildReplayState, List.foldl_append, List.foldl_cons]
  refine (stays b _ rest).trans ?_
  simp [RunContext.replayEvent, same, payload]

end OverlapLemmas

open OverlapLemmas

/-- One result per step: where no attempt enters the window of a key that another is in or has
completed since, the log has one completion of the key at most, and every replay of the log
returns its result. -/
theorem one_result {cfg : Config} {now : Int} {w : World}
    (h : Reaches (World.step cfg) aloneInWindow (.init now) w) (runId : Uuid) (key : String) :
    ((w.store.loadEvents runId).filter (·.under key Payload.isCompletion)).length ≤ 1 ∧
    ∀ e ∈ w.store.loadEvents runId, ∀ result by_, e.stepKey = some key →
      e.payload = .stepCompleted result by_ →
      ∀ run, (RunContext.init run (w.store.loadEvents runId)).completed key = some result := by
  have alone : w.Alone runId key := by
    induction h with
    | refl =>
      refine ⟨Nat.zero_le _, fun p h => ?_, fun p q h => ?_⟩ <;>
        (obtain ⟨_, none, -⟩ := h; simp [World.init] at none)
    | tail h ok hs inv =>
      exact alone_step (numbered_reaches h) (fun _ _ => shaped_reaches h) (recalls_reaches h) hs ok
        inv
  exact ⟨alone.once, fun e mem result by_ same payload run =>
    replay_one _ alone.once mem same payload⟩

/-- An attempt whose lease lapses after its step, and another that replays the step. -/
def Sample.handedOver : List Action :=
  opening ++ [calls 0 "x" .atLeastOnce] ++ advance 0 0 7 ++
    [.task 0 0 0 (.value (.int 5)), .task 0 0 0 .done, .tick 31000000, .claim "b" []] ++
    proceed 1 8 ++ [calls 1 "x" .atLeastOnce] ++ advance 1 0 2 ++ advance 0 0 2

theorem one_result_handedOver : ∃ w,
    run (World.step Sample.cfg) aloneInWindow (.init 0) Sample.handedOver = some w ∧
    logged "x#1" Payload.isCompletion (w.store.loadEvents Sample.runId) = true ∧
    ((w.store.loadEvents Sample.runId).filter (·.under "x#1" Payload.isCompletion)).length ≤ 1 := by
  obtain ⟨w, h, completed⟩ := run_exists (World.step Sample.cfg) aloneInWindow (.init 0)
    Sample.handedOver
    (fun w => logged "x#1" Payload.isCompletion (w.store.loadEvents Sample.runId) = true)
    (by decide)
  exact ⟨w, h, completed, (one_result (run_reaches h) Sample.runId "x#1").1⟩

/-- An attempt whose lease lapses inside its body, another that runs the body again and
completes the step, and the first, which completes it too. -/
def Sample.completedTwice : List Action :=
  opening ++ [calls 0 "x" .atLeastOnce] ++ advance 0 0 7 ++ [.tick 31000000, .claim "b" []] ++
    proceed 1 8 ++ [calls 1 "x" .atLeastOnce] ++ advance 1 0 7 ++
    [.task 1 0 0 (.value (.int 6)), .task 1 0 0 .done, .task 0 0 0 (.value (.int 5)),
      .task 0 0 0 .done]

/-- Both completions are in the log, and a replay returns the second. -/
theorem two_results : ∃ w,
    run (World.step Sample.cfg) (fun _ _ => True) (.init 0) Sample.completedTwice = some w ∧
    ((w.store.loadEvents Sample.runId).filter (·.under "x#1" Payload.isCompletion)).length = 2 ∧
    ∃ record, w.store.getRun Sample.runId = some record ∧
      ((RunContext.init record (w.store.loadEvents Sample.runId)).completed "x#1").any
        (fun v => match v with | .int n => n = 5 | _ => false) = true := by
  obtain ⟨w, h, two, replayed⟩ := run_exists (World.step Sample.cfg) (fun _ _ => True) (.init 0)
    Sample.completedTwice (fun w =>
      ((w.store.loadEvents Sample.runId).filter (·.under "x#1" Payload.isCompletion)).length = 2 ∧
      (w.store.getRun Sample.runId).any (fun record =>
        ((RunContext.init record (w.store.loadEvents Sample.runId)).completed "x#1").any
          (fun v => match v with | .int n => n = 5 | _ => false)) = true) (by decide)
  exact ⟨w, h, two, (Option.any_eq_true _ _).mp replayed⟩

end AnchorRuntime
