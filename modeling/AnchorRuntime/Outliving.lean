import AnchorRuntime.Consistency
import AnchorRuntime.Rows

/-!
# What outlives an attempt

`gather` hands on the first exception of its branches and leaves the other branches running:
nothing cancels or awaits them. A workflow may then end, and its attempt with it, while a
branch is still at any stage of its step.

Results: `nothing_outlives`, when a workflow ends only once its steps have ended and nothing
calls its context afterwards, an attempt that is over writes nothing and runs nothing.
-/

namespace AnchorRuntime

open Effect Machine Slots ShapeLemmas ProcLemmas RowLemmas

/-! ## The condition -/

/-- The coroutine of the step has returned or raised. -/
def Task.ended (t : Task) : Bool := t.prog.next.isNone

/-- Every step of the attempt has ended, the branches of its gathers included. -/
def Proc.quiet (proc : Proc) : Bool := proc.calls.all fun rec => rec.tasks.all (·.ended)

/-- The workflow is running. -/
def Phase.isInside : Phase → Bool
  | .inside => true
  | _ => false

/-- `Engine.execute` has its outcome, or has raised. -/
def Phase.finished : Phase → Bool
  | .settled | .standing | .failing => true
  | _ => false

/-- A workflow ends only once all its steps have ended, and its context is called only while
it runs. -/
def joined (w : World) : Action → Prop
  | .main p _ => ∀ proc ∈ w.procs[p]?, proc.phase.isInside = true → proc.quiet = true
  | .call p _ _ _ => ∀ proc ∈ w.procs[p]?, proc.phase.isInside = true
  | _ => True

instance (w : World) (a : Action) : Decidable (joined w a) :=
  match a with
  | .main p _ => inferInstanceAs (Decidable (∀ proc ∈ w.procs[p]?,
      proc.phase.isInside = true → proc.quiet = true))
  | .call p _ _ _ => inferInstanceAs (Decidable (∀ proc ∈ w.procs[p]?,
      proc.phase.isInside = true))
  | .submit _ _ _ _ _ | .cancel _ | .tick _ | .claim _ _ | .execute _ | .beat _ _
  | .task _ _ _ _ | .stop _ => .isTrue trivial

/-! ## The invariant -/

/-- No step is under way unless its workflow is. -/
def World.Joined (w : World) : Prop :=
  ∀ (p : Nat) (proc : Proc), w.procs[p]? = some proc → proc.phase.isInside = false →
    proc.quiet = true

namespace OutlivingLemmas

variable {cfg : Config} {w w' : World} {a : Action} {p : Nat} {proc : Proc}

theorem ended_ending {t : Task} (ended : t.ended = true) : ∃ r, t.prog.ending = some r := by
  unfold Task.ended at ended
  cases hprog : t.prog with
  | ret v => exact ⟨_, rfl⟩
  | raise exc => exact ⟨_, rfl⟩
  | step o k =>
    rw [hprog] at ended
    cases ended

/-- A step that performs an operation has not ended. -/
theorem acts_active {c b : Nat} {ans : Answer} {rec : CallRecord} {t : Task} {o : Op} {r : Ans o}
    {loc : Local} (acts : TaskActs cfg w w' p c b ans proc rec t o r loc) : t.ended = false := by
  obtain ⟨k, hprog, -⟩ := acts.after
  rw [Task.ended, hprog]
  rfl

/-- A step that goes on has not ended, nor has its workflow. -/
theorem inside_of_task {c b : Nat} {rec : CallRecord} {t : Task} {o : Op}
    {k : Ans o → Code Value} (inv : w.Joined) (hp : w.procs[p]? = some proc)
    (at_ : proc.At c b rec t) (hprog : t.prog = .step o k) : proc.phase.isInside = true := by
  by_contra outside
  have quiet := inv p proc hp (Bool.eq_false_iff.mpr outside)
  have ended := List.all_eq_true.mp
    (List.all_eq_true.mp quiet rec (List.mem_of_getElem? at_.1)) t (List.mem_of_getElem? at_.2)
  rw [Task.ended, hprog] at ended
  cases ended

theorem quiet_of_main {o : Op} {r : Ans o} {loc : Local} {main : Code (Option Outcome)}
    {ans : Answer} (inv : w.Joined) (ok : joined w (.main p ans)) (hp : w.procs[p]? = some proc) :
    Proc.quiet { proc with loc, phase := proc.phase.next o r, main, started := true } = true := by
  show proc.quiet = true
  cases inside : proc.phase.isInside with
  | false => exact inv p proc hp inside
  | true => exact ok proc hp inside

theorem joined_step (h : w.step cfg a = some w') (ok : joined w a) (inv : w.Joined) :
    w'.Joined := by
  intro q proc' hq outside
  have moved : ∀ {p : Nat} {new : Proc}, w'.procs = w.procs.set p new →
      (new.phase.isInside = false → new.quiet = true) → proc'.quiet = true := by
    intro p new procs quiet
    rw [procs] at hq
    rcases procs_set hq with ⟨-, rfl⟩ | ⟨-, hq⟩
    · exact quiet outside
    · exact inv q proc' hq outside
  have added : ∀ {new : Proc}, w'.procs = w.procs ++ [new] → new.calls = [] →
      proc'.quiet = true := by
    intro new procs none
    rw [procs] at hq
    rcases concat_cases hq with hq | ⟨-, rfl⟩
    · exact inv q proc' hq outside
    · rw [Proc.quiet, none]
      rfl
  cases step_happens h with
  | submit | cancel | tick => exact inv q proc' hq outside
  | claim done => exact added rfl rfl
  | execute => exact added rfl rfl
  | beat _ hp | stop hp =>
    have still := inv _ _ hp
    exact moved rfl still
  | main hp _ _ _ => exact moved rfl fun _ => quiet_of_main inv ok hp
  | task hp _ hrec ht hprog _ =>
    have inside := inside_of_task inv hp ⟨hrec, ht⟩ hprog
    exact moved rfl fun out => absurd (inside.symm.trans out) (by simp)
  | refused hp _ _ _ _ => exact moved rfl fun out => absurd ((ok _ hp).symm.trans out) (by simp)
  | call hp _ _ _ _ => exact moved rfl fun out => absurd ((ok _ hp).symm.trans out) (by simp)

theorem joined_reaches {now : Int} (h : Reaches (World.step cfg) joined (.init now) w) :
    w.Joined :=
  h.invariant (fun _ _ hp => absurd hp (by simp [World.init]))
    fun _ _ _ _ inv ok step => joined_step step ok inv

/-- What is left to an attempt that is over: it reads its counters, stops its heartbeat, and
gives up its place in the queue. -/
theorem finished_allowed {phase : Phase} {o : Op} (finished : phase.finished = true)
    (may : phase.allowed o) : o = .snapshot ∨ o = .stopHeartbeat ∨ o = .dequeue ∨ o = .release := by
  cases phase with
  | settled => rcases may with rfl | rfl | rfl <;> simp
  | standing => rcases may with rfl | rfl <;> simp
  | failing => rcases may with rfl | rfl <;> simp
  | _ => cases finished

theorem finished_silent {phase : Phase} {o : Op} (finished : phase.finished = true)
    (may : phase.allowed o) (r : Ans o) (w : World) (p : Nat) :
    o ≠ .saveUsage ∧ written w.now o r = [] ∧ ∀ runId, w.moment p runId o r = [] := by
  rcases finished_allowed finished may with rfl | rfl | rfl | rfl <;>
    exact ⟨by simp, rfl, fun _ => rfl⟩

theorem finished_outside {phase : Phase} (finished : phase.finished = true) :
    phase.isInside = false := by
  cases phase <;> first | rfl | cases finished

end OutlivingLemmas

open OutlivingLemmas

/-- Nothing outlives its attempt: where workflows end only once their steps have ended and
contexts are called only by running workflows, no action of an attempt that is over appends
an event, saves a usage or enters a body. -/
theorem nothing_outlives {cfg : Config} {now : Int} {w w' : World} {a : Action} {p : Nat}
    {proc : Proc} (h : Reaches (World.step cfg) joined (.init now) w)
    (hp : w.procs[p]? = some proc) (finished : proc.phase.finished = true)
    (mine : a.actor = some p ∨ ∃ ans, a = .beat p ans) (step : w.step cfg a = some w')
    (j : Uuid) :
    w'.store.loadEvents j = w.store.loadEvents j ∧ w'.store.usage j = w.store.usage j ∧
      w'.moments = w.moments := by
  have numbered := numbered_reaches h
  have shaped : ∀ (p : Nat) (proc : Proc), w.procs[p]? = some proc → proc.Shaped cfg :=
    fun _ _ => shaped_reaches h
  cases a with
  | main q ans =>
    obtain rfl : q = p := by simpa [Action.actor] using mine
    obtain ⟨proc', o, r, loc, acts⟩ := main_acts shaped step
    obtain rfl : proc = proc' := Option.some.inj (hp.symm.trans acts.hp)
    obtain ⟨unsaved, unwritten, unseen⟩ := finished_silent finished acts.may r w q
    obtain ⟨k, -, same⟩ := acts.after
    refine ⟨?_, (exec_usage acts.run j).resolve_right fun saves => unsaved saves.1, ?_⟩
    · rw [acts.log numbered j, unwritten, ite_self, List.append_nil]
    · rw [same, unseen]
      exact List.append_nil _
  | task q c b ans =>
    obtain rfl : q = p := by simpa [Action.actor] using mine
    obtain ⟨proc', rec, t, o, r, loc, acts⟩ := task_acts shaped step
    obtain rfl : proc = proc' := Option.some.inj (hp.symm.trans acts.hp)
    obtain ⟨k, hprog, -⟩ := acts.after
    have inside := inside_of_task (joined_reaches h) hp acts.at_ hprog
    exact absurd (inside.symm.trans (finished_outside finished)) (by simp)
  | call q caller role c =>
    cases step_happens step with
    | refused | call => exact ⟨rfl, rfl, rfl⟩
  | beat q ans =>
    cases step_happens step with
    | beat _ _ _ _ store =>
      rcases store with rfl | rfl
      · exact ⟨rfl, rfl, rfl⟩
      · exact ⟨(heartbeat_log numbered _ _ _ _).2 j, heartbeat_usage _ _ _ _ _ j, rfl⟩
  | submit | cancel | tick | claim | execute | stop => simp [Action.actor] at mine

/-- A gather of two branches, the second in its body when a cancel request ends the first. -/
def Sample.gathered : List Action :=
  opening ++ [.call 0 none .workflow (.gather "x" 2 .atLeastOnce)] ++
    List.replicate 7 (.task 0 0 1 .done) ++ [.cancel runId] ++ advance 0 0 3

/-- The second branch ends before the workflow does, and the run is cancelled. -/
def Sample.awaited : List Action :=
  gathered ++ [.task 0 0 1 (.value (.int 5))] ++ List.replicate 4 (.task 0 0 1 .done) ++
    [.main 0 (.raise (cancelled runId))] ++ proceed 0 3

theorem nothing_outlives_awaited : ∃ w w',
    run (World.step Sample.cfg) joined (.init 0) Sample.awaited = some w ∧
    w.step Sample.cfg (.main 0 .done) = some w' ∧
    (w'.store.loadEvents Sample.runId = w.store.loadEvents Sample.runId ∧
      w'.store.usage Sample.runId = w.store.usage Sample.runId ∧ w'.moments = w.moments) := by
  obtain ⟨w, h, done, step⟩ := run_exists (World.step Sample.cfg) joined (.init 0) Sample.awaited
    (fun w => (w.procs[0]?.any fun proc => proc.phase.finished) = true ∧
      (w.step Sample.cfg (.main 0 .done)).isSome = true) (by decide)
  obtain ⟨proc, hp, finished⟩ := (Option.any_eq_true _ _).mp done
  obtain ⟨w', step⟩ := Option.isSome_iff_exists.mp step
  exact ⟨w, w', h, step, nothing_outlives (run_reaches h) hp finished (.inl rfl) step _⟩

/-- The workflow ends while the second branch is in its body: the run is cancelled and its
attempt over. -/
def Sample.abandoned : List Action :=
  gathered ++ [.main 0 (.raise (cancelled runId))] ++ proceed 0 5

/-- Afterwards the branch returns and appends its completion. -/
theorem branch_outlives : ∃ w,
    run (World.step Sample.cfg) (fun _ _ => True) (.init 0) Sample.abandoned = some w ∧
    (w.procs[0]?.any fun proc => proc.phase.finished && proc.main.ending.isSome) = true ∧
    ∃ w', run (World.step Sample.cfg) (fun _ _ => True) w
        [.task 0 0 1 (.value (.int 5)), .task 0 0 1 .done] = some w' ∧
      (w'.store.loadEvents Sample.runId).length = (w.store.loadEvents Sample.runId).length + 1 := by
  obtain ⟨w, h, done, goes⟩ := run_exists (World.step Sample.cfg) (fun _ _ => True) (.init 0)
    Sample.abandoned (fun w =>
      (w.procs[0]?.any fun proc => proc.phase.finished && proc.main.ending.isSome) = true ∧
      ((run (World.step Sample.cfg) (fun _ _ => True) w
        [.task 0 0 1 (.value (.int 5)), .task 0 0 1 .done]).any fun w' =>
          (w'.store.loadEvents Sample.runId).length =
            (w.store.loadEvents Sample.runId).length + 1) = true) (by decide)
  obtain ⟨w', step, grows⟩ := (Option.any_eq_true _ _).mp goes
  exact ⟨w, h, done, w', step, of_decide_eq_true grows⟩

end AnchorRuntime
