import AnchorRuntime.Shape
import AnchorRuntime.Lifecycle

/-!
# Invocations of step bodies

Which moments of a run are invocations of the body of a key, and which actions make them.

Results: `invocations_step`, an action invokes a body only by a task that is at a try of its
key; `log_step`, the log of a run only grows, and an event of a key's window is written by a
task of that key.
-/

namespace AnchorRuntime

open Effect Machine ShapeLemmas ProcLemmas

/-! ## The moments -/

/-- The moment is an invocation of the body of `key`, on any try. -/
def Moment.invokes (runId : Uuid) (key : String) (m : Moment) : Bool :=
  m.runId = runId && m.outcome.isNone && m.call.invocation.any (·.1 = key)

/-- The invocations of the body of a key of a run so far, in order. -/
def World.invocations (w : World) (runId : Uuid) (key : String) : List Moment :=
  w.moments.filter (·.invokes runId key)

/-- The try a step is about to make. -/
def Stage.trying : Stage → Option Nat
  | .ready n _ => some n
  | _ => none

/-- The action is the step of a task that enters the body of its key. -/
inductive Enters (cfg : Config) (w : World) (runId : Uuid) (key : String) :
    Action → Moment → Prop
  | task {p c b n : Nat} {ans : Answer} {proc : Proc} {rec : CallRecord} {t : Task} {m : Moment} :
      w.procs[p]? = some proc → proc.stopped = false → proc.At c b rec t → t.key = key →
      proc.loc.runId = runId → t.stage.trying = some n → (n : Int) ≤ rec.call.attempts cfg →
      m.proc = p → m.runId = runId → m.logged = (w.store.loadEvents runId).length →
      m.call.invocation = some (key, stepToken cfg runId key, n) →
      t.prog.next = some (.enter m.call) →
      Enters cfg w runId key (.task p c b ans) m

/-! ## What an action invokes -/

namespace InvocationLemmas

variable {cfg : Config} {w w' : World} {s : StepSetup} {stage : Stage}

theorem trying_eq {n : Nat} (h : stage.trying = some n) : ∃ counted, stage = .ready n counted := by
  cases stage with
  | ready m counted =>
    cases h
    exact ⟨counted, rfl⟩
  | _ => cases h

/-- A step enters its body at a try, with its key and token. -/
theorem allowed_enter {u : UserCall} {key : String} {token : Uuid} {n : Nat}
    (may : s.allowed stage (.enter u)) (is : u.invocation = some (key, token, n)) :
    stage.trying = some n ∧ (n : Int) ≤ s.attempts ∧ key = s.key ∧ token = s.token := by
  have moves := StepSetup.moves may ()
  generalize s.next stage (.enter u) () = stage' at moves
  cases moves with
  | enter left _ mine =>
    subst mine
    cases is.symm.trans (s.body_invocation _)
    exact ⟨rfl, left, rfl, rfl⟩
  | verify => cases is
  | raise _ failed => cases failed

/-- The main code of an attempt enters no body. -/
theorem phase_enter {phase : Phase} {u : UserCall} (may : phase.allowed (.enter u)) :
    u.invocation = none := by
  have moves := Phase.moves may ()
  generalize phase.next (.enter u) () = phase' at moves
  cases moves with
  | enter => rfl
  | raise _ failed => cases failed

/-- The moments an operation adds are invocations if it enters a body. -/
theorem moment_invokes (w : World) (p : Nat) (ran runId : Uuid) (key : String) (o : Op)
    (r : Ans o) :
    (w.moment p ran o r).filter (·.invokes runId key) = [] ∨
      ∃ u token n m, o = .enter u ∧ u.invocation = some (key, token, n) ∧ ran = runId ∧
        (w.moment p ran o r).filter (·.invokes runId key) = [m] ∧ m.proc = p ∧
        m.runId = runId ∧ m.call = u ∧ m.logged = (w.store.loadEvents runId).length := by
  cases o with
  | enter u =>
    by_cases is : Moment.invokes runId key
        ⟨p, ran, u, none, (w.store.loadEvents ran).length⟩ = true
    · have one : (w.moment p ran (.enter u) r).filter (·.invokes runId key) =
          [⟨p, ran, u, none, (w.store.loadEvents ran).length⟩] := by
        simp [World.moment, observed, is]
      simp only [Moment.invokes, Bool.and_eq_true, decide_eq_true_eq, Option.any_eq_true] at is
      obtain ⟨⟨rfl, -⟩, ⟨k, token, n⟩, hu, rfl⟩ := is
      exact .inr ⟨u, token, n, _, rfl, hu, rfl, one, rfl, rfl, rfl, rfl⟩
    · exact .inl (by simpa [World.moment, observed] using is)
  | leave u => exact .inl (by simp [World.moment, observed, Moment.invokes])
  | _ => exact .inl (by simp [World.moment, observed])

end InvocationLemmas

open InvocationLemmas

/-- What one action adds to the invocations of a key: nothing, or the one it makes. -/
theorem invocations_step {cfg : Config} {w w' : World} {a : Action}
    (shaped : ∀ (p : Nat) (proc : Proc), w.procs[p]? = some proc → proc.Shaped cfg)
    (h : w.step cfg a = some w') (runId : Uuid) (key : String) :
    w'.invocations runId key = w.invocations runId key ∨
      ∃ m, w'.invocations runId key = w.invocations runId key ++ [m] ∧
        Enters cfg w runId key a m := by
  cases step_happens h with
  | @main p ans proc o k r store loc hp alive hmain run =>
    have may := (shaped _ _ hp).main
    rw [hmain, obeys_step] at may
    left
    simp only [World.invocations, List.filter_append]
    rcases moment_invokes w p proc.loc.runId runId key o r with none | ⟨u, _, _, _, rfl, is, -⟩
    · rw [none, List.append_nil]
    · exact absurd (is.symm.trans (phase_enter may.1)) (by simp)
  | @task p c b ans proc rec t o k r store loc hp alive hrec ht hprog run =>
    have may := (shaped _ _ hp).tasks _ _ _ _ ⟨hrec, ht⟩
    rw [hprog, obeys_step] at may
    simp only [World.invocations, List.filter_append]
    rcases moment_invokes w p proc.loc.runId runId key o r with
      none | ⟨u, token, n, m, rfl, is, rfl, one, mp, mr, mc, ml⟩
    · left
      rw [none, List.append_nil]
    · right
      obtain ⟨stage, left, rfl, rfl⟩ := allowed_enter may.1 is
      exact ⟨m, by rw [one],
        .task hp alive ⟨hrec, ht⟩ rfl rfl stage left mp mr ml (by rw [mc]; exact is)
          (by rw [hprog, mc]; rfl)⟩
  | _ => exact .inl rfl

/-! ## What an action writes -/

/-- The action is the step of a task of `key` that may write `payload` under it. -/
inductive Writes (cfg : Config) (w : World) (runId : Uuid) (key : String) :
    Action → Payload → Prop
  | task {p c b : Nat} {ans : Answer} {proc : Proc} {rec : CallRecord} {t : Task}
      {payload : Payload} :
      w.procs[p]? = some proc → proc.stopped = false → proc.At c b rec t → t.key = key →
      proc.loc.runId = runId →
      (rec.call.setup cfg runId proc.loc.guarded key).allowed t.stage
        (.appendEvent (some key) payload) →
      Writes cfg w runId key (.task p c b ans) payload

namespace InvocationLemmas

variable {cfg : Config} {now : Int} {s : StepSetup} {stage : Stage} {o : Op} {r : Ans o} {e : Event}

theorem written_event (mem : e ∈ written now o r) :
    ∃ n, o = .appendEvent e.stepKey e.payload ∧ written now o r = [e] ∧ e.seq = n := by
  unfold written at mem
  split at mem
  · obtain rfl := List.mem_singleton.mp mem
    exact ⟨_, rfl, rfl, rfl⟩
  · exact absurd mem (by simp)

/-- A step writes under its own key. -/
theorem allowed_key {key : Option String} {payload : Payload}
    (may : s.allowed stage (.appendEvent key payload)) : key = some s.key := by
  cases stage <;> simp_all [StepSetup.allowed]

/-- The main code of an attempt writes nothing of a key's window. -/
theorem phase_quiet {phase : Phase} {key : Option String} {payload : Payload}
    (may : phase.allowed (.appendEvent key payload)) : payload.lifecycle = false := by
  have moves := Phase.moves may (.ok none)
  generalize phase.next (.appendEvent key payload) (.ok none) = phase' at moves
  cases moves with
  | resume | unknown | completed | cancelled | exceeded | review | failed => rfl
  | raise _ failed => cases failed

end InvocationLemmas

/-- The log of a run only grows. What it gains says nothing of any window, or it is one
event, which a task of its key has written. -/
theorem log_step {cfg : Config} {w w' : World} {a : Action} (numbered : w.store.Numbered)
    (shaped : ∀ (p : Nat) (proc : Proc), w.procs[p]? = some proc → proc.Shaped cfg)
    (h : w.step cfg a = some w') (runId : Uuid) :
    ∃ es, w'.store.loadEvents runId = w.store.loadEvents runId ++ es ∧
      ((∀ e ∈ es, ∀ key, ¬ e.concerns key) ∨
        ∃ e key, es = [e] ∧ e.stepKey = some key ∧ Writes cfg w runId key a e.payload) := by
  by_cases code : a.runsCode
  · cases step_happens h with
    | main hp alive hmain run =>
      have may := (shaped _ _ hp).main
      rw [hmain, obeys_step] at may
      refine ⟨_, (exec_log numbered run).2 runId, .inl fun e mem key concerns => ?_⟩
      split at mem
      · obtain ⟨_, rfl, -⟩ := written_event mem
        exact absurd (concerns.2.symm.trans (phase_quiet may.1)) (by simp)
      · exact absurd mem (by simp)
    | @task p c b ans proc rec t o k r store loc hp alive hrec ht hprog run =>
      have may := (shaped _ _ hp).tasks _ _ _ _ ⟨hrec, ht⟩
      rw [hprog, obeys_step] at may
      refine ⟨_, (exec_log numbered run).2 runId, ?_⟩
      split
      · next own =>
        by_cases none : written w.now o r = []
        · exact .inl (by simp [none])
        · obtain ⟨e, mem⟩ := List.exists_mem_of_ne_nil _ none
          obtain ⟨_, rfl, one, -⟩ := written_event mem
          have may : (rec.call.setup cfg proc.loc.runId proc.loc.guarded t.key).allowed t.stage
              (.appendEvent e.stepKey e.payload) := may.1
          have mine : e.stepKey = some t.key := allowed_key may
          rw [mine] at may
          exact .inr ⟨e, t.key, one, mine, own ▸ .task hp alive ⟨hrec, ht⟩ rfl rfl may⟩
      · exact .inl (by simp)
    | _ => exact code.elim
  · obtain ⟨es, log, quiet⟩ := (quiet_log numbered h code).2 runId
    exact ⟨es, log, .inl fun e mem key concerns =>
      absurd (concerns.1.symm.trans (quiet e mem)) (by simp)⟩

end AnchorRuntime
