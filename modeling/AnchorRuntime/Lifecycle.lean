import AnchorRuntime.Lib.Monitor
import AnchorRuntime.StepMachine

/-!
# The life of a step key

What the log of a run may say of one step key: the window is opened by a `StepStarted` that
carries the key's token, retried any number of times, and closed by a failure, after which
it may be opened again, or by a completion, after which nothing follows. `Life` is the
monitor of that.

Results: `orderly_of_life` reads the monitor's verdict back as positions in the log,
and `init_synced` says what the replay state built from a log knows of each key.
`Stage.Agrees` relates the life of a key to the stage of its step.
-/

namespace AnchorRuntime

/-! ## The monitor -/

/-- What a log says of a key. -/
inductive Life
  | fresh
  | opened
  | failed
  | done (result : Value)

/-- The events that open, keep open or close a window. -/
def Payload.lifecycle : Payload → Bool
  | .stepStarted _ | .stepCompleted _ _ | .stepErrorRetried _ _ | .crashWindowRetried _
  | .stepFailed _ _ => true
  | _ => false

def Life.move (token : String) : Life → Payload → Option Life
  | .fresh, .stepStarted t | .failed, .stepStarted t => if t = token then some .opened else none
  | .opened, .stepErrorRetried _ _ | .opened, .crashWindowRetried _ => some .opened
  | .opened, .stepFailed _ _ => some .failed
  | .opened, .stepCompleted result _ => some (.done result)
  | life, payload => if payload.lifecycle then none else some life

def Life.step (token key : String) (life : Life) (e : Event) : Option Life :=
  if e.stepKey = some key then life.move token e.payload else some life

/-- What the log says of `key`, none if it says something it may not. -/
def lifeOf (token key : String) (log : List Event) : Option Life :=
  Monitor.run (Life.step token key) .fresh log

/-! ## Verdicts as positions -/

/-- An event of the key that completes it. -/
def Event.completes (key : String) (e : Event) : Prop :=
  e.stepKey = some key ∧ ∃ result by_, e.payload = .stepCompleted result by_

/-- An event of the key that opens, keeps open or closes its window. -/
def Event.concerns (key : String) (e : Event) : Prop :=
  e.stepKey = some key ∧ e.payload.lifecycle = true

/-- An event that opens the key's window with its token. -/
def Event.starts (token key : String) (e : Event) : Prop :=
  e.stepKey = some key ∧ e.payload = .stepStarted token

def Payload.isStart : Payload → Bool
  | .stepStarted _ => true
  | _ => false

def Payload.isCompletion : Payload → Bool
  | .stepCompleted _ _ => true
  | _ => false

def Payload.isFailure : Payload → Bool
  | .stepFailed _ _ => true
  | _ => false

/-- An event of the key whose payload is of a kind. -/
def Event.under (key : String) (kind : Payload → Bool) (e : Event) : Bool :=
  e.stepKey = some key && kind e.payload

/-- Whether the log has an event of the key of a kind. -/
def logged (key : String) (kind : Payload → Bool) (log : List Event) : Bool :=
  log.any (·.under key kind)

/-- Completed work is final and written ahead: whatever completes the key is preceded by a
start with its token, and no event of the key's window follows. -/
structure Orderly (token key : String) (log : List Event) : Prop where
  ahead : ∀ a e b, log = a ++ e :: b → e.completes key → ∃ f ∈ a, f.starts token key
  final : ∀ a e b, log = a ++ e :: b → e.completes key → ∀ f ∈ b, ¬ f.concerns key

/-- Some window of the key has been opened. -/
def Life.begun : Life → Prop
  | .fresh => False
  | _ => True

def Life.isDone : Life → Prop
  | .done _ => True
  | _ => False

namespace LifecycleLemmas

variable {token key : String} {life life' : Life} {e : Event} {log : List Event}

theorem move_quiet {payload : Payload} (h : payload.lifecycle = false) :
    life.move token payload = some life := by
  cases life <;> cases payload <;> first | rfl | cases h

theorem step_quiet (h : ¬ e.concerns key) : life.step token key e = some life := by
  unfold Life.step
  split
  · next same => exact move_quiet (by simpa [Event.concerns, same] using h)
  · rfl

theorem lifeOf_append_quiet {es : List Event} (quiet : ∀ e ∈ es, ¬ e.concerns key) :
    lifeOf token key (log ++ es) = lifeOf token key log := by
  unfold lifeOf
  rw [Monitor.run_append]
  cases Monitor.run (Life.step token key) .fresh log with
  | none => rfl
  | some life => exact Monitor.run_quiet fun e mem t => step_quiet (quiet e mem)

/-- A window is only opened by a start with the token. -/
theorem step_begun (h : life.step token key e = some life') (begun : life'.begun) :
    life.begun ∨ e.starts token key := by
  unfold Life.step at h
  split at h
  · next same =>
    cases life with
    | fresh =>
      refine .inr ⟨same, ?_⟩
      cases hp : e.payload with
      | stepStarted t =>
        rw [hp] at h
        simp only [Life.move] at h
        split at h
        · next ht => rw [ht]
        · cases h
      | _ =>
        rw [hp] at h
        simp only [Life.move, Payload.lifecycle] at h
        cases h <;> exact begun.elim
    | _ => exact .inl trivial
  · cases h
    exact .inl begun

/-- After a completion no event of the window is accepted. -/
theorem step_done (done : life.isDone) (h : life.step token key e = some life') :
    life'.isDone ∧ ¬ e.concerns key := by
  cases life with
  | done result =>
    unfold Life.step at h
    split at h
    · next same =>
      simp only [Life.move] at h
      split at h
      · cases h
      · next quiet =>
        cases h
        exact ⟨trivial, fun c => quiet c.2⟩
    · next other =>
      cases h
      exact ⟨trivial, fun c => other c.1⟩
  | _ => exact done.elim

/-- A completion is accepted in an open window only. -/
theorem step_completes (completes : e.completes key) (h : life.step token key e = some life') :
    life = .opened ∧ life'.isDone := by
  obtain ⟨same, result, by_, hp⟩ := completes
  rw [Life.step, if_pos same, hp] at h
  cases life <;> cases h
  exact ⟨rfl, trivial⟩

end LifecycleLemmas

open LifecycleLemmas

/-- What the monitor accepts is orderly. -/
theorem orderly_of_life {token key : String} {log : List Event} {life : Life}
    (h : lifeOf token key log = some life) : Orderly token key log := by
  have split : ∀ a e b, log = a ++ e :: b → e.completes key → ∃ u v,
      lifeOf token key a = some u ∧ u = .opened ∧ v.isDone ∧
        Monitor.run (Life.step token key) v b = some life := by
    rintro a e b rfl completes
    obtain ⟨u, ha, hrest⟩ := Monitor.run_prefix h
    obtain ⟨v, hv, hb⟩ := Option.bind_eq_some_iff.mp hrest
    obtain ⟨opened, done⟩ := step_completes completes hv
    exact ⟨u, v, ha, opened, done, hb⟩
  constructor
  · intro a e b log completes
    obtain ⟨u, v, ha, rfl, -, -⟩ := split a e b log completes
    rcases Monitor.run_entered Life.begun (Event.starts token key)
      (fun _ _ _ => step_begun) ha trivial with fresh | starts
    · exact fresh.elim
    · exact starts
  · intro a e b log completes
    obtain ⟨u, v, -, -, done, hb⟩ := split a e b log completes
    exact (Monitor.run_absorbed Life.isDone (Event.concerns key)
      (fun _ _ _ => step_done) hb done).2

/-! ## Replay state -/

/-- The replay state knows of `key` what its life says. -/
def Synced (ctx : RunContext) (key : String) : Life → Prop
  | .fresh | .failed => ctx.completed key = none ∧ ctx.unresolved key = none
  | .opened => ctx.completed key = none ∧ (ctx.unresolved key).isSome = true
  | .done result => ctx.completed key = some result

namespace LifecycleLemmas

variable {token key : String} {life life' : Life}

theorem synced_congr {ctx ctx' : RunContext} (h : Synced ctx key life)
    (completed : ctx'.completed key = ctx.completed key)
    (unresolved : ctx'.unresolved key = ctx.unresolved key) : Synced ctx' key life := by
  cases life <;> simp only [Synced, completed, unresolved] at h ⊢ <;> exact h

/-- An event of another key, or of no window, tells the replay state nothing about `key`. -/
theorem replayEvent_other {e : Event} (ctx : RunContext) (h : ¬ e.concerns key) :
    (ctx.replayEvent e).completed key = ctx.completed key ∧
      (ctx.replayEvent e).unresolved key = ctx.unresolved key := by
  unfold RunContext.replayEvent
  cases hk : e.stepKey with
  | none => exact ⟨rfl, rfl⟩
  | some k =>
    cases hp : e.payload <;> first
      | exact ⟨rfl, rfl⟩
      | (have other : key ≠ k := fun same => h ⟨same ▸ hk, by rw [hp]; rfl⟩
         simp [other])

/-- One round of replay keeps up with the monitor. -/
theorem replayEvent_synced {ctx : RunContext} {e : Event} (h : Synced ctx key life)
    (move : life.step token key e = some life') : Synced (ctx.replayEvent e) key life' := by
  by_cases concerns : e.concerns key
  · obtain ⟨hk, lifecycle⟩ := concerns
    rw [Life.step, if_pos hk] at move
    cases hp : e.payload with
    | stepStarted t =>
      have fresh : ctx.completed key = none ∧ life' = .opened := by
        rw [hp] at move
        cases life with
        | fresh | failed =>
          simp only [Life.move] at move
          split at move
          · exact ⟨h.1, (Option.some.inj move).symm⟩
          · cases move
        | _ => cases move
      obtain ⟨none, rfl⟩ := fresh
      simp [RunContext.replayEvent, hk, hp, Synced, none]
    | stepCompleted result by_ =>
      rw [hp] at move
      cases life <;> cases move
      simp [RunContext.replayEvent, hk, hp, Synced]
    | stepErrorRetried n error =>
      rw [hp] at move
      cases life <;> cases move
      simpa [RunContext.replayEvent, hk, hp] using h
    | crashWindowRetried t =>
      rw [hp] at move
      cases life <;> cases move
      simpa [RunContext.replayEvent, hk, hp] using h
    | stepFailed n error =>
      rw [hp] at move
      cases life <;> cases move
      simpa [RunContext.replayEvent, hk, hp, Synced] using h.1
    | _ =>
      rw [hp] at lifecycle
      cases lifecycle
  · obtain ⟨completed, unresolved⟩ := replayEvent_other ctx concerns
    rw [step_quiet concerns] at move
    cases move
    exact synced_congr h completed unresolved

theorem buildReplayState_synced {ctx : RunContext} {events : List Event} (h : Synced ctx key life)
    (run : Monitor.run (Life.step token key) life events = some life') :
    Synced (ctx.buildReplayState events) key life' := by
  induction events generalizing ctx life with
  | nil =>
    cases run
    exact h
  | cons e events ih =>
    rw [Monitor.run_cons] at run
    obtain ⟨mid, move, rest⟩ := Option.bind_eq_some_iff.mp run
    exact ih (replayEvent_synced h move) rest

end LifecycleLemmas

/-- The replay state built from an accepted log knows its keys. -/
theorem init_synced {token key : String} {events : List Event} {life : Life} (run : RunRecord)
    (h : lifeOf token key events = some life) : Synced (.init run events) key life :=
  buildReplayState_synced (show Synced _ key .fresh from ⟨rfl, rfl⟩) h

/-! What the replay state knows of a log that the monitor does not accept. -/

namespace LifecycleLemmas

variable {key : String}

theorem logged_cons {kind : Payload → Bool} {e : Event} {log : List Event} :
    logged key kind (e :: log) = (e.under key kind || logged key kind log) := rfl

theorem logged_append {kind : Payload → Bool} (a b : List Event) :
    logged key kind (a ++ b) = (logged key kind a || logged key kind b) := List.any_append

theorem under_concerns {kind : Payload → Bool} {e : Event} (h : e.under key kind = true)
    (window : ∀ payload, kind payload = true → payload.lifecycle = true) : e.concerns key := by
  simp only [Event.under, Bool.and_eq_true, decide_eq_true_eq] at h
  exact ⟨h.1, window _ h.2⟩

theorem completion_lifecycle (payload : Payload) (h : payload.isCompletion = true) :
    payload.lifecycle = true := by
  cases payload <;> first | rfl | cases h

theorem start_lifecycle (payload : Payload) (h : payload.isStart = true) :
    payload.lifecycle = true := by
  cases payload <;> first | rfl | cases h

theorem failure_lifecycle (payload : Payload) (h : payload.isFailure = true) :
    payload.lifecycle = true := by
  cases payload <;> first | rfl | cases h

/-- Replay fills the two tables of step keys and leaves the rest of the memory. -/
theorem replay_same {β : Type} (g : RunContext → β)
    (same : ∀ ctx completed unresolved, g { ctx with completed, unresolved } = g ctx)
    (ctx : RunContext) (events : List Event) : g (ctx.buildReplayState events) = g ctx := by
  induction events generalizing ctx with
  | nil => rfl
  | cons e events ih =>
    refine (ih (ctx.replayEvent e)).trans ?_
    unfold RunContext.replayEvent
    split
    · rfl
    · split
      · exact same ctx _ _
      · exact same ctx _ _
      · exact same ctx _ _
      · rfl

/-- Once replay has found a result of the key it keeps one. -/
theorem replay_keeps (ctx : RunContext) (events : List Event)
    (h : (ctx.completed key).isSome = true) :
    ((ctx.buildReplayState events).completed key).isSome = true := by
  induction events generalizing ctx with
  | nil => exact h
  | cons e events ih =>
    refine ih _ ?_
    unfold RunContext.replayEvent
    cases e.stepKey with
    | none => exact h
    | some k =>
      cases e.payload <;> first
        | exact h
        | (by_cases same : key = k <;> simp [same, h])

/-- A result follows from any completion in the log. -/
theorem replay_completed (ctx : RunContext) {events : List Event}
    (h : logged key Payload.isCompletion events = true) :
    ((ctx.buildReplayState events).completed key).isSome = true := by
  induction events generalizing ctx with
  | nil => cases h
  | cons e events ih =>
    by_cases rest : logged key Payload.isCompletion events = true
    · exact ih _ rest
    · refine replay_keeps _ events ?_
      rw [logged_cons, Bool.or_eq_true] at h
      have here := h.resolve_right rest
      simp only [Event.under, Bool.and_eq_true, decide_eq_true_eq] at here
      obtain ⟨same, kind⟩ := here
      cases hp : e.payload with
      | stepCompleted result by_ => simp [RunContext.replayEvent, same, hp]
      | _ => simp [hp, Payload.isCompletion] at kind

/-- While the log has no failure of the key, a start leaves the key open or closed with a
result. -/
theorem replay_started (ctx : RunContext) {events : List Event}
    (start : (ctx.completed key).isSome = true ∨ (ctx.unresolved key).isSome = true ∨
      logged key Payload.isStart events = true)
    (unfailed : logged key Payload.isFailure events = false) :
    ((ctx.buildReplayState events).completed key).isSome = true ∨
      ((ctx.buildReplayState events).unresolved key).isSome = true := by
  induction events generalizing ctx with
  | nil =>
    rcases start with completed | unresolved | start
    · exact .inl completed
    · exact .inr unresolved
    · cases start
  | cons e events ih =>
    rw [logged_cons, Bool.or_eq_false_iff] at unfailed
    refine ih (ctx.replayEvent e) ?_ unfailed.2
    rw [logged_cons, Bool.or_eq_true] at start
    by_cases concerns : e.concerns key
    · obtain ⟨same, lifecycle⟩ := concerns
      cases hp : e.payload with
      | stepStarted token => exact .inr (.inl (by simp [RunContext.replayEvent, same, hp]))
      | stepCompleted result by_ => exact .inl (by simp [RunContext.replayEvent, same, hp])
      | stepFailed n error => simp [Event.under, same, hp, Payload.isFailure] at unfailed
      | _ =>
        simp only [RunContext.replayEvent, same, hp]
        simpa [Event.under, hp, Payload.isStart] using start
    · obtain ⟨completed, unresolved⟩ := replayEvent_other ctx concerns
      have other : e.under key Payload.isStart = false :=
        Bool.eq_false_iff.mpr fun is => concerns (under_concerns is start_lifecycle)
      rw [completed, unresolved]
      simpa [other] using start

end LifecycleLemmas

/-! ## The step machine -/

/-- What a step at a stage takes the life of its key to be. -/
def Stage.Agrees (ctx : RunContext) (key : String) : Stage → Life → Prop
  | .entry, life => Synced ctx key life
  | .boundary, life | .leased, life | .uncancelled, life | .admitted, life =>
    Synced ctx key life ∧ ctx.completed key = none
  | .starting, life => life = .fresh ∨ life = .failed
  | .replayed result, life | .resolved result, life | .recorded result, life
  | .saved result, life | .billed result, life | .metered result, life | .closed result, life =>
    life = .done result
  | .recovering, life | .verifying, life | .recovered _, life | .unknown, life | .ready _ _, life
  | .running _, life | .returned _ _, life | .raised _ _, life | .waiting _, life =>
    life = .opened
  | .failed _ _, life => life = .failed
  | .escaped _, _ => True

end AnchorRuntime
