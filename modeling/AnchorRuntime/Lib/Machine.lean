import Mathlib

/-!
# Machines, guarded runs and invariants

A machine is a partial step function from states and actions to states. A guarded run
takes only steps whose state and action meet a guard; the guard is where an assumption on
the environment or on the schedule stands.

Results: `Reaches.invariant` is the induction of a safety proof, done once, and
`run_reaches` turns an executed list of actions into a run.
-/

namespace Machine

variable {σ α : Type}

/-- `Reaches step ok s t`: a run from `s` to `t` all of whose steps meet `ok`. -/
inductive Reaches (step : σ → α → Option σ) (ok : σ → α → Prop) (s : σ) : σ → Prop
  | refl : Reaches step ok s s
  | tail {t u : σ} {a : α} :
      Reaches step ok s t → ok t a → step t a = some u → Reaches step ok s u

variable {step : σ → α → Option σ} {ok ok' : σ → α → Prop} {s t : σ}

/-- What holds at the start and is preserved by every step holds in every state reached.
The step may assume that its first state is itself reached. -/
theorem Reaches.invariant {I : σ → Prop} (h : Reaches step ok s t) (base : I s)
    (preserved : ∀ t a u, Reaches step ok s t → I t → ok t a → step t a = some u → I u) :
    I t := by
  induction h with
  | refl => exact base
  | tail h hok hs ih => exact preserved _ _ _ h ih hok hs

/-- A run under a stronger guard is a run under a weaker one. -/
theorem Reaches.weaken (h : Reaches step ok s t) (imp : ∀ t a, ok t a → ok' t a) :
    Reaches step ok' s t := by
  induction h with
  | refl => exact .refl
  | tail _ hok hs ih => exact .tail ih (imp _ _ hok) hs

theorem Reaches.trans {u : σ} (h : Reaches step ok s t) (h' : Reaches step ok t u) :
    Reaches step ok s u := by
  induction h' with
  | refl => exact h
  | tail _ hok hs ih => exact .tail ih hok hs

/-! ## Executed runs -/

/-- Execute a list of actions, as long as each meets the guard. -/
def run (step : σ → α → Option σ) (ok : σ → α → Prop) [∀ s a, Decidable (ok s a)] :
    σ → List α → Option σ
  | s, [] => some s
  | s, a :: as => if ok s a then (step s a).bind fun t => run step ok t as else none

theorem run_reaches [∀ s a, Decidable (ok s a)] {as : List α} (h : run step ok s as = some t) :
    Reaches step ok s t := by
  induction as generalizing s with
  | nil =>
    simp only [run, Option.some.injEq] at h
    exact h ▸ .refl
  | cons a as ih =>
    simp only [run] at h
    split at h
    · next hok =>
      obtain ⟨u, hu, hrest⟩ := Option.bind_eq_some_iff.mp h
      exact (Reaches.tail .refl hok hu).trans (ih hrest)
    · exact absurd h (by simp)

/-- A property of the state an execution ends in is found by executing it. -/
theorem run_exists (step : σ → α → Option σ) (ok : σ → α → Prop) [∀ s a, Decidable (ok s a)]
    (s : σ) (as : List α) (p : σ → Prop) [DecidablePred p]
    (h : (run step ok s as).any (fun t => p t) = true) : ∃ t, run step ok s as = some t ∧ p t := by
  obtain ⟨t, ht, hp⟩ := (Option.any_eq_true _ _).mp h
  exact ⟨t, ht, of_decide_eq_true hp⟩

end Machine
