import Mathlib

/-!
# Monitors

A monitor reads a log event by event and gives up at the first event it does not accept.
What it accepts is a safety property of logs, stated by states instead of by positions.

Results: `split_append` and `split_concat`, the positions of a log that has grown; `run_append` for
growing logs, `run_quiet` for events the monitor does not look at, and the two rules that turn
states back into positions: `run_entered`, a state of a kind is only entered through an event of a
kind, and `run_absorbed`, once in an absorbing kind of state some events no longer occur.
-/

namespace Monitor

variable {σ ε : Type} {step : σ → ε → Option σ}

/-- A position in a grown log is an old one, or one among the new events. -/
theorem split_append {l es a b : List ε} {x : ε} (h : l ++ es = a ++ x :: b) :
    (∃ b', l = a ++ x :: b' ∧ b = b' ++ es) ∨ ∃ a', a = l ++ a' ∧ es = a' ++ x :: b := by
  rcases List.append_eq_append_iff.mp h with ⟨mid, whole, rest⟩ | ⟨mid, whole, rest⟩
  · exact .inr ⟨mid, whole, rest⟩
  · cases mid with
    | nil =>
      rw [List.append_nil] at whole
      exact .inr ⟨[], by rw [whole, List.append_nil], rest.symm⟩
    | cons y mid =>
      obtain ⟨rfl, rfl⟩ := List.cons.inj rest
      exact .inl ⟨mid, whole, rfl⟩

/-- A position in a log with one more event. -/
theorem split_concat {l a b : List ε} {x m : ε} (h : l ++ [x] = a ++ m :: b) :
    (b = [] ∧ m = x ∧ l = a) ∨ ∃ b', b = b' ++ [x] ∧ l = a ++ m :: b' := by
  rcases split_append h with ⟨b', old, rfl⟩ | ⟨a', whole, new⟩
  · exact .inr ⟨b', rfl, old⟩
  · cases a' with
    | nil =>
      obtain ⟨rfl, rfl⟩ := List.cons.inj new
      exact .inl ⟨rfl, rfl, by rw [whole, List.append_nil]⟩
    | cons y a' => simp at new

/-- The state after a log, none once an event was not accepted. -/
def run (step : σ → ε → Option σ) (s : σ) (log : List ε) : Option σ := log.foldlM step s

@[simp] theorem run_nil (s : σ) : run step s [] = some s := rfl

@[simp] theorem run_cons (s : σ) (e : ε) (log : List ε) :
    run step s (e :: log) = (step s e).bind fun t => run step t log := rfl

theorem run_append (s : σ) (a b : List ε) :
    run step s (a ++ b) = (run step s a).bind fun t => run step t b :=
  List.foldlM_append

/-- Every prefix of an accepted log is accepted. -/
theorem run_prefix {s t : σ} {a b : List ε} (h : run step s (a ++ b) = some t) :
    ∃ u, run step s a = some u ∧ run step u b = some t := by
  rw [run_append] at h
  exact Option.bind_eq_some_iff.mp h

/-- Events that move nothing. -/
theorem run_quiet {s : σ} {log : List ε} (quiet : ∀ e ∈ log, ∀ t, step t e = some t) :
    run step s log = some s := by
  induction log with
  | nil => rfl
  | cons e log ih =>
    rw [run_cons, quiet e List.mem_cons_self]
    exact ih fun e mem => quiet e (List.mem_cons_of_mem _ mem)

/-- States of kind `S` are only entered through events of kind `K`. -/
theorem run_entered (S : σ → Prop) (K : ε → Prop)
    (enter : ∀ s e t, step s e = some t → S t → S s ∨ K e) {s t : σ} {log : List ε}
    (h : run step s log = some t) (end_ : S t) : S s ∨ ∃ e ∈ log, K e := by
  induction log generalizing s with
  | nil =>
    cases h
    exact .inl end_
  | cons e log ih =>
    rw [run_cons] at h
    obtain ⟨u, hu, hrest⟩ := Option.bind_eq_some_iff.mp h
    rcases ih hrest with hS | ⟨f, mem, hK⟩
    · rcases enter s e u hu hS with hS | hK
      · exact .inl hS
      · exact .inr ⟨e, List.mem_cons_self, hK⟩
    · exact .inr ⟨f, List.mem_cons_of_mem _ mem, hK⟩

/-- From states of the absorbing kind `S` no event of kind `K` is accepted. -/
theorem run_absorbed (S : σ → Prop) (K : ε → Prop)
    (absorb : ∀ s e t, S s → step s e = some t → S t ∧ ¬ K e) {s t : σ} {log : List ε}
    (h : run step s log = some t) (start : S s) : S t ∧ ∀ e ∈ log, ¬ K e := by
  induction log generalizing s with
  | nil =>
    cases h
    exact ⟨start, by simp⟩
  | cons e log ih =>
    rw [run_cons] at h
    obtain ⟨u, hu, hrest⟩ := Option.bind_eq_some_iff.mp h
    obtain ⟨hS, hK⟩ := absorb s e u start hu
    obtain ⟨end_, rest⟩ := ih hrest hS
    refine ⟨end_, fun f mem => ?_⟩
    rcases List.mem_cons.mp mem with rfl | mem
    · exact hK
    · exact rest f mem

end Monitor
