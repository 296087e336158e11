import Mathlib

/-!
# Numbered processes

Processes that are started one after another and never removed are a list, and a process is
its place in the list. A step starts a new one at the end or replaces one of the old ones.

Results: `concat_cases` and `set_cases`, who is at a place afterwards; `perm_filterMap_set`,
what a count over all processes gains and loses.
-/

namespace Slots

variable {α β : Type} {l : List α} {i k : Nat} {x y : α}

theorem concat_cases {a : α} (h : (l ++ [a])[i]? = some x) :
    l[i]? = some x ∨ (i = l.length ∧ x = a) := by
  rw [List.getElem?_append] at h
  split at h
  · exact .inl h
  · rw [List.getElem?_singleton] at h
    split at h
    · cases h
      exact .inr ⟨by omega, rfl⟩
    · exact absurd h (by simp)

theorem set_cases (h : (l.set i y)[k]? = some x) :
    (k = i ∧ x = y) ∨ (k ≠ i ∧ l[k]? = some x) := by
  by_cases e : k = i
  · subst e
    obtain ⟨bound, same⟩ := List.getElem?_eq_some_iff.mp h
    rw [List.getElem_set_self] at same
    exact .inl ⟨rfl, same.symm⟩
  · rw [List.getElem?_set_ne (Ne.symm e)] at h
    exact .inr ⟨e, h⟩

theorem set_self (h : l[i]? = some x) : (l.set i y)[i]? = some y :=
  List.getElem?_set_self (List.getElem?_eq_some_iff.mp h).1

theorem perm_filterMap_set (f : α → Option β) (h : l[i]? = some x) :
    ((l.set i y).filterMap f ++ (f x).toList).Perm (l.filterMap f ++ (f y).toList) := by
  have cons : ∀ (z : α) (l : List α), (z :: l).filterMap f = (f z).toList ++ l.filterMap f := by
    intro z l
    cases hz : f z with
    | none => simp [hz]
    | some => simp [hz]
  induction l generalizing i with
  | nil => cases h
  | cons z l ih =>
    cases i with
    | zero =>
      obtain rfl := Option.some.inj h
      rw [List.set_cons_zero, cons, cons, List.append_assoc, List.append_assoc]
      exact (List.perm_append_comm_assoc _ _ _).trans
        ((List.perm_append_comm.append_left _).trans (List.perm_append_comm_assoc _ _ _))
    | succ i =>
      rw [List.set_cons_succ, cons, cons, List.append_assoc, List.append_assoc]
      exact (ih h).append_left _

end Slots
