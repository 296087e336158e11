import Mathlib

/-!
# Tallies

The tally of a log is the sum of what its events weigh. The laws compare tallies of a log
and of a longer one, under weights that differ on some of the events.

Results: `tally_mono` for weights that only grow, `tally_add` and `tally_insert` when one
event comes to weigh more.
-/

namespace Tally

variable {ε M : Type} [AddCommMonoid M] [PartialOrder M] [IsOrderedAddMonoid M]

def tally (weight : ε → M) (log : List ε) : M := (log.map weight).sum

variable {f g : ε → M} {log es : List ε}

omit [PartialOrder M] [IsOrderedAddMonoid M] in
@[simp] theorem tally_nil (f : ε → M) : tally f [] = 0 := rfl

omit [PartialOrder M] [IsOrderedAddMonoid M] in
@[simp] theorem tally_cons (f : ε → M) (e : ε) (log : List ε) :
    tally f (e :: log) = f e + tally f log := List.sum_cons

omit [PartialOrder M] [IsOrderedAddMonoid M] in
theorem tally_append (f : ε → M) (log es : List ε) :
    tally f (log ++ es) = tally f log + tally f es := by
  rw [tally, List.map_append, List.sum_append]
  rfl

theorem tally_nonneg (nonneg : ∀ e ∈ log, 0 ≤ f e) : 0 ≤ tally f log := by
  refine List.sum_nonneg fun x mem => ?_
  obtain ⟨e, he, rfl⟩ := List.mem_map.mp mem
  exact nonneg e he

theorem tally_le (le : ∀ e ∈ log, f e ≤ g e) : tally f log ≤ tally g log :=
  List.sum_le_sum le

/-- A log that has grown, under weights that are no smaller. -/
theorem tally_mono (le : ∀ e ∈ log, f e ≤ g e) (nonneg : ∀ e ∈ es, 0 ≤ g e) :
    tally f log ≤ tally g (log ++ es) := by
  rw [tally_append]
  exact (tally_le le).trans (le_add_of_nonneg_right (tally_nonneg nonneg))

/-- A log one of whose events has come to weigh `x` more. -/
theorem tally_add {e : ε} {x : M} (mem : e ∈ log) (more : f e + x ≤ g e)
    (le : ∀ e ∈ log, f e ≤ g e) : tally f log + x ≤ tally g log := by
  obtain ⟨a, b, rfl⟩ := List.append_of_mem mem
  have before : tally f a ≤ tally g a := tally_le fun e he => le e (by simp [he])
  have after : tally f b ≤ tally g b := tally_le fun e he => le e (by simp [he])
  rw [tally_append, tally_append, tally_cons, tally_cons]
  calc tally f a + (f e + tally f b) + x = tally f a + ((f e + x) + tally f b) := by
        rw [add_assoc, add_right_comm (f e)]
    _ ≤ tally g a + (g e + tally g b) := add_le_add before (add_le_add more after)

omit [PartialOrder M] [IsOrderedAddMonoid M] in
theorem tally_congr (same : ∀ e ∈ log, f e = g e) : tally f log = tally g log := by
  rw [tally, tally, List.map_congr_left same]

omit [PartialOrder M] [IsOrderedAddMonoid M] in
theorem tally_zero (zero : ∀ e ∈ log, f e = 0) : tally f log = 0 := by
  refine List.sum_eq_zero fun x mem => ?_
  obtain ⟨e, he, rfl⟩ := List.mem_map.mp mem
  exact zero e he

omit [PartialOrder M] [IsOrderedAddMonoid M] in
/-- A log one of whose events has come to weigh `x` more, and the others what they did. -/
theorem tally_insert {a b : List ε} {e : ε} {x : M} (more : f e + x = g e)
    (before : ∀ e ∈ a, f e = g e) (after : ∀ e ∈ b, f e = g e) :
    tally f (a ++ e :: b) + x = tally g (a ++ e :: b) := by
  rw [tally_append, tally_append, tally_cons, tally_cons, tally_congr before, tally_congr after,
    ← more, add_assoc, add_right_comm (f e)]

end Tally
