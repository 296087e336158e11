import Mathlib

/-!
# Occurrences

The entries of a log, each numbered by how often its label has occurred: the n-th entry with a
label. What a numbering of this kind keeps from one log to another depends on the order of the
entries of each label only.

Results: `mem_numbered`, the entry with a label and a number is the one at that place among
the entries of the label; `comparable_of_agree`, logs that agree where both have an entry continue
one another.
-/

namespace Occurrences

variable {α β : Type}

/-! ## Prefixes -/

theorem get_below {l m : List α} (h : l <+: m) {i : Nat} {a : α} (ha : l[i]? = some a) :
    m[i]? = some a := by
  obtain ⟨bound, rfl⟩ := List.getElem?_eq_some_iff.mp ha
  exact List.prefix_iff_getElem?.mp h i bound

theorem agree_below {l m : List α} (h : l <+: m) {i : Nat} {a b : α} (ha : l[i]? = some a)
    (hb : m[i]? = some b) : a = b :=
  Option.some.inj ((get_below h ha).symm.trans hb)

/-- Of two logs that agree where both have an entry, one continues the other. -/
theorem comparable_of_agree {l m : List α}
    (agree : ∀ (i : Nat) (a b : α), l[i]? = some a → m[i]? = some b → a = b) :
    l <+: m ∨ m <+: l := by
  induction l generalizing m with
  | nil => exact .inl List.nil_prefix
  | cons a l ih =>
    cases m with
    | nil => exact .inr List.nil_prefix
    | cons b m =>
      obtain rfl := agree 0 a b rfl rfl
      exact (ih fun i x y hx hy => agree (i + 1) x y hx hy).imp
        (fun h => List.cons_prefix_cons.mpr ⟨rfl, h⟩) fun h => List.cons_prefix_cons.mpr ⟨rfl, h⟩

/-! ## Numbers -/

variable [DecidableEq α]

/-- The labels, each with how often it has occurred before it: in `before`, or since. -/
def ranked (before : List α) : List α → List (α × Nat)
  | [] => []
  | a :: as => (a, before.count a) :: ranked (before ++ [a]) as

@[simp] theorem ranked_length (before as : List α) : (ranked before as).length = as.length := by
  induction as generalizing before with
  | nil => rfl
  | cons a as ih => exact congrArg (· + 1) (ih _)

/-- A label more. -/
theorem ranked_singleton (before : List α) (a : α) :
    ranked before [a] = [(a, (before.filter fun b => b = a).length)] := by
  rw [ranked, List.count_eq_length_filter]
  simp only [beq_eq_decide]
  rfl

theorem ranked_append (before as bs : List α) :
    ranked before (as ++ bs) = ranked before as ++ ranked (before ++ as) bs := by
  induction as generalizing before with
  | nil => rw [List.append_nil]; rfl
  | cons a as ih =>
    rw [List.cons_append, ranked, ranked, ih, List.append_assoc, List.cons_append]
    rfl

/-- No label has a number twice. -/
theorem ranked_nodup (before as : List α) : (ranked before as).Nodup := by
  induction as generalizing before with
  | nil => exact List.nodup_nil
  | cons a as ih =>
    refine List.nodup_cons.mpr ⟨fun mem => ?_, ih _⟩
    have later : ∀ (bs cs : List α) (b : α) (n : Nat), (b, n) ∈ ranked cs bs →
        cs.count b ≤ n := by
      intro bs
      induction bs with
      | nil => exact fun _ _ _ mem => absurd mem List.not_mem_nil
      | cons c bs ih =>
        intro cs b n mem
        rcases List.mem_cons.mp mem with same | mem
        · cases same
          exact le_rfl
        · refine le_trans ?_ (ih _ b n mem)
          rw [List.count_append]
          exact Nat.le_add_right _ _
    have more := later as (before ++ [a]) a _ mem
    rw [List.count_append, List.count_singleton_self] at more
    exact absurd more (Nat.not_succ_le_self _)

/-- The entries under a label, in order. -/
def entriesOf (a : α) (log : List (α × β)) : List β :=
  (log.filter fun entry => entry.1 = a).map (·.2)

theorem entriesOf_append (a : α) (l m : List (α × β)) :
    entriesOf a (l ++ m) = entriesOf a l ++ entriesOf a m := by
  rw [entriesOf, List.filter_append, List.map_append]
  rfl

theorem entriesOf_length (a : α) (log : List (α × β)) :
    (entriesOf a log).length = (log.map (·.1)).count a := by
  induction log with
  | nil => rfl
  | cons entry log ih =>
    rw [List.map_cons, List.count_cons, ← ih, entriesOf, entriesOf, List.filter_cons]
    by_cases same : entry.1 = a
    · simp [same]
    · simp [same]

theorem mem_entriesOf {a : α} {b : β} {log : List (α × β)} :
    b ∈ entriesOf a log ↔ (a, b) ∈ log := by
  simp [entriesOf]

theorem entriesOf_nodup {a : α} {log : List (α × β)} (once : (log.map (·.2)).Nodup) :
    (entriesOf a log).Nodup :=
  once.sublist (List.filter_sublist.map _)

/-- The entries of a log, each with its label and its number. -/
def numbered (log : List (α × β)) : List ((α × Nat) × β) :=
  (ranked [] (log.map (·.1))).zip (log.map (·.2))

theorem numbered_concat (log : List (α × β)) (entry : α × β) : numbered (log ++ [entry]) =
    numbered log ++ [((entry.1, (log.map (·.1)).count entry.1), entry.2)] := by
  rw [numbered, List.map_append, List.map_append, ranked_append, List.zip_append]
  · rfl
  · rw [ranked_length, List.length_map, List.length_map]

/-- The n-th entry with a label is entry n among those with the label. -/
theorem mem_numbered {log : List (α × β)} {a : α} {n : Nat} {b : β} :
    ((a, n), b) ∈ numbered log ↔ (entriesOf a log)[n]? = some b := by
  induction log using List.reverseRecOn with
  | nil => simp [numbered, entriesOf, ranked]
  | append_singleton log entry ih =>
    rw [numbered_concat, List.mem_append, ih, List.mem_singleton, entriesOf_append]
    by_cases same : entry.1 = a
    · subst same
      have one : entriesOf entry.1 [entry] = [entry.2] := by simp [entriesOf]
      rw [one, ← entriesOf_length]
      constructor
      · rintro (old | new)
        · exact (List.getElem?_append_left (List.getElem?_eq_some_iff.mp old).1).trans old
        · cases new
          exact List.getElem?_concat_length
      · intro at_
        rw [List.getElem?_append] at at_
        split at at_
        · exact .inl at_
        · rw [List.getElem?_singleton] at at_
          split at at_
          · cases at_
            exact .inr (by rw [show n = (entriesOf entry.1 log).length by omega])
          · cases at_
    · have none_ : entriesOf a [entry] = [] := by simp [entriesOf, same]
      rw [none_, List.append_nil]
      refine or_iff_left fun new => same ?_
      cases new
      rfl

end Occurrences
