import AnchorRuntime.Lib.Table
import AnchorRuntime.Lib.Machine

/-!
# Fragments

The part of a state that some keys make up: the rows of a table with these keys, the entries of a
list that are kept, each at its rank. Statements on kept keys do to the fragment what they do to the
whole, and the others leave the fragment as it is; so the fragment of a run of the whole is a run
by itself.

Results: `only_insert`, `only_update`, `only_delete`, the statements on fragments, and
`countP_update_le`, what they do to a count of rows; `filter_rank` and `filter_set`, the entries of
a list and of its fragment; `Reaches.simulated`, a relation kept by every step is kept by runs, and
`Reaches.fragment`, a map that takes every step to a step or to none takes runs to runs.
-/

namespace Relational.Table

section

variable {κ ρ : Type} {key : ρ → κ} {t t' : Table key}

theorem ext_rows (h : t.rows = t'.rows) : t = t' := by
  cases t
  cases t'
  cases h
  rfl

end

variable {κ ρ : Type} [DecidableEq κ] {key : ρ → κ} {t t' : Table key} {p : κ → Bool} {k : κ}

/-- The rows whose keys are kept. -/
def only (p : κ → Bool) (t : Table key) : Table key where
  rows := t.rows.filter fun r => p (key r)
  unique := t.unique.sublist (List.filter_sublist.map _)

theorem find_only (kept : p k = true) : (t.only p).find k = t.find k := by
  unfold find only
  rw [List.find?_filter]
  congr 1
  funext r
  by_cases same : key r = k
  · simp [same, kept]
  · simp [same]

theorem find_dropped (dropped : p k = false) : (t.only p).find k = none := by
  refine find_eq_none.mpr fun mem => ?_
  obtain ⟨r, hr, rfl⟩ := List.mem_map.mp mem
  rw [(List.mem_filter.mp hr).2] at dropped
  cases dropped

/-- The fragment of one key is its row. -/
theorem only_one {r : ρ} (mem : r ∈ t.rows) : (t.only (· = key r)).rows = [r] := by
  obtain ⟨as, bs, split⟩ := List.append_of_mem mem
  have unique := t.unique
  rw [split, List.map_append, List.map_cons, List.nodup_middle, List.nodup_cons,
    ← List.map_append] at unique
  have others : ∀ cs, cs ⊆ as ++ bs → cs.filter (fun x => decide (key x = key r)) = [] := by
    intro cs within
    refine List.filter_eq_nil_iff.mpr fun x hx same => unique.1 ?_
    exact of_decide_eq_true same ▸ List.mem_map_of_mem (within hx)
  show t.rows.filter _ = _
  rw [split, List.filter_append, List.filter_cons_of_pos (by simp),
    others as (List.subset_append_left as bs), others bs (List.subset_append_right as bs)]
  rfl

theorem only_insert {r : ρ} (kept : p (key r) = true) :
    (t.only p).insert r = (t.insert r).map (only p) := by
  cases found : t.find (key r) with
  | some r' => rw [insert_taken found, insert_taken ((find_only kept).trans found), Option.map_none]
  | none =>
    obtain ⟨t₁, inserted⟩ := insert_isSome found
    obtain ⟨t₂, inserted'⟩ := insert_isSome (r := r) ((find_only kept).trans found)
    rw [inserted, inserted', Option.map_some]
    refine congrArg some (ext_rows ?_)
    rw [(rows_insert inserted').2]
    show _ = t₁.rows.filter _
    rw [(rows_insert inserted).2, List.filter_append, List.filter_singleton, kept]
    rfl

theorem insert_dropped {r : ρ} (dropped : p (key r) = false) (h : t.insert r = some t') :
    t'.only p = t.only p := by
  refine ext_rows ?_
  show t'.rows.filter _ = t.rows.filter _
  rw [(rows_insert h).2, List.filter_append, List.filter_singleton, dropped, cond_false,
    List.append_nil]

theorem only_update (f : ρ → ρ) (same : ∀ r, key (f r) = key r) :
    (t.update k f same).only p = (t.only p).update k f same := by
  refine ext_rows ?_
  show List.filter _ (t.rows.map _) = (t.rows.filter _).map _
  rw [List.filter_map]
  congr 1
  refine List.filter_congr fun r _ => ?_
  simp only [Function.comp_apply]
  split
  · rw [same]
  · rfl

theorem update_dropped (dropped : p k = false) (f : ρ → ρ) (same : ∀ r, key (f r) = key r) :
    (t.update k f same).only p = t.only p := by
  rw [only_update, update_absent f same (find_dropped dropped)]

theorem only_delete : (t.delete k).only p = (t.only p).delete k := by
  refine ext_rows ?_
  show List.filter _ (List.filter _ t.rows) = List.filter _ (List.filter _ t.rows)
  rw [List.filter_filter, List.filter_filter]
  simp only [Bool.and_comm]

theorem delete_dropped (dropped : p k = false) : (t.delete k).only p = t.only p := by
  refine ext_rows ?_
  show List.filter _ (List.filter _ t.rows) = List.filter _ t.rows
  rw [List.filter_filter]
  refine List.filter_congr fun r _ => ?_
  by_cases here : key r = k
  · rw [here, dropped, Bool.false_and]
  · simp [here]

/-! ## Counts -/

variable {c : ρ → Bool}

/-- Rows that an update makes count were counted before. -/
theorem countP_update_le (f : ρ → ρ) (same : ∀ r, key (f r) = key r)
    (before : ∀ r, key r = k → c (f r) = true → c r = true) :
    (t.update k f same).rows.countP c ≤ t.rows.countP c := by
  show (t.rows.map _).countP c ≤ _
  rw [List.countP_map]
  refine List.countP_mono_left fun r _ counts => ?_
  simp only [Function.comp_apply] at counts
  split at counts
  · next here => exact before r here counts
  · exact counts

/-- A row that counted and no longer does. -/
theorem countP_update_lt (f : ρ → ρ) (same : ∀ r, key (f r) = key r) {r : ρ}
    (there : t.find k = some r) (counted : c r = true)
    (gone : ∀ r, key r = k → c (f r) = false) :
    (t.update k f same).rows.countP c + 1 ≤ t.rows.countP c := by
  obtain ⟨as, bs, split⟩ := List.append_of_mem (find_mem there)
  have rest : ∀ l : List ρ,
      (l.map fun r => if key r = k then f r else r).countP c ≤ l.countP c := by
    intro l
    rw [List.countP_map]
    refine List.countP_mono_left fun x _ counts => ?_
    simp only [Function.comp_apply] at counts
    split at counts
    · next here =>
      rw [gone x here] at counts
      cases counts
    · exact counts
  have left := rest as
  have right := rest bs
  show (t.rows.map _).countP c + 1 ≤ _
  rw [split, List.map_append, List.map_cons, List.countP_append, List.countP_append,
    List.countP_cons, List.countP_cons, if_pos (find_some_key there),
    gone r (find_some_key there), counted]
  simp only [Bool.false_eq_true, if_false, if_true]
  omega

theorem countP_insert {r : ρ} (dropped : c r = false) (h : t.insert r = some t') :
    t'.rows.countP c = t.rows.countP c := by
  rw [(rows_insert h).2, List.countP_append, List.countP_singleton, dropped]
  rfl

theorem countP_delete_le : (t.delete k).rows.countP c ≤ t.rows.countP c :=
  List.filter_sublist.countP_le

end Relational.Table

namespace Fragment

variable {α : Type} {p : α → Bool} {l m : List α} {i k : Nat} {a b : α}

/-- The place of an entry among those that are kept. -/
def rank (p : α → Bool) (l : List α) (i : Nat) : Nat := (l.take i).countP p

theorem rank_cons (x : α) : rank p (x :: l) (i + 1) = rank p l i + if p x then 1 else 0 := by
  rw [rank, List.take_succ_cons, List.countP_cons]
  rfl

theorem filter_rank (h : l[i]? = some a) (kept : p a = true) :
    (l.filter p)[rank p l i]? = some a := by
  induction l generalizing i with
  | nil => cases h
  | cons x l ih =>
    cases i with
    | zero =>
      cases h
      rw [List.filter_cons_of_pos kept]
      rfl
    | succ i =>
      rw [rank_cons, List.filter_cons]
      split
      · exact ih h
      · exact ih h

/-- A new entry at a kept place. -/
theorem filter_set (h : l[i]? = some a) (kept : p a = true) (kept' : p b = true) :
    (l.set i b).filter p = (l.filter p).set (rank p l i) b := by
  induction l generalizing i with
  | nil => cases h
  | cons x l ih =>
    cases i with
    | zero =>
      cases h
      rw [List.set_cons_zero, List.filter_cons_of_pos kept', List.filter_cons_of_pos kept]
      rfl
    | succ i =>
      rw [List.set_cons_succ, rank_cons, List.filter_cons, List.filter_cons, ih h]
      split <;> rfl

theorem filter_set_dropped (h : l[i]? = some a) (dropped : p a = false) (dropped' : p b = false) :
    (l.set i b).filter p = l.filter p := by
  induction l generalizing i with
  | nil => cases h
  | cons x l ih =>
    cases i with
    | zero =>
      cases h
      rw [List.set_cons_zero, List.filter_cons_of_neg (by simp [dropped']),
        List.filter_cons_of_neg (by simp [dropped])]
    | succ i => rw [List.set_cons_succ, List.filter_cons, List.filter_cons, ih h]

/-- The ranks stay when an entry is replaced by one that is kept like it. -/
theorem rank_set (h : l[i]? = some a) (same : p b = p a) (k : Nat) :
    rank p (l.set i b) k = rank p l k := by
  induction l generalizing i k with
  | nil => cases h
  | cons x l ih =>
    cases k with
    | zero => rfl
    | succ k =>
      cases i with
      | zero =>
        cases h
        rw [List.set_cons_zero, rank_cons, rank_cons, same]
      | succ i => rw [List.set_cons_succ, rank_cons, rank_cons, ih h]

theorem rank_append (h : i ≤ l.length) : rank p (l ++ m) i = rank p l i := by
  rw [rank, rank, List.take_append_of_le_length h]

theorem rank_lt (h : l[i]? = some a) (kept : p a = true) (lt : i < k) :
    rank p l i < rank p l k := by
  induction l generalizing i k with
  | nil => cases h
  | cons x l ih =>
    cases k with
    | zero => exact absurd lt (Nat.not_lt_zero _)
    | succ k =>
      cases i with
      | zero =>
        cases h
        rw [rank_cons, kept]
        exact Nat.succ_pos _
      | succ i =>
        rw [rank_cons, rank_cons]
        exact Nat.add_lt_add_right (ih h (Nat.lt_of_succ_lt_succ lt)) _

theorem rank_inj (h : l[i]? = some a) (kept : p a = true) (h' : l[k]? = some b)
    (kept' : p b = true) (same : rank p l i = rank p l k) : i = k := by
  rcases Nat.lt_trichotomy i k with lt | eq | gt
  · exact absurd same (rank_lt h kept lt).ne
  · exact eq
  · exact absurd same (rank_lt h' kept' gt).ne'

end Fragment

namespace Machine

variable {σ τ α β : Type} {step : σ → α → Option σ} {ok : σ → α → Prop} {step' : τ → β → Option τ}
  {ok' : τ → β → Prop}

/-- A relation that every step from a reached state keeps, when the other machine takes some steps
too or none, relates what a run reaches to what a run of the other machine reaches. -/
theorem Reaches.simulated {s t : σ} {s' : τ} {R : σ → τ → Prop} (h : Reaches step ok s t)
    (base : R s s') (each : ∀ t a u t', Reaches step ok s t → R t t' → ok t a →
      step t a = some u → ∃ u', Reaches step' ok' t' u' ∧ R u u') :
    ∃ t', Reaches step' ok' s' t' ∧ R t t' := by
  induction h with
  | refl => exact ⟨s', .refl, base⟩
  | tail reached may moved ih =>
    obtain ⟨t', run, related⟩ := ih
    obtain ⟨u', more, related'⟩ := each _ _ _ _ reached related may moved
    exact ⟨u', run.trans more, related'⟩

/-- A map that takes every step from a reached state to a step or to none takes runs to runs. -/
theorem Reaches.fragment {s t : σ} (h : Reaches step ok s t) (f : σ → τ)
    (each : ∀ t a u, Reaches step ok s t → ok t a → step t a = some u →
      f u = f t ∨ ∃ b, ok' (f t) b ∧ step' (f t) b = some (f u)) :
    Reaches step' ok' (f s) (f t) := by
  induction h with
  | refl => exact .refl
  | tail reached may moved ih =>
    rcases each _ _ _ reached may moved with same | ⟨b, may', moved'⟩
    · exact same ▸ ih
    · exact ih.tail may' moved'

end Machine
