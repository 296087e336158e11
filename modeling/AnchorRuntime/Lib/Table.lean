import Mathlib

/-!
# Relational tables

A table is a list of rows in which no two rows have the same primary key; the uniqueness
is part of the value. `insert`, `update`, `delete` and `find` are the statements of a
database on it, with the laws that relate them. A key occurs at most once, so `update`
and `delete` by key touch at most one row.
-/

namespace Relational

variable {κ ρ : Type} [DecidableEq κ]

/-- Rows with a primary key. -/
structure Table (key : ρ → κ) where
  rows : List ρ
  unique : (rows.map key).Nodup

variable {key : ρ → κ}

namespace Table

def empty : Table key := ⟨[], List.nodup_nil⟩

/-- `SELECT * WHERE key = k`. -/
def find (t : Table key) (k : κ) : Option ρ := t.rows.find? fun r => key r = k

/-- `INSERT`; none is the violation of the primary key. -/
def insert (t : Table key) (r : ρ) : Option (Table key) :=
  if h : key r ∈ t.rows.map key then none
  else some ⟨t.rows ++ [r], by
    rw [List.map_append, List.nodup_append]
    refine ⟨t.unique, by simp, fun a ha b hb => ?_⟩
    simp only [List.map_cons, List.map_nil, List.mem_singleton] at hb
    exact fun e => h (hb ▸ e ▸ ha)⟩

theorem map_key_update (rows : List ρ) (k : κ) (f : ρ → ρ) (same : ∀ r, key (f r) = key r) :
    (rows.map fun r => if key r = k then f r else r).map key = rows.map key := by
  rw [List.map_map]
  refine List.map_congr_left fun r _ => ?_
  simp only [Function.comp_apply]
  split
  · exact same r
  · rfl

/-- `UPDATE ... WHERE key = k`; the assignment keeps the key. -/
def update (t : Table key) (k : κ) (f : ρ → ρ) (same : ∀ r, key (f r) = key r) : Table key where
  rows := t.rows.map fun r => if key r = k then f r else r
  unique := by rw [map_key_update t.rows k f same]; exact t.unique

/-- `DELETE ... WHERE key = k`. -/
def delete (t : Table key) (k : κ) : Table key where
  rows := t.rows.filter fun r => key r ≠ k
  unique := t.unique.sublist (List.Sublist.map _ List.filter_sublist)

/-! ## Laws -/

theorem find_some_key {t : Table key} {k : κ} {r : ρ} (h : t.find k = some r) : key r = k := by
  simpa using List.find?_some h

theorem find_eq_none {t : Table key} {k : κ} : t.find k = none ↔ k ∉ t.rows.map key := by
  simp [find]

theorem find_mem {t : Table key} {k : κ} {r : ρ} (h : t.find k = some r) : r ∈ t.rows :=
  List.mem_of_find?_eq_some h

theorem find_of_mem {t : Table key} {r : ρ} (h : r ∈ t.rows) : t.find (key r) = some r := by
  cases hf : t.find (key r) with
  | none => exact absurd (List.mem_map_of_mem h) (find_eq_none.mp hf)
  | some r' =>
    have same : r' = r := List.inj_on_of_nodup_map t.unique (find_mem hf) h (find_some_key hf)
    rw [same]

@[simp] theorem find_empty (k : κ) : (empty : Table key).find k = none := rfl

theorem rows_insert {t t' : Table key} {r : ρ} (h : t.insert r = some t') :
    t.find (key r) = none ∧ t'.rows = t.rows ++ [r] := by
  unfold insert at h
  split at h
  · exact absurd h (by simp)
  · next hm =>
    cases h
    exact ⟨find_eq_none.mpr hm, rfl⟩

theorem insert_isSome {t : Table key} {r : ρ} (h : t.find (key r) = none) :
    ∃ t', t.insert r = some t' := by
  unfold insert
  rw [dif_neg (find_eq_none.mp h)]
  exact ⟨_, rfl⟩

theorem insert_taken {t : Table key} {r r' : ρ} (h : t.find (key r) = some r') :
    t.insert r = none := by
  have present : key r ∈ t.rows.map key := find_some_key h ▸ List.mem_map_of_mem (find_mem h)
  exact dif_pos present

theorem find_insert {t t' : Table key} {r : ρ} (h : t.insert r = some t') (k : κ) :
    t'.find k = if k = key r then some r else t.find k := by
  obtain ⟨absent, rows⟩ := rows_insert h
  unfold find at absent ⊢
  rw [rows, List.find?_append]
  by_cases e : k = key r
  · subst e
    rw [absent]
    simp
  · rw [if_neg e, List.find?_singleton]
    simp [Ne.symm e]

theorem find?_map_update (rows : List ρ) (k : κ) (f : ρ → ρ) (same : ∀ r, key (f r) = key r)
    (j : κ) :
    (rows.map fun r => if key r = k then f r else r).find? (fun r => key r = j) =
      if j = k then (rows.find? fun r => key r = j).map f else rows.find? fun r => key r = j := by
  induction rows with
  | nil => simp
  | cons r rows ih =>
    simp only [List.map_cons, List.find?_cons]
    by_cases hr : key r = k
    · by_cases hj : j = k
      · subst hj
        simp [hr, same]
      · have hne : key r ≠ j := fun e => hj (e.symm.trans hr)
        rw [if_neg hj] at ih
        simp [hr, same, hj, Ne.symm hj, ih]
    · simp only [if_neg hr]
      by_cases hj : key r = j
      · have hjk : j ≠ k := fun e => hr (hj.trans e)
        simp [hj, hjk]
      · simp [hj, ih]

theorem find_update (t : Table key) (k : κ) (f : ρ → ρ) (same : ∀ r, key (f r) = key r) (j : κ) :
    (t.update k f same).find j = if j = k then (t.find j).map f else t.find j :=
  find?_map_update t.rows k f same j

@[simp] theorem find_update_self (t : Table key) (k : κ) (f : ρ → ρ)
    (same : ∀ r, key (f r) = key r) : (t.update k f same).find k = (t.find k).map f := by
  rw [find_update, if_pos rfl]

theorem find_update_ne (t : Table key) {j k : κ} (f : ρ → ρ) (same : ∀ r, key (f r) = key r)
    (h : j ≠ k) : (t.update k f same).find j = t.find j := by
  rw [find_update, if_neg h]

/-- No row is touched where there is none. -/
theorem update_absent {t : Table key} {k : κ} (f : ρ → ρ) (same : ∀ r, key (f r) = key r)
    (absent : t.find k = none) : t.update k f same = t := by
  have none_here := find_eq_none.mp absent
  have rows : (t.rows.map fun r => if key r = k then f r else r) = t.rows := by
    refine (List.map_congr_left fun r mem => if_neg fun here => ?_).trans (List.map_id' t.rows)
    exact none_here (here ▸ List.mem_map_of_mem mem)
  unfold update
  cases t
  simp only [mk.injEq]
  exact rows

/-- An update leaves alone what its assignment leaves alone. -/
theorem map_find_update {β : Type} (t : Table key) (k : κ) (f : ρ → ρ)
    (same : ∀ r, key (f r) = key r) (g : ρ → β) (keeps : ∀ r, g (f r) = g r) (j : κ) :
    ((t.update k f same).find j).map g = (t.find j).map g := by
  rw [find_update]
  split
  · rw [Option.map_map]
    congr 1
    funext r
    exact keeps r
  · rfl

theorem find_delete (t : Table key) (k j : κ) :
    (t.delete k).find j = if j = k then none else t.find j := by
  unfold find delete
  rw [List.find?_filter]
  split
  · next h =>
    subst h
    rw [List.find?_eq_none]
    intro r _ hr
    simp at hr
  · next h =>
    congr 1
    funext r
    by_cases hr : key r = j
    · simp [hr, h]
    · simp [hr]

end Table

end Relational
