import Mathlib

/-!
# Association lists

What `List.lookup` finds in a filtered and in a mapped association list, lists of pairs that are
read into a dictionary one after the other, so that the last value of a key stands, and dictionaries
of counts.
-/

namespace Assoc

variable {κ α β : Type*} [BEq κ] [LawfulBEq κ]

/-- A filter on the keys hides the keys it drops and no others. -/
@[simp] theorem lookup_filter (keep : κ → Bool) (l : List (κ × α)) (k : κ) :
    (l.filter fun e => keep e.1).lookup k = if keep k then l.lookup k else none := by
  induction l with
  | nil => simp
  | cons e es ih =>
    obtain ⟨x, v⟩ := e
    rw [List.filter_cons]
    by_cases same : k = x
    · subst same
      by_cases kept : keep k <;> simp [kept, ih]
    · have differ : (k == x) = false := by simpa using same
      by_cases kept : keep x <;> simp [kept, ih, List.lookup_cons, differ]

@[simp] theorem lookup_map (f : α → β) (l : List (κ × α)) (k : κ) :
    (l.map fun e => (e.1, f e.2)).lookup k = (l.lookup k).map f := by
  induction l with
  | nil => rfl
  | cons e es ih =>
    obtain ⟨x, v⟩ := e
    rw [List.map_cons, List.lookup_cons, List.lookup_cons, ih]
    by_cases same : k = x
    · simp [same]
    · have differ : (k == x) = false := by simpa using same
      simp [differ]

theorem mem_keys_iff {l : List (κ × α)} {k : κ} : k ∈ l.map (·.1) ↔ (l.lookup k).isSome = true := by
  simp only [List.lookup_isSome_iff, List.mem_map, beq_iff_eq]
  exact ⟨fun ⟨e, he, same⟩ => ⟨e, he, same.symm⟩, fun ⟨e, he, same⟩ => ⟨e, he, same.symm⟩⟩

/-- Where keys are distinct, an entry is found under its key. -/
theorem find_of_mem {l : List (κ × α)} (nodup : (l.map (·.1)).Nodup) {e : κ × α} (h : e ∈ l) :
    (l.find? fun f => e.1 == f.1) = some e := by
  induction l with
  | nil => cases h
  | cons d ds ih =>
    rw [List.map_cons, List.nodup_cons] at nodup
    rcases List.mem_cons.mp h with rfl | later
    · simp
    · have other : e.1 ≠ d.1 := fun same => nodup.1 (same ▸ List.mem_map_of_mem later)
      rw [List.find?_cons_of_neg (by simpa using other), ih nodup.2 later]

/-- `d[k] = v` -/
def set (d : List (κ × α)) (k : κ) (v : α) : List (κ × α) :=
  if (d.lookup k).isSome then d.map fun e => if e.1 == k then (e.1, v) else e else d ++ [(k, v)]

/-- `dict(pairs)` -/
def ofPairs (pairs : List (κ × α)) : List (κ × α) := pairs.foldl (fun d e => set d e.1 e.2) []

theorem set_fresh {d : List (κ × α)} {k : κ} (fresh : k ∉ d.map (·.1)) (v : α) :
    set d k v = d ++ [(k, v)] := by
  rw [set, if_neg fun there => fresh (mem_keys_iff.mpr there)]

omit [LawfulBEq κ] in
theorem keys_set_subset {d : List (κ × α)} {k : κ} {v : α} {x : κ} (h : x ∈ (set d k v).map (·.1)) :
    x = k ∨ x ∈ d.map (·.1) := by
  rw [set] at h
  split at h
  · obtain ⟨f, hf, rfl⟩ := List.mem_map.mp h
    obtain ⟨e, he, rfl⟩ := List.mem_map.mp hf
    have key : (if e.1 == k then (e.1, v) else e).1 = e.1 := by split <;> rfl
    exact .inr (List.mem_map.mpr ⟨e, he, key.symm⟩)
  · rw [List.map_append, List.mem_append] at h
    exact h.symm.imp_left fun is => by simpa using is

theorem foldl_set (d pairs : List (κ × α)) (nodup : ((d ++ pairs).map (·.1)).Nodup) :
    pairs.foldl (fun d e => set d e.1 e.2) d = d ++ pairs := by
  induction pairs generalizing d with
  | nil => simp
  | cons e es ih =>
    have fresh : e.1 ∉ d.map (·.1) := by
      rw [List.map_append, List.nodup_append] at nodup
      exact fun mem => nodup.2.2 _ mem _ (by simp) rfl
    rw [List.foldl_cons, set_fresh fresh, ih]
    · simp
    · simpa using nodup

/-- Pairs with distinct keys are the dictionary they make. -/
theorem ofPairs_of_nodup {pairs : List (κ × α)} (nodup : (pairs.map (·.1)).Nodup) :
    ofPairs pairs = pairs :=
  foldl_set [] pairs nodup

omit [LawfulBEq κ] in
theorem keys_foldl_subset {d pairs : List (κ × α)} {x : κ}
    (h : x ∈ (pairs.foldl (fun d e => set d e.1 e.2) d).map (·.1)) :
    x ∈ d.map (·.1) ∨ x ∈ pairs.map (·.1) := by
  induction pairs generalizing d with
  | nil => exact .inl h
  | cons e es ih =>
    rcases ih h with there | later
    · rcases keys_set_subset there with rfl | old
      · exact .inr (by simp)
      · exact .inl old
    · exact .inr (List.mem_cons_of_mem _ later)

omit [LawfulBEq κ] in
/-- A dictionary has the keys of the pairs it is made from. -/
theorem keys_ofPairs_subset {pairs : List (κ × α)} {x : κ} (h : x ∈ (ofPairs pairs).map (·.1)) :
    x ∈ pairs.map (·.1) :=
  (keys_foldl_subset h).resolve_left (by simp)

/-! ## Counts -/

/-- Overwriting the value of a key. -/
theorem lookup_overwrite (d : List (κ × α)) (k : κ) (v : α) (x : κ) :
    (d.map fun e => if e.1 == k then (e.1, v) else e).lookup x =
      if x == k then (d.lookup k).map fun _ => v else d.lookup x := by
  induction d with
  | nil => simp
  | cons e es ih =>
    obtain ⟨y, w⟩ := e
    rw [List.map_cons]
    by_cases mine : y = k
    · subst mine
      by_cases same : x = y
      · simp [same]
      · have differ : (x == y) = false := by simpa using same
        simp [List.lookup_cons, differ, ih]
    · have kept : (y == k) = false := by simpa using mine
      by_cases same : x = y
      · simp [kept, same]
      · have differ : (x == y) = false := by simpa using same
        have other : (k == y) = false := by simpa using Ne.symm mine
        simp [kept, List.lookup_cons, differ, other, ih]

theorem lookup_set (d : List (κ × α)) (k : κ) (v : α) (x : κ) :
    (set d k v).lookup x = if x == k then some v else d.lookup x := by
  rw [set]
  split
  · next there =>
    obtain ⟨w, is⟩ := Option.isSome_iff_exists.mp there
    rw [lookup_overwrite, is, Option.map_some]
  · next fresh =>
    have absent : d.lookup k = none := Option.not_isSome_iff_eq_none.mp fresh
    rw [List.lookup_append]
    by_cases same : x = k
    · simp [same, absent]
    · have differ : (x == k) = false := by simpa using same
      simp [List.lookup_cons, differ]

/-- `d[k] = d.get(k, 0) + 1` -/
def bump (d : List (κ × Nat)) (k : κ) : List (κ × Nat) := set d k ((d.lookup k).getD 0 + 1)

theorem lookup_foldl_bump (l : List κ) (d : List (κ × Nat)) (x : κ) :
    ((l.foldl bump d).lookup x).getD 0 = (d.lookup x).getD 0 + l.count x := by
  induction l generalizing d with
  | nil => rfl
  | cons k l ih =>
    rw [List.foldl_cons, ih, bump, lookup_set]
    by_cases same : x = k
    · subst same
      simp
      omega
    · have differ : (k == x) = false := by simpa using Ne.symm same
      simp [same, List.count_cons, differ]

end Assoc
