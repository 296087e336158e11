import Mathlib

/-!
# Gathered results

The results of a list of entries, read off one by one: `mapM` in `Option` gathers them when all
are there, and `filterMap` those that are.

Results: `mapM_iff`, what it is to have gathered them all; `mapM_get` and `mapM_of_get`, place by
place; `mapM_agree`, lists that agree have the same results; `filterMap_of_mapM` and
`filterMap_get`, where the results stand that are there.
-/

namespace Gathered

variable {α β : Type} {f : α → Option β} {as : List α} {bs : List β}

theorem mapM_iff : as.mapM f = some bs ↔ as.map f = bs.map some := by
  induction as generalizing bs with
  | nil => cases bs <;> simp
  | cons a as ih =>
    rw [List.mapM_cons, List.map_cons]
    constructor
    · intro h
      obtain ⟨b, first, rest⟩ := Option.bind_eq_some_iff.mp h
      obtain ⟨bs', others, same⟩ := Option.bind_eq_some_iff.mp rest
      cases same
      rw [List.map_cons, first, ih.mp others]
    · intro h
      cases bs with
      | nil => cases h
      | cons b bs =>
        obtain ⟨first, rest⟩ := List.cons.inj h
        rw [first, ih.mpr rest]
        rfl

theorem mapM_get (h : as.mapM f = some bs) : bs.length = as.length ∧
    ∀ (i : Nat) (a : α), as[i]? = some a → ∃ b, bs[i]? = some b ∧ f a = some b := by
  have mapped := mapM_iff.mp h
  refine ⟨by simpa using (congrArg List.length mapped).symm, fun i a at_ => ?_⟩
  have here := congrArg (·[i]?) mapped
  simp only [List.getElem?_map, at_, Option.map_some] at here
  obtain ⟨b, hb, is⟩ := Option.map_eq_some_iff.mp here.symm
  exact ⟨b, hb, is.symm⟩

theorem mapM_of_get (length : bs.length = as.length)
    (each : ∀ (i : Nat) (a : α) (b : β), as[i]? = some a → bs[i]? = some b → f a = some b) :
    as.mapM f = some bs := by
  refine mapM_iff.mpr (List.ext_getElem (by simp [length]) fun i bound bound' => ?_)
  rw [List.length_map] at bound bound'
  rw [List.getElem_map, List.getElem_map]
  exact each i _ _ (List.getElem?_eq_getElem bound) (List.getElem?_eq_getElem bound')

/-- Lists that agree have the same results. -/
theorem mapM_agree {as' : List α} {bs' : List β} (length : as.length = as'.length)
    (agree : ∀ (i : Nat) (a a' : α), as[i]? = some a → as'[i]? = some a' → ∀ b b',
      f a = some b → f a' = some b' → b = b')
    (h : as.mapM f = some bs) (h' : as'.mapM f = some bs') : bs = bs' := by
  obtain ⟨lb, each⟩ := mapM_get h
  obtain ⟨lb', each'⟩ := mapM_get h'
  refine List.ext_getElem (by rw [lb, lb', length]) fun i bound bound' => ?_
  have ha := List.getElem?_eq_getElem (lb ▸ bound)
  have ha' := List.getElem?_eq_getElem (lb' ▸ bound')
  obtain ⟨b, hb, is⟩ := each i _ ha
  obtain ⟨b', hb', is'⟩ := each' i _ ha'
  obtain ⟨_, rfl⟩ := List.getElem?_eq_some_iff.mp hb
  obtain ⟨_, rfl⟩ := List.getElem?_eq_some_iff.mp hb'
  exact agree i _ _ ha ha' _ _ is is'

theorem filterMap_of_mapM (h : as.mapM f = some bs) : as.filterMap f = bs := by
  calc as.filterMap f
      = (as.map f).filterMap id := by rw [List.filterMap_map, Function.id_comp]
    _ = (bs.map some).filterMap id := by rw [mapM_iff.mp h]
    _ = bs.filterMap some := List.filterMap_map
    _ = bs := List.filterMap_some

/-- Where all but the last entry have a result, the results stand where the entries do. -/
theorem filterMap_get (before : as.Pairwise fun a _ => (f a).isSome = true) {i : Nat} {b : β}
    (h : (as.filterMap f)[i]? = some b) : ∃ a, as[i]? = some a ∧ f a = some b := by
  induction before generalizing i with
  | nil => cases h
  | @cons a as each _ ih =>
    rw [List.filterMap_cons] at h
    split at h
    · next none =>
      cases as with
      | nil => cases h
      | cons a' as =>
        have some_ := each a' List.mem_cons_self
        rw [none] at some_
        cases some_
    · next b' is =>
      cases i with
      | zero =>
        cases h
        exact ⟨a, rfl, is⟩
      | succ i => exact ih h

/-- One more result is paired with the next entry. -/
theorem zip_concat {a : α} (b : β) (next : as[bs.length]? = some a) :
    as.zip (bs ++ [b]) = as.zip bs ++ [(a, b)] := by
  induction bs generalizing as with
  | nil =>
    cases as with
    | nil => cases next
    | cons a' as =>
      obtain rfl := Option.some.inj next
      simp
  | cons b' bs ih =>
    cases as with
    | nil => cases next
    | cons a' as => exact congrArg ((a', b') :: ·) (ih next)

end Gathered
