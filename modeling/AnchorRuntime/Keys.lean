import AnchorRuntime.Context

/-!
# Step keys

The key of the n-th call to a name is `name#n`. Names are arbitrary strings and may contain
`#` and digits themselves.

Results: `stepKey_inj`, a key determines its name and its number; `nextKeys_spec`, the keys
of one call; `nextKeys_nodup` and `nextKeys_fresh`, no key is allocated twice in one attempt.
-/

namespace AnchorRuntime

namespace RunContext

/-! ## One key -/

theorem stepKey_toList (name : String) (n : Nat) :
    (stepKey name n).toList = name.toList ++ '#' :: Nat.toDigits 10 n := by
  show (((name ++ "#") ++ n.repr) : String).toList = _
  simp

theorem hash_notMem_toDigits (n : Nat) : '#' ∉ Nat.toDigits 10 n := by
  intro mem
  have digit := Nat.isDigit_of_mem_toDigits (by omega) (by omega) mem
  exact absurd digit (by decide)

theorem split_at_first {c : Char} {x y u v : List Char} (hx : c ∉ x) (hy : c ∉ y)
    (h : x ++ c :: u = y ++ c :: v) : x = y ∧ u = v := by
  induction x generalizing y with
  | nil =>
    cases y with
    | nil => exact ⟨rfl, (List.cons.inj h).2⟩
    | cons d y => exact absurd (List.cons.inj h).1 fun e => hy (e ▸ List.mem_cons_self)
  | cons d x ih =>
    cases y with
    | nil => exact absurd (List.cons.inj h).1.symm fun e => hx (e ▸ List.mem_cons_self)
    | cons e y =>
      obtain ⟨rfl, rest⟩ := List.cons.inj h
      obtain ⟨rfl, rfl⟩ := ih (fun m => hx (List.mem_cons_of_mem _ m))
        (fun m => hy (List.mem_cons_of_mem _ m)) rest
      exact ⟨rfl, rfl⟩

/-- A key determines its name and its number: the number is what follows the last `#`. -/
theorem stepKey_inj {a b : String} {m n : Nat} (h : stepKey a m = stepKey b n) :
    a = b ∧ m = n := by
  have lists := congrArg (fun s => s.toList.reverse) h
  simp only [stepKey_toList, List.reverse_append, List.reverse_cons, List.append_assoc,
    List.singleton_append] at lists
  obtain ⟨digits, names⟩ := split_at_first (by simpa using hash_notMem_toDigits m)
    (by simpa using hash_notMem_toDigits n) lists
  refine ⟨String.toList_inj.mp (List.reverse_injective names), Nat.repr_inj.mp ?_⟩
  rw [← String.toList_inj, Nat.toList_repr, Nat.toList_repr]
  exact List.reverse_injective digits

/-! ## The keys of one call -/

/-- A key the attempt has allocated. -/
def Allocated (ctx : RunContext) (key : String) : Prop :=
  ∃ name n, key = stepKey name n ∧ n ≤ ctx.ordinals name

@[simp] theorem nextKeys_nil (ctx : RunContext) : ctx.nextKeys [] = ([], ctx) := rfl

theorem nextKeys_cons (ctx : RunContext) (name : String) (names : List String) :
    ctx.nextKeys (name :: names) =
      ((ctx.nextKey name).1 :: ((ctx.nextKey name).2.nextKeys names).1,
        ((ctx.nextKey name).2.nextKeys names).2) := rfl

theorem nextKey_ordinals (ctx : RunContext) (name other : String) :
    (ctx.nextKey name).2.ordinals other = ctx.ordinals other + if name = other then 1 else 0 := by
  simp only [nextKey, Function.update_apply]
  by_cases h : other = name
  · simp [h]
  · simp [h, Ne.symm h]

/-- Allocation moves the counters and nothing else. -/
theorem nextKeys_same (ctx : RunContext) (names : List String) :
    (ctx.nextKeys names).2 = { ctx with ordinals := (ctx.nextKeys names).2.ordinals } := by
  induction names generalizing ctx with
  | nil => rfl
  | cons name names ih => exact ih (ctx.nextKey name).2

theorem nextKeys_ordinals (ctx : RunContext) (names : List String) (name : String) :
    (ctx.nextKeys names).2.ordinals name = ctx.ordinals name + names.count name := by
  induction names generalizing ctx with
  | nil => rfl
  | cons first names ih =>
    rw [nextKeys_cons, ih, nextKey_ordinals, List.count_cons]
    by_cases h : first = name
    · simp [h]
      omega
    · simp [h]

@[simp] theorem nextKeys_length (ctx : RunContext) (names : List String) :
    (ctx.nextKeys names).1.length = names.length := by
  induction names generalizing ctx with
  | nil => rfl
  | cons first names ih => rw [nextKeys_cons, List.length_cons, ih, List.length_cons]

/-- The key of branch `i` is numbered by the calls to its name so far, the earlier branches
of the same call included. -/
theorem nextKeys_get (ctx : RunContext) (names : List String) {i : Nat} {name : String}
    (h : names[i]? = some name) :
    (ctx.nextKeys names).1[i]? =
      some (stepKey name (ctx.ordinals name + (names.take i).count name + 1)) := by
  induction names generalizing ctx i with
  | nil => exact absurd h (by simp)
  | cons first names ih =>
    rw [nextKeys_cons]
    cases i with
    | zero =>
      obtain rfl : first = name := by simpa using h
      simp [nextKey]
    | succ i =>
      rw [List.getElem?_cons_succ] at h ⊢
      rw [ih _ h, nextKey_ordinals, List.take_succ_cons, List.count_cons]
      congr 2
      by_cases same : first = name
      · simp [same]
        omega
      · simp [same]

theorem nextKeys_mem (ctx : RunContext) (names : List String) {key : String}
    (h : key ∈ (ctx.nextKeys names).1) :
    ∃ name n, key = stepKey name n ∧ ctx.ordinals name < n ∧
      n ≤ (ctx.nextKeys names).2.ordinals name := by
  obtain ⟨i, hi⟩ := List.mem_iff_getElem?.mp h
  have bound : i < names.length := by
    rw [← nextKeys_length ctx names]
    exact (List.getElem?_eq_some_iff.mp hi).1
  have name := List.getElem?_eq_getElem bound
  rw [nextKeys_get ctx names name, Option.some.injEq] at hi
  refine ⟨_, _, hi.symm, by omega, ?_⟩
  rw [nextKeys_ordinals]
  have one_more : (names.take (i + 1)).count names[i] = (names.take i).count names[i] + 1 := by
    rw [List.take_add_one, name, List.count_append]
    simp
  have := (List.take_sublist (i + 1) names).count_le names[i]
  omega

/-- A new key is not one the attempt already has. -/
theorem nextKeys_fresh (ctx : RunContext) (names : List String) {key : String}
    (h : key ∈ (ctx.nextKeys names).1) : ¬ ctx.Allocated key := by
  obtain ⟨name, n, rfl, new, -⟩ := nextKeys_mem ctx names h
  rintro ⟨name', n', same, old⟩
  obtain ⟨rfl, rfl⟩ := stepKey_inj same
  omega

theorem nextKeys_allocated (ctx : RunContext) (names : List String) {key : String}
    (h : key ∈ (ctx.nextKeys names).1) : (ctx.nextKeys names).2.Allocated key := by
  obtain ⟨name, n, same, -, bound⟩ := nextKeys_mem ctx names h
  exact ⟨name, n, same, bound⟩

theorem allocated_mono {a b : RunContext} (h : ∀ name, a.ordinals name ≤ b.ordinals name)
    {key : String} (old : a.Allocated key) : b.Allocated key := by
  obtain ⟨name, n, same, bound⟩ := old
  exact ⟨name, n, same, bound.trans (h name)⟩

/-- The keys of one call are distinct. -/
theorem nextKeys_nodup (ctx : RunContext) (names : List String) :
    (ctx.nextKeys names).1.Nodup := by
  induction names generalizing ctx with
  | nil => exact List.nodup_nil
  | cons name names ih =>
    rw [nextKeys_cons]
    refine List.nodup_cons.mpr ⟨fun mem => nextKeys_fresh _ _ mem ?_, ih _⟩
    exact ⟨name, ctx.ordinals name + 1, rfl, by simp [nextKey_ordinals]⟩

end RunContext

end AnchorRuntime
