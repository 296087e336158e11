import AnchorRuntime.Shape
import AnchorRuntime.Lib.Numeral

/-!
# Keys and tokens

A step is told from the others of its run by its key, and from those of all runs by its token, the
`uuid5` of the run and the key. Names are arbitrary, and keys and run ids are put together with `#`
and `:`.

Results: `keys_and_tokens_distinct`, the calls of an attempt allocate every key once, and two steps
have one token only if `uuid5` takes two of the strings it hashes to one; `attempt_keys_distinct`,
the same of the attempts of the system, whatever runs between their calls.
-/

namespace AnchorRuntime

open Machine RunContext

/-! ## Run ids -/

/-- The digits of a uuid. -/
def Uuid.hex (u : Uuid) : List Char := Numeral.padded 16 32 u.int

namespace IdentifierLemmas

theorem hex_inj {u v : Uuid} (same : u.hex = v.hex) : u = v := by
  have ints : u.int = v.int := Fin.ext (Numeral.padded_inj (by decide) (by decide) same)
  cases u
  cases v
  exact congrArg Uuid.mk ints

theorem hex_digit {u : Uuid} {c : Char} (mem : c ∈ u.hex) : c ≠ '-' ∧ c ≠ ':' := by
  obtain ⟨d, small, rfl⟩ := Numeral.mem_padded (by decide) mem
  interval_cases d <;> decide

theorem str_toList (u : Uuid) : u.str.toList = u.hex.take 8 ++ '-' :: (u.hex.drop 8).take 4 ++
    '-' :: (u.hex.drop 12).take 4 ++ '-' :: (u.hex.drop 16).take 4 ++ '-' :: u.hex.drop 20 := by
  unfold Uuid.str
  exact String.toList_ofList

/-- The groups of the digits, one after another. -/
theorem groups (l : List Char) :
    l.take 8 ++ ((l.drop 8).take 4 ++ ((l.drop 12).take 4 ++ ((l.drop 16).take 4 ++ l.drop 20))) =
      l := by
  have cut : ∀ n k, (l.drop n).take k ++ l.drop (n + k) = l.drop n := by
    intro n k
    rw [← List.drop_drop]
    exact List.take_append_drop k (l.drop n)
  rw [cut 16 4, cut 12 4, cut 8 4]
  exact List.take_append_drop 8 l

/-- Without its hyphens the text of a uuid is its digits. -/
theorem str_digits (u : Uuid) : u.str.toList.filter (· ≠ '-') = u.hex := by
  have digits : ∀ {l : List Char}, (∀ c ∈ l, c ∈ u.hex) → l.filter (· ≠ '-') = l := by
    intro l sub
    refine List.filter_eq_self.mpr fun c mem => ?_
    exact decide_eq_true (hex_digit (sub c mem)).1
  have part : ∀ n k, ((u.hex.drop n).take k).filter (· ≠ '-') = (u.hex.drop n).take k :=
    fun n k => digits fun c mem => List.mem_of_mem_drop (List.mem_of_mem_take mem)
  have hyphen : ∀ l : List Char, ('-' :: l).filter (· ≠ '-') = l.filter (· ≠ '-') := fun l => rfl
  have first : (u.hex.take 8).filter (· ≠ '-') = u.hex.take 8 :=
    digits fun c mem => List.mem_of_mem_take mem
  have last : (u.hex.drop 20).filter (· ≠ '-') = u.hex.drop 20 :=
    digits fun c mem => List.mem_of_mem_drop mem
  rw [str_toList]
  simp only [List.filter_append, hyphen, first, part, last, List.append_assoc]
  exact groups u.hex

/-- The text of a uuid determines it. -/
theorem str_inj {u v : Uuid} (same : u.str = v.str) : u = v := by
  refine hex_inj ?_
  rw [← str_digits u, same, str_digits v]

theorem colon_notMem (u : Uuid) : ':' ∉ u.str.toList := by
  intro mem
  have digit : ':' ∈ u.str.toList.filter (· ≠ '-') :=
    List.mem_filter.mpr ⟨mem, by decide⟩
  rw [str_digits] at digit
  exact (hex_digit digit).2 rfl

end IdentifierLemmas

/-! ## Tokens -/

/-- The name that `step_token` hashes. -/
def tokenName (runId : Uuid) (stepKey : String) : String := s!"{runId.str}:{stepKey}"

namespace IdentifierLemmas

/-- The run is what stands before the first colon. -/
theorem tokenName_inj {r s : Uuid} {key other : String}
    (same : tokenName r key = tokenName s other) : r = s ∧ key = other := by
  have text : ∀ (u : Uuid) (k : String),
      (tokenName u k).toList = u.str.toList ++ ':' :: k.toList := by
    intro u k
    show (((u.str ++ ":") ++ k) : String).toList = _
    simp
  have lists := congrArg String.toList same
  rw [text, text] at lists
  obtain ⟨runs, keys⟩ := split_at_first (colon_notMem r) (colon_notMem s) lists
  exact ⟨str_inj (String.toList_inj.mp runs), String.toList_inj.mp keys⟩

end IdentifierLemmas

/-! ## Sequences of calls -/

/-- The keys that an attempt allocates for one call after another. -/
def allocate (cfg : Config) : RunContext → List Call → List String
  | _, [] => []
  | ctx, c :: calls =>
    match c.names cfg with
    | .error _ => allocate cfg ctx calls
    | .ok names => (ctx.nextKeys names).1 ++ allocate cfg (ctx.nextKeys names).2 calls

namespace IdentifierLemmas

variable {cfg : Config}

/-- Later keys are new. -/
theorem allocate_fresh {ctx : RunContext} {calls : List Call} {key : String}
    (mem : key ∈ allocate cfg ctx calls) : ¬ ctx.Allocated key := by
  induction calls generalizing ctx with
  | nil => cases mem
  | cons c calls ih =>
    unfold allocate at mem
    split at mem
    · exact ih mem
    · next names _ =>
      rcases List.mem_append.mp mem with now | later
      · exact nextKeys_fresh ctx names now
      · refine fun old => ih later (allocated_mono (fun name => ?_) old)
        rw [nextKeys_ordinals]
        exact Nat.le_add_right _ _

theorem allocate_nodup (ctx : RunContext) (calls : List Call) :
    (allocate cfg ctx calls).Nodup := by
  induction calls generalizing ctx with
  | nil => exact List.nodup_nil
  | cons c calls ih =>
    unfold allocate
    split
    · exact ih ctx
    · next names _ =>
      refine List.nodup_append.mpr ⟨nextKeys_nodup ctx names, ih _, fun a now b later same => ?_⟩
      subst same
      exact allocate_fresh later (nextKeys_allocated ctx names now)

end IdentifierLemmas

open IdentifierLemmas

/-- Step keys and tokens never collide. -/
theorem keys_and_tokens_distinct (cfg : Config) :
    (∀ (ctx : RunContext) (calls : List Call), (allocate cfg ctx calls).Nodup) ∧
    ∀ hashed : Set String, Set.InjOn (cfg.uuid5 TOKEN_NAMESPACE) hashed →
      ∀ (r s : Uuid) (key other : String), tokenName r key ∈ hashed → tokenName s other ∈ hashed →
        (r, key) ≠ (s, other) → stepToken cfg r key ≠ stepToken cfg s other := by
  refine ⟨allocate_nodup, fun hashed inj r s key other mem mem' apart same => apart ?_⟩
  obtain ⟨rfl, rfl⟩ := tokenName_inj (inj mem mem' same)
  rfl

/-- The first two keys of one name. -/
theorem keys_and_tokens_distinct_twice :
    stepToken Sample.cfg Sample.runId "x#1" ≠ stepToken Sample.cfg Sample.runId "x#2" := by
  have inj : Set.InjOn (Sample.cfg.uuid5 TOKEN_NAMESPACE)
      {tokenName Sample.runId "x#1", tokenName Sample.runId "x#2"} := by
    rw [Set.injOn_pair]
    intro same
    revert same
    decide +kernel
  exact (keys_and_tokens_distinct Sample.cfg).2 _ inj _ _ _ _ (.inl rfl) (.inr rfl) (by decide)

/-- The same of the attempts of the system, whose calls other actions separate. -/
theorem attempt_keys_distinct {cfg : Config} {now : Int} {ok : World → Action → Prop} {w : World}
    (h : Reaches (World.step cfg) ok (.init now) w) {p : Nat} {proc : Proc}
    (hp : w.procs[p]? = some proc) : proc.keys.Nodup :=
  (shaped_reaches h hp).nodup

end AnchorRuntime
