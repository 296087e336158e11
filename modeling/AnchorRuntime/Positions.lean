import AnchorRuntime.Tasks
import AnchorRuntime.Lifecycle
import AnchorRuntime.Lib.Occurrences

/-!
# Keys by position

A key is the name of a call and the number of calls to the name so far: of all calls of the
attempt, wherever in the call tree they are made. So the keys of an attempt are a function of
the names it has called, in order.

Results: `positioned_reaches`, the keys of the first calls of every attempt are the names of
these calls, numbered by occurrence.
-/

namespace AnchorRuntime

open Effect Machine ShapeLemmas ProcLemmas TaskLemmas Occurrences

/-! ## Names and keys of calls -/

/-- The names a call allocates keys for; none, if it raises before it allocates one. -/
def Call.allocates (cfg : Config) (c : Call) : List String := ((c.names cfg).toOption).getD []

/-- The key of the n-th occurrence of a name, counted from zero. -/
def keyOf (occurrence : String × Nat) : String :=
  RunContext.stepKey occurrence.1 (occurrence.2 + 1)

/-- The names of each call of the attempt. -/
def Proc.named (cfg : Config) (proc : Proc) : List (List String) :=
  proc.calls.map fun rec => rec.call.allocates cfg

/-- The keys of each call of the attempt. -/
def Proc.keyed (proc : Proc) : List (List String) :=
  proc.calls.map fun rec => rec.tasks.map (·.key)

/-- The keys of an attempt are its names, numbered by occurrence, and its counters say how often
each name has occurred. -/
structure Proc.Positioned (cfg : Config) (proc : Proc) : Prop where
  ordinals : ∀ ctx, proc.loc.ctx = some ctx → ∀ name,
    ctx.ordinals name = (proc.named cfg).flatten.count name
  keys : ∀ c, (proc.keyed.take c).flatten =
    (ranked [] ((proc.named cfg).take c).flatten).map keyOf

namespace PositionLemmas

variable {cfg : Config} {proc : Proc} {c b : Nat} {rec : CallRecord} {t : Task}

theorem keyOf_inj {x y : String × Nat} (h : keyOf x = keyOf y) : x = y := by
  obtain ⟨names, numbers⟩ := RunContext.stepKey_inj h
  exact Prod.ext names (Nat.succ_injective numbers)

/-- The keys of one call: its names, numbered from where the counters stand. -/
theorem nextKeys_ranked {ctx : RunContext} {before : List String}
    (counts : ∀ name, ctx.ordinals name = before.count name) (names : List String) :
    (ctx.nextKeys names).1 = (ranked before names).map keyOf := by
  induction names generalizing ctx before with
  | nil => rfl
  | cons name names ih =>
    have counted : ∀ other, (ctx.nextKey name).2.ordinals other =
        (before ++ [name]).count other := by
      intro other
      rw [RunContext.nextKey_ordinals, counts, List.count_append, List.count_singleton]
      simp only [beq_iff_eq]
    rw [RunContext.nextKeys_cons, ranked, List.map_cons, ih counted]
    show RunContext.stepKey name (ctx.ordinals name + 1) :: _ = _
    rw [counts]
    rfl

theorem init_ordinals (run : RunRecord) (events : List Event) (name : String) :
    (RunContext.init run events).ordinals name = 0 :=
  congrFun (LifecycleLemmas.replay_same (·.ordinals) (fun _ _ _ => rfl) _ events) name

/-- The keys and names do not change as a task makes progress. -/
theorem keyed_setTask (cfg : Config) {new : Task} (at_ : proc.At c b rec t)
    (same : new.key = t.key) :
    (proc.setTask c b new).keyed = proc.keyed ∧
      (proc.setTask c b new).named cfg = proc.named cfg :=
  ⟨map_setTask at_ (tasks_set at_ same), map_setTask at_ rfl⟩

theorem positioned_concat {rec₀ : CallRecord} (loc : Local) (h : proc.Positioned cfg)
    (ordinals : ∀ ctx, loc.ctx = some ctx → ∀ name, ctx.ordinals name =
      ((proc.named cfg).flatten ++ rec₀.call.allocates cfg).count name)
    (keys : rec₀.tasks.map (·.key) =
      (ranked (proc.named cfg).flatten (rec₀.call.allocates cfg)).map keyOf) :
    Proc.Positioned cfg { proc with loc, calls := proc.calls ++ [rec₀] } := by
  have named : Proc.named cfg { proc with loc, calls := proc.calls ++ [rec₀] } =
      proc.named cfg ++ [rec₀.call.allocates cfg] := List.map_append
  have keyed : Proc.keyed { proc with loc, calls := proc.calls ++ [rec₀] } =
      proc.keyed ++ [rec₀.tasks.map (·.key)] := List.map_append
  refine ⟨fun ctx hctx name => ?_, fun c => ?_⟩
  · rw [named, List.flatten_concat]
    exact ordinals ctx hctx name
  · have length : proc.keyed.length = (proc.named cfg).length := by
      rw [Proc.keyed, Proc.named, List.length_map, List.length_map]
    rw [named, keyed]
    rcases Nat.lt_or_ge proc.keyed.length c with more | less
    · rw [List.take_of_length_le (by simpa using more),
        List.take_of_length_le (by simpa using length ▸ more), List.flatten_concat,
        List.flatten_concat, ranked_append, List.map_append, keys]
      have all := h.keys proc.keyed.length
      rw [List.take_length, length, List.take_length] at all
      rw [all]
      rfl
    · rw [List.take_append_of_le_length less, List.take_append_of_le_length (length ▸ less)]
      exact h.keys c

theorem positioned_kept : Kept cfg fun proc => proc.Shaped cfg ∧ proc.Positioned cfg where
  claimed := by
    intro worker runId
    refine ⟨shaped_kept.claimed worker runId, ?_, fun c => by cases c <;> rfl⟩
    intro ctx hctx
    cases hctx
  executed := by
    intro runId
    refine ⟨shaped_kept.executed runId, ?_, fun c => by cases c <;> rfl⟩
    intro ctx hctx
    cases hctx
  beat := fun proc beat h => ⟨shaped_kept.beat proc beat h.1, h.2.ordinals, h.2.keys⟩
  main := by
    intro proc o k r now st st' loc ans h hmain run
    refine ⟨shaped_kept.main _ _ _ _ _ _ _ _ _ h.1 hmain run, ?_, h.2.keys⟩
    intro ctx hctx name
    obtain ⟨-, -, remembered⟩ := exec_ctx run
    rw [hctx] at remembered
    generalize hold : proc.loc.ctx = old at remembered
    cases remembered with
    | same memory =>
      rw [memory.ordinals]
      exact h.2.ordinals _ hold name
    | build =>
      have may := h.1.main
      rw [hmain, obeys_step] at may
      have none := h.1.uncalled (h.1.early (newContext_early may.1))
      rw [init_ordinals, Proc.named, none]
      rfl
    | record => exact h.2.ordinals _ hold name
  task := by
    intro proc c b rec t o k r now st st' loc ans h at_ hprog run
    refine ⟨shaped_kept.task _ _ _ _ _ _ _ _ _ _ _ _ _ h.1 at_ hprog run, ?_⟩
    have at_loc : Proc.At { proc with loc } c b rec t := at_
    obtain ⟨keyed, named⟩ := keyed_setTask cfg at_loc (show (⟨t.key, t.path,
      (rec.call.setup cfg proc.loc.runId proc.loc.guarded t.key).next t.stage o r,
      k r⟩ : Task).key = t.key from rfl)
    refine ⟨fun ctx hctx name => ?_, fun c' => ?_⟩
    · rw [named]
      obtain ⟨-, -, remembered⟩ := exec_ctx run
      rcases remembered_same remembered (allowed_ne_newContext (task_allowed h.1 at_ hprog)) with
        ⟨-, none⟩ | ⟨before, after, hbefore, hafter, -, -, ordinals⟩
      · cases none.symm.trans hctx
      · obtain rfl := Option.some.inj (hafter.symm.trans hctx)
        rw [ordinals]
        exact h.2.ordinals before hbefore name
    · rw [keyed, named]
      exact h.2.keys c'
  refused := by
    intro proc path role c exc ctx h caller hctx hnames
    refine ⟨shaped_kept.refused _ _ _ _ _ _ h.1 caller hctx hnames, ?_⟩
    have none : Call.allocates cfg c = [] := by
      rw [Call.allocates, hnames]
      rfl
    refine positioned_concat proc.loc h.2 (fun ctx hctx name => ?_) ?_
    · rw [none, List.append_nil]
      exact h.2.ordinals ctx hctx name
    · rw [none]
      rfl
  call := by
    intro proc path role c names ctx h caller hctx hnames
    refine ⟨shaped_kept.call _ _ _ _ _ _ h.1 caller hctx hnames, ?_⟩
    have some_ : Call.allocates cfg c = names := by
      rw [Call.allocates, hnames]
      rfl
    refine positioned_concat _ h.2 (fun ctx' hctx' name => ?_) ?_
    · cases hctx'
      rw [RunContext.nextKeys_ordinals, h.2.ordinals ctx hctx, some_, List.count_append]
    · rw [newTasks_keys, some_]
      exact nextKeys_ranked (h.2.ordinals ctx hctx) names
  stop := fun proc h => ⟨shaped_kept.stop proc h.1, h.2.ordinals, h.2.keys⟩

end PositionLemmas

open PositionLemmas

theorem positioned_reaches {now : Int} {ok : World → Action → Prop} {cfg : Config} {w : World}
    (h : Reaches (World.step cfg) ok (.init now) w) {p : Nat} {proc : Proc}
    (hp : w.procs[p]? = some proc) : proc.Positioned cfg :=
  (positioned_kept.reaches h p proc hp).2

end AnchorRuntime
