import AnchorRuntime.Consistency
import AnchorRuntime.Positions

/-!
# Keys of nested calls

Bodies and branches may call the context too. The counters of an attempt are shared by all
callers, so the key of a call depends on every call to the name that came before it in the
attempt, and a replayed step runs no body, so the calls in there do not come at all.

Results: `keys_line_up`, a logical call has one key in all attempts of a run, and a key one
logical call, exactly when the calls to each name come in the same order in every attempt;
`keys_cross`, where they do not a call is told what was recorded for another.
-/

namespace AnchorRuntime

open Effect Machine PositionLemmas Occurrences

/-! ## Logical calls -/

/-- The steps of an attempt, in the order in which their keys were allocated. -/
def Proc.tasks (proc : Proc) : List Task := proc.calls.flatMap (·.tasks)

/-- The logical calls the attempt has made, in order: one for each key, by the name it is made
under and its place in the call tree. -/
def Proc.visits (cfg : Config) (proc : Proc) : List (String × List Place) :=
  (proc.named cfg).flatten.zip (proc.tasks.map (·.path))

/-- The attempts of a run. -/
def World.attemptsOf (w : World) (j : Uuid) : List Proc := w.procs.filter (·.loc.runId = j)

/-- A logical call has one key in all attempts of the run, and no other call has it. -/
def World.KeysLineUp (w : World) (j : Uuid) : Prop :=
  ∀ proc ∈ w.attemptsOf j, ∀ other ∈ w.attemptsOf j, ∀ t ∈ proc.tasks, ∀ t' ∈ other.tasks,
    t.path = t'.path ↔ t.key = t'.key

/-- No attempt makes a logical call twice, and all attempts make it under one name. -/
structure World.CallsFixed (cfg : Config) (w : World) (j : Uuid) : Prop where
  once : ∀ proc ∈ w.attemptsOf j, (proc.tasks.map (·.path)).Nodup
  name : ∀ proc ∈ w.attemptsOf j, ∀ other ∈ w.attemptsOf j, ∀ v ∈ proc.visits cfg,
    ∀ v' ∈ other.visits cfg, v.2 = v'.2 → v.1 = v'.1

/-- Of the calls to a name that two attempts have made, the one has made the first ones of the
other's, in the same order. -/
structure World.CallsInOrder (cfg : Config) (w : World) (j : Uuid) : Prop
    extends w.CallsFixed cfg j where
  order : ∀ proc ∈ w.attemptsOf j, ∀ other ∈ w.attemptsOf j, ∀ name ∈ (proc.named cfg).flatten,
    entriesOf name (proc.visits cfg) <+: entriesOf name (other.visits cfg) ∨
      entriesOf name (other.visits cfg) <+: entriesOf name (proc.visits cfg)

instance (w : World) (j : Uuid) : Decidable (w.KeysLineUp j) :=
  inferInstanceAs (Decidable (∀ proc ∈ w.attemptsOf j, ∀ other ∈ w.attemptsOf j,
    ∀ t ∈ proc.tasks, ∀ t' ∈ other.tasks, t.path = t'.path ↔ t.key = t'.key))

instance (cfg : Config) (w : World) (j : Uuid) : Decidable (w.CallsFixed cfg j) :=
  decidable_of_iff
    ((∀ proc ∈ w.attemptsOf j, (proc.tasks.map (·.path)).Nodup) ∧
      ∀ proc ∈ w.attemptsOf j, ∀ other ∈ w.attemptsOf j, ∀ v ∈ proc.visits cfg,
        ∀ v' ∈ other.visits cfg, v.2 = v'.2 → v.1 = v'.1)
    ⟨fun h => ⟨h.1, h.2⟩, fun h => ⟨h.once, h.name⟩⟩

instance (cfg : Config) (w : World) (j : Uuid) : Decidable (w.CallsInOrder cfg j) :=
  decidable_of_iff
    (w.CallsFixed cfg j ∧ ∀ proc ∈ w.attemptsOf j, ∀ other ∈ w.attemptsOf j,
      ∀ name ∈ (proc.named cfg).flatten,
        entriesOf name (proc.visits cfg) <+: entriesOf name (other.visits cfg) ∨
          entriesOf name (other.visits cfg) <+: entriesOf name (proc.visits cfg))
    ⟨fun h => ⟨h.1, h.2⟩, fun h => ⟨h.toCallsFixed, h.order⟩⟩

namespace AlignmentLemmas

variable {cfg : Config} {proc other : Proc} {t t' : Task} {name : String} {n : Nat}
  {path : List Place}

theorem keys_tasks (proc : Proc) : proc.tasks.map (·.key) = proc.keys := by
  rw [Proc.tasks, Proc.keys, List.map_flatMap]

/-- An attempt has a name for each of its steps. -/
theorem named_length (positioned : proc.Positioned cfg) :
    proc.tasks.map (·.key) = (ranked [] (proc.named cfg).flatten).map keyOf ∧
      (proc.named cfg).flatten.length = (proc.tasks.map (·.path)).length := by
  have keys : proc.tasks.map (·.key) = (ranked [] (proc.named cfg).flatten).map keyOf := by
    have all := positioned.keys proc.calls.length
    rw [List.take_of_length_le (by rw [Proc.keyed, List.length_map]),
      List.take_of_length_le (by rw [Proc.named, List.length_map])] at all
    exact (keys_tasks proc).trans all
  refine ⟨keys, ?_⟩
  have same := congrArg List.length keys
  rw [List.length_map, List.length_map, ranked_length] at same
  rw [List.length_map, same]

/-- The steps of an attempt are its logical calls, numbered. -/
theorem tasks_numbered (positioned : proc.Positioned cfg) :
    proc.tasks.map (fun t => (t.key, t.path)) =
      (numbered (proc.visits cfg)).map fun entry => (keyOf entry.1, entry.2) := by
  obtain ⟨keys, length⟩ := named_length positioned
  rw [numbered, Proc.visits, List.map_fst_zip length.le, List.map_snd_zip length.ge,
    ← List.zip_map', keys, List.zip_map_left]
  rfl

/-- Every step is a logical call, numbered among those under its name. -/
theorem task_entry (positioned : proc.Positioned cfg) (ht : t ∈ proc.tasks) :
    ∃ name n, t.key = keyOf (name, n) ∧
      (entriesOf name (proc.visits cfg))[n]? = some t.path := by
  have mem : (t.key, t.path) ∈ proc.tasks.map fun t => (t.key, t.path) :=
    List.mem_map.mpr ⟨t, ht, rfl⟩
  rw [tasks_numbered positioned] at mem
  obtain ⟨⟨⟨name, n⟩, place⟩, entry, is⟩ := List.mem_map.mp mem
  obtain ⟨key, rfl⟩ := Prod.mk.inj is
  exact ⟨name, n, key.symm, mem_numbered.mp entry⟩

/-- Every logical call is a step, under the key that its number says. -/
theorem entry_task (positioned : proc.Positioned cfg)
    (entry : (entriesOf name (proc.visits cfg))[n]? = some path) :
    ∃ t ∈ proc.tasks, t.key = keyOf (name, n) ∧ t.path = path := by
  have mem : (keyOf (name, n), path) ∈
      (numbered (proc.visits cfg)).map fun entry => (keyOf entry.1, entry.2) :=
    List.mem_map.mpr ⟨_, mem_numbered.mpr entry, rfl⟩
  rw [← tasks_numbered positioned] at mem
  obtain ⟨t, ht, is⟩ := List.mem_map.mp mem
  obtain ⟨key, place⟩ := Prod.mk.inj is
  exact ⟨t, ht, key, place⟩

/-- A call under a name is one of those under the name. -/
theorem visit_entry {v : String × List Place} (visit : v ∈ proc.visits cfg) :
    ∃ n : Nat, (entriesOf v.1 (proc.visits cfg))[n]? = some v.2 :=
  List.mem_iff_getElem?.mp (mem_entriesOf.mpr visit)

theorem paths_nodup (positioned : proc.Positioned cfg) (once : (proc.tasks.map (·.path)).Nodup) :
    ((proc.visits cfg).map (·.2)).Nodup := by
  rw [Proc.visits, List.map_snd_zip (named_length positioned).2.ge]
  exact once

theorem named_of_entry (entry : (entriesOf name (proc.visits cfg))[n]? = some path) :
    name ∈ (proc.named cfg).flatten :=
  (List.of_mem_zip (mem_entriesOf.mp (List.mem_of_getElem? entry))).1

theorem attempt_of {w : World} {j : Uuid} (mem : proc ∈ w.attemptsOf j) :
    ∃ p : Nat, w.procs[p]? = some proc :=
  List.mem_iff_getElem?.mp (List.mem_of_mem_filter mem)

/-- Keys that line up fix the calls: their order is the one of the numbers. -/
theorem ordered_of_lined_up {w : World} {j : Uuid}
    (positioned : ∀ proc ∈ w.attemptsOf j, proc.Positioned cfg)
    (nodup : ∀ proc ∈ w.attemptsOf j, proc.keys.Nodup) (lineUp : w.KeysLineUp j) :
    w.CallsInOrder cfg j := by
  refine ⟨⟨fun proc mem => ?_, fun proc mem other mem' v visit v' visit' same => ?_⟩,
    fun proc mem other mem' name _ => comparable_of_agree fun n path path' entry entry' => ?_⟩
  · have keys := nodup proc mem
    rw [← keys_tasks, List.Nodup, List.pairwise_map] at keys
    rw [List.Nodup, List.pairwise_map]
    exact keys.imp_of_mem fun ht ht' ne same => ne ((lineUp proc mem proc mem _ ht _ ht').mp same)
  · obtain ⟨n, entry⟩ := visit_entry visit
    obtain ⟨n', entry'⟩ := visit_entry visit'
    obtain ⟨t, ht, key, path⟩ := entry_task (positioned proc mem) entry
    obtain ⟨t', ht', key', path'⟩ := entry_task (positioned other mem') entry'
    have keys := (lineUp proc mem other mem' t ht t' ht').mp (by rw [path, path', same])
    rw [key, key'] at keys
    exact (Prod.mk.inj (keyOf_inj keys)).1
  · obtain ⟨t, ht, key, rfl⟩ := entry_task (positioned proc mem) entry
    obtain ⟨t', ht', key', rfl⟩ := entry_task (positioned other mem') entry'
    exact (lineUp proc mem other mem' t ht t' ht').mpr (key.trans key'.symm)

/-- Calls that come in order have the keys their numbers say. -/
theorem lined_up_of_ordered {w : World} {j : Uuid}
    (positioned : ∀ proc ∈ w.attemptsOf j, proc.Positioned cfg) (inOrder : w.CallsInOrder cfg j) :
    w.KeysLineUp j := by
  intro proc mem other mem' t ht t' ht'
  obtain ⟨name, n, key, entry⟩ := task_entry (positioned proc mem) ht
  obtain ⟨name', n', key', entry'⟩ := task_entry (positioned other mem') ht'
  have order := inOrder.order proc mem other mem' name (named_of_entry entry)
  constructor
  · intro path
    have names := inOrder.name proc mem other mem' _
      (mem_entriesOf.mp (List.mem_of_getElem? entry)) _
      (mem_entriesOf.mp (List.mem_of_getElem? entry')) path
    obtain rfl : name = name' := names
    -- the longer of the two histories has the call in both places
    have places : ∀ {attempt : Proc}, attempt ∈ w.attemptsOf j →
        (entriesOf name (attempt.visits cfg))[n]? = some t.path →
        (entriesOf name (attempt.visits cfg))[n']? = some t.path → n = n' := by
      intro attempt mem here there
      have once := paths_nodup (positioned attempt mem) (inOrder.once attempt mem)
      exact (List.getElem?_inj (List.getElem?_eq_some_iff.mp here).1
        (entriesOf_nodup once)).mp (here.trans there.symm)
    rw [key, key']
    rcases order with shorter | longer
    · rw [← path] at entry'
      rw [places mem' (get_below shorter entry) entry']
    · rw [← path] at entry'
      rw [places mem entry (get_below longer entry')]
  · intro keys
    rw [key, key'] at keys
    obtain ⟨rfl, rfl⟩ := Prod.mk.inj (keyOf_inj keys)
    exact order.elim (fun shorter => agree_below shorter entry entry')
      fun longer => (agree_below longer entry' entry).symm

end AlignmentLemmas

open AlignmentLemmas

/-- Keys line up exactly when the calls to each name come in the same order in every attempt. -/
theorem keys_line_up {cfg : Config} {now : Int} {w : World}
    {ok : World → Action → Prop} (h : Reaches (World.step cfg) ok (.init now) w) (j : Uuid) :
    w.KeysLineUp j ↔ w.CallsInOrder cfg j := by
  have positioned : ∀ proc ∈ w.attemptsOf j, proc.Positioned cfg := by
    intro proc mem
    obtain ⟨p, hp⟩ := attempt_of mem
    exact positioned_reaches h hp
  have nodup : ∀ proc ∈ w.attemptsOf j, proc.keys.Nodup := by
    intro proc mem
    obtain ⟨p, hp⟩ := attempt_of mem
    exact (shaped_reaches h hp).nodup
  exact ⟨ordered_of_lined_up positioned nodup, lined_up_of_ordered positioned⟩

namespace Sample

/-- The body of the first step calls its context. -/
def asks (p : Nat) : Action :=
  .call p (some (0, 0)) (.body 1) (.step "x" .atLeastOnce false none)

/-- The step of call `c` is executed and returns `n`. -/
def executes (p c : Nat) (n : Int) : List Action :=
  advance p c 7 ++ [.task p c 0 (.value (.int n))] ++ advance p c 4

/-- The attempt crashes and its lease runs out; a worker claims the run and its attempt enters
the workflow. -/
def resumes : List Action := [.stop 0, .tick 31000000, .claim "b" []] ++ proceed 1 8

/-- A crash while a body that has made a call is running, which makes the call again. -/
def insideBody : List Action :=
  opening ++ [calls 0 "outer" .atLeastOnce] ++ advance 0 0 7 ++ [asks 0] ++ executes 0 1 1 ++
    resumes ++ [calls 1 "outer" .atLeastOnce] ++ advance 1 0 7 ++ [asks 1] ++ advance 1 1 2

/-- A crash after a body that has made a call and a call of the workflow under the same name. -/
def afterBody : List Action :=
  opening ++ [calls 0 "outer" .atLeastOnce] ++ advance 0 0 7 ++ [asks 0] ++ executes 0 1 1 ++
    [.task 0 0 0 (.value (.int 0))] ++ advance 0 0 4 ++ [calls 0 "x" .atLeastOnce] ++
    executes 0 2 2 ++ resumes ++ [calls 1 "outer" .atLeastOnce] ++ advance 1 0 2 ++
    [calls 1 "x" .atLeastOnce] ++ advance 1 1 2

/-- The number a step has returned. -/
def toldInt (t : Task) : Option Int :=
  match t.prog.ending with
  | some (.ok (.int n)) => some n
  | _ => none

/-- One logical call, under the second key of the name and under the first. -/
def Crossed (t t' : Task) : Prop :=
  t.path = t'.path ∧ t.key = "x#2" ∧ toldInt t = some 2 ∧ t'.key = "x#1" ∧ toldInt t' = some 1

instance (t t' : Task) : Decidable (Crossed t t') := inferInstanceAs (Decidable (_ ∧ _))

end Sample

theorem keys_line_up_insideBody : ∃ w : World,
    (w.attemptsOf Sample.runId).map Proc.keys =
      [["outer#1", "x#1"], ["outer#1", "x#1"]] ∧ w.KeysLineUp Sample.runId := by
  obtain ⟨w, ran, keys, inOrder⟩ := run_exists (World.step Sample.cfg) oneAfterAnother (.init 0)
    Sample.insideBody (fun w => (w.attemptsOf Sample.runId).map Proc.keys =
      [["outer#1", "x#1"], ["outer#1", "x#1"]] ∧ w.CallsInOrder Sample.cfg Sample.runId)
    (by decide +kernel)
  exact ⟨w, keys, (keys_line_up (run_reaches ran) Sample.runId).mpr inOrder⟩

/-- The body of a replayed step does not run, so the call in it takes no number. The workflow's
own call to the name gets the key of that one, and the result recorded for it. -/
theorem keys_cross : ∃ w : World,
    Reaches (World.step Sample.cfg) oneAfterAnother (.init 0) w ∧
    w.CallsFixed Sample.cfg Sample.runId ∧
    (∃ proc ∈ w.attemptsOf Sample.runId, ∃ other ∈ w.attemptsOf Sample.runId,
      ∃ t ∈ proc.tasks, ∃ t' ∈ other.tasks, Sample.Crossed t t') ∧
    ¬ w.KeysLineUp Sample.runId := by
  obtain ⟨w, ran, fixed, crossed⟩ := run_exists (World.step Sample.cfg) oneAfterAnother (.init 0)
    Sample.afterBody (fun w => w.CallsFixed Sample.cfg Sample.runId ∧
      ∃ proc ∈ w.attemptsOf Sample.runId, ∃ other ∈ w.attemptsOf Sample.runId,
        ∃ t ∈ proc.tasks, ∃ t' ∈ other.tasks, Sample.Crossed t t')
    (by decide +kernel)
  refine ⟨w, run_reaches ran, fixed, crossed, fun lineUp => ?_⟩
  obtain ⟨proc, mem, other, mem', t, ht, t', ht', path, key, -, key', -⟩ := crossed
  have same := (lineUp proc mem other mem' t ht t' ht').mp path
  rw [key, key'] at same
  exact absurd same (by decide)

end AnchorRuntime
