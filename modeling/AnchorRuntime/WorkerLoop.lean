import AnchorRuntime.Models
import AnchorRuntime.Lib.Machine

/-!
# The worker loop

`Worker.run_forever` on one event loop: it claims while it has a free slot, starts a `_process` task
for each claim, waits for a slot or for work, and drains what is in flight once it is shut down or a
claim has raised. Between two awaits of the loop, and only there, tasks end, their callbacks take
them out of `_inflight`, and the shutdown is requested.

Results: `worker_loop_keeps`, no more tasks are in flight than the worker has slots, each claim has
its one task, and the loop ends when all tasks have; `no_claim_after_shutdown`, a loop that has seen
the shutdown makes no claim any more.
-/

namespace AnchorRuntime

open Machine

/-! ## The loop -/

/-- How a `_process` task ends: an exception of the engine is caught and the run released, one of
the store leaves the task. -/
inductive TaskEnd
  | normally
  | engineRaised
  | storeRaised (exc : Exn)

/-- A `_process` task. -/
structure ProcessTask where
  runId : Uuid
  ended : Option TaskEnd

/-- Where `run_forever` waits or goes on. -/
inductive LoopAt
  -- at `while not self._shutdown.is_set()`
  | head
  -- in `asyncio.wait`, for the first of these tasks
  | slot (waiting : List Nat)
  -- in `self.store.claim`
  | claiming
  -- in `_sleep_or_shutdown`
  | sleeping
  -- in `asyncio.gather` of `_drain`, with the exception that has left the loop
  | draining (waiting : List Nat) (raised : Option Exn)
  -- returned or raised
  | ended (raised : Option Exn)

/-- A worker in `run_forever`. Tasks are numbered as they are started; `claims` and `received`
record the calls of `claim` and what they gave. -/
structure WorkerLoop where
  concurrency : Int
  at_ : LoopAt
  shutdown : Bool
  inflight : List Nat
  tasks : List ProcessTask
  claimed : Nat
  claims : Nat
  received : List Claim

namespace WorkerLoop

def init (concurrency : Int) : WorkerLoop := ⟨concurrency, .head, false, [], [], 0, 0, []⟩

/-- The task has ended. -/
def done (w : WorkerLoop) (i : Nat) : Bool := (w.tasks[i]?).any (·.ended.isSome)

/-- `_drain`, with the exception that has left the loop. -/
def drain (w : WorkerLoop) (raised : Option Exn) : WorkerLoop :=
  if w.inflight.isEmpty then { w with at_ := .ended raised }
  else { w with at_ := .draining w.inflight raised }

/-- The loop goes on to its next await; `answer` is what `claim` gives or raises. -/
def resume (w : WorkerLoop) (answer : Except Exn (Option Claim)) : Option WorkerLoop :=
  match w.at_ with
  | .head =>
    if w.shutdown then some (w.drain none)
    else if w.concurrency ≤ w.inflight.length then
      -- `_wait_for_slot` returns at once when nothing is in flight
      if w.inflight.isEmpty then some w else some { w with at_ := .slot w.inflight }
    else some { w with at_ := .claiming, claims := w.claims + 1 }
  | .slot waiting => if waiting.any w.done then some { w with at_ := .head } else none
  | .claiming =>
    match answer with
    | .error exc => some (w.drain (some exc))
    | .ok none => some { w with at_ := .sleeping }
    | .ok (some claim) =>
      some { w with
        at_ := .head
        inflight := w.inflight ++ [w.tasks.length]
        tasks := w.tasks ++ [⟨claim.runId, none⟩]
        claimed := w.claimed + 1
        received := w.received ++ [claim] }
  -- the timeout or the shutdown, whichever comes first
  | .sleeping => some { w with at_ := .head }
  | .draining waiting raised =>
    if waiting.all w.done then some { w with at_ := .ended raised } else none
  | .ended _ => none

end WorkerLoop

inductive LoopAction
  | resume (answer : Except Exn (Option Claim))
  | finish (i : Nat) (how : TaskEnd)
  -- the done callback, `self._inflight.discard`
  | discard (i : Nat)
  | requestShutdown

/-- One action. Callbacks run after their task has ended. -/
def WorkerLoop.step (w : WorkerLoop) : LoopAction → Option WorkerLoop
  | .resume answer => w.resume answer
  | .finish i how =>
    match w.tasks[i]? with
    | some ⟨runId, none⟩ => some { w with tasks := w.tasks.set i ⟨runId, some how⟩ }
    | _ => none
  | .discard i => if w.done i then some { w with inflight := w.inflight.filter (· ≠ i) } else none
  | .requestShutdown => some { w with shutdown := true }

/-- The tasks that have not ended. -/
def WorkerLoop.running (w : WorkerLoop) : List Nat :=
  (List.range w.tasks.length).filter fun i => !w.done i

/-- The loop has seen the shutdown, or has been left by an exception. -/
def WorkerLoop.stopping (w : WorkerLoop) : Bool :=
  match w.at_ with
  | .draining _ _ | .ended _ => true
  | _ => false

/-! ## The invariant -/

structure WorkerLoop.Sound (w : WorkerLoop) : Prop where
  -- `_inflight` has no task twice, and no more than there are slots
  nodup : w.inflight.Nodup
  slots : (w.inflight.length : Int) ≤ max w.concurrency 0
  free : ∀ i ∈ w.inflight, i < w.tasks.length
  -- a task that is not in flight has ended
  gone : ∀ i < w.tasks.length, i ∉ w.inflight → w.done i = true
  claiming : w.at_ = .claiming → (w.inflight.length : Int) < w.concurrency
  draining : ∀ waiting raised, w.at_ = .draining waiting raised →
    ∀ i < w.tasks.length, i ∉ waiting → w.done i = true
  ended : ∀ raised, w.at_ = .ended raised → ∀ i < w.tasks.length, w.done i = true
  started : w.tasks.map (·.runId) = w.received.map (·.runId)
  counted : w.claimed = w.tasks.length

namespace WorkerLoopLemmas

variable {w w' : WorkerLoop} {a : LoopAction} {i j : Nat}

theorem sound_init (c : Int) : (WorkerLoop.init c).Sound where
  nodup := List.nodup_nil
  slots := le_max_right c 0
  free i hi := by cases hi
  gone i hi := by cases hi
  claiming is := by cases is
  draining _ _ is := by cases is
  ended _ is := by cases is
  started := rfl
  counted := rfl

/-- The loop stands somewhere else, with nothing to keep there. -/
theorem sound_at (inv : w.Sound) (at_ : LoopAt) (claims : Nat)
    (claiming : at_ = .claiming → (w.inflight.length : Int) < w.concurrency)
    (draining : ∀ waiting raised, at_ = .draining waiting raised →
      ∀ i < w.tasks.length, i ∉ waiting → w.done i = true)
    (ended : ∀ raised, at_ = .ended raised → ∀ i < w.tasks.length, w.done i = true) :
    { w with at_, claims }.Sound :=
  ⟨inv.nodup, inv.slots, inv.free, inv.gone, claiming, draining, ended, inv.started, inv.counted⟩

theorem sound_drain (inv : w.Sound) (raised : Option Exn) : (w.drain raised).Sound := by
  unfold WorkerLoop.drain
  split
  · next empty =>
    have none : w.inflight = [] := List.isEmpty_iff.mp empty
    refine sound_at inv _ _ (fun is => by cases is) (fun _ _ is => by cases is) ?_
    intro _ _ i hi
    exact inv.gone i hi (by simp [none])
  · refine sound_at inv _ _ (fun is => by cases is) ?_ (fun _ is => by cases is)
    intro waiting raised' is i hi out
    cases is
    exact inv.gone i hi out

/-- A claim that was received starts its task. -/
theorem sound_start (inv : w.Sound) (at_ : w.at_ = .claiming) (claim : Claim) :
    { w with
      at_ := .head
      inflight := w.inflight ++ [w.tasks.length]
      tasks := w.tasks ++ [(⟨claim.runId, none⟩ : ProcessTask)]
      claimed := w.claimed + 1
      received := w.received ++ [claim] }.Sound where
  nodup := by
    refine List.nodup_append.mpr ⟨inv.nodup, List.nodup_singleton _, ?_⟩
    intro i hi j hj same
    have old := inv.free i hi
    rw [same, List.mem_singleton.mp hj] at old
    exact lt_irrefl _ old
  slots := by
    have free := inv.claiming at_
    show ((w.inflight ++ [w.tasks.length]).length : Int) ≤ max w.concurrency 0
    rw [List.length_append, List.length_singleton]
    omega
  free i hi := by
    rw [List.length_append, List.length_singleton]
    rcases List.mem_append.mp hi with old | new
    · exact (inv.free i old).trans (Nat.lt_succ_self _)
    · rw [List.mem_singleton.mp new]
      exact Nat.lt_succ_self _
  gone i hi out := by
    obtain ⟨old, new⟩ := not_or.mp (mt List.mem_append.mpr out)
    rw [List.length_append, List.length_singleton] at hi
    have before : i < w.tasks.length := by
      have := mt List.mem_singleton.mpr new
      omega
    have ended := inv.gone i before old
    rwa [WorkerLoop.done, List.getElem?_append_left before]
  claiming is := by cases is
  draining _ _ is := by cases is
  ended _ is := by cases is
  started := by simp [inv.started]
  counted := by simp [inv.counted]

theorem sound_resume {answer : Except Exn (Option Claim)} (inv : w.Sound)
    (h : w.resume answer = some w') : w'.Sound := by
  unfold WorkerLoop.resume at h
  split at h
  · split at h
    · cases h
      exact sound_drain inv none
    · split at h
      · split at h
        · cases h
          exact inv
        · cases h
          exact sound_at inv _ _ (fun is => by cases is) (fun _ _ is => by cases is)
            (fun _ is => by cases is)
      · next free =>
        cases h
        exact sound_at inv _ _ (fun _ => by omega) (fun _ _ is => by cases is)
          (fun _ is => by cases is)
  · split at h
    · cases h
      exact sound_at inv _ _ (fun is => by cases is) (fun _ _ is => by cases is)
        (fun _ is => by cases is)
    · cases h
  · next at_ =>
    split at h
    · cases h
      exact sound_drain inv _
    · cases h
      exact sound_at inv _ _ (fun is => by cases is) (fun _ _ is => by cases is)
        (fun _ is => by cases is)
    · cases h
      exact sound_start inv at_ _
  · cases h
    exact sound_at inv _ _ (fun is => by cases is) (fun _ _ is => by cases is)
      (fun _ is => by cases is)
  · next waiting raised at_ =>
    split at h
    · next all =>
      cases h
      refine sound_at inv _ _ (fun is => by cases is) (fun _ _ is => by cases is) ?_
      intro _ _ i hi
      by_cases waited : i ∈ waiting
      · exact List.all_eq_true.mp all i waited
      · exact inv.draining waiting raised at_ i hi waited
    · cases h
  · cases h

/-- A task that ends leaves the others as they are. -/
theorem done_set {task : ProcessTask} (ended : task.ended.isSome = true) (done : w.done j = true) :
    { w with tasks := w.tasks.set i task }.done j = true := by
  unfold WorkerLoop.done at done ⊢
  rw [List.getElem?_set]
  split
  · split
    · exact ended
    · next same out =>
      rw [← same, List.getElem?_eq_none (Nat.le_of_not_lt out)] at done
      cases done
  · exact done

theorem sound_finish {how : TaskEnd} {runId : Uuid} (inv : w.Sound)
    (running : w.tasks[i]? = some ⟨runId, none⟩) :
    { w with tasks := w.tasks.set i ⟨runId, some how⟩ }.Sound where
  nodup := inv.nodup
  slots := inv.slots
  free j hj := by
    rw [List.length_set]
    exact inv.free j hj
  gone j hj out := by
    rw [List.length_set] at hj
    exact done_set rfl (inv.gone j hj out)
  claiming := inv.claiming
  draining waiting raised is j hj out := by
    rw [List.length_set] at hj
    exact done_set rfl (inv.draining waiting raised is j hj out)
  ended raised is j hj := by
    rw [List.length_set] at hj
    exact done_set rfl (inv.ended raised is j hj)
  started := by
    have same : (w.tasks.map (·.runId)).set i runId = w.tasks.map (·.runId) := by
      apply List.ext_getElem?
      intro j
      rw [List.getElem?_set, List.getElem?_map]
      split
      · next mine =>
        have there := (List.getElem?_eq_some_iff.mp running).1
        rw [if_pos (by rwa [List.length_map]), ← mine, running]
        rfl
      · rfl
    rw [List.map_set, same]
    exact inv.started
  counted := by
    rw [List.length_set]
    exact inv.counted

theorem sound_discard (inv : w.Sound) (done : w.done i = true) :
    { w with inflight := w.inflight.filter (· ≠ i) }.Sound where
  nodup := inv.nodup.filter _
  slots := by
    have fewer := List.length_filter_le (· ≠ i) w.inflight
    have slots := inv.slots
    show ((w.inflight.filter (· ≠ i)).length : Int) ≤ max w.concurrency 0
    omega
  free j hj := inv.free j (List.mem_filter.mp hj).1
  gone j hj out := by
    by_cases mine : j = i
    · rw [mine]
      exact done
    · exact inv.gone j hj fun mem => out (List.mem_filter.mpr ⟨mem, by simpa using mine⟩)
  claiming is := by
    have fewer := List.length_filter_le (· ≠ i) w.inflight
    have free := inv.claiming is
    show ((w.inflight.filter (· ≠ i)).length : Int) < w.concurrency
    omega
  draining := inv.draining
  ended := inv.ended
  started := inv.started
  counted := inv.counted

theorem sound_step (inv : w.Sound) (h : w.step a = some w') : w'.Sound := by
  cases a with
  | resume answer => exact sound_resume inv h
  | finish i how =>
    simp only [WorkerLoop.step] at h
    split at h
    · next runId running =>
      cases h
      exact sound_finish inv running
    · cases h
  | discard i =>
    simp only [WorkerLoop.step] at h
    split at h
    · next done =>
      cases h
      exact sound_discard inv done
    · cases h
  | requestShutdown =>
    cases h
    exact ⟨inv.nodup, inv.slots, inv.free, inv.gone, inv.claiming, inv.draining, inv.ended,
      inv.started, inv.counted⟩

/-- The tasks that have not ended are in flight. -/
theorem running_le (inv : w.Sound) : w.running.length ≤ w.inflight.length := by
  have inside : w.running ⊆ w.inflight := by
    intro i hi
    obtain ⟨there, open_⟩ := List.mem_filter.mp hi
    by_contra out
    have ended := inv.gone i (List.mem_range.mp there) out
    simp [ended] at open_
  exact (List.nodup_range.filter _).subperm inside |>.length_le

theorem drain_concurrency (raised : Option Exn) : (w.drain raised).concurrency = w.concurrency := by
  unfold WorkerLoop.drain
  split <;> rfl

theorem concurrency_step (h : w.step a = some w') : w'.concurrency = w.concurrency := by
  cases a with
  | resume answer =>
    simp only [WorkerLoop.step, WorkerLoop.resume] at h
    split at h
    · split at h
      · cases h
        exact drain_concurrency none
      · split at h
        · split at h <;> cases h <;> rfl
        · cases h
          rfl
    · split at h <;> cases h
      rfl
    · split at h
      · cases h
        exact drain_concurrency _
      · cases h
        rfl
      · cases h
        rfl
    · cases h
      rfl
    · split at h <;> cases h
      rfl
    · cases h
  | finish i how =>
    simp only [WorkerLoop.step] at h
    split at h <;> cases h
    rfl
  | discard i =>
    simp only [WorkerLoop.step] at h
    split at h <;> cases h
    rfl
  | requestShutdown =>
    cases h
    rfl

/-- A loop that is stopping stays so, and claims no more. -/
theorem stopping_step (stopping : w.stopping = true) (h : w.step a = some w') :
    w'.stopping = true ∧ w'.claims = w.claims := by
  cases a with
  | resume answer =>
    simp only [WorkerLoop.step, WorkerLoop.resume] at h
    unfold WorkerLoop.stopping at stopping
    split at h
    · next at_ => simp [at_] at stopping
    · next at_ => simp [at_] at stopping
    · next at_ => simp [at_] at stopping
    · next at_ => simp [at_] at stopping
    · split at h <;> cases h
      exact ⟨rfl, rfl⟩
    · cases h
  | finish i how =>
    simp only [WorkerLoop.step] at h
    split at h <;> cases h
    exact ⟨stopping, rfl⟩
  | discard i =>
    simp only [WorkerLoop.step] at h
    split at h <;> cases h
    exact ⟨stopping, rfl⟩
  | requestShutdown =>
    cases h
    exact ⟨stopping, rfl⟩

end WorkerLoopLemmas

open WorkerLoopLemmas

section

variable {ok : WorkerLoop → LoopAction → Prop} {c : Int} {w w' : WorkerLoop}

theorem sound_loop (h : Reaches WorkerLoop.step ok (.init c) w) : w.Sound :=
  h.invariant (sound_init c) fun _ _ _ _ inv _ step => sound_step inv step

theorem concurrency_loop (h : Reaches WorkerLoop.step ok (.init c) w) : w.concurrency = c :=
  h.invariant (I := fun w => w.concurrency = c) rfl
    fun _ _ _ _ inv _ step => (concurrency_step step).trans inv

/-- A loop that has seen the shutdown makes no claim any more. -/
theorem no_claim_after_shutdown (stopping : w.stopping = true)
    (h : Reaches WorkerLoop.step ok w w') : w'.stopping = true ∧ w'.claims = w.claims := by
  induction h with
  | refl => exact ⟨stopping, rfl⟩
  | tail _ _ step ih =>
    obtain ⟨still, same⟩ := stopping_step ih.1 step
    exact ⟨still, same.trans ih.2⟩

end

/-- A worker with one slot that is shut down while its one run is under way. -/
def Sample.shift : List LoopAction :=
  [.resume (.ok none), .resume (.ok (some ⟨⟨7⟩, 1⟩)), .requestShutdown, .resume (.ok none),
    .finish 0 .normally, .discard 0, .resume (.ok none)]

end AnchorRuntime
