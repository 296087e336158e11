import AnchorRuntime.Queue
import AnchorRuntime.Shape

/-!
# The lease guard

A worker hands its attempt a guard that renews the lease of the run under the worker's id.
The queue row names a worker, not a claim, so the guard of an old claim passes again once the
same worker has claimed the run anew.

Results: `owned_reaches`, the row of a run names the worker of its most recent claim, or
nobody; `guard_refuses`, when exactly the guard of a claim that is not the last returns False.
-/

namespace AnchorRuntime

open Effect Machine Relational ShapeLemmas

/-! ## Claims -/

/-- The workers that have claimed the run, in order; an attempt without a worker has not
claimed it. -/
def World.claims (w : World) (runId : Uuid) : List String :=
  w.procs.filterMap fun proc => if proc.loc.runId = runId then proc.loc.worker else none

/-- The worker that has claimed the run last. -/
def World.claimant (w : World) (runId : Uuid) : Option String := (w.claims runId).getLast?

/-- The run has been claimed since attempt `p` was started for it. -/
def World.reclaimed (w : World) (p : Nat) (runId : Uuid) : Bool :=
  (w.procs.drop (p + 1)).any fun later => later.loc.runId = runId && later.loc.worker.isSome

/-- Somebody's lease on the run is in force: the row is there, neither released nor lapsed. -/
def World.leased (w : World) (runId : Uuid) : Bool :=
  (w.store.runQueue.find runId).any fun row =>
    row.workerId.isSome && row.lockedUntil.any (w.now < ·)

/-- What the guard of attempt `p` answers, when the database does. -/
def World.guards (cfg : Config) (w : World) (p : Nat) (answer : Bool) : Prop :=
  ∃ proc store, w.procs[p]? = some proc ∧
    exec cfg w.now w.store proc.loc .done .heartbeat = some (.ok answer, store, proc.loc)

/-! ## The owner of a row -/

/-- The row of the run names this worker. -/
def Store.owner (st : Store) (runId : Uuid) (worker : String) : Prop :=
  ∃ row, st.runQueue.find runId = some row ∧ row.workerId = some worker

/-- The row of a run names the worker that has claimed it last, or nobody. -/
def World.Owned (w : World) : Prop :=
  ∀ runId worker, w.store.owner runId worker → w.claimant runId = some worker

namespace GuardLemmas

variable {cfg : Config} {now : Int} {st st' : Store} {loc loc' : Local} {ans : Answer}
  {w w' : World} {a : Action}

theorem owner_congr {runId : Uuid} {worker : String}
    (same : st'.runQueue.find runId = st.runQueue.find runId) (h : st'.owner runId worker) :
    st.owner runId worker := by
  obtain ⟨row, found, owns⟩ := h
  exact ⟨row, same.symm.trans found, owns⟩

theorem heartbeat_owner {runId j : Uuid} {worker own : String} {lease : Int}
    (h : (st.heartbeat now runId own lease).2.owner j worker) : st.owner j worker := by
  rcases heartbeat_row st now runId own lease with same | ⟨row, st', beat, -, found, -, rows⟩
  · rwa [same] at h
  · rw [beat] at h
    obtain ⟨new, hnew, owns⟩ := h
    rw [rows] at hnew
    split at hnew
    · next e =>
      cases hnew
      exact ⟨row, e ▸ found, owns⟩
    · exact ⟨new, hnew, owns⟩

theorem release_owner {runId j : Uuid} {worker own : String} {delay : Int}
    (h : (st.release now runId own delay).owner j worker) : st.owner j worker := by
  rcases release_row st now runId own delay with ⟨same, -⟩ | ⟨-, row, -, -, rows⟩
  · rwa [same] at h
  · obtain ⟨new, hnew, owns⟩ := h
    rw [rows] at hnew
    split at hnew
    · cases hnew
      cases owns
    · exact ⟨new, hnew, owns⟩

/-- No statement of an attempt makes a worker the owner of a row. -/
theorem exec_owner {o : Op} {r : Ans o} (run : exec cfg now st loc ans o = some (r, st', loc'))
    {j : Uuid} {worker : String} (h : st'.owner j worker) : st.owner j worker := by
  rcases exec_store run with ⟨rfl, -⟩ | wrote
  · exact h
  · cases wrote with
    | appendEvent ok => exact owner_congr (by rw [(appendEvent_standing ok j).2]) h
    | setStatus ok => exact owner_congr (by rw [(setStatus_standing ok j).2]) h
    | bumpAttempt | saveUsage => exact h
    | heartbeat => exact heartbeat_owner h
    | release => exact release_owner h
    | dequeue =>
      obtain ⟨row, found, owns⟩ := h
      rw [Store.dequeue, Table.find_delete] at found
      split at found
      · cases found
      · exact ⟨row, found, owns⟩

/-- Progress of an attempt claims nothing. -/
theorem claims_set {p : Nat} {proc new : Proc} (hp : w.procs[p]? = some proc)
    (runId : new.loc.runId = proc.loc.runId) (worker : new.loc.worker = proc.loc.worker)
    (procs : w'.procs = w.procs.set p new) (j : Uuid) : w'.claims j = w.claims j := by
  obtain ⟨bound, at_⟩ := List.getElem?_eq_some_iff.mp hp
  have split : w.procs = w.procs.take p ++ proc :: w.procs.drop (p + 1) := by
    rw [← at_, List.cons_getElem_drop_succ, List.take_append_drop]
  rw [World.claims, World.claims, procs, List.set_eq_take_append_cons_drop, if_pos bound]
  conv_rhs => rw [split]
  simp only [List.filterMap_append, List.filterMap_cons, runId, worker]

/-- A claim counts for the run it returns. -/
theorem claims_claimed {worker : String} {runId : Uuid}
    (procs : w'.procs = w.procs ++ [.claimed cfg worker runId]) (j : Uuid) :
    w'.claims j = if j = runId then w.claims j ++ [worker] else w.claims j := by
  rw [World.claims, procs, List.filterMap_append]
  split
  · next e =>
    subst e
    simp [Proc.claimed, World.claims]
  · next ne =>
    simp [Proc.claimed, World.claims, Ne.symm ne]

theorem claims_executed {runId : Uuid} (procs : w'.procs = w.procs ++ [.executed cfg runId])
    (j : Uuid) : w'.claims j = w.claims j := by
  rw [World.claims, procs, List.filterMap_append]
  simp [Proc.executed, World.claims]

theorem claimant_congr {j : Uuid} (same : w'.claims j = w.claims j) :
    w'.claimant j = w.claimant j := congrArg List.getLast? same

theorem owned_step (h : w.step cfg a = some w') (inv : w.Owned) : w'.Owned := by
  intro j worker owns
  have kept : w'.claims j = w.claims j → w.store.owner j worker → w'.claimant j = some worker :=
    fun same old => (claimant_congr same).trans (inv j worker old)
  cases step_happens h with
  | tick => exact inv j worker owns
  | submit done =>
    refine kept rfl ?_
    rcases submitRun_row done j with ⟨-, same⟩ | ⟨-, -, row, found, free⟩
    · exact owner_congr same owns
    · obtain ⟨row', found', owns⟩ := owns
      cases found.symm.trans found'
      exact absurd (free.symm.trans owns) (by simp)
  | cancel done => exact kept rfl (owner_congr (by rw [(requestCancel_standing done j).2]) owns)
  | execute => exact kept (claims_executed rfl j) owns
  | claim done =>
    obtain ⟨-, row, -, -, rows⟩ := claim_row done
    obtain ⟨new, found, owns⟩ := owns
    rw [rows] at found
    rw [World.claimant, claims_claimed rfl]
    split at found
    · next e =>
      cases found
      rw [if_pos e]
      exact List.getLast?_concat.trans owns
    · next ne =>
      rw [if_neg ne]
      exact inv j worker ⟨new, found, owns⟩
  | beat _ hp _ _ store =>
    refine kept (claims_set hp (by rfl) (by rfl) rfl j) ?_
    rcases store with rfl | rfl
    · exact owns
    · exact heartbeat_owner owns
  | main hp _ _ run =>
    obtain ⟨runId, worker, -⟩ := exec_ctx run
    exact kept (claims_set hp runId worker rfl j) (exec_owner run owns)
  | task hp _ _ _ _ run =>
    obtain ⟨runId, worker, -⟩ := exec_ctx run
    exact kept (claims_set hp runId worker rfl j) (exec_owner run owns)
  | refused hp | call hp | stop hp => exact kept (claims_set hp (by rfl) (by rfl) rfl j) owns

end GuardLemmas

open GuardLemmas

theorem owned_reaches {cfg : Config} {now : Int} {ok : World → Action → Prop} {w : World}
    (h : Reaches (World.step cfg) ok (.init now) w) : w.Owned :=
  h.invariant (fun _ _ owns => by obtain ⟨_, found, -⟩ := owns; cases found)
    fun _ _ _ _ inv _ step => owned_step step inv

namespace GuardLemmas

variable {cfg : Config} {w : World} {p : Nat} {proc : Proc} {worker : String}

/-- The guard renews the lease if the row still names the worker and has not lapsed. -/
theorem guards_iff (hp : w.procs[p]? = some proc) (hw : proc.loc.worker = some worker)
    (answer : Bool) : w.guards cfg p answer ↔
      (w.store.runQueue.find proc.loc.runId).any (Store.holds w.now worker) = answer := by
  simp only [World.guards, hp, Option.some.injEq, exists_eq_left', exists_and_left, exec, hw,
    Option.bind_some, storeCall, Store.heartbeat]
  cases (w.store.runQueue.find proc.loc.runId).any (Store.holds w.now worker) <;> simp

/-- A lease in force is that of the last claim. -/
theorem holds_iff (owned : w.Owned) (runId : Uuid) (worker : String) :
    (w.store.runQueue.find runId).any (Store.holds w.now worker) = true ↔
      w.claimant runId = some worker ∧ w.leased runId = true := by
  constructor
  · intro holds
    obtain ⟨row, found, holds⟩ := (Option.any_eq_true _ _).mp holds
    simp only [Store.holds, Bool.and_eq_true, decide_eq_true_eq] at holds
    obtain ⟨owns, locked⟩ := holds
    refine ⟨owned runId worker ⟨row, found, owns⟩, (Option.any_eq_true _ _).mpr ⟨row, found, ?_⟩⟩
    rw [owns, locked]
    rfl
  · rintro ⟨last, leased⟩
    obtain ⟨row, found, leased⟩ := (Option.any_eq_true _ _).mp leased
    rw [Bool.and_eq_true] at leased
    obtain ⟨other, owns⟩ := Option.isSome_iff_exists.mp leased.1
    obtain rfl : other = worker :=
      Option.some.inj ((owned runId other ⟨row, found, owns⟩).symm.trans last)
    refine (Option.any_eq_true _ _).mpr ⟨row, found, ?_⟩
    simp [Store.holds, owns, leased.2]

end GuardLemmas

/-- When the lease guard identifies the attempt: in every reachable world, the guard of an
attempt whose run has been claimed again returns False if and only if it is not so that its
own worker has made the last claim and the lease of that claim is in force; and two guards of
a run that pass at one moment belong to one worker. -/
theorem guard_refuses {cfg : Config} {now : Int} {w : World}
    (h : Reaches (World.step cfg) (fun _ _ => True) (.init now) w) {p : Nat} {proc : Proc}
    {worker : String} (hp : w.procs[p]? = some proc) (hw : proc.loc.worker = some worker) :
    ((w.reclaimed p proc.loc.runId = true → w.guards cfg p false) ↔
      ¬ (w.reclaimed p proc.loc.runId = true ∧ w.claimant proc.loc.runId = some worker ∧
        w.leased proc.loc.runId = true)) ∧
    ∀ (q : Nat) (other : Proc), w.procs[q]? = some other → other.loc.runId = proc.loc.runId →
      w.guards cfg p true → w.guards cfg q true → other.loc.worker = some worker := by
  have owned := owned_reaches h
  have passes := holds_iff owned proc.loc.runId worker
  refine ⟨?_, fun q other hq run mine its => ?_⟩
  · rw [guards_iff hp hw, ← passes]
    simp
  · cases hother : other.loc.worker with
    | none =>
      obtain ⟨_, store, hq', its⟩ := its
      cases hq.symm.trans hq'
      simp [exec, hother] at its
    | some name =>
      have last :=
        ((holds_iff owned other.loc.runId name).mp ((guards_iff hq hother true).mp its)).1
      rw [run] at last
      exact last.symm.trans (passes.mp ((guards_iff hp hw true).mp mine)).1

/-- A worker whose lease lapses at the boundary of a step, and another that claims the run. -/
def Sample.passedOn : List Action :=
  opening ++ [calls 0 "x" .atLeastOnce] ++ advance 0 0 1 ++ [.tick 31000000, .claim "b" []]

theorem guard_refuses_passedOn : ∃ w,
    run (World.step Sample.cfg) (fun _ _ => True) (.init 0) Sample.passedOn = some w ∧
    w.reclaimed 0 Sample.runId = true ∧ w.guards Sample.cfg 0 false := by
  obtain ⟨w, h, own, again, last⟩ := run_exists (World.step Sample.cfg) (fun _ _ => True)
    (.init 0) Sample.passedOn (fun w =>
      (w.procs[0]?.any fun proc => proc.loc.worker = some "a" && proc.loc.runId = Sample.runId) =
        true ∧ w.reclaimed 0 Sample.runId = true ∧ w.claimant Sample.runId = some "b")
    (by decide)
  obtain ⟨proc, hp, own⟩ := (Option.any_eq_true _ _).mp own
  obtain ⟨worker, runId⟩ : proc.loc.worker = some "a" ∧ proc.loc.runId = Sample.runId := by
    simpa using own
  rw [← runId] at again last
  refine ⟨w, h, runId ▸ again, (guard_refuses (run_reaches h) hp worker).1.mpr ?_ again⟩
  rintro ⟨-, own, -⟩
  exact absurd (Option.some.inj (own.symm.trans last)) (by decide)

/-- A worker whose lease lapses, and that claims the run again. -/
def Sample.selfClaimed : List Action :=
  opening ++ [calls 0 "x" .atLeastOnce] ++ advance 0 0 1 ++ [.tick 31000000, .claim "a" []]

/-- The guard of the first attempt passes, and so does that of the second. -/
theorem guards_pass : ∃ w,
    run (World.step Sample.cfg) (fun _ _ => True) (.init 0) Sample.selfClaimed = some w ∧
    w.reclaimed 0 Sample.runId = true ∧
    w.guards Sample.cfg 0 true ∧ w.guards Sample.cfg 1 true := by
  obtain ⟨w, h, again, first, second, held⟩ := run_exists (World.step Sample.cfg)
    (fun _ _ => True) (.init 0) Sample.selfClaimed (fun w => w.reclaimed 0 Sample.runId = true ∧
      (w.procs[0]?.any fun proc => proc.loc.worker = some "a" && proc.loc.runId = Sample.runId) =
        true ∧
      (w.procs[1]?.any fun proc => proc.loc.worker = some "a" && proc.loc.runId = Sample.runId) =
        true ∧ (w.store.runQueue.find Sample.runId).any (Store.holds w.now "a") = true)
    (by decide)
  have passes : ∀ p : Nat, (w.procs[p]?.any fun proc =>
      proc.loc.worker = some "a" && proc.loc.runId = Sample.runId) = true →
      w.guards Sample.cfg p true := by
    intro p own
    obtain ⟨proc, hp, own⟩ := (Option.any_eq_true _ _).mp own
    obtain ⟨worker, runId⟩ : proc.loc.worker = some "a" ∧ proc.loc.runId = Sample.runId := by
      simpa using own
    rw [guards_iff hp worker, runId]
    exact held
  exact ⟨w, h, again, passes 0 first, passes 1 second⟩

end AnchorRuntime
