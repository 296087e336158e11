import AnchorRuntime.Guards
import AnchorRuntime.Escalation
import AnchorRuntime.Breaches

/-!
# Taking a run over

A worker learns that its run has been claimed by another one at the boundary of its next step,
and nowhere else: the window of the step it has passed the boundary for, the end of its workflow
and the row on the queue are written without another look at the lease.

Results: `stale_step`, a previous owner that was taken over inside its workflow, and whose steps
were not past their lease check, stays that way until it stands down; `stale_stands_down`, it
writes nothing but how the step it has in flight ends; `stale_concludes`, a previous owner that
finishes the run and takes it off the queue of the new one.
-/

namespace AnchorRuntime

open Effect Machine ShapeLemmas ProcLemmas TaskLemmas GuardLemmas BreachLemmas

/-! ## The condition -/

/-- The step has passed its lease check, and has not opened its window. -/
def Stage.pastCheck : Stage → Bool
  | .leased | .uncancelled | .admitted | .starting => true
  | _ => false

/-- The step has an open window. -/
def Stage.hasWindow : Stage → Bool
  | .recovering | .verifying | .recovered _ | .unknown | .ready _ _ | .running _ | .returned _ _
  | .raised _ _ | .waiting _ | .resolved _ | .recorded _ | .saved _ | .billed _ | .metered _ => true
  | _ => false

/-- The step records that its body is run once more. -/
def Stage.retries (attempts : Int) : Stage → Bool
  | .unknown => true
  | .raised n _ => n < attempts
  | _ => false

/-- The workflow runs, or the attempt has nothing to write any more. -/
def Phase.stale : Phase → Bool
  | .inside | .standing | .failing => true
  | _ => false

/-- Nothing of the attempt is past the last look at its lease. -/
def Proc.yields (proc : Proc) : Bool :=
  (proc.phase.stale || proc.main.next.isNone) &&
    proc.calls.all fun rec => rec.tasks.all fun t => !t.stage.pastCheck

/-- The keys of the steps the attempt has in flight. -/
def Proc.inFlight (proc : Proc) : List String :=
  proc.calls.flatMap fun rec =>
    (rec.tasks.filter fun t => !t.ended && t.stage.hasWindow).map (·.key)

/-- Another worker has claimed the run of attempt `p` since. -/
def World.overtaken (w : World) (p : Nat) (proc : Proc) : Bool :=
  (w.procs.drop (p + 1)).any fun later => later.loc.runId = proc.loc.runId &&
    later.loc.worker.isSome && later.loc.worker ≠ proc.loc.worker

/-- A run is taken over only where nothing of its previous owners is past the last look at the
lease, and not by one of them; after that the workflow of a previous owner ends by LeaseLost,
and its steps are not tried again. -/
def handsOver (cfg : Config) (w : World) : Action → Prop
  | .claim worker locked => ∀ claim ∈ (w.store.claim w.now worker cfg.leaseSeconds locked).1,
      ∀ p < w.procs.length, ∀ proc ∈ w.procs[p]?, proc.loc.runId = claim.runId →
        proc.stopped = false → proc.loc.worker.isSome = true →
          (if proc.loc.worker = some worker then !w.overtaken p proc else proc.yields) = true
  | .main p ans => ∀ proc ∈ w.procs[p]?, w.overtaken p proc = true →
      proc.phase.isInside = true → ans.lost = true
  | .task p c b _ => ∀ proc ∈ w.procs[p]?, ∀ rec ∈ proc.calls[c]?, ∀ t ∈ rec.tasks[b]?,
      w.overtaken p proc = true → t.stage.retries (rec.call.attempts cfg) = false
  | _ => True

instance (cfg : Config) (w : World) (a : Action) : Decidable (handsOver cfg w a) :=
  match a with
  | .claim worker locked => inferInstanceAs (Decidable
      (∀ claim ∈ (w.store.claim w.now worker cfg.leaseSeconds locked).1,
      ∀ p < w.procs.length, ∀ proc ∈ w.procs[p]?, proc.loc.runId = claim.runId →
        proc.stopped = false → proc.loc.worker.isSome = true →
          (if proc.loc.worker = some worker then !w.overtaken p proc else proc.yields) = true))
  | .main p ans => inferInstanceAs (Decidable (∀ proc ∈ w.procs[p]?,
      w.overtaken p proc = true → proc.phase.isInside = true → ans.lost = true))
  | .task p c b _ => inferInstanceAs (Decidable (∀ proc ∈ w.procs[p]?, ∀ rec ∈ proc.calls[c]?,
      ∀ t ∈ rec.tasks[b]?, w.overtaken p proc = true →
        t.stage.retries (rec.call.attempts cfg) = false))
  | .submit _ _ _ _ _ | .cancel _ | .tick _ | .execute _ | .beat _ _ | .call _ _ _ _
  | .stop _ => .isTrue trivial

/-! ## Standing down -/

/-- The events by which a step ends. -/
def Payload.closes : Payload → Bool
  | .stepCompleted _ _ | .stepFailed _ _ | .toolInvoked _ _ _ | .modelCalled _ _ _ _ _ => true
  | _ => false

/-- From the one world to the other nothing is written for the run but how steps of these keys
end: no other event, no status, and the run keeps its place on the queue. -/
structure World.StandsDown (w w' : World) (j : Uuid) (keys : List String) : Prop where
  log : ∃ es, w'.store.loadEvents j = w.store.loadEvents j ++ es ∧
    ∀ e ∈ es, e.payload.closes = true ∧ ∃ key ∈ keys, e.stepKey = some key
  standing : w'.store.standing j = w.store.standing j
  queued : (w.store.runQueue.find j).isSome = true → (w'.store.runQueue.find j).isSome = true

/-- Attempt `p` of worker `own` has been overtaken, with these steps in flight, and while it
lives the last claim of the run is not its worker's. -/
structure World.Stale (w : World) (p : Nat) (j : Uuid) (own : String) (keys : List String) :
    Prop where
  owner : ∃ proc, w.procs[p]? = some proc ∧ proc.loc.runId = j ∧ proc.loc.worker = some own ∧
    w.overtaken p proc = true
  passed : ∀ proc, w.procs[p]? = some proc → proc.stopped = false → w.claimant j ≠ some own
  main : ∀ proc, w.procs[p]? = some proc → proc.stopped = false →
    proc.phase.stale = true ∨ proc.main.next = none
  tasks : ∀ proc, w.procs[p]? = some proc → proc.stopped = false → ∀ c b rec t,
    proc.At c b rec t → t.stage.pastCheck = false ∧
      (t.ended = false → t.stage.hasWindow = true → t.key ∈ keys)

namespace TakeoverLemmas

variable {cfg : Config} {w w' : World} {a : Action} {p c b : Nat} {proc proc' : Proc}
  {rec : CallRecord} {t : Task} {j : Uuid} {own : String} {keys : List String}

theorem overtaken_iff : w.overtaken p proc = true ↔ ∃ q later, p < q ∧
    w.procs[q]? = some later ∧ later.loc.runId = proc.loc.runId ∧
    later.loc.worker.isSome = true ∧ later.loc.worker ≠ proc.loc.worker := by
  simp only [World.overtaken, List.any_eq_true, Bool.and_eq_true, decide_eq_true_eq]
  constructor
  · rintro ⟨later, mem, ⟨run, claimed⟩, other⟩
    obtain ⟨i, hi⟩ := List.getElem?_of_mem mem
    rw [List.getElem?_drop] at hi
    exact ⟨p + 1 + i, later, by omega, hi, run, claimed, other⟩
  · rintro ⟨q, later, after, hq, run, claimed, other⟩
    refine ⟨later, List.mem_of_getElem? (i := q - (p + 1)) ?_, ⟨run, claimed⟩, other⟩
    rw [List.getElem?_drop, show p + 1 + (q - (p + 1)) = q by omega]
    exact hq

/-- Who has been overtaken stays so. -/
theorem overtaken_stays
    (shaped : ∀ (p : Nat) (proc : Proc), w.procs[p]? = some proc → proc.Shaped cfg)
    (h : w.step cfg a = some w') (run : proc'.loc.runId = proc.loc.runId)
    (worker : proc'.loc.worker = proc.loc.worker) (was : w.overtaken p proc = true) :
    w'.overtaken p proc' = true := by
  obtain ⟨q, later, after, hq, same, claimed, other⟩ := overtaken_iff.mp was
  obtain ⟨later', hq', run', worker', -⟩ := attempt_persists shaped h hq
  refine overtaken_iff.mpr ⟨q, later', after, hq', ?_, ?_, ?_⟩
  · rw [run', same, run]
  · rw [worker']
    exact claimed
  · rw [worker', worker]
    exact other

/-- The last claim of a run stays that of another worker, or the worker claims it. -/
theorem claimant_step (h : w.step cfg a = some w') (was : w.claimant j ≠ some own) :
    w'.claimant j ≠ some own ∨ ∃ locked claim, a = .claim own locked ∧
      claim ∈ (w.store.claim w.now own cfg.leaseSeconds locked).1 ∧ claim.runId = j := by
  have same : w'.claims j = w.claims j → w'.claimant j ≠ some own := fun same => by
    rw [claimant_congr same]
    exact was
  cases step_happens h with
  | submit | cancel | tick => exact .inl (same rfl)
  | execute => exact .inl (same (claims_executed rfl j))
  | @claim worker locked claim store done =>
    by_cases taken : claim.runId = j ∧ worker = own
    · obtain ⟨rfl, rfl⟩ := taken
      exact .inr ⟨locked, claim, rfl, by rw [done]; rfl, rfl⟩
    · left
      rw [World.claimant, claims_claimed rfl]
      split
      · next run =>
        rw [List.getLast?_concat]
        exact fun is => taken ⟨run.symm, Option.some.inj is⟩
      · exact was
  | beat _ hp => exact .inl (same (claims_set hp (by rfl) (by rfl) rfl j))
  | main hp _ _ run | task hp _ _ _ _ run =>
    obtain ⟨runId, worker, -⟩ := exec_ctx run
    exact .inl (same (claims_set hp runId worker rfl j))
  | refused hp | call hp | stop hp => exact .inl (same (claims_set hp (by rfl) (by rfl) rfl j))

/-! What a stale attempt does. -/

/-- A lease check passes only for the worker of the last claim. -/
theorem heartbeat_passes {ans : Answer} {st' : Store} {loc' : Local} (owned : w.Owned)
    (worker : proc.loc.worker = some own)
    (run : exec cfg w.now w.store proc.loc ans .heartbeat = some (.ok true, st', loc')) :
    w.claimant proc.loc.runId = some own := by
  rcases exec_store run with ⟨-, idle⟩ | wrote
  · exact absurd trivial idle
  · generalize answer : (Except.ok true : Except Exn Bool) = r at wrote
    cases wrote with
    | @heartbeat name is =>
      obtain rfl : name = own := Option.some.inj (is.symm.trans worker)
      have passed := Except.ok.inj answer
      rcases heartbeat_row w.store w.now proc.loc.runId name cfg.leaseSeconds with
        refused | ⟨row, _, -, -, found, holds, -⟩
      · rw [refused] at passed
        cases passed
      · simp only [Store.holds, Bool.and_eq_true, decide_eq_true_eq] at holds
        exact owned _ _ ⟨row, found, holds.1⟩

/-- A step gets past its lease check by passing it, and opens a window past it. -/
theorem stage_next {s : StepSetup} {stage : Stage} {o : Op} {r : Ans o} (guarded : s.guarded = true)
    (may : s.allowed stage o) (refused : o = .heartbeat → ¬ HEq r (Except.ok (ε := Exn) true))
    (before : stage.pastCheck = false) :
    (s.next stage o r).pastCheck = false ∧
      ((s.next stage o r).hasWindow = true → stage.hasWindow = true) := by
  have moves := StepSetup.moves may r
  generalize s.next stage o r = stage' at moves ⊢
  cases moves with
  | unguarded free => cases guarded.symm.trans free
  | owned => exact absurd HEq.rfl (refused rfl)
  | uncancelled | admitted | fresh | verifiable | unverifiable | start => cases before
  | _ => exact ⟨rfl, fun window => by first | rfl | cases window⟩

/-- A stale attempt that loses its lease stands down, and does nothing more. -/
theorem phase_next {phase : Phase} {o : Op} {r : Ans o} {now : Int} {st st' : Store}
    {loc loc' : Local} {ans : Answer} (may : phase.allowed o)
    (run : exec cfg now st loc ans o = some (r, st', loc'))
    (lost : phase.isInside = true → ans.lost = true) (stale : phase.stale = true) :
    (phase.next o r).stale = true := by
  have moves := Phase.moves may r
  generalize phase.next o r = phase' at moves ⊢
  cases moves with
  | leave name input r =>
    have lost := lost rfl
    cases ans with
    | raise exc =>
      cases exc with
      | leaseLost message =>
        cases run
        rfl
      | _ => cases lost
    | _ => cases lost
  | snapshot | stopHeartbeat => exact stale
  | release | raise => rfl
  | _ => cases stale

theorem stale_step
    (shaped : ∀ (p : Nat) (proc : Proc), w.procs[p]? = some proc → proc.Shaped cfg)
    (owned : w.Owned) (h : w.step cfg a = some w') (ok : handsOver cfg w a)
    (inv : w.Stale p j own keys) : w'.Stale p j own keys := by
  obtain ⟨proc, hp, run, worker, overtaken⟩ := inv.owner
  obtain ⟨proc', hp', run', worker', -⟩ := attempt_persists shaped h hp
  have unique : ∀ other, w'.procs[p]? = some other → other = proc' := fun other hother =>
    Option.some.inj (hother.symm.trans hp')
  have lives : proc'.stopped = false → proc.stopped = false := by
    intro live
    rcases stopped_step shaped h hp hp' with same | rfl
    · exact same.symm.trans live
    · cases step_happens h with
      | stop hq =>
        rw [World.setProc, ConsistencyLemmas.mem_set hq] at hp'
        obtain rfl := Option.some.inj hp'
        cases live
  refine ⟨⟨proc', hp', run'.trans run, worker'.trans worker,
    overtaken_stays shaped h run' worker' overtaken⟩, fun other hother live => ?_,
    fun other hother live => ?_, fun other hother live c b rec' t' at' => ?_⟩
  · obtain rfl := unique other hother
    have live := lives live
    refine (claimant_step h (inv.passed proc hp live)).resolve_right ?_
    rintro ⟨locked, claim, rfl, mem, rfl⟩
    have again := ok claim mem p (List.getElem?_eq_some_iff.mp hp).1 proc hp run live
      (by rw [worker]; rfl)
    rw [if_pos worker, overtaken] at again
    cases again
  · obtain rfl := unique other hother
    have was := inv.main proc hp (lives live)
    cases attempt_cases shaped h hp' with
    | same old | beat _ _ old | refused _ old | call _ old | stop _ old =>
      obtain rfl := Option.some.inj (hp.symm.trans old)
      exact was
    | fresh none => cases hp.symm.trans none
    | task _ acts =>
      obtain rfl := Option.some.inj (hp.symm.trans acts.hp)
      exact was
    | @main proc₁ ans o k r loc is acts hmain =>
      subst is
      obtain rfl := Option.some.inj (hp.symm.trans acts.hp)
      have stale : proc.phase.stale = true :=
        was.resolve_right (by rw [hmain]; exact Option.some_ne_none _)
      exact .inl (phase_next acts.may acts.run (ok proc hp overtaken) stale)
  · obtain rfl := unique other hother
    cases task_cases shaped h hp' at' with
    | same old at_ _ _ alive =>
      obtain rfl := Option.some.inj (hp.symm.trans old)
      exact inv.tasks proc hp (alive live) c b _ t' at_
    | @moved _ rec t ans o k r is old alive at_ _ hprog hexec may =>
      obtain rfl := Option.some.inj (hp.symm.trans old)
      obtain ⟨past, mine⟩ := inv.tasks proc hp alive c b rec t at_
      have guarded : proc.loc.guarded = true := by
        rw [Local.guarded, worker]
        rfl
      have refused : o = .heartbeat → ¬ HEq r (Except.ok (ε := Exn) true) := by
        rintro rfl passed
        obtain rfl := eq_of_heq passed
        exact inv.passed proc hp alive (run ▸ heartbeat_passes owned worker hexec)
      obtain ⟨past', opens⟩ := stage_next guarded may refused past
      exact ⟨past', fun _ window => mine (by rw [Task.ended, hprog]; rfl) (opens window)⟩
    | called => exact ⟨rfl, fun _ window => by cases window⟩

/-- Who has been taken over is stale. -/
theorem stale_claimed {worker : String} {locked : List Uuid}
    (h : w.step cfg (.claim worker locked) = some w') (ok : handsOver cfg w (.claim worker locked))
    (took : (w.store.claim w.now worker cfg.leaseSeconds locked).1.map (·.runId) =
      some proc.loc.runId)
    (hp : w.procs[p]? = some proc) (owner : proc.loc.worker = some own) (other : own ≠ worker) :
    w'.Stale p proc.loc.runId own proc.inFlight := by
  have there := (List.getElem?_eq_some_iff.mp hp).1
  cases step_happens h with
  | @claim _ _ claim store done =>
    rw [done] at took
    have run : claim.runId = proc.loc.runId := Option.some.inj took
    have still : (w.procs ++ [Proc.claimed cfg worker claim.runId])[p]? = some proc :=
      (List.getElem?_append_left there).trans hp
    have unique : ∀ {new : Proc},
        (w.procs ++ [Proc.claimed cfg worker claim.runId])[p]? = some new → new = proc :=
      fun hnew => Option.some.inj (hnew.symm.trans still)
    have yields : proc.stopped = false → proc.yields = true := by
      intro live
      have held := ok claim (by rw [done]; rfl) p there proc hp run.symm live (by rw [owner]; rfl)
      rwa [if_neg (by rw [owner]; exact fun is => other (Option.some.inj is))] at held
    refine ⟨⟨proc, still, rfl, owner, ?_⟩, fun new hnew _ => ?_, fun new hnew live => ?_,
      fun new hnew live c b rec t at_ => ?_⟩
    · refine overtaken_iff.mpr ⟨_, _, there, List.getElem?_concat_length, run, rfl, ?_⟩
      rw [owner]
      exact fun is => other (Option.some.inj is).symm
    · rw [World.claimant, claims_claimed rfl, if_pos run.symm, List.getLast?_concat]
      exact fun is => other (Option.some.inj is).symm
    · obtain rfl := unique hnew
      have yields := yields live
      simp only [Proc.yields, Bool.and_eq_true, Bool.or_eq_true, Option.isNone_iff_eq_none]
        at yields
      exact yields.1
    · obtain rfl := unique hnew
      have yields := yields live
      simp only [Proc.yields, Bool.and_eq_true, List.all_eq_true, Bool.not_eq_true'] at yields
      refine ⟨yields.2 rec (List.mem_of_getElem? at_.1) t (List.mem_of_getElem? at_.2),
        fun going window => ?_⟩
      refine List.mem_flatMap.mpr ⟨rec, List.mem_of_getElem? at_.1, List.mem_map.mpr ⟨t, ?_, rfl⟩⟩
      exact List.mem_filter.mpr ⟨List.mem_of_getElem? at_.2, by rw [going, window]; rfl⟩

/-! What a stale attempt writes. -/

theorem phase_silent {phase : Phase} {o : Op} (may : phase.allowed o) (stale : phase.stale = true)
    (now : Int) (r : Ans o) : written now o r = [] ∧ stood o r = id ∧ o ≠ .dequeue := by
  have moves := Phase.moves may r
  generalize phase.next o r = phase' at moves
  cases moves with
  | leave | release | stopHeartbeat | snapshot => exact ⟨rfl, rfl, nofun⟩
  | raise may failed =>
    cases phase with
    | inside =>
      obtain ⟨_, _, rfl⟩ := may
      exact ⟨rfl, rfl, nofun⟩
    | standing | failing =>
      rcases may with rfl | rfl
      · exact ⟨rfl, rfl, nofun⟩
      · exact ⟨rfl, rfl, nofun⟩
    | _ => cases stale
  | _ => cases stale

/-- A step writes no status, and leaves the queue alone. -/
theorem step_stands {s : StepSetup} {stage : Stage} {o : Op} (may : s.allowed stage o) (r : Ans o) :
    stood o r = id ∧ o ≠ .dequeue := by
  refine ⟨?_, ?_⟩
  · unfold stood
    split
    · cases stage <;> simp_all [StepSetup.allowed]
    · rfl
  · rintro rfl
    cases stage <;> simp_all [StepSetup.allowed]

/-- What a step writes that is past no check and is not tried again is how it ends. -/
theorem event_closes {s : StepSetup} {stage : Stage} {key : Option String} {payload : Payload}
    (may : s.allowed stage (.appendEvent key payload)) (past : stage.pastCheck = false)
    (once : stage.retries s.attempts = false) :
    payload.closes = true ∧ stage.hasWindow = true := by
  have moves := StepSetup.moves may (.ok none)
  generalize s.next stage (.appendEvent key payload) (.ok none) = stage' at moves
  cases moves with
  | resolve | complete | fail => exact ⟨rfl, rfl⟩
  | again => cases once
  | start => cases past
  | retry _ _ left => simp [Stage.retries, left] at once
  | invoked _ _ trailing | called _ trailing =>
    cases payload <;> first | exact trailing.elim | exact ⟨rfl, rfl⟩
  | raise _ failed => cases failed

/-- A heartbeat is the one statement of its task. -/
theorem beat_store {q : Nat} {ans : Answer} (h : w.step cfg (.beat q ans) = some w') :
    w'.store = w.store ∨ ∃ runId worker,
      w'.store = (w.store.heartbeat w.now runId worker cfg.leaseSeconds).2 := by
  cases step_happens h with
  | beat _ _ _ _ store => exact store.imp id fun same => ⟨_, _, same⟩

theorem stands_down_step (numbered : w.store.Numbered)
    (shaped : ∀ (p : Nat) (proc : Proc), w.procs[p]? = some proc → proc.Shaped cfg)
    (h : w.step cfg a = some w') (ok : handsOver cfg w a)
    (mine : a.actor = some p ∨ ∃ ans, a = .beat p ans) (inv : w.Stale p j own keys) :
    w.StandsDown w' j keys := by
  obtain ⟨proc, hp, run, -, overtaken⟩ := inv.owner
  have idle : w'.store = w.store → w.StandsDown w' j keys := by
    intro same
    refine ⟨⟨[], ?_, fun _ mem => absurd mem List.not_mem_nil⟩, ?_, fun queued => ?_⟩
    · rw [same, List.append_nil]
    · rw [same]
    · rw [same]
      exact queued
  cases a with
  | main q ans =>
    obtain rfl : q = p := mine.elim Option.some.inj (fun is => by obtain ⟨_, is⟩ := is; cases is)
    obtain ⟨proc₁, o, r, loc, acts⟩ := main_acts shaped h
    obtain rfl := Option.some.inj (hp.symm.trans acts.hp)
    obtain ⟨k, hmain, -⟩ := acts.after
    have stale := (inv.main proc hp acts.alive).resolve_right
      (by rw [hmain]; exact Option.some_ne_none _)
    obtain ⟨silent, still, queue⟩ := phase_silent acts.may stale w.now r
    have standing := exec_standing acts.run j
    refine ⟨⟨[], ?_, fun _ mem => absurd mem List.not_mem_nil⟩, ?_, fun queued => ?_⟩
    · rw [acts.log numbered, silent, ite_self]
    · rw [standing.1, still, Option.map_id, id, ite_self]
    · exact (standing.2 queued).resolve_right fun is => queue is.1
  | task q c b ans =>
    obtain rfl : q = p := mine.elim Option.some.inj (fun is => by obtain ⟨_, is⟩ := is; cases is)
    obtain ⟨proc₁, rec, t, o, r, loc, acts⟩ := task_acts shaped h
    obtain rfl := Option.some.inj (hp.symm.trans acts.hp)
    obtain ⟨past, own⟩ := inv.tasks proc hp acts.alive c b rec t acts.at_
    obtain ⟨still, queue⟩ := step_stands acts.may r
    have standing := exec_standing acts.run j
    refine ⟨⟨_, acts.log numbered j, fun e mem => ?_⟩, ?_, fun queued => ?_⟩
    · rw [run, if_pos rfl] at mem
      obtain ⟨_, rfl, -⟩ := InvocationLemmas.written_event mem
      have once := ok proc hp rec acts.at_.1 t acts.at_.2 overtaken
      obtain ⟨closes, window⟩ := event_closes acts.may past once
      exact ⟨closes, t.key, own (OutlivingLemmas.acts_active acts) window,
        InvocationLemmas.allowed_key acts.may⟩
    · rw [standing.1, still, Option.map_id, id, ite_self]
    · exact (standing.2 queued).resolve_right fun is => queue is.1
  | call =>
    cases step_happens h with
    | refused | call => exact idle rfl
  | beat q ans =>
    rcases beat_store h with same | ⟨runId, worker, same⟩
    · exact idle same
    · obtain ⟨standing, queue⟩ :=
        heartbeat_standing w.store w.now runId worker cfg.leaseSeconds j
      have log := (heartbeat_log numbered w.now runId worker cfg.leaseSeconds).2 j
      rw [← same] at standing queue log
      refine ⟨⟨[], ?_, fun _ mem => absurd mem List.not_mem_nil⟩, standing, fun queued => ?_⟩
      · rw [log, List.append_nil]
      · rw [queue]
        exact queued
  | _ => exact mine.elim nofun (fun is => by obtain ⟨_, is⟩ := is; cases is)

end TakeoverLemmas

open TakeoverLemmas

/-- A previous owner stands down: where runs are handed over only from attempts with nothing past
the last look at their lease, an attempt that another worker has taken its run from does nothing
for the run but record how the steps it had in flight end. -/
theorem stale_stands_down {cfg : Config} {now : Int} {w₁ w₂ w₃ w₄ : World} {worker own : String}
    {locked : List Uuid} {p : Nat} {proc : Proc} {a : Action}
    (h : Reaches (World.step cfg) (handsOver cfg) (.init now) w₁)
    (hp : w₁.procs[p]? = some proc) (owner : proc.loc.worker = some own) (other : own ≠ worker)
    (ok : handsOver cfg w₁ (.claim worker locked))
    (claims : w₁.step cfg (.claim worker locked) = some w₂)
    (took : (w₁.store.claim w₁.now worker cfg.leaseSeconds locked).1.map (·.runId) =
      some proc.loc.runId)
    (later : Reaches (World.step cfg) (handsOver cfg) w₂ w₃)
    (mine : a.actor = some p ∨ ∃ ans, a = .beat p ans) (good : handsOver cfg w₃ a)
    (acts : w₃.step cfg a = some w₄) :
    w₃.StandsDown w₄ proc.loc.runId proc.inFlight := by
  have reached := h.tail ok claims
  have stale : w₃.Stale p proc.loc.runId own proc.inFlight := by
    clear good acts
    induction later with
    | refl => exact stale_claimed claims ok took hp owner other
    | tail later good step ih =>
      have reached := reached.trans later
      exact stale_step (fun _ _ => shaped_reaches reached) (owned_reaches reached) step good ih
  have reached := reached.trans later
  exact stands_down_step (numbered_reaches reached) (fun _ _ => shaped_reaches reached) acts good
    mine stale

namespace Sample

/-- A worker that is in the body of a step when its lease lapses. -/
def lapsedInBody : List Action :=
  opening ++ [calls 0 "x" .atLeastOnce] ++ advance 0 0 7 ++ [.tick 31000000]

/-- Another worker starts on the run, and the body of the first one returns. -/
def bodyReturns : List Action := proceed 1 4 ++ [.task 0 0 0 (.value (.int 5))]

/-- The first attempt is of this worker, has one step in flight, and the other claims its run. -/
def ownedBy (own worker : String) (w : World) : Bool :=
  w.procs[0]?.any fun proc => proc.loc.worker = some own &&
    (w.store.claim w.now worker cfg.leaseSeconds []).1.map (·.runId) = some proc.loc.runId &&
    proc.inFlight = ["x#1"]

/-- After the claim the body returns, and its step goes on. -/
def goesOn (w : World) : Bool :=
  (w.step cfg (.claim "b" [])).any fun w₂ =>
    (run (World.step cfg) (handsOver cfg) w₂ bodyReturns).any fun w₃ =>
      decide (handsOver cfg w₃ (.task 0 0 0 .done)) && (w₃.step cfg (.task 0 0 0 .done)).isSome

/-- A worker whose workflow returns after its lease has lapsed, and another has claimed the run
and not begun. -/
def stillFinishes : List Action :=
  opening ++ [.tick 31000000, .claim "b" [], .main 0 (.value (.int 5))] ++ proceed 0 7

end Sample

theorem stale_stands_down_closing : ∃ (w₁ w₂ w₃ w₄ : World) (proc : Proc),
    run (World.step Sample.cfg) (handsOver Sample.cfg) (.init 0) Sample.lapsedInBody = some w₁ ∧
    w₁.procs[0]? = some proc ∧ proc.loc.worker = some "a" ∧ "a" ≠ "b" ∧
    w₁.step Sample.cfg (.claim "b" []) = some w₂ ∧
    run (World.step Sample.cfg) (handsOver Sample.cfg) w₂ Sample.bodyReturns = some w₃ ∧
    w₃.step Sample.cfg (.task 0 0 0 .done) = some w₄ ∧
    proc.inFlight = ["x#1"] ∧ w₃.StandsDown w₄ proc.loc.runId proc.inFlight := by
  obtain ⟨w₁, ran, first, ok, rest⟩ := run_exists (World.step Sample.cfg)
    (handsOver Sample.cfg) (.init 0) Sample.lapsedInBody
    (fun w => Sample.ownedBy "a" "b" w = true ∧ handsOver Sample.cfg w (.claim "b" []) ∧
      Sample.goesOn w = true) (by decide +kernel)
  obtain ⟨proc, hp, is⟩ := (Option.any_eq_true _ _).mp first
  simp only [Bool.and_eq_true, decide_eq_true_eq] at is
  obtain ⟨⟨owner, took⟩, inFlight⟩ := is
  obtain ⟨w₂, claims, rest⟩ := (Option.any_eq_true _ _).mp rest
  obtain ⟨w₃, later, rest⟩ := (Option.any_eq_true _ _).mp rest
  rw [Bool.and_eq_true, decide_eq_true_eq] at rest
  obtain ⟨w₄, acts⟩ := Option.isSome_iff_exists.mp rest.2
  exact ⟨w₁, w₂, w₃, w₄, proc, ran, hp, owner, by decide, claims, later, acts, inFlight,
    stale_stands_down (run_reaches ran) hp owner (by decide) ok claims took (run_reaches later)
      (.inl rfl) rest.1 acts⟩

/-- The first worker appends RunCompleted, writes COMPLETED and takes the run off the queue, which
the second one has claimed and not begun. -/
theorem stale_concludes : ∃ w,
    run (World.step Sample.cfg) (fun _ _ => True) (.init 0) Sample.stillFinishes = some w ∧
    w.claims Sample.runId = ["a", "b"] ∧
    (w.procs[1]?.any fun proc => !proc.started) = true ∧
    (w.store.getRun Sample.runId).map (·.status) = some .completed ∧
    (w.store.runQueue.find Sample.runId).isNone = true :=
  run_exists (World.step Sample.cfg) (fun _ _ => True) (.init 0) Sample.stillFinishes
    (fun w => w.claims Sample.runId = ["a", "b"] ∧
      (w.procs[1]?.any fun proc => !proc.started) = true ∧
      (w.store.getRun Sample.runId).map (·.status) = some .completed ∧
      (w.store.runQueue.find Sample.runId).isNone = true) (by decide +kernel)

end AnchorRuntime
