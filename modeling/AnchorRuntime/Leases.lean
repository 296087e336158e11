import AnchorRuntime.Guards
import AnchorRuntime.Rereading
import AnchorRuntime.Lib.Fragment

/-!
# Leases

Attempts of a run follow one another when each acts only as long as it counts on its lease. What
an attempt can know of the lease is the time of its claim, or of the last heartbeat that returned
True, and the length of a lease. Worker ids play no part: a worker may claim a run that it has lost.

Results: `leases_sequence`, a run of the system in which attempts keep to this is, up to attempts
that no longer act, one in which attempts follow one another.
-/

namespace AnchorRuntime

open Effect Machine Relational Slots

/-! ## What attempts know of their leases -/

/-- The system, and until when each attempt counts on its lease: never again once it has given the
run back. -/
structure Fleet where
  world : World
  leases : List (Option Int)

def Fleet.init (now : Int) : Fleet := ⟨.init now, []⟩

/-- The operation a program waits for. -/
def awaited {α : Type} : Code α → Option Op
  | .step o _ => some o
  | _ => none

/-- The program waits for the end of the heartbeat task. -/
def awaitsBeat {α : Type} : Code α → Bool
  | .step .stopHeartbeat _ => true
  | _ => false

/-- The attempt that performs an operation of its own, the operation and its answer. -/
def World.performs (w : World) : Action → Option (Nat × Proc × Op × Answer)
  | .beat p ans => (w.procs[p]?).map fun proc => (p, proc, .heartbeat, ans)
  | .main p ans => (w.procs[p]?).bind fun proc =>
    (awaited proc.main).map fun o => (p, proc, o, ans)
  | .task p c b ans => (w.procs[p]?).bind fun proc => (proc.task? c b).bind fun t =>
    (awaited t.prog).map fun o => (p, proc, o, ans)
  | _ => none

/-- Until when an attempt counts on its lease once an operation has been answered. -/
def reckoned (cfg : Config) (now : Int) : (o : Op) → Ans o → Option Int → Option Int
  | .heartbeat, .ok true, _ => some (now + cfg.leaseSeconds)
  | .release, _, _ => none
  | _, _, until_ => until_

/-- What an attempt knows of its lease after an operation. -/
def World.knows (cfg : Config) (w : World) (proc : Proc) (o : Op) (ans : Answer)
    (until_ : Option Int) : Option Int :=
  match exec cfg w.now w.store proc.loc ans o with
  | some (r, _, _) => reckoned cfg w.now o r until_
  | none => until_

/-- The attempt whose next operation an action is. -/
def Action.operator : Action → Option Nat
  | .beat p _ | .main p _ | .task p _ _ _ => some p
  | _ => none

def Fleet.after (cfg : Config) (s : Fleet) : Action → List (Option Int)
  | .claim _ _ => s.leases ++ [some (s.world.now + cfg.leaseSeconds)]
  | .execute _ => s.leases ++ [none]
  | a =>
    match s.world.performs a with
    | some (p, proc, o, ans) => s.leases.modify p (s.world.knows cfg proc o ans)
    | none => s.leases

def Fleet.step (cfg : Config) (s : Fleet) (a : Action) : Option Fleet :=
  (s.world.step cfg a).map fun world => ⟨world, s.after cfg a⟩

/-- The attempt counts on its lease now. -/
def Fleet.counts (s : Fleet) (p : Nat) : Bool := (s.leases[p]?.join).any (s.world.now ≤ ·)

/-- Engines are run by workers, and an attempt acts only as long as it counts on its lease. What it
may do later is to await the end of its heartbeat task. -/
def timely (s : Fleet) : Action → Prop
  | .execute _ => False
  | .beat p _ | .task p _ _ _ | .call p _ _ _ => s.counts p = true
  | .main p _ => s.counts p = true ∨
      (s.world.procs[p]?).any (fun proc => awaitsBeat proc.main) = true
  | _ => True

instance (s : Fleet) (a : Action) : Decidable (timely s a) :=
  match a with
  | .execute _ => .isFalse id
  | .beat p _ | .task p _ _ _ | .call p _ _ _ => inferInstanceAs (Decidable (s.counts p = true))
  | .main p _ => inferInstanceAs (Decidable (s.counts p = true ∨
      (s.world.procs[p]?).any (fun proc => awaitsBeat proc.main) = true))
  | .submit _ _ _ _ _ | .cancel _ | .tick _ | .claim _ _ | .stop _ => .isTrue trivial

/-! ## What the rows of the queue say -/

/-- The attempt that counts on a lease has it: the row is locked for that long, and no other
attempt of the run counts on one. -/
structure Fleet.Sound (s : Fleet) : Prop where
  length : s.leases.length = s.world.procs.length
  rows : ∀ (p : Nat) (proc : Proc), s.world.procs[p]? = some proc →
    (s.world.store.getRun proc.loc.runId).isSome = true
  queued : ∀ j, (s.world.store.runQueue.find j).isSome = true →
    (s.world.store.getRun j).isSome = true
  locked : ∀ (p : Nat) (proc : Proc) (t : Int), s.world.procs[p]? = some proc →
    s.leases[p]? = some (some t) → s.world.now ≤ t →
    ∀ row, s.world.store.runQueue.find proc.loc.runId = some row →
      ∃ e, row.lockedUntil = some e ∧ t ≤ e
  single : ∀ (p q : Nat) (proc other : Proc), s.world.procs[p]? = some proc →
    s.world.procs[q]? = some other → s.counts p = true → s.counts q = true →
    other.loc.runId = proc.loc.runId → q = p

/-- What an operation does to the row of its run, and to what its attempt knows of the lease. -/
inductive RowMoves (cfg : Config) (now : Int) :
    (o : Op) → Ans o → Option QueueRow → Option QueueRow → Prop
  | same {o : Op} {r : Ans o} {row : Option QueueRow} :
      (∀ until_, reckoned cfg now o r until_ = until_) → RowMoves cfg now o r row row
  | renewed {row : QueueRow} : RowMoves cfg now .heartbeat (.ok true) (some row)
      (some { row with lockedUntil := some (now + cfg.leaseSeconds) })
  | released {r : Ans .release} {row row' : Option QueueRow} : RowMoves cfg now .release r row row'
  | removed {r : Ans .dequeue} {row : Option QueueRow} : RowMoves cfg now .dequeue r row none

namespace LeaseLemmas

variable {cfg : Config} {now : Int} {st st' : Store} {loc loc' : Local} {ans : Answer}
  {w w' v : World} {a : Action} {s s' : Fleet} {p q : Nat} {proc proc' other : Proc}

theorem counts_iff : s.counts p = true ↔ ∃ t, s.leases[p]? = some (some t) ∧ s.world.now ≤ t := by
  unfold Fleet.counts
  cases h : s.leases[p]? with
  | none => simp
  | some known => cases known <;> simp

theorem awaitsBeat_step {α : Type} {o : Op} {k : Ans o → Code α}
    (h : awaitsBeat (.step o k : Code α) = true) : o = .stopHeartbeat := by
  cases o <;> first | rfl | cases h

theorem idle_moves {o : Op} {r : Ans o} (idle : ¬ writes o r) (row : Option QueueRow) :
    RowMoves cfg now o r row row := by
  cases o with
  | heartbeat =>
    cases r with
    | error exc => exact .same fun _ => rfl
    | ok held => exact absurd trivial idle
  | release => exact .released
  | _ => exact .same fun _ => rfl

theorem run_there {o : Op} {r : Ans o} (run : exec cfg now st loc ans o = some (r, st', loc'))
    (j : Uuid) : (st'.getRun j).isSome = (st.getRun j).isSome := by
  have standing := congrArg Option.isSome (exec_standing run j).1
  by_cases own : j = loc.runId
  · simpa [own, Store.standing] using standing
  · simpa [own, Store.standing] using standing

/-- What an operation does to the queue. -/
theorem exec_queue {o : Op} {r : Ans o} (run : exec cfg now st loc ans o = some (r, st', loc')) :
    (∀ j, j ≠ loc.runId → st'.runQueue.find j = st.runQueue.find j) ∧
      RowMoves cfg now o r (st.runQueue.find loc.runId) (st'.runQueue.find loc.runId) := by
  have still : ∀ {s : Store}, s.runQueue = st.runQueue →
      (∀ until_, reckoned cfg now o r until_ = until_) →
      (∀ j, j ≠ loc.runId → s.runQueue.find j = st.runQueue.find j) ∧
        RowMoves cfg now o r (st.runQueue.find loc.runId) (s.runQueue.find loc.runId) := by
    intro s same keeps
    rw [same]
    exact ⟨fun _ _ => rfl, .same keeps⟩
  rcases exec_store run with ⟨rfl, idle⟩ | wrote
  · exact ⟨fun _ _ => rfl, idle_moves idle _⟩
  · cases wrote with
    | appendEvent ok => exact still (appendEvent_standing ok loc.runId).2 fun _ => rfl
    | setStatus ok => exact still (setStatus_standing ok loc.runId).2 fun _ => rfl
    | bumpAttempt | saveUsage => exact still rfl fun _ => rfl
    | @heartbeat worker =>
      rcases heartbeat_row st now loc.runId worker cfg.leaseSeconds with
        same | ⟨row, store, beat, -, found, -, rows⟩
      · rw [same]
        exact ⟨fun _ _ => rfl, .same fun _ => rfl⟩
      · rw [beat]
        refine ⟨fun j ne => (rows j).trans (if_neg ne), ?_⟩
        rw [rows, if_pos rfl, found]
        exact .renewed
    | @release worker =>
      rcases release_row st now loc.runId worker cfg.pollIntervalSeconds with
        ⟨same, -⟩ | ⟨-, row, -, -, rows⟩
      · rw [same]
        exact ⟨fun _ _ => rfl, .released⟩
      · exact ⟨fun j ne => (rows j).trans (if_neg ne), .released⟩
    | dequeue =>
      refine ⟨fun j ne => ?_, ?_⟩
      · rw [Store.dequeue, Table.find_delete, if_neg ne]
      · rw [Store.dequeue, Table.find_delete, if_pos rfl]
        exact .removed

/-! ## Steps of the fleet -/

theorem fleet_step (h : s.step cfg a = some s') :
    s.world.step cfg a = some s'.world ∧ s'.leases = s.after cfg a := by
  obtain ⟨world, moved, rfl⟩ := Option.map_eq_some_iff.mp h
  exact ⟨moved, rfl⟩

/-- An attempt that performs an operation has it answered. -/
structure Performs (cfg : Config) (w w' : World) (p : Nat) (proc proc' : Proc) (ans : Answer)
    (o : Op) (r : Ans o) (loc : Local) : Prop where
  hp : w.procs[p]? = some proc
  run : exec cfg w.now w.store proc.loc ans o = some (r, w'.store, loc)
  runId : proc'.loc.runId = proc.loc.runId
  procs : w'.procs = w.procs.set p proc'
  now : w'.now = w.now

theorem beat_acts {ans : Answer} (h : w.step cfg (.beat p ans) = some w') :
    ∃ proc proc' r, Performs cfg w w' p proc proc' ans .heartbeat r proc.loc := by
  simp only [World.step, Option.bind_eq_bind, Option.bind_eq_some_iff] at h
  obtain ⟨proc, hp, worker, known, h⟩ := h
  split at h
  · cases h
  · split at h
    · obtain ⟨⟨r, store, loc⟩, called, h⟩ := Option.bind_eq_some_iff.mp h
      cases h
      obtain ⟨rfl, -⟩ := ExecLemmas.storeCall_cases called
      have run : exec cfg w.now w.store proc.loc ans .heartbeat = some (r, store, proc.loc) := by
        simp only [exec, known, Option.bind_some]
        exact called
      refine ⟨proc, _, r, hp, run, ?_, rfl, rfl⟩
      rfl
    · cases h

theorem after_performs {o : Op} (performs : s.world.performs a = some (p, proc, o, ans)) :
    s.after cfg a = s.leases.modify p (s.world.knows cfg proc o ans) := by
  cases a with
  | beat | main | task => simp only [Fleet.after, performs]
  | submit | cancel | tick | claim | execute | call | stop => cases performs

theorem knows_reckoned {o : Op} {r : Ans o} {store : Store}
    (run : exec cfg w.now w.store proc.loc ans o = some (r, store, loc)) :
    w.knows cfg proc o ans = reckoned cfg w.now o r := by
  funext until_
  simp only [World.knows, run]

/-- An operation of an attempt, and what the attempt then knows of its lease. -/
theorem performed (h : s.step cfg a = some s') (operates : a.operator = some p) :
    ∃ proc proc' ans o r loc, Performs cfg s.world s'.world p proc proc' ans o r loc ∧
      s'.leases = s.leases.modify p (reckoned cfg s.world.now o r) ∧
      (timely s a → s.counts p = true ∨ o = .stopHeartbeat) := by
  obtain ⟨world, moved, rfl⟩ := Option.map_eq_some_iff.mp h
  cases a with
  | beat q ans =>
    cases operates
    obtain ⟨proc, proc', r, acts⟩ := beat_acts moved
    refine ⟨proc, proc', ans, _, r, _, acts, ?_, .inl⟩
    have performs : s.world.performs (.beat p ans) = some (p, proc, .heartbeat, ans) := by
      rw [World.performs, acts.hp, Option.map_some]
    rw [← knows_reckoned acts.run]
    exact after_performs performs
  | main q ans =>
    cases operates
    cases step_happens moved with
    | @main _ _ proc o k r store loc hp alive main run =>
      refine ⟨proc, _, ans, o, r, loc, ⟨hp, run, (exec_ctx run).1, rfl, rfl⟩, ?_, ?_⟩
      · have performs : s.world.performs (.main p ans) = some (p, proc, o, ans) := by
          rw [World.performs, hp, Option.bind_some, main]
          rfl
        rw [← knows_reckoned run]
        exact after_performs performs
      · simp only [timely, hp, main, Option.any_some]
        exact fun may => may.imp_right awaitsBeat_step
  | task q c b ans =>
    cases operates
    cases step_happens moved with
    | @task _ _ _ _ proc rec t o k r store loc hp alive hrec ht hprog run =>
      refine ⟨proc, _, ans, o, r, loc, ⟨hp, run, (exec_ctx run).1, rfl, rfl⟩, ?_, .inl⟩
      have task : proc.task? c b = some t := by rw [Proc.task?, hrec, Option.bind_some, ht]
      have performs : s.world.performs (.task p c b ans) = some (p, proc, o, ans) := by
        rw [World.performs, hp, Option.bind_some, task, Option.bind_some, hprog]
        rfl
      rw [← knows_reckoned run]
      exact after_performs performs
  | submit | cancel | tick | claim | execute | call | stop => cases operates

/-! ## The invariant -/

/-- What an attempt knew of its lease before another or itself has learned more. -/
theorem known_before {f : Option Int → Option Int} {t : Int}
    (leases : s'.leases = s.leases.modify p f) (known : s'.leases[q]? = some (some t)) :
    (q = p ∧ ∃ until_, s.leases[p]? = some until_ ∧ f until_ = some t) ∨
      (q ≠ p ∧ s.leases[q]? = some (some t)) := by
  rw [leases, List.getElem?_modify] at known
  obtain ⟨until_, known, same⟩ := Option.map_eq_some_iff.mp known
  by_cases own : p = q
  · subst own
    rw [if_pos rfl] at same
    exact .inl ⟨rfl, until_, known, same⟩
  · rw [if_neg own] at same
    exact .inr ⟨Ne.symm own, same ▸ known⟩

theorem counts_before {o : Op} {r : Ans o} (now : s'.world.now = s.world.now)
    (leases : s'.leases = s.leases.modify p (reckoned cfg s.world.now o r))
    (may : s.counts p = true ∨ o = .stopHeartbeat) (counts : s'.counts q = true) :
    s.counts q = true := by
  obtain ⟨t, known, later⟩ := counts_iff.mp counts
  rw [now] at later
  rcases known_before leases known with ⟨rfl, until_, known, same⟩ | ⟨-, known⟩
  · rcases may with held | rfl
    · exact held
    · exact counts_iff.mpr ⟨t, known.trans (congrArg some same), later⟩
  · exact counts_iff.mpr ⟨t, known, later⟩

/-- The row of the run stays locked, when the attempt that counts on its lease is the one that
acts. -/
theorem row_locked {o : Op} {r : Ans o} {row row' : Option QueueRow} {t : Int} {new : QueueRow}
    (moves : RowMoves cfg now o r row row') (mine : q = p ∨ o = .stopHeartbeat)
    (known : (q = p ∧ ∃ until_, s.leases[p]? = some until_ ∧ reckoned cfg now o r until_ = some t) ∨
      (q ≠ p ∧ s.leases[q]? = some (some t)))
    (locked : ∀ old, row = some old → s.leases[q]? = some (some t) →
      ∃ e, old.lockedUntil = some e ∧ t ≤ e) (found : row' = some new) :
    ∃ e, new.lockedUntil = some e ∧ t ≤ e := by
  cases moves with
  | same keeps =>
    refine locked new found ?_
    rcases known with ⟨rfl, until_, known, same⟩ | ⟨-, known⟩
    · rw [known, ← same, keeps]
    · exact known
  | renewed =>
    obtain rfl := mine.resolve_right nofun
    obtain ⟨-, until_, -, same⟩ := known.resolve_right fun other => other.1 rfl
    cases found
    cases same
    exact ⟨_, rfl, le_rfl⟩
  | released =>
    obtain rfl := mine.resolve_right nofun
    obtain ⟨-, until_, -, same⟩ := known.resolve_right fun other => other.1 rfl
    cases same
  | removed => cases found

/-- An operation of an attempt that may act. -/
theorem sound_performs {o : Op} {r : Ans o} (sound : s.Sound)
    (acts : Performs cfg s.world s'.world p proc proc' ans o r loc)
    (leases : s'.leases = s.leases.modify p (reckoned cfg s.world.now o r))
    (may : s.counts p = true ∨ o = .stopHeartbeat) : s'.Sound := by
  obtain ⟨others, moves⟩ := exec_queue acts.run
  have there := run_there acts.run
  have back : ∀ {q : Nat} {other : Proc}, s'.world.procs[q]? = some other →
      ∃ old, s.world.procs[q]? = some old ∧ old.loc.runId = other.loc.runId := by
    intro q other hq
    rw [acts.procs] at hq
    rcases ShapeLemmas.procs_set hq with ⟨rfl, rfl⟩ | ⟨-, old⟩
    · exact ⟨proc, acts.hp, acts.runId.symm⟩
    · exact ⟨other, old, rfl⟩
  refine ⟨?_, ?_, ?_, ?_, ?_⟩
  · rw [leases, acts.procs, List.length_modify, List.length_set]
    exact sound.length
  · intro q other hq
    obtain ⟨old, hold, run⟩ := back hq
    rw [there, ← run]
    exact sound.rows q old hold
  · intro j queued
    rw [there]
    by_cases own : j = proc.loc.runId
    · exact own ▸ sound.rows p proc acts.hp
    · exact sound.queued j (by rwa [others j own] at queued)
  · intro q other t hq known later row found
    obtain ⟨old, hold, run⟩ := back hq
    have counts := counts_before acts.now leases may (counts_iff.mpr ⟨t, known, later⟩)
    have before := known_before leases known
    rw [acts.now] at later
    rw [← run] at found
    by_cases own : old.loc.runId = proc.loc.runId
    · have mine : q = p ∨ o = .stopHeartbeat :=
        may.imp_left fun held => sound.single p q proc old acts.hp hold held counts own
      rw [own] at found
      refine row_locked moves mine before (fun row there known => ?_) found
      exact sound.locked q old t hold known later row (own ▸ there)
    · rw [others _ own] at found
      obtain ⟨-, known⟩ := before.resolve_left fun ⟨same, _⟩ => own
        (congrArg (·.loc.runId) (Option.some.inj ((same ▸ hold).symm.trans acts.hp)))
      exact sound.locked q old t hold known later row found
  · intro x y first second hx hy cx cy run
    obtain ⟨oldx, hoax, runx⟩ := back hx
    obtain ⟨oldy, hoay, runy⟩ := back hy
    exact sound.single x y oldx oldy hoax hoay (counts_before acts.now leases may cx)
      (counts_before acts.now leases may cy) (runy.trans (run.trans runx.symm))

/-- Time passes, and the runs, their rows and the attempts' knowledge stay. -/
theorem sound_still (sound : s.Sound) (leases : s'.leases = s.leases)
    (now : s.world.now ≤ s'.world.now)
    (procs : ∀ (q : Nat) (other : Proc), s'.world.procs[q]? = some other →
      ∃ old, s.world.procs[q]? = some old ∧ old.loc.runId = other.loc.runId)
    (length : s'.world.procs.length = s.world.procs.length)
    (runs : ∀ j, (s.world.store.getRun j).isSome = true →
      (s'.world.store.getRun j).isSome = true)
    (rows : ∀ j, (s'.world.store.runQueue.find j = s.world.store.runQueue.find j) ∨
      (s.world.store.getRun j = none ∧ (s'.world.store.getRun j).isSome = true)) : s'.Sound := by
  have before : ∀ {q : Nat}, s'.counts q = true → s.counts q = true := by
    intro q counts
    obtain ⟨t, known, later⟩ := counts_iff.mp counts
    exact counts_iff.mpr ⟨t, leases ▸ known, now.trans later⟩
  refine ⟨by rw [leases, length, sound.length], ?_, ?_, ?_, ?_⟩
  · intro q other hq
    obtain ⟨old, hold, run⟩ := procs q other hq
    exact runs _ (run ▸ sound.rows q old hold)
  · intro j queued
    rcases rows j with same | ⟨-, there⟩
    · exact runs j (sound.queued j (same ▸ queued))
    · exact there
  · intro q other t hq known later row found
    obtain ⟨old, hold, run⟩ := procs q other hq
    rw [← run] at found
    rcases rows old.loc.runId with same | ⟨absent, -⟩
    · exact sound.locked q old t hold (leases ▸ known) (now.trans later) row (same ▸ found)
    · cases absent ▸ sound.rows q old hold
  · intro x y first second hx hy cx cy run
    obtain ⟨oldx, hoax, runx⟩ := procs x first hx
    obtain ⟨oldy, hoay, runy⟩ := procs y second hy
    exact sound.single x y oldx oldy hoax hoay (before cx) (before cy)
      (runy.trans (run.trans runx.symm))

/-- A claim hands out a run no attempt of which counts on a lease. -/
theorem claim_free {worker : String} {locked : List Uuid} {claim : Claim} {store : Store}
    (sound : s.Sound)
    (claimed : s.world.store.claim s.world.now worker cfg.leaseSeconds locked =
      (some claim, store)) (hq : s.world.procs[q]? = some other)
    (own : other.loc.runId = claim.runId) : s.counts q = false := by
  by_contra counts
  obtain ⟨t, known, later⟩ := counts_iff.mp (Bool.of_not_eq_false counts)
  obtain ⟨-, row, found, free, -⟩ := claim_row claimed
  obtain ⟨e, lockedUntil, le⟩ := sound.locked q other t hq known later row (own ▸ found)
  simp only [Store.claimable, lockedUntil, Option.all_some, Bool.and_eq_true,
    decide_eq_true_eq] at free
  omega

theorem sound_claim {worker : String} {locked : List Uuid} {claim : Claim} {store : Store}
    (sound : s.Sound)
    (claimed : s.world.store.claim s.world.now worker cfg.leaseSeconds locked =
      (some claim, store))
    (world : s'.world = { s.world with
      store, procs := s.world.procs ++ [.claimed cfg worker claim.runId] })
    (leases : s'.leases = s.leases ++ [some (s.world.now + cfg.leaseSeconds)]) : s'.Sound := by
  obtain ⟨runs, row, found, -, rows⟩ := claim_row claimed
  have there : ∀ j, s'.world.store.getRun j = s.world.store.getRun j := fun j => by
    rw [world]
    exact congrArg (·.find j) runs
  have now : s'.world.now = s.world.now := by rw [world]
  have come : ∀ {q : Nat} {proc : Proc}, s'.world.procs[q]? = some proc →
      (q < s.leases.length ∧ s.world.procs[q]? = some proc ∧
        (s'.counts q = true → s.counts q = true)) ∨
      (q = s.leases.length ∧ proc = .claimed cfg worker claim.runId) := by
    intro q proc hq
    rw [world] at hq
    rcases concat_cases hq with old | ⟨rfl, rfl⟩
    · have small : q < s.leases.length := sound.length ▸ (List.getElem?_eq_some_iff.mp old).1
      refine .inl ⟨small, old, fun counts => ?_⟩
      obtain ⟨t, known, later⟩ := counts_iff.mp counts
      rw [leases, List.getElem?_append_left small] at known
      exact counts_iff.mpr ⟨t, known, now ▸ later⟩
    · exact .inr ⟨sound.length.symm, rfl⟩
  refine ⟨?_, ?_, ?_, ?_, ?_⟩
  · rw [leases, world, List.length_append, List.length_append, sound.length]
    rfl
  · intro q proc hq
    rw [there]
    rcases come hq with ⟨-, old, -⟩ | ⟨-, rfl⟩
    · exact sound.rows q proc old
    · exact sound.queued claim.runId (Option.isSome_iff_exists.mpr ⟨row, found⟩)
  · intro j queued
    rw [there]
    rw [world, show Table.find store.runQueue j = _ from rows j] at queued
    split at queued
    · next same => exact same ▸ sound.queued claim.runId (Option.isSome_iff_exists.mpr ⟨row, found⟩)
    · exact sound.queued j queued
  · intro q proc t hq known later new hnew
    rw [world, show Table.find store.runQueue proc.loc.runId = _ from rows _] at hnew
    rcases come hq with ⟨small, old, before⟩ | ⟨rfl, rfl⟩
    · have counts := before (counts_iff.mpr ⟨t, known, later⟩)
      rw [leases, List.getElem?_append_left small] at known
      split at hnew
      · next own => exact absurd counts (by simp [claim_free sound claimed old own])
      · exact sound.locked q proc t old known (now ▸ later) new hnew
    · rw [leases, List.getElem?_concat_length] at known
      cases known
      rw [if_pos (by rfl)] at hnew
      cases hnew
      exact ⟨_, rfl, le_rfl⟩
  · intro x y first second hx hy cx cy run
    rcases come hx with ⟨-, oldx, beforex⟩ | ⟨rfl, rfl⟩ <;>
      rcases come hy with ⟨-, oldy, beforey⟩ | ⟨rfl, rfl⟩
    · exact sound.single x y first second oldx oldy (beforex cx) (beforey cy) run
    · exact absurd (beforex cx) (by simp [claim_free sound claimed oldx run.symm])
    · exact absurd (beforey cy) (by simp [claim_free sound claimed oldy run])
    · rfl

theorem sound_step (sound : s.Sound) (may : timely s a) (h : s.step cfg a = some s') :
    s'.Sound := by
  have acts : ∀ {p : Nat}, a.operator = some p → s'.Sound := fun operates => by
    obtain ⟨proc, proc', ans, o, r, loc, acts, leases, mine⟩ := performed h operates
    exact sound_performs sound acts leases (mine may)
  obtain ⟨world, moved, rfl⟩ := Option.map_eq_some_iff.mp h
  have same : ∀ (q : Nat) (other : Proc), s.world.procs[q]? = some other →
      ∃ old, s.world.procs[q]? = some old ∧ old.loc.runId = other.loc.runId :=
    fun q other hq => ⟨other, hq, rfl⟩
  cases step_happens moved with
  | beat | main | task => exact acts rfl
  | execute => exact may.elim
  | tick => exact sound_still sound rfl (by simp) same rfl (fun _ => id) fun _ => .inl rfl
  | submit done =>
    refine sound_still sound rfl le_rfl same rfl (fun j there => ?_) fun j => ?_
    · rcases submitRun_row done j with ⟨runs, -⟩ | ⟨-, there, -⟩
      · exact runs.trans there
      · exact there
    · exact (submitRun_row done j).imp (·.2) fun new => ⟨new.1, new.2.1⟩
  | cancel done =>
    refine sound_still sound rfl le_rfl same rfl (fun j there => ?_) fun j => .inl ?_
    · have standing := congrArg Option.isSome (requestCancel_standing done j).1
      simpa [Store.standing, there] using standing
    · rw [(requestCancel_standing done j).2]
  | claim done => exact sound_claim sound done rfl rfl
  | call hp | refused hp | stop hp =>
    refine sound_still sound rfl le_rfl (fun q other hq => ?_) (List.length_set ..) (fun _ => id)
      fun _ => .inl rfl
    rcases ShapeLemmas.procs_set hq with ⟨rfl, rfl⟩ | ⟨-, old⟩
    · exact ⟨_, hp, rfl⟩
    · exact ⟨other, old, rfl⟩

theorem sound_init (now : Int) : (Fleet.init now).Sound where
  length := rfl
  rows _ _ there := by cases there
  queued _ there := by cases there
  locked _ _ _ there := by cases there
  single _ _ _ _ there := by cases there

theorem counts_step (may : timely s a) (h : s.step cfg a = some s') (counts : s'.counts q = true) :
    s.counts q = true ∨ q = s.leases.length ∧ ∃ worker locked, a = .claim worker locked := by
  have acts : ∀ {p : Nat}, a.operator = some p → s.counts q = true := fun operates => by
    obtain ⟨proc, proc', ans, o, r, loc, acts, leases, mine⟩ := performed h operates
    exact counts_before acts.now leases (mine may) counts
  obtain ⟨world, moved, rfl⟩ := Option.map_eq_some_iff.mp h
  obtain ⟨t, known, later⟩ := counts_iff.mp counts
  cases step_happens moved with
  | beat | main | task => exact .inl (acts rfl)
  | execute => exact may.elim
  | tick => exact .inl (counts_iff.mpr ⟨t, known, le_trans (by simp) later⟩)
  | submit | cancel | refused | call | stop => exact .inl (counts_iff.mpr ⟨t, known, later⟩)
  | claim =>
    rcases concat_cases known with old | ⟨rfl, -⟩
    · exact .inl (counts_iff.mpr ⟨t, old, later⟩)
    · exact .inr ⟨rfl, _, _, rfl⟩

end LeaseLemmas

open LeaseLemmas

theorem leases_sound {cfg : Config} {now : Int} {ok : Fleet → Action → Prop} {s : Fleet}
    (may : ∀ s a, ok s a → timely s a) (h : Reaches (Fleet.step cfg) ok (.init now) s) : s.Sound :=
  h.invariant (sound_init now)
    fun _ _ _ _ sound ok step => sound_step sound (may _ _ ok) step

/-! ## Attempts that follow one another -/

/-- The attempt an action is of. -/
def Action.subject : Action → Option Nat
  | .beat p _ | .main p _ | .task p _ _ _ | .call p _ _ _ | .stop p => some p
  | _ => none

/-- The worlds look alike to the attempt an action is of. -/
structure Alike (w v : World) (a : Action) : Prop where
  now : v.now = w.now
  store : v.store = w.store
  moments : v.moments = w.moments
  length : v.procs.length = w.procs.length
  acting : ∀ p, a.subject = some p → v.procs[p]? = w.procs[p]?

/-- A world without the attempts that no longer act: to those that count on their lease it looks
like the world of the fleet, and the others of their runs have stopped. -/
structure Fleet.Shadow (s : Fleet) (v : World) : Prop where
  now : v.now = s.world.now
  store : v.store = s.world.store
  moments : v.moments = s.world.moments
  runs : v.procs.map (·.loc.runId) = s.world.procs.map (·.loc.runId)
  same : ∀ p, s.counts p = true → v.procs[p]? = s.world.procs[p]?
  alone : ∀ (p q : Nat) (proc other : Proc), s.counts p = true → v.procs[p]? = some proc →
    v.procs[q]? = some other → q ≠ p → other.loc.runId = proc.loc.runId → other.stopped = true

namespace LeaseLemmas

variable {cfg : Config} {w w' v : World} {a : Action} {s s' : Fleet} {p q : Nat}
  {proc proc' other : Proc} {user : World → Action → Prop}

/-- The action changes attempt `p` among `procs` as it does among those of the world. -/
def ActsAlike (cfg : Config) (w w' : World) (a : Action) (p : Nat) (procs : List Proc) : Prop :=
  ∃ proc proc', w.procs[p]? = some proc ∧ proc'.loc.runId = proc.loc.runId ∧
    w'.procs = w.procs.set p proc' ∧
    World.step cfg { w with procs } a = some { w' with procs := procs.set p proc' }

section

variable {procs : List Proc} (same : procs[p]? = w.procs[p]?)

include same

theorem beat_alike {ans : Answer} (h : w.step cfg (.beat p ans) = some w') :
    ActsAlike cfg w w' (.beat p ans) p procs := by
  simp only [World.step, Option.bind_eq_bind, Option.bind_eq_some_iff] at h
  obtain ⟨proc, hp, worker, known, h⟩ := h
  split at h
  · cases h
  · next alive =>
    split at h
    · next running =>
      obtain ⟨⟨r, store, loc⟩, called, h⟩ := Option.bind_eq_some_iff.mp h
      cases h
      refine ⟨proc, _, hp, ?_, rfl, ?_⟩
      · rw [(ExecLemmas.storeCall_cases called).1]
      · simp only [World.step, same.trans hp, Option.bind_eq_bind, Option.bind_some, known,
          if_neg alive, running]
        exact Option.bind_eq_some_iff.mpr ⟨_, called, rfl⟩
    · cases h

theorem main_alike {ans : Answer} (h : w.step cfg (.main p ans) = some w') :
    ActsAlike cfg w w' (.main p ans) p procs := by
  cases step_happens h with
  | main hp alive main run =>
    refine ⟨_, _, hp, ?_, rfl, ?_⟩
    · exact (exec_ctx run).1
    · have run' : exec cfg (World.now { w with procs }) (World.store { w with procs }) _ _ _ = _ :=
        run
      exact step_main (same.trans hp) alive main run'

theorem task_alike {c b : Nat} {ans : Answer} (h : w.step cfg (.task p c b ans) = some w') :
    ActsAlike cfg w w' (.task p c b ans) p procs := by
  cases step_happens h with
  | task hp alive hrec ht hprog run =>
    refine ⟨_, _, hp, ?_, rfl, ?_⟩
    · exact (exec_ctx run).1
    · simp only [World.step, same.trans hp, Option.bind_eq_bind, Option.bind_some, alive,
        if_neg Bool.false_ne_true, hrec, ht, World.stepTask, hprog]
      exact Option.map_eq_some_iff.mpr ⟨_, run, rfl⟩

theorem call_alike {caller : Option (Nat × Nat)} {role : Role} {c : Call}
    (h : w.step cfg (.call p caller role c) = some w') :
    ActsAlike cfg w w' (.call p caller role c) p procs := by
  cases step_happens h with
  | @refused _ _ _ _ proc path exc ctx hp alive path_ hctx names =>
    have path' : World.callerPath { w with procs } p proc role caller = some path := path_
    refine ⟨proc, _, hp, ?_, rfl, ?_⟩
    · rfl
    · simp only [World.step, same.trans hp, Option.bind_eq_bind, Option.bind_some, alive,
        if_neg Bool.false_ne_true, path', World.callContext, hctx, Option.map_some, names]
      rfl
  | @call _ _ _ _ proc path names ctx hp alive path_ hctx known =>
    have path' : World.callerPath { w with procs } p proc role caller = some path := path_
    refine ⟨proc, _, hp, ?_, rfl, ?_⟩
    · rfl
    · simp only [World.step, same.trans hp, Option.bind_eq_bind, Option.bind_some, alive,
        if_neg Bool.false_ne_true, path', World.callContext, hctx, Option.map_some, known]
      rfl

theorem stop_alike (h : w.step cfg (.stop p) = some w') :
    ActsAlike cfg w w' (.stop p) p procs := by
  cases step_happens h with
  | @stop _ proc hp =>
    refine ⟨proc, _, hp, ?_, rfl, ?_⟩
    · rfl
    · simp only [World.step, same.trans hp, Option.bind_eq_bind, Option.bind_some]
      rfl

/-- An action of an attempt depends on the attempt, not on the others. -/
theorem step_alike (h : w.step cfg a = some w') (subject : a.subject = some p) :
    ActsAlike cfg w w' a p procs := by
  cases a with
  | submit | cancel | tick | claim | execute => cases subject
  | beat =>
    cases subject
    exact beat_alike same h
  | main =>
    cases subject
    exact main_alike same h
  | task =>
    cases subject
    exact task_alike same h
  | call =>
    cases subject
    exact call_alike same h
  | stop =>
    cases subject
    exact stop_alike same h

end

/-- Submissions, requests to cancel and time do not depend on the attempts. -/
theorem outside_alike {procs : List Proc} (h : w.step cfg a = some w') (outside : a.subject = none)
    (claims : ∀ worker locked, a ≠ .claim worker locked) (executes : ∀ j, a ≠ .execute j) :
    w'.procs = w.procs ∧ World.step cfg { w with procs } a = some { w' with procs } := by
  cases a with
  | beat | main | task | call | stop => cases outside
  | claim worker locked => exact absurd rfl (claims worker locked)
  | execute j => exact absurd rfl (executes j)
  | tick =>
    cases h
    exact ⟨rfl, rfl⟩
  | submit | cancel =>
    simp only [World.step] at h ⊢
    split at h
    · next done =>
      cases h
      exact ⟨rfl, rfl⟩
    · cases h

/-- The attempt of the run is stopped. -/
def halted (j : Uuid) (proc : Proc) : Proc :=
  if proc.loc.runId = j then { proc with stopped := true } else proc

theorem halted_runId (j : Uuid) (proc : Proc) : (halted j proc).loc.runId = proc.loc.runId := by
  unfold halted
  split <;> rfl

/-- All attempts of a run can be stopped. -/
theorem halts {ok : World → Action → Prop} (stops : ∀ v q, ok v (.stop q)) (v : World) (j : Uuid) :
    Reaches (World.step cfg) ok v { v with procs := v.procs.map (halted j) } := by
  have rest : ∀ todo done : List Proc, Reaches (World.step cfg) ok
      { v with procs := done ++ todo } { v with procs := done ++ todo.map (halted j) } := by
    intro todo
    induction todo with
    | nil => exact fun done => .refl
    | cons proc todo ih =>
      intro done
      have next := ih (done ++ [halted j proc])
      rw [List.append_assoc, List.append_assoc] at next
      refine Reaches.trans ?_ next
      by_cases own : proc.loc.runId = j
      · refine .tail .refl (stops _ done.length) ?_
        simp [World.step, World.setProc, halted, own]
      · rw [halted, if_neg own]
        exact .refl
  exact rest v.procs []

theorem shadow_init (now : Int) : (Fleet.init now).Shadow (.init now) where
  now := rfl
  store := rfl
  moments := rfl
  runs := rfl
  same _ held := by simp [Fleet.counts, Fleet.init] at held
  alone _ _ _ _ held := by simp [Fleet.counts, Fleet.init] at held

theorem shadow_eq (shadow : s.Shadow v) : v = { s.world with procs := v.procs } := by
  obtain ⟨now, store, procs, moments⟩ := v
  obtain ⟨rfl, rfl, rfl, -, -, -⟩ := shadow
  rfl

theorem shadow_alike (shadow : s.Shadow v)
    (acting : ∀ p, a.subject = some p → v.procs[p]? = s.world.procs[p]?) :
    Alike s.world v a :=
  ⟨shadow.now, shadow.store, shadow.moments, by
    have runs := congrArg List.length shadow.runs
    rwa [List.length_map, List.length_map] at runs, acting⟩

/-- The action of an attempt that counts on its lease is one of the shadow. -/
theorem shadow_acts (sound : s.Sound) (shadow : s.Shadow v) (may : timely s a)
    (h : s.step cfg a = some s') (subject : a.subject = some p) (counts : s.counts p = true) :
    ∃ v', v.step cfg a = some v' ∧ s'.Shadow v' := by
  have before : ∀ q, s'.counts q = true → s.counts q = true := fun q counts =>
    (counts_step may h counts).resolve_right fun ⟨_, _, _, claims⟩ => by
      rw [claims] at subject
      cases subject
  obtain ⟨moved, -⟩ := fleet_step h
  obtain ⟨proc, proc', hp, runId, procs, moved'⟩ := step_alike (shadow.same p counts) moved
    subject
  rw [← shadow_eq shadow] at moved'
  have hv : v.procs[p]? = some proc := (shadow.same p counts).trans hp
  have runs : ∀ {q : Nat} {other : Proc}, (v.procs.set p proc')[q]? = some other →
      ∃ old, v.procs[q]? = some old ∧ old.loc.runId = other.loc.runId ∧ (q ≠ p → old = other) := by
    intro q other hq
    rcases set_cases hq with ⟨rfl, rfl⟩ | ⟨-, old⟩
    · exact ⟨proc, hv, runId.symm, fun ne => absurd rfl ne⟩
    · exact ⟨other, old, rfl, fun _ => rfl⟩
  refine ⟨_, moved', rfl, rfl, rfl, ?_, fun q held => ?_, ?_⟩
  · rw [procs, List.map_set, List.map_set, shadow.runs]
  · rw [procs]
    have same := shadow.same q (before q held)
    by_cases own : p = q
    · subst own
      rw [List.getElem?_set_self (List.getElem?_eq_some_iff.mp hv).1,
        List.getElem?_set_self (List.getElem?_eq_some_iff.mp hp).1]
    · rw [List.getElem?_set_ne own, List.getElem?_set_ne own, same]
  · intro x y first second held hx hy ne run
    obtain ⟨oldx, hoax, runx, -⟩ := runs hx
    obtain ⟨oldy, hoay, runy, stays⟩ := runs hy
    have heldx := before x held
    by_cases own : y = p
    · subst own
      have hx' : s.world.procs[x]? = some oldx := (shadow.same x heldx).symm.trans hoax
      cases hv.symm.trans hoay
      have single := sound.single x y oldx _ hx' hp heldx counts
      exact absurd (single (runy.trans (run.trans runx.symm))) ne
    · cases stays own
      exact shadow.alone x y oldx _ heldx hoax hoay ne (run.trans runx.symm)

/-- What an attempt that does not count on its lease may do leaves the shadow as it is. -/
theorem shadow_rests (shadow : s.Shadow v) (may : timely s a) (h : s.step cfg a = some s')
    (subject : a.subject = some p) (counts : s.counts p = false) : s'.Shadow v := by
  have before : ∀ q, s'.counts q = true → s.counts q = true := fun q counts =>
    (counts_step may h counts).resolve_right fun ⟨_, _, _, claims⟩ => by
      rw [claims] at subject
      cases subject
  have rests : ∀ {proc proc' : Proc}, s.world.procs[p]? = some proc →
      s'.world.procs = s.world.procs.set p proc' → proc'.loc.runId = proc.loc.runId →
      s'.world.now = s.world.now → s'.world.store = s.world.store →
      s'.world.moments = s.world.moments → s'.Shadow v := by
    intro proc proc' hp procs runId now store moments
    have runs : s'.world.procs.map (·.loc.runId) = s.world.procs.map (·.loc.runId) := by
      have there : (s.world.procs.map (·.loc.runId))[p]? = some proc.loc.runId := by
        rw [List.getElem?_map, hp]
        rfl
      obtain ⟨bound, at_⟩ := List.getElem?_eq_some_iff.mp there
      rw [procs, List.map_set, runId, ← at_]
      exact List.set_getElem_self bound
    refine ⟨shadow.now.trans now.symm, shadow.store.trans store.symm,
      shadow.moments.trans moments.symm, shadow.runs.trans runs.symm, fun q held => ?_,
      fun x y first second held => shadow.alone x y first second (before x held)⟩
    have ne : p ≠ q := fun same => by
      rw [same, before q held] at counts
      cases counts
    rw [procs, List.getElem?_set_ne ne, shadow.same q (before q held)]
  obtain ⟨world, moved, rfl⟩ := Option.map_eq_some_iff.mp h
  cases a with
  | submit | cancel | tick | claim | execute => cases subject
  | beat | task | call =>
    cases subject
    cases counts.symm.trans may
  | main q ans =>
    cases subject
    cases step_happens moved with
    | @main _ _ proc o k r store loc hp alive main run =>
      have awaits := may.resolve_left fun held => by
        rw [held] at counts
        cases counts
      rw [hp, Option.any_some, main] at awaits
      obtain rfl := awaitsBeat_step awaits
      rcases exec_store run with ⟨rfl, -⟩ | wrote
      · refine rests hp rfl ?_ rfl rfl ?_
        · exact (exec_ctx run).1
        · simp only [World.moment, observed, List.append_nil]
      · cases wrote
  | stop q =>
    cases subject
    cases step_happens moved with
    | stop hp => exact rests hp rfl rfl rfl rfl rfl

/-- What happens apart from the attempts happens to the shadow. -/
theorem shadow_outside (shadow : s.Shadow v) (may : timely s a) (h : s.step cfg a = some s')
    (outside : a.subject = none) (claims : ∀ worker locked, a ≠ .claim worker locked) :
    ∃ v', v.step cfg a = some v' ∧ s'.Shadow v' := by
  obtain ⟨moved, -⟩ := fleet_step h
  have executes : ∀ j, a ≠ .execute j := by
    rintro j rfl
    exact may
  obtain ⟨procs, moved'⟩ := outside_alike moved outside claims executes
  rw [← shadow_eq shadow] at moved'
  have before : ∀ q, s'.counts q = true → s.counts q = true := fun q counts =>
    (counts_step may h counts).resolve_right fun ⟨_, worker, locked, is⟩ => claims worker locked is
  refine ⟨_, moved', rfl, rfl, rfl, ?_, fun q held => ?_, fun x y first second held =>
    shadow.alone x y first second (before x held)⟩
  · rw [procs]
    exact shadow.runs
  · rw [procs]
    exact shadow.same q (before q held)

/-- A claim is one of the shadow once the attempts of its run have stopped. -/
theorem shadow_claims {worker : String} {locked : List Uuid} {claim : Claim} {store : Store}
    (sound : s.Sound) (shadow : s.Shadow v) (may : timely s (.claim worker locked))
    (claimed : s.world.store.claim s.world.now worker cfg.leaseSeconds locked =
      (some claim, store))
    (h : s.step cfg (.claim worker locked) = some s') :
    ∃ v', World.step cfg { v with procs := v.procs.map (halted claim.runId) }
      (.claim worker locked) = some v' ∧ s'.Shadow v' := by
  obtain ⟨moved, leases⟩ := fleet_step h
  have world : s'.world = { s.world with
      store, procs := s.world.procs ++ [.claimed cfg worker claim.runId] } := by
    simp only [World.step, claimed, Option.some.injEq] at moved
    exact moved.symm
  have claimed' : v.store.claim v.now worker cfg.leaseSeconds locked = (some claim, store) := by
    rw [shadow.store, shadow.now, claimed]
  refine ⟨{ v with
    store, procs := v.procs.map (halted claim.runId) ++ [.claimed cfg worker claim.runId] },
    ?_, ?_⟩
  · simp only [World.step, claimed']
  · have small : ∀ {q : Nat}, q < s.leases.length → s'.counts q = true → s.counts q = true :=
      fun {q} bound held => (counts_step may h held).resolve_right fun new => by omega
    have length : v.procs.length = s.leases.length := by
      have runs := congrArg List.length shadow.runs
      rw [List.length_map, List.length_map] at runs
      exact runs.trans sound.length.symm
    have come : ∀ {q : Nat} {proc : Proc},
        (v.procs.map (halted claim.runId) ++ [.claimed cfg worker claim.runId])[q]? = some proc →
        (q < s.leases.length ∧ ∃ old, v.procs[q]? = some old ∧ proc = halted claim.runId old) ∨
        (q = s.leases.length ∧ proc = .claimed cfg worker claim.runId) := by
      intro q proc hq
      rcases concat_cases hq with old | ⟨rfl, rfl⟩
      · rw [List.getElem?_map] at old
        obtain ⟨before, hold, rfl⟩ := Option.map_eq_some_iff.mp old
        exact .inl ⟨length ▸ (List.getElem?_eq_some_iff.mp hold).1, before, hold, rfl⟩
      · exact .inr ⟨by rw [List.length_map, length], rfl⟩
    -- an attempt that counts on its lease is of another run
    have apart : ∀ {q : Nat} {old : Proc}, s.counts q = true → v.procs[q]? = some old →
        old.loc.runId ≠ claim.runId := by
      intro q old held hold own
      have free := claim_free sound claimed ((shadow.same q held).symm.trans hold) own
      rw [held] at free
      cases free
    refine ⟨?_, ?_, ?_, ?_, fun q held => ?_, fun x y first second held hx hy ne run => ?_⟩
    · rw [world]
      exact shadow.now
    · rw [world]
    · rw [world]
      exact shadow.moments
    · rw [world, List.map_append, List.map_append, List.map_map, ← shadow.runs]
      refine congrArg (· ++ _) (List.map_congr_left fun proc _ => halted_runId _ proc)
    · rw [world]
      by_cases bound : q < s.leases.length
      · have before := small bound held
        have same := shadow.same q before
        rw [List.getElem?_append_left (by rwa [List.length_map, length]), List.getElem?_map,
          List.getElem?_append_left (sound.length ▸ bound)]
        cases hq : v.procs[q]? with
        | none => rw [← same, hq, Option.map_none]
        | some old =>
          rw [← same, hq, Option.map_some, halted, if_neg (apart before hq)]
      · obtain ⟨t, known, -⟩ := counts_iff.mp held
        have last := (List.getElem?_eq_some_iff.mp known).1
        rw [leases, Fleet.after, List.length_append, List.length_singleton] at last
        obtain rfl : q = s.leases.length := by omega
        rw [List.getElem?_append_right (by rw [List.length_map, length]),
          List.getElem?_append_right (by rw [sound.length]), List.length_map, length, sound.length]
    · rcases come hx with ⟨bound, oldx, hoax, rfl⟩ | ⟨rfl, rfl⟩ <;>
        rcases come hy with ⟨boundy, oldy, hoay, rfl⟩ | ⟨rfl, rfl⟩
      · have before := small bound held
        rw [halted_runId, halted_runId] at run
        have apartx := apart before hoax
        rw [halted, if_neg (run ▸ apartx)]
        exact shadow.alone x y oldx oldy before hoax hoay ne run
      · rw [halted_runId] at run
        exact absurd run.symm (apart (small bound held) hoax)
      · rw [halted_runId] at run
        rw [halted, if_pos (show oldy.loc.runId = claim.runId from run)]
      · exact absurd rfl ne

/-- Each step of the fleet is one of the shadow, a few, or none. -/
theorem shadow_step (seen : ∀ w v a, Alike w v a → user w a → user v a)
    (stops : ∀ v q, user v (.stop q)) (sound : s.Sound) (shadow : s.Shadow v)
    (may : timely s a) (does : user s.world a) (h : s.step cfg a = some s') :
    ∃ v', Reaches (World.step cfg) (fun v a => oneAfterAnother v a ∧ user v a) v v' ∧
      s'.Shadow v' := by
  cases subject : a.subject with
  | some p =>
    cases counts : s.counts p with
    | true =>
      obtain ⟨v', moved, shadow'⟩ := shadow_acts sound shadow may h subject counts
      have alike : Alike s.world v a := shadow_alike shadow fun q is => by
        cases subject.symm.trans is
        exact shadow.same p counts
      refine ⟨v', .tail .refl ⟨fun q actor proc hp x other hx ne run _ => ?_, seen _ _ _ alike does⟩
        moved, shadow'⟩
      obtain rfl : q = p := by cases a <;> cases actor <;> cases subject <;> rfl
      exact shadow.alone q x proc other counts hp hx ne run
    | false => exact ⟨v, .refl, shadow_rests shadow may h subject counts⟩
  | none =>
    have quiet : ∀ u, oneAfterAnother u a := fun u q actor => by
      cases a <;> cases actor <;> cases subject
    by_cases claims : ∃ worker locked, a = .claim worker locked
    · obtain ⟨worker, locked, rfl⟩ := claims
      obtain ⟨moved, -⟩ := fleet_step h
      cases claimed : s.world.store.claim s.world.now worker cfg.leaseSeconds locked with
      | mk drawn store =>
        cases drawn with
        | none =>
          simp only [World.step, claimed] at moved
          cases moved
        | some claim =>
          obtain ⟨v', moved', shadow'⟩ := shadow_claims sound shadow may claimed h
          have alike : Alike s.world { v with procs := v.procs.map (halted claim.runId) }
              (.claim worker locked) := by
            obtain ⟨now, store, moments, length, -⟩ :=
              shadow_alike (a := .claim worker locked) shadow fun _ is => by cases is
            exact ⟨now, store, moments, (List.length_map ..).trans length, fun _ is => by cases is⟩
          refine ⟨v', .tail (halts ?_ v claim.runId) ⟨quiet _, seen _ _ _ alike does⟩ moved',
            shadow'⟩
          exact fun u q => ⟨fun _ actor => (by cases actor), stops u q⟩
    · obtain ⟨v', moved, shadow'⟩ := shadow_outside shadow may h subject fun worker locked is =>
        claims ⟨worker, locked, is⟩
      have alike : Alike s.world v a := shadow_alike shadow fun q is => by
        cases subject.symm.trans is
      exact ⟨v', .tail .refl ⟨quiet v, seen _ _ _ alike does⟩ moved, shadow'⟩

theorem shadow_reaches {now : Int} (seen : ∀ w v a, Alike w v a → user w a → user v a)
    (stops : ∀ v q, user v (.stop q))
    (h : Reaches (Fleet.step cfg) (fun s a => timely s a ∧ user s.world a) (.init now) s) :
    ∃ v, Reaches (World.step cfg) (fun v a => oneAfterAnother v a ∧ user v a) (.init now) v ∧
      s.Shadow v :=
  h.simulated (R := fun s v => s.Shadow v) (shadow_init now)
    fun _ _ _ _ reached shadow ok step =>
      shadow_step seen stops (leases_sound (fun _ _ ok => ok.1) reached) shadow ok.1 ok.2 step

/-- What user code calls and hands over depends on its attempt alone. -/
theorem programmed_alike {flows : Flows} {floats : FloatText} {j : Uuid} (alike : Alike w v a)
    (ok : deterministic flows.nextCall j w a ∧ programmed flows j w a ∧ plainly floats j w a) :
    deterministic flows.nextCall j v a ∧ programmed flows j v a ∧ plainly floats j v a := by
  obtain ⟨determined, programmed_, plain⟩ := ok
  have acting := alike.acting
  cases a with
  | call p =>
    refine ⟨fun proc hp => determined proc ?_, trivial, trivial⟩
    rwa [acting p rfl] at hp
  | main p ans =>
    have same : v.procs[p]? = w.procs[p]? := acting p rfl
    refine ⟨trivial, ?_, fun proc hp => plain proc (same ▸ hp)⟩
    cases ans with
    | value => exact fun proc hp => programmed_ proc (same ▸ hp)
    | _ => trivial
  | task p c b ans =>
    have same : v.procs[p]? = w.procs[p]? := acting p rfl
    exact ⟨trivial, trivial, fun proc hp => plain proc (same ▸ hp)⟩
  | submit => exact ⟨trivial, trivial, plain⟩
  | _ => exact ⟨trivial, trivial, trivial⟩

end LeaseLemmas

/-- Leases make attempts follow one another: in every run of the system in which attempts are
claimed by workers and act only as long as they count on their lease, what the store holds and
what user code was entered, and each attempt that still counts on its lease, are what they are in
a run in which attempts follow one another. Whatever user code does according to what it sees of
the world, it does there too. -/
theorem leases_sequence {cfg : Config} {now : Int} {user : World → Action → Prop}
    (seen : ∀ w v a, Alike w v a → user w a → user v a) (stops : ∀ v q, user v (.stop q))
    {s : Fleet} (h : Reaches (Fleet.step cfg) (fun s a => timely s a ∧ user s.world a)
      (.init now) s) :
    ∃ v, Reaches (World.step cfg) (fun v a => oneAfterAnother v a ∧ user v a) (.init now) v ∧
      v.now = s.world.now ∧ v.store = s.world.store ∧ v.moments = s.world.moments ∧
      v.procs.map (·.loc.runId) = s.world.procs.map (·.loc.runId) ∧
      ∀ p, s.counts p = true → v.procs[p]? = s.world.procs[p]? := by
  obtain ⟨v, reached, shadow⟩ := shadow_reaches seen stops h
  exact ⟨v, reached, shadow.now, shadow.store, shadow.moments, shadow.runs, shadow.same⟩

/-- A worker that renews its lease, loses it in the body of a step and stays there, and another
that takes the run up. -/
def Sample.relieved : List Action :=
  opening ++ [.tick 20000000, .beat 0 .done, .tick 20000000, calls 0 "x" .atLeastOnce] ++
    advance 0 0 7 ++ [.tick 31000000, .claim "b" []] ++ proceed 1 8 ++ [calls 1 "x" .atLeastOnce] ++
    advance 1 0 7

theorem leases_sequence_relieved : ∃ s,
    run (Fleet.step Sample.cfg) (fun s a => timely s a ∧ True) (.init 0) Sample.relieved = some s ∧
    (s.counts 0 = false ∧ s.counts 1 = true ∧ s.world.procs.all (!·.stopped) = true) ∧
    ∃ v, Reaches (World.step Sample.cfg) (fun v a => oneAfterAnother v a ∧ True) (.init 0) v ∧
      v.now = s.world.now ∧ v.store = s.world.store ∧ v.moments = s.world.moments ∧
      v.procs.map (·.loc.runId) = s.world.procs.map (·.loc.runId) ∧
      ∀ p, s.counts p = true → v.procs[p]? = s.world.procs[p]? := by
  obtain ⟨s, ran, facts⟩ := run_exists (Fleet.step Sample.cfg) (fun s a => timely s a ∧ True)
    (.init 0) Sample.relieved (fun s => s.counts 0 = false ∧ s.counts 1 = true ∧
      s.world.procs.all (!·.stopped) = true) (by decide +kernel)
  exact ⟨s, ran, facts, @leases_sequence _ _ (fun _ _ => True) (fun _ _ _ _ _ => trivial)
    (fun _ _ => trivial) _ (run_reaches ran)⟩

/-- Durable execution under leases: nothing is asked of the schedule but that attempts act only as
long as they count on their lease. An attempt that does has been told a beginning of the journal
that is read from the log, and the result of the completed run is what the program returns when it
is fed the journal. -/
theorem leases_durable {cfg : Config} {now : Int} {flows : Flows} {floats : FloatText} {j : Uuid}
    {s : Fleet} (h : Reaches (Fleet.step cfg) (fun s a => timely s a ∧
      deterministic flows.nextCall j s.world a ∧ programmed flows j s.world a ∧
      plainly floats j s.world a) (.init now) s)
    {run : RunRecord} (hrun : s.world.store.getRun j = some run) :
    (∀ (p : Nat) (proc : Proc), s.world.procs[p]? = some proc → proc.loc.runId = j →
      s.counts p = true → proc.told <+: s.world.readJournal floats cfg flows run) ∧
    (run.status = .completed → ∃ report,
      (flows run.workflow run.input).feed (s.world.readJournal floats cfg flows run) =
        some (.ret report) ∧
      ∃ executed replayed, run.result = report executed replayed) ∧
    run.input.Kept floats ∧ run.result.Kept floats := by
  obtain ⟨v, reached, shadow⟩ := shadow_reaches (fun _ _ _ => programmed_alike)
    (fun _ _ => ⟨trivial, trivial, trivial⟩) h
  have executed : Reaches (World.step cfg) (fun w a => executing flows j w a ∧ plainly floats j w a)
      (.init now) v := reached.weaken fun _ _ ok => ⟨⟨⟨ok.1, ok.2.1⟩, ok.2.2.1⟩, ok.2.2.2⟩
  have hrun' : v.store.getRun j = some run := by rw [shadow.store, hrun]
  have journal : v.readJournal floats cfg flows run = s.world.readJournal floats cfg flows run := by
    unfold World.readJournal World.reread
    rw [shadow.store]
  rw [← journal]
  refine ⟨fun p proc hp mine counts => ?_, reread_returns executed hrun'⟩
  exact told_reread executed ((shadow.same p counts).trans hp) mine hrun'

theorem leases_durable_resumed : ∃ (s : Fleet) (run : RunRecord),
    s.world.store.getRun Sample.runId = some run ∧ run.status = .completed ∧
    s.counts 1 = true ∧
    (∀ (p : Nat) (proc : Proc), s.world.procs[p]? = some proc → proc.loc.runId = Sample.runId →
      s.counts p = true →
        proc.told <+: s.world.readJournal Sample.floats Sample.cfg Sample.addsUp run) ∧
    ∃ report, (Sample.addsUp run.workflow run.input).feed
        (s.world.readJournal Sample.floats Sample.cfg Sample.addsUp run) = some (.ret report) ∧
      ∃ executed replayed, run.result = report executed replayed := by
  obtain ⟨s, ran, status, second⟩ := run_exists (Fleet.step Sample.cfg)
    (fun s a => timely s a ∧ Sample.inPlain s.world a) (.init 0)
    (Sample.overtaking ++ Sample.summedUp) (fun s =>
      (s.world.store.getRun Sample.runId).map (·.status) = some .completed ∧ s.counts 1 = true)
    (by decide +kernel)
  obtain ⟨run, hrun, completed⟩ := Option.map_eq_some_iff.mp status
  have durable := leases_durable ((run_reaches ran).weaken fun _ _ ok =>
    have executed := inProgram_executing ok.2.1
    ⟨ok.1, executed.1.2, executed.2, plain_plainly ok.2.2⟩) hrun
  exact ⟨s, run, hrun, completed, second, durable.1, durable.2.1 completed⟩

end AnchorRuntime
