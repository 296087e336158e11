import AnchorRuntime.Terminal

/-!
# Terminal rows and the queue

An attempt that has read its run as not terminal writes RUNNING and, in the end, a terminal
status, and a worker whose attempt has come to a terminal outcome takes the run off the queue. None
of these statements looks at what the row says by then.

Results: `terminal_absorbing`, where attempts that have been overtaken do not write the status of
their run, a terminal row keeps its status, its result and its error; `never_stranded`, and every
run that is not terminal is on the queue; `terminal_reversed` and `run_stranded`, what two attempts
of a run do that pass each other.
-/

namespace AnchorRuntime

open Effect Machine ShapeLemmas ProcLemmas TerminalLemmas

/-! ## The condition -/

/-- The attempt is past its status check, and may still write a status. -/
def Phase.engaged : Phase → Bool
  | .start | .settled | .standing | .failing => false
  | _ => true

/-- The attempt knows that its run is terminal: it has written so, or read it. -/
def Phase.concluded : Phase → Bool
  | .settled => true
  | _ => false

/-- The status that the attempt writes next. -/
def Proc.writes (proc : Proc) : Option RunStatus :=
  match proc.main.next with
  | some (.setStatus status _ _) => some status
  | _ => none

/-- An attempt of a run yields to a later one: it writes no status once that one has come to a
terminal outcome, and no terminal status while that one is past its status check. -/
def yields (proc later : Proc) : Prop :=
  later.loc.runId = proc.loc.runId → ∀ status ∈ proc.writes,
    later.phase.concluded = false ∧
      (status.terminal = true → later.stopped = false → later.phase.engaged = false)

instance (proc later : Proc) : Decidable (yields proc later) :=
  inferInstanceAs (Decidable (_ → ∀ status ∈ proc.writes, _ ∧ (_ → _ → _)))

/-- Attempts that later ones have overtaken do not write the status of their run. -/
def unopposed (w : World) : Action → Prop
  | .main p _ => ∀ proc ∈ w.procs[p]?, ∀ later ∈ w.procs.drop (p + 1), yields proc later
  | _ => True

instance (w : World) (a : Action) : Decidable (unopposed w a) :=
  match a with
  | .main p _ => inferInstanceAs (Decidable (∀ proc ∈ w.procs[p]?,
      ∀ later ∈ w.procs.drop (p + 1), yields proc later))
  | .submit _ _ _ _ _ | .cancel _ | .tick _ | .claim _ _ | .execute _ | .beat _ _ | .task _ _ _ _
  | .call _ _ _ _ | .stop _ => .isTrue trivial

/-! ## The invariant -/

/-- A later attempt of the run has come to a terminal outcome. -/
def World.Overtaken (w : World) (p : Nat) (j : Uuid) : Prop :=
  ∃ q later, p < q ∧ w.procs[q]? = some later ∧ later.loc.runId = j ∧
    later.phase.concluded = true

/-- An attempt of a terminal run that may still write a status has been overtaken. -/
def World.Disengaged (w : World) : Prop :=
  ∀ (p : Nat) (proc : Proc), w.procs[p]? = some proc → proc.stopped = false →
    w.terminal proc.loc.runId = true → proc.phase.engaged = true → w.Overtaken p proc.loc.runId

/-- An attempt with a terminal outcome is of a terminal run. -/
def World.Concluded (w : World) : Prop :=
  ∀ (p : Nat) (proc : Proc), w.procs[p]? = some proc → proc.stopped = false →
    proc.phase.concluded = true → w.terminal proc.loc.runId = true

/-- Every run that is not terminal is on the queue. -/
def World.Queued (w : World) : Prop :=
  ∀ j, (w.store.standing j).isSome = true → w.terminal j = false →
    (w.store.runQueue.find j).isSome = true

namespace AbsorbingLemmas

variable {cfg : Config} {w w' : World} {a : Action} {p q : Nat} {proc : Proc} {j : Uuid}

theorem parked_idle {phase : Phase} (parked : phase.parked = true) : phase.engaged = false := by
  cases phase <;> first | rfl | cases parked

/-- Who is over, or has lost its lease, stays so. -/
theorem idle_next {phase : Phase} {o : Op} {r : Ans o} (may : phase.allowed o)
    (idle : phase.engaged = false) (begun : phase ≠ .start) :
    (phase.next o r).engaged = false := by
  have moves := Phase.moves may r
  generalize phase.next o r = phase' at moves ⊢
  cases moves with
  | snapshot | stopHeartbeat => exact idle
  | missing | terminal | check => exact absurd rfl begun
  | dequeue | release | raise => rfl
  | _ => cases idle

/-- Only an attempt that is past its status check writes a status. -/
theorem engaged_setStatus {phase : Phase} {status : RunStatus} {result : Value}
    {error : Option RunError} (may : phase.allowed (.setStatus status result error)) :
    phase.engaged = true := by
  have moves := Phase.moves may (.ok ())
  generalize phase.next (.setStatus status result error) (.ok ()) = phase' at moves
  cases moves with
  | markRunning | finish => rfl
  | raise _ failed => cases failed

/-- The row of a run is terminal after a write of its status as the status says. -/
theorem terminal_restand {status : RunStatus} {result : Value} {error : Option RunError}
    (row : (w.store.standing j).isSome = true)
    (new : w'.store.standing j = (w.store.standing j).map (restand status result error)) :
    w'.terminal j = status.terminal := by
  obtain ⟨old, hold⟩ := Option.isSome_iff_exists.mp row
  rw [World.terminal, new, hold]
  rfl

theorem row_of_terminal (terminal : w.terminal j = true) :
    (w.store.standing j).isSome = true := by
  obtain ⟨row, is, -⟩ := (Option.any_eq_true _ _).mp terminal
  exact Option.isSome_iff_exists.mpr ⟨row, is⟩

theorem concluded_idle {phase : Phase} (concluded : phase.concluded = true) :
    phase.engaged = false := by
  cases phase <;> first | rfl | cases concluded

theorem concluded_next {phase : Phase} {o : Op} (r : Ans o) (may : phase.allowed o)
    (concluded : phase.concluded = true) : (phase.next o r).concluded = true := by
  cases phase with
  | settled => rcases may with rfl | rfl | rfl <;> rfl
  | _ => cases concluded

/-- An attempt with a terminal outcome keeps it. -/
theorem overtaken_step
    (shaped : ∀ (p : Nat) (proc : Proc), w.procs[p]? = some proc → proc.Shaped cfg)
    (h : w.step cfg a = some w') (before : w.Overtaken p j) : w'.Overtaken p j := by
  obtain ⟨q, later, after, hq, mine, concluded⟩ := before
  obtain ⟨later', hq', same, -, still⟩ := attempt_persists shaped h hq
  refine ⟨q, later', after, hq', same.trans mine, ?_⟩
  by_cases acting : ∃ ans, a = .main q ans
  · obtain ⟨ans, rfl⟩ := acting
    obtain ⟨actor, o, r, loc, acts⟩ := main_acts shaped h
    obtain rfl := Option.some.inj (hq.symm.trans acts.hp)
    obtain ⟨moved, hmoved, -, phase, -⟩ := acts.moved
    obtain rfl := Option.some.inj (hq'.symm.trans hmoved)
    rw [phase]
    exact concluded_next r acts.may concluded
  · rw [(still fun ans is => acting ⟨ans, is⟩).2]
    exact concluded

/-- Who writes a status yields to all later attempts. -/
theorem yields_later {ans : Answer} {status : RunStatus} {result : Value}
    {error : Option RunError} {loc : Local}
    (acts : MainActs cfg w w' p ans proc (.setStatus status result error) (.ok ()) loc)
    (ok : unopposed w (.main p ans)) {later : Proc} (after : p < q)
    (hq : w.procs[q]? = some later) (mine : later.loc.runId = proc.loc.runId) :
    later.phase.concluded = false ∧
      (status.terminal = true → later.stopped = false → later.phase.engaged = false) := by
  obtain ⟨k, main, -⟩ := acts.after
  have writes : status ∈ proc.writes := by
    rw [Proc.writes, main]
    exact rfl
  refine ok proc acts.hp later (List.mem_of_getElem? (i := q - (p + 1)) ?_) mine status writes
  rw [List.getElem?_drop, Nat.add_sub_cancel' after]
  exact hq

/-- Where the row was terminal before, an attempt that may write a status could before. -/
theorem disengaged_kept {proc' : Proc}
    (shaped : ∀ (p : Nat) (proc : Proc), w.procs[p]? = some proc → proc.Shaped cfg)
    (h : w.step cfg a = some w') (inv : w.Disengaged) (hq : w'.procs[q]? = some proc')
    (live : proc'.stopped = false) (before : w.terminal proc'.loc.runId = true)
    (engaged : proc'.phase.engaged = true) : w'.Overtaken q proc'.loc.runId := by
  refine overtaken_step shaped h ?_
  cases attempt_cases shaped h hq with
  | same hp | beat _ _ hp | refused _ hp | call _ hp =>
    have was := inv q _ hp
    exact was live before engaged
  | fresh _ phase =>
    rw [phase] at engaged
    cases engaged
  | stop => cases live
  | @task proc _ _ _ _ _ _ _ _ loc _ acts =>
    have before : w.terminal loc.runId = true := before
    show w.Overtaken q loc.runId
    rw [(exec_ctx acts.run).1] at before ⊢
    exact inv q proc acts.hp acts.alive before engaged
  | @main proc _ o k r loc _ acts =>
    have before : w.terminal loc.runId = true := before
    have engaged : (proc.phase.next o r).engaged = true := engaged
    show w.Overtaken q loc.runId
    rw [(exec_ctx acts.run).1] at before ⊢
    refine inv q proc acts.hp acts.alive before ?_
    by_contra idle
    have idle : proc.phase.engaged = false := by simpa using idle
    by_cases start : proc.phase = .start
    · have may := acts.may
      rw [start] at may engaged
      rw [parked_idle (parked_start may acts.run before)] at engaged
      cases engaged
    · rw [idle_next acts.may idle start] at engaged
      cases engaged

/-- An attempt that has written a terminal status has a terminal outcome. -/
theorem concluded_finish {phase : Phase} {status : RunStatus} {result : Value}
    {error : Option RunError} (may : phase.allowed (.setStatus status result error))
    (final : status.terminal = true) :
    (phase.next (.setStatus status result error) (.ok ())).concluded = true := by
  have moves := Phase.moves may (.ok ())
  generalize phase.next (.setStatus status result error) (.ok ()) = phase' at moves ⊢
  cases moves with
  | markRunning => cases final
  | finish => rfl
  | raise _ failed => cases failed

/-- After a terminal status has been written, the earlier attempts are overtaken and the later
ones, to which the writer has yielded, are not past their status check. -/
theorem disengaged_written {ans : Answer} {status : RunStatus} {result : Value}
    {error : Option RunError} {loc : Local} {proc' : Proc}
    (shaped : ∀ (p : Nat) (proc : Proc), w.procs[p]? = some proc → proc.Shaped cfg)
    (h : w.step cfg (.main p ans) = some w') (ok : unopposed w (.main p ans))
    (acts : MainActs cfg w w' p ans proc (.setStatus status result error) (.ok ()) loc)
    (final : status.terminal = true) (hq : w'.procs[q]? = some proc')
    (own : proc.loc.runId = proc'.loc.runId) (live : proc'.stopped = false)
    (engaged : proc'.phase.engaged = true) : w'.Overtaken q proc'.loc.runId := by
  obtain ⟨moved, hmoved, here, phase, -⟩ := acts.moved
  have concluded : moved.phase.concluded = true := by
    rw [phase]
    exact concluded_finish acts.may final
  rcases Nat.lt_trichotomy q p with before | rfl | after
  · exact ⟨p, moved, before, hmoved, by rw [here, (exec_ctx acts.run).1, own], concluded⟩
  · obtain rfl := Option.some.inj (hq.symm.trans hmoved)
    rw [concluded_idle concluded] at engaged
    cases engaged
  · cases attempt_cases shaped h hq with
    | same hp =>
      rw [(yields_later acts ok after hp own.symm).2 final live] at engaged
      cases engaged
    | fresh _ phase =>
      rw [phase] at engaged
      cases engaged
    | main is =>
      cases is
      exact absurd after (Nat.lt_irrefl _)
    | beat _ is | task is | refused is | call is | stop is => cases is

theorem disengaged_step
    (shaped : ∀ (p : Nat) (proc : Proc), w.procs[p]? = some proc → proc.Shaped cfg)
    (h : w.step cfg a = some w') (ok : unopposed w a) (inv : w.Disengaged) : w'.Disengaged := by
  intro q proc' hq live terminal engaged
  rcases standing_cases shaped h proc'.loc.runId with
    same | ⟨-, new⟩ | ⟨p, ans, proc, status, result, error, loc, rfl, acts, own, new⟩
  · have before : w.terminal proc'.loc.runId = true := by rwa [World.terminal, same] at terminal
    exact disengaged_kept shaped h inv hq live before engaged
  · rw [World.terminal, new] at terminal
    cases terminal
  · have row : (w.store.standing proc'.loc.runId).isSome = true := by
      have row' := row_of_terminal terminal
      rwa [new, Option.isSome_map] at row'
    have final : status.terminal = true := (terminal_restand row new).symm.trans terminal
    exact disengaged_written shaped h ok acts final hq own live engaged

/-- Where overtaken attempts yield, nobody writes a terminal row. -/
theorem standing_kept
    (shaped : ∀ (p : Nat) (proc : Proc), w.procs[p]? = some proc → proc.Shaped cfg)
    (h : w.step cfg a = some w') (ok : unopposed w a) (inv : w.Disengaged)
    (terminal : w.terminal j = true) : w'.store.standing j = w.store.standing j := by
  rcases standing_cases shaped h j with
    same | ⟨none, -⟩ | ⟨p, ans, proc, status, result, error, loc, rfl, acts, rfl, -⟩
  · exact same
  · have row := row_of_terminal terminal
    rw [none] at row
    cases row
  · obtain ⟨q, later, after, hq, mine, concluded⟩ :=
      inv p proc acts.hp acts.alive terminal (engaged_setStatus acts.may)
    cases (yields_later acts ok after hq mine).1.symm.trans concluded

/-- Only an attempt with a terminal outcome takes its run off the queue. -/
theorem concluded_dequeue {phase : Phase} (may : phase.allowed .dequeue) :
    phase.concluded = true := by
  have moves := Phase.moves may (.ok ())
  generalize phase.next .dequeue (.ok ()) = phase' at moves
  cases moves with
  | dequeue => rfl
  | raise _ failed => cases failed

theorem terminal_kept
    (shaped : ∀ (p : Nat) (proc : Proc), w.procs[p]? = some proc → proc.Shaped cfg)
    (h : w.step cfg a = some w') (ok : unopposed w a) (inv : w.Disengaged)
    (terminal : w.terminal j = true) : w'.terminal j = true := by
  rw [World.terminal, standing_kept shaped h ok inv terminal]
  exact terminal

/-- A terminal outcome is read from a terminal row or written to it. -/
theorem concluded_step
    (shaped : ∀ (p : Nat) (proc : Proc), w.procs[p]? = some proc → proc.Shaped cfg)
    (rows : w.Rows) (h : w.step cfg a = some w') (ok : unopposed w a) (idle : w.Disengaged)
    (inv : w.Concluded) : w'.Concluded := by
  intro q proc' hq live settled
  cases attempt_cases shaped h hq with
  | same hp | beat _ _ hp | refused _ hp | call _ hp =>
    have was := inv q _ hp
    exact terminal_kept shaped h ok idle (was live settled)
  | fresh _ phase =>
    rw [phase] at settled
    cases settled
  | stop => cases live
  | @task proc _ _ _ _ _ _ _ _ loc _ acts =>
    have was := inv q proc acts.hp acts.alive settled
    have same : loc.runId = proc.loc.runId := (exec_ctx acts.run).1
    show w'.terminal loc.runId = true
    rw [same]
    exact terminal_kept shaped h ok idle was
  | @main proc _ o k r loc _ acts =>
    have same : loc.runId = proc.loc.runId := (exec_ctx acts.run).1
    show w'.terminal loc.runId = true
    rw [same]
    have was : proc.phase.concluded = true → w'.terminal proc.loc.runId = true := fun settled =>
      terminal_kept shaped h ok idle (inv q proc acts.hp acts.alive settled)
    have known : proc.phase ≠ .start → proc.phase ≠ .failing →
        (w.store.standing proc.loc.runId).isSome = true := fun begun sound =>
      rows q proc acts.hp (.inl ⟨begun, sound⟩)
    have ended : (proc.phase.next o r).concluded = true := settled
    have moves := Phase.moves acts.may r
    have run := acts.run
    have standing := (exec_standing acts.run proc.loc.runId).1
    rw [if_pos rfl] at standing
    generalize proc.phase.next o r = after at moves ended
    generalize proc.phase = before at moves was known
    cases moves with
    | terminal ends =>
      exact terminal_kept shaped h ok idle (terminal_iff.mpr ⟨_, (exec_getRun run).symm, ends⟩)
    | finish result error ends =>
      exact (terminal_restand (known (by intro is; cases is) (by intro is; cases is))
        standing).trans ends
    | snapshot | stopHeartbeat | dequeue => exact was ended
    | leave name input r =>
      unfold Phase.left at ended
      split at ended
      · cases ended
      · cases ended
    | _ => cases ended

/-- Every run that is not terminal is on the queue. -/
theorem queued_step
    (shaped : ∀ (p : Nat) (proc : Proc), w.procs[p]? = some proc → proc.Shaped cfg)
    (h : w.step cfg a = some w') (ok : unopposed w a) (idle : w.Disengaged)
    (concluded : w.Concluded) (inv : w.Queued) : w'.Queued := by
  intro j row going
  have before : w.terminal j = false := by
    cases was : w.terminal j with
    | false => rfl
    | true => cases going.symm.trans (terminal_kept shaped h ok idle was)
  have acted : ∀ {o : Op} {r : Ans o} {loc loc' : Local} {ans : Answer},
      exec cfg w.now w.store loc ans o = some (r, w'.store, loc') →
      (o = .dequeue → w.terminal loc.runId = true) → (w'.store.runQueue.find j).isSome = true := by
    intro o r loc loc' ans run settled
    obtain ⟨standing, queue⟩ := exec_standing run j
    have old : (w.store.standing j).isSome = true := by
      rw [standing] at row
      split at row <;> simpa using row
    rcases queue (inv j old before) with there | ⟨rfl, rfl⟩
    · exact there
    · cases before.symm.trans (settled rfl)
  cases a with
  | main p ans =>
    obtain ⟨proc, o, r, loc, acts⟩ := main_acts shaped h
    refine acted acts.run ?_
    rintro rfl
    exact concluded p proc acts.hp acts.alive (concluded_dequeue acts.may)
  | task p c b ans =>
    obtain ⟨proc, rec, t, o, r, loc, acts⟩ := task_acts shaped h
    refine acted acts.run ?_
    rintro rfl
    exact absurd acts.may (by cases t.stage <;> simp [StepSetup.allowed])
  | _ =>
    rcases quiet_standing h (by simp [Action.runsCode]) j with ⟨same, queue⟩ | ⟨-, -, queue⟩
    · rw [same] at row
      rw [queue]
      exact inv j row before
    · exact queue

end AbsorbingLemmas

open AbsorbingLemmas

section

variable {cfg : Config} {now : Int} {w w' : World}

theorem disengaged_reaches (h : Reaches (World.step cfg) unopposed (.init now) w) :
    w.Disengaged :=
  h.invariant (fun _ _ hp => by cases hp) fun _ _ _ reached inv ok step =>
    disengaged_step (fun _ _ => shaped_reaches reached) step ok inv

/-- Terminal statuses are absorbing: where overtaken attempts do not write the status of their run,
a terminal row keeps its status, its result and its error. -/
theorem terminal_absorbing (h : Reaches (World.step cfg) unopposed (.init now) w) {j : Uuid}
    (terminal : w.terminal j = true) (later : Reaches (World.step cfg) unopposed w w') :
    w'.store.standing j = w.store.standing j := by
  induction later with
  | refl => rfl
  | tail rest ok step ih =>
    have reached := h.trans rest
    refine (standing_kept (fun _ _ => shaped_reaches reached) step ok
      (disengaged_reaches reached) ?_).trans ih
    rw [World.terminal, ih]
    exact terminal

theorem concluded_reaches (h : Reaches (World.step cfg) unopposed (.init now) w) : w.Concluded :=
  h.invariant (fun _ _ hp => by cases hp) fun _ _ _ reached inv ok step =>
    concluded_step (fun _ _ => shaped_reaches reached) (rows_reaches reached) step ok
      (disengaged_reaches reached) inv

/-- No run is stranded: there every run that is not terminal is on the queue. -/
theorem never_stranded (h : Reaches (World.step cfg) unopposed (.init now) w) (j : Uuid)
    (row : (w.store.standing j).isSome = true) (going : w.terminal j = false) :
    (w.store.runQueue.find j).isSome = true := by
  have queued : w.Queued :=
    h.invariant (fun _ row => by cases row) fun _ _ _ reached inv ok step =>
      queued_step (fun _ _ => shaped_reaches reached) step ok (disengaged_reaches reached)
        (concluded_reaches reached) inv
  exact queued j row going

end

/-! An attempt that ends after another has taken its run up. -/

namespace Sample

/-- An attempt whose lease lapses in its workflow, and another that has entered it too. -/
def abreast : List Action :=
  opening ++ [.tick 31000000, .claim "b" []] ++ proceed 1 8

/-- The first attempt returns. -/
def firstReturns : List Action := [.main 0 (.value .none)] ++ proceed 0 4

/-- The second attempt raises. -/
def raisedLater : List Action :=
  [.main 1 (.raise (.exception "ConnectionError" "refused"))] ++ proceed 1 3

/-- An attempt that is still in its workflow when another has completed the run and taken it off the
queue. -/
def takenOff : List Action := abreast ++ [.main 1 (.value .none)] ++ proceed 1 7

/-- A cancel request comes too late, and the attempt that was relieved stands down at its next
step. -/
def tooLate : List Action :=
  [.tick 1000000, .cancel runId, calls 0 "x" .atLeastOnce] ++ advance 0 0 2 ++
    [.main 0 (.raise (leaseLost runId))] ++ proceed 0 2

/-- An attempt that stands still between its status check and `set_status(RUNNING)` while another
does all its work. -/
def overtaken : List Action :=
  [submitted, .claim "a" []] ++ proceed 0 2 ++ [.tick 31000000, .claim "b" []] ++ proceed 1 8 ++
    [.main 1 (.value .none)] ++ proceed 1 7

end Sample

theorem terminal_absorbing_tooLate : ∃ w w',
    run (World.step Sample.cfg) unopposed (.init 0) Sample.takenOff = some w ∧
    run (World.step Sample.cfg) unopposed w Sample.tooLate = some w' ∧
    w.terminal Sample.runId = true ∧
    w'.store.standing Sample.runId = w.store.standing Sample.runId := by
  obtain ⟨w, h, terminal, goes⟩ := run_exists (World.step Sample.cfg) unopposed (.init 0)
    Sample.takenOff (fun w => w.terminal Sample.runId = true ∧
      (run (World.step Sample.cfg) unopposed w Sample.tooLate).isSome = true) (by decide +kernel)
  obtain ⟨w', h'⟩ := Option.isSome_iff_exists.mp goes
  exact ⟨w, w', h, h', terminal, terminal_absorbing (run_reaches h) terminal (run_reaches h')⟩

/-- Two attempts that are in the workflow at once: the second makes a completed run a failed
one. -/
theorem terminal_reversed : ∃ w w',
    run (World.step Sample.cfg) (fun _ _ => True) (.init 0)
      (Sample.abreast ++ Sample.firstReturns) = some w ∧
    run (World.step Sample.cfg) (fun _ _ => True) w Sample.raisedLater = some w' ∧
    (w.store.standing Sample.runId).map (·.1) = some .completed ∧
    (w'.store.standing Sample.runId).map (·.1) = some .failed := by
  obtain ⟨w, h, completed, goes⟩ := run_exists (World.step Sample.cfg) (fun _ _ => True) (.init 0)
    (Sample.abreast ++ Sample.firstReturns)
    (fun w => (w.store.standing Sample.runId).map (·.1) = some .completed ∧
      (run (World.step Sample.cfg) (fun _ _ => True) w Sample.raisedLater).any
        (fun w' => (w'.store.standing Sample.runId).map (·.1) = some .failed) = true)
    (by decide +kernel)
  obtain ⟨w', h', failed⟩ := (Option.any_eq_true _ _).mp goes
  exact ⟨w, w', h, h', completed, of_decide_eq_true failed⟩

theorem never_stranded_abreast : ∃ w,
    run (World.step Sample.cfg) unopposed (.init 0) Sample.abreast = some w ∧
    w.terminal Sample.runId = false ∧ (w.store.runQueue.find Sample.runId).isSome = true := by
  obtain ⟨w, h, row, going⟩ := run_exists (World.step Sample.cfg) unopposed (.init 0)
    Sample.abreast (fun w => (w.store.standing Sample.runId).isSome = true ∧
      w.terminal Sample.runId = false) (by decide +kernel)
  exact ⟨w, h, going, never_stranded (run_reaches h) Sample.runId row going⟩

/-- An attempt that writes RUNNING when another has completed the run and taken it off the
queue. -/
theorem run_stranded : ∃ w,
    run (World.step Sample.cfg) (fun _ _ => True) (.init 0)
      (Sample.overtaken ++ Sample.proceed 0 1) = some w ∧
    (w.store.standing Sample.runId).map (·.1) = some .running ∧
    (w.store.runQueue.find Sample.runId).isSome = false :=
  run_exists (World.step Sample.cfg) (fun _ _ => True) (.init 0)
    (Sample.overtaken ++ Sample.proceed 0 1)
    (fun w => (w.store.standing Sample.runId).map (·.1) = some .running ∧
      (w.store.runQueue.find Sample.runId).isSome = false) (by decide +kernel)

end AnchorRuntime
