import AnchorRuntime.Consistency
import AnchorRuntime.Rows

/-!
# The end of a run

An attempt ends its run with two statements: it appends a terminal event, then it writes the
terminal status. Between the two the run is ended in its log and not in its row, and the rest
of the system goes by the row: another attempt takes the run up again, and a cancel request
is granted.

Results: `log_is_final`, when nothing comes between the two statements, a terminal event is
the only one of its log, nothing follows it, and a terminal status is the one it announces.
-/

namespace AnchorRuntime

open Effect Machine Slots ShapeLemmas ProcLemmas

/-! ## What a log says of the end -/

/-- The status that a terminal event announces. -/
def Payload.ends : Payload → Option RunStatus
  | .runCompleted _ _ _ _ => some .completed
  | .runFailed _ => some .failed
  | .runCancelled _ => some .cancelled
  | .runNeedsReview _ _ => some .needsReview
  | _ => none

inductive Fate
  | going
  | ended (status : RunStatus)
  deriving DecidableEq

def Fate.step : Fate → Event → Option Fate
  | .going, e => some ((e.payload.ends.map .ended).getD .going)
  | .ended _, _ => none

/-- What the log says of the end of its run, none if it goes on after it. -/
def fateOf (log : List Event) : Option Fate := Monitor.run Fate.step .going log

/-- The log has a terminal event. -/
def endedIn (log : List Event) : Bool := log.any fun e => e.payload.ends.isSome

/-! ## The condition -/

/-- The run is ended in its log and not in its row. -/
def World.halfEnded (w : World) (runId : Uuid) : Bool :=
  endedIn (w.store.loadEvents runId) && (w.store.getRun runId).any fun run => !run.status.terminal

/-- The phases after the terminal event. -/
def Phase.closing : Phase → Bool
  | .announced _ _ _ | .settled | .standing | .failing => true
  | _ => false

/-- While a run is ended in its log and not in its row, only the attempt that has ended it
acts on it and no cancel request comes; and no step of the run acts once its log has a
terminal event. -/
def undisturbed (w : World) : Action → Prop
  | .cancel runId => w.halfEnded runId = false
  | .main p _ => ∀ proc ∈ w.procs[p]?, w.halfEnded proc.loc.runId = true →
      proc.phase.closing = true
  | .task p _ _ _ => ∀ proc ∈ w.procs[p]?, endedIn (w.store.loadEvents proc.loc.runId) = false
  | _ => True

instance (w : World) (a : Action) : Decidable (undisturbed w a) :=
  match a with
  | .cancel runId => inferInstanceAs (Decidable (w.halfEnded runId = false))
  | .main p _ => inferInstanceAs (Decidable (∀ proc ∈ w.procs[p]?,
      w.halfEnded proc.loc.runId = true → proc.phase.closing = true))
  | .task p _ _ _ => inferInstanceAs (Decidable (∀ proc ∈ w.procs[p]?,
      endedIn (w.store.loadEvents proc.loc.runId) = false))
  | .submit _ _ _ _ _ | .tick _ | .claim _ _ | .execute _ | .beat _ _ | .call _ _ _ _
  | .stop _ => .isTrue trivial

/-! ## The invariant -/

/-- What an attempt in a phase takes the fate of its run to be. -/
def Phase.Fits : Phase → Fate → Prop
  | .start, _ | .settled, _ | .standing, _ | .failing, _ => True
  | .announced status _ _, fate => fate = .ended status
  | _, fate => fate = .going

/-- A terminal status is the one the log announces. -/
def Fate.Agrees (fate : Fate) (standing : Option (RunStatus × Value × Option RunError)) : Prop :=
  ∀ s ∈ standing, s.1.terminal = true → fate = .ended s.1

/-- The log, the row and the attempts of a run agree on its end. -/
def World.Final (w : World) (runId : Uuid) : Prop :=
  ∃ fate, fateOf (w.store.loadEvents runId) = some fate ∧ fate.Agrees (w.store.standing runId) ∧
    ∀ (p : Nat) (proc : Proc), w.procs[p]? = some proc → proc.stopped = false →
      proc.loc.runId = runId → proc.phase.Fits fate

namespace FinalityLemmas

variable {cfg : Config} {now : Int} {st st' : Store} {loc loc' : Local} {ans : Answer}
  {w w' : World} {a : Action} {runId : Uuid} {log : List Event} {fate : Fate}

/-! The monitor. -/

theorem step_going {e : Event} (h : e.payload.ends = none) : Fate.step .going e = some .going := by
  rw [Fate.step, h]
  rfl

theorem step_ends {e : Event} {status : RunStatus} (h : e.payload.ends = some status) :
    Fate.step .going e = some (.ended status) := by
  rw [Fate.step, h]
  rfl

/-- A log that is still going has no terminal event. -/
theorem going_open (h : fateOf log = some .going) : ∀ e ∈ log, e.payload.ends = none := by
  intro e mem
  obtain ⟨a, b, rfl⟩ := List.append_of_mem mem
  obtain ⟨u, -, rest⟩ := Monitor.run_prefix h
  rw [Monitor.run_cons] at rest
  obtain ⟨v, step, rest⟩ := Option.bind_eq_some_iff.mp rest
  cases u with
  | ended status => cases step
  | going =>
    cases ends : e.payload.ends with
    | none => rfl
    | some status =>
      cases (step_ends ends).symm.trans step
      cases b with
      | nil => cases rest
      | cons f b => cases rest

theorem ended_announces {status : RunStatus} (h : fateOf log = some (.ended status)) :
    ∃ e ∈ log, e.payload.ends = some status := by
  have enter : ∀ (s : Fate) (e : Event) (t : Fate), s.step e = some t → t = .ended status →
      s = .ended status ∨ e.payload.ends = some status := by
    rintro (_ | _) e t step rfl
    · cases ends : e.payload.ends with
      | none => cases (step_going ends).symm.trans step
      | some status' =>
        cases (step_ends ends).symm.trans step
        exact .inr rfl
    · cases step
  rcases Monitor.run_entered (· = .ended status) (fun e => e.payload.ends = some status) enter h
    rfl with start | announces
  · cases start
  · exact announces

theorem endedIn_iff (h : fateOf log = some fate) : endedIn log = true ↔ fate ≠ .going := by
  constructor
  · rintro ended rfl
    obtain ⟨e, mem, ends⟩ := List.any_eq_true.mp ended
    rw [going_open h e mem] at ends
    cases ends
  · cases fate with
    | going => exact fun ne => absurd rfl ne
    | ended status =>
      obtain ⟨e, mem, ends⟩ := ended_announces h
      exact fun _ => List.any_eq_true.mpr ⟨e, mem, by rw [ends]; rfl⟩

/-- What the monitor accepts ends once, with its last event. -/
theorem final_of_fate (h : fateOf log = some fate) : ∀ a e b, log = a ++ e :: b →
    e.payload.ends.isSome = true → b = [] ∧ ∀ f ∈ a, f.payload.ends = none := by
  rintro a e b rfl ends
  obtain ⟨status, ends⟩ := Option.isSome_iff_exists.mp ends
  obtain ⟨u, before, rest⟩ := Monitor.run_prefix h
  rw [Monitor.run_cons] at rest
  obtain ⟨v, step, rest⟩ := Option.bind_eq_some_iff.mp rest
  cases u with
  | ended _ => cases step
  | going =>
    cases (step_ends ends).symm.trans step
    cases b with
    | nil => exact ⟨rfl, going_open before⟩
    | cons f b => cases rest

theorem fate_append {es : List Event} (h : fateOf log = some fate) :
    fateOf (log ++ es) = Monitor.run Fate.step fate es := by
  rw [fateOf, Monitor.run_append, show Monitor.run Fate.step .going log = some fate from h]
  rfl

theorem run_going {es : List Event} (quiet : ∀ e ∈ es, e.payload.ends = none) :
    Monitor.run Fate.step .going es = some .going := by
  induction es with
  | nil => rfl
  | cons e es ih =>
    rw [Monitor.run_cons, step_going (quiet e List.mem_cons_self)]
    exact ih fun f mem => quiet f (List.mem_cons_of_mem _ mem)

/-! A step of a workflow ends nothing. -/

theorem step_unending {s : StepSetup} {stage : Stage} {o : Op} {r : Ans o}
    (may : s.allowed stage o) (now : Int) :
    stood o r = id ∧ ∀ e ∈ written now o r, e.payload.ends = none := by
  have quiet : ∀ {key : Option String} {payload : Payload} {seq : Option Nat},
      payload.ends = none → ∀ e ∈ written now (.appendEvent key payload) (.ok seq),
      e.payload.ends = none := by
    rintro key payload (_ | seq) unending e mem
    · cases mem
    · obtain rfl := List.mem_singleton.mp mem
      exact unending
  have moves := StepSetup.moves may r
  generalize s.next stage o r = stage' at moves
  cases moves with
  | resolve | again | start | complete | retry | fail => exact ⟨rfl, quiet rfl⟩
  | @invoked _ payload _ _ trailing =>
    exact ⟨rfl, quiet (by cases payload <;> first | rfl | exact trailing.elim)⟩
  | @called _ payload _ trailing =>
    exact ⟨rfl, quiet (by cases payload <;> first | rfl | exact trailing.elim)⟩
  | raise _ failed =>
    refine ⟨?_, fun e mem => ?_⟩
    · unfold stood
      split
      · cases failed
      · rfl
    · rw [ConsistencyLemmas.written_failure failed] at mem
      cases mem
  | _ => exact ⟨rfl, fun e mem => absurd mem List.not_mem_nil⟩

/-! One step of an attempt. -/

theorem append_some {key : Option String} {payload : Payload} {n : Option Nat}
    (run : exec cfg now st loc ans (.appendEvent key payload) = some (.ok n, st', loc'))
    (row : (st.standing loc.runId).isSome = true) (numbered : st.Numbered) :
    ∃ seq, n = some seq := by
  simp only [exec] at run
  obtain ⟨-, ⟨m, ok, same⟩ | ⟨_, error, -⟩⟩ := ExecLemmas.storeCall_cases run
  · cases same
    cases n with
    | some seq => exact ⟨seq, rfl⟩
    | none =>
      have absent := ((appendEvent_log numbered ok).2.1 rfl).2
      rw [Store.standing, absent] at row
      cases row
  · cases error

/-- An attempt keeps the fate of its run, its row and its own phase together. -/
theorem fate_next {phase : Phase} {o : Op} {r : Ans o} (numbered : st.Numbered)
    (may : phase.allowed o) (run : exec cfg now st loc ans o = some (r, st', loc'))
    (row : phase ≠ .start → phase ≠ .failing → (st.standing loc.runId).isSome = true)
    (fits : phase.Fits fate) (agrees : fate.Agrees (st.standing loc.runId))
    (undisturbed : fate ≠ .going →
      ((st.getRun loc.runId).any fun run => !run.status.terminal) = true → phase.closing = true) :
    ∃ fate', Monitor.run Fate.step fate (written now o r) = some fate' ∧
      (phase.next o r).Fits fate' ∧
      fate'.Agrees ((st.standing loc.runId).map (stood o r)) := by
  -- an operation that writes no event and no status
  have quiet : ∀ {phase' : Phase}, phase'.Fits fate → written now o r = [] → stood o r = id →
      ∃ fate', Monitor.run Fate.step fate (written now o r) = some fate' ∧ phase'.Fits fate' ∧
        fate'.Agrees ((st.standing loc.runId).map (stood o r)) := by
    intro phase' fits' none same
    rw [none, same, Option.map_id]
    exact ⟨fate, rfl, fits', agrees⟩
  -- an event under the run's own fate: `going` stays or ends as the event says
  have append : ∀ {phase' : Phase} {key : Option String} {payload : Payload} {n : Option Nat},
      exec cfg now st loc ans (.appendEvent key payload) = some (.ok n, st', loc') →
      (st.standing loc.runId).isSome = true → fate = .going →
      phase'.Fits ((payload.ends.map .ended).getD .going) →
      ∃ fate', Monitor.run Fate.step fate (written now (.appendEvent key payload) (.ok n)) =
          some fate' ∧ phase'.Fits fate' ∧
        fate'.Agrees ((st.standing loc.runId).map (stood (.appendEvent key payload) (.ok n))) := by
    rintro phase' key payload n run there rfl fits'
    obtain ⟨seq, rfl⟩ := append_some run there numbered
    refine ⟨_, rfl, fits', ?_⟩
    rw [show stood (.appendEvent key payload) (.ok (some seq)) = id from rfl, Option.map_id]
    intro s mem terminal
    cases agrees s mem terminal
  have moves := Phase.moves may r
  generalize phase.next o r = phase' at moves ⊢
  cases moves with
  | missing | terminal | vanished | undo | dequeue | release => exact quiet trivial rfl rfl
  | @check found going =>
    refine quiet ?_ rfl rfl
    by_contra ended
    refine absurd (undisturbed ended ?_) (by simp [Phase.closing])
    rw [← exec_getRun run]
    simpa using going
  | first | again | reread | load | build | enter => exact quiet fits rfl rfl
  | snapshot | stopHeartbeat => exact quiet fits rfl rfl
  | leave name input r =>
    refine quiet ?_ rfl rfl
    unfold Phase.left
    split
    · trivial
    · exact fits
  | resume => exact append run (row (by simp) (by simp)) fits rfl
  | unknown => exact append run (row (by simp) (by simp)) fits rfl
  | completed => exact append run (row (by simp) (by simp)) fits rfl
  | cancelled => exact append run (row (by simp) (by simp)) fits rfl
  | exceeded => exact append run (row (by simp) (by simp)) fits rfl
  | review => exact append run (row (by simp) (by simp)) fits rfl
  | failed => exact append run (row (by simp) (by simp)) fits rfl
  | saveUsage => exact quiet fits rfl rfl
  | markRunning =>
    refine ⟨fate, rfl, fits, ?_⟩
    rintro s mem terminal
    obtain ⟨old, -, rfl⟩ := Option.mem_map.mp mem
    cases terminal
  | finish result error terminal =>
    refine ⟨fate, rfl, trivial, ?_⟩
    rintro s mem -
    obtain ⟨old, -, rfl⟩ := Option.mem_map.mp mem
    exact fits
  | raise may' failed =>
    refine quiet trivial (ConsistencyLemmas.written_failure failed) ?_
    unfold stood
    split
    · cases failed
    · rfl

/-! One action. -/

/-- An attempt that has not begun has no opinion on the end of its run. -/
theorem fits_fresh {proc : Proc} (shaped : proc.Shaped cfg) (fresh : proc.started = false) :
    proc.phase.Fits fate := by
  rw [shaped.fresh fresh]
  trivial

/-- The other live attempts of a run while one of its attempts acts. -/
theorem fits_other {p q : Nat} {proc other : Proc}
    (shaped : ∀ (p : Nat) (proc : Proc), w.procs[p]? = some proc → proc.Shaped cfg)
    (ok : oneAfterAnother w a) (actor : a.actor = some p) (hp : w.procs[p]? = some proc)
    (hq : w.procs[q]? = some other) (ne : q ≠ p) (same : other.loc.runId = proc.loc.runId)
    (live : other.stopped = false) : other.phase.Fits fate := by
  refine fits_fresh (shaped q other hq) (Bool.eq_false_iff.mpr fun began => ?_)
  exact absurd ((ok p actor proc hp q other hq ne same began).symm.trans live) (by simp)

theorem final_quiet (numbered : w.store.Numbered)
    (h : w.step cfg a = some w') (outside : ¬ a.runsCode)
    (ok : undisturbed w a) (inv : w.Final runId) : w'.Final runId := by
  obtain ⟨fate, log, agrees, fits⟩ := inv
  -- the attempts are where they were, or at their start
  have phases : ∀ {fate' : Fate}, (∀ (p : Nat) (proc : Proc), w.procs[p]? = some proc →
      proc.stopped = false → proc.loc.runId = runId → proc.phase.Fits fate') →
      ∀ (p : Nat) (proc : Proc), w'.procs[p]? = some proc → proc.stopped = false →
        proc.loc.runId = runId → proc.phase.Fits fate' := by
    intro fate' before q proc' hq live run
    have moved : ∀ {p : Nat} {old new : Proc}, w.procs[p]? = some old →
        w'.procs = w.procs.set p new → new.phase = old.phase → new.loc.runId = old.loc.runId →
        (new.stopped = false → old.stopped = false) → proc'.phase.Fits fate' := by
      intro p old new hp procs phase same stopped
      rw [procs] at hq
      rcases procs_set hq with ⟨-, rfl⟩ | ⟨-, hq⟩
      · rw [phase]
        exact before p old hp (stopped live) (same.symm.trans run)
      · exact before q proc' hq live run
    have added : ∀ {new : Proc}, w'.procs = w.procs ++ [new] → new.phase = .start →
        proc'.phase.Fits fate' := by
      intro new procs start
      rw [procs] at hq
      rcases concat_cases hq with hq | ⟨-, rfl⟩
      · exact before q proc' hq live run
      · rw [start]
        trivial
    cases step_happens h with
    | submit | cancel | tick => exact before q proc' hq live run
    | claim => exact added rfl rfl
    | execute => exact added rfl rfl
    | beat _ hp => exact moved hp rfl rfl rfl id
    | refused hp => exact moved hp rfl rfl rfl id
    | call hp => exact moved hp rfl rfl rfl id
    | stop hp => exact moved hp rfl rfl rfl nofun
    | main | task => exact absurd trivial outside
  have standing : fate.Agrees (w'.store.standing runId) := by
    rcases quiet_standing h outside runId with ⟨same, -⟩ | ⟨-, new, -⟩
    · rw [same]
      exact agrees
    · rw [new]
      rintro _ ⟨⟩ terminal
      cases terminal
  rcases outside_log numbered h outside runId with
    same | ⟨none, empty, e, _, _, _, new, -, payload⟩ |
      ⟨rfl, ⟨run, found, going⟩, e, new, -, payload⟩
  · exact ⟨fate, by rw [same]; exact log, standing, phases fits⟩
  · -- the run is new
    rw [empty] at log
    cases log
    refine ⟨.going, ?_, standing, phases fits⟩
    rw [new, fateOf, Monitor.run_cons, step_going (by rw [payload]; rfl)]
    rfl
  · -- the cancel request was granted, so the log is not ended
    have open_ : fate = .going := by
      by_contra ended
      have half : w.halfEnded runId = true := by
        rw [World.halfEnded, (endedIn_iff log).mpr ended, found, Option.any_some, going]
        rfl
      exact absurd (half.symm.trans ok) (by simp)
    subst open_
    refine ⟨.going, ?_, standing, phases fits⟩
    rw [new, fate_append log, Monitor.run_cons, step_going (by rw [payload]; rfl)]
    rfl

theorem final_step (numbered : w.store.Numbered) (rows : w.Rows)
    (shaped : ∀ (p : Nat) (proc : Proc), w.procs[p]? = some proc → proc.Shaped cfg)
    (h : w.step cfg a = some w') (ooa : oneAfterAnother w a) (ok : undisturbed w a)
    (inv : w.Final runId) : w'.Final runId := by
  cases a with
  | main p ans =>
    obtain ⟨proc, o, r, loc, acts⟩ := main_acts shaped h
    obtain ⟨fate, log, agrees, fits⟩ := inv
    obtain ⟨k, -, same⟩ := acts.after
    obtain ⟨sameRun, -, -⟩ := exec_ctx acts.run
    have standing := (exec_standing acts.run runId).1
    by_cases own : runId = proc.loc.runId
    · subst own
      rw [if_pos rfl] at standing
      obtain ⟨fate', moves, fits', agrees'⟩ := fate_next numbered acts.may acts.run
        (fun start failing => rows p proc acts.hp (.inl ⟨start, failing⟩))
        (fits p proc acts.hp acts.alive rfl) agrees fun ended half => ok proc acts.hp (by
          rw [World.halfEnded, (endedIn_iff log).mpr ended, half]
          rfl)
      refine ⟨fate', ?_, by rw [standing]; exact agrees', fun q proc' hq live run => ?_⟩
      · rw [acts.log numbered, if_pos rfl, fate_append log, moves]
      · rw [same] at hq
        rcases procs_set hq with ⟨-, rfl⟩ | ⟨ne, hq⟩
        · exact fits'
        · exact fits_other shaped ooa rfl acts.hp hq ne run live
    · rw [if_neg own] at standing
      refine ⟨fate, ?_, by rw [standing]; exact agrees, fun q proc' hq live run => ?_⟩
      · rw [acts.log numbered, if_neg own, List.append_nil, log]
      · rw [same] at hq
        rcases procs_set hq with ⟨-, rfl⟩ | ⟨-, hq⟩
        · exact absurd (run.symm.trans sameRun) own
        · exact fits q proc' hq live run
  | task p c b ans =>
    obtain ⟨proc, rec, t, o, r, loc, acts⟩ := task_acts shaped h
    obtain ⟨fate, log, agrees, fits⟩ := inv
    obtain ⟨k, -, same⟩ := acts.after
    obtain ⟨sameRun, -, -⟩ := exec_ctx acts.run
    have standing : w'.store.standing runId = w.store.standing runId := by
      have still : stood o r = id := (step_unending acts.may w.now).1
      rw [(exec_standing acts.run runId).1, still]
      simp
    refine ⟨fate, ?_, by rw [standing]; exact agrees, fun q proc' hq live run => ?_⟩
    · rw [acts.log numbered]
      split
      · next own =>
        have open_ : fate = .going := by
          by_contra ended
          have := (endedIn_iff log).mpr ended
          rw [own] at this
          exact absurd (this.symm.trans (ok proc acts.hp)) (by simp)
        subst open_
        rw [fate_append log]
        exact run_going (step_unending acts.may w.now).2
      · rw [List.append_nil, log]
    · rw [same] at hq
      rcases procs_set hq with ⟨-, rfl⟩ | ⟨-, hq⟩
      · exact fits p proc acts.hp acts.alive (sameRun.symm.trans run)
      · exact fits q proc' hq live run
  | _ => exact final_quiet numbered h (by simp [Action.runsCode]) ok inv

end FinalityLemmas

open FinalityLemmas

theorem final_reaches {cfg : Config} {now : Int} {w : World}
    (h : Reaches (World.step cfg) (fun w a => oneAfterAnother w a ∧ undisturbed w a) (.init now) w)
    (runId : Uuid) : w.Final runId :=
  h.invariant ⟨.going, rfl, fun _ mem => absurd mem (Option.not_mem_none _),
    fun _ _ hp => absurd hp (by simp [World.init])⟩ fun _ _ _ reached inv ok step =>
    final_step (numbered_reaches reached) (rows_reaches reached)
      (fun _ _ hp => shaped_reaches reached hp) step ok.1 ok.2 inv

/-- The log is final and agrees with the row: where attempts follow one another and nothing
comes between the terminal event of a run and its terminal status, nothing follows a terminal
event and none precedes it, and a terminal status is announced by the log. -/
theorem log_is_final {cfg : Config} {now : Int} {w : World}
    (h : Reaches (World.step cfg) (fun w a => oneAfterAnother w a ∧ undisturbed w a) (.init now) w)
    (runId : Uuid) :
    (∀ a e b, w.store.loadEvents runId = a ++ e :: b → e.payload.ends.isSome = true →
      b = [] ∧ ∀ f ∈ a, f.payload.ends = none) ∧
    ∀ run, w.store.getRun runId = some run → run.status.terminal = true →
      ∃ e ∈ w.store.loadEvents runId, e.payload.ends = some run.status := by
  obtain ⟨fate, log, agrees, -⟩ := final_reaches h runId
  refine ⟨final_of_fate log, fun run found terminal => ended_announces ?_⟩
  have ended := agrees (run.status, run.result, run.error) (by rw [Store.standing, found]; rfl)
    terminal
  rw [← ended]
  exact log

/-- A run whose first attempt crashes in its workflow and whose second completes it, and a
cancel request that comes too late. -/
def Sample.concluded : List Action :=
  opening ++ [.stop 0, .tick 31000000, .claim "b" []] ++ proceed 1 8 ++
    [.main 1 (.value .none)] ++ proceed 1 4 ++ [.cancel runId]

theorem log_is_final_concluded : ∃ w,
    run (World.step Sample.cfg) (fun w a => oneAfterAnother w a ∧ undisturbed w a) (.init 0)
      Sample.concluded = some w ∧
    ((w.store.loadEvents Sample.runId).length = 3 ∧
      (w.store.standing Sample.runId).map (·.1) = some .completed) ∧
    (∀ a e b, w.store.loadEvents Sample.runId = a ++ e :: b → e.payload.ends.isSome = true →
      b = [] ∧ ∀ f ∈ a, f.payload.ends = none) ∧
    ∀ run, w.store.getRun Sample.runId = some run → run.status.terminal = true →
      ∃ e ∈ w.store.loadEvents Sample.runId, e.payload.ends = some run.status := by
  obtain ⟨w, h, facts⟩ := run_exists (World.step Sample.cfg)
    (fun w a => oneAfterAnother w a ∧ undisturbed w a) (.init 0) Sample.concluded
    (fun w => (w.store.loadEvents Sample.runId).length = 3 ∧
      (w.store.standing Sample.runId).map (·.1) = some .completed) (by decide)
  exact ⟨w, h, facts, log_is_final (run_reaches h) Sample.runId⟩

/-- A run whose first attempt crashes between its terminal event and its terminal status, and
whose second completes it again. -/
def Sample.endedTwice : List Action :=
  opening ++ [.main 0 (.value .none)] ++ proceed 0 2 ++ [.stop 0, .tick 31000000, .claim "b" []] ++
    proceed 1 8 ++ [.main 1 (.value .none)] ++ proceed 1 2

/-- The log has two terminal events, with the resumption between them. -/
theorem log_ends_twice : ∃ w,
    run (World.step Sample.cfg) oneAfterAnother (.init 0) Sample.endedTwice = some w ∧
    (w.store.loadEvents Sample.runId).map (fun e => e.payload.ends) =
      [none, some .completed, none, some .completed] :=
  run_exists (World.step Sample.cfg) oneAfterAnother (.init 0) Sample.endedTwice
    (fun w => (w.store.loadEvents Sample.runId).map (fun e => e.payload.ends) =
      [none, some .completed, none, some .completed]) (by decide)

end AnchorRuntime
