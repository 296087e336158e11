import AnchorRuntime.Sequential
import AnchorRuntime.Finality

/-!
# Terminal rows

What a terminal status means for the attempts of its run, when they follow one another: the
attempt that has written it has nothing left but its exit, and whoever reads the row later
goes straight there.

Results: `standing_cases`, only the main code of an attempt changes what a row says of its
run's fate; `parked_reaches`, attempts under way on a terminal row are over.
-/

namespace AnchorRuntime

open Effect Machine ShapeLemmas ProcLemmas SequentialLemmas

/-- The row of the run is terminal. -/
def World.terminal (w : World) (j : Uuid) : Bool := (w.store.standing j).any (·.1.terminal)

/-- `Engine.execute` has its outcome or has raised, without a lost lease. -/
def Phase.parked : Phase → Bool
  | .settled | .failing => true
  | _ => false

/-- An attempt under way on a terminal row is over. -/
def World.Parked (w : World) : Prop :=
  ∀ (p : Nat) (proc : Proc), w.procs[p]? = some proc → proc.started = true →
    proc.stopped = false → w.terminal proc.loc.runId = true → proc.phase.parked = true

namespace TerminalLemmas

variable {cfg : Config} {w w' : World} {a : Action} {p q : Nat} {proc proc' : Proc} {j : Uuid}

theorem terminal_iff :
    w.terminal j = true ↔ ∃ run, w.store.getRun j = some run ∧ run.status.terminal = true := by
  simp only [World.terminal, Store.standing, Option.any_map, Option.any_eq_true]

/-- Only an attempt's main code changes what the row says of the fate of its run, and only by
`set_status`; a submission makes a pending row. -/
theorem standing_cases
    (shaped : ∀ (p : Nat) (proc : Proc), w.procs[p]? = some proc → proc.Shaped cfg)
    (h : w.step cfg a = some w') (j : Uuid) :
    w'.store.standing j = w.store.standing j ∨
    (w.store.standing j = none ∧ w'.store.standing j = some (.pending, .none, none)) ∨
    ∃ p ans proc status result error loc, a = .main p ans ∧
      MainActs cfg w w' p ans proc (.setStatus status result error) (.ok ()) loc ∧
      proc.loc.runId = j ∧
      w'.store.standing j = (w.store.standing j).map (restand status result error) := by
  cases a with
  | main p ans =>
    obtain ⟨proc, o, r, loc, acts⟩ := main_acts shaped h
    have standing := (exec_standing acts.run j).1
    split at standing
    · next own =>
      by_cases still : stood o r = id
      · exact .inl (by rw [standing, still, Option.map_id]; rfl)
      · cases o with
        | setStatus status result error =>
          cases r with
          | ok => exact .inr (.inr ⟨p, ans, proc, _, _, _, loc, rfl, acts, own.symm, standing⟩)
          | error => exact absurd rfl still
        | _ => exact absurd rfl still
    · exact .inl standing
  | task p c b ans =>
    obtain ⟨proc, rec, t, o, r, loc, acts⟩ := task_acts shaped h
    have still : stood o r = id := (FinalityLemmas.step_unending acts.may w.now).1
    rw [(exec_standing acts.run j).1, still]
    exact .inl (by simp)
  | _ =>
    rcases quiet_standing h (by simp [Action.runsCode]) j with ⟨same, -⟩ | ⟨none, new, -⟩
    · exact .inl same
    · exact .inr (.inl ⟨none, new⟩)

/-- Who is over stays so. -/
theorem parked_next {phase : Phase} {o : Op} {r : Ans o} (may : phase.allowed o)
    (parked : phase.parked = true) : (phase.next o r).parked = true := by
  have moves := Phase.moves may r
  generalize phase.next o r = phase' at moves ⊢
  cases moves with
  | snapshot _ is => obtain ⟨_, rfl⟩ | rfl | rfl := is <;> first | rfl | cases parked
  | stopHeartbeat _ is => obtain rfl | rfl | rfl := is <;> first | rfl | cases parked
  | raise => rfl
  | _ => first | rfl | cases parked

/-- The first look at a terminal row. -/
theorem parked_start {o : Op} {r : Ans o} {loc : Local} {ans : Answer}
    (may : Phase.start.allowed o)
    (run : exec cfg w.now w.store proc.loc ans o = some (r, w'.store, loc))
    (terminal : w.terminal proc.loc.runId = true) : (Phase.start.next o r).parked = true := by
  have moves := Phase.moves may r
  generalize Phase.start.next o r = phase' at moves ⊢
  cases moves with
  | check going =>
    obtain ⟨row, found, ends⟩ := terminal_iff.mp terminal
    rw [Option.some.inj ((exec_getRun run).trans found), ends] at going
    cases going
  | snapshot _ is => obtain ⟨_, is⟩ | is | is := is <;> cases is
  | stopHeartbeat _ is => obtain is | is | is := is <;> cases is
  | missing | terminal | raise => rfl

theorem parked_step
    (shaped : ∀ (p : Nat) (proc : Proc), w.procs[p]? = some proc → proc.Shaped cfg)
    (h : w.step cfg a = some w') (sole : w'.Sole) (inv : w.Parked) : w'.Parked := by
  intro q proc' hq began live terminal
  rcases standing_cases shaped h proc'.loc.runId with
    same | ⟨-, new⟩ | ⟨p, ans, proc, status, result, error, loc, rfl, acts, own, new⟩
  · have before : w.terminal proc'.loc.runId = true := by rwa [World.terminal, same] at terminal
    cases attempt_cases shaped h hq with
    | same hp | beat _ _ hp | refused _ hp | call _ hp =>
      have was := inv q _ hp
      exact was began live before
    | fresh _ _ fresh => exact absurd (fresh.symm.trans began) (by simp)
    | stop => cases live
    | @task proc _ _ _ _ _ _ _ _ loc _ acts =>
      have before : w.terminal loc.runId = true := before
      rw [(exec_ctx acts.run).1] at before
      exact inv q proc acts.hp (began_of_task (shaped q proc acts.hp) acts.at_) acts.alive before
    | @main proc _ o k r loc _ acts =>
      have before : w.terminal loc.runId = true := before
      rw [(exec_ctx acts.run).1] at before
      cases hs : proc.started with
      | true => exact parked_next acts.may (inv q proc acts.hp hs live before)
      | false =>
        have may := acts.may
        have start := (shaped q proc acts.hp).fresh hs
        show (proc.phase.next o r).parked = true
        rw [start] at may ⊢
        exact parked_start may acts.run before
  · rw [World.terminal, new] at terminal
    cases terminal
  · -- the row was written by the only attempt under way
    obtain ⟨actor, hactor, sameLoc, phase, -, began', live'⟩ := acts.moved
    have same : actor.loc.runId = proc'.loc.runId := by
      rw [sameLoc, (exec_ctx acts.run).1, own]
    obtain rfl := sole q p proc' actor hq hactor same began live began' live'
    obtain rfl := Option.some.inj (hq.symm.trans hactor)
    rw [phase]
    have moves := Phase.moves acts.may (.ok ())
    generalize proc.phase.next (.setStatus status result error) (.ok ()) = phase' at moves ⊢
    generalize proc.phase = before at moves
    cases moves with
    | markRunning =>
      rw [World.terminal, new] at terminal
      cases hold : w.store.standing proc'.loc.runId <;> rw [hold] at terminal <;> cases terminal
    | finish => rfl
    | raise _ failed => rfl

end TerminalLemmas

open TerminalLemmas

theorem parked_reaches {cfg : Config} {now : Int} {ok : World → Action → Prop} {w : World}
    (h : Reaches (World.step cfg) ok (.init now) w)
    (orderly : ∀ w a, ok w a → oneAfterAnother w a) : w.Parked :=
  h.invariant (fun _ _ hp => absurd hp (by simp [World.init]))
    fun _ _ _ reached inv good step =>
      parked_step (fun _ _ => shaped_reaches reached) step
        (sole_reaches (.tail reached good step) orderly) inv

end AnchorRuntime
