import AnchorRuntime.Consistency

/-!
# Completed work

What holds of the log when the attempts of a run follow one another, whatever branches run
at once inside an attempt and wherever a crash cuts it.

Results: `completed_work_is_final`, a completion of a key is the only one, is preceded by a
start with the key's token and followed by nothing of the key's window, and the body is
invoked only between the two.
-/

namespace AnchorRuntime

open Effect Machine ShapeLemmas

/-- Every invocation of a body came while the window of its key was open. -/
def World.Timely (cfg : Config) (w : World) : Prop :=
  ∀ runId key, ∀ m ∈ w.invocations runId key,
    m.logged ≤ (w.store.loadEvents runId).length ∧
      lifeOf (stepToken cfg runId key).str key ((w.store.loadEvents runId).take m.logged) =
        some .opened

namespace CompletionLemmas

variable {cfg : Config} {w w' : World} {a : Action}

/-- A try is entered while the window is open. -/
theorem enters_opened {runId : Uuid} {key : String} {m : Moment}
    (shaped : ∀ (p : Nat) (proc : Proc), w.procs[p]? = some proc → proc.Shaped cfg)
    (inv : w.Consistent cfg) (h : Enters cfg w runId key a m) :
    w.life cfg runId key = some .opened := by
  cases h with
  | @task p c b n ans proc rec t _ hp alive at_ hkey hrun hstage =>
    subst hkey hrun
    cases hctx : proc.loc.ctx with
    | none => exact absurd at_.1 (by simp [(shaped _ _ hp).uncalled hctx])
    | some ctx =>
      obtain ⟨life, hlife, agrees⟩ := (inv.procs _ _ hp alive).tasks ctx hctx _ _ _ _ at_
      obtain ⟨counted, hstage⟩ := InvocationLemmas.trying_eq hstage
      rw [hstage] at agrees
      rw [hlife, show life = .opened from agrees]

theorem timely_step (numbered : w.store.Numbered)
    (shaped : ∀ (p : Nat) (proc : Proc), w.procs[p]? = some proc → proc.Shaped cfg)
    (h : w.step cfg a = some w') (inv : w.Consistent cfg) (timely : w.Timely cfg) :
    w'.Timely cfg := by
  intro runId key m mem
  obtain ⟨es, log, -⟩ := log_step numbered shaped h runId
  have grown : ∀ {n : Nat}, n ≤ (w.store.loadEvents runId).length →
      n ≤ (w'.store.loadEvents runId).length ∧
        (w'.store.loadEvents runId).take n = (w.store.loadEvents runId).take n := by
    intro n le
    rw [log, List.length_append]
    exact ⟨by omega, List.take_append_of_le_length le⟩
  have old : ∀ m ∈ w.invocations runId key, m.logged ≤ (w'.store.loadEvents runId).length ∧
      lifeOf (stepToken cfg runId key).str key ((w'.store.loadEvents runId).take m.logged) =
        some .opened := by
    intro m mem
    obtain ⟨le, opened⟩ := timely runId key m mem
    obtain ⟨le', take⟩ := grown le
    exact ⟨le', by rw [take]; exact opened⟩
  rcases invocations_step shaped h runId key with same | ⟨new, added, enters⟩
  · exact old m (same ▸ mem)
  · rw [added, List.mem_append, List.mem_singleton] at mem
    rcases mem with mem | rfl
    · exact old m mem
    · have opened := enters_opened shaped inv enters
      cases enters with
      | task _ _ _ _ _ _ _ _ _ logged =>
        obtain ⟨le, take⟩ := grown (Nat.le_refl (w.store.loadEvents runId).length)
        rw [logged, take, List.take_length]
        exact ⟨le, opened⟩

theorem timely_reaches {now : Int} {ok : World → Action → Prop}
    (h : Reaches (World.step cfg) ok (.init now) w)
    (orderly : ∀ w a, ok w a → oneAfterAnother w a) : w.Timely cfg := by
  induction h with
  | refl => exact fun _ _ m mem => absurd mem (by simp [World.invocations, World.init])
  | tail h _ hs timely =>
    exact timely_step (numbered_reaches h) (fun _ _ => shaped_reaches h) hs
      (consistent_reaches h orderly) timely

/-- Where the window is open there was a start, and no completion. -/
theorem opened_started {token key : String} {log : List Event}
    (h : lifeOf token key log = some .opened) :
    (∃ e ∈ log, e.starts token key) ∧ ∀ e ∈ log, ¬ e.completes key := by
  refine ⟨?_, fun e mem completes => ?_⟩
  · rcases Monitor.run_entered Life.begun (Event.starts token key)
      (fun _ _ _ => LifecycleLemmas.step_begun) h trivial with fresh | started
    · exact fresh.elim
    · exact started
  · obtain ⟨a, b, rfl⟩ := List.append_of_mem mem
    obtain ⟨u, -, hrest⟩ := Monitor.run_prefix h
    obtain ⟨v, hv, hb⟩ := Option.bind_eq_some_iff.mp hrest
    have done := (LifecycleLemmas.step_completes completes hv).2
    exact (Monitor.run_absorbed Life.isDone (Event.concerns key)
      (fun _ _ _ => LifecycleLemmas.step_done) hb done).1.elim

/-- The result of a closed window is in the log. -/
theorem done_recorded {token key : String} {log : List Event} {result : Value}
    (h : lifeOf token key log = some (.done result)) :
    ∃ e ∈ log, e.stepKey = some key ∧ ∃ by_, e.payload = .stepCompleted result by_ := by
  refine (Monitor.run_entered (· = Life.done result)
    (fun e => e.stepKey = some key ∧ ∃ by_, e.payload = .stepCompleted result by_)
    (fun life e life' move done => ?_) h rfl).resolve_left (by simp)
  subst done
  unfold Life.step at move
  split at move
  · next same =>
    by_cases quiet : e.payload.lifecycle = true
    · cases life <;> cases hp : e.payload <;> simp_all [Life.move, Payload.lifecycle]
    · rw [LifecycleLemmas.move_quiet (by simpa using quiet)] at move
      exact .inl (Option.some.inj move)
  · exact .inl (Option.some.inj move)

/-- A key is completed once at most. -/
theorem completed_once {token key : String} {log a b : List Event} {e : Event} {life : Life}
    (h : lifeOf token key log = some life) (split : log = a ++ e :: b)
    (completes : e.completes key) :
    ∀ f ∈ a ++ b, ¬ f.completes key := by
  have concerns : ∀ {f : Event}, f.completes key → f.concerns key := by
    rintro f ⟨same, result, by_, payload⟩
    exact ⟨same, by rw [payload]; rfl⟩
  have final := (orderly_of_life h).final
  intro f mem again
  rcases List.mem_append.mp mem with before | after
  · obtain ⟨a₁, a₂, rfl⟩ := List.append_of_mem before
    exact final a₁ f (a₂ ++ e :: b) (by rw [split, List.append_assoc]; rfl) again e
      (by simp) (concerns completes)
  · exact final a e b split completes f after (concerns again)

end CompletionLemmas

open CompletionLemmas

/-- Completed work is never repeated and is written ahead: in every world that attempts
following one another reach, and for every key of every run, what completes the key is
preceded by a start that carries its token and followed by no start, retry, failure or
completion of the key; and each invocation of the key's body came when the log held a start
and no completion of it. -/
theorem completed_work_is_final {cfg : Config} {now : Int} {w : World}
    (h : Reaches (World.step cfg) oneAfterAnother (.init now) w) (runId : Uuid) (key : String) :
    (∀ a e b, w.store.loadEvents runId = a ++ e :: b → e.completes key →
      (∃ f ∈ a, f.starts (stepToken cfg runId key).str key) ∧ (∀ f ∈ a, ¬ f.completes key) ∧
        ∀ f ∈ b, ¬ f.concerns key) ∧
    ∀ m ∈ w.invocations runId key,
      m.logged ≤ (w.store.loadEvents runId).length ∧
      (∃ f ∈ (w.store.loadEvents runId).take m.logged,
        f.starts (stepToken cfg runId key).str key) ∧
      ∀ f ∈ (w.store.loadEvents runId).take m.logged, ¬ f.completes key := by
  obtain ⟨life, hlife⟩ := (consistent_reaches h fun _ _ ok => ok).lives runId key
  have orderly := orderly_of_life hlife
  refine ⟨fun a e b log completes => ⟨orderly.ahead a e b log completes, fun f mem first => ?_,
    orderly.final a e b log completes⟩, fun m mem => ?_⟩
  · -- an earlier completion would be followed by this one
    obtain ⟨x, y, rfl⟩ := List.append_of_mem mem
    have concerns : e.concerns key := by
      obtain ⟨same, result, by_, payload⟩ := completes
      exact ⟨same, by rw [payload]; rfl⟩
    exact orderly.final x f (y ++ e :: b) (by rw [log]; simp) first e (by simp) concerns
  · obtain ⟨le, opened⟩ := timely_reaches h (fun _ _ ok => ok) runId key m mem
    exact ⟨le, opened_started opened⟩

/-- A run whose first attempt crashes after its step has completed, taken up again. -/
def Sample.resumed : List Action :=
  opening ++ [calls 0 "x" .atLeastOnce] ++ advance 0 0 7 ++
    [.task 0 0 0 (.value (.int 5)), .task 0 0 0 .done, .stop 0, .tick 31000000, .claim "b" []] ++
    proceed 1 8 ++ [calls 1 "x" .atLeastOnce] ++ advance 1 0 2

/-- There the log holds one completion, and the second attempt replays it. -/
theorem completed_work_is_final_resumed : ∃ w,
    run (World.step Sample.cfg) oneAfterAnother (.init 0) Sample.resumed = some w ∧
    ((w.store.loadEvents Sample.runId).length = 4 ∧
      (w.invocations Sample.runId "x#1").length = 1) ∧
    (∀ a e b, w.store.loadEvents Sample.runId = a ++ e :: b → e.completes "x#1" →
      (∃ f ∈ a, f.starts (stepToken Sample.cfg Sample.runId "x#1").str "x#1") ∧
        (∀ f ∈ a, ¬ f.completes "x#1") ∧ ∀ f ∈ b, ¬ f.concerns "x#1") ∧
    ∀ m ∈ w.invocations Sample.runId "x#1",
      m.logged ≤ (w.store.loadEvents Sample.runId).length ∧
      (∃ f ∈ (w.store.loadEvents Sample.runId).take m.logged,
        f.starts (stepToken Sample.cfg Sample.runId "x#1").str "x#1") ∧
      ∀ f ∈ (w.store.loadEvents Sample.runId).take m.logged, ¬ f.completes "x#1" := by
  obtain ⟨w, h, facts⟩ := run_exists (World.step Sample.cfg) oneAfterAnother (.init 0)
    Sample.resumed (fun w => (w.store.loadEvents Sample.runId).length = 4 ∧
      (w.invocations Sample.runId "x#1").length = 1) (by decide)
  exact ⟨w, h, facts, completed_work_is_final (run_reaches h) Sample.runId "x#1"⟩

end AnchorRuntime
