import AnchorRuntime.Sequential

/-!
# Cancellation

A cancel request sets a flag on the row of the run, which every boundary check reads and
nothing clears. A step that has passed its check before may still open its window.

Results: `barred_reaches`, a step that had not passed its check when the flag was set does
not get past it; `cancellation_sticks`, at most one start follows a cancel request of a
sequential workflow.
-/

namespace AnchorRuntime

open Effect Machine ShapeLemmas ProcLemmas TaskLemmas SequentialLemmas RowLemmas

/-! ## The flag -/

/-- A cancel request is granted exactly to a run that exists and is not terminal, and is never
answered with an error. -/
theorem requestCancel_granted {st : Store} (numbered : st.Numbered) (now : Int) (runId : Uuid) :
    ∃ granted st', st.requestCancel now runId = .ok (granted, st') ∧
      (granted = true ↔ ∃ run, st.getRun runId = some run ∧ run.status.terminal = false) ∧
      (granted = true → st'.isCancelRequested runId = true) := by
  cases h : st.requestCancel now runId with
  | error e =>
    -- the event has no payload, so there is nothing the database could reject
    unfold Store.requestCancel at h
    split at h
    · cases h
    · split at h
      · cases h
      · have flagged : (st.flag now runId).Numbered :=
          (StoreLemmas.numbered_update numbered (fun _ => by rfl) _).1
        cases appended : (st.flag now runId).appendEvent now runId none .cancelRequested with
        | error e => cases (appendEvent_ok flagged appended).2
        | ok a => simp [appended, bind, Except.bind, pure, Except.pure] at h
  | ok answer =>
    obtain ⟨granted, st'⟩ := answer
    refine ⟨granted, st', rfl, ?_⟩
    rcases requestCancel_cases numbered h with ⟨rfl, -, terminal⟩ | ⟨rfl, going, flag, -⟩
    · refine ⟨⟨nofun, ?_⟩, nofun⟩
      rintro ⟨run, found, going⟩
      exact absurd ((terminal run found).symm.trans going) (by simp)
    · exact ⟨⟨fun _ => going, fun _ => rfl⟩, fun _ => flag⟩

namespace CancellationLemmas

variable {cfg : Config} {now : Int} {st st' : Store} {loc loc' : Local} {ans : Answer}
  {w w' : World} {a : Action} {runId : Uuid}

theorem flag_eq (st : Store) (runId : Uuid) :
    st.isCancelRequested runId = ((st.getRun runId).map (·.cancelRequested)).getD false := by
  unfold Store.isCancelRequested Store.getRun
  cases st.runs.find runId <;> rfl

theorem flag_congr (same : (st'.getRun runId).map (·.cancelRequested) =
    (st.getRun runId).map (·.cancelRequested)) :
    st'.isCancelRequested runId = st.isCancelRequested runId := by
  rw [flag_eq, flag_eq, same]

theorem exec_flag {o : Op} {r : Ans o} (run : exec cfg now st loc ans o = some (r, st', loc')) :
    st'.isCancelRequested runId = st.isCancelRequested runId :=
  flag_congr (exec_field (fun _ _ _ _ _ _ _ _ _ => rfl) run runId)

/-- The flag is never cleared. -/
theorem flag_step (numbered : w.store.Numbered) (h : w.step cfg a = some w')
    (flag : w.store.isCancelRequested runId = true) :
    w'.store.isCancelRequested runId = true := by
  cases step_happens h with
  | submit done =>
    have steady : Steady RunRecord.cancelRequested := fun _ _ _ => rfl
    rcases submitRun_field steady done runId with same | ⟨none, -⟩
    · exact (flag_congr same).trans flag
    · rw [flag_eq, none] at flag
      cases flag
  | @cancel other _ store done =>
    by_cases own : runId = other
    · subst own
      rcases requestCancel_cases numbered done with ⟨-, rfl, -⟩ | ⟨-, -, set, -⟩
      · exact flag
      · exact set
    · refine (flag_congr ?_).trans flag
      exact requestCancel_other (fun _ _ _ => rfl) done own
  | claim done =>
    unfold Store.claim at done
    split at done
    · cases done
    · cases done
      exact flag
  | beat _ _ _ _ store =>
    rcases store with rfl | rfl
    · exact flag
    · unfold Store.heartbeat
      split <;> exact flag
  | main _ _ _ run => exact (exec_flag run).trans flag
  | task _ _ _ _ _ run => exact (exec_flag run).trans flag
  | tick | execute | refused | call | stop => exact flag

end CancellationLemmas

open CancellationLemmas

/-! ## Barred steps -/

/-- The stages of a step that has not got past the cancellation check of its boundary, and
of one that was replayed or has raised. -/
def Stage.barred : Stage → Bool
  | .entry | .replayed _ | .boundary | .leased | .escaped _ => true
  | _ => false

/-- Step `b` of call `c` of attempt `p` has got past its cancellation check. -/
def World.passed (w : World) (p c b : Nat) : Prop :=
  ∃ proc rec t, w.procs[p]? = some proc ∧ proc.At c b rec t ∧ t.stage.barred = false

namespace CancellationLemmas

variable {cfg : Config} {now : Int} {st st' : Store} {loc loc' : Local} {ans : Answer}
  {w w' : World} {a : Action} {runId : Uuid}

theorem exec_isCancelRequested {r : Ans .isCancelRequested} {requested : Bool}
    (run : exec cfg now st loc ans .isCancelRequested = some (r, st', loc'))
    (ok : r = .ok requested) : requested = st.isCancelRequested loc.runId := by
  subst ok
  simp only [exec] at run
  obtain ⟨-, ⟨b, ok, same⟩ | ⟨_, error, -⟩⟩ := ExecLemmas.storeCall_cases run
  · cases ok
    exact Except.ok.inj same
  · cases error

/-- The check reads the flag, so a barred step stays barred. -/
theorem barred_next {s : StepSetup} {stage : Stage} {o : Op} {r : Ans o} (may : s.allowed stage o)
    (run : exec cfg now st loc ans o = some (r, st', loc'))
    (flag : st.isCancelRequested loc.runId = true) (barred : stage.barred = true) :
    (s.next stage o r).barred = true := by
  have moves := StepSetup.moves may r
  generalize s.next stage o r = stage' at moves ⊢
  cases moves with
  | uncancelled => exact (exec_isCancelRequested run rfl).trans flag
  | _ => first | rfl | cases barred

end CancellationLemmas

/-- Once a run is flagged it stays flagged, and its steps that have not got past their
cancellation check do not, whatever the schedule. -/
theorem barred_reaches {cfg : Config} {now : Int} {ok : World → Action → Prop} {w w' : World}
    {runId : Uuid} (h : Reaches (World.step cfg) ok (.init now) w)
    (flag : w.store.isCancelRequested runId = true)
    (rest : Reaches (World.step cfg) (fun _ _ => True) w w') :
    w'.store.isCancelRequested runId = true ∧
      ∀ (p : Nat) (proc : Proc) (c b : Nat) (rec : CallRecord) (t : Task),
        w'.procs[p]? = some proc → proc.loc.runId = runId → proc.At c b rec t →
        t.stage.barred = true ∨ w.passed p c b := by
  induction rest with
  | refl =>
    refine ⟨flag, fun p proc c b rec t hp _ at_ => ?_⟩
    cases barred : t.stage.barred with
    | true => exact .inl rfl
    | false => exact .inr ⟨proc, rec, t, hp, at_, barred⟩
  | tail reached _ step inv =>
    have all := (show Reaches (World.step cfg) (fun _ _ => True) _ w from
      h.weaken fun _ _ _ => trivial).trans reached
    refine ⟨flag_step (numbered_reaches all) step inv.1, fun p proc c b rec t hp run at_ => ?_⟩
    cases task_cases (fun _ _ hp => shaped_reaches all hp) step hp at_ with
    | same hq old same key => exact inv.2 p _ c b _ _ hq (key.runId.symm.trans run) old
    | moved _ hq _ old _ _ exec_ may =>
      have own := (exec_ctx exec_).1.symm.trans run
      rcases inv.2 p _ c b _ _ hq own old with barred | passed
      · exact .inl (barred_next may exec_ (by rw [own]; exact inv.1) barred)
      · exact .inr passed
    | called => exact .inl rfl

/-! ## Starts after a cancel request -/

def Payload.isCancel : Payload → Bool
  | .cancelRequested => true
  | _ => false

/-- How many windows the events open. -/
def starts (log : List Event) : Nat := (log.filter fun e => e.payload.isStart).length

/-- The step has passed its boundary and opens its window next, unless the window is open. -/
def Stage.pending : Stage → Bool
  | .uncancelled | .admitted | .starting => true
  | _ => false

/-- Step `b` of call `c` of live attempt `p` of the run is about to open its window. -/
def World.Pending (w : World) (runId : Uuid) (p c b : Nat) : Prop :=
  ∃ proc rec t, w.procs[p]? = some proc ∧ proc.stopped = false ∧ proc.loc.runId = runId ∧
    proc.At c b rec t ∧ t.stage.pending = true

/-- A cancel request is followed by no start, or by one, and then no step is about to open its
window. -/
structure World.Barred (w : World) (runId : Uuid) : Prop where
  flagged : ∀ e ∈ w.store.loadEvents runId, e.payload.isCancel = true →
    w.store.isCancelRequested runId = true
  bound : ∀ a e b, w.store.loadEvents runId = a ++ e :: b → e.payload.isCancel = true →
    starts b = 0 ∨ (starts b = 1 ∧ ∀ p c b, ¬ w.Pending runId p c b)

namespace CancellationLemmas

variable {cfg : Config} {now : Int} {st st' : Store} {loc loc' : Local} {ans : Answer}
  {w w' : World} {a : Action} {runId : Uuid}

theorem starts_append (a b : List Event) : starts (a ++ b) = starts a + starts b := by
  rw [starts, List.filter_append, List.length_append]
  rfl

theorem pending_prelude {stage : Stage} (h : stage.pending = true) : stage.prelude = true := by
  cases stage <;> first | rfl | cases h

/-- A step is about to open its window because it was, or because its check has passed. -/
theorem pending_next {s : StepSetup} {stage : Stage} {o : Op} {r : Ans o} (may : s.allowed stage o)
    (run : exec cfg now st loc ans o = some (r, st', loc'))
    (flag : st.isCancelRequested loc.runId = true) (pending : (s.next stage o r).pending = true) :
    stage.pending = true := by
  have moves := StepSetup.moves may r
  generalize s.next stage o r = stage' at moves pending
  cases moves with
  | uncancelled => cases (exec_isCancelRequested run rfl).trans flag
  | _ => first | rfl | cases pending

/-- Once the run is flagged nobody comes to be about to open a window. -/
theorem pending_before
    (shaped : ∀ (p : Nat) (proc : Proc), w.procs[p]? = some proc → proc.Shaped cfg)
    (h : w.step cfg a = some w') (flag : w.store.isCancelRequested runId = true) {p c b : Nat}
    (pending : w'.Pending runId p c b) : w.Pending runId p c b := by
  obtain ⟨proc', rec', t', hp, live, run, at_, inside⟩ := pending
  cases task_cases shaped h hp at_ with
  | same hq old same key stopped =>
    exact ⟨_, _, _, hq, stopped live, key.runId.symm.trans run, old, inside⟩
  | moved _ hq alive old _ _ exec_ may =>
    have own := (exec_ctx exec_).1.symm.trans run
    exact ⟨_, _, _, hq, alive, own, old, pending_next may exec_ (by rw [own]; exact flag) inside⟩
  | called => cases inside

/-- No code of an attempt writes the event of a cancel request. -/
theorem phase_uncancelling {phase : Phase} {key : Option String} {payload : Payload}
    (may : phase.allowed (.appendEvent key payload)) :
    payload.isCancel = false ∧ payload.isStart = false := by
  have moves := Phase.moves may (.ok none)
  generalize phase.next (.appendEvent key payload) (.ok none) = phase' at moves
  cases moves with
  | raise _ failed => cases failed
  | _ => exact ⟨rfl, rfl⟩

theorem step_uncancelling {s : StepSetup} {stage : Stage} {key : Option String}
    {payload : Payload} (may : s.allowed stage (.appendEvent key payload)) :
    payload.isCancel = false := by
  have moves := StepSetup.moves may (.ok none)
  generalize s.next stage (.appendEvent key payload) (.ok none) = stage' at moves
  cases moves with
  | raise _ failed => cases failed
  | invoked _ _ trailing | called _ trailing =>
    cases payload <;> first | rfl | exact trailing.elim
  | _ => rfl

/-- The bound after events that are no requests, and a start only if nobody else may start. -/
theorem barred_grow {es : List Event} (numbered : w.store.Numbered)
    (h : w.step cfg a = some w')
    (log : w'.store.loadEvents runId = w.store.loadEvents runId ++ es)
    (quiet : ∀ e ∈ es, e.payload.isCancel = false)
    (later : w.store.isCancelRequested runId = true → starts es = 0 ∧
        (∀ p c b, w'.Pending runId p c b → w.Pending runId p c b) ∨
      starts es = 1 ∧ (∃ p c b, w.Pending runId p c b) ∧ ∀ p c b, ¬ w'.Pending runId p c b)
    (inv : w.Barred runId) : w'.Barred runId := by
  have flagged : ∀ e ∈ w'.store.loadEvents runId, e.payload.isCancel = true →
      w.store.isCancelRequested runId = true := by
    intro e mem cancel
    rw [log] at mem
    rcases List.mem_append.mp mem with old | new
    · exact inv.flagged e old cancel
    · exact absurd ((quiet e new).symm.trans cancel) (by simp)
  refine ⟨fun e mem cancel => flag_step numbered h (flagged e mem cancel),
    fun before e after split cancel => ?_⟩
  have flag := flagged e (by rw [split]; simp) cancel
  rw [log] at split
  rcases Monitor.split_append split with ⟨after', old, rfl⟩ | ⟨_, -, new⟩
  · rw [starts_append]
    rcases inv.bound before e after' old cancel with none | ⟨one, nobody⟩
    · rcases later flag with ⟨zero, -⟩ | ⟨one, -, nobody⟩
      · exact .inl (by omega)
      · exact .inr ⟨by omega, nobody⟩
    · rcases later flag with ⟨zero, same⟩ | ⟨-, ⟨p, c, b, pending⟩, -⟩
      · exact .inr ⟨by omega, fun p c b pending => nobody p c b (same p c b pending)⟩
      · exact absurd pending (nobody p c b)
  · exact absurd ((quiet e (by rw [new]; simp)).symm.trans cancel) (by simp)

/-- A granted request is followed by nothing yet. -/
theorem barred_request
    (shaped : ∀ (p : Nat) (proc : Proc), w.procs[p]? = some proc → proc.Shaped cfg)
    (h : w.step cfg a = some w') {e : Event} (start : e.payload.isStart = false)
    (log : w'.store.loadEvents runId = w.store.loadEvents runId ++ [e])
    (flag : w'.store.isCancelRequested runId = true) (inv : w.Barred runId) :
    w'.Barred runId := by
  refine ⟨fun _ _ _ => flag, fun before f after split cancel => ?_⟩
  rw [log] at split
  rcases Monitor.split_concat split with ⟨rfl, -, -⟩ | ⟨after', rfl, old⟩
  · exact .inl rfl
  · have flag := inv.flagged f (by rw [old]; simp) cancel
    have zero : starts [e] = 0 := by simp [starts, start]
    rw [starts_append, zero, Nat.add_zero]
    refine (inv.bound before f after' old cancel).imp id fun ⟨one, nobody⟩ =>
      ⟨one, fun p c b pending => nobody p c b (pending_before shaped h flag pending)⟩

theorem barred_quiet (numbered : w.store.Numbered)
    (shaped : ∀ (p : Nat) (proc : Proc), w.procs[p]? = some proc → proc.Shaped cfg)
    (h : w.step cfg a = some w') (outside : ¬ a.runsCode) (inv : w.Barred runId) :
    w'.Barred runId := by
  have same : w.store.isCancelRequested runId = true →
      ∀ p c b, w'.Pending runId p c b → w.Pending runId p c b :=
    fun flag p c b pending => pending_before shaped h flag pending
  rcases outside_log numbered h outside runId with
    still | ⟨-, empty, e, _, _, _, new, -, payload⟩ | ⟨rfl, -, e, new, -, payload⟩
  · exact barred_grow numbered h (still.trans (List.append_nil _).symm) (by simp)
      (fun flag => .inl ⟨rfl, same flag⟩) inv
  · refine barred_grow numbered h (new.trans (by rw [empty]; rfl)) (fun f hf => ?_)
      (fun flag => .inl ⟨?_, same flag⟩) inv
    · obtain rfl := List.mem_singleton.mp hf
      rw [payload]
      rfl
    · simp [starts, payload, Payload.isStart]
  · refine barred_request shaped h (by rw [payload]; rfl) new ?_ inv
    cases step_happens h with
    | cancel done =>
      rcases requestCancel_cases numbered done with ⟨-, rfl, -⟩ | ⟨-, -, flag, -⟩
      · simp at new
      · exact flag

theorem barred_step (numbered : w.store.Numbered)
    (shaped : ∀ (p : Nat) (proc : Proc), w.procs[p]? = some proc → proc.Shaped cfg)
    (unique : ∀ p c b q c' b', w.Pending runId p c b → w.Pending runId q c' b' →
      p = q ∧ c = c' ∧ b = b')
    (h : w.step cfg a = some w') (inv : w.Barred runId) : w'.Barred runId := by
  have same : w.store.isCancelRequested runId = true →
      ∀ p c b, w'.Pending runId p c b → w.Pending runId p c b :=
    fun flag p c b pending => pending_before shaped h flag pending
  cases a with
  | main p ans =>
    obtain ⟨proc, o, r, loc, acts⟩ := main_acts shaped h
    have quiet : ∀ e ∈ (if runId = proc.loc.runId then written w.now o r else []),
        e.payload.isCancel = false ∧ e.payload.isStart = false := by
      intro e mem
      split at mem
      · obtain ⟨_, rfl, -⟩ := InvocationLemmas.written_event mem
        exact phase_uncancelling acts.may
      · cases mem
    refine barred_grow numbered h (acts.log numbered runId) (fun e mem => (quiet e mem).1)
      (fun flag => .inl ⟨?_, same flag⟩) inv
    rw [starts, List.filter_eq_nil_iff.mpr fun e mem => by simp [(quiet e mem).2]]
    rfl
  | task p c b ans =>
    obtain ⟨proc, rec, t, o, r, loc, acts⟩ := task_acts shaped h
    have log := acts.log numbered runId
    cases written_ : (if runId = proc.loc.runId then written w.now o r else []) with
    | nil =>
      rw [written_] at log
      exact barred_grow numbered h log (by simp) (fun flag => .inl ⟨rfl, same flag⟩) inv
    | cons e es =>
      have mem : e ∈ (if runId = proc.loc.runId then written w.now o r else []) := by
        rw [written_]
        exact List.mem_cons_self
      split at mem
      · next own =>
        obtain ⟨_, rfl, one, -⟩ := InvocationLemmas.written_event mem
        rw [if_pos own, one] at log
        refine barred_grow numbered h log (fun f hf => ?_) (fun flag => ?_) inv
        · obtain rfl := List.mem_singleton.mp hf
          exact step_uncancelling acts.may
        · cases start : e.payload.isStart with
          | false => exact .inl ⟨by simp [starts, start], same flag⟩
          | true =>
            have starting := start_starting acts.may start
            have mine : w.Pending runId p c b :=
              ⟨proc, rec, t, acts.hp, acts.alive, own.symm, acts.at_, by rw [starting]; rfl⟩
            refine .inr ⟨by simp [starts, start], ⟨p, c, b, mine⟩, fun q c' b' pending => ?_⟩
            -- nobody else was about to start, and this step has started
            obtain ⟨rfl, rfl, rfl⟩ := unique _ _ _ _ _ _ mine (same flag q c' b' pending)
            obtain ⟨proc', rec', t', hp', -, -, at', inside⟩ := pending
            obtain ⟨proc'', rec'', t'', hp'', -, at'', -, -, stage⟩ := acts.moved
            obtain rfl : proc' = proc'' := Option.some.inj (hp'.symm.trans hp'')
            obtain rfl : rec' = rec'' := Option.some.inj (at'.1.symm.trans at''.1)
            obtain rfl : t' = t'' := Option.some.inj (at'.2.symm.trans at''.2)
            rw [stage, starting] at inside
            cases r with
            | ok n => cases inside
            | error e => cases mem
      · cases mem
  | _ => exact barred_quiet numbered shaped h (by simp [Action.runsCode]) inv

theorem unique_pending {now : Int} {ok : World → Action → Prop}
    (h : Reaches (World.step cfg) ok (.init now) w)
    (orderly : ∀ w a, ok w a → oneAfterAnother w a) (inOrder : ∀ w a, ok w a → sequential cfg w a)
    (p c b q c' b' : Nat) (mine : w.Pending runId p c b) (its : w.Pending runId q c' b') :
    p = q ∧ c = c' ∧ b = b' := by
  obtain ⟨proc, rec, t, hp, live, run, at_, inside⟩ := mine
  obtain ⟨other, rec', t', hq, live', run', at', inside'⟩ := its
  exact prelude_unique h orderly inOrder hp hq live live' (run'.trans run.symm) at_ at'
    (pending_prelude inside) (pending_prelude inside')

theorem barred_init (now : Int) (runId : Uuid) : (World.init now).Barred runId :=
  ⟨fun _ mem => absurd mem List.not_mem_nil, fun a _ _ none => by cases a <;> cases none⟩

theorem barred_run {now : Int}
    (h : Reaches (World.step cfg) (fun w a => oneAfterAnother w a ∧ sequential cfg w a)
      (.init now) w) (runId : Uuid) : w.Barred runId :=
  h.invariant (barred_init now runId) fun _ _ _ reached inv _ step =>
    barred_step (numbered_reaches reached) (fun _ _ hp => shaped_reaches reached hp)
      (unique_pending reached (fun _ _ ok => ok.1) fun _ _ ok => ok.2) step inv

end CancellationLemmas

open CancellationLemmas

/-- Cancellation sticks: for sequential workflows whose attempts follow one another, a cancel
request is granted exactly while the run exists and is not terminal, and sets its flag; a flag
that is set stays set, and no step that has not passed its cancellation check gets past it,
it is replayed or raises; and every cancel request in the log is followed by at most one
start. -/
theorem cancellation_sticks {cfg : Config} {now : Int} {w : World}
    (h : Reaches (World.step cfg) (fun w a => oneAfterAnother w a ∧ sequential cfg w a)
      (.init now) w) (runId : Uuid) :
    (∃ granted st, w.store.requestCancel w.now runId = .ok (granted, st) ∧
      (granted = true ↔ ∃ run, w.store.getRun runId = some run ∧ run.status.terminal = false) ∧
      (granted = true → st.isCancelRequested runId = true)) ∧
    (w.store.isCancelRequested runId = true → ∀ w',
      Reaches (World.step cfg) (fun _ _ => True) w w' →
      w'.store.isCancelRequested runId = true ∧
        ∀ (p : Nat) (proc : Proc) (c b : Nat) (rec : CallRecord) (t : Task),
          w'.procs[p]? = some proc → proc.loc.runId = runId → proc.At c b rec t →
          t.stage.barred = true ∨ w.passed p c b) ∧
    ∀ a e b, w.store.loadEvents runId = a ++ e :: b → e.payload.isCancel = true →
      (b.filter fun f => f.payload.isStart).length ≤ 1 := by
  refine ⟨requestCancel_granted (numbered_reaches h) w.now runId,
    fun flag w' rest => barred_reaches h flag rest, fun a e b split cancel => ?_⟩
  have barred := barred_run h runId
  rcases barred.bound a e b split cancel with none | ⟨one, -⟩
  · exact none.trans_le (Nat.zero_le 1)
  · exact one.le

/-- A step that is cancelled between its boundary and its start, and a later step. -/
def Sample.cancelledLate : List Action :=
  opening ++ [calls 0 "x" .atLeastOnce] ++ advance 0 0 5 ++ [.cancel runId] ++ advance 0 0 2 ++
    [.task 0 0 0 (.value (.int 5))] ++ advance 0 0 4 ++ [calls 0 "y" .atLeastOnce] ++ advance 0 1 3

theorem cancellation_sticks_late : ∃ w,
    run (World.step Sample.cfg) (fun w a => oneAfterAnother w a ∧ sequential Sample.cfg w a)
      (.init 0) Sample.cancelledLate = some w ∧
    ((w.store.loadEvents Sample.runId).map (fun e => (e.payload.isCancel, e.payload.isStart)) =
      [(false, false), (true, false), (false, true), (false, false)] ∧
      w.store.isCancelRequested Sample.runId = true) ∧
    ((∃ granted st, w.store.requestCancel w.now Sample.runId = .ok (granted, st) ∧
      (granted = true ↔
        ∃ run, w.store.getRun Sample.runId = some run ∧ run.status.terminal = false) ∧
      (granted = true → st.isCancelRequested Sample.runId = true)) ∧
    (w.store.isCancelRequested Sample.runId = true → ∀ w',
      Reaches (World.step Sample.cfg) (fun _ _ => True) w w' →
      w'.store.isCancelRequested Sample.runId = true ∧
        ∀ (p : Nat) (proc : Proc) (c b : Nat) (rec : CallRecord) (t : Task),
          w'.procs[p]? = some proc → proc.loc.runId = Sample.runId → proc.At c b rec t →
          t.stage.barred = true ∨ w.passed p c b) ∧
    ∀ a e b, w.store.loadEvents Sample.runId = a ++ e :: b → e.payload.isCancel = true →
      (b.filter fun f => f.payload.isStart).length ≤ 1) := by
  obtain ⟨w, h, facts⟩ := run_exists (World.step Sample.cfg)
    (fun w a => oneAfterAnother w a ∧ sequential Sample.cfg w a) (.init 0) Sample.cancelledLate
    (fun w => (w.store.loadEvents Sample.runId).map
        (fun e => (e.payload.isCancel, e.payload.isStart)) =
      [(false, false), (true, false), (false, true), (false, false)] ∧
      w.store.isCancelRequested Sample.runId = true) (by decide)
  exact ⟨w, h, facts, cancellation_sticks (run_reaches h) Sample.runId⟩

end AnchorRuntime
