import AnchorRuntime.Endings
import AnchorRuntime.Escalation

/-!
# Control signals

A boundary check raises that the run is cancelled, that its lease is lost or that a ceiling is
exceeded; a crash window raises that the outcome of a step is unknown. The exception goes through
the user code that waits for the call, one level of the call tree after another, and from the
workflow to the engine. The retry loop of a step lets the first two through and takes the others
for failures of its body.

Results: `signals_keep_meaning`, a signal that no body waits for, or that retry loops let through,
ends the attempt as it should and makes no step try again; `signal_retried`, a ceiling exceeded in
a nested call makes the body try again and fails the run without its dimension.
-/

namespace AnchorRuntime

open Effect Machine Code ShapeLemmas ProcLemmas TaskLemmas EndingLemmas

/-! ## Signals -/

/-- What an exception of a boundary check or of a crash window means. -/
inductive Signal
  | cancelled
  | lost
  | exceeded (dimension : String)
  | ambiguous (stepKey token : String)
  deriving DecidableEq

def Exn.signal : Exn → Option Signal
  | .cancellationRequested _ => some .cancelled
  | .leaseLost _ => some .lost
  | .budgetExceeded dimension _ _ => some (.exceeded dimension)
  | .ambiguousStep stepKey token => some (.ambiguous stepKey token)
  | _ => none

namespace Signal

/-- Whether the retry loop of a step lets the signal through. -/
def control : Signal → Bool
  | .cancelled | .lost => true
  | _ => false

/-- The status an attempt ends with. -/
def status : Signal → RunStatus
  | .cancelled => .cancelled
  | .lost => .running
  | .exceeded _ => .failed
  | .ambiguous _ _ => .needsReview

/-- The error record says what is exceeded, or which step is unknown. -/
def Explains : Signal → Option RunError → Prop
  | .exceeded dimension, error => ∃ e, error = some e ∧ e.dimension = some dimension
  | .ambiguous stepKey token, error =>
    ∃ e, error = some e ∧ e.stepKey = some stepKey ∧ e.token = some token
  | _, _ => True

end Signal

/-- The signal the coroutine of the step has raised. -/
def Task.signal (t : Task) : Option Signal := t.raised.bind Exn.signal

/-- The row of the run says what the signal means. -/
def World.Stands (w : World) (j : Uuid) (s : Signal) : Prop :=
  ∃ result error, w.store.standing j = some (s.status, result, error) ∧ s.Explains error

/-! ## User code that waits -/

/-- The user code the step waits for. -/
def Stage.host : Stage → Option Role
  | .running n => some (.body n)
  | .verifying => some .verify
  | _ => none

/-- A piece of user code: the try or the verifier of task `b` of call `c`. -/
structure Host where
  c : Nat
  b : Nat
  role : Role

/-- The calls that user code of the attempt has made since call number `start`. -/
def Proc.callsFrom (proc : Proc) (start : Nat) (caller : List Place) (role : Role) :
    List CallRecord :=
  (proc.calls.drop start).filter fun rec => rec.caller = caller && rec.role = role

/-- What a call has raised. -/
def CallRecord.raises (rec : CallRecord) : List Exn :=
  rec.refused.toList ++ rec.tasks.filterMap Task.raised

/-- The call has ended. -/
def CallRecord.finished (rec : CallRecord) : Bool := rec.tasks.all fun t => t.prog.ending.isSome

/-- The user code on the chain, innermost first, and the workflow wait for call number `c`. -/
def Proc.Waits (proc : Proc) : List Host → Nat → List Place → Role → Prop
  | [], _, caller, role => caller = [] ∧ role = .workflow ∧ proc.phase.isInside = true
  | m :: chain, c, caller, role => m.c < c ∧ role = m.role ∧
      ∃ rec ∈ proc.calls[m.c]?, ∃ t ∈ rec.tasks[m.b]?, t.path = caller ∧
        t.stage.host = some role ∧ proc.Waits chain m.c rec.caller rec.role

instance decidableWaits (proc : Proc) : (chain : List Host) → (c : Nat) → (caller : List Place) →
    (role : Role) → Decidable (proc.Waits chain c caller role)
  | [], _, _, _ => inferInstanceAs (Decidable (_ ∧ _ ∧ _))
  | m :: chain, c, caller, role =>
    have := decidableWaits proc chain
    inferInstanceAs (Decidable (m.c < c ∧ role = m.role ∧
      ∃ rec ∈ proc.calls[m.c]?, ∃ t ∈ rec.tasks[m.b]?, t.path = caller ∧
        t.stage.host = some role ∧ proc.Waits chain m.c rec.caller rec.role))

/-! ## The condition -/

/-- User code that has made these calls lets out what they raise, and otherwise ends only once
they have ended. -/
def lets (calls : List CallRecord) (ans : Answer) : Prop :=
  (∃ exc ∈ calls.flatMap CallRecord.raises, ans.raised = some exc) ∨
    ∀ rec ∈ calls, rec.finished = true ∧ rec.raises = []

instance (calls : List CallRecord) (ans : Answer) : Decidable (lets calls ans) :=
  inferInstanceAs (Decidable (_ ∨ _))

/-- User code of attempt `p` does not catch what its calls raise. -/
def letting (p : Nat) (w : World) : Action → Prop
  | .main q ans => q = p → ∀ proc ∈ w.procs[p]?, proc.phase.isInside = true →
      lets (proc.callsFrom 0 [] .workflow) ans
  | .task q c b ans => q = p → ∀ proc ∈ w.procs[p]?, ∀ t ∈ proc.task? c b,
      ∀ role ∈ t.stage.host, lets (proc.callsFrom (c + 1) t.path role) ans
  | _ => True

instance (p : Nat) (w : World) (a : Action) : Decidable (letting p w a) :=
  match a with
  | .main q ans => inferInstanceAs (Decidable (q = p → ∀ proc ∈ w.procs[p]?,
      proc.phase.isInside = true → lets (proc.callsFrom 0 [] .workflow) ans))
  | .task q c b ans => inferInstanceAs (Decidable (q = p → ∀ proc ∈ w.procs[p]?,
      ∀ t ∈ proc.task? c b, ∀ role ∈ t.stage.host,
        lets (proc.callsFrom (c + 1) t.path role) ans))
  | .submit _ _ _ _ _ | .cancel _ | .tick _ | .claim _ _ | .execute _ | .beat _ _
  | .call _ _ _ _ | .stop _ => .isTrue trivial

/-- These calls have raised nothing but the signal. -/
def only (s : Signal) (calls : List CallRecord) : Prop :=
  ∀ rec ∈ calls, ∀ exc ∈ rec.raises, exc.signal = some s

instance (s : Signal) (calls : List CallRecord) : Decidable (only s calls) :=
  inferInstanceAs (Decidable (∀ rec ∈ calls, ∀ exc ∈ rec.raises, exc.signal = some s))

/-- No other exception reaches the user code that waits. -/
def Proc.undisturbed (chain : List Host) (s : Signal) (proc : Proc) : Prop :=
  (proc.phase.isInside = true → only s (proc.callsFrom 0 [] .workflow)) ∧
    ∀ m ∈ chain, ∀ t ∈ proc.task? m.c m.b, ∀ role ∈ t.stage.host,
      only s (proc.callsFrom (m.c + 1) t.path role)

instance (chain : List Host) (s : Signal) (proc : Proc) :
    Decidable (proc.undisturbed chain s) :=
  inferInstanceAs (Decidable ((_ → _) ∧ ∀ m ∈ chain, ∀ t ∈ proc.task? m.c m.b,
    ∀ role ∈ t.stage.host, only s (proc.callsFrom (m.c + 1) t.path role)))

/-- The store takes all that attempt `p` writes of how its workflow has ended, no store call of
that raises, and unless the lease is lost no other attempt of the run acts on its own account
meanwhile. The run ends where `Engine.execute` does. -/
def unhindered (cfg : Config) (p : Nat) (s : Signal) (w : World) : Action → Prop
  | .main q ans => ∀ proc ∈ w.procs[p]?, ∀ other ∈ w.procs[q]?,
      if q = p then
        if proc.phase.isInside then
          ∀ exc ∈ ans.raised, (Exit.ended (.error exc)).recordable cfg = true
        else ans.isDone = true ∧ proc.returned = false
      else s = .lost ∨ proc.phase.isInside = true ∨ other.loc.runId ≠ proc.loc.runId
  | _ => True

instance (cfg : Config) (p : Nat) (s : Signal) (w : World) (a : Action) :
    Decidable (unhindered cfg p s w a) :=
  match a with
  | .main q ans => inferInstanceAs (Decidable (∀ proc ∈ w.procs[p]?, ∀ other ∈ w.procs[q]?,
      if q = p then
        if proc.phase.isInside then
          ∀ exc ∈ ans.raised, (Exit.ended (.error exc)).recordable cfg = true
        else ans.isDone = true ∧ proc.returned = false
      else s = .lost ∨ proc.phase.isInside = true ∨ other.loc.runId ≠ proc.loc.runId))
  | .submit _ _ _ _ _ | .cancel _ | .tick _ | .claim _ _ | .execute _ | .beat _ _ | .task _ _ _ _
  | .call _ _ _ _ | .stop _ => .isTrue trivial

/-- The signal is on its way through attempt `p`. -/
def passing (cfg : Config) (p : Nat) (chain : List Host) (s : Signal) (w : World) (a : Action) :
    Prop :=
  letting p w a ∧ (∀ proc ∈ w.procs[p]?, proc.undisturbed chain s) ∧ unhindered cfg p s w a

instance (cfg : Config) (p : Nat) (chain : List Host) (s : Signal) (w : World) (a : Action) :
    Decidable (passing cfg p chain s w a) :=
  inferInstanceAs (Decidable (_ ∧ (∀ proc ∈ w.procs[p]?, proc.undisturbed chain s) ∧ _))

/-! ## The signal in the engine -/

/-- The machine that writes what the signal means. -/
def telling (s : Signal) : Protocol Ans Course where
  allowed
    | .broken, _ => False
    | _, .snapshot => True
    | .open, .saveUsage => s ≠ .lost
    | .open, .appendEvent key payload =>
      s ≠ .lost ∧ (payload.storable && key.all pgText) = true
    | .open, .setStatus status result error => s ≠ .lost ∧ status = s.status ∧
        s.Explains error ∧ (storableValue result && error.all (·.storable)) = true
    | _, _ => False
  next
    | .open, .saveUsage, .error _ | .open, .appendEvent _ _, .error _ => .broken
    | .open, .setStatus _ _ _, .ok _ => .written
    | .open, .setStatus _ _ _, .error _ => .broken
    | course, _, _ => course

/-- What the engine returns or raises, and how far it has got then. -/
def Signal.Tells (s : Signal) : Course → Except Exn Outcome → Prop
  | .broken, .error _ => True
  | .written, .ok outcome => outcome.status = s.status
  | .open, .ok outcome => s = .lost ∧ outcome.status = s.status
  | _, _ => False

namespace SignalLemmas

variable {cfg : Config} {s : Signal}

/-- The last lines of an exit. -/
theorem write_tells {runId : Uuid} {error : Option RunError} (result' : Value)
    (error' : Option RunError) (kept : s ≠ .lost) (explains : s.Explains error)
    (storable : error.all (·.storable) = true) :
    Obeys (telling s) .open
      (do setStatus s.status .none error; outcome runId s.status result' error') s.Tells := by
  rw [obeys_bind]
  refine obeys_perform.mpr ⟨⟨kept, rfl, explains, storable⟩, ?_⟩
  rintro (exc | ⟨⟩)
  · trivial
  · exact ⟨trivial, fun _ => rfl⟩

/-- An event of an exit, and what follows it. -/
theorem append_tells {key : Option String} {payload : Payload} {rest : Code Outcome}
    (kept : s ≠ .lost) (storable : (payload.storable && key.all pgText) = true)
    (tells : Obeys (telling s) .open rest s.Tells) :
    Obeys (telling s) .open (do let _ ← appendEvent key payload; rest) s.Tells := by
  rw [obeys_bind]
  refine obeys_perform.mpr ⟨⟨kept, storable⟩, ?_⟩
  rintro (exc | n)
  · trivial
  · exact tells

/-- The exit of an exception with a signal tells what the signal means. -/
theorem code_tells {exc : Exn} (is : exc.signal = some s) (runId : Uuid)
    (recordable : (Exit.ended (.error exc)).recordable cfg = true) :
    Obeys (telling s) .open ((Exit.ended (.error exc)).code cfg runId) s.Tells := by
  obtain ⟨announceable, writable⟩ := Bool.and_eq_true_iff.mp recordable
  cases exc with
  | cancellationRequested message =>
    cases is
    exact append_tells (by simp) ((Bool.and_true _).trans announceable)
      (write_tells _ _ (by simp) trivial rfl)
  | leaseLost message =>
    cases is
    simp only [Exit.code, conclude, outcome, snapshot, obeys_bind, obeys_ask]
    exact ⟨trivial, fun _ => ⟨rfl, rfl⟩⟩
  | budgetExceeded dimension limit observed =>
    cases is
    have both : ((Payload.budgetExceeded dimension limit observed).storable &&
        ((Exit.ended (.error (.budgetExceeded dimension limit observed))).error cfg).all
          (·.storable)) = true := announceable
    obtain ⟨event, record⟩ := Bool.and_eq_true_iff.mp both
    refine append_tells (by simp) ((Bool.and_true _).trans event) ?_
    refine append_tells (by simp) ((Bool.and_true _).trans record) ?_
    rw [obeys_bind]
    refine obeys_perform.mpr ⟨by simp [telling], ?_⟩
    rintro (exc | ⟨⟩)
    · trivial
    · exact write_tells _ _ (by simp) ⟨_, rfl, rfl⟩ record
  | ambiguousStep stepKey token =>
    cases is
    obtain ⟨-, record⟩ := Bool.and_eq_true_iff.mp writable
    refine append_tells (by simp) announceable ?_
    exact write_tells _ _ (by simp) ⟨_, rfl, rfl, rfl⟩ record
  | stepFailed | workflowNotFound | toolNotFound | exception => cases is

end SignalLemmas

/-- Attempt `p` is past its workflow, and its engine tells what the signal means. -/
def World.Tells (w : World) (s : Signal) (p : Nat) : Prop :=
  ∃ proc code course, w.procs[p]? = some proc ∧ proc.phase.isInside = false ∧
    (w.store.standing proc.loc.runId).isSome = true ∧ proc.main = proc.loc.around code ∧
    Obeys (telling s) course code s.Tells ∧ course ≠ .broken ∧
    (course = .written → s ≠ .lost ∧ w.Stands proc.loc.runId s)

namespace SignalLemmas

variable {cfg : Config} {s : Signal} {w w' : World} {a : Action} {p : Nat} {proc : Proc}
  {course : Course}

theorem explains_kept {error old : Option RunError} (h : s.Explains error) :
    s.Explains (error.orElse fun _ => old) := by
  cases s with
  | cancelled | lost => trivial
  | exceeded dimension =>
    obtain ⟨e, rfl, names⟩ := h
    exact ⟨e, rfl, names⟩
  | ambiguous stepKey token =>
    obtain ⟨e, rfl, names⟩ := h
    exact ⟨e, rfl, names⟩

theorem stands_same {j : Uuid} (standing : w'.store.standing j = w.store.standing j)
    (h : w.Stands j s) : w'.Stands j s := by
  obtain ⟨result, error, is, explains⟩ := h
  exact ⟨result, error, standing.trans is, explains⟩

/-- Only the workflow's own end leads out of it, and only its beginning into it. -/
theorem outside_next {phase : Phase} {o : Op} {r : Ans o} (may : phase.allowed o)
    (outside : phase.isInside = false) (enters : ∀ u, o ≠ .enter u) :
    (phase.next o r).isInside = false := by
  have moves := Phase.moves may r
  generalize phase.next o r = phase' at moves ⊢
  cases moves with
  | enter => exact absurd rfl (enters _)
  | leave => cases outside
  | snapshot | stopHeartbeat => exact outside
  | _ => rfl

/-- An operation of the exit, not failed by the driver, fails not, and does to the row what the
machine says. -/
theorem told_next {o : Op} {r : Ans o} {loc : Local} (numbered : w.store.Numbered)
    (acts : MainActs cfg w w' p .done proc o r loc)
    (row : (w.store.standing proc.loc.runId).isSome = true)
    (may : (telling s).allowed course o)
    (told : course = .written → s ≠ .lost ∧ w.Stands proc.loc.runId s) :
    (telling s).next course o r ≠ .broken ∧
      ((telling s).next course o r = .written → s ≠ .lost ∧ w'.Stands proc.loc.runId s) := by
  have standing := (exec_standing acts.run proc.loc.runId).1
  rw [if_pos rfl] at standing
  cases course with
  | broken => exact may.elim
  | announced =>
    cases o with
    | snapshot => exact ⟨nofun, nofun⟩
    | _ => exact may.elim
  | written =>
    cases o with
    | snapshot =>
      obtain ⟨kept, stands⟩ := told rfl
      refine ⟨nofun, fun _ => ⟨kept, stands_same ?_ stands⟩⟩
      rw [standing]
      exact congrFun Option.map_id _
    | _ => exact may.elim
  | «open» =>
    cases o with
    | snapshot => exact ⟨nofun, nofun⟩
    | saveUsage =>
      obtain ⟨ctx, -, call⟩ := Option.bind_eq_some_iff.mp acts.run
      rcases storeCall_done call with ⟨_, -, rfl⟩ | ⟨exc, refused, -⟩
      · exact ⟨nofun, nofun⟩
      · cases refused
    | appendEvent key payload =>
      rcases storeCall_done acts.run with ⟨n, -, rfl⟩ | ⟨exc, refused, -⟩
      · exact ⟨nofun, nofun⟩
      · cases may.2.symm.trans (appendEvent_ok numbered refused).2
    | setStatus status result error =>
      obtain ⟨kept, rfl, explains, takes⟩ := may
      rcases storeCall_done acts.run with ⟨_, -, rfl⟩ | ⟨exc, refused, -⟩
      · obtain ⟨old, hold⟩ := Option.isSome_iff_exists.mp row
        refine ⟨nofun, fun _ => ⟨kept, (restand s.status result error old).2.1, _, ?_,
          @explains_kept s error old.2.2 explains⟩⟩
        rw [standing, hold]
        rfl
      · obtain ⟨st', stored⟩ :=
          (@setStatus_takes proc.loc.runId w.store w.now s.status _ _).mpr takes
        cases refused.symm.trans stored
    | _ => exact may.elim

/-- The engine goes on telling, whatever else happens. -/
theorem tells_step (numbered : w.store.Numbered)
    (shaped : ∀ (p : Nat) (proc : Proc), w.procs[p]? = some proc → proc.Shaped cfg)
    (h : w.step cfg a = some w') (tells : w.Tells s p)
    (own : ∀ ans, a = .main p ans → ∀ proc ∈ w.procs[p]?,
      ans.isDone = true ∧ proc.returned = false)
    (others : s ≠ .lost → ∀ q ans, a = .main q ans → q ≠ p → ∀ proc ∈ w.procs[p]?,
      ∀ other ∈ w.procs[q]?, other.loc.runId ≠ proc.loc.runId) : w'.Tells s p := by
  obtain ⟨proc, code, course, hp, outside, row, main, obeys, sound, told⟩ := tells
  have row' := row_step h row
  by_cases mine : ∃ ans, a = .main p ans
  · obtain ⟨ans, rfl⟩ := mine
    obtain ⟨answered, going⟩ := own ans rfl proc hp
    obtain rfl : ans = .done := by
      cases ans <;> first | rfl | cases answered
    obtain ⟨o, k, r, rfl, proc', acts, hp', run, phase, main'⟩ :=
      engine_answered shaped h hp going main
    have enters : ∀ u, o ≠ .enter u := by
      rintro u rfl
      cases course <;> exact obeys.1
    obtain ⟨sound', told'⟩ := told_next numbered acts row obeys.1 told
    exact ⟨proc', k r, _, hp', phase ▸ outside_next acts.may outside enters, run ▸ row', main',
      obeys.2 r, sound', run ▸ told'⟩
  · have idle : ∀ ans, a ≠ .main p ans := fun ans is => mine ⟨ans, is⟩
    obtain ⟨proc', hp', run, worker, still⟩ := attempt_persists shaped h hp
    obtain ⟨main', phase⟩ := still idle
    refine ⟨proc', code, course, hp', phase ▸ outside, run ▸ row',
      by rw [main', main, around_same worker], obeys, sound, fun written => ?_⟩
    obtain ⟨kept, stands⟩ := told written
    have apart : ∀ q ans other, a = .main q ans → w.procs[q]? = some other →
        other.loc.runId ≠ proc.loc.runId := by
      rintro q ans other rfl hq
      exact others kept q ans rfl (fun same => idle ans (by rw [same])) proc hp other hq
    exact ⟨kept, run ▸ stands_same (unended_step numbered shaped h row apart).2 stands⟩

end SignalLemmas

/-! ## The signal in user code -/

/-- Call number `c`, made from there, is under way or has raised the signal. -/
def Proc.Sends (proc : Proc) (s : Signal) (c : Nat) (caller : List Place) (role : Role) : Prop :=
  ∃ b rec t, proc.At c b rec t ∧ rec.caller = caller ∧ rec.role = role ∧
    (t.prog.ending = none ∨ t.signal = some s)

/-- The user code on the chain still waits, each in the same try, or its step has raised the
signal. -/
def Proc.Carries (proc : Proc) (s : Signal) : List Host → Nat → List Place → Role → Prop
  | [], _, caller, role => caller = [] ∧ role = .workflow
  | m :: chain, c, caller, role => m.c < c ∧ role = m.role ∧ ∃ rec t, proc.At m.c m.b rec t ∧
      t.path = caller ∧ (t.stage.host = some role ∨ t.signal = some s) ∧
      proc.Carries s chain m.c rec.caller rec.role

namespace SignalLemmas

variable {cfg : Config} {s : Signal} {w w' : World} {a : Action} {p c b : Nat}
  {proc proc' : Proc} {rec : CallRecord} {t : Task} {chain : List Host} {caller : List Place}
  {role : Role}

theorem control_signal {exc : Exn} (is : exc.signal = some s) : exc.control = s.control := by
  cases exc <;> cases is <;> rfl

theorem task?_of_at (h : proc.At c b rec t) : proc.task? c b = some t := by
  simp [Proc.task?, h.1, h.2]

theorem mem_callsFrom {start : Nat} (h : proc.calls[c]? = some rec) (le : start ≤ c) :
    rec ∈ proc.callsFrom start rec.caller rec.role := by
  refine List.mem_filter.mpr ⟨?_, by simp⟩
  refine List.mem_of_getElem? (i := c - start) ?_
  rw [List.getElem?_drop, Nat.add_sub_cancel' le]
  exact h

/-- What the calls raise gets out of the user code that made them. -/
theorem lets_signal {calls : List CallRecord} {ans : Answer} (h : lets calls ans)
    (undisturbed : only s calls) (mem : rec ∈ calls) (there : t ∈ rec.tasks)
    (sends : t.prog.ending = none ∨ t.signal = some s) :
    ∃ exc, ans.raised = some exc ∧ exc.signal = some s := by
  rcases h with ⟨exc, raised, is⟩ | ended
  · obtain ⟨rec', mem', raises⟩ := List.mem_flatMap.mp raised
    exact ⟨exc, is, undisturbed rec' mem' exc raises⟩
  · obtain ⟨ended, silent⟩ := ended rec mem
    rcases sends with pending | signalled
    · have finished := List.all_eq_true.mp ended t there
      rw [pending] at finished
      cases finished
    · obtain ⟨exc, raised, -⟩ := Option.bind_eq_some_iff.mp signalled
      have raises : exc ∈ rec.raises :=
        List.mem_append_right _ (List.mem_filterMap.mpr ⟨t, there, raised⟩)
      rw [silent] at raises
      cases raises

section

variable {setup : StepSetup} {reply : Value → Except Exn Value}

/-- A step that waits for user code has not ended. -/
theorem host_pending (obeys : Obeys (stepProtocol setup) t.stage t.prog (setup.Ends reply))
    (host : t.stage.host = some role) : t.prog.ending = none := by
  cases hprog : t.prog with
  | step => rfl
  | ret | raise =>
    rw [hprog] at obeys
    cases hstage : t.stage with
    | running | verifying => rw [hstage] at obeys; exact obeys.elim
    | _ => rw [hstage] at host; cases host

/-- A step that an exception has left for good has raised it. -/
theorem left_raised {exc : Exn}
    (obeys : Obeys (stepProtocol setup) t.stage t.prog (setup.Ends reply))
    (left : t.stage = .escaped exc ∨ ∃ n, t.stage = .raised n exc ∧ exc.control = true) :
    t.raised = some exc := by
  unfold Task.raised
  cases hprog : t.prog with
  | step =>
    rw [hprog] at obeys
    rcases left with left | ⟨n, left, control⟩
    · rw [left] at obeys
      exact obeys.1.elim
    · rw [left] at obeys
      cases obeys.1.1.symm.trans control
  | ret =>
    rw [hprog] at obeys
    rcases left with left | ⟨n, left, -⟩
    · rw [left] at obeys
      cases obeys
    · rw [left] at obeys
      cases obeys.2
  | raise e =>
    rw [hprog] at obeys
    rcases left with left | ⟨n, left, -⟩
    · rw [left] at obeys
      cases obeys
      rfl
    · rw [left] at obeys
      cases obeys.2
      rfl

end

/-- A step that has raised has ended. -/
theorem signalled_next
    (shaped : ∀ (p : Nat) (proc : Proc), w.procs[p]? = some proc → proc.Shaped cfg)
    (h : w.step cfg a = some w') (hp : w.procs[p]? = some proc) (at_ : proc.At c b rec t)
    (signalled : t.signal = some s) :
    ∃ proc' rec', w'.procs[p]? = some proc' ∧ proc'.At c b rec' t ∧ rec.SameCall rec' := by
  obtain ⟨proc', rec', t', hp', -, at', same, -, -, rfl | ⟨ans, o, r, loc, -, acts, -⟩⟩ :=
    task_next shaped h hp at_
  · exact ⟨proc', rec', hp', at', same⟩
  · obtain ⟨k, prog, -⟩ := acts.after
    simp [Task.signal, Task.raised, prog] at signalled

/-- Where user code waits for a call that is under way or has raised the signal, it goes on
waiting, or its step raises the signal. -/
theorem host_next
    (shaped : ∀ (p : Nat) (proc : Proc), w.procs[p]? = some proc → proc.Shaped cfg)
    (shaped' : ∀ (p : Nat) (proc : Proc), w'.procs[p]? = some proc → proc.Shaped cfg)
    (h : w.step cfg a = some w') (hp : w.procs[p]? = some proc) (at_ : proc.At c b rec t)
    (host : t.stage.host = some role) (out : letting p w a)
    (undisturbed : only s (proc.callsFrom (c + 1) t.path role)) {c' : Nat} (later : c < c')
    (sends : proc.Sends s c' t.path role) (direct : s.control = true ∨ role = .verify) :
    ∃ proc' rec' t', w'.procs[p]? = some proc' ∧ proc'.At c b rec' t' ∧ rec.SameCall rec' ∧
      t'.path = t.path ∧ (t'.stage.host = some role ∨ t'.signal = some s) := by
  obtain ⟨proc', rec', t', hp', -, at', same, -, path⟩ := task_persists h hp at_
  refine ⟨proc', rec', t', hp', at', same, path, ?_⟩
  obtain ⟨_, _, t'', hp'', -, at'', -, -, -, moved⟩ := task_next shaped h hp at_
  obtain rfl := Option.some.inj (hp'.symm.trans hp'')
  obtain rfl := Option.some.inj (at'.1.symm.trans at''.1)
  obtain rfl := Option.some.inj (at'.2.symm.trans at''.2)
  rcases moved with rfl | ⟨ans, o, r, loc, rfl, acts, stage⟩
  · exact .inl host
  -- the user code ends, and not without the signal
  have leaves := out rfl proc acts.hp t (task?_of_at at_) role host
  obtain ⟨b₀, rec₀, t₀, at₀, from_, as_, sends⟩ := sends
  have mem := mem_callsFrom at₀.1 later
  rw [from_, as_] at mem
  obtain ⟨exc, raised, is⟩ :=
    lets_signal leaves undisturbed mem (List.mem_of_getElem? at₀.2) sends
  have left : ∀ {u : UserCall} {r : Except Exn Value} {store : Store} {loc : Local},
      exec cfg w.now w.store proc.loc ans (.leave u) = some (r, store, loc) → r = .error exc := by
    intro u r store loc run
    have answer := EscalationLemmas.leave_answer run
    cases r with
    | error exc' =>
      rw [show ans = .raise exc' from answer] at raised
      cases raised
      rfl
    | ok v =>
      rcases answer with answer | ⟨response, answer, -⟩ <;> rw [answer] at raised <;> cases raised
  have signalled : t'.raised = some exc → t'.signal = some s := fun raised => by
    rw [Task.signal, raised]
    exact is
  refine .inr (signalled (left_raised ((shaped' p proc' hp').tasks c b rec' t' at') ?_))
  have may := acts.may
  have run := acts.run
  cases hstage : t.stage with
  | running n =>
    rw [hstage] at host may stage
    cases may
    obtain rfl := left run
    refine .inr ⟨n, stage, (control_signal is).trans (direct.resolve_right ?_)⟩
    intro verify
    rw [verify] at host
    cases host
  | verifying =>
    rw [hstage] at may stage
    cases may
    obtain rfl := left run
    exact .inl stage
  | _ => rw [hstage] at host; cases host

/-- Every level of the call tree goes on carrying the signal. -/
theorem carries_next
    (shaped : ∀ (p : Nat) (proc : Proc), w.procs[p]? = some proc → proc.Shaped cfg)
    (shaped' : ∀ (p : Nat) (proc : Proc), w'.procs[p]? = some proc → proc.Shaped cfg)
    (h : w.step cfg a = some w') (hp : w.procs[p]? = some proc) (hp' : w'.procs[p]? = some proc')
    (out : letting p w a)
    (undisturbed : ∀ m ∈ chain, ∀ t ∈ proc.task? m.c m.b, ∀ role ∈ t.stage.host,
      only s (proc.callsFrom (m.c + 1) t.path role))
    (direct : s.control = true ∨ ∀ m ∈ chain, m.role = .verify)
    (sends : proc.Sends s c caller role) (carries : proc.Carries s chain c caller role) :
    proc'.Carries s chain c caller role := by
  induction chain generalizing c caller role with
  | nil => exact carries
  | cons m chain ih =>
    obtain ⟨later, as_, rec, t, at_, rfl, state, above⟩ := carries
    have next : ∃ rec' t', proc'.At m.c m.b rec' t' ∧ rec.SameCall rec' ∧ t'.path = t.path ∧
        (t'.stage.host = some role ∨ t'.signal = some s) := by
      rcases state with host | signalled
      · have direct' : s.control = true ∨ role = .verify :=
          direct.imp_right fun verifies => as_.trans (verifies m List.mem_cons_self)
        have calls := undisturbed m List.mem_cons_self t (task?_of_at at_) role host
        obtain ⟨_, rec', t', hp'', at', same, path, state'⟩ :=
          host_next shaped shaped' h hp at_ host out calls later sends direct'
        obtain rfl := Option.some.inj (hp'.symm.trans hp'')
        exact ⟨rec', t', at', same, path, state'⟩
      · obtain ⟨_, rec', hp'', at', same⟩ := signalled_next shaped h hp at_ signalled
        obtain rfl := Option.some.inj (hp'.symm.trans hp'')
        exact ⟨rec', t, at', same, rfl, .inr signalled⟩
    obtain ⟨rec', t', at', same, path, state'⟩ := next
    have sent : proc.Sends s m.c rec.caller rec.role :=
      ⟨m.b, rec, t, at_, rfl, rfl,
        state.imp_left (host_pending ((shaped p proc hp).tasks m.c m.b rec t at_))⟩
    refine ⟨later, as_, rec', t', at', path, state', ?_⟩
    rw [same.caller, same.role]
    exact ih (fun m mem => undisturbed m (List.mem_cons_of_mem _ mem))
      (direct.imp_right fun verifies m mem => verifies m (List.mem_cons_of_mem _ mem)) sent above

/-- One of the calls the workflow has made is under way or has raised the signal. -/
theorem carries_top (shaped : proc.Shaped cfg) (sends : proc.Sends s c caller role)
    (carries : proc.Carries s chain c caller role) : ∃ c', proc.Sends s c' [] .workflow := by
  induction chain generalizing c caller role with
  | nil =>
    obtain ⟨rfl, rfl⟩ := carries
    exact ⟨c, sends⟩
  | cons m chain ih =>
    obtain ⟨-, -, rec, t, at_, -, state, above⟩ := carries
    exact ih ⟨m.b, rec, t, at_, rfl, rfl,
      state.imp_left (host_pending (shaped.tasks m.c m.b rec t at_))⟩ above

/-- The user code that waits for a call is still there when the call has raised. -/
theorem waits_carried
    (shaped : ∀ (p : Nat) (proc : Proc), w.procs[p]? = some proc → proc.Shaped cfg)
    {ans : Answer} (h : w.step cfg (.task p c b ans) = some w') (hp : w.procs[p]? = some proc)
    (hp' : w'.procs[p]? = some proc') {c' : Nat} (le : c' ≤ c)
    (waits : proc.Waits chain c' caller role) :
    proc'.Carries s chain c' caller role ∧ proc.phase.isInside = true := by
  induction chain generalizing c' caller role with
  | nil => exact ⟨⟨waits.1, waits.2.1⟩, waits.2.2⟩
  | cons m chain ih =>
    obtain ⟨later, as_, rec, hrec, t, ht, path, host, above⟩ := waits
    have at_ : proc.At m.c m.b rec t := ⟨hrec, ht⟩
    obtain ⟨proc'', rec', t', hp'', -, at', same, -, -, rfl | ⟨_, _, _, _, is, -⟩⟩ :=
      task_next shaped h hp at_
    · obtain rfl := Option.some.inj (hp'.symm.trans hp'')
      obtain ⟨carries, inside⟩ := ih (by omega) above
      refine ⟨⟨later, as_, rec', t', at', path, .inl host, ?_⟩, inside⟩
      rwa [same.caller, same.role]
    · cases is
      omega

/-- When the workflow has let the signal out, the engine tells what it means. -/
theorem tells_begin {now : Int} {ok : World → Action → Prop} {ans : Answer} {exc : Exn}
    (reached : Reaches (World.step cfg) ok (.init now) w)
    (h : w.step cfg (.main p ans) = some w') (hp : w.procs[p]? = some proc)
    (inside : proc.phase.isInside = true) (raised : ans.raised = some exc)
    (is : exc.signal = some s) (recordable : (Exit.ended (.error exc)).recordable cfg = true) :
    w'.Tells s p := by
  obtain ⟨_, o, r, loc, acts⟩ := main_acts (fun _ _ => shaped_reaches reached) h
  obtain rfl := Option.some.inj (hp.symm.trans acts.hp)
  have may := acts.may
  cases hphase : proc.phase with
  | inside =>
    rw [hphase] at may
    obtain ⟨name, input, rfl⟩ := may
    have answer := EscalationLemmas.leave_answer acts.run
    obtain rfl : r = .error exc := by
      cases r with
      | error exc' =>
        rw [show ans = .raise exc' from answer] at raised
        cases raised
        rfl
      | ok v =>
        rcases answer with answer | ⟨response, answer, -⟩ <;> rw [answer] at raised <;>
          cases raised
    obtain ⟨proc', hp', main⟩ := workflow_exit reached acts
    obtain ⟨moved, hmoved, hloc, next, -, -, -⟩ := acts.moved
    obtain rfl := Option.some.inj (hp'.symm.trans hmoved)
    have row := rows_reaches reached p proc hp (.inl (by rw [hphase]; exact ⟨nofun, nofun⟩))
    refine ⟨proc', _, .open, hp', ?_, ?_, main, code_tells is _ recordable, nofun, nofun⟩
    · rw [next, hphase]
      cases exc <;> rfl
    · rw [hloc, (exec_ctx acts.run).1]
      exact row_step h row
  | _ => rw [hphase] at inside; cases inside

theorem carries_tries (carries : proc.Carries s chain c caller role) :
    ∀ m ∈ chain, ∀ t ∈ proc.task? m.c m.b, t.stage.host = some m.role ∨ t.signal = some s := by
  induction chain generalizing c caller role with
  | nil => exact fun _ mem => (nomatch mem)
  | cons m chain ih =>
    obtain ⟨-, as_, rec, t, at_, -, state, above⟩ := carries
    intro m' mem t' there
    rcases List.mem_cons.mp mem with rfl | mem
    · obtain rfl := Option.some.inj ((task?_of_at at_).symm.trans there)
      exact as_ ▸ state
    · exact ih above m' mem t' there

end SignalLemmas

/-! ## The end of the attempt -/

/-- Attempt `p` returns with the status of the signal, and has written it with its explanation
unless the lease is lost; then it writes nothing. -/
structure World.EndsWith (w : World) (cfg : Config) (s : Signal) (p : Nat) (proc : Proc) :
    Prop where
  returns : proc.returned = true → ∃ outcome, proc.main = proc.loc.around (.ret outcome) ∧
    outcome.status = s.status ∧ (s ≠ .lost → w.Stands proc.loc.runId s)
  silent : s = .lost → proc.returned = false → ∀ ans w',
    w.step cfg (.main p ans) = some w' → w'.store = w.store
  ends : proc.stopped = false → ∃ w' proc' outcome,
    Reaches (World.step cfg) (concluding p) w w' ∧ w'.procs[p]? = some proc' ∧
      proc'.main = proc'.loc.around (.ret outcome) ∧ outcome.status = s.status ∧
      (s ≠ .lost → w'.Stands proc'.loc.runId s)

namespace SignalLemmas

variable {cfg : Config} {s : Signal} {now : Int} {w : World} {p : Nat} {proc : Proc}
  {course : Course} {code : Code Outcome}

theorem telling_answered {st : Store} {loc : Local} {o : Op} (may : (telling s).allowed course o)
    (context : loc.ctx.isSome = true) :
    ∃ r st' loc', exec cfg now st loc .done o = some (r, st', loc') := by
  obtain ⟨ctx, is⟩ := Option.isSome_iff_exists.mp context
  have called : ∀ {α : Type} (outcome : Except Exn (α × Store)),
      ∃ r st' loc', storeCall st loc outcome .done = some (r, st', loc') := by
    intro α outcome
    cases outcome <;> exact ⟨_, _, _, rfl⟩
  cases o with
  | snapshot => exact ⟨_, _, _, by simp only [exec, memory, is, Option.map_some]; rfl⟩
  | saveUsage =>
    simp only [exec, is, Option.bind_some]
    exact called _
  | appendEvent | setStatus => exact called _
  | _ => cases course <;> exact may.elim

/-- The operations that tell the signal are the engine's. -/
theorem telling_engine {o : Op} {k : Ans o → Code Outcome}
    (main : proc.main = proc.loc.around (.step o k)) (may : (telling s).allowed course o) :
    proc.returned = false := by
  unfold Proc.returned
  rw [main, around_step, Prog.next_step]
  cases course <;> cases o <;> first | rfl | exact may.elim

/-- What the engine returns with. -/
theorem tells_ret {outcome : Outcome} (tells : s.Tells course (.ok outcome))
    (told : course = .written → s ≠ .lost ∧ w.Stands proc.loc.runId s) :
    outcome.status = s.status ∧ (s ≠ .lost → w.Stands proc.loc.runId s) := by
  cases course with
  | «open» => exact ⟨tells.2, fun kept => absurd tells.1 kept⟩
  | written => exact ⟨tells, fun _ => (told rfl).2⟩
  | announced | broken => exact tells.elim

/-- The engine comes to its end. -/
theorem tells_returns {ok : World → Action → Prop}
    (reached : Reaches (World.step cfg) ok (.init now) w) (hp : w.procs[p]? = some proc)
    (alive : proc.stopped = false) (context : proc.loc.ctx.isSome = true)
    (row : (w.store.standing proc.loc.runId).isSome = true)
    (main : proc.main = proc.loc.around code) (obeys : Obeys (telling s) course code s.Tells)
    (sound : course ≠ .broken)
    (told : course = .written → s ≠ .lost ∧ w.Stands proc.loc.runId s) :
    ∃ w' proc' outcome, Reaches (World.step cfg) (concluding p) w w' ∧
      w'.procs[p]? = some proc' ∧ proc'.main = proc'.loc.around (.ret outcome) ∧
      outcome.status = s.status ∧ (s ≠ .lost → w'.Stands proc'.loc.runId s) := by
  have anyway : Reaches (World.step cfg) (fun _ _ => True) (.init now) w :=
    reached.weaken fun _ _ _ => trivial
  clear reached
  induction code generalizing w proc course with
  | ret outcome => exact ⟨w, proc, outcome, .refl, hp, main, tells_ret obeys told⟩
  | raise exc => cases course <;> first | exact absurd rfl sound | exact obeys.elim
  | step o k ih =>
    have answered : ∃ r st' loc',
        exec cfg w.now w.store proc.loc .done o = some (r, st', loc') :=
      telling_answered obeys.1 context
    obtain ⟨r, st', loc', run⟩ := answered
    obtain ⟨same, worker, remembered⟩ := exec_ctx run
    have going := telling_engine main obeys.1
    rw [around_step] at main
    let next : Proc := { proc with
      loc := loc', phase := proc.phase.next o r, main := proc.loc.around (k r), started := true }
    let after : World := { w with
      store := st', procs := w.procs.set p next
      moments := w.moments ++ w.moment p proc.loc.runId o r }
    have moved : w.step cfg (.main p .done) = some after := step_main hp alive main run
    have there : after.procs[p]? = some next :=
      List.getElem?_set_self (List.getElem?_eq_some_iff.mp hp).1
    have allowed := (shaped_reaches anyway hp).main
    rw [main] at allowed
    have acts : MainActs cfg w after p .done proc o r loc' :=
      ⟨hp, alive, run, allowed.1, _, main, rfl⟩
    obtain ⟨sound', told'⟩ := told_next (numbered_reaches anyway) acts row obeys.1 told
    obtain ⟨w', proc', outcome, rest, ends⟩ := ih r there alive
      (remembered_keeps remembered context) (same ▸ row_step moved row)
      (around_same worker _).symm (obeys.2 r) sound' (same ▸ told')
      (anyway.tail trivial moved)
    refine ⟨w', proc', outcome, (Reaches.tail .refl ?_ moved).trans rest, ends⟩
    intro mine hm other ho
    obtain rfl := Option.some.inj (hp.symm.trans hm)
    rw [if_pos rfl]
    exact ⟨rfl, going⟩

theorem ends_with {ok : World → Action → Prop}
    (reached : Reaches (World.step cfg) ok (.init now) w) (hp : w.procs[p]? = some proc)
    (context : proc.loc.ctx.isSome = true) (tells : w.Tells s p) : w.EndsWith cfg s p proc := by
  obtain ⟨proc', code, course, hp', -, row, main, obeys, sound, told⟩ := tells
  obtain rfl := Option.some.inj (hp.symm.trans hp')
  refine ⟨fun over_ => ?_, fun lost going ans w' step => ?_, fun alive =>
    tells_returns reached hp alive context row main obeys sound told⟩
  · cases code with
    | ret outcome => exact ⟨outcome, main, tells_ret obeys told⟩
    | raise exc => cases course <;> first | exact absurd rfl sound | exact obeys.elim
    | step o k => cases over_.symm.trans (telling_engine main obeys.1)
  · obtain ⟨o, k, r, rfl, _, acts, -⟩ :=
      engine_answered (fun _ _ => shaped_reaches reached) step hp going main
    rcases exec_store acts.run with ⟨same, -⟩ | wrote
    · exact same
    · subst lost
      generalize w'.store = store at wrote
      cases wrote <;> cases course <;>
        first | exact obeys.1.elim | exact absurd rfl obeys.1 | exact absurd rfl obeys.1.1

end SignalLemmas

open SignalLemmas

/-- The call has raised the signal, and its callers carry it or the engine tells it. -/
def World.Passes (w : World) (s : Signal) (p c b : Nat) (rec : CallRecord) (chain : List Host) :
    Prop :=
  ∃ proc, w.procs[p]? = some proc ∧
    (∃ rec' t, proc.At c b rec' t ∧ rec.SameCall rec' ∧ t.signal = some s) ∧
    proc.Carries s chain c rec.caller rec.role ∧ (proc.phase.isInside = true ∨ w.Tells s p)

namespace SignalLemmas

variable {cfg : Config} {s : Signal} {now : Int} {w w' : World} {a : Action} {p c b : Nat}
  {rec : CallRecord} {chain : List Host} {ok : World → Action → Prop}

theorem passes_step (reached : Reaches (World.step cfg) ok (.init now) w)
    (move : w.step cfg a = some w') (passing : passing cfg p chain s w a)
    (direct : s.control = true ∨ ∀ m ∈ chain, m.role = .verify)
    (inv : w.Passes s p c b rec chain) : w'.Passes s p c b rec chain := by
  obtain ⟨proc, hp, ⟨rec', t, at_, same, signalled⟩, carries, told⟩ := inv
  obtain ⟨out, undisturbed, unhindered⟩ := passing
  have all : Reaches (World.step cfg) (fun _ _ => True) (.init now) w :=
    reached.weaken fun _ _ _ => trivial
  have shaped : ∀ (p : Nat) (proc : Proc), w.procs[p]? = some proc → proc.Shaped cfg :=
    fun _ _ => shaped_reaches all
  have shaped' : ∀ (p : Nat) (proc : Proc), w'.procs[p]? = some proc → proc.Shaped cfg :=
    fun _ _ => shaped_reaches (all.tail trivial move)
  obtain ⟨proc', rec'', hp', at', same'⟩ := signalled_next shaped move hp at_ signalled
  have sends : proc.Sends s c rec.caller rec.role :=
    ⟨b, rec', t, at_, same.caller, same.role, .inr signalled⟩
  have carries' := carries_next shaped shaped' move hp hp' out (undisturbed proc hp).2 direct
    sends carries
  refine ⟨proc', hp', ⟨rec'', t, at', sameCall_trans same same', signalled⟩, carries', ?_⟩
  rcases told with inside | tells
  · by_cases mine : ∃ ans, a = .main p ans
    · -- the workflow ends, and not without the signal
      obtain ⟨ans, rfl⟩ := mine
      obtain ⟨c', b', rec₀, t₀, at₀, from_, as_, sends'⟩ :=
        carries_top (shaped p proc hp) sends carries
      have mem := mem_callsFrom at₀.1 (Nat.zero_le c')
      rw [from_, as_] at mem
      obtain ⟨exc, raised, is⟩ := lets_signal (out rfl proc hp inside)
        ((undisturbed proc hp).1 inside) mem (List.mem_of_getElem? at₀.2) sends'
      have takes := unhindered proc hp proc hp
      rw [if_pos rfl, if_pos inside] at takes
      exact .inr (tells_begin all move hp inside raised is (takes exc raised))
    · obtain ⟨_, hp₃, -, -, still⟩ := attempt_persists shaped move hp
      obtain rfl := Option.some.inj (hp'.symm.trans hp₃)
      obtain ⟨-, phase⟩ := still fun ans is => mine ⟨ans, is⟩
      exact .inl (phase ▸ inside)
  · have outside : proc.phase.isInside ≠ true := by
      obtain ⟨_, _, _, hp₃, outside, -⟩ := tells
      obtain rfl := Option.some.inj (hp.symm.trans hp₃)
      simp [outside]
    refine .inr (tells_step (numbered_reaches all) shaped move tells ?_ ?_)
    · rintro ans rfl mine hm
      obtain rfl := Option.some.inj (hp.symm.trans hm)
      have answered := unhindered proc hp proc hp
      rwa [if_pos rfl, if_neg outside] at answered
    · rintro kept q ans rfl apart mine hm other ho
      obtain rfl := Option.some.inj (hp.symm.trans hm)
      have elsewhere := unhindered proc hp other ho
      rw [if_neg apart] at elsewhere
      exact (elsewhere.resolve_left kept).resolve_left outside

end SignalLemmas

/-- Control signals keep their meaning. A call raises a signal, the user code on the chain and the
workflow wait for it, and the retry loops of the steps on the chain let it through, or no body is
among them. Then, where user code lets out what its calls raise and nothing else reaches it, none
of these steps tries again, and the attempt ends as the signal says. -/
theorem signals_keep_meaning {cfg : Config} {now : Int} {ok : World → Action → Prop}
    {w₁ w₂ w : World} {p c b : Nat} {ans : Answer} {s : Signal} {proc : Proc} {rec : CallRecord}
    {t : Task} {chain : List Host} (reached : Reaches (World.step cfg) ok (.init now) w₁)
    (hp : w₁.procs[p]? = some proc) (at_ : proc.At c b rec t)
    (waits : proc.Waits chain c rec.caller rec.role)
    (direct : s.control = true ∨ ∀ m ∈ chain, m.role = .verify)
    (step : w₁.step cfg (.task p c b ans) = some w₂)
    (raises : ∀ proc ∈ w₂.procs[p]?, ∀ t ∈ proc.task? c b, t.signal = some s)
    (run : Reaches (World.step cfg) (passing cfg p chain s) w₂ w) :
    ∃ proc', w.procs[p]? = some proc' ∧
      (∀ m ∈ chain, ∀ t ∈ proc'.task? m.c m.b, t.stage.host = some m.role ∨ t.signal = some s) ∧
      (proc'.phase.isInside = true ∨ w.EndsWith cfg s p proc') := by
  have begins : Reaches (World.step cfg) (fun _ _ => True) (.init now) w₂ :=
    .tail (reached.weaken fun _ _ _ => trivial) trivial step
  have after : ∀ {u : World}, Reaches (World.step cfg) (passing cfg p chain s) w₂ u →
      Reaches (World.step cfg) (fun _ _ => True) (.init now) u := fun rest =>
    begins.trans (rest.weaken fun _ _ _ => trivial)
  have base : w₂.Passes s p c b rec chain := by
    obtain ⟨proc', rec', t', hp', -, at', same, -⟩ := task_persists step hp at_
    obtain ⟨carries, inside⟩ :=
      waits_carried (fun _ _ => shaped_reaches reached) step hp hp' le_rfl waits
    obtain ⟨_, hp'', -, -, still⟩ :=
      attempt_persists (fun _ _ => shaped_reaches reached) step hp
    obtain rfl := Option.some.inj (hp'.symm.trans hp'')
    obtain ⟨-, phase⟩ := still fun _ => Action.noConfusion
    exact ⟨proc', hp', ⟨rec', t', at', same, raises proc' hp' t' (task?_of_at at')⟩, carries,
      .inl (phase ▸ inside)⟩
  obtain ⟨proc', hp', ⟨rec', t', at', -⟩, carries, told⟩ :=
    run.invariant base fun _ _ _ rest inv ok move => passes_step (after rest) move ok direct inv
  refine ⟨proc', hp', carries_tries carries, told.imp_right fun tells => ?_⟩
  exact ends_with (after run) hp' (at_known (shaped_reaches (after run) hp') at') tells

namespace Sample

/-- The body of the first step calls its context. -/
def nested (n : Nat) : Action :=
  .call 0 (some (0, 0)) (.body n) (.step "x" .atLeastOnce false none)

/-- A cancelled run comes to the boundary of a nested call. -/
def interrupted : List Action :=
  opening ++ [calls 0 "outer" .atLeastOnce] ++ advance 0 0 7 ++ [nested 1, .cancel runId] ++
    advance 0 1 2

/-- The body and the workflow let the signal out. -/
def letOut : List Action :=
  [.task 0 0 0 (.raise (cancelled runId)), .main 0 (.raise (cancelled runId))] ++ proceed 0 3

/-- A run has exceeded its wall time when it comes to the boundary of a nested call. -/
def overtime : List Action :=
  [.submit runId "w" .none "request" ⟨none, none, none, some 1, none⟩, .claim "a" []] ++
    proceed 0 7 ++ [calls 0 "outer" .atLeastOnce] ++ advance 0 0 7 ++ [.tick 2000000, nested 1] ++
    advance 0 1 3

/-- The body lets the signal out, and is tried again. -/
def again (n : Nat) : List Action :=
  [.task 0 0 0 (.raise (.budgetExceeded "wall_seconds" 1 2))] ++ advance 0 0 3 ++ [nested n] ++
    advance 0 n 4

/-- The third try is the last. -/
def exhausted : List Action :=
  again 2 ++ again 3 ++ [.task 0 0 0 (.raise (.budgetExceeded "wall_seconds" 1 2))] ++
    advance 0 0 1 ++
    [.main 0 (.raise (.stepFailed "outer#1" 3 (.budgetExceeded "wall_seconds" 1 2)))] ++
    proceed 0 4

end Sample

theorem signals_keep_meaning_cancelled : ∃ w₁ w₂ w,
    run (World.step Sample.cfg) (fun _ _ => True) (.init 0) Sample.interrupted = some w₁ ∧
    w₁.step Sample.cfg (.task 0 1 0 .done) = some w₂ ∧
    run (World.step Sample.cfg) (passing Sample.cfg 0 [⟨0, 0, .body 1⟩] .cancelled) w₂
      Sample.letOut = some w ∧
    (w.procs[0]?).map Proc.returned = some true ∧
    ∃ proc, w.procs[0]? = some proc ∧
      (∀ m ∈ [Host.mk 0 0 (.body 1)], ∀ t ∈ proc.task? m.c m.b,
        t.stage.host = some m.role ∨ t.signal = some .cancelled) ∧
      (proc.phase.isInside = true ∨ w.EndsWith Sample.cfg .cancelled 0 proc) := by
  have there : ∃ w₁ w₂ w proc rec t,
      run (World.step Sample.cfg) (fun _ _ => True) (.init 0) Sample.interrupted = some w₁ ∧
      w₁.procs[0]? = some proc ∧ proc.At 1 0 rec t ∧
      proc.Waits [⟨0, 0, .body 1⟩] 1 rec.caller rec.role ∧
      w₁.step Sample.cfg (.task 0 1 0 .done) = some w₂ ∧
      (∀ proc ∈ w₂.procs[0]?, ∀ t ∈ proc.task? 1 0, t.signal = some .cancelled) ∧
      run (World.step Sample.cfg) (passing Sample.cfg 0 [⟨0, 0, .body 1⟩] .cancelled) w₂
        Sample.letOut = some w ∧
      (w.procs[0]?).map Proc.returned = some true :=
    ⟨_, _, _, _, _, _, rfl, rfl, ⟨rfl, rfl⟩,
      ⟨Nat.zero_lt_one, rfl, _, rfl, _, rfl, rfl, rfl, rfl, rfl, rfl⟩, rfl,
      fun proc hp t ht => by cases hp; cases ht; rfl, rfl, rfl⟩
  obtain ⟨w₁, w₂, w, proc, rec, t, reached, hp, at_, waits, step, raises, rest, ended⟩ := there
  exact ⟨w₁, w₂, w, reached, step, rest, ended,
    signals_keep_meaning (run_reaches reached) hp at_ waits (.inl rfl) step raises
      (run_reaches rest)⟩

/-- A nested call finds the wall time exceeded. Its body is tried two times more, and the run fails
without the dimension in its error. -/
theorem signal_retried : ∃ w₁ w₂ w,
    run (World.step Sample.cfg) (letting 0) (.init 0) Sample.overtime = some w₁ ∧
    (∃ proc ∈ w₁.procs[0]?, ∃ rec ∈ proc.calls[1]?,
      proc.Waits [⟨0, 0, .body 1⟩] 1 rec.caller rec.role) ∧
    w₁.step Sample.cfg (.task 0 1 0 .done) = some w₂ ∧
    (∃ proc ∈ w₂.procs[0]?, ∃ t ∈ proc.task? 1 0, t.signal = some (.exceeded "wall_seconds")) ∧
    run (World.step Sample.cfg) (letting 0) w₂ Sample.exhausted = some w ∧
    (w.entered 0 (.body 2) "outer#1" = true ∧ w.entered 0 (.body 3) "outer#1" = true) ∧
    ∃ fate ∈ w.store.standing Sample.runId, fate.1 = .failed ∧
      ∃ error ∈ fate.2.2, error.type = "StepFailedError" ∧ error.dimension = none := by
  obtain ⟨w₁, h₁, waits, next⟩ := run_exists (World.step Sample.cfg) (letting 0) (.init 0)
    Sample.overtime (fun w₁ => (∃ proc ∈ w₁.procs[0]?, ∃ rec ∈ proc.calls[1]?,
        proc.Waits [⟨0, 0, .body 1⟩] 1 rec.caller rec.role) ∧
      ((w₁.step Sample.cfg (.task 0 1 0 .done)).any fun w₂ =>
        (∃ proc ∈ w₂.procs[0]?, ∃ t ∈ proc.task? 1 0,
          t.signal = some (.exceeded "wall_seconds")) ∧
        ((run (World.step Sample.cfg) (letting 0) w₂ Sample.exhausted).any fun w =>
          (w.entered 0 (.body 2) "outer#1" = true ∧ w.entered 0 (.body 3) "outer#1" = true) ∧
          ∃ fate ∈ w.store.standing Sample.runId, fate.1 = .failed ∧
            ∃ error ∈ fate.2.2, error.type = "StepFailedError" ∧ error.dimension = none) = true) =
        true) (by decide +kernel)
  obtain ⟨w₂, step, facts⟩ := (Option.any_eq_true _ _).mp next
  obtain ⟨raised, last⟩ := of_decide_eq_true facts
  obtain ⟨w, h, ends⟩ := (Option.any_eq_true _ _).mp last
  obtain ⟨entered, fate⟩ := of_decide_eq_true ends
  exact ⟨w₁, w₂, w, h₁, waits, step, raised, h, entered, fate⟩

end AnchorRuntime
