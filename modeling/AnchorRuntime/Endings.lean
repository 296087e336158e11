import AnchorRuntime.Terminal
import AnchorRuntime.Lib.Everywhere

/-!
# How an ending is recorded

When the workflow has ended the engine writes how: a terminal event, then the terminal status
with the result or the error of the run. Any of these writes raises when it holds something the
database cannot take, and then the ending is lost, in part or as a whole.

Results: `code_closes`, the code of every exit of the engine refines the machine that writes
the ending; `ending_recorded`, an attempt that keeps its lease records its ending if and only if
the store takes all of it; `ending_lost`, a run that is completed in its log and goes on.
-/

namespace AnchorRuntime

open Effect Machine Code ShapeLemmas ProcLemmas TextLemmas

/-! ## Exits of the engine -/

/-- How `Engine.execute` comes to conclude an attempt: the workflow is unknown, or it has
ended. -/
inductive Exit
  | unknown (exc : Exn)
  | ended (ending : Except Exn Value)

namespace Exit

/-- The status an exit writes. -/
def status : Exit → RunStatus
  | .ended (.ok _) => .completed
  | .ended (.error (.cancellationRequested _)) => .cancelled
  | .ended (.error (.ambiguousStep _ _)) => .needsReview
  | .ended (.error (.leaseLost _)) => .running
  | _ => .failed

/-- The result an exit writes. -/
def result : Exit → Value
  | .ended (.ok result) => result
  | _ => .none

/-- The error an exit writes. -/
def error (cfg : Config) : Exit → Option RunError
  | .unknown exc =>
    some { type := "WorkflowNotFound", message := exc.str, retryable := some false }
  | .ended (.ok _) => none
  | .ended (.error exc) =>
    match exc with
    | .cancellationRequested _ => none
    | .leaseLost _ => none
    | .ambiguousStep stepKey token => some (reviewError stepKey token)
    | .budgetExceeded dimension _ _ => some
      { type := "BudgetExceededError", message := exc.str, retryable := some false,
        dimension := some dimension }
    | .stepFailed stepKey attempts _ => some
      { type := "StepFailedError", message := exc.str, retryable := some false,
        stepKey := some stepKey, attempts := some attempts }
    | _ => some
      { type := exc.typeName, message := exc.message, retryable := some false,
        traceback := some (cfg.formatExc exc) }

/-- The store takes the events of an exit. -/
def announceable (cfg : Config) : Exit → Bool
  | .ended (.ok _) => true
  | .ended (.error (.cancellationRequested message)) => jsonText message
  | .ended (.error (.ambiguousStep stepKey token)) =>
    (Payload.runNeedsReview token "unresolved_at_most_once_step").storable && pgText stepKey
  | .ended (.error (.budgetExceeded dimension limit observed)) =>
    (Payload.budgetExceeded dimension limit observed).storable &&
      (error cfg (.ended (.error (.budgetExceeded dimension limit observed)))).all (·.storable)
  | e => (e.error cfg).all (·.storable)

/-- The store takes the result and the error of an exit. -/
def writable (cfg : Config) (e : Exit) : Bool :=
  storableValue e.result && (e.error cfg).all (·.storable)

/-- The store takes all that an exit writes. -/
def recordable (cfg : Config) (e : Exit) : Bool := e.announceable cfg && e.writable cfg

/-- The code of an exit. -/
def code (cfg : Config) (runId : Uuid) : Exit → Code Outcome
  | .unknown exc =>
    fail runId { type := "WorkflowNotFound", message := exc.str, retryable := some false }
  | .ended ending => conclude cfg runId ending

end Exit

/-- What a body has raised is written with `repr`: the run that its step fails is recorded, whatever
the text of the exception is. -/
theorem stepFailed_recordable (cfg : Config) {stepKey : String} (attempts : Int) {cause : Exn}
    (key : jsonText stepKey = true) (named : verbatim cause.typeName = true) :
    (Exit.ended (.error (.stepFailed stepKey attempts cause))).recordable cfg = true := by
  have text : verbatim (Exn.str (.stepFailed stepKey attempts cause)) = true := by
    have words : verbatim "step " = true ∧ verbatim " failed after " = true ∧
        verbatim " attempt(s): " = true ∧ verbatim "(" = true ∧ verbatim ")" = true := by decide
    show verbatim ("step " ++ pyRepr stepKey ++ " failed after " ++ toString attempts ++
      " attempt(s): " ++ (cause.typeName ++ "(" ++ pyRepr cause.str ++ ")")) = true
    simp only [verbatim_append, words, pyRepr_verbatim, named, toString_verbatim, Bool.and_self]
  have type : jsonText "StepFailedError" = true := by decide
  simp [Exit.recordable, Exit.announceable, Exit.writable, Exit.error, Exit.result,
    RunError.storable, jsonText_verbatim text, type, key, storableValue, Value.jsonable,
    Value.jsonb]

/-! ## Writing the ending -/

/-- How far the ending is written. -/
inductive Course
  | open
  | announced
  | written
  | broken

/-- The machine that writes the ending: events that are not terminal, one that is, and the
status. -/
def closing (cfg : Config) (e : Exit) : Protocol Ans Course where
  allowed
    | .open, .snapshot => True
    | .open, .appendEvent key payload =>
      (payload.ends = none ∧
        (e.announceable cfg = true → (payload.storable && key.all pgText) = true)) ∨
      (payload.ends = some e.status ∧
        (payload.storable && key.all pgText) = e.announceable cfg)
    | .announced, .saveUsage => True
    | .announced, .setStatus status result error =>
      status = e.status ∧ (storableValue result && error.all (·.storable)) = e.writable cfg
    | .written, .snapshot => True
    | _, _ => False
  next
    | .open, .appendEvent _ payload, .ok _ => if payload.ends.isSome then .announced else .open
    | .open, .appendEvent _ _, .error _ => .broken
    | .announced, .saveUsage, .error _ => .broken
    | .announced, .setStatus _ _ _, .ok _ => .written
    | .announced, .setStatus _ _ _, .error _ => .broken
    | course, _, _ => course

/-- What an exit returns or raises, and how far the ending is written then. -/
def Exit.Ends (e : Exit) : Course → Except Exn Outcome → Prop
  | .written, .ok outcome => outcome.status = e.status
  | .broken, .error _ => True
  | _, _ => False

namespace EndingLemmas

variable {cfg : Config} {runId : Uuid} {e : Exit}

/-- The last lines of every exit. -/
theorem write_closes (result' : Value) (error' : Option RunError) :
    Obeys (closing cfg e) .announced
      (do setStatus e.status e.result (e.error cfg); outcome runId e.status result' error')
      e.Ends := by
  rw [obeys_bind]
  refine obeys_perform.mpr ⟨⟨rfl, rfl⟩, ?_⟩
  rintro (exc | ⟨⟩)
  · trivial
  · simp only [id, then_ok, outcome, snapshot, obeys_bind, obeys_ask]
    exact ⟨trivial, fun _ => rfl⟩

theorem save_closes (result' : Value) (error' : Option RunError) :
    Obeys (closing cfg e) .announced
      (do
        saveUsage
        setStatus e.status e.result (e.error cfg)
        outcome runId e.status result' error')
      e.Ends := by
  rw [obeys_bind]
  refine obeys_perform.mpr ⟨trivial, ?_⟩
  rintro (exc | ⟨⟩)
  · trivial
  · exact write_closes result' error'

/-- The terminal event of an exit, and what follows it. -/
theorem announce_closes {key : Option String} {payload : Payload} {rest : Code Outcome}
    (ends : payload.ends = some e.status)
    (storable : (payload.storable && key.all pgText) = e.announceable cfg)
    (closes : Obeys (closing cfg e) .announced rest e.Ends) :
    Obeys (closing cfg e) .open (do let _ ← appendEvent key payload; rest) e.Ends := by
  rw [obeys_bind]
  refine obeys_perform.mpr ⟨.inr ⟨ends, storable⟩, ?_⟩
  rintro (exc | n)
  · trivial
  · have next : (closing cfg e).next .open (.appendEvent key payload) (.ok n) = .announced := by
      simp [closing, ends]
    rw [next]
    exact closes

/-- The exits that fail the run. -/
theorem fail_closes {error : RunError} (failed : e.status = .failed) (silent : e.result = .none)
    (record : e.error cfg = some error) (storable : error.storable = e.announceable cfg) :
    Obeys (closing cfg e) .open (fail runId error) e.Ends := by
  have rest := @save_closes cfg runId e .none (some error)
  rw [failed, silent, record] at rest
  exact announce_closes (by rw [failed]; rfl) (by simpa [Payload.storable] using storable) rest

end EndingLemmas

open EndingLemmas

/-- The code of every exit but a lost lease refines the machine that writes the ending. -/
theorem code_closes (cfg : Config) (runId : Uuid) (e : Exit)
    (kept : ∀ message, e ≠ .ended (.error (.leaseLost message))) :
    Obeys (closing cfg e) .open (e.code cfg runId) e.Ends := by
  cases e with
  | unknown exc => exact fail_closes rfl rfl rfl rfl
  | ended ending =>
    cases ending with
    | ok result =>
      simp only [Exit.code, conclude, snapshot, obeys_bind, obeys_ask]
      refine ⟨trivial, fun _ => ?_⟩
      exact announce_closes rfl rfl (save_closes result none)
    | error exc =>
      cases exc with
      | cancellationRequested message =>
        exact announce_closes rfl (Bool.and_true _) (write_closes .none none)
      | budgetExceeded dimension limit observed =>
        simp only [Exit.code, conclude]
        rw [obeys_bind]
        refine obeys_perform.mpr ⟨.inl ⟨rfl, fun takes => ?_⟩, ?_⟩
        · rw [Option.all_none, Bool.and_true]
          exact ((Bool.and_eq_true _ _).mp takes).1
        · rintro (exc | n)
          · trivial
          · refine fail_closes rfl rfl rfl ?_
            -- the error has the dimension in it
            cases held : jsonText dimension <;>
              simp [Exit.announceable, Exit.error, Payload.storable, RunError.storable, held]
      | ambiguousStep stepKey token =>
        exact announce_closes rfl rfl (write_closes .none none)
      | leaseLost message => exact absurd rfl (kept message)
      | stepFailed stepKey attempts cause => exact fail_closes rfl rfl rfl rfl
      | workflowNotFound message => exact fail_closes rfl rfl rfl rfl
      | toolNotFound message => exact fail_closes rfl rfl rfl rfl
      | exception type message => exact fail_closes rfl rfl rfl rfl

/-! ## The attempt around the engine -/

/-- `Worker._process` once `Engine.execute` has ended. -/
def dispatch : Except Exn Outcome → Code (Option Outcome)
  | .error _ => do
    let released ← release.attempt
    stopHeartbeat
    .ofExcept released
    return none
  | .ok outcome => do
    stopHeartbeat
    if outcome.shouldDequeue then dequeue
    return some outcome

theorem process_dispatch (cfg : Config) (runId : Uuid) :
    process cfg runId = (execute cfg runId).attempt >>= dispatch := by
  unfold process
  congr 1

/-- The code of an attempt whose `Engine.execute` has come to `code`. -/
def Local.around (loc : Local) (code : Code Outcome) : Code (Option Outcome) :=
  if loc.guarded then code.attempt >>= dispatch else some <$> code

/-- `Engine.execute` has returned or raised. -/
def Proc.returned (proc : Proc) : Bool :=
  match proc.main.next with
  | some .release | some .stopHeartbeat | none => true
  | _ => false

/-- The operation is answered as the state determines. -/
def Answer.isDone : Answer → Bool
  | .done => true
  | _ => false

/-- Attempt `p` concludes and keeps its lease: no other attempt of its run acts on its own
account, and the driver raises for no call of `p`. The run ends where `Engine.execute` does. -/
def concluding (p : Nat) (w : World) : Action → Prop
  | .main q ans => ∀ proc ∈ w.procs[p]?, ∀ other ∈ w.procs[q]?,
      if q = p then ans.isDone = true ∧ proc.returned = false
      else other.loc.runId ≠ proc.loc.runId
  | _ => True

instance (p : Nat) (w : World) (a : Action) : Decidable (concluding p w a) :=
  match a with
  | .main q ans => inferInstanceAs (Decidable (∀ proc ∈ w.procs[p]?, ∀ other ∈ w.procs[q]?,
      if q = p then ans.isDone = true ∧ proc.returned = false
      else other.loc.runId ≠ proc.loc.runId))
  | .submit _ _ _ _ _ | .cancel _ | .tick _ | .claim _ _ | .execute _ | .beat _ _ | .task _ _ _ _
  | .call _ _ _ _ | .stop _ => .isTrue trivial

/-- The statuses the terminal events of a log announce. -/
def endings (log : List Event) : List RunStatus := log.filterMap (·.payload.ends)

/-- Between two worlds the attempt has returned this outcome, and has recorded it: in the row,
and by one terminal event. -/
structure World.Records (w w' : World) (proc : Proc) (outcome : Outcome) : Prop where
  returned : proc.main = proc.loc.around (.ret outcome)
  terminal : outcome.status.terminal = true
  row : (w'.store.standing proc.loc.runId).map (·.1) = some outcome.status
  announced : endings (w'.store.loadEvents proc.loc.runId) =
    endings (w.store.loadEvents proc.loc.runId) ++ [outcome.status]

/-- What log and row say of the run when the ending has got so far. -/
def World.At (w w' : World) (cfg : Config) (e : Exit) (j : Uuid) : Course → Prop
  | .open => endings (w'.store.loadEvents j) = endings (w.store.loadEvents j)
  | .announced => e.announceable cfg = true ∧
      endings (w'.store.loadEvents j) = endings (w.store.loadEvents j) ++ [e.status]
  | .written => e.recordable cfg = true ∧
      endings (w'.store.loadEvents j) = endings (w.store.loadEvents j) ++ [e.status] ∧
      (w'.store.standing j).map (·.1) = some e.status
  | .broken => e.recordable cfg = false

/-- Attempt `p` is on its way from the beginning of its exit to the end of the engine. -/
def World.Concludes (w w' : World) (cfg : Config) (e : Exit) (p : Nat) (j : Uuid) : Prop :=
  ∃ proc code course, w'.procs[p]? = some proc ∧ proc.loc.runId = j ∧
    (w'.store.standing j).isSome = true ∧ proc.main = proc.loc.around code ∧
    Obeys (closing cfg e) course code e.Ends ∧ w.At w' cfg e j course

namespace EndingLemmas

variable {cfg : Config} {e : Exit} {w w' w'' : World} {a : Action} {p : Nat} {j : Uuid}
  {proc : Proc} {course : Course}

theorem around_step {loc : Local} {o : Op} (k : Ans o → Code Outcome) :
    loc.around (.step o k) = .step o fun r => loc.around (k r) := by
  unfold Local.around
  split <;> rfl

theorem around_same {loc loc' : Local} (same : loc'.worker = loc.worker) (code : Code Outcome) :
    loc'.around code = loc.around code := by
  unfold Local.around Local.guarded
  rw [same]

/-- Where the engine has not ended, the attempt performs an operation of the engine. -/
theorem inside_engine {code : Code Outcome} (going : proc.returned = false)
    (main : proc.main = proc.loc.around code) : ∃ o k, code = .step o k := by
  unfold Proc.returned at going
  rw [main] at going
  cases code with
  | step o k => exact ⟨o, k, rfl⟩
  | ret outcome =>
    cases guarded : proc.loc.guarded <;> simp only [Local.around, guarded] at going <;> cases going
  | raise exc =>
    cases guarded : proc.loc.guarded <;> simp only [Local.around, guarded] at going <;> cases going

/-- What the engine's step does to its attempt: an operation of its code is answered. -/
theorem engine_answered {code : Code Outcome} {ans : Answer}
    (shaped : ∀ (p : Nat) (proc : Proc), w.procs[p]? = some proc → proc.Shaped cfg)
    (h : w.step cfg (.main p ans) = some w') (hp : w.procs[p]? = some proc)
    (going : proc.returned = false) (main : proc.main = proc.loc.around code) :
    ∃ o k r, code = .step o k ∧ ∃ proc', MainActs cfg w w' p ans proc o r proc'.loc ∧
      w'.procs[p]? = some proc' ∧ proc'.loc.runId = proc.loc.runId ∧
      proc'.phase = proc.phase.next o r ∧ proc'.main = proc'.loc.around (k r) := by
  obtain ⟨_, o, r, loc, acts⟩ := main_acts shaped h
  obtain rfl := Option.some.inj (hp.symm.trans acts.hp)
  obtain ⟨o', k', rfl⟩ := inside_engine going main
  obtain ⟨k, is, after⟩ := acts.after
  rw [around_step] at main
  cases main.symm.trans is
  obtain ⟨run, worker, -⟩ := exec_ctx acts.run
  refine ⟨o, k', r, rfl, { proc with
      loc, phase := proc.phase.next o r, main := proc.loc.around (k' r), started := true },
    acts, ?_, run, rfl, (around_same worker _).symm⟩
  rw [after]
  exact List.getElem?_set_self (List.getElem?_eq_some_iff.mp hp).1

theorem endings_append (log es : List Event) :
    endings (log ++ es) = endings log ++ endings es := List.filterMap_append

theorem endings_none {es : List Event} (h : ∀ e ∈ es, e.payload.ends = none) : endings es = [] :=
  List.filterMap_eq_nil_iff.mpr h

/-- Only the main code of the attempts of a run ends it, in its log or in its row. -/
theorem unended_step (numbered : w.store.Numbered)
    (shaped : ∀ (p : Nat) (proc : Proc), w.procs[p]? = some proc → proc.Shaped cfg)
    (h : w.step cfg a = some w') (row : (w.store.standing j).isSome = true)
    (other : ∀ q ans proc, a = .main q ans → w.procs[q]? = some proc → proc.loc.runId ≠ j) :
    endings (w'.store.loadEvents j) = endings (w.store.loadEvents j) ∧
      w'.store.standing j = w.store.standing j := by
  constructor
  · cases a with
    | main q ans =>
      obtain ⟨proc, o, r, loc, acts⟩ := main_acts shaped h
      rw [acts.log numbered, if_neg (other q ans proc rfl acts.hp).symm, List.append_nil]
    | task q c b ans =>
      obtain ⟨proc, rec, t, o, r, loc, acts⟩ := task_acts shaped h
      rw [acts.log numbered]
      split
      · rw [endings_append, endings_none (FinalityLemmas.step_unending acts.may w.now).2,
          List.append_nil]
      · rw [List.append_nil]
    | _ =>
      rcases outside_log numbered h (by simp [Action.runsCode]) j with
        same | ⟨none, -⟩ | ⟨-, -, e, log, -, is⟩
      · rw [same]
      · rw [Store.standing, none] at row
        cases row
      · have silent : endings [e] = [] := endings_none fun e' mem => by
          rw [List.mem_singleton.mp mem, is]
          rfl
        rw [log, endings_append, silent, List.append_nil]
  · rcases TerminalLemmas.standing_cases shaped h j with
      same | ⟨none, -⟩ | ⟨q, ans, proc, _, _, _, _, rfl, acts, own, -⟩
    · exact same
    · rw [none] at row
      cases row
    · exact absurd own (other q ans proc rfl acts.hp)

/-- What the log and the row say stays, while nothing ends the run. -/
theorem at_same (log : endings (w''.store.loadEvents j) = endings (w'.store.loadEvents j))
    (standing : w''.store.standing j = w'.store.standing j) (h : w.At w' cfg e j course) :
    w.At w'' cfg e j course := by
  cases course with
  | «open» => exact log.trans h
  | announced => exact ⟨h.1, log.trans h.2⟩
  | written => exact ⟨h.1, log.trans h.2.1, (congrArg _ standing).trans h.2.2⟩
  | broken => exact h

/-- A store call that the driver does not fail. -/
theorem storeCall_done {α : Type} {st st' : Store} {loc loc' : Local}
    {outcome : Except Exn (α × Store)} {r : Except Exn α}
    (h : storeCall st loc outcome .done = some (r, st', loc')) :
    (∃ a, outcome = .ok (a, st') ∧ r = .ok a) ∨ ∃ exc, outcome = .error exc ∧ r = .error exc := by
  cases outcome with
  | ok a =>
    cases h
    exact .inl ⟨_, rfl, rfl⟩
  | error exc =>
    cases h
    exact .inr ⟨_, rfl, rfl⟩

theorem append_takes {st st' : Store} {now : Int} {key : Option String} {payload : Payload}
    {n : Option Nat} (h : st.appendEvent now j key payload = .ok (n, st')) :
    (payload.storable && key.all pgText) = true := by
  unfold Store.appendEvent at h
  split at h
  · assumption
  · cases h

theorem setStatus_takes {st : Store} {now : Int} {status : RunStatus} {result : Value}
    {error : Option RunError} :
    (∃ st', st.setStatus now j status result error = .ok ((), st')) ↔
      (storableValue result && error.all (·.storable)) = true := by
  unfold Store.setStatus
  split
  · next takes => exact ⟨fun _ => takes, fun _ => ⟨_, rfl⟩⟩
  · next refuses =>
    constructor
    · rintro ⟨_, stored⟩
      cases stored
    · exact fun takes => absurd takes refuses

theorem not_recordable (h : e.announceable cfg = false ∨ e.writable cfg = false) :
    e.recordable cfg = false := by
  unfold Exit.recordable
  rcases h with h | h <;> simp [h]

/-- What an operation of the exit, not failed by the driver, does to the ending. -/
theorem course_next {o : Op} {r : Ans o} {loc : Local} (numbered : w'.store.Numbered)
    (acts : MainActs cfg w' w'' p .done proc o r loc)
    (row : (w'.store.standing proc.loc.runId).isSome = true)
    (may : (closing cfg e).allowed course o) (h : w.At w' cfg e proc.loc.runId course) :
    w.At w'' cfg e proc.loc.runId ((closing cfg e).next course o r) := by
  have log := acts.log numbered proc.loc.runId
  have standing := (exec_standing acts.run proc.loc.runId).1
  rw [if_pos rfl] at log standing
  have quiet : ∀ {course' : Course}, written w'.now o r = [] → stood o r = id →
      w.At w' cfg e proc.loc.runId course' → w.At w'' cfg e proc.loc.runId course' := by
    intro course' silent still at_
    refine at_same ?_ ?_ at_
    · rw [log, silent, List.append_nil]
    · rw [standing, still, Option.map_id]
      rfl
  cases course with
  | «open» =>
    cases o with
    | snapshot => exact quiet rfl rfl h
    | appendEvent key payload =>
      rcases storeCall_done acts.run with ⟨n, stored, rfl⟩ | ⟨exc, refused, rfl⟩
      · obtain ⟨seq, rfl⟩ := FinalityLemmas.append_some acts.run row numbered
        have takes := append_takes stored
        rcases may with ⟨silent, -⟩ | ⟨ends, same⟩
        · have next : (closing cfg e).next .open (.appendEvent key payload) (.ok (some seq)) =
              .open := by
            simp [closing, silent]
          rw [next]
          have none : endings [⟨seq, key, payload, w'.now⟩] = [] := by simp [endings, silent]
          show endings _ = _
          rw [log, written, endings_append, none, List.append_nil]
          exact h
        · have next : (closing cfg e).next .open (.appendEvent key payload) (.ok (some seq)) =
              .announced := by
            simp [closing, ends]
          rw [next]
          have one : endings [⟨seq, key, payload, w'.now⟩] = [e.status] := by simp [endings, ends]
          refine ⟨same.symm.trans takes, ?_⟩
          rw [log, written, endings_append, one]
          exact congrArg (· ++ [e.status]) h
      · obtain ⟨-, refuses⟩ := appendEvent_ok numbered refused
        refine not_recordable (.inl ?_)
        rcases may with ⟨-, needs⟩ | ⟨-, same⟩
        · by_contra yes
          cases refuses.symm.trans (needs (by simpa using yes))
        · exact same.symm.trans refuses
    | _ => exact may.elim
  | announced =>
    cases o with
    | saveUsage =>
      obtain ⟨ctx, -, call⟩ := Option.bind_eq_some_iff.mp acts.run
      rcases storeCall_done call with ⟨_, -, rfl⟩ | ⟨exc, refused, -⟩
      · exact quiet rfl rfl h
      · cases refused
    | setStatus status result error =>
      obtain ⟨rfl, same⟩ := may
      rcases storeCall_done acts.run with ⟨⟨⟩, stored, rfl⟩ | ⟨exc, refused, rfl⟩
      · have takes := same.symm.trans (setStatus_takes.mp ⟨_, stored⟩)
        have silent : written w'.now (.setStatus e.status result error) (.ok ()) = [] := rfl
        refine ⟨by simp [Exit.recordable, h.1, takes], ?_, ?_⟩
        · rw [log, silent, List.append_nil]
          exact h.2
        · obtain ⟨old, hold⟩ := Option.isSome_iff_exists.mp row
          rw [standing, hold]
          rfl
      · refine not_recordable (.inr ?_)
        rw [← same]
        by_contra takes
        obtain ⟨st', stored⟩ := (@setStatus_takes proc.loc.runId w'.store w'.now e.status
          _ _).mpr (by simpa using takes)
        cases refused.symm.trans stored
    | _ => exact may.elim
  | written =>
    cases o with
    | snapshot => exact quiet rfl rfl h
    | _ => exact may.elim
  | broken => exact may.elim

theorem concludes_step (numbered : w'.store.Numbered)
    (shaped : ∀ (p : Nat) (proc : Proc), w'.procs[p]? = some proc → proc.Shaped cfg)
    (step : w'.step cfg a = some w'') (ok : concluding p w' a) (h : w.Concludes w' cfg e p j) :
    w.Concludes w'' cfg e p j := by
  obtain ⟨proc, code, course, hp, rfl, row, main, closes, at_⟩ := h
  have row' := row_step step row
  by_cases mine : ∃ ans, a = .main p ans
  · obtain ⟨ans, rfl⟩ := mine
    have mine := ok _ hp _ hp
    rw [if_pos rfl] at mine
    obtain ⟨answered, going⟩ := mine
    obtain rfl : ans = .done := by
      cases ans <;> first | rfl | cases answered
    obtain ⟨o, k, r, rfl, proc', acts, hp', run, -, main'⟩ :=
      engine_answered shaped step hp going main
    exact ⟨proc', k r, _, hp', run, row', main', closes.2 r,
      course_next numbered acts row closes.1 at_⟩
  · have idle : ∀ ans, a ≠ .main p ans := fun ans is => mine ⟨ans, is⟩
    obtain ⟨proc', hp', run, worker, still⟩ := attempt_persists shaped step hp
    have main' := (still idle).1
    have others : ∀ q ans other, a = .main q ans → w'.procs[q]? = some other →
        other.loc.runId ≠ proc.loc.runId := by
      rintro q ans other rfl hq
      have apart := ok _ hp _ hq
      rwa [if_neg fun same => idle ans (by rw [same])] at apart
    obtain ⟨log, standing⟩ := unended_step numbered shaped step row others
    exact ⟨proc', code, course, hp', run, row', by rw [main', main, around_same worker], closes,
      at_same log standing at_⟩

/-- An operation of the exit is one of the engine. -/
theorem going_on {o : Op} {k : Ans o → Code Outcome}
    (main : proc.main = proc.loc.around (.step o k))
    (may : (closing cfg e).allowed course o) : proc.returned = false := by
  unfold Proc.returned
  rw [main, around_step, Prog.next_step]
  cases course <;> cases o <;> first | rfl | exact may.elim

/-- An exit that has raised has no outcome. -/
theorem raised_returns_not {loc : Local} (exc : Exn) (outcome : Outcome) :
    loc.around (.raise exc) ≠ loc.around (.ret outcome) := by
  unfold Local.around
  cases loc.guarded with
  | true => exact fun same => by cases congrArg Prog.next same
  | false => exact fun same => by cases congrArg Prog.ending same

theorem terminal_exit (kept : ∀ message, e ≠ .ended (.error (.leaseLost message))) :
    e.status.terminal = true := by
  cases e with
  | unknown exc => rfl
  | ended ending =>
    cases ending with
    | ok result => rfl
    | error exc =>
      cases exc with
      | leaseLost message => exact absurd rfl (kept message)
      | _ => rfl

/-- An attempt at the beginning of an exit is past the status check. -/
theorem exit_known {proc : Proc} (shaped : proc.Shaped cfg)
    (kept : ∀ message, e ≠ .ended (.error (.leaseLost message)))
    (starts : proc.main = proc.loc.around (e.code cfg proc.loc.runId)) :
    proc.phase ≠ .start ∧ proc.phase ≠ .failing := by
  have closes := code_closes cfg proc.loc.runId e kept
  have main := shaped.main
  rw [starts] at main
  cases hcode : e.code cfg proc.loc.runId with
  | ret outcome =>
    rw [hcode] at closes
    exact closes.elim
  | raise exc =>
    rw [hcode] at closes
    exact closes.elim
  | step o k =>
    rw [hcode] at closes main
    rw [around_step] at main
    constructor <;> intro is <;> rw [is] at main <;>
      cases o <;> first | exact closes.1.elim | cases main.1 <;> contradiction

end EndingLemmas

open EndingLemmas

/-! ## Where exits begin -/

/-- Where the code leaves the workflow, or has built its context for an unknown one, it comes to
an exit. -/
def Exits (cfg : Config) (runId : Uuid) : Code Outcome → Prop
  | .ret _ | .raise _ => True
  | .step (.leave (.workflow _ _)) k => ∀ r, k r = (Exit.ended r).code cfg runId
  | .step (.newContext run _) k => Exits cfg runId (k ()) ∧
      ∀ exc, cfg.workflow run.workflow = .error exc → k () = (Exit.unknown exc).code cfg runId
  | .step _ k => ∀ r, Exits cfg runId (k r)

theorem fail_exits (cfg : Config) (runId : Uuid) (error : RunError) :
    Exits cfg runId (fail runId error) := by
  rintro (_ | n)
  · trivial
  · rintro (_ | _)
    · trivial
    · rintro (_ | _)
      · trivial
      · exact fun _ => trivial

theorem workflow_exits (cfg : Config) (runId : Uuid) (run : RunRecord) :
    Exits cfg runId (runWorkflow cfg runId run) := by
  unfold runWorkflow
  cases cfg.workflow run.workflow with
  | error exc => exact fail_exits cfg runId _
  | ok =>
    intro entered r
    cases r <;> rfl

/-- The engine from the RUNNING status on, whatever it makes of the row and the log it reads. -/
theorem started_exits {cfg : Config} {runId : Uuid}
    (rest : Option RunRecord → List Event → Code Outcome)
    (gone : ∀ events, rest none events =
      .raise (.exception "AttributeError" "'NoneType' object has no attribute 'run_id'"))
    (goes : ∀ run events, rest (some run) events = (do
      newContext run events
      runWorkflow cfg runId run)) :
    Exits cfg runId (do
      setStatus .running .none none
      let run ← getRun
      let events ← loadEvents
      rest run events) := by
  rintro (_ | _)
  · trivial
  · rintro (_ | _ | run)
    · trivial
    · rintro (_ | events)
      · trivial
      · show Exits cfg runId (rest none events)
        rw [gone]
        trivial
    · rintro (_ | events)
      · trivial
      · show Exits cfg runId (rest (some run) events)
        rw [goes]
        refine ⟨workflow_exits cfg runId run, fun exc unknown => ?_⟩
        show runWorkflow cfg runId run = _
        unfold runWorkflow
        rw [unknown]
        rfl

theorem execute_exits (cfg : Config) (runId : Uuid) : Exits cfg runId (execute cfg runId) := by
  rintro (_ | _ | run)
  · trivial
  · trivial
  · show Exits cfg runId (if run.status.terminal then _ else _)
    split
    · trivial
    · rintro (_ | _ | attempt)
      · trivial
      · trivial
      · show Exits cfg runId (if 1 < attempt then _ else _)
        split
        · rintro (_ | n)
          · trivial
          · exact started_exits _ (fun _ => rfl) fun _ _ => rfl
        · exact started_exits _ (fun _ => rfl) fun _ _ => rfl

/-- What an attempt does after the engine: it neither leaves a workflow nor builds a context. -/
def Op.after : Op → Prop
  | .leave _ | .newContext _ _ => False
  | _ => True

/-- The attempt is inside the engine, or past it. -/
def Proc.OnCourse (cfg : Config) (proc : Proc) : Prop :=
  (∃ code, proc.main = proc.loc.around code ∧ Exits cfg proc.loc.runId code) ∨
    Everywhere Op.after proc.main

namespace EndingLemmas

theorem dispatch_after (ending : Except Exn Outcome) : Everywhere Op.after (dispatch ending) := by
  cases ending with
  | error exc =>
    refine everywhere_bind (everywhere_attempt (everywhere_perform trivial)) fun r => ?_
    refine everywhere_bind (everywhere_perform trivial) fun _ => ?_
    exact everywhere_bind (everywhere_ofExcept r) fun _ => everywhere_ret none
  | ok outcome =>
    refine everywhere_bind (everywhere_perform trivial) fun _ => ?_
    cases outcome.shouldDequeue with
    | true => exact everywhere_bind (everywhere_perform trivial) fun _ => everywhere_ret _
    | false => exact everywhere_ret _

theorem code_ret (outcome : Outcome) : (Prog.ret outcome : Code Outcome).ending.isSome = true := rfl

theorem code_raise (exc : Exn) : (Prog.raise exc : Code Outcome).ending.isSome = true := rfl

theorem around_after (loc : Local) {code : Code Outcome} (ended : code.ending.isSome = true) :
    Everywhere Op.after (loc.around code) := by
  unfold Local.around
  cases code with
  | step o k => cases ended
  | ret outcome =>
    split
    · exact dispatch_after (.ok outcome)
    · trivial
  | raise exc =>
    split
    · exact dispatch_after (.error exc)
    · trivial

/-- An exit comes to no other. -/
theorem write_exits {cfg : Config} {runId : Uuid} {status : RunStatus} {result result' : Value}
    {error error' : Option RunError} : Exits cfg runId (do
      setStatus status result error
      outcome runId status result' error') := by
  rintro (_ | _)
  · trivial
  · exact fun _ => trivial

theorem code_exits (cfg : Config) (runId : Uuid) (e : Exit) :
    Exits cfg runId (e.code cfg runId) := by
  cases e with
  | unknown exc => exact fail_exits cfg runId _
  | ended ending =>
    cases ending with
    | ok result =>
      rintro s (_ | n)
      · trivial
      · rintro (_ | _)
        · trivial
        · exact write_exits
    | error exc =>
      cases exc with
      | cancellationRequested message =>
        rintro (_ | n)
        · trivial
        · exact write_exits
      | budgetExceeded dimension limit observed =>
        rintro (_ | n)
        · trivial
        · exact fail_exits cfg runId _
      | ambiguousStep stepKey token =>
        rintro (_ | n)
        · trivial
        · exact write_exits
      | leaseLost message => exact fun _ => trivial
      | _ => exact fail_exits cfg runId _

theorem exits_next {cfg : Config} {runId : Uuid} {o : Op} {k : Ans o → Code Outcome}
    (h : Exits cfg runId (.step o k)) (r : Ans o) : Exits cfg runId (k r) := by
  cases o with
  | leave u =>
    cases u with
    | workflow name input =>
      have is : k r = (Exit.ended r).code cfg runId := h r
      rw [is]
      exact code_exits cfg runId _
    | _ => exact h r
  | newContext run events => exact h.1
  | _ => exact h r

theorem onCourse_kept (cfg : Config) : Kept cfg (Proc.OnCourse cfg) where
  claimed worker runId := .inl ⟨_, process_dispatch cfg runId, execute_exits cfg runId⟩
  executed runId := .inl ⟨_, rfl, execute_exits cfg runId⟩
  beat _ _ h := h
  main proc o k r now st st' loc ans h main run := by
    obtain ⟨same, worker, -⟩ := exec_ctx run
    rcases h with ⟨code, is, exits⟩ | after
    · cases code with
      | step o' k' =>
        rw [around_step] at is
        cases main.symm.trans is
        exact .inl ⟨k' r, (around_same worker _).symm, same ▸ exits_next exits r⟩
      | ret outcome =>
        have after := around_after proc.loc (code_ret outcome)
        rw [← is, main] at after
        exact .inr (after.2 r)
      | raise exc =>
        have after := around_after proc.loc (code_raise exc)
        rw [← is, main] at after
        exact .inr (after.2 r)
    · rw [main] at after
      exact .inr (after.2 r)
  task proc c b rec t o k r now st st' loc ans h _ _ run := by
    obtain ⟨same, worker, -⟩ := exec_ctx run
    rcases h with ⟨code, is, exits⟩ | after
    · exact .inl ⟨code, is.trans (around_same worker code).symm, same ▸ exits⟩
    · exact .inr after
  refused _ _ _ _ _ _ h _ _ _ := h
  call _ _ _ _ _ _ h _ _ _ := h
  stop _ h := h

end EndingLemmas

section

variable {cfg : Config} {now : Int} {ok : World → Action → Prop} {w w' : World} {p : Nat}
  {ans : Answer} {proc : Proc} {loc : Local}

/-- An attempt that performs an operation of the engine. -/
theorem engine_acts {o : Op} {r : Ans o} (h : Reaches (World.step cfg) ok (.init now) w)
    (acts : MainActs cfg w w' p ans proc o r loc) (inside : ¬ o.after) :
    ∃ k, Exits cfg proc.loc.runId (.step o k) ∧ ∃ proc', w'.procs[p]? = some proc' ∧
      proc'.loc.runId = proc.loc.runId ∧ proc'.main = proc'.loc.around (k r) := by
  obtain ⟨k, main, after⟩ := acts.after
  have there := (List.getElem?_eq_some_iff.mp acts.hp).1
  obtain ⟨same, worker, -⟩ := exec_ctx acts.run
  rcases (onCourse_kept cfg).reaches h p proc acts.hp with ⟨code, is, exits⟩ | past
  · cases code with
    | step o' k' =>
      rw [around_step] at is
      cases main.symm.trans is
      refine ⟨k', exits, _, by rw [after, List.getElem?_set_self there], same, ?_⟩
      exact (around_same worker _).symm
    | ret outcome =>
      have after := around_after proc.loc (code_ret outcome)
      rw [← is, main] at after
      exact absurd after.1 inside
    | raise exc =>
      have after := around_after proc.loc (code_raise exc)
      rw [← is, main] at after
      exact absurd after.1 inside
  · rw [main] at past
    exact absurd past.1 inside

/-- When the workflow has ended, its exit begins. -/
theorem workflow_exit {name : String} {input : Value} {r : Except Exn Value}
    (h : Reaches (World.step cfg) ok (.init now) w)
    (acts : MainActs cfg w w' p ans proc (.leave (.workflow name input)) r loc) :
    ∃ proc', w'.procs[p]? = some proc' ∧
      proc'.main = proc'.loc.around ((Exit.ended r).code cfg proc'.loc.runId) := by
  obtain ⟨k, exits, proc', hp', same, main⟩ := engine_acts h acts id
  exact ⟨proc', hp', by rw [main, same, exits r]⟩

/-- When the workflow is unknown, its exit begins. -/
theorem unknown_exit {run : RunRecord} {events : List Event} {exc : Exn}
    (h : Reaches (World.step cfg) ok (.init now) w)
    (acts : MainActs cfg w w' p ans proc (.newContext run events) () loc)
    (unknown : cfg.workflow run.workflow = .error exc) :
    ∃ proc', w'.procs[p]? = some proc' ∧
      proc'.main = proc'.loc.around ((Exit.unknown exc).code cfg proc'.loc.runId) := by
  obtain ⟨k, exits, proc', hp', same, main⟩ := engine_acts h acts id
  exact ⟨proc', hp', by rw [main, same, exits.2 exc unknown]⟩

end


/-! ## Where exits end -/

/-- The phases in which an attempt has its context. -/
def Phase.late : Phase → Bool
  | .built | .inside | .ended _ | .announced _ _ _ => true
  | _ => false

namespace EndingLemmas

variable {cfg : Config} {e : Exit} {w w' w'' : World} {a : Action} {p : Nat} {j : Uuid}
  {proc : Proc} {course : Course}

theorem late_next {phase : Phase} {o : Op} {r : Ans o} (may : phase.allowed o)
    (late : (phase.next o r).late = true) :
    phase.late = true ∨ ∃ run events, o = .newContext run events := by
  have moves := Phase.moves may r
  generalize phase.next o r = phase' at moves late
  cases moves with
  | build run events => exact .inr ⟨run, events, rfl⟩
  | snapshot _ is | stopHeartbeat _ is => exact .inl late
  | enter | unknown | leave | completed | cancelled | exceeded | review | failed | saveUsage =>
    exact .inl rfl
  | _ => cases late

/-- An attempt never loses its context. -/
theorem remembered_keeps {o : Op} {a b : Option RunContext} (h : Remembered o a b)
    (some : a.isSome = true) : b.isSome = true := by
  cases h <;> first | rfl | cases some

theorem late_kept (cfg : Config) : Kept cfg fun proc => proc.Shaped cfg ∧
    (proc.phase.late = true → proc.loc.ctx.isSome = true) where
  claimed worker runId := ⟨shaped_claimed worker runId, fun late => by cases late⟩
  executed runId := ⟨shaped_executed runId, fun late => by cases late⟩
  beat proc beat h := ⟨shaped_kept.beat proc beat h.1, h.2⟩
  main proc o k r now st st' loc ans h main run := by
    refine ⟨shaped_kept.main proc o k r now st st' loc ans h.1 main run, fun late => ?_⟩
    have shaped := h.1.main
    rw [main] at shaped
    have remembered := (exec_ctx run).2.2
    rcases late_next shaped.1 late with before | ⟨row, events, rfl⟩
    · exact remembered_keeps remembered (h.2 before)
    · cases ans with
      | done =>
        cases run
        rfl
      | _ => cases run
  task proc c b rec t o k r now st st' loc ans h at_ prog run := by
    refine ⟨shaped_kept.task proc c b rec t o k r now st st' loc ans h.1 at_ prog run,
      fun late => ?_⟩
    exact remembered_keeps (exec_ctx run).2.2 (h.2 late)
  refused proc path role c exc ctx h caller hctx names :=
    ⟨shaped_kept.refused proc path role c exc ctx h.1 caller hctx names, h.2⟩
  call proc path role c names ctx h caller hctx is :=
    ⟨shaped_kept.call proc path role c names ctx h.1 caller hctx is, fun _ => rfl⟩
  stop proc h := ⟨shaped_kept.stop proc h.1, h.2⟩

/-- An event of an exit is appended by an attempt that has its context. -/
theorem append_late {phase : Phase} {key : Option String} {payload : Payload}
    (may : phase.allowed (.appendEvent key payload))
    (exit : ∀ attempt seq, payload ≠ .runResumed attempt seq) : phase.late = true := by
  cases phase with
  | resuming =>
    obtain ⟨attempt, seq, is⟩ := may
    cases is
    exact absurd rfl (exit attempt seq)
  | built | inside | ended | announced => rfl
  | start | checked | starting | reading | loading => cases may
  | loaded => obtain ⟨_, _, is⟩ | is := may <;> cases is
  | settled | standing | failing => simp [Phase.allowed] at may

/-- An attempt whose next operation is an event of an exit has its context. -/
theorem announcing_late {phase : Phase} {loc : Local} {key : Option String} {payload : Payload}
    {k : Except Exn (Option Nat) → Code Outcome}
    (obeys : Obeys attemptProtocol phase
      (loc.around (.step (.appendEvent key payload) k)) fun _ _ => True)
    (exit : ∀ attempt seq, payload ≠ .runResumed attempt seq) : phase.late = true := by
  rw [around_step] at obeys
  exact append_late obeys.1 exit

/-- An attempt at the beginning of an exit has its context. -/
theorem exit_late {proc : Proc} (shaped : proc.Shaped cfg)
    (kept : ∀ message, e ≠ .ended (.error (.leaseLost message)))
    (starts : proc.main = proc.loc.around (e.code cfg proc.loc.runId)) :
    proc.phase.late = true := by
  have main := shaped.main
  rw [starts] at main
  cases e with
  | unknown exc => exact announcing_late main fun _ _ is => by cases is
  | ended ending =>
    cases ending with
    | ok result =>
      unfold Exit.code conclude at main
      change Obeys attemptProtocol proc.phase (proc.loc.around (.step .snapshot _)) _ at main
      rw [around_step] at main
      have next : ∀ s, proc.phase.next .snapshot s = proc.phase := fun s => by
        cases proc.phase <;> rfl
      have announcing := main.2 ⟨.zero, 0, 0, 0⟩
      rw [AttemptMachineLemmas.attemptProtocol_next, next] at announcing
      exact announcing_late announcing fun _ _ is => by cases is
    | error exc =>
      cases exc with
      | leaseLost message => exact absurd rfl (kept message)
      | _ => exact announcing_late main fun _ _ is => by cases is

/-- The operations of an exit are answered, where the attempt has its context. -/
theorem exit_answered {now : Int} {st : Store} {loc : Local} {o : Op}
    (may : (closing cfg e).allowed course o) (context : loc.ctx.isSome = true) :
    ∃ r st' loc', exec cfg now st loc .done o = some (r, st', loc') := by
  obtain ⟨ctx, hctx⟩ := Option.isSome_iff_exists.mp context
  cases o with
  | snapshot =>
    simp only [exec, memory, hctx]
    exact ⟨_, _, _, rfl⟩
  | saveUsage =>
    simp only [exec, hctx]
    exact ⟨_, _, _, rfl⟩
  | appendEvent key payload =>
    cases outcome : st.appendEvent now loc.runId key payload with
    | ok a => exact ⟨.ok a.1, a.2, loc, by simp only [exec, storeCall, outcome]⟩
    | error exc => exact ⟨.error exc, st, loc, by simp only [exec, storeCall, outcome]⟩
  | setStatus status result error =>
    cases outcome : st.setStatus now loc.runId status result error with
    | ok a => exact ⟨.ok a.1, a.2, loc, by simp only [exec, storeCall, outcome]⟩
    | error exc => exact ⟨.error exc, st, loc, by simp only [exec, storeCall, outcome]⟩
  | _ => cases course <;> exact may.elim

/-- An exit comes to its end. -/
theorem exit_returns {code : Code Outcome} (hp : w.procs[p]? = some proc)
    (alive : proc.stopped = false) (context : proc.loc.ctx.isSome = true)
    (main : proc.main = proc.loc.around code) (closes : Obeys (closing cfg e) course code e.Ends) :
    ∃ w' proc', Reaches (World.step cfg) (concluding p) w w' ∧ w'.procs[p]? = some proc' ∧
      proc'.returned = true := by
  induction code generalizing w proc course with
  | ret outcome =>
    refine ⟨w, proc, .refl, hp, ?_⟩
    unfold Proc.returned
    rw [main, Local.around]
    cases proc.loc.guarded <;> rfl
  | raise exc =>
    refine ⟨w, proc, .refl, hp, ?_⟩
    unfold Proc.returned
    rw [main, Local.around]
    cases proc.loc.guarded <;> rfl
  | step o k ih =>
    have answered : ∃ r st' loc',
        exec cfg w.now w.store proc.loc .done o = some (r, st', loc') :=
      exit_answered closes.1 context
    obtain ⟨r, st', loc', run⟩ := answered
    obtain ⟨-, worker, remembered⟩ := exec_ctx run
    have going := going_on main closes.1
    let next : Proc := { proc with
      loc := loc', phase := proc.phase.next o r, main := proc.loc.around (k r), started := true }
    let after : World := { w with
      store := st', procs := w.procs.set p next
      moments := w.moments ++ w.moment p proc.loc.runId o r }
    have moved : w.step cfg (.main p .done) = some after := by
      rw [around_step] at main
      exact step_main hp alive main run
    have there : after.procs[p]? = some next :=
      List.getElem?_set_self (List.getElem?_eq_some_iff.mp hp).1
    obtain ⟨w', proc', rest, hp', returned⟩ := ih r there alive
      (remembered_keeps remembered context) (around_same worker _).symm (closes.2 r)
    refine ⟨w', proc', (Reaches.tail .refl ?_ moved).trans rest, hp', returned⟩
    intro mine hm other ho
    obtain rfl := Option.some.inj (hp.symm.trans hm)
    rw [if_pos rfl]
    exact ⟨rfl, going⟩

end EndingLemmas

/-- The workflow returns this value in its first attempt. -/
def Sample.returns (value : Value) : List Action := opening ++ [.main 0 (.value value)]

end AnchorRuntime
