import AnchorRuntime.Billing
import AnchorRuntime.Terminal
import AnchorRuntime.Lib.Everywhere

/-!
# The audit trail

ModelCalled and ToolInvoked are appended after the completion of their step, by the attempt
that has executed it. An attempt that is cut in between leaves a completed step without one,
and so does a verifier that closes a window.

Results: `code_audits`, what the audit event of a call says; `audit_trail_complete`, where
nothing comes between completion and audit event, every completed model and tool step of a
completed run has exactly one; `unaudited_run`, a completed run that has none for its model
call.
-/

namespace AnchorRuntime

open Effect Machine Code ShapeLemmas ProcLemmas TaskLemmas SequentialLemmas CompletionLemmas
  BillingLemmas

/-! ## Audit events -/

def Payload.isAudit : Payload → Bool
  | .toolInvoked _ _ _ | .modelCalled _ _ _ _ _ => true
  | _ => false

/-- The payload is what the audit event of the call says. -/
def Call.Audits (cfg : Config) : Call → Payload → Prop
  | .callTool name arguments, payload => ∃ spec, cfg.tool name = .ok spec ∧
      payload = .toolInvoked spec.name arguments.orEmpty spec.idempotency
  | .model _, payload => ∃ model stopReason inputTokens outputTokens toolCalls,
      payload = .modelCalled model stopReason inputTokens outputTokens toolCalls
  | _, _ => False

/-- If the operation appends an audit event, it is that of the call. -/
def Op.Audits (cfg : Config) (c : Call) : Op → Prop
  | .appendEvent _ payload => payload.isAudit = true → c.Audits cfg payload
  | _ => True

namespace AuditLemmas

variable {cfg : Config} {runId : Uuid} {guarded : Bool} {c : Call}

theorem audits_other {key : Option String} {payload : Payload} (h : payload.isAudit = false) :
    Op.Audits cfg c (.appendEvent key payload) := fun audit => by cases h.symm.trans audit

theorem invoke_audits (u : UserCall) : Everywhere (Op.Audits cfg c) (Code.invoke u) :=
  everywhere_bind (everywhere_ask trivial) fun _ => everywhere_perform trivial

theorem append_audits {key : Option String} {payload : Payload} (h : payload.isAudit = false) :
    Everywhere (Op.Audits cfg c) (Code.appendEvent key payload) :=
  everywhere_perform (audits_other h)

theorem checkpoint_audits : Everywhere (Op.Audits cfg c) (checkpointGuards runId guarded) := by
  have asked : ∀ r : Except Exn Bool, Everywhere (Op.Audits cfg c) (do
      let requested ← (.ofExcept r : Code Bool)
      if requested then .raise (cancelled runId)
      checkBudget) := by
    rintro (exc | _ | _)
    · trivial
    · exact everywhere_perform trivial
    · trivial
  cases guarded with
  | false => exact ⟨trivial, asked⟩
  | true =>
    refine ⟨trivial, ?_⟩
    rintro (exc | _ | _)
    · trivial
    · trivial
    · exact ⟨trivial, asked⟩

theorem resolve_audits (s : StepCall) (token : Uuid)
    (verify : ∀ v ∈ s.verify, ∀ token, Everywhere (Op.Audits cfg c) (v token)) :
    Everywhere (Op.Audits cfg c) (resolveCrashWindow s token) := by
  have decide : ∀ outcome : Value, Everywhere (Op.Audits cfg c) (do
      if !outcome.isNone then
        let result ← .ofExcept (ensureJson outcome s.key)
        let _ ← appendEvent (some s.key) (.stepCompleted result .verify)
        recordResult s.key outcome
        return some outcome
      else if s.idempotency = .atLeastOnce then
        let _ ← appendEvent (some s.key) (.crashWindowRetried token.str)
        return none
      else .raise (.ambiguousStep s.key token.str)) := by
    intro outcome
    split
    · refine everywhere_bind (everywhere_ofExcept _) fun result => ?_
      refine everywhere_bind (append_audits rfl) fun _ => ?_
      exact everywhere_bind (everywhere_ask trivial) fun _ => everywhere_ret _
    · split
      · exact everywhere_bind (append_audits rfl) fun _ => everywhere_ret _
      · trivial
  obtain ⟨key, fn, idempotency, verifier, maxAttempts⟩ := s
  cases verifier with
  | none => exact decide .none
  | some v => exact everywhere_bind (verify v rfl token) decide

theorem loop_audits (s : StepCall) (token : Uuid) (attempts : Int)
    (body : ∀ token n, Everywhere (Op.Audits cfg c) (s.fn token n)) (left n : Nat)
    (last : Option Exn) :
    Everywhere (Op.Audits cfg c) (attemptLoop cfg s token attempts left n last) := by
  induction left generalizing n last with
  | zero => trivial
  | succ left ih =>
    refine everywhere_bind (everywhere_attempt (body token n)) fun outcome => ?_
    cases outcome with
    | ok value =>
      refine everywhere_bind (everywhere_ofExcept _) fun result => ?_
      refine everywhere_bind (append_audits rfl) fun _ => ?_
      refine everywhere_bind (everywhere_ask trivial) fun _ => ?_
      refine everywhere_bind (everywhere_ask trivial) fun _ => ?_
      exact everywhere_bind (everywhere_perform trivial) fun _ => everywhere_ret _
    | error exc =>
      dsimp only
      split
      · trivial
      · split
        · refine everywhere_bind (append_audits rfl) fun _ => ?_
          exact everywhere_bind (everywhere_ask trivial) fun _ => ih _ _
        · exact everywhere_bind (append_audits rfl) fun _ => trivial

theorem stepWithKey_audits (s : StepCall)
    (body : ∀ token n, Everywhere (Op.Audits cfg c) (s.fn token n))
    (verify : ∀ v ∈ s.verify, ∀ token, Everywhere (Op.Audits cfg c) (v token)) :
    Everywhere (Op.Audits cfg c) (stepWithKey cfg runId guarded s) := by
  unfold stepWithKey
  refine everywhere_bind (everywhere_ask trivial) fun found => ?_
  cases found with
  | some result => exact everywhere_bind (everywhere_ask trivial) fun _ => everywhere_ret _
  | none =>
    refine everywhere_bind checkpoint_audits fun _ => ?_
    refine everywhere_bind (everywhere_ask trivial) fun recovering => ?_
    cases recovering with
    | true =>
      refine everywhere_bind (resolve_audits s _ verify) fun outcome => ?_
      cases outcome with
      | some resolved => trivial
      | none => exact loop_audits s _ _ body _ _ _
    | false => exact everywhere_bind (append_audits rfl) fun _ => loop_audits s _ _ body _ _ _

theorem step_audits (key : String) (idempotency : StepIdempotency) (verify : Bool)
    (maxAttempts : Option Int) : Everywhere (Op.Audits cfg c)
      (step cfg runId guarded key idempotency verify maxAttempts) := by
  refine everywhere_bind (stepWithKey_audits _ (fun _ _ => invoke_audits _) ?_) fun _ => trivial
  intro v mem token
  cases verify with
  | false => cases mem
  | true =>
    cases mem
    exact invoke_audits _

end AuditLemmas

open AuditLemmas

/-- What the code of a call writes in its audit event. -/
theorem code_audits (cfg : Config) (runId : Uuid) (guarded : Bool) (key : String) (c : Call) :
    Everywhere (Op.Audits cfg c) (c.code cfg runId guarded key) := by
  cases c with
  | step name idempotency verify maxAttempts => exact step_audits key _ _ _
  | gather name branches idempotency => exact step_audits key _ _ _
  | callTool name arguments =>
    show Everywhere _ (Prog.ofExcept (cfg.tool name) >>= _)
    cases found : cfg.tool name with
    | error exc => trivial
    | ok spec =>
      show Everywhere _ (callTool cfg runId guarded spec arguments key)
      refine everywhere_bind (stepWithKey_audits _ (fun _ _ => ?_) ?_) fun made => ?_
      · exact everywhere_bind (everywhere_ask trivial) fun _ => invoke_audits _
      · intro v mem token
        dsimp only at mem
        split at mem
        · cases mem
          exact invoke_audits _
        · cases mem
      · obtain ⟨result, executed⟩ := made
        cases executed with
        | false => trivial
        | true =>
          refine everywhere_bind (everywhere_perform fun _ => ?_) fun _ => trivial
          exact ⟨spec, found, rfl⟩
  | model name =>
    refine everywhere_bind (stepWithKey_audits _ (fun _ _ => invoke_audits _) ?_) fun made => ?_
    · intro v mem
      cases mem
    · obtain ⟨raw, executed⟩ := made
      refine everywhere_bind (everywhere_ofExcept _) fun response => ?_
      cases executed with
      | false => trivial
      | true =>
        refine everywhere_bind (everywhere_ask trivial) fun _ => ?_
        refine everywhere_bind (everywhere_perform trivial) fun _ => ?_
        refine everywhere_bind (everywhere_perform fun _ => ?_) fun _ => trivial
        exact ⟨_, _, _, _, _, rfl⟩

/-! ## The condition -/

/-- The stages between the completion of a step and its audit event. -/
def Stage.unaudited : Stage → Bool
  | .recorded _ | .saved _ | .billed _ | .metered _ => true
  | _ => false

/-- Tool and model calls have audit events. -/
def Call.audited (c : Call) : Bool := c.kind ≠ .plain

/-- A tool or model step of the attempt is between its completion and its audit event. -/
def Proc.unaudited (proc : Proc) : Bool :=
  proc.calls.any fun rec => rec.call.audited && rec.tasks.any fun t => t.stage.unaudited

/-- The attempt marks its run completed next. -/
def Proc.completing (proc : Proc) : Bool :=
  match proc.main.next with
  | some (.setStatus .completed _ _) => true
  | _ => false

/-- The row of the run is COMPLETED. -/
def World.completed (w : World) (j : Uuid) : Bool := (w.store.standing j).any (·.1 = .completed)

/-- The store takes what the operation appends. -/
def Op.storable : Op → Bool
  | .appendEvent key payload => payload.storable && key.all pgText
  | _ => true

/-- What a tool or model step does not do with this answer: fail between its completion and its
audit event, be closed by its verifier, and be closed once its run is completed. -/
def Task.audits (t : Task) (completed : Bool) (ans : Answer) : Bool :=
  match t.stage with
  | .recorded _ | .saved _ | .billed _ | .metered _ => !ans.raises && t.prog.next.all Op.storable
  | .recovered _ => false
  | .returned _ _ => !completed
  | _ => true

/-- Nothing comes between the completion of a tool or model step and its audit event: no crash,
no failure and not the completion of the run; and every such step is closed by its body. -/
def audited (w : World) : Action → Prop
  | .stop p => ∀ proc ∈ w.procs[p]?, proc.unaudited = false
  | .main p _ => ∀ proc ∈ w.procs[p]?, proc.completing = true → proc.unaudited = false
  | .task p c b ans => ∀ proc ∈ w.procs[p]?, ∀ rec ∈ proc.calls[c]?, ∀ t ∈ rec.tasks[b]?,
    rec.call.audited = true → t.audits (w.completed proc.loc.runId) ans = true
  | _ => True

instance (w : World) (a : Action) : Decidable (audited w a) :=
  match a with
  | .stop p => inferInstanceAs (Decidable (∀ proc ∈ w.procs[p]?, proc.unaudited = false))
  | .main p _ => inferInstanceAs (Decidable (∀ proc ∈ w.procs[p]?, proc.completing = true →
      proc.unaudited = false))
  | .task p c b ans => inferInstanceAs (Decidable (∀ proc ∈ w.procs[p]?, ∀ rec ∈ proc.calls[c]?,
      ∀ t ∈ rec.tasks[b]?, rec.call.audited = true →
        t.audits (w.completed proc.loc.runId) ans = true))
  | .submit _ _ _ _ _ | .cancel _ | .tick _ | .claim _ _ | .execute _ | .beat _ _
  | .call _ _ _ _ => .isTrue trivial

/-- Attempts follow one another, and nothing comes between a completion and its audit event. -/
def auditing (w : World) (a : Action) : Prop := oneAfterAnother w a ∧ audited w a

instance (w : World) (a : Action) : Decidable (auditing w a) :=
  inferInstanceAs (Decidable (_ ∧ _))

/-! ## The invariant -/

/-- How many audit events the key has. -/
def auditsOf (key : String) (log : List Event) : Nat :=
  log.countP (·.under key Payload.isAudit)

/-- A live attempt of the run has a step of the key that is between its completion and its audit
event. -/
def World.Unaudited (w : World) (j : Uuid) (key : String) : Prop :=
  ∃ (p : Nat) (proc : Proc) (c b : Nat) (rec : CallRecord) (t : Task), w.procs[p]? = some proc ∧
    proc.stopped = false ∧ proc.loc.runId = j ∧ proc.At c b rec t ∧ t.key = key ∧
    t.stage.unaudited = true

/-- A completed key has its audit event, or a live attempt owes it. -/
structure World.Audited (w : World) (j : Uuid) (key : String) : Prop where
  owed : w.Unaudited j key → auditsOf key (w.store.loadEvents j) = 0
  done : logged key Payload.isCompletion (w.store.loadEvents j) = true →
    w.Unaudited j key ∨ auditsOf key (w.store.loadEvents j) = 1
  early : logged key Payload.isCompletion (w.store.loadEvents j) = false →
    auditsOf key (w.store.loadEvents j) = 0

namespace AuditLemmas

variable {cfg : Config} {w w' : World} {a : Action} {p q c b : Nat} {proc proc' : Proc}
  {rec rec' : CallRecord} {t t' : Task} {j : Uuid} {key : String} {es : List Event} {e : Event}

theorem under_iff {kind : Payload → Bool} :
    e.under key kind = true ↔ e.stepKey = some key ∧ kind e.payload = true := by
  simp [Event.under]

theorem auditsOf_append (log es : List Event) :
    auditsOf key (log ++ es) = auditsOf key log + auditsOf key es := List.countP_append

theorem auditsOf_none (h : ∀ e ∈ es, e.under key Payload.isAudit = false) :
    auditsOf key es = 0 :=
  List.countP_eq_zero.mpr fun e mem => by simp [h e mem]

/-- An attempt's main code appends no audit event. -/
theorem phase_audits {phase : Phase} {stepKey : Option String} {payload : Payload}
    (may : phase.allowed (.appendEvent stepKey payload)) : payload.isAudit = false := by
  have moves := Phase.moves may (.ok none)
  generalize phase.next (.appendEvent stepKey payload) (.ok none) = phase' at moves
  cases moves with
  | resume | unknown | completed | cancelled | exceeded | review | failed => rfl
  | raise _ failed => cases failed

/-- Who has written an audit event. -/
theorem audit_cases (numbered : w.store.Numbered)
    (shaped : ∀ (p : Nat) (proc : Proc), w.procs[p]? = some proc → proc.Shaped cfg)
    (h : w.step cfg a = some w') (log : w'.store.loadEvents j = w.store.loadEvents j ++ es)
    (mem : e ∈ es) (keyed : e.stepKey = some key) (is : e.payload.isAudit = true) :
    ∃ p c b ans proc rec t r loc, a = .task p c b ans ∧
      TaskActs cfg w w' p c b ans proc rec t (.appendEvent (some key) e.payload) r loc ∧
      t.key = key ∧ proc.loc.runId = j ∧ es = [e] :=
  keyed_cases numbered shaped h log mem keyed fun may =>
    absurd (is.symm.trans (phase_audits may)) (by simp)

theorem unaudited_iff : proc.unaudited = true ↔ ∃ c b rec t, proc.At c b rec t ∧
    rec.call.audited = true ∧ t.stage.unaudited = true :=
  any_task_of

/-- Of a key that only tool and model calls have had, a step that is between its completion and
its audit event in a live attempt is not forgotten. -/
theorem unaudited_stays
    (shaped : ∀ (p : Nat) (proc : Proc), w.procs[p]? = some proc → proc.Shaped cfg)
    (h : w.step cfg a = some w') (ok : audited w a) (only : w.KeyedBy Call.audited j key)
    (still : ∀ p c b ans proc rec t o, ∀ (r : Ans o) (loc : Local), a = .task p c b ans →
      TaskActs cfg w w' p c b ans proc rec t o r loc → t.key = key → proc.loc.runId = j →
      ((rec.call.setup cfg proc.loc.runId proc.loc.guarded t.key).next t.stage o
        r).unaudited = true)
    (owes : w.Unaudited j key) : w'.Unaudited j key := by
  obtain ⟨p, proc, c, b, rec, t, hp, live, run, at_, same, unaudited⟩ := owes
  obtain ⟨proc', rec', t', hp', run', at', -, key', stopped, next⟩ := task_next shaped h hp at_
  have live' : proc'.stopped = false := by
    rcases stopped with keeps | rfl
    · exact keeps.trans live
    · have quiet := ok proc hp
      have busy : proc.unaudited = true :=
        unaudited_iff.mpr ⟨c, b, rec, t, at_, only p proc c b rec t hp run at_ same, unaudited⟩
      cases quiet.symm.trans busy
  refine ⟨p, proc', c, b, rec', t', hp', live', run'.trans run, at', key'.trans same, ?_⟩
  rcases next with rfl | ⟨ans, o, r, loc, is, acts, stage⟩
  · exact unaudited
  · rw [stage]
    exact still p c b ans proc rec t o r loc is acts same run

/-- Where a step of the key between its completion and its audit event comes from. -/
theorem unaudited_cases
    (shaped : ∀ (p : Nat) (proc : Proc), w.procs[p]? = some proc → proc.Shaped cfg)
    (h : w.step cfg a = some w') (owes : w'.Unaudited j key) : w.Unaudited j key ∨
    ∃ p c b ans proc rec t o, ∃ (r : Ans o) (loc : Local), a = .task p c b ans ∧
      TaskActs cfg w w' p c b ans proc rec t o r loc ∧ t.key = key ∧ proc.loc.runId = j ∧
      ((rec.call.setup cfg proc.loc.runId proc.loc.guarded t.key).next t.stage o
        r).unaudited = true := by
  obtain ⟨q, proc', c, b, rec', t', hq, live, run, at', same, unaudited⟩ := owes
  by_cases mine : ∃ ans, a = .task q c b ans
  · obtain ⟨ans, rfl⟩ := mine
    obtain ⟨proc, rec, t, o, r, loc, acts⟩ := task_acts shaped h
    obtain ⟨_, _, _, hq', sameLoc, at₂, -, key', stage⟩ := acts.moved
    obtain rfl := Option.some.inj (hq.symm.trans hq')
    obtain rfl := Option.some.inj (at'.1.symm.trans at₂.1)
    obtain rfl := Option.some.inj (at'.2.symm.trans at₂.2)
    rw [stage] at unaudited
    rw [sameLoc, (exec_ctx acts.run).1] at run
    exact .inr ⟨q, c, b, ans, proc, rec, t, o, r, loc, rfl, acts, key'.symm.trans same, run,
      unaudited⟩
  · cases task_cases shaped h hq at' with
    | same hp at_ _ sameKey alive _ =>
      exact .inl ⟨q, _, c, b, _, t', hp, alive live, sameKey.1.symm.trans run, at_, same, unaudited⟩
    | moved is => exact absurd ⟨_, is⟩ mine
    | called => cases unaudited

/-- What one operation of a tool or model step means for its audit event. -/
inductive Audits (key : String) (stage stage' : Stage) (es : List Event) : Prop
  | quiet : (∀ e ∈ es, e.under key Payload.isAudit = false) →
      (∀ e ∈ es, e.under key Payload.isCompletion = false) →
      stage'.unaudited = stage.unaudited → Audits key stage stage' es
  | completes (n : Nat) (v : Value) : stage = .returned n v → stage'.unaudited = true →
      (∀ e ∈ es, e.under key Payload.isAudit = false) → Audits key stage stage' es
  | audits (e : Event) : es = [e] → e.under key Payload.isAudit = true →
      e.under key Payload.isCompletion = false → stage.unaudited = true →
      stage'.unaudited = false → Audits key stage stage' es

/-- A step that may not fail does not. -/
theorem audited_answers {o : Op} {r : Ans o} {loc loc' : Local} {st' : Store} {ans : Answer}
    {exc : Exn} (numbered : w.store.Numbered)
    (run : exec cfg w.now w.store loc ans o = some (r, st', loc'))
    (answers : ans.raises = false) (storable : o.storable = true)
    (kind : o = .saveUsage ∨ ∃ key payload, o = .appendEvent key payload)
    (failed : failure o r = some exc) : False := by
  rcases kind with rfl | ⟨key, payload, rfl⟩
  · obtain ⟨ctx, -, call⟩ := Option.bind_eq_some_iff.mp run
    cases ans with
    | raise exc => cases answers
    | done =>
      cases call
      cases failed
    | _ => cases call
  · cases ans with
    | raise exc => cases answers
    | done =>
      cases outcome : w.store.appendEvent w.now loc.runId key payload with
      | ok a =>
        simp only [exec, storeCall, outcome, Option.some.injEq, Prod.mk.injEq] at run
        rw [← run.1] at failed
        cases failed
      | error exc => cases storable.symm.trans (appendEvent_ok numbered outcome).2
    | _ => cases run

theorem audit_trailing {payload : Payload} (trailing : payload.trailing) :
    payload.isAudit = true ∧ payload.isCompletion = false := by
  cases payload <;> first | exact ⟨rfl, rfl⟩ | exact trailing.elim

theorem written_some {now : Int} {stepKey : Option String} {payload : Payload} {seq : Option Nat}
    (told : (.ok seq : Except Exn (Option Nat)) ≠ .ok none) :
    ∃ n, written now (.appendEvent stepKey payload) (.ok seq) = [⟨n, stepKey, payload, now⟩] := by
  cases seq with
  | none => exact absurd rfl told
  | some n => exact ⟨n, rfl⟩

/-- Every operation of a tool or model step is one of these. -/
theorem step_audits_cases {s : StepSetup} {ctx : RunContext} {o : Op} {r : Ans o} {loc loc' : Local}
    {st' : Store} {ans : Answer} {completed : Bool} {k : Ans o → Code Value}
    (numbered : w.store.Numbered) (run : exec cfg w.now w.store loc ans o = some (r, st', loc'))
    (told : Told ctx o r) (may : s.allowed t.stage o) (prog : t.prog = .step o k)
    (ok : t.audits completed ans = true) :
    Audits s.key t.stage (s.next t.stage o r) (written w.now o r) := by
  have quiet : ∀ {payload : Payload} {seq : Option Nat}, payload.isAudit = false →
      payload.isCompletion = false →
      (∀ e ∈ written w.now (.appendEvent (some s.key) payload) (.ok seq),
        e.under s.key Payload.isAudit = false) ∧
      ∀ e ∈ written w.now (.appendEvent (some s.key) payload) (.ok seq),
        e.under s.key Payload.isCompletion = false := by
    intro payload seq noAudit noCompletion
    constructor <;> intro e mem <;> obtain ⟨_, is, -⟩ := InvocationLemmas.written_event mem <;>
      simp [Event.under, ← (Op.appendEvent.inj is).2, noAudit, noCompletion]
  have none : ∀ {stage' : Stage}, written w.now o r = [] →
      stage'.unaudited = t.stage.unaudited →
      Audits s.key t.stage stage' (written w.now o r) := by
    intro stage' silent same
    rw [silent]
    exact .quiet (fun _ mem => by cases mem) (fun _ mem => by cases mem) same
  have moves := StepSetup.moves may r
  unfold Task.audits at ok
  rw [prog, Prog.next_step, Option.all_some] at ok
  generalize s.next t.stage o r = stage' at moves
  generalize t.stage = stage at moves ok none may
  cases moves with
  | resolve => cases ok
  | again | start | retry | fail => exact .quiet (quiet rfl rfl).1 (quiet rfl rfl).2 rfl
  | @complete n v seq json =>
    refine .completes n v rfl rfl fun e mem => ?_
    obtain ⟨_, is, -⟩ := InvocationLemmas.written_event mem
    simp [Event.under, ← (Op.appendEvent.inj is).2, Payload.isAudit]
  | invoked seq _ trailing | called seq trailing =>
    obtain ⟨isAudit, noCompletion⟩ := audit_trailing trailing
    obtain ⟨n, one⟩ := @written_some w.now (some s.key) _ seq told
    refine .audits _ one ?_ ?_ rfl rfl
    · simp [Event.under, isAudit]
    · simp [Event.under, noCompletion]
  | raise may failed =>
    refine none (ConsistencyLemmas.written_failure failed) ?_
    cases hs : stage.unaudited with
    | false => rfl
    | true =>
      have answers : ∀ {stage}, stage.unaudited = true → s.allowed stage o →
          (!ans.raises && o.storable) = true → False := by
        intro stage unaudited may ok
        obtain ⟨steady, storable⟩ : ans.raises = false ∧ o.storable = true := by simpa using ok
        refine audited_answers numbered run steady storable ?_ failed
        cases stage with
        | recorded =>
          rcases may with rfl | rfl | rfl
          · cases failed
          · cases failed
          · exact .inl rfl
        | saved =>
          rcases may with ⟨-, payload, -, rfl⟩ | ⟨-, response, -, rfl⟩
          · exact .inr ⟨_, _, rfl⟩
          · cases failed
        | billed =>
          cases may
          exact .inl rfl
        | metered =>
          obtain ⟨payload, -, rfl⟩ := may
          exact .inr ⟨_, _, rfl⟩
        | _ => cases unaudited
      cases stage <;> first | exact (answers rfl may ok).elim | cases hs
  | _ => exact none rfl rfl

/-- In a run whose attempts follow one another the acting task is the only one of its key. -/
theorem acting_only {o : Op} {r : Ans o} {loc : Local} {ans : Answer}
    (shaped : ∀ (p : Nat) (proc : Proc), w.procs[p]? = some proc → proc.Shaped cfg)
    (acts : TaskActs cfg w w' p c b ans proc rec t o r loc)
    (ok : oneAfterAnother w (.task p c b ans)) (owes : w.Unaudited proc.loc.runId t.key) :
    t.stage.unaudited = true := by
  obtain ⟨q, other, c', b', rec', t', hq, live, run, at', same, unaudited⟩ := owes
  obtain rfl := ok.idle rfl acts.hp hq run live (shaped q other hq) at'
  obtain rfl := Option.some.inj (acts.hp.symm.trans hq)
  obtain ⟨rfl, rfl⟩ := at_key_inj (shaped q proc hq).nodup at' acts.at_ same
  obtain rfl := Option.some.inj (acts.at_.1.symm.trans at'.1)
  obtain rfl := Option.some.inj (acts.at_.2.symm.trans at'.2)
  exact unaudited

theorem acted_only {o : Op} {r : Ans o} {loc : Local} {ans : Answer}
    (shaped : ∀ (p : Nat) (proc : Proc), w'.procs[p]? = some proc → proc.Shaped cfg)
    (acts : TaskActs cfg w w' p c b ans proc rec t o r loc) (sole : w'.Sole)
    (owes : w'.Unaudited proc.loc.runId t.key) :
    ((rec.call.setup cfg proc.loc.runId proc.loc.guarded t.key).next t.stage o
      r).unaudited = true := by
  obtain ⟨q, other, c', b', rec', t', hq, live, run, at', same, unaudited⟩ := owes
  obtain ⟨proc', rec₂, t₂, hp', sameLoc, at₂, -, key, stage⟩ := acts.moved
  have live' := acts.live hp'
  have same_run : other.loc.runId = proc'.loc.runId := by
    rw [run, sameLoc, (exec_ctx acts.run).1]
  obtain rfl := sole p q proc' other hp' hq same_run
    (began_of_task (shaped p proc' hp') at₂) live' (began_of_task (shaped q other hq) at') live
  obtain rfl := Option.some.inj (hp'.symm.trans hq)
  obtain ⟨rfl, rfl⟩ := at_key_inj (shaped p proc' hq).nodup at' at₂ (same.trans key.symm)
  obtain rfl := Option.some.inj (at'.1.symm.trans at₂.1)
  obtain rfl := Option.some.inj (at'.2.symm.trans at₂.2)
  rw [← stage]
  exact unaudited

/-- What a live step knows of the completion of its key. -/
theorem completion_known (consistent : w.Consistent cfg) (shaped : proc.Shaped cfg)
    (hp : w.procs[p]? = some proc) (alive : proc.stopped = false) (at_ : proc.At c b rec t) :
    (t.stage.unaudited = true →
      logged t.key Payload.isCompletion (w.store.loadEvents proc.loc.runId) = true) ∧
    ∀ n v, t.stage = .returned n v →
      logged t.key Payload.isCompletion (w.store.loadEvents proc.loc.runId) = false := by
  obtain ⟨ctx, hctx⟩ := Option.isSome_iff_exists.mp (at_known shaped at_)
  obtain ⟨life, hlife, agrees⟩ := (consistent.procs p proc hp alive).tasks ctx hctx c b rec t at_
  constructor
  · intro unaudited
    obtain ⟨v, rfl⟩ : ∃ v, life = .done v := by
      cases hs : t.stage <;> rw [hs] at unaudited agrees <;>
        first | exact ⟨_, agrees⟩ | cases unaudited
    obtain ⟨e, mem, keyed, by_, payload⟩ := done_recorded hlife
    exact List.any_eq_true.mpr ⟨e, mem, under_iff.mpr ⟨keyed, by rw [payload]; rfl⟩⟩
  · intro n v stage
    rw [stage] at agrees
    obtain rfl : life = .opened := agrees
    refine Bool.eq_false_iff.mpr fun done => ?_
    obtain ⟨e, mem, completes⟩ := logged_completes.mp done
    exact (opened_started hlife).2 e mem completes

theorem audited_acts {o : Op} {r : Ans o} {loc : Local} {ans : Answer}
    (numbered : w.store.Numbered) (rows : w.Rows) (consistent : w.Consistent cfg)
    (shaped : ∀ (p : Nat) (proc : Proc), w.procs[p]? = some proc → proc.Shaped cfg)
    (shaped' : ∀ (p : Nat) (proc : Proc), w'.procs[p]? = some proc → proc.Shaped cfg)
    (sole : w'.Sole) (ok : auditing w (.task p c b ans))
    (only : w.KeyedBy Call.audited proc.loc.runId t.key)
    (acts : TaskActs cfg w w' p c b ans proc rec t o r loc)
    (inv : w.Audited proc.loc.runId t.key) : w'.Audited proc.loc.runId t.key := by
  have known := at_known (shaped p proc acts.hp) acts.at_
  obtain ⟨ctx, hctx⟩ := Option.isSome_iff_exists.mp known
  have told := ConsistencyLemmas.exec_told acts.run hctx (rows p proc acts.hp (.inr known))
  obtain ⟨k, prog, -⟩ := acts.after
  have fine := ok.2 proc acts.hp rec acts.at_.1 t acts.at_.2
    (only p proc c b rec t acts.hp rfl acts.at_ rfl)
  have log := acts.log numbered proc.loc.runId
  rw [if_pos rfl] at log
  obtain ⟨completed, opened⟩ := completion_known consistent (shaped p proc acts.hp) acts.hp
    acts.alive acts.at_
  have now : t.stage.unaudited = true → w.Unaudited proc.loc.runId t.key := fun unaudited =>
    ⟨p, proc, c, b, rec, t, acts.hp, acts.alive, rfl, acts.at_, rfl, unaudited⟩
  have next : ((rec.call.setup cfg proc.loc.runId proc.loc.guarded t.key).next t.stage o
      r).unaudited = true → w'.Unaudited proc.loc.runId t.key := by
    intro unaudited
    obtain ⟨proc', rec', t', hp', sameLoc, at', -, key, stage⟩ := acts.moved
    exact ⟨p, proc', c, b, rec', t', hp', acts.live hp', by rw [sameLoc, (exec_ctx acts.run).1],
      at', key, by rw [stage]; exact unaudited⟩
  have before := acting_only shaped acts ok.1
  have after := acted_only shaped' acts sole
  have step : Audits t.key t.stage
      ((rec.call.setup cfg proc.loc.runId proc.loc.guarded t.key).next t.stage o r)
      (written w.now o r) := step_audits_cases numbered acts.run told acts.may prog fine
  cases step with
  | quiet noAudit noCompletion same =>
    have audits : auditsOf t.key (w'.store.loadEvents proc.loc.runId) =
        auditsOf t.key (w.store.loadEvents proc.loc.runId) := by
      rw [log, auditsOf_append, auditsOf_none noAudit, Nat.add_zero]
    have completes : logged t.key Payload.isCompletion (w'.store.loadEvents proc.loc.runId) =
        logged t.key Payload.isCompletion (w.store.loadEvents proc.loc.runId) := by
      have none : logged t.key Payload.isCompletion (written w.now o r) = false :=
        List.any_eq_false.mpr fun e mem => by simpa using noCompletion e mem
      rw [log, LifecycleLemmas.logged_append, none, Bool.or_false]
    exact ⟨fun owes => audits.trans (inv.owed (now (same ▸ after owes))),
      fun done => (inv.done (completes.symm.trans done)).imp
        (fun owes => next (same.trans (before owes))) audits.trans,
      fun early => audits.trans (inv.early (completes.symm.trans early))⟩
  | completes n v stage owes noAudit =>
    have audits : auditsOf t.key (w'.store.loadEvents proc.loc.runId) = 0 := by
      rw [log, auditsOf_append, auditsOf_none noAudit, inv.early (opened n v stage)]
    exact ⟨fun _ => audits, fun _ => .inl (next owes), fun _ => audits⟩
  | audits e one isAudit noCompletion owed settled =>
    have audits : auditsOf t.key (w'.store.loadEvents proc.loc.runId) = 1 := by
      rw [log, auditsOf_append, one, inv.owed (now owed)]
      simp [auditsOf, isAudit]
    refine ⟨fun owes => ?_, fun _ => .inr audits, fun early => ?_⟩
    · cases settled.symm.trans (after owes)
    rw [log, LifecycleLemmas.logged_append, completed owed] at early
    cases early

/-- A key is completed and audited once. -/
theorem audited_step (numbered : w.store.Numbered) (rows : w.Rows) (consistent : w.Consistent cfg)
    (shaped : ∀ (p : Nat) (proc : Proc), w.procs[p]? = some proc → proc.Shaped cfg)
    (shaped' : ∀ (p : Nat) (proc : Proc), w'.procs[p]? = some proc → proc.Shaped cfg)
    (sole : w'.Sole) (h : w.step cfg a = some w') (ok : auditing w a)
    (only : w.KeyedBy Call.audited j key) (inv : w.Audited j key) : w'.Audited j key := by
  obtain ⟨es, log, -⟩ := log_step numbered shaped h j
  by_cases act : ∃ p c b ans proc rec t o, ∃ (r : Ans o) (loc : Local), a = .task p c b ans ∧
      TaskActs cfg w w' p c b ans proc rec t o r loc ∧ t.key = key ∧ proc.loc.runId = j
  · obtain ⟨p, c, b, ans, proc, rec, t, o, r, loc, rfl, acts, rfl, rfl⟩ := act
    exact audited_acts numbered rows consistent shaped shaped' sole ok only acts inv
  · have noAudit : ∀ e ∈ es, e.under key Payload.isAudit = false := by
      refine fun e mem => Bool.eq_false_iff.mpr fun is => ?_
      obtain ⟨keyed, is⟩ := under_iff.mp is
      obtain ⟨p, c, b, ans, proc, rec, t, r, loc, act', acts, key', run, -⟩ :=
        audit_cases numbered shaped h log mem keyed is
      exact act ⟨p, c, b, ans, proc, rec, t, _, r, loc, act', acts, key', run⟩
    have noCompletion : logged key Payload.isCompletion es = false := by
      refine Bool.eq_false_iff.mpr fun is => ?_
      obtain ⟨e, mem, is⟩ := List.any_eq_true.mp is
      obtain ⟨p, c, b, ans, proc, rec, t, r, loc, act', acts, key', run, -⟩ :=
        event_cases numbered shaped h log mem
          (LifecycleLemmas.under_concerns is LifecycleLemmas.completion_lifecycle)
      exact act ⟨p, c, b, ans, proc, rec, t, _, r, loc, act', acts, key', run⟩
    have forth : w.Unaudited j key → w'.Unaudited j key :=
      unaudited_stays shaped h ok.2 only fun p c b ans proc rec t o r loc act' acts key' run =>
        absurd ⟨p, c, b, ans, proc, rec, t, o, r, loc, act', acts, key', run⟩ act
    have back : w'.Unaudited j key → w.Unaudited j key := fun owes => by
      rcases unaudited_cases shaped h owes with
        old | ⟨p, c, b, ans, proc, rec, t, o, r, loc, act', acts, key', run, -⟩
      · exact old
      · exact absurd ⟨p, c, b, ans, proc, rec, t, o, r, loc, act', acts, key', run⟩ act
    have audits : auditsOf key (w'.store.loadEvents j) = auditsOf key (w.store.loadEvents j) := by
      rw [log, auditsOf_append, auditsOf_none noAudit, Nat.add_zero]
    have completes : logged key Payload.isCompletion (w'.store.loadEvents j) =
        logged key Payload.isCompletion (w.store.loadEvents j) := by
      rw [log, LifecycleLemmas.logged_append, noCompletion, Bool.or_false]
    exact ⟨fun owes => audits.trans (inv.owed (back owes)),
      fun done => (inv.done (completes.symm.trans done)).imp forth audits.trans,
      fun early => audits.trans (inv.early (completes.symm.trans early))⟩

/-- A step gets between completion and audit event by its completion. -/
theorem unaudited_next {s : StepSetup} {stage : Stage} {o : Op} {r : Ans o}
    (may : s.allowed stage o) (owes : (s.next stage o r).unaudited = true) :
    stage.unaudited = true ∨ ∃ n v, stage = .returned n v := by
  have moves := StepSetup.moves may r
  generalize s.next stage o r = stage' at moves owes
  cases moves with
  | complete => exact .inr ⟨_, _, rfl⟩
  | record | countExecuted | saveUsage | addModelUsage | saveBill => exact .inl rfl
  | _ => cases owes

end AuditLemmas

/-- A completed run has no step between its completion and its audit event. -/
def World.Settled (w : World) : Prop :=
  ∀ (p : Nat) (proc : Proc), w.procs[p]? = some proc → proc.stopped = false →
    w.completed proc.loc.runId = true → proc.unaudited = false

namespace AuditLemmas

variable {cfg : Config} {w w' : World} {a : Action} {p q c b : Nat} {proc proc' : Proc}
  {rec rec' : CallRecord} {t t' : Task} {j : Uuid} {key : String} {es : List Event} {e : Event}

theorem settled_step
    (shaped : ∀ (p : Nat) (proc : Proc), w.procs[p]? = some proc → proc.Shaped cfg)
    (shaped' : ∀ (p : Nat) (proc : Proc), w'.procs[p]? = some proc → proc.Shaped cfg)
    (sole : w'.Sole) (h : w.step cfg a = some w') (ok : audited w a) (inv : w.Settled) :
    w'.Settled := by
  intro q proc' hq live done
  refine Bool.eq_false_iff.mpr fun owes => ?_
  obtain ⟨c, b, rec', t', at', audited', unaudited⟩ := unaudited_iff.mp owes
  rcases TerminalLemmas.standing_cases shaped h proc'.loc.runId with
    same | ⟨-, new⟩ | ⟨p, ans, proc, status, result, error, loc, rfl, acts, own, new⟩
  · have before : w.completed proc'.loc.runId = true := by
      unfold World.completed at done ⊢
      rwa [same] at done
    cases task_cases shaped h hq at' with
    | @same proc rec t hp at_ sameCall sameKey alive _ =>
      rw [sameKey.1] at before
      have quiet := inv q proc hp (alive live) before
      cases quiet.symm.trans (unaudited_iff.mpr
        ⟨c, b, rec, t', at_, by rw [← sameCall.call]; exact audited', unaudited⟩)
    | @moved proc rec t ans o k r is hp alive at_ sameCall prog run may =>
      subst is
      rw [(exec_ctx run).1] at before
      rw [sameCall.call] at audited'
      rcases unaudited_next may unaudited with was | ⟨n, v, stage⟩
      · cases (inv q proc hp alive before).symm.trans
          (unaudited_iff.mpr ⟨c, b, rec, t, at_, audited', was⟩)
      · have fine := ok proc hp rec at_.1 t at_.2 audited'
        rw [before, Task.audits, stage] at fine
        cases fine
    | called => cases unaudited
  · rw [World.completed, new] at done
    cases done
  · -- the run is completed by the attempt itself
    obtain ⟨actor, hactor, sameLoc, -, calls, began, live'⟩ := acts.moved
    have same : actor.loc.runId = proc'.loc.runId := by
      rw [sameLoc, (exec_ctx acts.run).1, own]
    obtain rfl := sole q p proc' actor hq hactor same (began_of_task (shaped' q proc' hq) at') live
      began live'
    obtain rfl := Option.some.inj (hq.symm.trans hactor)
    have completing : proc.completing = true := by
      obtain ⟨k, main, -⟩ := acts.after
      unfold Proc.completing
      rw [main, Prog.next_step]
      rw [World.completed, new, Option.any_map] at done
      obtain ⟨old, -, is⟩ := (Option.any_eq_true _ _).mp done
      obtain rfl : status = .completed := of_decide_eq_true is
      rfl
    have quiet := ok proc acts.hp completing
    unfold Proc.unaudited at owes quiet
    rw [calls, quiet] at owes
    cases owes

/-- The programs of an attempt's tasks append the audit events of their calls. -/
theorem auditable_kept (cfg : Config) : Kept cfg fun proc => ∀ c b rec t, proc.At c b rec t →
    Everywhere (Op.Audits cfg rec.call) t.prog where
  claimed _ _ := fun _ _ _ _ at_ => by cases at_.1
  executed _ := fun _ _ _ _ at_ => by cases at_.1
  beat _ _ h := h
  main _ _ _ _ _ _ _ _ _ h _ _ := h
  task proc c b rec t o k r now st st' loc ans h at_ prog run := by
    intro c' b' rec' t'' at''
    obtain ⟨old, hold, sameCall, ⟨rfl, rfl, rfl⟩ | ⟨-, at₀⟩⟩ := at_setTask at_ at''
    · obtain rfl := Option.some.inj (hold.symm.trans at_.1)
      have before := h _ _ _ t at_
      rw [prog] at before
      rw [sameCall.call]
      exact before.2 r
    · rw [sameCall.call]
      exact h c' b' old t'' at₀
  refused proc path role c exc ctx h _ _ _ := by
    intro c' b' rec' t' at'
    rcases at_concat at' with old | ⟨-, rfl, new⟩
    · exact h c' b' rec' t' old
    · cases new
  call proc path role c names ctx h _ _ _ := by
    intro c' b' rec' t' at'
    rcases at_concat at' with old | ⟨-, rfl, new⟩
    · exact h c' b' rec' t' old
    · obtain ⟨key, -, rfl⟩ := newTasks_get new
      exact code_audits cfg _ _ key c
  stop _ h := h

end AuditLemmas

/-- Every audit event says what the call says under whose key it stands. -/
def World.Credited (cfg : Config) (w : World) : Prop :=
  ∀ j key, ∀ e ∈ w.store.loadEvents j, e.under key Payload.isAudit = true →
    ∃ (p : Nat) (proc : Proc) (c b : Nat) (rec : CallRecord) (t : Task),
      w.procs[p]? = some proc ∧ proc.loc.runId = j ∧ proc.At c b rec t ∧ t.key = key ∧
      rec.call.Audits cfg e.payload

namespace AuditLemmas

variable {cfg : Config} {w w' : World} {a : Action}

theorem credited_step (numbered : w.store.Numbered)
    (shaped : ∀ (p : Nat) (proc : Proc), w.procs[p]? = some proc → proc.Shaped cfg)
    (programs : ∀ (p : Nat) (proc : Proc), w.procs[p]? = some proc → ∀ c b rec t,
      proc.At c b rec t → Everywhere (Op.Audits cfg rec.call) t.prog)
    (h : w.step cfg a = some w') (inv : w.Credited cfg) : w'.Credited cfg := by
  intro j key e mem audit
  have stays : ∀ {p : Nat} {proc : Proc} {c b : Nat} {rec : CallRecord} {t : Task},
      w.procs[p]? = some proc → proc.loc.runId = j → proc.At c b rec t → t.key = key →
      rec.call.Audits cfg e.payload →
      ∃ (p : Nat) (proc : Proc) (c b : Nat) (rec : CallRecord) (t : Task),
        w'.procs[p]? = some proc ∧ proc.loc.runId = j ∧ proc.At c b rec t ∧ t.key = key ∧
        rec.call.Audits cfg e.payload := by
    intro p proc c b rec t hp run at_ same credit
    obtain ⟨proc', rec', t', hp', run', at', sameCall, key', -⟩ := task_persists h hp at_
    exact ⟨p, proc', c, b, rec', t', hp', run'.trans run, at', key'.trans same,
      by rw [sameCall.call]; exact credit⟩
  obtain ⟨es, log, -⟩ := log_step numbered shaped h j
  rw [log] at mem
  rcases List.mem_append.mp mem with old | new
  · obtain ⟨p, proc, c, b, rec, t, hp, run, at_, same, credit⟩ := inv j key e old audit
    exact stays hp run at_ same credit
  · obtain ⟨keyed, is⟩ := under_iff.mp audit
    obtain ⟨p, c, b, ans, proc, rec, t, r, loc, -, acts, same, run, -⟩ :=
      audit_cases numbered shaped h log new keyed is
    obtain ⟨k, prog, -⟩ := acts.after
    have program := programs p proc acts.hp c b rec t acts.at_
    rw [prog] at program
    exact stays acts.hp run acts.at_ same (program.1 is)

end AuditLemmas

section

variable {cfg : Config} {now : Int} {w : World}

theorem audited_reaches (h : Reaches (World.step cfg) auditing (.init now) w) {j : Uuid}
    {key : String} (only : w.KeyedBy Call.audited j key) : w.Audited j key := by
  induction h with
  | refl =>
    exact ⟨fun ⟨_, _, _, _, _, _, hp, _⟩ => (nomatch hp), fun done => (nomatch done), fun _ => rfl⟩
  | tail reached ok step ih =>
    have all := Reaches.tail reached ok step
    have before := keyedBy_back step only
    exact audited_step (numbered_reaches reached) (rows_reaches reached)
      (consistent_reaches reached fun _ _ ok => ok.1) (fun _ _ => shaped_reaches reached)
      (fun _ _ => shaped_reaches all) (sole_reaches all fun _ _ ok => ok.1) step ok before
      (ih before)

theorem settled_reaches (h : Reaches (World.step cfg) auditing (.init now) w) : w.Settled :=
  h.invariant (fun _ _ hp => (nomatch hp)) fun _ _ _ reached inv ok step =>
    have all := Reaches.tail reached ok step
    settled_step (fun _ _ => shaped_reaches reached) (fun _ _ => shaped_reaches all)
      (sole_reaches all fun _ _ ok => ok.1) step ok.2 inv

theorem credited_reaches {ok : World → Action → Prop}
    (h : Reaches (World.step cfg) ok (.init now) w) : w.Credited cfg :=
  h.invariant (fun _ _ _ mem => (nomatch mem)) fun _ _ _ reached inv _ step =>
    credited_step (numbered_reaches reached) (fun _ _ => shaped_reaches reached)
      ((auditable_kept cfg).reaches reached) step inv

/-- The audit events of a completed key in a completed run: one, that of a call of the key. -/
theorem audited_once (h : Reaches (World.step cfg) auditing (.init now) w) {j : Uuid}
    {key : String} (done : w.completed j = true) (only : w.KeyedBy Call.audited j key)
    (completed : logged key Payload.isCompletion (w.store.loadEvents j) = true) :
    ∃ e, (w.store.loadEvents j).filter (·.under key Payload.isAudit) = [e] ∧
      ∃ (p : Nat) (proc : Proc) (c b : Nat) (rec : CallRecord) (t : Task),
        w.procs[p]? = some proc ∧ proc.loc.runId = j ∧ proc.At c b rec t ∧ t.key = key ∧
        rec.call.Audits cfg e.payload := by
  have settled : ¬ w.Unaudited j key := by
    rintro ⟨p, proc, c, b, rec, t, hp, live, rfl, at_, same, owes⟩
    cases (settled_reaches h p proc hp live done).symm.trans
      (unaudited_iff.mpr ⟨c, b, rec, t, at_, only p proc c b rec t hp rfl at_ same, owes⟩)
  have once := ((audited_reaches h only).done completed).resolve_left settled
  rw [auditsOf, List.countP_eq_length_filter] at once
  obtain ⟨e, one⟩ := List.length_eq_one_iff.mp once
  have mem : e ∈ (w.store.loadEvents j).filter (·.under key Payload.isAudit) := by
    rw [one]
    exact List.mem_singleton_self e
  obtain ⟨there, audit⟩ := List.mem_filter.mp mem
  exact ⟨e, one, credited_reaches h j key e there audit⟩

end

/-- The audit trail is complete: where attempts follow one another and nothing comes between the
completion of a tool or model step and its audit event, every completed model key of a completed
run has one ModelCalled, and every completed tool key one ToolInvoked, with the name and the
arguments of a call of the key. -/
theorem audit_trail_complete {cfg : Config} {now : Int} {w : World}
    (h : Reaches (World.step cfg) auditing (.init now) w) {j : Uuid} {key : String}
    (done : w.completed j = true)
    (completed : logged key Payload.isCompletion (w.store.loadEvents j) = true) :
    (w.KeyedBy (·.kind = .model) j key →
      ∃ e, (w.store.loadEvents j).filter (·.under key Payload.isAudit) = [e] ∧
        ∃ model stopReason inputTokens outputTokens toolCalls,
          e.payload = .modelCalled model stopReason inputTokens outputTokens toolCalls) ∧
    (w.KeyedBy (·.kind = .tool) j key →
      ∃ e, (w.store.loadEvents j).filter (·.under key Payload.isAudit) = [e] ∧
        ∃ (p : Nat) (proc : Proc) (c b : Nat) (rec : CallRecord) (t : Task) (name : String)
          (arguments : Value) (spec : ToolSpec),
          w.procs[p]? = some proc ∧ proc.loc.runId = j ∧ proc.At c b rec t ∧ t.key = key ∧
          rec.call = .callTool name arguments ∧ cfg.tool name = .ok spec ∧
          e.payload = .toolInvoked spec.name arguments.orEmpty spec.idempotency) := by
  constructor
  · intro models
    have only : w.KeyedBy Call.audited j key := fun p proc c b rec t hp run at_ same => by
      have kind := of_decide_eq_true (models p proc c b rec t hp run at_ same)
      simp [Call.audited, kind]
    obtain ⟨e, one, p, proc, c, b, rec, t, hp, run, at_, same, credit⟩ :=
      audited_once h done only completed
    have kind := of_decide_eq_true (models p proc c b rec t hp run at_ same)
    refine ⟨e, one, ?_⟩
    cases hc : rec.call with
    | model name =>
      rw [hc] at credit
      exact credit
    | _ => rw [hc] at kind; cases kind
  · intro tools
    have only : w.KeyedBy Call.audited j key := fun p proc c b rec t hp run at_ same => by
      have kind := of_decide_eq_true (tools p proc c b rec t hp run at_ same)
      simp [Call.audited, kind]
    obtain ⟨e, one, p, proc, c, b, rec, t, hp, run, at_, same, credit⟩ :=
      audited_once h done only completed
    have kind := of_decide_eq_true (tools p proc c b rec t hp run at_ same)
    refine ⟨e, one, ?_⟩
    cases hc : rec.call with
    | callTool name arguments =>
      rw [hc] at credit
      obtain ⟨spec, known, payload⟩ := credit
      exact ⟨p, proc, c, b, rec, t, name, arguments, spec, hp, run, at_, same, hc, known, payload⟩
    | _ => rw [hc] at kind; cases kind

/-- A model call whose attempt completes the run. -/
def Sample.trail : List Action := paid ++ [.main 0 .done]

theorem audit_trail_complete_trail : ∃ w,
    run (World.step Sample.cfg) auditing (.init 0) Sample.trail = some w ∧
    ∃ e, (w.store.loadEvents Sample.runId).filter (·.under "ask#1" Payload.isAudit) = [e] ∧
      ∃ model stopReason inputTokens outputTokens toolCalls,
        e.payload = .modelCalled model stopReason inputTokens outputTokens toolCalls := by
  obtain ⟨w, h, done, completed, models⟩ := run_exists (World.step Sample.cfg) auditing (.init 0)
    Sample.trail (fun w => w.completed Sample.runId = true ∧
      logged "ask#1" Payload.isCompletion (w.store.loadEvents Sample.runId) = true ∧
      ∀ proc ∈ w.procs, ∀ rec ∈ proc.calls, rec.call.kind = .model) (by decide +kernel)
  have keyed : w.KeyedBy (·.kind = .model) Sample.runId "ask#1" :=
    fun p proc c b rec t hp _ at_ _ => decide_eq_true
      (models proc (List.mem_of_getElem? hp) rec (List.mem_of_getElem? at_.1))
  exact ⟨w, h, (audit_trail_complete (run_reaches h) done completed).1 keyed⟩

/-- The run that goes on after a crash between the completion and the bill has completed, and its
model call has no ModelCalled. -/
theorem unaudited_run : ∃ w,
    run (World.step Sample.cfg) oneAfterAnother (.init 0) Sample.unpaid = some w ∧
    w.completed Sample.runId = true ∧
    logged "ask#1" Payload.isCompletion (w.store.loadEvents Sample.runId) = true ∧
    w.KeyedBy (·.kind = .model) Sample.runId "ask#1" ∧
    (w.store.loadEvents Sample.runId).filter (·.under "ask#1" Payload.isAudit) = [] := by
  obtain ⟨w, h, done, completed, models, none⟩ := run_exists (World.step Sample.cfg)
    oneAfterAnother (.init 0) Sample.unpaid (fun w => w.completed Sample.runId = true ∧
      logged "ask#1" Payload.isCompletion (w.store.loadEvents Sample.runId) = true ∧
      (∀ proc ∈ w.procs, ∀ rec ∈ proc.calls, rec.call.kind = .model) ∧
      (w.store.loadEvents Sample.runId).countP (·.under "ask#1" Payload.isAudit) = 0)
    (by decide +kernel)
  have keyed : w.KeyedBy (·.kind = .model) Sample.runId "ask#1" :=
    fun p proc c b rec t hp _ at_ _ => decide_eq_true
      (models proc (List.mem_of_getElem? hp) rec (List.mem_of_getElem? at_.1))
  rw [List.countP_eq_length_filter] at none
  exact ⟨w, h, done, completed, keyed, List.length_eq_zero_iff.mp none⟩

end AnchorRuntime
