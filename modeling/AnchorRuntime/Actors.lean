import AnchorRuntime.Invocations
import AnchorRuntime.Tasks

/-!
# Who did it

What one action was, seen from the task or the attempt that acted: the operation it waited
for, its answer, and the world after it.

Results: `task_acts` and `main_acts`, every step of a task or of an attempt's main code is
one of these; `attempt_cases` and `task_next`, where an attempt of the next world comes from
and what becomes of a task; `event_cases`, the task that has written an event of a key's
window.
-/

namespace AnchorRuntime

open Effect Machine Slots ShapeLemmas ProcLemmas TaskLemmas

/-- The answer raises. -/
def Answer.raises : Answer → Bool
  | .raise _ => true
  | _ => false

/-- Task `b` of call `c` of attempt `p` performs `o`, which is answered with `r`. -/
structure TaskActs (cfg : Config) (w w' : World) (p c b : Nat) (ans : Answer) (proc : Proc)
    (rec : CallRecord) (t : Task) (o : Op) (r : Ans o) (loc : Local) : Prop where
  hp : w.procs[p]? = some proc
  alive : proc.stopped = false
  at_ : proc.At c b rec t
  run : exec cfg w.now w.store proc.loc ans o = some (r, w'.store, loc)
  may : (rec.call.setup cfg proc.loc.runId proc.loc.guarded t.key).allowed t.stage o
  after : ∃ k, t.prog = .step o k ∧ w' = { w with
    store := w'.store
    procs := w.procs.set p ({ proc with loc }.setTask c b
      { t with
        stage := (rec.call.setup cfg proc.loc.runId proc.loc.guarded t.key).next t.stage o r
        prog := k r })
    moments := w.moments ++ w.moment p proc.loc.runId o r }

/-- Attempt `p` itself performs `o`, which is answered with `r`. -/
structure MainActs (cfg : Config) (w w' : World) (p : Nat) (ans : Answer) (proc : Proc) (o : Op)
    (r : Ans o) (loc : Local) : Prop where
  hp : w.procs[p]? = some proc
  alive : proc.stopped = false
  run : exec cfg w.now w.store proc.loc ans o = some (r, w'.store, loc)
  may : proc.phase.allowed o
  after : ∃ k, proc.main = .step o k ∧ w' = { w with
    store := w'.store
    procs := w.procs.set p
      { proc with loc, phase := proc.phase.next o r, main := k r, started := true }
    moments := w.moments ++ w.moment p proc.loc.runId o r }

theorem task_acts {cfg : Config} {w w' : World} {p c b : Nat} {ans : Answer}
    (shaped : ∀ (p : Nat) (proc : Proc), w.procs[p]? = some proc → proc.Shaped cfg)
    (h : w.step cfg (.task p c b ans) = some w') :
    ∃ proc rec t o r loc, TaskActs cfg w w' p c b ans proc rec t o r loc := by
  cases step_happens h with
  | task hp alive hrec ht hprog run =>
    exact ⟨_, _, _, _, _, _, hp, alive, ⟨hrec, ht⟩, run,
      task_allowed (shaped _ _ hp) ⟨hrec, ht⟩ hprog, _, hprog, rfl⟩

theorem main_acts {cfg : Config} {w w' : World} {p : Nat} {ans : Answer}
    (shaped : ∀ (p : Nat) (proc : Proc), w.procs[p]? = some proc → proc.Shaped cfg)
    (h : w.step cfg (.main p ans) = some w') :
    ∃ proc o r loc, MainActs cfg w w' p ans proc o r loc := by
  cases step_happens h with
  | main hp alive hmain run =>
    have may := (shaped _ _ hp).main
    rw [hmain, obeys_step] at may
    exact ⟨_, _, _, _, hp, alive, run, may.1, _, hmain, rfl⟩

/-- Where attempt `q` of the next world comes from. -/
inductive AttemptStep (cfg : Config) (w w' : World) (a : Action) (q : Nat) : Proc → Prop
  | same {proc : Proc} : w.procs[q]? = some proc → (∀ c b ans, a ≠ .task q c b ans) →
      AttemptStep cfg w w' a q proc
  | fresh {proc : Proc} : w.procs[q]? = none → proc.phase = .start → proc.started = false →
      proc.calls = [] → proc.loc.ctx = none → AttemptStep cfg w w' a q proc
  | beat {proc : Proc} {ans : Answer} (beat : Beat) : a = .beat q ans →
      w.procs[q]? = some proc →
      AttemptStep cfg w w' a q { proc with loc := { proc.loc with beat } }
  | main {proc : Proc} {ans : Answer} {o : Op} {k : Ans o → Code (Option Outcome)} {r : Ans o}
      {loc : Local} :
      a = .main q ans → MainActs cfg w w' q ans proc o r loc → proc.main = .step o k →
      AttemptStep cfg w w' a q
        { proc with loc, phase := proc.phase.next o r, main := k r, started := true }
  | task {proc : Proc} {c b : Nat} {ans : Answer} {rec : CallRecord} {t : Task} {o : Op}
      {k : Ans o → Code Value} {r : Ans o} {loc : Local} :
      a = .task q c b ans → TaskActs cfg w w' q c b ans proc rec t o r loc → t.prog = .step o k →
      AttemptStep cfg w w' a q ({ proc with loc }.setTask c b
        { t with
          stage := (rec.call.setup cfg proc.loc.runId proc.loc.guarded t.key).next t.stage o r
          prog := k r })
  | refused {proc : Proc} {caller : Option (Nat × Nat)} {path : List Place} {role : Role}
      {c : Call} {exc : Exn} {ctx : RunContext} :
      a = .call q caller role c → w.procs[q]? = some proc → proc.stopped = false →
      w.callerPath q proc role caller = some path → proc.loc.ctx = some ctx →
      c.names cfg = .error exc → AttemptStep cfg w w' a q { proc with
        calls := proc.calls ++ [⟨path, role, proc.callsBy path role, c, some exc, []⟩] }
  | call {proc : Proc} {caller : Option (Nat × Nat)} {path : List Place} {role : Role}
      {c : Call} {names : List String} {ctx : RunContext} :
      a = .call q caller role c → w.procs[q]? = some proc → proc.stopped = false →
      w.callerPath q proc role caller = some path → proc.loc.ctx = some ctx →
      c.names cfg = .ok names → AttemptStep cfg w w' a q { proc with
        loc := { proc.loc with ctx := some (ctx.nextKeys names).2 }
        calls := proc.calls ++ [⟨path, role, proc.callsBy path role, c, none,
          proc.newTasks cfg path role c (ctx.nextKeys names).1⟩] }
  | stop {proc : Proc} : a = .stop q → w.procs[q]? = some proc →
      AttemptStep cfg w w' a q { proc with stopped := true }

theorem attempt_cases {cfg : Config} {w w' : World} {a : Action} {q : Nat} {proc' : Proc}
    (shaped : ∀ (p : Nat) (proc : Proc), w.procs[p]? = some proc → proc.Shaped cfg)
    (h : w.step cfg a = some w') (hq : w'.procs[q]? = some proc') :
    AttemptStep cfg w w' a q proc' := by
  cases step_happens h with
  | submit | cancel | tick => exact .same hq nofun
  | claim | execute =>
    rcases concat_cases hq with old | ⟨rfl, rfl⟩
    · exact .same old nofun
    · exact .fresh (List.getElem?_eq_none le_rfl) rfl rfl rfl rfl
  | beat beat hp =>
    rcases procs_set hq with ⟨rfl, rfl⟩ | ⟨-, old⟩
    · exact .beat beat rfl hp
    · exact .same old nofun
  | stop hp =>
    rcases procs_set hq with ⟨rfl, rfl⟩ | ⟨-, old⟩
    · exact .stop rfl hp
    · exact .same old nofun
  | main hp alive hmain run =>
    rcases procs_set hq with ⟨rfl, rfl⟩ | ⟨-, old⟩
    · have may := (shaped _ _ hp).main
      rw [hmain, obeys_step] at may
      exact .main rfl ⟨hp, alive, run, may.1, _, hmain, rfl⟩ hmain
    · exact .same old nofun
  | task hp alive hrec ht hprog run =>
    rcases procs_set hq with ⟨rfl, rfl⟩ | ⟨other, old⟩
    · exact .task rfl ⟨hp, alive, ⟨hrec, ht⟩, run,
        task_allowed (shaped _ _ hp) ⟨hrec, ht⟩ hprog, _, hprog, rfl⟩ hprog
    · exact .same old fun c b ans is => other (by cases is; rfl)
  | refused hp alive path hctx names =>
    rcases procs_set hq with ⟨rfl, rfl⟩ | ⟨-, old⟩
    · exact .refused rfl hp alive path hctx names
    · exact .same old nofun
  | call hp alive path hctx names =>
    rcases procs_set hq with ⟨rfl, rfl⟩ | ⟨-, old⟩
    · exact .call rfl hp alive path hctx names
    · exact .same old nofun

/-- Attempts are never removed, and only their own code goes on in its text. -/
theorem attempt_persists {cfg : Config} {w w' : World} {a : Action} {q : Nat} {proc : Proc}
    (shaped : ∀ (p : Nat) (proc : Proc), w.procs[p]? = some proc → proc.Shaped cfg)
    (h : w.step cfg a = some w') (hp : w.procs[q]? = some proc) :
    ∃ proc', w'.procs[q]? = some proc' ∧ proc'.loc.runId = proc.loc.runId ∧
      proc'.loc.worker = proc.loc.worker ∧
      ((∀ ans, a ≠ .main q ans) → proc'.main = proc.main ∧ proc'.phase = proc.phase) := by
  have there : q < w.procs.length := (List.getElem?_eq_some_iff.mp hp).1
  have grows : w.procs.length ≤ w'.procs.length := by
    cases step_happens h <;> simp [World.setProc]
  obtain ⟨proc', hq⟩ : ∃ proc', w'.procs[q]? = some proc' :=
    ⟨_, List.getElem?_eq_getElem (there.trans_le grows)⟩
  refine ⟨proc', hq, ?_⟩
  cases attempt_cases shaped h hq with
  | same old | beat _ _ old | refused _ old | call _ old | stop _ old =>
    obtain rfl := Option.some.inj (hp.symm.trans old)
    exact ⟨rfl, rfl, fun _ => ⟨rfl, rfl⟩⟩
  | fresh none => cases hp.symm.trans none
  | main is acts =>
    obtain rfl := Option.some.inj (hp.symm.trans acts.hp)
    obtain ⟨run, worker, -⟩ := exec_ctx acts.run
    exact ⟨run, worker, fun idle => absurd is (idle _)⟩
  | task _ acts =>
    obtain rfl := Option.some.inj (hp.symm.trans acts.hp)
    obtain ⟨run, worker, -⟩ := exec_ctx acts.run
    exact ⟨run, worker, fun _ => ⟨rfl, rfl⟩⟩

/-- Only its end stops an attempt, and nothing starts it again. -/
theorem stopped_step {cfg : Config} {w w' : World} {a : Action} {q : Nat} {proc proc' : Proc}
    (shaped : ∀ (p : Nat) (proc : Proc), w.procs[p]? = some proc → proc.Shaped cfg)
    (h : w.step cfg a = some w') (hp : w.procs[q]? = some proc)
    (hq : w'.procs[q]? = some proc') : proc'.stopped = proc.stopped ∨ a = .stop q := by
  cases attempt_cases shaped h hq with
  | same old => exact .inl (by rw [Option.some.inj (hp.symm.trans old)])
  | fresh none => exact absurd (hp.symm.trans none) (by simp)
  | beat _ _ old => exact .inl (by rw [Option.some.inj (hp.symm.trans old)])
  | main _ acts => exact .inl (by rw [Option.some.inj (hp.symm.trans acts.hp)])
  | task _ acts =>
    obtain rfl := Option.some.inj (hp.symm.trans acts.hp)
    exact .inl rfl
  | refused _ old => exact .inl (by rw [Option.some.inj (hp.symm.trans old)])
  | call _ old => exact .inl (by rw [Option.some.inj (hp.symm.trans old)])
  | stop is => exact .inr is

section

variable {cfg : Config} {w w' : World} {p c b : Nat} {ans : Answer} {proc : Proc}
  {rec : CallRecord} {t : Task} {o : Op} {r : Ans o} {loc : Local}

/-- The acting task after its step. -/
theorem TaskActs.moved (h : TaskActs cfg w w' p c b ans proc rec t o r loc) :
    ∃ proc' rec' t', w'.procs[p]? = some proc' ∧ proc'.loc = loc ∧ proc'.At c b rec' t' ∧
      rec.SameCall rec' ∧ t'.key = t.key ∧ t'.stage =
        (rec.call.setup cfg proc.loc.runId proc.loc.guarded t.key).next t.stage o r := by
  obtain ⟨k, -, same⟩ := h.after
  let new : Task := { t with
    stage := (rec.call.setup cfg proc.loc.runId proc.loc.guarded t.key).next t.stage o r
    prog := k r }
  have hp' : w'.procs[p]? = some (Proc.setTask { proc with loc } c b new) := by
    rw [same]
    exact List.getElem?_set_self (List.getElem?_eq_some_iff.mp h.hp).1
  have hcall : (Proc.setTask { proc with loc } c b new).calls[c]? =
      some { rec with tasks := rec.tasks.set b new } := by
    rw [setTask_calls, if_pos rfl]
    exact congrArg (Option.map _) h.at_.1
  refine ⟨_, _, new, hp', rfl, ⟨hcall, ?_⟩, ⟨rfl, rfl, rfl, rfl, rfl⟩, rfl, rfl⟩
  exact List.getElem?_set_self (List.getElem?_eq_some_iff.mp h.at_.2).1

/-- An attempt whose task acts goes on. -/
theorem TaskActs.live (h : TaskActs cfg w w' p c b ans proc rec t o r loc) {proc' : Proc}
    (hp' : w'.procs[p]? = some proc') : proc'.stopped = false := by
  obtain ⟨k, -, same⟩ := h.after
  rw [same, List.getElem?_set_self (List.getElem?_eq_some_iff.mp h.hp).1] at hp'
  cases hp'
  exact h.alive

/-- The acting attempt after its step. -/
theorem MainActs.moved (h : MainActs cfg w w' p ans proc o r loc) :
    ∃ proc', w'.procs[p]? = some proc' ∧ proc'.loc = loc ∧ proc'.phase = proc.phase.next o r ∧
      proc'.calls = proc.calls ∧ proc'.started = true ∧ proc'.stopped = false := by
  obtain ⟨k, -, world⟩ := h.after
  rw [world]
  exact ⟨_, List.getElem?_set_self (List.getElem?_eq_some_iff.mp h.hp).1, rfl, rfl, rfl, rfl,
    h.alive⟩

/-- A task after an action: it is as it was, or it has acted. -/
theorem task_next
    (shaped : ∀ (p : Nat) (proc : Proc), w.procs[p]? = some proc → proc.Shaped cfg)
    {a : Action} (h : w.step cfg a = some w') (hp : w.procs[p]? = some proc)
    (at_ : proc.At c b rec t) :
    ∃ proc' rec' t', w'.procs[p]? = some proc' ∧ proc'.loc.runId = proc.loc.runId ∧
      proc'.At c b rec' t' ∧ rec.SameCall rec' ∧ t'.key = t.key ∧
      (proc'.stopped = proc.stopped ∨ a = .stop p) ∧
      (t' = t ∨ ∃ ans o r loc, a = .task p c b ans ∧
        TaskActs cfg w w' p c b ans proc rec t o r loc ∧ t'.stage =
          (rec.call.setup cfg proc.loc.runId proc.loc.guarded t.key).next t.stage o r) := by
  by_cases mine : ∃ ans, a = .task p c b ans
  · obtain ⟨ans, rfl⟩ := mine
    obtain ⟨_, _, _, o, r, loc, acts⟩ := task_acts shaped h
    obtain rfl := Option.some.inj (hp.symm.trans acts.hp)
    obtain rfl := Option.some.inj (at_.1.symm.trans acts.at_.1)
    obtain rfl := Option.some.inj (at_.2.symm.trans acts.at_.2)
    obtain ⟨proc', rec', t', hp', same, at', sameCall, key, stage⟩ := acts.moved
    exact ⟨proc', rec', t', hp', same ▸ (exec_ctx acts.run).1, at', sameCall, key,
      stopped_step shaped h hp hp', .inr ⟨ans, o, r, loc, rfl, acts, stage⟩⟩
  · obtain ⟨proc', rec', t', hp', run, at', sameCall, key, -⟩ := task_persists h hp at_
    refine ⟨proc', rec', t', hp', run, at', sameCall, key, stopped_step shaped h hp hp', .inl ?_⟩
    cases task_cases shaped h hp' at' with
    | same old at₀ =>
      obtain rfl := Option.some.inj (hp.symm.trans old)
      obtain rfl := Option.some.inj (at_.1.symm.trans at₀.1)
      exact Option.some.inj (at₀.2.symm.trans at_.2)
    | moved is => exact absurd ⟨_, is⟩ mine
    | called old _ new =>
      obtain rfl := Option.some.inj (hp.symm.trans old)
      exact absurd (at_key_mem at_) (key ▸ new)

/-- What the acting task adds to the log of its run. -/
theorem TaskActs.log (h : TaskActs cfg w w' p c b ans proc rec t o r loc)
    (numbered : w.store.Numbered) (j : Uuid) : w'.store.loadEvents j =
      w.store.loadEvents j ++ if j = proc.loc.runId then written w.now o r else [] :=
  (exec_log numbered h.run).2 j

theorem MainActs.log (h : MainActs cfg w w' p ans proc o r loc) (numbered : w.store.Numbered)
    (j : Uuid) : w'.store.loadEvents j =
      w.store.loadEvents j ++ if j = proc.loc.runId then written w.now o r else [] :=
  (exec_log numbered h.run).2 j

end

/-! Which stage writes which event. -/

section

variable {s : StepSetup} {stage : Stage} {key : Option String} {payload : Payload}

theorem failure_raised (may : s.allowed stage (.appendEvent key payload))
    (is : payload.isFailure = true) : ∃ n exc, stage = .raised n exc := by
  have moves := StepSetup.moves may (.ok none)
  generalize s.next stage (.appendEvent key payload) (.ok none) = stage' at moves
  cases moves with
  | fail => exact ⟨_, _, rfl⟩
  | resolve | again | start | complete | retry => cases is
  | invoked _ _ trailing | called _ trailing =>
    cases payload <;> first | exact trailing.elim | cases is
  | raise _ failed => cases failed

theorem start_starting (may : s.allowed stage (.appendEvent key payload))
    (is : payload.isStart = true) : stage = .starting := by
  have moves := StepSetup.moves may (.ok none)
  generalize s.next stage (.appendEvent key payload) (.ok none) = stage' at moves
  cases moves with
  | start => rfl
  | resolve | again | complete | retry | fail => cases is
  | invoked _ _ trailing | called _ trailing =>
    cases payload <;> first | exact trailing.elim | cases is
  | raise _ failed => cases failed

theorem completion_open (may : s.allowed stage (.appendEvent key payload))
    (is : payload.isCompletion = true) :
    (∃ v, stage = .recovered v ∧ payload = .stepCompleted v .verify) ∨
      ∃ n v, stage = .returned n v ∧ payload = .stepCompleted v (.attempt n) := by
  have moves := StepSetup.moves may (.ok none)
  generalize s.next stage (.appendEvent key payload) (.ok none) = stage' at moves
  cases moves with
  | resolve => exact .inl ⟨_, rfl, rfl⟩
  | complete => exact .inr ⟨_, _, rfl, rfl⟩
  | again | start | retry | fail => cases is
  | invoked _ _ trailing | called _ trailing =>
    cases payload <;> first | exact trailing.elim | cases is
  | raise _ failed => cases failed

end

/-- Who has written an event under a step key, if the engine writes none like it. -/
theorem keyed_cases {cfg : Config} {w w' : World} {a : Action} {runId : Uuid} {key : String}
    {es : List Event} {e : Event} (numbered : w.store.Numbered)
    (shaped : ∀ (p : Nat) (proc : Proc), w.procs[p]? = some proc → proc.Shaped cfg)
    (h : w.step cfg a = some w')
    (log : w'.store.loadEvents runId = w.store.loadEvents runId ++ es) (mem : e ∈ es)
    (keyed : e.stepKey = some key)
    (foreign : ∀ {phase : Phase} {stepKey : Option String},
      ¬ phase.allowed (.appendEvent stepKey e.payload)) :
    ∃ p c b ans proc rec t r loc, a = .task p c b ans ∧
      TaskActs cfg w w' p c b ans proc rec t (.appendEvent (some key) e.payload) r loc ∧
      t.key = key ∧ proc.loc.runId = runId ∧ es = [e] := by
  cases a with
  | task p c b ans =>
    obtain ⟨proc, rec, t, o, r, loc, acts⟩ := task_acts shaped h
    rw [List.append_cancel_left (log.symm.trans (acts.log numbered runId))] at mem ⊢
    split at mem
    · next own =>
      obtain ⟨_, rfl, one, -⟩ := InvocationLemmas.written_event mem
      have mine := InvocationLemmas.allowed_key acts.may
      rw [if_pos own, one]
      rw [keyed] at mine
      revert r
      rw [keyed]
      intro r acts mem one
      exact ⟨p, c, b, ans, proc, rec, t, r, loc, rfl, acts, (Option.some.inj mine).symm, own.symm,
        rfl⟩
    · cases mem
  | main p ans =>
    obtain ⟨proc, o, r, loc, acts⟩ := main_acts shaped h
    rw [List.append_cancel_left (log.symm.trans (acts.log numbered runId))] at mem
    split at mem
    · obtain ⟨_, rfl, -⟩ := InvocationLemmas.written_event mem
      exact absurd acts.may foreign
    · cases mem
  | _ =>
    obtain ⟨es', log', quiet⟩ := (quiet_log numbered h (by simp [Action.runsCode])).2 runId
    rw [List.append_cancel_left (log.symm.trans log')] at mem
    cases keyed.symm.trans (quiet e mem)

/-- Who has written an event of a key's window. -/
theorem event_cases {cfg : Config} {w w' : World} {a : Action} {runId : Uuid} {key : String}
    {es : List Event} {e : Event} (numbered : w.store.Numbered)
    (shaped : ∀ (p : Nat) (proc : Proc), w.procs[p]? = some proc → proc.Shaped cfg)
    (h : w.step cfg a = some w')
    (log : w'.store.loadEvents runId = w.store.loadEvents runId ++ es) (mem : e ∈ es)
    (concerns : e.concerns key) :
    ∃ p c b ans proc rec t r loc, a = .task p c b ans ∧
      TaskActs cfg w w' p c b ans proc rec t (.appendEvent (some key) e.payload) r loc ∧
      t.key = key ∧ proc.loc.runId = runId ∧ es = [e] :=
  keyed_cases numbered shaped h log mem concerns.1 fun may =>
    absurd (concerns.2.symm.trans (InvocationLemmas.phase_quiet may)) (by simp)

/-! ## Keys of certain calls -/

/-- Only calls that meet `kind` have had this key in attempts of the run. -/
def World.KeyedBy (kind : Call → Bool) (w : World) (j : Uuid) (key : String) : Prop :=
  ∀ (p : Nat) (proc : Proc) (c b : Nat) (rec : CallRecord) (t : Task), w.procs[p]? = some proc →
    proc.loc.runId = j → proc.At c b rec t → t.key = key → kind rec.call = true

theorem keyedBy_back {cfg : Config} {kind : Call → Bool} {w w' : World} {a : Action} {j : Uuid}
    {key : String} (h : w.step cfg a = some w') (only : w'.KeyedBy kind j key) :
    w.KeyedBy kind j key := by
  intro p proc c b rec t hp run at_ same
  obtain ⟨proc', rec', t', hp', run', at', sameCall, key', -⟩ := task_persists h hp at_
  rw [← sameCall.call]
  exact only p proc' c b rec' t' hp' (run'.trans run) at' (key'.trans same)

end AnchorRuntime
