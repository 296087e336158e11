import AnchorRuntime.Shape

/-!
# Tasks from one world to the next

Where a task of the next world comes from, and that no task is lost. The invariants about
single tasks are proved from these.

Results: `task_cases`, a task after an action is the one from before, the one the action
moved, or one a call has just made; `task_persists`, tasks keep their place, key and call.
-/

namespace AnchorRuntime

open Effect Machine Slots ShapeLemmas ProcLemmas

/-- What an attempt shares is as it was, as far as `key` is concerned. -/
structure SameKey (key : String) (a b : Local) : Prop where
  runId : b.runId = a.runId
  worker : b.worker = a.worker
  ctx : ∀ ctx, a.ctx = some ctx → ∃ ctx', b.ctx = some ctx' ∧ ctx'.loaded = ctx.loaded ∧
    ctx'.completed key = ctx.completed key ∧ ctx'.unresolved key = ctx.unresolved key

/-- Where task `b` of call `c` of attempt `q` comes from, after action `a`. -/
inductive TaskStep (cfg : Config) (w w' : World) (a : Action) (q c b : Nat) (proc' : Proc)
    (rec' : CallRecord) : Task → Prop
  | same {proc : Proc} {rec : CallRecord} {t : Task} :
      w.procs[q]? = some proc → proc.At c b rec t → rec.SameCall rec' →
      SameKey t.key proc.loc proc'.loc → (proc'.stopped = false → proc.stopped = false) →
      (∀ ans, a ≠ .task q c b ans) → TaskStep cfg w w' a q c b proc' rec' t
  | moved {proc : Proc} {rec : CallRecord} {t : Task} {ans : Answer} {o : Op}
      {k : Ans o → Code Value} {r : Ans o} :
      a = .task q c b ans → w.procs[q]? = some proc → proc.stopped = false →
      proc.At c b rec t → rec.SameCall rec' → t.prog = .step o k →
      exec cfg w.now w.store proc.loc ans o = some (r, w'.store, proc'.loc) →
      (rec.call.setup cfg proc.loc.runId proc.loc.guarded t.key).allowed t.stage o →
      TaskStep cfg w w' a q c b proc' rec'
        { t with
          stage := (rec.call.setup cfg proc.loc.runId proc.loc.guarded t.key).next t.stage o r
          prog := k r }
  | called {proc : Proc} {key : String} {path : List Place} {prog : Code Value} :
      w.procs[q]? = some proc → proc.stopped = false → key ∉ proc.keys →
      proc'.loc.runId = proc.loc.runId → (∀ ans, a ≠ .task q c b ans) →
      TaskStep cfg w w' a q c b proc' rec' ⟨key, path, .entry, prog⟩

namespace TaskLemmas

variable {cfg : Config} {w w' : World} {a : Action} {p q c b : Nat} {proc proc' : Proc}
  {rec rec' : CallRecord} {t t' : Task}

theorem sameCall_refl (rec : CallRecord) : rec.SameCall rec := ⟨rfl, rfl, rfl, rfl, rfl⟩

theorem sameCall_trans {rec'' : CallRecord} (h : rec.SameCall rec') (h' : rec'.SameCall rec'') :
    rec.SameCall rec'' :=
  ⟨h'.caller.trans h.caller, h'.role.trans h.role, h'.index.trans h.index, h'.call.trans h.call,
    h'.refused.trans h.refused⟩

theorem sameKey_refl (key : String) (loc : Local) : SameKey key loc loc :=
  ⟨rfl, rfl, fun ctx hctx => ⟨ctx, hctx, rfl, rfl, rfl⟩⟩

theorem sameKey_beat (key : String) (loc : Local) (beat : Beat) :
    SameKey key loc { loc with beat } :=
  ⟨rfl, rfl, fun ctx hctx => ⟨ctx, hctx, rfl, rfl, rfl⟩⟩

theorem sameKey_called (key : String) {loc : Local} {ctx : RunContext} (names : List String)
    (hctx : loc.ctx = some ctx) :
    SameKey key loc { loc with ctx := some (ctx.nextKeys names).2 } := by
  refine ⟨rfl, rfl, fun old hold => ⟨_, rfl, ?_⟩⟩
  cases hctx.symm.trans hold
  rw [RunContext.nextKeys_same]
  exact ⟨rfl, rfl, rfl⟩

/-- What an operation leaves of a key it does not record. -/
theorem sameKey_exec {o : Op} {r : Ans o} {now : Int} {st st' : Store} {loc loc' : Local}
    {ans : Answer} {key : String} (run : exec cfg now st loc ans o = some (r, st', loc'))
    (built : ∀ run events, o ≠ .newContext run events)
    (quiet : ∀ result, o ≠ .recordResult key result) : SameKey key loc loc' := by
  obtain ⟨runId, worker, remembered⟩ := exec_ctx run
  refine ⟨runId, worker, fun ctx hctx => ?_⟩
  rw [hctx] at remembered
  generalize loc'.ctx = new at remembered
  cases remembered with
  | same memory =>
    exact ⟨_, rfl, memory.loaded, by rw [memory.completed], by rw [memory.unresolved]⟩
  | build => exact absurd rfl (built _ _)
  | @record other result _ =>
    have ne : key ≠ other := fun e => quiet result (by rw [e])
    exact ⟨_, rfl, rfl, by simp [RunContext.record, ne], by simp [RunContext.record, ne]⟩

/-- An attempt with tasks has a context. -/
theorem at_known (shaped : proc.Shaped cfg) (at_ : proc.At c b rec t) :
    proc.loc.ctx.isSome = true := by
  cases hctx : proc.loc.ctx with
  | some ctx => rfl
  | none => exact absurd at_.1 (by simp [shaped.uncalled hctx])

theorem main_quiet {o : Op} {k : Ans o → Code (Option Outcome)} (shaped : proc.Shaped cfg)
    (hmain : proc.main = .step o k) (known : proc.loc.ctx.isSome = true) :
    (∀ run events, o ≠ .newContext run events) ∧ ∀ key result, o ≠ .recordResult key result := by
  have may := shaped.main
  rw [hmain, obeys_step] at may
  have may : proc.phase.allowed o := may.1
  refine ⟨?_, ?_⟩
  · rintro run events rfl
    have none := shaped.early (newContext_early may)
    exact absurd known (by simp [none])
  · rintro key result rfl
    cases hphase : proc.phase <;> simp [hphase, Phase.allowed] at may

theorem task_allowed {o : Op} {k : Ans o → Code Value} (shaped : proc.Shaped cfg)
    (at_ : proc.At c b rec t) (hprog : t.prog = .step o k) :
    (rec.call.setup cfg proc.loc.runId proc.loc.guarded t.key).allowed t.stage o := by
  have may := shaped.tasks c b rec t at_
  rw [hprog, obeys_step] at may
  exact may.1

/-- A step that has ended has ended as its stage says. -/
theorem ending_ends {r : Except Exn Value} (shaped : proc.Shaped cfg) (at_ : proc.At c b rec t)
    (ends : t.prog.ending = some r) :
    (rec.call.setup cfg proc.loc.runId proc.loc.guarded t.key).Ends rec.call.reply t.stage r := by
  have obeys := shaped.tasks c b rec t at_
  cases hprog : t.prog with
  | ret v | raise exc =>
    rw [hprog] at ends obeys
    cases ends
    exact obeys
  | step o k =>
    rw [hprog] at ends
    cases ends

theorem records_own {s : StepSetup} {stage : Stage} {key : String} {result : Value}
    (may : s.allowed stage (.recordResult key result)) : key = s.key := by
  cases stage <;> simp_all [StepSetup.allowed]

end TaskLemmas

open TaskLemmas

theorem task_cases {cfg : Config} {w w' : World} {a : Action} {q c b : Nat} {proc' : Proc}
    {rec' : CallRecord} {t' : Task}
    (shaped : ∀ (p : Nat) (proc : Proc), w.procs[p]? = some proc → proc.Shaped cfg)
    (h : w.step cfg a = some w') (hq : w'.procs[q]? = some proc') (at' : proc'.At c b rec' t') :
    TaskStep cfg w w' a q c b proc' rec' t' := by
  have still : w.procs[q]? = some proc' → (∀ ans, a ≠ .task q c b ans) →
      TaskStep cfg w w' a q c b proc' rec' t' := fun old ne =>
    .same old at' (sameCall_refl rec') (sameKey_refl _ _) id ne
  cases step_happens h with
  | submit | cancel | tick => exact still hq (by simp)
  | claim | execute =>
    rcases concat_cases hq with old | ⟨-, rfl⟩
    · exact still old (by simp)
    · exact absurd at'.1 (by simp [Proc.claimed, Proc.executed])
  | beat beat hp =>
    rcases procs_set hq with ⟨rfl, rfl⟩ | ⟨-, old⟩
    · exact .same hp at' (sameCall_refl rec') (sameKey_beat _ _ beat) id (by simp)
    · exact still old (by simp)
  | stop hp =>
    rcases procs_set hq with ⟨rfl, rfl⟩ | ⟨-, old⟩
    · exact .same hp at' (sameCall_refl rec') (sameKey_refl _ _) (by simp) (by simp)
    · exact still old (by simp)
  | main hp _ hmain run =>
    rcases procs_set hq with ⟨rfl, rfl⟩ | ⟨-, old⟩
    · have known := at_known (shaped _ _ hp) at'
      obtain ⟨built, quiet⟩ := main_quiet (shaped _ _ hp) hmain known
      exact .same hp at' (sameCall_refl rec') (sameKey_exec run built (quiet _)) id (by simp)
    · exact still old (by simp)
  | @task p c₀ b₀ ans proc rec t o k r store loc hp alive hrec ht hprog run =>
    rcases procs_set hq with ⟨rfl, rfl⟩ | ⟨ne, old⟩
    · have at_ : proc.At c₀ b₀ rec t := ⟨hrec, ht⟩
      have may := task_allowed (shaped _ _ hp) at_ hprog
      obtain ⟨old, hold, same, ⟨rfl, rfl, rfl⟩ | ⟨elsewhere, at_old⟩⟩ :=
        at_setTask (show Proc.At { proc with loc } c₀ b₀ rec t from at_) at'
      · obtain rfl : old = rec := Option.some.inj (hold.symm.trans hrec)
        exact .moved rfl hp alive at_ same hprog run may
      · have at_old : proc.At c b old t' := at_old
        have other : t'.key ≠ t.key := fun e =>
          elsewhere (at_key_inj (shaped _ _ hp).nodup at_old at_ e)
        refine .same hp at_old same ?_ id fun ans e => ?_
        · refine sameKey_exec run (allowed_ne_newContext may) ?_
          rintro result rfl
          exact other (records_own may)
        · cases e
          exact elsewhere ⟨rfl, rfl⟩
    · exact still old fun ans e => by
        cases e
        exact ne rfl
  | refused hp alive =>
    rcases procs_set hq with ⟨rfl, rfl⟩ | ⟨-, old⟩
    · rcases at_concat at' with old | ⟨-, -, none⟩
      · exact .same hp old (sameCall_refl rec') (sameKey_refl _ _) id (by simp)
      · exact absurd none (by simp)
    · exact still old (by simp)
  | call hp alive _ hctx =>
    rcases procs_set hq with ⟨rfl, rfl⟩ | ⟨-, old⟩
    · rcases at_concat at' with old | ⟨-, rfl, new⟩
      · exact .same hp old (sameCall_refl rec') (sameKey_called _ _ hctx) id (by simp)
      · obtain ⟨key, hkey, rfl⟩ := newTasks_get new
        refine .called hp alive (fun mem => ?_) rfl (by simp)
        exact RunContext.nextKeys_fresh _ _ (List.mem_of_getElem? hkey)
          ((shaped _ _ hp).allocated _ hctx key mem)
    · exact still old (by simp)

/-! ## No task is lost -/

namespace TaskLemmas

/-- The tasks before the progress of one are still there. -/
theorem at_of_setTask {proc : Proc} {c b c' b' : Nat} {rec rec' : CallRecord} {t t' : Task}
    (new : Task) (h : proc.At c b rec t) (h' : proc.At c' b' rec' t') (key : new.key = t.key)
    (path : new.path = t.path) : ∃ rec'' t'', (proc.setTask c b new).At c' b' rec'' t'' ∧
      rec'.SameCall rec'' ∧ t''.key = t'.key ∧ t''.path = t'.path := by
  by_cases call : c = c'
  · subst call
    obtain rfl : rec = rec' := Option.some.inj (h.1.symm.trans h'.1)
    have hcall : (proc.setTask c b new).calls[c]? =
        some { rec with tasks := rec.tasks.set b new } := by
      rw [setTask_calls, if_pos rfl, h.1]
      rfl
    by_cases branch : b = b'
    · subst branch
      obtain rfl : t = t' := Option.some.inj (h.2.symm.trans h'.2)
      refine ⟨_, new, ⟨hcall, ?_⟩, ⟨rfl, rfl, rfl, rfl, rfl⟩, key, path⟩
      exact List.getElem?_set_self (List.getElem?_eq_some_iff.mp h.2).1
    · refine ⟨_, t', ⟨hcall, ?_⟩, ⟨rfl, rfl, rfl, rfl, rfl⟩, rfl, rfl⟩
      rw [List.getElem?_set_ne branch]
      exact h'.2
  · refine ⟨rec', t', ⟨?_, h'.2⟩, sameCall_refl rec', rfl, rfl⟩
    rw [setTask_calls, if_neg call]
    exact h'.1

theorem at_append {proc : Proc} {c b : Nat} {rec rec₀ : CallRecord} {t : Task} (loc : Local)
    (h : proc.At c b rec t) : Proc.At { proc with loc, calls := proc.calls ++ [rec₀] } c b rec t :=
  ⟨(List.getElem?_append_left (List.getElem?_eq_some_iff.mp h.1).1).trans h.1, h.2⟩

theorem set_persists {w : World} {p q : Nat} {proc old new : Proc} (hp : w.procs[p]? = some proc)
    (hq : w.procs[q]? = some old) :
    (w.procs.set q new)[p]? = some proc ∨
      (p = q ∧ old = proc ∧ (w.procs.set q new)[p]? = some new) := by
  by_cases e : q = p
  · subst e
    exact .inr ⟨rfl, Option.some.inj (hq.symm.trans hp),
      List.getElem?_set_self (List.getElem?_eq_some_iff.mp hp).1⟩
  · exact .inl ((List.getElem?_set_ne e).trans hp)

end TaskLemmas

/-- No action takes a task away, or changes its key, its path or its call. -/
theorem task_persists {cfg : Config} {w w' : World} {a : Action} (h : w.step cfg a = some w')
    {p c b : Nat} {proc : Proc} {rec : CallRecord} {t : Task} (hp : w.procs[p]? = some proc)
    (at_ : proc.At c b rec t) :
    ∃ proc' rec' t', w'.procs[p]? = some proc' ∧ proc'.loc.runId = proc.loc.runId ∧
      proc'.At c b rec' t' ∧ rec.SameCall rec' ∧ t'.key = t.key ∧ t'.path = t.path := by
  have still : w'.procs[p]? = some proc → ∃ proc' rec' t', w'.procs[p]? = some proc' ∧
      proc'.loc.runId = proc.loc.runId ∧ proc'.At c b rec' t' ∧ rec.SameCall rec' ∧
      t'.key = t.key ∧ t'.path = t.path := fun same =>
    ⟨proc, rec, t, same, rfl, at_, sameCall_refl rec, rfl, rfl⟩
  cases step_happens h with
  | submit | cancel | tick => exact still hp
  | claim | execute =>
    exact still ((List.getElem?_append_left (List.getElem?_eq_some_iff.mp hp).1).trans hp)
  | beat beat hq =>
    rcases set_persists hp hq with same | ⟨-, rfl, new⟩
    · exact still same
    · exact ⟨_, rec, t, new, rfl, at_, sameCall_refl rec, rfl, rfl⟩
  | stop hq =>
    rcases set_persists hp hq with same | ⟨-, rfl, new⟩
    · exact still same
    · exact ⟨_, rec, t, new, rfl, at_, sameCall_refl rec, rfl, rfl⟩
  | main hq _ _ run =>
    rcases set_persists hp hq with same | ⟨-, rfl, new⟩
    · exact still same
    · exact ⟨_, rec, t, new, (exec_ctx run).1, at_, sameCall_refl rec, rfl, rfl⟩
  | @task _ c₀ b₀ _ proc₀ rec₀ t₀ o k r _ loc hq _ hrec ht _ run =>
    rcases set_persists hp hq with same | ⟨-, rfl, new⟩
    · exact still same
    · let setup := rec₀.call.setup cfg proc₀.loc.runId proc₀.loc.guarded t₀.key
      obtain ⟨rec', t', at', call, key, path⟩ := at_of_setTask
        { t₀ with stage := setup.next t₀.stage o r, prog := k r }
        (show Proc.At { proc₀ with loc } c₀ b₀ rec₀ t₀ from ⟨hrec, ht⟩) at_ rfl rfl
      exact ⟨_, rec', t', new, (exec_ctx run).1, at', call, key, path⟩
  | refused hq =>
    rcases set_persists hp hq with same | ⟨-, rfl, new⟩
    · exact still same
    · exact ⟨_, rec, t, new, rfl, at_append _ at_, sameCall_refl rec, rfl, rfl⟩
  | call hq =>
    rcases set_persists hp hq with same | ⟨-, rfl, new⟩
    · exact still same
    · exact ⟨_, rec, t, new, rfl, at_append _ at_, sameCall_refl rec, rfl, rfl⟩

end AnchorRuntime
