import AnchorRuntime.FanOut
import AnchorRuntime.Positions

/-!
# Trajectories

A deterministic workflow awaits its calls one after another, and which call it makes next
depends on its input and on what the earlier calls have returned. Every attempt of its run
follows the one trajectory, as far as it gets: an attempt that executes a body and one that
finds the result in the log are told the same.

Results: `returns_reaches`, what a step has returned is what the log has for its key, in a
crashed attempt too; `calls_agree`, call by call, two attempts of a run make the same calls
under the same keys; `trajectories_agree`.
-/

namespace AnchorRuntime

open Effect Machine Slots ShapeLemmas ProcLemmas TaskLemmas BreachLemmas FanOutLemmas
  PositionLemmas Occurrences

/-! ## Workflows and what they are told -/

/-- What a call has returned, if it has: one value for each of its keys. -/
def CallRecord.returned (rec : CallRecord) : Option (List Value) :=
  if rec.refused.isNone then rec.gathered else none

/-- The keys of a call that has returned, each with its value. -/
def CallRecord.entries (rec : CallRecord) : Option (List (String × Value)) :=
  rec.returned.map fun values => (rec.tasks.map (·.key)).zip values

/-- What the workflow has been told, in order: step keys and the values returned for them. -/
def Proc.trajectory (proc : Proc) : List (String × Value) :=
  (proc.calls.filterMap CallRecord.entries).flatten

/-- The calls of a workflow: the next one from its name, its input and what its calls have
returned so far; none when it makes no more. -/
abbrev NextCall := String → Value → List (List Value) → Option Call

/-- In the attempts of run `j` only the workflow calls the context. It makes its next call when
every earlier one has returned, and the call is the one its function determines. -/
def deterministic (next : NextCall) (j : Uuid) (w : World) : Action → Prop
  | .call p caller role c => ∀ proc ∈ w.procs[p]?, proc.loc.runId = j →
      caller = none ∧ role = .workflow ∧ ∀ ctx ∈ proc.loc.ctx, ∃ values,
        proc.calls.mapM CallRecord.returned = some values ∧
        next ctx.run.workflow ctx.run.input values = some c
  | _ => True

/-- Attempts follow one another, and those of run `j` are of a deterministic workflow. -/
def resumable (next : NextCall) (j : Uuid) (w : World) (a : Action) : Prop :=
  oneAfterAnother w a ∧ deterministic next j w a

/-- The attempt has made the calls that the workflow makes. -/
def Proc.Follows (next : NextCall) (proc : Proc) : Prop :=
  ∀ (c : Nat) (rec : CallRecord), proc.calls[c]? = some rec → ∃ ctx values,
    proc.loc.ctx = some ctx ∧ (proc.calls.take c).mapM CallRecord.returned = some values ∧
    next ctx.run.workflow ctx.run.input values = some rec.call

/-- What a step has returned is made of the recorded result of its key. -/
def World.Returns (w : World) : Prop :=
  ∀ (p : Nat) (proc : Proc), w.procs[p]? = some proc → ∀ c b rec t, proc.At c b rec t → ∀ v,
    t.prog.ending = some (.ok v) →
    ∃ x, w.Recorded proc.loc.runId t.key x ∧ rec.call.reply x = .ok v

namespace TrajectoryLemmas

variable {cfg : Config} {w w' : World} {a : Action} {p c b : Nat} {proc proc' other : Proc}
  {rec rec' : CallRecord} {t : Task} {next : NextCall} {j : Uuid}

/-! ## What steps return -/

/-- A step of a live attempt that has returned knows the result in the log. -/
theorem ended_recorded {v : Value} (shaped : proc.Shaped cfg) (inv : proc.InStep cfg w)
    (at_ : proc.At c b rec t) (ends : t.prog.ending = some (.ok v)) :
    ∃ x, w.Recorded proc.loc.runId t.key x ∧ rec.call.reply x = .ok v := by
  obtain ⟨ctx, hctx⟩ := Option.isSome_iff_exists.mp (at_known shaped at_)
  obtain ⟨life, hlife, agrees⟩ := inv.tasks ctx hctx _ _ _ _ at_
  have told := ending_ends shaped at_ ends
  generalize t.stage = stage at told agrees
  cases stage with
  | replayed x | resolved x | closed x =>
    cases agrees
    exact ⟨x, CompletionLemmas.done_recorded hlife, told.symm⟩
  | saved x =>
    cases agrees
    exact ⟨x, CompletionLemmas.done_recorded hlife, told.1.symm⟩
  | _ => simp [StepSetup.Ends] at told

theorem returns_step (numbered : w.store.Numbered)
    (shaped : ∀ (p : Nat) (proc : Proc), w.procs[p]? = some proc → proc.Shaped cfg)
    (shaped' : ∀ (p : Nat) (proc : Proc), w'.procs[p]? = some proc → proc.Shaped cfg)
    (consistent : w'.Consistent cfg) (h : w.step cfg a = some w') (inv : w.Returns) :
    w'.Returns := by
  intro q proc' hq c b rec' t' at' v ends
  cases task_cases shaped h hq at' with
  | same hp at_ call sameKey =>
    obtain ⟨x, recorded, reply⟩ := inv q _ hp c b _ t' at_ v ends
    rw [call.call, sameKey.runId]
    exact ⟨x, recorded_step numbered shaped h recorded, reply⟩
  | moved is hp alive =>
    refine ended_recorded (shaped' q proc' hq) (consistent.procs q proc' hq ?_) at' ends
    refine ((stopped_step shaped h hp hq).resolve_right ?_).trans alive
    rw [is]
    exact Action.noConfusion
  | called =>
    -- a step that has just been called has its first operation before it
    exact absurd (ending_ends (shaped' q proc' hq) at' ends) (by simp [StepSetup.Ends])

/-! ## What workflows do -/

/-- A call that has returned has no step left to act. -/
theorem acting_unreturned {ans : Answer} {o : Op} {r : Ans o} {loc : Local} {i : Nat}
    {values : List (List Value)} (acts : TaskActs cfg w w' p c b ans proc rec t o r loc)
    (done : (proc.calls.take i).mapM CallRecord.returned = some values) : i ≤ c := by
  by_contra beyond
  have there : (proc.calls.take i)[c]? = some rec := by
    rw [List.getElem?_take_of_lt (Nat.lt_of_not_le beyond)]
    exact acts.at_.1
  obtain ⟨told, -, returned⟩ := (Gathered.mapM_get done).2 c rec there
  unfold CallRecord.returned at returned
  split at returned
  · obtain ⟨v, -, ending⟩ := (Gathered.mapM_get returned).2 b t acts.at_.2
    obtain ⟨k, hprog, -⟩ := acts.after
    rw [hprog] at ending
    cases ending
  · cases returned

/-- The context of an attempt with calls stays the one of its run. -/
theorem run_stays {o : Op} {r : Ans o} {now : Int} {st st' : Store} {loc loc' : Local}
    {ans : Answer} {ctx : RunContext} (run : exec cfg now st loc ans o = some (r, st', loc'))
    (built : ∀ record events, o ≠ .newContext record events) (hctx : loc.ctx = some ctx) :
    ∃ ctx', loc'.ctx = some ctx' ∧ ctx'.run = ctx.run := by
  obtain ⟨-, -, remembered⟩ := exec_ctx run
  rcases remembered_same remembered built with ⟨none, -⟩ | ⟨before, after, old, new, same, -⟩
  · cases none.symm.trans hctx
  · obtain rfl := Option.some.inj (old.symm.trans hctx)
    exact ⟨after, new, same⟩

/-- A call more, the one the workflow makes. -/
theorem follows_concat {new : CallRecord} {loc : Local} {ctx ctx' : RunContext}
    {values : List (List Value)} (follows : proc.Follows next) (hctx : proc.loc.ctx = some ctx)
    (hctx' : loc.ctx = some ctx') (run : ctx'.run = ctx.run)
    (told : proc.calls.mapM CallRecord.returned = some values)
    (determined : next ctx.run.workflow ctx.run.input values = some new.call) :
    Proc.Follows next { proc with loc, calls := proc.calls ++ [new] } := by
  intro i rec hrec
  rcases concat_cases hrec with old | ⟨rfl, rfl⟩
  · obtain ⟨ctx₀, earlier, known, before, made⟩ := follows i rec old
    obtain rfl := Option.some.inj (known.symm.trans hctx)
    refine ⟨ctx', earlier, hctx', ?_, by rw [run]; exact made⟩
    rw [List.take_append_of_le_length (List.getElem?_eq_some_iff.mp old).1.le]
    exact before
  · refine ⟨ctx', values, hctx', ?_, by rw [run]; exact determined⟩
    rw [List.take_left]
    exact told

theorem follows_step
    (shaped : ∀ (p : Nat) (proc : Proc), w.procs[p]? = some proc → proc.Shaped cfg)
    (h : w.step cfg a = some w') (ok : deterministic next j w a)
    (inv : ∀ (p : Nat) (proc : Proc), w.procs[p]? = some proc → proc.loc.runId = j →
      proc.Follows next)
    (q : Nat) (proc' : Proc) (hq : w'.procs[q]? = some proc') (mine : proc'.loc.runId = j) :
    proc'.Follows next := by
  intro i rec' hrec'
  cases attempt_cases shaped h hq with
  | same old | beat _ _ old | stop _ old => exact inv q _ old mine i rec' hrec'
  | fresh _ _ _ uncalled =>
    rw [uncalled] at hrec'
    cases hrec'
  | @main proc ans o k r loc is acts =>
    have own : proc.loc.runId = j := (exec_ctx acts.run).1.symm.trans mine
    obtain ⟨ctx, values, hctx, told, determined⟩ := inv q proc acts.hp own i rec' hrec'
    have built : ∀ record events, o ≠ .newContext record events := by
      rintro record events rfl
      have none := (shaped q proc acts.hp).early (newContext_early acts.may)
      cases none.symm.trans hctx
    obtain ⟨ctx', hctx', run⟩ := run_stays acts.run built hctx
    exact ⟨ctx', values, hctx', told, by rw [run]; exact determined⟩
  | @task proc c b ans rec t o k r loc is acts =>
    have at_loc : Proc.At { proc with loc } c b rec t := acts.at_
    obtain ⟨old, hold, call⟩ : ∃ old, proc.calls[i]? = some old ∧ rec'.call = old.call := by
      rw [setTask_calls] at hrec'
      split at hrec'
      · obtain ⟨old, hold, rfl⟩ := Option.map_eq_some_iff.mp hrec'
        exact ⟨old, hold, rfl⟩
      · exact ⟨rec', hrec', rfl⟩
    have own : proc.loc.runId = j := (exec_ctx acts.run).1.symm.trans mine
    obtain ⟨ctx, values, hctx, told, determined⟩ := inv q proc acts.hp own i old hold
    have within := acting_unreturned acts told
    obtain ⟨ctx', hctx', run⟩ := run_stays acts.run (allowed_ne_newContext acts.may) hctx
    refine ⟨ctx', values, hctx', ?_, by rw [run, call]; exact determined⟩
    rw [← told]
    refine congrArg (List.mapM CallRecord.returned) (List.ext_getElem? fun j => ?_)
    rw [List.getElem?_take, List.getElem?_take, setTask_calls]
    split
    · rw [if_neg (by omega)]
    · rfl
  | @refused proc caller path role call exc ctx is hp live path hctx =>
    subst is
    obtain ⟨-, -, scripted⟩ := ok proc hp mine
    obtain ⟨values, told, determined⟩ := scripted ctx hctx
    exact follows_concat (inv q proc hp mine) hctx hctx rfl told determined i rec' hrec'
  | @call proc caller path role call names ctx is hp live path hctx =>
    subst is
    obtain ⟨-, -, scripted⟩ := ok proc hp mine
    obtain ⟨values, told, determined⟩ := scripted ctx hctx
    have run : (ctx.nextKeys names).2.run = ctx.run := by rw [RunContext.nextKeys_same]
    exact follows_concat (inv q proc hp mine) hctx rfl run told determined i rec' hrec'

/-! ## Two attempts of a run -/

/-- Two attempts of a run have the same input. -/
theorem input_agrees {q : Nat} {ctx ctx' : RunContext}
    (by_ : w.GoesBy fun run => (run.workflow, run.input)) (hp : w.procs[p]? = some proc)
    (hq : w.procs[q]? = some other) (run : other.loc.runId = proc.loc.runId)
    (hctx : proc.loc.ctx = some ctx) (hctx' : other.loc.ctx = some ctx') :
    ctx'.run.workflow = ctx.run.workflow ∧ ctx'.run.input = ctx.run.input := by
  have one := by_.ctx p proc hp ctx hctx
  have two := by_.ctx q other hq ctx' hctx'
  rw [run] at two
  exact Prod.mk.inj (Option.some.inj (two.symm.trans one))

/-- Attempts whose first calls are the same have the same keys for them. -/
theorem keys_agree (here : proc.Positioned cfg) (there : other.Positioned cfg)
    (same : ∀ i ≤ c, ∀ rec rec', proc.calls[i]? = some rec → other.calls[i]? = some rec' →
      rec.call = rec'.call)
    (hrec : proc.calls[c]? = some rec) (hrec' : other.calls[c]? = some rec') :
    rec.tasks.map (·.key) = rec'.tasks.map (·.key) := by
  have bound := (List.getElem?_eq_some_iff.mp hrec).1
  have bound' := (List.getElem?_eq_some_iff.mp hrec').1
  have named : ∀ i ≤ c + 1, (proc.named cfg).take i = (other.named cfg).take i := by
    intro i le
    refine List.ext_getElem? fun j => ?_
    rw [List.getElem?_take, List.getElem?_take]
    split
    · have ha := List.getElem?_eq_getElem (show j < proc.calls.length by omega)
      have ha' := List.getElem?_eq_getElem (show j < other.calls.length by omega)
      rw [Proc.named, Proc.named, List.getElem?_map, List.getElem?_map, ha, ha',
        Option.map_some, Option.map_some, same j (by omega) _ _ ha ha']
    · rfl
  have keyed : ∀ i ≤ c + 1, (proc.keyed.take i).flatten = (other.keyed.take i).flatten := by
    intro i le
    rw [here.keys, there.keys, named i le]
  have last : ∀ {attempt : Proc} {r : CallRecord}, attempt.calls[c]? = some r →
      (attempt.keyed.take (c + 1)).flatten =
        (attempt.keyed.take c).flatten ++ r.tasks.map (·.key) := by
    intro attempt r hr
    rw [List.take_add_one, Proc.keyed, List.getElem?_map, hr]
    exact List.flatten_concat
  have all := keyed (c + 1) le_rfl
  rw [last hrec, last hrec', keyed c (Nat.le_succ c)] at all
  exact List.append_cancel_left all

/-- What both attempts have been told for a call is the same. -/
theorem values_agree {q : Nat} {values values' : List Value} (inv : w.Consistent cfg)
    (returns : w.Returns) (hp : w.procs[p]? = some proc) (hq : w.procs[q]? = some other)
    (run : other.loc.runId = proc.loc.runId) (hrec : proc.calls[c]? = some rec)
    (hrec' : other.calls[c]? = some rec') (call : rec.call = rec'.call)
    (keys : rec.tasks.map (·.key) = rec'.tasks.map (·.key))
    (told : rec.returned = some values) (told' : rec'.returned = some values') :
    values = values' := by
  have gathered : ∀ {r : CallRecord} {vs : List Value}, r.returned = some vs →
      r.tasks.mapM (fun t => t.prog.ending.bind (·.toOption)) = some vs := by
    intro r vs h
    unfold CallRecord.returned at h
    split at h
    · exact h
    · cases h
  have returned : ∀ {t : Task} {v : Value}, t.prog.ending.bind (·.toOption) = some v →
      t.prog.ending = some (.ok v) := by
    intro t v h
    obtain ⟨r, ending, is⟩ := Option.bind_eq_some_iff.mp h
    cases r with
    | error exc => cases is
    | ok x =>
      cases is
      exact ending
  refine Gathered.mapM_agree (by simpa using congrArg List.length keys) ?_ (gathered told)
    (gathered told')
  intro b t t' ht ht' v v' ends ends'
  have key : t.key = t'.key := by
    have at_ := congrArg (·[b]?) keys
    simpa only [List.getElem?_map, ht, ht', Option.map_some, Option.some.injEq] using at_
  obtain ⟨x, recorded, reply⟩ := returns p proc hp c b rec t ⟨hrec, ht⟩ v (returned ends)
  obtain ⟨x', recorded', reply'⟩ := returns q other hq c b rec' t' ⟨hrec', ht'⟩ v' (returned ends')
  rw [run, ← key] at recorded'
  rw [← call, ← recorded_unique inv recorded recorded', reply] at reply'
  exact Except.ok.inj reply'

end TrajectoryLemmas

open TrajectoryLemmas

variable {cfg : Config} {now : Int} {w : World} {next : NextCall} {j : Uuid}

theorem returns_reaches {ok : World → Action → Prop}
    (h : Reaches (World.step cfg) ok (.init now) w)
    (orderly : ∀ w a, ok w a → oneAfterAnother w a) : w.Returns := by
  induction h with
  | refl => exact fun _ _ hp => absurd hp (by simp [World.init])
  | tail h may step inv =>
    have after := h.tail may step
    exact returns_step (numbered_reaches h) (fun _ _ => shaped_reaches h)
      (fun _ _ => shaped_reaches after) (consistent_reaches after orderly) step inv

theorem follows_reaches (h : Reaches (World.step cfg) (resumable next j) (.init now) w) :
    ∀ (p : Nat) (proc : Proc), w.procs[p]? = some proc → proc.loc.runId = j →
      proc.Follows next :=
  h.invariant (fun _ _ hp => absurd hp (by simp [World.init]))
    fun _ _ _ reached inv ok step =>
      follows_step (fun _ _ => shaped_reaches reached) step ok.2 inv

/-- Call by call, two attempts of a run are one trajectory. -/
theorem calls_agree (h : Reaches (World.step cfg) (resumable next j) (.init now) w) {p q : Nat}
    {proc other : Proc} (hp : w.procs[p]? = some proc) (hq : w.procs[q]? = some other)
    (mine : proc.loc.runId = j) (run : other.loc.runId = proc.loc.runId) (c : Nat) :
    ∀ rec rec', proc.calls[c]? = some rec → other.calls[c]? = some rec' →
      rec.call = rec'.call ∧ rec.tasks.map (·.key) = rec'.tasks.map (·.key) ∧
      ∀ values values', rec.returned = some values → rec'.returned = some values' →
        values = values' := by
  have inv := consistent_reaches h fun _ _ ok => ok.1
  have returns := returns_reaches h fun _ _ ok => ok.1
  have input : w.GoesBy fun run => (run.workflow, run.input) :=
    goesBy_reaches (fun _ _ _ _ _ _ _ _ _ => rfl) (fun _ _ => rfl) h
  induction c using Nat.strong_induction_on with
  | _ c ih =>
    intro rec rec' hrec hrec'
    obtain ⟨ctx, values, hctx, told, determined⟩ := follows_reaches h p proc hp mine c rec hrec
    obtain ⟨ctx', values', hctx', told', determined'⟩ :=
      follows_reaches h q other hq (run.trans mine) c rec' hrec'
    -- what both were told before the call is the same, so the function makes the same call
    have earlier : values = values' := by
      refine Gathered.mapM_agree ?_ (fun i r r' hr hr' v v' is is' => ?_) told told'
      · rw [List.length_take_of_le (List.getElem?_eq_some_iff.mp hrec).1.le,
          List.length_take_of_le (List.getElem?_eq_some_iff.mp hrec').1.le]
      · rw [List.getElem?_take] at hr hr'
        split at hr
        · next lt =>
          rw [if_pos lt] at hr'
          exact (ih i lt r r' hr hr').2.2 v v' is is'
        · cases hr
    have call : rec.call = rec'.call := by
      obtain ⟨name, arg⟩ := input_agrees input hp hq run hctx hctx'
      rw [name, arg, ← earlier, determined] at determined'
      exact Option.some.inj determined'
    have keys := keys_agree (positioned_reaches h hp) (positioned_reaches h hq)
      (fun i le r r' hr hr' => by
        rcases Nat.lt_or_eq_of_le le with lt | rfl
        · exact (ih i lt r r' hr hr').1
        · obtain rfl := Option.some.inj (hr.symm.trans hrec)
          obtain rfl := Option.some.inj (hr'.symm.trans hrec')
          exact call) hrec hrec'
    exact ⟨call, keys, fun v v' is is' =>
      values_agree inv returns hp hq run hrec hrec' call keys is is'⟩

/-- The calls an attempt has been told of are the first ones it made. -/
theorem entries_get {proc : Proc} (follows : proc.Follows next) {i : Nat}
    {entries : List (String × Value)}
    (at_ : (proc.calls.filterMap CallRecord.entries)[i]? = some entries) :
    ∃ rec, proc.calls[i]? = some rec ∧ rec.entries = some entries := by
  refine Gathered.filterMap_get (List.pairwise_iff_getElem.mpr fun i j bi bj lt => ?_) at_
  obtain ⟨-, values, -, told, -⟩ := follows j _ (List.getElem?_eq_getElem bj)
  have there : (proc.calls.take j)[i]? = some proc.calls[i] := by
    rw [List.getElem?_take_of_lt lt, List.getElem?_eq_getElem bi]
  obtain ⟨told, -, returned⟩ := (Gathered.mapM_get told).2 i _ there
  rw [CallRecord.entries, returned]
  rfl

/-- Replay reproduces the trajectory: of what two attempts of a run of a deterministic workflow
are told, in any sequence of attempts cut by crashes, one continues the other. -/
theorem trajectories_agree (h : Reaches (World.step cfg) (resumable next j) (.init now) w)
    {p q : Nat} {proc other : Proc} (hp : w.procs[p]? = some proc)
    (hq : w.procs[q]? = some other) (mine : proc.loc.runId = j) (mine' : other.loc.runId = j) :
    proc.trajectory <+: other.trajectory ∨ other.trajectory <+: proc.trajectory := by
  refine (comparable_of_agree fun i entries entries' at_ at' => ?_).imp
    List.IsPrefix.flatten List.IsPrefix.flatten
  obtain ⟨rec, hrec, is⟩ := entries_get (follows_reaches h p proc hp mine) at_
  obtain ⟨rec', hrec', is'⟩ := entries_get (follows_reaches h q other hq mine') at'
  obtain ⟨-, keys, told⟩ :=
    calls_agree h hp hq mine (mine'.trans mine.symm) i rec rec' hrec hrec'
  obtain ⟨values, returned, rfl⟩ := Option.map_eq_some_iff.mp is
  obtain ⟨values', returned', rfl⟩ := Option.map_eq_some_iff.mp is'
  rw [keys, told values values' returned returned']

namespace Sample

/-- A workflow of two calls of the same step. -/
def callsTwice : NextCall := fun _ _ told =>
  if told.length < 2 then some (.step "x" .atLeastOnce false none) else none

/-- The call is the one this workflow makes. -/
def isPlainStep : Call → Bool
  | .step name .atLeastOnce false none => name = "x"
  | _ => false

/-- The workflow makes its calls when the earlier ones have returned. -/
def scripted (w : World) : Action → Bool
  | .call p caller role c => caller = none && role = .workflow && isPlainStep c &&
      w.procs[p]?.all fun proc =>
        (proc.calls.mapM CallRecord.returned).any fun told => told.length < 2
  | _ => true

def inScript (w : World) (a : Action) : Prop := oneAfterAnother w a ∧ scripted w a = true

instance (w : World) (a : Action) : Decidable (inScript w a) :=
  inferInstanceAs (Decidable (_ ∧ _))

/-- An attempt that crashes when its first step has returned, and the next one: it finds the
step in the log and executes another. -/
def overtaking : List Action :=
  opening ++ [calls 0 "x" .atLeastOnce] ++ advance 0 0 7 ++ [.task 0 0 0 (.value (.int 7))] ++
    advance 0 0 4 ++ [.stop 0, .tick 31000000, .claim "b" []] ++ proceed 1 8 ++
    [calls 1 "x" .atLeastOnce] ++ advance 1 0 2 ++ [calls 1 "x" .atLeastOnce] ++ advance 1 1 7 ++
    [.task 1 1 0 (.value (.int 8))] ++ advance 1 1 4

/-- The keys the attempts of the run have been told of. -/
def toldOf (w : World) : List (Uuid × List String) :=
  w.procs.map fun proc => (proc.loc.runId, proc.trajectory.map (·.1))

end Sample

theorem inScript_resumes {w : World} {a : Action} (ok : Sample.inScript w a) :
    resumable Sample.callsTwice Sample.runId w a := by
  obtain ⟨orderly, script⟩ := ok
  refine ⟨orderly, ?_⟩
  cases a with
  | call p caller role c =>
    simp only [Sample.scripted, Bool.and_eq_true, decide_eq_true_eq] at script
    obtain ⟨⟨⟨top, workflow⟩, plain⟩, told⟩ := script
    refine fun proc hp _ => ⟨top, workflow, fun ctx _ => ?_⟩
    have hp : w.procs[p]? = some proc := hp
    rw [hp] at told
    obtain ⟨values, returned, few⟩ := (Option.any_eq_true _ _).mp told
    refine ⟨values, returned, ?_⟩
    have is : c = .step "x" .atLeastOnce false none := by
      unfold Sample.isPlainStep at plain
      split at plain
      · rw [of_decide_eq_true plain]
      · cases plain
    rw [Sample.callsTwice, if_pos (of_decide_eq_true few), is]
  | _ => trivial

theorem trajectories_agree_overtaking : ∃ (w : World) (proc other : Proc),
    w.procs[0]? = some proc ∧ w.procs[1]? = some other ∧
    proc.trajectory.map (·.1) = ["x#1"] ∧ other.trajectory.map (·.1) = ["x#1", "x#2"] ∧
    proc.trajectory <+: other.trajectory := by
  obtain ⟨w, ran, told⟩ := run_exists (World.step Sample.cfg) Sample.inScript (.init 0)
    Sample.overtaking (fun w => Sample.toldOf w =
      [(Sample.runId, ["x#1"]), (Sample.runId, ["x#1", "x#2"])]) (by decide +kernel)
  have two : w.procs.length = 2 := by
    rw [← List.length_map, ← Sample.toldOf, told]
    rfl
  obtain ⟨proc, other, procs⟩ := List.length_eq_two.mp two
  rw [Sample.toldOf, procs] at told
  simp only [List.map_cons, List.map_nil, List.cons.injEq, Prod.mk.injEq, and_true] at told
  obtain ⟨⟨run, keys⟩, run', keys'⟩ := told
  have hp : w.procs[0]? = some proc := by rw [procs]; rfl
  have hq : w.procs[1]? = some other := by rw [procs]; rfl
  refine ⟨w, proc, other, hp, hq, keys, keys', ?_⟩
  rcases trajectories_agree ((run_reaches ran).weaken fun _ _ ok => inScript_resumes ok) hp hq
    run run' with is | is
  · exact is
  · have short := (is.map (·.1)).length_le
    rw [keys, keys'] at short
    exact absurd short (by decide)

end AnchorRuntime
