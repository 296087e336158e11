import AnchorRuntime.Durable
import AnchorRuntime.Readback

/-!
# Durable execution of plain values

An attempt that executes a step is told what the body returned; a later one is told what comes back
of it from the log. Where user code hands over values that come back as they were, the two are the
same, and every attempt is told a beginning of one journal: the one that is read.

Results: `toldFrom_reread`, every attempt has its values from what is read back of the log;
`durable_execution`, the result of a completed run is what its program returns on the journal that
is read.
-/

namespace AnchorRuntime

open Effect Relational Machine ShapeLemmas ProcLemmas TaskLemmas BreachLemmas FanOutLemmas
  TerminalLemmas TrajectoryLemmas DurableLemmas InvocationLemmas

/-! ## Plain values -/

/-- The result that user code answers with. -/
def Answer.result : Answer → Option Value
  | .value v => some v
  | .response r => some r.toDict
  | _ => none

/-- The result a step is about to record. -/
def Stage.toRecord : Stage → Option Value
  | .recovered v | .returned _ v => some v
  | _ => none

section

variable (floats : FloatText)

/-- The call makes the same of the result and of what is read back of it. -/
def Call.Rereads (c : Call) (x : Value) : Prop :=
  ∃ raw, x.readBack floats = some raw ∧ c.reply raw = c.reply x

/-- Run `j` is given plain values: its input and what its workflow returns come back as they were,
and what its steps return does as far as their calls can tell. -/
def plainly (j : Uuid) (w : World) : Action → Prop
  | .submit runId _ payload _ _ => runId = j → payload.Kept floats
  | .main p ans => ∀ proc ∈ w.procs[p]?, proc.loc.runId = j →
      ∀ v ∈ ans.result, v.Kept floats
  | .task p c _ ans => ∀ proc ∈ w.procs[p]?, proc.loc.runId = j → ∀ rec ∈ proc.calls[c]?,
      ∀ v ∈ ans.result, rec.call.Rereads floats v
  | _ => True

/-- The results in the log of a run, as a later attempt reads them. -/
def World.reread (w : World) (run : RunRecord) (key : String) : Option Value :=
  ((RunContext.init run (w.store.loadEvents run.runId)).completed key).bind (·.readBack floats)

/-- The journal that is read from the log of a run. -/
def World.readJournal (cfg : Config) (flows : Flows) (w : World) (run : RunRecord) :
    List (List Value) :=
  journalOf cfg (w.reread floats run) [] (flows run.workflow run.input)

/-- What the steps of run `j` are about to record is plain, and so is what they have recorded. -/
structure World.Plain (j : Uuid) (w : World) : Prop where
  pending : ∀ (p : Nat) (proc : Proc), w.procs[p]? = some proc → proc.loc.runId = j →
    ∀ c b rec t, proc.At c b rec t → ∀ v ∈ t.stage.toRecord, rec.call.Rereads floats v
  recorded : ∀ key x, w.Recorded j key x → ∃ (p : Nat) (proc : Proc) (c b : Nat) (rec : CallRecord)
    (t : Task), w.procs[p]? = some proc ∧ proc.loc.runId = j ∧ proc.At c b rec t ∧ t.key = key ∧
      rec.call.Rereads floats x

/-- The row of run `j` holds plain values, and so does what its attempts are about to write. -/
structure World.PlainRow (j : Uuid) (w : World) : Prop where
  input : ∀ run, w.store.getRun j = some run → run.input.Kept floats
  result : ∀ status v error, w.store.standing j = some (status, v, error) → v.Kept floats
  ends : ∀ (p : Nat) (proc : Proc), w.procs[p]? = some proc → proc.loc.runId = j →
    proc.phase.Earns (·.Kept floats)

end

namespace RereadingLemmas

variable {cfg : Config} {flows : Flows} {next : NextCall} {floats : FloatText} {j : Uuid}
  {now : Int} {w w' : World} {a : Action}

/-! ## Results of steps -/

/-- Only an answer of user code is about to be recorded. -/
theorem pending_next {s : StepSetup} {stage : Stage} {o : Op} {r : Ans o} {st st' : Store}
    {loc loc' : Local} {ans : Answer} {v : Value} (may : s.allowed stage o)
    (run : exec cfg now st loc ans o = some (r, st', loc'))
    (is : (s.next stage o r).toRecord = some v) : ans.result = some v := by
  have answered : ∀ {u : UserCall} {v : Value},
      exec cfg now st loc ans (.leave u) = some (.ok v, st', loc') → ans.result = some v := by
    intro u v run
    rcases EscalationLemmas.leave_answer run with rfl | ⟨response, rfl, rfl⟩ <;> rfl
  have moves := StepSetup.moves may r
  generalize s.next stage o r = stage' at moves is
  cases moves <;> first
    | cases is; done
    | (cases is; exact answered run)

/-- What is recorded was about to be. -/
theorem pending_allowed {s : StepSetup} {stage : Stage} {key : Option String} {x : Value}
    {by_ : CompletedBy} (may : s.allowed stage (.appendEvent key (.stepCompleted x by_))) :
    stage.toRecord = some x := by
  have moves := StepSetup.moves may (.ok none)
  generalize s.next stage (.appendEvent key (.stepCompleted x by_)) (.ok none) = stage' at moves
  cases moves with
  | resolve | complete => rfl
  | invoked _ _ trailing | called _ trailing => exact trailing.elim
  | raise _ failed => cases failed

theorem plain_step (numbered : w.store.Numbered)
    (shaped : ∀ (p : Nat) (proc : Proc), w.procs[p]? = some proc → proc.Shaped cfg)
    (h : w.step cfg a = some w') (plain : plainly floats j w a) (inv : w.Plain floats j) :
    w'.Plain floats j := by
  refine ⟨fun q proc' hq mine c b rec' t' at' v pending => ?_, fun key x recorded => ?_⟩
  · cases task_cases shaped h hq at' with
    | same hp at_ same sameKey =>
      rw [same.call]
      exact inv.pending q _ hp (sameKey.runId.symm.trans mine) c b _ _ at_ v pending
    | moved is hp alive at_ same prog run may =>
      subst is
      rw [same.call]
      have own := (exec_ctx run).1.symm.trans mine
      exact plain _ hp own _ at_.1 v (pending_next may run pending)
    | called => cases pending
  · have persists : (∃ (p : Nat) (proc : Proc) (c b : Nat) (rec : CallRecord) (t : Task),
        w.procs[p]? = some proc ∧ proc.loc.runId = j ∧ proc.At c b rec t ∧ t.key = key ∧
        rec.call.Rereads floats x) → ∃ (p : Nat) (proc : Proc) (c b : Nat) (rec : CallRecord)
        (t : Task), w'.procs[p]? = some proc ∧ proc.loc.runId = j ∧ proc.At c b rec t ∧
        t.key = key ∧ rec.call.Rereads floats x := by
      rintro ⟨p, proc, c, b, rec, t, hp, mine, at_, same, reads⟩
      obtain ⟨proc', rec', t', hp', run, at', call, key', -⟩ := task_persists h hp at_
      exact ⟨p, proc', c, b, rec', t', hp', run.trans mine, at', key'.trans same,
        call.call ▸ reads⟩
    apply persists
    obtain ⟨e, mem, same, by_, payload⟩ := recorded
    obtain ⟨es, log, new⟩ := log_step numbered shaped h j
    rw [log] at mem
    rcases List.mem_append.mp mem with old | mem
    · exact inv.recorded key x ⟨e, old, same, by_, payload⟩
    · rcases new with quiet | ⟨e', key', rfl, same', writes⟩
      · exact absurd ⟨same, by rw [payload]; rfl⟩ (quiet e mem key)
      · obtain rfl := List.mem_singleton.mp mem
        obtain rfl := Option.some.inj (same.symm.trans same')
        rw [payload] at writes
        obtain @⟨p, c, b, _, proc, rec, t, _, hp, -, at_, own, mine, may⟩ := writes
        exact ⟨p, proc, c, b, rec, t, hp, mine, at_, own,
          inv.pending p proc hp mine c b rec t at_ x (pending_allowed may)⟩

theorem plain_reaches {ok : World → Action → Prop}
    (h : Reaches (World.step cfg) (fun w a => ok w a ∧ plainly floats j w a) (.init now) w) :
    w.Plain floats j :=
  h.invariant ⟨fun _ _ hp => absurd hp (by simp [World.init]),
      fun _ _ recorded => absurd recorded.choose_spec.1 List.not_mem_nil⟩
    fun _ _ _ reached inv ok step =>
      plain_step (numbered_reaches reached) (fun _ _ => shaped_reaches reached) step ok.2 inv

/-- In the attempts of a deterministic workflow a key belongs to one call. -/
theorem same_call (h : Reaches (World.step cfg) (resumable next j) (.init now) w)
    {p q c c' b b' : Nat} {proc other : Proc} {rec rec' : CallRecord} {t t' : Task}
    (hp : w.procs[p]? = some proc) (hq : w.procs[q]? = some other)
    (mine : proc.loc.runId = j) (mine' : other.loc.runId = j)
    (at_ : proc.At c b rec t) (at' : other.At c' b' rec' t') (key : t.key = t'.key) :
    rec.call = rec'.call := by
  wlog le : c ≤ c' generalizing p q c c' b b' proc other rec rec' t t'
  · exact (this hq hp mine' mine at' at_ key.symm (Nat.le_of_not_le le)).symm
  have bound := Nat.lt_of_le_of_lt le (List.getElem?_eq_some_iff.mp at'.1).1
  have there := List.getElem?_eq_getElem bound
  obtain ⟨call, keys, -⟩ := calls_agree h hp hq mine (mine'.trans mine.symm) c _ _ at_.1 there
  have branch := congrArg (·[b]?) keys
  simp only [List.getElem?_map, at_.2, Option.map_some] at branch
  obtain ⟨t₁, ht₁, key₁⟩ := Option.map_eq_some_iff.mp branch.symm
  obtain ⟨rfl, -⟩ := at_key_inj (shaped_reaches h hq).nodup ⟨there, ht₁⟩ at' (key₁.trans key)
  obtain rfl := Option.some.inj (there.symm.trans at'.1)
  exact call

/-- Every attempt has its values from what is read back of the log. -/
theorem toldFrom_reread
    (h : Reaches (World.step cfg) (fun w a => resumable next j w a ∧ plainly floats j w a)
      (.init now) w)
    {p : Nat} {proc : Proc} {run : RunRecord} (hp : w.procs[p]? = some proc)
    (mine : proc.loc.runId = j) (hrun : w.store.getRun j = some run) :
    proc.ToldFrom (w.reread floats run) := by
  have reached := h.weaken fun _ _ ok => ok.1
  have inv := consistent_reaches reached fun _ _ ok => ok.1
  intro c b rec t v at_ ends
  obtain ⟨x, recorded, reply⟩ := returns_reaches reached (fun _ _ ok => ok.1) p proc hp c b rec t
    at_ v ends
  rw [mine] at recorded
  obtain ⟨q, other, c', b', rec', t', hq, mine', at', key, raw, back, same⟩ :=
    (plain_reaches h).recorded t.key x recorded
  have call := same_call reached hp hq mine mine' at_ at' key.symm
  refine ⟨raw, Option.bind_eq_some_iff.mpr ⟨x, ?_, back⟩, ?_⟩
  · rw [Table.find_some_key hrun]
    exact (init_recorded inv run).mpr recorded
  · rw [call, same, ← call]
    exact reply

/-! ## The row -/

theorem kept_none : Value.none.Kept floats := rfl

theorem plainRow_step
    (shaped : ∀ (p : Nat) (proc : Proc), w.procs[p]? = some proc → proc.Shaped cfg)
    (h : w.step cfg a = some w') (plain : plainly floats j w a) (inv : w.PlainRow floats j) :
    w'.PlainRow floats j := by
  refine ⟨fun run hrun => ?_, fun status v error row => ?_, fun q proc' hq mine => ?_⟩
  · rcases step_field (g := (·.input)) (fun _ _ _ _ _ _ _ _ _ => rfl) (fun _ _ => rfl) h j with
      same | ⟨-, workflow, payload, key, budget, new, rfl, is, input⟩
    · rw [hrun] at same
      obtain ⟨old, hold, is⟩ := Option.map_eq_some_iff.mp same.symm
      have is : old.input = run.input := is
      exact is ▸ inv.input old hold
    · obtain rfl := Option.some.inj (is.symm.trans hrun)
      exact input ▸ plain rfl
  · rcases standing_cases shaped h j with
      same | ⟨-, new⟩ | ⟨p, ans, proc, status', result, error', loc, rfl, acts, own, new⟩
    · exact inv.result status v error (same.symm.trans row)
    · cases new.symm.trans row
      exact kept_none
    · rw [new] at row
      obtain ⟨⟨was, u, e⟩, before, stored⟩ := Option.map_eq_some_iff.mp row
      cases stored
      have written : result.Kept floats := by
        rcases setStatus_phase acts.may with ⟨-, -, rfl⟩ | phase
        · exact kept_none
        · have earned := inv.ends p proc acts.hp own
          rw [phase] at earned
          cases status with
          | completed => exact earned
          | _ => exact (show result = .none from earned) ▸ kept_none
      show (if result.isNone then u else result).Kept floats
      split
      · exact inv.result was u e before
      · exact written
  · cases attempt_cases shaped h hq with
    | same old | beat _ _ old | refused _ old | call _ old | stop _ old =>
      have before := inv.ends q _ old mine
      exact before
    | fresh _ start =>
      rw [start]
      trivial
    | task _ acts =>
      have before := inv.ends q _ acts.hp ((exec_ctx acts.run).1.symm.trans mine)
      exact before
    | main is acts =>
      subst is
      have own := (exec_ctx acts.run).1.symm.trans mine
      refine earns_next acts.may (fun v inside next => ?_) (inv.ends q _ acts.hp own)
      obtain rfl := leave_value acts.may acts.run inside next
      exact plain _ acts.hp own v rfl

theorem plainRow_reaches {ok : World → Action → Prop}
    (h : Reaches (World.step cfg) (fun w a => ok w a ∧ plainly floats j w a) (.init now) w) :
    w.PlainRow floats j :=
  h.invariant
    { input := fun _ none => absurd none (by simp [World.init, Store.getRun, Store.empty])
      result := fun _ _ _ none => by cases none
      ends := fun _ _ hp => absurd hp (by simp [World.init]) }
    fun _ _ _ reached inv ok step => plainRow_step (fun _ _ => shaped_reaches reached) step ok.2 inv

end RereadingLemmas

open RereadingLemmas

section

variable {cfg : Config} {flows : Flows} {floats : FloatText} {j : Uuid} {now : Int} {w : World}

/-- Every attempt is told a beginning of the journal that is read. -/
theorem told_reread
    (h : Reaches (World.step cfg) (fun w a => executing flows j w a ∧ plainly floats j w a)
      (.init now) w) {p : Nat} {proc : Proc} {run : RunRecord} (hp : w.procs[p]? = some proc)
    (mine : proc.loc.runId = j) (hrun : w.store.getRun j = some run) :
    proc.told <+: w.readJournal floats cfg flows run :=
  told_answers (h.weaken fun _ _ ok => ok.1) hp mine hrun
    (toldFrom_reread (h.weaken fun _ _ ok => ⟨ok.1.1, ok.2⟩) hp mine hrun)

/-- The result of a completed run is what its program returns on the journal that is read, and what
the row holds comes back as it was. -/
theorem reread_returns
    (h : Reaches (World.step cfg) (fun w a => executing flows j w a ∧ plainly floats j w a)
      (.init now) w) {run : RunRecord} (hrun : w.store.getRun j = some run) :
    (run.status = .completed → ∃ report,
      (flows run.workflow run.input).feed (w.readJournal floats cfg flows run) =
        some (.ret report) ∧
      ∃ executed replayed, run.result = report executed replayed) ∧
    run.input.Kept floats ∧ run.result.Kept floats := by
  have reached := h.weaken fun _ _ ok => ok.1
  have row : w.store.standing j = some (run.status, run.result, run.error) := by
    rw [Store.standing, hrun]
    rfl
  have plain := plainRow_reaches h
  refine ⟨fun completed => ?_, plain.input run hrun, plain.result _ _ _ row⟩
  have answers := answers_reaches reached _ _ _ row
  rw [if_pos completed] at answers
  obtain ⟨p, proc, hp, mine, done⟩ := answers
  exact (finished_answers reached hp mine done hrun
    (toldFrom_reread (h.weaken fun _ _ ok => ⟨ok.1.1, ok.2⟩) hp mine hrun)).2

/-- Running a workflow of plain values durably is running it once: however often the processes of
its attempts crash, every attempt is told a beginning of the journal that is read from the log, and
the result of the completed run is what the program returns when it is fed the journal, up to the
counters it shows. What the row holds comes back as it was. -/
theorem durable_execution
    (h : Reaches (World.step cfg) (fun w a => executing flows j w a ∧ plainly floats j w a)
      (.init now) w) {run : RunRecord} (hrun : w.store.getRun j = some run) :
    (∀ proc ∈ w.procs, proc.loc.runId = j →
      proc.told <+: w.readJournal floats cfg flows run) ∧
    (run.status = .completed → ∃ report,
      (flows run.workflow run.input).feed (w.readJournal floats cfg flows run) =
        some (.ret report) ∧
      ∃ executed replayed, run.result = report executed replayed) ∧
    run.input.Kept floats ∧ run.result.Kept floats := by
  refine ⟨fun proc mem mine => ?_, reread_returns h hrun⟩
  obtain ⟨p, hp⟩ := List.mem_iff_getElem?.mp mem
  exact told_reread h hp mine hrun

end

namespace Sample

/-- Floats that are whole and small are all that is written here. -/
def floats : FloatText where
  repr q := toString q.num ++ ".0"
  number q := q
  plain q := by
    have point : verbatim ".0" = true := by decide
    rw [TextLemmas.verbatim_append, TextLemmas.toString_verbatim, point]
    rfl

/-- What user code hands over comes back as it was. -/
def plain : Action → Bool
  | .submit _ _ payload _ _ => payload.Kept floats
  | .main _ ans | .task _ _ _ ans => match ans with
    | .value v => v.Kept floats
    | .response _ => false
    | _ => true
  | _ => true

def inPlain (w : World) (a : Action) : Prop := inProgram w a ∧ plain a = true

instance (w : World) (a : Action) : Decidable (inPlain w a) :=
  inferInstanceAs (Decidable (_ ∧ _))

end Sample

theorem plain_plainly {w : World} {a : Action} (ok : Sample.plain a = true) :
    plainly Sample.floats Sample.runId w a := by
  have kept : ∀ {ans : Answer} {v : Value}, (match ans with
      | .value v => decide (v.Kept Sample.floats)
      | .response _ => false
      | _ => true) = true → ans.result = some v → v.Kept Sample.floats := by
    intro ans v ok is
    cases ans with
    | value u =>
      cases is
      exact of_decide_eq_true ok
    | response => cases ok
    | done | raise => cases is
  cases a with
  | submit => exact fun _ => of_decide_eq_true ok
  | main => exact fun _ _ _ v is => kept ok is
  | task => exact fun _ _ _ _ _ v is => ⟨v, kept ok is, rfl⟩
  | _ => trivial

theorem durable_execution_resumed : ∃ (w : World) (run : RunRecord),
    w.store.getRun Sample.runId = some run ∧
    run.status = .completed ∧ w.procs.length = 2 ∧
    (∀ proc ∈ w.procs, proc.loc.runId = Sample.runId →
      proc.told <+: w.readJournal Sample.floats Sample.cfg Sample.addsUp run) ∧
    (∃ report, (Sample.addsUp run.workflow run.input).feed
        (w.readJournal Sample.floats Sample.cfg Sample.addsUp run) = some (.ret report) ∧
      ∃ executed replayed, run.result = report executed replayed) ∧
    run.result.Kept Sample.floats := by
  obtain ⟨w, ran, status, two⟩ := run_exists (World.step Sample.cfg) Sample.inPlain (.init 0)
    (Sample.overtaking ++ Sample.summedUp) (fun w =>
      (w.store.getRun Sample.runId).map (·.status) = some .completed ∧ w.procs.length = 2)
    (by decide +kernel)
  obtain ⟨run, hrun, completed⟩ := Option.map_eq_some_iff.mp status
  have durable := durable_execution
    ((run_reaches ran).weaken fun _ _ ok => ⟨inProgram_executing ok.1, plain_plainly ok.2⟩) hrun
  exact ⟨w, run, hrun, completed, two, durable.1, durable.2.1 completed, durable.2.2.2⟩

end AnchorRuntime
