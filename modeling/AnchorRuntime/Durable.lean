import AnchorRuntime.Trajectory
import AnchorRuntime.Terminal
import AnchorRuntime.Lib.Journal

/-!
# Durable execution

What the runtime is for: a workflow is a program over its calls, and running it durably is running
it once, however often its process crashes. The program is fed the journal that the log of its
run amounts to: the answers to its first calls, up to the one that has no answer yet. Attempts
come and go, the journal only grows, and every attempt is told a beginning of it.

Results: `told_journal`, what an attempt has been told; `journal_grows`; `completed_returns`, the
result of a completed run is what its program returns on the journal.
-/

namespace AnchorRuntime

open Effect Relational Machine Occurrences ShapeLemmas ProcLemmas TaskLemmas BreachLemmas
  FanOutLemmas PositionLemmas SequentialLemmas TerminalLemmas TrajectoryLemmas

/-! ## Workflows as programs -/

/-- What a workflow returns: a value that may show the counters `executed_steps` and
`replayed_steps` of its attempt. -/
abbrev Report := (executed replayed : Nat) → Value

/-- A workflow that does not catch what its calls raise: a program over its calls, each answered
with one value for each of its keys. -/
abbrev Flow := Prog (fun _ : Call => List Value) Exn Report

/-- The workflow functions by name, applied to their input. -/
abbrev Flows := String → Value → Flow

/-- The call a workflow makes next, from what its calls have returned. -/
def Flows.nextCall (flows : Flows) : NextCall := fun name input told =>
  ((flows name input).feed told).bind Prog.next

/-- The workflow of the attempt has returned: every call it made has, and with these answers its
program ends in the value, for some counters. -/
def Proc.Finished (flows : Flows) (proc : Proc) (v : Value) : Prop :=
  ∃ ctx values report, proc.loc.ctx = some ctx ∧
    proc.calls.mapM CallRecord.returned = some values ∧
    (flows ctx.run.workflow ctx.run.input).feed values = some (.ret report) ∧
    ∃ executed replayed, v = report executed replayed

/-- In the attempts of run `j` the workflow function returns what its program returns. What it
raises, and when, is not restricted. -/
def programmed (flows : Flows) (j : Uuid) (w : World) : Action → Prop
  | .main p (.value v) => ∀ proc ∈ w.procs[p]?, proc.loc.runId = j → proc.Finished flows v
  | _ => True

/-- Attempts follow one another, and those of run `j` execute its program. -/
def executing (flows : Flows) (j : Uuid) (w : World) (a : Action) : Prop :=
  resumable flows.nextCall j w a ∧ programmed flows j w a

/-! ## The journal of a run -/

/-- What the log answers to a call: the result of each of its keys, numbered on from the names
that calls have asked for before. None while a result is missing. -/
def Call.answer (cfg : Config) (completed : String → Option Value) (before : List String)
    (c : Call) : Option (List Value) := do
  let names ← (c.names cfg).toOption
  ((ranked before names).map keyOf).mapM fun key => do
    let result ← completed key
    (c.reply result).toOption

/-- The answers to the calls of a program, up to the first one that has none. -/
def journalOf (cfg : Config) (completed : String → Option Value) :
    List String → Flow → List (List Value)
  | before, .step c k =>
    match c.answer cfg completed before with
    | some values => values :: journalOf cfg completed (before ++ c.allocates cfg) (k values)
    | none => []
  | _, .ret _ | _, .raise _ => []

/-- The journal that the log of a run amounts to. -/
def World.journal (cfg : Config) (flows : Flows) (w : World) (run : RunRecord) :
    List (List Value) :=
  journalOf cfg (RunContext.init run (w.store.loadEvents run.runId)).completed []
    (flows run.workflow run.input)

/-- What the workflow of the attempt has been told, call by call. -/
def Proc.told (proc : Proc) : List (List Value) := proc.calls.filterMap CallRecord.returned

/-- The steps of the attempt that have returned have their values from these results. -/
def Proc.ToldFrom (completed : String → Option Value) (proc : Proc) : Prop :=
  ∀ c b rec t v, proc.At c b rec t → t.prog.ending = some (.ok v) →
    ∃ x, completed t.key = some x ∧ rec.call.reply x = .ok v

namespace DurableLemmas

variable {cfg : Config} {flows : Flows} {j : Uuid} {now : Int} {w w' : World} {a : Action}
  {completed completed' : String → Option Value} {before : List String} {program : Flow}

/-! ## Answers and journals -/

theorem answer_mono {c : Call} {values : List Value}
    (more : ∀ key x, completed key = some x → completed' key = some x)
    (h : c.answer cfg completed before = some values) :
    c.answer cfg completed' before = some values := by
  obtain ⟨names, named, answered⟩ := Option.bind_eq_some_iff.mp h
  refine Option.bind_eq_some_iff.mpr ⟨names, named, ?_⟩
  obtain ⟨length, each⟩ := Gathered.mapM_get answered
  refine Gathered.mapM_of_get length fun i key v hkey hv => ?_
  obtain ⟨v', hv', told⟩ := each i key hkey
  obtain rfl := Option.some.inj (hv.symm.trans hv')
  obtain ⟨x, known, reply⟩ := Option.bind_eq_some_iff.mp told
  exact Option.bind_eq_some_iff.mpr ⟨x, more key x known, reply⟩

/-- More results, a longer journal. -/
theorem journalOf_mono (more : ∀ key x, completed key = some x → completed' key = some x)
    (before : List String) (program : Flow) :
    journalOf cfg completed before program <+: journalOf cfg completed' before program := by
  induction program generalizing before with
  | ret | raise => exact List.nil_prefix
  | step c k ih =>
    cases answered : c.answer cfg completed before with
    | none => simp only [journalOf, answered, List.nil_prefix]
    | some values =>
      simp only [journalOf, answered, answer_mono more answered]
      exact List.cons_prefix_cons.mpr ⟨rfl, ih values _⟩

/-- A program can be fed its journal. -/
theorem journalOf_fed (before : List String) (program : Flow) :
    ∃ rest, program.feed (journalOf cfg completed before program) = some rest := by
  induction program generalizing before with
  | ret | raise => exact ⟨_, rfl⟩
  | step c k ih =>
    cases answered : c.answer cfg completed before with
    | none => exact ⟨.step c k, by simp only [journalOf, answered, Prog.feed_nil]⟩
    | some values =>
      simp only [journalOf, answered, Prog.feed_step]
      exact ih values _

theorem journal_fed (cfg : Config) (flows : Flows) (w : World) (run : RunRecord) :
    ∃ rest, (flows run.workflow run.input).feed (w.journal cfg flows run) = some rest :=
  journalOf_fed _ _

/-- Calls that the program makes and the log answers are at the beginning of the journal. -/
theorem answered_journal {calls : List Call} {told : List (List Value)}
    (length : told.length = calls.length)
    (made : ∀ (i : Nat) (c : Call), calls[i]? = some c →
      (program.feed (told.take i)).bind Prog.next = some c)
    (answered : ∀ (i : Nat) (c : Call) (values : List Value), calls[i]? = some c →
      told[i]? = some values → c.answer cfg completed
        (before ++ ((calls.take i).map (·.allocates cfg)).flatten) = some values) :
    told <+: journalOf cfg completed before program := by
  induction calls generalizing told before program with
  | nil =>
    obtain rfl := List.eq_nil_of_length_eq_zero length
    exact List.nil_prefix
  | cons c calls ih =>
    cases told with
    | nil => cases length
    | cons values told =>
      have first := made 0 c rfl
      cases program with
      | ret | raise => cases first
      | step c' k =>
        obtain rfl := Option.some.inj first
        have here := answered 0 _ values rfl rfl
        simp only [List.take_zero, List.map_nil, List.flatten_nil, List.append_nil] at here
        rw [journalOf, here]
        refine List.cons_prefix_cons.mpr ⟨rfl, ih (Nat.succ.inj length)
          (fun i c hc => made (i + 1) c hc) fun i c vs hc hvs => ?_⟩
        rw [List.append_assoc]
        exact answered (i + 1) c vs hc hvs

/-! ## What the log answers -/

/-- The replay state of a run knows the results in its log, and no others. -/
theorem init_recorded (inv : w.Consistent cfg) (run : RunRecord) {key : String} {x : Value} :
    (RunContext.init run (w.store.loadEvents j)).completed key = some x ↔ w.Recorded j key x := by
  constructor
  · intro known
    obtain ⟨life, hlife⟩ := inv.lives j key
    have synced := init_synced run hlife
    cases life with
    | fresh | failed | opened => cases synced.1.symm.trans known
    | done y =>
      obtain rfl := Option.some.inj (Eq.trans (Eq.symm synced) known)
      exact CompletionLemmas.done_recorded hlife
  · intro recorded
    exact init_synced run (life_of_recorded inv recorded)

/-- A call that was not refused has its names. -/
theorem names_kept : Kept cfg fun proc => ∀ rec ∈ proc.calls, rec.refused = none →
    ∃ names, rec.call.names cfg = .ok names where
  claimed _ _ := by simp [Proc.claimed]
  executed _ := by simp [Proc.executed]
  beat _ _ h := h
  main _ _ _ _ _ _ _ _ _ h _ _ := h
  task := by
    intro proc c b rec t o k r now st st' loc ans h at_ _ _ rec' mem accepted
    obtain ⟨i, hrec'⟩ := List.mem_iff_getElem?.mp mem
    rw [setTask_calls] at hrec'
    split at hrec'
    · obtain ⟨old, hold, rfl⟩ := Option.map_eq_some_iff.mp hrec'
      exact h old (List.mem_of_getElem? hold) accepted
    · exact h rec' (List.mem_of_getElem? hrec') accepted
  refused := by
    intro proc path role c exc ctx h _ _ _ rec mem accepted
    rcases List.mem_append.mp mem with old | new
    · exact h rec old accepted
    · obtain rfl := List.mem_singleton.mp new
      cases accepted
  call := by
    intro proc path role c names ctx h _ _ known rec mem accepted
    rcases List.mem_append.mp mem with old | new
    · exact h rec old accepted
    · obtain rfl := List.mem_singleton.mp new
      exact ⟨names, known⟩
  stop _ h := h

/-- The keys of a call are its names, numbered on from the calls before it. -/
theorem keys_ranked {proc : Proc} {c : Nat} {rec : CallRecord} (positioned : proc.Positioned cfg)
    (hrec : proc.calls[c]? = some rec) : rec.tasks.map (·.key) =
      (ranked ((proc.named cfg).take c).flatten (rec.call.allocates cfg)).map keyOf := by
  have keyed : proc.keyed[c]? = some (rec.tasks.map (·.key)) := by
    rw [Proc.keyed, List.getElem?_map, hrec]
    rfl
  have named : (proc.named cfg)[c]? = some (rec.call.allocates cfg) := by
    rw [Proc.named, List.getElem?_map, hrec]
    rfl
  have upTo := positioned.keys (c + 1)
  rw [List.take_add_one, keyed, List.take_add_one, named, Option.toList_some, Option.toList_some,
    List.flatten_concat, List.flatten_concat, positioned.keys c, ranked_append,
    List.map_append] at upTo
  exact List.append_cancel_left upTo

/-- Each step of a call that has returned has ended with its value. -/
theorem returned_ending {b : Nat} {rec : CallRecord} {t : Task} {values : List Value}
    (ht : rec.tasks[b]? = some t) (told : rec.returned = some values) :
    ∃ v, values[b]? = some v ∧ t.prog.ending = some (.ok v) := by
  unfold CallRecord.returned at told
  split at told
  · obtain ⟨v, hv, ending⟩ := (Gathered.mapM_get told).2 b t ht
    obtain ⟨r, ends, ok⟩ := Option.bind_eq_some_iff.mp ending
    cases r with
    | error exc => cases ok
    | ok x =>
      cases ok
      exact ⟨v, hv, ends⟩
  · cases told

/-- Every attempt has its values from the log. -/
theorem toldFrom_log {proc : Proc} {p : Nat} (inv : w.Consistent cfg) (returns : w.Returns)
    (hp : w.procs[p]? = some proc) (run : RunRecord) :
    proc.ToldFrom (RunContext.init run (w.store.loadEvents proc.loc.runId)).completed := by
  intro c b rec t v at_ ends
  obtain ⟨x, recorded, reply⟩ := returns p proc hp c b rec t at_ v ends
  exact ⟨x, (init_recorded inv run).mpr recorded, reply⟩

/-- What a call has returned is what these results answer to it. -/
theorem returned_answer {proc : Proc} {c : Nat} {rec : CallRecord} {values : List Value}
    (toldFrom : proc.ToldFrom completed) (positioned : proc.Positioned cfg)
    (named : ∀ rec ∈ proc.calls, rec.refused = none → ∃ names, rec.call.names cfg = .ok names)
    (hrec : proc.calls[c]? = some rec) (told : rec.returned = some values) :
    rec.call.answer cfg completed ((proc.named cfg).take c).flatten = some values := by
  have gathered := told
  unfold CallRecord.returned at gathered
  split at gathered
  · next accepted =>
    obtain ⟨names, known⟩ :=
      named rec (List.mem_of_getElem? hrec) (Option.isNone_iff_eq_none.mp accepted)
    have keys := keys_ranked positioned hrec
    have allocates : rec.call.allocates cfg = names := by
      rw [Call.allocates, known]
      rfl
    rw [allocates] at keys
    refine Option.bind_eq_some_iff.mpr ⟨names, by rw [known]; rfl, ?_⟩
    rw [← keys]
    have length := (Gathered.mapM_get gathered).1
    refine Gathered.mapM_of_get (by rw [length, List.length_map]) fun b key v hkey hv => ?_
    rw [List.getElem?_map] at hkey
    obtain ⟨t, ht, rfl⟩ := Option.map_eq_some_iff.mp hkey
    obtain ⟨v', hv', ends⟩ := returned_ending ht told
    obtain rfl := Option.some.inj (hv.symm.trans hv')
    obtain ⟨x, known, reply⟩ := toldFrom c b rec t v ⟨hrec, ht⟩ ends
    refine Option.bind_eq_some_iff.mpr ⟨x, known, ?_⟩
    rw [reply]
    rfl
  · cases gathered

/-! ## What an attempt is told -/

/-- Once its first calls have returned the workflow has been told what they have. -/
theorem told_take {proc : Proc} {c : Nat} {values : List (List Value)}
    (bound : c ≤ proc.calls.length)
    (h : (proc.calls.take c).mapM CallRecord.returned = some values) :
    proc.told.take c = values := by
  have length := (Gathered.mapM_get h).1
  rw [List.length_take_of_le bound] at length
  rw [Proc.told, ← List.take_append_drop c proc.calls, List.filterMap_append,
    Gathered.filterMap_of_mapM h, List.take_left' length]

theorem told_get {next : NextCall} {proc : Proc} (follows : proc.Follows next) {i : Nat}
    {values : List Value} (at_ : proc.told[i]? = some values) :
    ∃ rec, proc.calls[i]? = some rec ∧ rec.returned = some values := by
  refine Gathered.filterMap_get (List.pairwise_iff_getElem.mpr fun i j bi bj lt => ?_) at_
  obtain ⟨-, _, -, told, -⟩ := follows j _ (List.getElem?_eq_getElem bj)
  obtain ⟨_, -, returned⟩ := (Gathered.mapM_get told).2 i proc.calls[i]
    (by rw [List.getElem?_take_of_lt lt, List.getElem?_eq_getElem bi])
  rw [returned]
  rfl

/-- An attempt runs the workflow of its row on the input there. -/
theorem attempt_input {ok : World → Action → Prop} (h : Reaches (World.step cfg) ok (.init now) w)
    {p : Nat} {proc : Proc} {ctx : RunContext} {run : RunRecord} (hp : w.procs[p]? = some proc)
    (mine : proc.loc.runId = j) (hctx : proc.loc.ctx = some ctx)
    (hrun : w.store.getRun j = some run) :
    run.workflow = ctx.run.workflow ∧ run.input = ctx.run.input := by
  have input : w.GoesBy fun run => (run.workflow, run.input) :=
    goesBy_reaches (fun _ _ _ _ _ _ _ _ _ => rfl) (fun _ _ => rfl) h
  have same := input.ctx p proc hp ctx hctx
  rw [mine, hrun] at same
  exact Prod.mk.inj (Option.some.inj same)

end DurableLemmas

open DurableLemmas

section

variable {cfg : Config} {flows : Flows} {j : Uuid} {now : Int} {w : World}

/-- Every attempt is told a beginning of the journal of the results it has its values from. -/
theorem told_answers (h : Reaches (World.step cfg) (executing flows j) (.init now) w)
    {p : Nat} {proc : Proc} {run : RunRecord} {completed : String → Option Value}
    (hp : w.procs[p]? = some proc) (mine : proc.loc.runId = j)
    (hrun : w.store.getRun j = some run) (toldFrom : proc.ToldFrom completed) :
    proc.told <+: journalOf cfg completed [] (flows run.workflow run.input) := by
  have follows := follows_reaches (h.weaken fun _ _ ok => ok.1) p proc hp mine
  have short : proc.told.length ≤ proc.calls.length := List.length_filterMap_le _ _
  have calls : ∀ {i : Nat} {c : Call},
      ((proc.calls.take proc.told.length).map (·.call))[i]? = some c →
      ∃ rec, proc.calls[i]? = some rec ∧ rec.call = c ∧ i < proc.told.length := by
    intro i c hc
    rw [List.getElem?_map] at hc
    obtain ⟨rec, hrec, rfl⟩ := Option.map_eq_some_iff.mp hc
    rw [List.getElem?_take] at hrec
    split at hrec
    · next lt => exact ⟨rec, hrec, rfl, lt⟩
    · cases hrec
  have length : proc.told.length =
      ((proc.calls.take proc.told.length).map (·.call)).length := by
    rw [List.length_map, List.length_take_of_le short]
  refine answered_journal length ?_ ?_
  · intro i c hc
    obtain ⟨rec, hrec, rfl, lt⟩ := calls hc
    obtain ⟨ctx, values, hctx, told, determined⟩ := follows i rec hrec
    rw [told_take (List.getElem?_eq_some_iff.mp hrec).1.le told]
    obtain ⟨name, arg⟩ := attempt_input h hp mine hctx hrun
    rw [name, arg]
    exact determined
  · intro i c values hc hvalues
    obtain ⟨rec, hrec, rfl, lt⟩ := calls hc
    obtain ⟨rec', hrec', returned⟩ := told_get follows hvalues
    obtain rfl := Option.some.inj (hrec.symm.trans hrec')
    have answer := returned_answer toldFrom (positioned_reaches h hp)
      (names_kept.reaches h p proc hp) hrec returned
    have before : ((((proc.calls.take proc.told.length).map (·.call)).take i).map
        (·.allocates cfg)) = (proc.named cfg).take i := by
      rw [← List.map_take, List.take_take, Nat.min_eq_left lt.le, List.map_map, Proc.named,
        ← List.map_take]
      rfl
    rw [List.nil_append, before]
    exact answer

/-- The attempts of a run have their values from its log. -/
theorem run_toldFrom (h : Reaches (World.step cfg) (executing flows j) (.init now) w)
    {p : Nat} {proc : Proc} {run : RunRecord} (hp : w.procs[p]? = some proc)
    (mine : proc.loc.runId = j) (hrun : w.store.getRun j = some run) :
    proc.ToldFrom (RunContext.init run (w.store.loadEvents run.runId)).completed := by
  have toldFrom := toldFrom_log (consistent_reaches h fun _ _ ok => ok.1.1)
    (returns_reaches h fun _ _ ok => ok.1.1) hp run
  rw [mine, ← Table.find_some_key hrun] at toldFrom
  exact toldFrom

/-- Every attempt is told a beginning of the journal. -/
theorem told_journal (h : Reaches (World.step cfg) (executing flows j) (.init now) w)
    {p : Nat} {proc : Proc} {run : RunRecord} (hp : w.procs[p]? = some proc)
    (mine : proc.loc.runId = j) (hrun : w.store.getRun j = some run) :
    proc.told <+: w.journal cfg flows run :=
  told_answers h hp mine hrun (run_toldFrom h hp mine hrun)

/-! ## What an attempt reports -/

/-- What an attempt is about to report is earned: it reports the result its workflow has finished
with, and no result where it reports no completion. -/
def Phase.Earns (finished : Value → Prop) : Phase → Prop
  | .ended (.ok v) | .announced .completed v _ => finished v
  | .announced _ v _ => v = .none
  | _ => True

/-- The result on the row of run `j` is the one an attempt has finished with, and there is none
unless the run is completed. -/
def World.Answers (flows : Flows) (j : Uuid) (w : World) : Prop :=
  ∀ status v error, w.store.standing j = some (status, v, error) →
    if status = .completed then
      ∃ (p : Nat) (proc : Proc), w.procs[p]? = some proc ∧ proc.loc.runId = j ∧
        proc.Finished flows v
    else v = .none

namespace DurableLemmas

variable {w' : World} {a : Action}

theorem earns_mono {f g : Value → Prop} {phase : Phase} (imp : ∀ v, f v → g v)
    (h : phase.Earns f) : phase.Earns g := by
  unfold Phase.Earns at h ⊢
  split at h <;> simp_all

/-- Only the end of the workflow earns a result. -/
theorem earns_next {finished : Value → Prop} {phase : Phase} {o : Op} {r : Ans o}
    (may : phase.allowed o)
    (left : ∀ v, phase = .inside → phase.next o r = .ended (.ok v) → finished v)
    (inv : phase.Earns finished) : (phase.next o r).Earns finished := by
  have moves := Phase.moves may r
  generalize phase.next o r = phase' at moves left ⊢
  cases moves with
  | leave name input r =>
    cases r with
    | ok v => exact left v rfl rfl
    | error exc => cases exc <;> trivial
  | snapshot | stopHeartbeat | saveUsage | exceeded | completed => exact inv
  | cancelled | review | failed | unknown => rfl
  | _ => trivial

/-- The value the user code of an attempt returns with. -/
theorem leave_value {phase : Phase} {o : Op} {r : Ans o} {st st' : Store} {loc loc' : Local}
    {ans : Answer} {v : Value} (may : phase.allowed o)
    (run : exec cfg now st loc ans o = some (r, st', loc')) (inside : phase = .inside)
    (next : phase.next o r = .ended (.ok v)) : ans = .value v := by
  subst inside
  obtain ⟨name, input, rfl⟩ := may
  cases ans with
  | done | response => cases run
  | raise exc =>
    cases run
    cases exc <;> cases next
  | value u =>
    cases run
    cases next
    rfl

/-- A workflow that has returned makes no more calls, and what it was told stays. -/
theorem finished_step {p : Nat} {proc : Proc} {v : Value}
    (shaped : ∀ (p : Nat) (proc : Proc), w.procs[p]? = some proc → proc.Shaped cfg)
    (h : w.step cfg a = some w') (ok : executing flows j w a) (hp : w.procs[p]? = some proc)
    (mine : proc.loc.runId = j) (done : proc.Finished flows v) :
    ∃ proc', w'.procs[p]? = some proc' ∧ proc'.loc.runId = j ∧ proc'.Finished flows v := by
  obtain ⟨proc', hq, run, -⟩ := attempt_persists shaped h hp
  refine ⟨proc', hq, run.trans mine, ?_⟩
  obtain ⟨ctx, values, report, hctx, told, ended, shown⟩ := done
  -- the call that would come next is the one the program waits for, and it has ended
  have silent : ∀ {caller : Option (Nat × Nat)} {role : Role} {c : Call},
      a ≠ .call p caller role c := by
    rintro caller role c rfl
    obtain ⟨-, -, scripted⟩ := ok.1.2 proc hp mine
    obtain ⟨values', told', waits⟩ := scripted ctx hctx
    obtain rfl := Option.some.inj (told.symm.trans told')
    rw [Flows.nextCall, ended] at waits
    cases waits
  cases attempt_cases shaped h hq with
  | same old | beat _ _ old | stop _ old =>
    obtain rfl := Option.some.inj (hp.symm.trans old)
    exact ⟨ctx, values, report, hctx, told, ended, shown⟩
  | fresh none => cases hp.symm.trans none
  | refused is | call is => exact absurd is silent
  | @main _ _ o _ _ _ _ acts =>
    obtain rfl := Option.some.inj (hp.symm.trans acts.hp)
    have built : ∀ record events, o ≠ .newContext record events := by
      rintro record events rfl
      cases hctx.symm.trans ((shaped p proc hp).early (newContext_early acts.may))
    obtain ⟨ctx', hctx', same⟩ := run_stays acts.run built hctx
    exact ⟨ctx', values, report, hctx', told, by rw [same]; exact ended, shown⟩
  | @task _ c _ _ _ _ _ _ _ _ _ acts =>
    obtain rfl := Option.some.inj (hp.symm.trans acts.hp)
    have all : (proc.calls.take proc.calls.length).mapM CallRecord.returned = some values := by
      rwa [List.take_length]
    have beyond := acting_unreturned acts all
    exact absurd (List.getElem?_eq_some_iff.mp acts.at_.1).1 (Nat.not_lt.mpr beyond)

theorem earns_step
    (shaped : ∀ (p : Nat) (proc : Proc), w.procs[p]? = some proc → proc.Shaped cfg)
    (h : w.step cfg a = some w') (ok : executing flows j w a)
    (inv : ∀ (p : Nat) (proc : Proc), w.procs[p]? = some proc → proc.loc.runId = j →
      proc.phase.Earns (proc.Finished flows))
    (q : Nat) (proc' : Proc) (hq : w'.procs[q]? = some proc') (mine : proc'.loc.runId = j) :
    proc'.phase.Earns (proc'.Finished flows) := by
  have stays : ∀ {proc : Proc}, w.procs[q]? = some proc → proc.loc.runId = j → ∀ v,
      proc.Finished flows v → proc'.Finished flows v := by
    intro proc hp own v done
    obtain ⟨_, hq', -, done'⟩ := finished_step shaped h ok hp own done
    obtain rfl := Option.some.inj (hq.symm.trans hq')
    exact done'
  cases attempt_cases shaped h hq with
  | same old | beat _ _ old | refused _ old | call _ old | stop _ old =>
    exact earns_mono (stays old mine) (inv q _ old mine)
  | fresh _ start => rw [start]; trivial
  | task _ acts =>
    have own := (exec_ctx acts.run).1.symm.trans mine
    exact earns_mono (stays acts.hp own) (inv q _ acts.hp own)
  | main is acts =>
    subst is
    have own := (exec_ctx acts.run).1.symm.trans mine
    refine earns_mono (stays acts.hp own) (earns_next acts.may (fun v inside next => ?_)
      (inv q _ acts.hp own))
    obtain rfl := leave_value acts.may acts.run inside next
    exact ok.2 _ acts.hp own

/-- A status is written before the workflow runs or when the log says how it has ended. -/
theorem setStatus_phase {phase : Phase} {status : RunStatus} {result : Value}
    {error : Option RunError} (may : phase.allowed (.setStatus status result error)) :
    (phase = .starting ∧ status = .running ∧ result = .none) ∨
      phase = .announced status result error := by
  cases phase <;> simp_all [Phase.allowed]

/-- The row is not terminal when an attempt writes to it. -/
theorem unwritten {p : Nat} {ans : Answer} {proc : Proc} {status : RunStatus} {result : Value}
    {error : Option RunError} {r : Except Exn Unit} {loc : Local} (shaped : proc.Shaped cfg)
    (parked : w.Parked)
    (acts : MainActs cfg w w' p ans proc (.setStatus status result error) r loc) :
    w.terminal proc.loc.runId = false := by
  have writes := setStatus_phase acts.may
  have began : proc.started = true := by
    by_contra fresh
    rw [shaped.fresh (Bool.eq_false_iff.mpr fresh)] at writes
    rcases writes with ⟨phase, -⟩ | phase <;> cases phase
  refine Bool.eq_false_iff.mpr fun terminal => ?_
  have parks := parked p proc acts.hp began acts.alive terminal
  rcases writes with ⟨phase, -⟩ | phase <;> rw [phase] at parks <;> cases parks

theorem answers_step
    (shaped : ∀ (p : Nat) (proc : Proc), w.procs[p]? = some proc → proc.Shaped cfg)
    (parked : w.Parked) (h : w.step cfg a = some w') (ok : executing flows j w a)
    (earns : ∀ (p : Nat) (proc : Proc), w.procs[p]? = some proc → proc.loc.runId = j →
      proc.phase.Earns (proc.Finished flows))
    (inv : w.Answers flows j) : w'.Answers flows j := by
  intro status v error row
  have stays : ∀ {p : Nat} {proc : Proc}, w.procs[p]? = some proc → proc.loc.runId = j →
      proc.Finished flows v → ∃ (p : Nat) (proc : Proc), w'.procs[p]? = some proc ∧
        proc.loc.runId = j ∧ proc.Finished flows v := fun hp own done =>
    ⟨_, finished_step shaped h ok hp own done⟩
  rcases standing_cases shaped h j with
    same | ⟨-, new⟩ | ⟨p, ans, proc, status', result, error', loc, rfl, acts, own, new⟩
  · have before := inv status v error (same.symm.trans row)
    split at before
    · next completed =>
      obtain ⟨p, proc, hp, own, done⟩ := before
      rw [if_pos completed]
      exact stays hp own done
    · next going => rwa [if_neg going]
  · cases new.symm.trans row
    rfl
  · -- the row was not terminal, so it held no result
    rw [new] at row
    obtain ⟨⟨was, u, e⟩, before, stored⟩ := Option.map_eq_some_iff.mp row
    cases stored
    have going := unwritten (shaped p proc acts.hp) parked acts
    have none : u = .none := by
      have before_ := inv was u e before
      split at before_
      · next completed =>
        rw [World.terminal, own, before, completed] at going
        cases going
      · exact before_
    have earned := earns p proc acts.hp own
    rcases setStatus_phase acts.may with ⟨-, rfl, rfl⟩ | phase
    · exact none
    · rw [phase] at earned
      have written : (if result.isNone then u else result) = result := by
        rw [none]
        cases result <;> rfl
      rw [written] at stays ⊢
      cases status with
      | completed => exact stays acts.hp own earned
      | _ => exact earned

end DurableLemmas

theorem earns_reaches (h : Reaches (World.step cfg) (executing flows j) (.init now) w) (p : Nat)
    (proc : Proc) (hp : w.procs[p]? = some proc) (mine : proc.loc.runId = j) :
    proc.phase.Earns (proc.Finished flows) := by
  induction h generalizing p proc with
  | refl => exact absurd hp (by simp [World.init])
  | tail reached ok step inv =>
    exact earns_step (fun _ _ => shaped_reaches reached) step ok inv p proc hp mine

theorem answers_reaches (h : Reaches (World.step cfg) (executing flows j) (.init now) w) :
    w.Answers flows j := by
  induction h with
  | refl =>
    intro status v error row
    cases row
  | tail reached ok step inv =>
    exact answers_step (fun _ _ => shaped_reaches reached)
      (parked_reaches reached fun _ _ ok => ok.1.1) step ok (earns_reaches reached) inv

/-- The attempt whose workflow has returned has been told the whole journal of the results it has
its values from. -/
theorem finished_answers (h : Reaches (World.step cfg) (executing flows j) (.init now) w)
    {p : Nat} {proc : Proc} {run : RunRecord} {v : Value} {completed : String → Option Value}
    (hp : w.procs[p]? = some proc) (mine : proc.loc.runId = j) (done : proc.Finished flows v)
    (hrun : w.store.getRun j = some run) (toldFrom : proc.ToldFrom completed) :
    proc.calls.mapM CallRecord.returned =
      some (journalOf cfg completed [] (flows run.workflow run.input)) ∧ ∃ report,
      (flows run.workflow run.input).feed
        (journalOf cfg completed [] (flows run.workflow run.input)) = some (.ret report) ∧
      ∃ executed replayed, v = report executed replayed := by
  obtain ⟨ctx, values, report, hctx, told, ended, shown⟩ := done
  obtain ⟨name, arg⟩ := attempt_input h hp mine hctx hrun
  rw [← name, ← arg] at ended
  have begins := told_answers h hp mine hrun toldFrom
  rw [Proc.told, Gathered.filterMap_of_mapM told] at begins
  obtain ⟨rest, fed⟩ := journalOf_fed [] (flows run.workflow run.input)
  rw [Prog.ended_fed ended begins fed]
  exact ⟨told, report, ended, shown⟩

/-- The attempt whose workflow has returned has been told the whole journal. -/
theorem finished_journal (h : Reaches (World.step cfg) (executing flows j) (.init now) w)
    {p : Nat} {proc : Proc} {run : RunRecord} {v : Value} (hp : w.procs[p]? = some proc)
    (mine : proc.loc.runId = j) (done : proc.Finished flows v)
    (hrun : w.store.getRun j = some run) :
    proc.calls.mapM CallRecord.returned = some (w.journal cfg flows run) ∧ ∃ report,
      (flows run.workflow run.input).feed (w.journal cfg flows run) = some (.ret report) ∧
      ∃ executed replayed, v = report executed replayed :=
  finished_answers h hp mine done hrun (run_toldFrom h hp mine hrun)

/-- When the workflow has returned in one attempt, the calls of every attempt are among the calls
of this one. -/
theorem finished_calls (h : Reaches (World.step cfg) (executing flows j) (.init now) w)
    {p q : Nat} {proc other : Proc} {run : RunRecord} {v : Value} (hp : w.procs[p]? = some proc)
    (hq : w.procs[q]? = some other) (mine : proc.loc.runId = j) (mine' : other.loc.runId = j)
    (done : proc.Finished flows v) (hrun : w.store.getRun j = some run) {c : Nat}
    {rec : CallRecord} (hrec : other.calls[c]? = some rec) : ∃ rec₀, proc.calls[c]? = some rec₀ ∧
      rec₀.call = rec.call ∧ rec₀.tasks.map (·.key) = rec.tasks.map (·.key) := by
  obtain ⟨told, report, ended, -⟩ := finished_journal h hp mine done hrun
  have follows := follows_reaches (h.weaken fun _ _ ok => ok.1) q other hq mine'
  have bound : c < proc.calls.length := by
    -- a call beyond would be one that the program makes after it has ended
    by_contra beyond
    obtain ⟨ctx, values, hctx, told', determined⟩ := follows c rec hrec
    have taken := told_take (List.getElem?_eq_some_iff.mp hrec).1.le told'
    have length := (Gathered.mapM_get told').1
    rw [List.length_take_of_le (List.getElem?_eq_some_iff.mp hrec).1.le] at length
    have begins : values <+: w.journal cfg flows run :=
      taken ▸ (List.take_prefix c other.told).trans (told_journal h hq mine' hrun)
    have all : values = w.journal cfg flows run := begins.eq_of_length (by
      have := (Gathered.mapM_get told).1
      have := begins.length_le
      omega)
    obtain ⟨name, arg⟩ := attempt_input h hq mine' hctx hrun
    rw [Flows.nextCall, ← name, ← arg, all, ended] at determined
    cases determined
  obtain ⟨rec₀, hrec₀⟩ : ∃ rec₀, proc.calls[c]? = some rec₀ :=
    ⟨_, List.getElem?_eq_getElem bound⟩
  obtain ⟨call, keys, -⟩ := calls_agree (h.weaken fun _ _ ok => ok.1) hp hq mine
    (mine'.trans mine.symm) c rec₀ rec hrec₀ hrec
  exact ⟨rec₀, hrec₀, call, keys⟩

/-- The calls of the attempt whose workflow has returned are those of its program. -/
theorem finished_asked (h : Reaches (World.step cfg) (executing flows j) (.init now) w)
    {p : Nat} {proc : Proc} {run : RunRecord} {v : Value} (hp : w.procs[p]? = some proc)
    (mine : proc.loc.runId = j) (done : proc.Finished flows v)
    (hrun : w.store.getRun j = some run) :
    (flows run.workflow run.input).asked (w.journal cfg flows run) =
      proc.calls.map (·.call) := by
  obtain ⟨told, -⟩ := finished_journal h hp mine done hrun
  have follows := follows_reaches (h.weaken fun _ _ ok => ok.1) p proc hp mine
  have length := (Gathered.mapM_get told).1
  refine Prog.asked_of_next (by rw [length, List.length_map]) fun i c hc => ?_
  rw [List.getElem?_map] at hc
  obtain ⟨rec, hrec, rfl⟩ := Option.map_eq_some_iff.mp hc
  obtain ⟨ctx, values, hctx, told', determined⟩ := follows i rec hrec
  have taken := told_take (List.getElem?_eq_some_iff.mp hrec).1.le told'
  rw [Proc.told, Gathered.filterMap_of_mapM told] at taken
  obtain ⟨name, arg⟩ := attempt_input h hp mine hctx hrun
  rw [taken, name, arg]
  exact determined

/-- The result of a completed run is what its program returns on the journal. -/
theorem completed_returns (h : Reaches (World.step cfg) (executing flows j) (.init now) w)
    {run : RunRecord} (hrun : w.store.getRun j = some run) (completed : run.status = .completed) :
    ∃ report, (flows run.workflow run.input).feed (w.journal cfg flows run) = some (.ret report) ∧
      ∃ executed replayed, run.result = report executed replayed := by
  have row : w.store.standing j = some (run.status, run.result, run.error) := by
    rw [Store.standing, hrun]
    rfl
  have answers := answers_reaches h _ _ _ row
  rw [if_pos completed] at answers
  obtain ⟨p, proc, hp, mine, done⟩ := answers
  exact (finished_journal h hp mine done hrun).2

/-- The journal of a run only grows, and when the run is completed it is complete. -/
theorem journal_grows {w' : World}
    (h : Reaches (World.step cfg) (executing flows j) (.init now) w)
    (h' : Reaches (World.step cfg) (executing flows j) w w') {run run' : RunRecord}
    (hrun : w.store.getRun j = some run) (hrun' : w'.store.getRun j = some run') :
    w.journal cfg flows run <+: w'.journal cfg flows run' ∧
      (run.status = .completed → w'.journal cfg flows run' = w.journal cfg flows run) := by
  have kept : (w'.store.getRun j).map (fun r => (r.workflow, r.input)) =
      some (run.workflow, run.input) ∧
      ∀ key x, w.Recorded j key x → w'.Recorded j key x := by
    clear hrun'
    induction h' with
    | refl => exact ⟨by rw [hrun]; rfl, fun _ _ was => was⟩
    | tail reached _ step ih =>
      have reached := h.trans reached
      exact ⟨column_step (fun _ _ _ _ _ _ _ _ _ => rfl) (fun _ _ => rfl) step ih.1,
        fun key x was => recorded_step (numbered_reaches reached)
          (fun _ _ => shaped_reaches reached) step (ih.2 key x was)⟩
  obtain ⟨input, recorded⟩ := kept
  rw [hrun'] at input
  obtain ⟨name, arg⟩ := Prod.mk.inj (Option.some.inj input)
  have inv := consistent_reaches h fun _ _ ok => ok.1.1
  have inv' := consistent_reaches (h.trans h') fun _ _ ok => ok.1.1
  have grows : w.journal cfg flows run <+: w'.journal cfg flows run' := by
    rw [World.journal, World.journal, name, arg, Table.find_some_key hrun,
      Table.find_some_key hrun']
    exact journalOf_mono (fun key x known => (init_recorded inv' run').mpr
      (recorded key x ((init_recorded inv run).mp known))) _ _
  refine ⟨grows, fun completed => ?_⟩
  obtain ⟨report, ended, -⟩ := completed_returns h hrun completed
  obtain ⟨rest, fed⟩ := journal_fed cfg flows w' run'
  rw [name, arg] at fed
  exact Prog.ended_fed ended grows fed

end

namespace Sample

/-- A workflow of two calls of the same step, which adds up what they return. -/
def addsUp : Flows := fun _ _ =>
  .step (.step "x" .atLeastOnce false none) fun first =>
    .step (.step "x" .atLeastOnce false none) fun second =>
      match first, second with
      | [.int m], [.int n] => .ret fun _ _ => .int (m + n)
      | _, _ => .ret fun _ _ => .none

/-- The workflow returns the sum of what it was told. -/
def isSum : List (List Value) → Value → Bool
  | [[.int m], [.int n]], .int sum => sum = m + n
  | _, _ => false

def sums (w : World) : Action → Bool
  | .main p (.value v) => w.procs[p]?.all fun proc => proc.loc.ctx.isSome &&
      (proc.calls.mapM CallRecord.returned).any fun told => isSum told v
  | _ => true

def inProgram (w : World) (a : Action) : Prop := inScript w a ∧ sums w a = true

instance (w : World) (a : Action) : Decidable (inProgram w a) :=
  inferInstanceAs (Decidable (_ ∧ _))

/-- The second attempt completes the run with the sum. -/
def summedUp : List Action := [.main 1 (.value (.int 15))] ++ proceed 1 7

/-- How many answers the journal of the run holds. -/
def journalLength (w : World) : Option Nat :=
  (w.store.getRun runId).map fun run => (w.journal cfg addsUp run).length

end Sample

theorem callsTwice_addsUp : Sample.addsUp.nextCall = Sample.callsTwice := by
  funext name input told
  match told with
  | [] | [_] => rfl
  | [first, second] =>
    unfold Flows.nextCall Sample.addsUp
    simp only [Prog.feed_step, Prog.feed_nil, Option.bind_some]
    split <;> rfl
  | first :: second :: third :: more =>
    unfold Flows.nextCall Sample.addsUp
    simp only [Prog.feed_step]
    split <;> simp [Prog.feed, Sample.callsTwice]

theorem inProgram_executing {w : World} {a : Action} (ok : Sample.inProgram w a) :
    executing Sample.addsUp Sample.runId w a := by
  obtain ⟨script, sums⟩ := ok
  refine ⟨callsTwice_addsUp ▸ inScript_resumes script, ?_⟩
  cases a with
  | main p ans =>
    cases ans with
    | value v =>
      intro proc hp _
      have hp : w.procs[p]? = some proc := hp
      simp only [Sample.sums, hp, Option.all_some, Bool.and_eq_true] at sums
      obtain ⟨known, told⟩ := sums
      obtain ⟨ctx, hctx⟩ := Option.isSome_iff_exists.mp known
      obtain ⟨values, returned, sum⟩ := (Option.any_eq_true _ _).mp told
      unfold Sample.isSum at sum
      split at sum
      · rw [of_decide_eq_true sum]
        exact ⟨ctx, _, _, hctx, returned, rfl, 0, 0, rfl⟩
      · cases sum
    | _ => trivial
  | _ => trivial

/-- An attempt is cut off and another completes the run; a third finds it completed. -/
theorem journal_grows_resumed : ∃ (w w' w'' : World) (run run' run'' : RunRecord),
    w.store.getRun Sample.runId = some run ∧
    w'.store.getRun Sample.runId = some run' ∧ run'.status = .completed ∧
    w''.store.getRun Sample.runId = some run'' ∧ w''.procs.length = 3 ∧
    Sample.journalLength w = some 1 ∧ Sample.journalLength w' = some 2 ∧
    w.journal Sample.cfg Sample.addsUp run <+: w'.journal Sample.cfg Sample.addsUp run' ∧
    w''.journal Sample.cfg Sample.addsUp run'' = w'.journal Sample.cfg Sample.addsUp run' := by
  let rest := Sample.overtaking.drop 31 ++ Sample.summedUp
  let late : List Action := [.stop 1, .execute Sample.runId, .main 2 .done]
  let ends (w' : World) : Prop := (Sample.journalLength w' = some 2 ∧
    (w'.store.getRun Sample.runId).map (·.status) = some .completed) ∧
    ((run (World.step Sample.cfg) Sample.inProgram w' late).any fun w'' =>
      w''.procs.length = 3 ∧ (w''.store.getRun Sample.runId).isSome) = true
  obtain ⟨w, ran, one, later⟩ := run_exists (World.step Sample.cfg) Sample.inProgram (.init 0)
    (Sample.overtaking.take 31) (fun w => Sample.journalLength w = some 1 ∧
      ((run (World.step Sample.cfg) Sample.inProgram w rest).any fun w' => decide (ends w')) = true)
    (by decide +kernel)
  obtain ⟨w', more, ⟨two, status⟩, latest⟩ := run_exists (World.step Sample.cfg) Sample.inProgram w
    rest ends later
  obtain ⟨w'', idle, three, there⟩ := run_exists (World.step Sample.cfg) Sample.inProgram w' late
    (fun w'' => w''.procs.length = 3 ∧ (w''.store.getRun Sample.runId).isSome) latest
  obtain ⟨run, hrun, -⟩ := Option.map_eq_some_iff.mp one
  obtain ⟨run', hrun', completed⟩ := Option.map_eq_some_iff.mp status
  obtain ⟨run'', hrun''⟩ := Option.isSome_iff_exists.mp there
  have weaken := fun (w : World) (a : Action) (ok : Sample.inProgram w a) =>
    inProgram_executing ok
  have first := (run_reaches ran).weaken weaken
  have second := (run_reaches more).weaken weaken
  exact ⟨w, w', w'', run, run', run'', hrun, hrun', completed, hrun'', three, one, two,
    (journal_grows first second hrun hrun').1,
    (journal_grows (first.trans second) ((run_reaches idle).weaken weaken) hrun' hrun'').2
      completed⟩

end AnchorRuntime
