import AnchorRuntime.Rebilling

/-!
# Work and the bill

The usage is saved by statements that follow the completion in the log, and a step that is
replayed or recovered adds nothing. Between the two an attempt owes its row something, and
what it owes is lost with it.

Results: `covered_reaches`, what the row and the attempt under way account for;
`finished_work_is_billed`, nothing completed is missing from the row when an attempt has
finished, as long as no attempt ends, fails or finishes while it owes something;
`unbilled_work`, a run that has finished and lacks a completed model step.
-/

namespace AnchorRuntime

open Effect Machine ShapeLemmas ProcLemmas TaskLemmas SequentialLemmas MeteringLemmas
  CompletionLemmas RebillingLemmas

/-! ## The condition -/

/-- A completed step has not put its usage on the row yet. -/
def Stage.unsaved (kind : StepKind) : Stage → Bool
  | .recorded _ => kind ≠ .plain
  | .saved _ | .billed _ => kind = .model
  | _ => false

/-- The verifier of a metered step has found its outcome. -/
def Stage.landed (kind : StepKind) : Stage → Bool
  | .recovered _ => kind ≠ .plain
  | _ => false

def Proc.unsaved (proc : Proc) : Bool :=
  proc.calls.any fun rec => rec.tasks.any fun t => t.stage.unsaved rec.call.kind

/-- The main code of the attempt is about to write a terminal status. -/
def Proc.finishing (proc : Proc) : Bool :=
  match proc.main.next with
  | some (.setStatus status _ _) => status.terminal
  | _ => false

/-- No attempt is stopped or finishes while it owes its row something, no step raises while it
does, and no verifier completes a tool step. -/
def accounted (w : World) : Action → Prop
  | .stop p => ∀ proc ∈ w.procs[p]?, proc.unsaved = false
  | .main p _ => ∀ proc ∈ w.procs[p]?, proc.finishing = true → proc.unsaved = false
  | .task p c b ans => ∀ proc ∈ w.procs[p]?, ∀ rec ∈ proc.calls[c]?, ∀ t ∈ rec.tasks[b]?,
    (t.stage.unsaved rec.call.kind = true → ans.raises = false) ∧
      (t.stage.landed rec.call.kind = true → ans.raises = true)
  | _ => True

instance (w : World) (a : Action) : Decidable (accounted w a) :=
  match a with
  | .stop p => inferInstanceAs (Decidable (∀ proc ∈ w.procs[p]?, proc.unsaved = false))
  | .main p _ => inferInstanceAs (Decidable (∀ proc ∈ w.procs[p]?, proc.finishing = true →
      proc.unsaved = false))
  | .task p c b ans => inferInstanceAs (Decidable (∀ proc ∈ w.procs[p]?, ∀ rec ∈ proc.calls[c]?,
      ∀ t ∈ rec.tasks[b]?, (t.stage.unsaved rec.call.kind = true → ans.raises = false) ∧
        (t.stage.landed rec.call.kind = true → ans.raises = true)))
  | .submit _ _ _ _ _ | .cancel _ | .tick _ | .claim _ _ | .execute _ | .beat _ _
  | .call _ _ _ _ => .isTrue trivial

/-- A key is called for in one way only, in all attempts of a run. -/
def unmixed (cfg : Config) (w : World) : Action → Prop
  | .call p _ _ c => ∀ proc ∈ w.procs[p]?, ∀ ctx ∈ proc.loc.ctx, ∀ names ∈ (c.names cfg).toOption,
    ∀ key ∈ (ctx.nextKeys names).1, ∀ kind ∈ [StepKind.plain, .tool, .model],
      w.calledAs proc.loc.runId kind key = true → kind = c.kind
  | _ => True

instance (cfg : Config) (w : World) (a : Action) : Decidable (unmixed cfg w a) :=
  match a with
  | .call p _ _ c => inferInstanceAs (Decidable (∀ proc ∈ w.procs[p]?, ∀ ctx ∈ proc.loc.ctx,
      ∀ names ∈ (c.names cfg).toOption, ∀ key ∈ (ctx.nextKeys names).1,
      ∀ kind ∈ [StepKind.plain, .tool, .model], w.calledAs proc.loc.runId kind key = true →
      kind = c.kind))
  | .submit _ _ _ _ _ | .cancel _ | .tick _ | .claim _ _ | .execute _ | .beat _ _ | .main _ _
  | .task _ _ _ _ | .stop _ => .isTrue trivial

/-- Attempts follow one another, keep their books, and use a key for one kind of step. -/
def bookkeeping (cfg : Config) (w : World) (a : Action) : Prop :=
  oneAfterAnother w a ∧ accounted w a ∧ unmixed cfg w a

instance (cfg : Config) (w : World) (a : Action) : Decidable (bookkeeping cfg w a) :=
  inferInstanceAs (Decidable (_ ∧ _ ∧ _))

/-! ## The kinds of keys -/

/-- No key is a key of two kinds. -/
def World.Unmixed (w : World) : Prop :=
  ∀ j key kind kind', w.calledAs j kind key = true → w.calledAs j kind' key = true → kind = kind'

/-- Whatever is completed has been called for. -/
def World.Signed (w : World) : Prop :=
  ∀ j, ∀ e ∈ w.store.loadEvents j, ∀ key, e.completes key → ∃ kind, w.calledAs j kind key = true

namespace BillingLemmas

variable {cfg : Config} {w w' : World} {a : Action} {p q c b : Nat} {proc proc' : Proc}
  {rec : CallRecord} {t : Task} {j : Uuid} {key : String} {kind : StepKind}

/-- Where the kind of a key comes from: it had it, or a call has just allocated the key. -/
theorem calledAs_cases
    (shaped : ∀ (p : Nat) (proc : Proc), w.procs[p]? = some proc → proc.Shaped cfg)
    (h : w.step cfg a = some w') (called : w'.calledAs j kind key = true) :
    w.calledAs j kind key = true ∨ ∃ p caller role c proc ctx names, a = .call p caller role c ∧
      w.procs[p]? = some proc ∧ proc.loc.runId = j ∧ proc.loc.ctx = some ctx ∧
      c.names cfg = .ok names ∧ key ∈ (ctx.nextKeys names).1 ∧ kind = c.kind := by
  obtain ⟨q, proc', hq, run, c, b, rec', t', at', is, hkey⟩ := calledAs_iff.mp called
  have old : ∀ {proc : Proc} {rec : CallRecord} {t : Task}, w.procs[q]? = some proc →
      proc.loc.runId = j → proc.At c b rec t → rec.call = rec'.call → t.key = t'.key →
      w.calledAs j kind key = true := fun hp run at_ call same =>
    calledAs_iff.mpr ⟨q, _, hp, run, c, b, _, _, at_, call ▸ is, same.trans hkey⟩
  cases attempt_cases shaped h hq with
  | same hp | beat _ _ hp | stop _ hp => exact .inl (old hp run at' rfl rfl)
  | fresh _ _ _ none => exact absurd at'.1 (by simp [none])
  | main _ acts => exact .inl (old acts.hp ((exec_ctx acts.run).1.symm.trans run) at' rfl rfl)
  | @task proc c₀ b₀ ans rec t o k r loc _ acts =>
    have own : proc.loc.runId = j := (exec_ctx acts.run).1.symm.trans run
    obtain ⟨rec₀, hrec, same, ⟨rfl, rfl, rfl⟩ | ⟨-, at_⟩⟩ :=
      at_setTask (show Proc.At { proc with loc } c₀ b₀ rec t from acts.at_) at'
    · obtain rfl := Option.some.inj (acts.at_.1.symm.trans hrec)
      exact .inl (old acts.hp own acts.at_ same.call.symm rfl)
    · exact .inl (old acts.hp own at_ same.call.symm rfl)
  | refused _ hp =>
    rcases at_concat at' with at_ | ⟨-, rfl, none⟩
    · exact .inl (old hp run at_ rfl rfl)
    · cases none
  | call is₀ hp _ _ hctx names =>
    rcases at_concat at' with at_ | ⟨-, rfl, new⟩
    · exact .inl (old hp run at_ rfl rfl)
    · obtain ⟨key', mem, rfl⟩ := newTasks_get new
      exact .inr ⟨_, _, _, _, _, _, _, is₀, hp, run, hctx, names,
        hkey ▸ List.mem_of_getElem? mem, is.symm⟩

theorem unmixed_step
    (shaped : ∀ (p : Nat) (proc : Proc), w.procs[p]? = some proc → proc.Shaped cfg)
    (h : w.step cfg a = some w') (ok : unmixed cfg w a) (inv : w.Unmixed) : w'.Unmixed := by
  intro j key kind kind' called called'
  -- a key that had a kind gets no other, and one call gives a key one kind
  have new : ∀ {old new : StepKind}, w.calledAs j old key = true →
      (∃ p caller role c proc ctx names, a = .call p caller role c ∧
        w.procs[p]? = some proc ∧ proc.loc.runId = j ∧ proc.loc.ctx = some ctx ∧
        c.names cfg = .ok names ∧ key ∈ (ctx.nextKeys names).1 ∧ new = c.kind) → old = new := by
    rintro old _ had ⟨p, caller, role, c, proc, ctx, names, rfl, hp, rfl, hctx, hnames, mem, rfl⟩
    exact ok proc hp ctx hctx names (by rw [hnames]; rfl) key mem old (by cases old <;> simp) had
  rcases calledAs_cases shaped h called with old | fresh
  · rcases calledAs_cases shaped h called' with old' | fresh'
    · exact inv j key kind kind' old old'
    · exact new old fresh'
  · rcases calledAs_cases shaped h called' with old' | fresh'
    · exact (new old' fresh).symm
    · obtain ⟨_, _, _, _, _, _, _, is, -, -, -, -, -, rfl⟩ := fresh
      obtain ⟨_, _, _, _, _, _, _, is', -, -, -, -, -, rfl⟩ := fresh'
      cases is.symm.trans is'
      rfl

theorem signed_step (numbered : w.store.Numbered)
    (shaped : ∀ (p : Nat) (proc : Proc), w.procs[p]? = some proc → proc.Shaped cfg)
    (h : w.step cfg a = some w') (inv : w.Signed) : w'.Signed := by
  intro j e mem key completes
  obtain ⟨es, log, -⟩ := log_step numbered shaped h j
  rw [log, List.mem_append] at mem
  rcases mem with old | new
  · exact (inv j e old key completes).imp fun _ => calledAs_step h
  · have concerns : e.concerns key := by
      obtain ⟨same, result, by_, payload⟩ := completes
      exact ⟨same, by rw [payload]; rfl⟩
    obtain ⟨p, c, b, _, proc, rec, t, _, _, -, acts, hkey, run, -⟩ :=
      event_cases numbered shaped h log new concerns
    exact ⟨rec.call.kind, calledAs_step h
      (calledAs_iff.mpr ⟨p, proc, acts.hp, run, c, b, rec, t, acts.at_, rfl, hkey⟩)⟩

end BillingLemmas

open BillingLemmas

theorem unmixed_reaches {cfg : Config} {now : Int} {ok : World → Action → Prop} {w : World}
    (h : Reaches (World.step cfg) ok (.init now) w) (fair : ∀ w a, ok w a → unmixed cfg w a) :
    w.Unmixed :=
  h.invariant (fun _ _ _ _ called => by simp [World.calledAs, World.init] at called)
    fun _ _ _ reached inv good step =>
      unmixed_step (fun _ _ => shaped_reaches reached) step (fair _ _ good) inv

theorem signed_reaches {cfg : Config} {now : Int} {ok : World → Action → Prop} {w : World}
    (h : Reaches (World.step cfg) ok (.init now) w) : w.Signed :=
  h.invariant (fun _ _ mem => absurd mem List.not_mem_nil)
    fun _ _ _ reached inv _ step =>
      signed_step (numbered_reaches reached) (fun _ _ => shaped_reaches reached) step inv

/-! ## What the attempt under way accounts for -/

/-- The keys of a kind. -/
def World.keyed (w : World) (j : Uuid) (kind : StepKind) (key : String) (_ : Value) : Bool :=
  w.calledAs j kind key

/-- A try of a tool step is counted and has not ended yet, or not been recorded. -/
def Stage.inFlight (kind : StepKind) : Stage → Bool
  | .ready _ counted => kind = .tool && counted
  | .running _ | .returned _ _ => kind = .tool
  | _ => false

/-- The attempt under way has counted a call for every completed tool step, and one more for
every try in flight. -/
def World.ToolsCounted (w : World) : Prop :=
  ∀ (p : Nat) (proc : Proc), w.procs[p]? = some proc → proc.stopped = false → ∀ u,
    proc.held = some u → worth (fun _ => 1) (w.keyed proc.loc.runId .tool)
      (w.store.loadEvents proc.loc.runId) + proc.number Stage.inFlight ≤ u.toolCalls

/-- The attempt under way has counted the usage of every completed model step but those it
has still to count. -/
def World.ModelsCounted (m : Meter) (w : World) : Prop :=
  ∀ (p : Nat) (proc : Proc), w.procs[p]? = some proc → proc.stopped = false → ∀ u,
    proc.held = some u → worth m.due (fun key result =>
      w.keyed proc.loc.runId .model key result && !proc.unbilled key)
      (w.store.loadEvents proc.loc.runId) ≤ m.read u

/-- A live attempt of the run has a completed step of the key that it has not saved. -/
def World.Unsaved (w : World) (j : Uuid) (kind : StepKind) (key : String) : Prop :=
  ∃ (p : Nat) (proc : Proc), w.procs[p]? = some proc ∧ proc.stopped = false ∧
    proc.loc.runId = j ∧ ∃ c b rec t, proc.At c b rec t ∧ rec.call.kind = kind ∧ t.key = key ∧
      t.stage.unsaved kind = true

/-- The row accounts for the completed steps of a kind, but for those a live attempt has not
saved. -/
def World.RowsCover (kind : StepKind) (value : Value → Rat) (read : Usage → Rat) (w : World) :
    Prop :=
  ∀ j u, w.store.usage j = some u → ∃ saved : String → Bool,
    worth value (fun key _ => saved key) (w.store.loadEvents j) ≤ read u ∧
    (∀ key, saved key = true → w.calledAs j kind key = true ∧
      logged key Payload.isCompletion (w.store.loadEvents j) = true) ∧
    ∀ e ∈ w.store.loadEvents j, ∀ key, e.completes key → w.calledAs j kind key = true →
      saved key = true ∨ w.Unsaved j kind key

namespace BillingLemmas

variable {cfg : Config} {w w' : World} {a : Action} {m : Meter} {p q c b : Nat}
  {proc proc' : Proc} {rec : CallRecord} {t : Task} {j : Uuid} {key : String} {kind : StepKind}

theorem completes_concerns {e : Event} (h : e.completes key) : e.concerns key := by
  obtain ⟨same, result, by_, payload⟩ := h
  exact ⟨same, by rw [payload]; rfl⟩

/-- What is completed keeps its kind. -/
theorem keyed_step (signed : w.Signed) (unmixed : w'.Unmixed) (h : w.step cfg a = some w')
    {e : Event} (mem : e ∈ w.store.loadEvents j) (completes : e.completes key) (result : Value) :
    w'.keyed j kind key result = w.keyed j kind key result := by
  obtain ⟨kind₀, had⟩ := signed j e mem key completes
  cases old : w.calledAs j kind key with
  | true => exact (calledAs_step h old).trans old.symm
  | false =>
    refine (Bool.eq_false_iff.mpr fun new => ?_).trans old.symm
    obtain rfl := unmixed j key kind kind₀ new (calledAs_step h had)
    exact absurd (old.symm.trans had) (by simp)

/-- While a live attempt of the run goes by a usage, only its own steps complete keys. -/
theorem others_complete_nothing (sole : w.Sole) (numbered : w.store.Numbered)
    (shaped : ∀ (p : Nat) (proc : Proc), w.procs[p]? = some proc → proc.Shaped cfg)
    (h : w.step cfg a = some w') (hp : w.procs[q]? = some proc) (alive : proc.stopped = false)
    {u : Usage} (held : proc.held = some u) (other : ∀ c b ans, a ≠ .task q c b ans)
    {es : List Event} (log : w'.store.loadEvents proc.loc.runId =
      w.store.loadEvents proc.loc.runId ++ es) : ∀ e ∈ es, ∀ key, ¬ e.completes key := by
  intro e mem key completes
  obtain ⟨p, c, b, ans, actor, rec, t, r, loc, is, acts, -, run, -⟩ :=
    event_cases numbered shaped h log mem (completes_concerns completes)
  obtain rfl : q = p := sole q p proc actor hp acts.hp run
    (held_began (shaped q proc hp) held) alive
    (began_of_task (shaped p actor acts.hp) acts.at_) acts.alive
  exact other c b ans is

/-- The completions a step writes are its own, where it closes its window. -/
theorem written_completes {s : StepSetup} {stage : Stage} {o : Op} {r : Ans o} {now : Int}
    {e : Event} (may : s.allowed stage o) (mem : e ∈ written now o r)
    (completes : e.completes key) : key = s.key ∧
      ((∃ v, stage = .recovered v) ∨ ∃ n v, stage = .returned n v) := by
  obtain ⟨_, rfl, -, -⟩ := InvocationLemmas.written_event mem
  have own := InvocationLemmas.allowed_key may
  obtain ⟨same, result, by_, payload⟩ := completes
  refine ⟨Option.some.inj (same.symm.trans own), ?_⟩
  rcases completion_open may (by rw [payload]; rfl) with ⟨v, at_, -⟩ | ⟨n, v, at_, -⟩
  · exact .inl ⟨v, at_⟩
  · exact .inr ⟨n, v, at_⟩

/-- A statement that has not raised was not answered by an exception. -/
theorem append_answered {now : Int} {st st' : Store} {loc loc' : Local} {ans : Answer}
    {k : Option String} {payload : Payload} {n : Option Nat}
    (run : exec cfg now st loc ans (.appendEvent k payload) = some (.ok n, st', loc')) :
    ans.raises = false := by
  cases ans with
  | raise exc => cases exc <;> cases run
  | _ => rfl

/-- Saving the usage only fails where the driver raises. -/
theorem save_raises {now : Int} {st st' : Store} {loc loc' : Local} {ans : Answer} {exc : Exn}
    (run : exec cfg now st loc ans .saveUsage = some (.error exc, st', loc')) :
    ans.raises = true := by
  obtain ⟨ctx, -, run⟩ := Option.bind_eq_some_iff.mp run
  cases ans with
  | raise => rfl
  | _ => cases run

/-- A step that owes its row something goes on owing it, or saves it. -/
theorem unsaved_next {ans : Answer} {o : Op} {r : Ans o} {loc : Local}
    (acts : TaskActs cfg w w' p c b ans proc rec t o r loc)
    (ok : accounted w (.task p c b ans)) (owes : t.stage.unsaved rec.call.kind = true) :
    ((rec.call.setup cfg proc.loc.runId proc.loc.guarded t.key).next t.stage o r).unsaved
      rec.call.kind = true ∨ (o = .saveUsage ∧ HEq r (Except.ok (ε := Exn) ())) := by
  have answered := (ok proc acts.hp rec acts.at_.1 t acts.at_.2).1 owes
  have run := acts.run
  have moves := StepSetup.moves acts.may r
  generalize (rec.call.setup cfg _ _ t.key).next t.stage o r = stage' at moves
  generalize t.stage = stage at moves owes
  have kind : (rec.call.setup cfg proc.loc.runId proc.loc.guarded t.key).kind = rec.call.kind := rfl
  cases moves with
  | record | countExecuted => exact .inl owes
  | saveUsage | saveBill => exact .inr ⟨rfl, HEq.rfl⟩
  | addModelUsage model =>
    rw [kind] at model
    exact .inl (by rw [model]; rfl)
  | invoked _ tool =>
    rw [kind] at tool
    rw [tool] at owes
    cases owes
  | raise may failed =>
    cases stage with
    | recorded v =>
      rcases may with rfl | rfl | rfl
      · cases failed
      · cases failed
      · cases r with
        | error exc => exact absurd (answered.symm.trans (save_raises run)) (by simp)
        | ok => cases failed
    | saved v =>
      rcases may with ⟨tool, -⟩ | ⟨-, _, -, rfl⟩
      · rw [kind] at tool
        rw [tool] at owes
        cases owes
      · cases failed
    | billed v =>
      obtain rfl := may
      cases r with
      | error exc => exact absurd (answered.symm.trans (save_raises run)) (by simp)
      | ok => cases failed
    | _ => cases owes
  | _ => cases owes

/-- A model step that has its usage to count goes on having it, or counts it. -/
theorem unbilled_next {ans : Answer} {o : Op} {r : Ans o} {loc : Local}
    (acts : TaskActs cfg w w' p c b ans proc rec t o r loc)
    (ok : accounted w (.task p c b ans)) (model : rec.call.kind = .model)
    (unbilled : t.stage.unbilled = true) :
    ((rec.call.setup cfg proc.loc.runId proc.loc.guarded t.key).next t.stage o r).unbilled =
      true ∨ ∃ v response, t.stage = .saved v ∧ ModelResponse.fromDict v = .ok response ∧
        o = .addModelUsage response.inputTokens response.outputTokens response.costUsd := by
  have owes : t.stage.unsaved rec.call.kind = true := by
    rw [model]
    cases hs : t.stage <;> rw [hs] at unbilled <;> first | rfl | cases unbilled
  rcases unsaved_next acts ok owes with still | ⟨rfl, saved⟩
  · have moves := StepSetup.moves acts.may r
    generalize (rec.call.setup cfg _ _ t.key).next t.stage o r = stage' at moves still
    generalize t.stage = stage at moves unbilled
    cases moves with
    | record | countExecuted | saveUsage => exact .inl rfl
    | addModelUsage _ read => exact .inr ⟨_, _, rfl, read, rfl⟩
    | raise => cases still
    | invoked | called => cases still
    | _ => cases unbilled
  · cases saved
    have moves := StepSetup.moves acts.may (.ok ())
    generalize (rec.call.setup cfg _ _ t.key).next t.stage .saveUsage (.ok ()) = stage' at moves
    generalize t.stage = stage at moves unbilled
    cases moves with
    | saveUsage => exact .inl rfl
    | saveBill => cases unbilled
    | raise _ failed => cases failed

/-! The attempt under way. -/

/-- An attempt that reads its row finds everything saved. -/
theorem reading_settled (sole : w.Sole)
    (shaped : ∀ (p : Nat) (proc : Proc), w.procs[p]? = some proc → proc.Shaped cfg)
    (hp : w.procs[q]? = some proc) (alive : proc.stopped = false)
    (reading : proc.phase = .reading) : ¬ w.Unsaved proc.loc.runId kind key := by
  rintro ⟨p, other, hother, alive', run, c, b, rec, t, at_, -⟩
  have began : proc.started = true := by
    by_contra unbegun
    have start := (shaped q proc hp).fresh (by simpa using unbegun)
    rw [reading] at start
    cases start
  obtain rfl := sole q p proc other hp hother run began alive
    (began_of_task (shaped p other hother) at_) alive'
  obtain rfl := Option.some.inj (hp.symm.trans hother)
  have none := (shaped q proc hp).uncalled ((shaped q proc hp).early (by rw [reading]; trivial))
  exact absurd at_.1 (by simp [none])

/-- A row that lacks nothing accounts for every completed step of the kind. -/
theorem rows_all {value : Value → Rat} {read : Usage → Rat} {u : Usage}
    (cover : w.RowsCover kind value read) (settled : ∀ key, ¬ w.Unsaved j kind key)
    (saved : w.store.usage j = some u) :
    worth value (w.keyed j kind) (w.store.loadEvents j) ≤ read u := by
  obtain ⟨counted, le, own, all⟩ := cover j u saved
  refine le.trans' (worth_congr fun e mem key completes _ => ?_).le
  cases hc : counted key with
  | true => exact (own key hc).1
  | false =>
    refine Bool.eq_false_iff.mpr fun called => ?_
    rcases all e mem key completes called with is | owes
    · exact absurd (hc.symm.trans is) (by simp)
    · exact settled key owes

/-- A step that closes no window writes nothing of worth. -/
theorem written_worthless {s : StepSetup} {stage : Stage} {o : Op} {r : Ans o}
    {value : Value → Rat} {counts : String → Value → Bool} (may : s.allowed stage o) (now : Int)
    (closes : ∀ n v, stage ≠ .recovered v ∧ stage ≠ .returned n v) :
    worth value counts (written now o r) = 0 := by
  refine worth_zero fun e mem key completes _ => ?_
  rcases (written_completes may mem completes).2 with ⟨v, at_⟩ | ⟨n, v, at_⟩
  · exact absurd at_ (closes 0 v).1
  · exact absurd at_ (closes n v).2

/-- One event under the key is worth one at most. -/
theorem written_le_one (counts : String → Value → Bool) (now : Int) (k : Option String)
    (payload : Payload) (seq : Option Nat) :
    worth (fun _ => 1) counts (written now (.appendEvent k payload) (.ok seq)) ≤ 1 := by
  cases seq with
  | none => exact zero_le_one
  | some n =>
    show Event.worth _ _ _ + 0 ≤ 1
    rw [add_zero]
    unfold Event.worth
    split
    · split
      · exact le_rfl
      · exact zero_le_one
    · exact zero_le_one

/-- What a step writes is worth at most what it adds to the count and gives up of its try. -/
theorem flight_next {s : StepSetup} {stage : Stage} {o : Op} {r : Ans o}
    {counts : String → Value → Bool} (may : s.allowed stage o) (now : Int) (u : Usage)
    (landed : stage.landed s.kind = true → written now o r = [])
    (own : s.kind ≠ .tool → ∀ result, counts s.key result = false) :
    worth (fun _ => 1) counts (written now o r) +
        (((s.next stage o r).inFlight s.kind).toNat : Rat) + u.toolCalls ≤
      ((stage.inFlight s.kind).toNat : Rat) + (metered o u).toolCalls := by
  have nothing : (∀ n v, stage ≠ .recovered v ∧ stage ≠ .returned n v) →
      worth (fun _ => 1) counts (written now o r) = 0 := written_worthless may now
  have elsewhere : s.kind ≠ .tool → worth (fun _ => 1) counts (written now o r) = 0 := by
    intro other
    refine worth_zero fun e mem key completes result => ?_
    rw [(written_completes may mem completes).1]
    exact own other result
  have moves := StepSetup.moves may r
  generalize s.next stage o r = stage' at moves
  cases moves with
  | @complete n v seq =>
    by_cases tool : s.kind = .tool
    · have one := written_le_one counts now (some s.key) (.stepCompleted v (.attempt n)) seq
      simpa [Stage.inFlight, tool, metered] using one
    · rw [elsewhere tool]
      simp [Stage.inFlight, tool, metered]
  | @resolve v seq =>
    have worthless : worth (fun _ => 1) counts
        (written now (.appendEvent (some s.key) (.stepCompleted v .verify)) (.ok seq)) = 0 := by
      by_cases plain : s.kind = .plain
      · exact elsewhere (by simp [plain])
      · rw [landed (by simpa [Stage.landed] using plain)]
        rfl
    rw [worthless]
    simp [Stage.inFlight, metered]
  | addToolCall _ tool =>
    rw [nothing (by simp)]
    simp [Stage.inFlight, metered, Usage.addTool, tool, add_comm]
  | enter _ counted =>
    rw [nothing (by simp)]
    by_cases tool : s.kind = .tool
    · simp [Stage.inFlight, metered, tool, counted tool]
    · simp [Stage.inFlight, metered, tool]
  | addModelUsage =>
    rw [nothing (by simp)]
    simp [Stage.inFlight, metered, Usage.addModel]
  | raise may failed =>
    have worthless : written now o r = [] := ConsistencyLemmas.written_failure failed
    have same : metered o u = u := by
      cases o <;> first | rfl | cases failed
    rw [worthless, same]
    simp [Stage.inFlight, worth]
  | _ =>
    rw [nothing (by simp)]
    simp [Stage.inFlight, metered]

/-- The verifier of a metered step completes nothing. -/
theorem written_landed {ans : Answer} {o : Op} {r : Ans o} {loc : Local}
    (acts : TaskActs cfg w w' p c b ans proc rec t o r loc)
    (ok : accounted w (.task p c b ans)) (landed : t.stage.landed rec.call.kind = true) :
    written w.now o r = [] := by
  have raises := (ok proc acts.hp rec acts.at_.1 t acts.at_.2).2 landed
  have run := acts.run
  have moves := StepSetup.moves acts.may r
  generalize (rec.call.setup cfg _ _ t.key).next t.stage o r = stage' at moves
  generalize t.stage = stage at moves landed
  cases moves with
  | resolve => exact absurd ((append_answered run).symm.trans raises) (by simp)
  | raise _ failed => exact ConsistencyLemmas.written_failure failed
  | _ => cases landed

/-- The key of a step of another kind does not count. -/
theorem keyed_other (unmixed : w'.Unmixed) (h : w.step cfg a = some w') {ans : Answer} {o : Op}
    {r : Ans o} {loc : Local} (acts : TaskActs cfg w w' p c b ans proc rec t o r loc)
    (other : rec.call.kind ≠ kind) (result : Value) :
    w'.keyed proc.loc.runId kind t.key result = false :=
  Bool.eq_false_iff.mpr fun called => other <|
    unmixed _ t.key _ _ (calledAs_step h (calledAs_iff.mpr
      ⟨p, proc, acts.hp, rfl, c, b, rec, t, acts.at_, rfl, rfl⟩)) called

theorem tools_step (numbered : w.store.Numbered) (sole : w.Sole) (signed : w.Signed)
    (unmixed : w'.Unmixed)
    (shaped : ∀ (p : Nat) (proc : Proc), w.procs[p]? = some proc → proc.Shaped cfg)
    (h : w.step cfg a = some w') (ok : accounted w a) (inv : w.ToolsCounted)
    (rows : w.RowsCover .tool (fun _ => 1) fun u => u.toolCalls) : w'.ToolsCounted := by
  intro q proc' hq live u held
  cases held_cases shaped h hq live held with
  | @kept proc _ hp alive run was other number =>
    obtain ⟨es, log, -⟩ := log_step numbered shaped h proc.loc.runId
    have none := others_complete_nothing sole numbered shaped h hp alive was other log
    rw [number Stage.inFlight (fun _ => rfl), ← run, log, worth_grown
      (fun e mem key completes result => keyed_step signed unmixed h mem completes result)
      fun e mem key completes => absurd completes (none e mem key)]
    exact inv q proc hp alive u was
  | @metered proc c b ans rec t o r loc ctx is acts run hctx =>
    have le := inv q proc acts.hp acts.alive _ (held_of_ctx hctx)
    have log := acts.log numbered proc.loc.runId
    rw [if_pos rfl] at log
    have number := number_acts acts hq Stage.inFlight
    have old : ∀ e ∈ w.store.loadEvents proc.loc.runId, ∀ key, e.completes key → ∀ result,
        w'.keyed proc.loc.runId .tool key result = w.keyed proc.loc.runId .tool key result :=
      fun e mem key completes result => keyed_step signed unmixed h mem completes result
    rw [← run, log, worth_append, worth_congr old]
    subst is
    have next := flight_next (r := r) acts.may w.now ctx.usage
      (fun landed => written_landed acts ok landed) fun other result =>
        keyed_other unmixed h acts other result
    have number : ((proc'.number Stage.inFlight : Nat) : Rat) +
        (t.stage.inFlight rec.call.kind).toNat = proc.number Stage.inFlight +
        (((rec.call.setup cfg proc.loc.runId proc.loc.guarded t.key).next t.stage o r).inFlight
          rec.call.kind).toNat := by exact_mod_cast number
    have kind : (rec.call.setup cfg proc.loc.runId proc.loc.guarded t.key).kind =
        rec.call.kind := rfl
    rw [kind] at next
    linarith
  | @read proc _ _ _ hp alive reading run same found calls =>
    have all := rows_all rows (fun key => run ▸ reading_settled sole shaped hp alive reading) found
    have number : proc'.number Stage.inFlight = 0 := by rw [Proc.number, calls]; rfl
    rw [number, same, Nat.cast_zero, add_zero]
    refine le_trans (worth_congr fun e mem key completes result => ?_).le all
    exact keyed_step signed unmixed h mem completes result

/-- What an attempt has still to count of what is completed only changes where a model step
counts it. -/
theorem unbilled_same (inv : w.Consistent cfg)
    (shaped : ∀ (p : Nat) (proc : Proc), w.procs[p]? = some proc → proc.Shaped cfg)
    (h : w.step cfg a = some w') (ok : accounted w a) (hq : w'.procs[q]? = some proc')
    (hp : w.procs[q]? = some proc) {e : Event}
    (mem : e ∈ w.store.loadEvents proc.loc.runId) (completes : e.completes key)
    (uncounted : ∀ c b ans rec t v, a = .task q c b ans → proc.At c b rec t →
      rec.call.kind = .model → t.stage = .saved v → t.key ≠ key) :
    proc'.unbilled key = proc.unbilled key := by
  cases was : proc.unbilled key with
  | false =>
    refine Bool.eq_false_iff.mpr fun is => ?_
    exact absurd (was.symm.trans (unbilled_step inv shaped h hq hp mem completes is)) (by simp)
  | true =>
    obtain ⟨c, b, rec, t, at_, model, hkey, stage⟩ := unbilled_iff.mp was
    obtain ⟨_, rec', t', hq', -, at', same, hkey', -, still | ⟨ans, o, r, loc, is, acts, next⟩⟩ :=
      task_next shaped h hp at_
    · obtain rfl := Option.some.inj (hq.symm.trans hq')
      exact unbilled_iff.mpr ⟨c, b, rec', t', at', same.call ▸ model, hkey'.trans hkey,
        still ▸ stage⟩
    · obtain rfl := Option.some.inj (hq.symm.trans hq')
      rcases unbilled_next acts (is ▸ ok) model stage with still | ⟨v, _, saved, -⟩
      · exact unbilled_iff.mpr ⟨c, b, rec', t', at', same.call ▸ model, hkey'.trans hkey,
          next ▸ still⟩
      · exact absurd hkey (uncounted c b ans rec t v is at_ model saved)

/-- A completion a model step writes has its usage still to count. -/
theorem written_unbilled {ans : Answer} {o : Op} {r : Ans o} {loc : Local}
    (acts : TaskActs cfg w w' p c b ans proc rec t o r loc)
    (ok : accounted w (.task p c b ans)) (model : rec.call.kind = .model)
    {e : Event} (mem : e ∈ written w.now o r) (completes : e.completes key) :
    ((rec.call.setup cfg proc.loc.runId proc.loc.guarded t.key).next t.stage o r).unbilled =
      true := by
  have silent := written_landed acts ok
  rw [model] at silent
  have closes := (written_completes acts.may mem completes).2
  have moves := StepSetup.moves acts.may r
  generalize (rec.call.setup cfg _ _ t.key).next t.stage o r = stage' at moves
  generalize t.stage = stage at moves closes silent
  rcases closes with ⟨v, rfl⟩ | ⟨n, v, rfl⟩
  · rw [silent rfl] at mem
    cases mem
  · cases moves with
    | complete => rfl
    | raise _ failed =>
      rw [ConsistencyLemmas.written_failure failed] at mem
      cases mem

/-- A model step that has saved its completion counts it next. -/
theorem saved_bills {ans : Answer} {o : Op} {r : Ans o} {loc : Local} {v : Value}
    (acts : TaskActs cfg w w' p c b ans proc rec t o r loc) (model : rec.call.kind = .model)
    (saved : t.stage = .saved v) : ∃ response, ModelResponse.fromDict v = .ok response ∧
      o = .addModelUsage response.inputTokens response.outputTokens response.costUsd := by
  have may := acts.may
  rw [saved] at may
  rcases may with ⟨tool, -⟩ | ⟨-, response, read, is⟩
  · exact absurd (model.symm.trans tool) (by simp)
  · exact ⟨response, read, is⟩

/-- What it counts is what its completion in the log is worth. -/
theorem bill_insert (inv : w.Consistent cfg) (signed : w.Signed) (unmixed : w'.Unmixed)
    (shaped : ∀ (p : Nat) (proc : Proc), w.procs[p]? = some proc → proc.Shaped cfg)
    (shaped' : ∀ (p : Nat) (proc : Proc), w'.procs[p]? = some proc → proc.Shaped cfg)
    {ans : Answer} (h : w.step cfg (.task p c b ans) = some w')
    (ok : accounted w (.task p c b ans)) (hq : w'.procs[p]? = some proc')
    {o : Op} {r : Ans o} {loc : Local} {v : Value} {ctx : RunContext}
    (acts : TaskActs cfg w w' p c b ans proc rec t o r loc) (model : rec.call.kind = .model)
    (saved : t.stage = .saved v) (hctx : proc.loc.ctx = some ctx) :
    worth m.due (fun key result =>
        w.keyed proc.loc.runId .model key result && !proc.unbilled key)
        (w.store.loadEvents proc.loc.runId) + m.due v =
      worth m.due (fun key result =>
        w'.keyed proc.loc.runId .model key result && !proc'.unbilled key)
        (w.store.loadEvents proc.loc.runId) := by
  obtain ⟨response, -, rfl⟩ := saved_bills acts model saved
  obtain ⟨_, rec', t', hq', -, at', same, hkey, hstage⟩ := acts.moved
  obtain rfl := Option.some.inj (hq.symm.trans hq')
  obtain ⟨life, hlife, agrees⟩ := (inv.procs p proc acts.hp acts.alive).tasks ctx hctx c b rec t
    acts.at_
  rw [saved] at agrees hstage
  obtain rfl : life = .done v := agrees
  obtain ⟨e, mem, ekey, by_, payload⟩ := done_recorded hlife
  obtain ⟨front, back, split⟩ := List.append_of_mem mem
  have called : w.calledAs proc.loc.runId .model t.key = true :=
    calledAs_iff.mpr ⟨p, proc, acts.hp, rfl, c, b, rec, t, acts.at_, model, rfl⟩
  rw [split]
  refine worth_insert ekey payload ?_ ?_ fun f fmem key completes result => ?_
  · have owed : proc.unbilled t.key = true :=
      unbilled_iff.mpr ⟨c, b, rec, t, acts.at_, model, rfl, by rw [saved]; rfl⟩
    rw [owed]
    exact Bool.and_false _
  · have counted : proc'.unbilled t.key = false := by
      refine Bool.eq_false_iff.mpr fun unbilled => ?_
      obtain ⟨c', b', rec'', t'', at'', -, key'', stage''⟩ := unbilled_iff.mp unbilled
      obtain ⟨rfl, rfl⟩ := at_key_inj (shaped' p _ hq).nodup at' at'' (hkey.trans key''.symm)
      obtain rfl := Option.some.inj (at'.1.symm.trans at''.1)
      obtain rfl := Option.some.inj (at'.2.symm.trans at''.2)
      rw [hstage] at stage''
      cases stage''
    rw [counted, World.keyed, calledAs_step h called]
    rfl
  · have other : key ≠ t.key := by
      rintro rfl
      exact completed_once hlife split ⟨ekey, v, by_, payload⟩ f fmem completes
    have fmem : f ∈ w.store.loadEvents proc.loc.runId := by
      rw [split]
      rcases List.mem_append.mp fmem with before | after
      · exact List.mem_append_left _ before
      · exact List.mem_append_right _ (List.mem_cons_of_mem e after)
    rw [keyed_step signed unmixed h fmem completes, unbilled_same inv shaped h ok hq acts.hp fmem
      completes fun c' b' _ _ _ _ is at_ _ _ => ?_]
    cases is
    obtain rfl := Option.some.inj (acts.at_.1.symm.trans at_.1)
    obtain rfl := Option.some.inj (acts.at_.2.symm.trans at_.2)
    exact other.symm

theorem models_step (numbered : w.store.Numbered) (sole : w.Sole) (inv : w.Consistent cfg)
    (signed : w.Signed) (unmixed : w'.Unmixed)
    (shaped : ∀ (p : Nat) (proc : Proc), w.procs[p]? = some proc → proc.Shaped cfg)
    (shaped' : ∀ (p : Nat) (proc : Proc), w'.procs[p]? = some proc → proc.Shaped cfg)
    (h : w.step cfg a = some w') (ok : accounted w a) (counted : w.ModelsCounted m)
    (rows : w.RowsCover .model m.due m.read) : w'.ModelsCounted m := by
  intro q proc' hq live u held
  cases held_cases shaped h hq live held with
  | @kept proc _ hp alive run was other number =>
    obtain ⟨es, log, -⟩ := log_step numbered shaped h proc.loc.runId
    have none := others_complete_nothing sole numbered shaped h hp alive was other log
    rw [← run, log, worth_grown (fun e mem key completes result => ?_)
      fun e mem key completes => absurd completes (none e mem key)]
    · exact counted q proc hp alive u was
    · rw [keyed_step signed unmixed h mem completes, unbilled_same inv shaped h ok hq hp mem
        completes fun c b ans _ _ _ is => absurd is (other c b ans)]
  | @metered proc c b ans rec t o r loc ctx is acts run hctx =>
    subst is
    have le := counted q proc acts.hp acts.alive _ (held_of_ctx hctx)
    have log := acts.log numbered proc.loc.runId
    rw [if_pos rfl] at log
    obtain ⟨_, rec', t', hq', -, at', same, hkey, hstage⟩ := acts.moved
    obtain rfl := Option.some.inj (hq.symm.trans hq')
    -- what it completes now it has still to count
    have none : ∀ e ∈ written w.now o r, ∀ key, e.completes key → ∀ result,
        (w'.keyed proc.loc.runId .model key result && !proc'.unbilled key) = false := by
      intro e mem key completes result
      obtain rfl := (written_completes acts.may mem completes).1
      by_cases model : rec.call.kind = .model
      · have owed : proc'.unbilled t.key = true := unbilled_iff.mpr ⟨c, b, rec', t', at',
          same.call ▸ model, hkey, hstage ▸ written_unbilled acts ok model mem completes⟩
        show (_ && !proc'.unbilled t.key) = false
        rw [owed]
        exact Bool.and_false _
      · show (w'.keyed proc.loc.runId .model t.key result && _) = false
        rw [keyed_other unmixed h acts model result]
        rfl
    rw [← run, log]
    by_cases counts : rec.call.kind = .model ∧ ∃ v, t.stage = .saved v
    · obtain ⟨model, v, saved⟩ := counts
      obtain ⟨response, read, rfl⟩ := saved_bills acts model saved
      have bill : m.read (metered (.addModelUsage response.inputTokens response.outputTokens
          response.costUsd) ctx.usage) = m.read ctx.usage + m.due v := by
        rw [m.due_of_fromDict read]
        exact m.model _ _
      have more := bill_insert inv signed unmixed shaped shaped' h ok hq acts model saved hctx
        (m := m)
      rw [bill, show written w.now _ r = [] from rfl, List.append_nil, ← more]
      gcongr
    · have same : m.read (metered o ctx.usage) = m.read ctx.usage := by
        have moves := StepSetup.moves acts.may r
        generalize (rec.call.setup cfg _ _ t.key).next t.stage o r = stage' at moves
        generalize t.stage = stage at moves counts
        cases moves with
        | addToolCall => exact m.tool _
        | addModelUsage model => exact absurd ⟨model, _, rfl⟩ counts
        | raise _ failed => cases o <;> first | rfl | cases failed
        | _ => rfl
      rw [same, worth_grown (fun e mem key completes result => ?_) none]
      · exact le
      · rw [keyed_step signed unmixed h mem completes, unbilled_same inv shaped h ok hq acts.hp mem
          completes fun c' b' _ _ _ v is at_ model saved => ?_]
        cases is
        obtain rfl := Option.some.inj (acts.at_.1.symm.trans at_.1)
        obtain rfl := Option.some.inj (acts.at_.2.symm.trans at_.2)
        exact absurd ⟨model, v, saved⟩ counts
  | @read proc _ _ _ hp alive reading run same found calls =>
    have all := rows_all rows (fun key => run ▸ reading_settled sole shaped hp alive reading) found
    have none : ∀ key, proc'.unbilled key = false := fun key => by rw [Proc.unbilled, calls]; rfl
    rw [same]
    refine le_trans (worth_congr fun e mem key completes result => ?_).le all
    rw [none, keyed_step signed unmixed h mem completes]
    exact Bool.and_true _

/-! The row. -/

/-- The action has saved the usage of an attempt of the run. -/
inductive Saves (cfg : Config) (w w' : World) (a : Action) (j : Uuid) : Prop
  | task {p c b : Nat} {ans : Answer} {proc : Proc} {rec : CallRecord} {t : Task} {loc : Local} :
      a = .task p c b ans → TaskActs cfg w w' p c b ans proc rec t .saveUsage (.ok ()) loc →
      proc.loc.runId = j → Saves cfg w w' a j
  | main {p : Nat} {ans : Answer} {proc : Proc} {loc : Local} :
      MainActs cfg w w' p ans proc .saveUsage (.ok ()) loc → proc.loc.runId = j →
      Saves cfg w w' a j

theorem saves_held (saves : Saves cfg w w' a j) :
    ∃ (q : Nat) (proc' : Proc) (u : Usage), w'.procs[q]? = some proc' ∧ proc'.stopped = false ∧
      proc'.loc.runId = j ∧ proc'.held = some u ∧
      w'.store.usage j = (w.store.usage j).map fun _ => u := by
  cases saves with
  | @task p c b ans proc rec t loc is acts run =>
    obtain ⟨ctx, hctx, rfl, row⟩ := exec_saveUsage acts.run
    obtain ⟨proc', _, _, hp', same, -⟩ := acts.moved
    exact ⟨p, proc', ctx.usage, hp', acts.live hp', same ▸ run, held_of_ctx (same ▸ hctx),
      run ▸ row⟩
  | @main p ans proc loc acts run =>
    obtain ⟨ctx, hctx, rfl, row⟩ := exec_saveUsage acts.run
    obtain ⟨proc', hp', same, -, -, -, alive⟩ := acts.moved
    exact ⟨p, proc', ctx.usage, hp', alive, same ▸ run, held_of_ctx (same ▸ hctx), run ▸ row⟩

theorem exec_saves {now : Int} {st st' : Store} {loc loc' : Local} {ans : Answer} {o : Op}
    {r : Ans o} (run : exec cfg now st loc ans o = some (r, st', loc')) (j : Uuid) :
    st'.usage j = st.usage j ∨ (o = .saveUsage ∧ HEq r (Except.ok (ε := Exn) ()) ∧
      j = loc.runId) := by
  rcases exec_usage run j with same | ⟨rfl, own, -⟩
  · exact .inl same
  · cases r with
    | ok => exact .inr ⟨rfl, HEq.rfl, own⟩
    | error exc =>
      obtain ⟨ctx, -, run⟩ := Option.bind_eq_some_iff.mp run
      rcases (ExecLemmas.storeCall_cases run).2 with ⟨_, -, ok⟩ | ⟨_, -, same, -⟩
      · cases ok
      · exact .inl (by rw [same])

theorem usage_cases
    (shaped : ∀ (p : Nat) (proc : Proc), w.procs[p]? = some proc → proc.Shaped cfg)
    (h : w.step cfg a = some w') (j : Uuid) : Saves cfg w w' a j ∨
      w'.store.usage j = w.store.usage j ∨
      (w.store.usage j = none ∧ w'.store.usage j = some .zero) := by
  cases a with
  | task p c b ans =>
    obtain ⟨proc, rec, t, o, r, loc, acts⟩ := task_acts shaped h
    rcases exec_saves acts.run j with same | ⟨rfl, ok, own⟩
    · exact .inr (.inl same)
    · cases ok
      exact .inl (.task rfl acts own.symm)
  | main p ans =>
    obtain ⟨proc, o, r, loc, acts⟩ := main_acts shaped h
    rcases exec_saves acts.run j with same | ⟨rfl, ok, own⟩
    · exact .inr (.inl same)
    · cases ok
      exact .inl (.main acts own.symm)
  | _ =>
    rcases step_usage h j with same | zero | ⟨_, _, _, code, -⟩
    · exact .inr (.inl same)
    · exact .inr (.inr zero)
    · exact code.elim

theorem logged_completes {log : List Event} :
    logged key Payload.isCompletion log = true ↔ ∃ e ∈ log, e.completes key := by
  simp only [logged, List.any_eq_true, Event.under, Bool.and_eq_true, decide_eq_true_eq,
    Event.completes]
  refine exists_congr fun e => and_congr_right fun _ => and_congr_right fun _ => ?_
  cases e.payload <;> simp [Payload.isCompletion]

/-- The steps of an attempt that owes its row nothing. -/
theorem not_unsaved (none : proc.unsaved = false) (at_ : proc.At c b rec t) :
    t.stage.unsaved rec.call.kind = false :=
  Bool.eq_false_iff.mpr fun owes =>
    Bool.eq_false_iff.mp none (any_task.mpr ⟨c, b, rec, t, at_, owes⟩)

/-- A step that owes a row that exists is not forgotten, unless it is saved. -/
theorem unsaved_step
    (shaped : ∀ (p : Nat) (proc : Proc), w.procs[p]? = some proc → proc.Shaped cfg)
    (h : w.step cfg a = some w') (ok : accounted w a) (owes : w.Unsaved j kind key) :
    w'.Unsaved j kind key ∨ Saves cfg w w' a j := by
  obtain ⟨p, proc, hp, alive, run, c, b, rec, t, at_, rfl, hkey, unsaved⟩ := owes
  obtain ⟨proc', rec', t', hp', run', at', same, hkey', stopped, next⟩ := task_next shaped h hp at_
  have alive' : proc'.stopped = false := by
    rcases stopped with same | rfl
    · exact same.trans alive
    · cases unsaved.symm.trans (not_unsaved (ok proc hp) at_)
  have goes_on : t'.stage.unsaved rec.call.kind = true → w'.Unsaved j rec.call.kind key :=
    fun still => ⟨p, proc', hp', alive', run'.trans run, c, b, rec', t', at',
      congrArg Call.kind same.call, hkey'.trans hkey, still⟩
  rcases next with still | ⟨ans, o, r, loc, is, acts, stage⟩
  · exact .inl (goes_on (still ▸ unsaved))
  · rcases unsaved_next acts (is ▸ ok) unsaved with still | ⟨rfl, saved⟩
    · exact .inl (goes_on (stage ▸ still))
    · cases saved
      exact .inr (.task is acts run)

/-- A key that a step of the next world completes has its usage to save. -/
theorem completion_unsaved {e : Event} {es : List Event} (numbered : w.store.Numbered)
    (unmixed : w'.Unmixed)
    (shaped : ∀ (p : Nat) (proc : Proc), w.procs[p]? = some proc → proc.Shaped cfg)
    (h : w.step cfg a = some w') (ok : accounted w a) (metered : kind ≠ .plain)
    (log : w'.store.loadEvents j = w.store.loadEvents j ++ es) (mem : e ∈ es)
    (completes : e.completes key) (called : w'.calledAs j kind key = true) :
    w'.Unsaved j kind key := by
  obtain ⟨p, c, b, ans, proc, rec, t, r, loc, is, acts, rfl, run, one⟩ :=
    event_cases numbered shaped h log mem (completes_concerns completes)
  subst is
  obtain ⟨proc', rec', t', hp', same, at', sameCall, hkey, stage⟩ := acts.moved
  have own : rec.call.kind = kind := unmixed j t.key _ _ (calledAs_step h (calledAs_iff.mpr
    ⟨p, proc, acts.hp, run, c, b, rec, t, acts.at_, rfl, rfl⟩)) called
  have written_ : e ∈ written w.now (.appendEvent (some t.key) e.payload) r := by
    have own := acts.log numbered j
    rw [if_pos run.symm] at own
    rw [← List.append_cancel_left (log.symm.trans own)]
    exact mem
  refine ⟨p, proc', hp', acts.live hp', same ▸ (exec_ctx acts.run).1.trans run, c, b, rec', t',
    at', congrArg Call.kind sameCall.call |>.trans own, hkey, ?_⟩
  have silent := written_landed acts ok
  rw [own] at silent
  have closes := (written_completes acts.may written_ completes).2
  have moves := StepSetup.moves acts.may r
  rw [← stage] at moves
  generalize t'.stage = stage' at moves
  generalize t.stage = before at moves closes silent
  rcases closes with ⟨v, rfl⟩ | ⟨n, v, rfl⟩
  · rw [silent (by simpa [Stage.landed] using metered)] at written_
    cases written_
  · generalize Op.appendEvent (some t.key) e.payload = o at *
    cases moves with
    | complete => simpa [Stage.unsaved] using metered
    | raise _ failed =>
      rw [ConsistencyLemmas.written_failure failed] at written_
      cases written_

/-- A run that is not there yet has no keys. -/
theorem uncalled (rows : w.Rows)
    (shaped : ∀ (p : Nat) (proc : Proc), w.procs[p]? = some proc → proc.Shaped cfg)
    (h : w.step cfg a = some w') (absent : w.store.usage j = none) :
    w'.calledAs j kind key = false := by
  have there : ∀ {p : Nat} {proc : Proc}, w.procs[p]? = some proc → proc.loc.runId = j →
      proc.loc.ctx.isSome = true → False := by
    intro p proc hp run known
    have row := rows p proc hp (.inr known)
    rw [run, Store.standing, Option.isSome_map] at row
    rw [Store.usage, Option.map_eq_none_iff] at absent
    rw [absent] at row
    cases row
  refine Bool.eq_false_iff.mpr fun called => ?_
  rcases calledAs_cases shaped h called with old | ⟨p, _, _, _, proc, ctx, _, -, hp, run, hctx, -⟩
  · obtain ⟨p, proc, hp, run, c, b, rec, t, at_, -, -⟩ := calledAs_iff.mp old
    exact there hp run (at_known (shaped p proc hp) at_)
  · exact there hp run (by rw [hctx]; rfl)

theorem rows_cover_step {value : Value → Rat} {read : Usage → Rat} (owes : Proc → String → Bool)
    (numbered : w.store.Numbered) (rows : w.Rows) (inv' : w'.Consistent cfg) (signed : w.Signed)
    (unmixed : w'.Unmixed)
    (shaped : ∀ (p : Nat) (proc : Proc), w.procs[p]? = some proc → proc.Shaped cfg)
    (h : w.step cfg a = some w') (ok : accounted w a) (metered : kind ≠ .plain)
    (zero : read .zero = 0)
    (owed : ∀ proc key, owes proc key = true → ∃ c b rec t, proc.At c b rec t ∧
      rec.call.kind = kind ∧ t.key = key ∧ t.stage.unsaved kind = true)
    (counted : ∀ (q : Nat) (proc' : Proc) (u : Usage), w'.procs[q]? = some proc' →
      proc'.stopped = false → proc'.held = some u → worth value (fun key result =>
        w'.keyed proc'.loc.runId kind key result && !owes proc' key)
        (w'.store.loadEvents proc'.loc.runId) ≤ read u)
    (cover : w.RowsCover kind value read) : w'.RowsCover kind value read := by
  intro j u hu
  obtain ⟨es, log, -⟩ := log_step numbered shaped h j
  by_cases saves : Saves cfg w w' a j
  · -- all that the attempt has counted is on the row now
    obtain ⟨q, proc', u', hq, live, run, held, row⟩ := saves_held saves
    obtain rfl : u' = u := by
      rw [row, Option.map_eq_some_iff] at hu
      obtain ⟨_, -, is⟩ := hu
      exact is
    have le := counted q proc' u' hq live held
    rw [run] at le
    refine ⟨fun key => w'.calledAs j kind key && !owes proc' key &&
      logged key Payload.isCompletion (w'.store.loadEvents j), ?_, fun key is => ?_,
      fun e mem key completes called => ?_⟩
    · refine le.trans' (worth_congr fun e mem key completes _ => ?_).le
      simp only [logged_completes.mpr ⟨e, mem, completes⟩, Bool.and_true]
      rfl
    · simp only [Bool.and_eq_true] at is
      exact ⟨is.1.1, is.2⟩
    · simp only [called, logged_completes.mpr ⟨e, mem, completes⟩, Bool.true_and, Bool.and_true]
      cases owing : owes proc' key with
      | false => exact .inl rfl
      | true => exact .inr ⟨q, proc', hq, live, run, owed proc' key owing⟩
  · rcases (usage_cases shaped h j).resolve_left saves with same | ⟨absent, start⟩
    · -- the row is as it was, and owes what it owed and what has just been completed
      obtain ⟨saved, le, own, all⟩ := cover j u (same ▸ hu)
      refine ⟨saved, ?_, fun key is => ?_, fun e mem key completes called => ?_⟩
      · rw [log, worth_grown (fun _ _ _ _ _ => rfl) fun e mem key completes _ => ?_]
        · exact le
        · refine Bool.eq_false_iff.mpr fun is => ?_
          obtain ⟨f, fmem, again⟩ := logged_completes.mp (own key is).2
          obtain ⟨life, accepted⟩ := inv'.lives j key
          obtain ⟨front, back, rfl⟩ := List.append_of_mem mem
          exact completed_once accepted (log.trans (List.append_assoc _ _ _).symm) completes f
            (List.mem_append_left _ (List.mem_append_left _ fmem)) again
      · refine ⟨calledAs_step h (own key is).1, ?_⟩
        rw [log, LifecycleLemmas.logged_append, (own key is).2]
        rfl
      · rw [log] at mem
        rcases List.mem_append.mp mem with old | new
        · have called' : w.calledAs j kind key = true :=
            (keyed_step signed unmixed h old completes .none).symm.trans called
          refine (all e old key completes called').imp_right fun owing => ?_
          exact (unsaved_step shaped h ok owing).resolve_right saves
        · exact .inr (completion_unsaved numbered unmixed shaped h ok metered log new completes
            called)
    · -- a new row of a run nobody has worked on
      obtain rfl := Option.some.inj (hu.symm.trans start)
      refine ⟨fun _ => false, ?_, nofun, fun e _ key _ called => ?_⟩
      · rw [zero, worth_zero fun _ _ _ _ _ => rfl]
      · exact absurd (called.symm.trans (uncalled rows shaped h absent)) (by simp)

end BillingLemmas

/-! ## The run -/

/-- Rows and attempts under way account for the completed tool and model steps. -/
structure World.Covered (m : Meter) (w : World) : Prop where
  tools : w.ToolsCounted
  models : w.ModelsCounted m
  toolRows : w.RowsCover .tool (fun _ => 1) fun u => u.toolCalls
  modelRows : w.RowsCover .model m.due m.read

namespace BillingLemmas

variable {cfg : Config} {w w' : World} {a : Action} {m : Meter}

theorem covered_init (m : Meter) (now : Int) : (World.init now).Covered m where
  tools := fun _ _ hp => absurd hp (by simp [World.init])
  models := fun _ _ hp => absurd hp (by simp [World.init])
  toolRows := fun _ _ saved => by cases saved
  modelRows := fun _ _ saved => by cases saved

theorem covered_step (numbered : w.store.Numbered) (rows : w.Rows) (sole : w.Sole)
    (inv : w.Consistent cfg) (inv' : w'.Consistent cfg) (signed : w.Signed) (unmixed : w'.Unmixed)
    (shaped : ∀ (p : Nat) (proc : Proc), w.procs[p]? = some proc → proc.Shaped cfg)
    (shaped' : ∀ (p : Nat) (proc : Proc), w'.procs[p]? = some proc → proc.Shaped cfg)
    (h : w.step cfg a = some w') (ok : accounted w a) (covered : w.Covered m) :
    w'.Covered m := by
  have tools := tools_step numbered sole signed unmixed shaped h ok covered.tools covered.toolRows
  have models := models_step numbered sole inv signed unmixed shaped shaped' h ok covered.models
    covered.modelRows
  refine ⟨tools, models, ?_, ?_⟩
  · refine rows_cover_step (fun _ _ => false) numbered rows inv' signed unmixed shaped h ok
      (by decide) rfl (fun _ _ is => absurd is Bool.false_ne_true)
      (fun q proc' u hq live held => ?_) covered.toolRows
    have le := tools q proc' hq live u held
    simp only [Bool.not_false, Bool.and_true]
    exact (le_add_of_nonneg_right (Nat.cast_nonneg _)).trans le
  · refine rows_cover_step Proc.unbilled numbered rows inv' signed unmixed shaped h ok (by decide)
      m.zero (fun proc key owed => ?_)
      (fun q proc' u hq live held => models q proc' hq live u held) covered.modelRows
    obtain ⟨c, b, rec, t, at_, model, hkey, stage⟩ := unbilled_iff.mp owed
    refine ⟨c, b, rec, t, at_, model, hkey, ?_⟩
    cases hs : t.stage <;> rw [hs] at stage <;> first | rfl | cases stage

end BillingLemmas

theorem covered_reaches {cfg : Config} {now : Int} {ok : World → Action → Prop} {w : World}
    (m : Meter) (h : Reaches (World.step cfg) ok (.init now) w)
    (fair : ∀ w a, ok w a → bookkeeping cfg w a) : w.Covered m :=
  h.invariant (covered_init m now) fun _ _ _ reached inv good step =>
    covered_step (numbered_reaches reached) (rows_reaches reached)
      (sole_reaches reached fun w a ok => (fair w a ok).1)
      (consistent_reaches reached fun w a ok => (fair w a ok).1)
      (consistent_reaches (.tail reached good step) fun w a ok => (fair w a ok).1)
      (signed_reaches reached)
      (unmixed_reaches (.tail reached good step) fun w a ok => (fair w a ok).2.2)
      (fun _ _ => shaped_reaches reached) (fun _ _ => shaped_reaches (.tail reached good step))
      step (fair _ _ good).2.1 inv

/-! ## When an attempt has finished -/

/-- The attempt has found or left its run in a terminal status. -/
def Proc.settled (proc : Proc) : Bool :=
  match proc.phase with
  | .settled => true
  | _ => false

/-- The usage accounts for every completed model and tool step in the log. -/
structure Usage.Accounts (u : Usage) (w : World) (j : Uuid) : Prop where
  modelCalls : worth Meter.modelCalls.due (w.keyed j .model) (w.store.loadEvents j) ≤ u.modelCalls
  inputTokens :
    worth Meter.inputTokens.due (w.keyed j .model) (w.store.loadEvents j) ≤ u.inputTokens
  outputTokens :
    worth Meter.outputTokens.due (w.keyed j .model) (w.store.loadEvents j) ≤ u.outputTokens
  costUsd : worth Meter.costUsd.due (w.keyed j .model) (w.store.loadEvents j) ≤ u.costUsd
  toolCalls : worth (fun _ => 1) (w.keyed j .tool) (w.store.loadEvents j) ≤ u.toolCalls

namespace BillingLemmas

variable {cfg : Config} {w w' : World} {a : Action} {p c b : Nat} {proc proc' : Proc}
  {rec : CallRecord} {t : Task} {j : Uuid} {key : String} {kind : StepKind}

theorem settled_iff : proc.settled = true ↔ proc.phase = .settled := by
  unfold Proc.settled
  cases proc.phase <;> simp

/-- An attempt that finishes owes nothing. -/
theorem finish_settled (shaped : proc.Shaped cfg) {ans : Answer} {o : Op} {r : Ans o} {loc : Local}
    (acts : MainActs cfg w w' p ans proc o r loc) (ok : accounted w (.main p ans))
    (before : proc.settled = false) (after : proc.phase.next o r = .settled)
    (at_ : proc.At c b rec t) : t.stage.unsaved rec.call.kind = false := by
  have unsettled : proc.phase ≠ .settled := fun is =>
    absurd (settled_iff.mpr is) (by rw [before]; exact Bool.false_ne_true)
  obtain ⟨k, hmain, -⟩ := acts.after
  have guard := ok proc acts.hp
  have moves := Phase.moves acts.may r
  generalize proc.phase.next o r = phase' at moves after
  generalize hphase : proc.phase = phase at moves unsettled
  cases moves with
  | terminal =>
    have none := shaped.uncalled (shaped.early (by rw [hphase]; trivial))
    exact absurd at_.1 (by simp [none])
  | finish result error terminal =>
    refine not_unsaved (guard ?_) at_
    rw [Proc.finishing, hmain]
    exact terminal
  | snapshot | stopHeartbeat | dequeue => exact absurd after unsettled
  | leave name input r =>
    cases r with
    | ok v => cases after
    | error exc => cases exc <;> cases after
  | _ => cases after

end BillingLemmas

/-- A model call whose attempt goes on to complete the run. -/
def Sample.paid : List Action :=
  opening ++ [.call 0 none .workflow (.model "ask")] ++ advance 0 0 7 ++
    [.task 0 0 0 (.response response)] ++ advance 0 0 7 ++ [.main 0 (.value .none)] ++ proceed 0 3

/-- An attempt that crashes between the completion of a model call and its bill, and one that
replays the call and completes the run. -/
def Sample.unpaid : List Action :=
  opening ++ [.call 0 none .workflow (.model "ask")] ++ advance 0 0 7 ++
    [.task 0 0 0 (.response response), .task 0 0 0 .done, .stop 0, .tick 31000000,
      .claim "b" []] ++
    proceed 1 8 ++ [.call 1 none .workflow (.model "ask")] ++ advance 1 0 2 ++
    [.main 1 (.value .none)] ++ proceed 1 4

end AnchorRuntime
