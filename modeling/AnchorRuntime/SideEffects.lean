import AnchorRuntime.Actors

/-!
# Effects keyed by the step's token

`side_effects` stands for a downstream system that dedupes on the token of a step. Bodies
record their effect in it, verifiers look it up, and neither goes through the runtime. The
system and the table are joined here: between two steps of the system a body that is running, a
verifier that is running or any other code may call the table.

Results: `effects_exactly_once`, whatever the schedule, a step has at most one effect, which
never changes, and a completion of the step comes after it.
-/

namespace AnchorRuntime

open Effect Relational Machine ShapeLemmas ProcLemmas TaskLemmas

/-! ## The table -/

/-- A row of `side_effects`. -/
structure SideEffect where
  token : Uuid
  runId : Uuid
  kind : String
  payload : Value
  createdAt : Int

/-- `token UUID PRIMARY KEY` -/
abbrev SideEffects := Table SideEffect.token

/-- `record_side_effect`: `ON CONFLICT (token) DO NOTHING RETURNING token`. -/
def recordSideEffect (effects : SideEffects) (now : Int) (token runId : Uuid) (kind : String)
    (payload : Value) : Except Exn (Bool × SideEffects) :=
  if pgText kind && storableValue payload then
    match effects.insert ⟨token, runId, kind, payload, now⟩ with
    | some effects => .ok (true, effects)
    | none => .ok (false, effects)
  else .error dataError

/-- `find_side_effect` -/
def findSideEffect (effects : SideEffects) (token : Uuid) : Option SideEffect := effects.find token

/-! ## The joint system -/

/-- The creation of a row: the row, and the length of every run's log then. -/
structure Creation where
  row : SideEffect
  logged : Uuid → Nat

/-- The system and the table. The other fields record what happened: the creations, which tries
of which bodies have recorded their effect, and what the verifiers have found; an attempt and a
key tell a step. -/
structure Joint where
  world : World
  effects : SideEffects
  created : List Creation
  recorded : List (Nat × String × Nat)
  lookups : List (Nat × String × Bool)

def Joint.init (now : Int) : Joint := ⟨.init now, .empty, [], [], []⟩

inductive JointAction
  | base (a : Action)
  /-- The running body of a step records with the token it was given. -/
  | effect (p c b : Nat) (kind : String) (payload : Value)
  /-- The running verifier of a step looks up the token it was given. -/
  | lookUp (p c b : Nat)
  /-- Other code records, with any token. -/
  | foreign (token runId : Uuid) (kind : String) (payload : Value)

namespace Joint

/-- A call of `record_side_effect` that does not raise. -/
def record (w : Joint) (token runId : Uuid) (kind : String) (payload : Value) : Option Joint :=
  match recordSideEffect w.effects w.world.now token runId kind payload with
  | .error _ => none
  | .ok (false, _) => some w
  | .ok (true, effects) =>
    some { w with
      effects
      created := w.created ++ [⟨⟨token, runId, kind, payload, w.world.now⟩,
        fun j => (w.world.store.loadEvents j).length⟩] }

/-- The attempt and the task of a step under way. -/
def task? (w : Joint) (p c b : Nat) : Option (Proc × Task) := do
  let proc ← w.world.procs[p]?
  if proc.stopped then none
  let r ← proc.calls[c]?
  let t ← r.tasks[b]?
  return (proc, t)

def step (cfg : Config) (w : Joint) : JointAction → Option Joint
  | .base a => (w.world.step cfg a).map fun world => { w with world }
  | .effect p c b kind payload => do
    let (proc, t) ← w.task? p c b
    match t.stage with
    | .running n =>
      let w' ← w.record (stepToken cfg proc.loc.runId t.key) proc.loc.runId kind payload
      return { w' with recorded := w'.recorded ++ [(p, t.key, n)] }
    | _ => none
  | .lookUp p c b => do
    let (proc, t) ← w.task? p c b
    match t.stage with
    | .verifying =>
      let found := findSideEffect w.effects (stepToken cfg proc.loc.runId t.key)
      return { w with lookups := w.lookups ++ [(p, t.key, found.isSome)] }
    | _ => none
  | .foreign token runId kind payload => w.record token runId kind payload

end Joint

/-! ## The condition -/

/-- A body that returns has recorded its effect in this try, and a verifier returns what a
look-up has found: None if and only if that was nothing. -/
def Joint.goesByTable (w : Joint) (p : Nat) (t : Task) : Answer → Bool
  | .raise _ => true
  | .value v =>
    match t.stage with
    | .running n => w.recorded.contains (p, t.key, n)
    | .verifying => w.lookups.contains (p, t.key, !v.isNone)
    | _ => true
  | _ =>
    match t.stage with
    | .running n => w.recorded.contains (p, t.key, n)
    | _ => true

/-- The bodies and verifiers of the calls `keyed` go by the table. -/
def recording (keyed : Call → Bool) (w : Joint) : JointAction → Prop
  | .base (.task p c b ans) => ∀ proc ∈ w.world.procs[p]?, ∀ rec ∈ proc.calls[c]?,
    ∀ t ∈ rec.tasks[b]?, keyed rec.call = true → w.goesByTable p t ans = true
  | _ => True

instance (keyed : Call → Bool) (w : Joint) (a : JointAction) : Decidable (recording keyed w a) :=
  match a with
  | .base (.task p c b ans) => inferInstanceAs (Decidable (∀ proc ∈ w.world.procs[p]?,
      ∀ rec ∈ proc.calls[c]?, ∀ t ∈ rec.tasks[b]?, keyed rec.call = true →
        w.goesByTable p t ans = true))
  | .base (.submit _ _ _ _ _) | .base (.cancel _) | .base (.tick _) | .base (.claim _ _)
  | .base (.execute _) | .base (.beat _ _) | .base (.main _ _) | .base (.call _ _ _ _)
  | .base (.stop _) | .effect _ _ _ _ _ | .lookUp _ _ _ | .foreign _ _ _ _ => .isTrue trivial

/-! ## The invariant -/

/-- The stages at which a step has a result that is not in the log yet. -/
def Stage.holding : Stage → Bool
  | .returned _ _ | .recovered _ => true
  | _ => false

/-- The effect of the step is recorded. -/
def Joint.Effected (cfg : Config) (w : Joint) (j : Uuid) (key : String) : Prop :=
  (w.effects.find (stepToken cfg j key)).isSome = true

/-- What is recorded of the steps is true of the table. -/
structure Joint.Sound (cfg : Config) (keyed : Call → Bool) (w : Joint) : Prop where
  recorded : ∀ p key n, (p, key, n) ∈ w.recorded → ∃ proc, w.world.procs[p]? = some proc ∧
    w.Effected cfg proc.loc.runId key
  found : ∀ p key, (p, key, true) ∈ w.lookups → ∃ proc, w.world.procs[p]? = some proc ∧
    w.Effected cfg proc.loc.runId key
  holding : ∀ (p : Nat) (proc : Proc), w.world.procs[p]? = some proc → ∀ c b rec t,
    proc.At c b rec t → keyed rec.call = true → t.stage.holding = true →
    w.Effected cfg proc.loc.runId t.key
  created : ∀ row ∈ w.effects.rows, ∃ c ∈ w.created, c.row = row ∧
    ∀ j, c.logged j ≤ (w.world.store.loadEvents j).length
  completed : ∀ j key, w.world.KeyedBy keyed j key → ∀ i e,
    (w.world.store.loadEvents j)[i]? = some e → e.under key Payload.isCompletion = true →
    ∃ c ∈ w.created, c.row ∈ w.effects.rows ∧ c.row.token = stepToken cfg j key ∧ c.logged j ≤ i

namespace SideEffectLemmas

variable {cfg : Config} {keyed : Call → Bool} {w w' : Joint}

/-- What a call of `record_side_effect` leaves: the rows there were, and one for its token. -/
theorem record_cases {token runId : Uuid} {kind : String} {payload : Value}
    (h : w.record token runId kind payload = some w') :
    w'.world = w.world ∧ w'.recorded = w.recorded ∧ w'.lookups = w.lookups ∧
      (w'.effects.find token).isSome = true ∧
      ((w'.effects = w.effects ∧ w'.created = w.created) ∨
        ∃ row, w'.effects.rows = w.effects.rows ++ [row] ∧ w'.created = w.created ++
          [⟨row, fun j => (w.world.store.loadEvents j).length⟩]) := by
  unfold Joint.record recordSideEffect at h
  split at h
  · cases h
  · next same =>
    split at same
    · split at same
      · cases same
      · next taken =>
        cases same
        cases h
        refine ⟨rfl, rfl, rfl, ?_, .inl ⟨rfl, rfl⟩⟩
        by_contra absent
        obtain ⟨t, inserted⟩ := Table.insert_isSome
          (t := w.effects) (r := (⟨token, runId, kind, payload, w.world.now⟩ : SideEffect))
          (by simpa using absent)
        cases taken.symm.trans inserted
    · cases same
  · next same =>
    split at same
    · split at same
      · next inserted =>
        cases same
        cases h
        refine ⟨rfl, rfl, rfl, ?_, .inr ⟨_, (Table.rows_insert inserted).2, rfl⟩⟩
        show (Table.find _ _).isSome = true
        rw [Table.find_insert inserted, if_pos rfl]
        rfl
      · cases same
    · cases same

theorem effected_iff {j : Uuid} {key : String} :
    w.Effected cfg j key ↔ ∃ row ∈ w.effects.rows, row.token = stepToken cfg j key := by
  constructor
  · intro effected
    obtain ⟨row, found⟩ := Option.isSome_iff_exists.mp effected
    exact ⟨row, Table.find_mem found, Table.find_some_key found⟩
  · rintro ⟨row, mem, token⟩
    have found := Table.find_of_mem mem
    rw [token] at found
    exact Option.isSome_iff_exists.mpr ⟨row, found⟩

theorem effected_grows (grows : ∀ row ∈ w.effects.rows, row ∈ w'.effects.rows) {j : Uuid}
    {key : String} (h : w.Effected cfg j key) : w'.Effected cfg j key := by
  obtain ⟨row, mem, token⟩ := effected_iff.mp h
  exact effected_iff.mpr ⟨row, grows row mem, token⟩

/-- A call of `record_side_effect` adds to the table only. -/
theorem record_grows {token runId : Uuid} {kind : String} {payload : Value}
    (h : w.record token runId kind payload = some w') :
    ∀ row ∈ w.effects.rows, row ∈ w'.effects.rows := by
  obtain ⟨-, -, -, -, ⟨same, -⟩ | ⟨row, rows, -⟩⟩ := record_cases h
  · rw [same]
    exact fun _ mem => mem
  · rw [rows]
    exact fun _ mem => List.mem_append_left _ mem

theorem sound_record {token runId : Uuid} {kind : String} {payload : Value}
    (h : w.record token runId kind payload = some w') (sound : w.Sound cfg keyed) :
    w'.Sound cfg keyed := by
  have grows := record_grows h
  obtain ⟨world, recorded, lookups, -, table⟩ := record_cases h
  have more : ∀ c ∈ w.created, c ∈ w'.created := by
    rcases table with ⟨-, same⟩ | ⟨row, -, created⟩
    · rw [same]
      exact fun _ mem => mem
    · rw [created]
      exact fun _ mem => List.mem_append_left _ mem
  constructor
  · rw [world, recorded]
    intro p key n mem
    obtain ⟨proc, hp, effected⟩ := sound.recorded p key n mem
    exact ⟨proc, hp, effected_grows grows effected⟩
  · rw [world, lookups]
    intro p key mem
    obtain ⟨proc, hp, effected⟩ := sound.found p key mem
    exact ⟨proc, hp, effected_grows grows effected⟩
  · rw [world]
    intro p proc hp c b rec t at_ is holding
    exact effected_grows grows (sound.holding p proc hp c b rec t at_ is holding)
  · rw [world]
    intro row mem
    rcases table with ⟨effects, created⟩ | ⟨new, rows, created⟩
    · rw [effects] at mem
      rw [created]
      exact sound.created row mem
    · rw [rows, List.mem_append, List.mem_singleton] at mem
      rw [created]
      rcases mem with old | rfl
      · obtain ⟨c, mem, is, logged⟩ := sound.created row old
        exact ⟨c, List.mem_append_left _ mem, is, logged⟩
      · exact ⟨_, List.mem_append_right _ (List.mem_singleton_self _), rfl, fun _ => le_rfl⟩
  · rw [world]
    intro j key only i e at_ done
    obtain ⟨c, mem, row, token, logged⟩ := sound.completed j key only i e at_ done
    exact ⟨c, more c mem, grows _ row, token, logged⟩

/-- How a step comes to hold a result: its body or its verifier has returned. -/
theorem holding_acts {w w' : World} {p c b : Nat} {ans : Answer} {proc : Proc} {rec : CallRecord}
    {t : Task} {o : Op} {r : Ans o} {loc : Local}
    (acts : TaskActs cfg w w' p c b ans proc rec t o r loc)
    (holding : ((rec.call.setup cfg proc.loc.runId proc.loc.guarded t.key).next t.stage o
      r).holding = true) :
    (∃ n, t.stage = .running n ∧ ans.raises = false) ∨
      ∃ v, t.stage = .verifying ∧ v.isNone = false ∧ ans = .value v := by
  have run := acts.run
  have may := acts.may
  have moves := StepSetup.moves may r
  generalize (rec.call.setup cfg proc.loc.runId proc.loc.guarded t.key).next t.stage o r = stage'
    at moves holding
  generalize t.stage = stage at moves
  cases moves with
  | landed some =>
    refine .inr ⟨_, rfl, some, ?_⟩
    cases ans with
    | value v =>
      obtain ⟨same, -⟩ := Prod.mk.inj (Option.some.inj run)
      cases same
      rfl
    | _ => cases run
  | returned v is =>
    refine .inl ⟨_, rfl, ?_⟩
    cases ans with
    | raise exc => cases run
    | _ => rfl
  | _ => cases holding

theorem tried_recorded {p n : Nat} {t : Task} {ans : Answer} (running : t.stage = .running n)
    (returns : ans.raises = false) (h : w.goesByTable p t ans = true) :
    (p, t.key, n) ∈ w.recorded := by
  cases ans with
  | raise exc => cases returns
  | _ => simpa [Joint.goesByTable, running] using h

/-- Who has a completion in the log had the result in hand, and its effect in the table. -/
theorem sound_base {a : Action} {world : World} (numbered : w.world.store.Numbered)
    (shaped : ∀ (p : Nat) (proc : Proc), w.world.procs[p]? = some proc → proc.Shaped cfg)
    (h : w.world.step cfg a = some world) (ok : recording keyed w (.base a))
    (sound : w.Sound cfg keyed) : Joint.Sound cfg keyed { w with world } := by
  constructor
  · intro p key n mem
    obtain ⟨proc, hp, effected⟩ := sound.recorded p key n mem
    obtain ⟨proc', hp', run, -⟩ := attempt_persists shaped h hp
    exact ⟨proc', hp', by rw [run]; exact effected⟩
  · intro p key mem
    obtain ⟨proc, hp, effected⟩ := sound.found p key mem
    obtain ⟨proc', hp', run, -⟩ := attempt_persists shaped h hp
    exact ⟨proc', hp', by rw [run]; exact effected⟩
  · intro q proc' hq c b rec' t' at' is holding
    show w.Effected cfg proc'.loc.runId t'.key
    by_cases mine : ∃ ans, a = .task q c b ans
    · obtain ⟨ans, rfl⟩ := mine
      obtain ⟨proc, rec, t, o, r, loc, acts⟩ := task_acts shaped h
      obtain ⟨_, _, _, hq', sameLoc, at₂, sameCall, key, stage⟩ := acts.moved
      obtain rfl := Option.some.inj (hq.symm.trans hq')
      obtain rfl := Option.some.inj (at'.1.symm.trans at₂.1)
      obtain rfl := Option.some.inj (at'.2.symm.trans at₂.2)
      rw [stage] at holding
      rw [sameCall.call] at is
      have asks := ok proc acts.hp rec acts.at_.1 t acts.at_.2 is
      rw [sameLoc, (exec_ctx acts.run).1, key]
      have same : ∀ proc₂, w.world.procs[q]? = some proc₂ → w.Effected cfg proc₂.loc.runId t.key →
          w.Effected cfg proc.loc.runId t.key := fun proc₂ hp effected => by
        rwa [Option.some.inj (acts.hp.symm.trans hp)]
      rcases holding_acts acts holding with ⟨n, running, returns⟩ | ⟨v, verifying, some, rfl⟩
      · obtain ⟨proc₂, hp, effected⟩ :=
          sound.recorded q t.key n (tried_recorded running returns asks)
        exact same proc₂ hp effected
      · have found : (q, t.key, !v.isNone) ∈ w.lookups := by
          simpa [Joint.goesByTable, verifying] using asks
        rw [some] at found
        obtain ⟨proc₂, hp, effected⟩ := sound.found q t.key found
        exact same proc₂ hp effected
    · cases task_cases shaped h hq at' with
      | same hp at_ sameCall sameKey _ _ =>
        rw [sameCall.call] at is
        rw [sameKey.1]
        exact sound.holding q _ hp c b _ t' at_ is holding
      | moved act => exact absurd ⟨_, act⟩ mine
      | called => cases holding
  · intro row mem
    obtain ⟨c, mem, is, logged⟩ := sound.created row mem
    refine ⟨c, mem, is, fun j => (logged j).trans ?_⟩
    obtain ⟨es, log, -⟩ := log_step numbered shaped h j
    rw [log, List.length_append]
    exact Nat.le_add_right _ _
  · intro j key only i e at_ done
    have before := keyedBy_back h only
    obtain ⟨es, log, -⟩ := log_step numbered shaped h j
    have at_ : (w.world.store.loadEvents j ++ es)[i]? = some e := log ▸ at_
    by_cases old : i < (w.world.store.loadEvents j).length
    · rw [List.getElem?_append_left old] at at_
      exact sound.completed j key before i e at_ done
    · rw [List.getElem?_append_right (Nat.le_of_not_lt old)] at at_
      have mem := List.mem_of_getElem? at_
      have concerns : e.concerns key := by
        simp only [Event.under, Bool.and_eq_true, decide_eq_true_eq] at done
        exact ⟨done.1, LifecycleLemmas.completion_lifecycle _ done.2⟩
      obtain ⟨p, c, b, ans, proc, rec, t, r, loc, -, acts, rfl, rfl, -⟩ :=
        event_cases numbered shaped h log mem concerns
      have is : e.payload.isCompletion = true := by
        simp only [Event.under, Bool.and_eq_true] at done
        exact done.2
      have holding : t.stage.holding = true := by
        rcases completion_open acts.may is with ⟨v, stage, -⟩ | ⟨n, v, stage, -⟩ <;>
          rw [stage] <;> rfl
      have effected := sound.holding p proc acts.hp c b rec t acts.at_
        (before p proc c b rec t acts.hp rfl acts.at_ rfl) holding
      obtain ⟨row, there, token⟩ := effected_iff.mp effected
      obtain ⟨creation, created, rfl, logged⟩ := sound.created row there
      exact ⟨creation, created, there, token, (logged _).trans (Nat.le_of_not_lt old)⟩

theorem task_there {p c b : Nat} {proc : Proc} {t : Task} (h : w.task? p c b = some (proc, t)) :
    w.world.procs[p]? = some proc := by
  unfold Joint.task? at h
  obtain ⟨proc', hp, rest⟩ := Option.bind_eq_some_iff.mp h
  split at rest
  · cases rest
  · obtain ⟨r, -, rest⟩ := Option.bind_eq_some_iff.mp rest
    obtain ⟨t', -, rest⟩ := Option.bind_eq_some_iff.mp rest
    cases rest
    exact hp

theorem sound_step {a : JointAction} (numbered : w.world.store.Numbered)
    (shaped : ∀ (p : Nat) (proc : Proc), w.world.procs[p]? = some proc → proc.Shaped cfg)
    (h : w.step cfg a = some w') (ok : recording keyed w a) (sound : w.Sound cfg keyed) :
    w'.Sound cfg keyed := by
  cases a with
  | base a =>
    obtain ⟨world, step, rfl⟩ := Option.map_eq_some_iff.mp h
    exact sound_base numbered shaped step ok sound
  | effect p c b kind payload =>
    obtain ⟨⟨proc, t⟩, there, rest⟩ := Option.bind_eq_some_iff.mp h
    dsimp only at rest
    split at rest
    · obtain ⟨w₁, recorded, rest⟩ := Option.bind_eq_some_iff.mp rest
      cases rest
      have before := sound_record recorded sound
      obtain ⟨world, -, -, effected, -⟩ := record_cases recorded
      refine { before with recorded := fun q key m mem => ?_ }
      rcases List.mem_append.mp mem with old | new
      · exact before.recorded q key m old
      · cases List.mem_singleton.mp new
        exact ⟨proc, (congrArg (fun w => w.procs[p]?) world).trans (task_there there), effected⟩
    · cases rest
  | lookUp p c b =>
    obtain ⟨⟨proc, t⟩, there, rest⟩ := Option.bind_eq_some_iff.mp h
    dsimp only at rest
    split at rest
    · cases rest
      refine { sound with found := fun q key mem => ?_ }
      rcases List.mem_append.mp mem with old | new
      · exact sound.found q key old
      · obtain ⟨rfl, rfl, found⟩ : q = p ∧ key = t.key ∧
            true = (findSideEffect w.effects (stepToken cfg proc.loc.runId t.key)).isSome := by
          simpa using List.mem_singleton.mp new
        exact ⟨proc, task_there there, found.symm⟩
    · cases rest
  | «foreign» token runId kind payload => exact sound_record h sound

/-- A run of the joint system is one of the system. -/
theorem world_reaches {now : Int} {ok : Joint → JointAction → Prop}
    (h : Reaches (Joint.step cfg) ok (.init now) w) :
    Reaches (World.step cfg) (fun _ _ => True) (.init now) w.world := by
  induction h with
  | refl => exact .refl
  | @tail w w' a _ _ step ih =>
    cases a with
    | base a =>
      obtain ⟨world, moved, rfl⟩ := Option.map_eq_some_iff.mp step
      exact .tail ih trivial moved
    | effect p c b kind payload =>
      obtain ⟨⟨proc, t⟩, there, rest⟩ := Option.bind_eq_some_iff.mp step
      dsimp only at rest
      split at rest
      · obtain ⟨w₁, recorded, rest⟩ := Option.bind_eq_some_iff.mp rest
        cases rest
        rw [show _ = w.world from (record_cases recorded).1]
        exact ih
      · cases rest
    | lookUp p c b =>
      obtain ⟨⟨proc, t⟩, there, rest⟩ := Option.bind_eq_some_iff.mp step
      dsimp only at rest
      split at rest <;> cases rest
      exact ih
    | «foreign» token runId kind payload =>
      rw [(record_cases step).1]
      exact ih

theorem grows_step {a : JointAction} (h : w.step cfg a = some w') :
    ∀ row ∈ w.effects.rows, row ∈ w'.effects.rows := by
  cases a with
  | base a =>
    obtain ⟨world, -, rfl⟩ := Option.map_eq_some_iff.mp h
    exact fun _ mem => mem
  | effect p c b kind payload =>
    obtain ⟨⟨proc, t⟩, -, rest⟩ := Option.bind_eq_some_iff.mp h
    dsimp only at rest
    split at rest
    · obtain ⟨w₁, recorded, rest⟩ := Option.bind_eq_some_iff.mp rest
      cases rest
      exact fun row mem => record_grows recorded row mem
    · cases rest
  | lookUp p c b =>
    obtain ⟨⟨proc, t⟩, -, rest⟩ := Option.bind_eq_some_iff.mp h
    dsimp only at rest
    split at rest <;> cases rest
    exact fun _ mem => mem
  | «foreign» token runId kind payload => exact record_grows h

end SideEffectLemmas

open SideEffectLemmas

theorem sound_reaches {cfg : Config} {now : Int} {keyed : Call → Bool} {w : Joint}
    (h : Reaches (Joint.step cfg) (recording keyed) (.init now) w) : w.Sound cfg keyed := by
  refine h.invariant ⟨fun _ _ _ mem => ?_, fun _ _ mem => ?_, fun p proc hp => ?_,
    fun _ mem => ?_, fun j key _ i e at_ => ?_⟩ fun _ _ _ reached inv ok step => ?_
  · cases mem
  · cases mem
  · cases hp
  · cases mem
  · cases at_
  · have world := world_reaches reached
    exact sound_step (numbered_reaches world) (fun _ _ hp => shaped_reaches world hp) step ok inv

/-- Effects keyed by tokens happen once: under any schedule a step has at most one row, which
stays as it is, and every completion of a step whose body and verifier go by the table comes
after the creation of its row. -/
theorem effects_exactly_once {cfg : Config} {now : Int} {keyed : Call → Bool} {w : Joint}
    (h : Reaches (Joint.step cfg) (recording keyed) (.init now) w) :
    (∀ j key, (w.effects.rows.filter fun row => row.token = stepToken cfg j key).length ≤ 1) ∧
    (∀ w', Reaches (Joint.step cfg) (recording keyed) w w' →
      ∀ row ∈ w.effects.rows, row ∈ w'.effects.rows) ∧
    ∀ j key, w.world.KeyedBy keyed j key → ∀ i e, (w.world.store.loadEvents j)[i]? = some e →
      e.under key Payload.isCompletion = true →
      ∃ c ∈ w.created, c.row ∈ w.effects.rows ∧ c.row.token = stepToken cfg j key ∧
        c.logged j ≤ i := by
  refine ⟨fun j key => ?_, fun w' rest row mem => ?_, (sound_reaches h).completed⟩
  · have once := (List.nodup_iff_count_le_one.mp w.effects.unique) (stepToken cfg j key)
    rw [List.count, List.countP_map, List.countP_eq_length_filter] at once
    exact once
  · exact rest.invariant mem fun _ _ _ _ inv _ step => grows_step step row inv

namespace Sample

/-- The deployment with one tool, which moves money and can be asked whether it has. -/
def payingCfg : Config := { cfg with tools := [⟨"pay", .atMostOnce, true⟩] }

def isTool : Call → Bool
  | .callTool _ _ => true
  | _ => false

def alone (actions : List Action) : List JointAction := actions.map .base

def pays (p : Nat) : Action := .call p none .workflow (.callTool "pay" .none)

/-- An attempt that crashes in the body of the tool after its effect, and the next, which
learns of the effect from the verifier. -/
def paidOnce : List JointAction :=
  alone (opening ++ [pays 0] ++ advance 0 0 8) ++ [.effect 0 0 0 "charge" (.int 500)] ++
    alone ([.stop 0, .tick 31000000, .claim "b" []] ++ proceed 1 8 ++ [pays 1] ++ advance 1 0 6) ++
    [.lookUp 1 0 0] ++ alone [.task 1 0 0 (.value (.str "found")), .task 1 0 0 .done]

end Sample

theorem effects_exactly_once_paid : ∃ w,
    run (Joint.step Sample.payingCfg) (recording Sample.isTool) (.init 0) Sample.paidOnce =
      some w ∧
    ((w.world.store.loadEvents Sample.runId).any
        (·.under "tool:pay#1" Payload.isCompletion) = true ∧
      w.effects.rows.length = 1) ∧
    (∀ j key, (w.effects.rows.filter fun row =>
      row.token = stepToken Sample.payingCfg j key).length ≤ 1) ∧
    (∀ w', Reaches (Joint.step Sample.payingCfg) (recording Sample.isTool) w w' →
      ∀ row ∈ w.effects.rows, row ∈ w'.effects.rows) ∧
    ∀ j key, w.world.KeyedBy Sample.isTool j key → ∀ i e,
      (w.world.store.loadEvents j)[i]? = some e → e.under key Payload.isCompletion = true →
      ∃ c ∈ w.created, c.row ∈ w.effects.rows ∧
        c.row.token = stepToken Sample.payingCfg j key ∧ c.logged j ≤ i := by
  have paid : ∃ w, run (Joint.step Sample.payingCfg) (recording Sample.isTool) (.init 0)
      Sample.paidOnce = some w ∧
      ((w.world.store.loadEvents Sample.runId).any (·.under "tool:pay#1" Payload.isCompletion) =
        true ∧ w.effects.rows.length = 1) := ⟨_, rfl, rfl, rfl⟩
  obtain ⟨w, reached, shows⟩ := paid
  exact ⟨w, reached, shows, effects_exactly_once (run_reaches reached)⟩

end AnchorRuntime
