import AnchorRuntime.Lib.Tally
import AnchorRuntime.Consistency
import AnchorRuntime.Rows

/-!
# Usage

What an attempt counts in memory, what is saved of it on the row, and what the completions in
the log are worth.

Results: `exec_usage_ctx`, what an operation does to the usage in memory; `fromDict_toDict`,
a recorded response is billed what the provider reported; `responses_reaches`, what a model
step records is such a response.
-/

namespace AnchorRuntime

open Effect Machine Tally ShapeLemmas ProcLemmas TaskLemmas

/-! ## Usage -/

/-- `BudgetTracker.add_tool_call` -/
def Usage.addTool (u : Usage) : Usage := { u with toolCalls := u.toolCalls + 1 }

/-- `BudgetTracker.add_model_usage` -/
def Usage.addModel (u : Usage) (inputTokens outputTokens : Int) (costUsd : Rat) : Usage :=
  { u with
    inputTokens := u.inputTokens + inputTokens
    outputTokens := u.outputTokens + outputTokens
    costUsd := u.costUsd + costUsd
    modelCalls := u.modelCalls + 1 }

/-- Component by component. -/
structure Usage.Le (u v : Usage) : Prop where
  inputTokens : u.inputTokens ≤ v.inputTokens
  outputTokens : u.outputTokens ≤ v.outputTokens
  toolCalls : u.toolCalls ≤ v.toolCalls
  modelCalls : u.modelCalls ≤ v.modelCalls
  costUsd : u.costUsd ≤ v.costUsd

/-- A response whose provider reports non-negative usage. -/
def ModelResponse.nonNegative (r : ModelResponse) : Bool :=
  0 ≤ r.inputTokens && 0 ≤ r.outputTokens && 0 ≤ r.costUsd

theorem ModelResponse.nonNegative_iff {r : ModelResponse} : r.nonNegative = true ↔
    0 ≤ r.inputTokens ∧ 0 ≤ r.outputTokens ∧ 0 ≤ r.costUsd := by
  simp [ModelResponse.nonNegative, and_assoc]

theorem Usage.Le.refl (u : Usage) : u.Le u := ⟨le_rfl, le_rfl, le_rfl, le_rfl, le_rfl⟩

theorem Usage.Le.trans {u v x : Usage} (h : u.Le v) (h' : v.Le x) : u.Le x :=
  ⟨h.1.trans h'.1, h.2.trans h'.2, h.3.trans h'.3, h.4.trans h'.4, h.5.trans h'.5⟩

/-- What an operation makes of the usage in memory. -/
def metered : Op → Usage → Usage
  | .addToolCall, u => u.addTool
  | .addModelUsage inputTokens outputTokens costUsd, u =>
    u.addModel inputTokens outputTokens costUsd
  | _, u => u

theorem exec_usage_ctx {cfg : Config} {now : Int} {st st' : Store} {loc loc' : Local}
    {ans : Answer} {o : Op} {r : Ans o} {ctx ctx' : RunContext}
    (run : exec cfg now st loc ans o = some (r, st', loc')) (hctx : loc.ctx = some ctx)
    (hctx' : loc'.ctx = some ctx') (built : ∀ run events, o ≠ .newContext run events) :
    ctx'.usage = metered o ctx.usage ∧ ctx'.run = ctx.run := by
  have same : loc' = loc → metered o ctx.usage = ctx.usage →
      ctx'.usage = metered o ctx.usage ∧ ctx'.run = ctx.run := by
    rintro rfl still
    cases hctx.symm.trans hctx'
    exact ⟨still.symm, rfl⟩
  cases o with
  | saveUsage | heartbeat | release =>
    obtain ⟨_, -, run⟩ := Option.bind_eq_some_iff.mp run
    exact same (ExecLemmas.storeCall_cases run).1 rfl
  | appendEvent | setStatus | bumpAttempt | dequeue | getRun | isCancelRequested | loadEvents =>
    simp only [exec] at run
    exact same (ExecLemmas.storeCall_cases run).1 rfl
  | recordResult | completed | countReplayed | unresolved | countExecuted | checkBudget
  | addToolCall | addModelUsage | snapshot =>
    obtain ⟨ctx₀, known, -, -, rfl⟩ := ExecLemmas.memory_cases run
    cases hctx.symm.trans known
    cases hctx'
    exact ⟨rfl, rfl⟩
  | leave u => exact same (ExecLemmas.leaveUser_cases run).2 rfl
  | newContext row events => exact absurd rfl (built row events)
  | enter _ | sleep _ =>
    cases ans <;> first | (cases run <;> exact same rfl rfl)
  | stopHeartbeat =>
    simp only [exec] at run
    split at run
    · cases run
      exact same rfl rfl
    · cases run
      cases hctx.symm.trans hctx'
      exact ⟨rfl, rfl⟩
    · cases run

/-- A new context starts with the usage and the row it is given. -/
theorem init_usage (run : RunRecord) (events : List Event) :
    (RunContext.init run events).usage = run.usage ∧ (RunContext.init run events).run = run :=
  ⟨LifecycleLemmas.replay_same (·.usage) (fun _ _ _ => rfl) _ events,
    LifecycleLemmas.replay_same (·.run) (fun _ _ _ => rfl) _ events⟩

/-! ## What a response is worth -/

/-- A recorded result that, if it is a response, reports non-negative usage. -/
def Value.nonNegative (result : Value) : Bool :=
  match ModelResponse.fromDict result with
  | .ok r => r.nonNegative
  | .error _ => true

/-- Reading back what `to_dict` wrote gives the same tokens and the same cost. -/
theorem fromDict_toDict (r : ModelResponse) : ∃ r', ModelResponse.fromDict r.toDict = .ok r' ∧
    r'.inputTokens = r.inputTokens ∧ r'.outputTokens = r.outputTokens ∧
    r'.costUsd = r.costUsd := by
  have calls : ∃ calls, (r.toolCalls.map (·.toDict)).mapM ModelResponse.toolCall = .ok calls := by
    induction r.toolCalls with
    | nil => exact ⟨[], rfl⟩
    | cons t ts ih =>
      obtain ⟨calls, ih⟩ := ih
      refine ⟨⟨t.id, t.name, ((t.toDict.get? "arguments").getD .none).orEmpty⟩ :: calls, ?_⟩
      rw [List.map_cons, List.mapM_cons, ih]
      rfl
  obtain ⟨calls, calls_eq⟩ := calls
  refine ⟨⟨r.text, calls, r.stopReason, r.inputTokens, r.outputTokens, r.costUsd, r.model⟩,
    ?_, rfl, rfl, rfl⟩
  have field : ModelResponse.toolCallsField r.toDict =
      (r.toolCalls.map (·.toDict)).mapM ModelResponse.toolCall := rfl
  unfold ModelResponse.fromDict
  rw [field, calls_eq]
  rfl

theorem nonNegative_toDict {r : ModelResponse} (h : r.nonNegative = true) :
    r.toDict.nonNegative = true := by
  obtain ⟨r', read, input, output, cost⟩ := fromDict_toDict r
  rw [Value.nonNegative, read]
  show r'.nonNegative = true
  rw [ModelResponse.nonNegative, input, output, cost]
  exact h

/-- A component of the usage that only model calls add to, with what a response adds. -/
structure Meter where
  read : Usage → Rat
  bill : ModelResponse → Rat
  zero : read .zero = 0
  tool : ∀ u, read u.addTool = read u
  model : ∀ u (r : ModelResponse),
    read (u.addModel r.inputTokens r.outputTokens r.costUsd) = read u + bill r
  nonneg : ∀ r : ModelResponse, r.nonNegative = true → 0 ≤ bill r

namespace Meter

def modelCalls : Meter where
  read u := u.modelCalls
  bill _ := 1
  zero := rfl
  tool _ := rfl
  model u r := by simp [Usage.addModel]
  nonneg _ _ := zero_le_one

def inputTokens : Meter where
  read u := u.inputTokens
  bill r := r.inputTokens
  zero := rfl
  tool _ := rfl
  model u r := by simp [Usage.addModel]
  nonneg _ h := by exact_mod_cast (ModelResponse.nonNegative_iff.mp h).1

def outputTokens : Meter where
  read u := u.outputTokens
  bill r := r.outputTokens
  zero := rfl
  tool _ := rfl
  model u r := by simp [Usage.addModel]
  nonneg _ h := by exact_mod_cast (ModelResponse.nonNegative_iff.mp h).2.1

def costUsd : Meter where
  read u := u.costUsd
  bill r := r.costUsd
  zero := rfl
  tool _ := rfl
  model _ _ := rfl
  nonneg _ h := (ModelResponse.nonNegative_iff.mp h).2.2

/-- What a recorded result is worth: what its response adds, if it is a response. -/
def due (m : Meter) (result : Value) : Rat :=
  match ModelResponse.fromDict result with
  | .ok r => m.bill r
  | .error _ => 0

theorem due_of_fromDict (m : Meter) {result : Value} {r : ModelResponse}
    (h : ModelResponse.fromDict result = .ok r) : m.due result = m.bill r := by
  rw [due, h]

theorem due_nonneg (m : Meter) {result : Value} (h : result.nonNegative = true) :
    0 ≤ m.due result := by
  unfold Value.nonNegative at h
  unfold due
  split at h
  · exact m.nonneg _ h
  · exact le_rfl

end Meter

/-! ## What a log is worth -/

/-- What an event is worth, as one of the completions that count. -/
def Event.worth (value : Value → Rat) (counts : String → Value → Bool) (e : Event) : Rat :=
  match e.stepKey, e.payload with
  | some key, .stepCompleted result _ => if counts key result then value result else 0
  | _, _ => 0

/-- The completions of the log that count are worth this much. -/
def worth (value : Value → Rat) (counts : String → Value → Bool) (log : List Event) : Rat :=
  tally (Event.worth value counts) log

namespace LedgerLemmas

variable {value : Value → Rat} {counts counts' : String → Value → Bool} {log es : List Event}

theorem event_worth {e : Event} {key : String} {result : Value} {by_ : CompletedBy}
    (hkey : e.stepKey = some key) (payload : e.payload = .stepCompleted result by_) :
    e.worth value counts = if counts key result then value result else 0 := by
  simp only [Event.worth, hkey, payload]

/-- An event that completes no key is worth nothing. -/
theorem event_worthless {e : Event} (h : ∀ key, ¬ e.completes key) : e.worth value counts = 0 := by
  unfold Event.worth
  split
  · next key result by_ hkey payload => exact absurd ⟨hkey, result, by_, payload⟩ (h key)
  · rfl

theorem completion_cases (e : Event) : (∀ key, ¬ e.completes key) ∨ ∃ key result by_,
    e.stepKey = some key ∧ e.payload = .stepCompleted result by_ := by
  by_cases h : ∃ key, e.completes key
  · obtain ⟨key, hkey, result, by_, payload⟩ := h
    exact .inr ⟨key, result, by_, hkey, payload⟩
  · exact .inl (not_exists.mp h)

theorem event_nonneg (nonneg : ∀ key result, counts key result = true → 0 ≤ value result)
    (e : Event) : 0 ≤ e.worth value counts := by
  rcases completion_cases e with none | ⟨key, result, by_, hkey, payload⟩
  · rw [event_worthless none]
  · rw [event_worth hkey payload]
    split
    · next counted => exact nonneg key result counted
    · exact le_rfl

theorem event_mono {e : Event}
    (nonneg : ∀ key result, counts' key result = true → 0 ≤ value result)
    (le : ∀ key, e.completes key → ∀ result, counts key result = true →
      counts' key result = true) : e.worth value counts ≤ e.worth value counts' := by
  rcases completion_cases e with none | ⟨key, result, by_, hkey, payload⟩
  · rw [event_worthless none, event_worthless none]
  · have le := le key ⟨hkey, result, by_, payload⟩ result
    rw [event_worth hkey payload, event_worth hkey payload]
    split
    · next counted => rw [if_pos (le counted)]
    · split
      · next counted => exact nonneg key result counted
      · exact le_rfl

theorem event_congr {e : Event}
    (same : ∀ key, e.completes key → ∀ result, counts key result = counts' key result) :
    e.worth value counts = e.worth value counts' := by
  rcases completion_cases e with none | ⟨key, result, by_, hkey, payload⟩
  · rw [event_worthless none, event_worthless none]
  · rw [event_worth hkey payload, event_worth hkey payload,
      same key ⟨hkey, result, by_, payload⟩ result]

end LedgerLemmas

open LedgerLemmas

variable {value : Value → Rat} {counts counts' : String → Value → Bool} {log es : List Event}

theorem worth_nonneg (nonneg : ∀ key result, counts key result = true → 0 ≤ value result) :
    0 ≤ worth value counts log :=
  tally_nonneg fun e _ => event_nonneg nonneg e

/-- A log is worth no less when more of it counts. -/
theorem worth_le (nonneg : ∀ key result, counts' key result = true → 0 ≤ value result)
    (le : ∀ e ∈ log, ∀ key, e.completes key → ∀ result, counts key result = true →
      counts' key result = true) : worth value counts log ≤ worth value counts' log :=
  tally_le fun e mem => event_mono nonneg (le e mem)

/-- What is recorded is worth no less when the log has grown and more of it counts. -/
theorem worth_mono (nonneg : ∀ key result, counts' key result = true → 0 ≤ value result)
    (le : ∀ e ∈ log, ∀ key, e.completes key → ∀ result, counts key result = true →
      counts' key result = true) : worth value counts log ≤ worth value counts' (log ++ es) :=
  tally_mono (fun e mem => event_mono nonneg (le e mem)) fun e _ => event_nonneg nonneg e

/-- One more completion that counts. -/
theorem worth_add {e : Event} {key : String} {result : Value} {by_ : CompletedBy}
    (nonneg : ∀ key result, counts' key result = true → 0 ≤ value result)
    (mem : e ∈ log) (hkey : e.stepKey = some key) (payload : e.payload = .stepCompleted result by_)
    (before : counts key result = false) (after : counts' key result = true)
    (le : ∀ e ∈ log, ∀ key, e.completes key → ∀ result, counts key result = true →
      counts' key result = true) :
    worth value counts log + value result ≤ worth value counts' log := by
  refine tally_add mem ?_ fun e mem => event_mono nonneg (le e mem)
  rw [event_worth hkey payload, event_worth hkey payload, before, after]
  simp

/-- Whatever else counts, the same completions are worth the same. -/
theorem worth_congr (same : ∀ e ∈ log, ∀ key, e.completes key → ∀ result,
    counts key result = counts' key result) : worth value counts log = worth value counts' log :=
  tally_congr fun e mem => event_congr (same e mem)

theorem worth_append (log es : List Event) :
    worth value counts (log ++ es) = worth value counts log + worth value counts es :=
  tally_append _ log es

/-- Events none of which counts are worth nothing. -/
theorem worth_zero (none : ∀ e ∈ es, ∀ key, e.completes key → ∀ result,
    counts key result = false) : worth value counts es = 0 := by
  refine tally_zero fun e mem => ?_
  rcases completion_cases e with worthless | ⟨key, result, by_, hkey, payload⟩
  · exact event_worthless worthless
  · rw [event_worth hkey payload, none e mem key ⟨hkey, result, by_, payload⟩ result]
    rfl

/-- A log that has grown by nothing that counts is worth the same. -/
theorem worth_grown (same : ∀ e ∈ log, ∀ key, e.completes key → ∀ result,
      counts' key result = counts key result)
    (none : ∀ e ∈ es, ∀ key, e.completes key → ∀ result, counts' key result = false) :
    worth value counts' (log ++ es) = worth value counts log := by
  rw [worth_append, worth_zero none, add_zero, worth_congr same]

/-- The same of exactly one completion. -/
theorem worth_insert {a b : List Event} {e : Event} {key : String} {result : Value}
    {by_ : CompletedBy} (hkey : e.stepKey = some key)
    (payload : e.payload = .stepCompleted result by_)
    (before : counts key result = false) (after : counts' key result = true)
    (same : ∀ f ∈ a ++ b, ∀ key, f.completes key → ∀ result,
      counts key result = counts' key result) :
    worth value counts (a ++ e :: b) + value result = worth value counts' (a ++ e :: b) := by
  refine tally_insert ?_ (fun f mem => event_congr (same f (List.mem_append_left b mem)))
    fun f mem => event_congr (same f (List.mem_append_right a mem))
  rw [event_worth hkey payload, event_worth hkey payload, before, after]
  simp

end AnchorRuntime
