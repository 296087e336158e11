import AnchorRuntime.Durable
import AnchorRuntime.Lib.Assoc

/-!
# The refund agent

`examples/refund_agent.py`: the loop that asks a model, calls the tools it asks for and tells it
what they return. The loop is a program over model calls and tool calls; what they answer is not
restricted. `Turn` is a response with what the tools have returned for it, and the turns so far are
the ghost state of the dialogue.

Results: `agent_dialogue`, the model is only asked about well-formed conversations that say what
was said, the tools called are the ones it asked for, and the transcript is complete;
`echo_follows_plan`, under the scripted provider the agent calls the tools of the plan;
`refund_agent_durable`, the result of a completed run is read off its journal.
-/

namespace AnchorRuntime

open Effect Machine

/-! ## Messages -/

inductive MessageRole
  | user
  | assistant
  deriving DecidableEq

/-- What a list content is made of. -/
inductive Block
  | text (text : String)
  | toolUse (id name : String) (input : Value)
  | toolResult (toolUseId content : String)

inductive Content
  | text (text : String)
  | blocks (blocks : List Block)

structure Message where
  role : MessageRole
  content : Content

def Block.toolUseId : Block → Option String
  | .toolUse id _ _ => some id
  | _ => none

def Block.toolResultId : Block → Option String
  | .toolResult id _ => some id
  | _ => none

namespace Content

/-- The ids of the tool uses of a message. -/
def toolUses : Content → List String
  | .text _ => []
  | .blocks bs => bs.filterMap Block.toolUseId

/-- The ids of the tool uses that a message has the results of. -/
def toolResults : Content → List String
  | .text _ => []
  | .blocks bs => bs.filterMap Block.toolResultId

end Content

/-- A conversation that a model can be asked to continue: user and assistant alternate, the user
has the first and the last word, and the message after tool uses has their results, in order. -/
def wellFormed : List Message → Bool
  | [m] => m.role = .user
  | m :: asked :: told :: rest => m.role = .user && asked.role = .assistant &&
      told.content.toolResults = asked.content.toolUses && wellFormed (told :: rest)
  | _ => false

/-! ## The loop -/

/-- `ModelResponse.wants_tools` -/
def ModelResponse.wantsTools (r : ModelResponse) : Bool := !r.toolCalls.isEmpty

/-- The calls the agent makes on its context; the tools and the system prompt of a model call are
the same every time. -/
inductive AgentOp
  | model (messages : List Message)
  | callTool (name : String) (arguments : Value)

@[reducible] def AgentAns : AgentOp → Type
  | .model _ => ModelResponse
  | .callTool _ _ => Value

def MAX_TURNS : Nat := 8

/-- The dict that `refund_agent` returns; the transcript as tools with their outputs. -/
def agentReport (summary : String) (transcript : List (String × Value)) : Report :=
  fun executed replayed => .dict [
    (.str "summary", .str summary),
    (.str "steps_executed", .int executed),
    (.str "steps_replayed", .int replayed),
    (.str "transcript", .list (transcript.map fun e =>
      .dict [(.str "tool", .str e.1), (.str "output", e.2)]))]

/-- The assistant's message: its text, unless it is empty, and its tool uses. -/
def assistantMessage (response : ModelResponse) : Message :=
  ⟨.assistant, .blocks ((if response.text = "" then [] else [.text response.text]) ++
    response.toolCalls.map fun c => .toolUse c.id c.name c.arguments)⟩

section Agent

-- `json.dumps(payload)` and `json.dumps(output, default=str)`
variable (dumps dumpsStr : Value → String)

/-- The loop over the tool calls of a response. -/
def callTools : List ToolCall → (transcript : List (String × Value)) → (results : List Block) →
    Prog AgentAns Exn (List (String × Value) × List Block)
  | [], transcript, results => .ret (transcript, results)
  | call :: calls, transcript, results => do
    let output ← .ask (AgentOp.callTool call.name call.arguments)
    callTools calls (transcript ++ [(call.name, output)])
      (results ++ [.toolResult call.id (dumpsStr output)])

/-- The loop over the turns, `left` rounds before the end of its range. -/
def agentTurns : (left : Nat) → List Message → (transcript : List (String × Value)) →
    Prog AgentAns Exn Report
  | 0, _, transcript => .ret (agentReport "turn limit reached without a final answer" transcript)
  | left + 1, messages, transcript => do
    let response ← .ask (AgentOp.model messages)
    if !response.wantsTools then return agentReport response.text transcript
    else do
      let (transcript, results) ← callTools dumpsStr response.toolCalls transcript []
      agentTurns left (messages ++ [assistantMessage response, ⟨.user, .blocks results⟩]) transcript

/-- `refund_agent` -/
def refundAgent (payload : Value) : Prog AgentAns Exn Report :=
  agentTurns dumpsStr MAX_TURNS [⟨.user, .text (dumps payload)⟩] []

end Agent

/-! ## The dialogue -/

/-- A response, and what the tools have returned for its first calls. -/
structure Turn where
  response : ModelResponse
  outputs : List Value

namespace Turn

/-- The tool call the turn waits for. -/
def pending (t : Turn) : Option ToolCall := t.response.toolCalls[t.outputs.length]?

/-- The turn has asked for tools and has been answered. -/
def answered (t : Turn) : Bool :=
  t.response.wantsTools && t.outputs.length = t.response.toolCalls.length

/-- The tools of the turn that have been called, with their outputs. -/
def entries (t : Turn) : List (String × Value) :=
  (t.response.toolCalls.map (·.name)).zip t.outputs

/-- What an answered turn adds to the messages. -/
def messages (dumpsStr : Value → String) (t : Turn) : List Message :=
  [assistantMessage t.response, ⟨.user, .blocks
    (t.response.toolCalls.zipWith (fun c output => .toolResult c.id (dumpsStr output)) t.outputs)⟩]

end Turn

/-- What has been said in answered turns. -/
def conversation (dumps dumpsStr : Value → String) (payload : Value) (turns : List Turn) :
    List Message :=
  ⟨.user, .text (dumps payload)⟩ :: turns.flatMap (Turn.messages dumpsStr)

/-- All tool calls so far, with their outputs. -/
def transcriptOf (turns : List Turn) : List (String × Value) := turns.flatMap Turn.entries

/-- The turns after an answer. -/
def heard (turns : List Turn) : (o : AgentOp) → AgentAns o → List Turn
  | .model _, response => turns ++ [⟨response, []⟩]
  | .callTool _ _, output =>
    match turns.getLast? with
    | some t => turns.dropLast ++ [{ t with outputs := t.outputs ++ [output] }]
    | none => []

/-- The model is asked when it has been answered, in fewer turns than the limit, about the
well-formed conversation there was; a tool is called when it is the next one the model wants. -/
def mayAsk (dumps dumpsStr : Value → String) (payload : Value) (turns : List Turn) :
    AgentOp → Prop
  | .model messages => turns.length < MAX_TURNS ∧ (∀ t ∈ turns, t.answered = true) ∧
      messages = conversation dumps dumpsStr payload turns ∧ wellFormed messages = true
  | .callTool name arguments => ∃ earlier t call, turns = earlier ++ [t] ∧
      t.pending = some call ∧ call.name = name ∧ call.arguments = arguments

/-- The dialogue of the agent as a protocol. -/
def dialogue (dumps dumpsStr : Value → String) (payload : Value) :
    Protocol AgentAns (List Turn) :=
  ⟨mayAsk dumps dumpsStr payload, heard⟩

/-- How the agent ends: with the text of the first response that wants no tools, or at the limit,
when all have wanted some; and with the transcript of all tools called. -/
inductive AgentEnds : List Turn → Except Exn Report → Prop
  | final (turns : List Turn) (response : ModelResponse) : turns.length < MAX_TURNS →
      (∀ t ∈ turns, t.answered = true) → response.wantsTools = false →
      AgentEnds (turns ++ [⟨response, []⟩]) (.ok (agentReport response.text (transcriptOf turns)))
  | limit (turns : List Turn) : turns.length = MAX_TURNS → (∀ t ∈ turns, t.answered = true) →
      AgentEnds turns (.ok (agentReport "turn limit reached without a final answer"
        (transcriptOf turns)))

namespace AgentLemmas

variable {dumps dumpsStr : Value → String} {payload : Value} {turns : List Turn}

/-! ## What is said -/

theorem toolUses_assistant (response : ModelResponse) :
    (assistantMessage response).content.toolUses = response.toolCalls.map (·.id) := by
  have text : (if response.text = "" then [] else [Block.text response.text]).filterMap
      Block.toolUseId = [] := by
    split <;> rfl
  have calls : (response.toolCalls.map fun c => Block.toolUse c.id c.name c.arguments).filterMap
      Block.toolUseId = response.toolCalls.map (·.id) := by
    rw [List.filterMap_map]
    exact List.filterMap_eq_map' ▸ rfl
  rw [assistantMessage, Content.toolUses, List.filterMap_append, text, calls, List.nil_append]

theorem toolResults_zipWith (calls : List ToolCall) (outputs : List Value) :
    (Content.blocks (calls.zipWith (fun c output => Block.toolResult c.id (dumpsStr output))
      outputs)).toolResults = (calls.zipWith (fun c _ => c.id) outputs) := by
  induction calls generalizing outputs with
  | nil => rfl
  | cons c calls ih =>
    cases outputs with
    | nil => rfl
    | cons output outputs => exact congrArg (c.id :: ·) (ih outputs)

/-- The tool calls of an answered turn all have their results. -/
theorem results_answered {t : Turn} (answered : t.answered = true) :
    t.response.toolCalls.zipWith (fun c _ => c.id) t.outputs = t.response.toolCalls.map (·.id) := by
  simp only [Turn.answered, Bool.and_eq_true, decide_eq_true_eq] at answered
  generalize t.response.toolCalls = calls, t.outputs = outputs at answered
  have length := answered.2
  clear answered
  induction calls generalizing outputs with
  | nil => rfl
  | cons c calls ih =>
    cases outputs with
    | nil => cases length
    | cons output outputs => exact congrArg (c.id :: ·) (ih outputs (Nat.succ.inj length))

theorem wellFormed_conversation (answered : ∀ t ∈ turns, t.answered = true) (first : Content) :
    wellFormed (⟨.user, first⟩ :: turns.flatMap (Turn.messages dumpsStr)) = true := by
  induction turns generalizing first with
  | nil => rfl
  | cons t turns ih =>
    have results := results_answered (answered t List.mem_cons_self)
    rw [List.flatMap_cons, Turn.messages, List.cons_append, List.cons_append, List.nil_append,
      wellFormed, ih (fun t mem => answered t (List.mem_cons_of_mem _ mem)), toolUses_assistant,
      toolResults_zipWith, results]
    simp [assistantMessage]

/-! ## The loops -/

/-- The loop over the tool calls answers the turn. -/
theorem callTools_obeys {response : ModelResponse} {outputs : List Value} {calls : List ToolCall}
    {transcript : List (String × Value)} {results : List Block}
    (rest : response.toolCalls.drop outputs.length = calls)
    {Q : List Turn → Except Exn (List (String × Value) × List Block) → Prop}
    (ends : ∀ more, more.length = calls.length → Q (turns ++ [⟨response, outputs ++ more⟩])
      (.ok (transcript ++ (calls.map (·.name)).zip more,
        results ++ calls.zipWith (fun c output => .toolResult c.id (dumpsStr output)) more))) :
    Obeys (dialogue dumps dumpsStr payload) (turns ++ [⟨response, outputs⟩])
      (callTools dumpsStr calls transcript results) Q := by
  induction calls generalizing outputs transcript results with
  | nil => simpa [callTools] using ends [] rfl
  | cons call calls ih =>
    have next : response.toolCalls[outputs.length]? = some call := by
      rw [← List.head?_drop, rest]
      rfl
    rw [callTools, obeys_bind, obeys_ask]
    refine ⟨⟨turns, ⟨response, outputs⟩, call, rfl, next, rfl, rfl⟩, fun output => ?_⟩
    have now : heard (turns ++ [⟨response, outputs⟩]) (.callTool call.name call.arguments) output =
        turns ++ [⟨response, outputs ++ [output]⟩] := by
      simp [heard]
    rw [then_ok]
    show Obeys _ (heard _ (.callTool call.name call.arguments) output) _ _
    rw [now]
    refine ih ?_ fun more length => ?_
    · rw [List.length_append, List.length_singleton, ← List.drop_drop, rest]
      rfl
    · simpa using ends (output :: more) (by simpa using length)

/-- The loop over the turns, from any number of answered ones. -/
theorem agentTurns_obeys {left : Nat} (answered : ∀ t ∈ turns, t.answered = true)
    (count : turns.length + left = MAX_TURNS) :
    Obeys (dialogue dumps dumpsStr payload) turns
      (agentTurns dumpsStr left (conversation dumps dumpsStr payload turns) (transcriptOf turns))
      AgentEnds := by
  induction left generalizing turns with
  | zero => exact .limit turns count answered
  | succ left ih =>
    rw [agentTurns, obeys_bind, obeys_ask]
    refine ⟨⟨by omega, answered, rfl, wellFormed_conversation answered _⟩, fun response => ?_⟩
    rw [then_ok]
    split
    · next final =>
      exact .final turns response (by omega) answered (by simpa using final)
    · next wants =>
      have wants : response.wantsTools = true := by simpa using wants
      show Obeys _ (turns ++ [⟨response, []⟩]) _ _
      rw [obeys_bind]
      have none_called : response.toolCalls.drop ([] : List Value).length = response.toolCalls :=
        List.drop_zero
      refine callTools_obeys none_called fun outputs length => ?_
      have done : Turn.answered ⟨response, outputs⟩ = true := by
        simp [Turn.answered, wants, length]
      have messages : conversation dumps dumpsStr payload turns ++ [assistantMessage response,
          ⟨.user, .blocks ([] ++ response.toolCalls.zipWith
            (fun c output => .toolResult c.id (dumpsStr output)) outputs)⟩] =
          conversation dumps dumpsStr payload (turns ++ [⟨response, outputs⟩]) := by
        simp [conversation, Turn.messages]
      have transcript : transcriptOf turns ++ (response.toolCalls.map (·.name)).zip outputs =
          transcriptOf (turns ++ [⟨response, outputs⟩]) := by
        simp [transcriptOf, Turn.entries]
      show Obeys _ (turns ++ [⟨response, [] ++ outputs⟩]) (agentTurns dumpsStr left _ _) _
      rw [messages, transcript, List.nil_append]
      refine ih (fun t mem => ?_) ?_
      · rcases List.mem_append.mp mem with old | new
        · exact answered t old
        · obtain rfl := List.mem_singleton.mp new
          exact done
      · simp only [List.length_append, List.length_singleton]
        omega

end AgentLemmas

open AgentLemmas

/-- Whatever the model says and the tools return: the model is asked at most eight times, each time
about the well-formed conversation so far; the tools called are those it asked for, in order, with
its arguments; and the agent ends with the transcript of them all. -/
theorem agent_dialogue (dumps dumpsStr : Value → String) (payload : Value) :
    Obeys (dialogue dumps dumpsStr payload) [] (refundAgent dumps dumpsStr payload) AgentEnds :=
  agentTurns_obeys (by simp) (by rfl)

/-! ## The scripted provider -/

/-- `EchoProvider`, without its latency. -/
structure EchoProvider where
  plan : List String
  arguments : List (String × List (String × Value))
  finalText : String
  argumentsFromInput : Bool
  failFirstN : Nat

/-- The entries of a JSON object. -/
def Value.entries : Value → List (String × Value)
  | .dict entries => entries.filterMap fun e =>
    match e.1 with
    | .str key => some (key, e.2)
    | _ => Option.none
  | _ => []

namespace EchoProvider

-- `json.loads`, none when it raises, and `str` of a content
variable (loads : String → Option Value) (str : Content → String)

/-- `_input_arguments` -/
def inputArguments : List Message → List (String × Value)
  | [] => []
  | ⟨.user, .text content⟩ :: _ => ((loads content).map Value.entries).getD []
  | _ :: messages => inputArguments messages

/-- The arguments of a planned call, given those of the input. -/
def argumentsFor (p : EchoProvider) (input : List (String × Value)) (name : String) :
    List (String × Value) :=
  ((p.arguments.lookup name).getD []).foldl (fun d e => Assoc.set d e.1 e.2)
    (if p.argumentsFromInput then input else [])

/-- The tool call of a turn. -/
def call (p : EchoProvider) (input : List (String × Value)) (turn : Nat) (name : String) :
    ToolCall :=
  ⟨s!"call_{turn}", name, .dict ((p.argumentsFor input name).map fun e => (.str e.1, e.2))⟩

/-- The part of `complete` after the simulated failures. -/
def reply (p : EchoProvider) (messages : List Message) : ModelResponse :=
  let turn := (messages.filter fun m => m.role = .assistant).length
  let promptChars := (messages.map fun m => (str m.content).length).sum
  match p.plan[turn]? with
  | some name =>
    { text := s!"calling {name}"
      toolCalls := [p.call (inputArguments loads messages) turn name]
      stopReason := "tool_use"
      inputTokens := promptChars / 4
      outputTokens := 12
      costUsd := 0
      model := "echo" }
  | none =>
    { text := p.finalText
      toolCalls := []
      stopReason := "end_turn"
      inputTokens := promptChars / 4
      outputTokens := p.finalText.length / 4 + 1
      costUsd := 0
      model := "echo" }

/-- `complete`, given how often it has failed. -/
def complete (p : EchoProvider) (failures : Nat) (messages : List Message) :
    Except Exn ModelResponse × Nat :=
  if failures < p.failFirstN then
    (.error (.exception "ConnectionError" s!"simulated provider failure #{failures + 1}"),
      failures + 1)
  else (.ok (p.reply loads str messages), failures)

end EchoProvider

/-- Every response of the dialogue is one that the provider has given. -/
def Echoes (loads : String → Option Value) (str : Content → String) (p : EchoProvider)
    (dumps dumpsStr : Value → String) (payload : Value) (turns : List Turn) : Prop :=
  ∀ i t, turns[i]? = some t → ∃ failures, p.complete loads str failures
    (conversation dumps dumpsStr payload (turns.take i)) = (.ok t.response, failures)

/-- The payload as the provider reads it in the first message. -/
def readPayload (loads : String → Option Value) (dumps : Value → String) (payload : Value) :
    List (String × Value) :=
  ((loads (dumps payload)).map Value.entries).getD []

namespace AgentLemmas

variable {loads : String → Option Value} {str : Content → String} {p : EchoProvider}
  {dumps dumpsStr : Value → String} {payload : Value} {turns : List Turn}

theorem assistants_conversation : ((conversation dumps dumpsStr payload turns).filter
    fun m => m.role = .assistant).length = turns.length := by
  rw [conversation, List.filter_cons_of_neg (by simp)]
  induction turns with
  | nil => rfl
  | cons t turns ih =>
    rw [List.flatMap_cons, List.filter_append, List.length_append, ih, List.length_cons,
      Nat.add_comm]
    rfl

theorem complete_reply {failures failures' : Nat} {messages : List Message}
    {response : ModelResponse}
    (h : p.complete loads str failures messages = (.ok response, failures')) :
    response = p.reply loads str messages := by
  unfold EchoProvider.complete at h
  split at h
  · cases h
  · cases h
    rfl

/-- Each turn calls the next tool of the plan, until there is none. -/
theorem echo_turn (echoes : Echoes loads str p dumps dumpsStr payload turns) {i : Nat} {t : Turn}
    (at_ : turns[i]? = some t) :
    match p.plan[i]? with
    | some name => t.response.toolCalls = [p.call (readPayload loads dumps payload) i name]
    | none => t.response.wantsTools = false ∧ t.response.text = p.finalText := by
  obtain ⟨failures, said⟩ := echoes i t at_
  have turn : ((conversation dumps dumpsStr payload (turns.take i)).filter
      fun m => m.role = .assistant).length = i := by
    rw [assistants_conversation, List.length_take_of_le (List.getElem?_eq_some_iff.mp at_).1.le]
  rw [complete_reply said, EchoProvider.reply, turn]
  cases p.plan[i]? with
  | none => exact ⟨rfl, rfl⟩
  | some name => rfl

/-- The calls of answered turns are those of the plan, as far as they go. -/
theorem echo_calls (answered : ∀ t ∈ turns, t.answered = true)
    (echoes : Echoes loads str p dumps dumpsStr payload turns) :
    turns.length ≤ p.plan.length ∧ turns.flatMap (fun t => t.response.toolCalls) =
      (p.plan.take turns.length).mapIdx (p.call (readPayload loads dumps payload)) := by
  have planned : ∀ (i : Nat) (t : Turn), turns[i]? = some t → ∃ name, p.plan[i]? = some name ∧
      t.response.toolCalls = [p.call (readPayload loads dumps payload) i name] := by
    intro i t at_
    have turn := echo_turn echoes at_
    cases next : p.plan[i]? with
    | none =>
      rw [next] at turn
      have wants := answered t (List.mem_of_getElem? at_)
      rw [Turn.answered, turn.1] at wants
      cases wants
    | some name =>
      rw [next] at turn
      exact ⟨name, rfl, turn⟩
  have short : turns.length ≤ p.plan.length := by
    by_contra longer
    obtain ⟨name, next, -⟩ := planned p.plan.length _ (List.getElem?_eq_getElem (by omega))
    rw [List.getElem?_eq_none le_rfl] at next
    cases next
  refine ⟨short, ?_⟩
  have calls : turns.map (fun t => t.response.toolCalls) = (p.plan.take turns.length).mapIdx
      fun i name => [p.call (readPayload loads dumps payload) i name] := by
    refine List.ext_getElem (by simp [short]) fun i bound _ => ?_
    rw [List.length_map] at bound
    obtain ⟨name, next, is⟩ := planned i _ (List.getElem?_eq_getElem bound)
    obtain ⟨_, rfl⟩ := List.getElem?_eq_some_iff.mp next
    simpa using is
  rw [List.flatMap_def, calls, List.mapIdx_eq_zipIdx_map, List.mapIdx_eq_zipIdx_map]
  exact List.flatMap_pure_eq_map _ _

/-- Answered turns have an output for each of their calls. -/
theorem transcript_names (answered : ∀ t ∈ turns, t.answered = true) :
    (transcriptOf turns).map (·.1) =
      (turns.flatMap fun t => t.response.toolCalls).map (·.name) := by
  induction turns with
  | nil => rfl
  | cons t turns ih =>
    have full := answered t List.mem_cons_self
    simp only [Turn.answered, Bool.and_eq_true, decide_eq_true_eq] at full
    have here : t.entries.map (·.1) = t.response.toolCalls.map (·.name) := by
      rw [Turn.entries, List.map_fst_zip (by simp [full.2])]
    rw [transcriptOf, List.flatMap_cons, List.map_append, here, List.flatMap_cons,
      List.map_append]
    exact congrArg _ (ih fun t mem => answered t (List.mem_cons_of_mem _ mem))

end AgentLemmas

/-- Under the scripted provider the agent follows the plan, whatever the tools return and however
often the provider has failed before an answer: it calls one tool of the plan in each turn, with
the arguments of the payload and the script, and ends with the provider's final text, or at the
turn limit. -/
theorem echo_follows_plan (loads : String → Option Value) (str : Content → String)
    (p : EchoProvider) (dumps dumpsStr : Value → String) (payload : Value) :
    Obeys (dialogue dumps dumpsStr payload) [] (refundAgent dumps dumpsStr payload)
      fun turns r => Echoes loads str p dumps dumpsStr payload turns →
        turns.flatMap (fun t => t.response.toolCalls) =
          (p.plan.take MAX_TURNS).mapIdx (p.call (readPayload loads dumps payload)) ∧
        (transcriptOf turns).map (·.1) = p.plan.take MAX_TURNS ∧
        r = .ok (agentReport (if p.plan.length < MAX_TURNS then p.finalText
          else "turn limit reached without a final answer") (transcriptOf turns)) := by
  have conducted : Obeys (dialogue dumps dumpsStr payload) []
      (refundAgent dumps dumpsStr payload) AgentEnds := agentTurns_obeys (by simp) (by rfl)
  refine conducted.mono fun turns r ends echoes => ?_
  have names : ∀ n, ((p.plan.take n).mapIdx (p.call (readPayload loads dumps payload))).map
      (·.name) = p.plan.take n := by
    intro n
    rw [List.mapIdx_eq_zipIdx_map, List.map_map]
    exact List.zipIdx_map_fst 0 _
  cases ends with
  | final turns response count answered ends =>
    have last := echo_turn echoes List.getElem?_concat_length
    have earlier : Echoes loads str p dumps dumpsStr payload turns := by
      intro i t at_
      have bound := (List.getElem?_eq_some_iff.mp at_).1
      have said := echoes i t (by rw [List.getElem?_append_left bound, at_])
      rwa [List.take_append_of_le_length bound.le] at said
    obtain ⟨short, calls⟩ := echo_calls answered earlier
    have done : p.plan.length = turns.length := by
      refine Nat.le_antisymm ?_ short
      cases next : p.plan[turns.length]? with
      | none => exact List.getElem?_eq_none_iff.mp next
      | some name =>
        rw [next] at last
        rw [ModelResponse.wantsTools, last] at ends
        cases ends
    have plan : ∀ n, turns.length ≤ n → p.plan.take n = p.plan := fun n le =>
      List.take_of_length_le (done.trans_le le)
    rw [plan _ le_rfl] at calls
    have silent : response.toolCalls = [] := by
      simpa [ModelResponse.wantsTools] using ends
    have transcript : transcriptOf (turns ++ [⟨response, []⟩]) = transcriptOf turns := by
      simp [transcriptOf, Turn.entries]
    have text : response.text = p.finalText := by
      rw [List.getElem?_eq_none done.le] at last
      exact last.2
    rw [transcript, text, plan _ count.le, if_pos (done.trans_lt count)]
    refine ⟨?_, ?_, rfl⟩
    · rw [List.flatMap_append, calls, List.flatMap_singleton, silent, List.append_nil]
    · rw [transcript_names answered, calls, ← plan _ count.le, names]
  | limit _ count answered =>
    obtain ⟨long, calls⟩ := echo_calls answered echoes
    rw [count] at long calls
    refine ⟨calls, ?_, ?_⟩
    · rw [transcript_names answered, calls, names]
    · rw [if_neg (Nat.not_lt.mpr long)]

namespace AgentLemmas

variable {loads : String → Option Value} {str : Content → String} {p : EchoProvider}
  {dumps dumpsStr : Value → String} {payload : Value} {turns : List Turn}

/-- The answers of the provider, and of tools that return what `tool` says. -/
def echoed (loads : String → Option Value) (str : Content → String) (p : EchoProvider)
    (tool : String → Value → Value) : List Turn → (o : AgentOp) → AgentAns o
  | _, .model messages => p.reply loads str messages
  | _, .callTool name arguments => tool name arguments

/-- A turn that the provider begins once it has stopped failing echoes, and what its tools return
changes nothing of that. -/
theorem echoes_heard (tool : String → Value → Value) {o : AgentOp}
    (echoes : Echoes loads str p dumps dumpsStr payload turns)
    (may : mayAsk dumps dumpsStr payload turns o) :
    Echoes loads str p dumps dumpsStr payload
      (heard turns o (echoed loads str p tool turns o)) := by
  intro i t at_
  cases o with
  | model messages =>
    obtain ⟨-, -, rfl, -⟩ := may
    rcases Slots.concat_cases at_ with old | ⟨rfl, rfl⟩
    · obtain ⟨bound, -⟩ := List.getElem?_eq_some_iff.mp old
      obtain ⟨failures, said⟩ := echoes i t old
      exact ⟨failures, by rwa [heard, List.take_append_of_le_length bound.le]⟩
    · refine ⟨p.failFirstN, ?_⟩
      rw [heard, List.take_left, EchoProvider.complete, if_neg (Nat.lt_irrefl _)]
      rfl
  | callTool name arguments =>
    obtain ⟨earlier, waits, call, rfl, -⟩ := may
    simp only [heard, List.getLast?_concat, List.dropLast_concat] at at_ ⊢
    rcases Slots.concat_cases at_ with old | ⟨rfl, rfl⟩
    · obtain ⟨bound, -⟩ := List.getElem?_eq_some_iff.mp old
      obtain ⟨failures, said⟩ := echoes i t (by rw [List.getElem?_append_left bound, old])
      rw [List.take_append_of_le_length bound.le] at said ⊢
      exact ⟨failures, said⟩
    · obtain ⟨failures, said⟩ := echoes _ waits List.getElem?_concat_length
      rw [List.take_left] at said ⊢
      exact ⟨failures, said⟩

end AgentLemmas

namespace Sample

def noText (_ : Value) : String := ""

def twoTools : EchoProvider := ⟨["lookup_payment", "issue_refund"], [], "done", false, 1⟩

end Sample

theorem echo_follows_plan_two : ∃ (turns : List Turn) (r : Except Exn Report),
    Echoes (fun _ => Option.none) (fun _ => "") Sample.twoTools Sample.noText Sample.noText .none
      turns ∧
    turns.flatMap (fun t => t.response.toolCalls) =
      [⟨"call_0", "lookup_payment", .dict []⟩, ⟨"call_1", "issue_refund", .dict []⟩] ∧
    (transcriptOf turns).map (·.1) = ["lookup_payment", "issue_refund"] ∧
    r = .ok (agentReport "done" (transcriptOf turns)) := by
  obtain ⟨turns, r, echoes, follows⟩ := (echo_follows_plan (fun _ => Option.none) (fun _ => "")
    Sample.twoTools Sample.noText Sample.noText .none).answered
    (AgentLemmas.echoed (fun _ => Option.none) (fun _ => "") Sample.twoTools fun _ _ => .none)
    (fun _ _ echoes may => AgentLemmas.echoes_heard _ echoes may)
    (fun _ _ at_ => by cases at_)
  exact ⟨turns, r, echoes, follows echoes⟩

/-! ## The agent as a workflow -/

/-- A program of the agent as a workflow: a model call is answered with the dict of its response,
a tool call with the output, each under the one key of the call. -/
def agentFlow : Prog AgentAns Exn Report → Flow
  | .ret report => .ret report
  | .raise exc => .raise exc
  | .step (.model _) k => .step (.model "model") fun
    | [raw] =>
      match ModelResponse.fromDict raw with
      | .ok response => agentFlow (k response)
      | .error exc => .raise exc
    | _ => .raise ModelResponse.malformed
  | .step (.callTool name arguments) k => .step (.callTool name arguments) fun
    | [output] => agentFlow (k output)
    | _ => .raise ModelResponse.malformed

/-- The registered workflows: the agent, and none other. -/
def agentFlows (dumps dumpsStr : Value → String) : Flows := fun name input =>
  if name = "refund_agent" then agentFlow (refundAgent dumps dumpsStr input)
  else .raise (.workflowNotFound name)

/-- The name of the tool a call is of. -/
def Call.tool : Call → Option String
  | .callTool name _ => some name
  | _ => none

/-- The turns after an entry of the journal: the output of the tool the last turn waits for, or
else a response. -/
def hear (turns : List Turn) (values : List Value) : Option (List Turn) :=
  match turns.getLast?.bind Turn.pending, values with
  | some call, [output] => some (heard turns (.callTool call.name call.arguments) output)
  | none, [raw] => (ModelResponse.fromDict raw).toOption.map (heard turns (.model []))
  | _, _ => none

namespace AgentLemmas

variable {dumps dumpsStr : Value → String} {payload : Value} {turns : List Turn}

theorem answered_pending (answered : ∀ t ∈ turns, t.answered = true) :
    turns.getLast?.bind Turn.pending = none := by
  cases last : turns.getLast? with
  | none => rfl
  | some t =>
    have full := answered t (List.mem_of_getLast? last)
    simp only [Turn.answered, Bool.and_eq_true, decide_eq_true_eq] at full
    exact List.getElem?_eq_none full.2.ge

/-- The output of the tool the last turn waits for is the next entry of the transcript. -/
theorem transcript_output {earlier : List Turn} {t : Turn} {call : ToolCall} (output : Value)
    (pending : t.pending = some call) :
    transcriptOf (heard (earlier ++ [t]) (.callTool call.name call.arguments) output) =
      transcriptOf (earlier ++ [t]) ++ [(call.name, output)] := by
  have entries : Turn.entries { t with outputs := t.outputs ++ [output] } =
      t.entries ++ [(call.name, output)] :=
    Gathered.zip_concat output (by rw [List.getElem?_map,
      show t.response.toolCalls[t.outputs.length]? = some call from pending]; rfl)
  simp [heard, transcriptOf, entries]

/-- A journal the agent ends on tells the turns of its dialogue, and their transcript is of the
tools it has called. -/
theorem flow_heard {program : Prog AgentAns Exn Report}
    {Q : List Turn → Except Exn Report → Prop} {journal : List (List Value)} {report : Report}
    (obeys : Obeys (dialogue dumps dumpsStr payload) turns program Q)
    (fed : (agentFlow program).feed journal = some (.ret report)) :
    ∃ turns', journal.foldlM hear turns = some turns' ∧ Q turns' (.ok report) ∧
      (transcriptOf turns').map (·.1) = (transcriptOf turns).map (·.1) ++
        ((agentFlow program).asked journal).filterMap Call.tool := by
  induction program generalizing turns journal with
  | ret =>
    cases journal with
    | nil =>
      cases fed
      exact ⟨turns, rfl, obeys, by simp [Prog.asked]⟩
    | cons => cases fed
  | raise => exact absurd fed (Prog.raise_feed _ _ _)
  | step o k ih =>
    obtain ⟨may, goes⟩ := obeys
    cases journal with
    | nil => cases o <;> simp [agentFlow] at fed
    | cons values journal =>
      rw [List.foldlM_cons]
      cases o with
      | model messages =>
        have none_ := answered_pending may.2.1
        simp only [agentFlow, Prog.feed_step] at fed
        obtain _ | ⟨raw, _ | _⟩ := values
        · exact absurd fed (Prog.raise_feed _ _ _)
        · simp only at fed
          cases parsed : ModelResponse.fromDict raw with
          | error exc =>
            rw [parsed] at fed
            exact absurd fed (Prog.raise_feed _ _ _)
          | ok response =>
            rw [parsed] at fed
            obtain ⟨turns', told, ends, names⟩ := ih response (goes response) fed
            simp only [hear, none_, parsed]
            have silent : (transcriptOf (heard turns (.model messages) response)) =
                transcriptOf turns := by
              simp [heard, transcriptOf, Turn.entries]
            refine ⟨turns', told, ends, names.trans ?_⟩
            show (transcriptOf (heard turns (.model messages) response)).map _ ++ _ = _
            simp only [silent, agentFlow, Prog.asked, parsed]
            rfl
        · exact absurd fed (Prog.raise_feed _ _ _)
      | callTool name arguments =>
        obtain ⟨earlier, t, call, rfl, pending, rfl, rfl⟩ := may
        have waits : (earlier ++ [t]).getLast?.bind Turn.pending = some call := by
          rw [List.getLast?_concat]
          exact pending
        simp only [agentFlow, Prog.feed_step] at fed
        obtain _ | ⟨output, _ | _⟩ := values
        · exact absurd fed (Prog.raise_feed _ _ _)
        · obtain ⟨turns', told, ends, names⟩ := ih output (goes output) fed
          simp only [hear, waits]
          refine ⟨turns', told, ends, names.trans ?_⟩
          show (transcriptOf (heard _ (.callTool call.name call.arguments) output)).map _ ++ _ = _
          rw [transcript_output output pending]
          simp [agentFlow, Prog.asked, Call.tool]
        · exact absurd fed (Prog.raise_feed _ _ _)

end AgentLemmas

/-- The result of a completed run of the agent is read off its journal, whatever crashes there
were: the entries of the journal are the turns of a dialogue that the agent ends with this result,
up to the counters it shows. -/
theorem refund_agent_durable {cfg : Config} {dumps dumpsStr : Value → String} {j : Uuid}
    {now : Int} {w : World} {run : RunRecord}
    (h : Reaches (World.step cfg) (executing (agentFlows dumps dumpsStr) j) (.init now) w)
    (hrun : w.store.getRun j = some run) (agent : run.workflow = "refund_agent")
    (completed : run.status = .completed) :
    ∃ turns, (w.journal cfg (agentFlows dumps dumpsStr) run).foldlM hear [] = some turns ∧
      ∃ report executed replayed, AgentEnds turns (.ok report) ∧
        run.result = report executed replayed := by
  obtain ⟨report, fed, executed, replayed, result⟩ := completed_returns h hrun completed
  have flow : agentFlows dumps dumpsStr run.workflow run.input =
      agentFlow (refundAgent dumps dumpsStr run.input) := if_pos agent
  rw [flow] at fed
  have conducted : Obeys (dialogue dumps dumpsStr run.input) []
      (refundAgent dumps dumpsStr run.input) AgentEnds := agentTurns_obeys (by simp) (by rfl)
  obtain ⟨turns, told, ended, -⟩ := flow_heard conducted fed
  exact ⟨turns, told, report, executed, replayed, ended, result⟩

namespace Sample

def agentCfg : Config :=
  { cfg with workflows := ["refund_agent"], tools := [⟨"lookup_payment", .atLeastOnce, false⟩] }

/-- A response that asks for the payment, and one that asks for nothing. -/
def asksPayment : ModelResponse :=
  ⟨"", [⟨"call_0", "lookup_payment", .dict [(.str "payment_id", .str "pay_001")]⟩], "tool_use",
    10, 5, 0, "echo"⟩

def saysDone : ModelResponse := ⟨"done", [], "end_turn", 10, 5, 0, "echo"⟩

/-- The workflow makes the calls of the agent and returns what it returns, with these counters. -/
def asAgent (executed replayed : Nat) (w : World) : Action → Bool
  | .call p caller role c => caller = none && role = .workflow &&
      w.procs[p]?.all fun proc => proc.loc.ctx.all fun ctx =>
        (proc.calls.mapM CallRecord.returned).any fun told =>
          (agentFlows noText noText).nextCall ctx.run.workflow ctx.run.input told = some c
  | .main p (.value v) => w.procs[p]?.all fun proc => proc.loc.ctx.any fun ctx =>
      (proc.calls.mapM CallRecord.returned).any fun told =>
        match (agentFlows noText noText ctx.run.workflow ctx.run.input).feed told with
        | some (.ret report) => v = report executed replayed
        | _ => false
  | _ => true

def inAgent (w : World) (a : Action) : Prop := oneAfterAnother w a ∧ asAgent 2 1 w a = true

instance (w : World) (a : Action) : Decidable (inAgent w a) :=
  inferInstanceAs (Decidable (_ ∧ _))

/-- The agent asks the model and is killed when it looks the payment up. The next attempt finds the
response in the log, looks the payment up and asks the model again. -/
def lookingUp : List Action :=
  let looksUp : Call := .callTool "lookup_payment" (.dict [(.str "payment_id", .str "pay_001")])
  List.flatten [
    [.submit runId "refund_agent" .none "request" ⟨none, none, none, none, none⟩, .claim "a" []],
    proceed 0 7,
    [.call 0 none .workflow (.model "model")], advance 0 0 7,
    [.task 0 0 0 (.response asksPayment)], advance 0 0 7,
    [.call 0 none .workflow looksUp], advance 0 1 6,
    [.stop 0, .tick 31000000, .claim "b" []], proceed 1 8,
    [.call 1 none .workflow (.model "model")], advance 1 0 2,
    [.call 1 none .workflow looksUp], advance 1 1 8,
    [.task 1 1 0 (.value (.int 4999))], advance 1 1 5,
    [.call 1 none .workflow (.model "model")], advance 1 2 7,
    [.task 1 2 0 (.response saysDone)], advance 1 2 7,
    [.main 1 (.value (agentReport "done" [("lookup_payment", .int 4999)] 2 1))], proceed 1 7]

end Sample

theorem asAgent_executing {executed replayed : Nat} {w : World} {a : Action}
    (orderly : oneAfterAnother w a) (agent : Sample.asAgent executed replayed w a = true) :
    executing (agentFlows Sample.noText Sample.noText) Sample.runId w a := by
  refine ⟨⟨orderly, ?_⟩, ?_⟩
  · cases a with
    | call p caller role c =>
      simp only [Sample.asAgent, Bool.and_eq_true, decide_eq_true_eq] at agent
      obtain ⟨⟨top, workflow⟩, agent⟩ := agent
      refine fun proc hp _ => ⟨top, workflow, fun ctx hctx => ?_⟩
      have hp : w.procs[p]? = some proc := hp
      have hctx : proc.loc.ctx = some ctx := hctx
      rw [hp, Option.all_some, hctx, Option.all_some] at agent
      obtain ⟨values, told, same⟩ := (Option.any_eq_true _ _).mp agent
      exact ⟨values, told, of_decide_eq_true same⟩
    | _ => trivial
  · cases a with
    | main p ans =>
      cases ans with
      | value v =>
        intro proc hp _
        have hp : w.procs[p]? = some proc := hp
        simp only [Sample.asAgent, hp, Option.all_some] at agent
        obtain ⟨ctx, hctx, agent⟩ := (Option.any_eq_true _ _).mp agent
        obtain ⟨values, told, ended⟩ := (Option.any_eq_true _ _).mp agent
        split at ended
        · next report fed =>
          exact ⟨ctx, values, report, hctx, told, fed, executed, replayed, of_decide_eq_true ended⟩
        · cases ended
      | _ => trivial
    | _ => trivial

theorem refund_agent_durable_lookedUp : ∃ (w : World) (run : RunRecord),
    w.store.getRun Sample.runId = some run ∧ run.status = .completed ∧ w.procs.length = 2 ∧
    ∃ turns, (w.journal Sample.agentCfg (agentFlows Sample.noText Sample.noText) run).foldlM
        hear [] = some turns ∧
      ∃ report executed replayed, AgentEnds turns (.ok report) ∧
        run.result = report executed replayed := by
  obtain ⟨w, ran, status, two⟩ := run_exists (World.step Sample.agentCfg) Sample.inAgent (.init 0)
    Sample.lookingUp (fun w => (w.store.getRun Sample.runId).map
      (fun run => (run.status, run.workflow)) = some (.completed, "refund_agent") ∧
      w.procs.length = 2) (by decide +kernel)
  obtain ⟨run, hrun, same⟩ := Option.map_eq_some_iff.mp status
  obtain ⟨completed, agent⟩ := Prod.mk.inj same
  exact ⟨w, run, hrun, completed, two, refund_agent_durable
    ((run_reaches ran).weaken fun _ _ ok => asAgent_executing ok.1 ok.2) hrun agent completed⟩

end AnchorRuntime
