import AnchorRuntime.Agent
import AnchorRuntime.SideEffects
import AnchorRuntime.Invoke
import AnchorRuntime.Identifiers

/-!
# Refunds

The tools of `examples/refund_agent.py` and the rows they write. A tool's function is a program over
the statements on `side_effects`; it is given what `_invoke` binds. The bodies and verifiers of the
joint system act as these programs, whenever they are run, and whatever crashes.

Results: `refunds_accounted`, every refund is that of one step of its run that was called with its
payment and its amount, and within what was captured; `refunds_match_transcript`, a completed run
of the agent has made one refund for each call of `issue_refund` in its transcript.
-/

namespace AnchorRuntime

open Effect Relational Machine Occurrences ProcLemmas TaskLemmas FanOutLemmas PositionLemmas
  SideEffectLemmas IdentifierLemmas TrajectoryLemmas DurableLemmas AgentLemmas

/-! ## The tools -/

structure Payment where
  paymentId : String
  capturedCents : Int
  currency : String
  status : String

def PAYMENTS : List Payment :=
  [⟨"pay_001", 4999, "CAD", "captured"⟩, ⟨"pay_002", 129900, "CAD", "captured"⟩,
    ⟨"pay_003", 0, "CAD", "voided"⟩]

def Payment.toDict (payment : Payment) : Value :=
  .dict [(.str "payment_id", .str payment.paymentId),
    (.str "captured_cents", .int payment.capturedCents), (.str "currency", .str payment.currency),
    (.str "status", .str payment.status)]

/-- What the functions of the tools wait for. -/
inductive ToolOp
  | recordSideEffect (token runId : Uuid) (kind : String) (payload : Value)
  | findSideEffect (token : Uuid)
  | sleep (seconds : Rat)

@[reducible] def ToolAns : ToolOp → Type
  | .recordSideEffect _ _ _ _ => Except Exn Bool
  | .findSideEffect _ => Except Exn (Option SideEffect)
  | .sleep _ => Unit

abbrev ToolCode := Prog ToolAns Exn

/-- `PAYMENTS.get(payment_id)`; a value from JSON is hashable unless it is a list or a dict. -/
def getPayment : Value → Except Exn (Option Payment)
  | .str id => .ok (PAYMENTS.find? (·.paymentId = id))
  | .list _ => .error (.exception "TypeError" "unhashable type: 'list'")
  | .dict _ => .error (.exception "TypeError" "unhashable type: 'dict'")
  | _ => .ok none

/-- The number a value is compared as. -/
def Value.number : Value → Option Rat
  | .bool b => some (if b then 1 else 0)
  | .int n => some n
  | .float q => some q
  | _ => Option.none

/-- `amount_cents <= 0 or amount_cents > captured`; NaN is neither. -/
def outOfRange (captured : Int) (amount : Value) : Except Exn Bool :=
  match amount.number, amount with
  | some q, _ => .ok (q ≤ 0 || captured < q)
  | none, .nonFinite text => .ok (text = "inf" || text = "-inf")
  | none, v => .error (.exception "TypeError"
      s!"'<=' not supported between instances of '{v.typeName}' and 'int'")

/-- The parts of Python's library the tools use as black boxes, and the chaos delay. -/
structure ToolEnv where
  repr : Value → String
  str : Value → String
  isoformat : Int → String
  delaySeconds : Rat

section Tools

variable (env : ToolEnv)

def unknownPayment (paymentId : Value) : Exn :=
  .exception "LookupError" s!"unknown payment {env.repr paymentId}"

/-- `lookup_payment` -/
def lookupPayment (paymentId : Value) : ToolCode Value := do
  match ← .ofExcept (getPayment paymentId) with
  | none => .raise (unknownPayment env paymentId)
  | some payment => return payment.toDict

/-- The payload of a refund. -/
def refundPayload (paymentId amountCents : Value) : Value :=
  .dict [(.str "payment_id", paymentId), (.str "amount_cents", amountCents)]

/-- `issue_refund` -/
def issueRefund (token runId : Uuid) (paymentId amountCents : Value) : ToolCode Value := do
  match ← .ofExcept (getPayment paymentId) with
  | none => .raise (unknownPayment env paymentId)
  | some payment => do
    let refuse ← .ofExcept (outOfRange payment.capturedCents amountCents)
    if refuse then
      .raise (.exception "ValueError" (s!"refund of {env.str amountCents} exceeds captured " ++
        s!"{payment.capturedCents} on {env.str paymentId}"))
    else do
      let created ← .perform
        (.recordSideEffect token runId "refund" (refundPayload paymentId amountCents)) id
      if env.delaySeconds ≠ 0 then .ask (ToolOp.sleep env.delaySeconds)
      return .dict [(.str "payment_id", paymentId), (.str "amount_cents", amountCents),
        (.str "token", .str token.str), (.str "created", .bool created)]

/-- `notify_customer` -/
def notifyCustomer (token runId : Uuid) (paymentId message : Value) : ToolCode Value := do
  let _ ← .perform (.recordSideEffect token runId "email"
    (.dict [(.str "payment_id", paymentId), (.str "message", message)])) id
  return .dict [(.str "sent", .bool true), (.str "payment_id", paymentId)]

/-- The dict `find_side_effect` makes of a row. -/
def SideEffect.toDict (row : SideEffect) : Value :=
  .dict [(.str "token", .str row.token.str), (.str "run_id", .str row.runId.str),
    (.str "kind", .str row.kind), (.str "payload", row.payload),
    (.str "created_at", .str (env.isoformat row.createdAt))]

/-- `_refund_landed` -/
def refundLanded (token : Uuid) : ToolCode Value := do
  match ← .perform (.findSideEffect token) id with
  | none => return .none
  | some row => return row.toDict env

/-! ## Their calls -/

def parameter (name : String) : Parameter := ⟨name, .positionalOrKeyword, false⟩

def lookupPaymentSignature : Signature := ⟨[parameter "payment_id"], by decide⟩

def issueRefundSignature : Signature :=
  ⟨[parameter "ctx", parameter "token", parameter "payment_id", parameter "amount_cents"],
    by decide⟩

def notifyCustomerSignature : Signature :=
  ⟨[parameter "ctx", parameter "token", parameter "payment_id",
    ⟨"message", .positionalOrKeyword, true⟩], by decide⟩

def refundLandedSignature : Signature :=
  ⟨[parameter "ctx", parameter "token", ⟨"_", .varKeyword, false⟩], by decide⟩

/-- The value a parameter is bound to, or its default. -/
def Binding.value (b : Binding) (name : String) (default : Value) : Value :=
  match b.bound.lookup name with
  | some (.json v) => v
  | _ => default

/-- The closure that `call_tool` invokes: the function of the tool on what binds. -/
def toolCode (token runId : Uuid) (name : String) (arguments : Value) : ToolCode Value :=
  match name with
  | "lookup_payment" => do
    let b ← .ofExcept (callToolArguments lookupPaymentSignature token (some arguments.entries))
    lookupPayment env (b.value "payment_id" .none)
  | "issue_refund" => do
    let b ← .ofExcept (callToolArguments issueRefundSignature token (some arguments.entries))
    issueRefund env token runId (b.value "payment_id" .none) (b.value "amount_cents" .none)
  | "notify_customer" => do
    let b ← .ofExcept (callToolArguments notifyCustomerSignature token (some arguments.entries))
    notifyCustomer token runId (b.value "payment_id" .none) (b.value "message" (.str ""))
  | _ => .raise (.toolNotFound name)

/-- The closure that verifies a step of `issue_refund`. -/
def verifierCode (token : Uuid) (arguments : Value) : ToolCode Value := do
  let _ ← .ofExcept (callToolArguments refundLandedSignature token (some arguments.entries))
  refundLanded env token

end Tools

/-! ## Bodies and verifiers that act as their tools -/

/-- The program ends in the value, where the statement that records has been made if `recorded` says
so, and a look-up has found a row if `found` does. -/
def Gives (recorded found : Bool) : ToolCode Value → Value → Prop
  | .ret u, v => v = u
  | .raise _, _ => False
  | .step (.recordSideEffect _ _ _ _) k, v =>
    recorded = true ∧ ∃ created, Gives recorded found (k (.ok created)) v
  | .step (.findSideEffect _) k, v =>
    ∃ row : Option SideEffect, row.isSome = found ∧ Gives recorded found (k (.ok row)) v
  | .step (.sleep _) k, v => Gives recorded found (k ()) v

/-- Bodies and verifiers act as their tools: a body records what its function does, with its token;
what it returns, the function does after that; what a verifier returns is what its function makes
of a look-up. Nobody else writes to the table. What is raised, and when, is not restricted. -/
def actAsTools (cfg : Config) (env : ToolEnv) (w : Joint) : JointAction → Prop
  | .effect p c b kind payload => ∀ proc ∈ w.world.procs[p]?, ∀ rec ∈ proc.calls[c]?,
    ∀ t ∈ rec.tasks[b]?, ∃ name arguments, rec.call = .callTool name arguments ∧
      (toolCode env (stepToken cfg proc.loc.runId t.key) proc.loc.runId name arguments).next =
        some (.recordSideEffect (stepToken cfg proc.loc.runId t.key) proc.loc.runId kind payload)
  | .base (.task p c b (.value v)) => ∀ proc ∈ w.world.procs[p]?, ∀ rec ∈ proc.calls[c]?,
    ∀ t ∈ rec.tasks[b]?, ∀ name arguments, rec.call = .callTool name arguments →
      (∀ n, t.stage = .running n → Gives (w.recorded.contains (p, t.key, n)) false
        (toolCode env (stepToken cfg proc.loc.runId t.key) proc.loc.runId name arguments) v) ∧
      (t.stage = .verifying → ∃ found, w.lookups.contains (p, t.key, found) = true ∧
        Gives false found (verifierCode env (stepToken cfg proc.loc.runId t.key) arguments) v)
  | .foreign _ _ _ _ => False
  | _ => True

/-- The row is what the tool of one step of its run records. -/
def World.Made (cfg : Config) (env : ToolEnv) (w : World) (row : SideEffect) : Prop :=
  ∃ (p : Nat) (proc : Proc) (c b : Nat) (rec : CallRecord) (t : Task) (name : String)
    (arguments : Value), w.procs[p]? = some proc ∧ proc.loc.runId = row.runId ∧
    proc.At c b rec t ∧ row.token = stepToken cfg row.runId t.key ∧
    rec.call = .callTool name arguments ∧
    (toolCode env row.token row.runId name arguments).next =
      some (.recordSideEffect row.token row.runId row.kind row.payload) ∧
    storableValue row.payload = true

namespace RefundLemmas

variable {cfg : Config} {env : ToolEnv} {w w' : Joint} {a : JointAction}

/-! ## Who makes a row -/

/-- The row a call of `record_side_effect` adds. -/
theorem record_row {token runId : Uuid} {kind : String} {payload : Value}
    (h : w.record token runId kind payload = some w') : w'.world = w.world ∧
      (w'.effects.rows = w.effects.rows ∨ storableValue payload = true ∧
        w'.effects.rows = w.effects.rows ++ [⟨token, runId, kind, payload, w.world.now⟩]) := by
  unfold Joint.record recordSideEffect at h
  split at h
  · cases h
  · cases h
    exact ⟨rfl, .inl rfl⟩
  · next same =>
    split at same
    · next storable =>
      split at same
      · next inserted =>
        cases same
        cases h
        exact ⟨rfl, .inr ⟨((Bool.and_eq_true _ _).mp storable).2, (Table.rows_insert inserted).2⟩⟩
      · cases same
    · cases same

/-- The step that acts on the table. -/
theorem task_at {p c b : Nat} {proc : Proc} {t : Task} (h : w.task? p c b = some (proc, t)) :
    w.world.procs[p]? = some proc ∧ ∃ rec, proc.At c b rec t := by
  refine ⟨task_there h, ?_⟩
  unfold Joint.task? at h
  obtain ⟨proc', hp, rest⟩ := Option.bind_eq_some_iff.mp h
  split at rest
  · cases rest
  · obtain ⟨rec, hrec, rest⟩ := Option.bind_eq_some_iff.mp rest
    obtain ⟨t', ht, rest⟩ := Option.bind_eq_some_iff.mp rest
    cases rest
    exact ⟨rec, hrec, ht⟩

theorem made_world {world world' : World} {action : Action} {row : SideEffect}
    (h : world.step cfg action = some world') (made : world.Made cfg env row) :
    world'.Made cfg env row := by
  obtain ⟨p, proc, c, b, rec, t, name, arguments, hp, own, at_, token, call, does⟩ := made
  obtain ⟨proc', rec', t', hp', run, at', same, key, -⟩ := task_persists h hp at_
  exact ⟨p, proc', c, b, rec', t', name, arguments, hp', run.trans own, at',
    by rw [key]; exact token, same.call.trans call, does⟩

theorem made_step (h : w.step cfg a = some w') (ok : actAsTools cfg env w a)
    (inv : ∀ row ∈ w.effects.rows, w.world.Made cfg env row) :
    ∀ row ∈ w'.effects.rows, w'.world.Made cfg env row := by
  cases a with
  | base a =>
    obtain ⟨world, step, rfl⟩ := Option.map_eq_some_iff.mp h
    exact fun row mem => made_world step (inv row mem)
  | effect p c b kind payload =>
    obtain ⟨⟨proc, t⟩, there, rest⟩ := Option.bind_eq_some_iff.mp h
    dsimp only at rest
    split at rest
    · obtain ⟨w₁, recorded, rest⟩ := Option.bind_eq_some_iff.mp rest
      cases rest
      obtain ⟨world, rows⟩ := record_row recorded
      obtain ⟨hp, rec, at_⟩ := task_at there
      obtain ⟨name, arguments, call, does⟩ := ok proc hp rec at_.1 t at_.2
      show ∀ row ∈ w₁.effects.rows, w₁.world.Made cfg env row
      rw [world]
      rcases rows with same | ⟨storable, new⟩
      · exact same ▸ inv
      · rw [new]
        intro row mem
        rcases List.mem_append.mp mem with old | is
        · exact inv row old
        · obtain rfl := List.mem_singleton.mp is
          exact ⟨p, proc, c, b, rec, t, name, arguments, hp, rfl, at_, rfl, call, does, storable⟩
    · cases rest
  | lookUp p c b =>
    obtain ⟨⟨proc, t⟩, -, rest⟩ := Option.bind_eq_some_iff.mp h
    dsimp only at rest
    split at rest <;> cases rest
    exact inv
  | «foreign» token runId kind payload => exact ok.elim

/-! ## What the tools record -/

/-- What is bound to a parameter is the argument of that name. -/
theorem binding_value {sig : Signature} {token : Uuid} {arguments : List (String × Value)}
    {b : Binding} (bound : callToolArguments sig token (some arguments) = .ok b)
    (closed : sig.acceptsVarKwargs = false) {name : String} (keyword : sig.keyword name = true)
    (free : name ≠ "ctx" ∧ name ≠ "token") (default : Value) :
    b.value name default = (arguments.lookup name).getD default := by
  rw [InvokeLemmas.callToolArguments_eq] at bound
  set args : Keywords := arguments.map fun e => (e.1, .json e.2) with hargs
  have given : b.bound.lookup name = args.lookup name := by
    unfold invokeArguments mergeKeywords at bound
    split at bound
    · cases bound
    · have bound : sig.call (injected sig (.token token) ++ passed sig (.token token) args) =
          .ok b := bound
      unfold Signature.call at bound
      dsimp only at bound
      split at bound
      · cases bound
      · split at bound
        · cases bound
        · cases bound
          have declares := InvokeLemmas.declares_of_keyword keyword
          rw [Assoc.lookup_filter, keyword, if_pos rfl, List.lookup_append,
            InvokeLemmas.lookup_injected, if_neg free.1, if_neg free.2, Option.none_or,
            InvokeLemmas.lookup_passed, closed, declares]
          rfl
  rw [Binding.value, given, hargs, Assoc.lookup_map]
  cases arguments.lookup name <;> rfl

/-- A number that is not refused is positive and at most what was captured. -/
theorem inRange {captured : Int} {amount : Value} (h : outOfRange captured amount = .ok false)
    (storable : storableValue amount = true) :
    ∃ q, amount.number = some q ∧ 0 < q ∧ q ≤ captured := by
  unfold outOfRange at h
  split at h
  · next q number =>
    refine ⟨q, number, ?_⟩
    simpa using h
  · next text => simp [storableValue, Value.jsonb] at storable
  · cases h

theorem payment_known {id : Value} {payment : Payment} (h : getPayment id = .ok (some payment)) :
    payment ∈ PAYMENTS ∧ id = .str payment.paymentId := by
  unfold getPayment at h
  split at h
  · have found := Except.ok.inj h
    refine ⟨List.mem_of_find?_eq_some found, ?_⟩
    have same := List.find?_some found
    rw [of_decide_eq_true same]
  all_goals cases h

/-- A program that waits for something has got past what does not wait. -/
theorem ofExcept_next {α : Type} {e : Except Exn α} {f : α → ToolCode Value} {o : ToolOp}
    (h : (do let a ← Prog.ofExcept e; f a : ToolCode Value).next = some o) :
    ∃ a, e = .ok a ∧ (f a).next = some o := by
  cases e with
  | error exc => cases h
  | ok a => exact ⟨a, rfl, h⟩

theorem lookup_of_getD {l : List (String × Value)} {name : String} {v : Value}
    (h : (l.lookup name).getD .none = v) (some_ : v ≠ .none) : l.lookup name = some v := by
  cases found : l.lookup name with
  | none =>
    rw [found] at h
    exact absurd h.symm some_
  | some u =>
    rw [found] at h
    exact congrArg some h

/-- What a tool records is a refund of a known payment within what was captured, if it is
`issue_refund`, and else an email. -/
theorem tool_records {token token' runId runId' : Uuid} {name kind : String}
    {arguments payload : Value} (h : (toolCode env token runId name arguments).next =
      some (.recordSideEffect token' runId' kind payload)) :
    (name = "issue_refund" ∧ kind = "refund" ∧ ∃ payment ∈ PAYMENTS, ∃ amount,
      arguments.entries.lookup "payment_id" = some (.str payment.paymentId) ∧
      arguments.entries.lookup "amount_cents" = some amount ∧
      payload = refundPayload (.str payment.paymentId) amount ∧
      outOfRange payment.capturedCents amount = .ok false) ∨
    name = "notify_customer" ∧ kind = "email" := by
  unfold toolCode at h
  split at h
  · obtain ⟨b, -, h⟩ := ofExcept_next h
    obtain ⟨payment, -, h⟩ := ofExcept_next h
    cases payment <;> cases h
  · obtain ⟨b, bound, h⟩ := ofExcept_next h
    obtain ⟨found, known, h⟩ := ofExcept_next h
    cases found with
    | none => cases h
    | some payment =>
      obtain ⟨refuse, range, h⟩ := ofExcept_next h
      cases refuse with
      | true => cases h
      | false =>
        cases h
        obtain ⟨listed, id_⟩ := payment_known known
        refine .inl ⟨rfl, rfl, payment, listed, _, ?_, ?_, by rw [id_], range⟩
        · exact lookup_of_getD
            ((binding_value bound (by rfl) (by rfl) (by decide) _).symm.trans id_) (by simp)
        · refine lookup_of_getD (binding_value bound (by rfl) (by rfl) (by decide) _).symm ?_
          intro none
          rw [none] at range
          cases range
  · obtain ⟨b, -, h⟩ := ofExcept_next h
    cases h
    exact .inr ⟨rfl, rfl⟩
  · cases h

end RefundLemmas

open RefundLemmas

theorem made_reaches {cfg : Config} {env : ToolEnv} {now : Int} {w : Joint}
    {ok : Joint → JointAction → Prop} (h : Reaches (Joint.step cfg) ok (.init now) w)
    (tools : ∀ w a, ok w a → actAsTools cfg env w a) :
    ∀ row ∈ w.effects.rows, w.world.Made cfg env row :=
  h.invariant (fun _ mem => by cases mem) fun w a _ _ inv good step =>
    made_step step (tools w a good) inv

/-- The row is the refund of one step of its run: the step was called with its payment and its
amount, and the amount is positive and within what was captured. -/
def World.Refunds (cfg : Config) (w : World) (row : SideEffect) : Prop :=
  ∃ (p : Nat) (proc : Proc) (c b : Nat) (rec : CallRecord) (t : Task) (arguments : Value),
    w.procs[p]? = some proc ∧ proc.loc.runId = row.runId ∧ proc.At c b rec t ∧
    row.token = stepToken cfg row.runId t.key ∧ rec.call = .callTool "issue_refund" arguments ∧
    ∃ payment ∈ PAYMENTS, ∃ amount q, row.payload = refundPayload (.str payment.paymentId) amount ∧
      arguments.entries.lookup "payment_id" = some (.str payment.paymentId) ∧
      arguments.entries.lookup "amount_cents" = some amount ∧ amount.number = some q ∧
      0 < q ∧ q ≤ payment.capturedCents

/-- Under any schedule, with any crashes and retries, every refund in the table is that of a step
of its run, and no two of them have one token. -/
theorem refunds_accounted {cfg : Config} {env : ToolEnv} {now : Int} {w : Joint}
    (h : Reaches (Joint.step cfg) (actAsTools cfg env) (.init now) w) :
    (∀ row ∈ w.effects.rows, row.kind = "refund" → w.world.Refunds cfg row) ∧
      (w.effects.rows.map (·.token)).Nodup := by
  refine ⟨fun row mem refund => ?_, w.effects.unique⟩
  obtain ⟨p, proc, c, b, rec, t, name, arguments, hp, own, at_, token, call, does, storable⟩ :=
    made_reaches h (fun _ _ ok => ok) row mem
  rcases tool_records does with ⟨rfl, -, payment, listed, amount, id_, cents, payload, range⟩ |
    ⟨-, email⟩
  · have fits : storableValue amount = true := by
      rw [payload] at storable
      simp only [storableValue, refundPayload, Value.jsonable, Value.jsonableEntries, Value.jsonb,
        Value.jsonbEntries, Value.jsonKey, Value.jsonbKey, Bool.and_eq_true] at storable ⊢
      tauto
    obtain ⟨q, number, positive, captured⟩ := inRange range fits
    exact ⟨p, proc, c, b, rec, t, arguments, hp, own, at_, token, call, payment, listed, amount, q,
      payload, id_, cents, number, positive, captured⟩
  · exact absurd (refund.symm.trans email) (by decide)

/-! ## Completed runs -/

/-- `count_side_effects` -/
def Joint.countSideEffects (w : Joint) (runId : Uuid) (kind : String) : Nat :=
  (w.effects.rows.filter fun row => row.runId = runId ∧ row.kind = kind).length

/-- The tools act as tools, and the attempts of run `j` execute the agent. -/
def refunding (cfg : Config) (env : ToolEnv) (dumps dumpsStr : Value → String) (j : Uuid)
    (w : Joint) (a : JointAction) : Prop :=
  actAsTools cfg env w a ∧
    ∀ action, a = .base action → executing (agentFlows dumps dumpsStr) j w.world action

/-- What has been hashed into tokens. -/
def World.tokenNames (w : World) : Set String :=
  {name | ∃ proc ∈ w.procs, ∃ key ∈ proc.keys, name = tokenName proc.loc.runId key}

def Call.isRefund : Call → Bool
  | .callTool name _ => name = "issue_refund"
  | _ => false

/-- The keys of the steps of an attempt that refund. -/
def Proc.refundKeys (proc : Proc) : List String :=
  (proc.calls.filter (·.call.isRefund)).flatMap fun rec => rec.tasks.map (·.key)

namespace RefundLemmas

variable {cfg : Config} {env : ToolEnv} {dumps dumpsStr : Value → String} {j : Uuid} {now : Int}
  {w w' : Joint} {a : JointAction}

/-! ## The two halves of the joint system -/

/-- A step of the joint system is one of the system, or leaves it as it is. -/
theorem base_or_same (h : w.step cfg a = some w') :
    (∃ action, a = .base action ∧ w.world.step cfg action = some w'.world) ∨
      w'.world = w.world := by
  cases a with
  | base action =>
    obtain ⟨world, moved, rfl⟩ := Option.map_eq_some_iff.mp h
    exact .inl ⟨action, rfl, moved⟩
  | effect p c b kind payload =>
    obtain ⟨⟨proc, t⟩, there, rest⟩ := Option.bind_eq_some_iff.mp h
    dsimp only at rest
    split at rest
    · obtain ⟨w₁, recorded, rest⟩ := Option.bind_eq_some_iff.mp rest
      cases rest
      exact .inr (record_row recorded).1
    · cases rest
  | lookUp p c b =>
    obtain ⟨⟨proc, t⟩, there, rest⟩ := Option.bind_eq_some_iff.mp h
    dsimp only at rest
    split at rest <;> cases rest
    exact .inr rfl
  | «foreign» token runId kind payload => exact .inr (record_row h).1

/-- What the schedule of the joint system guarantees the system. -/
theorem base_reaches {good : Joint → JointAction → Prop} {ok : World → Action → Prop}
    (h : Reaches (Joint.step cfg) good (.init now) w)
    (base : ∀ w action, good w (.base action) → ok w.world action) :
    Reaches (World.step cfg) ok (.init now) w.world := by
  induction h with
  | refl => exact .refl
  | tail _ may step ih =>
    rcases base_or_same step with ⟨action, rfl, moved⟩ | same
    · exact ih.tail (base _ action may) moved
    · exact same ▸ ih

/-! ## Tools that record -/

/-- A program that gives a value has got past what does not wait. -/
theorem ofExcept_gives {α : Type} {recorded found : Bool} {e : Except Exn α}
    {f : α → ToolCode Value} {v : Value}
    (h : Gives recorded found (do let a ← Prog.ofExcept e; f a) v) :
    ∃ a, e = .ok a ∧ Gives recorded found (f a) v := by
  cases e with
  | error exc => exact h.elim
  | ok a => exact ⟨a, rfl, h⟩

/-- A refund tool that returns has recorded. -/
theorem gives_recorded {recorded found : Bool} {token runId : Uuid} {arguments v : Value}
    (h : Gives recorded found (toolCode env token runId "issue_refund" arguments) v) :
    recorded = true := by
  obtain ⟨b, -, h⟩ := ofExcept_gives h
  obtain ⟨payment, -, h⟩ := ofExcept_gives h
  cases payment with
  | none => exact h.elim
  | some payment =>
    obtain ⟨refuse, -, h⟩ := ofExcept_gives h
    cases refuse with
    | true => exact h.elim
    | false => exact h.1

/-- A verifier returns None if and only if it has found nothing. -/
theorem gives_found {found : Bool} {token : Uuid} {arguments v : Value}
    (h : Gives false found (verifierCode env token arguments) v) : (!v.isNone) = found := by
  obtain ⟨b, -, h⟩ := ofExcept_gives h
  obtain ⟨row, rfl, h⟩ := h
  cases row with
  | none =>
    obtain rfl : v = .none := h
    rfl
  | some row =>
    obtain rfl : v = row.toDict env := h
    rfl

/-- A body that is running is left with a value or an exception. -/
theorem running_leaves {world world' : World} {p c b n : Nat} {ans : Answer} {proc : Proc}
    {rec : CallRecord} {t : Task} {o : Op} {r : Ans o} {loc : Local}
    (acts : TaskActs cfg world world' p c b ans proc rec t o r loc) (stage : t.stage = .running n)
    (refund : rec.call.isRefund = true) : (∃ exc, ans = .raise exc) ∨ ∃ v, ans = .value v := by
  have may := acts.may
  have run := acts.run
  rw [stage] at may
  obtain rfl : o = _ := may
  have body : (rec.call.setup cfg proc.loc.runId proc.loc.guarded t.key).body n =
      .body t.key (stepToken cfg proc.loc.runId t.key) n := by
    cases call : rec.call with
    | callTool name arguments => rfl
    | _ =>
      rw [call] at refund
      cases refund
  rw [body] at run
  cases ans with
  | raise exc => exact .inl ⟨exc, rfl⟩
  | value v => exact .inr ⟨v, rfl⟩
  | done | response => cases run

/-- Tools that act as such go by the table. -/
theorem tools_recording
    (shaped : ∀ (p : Nat) (proc : Proc), w.world.procs[p]? = some proc → proc.Shaped cfg)
    (h : w.step cfg a = some w') (ok : actAsTools cfg env w a) : recording Call.isRefund w a := by
  cases a with
  | base action =>
    cases action with
    | task p c b ans =>
      intro proc hp rec hrec t ht refund
      obtain ⟨arguments, call⟩ : ∃ arguments, rec.call = .callTool "issue_refund" arguments := by
        cases call : rec.call with
        | callTool name arguments =>
          rw [call] at refund
          exact ⟨arguments, by rw [of_decide_eq_true refund]⟩
        | _ =>
          rw [call] at refund
          cases refund
      have value : ∀ v, ans = .value v → w.goesByTable p t (.value v) = true := by
        rintro v rfl
        obtain ⟨body, verifier⟩ := ok proc hp rec hrec t ht _ arguments call
        unfold Joint.goesByTable
        cases stage : t.stage with
        | running n => exact gives_recorded (body n stage)
        | verifying =>
          obtain ⟨found, looked, gives⟩ := verifier stage
          dsimp only
          rw [gives_found gives]
          exact looked
        | _ => rfl
      cases ans with
      | raise exc => rfl
      | value v => exact value v rfl
      | done | response =>
        unfold Joint.goesByTable
        cases stage : t.stage with
        | running n =>
          obtain ⟨world, moved, -⟩ := Option.map_eq_some_iff.mp h
          obtain ⟨proc', rec', t', o, r, loc, acts⟩ := task_acts shaped moved
          obtain rfl := Option.some.inj (acts.hp.symm.trans hp)
          obtain rfl := Option.some.inj (acts.at_.1.symm.trans hrec)
          obtain rfl := Option.some.inj (acts.at_.2.symm.trans ht)
          rcases running_leaves acts stage refund with ⟨_, is⟩ | ⟨_, is⟩ <;> cases is
        | _ => rfl
    | _ => trivial
  | _ => trivial

theorem tools_sound {good : Joint → JointAction → Prop}
    (h : Reaches (Joint.step cfg) good (.init now) w)
    (tools : ∀ w a, good w a → actAsTools cfg env w a) : w.Sound cfg Call.isRefund := by
  have recorded : Reaches (Joint.step cfg) (recording Call.isRefund) (.init now) w := by
    induction h with
    | refl => exact .refl
    | tail reached may step ih =>
      exact ih.tail (tools_recording (fun _ _ => shaped_reaches (world_reaches reached)) step
        (tools _ _ may)) step
  exact sound_reaches recorded

/-! ## The steps that refund -/

theorem mem_refundKeys {proc : Proc} {key : String} : key ∈ proc.refundKeys ↔
    ∃ c b rec t, proc.At c b rec t ∧ rec.call.isRefund = true ∧ t.key = key := by
  constructor
  · intro mem
    obtain ⟨rec, hrec, keys⟩ := List.mem_flatMap.mp mem
    obtain ⟨hrec, refund⟩ := List.mem_filter.mp hrec
    obtain ⟨t, ht, rfl⟩ := List.mem_map.mp keys
    obtain ⟨c, hc⟩ := List.mem_iff_getElem?.mp hrec
    obtain ⟨b, hb⟩ := List.mem_iff_getElem?.mp ht
    exact ⟨c, b, rec, t, ⟨hc, hb⟩, refund, rfl⟩
  · rintro ⟨c, b, rec, t, at_, refund, rfl⟩
    exact List.mem_flatMap.mpr ⟨rec, List.mem_filter.mpr ⟨List.mem_of_getElem? at_.1, refund⟩,
      List.mem_map_of_mem (List.mem_of_getElem? at_.2)⟩

theorem refundKeys_sublist (proc : Proc) : proc.refundKeys.Sublist proc.keys :=
  List.filter_sublist.flatMap _

/-- A refund is one step. -/
theorem refund_task {proc : Proc} {c : Nat} {rec : CallRecord} (positioned : proc.Positioned cfg)
    (named : ∀ rec ∈ proc.calls, rec.refused = none → ∃ names, rec.call.names cfg = .ok names)
    (hrec : proc.calls[c]? = some rec) (accepted : rec.refused = none)
    (refund : rec.call.isRefund = true) : (rec.tasks.map (·.key)).length = 1 := by
  obtain ⟨names, known⟩ := named rec (List.mem_of_getElem? hrec) accepted
  have allocates : rec.call.allocates cfg = names := by
    rw [Call.allocates, known]
    rfl
  rw [keys_ranked positioned hrec, List.length_map, ranked_length, allocates]
  cases call : rec.call with
  | callTool name arguments =>
    rw [call] at known
    cases tool : cfg.tool name with
    | error exc => simp [Call.names, tool, bind, Except.bind] at known
    | ok spec =>
      rw [Call.names, tool] at known
      cases known
      rfl
  | _ =>
    rw [call] at refund
    cases refund

theorem refundKeys_length {proc : Proc} {values : List (List Value)}
    (positioned : proc.Positioned cfg)
    (named : ∀ rec ∈ proc.calls, rec.refused = none → ∃ names, rec.call.names cfg = .ok names)
    (told : proc.calls.mapM CallRecord.returned = some values) :
    proc.refundKeys.length = (proc.calls.map (·.call)).countP Call.isRefund := by
  have one : ∀ n ∈ (proc.calls.filter (·.call.isRefund)).map
      fun rec => (rec.tasks.map (·.key)).length, n = 1 := by
    intro n mem
    obtain ⟨rec, hrec, rfl⟩ := List.mem_map.mp mem
    obtain ⟨hrec, refund⟩ := List.mem_filter.mp hrec
    obtain ⟨c, hc⟩ := List.mem_iff_getElem?.mp hrec
    obtain ⟨_, -, returned⟩ := (Gathered.mapM_get told).2 c rec hc
    refine refund_task positioned named hc ?_ refund
    unfold CallRecord.returned at returned
    split at returned
    · next accepted => exact Option.isNone_iff_eq_none.mp accepted
    · cases returned
  rw [Proc.refundKeys, List.length_flatMap, List.sum_eq_card_nsmul _ 1 one, List.countP_map,
    List.countP_eq_length_filter]
  simp only [List.length_map, smul_eq_mul, mul_one]
  rfl

theorem refund_tool (c : Call) :
    c.isRefund = true ↔ (c.tool == some "issue_refund") = true := by
  cases c <;> simp [Call.isRefund, Call.tool]

/-- The agent reports the transcript of all its turns. -/
theorem ends_report {turns : List Turn} {report : Report}
    (ends : AgentEnds turns (.ok report)) :
    ∃ summary, report = agentReport summary (transcriptOf turns) := by
  cases ends with
  | final turns response =>
    refine ⟨response.text, ?_⟩
    simp [transcriptOf, Turn.entries]
  | limit => exact ⟨_, rfl⟩

/-! ## Their rows -/

/-- Steps with one token are one step. -/
theorem tokens_apart {world : World}
    (inj : Set.InjOn (cfg.uuid5 TOKEN_NAMESPACE) world.tokenNames) {p q c b : Nat}
    {proc other : Proc} {rec : CallRecord} {t : Task} {key : String}
    (hp : world.procs[p]? = some proc) (mem : key ∈ proc.keys) (hq : world.procs[q]? = some other)
    (at_ : other.At c b rec t)
    (same : stepToken cfg other.loc.runId t.key = stepToken cfg proc.loc.runId key) :
    other.loc.runId = proc.loc.runId ∧ t.key = key :=
  tokenName_inj (inj ⟨other, List.mem_of_getElem? hq, t.key, at_key_mem at_, rfl⟩
    ⟨proc, List.mem_of_getElem? hp, key, mem, rfl⟩ same)

/-- The refunds of a run are those of the steps that refund, in the attempt that has finished. -/
theorem refund_rows {flows : Flows} {run : RunRecord} {v : Value} {p : Nat} {proc : Proc}
    (h : Reaches (World.step cfg) (executing flows j) (.init now) w.world)
    (sound : w.Sound cfg Call.isRefund) (made : ∀ row ∈ w.effects.rows, w.world.Made cfg env row)
    (inj : Set.InjOn (cfg.uuid5 TOKEN_NAMESPACE) w.world.tokenNames)
    (hrun : w.world.store.getRun j = some run) (hp : w.world.procs[p]? = some proc)
    (mine : proc.loc.runId = j) (done : proc.Finished flows v) (token : Uuid) :
    token ∈ (w.effects.rows.filter fun row => row.runId = j ∧ row.kind = "refund").map (·.token) ↔
      token ∈ proc.refundKeys.map (stepToken cfg j) := by
  -- a step of the run is one of the attempt, under the same key
  have step_of : ∀ {q : Nat} {other : Proc} {c b : Nat} {rec : CallRecord} {t : Task},
      w.world.procs[q]? = some other → other.loc.runId = j → other.At c b rec t →
      ∃ rec₀ t₀, proc.At c b rec₀ t₀ ∧ rec₀.call = rec.call ∧ t₀.key = t.key := by
    intro q other c b rec t hq mine' at_
    obtain ⟨rec₀, hrec₀, call, keys⟩ := finished_calls h hp hq mine mine' done hrun at_.1
    have there := congrArg (·[b]?) keys
    simp only [List.getElem?_map, at_.2, Option.map_some] at there
    obtain ⟨t₀, ht₀, key⟩ := Option.map_eq_some_iff.mp there
    exact ⟨rec₀, t₀, ⟨hrec₀, ht₀⟩, call, key⟩
  constructor
  · intro mem
    obtain ⟨row, hrow, rfl⟩ := List.mem_map.mp mem
    obtain ⟨hrow, is⟩ := List.mem_filter.mp hrow
    obtain ⟨own, kind⟩ := of_decide_eq_true is
    obtain ⟨q, other, c, b, rec, t, name, arguments, hq, run', at_, token, call, does, -⟩ :=
      made row hrow
    rcases tool_records does with ⟨rfl, -⟩ | ⟨-, email⟩
    · obtain ⟨rec₀, t₀, at₀, same, key⟩ := step_of hq (run'.trans own) at_
      refine List.mem_map.mpr ⟨t₀.key, mem_refundKeys.mpr ⟨c, b, rec₀, t₀, at₀, ?_, rfl⟩, ?_⟩
      · rw [same, call]
        rfl
      · rw [key, token, own]
    · exact absurd (kind.symm.trans email) (by decide)
  · intro mem
    obtain ⟨key, hkey, rfl⟩ := List.mem_map.mp mem
    obtain ⟨c, b, rec, t, at_, refund, rfl⟩ := mem_refundKeys.mp hkey
    -- the calls of the run under this key refund
    have one : ∀ {q : Nat} {other : Proc} {c' b' : Nat} {rec' : CallRecord} {t' : Task},
        w.world.procs[q]? = some other → other.loc.runId = j → other.At c' b' rec' t' →
        t'.key = t.key → rec'.call = rec.call := by
      intro q other c' b' rec' t' hq mine' at' same
      obtain ⟨rec₀, t₀, at₀, call, key⟩ := step_of hq mine' at'
      obtain ⟨rfl, rfl⟩ := at_key_inj (shaped_reaches h hp).nodup at₀ at_ (key.trans same)
      obtain rfl := Option.some.inj (at₀.1.symm.trans at_.1)
      exact call.symm
    obtain ⟨told, -⟩ := finished_journal h hp mine done hrun
    obtain ⟨values, -, returned⟩ := (Gathered.mapM_get told).2 c rec at_.1
    obtain ⟨v, -, ends⟩ := returned_ending at_.2 returned
    obtain ⟨x, ⟨e, logged, same, by_, payload⟩, -⟩ :=
      returns_reaches h (fun _ _ ok => ok.1.1) p proc hp c b rec t at_ v ends
    obtain ⟨i, at_log⟩ := List.mem_iff_getElem?.mp logged
    rw [mine] at at_log
    obtain ⟨creation, -, there, token, -⟩ := sound.completed j t.key
      (fun q other c' b' rec' t' hq mine' at' same => one hq mine' at' same ▸ refund) i e at_log
      (by simp [Event.under, same, payload, Payload.isCompletion])
    obtain ⟨q, other, c', b', rec', t', name, arguments, hq, run', at', token', call, does, -⟩ :=
      made creation.row there
    rw [token, ← run', ← mine] at token'
    obtain ⟨own, key⟩ := tokens_apart inj hp (at_key_mem at_) hq at' token'.symm
    have is := one hq (own.trans mine) at' key
    refine List.mem_map.mpr ⟨creation.row, List.mem_filter.mpr ⟨there, ?_⟩, token⟩
    rcases tool_records does with ⟨-, kind, -⟩ | ⟨rfl, -⟩
    · simp [← run', own, mine, kind]
    · rw [← is, call] at refund
      cases refund

end RefundLemmas

/-- Exactly once, whatever crashes: when a run of the agent is completed, its refunds in the table
are as many as the calls of `issue_refund` in the transcript it returns. -/
theorem refunds_match_transcript {cfg : Config} {env : ToolEnv} {dumps dumpsStr : Value → String}
    {j : Uuid} {now : Int} {w : Joint} {run : RunRecord}
    (h : Reaches (Joint.step cfg) (refunding cfg env dumps dumpsStr j) (.init now) w)
    (inj : Set.InjOn (cfg.uuid5 TOKEN_NAMESPACE) w.world.tokenNames)
    (hrun : w.world.store.getRun j = some run) (agent : run.workflow = "refund_agent")
    (completed : run.status = .completed) :
    ∃ summary transcript executed replayed,
      run.result = agentReport summary transcript executed replayed ∧
      w.countSideEffects j "refund" = (transcript.map (·.1)).count "issue_refund" := by
  have base := base_reaches h fun _ action ok => ok.2 action rfl
  have row : w.world.store.standing j = some (run.status, run.result, run.error) := by
    rw [Store.standing, hrun]
    rfl
  have answers := answers_reaches base _ _ _ row
  rw [if_pos completed] at answers
  obtain ⟨p, proc, hp, mine, done⟩ := answers
  obtain ⟨told, report, fed, executed, replayed, result⟩ := finished_journal base hp mine done hrun
  have asked := finished_asked base hp mine done hrun
  have flow : agentFlows dumps dumpsStr run.workflow run.input =
      agentFlow (refundAgent dumps dumpsStr run.input) := if_pos agent
  rw [flow] at fed asked
  have conducted : Obeys (dialogue dumps dumpsStr run.input) []
      (refundAgent dumps dumpsStr run.input) AgentEnds := agentTurns_obeys (by simp) (by rfl)
  obtain ⟨turns, -, ends, names⟩ := flow_heard conducted fed
  have rows : w.countSideEffects j "refund" = proc.refundKeys.length := by
    have perm := (List.perm_ext_iff_of_nodup
      (List.Nodup.sublist (List.filter_sublist.map _) w.effects.unique)
      (List.Nodup.map_on (fun key mem other mem' same => ?_)
        ((refundKeys_sublist proc).nodup (shaped_reaches base hp).nodup))).mpr
      (refund_rows base (tools_sound h fun _ _ ok => ok.1)
        (made_reaches h fun _ _ ok => ok.1) inj hrun hp mine done)
    · simpa [Joint.countSideEffects] using perm.length_eq
    · obtain ⟨c, b, rec, t, at_, -, rfl⟩ := mem_refundKeys.mp mem
      exact (tokens_apart inj hp ((refundKeys_sublist proc).subset mem') hp at_
        (by rwa [mine])).2
  have calls : proc.refundKeys.length =
      ((transcriptOf turns).map (·.1)).count "issue_refund" := by
    rw [refundKeys_length (positioned_reaches base hp) (names_kept.reaches base p proc hp) told,
      names, asked, List.count_append, List.count_filterMap, show transcriptOf [] = [] from rfl,
      List.map_nil, List.count_nil, Nat.zero_add]
    exact List.countP_congr fun c _ => refund_tool c
  obtain ⟨summary, is⟩ := ends_report ends
  exact ⟨summary, transcriptOf turns, executed, replayed, is ▸ result, rows.trans calls⟩

namespace Sample

/-- The tokens of the steps of the agent. -/
def refundUuid5 (_ : Uuid) (name : String) : Uuid :=
  if name = s!"{runId.str}:model#1" then ⟨0x44406ee915cf5d2fb77cbcf5224d712a⟩
  else if name = s!"{runId.str}:tool:issue_refund#1" then ⟨0x9861d5cba4bb55f9bf88cac9ff751f6b⟩
  else ⟨0x39d4e5aca9015f3b93431505d4dfdd4a⟩

def refundCfg : Config :=
  { cfg with
    workflows := ["refund_agent"]
    tools := [⟨"issue_refund", .atMostOnce, true⟩]
    uuid5 := refundUuid5 }

def toolEnv : ToolEnv := ⟨noText, noText, fun _ => "", 0⟩

def refundArguments : Value :=
  .dict [(.str "payment_id", .str "pay_001"), (.str "amount_cents", .int 4999)]

def asksRefund : ModelResponse :=
  ⟨"", [⟨"call_0", "issue_refund", refundArguments⟩], "tool_use", 10, 5, 0, "echo"⟩

/-- The row of the refund, and what the verifier makes of it. -/
def landed : SideEffect :=
  ⟨stepToken refundCfg runId "tool:issue_refund#1", runId, "refund", refundArguments, 0⟩

def landedDict : Value := landed.toDict toolEnv

def asksFor (p : Nat) (c : Call) : Action := .call p none .workflow c

/-- The worker is killed when the refund has landed downstream. -/
def killed : List JointAction :=
  alone ([.submit runId "refund_agent" .none "request" ⟨none, none, none, none, none⟩,
      .claim "a" []] ++ proceed 0 7 ++ [asksFor 0 (.model "model")] ++ advance 0 0 7 ++
    [.task 0 0 0 (.response asksRefund)] ++ advance 0 0 7 ++
    [asksFor 0 (.callTool "issue_refund" refundArguments)] ++ advance 0 1 8) ++
  [.effect 0 1 0 "refund" refundArguments]

/-- The next one replays the first model call and learns of the refund from the verifier. -/
def recovers : List JointAction :=
  alone ([.stop 0, .tick 31000000, .claim "b" []] ++ proceed 1 8 ++
    [asksFor 1 (.model "model")] ++ advance 1 0 2 ++
    [asksFor 1 (.callTool "issue_refund" refundArguments)] ++ advance 1 1 6) ++
  [.lookUp 1 1 0] ++
  alone ([.task 1 1 0 (.value landedDict)] ++ advance 1 1 2 ++
    [asksFor 1 (.model "model")] ++ advance 1 2 7 ++
    [.task 1 2 0 (.response saysDone)] ++ advance 1 2 7 ++
    [.main 1 (.value (agentReport "done" [("issue_refund", landedDict)] 1 1))] ++ proceed 1 7)

/-- The only step of a tool is the refund: its body records it, its verifier has found it. -/
def asTools (w : Joint) : JointAction → Bool
  | .effect p c b kind payload => w.world.procs[p]?.all fun proc => proc.calls[c]?.all fun rec =>
      rec.tasks[b]?.all fun _ =>
        rec.call = .callTool "issue_refund" refundArguments &&
          kind = "refund" && payload = refundArguments
  | .base (.task p c b (.value v)) => w.world.procs[p]?.all fun proc =>
      proc.calls[c]?.all fun rec => rec.tasks[b]?.all fun t =>
        rec.call = .callTool "issue_refund" refundArguments &&
          match t.stage with
          | .running _ => false
          | _ => w.lookups.contains (p, t.key, true) && v = landedDict
  | .foreign _ _ _ _ => false
  | _ => true

def inRefund (w : Joint) (a : JointAction) : Prop :=
  asTools w a = true ∧
    ∀ action, a = .base action → oneAfterAnother w.world action ∧ asAgent 1 1 w.world action = true

instance (w : Joint) (a : JointAction) : Decidable (inRefund w a) :=
  match a with
  | .base action => decidable_of_iff
      (asTools w (.base action) = true ∧ oneAfterAnother w.world action ∧
        asAgent 1 1 w.world action = true)
      ⟨fun h => ⟨h.1, fun _ same => JointAction.base.inj same ▸ h.2⟩,
        fun h => ⟨h.1, h.2 action rfl⟩⟩
  | .effect _ _ _ _ _ | .lookUp _ _ _ | .foreign _ _ _ _ => decidable_of_iff (asTools w _ = true)
      ⟨fun h => ⟨h, fun _ same => JointAction.noConfusion same⟩, fun h => h.1⟩

/-- No two names in use have one token. -/
def apart (w : World) : Bool :=
  let names := w.procs.flatMap fun proc => proc.keys.map (tokenName proc.loc.runId)
  names.all fun name => names.all fun name' =>
    refundUuid5 TOKEN_NAMESPACE name ≠ refundUuid5 TOKEN_NAMESPACE name' || name = name'

end Sample

theorem asTools_tools {w : Joint} {a : JointAction} (ok : Sample.asTools w a = true) :
    actAsTools Sample.refundCfg Sample.toolEnv w a := by
  cases a with
  | base action =>
    cases action with
    | task p c b ans =>
      cases ans with
      | value v =>
        intro proc hp rec hrec t ht name arguments call
        have hp : w.world.procs[p]? = some proc := hp
        have hrec : proc.calls[c]? = some rec := hrec
        have ht : rec.tasks[b]? = some t := ht
        simp only [Sample.asTools, hp, hrec, ht, Option.all_some, Bool.and_eq_true,
          decide_eq_true_eq] at ok
        obtain ⟨only, ok⟩ := ok
        rw [only] at call
        cases call
        constructor
        · intro n stage
          rw [stage] at ok
          cases ok
        · intro stage
          rw [stage] at ok
          obtain ⟨looked, is⟩ := (Bool.and_eq_true _ _).mp ok
          rw [of_decide_eq_true is]
          exact ⟨true, looked, some Sample.landed, rfl, rfl⟩
      | _ => trivial
    | _ => trivial
  | effect p c b kind payload =>
    intro proc hp rec hrec t ht
    have hp : w.world.procs[p]? = some proc := hp
    have hrec : proc.calls[c]? = some rec := hrec
    have ht : rec.tasks[b]? = some t := ht
    simp only [Sample.asTools, hp, hrec, ht, Option.all_some, Bool.and_eq_true,
      decide_eq_true_eq] at ok
    obtain ⟨⟨only, rfl⟩, rfl⟩ := ok
    exact ⟨_, _, only, rfl⟩
  | lookUp => trivial
  | «foreign» => cases ok

theorem inRefund_refunding {w : Joint} {a : JointAction} (ok : Sample.inRefund w a) :
    refunding Sample.refundCfg Sample.toolEnv Sample.noText Sample.noText Sample.runId w a :=
  ⟨asTools_tools ok.1, fun action is => asAgent_executing (ok.2 action is).1 (ok.2 action is).2⟩

theorem apart_injOn {w : World} (h : Sample.apart w = true) :
    Set.InjOn (Sample.refundCfg.uuid5 TOKEN_NAMESPACE) w.tokenNames := by
  have listed : ∀ name ∈ w.tokenNames,
      name ∈ w.procs.flatMap fun proc => proc.keys.map (tokenName proc.loc.runId) := by
    rintro _ ⟨proc, hp, key, hkey, rfl⟩
    exact List.mem_flatMap.mpr ⟨proc, hp, List.mem_map_of_mem hkey⟩
  intro name mem name' mem' same
  have differ := List.all_eq_true.mp (List.all_eq_true.mp h name (listed name mem)) name'
    (listed name' mem')
  rcases (Bool.or_eq_true _ _).mp differ with apart | is
  · exact absurd same (of_decide_eq_true apart)
  · exact of_decide_eq_true is

theorem refunds_accounted_killed : ∃ w : Joint,
    w.effects.rows.length = 1 ∧
    (∀ row ∈ w.effects.rows, row.kind = "refund" → w.world.Refunds Sample.refundCfg row) ∧
      (w.effects.rows.map (·.token)).Nodup := by
  obtain ⟨w, ran, one⟩ := run_exists (Joint.step Sample.refundCfg) Sample.inRefund (.init 0)
    Sample.killed (fun w => w.effects.rows.length = 1) (by decide +kernel)
  exact ⟨w, one, refunds_accounted ((run_reaches ran).weaken fun _ _ ok => asTools_tools ok.1)⟩

theorem refunds_match_transcript_killed : ∃ (w : Joint) (run : RunRecord),
    w.world.store.getRun Sample.runId = some run ∧ run.status = .completed ∧
    w.world.procs.length = 2 ∧
    ∃ summary transcript executed replayed,
      run.result = agentReport summary transcript executed replayed ∧
      w.countSideEffects Sample.runId "refund" =
        (transcript.map (·.1)).count "issue_refund" := by
  obtain ⟨w, ran, ended, two, apart⟩ := run_exists (Joint.step Sample.refundCfg) Sample.inRefund
    (.init 0) (Sample.killed ++ Sample.recovers) (fun w =>
      (w.world.store.getRun Sample.runId).map (fun run => (run.status, run.workflow)) =
        some (.completed, "refund_agent") ∧ w.world.procs.length = 2 ∧
      Sample.apart w.world = true) (by decide +kernel)
  obtain ⟨run, hrun, same⟩ := Option.map_eq_some_iff.mp ended
  obtain ⟨completed, agent⟩ := Prod.mk.inj same
  exact ⟨w, run, hrun, completed, two, refunds_match_transcript
    ((run_reaches ran).weaken fun _ _ ok => inRefund_refunding ok) (apart_injOn apart) hrun agent
    completed⟩

end AnchorRuntime
