import AnchorRuntime.Store
import AnchorRuntime.Lib.Machine

/-!
# The DynamoDB store

The items of the table and the coroutines of `store/dynamo.py` on them. A call of boto3 is
one atomic step; between two calls of a coroutine anything may happen to the table, and the
coroutine may never go on. `AppendCall.step` and `SubmitCall.step` are the coroutines, one
table call at a time, and `DynamoWorld` is any number of them side by side.

Results: `decoded_iff`, what comes back from the table as it went in; `eventSk_lt`, the sort
keys of events are in the order of their numbers.
-/

namespace AnchorRuntime

/-! ## Values in the table -/

/-- Attribute values, as boto3 serialises what `_enc` has made of a value. `decimal q` is
`Decimal(str(value))` of the float `q`, which `float` reads as `q` again. -/
inductive Attr
  | null
  | bool (b : Bool)
  | int (n : Int)
  | decimal (q : Rat)
  | str (s : String)
  | list (items : List Attr)
  | map (entries : List (String × Attr))

/-- `int(float(n))`: a double has 53 significant bits, ties go to even. -/
def toDouble (n : Int) : Int :=
  let low := 2 ^ (n.natAbs.log2 + 1 - 53)
  let high := n.natAbs / low
  let rest := n.natAbs % low
  let rounded := if low < 2 * rest || (low = 2 * rest && high % 2 = 1) then high + 1 else high
  n.sign * (rounded * low : Nat)

/-- The numbers of the table: 38 digits, and magnitudes from 1E-130 to below 1E126. -/
def tableInt (n : Int) : Bool := n.natAbs < 10 ^ 38

def tableDecimal (q : Rat) : Bool := q = 0 || (1 / 10 ^ 130 ≤ |q| && |q| < 10 ^ 126)

mutual
/-- `_enc` and the serialiser of boto3, which raises on what the table cannot hold; its strings
are UTF-8. `_enc` does not look into tuples: boto3 takes them for lists, and raises on a float in
them. -/
def enc (reached : Bool) : Value → Option Attr
  | .none => some .null
  | .bool b => some (.bool b)
  | .int n => if tableInt n then some (.int n) else none
  | .float q => if reached && tableDecimal q then some (.decimal q) else none
  | .nonFinite _ | .object _ => none
  | .str s => if utf8 s then some (.str s) else none
  | .list items => (encItems reached items).map .list
  | .tuple items => (encItems false items).map .list
  | .dict entries => (encEntries reached entries).map .map

def encItems (reached : Bool) : List Value → Option (List Attr)
  | [] => some []
  | v :: vs => do return (← enc reached v) :: (← encItems reached vs)

def encEntries (reached : Bool) : List (Value × Value) → Option (List (String × Attr))
  | [] => some []
  | (.str k, v) :: es =>
    if utf8 k then do return (k, ← enc reached v) :: (← encEntries reached es) else none
  | _ :: _ => none
end

theorem enc_str {reached : Bool} {s : String} {a : Attr} (h : enc reached (.str s) = some a) :
    a = .str s := by
  unfold enc at h
  split at h <;> cases h
  rfl

theorem encEntries_cons {reached : Bool} {k : String} {v : Value} {es : List (Value × Value)}
    {as : List (String × Attr)} (h : encEntries reached ((.str k, v) :: es) = some as) :
    ∃ a as', enc reached v = some a ∧ encEntries reached es = some as' ∧ as = (k, a) :: as' := by
  unfold encEntries at h
  split at h
  · obtain ⟨a, ha, h⟩ := Option.bind_eq_some_iff.mp h
    obtain ⟨as', has, h⟩ := Option.bind_eq_some_iff.mp h
    cases h
    exact ⟨a, as', ha, has, rfl⟩
  · cases h

mutual
/-- `_dec` of what boto3 reads: every number goes through `float`. -/
def dec : Attr → Value
  | .null => .none
  | .bool b => .bool b
  | .int n => .int (toDouble n)
  | .decimal q => if q.den = 1 then .int q.num else .float q
  | .str s => .str s
  | .list items => .list (decItems items)
  | .map entries => .dict (decEntries entries)

def decItems : List Attr → List Value
  | [] => []
  | a :: as => dec a :: decItems as

def decEntries : List (String × Attr) → List (Value × Value)
  | [] => []
  | (k, a) :: es => (.str k, dec a) :: decEntries es
end

mutual
/-- The same value with its integral floats as ints: two values with the same `norm` are
equal in Python. -/
def Value.norm : Value → Value
  | .float q => if q.den = 1 then .int q.num else .float q
  | .list items => .list (normItems items)
  | .tuple items => .tuple (normItems items)
  | .dict entries => .dict (normEntries entries)
  | v => v

def Value.normItems : List Value → List Value
  | [] => []
  | v :: vs => v.norm :: normItems vs

def Value.normEntries : List (Value × Value) → List (Value × Value)
  | [] => []
  | (k, v) :: es => (k, v.norm) :: normEntries es
end

mutual
/-- The value has no tuple in it, and no int that a double does not represent. -/
def Value.keeps : Value → Bool
  | .int n => toDouble n = n
  | .tuple _ => false
  | .list items => keepsItems items
  | .dict entries => keepsEntries entries
  | _ => true

def Value.keepsItems : List Value → Bool
  | [] => true
  | v :: vs => v.keeps && keepsItems vs

def Value.keepsEntries : List (Value × Value) → Bool
  | [] => true
  | (_, v) :: es => v.keeps && keepsEntries es
end

mutual
/-- What comes back from the table as it went in, up to Python's `1 == 1.0`. -/
theorem decoded_iff {reached : Bool} {a : Attr} :
    ∀ v : Value, enc reached v = some a → ((dec a).norm = v.norm ↔ v.keeps = true)
  | .none, h | .bool _, h => by
    cases h
    simp [dec, Value.norm, Value.keeps]
  | .str _, h => by
    rw [enc_str h]
    simp [dec, Value.norm, Value.keeps]
  | .int n, h => by
    simp only [enc] at h
    split at h <;> cases h
    simp [dec, Value.norm, Value.keeps]
  | .float q, h => by
    simp only [enc] at h
    split at h <;> cases h
    simp only [dec, Value.norm, Value.keeps, iff_true]
    split
    · rfl
    · next frac => simp [Value.norm, frac]
  | .nonFinite _, h | .object _, h => by cases h
  | .list items, h => by
    simp only [enc, Option.map_eq_some_iff] at h
    obtain ⟨as, has, rfl⟩ := h
    simpa only [dec, Value.norm, Value.keeps, Value.list.injEq] using decodedItems_iff items has
  | .tuple items, h => by
    simp only [enc, Option.map_eq_some_iff] at h
    obtain ⟨as, has, rfl⟩ := h
    simp [dec, Value.norm, Value.keeps]
  | .dict entries, h => by
    simp only [enc, Option.map_eq_some_iff] at h
    obtain ⟨as, has, rfl⟩ := h
    simpa only [dec, Value.norm, Value.keeps, Value.dict.injEq] using decodedEntries_iff entries has

theorem decodedItems_iff {reached : Bool} {as : List Attr} : ∀ vs : List Value,
    encItems reached vs = some as →
      (Value.normItems (decItems as) = Value.normItems vs ↔ Value.keepsItems vs = true)
  | [], h => by
    cases h
    simp [decItems, Value.normItems, Value.keepsItems]
  | v :: vs, h => by
    simp only [encItems, Option.pure_def, Option.bind_eq_bind, Option.bind_eq_some_iff,
      Option.some.injEq] at h
    obtain ⟨a, ha, as', has, rfl⟩ := h
    simp only [decItems, Value.normItems, Value.keepsItems, List.cons.injEq, Bool.and_eq_true,
      decoded_iff v ha, decodedItems_iff vs has]

theorem decodedEntries_iff {reached : Bool} {as : List (String × Attr)} :
    ∀ es : List (Value × Value), encEntries reached es = some as →
      (Value.normEntries (decEntries as) = Value.normEntries es ↔ Value.keepsEntries es = true)
  | [], h => by
    cases h
    simp [decEntries, Value.normEntries, Value.keepsEntries]
  | (k, v) :: es, h => by
    cases k with
    | str k =>
      obtain ⟨a, as', ha, has, rfl⟩ := encEntries_cons h
      simp only [decEntries, Value.normEntries, Value.keepsEntries, List.cons.injEq,
        Prod.mk.injEq, true_and, Bool.and_eq_true, decoded_iff v ha, decodedEntries_iff es has]
    | _ => simp [encEntries] at h
end

/-! ## The table -/

/-- `f"EVENT#{seq:020d}"` -/
def eventSk (seq : Nat) : List Char :=
  let digits := Nat.toDigits 10 seq
  "EVENT#".toList ++ (List.replicate (20 - digits.length) '0' ++ digits)

/-- An EVENT item. -/
structure EventItem where
  seq : Nat
  type : String
  stepKey : Option String
  payload : Attr
  createdAt : Int

def EventItem.sk (e : EventItem) : List Char := eventSk e.seq

/-- The items of the table: IDEMPOTENCY items by key, META, COUNTER and EVENT items by run,
the events in the order of their sort keys. Of META the columns are kept as `_dec` reads
them. -/
structure DynamoTable where
  idem : String → Option Uuid
  runs : Uuid → Option RunRecord
  counter : Uuid → Option Nat
  events : Uuid → List EventItem

def DynamoTable.empty : DynamoTable := ⟨fun _ => none, fun _ => none, fun _ => none, fun _ => []⟩

/-- `put_item` among the items of a partition: an item of the same sort key is replaced. -/
def putEvent (e : EventItem) : List EventItem → List EventItem
  | [] => [e]
  | x :: xs =>
    if e.sk = x.sk then e :: xs
    else if e.sk < x.sk then e :: x :: xs
    else x :: putEvent e xs

/-- A table call that the service refuses. -/
def validationError : Exn := .exception "ClientError" "ValidationException"

/-- Which items the service takes: they have at most 400 KB, and their texts are UTF-8. -/
structure Limits where
  event : EventItem → Bool
  run : RunRecord → Bool

/-- A value that boto3 does not serialise. -/
def serializeError : Exn := .exception "TypeError" "unsupported type or number for an attribute"

/-! ## `append_event` -/

/-- The arguments of `append_event`; a payload that is missing is the empty dict. -/
structure AppendCall where
  runId : Uuid
  type : String
  stepKey : Option String
  payload : Value

/-- How far an `append_event` has got. -/
inductive AppendAt
  | start
  | allocated (seq : Nat)
  | mirrored (seq : Nat)
  | returned (seq : Nat)
  | raised (exc : Exn)

/-- The item of an event, where boto3 serialises it. -/
def AppendCall.item (c : AppendCall) (now : Int) (seq : Nat) : Option EventItem :=
  (enc true c.payload).map fun payload => ⟨seq, c.type, c.stepKey, payload, now⟩

/-- The next table call of `append_event`. -/
def AppendCall.step (limits : Limits) (c : AppendCall) (now : Int) (t : DynamoTable) :
    AppendAt → Option (DynamoTable × AppendAt)
  -- claim the next number; the update fails where COUNTER is missing
  | .start =>
    match t.counter c.runId with
    | none => some (t, .raised validationError)
    | some n =>
      some ({ t with counter := Function.update t.counter c.runId (some (n + 1)) },
        .allocated (n + 1))
  -- mirror it onto META, which is there whenever COUNTER is
  | .allocated seq =>
    some ({ t with
      runs := Function.update t.runs c.runId
        ((t.runs c.runId).map fun run => { run with eventSeq := seq, updatedAt := now }) },
      .mirrored seq)
  -- the item is serialised before it is put
  | .mirrored seq =>
    match c.item now seq with
    | none => some (t, .raised serializeError)
    | some item =>
      if limits.event item then
        some ({ t with
          events := Function.update t.events c.runId (putEvent item (t.events c.runId)) },
          .returned seq)
      else some (t, .raised validationError)
  | .returned _ | .raised _ => none

/-- The number an append has taken and has not put its item under. -/
def AppendAt.pending : AppendAt → Option Nat
  | .allocated seq | .mirrored seq => some seq
  | _ => none

/-! ## `submit_run` -/

/-- `Budget.to_dict` -/
def Budget.toDict (b : Budget) : Value :=
  .dict ([("max_tokens", b.maxTokens.map Value.int), ("max_tool_calls", b.maxToolCalls.map .int),
    ("max_model_calls", b.maxModelCalls.map .int),
    ("max_wall_seconds", b.maxWallSeconds.map .float),
    ("max_cost_usd", b.maxCostUsd.map .float)].filterMap fun e =>
      e.2.map fun v => (.str e.1, v))

/-- The arguments of `submit_run`, with the run id `uuid4` drew. -/
structure SubmitCall where
  runId : Uuid
  workflow : String
  payload : Value
  idempotencyKey : String
  budget : Budget

/-- The RunStarted event of a submission. The budget goes into its payload as `to_dict`
writes it. -/
def SubmitCall.started (c : SubmitCall) : AppendCall where
  runId := c.runId
  type := "RunStarted"
  stepKey := none
  payload := .dict [(.str "workflow", .str c.workflow), (.str "input", c.payload),
    (.str "budget", c.budget.toDict)]

/-- `Budget.from_dict` of what `_dec` reads of `to_dict`. -/
def Budget.dec (b : Budget) : Budget :=
  { b with
    maxTokens := b.maxTokens.map toDouble
    maxToolCalls := b.maxToolCalls.map toDouble
    maxModelCalls := b.maxModelCalls.map toDouble }

/-- META of a new run as `_dec` reads it, where boto3 serialises it. -/
def SubmitCall.row (c : SubmitCall) (now : Int) : Option RunRecord := do
  let payload ← enc true c.payload
  let _ ← enc true c.budget.toDict
  let _ ← enc true (.str c.workflow)
  return Store.newRun now c.runId c.workflow (dec payload) c.idempotencyKey c.budget.dec

/-- How far a `submit_run` has got. -/
inductive SubmitAt
  | start
  -- the key is taken: whose run it names
  | taken
  | found (owner : Uuid)
  -- the key is ours: META, COUNTER, the message and RunStarted are written in turn
  | reserved
  | described (run : RunRecord)
  | counted (run : RunRecord)
  | starting (run : RunRecord) (a : AppendAt)
  | returned (run : Option RunRecord) (created : Bool)
  | raised (exc : Exn)

/-- Where the end of the last append leads. -/
def SubmitAt.started (run : RunRecord) : AppendAt → SubmitAt
  | .returned _ => .returned (some run) true
  | .raised exc => .raised exc
  | a => .starting run a

/-- The next table or queue call of `submit_run`; the queue is a list of the run ids in its
messages. -/
def SubmitCall.step (limits : Limits) (c : SubmitCall) (now : Int) (t : DynamoTable)
    (queue : List Uuid) : SubmitAt → Option (DynamoTable × List Uuid × SubmitAt)
  -- `attribute_not_exists(pk)`
  | .start =>
    match t.idem c.idempotencyKey with
    | none =>
      some ({ t with idem := Function.update t.idem c.idempotencyKey (some c.runId) }, queue,
        .reserved)
    | some _ => some (t, queue, .taken)
  | .taken =>
    match t.idem c.idempotencyKey with
    | none => some (t, queue, .raised (.exception "KeyError" "'Item'"))
    | some owner => some (t, queue, .found owner)
  | .found owner => some (t, queue, .returned (t.runs owner) false)
  | .reserved =>
    match c.row now with
    | none => some (t, queue, .raised serializeError)
    | some row =>
      if limits.run row then
        some ({ t with runs := Function.update t.runs c.runId (some row) }, queue,
          .described { row with input := c.payload.norm, budget := c.budget })
      else some (t, queue, .raised validationError)
  | .described run =>
    some ({ t with counter := Function.update t.counter c.runId (some 0) }, queue, .counted run)
  | .counted run => some (t, queue ++ [c.runId], .starting run .start)
  -- the run is returned as it was put, not as it is now
  | .starting run a =>
    (c.started.step limits now t a).map fun (t, a) => (t, queue, .started run a)
  | .returned _ _ | .raised _ => none

/-! ## Calls side by side -/

inductive DynamoCall
  | append (c : AppendCall) (at_ : AppendAt)
  | submit (c : SubmitCall) (at_ : SubmitAt)

namespace DynamoCall

/-- The append that the call is in, if it is in one. -/
def appending : DynamoCall → Option (AppendCall × AppendAt)
  | .append c a => some (c, a)
  | .submit c (.starting _ a) => some (c.started, a)
  | .submit _ _ => none

/-- The run id a submission drew. -/
def drew : DynamoCall → Option Uuid
  | .append _ _ => none
  | .submit c _ => some c.runId

end DynamoCall

structure DynamoWorld where
  now : Int
  table : DynamoTable
  queue : List Uuid
  calls : List DynamoCall
  -- the numbers of the calls whose process has crashed
  crashed : List Nat

def DynamoWorld.init (now : Int) : DynamoWorld := ⟨now, .empty, [], [], []⟩

inductive DynamoAction
  | append (c : AppendCall)
  | submit (c : SubmitCall)
  -- call `i` makes its next table call
  | go (i : Nat)
  | crash (i : Nat)
  | tick (elapsed : Nat)

/-- One action. `uuid4` draws no id twice; a call that has crashed does nothing. -/
def DynamoWorld.step (limits : Limits) (w : DynamoWorld) : DynamoAction → Option DynamoWorld
  | .append c => some { w with calls := w.calls ++ [.append c .start] }
  | .submit c =>
    if w.calls.all fun call => call.drew ≠ some c.runId then
      some { w with calls := w.calls ++ [.submit c .start] }
    else none
  | .go i =>
    if w.crashed.contains i then none
    else
      match w.calls[i]? with
      | none => none
      | some (.append c a) =>
        (c.step limits w.now w.table a).map fun (table, a) =>
          { w with table, calls := w.calls.set i (.append c a) }
      | some (.submit c a) =>
        (c.step limits w.now w.table w.queue a).map fun (table, queue, a) =>
          { w with table, queue, calls := w.calls.set i (.submit c a) }
  | .crash i => some { w with crashed := i :: w.crashed }
  | .tick elapsed => some { w with now := w.now + elapsed }

end AnchorRuntime
