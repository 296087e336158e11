import AnchorRuntime.Context
import AnchorRuntime.Lib.Assoc
import AnchorRuntime.Lib.Utf16

/-!
# Step results in the log

The attempt that executes a step hands its result to the workflow as the body returned it; a later
attempt hands on what `json.loads` has made of the text that `json.dumps` wrote for it. `PyValue`
is a Python value with all that the two functions and `==` tell apart: strings are code points,
dicts have any keys, and NaN is equal to nothing.

Results: `replayed_equal`, the two values are equal if and only if the result has no tuple in it, no
key other than a string, no NaN, and no string with a high surrogate directly before a low one;
`tuple_replayed`, a tuple comes back as a list; `jsonable_py`, what the steps accept is what
`json.dumps` accepts.
-/

namespace AnchorRuntime

open Utf16

/-! ## Values -/

/-- A Python value. `object` is one that `json.dumps` does not know, by its identity. -/
inductive PyValue
  | none
  | bool (b : Bool)
  | int (n : Int)
  | float (q : Rat)
  | nan
  | inf (negative : Bool)
  | str (s : PyStr)
  | list (items : List PyValue)
  | tuple (items : List PyValue)
  | dict (entries : List (PyValue × PyValue))
  | object (id : Nat)

namespace PyValue

/-- Numbers are compared by value, whatever their types. -/
def number : PyValue → Option Rat
  | .bool b => some (if b then 1 else 0)
  | .int n => some n
  | .float q => some q
  | _ => Option.none

mutual
/-- `v == w` -/
def eq : PyValue → PyValue → Bool
  | .none, .none => true
  | .inf m, .inf n => m = n
  | .str s, .str t => s = t
  | .list vs, .list ws => eqItems vs ws
  | .tuple vs, .tuple ws => eqItems vs ws
  | .dict es, .dict fs => es.length = fs.length && eqEntries es fs
  | .object i, .object j => i = j
  | v, w => match v.number, w.number with
    | some p, some q => p = q
    | _, _ => false

def eqItems : List PyValue → List PyValue → Bool
  | [], [] => true
  | v :: vs, w :: ws => eq v w && eqItems vs ws
  | _, _ => false

/-- Each entry has an equal one in the other dict. -/
def eqEntries : List (PyValue × PyValue) → List (PyValue × PyValue) → Bool
  | [], _ => true
  | (k, v) :: es, fs => ((fs.find? fun f => eq k f.1).any fun f => eq v f.2) && eqEntries es fs
end

mutual
/-- The keys of a dict are distinct. -/
def proper : PyValue → Bool
  | .list items | .tuple items => properItems items
  | .dict entries => properEntries entries
  | _ => true

def properItems : List PyValue → Bool
  | [] => true
  | v :: vs => v.proper && properItems vs

def properEntries : List (PyValue × PyValue) → Bool
  | [] => true
  | (k, v) :: es => es.all (fun e => !eq k e.1) && k.proper && v.proper && properEntries es
end

/-- `value.get(key)` on a dict. -/
def get? (value : PyValue) (key : PyStr) : Option PyValue :=
  match value with
  | .dict entries => (entries.find? fun e => eq (.str key) e.1).map (·.2)
  | _ => Option.none

end PyValue

/-! ## JSON texts -/

/-- What a JSON text says: literals by their value, strings by the units that are written or
escaped in them, the members of an object as they stand. -/
inductive Json
  | null
  | bool (b : Bool)
  | int (n : Int)
  | float (q : Rat)
  | nan
  | inf (negative : Bool)
  | str (units : List CodeUnit)
  | array (items : List Json)
  | object (members : List (List CodeUnit × Json))

section

-- `float.__repr__`
variable (floatRepr : Rat → String)

/-- The text of a dict key; `json.dumps` raises for other keys. -/
def keyText : PyValue → Option PyStr
  | .str s => some s
  | .none => some (pyStr "null")
  | .bool b => some (pyStr (if b then "true" else "false"))
  | .int n => if Value.intText n then some (pyStr (toString n)) else none
  | .float q => some (pyStr (floatRepr q))
  | .nan => some (pyStr "NaN")
  | .inf negative => some (pyStr (if negative then "-Infinity" else "Infinity"))
  | .list _ | .tuple _ | .dict _ | .object _ => none

mutual
/-- `json.dumps`; none where it raises. -/
def dumps : PyValue → Option Json
  | .none => some .null
  | .bool b => some (.bool b)
  | .int n => if Value.intText n then some (.int n) else none
  | .float q => some (.float q)
  | .nan => some .nan
  | .inf negative => some (.inf negative)
  | .str s => some (.str (encode s))
  | .list items | .tuple items => (dumpsItems items).map .array
  | .dict entries => (dumpsEntries entries).map .object
  | .object _ => none

def dumpsItems : List PyValue → Option (List Json)
  | [] => some []
  | v :: vs => do return (← dumps v) :: (← dumpsItems vs)

def dumpsEntries : List (PyValue × PyValue) → Option (List (List CodeUnit × Json))
  | [] => some []
  | (k, v) :: es => do return (encode (← keyText floatRepr k), ← dumps v) :: (← dumpsEntries es)
end

end

mutual
/-- `json.loads`; of two members with the same name the last one counts. -/
def loads : Json → PyValue
  | .null => .none
  | .bool b => .bool b
  | .int n => .int n
  | .float q => .float q
  | .nan => .nan
  | .inf negative => .inf negative
  | .str units => .str (decode units)
  | .array items => .list (loadsItems items)
  | .object members => .dict ((Assoc.ofPairs (loadsMembers members)).map fun e => (.str e.1, e.2))

def loadsItems : List Json → List PyValue
  | [] => []
  | j :: js => loads j :: loadsItems js

def loadsMembers : List (List CodeUnit × Json) → List (PyStr × PyValue)
  | [] => []
  | (k, j) :: ms => (decode k, loads j) :: loadsMembers ms
end

/-! ## Results of steps -/

/-- The payload of a StepCompleted event. -/
def completedPayload (result : PyValue) (attempt : Nat) : PyValue :=
  .dict [(.str (pyStr "result"), result), (.str (pyStr "attempt"), .int attempt)]

/-- What the attempt returns that executed the step: the result itself, once `_ensure_json` has let
it pass and its event is written. -/
def executedResult (floatRepr : Rat → String) (result : PyValue) (attempt : Nat) : Option PyValue :=
  (dumps floatRepr (completedPayload result attempt)).map fun _ => result

/-- What a later attempt returns: `event.payload.get("result")`, of the payload as it is read from
the log. -/
def replayedResult (floatRepr : Rat → String) (result : PyValue) (attempt : Nat) : Option PyValue :=
  (dumps floatRepr (completedPayload result attempt)).bind fun text =>
    (loads text).get? (pyStr "result")

namespace PyValue

/-- A key that is read as it was written. -/
def plainKey : PyValue → Bool
  | .str s => unpaired s
  | _ => false

mutual
/-- No tuple, no key other than a string, no NaN, and no string with a high surrogate directly
before a low one. -/
def plain : PyValue → Bool
  | .nan | .tuple _ | .object _ => false
  | .str s => unpaired s
  | .list items => plainItems items
  | .dict entries => plainEntries entries
  | _ => true

def plainItems : List PyValue → Bool
  | [] => true
  | v :: vs => v.plain && plainItems vs

def plainEntries : List (PyValue × PyValue) → Bool
  | [] => true
  | (k, v) :: es => k.plainKey && v.plain && plainEntries es
end

end PyValue

namespace JsonLemmas

open PyValue

variable {floatRepr : Rat → String} {es fs : List (PyValue × PyValue)} {k v : PyValue} {s : PyStr}

@[simp] theorem eq_str_left : eq (.str s) k = true ↔ k = .str s := by
  cases k <;> simp [eq, number, eq_comm]

@[simp] theorem eq_str_right : eq k (.str s) = true ↔ k = .str s := by
  cases k <;> simp [eq, number]

theorem eqEntries_iff : eqEntries es fs = true ↔ ∀ e ∈ es, ∃ f,
    (fs.find? fun f => eq e.1 f.1) = some f ∧ eq e.2 f.2 = true := by
  induction es with
  | nil => simp [eqEntries]
  | cons e es ih => simp [eqEntries, ih, Option.any_eq_true]

theorem plainEntries_iff :
    plainEntries es = true ↔ ∀ e ∈ es, e.1.plainKey = true ∧ e.2.plain = true := by
  induction es with
  | nil => simp [plainEntries]
  | cons e es ih => simp [plainEntries, ih, and_assoc]

theorem plainKey_iff : k.plainKey = true ↔ ∃ s, k = .str s ∧ unpaired s = true := by
  cases k <;> simp [plainKey]

/-! A dict whose keys are strings, as a list of pairs. -/

/-- The entries of a dict with these keys. -/
def strEntries (l : List (PyStr × PyValue)) : List (PyValue × PyValue) :=
  l.map fun e => (.str e.1, e.2)

theorem strEntries_of_plain (plain : ∀ e ∈ es, e.1.plainKey = true) :
    ∃ l, es = strEntries l ∧ ∀ e ∈ l, unpaired e.1 = true := by
  induction es with
  | nil => exact ⟨[], rfl, by simp⟩
  | cons e es ih =>
    obtain ⟨l, rfl, all⟩ := ih fun e he => plain e (List.mem_cons_of_mem _ he)
    obtain ⟨s, is, whole⟩ := plainKey_iff.mp (plain e List.mem_cons_self)
    refine ⟨(s, e.2) :: l, by simp [strEntries, ← is], ?_⟩
    simpa [whole] using all

theorem nodup_of_proper {l : List (PyStr × PyValue)}
    (proper : properEntries (strEntries l) = true) : (l.map (·.1)).Nodup := by
  induction l with
  | nil => exact List.nodup_nil
  | cons e es ih =>
    simp only [strEntries, List.map_cons, properEntries, Bool.and_eq_true, List.all_eq_true]
      at proper
    obtain ⟨⟨⟨apart, -⟩, -⟩, rest⟩ := proper
    refine List.nodup_cons.mpr ⟨fun mem => ?_, ih rest⟩
    obtain ⟨f, hf, same⟩ := List.mem_map.mp mem
    have other := apart (.str f.1, f.2) (List.mem_map.mpr ⟨f, hf, rfl⟩)
    simp [eq, same] at other

/-- Two dicts with the same string keys are equal if their values are, key by key. -/
theorem eqEntries_map {α : Type} {l : List (PyStr × α)} (nodup : (l.map (·.1)).Nodup)
    (f g : α → PyValue) :
    eqEntries (strEntries (l.map fun e => (e.1, f e.2)))
      (strEntries (l.map fun e => (e.1, g e.2))) = true ↔ ∀ e ∈ l, eq (f e.2) (g e.2) = true := by
  have found : ∀ e ∈ l, ((strEntries (l.map fun e => (e.1, g e.2))).find? fun h =>
      eq (.str e.1) h.1) = some (.str e.1, g e.2) := by
    intro e he
    have keys : ((l.map fun e => (e.1, g e.2)).map (·.1)).Nodup := by
      rw [List.map_map]
      exact nodup
    have mem : (e.1, g e.2) ∈ l.map fun e => (e.1, g e.2) := List.mem_map.mpr ⟨e, he, rfl⟩
    have pred : ((fun h : PyValue × PyValue => eq (.str e.1) h.1) ∘
        fun h : PyStr × PyValue => ((.str h.1, h.2) : PyValue × PyValue)) =
          fun h => e.1 == h.1 := by
      funext h
      simp [eq, beq_eq_decide]
    rw [strEntries, List.find?_map, pred, Assoc.find_of_mem keys mem]
    rfl
  rw [eqEntries_iff]
  constructor
  · intro all e he
    have mem : ((.str e.1, f e.2) : PyValue × PyValue) ∈
        strEntries (l.map fun e => (e.1, f e.2)) :=
      List.mem_map.mpr ⟨(e.1, f e.2), List.mem_map.mpr ⟨e, he, rfl⟩, rfl⟩
    obtain ⟨h, hh, same⟩ := all _ mem
    obtain rfl := Option.some.inj (hh.symm.trans (found e he))
    exact same
  · intro all h hh
    obtain ⟨x, hx, rfl⟩ := List.mem_map.mp hh
    obtain ⟨e, he, rfl⟩ := List.mem_map.mp hx
    exact ⟨_, found e he, all e he⟩

/-! What is read back of a dict. -/

/-- The value that is read back. -/
def readBack (floatRepr : Rat → String) (v : PyValue) : PyValue :=
  ((dumps floatRepr v).map loads).getD .none

theorem readBack_eq {j : Json} (h : dumps floatRepr v = some j) :
    readBack floatRepr v = loads j := by
  rw [readBack, h]
  rfl

theorem loadsMembers_keys {ms : List (List CodeUnit × Json)} {s : PyStr}
    (h : s ∈ (loadsMembers ms).map (·.1)) : unpaired s = true := by
  induction ms with
  | nil => cases h
  | cons m ms ih =>
    rcases List.mem_cons.mp h with rfl | later
    · exact unpaired_decode m.1
    · exact ih later

theorem loadsMembers_eq {l : List (PyStr × PyValue)} {ms : List (List CodeUnit × Json)}
    (whole : ∀ e ∈ l, unpaired e.1 = true) (h : dumpsEntries floatRepr (strEntries l) = some ms) :
    loadsMembers ms = l.map fun e => (e.1, readBack floatRepr e.2) := by
  induction l generalizing ms with
  | nil =>
    cases h
    rfl
  | cons e es ih =>
    simp only [strEntries, List.map_cons, dumpsEntries, keyText, Option.pure_def,
      Option.bind_eq_bind, Option.bind_eq_some_iff, Option.some.injEq] at h
    obtain ⟨_, rfl, j, hj, ms, hms, rfl⟩ := h
    rw [loadsMembers, List.map_cons, ih (fun e he => whole e (List.mem_cons_of_mem _ he)) hms,
      decode_encode (whole e List.mem_cons_self), readBack_eq hj]

theorem dumpsEntries_values {ms : List (List CodeUnit × Json)}
    (h : dumpsEntries floatRepr es = some ms) : ∀ e ∈ es, ∃ j, dumps floatRepr e.2 = some j := by
  induction es generalizing ms with
  | nil => simp
  | cons e es ih =>
    simp only [dumpsEntries, Option.pure_def, Option.bind_eq_bind, Option.bind_eq_some_iff,
      Option.some.injEq] at h
    obtain ⟨_, -, j, hj, ms, hms, -⟩ := h
    intro e' he'
    rcases List.mem_cons.mp he' with rfl | later
    · exact ⟨j, hj⟩
    · exact ih hms e' later

/-- A dict is equal to what is read back of it if and only if its keys are plain and its values are,
once that is known of each value. -/
theorem eq_loads_dict {ms : List (List CodeUnit × Json)} (proper : properEntries es = true)
    (h : dumpsEntries floatRepr es = some ms)
    (values : ∀ e ∈ es, ∀ j, dumps floatRepr e.2 = some j →
      (eq e.2 (loads j) = true ↔ e.2.plain = true)) :
    eq (.dict es) (loads (.object ms)) = true ↔ plainEntries es = true := by
  have keyed : (∀ e ∈ es, e.1.plainKey = true) →
      (eq (.dict es) (loads (.object ms)) = true ↔ ∀ e ∈ es, e.2.plain = true) := by
    intro keys
    obtain ⟨l, rfl, whole⟩ := strEntries_of_plain keys
    have nodup := nodup_of_proper proper
    have members := loadsMembers_eq whole h
    have back : Assoc.ofPairs (loadsMembers ms) = l.map fun e => (e.1, readBack floatRepr e.2) := by
      rw [members, Assoc.ofPairs_of_nodup (by rwa [List.map_map])]
    have read : loads (.object ms) =
        .dict (strEntries (l.map fun e => (e.1, readBack floatRepr e.2))) := by
      rw [loads, back]
      rfl
    have length : (strEntries l).length =
        (strEntries (l.map fun e => (e.1, readBack floatRepr e.2))).length := by
      simp [strEntries]
    have pairs := eqEntries_map nodup (fun v => v) (readBack floatRepr)
    rw [List.map_id'] at pairs
    rw [read, eq, decide_eq_true length, Bool.true_and, pairs]
    have each : ∀ e ∈ l, (eq e.2 (readBack floatRepr e.2) = true ↔ e.2.plain = true) := by
      intro e he
      have mem : ((.str e.1, e.2) : PyValue × PyValue) ∈ strEntries l :=
        List.mem_map.mpr ⟨e, he, rfl⟩
      obtain ⟨j, hj⟩ := dumpsEntries_values h _ mem
      rw [readBack_eq hj]
      exact values _ mem j hj
    simp only [strEntries, List.mem_map, forall_exists_index, and_imp, forall_apply_eq_imp_iff₂]
    exact forall₂_congr each
  rw [plainEntries_iff]
  constructor
  · intro same
    have keys : ∀ e ∈ es, e.1.plainKey = true := by
      intro e he
      have entries : eqEntries es ((Assoc.ofPairs (loadsMembers ms)).map fun e => (.str e.1, e.2)) =
          true := by
        rw [loads, eq] at same
        exact (Bool.and_eq_true _ _ ▸ same).2
      obtain ⟨f, found, -⟩ := eqEntries_iff.mp entries e he
      -- the key is one of those that were read
      obtain ⟨m, hm, rfl⟩ := List.mem_map.mp (List.mem_of_find?_eq_some found)
      have key : e.1 = .str m.1 := by simpa using List.find?_some found
      rw [key]
      exact loadsMembers_keys (Assoc.keys_ofPairs_subset (List.mem_map_of_mem hm))
    exact fun e he => ⟨keys e he, (keyed keys).mp same e he⟩
  · intro plain
    exact (keyed fun e he => (plain e he).1).mpr fun e he => (plain e he).2

mutual
/-- A value is equal to what is read back of it if and only if it is plain. -/
theorem eq_loads : ∀ (v : PyValue) {j : Json}, v.proper = true → dumps floatRepr v = some j →
    (eq v (loads j) = true ↔ v.plain = true)
  | .none, _, _, h | .nan, _, _, h => by
    cases h
    simp [loads, eq, number, plain]
  | .bool _, _, _, h | .float _, _, _, h | .inf _, _, _, h => by
    cases h
    simp [loads, eq, number, plain]
  | .int _, _, _, h => by
    unfold dumps at h
    split at h
    · cases h
      simp [loads, eq, number, plain]
    · cases h
  | .str s, _, _, h => by
    cases h
    rw [loads, eq_str_left, plain, ← decode_encode_iff]
    exact ⟨fun same => PyValue.str.inj same, fun same => congrArg _ same⟩
  | .list items, _, proper, h => by
    simp only [dumps, Option.map_eq_some_iff] at h
    obtain ⟨js, hjs, rfl⟩ := h
    simpa only [loads, eq, plain] using eqItems_loads items proper hjs
  | .tuple items, _, _, h => by
    simp only [dumps, Option.map_eq_some_iff] at h
    obtain ⟨js, hjs, rfl⟩ := h
    simp [loads, eq, number, plain]
  | .dict entries, _, proper, h => by
    simp only [dumps, Option.map_eq_some_iff] at h
    obtain ⟨ms, hms, rfl⟩ := h
    exact eq_loads_dict proper hms (eqValues_loads entries proper)
  | .object _, _, _, h => by cases h

theorem eqItems_loads : ∀ (vs : List PyValue) {js : List Json}, properItems vs = true →
    dumpsItems floatRepr vs = some js → (eqItems vs (loadsItems js) = true ↔ plainItems vs = true)
  | [], _, _, h => by
    cases h
    simp [loadsItems, eqItems, plainItems]
  | v :: vs, _, proper, h => by
    simp only [dumpsItems, Option.pure_def, Option.bind_eq_bind, Option.bind_eq_some_iff,
      Option.some.injEq] at h
    obtain ⟨j, hj, js, hjs, rfl⟩ := h
    obtain ⟨first, rest⟩ := Bool.and_eq_true _ _ ▸ proper
    simp only [loadsItems, eqItems, plainItems, Bool.and_eq_true, eq_loads v first hj,
      eqItems_loads vs rest hjs]

theorem eqValues_loads : ∀ (es : List (PyValue × PyValue)), properEntries es = true →
    ∀ e ∈ es, ∀ j, dumps floatRepr e.2 = some j → (eq e.2 (loads j) = true ↔ e.2.plain = true)
  | [], _, _, h, _, _ => by cases h
  | (k, v) :: es, proper, e, he, j, hj => by
    simp only [properEntries, Bool.and_eq_true] at proper
    rcases List.mem_cons.mp he with is | later
    · rw [is] at hj ⊢
      exact eq_loads v proper.1.2 hj
    · exact eqValues_loads es proper.2 e later j hj
end

end JsonLemmas

open JsonLemmas

/-- A step's value is the same live and replayed if and only if it is plain. -/
theorem replayed_equal (floatRepr : Rat → String) (result : PyValue) (attempt : Nat)
    (proper : result.proper = true) {live : PyValue}
    (accepted : executedResult floatRepr result attempt = some live) :
    ∃ replayed, replayedResult floatRepr result attempt = some replayed ∧
      (live.eq replayed = true ↔ result.plain = true) := by
  obtain ⟨text, written, rfl⟩ := Option.map_eq_some_iff.mp accepted
  set l : List (PyStr × PyValue) := [(pyStr "result", result), (pyStr "attempt", .int attempt)]
  obtain ⟨members, entries, rfl⟩ := Option.map_eq_some_iff.mp written
  have entries : dumpsEntries floatRepr (strEntries l) = some members := entries
  obtain ⟨j, hj⟩ := dumpsEntries_values entries (.str (pyStr "result"), result) List.mem_cons_self
  refine ⟨loads j, ?_, eq_loads result proper hj⟩
  have keys : unpaired (pyStr "result") = true ∧ unpaired (pyStr "attempt") = true := by decide
  have whole : ∀ e ∈ l, unpaired e.1 = true := by
    intro e he
    rcases List.mem_pair.mp he with rfl | rfl
    · exact keys.1
    · exact keys.2
  have nodup : (l.map (·.1)).Nodup := by
    show [pyStr "result", pyStr "attempt"].Nodup
    decide
  rw [replayedResult, written, Option.bind_some, loads, loadsMembers_eq whole entries,
    Assoc.ofPairs_of_nodup (by rwa [List.map_map])]
  simp [l, PyValue.get?, PyValue.eq, readBack_eq hj]

theorem replayed_equal_list : ∃ replayed,
    replayedResult toString (.list [.int 1, .none]) 1 = some replayed ∧
      ((PyValue.list [.int 1, .none]).eq replayed = true ↔
        (PyValue.list [.int 1, .none]).plain = true) :=
  replayed_equal toString (.list [.int 1, .none]) 1 rfl rfl

/-- A step that returns a pair returns a list of two when it is replayed. -/
theorem tuple_replayed : ∃ live replayed,
    executedResult toString (.tuple [.int 1, .int 2]) 1 = some live ∧
    replayedResult toString (.tuple [.int 1, .int 2]) 1 = some replayed ∧
    live.eq replayed = false :=
  ⟨.tuple [.int 1, .int 2], .list [.int 1, .int 2], rfl, rfl, rfl⟩

/-! ## The values of the runtime -/

mutual
/-- A value as `==` and the JSON functions see it. -/
def Value.py : Value → PyValue
  | .none => .none
  | .bool b => .bool b
  | .int n => .int n
  | .float q => .float q
  | .nonFinite text =>
    if text = "inf" then .inf false else if text = "-inf" then .inf true else .nan
  | .str s => .str (pyStr s)
  | .list items => .list (pyItems items)
  | .tuple items => .tuple (pyItems items)
  | .dict entries => .dict (pyEntries entries)
  | .object _ => .object 0

def Value.pyItems : List Value → List PyValue
  | [] => []
  | v :: vs => v.py :: pyItems vs

def Value.pyEntries : List (Value × Value) → List (PyValue × PyValue)
  | [] => []
  | (k, v) :: es => (k.py, v.py) :: pyEntries es
end

theorem jsonKey_py (floatRepr : Rat → String) (k : Value) :
    k.jsonKey = (keyText floatRepr k.py).isSome := by
  cases k with
  | nonFinite text =>
    rw [Value.py]
    split
    · rfl
    · split <;> rfl
  | int n =>
    rw [Value.py, keyText, Value.jsonKey]
    split <;> simp [*]
  | _ => rfl

mutual
/-- What a step accepts as its result is what `json.dumps` writes. -/
theorem jsonable_py (floatRepr : Rat → String) : ∀ v : Value,
    v.jsonable = (dumps floatRepr v.py).isSome
  | .none | .bool _ | .float _ | .str _ | .object _ => rfl
  | .int n => by
    rw [Value.py, dumps, Value.jsonable]
    split <;> simp [*]
  | .nonFinite text => by
    rw [Value.py]
    split
    · rfl
    · split <;> rfl
  | .list items => by
    rw [Value.jsonable, Value.py, dumps, Option.isSome_map, jsonableItems_py floatRepr items]
  | .tuple items => by
    rw [Value.jsonable, Value.py, dumps, Option.isSome_map, jsonableItems_py floatRepr items]
  | .dict entries => by
    rw [Value.jsonable, Value.py, dumps, Option.isSome_map, jsonableEntries_py floatRepr entries]

theorem jsonableItems_py (floatRepr : Rat → String) : ∀ vs : List Value,
    Value.jsonableItems vs = (dumpsItems floatRepr (Value.pyItems vs)).isSome
  | [] => rfl
  | v :: vs => by
    rw [Value.jsonableItems, Value.pyItems, dumpsItems, jsonable_py floatRepr v,
      jsonableItems_py floatRepr vs]
    cases dumps floatRepr v.py <;> cases dumpsItems floatRepr (Value.pyItems vs) <;> rfl

theorem jsonableEntries_py (floatRepr : Rat → String) : ∀ es : List (Value × Value),
    Value.jsonableEntries es = (dumpsEntries floatRepr (Value.pyEntries es)).isSome
  | [] => rfl
  | (k, v) :: es => by
    rw [Value.jsonableEntries, Value.pyEntries, dumpsEntries, jsonKey_py floatRepr k,
      jsonable_py floatRepr v, jsonableEntries_py floatRepr es]
    cases keyText floatRepr k.py <;> cases dumps floatRepr v.py <;>
      cases dumpsEntries floatRepr (Value.pyEntries es) <;> rfl
end

end AnchorRuntime
