import AnchorRuntime.Lib.Assoc
import AnchorRuntime.Store

/-!
# Values that come back

`json.dumps` writes a value, a `jsonb` column keeps it, `json.loads` reads it. On the way a tuple
becomes a list, a key of a dict becomes a string and takes its place in the order of `jsonb`, and a
float from 1e16 on becomes an int. The system hands on what it was given, so what it says of the
code it says for values that come back as they were.

Results: `readBack_isSome`, a value is read back exactly if the store takes it.
-/

namespace AnchorRuntime

open Utf16 TextLemmas

/-- `float.__repr__`, and the number that it writes. -/
structure FloatText where
  repr : Rat → String
  number : Rat → Rat
  plain : ∀ q, verbatim (repr q) = true

/-- From 1e16 on `float.__repr__` writes an exponent. A `jsonb` column keeps the number and
writes it without one, as an integer. -/
def writtenOut (q : Rat) : Bool := 10 ^ 16 ≤ |q|

/-- A string as `json.loads` reads it: what is escaped as a pair is one code point. -/
def unescaped (s : String) : String := spelled (decode (encode (pyStr s)))

/-- The bytes of a code point in UTF-8. -/
def utf8Size (c : CodePoint) : Nat :=
  if c.val < 0x80 then 1 else if c.val < 0x800 then 2 else if c.val < 0x10000 then 3 else 4

/-- The order of the keys of a `jsonb` object: shorter ones first, then byte by byte. -/
def keyBefore (a b : String) : Bool :=
  let size (s : String) := ((pyStr s).map utf8Size).sum
  size a < size b || (size a = size b && pyStr a ≤ pyStr b)

namespace Value

section

variable (floats : FloatText)

/-- The name that `json.dumps` writes for a key; none where it raises. -/
def keyText : Value → Option String
  | .str s => some s
  | .none => some "null"
  | .bool b => some (if b then "true" else "false")
  | .int n => if intText n then some (toString n) else Option.none
  | .float q => some (floats.repr q)
  | .nonFinite text =>
    some (if text = "inf" then "Infinity" else if text = "-inf" then "-Infinity" else "NaN")
  | .list _ | .tuple _ | .dict _ | .object _ => Option.none

mutual
/-- `json.loads` of what a `jsonb` column gives back of `json.dumps`; none where `json.dumps` or
Postgres raises. -/
def readBack : Value → Option Value
  | .none => some .none
  | .bool b => some (.bool b)
  | .int n => if intText n then some (.int n) else Option.none
  | .float q => some (if writtenOut q then .int (floats.number q).num else .float q)
  | .str s => if jsonText s then some (.str (unescaped s)) else Option.none
  | .list items | .tuple items => (readBackItems items).map .list
  | .dict entries => (readBackEntries entries).map fun members =>
    .dict (((Assoc.ofPairs members).insertionSort fun a b => keyBefore a.1 b.1).map fun e =>
      (.str e.1, e.2))
  | .nonFinite _ | .object _ => Option.none

def readBackItems : List Value → Option (List Value)
  | [] => some []
  | v :: vs => do return (← readBack v) :: (← readBackItems vs)

def readBackEntries : List (Value × Value) → Option (List (String × Value))
  | [] => some []
  | (k, v) :: es => do
    let name ← k.keyText floats
    let value ← readBack v
    let members ← readBackEntries es
    if jsonText name then some ((unescaped name, value) :: members) else Option.none
end

/-- The value comes back as it was. -/
def Kept (v : Value) : Prop := v.readBack floats = some v

instance (v : Value) : Decidable (v.Kept floats) := inferInstanceAs (Decidable (_ = _))

end

end Value

namespace ReadbackLemmas

variable {floats : FloatText}

/-- A key has a name that the column holds exactly if it is one. -/
theorem key_held (floats : FloatText) (k : Value) :
    (k.keyText floats).any jsonText = (k.jsonKey && k.jsonbKey) := by
  have names : jsonText "null" = true ∧ jsonText "true" = true ∧ jsonText "false" = true ∧
      jsonText "Infinity" = true ∧ jsonText "-Infinity" = true ∧ jsonText "NaN" = true := by
    decide
  obtain ⟨null, true_, false_, inf, negative, nan⟩ := names
  cases k with
  | int n =>
    have digits : jsonText (toString n) = true := jsonText_verbatim (toString_verbatim n)
    simp only [Value.keyText, Value.jsonKey, Value.jsonbKey]
    split <;> simp only [*, Option.any_some, Option.any_none, Bool.and_true]
  | float q =>
    simp [Value.keyText, Value.jsonKey, Value.jsonbKey, jsonText_verbatim (floats.plain q)]
  | bool b =>
    cases b <;> simp [Value.keyText, Value.jsonKey, Value.jsonbKey, true_, false_]
  | nonFinite text =>
    simp only [Value.keyText, Value.jsonKey, Value.jsonbKey, Option.any_some, Bool.and_self]
    split
    · exact inf
    · split
      · exact negative
      · exact nan
  | none => simp [Value.keyText, Value.jsonKey, Value.jsonbKey, null]
  | str | list | tuple | dict | object => simp [Value.keyText, Value.jsonKey, Value.jsonbKey]

mutual
/-- A value is read back exactly if the store takes it. -/
theorem readBack_held : ∀ v : Value, (v.readBack floats).isSome = (v.jsonable && v.jsonb)
  | .none | .bool _ | .float _ | .nonFinite _ | .object _ => by
    simp [Value.readBack, Value.jsonable, Value.jsonb]
  | .int n => by
    rw [Value.readBack, Value.jsonable]
    split <;> simp [*, Value.jsonb]
  | .str s => by
    rw [Value.readBack, Value.jsonb]
    split <;> simp [*, Value.jsonable]
  | .list items | .tuple items => by
    rw [Value.readBack, Value.jsonable, Value.jsonb, Option.isSome_map, readBackItems_held items]
  | .dict entries => by
    rw [Value.readBack, Value.jsonable, Value.jsonb, Option.isSome_map,
      readBackEntries_held entries]

theorem readBackItems_held : ∀ vs : List Value, (Value.readBackItems floats vs).isSome =
    (Value.jsonableItems vs && Value.jsonbItems vs)
  | [] => rfl
  | v :: vs => by
    have first := readBack_held v
    have rest := readBackItems_held vs
    rw [Value.readBackItems, Value.jsonableItems, Value.jsonbItems]
    cases hv : v.readBack floats <;> cases hvs : Value.readBackItems floats vs <;>
      simp_all [Bool.and_assoc]

theorem readBackEntries_held : ∀ es : List (Value × Value),
    (Value.readBackEntries floats es).isSome =
      (Value.jsonableEntries es && Value.jsonbEntries es)
  | [] => rfl
  | (k, v) :: es => by
    have key := key_held floats k
    have first := readBack_held v
    have rest := readBackEntries_held es
    have parts : (Value.readBackEntries floats ((k, v) :: es)).isSome =
        ((k.keyText floats).any jsonText && (v.readBack floats).isSome &&
          (Value.readBackEntries floats es).isSome) := by
      rw [Value.readBackEntries]
      cases k.keyText floats with
      | none => rfl
      | some name =>
        cases v.readBack floats <;> cases Value.readBackEntries floats es <;>
          cases held : jsonText name <;> simp [held]
    rw [parts, key, first, rest, Value.jsonableEntries, Value.jsonbEntries]
    simp only [Bool.and_assoc, Bool.and_comm, Bool.and_left_comm]
end

end ReadbackLemmas

/-- A value is read back exactly if the store takes it. -/
theorem readBack_isSome (floats : FloatText) (v : Value) :
    (v.readBack floats).isSome = storableValue v :=
  ReadbackLemmas.readBack_held v

end AnchorRuntime
