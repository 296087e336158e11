import AnchorRuntime.DynamoStore
import AnchorRuntime.Json

/-!
# Values through the table

`_enc` keeps ints and floats apart, the table gives every number back as a `Decimal`, and `_dec`
makes a float of it before it looks whether it is an int.

Results: `codec_round_trips`, a JSON value that the table holds reads back equal if and only if a
double represents each of its ints; `toDouble_small`, those up to 2 ** 53 are such;
`int_rounded`, the next one is not.
-/

namespace AnchorRuntime

open PyValue JsonLemmas

mutual
/-- A JSON value: no NaN and no infinity, no tuple, and only string keys. -/
def Value.json : Value → Bool
  | .nonFinite _ | .tuple _ | .object _ => false
  | .list items => jsonItems items
  | .dict entries => jsonEntries entries
  | _ => true

def Value.jsonItems : List Value → Bool
  | [] => true
  | v :: vs => v.json && jsonItems vs

def Value.jsonEntries : List (Value × Value) → Bool
  | [] => true
  | (.str _, v) :: es => v.json && jsonEntries es
  | _ :: _ => false
end

namespace CodecLemmas

/-- The value that is read back of one that the table holds. -/
def readBackDynamo (v : Value) : PyValue := ((enc true v).map fun a => (dec a).py).getD .none

theorem readBackDynamo_eq {v : Value} {a : Attr} (h : enc true v = some a) :
    readBackDynamo v = (dec a).py := by
  rw [readBackDynamo, h]
  rfl

/-- A dict with string keys and what is read back of it, as lists of pairs. -/
theorem entries_read {es : List (Value × Value)} {as : List (String × Attr)}
    (json : Value.jsonEntries es = true) (h : encEntries true es = some as) :
    ∃ l : List (PyStr × Value), Value.pyEntries es = strEntries (l.map fun e => (e.1, e.2.py)) ∧
      Value.pyEntries (decEntries as) = strEntries (l.map fun e => (e.1, readBackDynamo e.2)) ∧
      l.map (·.2) = es.map (·.2) := by
  induction es generalizing as with
  | nil =>
    cases h
    exact ⟨[], rfl, rfl, rfl⟩
  | cons e es ih =>
    obtain ⟨k, v⟩ := e
    cases k with
    | str k =>
      obtain ⟨a, as', ha, has, rfl⟩ := encEntries_cons h
      obtain ⟨l, live, read, values⟩ := ih (Bool.and_eq_true _ _ ▸ json).2 has
      refine ⟨(pyStr k, v) :: l, ?_, ?_, ?_⟩
      · rw [Value.pyEntries, live]
        rfl
      · rw [decEntries, Value.pyEntries, read, ← readBackDynamo_eq ha]
        rfl
      · rw [List.map_cons, List.map_cons, values]
    | _ => cases json

theorem encEntries_values {es : List (Value × Value)} {as : List (String × Attr)}
    (h : encEntries true es = some as) : ∀ e ∈ es, ∃ a, enc true e.2 = some a := by
  induction es generalizing as with
  | nil => simp
  | cons e es ih =>
    obtain ⟨k, v⟩ := e
    cases k with
    | str k =>
      obtain ⟨a, as', ha, has, -⟩ := encEntries_cons h
      intro e' he'
      rcases List.mem_cons.mp he' with rfl | later
      · exact ⟨a, ha⟩
      · exact ih has e' later
    | _ => cases h

theorem keepsEntries_iff {es : List (Value × Value)} :
    Value.keepsEntries es = true ↔ ∀ v ∈ es.map (·.2), v.keeps = true := by
  induction es with
  | nil => simp [Value.keepsEntries]
  | cons e es ih => simp [Value.keepsEntries, ih]

/-- A dict is equal to what is read back of it if and only if its values are represented, once that
is known of each value. -/
theorem eq_dec_dict {es : List (Value × Value)} {as : List (String × Attr)}
    (json : Value.jsonEntries es = true) (proper : properEntries (Value.pyEntries es) = true)
    (h : encEntries true es = some as)
    (values : ∀ e ∈ es, ∀ a, enc true e.2 = some a →
      (e.2.py.eq (dec a).py = true ↔ e.2.keeps = true)) :
    (Value.dict es).py.eq (dec (.map as)).py = true ↔ Value.keepsEntries es = true := by
  obtain ⟨l, live, read, same⟩ := entries_read json h
  have nodup : (l.map (·.1)).Nodup := by
    have keys := nodup_of_proper (live ▸ proper)
    rwa [List.map_map] at keys
  have length : (strEntries (l.map fun e => (e.1, e.2.py))).length =
      (strEntries (l.map fun e => (e.1, readBackDynamo e.2))).length := by
    simp [strEntries]
  have each : ∀ e ∈ l, (eq e.2.py (readBackDynamo e.2) = true ↔ e.2.keeps = true) := by
    intro e he
    have mem : e.2 ∈ es.map (·.2) := by
      rw [← same]
      exact List.mem_map_of_mem he
    obtain ⟨e', he', is⟩ := List.mem_map.mp mem
    obtain ⟨a, ha⟩ := encEntries_values h e' he'
    rw [← is, readBackDynamo_eq ha]
    exact values e' he' a ha
  rw [dec, Value.py, Value.py, eq, live, read, decide_eq_true length, Bool.true_and,
    eqEntries_map nodup, keepsEntries_iff, ← same, List.forall_mem_map]
  exact forall₂_congr each

mutual
/-- A JSON value is equal to what is read back of it if and only if a double represents each of its
ints. -/
theorem eq_dec : ∀ (v : Value) {a : Attr}, v.json = true → v.py.proper = true →
    enc true v = some a → (v.py.eq (dec a).py = true ↔ v.keeps = true)
  | .none, _, _, _, h | .bool _, _, _, _, h => by
    cases h
    simp [dec, Value.py, eq, number, Value.keeps]
  | .str _, _, _, _, h => by
    rw [enc_str h]
    simp [dec, Value.py, eq, Value.keeps]
  | .int n, _, _, _, h => by
    simp only [enc] at h
    split at h <;> cases h
    simp [dec, Value.py, eq, number, Value.keeps, eq_comm]
  | .float q, _, _, _, h => by
    simp only [enc] at h
    split at h <;> cases h
    simp only [dec, Value.keeps, iff_true]
    split
    · next integral => simp [Value.py, eq, number, Rat.coe_int_num_of_den_eq_one integral]
    · simp [Value.py, eq, number]
  | .nonFinite _, _, json, _, _ | .tuple _, _, json, _, _ | .object _, _, json, _, _ => by
    cases json
  | .list items, _, json, proper, h => by
    simp only [enc, Option.map_eq_some_iff] at h
    obtain ⟨as, has, rfl⟩ := h
    simpa only [dec, Value.py, eq, Value.keeps] using eqItems_dec items json proper has
  | .dict entries, _, json, proper, h => by
    simp only [enc, Option.map_eq_some_iff] at h
    obtain ⟨as, has, rfl⟩ := h
    exact eq_dec_dict json proper has (eqValues_dec entries json proper)

theorem eqItems_dec : ∀ (vs : List Value) {as : List Attr}, Value.jsonItems vs = true →
    properItems (Value.pyItems vs) = true → encItems true vs = some as →
    (eqItems (Value.pyItems vs) (Value.pyItems (decItems as)) = true ↔ Value.keepsItems vs = true)
  | [], _, _, _, h => by
    cases h
    simp [decItems, Value.pyItems, eqItems, Value.keepsItems]
  | v :: vs, _, json, proper, h => by
    simp only [encItems, Option.pure_def, Option.bind_eq_bind, Option.bind_eq_some_iff,
      Option.some.injEq] at h
    obtain ⟨a, ha, as', has, rfl⟩ := h
    obtain ⟨first, rest⟩ := Bool.and_eq_true _ _ ▸ json
    obtain ⟨first', rest'⟩ := Bool.and_eq_true _ _ ▸ proper
    simp only [decItems, Value.pyItems, eqItems, Value.keepsItems, Bool.and_eq_true,
      eq_dec v first first' ha, eqItems_dec vs rest rest' has]

theorem eqValues_dec : ∀ (es : List (Value × Value)), Value.jsonEntries es = true →
    properEntries (Value.pyEntries es) = true → ∀ e ∈ es, ∀ a, enc true e.2 = some a →
      (e.2.py.eq (dec a).py = true ↔ e.2.keeps = true)
  | [], _, _, _, h, _, _ => by cases h
  | (.str _, v) :: es, json, proper, e, he, a, ha => by
    obtain ⟨first, rest⟩ := Bool.and_eq_true _ _ ▸ json
    simp only [Value.pyEntries, properEntries, Bool.and_eq_true] at proper
    rcases List.mem_cons.mp he with is | later
    · rw [is] at ha ⊢
      exact eq_dec v first proper.1.2 ha
    · exact eqValues_dec es rest proper.2 e later a ha
  | (.none, _) :: _, json, _, _, _, _, _ | (.bool _, _) :: _, json, _, _, _, _, _
  | (.int _, _) :: _, json, _, _, _, _, _ | (.float _, _) :: _, json, _, _, _, _, _
  | (.nonFinite _, _) :: _, json, _, _, _, _, _ | (.list _, _) :: _, json, _, _, _, _, _
  | (.tuple _, _) :: _, json, _, _, _, _, _ | (.dict _, _) :: _, json, _, _, _, _, _
  | (.object _, _) :: _, json, _, _, _, _, _ => by cases json
end

end CodecLemmas

open CodecLemmas

/-- A double represents the ints up to 2 ** 53. -/
theorem toDouble_small {n : Int} (small : n.natAbs ≤ 2 ^ 53) : toDouble n = n := by
  rcases Nat.lt_or_eq_of_le small with less | top
  · have bits : n.natAbs.log2 + 1 - 53 = 0 := by
      by_cases zero : n.natAbs = 0
      · simp [zero]
      · have below := (Nat.log2_lt zero).mpr less
        omega
    have exact : toDouble n = n.sign * n.natAbs := by simp [toDouble, bits, Nat.mod_one]
    rw [exact, Int.sign_mul_natAbs]
  · obtain rfl | rfl : n = 2 ^ 53 ∨ n = -2 ^ 53 := by omega
    · rfl
    · rfl

/-- A JSON value that the table holds reads back equal if and only if a double represents each of
its ints. -/
theorem codec_round_trips (v : Value) (json : v.json = true) (proper : v.py.proper = true)
    {a : Attr} (held : enc true v = some a) :
    v.py.eq (dec a).py = true ↔ v.keeps = true :=
  eq_dec v json proper held

theorem codec_round_trips_nested :
    (Value.dict [(.str "n", .list [.int 3, .bool true])]).py.eq
      (dec (.map [("n", .list [.int 3, .bool true])])).py = true ↔
    (Value.dict [(.str "n", .list [.int 3, .bool true])]).keeps = true :=
  codec_round_trips (.dict [(.str "n", .list [.int 3, .bool true])]) rfl rfl rfl

/-- 2 ** 53 + 1 is stored as it is, and read back as 2 ** 53. -/
theorem int_rounded : ∃ a, (Value.int 9007199254740993).json = true ∧
    (Value.int 9007199254740993).py.proper = true ∧
    enc true (.int 9007199254740993) = some a ∧ dec a = .int 9007199254740992 ∧
    (Value.int 9007199254740993).py.eq (dec a).py = false :=
  ⟨.int 9007199254740993, rfl, rfl, by rw [enc, if_pos (by decide +kernel)], rfl,
    by decide +kernel⟩

end AnchorRuntime
