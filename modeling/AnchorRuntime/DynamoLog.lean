import AnchorRuntime.DynamoStore

/-!
# The log in DynamoDB

`load_events` makes one `Query` and reads what it returns. A query returns items in the
order of their sort keys, as many as fit into a page, and says by `LastEvaluatedKey` that
more remain; nobody looks at that.

Results: `load_complete`, a log is loaded as it was appended exactly when it fits on one page
and the table keeps its payloads; `load_truncated`, a log of which only the first event is
loaded.
-/

namespace AnchorRuntime

/-! ## Loading -/

/-- `Event`, with its payload as a dict. -/
structure LoadedEvent where
  seq : Nat
  type : String
  stepKey : Option String
  payload : Value
  createdAt : Int

def EventItem.load (e : EventItem) : LoadedEvent :=
  ⟨e.seq, e.type, e.stepKey, dec e.payload, e.createdAt⟩

section Query

variable (size : EventItem → Nat)

/-- What one `Query` returns of the items in order: as many as fit. -/
def firstPage : Nat → List EventItem → List EventItem
  | _, [] => []
  | room, e :: es => if size e ≤ room then e :: firstPage (room - size e) es else []

/-- `load_events` -/
def DynamoTable.loadEvents (page : Nat) (t : DynamoTable) (runId : Uuid) : List LoadedEvent :=
  (firstPage size page (t.events runId)).map EventItem.load

/-- What the items of the run take up. -/
def DynamoTable.logSize (t : DynamoTable) (runId : Uuid) : Nat :=
  ((t.events runId).map size).sum

end Query

/-- The results of completed steps and the tokens of open windows. -/
structure ReplayState where
  completed : String → Option Value
  unresolved : String → Option Value

/-- One event of `_build_replay_state`. -/
def ReplayState.replay (s : ReplayState) (e : LoadedEvent) : ReplayState :=
  match e.stepKey with
  | none => s
  | some key =>
    if e.type = "StepStarted" then
      { s with unresolved :=
          Function.update s.unresolved key (some ((e.payload.get? "token").getD (.str ""))) }
    else if e.type = "StepCompleted" then
      { completed := Function.update s.completed key (some ((e.payload.get? "result").getD .none))
        unresolved := Function.update s.unresolved key none }
    else if e.type = "StepFailed" then
      { s with unresolved := Function.update s.unresolved key none }
    else s

/-- `_build_replay_state` -/
def replayState (events : List LoadedEvent) : ReplayState :=
  events.foldl ReplayState.replay ⟨fun _ => none, fun _ => none⟩

/-! ## Appending -/

/-- An append at a time. -/
structure Entry where
  now : Int
  type : String
  stepKey : Option String
  payload : Value

def Entry.call (runId : Uuid) (e : Entry) : AppendCall := ⟨runId, e.type, e.stepKey, e.payload⟩

/-- An `append_event` whose table calls follow one another; none if it raises. -/
def DynamoTable.appendEvent (limits : Limits) (t : DynamoTable) (runId : Uuid) (e : Entry) :
    Option DynamoTable := do
  let (t, a) ← (e.call runId).step limits e.now t .start
  let (t, a) ← (e.call runId).step limits e.now t a
  let (t, a) ← (e.call runId).step limits e.now t a
  match a with
  | .returned _ => some t
  | _ => none

/-- The events are appended one at a time. -/
def DynamoTable.appendAll (limits : Limits) (runId : Uuid) :
    DynamoTable → List Entry → Option DynamoTable
  | t, [] => some t
  | t, e :: es => do appendAll limits runId (← t.appendEvent limits runId e) es

/-- The events as they were appended, numbered from the first on. -/
def appended (n : Nat) : List Entry → List LoadedEvent
  | [] => []
  | e :: es => ⟨n + 1, e.type, e.stepKey, e.payload, e.now⟩ :: appended (n + 1) es

/-- An event with its payload as Python compares it. -/
def LoadedEvent.norm (e : LoadedEvent) : LoadedEvent := { e with payload := e.payload.norm }

/-! ## The order of the items -/

namespace DynamoLogLemmas

/-- The number of a digit string by its first digit. -/
theorem ofDigitChars_head (c : Char) (l : List Char) : Nat.ofDigitChars 10 (c :: l) 0 =
    10 ^ l.length * (c.toNat - 48) + Nat.ofDigitChars 10 l 0 := by
  rw [Nat.ofDigitChars_cons, Nat.ofDigitChars_eq_ofDigitChars_zero, Nat.mul_zero, Nat.zero_add]
  rfl

theorem isDigit_bound {c : Char} (h : c.isDigit = true) : 48 ≤ c.toNat ∧ c.toNat ≤ 57 :=
  Char.isDigit_iff_toNat.mp h

theorem ofDigitChars_lt {l : List Char} (digits : ∀ c ∈ l, c.isDigit = true) :
    Nat.ofDigitChars 10 l 0 < 10 ^ l.length := by
  induction l with
  | nil => simp
  | cons c l ih =>
    have tail := ih fun d mem => digits d (List.mem_cons_of_mem _ mem)
    have head := isDigit_bound (digits c List.mem_cons_self)
    have small := Nat.mul_le_mul_left (10 ^ l.length) (show c.toNat - 48 ≤ 9 by omega)
    rw [ofDigitChars_head, List.length_cons, pow_succ]
    omega

/-- Digit strings of one length are in the order of their numbers. -/
theorem lt_of_ofDigitChars_lt {l m : List Char} (same : l.length = m.length)
    (hl : ∀ c ∈ l, c.isDigit = true) (hm : ∀ c ∈ m, c.isDigit = true)
    (lt : Nat.ofDigitChars 10 l 0 < Nat.ofDigitChars 10 m 0) : l < m := by
  induction l generalizing m with
  | nil =>
    cases m with
    | nil => simp at lt
    | cons => cases same
  | cons c l ih =>
    cases m with
    | nil => cases same
    | cons d m =>
      have tails : l.length = m.length := Nat.succ.inj same
      have tail : ∀ e ∈ l, e.isDigit = true := fun e mem => hl e (List.mem_cons_of_mem _ mem)
      have tail' : ∀ e ∈ m, e.isDigit = true := fun e mem => hm e (List.mem_cons_of_mem _ mem)
      have bound := ofDigitChars_lt tail'
      have hc := isDigit_bound (hl c List.mem_cons_self)
      have hd := isDigit_bound (hm d List.mem_cons_self)
      rw [ofDigitChars_head, ofDigitChars_head, tails] at lt
      rw [List.cons_lt_cons_iff]
      rcases lt_trichotomy c.toNat d.toNat with less | eq | more
      · exact .inl (Char.lt_def.mpr less)
      · obtain rfl := Char.toNat_inj.mp eq
        exact .inr ⟨rfl, ih tails tail tail' (by omega)⟩
      · have := Nat.mul_le_mul_left (10 ^ m.length)
          (show d.toNat - 48 + 1 ≤ c.toNat - 48 by omega)
        rw [Nat.mul_add, Nat.mul_one] at this
        omega

/-- The number of a sort key. -/
theorem eventSk_number (n : Nat) :
    Nat.ofDigitChars 10 ((eventSk n).drop 6) 0 = n := by
  have digits : (eventSk n).drop 6 =
      List.replicate (20 - (Nat.toDigits 10 n).length) '0' ++ Nat.toDigits 10 n := rfl
  rw [digits, Nat.ofDigitChars_append, Nat.ofDigitChars_replicate_zero, Nat.mul_zero,
    Nat.ofDigitChars_ten_toDigits]

theorem eventSk_inj {m n : Nat} (h : eventSk m = eventSk n) : m = n := by
  rw [← eventSk_number m, h, eventSk_number]

/-- Twenty digits are enough for the numbers below 10^20. -/
theorem eventSk_lt {m n : Nat} (lt : m < n) (bound : n < 10 ^ 20) : eventSk m < eventSk n := by
  have short : ∀ {k : Nat}, k < 10 ^ 20 → (Nat.toDigits 10 k).length ≤ 20 := fun h =>
    (Nat.length_toDigits_le_iff (by omega) (by omega)).mpr h
  have digits : ∀ k, ∀ c ∈ List.replicate (20 - (Nat.toDigits 10 k).length) '0' ++
      Nat.toDigits 10 k, c.isDigit = true := by
    intro k c mem
    rcases List.mem_append.mp mem with zero | digit
    · rw [(List.mem_replicate.mp zero).2]
      rfl
    · exact Nat.isDigit_of_mem_toDigits (by omega) (by omega) digit
  have longm := short (lt.trans bound)
  have longn := short bound
  refine List.append_left_lt (lt_of_ofDigitChars_lt ?_ (digits m) (digits n) ?_)
  · simp only [List.length_append, List.length_replicate]
    omega
  · have hm := eventSk_number m
    have hn := eventSk_number n
    rw [show (eventSk m).drop 6 = List.replicate (20 - (Nat.toDigits 10 m).length) '0' ++
      Nat.toDigits 10 m from rfl] at hm
    rw [show (eventSk n).drop 6 = List.replicate (20 - (Nat.toDigits 10 n).length) '0' ++
      Nat.toDigits 10 n from rfl] at hn
    omega

/-- An item whose number is beyond all others goes to the end. -/
theorem putEvent_last {e : EventItem} {l : List EventItem} (bound : e.seq < 10 ^ 20)
    (last : ∀ x ∈ l, x.seq < e.seq) : putEvent e l = l ++ [e] := by
  induction l with
  | nil => rfl
  | cons x l ih =>
    have lt : x.sk < e.sk := eventSk_lt (last x List.mem_cons_self) bound
    have ne : e.sk ≠ x.sk := fun h => List.lt_irrefl _ (h ▸ lt)
    have not_lt : ¬ e.sk < x.sk := fun h => List.lt_irrefl _ (List.lt_trans h lt)
    rw [putEvent, if_neg ne, if_neg not_lt, ih fun y mem => last y (List.mem_cons_of_mem _ mem)]
    rfl

/-! Pages. -/

theorem firstPage_length {size : EventItem → Nat} {room : Nat} {l : List EventItem} :
    (firstPage size room l).length ≤ l.length := by
  induction l generalizing room with
  | nil => exact le_rfl
  | cons e l ih =>
    unfold firstPage
    split
    · exact Nat.succ_le_succ ih
    · exact Nat.zero_le _

theorem firstPage_all {size : EventItem → Nat} {room : Nat} {l : List EventItem}
    (fits : (l.map size).sum ≤ room) : firstPage size room l = l := by
  induction l generalizing room with
  | nil => rfl
  | cons e l ih =>
    rw [List.map_cons, List.sum_cons] at fits
    rw [firstPage, if_pos (by omega), ih (by omega)]

theorem fits_of_length {size : EventItem → Nat} {room : Nat} {l : List EventItem}
    (all : (firstPage size room l).length = l.length) : (l.map size).sum ≤ room := by
  induction l generalizing room with
  | nil => exact Nat.zero_le _
  | cons e l ih =>
    unfold firstPage at all
    split at all
    · next fits =>
      have rest := ih (Nat.succ.inj all)
      rw [List.map_cons, List.sum_cons]
      omega
    · cases all

theorem length_le_sum {size : EventItem → Nat} (pos : ∀ e, 0 < size e) (l : List EventItem) :
    l.length ≤ (l.map size).sum := by
  induction l with
  | nil => exact le_rfl
  | cons e l ih =>
    have := pos e
    rw [List.length_cons, List.map_cons, List.sum_cons]
    omega

/-! What appends leave. -/

variable {limits : Limits} {t t' : DynamoTable} {runId : Uuid} {n : Nat} {e : Entry}
  {es : List Entry}

/-- An append that returns has put its item under the next number. -/
theorem appendEvent_put (counter : t.counter runId = some n)
    (h : t.appendEvent limits runId e = some t') : ∃ payload, enc true e.payload = some payload ∧
      t'.counter runId = some (n + 1) ∧ t'.events runId =
        putEvent ⟨n + 1, e.type, e.stepKey, payload, e.now⟩ (t.events runId) := by
  have counter : t.counter (e.call runId).runId = some n := counter
  simp only [DynamoTable.appendEvent, AppendCall.step, counter, Option.bind_eq_bind,
    Option.bind_some] at h
  cases encoded : enc true (e.call runId).payload with
  | none =>
    rw [AppendCall.item, encoded] at h
    cases h
  | some payload =>
    simp only [AppendCall.item, encoded, Option.map_some] at h
    split at h
    · cases h
      exact ⟨payload, encoded, Function.update_self .., Function.update_self ..⟩
    · cases h

/-- Events that can be put are appended. -/
theorem appendAll_put (counter : t.counter runId = some n)
    (put : ∀ e ∈ es, ∀ seq ≤ n + es.length,
      ((e.call runId).item e.now seq).any limits.event = true) :
    ∃ t', t.appendAll limits runId es = some t' := by
  induction es generalizing t n with
  | nil => exact ⟨t, rfl⟩
  | cons e es ih =>
    have first := put e List.mem_cons_self (n + 1) (by rw [List.length_cons]; omega)
    obtain ⟨item, is, fits⟩ := (Option.any_eq_true _ _).mp first
    have counter' : t.counter (e.call runId).runId = some n := counter
    have appended : (t.appendEvent limits runId e).isSome = true := by
      simp only [DynamoTable.appendEvent, AppendCall.step, counter', Option.bind_eq_bind,
        Option.bind_some, is, fits, if_true, Option.isSome_some]
    obtain ⟨u, is⟩ := Option.isSome_iff_exists.mp appended
    obtain ⟨_, -, next, -⟩ := appendEvent_put counter is
    obtain ⟨t', rest⟩ := ih next fun e' mem seq bound =>
      put e' (List.mem_cons_of_mem _ mem) seq (by rw [List.length_cons]; omega)
    exact ⟨t', by rw [DynamoTable.appendAll, is]; exact rest⟩

theorem mem_putEvent {x y : EventItem} {l : List EventItem} (h : y ∈ putEvent x l) :
    y = x ∨ y ∈ l := by
  induction l with
  | nil => exact .inl (List.mem_singleton.mp h)
  | cons z l ih =>
    unfold putEvent at h
    split at h
    · exact (List.mem_cons.mp h).imp id (List.mem_cons_of_mem _)
    · split at h
      · exact List.mem_cons.mp h
      · rcases List.mem_cons.mp h with rfl | h
        · exact .inr List.mem_cons_self
        · exact (ih h).imp id (List.mem_cons_of_mem _)

theorem length_putEvent {x : EventItem} {l : List EventItem} (new : ∀ y ∈ l, y.seq ≠ x.seq) :
    (putEvent x l).length = l.length + 1 := by
  induction l with
  | nil => rfl
  | cons z l ih =>
    unfold putEvent
    split
    · next same => exact absurd (eventSk_inj same).symm (new z List.mem_cons_self)
    · split
      · rfl
      · rw [List.length_cons, ih fun y mem => new y (List.mem_cons_of_mem _ mem), List.length_cons]

/-- As many items as appends. -/
theorem appendAll_length (counter : t.counter runId = some n)
    (old : ∀ x ∈ t.events runId, x.seq ≤ n) (h : t.appendAll limits runId es = some t') :
    (t'.events runId).length = (t.events runId).length + es.length := by
  induction es generalizing t n with
  | nil =>
    cases h
    rfl
  | cons e es ih =>
    obtain ⟨u, first, rest⟩ := Option.bind_eq_some_iff.mp h
    obtain ⟨payload, -, counter', put⟩ := appendEvent_put counter first
    rw [ih counter' ?_ rest, put, length_putEvent, List.length_cons]
    · omega
    · exact fun y mem => Nat.ne_of_lt (Nat.lt_succ_of_le (old y mem))
    · intro x mem
      rw [put] at mem
      rcases mem_putEvent mem with rfl | mem
      · exact le_rfl
      · exact Nat.le_succ_of_le (old x mem)

theorem loaded_iff {payload : Attr} (encoded : enc true e.payload = some payload) :
    (EventItem.load ⟨n, e.type, e.stepKey, payload, e.now⟩).norm =
      LoadedEvent.norm ⟨n, e.type, e.stepKey, e.payload, e.now⟩ ↔ e.payload.keeps = true := by
  simp only [EventItem.load, LoadedEvent.norm, LoadedEvent.mk.injEq, true_and, and_true]
  exact decoded_iff e.payload encoded

/-- Below 10^20 the items are in the order of the appends. -/
theorem appendAll_items (counter : t.counter runId = some n)
    (old : ∀ x ∈ t.events runId, x.seq ≤ n) (bound : n + es.length < 10 ^ 20)
    (h : t.appendAll limits runId es = some t') :
    ∃ items, t'.events runId = t.events runId ++ items ∧
      items.map (fun x => some x.payload) = es.map (fun e => enc true e.payload) ∧
      ((items.map EventItem.load).map LoadedEvent.norm = (appended n es).map LoadedEvent.norm ↔
        ∀ e ∈ es, e.payload.keeps = true) := by
  induction es generalizing t n with
  | nil =>
    cases h
    exact ⟨[], (List.append_nil _).symm, rfl, by simp [appended]⟩
  | cons e es ih =>
    obtain ⟨u, first, rest⟩ := Option.bind_eq_some_iff.mp h
    obtain ⟨payload, encoded, counter', put⟩ := appendEvent_put counter first
    rw [List.length_cons] at bound
    rw [putEvent_last (show n + 1 < 10 ^ 20 by omega)
      fun x mem => Nat.lt_succ_of_le (old x mem)] at put
    have old' : ∀ x ∈ u.events runId, x.seq ≤ n + 1 := by
      intro x mem
      rw [put] at mem
      rcases List.mem_append.mp mem with mem | mem
      · exact Nat.le_succ_of_le (old x mem)
      · rw [List.mem_singleton.mp mem]
    obtain ⟨items, events, payloads, same⟩ := ih counter' old' (by omega) rest
    refine ⟨⟨n + 1, e.type, e.stepKey, payload, e.now⟩ :: items, ?_, ?_, ?_⟩
    · rw [events, put, List.append_assoc, List.singleton_append]
    · rw [List.map_cons, List.map_cons, payloads, encoded]
    · simp only [appended, List.map_cons, List.cons.injEq, loaded_iff encoded, same,
        List.forall_mem_cons]

/-! Replay. -/

theorem get?_norm (v : Value) (key : String) : v.norm.get? key = (v.get? key).map Value.norm := by
  cases v with
  | dict entries =>
    simp only [Value.norm, Value.get?]
    induction entries with
    | nil => rfl
    | cons e entries ih =>
      obtain ⟨k, v⟩ := e
      cases k with
      | str s =>
        by_cases same : s = key
        · simp [Value.normEntries, same]
        · simpa [Value.normEntries, same] using ih
      | _ => exact ih
  | float q =>
    simp only [Value.norm]
    split <;> rfl
  | _ => rfl

end DynamoLogLemmas

/-- A replay state with its values as Python compares them. -/
def ReplayState.norm (s : ReplayState) : ReplayState :=
  ⟨fun key => (s.completed key).map Value.norm, fun key => (s.unresolved key).map Value.norm⟩

namespace DynamoLogLemmas

theorem update_norm (f : String → Option Value) (key : String) (v : Option Value) :
    (fun k => (Function.update f key v k).map Value.norm) =
      Function.update (fun k => (f k).map Value.norm) key (v.map Value.norm) := by
  funext k
  by_cases same : k = key
  · simp [same]
  · simp [same]

theorem getD_norm (v : Value) (key : String) (default : Value) (fixed : default.norm = default) :
    (v.norm.get? key).getD default = ((v.get? key).getD default).norm := by
  rw [get?_norm]
  cases v.get? key with
  | none => exact fixed.symm
  | some v => rfl

theorem replay_norm (s : ReplayState) (e : LoadedEvent) :
    s.norm.replay e.norm = (s.replay e).norm := by
  unfold ReplayState.replay LoadedEvent.norm
  cases e.stepKey with
  | none => rfl
  | some key =>
    simp only [getD_norm e.payload "token" (.str "") rfl, getD_norm e.payload "result" .none rfl]
    split
    · simp only [ReplayState.norm, update_norm, Option.map_some]
    · split
      · simp only [ReplayState.norm, update_norm, Option.map_some, Option.map_none]
      · split
        · simp only [ReplayState.norm, update_norm, Option.map_none]
        · rfl

/-- Events that are equal in Python replay to equal states. -/
theorem replayState_norm (events : List LoadedEvent) :
    replayState (events.map LoadedEvent.norm) = (replayState events).norm := by
  suffices ∀ s : ReplayState, (events.map LoadedEvent.norm).foldl ReplayState.replay s.norm =
      (events.foldl ReplayState.replay s).norm from
    this ⟨fun _ => none, fun _ => none⟩
  induction events with
  | nil => exact fun _ => rfl
  | cons e events ih =>
    intro s
    rw [List.map_cons, List.foldl_cons, List.foldl_cons, replay_norm, ih]

end DynamoLogLemmas

open DynamoLogLemmas TextLemmas

/-- A log is loaded complete exactly when it fits on one page and the table keeps its
payloads: for every run and every log of events appended one at a time, `load_events` returns
the events as they were appended, each once and in order, and replays to the same state, if
and only if the items of the run take up no more than a page and no payload holds a tuple or
an int that a double does not represent. -/
theorem load_complete {size : EventItem → Nat} {page : Nat} (pos : ∀ e, 0 < size e)
    (about : page < 10 ^ 20) {limits : Limits} {t t' : DynamoTable} {runId : Uuid} {es : List Entry}
    (fresh : t.counter runId = some 0) (empty : t.events runId = [])
    (h : t.appendAll limits runId es = some t') :
    ((t'.loadEvents size page runId).map LoadedEvent.norm =
        (appended 0 es).map LoadedEvent.norm ∧
      (replayState (t'.loadEvents size page runId)).norm =
        (replayState (appended 0 es)).norm) ↔
    t'.logSize size runId ≤ page ∧ ∀ e ∈ es, e.payload.keeps = true := by
  have old : ∀ x ∈ t.events runId, x.seq ≤ 0 := by simp [empty]
  have count := appendAll_length fresh old h
  rw [empty, List.length_nil, Nat.zero_add] at count
  have appended_length : ∀ n, (appended n es).length = es.length := by
    clear count h
    induction es with
    | nil => exact fun _ => rfl
    | cons e es ih => exact fun n => congrArg (· + 1) (ih (n + 1))
  -- on one page the items are the appends
  have items : t'.logSize size runId ≤ page →
      t'.loadEvents size page runId = (t'.events runId).map EventItem.load ∧
      (((t'.events runId).map EventItem.load).map LoadedEvent.norm =
        (appended 0 es).map LoadedEvent.norm ↔ ∀ e ∈ es, e.payload.keeps = true) := by
    intro fits
    have few := length_le_sum pos (t'.events runId)
    have fits' : ((t'.events runId).map size).sum ≤ page := fits
    obtain ⟨items, events, -, same⟩ := appendAll_items fresh old (by omega) h
    rw [empty, List.nil_append] at events
    exact ⟨by rw [DynamoTable.loadEvents, firstPage_all fits], by rw [events]; exact same⟩
  constructor
  · rintro ⟨equal, -⟩
    have fits : t'.logSize size runId ≤ page := by
      refine fits_of_length (Nat.le_antisymm firstPage_length ?_)
      have lengths := congrArg List.length equal
      rw [List.length_map, List.length_map, DynamoTable.loadEvents, List.length_map,
        appended_length] at lengths
      omega
    obtain ⟨loaded, same⟩ := items fits
    exact ⟨fits, same.mp (loaded ▸ equal)⟩
  · rintro ⟨fits, keeps⟩
    obtain ⟨loaded, same⟩ := items fits
    have equal := same.mpr keeps
    rw [← loaded] at equal
    exact ⟨equal, by rw [← replayState_norm, equal, replayState_norm]⟩

/-! ## Sizes

What items take up, as DynamoDB documents it: a name and a value each, strings in UTF-8, a
number about a byte for two digits, and three bytes for a list or a map with one for each of
its elements. -/

namespace Sample

def textSize (s : String) : Nat := (s.toList.map Char.utf8Size).sum

mutual
def attrSize : Attr → Nat
  | .null | .bool _ => 1
  | .int n => (Nat.toDigits 10 n.natAbs).length / 2 + 2
  | .decimal _ => 10
  | .str s => textSize s
  | .list items => 3 + itemsSize items
  | .map entries => 3 + entriesSize entries

def itemsSize : List Attr → Nat
  | [] => 0
  | a :: as => attrSize a + 1 + itemsSize as

def entriesSize : List (String × Attr) → Nat
  | [] => 0
  | (k, a) :: es => textSize k + attrSize a + 1 + entriesSize es
end

def itemSize (e : EventItem) : Nat :=
  2 + 40 + (2 + 26) + (3 + attrSize (.int e.seq)) + (4 + textSize e.type) +
    (7 + attrSize e.payload) + (10 + 32) + e.stepKey.elim 0 fun key => 8 + textSize key

def runSize (r : RunRecord) : Nat :=
  400 + textSize r.workflow + textSize r.idempotencyKey + (enc true r.input).elim 0 attrSize

/-- 400 KB -/
def limits : Limits := ⟨fun e => itemSize e ≤ 409600, fun r => runSize r ≤ 409600⟩

/-- 1 MB -/
def page : Nat := 1048576

/-- The run as its submission leaves it before its first event. -/
def dynamoTable : DynamoTable :=
  { DynamoTable.empty with counter := fun j => if j = ⟨7⟩ then some 0 else none }

def shortLog : List Entry :=
  [⟨0, "StepStarted", some "x#1", .dict [(.str "token", .str "t")]⟩,
    ⟨1, "StepCompleted", some "x#1", .dict [(.str "result", .float 1), (.str "attempt", .int 1)]⟩]

/-- Three steps that have completed with this result. -/
def results (text : String) : List Entry :=
  ["model#1", "model#2", "model#3"].map fun key =>
    ⟨0, "StepCompleted", some key, .dict [(.str "result", .str text)]⟩

def longText (n : Nat) : String := String.ofList (List.replicate n 'x')

end Sample

theorem itemSize_pos (e : EventItem) : 0 < Sample.itemSize e := by
  rw [Sample.itemSize]
  omega

theorem load_complete_short : ∃ t',
    Sample.dynamoTable.appendAll Sample.limits ⟨7⟩ Sample.shortLog = some t' ∧
    (((t'.loadEvents Sample.itemSize Sample.page ⟨7⟩).map LoadedEvent.norm =
        (appended 0 Sample.shortLog).map LoadedEvent.norm ∧
      (replayState (t'.loadEvents Sample.itemSize Sample.page ⟨7⟩)).norm =
        (replayState (appended 0 Sample.shortLog)).norm) ↔
    t'.logSize Sample.itemSize ⟨7⟩ ≤ Sample.page ∧
      ∀ e ∈ Sample.shortLog, e.payload.keeps = true) := by
  obtain ⟨t', h⟩ := Option.isSome_iff_exists.mp
    (show (Sample.dynamoTable.appendAll Sample.limits ⟨7⟩ Sample.shortLog).isSome = true by
      decide +kernel)
  exact ⟨t', h, load_complete itemSize_pos (by decide) rfl rfl h⟩

theorem results_encoded {text : String} (plain : utf8 text = true) :
    enc true (.dict [(.str "result", .str text)]) = some (.map [("result", .str text)]) := by
  have key : utf8 "result" = true := by decide
  simp [enc, encEntries, plain, key]

theorem results_appended {text : String} (plain : utf8 text = true)
    (short : Sample.textSize text ≤ 400000) :
    ∃ t', Sample.dynamoTable.appendAll Sample.limits ⟨7⟩ (Sample.results text) = some t' := by
  refine appendAll_put (n := 0) rfl fun e mem seq bound => ?_
  obtain ⟨key, is, rfl⟩ := List.mem_map.mp mem
  have encoded : (Entry.call ⟨7⟩ ⟨0, "StepCompleted", some key,
      .dict [(.str "result", .str text)]⟩).item 0 seq = some ⟨seq, "StepCompleted", some key,
        .map [("result", .str text)], 0⟩ := by
    rw [AppendCall.item, Entry.call, results_encoded plain]
    rfl
  rw [encoded, Option.any_some]
  have number : Sample.attrSize (.int seq) ≤ 3 := by
    have few : seq ≤ 3 := bound
    interval_cases seq <;> decide
  have type : Sample.textSize "StepCompleted" = 13 := by decide
  have name : Sample.textSize key = 7 := by
    rcases List.mem_cons.mp is with rfl | is
    · decide
    · rcases List.mem_pair.mp is with rfl | rfl <;> decide
  have word : Sample.textSize "result" = 6 := by decide
  simp only [Sample.limits, Sample.itemSize, Sample.attrSize, Sample.entriesSize, type, name, word,
    Option.elim_some, decide_eq_true_eq]
  simp only [Sample.attrSize] at number
  omega

/-- Where three results take up more than a page not every event is loaded. -/
theorem results_truncated {text : String} (plain : utf8 text = true)
    (long : Sample.page < 3 * Sample.textSize text) {t' : DynamoTable}
    (h : Sample.dynamoTable.appendAll Sample.limits ⟨7⟩ (Sample.results text) = some t') :
    (t'.loadEvents Sample.itemSize Sample.page ⟨7⟩).map LoadedEvent.norm ≠
      (appended 0 (Sample.results text)).map LoadedEvent.norm := by
  intro equal
  have old : ∀ x ∈ Sample.dynamoTable.events ⟨7⟩, x.seq ≤ 0 := fun x mem => by cases mem
  obtain ⟨items, events, payloads, -⟩ := appendAll_items rfl old (by simp [Sample.results]) h
  have three : items.length = 3 := by simpa [Sample.results] using congrArg List.length payloads
  have lengths := congrArg List.length equal
  have all : (firstPage Sample.itemSize Sample.page items).length = items.length := by
    rw [three]
    simpa [DynamoTable.loadEvents, events, Sample.dynamoTable, DynamoTable.empty, Sample.results,
      appended] using lengths
  have fits := fits_of_length all
  have large : ∀ x ∈ items, Sample.textSize text ≤ Sample.itemSize x := by
    intro x mem
    have mem := List.mem_map_of_mem (f := fun x : EventItem => some x.payload) mem
    rw [payloads] at mem
    obtain ⟨e, entry, encoded⟩ := List.mem_map.mp mem
    obtain ⟨key, -, rfl⟩ := List.mem_map.mp entry
    have payload : some (Attr.map [("result", .str text)]) = some x.payload :=
      (results_encoded plain).symm.trans encoded
    rw [Sample.itemSize, ← Option.some.inj payload]
    simp only [Sample.attrSize, Sample.entriesSize]
    omega
  obtain ⟨x, y, z, rfl⟩ := List.length_eq_three.mp three
  have hx := large x (by simp)
  have hy := large y (by simp)
  have hz := large z (by simp)
  simp only [List.map_cons, List.map_nil, List.sum_cons, List.sum_nil] at fits
  omega

theorem textSize_longText (n : Nat) : Sample.textSize (Sample.longText n) = n := by
  rw [Sample.textSize, Sample.longText, String.toList_ofList, List.map_replicate,
    List.sum_replicate]
  exact Nat.mul_one n

theorem longText_utf8 (n : Nat) : utf8 (Sample.longText n) = true := by
  refine utf8_verbatim (verbatim_iff.mpr fun c hc => ?_)
  rw [Sample.longText, String.toList_ofList] at hc
  rw [List.eq_of_mem_replicate hc]
  decide

theorem long_truncated {n : Nat} (long : Sample.page < 3 * n) (short : n ≤ 400000) : ∃ t',
    Sample.dynamoTable.appendAll Sample.limits ⟨7⟩ (Sample.results (Sample.longText n)) = some t' ∧
    (t'.loadEvents Sample.itemSize Sample.page ⟨7⟩).map LoadedEvent.norm ≠
      (appended 0 (Sample.results (Sample.longText n))).map LoadedEvent.norm := by
  obtain ⟨t', h⟩ := results_appended (longText_utf8 n) (by rwa [textSize_longText])
  exact ⟨t', h, results_truncated (longText_utf8 n) (by rwa [textSize_longText]) h⟩

/-- Of a log of 1.17 MB not every event is loaded. -/
theorem load_truncated : ∃ t',
    Sample.dynamoTable.appendAll Sample.limits ⟨7⟩ (Sample.results (Sample.longText 390000)) =
      some t' ∧
    (t'.loadEvents Sample.itemSize Sample.page ⟨7⟩).map LoadedEvent.norm ≠
      (appended 0 (Sample.results (Sample.longText 390000))).map LoadedEvent.norm :=
  long_truncated (by norm_num [Sample.page]) (by norm_num)

end AnchorRuntime
