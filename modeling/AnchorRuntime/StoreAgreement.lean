import AnchorRuntime.StoreCalls

/-!
# Two stores, one protocol

The same calls, one at a time, to an empty `PostgresStore` and an empty `DynamoDBStore`. Replies are
compared up to timestamps, numbers by value.

Results: `stores_agree`, after any calls whose arguments both stores give back alike and which set
no status of an unknown run, the next call is answered alike if and only if it is no first
submission of a key, no append to or attempt of an unknown run, no saving of a usage, no read that
one page does not hold, and returns no run whose usage Postgres has saved; `submission_stale`, the
first submission of a key; `usage_refused`, the saving of a usage; `upsert_unreadable`, what becomes
of a run that only DynamoDB knows.
-/

namespace AnchorRuntime

open Relational Machine DynamoLogLemmas

/-! ## Replies -/

/-- A row as callers compare it. -/
def RunRow.view (r : RunRow) : RunRow :=
  { r with
    input := r.input.norm, result := r.result.norm, error := r.error.norm
    createdAt := 0, updatedAt := 0, finishedAt := r.finishedAt.map fun _ => 0 }

def LoadedEvent.view (e : LoadedEvent) : LoadedEvent := { e.norm with createdAt := 0 }

def SideEffect.view (e : SideEffect) : SideEffect :=
  { e with payload := e.payload.norm, createdAt := 0 }

/-- A reply as callers compare it: one exception is as good as another. -/
def Reply.view : Reply → Reply
  | .submitted row created => .submitted (row.map RunRow.view) created
  | .run row => .run (row.map RunRow.view)
  | .events log => .events (log.map LoadedEvent.view)
  | .effect row => .effect (row.map SideEffect.view)
  | .raised _ => .raised dataError
  | reply => reply

/-- The `event_seq` of a run that a submission returns. -/
def Reply.eventSeq : Reply → Option Nat
  | .submitted row _ => row.map (·.eventSeq)
  | _ => none

/-! ## Runs of calls -/

structure Stores where
  postgres : PostgresStore
  dynamo : DynamoDBStore

def Stores.empty : Stores := ⟨.empty, .empty⟩

/-- A call, and what the clock of each store says. -/
structure Exchange where
  call : RunCall
  postgresNow : Int
  dynamoNow : Int

section

variable (text : Rat → Rat) (pages : Pages)

def Stores.postgresReply (s : Stores) (x : Exchange) : Reply :=
  (s.postgres.perform (jsonbCodec text) x.postgresNow x.call).1

def Stores.dynamoReply (s : Stores) (x : Exchange) : Reply :=
  (s.dynamo.perform pages x.dynamoNow x.call).1

def Stores.step (s : Stores) (x : Exchange) : Option Stores :=
  some ⟨(s.postgres.perform (jsonbCodec text) x.postgresNow x.call).2,
    (s.dynamo.perform pages x.dynamoNow x.call).2⟩

/-! ## The conditions -/

/-- A JSON value that both stores hold and give back: no int that a double does not represent, and
no float that is rounded when it is written out. -/
def Value.portable (v : Value) : Bool :=
  storableValue v && (enc true v).isSome && v.exact && v.writes text

/-- A double represents the number of the next event. -/
def PostgresStore.room (p : PostgresStore) (runId : Uuid) : Bool :=
  (p.runs.find runId).all fun run => run.eventSeq + 1 < 2 ^ 53

/-- The arguments come back from both stores, `uuid4` draws a new id, and no status is set of a run
that is unknown. -/
def Stores.portable (s : Stores) : RunCall → Bool
  | .submitRun runId workflow payload key budget =>
    pgText workflow && pgText key && payload.portable text && budget.toDict.portable text &&
      (startedPayload workflow payload budget).portable text && !(s.postgres.runs.find runId).isSome
  | .appendEvent runId type stepKey payload =>
    pgText type && stepKey.all pgText && payload.orEmpty.portable text && s.postgres.room runId
  | .setStatus runId _ result error =>
    result.portable text && error.portable text && (s.postgres.runs.find runId).isSome
  | .requestCancel runId => s.postgres.room runId
  -- `attempt INT`
  | .bumpAttempt runId => (s.postgres.runs.find runId).all fun run => run.attempt + 1 < 2 ^ 31
  | .recordSideEffect _ _ kind payload => pgText kind && payload.portable text
  | _ => true

/-- The arguments are portable, and DynamoDB has items for them. -/
def Stores.takes (s : Stores) (call : RunCall) : Bool :=
  s.portable text call && pages.fits s.dynamo call

/-- The call is answered alike. A usage is saved in Postgres only. -/
def Stores.alike (s : Stores) : RunCall → Bool
  | .submitRun _ _ _ key _ =>
    (s.postgres.runs.rows.find? fun r => r.idempotencyKey = key).any fun r => r.usage = .zero
  | .getRun runId => (s.postgres.runs.find runId).all fun r => r.usage = .zero
  | .saveUsage _ usage => !storableValue usage.toDict
  | .appendEvent runId _ _ _ | .bumpAttempt runId => (s.postgres.runs.find runId).isSome
  | .loadEvents runId =>
    (firstPage pages.size pages.page (s.dynamo.events runId)).length =
      (s.dynamo.events runId).length
  | .countSideEffects runId kind => s.dynamo.effects.rows.all fun row =>
      !(row.runId = runId && row.kind = kind) || pages.reaches s.dynamo row.token
  | _ => true

end

/-! ## The simulation -/

/-- A row as callers of DynamoDB see it: no usage is ever saved. -/
def RunRow.unbilled (r : RunRow) : RunRow := { r.view with usage := .zero }

/-- A run in both stores: the row, META and COUNTER, and the events. -/
structure RunMatches (row : RunRow) (m : MetaItem) (counter : Option Nat)
    (rows : List LoadedEvent) (items : List EventItem) : Prop where
  item : ∃ r, m = .ofRow r ∧ r.view = row.unbilled
  counted : counter = some row.eventSeq
  logged : rows.map LoadedEvent.view = items.map fun e => e.load.view
  numbered : rows.map (·.seq) = List.range' 1 row.eventSeq

/-- Both stores hold the same. -/
structure Stores.Match (s : Stores) : Prop where
  known : ∀ r row, s.postgres.runs.find r = some row → ∃ m, s.dynamo.runs r = some m ∧
    RunMatches row m (s.dynamo.counter r) (s.postgres.events r) (s.dynamo.events r)
  unknown : ∀ r, s.postgres.runs.find r = none → s.dynamo.runs r = none ∧
    s.dynamo.counter r = none ∧ s.postgres.events r = [] ∧ s.dynamo.events r = []
  idem : ∀ key, s.dynamo.idem key =
    (s.postgres.runs.rows.find? fun r => r.idempotencyKey = key).map (·.runId)
  effects : s.postgres.sideEffects.rows.map SideEffect.view =
    s.dynamo.effects.rows.map SideEffect.view

namespace StoreLemmas

variable {text : Rat → Rat} {pages : Pages} {s : Stores} {runId : Uuid} {row : RunRow}

/-! Values. -/

theorem isNone_of_norm {v w : Value} (same : v.norm = w.norm) : v.isNone = w.isNone := by
  have kept : ∀ u : Value, u.norm.isNone = u.isNone := by
    intro u
    cases u with
    | float q =>
      unfold Value.norm
      split
      · rfl
      · rfl
    | none | bool | int | nonFinite | str | list | tuple | dict | object => rfl
  rw [← kept v, same, kept w]

/-- What both stores read of a portable value. -/
theorem portable_read {v : Value} (ok : v.portable text = true) : ∃ a,
    enc true v = some a ∧ storableValue v = true ∧ (readJsonb text v).norm = (dec a).norm := by
  unfold Value.portable at ok
  simp only [Bool.and_eq_true] at ok
  obtain ⟨⟨⟨storable, held⟩, exact⟩, writes⟩ := ok
  obtain ⟨a, held⟩ := Option.isSome_iff_exists.mp held
  exact ⟨a, held, storable, read_norm v held exact writes⟩

theorem portable_values {v : Value} (ok : v.portable text = true) : ∃ a b,
    (jsonbCodec text).value v = some a ∧ tableCodec.value v = some b ∧ a.norm = b.norm := by
  obtain ⟨a, held, storable, same⟩ := portable_read ok
  refine ⟨readJsonb text v, dec a, if_pos storable, ?_, same⟩
  unfold tableCodec
  simp only [held, Option.map_some]

theorem portable_optional {v : Value} (ok : v.portable text = true) : ∃ a b,
    (jsonbCodec text).optional v = some a ∧ tableCodec.optional v = some b ∧ a.norm = b.norm := by
  unfold Codec.optional
  split
  · exact ⟨.none, .none, rfl, rfl, rfl⟩
  · exact portable_values ok

/-! Items. -/

theorem getD_result (v : Value) : (if v.isNone then none else some v).getD Value.none = v := by
  cases v with
  | none => rfl
  | bool | int | float | nonFinite | str | list | tuple | dict | object => rfl

theorem fromItem_ofRow (r : RunRow) : (MetaItem.ofRow r).fromItem = .ok r := by
  unfold MetaItem.fromItem MetaItem.ofRow
  simp only [item, getD_result]
  rfl

/-- A row is what DynamoDB shows of it if and only if no usage has been saved. -/
theorem view_unbilled (r : RunRow) : r.view = r.unbilled ↔ r.usage = .zero := by
  simp only [RunRow.unbilled, RunRow.view, RunRow.mk.injEq, and_self, true_and, and_true]

/-- `_from_item` of META is the row. -/
theorem getRun_known (m : s.Match) (known : s.postgres.runs.find runId = some row) :
    ∃ r, s.dynamo.getRun runId = .ok (some r) ∧ r.view = row.unbilled := by
  obtain ⟨_, held, here⟩ := m.known runId row known
  obtain ⟨r, rfl, same⟩ := here.item
  refine ⟨r, ?_, same⟩
  unfold DynamoDBStore.getRun
  rw [held]
  show (MetaItem.ofRow r).fromItem.map some = _
  rw [fromItem_ofRow]
  rfl

/-! Writes. -/

/-- Both stores write to a run they know. -/
theorem set_match {item : MetaItem} {n : Option Nat} {rows : List LoadedEvent}
    {items : List EventItem} (m : s.Match) (known : s.postgres.runs.find runId = some row)
    (f : RunRow → RunRow) (same : ∀ r, (f r).runId = r.runId)
    (keyed : ∀ r, (f r).idempotencyKey = r.idempotencyKey)
    (here : RunMatches (f row) item n rows items) :
    Stores.Match ⟨
      { s.postgres with
        runs := s.postgres.runs.update runId f same
        events := Function.update s.postgres.events runId rows },
      { s.dynamo with
        runs := Function.update s.dynamo.runs runId (some item)
        counter := Function.update s.dynamo.counter runId n
        events := Function.update s.dynamo.events runId items }⟩ := by
  refine ⟨fun r row' found => ?_, fun r absent => ?_, fun key => ?_, m.effects⟩
  · by_cases eq : r = runId
    · subst eq
      have found : (s.postgres.runs.update r f same).find r = some row' := found
      rw [Table.find_update_self, known] at found
      cases found
      exact ⟨item, Function.update_self .., by simpa only [Function.update_self] using here⟩
    · have found : (s.postgres.runs.update runId f same).find r = some row' := found
      rw [Table.find_update_ne _ _ _ eq] at found
      simpa only [Function.update_of_ne eq] using m.known r row' found
  · have absent : (s.postgres.runs.update runId f same).find r = none := absent
    by_cases eq : r = runId
    · subst eq
      rw [Table.find_update_self, known] at absent
      cases absent
    · rw [Table.find_update_ne _ _ _ eq] at absent
      simpa only [Function.update_of_ne eq] using m.unknown r absent
  · have kept : ∀ r : RunRow, (if r.runId = runId then f r else r).idempotencyKey =
        r.idempotencyKey ∧ (if r.runId = runId then f r else r).runId = r.runId := by
      intro r
      split
      · exact ⟨keyed r, same r⟩
      · exact ⟨rfl, rfl⟩
    show s.dynamo.idem key = (((s.postgres.runs.rows.map fun r =>
      if r.runId = runId then f r else r).find? fun r => r.idempotencyKey = key)).map (·.runId)
    rw [m.idem key, List.find?_map, Option.map_map]
    simp only [Function.comp_def, kept]

/-- An UPDATE of the row and an `update_item` of META. -/
theorem update_match (m : s.Match) (known : s.postgres.runs.find runId = some row)
    (now now' : Int) (f : RunRow → RunRow) (same : ∀ r, (f r).runId = r.runId)
    (keyed : ∀ r, (f r).idempotencyKey = r.idempotencyKey)
    (counted : (f row).eventSeq = row.eventSeq) (g : MetaItem → MetaItem)
    (item : ∀ r, r.view = row.unbilled → ∃ r', { g (.ofRow r) with updatedAt := some now' } =
      MetaItem.ofRow r' ∧ r'.view = RunRow.unbilled { f row with updatedAt := now }) :
    Stores.Match ⟨s.postgres.updateRun now runId f same, s.dynamo.updateMeta now' runId g⟩ := by
  obtain ⟨_, held, here⟩ := m.known runId row known
  obtain ⟨r, rfl, alike⟩ := here.item
  have written : RunMatches { f row with updatedAt := now }
      { g (.ofRow r) with updatedAt := some now' } (s.dynamo.counter runId)
      (s.postgres.events runId) (s.dynamo.events runId) :=
    ⟨item r alike, here.counted.trans (congrArg some counted.symm), here.logged,
      here.numbered.trans (congrArg (List.range' 1) counted.symm)⟩
  have set := set_match m known (fun r => { f r with updatedAt := now }) same keyed written
  rw [Function.update_eq_self, Function.update_eq_self, Function.update_eq_self] at set
  unfold PostgresStore.updateRun DynamoDBStore.updateMeta
  rw [held]
  exact set

/-- An append to a run that both stores know. -/
theorem append_match {type : String} {stepKey : Option String} {payload : Value} (m : s.Match)
    (known : s.postgres.runs.find runId = some row) (now now' : Int)
    (texts : (pgText type && stepKey.all pgText) = true) (ok : payload.portable text = true)
    (room : row.eventSeq + 1 < 2 ^ 53) : ∃ p d,
      s.postgres.appendEvent (jsonbCodec text) now runId type stepKey payload =
        (.number (some (row.eventSeq + 1)), p) ∧
      s.dynamo.appendEvent now' runId type stepKey payload =
        (.number (some (row.eventSeq + 1)), d) ∧
      p.runs.find runId =
        some { row with eventSeq := row.eventSeq + 1, updatedAt := now } ∧
      Stores.Match ⟨p, d⟩ := by
  obtain ⟨_, held, here⟩ := m.known runId row known
  obtain ⟨r, rfl, alike⟩ := here.item
  obtain ⟨a, encoded, storable, read⟩ := portable_read ok
  have free : (s.postgres.events runId).any (fun e => e.seq = row.eventSeq + 1) = false := by
    rw [List.any_eq_false]
    intro e mem taken
    have mem := List.mem_map_of_mem (f := LoadedEvent.seq) mem
    rw [here.numbered, List.mem_range'_1] at mem
    have taken := of_decide_eq_true taken
    omega
  have below : ∀ e ∈ s.dynamo.events runId, e.seq < row.eventSeq + 1 := by
    intro e mem
    have seqs : (s.dynamo.events runId).map (·.seq) = List.range' 1 row.eventSeq := by
      rw [← here.numbered]
      have := congrArg (List.map LoadedEvent.seq) here.logged
      rw [List.map_map, List.map_map] at this
      exact this.symm
    have mem := List.mem_map_of_mem (f := EventItem.seq) mem
    rw [seqs, List.mem_range'_1] at mem
    omega
  have written : RunMatches { row with eventSeq := row.eventSeq + 1, updatedAt := now }
      { MetaItem.ofRow r with eventSeq := some (row.eventSeq + 1), updatedAt := some now' }
      (some (row.eventSeq + 1))
      (s.postgres.events runId ++ [⟨row.eventSeq + 1, type, stepKey, readJsonb text payload, now⟩])
      (s.dynamo.events runId ++ [⟨row.eventSeq + 1, type, stepKey, a, now'⟩]) := by
    refine ⟨⟨{ r with eventSeq := row.eventSeq + 1, updatedAt := now' }, rfl, ?_⟩, rfl, ?_, ?_⟩
    · simp only [RunRow.unbilled, RunRow.view, RunRow.mk.injEq] at alike ⊢
      simp only [alike, and_self]
    · rw [List.map_append, List.map_append, here.logged]
      simp only [List.map_cons, List.map_nil, LoadedEvent.view, LoadedEvent.norm, EventItem.load,
        read]
    · rw [List.map_append, here.numbered, List.range'_1_concat, Nat.add_comm 1]
      rfl
  refine ⟨_, _, ?_, ?_, ?_, set_match m known
    (fun r => { r with eventSeq := r.eventSeq + 1, updatedAt := now }) (fun _ => rfl)
    (fun _ => rfl) written⟩
  · unfold PostgresStore.appendEvent
    simp only [jsonbCodec, storable, if_true, texts, known, free, Bool.false_eq_true, if_false]
    rfl
  · unfold DynamoDBStore.appendEvent DynamoDBStore.updateMeta
    simp only [here.counted, encoded, held, Option.getD_some]
    rw [putEvent_last (room.trans (by decide)) below]
  · have found := Table.find_update_self s.postgres.runs runId
      (fun r => { r with eventSeq := r.eventSeq + 1, updatedAt := now }) (fun _ => rfl)
    rw [known] at found
    exact found

/-! Calls. -/

/-- The call leaves the stores alike, and is answered alike if and only if `alike` says so. -/
structure Answered (text : Rat → Rat) (pages : Pages) (s : Stores) (x : Exchange) : Prop where
  kept : Stores.Match ⟨(s.postgres.perform (jsonbCodec text) x.postgresNow x.call).2,
    (s.dynamo.perform pages x.dynamoNow x.call).2⟩
  reply : (s.postgresReply text x).view = (s.dynamoReply pages x).view ↔
    s.alike pages x.call = true

section

variable {x : Exchange} {a b : Reply} {p : PostgresStore} {d : DynamoDBStore}

theorem answered (postgres : s.postgres.perform (jsonbCodec text) x.postgresNow x.call = (a, p))
    (dynamo : s.dynamo.perform pages x.dynamoNow x.call = (b, d)) (kept : Stores.Match ⟨p, d⟩)
    (reply : a.view = b.view ↔ s.alike pages x.call = true) : Answered text pages s x := by
  refine ⟨?_, ?_⟩
  · rw [postgres, dynamo]
    exact kept
  · unfold Stores.postgresReply Stores.dynamoReply
    rw [postgres, dynamo]
    exact reply

end

variable {now now' : Int}

theorem getRun_answered (m : s.Match) : Answered text pages s ⟨.getRun runId, now, now'⟩ := by
  cases known : s.postgres.runs.find runId with
  | none =>
    have absent := (m.unknown runId known).1
    refine answered (a := .run none) (b := .run none) ?_ ?_ m ⟨fun _ => ?_, fun _ => rfl⟩
    · exact congrArg (fun run => (Reply.run run, s.postgres)) known
    · unfold DynamoDBStore.perform DynamoDBStore.getRun
      simp only [absent]
    · simp only [Stores.alike, known, Option.all_none]
  | some row =>
    obtain ⟨r, read, same⟩ := getRun_known m known
    refine answered (a := .run (some row)) (b := .run (some r)) ?_ ?_ m ?_
    · exact congrArg (fun run => (Reply.run run, s.postgres)) known
    · unfold DynamoDBStore.perform
      simp only [read]
    · show Reply.run (some row.view) = .run (some r.view) ↔ _
      rw [same, Reply.run.injEq, Option.some.injEq, view_unbilled]
      simp only [Stores.alike, known, Option.all_some, decide_eq_true_eq]

theorem isCancelRequested_answered (m : s.Match) :
    Answered text pages s ⟨.isCancelRequested runId, now, now'⟩ := by
  refine answered rfl rfl m ⟨fun _ => rfl, fun _ => congrArg Reply.flag ?_⟩
  unfold DynamoDBStore.isCancelRequested
  cases known : s.postgres.runs.find runId with
  | none =>
    rw [(m.unknown runId known).1]
    rfl
  | some row =>
    obtain ⟨_, held, here⟩ := m.known runId row known
    obtain ⟨r, rfl, same⟩ := here.item
    rw [held]
    exact (congrArg RunRow.cancelRequested same).symm

theorem appendEvent_answered {type : String} {stepKey : Option String} {payload : Value}
    (m : s.Match) (ok : s.portable text (.appendEvent runId type stepKey payload) = true) :
    Answered text pages s ⟨.appendEvent runId type stepKey payload, now, now'⟩ := by
  unfold Stores.portable at ok
  simp only [Bool.and_eq_true] at ok
  obtain ⟨⟨texts, ok⟩, room⟩ := ok
  unfold PostgresStore.room at room
  cases known : s.postgres.runs.find runId with
  | none =>
    obtain ⟨a, _, storable, _⟩ := portable_read ok
    have alone := (m.unknown runId known).2.1
    refine answered (a := .number none) (b := .raised validationError) ?_ ?_ m ?_
    · show s.postgres.appendEvent (jsonbCodec text) now runId type stepKey payload.orEmpty = _
      unfold PostgresStore.appendEvent
      simp only [jsonbCodec, storable, if_true, texts, known, Bool.and_self]
    · show s.dynamo.appendEvent now' runId type stepKey payload.orEmpty = _
      unfold DynamoDBStore.appendEvent
      simp only [alone]
    · unfold Stores.alike
      simp only [known, Option.isSome_none, Bool.false_eq_true, iff_false]
      intro same
      cases same
  | some row =>
    rw [known, Option.all_some, decide_eq_true_eq] at room
    obtain ⟨p, d, postgres, dynamo, _, kept⟩ := append_match m known now now'
      (Bool.and_eq_true _ _ ▸ texts) ok room
    refine answered postgres dynamo kept ⟨fun _ => ?_, fun _ => rfl⟩
    unfold Stores.alike
    simp only [known, Option.isSome_some]

theorem bumpAttempt_answered (m : s.Match) :
    Answered text pages s ⟨.bumpAttempt runId, now, now'⟩ := by
  cases known : s.postgres.runs.find runId with
  | none =>
    have absent := (m.unknown runId known).1
    refine answered (a := .number none) (b := .raised validationError) (p := s.postgres) ?_ ?_ m ?_
    · show s.postgres.bumpAttempt now runId = _
      unfold PostgresStore.bumpAttempt PostgresStore.updateRun
      rw [Table.update_absent _ _ known, known]
      rfl
    · show s.dynamo.bumpAttempt now' runId = _
      unfold DynamoDBStore.bumpAttempt
      simp only [absent, Option.bind_none]
    · unfold Stores.alike
      simp only [known, Option.isSome_none, Bool.false_eq_true, iff_false]
      intro same
      cases same
  | some row =>
    obtain ⟨_, held, here⟩ := m.known runId row known
    obtain ⟨r, rfl, same⟩ := here.item
    have attempt : r.view.attempt = row.unbilled.attempt := congrArg RunRow.attempt same
    refine answered (a := .number (some (row.attempt + 1))) (b := .number (some (row.attempt + 1)))
      ?_ ?_ (update_match m known now now' (fun r => { r with attempt := r.attempt + 1 })
        (fun _ => rfl) (fun _ => rfl) rfl (fun m => { m with attempt := some (row.attempt + 1) })
        fun r same => ?_) ⟨fun _ => ?_, fun _ => rfl⟩
    · show s.postgres.bumpAttempt now runId = _
      unfold PostgresStore.bumpAttempt
      rw [known]
      rfl
    · show s.dynamo.bumpAttempt now' runId = _
      unfold DynamoDBStore.bumpAttempt
      rw [held]
      show (Reply.number (some (r.view.attempt + 1)), s.dynamo.updateMeta now' runId fun m =>
        { m with attempt := some (r.view.attempt + 1) }) = _
      rw [attempt]
      rfl
    · refine ⟨{ r with attempt := row.attempt + 1, updatedAt := now' }, rfl, ?_⟩
      simp only [RunRow.unbilled, RunRow.view, RunRow.mk.injEq] at same ⊢
      simp only [same, and_self]
    · unfold Stores.alike
      simp only [known, Option.isSome_some]

/-! Logs. -/

/-- The events of a run in both stores, whether they know it or not. -/
theorem log_match (m : s.Match) (runId : Uuid) : ∃ n,
    (s.postgres.events runId).map LoadedEvent.view =
      (s.dynamo.events runId).map (fun e => e.load.view) ∧
    (s.postgres.events runId).map (·.seq) = List.range' 1 n := by
  cases known : s.postgres.runs.find runId with
  | none =>
    obtain ⟨_, _, rows, items⟩ := m.unknown runId known
    rw [rows, items]
    exact ⟨0, rfl, rfl⟩
  | some row =>
    obtain ⟨_, _, here⟩ := m.known runId row known
    exact ⟨row.eventSeq, here.logged, here.numbered⟩

/-- The rows come back as they were appended. -/
theorem loadEvents_rows (m : s.Match) :
    s.postgres.loadEvents runId = s.postgres.events runId := by
  obtain ⟨n, _, numbered⟩ := log_match m runId
  refine List.Pairwise.insertionSort_eq ?_
  have sorted : ((s.postgres.events runId).map (·.seq)).Pairwise (· ≤ ·) := by
    rw [numbered]
    exact List.pairwise_le_range'
  exact List.pairwise_map.mp sorted

theorem loadEvents_answered (m : s.Match) :
    Answered text pages s ⟨.loadEvents runId, now, now'⟩ := by
  obtain ⟨_, logged, _⟩ := log_match m runId
  refine answered rfl rfl m ?_
  show Reply.events ((s.postgres.loadEvents runId).map LoadedEvent.view) =
    .events ((s.dynamo.loadEvents pages runId).map LoadedEvent.view) ↔ _
  rw [loadEvents_rows m, logged, Reply.events.injEq]
  unfold DynamoDBStore.loadEvents Stores.alike
  rw [List.map_map, decide_eq_true_eq]
  constructor
  · intro same
    have lengths := congrArg List.length same
    rw [List.length_map, List.length_map] at lengths
    exact lengths.symm
  · intro all
    rw [firstPage_all (fits_of_length all)]
    rfl

/-! Status and usage. -/

theorem chosen_norm {a b v w : Value} (new : a.norm = b.norm) (old : v.norm = w.norm) :
    (if a.isNone then v else a).norm = (if b.isNone then w else b).norm := by
  rw [isNone_of_norm new]
  split
  · exact old
  · exact new

/-- An attribute that is set, or stays as it is. -/
theorem chosen_item (b v : Value) :
    (if b.isNone then (if v.isNone then none else some v) else some b) =
      if (if b.isNone then v else b).isNone then none else some (if b.isNone then v else b) := by
  cases absent : b.isNone with
  | true => rfl
  | false => simp only [Bool.false_eq_true, if_false, absent]

theorem setStatus_answered {status : RunStatus} {result error : Value} (m : s.Match)
    (ok : s.portable text (.setStatus runId status result error) = true) :
    Answered text pages s ⟨.setStatus runId status result error, now, now'⟩ := by
  unfold Stores.portable at ok
  simp only [Bool.and_eq_true] at ok
  obtain ⟨⟨okResult, okError⟩, known⟩ := ok
  obtain ⟨row, known⟩ := Option.isSome_iff_exists.mp known
  obtain ⟨a, b, resultA, resultB, results⟩ := portable_optional okResult
  obtain ⟨c, d, errorC, errorD, errors⟩ := portable_optional okError
  refine answered (a := .done) (b := .done) ?_ ?_ (update_match m known now now'
    (fun r =>
      { r with
        status
        result := if a.isNone then r.result else a
        error := if c.isNone then r.error else c
        finishedAt := if status.terminal then some now else r.finishedAt })
    (fun _ => rfl) (fun _ => rfl) rfl
    (fun m =>
      { m with
        status := some status
        result := if b.isNone then m.result else some b
        error := if d.isNone then m.error else some d
        finishedAt := if status.terminal then some now' else m.finishedAt })
    fun r same => ?_) ⟨fun _ => rfl, fun _ => rfl⟩
  · show s.postgres.setStatus (jsonbCodec text) now runId status result error = _
    unfold PostgresStore.setStatus
    rw [resultA, errorC]
  · show s.dynamo.setStatus now' runId status result error = _
    unfold DynamoDBStore.setStatus
    rw [resultB, errorD]
  · refine ⟨{ r with
        status
        result := if b.isNone then r.result else b
        error := if d.isNone then r.error else d
        finishedAt := if status.terminal then some now' else r.finishedAt
        updatedAt := now' }, ?_, ?_⟩
    · simp only [MetaItem.ofRow, chosen_item]
    · have resulted : r.view.result = row.unbilled.result := congrArg RunRow.result same
      have failed : r.view.error = row.unbilled.error := congrArg RunRow.error same
      have finished : r.view.finishedAt = row.unbilled.finishedAt :=
        congrArg RunRow.finishedAt same
      have ended : (if status.terminal then some now' else r.finishedAt).map (fun _ => (0 : Int)) =
          (if status.terminal then some now else row.finishedAt).map (fun _ => 0) := by
        split
        · rfl
        · exact finished
      simp only [RunRow.unbilled, RunRow.view, RunRow.mk.injEq] at same ⊢
      simp only [same, chosen_norm results.symm resulted, chosen_norm errors.symm failed, ended,
        and_self]

theorem saveUsage_refused (d : DynamoDBStore) (usage : Usage) :
    ∃ exc, d.saveUsage usage = (.raised exc, d) := by
  unfold DynamoDBStore.saveUsage
  split
  · exact ⟨_, rfl⟩
  · exact ⟨_, rfl⟩

/-- A usage that Postgres alone saves. -/
theorem usage_match (m : s.Match) (now : Int) (runId : Uuid) (usage : Usage) : Stores.Match
    ⟨s.postgres.updateRun now runId (fun r => { r with usage }) fun _ => rfl, s.dynamo⟩ := by
  cases known : s.postgres.runs.find runId with
  | none =>
    unfold PostgresStore.updateRun
    rw [Table.update_absent _ _ known]
    exact m
  | some row =>
    obtain ⟨item, held, here⟩ := m.known runId row known
    have written : RunMatches { row with usage, updatedAt := now } item (s.dynamo.counter runId)
        (s.postgres.events runId) (s.dynamo.events runId) :=
      ⟨here.item, here.counted, here.logged, here.numbered⟩
    have set := set_match m known (fun r => { r with usage, updatedAt := now }) (fun _ => rfl)
      (fun _ => rfl) written
    rw [← held, Function.update_eq_self, Function.update_eq_self, Function.update_eq_self,
      Function.update_eq_self] at set
    exact set

theorem saveUsage_answered {usage : Usage} (m : s.Match) :
    Answered text pages s ⟨.saveUsage runId usage, now, now'⟩ := by
  obtain ⟨exc, refused⟩ := saveUsage_refused s.dynamo usage
  cases storable : storableValue usage.toDict with
  | false =>
    refine answered (a := .raised dataError) (b := .raised exc) ?_ refused m
      ⟨fun _ => ?_, fun _ => rfl⟩
    · show s.postgres.saveUsage (jsonbCodec text) now runId usage = _
      unfold PostgresStore.saveUsage
      simp only [jsonbCodec, storable, Bool.false_eq_true, if_false]
    · simp only [Stores.alike, storable, Bool.not_false]
  | true =>
    refine answered (a := .done) (b := .raised exc) ?_ refused
      (usage_match m now runId ((jsonbCodec text).usage usage))
      ⟨fun same => (by cases same), fun alike => ?_⟩
    · show s.postgres.saveUsage (jsonbCodec text) now runId usage = _
      unfold PostgresStore.saveUsage
      simp only [jsonbCodec, storable, if_true]
    · simp only [Stores.alike, storable, Bool.not_true, Bool.false_eq_true] at alike

/-! Cancellation. -/

theorem terminal_iff (status : RunStatus) :
    status.terminal = false ↔ status = .pending ∨ status = .running := by
  cases status with
  | pending | running | completed | failed | cancelled | needsReview => decide

theorem requestCancel_answered (m : s.Match)
    (room : s.portable text (.requestCancel runId) = true) :
    Answered text pages s ⟨.requestCancel runId, now, now'⟩ := by
  have room : s.postgres.room runId = true := room
  unfold PostgresStore.room at room
  cases known : s.postgres.runs.find runId with
  | none =>
    refine answered (a := .flag false) (b := .flag false) ?_ ?_ m ⟨fun _ => rfl, fun _ => rfl⟩
    · show s.postgres.requestCancel (jsonbCodec text) now runId = _
      unfold PostgresStore.requestCancel
      rw [known]
    · show s.dynamo.requestCancel now' runId = _
      unfold DynamoDBStore.requestCancel
      rw [(m.unknown runId known).1]
      rfl
  | some row =>
    obtain ⟨_, held, here⟩ := m.known runId row known
    obtain ⟨r, rfl, same⟩ := here.item
    have status : r.view.status = row.unbilled.status := congrArg RunRow.status same
    have read : (s.dynamo.runs runId).bind (·.status) = some row.status := by
      rw [held]
      exact congrArg some status
    cases ended : row.status.terminal with
    | true =>
      refine answered (a := .flag false) (b := .flag false) ?_ ?_ m ⟨fun _ => rfl, fun _ => rfl⟩
      · show s.postgres.requestCancel (jsonbCodec text) now runId = _
        unfold PostgresStore.requestCancel
        simp only [known, ended, if_true]
      · show s.dynamo.requestCancel now' runId = _
        unfold DynamoDBStore.requestCancel
        have done : ¬ (row.status = .pending ∨ row.status = .running) := by
          rw [← terminal_iff, ended]
          decide
        simp only [read, done, if_false]
    | false =>
      have asked := update_match m known now now' (fun r => { r with cancelRequested := true })
        (fun _ => rfl) (fun _ => rfl) rfl (fun m => { m with cancelRequested := some true })
        fun r same => ⟨{ r with cancelRequested := true, updatedAt := now' }, rfl, by
          simp only [RunRow.unbilled, RunRow.view, RunRow.mk.injEq] at same ⊢
          simp only [same, and_self]⟩
      have found := Table.find_update_self s.postgres.runs runId
        (fun r => { r with cancelRequested := true, updatedAt := now }) (fun _ => rfl)
      rw [known, Option.map_some] at found
      rw [known, Option.all_some, decide_eq_true_eq] at room
      obtain ⟨p, d, postgres, dynamo, _, kept⟩ := append_match asked found now now'
        (show (pgText "CancelRequested" && (none : Option String).all pgText) = true by decide)
        (show Value.portable text (.dict []) = true from rfl) room
      refine answered (a := .flag true) (b := .flag true) ?_ ?_ kept ⟨fun _ => rfl, fun _ => rfl⟩
      · show s.postgres.requestCancel (jsonbCodec text) now runId = _
        unfold PostgresStore.requestCancel
        simp only [known, ended, Bool.false_eq_true, if_false, postgres]
      · show s.dynamo.requestCancel now' runId = _
        unfold DynamoDBStore.requestCancel
        simp only [read, (terminal_iff row.status).mp ended, if_true, dynamo]

/-! Effects. -/

theorem find_effect (m : s.Match) (token : Uuid) :
    (s.postgres.sideEffects.find token).map SideEffect.view =
      (s.dynamo.effects.find token).map SideEffect.view := by
  have viewed : ∀ rows : List SideEffect,
      (rows.find? fun row => row.token = token).map SideEffect.view =
        (rows.map SideEffect.view).find? fun row => row.token = token := by
    intro rows
    rw [List.find?_map]
    rfl
  unfold Table.find
  rw [viewed, viewed, m.effects]

theorem findSideEffect_answered {token : Uuid} (m : s.Match) :
    Answered text pages s ⟨.findSideEffect token, now, now'⟩ :=
  answered rfl rfl m ⟨fun _ => rfl, fun _ => congrArg Reply.effect (find_effect m token)⟩

theorem recordSideEffect_answered {token : Uuid} {kind : String} {payload : Value} (m : s.Match)
    (ok : s.portable text (.recordSideEffect token runId kind payload) = true) :
    Answered text pages s ⟨.recordSideEffect token runId kind payload, now, now'⟩ := by
  unfold Stores.portable at ok
  simp only [Bool.and_eq_true] at ok
  obtain ⟨a, b, read, read', same⟩ := portable_values ok.2
  have found := find_effect m token
  cases absent : s.postgres.sideEffects.find token with
  | none =>
    rw [absent] at found
    have absent' := Option.map_eq_none_iff.mp found.symm
    obtain ⟨t, insert⟩ :=
      Table.insert_isSome (r := (⟨token, runId, kind, a, now⟩ : SideEffect)) absent
    obtain ⟨t', insert'⟩ :=
      Table.insert_isSome (r := (⟨token, runId, kind, b, now'⟩ : SideEffect)) absent'
    have kept : Stores.Match
        ⟨{ s.postgres with sideEffects := t }, { s.dynamo with effects := t' }⟩ :=
      { m with
        effects := by
          show t.rows.map SideEffect.view = t'.rows.map SideEffect.view
          rw [(Table.rows_insert insert).2, (Table.rows_insert insert').2, List.map_append,
            List.map_append, m.effects]
          simp only [List.map_cons, List.map_nil, SideEffect.view, same] }
    refine answered (a := .flag true) (b := .flag true) ?_ ?_ kept ⟨fun _ => rfl, fun _ => rfl⟩
    · show s.postgres.recordSideEffect (jsonbCodec text) now token runId kind payload = _
      unfold PostgresStore.recordSideEffect
      simp only [read, ok.1, insert]
    · show s.dynamo.recordSideEffect now' token runId kind payload = _
      unfold DynamoDBStore.recordSideEffect
      simp only [read', insert']
  | some row =>
    rw [absent] at found
    obtain ⟨row', present, _⟩ := Option.map_eq_some_iff.mp found.symm
    have refused := Table.insert_taken (r := (⟨token, runId, kind, a, now⟩ : SideEffect)) absent
    have refused' := Table.insert_taken (r := (⟨token, runId, kind, b, now'⟩ : SideEffect)) present
    refine answered (a := .flag false) (b := .flag false) ?_ ?_ m ⟨fun _ => rfl, fun _ => rfl⟩
    · show s.postgres.recordSideEffect (jsonbCodec text) now token runId kind payload = _
      unfold PostgresStore.recordSideEffect
      simp only [read, ok.1, refused]
    · show s.dynamo.recordSideEffect now' token runId kind payload = _
      unfold DynamoDBStore.recordSideEffect
      simp only [read', refused']

/-- A count is right if and only if the scan reaches all that is counted. -/
theorem scanned_iff {α : Type} (counted reached : α → Bool) (l : List α) :
    (l.filter counted).length = ((l.filter reached).filter counted).length ↔
      (l.all fun a => !counted a || reached a) = true := by
  have swapped : (l.filter reached).filter counted = (l.filter counted).filter reached := by
    rw [List.filter_filter, List.filter_filter]
    exact List.filter_congr fun a _ => Bool.and_comm _ _
  rw [swapped, eq_comm, List.length_filter_eq_length_iff, List.all_eq_true]
  simp only [List.mem_filter, and_imp, Bool.or_eq_true, Bool.not_eq_true']
  refine forall_congr' fun a => forall_congr' fun _ => ?_
  cases counted a with
  | true => simp
  | false => simp

theorem countSideEffects_answered {kind : String} (m : s.Match) :
    Answered text pages s ⟨.countSideEffects runId kind, now, now'⟩ := by
  refine answered rfl rfl m ?_
  have counted : s.postgres.countSideEffects runId kind = (s.dynamo.effects.rows.filter fun row =>
      row.runId = runId && row.kind = kind).length := by
    have viewed : ∀ rows : List SideEffect,
        (rows.filter fun row => row.runId = runId && row.kind = kind).length =
          ((rows.map SideEffect.view).filter fun row =>
            row.runId = runId && row.kind = kind).length := by
      intro rows
      rw [List.filter_map, List.length_map]
      rfl
    unfold PostgresStore.countSideEffects
    rw [viewed, m.effects, ← viewed]
  show Reply.number _ = .number _ ↔ _
  rw [counted, Reply.number.injEq, Option.some.injEq]
  exact scanned_iff _ _ _

/-! Submissions. -/

theorem exactEntries_mem {es : List (Value × Value)} (exact : Value.exactEntries es = true) :
    ∀ e ∈ es, e.2.exact = true := by
  induction es with
  | nil =>
    intro e mem
    cases mem
  | cons e es ih =>
    obtain ⟨here, rest⟩ := Bool.and_eq_true _ _ ▸ exact
    exact List.forall_mem_cons.mpr ⟨here, ih rest⟩

theorem writesEntries_mem {es : List (Value × Value)}
    (writes : Value.writesEntries text es = true) : ∀ e ∈ es, e.2.writes text = true := by
  induction es with
  | nil =>
    intro e mem
    cases mem
  | cons e es ih =>
    obtain ⟨here, rest⟩ := Bool.and_eq_true _ _ ▸ writes
    exact List.forall_mem_cons.mpr ⟨here, ih rest⟩

theorem int_read {n : Option Int} (exact : ∀ m, n = some m → (Value.int m).exact = true) :
    n.map (jsonbCodec text).int = n.map tableCodec.int := by
  cases n with
  | none => rfl
  | some n => exact congrArg some (of_decide_eq_true (exact n rfl)).symm

theorem float_read {q : Option Rat}
    (writes : ∀ r, q = some r → (Value.float r).writes text = true) :
    q.map (jsonbCodec text).float = q.map tableCodec.float := by
  cases q with
  | none => rfl
  | some q =>
    have writes := writes q rfl
    refine congrArg some ?_
    unfold jsonbCodec tableCodec
    cases long : writtenOut q with
    | false => simp only [long, Bool.false_eq_true, if_false]
    | true =>
      simp only [Value.writes, long, Bool.not_true, Bool.false_or, Bool.and_eq_true,
        decide_eq_true_eq] at writes
      simp only [long, if_true, writes.2]

/-- Both stores give back the same budget. -/
theorem budget_read {b : Budget} (ok : b.toDict.portable text = true) :
    (jsonbCodec text).budget b = tableCodec.budget b := by
  unfold Value.portable at ok
  simp only [Bool.and_eq_true] at ok
  obtain ⟨⟨_, exact⟩, writes⟩ := ok
  have exact := exactEntries_mem exact
  have writes := writesEntries_mem writes
  unfold Codec.budget
  rw [Budget.mk.injEq]
  exact ⟨int_read fun n some => exact (.str "max_tokens", .int n) (by simp [some]),
    int_read fun n some => exact (.str "max_tool_calls", .int n) (by simp [some]),
    int_read fun n some => exact (.str "max_model_calls", .int n) (by simp [some]),
    float_read fun q some => writes (.str "max_wall_seconds", .float q) (by simp [some]),
    float_read fun q some => writes (.str "max_cost_usd", .float q) (by simp [some])⟩

/-- Both stores take up a run that neither knows. -/
theorem new_match {a b : RunRow} {t : Table RunRow.runId} (m : s.Match)
    (insert : s.postgres.runs.insert a = some t)
    (fresh : (s.postgres.runs.rows.find? fun r => r.idempotencyKey = a.idempotencyKey) = none)
    (new : a.eventSeq = 0) (same : b.view = a.unbilled) :
    Stores.Match ⟨{ s.postgres with runs := t },
      { s.dynamo with
        idem := Function.update s.dynamo.idem a.idempotencyKey (some a.runId)
        runs := Function.update s.dynamo.runs a.runId (some (.ofRow b))
        counter := Function.update s.dynamo.counter a.runId (some 0) }⟩ := by
  obtain ⟨absent, rows⟩ := Table.rows_insert insert
  obtain ⟨_, _, noRows, noItems⟩ := m.unknown a.runId absent
  refine ⟨fun r row found => ?_, fun r none => ?_, fun key => ?_, m.effects⟩
  · have found : t.find r = some row := found
    rw [Table.find_insert insert] at found
    by_cases eq : r = a.runId
    · subst eq
      rw [if_pos rfl] at found
      cases found
      refine ⟨_, Function.update_self .., ⟨b, rfl, same⟩, ?_, ?_, ?_⟩
      · exact (Function.update_self ..).trans (congrArg some new.symm)
      · show (s.postgres.events a.runId).map _ = (s.dynamo.events a.runId).map _
        rw [noRows, noItems]
        rfl
      · show (s.postgres.events a.runId).map _ = _
        rw [noRows, new]
        rfl
    · rw [if_neg eq] at found
      simpa only [Function.update_of_ne eq] using m.known r row found
  · have none : t.find r = Option.none := none
    rw [Table.find_insert insert] at none
    by_cases eq : r = a.runId
    · rw [if_pos eq] at none
      cases none
    · rw [if_neg eq] at none
      simpa only [Function.update_of_ne eq] using m.unknown r none
  · show Function.update s.dynamo.idem a.idempotencyKey (some a.runId) key =
      (t.rows.find? fun r => r.idempotencyKey = key).map (·.runId)
    rw [rows, List.find?_append]
    by_cases eq : key = a.idempotencyKey
    · subst eq
      rw [Function.update_self, fresh]
      simp
    · rw [Function.update_of_ne eq, m.idem key, List.find?_singleton]
      simp [Ne.symm eq]

theorem submitRun_answered {workflow key : String} {payload : Value} {budget : Budget}
    (m : s.Match)
    (ok : s.portable text (.submitRun runId workflow payload key budget) = true) :
    Answered text pages s ⟨.submitRun runId workflow payload key budget, now, now'⟩ := by
  unfold Stores.portable at ok
  simp only [Bool.and_eq_true, Bool.not_eq_true', Option.isSome_eq_false_iff,
    Option.isNone_iff_eq_none] at ok
  obtain ⟨⟨⟨⟨⟨okWorkflow, okKey⟩, okPayload⟩, okBudget⟩, okStarted⟩, absent⟩ := ok
  have texts : (pgText workflow && pgText key) = true := Bool.and_eq_true _ _ ▸ ⟨okWorkflow, okKey⟩
  obtain ⟨a, b, readA, readB, inputs⟩ := portable_values okPayload
  obtain ⟨a', b', budgetA, budgetB, _⟩ := portable_values okBudget
  cases held : s.postgres.runs.rows.find? fun r => r.idempotencyKey = key with
  | some existing =>
    have known := Table.find_of_mem (List.mem_of_find?_eq_some held)
    obtain ⟨r, read, same⟩ := getRun_known m known
    have owner : s.dynamo.idem key = some existing.runId := by
      rw [m.idem key, held]
      rfl
    refine answered (a := .submitted (some existing) false) (b := .submitted (some r) false) ?_ ?_
      m ?_
    · show s.postgres.submitRun (jsonbCodec text) now runId workflow payload key budget = _
      unfold PostgresStore.submitRun
      simp only [readA, budgetA, texts, held]
    · show s.dynamo.submitRun now' runId workflow payload key budget = _
      unfold DynamoDBStore.submitRun
      simp only [owner, read]
    · show Reply.submitted (some existing.view) false = .submitted (some r.view) false ↔ _
      rw [same, Reply.submitted.injEq, Option.some.injEq, view_unbilled]
      simp only [Stores.alike, held, Option.any_some, decide_eq_true_eq, and_true]
  | none =>
    have free : s.dynamo.idem key = none := by
      rw [m.idem key, held]
      rfl
    have same : (newRow tableCodec now' runId workflow b key budget).view =
        (newRow (jsonbCodec text) now runId workflow a key budget).unbilled := by
      simp only [newRow, RunRow.unbilled, RunRow.view, inputs, budget_read okBudget]
    obtain ⟨t, insert⟩ := Table.insert_isSome
      (r := newRow (jsonbCodec text) now runId workflow a key budget) absent
    have found := Table.find_insert insert runId
    rw [show (newRow (jsonbCodec text) now runId workflow a key budget).runId = runId from rfl,
      if_pos rfl] at found
    obtain ⟨p, d, postgres, dynamo, row, kept⟩ := append_match (new_match m insert held rfl same)
      found now now'
      (show (pgText "RunStarted" && (none : Option String).all pgText) = true by decide)
      okStarted (show 0 + 1 < 2 ^ 53 by decide)
    have put : DynamoDBStore.appendEvent
        { s.dynamo with
          idem := Function.update s.dynamo.idem key (some runId)
          runs := Function.update s.dynamo.runs runId
            (some (.ofRow (newRow tableCodec now' runId workflow b key budget)))
          counter := Function.update s.dynamo.counter runId (some 0) }
        now' runId "RunStarted" none (startedPayload workflow payload budget) =
          (.number (some 1), d) := dynamo
    refine answered (a := .submitted (p.runs.find runId) true)
      (b := .submitted ((itemCodec.value payload).map fun input =>
        newRow itemCodec now' runId workflow input key budget) true)
      ?_ ?_ kept ⟨fun alike => ?_, fun known => ?_⟩
    · show s.postgres.submitRun (jsonbCodec text) now runId workflow payload key budget = _
      unfold PostgresStore.submitRun
      simp only [readA, budgetA, texts, held, insert, postgres]
    · show s.dynamo.submitRun now' runId workflow payload key budget = _
      unfold DynamoDBStore.submitRun
      simp only [readB, budgetB, free, put]
    · obtain ⟨_, encoded, _⟩ := portable_read okPayload
      have returned : itemCodec.value payload = some payload.norm :=
        congrArg (Option.map fun _ => payload.norm) encoded
      rw [row, returned] at alike
      have numbers := congrArg Reply.eventSeq alike
      cases numbers
    · simp only [Stores.alike, held, Option.any_none, Bool.false_eq_true] at known

theorem call_answered (m : s.Match) (x : Exchange) (takes : s.takes text pages x.call = true) :
    Answered text pages s x := by
  have ok : s.portable text x.call = true := (Bool.and_eq_true _ _ ▸ takes).1
  obtain ⟨call, now, now'⟩ := x
  cases call with
  | submitRun => exact submitRun_answered m ok
  | getRun => exact getRun_answered m
  | appendEvent => exact appendEvent_answered m ok
  | loadEvents => exact loadEvents_answered m
  | setStatus => exact setStatus_answered m ok
  | bumpAttempt => exact bumpAttempt_answered m
  | saveUsage => exact saveUsage_answered m
  | requestCancel => exact requestCancel_answered m ok
  | isCancelRequested => exact isCancelRequested_answered m
  | recordSideEffect => exact recordSideEffect_answered m ok
  | findSideEffect => exact findSideEffect_answered m
  | countSideEffects => exact countSideEffects_answered m

theorem empty_match : Stores.empty.Match := by
  refine ⟨fun r row found => ?_, fun r _ => ⟨rfl, rfl, rfl, rfl⟩, fun _ => rfl, rfl⟩
  cases found

/-- The stores stay alike. -/
theorem calls_match (h : Reaches (Stores.step text pages)
    (fun s x => s.takes text pages x.call = true) .empty s) : s.Match := by
  refine h.invariant empty_match fun t x u _ m ok step => ?_
  cases step
  exact (call_answered m x ok).kept

end StoreLemmas

/-! ## The two stores -/

/-- After any calls that both stores take the next one is answered alike exactly when `alike` says
so. -/
theorem stores_agree {text : Rat → Rat} {pages : Pages} {s : Stores} (x : Exchange)
    (h : Reaches (Stores.step text pages) (fun s x => s.takes text pages x.call = true) .empty s)
    (ok : s.takes text pages x.call = true) :
    (s.postgresReply text x).view = (s.dynamoReply pages x).view ↔ s.alike pages x.call = true :=
  (StoreLemmas.call_answered (StoreLemmas.calls_match h) x ok).reply

/-- DynamoDB refuses to save any usage. -/
theorem usage_refused {pages : Pages} (s : Stores) (runId : Uuid) (usage : Usage) (now now' : Int) :
    ∃ exc, s.dynamoReply pages ⟨.saveUsage runId usage, now, now'⟩ = .raised exc := by
  obtain ⟨exc, refused⟩ := StoreLemmas.saveUsage_refused s.dynamo usage
  exact ⟨exc, congrArg Prod.fst refused⟩

/-- `set_status` makes META of a run that is unknown: Postgres still has no such
run, and `get_run` of the table raises. -/
theorem upsert_unreadable {text : Rat → Rat} {pages : Pages} {s : Stores} (m : s.Match)
    {runId : Uuid} (unknown : s.postgres.runs.find runId = none) (now : Int)
    (g : MetaItem → MetaItem) (same : (g {}).runId = none) (x : Exchange)
    (reads : x.call = .getRun runId) :
    (s.postgresReply text x).view ≠
      (Stores.dynamoReply pages { s with dynamo := s.dynamo.updateMeta now runId g } x).view := by
  obtain ⟨call, asked, now'⟩ := x
  subst reads
  have raised : (s.dynamo.updateMeta now runId g).getRun runId =
      .error (.exception "KeyError" (pyRepr "run_id")) := by
    unfold DynamoDBStore.getRun DynamoDBStore.updateMeta
    simp only [Function.update_self, (m.unknown runId unknown).1, Option.getD_none]
    unfold MetaItem.fromItem
    simp only [same]
    rfl
  have read : Stores.dynamoReply pages { s with dynamo := s.dynamo.updateMeta now runId g }
      ⟨.getRun runId, asked, now'⟩ = .raised (.exception "KeyError" (pyRepr "run_id")) := by
    unfold Stores.dynamoReply DynamoDBStore.perform
    simp only [raised]
  rw [read]
  intro same
  cases same

/-! A submission of a workflow without a budget. -/

namespace Sample

def storePages : Pages := ⟨fun _ _ => true, fun _ => 1, 1000, fun _ _ => true⟩

def firstSubmission : Exchange :=
  ⟨.submitRun ⟨7⟩ "w" (.dict []) "k" ⟨none, none, none, none, none⟩, 5, 6⟩

def marked : Exchange := ⟨.appendEvent ⟨7⟩ "Marked" none (.dict [(.str "n", .float 1)]), 8, 9⟩

end Sample

theorem stores_agree_marked : ∃ s,
    Stores.empty.step id Sample.storePages Sample.firstSubmission = some s ∧
      (s.postgresReply id Sample.marked).view =
        (s.dynamoReply Sample.storePages Sample.marked).view := by
  have ok : Stores.empty.takes id Sample.storePages Sample.firstSubmission.call = true := by
    decide +kernel
  refine ⟨_, rfl, (stores_agree Sample.marked (.tail .refl ok rfl) ?_).mpr ?_⟩
  · decide +kernel
  · decide +kernel

/-- Postgres returns the run with its first event, DynamoDB as it was before. -/
theorem submission_stale :
    Stores.empty.takes id Sample.storePages Sample.firstSubmission.call = true ∧
    (Stores.empty.postgresReply id Sample.firstSubmission).view ≠
      (Stores.empty.dynamoReply Sample.storePages Sample.firstSubmission).view := by
  refine ⟨by decide +kernel, fun same => ?_⟩
  have numbers := congrArg Reply.eventSeq same
  revert numbers
  decide +kernel

end AnchorRuntime
