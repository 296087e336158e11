import AnchorRuntime.DynamoSequence

/-!
# Submissions to DynamoDB

A submission reserves its key first and makes its run afterwards, in five more writes. Who
finds the key taken reads whatever there is of the run by then.

Results: `submissions_agree`, where nobody reads a run before its submission has made it,
everyone who has a key gets the one run of the key, whole, and one of them is told that the
run is new; `reserved_lost`, a submission that crashes with the key in hand leaves `None` to
its retry.
-/

namespace AnchorRuntime

open Machine Slots SequenceLemmas

/-! ## The condition -/

/-- The submission has made its run. -/
def SubmitAt.made : SubmitAt → Bool
  | .returned _ created => created
  | _ => false

/-- The submission has the key and is not through. -/
def SubmitAt.making : SubmitAt → Bool
  | .reserved | .described _ | .counted _ | .starting _ _ => true
  | _ => false

/-- If the call is the submission of this run, it has made it. -/
def DynamoCall.made (r : Uuid) : DynamoCall → Bool
  | .submit c a => c.runId ≠ r || a.made
  | .append _ _ => true

section

variable (limits : Limits)

/-- With its next step the call reads no run that is being made, and is refused no item, META by
the serialiser or the service, RunStarted by the service. -/
def DynamoCall.ready (w : DynamoWorld) : DynamoCall → Bool
  | .submit c .reserved => (c.row w.now).any limits.run
  | .submit c (.starting _ (.mirrored seq)) => (c.started.item w.now seq).all limits.event
  | .submit _ (.found owner) => w.calls.all (DynamoCall.made owner)
  | _ => true

/-- Submissions only; no run is read before its submission has made it, and what is submitted
can be put. -/
def readsMade (w : DynamoWorld) : DynamoAction → Prop
  | .append _ => False
  | .go i => ∀ call ∈ w.calls[i]?, call.ready limits w = true
  | _ => True

instance (w : DynamoWorld) (a : DynamoAction) : Decidable (readsMade limits w a) :=
  match a with
  | .append _ => .isFalse id
  | .go i => inferInstanceAs (Decidable (∀ call ∈ w.calls[i]?, call.ready limits w = true))
  | .submit _ | .crash _ | .tick _ => .isTrue trivial

end

/-! ## The invariant -/

/-- META of the run is there. -/
def DynamoTable.Described (t : DynamoTable) (r : Uuid) : Prop :=
  ∃ run, t.runs r = some run ∧ run.runId = r

/-- All that a submission writes is there: META, COUNTER, the message and RunStarted. -/
structure DynamoTable.Made (t : DynamoTable) (queue : List Uuid) (r : Uuid) : Prop where
  described : t.Described r
  counter : (t.counter r).isSome = true
  message : r ∈ queue
  first : ∃ e es, t.events r = e :: es ∧ e.seq = 1 ∧ e.type = "RunStarted"

/-- A submission that has the key has written META and no event. -/
structure SubmitCall.Writes (c : SubmitCall) (t : DynamoTable) (run : RunRecord) : Prop where
  owns : t.idem c.idempotencyKey = some c.runId
  unwritten : t.events c.runId = []
  named : run.runId = c.runId
  described : t.Described c.runId
  sends : (enc true c.started.payload).isSome = true

/-- The append of RunStarted is the first one of the run. -/
def AppendAt.First (counter : Option Nat) : AppendAt → Prop
  | .start => counter = some 0
  | .allocated seq | .mirrored seq => seq = 1 ∧ counter = some 1
  | .returned _ | .raised _ => False

/-- What there is at each point of a submission. -/
def SubmitAt.Stage (c : SubmitCall) (t : DynamoTable) (queue : List Uuid) : SubmitAt → Prop
  | .start => t.events c.runId = []
  | .taken => (t.idem c.idempotencyKey).isSome = true
  | .found owner => t.idem c.idempotencyKey = some owner
  | .reserved => t.idem c.idempotencyKey = some c.runId ∧ t.events c.runId = []
  | .described run => c.Writes t run
  | .counted run => c.Writes t run ∧ t.counter c.runId = some 0
  | .starting run a => c.Writes t run ∧ c.runId ∈ queue ∧ a.First (t.counter c.runId)
  | .returned run true => ∃ x, run = some x ∧ x.runId = c.runId ∧
      t.idem c.idempotencyKey = some c.runId ∧ t.Made queue c.runId
  | .returned run false => ∃ x, run = some x ∧ t.idem c.idempotencyKey = some x.runId ∧
      t.Made queue x.runId
  | .raised _ => False

structure DynamoWorld.Agreed (w : DynamoWorld) : Prop where
  submits : ∀ (i : Nat) (call : DynamoCall), w.calls[i]? = some call → ∃ c a, call = .submit c a
  stage : ∀ (i : Nat) (c : SubmitCall) (a : SubmitAt), w.calls[i]? = some (.submit c a) →
    a.Stage c w.table w.queue
  owner : ∀ key r, w.table.idem key = some r → ∃ (i : Nat) (c : SubmitCall) (a : SubmitAt),
    w.calls[i]? = some (.submit c a) ∧ c.idempotencyKey = key ∧ c.runId = r ∧
      (a.making = true ∨ a.made = true)
  drawn : ∀ (i i' : Nat) (call call' : DynamoCall) (j : Uuid), w.calls[i]? = some call →
    w.calls[i']? = some call' → call.drew = some j → call'.drew = some j → i = i'
  written : ∀ j, w.table.events j ≠ [] → ∃ call ∈ w.calls, call.drew = some j

namespace SubmitLemmas

variable {limits : Limits} {w w' : DynamoWorld} {t t' : DynamoTable} {queue queue' : List Uuid}
  {now : Int} {c d : SubmitCall} {a a' b : SubmitAt} {i : Nat} {j r : Uuid}

/-! What a step of the submission of `r` does to the table and the queue. -/

structure Extends (t : DynamoTable) (queue : List Uuid) (t' : DynamoTable) (queue' : List Uuid)
    (r : Uuid) : Prop where
  idem : ∀ key owner, t.idem key = some owner → t'.idem key = some owner
  described : ∀ j, t.Described j → t'.Described j
  counter : ∀ j, (t.counter j).isSome = true → (t'.counter j).isSome = true
  others : ∀ j, j ≠ r → t'.counter j = t.counter j ∧ t'.events j = t.events j
  events : t'.events r = t.events r ∨ t.events r = []
  queue : ∀ j ∈ queue, j ∈ queue'

theorem made_extends (ext : Extends t queue t' queue' r) (made : t.Made queue j) :
    t'.Made queue' j := by
  refine ⟨ext.described j made.described, ext.counter j made.counter, ext.queue j made.message, ?_⟩
  have same : t'.events j = t.events j := by
    by_cases own : j = r
    · subst own
      obtain ⟨e, es, events, -⟩ := made.first
      refine ext.events.resolve_right fun none => ?_
      cases events.symm.trans none
    · exact (ext.others j own).2
  rw [same]
  exact made.first

theorem writes_extends {run : RunRecord} (ext : Extends t queue t' queue' r) (ne : d.runId ≠ r)
    (writes : d.Writes t run) : d.Writes t' run where
  owns := ext.idem _ _ writes.owns
  unwritten := (ext.others _ ne).2.trans writes.unwritten
  named := writes.named
  described := ext.described _ writes.described
  sends := writes.sends

theorem stage_extends (ext : Extends t queue t' queue' r) (ne : d.runId ≠ r)
    (stage : b.Stage d t queue) : b.Stage d t' queue' := by
  obtain ⟨counter, events⟩ := ext.others _ ne
  cases b with
  | start => exact events.trans stage
  | taken =>
    obtain ⟨owner, found⟩ := Option.isSome_iff_exists.mp stage
    exact Option.isSome_iff_exists.mpr ⟨owner, ext.idem _ _ found⟩
  | found owner => exact ext.idem _ _ stage
  | reserved => exact ⟨ext.idem _ _ stage.1, events.trans stage.2⟩
  | described run => exact writes_extends ext ne stage
  | counted run => exact ⟨writes_extends ext ne stage.1, counter.trans stage.2⟩
  | starting run x =>
    obtain ⟨writes, message, first⟩ := stage
    exact ⟨writes_extends ext ne writes, ext.queue _ message, counter ▸ first⟩
  | returned run created =>
    cases created with
    | true =>
      obtain ⟨x, is, named, owns, made⟩ := stage
      exact ⟨x, is, named, ext.idem _ _ owns, made_extends ext made⟩
    | false =>
      obtain ⟨x, is, owns, made⟩ := stage
      exact ⟨x, is, ext.idem _ _ owns, made_extends ext made⟩
  | raised => exact stage

theorem counter_update (n : Nat) (r : Uuid) (h : (t.counter j).isSome = true) :
    (Function.update t.counter r (some n) j).isSome = true := by
  by_cases own : j = r
  · rw [own, Function.update_self]
    rfl
  · rwa [Function.update_of_ne own]

theorem submit_extends (moves : SubmitMoves limits c now t queue a t' queue' a')
    (stage : a.Stage c t queue) : Extends t queue t' queue' c.runId := by
  cases moves with
  | reserve free =>
    refine ⟨fun key owner found => ?_, fun _ h => h, fun _ h => h, fun _ _ => ⟨rfl, rfl⟩, .inl rfl,
      fun _ h => h⟩
    have ne : key ≠ c.idempotencyKey := fun e => by cases (e ▸ found).symm.trans free
    exact (Function.update_of_ne ne ..).trans found
  | @describe row run is fits named =>
    refine ⟨fun _ _ h => h, fun j described => ?_, fun _ h => h, fun _ _ => ⟨rfl, rfl⟩, .inl rfl,
      fun _ h => h⟩
    by_cases own : j = c.runId
    · exact ⟨row, own ▸ Function.update_self .., by rw [own, (row_new is).1]⟩
    · obtain ⟨x, row, named⟩ := described
      exact ⟨x, (Function.update_of_ne own ..).trans row, named⟩
  | count run =>
    exact ⟨fun _ _ h => h, fun _ h => h, fun _ h => counter_update _ _ h, fun j ne =>
      ⟨Function.update_of_ne ne .., rfl⟩, .inl rfl, fun _ h => h⟩
  | send run =>
    exact ⟨fun _ _ h => h, fun _ h => h, fun _ h => h, fun _ _ => ⟨rfl, rfl⟩, .inl rfl,
      fun _ h => List.mem_append_left _ h⟩
  | _ =>
    exact ⟨fun _ _ h => h, fun _ h => h, fun _ h => h, fun _ _ => ⟨rfl, rfl⟩, .inl rfl,
      fun _ h => h⟩

theorem append_extends {x x' : AppendAt} {run : RunRecord}
    (moves : AppendMoves limits c.started now t x t' x')
    (stage : (SubmitAt.starting run x).Stage c t queue) : Extends t queue t' queue c.runId := by
  obtain ⟨writes, -, -⟩ := stage
  cases moves with
  | @allocate n counter =>
    exact ⟨fun _ _ h => h, fun _ h => h, fun _ h => counter_update _ _ h, fun j ne =>
      ⟨Function.update_of_ne ne .., rfl⟩, .inl rfl, fun _ h => h⟩
  | mirror seq =>
    refine ⟨fun _ _ h => h, fun j described => ?_, fun _ h => h, fun _ _ => ⟨rfl, rfl⟩, .inl rfl,
      fun _ h => h⟩
    obtain ⟨x, row, named⟩ := described
    by_cases own : j = c.runId
    · subst own
      refine ⟨{ x with eventSeq := seq, updatedAt := now }, ?_, named⟩
      refine (Function.update_self ..).trans ?_
      show (t.runs c.runId).map _ = _
      rw [row]
      rfl
    · exact ⟨x, (Function.update_of_ne own ..).trans row, named⟩
  | put is fits =>
    exact ⟨fun _ _ h => h, fun _ h => h, fun _ h => h, fun j ne =>
      ⟨rfl, Function.update_of_ne ne ..⟩, .inr writes.unwritten, fun _ h => h⟩
  | _ =>
    exact ⟨fun _ _ h => h, fun _ h => h, fun _ h => h, fun _ _ => ⟨rfl, rfl⟩, .inl rfl,
      fun _ h => h⟩

/-! What there is after a step. -/

theorem started_encodes {row : RunRecord} (is : c.row now = some row) :
    (enc true c.started.payload).isSome = true := by
  obtain ⟨payload, h, is⟩ := Option.bind_eq_some_iff.mp is
  obtain ⟨budget, h', is⟩ := Option.bind_eq_some_iff.mp is
  obtain ⟨workflow, h'', -⟩ := Option.bind_eq_some_iff.mp is
  have keys : utf8 "workflow" = true ∧ utf8 "input" = true ∧ utf8 "budget" = true := by decide
  simp only [SubmitCall.started, enc, encEntries, h, h', keys, if_true]
  unfold enc at h''
  simp [h'']

theorem stage_submit (moves : SubmitMoves limits c now t queue a t' queue' a')
    (stage : a.Stage c t queue)
    (fits : a = .reserved → (c.row now).any limits.run = true)
    (made : ∀ owner, a = .found owner → t.Made queue owner) : a'.Stage c t' queue' := by
  have ext := submit_extends moves stage
  cases moves with
  | reserve => exact ⟨Function.update_self .., stage⟩
  | taken found => exact Option.isSome_iff_exists.mpr ⟨_, found⟩
  | found found => exact found
  | missing exc free =>
    have stage : (t.idem c.idempotencyKey).isSome = true := stage
    rw [free] at stage
    cases stage
  | read owner =>
    have whole := made owner rfl
    obtain ⟨run, row, named⟩ := whole.described
    exact ⟨run, row, named ▸ stage, named ▸ whole⟩
  | @describe row run is _ named =>
    exact ⟨stage.1, stage.2, named, ⟨row, Function.update_self .., (row_new is).1⟩,
      started_encodes is⟩
  | unput exc refused => cases refused.symm.trans (fits rfl)
  | count run =>
    exact ⟨⟨stage.owns, stage.unwritten, stage.named, stage.described, stage.sends⟩,
      Function.update_self ..⟩
  | send run => exact ⟨stage.1, List.mem_append_right _ (List.mem_singleton_self _), stage.2⟩

theorem stage_append {x x' : AppendAt} {run : RunRecord}
    (moves : AppendMoves limits c.started now t x t' x')
    (stage : (SubmitAt.starting run x).Stage c t queue)
    (fits : ∀ seq, x = .mirrored seq → (c.started.item now seq).all limits.event = true) :
    (SubmitAt.started run x').Stage c t' queue := by
  have ext := append_extends moves stage
  obtain ⟨writes, message, first⟩ := stage
  cases moves with
  | refused exc none => cases none.symm.trans first
  | @allocate n counter =>
    obtain rfl : n = 0 := Option.some.inj (counter.symm.trans first)
    exact ⟨⟨writes.owns, writes.unwritten, writes.named, writes.described, writes.sends⟩,
      message, rfl, Function.update_self ..⟩
  | mirror seq =>
    exact ⟨⟨writes.owns, writes.unwritten, writes.named, ext.described _ writes.described,
      writes.sends⟩, message, first⟩
  | @put seq item is _ =>
    obtain ⟨rfl, counter⟩ := first
    refine ⟨run, rfl, writes.named, writes.owns, writes.described, ?_, message, ?_⟩
    · exact congrArg Option.isSome counter
    · obtain ⟨payload, -, rfl⟩ := Option.map_eq_some_iff.mp is
      refine ⟨⟨1, "RunStarted", none, payload, now⟩, [], ?_, rfl, rfl⟩
      refine (Function.update_self ..).trans ?_
      show putEvent _ (t.events c.runId) = _
      rw [writes.unwritten]
      rfl
  | unput seq exc refused =>
    obtain ⟨payload, sends⟩ := Option.isSome_iff_exists.mp writes.sends
    have fits := fits seq rfl
    rw [AppendCall.item, sends, Option.map_some] at fits refused
    cases refused.symm.trans fits

/-! The invariant. -/

theorem owns_submit (moves : SubmitMoves limits c now t queue a t' queue' a')
    (stage : a'.Stage c t' queue') (owns : a.making = true ∨ a.made = true) :
    a'.making = true ∨ a'.made = true := by
  cases moves with
  | describe | count | send => exact .inl rfl
  | unput => exact stage.elim
  | _ => rcases owns with owns | owns <;> cases owns

theorem owns_started {x : AppendAt} {run : RunRecord}
    (stage : (SubmitAt.started run x).Stage c t queue) :
    (SubmitAt.started run x).making = true ∨ (SubmitAt.started run x).made = true := by
  cases x with
  | returned => exact .inr rfl
  | raised => exact stage.elim
  | _ => exact .inl rfl

/-- What a step of one submission leaves. -/
theorem agreed_go (inv : w.Agreed) (hi : w.calls[i]? = some (.submit c a))
    (ext : Extends w.table w.queue t queue c.runId) (stage : a'.Stage c t queue)
    (owns : a.making = true ∨ a.made = true → a'.making = true ∨ a'.made = true)
    (reserves : ∀ key r, t.idem key = some r → w.table.idem key = some r ∨
      c.idempotencyKey = key ∧ c.runId = r ∧ a'.making = true)
    (writes : ∀ j, j = c.runId ∨ t.events j = w.table.events j) :
    DynamoWorld.Agreed { w with table := t, queue, calls := w.calls.set i (.submit c a') } := by
  have mine : (w.calls.set i (.submit c a'))[i]? = some (.submit c a') := set_self hi
  refine ⟨fun k call hk => ?_, fun k d b hk => ?_, fun key r owned => ?_,
    drawn_set hi rfl inv.drawn, fun j some_ => ?_⟩
  · rcases set_cases hk with ⟨-, rfl⟩ | ⟨-, old⟩
    · exact ⟨c, a', rfl⟩
    · exact inv.submits k call old
  · rcases set_cases hk with ⟨-, is⟩ | ⟨ne, old⟩
    · cases is
      exact stage
    · refine stage_extends ext (fun e => ne ?_) (inv.stage k d b old)
      exact inv.drawn k i _ _ c.runId old hi (congrArg some e) rfl
  · rcases reserves key r owned with owned | ⟨isKey, isRun, making⟩
    · obtain ⟨k, d, b, hk, isKey, isRun, has⟩ := inv.owner key r owned
      by_cases e : k = i
      · subst e
        cases hi.symm.trans hk
        exact ⟨k, c, a', mine, isKey, isRun, owns has⟩
      · exact ⟨k, d, b, (List.getElem?_set_ne (Ne.symm e)).trans hk, isKey, isRun, has⟩
    · exact ⟨i, c, a', mine, isKey, isRun, .inl making⟩
  · rcases writes j with rfl | same
    · exact counted_set hi rfl ⟨_, List.mem_of_getElem? hi, rfl⟩
    · refine counted_set hi rfl (inv.written j ?_)
      rwa [← same]

theorem agreed_begin (inv : w.Agreed) (fresh : ∀ call ∈ w.calls, call.drew ≠ some c.runId) :
    DynamoWorld.Agreed { w with calls := w.calls ++ [.submit c .start] } := by
  have unwritten : w.table.events c.runId = [] := by
    by_contra written
    obtain ⟨call, mem, drew⟩ := inv.written c.runId written
    exact fresh call mem drew
  refine ⟨fun k call hk => ?_, fun k d b hk => ?_, fun key r owned => ?_,
    fun k k' one two j hk hk' drew drew' => ?_, fun j some_ => ?_⟩
  · rcases concat_cases hk with old | ⟨-, rfl⟩
    · exact inv.submits k call old
    · exact ⟨c, .start, rfl⟩
  · rcases concat_cases hk with old | ⟨-, is⟩
    · exact inv.stage k d b old
    · cases is
      exact unwritten
  · obtain ⟨k, d, b, hk, rest⟩ := inv.owner key r owned
    refine ⟨k, d, b, ?_, rest⟩
    exact (List.getElem?_append_left (List.getElem?_eq_some_iff.mp hk).1).trans hk
  · rcases concat_cases hk with old | ⟨rfl, rfl⟩
    · rcases concat_cases hk' with old' | ⟨rfl, rfl⟩
      · exact inv.drawn k k' one two j old old' drew drew'
      · obtain rfl := Option.some.inj drew'
        exact absurd drew (fresh one (List.mem_of_getElem? old))
    · rcases concat_cases hk' with old' | ⟨rfl, rfl⟩
      · obtain rfl := Option.some.inj drew
        exact absurd drew' (fresh two (List.mem_of_getElem? old'))
      · rfl
  · obtain ⟨call, mem, drew⟩ := inv.written j some_
    exact ⟨call, List.mem_append_left _ mem, drew⟩

/-- Where the submission of the run of a key has to be through, it is. -/
theorem found_made (inv : w.Agreed) {key : String} (owned : w.table.idem key = some r)
    (through : ∀ call ∈ w.calls, call.made r = true) : w.table.Made w.queue r := by
  obtain ⟨k, d, b, hk, -, rfl, -⟩ := inv.owner key r owned
  have made := through _ (List.mem_of_getElem? hk)
  simp only [DynamoCall.made, ne_eq, not_true_eq_false, decide_false, Bool.false_or] at made
  have stage := inv.stage k d b hk
  cases b with
  | returned run created =>
    obtain rfl : created = true := made
    obtain ⟨x, -, -, -, whole⟩ := stage
    exact whole
  | _ => cases made

theorem agreed_step {action : DynamoAction} (h : w.step limits action = some w')
    (ok : readsMade limits w action) (inv : w.Agreed) : w'.Agreed := by
  cases dynamo_happens h with
  | append c => exact ok.elim
  | submit c fresh => exact agreed_begin inv fresh
  | @appends i call call' c x x' t up hi in_ moves form =>
    obtain ⟨was, -⟩ | ⟨d, run, rfl, rfl, rfl⟩ := form
    · obtain ⟨d, b, is⟩ := inv.submits i call hi
      cases was.symm.trans is
    · have ready := ok _ hi
      have stage := stage_append moves (inv.stage i _ _ hi) fun seq is => by
        subst is
        exact ready
      refine agreed_go inv hi (append_extends moves (inv.stage i _ _ hi)) stage
        (fun _ => owns_started stage) (fun key r owned => .inl ?_) fun j => ?_
      · cases moves <;> exact owned
      · cases moves with
        | put =>
          by_cases own : j = d.runId
          · exact .inl own
          · exact .inr (Function.update_of_ne own ..)
        | _ => exact .inr rfl
  | @submits i c a a' t queue up hi moves =>
    have ready := ok _ hi
    have before := inv.stage i c a hi
    have stage := stage_submit moves before (fun e => by
        subst e
        exact ready)
      (fun owner e => by
        subst e
        exact found_made inv before (List.all_eq_true.mp ready))
    refine agreed_go inv hi (submit_extends moves before) stage (owns_submit moves stage)
      (fun key r owned => ?_) fun j => .inr ?_
    · cases moves with
      | reserve free =>
        by_cases own : key = c.idempotencyKey
        · have owned : Function.update w.table.idem c.idempotencyKey (some c.runId) key = some r :=
            owned
          rw [own, Function.update_self] at owned
          exact .inr ⟨own.symm, Option.some.inj owned, rfl⟩
        · exact .inl ((Function.update_of_ne own ..).symm.trans owned)
      | _ => exact .inl owned
    · cases moves <;> rfl
  | crash i => exact ⟨inv.submits, inv.stage, inv.owner, inv.drawn, inv.written⟩
  | tick => exact ⟨inv.submits, inv.stage, inv.owner, inv.drawn, inv.written⟩

theorem agreed_reaches {now : Int}
    (h : Reaches (DynamoWorld.step limits) (readsMade limits) (.init now) w) : w.Agreed :=
  h.invariant ⟨fun _ _ hk => (by cases hk), fun _ _ _ hk => (by cases hk),
      fun _ _ owned => (by cases owned), fun _ _ _ _ _ hk => (by cases hk),
      fun _ some_ => (some_ rfl).elim⟩
    fun _ _ _ _ inv ok step => agreed_step step ok inv

end SubmitLemmas

open SubmitLemmas

/-- Submissions agree: however the table and queue calls of submissions are interleaved and cut
by crashes, as long as no run is read before its submission has made it and what is submitted
can be put, META and RunStarted, whoever gets an answer for a key gets the one run of that key,
which is there with META, COUNTER, its message and RunStarted as first event; and of the
submissions of the key only that of the run is told that the run is new, which it is unless it
is still at work or has crashed. -/
theorem submissions_agree {limits : Limits} {now : Int} {w : DynamoWorld}
    (h : Reaches (DynamoWorld.step limits) (readsMade limits) (.init now) w) (key : String) :
    (∀ (i : Nat) (c : SubmitCall) run created,
      w.calls[i]? = some (.submit c (.returned run created)) → c.idempotencyKey = key →
      ∃ x, run = some x ∧ w.table.idem key = some x.runId ∧ w.table.Made w.queue x.runId ∧
        (created = true → x.runId = c.runId)) ∧
    ∀ r, w.table.idem key = some r → ∃ (i : Nat) (c : SubmitCall) (a : SubmitAt),
      w.calls[i]? = some (.submit c a) ∧ c.idempotencyKey = key ∧ c.runId = r ∧
        (a.made = true ∨ i ∈ w.crashed ∨ a.making = true) ∧
        ∀ (k : Nat) (d : SubmitCall) run,
          w.calls[k]? = some (.submit d (.returned run true)) → d.idempotencyKey = key → k = i := by
  have inv := agreed_reaches h
  refine ⟨fun i c run created hi isKey => ?_, fun r owned => ?_⟩
  · subst isKey
    cases created with
    | true =>
      obtain ⟨x, rfl, named, owns, made⟩ := inv.stage i c _ hi
      exact ⟨x, rfl, named ▸ owns, named ▸ made, fun _ => named⟩
    | false =>
      obtain ⟨x, rfl, owned, made⟩ := inv.stage i c _ hi
      exact ⟨x, rfl, owned, made, fun h => by cases h⟩
  · obtain ⟨i, c, a, hi, isKey, isRun, has⟩ := inv.owner key r owned
    refine ⟨i, c, a, hi, isKey, isRun, has.symm.imp id .inr, fun k d run hk same => ?_⟩
    obtain ⟨x, -, -, owns, -⟩ := inv.stage k d _ hk
    rw [same] at owns
    have drew : d.runId = c.runId := (Option.some.inj (owns.symm.trans owned)).trans isRun.symm
    exact inv.drawn k i _ _ c.runId hk hi (congrArg some drew) rfl

/-! ## Retries -/

namespace Sample

/-- The same submission once more, which draws another run id. -/
def resubmission : SubmitCall := { submission with runId := ⟨8⟩ }

/-- The second client finds the key taken while the first one is at work, and waits. -/
def waited : List DynamoAction :=
  [.submit submission, .submit resubmission, .go 0, .go 1, .go 1] ++ List.replicate 6 (.go 0) ++
    [.go 1]

/-- The client crashes with the key in hand and tries again. -/
def lost : List DynamoAction :=
  [.submit submission, .go 0, .crash 0, .submit resubmission, .go 1, .go 1, .go 1]

end Sample

/-- The run and the `created` that a submission has returned. -/
def DynamoCall.answer : DynamoCall → Option (Option Uuid × Bool)
  | .submit _ (.returned run created) => some (run.map (·.runId), created)
  | _ => none

theorem submissions_agree_waited : ∃ w,
    Reaches (DynamoWorld.step Sample.limits) (readsMade Sample.limits) (.init 0) w ∧
    w.calls.map (·.answer) = [some (some ⟨7⟩, true), some (some ⟨7⟩, false)] ∧
    (∀ (i : Nat) (c : SubmitCall) run created,
      w.calls[i]? = some (.submit c (.returned run created)) → c.idempotencyKey = "key" →
      ∃ x, run = some x ∧ w.table.idem "key" = some x.runId ∧ w.table.Made w.queue x.runId ∧
        (created = true → x.runId = c.runId)) := by
  obtain ⟨w, h, answers⟩ := run_exists (DynamoWorld.step Sample.limits)
    (readsMade Sample.limits) (.init 0) Sample.waited
    (fun w => w.calls.map (·.answer) = [some (some ⟨7⟩, true), some (some ⟨7⟩, false)])
    (by decide +kernel)
  exact ⟨w, run_reaches h, answers, (submissions_agree (run_reaches h) "key").1⟩

/-- A client that crashes with the key in hand gets `None` when it tries again. -/
theorem reserved_lost : ¬ ∀ w,
    Reaches (DynamoWorld.step Sample.limits) (fun _ _ => True) (.init 0) w →
    ∀ call ∈ w.calls, ∀ created, call.answer ≠ some (none, created) := by
  obtain ⟨w, h, answers⟩ := run_exists (DynamoWorld.step Sample.limits)
    (fun _ _ => True) (.init 0) Sample.lost
    (fun w => w.calls.map (·.answer) = [none, some (none, false)]) (by decide +kernel)
  intro exist
  have mem : some (none, false) ∈ w.calls.map (·.answer) := answers ▸ by simp
  obtain ⟨call, mem, answer⟩ := List.mem_map.mp mem
  exact exist w (run_reaches h) call mem false answer

end AnchorRuntime
