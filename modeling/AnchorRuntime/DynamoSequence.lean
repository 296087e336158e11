import AnchorRuntime.DynamoLog
import AnchorRuntime.Lib.Slots

/-!
# The numbers of the log in DynamoDB

An append is three writes: it takes a number from COUNTER, mirrors the number onto META, and
puts its item. What comes between the first and the last leaves a gap for good, and mirrors
may come in another order than their numbers.

Results: `sequenced_reaches`, the numbers taken are those of the items and of the appends in
progress; `log_sequenced`, where appends are neither cut off nor refused by the serialiser or
the service and no older number is mirrored over the latest, the numbers are gapless and META
has the last of them whenever no append is in progress.
-/

namespace AnchorRuntime

open Machine Slots DynamoLogLemmas

/-! ## Appends in progress -/

/-- The number an append has taken and not mirrored. -/
def AppendAt.unmirrored : AppendAt → Option Nat
  | .allocated seq => some seq
  | _ => none

namespace DynamoCall

/-- What `f` says of the append on the run that the call is in. -/
def ofAppend (f : AppendAt → Option Nat) (j : Uuid) (call : DynamoCall) : Option Nat :=
  call.appending.bind fun (c, a) => if c.runId = j then f a else none

/-- The number the call has taken for the run and has put no item under. -/
def pendingOn : Uuid → DynamoCall → Option Nat := ofAppend AppendAt.pending

/-- The number the call has taken for the run and has still to mirror. -/
def dueOn : Uuid → DynamoCall → Option Nat := ofAppend AppendAt.unmirrored

end DynamoCall

/-- The numbers taken for the run, by `COUNTER`. -/
def DynamoTable.seqOf (t : DynamoTable) (j : Uuid) : Nat := (t.counter j).getD 0

namespace DynamoWorld

/-- The numbers of the run that have been taken and are under no item. -/
def pending (w : DynamoWorld) (j : Uuid) : List Nat := w.calls.filterMap (DynamoCall.pendingOn j)

/-- The append that has taken the latest number of the run has still to mirror it. -/
def latestDue (w : DynamoWorld) (j : Uuid) : Bool :=
  w.calls.any fun call => call.dueOn j = some (w.table.seqOf j)

/-- No append to the run is in progress. -/
def Quiet (w : DynamoWorld) (j : Uuid) : Prop :=
  ∀ (i : Nat) (call : DynamoCall), w.calls[i]? = some call → i ∉ w.crashed → call.pendingOn j = none

end DynamoWorld

/-! ## The condition -/

section

variable (limits : Limits)

/-- With its next step the append keeps the numbers: a number is mirrored that is the latest,
or before the latest one is; an item can be serialised, and the service takes it. -/
def AppendCall.keeps (w : DynamoWorld) (c : AppendCall) : AppendAt → Bool
  | .allocated seq => seq = w.table.seqOf c.runId || w.latestDue c.runId
  | .mirrored seq => (c.item w.now seq).any limits.event
  | _ => true

/-- No append crashes with a number in hand, is refused its item, or mirrors an older number
over the latest. -/
def wholeAppends (w : DynamoWorld) : DynamoAction → Prop
  | .go i =>
    ∀ call ∈ w.calls[i]?, ∀ c a, call.appending = some (c, a) → c.keeps limits w a = true
  | .crash i => ∀ call ∈ w.calls[i]?, ∀ c a, call.appending = some (c, a) → a.pending = none
  | _ => True

instance (w : DynamoWorld) (a : DynamoAction) : Decidable (wholeAppends limits w a) :=
  match a with
  | .go i => decidable_of_iff (∀ call ∈ w.calls[i]?, ∀ ca ∈ call.appending,
      ca.1.keeps limits w ca.2 = true)
      ⟨fun h call mem c a is => h call mem (c, a) is, fun h call mem _ is => h call mem _ _ is⟩
  | .crash i => decidable_of_iff (∀ call ∈ w.calls[i]?, ∀ ca ∈ call.appending,
      ca.2.pending = none)
      ⟨fun h call mem c a is => h call mem (c, a) is, fun h call mem _ is => h call mem _ _ is⟩
  | .append _ | .submit _ | .tick _ => .isTrue trivial

end

/-! ## The invariant -/

/-- The submission has not made the counter of its run. -/
def SubmitAt.early : SubmitAt → Bool
  | .start | .taken | .found _ | .reserved | .described _ => true
  | _ => false

structure DynamoWorld.Sequenced (w : DynamoWorld) : Prop where
  items : ∀ j, ((w.table.events j).map (·.seq) ++ w.pending j).Perm
    (List.range' 1 (w.table.seqOf j))
  mirror : ∀ j run, w.table.runs j = some run →
    run.eventSeq = w.table.seqOf j ∨ w.latestDue j = true
  new : ∀ (i : Nat) (c : SubmitCall) (a : SubmitAt), w.calls[i]? = some (.submit c a) →
    a.early = true → w.table.counter c.runId = none
  drawn : ∀ (i i' : Nat) (call call' : DynamoCall) (j : Uuid), w.calls[i]? = some call →
    w.calls[i']? = some call' → call.drew = some j → call'.drew = some j → i = i'
  counted : ∀ j, (w.table.counter j).isSome = true → ∃ call ∈ w.calls, call.drew = some j
  whole : ∀ i ∈ w.crashed, ∀ call : DynamoCall, w.calls[i]? = some call →
    ∀ j, call.pendingOn j = none

namespace SequenceLemmas

variable {limits : Limits} {w w' : DynamoWorld} {t t' : DynamoTable} {now : Int}
  {c : AppendCall} {a a' : AppendAt} {i : Nat} {j : Uuid} {call call' : DynamoCall}

/-- The moves of an append. -/
inductive AppendMoves (limits : Limits) (c : AppendCall) (now : Int) (t : DynamoTable) :
    AppendAt → DynamoTable → AppendAt → Prop
  | refused (exc : Exn) : t.counter c.runId = none →
      AppendMoves limits c now t .start t (.raised exc)
  | allocate {n : Nat} : t.counter c.runId = some n →
      AppendMoves limits c now t .start
        { t with counter := Function.update t.counter c.runId (some (n + 1)) } (.allocated (n + 1))
  | mirror (seq : Nat) :
      AppendMoves limits c now t (.allocated seq)
        { t with
          runs := Function.update t.runs c.runId
            ((t.runs c.runId).map fun run => { run with eventSeq := seq, updatedAt := now }) }
        (.mirrored seq)
  | put {seq : Nat} {item : EventItem} : c.item now seq = some item →
      limits.event item = true →
      AppendMoves limits c now t (.mirrored seq)
        { t with events := Function.update t.events c.runId (putEvent item (t.events c.runId)) }
        (.returned seq)
  | unput (seq : Nat) (exc : Exn) : (c.item now seq).any limits.event = false →
      AppendMoves limits c now t (.mirrored seq) t (.raised exc)

theorem append_moves (h : c.step limits now t a = some (t', a')) :
    AppendMoves limits c now t a t' a' := by
  cases a with
  | start =>
    cases counter : t.counter c.runId with
    | none =>
      simp only [AppendCall.step, counter] at h
      cases h
      exact .refused _ counter
    | some n =>
      simp only [AppendCall.step, counter] at h
      cases h
      exact .allocate counter
  | allocated seq =>
    cases h
    exact .mirror seq
  | mirrored seq =>
    cases is : c.item now seq with
    | none =>
      simp only [AppendCall.step, is] at h
      cases h
      exact .unput seq _ (by rw [is]; rfl)
    | some item =>
      simp only [AppendCall.step, is] at h
      split at h
      · next fits =>
        cases h
        exact .put is fits
      · next large =>
        cases h
        exact .unput seq _ (by rw [is, Option.any_some]; simpa using large)
  | _ => cases h

theorem item_seq {seq : Nat} {item : EventItem} (is : c.item now seq = some item) :
    item.seq = seq := by
  obtain ⟨payload, -, rfl⟩ := Option.map_eq_some_iff.mp is
  rfl

/-- The moves of a submission before its append. -/
inductive SubmitMoves (limits : Limits) (c : SubmitCall) (now : Int) (t : DynamoTable)
    (queue : List Uuid) : SubmitAt → DynamoTable → List Uuid → SubmitAt → Prop
  | reserve : t.idem c.idempotencyKey = none →
      SubmitMoves limits c now t queue .start
        { t with idem := Function.update t.idem c.idempotencyKey (some c.runId) } queue .reserved
  | taken {owner : Uuid} : t.idem c.idempotencyKey = some owner →
      SubmitMoves limits c now t queue .start t queue .taken
  | found {owner : Uuid} : t.idem c.idempotencyKey = some owner →
      SubmitMoves limits c now t queue .taken t queue (.found owner)
  | missing (exc : Exn) : t.idem c.idempotencyKey = none →
      SubmitMoves limits c now t queue .taken t queue (.raised exc)
  | read (owner : Uuid) :
      SubmitMoves limits c now t queue (.found owner) t queue (.returned (t.runs owner) false)
  | describe {row run : RunRecord} : c.row now = some row → limits.run row = true →
      run.runId = c.runId →
      SubmitMoves limits c now t queue .reserved
        { t with runs := Function.update t.runs c.runId (some row) } queue (.described run)
  | unput (exc : Exn) : (c.row now).any limits.run = false →
      SubmitMoves limits c now t queue .reserved t queue (.raised exc)
  | count (run : RunRecord) :
      SubmitMoves limits c now t queue (.described run)
        { t with counter := Function.update t.counter c.runId (some 0) } queue (.counted run)
  | send (run : RunRecord) :
      SubmitMoves limits c now t queue (.counted run) t (queue ++ [c.runId]) (.starting run .start)

theorem row_new {c : SubmitCall} {row : RunRecord} (is : c.row now = some row) :
    row.runId = c.runId ∧ row.eventSeq = 0 := by
  obtain ⟨payload, -, is⟩ := Option.bind_eq_some_iff.mp is
  obtain ⟨budget, -, is⟩ := Option.bind_eq_some_iff.mp is
  obtain ⟨workflow, -, is⟩ := Option.bind_eq_some_iff.mp is
  cases is
  exact ⟨rfl, rfl⟩

/-- A submission makes one of its own moves, or one of its append. -/
theorem submit_moves {c : SubmitCall} {queue queue' : List Uuid} {a a' : SubmitAt}
    (h : c.step limits now t queue a = some (t', queue', a')) :
    SubmitMoves limits c now t queue a t' queue' a' ∨
      ∃ run b b', a = .starting run b ∧ AppendMoves limits c.started now t b t' b' ∧
        a' = .started run b' ∧ queue' = queue := by
  cases a with
  | start =>
    cases found : t.idem c.idempotencyKey with
    | none =>
      simp only [SubmitCall.step, found] at h
      cases h
      exact .inl (.reserve found)
    | some owner =>
      simp only [SubmitCall.step, found] at h
      cases h
      exact .inl (.taken found)
  | taken =>
    cases found : t.idem c.idempotencyKey with
    | none =>
      simp only [SubmitCall.step, found] at h
      cases h
      exact .inl (.missing _ found)
    | some owner =>
      simp only [SubmitCall.step, found] at h
      cases h
      exact .inl (.found found)
  | found owner =>
    cases h
    exact .inl (.read owner)
  | reserved =>
    cases is : c.row now with
    | none =>
      simp only [SubmitCall.step, is] at h
      cases h
      exact .inl (.unput _ (by rw [is]; rfl))
    | some row =>
      simp only [SubmitCall.step, is] at h
      split at h
      · next fits =>
        cases h
        exact .inl (.describe is fits (row_new is).1)
      · next large =>
        cases h
        exact .inl (.unput _ (by rw [is, Option.any_some]; simpa using large))
  | described run =>
    cases h
    exact .inl (.count run)
  | counted run =>
    cases h
    exact .inl (.send run)
  | starting run b =>
    obtain ⟨⟨t₁, b'⟩, step, is⟩ := Option.map_eq_some_iff.mp h
    cases is
    exact .inr ⟨run, b, b', rfl, append_moves step, rfl, rfl⟩
  | _ => cases h

end SequenceLemmas

/-- The append that the call is in moves, its own or the one at the end of a submission. -/
def DynamoCall.Moves (call : DynamoCall) (c : AppendCall) (a a' : AppendAt)
    (call' : DynamoCall) : Prop :=
  call = .append c a ∧ call' = .append c a' ∨ ∃ d run, c = d.started ∧
    call = .submit d (.starting run a) ∧ call' = .submit d (.started run a')

namespace SequenceLemmas

variable {limits : Limits} {w w' : DynamoWorld} {t t' : DynamoTable} {now : Int}
  {c : AppendCall} {a a' : AppendAt} {i : Nat} {j : Uuid} {call call' : DynamoCall}

/-- What an action does. -/
inductive DynamoHappens (limits : Limits) (w : DynamoWorld) : DynamoAction → DynamoWorld → Prop
  | append (c : AppendCall) :
      DynamoHappens limits w (.append c) { w with calls := w.calls ++ [.append c .start] }
  | submit (c : SubmitCall) : (∀ call ∈ w.calls, call.drew ≠ some c.runId) →
      DynamoHappens limits w (.submit c) { w with calls := w.calls ++ [.submit c .start] }
  | appends {i : Nat} {call call' : DynamoCall} {c : AppendCall} {a a' : AppendAt}
      {t : DynamoTable} : i ∉ w.crashed → w.calls[i]? = some call →
      call.appending = some (c, a) → AppendMoves limits c w.now w.table a t a' →
      call.Moves c a a' call' →
      DynamoHappens limits w (.go i) { w with table := t, calls := w.calls.set i call' }
  | submits {i : Nat} {c : SubmitCall} {a a' : SubmitAt} {t : DynamoTable} {queue : List Uuid} :
      i ∉ w.crashed → w.calls[i]? = some (.submit c a) →
      SubmitMoves limits c w.now w.table w.queue a t queue a' →
      DynamoHappens limits w (.go i)
        { w with table := t, queue, calls := w.calls.set i (.submit c a') }
  | crash (i : Nat) : DynamoHappens limits w (.crash i) { w with crashed := i :: w.crashed }
  | tick (elapsed : Nat) : DynamoHappens limits w (.tick elapsed) { w with now := w.now + elapsed }

theorem dynamo_happens {action : DynamoAction} (h : w.step limits action = some w') :
    DynamoHappens limits w action w' := by
  cases action with
  | append c =>
    cases h
    exact .append c
  | submit c =>
    simp only [DynamoWorld.step] at h
    split at h
    · next fresh =>
      cases h
      exact .submit c (by simpa using fresh)
    · cases h
  | go i =>
    simp only [DynamoWorld.step] at h
    split at h
    · cases h
    · next up =>
      have up : i ∉ w.crashed := by simpa using up
      split at h
      · cases h
      · next c a hcall =>
        obtain ⟨⟨t, a'⟩, step, is⟩ := Option.map_eq_some_iff.mp h
        cases is
        exact .appends up hcall rfl (append_moves step) (.inl ⟨rfl, rfl⟩)
      · next c a hcall =>
        obtain ⟨⟨t, queue, a'⟩, step, is⟩ := Option.map_eq_some_iff.mp h
        cases is
        rcases submit_moves step with moves | ⟨run, b, b', rfl, moves, rfl, rfl⟩
        · exact .submits up hcall moves
        · exact .appends up hcall rfl moves (.inr ⟨c, run, rfl, rfl, rfl⟩)
  | crash i =>
    cases h
    exact .crash i
  | tick elapsed =>
    cases h
    exact .tick elapsed

/-! Numbers in hand. -/

theorem putEvent_perm {x : EventItem} {l : List EventItem} (new : ∀ y ∈ l, y.seq ≠ x.seq) :
    ((putEvent x l).map (·.seq)).Perm (x.seq :: l.map (·.seq)) := by
  induction l with
  | nil => exact .refl _
  | cons z l ih =>
    unfold putEvent
    split
    · next same => exact absurd (eventSk_inj same).symm (new z List.mem_cons_self)
    · split
      · exact .refl _
      · exact ((ih fun y mem => new y (List.mem_cons_of_mem _ mem)).cons _).trans (.swap ..)

/-- The append that a call is in after its move, if it still is in one. -/
theorem ofAppend_moved {f : AppendAt → Option Nat} (returned : ∀ seq, f (.returned seq) = none)
    (raised : ∀ exc, f (.raised exc) = none)
    (form : call.Moves c a a' call') (j : Uuid) :
    call'.ofAppend f j = if c.runId = j then f a' else none := by
  rcases form with ⟨-, rfl⟩ | ⟨d, run, rfl, -, rfl⟩
  · rfl
  · cases a' with
    | returned seq =>
      rw [returned]
      exact (ite_self none).symm
    | raised exc =>
      rw [raised]
      exact (ite_self none).symm
    | _ => rfl

theorem ofAppend_now {f : AppendAt → Option Nat} (h : call.appending = some (c, a)) (j : Uuid) :
    call.ofAppend f j = if c.runId = j then f a else none := by
  rw [DynamoCall.ofAppend, h]
  rfl

theorem drew_moved
    (form : call.Moves c a a' call') :
    call'.drew = call.drew := by
  rcases form with ⟨rfl, rfl⟩ | ⟨d, run, rfl, rfl, rfl⟩ <;> rfl

theorem early_moved {d : SubmitCall} {b : SubmitAt}
    (form : call.Moves c a a' call')
    (is : call' = .submit d b) : b.early = false := by
  rcases form with ⟨-, rfl⟩ | ⟨_, run, rfl, -, rfl⟩
  · cases is
  · cases is
    cases a' <;> rfl

/-- Who is due and does not move is still due. -/
theorem latestDue_set {table : DynamoTable} {queue : List Uuid} (hi : w.calls[i]? = some call)
    (due : w.latestDue j = true) (same : table.seqOf j = w.table.seqOf j) :
    call.dueOn j = some (w.table.seqOf j) ∨
      DynamoWorld.latestDue { w with table, queue, calls := w.calls.set i call' } j = true := by
  simp only [DynamoWorld.latestDue, List.any_eq_true, decide_eq_true_eq] at due ⊢
  obtain ⟨other, mem, due⟩ := due
  obtain ⟨k, hk⟩ := List.getElem?_of_mem mem
  by_cases e : k = i
  · subst e
    obtain rfl := Option.some.inj (hi.symm.trans hk)
    exact .inl due
  · refine .inr ⟨other, List.mem_of_getElem? (i := k) ?_, by rw [same]; exact due⟩
    rw [List.getElem?_set_ne (Ne.symm e)]
    exact hk

theorem seqOf_update (t : DynamoTable) (r : Uuid) (n : Nat) (j : Uuid) :
    DynamoTable.seqOf { t with counter := Function.update t.counter r (some n) } j =
      if j = r then n else t.seqOf j := by
  simp only [DynamoTable.seqOf, Function.update_apply]
  split <;> rfl

/-- An append that moves keeps the numbers taken those of the items and of the appends in
progress. -/
theorem items_appends {queue : List Uuid} (hi : w.calls[i]? = some call)
    (in_ : call.appending = some (c, a)) (moves : AppendMoves limits c now w.table a t a')
    (form : call.Moves c a a' call') (keeps : c.keeps limits w a = true) (at_ : now = w.now)
    (inv : ∀ j, ((w.table.events j).map (·.seq) ++ w.pending j).Perm
      (List.range' 1 (w.table.seqOf j))) (j : Uuid) :
    ((t.events j).map (·.seq) ++
      DynamoWorld.pending { w with table := t, queue, calls := w.calls.set i call' } j).Perm
      (List.range' 1 (t.seqOf j)) := by
  have set := perm_filterMap_set (y := call') (DynamoCall.pendingOn j) hi
  rw [DynamoCall.pendingOn, ofAppend_now in_,
    ofAppend_moved (fun _ => rfl) (fun _ => rfl) form] at set
  have inv := inv j
  by_cases own : c.runId = j
  · rw [if_pos own, if_pos own] at set
    subst own
    cases moves with
    | refused exc none =>
      simp only [AppendAt.pending, Option.toList_none, List.append_nil] at set
      exact (set.append_left _).trans inv
    | @allocate n counter =>
      simp only [AppendAt.pending, Option.toList_none, Option.toList_some, List.append_nil] at set
      have before : w.table.seqOf c.runId = n := by rw [DynamoTable.seqOf, counter]; rfl
      rw [before] at inv
      rw [seqOf_update, if_pos rfl, List.range'_1_concat, Nat.add_comm 1 n]
      refine (set.append_left _).trans ?_
      rw [← List.append_assoc]
      exact inv.append_right _
    | mirror seq =>
      simp only [AppendAt.pending, Option.toList_some] at set
      exact (((List.perm_append_right_iff _).mp set).append_left _).trans inv
    | @put seq item is fits =>
      simp only [AppendAt.pending, Option.toList_none, Option.toList_some, List.append_nil] at set
      -- the number is under no item yet
      have taken := inv.nodup_iff.mpr List.nodup_range'
      have seq_is := item_seq is
      have new : ∀ y ∈ w.table.events c.runId, y.seq ≠ item.seq := by
        intro y mem same
        refine (List.disjoint_of_nodup_append taken) (List.mem_map_of_mem mem) ?_
        rw [same, seq_is]
        exact set.mem_iff.mp (by simp)
      show (((Function.update w.table.events c.runId _) c.runId).map _ ++ _).Perm _
      rw [Function.update_self]
      refine ((putEvent_perm new).append_right _).trans (.trans ?_ inv)
      rw [List.cons_append, seq_is]
      refine List.Perm.trans ?_ (set.append_left _)
      rw [← List.append_assoc]
      exact (List.perm_append_singleton seq _).symm
    | unput seq exc refused =>
      rw [at_] at refused
      cases refused.symm.trans keeps
  · rw [if_neg own, if_neg own] at set
    simp only [Option.toList_none, List.append_nil] at set
    have same : t.events j = w.table.events j ∧ t.seqOf j = w.table.seqOf j := by
      cases moves with
      | allocate => exact ⟨rfl, by rw [seqOf_update, if_neg (Ne.symm own)]⟩
      | put => exact ⟨Function.update_of_ne (Ne.symm own) .., rfl⟩
      | _ => exact ⟨rfl, rfl⟩
    rw [same.1, same.2]
    exact (set.append_left _).trans inv

/-- An append that moves leaves on META the latest number, or it is due. -/
theorem mirror_appends {queue : List Uuid} (hi : w.calls[i]? = some call)
    (in_ : call.appending = some (c, a)) (moves : AppendMoves limits c now w.table a t a')
    (form : call.Moves c a a' call') (keeps : c.keeps limits w a = true)
    (inv : ∀ j run, w.table.runs j = some run →
      run.eventSeq = w.table.seqOf j ∨ w.latestDue j = true) (j : Uuid) (run : RunRecord)
    (row : t.runs j = some run) : run.eventSeq = t.seqOf j ∨ DynamoWorld.latestDue
      { w with table := t, queue, calls := w.calls.set i call' } j = true := by
  have mine := ofAppend_moved (f := AppendAt.unmirrored) (fun _ => rfl) (fun _ => rfl) form j
  have was := ofAppend_now (f := AppendAt.unmirrored) in_ j
  -- a call that is due and is another call stays due
  have later : t.seqOf j = w.table.seqOf j → call.dueOn j = none → w.latestDue j = true →
      DynamoWorld.latestDue
        { w with table := t, queue, calls := w.calls.set i call' } j = true := by
    intro same idle due
    refine (latestDue_set hi due same).resolve_left fun h => ?_
    cases idle.symm.trans h
  have kept : t.runs j = w.table.runs j → t.seqOf j = w.table.seqOf j → call.dueOn j = none →
      run.eventSeq = t.seqOf j ∨ DynamoWorld.latestDue
        { w with table := t, queue, calls := w.calls.set i call' } j = true := by
    intro rows same idle
    rw [rows] at row
    exact (inv j run row).imp (fun h => h.trans same.symm) (later same idle)
  by_cases own : c.runId = j
  · subst own
    rw [if_pos rfl] at mine was
    cases moves with
    | refused => exact kept rfl rfl was
    | @allocate n counter =>
      right
      have after := seqOf_update w.table c.runId (n + 1) c.runId
      rw [if_pos rfl] at after
      simp only [DynamoWorld.latestDue, List.any_eq_true, decide_eq_true_eq]
      refine ⟨call', List.mem_of_getElem? (i := i) ?_, mine.trans (congrArg some after.symm)⟩
      rw [List.getElem?_set_self (List.getElem?_eq_some_iff.mp hi).1]
    | mirror seq =>
      have row : Function.update w.table.runs c.runId _ c.runId = some run := row
      rw [Function.update_self, Option.map_eq_some_iff] at row
      obtain ⟨old, -, rfl⟩ := row
      simp only [AppendCall.keeps, Bool.or_eq_true, decide_eq_true_eq] at keeps
      rcases keeps with latest | due
      · exact .inl latest
      · refine (latestDue_set hi due (by rfl)).imp (fun h => ?_) id
        exact Option.some.inj (was.symm.trans h)
    | put => exact kept rfl rfl was
    | unput => exact kept rfl rfl was
  · rw [if_neg own] at was
    cases moves with
    | allocate => exact kept rfl (by rw [seqOf_update, if_neg (Ne.symm own)]) was
    | mirror => exact kept (Function.update_of_ne (Ne.symm own) ..) rfl was
    | _ => exact kept rfl rfl was

/-- Calls that move keep what they drew. -/
theorem drawn_set {calls : List DynamoCall} (hi : calls[i]? = some call)
    (same : call'.drew = call.drew)
    (inv : ∀ (i i' : Nat) (call call' : DynamoCall) (j : Uuid), calls[i]? = some call →
      calls[i']? = some call' → call.drew = some j → call'.drew = some j → i = i')
    (k k' : Nat) (one two : DynamoCall) (j : Uuid) (hk : (calls.set i call')[k]? = some one)
    (hk' : (calls.set i call')[k']? = some two) (drew : one.drew = some j)
    (drew' : two.drew = some j) : k = k' := by
  rcases set_cases hk with ⟨rfl, rfl⟩ | ⟨-, old⟩
  · rcases set_cases hk' with ⟨rfl, rfl⟩ | ⟨-, old'⟩
    · rfl
    · exact inv _ _ _ _ j hi old' (same ▸ drew) drew'
  · rcases set_cases hk' with ⟨rfl, rfl⟩ | ⟨-, old'⟩
    · exact inv _ _ _ _ j old hi drew (same ▸ drew')
    · exact inv _ _ _ _ j old old' drew drew'

theorem counted_set {calls : List DynamoCall} (hi : calls[i]? = some call)
    (same : call'.drew = call.drew) (h : ∃ other ∈ calls, other.drew = some j) :
    ∃ other ∈ calls.set i call', other.drew = some j := by
  obtain ⟨other, mem, drew⟩ := h
  obtain ⟨k, hk⟩ := List.getElem?_of_mem mem
  by_cases e : k = i
  · subst e
    obtain rfl := Option.some.inj (hi.symm.trans hk)
    refine ⟨call', List.mem_of_getElem? (i := k) ?_, same.trans drew⟩
    rw [List.getElem?_set_self (List.getElem?_eq_some_iff.mp hi).1]
  · refine ⟨other, List.mem_of_getElem? (i := k) ?_, drew⟩
    rw [List.getElem?_set_ne (Ne.symm e)]
    exact hk

/-- What a call that begins leaves. -/
theorem sequenced_begin (inv : w.Sequenced) (idle : ∀ f j, call.ofAppend f j = none ∨
      ∃ c, call = .append c .start)
    (fresh : ∀ j, call.drew = some j → ∀ other ∈ w.calls, other.drew ≠ some j) :
    DynamoWorld.Sequenced { w with calls := w.calls ++ [call] } := by
  have nothing : ∀ j, call.pendingOn j = none := by
    intro j
    rcases idle AppendAt.pending j with h | ⟨c, rfl⟩
    · exact h
    · exact ite_self none
  have uncounted : ∀ j, call.drew = some j → w.table.counter j = none := by
    intro j drew
    cases counted : w.table.counter j with
    | none => rfl
    | some n =>
      obtain ⟨other, mem, its⟩ := inv.counted j (by rw [counted]; rfl)
      exact absurd its (fresh j drew other mem)
  refine ⟨fun j => ?_, fun j run row => ?_, fun k c a hk early => ?_,
    fun k k' one two j hk hk' => ?_, fun j some_ => ?_, fun k down other hk j => ?_⟩
  · rw [DynamoWorld.pending, List.filterMap_append]
    simp only [List.filterMap_cons, nothing, List.filterMap_nil, List.append_nil]
    exact inv.items j
  · refine (inv.mirror j run row).imp id fun due => ?_
    rw [DynamoWorld.latestDue, List.any_append]
    exact Bool.or_eq_true_iff.mpr (.inl due)
  · rcases concat_cases hk with old | ⟨-, is⟩
    · exact inv.new k c a old early
    · exact uncounted c.runId (by rw [← is]; rfl)
  · intro drew drew'
    rcases concat_cases hk with old | ⟨rfl, rfl⟩
    · rcases concat_cases hk' with old' | ⟨rfl, rfl⟩
      · exact inv.drawn k k' one two j old old' drew drew'
      · exact absurd drew (fresh j drew' one (List.mem_of_getElem? old))
    · rcases concat_cases hk' with old' | ⟨rfl, rfl⟩
      · exact absurd drew' (fresh j drew two (List.mem_of_getElem? old'))
      · rfl
  · obtain ⟨other, mem, drew⟩ := inv.counted j some_
    exact ⟨other, List.mem_append_left _ mem, drew⟩
  · rcases concat_cases hk with old | ⟨-, rfl⟩
    · exact inv.whole k down other old j
    · exact nothing j

/-- What an append that moves leaves. -/
theorem sequenced_appends {queue : List Uuid} (inv : w.Sequenced) (up : i ∉ w.crashed)
    (hi : w.calls[i]? = some call) (in_ : call.appending = some (c, a))
    (moves : AppendMoves limits c now w.table a t a') (form : call.Moves c a a' call')
    (keeps : c.keeps limits w a = true) (at_ : now = w.now) :
    DynamoWorld.Sequenced { w with table := t, queue, calls := w.calls.set i call' } := by
  have same := drew_moved form
  refine ⟨items_appends hi in_ moves form keeps at_ inv.items,
    mirror_appends hi in_ moves form keeps inv.mirror, fun k d b hk early => ?_,
    drawn_set hi same inv.drawn, fun j some_ => ?_, fun k down other hk j => ?_⟩
  · rcases set_cases hk with ⟨rfl, is⟩ | ⟨-, old⟩
    · exact absurd early (by rw [early_moved form is.symm]; simp)
    · have none := inv.new k d b old early
      cases moves with
      | @allocate n counter =>
        have other : d.runId ≠ c.runId := fun e => by cases (e ▸ none).symm.trans counter
        exact (Function.update_of_ne other _ _).trans none
      | _ => exact none
  · refine counted_set hi same (inv.counted j ?_)
    cases moves with
    | @allocate n counter =>
      by_cases e : j = c.runId
      · rw [e, counter]
        rfl
      · have some_ : (Function.update w.table.counter c.runId _ j).isSome = true := some_
        rwa [Function.update_of_ne e] at some_
    | _ => exact some_
  · rcases set_cases hk with ⟨rfl, -⟩ | ⟨-, old⟩
    · exact absurd down up
    · exact inv.whole k down other old j

/-! What a submission leaves with one of its own moves. -/

section

variable {d : SubmitCall} {b b' : SubmitAt} {queue : List Uuid}

theorem ofAppend_before (moves : SubmitMoves limits d now w.table w.queue b t queue b')
    (f : AppendAt → Option Nat) (j : Uuid) : (DynamoCall.submit d b).ofAppend f j = none := by
  cases moves <;> rfl

theorem pendingOn_after (moves : SubmitMoves limits d now w.table w.queue b t queue b')
    (j : Uuid) : (DynamoCall.submit d b').pendingOn j = none := by
  cases moves with
  | send run => exact ite_self none
  | _ => rfl

/-- A submission changes the counter of its run only, and starts it where there is none. -/
theorem seqOf_submits (inv : w.Sequenced) (hi : w.calls[i]? = some (.submit d b))
    (moves : SubmitMoves limits d now w.table w.queue b t queue b') (j : Uuid) :
    t.seqOf j = w.table.seqOf j := by
  cases moves with
  | count run =>
    rw [seqOf_update]
    split
    · next own =>
      rw [own, DynamoTable.seqOf, inv.new i d _ hi rfl]
      rfl
    · rfl
  | _ => rfl

theorem items_submits (inv : w.Sequenced) (hi : w.calls[i]? = some (.submit d b))
    (moves : SubmitMoves limits d now w.table w.queue b t queue b') (j : Uuid) :
    ((t.events j).map (·.seq) ++ DynamoWorld.pending
      { w with table := t, queue, calls := w.calls.set i (.submit d b') } j).Perm
      (List.range' 1 (t.seqOf j)) := by
  have set := perm_filterMap_set (y := .submit d b') (DynamoCall.pendingOn j) hi
  rw [pendingOn_after moves j,
    show (DynamoCall.submit d b).pendingOn j = none from ofAppend_before moves _ j] at set
  simp only [Option.toList_none, List.append_nil] at set
  have events : t.events = w.table.events := by cases moves <;> rfl
  rw [events, seqOf_submits inv hi moves]
  exact (set.append_left _).trans (inv.items j)

theorem mirror_submits (inv : w.Sequenced) (hi : w.calls[i]? = some (.submit d b))
    (moves : SubmitMoves limits d now w.table w.queue b t queue b') (j : Uuid) (run : RunRecord)
    (row : t.runs j = some run) : run.eventSeq = t.seqOf j ∨ DynamoWorld.latestDue
      { w with table := t, queue, calls := w.calls.set i (.submit d b') } j = true := by
  have seq := seqOf_submits inv hi moves
  have old : w.table.runs j = some run → run.eventSeq = t.seqOf j ∨ DynamoWorld.latestDue
      { w with table := t, queue, calls := w.calls.set i (.submit d b') } j = true := by
    intro row
    refine (inv.mirror j run row).imp (fun h => h.trans (seq j).symm) fun due => ?_
    exact (latestDue_set hi due (seq j)).resolve_left fun h => by
      cases (ofAppend_before moves AppendAt.unmirrored j).symm.trans h
  cases moves with
  | @describe row' _ is =>
    have row : Function.update w.table.runs d.runId (some row') j = some run := row
    by_cases own : j = d.runId
    · subst own
      rw [Function.update_self] at row
      obtain rfl := Option.some.inj row
      left
      rw [seq, DynamoTable.seqOf, inv.new i d _ hi rfl, (row_new is).2]
      rfl
    · rw [Function.update_of_ne own] at row
      exact old row
  | _ => exact old row

theorem new_submits (inv : w.Sequenced) (hi : w.calls[i]? = some (.submit d b))
    (moves : SubmitMoves limits d now w.table w.queue b t queue b') {k : Nat} {c : SubmitCall}
    {a : SubmitAt} (hk : (w.calls.set i (.submit d b'))[k]? = some (.submit c a))
    (early : a.early = true) : t.counter c.runId = none := by
  rcases set_cases hk with ⟨rfl, is⟩ | ⟨ne, prior⟩
  · cases is
    cases moves with
    | count | send => cases early
    | _ => exact inv.new k d _ hi rfl
  · have none := inv.new k c a prior early
    cases moves with
    | count run =>
      have other : c.runId ≠ d.runId := fun e =>
        ne (inv.drawn k i _ _ c.runId prior hi rfl (congrArg some e.symm))
      exact (Function.update_of_ne other _ _).trans none
    | _ => exact none

theorem counted_submits (inv : w.Sequenced) (hi : w.calls[i]? = some (.submit d b))
    (moves : SubmitMoves limits d now w.table w.queue b t queue b')
    (some_ : (t.counter j).isSome = true) :
    ∃ call ∈ w.calls.set i (.submit d b'), call.drew = some j := by
  by_cases own : j = d.runId
  · exact counted_set hi rfl ⟨_, List.mem_of_getElem? hi, congrArg some own.symm⟩
  · refine counted_set hi rfl (inv.counted j ?_)
    cases moves with
    | count run =>
      have some_ : (Function.update w.table.counter d.runId _ j).isSome = true := some_
      rwa [Function.update_of_ne own] at some_
    | _ => exact some_

end

/-- What a crash leaves of a call that has no number in hand. -/
theorem sequenced_crash (inv : w.Sequenced)
    (idle : ∀ call ∈ w.calls[i]?, ∀ c a, call.appending = some (c, a) → a.pending = none) :
    DynamoWorld.Sequenced { w with crashed := i :: w.crashed } := by
  refine ⟨inv.items, inv.mirror, inv.new, inv.drawn, inv.counted, fun k down other hk j => ?_⟩
  rcases List.mem_cons.mp down with rfl | down
  · cases in_ : other.appending with
    | none => simp [DynamoCall.pendingOn, DynamoCall.ofAppend, in_]
    | some ca =>
      have none := idle other hk ca.1 ca.2 in_
      rw [DynamoCall.pendingOn, ofAppend_now in_, none]
      exact ite_self _
  · exact inv.whole k down other hk j

theorem sequenced_step {action : DynamoAction} (h : w.step limits action = some w')
    (ok : wholeAppends limits w action) (inv : w.Sequenced) : w'.Sequenced := by
  cases dynamo_happens h with
  | append c => exact sequenced_begin inv (fun _ _ => .inr ⟨c, rfl⟩) fun _ drew => by cases drew
  | submit c fresh =>
    refine sequenced_begin inv (fun _ _ => .inl rfl) fun j drew => ?_
    obtain rfl := Option.some.inj drew
    exact fresh
  | @appends i call call' c a a' t up hi in_ moves form =>
    exact sequenced_appends inv up hi in_ moves form (ok call hi c a in_) rfl
  | @submits i c a a' t queue up hi moves =>
    refine ⟨items_submits inv hi moves, mirror_submits inv hi moves,
      fun k d b hk => new_submits inv hi moves hk, drawn_set hi rfl inv.drawn,
      fun j => counted_submits inv hi moves, fun k down other hk j => ?_⟩
    rcases set_cases hk with ⟨rfl, -⟩ | ⟨-, old⟩
    · exact absurd down up
    · exact inv.whole k down other old j
  | crash i => exact sequenced_crash inv ok
  | tick => exact ⟨inv.items, inv.mirror, inv.new, inv.drawn, inv.counted, inv.whole⟩

end SequenceLemmas

open SequenceLemmas

theorem sequenced_reaches {limits : Limits} {now : Int} {ok : DynamoWorld → DynamoAction → Prop}
    {w : DynamoWorld} (h : Reaches (DynamoWorld.step limits) ok (.init now) w)
    (whole : ∀ w a, ok w a → wholeAppends limits w a) : w.Sequenced :=
  h.invariant ⟨fun _ => .refl _, fun _ _ row => (by cases row), fun _ _ _ hk => (by cases hk),
      fun _ _ _ _ _ hk => (by cases hk), fun _ some_ => (by cases some_),
      fun _ down => (by cases down)⟩
    fun _ _ _ _ inv good step => sequenced_step step (whole _ _ good) inv

/-- Log sequencing: whatever items the service takes, and however the table calls of appends and
submissions are interleaved, as long as no append crashes with a number in hand, is refused its
item by the serialiser or the service, or mirrors an older number over the latest, whenever no
append to a run is in progress its items have the numbers from 1 to some n, each once, and the
`event_seq` of META is n. -/
theorem log_sequenced {limits : Limits} {now : Int} {w : DynamoWorld}
    (h : Reaches (DynamoWorld.step limits) (wholeAppends limits) (.init now) w) {j : Uuid}
    (quiet : w.Quiet j) : ∃ n, ((w.table.events j).map (·.seq)).Perm (List.range' 1 n) ∧
      ∀ run, w.table.runs j = some run → run.eventSeq = n := by
  have inv := sequenced_reaches h fun _ _ ok => ok
  have still : ∀ (i : Nat) (call : DynamoCall), w.calls[i]? = some call →
      call.pendingOn j = none := by
    intro i call hi
    by_cases down : i ∈ w.crashed
    · exact inv.whole i down call hi j
    · exact quiet i call hi down
  have none : w.pending j = [] := by
    rw [DynamoWorld.pending, List.filterMap_eq_nil_iff]
    intro call mem
    obtain ⟨i, hi⟩ := List.getElem?_of_mem mem
    exact still i call hi
  have items := inv.items j
  rw [none, List.append_nil] at items
  refine ⟨_, items, fun run row => (inv.mirror j run row).resolve_right fun due => ?_⟩
  -- who has still to mirror a number has it in hand
  simp only [DynamoWorld.latestDue, List.any_eq_true, decide_eq_true_eq] at due
  obtain ⟨call, mem, due⟩ := due
  obtain ⟨i, hi⟩ := List.getElem?_of_mem mem
  have idle := still i call hi
  cases in_ : call.appending with
  | none =>
    rw [DynamoCall.dueOn, DynamoCall.ofAppend, in_] at due
    cases due
  | some ca =>
    rw [DynamoCall.dueOn, ofAppend_now in_] at due
    rw [DynamoCall.pendingOn, ofAppend_now in_] at idle
    split at due
    · next own =>
      rw [if_pos own] at idle
      cases hca : ca.2 <;> rw [hca] at due idle <;> cases due
      cases idle
    · cases due

/-! ## Interleaved appends -/

namespace Sample

def submission : SubmitCall :=
  ⟨⟨7⟩, "flow", .none, "key", ⟨some 100, none, none, none, none⟩⟩

def appendCall : AppendCall := ⟨⟨7⟩, "CancelRequested", none, .dict []⟩

/-- The run is submitted, then two appends to it begin. -/
def appending : List DynamoAction :=
  .submit submission :: List.replicate 7 (.go 0) ++ [.append appendCall, .append appendCall]

/-- Each of the two makes its calls while the other makes its own. -/
def interleaved : List DynamoAction := appending ++ [1, 2, 1, 2, 2, 1].map .go

/-- The first of them takes its number and crashes, the second one goes through. -/
def cutOff : List DynamoAction := appending ++ [.go 1, .crash 1, .go 2, .go 2, .go 2]

end Sample

theorem quiet_of_all {w : DynamoWorld} {j : Uuid}
    (h : ∀ i < w.calls.length, i ∈ w.crashed ∨ (w.calls[i]?.bind fun c => c.pendingOn j) = none) :
    w.Quiet j := by
  intro i call hi up
  have idle := (h i (List.getElem?_eq_some_iff.mp hi).1).resolve_left up
  rwa [hi] at idle

theorem interleaved_sequenced : ∃ w,
    Reaches (DynamoWorld.step Sample.limits) (wholeAppends Sample.limits) (.init 0) w ∧
    w.Quiet ⟨7⟩ ∧ (w.table.events ⟨7⟩).map (·.seq) = [1, 2, 3] ∧
    ∃ n, ((w.table.events ⟨7⟩).map (·.seq)).Perm (List.range' 1 n) ∧
      ∀ run, w.table.runs ⟨7⟩ = some run → run.eventSeq = n := by
  obtain ⟨w, h, numbers, idle⟩ := run_exists (DynamoWorld.step Sample.limits)
    (wholeAppends Sample.limits) (.init 0)
    Sample.interleaved (fun w => (w.table.events ⟨7⟩).map (·.seq) = [1, 2, 3] ∧
      ∀ i < w.calls.length, i ∈ w.crashed ∨ (w.calls[i]?.bind fun c => c.pendingOn ⟨7⟩) = none)
    (by decide +kernel)
  have quiet := quiet_of_all idle
  exact ⟨w, run_reaches h, quiet, numbers, log_sequenced (run_reaches h) quiet⟩

/-- An append that crashes with a number in hand leaves a gap. -/
theorem cut_off_gap : ¬ ∀ w,
    Reaches (DynamoWorld.step Sample.limits) (fun _ _ => True) (.init 0) w →
    w.Quiet ⟨7⟩ → ∃ n, ((w.table.events ⟨7⟩).map (·.seq)).Perm (List.range' 1 n) ∧
      ∀ run, w.table.runs ⟨7⟩ = some run → run.eventSeq = n := by
  obtain ⟨w, h, numbers, idle⟩ := run_exists (DynamoWorld.step Sample.limits)
    (fun _ _ => True) (.init 0)
    Sample.cutOff (fun w => (w.table.events ⟨7⟩).map (·.seq) = [1, 3] ∧
      ∀ i < w.calls.length, i ∈ w.crashed ∨ (w.calls[i]?.bind fun c => c.pendingOn ⟨7⟩) = none)
    (by decide +kernel)
  intro gapless
  obtain ⟨n, perm, -⟩ := gapless w (run_reaches h) (quiet_of_all idle)
  rw [numbers] at perm
  have two : 2 = n := by simpa using perm.length_eq
  subst two
  exact absurd (perm.mem_iff.mp (by simp : 3 ∈ [1, 3])) (by decide)

end AnchorRuntime
