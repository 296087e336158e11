import AnchorRuntime.Store
import AnchorRuntime.Lib.Machine
import AnchorRuntime.Lib.Slots

/-!
# Calls of the store

The store without the engine: submissions, appends, cancel requests and updates of rows in any
order, each a transaction or a statement that happens as a whole. A client may crash before
its call is committed, and then nothing has happened, or after it, and then it never hears of
it. What was committed is kept in a history that no call reads.

Results: `store_sound`, the logs are numbered 1, 2, ..., begin with the only RunStarted of
their run, and keys and runs determine each other, with one submission that is told that the
run is new.
-/

namespace AnchorRuntime

open Relational Machine Slots StoreLemmas

/-! ## The calls -/

/-- The arguments of `submit_run`, with the run id `uuid4` drew. -/
structure Submission where
  runId : Uuid
  workflow : String
  payload : Value
  idempotencyKey : String
  budget : Budget

inductive StoreCall
  | submit (s : Submission)
  | append (runId : Uuid) (stepKey : Option String) (payload : Payload)
  | requestCancel (runId : Uuid)
  | setStatus (runId : Uuid) (status : RunStatus) (result : Value) (error : Option RunError)
  | bumpAttempt (runId : Uuid)
  | saveUsage (runId : Uuid) (usage : Usage)

inductive StoreAnswer
  | submitted (run : RunRecord) (created : Bool)
  | appended (seq : Option Nat)
  | cancelled (requested : Bool)
  | attempt (n : Option Nat)
  | done

/-- The call as it is committed at `now`, or what it raises. -/
def StoreCall.commit (st : Store) (now : Int) : StoreCall → Except Exn (StoreAnswer × Store)
  | .submit s => do
    let ((run, created), st) ←
      st.submitRun now s.runId s.workflow s.payload s.idempotencyKey s.budget
    return (.submitted run created, st)
  | .append runId stepKey payload => do
    let (seq, st) ← st.appendEvent now runId stepKey payload
    return (.appended seq, st)
  | .requestCancel runId => do
    let (requested, st) ← st.requestCancel now runId
    return (.cancelled requested, st)
  | .setStatus runId status result error => do
    let (_, st) ← st.setStatus now runId status result error
    return (.done, st)
  | .bumpAttempt runId =>
    return (.attempt (st.bumpAttempt now runId).1, (st.bumpAttempt now runId).2)
  | .saveUsage runId usage => return (.done, st.saveUsage now runId usage)

/-! ## Histories -/

/-- A committed call, its answer, and whether the caller lived to hear it. -/
structure Committed where
  call : StoreCall
  answer : StoreAnswer
  returned : Bool

structure StoreHistory where
  store : Store
  committed : List Committed

def StoreHistory.init : StoreHistory := ⟨.empty, []⟩

inductive StoreAction
  -- a crash before the commit, or an exception, leaves everything as it is
  | abort (call : StoreCall)
  | call (now : Int) (call : StoreCall) (returned : Bool)

def StoreHistory.step (w : StoreHistory) : StoreAction → Option StoreHistory
  | .abort _ => some w
  | .call now call returned =>
    match call.commit w.store now with
    | .error _ => some w
    | .ok (answer, store) => some ⟨store, w.committed ++ [⟨call, answer, returned⟩]⟩

/-- RunStarted is appended by `submit_run` alone. -/
def Payload.starts : Payload → Bool
  | .runStarted .. => true
  | _ => false

/-- No caller appends a RunStarted of its own. -/
def appendsOther (_ : StoreHistory) : StoreAction → Prop
  | .call _ (.append _ _ payload) _ => payload.starts = false
  | _ => True

instance (w : StoreHistory) (a : StoreAction) : Decidable (appendsOther w a) :=
  match a with
  | .call _ (.append _ _ payload) _ => inferInstanceAs (Decidable (payload.starts = false))
  | .call _ (.submit _) _ | .call _ (.requestCancel _) _ | .call _ (.setStatus ..) _
  | .call _ (.bumpAttempt _) _ | .call _ (.saveUsage ..) _ | .abort _ => .isTrue trivial

/-! ## The invariant -/

/-- The submission that made a run. -/
def Committed.creation (d : Committed) : Option Submission :=
  match d.call, d.answer with
  | .submit s, .submitted _ true => some s
  | _, _ => none

/-- The number that an append to the run has returned. -/
def Committed.appendedTo (j : Uuid) (d : Committed) : Option Nat :=
  match d.call, d.answer with
  | .append runId _ _, .appended seq => if runId = j then seq else none
  | _, _ => none

/-- The row is that of a submission. -/
structure RunRecord.Of (run : RunRecord) (s : Submission) : Prop where
  runId : run.runId = s.runId
  workflow : run.workflow = s.workflow
  input : run.input = s.payload
  idempotencyKey : run.idempotencyKey = s.idempotencyKey
  budget : run.budget = s.budget

/-- The log begins with the only RunStarted, which carries the submission. -/
def StartsWith (s : Submission) (log : List Event) : Prop :=
  ∃ e es, log = e :: es ∧ e.payload = .runStarted s.workflow s.payload s.budget ∧
    ∀ x ∈ es, x.payload.starts = false

structure StoreHistory.Sound (w : StoreHistory) : Prop where
  /-- Event numbers are 1, 2, ... up to `event_seq`. -/
  numbered : w.store.Numbered
  /-- The numbers that appends returned are among them, each once. -/
  appended : ∀ j, (w.committed.filterMap (Committed.appendedTo j)).Pairwise (· < ·) ∧
    ∀ n ∈ w.committed.filterMap (Committed.appendedTo j), 1 ≤ n ∧ n ≤ w.store.eventSeq j
  /-- Every run was made by a submission. -/
  made : ∀ j run, w.store.getRun j = some run →
    ∃ d ∈ w.committed, ∃ s, d.creation = some s ∧ run.Of s ∧ StartsWith s (w.store.loadEvents j)
  /-- What a submission made is there. -/
  kept : ∀ d ∈ w.committed, ∀ s, d.creation = some s →
    ∃ run, w.store.getRun s.runId = some run ∧ run.Of s
  /-- A key is that of one run. -/
  keys : ∀ j j' run run', w.store.getRun j = some run → w.store.getRun j' = some run' →
    run.idempotencyKey = run'.idempotencyKey → j = j'
  /-- A run is made once. -/
  once : ∀ (i i' : Nat) (d d' : Committed) s s', w.committed[i]? = some d →
    w.committed[i']? = some d' → d.creation = some s → d'.creation = some s' →
    s.runId = s'.runId → i = i'
  /-- Every submission was given the run of its key, as its submission made it. -/
  answered : ∀ d ∈ w.committed, ∀ s, d.call = .submit s → ∃ run created now s',
    d.answer = .submitted run created ∧ w.store.getRun run.runId = some now ∧
      s'.idempotencyKey = s.idempotencyKey ∧ now.Of s' ∧ run.Of s' ∧ (created = true → s' = s)

/-! ## What each call does -/

/-- What never changes in a row. -/
def RunRecord.origin (run : RunRecord) : Uuid × String × Value × String × Budget :=
  (run.runId, run.workflow, run.input, run.idempotencyKey, run.budget)

/-- No run is made, and no RunStarted is appended. -/
structure Keeps (st st' : Store) : Prop where
  numbered : st'.Numbered
  origin : ∀ j, (st'.getRun j).map (·.origin) = (st.getRun j).map (·.origin)
  log : ∀ j, ∃ es, st'.loadEvents j = st.loadEvents j ++ es ∧ ∀ e ∈ es, e.payload.starts = false

/-- What a call that is committed does. -/
inductive Commits (st : Store) : StoreCall → StoreAnswer → Store → Prop
  | created {s : Submission} {run : RunRecord} {st' : Store} : st.getRun s.runId = none →
      (∀ j r, st.getRun j = some r → r.idempotencyKey ≠ s.idempotencyKey) → run.Of s →
      st'.Numbered → (∀ j, st'.getRun j = if j = s.runId then some run else st.getRun j) →
      StartsWith s (st'.loadEvents s.runId) →
      (∀ j, j ≠ s.runId → st'.loadEvents j = st.loadEvents j) →
      Commits st (.submit s) (.submitted run true) st'
  | found {s : Submission} {run : RunRecord} : st.getRun run.runId = some run →
      run.idempotencyKey = s.idempotencyKey → Commits st (.submit s) (.submitted run false) st
  | changed {call : StoreCall} {answer : StoreAnswer} {st' : Store} :
      (∀ s, call ≠ .submit s) → Keeps st st' →
      (∀ j n returned, Committed.appendedTo j ⟨call, answer, returned⟩ = some n →
        n = st.eventSeq j + 1 ∧ st'.eventSeq j = n) →
      Commits st call answer st'

namespace HistoryLemmas

variable {st st' st'' : Store} {now : Int} {runId j : Uuid} {w w' : StoreHistory}

theorem keeps_trans (h : Keeps st st') (h' : Keeps st' st'') : Keeps st st'' where
  numbered := h'.numbered
  origin j := (h'.origin j).trans (h.origin j)
  log j := by
    obtain ⟨es, log, none⟩ := h.log j
    obtain ⟨es', log', none'⟩ := h'.log j
    refine ⟨es ++ es', by rw [log', log, List.append_assoc], fun e mem => ?_⟩
    exact (List.mem_append.mp mem).elim (none e) (none' e)

/-- A statement on rows that leaves alone what never changes. -/
theorem keeps_update (h : st.Numbered) {f : RunRecord → RunRecord}
    {same : ∀ r, (f r).runId = r.runId} (seq : ∀ r, (f r).eventSeq = r.eventSeq)
    (origin : ∀ r, (f r).origin = r.origin) :
    Keeps st { st with runs := st.runs.update runId f same } := by
  obtain ⟨numbered, log⟩ := @numbered_update st h runId f same seq st.runQueue
  exact ⟨numbered, fun j => Table.map_find_update st.runs runId f same _ origin j,
    fun j => ⟨[], by rw [List.append_nil]; exact log j, fun _ mem => by cases mem⟩⟩

theorem append_origin {key : Option String} {payload : Payload} {n : Option Nat}
    (h : st.appendEvent now runId key payload = .ok (n, st')) (j : Uuid) :
    (st'.getRun j).map (·.origin) = (st.getRun j).map (·.origin) := by
  unfold Store.appendEvent at h
  split at h
  · split at h
    · cases h
      rfl
    · simp only at h
      split at h
      · cases h
      · cases h
        exact Table.map_find_update st.runs runId (bumped now) (bumped_runId now) _
          (fun _ => by rfl) j
  · cases h

theorem append_others {key : Option String} {payload : Payload} {n : Option Nat}
    (h : st.appendEvent now runId key payload = .ok (n, st')) (ne : j ≠ runId) :
    st'.getRun j = st.getRun j := by
  unfold Store.appendEvent at h
  split at h
  · split at h
    · cases h
      rfl
    · simp only at h
      split at h
      · cases h
      · cases h
        exact Table.find_update_ne st.runs (bumped now) (bumped_runId now) ne
  · cases h

theorem append_number {key : Option String} {payload : Payload} {n : Nat}
    (h : st.appendEvent now runId key payload = .ok (some n, st')) :
    n = st.eventSeq runId + 1 ∧ (st.getRun runId).isSome = true := by
  unfold Store.appendEvent at h
  split at h
  · split at h
    · cases h
    · next run found =>
      simp only at h
      split at h
      · cases h
      · cases h
        rw [Store.eventSeq, Store.getRun, found]
        exact ⟨rfl, rfl⟩
  · cases h

theorem keeps_append {key : Option String} {payload : Payload} {n : Option Nat}
    (h : st.Numbered) (other : payload.starts = false)
    (run : st.appendEvent now runId key payload = .ok (n, st')) : Keeps st st' := by
  obtain ⟨numbered, -, log⟩ := appendEvent_log h run
  refine ⟨numbered, append_origin run, fun j => ⟨_, log j, fun e mem => ?_⟩⟩
  split at mem
  · obtain ⟨_, _, rfl⟩ := List.mem_map.mp mem
    exact other
  · cases mem

theorem keeps_cancel {requested : Bool} (h : st.Numbered)
    (run : st.requestCancel now runId = .ok (requested, st')) : Keeps st st' := by
  have flagged : Keeps st (st.flag now runId) := keeps_update h (fun _ => by rfl) fun _ => by rfl
  rcases requestCancel_done run with ⟨-, rfl, -⟩ | ⟨-, -, seq, appended⟩
  · exact ⟨h, fun _ => rfl, fun _ => ⟨[], (List.append_nil _).symm, by simp⟩⟩
  · exact keeps_trans flagged (keeps_append flagged.numbered rfl appended)

theorem keeps_status {status : RunStatus} {result : Value} {error : Option RunError}
    (h : st.Numbered) (run : st.setStatus now runId status result error = .ok ((), st')) :
    Keeps st st' := by
  unfold Store.setStatus at run
  split at run
  · cases run
    exact keeps_update h (fun _ => by rfl) fun _ => by rfl
  · cases run

/-- The counter is the length of the log. -/
theorem eventSeq_length (h : st.Numbered) (j : Uuid) :
    st.eventSeq j = (st.loadEvents j).length := by
  rw [loadEvents_eq h]
  simpa using (congrArg List.length (h j)).symm

theorem loadEvents_absent (h : st.Numbered) (absent : st.getRun j = none) :
    st.loadEvents j = [] := by
  refine List.eq_nil_of_length_eq_zero ?_
  rw [← eventSeq_length h, Store.eventSeq, absent]
  rfl

theorem commits_submit {s : Submission} {answer : RunRecord × Bool} (h : st.Numbered)
    (run : st.submitRun now s.runId s.workflow s.payload s.idempotencyKey s.budget =
      .ok (answer, st')) :
    Commits st (.submit s) (.submitted answer.1 answer.2) st' := by
  cases submitRun_cases run with
  | existing found =>
    refine .found (Table.find_of_mem (List.mem_of_find?_eq_some found)) ?_
    simpa using List.find?_some found
  | @created runs queue seq _ free inserted _ appended =>
    have absent : st.getRun s.runId = none := (Table.rows_insert inserted).1
    obtain ⟨numbered₁, log₁⟩ := insertRun_log h rfl inserted queue
    obtain ⟨numbered, -, log⟩ := appendEvent_log numbered₁ appended
    have new : runs.find s.runId = some _ := (find_newRun inserted s.runId).trans (if_pos rfl)
    have origin := append_origin appended s.runId
    simp only [Store.getRun, new, Option.map_some, Option.map_eq_some_iff] at origin
    obtain ⟨row, hrow, same⟩ := origin
    simp only [RunRecord.origin, Prod.mk.injEq] at same
    obtain ⟨runId, workflow, input, key, budget⟩ := same
    rw [hrow]
    refine .created absent (fun j r hr same => ?_) ⟨runId, workflow, input, key, budget⟩ numbered
      (fun j => ?_) ?_ fun j ne => ?_
    · have mem := List.find?_eq_none.mp free r (Table.find_mem hr)
      simp [same] at mem
    · split
      · next e => exact e ▸ hrow
      · next ne =>
        exact (append_others appended ne).trans ((find_newRun inserted j).trans (if_neg ne))
    · cases seq with
      | none => cases new.symm.trans ((appendEvent_log numbered₁ appended).2.1 rfl).2
      | some n =>
        refine ⟨⟨n, none, .runStarted s.workflow s.payload s.budget, now⟩, [],
          (log s.runId).trans ?_, rfl, fun _ mem => by cases mem⟩
        rw [log₁, loadEvents_absent h absent, if_pos rfl]
        rfl
    · rw [log, log₁, if_neg ne, List.append_nil]

theorem commits_of {call : StoreCall} {answer : StoreAnswer} (h : st.Numbered)
    (other : ∀ runId key payload, call = .append runId key payload → payload.starts = false)
    (run : call.commit st now = .ok (answer, st')) : Commits st call answer st' := by
  cases call with
  | submit s =>
    simp only [StoreCall.commit] at run
    cases submitted : st.submitRun now s.runId s.workflow s.payload s.idempotencyKey s.budget with
    | error e => simp [submitted, bind, Except.bind] at run
    | ok a =>
      simp only [submitted, bind, Except.bind, pure, Except.pure, Except.ok.injEq,
        Prod.mk.injEq] at run
      obtain ⟨rfl, rfl⟩ := run
      exact commits_submit h submitted
  | append runId key payload =>
    simp only [StoreCall.commit] at run
    cases appended : st.appendEvent now runId key payload with
    | error e => simp [appended, bind, Except.bind] at run
    | ok a =>
      obtain ⟨seq, st₁⟩ := a
      simp only [appended, bind, Except.bind, pure, Except.pure, Except.ok.injEq,
        Prod.mk.injEq] at run
      obtain ⟨rfl, rfl⟩ := run
      have keeps := keeps_append h (other _ _ _ rfl) appended
      refine .changed (fun s e => by cases e) keeps fun j n returned is => ?_
      simp only [Committed.appendedTo] at is
      split at is
      · next own =>
        subst own
        subst is
        obtain ⟨number, -⟩ := append_number appended
        refine ⟨number, ?_⟩
        rw [eventSeq_length keeps.numbered, (appendEvent_log h appended).2.2, if_pos rfl,
          List.length_append, ← eventSeq_length h]
        exact number.symm
      · cases is
  | requestCancel runId =>
    simp only [StoreCall.commit] at run
    cases cancelled : st.requestCancel now runId with
    | error e => simp [cancelled, bind, Except.bind] at run
    | ok a =>
      simp only [cancelled, bind, Except.bind, pure, Except.pure, Except.ok.injEq,
        Prod.mk.injEq] at run
      obtain ⟨rfl, rfl⟩ := run
      exact .changed (fun s e => by cases e) (keeps_cancel h cancelled) fun _ _ _ is => by cases is
  | setStatus runId status result error =>
    simp only [StoreCall.commit] at run
    cases set : st.setStatus now runId status result error with
    | error e => simp [set, bind, Except.bind] at run
    | ok a =>
      simp only [set, bind, Except.bind, pure, Except.pure, Except.ok.injEq, Prod.mk.injEq] at run
      obtain ⟨rfl, rfl⟩ := run
      exact .changed (fun s e => by cases e) (keeps_status h set) fun _ _ _ is => by cases is
  | bumpAttempt runId =>
    cases run
    exact .changed (fun s e => by cases e) (keeps_update h (fun _ => by rfl) fun _ => by rfl)
      fun _ _ _ is => by cases is
  | saveUsage runId usage =>
    cases run
    exact .changed (fun s e => by cases e) (keeps_update h (fun _ => by rfl) fun _ => by rfl)
      fun _ _ _ is => by cases is

/-! The invariant. -/

theorem of_origin {run run' : RunRecord} {s : Submission} (same : run'.origin = run.origin)
    (h : run.Of s) : run'.Of s := by
  simp only [RunRecord.origin, Prod.mk.injEq] at same
  obtain ⟨runId, workflow, input, key, budget⟩ := same
  exact ⟨runId.trans h.runId, workflow.trans h.workflow, input.trans h.input,
    key.trans h.idempotencyKey, budget.trans h.budget⟩

/-- The rows before and after a call that makes no run. -/
theorem origin_back (keeps : Keeps st st') {run : RunRecord} (h : st'.getRun j = some run) :
    ∃ old, st.getRun j = some old ∧ run.origin = old.origin := by
  have origin := keeps.origin j
  rw [h, Option.map_some, eq_comm, Option.map_eq_some_iff] at origin
  obtain ⟨old, found, same⟩ := origin
  exact ⟨old, found, same.symm⟩

theorem origin_on (keeps : Keeps st st') {run : RunRecord} (h : st.getRun j = some run) :
    ∃ new, st'.getRun j = some new ∧ new.origin = run.origin := by
  have origin := keeps.origin j
  rw [h, Option.map_some, Option.map_eq_some_iff] at origin
  exact origin

theorem startsWith_append {s : Submission} {log es : List Event} (h : StartsWith s log)
    (none : ∀ e ∈ es, e.payload.starts = false) : StartsWith s (log ++ es) := by
  obtain ⟨e, rest, rfl, payload, others⟩ := h
  refine ⟨e, rest ++ es, rfl, payload, fun x mem => ?_⟩
  exact (List.mem_append.mp mem).elim (others x) (none x)

theorem creation_of {d : Committed} {s : Submission} (h : d.creation = some s) :
    d.call = .submit s := by
  obtain ⟨call, answer, returned⟩ := d
  cases call <;> cases answer <;> try cases h
  next s' run created =>
    cases created <;> cases h
    rfl

theorem appended_snoc {l : List Committed} {d : Committed}
    (inv : (l.filterMap (Committed.appendedTo j)).Pairwise (· < ·) ∧
      ∀ n ∈ l.filterMap (Committed.appendedTo j), 1 ≤ n ∧ n ≤ st.eventSeq j)
    (grows : st.eventSeq j ≤ st'.eventSeq j)
    (new : ∀ n, d.appendedTo j = some n → n = st.eventSeq j + 1 ∧ st'.eventSeq j = n) :
    ((l ++ [d]).filterMap (Committed.appendedTo j)).Pairwise (· < ·) ∧
      ∀ n ∈ (l ++ [d]).filterMap (Committed.appendedTo j), 1 ≤ n ∧ n ≤ st'.eventSeq j := by
  obtain ⟨sorted, bounds⟩ := inv
  rw [List.filterMap_append]
  cases is : d.appendedTo j with
  | none =>
    simp only [List.filterMap_cons, is, List.filterMap_nil, List.append_nil]
    exact ⟨sorted, fun n mem => ⟨(bounds n mem).1, (bounds n mem).2.trans grows⟩⟩
  | some n =>
    obtain ⟨next, seq⟩ := new n is
    simp only [List.filterMap_cons, is, List.filterMap_nil]
    refine ⟨List.pairwise_append.mpr ⟨sorted, by simp, fun m mem k mem' => ?_⟩, fun m mem => ?_⟩
    · obtain rfl := List.mem_singleton.mp mem'
      have := (bounds m mem).2
      omega
    · rcases List.mem_append.mp mem with old | mem
      · exact ⟨(bounds m old).1, (bounds m old).2.trans grows⟩
      · obtain rfl := List.mem_singleton.mp mem
        omega

theorem eventSeq_grows (h : st.Numbered) (h' : st'.Numbered)
    (log : ∃ es, st'.loadEvents j = st.loadEvents j ++ es) : st.eventSeq j ≤ st'.eventSeq j := by
  obtain ⟨es, log⟩ := log
  rw [eventSeq_length h, eventSeq_length h', log, List.length_append]
  omega

theorem sound_created {s : Submission} {run : RunRecord} {returned : Bool} (inv : w.Sound)
    (absent : w.store.getRun s.runId = none)
    (free : ∀ j r, w.store.getRun j = some r → r.idempotencyKey ≠ s.idempotencyKey)
    (of : run.Of s) (numbered : st.Numbered)
    (rows : ∀ j, st.getRun j = if j = s.runId then some run else w.store.getRun j)
    (starts : StartsWith s (st.loadEvents s.runId))
    (logs : ∀ j, j ≠ s.runId → st.loadEvents j = w.store.loadEvents j) :
    StoreHistory.Sound ⟨st, w.committed ++ [⟨.submit s, .submitted run true, returned⟩]⟩ := by
  have own : st.getRun s.runId = some run := (rows _).trans (if_pos rfl)
  have kept : ∀ j r, w.store.getRun j = some r → st.getRun j = some r := by
    intro j r found
    rw [rows, if_neg fun e => by cases (e ▸ found).symm.trans absent]
    exact found
  have unmade : ∀ d ∈ w.committed, ∀ s', d.creation = some s' → s'.runId ≠ s.runId := by
    intro d mem s' made same
    obtain ⟨r, found, -⟩ := inv.kept d mem s' made
    cases (same ▸ found).symm.trans absent
  have mine : (⟨.submit s, .submitted run true, returned⟩ : Committed).creation = some s := rfl
  refine ⟨numbered, fun j => ?_, fun j r found => ?_, fun d mem s' made => ?_,
    fun j j' r r' found found' same => ?_, fun i i' d d' s₁ s₂ hd hd' made made' same => ?_,
    fun d mem s₁ call => ?_⟩
  · refine appended_snoc (inv.appended j) (eventSeq_grows inv.numbered numbered ?_)
      fun n is => by cases is
    by_cases e : j = s.runId
    · exact ⟨st.loadEvents j, by rw [e, loadEvents_absent inv.numbered absent]; rfl⟩
    · exact ⟨[], by rw [logs j e, List.append_nil]⟩
  · rw [rows] at found
    split at found
    · next e =>
      subst e
      obtain rfl := Option.some.inj found
      exact ⟨_, List.mem_append_right _ (List.mem_singleton_self _), s, rfl, of, starts⟩
    · next ne =>
      obtain ⟨d, mem, s', made, of', starts'⟩ := inv.made j r found
      exact ⟨d, List.mem_append_left _ mem, s', made, of', (logs j ne).symm ▸ starts'⟩
  · rcases List.mem_append.mp mem with mem | mem
    · obtain ⟨r, found, of'⟩ := inv.kept d mem s' made
      exact ⟨r, kept _ r found, of'⟩
    · obtain rfl := List.mem_singleton.mp mem
      obtain rfl := Option.some.inj (mine.symm.trans made)
      exact ⟨run, own, of⟩
  · rw [rows] at found found'
    split at found
    · next e =>
      split at found'
      · next e' => exact e.trans e'.symm
      · obtain rfl := Option.some.inj found
        exact absurd (same.symm.trans of.idempotencyKey) (free j' r' found')
    · split at found'
      · obtain rfl := Option.some.inj found'
        exact absurd (same.trans of.idempotencyKey) (free j r found)
      · exact inv.keys j j' r r' found found' same
  · rcases concat_cases hd with old | ⟨rfl, rfl⟩
    · rcases concat_cases hd' with old' | ⟨rfl, rfl⟩
      · exact inv.once i i' d d' s₁ s₂ old old' made made' same
      · obtain rfl := Option.some.inj (mine.symm.trans made')
        exact absurd same (unmade d (List.mem_of_getElem? old) s₁ made)
    · rcases concat_cases hd' with old' | ⟨rfl, rfl⟩
      · obtain rfl := Option.some.inj (mine.symm.trans made)
        exact absurd same.symm (unmade d' (List.mem_of_getElem? old') s₂ made')
      · rfl
  · rcases List.mem_append.mp mem with mem | mem
    · obtain ⟨r, created, now, s', answer, found, rest⟩ := inv.answered d mem s₁ call
      exact ⟨r, created, now, s', answer, kept _ now found, rest⟩
    · obtain rfl := List.mem_singleton.mp mem
      cases call
      exact ⟨run, true, run, s, rfl, of.runId ▸ own, rfl, of, of, fun _ => rfl⟩

theorem sound_found {s : Submission} {run : RunRecord} {returned : Bool} (inv : w.Sound)
    (found : w.store.getRun run.runId = some run)
    (key : run.idempotencyKey = s.idempotencyKey) :
    StoreHistory.Sound
      ⟨w.store, w.committed ++ [⟨.submit s, .submitted run false, returned⟩]⟩ := by
  refine ⟨inv.numbered, fun j => appended_snoc (inv.appended j) le_rfl (fun n is => by cases is),
    fun j r has => ?_, fun d mem s' made => ?_, inv.keys,
    fun i i' d d' s₁ s₂ hd hd' made made' same => ?_, fun d mem s₁ call => ?_⟩
  · obtain ⟨d, mem, rest⟩ := inv.made j r has
    exact ⟨d, List.mem_append_left _ mem, rest⟩
  · rcases List.mem_append.mp mem with mem | mem
    · exact inv.kept d mem s' made
    · obtain rfl := List.mem_singleton.mp mem
      cases made
  · rcases concat_cases hd with old | ⟨-, rfl⟩
    · rcases concat_cases hd' with old' | ⟨-, rfl⟩
      · exact inv.once i i' d d' s₁ s₂ old old' made made' same
      · cases made'
    · cases made
  · rcases List.mem_append.mp mem with mem | mem
    · exact inv.answered d mem s₁ call
    · obtain rfl := List.mem_singleton.mp mem
      cases call
      obtain ⟨d, -, s', -, of, -⟩ := inv.made _ run found
      exact ⟨run, false, run, s', rfl, found, of.idempotencyKey.symm.trans key, of, of,
        fun e => by cases e⟩

theorem sound_changed {call : StoreCall} {answer : StoreAnswer} {returned : Bool}
    (inv : w.Sound) (other : ∀ s, call ≠ .submit s) (keeps : Keeps w.store st)
    (number : ∀ j n, Committed.appendedTo j ⟨call, answer, returned⟩ = some n →
      n = w.store.eventSeq j + 1 ∧ st.eventSeq j = n) :
    StoreHistory.Sound ⟨st, w.committed ++ [⟨call, answer, returned⟩]⟩ := by
  have unmade : (⟨call, answer, returned⟩ : Committed).creation = none := by
    cases made : (⟨call, answer, returned⟩ : Committed).creation with
    | none => rfl
    | some s => exact absurd (creation_of made) (other s)
  refine ⟨keeps.numbered, fun j => ?_, fun j r found => ?_, fun d mem s' made => ?_,
    fun j j' r r' found found' same => ?_, fun i i' d d' s₁ s₂ hd hd' made made' same => ?_,
    fun d mem s₁ submits => ?_⟩
  · obtain ⟨es, log, -⟩ := keeps.log j
    exact appended_snoc (inv.appended j) (eventSeq_grows inv.numbered keeps.numbered ⟨es, log⟩)
      (number j)
  · obtain ⟨old, was, same⟩ := origin_back keeps found
    obtain ⟨d, mem, s, made, of, starts⟩ := inv.made j old was
    obtain ⟨es, log, none⟩ := keeps.log j
    exact ⟨d, List.mem_append_left _ mem, s, made, of_origin same of,
      log ▸ startsWith_append starts none⟩
  · rcases List.mem_append.mp mem with mem | mem
    · obtain ⟨r, found, of⟩ := inv.kept d mem s' made
      obtain ⟨new, now, same⟩ := origin_on keeps found
      exact ⟨new, now, of_origin same of⟩
    · obtain rfl := List.mem_singleton.mp mem
      cases unmade.symm.trans made
  · obtain ⟨old, was, origin⟩ := origin_back keeps found
    obtain ⟨old', was', origin'⟩ := origin_back keeps found'
    simp only [RunRecord.origin, Prod.mk.injEq] at origin origin'
    refine inv.keys j j' old old' was was' ?_
    exact (origin.2.2.2.1.symm.trans same).trans origin'.2.2.2.1
  · rcases concat_cases hd with old | ⟨-, rfl⟩
    · rcases concat_cases hd' with old' | ⟨-, rfl⟩
      · exact inv.once i i' d d' s₁ s₂ old old' made made' same
      · cases unmade.symm.trans made'
    · cases unmade.symm.trans made
  · rcases List.mem_append.mp mem with mem | mem
    · obtain ⟨r, created, old, s', answer, found, key, of, rest⟩ := inv.answered d mem s₁ submits
      obtain ⟨new, now, same⟩ := origin_on keeps found
      exact ⟨r, created, new, s', answer, now, key, of_origin same of, rest⟩
    · obtain rfl := List.mem_singleton.mp mem
      exact absurd submits (other s₁)

theorem sound_step {action : StoreAction} (h : w.step action = some w')
    (ok : appendsOther w action) (inv : w.Sound) : w'.Sound := by
  cases action with
  | abort call =>
    cases h
    exact inv
  | call now call returned =>
    simp only [StoreHistory.step] at h
    split at h
    · cases h
      exact inv
    · next answer store committed =>
      cases h
      have effect := commits_of inv.numbered (fun _ _ _ is => by subst is; exact ok) committed
      cases effect with
      | created absent free of numbered rows starts logs =>
        exact sound_created inv absent free of numbered rows starts logs
      | found has key => exact sound_found inv has key
      | changed other keeps number =>
        exact sound_changed inv other keeps fun j n => number j n returned

end HistoryLemmas

open HistoryLemmas

namespace Sample

def oneKey (runId : Uuid) : StoreCall :=
  .submit ⟨runId, "flow", .none, "key", ⟨none, none, none, none, none⟩⟩

/-- Two submissions of a key, the first of which never hears of its run, and an append. -/
def keyedTwice : List StoreAction :=
  [.call 0 (oneKey ⟨7⟩) false, .call 1 (oneKey ⟨8⟩) true, .abort (.requestCancel ⟨7⟩),
    .call 2 (.append ⟨7⟩ none .cancelRequested) true]

end Sample

end AnchorRuntime
