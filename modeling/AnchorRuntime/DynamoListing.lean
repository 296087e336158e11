import AnchorRuntime.Store
import AnchorRuntime.Lib.Assoc

/-!
# Listings and counts

`list_runs`, `status_counts` and `count_side_effects` of `store/dynamo.py` make one `Scan` and look
at no `LastEvaluatedKey`. A `Scan` reads the items of the whole table in hash order, stops at its
`Limit` and at what one page holds, and filters what it has read.

Results: `listings_exact`, each of the three is right if and only if its page leaves nothing out
that counts; `run_unlisted`, one run that is not listed because of the item before it.
-/

namespace AnchorRuntime

/-! ## The table -/

/-- The items of the table, as far as listings look at them. -/
inductive TableItem
  | run (r : RunRecord)
  | counter (runId : Uuid)
  | event (runId : Uuid) (e : Event)
  | lease (runId : Uuid) (workerId : String)
  | idempotency (key : String) (runId : Uuid)
  | effect (token runId : Uuid) (kind : String)

/-- `sk = :meta` -/
def TableItem.run? : TableItem → Option RunRecord
  | .run r => some r
  | _ => none

/-- `run_id = :rid AND kind = :k AND sk = :data` -/
def TableItem.isEffect (runId : Uuid) (kind : String) : TableItem → Bool
  | .effect _ r k => r = runId && k = kind
  | _ => false

/-- `RunStatus.value` -/
def RunStatus.value : RunStatus → String
  | .pending => "PENDING"
  | .running => "RUNNING"
  | .completed => "COMPLETED"
  | .failed => "FAILED"
  | .cancelled => "CANCELLED"
  | .needsReview => "NEEDS_REVIEW"

section Scan

-- what an item takes up, and what a page holds
variable (size : TableItem → Nat) (page : Nat)

/-- As many items as fit. -/
def readItems : Nat → List TableItem → List TableItem
  | _, [] => []
  | room, x :: xs => if size x ≤ room then x :: readItems (room - size x) xs else []

/-- What one `Scan` reads. -/
def scan (limit : Option Nat) (table : List TableItem) : List TableItem :=
  readItems size page (limit.elim table fun n => table.take n)

/-- The runs among the items with that status; the empty status is none. -/
def runsWith (status : Option String) (items : List TableItem) : List RunRecord :=
  (items.filterMap TableItem.run?).filter fun r =>
    match status with
    | none => true
    | some s => s.isEmpty || r.status.value = s

/-- `list_runs`; a `Limit` is at least 1. -/
def listRuns (limit : Nat) (status : Option String) (table : List TableItem) : List RunRecord :=
  let runs := runsWith status (scan size page (some (min limit 200)) table)
  (runs.insertionSort fun a b => b.createdAt ≤ a.createdAt).take limit

/-- `status_counts` -/
def statusCounts (table : List TableItem) : List (String × Nat) :=
  ((runsWith none (scan size page none table)).map fun r => r.status.value).foldl Assoc.bump []

/-- `count_side_effects` -/
def countSideEffects (runId : Uuid) (kind : String) (table : List TableItem) : Nat :=
  ((scan size page none table).filter (·.isEffect runId kind)).length

/-- What a `Scan` leaves out. -/
def unread (limit : Option Nat) (table : List TableItem) : List TableItem :=
  table.drop (scan size page limit table).length

end Scan

/-! ## What the results should be -/

/-- The listed runs are `limit` of the matching ones, or all, in the order of their creation with
the latest first, and none that is left out is later than one that is listed. -/
def MostRecent (limit : Nat) (matching listed : List RunRecord) : Prop :=
  ∃ rest, (listed ++ rest).Perm matching ∧ listed.length = min limit matching.length ∧
    listed.Pairwise (fun a b => b.createdAt ≤ a.createdAt) ∧
    ∀ r ∈ rest, ∀ s ∈ listed, r.createdAt ≤ s.createdAt

/-- Each status is counted exactly. -/
def CountsExactly (counts : List (String × Nat)) (runs : List RunRecord) : Prop :=
  ∀ s, (counts.lookup s).getD 0 = (runs.filter fun r => r.status.value = s).length

namespace ListingLemmas

variable {size : TableItem → Nat} {page : Nat} {limit : Option Nat} {table items : List TableItem}
  {status : Option String}

theorem readItems_prefix {room : Nat} : readItems size room items <+: items := by
  induction items generalizing room with
  | nil => exact List.nil_prefix
  | cons x xs ih =>
    unfold readItems
    split
    · exact List.cons_prefix_cons.mpr ⟨rfl, ih⟩
    · exact List.nil_prefix

/-- A scan reads the table up to some item. -/
theorem scan_append : scan size page limit table ++ unread size page limit table = table := by
  have front : scan size page limit table <+: table := by
    cases limit with
    | none => exact readItems_prefix
    | some n => exact readItems_prefix.trans (List.take_prefix n table)
  exact (List.prefix_iff_eq_append.mp front)

theorem scan_length {n : Nat} : (scan size page (some n) table).length ≤ n :=
  readItems_prefix.length_le.trans (List.length_take_le n table)

theorem runsWith_append (front back : List TableItem) :
    runsWith status (front ++ back) = runsWith status front ++ runsWith status back := by
  simp [runsWith]

theorem runsWith_length : (runsWith status items).length ≤ items.length :=
  (List.length_filter_le _ _).trans (List.length_filterMap_le _ _)

/-- The runs of the table are those read and those left out. -/
theorem runsWith_scan : runsWith status table =
    runsWith status (scan size page limit table) ++
      runsWith status (unread size page limit table) := by
  rw [← runsWith_append, scan_append]

/-- The latest of the runs that were read, of which there are no more than asked for, are the
latest of all runs if and only if none of the others should have been there. -/
theorem mostRecent_iff {n : Nat} {seen missed : List RunRecord} (few : seen.length ≤ n) :
    MostRecent n (seen ++ missed)
      ((seen.insertionSort fun a b => b.createdAt ≤ a.createdAt).take n) ↔
    missed = [] ∨ (n ≤ seen.length ∧ ∀ r ∈ missed, ∀ s ∈ seen, r.createdAt ≤ s.createdAt) := by
  generalize hsorted : seen.insertionSort (fun a b => b.createdAt ≤ a.createdAt) = sorted
  have perm : sorted.Perm seen := hsorted ▸ List.perm_insertionSort _ seen
  have inOrder : sorted.Pairwise fun a b => b.createdAt ≤ a.createdAt :=
    hsorted ▸ List.pairwise_insertionSort _ seen
  rw [List.take_of_length_le (perm.length_eq.trans_le few)]
  constructor
  · rintro ⟨rest, same, length, -, later⟩
    have left : rest.Perm missed :=
      (List.perm_append_left_iff seen).mp ((perm.symm.append_right rest).trans same)
    by_cases none : missed = []
    · exact .inl none
    · refine .inr ⟨?_, fun r hr s hs => later r (left.symm.subset hr) s (perm.symm.subset hs)⟩
      have some := List.length_pos_iff.mpr none
      rw [perm.length_eq, List.length_append] at length
      omega
  · rintro (rfl | ⟨full, later⟩)
    · refine ⟨[], by simpa using perm, ?_, inOrder, by simp⟩
      rw [List.append_nil, perm.length_eq]
      omega
    · refine ⟨missed, perm.append_right missed, ?_, inOrder, fun r hr s hs =>
        later r hr s (perm.subset hs)⟩
      rw [perm.length_eq, List.length_append]
      omega

end ListingLemmas

open ListingLemmas

/-! ## The results -/

section

variable (size : TableItem → Nat) (page : Nat) (table : List TableItem)

/-- The page of `list_runs` holds all runs with the status, or as many as are asked for and none
older than one that is left out. -/
def listed (limit : Nat) (status : Option String) : Prop :=
  let seen := runsWith status (scan size page (some (min limit 200)) table)
  let missed := runsWith status (unread size page (some (min limit 200)) table)
  missed = [] ∨ (limit ≤ seen.length ∧ ∀ r ∈ missed, ∀ s ∈ seen, r.createdAt ≤ s.createdAt)

/-- `list_runs` is right if and only if its page leaves out no run that should be listed. -/
theorem listRuns_exact (limit : Nat) (status : Option String) :
    MostRecent limit (runsWith status table) (listRuns size page limit status table) ↔
      listed size page table limit status := by
  have few : (runsWith status (scan size page (some (min limit 200)) table)).length ≤ limit :=
    (runsWith_length.trans scan_length).trans (Nat.min_le_left limit 200)
  have split : runsWith status table =
      runsWith status (scan size page (some (min limit 200)) table) ++
        runsWith status (unread size page (some (min limit 200)) table) := runsWith_scan
  rw [split]
  exact mostRecent_iff few

/-- `status_counts` is right if and only if its page leaves out no run. -/
theorem statusCounts_exact :
    CountsExactly (statusCounts size page table) (runsWith none table) ↔
      runsWith none (unread size page none table) = [] := by
  set seen := runsWith none (scan size page none table) with hseen
  set missed := runsWith none (unread size page none table) with hmissed
  have all : runsWith none table = seen ++ missed := runsWith_scan
  have counted : ∀ s, ((statusCounts size page table).lookup s).getD 0 =
      (seen.filter fun r => r.status.value = s).length := by
    intro s
    rw [statusCounts, ← hseen, Assoc.lookup_foldl_bump, List.lookup_nil, Option.getD_none,
      Nat.zero_add, List.count_eq_countP, List.countP_map, List.countP_eq_length_filter]
    congr 2
  constructor
  · intro exactly
    by_contra some
    obtain ⟨r, rest, is⟩ := List.exists_cons_of_ne_nil some
    have same := (counted r.status.value).symm.trans (exactly r.status.value)
    rw [all, is, List.filter_append, List.length_append] at same
    simp at same
  · intro none s
    rw [counted, all, none, List.append_nil]

/-- `count_side_effects` is right if and only if its page leaves out no effect that counts. -/
theorem countSideEffects_exact (runId : Uuid) (kind : String) :
    countSideEffects size page runId kind table = (table.filter (·.isEffect runId kind)).length ↔
      (unread size page none table).filter (·.isEffect runId kind) = [] := by
  have split : table.filter (·.isEffect runId kind) =
      (scan size page none table).filter (·.isEffect runId kind) ++
        (unread size page none table).filter (·.isEffect runId kind) := by
    rw [← List.filter_append, scan_append]
  rw [split, countSideEffects, List.length_append, ← List.length_eq_zero_iff]
  omega

/-- Listings and counts see every run and every effect if and only if one page does. -/
theorem listings_exact (limit : Nat) (status : Option String) (runId : Uuid) (kind : String) :
    (MostRecent limit (runsWith status table) (listRuns size page limit status table) ∧
      CountsExactly (statusCounts size page table) (runsWith none table) ∧
      countSideEffects size page runId kind table =
        (table.filter (·.isEffect runId kind)).length) ↔
    (listed size page table limit status ∧
      runsWith none (unread size page none table) = [] ∧
      (unread size page none table).filter (·.isEffect runId kind) = []) := by
  rw [listRuns_exact, statusCounts_exact, countSideEffects_exact]

end

/-- A table with one run, after the item of its idempotency key. -/
def Sample.unlisted : List TableItem :=
  [.idempotency "key" ⟨7⟩,
    .run (Store.newRun 0 ⟨7⟩ "w" .none "key" ⟨none, none, none, none, none⟩)]

/-- The run is the only one, and `list_runs(1)` does not list it. -/
theorem run_unlisted :
    ¬ (MostRecent 1 (runsWith none Sample.unlisted)
        (listRuns (fun _ => 400) 1048576 1 none Sample.unlisted) ∧
      CountsExactly (statusCounts (fun _ => 400) 1048576 Sample.unlisted)
        (runsWith none Sample.unlisted) ∧
      countSideEffects (fun _ => 400) 1048576 ⟨7⟩ "payment" Sample.unlisted =
        (Sample.unlisted.filter (·.isEffect ⟨7⟩ "payment")).length) := by
  rintro ⟨⟨rest, -, length, -⟩, -⟩
  have none_listed : listRuns (fun _ => 400) 1048576 1 none Sample.unlisted = [] := rfl
  have one : (runsWith none Sample.unlisted).length = 1 := rfl
  rw [none_listed, one] at length
  cases length

end AnchorRuntime
