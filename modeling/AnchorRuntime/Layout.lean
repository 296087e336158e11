import AnchorRuntime.DynamoLog
import AnchorRuntime.Identifiers

/-!
# The layout of the table

One table holds all items of the DynamoDB store under a partition key and a sort key, both texts
that are put together from run ids, numbers, worker ids, idempotency keys and tokens. A query names
a partition and the beginning of its sort keys.

Results: `layout_sound`, no two items share their keys, the queries of `load_events`, `claim` and
`dequeue` select the events and the leases of one run, and the events of a run are in the order of
their numbers; `query_events`, so a query returns the events of the run by number.
-/

namespace AnchorRuntime

open IdentifierLemmas DynamoLogLemmas

/-! ## Keys -/

/-- `_run_pk` -/
def runPk (runId : Uuid) : String := s!"RUN#{runId.str}"

/-- `_idem_pk` -/
def idemPk (key : String) : String := s!"IDEM#{key}"

/-- `_effect_pk` -/
def effectPk (token : Uuid) : String := s!"EFFECT#{token.str}"

/-- The items of the table. -/
inductive LogicalItem
  | runMeta (runId : Uuid)
  | counter (runId : Uuid)
  | event (runId : Uuid) (seq : Nat)
  | lease (runId : Uuid) (workerId : String)
  | idempotency (key : String)
  | effect (token : Uuid)
  deriving DecidableEq

namespace LogicalItem

def pk : LogicalItem → String
  | runMeta runId | counter runId | event runId _ | lease runId _ => runPk runId
  | idempotency key => idemPk key
  | effect token => effectPk token

def sk : LogicalItem → String
  | runMeta _ => "META"
  | counter _ => "COUNTER"
  | event _ seq => String.ofList (eventSk seq)
  | lease _ workerId => s!"LEASE#{workerId}"
  | idempotency _ => "KEY"
  | effect _ => "DATA"

/-- `seq` of an event. -/
def seq : LogicalItem → Nat
  | event _ seq => seq
  | _ => 0

/-- `DKey("pk").eq(pk) & DKey("sk").begins_with(start)` -/
def selected (pk start : String) (i : LogicalItem) : Bool :=
  i.pk = pk && start.toList.isPrefixOf i.sk.toList

end LogicalItem

/-- A `Query`, in the order of the sort keys. The order of texts by their bytes in UTF-8 is that
of their characters. -/
def query (pk start : String) (table : List LogicalItem) : List LogicalItem :=
  (table.filter (·.selected pk start)).insertionSort fun a b => a.sk ≤ b.sk

/-! ## What the keys tell -/

/-- The kinds of items. -/
inductive LogicalItem.Kind
  | runMeta
  | counter
  | event
  | lease
  | idempotency
  | effect
  deriving DecidableEq

namespace LogicalItem

def kind : LogicalItem → Kind
  | runMeta _ => .runMeta
  | counter _ => .counter
  | event _ _ => .event
  | lease _ _ => .lease
  | idempotency _ => .idempotency
  | effect _ => .effect

/-- What the partition keys of a kind begin with. -/
def Kind.pkStart : Kind → List Char
  | runMeta | counter | event | lease => ['R', 'U', 'N', '#']
  | idempotency => ['I', 'D', 'E', 'M', '#']
  | effect => ['E', 'F', 'F', 'E', 'C', 'T', '#']

/-- What the sort keys of a kind begin with. -/
def Kind.skStart : Kind → List Char
  | runMeta => ['M', 'E', 'T', 'A']
  | counter => ['C', 'O', 'U', 'N', 'T', 'E', 'R']
  | event => ['E', 'V', 'E', 'N', 'T', '#']
  | lease => ['L', 'E', 'A', 'S', 'E', '#']
  | idempotency => ['K', 'E', 'Y']
  | effect => ['D', 'A', 'T', 'A']

/-- The part of the partition key that is not fixed. -/
def pkRest : LogicalItem → List Char
  | runMeta runId | counter runId | event runId _ | lease runId _ => runId.str.toList
  | idempotency key => key.toList
  | effect token => token.str.toList

/-- The part of the sort key that is not fixed. -/
def skRest : LogicalItem → List Char
  | event _ seq => (eventSk seq).drop 6
  | lease _ workerId => workerId.toList
  | _ => []

end LogicalItem

namespace LayoutLemmas

open LogicalItem

variable {runId other : Uuid} {a b i : LogicalItem}

theorem pk_toList (i : LogicalItem) : i.pk.toList = i.kind.pkStart ++ i.pkRest := by
  cases i with
  | runMeta r | counter r | event r _ | lease r _ => exact String.toList_append ..
  | idempotency key => exact String.toList_append ..
  | effect token => exact String.toList_append ..

theorem sk_toList (i : LogicalItem) : i.sk.toList = i.kind.skStart ++ i.skRest := by
  cases i with
  | runMeta => exact (rfl : "META".toList = ['M', 'E', 'T', 'A'])
  | counter => exact (rfl : "COUNTER".toList = ['C', 'O', 'U', 'N', 'T', 'E', 'R'])
  | idempotency => exact (rfl : "KEY".toList = ['K', 'E', 'Y'])
  | effect => exact (rfl : "DATA".toList = ['D', 'A', 'T', 'A'])
  | event r seq => exact String.toList_ofList
  | lease r workerId => exact String.toList_append ..

/-- The sort keys of two kinds differ in their first character. -/
theorem kind_of_start {j k : Kind} {s t : List Char}
    (same : j.skStart ++ s = k.skStart ++ t) : j = k := by
  have heads := congrArg List.head? same
  cases j with
  | runMeta | counter | event | lease | idempotency | effect =>
    cases k with
    | runMeta | counter | event | lease | idempotency | effect =>
      first | rfl | cases heads

/-- Two items with the same keys are one. -/
theorem key_inj (pk : a.pk = b.pk) (sk : a.sk = b.sk) : a = b := by
  have pks := congrArg String.toList pk
  have sks := congrArg String.toList sk
  rw [pk_toList, pk_toList] at pks
  rw [sk_toList, sk_toList] at sks
  have kinds : a.kind = b.kind := kind_of_start sks
  rw [kinds] at pks sks
  have rest := List.append_cancel_left pks
  have rest' := List.append_cancel_left sks
  cases a with
  | runMeta r =>
    cases b with
    | runMeta r' => rw [str_inj (String.toList_inj.mp rest)]
    | counter | event | lease | idempotency | effect => cases kinds
  | counter r =>
    cases b with
    | counter r' => rw [str_inj (String.toList_inj.mp rest)]
    | runMeta | event | lease | idempotency | effect => cases kinds
  | event r m =>
    cases b with
    | event r' n =>
      have numbers : (eventSk m).drop 6 = (eventSk n).drop 6 := rest'
      have same := eventSk_number m
      rw [numbers, eventSk_number n] at same
      rw [str_inj (String.toList_inj.mp rest), same]
    | runMeta | counter | lease | idempotency | effect => cases kinds
  | lease r worker =>
    cases b with
    | lease r' worker' =>
      rw [str_inj (String.toList_inj.mp rest), String.toList_inj.mp rest']
    | runMeta | counter | event | idempotency | effect => cases kinds
  | idempotency key =>
    cases b with
    | idempotency key' => rw [String.toList_inj.mp rest]
    | runMeta | counter | event | lease | effect => cases kinds
  | effect token =>
    cases b with
    | effect token' => rw [str_inj (String.toList_inj.mp rest)]
    | runMeta | counter | event | lease | idempotency => cases kinds

/-- A sort key begins with the fixed part of a kind only if it is of that kind. -/
theorem selected_iff {start : String} {k : Kind} (is : start.toList = k.skStart)
    (runs : k.pkStart = Kind.runMeta.pkStart) :
    i.selected (runPk runId) start = true ↔ i.kind = k ∧ i.pk = runPk runId := by
  unfold selected
  rw [is, Bool.and_eq_true, decide_eq_true_eq, List.isPrefixOf_iff_prefix, sk_toList]
  constructor
  · rintro ⟨pk, rest, same⟩
    exact ⟨(kind_of_start same).symm, pk⟩
  · rintro ⟨rfl, pk⟩
    exact ⟨pk, List.prefix_append _ _⟩

theorem runPk_inj (same : runPk runId = runPk other) : runId = other := by
  have lists := congrArg String.toList same
  have text : ∀ u : Uuid, (runPk u).toList = Kind.runMeta.pkStart ++ u.str.toList :=
    fun u => pk_toList (.runMeta u)
  rw [text, text] at lists
  exact str_inj (String.toList_inj.mp (List.append_cancel_left lists))

/-- `load_events` -/
theorem selected_events :
    i.selected (runPk runId) "EVENT#" = true ↔ ∃ seq, i = .event runId seq := by
  rw [selected_iff (k := .event) (by decide) rfl]
  constructor
  · rintro ⟨is, pk⟩
    cases i with
    | event r seq => exact ⟨seq, by rw [runPk_inj pk]⟩
    | runMeta | counter | lease | idempotency | effect => cases is
  · rintro ⟨seq, rfl⟩
    exact ⟨rfl, rfl⟩

/-- `claim` and `dequeue` -/
theorem selected_leases :
    i.selected (runPk runId) "LEASE#" = true ↔ ∃ worker, i = .lease runId worker := by
  rw [selected_iff (k := .lease) (by decide) rfl]
  constructor
  · rintro ⟨is, pk⟩
    cases i with
    | lease r worker => exact ⟨worker, by rw [runPk_inj pk]⟩
    | runMeta | counter | event | idempotency | effect => cases is
  · rintro ⟨worker, rfl⟩
    exact ⟨rfl, rfl⟩

/-- Event sort keys are in the order of the numbers. -/
theorem sk_lt_iff {m n : Nat} (hm : m < 10 ^ 20) (hn : n < 10 ^ 20) :
    (event runId m).sk < (event runId n).sk ↔ m < n := by
  have text : ∀ k, (event runId k).sk.toList = eventSk k := fun k => String.toList_ofList
  rw [String.lt_iff_toList_lt, text, text]
  constructor
  · intro lt
    by_contra ge
    rcases Nat.eq_or_lt_of_le (Nat.not_lt.mp ge) with same | more
    · exact List.lt_irrefl _ (same ▸ lt)
    · exact List.lt_irrefl _ (List.lt_trans lt (eventSk_lt more hm))
  · exact fun lt => eventSk_lt lt hn

end LayoutLemmas

open LayoutLemmas

/-- The layout of the table: two items have the same keys only if they are one; the queries for
the events and for the leases of a run select just these; and events are in the order of their
numbers. -/
theorem layout_sound :
    (∀ a b : LogicalItem, a.pk = b.pk → a.sk = b.sk → a = b) ∧
    (∀ (runId : Uuid) (i : LogicalItem),
      (i.selected (runPk runId) "EVENT#" = true ↔ ∃ seq, i = .event runId seq) ∧
      (i.selected (runPk runId) "LEASE#" = true ↔ ∃ workerId, i = .lease runId workerId)) ∧
    ∀ (runId : Uuid) (m n : Nat), m < 10 ^ 20 → n < 10 ^ 20 →
      ((LogicalItem.event runId m).sk < (LogicalItem.event runId n).sk ↔ m < n) :=
  ⟨fun _ _ => key_inj, fun _ _ => ⟨selected_events, selected_leases⟩,
    fun _ _ _ hm hn => sk_lt_iff hm hn⟩

/-- What `load_events` gets of a table: the events of the run, by number. -/
theorem query_events {runId : Uuid} {table : List LogicalItem}
    (small : ∀ seq, LogicalItem.event runId seq ∈ table → seq < 10 ^ 20) :
    ∃ seqs : List Nat, query (runPk runId) "EVENT#" table = seqs.map (.event runId) ∧
      seqs.Pairwise (· ≤ ·) ∧ ∀ seq, seq ∈ seqs ↔ .event runId seq ∈ table := by
  have mem : ∀ i, i ∈ query (runPk runId) "EVENT#" table ↔
      i ∈ table ∧ ∃ seq, i = .event runId seq := by
    intro i
    unfold query
    rw [List.mem_insertionSort, List.mem_filter, selected_events]
  have events : ∀ i ∈ query (runPk runId) "EVENT#" table, .event runId i.seq = i := by
    intro i found
    obtain ⟨-, seq, rfl⟩ := (mem i).mp found
    rfl
  have sorted : (query (runPk runId) "EVENT#" table).Pairwise fun a b => a.sk ≤ b.sk :=
    List.pairwise_insertionSort ..
  refine ⟨(query (runPk runId) "EVENT#" table).map (·.seq), ?_, ?_, fun seq => ?_⟩
  · rw [List.map_map]
    exact ((List.map_congr_left events).trans (List.map_id' _)).symm
  · rw [List.pairwise_map]
    refine sorted.imp_of_mem fun {a b} ha hb le => ?_
    obtain ⟨hold, m, rfl⟩ := (mem a).mp ha
    obtain ⟨hold', n, rfl⟩ := (mem b).mp hb
    exact not_lt.mp fun lt => not_lt.mpr le ((sk_lt_iff (small n hold') (small m hold)).mpr lt)
  · rw [List.mem_map]
    constructor
    · rintro ⟨i, found, rfl⟩
      rw [events i found]
      exact ((mem i).mp found).1
    · exact fun held => ⟨_, (mem _).mpr ⟨held, seq, rfl⟩, rfl⟩

/-- Numbers of different lengths. -/
theorem layout_sound_ten :
    (LogicalItem.event ⟨7⟩ 9).sk < (LogicalItem.event ⟨7⟩ 10).sk :=
  (layout_sound.2.2 ⟨7⟩ 9 10 (by decide) (by decide)).mpr (by decide)

end AnchorRuntime
