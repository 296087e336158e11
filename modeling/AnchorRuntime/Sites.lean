import AnchorRuntime.Alignment

/-!
# Names of one site

A site is a place that calls are made from: the workflow, one try of a body, or a verifier.
When each name is called from one site only, no other code moves its counter, and replayed
bodies and the order of branches do not matter.

Results: `indexed_reaches`, the calls of a site are numbered in order; `sites_line_up`, when
names are of one site and the calls of each site are the same in every attempt, keys line up.
-/

namespace AnchorRuntime

open Effect Machine ShapeLemmas ProcLemmas TaskLemmas PositionLemmas AlignmentLemmas Occurrences

/-! ## Sites -/

/-- Where a call is made from. -/
def CallRecord.site (rec : CallRecord) : List Place × Role := (rec.caller, rec.role)

/-- The calls of a site are numbered in order, and the places of a call are its caller's, its
number and its branches. -/
structure Proc.Indexed (cfg : Config) (proc : Proc) : Prop where
  index : proc.calls.map (fun rec => (rec.site, rec.index)) =
    ranked [] (proc.calls.map CallRecord.site)
  paths : ∀ rec ∈ proc.calls, rec.tasks.map (·.path) =
    (List.range (rec.call.allocates cfg).length).map fun branch =>
      rec.caller ++ [⟨rec.role = .verify, rec.index, branch⟩]

/-- Each name is called from one site only, the calls of a site are the same in all attempts of
the run, and of the tries of a body one only makes calls. -/
structure World.OneSite (cfg : Config) (w : World) (j : Uuid) : Prop where
  name : ∀ proc ∈ w.attemptsOf j, ∀ other ∈ w.attemptsOf j, ∀ rec ∈ proc.calls,
    ∀ rec' ∈ other.calls, ∀ name ∈ rec.call.allocates cfg, name ∈ rec'.call.allocates cfg →
      rec.site = rec'.site
  call : ∀ proc ∈ w.attemptsOf j, ∀ other ∈ w.attemptsOf j, ∀ rec ∈ proc.calls,
    ∀ rec' ∈ other.calls, rec.site = rec'.site → rec.index = rec'.index →
      rec.call.allocates cfg = rec'.call.allocates cfg
  tries : ∀ proc ∈ w.attemptsOf j, ∀ other ∈ w.attemptsOf j, ∀ rec ∈ proc.calls,
    ∀ rec' ∈ other.calls, rec.caller = rec'.caller →
      (rec.role = .verify ↔ rec'.role = .verify) → rec.role = rec'.role

namespace SiteLemmas

variable {cfg : Config} {proc other : Proc} {rec rec' : CallRecord} {t : Task} {name : String}
  {c b : Nat}

/-- The number of the next call of a site. -/
theorem callsBy_ranked (proc : Proc) (caller : List Place) (role : Role) :
    ranked (proc.calls.map CallRecord.site) [(caller, role)] =
      [((caller, role), proc.callsBy caller role)] := by
  rw [ranked_singleton, List.filter_map, List.length_map, Proc.callsBy]
  refine congrArg (fun l => [((caller, role), List.length l)]) (List.filter_congr fun rec _ => ?_)
  simp [CallRecord.site]

theorem newTasks_paths (cfg : Config) (caller : List Place) (role : Role) (call : Call)
    (keys : List String) : (proc.newTasks cfg caller role call keys).map (·.path) =
      (List.range keys.length).map fun branch =>
        caller ++ [⟨role = .verify, proc.callsBy caller role, branch⟩] := by
  refine List.ext_getElem (by simp [Proc.newTasks]) fun i _ _ => ?_
  simp [Proc.newTasks]

theorem indexed_concat {rec₀ : CallRecord} (loc : Local) (h : proc.Indexed cfg)
    (index : rec₀.index = proc.callsBy rec₀.caller rec₀.role)
    (paths : rec₀.tasks.map (·.path) =
      (List.range (rec₀.call.allocates cfg).length).map fun branch =>
        rec₀.caller ++ [⟨rec₀.role = .verify, rec₀.index, branch⟩]) :
    Proc.Indexed cfg { proc with loc, calls := proc.calls ++ [rec₀] } := by
  constructor
  · show (proc.calls ++ [rec₀]).map _ = ranked [] ((proc.calls ++ [rec₀]).map _)
    rw [List.map_append, List.map_append, ranked_append, List.nil_append, h.index,
      List.map_singleton, List.map_singleton, index]
    exact congrArg _ (callsBy_ranked proc rec₀.caller rec₀.role).symm
  · intro rec mem
    rcases List.mem_append.mp mem with old | new
    · exact h.paths rec old
    · obtain rfl := List.mem_singleton.mp new
      exact paths

theorem indexed_kept : Kept cfg fun proc => proc.Shaped cfg ∧ proc.Indexed cfg where
  claimed := fun worker runId =>
    ⟨shaped_kept.claimed worker runId, rfl, fun _ mem => absurd mem List.not_mem_nil⟩
  executed := fun runId =>
    ⟨shaped_kept.executed runId, rfl, fun _ mem => absurd mem List.not_mem_nil⟩
  beat := fun proc beat h => ⟨shaped_kept.beat proc beat h.1, h.2.index, h.2.paths⟩
  main := fun _ _ _ _ _ _ _ _ _ h hmain run =>
    ⟨shaped_kept.main _ _ _ _ _ _ _ _ _ h.1 hmain run, h.2.index, h.2.paths⟩
  task := by
    intro proc c b rec t o k r now st st' loc ans h at_ hprog run
    refine ⟨shaped_kept.task _ _ _ _ _ _ _ _ _ _ _ _ _ h.1 at_ hprog run, ?_, ?_⟩
    · have at_loc : Proc.At { proc with loc } c b rec t := at_
      rw [map_setTask at_loc rfl, map_setTask at_loc rfl]
      exact h.2.index
    · intro rec' mem
      obtain ⟨i, hi⟩ := List.mem_iff_getElem?.mp mem
      rw [setTask_calls] at hi
      split at hi
      · next e =>
        subst e
        rw [show ({ proc with loc } : Proc).calls[c]? = some rec from at_.1] at hi
        cases hi
        refine Eq.trans ?_ (h.2.paths rec (List.mem_of_getElem? at_.1))
        exact tasks_set at_ rfl
      · exact h.2.paths rec' (List.mem_of_getElem? hi)
  refused := by
    intro proc path role c exc ctx h caller hctx hnames
    refine ⟨shaped_kept.refused _ _ _ _ _ _ h.1 caller hctx hnames, ?_⟩
    refine indexed_concat proc.loc h.2 rfl ?_
    rw [show Call.allocates cfg c = [] by rw [Call.allocates, hnames]; rfl]
    rfl
  call := by
    intro proc path role c names ctx h caller hctx hnames
    refine ⟨shaped_kept.call _ _ _ _ _ _ h.1 caller hctx hnames, ?_⟩
    refine indexed_concat _ h.2 rfl ?_
    rw [newTasks_paths, RunContext.nextKeys_length,
      show Call.allocates cfg c = names by rw [Call.allocates, hnames]; rfl]
  stop := fun proc h => ⟨shaped_kept.stop proc h.1, h.2.index, h.2.paths⟩

/-! ## The calls of a site -/

/-- What is called at a site is numbered as it comes. -/
theorem nth_of_site (indexed : proc.Indexed cfg) {site : List Place × Role} {n : Nat}
    (nth : (proc.calls.filter fun rec => rec.site = site)[n]? = some rec) :
    rec ∈ proc.calls ∧ rec.site = site ∧ rec.index = n := by
  have log : entriesOf site (proc.calls.map fun rec => (rec.site, rec)) =
      proc.calls.filter fun rec => rec.site = site := by
    simp [entriesOf, List.filter_map, Function.comp_def]
  have numbers : numbered (proc.calls.map fun rec => (rec.site, rec)) =
      proc.calls.map fun rec => ((rec.site, rec.index), rec) := by
    rw [numbered, List.map_map, List.map_map]
    show (ranked [] (proc.calls.map CallRecord.site)).zip (proc.calls.map id) = _
    rw [← indexed.index, List.zip_map']
    rfl
  rw [← log, ← mem_numbered, numbers] at nth
  obtain ⟨_, mem, same⟩ := List.mem_map.mp nth
  obtain ⟨is, rfl⟩ := Prod.mk.inj same
  exact ⟨mem, Prod.mk.inj is⟩

/-- The logical calls of one call. -/
def visitsOf (cfg : Config) (rec : CallRecord) : List (String × List Place) :=
  (rec.call.allocates cfg).zip (rec.tasks.map (·.path))

theorem visits_eq (indexed : proc.Indexed cfg) :
    proc.visits cfg = proc.calls.flatMap (visitsOf cfg) := by
  have zips : ∀ l : List CallRecord, (∀ rec ∈ l, (rec.call.allocates cfg).length =
      (rec.tasks.map (·.path)).length) →
      (l.flatMap fun rec => rec.call.allocates cfg).zip
        (l.flatMap fun rec => rec.tasks.map (·.path)) = l.flatMap (visitsOf cfg) := by
    intro l lengths
    induction l with
    | nil => rfl
    | cons rec l ih =>
      rw [List.flatMap_cons, List.flatMap_cons, List.flatMap_cons,
        List.zip_append (lengths rec List.mem_cons_self),
        ih fun r mem => lengths r (List.mem_cons_of_mem _ mem)]
      rfl
  rw [Proc.visits, Proc.tasks, List.map_flatMap, ← zips proc.calls fun rec mem => ?_]
  · rfl
  · rw [indexed.paths rec mem, List.length_map, List.length_range]

/-- A logical call: a name of its call, at its site. -/
theorem visit_call (indexed : proc.Indexed cfg) {v : String × List Place}
    (visit : v ∈ proc.visits cfg) : ∃ rec ∈ proc.calls, ∃ branch : Nat,
      (rec.call.allocates cfg)[branch]? = some v.1 ∧
      v.2 = rec.caller ++ [⟨rec.role = .verify, rec.index, branch⟩] := by
  rw [visits_eq indexed] at visit
  obtain ⟨rec, mem, here⟩ := List.mem_flatMap.mp visit
  obtain ⟨branch, at_⟩ := List.mem_iff_getElem?.mp here
  obtain ⟨name, path⟩ := List.getElem?_zip_eq_some.mp at_
  refine ⟨rec, mem, branch, name, ?_⟩
  rw [indexed.paths rec mem, List.getElem?_map] at path
  obtain ⟨i, is, same⟩ := Option.map_eq_some_iff.mp path
  obtain ⟨_, rfl⟩ := List.getElem?_eq_some_iff.mp is
  rw [← same, List.getElem_range]

/-- Calls at one place are of one site, and have one number there. -/
theorem one_place {w : World} {j : Uuid} {branch branch' : Nat} (apart : w.OneSite cfg j)
    (mem : proc ∈ w.attemptsOf j) (mem' : other ∈ w.attemptsOf j) (hrec : rec ∈ proc.calls)
    (hrec' : rec' ∈ other.calls)
    (same : rec.caller ++ [(⟨rec.role = .verify, rec.index, branch⟩ : Place)] =
      rec'.caller ++ [⟨rec'.role = .verify, rec'.index, branch'⟩]) :
    rec.site = rec'.site ∧ rec.index = rec'.index ∧ branch = branch' := by
  obtain ⟨caller, last⟩ := List.append_inj' same rfl
  obtain ⟨verifies, index, branches⟩ := Place.mk.inj (List.cons.inj last).1
  have role := apart.tries proc mem other mem' rec hrec rec' hrec' caller
    (by simpa using verifies)
  exact ⟨Prod.ext caller role, index, branches⟩

theorem visits_nowhere (none_ : name ∉ rec.call.allocates cfg) :
    entriesOf name (visitsOf cfg rec) = [] := by
  refine List.eq_nil_iff_forall_not_mem.mpr fun path mem => none_ ?_
  exact (List.of_mem_zip (mem_entriesOf.mp mem)).1

/-- The calls under a name are those of its site. -/
theorem entries_site (indexed : proc.Indexed cfg) {site : List Place × Role}
    (only : ∀ rec ∈ proc.calls, name ∈ rec.call.allocates cfg → rec.site = site) :
    entriesOf name (proc.visits cfg) = ((proc.calls.filter fun rec => rec.site = site).map
      fun rec => entriesOf name (visitsOf cfg rec)).flatten := by
  rw [visits_eq indexed]
  generalize proc.calls = l at only
  induction l with
  | nil => rfl
  | cons rec l ih =>
    rw [List.flatMap_cons, entriesOf_append,
      ih fun r mem => only r (List.mem_cons_of_mem _ mem), List.filter_cons]
    split
    · rfl
    · next elsewhere =>
      have not_named : name ∉ rec.call.allocates cfg :=
        fun names => elsewhere (decide_eq_true (only rec List.mem_cons_self names))
      rw [visits_nowhere not_named]
      rfl

end SiteLemmas

open SiteLemmas

variable {cfg : Config} {now : Int} {w : World} {ok : World → Action → Prop} {j : Uuid}

theorem indexed_reaches (h : Reaches (World.step cfg) ok (.init now) w) {p : Nat} {proc : Proc}
    (hp : w.procs[p]? = some proc) : proc.Indexed cfg :=
  (indexed_kept.reaches h p proc hp).2

/-- Names of one site are called in order. -/
theorem sites_ordered (indexed : ∀ proc ∈ w.attemptsOf j, proc.Indexed cfg)
    (apart : w.OneSite cfg j) : w.CallsInOrder cfg j := by
  refine ⟨⟨fun proc mem => ?_, fun proc mem other mem' v visit v' visit' same => ?_⟩,
    fun proc mem other mem' name named => ?_⟩
  · rw [Proc.tasks, List.map_flatMap, List.nodup_flatMap]
    refine ⟨fun rec hrec => ?_, ?_⟩
    · rw [(indexed proc mem).paths rec hrec]
      refine List.nodup_range.map fun branch branch' is => ?_
      exact (one_place apart mem mem hrec hrec is).2.2
    · have distinct := ranked_nodup [] (proc.calls.map CallRecord.site)
      rw [← (indexed proc mem).index, List.Nodup, List.pairwise_map] at distinct
      refine distinct.imp_of_mem fun {rec rec'} hrec hrec' ne => ?_
      intro path (here : path ∈ rec.tasks.map (·.path)) (there : path ∈ rec'.tasks.map (·.path))
      rw [(indexed proc mem).paths _ hrec] at here
      rw [(indexed proc mem).paths _ hrec'] at there
      obtain ⟨branch, -, is⟩ := List.mem_map.mp here
      obtain ⟨branch', -, is'⟩ := List.mem_map.mp there
      obtain ⟨site, index, -⟩ := one_place apart mem mem hrec hrec' (is.trans is'.symm)
      exact ne (Prod.ext site index)
  · obtain ⟨rec, hrec, branch, name, path⟩ := visit_call (indexed proc mem) visit
    obtain ⟨rec', hrec', branch', name', path'⟩ := visit_call (indexed other mem') visit'
    obtain ⟨site, index, rfl⟩ :=
      one_place apart mem mem' hrec hrec' (path.symm.trans (same.trans path'))
    rw [apart.call proc mem other mem' rec hrec rec' hrec' site index, name'] at name
    exact (Option.some.inj name).symm
  · obtain ⟨_, called, here⟩ := List.mem_flatten.mp named
    obtain ⟨rec₀, hrec₀, rfl⟩ := List.mem_map.mp called
    have only : ∀ attempt ∈ w.attemptsOf j, ∀ rec ∈ attempt.calls,
        name ∈ rec.call.allocates cfg → rec.site = rec₀.site := fun attempt mem₀ rec hrec names =>
      apart.name attempt mem₀ proc mem rec hrec rec₀ hrec₀ name names here
    rw [entries_site (indexed proc mem) (only proc mem),
      entries_site (indexed other mem') (only other mem')]
    refine (comparable_of_agree fun n entries entries' at_ at' => ?_).imp
      List.IsPrefix.flatten List.IsPrefix.flatten
    rw [List.getElem?_map] at at_ at'
    obtain ⟨rec, nth, rfl⟩ := Option.map_eq_some_iff.mp at_
    obtain ⟨rec', nth', rfl⟩ := Option.map_eq_some_iff.mp at'
    obtain ⟨hrec, site, index⟩ := nth_of_site (indexed proc mem) nth
    obtain ⟨hrec', site', index'⟩ := nth_of_site (indexed other mem') nth'
    have names := apart.call proc mem other mem' rec hrec rec' hrec' (site.trans site'.symm)
      (index.trans index'.symm)
    obtain ⟨caller, role⟩ := Prod.mk.inj (site.trans site'.symm)
    rw [visitsOf, visitsOf, (indexed proc mem).paths rec hrec,
      (indexed other mem').paths rec' hrec', names, caller, role, index, index']

/-- When each name is called from one site, and the calls of each site are the same in every
attempt, keys line up: in any order of branches, with any steps replayed. -/
theorem sites_line_up (h : Reaches (World.step cfg) ok (.init now) w) (apart : w.OneSite cfg j) :
    w.KeysLineUp j := by
  refine lined_up_of_ordered (fun proc mem => ?_) (sites_ordered (fun proc mem => ?_) apart)
  · obtain ⟨p, hp⟩ := attempt_of mem
    exact positioned_reaches h hp
  · obtain ⟨p, hp⟩ := attempt_of mem
    exact indexed_reaches h hp

end AnchorRuntime
