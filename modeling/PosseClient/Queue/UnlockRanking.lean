/-
# Ranking runnable jobs

`rankRunnableJobs` and `compareRunnableRank` of `unlock-ranking.js`: what each candidate unblocks,
and the order by score, kind, time of creation and id.

* `rankWalk`: the walk over what waits for a candidate, and what waits for that.
* `downstream_iff`, `immediate_iff`: which jobs a candidate is credited with.
* `rankRunnableJobs_exact`: the ranking, in a strict total order of the candidates.

`localeCompare` compares the collation keys of two texts; they are an argument. The memo is not
given here.
-/
import PosseClient.Queue.UnlockGraph
import PosseClient.Lib.GraphSearch
import PosseClient.Lib.KeySort

namespace PosseClient

open Relation

/-! ## 1. The walk -/

/-- The loop over `pending`; the top of the stack comes first. -/
structure RankWalk where
  pending : List ℕ
  descendants : List ℕ := []
  files : List String := []
  deriving DecidableEq, Repr

/-- The body of the inner loop. -/
def RankWalk.visit (start : ℕ) (walk : RankWalk) (entry : ℕ × List EdgeReason) : RankWalk :=
  if entry.1 = start then walk
  else
    let files := entry.2.foldl (fun files reason =>
      match reason.file with
      | none => files
      | some file => if file = "" ∨ file ∈ files then files else files ++ [file]) walk.files
    if entry.1 ∈ walk.descendants then { walk with files := files }
    else ⟨entry.1 :: walk.pending, walk.descendants ++ [entry.1], files⟩

/-- The outer loop. -/
def rankWalk (outgoing : ℕ → List (ℕ × List EdgeReason)) (start : ℕ) : ℕ → RankWalk → RankWalk
  | 0, walk => walk
  | fuel + 1, walk =>
    match walk.pending with
    | [] => walk
    | parent :: pending => rankWalk outgoing start fuel
        ((outgoing parent).foldl (RankWalk.visit start) { walk with pending := pending })

/-- The walk of a candidate: it comes to each job once. -/
def walkOf (graph : UnlockGraph) (start : ℕ) : RankWalk :=
  rankWalk graph.outgoing start (graph.ids.length + 1) { pending := [start] }

/-! ## 2. The score and the order -/

/-- `POLICY.priorities`. -/
def priorityRank : JobPriority → ℤ
  | .urgent => 3
  | .high => 2
  | .normal => 1
  | .low => 0

/-- `POLICY.priorityWeight`. -/
def priorityWeight : ℤ := 32

/-- `POLICY.maxUnlockWeight`. -/
def maxUnlockWeight : ℤ := 24

/-- `POLICY.ageQuantumMs`. -/
def ageQuantumMs : ℤ := 5 * 60 * 1000

/-- The member `_scheduling`. -/
structure JobScheduling where
  score : ℤ
  priority : ℤ
  age : ℤ
  impact : ℤ
  immediateJobIds : List ℕ
  downstreamJobIds : List ℕ
  files : List String
  edges : List (ℕ × List EdgeReason)
  deriving DecidableEq, Repr

/-- A candidate with its `_scheduling`. -/
structure RankedJob (φ : Type*) where
  job : UnlockJob φ
  scheduling : JobScheduling

/-- The code units of a text. -/
def codeUnits (text : String) : List ℕ :=
  text.toList.flatMap fun c =>
    if c.toNat < 0x10000 then [c.toNat]
    else [0xD800 + (c.toNat - 0x10000) / 0x400, 0xDC00 + (c.toNat - 0x10000) % 0x400]

/-- `[true, 1, "1"].includes(value)`. -/
def isAssessOnly : Option Json.Value → Bool
  | some (.bool b) => b
  | some (.number n) => n.text == [49]
  | some (.string s) => s == [49]
  | _ => false

section Ranking

variable {φ : Type*}

/-- The `kind` of `compareRunnableRank`. -/
def rankKind (job : UnlockJob φ) : ℕ :=
  if isAssessOnly job.payload.assessOnly then 0
  else if job.jobType = .fix then 1
  else if job.jobType = .promote then 2
  else 3

/-- The body of the `map`. -/
def rankJob (graph : UnlockGraph) (nowMs : ℤ) (job : UnlockJob φ) : RankedJob φ :=
  let walk := walkOf graph job.id
  let direct := (graph.outgoing job.id).map Prod.fst
  let immediate := direct.filter fun id => (graph.needs id).length == 1
  let createdMs := (job.createdMs.filter (· ≠ 0)).getD nowMs
  let age := max 0 ((nowMs - createdMs) / ageQuantumMs)
  let impact := min maxUnlockWeight (immediate.length * 2 + walk.descendants.length)
  let priority := priorityRank job.priority * priorityWeight
  { job := job
    scheduling :=
      { score := priority + age + impact, priority := priority, age := age, impact := impact
        immediateJobIds := immediate.mergeSort fun a b => decide (a ≤ b)
        downstreamJobIds := walk.descendants.mergeSort fun a b => decide (a ≤ b)
        files := walk.files.mergeSort fun a b => decide (codeUnits a ≤ codeUnits b)
        edges := graph.outgoing job.id } }

variable {κ : Type*} [LinearOrder κ] (collationKey : String → κ)

/-- `compareRunnableRank`. -/
def compareRunnableRank (a b : RankedJob φ) : Ordering :=
  (compare b.scheduling.score a.scheduling.score).then <|
    (compare (rankKind a.job) (rankKind b.job)).then <|
      (compare (collationKey a.job.createdAt) (collationKey b.job.createdAt)).then <|
        compare a.job.id b.job.id

/-- `rankRunnableJobs`, on a graph. -/
def rankCandidates (graph : UnlockGraph) (nowMs : ℤ) (candidates : List (UnlockJob φ)) :
    List (RankedJob φ) :=
  (candidates.map (rankJob graph nowMs)).mergeSort fun a b =>
    (compareRunnableRank collationKey a b).isLE

/-- `rankRunnableJobs` without a memo. -/
def rankRunnableJobs (normalizeRepoPath : φ → String) (tables : UnlockTables φ) (nowMs : ℤ)
    (candidates : List (UnlockJob φ)) : List (RankedJob φ) :=
  rankCandidates collationKey (buildUnlockGraph normalizeRepoPath tables) nowMs candidates

end Ranking

/-! ## 3. What the walk finds -/

section Walk

variable {outgoing : ℕ → List (ℕ × List EdgeReason)} {start : ℕ}

theorem visit_push (walk : RankWalk) (entry : ℕ × List EdgeReason) :
    ((walk.visit start entry).pending, (walk.visit start entry).descendants) =
      GraphSearch.push start (walk.pending, walk.descendants) entry.1 := by
  unfold RankWalk.visit GraphSearch.push
  by_cases hstart : entry.1 = start
  · rw [if_pos hstart, if_pos (Or.inl hstart)]
  · rw [if_neg hstart]
    dsimp only
    by_cases hold : entry.1 ∈ walk.descendants
    · rw [if_pos hold, if_pos (Or.inr hold)]
    · rw [if_neg hold, if_neg (not_or.mpr ⟨hstart, hold⟩)]

theorem foldl_visit_push : ∀ (entries : List (ℕ × List EdgeReason)) (walk : RankWalk),
    ((entries.foldl (RankWalk.visit start) walk).pending,
        (entries.foldl (RankWalk.visit start) walk).descendants) =
      (entries.map Prod.fst).foldl (GraphSearch.push start) (walk.pending, walk.descendants)
  | [], _ => rfl
  | entry :: entries, walk => by
    rw [List.foldl_cons, foldl_visit_push entries, List.map_cons, List.foldl_cons, visit_push]

/-- **The walk is the one of the library**, files apart. -/
theorem rankWalk_walk : ∀ (fuel : ℕ) (walk : RankWalk),
    ((rankWalk outgoing start fuel walk).pending, (rankWalk outgoing start fuel walk).descendants) =
      GraphSearch.walk (fun id => (outgoing id).map Prod.fst) start fuel
        (walk.pending, walk.descendants)
  | 0, _ => rfl
  | fuel + 1, ⟨[], _, _⟩ => rfl
  | fuel + 1, ⟨parent :: pending, descendants, files⟩ => by
    rw [rankWalk, rankWalk_walk fuel, foldl_visit_push]
    rfl

end Walk

section Spec

variable {φ : Type*} (normalizeRepoPath : φ → String) (tables : UnlockTables φ)

/-- **A job unblocks another**: it is live, and the other waits for it. -/
def Unblocks (producer consumer : ℕ) : Prop :=
  WaitsFor normalizeRepoPath tables consumer producer ∧ tables.isLive producer = true

theorem unblocks_step : GraphSearch.Step (fun id =>
      ((buildUnlockGraph normalizeRepoPath tables).outgoing id).map Prod.fst) =
    Unblocks normalizeRepoPath tables := by
  funext producer consumer
  exact propext (outgoing_iff normalizeRepoPath)

/-- The consumers of the graph are among its keys. -/
theorem outgoing_mem_ids (producer consumer : ℕ)
    (h : consumer ∈ ((buildUnlockGraph normalizeRepoPath tables).outgoing producer).map Prod.fst) :
    consumer ∈ (buildUnlockGraph normalizeRepoPath tables).ids := by
  obtain ⟨⟨-, hlive, -⟩, -⟩ := (outgoing_iff normalizeRepoPath).mp h
  rw [buildUnlockGraph_ids]
  exact isLive_iff.mp hlive

variable {normalizeRepoPath tables}

theorem walkOf_walk (start : ℕ) :
    ((walkOf (buildUnlockGraph normalizeRepoPath tables) start).pending,
        (walkOf (buildUnlockGraph normalizeRepoPath tables) start).descendants) =
      GraphSearch.walk (fun id =>
        ((buildUnlockGraph normalizeRepoPath tables).outgoing id).map Prod.fst) start
        ((buildUnlockGraph normalizeRepoPath tables).ids.length + 1) ([start], []) :=
  rankWalk_walk _ _

/-- Every walk ends. -/
theorem walkOf_ends (start : ℕ) :
    (walkOf (buildUnlockGraph normalizeRepoPath tables) start).pending = [] := by
  have hends : (GraphSearch.walk (fun id =>
      ((buildUnlockGraph normalizeRepoPath tables).outgoing id).map Prod.fst) start
      ((buildUnlockGraph normalizeRepoPath tables).ids.length + 1) ([start], [])).1 = [] :=
    GraphSearch.walk_ends (outgoing_mem_ids normalizeRepoPath tables) (Nat.lt_succ_self _)
  rw [← walkOf_walk] at hends
  exact hends

theorem mem_descendants_iff {start id : ℕ} :
    id ∈ (walkOf (buildUnlockGraph normalizeRepoPath tables) start).descendants ↔
      TransGen (Unblocks normalizeRepoPath tables) start id ∧ id ≠ start := by
  rw [← unblocks_step, ← GraphSearch.mem_walk_iff (outgoing_mem_ids normalizeRepoPath tables)
    (Nat.lt_succ_self _), ← walkOf_walk]

variable {nowMs : ℤ} {job : UnlockJob φ} {id : ℕ}

/-- **`downstream_job_ids`** is what a candidate unblocks, and what that unblocks. -/
theorem downstream_iff :
    id ∈ (rankJob (buildUnlockGraph normalizeRepoPath tables) nowMs
        job).scheduling.downstreamJobIds ↔
      TransGen (Unblocks normalizeRepoPath tables) job.id id ∧ id ≠ job.id := by
  rw [← mem_descendants_iff]
  exact (List.mergeSort_perm _ _).mem_iff

theorem downstream_nodup : (rankJob (buildUnlockGraph normalizeRepoPath tables) nowMs
    job).scheduling.downstreamJobIds.Nodup := by
  have hnodup : (GraphSearch.walk (fun id =>
      ((buildUnlockGraph normalizeRepoPath tables).outgoing id).map Prod.fst) job.id
      ((buildUnlockGraph normalizeRepoPath tables).ids.length + 1) ([job.id], [])).2.Nodup :=
    GraphSearch.walk_nodup (outgoing_mem_ids normalizeRepoPath tables) (Nat.lt_succ_self _)
  rw [← walkOf_walk] at hnodup
  exact (List.mergeSort_perm _ _).nodup_iff.mpr hnodup

/-- **`immediate_job_ids`** is what a candidate unblocks alone. -/
theorem immediate_iff :
    id ∈ (rankJob (buildUnlockGraph normalizeRepoPath tables) nowMs
        job).scheduling.immediateJobIds ↔
      Unblocks normalizeRepoPath tables job.id id ∧
        ∀ producer, WaitsFor normalizeRepoPath tables id producer → producer = job.id := by
  have hgraph := graphOf_buildUnlockGraph normalizeRepoPath tables
  have hmem : id ∈ (rankJob (buildUnlockGraph normalizeRepoPath tables) nowMs
      job).scheduling.immediateJobIds ↔
        id ∈ ((buildUnlockGraph normalizeRepoPath tables).outgoing job.id).map Prod.fst ∧
          ((buildUnlockGraph normalizeRepoPath tables).needs id).length = 1 := by
    refine (List.mergeSort_perm _ _).mem_iff.trans ?_
    rw [List.mem_filter, beq_iff_eq]
  rw [hmem, outgoing_iff]
  refine and_congr_right fun hunblocks => ?_
  have hneeds := (needs_iff normalizeRepoPath).mpr hunblocks.1
  rw [List.length_eq_one_iff]
  constructor
  · rintro ⟨only, honly⟩ producer hproducer
    have hin := (needs_iff normalizeRepoPath).mpr hproducer
    rw [honly, List.mem_singleton] at hin hneeds
    exact hin.trans hneeds.symm
  · intro hall
    refine ⟨job.id, List.perm_singleton.mp ((List.perm_ext_iff_of_nodup (hgraph.needs_nodup id)
      (List.nodup_singleton _)).mpr fun producer => ?_)⟩
    rw [List.mem_singleton]
    constructor
    · exact fun h => hall producer ((needs_iff normalizeRepoPath).mp h)
    · rintro rfl
      exact hneeds

theorem immediate_nodup : (rankJob (buildUnlockGraph normalizeRepoPath tables) nowMs
    job).scheduling.immediateJobIds.Nodup := by
  refine (List.mergeSort_perm _ _).nodup_iff.mpr (List.Nodup.filter _ ?_)
  exact (graphOf_buildUnlockGraph normalizeRepoPath tables).outgoing_nodup job.id

end Spec

/-! ## 4. The order -/

section Order

variable {φ κ : Type*} [LinearOrder κ] {collationKey : String → κ}

/-- What the comparison goes by. -/
def rankKey (collationKey : String → κ) (ranked : RankedJob φ) : ℤᵒᵈ ×ₗ ℕ ×ₗ κ ×ₗ ℕ :=
  toLex (OrderDual.toDual ranked.scheduling.score, toLex (rankKind ranked.job,
    toLex (collationKey ranked.job.createdAt, ranked.job.id)))

theorem isLE_then {o p : Ordering} :
    (o.then p).isLE = true ↔ o = .lt ∨ (o = .eq ∧ p.isLE = true) := by
  cases o <;> simp

theorem then_eq_lt {o p : Ordering} : o.then p = .lt ↔ o = .lt ∨ (o = .eq ∧ p = .lt) := by
  cases o <;> simp

/-- **The comparison is the order of the key.** -/
theorem compareRunnableRank_isLE (a b : RankedJob φ) :
    (compareRunnableRank collationKey a b).isLE = true ↔
      rankKey collationKey a ≤ rankKey collationKey b := by
  rw [compareRunnableRank, isLE_then, isLE_then, isLE_then, compare_lt_iff_lt, compare_lt_iff_lt,
    compare_lt_iff_lt, compare_eq_iff_eq, compare_eq_iff_eq, compare_eq_iff_eq,
    Std.isLE_compare, rankKey, rankKey, Prod.Lex.toLex_le_toLex, Prod.Lex.toLex_le_toLex,
    Prod.Lex.toLex_le_toLex, OrderDual.toDual_lt_toDual, OrderDual.toDual_inj]
  rw [eq_comm (a := b.scheduling.score)]

theorem compareRunnableRank_lt (a b : RankedJob φ) :
    compareRunnableRank collationKey a b = .lt ↔
      rankKey collationKey a < rankKey collationKey b := by
  rw [compareRunnableRank, then_eq_lt, then_eq_lt, then_eq_lt, compare_lt_iff_lt,
    compare_lt_iff_lt, compare_lt_iff_lt, compare_lt_iff_lt, compare_eq_iff_eq, compare_eq_iff_eq,
    compare_eq_iff_eq, rankKey, rankKey, Prod.Lex.toLex_lt_toLex, Prod.Lex.toLex_lt_toLex,
    Prod.Lex.toLex_lt_toLex, OrderDual.toDual_lt_toDual, OrderDual.toDual_inj]
  rw [eq_comm (a := b.scheduling.score)]

omit [LinearOrder κ] in
/-- The id is part of the key. -/
theorem rankKey_id {a b : RankedJob φ} (h : rankKey collationKey a = rankKey collationKey b) :
    a.job.id = b.job.id := by
  have hrest := (Prod.mk.inj (toLex_inj.mp h)).2
  have hlast := (Prod.mk.inj (toLex_inj.mp hrest)).2
  exact (Prod.mk.inj (toLex_inj.mp hlast)).2

variable {normalizeRepoPath : φ → String} {tables : UnlockTables φ}

theorem mem_rankCandidates {graph : UnlockGraph} {nowMs : ℤ} {candidates : List (UnlockJob φ)}
    {ranked : RankedJob φ} :
    ranked ∈ rankCandidates collationKey graph nowMs candidates ↔
      ∃ job ∈ candidates, rankJob graph nowMs job = ranked := by
  rw [rankCandidates, List.mem_mergeSort, List.mem_map]

/-- **The ranking**: each candidate is credited with exactly what it unblocks, every walk ends, and
the candidates come in a strict total order, whatever order they were given in. Two candidates with
one id are one row. -/
theorem rankRunnableJobs_exact (collationKey : String → κ) (normalizeRepoPath : φ → String)
    (tables : UnlockTables φ) (nowMs : ℤ) (candidates : List (UnlockJob φ))
    (hkey : ∀ a ∈ candidates, ∀ b ∈ candidates, a.id = b.id → a = b) :
    let ranking := rankRunnableJobs collationKey normalizeRepoPath tables nowMs candidates
    (ranking.map (·.job)).Perm candidates ∧
      (∀ ranked ∈ ranking, ranked.scheduling.downstreamJobIds.Nodup ∧
        ∀ id, id ∈ ranked.scheduling.downstreamJobIds ↔
          TransGen (Unblocks normalizeRepoPath tables) ranked.job.id id ∧ id ≠ ranked.job.id) ∧
      (∀ ranked ∈ ranking, ranked.scheduling.immediateJobIds.Nodup ∧
        ∀ id, id ∈ ranked.scheduling.immediateJobIds ↔
          Unblocks normalizeRepoPath tables ranked.job.id id ∧
            ∀ producer, WaitsFor normalizeRepoPath tables id producer →
              producer = ranked.job.id) ∧
      (∀ start, (walkOf (buildUnlockGraph normalizeRepoPath tables) start).pending = []) ∧
      (ranking.Pairwise fun a b => compareRunnableRank collationKey a b = .lt ∨ a = b) ∧
      ∀ candidates', candidates.Perm candidates' →
        rankRunnableJobs collationKey normalizeRepoPath tables nowMs candidates' = ranking := by
  intro ranking
  -- equal keys are of one id, hence of one row
  have hinj : ∀ a ∈ candidates.map (rankJob (buildUnlockGraph normalizeRepoPath tables) nowMs),
      ∀ b ∈ candidates.map (rankJob (buildUnlockGraph normalizeRepoPath tables) nowMs),
        rankKey collationKey a = rankKey collationKey b → a = b := by
    intro a ha b hb heq
    obtain ⟨x, hx, rfl⟩ := List.mem_map.mp ha
    obtain ⟨y, hy, rfl⟩ := List.mem_map.mp hb
    rw [hkey x hx y hy (rankKey_id heq)]
  refine ⟨?_, ?_, ?_, walkOf_ends, ?_, ?_⟩
  · have hperm := (List.mergeSort_perm (candidates.map (rankJob (buildUnlockGraph normalizeRepoPath
      tables) nowMs)) fun a b => (compareRunnableRank collationKey a b).isLE).map (·.job)
    have hjobs : (candidates.map (rankJob (buildUnlockGraph normalizeRepoPath tables) nowMs)).map
        (·.job) = candidates := by
      rw [List.map_map]
      exact List.map_id candidates
    rw [hjobs] at hperm
    exact hperm
  · intro ranked hranked
    obtain ⟨job, -, rfl⟩ := mem_rankCandidates.mp hranked
    exact ⟨downstream_nodup, fun id => downstream_iff⟩
  · intro ranked hranked
    obtain ⟨job, -, rfl⟩ := mem_rankCandidates.mp hranked
    exact ⟨immediate_nodup, fun id => immediate_iff⟩
  · have hsorted : ranking.Pairwise fun a b => rankKey collationKey a ≤ rankKey collationKey b :=
      KeySort.pairwise_mergeSort compareRunnableRank_isLE _
    refine List.Pairwise.imp_of_mem (fun {a b} ha hb hab => ?_) hsorted
    rcases lt_or_eq_of_le hab with hlt | heq
    · exact Or.inl ((compareRunnableRank_lt a b).mpr hlt)
    · exact Or.inr (hinj a (List.mem_mergeSort.mp ha) b (List.mem_mergeSort.mp hb) heq)
  · intro candidates' hperm
    exact (KeySort.mergeSort_eq_of_perm compareRunnableRank_isLE hinj (hperm.map _)).symm

/-- A job that waits for another, and their ranking from both ends. -/
def chainedTables : UnlockTables String where
  jobs := [{ id := 1, jobType := .dev, status := .queued },
    { id := 2, jobType := .dev, status := .queued }]
  dependencies := [⟨2, 1, .hard⟩]
  jobs_key := by decide

theorem rankRunnableJobs_exact_chained :
    rankRunnableJobs id id chainedTables 0 chainedTables.jobs.reverse =
      rankRunnableJobs id id chainedTables 0 chainedTables.jobs := by
  refine (rankRunnableJobs_exact id id chainedTables 0 chainedTables.jobs ?_).2.2.2.2.2 _
    (List.reverse_perm _).symm
  intro a ha b hb hid
  exact Table.eq_of_key_eq chainedTables.jobs_key ha hb hid

end Order

end PosseClient
