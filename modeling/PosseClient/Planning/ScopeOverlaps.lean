/-
# Plan jobs with a file in common

`serializePlanScopeOverlaps` of `plan-scope-overlap.js`: of two writers of a plan that share a file,
one waits for the other.

* `serializePlanScopeOverlaps`: the double loop, with the graph it keeps beside the table.
* `Serializing`: the graph is that of the table, it has no cycle, and each edge that was added was
  needed.
* `serializePlanScopeOverlaps_orders`: the call ends, and every two such writers are ordered.

`normPath` is an argument, and what a payload has for a file is of any type. Events are left out.
-/
import PosseClient.Lib.GraphSearch
import PosseClient.Queue.Dependencies

namespace PosseClient

open Reachability GraphSearch Relation

/-! ## 1. The source -/

/-- A job of the plan, with what its payload has for files. -/
structure PlanJob (φ : Type*) where
  id : ℕ
  jobType : JobType
  filesToModify : List φ := []
  filesToCreate : List φ := []
  filesToDelete : List φ := []
  deriving DecidableEq, Repr

/-- An entry of the result. -/
structure ScopeOverlap where
  upstreamJobId : ℕ
  downstreamJobId : ℕ
  paths : List String
  deriving DecidableEq, Repr

inductive SerializeError
  | cannotSerialize (upstream downstream : ℕ)
  | database (error : DbError)
  deriving DecidableEq, Repr

/-- `getDependencies`: the join leaves out edges to jobs that do not exist. -/
def getDependencies (db : Db) (jobId : ℕ) : List Dependency :=
  db.dependencies.filter fun d => d.jobId == jobId && (db.getJob d.dependsOnJobId).isSome

/-- The edges that `reaches` follows. -/
def followedEdges (graph : ℕ → List Dependency) (hardOnly : Bool) (id : ℕ) : List ℕ :=
  ((graph id).filter fun edge => !hardOnly || edge.kind == .hard).map (·.dependsOnJobId)

/-- `reaches`; `size` is the number of jobs in the graph. -/
def reaches (size : ℕ) (graph : ℕ → List Dependency) (source target : ℕ) (hardOnly : Bool) :
    Bool :=
  (search (followedEdges graph hardOnly) (fun id => decide (id = target)) (size + 1) []
    source).isNone

section Source

variable {φ : Type*} (normPath : φ → String)

/-- The filter of `writers`. -/
def PlanJob.isWriter (job : PlanJob φ) : Bool := [JobType.dev, JobType.fix].contains job.jobType

/-- The set of normalized files of a job. -/
def PlanJob.scope (job : PlanJob φ) : List String :=
  ((job.filesToModify ++ job.filesToCreate ++ job.filesToDelete).map normPath).eraseDups

/-- `scopes.get(id)`; the last writer of an id has the entry. -/
def scopesGet (writers : List (PlanJob φ)) (id : ℕ) : List String :=
  ((writers.reverse.find? fun job => decide (job.id = id)).map (PlanJob.scope normPath)).getD []

/-- The files that the scopes of two writers share. -/
def sharedPaths (writers : List (PlanJob φ)) (a b : PlanJob φ) : List String :=
  (scopesGet normPath writers a.id).filter fun file =>
    decide (file ∈ scopesGet normPath writers b.id)

/-- The pairs of the double loop in its order; `earlier` has the writers before. -/
def writerPairs (earlier : List (PlanJob φ)) : List (PlanJob φ) → List (PlanJob φ × PlanJob φ)
  | [] => []
  | later :: rest => earlier.map (·, later) ++ writerPairs (earlier ++ [later]) rest

/-- What the loop goes on with. -/
structure SerializeState where
  db : Db
  graph : ℕ → List Dependency
  overlaps : List ScopeOverlap := []

/-- The body of the double loop. -/
def serializePair (size : ℕ) (writers : List (PlanJob φ)) (state : SerializeState)
    (pair : PlanJob φ × PlanJob φ) : Except SerializeError SerializeState :=
  let (a, b) := pair
  let paths := sharedPaths normPath writers a b
  if paths = [] ∨ reaches size state.graph a.id b.id true ∨
      reaches size state.graph b.id a.id true then .ok state
  else
    let (upstream, downstream) :=
      if reaches size state.graph a.id b.id false then (b, a) else (a, b)
    match addDependency state.db downstream.id upstream.id .hard with
    | .error error => .error (.database error)
    | .ok (_, false) => .error (.cannotSerialize upstream.id downstream.id)
    | .ok (db', true) =>
      .ok { db := db'
            graph := Function.update state.graph downstream.id (getDependencies db' downstream.id)
            overlaps := state.overlaps ++ [⟨upstream.id, downstream.id, paths⟩] }

/-- The state before the loop: a graph of the listed jobs. -/
def serializeStart (db : Db) (jobs : List (PlanJob φ)) : SerializeState where
  db := db
  graph := fun id => if id ∈ jobs.map (·.id) then getDependencies db id else []

/-- `serializePlanScopeOverlaps`. -/
def serializePlanScopeOverlaps (db : Db) (jobs : List (PlanJob φ)) :
    Except SerializeError SerializeState :=
  let writers := jobs.filter PlanJob.isWriter
  (writerPairs [] writers).foldlM (serializePair normPath jobs.length writers)
    (serializeStart db jobs)

end Source

/-! ## 2. Hard edges and the table -/

/-- `j` waits for the success of `d`. -/
def HardDependsOn (db : Db) (j d : ℕ) : Prop :=
  ∃ e ∈ db.dependencies, e.jobId = j ∧ e.dependsOnJobId = d ∧ e.kind = .hard

theorem HardDependsOn.dependsOn {db : Db} {j d : ℕ} (h : HardDependsOn db j d) :
    DependsOn db j d := by
  obtain ⟨e, he, hj, hd, -⟩ := h
  exact dependsOn_iff.mpr ⟨e, he, hj, hd⟩

/-- A hard upsert writes its edge or makes it hard. -/
theorem upsertDependency_cases {db db' : Db} {j d : ℕ}
    (h : upsertDependency db j d .hard = .ok db') :
    db'.jobs = db.jobs ∧
      ((DependsOn db j d ∧ db'.dependencies = Table.updateWhere
          (fun e => e.isEdge j d && e.kind == .soft) (fun e => { e with kind := .hard })
          db.dependencies) ∨
        db'.dependencies = db.dependencies ++ [⟨j, d, .hard⟩]) := by
  unfold upsertDependency at h
  split at h
  case isTrue hany =>
    cases h
    obtain ⟨e, he, hedge⟩ := List.any_eq_true.mp hany
    refine ⟨rfl, Or.inl ⟨dependsOn_iff.mpr ⟨e, he, isEdge_iff.mp hedge⟩, ?_⟩⟩
    simp
  case isFalse =>
    split at h
    case isTrue =>
      cases h
      exact ⟨rfl, Or.inr rfl⟩
    case isFalse => cases h

theorem hardDependsOn_upsert {db db' : Db} {j d : ℕ}
    (h : upsertDependency db j d .hard = .ok db') {x y : ℕ} :
    HardDependsOn db' x y ↔ HardDependsOn db x y ∨ (x = j ∧ y = d) := by
  unfold HardDependsOn
  rcases (upsertDependency_cases h).2 with ⟨hold, hrows⟩ | hrows
  · rw [hrows]
    constructor
    · rintro ⟨e, he, rfl, rfl, hhard⟩
      rcases Table.mem_updateWhere_cases he with ⟨hmem, -⟩ | ⟨old, -, hedge, rfl⟩
      · exact Or.inl ⟨e, hmem, rfl, rfl, hhard⟩
      · exact Or.inr (isEdge_iff.mp (Bool.and_eq_true_iff.mp hedge).1)
    · rintro (⟨e, he, rfl, rfl, hhard⟩ | ⟨rfl, rfl⟩)
      · refine ⟨e, Table.mem_updateWhere_of_not he ?_, rfl, rfl, hhard⟩
        rw [hhard]
        exact Bool.and_false _
      · obtain ⟨e, he, hj, hd⟩ := dependsOn_iff.mp hold
        cases hkind : e.kind with
        | hard =>
          refine ⟨e, Table.mem_updateWhere_of_not he ?_, hj, hd, hkind⟩
          rw [hkind]
          exact Bool.and_false _
        | soft =>
          refine ⟨_, Table.mem_updateWhere_of he ?_, hj, hd, rfl⟩
          rw [hkind, Bool.and_eq_true]
          exact ⟨isEdge_iff.mpr ⟨hj, hd⟩, rfl⟩
  · rw [hrows]
    constructor
    · rintro ⟨e, he, rfl, rfl, hhard⟩
      rcases List.mem_append.mp he with he | he
      · exact Or.inl ⟨e, he, rfl, rfl, hhard⟩
      · rw [List.mem_singleton.mp he]
        exact Or.inr ⟨rfl, rfl⟩
    · rintro (⟨e, he, hj, hd, hhard⟩ | ⟨rfl, rfl⟩)
      · exact ⟨e, List.mem_append_left _ he, hj, hd, hhard⟩
      · exact ⟨_, List.mem_append_right _ List.mem_cons_self, rfl, rfl, rfl⟩

/-- The edges of other jobs are not touched. -/
theorem getDependencies_upsert {db db' : Db} {j d : ℕ}
    (h : upsertDependency db j d .hard = .ok db') {id : ℕ} (hid : id ≠ j) :
    getDependencies db' id = getDependencies db id := by
  obtain ⟨hjobs, hrows⟩ := upsertDependency_cases h
  have hget : ∀ k, db'.getJob k = db.getJob k := by
    intro k
    unfold Db.getJob
    rw [hjobs]
  unfold getDependencies
  simp only [hget]
  have hne : (j == id) = false := beq_false_of_ne (Ne.symm hid)
  rcases hrows with ⟨-, hrows⟩ | hrows
  · rw [hrows]
    refine Table.select_updateWhere fun e he => ?_
    have hjob : e.jobId = j := (isEdge_iff.mp (Bool.and_eq_true_iff.mp he).1).1
    constructor
    · rw [hjob, hne, Bool.false_and]
    · rw [hjob, hne, Bool.false_and]
  · rw [hrows, List.filter_append]
    simp [hne]

/-! ## 3. What the loop keeps -/

/-- The edge of an entry of the result. -/
def OverlapEdge (overlaps : List ScopeOverlap) (x y : ℕ) : Prop :=
  ∃ overlap ∈ overlaps, overlap.downstreamJobId = x ∧ overlap.upstreamJobId = y

theorem overlapEdge_concat {overlaps : List ScopeOverlap} {overlap : ScopeOverlap} {x y : ℕ} :
    OverlapEdge (overlaps ++ [overlap]) x y ↔
      OverlapEdge overlaps x y ∨ (x = overlap.downstreamJobId ∧ y = overlap.upstreamJobId) := by
  unfold OverlapEdge
  constructor
  · rintro ⟨o, ho, rfl, rfl⟩
    rcases List.mem_append.mp ho with ho | ho
    · exact Or.inl ⟨o, ho, rfl, rfl⟩
    · rw [List.mem_singleton.mp ho]
      exact Or.inr ⟨rfl, rfl⟩
  · rintro (⟨o, ho, hx, hy⟩ | ⟨rfl, rfl⟩)
    · exact ⟨o, List.mem_append_left _ ho, hx, hy⟩
    · exact ⟨overlap, List.mem_append_right _ List.mem_cons_self, rfl, rfl⟩

/-- Two jobs that hard edges order. -/
def HardOrdered (r : ℕ → ℕ → Prop) (x y : ℕ) : Prop := TransGen r x y ∨ TransGen r y x

/-- **The loop under way**: its graph is that of the table, which still has what it had, and each
entry of the result stands for an edge between jobs that were not ordered by hard edges then. -/
structure Serializing (ids : List ℕ) (db : Db) (state : SerializeState) : Prop where
  rows : ∀ id ∈ ids, (state.db.getJob id).isSome
  graph_listed : ∀ id ∈ ids, state.graph id = getDependencies state.db id
  graph_other : ∀ id, id ∉ ids → state.graph id = []
  acyclic : Acyclic (DependsOn state.db)
  inside : PathsInside (DependsOn state.db) (· ∈ ids)
  edges : ∀ x y, DependsOn state.db x y ↔ DependsOn db x y ∨ OverlapEdge state.overlaps x y
  hard : ∀ x y, HardDependsOn state.db x y ↔ HardDependsOn db x y ∨ OverlapEdge state.overlaps x y
  needed : ∀ before overlap after, state.overlaps = before ++ overlap :: after →
    ¬HardOrdered (fun x y => HardDependsOn db x y ∨ OverlapEdge before x y)
      overlap.upstreamJobId overlap.downstreamJobId

section Reaches

variable {ids : List ℕ} {db : Db} {state : SerializeState}

/-- The relation that `reaches` follows. -/
def FollowedEdge (db : Db) (hardOnly : Bool) (x y : ℕ) : Prop :=
  ∃ e ∈ db.dependencies, e.jobId = x ∧ e.dependsOnJobId = y ∧ (hardOnly = true → e.kind = .hard)

theorem followedEdge_true {x y : ℕ} : FollowedEdge db true x y ↔ HardDependsOn db x y := by
  simp [FollowedEdge, HardDependsOn]

theorem followedEdge_false {x y : ℕ} : FollowedEdge db false x y ↔ DependsOn db x y := by
  simp [FollowedEdge, dependsOn_iff]

theorem FollowedEdge.dependsOn {hardOnly : Bool} {x y : ℕ} (h : FollowedEdge db hardOnly x y) :
    DependsOn db x y := by
  obtain ⟨e, he, hx, hy, -⟩ := h
  exact dependsOn_iff.mpr ⟨e, he, hx, hy⟩

/-- The edges of a listed job, as far as they lead to jobs that exist. -/
theorem Serializing.mem_followedEdges (h : Serializing ids db state) {hardOnly : Bool} {x y : ℕ}
    (hx : x ∈ ids) :
    y ∈ followedEdges state.graph hardOnly x ↔
      FollowedEdge state.db hardOnly x y ∧ (state.db.getJob y).isSome := by
  rw [followedEdges, h.graph_listed x hx, getDependencies]
  simp only [List.mem_map, List.mem_filter, Bool.and_eq_true, beq_iff_eq, Bool.or_eq_true,
    Bool.not_eq_true', FollowedEdge]
  constructor
  · rintro ⟨e, ⟨⟨he, hjob, hsome⟩, hkind⟩, rfl⟩
    refine ⟨⟨e, he, hjob, rfl, fun hhard => ?_⟩, hsome⟩
    exact hkind.resolve_left fun hsoft => by rw [hhard] at hsoft; cases hsoft
  · rintro ⟨⟨e, he, hjob, rfl, hkind⟩, hsome⟩
    refine ⟨e, ⟨⟨he, hjob, hsome⟩, ?_⟩, rfl⟩
    cases hardOnly with
    | false => exact Or.inl rfl
    | true => exact Or.inr (hkind rfl)

/-- **`reaches` is exact** between listed jobs: no path between them leaves the list. -/
theorem Serializing.reaches_iff (h : Serializing ids db state) {size : ℕ}
    (hsize : ids.length ≤ size) {hardOnly : Bool} {source target : ℕ} (hsource : source ∈ ids)
    (htarget : target ∈ ids) :
    reaches size state.graph source target hardOnly = true ↔
      ReflTransGen (FollowedEdge state.db hardOnly) source target := by
  have hsources : ∀ x, followedEdges state.graph hardOnly x ≠ [] → x ∈ ids := by
    intro x hx
    by_contra hnot
    refine hx ?_
    rw [followedEdges, h.graph_other x hnot]
    rfl
  rw [reaches, Option.isNone_iff_eq_none, search_eq_none_iff hsources (Nat.lt_succ_of_le hsize)]
  constructor
  · rintro ⟨y, hpath, hgoal⟩
    rw [← of_decide_eq_true hgoal]
    refine ReflTransGen.mono (fun x z hxz => ?_) _ _ hpath
    have hx : x ∈ ids := hsources x (List.ne_nil_of_mem hxz)
    exact ((h.mem_followedEdges hx).mp hxz).1
  · intro hpath
    have hinside : PathsInside (FollowedEdge state.db hardOnly) (· ∈ ids) :=
      h.inside.mono fun _ _ hxy => hxy.dependsOn
    refine ⟨target, ReflTransGen.mono (fun x z hxz => ?_) _ _
      (hinside.restrict hsource htarget hpath), decide_eq_true rfl⟩
    obtain ⟨hedge, hx, hz⟩ := hxz
    exact (h.mem_followedEdges hx).mpr ⟨hedge, h.rows z hz⟩

end Reaches

/-! ## 4. One pair -/

/-- An edge between jobs that exist and that closes no cycle is written. -/
theorem addDependency_accepts {db : Db} {j d : ℕ} (hj : (db.getJob j).isSome)
    (hd : (db.getJob d).isSome) (hne : j ≠ d) (hcycle : ¬TransGen (DependsOn db) d j) :
    ∃ db', addDependency db j d .hard = .ok (db', true) ∧
      upsertDependency db j d .hard = .ok db' := by
  have hupsert : ∃ db', upsertDependency db j d .hard = .ok db' := by
    unfold upsertDependency
    split
    · exact ⟨_, rfl⟩
    · rw [if_pos (by rw [hj, hd]; rfl)]
      exact ⟨_, rfl⟩
  obtain ⟨db', hdb'⟩ := hupsert
  refine ⟨db', ?_, hdb'⟩
  rw [addDependency, if_neg hne, if_neg (fun h => hcycle (depChainReaches_iff.mp h)), hdb']
  rfl

section Step

variable {ids : List ℕ} {db : Db} {state : SerializeState}

/-- **An edge the loop adds** keeps what the loop keeps. -/
theorem Serializing.addEdge (h : Serializing ids db state) {upstream downstream : ℕ}
    (hup : upstream ∈ ids) (hdown : downstream ∈ ids) (hne : downstream ≠ upstream)
    (hcycle : ¬TransGen (DependsOn state.db) upstream downstream)
    (hfree : ¬HardOrdered (HardDependsOn state.db) upstream downstream) (paths : List String)
    {db' : Db} (hdb' : upsertDependency state.db downstream upstream .hard = .ok db') :
    Serializing ids db
      { db := db'
        graph := Function.update state.graph downstream (getDependencies db' downstream)
        overlaps := state.overlaps ++ [⟨upstream, downstream, paths⟩] } := by
  have hedge : ∀ x y, DependsOn db' x y →
      DependsOn state.db x y ∨ (x = downstream ∧ y = upstream) :=
    fun x y => (dependsOn_upsert hdb').mp
  constructor
  · intro id hid
    have hget : db'.getJob id = state.db.getJob id := by
      unfold Db.getJob
      rw [(upsertDependency_cases hdb').1]
    dsimp only
    rw [hget]
    exact h.rows id hid
  · intro id hid
    dsimp only
    by_cases hsame : id = downstream
    · rw [hsame, Function.update_self]
    · rw [Function.update_of_ne hsame, getDependencies_upsert hdb' hsame]
      exact h.graph_listed id hid
  · intro id hid
    have hother : id ≠ downstream := fun heq => hid (heq ▸ hdown)
    dsimp only
    rw [Function.update_of_ne hother]
    exact h.graph_other id hid
  · refine acyclic_of_fan (T := (· = upstream)) h.acyclic hedge ?_
    rintro t rfl hpath
    rcases reflTransGen_iff_eq_or_transGen.mp hpath with heq | hpath
    · exact hne heq
    · exact hcycle hpath
  · exact h.inside.of_edge hdown hup hedge
  · intro x y
    dsimp only
    rw [dependsOn_upsert hdb', h.edges, overlapEdge_concat, or_assoc]
  · intro x y
    dsimp only
    rw [hardDependsOn_upsert hdb', h.hard, overlapEdge_concat, or_assoc]
  · intro before overlap after hsplit
    rcases List.eq_nil_or_concat after with rfl | ⟨after', last, hafter⟩
    · -- the entry is the new one
      obtain ⟨hbefore, hlast⟩ := List.append_inj' hsplit rfl
      obtain rfl := (List.cons.inj hlast).1
      rw [← hbefore]
      have hsame : (fun x y => HardDependsOn db x y ∨ OverlapEdge state.overlaps x y) =
          HardDependsOn state.db := by
        funext x y
        exact propext (h.hard x y).symm
      rw [hsame]
      exact hfree
    · rw [hafter, List.concat_eq_append, ← List.cons_append, ← List.append_assoc] at hsplit
      exact h.needed before overlap after' (List.append_inj' hsplit rfl).1

variable {φ : Type*} {size : ℕ}

/-- Two jobs that share a file. -/
def SharesFile (normPath : φ → String) (writers : List (PlanJob φ)) (a b : PlanJob φ) : Prop :=
  sharedPaths normPath writers a b ≠ []

/-- **One pair**: the step does not throw, keeps what the loop keeps and every hard edge, and orders
the pair where it shares a file. -/
theorem serializePair_ok (normPath : φ → String) (writers : List (PlanJob φ))
    (h : Serializing ids db state) (hsize : ids.length ≤ size) {a b : PlanJob φ} (ha : a.id ∈ ids)
    (hb : b.id ∈ ids) :
    ∃ state', serializePair normPath size writers state (a, b) = .ok state' ∧
      Serializing ids db state' ∧
      (∀ x y, HardDependsOn state.db x y → HardDependsOn state'.db x y) ∧
      (SharesFile normPath writers a b → a.id ≠ b.id →
        HardOrdered (HardDependsOn state'.db) a.id b.id) := by
  have hhard : FollowedEdge state.db true = HardDependsOn state.db := by
    funext x y
    exact propext followedEdge_true
  have hall : FollowedEdge state.db false = DependsOn state.db := by
    funext x y
    exact propext followedEdge_false
  unfold serializePair
  dsimp only
  split
  case isTrue hskip =>
    refine ⟨state, rfl, h, fun _ _ hxy => hxy, fun hshares hne => ?_⟩
    rw [h.reaches_iff hsize ha hb, h.reaches_iff hsize hb ha, hhard] at hskip
    rcases hskip with hnone | hab | hba
    · exact absurd hnone hshares
    · exact Or.inl ((reflTransGen_iff_eq_or_transGen.mp hab).resolve_left (Ne.symm hne))
    · exact Or.inr ((reflTransGen_iff_eq_or_transGen.mp hba).resolve_left hne)
  case isFalse hpair =>
    rw [h.reaches_iff hsize ha hb, h.reaches_iff hsize hb ha, hhard, not_or, not_or] at hpair
    obtain ⟨-, hab, hba⟩ := hpair
    have hne : a.id ≠ b.id := fun heq => hab (heq ▸ ReflTransGen.refl)
    have hfree : ¬HardOrdered (HardDependsOn state.db) a.id b.id := by
      rintro (hpath | hpath)
      · exact hab hpath.to_reflTransGen
      · exact hba hpath.to_reflTransGen
    by_cases hreach : reaches size state.graph a.id b.id false = true
    · -- a soft order, or one through a soft edge, makes `b` the upstream job
      rw [if_pos hreach]
      rw [h.reaches_iff hsize ha hb, hall] at hreach
      have hpath := (reflTransGen_iff_eq_or_transGen.mp hreach).resolve_left (Ne.symm hne)
      have hcycle : ¬TransGen (DependsOn state.db) b.id a.id :=
        fun hback => h.acyclic _ (hpath.trans hback)
      obtain ⟨db', hadd, hdb'⟩ := addDependency_accepts (h.rows _ ha) (h.rows _ hb) hne hcycle
      dsimp only
      rw [hadd]
      refine ⟨_, rfl, h.addEdge hb ha hne hcycle (fun ho => hfree ho.symm) _ hdb', ?_, ?_⟩
      · exact fun x y hxy => (hardDependsOn_upsert hdb').mpr (Or.inl hxy)
      · exact fun _ _ => Or.inl (TransGen.single
          ((hardDependsOn_upsert hdb').mpr (Or.inr ⟨rfl, rfl⟩)))
    · rw [if_neg hreach]
      rw [h.reaches_iff hsize ha hb, hall] at hreach
      have hcycle : ¬TransGen (DependsOn state.db) a.id b.id :=
        fun hpath => hreach hpath.to_reflTransGen
      obtain ⟨db', hadd, hdb'⟩ :=
        addDependency_accepts (h.rows _ hb) (h.rows _ ha) (Ne.symm hne) hcycle
      dsimp only
      rw [hadd]
      refine ⟨_, rfl, h.addEdge ha hb (Ne.symm hne) hcycle hfree _ hdb', ?_, ?_⟩
      · exact fun x y hxy => (hardDependsOn_upsert hdb').mpr (Or.inl hxy)
      · exact fun _ _ => Or.inr (TransGen.single
          ((hardDependsOn_upsert hdb').mpr (Or.inr ⟨rfl, rfl⟩)))

end Step

/-! ## 5. The double loop -/

section Loop

variable {φ : Type*} {normPath : φ → String}

theorem mem_writerPairs_of_earlier {a b : PlanJob φ} : ∀ {earlier rest : List (PlanJob φ)},
    a ∈ earlier → b ∈ rest → (a, b) ∈ writerPairs earlier rest
  | _, [], _, hb => absurd hb List.not_mem_nil
  | earlier, later :: rest, ha, hb => by
    rw [writerPairs, List.mem_append]
    rcases List.mem_cons.mp hb with rfl | hb
    · exact Or.inl (List.mem_map.mpr ⟨a, ha, rfl⟩)
    · exact Or.inr (mem_writerPairs_of_earlier (List.mem_append_left _ ha) hb)

/-- The double loop comes to every two writers. -/
theorem mem_writerPairs_or {a b : PlanJob φ} (hne : a ≠ b) :
    ∀ (earlier : List (PlanJob φ)) {rest : List (PlanJob φ)}, a ∈ rest → b ∈ rest →
      (a, b) ∈ writerPairs earlier rest ∨ (b, a) ∈ writerPairs earlier rest
  | _, [], ha, _ => absurd ha List.not_mem_nil
  | earlier, later :: rest, ha, hb => by
    have hlater : later ∈ earlier ++ [later] := List.mem_append_right _ List.mem_cons_self
    rw [writerPairs, List.mem_append, List.mem_append]
    rcases List.mem_cons.mp ha with rfl | ha'
    · rcases List.mem_cons.mp hb with rfl | hb'
      · exact absurd rfl hne
      · exact Or.inl (Or.inr (mem_writerPairs_of_earlier hlater hb'))
    · rcases List.mem_cons.mp hb with rfl | hb'
      · exact Or.inr (Or.inr (mem_writerPairs_of_earlier hlater ha'))
      · rcases mem_writerPairs_or hne _ ha' hb' with hpair | hpair
        · exact Or.inl (Or.inr hpair)
        · exact Or.inr (Or.inr hpair)

/-- It comes to writers only. -/
theorem mem_of_mem_writerPairs {pair : PlanJob φ × PlanJob φ} :
    ∀ {earlier rest : List (PlanJob φ)}, pair ∈ writerPairs earlier rest →
      pair.1 ∈ earlier ++ rest ∧ pair.2 ∈ earlier ++ rest
  | _, [], h => absurd h List.not_mem_nil
  | earlier, later :: rest, h => by
    rcases List.mem_append.mp h with h | h
    · obtain ⟨a, ha, rfl⟩ := List.mem_map.mp h
      exact ⟨List.mem_append_left _ ha, List.mem_append_right _ List.mem_cons_self⟩
    · have hmem := mem_of_mem_writerPairs h
      rwa [List.append_assoc, List.singleton_append] at hmem

/-- The entry of `scopes` of a writer, as the id is a key. -/
theorem scopesGet_of_mem {writers : List (PlanJob φ)} {job : PlanJob φ} (hjob : job ∈ writers)
    (hkey : ∀ a ∈ writers, ∀ b ∈ writers, a.id = b.id → a = b) :
    scopesGet normPath writers job.id = job.scope normPath := by
  unfold scopesGet
  cases hfind : writers.reverse.find? fun other => decide (other.id = job.id) with
  | none =>
    have hnone := List.find?_eq_none.mp hfind job (List.mem_reverse.mpr hjob)
    exact absurd (decide_eq_true rfl) hnone
  | some other =>
    have hother := List.mem_reverse.mp (List.mem_of_find?_eq_some hfind)
    have hid := List.find?_some hfind
    rw [decide_eq_true_eq] at hid
    rw [hkey other hother job hjob hid]
    rfl

theorem sharesFile_iff {writers : List (PlanJob φ)} {a b : PlanJob φ} (ha : a ∈ writers)
    (hb : b ∈ writers) (hkey : ∀ a ∈ writers, ∀ b ∈ writers, a.id = b.id → a = b) :
    SharesFile normPath writers a b ↔
      ∃ file, file ∈ a.scope normPath ∧ file ∈ b.scope normPath := by
  rw [SharesFile, sharedPaths, scopesGet_of_mem ha hkey, scopesGet_of_mem hb hkey, ne_eq,
    List.filter_eq_nil_iff]
  push Not
  simp only [decide_eq_true_eq]

/-- **The loop**: it ends, and every pair it came to is ordered where it shares a file. -/
theorem foldlM_serializePair (normPath : φ → String) {ids : List ℕ} {db : Db} {size : ℕ}
    {writers : List (PlanJob φ)} (hsize : ids.length ≤ size) :
    ∀ (pairs : List (PlanJob φ × PlanJob φ)) {state : SerializeState},
      Serializing ids db state → (∀ pair ∈ pairs, pair.1.id ∈ ids ∧ pair.2.id ∈ ids) →
        ∃ final, pairs.foldlM (serializePair normPath size writers) state = .ok final ∧
          Serializing ids db final ∧
          (∀ x y, HardDependsOn state.db x y → HardDependsOn final.db x y) ∧
          ∀ pair ∈ pairs, SharesFile normPath writers pair.1 pair.2 → pair.1.id ≠ pair.2.id →
            HardOrdered (HardDependsOn final.db) pair.1.id pair.2.id
  | [], state, h, _ =>
    ⟨state, rfl, h, fun _ _ hxy => hxy, fun _ hpair => absurd hpair List.not_mem_nil⟩
  | pair :: pairs, state, h, hids => by
    obtain ⟨hfirst, hrest⟩ := List.forall_mem_cons.mp hids
    obtain ⟨state', hstep, hstate', hkept, hordered⟩ :=
      serializePair_ok normPath writers h hsize hfirst.1 hfirst.2
    obtain ⟨final, hrun, hfinal, hkept', hpairs⟩ :=
      foldlM_serializePair normPath hsize pairs hstate' hrest
    refine ⟨final, ?_, hfinal, fun x y hxy => hkept' x y (hkept x y hxy), ?_⟩
    · rw [List.foldlM_cons, hstep]
      exact hrun
    · intro other hother hshares hne
      rcases List.mem_cons.mp hother with rfl | hother
      · exact (hordered hshares hne).imp (TransGen.mono hkept' _ _) (TransGen.mono hkept' _ _)
      · exact hpairs other hother hshares hne

/-- **Overlapping plan jobs are ordered**: for a list of jobs that exist, in a graph without cycles
whose paths between two of them stay in the list, the call ends; no edge goes and no cycle comes; of
two writers that share a file exactly one waits for the other by hard edges, and it is the one that
waited before where any path led from one to the other; and an edge is added only for a pair that
hard edges do not order yet. -/
theorem serializePlanScopeOverlaps_orders (db : Db) (jobs : List (PlanJob φ))
    (hkey : ∀ a ∈ jobs, ∀ b ∈ jobs, a.id = b.id → a = b)
    (hrows : ∀ job ∈ jobs, (db.getJob job.id).isSome) (hacyclic : Acyclic (DependsOn db))
    (hinside : PathsInside (DependsOn db) (· ∈ jobs.map (·.id))) :
    ∃ final, serializePlanScopeOverlaps normPath db jobs = .ok final ∧
      (∀ x y, DependsOn db x y → DependsOn final.db x y) ∧
      Acyclic (DependsOn final.db) ∧
      (∀ a ∈ jobs, ∀ b ∈ jobs, a.isWriter → b.isWriter → a ≠ b →
        (∃ file, file ∈ a.scope normPath ∧ file ∈ b.scope normPath) →
          (TransGen (HardDependsOn final.db) a.id b.id ∧
              ¬TransGen (HardDependsOn final.db) b.id a.id ∧ ¬TransGen (DependsOn db) b.id a.id) ∨
            (TransGen (HardDependsOn final.db) b.id a.id ∧
              ¬TransGen (HardDependsOn final.db) a.id b.id ∧
              ¬TransGen (DependsOn db) a.id b.id)) ∧
      (∀ x y, DependsOn final.db x y ↔ DependsOn db x y ∨ OverlapEdge final.overlaps x y) ∧
      (∀ x y, HardDependsOn final.db x y ↔
        HardDependsOn db x y ∨ OverlapEdge final.overlaps x y) ∧
      ∀ before overlap after, final.overlaps = before ++ overlap :: after →
        ¬HardOrdered (fun x y => HardDependsOn db x y ∨ OverlapEdge before x y)
          overlap.upstreamJobId overlap.downstreamJobId := by
  have hstart : Serializing (jobs.map (·.id)) db (serializeStart db jobs) := by
    have hempty : ∀ x y, ¬OverlapEdge [] x y := by
      rintro x y ⟨_, ho, -⟩
      cases ho
    constructor
    · intro id hid
      obtain ⟨job, hjob, rfl⟩ := List.mem_map.mp hid
      exact hrows job hjob
    · exact fun id hid => if_pos hid
    · exact fun id hid => if_neg hid
    · exact hacyclic
    · exact hinside
    · exact fun x y => (or_iff_left (hempty x y)).symm
    · exact fun x y => (or_iff_left (hempty x y)).symm
    · intro before overlap after hsplit
      cases before <;> cases hsplit
  have hmem : ∀ {job}, job ∈ jobs.filter PlanJob.isWriter → job ∈ jobs :=
    fun hjob => (List.mem_filter.mp hjob).1
  have hpairs : ∀ pair ∈ writerPairs [] (jobs.filter PlanJob.isWriter),
      pair.1.id ∈ jobs.map (·.id) ∧ pair.2.id ∈ jobs.map (·.id) := by
    intro pair hpair
    obtain ⟨hfirst, hsecond⟩ := mem_of_mem_writerPairs hpair
    exact ⟨List.mem_map_of_mem (hmem hfirst), List.mem_map_of_mem (hmem hsecond)⟩
  obtain ⟨final, hrun, hfinal, -, hordered⟩ :=
    foldlM_serializePair normPath (List.length_map _).le _ hstart hpairs
  have hkept : ∀ x y, DependsOn db x y → DependsOn final.db x y :=
    fun x y hxy => (hfinal.edges x y).mpr (Or.inl hxy)
  -- a hard order of the final graph contradicts every path the other way, new or old
  have hone : ∀ x y, TransGen (HardDependsOn final.db) x y →
      ¬TransGen (HardDependsOn final.db) y x ∧ ¬TransGen (DependsOn db) y x := by
    intro x y hxy
    have hhard := TransGen.mono (fun u v huv => HardDependsOn.dependsOn huv) _ _ hxy
    constructor
    · intro hyx
      exact hfinal.acyclic x
        (hhard.trans (TransGen.mono (fun u v huv => HardDependsOn.dependsOn huv) _ _ hyx))
    · exact fun hyx => hfinal.acyclic x (hhard.trans (TransGen.mono hkept _ _ hyx))
  refine ⟨final, hrun, hkept, hfinal.acyclic, ?_, hfinal.edges, hfinal.hard, hfinal.needed⟩
  intro a ha b hb hwa hwb hne hshares
  have hka : a ∈ jobs.filter PlanJob.isWriter := List.mem_filter.mpr ⟨ha, hwa⟩
  have hkb : b ∈ jobs.filter PlanJob.isWriter := List.mem_filter.mpr ⟨hb, hwb⟩
  have hkey' : ∀ x ∈ jobs.filter PlanJob.isWriter, ∀ y ∈ jobs.filter PlanJob.isWriter,
      x.id = y.id → x = y :=
    fun x hx y hy => hkey x (hmem hx) y (hmem hy)
  have hid : a.id ≠ b.id := fun heq => hne (hkey a ha b hb heq)
  have horder : HardOrdered (HardDependsOn final.db) a.id b.id := by
    rcases mem_writerPairs_or hne [] hka hkb with hpair | hpair
    · exact hordered _ hpair ((sharesFile_iff hka hkb hkey').mpr hshares) hid
    · obtain ⟨file, hfa, hfb⟩ := hshares
      exact (hordered _ hpair ((sharesFile_iff hkb hka hkey').mpr ⟨file, hfb, hfa⟩)
        (Ne.symm hid)).symm
  rcases horder with hab | hba
  · exact Or.inl ⟨hab, hone _ _ hab⟩
  · exact Or.inr ⟨hba, hone _ _ hba⟩

/-- Two jobs that change one file, and their table. -/
def twoWriters : List (PlanJob String) := [⟨1, .dev, ["a"], [], []⟩, ⟨2, .fix, ["a"], [], []⟩]

def twoWritersDb : Db where
  jobs := [{ id := 1, workItemId := some 1, jobType := .dev, status := .queued },
    { id := 2, workItemId := some 1, jobType := .fix, status := .queued }]

theorem serializePlanScopeOverlaps_orders_two :
    ∃ final, serializePlanScopeOverlaps id twoWritersDb twoWriters = .ok final ∧
      HardOrdered (HardDependsOn final.db) 1 2 := by
  have hpaths : ∀ x y, ¬TransGen (DependsOn twoWritersDb) x y := by
    intro x y h
    obtain ⟨z, hz, -⟩ := TransGen.head'_iff.mp h
    exact List.not_mem_nil hz
  obtain ⟨final, hrun, -, -, hordered, -⟩ :=
    serializePlanScopeOverlaps_orders twoWritersDb twoWriters (by decide) (by decide)
      (fun x => hpaths x x) (fun a b c _ _ hac _ => absurd hac (hpaths a c))
  refine ⟨final, hrun, ?_⟩
  rcases hordered _ List.mem_cons_self _ (List.mem_cons_of_mem _ List.mem_cons_self) rfl rfl
    (by decide) ⟨"a", by decide, by decide⟩ with h | h
  · exact Or.inl h.1
  · exact Or.inr h.1

end Loop

end PosseClient
