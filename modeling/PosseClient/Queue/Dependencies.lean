/-
# Job dependencies: cycle-checked inserts and rewires

`dependencies.js`.  An edge `(job, dependsOn)` makes one job wait for another; `dep_chain` is
the recursive query each writer asks before it inserts: does a chain of one or more edges lead
from the new blocker back to the job?

* The check is exact (`depChainReaches_iff`), and every edge a writer adds leaves one job
  towards blockers that do not reach it, so the graph stays acyclic (`step_acyclic`), also
  when `rewireDependencyChain` adds several edges it checked one by one.
* `rewireDependencyChain` checks before it deletes the old edge.
-/
import PosseClient.Store.Schema
import PosseClient.Lib.Reachability

namespace PosseClient

open Reachability

/-! ## 1. The functions -/

/-- The edges of `job_dependencies`, of both kinds. -/
def Db.edges (db : Db) : List (ℕ × ℕ) :=
  db.dependencies.map (fun d => (d.jobId, d.dependsOnJobId))

/-- `SELECT 1 FROM dep_chain WHERE id = target`, the chain starting at `start`. -/
def depChainReaches (db : Db) (start target : ℕ) : Bool :=
  decide (target ∈ reach db.edges start)

/-- The row of one edge. -/
def Dependency.isEdge (jobId dependsOnId : ℕ) (d : Dependency) : Bool :=
  d.jobId == jobId && d.dependsOnJobId == dependsOnId

/-- `INSERT .. ON CONFLICT(job_id, depends_on_job_id) DO UPDATE SET dependency_kind = 'hard'
WHERE excluded.dependency_kind = 'hard' AND job_dependencies.dependency_kind = 'soft'`; both
ends are foreign keys. -/
def upsertDependency (db : Db) (jobId dependsOnId : ℕ) (kind : DependencyKind) :
    Except DbError Db :=
  if db.dependencies.any (Dependency.isEdge jobId dependsOnId) then
    .ok { db with
      dependencies := Table.updateWhere
        (fun d => d.isEdge jobId dependsOnId && kind == .hard && d.kind == .soft)
        (fun d => { d with kind := .hard }) db.dependencies }
  else if (db.getJob jobId).isSome && (db.getJob dependsOnId).isSome then
    .ok { db with dependencies := db.dependencies ++ [⟨jobId, dependsOnId, kind⟩] }
  else .error .foreignKey

/-- `DELETE FROM job_dependencies WHERE job_id = ? AND depends_on_job_id = ?`. -/
def deleteDependency (db : Db) (jobId dependsOnId : ℕ) : Db :=
  { db with
    dependencies := Table.deleteWhere (Dependency.isEdge jobId dependsOnId) db.dependencies }

/-- `addDependency`. -/
def addDependency (db : Db) (jobId dependsOnId : ℕ) (kind : DependencyKind) :
    Except DbError (Db × Bool) :=
  if jobId = dependsOnId then .ok (db, false)
  else if depChainReaches db dependsOnId jobId then .ok (db, false)
  else do
    let db' ← upsertDependency db jobId dependsOnId kind
    return (db', true)

/-- `removeDependency`. -/
def removeDependency (db : Db) (jobId dependsOnId : ℕ) : Db × Bool :=
  (deleteDependency db jobId dependsOnId,
    decide (0 < Table.changes (Dependency.isEdge jobId dependsOnId) db.dependencies))

/-- `rewireDependency`. -/
def rewireDependency (db : Db) (jobId oldDependsOn newDependsOn : ℕ) (kind : DependencyKind) :
    Except DbError (Db × Bool) :=
  if jobId = newDependsOn then .ok (db, false)
  else if depChainReaches db newDependsOn jobId then .ok (db, false)
  else do
    let db' ← upsertDependency (deleteDependency db jobId oldDependsOn) jobId newDependsOn kind
    return (db', true)

/-- The reason a replacement was skipped. -/
inductive SkipReason
  | selfDependency | cycle
  deriving DecidableEq, Repr

/-- The `details` of a chain rewire. -/
structure RewireDetails where
  rewired : Bool
  inserted : List ℕ
  skipped : List (ℕ × SkipReason)
  deriving DecidableEq, Repr

/-- The replacement ids: integers above zero, each once, in the order given.  `none` stands
for a value that `Number` does not make an integer. -/
def replacementIds (newDependsOnIds : List (Option ℤ)) : List ℕ :=
  (newDependsOnIds.filterMap fun id =>
    id.bind fun n => if 0 < n then some n.toNat else none).eraseDups

/-- `rewireDependencyChain`. -/
def rewireDependencyChain (db : Db) (jobId oldDependsOn : ℕ) (newDependsOnIds : List (Option ℤ))
    (kind : DependencyKind) : Except DbError (Db × RewireDetails) :=
  let replacements := replacementIds newDependsOnIds
  let selfSkipped := (replacements.filter (· == jobId)).map (·, SkipReason.selfDependency)
  let candidates := replacements.filter (· != jobId)
  let cycleSkipped := (candidates.filter (depChainReaches db · jobId)).map (·, SkipReason.cycle)
  let accepted := candidates.filter (fun id => !depChainReaches db id jobId)
  if accepted = [] then .ok (db, ⟨false, [], selfSkipped ++ cycleSkipped⟩)
  else do
    let db' ← accepted.foldlM (fun d id => upsertDependency d jobId id kind)
      (deleteDependency db jobId oldDependsOn)
    return (db', ⟨true, accepted, selfSkipped ++ cycleSkipped⟩)

/-! ## 2. What the statements do to the graph -/

/-- `j` waits for `d`. -/
def DependsOn (db : Db) : ℕ → ℕ → Prop := Edge db.edges

theorem dependsOn_iff {db : Db} {j d : ℕ} :
    DependsOn db j d ↔ ∃ e ∈ db.dependencies, e.jobId = j ∧ e.dependsOnJobId = d := by
  simp [DependsOn, Edge, Db.edges]

instance (db : Db) (j d : ℕ) : Decidable (DependsOn db j d) :=
  inferInstanceAs (Decidable ((j, d) ∈ db.edges))

/-- **The cycle query is exact.** -/
theorem depChainReaches_iff {db : Db} {start target : ℕ} :
    depChainReaches db start target = true ↔ Relation.TransGen (DependsOn db) start target := by
  rw [depChainReaches, decide_eq_true_iff]
  exact mem_reach_iff

@[simp] theorem isEdge_iff {j d : ℕ} {e : Dependency} :
    e.isEdge j d = true ↔ e.jobId = j ∧ e.dependsOnJobId = d := by
  simp [Dependency.isEdge]

theorem dependsOn_delete {db : Db} {j o x y : ℕ} :
    DependsOn (deleteDependency db j o) x y ↔ DependsOn db x y ∧ ¬ (x = j ∧ y = o) := by
  simp only [dependsOn_iff, deleteDependency, Table.deleteWhere, List.mem_filter,
    Bool.not_eq_true', ← Bool.not_eq_true, isEdge_iff]
  constructor
  · rintro ⟨e, ⟨he, hne⟩, rfl, rfl⟩
    exact ⟨⟨e, he, rfl, rfl⟩, hne⟩
  · rintro ⟨⟨e, he, rfl, rfl⟩, hne⟩
    exact ⟨e, ⟨he, hne⟩, rfl, rfl⟩

/-- A successful upsert adds its edge, and no other. -/
theorem dependsOn_upsert {db db' : Db} {j d : ℕ} {kind : DependencyKind}
    (h : upsertDependency db j d kind = .ok db') {x y : ℕ} :
    DependsOn db' x y ↔ DependsOn db x y ∨ (x = j ∧ y = d) := by
  unfold upsertDependency at h
  split at h
  · -- the edge is there: the update touches its kind only
    rename_i hany
    have hjd : DependsOn db j d := by
      obtain ⟨e, he, hk⟩ := List.any_eq_true.mp hany
      exact dependsOn_iff.mpr ⟨e, he, isEdge_iff.mp hk⟩
    obtain rfl := Except.ok.inj h
    have hedges : ∀ e : Dependency, ∀ b : Bool,
        ((if b then { e with kind := .hard } else e : Dependency).jobId = e.jobId) ∧
        ((if b then { e with kind := .hard } else e : Dependency).dependsOnJobId
          = e.dependsOnJobId) := by
      intro e b
      cases b <;> simp
    constructor
    · intro hxy
      obtain ⟨e, he, rfl, rfl⟩ := dependsOn_iff.mp hxy
      obtain ⟨e₀, he₀, rfl⟩ := Table.mem_updateWhere.mp he
      rw [(hedges e₀ _).1, (hedges e₀ _).2]
      exact Or.inl (dependsOn_iff.mpr ⟨e₀, he₀, rfl, rfl⟩)
    · rintro (hxy | ⟨rfl, rfl⟩)
      · obtain ⟨e, he, rfl, rfl⟩ := dependsOn_iff.mp hxy
        exact dependsOn_iff.mpr ⟨_, Table.mem_updateWhere.mpr ⟨e, he, rfl⟩, hedges e _⟩
      · obtain ⟨e, he, rfl, rfl⟩ := dependsOn_iff.mp hjd
        exact dependsOn_iff.mpr ⟨_, Table.mem_updateWhere.mpr ⟨e, he, rfl⟩, hedges e _⟩
  · split at h
    · obtain rfl := Except.ok.inj h
      simp only [dependsOn_iff, List.mem_append, List.mem_singleton]
      constructor
      · rintro ⟨e, he | rfl, rfl, rfl⟩
        · exact Or.inl ⟨e, he, rfl, rfl⟩
        · exact Or.inr ⟨rfl, rfl⟩
      · rintro (⟨e, he, rfl, rfl⟩ | ⟨rfl, rfl⟩)
        · exact ⟨e, Or.inl he, rfl, rfl⟩
        · exact ⟨_, Or.inr rfl, rfl, rfl⟩
    · simp at h

/-- A successful fold of upserts adds an edge for every id of its list. -/
theorem dependsOn_foldlM_upsert {j : ℕ} {kind : DependencyKind} :
    ∀ {ids : List ℕ} {db db' : Db},
      ids.foldlM (fun d id => upsertDependency d j id kind) db = .ok db' →
      ∀ {x y : ℕ}, DependsOn db' x y ↔ DependsOn db x y ∨ (x = j ∧ y ∈ ids)
  | [], db, db', h, x, y => by
    obtain rfl := Except.ok.inj h
    simp
  | id :: ids, db, db', h, x, y => by
    rw [List.foldlM_cons] at h
    cases hup : upsertDependency db j id kind with
    | error e => simp [hup, bind, Except.bind] at h
    | ok db₁ =>
      rw [hup] at h
      have htail : ids.foldlM (fun d id => upsertDependency d j id kind) db₁ = .ok db' := h
      rw [dependsOn_foldlM_upsert htail, dependsOn_upsert hup, List.mem_cons]
      tauto

/-! ## 3. What each writer does to the graph

A writer that refuses returns the database it was given.  Otherwise its effect on the edges is
one of the four equivalences below. -/

theorem dependsOn_add {db db' : Db} {j d : ℕ} {kind : DependencyKind}
    (h : addDependency db j d kind = .ok (db', true)) :
    (j ≠ d ∧ ¬ Relation.TransGen (DependsOn db) d j) ∧
      ∀ x y, DependsOn db' x y ↔ DependsOn db x y ∨ (x = j ∧ y = d) := by
  unfold addDependency at h
  split at h
  · simp at h
  rename_i hself
  split at h
  · simp at h
  rename_i hcycle
  rw [depChainReaches_iff] at hcycle
  cases hup : upsertDependency db j d kind with
  | error e => simp [hup, bind, Except.bind] at h
  | ok db₁ =>
    simp only [hup, bind, Except.bind, pure, Except.pure, Except.ok.injEq, Prod.mk.injEq] at h
    obtain ⟨rfl, -⟩ := h
    exact ⟨⟨hself, hcycle⟩, fun x y => dependsOn_upsert hup⟩

theorem addDependency_refused {db db' : Db} {j d : ℕ} {kind : DependencyKind}
    (h : addDependency db j d kind = .ok (db', false)) : db' = db := by
  unfold addDependency at h
  split at h
  · simpa using h.symm
  split at h
  · simpa using h.symm
  cases hup : upsertDependency db j d kind with
  | error e => simp [hup, bind, Except.bind] at h
  | ok db₁ => simp [hup, bind, Except.bind, pure, Except.pure] at h

theorem dependsOn_rewire {db db' : Db} {j o d : ℕ} {kind : DependencyKind}
    (h : rewireDependency db j o d kind = .ok (db', true)) :
    (j ≠ d ∧ ¬ Relation.TransGen (DependsOn db) d j) ∧
      ∀ x y, DependsOn db' x y ↔
        (DependsOn db x y ∧ ¬ (x = j ∧ y = o)) ∨ (x = j ∧ y = d) := by
  unfold rewireDependency at h
  split at h
  · simp at h
  rename_i hself
  split at h
  · simp at h
  rename_i hcycle
  rw [depChainReaches_iff] at hcycle
  cases hup : upsertDependency (deleteDependency db j o) j d kind with
  | error e => simp [hup, bind, Except.bind] at h
  | ok db₁ =>
    simp only [hup, bind, Except.bind, pure, Except.pure, Except.ok.injEq, Prod.mk.injEq] at h
    obtain ⟨rfl, -⟩ := h
    refine ⟨⟨hself, hcycle⟩, fun x y => ?_⟩
    rw [dependsOn_upsert hup, dependsOn_delete]

theorem rewireDependency_refused {db db' : Db} {j o d : ℕ} {kind : DependencyKind}
    (h : rewireDependency db j o d kind = .ok (db', false)) : db' = db := by
  unfold rewireDependency at h
  split at h
  · simpa using h.symm
  split at h
  · simpa using h.symm
  cases hup : upsertDependency (deleteDependency db j o) j d kind with
  | error e => simp [hup, bind, Except.bind] at h
  | ok db₁ => simp [hup, bind, Except.bind, pure, Except.pure] at h

/-- A replacement the chain rewire accepts: listed, not the job itself, no cycle. -/
def AcceptsReplacement (db : Db) (j : ℕ) (ids : List (Option ℤ)) (d : ℕ) : Prop :=
  d ∈ replacementIds ids ∧ d ≠ j ∧ ¬ Relation.TransGen (DependsOn db) d j

theorem mem_accepted_iff {db : Db} {j d : ℕ} {ids : List (Option ℤ)} :
    d ∈ ((replacementIds ids).filter (· != j)).filter (fun id => !depChainReaches db id j) ↔
      AcceptsReplacement db j ids d := by
  simp only [AcceptsReplacement, ← depChainReaches_iff, List.mem_filter, bne_iff_ne, ne_eq,
    Bool.not_eq_true', Bool.not_eq_true, and_assoc]

theorem dependsOn_rewireChain {db db' : Db} {j o : ℕ} {ids : List (Option ℤ)}
    {kind : DependencyKind} {details : RewireDetails}
    (h : rewireDependencyChain db j o ids kind = .ok (db', details))
    (hrew : details.rewired = true) :
    (∃ d, AcceptsReplacement db j ids d) ∧
      ∀ x y, DependsOn db' x y ↔
        (DependsOn db x y ∧ ¬ (x = j ∧ y = o)) ∨ (x = j ∧ AcceptsReplacement db j ids y) := by
  unfold rewireDependencyChain at h
  dsimp only at h
  split at h
  · simp only [Except.ok.injEq, Prod.mk.injEq] at h
    simp [← h.2] at hrew
  rename_i hne
  set accepted :=
    ((replacementIds ids).filter (· != j)).filter (fun id => !depChainReaches db id j)
    with haccepted
  cases hup : accepted.foldlM (fun d id => upsertDependency d j id kind)
      (deleteDependency db j o) with
  | error e => simp [hup, bind, Except.bind] at h
  | ok db₁ =>
    simp only [hup, bind, Except.bind, pure, Except.pure, Except.ok.injEq, Prod.mk.injEq] at h
    obtain ⟨rfl, -⟩ := h
    obtain ⟨d, hd⟩ := List.exists_mem_of_ne_nil _ hne
    refine ⟨⟨d, mem_accepted_iff.mp hd⟩, fun x y => ?_⟩
    rw [dependsOn_foldlM_upsert hup, dependsOn_delete, haccepted, mem_accepted_iff]

theorem rewireDependencyChain_refused {db db' : Db} {j o : ℕ} {ids : List (Option ℤ)}
    {kind : DependencyKind} {details : RewireDetails}
    (h : rewireDependencyChain db j o ids kind = .ok (db', details))
    (hrew : details.rewired = false) : db' = db := by
  unfold rewireDependencyChain at h
  dsimp only at h
  split at h
  · simp only [Except.ok.injEq, Prod.mk.injEq] at h
    exact h.1.symm
  set accepted :=
    ((replacementIds ids).filter (· != j)).filter (fun id => !depChainReaches db id j)
  cases hup : accepted.foldlM (fun d id => upsertDependency d j id kind)
      (deleteDependency db j o) with
  | error e => simp [hup, bind, Except.bind] at h
  | ok db₁ =>
    simp only [hup, bind, Except.bind, pure, Except.pure, Except.ok.injEq, Prod.mk.injEq] at h
    simp [← h.2] at hrew

/-- With no acceptable replacement the chain rewire refuses. -/
theorem rewireDependencyChain_of_none {db : Db} {j o : ℕ} {ids : List (Option ℤ)}
    {kind : DependencyKind} (h : ∀ d, ¬ AcceptsReplacement db j ids d) :
    ∃ details, rewireDependencyChain db j o ids kind = .ok (db, details) ∧
      details.rewired = false := by
  have hnil : ((replacementIds ids).filter (· != j)).filter
      (fun id => !depChainReaches db id j) = [] := by
    refine List.eq_nil_iff_forall_not_mem.mpr fun d hd => ?_
    exact h d (mem_accepted_iff.mp hd)
  unfold rewireDependencyChain
  dsimp only
  rw [if_pos hnil]
  exact ⟨_, rfl, rfl⟩

/-! ## 4. Hard edges -/

/-- The `dependency_kind` of an edge. -/
def Db.dependencyKind (db : Db) (jobId dependsOnId : ℕ) : Option DependencyKind :=
  (db.dependencies.find? (Dependency.isEdge jobId dependsOnId)).map Dependency.kind

/-- The upsert raises soft to hard; it never lowers a hard edge. -/
theorem upsert_keeps_hard {db db' : Db} {j d : ℕ} {kind : DependencyKind}
    (h : upsertDependency db j d kind = .ok db') {x y : ℕ}
    (hxy : db.dependencyKind x y = some .hard) : db'.dependencyKind x y = some .hard := by
  obtain ⟨e, hfind, hhard⟩ := Option.map_eq_some_iff.mp hxy
  unfold upsertDependency at h
  split at h
  · obtain rfl := Except.ok.inj h
    simp only [Db.dependencyKind, Table.updateWhere, List.find?_map]
    have hsame : (Dependency.isEdge x y ∘ fun r : Dependency =>
        if (r.isEdge j d && kind == .hard && r.kind == .soft) = true
        then { r with kind := .hard } else r) = Dependency.isEdge x y := by
      funext r
      simp only [Function.comp_apply]
      split <;> rfl
    rw [hsame, hfind]
    simp only [Option.map_some, Option.some.injEq]
    split
    · rfl
    · exact hhard
  · split at h
    · obtain rfl := Except.ok.inj h
      simp [Db.dependencyKind, List.find?_append, hfind, hhard]
    · simp at h

theorem addDependency_keeps_hard {db : Db} {j d x y : ℕ} {kind : DependencyKind}
    (hxy : db.dependencyKind x y = some .hard) :
    (db.commit (addDependency db j d kind)).dependencyKind x y = some .hard := by
  unfold addDependency
  split
  · exact hxy
  split
  · exact hxy
  cases hup : upsertDependency db j d kind with
  | error e => exact hxy
  | ok db' => exact upsert_keeps_hard hup hxy

/-! ## 5. Runs -/

/-- A call of one of the four writers. -/
inductive DependencyOp
  | add (jobId dependsOnId : ℕ) (kind : DependencyKind)
  | remove (jobId dependsOnId : ℕ)
  | rewire (jobId oldDependsOn newDependsOn : ℕ) (kind : DependencyKind)
  | rewireChain (jobId oldDependsOn : ℕ) (newDependsOnIds : List (Option ℤ))
      (kind : DependencyKind)

/-- The database after a call. -/
def DependencyOp.exec (db : Db) : DependencyOp → Db
  | .add j d kind => db.commit (addDependency db j d kind)
  | .remove j d => (removeDependency db j d).1
  | .rewire j o d kind => db.commit (rewireDependency db j o d kind)
  | .rewireChain j o ids kind => db.commit (rewireDependencyChain db j o ids kind)

/-- What a call may do to the edges: drop some, and add a fan out of one job to jobs that do
not lead back to it. -/
def FanStep (db db' : Db) : Prop :=
  ∃ (j : ℕ) (T : ℕ → Prop), (∀ x y, DependsOn db' x y → DependsOn db x y ∨ (x = j ∧ T y)) ∧
    ∀ t, T t → j ≠ t ∧ ¬ Relation.TransGen (DependsOn db) t j

theorem FanStep.refl (db : Db) : FanStep db db :=
  ⟨0, fun _ => False, fun _ _ h => Or.inl h, fun _ h => h.elim⟩

theorem FanStep.acyclic {db db' : Db} (h : FanStep db db') (hacyc : Acyclic (DependsOn db)) :
    Acyclic (DependsOn db') := by
  obtain ⟨j, T, hedge, hT⟩ := h
  refine acyclic_of_fan hacyc hedge fun t ht hreach => ?_
  rcases Relation.reflTransGen_iff_eq_or_transGen.mp hreach with heq | htrans
  · exact (hT t ht).1 heq
  · exact (hT t ht).2 htrans

theorem exec_fanStep (db : Db) (op : DependencyOp) : FanStep db (op.exec db) := by
  cases op with
  | add j d kind =>
    change FanStep db (db.commit (addDependency db j d kind))
    cases hadd : addDependency db j d kind with
    | error e => exact FanStep.refl db
    | ok r =>
      obtain ⟨db', b⟩ := r
      cases b with
      | false =>
        rw [addDependency_refused hadd]
        exact FanStep.refl db
      | true =>
        obtain ⟨hsafe, hedge⟩ := dependsOn_add hadd
        exact ⟨j, (· = d), fun x y hxy => (hedge x y).mp hxy, fun t ht => ht ▸ hsafe⟩
  | remove j d =>
    refine ⟨0, fun _ => False, fun x y hxy => Or.inl ?_, fun _ h => h.elim⟩
    exact (dependsOn_delete.mp hxy).1
  | rewire j o d kind =>
    change FanStep db (db.commit (rewireDependency db j o d kind))
    cases hrew : rewireDependency db j o d kind with
    | error e => exact FanStep.refl db
    | ok r =>
      obtain ⟨db', b⟩ := r
      cases b with
      | false =>
        rw [rewireDependency_refused hrew]
        exact FanStep.refl db
      | true =>
        obtain ⟨hsafe, hedge⟩ := dependsOn_rewire hrew
        refine ⟨j, (· = d), fun x y hxy => ?_, fun t ht => ht ▸ hsafe⟩
        exact ((hedge x y).mp hxy).imp And.left id
  | rewireChain j o ids kind =>
    change FanStep db (db.commit (rewireDependencyChain db j o ids kind))
    cases hrew : rewireDependencyChain db j o ids kind with
    | error e => exact FanStep.refl db
    | ok r =>
      obtain ⟨db', details⟩ := r
      cases hb : details.rewired with
      | false =>
        rw [rewireDependencyChain_refused hrew hb]
        exact FanStep.refl db
      | true =>
        obtain ⟨-, hedge⟩ := dependsOn_rewireChain hrew hb
        refine ⟨j, AcceptsReplacement db j ids, fun x y hxy => ?_,
          fun t ht => ⟨ht.2.1.symm, ht.2.2⟩⟩
        exact ((hedge x y).mp hxy).imp And.left id

/-- One call keeps the graph acyclic. -/
theorem exec_acyclic (db : Db) (op : DependencyOp) (h : Acyclic (DependsOn db)) :
    Acyclic (DependsOn (op.exec db)) :=
  (exec_fanStep db op).acyclic h

/-! ## 6. The dependency graph is safe -/

/-- A rewire of `j` from `o` that is refused (its target is the job, or leads back to it)
reports so and leaves every edge. -/
theorem rewireDependency_of_unsafe {db : Db} {j o d : ℕ} {kind : DependencyKind}
    (h : d = j ∨ Relation.TransGen (DependsOn db) d j) :
    rewireDependency db j o d kind = .ok (db, false) := by
  unfold rewireDependency
  split
  · rfl
  rename_i hne
  rcases h with heq | hcycle
  · exact absurd heq.symm hne
  · rw [if_pos (depChainReaches_iff.mpr hcycle)]

/-- A blocker that a rewire takes away is replaced by the new one. -/
theorem rewireDependency_keeps_blocker {db : Db} {j o d : ℕ} {kind : DependencyKind}
    (hold : DependsOn db j o) :
    DependsOn (db.commit (rewireDependency db j o d kind)) j o ∨
      DependsOn (db.commit (rewireDependency db j o d kind)) j d := by
  cases hrew : rewireDependency db j o d kind with
  | error e => exact Or.inl hold
  | ok r =>
    obtain ⟨db', b⟩ := r
    cases b with
    | false =>
      rw [rewireDependency_refused hrew]
      exact Or.inl hold
    | true => exact Or.inr (((dependsOn_rewire hrew).2 j d).mpr (Or.inr ⟨rfl, rfl⟩))

theorem rewireDependencyChain_keeps_blocker {db : Db} {j o : ℕ} {ids : List (Option ℤ)}
    {kind : DependencyKind} (hold : DependsOn db j o) :
    DependsOn (db.commit (rewireDependencyChain db j o ids kind)) j o ∨
      ∃ d ∈ replacementIds ids,
        DependsOn (db.commit (rewireDependencyChain db j o ids kind)) j d := by
  cases hrew : rewireDependencyChain db j o ids kind with
  | error e => exact Or.inl hold
  | ok r =>
    obtain ⟨db', details⟩ := r
    cases hb : details.rewired with
    | false =>
      rw [rewireDependencyChain_refused hrew hb]
      exact Or.inl hold
    | true =>
      obtain ⟨⟨d, hd⟩, hedge⟩ := dependsOn_rewireChain hrew hb
      exact Or.inr ⟨d, hd.1, (hedge j d).mpr (Or.inr ⟨rfl, hd⟩)⟩

/-- **Dependency graph safety.**  From an acyclic graph, after any sequence of the four
writers: the graph is acyclic and has no self edge; a rewire that is refused leaves the
database as it was, and one that takes a blocker away puts a new one in its place; and
`addDependency` keeps every hard edge hard. -/
theorem dependency_graph_safety (db : Db) (hacyc : Acyclic (DependsOn db))
    (ops : List DependencyOp) :
    let s := Runs.run DependencyOp.exec db ops
    Acyclic (DependsOn s) ∧ (∀ j, ¬ DependsOn s j j) ∧
    (∀ j o d kind, (d = j ∨ Relation.TransGen (DependsOn s) d j) →
      rewireDependency s j o d kind = .ok (s, false)) ∧
    (∀ j o d kind s', rewireDependency s j o d kind = .ok (s', false) → s' = s) ∧
    (∀ j o ids kind,
      (∀ d ∈ replacementIds ids, d = j ∨ Relation.TransGen (DependsOn s) d j) →
      ∃ details, rewireDependencyChain s j o ids kind = .ok (s, details) ∧
        details.rewired = false) ∧
    (∀ j o ids kind s' details, rewireDependencyChain s j o ids kind = .ok (s', details) →
      details.rewired = false → s' = s) ∧
    (∀ j o d kind, DependsOn s j o →
      DependsOn (s.commit (rewireDependency s j o d kind)) j o ∨
      DependsOn (s.commit (rewireDependency s j o d kind)) j d) ∧
    (∀ j o ids kind, DependsOn s j o →
      DependsOn (s.commit (rewireDependencyChain s j o ids kind)) j o ∨
      ∃ d ∈ replacementIds ids,
        DependsOn (s.commit (rewireDependencyChain s j o ids kind)) j d) ∧
    (∀ j d kind x y, s.dependencyKind x y = some .hard →
      (s.commit (addDependency s j d kind)).dependencyKind x y = some .hard) := by
  intro s
  have hs : Acyclic (DependsOn s) :=
    Runs.run_invariant_of_forall (fun db op h => exec_acyclic db op h) hacyc
  refine ⟨hs, hs.irrefl, fun j o d kind => rewireDependency_of_unsafe,
    fun j o d kind s' => rewireDependency_refused, fun j o ids kind hall => ?_,
    fun j o ids kind s' details => rewireDependencyChain_refused,
    fun j o d kind => rewireDependency_keeps_blocker,
    fun j o ids kind => rewireDependencyChain_keeps_blocker,
    fun j d kind x y => addDependency_keeps_hard⟩
  refine rewireDependencyChain_of_none fun d hd => ?_
  rcases hall d hd.1 with heq | hcycle
  · exact hd.2.1 heq
  · exact hd.2.2 hcycle

/-- Two jobs, the second waiting for the first; a self edge and a back edge are refused. -/
theorem dependency_graph_safety_two_jobs :
    let db : Db := {
      jobs := [{ id := 1, workItemId := some 1, jobType := .dev, status := .queued },
        { id := 2, workItemId := some 1, jobType := .dev, status := .queued }]
      dependencies := [⟨2, 1, .hard⟩] }
    Acyclic (DependsOn db) ∧
      Acyclic (DependsOn (Runs.run DependencyOp.exec db
        [.add 1 2 .hard, .rewireChain 2 1 [some 2, none, some 1, some 1] .soft])) := by
  intro db
  have hacyc : Acyclic (DependsOn db) := by
    intro x hx
    have hmem : x ∈ reach db.edges x := mem_reach_iff.mpr hx
    have htargets : x ∈ reach db.edges x → x = 1 := by
      intro h
      have hsub := iterate_subset_targets db.edges x db.edges.length h
      simpa [targets, Db.edges, db] using hsub
    obtain rfl := htargets hmem
    exact absurd hmem (by decide)
  exact ⟨hacyc, (dependency_graph_safety db hacyc _).1⟩

end PosseClient
