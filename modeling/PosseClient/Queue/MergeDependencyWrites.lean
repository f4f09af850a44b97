/-
# Writes of merge dependencies

`addCrossWiMergeDependency`, `removeCrossWiMergeDependency` and
`clearCrossWiMergeDependenciesForWorkItem` of `cross-wi-deps.js`, and the search for a cycle before
an addition.

* `findMergeDependencyPath_spec`: the search is exact, so an addition is refused exactly where it
  must be (`addCrossWiMergeDependency_refuses_iff`).
* `acyclic_run`: the recorded relation stays acyclic throughout every run of the three functions.
* `storeDependency_rows`: the ways an addition is stored.
-/
import PosseClient.Lib.PathSearch
import PosseClient.Lib.Reachability
import PosseClient.Lib.Table
import PosseClient.Queue.MergeDependencies
import PosseClient.Queue.WorkItemOrder

namespace PosseClient

open GraphSearch Reachability Relation

variable {V : Type*}

/-! ## 1. The search for a cycle -/

/-- `readWorkItem`, in a list of the rows. -/
def readMergeItem (rows : List (MergeWorkItem V)) (id : ℕ) : Option (MergeWorkItem V) :=
  Table.lookup MergeWorkItem.id id rows

/-- The source ids of a work item's dependencies; a missing work item has none. -/
def mergeSources (now : String) (rows : List (MergeWorkItem V)) (id : ℕ) : List ℕ :=
  match readMergeItem rows id with
  | none => []
  | some row => (getWorkItemMergeDependencies now row).filterMap (fun dep => workItemId dep.source)

/-- `findMergeDependencyPath`, for two ids that differ. -/
def findMergeDependencyPath (now : String) (rows : List (MergeWorkItem V)) (start target : ℕ) :
    Option (List ℕ) :=
  findPath (mergeSources now rows) (rows.map MergeWorkItem.id).toFinset start target

/-- What `crossWiMergeDependencyWouldCycle` answers. -/
structure CycleCheck where
  wouldCycle : Bool
  path : List ℕ
  reason : String
  deriving DecidableEq, Repr

/-- `crossWiMergeDependencyWouldCycle`. -/
def crossWiMergeDependencyWouldCycle (now : String) (rows : List (MergeWorkItem V))
    (target source : Option ℤ) : CycleCheck :=
  match workItemId target, workItemId source with
  | some targetId, some sourceId =>
    if targetId = sourceId then ⟨true, [targetId], "self_dependency"⟩
    else
      match findMergeDependencyPath now rows sourceId targetId with
      | some reversePath => ⟨true, targetId :: reversePath, "merge_order_cycle"⟩
      | none => ⟨false, [], "ok"⟩
  | _, _ => ⟨true, [], "invalid_work_item"⟩

/-! ## 2. Additions -/

/-- What `addCrossWiMergeDependency` answers. -/
structure DependencyAdded (V : Type*) where
  ok : Bool
  added : Bool
  reason : Option String := none
  path : List ℕ := []
  dependency : Option (MergeDependency V) := none
  deriving DecidableEq, Repr

/-- The members by which an addition finds its dependency. -/
structure DependencyKey where
  source : Option ℤ
  path : String
  sourceGeneration : Option String
  transferId : Option String
  sourceTransferId : Option String
  deriving DecidableEq, Repr

def dependencyKey (dep : MergeDependency V) : DependencyKey where
  source := dep.source
  path := normalizeCrossWiRepoPath dep.path
  sourceGeneration := dep.reviewed.bind TransferIdentity.sourceGeneration
  transferId := dep.reviewed.map TransferIdentity.transferId
  sourceTransferId := dep.reviewed.bind TransferIdentity.sourceTransferId

/-- `UPDATE work_items SET metadata_json = ? WHERE id = ?`. -/
def writeMetadata (rows : List (MergeWorkItem V)) (id : ℕ) (metadata : WorkItemMetadata V) :
    List (MergeWorkItem V) :=
  Table.updateWhere (fun row => decide (row.id = id)) (fun row => { row with metadata := metadata })
    rows

/-- `nextDep`. -/
def nextDependency (now : String) (sourceId : ℕ) (details : MergeDependency V) :
    Option (MergeDependency V) :=
  normalizeCrossWiMergeDependency now
    { details with source := some sourceId, createdAt := some (details.createdAt.getD now) }

/-- The end of an addition: `nextDep` is found among the records, and repaired where it has no lock
kind, or appended. -/
def storeDependency (rows : List (MergeWorkItem V)) (targetRow : MergeWorkItem V)
    (deps : List (MergeDependency V)) (nextDep : MergeDependency V) :
    DependencyAdded V × List (MergeWorkItem V) :=
  let same := fun dep => decide (dependencyKey dep = dependencyKey nextDep)
  match deps.find? same with
  | some existing =>
    if nextDep.lockKind.isSome && existing.lockKind.isNone then
      let repaired := { existing with lockKind := nextDep.lockKind }
      ({ ok := true, added := false, dependency := some repaired },
        writeMetadata rows targetRow.id { targetRow.metadata with
          mergeDependencies := some (deps.modify (deps.findIdx same) fun _ => repaired) })
    else ({ ok := true, added := false, dependency := some existing }, rows)
  | none =>
    ({ ok := true, added := true, dependency := some nextDep },
      writeMetadata rows targetRow.id { targetRow.metadata with
        mergeDependencies := some (deps ++ [nextDep]) })

/-- `addCrossWiMergeDependency`. -/
def addCrossWiMergeDependency (now : String) (rows : List (MergeWorkItem V))
    (target source : Option ℤ) (details : MergeDependency V) :
    DependencyAdded V × List (MergeWorkItem V) :=
  match workItemId target, workItemId source with
  | some targetId, some sourceId =>
    if targetId = sourceId then
      ({ ok := false, added := false, reason := some "invalid_dependency" }, rows)
    else
      match readMergeItem rows targetId, readMergeItem rows sourceId with
      | some targetRow, some _ =>
        let cycleCheck := crossWiMergeDependencyWouldCycle now rows target source
        if cycleCheck.wouldCycle then
          ({ ok := false, added := false, reason := some cycleCheck.reason
             path := cycleCheck.path }, rows)
        else
          match nextDependency now sourceId details with
          | none => ({ ok := false, added := false, reason := some "invalid_dependency" }, rows)
          | some nextDep =>
            storeDependency rows targetRow (targetRow.metadata.dependencies now) nextDep
      | _, _ => ({ ok := false, added := false, reason := some "missing_work_item" }, rows)
  | _, _ => ({ ok := false, added := false, reason := some "invalid_dependency" }, rows)

/-! ## 3. Removals -/

/-- What a removal answers. -/
structure DependenciesRemoved where
  ok : Bool
  removed : ℕ
  reason : String
  deriving DecidableEq, Repr

/-- A removal names a dependency: what its `filter` does not keep. -/
def namedByRemoval (sourceId : ℕ) (path : String) (legacyOnly : Bool) (dep : MergeDependency V) :
    Bool :=
  !(legacyOnly && dep.reviewed.isSome) && dep.source == some (sourceId : ℤ) &&
    (normalizeCrossWiRepoPath path == "" ||
      normalizeCrossWiRepoPath dep.path == normalizeCrossWiRepoPath path)

/-- `removeCrossWiMergeDependency`. -/
def removeCrossWiMergeDependency (now : String) (rows : List (MergeWorkItem V))
    (target source : Option ℤ) (path reason : String) (legacyOnly : Bool) :
    DependenciesRemoved × List (MergeWorkItem V) :=
  match workItemId target, workItemId source with
  | some targetId, some sourceId =>
    match readMergeItem rows targetId with
    | none => (⟨false, 0, "missing_work_item"⟩, rows)
    | some targetRow =>
      let deps := targetRow.metadata.dependencies now
      let kept := deps.filter (fun dep => !namedByRemoval sourceId path legacyOnly dep)
      let removed := deps.length - kept.length
      if removed = 0 then (⟨true, 0, "not_found"⟩, rows)
      else (⟨true, removed, reason⟩, writeMetadata rows targetId { targetRow.metadata with
        mergeDependencies := if kept = [] then none else some kept })
  | _, _ => (⟨false, 0, "invalid_dependency"⟩, rows)

/-- `clearCrossWiMergeDependenciesForWorkItem`. -/
def clearCrossWiMergeDependenciesForWorkItem (now : String) (rows : List (MergeWorkItem V))
    (workItem : Option ℤ) (reason : String) : DependenciesRemoved × List (MergeWorkItem V) :=
  match workItemId workItem with
  | none => (⟨false, 0, "invalid_work_item"⟩, rows)
  | some wiId =>
    match readMergeItem rows wiId with
    | none => (⟨false, 0, "missing_work_item"⟩, rows)
    | some row =>
      let deps := row.metadata.dependencies now
      if deps = [] then (⟨true, 0, "none"⟩, rows)
      else (⟨true, deps.length, reason⟩,
        writeMetadata rows wiId { row.metadata with mergeDependencies := none })

/-! ## 4. The recorded relation -/

/-- **A recorded dependency**: the first work item merges after the second. -/
def RecordedSource (rows : List (MergeWorkItem V)) (target source : ℕ) : Prop :=
  ∃ row, readMergeItem rows target = some row ∧
    ∃ dep ∈ row.metadata.mergeDependencies.getD [], workItemId dep.source = some source

section Recorded

variable {rows : List (MergeWorkItem V)} {now : String}

theorem mem_dependencies_source {metadata : WorkItemMetadata V} {source : ℕ} :
    (∃ dep ∈ metadata.dependencies now, workItemId dep.source = some source) ↔
      ∃ dep ∈ metadata.mergeDependencies.getD [], workItemId dep.source = some source := by
  unfold WorkItemMetadata.dependencies
  constructor
  · rintro ⟨dep, hdep, hsource⟩
    obtain ⟨stored, hstored, hnormal⟩ := List.mem_filterMap.mp hdep
    exact ⟨stored, hstored, by rw [← (source_of_normalize hnormal).1, hsource]⟩
  · rintro ⟨stored, hstored, hsource⟩
    have hnormal : ∃ dep, normalizeCrossWiMergeDependency now stored = some dep := by
      obtain ⟨id, hid, hpos⟩ := Option.bind_eq_some_iff.mp hsource
      have hid' : 0 < id := by
        by_contra hnot
        rw [if_neg hnot] at hpos
        cases hpos
      unfold normalizeCrossWiMergeDependency
      rw [hid]
      exact ⟨_, if_pos hid'⟩
    obtain ⟨dep, hdep⟩ := hnormal
    exact ⟨dep, List.mem_filterMap.mpr ⟨stored, hstored, hdep⟩,
      by rw [(source_of_normalize hdep).1, hsource]⟩

theorem mem_mergeSources {target source : ℕ} :
    source ∈ mergeSources now rows target ↔ RecordedSource rows target source := by
  unfold mergeSources RecordedSource
  cases readMergeItem rows target with
  | none => simp
  | some row =>
    rw [List.mem_filterMap]
    exact mem_dependencies_source.trans (by simp)

theorem step_mergeSources (now : String) (rows : List (MergeWorkItem V)) :
    Step (mergeSources now rows) = RecordedSource rows := by
  funext target source
  exact propext mem_mergeSources

/-- **The search is exact**, and what it finds is a path. -/
theorem findMergeDependencyPath_spec (now : String) (rows : List (MergeWorkItem V))
    {start target : ℕ} (hne : start ≠ target) :
    (∃ path, findMergeDependencyPath now rows start target = some path ∧
      Leads (mergeSources now rows) start path target ∧
      TransGen (RecordedSource rows) start target) ∨
    findMergeDependencyPath now rows start target = none ∧
      ¬ TransGen (RecordedSource rows) start target := by
  rw [← step_mergeSources now rows]
  refine findPath_spec (fun id hid => ?_) hne
  unfold mergeSources at hid
  cases hread : readMergeItem rows id with
  | none =>
    rw [hread] at hid
    exact absurd rfl hid
  | some row =>
    rw [List.mem_toFinset]
    exact List.mem_map.mpr ⟨row, Table.lookup_mem hread, Table.lookup_key hread⟩

/-- A dependency closes a cycle: its source merges after its target, or is its target. -/
theorem wouldCycle_iff (now : String) (rows : List (MergeWorkItem V)) {target source : Option ℤ}
    {targetId sourceId : ℕ} (htarget : workItemId target = some targetId)
    (hsource : workItemId source = some sourceId) :
    (crossWiMergeDependencyWouldCycle now rows target source).wouldCycle = true ↔
      ReflTransGen (RecordedSource rows) sourceId targetId := by
  unfold crossWiMergeDependencyWouldCycle
  rw [htarget, hsource]
  dsimp only
  by_cases heq : targetId = sourceId
  · rw [if_pos heq, heq]
    exact iff_of_true rfl ReflTransGen.refl
  · rw [if_neg heq, reflTransGen_iff_eq_or_transGen]
    rcases findMergeDependencyPath_spec now rows (Ne.symm heq) with
      ⟨path, hpath, -, hreach⟩ | ⟨hnone, hno⟩
    · rw [hpath]
      exact iff_of_true rfl (Or.inr hreach)
    · rw [hnone]
      exact iff_of_false Bool.false_ne_true fun h => h.elim heq hno

theorem readMergeItem_writeMetadata {id : ℕ} {metadata : WorkItemMetadata V} (other : ℕ) :
    readMergeItem (writeMetadata rows id metadata) other =
      (readMergeItem rows other).map
        (fun row => if row.id = id then { row with metadata := metadata } else row) := by
  have hkept : ∀ row : MergeWorkItem V, decide (row.id = id) = true →
      MergeWorkItem.id { row with metadata := metadata } = row.id := fun _ _ => rfl
  unfold readMergeItem writeMetadata
  rw [Table.lookup_updateWhere hkept]
  simp

theorem readMergeItem_writeMetadata_self {id : ℕ} {metadata : WorkItemMetadata V}
    {row : MergeWorkItem V} (hread : readMergeItem rows id = some row) :
    readMergeItem (writeMetadata rows id metadata) id = some { row with metadata := metadata } := by
  rw [readMergeItem_writeMetadata, hread, Option.map_some, if_pos (Table.lookup_key hread)]

theorem readMergeItem_writeMetadata_ne {id other : ℕ} {metadata : WorkItemMetadata V}
    (hne : other ≠ id) :
    readMergeItem (writeMetadata rows id metadata) other = readMergeItem rows other := by
  rw [readMergeItem_writeMetadata]
  cases hread : readMergeItem rows other with
  | none => rfl
  | some row =>
    rw [Option.map_some, if_neg]
    rw [Table.lookup_key hread]
    exact hne

/-- The recorded relation after a write. -/
theorem recordedSource_write {id : ℕ} {row : MergeWorkItem V}
    (hread : readMergeItem rows id = some row) {metadata : WorkItemMetadata V} {x y : ℕ} :
    RecordedSource (writeMetadata rows id metadata) x y ↔
      (x = id ∧ ∃ dep ∈ metadata.mergeDependencies.getD [], workItemId dep.source = some y) ∨
      (x ≠ id ∧ RecordedSource rows x y) := by
  by_cases heq : x = id
  · subst heq
    unfold RecordedSource
    rw [readMergeItem_writeMetadata_self hread]
    simp
  · unfold RecordedSource
    rw [readMergeItem_writeMetadata_ne heq]
    simp [heq]

end Recorded

/-! ## 5. What an addition does -/

/-- **An addition is allowed**: both work items are there, and the source does not merge after the
target. -/
structure AdditionAllowed (rows : List (MergeWorkItem V)) (target source : Option ℤ)
    (targetId sourceId : ℕ) : Prop where
  target : workItemId target = some targetId
  source : workItemId source = some sourceId
  targetThere : readMergeItem rows targetId ≠ none
  sourceThere : readMergeItem rows sourceId ≠ none
  acyclic : ¬ ReflTransGen (RecordedSource rows) sourceId targetId

section Addition

variable {rows : List (MergeWorkItem V)} {now : String} {target source : Option ℤ}
  {details : MergeDependency V}

theorem workItemId_natCast {n : ℕ} (h : 0 < n) : workItemId (some (n : ℤ)) = some n := by
  unfold workItemId
  rw [Option.bind_some, if_pos (by omega), Int.toNat_natCast]

/-- The record an addition stores. -/
theorem nextDependency_eq (now : String) (details : MergeDependency V) {sourceId : ℕ}
    (h : 0 < sourceId) :
    ∃ nextDep, nextDependency now sourceId details = some nextDep ∧
      nextDep.source = some (sourceId : ℤ) ∧
      nextDep.path = normalizeCrossWiRepoPath details.path := by
  unfold nextDependency normalizeCrossWiMergeDependency
  exact ⟨_, if_pos (by omega), rfl, rfl⟩

/-- **The step of an addition**: refused without a write where it is not allowed, else stored. -/
theorem addCrossWiMergeDependency_cases (now : String) (rows : List (MergeWorkItem V))
    (target source : Option ℤ) (details : MergeDependency V) :
    ((addCrossWiMergeDependency now rows target source details).1.ok = false ∧
      (addCrossWiMergeDependency now rows target source details).2 = rows ∧
      ∀ targetId sourceId, ¬ AdditionAllowed rows target source targetId sourceId) ∨
    ∃ targetId sourceId row nextDep, AdditionAllowed rows target source targetId sourceId ∧
      readMergeItem rows targetId = some row ∧
      nextDependency now sourceId details = some nextDep ∧
      addCrossWiMergeDependency now rows target source details =
        storeDependency rows row (row.metadata.dependencies now) nextDep := by
  unfold addCrossWiMergeDependency
  cases htarget : workItemId target with
  | none =>
    refine Or.inl ⟨rfl, rfl, fun targetId sourceId h => ?_⟩
    rw [h.target] at htarget
    cases htarget
  | some targetId =>
    cases hsource : workItemId source with
    | none =>
      refine Or.inl ⟨rfl, rfl, fun targetId sourceId h => ?_⟩
      rw [h.source] at hsource
      cases hsource
    | some sourceId =>
      have hids : ∀ {targetId' sourceId'},
          AdditionAllowed rows target source targetId' sourceId' →
          targetId' = targetId ∧ sourceId' = sourceId := fun h =>
        ⟨Option.some.inj (h.target.symm.trans htarget),
          Option.some.inj (h.source.symm.trans hsource)⟩
      dsimp only
      by_cases heq : targetId = sourceId
      · rw [if_pos heq]
        refine Or.inl ⟨rfl, rfl, fun targetId' sourceId' h => ?_⟩
        obtain ⟨rfl, rfl⟩ := hids h
        exact h.acyclic (heq ▸ ReflTransGen.refl)
      · rw [if_neg heq]
        cases hread : readMergeItem rows targetId with
        | none =>
          refine Or.inl ⟨rfl, rfl, fun targetId' sourceId' h => ?_⟩
          obtain ⟨rfl, rfl⟩ := hids h
          exact h.targetThere hread
        | some row =>
          cases hread' : readMergeItem rows sourceId with
          | none =>
            refine Or.inl ⟨rfl, rfl, fun targetId' sourceId' h => ?_⟩
            obtain ⟨rfl, rfl⟩ := hids h
            exact h.sourceThere hread'
          | some sourceRow =>
            dsimp only
            have hcycle := wouldCycle_iff now rows htarget hsource
            split
            case isTrue hwould =>
              refine Or.inl ⟨rfl, rfl, fun targetId' sourceId' h => ?_⟩
              obtain ⟨rfl, rfl⟩ := hids h
              exact h.acyclic (hcycle.mp hwould)
            case isFalse hwould =>
              obtain ⟨nextDep, hnext, -, -⟩ :=
                nextDependency_eq now details (pos_of_workItemId hsource).2
              refine Or.inr ⟨targetId, sourceId, row, nextDep, ⟨htarget, hsource, ?_, ?_, ?_⟩,
                hread, hnext, ?_⟩
              · rw [hread]
                exact Option.some_ne_none row
              · rw [hread']
                exact Option.some_ne_none sourceRow
              · exact fun h => hwould (hcycle.mpr h)
              · rw [hnext]

theorem storeDependency_ok (row : MergeWorkItem V) (deps : List (MergeDependency V))
    (nextDep : MergeDependency V) : (storeDependency rows row deps nextDep).1.ok = true := by
  unfold storeDependency
  dsimp only
  split
  · split <;> rfl
  · rfl

/-- **An addition is refused exactly where it is not allowed**, and then nothing is written. -/
theorem addCrossWiMergeDependency_refuses_iff (now : String) (rows : List (MergeWorkItem V))
    (target source : Option ℤ) (details : MergeDependency V) :
    ((addCrossWiMergeDependency now rows target source details).1.ok = false ↔
      ∀ targetId sourceId, ¬ AdditionAllowed rows target source targetId sourceId) ∧
    ((addCrossWiMergeDependency now rows target source details).1.ok = false →
      (addCrossWiMergeDependency now rows target source details).2 = rows) := by
  rcases addCrossWiMergeDependency_cases now rows target source details with
    ⟨hok, hrows, hnot⟩ | ⟨targetId, sourceId, row, nextDep, hallowed, -, -, heq⟩
  · exact ⟨iff_of_true hok hnot, fun _ => hrows⟩
  · have hok : (addCrossWiMergeDependency now rows target source details).1.ok = true := by
      rw [heq]
      exact storeDependency_ok row _ nextDep
    rw [hok]
    exact ⟨iff_of_false (by decide) fun hnot => hnot _ _ hallowed, fun h => by cases h⟩

end Addition

/-! ## 6. What an addition stores -/

/-- The list an addition writes, made from the records it has read. -/
inductive Storing (nextDep : MergeDependency V) :
    List (MergeDependency V) → List (MergeDependency V) → Prop
  | repair {before after : List (MergeDependency V)} {existing : MergeDependency V} :
      dependencyKey existing = dependencyKey nextDep →
      (∀ dep ∈ before, dependencyKey dep ≠ dependencyKey nextDep) → nextDep.lockKind ≠ none →
      Storing nextDep (before ++ existing :: after)
        (before ++ { existing with lockKind := nextDep.lockKind } :: after)
  | append {deps : List (MergeDependency V)} :
      (∀ dep ∈ deps, dependencyKey dep ≠ dependencyKey nextDep) →
      Storing nextDep deps (deps ++ [nextDep])

/-- An addition finds its dependency, with a lock kind where it brings one. -/
def Found (deps : List (MergeDependency V)) (nextDep : MergeDependency V) : Prop :=
  ∃ existing, deps.find? (fun dep => decide (dependencyKey dep = dependencyKey nextDep)) =
      some existing ∧ (nextDep.lockKind ≠ none → existing.lockKind ≠ none)

section Storing

variable {rows : List (MergeWorkItem V)} {row : MergeWorkItem V} {deps : List (MergeDependency V)}
  {nextDep : MergeDependency V}

theorem storeDependency_found (h : Found deps nextDep) :
    (storeDependency rows row deps nextDep).1.added = false ∧
      (storeDependency rows row deps nextDep).2 = rows := by
  obtain ⟨existing, hfind, hkind⟩ := h
  unfold storeDependency
  dsimp only
  rw [hfind]
  dsimp only
  rw [if_neg]
  · exact ⟨rfl, rfl⟩
  · rw [Bool.and_eq_true, Option.isSome_iff_ne_none, Option.isNone_iff_eq_none]
    exact fun h => hkind h.1 h.2

/-- **The two ways to store.** -/
theorem storeDependency_rows (rows : List (MergeWorkItem V)) (row : MergeWorkItem V)
    (deps : List (MergeDependency V)) (nextDep : MergeDependency V) :
    (Found deps nextDep ∧ (storeDependency rows row deps nextDep).2 = rows) ∨
    ∃ stored, Storing nextDep deps stored ∧ (storeDependency rows row deps nextDep).2 =
      writeMetadata rows row.id { row.metadata with mergeDependencies := some stored } := by
  cases hfind : deps.find? (fun dep => decide (dependencyKey dep = dependencyKey nextDep)) with
  | some existing =>
    by_cases hkind : nextDep.lockKind ≠ none → existing.lockKind ≠ none
    · have hfound : Found deps nextDep := ⟨existing, hfind, hkind⟩
      exact Or.inl ⟨hfound, (storeDependency_found hfound).2⟩
    · push Not at hkind
      obtain ⟨hkey, before, after, hdeps, hbefore⟩ := List.find?_eq_some_iff_append.mp hfind
      have hbefore' : ∀ dep ∈ before, dependencyKey dep ≠ dependencyKey nextDep := fun dep hdep =>
        of_decide_eq_false (by simpa using hbefore dep hdep)
      have hindex : deps.findIdx (fun dep => decide (dependencyKey dep = dependencyKey nextDep)) =
          before.length := by
        rw [hdeps, List.findIdx_append, List.findIdx_eq_length.mpr fun dep hdep => by
          simpa using hbefore' dep hdep]
        rw [if_neg (lt_irrefl _), List.findIdx_cons, hkey]
        simp
      refine Or.inr ⟨before ++ { existing with lockKind := nextDep.lockKind } :: after, ?_, ?_⟩
      · rw [hdeps]
        exact .repair (of_decide_eq_true hkey) hbefore' hkind.1
      · unfold storeDependency
        dsimp only
        rw [hfind]
        dsimp only
        rw [if_pos, hindex]
        · dsimp only
          rw [hdeps, List.modify_eq_take_cons_drop (by simp)]
          simp
        · rw [Bool.and_eq_true, Option.isSome_iff_ne_none, Option.isNone_iff_eq_none]
          exact hkind
  | none =>
    refine Or.inr ⟨deps ++ [nextDep], .append fun dep hdep => ?_, ?_⟩
    · exact of_decide_eq_false (by simpa using List.find?_eq_none.mp hfind dep hdep)
    · unfold storeDependency
      dsimp only
      rw [hfind]

theorem Storing.source {stored : List (MergeDependency V)} (h : Storing nextDep deps stored) :
    ∀ dep ∈ stored, (∃ dep' ∈ deps, dep'.source = dep.source) ∨ dep.source = nextDep.source := by
  intro dep hdep
  cases h with
  | repair =>
    rcases List.mem_append.mp hdep with hmem | hmem
    · exact Or.inl ⟨dep, List.mem_append_left _ hmem, rfl⟩
    · rcases List.mem_cons.mp hmem with rfl | hmem
      · exact Or.inl ⟨_, List.mem_append_right _ List.mem_cons_self, rfl⟩
      · exact Or.inl ⟨dep, List.mem_append_right _ (List.mem_cons_of_mem _ hmem), rfl⟩
  | append =>
    rcases List.mem_append.mp hdep with hmem | hmem
    · exact Or.inl ⟨dep, hmem, rfl⟩
    · exact Or.inr (congrArg MergeDependency.source (List.mem_singleton.mp hmem))

end Storing

/-! ## 7. Runs stay acyclic -/

/-- A call of one of the three functions, at an instant of the clock. -/
inductive MergeDependencyCall (V : Type*)
  | add (now : String) (target source : Option ℤ) (details : MergeDependency V)
  | remove (now : String) (target source : Option ℤ) (path reason : String) (legacyOnly : Bool)
  | clear (now : String) (workItem : Option ℤ) (reason : String)

/-- The rows after a call. -/
def MergeDependencyCall.apply (rows : List (MergeWorkItem V)) :
    MergeDependencyCall V → List (MergeWorkItem V)
  | .add now target source details => (addCrossWiMergeDependency now rows target source details).2
  | .remove now target source path reason legacyOnly =>
    (removeCrossWiMergeDependency now rows target source path reason legacyOnly).2
  | .clear now workItem reason =>
    (clearCrossWiMergeDependenciesForWorkItem now rows workItem reason).2

/-- The rows after a sequence of calls. -/
def runMergeDependencyCalls (rows : List (MergeWorkItem V))
    (calls : List (MergeDependencyCall V)) : List (MergeWorkItem V) :=
  calls.foldl MergeDependencyCall.apply rows

section Acyclic

variable {rows : List (MergeWorkItem V)}

/-- A write of dependencies that were there adds no edge. -/
theorem recordedSource_of_write (now : String) {id : ℕ} {row : MergeWorkItem V}
    {stored : List (MergeDependency V)} {value : Option (List (MergeDependency V))}
    (hread : readMergeItem rows id = some row) (hvalue : value.getD [] = stored)
    {T : ℕ → Prop} (hstored : ∀ dep ∈ stored,
      (∃ dep' ∈ row.metadata.dependencies now, dep'.source = dep.source) ∨
        ∀ y, workItemId dep.source = some y → T y) (x y : ℕ)
    (h : RecordedSource
      (writeMetadata rows id { row.metadata with mergeDependencies := value }) x y) :
    RecordedSource rows x y ∨ (x = id ∧ T y) := by
  rcases (recordedSource_write hread).mp h with ⟨rfl, dep, hdep, hsource⟩ | ⟨-, hold⟩
  · rcases hstored dep (hvalue ▸ hdep) with ⟨dep', hdep', heq⟩ | hnew
    · exact Or.inl ⟨row, hread, mem_dependencies_source.mp ⟨dep', hdep', heq ▸ hsource⟩⟩
    · exact Or.inr ⟨rfl, hnew y hsource⟩
  · exact Or.inl hold

theorem removeCrossWiMergeDependency_rows (now : String) (rows : List (MergeWorkItem V))
    (target source : Option ℤ) (path reason : String) (legacyOnly : Bool) :
    ((removeCrossWiMergeDependency now rows target source path reason legacyOnly).2 = rows ∧
      ∀ targetId sourceId row, workItemId target = some targetId →
        workItemId source = some sourceId → readMergeItem rows targetId = some row →
        (row.metadata.dependencies now).filter
          (fun dep => !namedByRemoval sourceId path legacyOnly dep) =
            row.metadata.dependencies now) ∨
    ∃ targetId sourceId row value, workItemId target = some targetId ∧
      workItemId source = some sourceId ∧ readMergeItem rows targetId = some row ∧
      value.getD [] = (row.metadata.dependencies now).filter
        (fun dep => !namedByRemoval sourceId path legacyOnly dep) ∧
      (removeCrossWiMergeDependency now rows target source path reason legacyOnly).2 =
        writeMetadata rows targetId { row.metadata with mergeDependencies := value } := by
  unfold removeCrossWiMergeDependency
  cases htarget : workItemId target with
  | none => exact Or.inl ⟨rfl, fun _ _ _ h => by cases h⟩
  | some targetId =>
    cases hsource : workItemId source with
    | none => exact Or.inl ⟨rfl, fun _ _ _ _ h => by cases h⟩
    | some sourceId =>
      dsimp only
      cases hread : readMergeItem rows targetId with
      | none =>
        refine Or.inl ⟨rfl, fun targetId' sourceId' row h _ hread' => ?_⟩
        obtain rfl := Option.some.inj h
        rw [hread] at hread'
        cases hread'
      | some row =>
        dsimp only
        split
        case isTrue hlen =>
          refine Or.inl ⟨rfl, fun targetId' sourceId' row' h h' hread' => ?_⟩
          obtain rfl := Option.some.inj h
          obtain rfl := Option.some.inj h'
          obtain rfl := Option.some.inj (hread.symm.trans hread')
          exact List.filter_sublist.eq_of_length_le (by omega)
        case isFalse =>
          refine Or.inr ⟨targetId, sourceId, row, _, rfl, rfl, hread, ?_, rfl⟩
          split
          case isTrue hnil => exact hnil.symm
          case isFalse => rfl

theorem clearCrossWiMergeDependencies_rows (now : String) (rows : List (MergeWorkItem V))
    (workItem : Option ℤ) (reason : String) :
    (clearCrossWiMergeDependenciesForWorkItem now rows workItem reason).2 = rows ∨
    ∃ wiId row, workItemId workItem = some wiId ∧ readMergeItem rows wiId = some row ∧
      (clearCrossWiMergeDependenciesForWorkItem now rows workItem reason).2 =
        writeMetadata rows wiId { row.metadata with mergeDependencies := none } := by
  unfold clearCrossWiMergeDependenciesForWorkItem
  cases hid : workItemId workItem with
  | none => exact Or.inl rfl
  | some wiId =>
    dsimp only
    cases hread : readMergeItem rows wiId with
    | none => exact Or.inl rfl
    | some row =>
      dsimp only
      split
      · exact Or.inl rfl
      · exact Or.inr ⟨wiId, row, rfl, hread, rfl⟩

/-- What an addition may add to the recorded relation: the edge it was asked for. -/
theorem recordedSource_of_add {now : String} {target source : Option ℤ}
    {details : MergeDependency V} {targetId sourceId : ℕ}
    (hallowed : AdditionAllowed rows target source targetId sourceId) (x y : ℕ)
    (h : RecordedSource (addCrossWiMergeDependency now rows target source details).2 x y) :
    RecordedSource rows x y ∨ (x = targetId ∧ y = sourceId) := by
  rcases addCrossWiMergeDependency_cases now rows target source details with
    ⟨-, hrows, hnot⟩ | ⟨targetId', sourceId', row, nextDep, hallowed', hread, hnext, heq⟩
  · exact absurd hallowed (hnot _ _)
  · obtain rfl := Option.some.inj (hallowed.target.symm.trans hallowed'.target)
    obtain rfl := Option.some.inj (hallowed.source.symm.trans hallowed'.source)
    rw [heq] at h
    rcases storeDependency_rows rows row (row.metadata.dependencies now) nextDep with
      ⟨-, hrows⟩ | ⟨stored, hstoring, hrows⟩
    · exact Or.inl (hrows ▸ h)
    · have hpos : 0 < sourceId := (pos_of_workItemId hallowed.source).2
      obtain ⟨nextDep', hnext', hsource, -⟩ := nextDependency_eq now details hpos
      obtain rfl := Option.some.inj (hnext.symm.trans hnext')
      rw [hrows, Table.lookup_key hread] at h
      refine recordedSource_of_write now (T := (· = sourceId)) hread rfl ?_ x y h
      intro dep hdep
      refine (hstoring.source dep hdep).imp id fun hdepSource y hy => ?_
      rw [hdepSource, hsource, workItemId_natCast hpos] at hy
      exact (Option.some.inj hy).symm

/-- **The step**: no call closes a cycle. -/
theorem acyclic_apply (hacyclic : Acyclic (RecordedSource rows)) (call : MergeDependencyCall V) :
    Acyclic (RecordedSource (call.apply rows)) := by
  cases call with
  | add now target source details =>
    by_cases hallowed : ∃ targetId sourceId, AdditionAllowed rows target source targetId sourceId
    · obtain ⟨targetId, sourceId, hallowed⟩ := hallowed
      refine acyclic_of_fan hacyclic (recordedSource_of_add hallowed) ?_
      rintro _ rfl
      exact hallowed.acyclic
    · push Not at hallowed
      obtain ⟨hiff, hrows⟩ := addCrossWiMergeDependency_refuses_iff now rows target source details
      have hsame : (addCrossWiMergeDependency now rows target source details).2 = rows :=
        hrows (hiff.mpr hallowed)
      unfold MergeDependencyCall.apply
      dsimp only
      rw [hsame]
      exact hacyclic
  | remove now target source path reason legacyOnly =>
    unfold MergeDependencyCall.apply
    dsimp only
    rcases removeCrossWiMergeDependency_rows now rows target source path reason legacyOnly with
      ⟨hrows, -⟩ | ⟨targetId, sourceId, row, value, -, -, hread, hvalue, hrows⟩
    · rw [hrows]
      exact hacyclic
    · rw [hrows]
      refine hacyclic.mono fun x y h => ?_
      refine (recordedSource_of_write now (T := fun _ => False) hread hvalue ?_ x y h).elim
        id fun hnew => hnew.2.elim
      exact fun dep hdep => Or.inl ⟨dep, (List.mem_filter.mp hdep).1, rfl⟩
  | clear now workItem reason =>
    unfold MergeDependencyCall.apply
    dsimp only
    rcases clearCrossWiMergeDependencies_rows now rows workItem reason with
      hrows | ⟨wiId, row, -, hread, hrows⟩
    · rw [hrows]
      exact hacyclic
    · rw [hrows]
      refine hacyclic.mono fun x y h => ?_
      refine (recordedSource_of_write now (T := fun _ => False) hread rfl ?_ x y h).elim
        id fun hnew => hnew.2.elim
      exact fun dep hdep => absurd hdep List.not_mem_nil

/-- **The run.** -/
theorem acyclic_run (hacyclic : Acyclic (RecordedSource rows))
    (calls : List (MergeDependencyCall V)) :
    Acyclic (RecordedSource (runMergeDependencyCalls rows calls)) := by
  unfold runMergeDependencyCalls
  induction calls generalizing rows with
  | nil => exact hacyclic
  | cons call calls ih => exact ih (acyclic_apply hacyclic call)

end Acyclic

end PosseClient
