/-
# Runs of merge dependency writes

Every write stores the records of its work item as it has just read them, and a reading takes one
`./` off a path.

* `onlyDependencies_apply`: a call changes nothing but the dependencies of its work item.
* `Settled`: a record that is read as it is stored.  `RecordsSettle` is kept by calls whose paths
  settle (`recordsSettle_run`).
* `mergeDependencies_run`: the runs stay acyclic and refuse exactly; where the paths settle, a
  dependency is stored once and no call changes what it does not name.
-/
import PosseClient.Queue.MergeDependencyWrites

namespace PosseClient

open GraphSearch Reachability Relation

variable {V : Type*}

/-! ## 1. Records that settle -/

/-- `getWorkItemMergeDependencies` of an id. -/
def mergeRecords (now : String) (rows : List (MergeWorkItem V)) (id : ℕ) :
    List (MergeDependency V) :=
  match readMergeItem rows id with
  | none => []
  | some row => getWorkItemMergeDependencies now row

/-- A record that is read as it is stored. -/
def Settled (dep : MergeDependency V) : Prop :=
  ∀ now, normalizeCrossWiMergeDependency now dep = some dep

/-- **The recorded paths settle** with the first reading. -/
def RecordsSettle (rows : List (MergeWorkItem V)) : Prop :=
  ∀ now id, ∀ dep ∈ mergeRecords now rows id, normalizeCrossWiRepoPath dep.path = dep.path

/-- The path an addition brings settles when what it stored is read. -/
def MergeDependencyCall.PathSettles : MergeDependencyCall V → Prop
  | .add _ _ _ details =>
    normalizeCrossWiRepoPath (normalizeCrossWiRepoPath (normalizeCrossWiRepoPath details.path)) =
      normalizeCrossWiRepoPath (normalizeCrossWiRepoPath details.path)
  | .remove .. => True
  | .clear .. => True

section Settle

variable {now : String} {rows : List (MergeWorkItem V)} {dep stored : MergeDependency V}

theorem branch_settles (branch : Option String) :
    (((branch.map trim).filter (· ≠ "")).map trim).filter (· ≠ "") =
      (branch.map trim).filter (· ≠ "") := by
  cases branch with
  | none => rfl
  | some branch =>
    by_cases hempty : trim branch = ""
    · simp [Option.filter, hempty]
    · simp [Option.filter, hempty, trim_trim]

/-- The members of a record as it is read, where its source is an id. -/
def normalForm (now : String) (dep : MergeDependency V) : MergeDependency V :=
  { dep with
    path := normalizeCrossWiRepoPath dep.path
    sourceBranch := (dep.sourceBranch.map trim).filter (· ≠ "")
    createdAt := some (dep.createdAt.getD now)
    reviewed := dep.reviewed.map fun transfer =>
      { transfer with
        sourceTransferId := some (transfer.sourceTransferId.getD transfer.transferId) } }

theorem normalForm_source (now : String) (dep : MergeDependency V) :
    (normalForm now dep).source = dep.source := by
  unfold normalForm
  rfl

theorem normalize_eq (now : String) (dep : MergeDependency V) :
    normalizeCrossWiMergeDependency now dep =
      (dep.source.filter (0 < ·)).map fun _ => normalForm now dep := by
  unfold normalizeCrossWiMergeDependency normalForm
  cases hsource : dep.source with
  | none => rfl
  | some sourceId =>
    by_cases hpos : 0 < sourceId
    · simp [Option.filter, hpos]
    · simp [Option.filter, hpos]

theorem normalize_eq_some {dep' : MergeDependency V} :
    normalizeCrossWiMergeDependency now dep = some dep' ↔
      (dep.source.filter (0 < ·)).isSome = true ∧ dep' = normalForm now dep := by
  rw [normalize_eq, Option.map_eq_some_iff, Option.isSome_iff_exists]
  constructor
  · rintro ⟨id, hid, rfl⟩
    exact ⟨⟨id, hid⟩, rfl⟩
  · rintro ⟨⟨id, hid⟩, rfl⟩
    exact ⟨id, hid, rfl⟩

/-- A record that has been read changes in its path alone. -/
theorem normalForm_normalForm (now now' : String) (dep : MergeDependency V) :
    normalForm now' (normalForm now dep) =
      { normalForm now dep with
        path := normalizeCrossWiRepoPath (normalizeCrossWiRepoPath dep.path) } := by
  have hreviewed : ∀ reviewed : Option (TransferIdentity V),
      (reviewed.map fun transfer => { transfer with
        sourceTransferId := some (transfer.sourceTransferId.getD transfer.transferId) }).map
          (fun transfer => { transfer with
            sourceTransferId := some (transfer.sourceTransferId.getD transfer.transferId) }) =
        reviewed.map fun transfer => { transfer with
          sourceTransferId := some (transfer.sourceTransferId.getD transfer.transferId) } := by
    intro reviewed
    cases reviewed <;> rfl
  unfold normalForm
  dsimp only
  rw [branch_settles, hreviewed, Option.getD_some]

/-- What is read of a record that has been read. -/
theorem normalize_normalize (h : normalizeCrossWiMergeDependency now stored = some dep)
    (now' : String) : normalizeCrossWiMergeDependency now' dep =
      some { dep with path := normalizeCrossWiRepoPath dep.path } := by
  obtain ⟨hsource, rfl⟩ := normalize_eq_some.mp h
  rw [normalize_eq_some, normalForm_normalForm, normalForm_source]
  refine ⟨hsource, ?_⟩
  unfold normalForm
  rfl

theorem settled_of_normalize (h : normalizeCrossWiMergeDependency now stored = some dep)
    (hpath : normalizeCrossWiRepoPath dep.path = dep.path) : Settled dep := by
  intro now'
  rw [normalize_normalize h, hpath]

theorem Settled.path (h : Settled dep) : normalizeCrossWiRepoPath dep.path = dep.path := by
  have hread := congrArg MergeDependency.path (normalize_eq_some.mp (h "")).2
  exact hread.symm

theorem Settled.withLockKind (h : Settled dep) (kind : Option LockKind) :
    Settled { dep with lockKind := kind } := by
  intro now
  obtain ⟨hsource, hform⟩ := normalize_eq_some.mp (h now)
  have hkind : normalForm now { dep with lockKind := kind } =
      { normalForm now dep with lockKind := kind } := rfl
  rw [normalize_eq_some, hkind, ← hform]
  exact ⟨hsource, rfl⟩

theorem filterMap_settled {deps : List (MergeDependency V)} (h : ∀ dep ∈ deps, Settled dep)
    (now : String) : deps.filterMap (normalizeCrossWiMergeDependency now) = deps := by
  rw [List.filterMap_congr fun dep hdep => h dep hdep now, List.filterMap_some]

theorem RecordsSettle.settled (h : RecordsSettle rows) {id : ℕ} {row : MergeWorkItem V}
    (hread : readMergeItem rows id = some row) :
    ∀ dep ∈ row.metadata.dependencies now, Settled dep := by
  intro dep hdep
  obtain ⟨stored, -, hnormal⟩ := List.mem_filterMap.mp hdep
  refine settled_of_normalize hnormal (h now id dep ?_)
  unfold mergeRecords
  rw [hread]
  exact hdep

/-- What an addition appends, as it is read back. -/
theorem nextDependency_read {sourceId : ℕ} {details nextDep : MergeDependency V}
    (hnext : nextDependency now sourceId details = some nextDep)
    (hpath :
      normalizeCrossWiRepoPath (normalizeCrossWiRepoPath (normalizeCrossWiRepoPath details.path)) =
        normalizeCrossWiRepoPath (normalizeCrossWiRepoPath details.path)) :
    ∃ back, (∀ now, normalizeCrossWiMergeDependency now nextDep = some back) ∧ Settled back ∧
      dependencyKey back = dependencyKey nextDep ∧ back.lockKind = nextDep.lockKind := by
  have hnextPath : nextDep.path = normalizeCrossWiRepoPath details.path := by
    obtain ⟨-, rfl⟩ := normalize_eq_some.mp hnext
    rfl
  refine ⟨{ nextDep with path := normalizeCrossWiRepoPath nextDep.path },
    normalize_normalize hnext, ?_, ?_, rfl⟩
  · refine settled_of_normalize (normalize_normalize hnext now) ?_
    dsimp only
    rw [hnextPath, hpath]
  · unfold dependencyKey
    dsimp only
    rw [hnextPath, hpath]

/-- The key and the lock kind of an addition do not depend on the clock. -/
theorem nextDependency_clock {sourceId : ℕ} {details nextDep nextDep' : MergeDependency V}
    {now' : String} (h : nextDependency now sourceId details = some nextDep)
    (h' : nextDependency now' sourceId details = some nextDep') :
    dependencyKey nextDep' = dependencyKey nextDep ∧ nextDep'.lockKind = nextDep.lockKind := by
  obtain ⟨-, rfl⟩ := normalize_eq_some.mp h
  obtain ⟨-, rfl⟩ := normalize_eq_some.mp h'
  exact ⟨rfl, rfl⟩

theorem Found.congr {deps : List (MergeDependency V)} {nextDep nextDep' : MergeDependency V}
    (h : Found deps nextDep) (hkey : dependencyKey nextDep' = dependencyKey nextDep)
    (hkind : nextDep'.lockKind = nextDep.lockKind) : Found deps nextDep' := by
  obtain ⟨existing, hfind, hrepaired⟩ := h
  refine ⟨existing, ?_, ?_⟩
  · rw [hkey]
    exact hfind
  · rw [hkind]
    exact hrepaired

/-- Whether an addition finds its dependency does not depend on the clock of the reading. -/
theorem Found.clock {metadata : WorkItemMetadata V} {nextDep : MergeDependency V} (now' : String)
    (h : Found (metadata.dependencies now) nextDep) :
    Found (metadata.dependencies now') nextDep := by
  unfold WorkItemMetadata.dependencies at h ⊢
  revert h
  generalize metadata.mergeDependencies.getD [] = stored
  intro h
  induction stored with
  | nil => exact h
  | cons stored rest ih =>
    cases hread : normalizeCrossWiMergeDependency now stored with
    | none =>
      have hread' : normalizeCrossWiMergeDependency now' stored = none := by
        rw [normalize_eq, Option.map_eq_none_iff] at hread ⊢
        exact hread
      rw [List.filterMap_cons_none hread] at h
      rw [List.filterMap_cons_none hread']
      exact ih h
    | some dep =>
      obtain ⟨hsource, rfl⟩ := normalize_eq_some.mp hread
      rw [List.filterMap_cons_some hread] at h
      rw [List.filterMap_cons_some (normalize_eq_some.mpr ⟨hsource, rfl⟩)]
      obtain ⟨existing, hfind, hkind⟩ := h
      rw [List.find?_cons] at hfind
      have hkey : dependencyKey (normalForm now' stored) = dependencyKey (normalForm now stored) :=
        rfl
      unfold Found
      rw [List.find?_cons, hkey]
      cases hsame : decide (dependencyKey (normalForm now stored) = dependencyKey nextDep) with
      | true =>
        rw [hsame] at hfind
        obtain rfl := Option.some.inj hfind
        exact ⟨_, rfl, hkind⟩
      | false =>
        rw [hsame] at hfind
        exact ih ⟨existing, hfind, hkind⟩

end Settle

/-! ## 2. What a call leaves as it was -/

/-- The work item a call may write to. -/
def MergeDependencyCall.target : MergeDependencyCall V → Option ℕ
  | .add _ target _ _ => workItemId target
  | .remove _ target _ _ _ _ => workItemId target
  | .clear _ workItem _ => workItemId workItem

/-- The clock of a call. -/
def MergeDependencyCall.now : MergeDependencyCall V → String
  | .add now .. => now
  | .remove now .. => now
  | .clear now .. => now

/-- The dependencies a call names. -/
def MergeDependencyCall.names (dep : MergeDependency V) : MergeDependencyCall V → Bool
  | .add now _ source details =>
    decide (((workItemId source).bind fun id => nextDependency now id details).map dependencyKey =
      some (dependencyKey dep))
  | .remove _ _ source path _ legacyOnly =>
    (workItemId source).any fun id => namedByRemoval id path legacyOnly dep
  | .clear .. => true

/-- All that two states of the rows may differ in is the dependencies of one work item. -/
structure OnlyDependencies (rows rows' : List (MergeWorkItem V)) (target : Option ℕ) : Prop where
  others : ∀ id, target ≠ some id → readMergeItem rows' id = readMergeItem rows id
  members : ∀ id, ∃ value, readMergeItem rows' id = (readMergeItem rows id).map fun row =>
    { row with metadata := { row.metadata with mergeDependencies := value } }

section Frame

variable {rows : List (MergeWorkItem V)}

theorem OnlyDependencies.refl (rows : List (MergeWorkItem V)) (target : Option ℕ) :
    OnlyDependencies rows rows target := by
  refine ⟨fun _ _ => rfl, fun id => ?_⟩
  cases hread : readMergeItem rows id with
  | none => exact ⟨none, rfl⟩
  | some row => exact ⟨row.metadata.mergeDependencies, rfl⟩

theorem onlyDependencies_write {id : ℕ} {row : MergeWorkItem V}
    (hread : readMergeItem rows id = some row) (value : Option (List (MergeDependency V))) :
    OnlyDependencies rows
      (writeMetadata rows id { row.metadata with mergeDependencies := value }) (some id) := by
  constructor
  · intro other hne
    exact readMergeItem_writeMetadata_ne fun heq => hne (congrArg some heq.symm)
  · intro other
    by_cases heq : other = id
    · subst heq
      exact ⟨value, by rw [readMergeItem_writeMetadata_self hread, hread]; rfl⟩
    · obtain ⟨value', hvalue'⟩ := (OnlyDependencies.refl rows none).members other
      exact ⟨value', by rw [readMergeItem_writeMetadata_ne heq]; exact hvalue'⟩

/-- **No call touches another member of a metadata**, or another work item. -/
theorem onlyDependencies_apply (rows : List (MergeWorkItem V)) (call : MergeDependencyCall V) :
    OnlyDependencies rows (call.apply rows) call.target := by
  cases call with
  | add now target source details =>
    unfold MergeDependencyCall.apply MergeDependencyCall.target
    dsimp only
    rcases addCrossWiMergeDependency_cases now rows target source details with
      ⟨-, hrows, -⟩ | ⟨targetId, sourceId, row, nextDep, hallowed, hread, -, heq⟩
    · rw [hrows]
      exact OnlyDependencies.refl rows _
    · rw [heq, hallowed.target]
      rcases storeDependency_rows rows row (row.metadata.dependencies now) nextDep with
        ⟨-, hrows⟩ | ⟨stored, -, hrows⟩
      · rw [hrows]
        exact OnlyDependencies.refl rows _
      · rw [hrows, Table.lookup_key hread]
        exact onlyDependencies_write hread _
  | remove now target source path reason legacyOnly =>
    unfold MergeDependencyCall.apply MergeDependencyCall.target
    dsimp only
    rcases removeCrossWiMergeDependency_rows now rows target source path reason legacyOnly with
      ⟨hrows, -⟩ | ⟨targetId, sourceId, row, value, htarget, -, hread, -, hrows⟩
    · rw [hrows]
      exact OnlyDependencies.refl rows _
    · rw [hrows, htarget]
      exact onlyDependencies_write hread _
  | clear now workItem reason =>
    unfold MergeDependencyCall.apply MergeDependencyCall.target
    dsimp only
    rcases clearCrossWiMergeDependencies_rows now rows workItem reason with
      hrows | ⟨wiId, row, htarget, hread, hrows⟩
    · rw [hrows]
      exact OnlyDependencies.refl rows _
    · rw [hrows, htarget]
      exact onlyDependencies_write hread _

theorem mergeRecords_of_read {now : String} {id : ℕ} {row : MergeWorkItem V}
    (hread : readMergeItem rows id = some row) :
    mergeRecords now rows id = row.metadata.dependencies now := by
  unfold mergeRecords
  rw [hread]
  rfl

theorem mergeRecords_write {now : String} {id : ℕ} {row : MergeWorkItem V}
    (hread : readMergeItem rows id = some row) (value : Option (List (MergeDependency V))) :
    mergeRecords now
      (writeMetadata rows id { row.metadata with mergeDependencies := value }) id =
        (value.getD []).filterMap (normalizeCrossWiMergeDependency now) := by
  rw [mergeRecords_of_read (readMergeItem_writeMetadata_self hread)]
  rfl

theorem mergeRecords_write_ne {now : String} {id other : ℕ} {metadata : WorkItemMetadata V}
    (hne : other ≠ id) :
    mergeRecords now (writeMetadata rows id metadata) other = mergeRecords now rows other := by
  unfold mergeRecords
  rw [readMergeItem_writeMetadata_ne hne]

/-- Records that settle still do after settled ones are written. -/
theorem RecordsSettle.write (h : RecordsSettle rows) {id : ℕ} {row : MergeWorkItem V}
    (hread : readMergeItem rows id = some row) {value : Option (List (MergeDependency V))}
    (hvalue : ∀ now, ∀ dep ∈ (value.getD []).filterMap (normalizeCrossWiMergeDependency now),
      Settled dep) :
    RecordsSettle
      (writeMetadata rows id { row.metadata with mergeDependencies := value }) := by
  intro now other dep hdep
  by_cases heq : other = id
  · subst heq
    rw [mergeRecords_write hread] at hdep
    exact (hvalue now dep hdep).path
  · rw [mergeRecords_write_ne heq] at hdep
    exact h now other dep hdep

/-- **What an addition stores, read back**: its dependency once, and all else as it was read. -/
theorem Storing.read {nextDep back : MergeDependency V} {deps stored : List (MergeDependency V)}
    (h : Storing nextDep deps stored) (hdeps : ∀ dep ∈ deps, Settled dep)
    (hback : ∀ now, normalizeCrossWiMergeDependency now nextDep = some back)
    (hsettled : Settled back) (hkey : dependencyKey back = dependencyKey nextDep)
    (hkind : back.lockKind = nextDep.lockKind) :
    ∃ after, (∀ now, stored.filterMap (normalizeCrossWiMergeDependency now) = after) ∧
      (∀ dep ∈ after, Settled dep) ∧ Found after nextDep ∧
      after.filter (fun dep => !decide (dependencyKey dep = dependencyKey nextDep)) =
        deps.filter (fun dep => !decide (dependencyKey dep = dependencyKey nextDep)) ∧
      after.countP (fun dep => decide (dependencyKey dep = dependencyKey nextDep)) =
        max (deps.countP fun dep => decide (dependencyKey dep = dependencyKey nextDep)) 1 := by
  cases h with
  | @repair before after existing hsame hbefore hnone =>
    have hall : ∀ dep ∈ before ++ { existing with lockKind := nextDep.lockKind } :: after,
        Settled dep := by
      intro dep hdep
      rcases List.mem_append.mp hdep with hmem | hmem
      · exact hdeps dep (List.mem_append_left _ hmem)
      · rcases List.mem_cons.mp hmem with rfl | hmem
        · have hexisting := hdeps existing (List.mem_append_right _ List.mem_cons_self)
          exact hexisting.withLockKind _
        · exact hdeps dep (List.mem_append_right _ (List.mem_cons_of_mem _ hmem))
    have hsame' : dependencyKey { existing with lockKind := nextDep.lockKind } =
        dependencyKey nextDep := hsame
    have hnot : before.find? (fun dep => decide (dependencyKey dep = dependencyKey nextDep)) =
        none := List.find?_eq_none.mpr fun dep hdep => by simpa using hbefore dep hdep
    refine ⟨_, filterMap_settled hall, hall,
      ⟨{ existing with lockKind := nextDep.lockKind }, ?_, fun _ => hnone⟩, ?_, ?_⟩
    · rw [List.find?_append, hnot, Option.none_or, List.find?_cons, hsame', decide_eq_true rfl]
    · rw [List.filter_append, List.filter_append, List.filter_cons, List.filter_cons, hsame', hsame,
        decide_eq_true rfl]
      rfl
    · rw [List.countP_append, List.countP_append, List.countP_cons, List.countP_cons, hsame', hsame,
        decide_eq_true rfl]
      simp only [if_true]
      omega
  | append hnot =>
    have hall : ∀ dep ∈ deps ++ [back], Settled dep := by
      intro dep hdep
      rcases List.mem_append.mp hdep with hmem | hmem
      · exact hdeps dep hmem
      · rw [List.mem_singleton.mp hmem]
        exact hsettled
    have hnone : deps.find? (fun dep => decide (dependencyKey dep = dependencyKey nextDep)) =
        none :=
      List.find?_eq_none.mpr fun dep hdep => by simpa using hnot dep hdep
    refine ⟨deps ++ [back], fun now => ?_, hall, ⟨back, ?_, fun hne => ?_⟩, ?_, ?_⟩
    · rw [List.filterMap_append, filterMap_settled hdeps]
      simp [hback now]
    · rw [List.find?_append, hnone, Option.none_or, List.find?_singleton, hkey]
      simp
    · rwa [hkind]
    · rw [List.filter_append, List.filter_singleton, hkey]
      simp
    · have hzero : deps.countP (fun dep => decide (dependencyKey dep = dependencyKey nextDep)) =
          0 :=
        List.countP_eq_zero.mpr fun dep hdep => by simpa using hnot dep hdep
      rw [List.countP_append, hzero, List.countP_singleton, hkey]
      simp

end Frame

/-! ## 3. Runs -/

/-- A call leaves every dependency it does not name as it was read. -/
def KeepsUnnamed (rows : List (MergeWorkItem V)) (call : MergeDependencyCall V) : Prop :=
  ∀ id, (mergeRecords call.now (call.apply rows) id).filter
      (fun dep => !(decide (call.target = some id) && call.names dep)) =
    (mergeRecords call.now rows id).filter
      (fun dep => !(decide (call.target = some id) && call.names dep))

/-- An addition that is allowed stores its dependency once, and the same addition again, at whatever
instant, finds it and writes nothing. -/
def StoresOnce (rows : List (MergeWorkItem V)) : MergeDependencyCall V → Prop
  | .add now target source details =>
    ∀ targetId sourceId nextDep, AdditionAllowed rows target source targetId sourceId →
      nextDependency now sourceId details = some nextDep →
      let rows' := (addCrossWiMergeDependency now rows target source details).2
      (mergeRecords now rows' targetId).countP
          (fun dep => decide (dependencyKey dep = dependencyKey nextDep)) =
        max ((mergeRecords now rows targetId).countP
          fun dep => decide (dependencyKey dep = dependencyKey nextDep)) 1 ∧
      ∀ now', (addCrossWiMergeDependency now' rows' target source details).1.ok = true ∧
        (addCrossWiMergeDependency now' rows' target source details).1.added = false ∧
        (addCrossWiMergeDependency now' rows' target source details).2 = rows'
  | .remove .. => True
  | .clear .. => True

section Run

variable {rows : List (MergeWorkItem V)}

/-- An addition after which its dependency is found at any reading. -/
theorem add_settled {now : String} {target source : Option ℤ} {details : MergeDependency V}
    {targetId sourceId : ℕ} {nextDep : MergeDependency V} (h : RecordsSettle rows)
    (hpath : (MergeDependencyCall.add now target source details).PathSettles)
    (hallowed : AdditionAllowed rows target source targetId sourceId)
    (hnext : nextDependency now sourceId details = some nextDep) :
    let rows' := (addCrossWiMergeDependency now rows target source details).2
    RecordsSettle rows' ∧ (∀ now', Found (mergeRecords now' rows' targetId) nextDep) ∧
      (mergeRecords now rows' targetId).filter
          (fun dep => !decide (dependencyKey dep = dependencyKey nextDep)) =
        (mergeRecords now rows targetId).filter
          (fun dep => !decide (dependencyKey dep = dependencyKey nextDep)) ∧
      (mergeRecords now rows' targetId).countP
          (fun dep => decide (dependencyKey dep = dependencyKey nextDep)) =
        max ((mergeRecords now rows targetId).countP
          fun dep => decide (dependencyKey dep = dependencyKey nextDep)) 1 := by
  intro rows'
  rcases addCrossWiMergeDependency_cases now rows target source details with
    ⟨-, -, hnot⟩ | ⟨targetId', sourceId', row, nextDep', hallowed', hread, hnext', heq⟩
  · exact absurd hallowed (hnot _ _)
  · obtain rfl := Option.some.inj (hallowed.target.symm.trans hallowed'.target)
    obtain rfl := Option.some.inj (hallowed.source.symm.trans hallowed'.source)
    obtain rfl := Option.some.inj (hnext.symm.trans hnext')
    have hrows' : rows' = (storeDependency rows row (row.metadata.dependencies now) nextDep).2 :=
      congrArg Prod.snd heq
    rcases storeDependency_rows rows row (row.metadata.dependencies now) nextDep with
      ⟨hfound, hsame⟩ | ⟨stored, hstoring, hwrite⟩
    · rw [hrows', hsame]
      refine ⟨h, fun now' => ?_, rfl, ?_⟩
      · rw [mergeRecords_of_read hread]
        exact hfound.clock now'
      · rw [mergeRecords_of_read hread]
        obtain ⟨existing, hfind, -⟩ := hfound
        have hpos : 0 < (row.metadata.dependencies now).countP
            (fun dep => decide (dependencyKey dep = dependencyKey nextDep)) :=
          List.countP_pos_iff.mpr ⟨existing, List.mem_of_find?_eq_some hfind,
            List.find?_some (p := fun dep => decide (dependencyKey dep = dependencyKey nextDep))
              hfind⟩
        omega
    · rw [Table.lookup_key hread] at hwrite
      obtain ⟨back, hback, hsettled, hkey, hkind⟩ := nextDependency_read hnext hpath
      obtain ⟨after, hafter, hall, hfound, hfilter, hcount⟩ :=
        hstoring.read (h.settled hread) hback hsettled hkey hkind
      have hrecords : ∀ now', mergeRecords now' rows' targetId = after := by
        intro now'
        rw [hrows', hwrite, mergeRecords_write hread]
        exact hafter now'
      refine ⟨?_, fun now' => ?_, ?_, ?_⟩
      · rw [hrows', hwrite]
        refine h.write hread fun now' dep hdep => ?_
        rw [Option.getD_some, hafter now'] at hdep
        exact hall dep hdep
      · rw [hrecords]
        exact hfound
      · rw [hrecords, hfilter, mergeRecords_of_read hread]
      · rw [hrecords, hcount, mergeRecords_of_read hread]

/-- After an addition its source still does not merge after its target. -/
theorem AdditionAllowed.again {now : String} {target source : Option ℤ}
    {details : MergeDependency V} {targetId sourceId : ℕ}
    (h : AdditionAllowed rows target source targetId sourceId) :
    AdditionAllowed (addCrossWiMergeDependency now rows target source details).2 target source
      targetId sourceId := by
  have hframe := onlyDependencies_apply rows (.add now target source details)
  have hthere : ∀ id, readMergeItem rows id ≠ none →
      readMergeItem (addCrossWiMergeDependency now rows target source details).2 id ≠ none := by
    intro id hid
    obtain ⟨value, hvalue⟩ := hframe.members id
    intro hnone
    exact hid (Option.map_eq_none_iff.mp (hvalue.symm.trans hnone))
  refine ⟨h.target, h.source, hthere _ h.targetThere, hthere _ h.sourceThere, fun hreach => ?_⟩
  have hne : sourceId ≠ targetId := fun heq => h.acyclic (heq ▸ ReflTransGen.refl)
  rcases reflTransGen_iff_eq_or_transGen.mp hreach with heq | hpath
  · exact hne heq.symm
  · rcases transGen_fan (T := (· = sourceId)) (recordedSource_of_add h) hpath with hold | ⟨hold, -⟩
    · exact h.acyclic hold.to_reflTransGen
    · exact h.acyclic hold

theorem storesOnce (h : RecordsSettle rows) (call : MergeDependencyCall V)
    (hpath : call.PathSettles) : StoresOnce rows call := by
  cases call with
  | add now target source details =>
    intro targetId sourceId nextDep hallowed hnext rows'
    obtain ⟨-, hfound, -, hcount⟩ := add_settled h hpath hallowed hnext
    refine ⟨hcount, fun now' => ?_⟩
    have hagain : AdditionAllowed rows' target source targetId sourceId := hallowed.again
    rcases addCrossWiMergeDependency_cases now' rows' target source details with
      ⟨-, -, hnot⟩ | ⟨targetId', sourceId', row, nextDep', hallowed', hread, hnext', heq⟩
    · exact absurd hagain (hnot _ _)
    · obtain rfl := Option.some.inj (hallowed.target.symm.trans hallowed'.target)
      obtain rfl := Option.some.inj (hallowed.source.symm.trans hallowed'.source)
      obtain ⟨hkey, hkind⟩ := nextDependency_clock hnext hnext'
      have hfound' : Found (row.metadata.dependencies now') nextDep' := by
        have hthere := hfound now'
        rw [mergeRecords_of_read hread] at hthere
        exact hthere.congr hkey hkind
      rw [heq]
      exact ⟨storeDependency_ok row _ _, (storeDependency_found hfound').1,
        (storeDependency_found hfound').2⟩
  | remove => trivial
  | clear => trivial

/-- A removal reads back what its filter kept. -/
theorem remove_settled (h : RecordsSettle rows) (now : String) (target source : Option ℤ)
    (path reason : String) (legacyOnly : Bool) :
    let rows' := (removeCrossWiMergeDependency now rows target source path reason legacyOnly).2
    RecordsSettle rows' ∧ ∀ targetId sourceId, workItemId target = some targetId →
      workItemId source = some sourceId → mergeRecords now rows' targetId =
        (mergeRecords now rows targetId).filter
          fun dep => !namedByRemoval sourceId path legacyOnly dep := by
  intro rows'
  rcases removeCrossWiMergeDependency_rows now rows target source path reason legacyOnly with
    ⟨hrows, hnone⟩ | ⟨targetId, sourceId, row, value, htarget, hsource, hread, hvalue, hrows⟩
  · have hrows' : rows' = rows := hrows
    rw [hrows']
    refine ⟨h, fun targetId sourceId htarget hsource => ?_⟩
    cases hread : readMergeItem rows targetId with
    | none =>
      unfold mergeRecords
      rw [hread]
      rfl
    | some row =>
      rw [mergeRecords_of_read hread]
      exact (hnone targetId sourceId row htarget hsource hread).symm
  · have hrows' : rows' = writeMetadata rows targetId
        { row.metadata with mergeDependencies := value } := hrows
    have hkept : ∀ dep ∈ value.getD [], Settled dep := by
      intro dep hdep
      rw [hvalue] at hdep
      exact h.settled hread dep (List.mem_filter.mp hdep).1
    have hback : ∀ now', (value.getD []).filterMap (normalizeCrossWiMergeDependency now') =
        value.getD [] := fun now' => filterMap_settled hkept now'
    rw [hrows']
    refine ⟨h.write hread fun now' dep hdep => hkept dep (hback now' ▸ hdep), ?_⟩
    intro targetId' sourceId' htarget' hsource'
    obtain rfl := Option.some.inj (htarget.symm.trans htarget')
    obtain rfl := Option.some.inj (hsource.symm.trans hsource')
    rw [mergeRecords_write hread, hback, hvalue, mergeRecords_of_read hread]

theorem keepsUnnamed (h : RecordsSettle rows) (call : MergeDependencyCall V)
    (hpath : call.PathSettles) : KeepsUnnamed rows call := by
  intro id
  by_cases htarget : call.target = some id
  · rw [decide_eq_true htarget]
    simp only [Bool.true_and]
    cases call with
    | add now target source details =>
      by_cases hallowed : ∃ targetId sourceId, AdditionAllowed rows target source targetId sourceId
      · obtain ⟨targetId, sourceId, hallowed⟩ := hallowed
        obtain rfl : targetId = id := Option.some.inj (hallowed.target.symm.trans htarget)
        obtain ⟨nextDep, hnext, -, -⟩ :=
          nextDependency_eq now details (pos_of_workItemId hallowed.source).2
        have hnames : ∀ dep : MergeDependency V,
            (MergeDependencyCall.add now target source details).names dep =
              decide (dependencyKey dep = dependencyKey nextDep) := by
          intro dep
          unfold MergeDependencyCall.names
          dsimp only
          rw [hallowed.source, Option.bind_some, hnext, Option.map_some]
          exact decide_eq_decide.mpr ⟨fun heq => (Option.some.inj heq).symm, fun heq =>
            congrArg some heq.symm⟩
        simp only [hnames]
        exact (add_settled h hpath hallowed hnext).2.2.1
      · push Not at hallowed
        obtain ⟨hiff, hrows⟩ := addCrossWiMergeDependency_refuses_iff now rows target source details
        have hsame : (MergeDependencyCall.add now target source details).apply rows = rows :=
          hrows (hiff.mpr hallowed)
        rw [hsame]
    | remove now target source path reason legacyOnly =>
      cases hsource : workItemId source with
      | none =>
        have hsame : (MergeDependencyCall.remove now target source path reason legacyOnly).apply
            rows = rows := by
          rcases removeCrossWiMergeDependency_rows now rows target source path reason legacyOnly
            with ⟨hrows, -⟩ | ⟨_, _, _, _, -, hsource', -⟩
          · exact hrows
          · rw [hsource] at hsource'
            cases hsource'
        rw [hsame]
      | some sourceId =>
        have hnames : ∀ dep : MergeDependency V,
            (MergeDependencyCall.remove now target source path reason legacyOnly).names dep =
              namedByRemoval sourceId path legacyOnly dep := by
          intro dep
          unfold MergeDependencyCall.names
          dsimp only
          rw [hsource, Option.any_some]
        simp only [hnames]
        have hrecords := (remove_settled h now target source path reason legacyOnly).2 id sourceId
          htarget hsource
        have happly : mergeRecords now
            ((MergeDependencyCall.remove now target source path reason legacyOnly).apply rows) id =
              _ := hrecords
        unfold MergeDependencyCall.now
        dsimp only
        rw [happly, List.filter_filter]
        simp
    | clear now workItem reason =>
      unfold MergeDependencyCall.names
      simp
  · have hother : readMergeItem (call.apply rows) id = readMergeItem rows id :=
      (onlyDependencies_apply rows call).others id htarget
    unfold mergeRecords
    rw [hother]

theorem clear_settled (h : RecordsSettle rows) (now : String) (workItem : Option ℤ)
    (reason : String) :
    RecordsSettle (clearCrossWiMergeDependenciesForWorkItem now rows workItem reason).2 := by
  rcases clearCrossWiMergeDependencies_rows now rows workItem reason with
    hrows | ⟨wiId, row, -, hread, hrows⟩
  · rw [hrows]
    exact h
  · rw [hrows]
    exact h.write hread fun now' dep hdep => absurd hdep List.not_mem_nil

/-- **The step**: records that settle still do. -/
theorem recordsSettle_apply (h : RecordsSettle rows) (call : MergeDependencyCall V)
    (hpath : call.PathSettles) : RecordsSettle (call.apply rows) := by
  cases call with
  | add now target source details =>
    by_cases hallowed : ∃ targetId sourceId, AdditionAllowed rows target source targetId sourceId
    · obtain ⟨targetId, sourceId, hallowed⟩ := hallowed
      obtain ⟨nextDep, hnext, -, -⟩ :=
        nextDependency_eq now details (pos_of_workItemId hallowed.source).2
      exact (add_settled h hpath hallowed hnext).1
    · push Not at hallowed
      obtain ⟨hiff, hrows⟩ := addCrossWiMergeDependency_refuses_iff now rows target source details
      have hsame : (MergeDependencyCall.add now target source details).apply rows = rows :=
        hrows (hiff.mpr hallowed)
      rw [hsame]
      exact h
  | remove now target source path reason legacyOnly =>
    exact (remove_settled h now target source path reason legacyOnly).1
  | clear now workItem reason => exact clear_settled h now workItem reason

/-- **The run.** -/
theorem recordsSettle_run (h : RecordsSettle rows) (calls : List (MergeDependencyCall V))
    (hpaths : ∀ call ∈ calls, call.PathSettles) :
    RecordsSettle (runMergeDependencyCalls rows calls) := by
  unfold runMergeDependencyCalls
  induction calls generalizing rows with
  | nil => exact h
  | cons call calls ih =>
    exact ih (recordsSettle_apply h call (hpaths call List.mem_cons_self))
      fun call' hcall' => hpaths call' (List.mem_cons_of_mem _ hcall')

end Run

/-- **Merge dependencies over whole runs.**  From acyclic dependencies the recorded relation stays
acyclic, without self edges; additions are refused exactly where they must be, and then write
nothing; nothing but the dependencies of one work item changes.  Where the recorded paths and those
of the additions settle, a call leaves what it does not name as it was read, and a dependency is
stored once. -/
theorem mergeDependencies_run {rows : List (MergeWorkItem V)}
    (hacyclic : Acyclic (RecordedSource rows)) (calls : List (MergeDependencyCall V)) :
    (Acyclic (RecordedSource (runMergeDependencyCalls rows calls)) ∧
      ∀ id, ¬ RecordedSource (runMergeDependencyCalls rows calls) id id) ∧
    (∀ now target source details,
      ((addCrossWiMergeDependency now (runMergeDependencyCalls rows calls) target source
          details).1.ok = false ↔
        ∀ targetId sourceId, ¬ AdditionAllowed (runMergeDependencyCalls rows calls) target source
          targetId sourceId) ∧
      ((addCrossWiMergeDependency now (runMergeDependencyCalls rows calls) target source
          details).1.ok = false →
        (addCrossWiMergeDependency now (runMergeDependencyCalls rows calls) target source
          details).2 = runMergeDependencyCalls rows calls)) ∧
    (∀ call : MergeDependencyCall V, OnlyDependencies (runMergeDependencyCalls rows calls)
      (call.apply (runMergeDependencyCalls rows calls)) call.target) ∧
    (RecordsSettle rows → (∀ call ∈ calls, call.PathSettles) → ∀ call, call.PathSettles →
      KeepsUnnamed (runMergeDependencyCalls rows calls) call ∧
      StoresOnce (runMergeDependencyCalls rows calls) call) := by
  have hrun := acyclic_run hacyclic calls
  refine ⟨⟨hrun, hrun.irrefl⟩, ?_, onlyDependencies_apply _, fun hrecords hpaths call hpath => ?_⟩
  · exact fun now target source details =>
      addCrossWiMergeDependency_refuses_iff now _ target source details
  · have hsettled := recordsSettle_run hrecords calls hpaths
    exact ⟨keepsUnnamed hsettled call hpath, storesOnce hsettled call hpath⟩

/-- Two work items without dependencies. -/
def twoMergeItems : List (MergeWorkItem Unit) :=
  [{ id := 1, status := .queued }, { id := 2, status := .queued }]

/-- An addition of the first work item to the second, for a path. -/
def addFirst (path : String) : MergeDependencyCall Unit :=
  .add "now" (some 2) (some 1) { source := none, path := path }

theorem not_recordedSource_twoMergeItems (x y : ℕ) : ¬ RecordedSource twoMergeItems x y := by
  rintro ⟨row, hread, dep, hdep, -⟩
  have hrow : ∀ row ∈ twoMergeItems, row.metadata.mergeDependencies.getD [] = [] := by decide
  rw [hrow row (Table.lookup_mem hread)] at hdep
  cases hdep

theorem mergeDependencies_run_two :
    KeepsUnnamed (runMergeDependencyCalls twoMergeItems [addFirst "./a.js"])
        (addFirst "./a.js") ∧
      StoresOnce (runMergeDependencyCalls twoMergeItems [addFirst "./a.js"])
        (addFirst "./a.js") := by
  have hacyclic : Acyclic (RecordedSource twoMergeItems) := by
    intro x hx
    obtain ⟨y, -, hstep⟩ := TransGen.tail'_iff.mp hx
    exact not_recordedSource_twoMergeItems y x hstep
  have hpath : (addFirst "./a.js").PathSettles := by
    unfold addFirst MergeDependencyCall.PathSettles
    decide +kernel
  refine (mergeDependencies_run hacyclic [addFirst "./a.js"]).2.2.2 ?_ ?_ _ hpath
  · intro now id dep hdep
    unfold mergeRecords at hdep
    split at hdep
    case h_1 => cases hdep
    case h_2 row hread =>
      have hrow : ∀ row ∈ twoMergeItems, row.metadata.mergeDependencies = none := by decide
      unfold getWorkItemMergeDependencies WorkItemMetadata.dependencies at hdep
      rw [hrow row (Table.lookup_mem hread)] at hdep
      cases hdep
  · intro call hcall
    rw [List.mem_singleton.mp hcall]
    exact hpath

/-- The same addition twice is stored twice, and the second rewrites the path of the first. -/
theorem addFirst_stored_twice :
    (mergeRecords "now" (runMergeDependencyCalls twoMergeItems [addFirst "./././a.js"]) 2).map
        MergeDependency.path = ["./a.js"] ∧
      (mergeRecords "now" (runMergeDependencyCalls twoMergeItems
          [addFirst "./././a.js", addFirst "./././a.js"]) 2).map MergeDependency.path =
        ["a.js", "./a.js"] := by
  decide +kernel

end PosseClient
