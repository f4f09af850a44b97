/-
# Cross-work-item merge dependencies

The records of `cross-wi-deps.js` under `cross_wi_merge_dependencies` of a work item's metadata: how
they are read and normalized.

* `normalizeCrossWiRepoPath`, `normalizeCrossWiMergeDependency`: a record as it is read.
* `getWorkItemMergeDependencies`: the records of a work item.

A source id is what `Number` makes of the first of its three names that is there, `none` where that
is no integer; the other members that are passed on as they are have any type.
-/
import PosseClient.Store.Schema
import PosseClient.Lib.JsText

namespace PosseClient

/-! ## 1. Records -/

/-- The members of a reviewed transfer in a record. -/
structure TransferIdentity (V : Type*) where
  transferId : String
  receiptId : V
  sourceTransferId : Option String
  sourceGeneration : Option String
  sourceCommit : V
  requiredProvenance : V
  deriving DecidableEq, Repr

/-- An entry of `cross_wi_merge_dependencies`; `reviewed` is there where `isReviewedTransfer` says
so, an empty text stands for no path. -/
structure MergeDependency (V : Type*) where
  source : Option ℤ
  path : String := ""
  lockKind : Option LockKind := none
  sourceBranch : Option String := none
  sourceLockId : Option V := none
  viaJobId : Option V := none
  createdAt : Option String := none
  reviewed : Option (TransferIdentity V) := none
  deriving DecidableEq, Repr

/-- What `parseWorkItemMetadata` gives: the value of `cross_wi_merge_dependencies`, `none` where that
is no array, and the other keys with their values. -/
structure WorkItemMetadata (V : Type*) where
  mergeDependencies : Option (List (MergeDependency V)) := none
  others : List (String × V) := []
  deriving DecidableEq, Repr

/-- A row of `work_items`, as the handoffs read it. -/
structure MergeWorkItem (V : Type*) where
  id : ℕ
  status : WorkItemStatus
  mergeState : Option MergeState := none
  branchName : Option String := none
  metadata : WorkItemMetadata V := {}
  deriving DecidableEq, Repr

/-! ## 2. Normal forms -/

/-- `normalizeRepoPath` of `cross-wi-deps.js`: one leading `./` and the trailing slashes go, then
the spaces. -/
def normalizeCrossWiRepoPath (value : String) : String :=
  let slashes := value.toList.map fun c => if c = '\\' then '/' else c
  let relative := if ['.', '/'].isPrefixOf slashes then slashes.drop 2 else slashes
  trim (String.ofList (dropEndWhile (· = '/') relative))

section Normalize

variable {V : Type*}

/-- `normalizeCrossWiMergeDependency`; `now` is the clock's text. -/
def normalizeCrossWiMergeDependency (now : String) (dep : MergeDependency V) :
    Option (MergeDependency V) :=
  match dep.source with
  | none => none
  | some sourceId =>
    if 0 < sourceId then
      some { dep with
        path := normalizeCrossWiRepoPath dep.path
        sourceBranch := (dep.sourceBranch.map trim).filter (· ≠ "")
        createdAt := some (dep.createdAt.getD now)
        reviewed := dep.reviewed.map fun transfer =>
          { transfer with
            sourceTransferId := some (transfer.sourceTransferId.getD transfer.transferId) } }
    else none

/-- The records of a metadata, normalized. -/
def WorkItemMetadata.dependencies (now : String) (metadata : WorkItemMetadata V) :
    List (MergeDependency V) :=
  (metadata.mergeDependencies.getD []).filterMap (normalizeCrossWiMergeDependency now)

/-- `getWorkItemMergeDependencies`. -/
def getWorkItemMergeDependencies (now : String) (workItem : MergeWorkItem V) :
    List (MergeDependency V) :=
  workItem.metadata.dependencies now

/-- A normalized record has an id above zero for its source. -/
theorem source_of_normalize {now : String} {dep dep' : MergeDependency V}
    (h : normalizeCrossWiMergeDependency now dep = some dep') :
    dep'.source = dep.source ∧ ∃ sourceId : ℕ, dep.source = some (sourceId : ℤ) ∧ 0 < sourceId := by
  unfold normalizeCrossWiMergeDependency at h
  split at h
  case h_1 => cases h
  case h_2 sourceId hsource =>
    split at h
    case isTrue hpos =>
      obtain rfl := Option.some.inj h
      refine ⟨rfl, sourceId.toNat, ?_, by omega⟩
      rw [hsource]
      exact congrArg some (by omega)
    case isFalse => cases h

end Normalize

end PosseClient
