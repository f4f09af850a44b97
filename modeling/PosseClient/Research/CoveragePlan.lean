/-
# The source-coverage plan

Which lines of a requested interval an agent call was shown already: the coverage rows of the call,
the fragments they and the ranges of the running response leave of the interval, and the plan with
its covered and uncovered ranges.

* `CoverageOwner.rows`, `CoverageOwner.freshSource`: what the owner reads.
* `CoverageOwner.fragments`: the clipped fragments, in the order they are merged.
* `mergeFragments`, `uncoveredFrom`: the two loops.
* `CoverageOwner.resolvedIntervalPlan`: the plan.
-/
import PosseClient.HashRefs.Minter

namespace PosseClient

/-! ## 1. What the owner reads -/

/-- The detail of a coverage row.  A line that is missing or no number is `none`. -/
structure CoverageDetail where
  agentCallId : Option ℤ
  deliveryState : String
  suppressive : Option Bool
  repositoryIdentity : String
  sourceVersion : String
  repoRelPath : String
  startLine : Option ℤ
  endLine : Option ℤ
  evidenceRef : String
  deriving DecidableEq, Repr

/-- A row of `job_observations`. -/
structure CoverageRow where
  id : ℤ
  workItemId : Option ℤ
  jobId : Option ℤ
  attemptId : Option ℤ
  observationType : String
  detail : CoverageDetail
  deriving DecidableEq, Repr

/-- `COVERAGE_OBSERVATION`. -/
def coverageObservation : String := "source.coverage"

/-- A range of lines that the running response shows already. -/
structure LineBounds where
  startLine : Option ℤ
  endLine : Option ℤ
  deriving DecidableEq, Repr

/-- A `SourceCoverageOwner` with the language and the platform it runs on: `resolve` is
`path.resolve(cwd, ·)`, `readFile` reads a file's text with its line ends normalized, and `sha256`
is the digest of a text.  An identity that is absent is `none`. -/
structure CoverageOwner where
  cwd : String
  workItemId : Option ℤ
  jobId : Option ℤ
  attemptId : Option ℤ
  agentCallId : Option ℤ
  repositoryIdentity : String
  observations : List CoverageRow
  resolve : String → String
  readFile : String → Option String
  sha256 : String → String

/-- `normalizePath`. -/
def normalizePath (value : String) : String :=
  let slashes := value.toList.map fun c => if c = '\\' then '/' else c
  match slashes with
  | '.' :: '/' :: rest => String.ofList rest
  | _ => String.ofList slashes

/-- `isReusableCoverageState`. -/
def isReusableCoverageState (value : String) : Bool := value = "delivered" || value = "reused"

/-- The text of a file as it stands, with its version. -/
structure FreshSource where
  relative : String
  source : String
  sourceVersion : String
  deriving DecidableEq, Repr

/-- `#freshSource`. -/
def CoverageOwner.freshSource (owner : CoverageOwner) (repoRelativePath : String) :
    Option FreshSource :=
  let relative := normalizePath repoRelativePath
  let absolute := owner.resolve relative
  if absolute ≠ owner.cwd ∧ ¬ (owner.cwd.toList ++ ['/']).isPrefixOf absolute.toList then none
  else
    (owner.readFile absolute).map fun source =>
      { relative := relative, source := source, sourceVersion := owner.sha256 source }

/-- `#rows`: the coverage rows of this agent call, the newest first. -/
def CoverageOwner.rows (owner : CoverageOwner) : List CoverageRow :=
  if owner.jobId.isNone ∨ owner.attemptId.isNone ∨ owner.workItemId.isNone ∨
      owner.agentCallId.isNone then []
  else
    (owner.observations.filter fun row =>
      decide (row.workItemId = owner.workItemId ∧ row.jobId = owner.jobId ∧
        row.attemptId = owner.attemptId ∧ row.observationType = coverageObservation ∧
        row.detail.agentCallId = owner.agentCallId)).mergeSort fun a b => decide (b.id ≤ a.id)

/-! ## 2. Fragments -/

/-- A ref as a response shows it. -/
structure EvidenceRef where
  ref : String
  deriving DecidableEq, Repr

/-- `evidenceRefSurface`. -/
def evidenceRefSurface (ref : String) : Option EvidenceRef :=
  let normalized := normalizeHashRefAlias ref
  if normalized = "" then none else some ⟨normalized⟩

/-- A part of the requested interval that was shown. -/
structure Fragment where
  startLine : ℤ
  endLine : ℤ
  evidenceRef : Option EvidenceRef
  deriving DecidableEq, Repr

/-- What a range with these bounds leaves of the requested interval. -/
def clipLines (requestedStart requestedEnd : ℤ) (startLine endLine : Option ℤ) :
    Option (ℤ × ℤ) :=
  match startLine, endLine with
  | some startLine, some endLine =>
    let coveredStart := max requestedStart startLine
    let coveredEnd := min requestedEnd endLine
    if coveredEnd < coveredStart then none else some (coveredStart, coveredEnd)
  | _, _ => none

/-- The row may be subtracted from a read of the file. -/
def CoverageOwner.subtracts (owner : CoverageOwner) (fresh : FreshSource) (relative : String)
    (row : CoverageRow) : Bool :=
  decide (row.jobId = owner.jobId ∧ row.attemptId = owner.attemptId) &&
    isReusableCoverageState row.detail.deliveryState &&
    decide (row.detail.suppressive ≠ some false) &&
    decide (row.detail.repositoryIdentity = owner.repositoryIdentity) &&
    decide (row.detail.sourceVersion = fresh.sourceVersion) &&
    decide (normalizePath row.detail.repoRelPath = relative)

/-- The fragment of a row. -/
def rowFragment (requestedStart requestedEnd : ℤ) (row : CoverageRow) : Option Fragment :=
  (clipLines requestedStart requestedEnd row.detail.startLine row.detail.endLine).map fun lines =>
    { startLine := lines.1, endLine := lines.2
      evidenceRef :=
        if row.detail.evidenceRef = "" then none else evidenceRefSurface row.detail.evidenceRef }

/-- The fragment of a range of the running response. -/
def rangeFragment (requestedStart requestedEnd : ℤ) (range : LineBounds) : Option Fragment :=
  (clipLines requestedStart requestedEnd range.startLine range.endLine).map fun lines =>
    { startLine := lines.1, endLine := lines.2, evidenceRef := none }

/-- The order fragments are sorted in. -/
def fragmentLe (left right : Fragment) : Bool :=
  left.startLine < right.startLine ||
    (left.startLine = right.startLine && left.endLine ≤ right.endLine)

/-- The fragments, sorted. -/
def CoverageOwner.fragments (owner : CoverageOwner) (fresh : FreshSource) (relative : String)
    (requestedStart requestedEnd : ℤ) (additionalCoveredRanges : List LineBounds) :
    List Fragment :=
  ((owner.rows.filter (owner.subtracts fresh relative)).filterMap
      (rowFragment requestedStart requestedEnd) ++
    additionalCoveredRanges.filterMap (rangeFragment requestedStart requestedEnd)).mergeSort
      fragmentLe

/-! ## 3. The loops -/

/-- A covered range, with the refs of its rows. -/
structure CoveredRange where
  startLine : ℤ
  endLine : ℤ
  evidenceRefs : List EvidenceRef
  deriving DecidableEq, Repr

/-- An uncovered range. -/
structure LineRange where
  startLine : ℤ
  endLine : ℤ
  deriving DecidableEq, Repr

/-- One fragment more: `coveredRanges` with the last range first. -/
def mergeFragment (coveredRanges : List CoveredRange) (fragment : Fragment) : List CoveredRange :=
  match coveredRanges with
  | [] => [⟨fragment.startLine, fragment.endLine, fragment.evidenceRef.toList⟩]
  | previous :: earlier =>
    if fragment.startLine ≤ previous.endLine + 1 then
      { previous with
        endLine := max previous.endLine fragment.endLine
        evidenceRefs :=
          match fragment.evidenceRef with
          | none => previous.evidenceRefs
          | some ref =>
            if previous.evidenceRefs.any (·.ref = ref.ref) then previous.evidenceRefs
            else previous.evidenceRefs ++ [ref] } :: earlier
    else ⟨fragment.startLine, fragment.endLine, fragment.evidenceRef.toList⟩ :: previous :: earlier

/-- The covered ranges. -/
def mergeFragments (fragments : List Fragment) : List CoveredRange :=
  (fragments.foldl mergeFragment []).reverse

/-- The uncovered ranges, from `cursor` on. -/
def uncoveredFrom (requestedEnd : ℤ) : ℤ → List CoveredRange → List LineRange
  | cursor, [] => if cursor ≤ requestedEnd then [⟨cursor, requestedEnd⟩] else []
  | cursor, range :: coveredRanges =>
    let rest := uncoveredFrom requestedEnd (max cursor (range.endLine + 1)) coveredRanges
    if cursor < range.startLine then ⟨cursor, range.startLine - 1⟩ :: rest else rest

/-! ## 4. The plan -/

/-- `coverageOrigin`. -/
structure CoverageOrigin where
  scope : String
  jobId : Option ℤ
  attemptId : Option ℤ
  deriving DecidableEq, Repr

/-- What the plan returns in place of a read that it covers. -/
structure CoveredResult where
  status : String
  executed : Bool
  coverageScope : String
  coverageOrigin : CoverageOrigin
  repoRelPath : String
  startLine : ℤ
  endLine : ℤ
  coverageRanges : List CoveredRange
  deriving DecidableEq, Repr

/-- A plan for an interval. -/
structure IntervalPlan where
  covered : Bool
  inPart : Bool
  reason : String
  repoRelativePath : String
  requestedStartLine : ℤ
  requestedEndLine : ℤ
  coveredLines : ℤ
  coveredRanges : List CoveredRange
  uncoveredRanges : List LineRange
  fresh : FreshSource
  result : Option CoveredResult
  deriving DecidableEq, Repr

/-- `#resolvedIntervalPlan`: the plan, or why there is none. -/
def CoverageOwner.resolvedIntervalPlan (owner : CoverageOwner) (repoRelativePath : String)
    (startLine endLine : Option ℤ) (additionalCoveredRanges : List LineBounds) :
    Except String IntervalPlan :=
  let relative := normalizePath repoRelativePath
  match owner.attemptId, startLine, endLine with
  | some _, some requestedStart, some requestedEnd =>
    if relative = "" ∨ requestedStart < 1 ∨ requestedEnd < requestedStart then
      .error "invalid_interval"
    else
      match owner.freshSource relative with
      | none => .error "source_unavailable"
      | some fresh =>
        let coveredRanges := mergeFragments (owner.fragments fresh relative requestedStart
          requestedEnd additionalCoveredRanges)
        let uncoveredRanges := uncoveredFrom requestedEnd requestedStart coveredRanges
        let coveredLines : ℤ := coveredRanges.foldl
          (fun total range => total + range.endLine - range.startLine + 1) 0
        let covered := decide (0 < coveredLines) && uncoveredRanges.isEmpty
        let coverageOrigin : CoverageOrigin :=
          { scope := "current_attempt", jobId := owner.jobId, attemptId := owner.attemptId }
        .ok { covered := covered
              inPart := decide (0 < coveredLines) && !uncoveredRanges.isEmpty
              reason :=
                if 0 < coveredLines then
                  if uncoveredRanges.isEmpty then "covered_interval_union"
                  else "overlapping_interval"
                else "uncovered"
              repoRelativePath := relative
              requestedStartLine := requestedStart
              requestedEndLine := requestedEnd
              coveredLines := coveredLines
              coveredRanges := coveredRanges
              uncoveredRanges := uncoveredRanges
              fresh := fresh
              result :=
                if covered then
                  some { status := "covered", executed := false, coverageScope := "current_attempt"
                         coverageOrigin := coverageOrigin, repoRelPath := relative
                         startLine := requestedStart, endLine := requestedEnd
                         coverageRanges := coveredRanges }
                else none }
  | _, _, _ => .error "invalid_interval"

end PosseClient
