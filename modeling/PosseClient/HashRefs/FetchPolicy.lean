/-
# Admission of a fetch

What a model call was shown of a stored ref, and which part of its payload a fetch may deliver:
the scopes on the ref, the recorded fetches, and the three answers of `admitHashRefFetch` (a
rejection, a search or a whole view, or a range of the payload with what is visible left out).

* `fetchClassForEntry`, `visibleScope`, `normalizeSearchSignature`: what is read off the ref and the
  arguments.
* `mergeRanges`, `scanCovered`, `nextCovered`: the ranges and the two scans over them.
* `admitHashRefFetch`: the admission.
-/
import PosseClient.HashRefs.RefPages
import PosseClient.Lib.JsText
import PosseClient.Lib.Spans

namespace PosseClient

open Spans

/-! ## 1. Numbers of a request -/

/-- The policy's own `positiveInt`: what `Number.parseInt` read, where it is not negative, else the fallback. -/
def policyPositiveInt (value : Option ℤ) (fallback : ℤ) (max : Option ℤ) : ℤ :=
  let resolved := (value.filter (0 ≤ ·)).getD fallback
  match max with
  | none => resolved
  | some max => min resolved max

/-! ## 2. Scopes -/

/-- How much of a payload a tool response showed.  Any other text counts as `hidden`. -/
inductive Visibility where
  | hidden
  | someVisible
  | full
  deriving DecidableEq, Repr

/-- `VISIBILITY_RANK`. -/
def Visibility.rank : Visibility → ℕ
  | hidden => 0
  | someVisible => 1
  | full => 2

/-- What a ref was issued as. -/
inductive IssuedAs where
  | evidence
  | traversal
  deriving DecidableEq, Repr

/-- A range as it was recorded: `none` for a bound that is missing or no number. -/
structure RawRange where
  start : Option ℤ
  stop : Option ℤ
  deriving DecidableEq, Repr

/-- One of `model_visible_scopes`. -/
structure VisibleScope where
  attemptId : Option ℤ
  agentCallId : Option ℤ
  visibility : Visibility
  issuedAs : Option IssuedAs
  ranges : List RawRange
  deriving DecidableEq, Repr

/-- Who fetches. -/
structure FetchContext where
  attemptId : Option ℤ
  agentCallId : Option ℤ
  deriving DecidableEq, Repr

/-- `Number(id) || null`. -/
def truthyId (id : Option ℤ) : Option ℤ := id.filter (· ≠ 0)

/-- `sameVisibleScope`. -/
def sameVisibleScope (scope : VisibleScope) (context : FetchContext) : Bool :=
  let sameId (id id' : Option ℤ) : Bool := id.isSome && id = id'
  let differ (id id' : Option ℤ) : Bool := id.isSome && id'.isSome && id ≠ id'
  let attemptId := truthyId context.attemptId
  let agentCallId := truthyId context.agentCallId
  if differ attemptId (truthyId scope.attemptId) then false
  else if agentCallId.isSome && (truthyId scope.agentCallId).isSome then
    agentCallId = truthyId scope.agentCallId
  else sameId attemptId (truthyId scope.attemptId) || sameId agentCallId (truthyId scope.agentCallId)

/-- What the matching scopes say together. -/
structure InitialScope where
  visibility : Visibility
  ranges : List RawRange
  issuedAs : Option IssuedAs
  deriving DecidableEq, Repr

/-- One matching scope more. -/
def InitialScope.add (resolved : InitialScope) (scope : VisibleScope) : InitialScope :=
  { visibility := if resolved.visibility.rank < scope.visibility.rank then scope.visibility
                  else resolved.visibility
    issuedAs := if 0 < scope.agentCallId.getD 0 ∧ scope.issuedAs.isSome then scope.issuedAs
                else resolved.issuedAs
    ranges := resolved.ranges ++ scope.ranges }

/-- The metadata of a stored ref that admission reads. -/
structure FetchMetadata where
  fetchClass : String
  surfacedBy : String
  boundedIngress : Bool
  modelVisibleScopes : List VisibleScope
  deriving DecidableEq, Repr

/-- A stored ref as admission reads it. -/
structure FetchEntry where
  materialized : Bool
  payloadText : String
  sizeChars : ℤ
  metadata : FetchMetadata
  deriving DecidableEq, Repr

/-- `visibleScope`. -/
def visibleScope (entry : FetchEntry) (context : FetchContext) : InitialScope :=
  (entry.metadata.modelVisibleScopes.filter (sameVisibleScope · context)).foldl InitialScope.add
    { visibility := .hidden, ranges := [], issuedAs := none }

/-- `fetchClassForEntry`. -/
def fetchClassForEntry (entry : FetchEntry) : String :=
  let explicit := trim entry.metadata.fetchClass
  if explicit ≠ "" then explicit
  else if entry.metadata.surfacedBy = "survey_snapshot_pager" then "survey_page"
  else if entry.metadata.surfacedBy = "tree_scope_rank_compactor" then "cursor_page"
  else if entry.metadata.surfacedBy = "result_ref_paging" then "result_tail"
  else if entry.metadata.surfacedBy = "requested_region_continuation" then "result_continuation"
  else if entry.metadata.boundedIngress then "bounded_result"
  else "stored_ref"

/-! ## 3. Arguments and history -/

/-- The mode of a search. -/
inductive SearchMode where
  | auto
  | literal
  | regex
  deriving DecidableEq, Repr

/-- The arguments of a fetch: the numbers as `Number.parseInt` reads them. -/
structure AdmissionArgs where
  search : String
  searchMode : Option String
  offset : Option ℤ
  limit : Option ℤ
  deriving DecidableEq, Repr

/-- What identifies one page of one search. -/
structure SearchSignature where
  search : String
  requestedSearchMode : SearchMode
  offset : ℤ
  limit : ℤ
  deriving DecidableEq, Repr

/-- The limit a request asks for. -/
def AdmissionArgs.requestedLimit (args : AdmissionArgs) : ℤ :=
  policyPositiveInt args.limit fetchRefDefaultLimitChars (some fetchRefMaxLimitChars)

/-- `normalizeSearchSignature`; `toLowerCase` is the language's. -/
def normalizeSearchSignature (toLowerCase : String → String) (args : AdmissionArgs) :
    Option SearchSignature :=
  let search := trim args.search
  if search = "" then none
  else
    let requestedMode := toLowerCase (trim (args.searchMode.getD "auto"))
    some { search := toLowerCase search
           requestedSearchMode :=
             if requestedMode = "literal" then .literal
             else if requestedMode = "regex" then .regex
             else .auto
           offset := policyPositiveInt args.offset 0 none
           limit := args.requestedLimit }

/-- What a recorded fetch says to a later one. -/
structure FetchObservation where
  rejected : Bool
  classification : String
  empty : Bool
  searchError : Bool
  searchSignature : Option SearchSignature
  deliveredRangeStart : Option ℤ
  deliveredRangeEnd : Option ℤ
  deriving DecidableEq, Repr

/-! ## 4. Ranges -/

/-- `normalizeRange`: a range clamped to the payload, if anything is left of it. -/
def normalizeRange (fullSize : ℤ) (range : RawRange) : Option (Span ℤ) :=
  let start := max 0 (min fullSize (range.start.getD 0))
  let stop := max start (min fullSize (range.stop.getD 0))
  if start < stop then some ⟨start, stop⟩ else none

/-- The order the ranges are sorted in. -/
def rangeLe (a b : Span ℤ) : Bool := a.start < b.start || (a.start = b.start && a.stop ≤ b.stop)

/-- `mergeRanges`. -/
def mergeRanges (ranges : List RawRange) (fullSize : ℤ) : List (Span ℤ) :=
  mergeSorted ((ranges.filterMap (normalizeRange fullSize)).mergeSort rangeLe)

/-- The first scan: where the request starts once covered ranges are skipped, and where the next
covered range starts, as far as this scan sees it. -/
def scanCovered : List (Span ℤ) → ℤ → ℤ → ℤ × ℤ
  | [], start, nextCoveredStart => (start, nextCoveredStart)
  | range :: coverage, start, nextCoveredStart =>
    let start := if range.start ≤ start ∧ start < range.stop then range.stop else start
    if start < range.start then (start, range.start)
    else scanCovered coverage start nextCoveredStart

/-- The second scan. -/
def nextCovered : List (Span ℤ) → ℤ → ℤ → ℤ
  | [], _, nextCoveredStart => nextCoveredStart
  | range :: coverage, start, nextCoveredStart =>
    if start < range.start then min nextCoveredStart range.start
    else nextCovered coverage start nextCoveredStart

/-! ## 5. Admission -/

/-- A fetch that is refused. -/
structure FetchRejection where
  code : String
  classification : String
  message : String
  retryable : Bool := false
  fetchClass : String
  /-- `none` for a ref that is not stored. -/
  initialVisibility : Option Visibility
  issuedAs : Option IssuedAs := none
  searchSignature : Option SearchSignature := none
  deriving DecidableEq, Repr

/-- What an admission says about the range it lets through. -/
structure FetchRange where
  requestedOffset : ℤ
  requestedLimit : ℤ
  effectiveOffset : ℤ
  effectiveLimit : ℤ
  skippedVisibleChars : ℤ
  issuedAs : Option IssuedAs
  deriving DecidableEq, Repr

/-- A fetch that is let through. -/
structure FetchAllowance where
  classification : String
  args : AdmissionArgs
  fetchClass : Option String := none
  initialVisibility : Option Visibility := none
  searchSignature : Option SearchSignature := none
  range : Option FetchRange := none
  deriving DecidableEq, Repr

/-- `traversalRefNotIssuedRejection`. -/
def traversalRefNotIssuedRejection (entry : Option FetchEntry) (context : FetchContext) :
    FetchRejection :=
  let issuedAs := (entry.map (visibleScope · context)).bind (·.issuedAs)
  { code := "traversal_ref_not_issued"
    classification := "not_issued_for_traversal"
    message :=
      if issuedAs = some .evidence then
        "This ref is citation-only and cannot be fetched by this agent. Read the cited path or symbol with source tools; use only an explicit traversal_ref as a fetch capability."
      else
        "This ref is unknown or was not issued to this agent, so it cannot be fetched. Use only an explicit traversal_ref from this agent's tool results as a fetch capability."
    fetchClass := (entry.map fetchClassForEntry).getD "missing"
    initialVisibility := (entry.map (visibleScope · context)).map (·.visibility)
    issuedAs := issuedAs }

/-- The rejection of a range that is visible already. -/
def duplicateVisible (fetchClass : String) (visibility : Visibility) : FetchRejection :=
  { code := "fetch_ref_duplicate_visible"
    classification := "duplicate_visible"
    message := "The requested stored-ref content is already visible in this agent's ledger. Continue without fetching it again."
    fetchClass := fetchClass
    initialVisibility := some visibility }

/-- The size of the payload. -/
def FetchEntry.fullSize (entry : FetchEntry) : ℤ :=
  max 0 (if utf16Length entry.payloadText ≠ 0 then utf16Length entry.payloadText
         else entry.sizeChars)

/-- The ranges a fetch has to leave out. -/
def fetchCoverage (entry : FetchEntry) (history : List FetchObservation) (context : FetchContext) :
    List (Span ℤ) :=
  let initial := visibleScope entry context
  let deliveredRanges := (history.filter (!·.rejected)).map fun item =>
    (⟨item.deliveredRangeStart, item.deliveredRangeEnd⟩ : RawRange)
  mergeRanges ((if initial.visibility = .someVisible then initial.ranges else []) ++ deliveredRanges)
    entry.fullSize

/-- The search branch of `admitHashRefFetch`. -/
def admitSearch (entry : FetchEntry) (args : AdmissionArgs) (history : List FetchObservation)
    (context : FetchContext) (enforce : Bool) (signature : SearchSignature) :
    Except FetchRejection FetchAllowance :=
  let fetchClass := fetchClassForEntry entry
  let visibility := (visibleScope entry context).visibility
  let priorEmptySearch := history.any fun item =>
    item.empty && !item.searchError &&
      item.searchSignature.any fun prior => prior.search = signature.search ∧
        prior.requestedSearchMode = signature.requestedSearchMode
  let priorSearch := history.any (·.searchSignature = some signature)
  if enforce && priorEmptySearch then
    .error { code := "fetch_ref_empty_search_repeat"
             classification := "empty_search_repeat"
             message := "This stored-ref search already returned no matches. Change the query materially or continue without retrying it."
             fetchClass := fetchClass, initialVisibility := some visibility
             searchSignature := some signature }
  else if enforce && priorSearch then
    .error { code := "fetch_ref_duplicate_search"
             classification := "duplicate_search"
             message := "This stored-ref search page was already delivered. Follow its next offset, change the query materially, or continue without retrying it."
             fetchClass := fetchClass, initialVisibility := some visibility
             searchSignature := some signature }
  else
    .ok { classification := if fetchClass = "survey_page" then "survey_search" else "stored_search"
          args := args, fetchClass := some fetchClass, initialVisibility := some visibility
          searchSignature := some signature }

/-- The classification of an admitted range. -/
def rangeClassification (fetchClass : String) : String :=
  if fetchClass = "result_tail" then "tail_traversal"
  else if fetchClass = "result_continuation" then "continuation_traversal"
  else if fetchClass = "survey_page" ∨ fetchClass = "cursor_page" then "cursor_traversal"
  else if fetchClass = "bounded_result" then "bounded_continuation"
  else "stored_ref"

/-- The range branch of `admitHashRefFetch`. -/
def admitRange (entry : FetchEntry) (args : AdmissionArgs) (history : List FetchObservation)
    (context : FetchContext) (enforce : Bool) : Except FetchRejection FetchAllowance :=
  let fetchClass := fetchClassForEntry entry
  let initial := visibleScope entry context
  let fullSize := entry.fullSize
  let coverage := fetchCoverage entry history context
  let requestedOffset := policyPositiveInt args.offset 0 none
  let requestedLimit := args.requestedLimit
  let scan := scanCovered coverage (min requestedOffset fullSize) fullSize
  let start := scan.1
  let nextCoveredStart := nextCovered coverage start scan.2
  let stop := min fullSize (min (start + requestedLimit) nextCoveredStart)
  if enforce && decide (fullSize ≤ start) then .error (duplicateVisible fetchClass initial.visibility)
  else if enforce && decide (stop ≤ start) then
    .error (duplicateVisible fetchClass initial.visibility)
  else
    .ok { classification := rangeClassification fetchClass
          args := if enforce then { args with offset := some start, limit := some (max 1 (stop - start)) }
                  else args
          fetchClass := some fetchClass
          initialVisibility := some initial.visibility
          range := some
            { requestedOffset := requestedOffset
              requestedLimit := requestedLimit
              effectiveOffset := if enforce then start else requestedOffset
              effectiveLimit := if enforce then max 1 (stop - start) else requestedLimit
              skippedVisibleChars := if enforce then max 0 (start - requestedOffset) else 0
              issuedAs := initial.issuedAs } }

/-- `admitHashRefFetch`. -/
def admitHashRefFetch (toLowerCase : String → String) (entry : Option FetchEntry) (args : AdmissionArgs)
    (history : List FetchObservation) (context : FetchContext) (enforce requireTraversal : Bool) :
    Except FetchRejection FetchAllowance :=
  match entry with
  | none =>
    if requireTraversal then .error (traversalRefNotIssuedRejection none context)
    else .ok { classification := "fetch_miss", args := args }
  | some entry =>
    let fetchClass := fetchClassForEntry entry
    let initial := visibleScope entry context
    if requireTraversal ∧ initial.issuedAs ≠ some .traversal then
      .error (traversalRefNotIssuedRejection (some entry) context)
    else if enforce ∧ initial.visibility = .full ∧ fetchClass ≠ "result_continuation" then
      .error { code := "fetch_ref_duplicate_visible"
               classification := "duplicate_visible"
               message := "This ref's complete payload was already present in this agent's tool response. Use the visible evidence; do not fetch the ref."
               fetchClass := fetchClass, initialVisibility := some initial.visibility
               issuedAs := initial.issuedAs }
    else
      match normalizeSearchSignature toLowerCase args with
      | some signature => admitSearch entry args history context enforce signature
      | none =>
        if !entry.materialized then
          if enforce ∧ history.any (·.classification = "descriptor_unavailable") then
            .error { code := "fetch_ref_unavailable_repeat"
                     classification := "unavailable_repeat"
                     message := "This ref was already reported as unavailable in the current runtime. Do not retry it."
                     fetchClass := fetchClass, initialVisibility := some initial.visibility }
          else
            .ok { classification := "descriptor_unavailable", args := args
                  fetchClass := some fetchClass, initialVisibility := some initial.visibility }
        else admitRange entry args history context enforce

end PosseClient
