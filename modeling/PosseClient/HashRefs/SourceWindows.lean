/-
# Source windows of a stored payload

`sourceContinuationPayload` puts slices of a source file into one payload and says which of its rows are
which source lines; `sourceMetadataForPartialHashRefView` says this of a page of the payload; and
`displayRawSourcePage` numbers the rows of the page.

* The lines of a payload are counted by `sourceRows`, those of a page's source by
  `rawPayloadLineSpans`, and those a reader of a page counts by `textLines`.
* The hash of a window's content is a parameter (`SliceOrigin.sha256`).
-/
import PosseClient.Lib.JsText
import PosseClient.Lib.LineEnds
import PosseClient.Lib.UnitTrim
import PosseClient.HashRefs.RefPages

namespace PosseClient

open Json Rows

/-! ## 1. Lines -/

def isTerminator (u : ℕ) : Bool := u == 10 || u == 13

/-- `row.replace(/[\r\n]+$/, "")`. -/
def stripNewlines (row : Utf16) : Utf16 := row.rdropWhile isTerminator

/-- `text.replace(/\r\n?/g, "\n")`. -/
def normalizeNewlines : Utf16 → Utf16
  | [] => []
  | 13 :: 10 :: rest => 10 :: normalizeNewlines rest
  | 13 :: rest => 10 :: normalizeNewlines rest
  | u :: rest => u :: normalizeNewlines rest

/-- The lines a reader of a view counts. -/
def textLines (text : Utf16) : List Utf16 :=
  let lines := (normalizeNewlines text).splitOn 10
  if 1 < lines.length ∧ lines.getLast? = some [] then lines.dropLast else lines

/-- A line of a text, by its first unit and the one after its last, its terminator apart. -/
structure LineSpan where
  start : ℕ
  stop : ℕ
  deriving DecidableEq

/-- The loop of `rawPayloadLineSpans`, at `index`. -/
def lineSpansFrom : Utf16 → ℕ → ℕ → List LineSpan
  | [], start, index => [⟨start, index⟩]
  | 13 :: 10 :: rest, start, index => ⟨start, index⟩ :: lineSpansFrom rest (index + 2) (index + 2)
  | u :: rest, start, index =>
    if isTerminator u then ⟨start, index⟩ :: lineSpansFrom rest (index + 1) (index + 1)
    else lineSpansFrom rest start (index + 1)

/-- `rawPayloadLineSpans`. -/
def rawPayloadLineSpans (text : Utf16) : List LineSpan :=
  let spans := lineSpansFrom text 0 0
  if 1 < spans.length ∧ (spans.getLast?.map (·.start)) = some text.length then spans.dropLast
  else spans

/-! ## 2. Paths -/

/-- `canonicalEvidenceSourcePath`. -/
def canonicalEvidenceSourcePath (value : String) : Option String :=
  let cs := (trim value).toList.map fun c => if c = '\\' then '/' else c
  let cs := match cs with
    | '.' :: '/' :: rest => rest
    | cs => cs
  let normalized := collapseSlashes cs
  let hasDrive : Bool := match normalized with
    | d :: ':' :: _ => d.isAlpha
    | _ => false
  if normalized = [] ∨ normalized.head? = some '/' ∨ hasDrive then none
  else if (normalized.splitOn '/').any fun segment => segment = ['.'] || segment = ['.', '.'] then none
  else some (String.ofList normalized)

/-! ## 3. The payload -/

/-- A slice of a source file. -/
structure SourceWindow where
  content : Utf16
  startLine : ℕ
  endLine : ℕ

/-- What `sourceContinuationPayload` is told of the slices. -/
structure SliceOrigin where
  path : String
  repositoryIdentity : Option String
  sourceVersion : Option String
  selectorFingerprint : Option String
  sha256 : Utf16 → String

def rawSourceLinesEncoding : String := "raw_source_lines"

/-- A slice, by its source lines, its rows of the payload and its units of the payload. -/
structure MappedWindow where
  path : String
  repositoryIdentity : Option String
  sourceVersion : Option String
  sourceStartLine : ℕ
  sourceEndLine : ℕ
  materializedStartLine : ℕ
  materializedEndLine : ℕ
  payloadStart : ℕ
  payloadEnd : ℕ
  sourcePayloadEncoding : String
  contentSha256 : String
  selectorFingerprint : Option String

structure PayloadSoFar where
  payload : Utf16 := []
  row : ℕ := 1
  mapped : List MappedWindow := []

def maxSafeInteger : ℕ := 9007199254740991

/-- The payload, and the separator from `content` where it needs one. -/
def separated (payload content : Utf16) : Utf16 :=
  if payload ≠ [] ∧ (!isTerminated payload ||
      (payload.getLast? == some 13 && content.head? == some 10)) then payload ++ [10]
  else payload

/-- `value || null`. -/
def orNull (value : Option String) : Option String := value.filter fun s => s ≠ ""

/-- One turn of the loop of `sourceContinuationPayload`. -/
def addWindow (origin : SliceOrigin) (s : PayloadSoFar) (window : SourceWindow) : PayloadSoFar :=
  let before := separated s.payload window.content
  let rows := sourceRows window.content
  { payload := before ++ window.content
    row := s.row + rows.length
    mapped :=
      match canonicalEvidenceSourcePath origin.path with
      | some path =>
        if 0 < rows.length ∧ window.startLine ≤ maxSafeInteger ∧ 0 < window.startLine ∧
            window.endLine = window.startLine + rows.length - 1 then
          s.mapped ++
            [{ path
               repositoryIdentity := orNull origin.repositoryIdentity
               sourceVersion := orNull origin.sourceVersion
               sourceStartLine := window.startLine
               sourceEndLine := window.endLine
               materializedStartLine := s.row
               materializedEndLine := s.row + rows.length - 1
               payloadStart := before.length
               payloadEnd := before.length + window.content.length
               sourcePayloadEncoding := rawSourceLinesEncoding
               contentSha256 := origin.sha256 (crlfToLf window.content)
               selectorFingerprint := origin.selectorFingerprint }]
        else s.mapped
      | none => s.mapped }

/-- Two windows give one source line two texts. -/
def conflict (payload : Utf16) (a b : MappedWindow) : Bool :=
  let start := max a.sourceStartLine b.sourceStartLine
  let stop := min a.sourceEndLine b.sourceEndLine
  let aRows := sourceRows (slice payload a.payloadStart a.payloadEnd)
  let bRows := sourceRows (slice payload b.payloadStart b.payloadEnd)
  (List.range' start (stop + 1 - start)).any fun line =>
    stripNewlines (aRows.getD (line - a.sourceStartLine) []) !=
      stripNewlines (bRows.getD (line - b.sourceStartLine) [])

/-- `sourceContinuationPayload`: the payload, and its windows that conflict with no other. -/
def sourceContinuationPayload (origin : SliceOrigin) (windows : List SourceWindow) :
    Utf16 × List MappedWindow :=
  let s := windows.foldl (addWindow origin) {}
  let conflicting : ℕ → Bool := fun i =>
    (List.range s.mapped.length).any fun j => i != j &&
      match s.mapped[min i j]?, s.mapped[max i j]? with
      | some a, some b => conflict s.payload a b
      | _, _ => false
  (s.payload, (s.mapped.zipIdx.filter fun p => !conflicting p.2).map Prod.fst)

/-! ## 4. The windows of a page -/

/-- A stored source, as far as a page of it reads it. -/
structure SourceEntry where
  payload : Utf16
  isSource : Bool
  windows : List MappedWindow
  repositoryIdentity : Option String
  sourceVersion : Option String

/-- Lines of a page, and the source lines they are. -/
structure PageWindow where
  path : String
  sourceStartLine : ℕ
  sourceEndLine : ℕ
  materializedStartLine : ℕ
  materializedEndLine : ℕ
  repositoryIdentity : Option String
  sourceVersion : Option String
  sourcePayloadEncoding : String

/-- What the windows of a page agree on, if they all have it. -/
inductive Provenance
  | absent
  | agreed (value : String)
  | conflict
  deriving DecidableEq

structure PageMetadata where
  isSource : Bool := false
  windows : List PageWindow := []
  path : Option String := none
  citable : Bool := false
  repositoryIdentity : Provenance := .absent
  sourceVersion : Provenance := .absent
  sourcePayloadEncoding : Provenance := .absent

def isDigitUnit (u : ℕ) : Bool := 48 ≤ u && u ≤ 57

/-- The number in `/^\s*(\d+)\t/`. -/
def gutterNumber (line : Utf16) : Option ℕ :=
  let rest := line.dropWhile isSpaceUnit
  let digits := rest.takeWhile isDigitUnit
  if digits ≠ [] ∧ (rest.drop digits.length).head? = some 9 then
    some (digits.foldl (fun n u => 10 * n + (u - 48)) 0)
  else none

def rawLineEncodings : List String := ["delegated_excerpt", rawSourceLinesEncoding, "worktree_excerpt"]

/-- The index of the line a view begins in. -/
def anchorLineIndex (spans : List LineSpan) (viewStart : ℕ) : ℕ :=
  match spans.findIdx? fun span => span.start ≤ viewStart && viewStart ≤ span.stop with
  | some i => i
  | none =>
    -- the view begins on the line feed of a CRLF
    (spans.findIdx? fun span => decide (viewStart < span.start)).getD spans.length - 1

/-- A line of a page, added to the windows before. -/
def pushLine (windows : List PageWindow) (line : PageWindow) : List PageWindow :=
  match windows.getLast? with
  | some prior =>
    if prior.path = line.path ∧ prior.sourceEndLine + 1 = line.sourceStartLine ∧
        prior.materializedEndLine + 1 = line.materializedStartLine ∧
        prior.repositoryIdentity = line.repositoryIdentity ∧
        prior.sourceVersion = line.sourceVersion ∧
        prior.sourcePayloadEncoding = line.sourcePayloadEncoding then
      windows.dropLast ++
        [{ prior with
           sourceEndLine := line.sourceStartLine
           materializedEndLine := line.materializedStartLine }]
    else windows ++ [line]
  | none => windows ++ [line]

/-- One turn of the inner loop of `sourceMetadataForPartialHashRefView`. -/
def addLine (source : SourceEntry) (spans : List LineSpan) (viewStart viewEnd : ℕ) (raw : MappedWindow)
    (windows : List PageWindow) (line : ℕ) : List PageWindow :=
  match spans[line - 1]? with
  | none => windows
  | some span =>
    if span.start < viewStart ∨ viewEnd ≤ span.start ∨ viewEnd < span.stop then windows
    else
      let sourceLine := raw.sourceStartLine + line - raw.materializedStartLine
      let verified := rawLineEncodings.contains raw.sourcePayloadEncoding ||
        (units "[posse.worktree_evidence.v1 ").isPrefixOf source.payload ||
        gutterNumber (slice source.payload span.start span.stop) == some sourceLine
      if !verified then windows
      else
        let viewLine := line - 1 - anchorLineIndex spans viewStart + 1
        pushLine windows
          { path := trim raw.path
            sourceStartLine := sourceLine
            sourceEndLine := sourceLine
            materializedStartLine := viewLine
            materializedEndLine := viewLine
            repositoryIdentity := raw.repositoryIdentity.or source.repositoryIdentity
            sourceVersion := raw.sourceVersion.or source.sourceVersion
            sourcePayloadEncoding := raw.sourcePayloadEncoding }

/-- One turn of the outer loop. -/
def addRawWindow (source : SourceEntry) (spans : List LineSpan) (viewStart viewEnd : ℕ)
    (windows : List PageWindow) (raw : MappedWindow) : List PageWindow :=
  if trim raw.path = "" ∨ (raw.sourceEndLine : ℤ) - raw.sourceStartLine ≠
      (raw.materializedEndLine : ℤ) - raw.materializedStartLine then windows
  else
    (List.range' raw.materializedStartLine
      (raw.materializedEndLine + 1 - raw.materializedStartLine)).foldl
        (addLine source spans viewStart viewEnd raw) windows

/-- One of the `aggregateProvenance`. -/
def aggregateProvenance (values : List (Option String)) : Provenance :=
  let known := values.filterMap fun value => value.filter fun s => trim s ≠ ""
  match known.dedup with
  | [value] => if known.length = values.length then .agreed value else .absent
  | _ :: _ :: _ => .conflict
  | [] => .absent

/-- `sourceMetadataForPartialHashRefView`, of the page `text` at `viewStart`. -/
def sourceMetadataForPartialHashRefView (source : SourceEntry) (viewStart : ℕ) (text : Utf16) :
    PageMetadata :=
  if !source.isSource ∨ text = [] then {}
  else
    let windows := source.windows.foldl
      (addRawWindow source (rawPayloadLineSpans source.payload) viewStart
        (viewStart + text.length)) []
    if windows = [] then {}
    else
      { isSource := true
        windows
        path :=
          match (windows.map (·.path)).dedup with
          | [path] => some path
          | _ => none
        citable := true
        repositoryIdentity := aggregateProvenance (windows.map (·.repositoryIdentity))
        sourceVersion := aggregateProvenance (windows.map (·.sourceVersion))
        sourcePayloadEncoding :=
          aggregateProvenance (windows.map fun window => some window.sourcePayloadEncoding) }

/-! ## 5. The display of a page -/

/-- `normalizedEvidenceSourceWindow`. -/
def normalizedEvidenceSourceWindow (window : PageWindow) : Option PageWindow :=
  match canonicalEvidenceSourcePath window.path with
  | none => none
  | some path =>
    if window.sourceStartLine < 1 ∨ window.sourceEndLine < window.sourceStartLine then none
    else some { window with path }

/-- `numberedWindow`, of rows that are all source. -/
def numberedWindow (content : Utf16) (startLine endLine : ℕ) : Option Utf16 :=
  if content = [] ∨ maxSafeInteger < startLine ∨ startLine < 1 ∨ maxSafeInteger < endLine ∨
      endLine < startLine then none
  else
    let rows := sourceRows content
    if endLine - startLine + 1 ≠ rows.length then none
    else some (rows.zipIdx.flatMap fun p => natText (startLine + p.2) ++ 9 :: p.1)

/-- A block of rows of a page, numbered by the source lines of a path or as they are. -/
structure RowBlock where
  text : Utf16
  numbered : Option (String × ℕ × ℕ)

structure DisplaySoFar where
  nextRow : ℕ := 1
  blocks : List RowBlock := []

/-- `lift`. -/
def liftRows (rows : List Utf16) (s : DisplaySoFar) (start stop : ℕ) (window : Option PageWindow) :
    List RowBlock :=
  let content := ((rows.take stop).drop (start - 1)).flatten
  if content = [] then s.blocks
  else
    match window with
    | none => s.blocks ++ [⟨content, none⟩]
    | some window =>
      match numberedWindow content window.sourceStartLine window.sourceEndLine with
      | some text =>
        s.blocks ++ [⟨text, some (window.path, window.sourceStartLine, window.sourceEndLine)⟩]
      | none => s.blocks ++ [⟨content, none⟩]

/-- One turn of the loop of `displayRawSourcePage`. -/
def displayWindow (rows : List Utf16) (s : DisplaySoFar) (window : PageWindow) : DisplaySoFar :=
  let start := window.materializedStartLine
  let stop := window.materializedEndLine
  if start < s.nextRow ∨ rows.length < stop ∨
      (stop : ℤ) - start ≠ (window.sourceEndLine : ℤ) - window.sourceStartLine then s
  else
    let s := if s.nextRow < start then
      { s with blocks := liftRows rows s s.nextRow (start - 1) none } else s
    { nextRow := stop + 1, blocks := liftRows rows s start stop (some window) }

/-- `displayRawSourcePage`: the blocks of a page with its metadata, if one of them is numbered. -/
def displayRawSourcePage (text : Utf16) (metadata : PageMetadata) : Option (List RowBlock) :=
  if !metadata.isSource then none
  else
    let rows := sourceRows text
    let windows := (metadata.windows.filterMap normalizedEvidenceSourceWindow).mergeSort
      fun a b => decide (a.materializedStartLine ≤ b.materializedStartLine)
    let s := windows.foldl (displayWindow rows) {}
    let blocks := if s.nextRow ≤ rows.length then liftRows rows s s.nextRow rows.length none
      else s.blocks
    if blocks.any fun block => block.numbered.isSome then some blocks else none

end PosseClient
