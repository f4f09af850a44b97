/-
# Pages of a stored payload

What one `fetch_ref` delivers of a stored payload, and where its cursor goes on: `materializeHashRefView`
without a search, `fetchResultText`, `shrinkFetchPayloadToSerializedChars`,
`alignSourceContinuationPage`, `nextHashRefViewSelector`, and the line ranges of `fetchHashRefTool`.

* A rendered text is the view it is the JSON of; it is written and read between any two of the steps.
* The members of a rendered text before `text` (`head`) and what `sourceLineDisplay` makes of a page
  (`lifted`) are data of the entry.
-/
import PosseClient.Lib.Json
import PosseClient.Lib.Rows

namespace PosseClient

open Json Rows

/-! ## 1. Rows of source -/

/-- A row ends after a line feed, and after a carriage return that no line feed follows. -/
def endsSourceRow (u : ℕ) (rest : Utf16) : Bool := u == 10 || (u == 13 && rest.head? != some 10)

/-- `sourceRows`. -/
def sourceRows (text : Utf16) : List Utf16 := rowsBy endsSourceRow text

/-- `/[\r\n]$/`. -/
def isTerminated (row : Utf16) : Bool := row.getLast? == some 10 || row.getLast? == some 13

/-- The length of the rows before the first that is not terminated. -/
def completeLength : List Utf16 → ℕ
  | [] => 0
  | row :: rows => if isTerminated row then row.length + completeLength rows else 0

/-! ## 2. A view of a payload -/

/-- A materialized entry, as far as a fetch reads it. -/
structure RefEntry where
  payload : Utf16
  /-- Its `source_payload_encoding` is `raw_source_lines`. -/
  isRawSource : Bool
  head : List (Utf16 × Value)
  /-- The `requestedWindows` text and the blocks `sourceLineDisplay` makes of a page, if any. -/
  lifted : ℕ → Utf16 → Option (Utf16 × List Utf16)

structure RefPage where
  offset : ℕ
  limit : ℕ
  returnedChars : ℕ
  endOffset : Option ℕ
  nextOffset : Option ℕ
  hasMore : Bool
  fullSizeChars : ℕ
  /-- There if and only if `serialized_shrunk` is set. -/
  originalReturnedChars : Option ℕ := none
  deriving DecidableEq

structure RefView where
  text : Utf16
  page : RefPage
  deriving DecidableEq

/-- What a fetch asks for. -/
structure FetchArgs where
  offset : ℕ
  endOffset : Option ℕ
  limit : ℕ
  deriving DecidableEq

def fetchRefDefaultLimitChars : ℕ := 8000

def fetchRefMaxLimitChars : ℕ := 60000

/-- `positiveInt`. -/
def positiveInt (value fallback : ℕ) (max : Option ℕ) : ℕ :=
  let parsed := if 0 < value then value else fallback
  match max with
  | none => parsed
  | some max => min parsed max

/-- `text.slice(from, to)`. -/
def slice (text : Utf16) (start stop : ℕ) : Utf16 := (text.drop start).take (stop - start)

def FetchArgs.limitChars (args : FetchArgs) : ℕ :=
  positiveInt args.limit fetchRefDefaultLimitChars (some fetchRefMaxLimitChars)

/-- The `endOffset` of `materializeHashRefView`. -/
def FetchArgs.stop (args : FetchArgs) (text : Utf16) : ℕ :=
  match args.endOffset with
  | none => text.length
  | some e => max args.offset (min text.length e)

/-- `materializeHashRefView`, with the page's size as `fetchResultText` adds it. -/
def materializeHashRefView (text : Utf16) (args : FetchArgs) : RefView :=
  let limit := args.limitChars
  let offset := positiveInt args.offset 0 none
  let endOffset := args.stop text
  let page := slice text offset (min endOffset (offset + limit))
  { text := page
    page :=
      { offset, limit
        returnedChars := page.length
        endOffset := args.endOffset.map fun _ => endOffset
        nextOffset := if offset + page.length < endOffset then some (offset + page.length) else none
        hasMore := decide (offset + page.length < endOffset)
        fullSizeChars := text.length } }

/-! ## 3. The serialized text -/

def RefPage.members (page : RefPage) : List (Utf16 × Value) :=
  [(units "mode", .string (units "offset")), (units "offset", ofNat page.offset),
    (units "limit", ofNat page.limit), (units "returned_chars", ofNat page.returnedChars)] ++
  (page.endOffset.toList.map fun e => (units "end_offset", ofNat e)) ++
  [(units "next_offset", page.nextOffset.elim .null ofNat), (units "has_more", .bool page.hasMore),
    (units "full_size_chars", ofNat page.fullSizeChars)] ++
  page.originalReturnedChars.toList.flatMap fun n =>
    [(units "original_returned_chars", ofNat n), (units "serialized_shrunk", .bool true)]

/-- The rendered text. -/
def RefEntry.rendered (entry : RefEntry) (view : RefView) : Utf16 :=
  stringify (.object (entry.head ++
    [(units "text", .string view.text), (units "page", .object view.page.members)]))

/-- The header `sourceLineDisplay` makes of a page. -/
def RefEntry.displayHeader (entry : RefEntry) (page : RefPage) (selections : Utf16) (blocks : ℕ) :
    Utf16 :=
  stringify (.object (entry.head ++
    [(units "text", .string selections), (units "page", .object page.members),
      (units "evidence_ref", .object [(units "line_semantics", .string (units "source"))]),
      (units "source_blocks_follow", ofNat blocks)]))

/-- A block of the display. -/
def displayBlock (text : Utf16) : Value :=
  .object [(units "type", .string (units "text")), (units "text", .string text)]

/-- The length of the display of a page. -/
def RefEntry.displayChars (entry : RefEntry) (view : RefView) : ℕ :=
  match entry.lifted view.page.offset view.text with
  | some (selections, blocks) =>
    (stringify (.object [(units "content", .array (displayBlock
      (entry.displayHeader view.page selections blocks.length) :: blocks.map displayBlock))])).length
  | none => 0

/-! ## 4. Whole rows -/

/-- A row of the payload begins at the offset. -/
def beginsLine (full : Utf16) (offset : ℕ) : Bool :=
  offset == 0 || full[offset - 1]? == some 10 ||
    (full[offset - 1]? == some 13 && full[offset]? != some 10)

/-- A surrogate pair or a CRLF is cut at `stop`. -/
def cutsPair (full : Utf16) (stop : ℕ) : Bool :=
  ((full[stop - 1]?.any isLead) && full[stop]?.any isTrail) ||
    (full[stop - 1]? == some 13 && full[stop]? == some 10)

/-- The length `alignSourceContinuationPage` gives a page whose row begins with it. -/
def alignedLength (full : Utf16) (view : RefView) : ℕ :=
  let length := if 1 < view.text.length ∧ cutsPair full (view.page.offset + view.text.length) then
    view.text.length - 1 else view.text.length
  let complete := completeLength (sourceRows (view.text.take length))
  if 0 < complete then complete else length

/-- `alignSourceContinuationPage`. -/
def alignSourceContinuationPage (entry : RefEntry) (view : RefView) : RefView :=
  if !entry.isRawSource || view.text.isEmpty then view
  else if entry.payload.length ≤ view.page.offset + view.text.length then view
  else if !beginsLine entry.payload view.page.offset then view
  else
    let length := alignedLength entry.payload view
    if length = view.text.length then view
    else
      { text := view.text.take length
        page :=
          { view.page with
            returnedChars := length
            limit := length
            nextOffset := some (view.page.offset + length)
            hasMore := true } }

/-! ## 5. The serialized cap -/

/-- What the cap is compared with. -/
def RefEntry.measure (entry : RefEntry) (view : RefView) : ℕ :=
  if entry.isRawSource then
    max (entry.rendered view).length (entry.displayChars (alignSourceContinuationPage entry view))
  else (entry.rendered view).length

/-- `render`: the view with its first `length` characters. -/
def RefView.shrunk (view : RefView) (length : ℕ) : RefView :=
  let text := view.text.take (max 1 length)
  let full := max (view.page.offset + view.text.length) view.page.fullSizeChars
  { text
    page :=
      { view.page with
        returnedChars := text.length
        limit := text.length
        originalReturnedChars := some
          (if view.page.returnedChars = 0 then view.text.length else view.page.returnedChars)
        nextOffset :=
          if view.page.offset + text.length < full then some (view.page.offset + text.length) else none
        hasMore := decide (view.page.offset + text.length < full) } }

/-- The loop of `shrinkFetchPayloadToSerializedChars`. -/
def searchLongest (fits : ℕ → Bool) (low high : ℤ) (best : Option ℕ) : Option ℕ :=
  if low ≤ high then
    let middle := (low + high) / 2
    if fits middle.toNat then searchLongest fits (middle + 1) high (some middle.toNat)
    else searchLongest fits low (middle - 1) best
  else best
termination_by (high + 1 - low).toNat
decreasing_by all_goals omega

/-- `shrinkFetchPayloadToSerializedChars`; without a cap there is no shrinking. -/
def shrinkFetchPayload (entry : RefEntry) (cap : Option ℕ) (view : RefView) : RefView :=
  match cap with
  | none => view
  | some cap =>
    if entry.measure view ≤ cap then view
    else if view.text.isEmpty then view
    else
      match searchLongest (fun n => decide (entry.measure (view.shrunk n) ≤ cap)) 1 view.text.length
          none with
      | some n => view.shrunk n
      | none => view

/-! ## 6. The chain of cursors -/

/-- The page a fetch delivers. -/
def RefEntry.deliver (entry : RefEntry) (cap : Option ℕ) (args : FetchArgs) : RefView :=
  alignSourceContinuationPage entry
    (shrinkFetchPayload entry cap (materializeHashRefView entry.payload args))

/-- `nextHashRefViewSelector`, with the limit of the next fetch: the selector's, where it inherits one,
else the caller's. -/
def nextHashRefViewSelector (view : RefView) (inheritLimit : Bool) (limit : ℕ) : Option FetchArgs :=
  if view.page.hasMore then
    view.page.nextOffset.map fun next =>
      { offset := next
        endOffset := view.page.endOffset
        limit :=
          if inheritLimit then
            max 1 (if view.page.limit = 0 then fetchRefDefaultLimitChars else view.page.limit)
          else limit }
  else none

/-- The pages from a fetch on, up to one without a cursor. -/
inductive CursorChain (entry : RefEntry) (cap : Option ℕ) (inheritLimit : Bool) (limit : ℕ) :
    FetchArgs → List RefView → Prop
  | last (args : FetchArgs)
      (hnext : nextHashRefViewSelector (entry.deliver cap args) inheritLimit limit = none) :
      CursorChain entry cap inheritLimit limit args [entry.deliver cap args]
  | more (args args' : FetchArgs) (pages : List RefView)
      (hnext : nextHashRefViewSelector (entry.deliver cap args) inheritLimit limit = some args')
      (hpages : CursorChain entry cap inheritLimit limit args' pages) :
      CursorChain entry cap inheritLimit limit args (entry.deliver cap args :: pages)

/-! ## 7. Line ranges -/

/-- `text.matchAll(/[^\n]*(?:\n|$)/g)`, without the empty match at the end. -/
def selectorRows (text : Utf16) : List Utf16 := rowsBy (fun u _ => u == 10) text

/-- `row.replace(/\r?\n$/, "")`. -/
def withoutNewline (row : Utf16) : Utf16 :=
  if row.getLast? == some 10 then
    if row.dropLast.getLast? == some 13 then row.dropLast.dropLast else row.dropLast
  else row

/-- `row.index`: where the row of this number, from 0, begins. -/
def rowIndex (rows : List Utf16) (i : ℕ) : ℕ := (rows.take i).flatten.length

theorem rowIndex_le {i j : ℕ} (h : i ≤ j) (rows : List Utf16) : rowIndex rows i ≤ rowIndex rows j := by
  unfold rowIndex
  have htake : rows.take i = (rows.take j).take i := by
    rw [List.take_take]
    congr 1
    omega
  have hstart : (rows.take i).flatten.Sublist (rows.take j).flatten := by
    rw [htake]
    exact (List.take_sublist _ _).flatten
  exact hstart.length_le

/-- Where the row of this number ends, without its newline. -/
def rowStop (rows : List Utf16) (i : ℕ) : ℕ := rowIndex rows i + (withoutNewline (rows.getD i [])).length

/-- The fetch of the lines `start` to `stop` of an entry; `issuedLimit` is the limit of the selector the
ref was issued with, if any.  `parseHashRefSelector` gives no range that ends before it starts. -/
def lineRangeArgs (entry : RefEntry) (issuedLimit : Option ℕ) (start stop limit : ℕ) :
    Option FetchArgs :=
  let rows := selectorRows entry.payload
  if start < 1 ∨ stop < start ∨ rows.length < stop ∨
      issuedLimit.any fun issued => decide (issued < rowStop rows (stop - 1)) then none
  else
    some
      { offset := rowIndex rows (start - 1)
        endOffset := some (rowStop rows (stop - 1))
        limit }

end PosseClient
