/-
# A batch of edits

`applyBatchEdits` of `edit-spans.js`: every edit is resolved against the content as it was, both
sides of an overlap are rejected, line edits that touch are resolved once more as one, and what is
left is applied from the back.

* A content is in UTF-16 code units; 10 is the line feed, 13 the carriage return.
* A line number is an integer or `none`; the keys of an object are in their order.
-/
import PosseClient.Toolkit.EditSpans

namespace PosseClient

open Json

/-! ## 1. Line spans -/

/-- The `replaceLines` of an edit, when it is an object. -/
structure ReplaceLines where
  keys : List String
  start : Option ℤ
  stop : Option ℤ
  content : Option Utf16
  deriving DecidableEq, Repr

/-- The lines of a `replaceLines` that was accepted. -/
structure LineEdit where
  first : ℕ
  last : ℕ
  content : Utf16
  deriving DecidableEq, Repr

/-- The content without its last line end. -/
def bodyOf (content : Utf16) : Utf16 :=
  if content.getLast? = some 10 then
    content.take (content.length - if [13, 10].isSuffixOf content then 2 else 1)
  else content

/-- Where the lines after the first begin, from position `i` on. -/
def startsAfter : ℕ → Utf16 → List ℕ
  | _, [] => []
  | i, u :: rest => if u = 10 then (i + 1) :: startsAfter (i + 1) rest else startsAfter (i + 1) rest

/-- `starts`: where the lines of the body begin. -/
def lineStarts (body : Utf16) : List ℕ := if body = [] then [] else 0 :: startsAfter 0 body

/-- The text of a line edit with the content's line ends, without its last one. -/
def lineReplacement (content text : Utf16) : Utf16 :=
  lfTo (eolOf content) (dropFinalLf (crlfToLf text))

/-- `lineSpan` of checked lines. -/
def lineSpanAt (content : Utf16) (edit : LineEdit) : Except SpanError EditSpan :=
  let body := bodyOf content
  let starts := lineStarts body
  let emptyInsert : Bool := starts.length = 0 ∧ edit.first = 1 ∧ edit.last = 1
  if ¬ emptyInsert ∧ starts.length < edit.last then
    .error (.outside edit.first edit.last starts.length)
  else
    let replacement := lineReplacement content edit.content
    let start := if emptyInsert then 0 else starts.getD (edit.first - 1) 0
    let stop := if edit.last < starts.length then starts.getD edit.last 0 else body.length
    -- a deletion that reaches the end takes the separator before it
    let start :=
      if replacement = [] ∧ edit.last = starts.length ∧ 1 < edit.first then
        start - if sliceUnits body (start - 2) start = [13, 10] then 2 else 1
      else start
    .ok ⟨start, stop,
      if replacement ≠ [] ∧ edit.last < starts.length then replacement ++ eolOf content
      else replacement⟩

/-- The checks of `lineSpan`. -/
def checkLines (source : Option ReplaceLines) : Except SpanError LineEdit :=
  match source with
  | none => .error .badLines
  | some source =>
    if source.keys.any (fun key => decide (key ∉ ["start", "end", "content"])) then
      .error .badLines
    else
      match source.content, source.start, source.stop with
      | none, _, _ => .error .badLines
      | some content, some start, some stop =>
        if start < 1 ∨ stop < start then .error .badRange
        else .ok ⟨start.toNat, stop.toNat, content⟩
      | some _, _, _ => .error .badRange

/-! ## 2. The edits of a batch -/

/-- An edit as it comes: no object, or an object by its keys and the values that are read. -/
inductive EditItem where
  | invalid
  | object (keys : List String) (find replace : Option Utf16) (replaceLines : Option ReplaceLines)
  deriving DecidableEq, Repr

/-- Why an edit of a batch fails. -/
inductive BatchError where
  | expectedObject
  | notAllowed (key : String)
  | oneMode
  | span (error : SpanError)
  | overlaps (others : List ℕ)
  deriving DecidableEq, Repr

/-- The text of the error of the edit `index`. -/
def BatchError.text (index : ℕ) : BatchError → String
  | expectedObject => "edits[" ++ toString index ++ "]: expected an edit object"
  | notAllowed key => "arguments.edits[" ++ toString index ++ "]." ++ key ++ " is not allowed"
  | oneMode =>
    "edits[" ++ toString index ++ "]: use exactly one supported edit mode without path"
  | span error => "edits[" ++ toString index ++ "]: " ++ error.text
  | overlaps others => "; ".intercalate (others.map fun other =>
      "edits[" ++ toString index ++ "]: overlaps edits[" ++ toString other ++ "]")

/-- A span in the batch: of which edit it is, and the lines of a line edit. -/
structure PlacedSpan where
  span : EditSpan
  index : ℕ
  line : Option LineEdit
  deriving DecidableEq, Repr

/-- One edit, checked and resolved. -/
def resolveEdit (content : Utf16) : EditItem → Except BatchError (EditSpan × Option LineEdit)
  | .invalid => .error .expectedObject
  | .object keys find replace replaceLines =>
    let lineMode := "replaceLines" ∈ keys
    let allowed := if lineMode then ["replaceLines"] else ["find", "replace"]
    match keys.find? fun key => decide (key ∉ ["replaceLines", "find", "replace"]) with
    | some unknown => .error (.notAllowed unknown)
    | none =>
      if keys.any (fun key => decide (key ∉ allowed)) ∨ keys = [] then .error .oneMode
      else if lineMode then
        match checkLines replaceLines with
        | .error error => .error (.span error)
        | .ok edit =>
          match lineSpanAt content edit with
          | .error error => .error (.span error)
          | .ok span => .ok (span, some edit)
      else
        match exactSpan content find replace with
        | .error error => .error (.span error)
        | .ok span => .ok (span, none)

/-- The spans of the edits that resolve. -/
def placedSpans (content : Utf16) (edits : List EditItem) : List PlacedSpan :=
  edits.zipIdx.filterMap fun (item, index) =>
    match resolveEdit content item with
    | .ok (span, line) => some ⟨span, index, line⟩
    | .error _ => none

/-- Line edits overlap by their lines, others by their spans. -/
def PlacedSpan.overlaps (a b : PlacedSpan) : Bool :=
  match a.line, b.line with
  | some l, some m => decide (l.first ≤ m.last ∧ m.first ≤ l.last)
  | _, _ =>
    decide (a.span.start = b.span.start ∨
      (a.span.start < b.span.stop ∧ b.span.start < a.span.stop))

/-- The edits that a span overlaps, in their order: every pair is looked at once, and both of its
sides are told. -/
def rivals (spans : List PlacedSpan) (a : PlacedSpan) : List ℕ :=
  (spans.filter fun b => decide (b.index ≠ a.index) && a.overlaps b).map (·.index)

/-- The spans without a conflict. -/
def survivors (spans : List PlacedSpan) : List PlacedSpan :=
  spans.filter fun a => decide (rivals spans a = [])

/-! ## 3. Runs of lines that touch -/

/-- One turn of the loop over the line items in their order. -/
def pushRun {α : Type*} (runs : List (List (α × LineEdit))) (item : α × LineEdit) :
    List (List (α × LineEdit)) :=
  match runs.getLast? with
  | none => [[item]]
  | some run =>
    match run.getLast? with
    | none => runs ++ [[item]]
    | some last =>
      if last.2.last + 1 = item.2.first then runs.dropLast ++ [run ++ [item]]
      else runs ++ [[item]]

/-- `lineItems`, by their first lines. -/
def lineItems (spans : List PlacedSpan) : List (PlacedSpan × LineEdit) :=
  (spans.filterMap fun a => a.line.map fun line => (a, line)).mergeSort fun a b =>
    decide (a.2.first ≤ b.2.first)

/-- `runs`: the line items whose lines touch, together. -/
def lineRuns (spans : List PlacedSpan) : List (List (PlacedSpan × LineEdit)) :=
  (lineItems spans).foldl pushRun []

/-- The texts of a run, joined: an empty one leaves no line. -/
def runText (run : List LineEdit) : Utf16 :=
  List.intercalate [10] <| (run.map fun edit => dropFinalLf (crlfToLf edit.content)).filter
    fun text => decide (text ≠ [])

/-- The run as one line edit. -/
def runEdit (run : List LineEdit) : LineEdit :=
  ⟨(run.head?.map (·.first)).getD 0, (run.getLast?.map (·.last)).getD 0, runText run⟩

/-- What a run of several items becomes: the span of all, or the error of each. -/
def mergeRun (content : Utf16) (run : List (PlacedSpan × LineEdit)) :
    Except SpanError PlacedSpan :=
  (lineSpanAt content (runEdit (run.map (·.2)))).map fun span =>
    ⟨span, (run.head?.map (·.1.index)).getD 0, none⟩

/-- One run of several items: its items go, and its span comes unless it has none. -/
def coalesceRun (content : Utf16) (state : List PlacedSpan × List (ℕ × SpanError))
    (run : List (PlacedSpan × LineEdit)) : List PlacedSpan × List (ℕ × SpanError) :=
  let left := state.1.filter fun a => decide (a.index ∉ run.map (·.1.index))
  match mergeRun content run with
  | .ok merged => (left ++ [merged], state.2)
  | .error error => (left, state.2 ++ run.map fun item => (item.1.index, error))

/-- The spans after the runs of several items have been merged, and the items that failed. -/
def coalesce (content : Utf16) (spans : List PlacedSpan) :
    List PlacedSpan × List (ℕ × SpanError) :=
  ((lineRuns spans).filter fun run => decide (1 < run.length)).foldl (coalesceRun content)
    (spans, [])

/-! ## 4. The batch -/

/-- `ascending`: by start, then by end. -/
def ascendingSpans (spans : List PlacedSpan) : List PlacedSpan :=
  spans.mergeSort fun a b =>
    decide (toLex (a.span.start, a.span.stop) ≤ toLex (b.span.start, b.span.stop))

/-- `result.slice(0, span.start) + span.replacement + result.slice(span.end)`. -/
def applySpan (result : Utf16) (span : EditSpan) : Utf16 :=
  result.take span.start ++ span.replacement ++ result.drop span.stop

/-- The content with the spans in place, the last one first. -/
def applySpans (content : Utf16) (spans : List PlacedSpan) : Utf16 :=
  (ascendingSpans spans).reverse.foldl (fun result a => applySpan result a.span) content

/-- The result of each edit: `none` is `ok`. -/
def batchResults (content : Utf16) (edits : List EditItem) : List (Option BatchError) :=
  let spans := placedSpans content edits
  let failed := (coalesce content (survivors spans)).2
  edits.zipIdx.map fun (item, index) =>
    match resolveEdit content item with
    | .error error => some error
    | .ok (span, line) =>
      match rivals spans ⟨span, index, line⟩, failed.lookup index with
      | [], none => none
      | [], some error => some (.span error)
      | others, _ => some (.overlaps others)

structure BatchOutcome where
  content : Except String Utf16
  editCount : ℕ
  failed : ℕ
  results : List (Option BatchError)

/-- `applyBatchEdits`. -/
def applyBatchEdits (content : Utf16) (edits : List EditItem) : Except String BatchOutcome :=
  if edits = [] then .error "edits requires a nonempty array"
  else
    let results := batchResults content edits
    let editCount := results.countP Option.isNone
    let spans := (coalesce content (survivors (placedSpans content edits))).1
    .ok {
      content :=
        if editCount ≠ 0 then .ok (applySpans content spans)
        else .error <| "; ".intercalate <| results.zipIdx.map fun (error, index) =>
          (error.map (BatchError.text index)).getD ""
      editCount := editCount
      failed := edits.length - editCount
      results := results }

end PosseClient
