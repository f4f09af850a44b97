/-
# Edits resolved against one snapshot

The spans that edits stand for in one content, in UTF-16 code units, and why one has no span.

* `exactSpan`: the span of a find/replace.
-/
import PosseClient.Lib.LineEnds
import PosseClient.Lib.Occurrences

namespace PosseClient

open Occurrences Json

/-! ## 1. Texts -/

/-- `content.includes("\r\n") ? "\r\n" : "\n"`. -/
def eolOf (content : Utf16) : Utf16 :=
  if (indexOf content [13, 10] 0).isSome then [13, 10] else [10]

/-- `content.slice(start, stop)`. -/
def sliceUnits (content : Utf16) (start stop : ℕ) : Utf16 := (content.drop start).take (stop - start)

/-! ## 2. Spans -/

/-- Why an edit has no span. -/
inductive SpanError where
  | emptyFind
  | notFound
  | ambiguous (count : ℕ) (lines : List ℕ)
  | badLines
  | badRange
  | outside (startLine endLine : ℤ) (lineCount : ℕ)
  deriving DecidableEq, Repr

/-- The text of the error. -/
def SpanError.text : SpanError → String
  | emptyFind => "find/replace requires a nonempty find and a replace"
  | notFound => "find not found"
  | ambiguous count lines =>
    "find matches " ++ toString count ++ " times at line" ++ (if lines.length = 1 then "" else "s") ++
      " " ++ ", ".intercalate (lines.map toString) ++ (if lines.length < count then ", ..." else "") ++
      "; include more surrounding context or use replaceLines"
  | badLines => "replaceLines requires start, end and content"
  | badRange => "replaceLines requires a 1-based inclusive range"
  | outside startLine endLine lineCount =>
    "replaceLines range " ++ toString startLine ++ ":" ++ toString endLine ++
      " is outside the file (" ++ toString lineCount ++ " lines)"

/-- A part of the content with what takes its place. -/
structure EditSpan where
  start : ℕ
  stop : ℕ
  replacement : Utf16
  deriving DecidableEq, Repr

/-- The matches that the ambiguity message counts, each searched for after the end of the one before;
`fuel` bounds their number. -/
def countedMatches (content oldText : Utf16) : ℕ → ℕ → List ℕ
  | 0, _ => []
  | fuel + 1, start =>
    match indexOf content oldText start with
    | none => []
    | some found => found :: countedMatches content oldText fuel (found + oldText.length)

/-- `ambiguousExactMatchMessage`: how often the text matches, and the lines of the first eight. -/
def ambiguousExactMatch (content oldText : Utf16) : SpanError :=
  if oldText = [] then .emptyFind
  else
    let positions := countedMatches content oldText (content.length + 1) 0
    .ambiguous positions.length
      ((positions.take 8).map fun position => 1 + (content.take position).count 10)

/-- One variant of `exactSpan`: no span where the text does not occur. -/
def exactVariant (content oldText newText : Utf16) : Option (Except SpanError EditSpan) :=
  (indexOf content oldText 0).map fun position =>
    if (indexOf content oldText (position + oldText.length)).isSome then
      .error (ambiguousExactMatch content oldText)
    else
      .ok { start := position, stop := position + oldText.length, replacement := newText }

/-- `exactSpan`: a `find` or `replace` that is no string is `none`. -/
def exactSpan (content : Utf16) (find replace : Option Utf16) : Except SpanError EditSpan :=
  match find, replace with
  | some find, some replace =>
    if find = [] then .error .emptyFind
    else
      let eol := eolOf content
      let normalizedOld := lfTo eol (crlfToLf find)
      let normalizedNew := lfTo eol (crlfToLf replace)
      match exactVariant content find replace with
      | some span => span
      | none =>
        if normalizedOld ≠ find then
          (exactVariant content normalizedOld normalizedNew).getD (.error .notFound)
        else .error .notFound
  | _, _ => .error .emptyFind

end PosseClient
