/-
# SCIP ranges as offsets

Conversion of an occurrence range to offsets in a source text: the starts of its lines, the three
position encodings, and the clamping of a range that lies outside the text.

* `buildLineStarts`: the line table.
* `utf8ByteOffsetToJs`, `utf32CodePointOffsetToJs`, `charOffsetToJs`: columns as offsets.
* `clampOffset`, `scipRangeToJs`: a position, and a range.
-/
import PosseClient.Lib.CodePoints
import PosseClient.Lib.Json

namespace PosseClient

open CodePoints Json

/-- `MAX_STRING_LENGTH` of the engine. -/
def maxStringLength : ℕ := 536870888

/-- A source text: no longer than the engine's strings may be. -/
structure SourceText where
  units : Utf16
  short : units.length ≤ maxStringLength

/-- The starts of the lines that begin after the first `i` units. -/
def lineStartsFrom : ℕ → Utf16 → List ℕ
  | _, [] => []
  | i, u :: rest =>
    if u = 10 then (i + 1) :: lineStartsFrom (i + 1) rest else lineStartsFrom (i + 1) rest

/-- `buildLineStarts`. -/
def buildLineStarts (source : Utf16) : List ℕ := 0 :: lineStartsFrom 0 source

/-- The loop of `utf8ByteOffsetToJs`, over the code points from offset `i` on. -/
def utf8Scan (byteOffset length : ℕ) : List Utf16 → ℕ → ℕ → ℕ
  | [], _, _ => length
  | point :: points, bytes, i =>
    if byteOffset < bytes + utf8Width point then i
    else utf8Scan byteOffset length points (bytes + utf8Width point) (i + point.length)

/-- `utf8ByteOffsetToJs`. -/
def utf8ByteOffsetToJs (text : Utf16) (byteOffset : ℕ) : ℕ :=
  utf8Scan byteOffset text.length (codePoints text) 0 0

/-- The loop of `utf32CodePointOffsetToJs`. -/
def utf32Scan (codePointOffset length : ℕ) : List Utf16 → ℕ → ℕ → ℕ
  | [], _, _ => length
  | point :: points, seen, i =>
    if codePointOffset ≤ seen then i
    else utf32Scan codePointOffset length points (seen + 1) (i + point.length)

/-- `utf32CodePointOffsetToJs`. -/
def utf32CodePointOffsetToJs (text : Utf16) (codePointOffset : ℕ) : ℕ :=
  utf32Scan codePointOffset text.length (codePoints text) 0 0

/-- `charOffsetToJs`: 1 is UTF-8, 3 is UTF-32, everything else UTF-16. -/
def charOffsetToJs (lineText : Utf16) (char positionEncoding : ℕ) : ℕ :=
  if positionEncoding = 1 then utf8ByteOffsetToJs lineText char
  else if positionEncoding = 3 then utf32CodePointOffsetToJs lineText char
  else min char lineText.length

/-- `encodedLineLength`. -/
def encodedLineLength (lineText : Utf16) (positionEncoding : ℕ) : ℕ :=
  if positionEncoding = 1 then utf8Length lineText
  else if positionEncoding = 3 then (codePoints lineText).length
  else lineText.length

/-- The text of a line, without its line feed. -/
def lineTextAt (lineStarts : List ℕ) (source : Utf16) (line : ℕ) : Utf16 :=
  let lineStart := lineStarts.getD line 0
  let lineEnd :=
    if line + 1 < lineStarts.length then max lineStart (lineStarts.getD (line + 1) 0 - 1)
    else source.length
  (source.drop lineStart).take (lineEnd - lineStart)

/-- `clampOffset`: the offset of a position, and whether it was clamped. -/
def clampOffset (lineStarts : List ℕ) (source : Utf16) (line char : ℤ) (positionEncoding : ℕ) :
    ℕ × Bool :=
  if line < 0 then (0, true)
  else if lineStarts.length ≤ line.toNat then (source.length, true)
  else
    let lineText := lineTextAt lineStarts source line.toNat
    let normalizedChar := char.toNat
    (min (lineStarts.getD line.toNat 0 + charOffsetToJs lineText normalizedChar positionEncoding)
      source.length,
      decide (char < 0) || decide (encodedLineLength lineText positionEncoding < normalizedChar))

/-- `n | 0`. -/
def toInt32 (n : ℤ) : ℤ := (n + 2 ^ 31) % 2 ^ 32 - 2 ^ 31

/-- The offsets of a range, with its lines counted from one. -/
structure JsRange where
  start : ℕ
  stop : ℕ
  rangeStartLine : ℤ
  rangeEndLine : ℤ
  clamped : Bool
  deriving DecidableEq, Repr

/-- The range between two positions. -/
def jsRangeOf (source : Utf16) (lineStarts : List ℕ) (positionEncoding : ℕ)
    (startLine startChar endLine endChar : ℤ) : JsRange :=
  let startOffset := clampOffset lineStarts source startLine startChar positionEncoding
  let endOffset := clampOffset lineStarts source endLine endChar positionEncoding
  { start := min startOffset.1 source.length
    stop := min (max endOffset.1 startOffset.1) source.length
    rangeStartLine := startLine + 1
    rangeEndLine := endLine + 1
    clamped := startOffset.2 || endOffset.2 || decide (endOffset.1 < startOffset.1) }

/-- `scipRangeToJs`. -/
def scipRangeToJs (range : List ℤ) (source : Utf16) (lineStarts : List ℕ) (positionEncoding : ℕ) :
    JsRange :=
  match range with
  | [startLine, startChar, endChar] =>
    jsRangeOf source lineStarts positionEncoding (toInt32 startLine) (toInt32 startChar)
      (toInt32 startLine) (toInt32 endChar)
  | startLine :: startChar :: endLine :: endChar :: _ =>
    jsRangeOf source lineStarts positionEncoding (toInt32 startLine) (toInt32 startChar)
      (toInt32 endLine) (toInt32 endChar)
  | _ => { start := 0, stop := 0, rangeStartLine := 1, rangeEndLine := 1, clamped := true }

end PosseClient
