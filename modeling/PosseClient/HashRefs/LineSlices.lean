/-
# Slices of a stored payload

`sliceSourcePayload` of `hash-adder.js`, which cuts a range of lines or of characters out of a
stored payload, and `inheritedCreateRefSourceMetadata`, which says what source lines the cut is.

* `sliceSourcePayload`: a range of lines is counted after `\r\n` has become `\n`, by `\n` alone.
* `normalizedStoredWindows`: the windows of the stored entry.
* `inheritedCreateRefSourceMetadata`: the windows of the slice.
-/
import PosseClient.HashRefs.SourceWindows

namespace PosseClient

open Json

/-! ## 1. The slice -/

/-- What a caller asks for; `lines` is the text of the range. -/
structure SliceItem where
  lines : String := ""
  offset : Option ℤ := none
  limit : Option ℤ := none
  deriving DecidableEq, Repr

/-- A slice, and the lines it is when it was asked for by lines. -/
structure Sliced where
  text : Utf16
  slice : Option String := none
  lineSlice : Option (ℕ × ℕ) := none
  wholePayload : Bool := false
  deriving DecidableEq, Repr

def isAsciiDigit (c : Char) : Bool := 48 ≤ c.toNat && c.toNat ≤ 57

/-- The number of a run of digits. -/
def digitsValue (cs : List Char) : ℕ := cs.foldl (fun n c => 10 * n + (c.toNat - 48)) 0

/-- `/^(\d+)\s*-\s*(\d+)$/`, of a trimmed text. -/
def parseLineRange (lines : String) : Option (ℕ × ℕ) :=
  let cs := (trim lines).toList
  let first := cs.takeWhile isAsciiDigit
  match (cs.drop first.length).dropWhile isTrimmed with
  | '-' :: rest =>
    let second := rest.dropWhile isTrimmed
    if first ≠ [] ∧ second ≠ [] ∧ second.all isAsciiDigit then
      some (digitsValue first, digitsValue second)
    else none
  | _ => none

/-- `text.replace(/\r\n/g, "\n").split("\n")`. -/
def lfRows (text : Utf16) : List Utf16 := (crlfToLf text).splitOn 10

def invalidLinesRange : String := "invalid_lines_range (use \"start-end\", 1-based)"

/-- The branch of `sliceSourcePayload` for a range of lines. -/
def sliceLines (text : Utf16) (lines : String) : Except String Sliced :=
  match parseLineRange lines with
  | none => .error invalidLinesRange
  | some (start, stop) =>
    let rows := lfRows text
    let selectedEnd := min stop rows.length
    if start < 1 ∨ stop < start then .error invalidLinesRange
    else if rows.length < start then
      .error ("lines_out_of_range (source has " ++ toString rows.length ++ " lines)")
    else
      .ok
        { text := [10].intercalate ((rows.take selectedEnd).drop (start - 1))
          slice := some ("lines:" ++ toString start ++ "-" ++ toString selectedEnd)
          lineSlice := some (start, selectedEnd) }

/-- `sliceSourcePayload`. -/
def sliceSourcePayload (text : Utf16) (item : SliceItem) : Except String Sliced :=
  if trim item.lines ≠ "" then sliceLines text item.lines
  else
    let offset := (item.offset.getD 0).toNat
    let limit := item.limit.map fun limit => (max 1 limit).toNat
    if offset = 0 ∧ limit = none then .ok { text, wholePayload := true }
    else if text.length ≤ offset then
      .error ("offset_out_of_range (source has " ++ toString text.length ++ " chars)")
    else
      let stop := (limit.map (offset + ·)).getD text.length
      .ok
        { text := slice text offset stop
          slice := some ("chars:" ++ toString offset ++ "-" ++ toString (min stop text.length)) }

/-! ## 2. The windows of the source -/

/-- A window as it is stored, a number that is no integer left out. -/
structure StoredWindow where
  path : String
  sourceStartLine : Option ℤ
  sourceEndLine : Option ℤ
  materializedStartLine : Option ℤ
  materializedEndLine : Option ℤ
  repositoryIdentity : Option String := none
  sourceVersion : Option String := none
  sourcePayloadEncoding : Option String := none
  deriving DecidableEq, Repr

/-- A window as `normalizedEvidenceSourceWindow` returns it. -/
structure EvidenceWindow where
  path : String
  sourceStartLine : ℤ
  sourceEndLine : ℤ
  materializedStartLine : Option ℤ
  materializedEndLine : Option ℤ
  repositoryIdentity : Option String := none
  sourceVersion : Option String := none
  sourcePayloadEncoding : Option String := none
  deriving DecidableEq, Repr

/-- A value that is there and not blank. -/
def presentText (value : Option String) : Option String := value.filter fun s => trim s ≠ ""

/-- `normalizedEvidenceSourceWindow`, of a stored window. -/
def normalizedStoredWindow (value : StoredWindow) : Option EvidenceWindow :=
  match canonicalEvidenceSourcePath value.path, value.sourceStartLine, value.sourceEndLine with
  | some path, some sourceStart, some sourceEnd =>
    if sourceStart < 1 ∨ sourceEnd < sourceStart then none
    else
      some
        { path
          sourceStartLine := sourceStart
          sourceEndLine := sourceEnd
          materializedStartLine := value.materializedStartLine.filter (0 < ·)
          materializedEndLine := value.materializedStartLine.bind fun start =>
            value.materializedEndLine.filter (start ≤ ·)
          repositoryIdentity := presentText value.repositoryIdentity
          sourceVersion := presentText value.sourceVersion
          sourcePayloadEncoding := presentText value.sourcePayloadEncoding }
  | _, _, _ => none

/-- `normalizedEvidenceSourceWindows`. -/
def normalizedStoredWindows (windows : List StoredWindow) : List EvidenceWindow :=
  windows.filterMap normalizedStoredWindow

/-- A stored entry, as far as a slice of it reads it. -/
structure StoredSource where
  payloadText : Utf16
  isSource : Bool
  sourceWindows : List StoredWindow
  repositoryIdentity : Option String := none
  sourceVersion : Option String := none
  deriving DecidableEq, Repr

/-! ## 3. The windows of the slice -/

/-- The source metadata of a created ref, whose line semantics are those of a source. -/
structure InheritedMetadata where
  sourceWindows : List EvidenceWindow
  path : Option String
  repositoryIdentity : Option String
  sourceVersion : Option String
  deriving DecidableEq, Repr

/-- One turn of the loop over the windows, for the lines from `sliceStart` to `sliceEnd`; a bound
that is `null` counts as 0. -/
def inheritWindow (sliceStart sliceEnd : ℤ) (window : EvidenceWindow) : Option EvidenceWindow :=
  let materializedStart := window.materializedStartLine.getD 0
  let materializedEnd := window.materializedEndLine.getD 0
  let overlapStart := max sliceStart materializedStart
  let overlapEnd := min sliceEnd materializedEnd
  if overlapEnd < overlapStart then none
  else
    some
      { window with
        sourceStartLine := window.sourceStartLine + overlapStart - materializedStart
        sourceEndLine := window.sourceStartLine + overlapEnd - materializedStart
        materializedStartLine := some (overlapStart - sliceStart + 1)
        materializedEndLine := some (overlapEnd - sliceStart + 1) }

/-- The windows a slice inherits. -/
def inheritedWindows (windows : List EvidenceWindow) (sliced : Sliced) : List EvidenceWindow :=
  if sliced.wholePayload then windows
  else
    match sliced.lineSlice with
    | some (start, stop) => windows.filterMap (inheritWindow start stop)
    | none => []

/-- `inheritedCreateRefSourceMetadata`. -/
def inheritedCreateRefSourceMetadata (sourceEntry : StoredSource) (sliced : Sliced) :
    Option InheritedMetadata :=
  let windows := normalizedStoredWindows sourceEntry.sourceWindows
  if !sourceEntry.isSource ∨ windows = [] then none
  else
    let inherited := inheritedWindows windows sliced
    if inherited = [] then none
    else
      some
        { sourceWindows := inherited
          path :=
            match (inherited.map (·.path)).dedup with
            | [path] => some path
            | _ => none
          repositoryIdentity := sourceEntry.repositoryIdentity
          sourceVersion := sourceEntry.sourceVersion }

end PosseClient
