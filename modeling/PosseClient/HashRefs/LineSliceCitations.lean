/-
# What a line slice cites

The windows that a slice of a stored payload inherits, against the lines of the sources they name.
The slicer counts the rows of a payload by its line feeds; the windows count its lines, which a lone
carriage return ends as well.

* `flatMap_lfRows`: the rows of a payload, cut at their carriage returns, are its lines.
* `sliceCited_iff`: when the inherited windows of given windows are right.
* `correct_slices_iff`: for which ranges they are right whatever the windows are.
* `line_slice_exact`: both.
-/
import PosseClient.HashRefs.LineSlices
import PosseClient.HashRefs.SourceCitations

namespace PosseClient

open Json

/-! ## 1. Lines by their numbers -/

/-- The line with a number, counted from 1. -/
def lineAt (lines : List Utf16) (n : ℤ) : Option Utf16 :=
  if 1 ≤ n then lines[(n - 1).toNat]? else none

theorem lineAt_pos {lines : List Utf16} {n : ℤ} (h : 1 ≤ n) :
    lineAt lines n = lines[(n - 1).toNat]? := if_pos h

theorem lineAt_some {lines : List Utf16} {n : ℤ} {line : Utf16} (h : lineAt lines n = some line) :
    1 ≤ n ∧ n ≤ lines.length := by
  unfold lineAt at h
  split at h
  case isTrue hn =>
    have hlt := (List.getElem?_eq_some_iff.mp h).1
    omega
  case isFalse => cases h

/-- A part of a text's lines, by their numbers in the text. -/
theorem lineAt_part {lines : List Utf16} {start stop : ℕ} {n : ℤ} (hstart : 1 ≤ start)
    (hn : (start : ℤ) ≤ n) (hstop : n ≤ stop) :
    lineAt ((lines.take stop).drop (start - 1)) (n - start + 1) = lineAt lines n := by
  rw [lineAt_pos (by omega), lineAt_pos (by omega), List.getElem?_drop, List.getElem?_take_of_lt]
  · congr 1
    omega
  · omega

/-- The file of a window, at its version. -/
structure SourceFile where
  path : String
  repositoryIdentity : Option String
  sourceVersion : Option String
  deriving DecidableEq, Repr

def EvidenceWindow.file (window : EvidenceWindow) : SourceFile :=
  ⟨window.path, window.repositoryIdentity, window.sourceVersion⟩

/-- The window speaks of line `n` of its payload. -/
def EvidenceWindow.Covers (window : EvidenceWindow) (n : ℤ) : Prop :=
  ∃ start stop, window.materializedStartLine = some start ∧
    window.materializedEndLine = some stop ∧ start ≤ n ∧ n ≤ stop

/-- The lines of a view that a window speaks of read as the source lines it names. -/
def Cites (view source : List Utf16) (window : EvidenceWindow) : Prop :=
  ∃ start stop, window.materializedStartLine = some start ∧
    window.materializedEndLine = some stop ∧ start ≤ stop ∧
    stop - start = window.sourceEndLine - window.sourceStartLine ∧
    ∀ n, start ≤ n → n ≤ stop → ∃ line, lineAt view n = some line ∧
      lineAt source (window.sourceStartLine + (n - start)) = some line

/-- The windows of a stored source are right. -/
def CorrectWindows (entry : StoredSource) (sources : SourceFile → Utf16) : Prop :=
  ∀ window ∈ normalizedStoredWindows entry.sourceWindows,
    Cites (linesOf entry.payloadText) (linesOf (sources window.file)) window

/-! ## 2. Rows and lines -/

theorem normalizeNewlines_eq_map (text : Utf16) :
    normalizeNewlines text = (crlfToLf text).map fun u => if u = 13 then 10 else u := by
  fun_induction normalizeNewlines text with
  | case1 => rfl
  | case2 rest ih => simp [crlfToLf, ih]
  | case3 rest hrest ih =>
    have hcons : crlfToLf (13 :: rest) = 13 :: crlfToLf rest := by
      cases rest with
      | nil => rfl
      | cons v rest =>
        have hv : v ≠ 10 := by
          rintro rfl
          exact hrest rest rfl
        rw [crlfToLf]
        intro rest' _ heq
        exact hv (List.cons.inj heq).1
    simp [hcons, ih]
  | case4 u rest hpair hcr ih =>
    have hu : u ≠ 13 := fun heq => hcr heq
    have hcons : crlfToLf (u :: rest) = u :: crlfToLf rest := by
      rw [crlfToLf]
      intro rest' heq
      exact absurd heq hu
    simp [hcons, ih, hu]

theorem splitOn_cons_ne {c u : ℕ} (h : u ≠ c) (s : Utf16) :
    (u :: s).splitOn c = (s.splitOn c).modifyHead (u :: ·) := by
  simp only [List.splitOn, List.splitOnP_cons_eq_if_modifyHead, beq_iff_eq, if_neg h]

theorem splitOn_cons_self (c : ℕ) (s : Utf16) : (c :: s).splitOn c = [] :: s.splitOn c := by
  simp [List.splitOn, List.splitOnP_cons_eq_if_modifyHead]

theorem splitOn_ne_nil' (c : ℕ) (s : Utf16) : s.splitOn c ≠ [] := by
  rw [List.splitOn]
  exact List.splitOnP_ne_nil _ s

/-- A piece does not contain what the text was split at. -/
theorem not_mem_of_mem_splitOn {c : ℕ} {text piece : Utf16} (h : piece ∈ text.splitOn c) :
    c ∉ piece := by
  induction text generalizing piece with
  | nil =>
    have hpiece : piece = [] := by simpa [List.splitOn] using h
    simp [hpiece]
  | cons u rest ih =>
    by_cases hu : u = c
    · subst hu
      rw [splitOn_cons_self] at h
      rcases List.mem_cons.mp h with rfl | h
      · simp
      · exact ih h
    · rw [splitOn_cons_ne hu] at h
      rcases List.exists_cons_of_ne_nil (splitOn_ne_nil' c rest) with ⟨first, pieces, hpieces⟩
      rw [hpieces, List.modifyHead_cons] at h
      rcases List.mem_cons.mp h with rfl | h
      · have hmem : first ∈ rest.splitOn c := by
          rw [hpieces]
          exact List.mem_cons_self
        have hfirst := ih hmem
        simp [Ne.symm hu, hfirst]
      · exact ih (by rw [hpieces]; exact List.mem_cons_of_mem _ h)

/-- Splitting at both characters is splitting at one and then at the other. -/
theorem splitOn_map_eq_flatMap (text : Utf16) :
    (text.map fun u => if u = 13 then 10 else u).splitOn 10 =
      (text.splitOn 10).flatMap fun row => row.splitOn 13 := by
  induction text with
  | nil => rfl
  | cons u rest ih =>
    rw [List.map_cons]
    rcases List.exists_cons_of_ne_nil (splitOn_ne_nil' 10 rest) with ⟨row, rows, hrows⟩
    rw [hrows, List.flatMap_cons] at ih
    by_cases hlf : u = 10
    · subst hlf
      rw [if_neg (by decide), splitOn_cons_self, splitOn_cons_self, ih, hrows]
      rfl
    · rw [splitOn_cons_ne hlf, hrows]
      by_cases hcr : u = 13
      · subst hcr
        rw [if_pos rfl, splitOn_cons_self, ih]
        simp [splitOn_cons_self]
      · rcases List.exists_cons_of_ne_nil (splitOn_ne_nil' 13 row) with ⟨line, lines, hlines⟩
        rw [if_neg hcr, splitOn_cons_ne hlf, ih, hlines]
        simp [splitOn_cons_ne hcr, hlines]

/-- **The rows of a payload, cut at their carriage returns, are its lines**, and a last one that is
empty where the payload is over at a line's end. -/
theorem flatMap_lfRows (text : Utf16) :
    ((lfRows text).flatMap fun row => row.splitOn 13) =
      linesOf text ++ (if atRowEnd text then [[]] else []) := by
  rw [lfRows, ← splitOn_map_eq_flatMap, ← normalizeNewlines_eq_map, splitOn_normalizeNewlines]

/-! ## 3. The slice -/

theorem not_mem_of_mem_lfRows {text row : Utf16} (h : row ∈ lfRows text) : 10 ∉ row :=
  not_mem_of_mem_splitOn h

/-- What an accepted range of lines is: rows of the payload, joined again. -/
structure IsLineSlice (payload : Utf16) (sliced : Sliced) (start stop : ℕ) : Prop where
  pos : 1 ≤ start
  ordered : start ≤ stop
  within : stop ≤ (lfRows payload).length
  rows : sliced.text.splitOn 10 = ((lfRows payload).take stop).drop (start - 1)
  lineSlice : sliced.lineSlice = some (start, stop)
  part : sliced.wholePayload = false

theorem isLineSlice_of_slice {payload : Utf16} {item : SliceItem} {sliced : Sliced}
    {start stop : ℕ} (h : sliceSourcePayload payload item = .ok sliced)
    (hline : sliced.lineSlice = some (start, stop)) : IsLineSlice payload sliced start stop := by
  unfold sliceSourcePayload at h
  split at h
  case isTrue =>
    unfold sliceLines at h
    split at h
    case h_1 => cases h
    case h_2 first last _ =>
      dsimp only at h
      split_ifs at h with hbad hout
      cases h
      cases hline
      have hpos : 1 ≤ start ∧ start ≤ last ∧ start ≤ (lfRows payload).length := by omega
      refine ⟨hpos.1, by omega, Nat.min_le_right _ _, ?_, rfl, rfl⟩
      refine List.splitOn_intercalate 10 ?_ ?_
      · intro row hrow
        exact not_mem_of_mem_lfRows (List.mem_of_mem_take (List.mem_of_mem_drop hrow))
      · rw [← List.length_pos_iff, List.length_drop, List.length_take]
        omega
  case isFalse =>
    dsimp only at h
    split_ifs at h
    · cases h
      cases hline
    · cases h
      cases hline

section Slice

variable {payload : Utf16} {sliced : Sliced} {start stop : ℕ}

/-- A row of the slice is the row of the payload. -/
theorem IsLineSlice.lineAt_row (h : IsLineSlice payload sliced start stop) {n : ℤ}
    (hstart : (start : ℤ) ≤ n) (hstop : n ≤ stop) :
    lineAt (sliced.text.splitOn 10) (n - start + 1) = lineAt (lfRows payload) n := by
  rw [h.rows]
  exact lineAt_part h.pos hstart hstop

/-- The windows that a created ref of the slice has. -/
def sliceWindows (entry : StoredSource) (sliced : Sliced) : List EvidenceWindow :=
  ((inheritedCreateRefSourceMetadata entry sliced).map (·.sourceWindows)).getD []

theorem IsLineSlice.sliceWindows_eq (h : IsLineSlice payload sliced start stop)
    {entry : StoredSource} (hsource : entry.isSource = true) :
    sliceWindows entry sliced =
      (normalizedStoredWindows entry.sourceWindows).filterMap (inheritWindow start stop) := by
  have hinherited : inheritedWindows (normalizedStoredWindows entry.sourceWindows) sliced =
      (normalizedStoredWindows entry.sourceWindows).filterMap (inheritWindow start stop) := by
    simp [inheritedWindows, h.part, h.lineSlice]
  unfold sliceWindows inheritedCreateRefSourceMetadata
  simp only [hsource, hinherited]
  split
  case isTrue hnil =>
    have hnil : normalizedStoredWindows entry.sourceWindows = [] := by simpa using hnil
    rw [hnil]
    rfl
  case isFalse =>
    split
    case isTrue hnil => rw [hnil]; rfl
    case isFalse => rfl

end Slice

/-! ## 4. The windows of a slice -/

/-- The lines of the payload up to the end of row `i`. -/
def linesThrough (payload : Utf16) (i : ℕ) : ℕ :=
  (((lfRows payload).take i).flatMap fun row => row.splitOn 13).length

/-- Row `i` of the payload has a line that the window speaks of. -/
def RowMeets (payload : Utf16) (i : ℕ) (window : EvidenceWindow) : Prop :=
  ∃ n : ℕ, linesThrough payload (i - 1) < n ∧ n ≤ linesThrough payload i ∧ window.Covers n

/-- What a slice from row `start` to row `stop` promises: its windows name source lines that read as
the lines of its text, and a line of it that some window of the source speaks of is in a window. -/
structure SliceCited (entry : StoredSource) (sources : SourceFile → Utf16) (sliced : Sliced)
    (start stop : ℕ) : Prop where
  cites : ∀ window ∈ sliceWindows entry sliced,
    Cites (sliced.text.splitOn 10) (linesOf (sources window.file)) window
  covers : ∀ i, start ≤ i → i ≤ stop →
    (∃ window ∈ normalizedStoredWindows entry.sourceWindows,
      RowMeets entry.payloadText i window) →
    ∃ window ∈ sliceWindows entry sliced, window.Covers ((i : ℤ) - start + 1)

/-- Within the range, rows and lines with one number are the same as far as the windows speak of
them. -/
structure SlicesAlike (payload : Utf16) (windows : List EvidenceWindow) (start stop : ℕ) :
    Prop where
  reads : ∀ window ∈ windows, ∀ n : ℤ, (start : ℤ) ≤ n → n ≤ stop → window.Covers n →
    lineAt (linesOf payload) n = lineAt (lfRows payload) n
  meets : ∀ i, start ≤ i → i ≤ stop → (∃ window ∈ windows, RowMeets payload i window) →
    ∃ window ∈ windows, window.Covers i

section Windows

variable {start stop : ℤ} {window inherited : EvidenceWindow}

/-- A window with its bounds, cut to a range. -/
theorem inheritWindow_bounds {first last : ℤ} (hfirst : window.materializedStartLine = some first)
    (hlast : window.materializedEndLine = some last) :
    inheritWindow start stop window =
      if min stop last < max start first then none
      else
        some
          { window with
            sourceStartLine := window.sourceStartLine + max start first - first
            sourceEndLine := window.sourceStartLine + min stop last - first
            materializedStartLine := some (max start first - start + 1)
            materializedEndLine := some (min stop last - start + 1) } := by
  simp [inheritWindow, hfirst, hlast]

/-- A line of the slice is in the inherited window when its line of the payload was in the
window. -/
theorem covers_inheritWindow {n : ℤ} (hstart : start ≤ n) (hstop : n ≤ stop)
    (hbounds : ∃ first last, window.materializedStartLine = some first ∧
      window.materializedEndLine = some last) :
    (∃ inherited, inheritWindow start stop window = some inherited ∧
      inherited.Covers (n - start + 1)) ↔ window.Covers n := by
  rcases hbounds with ⟨first, last, hfirst, hlast⟩
  rw [inheritWindow_bounds hfirst hlast]
  constructor
  · rintro ⟨inherited, hinherited, from', to', hfrom, hto, hle, hge⟩
    split at hinherited
    case isTrue => cases hinherited
    case isFalse =>
      cases hinherited
      cases hfrom
      cases hto
      exact ⟨first, last, hfirst, hlast, by omega, by omega⟩
  · rintro ⟨first', last', hfirst', hlast', hle, hge⟩
    rw [hfirst] at hfirst'
    rw [hlast] at hlast'
    cases hfirst'
    cases hlast'
    rw [if_neg (by omega)]
    exact ⟨_, rfl, _, _, rfl, rfl, by omega, by omega⟩

end Windows

/-- **When the windows of a slice are right**, for given right windows of the source. -/
theorem sliceCited_iff {entry : StoredSource} {sources : SourceFile → Utf16} {sliced : Sliced}
    {start stop : ℕ} (h : IsLineSlice entry.payloadText sliced start stop)
    (hsource : entry.isSource = true) (hcorrect : CorrectWindows entry sources) :
    SliceCited entry sources sliced start stop ↔
      SlicesAlike entry.payloadText (normalizedStoredWindows entry.sourceWindows) start stop := by
  have hbounds : ∀ window ∈ normalizedStoredWindows entry.sourceWindows,
      ∃ first last, window.materializedStartLine = some first ∧
        window.materializedEndLine = some last := by
    intro window hwindow
    rcases hcorrect window hwindow with ⟨first, last, hfirst, hlast, _⟩
    exact ⟨first, last, hfirst, hlast⟩
  have hcovered : ∀ n : ℤ, (start : ℤ) ≤ n → n ≤ stop →
      ((∃ window ∈ sliceWindows entry sliced, window.Covers (n - start + 1)) ↔
        ∃ window ∈ normalizedStoredWindows entry.sourceWindows, window.Covers n) := by
    intro n hstart hstop
    rw [h.sliceWindows_eq hsource]
    constructor
    · rintro ⟨inherited, hinherited, hcovers⟩
      rcases List.mem_filterMap.mp hinherited with ⟨window, hwindow, heq⟩
      exact ⟨window, hwindow,
        (covers_inheritWindow hstart hstop (hbounds window hwindow)).mp ⟨inherited, heq, hcovers⟩⟩
    · rintro ⟨window, hwindow, hcovers⟩
      rcases (covers_inheritWindow hstart hstop (hbounds window hwindow)).mpr hcovers with
        ⟨inherited, heq, hinherited⟩
      exact ⟨inherited, List.mem_filterMap.mpr ⟨window, hwindow, heq⟩, hinherited⟩
  constructor
  · intro hcited
    refine ⟨?_, ?_⟩
    · intro window hwindow n hstart hstop hcovers
      rcases hcorrect window hwindow with ⟨first, last, hfirst, hlast, hle, hlength, hlines⟩
      rcases hcovers with ⟨first', last', hfirst', hlast', hn, hn'⟩
      rw [hfirst] at hfirst'
      rw [hlast] at hlast'
      cases hfirst'
      cases hlast'
      have hinherit := @inheritWindow_bounds start stop window first last hfirst hlast
      rw [if_neg (by omega)] at hinherit
      have hmem := List.mem_filterMap.mpr ⟨window, hwindow, hinherit⟩
      rw [← h.sliceWindows_eq hsource] at hmem
      rcases hcited.cites _ hmem with ⟨from', to', hfrom, hto, _, _, hrows⟩
      cases hfrom
      cases hto
      rcases hrows (n - start + 1) (by omega) (by omega) with ⟨row, hrow, hsourceRow⟩
      rcases hlines n hn hn' with ⟨line, hline, hsourceLine⟩
      rw [h.lineAt_row hstart hstop] at hrow
      have hsame : window.sourceStartLine + max (start : ℤ) first - first +
          (n - start + 1 - (max (start : ℤ) first - start + 1)) =
          window.sourceStartLine + (n - first) := by omega
      rw [hline, hrow, ← hsourceLine, ← hsourceRow]
      exact congrArg _ hsame.symm
    · intro i hstart hstop hmeets
      exact (hcovered i (by omega) (by omega)).mp (hcited.covers i hstart hstop hmeets)
  · intro halike
    refine ⟨?_, ?_⟩
    · intro inherited hinherited
      rw [h.sliceWindows_eq hsource] at hinherited
      rcases List.mem_filterMap.mp hinherited with ⟨window, hwindow, heq⟩
      rcases hcorrect window hwindow with ⟨first, last, hfirst, hlast, hle, hlength, hlines⟩
      rw [inheritWindow_bounds hfirst hlast] at heq
      split at heq
      case isTrue => cases heq
      case isFalse hoverlap =>
        cases heq
        refine ⟨_, _, rfl, rfl, by omega, by dsimp only; omega, ?_⟩
        intro k hk hk'
        rcases hlines (k + start - 1) (by omega) (by omega) with ⟨line, hline, hsourceLine⟩
        refine ⟨line, ?_, ?_⟩
        · have hread := halike.reads window hwindow (k + start - 1) (by omega) (by omega)
            ⟨first, last, hfirst, hlast, by omega, by omega⟩
          have hrow := h.lineAt_row (n := k + start - 1) (by omega) (by omega)
          rw [← hline, hread, ← hrow]
          congr 1
          omega
        · rw [← hsourceLine]
          refine congrArg _ ?_
          dsimp only
          omega
    · intro i hstart hstop hmeets
      exact (hcovered i (by omega) (by omega)).mpr (halike.meets i hstart hstop hmeets)

/-! ## 5. Ranges that are right for all windows -/

/-- No carriage return stands in the rows up to the end of the range; or the range is the empty row
after the last line feed alone, and the line of its number is blank. -/
def RangeClean (payload : Utf16) (start stop : ℕ) : Prop :=
  (∀ row ∈ (lfRows payload).take stop, 13 ∉ row) ∨
    (start = (lfRows payload).length ∧ (lfRows payload).getLast? = some [] ∧
      lineAt (linesOf payload) start = some [])

section Clean

variable {payload : Utf16} {start stop : ℕ}

theorem splitOn_eq_self {row : Utf16} (h : 13 ∉ row) : row.splitOn 13 = [row] := by
  have hsplit : ([13].intercalate [row]).splitOn 13 = [row] :=
    List.splitOn_intercalate 13 (by simpa using h) (by simp)
  simpa using hsplit

theorem splitOn_length_pos (row : Utf16) : 1 ≤ (row.splitOn 13).length :=
  List.length_pos_of_ne_nil (splitOn_ne_nil' 13 row)

/-- A row with a carriage return is more than one line. -/
theorem two_le_splitOn {row : Utf16} (h : 13 ∈ row) : 2 ≤ (row.splitOn 13).length := by
  have hpos := splitOn_length_pos row
  by_contra hlt
  obtain ⟨piece, hpiece⟩ := List.length_eq_one_iff.mp (show (row.splitOn 13).length = 1 by omega)
  have hjoin : [13].intercalate (row.splitOn 13) = row := List.intercalate_splitOn 13
  have hnot : 13 ∉ piece := not_mem_of_mem_splitOn (by rw [hpiece]; exact List.mem_singleton_self _)
  rw [hpiece] at hjoin
  have hsame : piece = row := by simpa using hjoin
  rw [hsame] at hnot
  exact hnot h

/-- No line of a payload has a carriage return in it. -/
theorem not_mem_linesOf {line : Utf16} (h : line ∈ linesOf payload) : 13 ∉ line := by
  have hmem : line ∈ (lfRows payload).flatMap fun row => row.splitOn 13 := by
    rw [flatMap_lfRows]
    exact List.mem_append_left _ h
  rcases List.mem_flatMap.mp hmem with ⟨row, _, hline⟩
  exact not_mem_of_mem_splitOn hline

theorem linesThrough_succ {i : ℕ} {row : Utf16} (h : (lfRows payload)[i]? = some row) :
    linesThrough payload (i + 1) = linesThrough payload i + (row.splitOn 13).length := by
  unfold linesThrough
  rw [List.take_add_one, h, List.flatMap_append, List.length_append]
  simp

/-- Rows without carriage returns are lines. -/
theorem linesThrough_clean {k : ℕ} (h : ∀ row ∈ (lfRows payload).take k, 13 ∉ row) {i : ℕ}
    (hi : i ≤ k) (hlength : i ≤ (lfRows payload).length) : linesThrough payload i = i := by
  induction i with
  | zero => rfl
  | succ i ih =>
    have hrow := List.getElem?_eq_getElem (show i < (lfRows payload).length by omega)
    have hmem : (lfRows payload)[i] ∈ (lfRows payload).take k := by
      rw [List.mem_take_iff_getElem]
      exact ⟨i, by omega, rfl⟩
    rw [linesThrough_succ hrow, ih (by omega) (by omega), splitOn_eq_self (h _ hmem)]
    rfl

theorem le_linesThrough {i : ℕ} (h : i ≤ (lfRows payload).length) :
    i ≤ linesThrough payload i := by
  induction i with
  | zero => exact Nat.zero_le _
  | succ i ih =>
    have hrow := List.getElem?_eq_getElem (show i < (lfRows payload).length by omega)
    have hpos := splitOn_length_pos (lfRows payload)[i]
    rw [linesThrough_succ hrow]
    have hrec := ih (by omega)
    omega

/-- Behind a carriage return the lines are ahead of the rows. -/
theorem lt_linesThrough {r i : ℕ} {row : Utf16} (hrow : (lfRows payload)[r]? = some row)
    (hcr : 13 ∈ row) (hr : r < i) (h : i ≤ (lfRows payload).length) :
    i < linesThrough payload i := by
  induction i with
  | zero => omega
  | succ i ih =>
    have hget := List.getElem?_eq_getElem (show i < (lfRows payload).length by omega)
    rw [linesThrough_succ hget]
    by_cases heq : r = i
    · subst heq
      rw [hget] at hrow
      cases hrow
      have htwo := two_le_splitOn hcr
      have hle : r ≤ linesThrough payload r := le_linesThrough (by omega)
      omega
    · have hrec := ih (by omega) (by omega)
      have hpos := splitOn_length_pos (lfRows payload)[i]
      omega

theorem linesThrough_length :
    linesThrough payload (lfRows payload).length =
      (linesOf payload).length + (if atRowEnd payload then 1 else 0) := by
  unfold linesThrough
  rw [List.take_length, flatMap_lfRows, List.length_append]
  split <;> rfl

theorem linesThrough_mono {i j : ℕ} (h : i ≤ j) :
    linesThrough payload i ≤ linesThrough payload j := by
  unfold linesThrough
  exact ((List.take_prefix_take_left h).flatMap _).length_le

/-- Up to the first carriage return rows and lines of one number are the same. -/
theorem lineAt_clean {k : ℕ} (h : ∀ row ∈ (lfRows payload).take k, 13 ∉ row) {n : ℤ}
    (hn : n ≤ k) (hlines : n ≤ (linesOf payload).length) (hrows : n ≤ (lfRows payload).length) :
    lineAt (linesOf payload) n = lineAt (lfRows payload) n := by
  unfold lineAt
  split
  case isFalse => rfl
  case isTrue hpos =>
    have hall := flatMap_lfRows payload
    have hsplit := List.take_append_drop k (lfRows payload)
    have hfirst : ((lfRows payload).take k).flatMap (fun row => row.splitOn 13) =
        (lfRows payload).take k := by
      have hrow : ∀ row ∈ (lfRows payload).take k, row.splitOn 13 = [row] :=
        fun row hrow => splitOn_eq_self (h row hrow)
      rw [List.flatMap_congr hrow]
      simp
    rw [← hsplit, List.flatMap_append, hfirst] at hall
    have hget := congrArg (fun lines => lines[(n - 1).toNat]?) hall
    rw [List.getElem?_append_left (by rw [List.length_take]; omega),
      List.getElem?_append_left (by omega)] at hget
    rw [← hget, List.getElem?_take_of_lt (by omega)]

/-- A stored source with one window, of one line that is the line of its number. -/
def oneLineEntry (payload : Utf16) (n : ℤ) : StoredSource where
  payloadText := payload
  isSource := true
  sourceWindows := [⟨"a", some n, some n, some n, some n, none, none, none⟩]

def oneLineWindow (n : ℤ) : EvidenceWindow := ⟨"a", n, n, some n, some n, none, none, none⟩

theorem oneLineEntry_windows (payload : Utf16) {n : ℤ} (h : 1 ≤ n) :
    normalizedStoredWindows (oneLineEntry payload n).sourceWindows = [oneLineWindow n] := by
  have hpath : canonicalEvidenceSourcePath "a" = some "a" := by decide +kernel
  have hpos : 0 < n := by omega
  have hbad : ¬ (n < 1 ∨ n < n) := by omega
  have hone : normalizedStoredWindow ⟨"a", some n, some n, some n, some n, none, none, none⟩ =
      some (oneLineWindow n) := by
    unfold normalizedStoredWindow
    dsimp only
    rw [hpath]
    dsimp only
    rw [if_neg hbad]
    simp [hpos, oneLineWindow, presentText]
  rw [normalizedStoredWindows, oneLineEntry, List.filterMap_cons, hone]
  rfl

theorem covers_oneLineWindow {n k : ℤ} : (oneLineWindow n).Covers k ↔ k = n := by
  constructor
  · rintro ⟨first, last, hfirst, hlast, hle, hge⟩
    cases hfirst
    cases hlast
    omega
  · rintro rfl
    exact ⟨k, k, rfl, rfl, le_rfl, le_rfl⟩

theorem correct_oneLineEntry {n : ℤ} (h : 1 ≤ n) (hn : n ≤ (linesOf payload).length) :
    CorrectWindows (oneLineEntry payload n) fun _ => payload := by
  intro window hwindow
  rw [oneLineEntry_windows payload h, List.mem_singleton] at hwindow
  subst hwindow
  refine ⟨n, n, rfl, rfl, le_rfl, by simp [oneLineWindow], ?_⟩
  intro k hk hk'
  obtain rfl : k = n := by omega
  have hline : (k - 1).toNat < (linesOf payload).length := by omega
  refine ⟨(linesOf payload)[(k - 1).toNat], ?_, ?_⟩
  · show lineAt (linesOf payload) k = _
    rw [lineAt_pos h, List.getElem?_eq_getElem hline]
  · have hsame : (oneLineWindow k).sourceStartLine + (k - k) = k := by simp [oneLineWindow]
    rw [hsame, lineAt_pos h, List.getElem?_eq_getElem hline]

/-- The range is right for all right windows of the payload. -/
def AlwaysAlike (payload : Utf16) (start stop : ℕ) : Prop :=
  ∀ (entry : StoredSource) (sources : SourceFile → Utf16), entry.payloadText = payload →
    entry.isSource = true → CorrectWindows entry sources →
      SlicesAlike payload (normalizedStoredWindows entry.sourceWindows) start stop

/-- A window of one line, for a range that is always right. -/
theorem AlwaysAlike.oneLine (h : AlwaysAlike payload start stop) {n : ℤ} (hpos : 1 ≤ n)
    (hn : n ≤ (linesOf payload).length) : SlicesAlike payload [oneLineWindow n] start stop := by
  have halike := h (oneLineEntry payload n) (fun _ => payload) rfl rfl
    (correct_oneLineEntry hpos hn)
  rwa [oneLineEntry_windows payload hpos] at halike

/-- A carriage return in the range is caught by a window of its own line. -/
theorem AlwaysAlike.clean_in_range (h : AlwaysAlike payload start stop) {r : ℕ} {row : Utf16}
    (hrow : (lfRows payload)[r]? = some row) (hcr : 13 ∈ row) (hstart : start ≤ r + 1)
    (hstop : r + 1 ≤ stop) : False := by
  have hlt := (List.getElem?_eq_some_iff.mp hrow).1
  have hthrough := lt_linesThrough hrow hcr (Nat.lt_add_one r) (by omega)
  have hmono := @linesThrough_mono payload (r + 1) (lfRows payload).length (by omega)
  rw [linesThrough_length] at hmono
  have hlines : r + 1 ≤ (linesOf payload).length := by
    split at hmono <;> omega
  have halike := h.oneLine (n := (r : ℤ) + 1) (by omega) (by omega)
  have hread := halike.reads _ (List.mem_singleton_self _) ((r : ℤ) + 1) (by omega) (by omega)
    (covers_oneLineWindow.mpr rfl)
  rw [lineAt_pos (by omega), lineAt_pos (by omega)] at hread
  have hindex : ((r : ℤ) + 1 - 1).toNat = r := by omega
  rw [hindex, hrow] at hread
  exact not_mem_linesOf (List.mem_of_getElem? hread) hcr

/-- A carriage return before the range leaves only the empty row after the last line feed. -/
theorem AlwaysAlike.clean_before (h : AlwaysAlike payload start stop) (hordered : start ≤ stop)
    (hwithin : stop ≤ (lfRows payload).length) {r : ℕ} {row : Utf16}
    (hrow : (lfRows payload)[r]? = some row) (hcr : 13 ∈ row) (hr : r + 1 < start) :
    start = (lfRows payload).length ∧ (lfRows payload).getLast? = some [] ∧
      lineAt (linesOf payload) start = some [] := by
  have hahead := lt_linesThrough hrow hcr (show r < start - 1 by omega) (by omega)
  obtain ⟨first, hget⟩ : ∃ first, (lfRows payload)[start - 1]? = some first :=
    ⟨_, List.getElem?_eq_getElem (by omega)⟩
  have hsucc := linesThrough_succ hget
  have hpos := splitOn_length_pos first
  rw [show start - 1 + 1 = start by omega] at hsucc
  have hmono := @linesThrough_mono payload start (lfRows payload).length (by omega)
  rw [linesThrough_length] at hmono
  by_cases hline : linesThrough payload (start - 1) + 1 ≤ (linesOf payload).length
  · -- the first line of the first row is not in a window of the row's number
    have halike := h.oneLine (n := (linesThrough payload (start - 1) : ℤ) + 1) (by omega) (by omega)
    rcases halike.meets start le_rfl hordered ⟨_, List.mem_singleton_self _,
      linesThrough payload (start - 1) + 1, by omega, by omega,
      covers_oneLineWindow.mpr (by push_cast; rfl)⟩ with ⟨window, hwindow, hcovers⟩
    rw [List.mem_singleton.mp hwindow, covers_oneLineWindow] at hcovers
    omega
  · have hend : atRowEnd payload = true := by
      by_contra hnot
      rw [if_neg hnot] at hmono
      omega
    rw [if_pos hend] at hmono
    have hlast : start = (lfRows payload).length := by
      by_contra hne
      have hnext := List.getElem?_eq_getElem (show start < (lfRows payload).length by omega)
      have hnextPos := splitOn_length_pos (lfRows payload)[start]
      have hmore := @linesThrough_mono payload (start + 1) (lfRows payload).length (by omega)
      rw [linesThrough_length, if_pos hend, linesThrough_succ hnext] at hmore
      omega
    have hempty : first = [] := by
      -- its one line is the empty one after the last line's end
      have hall := flatMap_lfRows payload
      have hsplit : lfRows payload = (lfRows payload).take (start - 1) ++ [first] := by
        have htake := List.take_add_one (l := lfRows payload) (i := start - 1)
        rw [hget, show start - 1 + 1 = start by omega, List.take_of_length_le hlast.ge] at htake
        exact htake
      rw [if_pos hend, hsplit, List.flatMap_append, List.flatMap_singleton] at hall
      have hpiece := (List.append_inj' hall (by rw [List.length_singleton]; omega)).2
      have hjoin : [13].intercalate (first.splitOn 13) = first := List.intercalate_splitOn 13
      rw [hpiece] at hjoin
      exact hjoin.symm
    have hrowStart : (lfRows payload).getLast? = some [] := by
      rw [List.getLast?_eq_getElem?, ← hlast, hget, hempty]
    refine ⟨hlast, hrowStart, ?_⟩
    have halike := h.oneLine (n := start) (by omega) (by omega)
    have hread := halike.reads _ (List.mem_singleton_self _) start le_rfl (by omega)
      (covers_oneLineWindow.mpr rfl)
    rw [hread, lineAt_pos (by omega), show ((start : ℤ) - 1).toNat = start - 1 by omega, hget,
      hempty]

/-- A clean range is right for all windows. -/
theorem slicesAlike_of_clean (hwithin : stop ≤ (lfRows payload).length) (hstart : 1 ≤ start)
    (hordered : start ≤ stop) (h : RangeClean payload start stop) :
    AlwaysAlike payload start stop := by
  intro entry sources hpayload _ hcorrect
  have hwindow : ∀ window ∈ normalizedStoredWindows entry.sourceWindows, ∀ n : ℤ,
      window.Covers n → n ≤ (linesOf payload).length := by
    intro window hmem n hcovers
    rcases hcorrect window hmem with ⟨first, last, hfirst, hlast, _, _, hlines⟩
    rcases hcovers with ⟨first', last', hfirst', hlast', hle, hge⟩
    rw [hfirst] at hfirst'
    rw [hlast] at hlast'
    cases hfirst'
    cases hlast'
    rcases hlines n hle hge with ⟨line, hline, _⟩
    rw [hpayload] at hline
    exact (lineAt_some hline).2
  rcases h with hclean | ⟨hlast, hempty, hblank⟩
  · refine ⟨?_, ?_⟩
    · intro window hmem n hn hn' hcovers
      exact lineAt_clean hclean hn' (hwindow window hmem n hcovers) (by omega)
    · rintro i hi hi' ⟨window, hmem, n, hlow, hhigh, hcovers⟩
      rw [linesThrough_clean hclean (by omega) (by omega)] at hlow hhigh
      refine ⟨window, hmem, ?_⟩
      obtain rfl : n = i := by omega
      exact hcovers
  · have hrow : (lfRows payload)[start - 1]? = some [] := by
      rw [hlast, ← List.getLast?_eq_getElem?]
      exact hempty
    refine ⟨?_, ?_⟩
    · intro window hmem n hn hn' hcovers
      obtain rfl : n = start := by omega
      rw [hblank, lineAt_pos (by omega), show ((start : ℤ) - 1).toNat = start - 1 by omega, hrow]
    · rintro i hi hi' ⟨window, hmem, n, hlow, hhigh, hcovers⟩
      -- the row after the last line feed has no line of its own
      obtain rfl : i = start := by omega
      have hsucc := linesThrough_succ hrow
      rw [show i - 1 + 1 = i by omega] at hsucc
      have hlength := @linesThrough_length payload
      rw [← hlast] at hlength
      have hone : (List.splitOn 13 ([] : Utf16)).length = 1 := rfl
      have hn := hwindow window hmem n hcovers
      cases hend : atRowEnd payload with
      | true =>
        rw [if_pos hend] at hlength
        omega
      | false =>
        have hall := flatMap_lfRows payload
        rw [hend, if_neg (by simp), List.append_nil] at hall
        have hne := getLast?_linesOf_ne hend
        rw [← hall] at hne
        obtain ⟨rows, hrows⟩ := List.getLast?_eq_some_iff.mp hempty
        rw [hrows, List.flatMap_append] at hne
        exact absurd (by simp) hne

/-- **For which ranges the windows are right whatever they are.** -/
theorem correct_slices_iff {sliced : Sliced} (h : IsLineSlice payload sliced start stop) :
    AlwaysAlike payload start stop ↔ RangeClean payload start stop := by
  constructor
  · intro halways
    by_cases hclean : ∀ row ∈ (lfRows payload).take stop, 13 ∉ row
    · exact Or.inl hclean
    · right
      push Not at hclean
      rcases hclean with ⟨row, hmem, hcr⟩
      rcases List.mem_take_iff_getElem.mp hmem with ⟨r, hr, hrow⟩
      have hget : (lfRows payload)[r]? = some row := by
        rw [List.getElem?_eq_getElem (by omega), hrow]
      by_cases hrange : start ≤ r + 1
      · exact (halways.clean_in_range hget hcr hrange (by omega)).elim
      · exact halways.clean_before h.ordered h.within hget hcr (by omega)
  · intro hclean
    exact slicesAlike_of_clean h.within h.pos h.ordered hclean

end Clean

/-! ## 6. The claim of a slice -/

/-- **What a line slice cites.** For given right windows of the source, the windows of the slice
name source lines that read as its lines, and no line of it is left out, exactly when rows and lines
of one number are the same within the range as far as the windows go; and they do so for all right
windows of a payload exactly when no carriage return stands alone in the rows up to the end of the
range, or the range is the empty row after the last line feed and the line of that number is
blank. -/
theorem line_slice_exact {payload : Utf16} {item : SliceItem} {sliced : Sliced} {start stop : ℕ}
    (h : sliceSourcePayload payload item = .ok sliced)
    (hline : sliced.lineSlice = some (start, stop)) :
    (∀ (entry : StoredSource) (sources : SourceFile → Utf16), entry.payloadText = payload →
      entry.isSource = true → CorrectWindows entry sources →
        (SliceCited entry sources sliced start stop ↔
          SlicesAlike payload (normalizedStoredWindows entry.sourceWindows) start stop)) ∧
    ((∀ (entry : StoredSource) (sources : SourceFile → Utf16), entry.payloadText = payload →
      entry.isSource = true → CorrectWindows entry sources →
        SliceCited entry sources sliced start stop) ↔ RangeClean payload start stop) := by
  have hslice := isLineSlice_of_slice h hline
  have hiff : ∀ (entry : StoredSource) (sources : SourceFile → Utf16), entry.payloadText = payload →
      entry.isSource = true → CorrectWindows entry sources →
        (SliceCited entry sources sliced start stop ↔
          SlicesAlike payload (normalizedStoredWindows entry.sourceWindows) start stop) := by
    rintro entry sources rfl hsource hcorrect
    exact sliceCited_iff hslice hsource hcorrect
  refine ⟨hiff, ?_⟩
  rw [← correct_slices_iff hslice]
  constructor
  · intro hall entry sources hpayload hsource hcorrect
    exact (hiff entry sources hpayload hsource hcorrect).mp
      (hall entry sources hpayload hsource hcorrect)
  · intro hall entry sources hpayload hsource hcorrect
    exact (hiff entry sources hpayload hsource hcorrect).mpr
      (hall entry sources hpayload hsource hcorrect)

/-- Two lines ended by a carriage return and a line feed, and the second of them. -/
theorem line_slice_exact_crlf :
    SliceCited (oneLineEntry (units "a\r\nb\n") 2) (fun _ => units "a\r\nb\n")
      { text := units "b", slice := some "lines:2-2", lineSlice := some (2, 2) } 2 2 := by
  have hslice : sliceSourcePayload (units "a\r\nb\n") { lines := "2-2" } = .ok
      { text := units "b", slice := some "lines:2-2", lineSlice := some (2, 2) } := by
    decide +kernel
  have hlines : (2 : ℤ) ≤ (linesOf (units "a\r\nb\n")).length := by decide +kernel
  have hclean : RangeClean (units "a\r\nb\n") 2 2 := Or.inl (by decide +kernel)
  exact (line_slice_exact hslice rfl).2.mpr hclean _ _ rfl rfl
    (correct_oneLineEntry (by decide) hlines)

/-- The source `a`, `b`, `c`, the first line ended by a lone carriage return, as one window. -/
def loneReturnEntry : StoredSource where
  payloadText := units "a\rb\nc\n"
  isSource := true
  sourceWindows := [⟨"a.js", some 1, some 3, some 1, some 3, none, none, some "raw_source_lines"⟩]

/-- Its second row is its third line, and is cited as the second. -/
theorem lone_return_miscites :
    CorrectWindows loneReturnEntry (fun _ => units "a\rb\nc\n") ∧
    ∃ sliced, sliceSourcePayload loneReturnEntry.payloadText { lines := "2-2" } = .ok sliced ∧
      sliced.lineSlice = some (2, 2) ∧
      ¬ SliceCited loneReturnEntry (fun _ => units "a\rb\nc\n") sliced 2 2 := by
  refine ⟨?_, { text := units "c", slice := some "lines:2-2", lineSlice := some (2, 2) }, ?_, rfl,
    ?_⟩
  · have hwindows : normalizedStoredWindows loneReturnEntry.sourceWindows =
        [⟨"a.js", 1, 3, some 1, some 3, none, none, some "raw_source_lines"⟩] := by
      decide +kernel
    intro window hwindow
    rw [hwindows, List.mem_singleton] at hwindow
    subst hwindow
    refine ⟨1, 3, rfl, rfl, by decide, by decide, ?_⟩
    intro n hn hn'
    have hcases : n = 1 ∨ n = 2 ∨ n = 3 := by omega
    rcases hcases with rfl | rfl | rfl
    · exact ⟨units "a", by decide +kernel, by decide +kernel⟩
    · exact ⟨units "b", by decide +kernel, by decide +kernel⟩
    · exact ⟨units "c", by decide +kernel, by decide +kernel⟩
  · decide +kernel
  · intro hcited
    have hwindow : (⟨"a.js", 2, 2, some 1, some 1, none, none, some "raw_source_lines"⟩ :
        EvidenceWindow) ∈ sliceWindows loneReturnEntry
          { text := units "c", slice := some "lines:2-2", lineSlice := some (2, 2) } := by
      decide +kernel
    rcases hcited.cites _ hwindow with ⟨first, last, hfirst, hlast, _, _, hlines⟩
    cases hfirst
    cases hlast
    rcases hlines 1 le_rfl le_rfl with ⟨line, hrow, hsource⟩
    have hrowLine : lineAt ((units "c").splitOn 10) 1 = some (units "c") := by decide +kernel
    have hsourceLine : lineAt (linesOf (units "a\rb\nc\n")) 2 = some (units "b") := by
      decide +kernel
    rw [hrowLine] at hrow
    cases hrow
    have hsource : lineAt (linesOf (units "a\rb\nc\n")) 2 = some (units "c") := hsource
    rw [hsourceLine] at hsource
    exact absurd hsource (by decide)

end PosseClient
