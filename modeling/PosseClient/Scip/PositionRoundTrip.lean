/-
# SCIP ranges are converted exactly

The encoding of offsets as SCIP positions, and the conversion back: a line is found in the table at
the count of the line feeds before it, its text is what stands around the offset, and a column
counts the part before the offset in each of the three encodings.

* `charOffsetToJs_append`: the column of a cut at a boundary leads back to the cut.
* `lineStarts_at`: the line table at a cut.
* `clampOffset_encoded`: one position.
* `scip_range_round_trip`: ranges, and the bounds of every result.
-/
import PosseClient.Scip.Positions

namespace PosseClient

open CodePoints Json

/-! ## 1. Columns -/

theorem utf8Scan_append (length : ℕ) (before after : List Utf16) (byteOffset bytes i : ℕ)
    (hoffset : byteOffset = bytes + (before.map utf8Width).sum)
    (hlength : length = i + (before ++ after).flatten.length) :
    utf8Scan byteOffset length (before ++ after) bytes i = i + before.flatten.length := by
  induction before generalizing bytes i with
  | nil =>
    cases after with
    | nil => simpa [utf8Scan] using hlength
    | cons point after =>
      have hpos := utf8Width_pos point
      have hlt : byteOffset < bytes + utf8Width point := by
        simp only [List.map_nil, List.sum_nil] at hoffset
        omega
      simp [utf8Scan, hlt]
  | cons point before ih =>
    simp only [List.map_cons, List.sum_cons] at hoffset
    have hge : ¬ byteOffset < bytes + utf8Width point := by omega
    rw [List.cons_append, utf8Scan, if_neg hge, ih (bytes + utf8Width point) (i + point.length)
      (by omega) (by
        simp only [List.cons_append, List.flatten_cons, List.length_append] at hlength ⊢
        omega)]
    simp only [List.flatten_cons, List.length_append]
    omega

theorem utf32Scan_append (length : ℕ) (before after : List Utf16) (codePointOffset seen i : ℕ)
    (hoffset : codePointOffset = seen + before.length)
    (hlength : length = i + (before ++ after).flatten.length) :
    utf32Scan codePointOffset length (before ++ after) seen i = i + before.flatten.length := by
  induction before generalizing seen i with
  | nil =>
    cases after with
    | nil => simpa [utf32Scan] using hlength
    | cons point after =>
      have hle : codePointOffset ≤ seen := by simpa using hoffset.le
      simp [utf32Scan, hle]
  | cons point before ih =>
    rw [List.length_cons] at hoffset
    have hgt : ¬ codePointOffset ≤ seen := by omega
    rw [List.cons_append, utf32Scan, if_neg hgt, ih (seen + 1) (i + point.length) (by omega)
      (by simp only [List.cons_append, List.flatten_cons, List.length_append] at hlength ⊢; omega)]
    simp only [List.flatten_cons, List.length_append]
    omega

variable {before after : Utf16} {positionEncoding : ℕ}

/-- **A column leads back to its cut.** -/
theorem charOffsetToJs_append (h : Boundary before after) :
    charOffsetToJs (before ++ after) (encodedLineLength before positionEncoding) positionEncoding =
      before.length := by
  have hpoints := codePoints_append h
  have hlength : (before ++ after).length =
      0 + (codePoints before ++ codePoints after).flatten.length := by
    rw [← hpoints, codePoints_flatten, zero_add]
  unfold charOffsetToJs encodedLineLength
  split_ifs
  · rw [utf8ByteOffsetToJs, hpoints, utf8Scan_append _ _ _ _ _ _ (by rw [zero_add]; rfl) hlength,
      codePoints_flatten, zero_add]
  · rw [utf32CodePointOffsetToJs, hpoints,
      utf32Scan_append _ _ _ _ _ _ (by rw [zero_add]) hlength, codePoints_flatten, zero_add]
  · rw [List.length_append]
    omega

/-- A part of a line is no longer than the line, in each encoding. -/
theorem encodedLineLength_append_le (h : Boundary before after) :
    encodedLineLength before positionEncoding ≤
      encodedLineLength (before ++ after) positionEncoding := by
  unfold encodedLineLength
  split_ifs
  · rw [utf8Length_append h]
    omega
  · rw [length_codePoints_append h]
    omega
  · rw [List.length_append]
    omega

theorem encodedLineLength_le (text : Utf16) (positionEncoding : ℕ) :
    encodedLineLength text positionEncoding ≤ 3 * text.length := by
  have hutf8 := utf8Length_le text
  have hutf32 := length_codePoints_le text
  unfold encodedLineLength
  split_ifs <;> omega

/-! ## 2. The line table -/

theorem lineStartsFrom_append (i : ℕ) (a b : Utf16) :
    lineStartsFrom i (a ++ b) = lineStartsFrom i a ++ lineStartsFrom (i + a.length) b := by
  induction a generalizing i with
  | nil => rfl
  | cons u a ih =>
    have hshift : i + (u :: a).length = i + 1 + a.length := by
      rw [List.length_cons]
      omega
    rw [hshift]
    simp only [List.cons_append, lineStartsFrom, ih]
    split_ifs <;> rfl

theorem length_lineStartsFrom (i : ℕ) (text : Utf16) :
    (lineStartsFrom i text).length = text.count 10 := by
  induction text generalizing i with
  | nil => rfl
  | cons u text ih =>
    simp only [lineStartsFrom, List.count_cons, beq_iff_eq]
    split_ifs <;> simp [ih]

theorem lineStartsFrom_of_not_mem {text : Utf16} (h : 10 ∉ text) (i : ℕ) :
    lineStartsFrom i text = [] := by
  rw [← List.length_eq_zero_iff, length_lineStartsFrom]
  exact List.count_eq_zero.mpr h

/-- The lines up to a line start: the last of them starts there. -/
theorem lineStarts_of_ended {text : Utf16} (h : text = [] ∨ text.getLast? = some 10) :
    ∃ earlier, 0 :: lineStartsFrom 0 text = earlier ++ [text.length] ∧
      earlier.length = text.count 10 := by
  rcases h with rfl | hlast
  · exact ⟨[], rfl, rfl⟩
  · obtain ⟨front, rfl⟩ := List.getLast?_eq_some_iff.mp hlast
    refine ⟨0 :: lineStartsFrom 0 front, ?_, ?_⟩
    · rw [lineStartsFrom_append]
      simp [lineStartsFrom]
    · rw [List.length_cons, length_lineStartsFrom]
      simp

/-- A source text around a cut: the lines before, the two parts of the line of the cut, and what
follows the line. -/
structure LineCut (source lines before after rest : Utf16) : Prop where
  eq : source = lines ++ before ++ (after ++ rest)
  ended : lines = [] ∨ lines.getLast? = some 10
  before : 10 ∉ before
  after : 10 ∉ after
  rest : rest = [] ∨ rest.head? = some 10

variable {source lines rest : Utf16}

theorem LineCut.buildLineStarts (h : LineCut source lines before after rest) :
    ∃ earlier, PosseClient.buildLineStarts source = earlier ++ [lines.length] ++
        lineStartsFrom (lines.length + before.length + after.length) rest ∧
      earlier.length = lines.count 10 := by
  obtain ⟨earlier, hearlier, hcount⟩ := lineStarts_of_ended h.ended
  refine ⟨earlier, ?_, hcount⟩
  rw [PosseClient.buildLineStarts, h.eq, lineStartsFrom_append, lineStartsFrom_append,
    lineStartsFrom_append, lineStartsFrom_of_not_mem h.before, lineStartsFrom_of_not_mem h.after,
    ← hearlier]
  simp

/-- **The line table at a cut**: the line starts after the lines before it, and its text is what
stands around the cut. -/
theorem LineCut.lineStarts_at (h : LineCut source lines before after rest) :
    lines.count 10 < (PosseClient.buildLineStarts source).length ∧
      (PosseClient.buildLineStarts source).getD (lines.count 10) 0 = lines.length ∧
      lineTextAt (PosseClient.buildLineStarts source) source (lines.count 10) =
        before ++ after := by
  obtain ⟨earlier, htable, hcount⟩ := h.buildLineStarts
  have hstart : (PosseClient.buildLineStarts source).getD (lines.count 10) 0 = lines.length := by
    rw [htable, ← hcount]
    simp
  have htake :
      (source.drop lines.length).take (before.length + after.length) = before ++ after := by
    have hsplit : source = lines ++ ((before ++ after) ++ rest) := by
      rw [h.eq]
      simp
    rw [hsplit, List.drop_left, ← List.length_append, List.take_left]
  refine ⟨?_, hstart, ?_⟩
  · rw [htable, ← hcount]
    simp
  · unfold lineTextAt
    rw [hstart]
    rcases h.rest with hrest | hrest
    · -- the last line
      have hlast : ¬ lines.count 10 + 1 < (PosseClient.buildLineStarts source).length := by
        rw [htable, ← hcount, hrest]
        simp [lineStartsFrom]
      have hend : source.length - lines.length = before.length + after.length := by
        rw [h.eq, hrest]
        simp only [List.length_append, List.length_nil]
        omega
      dsimp only
      rw [if_neg hlast, hend]
      exact htake
    · obtain ⟨tail, rfl⟩ := List.head?_eq_some_iff.mp hrest
      have hnext : (PosseClient.buildLineStarts source).getD (lines.count 10 + 1) 0 =
          lines.length + before.length + after.length + 1 := by
        rw [htable, ← hcount]
        simp [lineStartsFrom]
      have hmore : lines.count 10 + 1 < (PosseClient.buildLineStarts source).length := by
        rw [htable, ← hcount]
        simp [lineStartsFrom]
      have hend : max lines.length (lines.length + before.length + after.length + 1 - 1) -
          lines.length = before.length + after.length := by omega
      dsimp only
      rw [if_pos hmore, hnext, hend]
      exact htake

/-! ## 3. Positions -/

/-- The offset does not stand inside a code point. -/
def IsCharBoundary (source : Utf16) (offset : ℕ) : Prop :=
  Boundary (source.take offset) (source.drop offset)

instance (source : Utf16) (offset : ℕ) : Decidable (IsCharBoundary source offset) :=
  inferInstanceAs (Decidable (Boundary _ _))

/-- The line of an offset, counted from zero. -/
def scipLine (source : Utf16) (offset : ℕ) : ℕ := (source.take offset).count 10

/-- The part of its line before an offset. -/
def lineBefore (source : Utf16) (offset : ℕ) : Utf16 :=
  (source.take offset).rtakeWhile fun u => decide (u ≠ 10)

/-- The column of an offset in a position encoding. -/
def scipChar (source : Utf16) (offset positionEncoding : ℕ) : ℕ :=
  encodedLineLength (lineBefore source offset) positionEncoding

/-- The SCIP ranges of two offsets: the long form, and the short form on one line. -/
def scipRanges (source : Utf16) (start stop positionEncoding : ℕ) : List (List ℤ) :=
  let long : List ℤ := [scipLine source start, scipChar source start positionEncoding,
    scipLine source stop, scipChar source stop positionEncoding]
  if scipLine source start = scipLine source stop then
    [long, [scipLine source start, scipChar source start positionEncoding,
      scipChar source stop positionEncoding]]
  else [long]

variable {offset start stop : ℕ}

/-- Every offset cuts its line. -/
theorem exists_lineCut (hoffset : offset ≤ source.length)
    (hboundary : IsCharBoundary source offset) :
    ∃ lines after rest, LineCut source lines (lineBefore source offset) after rest ∧
      lines.length + (lineBefore source offset).length = offset ∧
      lines.count 10 = scipLine source offset ∧
      Boundary (lineBefore source offset) after := by
  have hfront : (source.take offset).rdropWhile (fun u => decide (u ≠ 10)) ++
      lineBefore source offset = source.take offset := List.rdropWhile_append_rtakeWhile
  have hback : (source.drop offset).takeWhile (fun u => decide (u ≠ 10)) ++
      (source.drop offset).dropWhile (fun u => decide (u ≠ 10)) = source.drop offset :=
    List.takeWhile_append_dropWhile
  have hbefore : 10 ∉ lineBefore source offset := by
    intro hmem
    have hne := List.mem_rtakeWhile_imp hmem
    simp at hne
  have hafter : 10 ∉ (source.drop offset).takeWhile fun u => decide (u ≠ 10) := by
    intro hmem
    have hne := List.mem_takeWhile_imp hmem
    simp at hne
  refine ⟨(source.take offset).rdropWhile fun u => decide (u ≠ 10),
    (source.drop offset).takeWhile fun u => decide (u ≠ 10),
    (source.drop offset).dropWhile fun u => decide (u ≠ 10), ⟨?_, ?_, hbefore, hafter, ?_⟩,
    ?_, ?_, ?_⟩
  · rw [hfront, hback, List.take_append_drop]
  · by_cases hne : (source.take offset).rdropWhile (fun u => decide (u ≠ 10)) = []
    · exact Or.inl hne
    · have hlast := List.rdropWhile_last_not _ _ hne
      rw [decide_eq_true_eq, not_not] at hlast
      exact Or.inr (by rw [List.getLast?_eq_some_getLast hne, hlast])
  · cases hdrop : (source.drop offset).dropWhile fun u => decide (u ≠ 10) with
    | nil => exact Or.inl rfl
    | cons u rest =>
      have hhead := List.head?_dropWhile_not (fun u => decide (u ≠ 10)) (source.drop offset)
      simp only [hdrop, List.head?_cons, decide_eq_false_iff_not, not_not] at hhead
      exact Or.inr (by rw [List.head?_cons, hhead])
  · rw [← List.length_append, hfront, List.length_take, min_eq_left hoffset]
  · rw [scipLine]
    conv_rhs => rw [← hfront]
    rw [List.count_append, List.count_eq_zero.mpr hbefore, add_zero]
  · intro u hu v hv
    refine hboundary u ?_ v ?_
    · rw [← hfront]
      exact List.mem_getLast?_append_of_mem_getLast? hu
    · rw [← hback]
      exact List.mem_head?_append_of_mem_head? hv

/-- **One position** leads back to its offset. -/
theorem clampOffset_encoded (hoffset : offset ≤ source.length)
    (hboundary : IsCharBoundary source offset) (positionEncoding : ℕ) :
    clampOffset (buildLineStarts source) source (scipLine source offset)
      (scipChar source offset positionEncoding) positionEncoding = (offset, false) := by
  obtain ⟨lines, after, rest, hcut, hlength, hline, hmeet⟩ := exists_lineCut hoffset hboundary
  obtain ⟨hlt, hstart, htext⟩ := hcut.lineStarts_at
  have hnonneg : ¬ (scipLine source offset : ℤ) < 0 := by omega
  have hlines : ¬ (buildLineStarts source).length ≤ (scipLine source offset : ℤ).toNat := by
    rw [Int.toNat_natCast, ← hline]
    omega
  have hchar : ¬ (scipChar source offset positionEncoding : ℤ) < 0 := by omega
  have hlimit : ¬ encodedLineLength (lineBefore source offset ++ after) positionEncoding <
      scipChar source offset positionEncoding :=
    not_lt.mpr (encodedLineLength_append_le hmeet)
  unfold clampOffset
  rw [if_neg hnonneg, if_neg hlines]
  simp only [Int.toNat_natCast, ← hline, htext, hstart, hchar, hlimit, decide_false, Bool.or_self]
  rw [scipChar, charOffsetToJs_append hmeet, hlength, min_eq_left hoffset]

/-- Numbers of 31 bits are kept by `n | 0`. -/
theorem toInt32_natCast {n : ℕ} (h : n < 2 ^ 31) : toInt32 n = n := by
  unfold toInt32
  norm_num at h ⊢
  omega

/-- Where a conversion ends up, whatever the positions. -/
theorem clampOffset_le (lineStarts : List ℕ) (source : Utf16) (line char : ℤ) (encoding : ℕ) :
    (clampOffset lineStarts source line char encoding).1 ≤ source.length := by
  unfold clampOffset
  split_ifs
  · exact Nat.zero_le _
  · exact le_rfl
  · exact min_le_right _ _

theorem jsRangeOf_bounds (source : Utf16) (lineStarts : List ℕ) (encoding : ℕ)
    (startLine startChar endLine endChar : ℤ) :
    (jsRangeOf source lineStarts encoding startLine startChar endLine endChar).start ≤
        (jsRangeOf source lineStarts encoding startLine startChar endLine endChar).stop ∧
      (jsRangeOf source lineStarts encoding startLine startChar endLine endChar).stop ≤
        source.length := by
  have hstart := clampOffset_le lineStarts source startLine startChar encoding
  have hstop := clampOffset_le lineStarts source endLine endChar encoding
  unfold jsRangeOf
  dsimp only
  omega

/-- **SCIP ranges are converted exactly.**  For every source text and position encoding, the ranges
of two offsets on character boundaries are converted back to the offsets, with their lines counted
from one and nothing clamped; and every list of integers gives a range inside the text. -/
theorem scip_range_round_trip (source : SourceText) (positionEncoding : ℕ) :
    (∀ start stop, start ≤ stop → stop ≤ source.units.length →
      IsCharBoundary source.units start → IsCharBoundary source.units stop →
      ∀ range ∈ scipRanges source.units start stop positionEncoding,
        scipRangeToJs range source.units (buildLineStarts source.units) positionEncoding =
          { start := start, stop := stop
            rangeStartLine := scipLine source.units start + 1
            rangeEndLine := scipLine source.units stop + 1, clamped := false }) ∧
    ∀ range : List ℤ,
      (scipRangeToJs range source.units (buildLineStarts source.units) positionEncoding).start ≤
          (scipRangeToJs range source.units (buildLineStarts source.units) positionEncoding).stop ∧
        (scipRangeToJs range source.units (buildLineStarts source.units) positionEncoding).stop ≤
          source.units.length := by
  have hshort := source.short
  unfold maxStringLength at hshort
  have hline : ∀ offset, toInt32 (scipLine source.units offset) = scipLine source.units offset := by
    intro offset
    refine toInt32_natCast ?_
    have hcount := List.count_le_length (a := 10) (l := source.units.take offset)
    rw [List.length_take] at hcount
    unfold scipLine
    omega
  have hchar : ∀ offset, toInt32 (scipChar source.units offset positionEncoding) =
      scipChar source.units offset positionEncoding := by
    intro offset
    refine toInt32_natCast ?_
    have hle := encodedLineLength_le (lineBefore source.units offset) positionEncoding
    have hpart : (lineBefore source.units offset).length ≤ (source.units.take offset).length :=
      (List.rtakeWhile_suffix _ _).length_le
    rw [List.length_take] at hpart
    unfold scipChar
    omega
  refine ⟨fun start stop hle hstop hbstart hbstop range hrange => ?_, fun range => ?_⟩
  · have hfrom := clampOffset_encoded (hle.trans hstop) hbstart positionEncoding
    have hto := clampOffset_encoded hstop hbstop positionEncoding
    have hpair : jsRangeOf source.units (buildLineStarts source.units) positionEncoding
        (scipLine source.units start) (scipChar source.units start positionEncoding)
        (scipLine source.units stop) (scipChar source.units stop positionEncoding) =
          { start := start, stop := stop
            rangeStartLine := scipLine source.units start + 1
            rangeEndLine := scipLine source.units stop + 1, clamped := false } := by
      unfold jsRangeOf
      rw [hfrom, hto]
      simp [hle, hstop, hle.trans hstop]
    unfold scipRanges at hrange
    dsimp only at hrange
    split_ifs at hrange with hsame
    · rcases List.mem_cons.mp hrange with rfl | hrange
      · simp only [scipRangeToJs, hline, hchar]
        exact hpair
      · rw [List.mem_singleton.mp hrange]
        simp only [scipRangeToJs, hline, hchar]
        rw [← hsame] at hpair ⊢
        exact hpair
    · rw [List.mem_singleton.mp hrange]
      simp only [scipRangeToJs, hline, hchar]
      exact hpair
  · unfold scipRangeToJs
    split
    · exact jsRangeOf_bounds _ _ _ _ _ _ _
    · exact jsRangeOf_bounds _ _ _ _ _ _ _
    · exact ⟨le_rfl, Nat.zero_le _⟩

/-- A letter, an astral character and a second line. -/
def astralSource : SourceText :=
  { units := [97, 0xD83D, 0xDE00, 13, 10, 98], short := by decide }

/-- The astral character takes four bytes of its line. -/
theorem scip_range_round_trip_astral :
    scipRangeToJs [0, 1, 5] astralSource.units (buildLineStarts astralSource.units) 1 =
      { start := 1, stop := 3, rangeStartLine := 1, rangeEndLine := 1, clamped := false } :=
  (scip_range_round_trip astralSource 1).1 1 3 (by decide) (by decide) (by decide) (by decide) _
    (by decide)

end PosseClient
