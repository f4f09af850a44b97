/-
# Citations of source lines

Slices of a file, put into one payload and read back by pages: a line that is cited is the source line.

* `linesOf`: the lines of a text, without their terminators.  `textLines` and `rawPayloadLineSpans` count
  the same (`textLines_eq`, `rawPayloadLineSpans_eq`).
* `SameLines`: a window's lines of a text are its lines of the source.  Each window of the payload has
  this (`payloadInv_foldl`), and each window of a page (`sameLines_page`).
* **Every citation is sound**: of windows of the payload, of a page, and of the numbers in its display.
-/
import PosseClient.HashRefs.SourceWindows

namespace PosseClient

open Json Rows

/-! ## 1. Lines of a text -/

/-- A row without its terminator. -/
def lineOf (row : Utf16) : Utf16 := row.takeWhile fun u => !isTerminator u

/-- The lines of a text. -/
def linesOf (text : Utf16) : List Utf16 := (sourceRows text).map lineOf

section Lines

variable {u : ℕ} {rest text : Utf16}

theorem looksAhead_endsSourceRow : LooksAhead endsSourceRow where
  next := fun _ _ _ _ => rfl
  last := fun u rest h => by
    rw [endsSourceRow] at h ⊢
    simp only [Bool.or_eq_true, Bool.and_eq_true] at h
    rcases h with h | ⟨h, -⟩
    · simp [h]
    · simp [h]

theorem isTerminator_of_ends (h : endsSourceRow u rest = true) : isTerminator u = true := by
  simp only [endsSourceRow, Bool.or_eq_true, Bool.and_eq_true] at h
  simp only [isTerminator, Bool.or_eq_true]
  exact h.imp id And.left

theorem ends_of_isTerminator (h : isTerminator u = true) (hnext : rest.head? ≠ some 10) :
    endsSourceRow u rest = true := by
  simp only [isTerminator, Bool.or_eq_true] at h
  simp only [endsSourceRow, Bool.or_eq_true, Bool.and_eq_true, bne_iff_ne]
  exact h.imp id fun hcr => ⟨hcr, hnext⟩

theorem lineOf_cons {row : Utf16} :
    lineOf (u :: row) = if isTerminator u then [] else u :: lineOf row := by
  unfold lineOf
  rw [List.takeWhile_cons]
  cases isTerminator u <;> simp

theorem lineOf_singleton : lineOf [u] = if isTerminator u then [] else [u] := lineOf_cons

@[simp] theorem linesOf_nil : linesOf [] = [] := rfl

theorem linesOf_eq_nil_iff : linesOf text = [] ↔ text = [] := by
  rw [linesOf, List.map_eq_nil_iff, sourceRows, rowsBy_eq_nil_iff]

theorem length_linesOf (text : Utf16) : (linesOf text).length = (sourceRows text).length :=
  List.length_map ..

/-- The lines of a text, unit by unit. -/
theorem linesOf_cons_of_ends (h : endsSourceRow u rest = true) :
    linesOf (u :: rest) = [] :: linesOf rest := by
  rw [linesOf, sourceRows, rowsBy_cons_of_ends h, List.map_cons, lineOf_singleton,
    if_pos (isTerminator_of_ends h)]
  rfl

theorem linesOf_cons_of_not_ends (h : endsSourceRow u rest = false) (hrest : rest ≠ []) :
    ∃ line lines, linesOf rest = line :: lines ∧
      linesOf (u :: rest) = (if isTerminator u then [] else u :: line) :: lines := by
  cases hrows : rowsBy endsSourceRow rest with
  | nil => exact absurd (rowsBy_eq_nil_iff.mp hrows) hrest
  | cons row rows =>
    refine ⟨lineOf row, rows.map lineOf, ?_, ?_⟩
    · rw [linesOf, sourceRows, hrows, List.map_cons]
    · rw [linesOf, sourceRows, rowsBy_cons_of_not_ends h, hrows]
      simp only [List.map_cons, lineOf_cons]

theorem linesOf_singleton : linesOf [u] = [if isTerminator u then [] else [u]] := by
  cases h : endsSourceRow u [] with
  | true => rw [linesOf_cons_of_ends h, if_pos (isTerminator_of_ends h), linesOf_nil]
  | false =>
    rw [linesOf, sourceRows, rowsBy_cons_of_not_ends h]
    simp [rowsBy, lineOf_singleton]

/-- **The first line** of a text is what stands before its first terminator. -/
theorem head?_linesOf (h : text ≠ []) : (linesOf text).head? = some (lineOf text) := by
  induction text with
  | nil => exact absurd rfl h
  | cons u rest ih =>
    rw [lineOf_cons]
    cases hends : endsSourceRow u rest with
    | true =>
      rw [linesOf_cons_of_ends hends, if_pos (isTerminator_of_ends hends)]
      rfl
    | false =>
      by_cases hrest : rest = []
      · subst hrest
        rw [linesOf_singleton]
        rfl
      · obtain ⟨line, lines, hlines, hcons⟩ := linesOf_cons_of_not_ends hends hrest
        have hline : line = lineOf rest := by
          have hhead := ih hrest
          rw [hlines] at hhead
          exact Option.some.inj hhead
        rw [hcons, hline]
        rfl

/-- A line feed after the last row changes no line. -/
theorem linesOf_concat_newline (hne : text ≠ []) (hlast : text.getLast? ≠ some 10) :
    linesOf (text ++ [10]) = linesOf text := by
  have hten : isTerminator 10 = true := rfl
  induction text with
  | nil => exact absurd rfl hne
  | cons u rest ih =>
    cases rest with
    | nil =>
      have hu : u ≠ 10 := by simpa using hlast
      have hends : endsSourceRow u [10] = false := by simp [endsSourceRow, hu]
      obtain ⟨line, lines, hlines, hcons⟩ := linesOf_cons_of_not_ends hends (List.cons_ne_nil _ _)
      rw [linesOf_singleton, if_pos hten] at hlines
      obtain ⟨rfl, rfl⟩ := List.cons.inj hlines
      rw [List.singleton_append, hcons, linesOf_singleton]
    | cons v rest =>
      rw [List.getLast?_cons_cons] at hlast
      have ih' := ih (List.cons_ne_nil _ _) hlast
      have hsame : endsSourceRow u ((v :: rest) ++ [10]) = endsSourceRow u (v :: rest) := rfl
      rw [List.cons_append]
      cases hends : endsSourceRow u (v :: rest) with
      | true => rw [linesOf_cons_of_ends (hsame.trans hends), linesOf_cons_of_ends hends, ih']
      | false =>
        obtain ⟨line, lines, hlines, hcons⟩ :=
          linesOf_cons_of_not_ends (hsame.trans hends) (List.cons_ne_nil _ _)
        obtain ⟨line', lines', hlines', hcons'⟩ :=
          linesOf_cons_of_not_ends hends (List.cons_ne_nil _ _)
        rw [ih', hlines'] at hlines
        obtain ⟨rfl, rfl⟩ := List.cons.inj hlines
        rw [hcons, hcons']

end Lines

/-! ## 2. Three ways of counting lines -/

section Count

variable {u : ℕ} {rest text : Utf16}

/-- The text is over at a row's end. -/
def atRowEnd (text : Utf16) : Bool := text.isEmpty || isTerminated text

theorem atRowEnd_cons : atRowEnd (u :: rest) =
    if rest = [] then isTerminator u else atRowEnd rest := by
  cases rest with
  | nil => simp [atRowEnd, isTerminated, isTerminator]
  | cons v rest => simp [atRowEnd, isTerminated, List.getLast?_cons_cons]

theorem splitOn_cons (u : ℕ) (s : Utf16) :
    (u :: s).splitOn 10 = if u = 10 then [] :: s.splitOn 10 else (s.splitOn 10).modifyHead (u :: ·) := by
  simp only [List.splitOn, List.splitOnP_cons_eq_if_modifyHead, beq_iff_eq]

theorem splitOn_normalizeNewlines (text : Utf16) :
    (normalizeNewlines text).splitOn 10 = linesOf text ++ (if atRowEnd text then [[]] else []) := by
  fun_induction normalizeNewlines text with
  | case1 => rfl
  | case2 rest ih =>
    have hends : endsSourceRow 13 (10 :: rest) = false := rfl
    have hfeed : endsSourceRow 10 rest = true := rfl
    obtain ⟨line, lines, hlines, hcons⟩ := linesOf_cons_of_not_ends hends (List.cons_ne_nil _ _)
    rw [linesOf_cons_of_ends hfeed] at hlines
    obtain ⟨rfl, rfl⟩ := List.cons.inj hlines
    have hend : atRowEnd (13 :: 10 :: rest) = atRowEnd rest := by
      rw [atRowEnd_cons, if_neg (List.cons_ne_nil _ _), atRowEnd_cons]
      split
      · subst rest
        rfl
      · rfl
    rw [splitOn_cons, if_pos rfl, ih, hcons, hend]
    rfl
  | case3 rest hrest ih =>
    have hends : endsSourceRow 13 rest = true := by
      refine ends_of_isTerminator rfl fun hhead => ?_
      cases rest with
      | nil => cases hhead
      | cons v rest => exact hrest rest (by rw [Option.some.inj hhead])
    have hend : atRowEnd (13 :: rest) = atRowEnd rest := by
      rw [atRowEnd_cons]
      split
      · subst rest
        rfl
      · rfl
    rw [splitOn_cons, if_pos rfl, ih, linesOf_cons_of_ends hends, hend]
    rfl
  | case4 u rest hpair hcr ih =>
    rw [splitOn_cons, ih]
    by_cases hu : u = 10
    · subst hu
      have hends : endsSourceRow 10 rest = true := rfl
      have hend : atRowEnd (10 :: rest) = atRowEnd rest := by
        rw [atRowEnd_cons]
        split
        · subst rest
          rfl
        · rfl
      rw [if_pos rfl, linesOf_cons_of_ends hends, hend]
      rfl
    · have hterm : isTerminator u = false := by
        have hu13 : u ≠ 13 := fun heq => hcr heq
        simp [isTerminator, hu, hu13]
      have hends : endsSourceRow u rest = false := by
        cases h : endsSourceRow u rest with
        | false => rfl
        | true =>
          rw [isTerminator_of_ends h] at hterm
          cases hterm
      rw [if_neg hu]
      by_cases hrest : rest = []
      · subst hrest
        rw [linesOf_singleton, hterm, atRowEnd_cons, if_pos rfl, hterm]
        rfl
      · obtain ⟨line, lines, hlines, hcons⟩ := linesOf_cons_of_not_ends hends hrest
        rw [hcons, hlines, hterm, atRowEnd_cons, if_neg hrest]
        rfl

/-- The last line of a text that is not over at a row's end is not empty. -/
theorem getLast?_linesOf_ne (h : atRowEnd text = false) : (linesOf text).getLast? ≠ some [] := by
  induction text with
  | nil => cases h
  | cons u rest ih =>
    rw [atRowEnd_cons] at h
    by_cases hrest : rest = []
    · subst hrest
      rw [if_pos rfl] at h
      rw [linesOf_singleton, h]
      simp
    · rw [if_neg hrest] at h
      have ih' := ih h
      have hlines : linesOf rest ≠ [] := fun heq => hrest (linesOf_eq_nil_iff.mp heq)
      cases hends : endsSourceRow u rest with
      | true =>
        rw [linesOf_cons_of_ends hends]
        obtain ⟨line, lines, heq⟩ := List.exists_cons_of_ne_nil hlines
        rw [heq] at ih' ⊢
        rwa [List.getLast?_cons_cons]
      | false =>
        obtain ⟨line, lines, heq, hcons⟩ := linesOf_cons_of_not_ends hends hrest
        rw [heq] at ih'
        rw [hcons]
        cases lines with
        | nil =>
          -- a terminator that ends no row is the carriage return of a CRLF, with a row to come
          cases hterm : isTerminator u with
          | true =>
            have hhead : rest.head? = some 10 := by
              by_contra hne
              rw [ends_of_isTerminator hterm hne] at hends
              cases hends
            exfalso
            have hfirst := head?_linesOf hrest
            rw [heq] at hfirst
            obtain ⟨rest', rfl⟩ : ∃ rest', rest = 10 :: rest' := by
              cases rest with
              | nil => cases hhead
              | cons v rest' => exact ⟨rest', by rw [Option.some.inj hhead]⟩
            have hline : line = [] := Option.some.inj hfirst
            rw [hline] at ih'
            exact ih' rfl
          | false => simp
        | cons line' lines => rwa [List.getLast?_cons_cons] at ih' ⊢

/-- **A reader counts the lines** that `sourceRows` counts. -/
theorem textLines_eq (h : text ≠ []) : textLines text = linesOf text := by
  have hlines : linesOf text ≠ [] := fun heq => h (linesOf_eq_nil_iff.mp heq)
  unfold textLines
  simp only [splitOn_normalizeNewlines]
  cases hend : atRowEnd text with
  | true =>
    have hpos := List.length_pos_of_ne_nil hlines
    rw [if_pos]
    · simp
    · refine ⟨?_, by simp⟩
      rw [if_pos rfl, List.length_append, List.length_singleton]
      omega
  | false =>
    simp only [Bool.false_eq_true, if_false, List.append_nil]
    rw [if_neg]
    exact fun hcond => getLast?_linesOf_ne hend hcond.2

/-- The spans of rows that begin at a unit. -/
def spansOf : ℕ → List Utf16 → List LineSpan
  | _, [] => []
  | start, row :: rows => ⟨start, start + (lineOf row).length⟩ :: spansOf (start + row.length) rows

/-- The span after the last row end. -/
def lastSpan (text : Utf16) (index : ℕ) : List LineSpan :=
  if atRowEnd text then [⟨index + text.length, index + text.length⟩] else []

theorem lastSpan_cons {index : ℕ} (h : isTerminator u = true ∨ rest ≠ []) :
    lastSpan (u :: rest) index = lastSpan rest (index + 1) := by
  have hend : atRowEnd (u :: rest) = atRowEnd rest := by
    rw [atRowEnd_cons]
    split
    · rcases h with h | h
      · subst rest
        exact h
      · exact absurd (by assumption) h
    · rfl
  unfold lastSpan
  rw [hend, List.length_cons, Nat.add_assoc, Nat.add_comm 1]

theorem lineSpansFrom_eq (text : Utf16) (start index : ℕ) :
    lineSpansFrom text start index =
      match sourceRows text with
      | [] => [⟨start, index⟩]
      | row :: rows => ⟨start, index + (lineOf row).length⟩ ::
          (spansOf (index + row.length) rows ++ lastSpan text index) := by
  have hrow : ∀ (rest : Utf16) (index : ℕ),
      (match sourceRows rest with
      | [] => [(⟨index, index⟩ : LineSpan)]
      | row :: rows => ⟨index, index + (lineOf row).length⟩ ::
          (spansOf (index + row.length) rows ++ lastSpan rest index)) =
        spansOf index (sourceRows rest) ++ lastSpan rest index := by
    intro rest index
    cases hrows : sourceRows rest with
    | nil =>
      obtain rfl := rowsBy_eq_nil_iff.mp hrows
      rfl
    | cons row rows => rfl
  fun_induction lineSpansFrom text start index with
  | case1 start index => rfl
  | case2 rest start index ih =>
    have hrows : sourceRows (13 :: 10 :: rest) = [13, 10] :: sourceRows rest := by
      have hends : endsSourceRow 13 (10 :: rest) = false := rfl
      have hfeed : endsSourceRow 10 rest = true := rfl
      rw [sourceRows, rowsBy_cons_of_not_ends hends, rowsBy_cons_of_ends hfeed]
      rfl
    have hlast : lastSpan (13 :: 10 :: rest) index = lastSpan rest (index + 2) := by
      rw [lastSpan_cons (Or.inl rfl), lastSpan_cons (Or.inl rfl)]
    rw [ih, hrow, hrows, hlast]
    rfl
  | case3 u rest start index hpair hterm ih =>
    have hends : endsSourceRow u rest = true := by
      by_cases hu : u = 10
      · subst hu
        rfl
      · refine ends_of_isTerminator hterm fun hhead => ?_
        have hu13 : u = 13 := by
          simp only [isTerminator, Bool.or_eq_true, beq_iff_eq] at hterm
          exact hterm.resolve_left hu
        cases rest with
        | nil => cases hhead
        | cons v rest => exact hpair rest hu13 (by rw [Option.some.inj hhead])
    have hrows : sourceRows (u :: rest) = [u] :: sourceRows rest := rowsBy_cons_of_ends hends
    have hline : (lineOf [u]).length = 0 := by
      rw [lineOf_singleton, if_pos hterm]
      rfl
    rw [ih, hrow, hrows, lastSpan_cons (Or.inl hterm)]
    simp only [hline]
    rfl
  | case4 u rest start index hpair hterm ih =>
    have hends : endsSourceRow u rest = false := by
      cases h : endsSourceRow u rest with
      | false => rfl
      | true => exact absurd (isTerminator_of_ends h) hterm
    rw [ih]
    cases hrows : sourceRows rest with
    | nil =>
      obtain rfl := rowsBy_eq_nil_iff.mp hrows
      have hsingle : sourceRows [u] = [[u]] := by
        rw [sourceRows, rowsBy_cons_of_not_ends hends]
        rfl
      have hline : (lineOf [u]).length = 1 := by
        rw [lineOf_singleton, if_neg hterm]
        rfl
      have hlast : lastSpan [u] index = [] := by
        unfold lastSpan
        rw [atRowEnd_cons, if_pos rfl, if_neg hterm]
      rw [hsingle, hlast]
      simp only [hline]
      rfl
    | cons row rows =>
      have hrest : rest ≠ [] := fun heq => by
        rw [heq] at hrows
        cases hrows
      have hcons : sourceRows (u :: rest) = (u :: row) :: rows := by
        rw [sourceRows] at hrows ⊢
        rw [rowsBy_cons_of_not_ends hends, hrows]
      have hline : (lineOf (u :: row)).length = 1 + (lineOf row).length := by
        rw [lineOf_cons, if_neg hterm, List.length_cons, Nat.add_comm]
      rw [hcons, lastSpan_cons (Or.inr hrest)]
      simp only [hline, List.length_cons]
      rw [Nat.add_assoc, Nat.add_assoc, Nat.add_comm 1 row.length]

/-- A span of a row begins before the end of the rows. -/
theorem start_lt_of_mem_spansOf {rows : List Utf16} (hrows : ∀ row ∈ rows, row ≠ []) {start : ℕ}
    {span : LineSpan} (h : span ∈ spansOf start rows) :
    span.start < start + rows.flatten.length := by
  induction rows generalizing start with
  | nil => cases h
  | cons row rows ih =>
    have hpos := List.length_pos_of_ne_nil (hrows row List.mem_cons_self)
    rw [List.flatten_cons, List.length_append]
    rcases List.mem_cons.mp h with rfl | h
    · simp only
      omega
    · have := ih (fun r hr => hrows r (List.mem_cons_of_mem _ hr)) h
      omega

/-- **The spans of a payload** are those of its rows. -/
theorem rawPayloadLineSpans_eq (h : text ≠ []) :
    rawPayloadLineSpans text = spansOf 0 (sourceRows text) := by
  have hspans : lineSpansFrom text 0 0 = spansOf 0 (sourceRows text) ++ lastSpan text 0 := by
    rw [lineSpansFrom_eq]
    cases hrows : sourceRows text with
    | nil => exact absurd (rowsBy_eq_nil_iff.mp hrows) h
    | cons row rows => rfl
  have hne : spansOf 0 (sourceRows text) ≠ [] := by
    cases hrows : sourceRows text with
    | nil => exact absurd (rowsBy_eq_nil_iff.mp hrows) h
    | cons row rows => exact List.cons_ne_nil _ _
  have hpos := List.length_pos_of_ne_nil hne
  unfold rawPayloadLineSpans
  simp only [hspans]
  unfold lastSpan
  cases hend : atRowEnd text with
  | true =>
    rw [if_pos rfl, if_pos]
    · simp
    · refine ⟨?_, by simp⟩
      rw [List.length_append, List.length_singleton]
      omega
  | false =>
    simp only [Bool.false_eq_true, if_false, List.append_nil]
    rw [if_neg]
    rintro ⟨-, hlast⟩
    obtain ⟨span, hspan, hstart⟩ := Option.map_eq_some_iff.mp hlast
    have hlt : span.start < 0 + (sourceRows text).flatten.length :=
      start_lt_of_mem_spansOf (fun row hrow => ne_nil_of_mem_rowsBy hrow)
        (List.mem_of_getLast? hspan)
    rw [sourceRows, rowsBy_flatten, hstart] at hlt
    omega

theorem spansOf_getElem? (rows : List Utf16) (start i : ℕ) :
    (spansOf start rows)[i]? = rows[i]?.map fun row =>
      ⟨start + rowIndex rows i, start + rowIndex rows i + (lineOf row).length⟩ := by
  induction rows generalizing start i with
  | nil => rfl
  | cons row rows ih =>
    cases i with
    | zero => simp [spansOf, rowIndex]
    | succ i =>
      rw [spansOf, List.getElem?_cons_succ, ih, List.getElem?_cons_succ]
      have hindex : rowIndex (row :: rows) (i + 1) = row.length + rowIndex rows i := by
        simp [rowIndex]
      rw [hindex]
      simp only [Nat.add_assoc]

end Count

/-! ## 3. Windows of the payload -/

/-- The lines `viewStart` to `viewStop` of a view are the lines `sourceStart` to `sourceStop` of the
source. -/
structure SameLines (view source : List Utf16) (viewStart viewStop sourceStart sourceStop : ℕ) :
    Prop where
  viewPos : 1 ≤ viewStart
  sourcePos : 1 ≤ sourceStart
  length : viewStop + sourceStart = viewStart + sourceStop
  lines : ∀ k, sourceStart + k ≤ sourceStop →
    ∃ line, view[viewStart - 1 + k]? = some line ∧ source[sourceStart - 1 + k]? = some line

theorem SameLines.append {view source : List Utf16} {viewStart viewStop sourceStart sourceStop : ℕ}
    (h : SameLines view source viewStart viewStop sourceStart sourceStop) (lines : List Utf16) :
    SameLines (view ++ lines) source viewStart viewStop sourceStart sourceStop := by
  refine ⟨h.viewPos, h.sourcePos, h.length, fun k hk => ?_⟩
  obtain ⟨line, hview, hsource⟩ := h.lines k hk
  refine ⟨line, ?_, hsource⟩
  rw [List.getElem?_append_left (List.getElem?_eq_some_iff.mp hview).1]
  exact hview

/-- **A slice of a source file**: its lines `startLine` to `endLine` with their terminators, the last
with or without. -/
structure IsSliceOf (source : Utf16) (window : SourceWindow) : Prop where
  start : 1 ≤ window.startLine
  ordered : window.startLine ≤ window.endLine
  within : window.endLine ≤ (sourceRows source).length
  content : ∃ rows last,
    ((sourceRows source).take window.endLine).drop (window.startLine - 1) = rows ++ [last] ∧
      (window.content = rows.flatten ++ last ∨ window.content = rows.flatten ++ lineOf last)

section Payload

variable {source : Utf16} {window : SourceWindow}

/-- The lines of a text without terminators. -/
theorem linesOf_lineOf (row : Utf16) : linesOf (lineOf row) = if lineOf row = [] then [] else [lineOf row] := by
  have hplain : ∀ u ∈ lineOf row, isTerminator u = false := by
    intro u hu
    simpa using List.mem_takeWhile_imp hu
  have hlines : ∀ text : Utf16, (∀ u ∈ text, isTerminator u = false) →
      linesOf text = if text = [] then [] else [text] := by
    intro text htext
    induction text with
    | nil => rfl
    | cons u rest ih =>
      have hu := htext u List.mem_cons_self
      have hends : endsSourceRow u rest = false := by
        cases h : endsSourceRow u rest with
        | false => rfl
        | true =>
          rw [isTerminator_of_ends h] at hu
          cases hu
      rw [if_neg (List.cons_ne_nil _ _)]
      by_cases hrest : rest = []
      · subst hrest
        rw [linesOf_singleton, hu]
        rfl
      · have ih' := ih fun v hv => htext v (List.mem_cons_of_mem u hv)
        rw [if_neg hrest] at ih'
        obtain ⟨line, lines, hrestLines, hcons⟩ := linesOf_cons_of_not_ends hends hrest
        rw [ih'] at hrestLines
        obtain ⟨rfl, rfl⟩ := List.cons.inj hrestLines
        rw [hcons, hu]
        rfl
  exact hlines _ hplain

theorem lineOf_starts (row : Utf16) : lineOf row <+: row := List.takeWhile_prefix _

/-- **The lines of a slice** are lines of the source, from its first on. -/
theorem linesOf_content (h : IsSliceOf source window) :
    linesOf window.content <+: (linesOf source).drop (window.startLine - 1) := by
  obtain ⟨rows, last, hrows, hcontent⟩ := h.content
  have hsplit : sourceRows source = (sourceRows source).take (window.startLine - 1) ++
      ((rows ++ [last]) ++ (sourceRows source).drop window.endLine) := by
    rw [← hrows]
    have htake := List.take_append_drop (window.startLine - 1) ((sourceRows source).take window.endLine)
    rw [List.take_take, min_eq_left (by have := h.ordered; omega)] at htake
    rw [← List.append_assoc, htake, List.take_append_drop]
  have hwhole : rowsBy endsSourceRow (rows ++ [last]).flatten = rows ++ [last] :=
    rowsBy_infix looksAhead_endsSourceRow hsplit
  have hstart : ∀ rest, rest <+: last → sourceRows (rows.flatten ++ rest) = rows ++ sourceRows rest := by
    intro rest hrest
    exact rowsBy_prefix looksAhead_endsSourceRow hwhole (by simpa using hrest)
  have hsource : linesOf source = ((sourceRows source).take (window.startLine - 1)).map lineOf ++
      ((rows ++ [last]).map lineOf ++ ((sourceRows source).drop window.endLine).map lineOf) := by
    rw [← List.map_append, ← List.map_append, ← hsplit]
    rfl
  have hlength : (((sourceRows source).take (window.startLine - 1)).map lineOf).length =
      window.startLine - 1 := by
    have := h.ordered
    have := h.within
    rw [List.length_map, List.length_take]
    omega
  have hdrop : (linesOf source).drop (window.startLine - 1) = rows.map lineOf ++ [lineOf last] ++
      ((sourceRows source).drop window.endLine).map lineOf := by
    rw [hsource, List.drop_left' hlength, List.map_append]
    rfl
  rw [hdrop]
  rcases hcontent with hcontent | hcontent
  · have hlines : linesOf window.content = rows.map lineOf ++ [lineOf last] := by
      have hflat : window.content = (rows ++ [last]).flatten := by
        rw [hcontent]
        simp
      rw [hflat, linesOf, sourceRows, hwhole, List.map_append]
      rfl
    rw [hlines]
    exact List.prefix_append _ _
  · have hlines : linesOf window.content = rows.map lineOf ++ linesOf (lineOf last) := by
      rw [hcontent, linesOf, hstart _ (lineOf_starts last), List.map_append]
      rfl
    rw [hlines, linesOf_lineOf]
    split
    · rw [List.append_nil, List.append_assoc]
      exact List.prefix_append _ _
    · exact List.prefix_append _ _

/-- A separator changes no line. -/
theorem linesOf_separated (payload content : Utf16) :
    linesOf (separated payload content) = linesOf payload := by
  unfold separated
  split_ifs with h
  · obtain ⟨hne, hterm⟩ := h
    refine linesOf_concat_newline hne fun hlast => ?_
    have hterminated : isTerminated payload = true := by simp [isTerminated, hlast]
    simp [hterminated, hlast] at hterm
  · rfl

/-- **The lines of the payload** are those of its contents. -/
theorem linesOf_separated_append (payload content : Utf16) :
    linesOf (separated payload content ++ content) = linesOf payload ++ linesOf content := by
  have hclosed : ∀ u, (separated payload content).getLast? = some u →
      endsSourceRow u content = true := by
    intro u hu
    unfold separated at hu
    split_ifs at hu with h
    · rw [List.getLast?_concat] at hu
      obtain rfl := Option.some.inj hu
      rfl
    · have hne : payload ≠ [] := by
        rintro rfl
        cases hu
      have hnot := fun hcond => h ⟨hne, hcond⟩
      simp only [Bool.or_eq_true, Bool.and_eq_true, Bool.not_eq_true'] at hnot
      have hterm : isTerminated payload = true := by
        by_contra hfalse
        exact hnot (Or.inl (by simpa using hfalse))
      have hu' : isTerminator u = true := by
        simp only [isTerminated, hu, Bool.or_eq_true, beq_iff_eq, Option.some.injEq] at hterm
        simp only [isTerminator, Bool.or_eq_true, beq_iff_eq]
        exact hterm
      by_cases h10 : u = 10
      · subst h10
        rfl
      · refine ends_of_isTerminator hu' fun hhead => hnot (Or.inr ?_)
        have h13 : u = 13 := by
          simp only [isTerminator, Bool.or_eq_true, beq_iff_eq] at hu'
          exact hu'.resolve_left h10
        rw [hu, hhead, h13]
        exact ⟨rfl, rfl⟩
  have hrows : sourceRows (separated payload content ++ content) =
      sourceRows (separated payload content) ++ sourceRows content :=
    rowsBy_append looksAhead_endsSourceRow hclosed
  rw [← linesOf_separated payload content, linesOf, hrows, List.map_append]
  rfl

theorem prefix_separated (payload content : Utf16) : payload <+: separated payload content := by
  unfold separated
  split
  · exact List.prefix_append _ _
  · exact List.prefix_refl _

/-- What holds of a mapped window of the payload. -/
structure MappedOk (source payload : Utf16) (windows : List SourceWindow) (mapped : MappedWindow) :
    Prop where
  lines : SameLines (linesOf payload) (linesOf source) mapped.materializedStartLine
    mapped.materializedEndLine mapped.sourceStartLine mapped.sourceEndLine
  bounds : mapped.payloadStart ≤ mapped.payloadEnd ∧ mapped.payloadEnd ≤ payload.length
  content : ∃ window ∈ windows, mapped.sourceStartLine = window.startLine ∧
    mapped.sourceEndLine = window.endLine ∧
    slice payload mapped.payloadStart mapped.payloadEnd = window.content

structure PayloadInv (source : Utf16) (windows : List SourceWindow) (s : PayloadSoFar) : Prop where
  row : s.row = (linesOf s.payload).length + 1
  mapped : ∀ mapped ∈ s.mapped, MappedOk source s.payload windows mapped

theorem slice_append_left {text : Utf16} {start stop : ℕ} (h : stop ≤ text.length) (rest : Utf16) :
    slice (text ++ rest) start stop = slice text start stop := by
  rw [slice, slice]
  by_cases hstart : start ≤ text.length
  · rw [List.drop_append_of_le_length hstart, List.take_append_of_le_length]
    rw [List.length_drop]
    omega
  · have hzero : stop - start = 0 := by omega
    rw [hzero, List.take_zero, List.take_zero]

theorem MappedOk.later {payload : Utf16} {windows : List SourceWindow} {mapped : MappedWindow}
    (h : MappedOk source payload windows mapped) {payload' : Utf16} {lines : List Utf16}
    (hstart : payload <+: payload') (hlines : linesOf payload' = linesOf payload ++ lines) :
    MappedOk source payload' windows mapped := by
  obtain ⟨rest, rfl⟩ := hstart
  obtain ⟨window, hmem, hstart, hend, hslice⟩ := h.content
  refine ⟨hlines ▸ h.lines.append lines, ⟨h.bounds.1, ?_⟩, window, hmem, hstart, hend, ?_⟩
  · rw [List.length_append]
    exact le_trans h.bounds.2 (Nat.le_add_right _ _)
  · rw [slice_append_left h.bounds.2]
    exact hslice

theorem payloadInv_addWindow {windows : List SourceWindow} {s : PayloadSoFar} (origin : SliceOrigin)
    (h : PayloadInv source windows s) (hmem : window ∈ windows) (hslice : IsSliceOf source window) :
    PayloadInv source windows (addWindow origin s window) := by
  have hlines := linesOf_separated_append s.payload window.content
  have hlength : (linesOf window.content).length = (sourceRows window.content).length :=
    length_linesOf _
  have hpayload : (addWindow origin s window).payload =
      separated s.payload window.content ++ window.content := rfl
  have hrow : (addWindow origin s window).row = s.row + (sourceRows window.content).length := rfl
  have hstart : s.payload <+: separated s.payload window.content ++ window.content :=
    (prefix_separated _ _).trans (List.prefix_append _ _)
  have hold : ∀ mapped ∈ s.mapped,
      MappedOk source (separated s.payload window.content ++ window.content) windows mapped :=
    fun mapped hmapped => (h.mapped mapped hmapped).later hstart hlines
  refine ⟨?_, fun mapped hmapped => ?_⟩
  · rw [hrow, hpayload, hlines, List.length_append, h.row]
    omega
  · rw [hpayload]
    unfold addWindow at hmapped
    simp only at hmapped
    cases hpath : canonicalEvidenceSourcePath origin.path with
    | none =>
      rw [hpath] at hmapped
      exact hold mapped hmapped
    | some path =>
      rw [hpath] at hmapped
      simp only at hmapped
      split_ifs at hmapped with hok
      · rcases List.mem_append.mp hmapped with hmapped | hmapped
        · exact hold mapped hmapped
        · obtain ⟨hpos, -, hstart, hend⟩ := hok
          obtain rfl := List.mem_singleton.mp hmapped
          refine ⟨⟨?_, hstart, ?_, fun k hk => ?_⟩, ⟨Nat.le_add_right _ _, ?_⟩, window, hmem, rfl, rfl, ?_⟩
          · simp only [h.row]
            omega
          · simp only [h.row]
            omega
          · simp only at hk ⊢
            have hk' : k < (linesOf window.content).length := by omega
            refine ⟨(linesOf window.content)[k], ?_, ?_⟩
            · rw [hlines, h.row, Nat.add_sub_cancel, List.getElem?_append_right (by omega)]
              rw [Nat.add_sub_cancel_left]
              exact List.getElem?_eq_getElem hk'
            · obtain ⟨tail, htail⟩ := linesOf_content hslice
              rw [← List.getElem?_drop, ← htail, List.getElem?_append_left hk']
              exact List.getElem?_eq_getElem hk'
          · rw [List.length_append]
          · simp [slice]
      · exact hold mapped hmapped

theorem payloadInv_foldl {windows : List SourceWindow} (origin : SliceOrigin)
    (hslices : ∀ window ∈ windows, IsSliceOf source window) :
    PayloadInv source windows (windows.foldl (addWindow origin) {}) := by
  have hfold : ∀ (rest : List SourceWindow) (s : PayloadSoFar), (∀ window ∈ rest, window ∈ windows) →
      PayloadInv source windows s → PayloadInv source windows (rest.foldl (addWindow origin) s) := by
    intro rest
    induction rest with
    | nil => exact fun _ _ h => h
    | cons window rest ih =>
      intro s hrest h
      have hmem := hrest window List.mem_cons_self
      exact ih _ (fun w hw => hrest w (List.mem_cons_of_mem _ hw))
        (payloadInv_addWindow origin h hmem (hslices window hmem))
  refine hfold windows {} (fun _ h => h) ⟨rfl, fun mapped hmapped => ?_⟩
  cases hmapped

/-- Every window of the payload is a slice, with its lines and its units. -/
theorem mappedOk_of_mem {windows : List SourceWindow} (origin : SliceOrigin)
    (hslices : ∀ window ∈ windows, IsSliceOf source window) {mapped : MappedWindow}
    (h : mapped ∈ (sourceContinuationPayload origin windows).2) :
    MappedOk source (sourceContinuationPayload origin windows).1 windows mapped := by
  refine (payloadInv_foldl origin hslices).mapped mapped ?_
  unfold sourceContinuationPayload at h
  obtain ⟨⟨mapped', i⟩, hmem, rfl⟩ := List.mem_map.mp h
  have hget := List.mem_zipIdx' (List.mem_of_mem_filter hmem)
  rw [hget.2]
  exact List.getElem_mem _

end Payload

/-! ## 4. Windows of a page -/

section Page

variable {payload : Utf16}

theorem exists_row_at {rows : List Utf16} {n : ℕ} (h : n < rows.flatten.length) :
    ∃ before head tail after, rows = before ++ (head ++ tail) :: after ∧ tail ≠ [] ∧
      before.flatten.length + head.length = n := by
  induction rows generalizing n with
  | nil => simp at h
  | cons row rows ih =>
    rw [List.flatten_cons, List.length_append] at h
    rcases Nat.lt_or_ge n row.length with hlt | hge
    · refine ⟨[], row.take n, row.drop n, rows, ?_, ?_, ?_⟩
      · rw [List.take_append_drop, List.nil_append]
      · refine List.ne_nil_of_length_pos ?_
        rw [List.length_drop]
        omega
      · rw [List.flatten_nil, List.length_nil, List.length_take]
        omega
    · obtain ⟨before, head, tail, after, rfl, htail, hn⟩ := ih (n := n - row.length) (by omega)
      refine ⟨row :: before, head, tail, after, rfl, htail, ?_⟩
      rw [List.flatten_cons, List.length_append]
      omega

theorem rowIndex_succ {rows : List Utf16} {i : ℕ} {row : Utf16} (h : rows[i]? = some row) :
    rowIndex rows (i + 1) = rowIndex rows i + row.length := by
  unfold rowIndex
  rw [List.take_add_one, h, List.flatten_append, List.length_append]
  simp

theorem rowIndex_append {before rows : List Utf16} :
    rowIndex (before ++ rows) before.length = before.flatten.length := by
  rw [rowIndex, List.take_left']
  rfl

theorem length_lineOf_le (row : Utf16) : (lineOf row).length ≤ row.length :=
  (List.takeWhile_prefix _).length_le

/-- A row that is not the last is longer than its line. -/
theorem length_lineOf_lt {before after : List Utf16} {row : Utf16}
    (h : sourceRows payload = before ++ row :: after) (hafter : after ≠ []) :
    (lineOf row).length < row.length := by
  obtain ⟨init, u, rfl, hu⟩ := rowsBy_ends h hafter
  have hterm := isTerminator_of_ends hu
  have hline : lineOf (init ++ [u]) = lineOf init := by
    unfold lineOf
    rw [List.takeWhile_append]
    split
    · rename_i hall
      have hself := (List.takeWhile_prefix fun u => !isTerminator u).eq_of_length hall
      rw [List.takeWhile_cons_of_neg (by simp [hterm]), List.append_nil]
      exact hself.symm
    · rfl
  rw [hline, List.length_append, List.length_singleton]
  exact Nat.lt_succ_of_le (length_lineOf_le init)

theorem length_spansOf (rows : List Utf16) (start : ℕ) : (spansOf start rows).length = rows.length := by
  induction rows generalizing start with
  | nil => rfl
  | cons row rows ih => rw [spansOf, List.length_cons, List.length_cons, ih]

/-- The span of a row. -/
theorem spansOf_getElem {rows : List Utf16} {i : ℕ} (hi : i < (spansOf 0 rows).length) :
    ∃ row, rows[i]? = some row ∧
      (spansOf 0 rows)[i] = (⟨rowIndex rows i, rowIndex rows i + (lineOf row).length⟩ : LineSpan) := by
  have hrow := List.getElem?_eq_getElem (length_spansOf rows 0 ▸ hi)
  have hspan := spansOf_getElem? rows 0 i
  rw [hrow, List.getElem?_eq_getElem hi, Nat.zero_add] at hspan
  exact ⟨_, hrow, Option.some.inj hspan⟩

/-- Where a view begins: inside the row `before.length`, after its part `head`. -/
structure BeginsIn (payload : Utf16) (viewStart : ℕ) (before : List Utf16) (head tail : Utf16)
    (after : List Utf16) : Prop where
  rows : sourceRows payload = before ++ (head ++ tail) :: after
  tail_ne : tail ≠ []
  start : before.flatten.length + head.length = viewStart

section Begins

variable {viewStart : ℕ} {before after : List Utf16} {head tail : Utf16}

theorem BeginsIn.getElem? (h : BeginsIn payload viewStart before head tail after) :
    (sourceRows payload)[before.length]? = some (head ++ tail) := by
  rw [h.rows]
  simp

theorem BeginsIn.rowIndex_eq (h : BeginsIn payload viewStart before head tail after) :
    rowIndex (sourceRows payload) before.length = before.flatten.length := by
  rw [h.rows, rowIndex_append]

/-- The rows before end before the view. -/
theorem BeginsIn.stop_lt (h : BeginsIn payload viewStart before head tail after) {i : ℕ}
    {row : Utf16} (hi : i < before.length) (hrow : (sourceRows payload)[i]? = some row) :
    rowIndex (sourceRows payload) i + (lineOf row).length < viewStart := by
  have hsplit : sourceRows payload = (sourceRows payload).take i ++
      row :: (sourceRows payload).drop (i + 1) := by
    obtain ⟨hlt, rfl⟩ := List.getElem?_eq_some_iff.mp hrow
    rw [List.cons_getElem_drop_succ, List.take_append_drop]
  have hlength : (sourceRows payload).length = before.length + (after.length + 1) := by
    rw [h.rows, List.length_append, List.length_cons]
  have hafter : (sourceRows payload).drop (i + 1) ≠ [] := by
    refine List.ne_nil_of_length_pos ?_
    rw [List.length_drop]
    omega
  have hlt := length_lineOf_lt hsplit hafter
  have hle := rowIndex_le (show i + 1 ≤ before.length by omega) (sourceRows payload)
  rw [rowIndex_succ hrow, h.rowIndex_eq] at hle
  have hstart := h.start
  omega

/-- The rows after begin after the view's start, by its rest of the row. -/
theorem BeginsIn.lt_start (h : BeginsIn payload viewStart before head tail after) {i : ℕ}
    (hi : before.length < i) : viewStart + tail.length ≤ rowIndex (sourceRows payload) i := by
  have hle := rowIndex_le (show before.length + 1 ≤ i by omega) (sourceRows payload)
  rw [rowIndex_succ h.getElem?, h.rowIndex_eq, List.length_append] at hle
  have hstart := h.start
  omega

/-- **The anchor of a view** is the row it begins in. -/
theorem BeginsIn.anchorLineIndex_eq (h : BeginsIn payload viewStart before head tail after) :
    anchorLineIndex (spansOf 0 (sourceRows payload)) viewStart = before.length := by
  have htail := List.length_pos_of_ne_nil h.tail_ne
  have hstart := h.start
  have hindex := h.rowIndex_eq
  have hanchor : before.length < (spansOf 0 (sourceRows payload)).length := by
    rw [length_spansOf, h.rows, List.length_append, List.length_cons]
    omega
  obtain ⟨row, hrow, hspanAt⟩ := spansOf_getElem hanchor
  obtain rfl := Option.some.inj (h.getElem?.symm.trans hrow)
  unfold anchorLineIndex
  by_cases hin : viewStart ≤ rowIndex (sourceRows payload) before.length +
      (lineOf (head ++ tail)).length
  · have hfind : (spansOf 0 (sourceRows payload)).findIdx? (fun span =>
        span.start ≤ viewStart && viewStart ≤ span.stop) = some before.length := by
      refine List.findIdx?_eq_some_iff_getElem.mpr ⟨hanchor, ?_, fun i hi => ?_⟩
      · rw [hspanAt]
        simp only [Bool.and_eq_true, decide_eq_true_eq]
        omega
      · obtain ⟨row, hrow, hspan⟩ := spansOf_getElem (lt_trans hi hanchor)
        have hlt := h.stop_lt hi hrow
        rw [hspan]
        simp only [Bool.and_eq_true, decide_eq_true_eq]
        omega
    rw [hfind]
  · -- the view begins on the line feed of the row's CRLF
    have hnone : (spansOf 0 (sourceRows payload)).findIdx? (fun span =>
        span.start ≤ viewStart && viewStart ≤ span.stop) = none := by
      refine List.findIdx?_eq_none_iff.mpr fun span hspan => ?_
      obtain ⟨i, hi, rfl⟩ := List.getElem_of_mem hspan
      obtain ⟨row, hrow, hspanEq⟩ := spansOf_getElem hi
      rw [hspanEq]
      simp only [Bool.and_eq_false_iff, decide_eq_false_iff_not]
      rcases Nat.lt_trichotomy i before.length with hlt | rfl | hgt
      · have := h.stop_lt hlt hrow
        omega
      · obtain rfl := Option.some.inj (h.getElem?.symm.trans hrow)
        omega
      · have := h.lt_start hgt
        omega
    have hnot : ∀ i, i ≤ before.length → ¬ viewStart < rowIndex (sourceRows payload) i := by
      intro i hi
      have hle := rowIndex_le hi (sourceRows payload)
      omega
    have hfind : ((spansOf 0 (sourceRows payload)).findIdx? fun span =>
        decide (viewStart < span.start)).getD (spansOf 0 (sourceRows payload)).length =
          before.length + 1 := by
      by_cases hlast : before.length + 1 < (spansOf 0 (sourceRows payload)).length
      · have hsome : ((spansOf 0 (sourceRows payload)).findIdx? fun span =>
            decide (viewStart < span.start)) = some (before.length + 1) := by
          refine List.findIdx?_eq_some_iff_getElem.mpr ⟨hlast, ?_, fun i hi => ?_⟩
          · obtain ⟨row, hrow, hspan⟩ := spansOf_getElem hlast
            have hlt := h.lt_start (show before.length < before.length + 1 by omega)
            rw [hspan]
            exact decide_eq_true (show viewStart < rowIndex _ _ by omega)
          · obtain ⟨row, hrow, hspan⟩ := spansOf_getElem (lt_trans hi hlast)
            have := hnot i (by omega)
            rw [hspan]
            simpa using this
        rw [hsome]
        rfl
      · have hnil : ((spansOf 0 (sourceRows payload)).findIdx? fun span =>
            decide (viewStart < span.start)) = none := by
          refine List.findIdx?_eq_none_iff.mpr fun span hspan => ?_
          obtain ⟨i, hi, rfl⟩ := List.getElem_of_mem hspan
          obtain ⟨row, hrow, hspanEq⟩ := spansOf_getElem hi
          have := hnot i (by omega)
          rw [hspanEq]
          simpa using this
        rw [hnil, Option.getD_none]
        omega
    rw [hnone]
    simp only [hfind, Nat.add_sub_cancel]

theorem lineOf_take {text : Utf16} {n : ℕ} (h : (lineOf text).length ≤ n) :
    lineOf (text.take n) = lineOf text := by
  induction text generalizing n with
  | nil => rw [List.take_nil]
  | cons u rest ih =>
    cases n with
    | zero =>
      have hnil : lineOf (u :: rest) = [] := List.length_eq_zero_iff.mp (by omega)
      rw [hnil]
      rfl
    | succ n =>
      rw [List.take_succ_cons, lineOf_cons, lineOf_cons]
      cases hu : isTerminator u with
      | true => rfl
      | false =>
        rw [lineOf_cons, hu] at h
        simp only [Bool.false_eq_true, if_false, List.length_cons] at h
        rw [ih (by omega)]

/-- The rows from a view's start on, up to a row. -/
theorem BeginsIn.split (h : BeginsIn payload viewStart before head tail after) {i : ℕ} {row : Utf16}
    (hrow : (sourceRows payload)[i]? = some row)
    (hstart : viewStart ≤ rowIndex (sourceRows payload) i) :
    before.length ≤ i ∧ ∃ rows rest, tail :: after = rows ++ row :: rest ∧
      rows.length = i - before.length ∧
      viewStart + rows.flatten.length = rowIndex (sourceRows payload) i := by
  have hle : before.length ≤ i := by
    by_contra hlt
    have := h.stop_lt (not_le.mp hlt) hrow
    omega
  refine ⟨hle, ?_⟩
  have hviewStart := h.start
  rcases Nat.eq_or_lt_of_le hle with rfl | hlt
  · obtain rfl := Option.some.inj (h.getElem?.symm.trans hrow)
    rw [h.rowIndex_eq] at hstart ⊢
    have hhead : head = [] := List.length_eq_zero_iff.mp (by omega)
    subst hhead
    refine ⟨[], after, rfl, by simp, ?_⟩
    rw [List.flatten_nil, List.length_nil]
    rw [List.length_nil] at hviewStart
    omega
  · obtain ⟨k, rfl⟩ : ∃ k, i = before.length + (k + 1) := ⟨i - before.length - 1, by omega⟩
    have hget : after[k]? = some row := by
      rw [h.rows, List.getElem?_append_right (by omega), Nat.add_sub_cancel_left,
        List.getElem?_cons_succ] at hrow
      exact hrow
    obtain ⟨hk, rfl⟩ := List.getElem?_eq_some_iff.mp hget
    refine ⟨tail :: after.take k, after.drop (k + 1), ?_, ?_, ?_⟩
    · rw [List.cons_append, List.cons_getElem_drop_succ, List.take_append_drop]
    · rw [List.length_cons, List.length_take]
      omega
    · have htake : (sourceRows payload).take (before.length + (k + 1)) =
          before ++ (head ++ tail) :: after.take k := by
        rw [h.rows, List.take_length_add_append, List.take_succ_cons]
      rw [rowIndex, htake]
      simp only [List.flatten_append, List.flatten_cons, List.length_append]
      omega

/-- **A line of a page** whose row the page has is the line of the payload. -/
theorem BeginsIn.linesOf_page (h : BeginsIn payload viewStart before head tail after) {n i : ℕ}
    {row : Utf16} (hrow : (sourceRows payload)[i]? = some row)
    (hstart : viewStart ≤ rowIndex (sourceRows payload) i)
    (hn : rowIndex (sourceRows payload) i < viewStart + n)
    (hstop : rowIndex (sourceRows payload) i + (lineOf row).length ≤ viewStart + n) :
    before.length ≤ i ∧
      (linesOf (slice payload viewStart (viewStart + n)))[i - before.length]? = some (lineOf row) := by
  obtain ⟨hle, rows, rest, hsplit, hlength, hindex⟩ := h.split hrow hstart
  refine ⟨hle, ?_⟩
  have hrest : rowsBy endsSourceRow (tail ++ after.flatten) = rows ++ row :: rest := by
    rw [rowsBy_drop h.tail_ne h.rows, hsplit]
  have hdrop : payload.drop viewStart = rows.flatten ++ (row ++ rest.flatten) := by
    have hpayload : payload = (before.flatten ++ head) ++ (tail ++ after.flatten) := by
      have hflat := congrArg List.flatten h.rows
      rw [sourceRows, rowsBy_flatten] at hflat
      rw [hflat]
      simp
    have hflat := congrArg List.flatten hsplit
    rw [List.flatten_cons, List.flatten_append, List.flatten_cons] at hflat
    have hcut : (before.flatten ++ head).length = viewStart := by
      rw [List.length_append]
      exact h.start
    rw [← hflat]
    conv_lhs => rw [hpayload]
    exact List.drop_left' hcut
  have hslice : slice payload viewStart (viewStart + n) =
      rows.flatten ++ (row ++ rest.flatten).take (n - rows.flatten.length) := by
    rw [slice, Nat.add_sub_cancel_left, hdrop, List.take_append, List.take_of_length_le (by omega)]
  have hrowNe : row ≠ [] := ne_nil_of_mem_rowsBy (List.mem_of_getElem? hrow)
  have hwhole : rowsBy endsSourceRow (row ++ rest.flatten) = row :: rest := by
    have htake := (rowsBy_take looksAhead_endsSourceRow hrest).2
    rwa [List.flatten_cons] at htake
  have hline : lineOf (row ++ rest.flatten) = lineOf row := by
    have hhead : (linesOf (row ++ rest.flatten)).head? = some (lineOf row) := by
      rw [linesOf, sourceRows, hwhole]
      rfl
    rw [head?_linesOf (by simp [hrowNe])] at hhead
    exact Option.some.inj hhead
  have hpageNe : (row ++ rest.flatten).take (n - rows.flatten.length) ≠ [] := by
    have hpos := List.length_pos_of_ne_nil hrowNe
    refine List.ne_nil_of_length_pos ?_
    rw [List.length_take, List.length_append]
    omega
  have hlines : linesOf (slice payload viewStart (viewStart + n)) = rows.map lineOf ++
      linesOf ((row ++ rest.flatten).take (n - rows.flatten.length)) := by
    rw [hslice, linesOf, sourceRows, rowsBy_prefix looksAhead_endsSourceRow hrest
      (by rw [List.flatten_cons]; exact List.take_prefix _ _), List.map_append]
    rfl
  rw [hlines, List.getElem?_append_right (by rw [List.length_map, hlength]), List.length_map,
    hlength, Nat.sub_self, ← List.head?_eq_getElem?, head?_linesOf hpageNe,
    lineOf_take (by rw [hline]; omega), hline]

end Begins

theorem exists_beginsIn {viewStart : ℕ} (h : viewStart < payload.length) :
    ∃ before head tail after, BeginsIn payload viewStart before head tail after := by
  have hlength : viewStart < (sourceRows payload).flatten.length := by
    rwa [sourceRows, rowsBy_flatten]
  obtain ⟨before, head, tail, after, hrows, htail, hstart⟩ := exists_row_at hlength
  exact ⟨before, head, tail, after, hrows, htail, hstart⟩

/-- The windows of a page cite lines of the page that are lines of the source. -/
def CitesLines (text source : Utf16) (windows : List PageWindow) : Prop :=
  ∀ window ∈ windows, window.sourceStartLine ≤ window.sourceEndLine ∧
    SameLines (linesOf text) (linesOf source) window.materializedStartLine
      window.materializedEndLine window.sourceStartLine window.sourceEndLine

variable {source text : Utf16} {windows : List PageWindow}

theorem CitesLines.concat (h : CitesLines text source windows) {line : PageWindow}
    (hline : CitesLines text source [line]) : CitesLines text source (windows ++ [line]) := by
  intro window hwindow
  rcases List.mem_append.mp hwindow with hwindow | hwindow
  · exact h window hwindow
  · exact hline window hwindow

theorem CitesLines.pushLine (h : CitesLines text source windows) {line : PageWindow}
    (hone : line.sourceEndLine = line.sourceStartLine)
    (hline : CitesLines text source [line]) : CitesLines text source (pushLine windows line) := by
  unfold PosseClient.pushLine
  cases hlast : windows.getLast? with
  | none => exact h.concat hline
  | some prior =>
    simp only
    split_ifs with hnext
    · obtain ⟨-, hsource, hview, -⟩ := hnext
      have hprior := List.mem_of_getLast? hlast
      obtain ⟨hordered, hsame⟩ := h prior hprior
      obtain ⟨-, hsameLine⟩ := hline line (List.mem_singleton_self line)
      have hlength := hsame.length
      refine CitesLines.concat (fun window hwindow => h window (List.mem_of_mem_dropLast hwindow)) ?_
      intro window hwindow
      obtain rfl := List.mem_singleton.mp hwindow
      refine ⟨by simp only; omega, hsame.viewPos, hsame.sourcePos, by simp only; omega, ?_⟩
      intro k hk
      simp only at hk ⊢
      rcases Nat.lt_or_ge (prior.sourceStartLine + k) line.sourceStartLine with hlt | hge
      · exact hsame.lines k (by omega)
      · obtain ⟨l, hviewLine, hsourceLine⟩ := hsameLine.lines 0 (by omega)
        have hviewPos := hsame.viewPos
        have hsourcePos := hsame.sourcePos
        refine ⟨l, ?_, ?_⟩
        · rw [← hviewLine]
          congr 1
          omega
        · rw [← hsourceLine]
          congr 1
          omega
    · exact h.concat hline

/-- **The metadata of a page** is what it cites of the source. -/
structure PageOf (source : Utf16) (entry : SourceEntry) (viewStart : ℕ) (text : Utf16) : Prop where
  text_ne : text ≠ []
  slice : text = slice entry.payload viewStart (viewStart + text.length)
  windows : ∀ raw ∈ entry.windows, SameLines (linesOf entry.payload) (linesOf source)
    raw.materializedStartLine raw.materializedEndLine raw.sourceStartLine raw.sourceEndLine

variable {entry : SourceEntry} {viewStart : ℕ}

theorem CitesLines.addLine (h : CitesLines text source windows)
    (hpage : PageOf source entry viewStart text) {raw : MappedWindow} (hraw : raw ∈ entry.windows)
    {line : ℕ} (hfirst : raw.materializedStartLine ≤ line) (hlast : line ≤ raw.materializedEndLine) :
    CitesLines text source (addLine entry (rawPayloadLineSpans entry.payload) viewStart
      (viewStart + text.length) raw windows line) := by
  have hpos := List.length_pos_of_ne_nil hpage.text_ne
  have hviewStart : viewStart < entry.payload.length := by
    have hlength := congrArg List.length hpage.slice
    rw [PosseClient.slice, List.length_take, List.length_drop] at hlength
    omega
  have hpayload : entry.payload ≠ [] := List.ne_nil_of_length_pos (by omega)
  have hsame := hpage.windows raw hraw
  have hviewPos := hsame.viewPos
  have hsourcePos := hsame.sourcePos
  have hlength := hsame.length
  unfold PosseClient.addLine
  rw [rawPayloadLineSpans_eq hpayload]
  cases hspan : (spansOf 0 (sourceRows entry.payload))[line - 1]? with
  | none => exact h
  | some span =>
    simp only
    split_ifs with hout hverified
    · exact h
    · exact h
    · simp only [not_or, not_lt, not_le] at hout
      obtain ⟨hstart, hn, hstop⟩ := hout
      rw [spansOf_getElem?] at hspan
      obtain ⟨row, hrow, rfl⟩ := Option.map_eq_some_iff.mp hspan
      simp only [Nat.zero_add] at hstart hn hstop
      obtain ⟨before, head, tail, after, hbegins⟩ := exists_beginsIn hviewStart
      obtain ⟨hle, hpageLine⟩ := hbegins.linesOf_page hrow hstart hn hstop
      rw [← hpage.slice] at hpageLine
      rw [hbegins.anchorLineIndex_eq]
      -- the line of the payload is the line of the source
      obtain ⟨l, hpayloadLine, hsourceLine⟩ :=
        hsame.lines (line - raw.materializedStartLine) (by omega)
      have hl : l = lineOf row := by
        have hrowLine : (linesOf entry.payload)[line - 1]? = some (lineOf row) := by
          rw [linesOf, List.getElem?_map, hrow]
          rfl
        have hindex : raw.materializedStartLine - 1 + (line - raw.materializedStartLine) = line - 1 := by
          omega
        rw [hindex, hrowLine] at hpayloadLine
        exact (Option.some.inj hpayloadLine).symm
      refine h.pushLine rfl fun window hwindow => ?_
      obtain rfl := List.mem_singleton.mp hwindow
      refine ⟨le_rfl, by simp only; omega, by simp only; omega, rfl, ?_⟩
      intro k hk
      simp only at hk ⊢
      have hk0 : k = 0 := by omega
      subst hk0
      refine ⟨lineOf row, ?_, ?_⟩
      · rw [← hpageLine]
        congr 1
      · rw [← hl, ← hsourceLine]
        congr 1
        omega

theorem CitesLines.addRawWindow (h : CitesLines text source windows)
    (hpage : PageOf source entry viewStart text) {raw : MappedWindow} (hraw : raw ∈ entry.windows) :
    CitesLines text source (addRawWindow entry (rawPayloadLineSpans entry.payload) viewStart
      (viewStart + text.length) windows raw) := by
  unfold PosseClient.addRawWindow
  split_ifs with hbad
  · exact h
  · have hfold : ∀ (lines : List ℕ) (windows : List PageWindow),
        (∀ line ∈ lines, raw.materializedStartLine ≤ line ∧ line ≤ raw.materializedEndLine) →
        CitesLines text source windows →
        CitesLines text source (lines.foldl (PosseClient.addLine entry
          (rawPayloadLineSpans entry.payload) viewStart (viewStart + text.length) raw) windows) := by
      intro lines
      induction lines with
      | nil => exact fun _ _ h => h
      | cons line lines ih =>
        intro windows hlines h
        obtain ⟨hfirst, hlast⟩ := hlines line List.mem_cons_self
        exact ih _ (fun l hl => hlines l (List.mem_cons_of_mem _ hl))
          (h.addLine hpage hraw hfirst hlast)
    refine hfold _ _ (fun line hline => ?_) h
    have hrange := List.mem_range'_1.mp hline
    omega

theorem citesLines_metadata (hwindows : ∀ raw ∈ entry.windows, SameLines (linesOf entry.payload)
      (linesOf source) raw.materializedStartLine raw.materializedEndLine raw.sourceStartLine
      raw.sourceEndLine)
    (hslice : text = slice entry.payload viewStart (viewStart + text.length)) :
    CitesLines text source (sourceMetadataForPartialHashRefView entry viewStart text).windows := by
  have hnone : CitesLines text source [] := fun window hwindow => by cases hwindow
  unfold sourceMetadataForPartialHashRefView
  split_ifs with hskip
  · exact hnone
  · have htext : text ≠ [] := fun heq => hskip (Or.inr heq)
    have hpage : PageOf source entry viewStart text := ⟨htext, hslice, hwindows⟩
    have hfold : ∀ (raws : List MappedWindow) (windows : List PageWindow),
        (∀ raw ∈ raws, raw ∈ entry.windows) → CitesLines text source windows →
        CitesLines text source (raws.foldl (addRawWindow entry (rawPayloadLineSpans entry.payload)
          viewStart (viewStart + text.length)) windows) := by
      intro raws
      induction raws with
      | nil => exact fun _ _ h => h
      | cons raw raws ih =>
        intro windows hraws h
        exact ih _ (fun r hr => hraws r (List.mem_cons_of_mem _ hr))
          (h.addRawWindow hpage (hraws raw List.mem_cons_self))
    have hall := hfold entry.windows [] (fun _ h => h) hnone
    simp only
    split_ifs with hempty
    · exact hnone
    · exact hall

end Page

/-! ## 5. Numbered rows -/

/-- The rows of a block carry the numbers of their source lines. -/
def NumberedBy (source : Utf16) (block : RowBlock) : Prop :=
  ∀ path start stop, block.numbered = some (path, start, stop) →
    ∃ rows : List Utf16, block.text = rows.zipIdx.flatMap (fun p => natText (start + p.2) ++ 9 :: p.1) ∧
      rows.length = stop - start + 1 ∧
      ∀ (i : ℕ) (row : Utf16), rows[i]? = some row →
        (linesOf source)[start - 1 + i]? = some (lineOf row)

section Display

variable {source : Utf16} {windows : List PageWindow} {s : DisplaySoFar} (text : Utf16)

theorem numberedBy_none (content : Utf16) : NumberedBy source ⟨content, none⟩ := by
  intro path start stop h
  cases h

/-- **Lifted rows carry the numbers of their lines.** -/
theorem numberedBy_liftRows (h : ∀ block ∈ s.blocks, NumberedBy source block) {start stop : ℕ}
    {window : Option PageWindow}
    (hwindow : ∀ w, window = some w → w.materializedStartLine = start ∧
      w.materializedEndLine = stop ∧ SameLines (linesOf text) (linesOf source)
        w.materializedStartLine w.materializedEndLine w.sourceStartLine w.sourceEndLine) :
    ∀ block ∈ liftRows (sourceRows text) s start stop window, NumberedBy source block := by
  have hconcat : ∀ block, NumberedBy source block →
      ∀ b ∈ s.blocks ++ [block], NumberedBy source b := by
    intro block hblock b hb
    rcases List.mem_append.mp hb with hb | hb
    · exact h b hb
    · rw [List.mem_singleton.mp hb]
      exact hblock
  unfold liftRows
  simp only
  split_ifs with hempty
  · exact h
  · cases window with
    | none => exact hconcat _ (numberedBy_none _)
    | some w =>
      obtain ⟨hstart, hstop, hsame⟩ := hwindow w rfl
      simp only
      cases hnumbered : numberedWindow (((sourceRows text).take stop).drop (start - 1)).flatten
          w.sourceStartLine w.sourceEndLine with
      | none => exact hconcat _ (numberedBy_none _)
      | some numbered =>
        refine hconcat _ fun path first last hblock => ?_
        obtain ⟨-, rfl, rfl⟩ : path = w.path ∧ first = w.sourceStartLine ∧ last = w.sourceEndLine := by
          simp only [Option.some.injEq, Prod.mk.injEq] at hblock
          exact ⟨hblock.1.symm, hblock.2.1.symm, hblock.2.2.symm⟩
        unfold numberedWindow at hnumbered
        simp only at hnumbered
        split_ifs at hnumbered with hbad hcount
        simp only [not_or] at hbad
        have hcount' := not_not.mp hcount
        -- the content is cut into the rows it is made of
        have hrows : sourceRows (((sourceRows text).take stop).drop (start - 1)).flatten =
            ((sourceRows text).take stop).drop (start - 1) := by
          have hsplit : sourceRows text = ((sourceRows text).take stop).take (start - 1) ++
              (((sourceRows text).take stop).drop (start - 1) ++ (sourceRows text).drop stop) := by
            rw [← List.append_assoc, List.take_append_drop, List.take_append_drop]
          exact rowsBy_infix looksAhead_endsSourceRow hsplit
        refine ⟨_, (Option.some.inj hnumbered).symm, hcount'.symm, fun i row hrow => ?_⟩
        have hi := (List.getElem?_eq_some_iff.mp hrow).1
        obtain ⟨line, hview, hsource⟩ := hsame.lines i (by omega)
        rw [hsource, ← hview, hstart, linesOf, List.getElem?_map]
        rw [hrows, List.getElem?_drop, List.getElem?_take] at hrow
        split at hrow
        · rw [hrow]
          rfl
        · cases hrow

theorem numberedBy_displayWindow (h : ∀ block ∈ s.blocks, NumberedBy source block)
    {window : PageWindow} (hwindow : SameLines (linesOf text) (linesOf source)
      window.materializedStartLine window.materializedEndLine window.sourceStartLine
      window.sourceEndLine) :
    ∀ block ∈ (displayWindow (sourceRows text) s window).blocks, NumberedBy source block := by
  have hgap : ∀ start stop, ∀ block ∈ liftRows (sourceRows text) s start stop none,
      NumberedBy source block :=
    fun start stop => numberedBy_liftRows text h fun w hw => by cases hw
  have hlift : ∀ s' : DisplaySoFar, (∀ block ∈ s'.blocks, NumberedBy source block) →
      ∀ block ∈ liftRows (sourceRows text) s' window.materializedStartLine
        window.materializedEndLine (some window), NumberedBy source block := by
    intro s' hs'
    refine numberedBy_liftRows text hs' fun w hw => ?_
    obtain rfl := Option.some.inj hw
    exact ⟨rfl, rfl, hwindow⟩
  unfold displayWindow
  simp only
  split_ifs with hskip hgapped
  · exact h
  · exact hlift { s with blocks := _ } (hgap _ _)
  · exact hlift s h

/-- **The numbers in the display of a page** are those of the source lines. -/
theorem numberedBy_display {metadata : PageMetadata}
    (hcites : CitesLines text source metadata.windows) {blocks : List RowBlock}
    (h : displayRawSourcePage text metadata = some blocks) :
    ∀ block ∈ blocks, NumberedBy source block := by
  have hfold : ∀ (windows : List PageWindow) (s : DisplaySoFar),
      (∀ window ∈ windows, SameLines (linesOf text) (linesOf source) window.materializedStartLine
        window.materializedEndLine window.sourceStartLine window.sourceEndLine) →
      (∀ block ∈ s.blocks, NumberedBy source block) →
      ∀ block ∈ (windows.foldl (displayWindow (sourceRows text)) s).blocks,
        NumberedBy source block := by
    intro windows
    induction windows with
    | nil => exact fun _ _ h => h
    | cons window windows ih =>
      intro s hwindows h
      exact ih _ (fun w hw => hwindows w (List.mem_cons_of_mem _ hw))
        (numberedBy_displayWindow text h (hwindows window List.mem_cons_self))
  have hwindows : ∀ window ∈ (metadata.windows.filterMap normalizedEvidenceSourceWindow).mergeSort
      (fun a b => decide (a.materializedStartLine ≤ b.materializedStartLine)),
      SameLines (linesOf text) (linesOf source) window.materializedStartLine
        window.materializedEndLine window.sourceStartLine window.sourceEndLine := by
    intro window hwindow
    obtain ⟨old, hold, hnormal⟩ := List.mem_filterMap.mp (List.mem_mergeSort.mp hwindow)
    have hsame := (hcites old hold).2
    unfold normalizedEvidenceSourceWindow at hnormal
    split at hnormal
    · cases hnormal
    · split_ifs at hnormal with hbad
      obtain rfl := Option.some.inj hnormal
      exact hsame
  have hblocks := hfold _ {} hwindows (fun block hblock => by cases hblock)
  unfold displayRawSourcePage at h
  simp only at h
  split_ifs at h with hsource hrest hany hany
  · obtain rfl := Option.some.inj h
    exact numberedBy_liftRows text hblocks fun w hw => by cases hw
  · obtain rfl := Option.some.inj h
    exact hblocks

end Display

/-! ## 6. The citations of a payload -/

theorem slice_length_self (text : Utf16) (start n : ℕ) :
    slice text start (start + n) = slice text start (start + (slice text start (start + n)).length) := by
  rw [slice, slice, Nat.add_sub_cancel_left, Nat.add_sub_cancel_left, List.length_take]
  rcases Nat.le_total n (text.drop start).length with h | h
  · rw [min_eq_left h]
  · rw [min_eq_right h, List.take_of_length_le h, List.take_length]

/-- What the windows of a page cite, as a reader of the page and of the source counts lines. -/
theorem CitesLines.textLines {text source : Utf16} {windows : List PageWindow}
    (h : CitesLines text source windows) {window : PageWindow} (hwindow : window ∈ windows) :
    SameLines (textLines text) (textLines source) window.materializedStartLine
      window.materializedEndLine window.sourceStartLine window.sourceEndLine := by
  obtain ⟨hordered, hsame⟩ := h window hwindow
  obtain ⟨line, hview, hsource⟩ := hsame.lines 0 (by omega)
  have hne : ∀ {t : Utf16} {i : ℕ}, (linesOf t)[i]? = some line → t ≠ [] := by
    rintro t i hget rfl
    cases hget
  rw [textLines_eq (hne hview), textLines_eq (hne hsource)]
  exact hsame

/-- **Citations are sound.**  For slices of a source file: each window of the payload is a slice, by its
units; each window that a page of the payload reports is of lines of the page that are its lines of the
source; and the rows of the page's display are numbered as their source lines are. -/
theorem source_citations_sound {source : Utf16} {windows : List SourceWindow}
    (hslices : ∀ window ∈ windows, IsSliceOf source window) (origin : SliceOrigin) (isSource : Bool)
    (repositoryIdentity sourceVersion : Option String) :
    let stored := sourceContinuationPayload origin windows
    (∀ mapped ∈ stored.2, ∃ window ∈ windows, mapped.sourceStartLine = window.startLine ∧
      mapped.sourceEndLine = window.endLine ∧
      slice stored.1 mapped.payloadStart mapped.payloadEnd = window.content) ∧
    ∀ offset length,
      let text := slice stored.1 offset (offset + length)
      let metadata := sourceMetadataForPartialHashRefView
        ⟨stored.1, isSource, stored.2, repositoryIdentity, sourceVersion⟩ offset text
      (∀ window ∈ metadata.windows, window.sourceStartLine ≤ window.sourceEndLine ∧
        SameLines (textLines text) (textLines source) window.materializedStartLine
          window.materializedEndLine window.sourceStartLine window.sourceEndLine) ∧
      ∀ blocks, displayRawSourcePage text metadata = some blocks →
        ∀ block ∈ blocks, NumberedBy source block := by
  intro stored
  have hmapped : ∀ mapped ∈ stored.2, MappedOk source stored.1 windows mapped :=
    fun mapped h => mappedOk_of_mem origin hslices h
  refine ⟨fun mapped h => (hmapped mapped h).content, fun offset length => ?_⟩
  intro text metadata
  have hcites : CitesLines text source metadata.windows :=
    citesLines_metadata (fun raw hraw => (hmapped raw hraw).lines) (slice_length_self _ _ _)
  exact ⟨fun window hwindow => ⟨(hcites window hwindow).1, hcites.textLines hwindow⟩,
    fun blocks hblocks => numberedBy_display text hcites hblocks⟩

/-- Two slices of a file, the second without its terminator, and a page that begins in a CRLF. -/
theorem source_citations_sound_two :
    let source := units "a\r\nb\n"
    let origin : SliceOrigin := ⟨"a.js", none, none, none, fun _ => ""⟩
    let stored := sourceContinuationPayload origin [⟨units "a\r\n", 1, 1⟩, ⟨units "b", 2, 2⟩]
    let metadata := sourceMetadataForPartialHashRefView ⟨stored.1, true, stored.2, none, none⟩ 2
      (slice stored.1 2 (2 + 2))
    ∀ window ∈ metadata.windows, SameLines (textLines (slice stored.1 2 (2 + 2)))
      (textLines source) window.materializedStartLine window.materializedEndLine
      window.sourceStartLine window.sourceEndLine := by
  intro source origin stored metadata window hwindow
  have hslices : ∀ w ∈ [(⟨units "a\r\n", 1, 1⟩ : SourceWindow), ⟨units "b", 2, 2⟩],
      IsSliceOf source w := by
    intro w hw
    simp only [List.mem_cons, List.not_mem_nil, or_false] at hw
    rcases hw with rfl | rfl
    · exact ⟨by decide, by decide, by decide, [], units "a\r\n", by decide, Or.inl (by decide)⟩
    · exact ⟨by decide, by decide, by decide, [], units "b\n", by decide, Or.inr (by decide)⟩
  exact (((source_citations_sound hslices origin true none none).2 2 2).1 window hwindow).2

end PosseClient
