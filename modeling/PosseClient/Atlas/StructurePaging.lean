/-
# Pages of a code structure are complete

What the pages of `paginateCompactCodeStructure` show, and which of them were measured to fit.

* `placeEdges_rows`, `placeEdges_packed`, `mem_placeEdges`: the pages of edges.
* `placeFiles_placed`: the pages of files.
* `pageRows_of_pages`: the rows that pages show.
-/
import PosseClient.Atlas.StructurePages

namespace PosseClient

open Json

/-! ## 1. Edges -/

section Edges

variable {fits : CompactPage → Bool}

/-- **The edge rows are kept**, in order. -/
theorem placeEdges_rows (page : CompactPage) (rows : List Value) :
    (placeEdges fits page rows).1.flatMap (·.edgeRows) ++ (placeEdges fits page rows).2.edgeRows =
      page.edgeRows ++ rows := by
  induction rows generalizing page with
  | nil => simp [placeEdges]
  | cons row rest ih =>
    rw [placeEdges]
    split
    · rw [ih, List.append_assoc, List.singleton_append]
    · rw [List.flatMap_cons, List.append_assoc, ih]
      rfl

/-- What else the pages of edges hold. -/
theorem placeEdges_files {page : CompactPage} (hfiles : page.files = []) (rows : List Value) :
    (∀ p ∈ (placeEdges fits page rows).1, p.files = [] ∧ p.edgeRows ≠ []) ∧
      (placeEdges fits page rows).2.files = [] ∧
      ((placeEdges fits page rows).2.edgeRows = [] → page.edgeRows = [] ∧ rows = []) := by
  induction rows generalizing page with
  | nil => exact ⟨by simp [placeEdges], hfiles, fun h => ⟨h, rfl⟩⟩
  | cons row rest ih =>
    rw [placeEdges]
    split
    · have hrest := @ih { page with edgeRows := page.edgeRows ++ [row] } hfiles
      refine ⟨hrest.1, hrest.2.1, fun hnil => ?_⟩
      simpa using (hrest.2.2 hnil).1
    case isFalse hfull =>
      have hrest := @ih { edgeRows := [row] } rfl
      refine ⟨?_, hrest.2.1, fun hnil => ?_⟩
      · intro p hp
        rcases List.mem_cons.mp hp with rfl | hp
        · refine ⟨hfiles, fun hempty => hfull ?_⟩
          have hempty : page.edgeRows = [] := hempty
          simp [hempty]
        · exact hrest.1 p hp
      · simpa using (hrest.2.2 hnil).1

/-- A page of edges that begins with `before` behind it closes on `run`: each row of the run but the
first was found to fit, and `row` was not. -/
structure RunEnds (fits : CompactPage → Bool) (before run : List Value) (row : Value) : Prop where
  ne_nil : run ≠ []
  fitted : ∀ k, 2 ≤ k → k ≤ run.length →
    fits { first := before.isEmpty, edgeRows := run.take k } = true
  full : fits { first := before.isEmpty, edgeRows := run ++ [row] } = false

/-- The edge rows that are behind when a page of edges begins. -/
inductive PageStart (fits : CompactPage → Bool) (rows : List Value) : List Value → Prop
  | first : PageStart fits rows []
  | next {before run : List Value} {row : Value} {after : List Value} :
      PageStart fits rows before → rows = before ++ (run ++ row :: after) →
        RunEnds fits before run row → PageStart fits rows (before ++ run)

/-- Wherever a page of edges closes that fits, it fits with the flag that it is continued. -/
def FlagFits (fits : CompactPage → Bool) (rows : List Value) : Prop :=
  ∀ (before run : List Value) (row : Value) (after : List Value), PageStart fits rows before →
    rows = before ++ (run ++ row :: after) → RunEnds fits before run row →
      fits { first := before.isEmpty, edgeRows := run } = true →
        fits { first := before.isEmpty, edgeRows := run, edgesContinued := true } = true

/-- **The page that the edges end on** was measured, or holds no second row. -/
theorem placeEdges_last {page : CompactPage} (hpage : 2 ≤ page.edgeRows.length → fits page = true)
    (rows : List Value) :
    2 ≤ (placeEdges fits page rows).2.edgeRows.length →
      fits (placeEdges fits page rows).2 = true := by
  induction rows generalizing page with
  | nil => exact hpage
  | cons row rest ih =>
    rw [placeEdges]
    split
    case isTrue hfit =>
      refine @ih { page with edgeRows := page.edgeRows ++ [row] } ?_
      intro hlong
      rw [Bool.or_eq_true] at hfit
      rcases hfit with hempty | hfit
      · have hempty : page.edgeRows = [] := by simpa using hempty
        simp [hempty] at hlong
      · exact hfit
    case isFalse => exact @ih { edgeRows := [row] } (by simp)

/-- **A page of edges that closes** was measured as it is, or holds one row that does not fit. -/
theorem placeEdges_packed {all before run rows : List Value} (hflag : FlagFits fits all)
    (hstart : PageStart fits all before) (hall : all = before ++ (run ++ rows))
    (hfitted : ∀ k, 2 ≤ k → k ≤ run.length →
      fits { first := before.isEmpty, edgeRows := run.take k } = true) :
    ∀ p ∈ (placeEdges fits { first := before.isEmpty, edgeRows := run } rows).1,
      fits p = true ∨ p.edgeRows.length = 1 ∧ fits { p with edgesContinued := false } = false := by
  induction rows generalizing before run with
  | nil => simp [placeEdges]
  | cons row rest ih =>
    rw [placeEdges]
    split
    case isTrue hfit =>
      refine ih hstart (by rw [hall]; simp) ?_
      intro k hk hle
      rw [List.length_append, List.length_singleton] at hle
      by_cases hlast : k ≤ run.length
      · rw [List.take_append_of_le_length hlast]
        exact hfitted k hk hlast
      · rw [List.take_of_length_le (by simp; omega)]
        rw [Bool.or_eq_true] at hfit
        rcases hfit with hempty | hfit
        · have hempty : run = [] := by simpa using hempty
          rw [hempty] at hle hlast
          simp at hle hlast
          omega
        · exact hfit
    case isFalse hfull =>
      have hne : run ≠ [] := by
        rintro rfl
        exact hfull rfl
      have hends : RunEnds fits before run row := ⟨hne, hfitted, by simpa [hne] using hfull⟩
      have hbefore : (before ++ run).isEmpty = false := by
        cases before with
        | nil => simpa using hne
        | cons b before => rfl
      have hrest := @ih (before ++ run) [row] (.next hstart hall hends) (by rw [hall]; simp) (by
        intro k hk hle
        simp at hle
        omega)
      rw [hbefore] at hrest
      intro p hp
      rcases List.mem_cons.mp hp with rfl | hp
      · by_cases hfits : fits { first := before.isEmpty, edgeRows := run } = true
        · exact Or.inl (hflag before run row rest hstart hall hends hfits)
        · have hpos := List.length_pos_of_ne_nil hne
          have hsingle : run.length = 1 := by
            by_contra hlong
            have hwhole := hfitted run.length (by omega) le_rfl
            rw [List.take_length] at hwhole
            exact hfits hwhole
          exact Or.inr ⟨hsingle, Bool.eq_false_iff.mpr hfits⟩
      · exact hrest p hp

/-- The loop fills a page up to the end of its run. -/
theorem placeEdges_run {before run rows : List Value} (taken : List Value)
    (hfitted : ∀ k, 2 ≤ k → k ≤ (taken ++ run).length →
      fits { first := before.isEmpty, edgeRows := (taken ++ run).take k } = true) :
    placeEdges fits { first := before.isEmpty, edgeRows := taken } (run ++ rows) =
      placeEdges fits { first := before.isEmpty, edgeRows := taken ++ run } rows := by
  induction run generalizing taken with
  | nil => simp
  | cons row rest ih =>
    have hfit : (taken.isEmpty ||
        fits { first := before.isEmpty, edgeRows := taken ++ [row] }) = true := by
      cases taken with
      | nil => rfl
      | cons first taken =>
        have hwith := hfitted (taken.length + 2) (by omega) (by simp)
        rw [List.append_cons, List.take_append_of_le_length (by simp),
          List.take_of_length_le (by simp)] at hwith
        rw [Bool.or_eq_true]
        exact Or.inr hwith
    have hrest := ih (taken ++ [row]) (by simpa using hfitted)
    rw [List.append_assoc, List.singleton_append] at hrest
    rw [List.cons_append, placeEdges, if_pos hfit, hrest]

/-- Where a page begins, the loop comes to begin it. -/
theorem placeEdges_start {all before after : List Value} (hstart : PageStart fits all before)
    (hall : all = before ++ after) :
    ∃ closed, (placeEdges fits { first := true } all).1 = closed ++
      (placeEdges fits { first := before.isEmpty } after).1 := by
  induction hstart generalizing after with
  | first => exact ⟨[], by rw [hall]; rfl⟩
  | @next before run row rest hstart hrows hends ih =>
    have hafter : after = row :: rest := by
      rw [hrows, List.append_assoc] at hall
      exact (List.append_cancel_left (List.append_cancel_left hall)).symm
    obtain ⟨closed, hclosed⟩ := ih hrows
    have hrun := @placeEdges_run fits before run (row :: rest) [] (by simpa using hends.fitted)
    have hfirst : (before ++ run).isEmpty = false := by
      have hne := hends.ne_nil
      cases before with
      | nil => simpa using hne
      | cons b before => rfl
    have hfull : (run.isEmpty ||
        fits { first := before.isEmpty, edgeRows := run ++ [row] }) = false := by
      simp [hends.ne_nil, hends.full]
    refine ⟨closed ++
      [{ first := before.isEmpty, edgeRows := run, edgesContinued := true }], ?_⟩
    rw [hclosed, hrun, List.nil_append, placeEdges, if_neg (by simp [hfull]), hafter, hfirst,
      placeEdges, if_pos (by simp)]
    simp

/-- **Where a page of edges closes**, it is among the pages, with the flag. -/
theorem mem_placeEdges {all before run after : List Value} {row : Value}
    (hstart : PageStart fits all before) (hall : all = before ++ (run ++ row :: after))
    (hends : RunEnds fits before run row) :
    { first := before.isEmpty, edgeRows := run, edgesContinued := true } ∈
      (placeEdges fits { first := true } all).1 := by
  obtain ⟨closed, hclosed⟩ := placeEdges_start hstart hall
  have hrun := @placeEdges_run fits before run (row :: after) [] (by simpa using hends.fitted)
  rw [hclosed, hrun, List.nil_append, placeEdges, if_neg (by simp [hends.ne_nil, hends.full])]
  simp

/-- The page that the edges end on is not continued. -/
theorem placeEdges_continued {page : CompactPage} (h : page.edgesContinued = false)
    (rows : List Value) : (placeEdges fits page rows).2.edgesContinued = false := by
  induction rows generalizing page with
  | nil => exact h
  | cons row rest ih =>
    rw [placeEdges]
    split
    · exact @ih { page with edgeRows := page.edgeRows ++ [row] } h
    · exact @ih { edgeRows := [row] } rfl

/-- No page has a pagination yet. -/
theorem placeEdges_pagination {page : CompactPage} (h : page.pagination = none)
    (rows : List Value) :
    ∀ p ∈ (placeEdges fits page rows).1 ++ [(placeEdges fits page rows).2],
      p.pagination = none := by
  induction rows generalizing page with
  | nil => simpa [placeEdges] using h
  | cons row rest ih =>
    rw [placeEdges]
    split
    · exact @ih { page with edgeRows := page.edgeRows ++ [row] } h
    · intro p hp
      rw [List.cons_append] at hp
      rcases List.mem_cons.mp hp with rfl | hp
      · exact h
      · exact @ih { edgeRows := [row] } rfl p hp

end Edges

/-! ## 2. Files -/

/-- Pages that go on from a page: the page with other files, and pages that hold files only. -/
def GoesOn (page : CompactPage) (pages : List CompactPage) : Prop :=
  ∃ files rest, pages = { page with files := files } :: rest ∧
    ∀ q ∈ rest, ∃ files : List PageFile, q = { files := files }

theorem GoesOn.trans {page last : CompactPage} {closed pages : List CompactPage}
    (h : GoesOn page (closed ++ [last])) (hnext : GoesOn last pages) :
    GoesOn page (closed ++ pages) := by
  obtain ⟨files, rest, heq, hrest⟩ := h
  obtain ⟨files', rest', rfl, hrest'⟩ := hnext
  cases closed with
  | nil =>
    rw [List.nil_append, List.cons.injEq] at heq
    exact ⟨files', rest', by rw [heq.1, List.nil_append], hrest'⟩
  | cons head closed =>
    rw [List.cons_append, List.cons.injEq] at heq
    refine ⟨files, closed ++ { last with files := files' } :: rest', by rw [heq.1]; rfl, ?_⟩
    intro q hq
    rcases List.mem_append.mp hq with hq | hq
    · exact hrest q (heq.2 ▸ List.mem_append_left _ hq)
    · rcases List.mem_cons.mp hq with rfl | hq
      · obtain ⟨files'', rfl⟩ := hrest last (heq.2 ▸ List.mem_append_right _ List.mem_cons_self)
        exact ⟨files', rfl⟩
      · exact hrest' q hq

/-- A page that goes on from one with content, or from the first. -/
def CompactPage.IsOpen (page : CompactPage) : Prop :=
  page.hasContent = true ∨ page = { first := true }

/-- The page holds one row: an edge, a file without symbols or one symbol. -/
def CompactPage.SingleRow (page : CompactPage) : Prop :=
  page.edgeRows.length = 1 ∧ page.files = [] ∨
    page.edgeRows = [] ∧ ∃ entry, page.files = [entry] ∧ entry.symbols.length ≤ 1

/-- The page was measured, or there was nothing to take from it. -/
def CompactPage.Packed (fits : CompactPage → Bool) (page : CompactPage) : Prop :=
  fits page = true ∨ page.SingleRow ∨ page = { first := true }

/-- **The entries show a file**: its symbols once, in order, and the file even without any. -/
structure ShowsFile (file : Members) (entries : List PageFile) : Prop where
  ne_nil : entries ≠ []
  of_file : ∀ entry ∈ entries, entry.file = file
  symbols : entries.flatMap (·.symbols) = symbolEntries file
  length_le : entries.length ≤ 1 + (symbolEntries file).length

theorem showsFile_whole (file : Members) : ShowsFile file [⟨file, none⟩] := by
  constructor
  · simp
  · simp
  · simp [PageFile.symbols]
  · simp

section Slices

variable {fits : CompactPage → Bool}

theorem fillSlice_fits (fitsWith : Members → Bool) {taken : Members} (entries : Members)
    (hne : taken ≠ []) (htaken : taken.length = 1 ∨ fitsWith taken = true) :
    (fillSlice fitsWith taken entries).1 ≠ [] ∧
      ((fillSlice fitsWith taken entries).1.length = 1 ∨
        fitsWith (fillSlice fitsWith taken entries).1 = true) := by
  induction entries generalizing taken with
  | nil => exact ⟨hne, htaken⟩
  | cons entry rest ih =>
    rw [fillSlice]
    split
    case isTrue hfit =>
      refine ih (by simp) (Or.inr ?_)
      simpa [hne] using hfit
    case isFalse => exact ⟨hne, htaken⟩

/-- A slice takes a symbol, and more only as far as they fit. -/
theorem nextSlice_fits (page : CompactPage) (file : Members) (part : ℕ) (entry : Utf16 × Value)
    (rest : Members) :
    (nextSlice fits page file part (entry :: rest)).1 ≠ [] ∧
      ((nextSlice fits page file part (entry :: rest)).1.length = 1 ∨
        fits (withSlice page file
          ⟨(nextSlice fits page file part (entry :: rest)).1, part + 1, true⟩) = true) := by
  unfold nextSlice
  rw [fillSlice, if_pos (by simp)]
  exact fillSlice_fits _ rest (by simp) (Or.inl rfl)

/-- **The slices of a file** hold its symbols once, in order, one slice to a page. -/
theorem sliceFile_shows (file : Members) (part : ℕ) (page : CompactPage) {entries : Members}
    (hfiles : page.files = []) (hentries : entries ≠ []) :
    GoesOn page ((sliceFile fits file part page entries).1 ++
        [(sliceFile fits file part page entries).2]) ∧
      ∃ shown : List PageFile, shown ≠ [] ∧ (∀ entry ∈ shown, entry.file = file) ∧
        shown.flatMap (·.symbols) = entries ∧ shown.length ≤ entries.length ∧
        ((sliceFile fits file part page entries).1 ++
          [(sliceFile fits file part page entries).2]).flatMap (·.files) = shown := by
  fun_induction sliceFile fits file part page entries with
  | case1 => exact absurd rfl hentries
  | case2 part page entry rest filled placed hlast =>
    have hall := fillSlice_append
      (fun symbols => fits (withSlice page file ⟨symbols, part + 1, true⟩)) [] (entry :: rest)
    have hrest : filled.2 = [] := List.isEmpty_iff.mp hlast
    refine ⟨⟨_, [], rfl, by simp⟩, [⟨file, some ⟨filled.1, part + 1, !filled.2.isEmpty⟩⟩], by simp,
      by simp, ?_, by simp, by simp [placed, withSlice, hfiles]⟩
    change filled.1 ++ filled.2 = _ at hall
    rw [hrest, List.append_nil] at hall
    simpa [PageFile.symbols] using hall
  | case3 part page entry rest filled placed hmore next ih =>
    have hall := fillSlice_append
      (fun symbols => fits (withSlice page file ⟨symbols, part + 1, true⟩)) [] (entry :: rest)
    change filled.1 ++ filled.2 = _ at hall
    have hrest : filled.2 ≠ [] := fun hnil => hmore (List.isEmpty_iff.mpr hnil)
    obtain ⟨⟨files, others, heq, hothers⟩, shown, hne, hfile, hsymbols, hlength, hshown⟩ :=
      ih rfl hrest
    refine ⟨⟨_, _, rfl, ?_⟩, ⟨file, some ⟨filled.1, part + 1, !filled.2.isEmpty⟩⟩ :: shown, by simp,
      ?_, ?_, ?_, ?_⟩
    · intro q hq
      change q ∈ next.1 ++ [next.2] at hq
      rw [heq] at hq
      rcases List.mem_cons.mp hq with rfl | hq
      · exact ⟨files, rfl⟩
      · exact hothers q hq
    · intro e he
      rcases List.mem_cons.mp he with rfl | he
      · rfl
      · exact hfile e he
    · rw [List.flatMap_cons, hsymbols]
      exact hall
    · have hshorter := fillSlice_length
        (fun symbols => fits (withSlice page file ⟨symbols, part + 1, true⟩)) entry rest
      change filled.2.length < _ at hshorter
      rw [List.length_cons]
      omega
    · rw [List.cons_append, List.flatMap_cons, hshown]
      simp [placed, withSlice, hfiles]

/-- **The slices of a file were measured**, or hold one symbol. -/
theorem sliceFile_packed (hdrop : ∀ page file symbols part,
      fits (withSlice page file ⟨symbols, part, true⟩) = true →
        fits (withSlice page file ⟨symbols, part, false⟩) = true)
    (file : Members) (part : ℕ) (page : CompactPage) {entries : Members}
    (hfiles : page.files = []) (hedges : page.edgeRows = []) (hentries : entries ≠ []) :
    ∀ p ∈ (sliceFile fits file part page entries).1 ++ [(sliceFile fits file part page entries).2],
      p.hasContent = true ∧ p.Packed fits := by
  have hplaced : ∀ (part : ℕ) (page : CompactPage) (entry : Utf16 × Value) (rest : Members),
      page.files = [] → page.edgeRows = [] → ∀ continued : Bool,
      (withSlice page file ⟨(nextSlice fits page file part (entry :: rest)).1, part + 1,
        continued⟩).hasContent = true ∧
      (withSlice page file ⟨(nextSlice fits page file part (entry :: rest)).1, part + 1,
        continued⟩).Packed fits := by
    intro part page entry rest hfiles hedges continued
    refine ⟨by simp [withSlice, CompactPage.hasContent], ?_⟩
    rcases (@nextSlice_fits fits page file part entry rest).2 with hone | hfits
    · refine Or.inr (Or.inl (Or.inr ⟨hedges, _, by rw [withSlice, hfiles]; rfl, ?_⟩))
      exact le_of_eq hone
    · cases continued with
      | true => exact Or.inl hfits
      | false => exact Or.inl (hdrop _ _ _ _ hfits)
  fun_induction sliceFile fits file part page entries with
  | case1 => exact absurd rfl hentries
  | case2 part page entry rest filled placed hlast =>
    intro p hp
    rw [List.nil_append, List.mem_singleton] at hp
    rw [hp]
    exact hplaced part page entry rest hfiles hedges _
  | case3 part page entry rest filled placed hmore next ih =>
    intro p hp
    rcases List.mem_cons.mp hp with rfl | hp
    · exact hplaced part page entry rest hfiles hedges _
    · exact ih rfl rfl (fun hnil => hmore (List.isEmpty_iff.mpr hnil)) p hp

end Slices

section Files

variable {fits : CompactPage → Bool}

/-- **What the loop over the files keeps**: the pages go on from the one they began with, show each
file, and were measured. -/
structure FilesPlaced (fits : CompactPage → Bool) (page : CompactPage) (files : List Members)
    (pages : List CompactPage × CompactPage) : Prop where
  goesOn : GoesOn page (pages.1 ++ [pages.2])
  shows : ∃ shown, List.Forall₂ ShowsFile files shown ∧
    (pages.1 ++ [pages.2]).flatMap (·.files) = page.files ++ shown.flatten
  closed : ∀ p ∈ pages.1, p.hasContent = true
  last : pages.2.hasContent = true ∨ files = [] ∧ pages.2 = page
  packed : ∀ p ∈ pages.1 ++ [pages.2], p.Packed fits

/-- A page opened for a file that the page at hand has no room for. -/
theorem filesPlaced_opened {page opened : CompactPage} {file : Members}
    {placed : List CompactPage × CompactPage} {shown : List PageFile}
    (hpacked : page.Packed fits)
    (hopened : opened = if page.hasContent then {} else page)
    (hgoesOn : GoesOn opened (placed.1 ++ [placed.2])) (hshows : ShowsFile file shown)
    (hfiles : (placed.1 ++ [placed.2]).flatMap (·.files) = shown)
    (hmeasured : ∀ p ∈ placed.1 ++ [placed.2], p.hasContent = true ∧ p.Packed fits) :
    FilesPlaced fits page [file]
      ((if page.hasContent then [page] else []) ++ placed.1, placed.2) := by
  by_cases hcontent : page.hasContent = true
  · simp only [hcontent, if_true] at hopened ⊢
    constructor
    · obtain ⟨files, rest, heq, hrest⟩ := hgoesOn
      refine ⟨page.files, placed.1 ++ [placed.2], rfl, fun q hq => ?_⟩
      rw [heq] at hq
      rcases List.mem_cons.mp hq with rfl | hq
      · exact ⟨files, by rw [hopened]⟩
      · exact hrest q hq
    · refine ⟨[shown], .cons hshows .nil, ?_⟩
      rw [List.append_assoc, List.singleton_append, List.flatMap_cons, hfiles]
      simp
    · intro p hp
      rcases List.mem_cons.mp hp with rfl | hp
      · exact hcontent
      · exact (hmeasured p (List.mem_append_left _ hp)).1
    · exact Or.inl (hmeasured _ (List.mem_append_right _ List.mem_cons_self)).1
    · intro p hp
      rcases List.mem_cons.mp hp with rfl | hp
      · exact hpacked
      · exact (hmeasured p hp).2
  · simp only [hcontent, Bool.false_eq_true, if_false, List.nil_append] at hopened ⊢
    have hblank : page.files = [] := by
      simp only [CompactPage.hasContent, Bool.not_eq_true, Bool.or_eq_false_iff] at hcontent
      simpa using hcontent.1
    constructor
    · rwa [← hopened]
    · refine ⟨[shown], .cons hshows .nil, ?_⟩
      rw [hfiles, hblank]
      simp
    · exact fun p hp => (hmeasured p (List.mem_append_left _ hp)).1
    · exact Or.inl (hmeasured _ (List.mem_append_right _ List.mem_cons_self)).1
    · exact fun p hp => (hmeasured p hp).2

/-- A page of a file as a whole. -/
theorem packed_whole {opened : CompactPage} {file : Members} (hedges : opened.edgeRows = [])
    (h : fits { opened with files := [⟨file, none⟩] } = true ∨ symbolEntries file = []) :
    ∀ p ∈ ([] : List CompactPage) ++ [{ opened with files := [⟨file, none⟩] }],
      p.hasContent = true ∧ p.Packed fits := by
  intro p hp
  rw [List.nil_append, List.mem_singleton] at hp
  rw [hp]
  refine ⟨by simp [CompactPage.hasContent], ?_⟩
  rcases h with hfit | hempty
  · exact Or.inl hfit
  · exact Or.inr (Or.inl (Or.inr ⟨hedges, _, rfl, by simp [PageFile.symbols, hempty]⟩))

/-- **One file more.** -/
theorem placeFile_placed (hdrop : ∀ page file symbols part,
      fits (withSlice page file ⟨symbols, part, true⟩) = true →
        fits (withSlice page file ⟨symbols, part, false⟩) = true)
    {page : CompactPage} (hopen : page.IsOpen) (hpacked : page.Packed fits) (file : Members) :
    FilesPlaced fits page [file] (placeFile fits page file) := by
  have hblank : ∀ opened : CompactPage, opened = (if page.hasContent then {} else page) →
      opened.files = [] ∧ opened.edgeRows = [] := by
    intro opened hopened
    rw [hopened]
    split
    case isTrue => exact ⟨rfl, rfl⟩
    case isFalse hcontent =>
      rcases hopen with h | h
      · exact absurd h hcontent
      · rw [h]
        exact ⟨rfl, rfl⟩
  unfold placeFile
  dsimp only
  split
  case isTrue hfit =>
    constructor
    · exact ⟨_, [], rfl, by simp⟩
    · exact ⟨[[⟨file, none⟩]], .cons (showsFile_whole file) .nil, by simp⟩
    · simp
    · exact Or.inl (by simp [CompactPage.hasContent])
    · intro p hp
      rw [List.nil_append, List.mem_singleton] at hp
      exact hp ▸ Or.inl hfit
  case isFalse =>
    generalize hopened : (if page.hasContent then ({} : CompactPage) else page) = opened
    obtain ⟨hfiles, hedges⟩ := hblank opened hopened.symm
    have hwhole := @filesPlaced_opened _ _ _ _ ([], { opened with files := [⟨file, none⟩] }) _
      hpacked hopened.symm ⟨_, [], rfl, by simp⟩ (showsFile_whole file) (by simp)
    rw [List.append_nil] at hwhole
    split
    case isTrue hfit => exact hwhole (packed_whole hedges (Or.inl hfit))
    case isFalse =>
      split
      case isTrue hempty => exact hwhole (packed_whole hedges (Or.inr (List.isEmpty_iff.mp hempty)))
      case isFalse hsymbols =>
        have hne : symbolEntries file ≠ [] := fun h => hsymbols (List.isEmpty_iff.mpr h)
        obtain ⟨hgoesOn, shown, hshown, hfile, hentries, hlength, heq⟩ :=
          @sliceFile_shows fits file 0 opened _ hfiles hne
        exact filesPlaced_opened hpacked hopened.symm hgoesOn
          ⟨hshown, hfile, hentries, by omega⟩ heq
          (sliceFile_packed hdrop file 0 opened hfiles hedges hne)

/-- **The files are shown**, each of them, on pages that were measured. -/
theorem placeFiles_placed (hdrop : ∀ page file symbols part,
      fits (withSlice page file ⟨symbols, part, true⟩) = true →
        fits (withSlice page file ⟨symbols, part, false⟩) = true)
    {page : CompactPage} (hopen : page.IsOpen) (hpacked : page.Packed fits)
    (files : List Members) : FilesPlaced fits page files (placeFiles fits page files) := by
  induction files generalizing page with
  | nil =>
    constructor
    · exact ⟨page.files, [], rfl, by simp⟩
    · exact ⟨[], .nil, by simp [placeFiles]⟩
    · simp [placeFiles]
    · exact Or.inr ⟨rfl, rfl⟩
    · intro p hp
      rw [placeFiles, List.nil_append, List.mem_singleton] at hp
      exact hp ▸ hpacked
  | cons file rest ih =>
    have hone := placeFile_placed hdrop hopen hpacked file
    have hcontent : (placeFile fits page file).2.hasContent = true := by
      rcases hone.last with h | h
      · exact h
      · simp at h
    have hrest := ih (Or.inl hcontent) (hone.packed _ (List.mem_append_right _ List.mem_cons_self))
    rw [placeFiles]
    constructor
    · rw [List.append_assoc]
      exact hone.goesOn.trans hrest.goesOn
    · obtain ⟨shown, hshown, heq⟩ := hone.shows
      obtain ⟨shown', hshown', heq'⟩ := hrest.shows
      obtain ⟨entries, hentries, rfl⟩ : ∃ entries, ShowsFile file entries ∧ shown = [entries] := by
        cases hshown with
        | cons hentries hnil =>
          cases hnil
          exact ⟨_, hentries, rfl⟩
      refine ⟨entries :: shown', .cons hentries hshown', ?_⟩
      rw [List.flatMap_append] at heq ⊢
      rw [List.flatMap_append, List.append_assoc, ← List.flatMap_append, heq', ← List.append_assoc]
      rw [List.flatMap_singleton] at heq
      rw [heq]
      simp
    · intro p hp
      rcases List.mem_append.mp hp with hp | hp
      · exact hone.closed p hp
      · exact hrest.closed p hp
    · rcases hrest.last with h | ⟨_, h⟩
      · exact Or.inl h
      · refine Or.inl ?_
        change (placeFiles fits (placeFile fits page file).2 rest).2.hasContent = true
        rw [h]
        exact hcontent
    · intro p hp
      rw [List.append_assoc] at hp
      rcases List.mem_append.mp hp with hp | hp
      · exact hone.packed p (List.mem_append_left _ hp)
      · exact hrest.packed p hp

end Files

/-! ## 3. Rows -/

section Rows

variable (text : Option Value → Utf16)

/-- The rows of an entry's symbols. -/
def entryRows (entry : PageFile) : List Utf16 :=
  entry.symbols.map fun symbol => symbolPageRow text entry.file symbol.1

/-- Pages of edges, before others. -/
theorem pageRowsFrom_edges {closed : List CompactPage} (hclosed : ∀ p ∈ closed, p.files = [])
    (edgeIndex : ℕ) (pages : List CompactPage) :
    pageRowsFrom text edgeIndex (closed ++ pages) =
      ((closed.flatMap (·.edgeRows)).zipIdx edgeIndex).map (fun p => edgePageRow text p.1 p.2) ++
        pageRowsFrom text (edgeIndex + (closed.flatMap (·.edgeRows)).length) pages := by
  induction closed generalizing edgeIndex with
  | nil => simp
  | cons page closed ih =>
    rw [List.cons_append, pageRowsFrom, hclosed page List.mem_cons_self,
      ih fun p hp => hclosed p (List.mem_cons_of_mem page hp)]
    simp only [List.flatMap_nil, List.append_nil, List.flatMap_cons, List.zipIdx_append,
      List.map_append, List.length_append, List.append_assoc, Nat.add_assoc]

/-- Pages of files. -/
theorem pageRowsFrom_files {pages : List CompactPage} (hpages : ∀ p ∈ pages, p.edgeRows = [])
    (edgeIndex : ℕ) :
    pageRowsFrom text edgeIndex pages = (pages.flatMap (·.files)).flatMap (entryRows text) := by
  induction pages generalizing edgeIndex with
  | nil => rfl
  | cons page pages ih =>
    rw [pageRowsFrom, hpages page List.mem_cons_self,
      ih fun p hp => hpages p (List.mem_cons_of_mem page hp)]
    simp only [List.zipIdx_nil, List.map_nil, List.nil_append, List.flatMap_cons,
      List.flatMap_append]
    rfl

/-- **The rows of pages** of edges and then of files. -/
theorem pageRows_of_pages {closed pages : List CompactPage} {last : CompactPage}
    (hclosed : ∀ p ∈ closed, p.files = []) (hpages : GoesOn last pages) :
    compactCodeStructurePageRows text (closed ++ pages) =
      ((closed.flatMap (·.edgeRows) ++ last.edgeRows).zipIdx).map
          (fun p => edgePageRow text p.1 p.2) ++
        (pages.flatMap (·.files)).flatMap (entryRows text) := by
  obtain ⟨files, rest, rfl, hrest⟩ := hpages
  have hnone : ∀ p ∈ rest, p.edgeRows = [] := by
    intro p hp
    obtain ⟨files, rfl⟩ := hrest p hp
    rfl
  rw [compactCodeStructurePageRows, pageRowsFrom_edges text hclosed, pageRowsFrom,
    pageRowsFrom_files text hnone, List.zipIdx_append, List.map_append, List.flatMap_cons,
    List.flatMap_append]
  simp only [List.append_assoc]
  rfl

/-- The entries of a file have the rows of the file. -/
theorem ShowsFile.rows {file : Members} {entries : List PageFile} (h : ShowsFile file entries) :
    entries.flatMap (entryRows text) = entryRows text ⟨file, none⟩ := by
  have hrows : ∀ entries : List PageFile, (∀ entry ∈ entries, entry.file = file) →
      entries.flatMap (entryRows text) =
        (entries.flatMap (·.symbols)).map fun symbol => symbolPageRow text file symbol.1 := by
    intro entries
    induction entries with
    | nil => exact fun _ => rfl
    | cons entry rest ih =>
      intro hfile
      rw [List.flatMap_cons, List.flatMap_cons, List.map_append,
        ih fun e he => hfile e (List.mem_cons_of_mem entry he), entryRows,
        hfile entry List.mem_cons_self]
  rw [hrows entries h.of_file, h.symbols]
  rfl

/-- **What is shown of the files** has their rows. -/
theorem rows_of_shown {files : List Members} {shown : List (List PageFile)}
    (h : List.Forall₂ ShowsFile files shown) :
    shown.flatten.flatMap (entryRows text) =
      (files.map fun file => (⟨file, none⟩ : PageFile)).flatMap (entryRows text) := by
  induction h with
  | nil => rfl
  | cons hfile _ ih =>
    rw [List.flatten_cons, List.flatMap_append, hfile.rows text, ih, List.map_cons,
      List.flatMap_cons]

/-- The rows do not depend on how pages are numbered. -/
theorem pageRowsFrom_congr {pages pages' : List CompactPage}
    (h : pages.map (fun p => (p.edgeRows, p.files)) = pages'.map (fun p => (p.edgeRows, p.files)))
    (edgeIndex : ℕ) : pageRowsFrom text edgeIndex pages = pageRowsFrom text edgeIndex pages' := by
  induction pages generalizing pages' edgeIndex with
  | nil =>
    cases pages' with
    | nil => rfl
    | cons page' pages' => cases h
  | cons page pages ih =>
    cases pages' with
    | nil => cases h
    | cons page' pages' =>
      rw [List.map_cons, List.map_cons, List.cons.injEq, Prod.mk.injEq] at h
      rw [pageRowsFrom, pageRowsFrom, h.1.1, h.1.2, ih h.2]

end Rows

end PosseClient
