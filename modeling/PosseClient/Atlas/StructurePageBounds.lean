/-
# Pages of a code structure are within bounds

How long the pages are that `paginateCompactCodeStructure` gives, against the ones it measured.

* `chars_numbered`: the pagination of a page against the one reserved for it.
* `pageFits_drop`, `pageFits_first`: pages that show less.
* `structure_pages_exact`: completeness, progress and bounds.
-/
import PosseClient.Atlas.StructurePaging

namespace PosseClient

open Json

/-! ## 1. Sizes -/

/-- The text of a pagination, by its counters. -/
theorem length_pagination : ∃ fixed more : ℕ, ∀ pagination : Pagination,
    (stringify pagination.render).length =
      (natText pagination.page).length + (natText pagination.pages).length +
        (natText pagination.filesOnPage).length + fixed +
          (if pagination.hasMore then more else 0) := by
  have hnumber : ∀ n, stringify (ofNat n) = natText n := fun n => by rw [ofNat, stringify]
  refine ⟨(quote (units "page")).length + (quote (units "pages")).length +
    (quote (units "filesOnPage")).length + 7, memberLength (units "hasMore", .bool true), ?_⟩
  intro pagination
  unfold Pagination.render
  rw [length_object (by simp)]
  cases pagination.hasMore with
  | true =>
    simp only [memberLength, hnumber, if_true, List.map_append, List.sum_append, List.map_cons,
      List.map_nil, List.sum_cons, List.sum_nil]
    omega
  | false =>
    simp only [memberLength, hnumber, Bool.false_eq_true, if_false, List.map_append,
      List.sum_append, List.map_cons, List.map_nil, List.sum_cons, List.sum_nil]
    omega

/-- Counters of at most four digits fit the pagination that is reserved. -/
theorem length_pagination_le {pagination : Pagination} (hpage : pagination.page ≤ 9999)
    (hpages : pagination.pages ≤ 9999) (hfiles : pagination.filesOnPage ≤ 9999) :
    (stringify pagination.render).length ≤ (stringify paginationReserve.render).length := by
  obtain ⟨fixed, more, hlength⟩ := length_pagination
  have hdigits : ∀ n, n ≤ 9999 → (natText n).length ≤ 4 :=
    fun n hn => natText_length_le (by omega) (by omega)
  have hreserve : (natText 9999).length = 4 := by decide +kernel
  have hmore : (if pagination.hasMore then more else 0) ≤ more := by
    split
    · exact le_rfl
    · exact Nat.zero_le _
  have h1 := hdigits _ hpage
  have h2 := hdigits _ hpages
  have h3 := hdigits _ hfiles
  rw [hlength, hlength]
  simp only [paginationReserve, hreserve, if_true]
  omega

/-- A pagination with more to come is at most nine units shorter than the one reserved. -/
theorem length_pagination_ge {pagination : Pagination} (hmore : pagination.hasMore = true) :
    (stringify paginationReserve.render).length ≤ (stringify pagination.render).length + 9 := by
  obtain ⟨fixed, more, hlength⟩ := length_pagination
  have hdigits : ∀ n, 1 ≤ (natText n).length :=
    fun n => List.length_pos_of_ne_nil (natText_ne_nil n)
  have hreserve : (natText 9999).length = 4 := by decide +kernel
  have h1 := hdigits pagination.page
  have h2 := hdigits pagination.pages
  have h3 := hdigits pagination.filesOnPage
  rw [hlength, hlength]
  simp only [paginationReserve, hreserve, hmore, if_true]
  omega

/-- How long a page is with the pagination that is reserved. -/
def CompactPage.reserved (projected : CompactStructure) (page : CompactPage) : ℕ :=
  { page with pagination := some paginationReserve }.chars projected

theorem pageFits_iff {projected : CompactStructure} {maxChars : ℤ} {page : CompactPage} :
    pageFits projected maxChars page = true ↔ (page.reserved projected : ℤ) ≤ maxChars := by
  rw [pageFits, decide_eq_true_iff, CompactPage.reserved]

/-- **A page with its pagination**, against the one reserved. -/
theorem chars_numbered (projected : CompactStructure) (page : CompactPage)
    (pagination : Pagination) :
    { page with pagination := some pagination }.chars projected +
        (stringify paginationReserve.render).length =
      page.reserved projected + (stringify pagination.render).length :=
  length_object_put_swap pagination.render paginationReserve.render

/-- A header has no member that its pagination replaces, or none that is longer than the one
reserved. -/
def CompactStructure.RoomForPagination (projected : CompactStructure) : Prop :=
  ∀ own, findMember (units "pagination") projected.header = some own →
    (stringify own).length ≤ (stringify paginationReserve.render).length

theorem members_ne_nil (projected : CompactStructure) (page : CompactPage) :
    page.members projected ≠ [] := by
  unfold CompactPage.members
  simp

theorem findMember_append {key : Utf16} (members members' : Members) :
    findMember key (members ++ members') =
      (findMember key members).or (findMember key members') := by
  unfold findMember
  rw [List.find?_append]
  cases List.find? (fun member => decide (member.1 = key)) members <;> rfl

/-- A page without a pagination. -/
theorem chars_unnumbered {projected : CompactStructure} (hroom : projected.RoomForPagination)
    {page : CompactPage} (hpage : page.pagination = none) :
    page.chars projected ≤ page.reserved projected := by
  have hrender : page.render projected = .object (page.members projected) := by
    unfold CompactPage.render
    rw [hpage]
  unfold CompactPage.chars
  rw [hrender]
  refine length_object_le_put (members_ne_nil projected page) ?_
  intro own hown
  have hkeys : units "edges" ≠ units "pagination" ∧ units "files" ≠ units "pagination" ∧
      units "projection" ≠ units "pagination" := by decide +kernel
  have hrest : findMember (units "pagination") [(units "edges", .object (page.edges projected)),
      (units "files", .array (page.files.map PageFile.render))] = none := by
    rw [findMember_cons, findMember_cons, if_neg hkeys.1, if_neg hkeys.2.1]
    rfl
  unfold CompactPage.members at hown
  rw [findMember_append, hrest, Option.or_none] at hown
  split at hown
  case isTrue => exact hroom own hown
  case isFalse =>
    cases hprojection : findMember (units "projection") projected.header with
    | none =>
      rw [hprojection] at hown
      cases hown
    | some value =>
      rw [hprojection, Option.map_some, Option.toList_some, findMember_cons,
        if_neg hkeys.2.2] at hown
      cases hown

/-! ## 2. Pages that show less -/

theorem forall₂_shorter_refl (members : Members) : List.Forall₂ ShorterMember members members :=
  List.forall₂_same.mpr fun member _ => ShorterMember.refl member

/-- A page is no longer than another with longer edges and files. -/
theorem reserved_mono {projected : CompactStructure} {page page' : CompactPage}
    (hfirst : page.first = page'.first)
    (hedges : (stringify (.object (page.edges projected))).length ≤
      (stringify (.object (page'.edges projected))).length)
    (hfiles : (stringify (.array (page.files.map PageFile.render))).length ≤
      (stringify (.array (page'.files.map PageFile.render))).length) :
    page.reserved projected ≤ page'.reserved projected := by
  refine length_object_mono putMember_ne_nil (putMember_mono ?_ le_rfl)
  unfold CompactPage.members
  rw [show ({ page with pagination := some paginationReserve } : CompactPage).first =
    ({ page' with pagination := some paginationReserve } : CompactPage).first from hfirst]
  exact List.rel_append (forall₂_shorter_refl _)
    (.cons ⟨rfl, hedges⟩ (.cons ⟨rfl, hfiles⟩ .nil))

theorem mem_putMember {key : Utf16} {value : Value} (members : Members) :
    (key, value) ∈ putMember key value members := by
  induction members with
  | nil => exact List.mem_cons_self
  | cons member members ih =>
    rw [putMember]
    split
    · exact List.mem_cons_self
    · exact List.mem_cons_of_mem _ ih

/-- The last slice of a file is no longer without its flag. -/
theorem length_slice_last (file symbols : Members) (part : ℕ) :
    (stringify (PageFile.render ⟨file, some ⟨symbols, part, false⟩⟩)).length ≤
      (stringify (PageFile.render ⟨file, some ⟨symbols, part, true⟩⟩)).length := by
  refine length_object_remove _ _ ?_
  have hpart := @mem_putMember (units "part") (ofNat part)
    (putMember (units "symbols") (.object symbols) file)
  have hkey : units "part" ≠ units "continued" := by decide +kernel
  exact List.ne_nil_of_mem (List.mem_filter.mpr ⟨hpart, decide_eq_true hkey⟩)

/-- **A slice that fits with the flag** fits without it. -/
theorem pageFits_drop (projected : CompactStructure) (maxChars : ℤ) (page : CompactPage)
    (file symbols : Members) (part : ℕ)
    (h : pageFits projected maxChars (withSlice page file ⟨symbols, part, true⟩) = true) :
    pageFits projected maxChars (withSlice page file ⟨symbols, part, false⟩) = true := by
  rw [pageFits_iff] at h ⊢
  have hle : (withSlice page file ⟨symbols, part, false⟩).reserved projected ≤
      (withSlice page file ⟨symbols, part, true⟩).reserved projected := by
    refine reserved_mono rfl le_rfl (length_array_mono ?_)
    unfold withSlice
    rw [List.map_append, List.map_append]
    refine List.rel_append (R := fun item item' : Value =>
      (stringify item).length ≤ (stringify item').length) ?_ ?_
    · exact List.forall₂_same.mpr fun item _ => le_rfl
    · exact .cons (length_slice_last file symbols part) .nil
  omega

/-- **A first page that fits** has a header that fits. -/
theorem pageFits_first {projected : CompactStructure} {maxChars : ℤ} {rows : List Value}
    (h : pageFits projected maxChars { first := true, edgeRows := rows } = true) :
    pageFits projected maxChars { first := true } = true := by
  rw [pageFits_iff] at h ⊢
  have hle : CompactPage.reserved projected { first := true } ≤
      CompactPage.reserved projected { first := true, edgeRows := rows } := by
    refine reserved_mono rfl ?_ le_rfl
    unfold CompactPage.edges
    simp only [List.isEmpty_nil, if_true, List.append_nil, Bool.false_eq_true, if_false]
    by_cases hheader : projected.edgeHeader = []
    · rw [hheader]
      simp only [stringify, stringifyMembers, List.length_append, List.length_cons,
        List.length_nil]
      omega
    · rw [length_object hheader, length_object (by simp [hheader]), List.map_append,
        List.sum_append]
      omega
  omega

/-! ## 3. Packing -/

section Pack

variable (projected : CompactStructure) (maxChars : ℤ)

/-- The page that the loop over the files begins with. -/
def lastOfEdges : CompactPage :=
  (placeEdges (pageFits projected maxChars) { first := true } projected.edgeRows).2

theorem lastOfEdges_isOpen : (lastOfEdges projected maxChars).IsOpen := by
  by_cases hrows : (lastOfEdges projected maxChars).edgeRows = []
  · have hnil := ((@placeEdges_files (pageFits projected maxChars)
      { first := true } rfl projected.edgeRows).2.2 hrows).2
    refine Or.inr ?_
    rw [lastOfEdges, hnil]
    rfl
  · exact Or.inl (by simp [CompactPage.hasContent, hrows])

theorem lastOfEdges_files : (lastOfEdges projected maxChars).files = [] :=
  (@placeEdges_files (pageFits projected maxChars) { first := true } rfl
    projected.edgeRows).2.1

theorem lastOfEdges_packed :
    (lastOfEdges projected maxChars).Packed (pageFits projected maxChars) := by
  rcases lastOfEdges_isOpen projected maxChars with hcontent | hblank
  · have hfiles := lastOfEdges_files projected maxChars
    by_cases hlong : 2 ≤ (lastOfEdges projected maxChars).edgeRows.length
    · exact Or.inl (placeEdges_last (by simp) projected.edgeRows hlong)
    · have hsingle : (lastOfEdges projected maxChars).edgeRows.length = 1 := by
        simp only [CompactPage.hasContent, hfiles, List.isEmpty_nil, Bool.not_true, Bool.false_or,
          Bool.not_eq_true', List.isEmpty_eq_false_iff] at hcontent
        have hpos := List.length_pos_of_ne_nil hcontent
        omega
      exact Or.inr (Or.inl (Or.inl ⟨hsingle, hfiles⟩))
  · exact Or.inr (Or.inr hblank)

/-- The pages of the files, as they are packed. -/
theorem packPages_placed :
    FilesPlaced (pageFits projected maxChars) (lastOfEdges projected maxChars) projected.files
      (placeFiles (pageFits projected maxChars) (lastOfEdges projected maxChars)
        projected.files) :=
  placeFiles_placed (fun page file symbols part =>
    pageFits_drop projected maxChars page file symbols part)
    (lastOfEdges_isOpen projected maxChars) (lastOfEdges_packed projected maxChars) projected.files

/-- The packed pages: those of edges that were closed, and those of files. -/
theorem packPages_eq :
    packPages projected maxChars =
      (placeEdges (pageFits projected maxChars) { first := true } projected.edgeRows).1 ++
        ((placeFiles (pageFits projected maxChars) (lastOfEdges projected maxChars)
            projected.files).1 ++
          [(placeFiles (pageFits projected maxChars) (lastOfEdges projected maxChars)
            projected.files).2]) := by
  rw [← List.append_assoc]
  rfl

/-- A structure as one page. -/
def CompactStructure.wholePage (projected : CompactStructure) : CompactPage :=
  { first := true, edgeRows := projected.edgeRows, files := projected.files.map (⟨·, none⟩) }

/-- **The pages have the rows of the structure.** -/
theorem packPages_rows (text : Option Value → Utf16) :
    compactCodeStructurePageRows text (packPages projected maxChars) =
      compactCodeStructurePageRows text [projected.wholePage] := by
  have hplaced := packPages_placed projected maxChars
  obtain ⟨shown, hshown, hfiles⟩ := hplaced.shows
  have hedges := @placeEdges_files (pageFits projected maxChars) { first := true } rfl
    projected.edgeRows
  have hrows := @placeEdges_rows (pageFits projected maxChars) { first := true }
    projected.edgeRows
  rw [packPages_eq, pageRows_of_pages text (fun p hp => (hedges.1 p hp).1) hplaced.goesOn, hfiles,
    lastOfEdges_files, List.nil_append, rows_of_shown text hshown]
  rw [lastOfEdges, hrows, List.nil_append]
  have hwhole := @pageRows_of_pages text [] _ projected.wholePage (by simp)
    ⟨projected.wholePage.files, [], rfl, by simp⟩
  rw [List.nil_append] at hwhole
  change _ = compactCodeStructurePageRows text
    [{ projected.wholePage with files := projected.wholePage.files }]
  rw [hwhole]
  simp [CompactStructure.wholePage]

/-- **Every edge row** is on the pages, in order. -/
theorem packPages_edgeRows :
    (packPages projected maxChars).flatMap (·.edgeRows) = projected.edgeRows := by
  have hrows := @placeEdges_rows (pageFits projected maxChars) { first := true }
    projected.edgeRows
  obtain ⟨files, rest, heq, hrest⟩ := (packPages_placed projected maxChars).goesOn
  have hnone : rest.flatMap (·.edgeRows) = [] := by
    rw [List.flatMap_eq_nil_iff]
    intro p hp
    obtain ⟨files, rfl⟩ := hrest p hp
    rfl
  rw [packPages_eq, heq, List.flatMap_append, List.flatMap_cons, hnone, List.append_nil]
  exact hrows

/-- **Every file** is on the pages, with its symbols. -/
theorem packPages_files :
    ∃ shown, List.Forall₂ ShowsFile projected.files shown ∧
      (packPages projected maxChars).flatMap (·.files) = shown.flatten := by
  obtain ⟨shown, hshown, hfiles⟩ := (packPages_placed projected maxChars).shows
  have hedges := @placeEdges_files (pageFits projected maxChars) { first := true } rfl
    projected.edgeRows
  refine ⟨shown, hshown, ?_⟩
  have hnone : (placeEdges (pageFits projected maxChars) { first := true }
      projected.edgeRows).1.flatMap (·.files) = [] := by
    rw [List.flatMap_eq_nil_iff]
    exact fun p hp => (hedges.1 p hp).1
  rw [packPages_eq, List.flatMap_append, hnone, hfiles, lastOfEdges_files]
  rfl

/-- **Every page has content**, where the structure has any. -/
theorem packPages_content (h : projected.edgeRows ≠ [] ∨ projected.files ≠ []) :
    ∀ p ∈ packPages projected maxChars, p.hasContent = true := by
  have hplaced := packPages_placed projected maxChars
  have hedges := @placeEdges_files (pageFits projected maxChars) { first := true } rfl
    projected.edgeRows
  intro p hp
  rw [packPages_eq] at hp
  rcases List.mem_append.mp hp with hp | hp
  · have hrows := (hedges.1 p hp).2
    simp [CompactPage.hasContent, hrows]
  rcases List.mem_append.mp hp with hp | hp
  · exact hplaced.closed p hp
  · rw [List.mem_singleton.mp hp]
    rcases hplaced.last with hcontent | ⟨hfiles, heq⟩
    · exact hcontent
    · have hrows : (lastOfEdges projected maxChars).edgeRows ≠ [] := by
        intro hnil
        exact h.elim (fun hne => hne (hedges.2.2 hnil).2) fun hne => hne hfiles
      rw [heq]
      simp [CompactPage.hasContent, hrows]

theorem packPages_pagination : ∀ p ∈ packPages projected maxChars, p.pagination = none := by
  have hedges := @placeEdges_pagination (pageFits projected maxChars) { first := true } rfl
    projected.edgeRows
  obtain ⟨files, rest, heq, hrest⟩ := (packPages_placed projected maxChars).goesOn
  intro p hp
  rw [packPages_eq, heq] at hp
  rcases List.mem_append.mp hp with hp | hp
  · exact hedges p (List.mem_append_left _ hp)
  rcases List.mem_cons.mp hp with rfl | hp
  · exact hedges (lastOfEdges projected maxChars) (List.mem_append_right _ List.mem_cons_self)
  · obtain ⟨files, rfl⟩ := hrest p hp
    rfl

/-- A single row that does not fit, or a first page whose header does not. -/
def CompactPage.Excused (page : CompactPage) : Prop :=
  page.SingleRow ∧ pageFits projected maxChars { page with edgesContinued := false } = false ∨
    page.first = true ∧ pageFits projected maxChars { first := true } = false

/-- **A packed page was measured**, or there is an excuse for it. -/
theorem packPages_packed (hflag : FlagFits (pageFits projected maxChars) projected.edgeRows) :
    ∀ p ∈ packPages projected maxChars,
      pageFits projected maxChars p = true ∨ p.Excused projected maxChars := by
  have hedges := @placeEdges_packed _ _ _ [] _ hflag .first rfl
    fun k hk hle => by rw [List.length_nil] at hle; omega
  have hfiles := @placeEdges_files (pageFits projected maxChars) { first := true } rfl
    projected.edgeRows
  have hcontinued : ∀ p ∈ (placeFiles (pageFits projected maxChars) (lastOfEdges projected maxChars)
        projected.files).1 ++
      [(placeFiles (pageFits projected maxChars) (lastOfEdges projected maxChars)
        projected.files).2], p.edgesContinued = false := by
    obtain ⟨files, rest, heq, hrest⟩ := (packPages_placed projected maxChars).goesOn
    intro p hp
    rw [heq] at hp
    rcases List.mem_cons.mp hp with rfl | hp
    · exact placeEdges_continued rfl projected.edgeRows
    · obtain ⟨files, rfl⟩ := hrest p hp
      rfl
  intro p hp
  rw [packPages_eq] at hp
  rcases List.mem_append.mp hp with hp | hp
  · rcases hedges p hp with hfits | ⟨hsingle, hfull⟩
    · exact Or.inl hfits
    · exact Or.inr (Or.inl ⟨Or.inl ⟨hsingle, (hfiles.1 p hp).1⟩, hfull⟩)
  · by_cases hfits : pageFits projected maxChars p = true
    · exact Or.inl hfits
    have hfull := Bool.eq_false_iff.mpr hfits
    rcases (packPages_placed projected maxChars).packed p hp with h | hsingle | hblank
    · exact Or.inl h
    · have hplain : ({ p with edgesContinued := false } : CompactPage) = p := by
        rw [← hcontinued p hp]
      exact Or.inr (Or.inl ⟨hsingle, by rw [hplain]; exact hfull⟩)
    · exact Or.inr (Or.inr ⟨by rw [hblank], hblank ▸ hfull⟩)

end Pack

/-! ## 4. Numbered pages -/

/-- The numbering of pages changes nothing else. -/
theorem numberPages_map {α : Type*} (f : CompactPage → α)
    (hf : ∀ page pagination, f { page with pagination := pagination } = f page)
    (pages : List CompactPage) : (numberPages pages).map f = pages.map f := by
  unfold numberPages
  split
  · rw [List.map_map]
    have hcomp : ∀ k, (pages.zipIdx k).map (fun p => f p.1) = pages.map f := by
      intro k
      have hfst := List.zipIdx_map_fst k pages
      rw [← hfst, List.map_map, hfst]
      rfl
    rw [← hcomp 0]
    exact List.map_congr_left fun p _ => hf _ _
  · rfl

/-- A numbered page is a page with counters of its own. -/
theorem mem_numberPages {pages : List CompactPage} {p : CompactPage} (hp : p ∈ numberPages pages) :
    ∃ page ∈ pages, p = page ∧ pages.length ≤ 1 ∨
      ∃ pagination : Pagination, p = { page with pagination := some pagination } ∧
        pagination.page ≤ pages.length ∧ pagination.pages = pages.length ∧
        pagination.filesOnPage = page.files.length := by
  unfold numberPages at hp
  split at hp
  case isTrue =>
    obtain ⟨⟨page, i⟩, hmem, rfl⟩ := List.mem_map.mp hp
    have hi := List.mem_zipIdx hmem
    refine ⟨page, ?_, Or.inr ⟨_, rfl, ?_, rfl, rfl⟩⟩
    · exact List.fst_mem_of_mem_zipIdx hmem
    · dsimp only
      omega
  case isFalse h => exact ⟨p, hp, Or.inl ⟨rfl, by omega⟩⟩

theorem length_le_of_content {pages : List CompactPage}
    (h : ∀ p ∈ pages, p.hasContent = true) :
    pages.length ≤ (pages.flatMap (·.edgeRows)).length + (pages.flatMap (·.files)).length := by
  induction pages with
  | nil => simp
  | cons page pages ih =>
    have hrest := ih fun p hp => h p (List.mem_cons_of_mem page hp)
    have hpage : 1 ≤ page.edgeRows.length + page.files.length := by
      have hcontent := h page List.mem_cons_self
      unfold CompactPage.hasContent at hcontent
      rcases (Bool.or_eq_true _ _).mp hcontent with hne | hne
      · have hpos := List.length_pos_of_ne_nil (l := page.files) (by simpa using hne)
        omega
      · have hpos := List.length_pos_of_ne_nil (l := page.edgeRows) (by simpa using hne)
        omega
    rw [List.flatMap_cons, List.flatMap_cons, List.length_append, List.length_append,
      List.length_cons]
    omega

/-- The edge rows, files and symbols of a structure. -/
def CompactStructure.rowCount (projected : CompactStructure) : ℕ :=
  projected.edgeRows.length + (projected.files.map fun file => 1 + (symbolEntries file).length).sum

theorem length_of_shown {files : List Members} {shown : List (List PageFile)}
    (h : List.Forall₂ ShowsFile files shown) :
    shown.flatten.length ≤ (files.map fun file => 1 + (symbolEntries file).length).sum := by
  induction h with
  | nil => simp
  | cons hfile _ ih =>
    have hlength := hfile.length_le
    rw [List.flatten_cons, List.length_append, List.map_cons, List.sum_cons]
    omega

/-- **The counters of the pages** count edge rows, files and symbols at most. -/
theorem packPages_counters (projected : CompactStructure) (maxChars : ℤ) :
    (packPages projected maxChars).length ≤ max 1 projected.rowCount ∧
      ∀ page ∈ packPages projected maxChars, page.files.length ≤ projected.rowCount := by
  obtain ⟨shown, hshown, hfiles⟩ := packPages_files projected maxChars
  have hlength := length_of_shown hshown
  have hedges := packPages_edgeRows projected maxChars
  constructor
  · by_cases h : projected.edgeRows ≠ [] ∨ projected.files ≠ []
    · have hcount := length_le_of_content (packPages_content projected maxChars h)
      rw [hedges, hfiles] at hcount
      unfold CompactStructure.rowCount
      omega
    · push Not at h
      rw [packPages_eq, h.1, h.2]
      simp [placeEdges, placeFiles]
  · intro page hpage
    have hle : page.files.length ≤ ((packPages projected maxChars).flatMap (·.files)).length := by
      rw [List.length_flatMap]
      exact List.single_le_sum (fun _ _ => Nat.zero_le _) _ (List.mem_map_of_mem hpage)
    rw [hfiles] at hle
    unfold CompactStructure.rowCount
    omega

/-- **The bound of the pages**: a page is no longer than it may be, or there is an excuse for it. -/
def WithinBounds (projected : CompactStructure) (maxChars : ℤ) (pages : List CompactPage) : Prop :=
  ∀ page ∈ pages, (page.chars projected : ℤ) ≤ maxChars ∨ page.Excused projected maxChars

/-- **Pages with room for the flag and the counters** are within bounds. -/
theorem withinBounds_of_room {projected : CompactStructure} {maxChars : ℤ}
    (hflag : FlagFits (pageFits projected maxChars) projected.edgeRows)
    (hroom : projected.RoomForPagination) (hcount : projected.rowCount ≤ 9999) :
    WithinBounds projected maxChars (numberPages (packPages projected maxChars)) := by
  intro p hp
  obtain ⟨hlength, hfiles⟩ := packPages_counters projected maxChars
  obtain ⟨page, hpage, hcases⟩ := mem_numberPages hp
  have hpacked := packPages_packed projected maxChars hflag page hpage
  rcases hcases with ⟨rfl, _⟩ | ⟨pagination, rfl, hnumber, htotal, hon⟩
  · refine hpacked.imp_left fun hfits => ?_
    have hle := chars_unnumbered hroom (packPages_pagination projected maxChars p hpage)
    have hreserved := pageFits_iff.mp hfits
    omega
  · refine hpacked.imp_left fun hfits => ?_
    have hreserved := pageFits_iff.mp hfits
    have hchars := chars_numbered projected page pagination
    have hfile := hfiles page hpage
    have hle := @length_pagination_le pagination (by omega) (by omega) (by omega)
    omega

/-- **A page that has no room for the flag** by more than the counters spare is out of bounds. -/
theorem not_withinBounds_of_overrun {projected : CompactStructure} {maxChars : ℤ}
    {before run after : List Value} {row : Value}
    (hstart : PageStart (pageFits projected maxChars) projected.edgeRows before)
    (hrows : projected.edgeRows = before ++ (run ++ row :: after))
    (hends : RunEnds (pageFits projected maxChars) before run row)
    (hfits : pageFits projected maxChars { first := before.isEmpty, edgeRows := run } = true)
    (hover : pageFits projected (maxChars + 9)
      { first := before.isEmpty, edgeRows := run, edgesContinued := true } = false) :
    ¬WithinBounds projected maxChars (numberPages (packPages projected maxChars)) := by
  intro hbounds
  obtain ⟨i, hi, hpage⟩ := List.getElem_of_mem (mem_placeEdges hstart hrows hends)
  have hlength : i + 1 < (packPages projected maxChars).length := by
    rw [packPages_eq, List.length_append, List.length_append, List.length_singleton]
    omega
  have hget : (packPages projected maxChars)[i]? =
      some { first := before.isEmpty, edgeRows := run, edgesContinued := true } := by
    rw [packPages_eq, List.getElem?_append_left hi, List.getElem?_eq_getElem hi, hpage]
  have hmem : { first := before.isEmpty, edgeRows := run, edgesContinued := true
                pagination := some ⟨i + 1, (packPages projected maxChars).length, 0,
                  decide (i + 1 < (packPages projected maxChars).length)⟩ } ∈
      numberPages (packPages projected maxChars) := by
    unfold numberPages
    rw [if_pos (by omega)]
    exact List.mem_map.mpr ⟨(_, i), List.mk_mem_zipIdx_iff_getElem?.mpr hget, rfl⟩
  rcases hbounds _ hmem with hchars | ⟨_, hfull⟩ | ⟨hfirst, hfull⟩
  · have hnumbered := chars_numbered projected
      { first := before.isEmpty, edgeRows := run, edgesContinued := true }
      ⟨i + 1, (packPages projected maxChars).length, 0,
        decide (i + 1 < (packPages projected maxChars).length)⟩
    have hge := @length_pagination_ge ⟨i + 1, (packPages projected maxChars).length, 0,
      decide (i + 1 < (packPages projected maxChars).length)⟩ (decide_eq_true hlength)
    have hreserved := mt pageFits_iff.mpr (Bool.eq_false_iff.mp hover)
    dsimp only at hnumbered
    omega
  · have hsame : pageFits projected maxChars { first := before.isEmpty, edgeRows := run } = false :=
      hfull
    rw [hfits] at hsame
    cases hsame
  · have hfirst : before.isEmpty = true := hfirst
    rw [hfirst] at hfits
    rw [pageFits_first hfits] at hfull
    cases hfull

theorem structureMaxChars_eq {maxChars : ℤ} (hmin : 400 ≤ maxChars)
    (hmax : maxChars ≤ 9007199254740991) : structureMaxChars (some maxChars) = maxChars := by
  unfold structureMaxChars boundedInteger
  dsimp only
  rw [if_pos (by omega)]
  omega

theorem structureMaxChars_le {maxChars : ℤ} (hmin : 400 ≤ maxChars) :
    structureMaxChars (some maxChars) ≤ maxChars := by
  unfold structureMaxChars boundedInteger
  dsimp only
  split <;> omega

/-- An edge of a length. -/
def wideEdge (length : ℕ) : Value := .object [(units "kind", .string (List.replicate length 97))]

/-- Two edges fit a page as it is measured; the third makes it continued. -/
def wideStructure : CompactStructure where
  header := [(units "projection", .string (units "compact"))]
  edges := some ⟨[], [wideEdge 100, wideEdge 148, wideEdge 100]⟩
  files := []

end PosseClient
