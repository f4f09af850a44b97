/-
# Pages of a code structure

`paginateCompactCodeStructure` of `compact-presentation.js`: the edges and the files of a projected
structure, packed greedily into pages whose texts are measured as they are filled.

* `CompactPage.render`: the object a page is.
* `placeEdges`, `placeFile`: the two loops.
* `paginateCompactCodeStructure`: the pages, with their pagination.
* `compactCodeStructurePageRows`: what the pages show.
-/
import PosseClient.Lib.JsonObjects

namespace PosseClient

open Json

/-! ## 1. Structures and pages -/

/-- The edges of a structure: the other members of their object, and the rows. -/
structure CompactEdges where
  header : Members
  rows : List Value

/-- A projected structure; `header` is what is neither edges nor files. -/
structure CompactStructure where
  header : Members
  edges : Option CompactEdges
  files : List Members

/-- `Object.entries(file.symbols || {})`. -/
def symbolEntries (file : Members) : Members :=
  match findMember (units "symbols") file with
  | some (.object symbols) => symbols
  | _ => []

/-- A part of a file's symbols. -/
structure SymbolSlice where
  symbols : Members
  part : ℕ
  continued : Bool

/-- A file on a page, whole or a slice of it. -/
structure PageFile where
  file : Members
  slice : Option SymbolSlice := none

/-- `{ ...file, symbols, part, continued }`, where the last slice has no `continued`. -/
def PageFile.render (entry : PageFile) : Value :=
  match entry.slice with
  | none => .object entry.file
  | some slice =>
    let members := putMember (units "part") (ofNat slice.part)
      (putMember (units "symbols") (.object slice.symbols) entry.file)
    if slice.continued then .object (putMember (units "continued") (.bool true) members)
    else .object (removeMember (units "continued") members)

/-- The symbols that an entry shows. -/
def PageFile.symbols (entry : PageFile) : Members :=
  match entry.slice with
  | none => symbolEntries entry.file
  | some slice => slice.symbols

structure Pagination where
  page : ℕ
  pages : ℕ
  filesOnPage : ℕ
  hasMore : Bool
  deriving DecidableEq, Repr

def Pagination.render (pagination : Pagination) : Value :=
  .object ([(units "page", ofNat pagination.page), (units "pages", ofNat pagination.pages),
      (units "filesOnPage", ofNat pagination.filesOnPage)] ++
    (if pagination.hasMore then [(units "hasMore", .bool true)] else []))

/-- `paginationReserve`. -/
def paginationReserve : Pagination := ⟨9999, 9999, 9999, true⟩

structure CompactPage where
  first : Bool := false
  edgeRows : List Value := []
  edgesContinued : Bool := false
  files : List PageFile := []
  pagination : Option Pagination := none

/-- The other members of the edges' object. -/
def CompactStructure.edgeHeader (projected : CompactStructure) : Members :=
  (projected.edges.map (·.header)).getD [(units "computed", .bool false)]

def CompactStructure.edgeRows (projected : CompactStructure) : List Value :=
  (projected.edges.map (·.rows)).getD []

/-- The edges' object of a page; it has no rows until there is one. -/
def CompactPage.edges (projected : CompactStructure) (page : CompactPage) : Members :=
  let edges := projected.edgeHeader ++
    (if page.edgeRows.isEmpty then [] else [(units "rows", .array page.edgeRows)])
  if page.edgesContinued then putMember (units "continued") (.bool true) edges else edges

/-- The members of a page, without its pagination. -/
def CompactPage.members (projected : CompactStructure) (page : CompactPage) : Members :=
  (if page.first then projected.header
    else ((findMember (units "projection") projected.header).map fun value =>
      (units "projection", value)).toList) ++
    [(units "edges", .object (page.edges projected)),
      (units "files", .array (page.files.map PageFile.render))]

def CompactPage.render (projected : CompactStructure) (page : CompactPage) : Value :=
  match page.pagination with
  | none => .object (page.members projected)
  | some pagination =>
    .object (putMember (units "pagination") pagination.render (page.members projected))

/-- `jsonChars` of a page. -/
def CompactPage.chars (projected : CompactStructure) (page : CompactPage) : ℕ :=
  (stringify (page.render projected)).length

/-! ## 2. The loops -/

/-- `boundedInteger`, of a value that is an integer or none. -/
def boundedInteger (value : Option ℤ) (fallback minimum maximum : ℤ) : ℤ :=
  match value with
  | none => fallback
  | some parsed =>
    if parsed.natAbs ≤ 9007199254740991 then max minimum (min maximum parsed) else fallback

/-- `maxChars` of the options: at least 400. -/
def structureMaxChars (maxChars : Option ℤ) : ℤ :=
  boundedInteger maxChars 4000 400 9007199254740991

/-- `fits`: with the pagination it may get. -/
def pageFits (projected : CompactStructure) (maxChars : ℤ) (page : CompactPage) : Bool :=
  decide ((({ page with pagination := some paginationReserve }.chars projected : ℕ) : ℤ) ≤ maxChars)

section Loops

variable (fits : CompactPage → Bool)

/-- The loop over the edge rows: the pages it leaves, and the one it ends on. The row that fits no
more is the first of the next page. -/
def placeEdges : CompactPage → List Value → List CompactPage × CompactPage
  | page, [] => ([], page)
  | page, row :: rest =>
    if page.edgeRows.isEmpty || fits { page with edgeRows := page.edgeRows ++ [row] } then
      placeEdges { page with edgeRows := page.edgeRows ++ [row] } rest
    else
      ({ page with edgesContinued := true } :: (placeEdges { edgeRows := [row] } rest).1,
        (placeEdges { edgeRows := [row] } rest).2)

/-- The inner loop over the symbols of a file: those of the slice, and those left over. -/
def fillSlice (fitsWith : Members → Bool) : Members → Members → Members × Members
  | taken, [] => (taken, [])
  | taken, entry :: rest =>
    if taken.isEmpty || fitsWith (taken ++ [entry]) then
      fillSlice fitsWith (taken ++ [entry]) rest
    else (taken, entry :: rest)

theorem fillSlice_append (fitsWith : Members → Bool) (taken entries : Members) :
    (fillSlice fitsWith taken entries).1 ++ (fillSlice fitsWith taken entries).2 =
      taken ++ entries := by
  induction entries generalizing taken with
  | nil => rfl
  | cons entry rest ih =>
    rw [fillSlice]
    split
    · rw [ih, List.append_assoc, List.singleton_append]
    · rfl

/-- A slice takes the first symbol whether it fits or not. -/
theorem fillSlice_length (fitsWith : Members → Bool) (entry : Utf16 × Value) (rest : Members) :
    (fillSlice fitsWith [] (entry :: rest)).2.length < (entry :: rest).length := by
  have hle : ∀ taken entries : Members,
      (fillSlice fitsWith taken entries).2.length ≤ entries.length := by
    intro taken entries
    induction entries generalizing taken with
    | nil => rfl
    | cons entry rest ih =>
      rw [fillSlice]
      split
      · exact Nat.le_succ_of_le (ih _)
      · exact le_rfl
  have hrest := hle [entry] rest
  rw [fillSlice]
  simp only [List.isEmpty_nil, Bool.true_or, if_true, List.nil_append, List.length_cons]
  omega

/-- The page with a slice of a file, the symbols from `entries` on. -/
def withSlice (page : CompactPage) (file : Members) (slice : SymbolSlice) : CompactPage :=
  { page with files := page.files ++ [⟨file, some slice⟩] }

/-- What the next slice of a file takes. -/
def nextSlice (page : CompactPage) (file : Members) (part : ℕ) (entries : Members) :
    Members × Members :=
  fillSlice (fun symbols => fits (withSlice page file ⟨symbols, part + 1, true⟩)) [] entries

/-- The outer loop over the symbols of a file that fits no page. -/
def sliceFile (file : Members) (part : ℕ) (page : CompactPage) (entries : Members) :
    List CompactPage × CompactPage :=
  match entries with
  | [] => ([], page)
  | entry :: rest =>
    let filled := nextSlice fits page file part (entry :: rest)
    let placed := withSlice page file ⟨filled.1, part + 1, !filled.2.isEmpty⟩
    if filled.2.isEmpty then ([], placed)
    else
      let next := sliceFile file (part + 1) {} filled.2
      (placed :: next.1, next.2)
termination_by entries.length
decreasing_by exact fillSlice_length _ entry rest

/-- The page holds a file or an edge row. -/
def CompactPage.hasContent (page : CompactPage) : Bool :=
  !page.files.isEmpty || !page.edgeRows.isEmpty

/-- The body of the loop over the files. -/
def placeFile (page : CompactPage) (file : Members) : List CompactPage × CompactPage :=
  let added := { page with files := page.files ++ [⟨file, none⟩] }
  if fits added then ([], added)
  else
    let closed := if page.hasContent then [page] else []
    let opened := if page.hasContent then {} else page
    let whole := { opened with files := [⟨file, none⟩] }
    if fits whole then (closed, whole)
    else if (symbolEntries file).isEmpty then (closed, whole)
    else
      let sliced := sliceFile fits file 0 opened (symbolEntries file)
      (closed ++ sliced.1, sliced.2)

def placeFiles : CompactPage → List Members → List CompactPage × CompactPage
  | page, [] => ([], page)
  | page, file :: rest =>
    let placed := placeFile fits page file
    let next := placeFiles placed.2 rest
    (placed.1 ++ next.1, next.2)

end Loops

/-- The pages before they are numbered. -/
def packPages (projected : CompactStructure) (maxChars : ℤ) : List CompactPage :=
  let fits := pageFits projected maxChars
  let edges := placeEdges fits { first := true } projected.edgeRows
  let files := placeFiles fits edges.2 projected.files
  edges.1 ++ files.1 ++ [files.2]

/-- The pagination of several pages. -/
def numberPages (pages : List CompactPage) : List CompactPage :=
  if 1 < pages.length then
    pages.zipIdx.map fun p =>
      { p.1 with
        pagination := some
          { page := p.2 + 1
            pages := pages.length
            filesOnPage := p.1.files.length
            hasMore := decide (p.2 + 1 < pages.length) } }
  else pages

/-- `paginateCompactCodeStructure`. -/
def paginateCompactCodeStructure (projected : CompactStructure) (maxChars : Option ℤ) :
    List CompactPage :=
  numberPages (packPages projected (structureMaxChars maxChars))

/-! ## 3. Rows -/

/-- `value?.key`. -/
def optionalMember (value : Option Value) (key : String) : Option Value :=
  match value with
  | some (.object members) => findMember (units key) members
  | _ => none

/-- `end?.ref || end?.name` of one end of an edge. -/
def edgeEnd (edge : Value) (side : String) : Option Value :=
  let value := optionalMember (some edge) side
  (truthy (optionalMember value "ref")).or (optionalMember value "name")

/-- The row of an edge; `text` is how a template writes a value, `undefined` included. -/
def edgePageRow (text : Option Value → Utf16) (edge : Value) (edgeIndex : ℕ) : Utf16 :=
  units "edge:" ++ natText edgeIndex ++ units ":" ++ text (optionalMember (some edge) "kind") ++
    units ":" ++ text (edgeEnd edge "from") ++ units ":" ++ text (edgeEnd edge "to")

def symbolPageRow (text : Option Value → Utf16) (file : Members) (ref : Utf16) : Utf16 :=
  text (findMember (units "path") file) ++ units " " ++ ref

/-- The loop over the pages, from an index of edges on. -/
def pageRowsFrom (text : Option Value → Utf16) : ℕ → List CompactPage → List Utf16
  | _, [] => []
  | edgeIndex, page :: pages =>
    (page.edgeRows.zipIdx edgeIndex).map (fun p => edgePageRow text p.1 p.2) ++
      page.files.flatMap (fun entry =>
        entry.symbols.map fun symbol => symbolPageRow text entry.file symbol.1) ++
      pageRowsFrom text (edgeIndex + page.edgeRows.length) pages

/-- `compactCodeStructurePageRows`. -/
def compactCodeStructurePageRows (text : Option Value → Utf16) (pages : List CompactPage) :
    List Utf16 := pageRowsFrom text 0 pages

end PosseClient
