/-
# Scopes: the paths a job may write

`normPath` and `normalizeRoots` of `shared/scope/functions/path.js` and the class `Scope`, on a
POSIX host.  The path lists hold texts; `path.posix.normalize` and `path.posix.relative` are
Node's own.

* A segment is a list of characters.  `normalizeSegments` drops empty and `.` segments and lets
  `..` take its parent away; a `..` above the root is kept in a relative path only.
* A scope holds no empty path: its constructor filters them (`Scope.nonempty`).
-/
import PosseClient.Scope.Path

namespace PosseClient

/-! ## 1. `path.posix` -/

/-- One segment of `normalizeString`, which reads the segments from the left. -/
def pushSegment (allowAboveRoot : Bool) (segments : List (List Char)) (part : List Char) :
    List (List Char) :=
  if part = [] ∨ part = ['.'] then segments
  else if part = ['.', '.'] then
    if segments = [] ∨ segments.getLast? = some ['.', '.'] then
      if allowAboveRoot then segments ++ [part] else segments
    else segments.dropLast
  else segments ++ [part]

/-- `normalizeString`, on the segments of a path. -/
def normalizeSegments (allowAboveRoot : Bool) (parts : List (List Char)) : List (List Char) :=
  parts.foldl (pushSegment allowAboveRoot) []

/-- `segments.join("/")`. -/
def joinSegments (segments : List (List Char)) : List Char := ['/'].intercalate segments

/-- `path.posix.normalize`. -/
def posixNormalize (cs : List Char) : List Char :=
  if cs = [] then ['.']
  else
    let absolute := cs.head? == some '/'
    let trailing := cs.getLast? == some '/'
    let body := joinSegments (normalizeSegments (!absolute) (pathParts cs))
    if body = [] then
      if absolute then ['/'] else if trailing then ['.', '/'] else ['.']
    else (if absolute then ['/'] else []) ++ body ++ if trailing then ['/'] else []

/-- The segments of `path.posix.resolve(p)` where the process runs in `cwd`. -/
def resolveSegments (cwd cs : List Char) : List (List Char) :=
  let whole := if cs.head? = some '/' then cs else cwd ++ '/' :: cs
  normalizeSegments false (pathParts whole)

/-- The segments two paths begin with. -/
def commonSegments : List (List Char) → List (List Char) → ℕ
  | a :: as, b :: bs => if a = b then commonSegments as bs + 1 else 0
  | _, _ => 0

/-- `path.relative(cwd, p)` where the process runs in `cwd`. -/
def posixRelative (cwd cs : List Char) : List Char :=
  let base := resolveSegments cwd cwd
  let target := resolveSegments cwd cs
  let common := commonSegments base target
  joinSegments (List.replicate (base.length - common) ['.', '.'] ++ target.drop common)

/-! ## 2. Normalized paths -/

/-- `normPath`, on characters. -/
def normPathChars (cs : List Char) : List Char :=
  stripDotSlash (posixNormalize (trimChars (forwardSlashes cs)))

/-- `normPath` of a text. -/
def normPath (p : String) : String := String.ofList (normPathChars p.toList)

/-- `WINDOWS_ABSOLUTE_RE`. -/
def isWindowsAbsolute (cs : List Char) : Bool :=
  ((cs.headD '/').isAlpha && (cs.drop 1).head? == some ':' &&
      ((cs.drop 2).head? == some '\\' || (cs.drop 2).head? == some '/')) ||
    ['\\', '\\'].isPrefixOf cs

/-- The root of `normalizeRoots` relative to the working directory; a Windows path that lies
outside it is dropped. -/
def relativeRoot (cwd r : List Char) : Option (List Char) :=
  let raw := trimChars r
  let n := stripTrailingSlashes (normPathChars r)
  if raw.head? = some '/' then
    some (stripTrailingSlashes (normPathChars (posixRelative cwd r)))
  else if isWindowsAbsolute raw then
    let cwdNorm := stripTrailingSlashes (normPathChars cwd)
    if n = cwdNorm then some []
    else if cwdNorm ≠ [] ∧ (cwdNorm ++ ['/']).isPrefixOf n then
      some (stripTrailingSlashes (n.drop (cwdNorm.length + 1)))
    else none
  else some n

/-- One root of `normalizeRoots`; the empty text is filtered out. -/
def normalizeRootEntry (cwd r : String) : String :=
  if r = "" then ""
  else if trimChars r.toList = ['.'] then "*"
  else match relativeRoot cwd.toList r.toList with
    | none => ""
    | some n =>
      let root := String.ofList n
      if root = ".." ∨ startsWith root "../" = true ∨ isAbsolute root = true then ""
      else if root = "" ∨ root = "." then "*"
      else root

/-- `normalizeRoots`. -/
def normalizeRoots (cwd : String) (roots : List String) : List String :=
  (roots.map (normalizeRootEntry cwd)).filter (· ≠ "")

/-- `normalizeFile`. -/
def normalizeFile (values : List String) : List String :=
  ((values.map normPath).filter (· ≠ "")).eraseDups

/-- `normalizeRoot`. -/
def normalizeRoot (cwd : String) (values : List String) : List String :=
  (((normalizeRoots cwd values).map normPath).filter (· ≠ "")).eraseDups

example : normPath "./src//a/./b.js" = "src/a/b.js" := by decide
example : normalizeRoots "/repo" ["/repo/out/", "/repo", "./src", "", ".", "../x"] =
    ["out", "*", "src", "*"] := by decide

/-! ## 3. Scopes -/

/-- A `Scope`. -/
structure Scope where
  modifyFiles : List String
  createFiles : List String
  createRoots : List String
  deleteFiles : List String
  nonempty : ∀ p ∈ modifyFiles ++ createFiles ++ deleteFiles ++ createRoots, p ≠ ""

theorem ne_empty_of_mem_normalizeFile {values : List String} {p : String}
    (h : p ∈ normalizeFile values) : p ≠ "" := by
  simpa using (List.mem_filter.mp (List.mem_eraseDups.mp h)).2

theorem ne_empty_of_mem_normalizeRoot {cwd : String} {values : List String} {p : String}
    (h : p ∈ normalizeRoot cwd values) : p ≠ "" := by
  simpa using (List.mem_filter.mp (List.mem_eraseDups.mp h)).2

/-- `new Scope`. -/
def Scope.new (cwd : String) (modifyFiles createFiles createRoots deleteFiles : List String) :
    Scope :=
  { modifyFiles := normalizeFile modifyFiles
    createFiles := normalizeFile createFiles
    createRoots := normalizeRoot cwd createRoots
    deleteFiles := normalizeFile deleteFiles
    nonempty := by
      intro p hp
      simp only [List.mem_append] at hp
      rcases hp with ((hp | hp) | hp) | hp
      · exact ne_empty_of_mem_normalizeFile hp
      · exact ne_empty_of_mem_normalizeFile hp
      · exact ne_empty_of_mem_normalizeFile hp
      · exact ne_empty_of_mem_normalizeRoot hp }

/-- `allFiles`. -/
def Scope.allFiles (scope : Scope) : List String :=
  scope.modifyFiles ++ scope.createFiles ++ scope.deleteFiles

/-- `contains`. -/
def Scope.contains (scope : Scope) (filePath : String) : Bool :=
  let normalized := normPath filePath
  if normalized = "" then false
  else decide (normalized ∈ scope.allFiles) || isUnderRoot normalized scope.createRoots

/-- `toLockRows`. -/
def Scope.toLockRows (scope : Scope) : List LockRow :=
  scope.allFiles.map (⟨·, .file⟩) ++ scope.createRoots.map (⟨·, .root⟩)

/-- The test of two rows in `conflictsWith`. -/
def scopeRowsConflict (left right : LockRow) : Bool :=
  match left.lockKind, right.lockKind with
  | .file, .file => left.path == right.path
  | .file, .root => isUnderRoot left.path [right.path]
  | .root, .file => isUnderRoot right.path [left.path]
  | .root, .root => rootsOverlap left.path right.path

/-- `conflictsWith`. -/
def Scope.conflictsWith (scope rhs : Scope) : Bool :=
  scope.toLockRows.any (fun left => rhs.toLockRows.any (fun right => scopeRowsConflict left right))

/-! ## 4. The other tests of two rows -/

/-- `schedulerLocksConflict`. -/
def schedulerLocksConflict (lock candidate : LockRow) : Bool :=
  match candidate.lockKind, lock.lockKind with
  | .file, .file => candidate.path == lock.path
  | .file, .root => isUnderRoot candidate.path [lock.path]
  | .root, .file => isUnderRoot lock.path [candidate.path]
  | .root, .root => rootsOverlap candidate.path lock.path

/-- `lockRowsTouchPath`. -/
def lockRowsTouchPath (rows : List LockRow) (path : String) (lockKind : LockKind) : Bool :=
  let target : LockRow := ⟨path, lockKind⟩
  rows.any (fun lock => match target.lockKind, lock.lockKind with
    | .file, .file => target.path == lock.path
    | .file, .root => isUnderRoot target.path [lock.path]
    | .root, .file => isUnderRoot lock.path [target.path]
    | .root, .root => rootsOverlap target.path lock.path)

end PosseClient
