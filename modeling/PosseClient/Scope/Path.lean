/-
# Scope paths: files, roots, and when two of them overlap

`shared/scope/functions/path.js` and the conflict rule of `file-locks.js`, on a POSIX host.  A
path is its text, as `normPath` leaves it; the root `*` is the working directory itself.

* `LockRow.conflict` is the rule both lock tiers are checked by: same file, file under a root,
  or overlapping roots.
* The root `*` meets every path of the repository, and no path outside it
  (`conflict_star_iff`).
-/
import PosseClient.Store.Catalog
import PosseClient.Lib.JsText

namespace PosseClient

/-! ## 1. Path predicates -/

/-- `s.startsWith(p)`. -/
def startsWith (s p : String) : Bool := p.toList.isPrefixOf s.toList

/-- `path.isAbsolute`. -/
def isAbsolute (p : String) : Bool := startsWith p "/"

/-- `isCwdOrDescendantPath`. -/
def isCwdOrDescendantPath (filePath : String) : Bool :=
  filePath == "" || filePath == "." ||
    (!startsWith filePath "../" && filePath != ".." && !isAbsolute filePath)

/-- `isUnderRoot`: the first root `*` decides, whatever follows it. -/
def isUnderRoot (filePath : String) : List String → Bool
  | [] => false
  | root :: rest =>
    if root = "*" then isCwdOrDescendantPath filePath
    else if startsWith filePath (root ++ "/") || filePath == root then true
    else isUnderRoot filePath rest

/-- `rootsOverlap`. -/
def rootsOverlap (leftRoot rightRoot : String) : Bool :=
  if leftRoot = "" ∨ rightRoot = "" then false
  else if leftRoot = "*" ∧ rightRoot = "*" then true
  else if leftRoot = "*" then isCwdOrDescendantPath rightRoot
  else if rightRoot = "*" then isCwdOrDescendantPath leftRoot
  else isUnderRoot leftRoot [rightRoot] || isUnderRoot rightRoot [leftRoot]

/-! ## 2. Lock rows -/

/-- What a lock covers. -/
structure LockRow where
  path : String
  lockKind : LockKind
  deriving DecidableEq, Repr

/-- The `conflict` of `locksConflict`; `lockRowsTouchPath` and `lockRowsOverlap` are the same
rule. -/
def LockRow.conflict (lock candidate : LockRow) : Bool :=
  match candidate.lockKind, lock.lockKind with
  | .file, .file => candidate.path == lock.path
  | .file, .root => isUnderRoot candidate.path [lock.path]
  | .root, .file => isUnderRoot lock.path [candidate.path]
  | .root, .root => rootsOverlap candidate.path lock.path

/-- Two file rows conflict when they name one file. -/
@[simp] theorem conflict_file_file (p q : String) :
    LockRow.conflict ⟨p, .file⟩ ⟨q, .file⟩ = (q == p) := rfl

/-- The row of an assessment barrier or of an unknown scope. -/
def starRow : LockRow := ⟨"*", .root⟩

/-- A row the root `*` covers: every path but those that leave the working directory. -/
def LockRow.inRepository (row : LockRow) : Bool :=
  match row.lockKind with
  | .file => isCwdOrDescendantPath row.path
  | .root => row.path == "*" || (row.path != "" && isCwdOrDescendantPath row.path)

theorem conflict_star_iff (row : LockRow) :
    starRow.conflict row = row.inRepository := by
  obtain ⟨p, k⟩ := row
  cases k with
  | file => simp [starRow, LockRow.conflict, LockRow.inRepository, isUnderRoot]
  | root =>
    by_cases hp : p = "*"
    · simp [starRow, LockRow.conflict, LockRow.inRepository, rootsOverlap, hp]
    · by_cases he : p = ""
      · simp [starRow, LockRow.conflict, LockRow.inRepository, rootsOverlap, he]
      · have hstar : (p == "*") = false := by simpa using hp
        have hempty : (p != "") = true := by simpa using he
        simp [starRow, LockRow.conflict, LockRow.inRepository, rootsOverlap, hp, he, hstar,
          hempty]

/-! ## 3. Paths as lock keys -/

/-- The `path.split("/")` of a list of characters. -/
def pathParts (cs : List Char) : List (List Char) := cs.splitOn '/'

/-- `replace(/\\/g, "/")`. -/
def forwardSlashes (cs : List Char) : List Char := cs.map (fun c => if c = '\\' then '/' else c)

/-- `replace(/^\.\//, "")`. -/
def stripDotSlash (cs : List Char) : List Char :=
  if ['.', '/'].isPrefixOf cs then cs.drop 2 else cs

/-- `replace(/\/+$/, "")`. -/
def stripTrailingSlashes (cs : List Char) : List Char := dropEndWhile (· = '/') cs

/-- `trim` of a list of characters. -/
def trimChars (cs : List Char) : List Char := dropEndWhile isTrimmed (cs.dropWhile isTrimmed)

/-- `toLowerCase` of a character, where the result is an ASCII letter: `U+212A` is the Kelvin
sign. -/
def lowerChar (c : Char) : Char := if c.toNat = 0x212A then 'k' else c.toLower

/-- The directories of posse itself, which take no locks. -/
def isReservedSegment (segment : List Char) : Bool :=
  let first := segment.map lowerChar
  first == ".posse".toList || first == ".posse-worktrees".toList ||
    first == "posse-worktrees".toList || ".posse-".toList.isPrefixOf first

/-- `/^[A-Za-z]:\//`. -/
def startsWithDrive (cs : List Char) : Bool :=
  (cs.headD '/').isAlpha && (cs.drop 1).take 2 == [':', '/']

local instance lawfulBEq_segment : LawfulBEq (List Char) := inferInstance

/-- `normalizeLockPath`: an unusable path becomes the empty string.  The spaces are cut off
last, so that `"a/ "` keeps its slash. -/
def normalizeLockPath (value : String) : String :=
  let cs := trimChars (stripTrailingSlashes (stripDotSlash (forwardSlashes value.toList)))
  if cs = [] then ""
  else if cs ≠ ['*'] ∧ (cs.head? = some '/' ∨ startsWithDrive cs = true ∨
      ['.', '.'] ∈ pathParts cs ∨ ['.'] ∈ pathParts cs) then ""
  else if isReservedSegment ((pathParts cs).headD []) then ""
  else String.ofList cs

example : normalizeLockPath "./src\\planner.js/" = "src/planner.js" := by decide
example : normalizeLockPath "src/../secret" = "" := by decide
example : normalizeLockPath ".posse-state/db" = "" := by decide

end PosseClient
