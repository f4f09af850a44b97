/-
# Lock rows as sets of paths

What a lock row stands for, and that the five tests of two rows (`locksConflict` and
`lockRowsTouchPath` of `file-locks.js`, `lockRowsOverlap` of `work-item-order.js`,
`schedulerLocksConflict` of `file-scope.js` and `Scope.conflictsWith`) say whether two such sets
have a path in common.

* A file row is its path, a root row its path and everything under it, and the root `*` every path
  that does not leave the working directory (`LeavesCwd`).
* `lockTests_iff`: each test is true exactly where the sets intersect; `scope_contains_iff`: a
  scope contains exactly the paths of its rows.
-/
import PosseClient.Lib.SegmentedPaths
import PosseClient.Queue.WorkItemOrder
import PosseClient.Scope.Scopes

namespace PosseClient

open SegmentedPaths

/-! ## 1. The paths of a row -/

/-- A path that leaves the working directory: absolute, or through its parent. -/
def LeavesCwd (p : String) : Prop :=
  p = ".." ∨ startsWith p "../" = true ∨ isAbsolute p = true

/-- A path is a root or lies under it. -/
def UnderRoot (root p : String) : Prop := Below '/' root.toList p.toList

/-- The paths of a row, where the root `*` has the paths `every`. -/
def LockRow.pathsWithin (every : Set String) (row : LockRow) : Set String :=
  match row.lockKind with
  | .file => {row.path}
  | .root => if row.path = "*" then every else {p | UnderRoot row.path p}

/-- **The paths of a row.**  The root `*` has those that do not leave the working directory. -/
def LockRow.paths (row : LockRow) : Set String := row.pathsWithin {p | ¬ LeavesCwd p}

/-- The paths of a scope. -/
def Scope.paths (scope : Scope) : Set String := {p | ∃ row ∈ scope.toLockRows, p ∈ row.paths}

/-! ## 2. The tests of two paths -/

theorem startsWith_iff {s p : String} : startsWith s p = true ↔ p.toList <+: s.toList := by
  rw [startsWith, List.isPrefixOf_iff_prefix]

theorem underRoot_iff {root p : String} :
    UnderRoot root p ↔ startsWith p (root ++ "/") = true ∨ p = root := by
  rw [UnderRoot, below_iff, startsWith_iff, String.toList_append, String.toList_inj]
  rfl

theorem not_leavesCwd_empty : ¬ LeavesCwd "" := by
  unfold LeavesCwd
  decide

theorem not_leavesCwd_dot : ¬ LeavesCwd "." := by
  unfold LeavesCwd
  decide

/-- The guard of the root `*`. -/
theorem isCwdOrDescendantPath_iff {p : String} :
    isCwdOrDescendantPath p = true ↔ ¬ LeavesCwd p := by
  by_cases hempty : p = ""
  · rw [hempty]
    exact iff_of_true (by decide) not_leavesCwd_empty
  · by_cases hdot : p = "."
    · rw [hdot]
      exact iff_of_true (by decide) not_leavesCwd_dot
    · have hfirst : (p == "") = false := by simpa using hempty
      have hsecond : (p == ".") = false := by simpa using hdot
      rw [isCwdOrDescendantPath, hfirst, hsecond, LeavesCwd]
      simp only [Bool.false_or, Bool.and_eq_true, Bool.not_eq_true', bne_iff_ne, ne_eq, not_or,
        Bool.not_eq_true]
      tauto

theorem isUnderRoot_singleton {root p : String} (hroot : root ≠ "*") :
    isUnderRoot p [root] = true ↔ UnderRoot root p := by
  rw [underRoot_iff]
  simp [isUnderRoot, hroot]

/-- A file row and a root row. -/
theorem isUnderRoot_iff {root p : String} :
    isUnderRoot p [root] = true ↔ p ∈ LockRow.paths ⟨root, .root⟩ := by
  by_cases hroot : root = "*"
  · rw [hroot]
    exact isCwdOrDescendantPath_iff
  · rw [isUnderRoot_singleton hroot]
    simp [LockRow.paths, LockRow.pathsWithin, hroot]

theorem underRoot_parent {p : String} :
    UnderRoot ".." p ↔ p = ".." ∨ startsWith p "../" = true := by
  rw [underRoot_iff, or_comm]
  rfl

theorem isAbsolute_iff {p : String} : isAbsolute p = true ↔ p.toList.head? = some '/' := by
  rw [isAbsolute, startsWith_iff]
  change ['/'] <+: p.toList ↔ _
  cases p.toList with
  | nil => simp
  | cons c cs => simp [List.cons_prefix_cons, eq_comm]

theorem leavesCwd_iff {p : String} : LeavesCwd p ↔ UnderRoot ".." p ∨ isAbsolute p = true := by
  rw [LeavesCwd, underRoot_parent, or_assoc]

/-- **What lies under a root leaves the working directory where the root does.** -/
theorem leavesCwd_under_iff {root p : String} (hne : root ≠ "") (h : UnderRoot root p) :
    LeavesCwd p ↔ LeavesCwd root := by
  have hnil : root.toList ≠ [] := by simpa using hne
  rw [leavesCwd_iff, leavesCwd_iff, isAbsolute_iff, isAbsolute_iff, Below.head h hnil]
  refine or_congr_left ?_
  constructor
  · intro hparent
    rcases exists_below_iff.mp ⟨p.toList, hparent, h⟩ with hup | hdown
    · exact hup
    · -- a prefix of the parent directory is the parent directory
      rcases underRoot_iff.mp (show UnderRoot root ".." from hdown) with hstart | heq
      · exfalso
        rw [startsWith_iff, String.toList_append] at hstart
        have hmem : '/' ∈ "..".toList := hstart.subset (by simp)
        revert hmem
        decide
      · rw [← heq]
        exact Below.refl _ _
  · exact fun hroot => Below.trans hroot h

theorem mem_root_paths {root p : String} (hroot : root ≠ "*") :
    p ∈ LockRow.paths ⟨root, .root⟩ ↔ UnderRoot root p := by
  simp [LockRow.paths, LockRow.pathsWithin, hroot]

theorem mem_star_paths {p : String} : p ∈ LockRow.paths ⟨"*", .root⟩ ↔ ¬ LeavesCwd p := by
  simp [LockRow.paths, LockRow.pathsWithin]

/-- The root `*` and another root. -/
theorem star_meets_iff {root : String} (hne : root ≠ "") (hroot : root ≠ "*") :
    isCwdOrDescendantPath root = true ↔
      ∃ p, ¬ LeavesCwd p ∧ p ∈ LockRow.paths ⟨root, .root⟩ := by
  rw [isCwdOrDescendantPath_iff]
  constructor
  · exact fun h => ⟨root, h, (mem_root_paths hroot).mpr (Below.refl _ _)⟩
  · rintro ⟨p, hp, hunder⟩ hleaves
    exact hp ((leavesCwd_under_iff hne ((mem_root_paths hroot).mp hunder)).mpr hleaves)

/-- **Two root rows.** -/
theorem rootsOverlap_iff {left right : String} (hleft : left ≠ "") (hright : right ≠ "") :
    rootsOverlap left right = true ↔
      (LockRow.paths ⟨left, .root⟩ ∩ LockRow.paths ⟨right, .root⟩).Nonempty := by
  unfold rootsOverlap
  rw [if_neg (not_or.mpr ⟨hleft, hright⟩)]
  by_cases hl : left = "*"
  · by_cases hr : right = "*"
    · rw [if_pos ⟨hl, hr⟩, hl, hr]
      refine iff_of_true rfl ⟨".", ?_, ?_⟩
      · exact mem_star_paths.mpr not_leavesCwd_dot
      · exact mem_star_paths.mpr not_leavesCwd_dot
    · rw [if_neg (fun h => hr h.2), if_pos hl, star_meets_iff hright hr, hl]
      simp only [Set.Nonempty, Set.mem_inter_iff, mem_star_paths]
  · by_cases hr : right = "*"
    · rw [if_neg (fun h => hl h.1), if_neg hl, if_pos hr, star_meets_iff hleft hl, hr]
      simp only [Set.Nonempty, Set.mem_inter_iff, mem_star_paths, and_comm]
    · rw [if_neg (fun h => hl h.1), if_neg hl, if_neg hr, Bool.or_eq_true,
        isUnderRoot_singleton hr, isUnderRoot_singleton hl]
      simp only [Set.Nonempty, Set.mem_inter_iff, mem_root_paths hl, mem_root_paths hr]
      rw [or_comm]
      constructor
      · rintro (h | h)
        · exact ⟨right, h, Below.refl _ _⟩
        · exact ⟨left, Below.refl _ _, h⟩
      · rintro ⟨p, hp, hp'⟩
        exact exists_below_iff.mp ⟨p.toList, hp, hp'⟩

/-! ## 3. The tests of two rows -/

theorem mem_file_paths {f p : String} : p ∈ LockRow.paths ⟨f, .file⟩ ↔ p = f := by
  simp [LockRow.paths, LockRow.pathsWithin]

/-- **`locksConflict`.** -/
theorem conflict_iff {lock candidate : LockRow} (hlock : lock.path ≠ "")
    (hcandidate : candidate.path ≠ "") :
    lock.conflict candidate = true ↔ (lock.paths ∩ candidate.paths).Nonempty := by
  obtain ⟨p, kind⟩ := lock
  obtain ⟨q, kind'⟩ := candidate
  have hfile : ∀ {f : String} {row : LockRow}, f ∈ row.paths ↔
      (LockRow.paths ⟨f, .file⟩ ∩ row.paths).Nonempty := by
    intro f row
    constructor
    · exact fun h => ⟨f, mem_file_paths.mpr rfl, h⟩
    · rintro ⟨g, hg, hrow⟩
      exact mem_file_paths.mp hg ▸ hrow
  cases kind with
  | file =>
    cases kind' with
    | file =>
      rw [← hfile, mem_file_paths]
      change (q == p) = true ↔ _
      rw [beq_iff_eq, eq_comm]
    | root =>
      rw [← hfile]
      exact isUnderRoot_iff
  | root =>
    cases kind' with
    | file =>
      rw [Set.inter_comm, ← hfile]
      exact isUnderRoot_iff
    | root =>
      rw [Set.inter_comm]
      exact rootsOverlap_iff hcandidate hlock

/-- The other tests are the same rule. -/
theorem scopeRowsConflict_eq (a b : LockRow) : scopeRowsConflict a b = b.conflict a := rfl

theorem lockRowsTouchPath_eq (rows : List LockRow) (row : LockRow) :
    lockRowsTouchPath rows row.path row.lockKind = rows.any (fun lock => lock.conflict row) := rfl

/-! ## 4. Scopes -/

theorem Scope.path_ne_empty (scope : Scope) {row : LockRow} (h : row ∈ scope.toLockRows) :
    row.path ≠ "" := by
  simp only [Scope.toLockRows, Scope.allFiles, List.mem_append, List.mem_map] at h
  have hne := scope.nonempty row.path
  simp only [List.mem_append] at hne
  rcases h with ⟨p, hp, rfl⟩ | ⟨p, hp, rfl⟩
  · exact hne (Or.inl hp)
  · exact hne (Or.inr hp)

/-- **`conflictsWith`.** -/
theorem scope_conflictsWith_iff (left right : Scope) :
    left.conflictsWith right = true ↔ (left.paths ∩ right.paths).Nonempty := by
  rw [Scope.conflictsWith, List.any_eq_true]
  constructor
  · rintro ⟨row, hrow, hany⟩
    obtain ⟨row', hrow', hconflict⟩ := List.any_eq_true.mp hany
    rw [scopeRowsConflict_eq, conflict_iff (right.path_ne_empty hrow') (left.path_ne_empty hrow)]
      at hconflict
    obtain ⟨p, hp', hp⟩ := hconflict
    exact ⟨p, ⟨row, hrow, hp⟩, row', hrow', hp'⟩
  · rintro ⟨p, ⟨row, hrow, hp⟩, row', hrow', hp'⟩
    refine ⟨row, hrow, List.any_eq_true.mpr ⟨row', hrow', ?_⟩⟩
    rw [scopeRowsConflict_eq, conflict_iff (right.path_ne_empty hrow') (left.path_ne_empty hrow)]
    exact ⟨p, hp', hp⟩

/-- The roots of a scope: what stands behind `*` is not looked at, and need not be. -/
theorem isUnderRoot_list_iff {p : String} {roots : List String}
    (hroots : ∀ root ∈ roots, root ≠ "" ∧ ¬ LeavesCwd root) :
    isUnderRoot p roots = true ↔ ∃ root ∈ roots, p ∈ LockRow.paths ⟨root, .root⟩ := by
  induction roots with
  | nil => simp [isUnderRoot]
  | cons root rest ih =>
    have hrest := ih fun r hr => hroots r (List.mem_cons_of_mem root hr)
    by_cases hroot : root = "*"
    · rw [isUnderRoot, if_pos hroot, isCwdOrDescendantPath_iff, hroot]
      constructor
      · exact fun h => ⟨"*", List.mem_cons_self, mem_star_paths.mpr h⟩
      · rintro ⟨r, hr, hp⟩
        by_cases hstar : r = "*"
        · exact mem_star_paths.mp (hstar ▸ hp)
        · obtain ⟨hne, hinside⟩ := hroots r (hroot ▸ hr)
          exact fun hleaves =>
            hinside ((leavesCwd_under_iff hne ((mem_root_paths hstar).mp hp)).mp hleaves)
    · have hcons : isUnderRoot p (root :: rest) =
          (isUnderRoot p [root] || isUnderRoot p rest) := by
        simp only [isUnderRoot, if_neg hroot]
        cases hhere : (startsWith p (root ++ "/") || p == root) <;> simp
      rw [hcons, Bool.or_eq_true, isUnderRoot_iff, hrest]
      simp

theorem Scope.mem_paths {scope : Scope} {p : String} :
    p ∈ scope.paths ↔ p ∈ scope.allFiles ∨
      ∃ root ∈ scope.createRoots, p ∈ LockRow.paths ⟨root, .root⟩ := by
  simp only [Scope.paths, Scope.toLockRows, Set.mem_ofPred_eq, List.mem_append, List.mem_map]
  constructor
  · rintro ⟨row, ⟨f, hf, rfl⟩ | ⟨root, hroot, rfl⟩, hp⟩
    · exact Or.inl (mem_file_paths.mp hp ▸ hf)
    · exact Or.inr ⟨root, hroot, hp⟩
  · rintro (hf | ⟨root, hroot, hp⟩)
    · exact ⟨_, Or.inl ⟨p, hf, rfl⟩, mem_file_paths.mpr rfl⟩
    · exact ⟨_, Or.inr ⟨root, hroot, rfl⟩, hp⟩

/-- **`contains`.** -/
theorem scope_contains_iff {scope : Scope} (hroots : ∀ root ∈ scope.createRoots, ¬ LeavesCwd root)
    (filePath : String) :
    scope.contains filePath = true ↔ normPath filePath ≠ "" ∧ normPath filePath ∈ scope.paths := by
  have hroots' : ∀ root ∈ scope.createRoots, root ≠ "" ∧ ¬ LeavesCwd root :=
    fun root hroot => ⟨scope.nonempty root (List.mem_append_right _ hroot), hroots root hroot⟩
  unfold Scope.contains
  dsimp only
  split_ifs with hempty
  · simp [hempty]
  · rw [Bool.or_eq_true, decide_eq_true_eq, isUnderRoot_list_iff hroots', Scope.mem_paths]
    exact ⟨fun h => ⟨hempty, h⟩, fun h => h.2⟩

/-! ## 5. The tests and the sets -/

/-- **Lock overlap is the intersection of path sets.**  For rows whose paths are not empty, every
test of two rows is true exactly where their path sets have a path in common, so that the tests
are symmetric and agree with each other; two scopes conflict exactly where their sets do; and a
scope whose roots stay in the working directory contains exactly the paths of its set. -/
theorem lockTests_iff :
    (∀ a b : LockRow, a.path ≠ "" → b.path ≠ "" →
      (a.conflict b = true ↔ (a.paths ∩ b.paths).Nonempty) ∧
      (lockRowsTouchPath [a] b.path b.lockKind = true ↔ (a.paths ∩ b.paths).Nonempty) ∧
      (lockRowsOverlap a b = true ↔ (a.paths ∩ b.paths).Nonempty) ∧
      (schedulerLocksConflict a b = true ↔ (a.paths ∩ b.paths).Nonempty) ∧
      (scopeRowsConflict a b = true ↔ (a.paths ∩ b.paths).Nonempty)) ∧
    (∀ left right : Scope,
      left.conflictsWith right = true ↔ (left.paths ∩ right.paths).Nonempty) ∧
    (∀ scope : Scope, (∀ root ∈ scope.createRoots, ¬ LeavesCwd root) → ∀ filePath,
      (scope.contains filePath = true ↔
        normPath filePath ≠ "" ∧ normPath filePath ∈ scope.paths)) := by
  refine ⟨fun a b ha hb => ?_, scope_conflictsWith_iff, fun scope => scope_contains_iff⟩
  have hconflict := conflict_iff ha hb
  have hflip : b.conflict a = true ↔ (a.paths ∩ b.paths).Nonempty := by
    rw [conflict_iff hb ha, Set.inter_comm]
  refine ⟨hconflict, ?_, hflip, hconflict, hflip⟩
  rw [lockRowsTouchPath_eq, List.any_cons, List.any_nil, Bool.or_false]
  exact hconflict

/-- A root, a file under it, and a file of another directory. -/
theorem lockTests_iff_src :
    (LockRow.conflict ⟨"src", .root⟩ ⟨"src/a.js", .file⟩ = true ↔
      (LockRow.paths ⟨"src", .root⟩ ∩ LockRow.paths ⟨"src/a.js", .file⟩).Nonempty) ∧
    (lockRowsOverlap ⟨"src", .root⟩ ⟨"srcs/a.js", .file⟩ = true ↔
      (LockRow.paths ⟨"src", .root⟩ ∩ LockRow.paths ⟨"srcs/a.js", .file⟩).Nonempty) ∧
    ((Scope.new "/repo" [] [] ["src"] []).contains "./src//a.js" = true ↔
      normPath "./src//a.js" ≠ "" ∧
        normPath "./src//a.js" ∈ (Scope.new "/repo" [] [] ["src"] []).paths) := by
  refine ⟨(lockTests_iff.1 _ _ (by decide) (by decide)).1,
    (lockTests_iff.1 _ _ (by decide) (by decide)).2.2.1, lockTests_iff.2.2 _ ?_ _⟩
  intro root hroot
  have hsrc : root = "src" := by
    have hroots : (Scope.new "/repo" [] [] ["src"] []).createRoots = ["src"] := by decide
    rw [hroots] at hroot
    simpa using hroot
  rw [hsrc]
  unfold LeavesCwd
  decide

/-- **The root `*` does not have every path.**  A file outside the working directory is in a scope
of its own, and the scope of the whole working directory does not conflict with it. -/
theorem lockTests_outside :
    (Scope.new "/repo" ["../shared.js"] [] [] []).toLockRows = [⟨"../shared.js", .file⟩] ∧
    (Scope.new "/repo" [] [] ["."] []).toLockRows = [⟨"*", .root⟩] ∧
    (Scope.new "/repo" ["../shared.js"] [] [] []).conflictsWith
      (Scope.new "/repo" [] [] ["."] []) = false ∧
    (Scope.new "/repo" [] [] ["."] []).contains "../shared.js" = false ∧
    (LockRow.pathsWithin Set.univ ⟨"../shared.js", .file⟩ ∩
      LockRow.pathsWithin Set.univ ⟨"*", .root⟩).Nonempty := by
  refine ⟨by decide, by decide, by decide, by decide, "../shared.js", ?_, ?_⟩
  · simp [LockRow.pathsWithin]
  · simp [LockRow.pathsWithin]

end PosseClient
