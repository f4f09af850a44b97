/-
# Dependents of post-merge database tasks

`rewriteDependenciesAroundPostMergeDbTasks` of `dependency-rewrite.js`: a database task that applies
files the plan commits waits for the merge, so a dependent that is no database task waits for the
upstream of that task in its place.

* `upstreamThroughDbTasks`: the recursion of the source, with its shared set of seen indexes.
* `UpstreamThroughDb`: what a path of database tasks leads to, and `mem_upstreamThroughDbTasks_iff`.
* `rewriteDependencies_exact`: which dependencies a rewritten link has, and that it is final.

The memo `postMerge` is left out: what it holds depends on the links before the rewriting alone.
-/
import PosseClient.Lib.GraphSearch

namespace PosseClient

open GraphSearch Relation

/-! ## 1. The source -/

/-- A pending planner dependency link of the compiler. -/
structure PlannerLink (κ ι : Type*) where
  jobId : κ
  taskIndex : ι
  dependsOnIndexes : List ι
  deriving DecidableEq, Repr

/-- What the compiler tells of an index; `isInteger` is `Number.isInteger`. -/
structure TaskIndexes (ι : Type*) where
  isInteger : ι → Bool
  isDbTaskIndex : ι → Bool
  writesRepoFilesIndex : ι → Bool

/-- What the rewriting records of a link. -/
structure LinkRewrite (κ ι : Type*) where
  jobId : κ
  taskIndex : ι
  removed : List ι
  added : List ι
  deriving DecidableEq, Repr

section Source

variable {κ ι : Type*} [DecidableEq ι]

/-- `isDbIndex`. -/
def TaskIndexes.isDbIndex (tasks : TaskIndexes ι) (index : ι) : Bool :=
  tasks.isInteger index && tasks.isDbTaskIndex index

/-- `dependsOnByTask`: the dependencies of a task, over all its links. -/
def dependsOnByTask (links : List (PlannerLink κ ι)) (index : ι) : List ι :=
  ((links.filter (fun link => decide (link.taskIndex = index))).flatMap
    (·.dependsOnIndexes)).eraseDups

/-- `upstreamThroughDbTasks`, with the set `seen` as the recursion leaves it. -/
def upstreamThroughDbTasks (dependsOn : ι → List ι) (isDb : ι → Bool) :
    ℕ → ι → List ι → List ι × List ι
  | 0, _, seen => ([], seen)
  | fuel + 1, index, seen =>
    (dependsOn index).foldl (fun (upstream, seen) depIdx =>
      if depIdx ∈ seen then (upstream, seen)
      else if isDb depIdx then
        let deeper := upstreamThroughDbTasks dependsOn isDb fuel depIdx (seen ++ [depIdx])
        (upstream ++ deeper.1, deeper.2)
      else (upstream ++ [depIdx], seen ++ [depIdx])) ([], seen)

/-- The recursion on the graph of the links; it enters each task with links once at most. -/
def upstreamOf (links : List (PlannerLink κ ι)) (tasks : TaskIndexes ι) (index : ι)
    (seen : List ι) : List ι :=
  (upstreamThroughDbTasks (dependsOnByTask links) tasks.isDbIndex (links.length + 1) index seen).1

/-- `isPostMergeDbIndex`. -/
def isPostMergeDbIndex (links : List (PlannerLink κ ι)) (tasks : TaskIndexes ι) (index : ι) :
    Bool :=
  tasks.isDbIndex index && (upstreamOf links tasks index [index]).any fun depIdx =>
    tasks.isInteger depIdx && tasks.writesRepoFilesIndex depIdx

/-- The body of the loop over the links; `links` are those before the rewriting. -/
def rewriteLink (links : List (PlannerLink κ ι)) (tasks : TaskIndexes ι)
    (link : PlannerLink κ ι) : PlannerLink κ ι × Option (LinkRewrite κ ι) :=
  if tasks.isDbIndex link.taskIndex then (link, none)
  else
    let removed := link.dependsOnIndexes.filter (isPostMergeDbIndex links tasks)
    if removed.length = 0 then (link, none)
    else
      let next := (link.dependsOnIndexes.flatMap fun depIdx =>
        if depIdx ∈ removed then upstreamOf links tasks depIdx [depIdx, link.taskIndex]
        else [depIdx]).eraseDups
      ({ link with dependsOnIndexes := next },
        some { jobId := link.jobId, taskIndex := link.taskIndex, removed := removed,
               added := next.filter fun depIdx => decide (depIdx ∉ link.dependsOnIndexes) })

/-- `rewriteDependenciesAroundPostMergeDbTasks`: the links as it leaves them, and its records. -/
def rewriteDependenciesAroundPostMergeDbTasks (links : List (PlannerLink κ ι))
    (tasks : TaskIndexes ι) : List (PlannerLink κ ι) × List (LinkRewrite κ ι) :=
  (links.map fun link => (rewriteLink links tasks link).1,
    links.filterMap fun link => (rewriteLink links tasks link).2)

end Source

/-! ## 2. Upstream through database tasks -/

section Upstream

variable {ι : Type*} {dependsOn : ι → List ι} {isDb : ι → Bool}

/-- **Upstream through database tasks**: a path of dependencies leads from `index` to `x`, and all
tasks between the two are database tasks. -/
def UpstreamThroughDb (dependsOn : ι → List ι) (isDb : ι → Bool) (index x : ι) : Prop :=
  ∃ depIdx ∈ dependsOn index,
    ReflTransGen (fun a b => isDb a = true ∧ b ∈ dependsOn a) depIdx x

/-- The graph that the recursion searches. -/
def nextThroughDb (dependsOn : ι → List ι) (isDb : ι → Bool) (index : ι) : List ι :=
  if isDb index then dependsOn index else []

theorem step_nextThroughDb {a b : ι} :
    Step (nextThroughDb dependsOn isDb) a b ↔ isDb a = true ∧ b ∈ dependsOn a := by
  unfold Step nextThroughDb
  cases isDb a <;> simp

theorem reflTransGen_nextThroughDb {a b : ι} :
    ReflTransGen (Step (nextThroughDb dependsOn isDb)) a b ↔
      ReflTransGen (fun a b => isDb a = true ∧ b ∈ dependsOn a) a b := by
  have hstep : Step (nextThroughDb dependsOn isDb) =
      fun a b => isDb a = true ∧ b ∈ dependsOn a := by
    funext x y
    exact propext step_nextThroughDb
  rw [hstep]

/-- Only the dependencies of database tasks matter. -/
theorem upstreamThroughDb_congr {dependsOn' : ι → List ι}
    (hsame : ∀ index, isDb index = true → ∀ x, x ∈ dependsOn' index ↔ x ∈ dependsOn index)
    {index : ι} (hdb : isDb index = true) {x : ι} :
    UpstreamThroughDb dependsOn' isDb index x ↔ UpstreamThroughDb dependsOn isDb index x := by
  have hstep : (fun a b => isDb a = true ∧ b ∈ dependsOn' a) =
      fun a b => isDb a = true ∧ b ∈ dependsOn a := by
    funext a b
    exact propext (and_congr_right fun ha => hsame a ha b)
  unfold UpstreamThroughDb
  rw [hstep]
  exact exists_congr fun depIdx => and_congr_left fun _ => hsame index hdb depIdx

variable [DecidableEq ι]

/-- **The recursion is the depth-first search**: its set is that of the search, and its list has
what is new there and no database task. -/
theorem upstreamThroughDbTasks_search (dependsOn : ι → List ι) (isDb : ι → Bool) : ∀ (fuel : ℕ) (index : ι) (seen : List ι),
    (dependsOn index).foldlM (search (nextThroughDb dependsOn isDb) (fun _ => false) fuel) seen =
        some (upstreamThroughDbTasks dependsOn isDb fuel index seen).2 ∧
      seen ⊆ (upstreamThroughDbTasks dependsOn isDb fuel index seen).2 ∧
      ∀ x, x ∈ (upstreamThroughDbTasks dependsOn isDb fuel index seen).1 ↔
        x ∈ (upstreamThroughDbTasks dependsOn isDb fuel index seen).2 ∧ x ∉ seen ∧ isDb x = false
  | 0, index, seen => by
    refine ⟨?_, fun _ h => h, ?_⟩
    · have hall : ∀ ys : List ι,
          ys.foldlM (search (nextThroughDb dependsOn isDb) (fun _ => false) 0) seen =
            some seen := by
        intro ys
        induction ys with
        | nil => rfl
        | cons y ys ih =>
          rw [List.foldlM_cons]
          exact ih
      exact hall _
    · intro x
      constructor
      · exact fun h => absurd h List.not_mem_nil
      · exact fun h => absurd h.1 h.2.1
  | fuel + 1, index, seen => by
    rw [upstreamThroughDbTasks]
    -- the loop, with what it has when it comes to a dependency
    have hloop : ∀ (ys : List ι) (upstream s : List ι), seen ⊆ s →
        (∀ x, x ∈ upstream ↔ x ∈ s ∧ x ∉ seen ∧ isDb x = false) → ∃ upstream' s',
          ys.foldl (fun (upstream, seen) depIdx =>
            if depIdx ∈ seen then (upstream, seen)
            else if isDb depIdx then
              let deeper := upstreamThroughDbTasks dependsOn isDb fuel depIdx (seen ++ [depIdx])
              (upstream ++ deeper.1, deeper.2)
            else (upstream ++ [depIdx], seen ++ [depIdx])) (upstream, s) = (upstream', s') ∧
          ys.foldlM (search (nextThroughDb dependsOn isDb) (fun _ => false) (fuel + 1)) s =
            some s' ∧ seen ⊆ s' ∧ ∀ x, x ∈ upstream' ↔ x ∈ s' ∧ x ∉ seen ∧ isDb x = false := by
      intro ys
      induction ys with
      | nil => exact fun upstream s hseen hmem => ⟨upstream, s, rfl, rfl, hseen, hmem⟩
      | cons depIdx ys ih =>
        intro upstream s hseen hmem
        rw [List.foldl_cons, List.foldlM_cons, search, if_neg Bool.false_ne_true]
        by_cases hold : depIdx ∈ s
        · rw [if_pos hold]
          dsimp only
          rw [if_pos hold]
          exact ih upstream s hseen hmem
        · rw [if_neg hold]
          dsimp only
          rw [if_neg hold]
          cases hdb : isDb depIdx with
          | true =>
            obtain ⟨hdeep, hsub, hdeeper⟩ :=
              upstreamThroughDbTasks_search dependsOn isDb fuel depIdx (s ++ [depIdx])
            rw [nextThroughDb, if_pos hdb, if_pos rfl, hdeep]
            refine ih _ _ (fun x hx => hsub (List.mem_append_left _ (hseen hx))) fun x => ?_
            rw [List.mem_append, hmem, hdeeper]
            constructor
            · rintro (⟨hx, hnew, hxdb⟩ | ⟨hx, hnew, hxdb⟩)
              · exact ⟨hsub (List.mem_append_left _ hx), hnew, hxdb⟩
              · exact ⟨hx, fun hs => hnew (List.mem_append_left _ (hseen hs)), hxdb⟩
            · rintro ⟨hx, hnew, hxdb⟩
              by_cases hxs : x ∈ s
              · exact Or.inl ⟨hxs, hnew, hxdb⟩
              · refine Or.inr ⟨hx, fun hin => ?_, hxdb⟩
                rcases List.mem_append.mp hin with hin | hin
                · exact hxs hin
                · rw [List.mem_singleton.mp hin, hdb] at hxdb
                  cases hxdb
          | false =>
            rw [nextThroughDb, hdb, if_neg Bool.false_ne_true, if_neg Bool.false_ne_true]
            refine ih _ _ (fun x hx => List.mem_append_left _ (hseen hx)) fun x => ?_
            rw [List.mem_append, List.mem_append, hmem, List.mem_singleton]
            constructor
            · rintro (⟨hx, hnew, hxdb⟩ | rfl)
              · exact ⟨Or.inl hx, hnew, hxdb⟩
              · exact ⟨Or.inr rfl, fun hs => hold (hseen hs), hdb⟩
            · rintro ⟨hx | rfl, hnew, hxdb⟩
              · exact Or.inl ⟨hx, hnew, hxdb⟩
              · exact Or.inr rfl
    obtain ⟨upstream', s', hfold, hsearch, hsub, hmem⟩ :=
      hloop (dependsOn index) [] seen (fun _ h => h) fun x =>
        ⟨fun h => absurd h List.not_mem_nil, fun h => absurd h.1 h.2.1⟩
    rw [hfold]
    exact ⟨hsearch, hsub, hmem⟩

/-- **What the recursion returns**: the tasks upstream through database tasks that are none
themselves, those in `seen` apart. Tasks seen before are the starting one or no database tasks. -/
theorem mem_upstreamThroughDbTasks_iff {sources : List ι} {fuel : ℕ}
    (hsources : ∀ x, dependsOn x ≠ [] → x ∈ sources) (hfuel : sources.length < fuel)
    {index : ι} {seen : List ι} (hseen : ∀ y ∈ seen, y = index ∨ isDb y = false) {x : ι} :
    x ∈ (upstreamThroughDbTasks dependsOn isDb fuel index seen).1 ↔
      UpstreamThroughDb dependsOn isDb index x ∧ x ∉ seen ∧ isDb x = false := by
  obtain ⟨hsearch, -, hmem⟩ :=
    upstreamThroughDbTasks_search dependsOn isDb fuel index seen
  generalize (upstreamThroughDbTasks dependsOn isDb fuel index seen).2 = seen' at hsearch hmem
  have hnext : ∀ y, nextThroughDb dependsOn isDb y ≠ [] → y ∈ sources := by
    intro y hy
    refine hsources y fun hempty => hy ?_
    rw [nextThroughDb, hempty, ite_self]
  have hunseen : (unseen sources seen).length < fuel :=
    lt_of_le_of_lt (List.length_filter_le _ _) hfuel
  have hdone := Searched.foldlM (fun hs hy => search_searched hnext fuel hs hy) _ hunseen hsearch
  rw [hmem]
  refine and_congr_left fun hx => ?_
  constructor
  · intro hin
    obtain ⟨depIdx, hdep, hpath⟩ := hdone.reached x hin hx.1
    exact ⟨depIdx, hdep, reflTransGen_nextThroughDb.mp hpath⟩
  · rintro ⟨depIdx, hdep, hpath⟩
    refine mem_of_closed (S := (· ∈ seen')) (fun y hy z hz => ?_) (hdone.starts depIdx hdep)
      (reflTransGen_nextThroughDb.mpr hpath)
    by_cases hyseen : y ∈ seen
    · obtain ⟨hydb, hz⟩ := step_nextThroughDb.mp hz
      rcases hseen y hyseen with rfl | hnot
      · exact hdone.starts z hz
      · rw [hnot] at hydb
        cases hydb
    · exact hdone.closed y hy hyseen z hz

end Upstream

/-! ## 3. Post-merge tasks and the rewriting -/

section Rewriting

variable {κ ι : Type*} [DecidableEq ι] {links : List (PlannerLink κ ι)} {tasks : TaskIndexes ι}

/-- **A post-merge database task**: a task that writes repository files, and is no database task,
is upstream of it through database tasks. -/
def PostMergeDb (links : List (PlannerLink κ ι)) (tasks : TaskIndexes ι) (index : ι) : Prop :=
  tasks.isDbIndex index = true ∧
    ∃ x, UpstreamThroughDb (dependsOnByTask links) tasks.isDbIndex index x ∧
      tasks.isDbIndex x = false ∧ tasks.isInteger x = true ∧ tasks.writesRepoFilesIndex x = true

theorem mem_dependsOnByTask {index x : ι} :
    x ∈ dependsOnByTask links index ↔
      ∃ link ∈ links, link.taskIndex = index ∧ x ∈ link.dependsOnIndexes := by
  simp only [dependsOnByTask, List.mem_eraseDups, List.mem_flatMap, List.mem_filter,
    decide_eq_true_eq, and_assoc]

/-- Tasks with dependencies have a link. -/
theorem dependsOnByTask_source (index : ι) (h : dependsOnByTask links index ≠ []) :
    index ∈ links.map (·.taskIndex) := by
  obtain ⟨x, hx⟩ := List.exists_mem_of_ne_nil _ h
  obtain ⟨link, hlink, htask, -⟩ := mem_dependsOnByTask.mp hx
  exact List.mem_map.mpr ⟨link, hlink, htask⟩

theorem mem_upstreamOf_iff {index : ι} {seen : List ι}
    (hseen : ∀ y ∈ seen, y = index ∨ tasks.isDbIndex y = false) {x : ι} :
    x ∈ upstreamOf links tasks index seen ↔
      UpstreamThroughDb (dependsOnByTask links) tasks.isDbIndex index x ∧ x ∉ seen ∧
        tasks.isDbIndex x = false := by
  refine mem_upstreamThroughDbTasks_iff dependsOnByTask_source ?_ hseen
  rw [List.length_map]
  exact Nat.lt_succ_self _

theorem isPostMergeDbIndex_iff {index : ι} :
    isPostMergeDbIndex links tasks index = true ↔ PostMergeDb links tasks index := by
  rw [isPostMergeDbIndex, Bool.and_eq_true, List.any_eq_true, PostMergeDb]
  refine and_congr_right fun hdb => exists_congr fun x => ?_
  rw [mem_upstreamOf_iff fun y hy => Or.inl (List.mem_singleton.mp hy), Bool.and_eq_true]
  constructor
  · rintro ⟨⟨hpath, -, hx⟩, hinteger, hwrites⟩
    exact ⟨hpath, hx, hinteger, hwrites⟩
  · rintro ⟨hpath, hx, hinteger, hwrites⟩
    refine ⟨⟨hpath, fun hmem => ?_, hx⟩, hinteger, hwrites⟩
    rw [List.mem_singleton.mp hmem, hdb] at hx
    cases hx

/-- A dependency of a rewritten link: an old one that is not held for the merge, or one that the
task reached through an old one that is. -/
def FreedDependency (links : List (PlannerLink κ ι)) (tasks : TaskIndexes ι)
    (link : PlannerLink κ ι) (x : ι) : Prop :=
  (x ∈ link.dependsOnIndexes ∧ ¬PostMergeDb links tasks x) ∨
    ∃ depIdx ∈ link.dependsOnIndexes, PostMergeDb links tasks depIdx ∧
      UpstreamThroughDb (dependsOnByTask links) tasks.isDbIndex depIdx x ∧
      tasks.isDbIndex x = false ∧ x ≠ link.taskIndex

/-- **A rewritten link** has its job and task, and a link of a database task all it had. -/
structure LinkFreed (links : List (PlannerLink κ ι)) (tasks : TaskIndexes ι)
    (link link' : PlannerLink κ ι) : Prop where
  job : link'.jobId = link.jobId
  task : link'.taskIndex = link.taskIndex
  of_db : tasks.isDbIndex link.taskIndex = true → link' = link
  of_other : tasks.isDbIndex link.taskIndex = false →
    ∀ x, x ∈ link'.dependsOnIndexes ↔ FreedDependency links tasks link x

theorem mem_removed {link : PlannerLink κ ι} {x : ι} :
    x ∈ link.dependsOnIndexes.filter (isPostMergeDbIndex links tasks) ↔
      x ∈ link.dependsOnIndexes ∧ PostMergeDb links tasks x := by
  rw [List.mem_filter, isPostMergeDbIndex_iff]

/-- A link without a post-merge dependency stays. -/
theorem rewriteLink_of_no_postMerge {link : PlannerLink κ ι}
    (h : tasks.isDbIndex link.taskIndex = true ∨
      ∀ x ∈ link.dependsOnIndexes, ¬PostMergeDb links tasks x) :
    rewriteLink links tasks link = (link, none) := by
  rw [rewriteLink]
  split
  case isTrue => rfl
  case isFalse hdb =>
    have hnone : link.dependsOnIndexes.filter (isPostMergeDbIndex links tasks) = [] := by
      rw [List.eq_nil_iff_forall_not_mem]
      intro x hx
      obtain ⟨hmem, hpost⟩ := mem_removed.mp hx
      exact h.elim hdb fun hother => hother x hmem hpost
    dsimp only
    rw [hnone, List.length_nil, if_pos rfl]

theorem rewriteLink_freed (links : List (PlannerLink κ ι)) (tasks : TaskIndexes ι)
    (link : PlannerLink κ ι) :
    LinkFreed links tasks link (rewriteLink links tasks link).1 := by
  by_cases hstays : tasks.isDbIndex link.taskIndex = true ∨
      ∀ x ∈ link.dependsOnIndexes, ¬PostMergeDb links tasks x
  · rw [rewriteLink_of_no_postMerge hstays]
    refine ⟨rfl, rfl, fun _ => rfl, fun hother x => ?_⟩
    have hnone : ∀ x ∈ link.dependsOnIndexes, ¬PostMergeDb links tasks x := by
      rcases hstays with hdb | hnone
      · rw [hother] at hdb
        cases hdb
      · exact hnone
    constructor
    · exact fun hx => Or.inl ⟨hx, hnone x hx⟩
    · rintro (⟨hx, -⟩ | ⟨depIdx, hdep, hpost, -⟩)
      · exact hx
      · exact absurd hpost (hnone depIdx hdep)
  · push Not at hstays
    obtain ⟨hdb, p, hp, hpost⟩ := hstays
    have hdbFalse := Bool.eq_false_of_not_eq_true hdb
    have hsome : ¬(link.dependsOnIndexes.filter (isPostMergeDbIndex links tasks)).length = 0 := by
      rw [List.length_eq_zero_iff]
      exact List.ne_nil_of_mem (mem_removed.mpr ⟨hp, hpost⟩)
    rw [rewriteLink, if_neg hdb]
    dsimp only
    rw [if_neg hsome]
    refine ⟨rfl, rfl, fun hother => absurd hother hdb, fun _ x => ?_⟩
    dsimp only
    rw [List.mem_eraseDups, List.mem_flatMap]
    have hupstream : ∀ depIdx, x ∈ upstreamOf links tasks depIdx [depIdx, link.taskIndex] ↔
        UpstreamThroughDb (dependsOnByTask links) tasks.isDbIndex depIdx x ∧
          x ∉ [depIdx, link.taskIndex] ∧ tasks.isDbIndex x = false := by
      intro depIdx
      refine mem_upstreamOf_iff fun y hy => ?_
      rcases List.mem_cons.mp hy with rfl | hy
      · exact Or.inl rfl
      · exact Or.inr (List.mem_singleton.mp hy ▸ hdbFalse)
    constructor
    · rintro ⟨depIdx, hdep, hx⟩
      split at hx
      case isTrue hremoved =>
        obtain ⟨-, hheld⟩ := mem_removed.mp hremoved
        obtain ⟨hpath, hnew, hxdb⟩ := (hupstream depIdx).mp hx
        refine Or.inr ⟨depIdx, hdep, hheld, hpath, hxdb, ?_⟩
        rintro rfl
        exact hnew (List.mem_cons_of_mem _ List.mem_cons_self)
      case isFalse hkept =>
        rw [List.mem_singleton.mp hx]
        exact Or.inl ⟨hdep, fun hheld => hkept (mem_removed.mpr ⟨hdep, hheld⟩)⟩
    · rintro (⟨hx, hfree⟩ | ⟨depIdx, hdep, hheld, hpath, hxdb, hne⟩)
      · refine ⟨x, hx, ?_⟩
        rw [if_neg fun hremoved => hfree (mem_removed.mp hremoved).2]
        exact List.mem_cons_self
      · refine ⟨depIdx, hdep, ?_⟩
        rw [if_pos (mem_removed.mpr ⟨hdep, hheld⟩), hupstream]
        refine ⟨hpath, fun hmem => ?_, hxdb⟩
        rcases List.mem_cons.mp hmem with rfl | hmem
        · rw [hheld.1] at hxdb
          cases hxdb
        · exact hne (List.mem_singleton.mp hmem)

/-! Database tasks keep their links, and with them what is upstream of them. -/

theorem mem_dependsOnByTask_rewritten {index x : ι} (hdb : tasks.isDbIndex index = true) :
    x ∈ dependsOnByTask (rewriteDependenciesAroundPostMergeDbTasks links tasks).1 index ↔
      x ∈ dependsOnByTask links index := by
  rw [mem_dependsOnByTask, mem_dependsOnByTask]
  constructor
  · rintro ⟨link', hlink', htask, hx⟩
    obtain ⟨link, hlink, rfl⟩ := List.mem_map.mp hlink'
    have hfreed := rewriteLink_freed links tasks link
    rw [hfreed.task] at htask
    rw [hfreed.of_db (htask ▸ hdb)] at hx
    exact ⟨link, hlink, htask, hx⟩
  · rintro ⟨link, hlink, htask, hx⟩
    have hfreed := rewriteLink_freed links tasks link
    refine ⟨(rewriteLink links tasks link).1, List.mem_map_of_mem hlink, ?_, ?_⟩
    · exact hfreed.task.trans htask
    · rw [hfreed.of_db (htask ▸ hdb)]
      exact hx

theorem postMergeDb_rewritten {index : ι} :
    PostMergeDb (rewriteDependenciesAroundPostMergeDbTasks links tasks).1 tasks index ↔
      PostMergeDb links tasks index := by
  refine and_congr_right fun hdb => exists_congr fun x => and_congr_left fun _ => ?_
  refine upstreamThroughDb_congr (fun d hd y => ?_) hdb
  exact mem_dependsOnByTask_rewritten hd

/-- **The rewriting around post-merge database tasks**: each link has the dependencies it is to have
(`LinkFreed`), none of them a post-merge task where its own is no database task, and a second
application changes nothing. -/
theorem rewriteDependencies_exact (links : List (PlannerLink κ ι)) (tasks : TaskIndexes ι) :
    let links' := (rewriteDependenciesAroundPostMergeDbTasks links tasks).1
    List.Forall₂ (LinkFreed links tasks) links links' ∧
      (∀ link ∈ links', tasks.isDbIndex link.taskIndex = false →
        ∀ x ∈ link.dependsOnIndexes, ¬PostMergeDb links tasks x ∧ ¬PostMergeDb links' tasks x) ∧
      rewriteDependenciesAroundPostMergeDbTasks links' tasks = (links', []) := by
  intro links'
  have hheld : ∀ link ∈ links', tasks.isDbIndex link.taskIndex = false →
      ∀ x ∈ link.dependsOnIndexes, ¬PostMergeDb links tasks x := by
    intro link' hlink' hother x hx
    obtain ⟨link, -, rfl⟩ := List.mem_map.mp hlink'
    have hfreed := rewriteLink_freed links tasks link
    rw [hfreed.task] at hother
    rcases (hfreed.of_other hother x).mp hx with ⟨-, hfree⟩ | ⟨-, -, -, -, hxdb, -⟩
    · exact hfree
    · rintro ⟨hdb, -⟩
      rw [hxdb] at hdb
      cases hdb
  refine ⟨?_, ?_, ?_⟩
  · have hmap : links' = links.map fun link => (rewriteLink links tasks link).1 := rfl
    rw [hmap, List.forall₂_map_right_iff, List.forall₂_same]
    exact fun link _ => rewriteLink_freed links tasks link
  · intro link hlink hother x hx
    refine ⟨hheld link hlink hother x hx, ?_⟩
    rw [postMergeDb_rewritten]
    exact hheld link hlink hother x hx
  · have hstays : ∀ link ∈ links', rewriteLink links' tasks link = (link, none) := by
      intro link hlink
      refine rewriteLink_of_no_postMerge ?_
      by_cases hdb : tasks.isDbIndex link.taskIndex = true
      · exact Or.inl hdb
      · refine Or.inr fun x hx => ?_
        rw [postMergeDb_rewritten]
        exact hheld link hlink (Bool.eq_false_of_not_eq_true hdb) x hx
    refine Prod.ext ?_ ?_
    · refine (List.map_congr_left fun link hlink => ?_).trans (List.map_id links')
      rw [hstays link hlink]
      rfl
    · refine List.filterMap_eq_nil_iff.mpr fun link hlink => ?_
      rw [hstays link hlink]

end Rewriting

end PosseClient
