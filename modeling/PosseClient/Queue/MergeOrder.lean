/-
# The merge order of work items

`orderWorkItemsByMergeDependencies` of `cross-wi-deps.js`: Kahn's algorithm with a sorted list of the
ready work items, and the leftovers of a cycle at the end.

* `releaseTargets`, `mergeRounds`: the loop of the source, with its indegrees.
* `Rounds`: an indegree is the number of sources that are not placed, and `ready` has the open ones.
* `orderWorkItems_stable`: the least order, by the original positions, that keeps the dependencies.
-/
import PosseClient.Queue.MergeDependencies
import PosseClient.Lib.GreedyOrder
import PosseClient.Lib.KeySort
import PosseClient.Lib.Table

namespace PosseClient

open GreedyOrder Reachability Relation

/-! ## 1. The source -/

section Source

variable {V : Type*}

/-- The map `originalIndex`: the position of the first work item of an id. -/
def originalIndex (items : List (MergeWorkItem V)) (id : ℕ) : ℕ :=
  (items.map (·.id)).idxOf id

/-- The keys of `byId`, as they come. -/
def mergeIds (items : List (MergeWorkItem V)) : List ℕ := (items.map (·.id)).eraseDups

/-- The maps `dependents`, a set as a list, and `indegree`. -/
structure MergeEdges where
  dependents : ℕ → List ℕ
  indegree : ℕ → ℤ

/-- One dependency of a work item. -/
def addMergeEdge (ids : List ℕ) (targetId : ℕ) (edges : MergeEdges) (source : Option ℤ) :
    MergeEdges :=
  match source.map Int.toNat with
  | none => edges
  | some sourceId =>
    if sourceId ∉ ids ∨ sourceId = targetId then edges
    else if targetId ∈ edges.dependents sourceId then edges
    else
      { dependents := Function.update edges.dependents sourceId
          (edges.dependents sourceId ++ [targetId])
        indegree := Function.update edges.indegree targetId (edges.indegree targetId + 1) }

/-- The loop over the work items and their dependencies. -/
def mergeEdges (now : String) (items : List (MergeWorkItem V)) : MergeEdges :=
  items.foldl (fun edges item =>
    (getWorkItemMergeDependencies now item).foldl
      (fun edges dep => addMergeEdge (mergeIds items) item.id edges dep.source) edges)
    { dependents := fun _ => [], indegree := fun _ => 0 }

/-- `sort(byOriginalOrder)`. -/
def sortByPosition (position : ℕ → ℕ) (ids : List ℕ) : List ℕ :=
  ids.mergeSort fun left right => decide (position left ≤ position right)

/-- The loop over the targets of a placed work item. -/
def releaseTargets (position : ℕ → ℕ) (ready : List ℕ) (indegree : ℕ → ℤ) (targets : List ℕ) :
    List ℕ × (ℕ → ℤ) :=
  targets.foldl (fun state targetId =>
    let remaining := state.2 targetId - 1
    let indegree := Function.update state.2 targetId remaining
    if remaining = 0 then (sortByPosition position (state.1 ++ [targetId]), indegree)
    else (state.1, indegree)) (ready, indegree)

/-- The loop over `ready`, with fuel for the rounds; what is left in `ready` is returned too. -/
def mergeRounds (position : ℕ → ℕ) (dependents : ℕ → List ℕ) :
    ℕ → List ℕ → (ℕ → ℤ) → List ℕ → List ℕ × List ℕ
  | 0, ready, _, orderedIds => (orderedIds, ready)
  | _ + 1, [], _, orderedIds => (orderedIds, [])
  | fuel + 1, sourceId :: ready, indegree, orderedIds =>
    let released := releaseTargets position ready indegree
      (sortByPosition position (dependents sourceId))
    mergeRounds position dependents fuel released.1 released.2 (orderedIds ++ [sourceId])

/-- The ids in merge order, the leftovers last; every round places one. -/
def orderedMergeIds (now : String) (items : List (MergeWorkItem V)) : List ℕ :=
  let ids := mergeIds items
  let edges := mergeEdges now items
  let position := originalIndex items
  let ready := sortByPosition position (ids.filter fun id => decide (edges.indegree id = 0))
  let orderedIds := (mergeRounds position edges.dependents ids.length ready edges.indegree []).1
  orderedIds ++ ids.filter fun id => decide (id ∉ orderedIds)

/-- `orderWorkItemsByMergeDependencies`: a work item that is not the first of its id comes last. -/
def orderWorkItemsByMergeDependencies (now : String) (items : List (MergeWorkItem V)) :
    List (MergeWorkItem V) :=
  if items.length < 2 then items
  else
    (orderedMergeIds now items).filterMap (fun id => Table.lookup (·.id) id items) ++
      (items.zipIdx.filter fun entry =>
        decide (originalIndex items entry.1.id ≠ entry.2)).map (·.1)

end Source

/-! ## 2. The edges -/

section Edges

variable {V : Type*} {ids : List ℕ} {edges : MergeEdges}

/-- **Counted edges**: no target twice, sources in the list, and every indegree a count. -/
structure CountedEdges (ids : List ℕ) (edges : MergeEdges) : Prop where
  nodup : ∀ s, (edges.dependents s).Nodup
  mem : ∀ s t, t ∈ edges.dependents s → s ∈ ids ∧ s ≠ t
  indegree : ∀ t, edges.indegree t =
    ((ids.toFinset.filter fun s => t ∈ edges.dependents s).card : ℤ)

theorem countedEdges_empty (ids : List ℕ) :
    CountedEdges ids { dependents := fun _ => [], indegree := fun _ => 0 } := by
  constructor
  · exact fun _ => List.nodup_nil
  · exact fun _ _ h => absurd h List.not_mem_nil
  · intro t
    simp

/-- What one dependency adds to the edges. -/
theorem mem_addMergeEdge {targetId : ℕ} {source : Option ℤ} {s t : ℕ} :
    t ∈ (addMergeEdge ids targetId edges source).dependents s ↔
      t ∈ edges.dependents s ∨
        (t = targetId ∧ source.map Int.toNat = some s ∧ s ∈ ids ∧ s ≠ targetId) := by
  unfold addMergeEdge
  split
  case h_1 hnone =>
    rw [hnone]
    simp
  case h_2 sourceId hsome =>
    rw [hsome]
    split
    case isTrue hskip =>
      constructor
      · exact Or.inl
      · rintro (h | ⟨-, hs, hin, hne⟩)
        · exact h
        · obtain rfl := Option.some.inj hs
          exact absurd hskip (not_or.mpr ⟨not_not_intro hin, hne⟩)
    case isFalse hkeep =>
      rw [not_or, not_not] at hkeep
      split
      case isTrue hold =>
        constructor
        · exact Or.inl
        · rintro (h | ⟨rfl, hs, -, -⟩)
          · exact h
          · obtain rfl := Option.some.inj hs
            exact hold
      case isFalse =>
        dsimp only
        by_cases hs : s = sourceId
        · subst hs
          rw [Function.update_self, List.mem_append, List.mem_singleton]
          exact or_congr_right ⟨fun h => ⟨h, rfl, hkeep⟩, And.left⟩
        · rw [Function.update_of_ne hs]
          constructor
          · exact Or.inl
          · rintro (h | ⟨-, heq, -⟩)
            · exact h
            · exact absurd (Option.some.inj heq).symm hs

theorem CountedEdges.add (h : CountedEdges ids edges) (targetId : ℕ) (source : Option ℤ) :
    CountedEdges ids (addMergeEdge ids targetId edges source) := by
  unfold addMergeEdge
  split
  case h_1 => exact h
  case h_2 sourceId hsome =>
    split
    case isTrue => exact h
    case isFalse hkeep =>
      rw [not_or, not_not] at hkeep
      split
      case isTrue => exact h
      case isFalse hnew =>
        constructor
        · intro s
          dsimp only
          by_cases hs : s = sourceId
          · subst hs
            rw [Function.update_self, List.nodup_append]
            refine ⟨h.nodup s, List.nodup_singleton _, ?_⟩
            rintro a ha b hb rfl
            exact hnew (List.mem_singleton.mp hb ▸ ha)
          · rw [Function.update_of_ne hs]
            exact h.nodup s
        · intro s t
          dsimp only
          by_cases hs : s = sourceId
          · subst hs
            rw [Function.update_self, List.mem_append, List.mem_singleton]
            rintro (ht | rfl)
            · exact h.mem s t ht
            · exact hkeep
          · rw [Function.update_of_ne hs]
            exact h.mem s t
        · intro t
          dsimp only
          by_cases ht : t = targetId
          · -- one source more
            subst ht
            have hinsert : (ids.toFinset.filter fun s => t ∈ Function.update edges.dependents
                sourceId (edges.dependents sourceId ++ [t]) s) =
                insert sourceId (ids.toFinset.filter fun s => t ∈ edges.dependents s) := by
              ext s
              rw [Finset.mem_insert, Finset.mem_filter, Finset.mem_filter]
              by_cases hs : s = sourceId
              · subst hs
                simp [hkeep.1]
              · rw [Function.update_of_ne hs]
                simp [hs]
            rw [Function.update_self, hinsert, Finset.card_insert_of_notMem, h.indegree t]
            · push_cast
              rfl
            · rw [Finset.mem_filter]
              exact fun hin => hnew hin.2
          · rw [Function.update_of_ne ht, h.indegree t]
            congr 2
            ext s
            rw [Finset.mem_filter, Finset.mem_filter]
            by_cases hs : s = sourceId
            · subst hs
              rw [Function.update_self, List.mem_append, List.mem_singleton]
              simp [ht]
            · rw [Function.update_of_ne hs]

/-- An in-list work item that `q` must merge after. -/
def InListSource (now : String) (items : List (MergeWorkItem V)) (p q : ℕ) : Prop :=
  p ≠ q ∧ ∃ item ∈ items, item.id = q ∧
    ∃ dep ∈ getWorkItemMergeDependencies now item, dep.source = some (p : ℤ)

theorem countedEdges_deps (targetId : ℕ) : ∀ (deps : List (MergeDependency V)) {edges : MergeEdges},
    CountedEdges ids edges → CountedEdges ids
      (deps.foldl (fun edges dep => addMergeEdge ids targetId edges dep.source) edges)
  | [], _, h => h
  | dep :: deps, _, h => countedEdges_deps targetId deps (h.add targetId dep.source)

theorem mem_deps (targetId : ℕ) {s t : ℕ} :
    ∀ (deps : List (MergeDependency V)) {edges : MergeEdges},
      t ∈ (deps.foldl (fun edges dep => addMergeEdge ids targetId edges dep.source)
        edges).dependents s ↔ t ∈ edges.dependents s ∨
          (t = targetId ∧ (∃ dep ∈ deps, dep.source.map Int.toNat = some s) ∧ s ∈ ids ∧
            s ≠ targetId)
  | [], _ => by simp
  | dep :: deps, edges => by
    rw [List.foldl_cons, mem_deps targetId deps, mem_addMergeEdge, List.exists_mem_cons_iff]
    tauto

theorem countedEdges_items (now : String) : ∀ (items : List (MergeWorkItem V)) {edges : MergeEdges},
    CountedEdges ids edges → CountedEdges ids
      (items.foldl (fun edges item => (getWorkItemMergeDependencies now item).foldl
        (fun edges dep => addMergeEdge ids item.id edges dep.source) edges) edges)
  | [], _, h => h
  | item :: items, _, h => countedEdges_items now items (countedEdges_deps item.id _ h)

theorem mem_items (now : String) {s t : ℕ} :
    ∀ (items : List (MergeWorkItem V)) {edges : MergeEdges},
      t ∈ (items.foldl (fun edges item => (getWorkItemMergeDependencies now item).foldl
        (fun edges dep => addMergeEdge ids item.id edges dep.source) edges) edges).dependents s ↔
        t ∈ edges.dependents s ∨ (s ∈ ids ∧ s ≠ t ∧ ∃ item ∈ items, item.id = t ∧
          ∃ dep ∈ getWorkItemMergeDependencies now item, dep.source.map Int.toNat = some s)
  | [], _ => by simp
  | item :: items, edges => by
    rw [List.foldl_cons, mem_items now items, mem_deps, List.exists_mem_cons_iff]
    constructor
    · rintro ((h | ⟨rfl, hdep, hin, hne⟩) | ⟨hin, hne, h⟩)
      · exact Or.inl h
      · exact Or.inr ⟨hin, hne, Or.inl ⟨rfl, hdep⟩⟩
      · exact Or.inr ⟨hin, hne, Or.inr h⟩
    · rintro (h | ⟨hin, hne, ⟨rfl, hdep⟩ | h⟩)
      · exact Or.inl (Or.inl h)
      · exact Or.inl (Or.inr ⟨rfl, hdep, hin, hne⟩)
      · exact Or.inr ⟨hin, hne, h⟩

theorem source_toNat {now : String} {item : MergeWorkItem V} {dep : MergeDependency V}
    (h : dep ∈ getWorkItemMergeDependencies now item) {s : ℕ} :
    dep.source.map Int.toNat = some s ↔ dep.source = some (s : ℤ) := by
  obtain ⟨stored, -, hnormal⟩ := List.mem_filterMap.mp h
  obtain ⟨hsame, n, hn, -⟩ := source_of_normalize hnormal
  rw [hsame, hn, Option.map_some, Int.toNat_natCast]
  constructor
  · exact fun heq => congrArg some (congrArg Nat.cast (Option.some.inj heq))
  · exact fun heq => congrArg some (Nat.cast_injective (Option.some.inj heq))

theorem countedEdges_mergeEdges (now : String) (items : List (MergeWorkItem V)) :
    CountedEdges (mergeIds items) (mergeEdges now items) :=
  countedEdges_items now items (countedEdges_empty _)

/-- The edges are those of the in-list dependencies. -/
theorem mem_mergeEdges {now : String} {items : List (MergeWorkItem V)} {s t : ℕ} :
    t ∈ (mergeEdges now items).dependents s ↔
      s ∈ mergeIds items ∧ InListSource now items s t := by
  rw [mergeEdges, mem_items]
  constructor
  · rintro (h | ⟨hin, hne, item, hitem, hid, dep, hdep, hs⟩)
    · exact absurd h List.not_mem_nil
    · exact ⟨hin, hne, item, hitem, hid, dep, hdep, (source_toNat hdep).mp hs⟩
  · rintro ⟨hin, hne, item, hitem, hid, dep, hdep, hs⟩
    exact Or.inr ⟨hin, hne, item, hitem, hid, dep, hdep, (source_toNat hdep).mpr hs⟩

end Edges

/-! ## 3. The rounds -/

section Rounds

variable {position : ℕ → ℕ} {ids : Finset ℕ} {before : ℕ → ℕ → Prop} {ready placed : List ℕ}
  {indegree : ℕ → ℤ}

theorem sortByPosition_perm (position : ℕ → ℕ) (l : List ℕ) : (sortByPosition position l).Perm l :=
  List.mergeSort_perm l _

theorem sortByPosition_sorted (position : ℕ → ℕ) (l : List ℕ) :
    (sortByPosition position l).Pairwise fun a b => position a ≤ position b :=
  KeySort.pairwise_mergeSort (fun _ _ => decide_eq_true_iff) l

/-- **What the targets of a round do**: each loses a source, and gets ready with its last one. -/
theorem releaseTargets_spec (position : ℕ → ℕ) : ∀ (targets ready : List ℕ) (indegree : ℕ → ℤ),
    targets.Nodup →
      (∀ t, (releaseTargets position ready indegree targets).2 t =
        if t ∈ targets then indegree t - 1 else indegree t) ∧
      (releaseTargets position ready indegree targets).1.Perm
        (ready ++ targets.filter fun t => decide (indegree t - 1 = 0)) ∧
      (ready.Pairwise (fun a b => position a ≤ position b) →
        (releaseTargets position ready indegree targets).1.Pairwise
          fun a b => position a ≤ position b)
  | [], ready, indegree, _ => by simp [releaseTargets]
  | target :: targets, ready, indegree, hnodup => by
    obtain ⟨hfresh, hrest⟩ := List.nodup_cons.mp hnodup
    have hsame : ∀ t ∈ targets, Function.update indegree target (indegree target - 1) t =
        indegree t := by
      intro t ht
      refine Function.update_of_ne ?_ _ _
      rintro rfl
      exact hfresh ht
    have hfilter : (targets.filter fun t => decide
        (Function.update indegree target (indegree target - 1) t - 1 = 0)) =
        targets.filter fun t => decide (indegree t - 1 = 0) :=
      List.filter_congr fun t ht => by rw [hsame t ht]
    have hstep : releaseTargets position ready indegree (target :: targets) =
        releaseTargets position (if indegree target - 1 = 0 then
          sortByPosition position (ready ++ [target]) else ready)
          (Function.update indegree target (indegree target - 1)) targets := by
      rw [releaseTargets, List.foldl_cons, releaseTargets]
      dsimp only
      split_ifs <;> rfl
    obtain ⟨hdegree, hperm, hsorted⟩ := releaseTargets_spec position targets
      (if indegree target - 1 = 0 then sortByPosition position (ready ++ [target]) else ready)
      (Function.update indegree target (indegree target - 1)) hrest
    rw [hstep]
    refine ⟨fun t => ?_, ?_, fun h => hsorted ?_⟩
    · rw [hdegree t]
      by_cases ht : t = target
      · subst ht
        rw [if_neg hfresh, if_pos List.mem_cons_self, Function.update_self]
      · rw [Function.update_of_ne ht]
        simp [ht]
    · refine hperm.trans ?_
      rw [hfilter, List.filter_cons]
      split_ifs with hzero hdecide hdecide
      · have hhead := (sortByPosition_perm position (ready ++ [target])).append_right
          (targets.filter fun t => decide (indegree t - 1 = 0))
        rwa [List.append_assoc] at hhead
      · exact absurd (decide_eq_true hzero) hdecide
      · exact absurd (of_decide_eq_true hdecide) hzero
      · exact List.Perm.refl _
    · split_ifs
      · exact sortByPosition_sorted position _
      · exact h

/-- The sources of a work item that are not placed. -/
def openSources (before : ℕ → ℕ → Prop) [DecidableRel before] (ids : Finset ℕ) (placed : List ℕ)
    (t : ℕ) : Finset ℕ :=
  ids.filter fun s => before s t ∧ s ∉ placed

/-- **The rounds**: `ready` has the open work items, sorted, and an indegree counts the sources that
are not placed. -/
structure Rounds (position : ℕ → ℕ) (ids : Finset ℕ) (before : ℕ → ℕ → Prop)
    [DecidableRel before] (ready : List ℕ) (indegree : ℕ → ℤ) (placed : List ℕ) : Prop where
  grown : Grown position ids [before] ∅ placed
  sorted : ready.Pairwise fun a b => position a ≤ position b
  nodup : ready.Nodup
  mem_ready : ∀ t, t ∈ ready ↔ Open ids before placed.toFinset t
  indegree : ∀ t ∈ ids, t ∉ placed → indegree t = ((openSources before ids placed t).card : ℤ)

variable [DecidableRel before]

theorem open_iff_openSources {t : ℕ} :
    Open ids before placed.toFinset t ↔ t ∈ ids ∧ t ∉ placed ∧ openSources before ids placed t = ∅ := by
  rw [openSources, Finset.filter_eq_empty_iff]
  constructor
  · intro h
    refine ⟨h.mem, by simpa using h.unplaced, fun s hs hst => hst.2 ?_⟩
    exact List.mem_toFinset.mp (h.placed_before s hs hst.1)
  · rintro ⟨hmem, hnot, hnone⟩
    refine ⟨hmem, by simpa using hnot, fun s hs hst => ?_⟩
    by_contra hplaced
    exact hnone hs ⟨hst, fun hin => hplaced (List.mem_toFinset.mpr hin)⟩

/-- The sources of a work item after one more is placed. -/
theorem openSources_append {s t : ℕ} :
    openSources before ids (placed ++ [s]) t = (openSources before ids placed t).erase s := by
  ext a
  simp only [openSources, Finset.mem_filter, Finset.mem_erase, List.mem_append,
    List.mem_singleton]
  tauto

/-- **A round keeps the rounds.** -/
theorem Rounds.step {s : ℕ} (hirrefl : ∀ t, ¬ before t t)
    (h : Rounds position ids before (s :: ready) indegree placed) {targets : List ℕ}
    (hnodup : targets.Nodup) (hmem : ∀ t, t ∈ targets ↔ t ∈ ids ∧ before s t) :
    Rounds position ids before (releaseTargets position ready indegree targets).1
      (releaseTargets position ready indegree targets).2 (placed ++ [s]) := by
  obtain ⟨hdegree, hperm, hsorted⟩ := releaseTargets_spec position targets ready indegree hnodup
  have hs : Open ids before placed.toFinset s := (h.mem_ready s).mp List.mem_cons_self
  have hsplaced : s ∉ placed := by simpa using hs.unplaced
  obtain ⟨hle, hrest⟩ := List.pairwise_cons.mp h.sorted
  obtain ⟨hfresh, hready⟩ := List.nodup_cons.mp h.nodup
  -- a target waits for `s`, so it is not placed
  have htarget : ∀ t ∈ targets, t ∈ ids ∧ t ∉ placed ∧ s ∈ openSources before ids placed t := by
    intro t ht
    obtain ⟨hin, hst⟩ := (hmem t).mp ht
    refine ⟨hin, fun htplaced => ?_, Finset.mem_filter.mpr ⟨hs.mem, hst, hsplaced⟩⟩
    exact hsplaced (h.grown.idxOf_lt htplaced ⟨hs.mem, hin, hst⟩).1
  have hcount : ∀ t ∈ ids, t ∉ placed ++ [s] →
      (releaseTargets position ready indegree targets).2 t =
        ((openSources before ids (placed ++ [s]) t).card : ℤ) := by
    intro t hin hnot
    have hold : t ∉ placed := fun ht => hnot (List.mem_append_left _ ht)
    rw [hdegree t, openSources_append, h.indegree t hin hold]
    split_ifs with ht
    · have hpos := Finset.card_pos.mpr ⟨s, (htarget t ht).2.2⟩
      rw [Finset.card_erase_of_mem (htarget t ht).2.2]
      omega
    · rw [Finset.erase_eq_of_notMem]
      intro hin'
      exact ht ((hmem t).mpr ⟨hin, (Finset.mem_filter.mp hin').2.1⟩)
  have hmemNew : ∀ t, t ∈ (releaseTargets position ready indegree targets).1 ↔
      t ∈ ready ∨ (t ∈ targets ∧ indegree t - 1 = 0) := by
    intro t
    rw [hperm.mem_iff, List.mem_append, List.mem_filter, decide_eq_true_eq]
  constructor
  · refine h.grown.snoc ?_
    rw [Finset.empty_union]
    refine Or.inl ⟨hs, fun t ht => ?_⟩
    rcases List.mem_cons.mp ((h.mem_ready t).mpr ht) with rfl | hin
    · exact le_rfl
    · exact hle t hin
  · exact hsorted hrest
  · refine (hperm.nodup_iff).mpr (List.nodup_append.mpr ⟨hready, hnodup.filter _, ?_⟩)
    rintro a ha b hb rfl
    -- a ready work item waits for nothing
    have hopen := open_iff_openSources.mp ((h.mem_ready a).mp (List.mem_cons_of_mem s ha))
    have hwaits := (htarget a (List.mem_of_mem_filter hb)).2.2
    rw [hopen.2.2] at hwaits
    exact Finset.notMem_empty s hwaits
  · intro t
    rw [hmemNew t, open_iff_openSources, openSources_append]
    constructor
    · rintro (hin | ⟨hin, hzero⟩)
      · obtain ⟨htids, htplaced, hnone⟩ :=
          open_iff_openSources.mp ((h.mem_ready t).mp (List.mem_cons_of_mem s hin))
        refine ⟨htids, ?_, by rw [hnone]; rfl⟩
        rw [List.mem_append, List.mem_singleton]
        rintro (hold | rfl)
        · exact htplaced hold
        · exact hfresh hin
      · obtain ⟨htids, htplaced, hwaits⟩ := htarget t hin
        refine ⟨htids, ?_, ?_⟩
        · rw [List.mem_append, List.mem_singleton]
          rintro (hold | rfl)
          · exact htplaced hold
          · exact hirrefl t ((hmem t).mp hin).2
        · rw [h.indegree t htids htplaced] at hzero
          have hcard := Finset.card_erase_of_mem hwaits
          exact Finset.card_eq_zero.mp (by omega)
    · rintro ⟨htids, htplaced, hnone⟩
      have hold : t ∉ placed := fun hin => htplaced (List.mem_append_left _ hin)
      by_cases hwaits : s ∈ openSources before ids placed t
      · refine Or.inr ⟨(hmem t).mpr ⟨htids, (Finset.mem_filter.mp hwaits).2.1⟩, ?_⟩
        have hcard := Finset.card_erase_of_mem hwaits
        have hpos := Finset.card_pos.mpr ⟨s, hwaits⟩
        rw [hnone, Finset.card_empty] at hcard
        rw [h.indegree t htids hold]
        omega
      · rw [Finset.erase_eq_of_notMem hwaits] at hnone
        have hin := (h.mem_ready t).mpr (open_iff_openSources.mpr ⟨htids, hold, hnone⟩)
        refine Or.inl ((List.mem_cons.mp hin).resolve_left ?_)
        rintro rfl
        exact htplaced (List.mem_append_right _ (List.mem_singleton_self t))
  · exact hcount

/-- **The loop ends with nothing ready.** -/
theorem Rounds.run (hirrefl : ∀ t, ¬ before t t) {dependents : ℕ → List ℕ}
    (hnodup : ∀ s, (dependents s).Nodup)
    (hmem : ∀ s ∈ ids, ∀ t, t ∈ dependents s ↔ t ∈ ids ∧ before s t) :
    ∀ (fuel : ℕ) {ready placed : List ℕ} {indegree : ℕ → ℤ},
      Rounds position ids before ready indegree placed → ids.card ≤ placed.length + fuel →
        Grown position ids [before] ∅
          (mergeRounds position dependents fuel ready indegree placed).1 ∧
        ∀ t, ¬ Open ids before
          (mergeRounds position dependents fuel ready indegree placed).1.toFinset t
  | 0, ready, placed, indegree, h, hfuel => by
    refine ⟨h.grown, fun t ht => ?_⟩
    obtain ⟨hplaced, hin⟩ := h.grown.mem_nodup
    have hsub : placed.toFinset ⊆ ids := fun y hy => (hin y (List.mem_toFinset.mp hy)).1
    have hcard : ids.card ≤ placed.toFinset.card := by
      rw [List.toFinset_card_of_nodup hplaced]
      exact hfuel
    exact ht.unplaced ((Finset.eq_of_subset_of_card_le hsub hcard).symm ▸ ht.mem)
  | _ + 1, [], placed, indegree, h, _ => by
    refine ⟨h.grown, fun t ht => ?_⟩
    exact absurd ((h.mem_ready t).mpr ht) List.not_mem_nil
  | fuel + 1, s :: ready, placed, indegree, h, hfuel => by
    have hs : s ∈ ids := ((h.mem_ready s).mp List.mem_cons_self).mem
    refine Rounds.run hirrefl hnodup hmem fuel (h.step hirrefl ?_ fun t => ?_) ?_
    · exact (sortByPosition_perm position _).nodup_iff.mpr (hnodup s)
    · rw [(sortByPosition_perm position _).mem_iff]
      exact hmem s hs t
    · rw [List.length_append, List.length_singleton]
      omega

end Rounds

/-! ## 4. The merge order -/

section Order

variable {V : Type*} {now : String} {items : List (MergeWorkItem V)}

instance (now : String) (items : List (MergeWorkItem V)) : DecidableRel (InListSource now items) :=
  fun p q => inferInstanceAs (Decidable (p ≠ q ∧ ∃ item ∈ items, item.id = q ∧
    ∃ dep ∈ getWorkItemMergeDependencies now item, dep.source = some (p : ℤ)))

/-- The ids of the work items, as a set. -/
def mergeIdSet (items : List (MergeWorkItem V)) : Finset ℕ := (items.map (·.id)).toFinset

theorem mem_mergeIdSet {id : ℕ} : id ∈ mergeIdSet items ↔ id ∈ items.map (·.id) :=
  List.mem_toFinset

/-- A work item on a dependency cycle, or behind one. -/
def BehindMergeCycle (now : String) (items : List (MergeWorkItem V)) (id : ℕ) : Prop :=
  BehindCycle (mergeIdSet items) (InListSource now items) id

theorem eraseDups_of_nodup : ∀ {l : List ℕ}, l.Nodup → l.eraseDups = l
  | [], _ => rfl
  | a :: l, h => by
    obtain ⟨ha, hl⟩ := List.nodup_cons.mp h
    have hfilter : l.filter (fun b => !b == a) = l := by
      rw [List.filter_eq_self]
      intro b hb
      rw [Bool.not_eq_true', beq_eq_false_iff_ne]
      rintro rfl
      exact ha hb
    rw [List.eraseDups_cons, hfilter, eraseDups_of_nodup hl]

/-- The ids that Kahn's algorithm places, before the leftovers. -/
def placedMergeIds (now : String) (items : List (MergeWorkItem V)) : List ℕ :=
  let ids := mergeIds items
  let edges := mergeEdges now items
  (mergeRounds (originalIndex items) edges.dependents ids.length
    (sortByPosition (originalIndex items) (ids.filter fun id => decide (edges.indegree id = 0)))
    edges.indegree []).1

variable (hids : (items.map (·.id)).Nodup)
include hids

theorem orderedMergeIds_eq : orderedMergeIds now items = placedMergeIds now items ++
    (items.map (·.id)).filter fun id => decide (id ∉ placedMergeIds now items) := by
  have hmerge : mergeIds items = items.map (·.id) := eraseDups_of_nodup hids
  unfold orderedMergeIds placedMergeIds
  dsimp only
  rw [hmerge]

/-- **The algorithm grows the least order of the dependencies**, until nothing is open. -/
theorem grown_placedMergeIds (now : String) :
    Grown (originalIndex items) (mergeIdSet items) [InListSource now items] ∅
      (placedMergeIds now items) ∧
    ∀ t, ¬ Open (mergeIdSet items) (InListSource now items)
      (placedMergeIds now items).toFinset t := by
  have hmerge : mergeIds items = items.map (·.id) := eraseDups_of_nodup hids
  have hcounted : CountedEdges (mergeIds items) (mergeEdges now items) :=
    countedEdges_mergeEdges now items
  have hset : mergeIdSet items = (mergeIds items).toFinset := by rw [mergeIdSet, hmerge]
  have htarget : ∀ s ∈ mergeIdSet items, ∀ t, t ∈ (mergeEdges now items).dependents s ↔
      t ∈ mergeIdSet items ∧ InListSource now items s t := by
    intro s hs t
    rw [mem_mergeEdges]
    constructor
    · rintro ⟨-, hst⟩
      obtain ⟨item, hitem, hid, -⟩ := hst.2
      exact ⟨mem_mergeIdSet.mpr (List.mem_map.mpr ⟨item, hitem, hid⟩), hst⟩
    · rintro ⟨-, hst⟩
      rw [hmerge]
      exact ⟨mem_mergeIdSet.mp hs, hst⟩
  have hdegree : ∀ t, (mergeEdges now items).indegree t =
      ((openSources (InListSource now items) (mergeIdSet items) [] t).card : ℤ) := by
    intro t
    rw [hcounted.indegree t, hset, openSources]
    congr 2
    refine Finset.filter_congr fun s hs => ?_
    rw [mem_mergeEdges, and_iff_right (List.mem_toFinset.mp hs)]
    exact (and_iff_left List.not_mem_nil).symm
  unfold placedMergeIds
  refine Rounds.run (fun t h => h.1 rfl) hcounted.nodup htarget _ ?_ ?_
  · constructor
    · trivial
    · exact sortByPosition_sorted _ _
    · refine (sortByPosition_perm _ _).nodup_iff.mpr (List.Nodup.filter _ ?_)
      rwa [hmerge]
    · intro t
      rw [(sortByPosition_perm _ _).mem_iff, List.mem_filter, decide_eq_true_eq,
        open_iff_openSources, hdegree t, hset, List.mem_toFinset]
      simp
    · exact fun t _ _ => hdegree t
  · rw [List.length_nil, Nat.zero_add, hset]
    exact List.toFinset_card_le _

/-- Placed is what is not behind a cycle. -/
theorem mem_placedMergeIds {id : ℕ} : id ∈ placedMergeIds now items ↔
    id ∈ mergeIdSet items ∧ ¬ BehindMergeCycle now items id := by
  obtain ⟨hgrown, hdone⟩ := grown_placedMergeIds hids now
  constructor
  · exact fun hid => ⟨(hgrown.mem_nodup.2 id hid).1, hgrown.not_behindCycle hid⟩
  · rintro ⟨hid, hcycle⟩
    by_contra hnot
    exact hcycle (behindCycle_of_not_open hdone hid fun hin => hnot (List.mem_toFinset.mp hin))

theorem orderedMergeIds_perm (now : String) :
    (orderedMergeIds now items).Perm (items.map (·.id)) := by
  have hgrown := (grown_placedMergeIds hids now).1
  have hmem := hgrown.mem_nodup
  rw [orderedMergeIds_eq hids]
  refine (List.perm_ext_iff_of_nodup ?_ hids).mpr fun id => ?_
  · refine List.nodup_append.mpr ⟨hmem.1, hids.filter _, ?_⟩
    rintro a ha b hb rfl
    exact of_decide_eq_true (List.mem_filter.mp hb).2 ha
  · rw [List.mem_append, List.mem_filter, decide_eq_true_eq]
    constructor
    · rintro (hid | ⟨hid, -⟩)
      · exact mem_mergeIdSet.mp (hmem.2 id hid).1
      · exact hid
    · intro hid
      by_cases hplaced : id ∈ placedMergeIds now items
      · exact Or.inl hplaced
      · exact Or.inr ⟨hid, hplaced⟩

/-- The work items by their ids. -/
theorem filterMap_lookup {ids : List ℕ} (hperm : ids.Perm (items.map (·.id))) :
    (ids.filterMap fun id => Table.lookup (·.id) id items).Perm items ∧
      (ids.filterMap fun id => Table.lookup (·.id) id items).map (·.id) = ids := by
  constructor
  · refine (hperm.filterMap _).trans ?_
    rw [List.filterMap_map]
    have hsome : ∀ l : List (MergeWorkItem V), (∀ item ∈ l, item ∈ items) →
        l.filterMap ((fun id => Table.lookup (·.id) id items) ∘ (·.id)) = l := by
      intro l hl
      induction l with
      | nil => rfl
      | cons item l ih =>
        have hfound := Table.lookup_of_mem hids (hl item List.mem_cons_self)
        rw [List.filterMap_cons, Function.comp_apply, hfound]
        dsimp only
        rw [ih fun other hother => hl other (List.mem_cons_of_mem item hother)]
    rw [hsome items fun _ hitem => hitem]
  · have hmem : ∀ id ∈ ids, id ∈ items.map (·.id) := fun id hid => hperm.mem_iff.mp hid
    clear hperm
    induction ids with
    | nil => rfl
    | cons id ids ih =>
      obtain ⟨item, hitem, rfl⟩ := List.mem_map.mp (hmem id List.mem_cons_self)
      have hfound := Table.lookup_of_mem hids hitem
      rw [List.filterMap_cons, hfound]
      dsimp only
      rw [List.map_cons, ih fun other hother => hmem other (List.mem_cons_of_mem _ hother)]

/-- A list without repeats is its own first occurrences. -/
theorem orderWorkItems_eq : orderWorkItemsByMergeDependencies now items =
    (orderedMergeIds now items).filterMap fun id => Table.lookup (·.id) id items := by
  have hperm := (filterMap_lookup hids (orderedMergeIds_perm hids now)).1
  unfold orderWorkItemsByMergeDependencies
  split
  case isTrue hfew =>
    -- a list with one work item at most
    generalize (orderedMergeIds now items).filterMap
      (fun id => Table.lookup (·.id) id items) = result at hperm ⊢
    rcases items with _ | ⟨item, _ | ⟨other, items⟩⟩
    · exact hperm.eq_nil.symm
    · exact (List.perm_singleton.mp hperm).symm
    · simp at hfew
  case isFalse =>
    have hnone : items.zipIdx.filter (fun entry =>
        decide (originalIndex items entry.1.id ≠ entry.2)) = [] := by
      rw [List.filter_eq_nil_iff]
      rintro ⟨item, i⟩ hentry
      have hget := List.mem_zipIdx_iff_getElem?.mp hentry
      obtain ⟨hi, hitem⟩ := List.getElem?_eq_some_iff.mp hget
      rw [decide_eq_true_eq, not_not, originalIndex]
      have hlength : i < (items.map (·.id)).length := by simpa using hi
      have hidx := hids.idxOf_getElem i hlength
      rwa [List.getElem_map, hitem] at hidx
    rw [hnone, List.map_nil, List.append_nil]

theorem map_id_orderWorkItems :
    (orderWorkItemsByMergeDependencies now items).map (·.id) = orderedMergeIds now items := by
  rw [orderWorkItems_eq hids]
  exact (filterMap_lookup hids (orderedMergeIds_perm hids now)).2

omit hids in
/-- An order in which the sources come first, of all that is not behind a cycle. -/
def KeepsDependencies (now : String) (items : List (MergeWorkItem V)) (order : List ℕ) : Prop :=
  ∀ p ∈ mergeIdSet items, ∀ q ∈ mergeIdSet items, InListSource now items p q →
    ¬ BehindMergeCycle now items q → [p, q].Sublist order

omit hids in
/-- An order with what is behind a cycle at the end. -/
def LeftoversLast (now : String) (items : List (MergeWorkItem V)) (order : List ℕ) : Prop :=
  ∀ p ∈ mergeIdSet items, ∀ q ∈ mergeIdSet items, ¬ BehindMergeCycle now items p →
    BehindMergeCycle now items q → [p, q].Sublist order

theorem keeps_orderedMergeIds : KeepsDependencies now items (orderedMergeIds now items) := by
  intro p hp q hq hpq hcycle
  rw [orderedMergeIds_eq hids]
  have hplaced := (mem_placedMergeIds hids).mpr ⟨hq, hcycle⟩
  have hsub := (grown_placedMergeIds hids now).1.precedes hplaced ⟨hp, hq, hpq⟩
  exact hsub.trans (List.sublist_append_left _ _)

/-- The part of an order that is not behind a cycle. -/
theorem placed_perm_filter {order : List ℕ} (hperm : order.Perm (items.map (·.id))) :
    (order.filter fun id => decide (id ∈ placedMergeIds now items)).Perm
      (placedMergeIds now items) := by
  have hgrown := (grown_placedMergeIds hids now).1.mem_nodup
  refine (List.perm_ext_iff_of_nodup ((hperm.nodup_iff.mpr hids).filter _) hgrown.1).mpr
    fun id => ?_
  rw [List.mem_filter, decide_eq_true_eq, and_iff_right_iff_imp]
  exact fun hid => hperm.mem_iff.mpr (mem_mergeIdSet.mp (hgrown.2 id hid).1)

/-- **No order that keeps the dependencies is before the placed part.** -/
theorem placed_le {order : List ℕ} (hperm : order.Perm (items.map (·.id)))
    (hkeeps : KeepsDependencies now items order) :
    (placedMergeIds now items).map (originalIndex items) ≤
      (order.filter fun id => decide (id ∈ placedMergeIds now items)).map
        (originalIndex items) := by
  have hgrown := (grown_placedMergeIds hids now).1
  have hkey : Set.InjOn (originalIndex items) (mergeIdSet items) := by
    intro p hp q hq heq
    exact (List.idxOf_inj (mem_mergeIdSet.mp hp)).mp heq
  refine hgrown.lex_le hkey (keeps_of_sublist ((hperm.nodup_iff.mpr hids).filter _) ?_)
    (placed_perm_filter hids hperm)
  intro q hq p hp hpq
  have hplaced : q ∈ placedMergeIds now items := of_decide_eq_true (List.mem_filter.mp hq).2
  obtain ⟨hqV, hcycle⟩ := (mem_placedMergeIds hids).mp hplaced
  have hsource : p ∈ placedMergeIds now items :=
    (hgrown.precedes hplaced ⟨hp, hqV, hpq⟩).subset (by simp)
  have hsub := (hkeeps p hp q hqV hpq hcycle).filter fun id =>
    decide (id ∈ placedMergeIds now items)
  have hpair : [p, q].filter (fun id => decide (id ∈ placedMergeIds now items)) = [p, q] := by
    simp [hsource, hplaced]
  rw [hpair] at hsub
  exact Or.inr hsub

/-- Positions increase along the list. -/
theorem originalIndex_lt {p q : ℕ} (h : [p, q].Sublist (items.map (·.id))) :
    originalIndex items p < originalIndex items q :=
  idxOf_lt_of_sublist hids h

/-- The leftovers come last, in their original order. -/
theorem leftovers_orderedMergeIds (now : String) : ∃ leftovers : List ℕ,
    orderedMergeIds now items = placedMergeIds now items ++ leftovers ∧
      leftovers.Sublist (items.map (·.id)) ∧
      ∀ id, id ∈ leftovers ↔ id ∈ mergeIdSet items ∧ BehindMergeCycle now items id := by
  refine ⟨_, orderedMergeIds_eq hids, List.filter_sublist, fun id => ?_⟩
  rw [List.mem_filter, decide_eq_true_eq, mem_placedMergeIds hids, mem_mergeIdSet]
  tauto

/-- **The merge order is the least** of those that keep the dependencies and have the leftovers
last. -/
theorem orderedMergeIds_le {order : List ℕ} (hperm : order.Perm (items.map (·.id)))
    (hkeeps : KeepsDependencies now items order) (hlast : LeftoversLast now items order) :
    (orderedMergeIds now items).map (originalIndex items) ≤
      order.map (originalIndex items) := by
  have hnodup := hperm.nodup_iff.mpr hids
  have hmem : ∀ {id}, id ∈ order → id ∈ mergeIdSet items := fun hid =>
    mem_mergeIdSet.mpr (hperm.mem_iff.mp hid)
  have hsplit : order = order.filter (fun id => decide (id ∈ placedMergeIds now items)) ++
      order.filter fun id => !decide (id ∈ placedMergeIds now items) := by
    refine eq_filter_append hnodup fun p hp q hq hplaced hleft => ?_
    have hcycle : ¬ BehindMergeCycle now items p :=
      ((mem_placedMergeIds hids).mp (of_decide_eq_true hplaced)).2
    refine hlast p (hmem hp) q (hmem hq) hcycle ?_
    by_contra hq'
    exact of_decide_eq_false hleft ((mem_placedMergeIds hids).mpr ⟨hmem hq, hq'⟩)
  have hleft : (order.filter fun id => !decide (id ∈ placedMergeIds now items)).Perm
      ((items.map (·.id)).filter fun id => decide (id ∉ placedMergeIds now items)) := by
    have hsame : (fun id => !decide (id ∈ placedMergeIds now items)) =
        fun id => decide (id ∉ placedMergeIds now items) := by
      funext id
      exact (decide_not).symm
    rw [hsame]
    exact hperm.filter _
  rw [hsplit, orderedMergeIds_eq hids, List.map_append, List.map_append]
  refine append_le_append ?_ (placed_le hids hperm hkeeps) (map_le_of_sorted ?_ ?_ ?_ hleft)
  · rw [List.length_map, List.length_map]
    exact (placed_perm_filter hids hperm).length_eq.symm
  · refine List.Pairwise.filter _ (List.pairwise_iff_forall_sublist.mpr fun hsub => ?_)
    exact (originalIndex_lt hids hsub).le
  · exact hids.filter _
  · intro p hp q hq heq
    exact (List.idxOf_inj (List.mem_of_mem_filter hp)).mp heq

/-- Work items without in-list dependencies keep their order. -/
theorem loose_orderedMergeIds {p q : ℕ} (hsub : [p, q].Sublist (items.map (·.id)))
    (hp : ∀ s, ¬ InListSource now items s p) (hq : ∀ s, ¬ InListSource now items s q) :
    [p, q].Sublist (orderedMergeIds now items) := by
  have hloose : ∀ {t}, t ∈ mergeIdSet items → (∀ s, ¬ InListSource now items s t) →
      t ∈ placedMergeIds now items := by
    intro t ht hnone
    refine (mem_placedMergeIds hids).mpr ⟨ht, ?_⟩
    rintro ⟨y, hcycle, hyt⟩
    have hno : ∀ s, ¬ Among (mergeIdSet items) (InListSource now items) s t := fun s hs =>
      hnone s hs.2.2
    rcases ReflTransGen.cases_tail hyt with rfl | ⟨s, -, hs⟩
    · obtain ⟨s, -, hs⟩ := TransGen.tail'_iff.mp hcycle
      exact hno s hs
    · exact hno s hs
  have hgrown := (grown_placedMergeIds hids now).1
  have hpV : p ∈ mergeIdSet items := mem_mergeIdSet.mpr (hsub.subset (by simp))
  have hqV : q ∈ mergeIdSet items := mem_mergeIdSet.mpr (hsub.subset (by simp))
  have hlt := originalIndex_lt hids hsub
  have hpA := hloose hpV hp
  rw [orderedMergeIds_eq hids]
  refine List.Sublist.trans ?_ (List.sublist_append_left _ _)
  obtain ⟨l₁, l₂, hsplit⟩ := List.append_of_mem (hloose hqV hq)
  rw [hsplit] at hgrown hpA ⊢
  have hplaced : p ∈ l₁ := by
    by_contra hnot
    -- `p` is open where `q` is picked
    have hopen : Open (mergeIdSet items) (InListSource now items) (∅ ∪ l₁.toFinset) p := by
      refine ⟨hpV, ?_, fun s _ hs => absurd hs (hp s)⟩
      rwa [Finset.empty_union, List.mem_toFinset]
    rcases hgrown.picks with hleast | ⟨-, hnever⟩
    · exact absurd (hleast.2 p hopen) (not_le.mpr hlt)
    · exact hnever.elim
  exact (List.singleton_sublist.mpr hplaced).append ((List.nil_sublist l₂).cons_cons q)

omit hids in
/-- **`orderWorkItemsByMergeDependencies` is a stable topological sort.**  The result is a
permutation in which the sources of what is not behind a cycle come first; it is the least such order
by the original positions with the leftovers last, and also its part without the leftovers is the
least; the leftovers keep their order, and so do the work items without in-list dependencies. -/
theorem orderWorkItems_stable (now : String) (items : List (MergeWorkItem V))
    (hids : (items.map (·.id)).Nodup) :
    (orderWorkItemsByMergeDependencies now items).Perm items ∧
    KeepsDependencies now items ((orderWorkItemsByMergeDependencies now items).map (·.id)) ∧
    (∀ order : List ℕ, order.Perm (items.map (·.id)) → KeepsDependencies now items order →
      LeftoversLast now items order →
      ((orderWorkItemsByMergeDependencies now items).map (·.id)).map (originalIndex items) ≤
        order.map (originalIndex items)) ∧
    (∃ placed leftovers : List ℕ,
      (orderWorkItemsByMergeDependencies now items).map (·.id) = placed ++ leftovers ∧
      leftovers.Sublist (items.map (·.id)) ∧
      (∀ id, id ∈ leftovers ↔ id ∈ mergeIdSet items ∧ BehindMergeCycle now items id) ∧
      ∀ order : List ℕ, order.Perm (items.map (·.id)) → KeepsDependencies now items order →
        placed.map (originalIndex items) ≤
          (order.filter fun id => decide (id ∈ placed)).map (originalIndex items)) ∧
    ∀ p q, [p, q].Sublist (items.map (·.id)) → (∀ s, ¬ InListSource now items s p) →
      (∀ s, ¬ InListSource now items s q) →
      [p, q].Sublist ((orderWorkItemsByMergeDependencies now items).map (·.id)) := by
  rw [map_id_orderWorkItems hids]
  refine ⟨?_, keeps_orderedMergeIds hids, ?_, ?_, ?_⟩
  · rw [orderWorkItems_eq hids]
    exact (filterMap_lookup hids (orderedMergeIds_perm hids now)).1
  · exact fun order hperm hkeeps hlast => orderedMergeIds_le hids hperm hkeeps hlast
  · obtain ⟨leftovers, heq, hsub, hmem⟩ := leftovers_orderedMergeIds hids now
    refine ⟨_, leftovers, heq, hsub, hmem, fun order hperm hkeeps => ?_⟩
    exact placed_le hids hperm hkeeps
  · exact fun p q hsub hp hq => loose_orderedMergeIds hids hsub hp hq

end Order

/-- Work item 1 must merge after 2, which comes later in the list. -/
def laterSourceItems : List (MergeWorkItem Unit) :=
  [{ id := 1, status := .running, metadata := { mergeDependencies := some [{ source := some 2 }] } },
   { id := 3, status := .running }, { id := 2, status := .running }]

theorem orderWorkItems_stable_later : KeepsDependencies "" laterSourceItems
    ((orderWorkItemsByMergeDependencies "" laterSourceItems).map (·.id)) :=
  (orderWorkItems_stable "" laterSourceItems (by decide)).2.1

end PosseClient
