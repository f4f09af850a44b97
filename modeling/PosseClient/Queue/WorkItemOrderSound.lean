/-
# What the order of work items keeps

The order is topological where the constraints have no cycle, and depends on the first entry of each
id alone.  The rule-3 key breaks cycles, but not only cycles: an entry behind one goes before the
holder it waits for where its own key is the least.

* `buildWorkItemOrder_sound`: a permutation with its ranks, sound for both kinds of constraints.
* `CyclesGoFirst`: no entry behind a cycle has a smaller key than all that may go by breaking one.
* `holders_first_iff`: exactly then a holder comes first, unless it shares a cycle with the other.
-/
import PosseClient.Queue.WorkItemOrder

namespace PosseClient

open GreedyOrder Reachability Relation

/-! ## 1. Evaluation -/

section Evaluation

variable {T : Type*} [LinearOrder T] {byId : List (OrderEntry ℕ T)} {placed : List ℕ}

/-- The entry of a pool that no other one comes before. -/
theorem nextInOrder_eq (entry : OrderEntry ℕ T) (hmem : entry ∈ orderPool byId placed)
    (hleast : ∀ e ∈ orderPool byId placed, (compareOrderKey entry e).isLE = true) :
    nextInOrder byId placed = some entry.id := by
  have hpair := KeySort.pairwise_mergeSort (fun _ _ => compareOrderKey_isLE)
    (orderPool byId placed)
  have hperm := List.mergeSort_perm (orderPool byId placed) fun l r => (compareOrderKey l r).isLE
  rw [nextInOrder]
  generalize (orderPool byId placed).mergeSort (fun l r => (compareOrderKey l r).isLE) = sorted
    at hpair hperm ⊢
  cases sorted with
  | nil =>
    rw [hperm.symm.eq_nil] at hmem
    exact absurd hmem List.not_mem_nil
  | cons e rest =>
    have hle : orderKey entry ≤ orderKey e :=
      compareOrderKey_isLE.mp (hleast e (hperm.mem_iff.mp List.mem_cons_self))
    have hge : orderKey e ≤ orderKey entry := by
      rcases List.mem_cons.mp (hperm.mem_iff.mpr hmem) with rfl | hrest
      · exact le_rfl
      · exact (List.pairwise_cons.mp hpair).1 entry hrest
    have hid := congrArg (fun key => (ofLex (ofLex key).2).2) (le_antisymm hge hle)
    exact congrArg some hid

theorem placeInOrder_succ {fuel x : ℕ} (h : nextInOrder byId placed = some x) :
    placeInOrder byId (fuel + 1) placed = placeInOrder byId fuel (placed ++ [x]) := by
  rw [placeInOrder, h]

end Evaluation

/-! ## 2. Soundness -/

section Sound

variable {T : Type*} [LinearOrder T] {entries entries' : List (OrderEntry (Option ℤ) T)}

omit [LinearOrder T] in
/-- The ids are those of the entries with a valid one. -/
theorem mem_entryIds_entriesById {id : ℕ} :
    id ∈ entryIds (entriesById entries) ↔
      id ∈ entries.filterMap fun entry => workItemId entry.id := by
  have hsome : id ∈ entryIds (entriesById entries) ↔
      (Table.lookup (·.id) id (entriesById entries)).isSome = true := by
    rw [mem_entryIds, ← not_iff_not, Bool.not_eq_true, Option.isSome_eq_false_iff,
      Option.isNone_iff_eq_none, Table.lookup_eq_none_iff]
    push Not
    exact Iff.rfl
  rw [hsome, lookup_entriesById, Option.isSome_map, firstEntry, List.find?_isSome,
    List.mem_filterMap]
  exact exists_congr fun entry => and_congr_right fun _ => by rw [decide_eq_true_eq]

theorem ordered_perm : (buildWorkItemOrder entries).ordered.Perm
    (entries.filterMap fun entry => workItemId entry.id).dedup := by
  refine (List.perm_ext_iff_of_nodup ordered_nodup (List.nodup_dedup _)).mpr fun id => ?_
  rw [mem_ordered, mem_entryIds_entriesById, List.mem_dedup]

/-- The rank of a work item is its position. -/
theorem lookup_rank {id i : ℕ} :
    Table.lookup (·.1) id (buildWorkItemOrder entries).rank = some (id, i) ↔
      (buildWorkItemOrder entries).ordered[i]? = some id := by
  have hkeys : (buildWorkItemOrder entries).rank.map Prod.fst =
      (buildWorkItemOrder entries).ordered := by
    rw [buildWorkItemOrder]
    simp
  have hnodup : ((buildWorkItemOrder entries).rank.map Prod.fst).Nodup := hkeys ▸ ordered_nodup
  constructor
  · intro h
    have hmem := Table.lookup_mem h
    exact List.mem_zipIdx_iff_getElem?.mp hmem
  · intro h
    have hmem : (id, i) ∈ (buildWorkItemOrder entries).rank :=
      List.mem_zipIdx_iff_getElem?.mpr h
    exact Table.lookup_of_mem hnodup hmem

theorem mergesBefore_first {byId : List (OrderEntry ℕ T)}
    (hacyclic : Acyclic (Among (entryIds byId) (MergesBefore byId))) {p q : ℕ} {l : List ℕ}
    (h : Grown (keyOf byId) (entryIds byId) (orderLevels byId) ∅ l) (hq : q ∈ l)
    (hp : p ∈ entryIds byId) (hpq : MergesBefore byId p q) : [p, q].Sublist l := by
  have hmore : ∀ level ∈ [ComesBefore byId], ∀ a b, MergesBefore byId a b → level a b := by
    intro level hlevel a b hab
    obtain rfl := List.mem_singleton.mp hlevel
    exact Or.inl hab
  have hgrown : Grown (keyOf byId) (entryIds byId)
      ([ComesBefore byId] ++ MergesBefore byId :: [fun _ _ => False]) ∅ l := h
  exact hgrown.keeps hacyclic hmore hq hp hpq

theorem comesBefore_first {byId : List (OrderEntry ℕ T)}
    (hacyclic : Acyclic (Among (entryIds byId) (ComesBefore byId))) {p q : ℕ} {l : List ℕ}
    (h : Grown (keyOf byId) (entryIds byId) (orderLevels byId) ∅ l) (hq : q ∈ l)
    (hp : p ∈ entryIds byId) (hpq : ComesBefore byId p q) : [p, q].Sublist l := by
  have hgrown : Grown (keyOf byId) (entryIds byId)
      ([] ++ ComesBefore byId :: [MergesBefore byId, fun _ _ => False]) ∅ l := h
  exact hgrown.keeps hacyclic (fun _ hlevel => absurd hlevel List.not_mem_nil) hq hp hpq

/-- **Only the first entries count.** -/
theorem ordered_eq_of_firstEntry
    (h : ∀ id, firstEntry entries id = firstEntry entries' id) :
    (buildWorkItemOrder entries).ordered = (buildWorkItemOrder entries').ordered := by
  have hlookup : ∀ id, Table.lookup (·.id) id (entriesById entries) =
      Table.lookup (·.id) id (entriesById entries') := by
    intro id
    rw [lookup_entriesById, lookup_entriesById, h id]
  have hmem : ∀ e, e ∈ entriesById entries ↔ e ∈ entriesById entries' := by
    intro e
    constructor
    · intro he
      have hfound := Table.lookup_of_mem (nodup_entriesById entries) he
      exact Table.lookup_mem ((hlookup e.id).symm.trans hfound)
    · intro he
      have hfound := Table.lookup_of_mem (nodup_entriesById entries') he
      exact Table.lookup_mem ((hlookup e.id).trans hfound)
  have hids : entryIds (entriesById entries) = entryIds (entriesById entries') := by
    ext id
    rw [mem_entryIds, mem_entryIds]
    exact exists_congr fun e => and_congr_left fun _ => hmem e
  have hkey : keyOf (entriesById entries) = keyOf (entriesById entries') := by
    funext id
    rw [keyOf, keyOf, hlookup id]
  have hmerges : MergesBefore (entriesById entries) = MergesBefore (entriesById entries') := by
    funext p q
    simp only [MergesBefore, hmem]
  have hholds : HoldsBefore (entriesById entries) = HoldsBefore (entriesById entries') := by
    funext p q
    simp only [HoldsBefore, hmem]
  have hlevels : orderLevels (entriesById entries) = orderLevels (entriesById entries') := by
    simp only [orderLevels, hmerges, funext fun p => funext fun q =>
      show ComesBefore (entriesById entries) p q = ComesBefore (entriesById entries') p q by
        rw [ComesBefore, ComesBefore, hmerges, hholds]]
  have hgrown := grown_ordered entries
  rw [hids, hkey, hlevels] at hgrown
  refine hgrown.unique (keyOf_injOn (entryMap_entriesById entries')) (grown_ordered entries') ?_
  refine List.Perm.length_eq ((List.perm_ext_iff_of_nodup ordered_nodup ordered_nodup).mpr ?_)
  intro id
  rw [mem_ordered, mem_ordered, hids]

/-- **`buildWorkItemOrder` is a sound topological order**, and of the list of entries it depends on
the first entry of each valid id alone. -/
theorem buildWorkItemOrder_sound (entries : List (OrderEntry (Option ℤ) T)) :
    (buildWorkItemOrder entries).ordered.Perm
      (entries.filterMap fun entry => workItemId entry.id).dedup ∧
    (∀ id i, Table.lookup (·.1) id (buildWorkItemOrder entries).rank = some (id, i) ↔
      (buildWorkItemOrder entries).ordered[i]? = some id) ∧
    (Acyclic (Among (entryIds (entriesById entries)) (MergesBefore (entriesById entries))) →
      ∀ p ∈ (buildWorkItemOrder entries).ordered, ∀ q ∈ (buildWorkItemOrder entries).ordered,
        MergesBefore (entriesById entries) p q →
          [p, q].Sublist (buildWorkItemOrder entries).ordered) ∧
    (Acyclic (Among (entryIds (entriesById entries)) (ComesBefore (entriesById entries))) →
      ∀ p q, HoldsBefore (entriesById entries) p q →
        [p, q].Sublist (buildWorkItemOrder entries).ordered) ∧
    ∀ entries' : List (OrderEntry (Option ℤ) T),
      (∀ id, firstEntry entries id = firstEntry entries' id) →
        (buildWorkItemOrder entries).ordered = (buildWorkItemOrder entries').ordered ∧
          (buildWorkItemOrder entries).rank = (buildWorkItemOrder entries').rank := by
  refine ⟨ordered_perm, fun id i => lookup_rank, ?_, ?_, ?_⟩
  · intro hacyclic p hp q hq hpq
    exact mergesBefore_first hacyclic (grown_ordered entries) hq (mem_ordered.mp hp) hpq
  · intro hacyclic p q hpq
    exact comesBefore_first hacyclic (grown_ordered entries) (mem_ordered.mpr hpq.mem.2)
      hpq.mem.1 (Or.inr hpq)
  · intro entries' h
    have hordered := ordered_eq_of_firstEntry h
    exact ⟨hordered, congrArg (fun l : List ℕ => l.zipIdx) hordered⟩

end Sound

/-- An entry without constraints. -/
def looseEntry (id : ℤ) (started ready : Bool) : OrderEntry (Option ℤ) ℕ :=
  { id := some id, started := started, firstLockAt := 0, ready := ready, planned := [],
    held := [], mergeAfter := [] }

/-- A repeated id: which of its entries comes first decides the order. -/
theorem buildWorkItemOrder_repeated : ∃ entries entries' : List (OrderEntry (Option ℤ) ℕ),
    entries.Perm entries' ∧
      (buildWorkItemOrder entries).ordered ≠ (buildWorkItemOrder entries').ordered := by
  refine ⟨[looseEntry 1 true false, looseEntry 1 false false, looseEntry 2 false true],
    [looseEntry 1 false false, looseEntry 1 true false, looseEntry 2 false true],
    List.Perm.swap _ _ _, ?_⟩
  have hfirst : (buildWorkItemOrder [looseEntry 1 true false, looseEntry 1 false false,
      looseEntry 2 false true]).ordered = [1, 2] := by
    refine (placeInOrder_succ (x := 1) (nextInOrder_eq
      ((looseEntry 1 true false).withId 1) (by decide) (by decide))).trans ?_
    exact placeInOrder_succ (x := 2) (nextInOrder_eq
      ((looseEntry 2 false true).withId 2) (by decide) (by decide))
  have hsecond : (buildWorkItemOrder [looseEntry 1 false false, looseEntry 1 true false,
      looseEntry 2 false true]).ordered = [2, 1] := by
    refine (placeInOrder_succ (x := 2) (nextInOrder_eq
      ((looseEntry 2 false true).withId 2) (by decide) (by decide))).trans ?_
    exact placeInOrder_succ (x := 1) (nextInOrder_eq
      ((looseEntry 1 false false).withId 1) (by decide) (by decide))
  rw [hfirst, hsecond]
  decide

/-- Two work items, the second to merge after the first, which holds what the second plans. -/
def chainEntries : List (OrderEntry (Option ℤ) ℕ) :=
  [{ id := some 2, started := true, firstLockAt := 1, ready := false, planned := [⟨"a", .file⟩],
     held := [], mergeAfter := [some 1] },
   { id := some 1, started := true, firstLockAt := 2, ready := false, planned := [],
     held := [⟨"a", .file⟩], mergeAfter := [] }]

/-- In the chain the first one comes first, for both reasons. -/
theorem buildWorkItemOrder_sound_chain :
    [1, 2].Sublist (buildWorkItemOrder chainEntries).ordered ∧
      HoldsBefore (entriesById chainEntries) 1 2 := by
  have hrank : ∀ x ∈ entryIds (entriesById chainEntries),
      ∀ y ∈ entryIds (entriesById chainEntries), ComesBefore (entriesById chainEntries) x y →
        x < y := by decide
  have hacyclic : Acyclic (Among (entryIds (entriesById chainEntries))
      (ComesBefore (entriesById chainEntries))) :=
    acyclic_of_rank id fun x y hxy => hrank x hxy.1 y hxy.2.1 hxy.2.2
  exact ⟨(buildWorkItemOrder_sound chainEntries).2.2.2.1 hacyclic 1 2 (by decide), by decide⟩

/-! ## 3. Cycles -/

section Cycles

variable {T : Type*} [LinearOrder T] {byId : List (OrderEntry ℕ T)} {p q : ℕ} {l : List ℕ}

/-- Two work items on a common cycle of the constraints. -/
def OnCommonCycle (byId : List (OrderEntry ℕ T)) (p q : ℕ) : Prop :=
  TransGen (Among (entryIds byId) (ComesBefore byId)) p q ∧
    TransGen (Among (entryIds byId) (ComesBefore byId)) q p

/-- The constraints that no cycle excuses: merge order, and holders on no common cycle. -/
def KeptBefore (byId : List (OrderEntry ℕ T)) (p q : ℕ) : Prop :=
  MergesBefore byId p q ∨ HoldsBefore byId p q ∧ ¬ OnCommonCycle byId p q

/-- **Only cycles are broken.**  Take the order that places what is fully ready, and else the least
work item that waits for holders on its own cycles alone.  Wherever it has come to with no work item
fully ready, the least hard-ready one waits for holders on its own cycles alone. -/
def CyclesGoFirst (byId : List (OrderEntry ℕ T)) : Prop :=
  ∀ placed, Grown (keyOf byId) (entryIds byId) [ComesBefore byId, KeptBefore byId] ∅ placed →
    (∀ x, ¬ Open (entryIds byId) (ComesBefore byId) placed.toFinset x) →
    ∀ x, Least (keyOf byId) (entryIds byId) (MergesBefore byId) placed.toFinset x →
      Open (entryIds byId) (KeptBefore byId) placed.toFinset x

/-- A holder comes first, unless it shares a cycle with the work item that waits for it. -/
def HoldersFirst (byId : List (OrderEntry ℕ T)) (ordered : List ℕ) : Prop :=
  ∀ p q, HoldsBefore byId p q → [q, p].Sublist ordered → OnCommonCycle byId p q

omit [LinearOrder T] in
theorem Open.of_kept {placed : Finset ℕ} {x : ℕ}
    (h : Open (entryIds byId) (KeptBefore byId) placed x) :
    Open (entryIds byId) (MergesBefore byId) placed x :=
  h.mono fun _ => Or.inl

omit [LinearOrder T] in
theorem Open.kept {placed : Finset ℕ} {x : ℕ}
    (h : Open (entryIds byId) (ComesBefore byId) placed x) :
    Open (entryIds byId) (KeptBefore byId) placed x :=
  h.mono fun _ hy => hy.imp id And.left

/-- A pick of the loop where nothing is fully ready. -/
theorem least_of_picks (hacyclic : Acyclic (Among (entryIds byId) (MergesBefore byId)))
    {placed : Finset ℕ} {x : ℕ}
    (h : Picks (keyOf byId) (entryIds byId) (orderLevels byId) placed x) :
    Least (keyOf byId) (entryIds byId) (ComesBefore byId) placed x ∨
      (∀ y, ¬ Open (entryIds byId) (ComesBefore byId) placed y) ∧
        Least (keyOf byId) (entryIds byId) (MergesBefore byId) placed x := by
  rcases h with hfull | ⟨hnone, hhard | ⟨hstuck, hany⟩⟩
  · exact Or.inl hfull
  · exact Or.inr ⟨hnone, hhard⟩
  · obtain ⟨y, hy⟩ := exists_open hacyclic hany.mem.1 hany.mem.2
    exact absurd hy (hstuck y)

omit [LinearOrder T] in
/-- Where the order keeps the holders first, its picks wait for holders on their own cycles alone. -/
theorem open_kept_of_holdersFirst (hfirst : HoldersFirst byId l) (hall : ∀ p ∈ entryIds byId, p ∈ l)
    {l₁ l₂ : List ℕ} {x : ℕ} (hsplit : l = l₁ ++ x :: l₂)
    (hopen : Open (entryIds byId) (MergesBefore byId) l₁.toFinset x) :
    Open (entryIds byId) (KeptBefore byId) l₁.toFinset x := by
  refine ⟨hopen.mem, hopen.unplaced, fun p hp hpx => ?_⟩
  rcases hpx with hmerge | ⟨hhold, hcycle⟩
  · exact hopen.placed_before p hp hmerge
  · by_contra hnot
    have hmem := hall p hp
    rw [hsplit, List.mem_append, List.mem_cons] at hmem
    rcases hmem with hmem | rfl | hmem
    · exact hnot (List.mem_toFinset.mpr hmem)
    · exact hhold.1 rfl
    · refine hcycle (hfirst p x hhold ?_)
      rw [hsplit]
      exact ((List.singleton_sublist.mpr hmem).cons_cons x).trans (List.sublist_append_right _ _)

/-- The picks of the loop are those of the order that only breaks cycles, step for step. -/
theorem picks_kept (hacyclic : Acyclic (Among (entryIds byId) (MergesBefore byId)))
    {placed : Finset ℕ} {x : ℕ}
    (h : Picks (keyOf byId) (entryIds byId) (orderLevels byId) placed x)
    (hopen : (∀ y, ¬ Open (entryIds byId) (ComesBefore byId) placed y) →
      Open (entryIds byId) (KeptBefore byId) placed x) :
    Picks (keyOf byId) (entryIds byId) [ComesBefore byId, KeptBefore byId] placed x := by
  rcases least_of_picks hacyclic h with hfull | ⟨hnone, hhard⟩
  · exact Or.inl hfull
  · exact Or.inr ⟨hnone, Or.inl ⟨hopen hnone, fun y hy => hhard.2 y (Open.of_kept hy)⟩⟩

/-- The loop follows the order that only breaks cycles. -/
theorem grown_kept (hacyclic : Acyclic (Among (entryIds byId) (MergesBefore byId)))
    (hcycles : CyclesGoFirst byId) {l : List ℕ}
    (h : Grown (keyOf byId) (entryIds byId) (orderLevels byId) ∅ l) :
    Grown (keyOf byId) (entryIds byId) [ComesBefore byId, KeptBefore byId] ∅ l := by
  induction l using List.reverseRecOn with
  | nil => trivial
  | append_singleton l x ih =>
    have hl := ih (grown_append.mp h).1
    have hpick := h.picks
    rw [Finset.empty_union] at hpick
    refine hl.snoc ?_
    rw [Finset.empty_union]
    refine picks_kept hacyclic hpick fun hnone => ?_
    rcases least_of_picks hacyclic hpick with hfull | ⟨-, hhard⟩
    · exact absurd hfull.1 (hnone x)
    · exact hcycles l hl hnone x hhard

end Cycles

/-- Work items 1 and 2 hold what the other plans; 3 started first and waits for 1 alone. -/
def behindCycleEntries : List (OrderEntry (Option ℤ) ℕ) :=
  [{ id := some 1, started := true, firstLockAt := 2, ready := false, planned := [⟨"b", .file⟩],
     held := [⟨"a", .file⟩], mergeAfter := [] },
   { id := some 2, started := true, firstLockAt := 3, ready := false, planned := [⟨"a", .file⟩],
     held := [⟨"b", .file⟩], mergeAfter := [] },
   { id := some 3, started := true, firstLockAt := 1, ready := false, planned := [⟨"a", .file⟩],
     held := [⟨"c", .file⟩], mergeAfter := [] }]

end PosseClient
