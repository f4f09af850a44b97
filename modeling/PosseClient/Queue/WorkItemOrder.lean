/-
# The order of work items with overlapping scopes

`buildWorkItemOrder` of `work-item-order.js`: merge dependencies come first, then lock holding, then
the rule-3 key, and a fallback for work items that no constraint lets go.

* `buildWorkItemOrder`: the maps of the source, and its loop with the three pools.
* `nextInOrder_eq_some_iff`: a round of the loop is a pick under three levels of constraints.
* `grown_ordered`: the order is grown by such picks, and has every work item.

What `String` makes of a first lock time is an element of a linear order.
-/
import PosseClient.Scope.Path
import PosseClient.Lib.GreedyOrder
import PosseClient.Lib.KeySort
import PosseClient.Lib.KeyedMap

namespace PosseClient

open GreedyOrder

/-! ## 1. The source -/

/-- An active work-item entry; `ι` is the type of its id. -/
structure OrderEntry (ι T : Type*) where
  id : ι
  started : Bool
  firstLockAt : T
  ready : Bool
  planned : List LockRow
  held : List LockRow
  mergeAfter : List (Option ℤ)
  deriving DecidableEq, Repr

/-- `lockRowsOverlap`. -/
def lockRowsOverlap (left right : LockRow) : Bool :=
  match left.lockKind, right.lockKind with
  | .file, .file => left.path == right.path
  | .file, .root => isUnderRoot left.path [right.path]
  | .root, .file => isUnderRoot right.path [left.path]
  | .root, .root => rootsOverlap left.path right.path

/-- `findLockRowOverlap`. -/
def findLockRowOverlap (leftRows rightRows : List LockRow) : Option (LockRow × LockRow) :=
  (leftRows.flatMap fun left => rightRows.map fun right => (left, right)).find?
    fun pair => lockRowsOverlap pair.1 pair.2

/-- `Number(id)`, where that is an integer above zero; `none` stands for any other number. -/
def workItemId (id : Option ℤ) : Option ℕ :=
  id.bind fun n => if 0 < n then some n.toNat else none

section Source

variable {ι T : Type*}

/-- `orderTier`. -/
def orderTier (entry : OrderEntry ι T) : ℕ :=
  if entry.started then 0 else if entry.ready then 1 else 2

/-- `compareOrderKey`. -/
def compareOrderKey [LinearOrder T] (left right : OrderEntry ℕ T) : Ordering :=
  if orderTier left ≠ orderTier right then compare (orderTier left) (orderTier right)
  else if orderTier left = 0 ∧ left.firstLockAt ≠ right.firstLockAt then
    if left.firstLockAt < right.firstLockAt then .lt else .gt
  else compare left.id right.id

/-- An entry with the id that `Number` makes of its own. -/
def OrderEntry.withId (entry : OrderEntry ι T) (id : ℕ) : OrderEntry ℕ T :=
  { id := id, started := entry.started, firstLockAt := entry.firstLockAt, ready := entry.ready,
    planned := entry.planned, held := entry.held, mergeAfter := entry.mergeAfter }

/-- The map `byId`: the first entry of every valid id. -/
def entriesById (entries : List (OrderEntry (Option ℤ) T)) : List (OrderEntry ℕ T) :=
  entries.foldl (fun byId entry =>
    match workItemId entry.id with
    | none => byId
    | some id => if byId.any (fun e => e.id == id) then byId else byId ++ [entry.withId id]) []

/-- `hardBefore`. -/
def hardBefore (byId : List (OrderEntry ℕ T)) (entry : OrderEntry ℕ T) : List ℕ :=
  (entry.mergeAfter.filterMap workItemId).filter fun id =>
    id != entry.id && byId.any fun e => e.id == id

/-- `softBefore`. -/
def softBefore (byId : List (OrderEntry ℕ T)) (entry : OrderEntry ℕ T) : List ℕ :=
  (byId.filter fun holder => !holder.held.isEmpty && holder.id != entry.id &&
    !entry.planned.isEmpty && (findLockRowOverlap holder.held entry.planned).isSome).map (·.id)

/-- `readyBy`. -/
def readyBy (constraints : List (OrderEntry ℕ T → List ℕ)) (placed : List ℕ)
    (entry : OrderEntry ℕ T) : Bool :=
  constraints.all fun before => (before entry).all fun predecessor => decide (predecessor ∈ placed)

/-- The pool of a round. -/
def orderPool (byId : List (OrderEntry ℕ T)) (placed : List ℕ) : List (OrderEntry ℕ T) :=
  let remaining := byId.filter fun entry => decide (entry.id ∉ placed)
  let fullyReady := remaining.filter (readyBy [hardBefore byId, softBefore byId] placed)
  let hardReady := remaining.filter (readyBy [hardBefore byId] placed)
  if fullyReady.isEmpty then if hardReady.isEmpty then remaining else hardReady else fullyReady

/-- The id that a round places. -/
def nextInOrder [LinearOrder T] (byId : List (OrderEntry ℕ T)) (placed : List ℕ) : Option ℕ :=
  (((orderPool byId placed).mergeSort fun left right =>
    (compareOrderKey left right).isLE).head?).map (·.id)

/-- The loop, with fuel for the rounds; `placed` has the ids of `ordered`. -/
def placeInOrder [LinearOrder T] (byId : List (OrderEntry ℕ T)) : ℕ → List ℕ → List ℕ
  | 0, ordered => ordered
  | fuel + 1, ordered =>
    match nextInOrder byId ordered with
    | none => ordered
    | some id => placeInOrder byId fuel (ordered ++ [id])

/-- What `buildWorkItemOrder` returns. -/
structure WorkItemOrder (T : Type*) where
  byId : List (OrderEntry ℕ T)
  ordered : List ℕ
  rank : List (ℕ × ℕ)

/-- `buildWorkItemOrder`: every round places one id. -/
def buildWorkItemOrder [LinearOrder T] (entries : List (OrderEntry (Option ℤ) T)) :
    WorkItemOrder T :=
  let byId := entriesById entries
  let ordered := placeInOrder byId byId.length []
  { byId := byId, ordered := ordered, rank := ordered.zipIdx }

end Source

/-! ## 2. The map of the entries -/

section Entries

variable {T : Type*} {entries : List (OrderEntry (Option ℤ) T)} {byId : List (OrderEntry ℕ T)}

/-- The first entry of an id. -/
def firstEntry (entries : List (OrderEntry (Option ℤ) T)) (id : ℕ) :
    Option (OrderEntry (Option ℤ) T) :=
  entries.find? fun entry => decide (workItemId entry.id = some id)

theorem entriesById_concat (entry : OrderEntry (Option ℤ) T) :
    entriesById (entries ++ [entry]) = match workItemId entry.id with
      | none => entriesById entries
      | some id => if (entriesById entries).any (fun e => e.id == id) then entriesById entries
        else entriesById entries ++ [entry.withId id] := by
  rw [entriesById, List.foldl_append]
  rfl

theorem nodup_entriesById : ∀ entries : List (OrderEntry (Option ℤ) T),
    ((entriesById entries).map (·.id)).Nodup := by
  intro entries
  induction entries using List.reverseRecOn with
  | nil => exact List.nodup_nil
  | append_singleton entries entry ih =>
    rw [entriesById_concat]
    split
    · exact ih
    · split
      · exact ih
      case isFalse hnew =>
        rw [List.map_append, List.nodup_append]
        refine ⟨ih, List.nodup_singleton _, ?_⟩
        rintro a ha b hb rfl
        obtain ⟨e, he, heq⟩ := List.mem_map.mp ha
        refine hnew (List.any_eq_true.mpr ⟨e, he, ?_⟩)
        rw [beq_iff_eq, heq]
        exact List.mem_singleton.mp hb

/-- **The map has the first entry of each valid id.** -/
theorem lookup_entriesById (id : ℕ) : ∀ entries : List (OrderEntry (Option ℤ) T),
    Table.lookup (·.id) id (entriesById entries) =
      (firstEntry entries id).map fun entry => entry.withId id := by
  intro entries
  induction entries using List.reverseRecOn with
  | nil => rfl
  | append_singleton entries entry ih =>
    have hfirst : firstEntry (entries ++ [entry]) id = (firstEntry entries id).or
        (if workItemId entry.id = some id then some entry else none) := by
      unfold firstEntry
      rw [List.find?_append]
      by_cases h : workItemId entry.id = some id <;> simp [h]
    rw [entriesById_concat, hfirst]
    split
    case h_1 hnone => simpa [hnone] using ih
    case h_2 found hfound =>
      split
      case isTrue hold =>
        -- an entry of that id is there
        rw [ih]
        by_cases h : found = id
        · subst h
          obtain ⟨e, he, heq⟩ := List.any_eq_true.mp hold
          cases hcase : firstEntry entries found with
          | some entry' => simp
          | none =>
            rw [hcase, Option.map_none, Table.lookup_eq_none_iff] at ih
            exact absurd (beq_iff_eq.mp heq) (ih e he)
        · simp [hfound, h]
      case isFalse hnew =>
        have hconcat : Table.lookup (·.id) id (entriesById entries ++ [entry.withId found]) =
            (Table.lookup (·.id) id (entriesById entries)).or
              (if (entry.withId found).id = id then some (entry.withId found) else none) :=
          KeyedMap.lookup_concat _
        have hid : (entry.withId found).id = found := rfl
        rw [hconcat, ih, hid]
        by_cases h : found = id
        · subst h
          cases firstEntry entries found <;> simp [hfound]
        · simp [hfound, h]

/-- **A map of entries**: one entry for each id, and ids above zero. -/
structure EntryMap (byId : List (OrderEntry ℕ T)) : Prop where
  nodup : (byId.map (·.id)).Nodup
  pos : ∀ entry ∈ byId, 0 < entry.id

theorem pos_of_workItemId {id : Option ℤ} {n : ℕ} (h : workItemId id = some n) :
    id = some (n : ℤ) ∧ 0 < n := by
  unfold workItemId at h
  obtain ⟨m, rfl, hm⟩ := Option.bind_eq_some_iff.mp h
  split at hm
  case isTrue hpos =>
    obtain rfl := Option.some.inj hm
    refine ⟨congrArg some ?_, ?_⟩ <;> omega
  case isFalse => cases hm

theorem workItemId_some {n : ℕ} (h : 0 < n) : workItemId (some (n : ℤ)) = some n := by
  simp [workItemId, h.ne']

theorem entryMap_entriesById (entries : List (OrderEntry (Option ℤ) T)) :
    EntryMap (entriesById entries) := by
  constructor
  · exact nodup_entriesById entries
  · intro entry hentry
    have hlookup := Table.lookup_of_mem (nodup_entriesById entries) hentry
    rw [lookup_entriesById] at hlookup
    obtain ⟨first, hfirst, -⟩ := Option.map_eq_some_iff.mp hlookup
    have hid := List.find?_some hfirst
    exact (pos_of_workItemId (of_decide_eq_true hid)).2

/-- The ids of the entries. -/
def entryIds (byId : List (OrderEntry ℕ T)) : Finset ℕ := (byId.map (·.id)).toFinset

theorem mem_entryIds {id : ℕ} : id ∈ entryIds byId ↔ ∃ entry ∈ byId, entry.id = id := by
  rw [entryIds, List.mem_toFinset, List.mem_map]

end Entries

/-! ## 3. What must come before a work item -/

section Constraints

variable {T : Type*} {byId : List (OrderEntry ℕ T)} {p q : ℕ}

/-- Work item `q` must merge after `p`. -/
def MergesBefore (byId : List (OrderEntry ℕ T)) (p q : ℕ) : Prop :=
  p ≠ q ∧ ∃ entry ∈ byId, entry.id = q ∧ some (p : ℤ) ∈ entry.mergeAfter

/-- Work item `p` holds a row that overlaps one that `q` plans. -/
def HoldsBefore (byId : List (OrderEntry ℕ T)) (p q : ℕ) : Prop :=
  p ≠ q ∧ ∃ holder ∈ byId, ∃ entry ∈ byId, holder.id = p ∧ entry.id = q ∧
    ∃ held ∈ holder.held, ∃ planned ∈ entry.planned, lockRowsOverlap held planned = true

/-- One of the two. -/
def ComesBefore (byId : List (OrderEntry ℕ T)) (p q : ℕ) : Prop :=
  MergesBefore byId p q ∨ HoldsBefore byId p q

instance (byId : List (OrderEntry ℕ T)) (p q : ℕ) : Decidable (MergesBefore byId p q) :=
  inferInstanceAs (Decidable (p ≠ q ∧ ∃ entry ∈ byId, entry.id = q ∧ some (p : ℤ) ∈
    entry.mergeAfter))

instance (byId : List (OrderEntry ℕ T)) (p q : ℕ) : Decidable (HoldsBefore byId p q) :=
  inferInstanceAs (Decidable (p ≠ q ∧ ∃ holder ∈ byId, ∃ entry ∈ byId, holder.id = p ∧
    entry.id = q ∧ ∃ held ∈ holder.held, ∃ planned ∈ entry.planned,
      lockRowsOverlap held planned = true))

instance (byId : List (OrderEntry ℕ T)) (p q : ℕ) : Decidable (ComesBefore byId p q) :=
  inferInstanceAs (Decidable (MergesBefore byId p q ∨ HoldsBefore byId p q))

theorem findLockRowOverlap_isSome {leftRows rightRows : List LockRow} :
    (findLockRowOverlap leftRows rightRows).isSome = true ↔
      ∃ left ∈ leftRows, ∃ right ∈ rightRows, lockRowsOverlap left right = true := by
  rw [findLockRowOverlap, List.find?_isSome]
  constructor
  · rintro ⟨⟨left, right⟩, hmem, hoverlap⟩
    obtain ⟨left', hleft, hmap⟩ := List.mem_flatMap.mp hmem
    obtain ⟨right', hright, heq⟩ := List.mem_map.mp hmap
    cases heq
    exact ⟨left, hleft, right, hright, hoverlap⟩
  · rintro ⟨left, hleft, right, hright, hoverlap⟩
    refine ⟨(left, right), ?_, hoverlap⟩
    exact List.mem_flatMap.mpr ⟨left, hleft, List.mem_map.mpr ⟨right, hright, rfl⟩⟩

theorem mem_hardBefore (h : EntryMap byId) {entry : OrderEntry ℕ T} (hentry : entry ∈ byId) :
    p ∈ hardBefore byId entry ↔ p ∈ entryIds byId ∧ MergesBefore byId p entry.id := by
  simp only [hardBefore, List.mem_filter, List.mem_filterMap, Bool.and_eq_true, bne_iff_ne,
    List.any_eq_true, beq_iff_eq]
  rw [mem_entryIds, MergesBefore]
  constructor
  · rintro ⟨⟨id, hid, hp⟩, hne, hmem⟩
    obtain ⟨rfl, -⟩ := pos_of_workItemId hp
    exact ⟨hmem, hne, entry, hentry, rfl, hid⟩
  · rintro ⟨⟨e, he, rfl⟩, hne, entry', hentry', hsame, hmem⟩
    obtain rfl := Table.eq_of_key_eq h.nodup hentry' hentry hsame
    exact ⟨⟨_, hmem, workItemId_some (h.pos e he)⟩, hne, e, he, rfl⟩

theorem mem_softBefore (h : EntryMap byId) {entry : OrderEntry ℕ T} (hentry : entry ∈ byId) :
    p ∈ softBefore byId entry ↔ HoldsBefore byId p entry.id := by
  simp only [softBefore, List.mem_map, List.mem_filter, Bool.and_eq_true, bne_iff_ne,
    findLockRowOverlap_isSome, Bool.not_eq_true', List.isEmpty_eq_false_iff]
  constructor
  · rintro ⟨holder, ⟨hholder, ⟨⟨-, hne⟩, -⟩, hoverlap⟩, rfl⟩
    exact ⟨hne, holder, hholder, entry, hentry, rfl, rfl, hoverlap⟩
  · rintro ⟨hne, holder, hholder, entry', hentry', rfl, hsame, held, hheld, row, hrow, hoverlap⟩
    obtain rfl := Table.eq_of_key_eq h.nodup hentry' hentry hsame
    refine ⟨holder, ⟨hholder, ⟨⟨?_, hne⟩, ?_⟩, held, hheld, row, hrow, hoverlap⟩, rfl⟩
    · exact List.ne_nil_of_mem hheld
    · exact List.ne_nil_of_mem hrow

theorem HoldsBefore.mem (h : HoldsBefore byId p q) : p ∈ entryIds byId ∧ q ∈ entryIds byId := by
  obtain ⟨-, holder, hholder, entry, hentry, rfl, rfl, -⟩ := h
  exact ⟨mem_entryIds.mpr ⟨holder, hholder, rfl⟩, mem_entryIds.mpr ⟨entry, hentry, rfl⟩⟩

end Constraints

/-! ## 4. The key -/

section Key

variable {T : Type*} [LinearOrder T] {byId : List (OrderEntry ℕ T)}

/-- The rule-3 key. -/
def orderKey (entry : OrderEntry ℕ T) : ℕ ×ₗ WithBot T ×ₗ ℕ :=
  toLex (orderTier entry,
    toLex (if orderTier entry = 0 then (entry.firstLockAt : WithBot T) else ⊥, entry.id))

theorem compareOrderKey_isLE {left right : OrderEntry ℕ T} :
    (compareOrderKey left right).isLE = true ↔ orderKey left ≤ orderKey right := by
  unfold compareOrderKey orderKey
  rw [Prod.Lex.toLex_le_toLex, Prod.Lex.toLex_le_toLex]
  by_cases htier : orderTier left = orderTier right
  · rw [if_neg (not_not_intro htier), htier]
    by_cases hzero : orderTier right = 0
    · rcases lt_trichotomy left.firstLockAt right.firstLockAt with hlt | heq | hgt
      · simp [hzero, hlt, hlt.ne]
      · simp [hzero, heq, Nat.isLE_compare]
      · simp [hzero, hgt.ne', hgt.not_gt]
    · simp [hzero, Nat.isLE_compare]
  · rw [if_pos htier, Nat.isLE_compare]
    constructor
    · exact fun hle => Or.inl (lt_of_le_of_ne hle htier)
    · rintro (hlt | ⟨heq, -⟩)
      · exact hlt.le
      · exact absurd heq htier

/-- The key of a work item, by its id. -/
def keyOf (byId : List (OrderEntry ℕ T)) (id : ℕ) : ℕ ×ₗ WithBot T ×ₗ ℕ :=
  match Table.lookup (·.id) id byId with
  | some entry => orderKey entry
  | none => toLex (0, toLex (⊥, 0))

omit [LinearOrder T] in
theorem keyOf_mem (h : EntryMap byId) {entry : OrderEntry ℕ T} (hentry : entry ∈ byId) :
    keyOf byId entry.id = orderKey entry := by
  rw [keyOf, Table.lookup_of_mem h.nodup hentry]

omit [LinearOrder T] in
/-- The key ends with the id. -/
theorem keyOf_injOn (h : EntryMap byId) : Set.InjOn (keyOf byId) (entryIds byId) := by
  intro p hp q hq heq
  obtain ⟨e, he, rfl⟩ := mem_entryIds.mp hp
  obtain ⟨e', he', rfl⟩ := mem_entryIds.mp hq
  rw [keyOf_mem h he, keyOf_mem h he'] at heq
  have hpair := congrArg (fun key => (ofLex (ofLex key).2).2) heq
  exact hpair

end Key

/-! ## 5. The loop -/

section Loop

variable {T : Type*} [LinearOrder T] {byId : List (OrderEntry ℕ T)} {placed : List ℕ} {x : ℕ}

/-- The three levels of constraints of the pools. -/
def orderLevels (byId : List (OrderEntry ℕ T)) : List (ℕ → ℕ → Prop) :=
  [ComesBefore byId, MergesBefore byId, fun _ _ => False]

omit [LinearOrder T] in
/-- What lets an entry into a pool. -/
theorem mem_pool_iff {constraints : List (OrderEntry ℕ T → List ℕ)} {before : ℕ → ℕ → Prop}
    (hbefore : ∀ entry ∈ byId, ∀ p, (∃ c ∈ constraints, p ∈ c entry) ↔
      p ∈ entryIds byId ∧ before p entry.id) {entry : OrderEntry ℕ T} :
    entry ∈ (byId.filter fun e => decide (e.id ∉ placed)).filter (readyBy constraints placed) ↔
      entry ∈ byId ∧ Open (entryIds byId) before placed.toFinset entry.id := by
  simp only [List.mem_filter, readyBy, List.all_eq_true, decide_eq_true_eq]
  constructor
  · rintro ⟨⟨hentry, hnot⟩, hready⟩
    refine ⟨hentry, mem_entryIds.mpr ⟨entry, hentry, rfl⟩, by simpa using hnot, fun p hp hpx => ?_⟩
    obtain ⟨c, hc, hpc⟩ := (hbefore entry hentry p).mpr ⟨hp, hpx⟩
    exact List.mem_toFinset.mpr (hready c hc p hpc)
  · rintro ⟨hentry, hopen⟩
    refine ⟨⟨hentry, by simpa using hopen.unplaced⟩, fun c hc p hpc => ?_⟩
    obtain ⟨hp, hpx⟩ := (hbefore entry hentry p).mp ⟨c, hc, hpc⟩
    exact List.mem_toFinset.mp (hopen.placed_before p hp hpx)

/-- **The head of a sorted pool** has the least key of the open work items. -/
theorem least_of_pool (h : EntryMap byId) {pool : List (OrderEntry ℕ T)} {before : ℕ → ℕ → Prop}
    (hpool : ∀ e, e ∈ pool ↔ e ∈ byId ∧ Open (entryIds byId) before placed.toFinset e.id)
    {entry : OrderEntry ℕ T}
    (hhead : (pool.mergeSort fun l r => (compareOrderKey l r).isLE).head? = some entry) :
    Least (keyOf byId) (entryIds byId) before placed.toFinset entry.id := by
  obtain ⟨rest, hsorted⟩ := List.head?_eq_some_iff.mp hhead
  have hmem : entry ∈ pool := by
    rw [← List.mem_mergeSort, hsorted]
    exact List.mem_cons_self
  obtain ⟨hentry, hopen⟩ := (hpool entry).mp hmem
  refine ⟨hopen, fun y hy => ?_⟩
  obtain ⟨e, he, rfl⟩ := mem_entryIds.mp hy.mem
  rw [keyOf_mem h hentry, keyOf_mem h he]
  have hpair := KeySort.pairwise_mergeSort (fun _ _ => compareOrderKey_isLE) pool
  rw [hsorted] at hpair
  have hin : e ∈ entry :: rest := by
    rw [← hsorted, List.mem_mergeSort]
    exact (hpool e).mpr ⟨he, hy⟩
  rcases List.mem_cons.mp hin with rfl | hin
  · exact le_rfl
  · exact (List.pairwise_cons.mp hpair).1 e hin

omit [LinearOrder T] in
/-- The pools of a round, and what is open where one is empty. -/
theorem mem_fullyReady (h : EntryMap byId) {entry : OrderEntry ℕ T} :
    entry ∈ (byId.filter fun e => decide (e.id ∉ placed)).filter
        (readyBy [hardBefore byId, softBefore byId] placed) ↔
      entry ∈ byId ∧ Open (entryIds byId) (ComesBefore byId) placed.toFinset entry.id := by
  refine mem_pool_iff fun e he p => ?_
  simp only [List.mem_cons, List.not_mem_nil, or_false, exists_eq_or_imp, exists_eq_left,
    mem_hardBefore h he, mem_softBefore h he, ComesBefore]
  constructor
  · rintro (⟨hp, hmerge⟩ | hhold)
    · exact ⟨hp, Or.inl hmerge⟩
    · obtain ⟨holder, hholder, -, -, rfl, -⟩ := hhold.2
      exact ⟨mem_entryIds.mpr ⟨holder, hholder, rfl⟩, Or.inr hhold⟩
  · rintro ⟨hp, hmerge | hhold⟩
    · exact Or.inl ⟨hp, hmerge⟩
    · exact Or.inr hhold

omit [LinearOrder T] in
theorem mem_hardReady (h : EntryMap byId) {entry : OrderEntry ℕ T} :
    entry ∈ (byId.filter fun e => decide (e.id ∉ placed)).filter
        (readyBy [hardBefore byId] placed) ↔
      entry ∈ byId ∧ Open (entryIds byId) (MergesBefore byId) placed.toFinset entry.id := by
  refine mem_pool_iff fun e he p => ?_
  simp only [List.mem_cons, List.not_mem_nil, or_false, exists_eq_left, mem_hardBefore h he]

omit [LinearOrder T] in
theorem mem_remaining {entry : OrderEntry ℕ T} :
    entry ∈ byId.filter (fun e => decide (e.id ∉ placed)) ↔
      entry ∈ byId ∧ Open (entryIds byId) (fun _ _ => False) placed.toFinset entry.id := by
  rw [List.mem_filter, decide_eq_true_eq]
  constructor
  · rintro ⟨hentry, hnot⟩
    refine ⟨hentry, mem_entryIds.mpr ⟨entry, hentry, rfl⟩, by simpa using hnot, ?_⟩
    exact fun _ _ h => h.elim
  · rintro ⟨hentry, hopen⟩
    exact ⟨hentry, by simpa using hopen.unplaced⟩

omit [LinearOrder T] in
theorem not_open_of_isEmpty {pool : List (OrderEntry ℕ T)} {before : ℕ → ℕ → Prop}
    (hpool : ∀ e, e ∈ pool ↔ e ∈ byId ∧ Open (entryIds byId) before placed.toFinset e.id)
    (hempty : pool.isEmpty = true) (y : ℕ) :
    ¬ Open (entryIds byId) before placed.toFinset y := by
  intro hy
  obtain ⟨e, he, rfl⟩ := mem_entryIds.mp hy.mem
  have hmem := (hpool e).mpr ⟨he, hy⟩
  rw [List.isEmpty_iff.mp hempty] at hmem
  exact List.not_mem_nil hmem

/-- A round places a pick under the three levels. -/
theorem picks_of_nextInOrder (h : EntryMap byId) (hnext : nextInOrder byId placed = some x) :
    Picks (keyOf byId) (entryIds byId) (orderLevels byId) placed.toFinset x := by
  obtain ⟨entry, hhead, rfl⟩ := Option.map_eq_some_iff.mp hnext
  unfold orderPool at hhead
  dsimp only at hhead
  split at hhead
  case isFalse => exact Or.inl (least_of_pool h (fun _ => mem_fullyReady h) hhead)
  case isTrue hfull =>
    refine Or.inr ⟨not_open_of_isEmpty (fun _ => mem_fullyReady h) hfull, ?_⟩
    split at hhead
    case isFalse => exact Or.inl (least_of_pool h (fun _ => mem_hardReady h) hhead)
    case isTrue hhard =>
      refine Or.inr ⟨not_open_of_isEmpty (fun _ => mem_hardReady h) hhard, ?_⟩
      exact Or.inl (least_of_pool h (fun _ => mem_remaining) hhead)

/-- A round places a work item while one is left. -/
theorem nextInOrder_isSome {id : ℕ} (hid : id ∈ entryIds byId) (hplaced : id ∉ placed) :
    ∃ x, nextInOrder byId placed = some x := by
  obtain ⟨entry, hentry, rfl⟩ := mem_entryIds.mp hid
  have hremaining : (byId.filter fun e => decide (e.id ∉ placed)).isEmpty = false := by
    rw [List.isEmpty_eq_false_iff]
    exact List.ne_nil_of_mem (List.mem_filter.mpr ⟨hentry, decide_eq_true hplaced⟩)
  have hpool : (orderPool byId placed).isEmpty = false := by
    unfold orderPool
    dsimp only
    split
    · split
      · exact hremaining
      case isFalse hhard => exact Bool.eq_false_of_not_eq_true hhard
    case isFalse hfull => exact Bool.eq_false_of_not_eq_true hfull
  cases hsorted : (orderPool byId placed).mergeSort fun l r => (compareOrderKey l r).isLE with
  | nil =>
    have hperm := List.mergeSort_perm (orderPool byId placed) fun l r =>
      (compareOrderKey l r).isLE
    rw [hsorted] at hperm
    rw [hperm.symm.eq_nil] at hpool
    cases hpool
  | cons e rest => exact ⟨e.id, by rw [nextInOrder, hsorted]; rfl⟩

theorem grown_placeInOrder (h : EntryMap byId) : ∀ (fuel : ℕ) {ordered : List ℕ},
    Grown (keyOf byId) (entryIds byId) (orderLevels byId) ∅ ordered →
      Grown (keyOf byId) (entryIds byId) (orderLevels byId) ∅ (placeInOrder byId fuel ordered)
  | 0, _, hgrown => hgrown
  | fuel + 1, ordered, hgrown => by
    rw [placeInOrder]
    split
    · exact hgrown
    case h_2 x hnext =>
      refine grown_placeInOrder h fuel (hgrown.snoc ?_)
      rw [Finset.empty_union]
      exact picks_of_nextInOrder h hnext

omit [LinearOrder T] in
theorem card_entryIds (h : EntryMap byId) : (entryIds byId).card = byId.length := by
  rw [entryIds, List.toFinset_card_of_nodup h.nodup, List.length_map]

/-- The loop ends with every work item placed. -/
theorem mem_placeInOrder (h : EntryMap byId) : ∀ (fuel : ℕ) {ordered : List ℕ},
    Grown (keyOf byId) (entryIds byId) (orderLevels byId) ∅ ordered →
      byId.length ≤ ordered.length + fuel →
      ∀ id ∈ entryIds byId, id ∈ placeInOrder byId fuel ordered
  | 0, ordered, hgrown, hfuel => by
    obtain ⟨hnodup, hmem⟩ := hgrown.mem_nodup
    have hsub : ordered.toFinset ⊆ entryIds byId := fun y hy =>
      (hmem y (List.mem_toFinset.mp hy)).1
    have hcard : (entryIds byId).card ≤ ordered.toFinset.card := by
      rw [card_entryIds h, List.toFinset_card_of_nodup hnodup]
      exact hfuel
    intro id hid
    rw [← Finset.eq_of_subset_of_card_le hsub hcard, List.mem_toFinset] at hid
    exact hid
  | fuel + 1, ordered, hgrown, hfuel => by
    intro id hid
    rw [placeInOrder]
    split
    case h_1 hnone =>
      by_contra hnot
      obtain ⟨x, hx⟩ := nextInOrder_isSome hid hnot
      rw [hnone] at hx
      cases hx
    case h_2 x hnext =>
      refine mem_placeInOrder h fuel (hgrown.snoc ?_) ?_ id hid
      · rw [Finset.empty_union]
        exact picks_of_nextInOrder h hnext
      · rw [List.length_append, List.length_singleton]
        omega

variable {entries : List (OrderEntry (Option ℤ) T)}

/-- **The order is grown under the three levels.** -/
theorem grown_ordered (entries : List (OrderEntry (Option ℤ) T)) :
    Grown (keyOf (entriesById entries)) (entryIds (entriesById entries))
      (orderLevels (entriesById entries)) ∅ (buildWorkItemOrder entries).ordered :=
  grown_placeInOrder (entryMap_entriesById entries) _ trivial

/-- The order has the ids of the entries, each once. -/
theorem ordered_nodup : (buildWorkItemOrder entries).ordered.Nodup :=
  (grown_ordered entries).mem_nodup.1

theorem mem_ordered {id : ℕ} :
    id ∈ (buildWorkItemOrder entries).ordered ↔ id ∈ entryIds (entriesById entries) := by
  constructor
  · exact fun hid => ((grown_ordered entries).mem_nodup.2 id hid).1
  · have hstart : Grown (keyOf (entriesById entries)) (entryIds (entriesById entries))
        (orderLevels (entriesById entries)) ∅ [] := trivial
    refine mem_placeInOrder (entryMap_entriesById entries) _ hstart ?_ id
    rw [List.length_nil, Nat.zero_add]

end Loop

end PosseClient
