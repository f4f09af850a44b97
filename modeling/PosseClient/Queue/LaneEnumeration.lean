/-
# Enumeration of the waiting lanes

`waiting-lane-preparations.js`: `iterateWaitingLanePreparations` reads the preparations page by
page behind the cursor `(updated_at, work_item_id)` of the last row it has read, while other
connections, and the consumer between two rows, write to the table.  Every write stamps
`updated_at`.

* The texts of `updated_at` are the elements of a linear order, the one SQLite compares them in.
* A transition is any change of the mutable columns under `updatePreparationCas`; an insert is any
  row of a new work item (`ensureWaitingLanePreparation`).  Both run in an immediate transaction, so
  each is one step that stamps the clock of its moment.
* `transition_forward`: a transition moves a row forward in the order of the enumeration.
* `nextOf_next`: what one step of the generator does.
-/
import PosseClient.Queue.WaitingLanes
import PosseClient.Lib.KeysetPages

namespace PosseClient

open KeysetPages

variable {T : Type*} [LinearOrder T]

/-! ## 1. Stamped rows -/

/-- A row with its `updated_at`. -/
structure StampedLane (T : Type*) extends Preparation where
  updatedAt : T
  deriving DecidableEq

/-- `Number.isSafeInteger(id) && id > 0`. -/
def isWorkItemId (id : ℕ) : Bool := 0 < id && isCounter id

/-- `updatePreparationCas`, with the stamp: `updated_at` and the identity of the row are not among
the columns a caller can change. -/
def stampPreparationCas (now : T) (lanes : List (StampedLane T)) (row : Preparation)
    (changes : Preparation → Preparation) : List (StampedLane T) :=
  Table.updateWhere (fun r => isVersionOf row r.toPreparation)
    (fun r => { changes r.toPreparation with
      workItemId := r.workItemId, version := r.version + 1, updatedAt := now }) lanes

/-- The insert of `ensureWaitingLanePreparation`. -/
def insertPreparation (now : T) (lanes : List (StampedLane T)) (row : Preparation) :
    List (StampedLane T) :=
  if isWorkItemId row.workItemId ∧ ∀ r ∈ lanes, r.workItemId ≠ row.workItemId then
    lanes ++ [{ row with updatedAt := now }]
  else lanes

omit [LinearOrder T] in
/-- Without the stamps, a stamped transition is `updatePreparationCas`. -/
theorem map_stampPreparationCas (now : T) (lanes : List (StampedLane T)) (row : Preparation)
    {changes : Preparation → Preparation} (hid : ∀ r, (changes r).workItemId = r.workItemId)
    (outcome : LaneOutcome) :
    (stampPreparationCas now lanes row changes).map StampedLane.toPreparation =
      (updatePreparationCas (lanes.map StampedLane.toPreparation) row changes outcome).1 := by
  have hmap : (stampPreparationCas now lanes row changes).map StampedLane.toPreparation =
      Table.updateWhere (isVersionOf row) (fun r => { changes r with version := r.version + 1 })
        (lanes.map StampedLane.toPreparation) := by
    rw [stampPreparationCas, Table.updateWhere, Table.updateWhere, List.map_map, List.map_map]
    refine List.map_congr_left fun r _ => ?_
    by_cases h : isVersionOf row r.toPreparation = true
    · simp only [Function.comp_apply, h, if_true]
      rw [← hid r.toPreparation]
    · simp only [Function.comp_apply, h, Bool.false_eq_true, if_false]
  rw [hmap]
  unfold updatePreparationCas
  split
  case isTrue h => exact Table.updateWhere_of_changes_eq_zero h
  case isFalse => rfl

/-! ## 2. Pages -/

/-- The options of an enumeration; `pageSize` is `none` where it is no integer. -/
structure LaneQuery where
  states : List LaneState := []
  targetBranch : Option String := none
  withWorktreeAsset : Bool := false
  pageSize : Option ℤ := some 1000

/-- `trim(worktree_root) <> ''`: the `trim` of SQLite cuts spaces. -/
def hasWorktreeAsset (row : Preparation) : Bool :=
  row.worktreeRoot.any (fun root => root.toList.any (· != ' '))

/-- The `WHERE` clause of a query, without the cursor; a blank target branch selects nothing. -/
def LaneQuery.selects (query : LaneQuery) (row : Preparation) : Bool :=
  (query.states.isEmpty || query.states.contains row.state) &&
    query.targetBranch.all (fun b => normalizeOptionalString (some b) == some row.targetBranch) &&
    (!query.withWorktreeAsset || hasWorktreeAsset row)

/-- `waitingLanePreparationCursor`. -/
def waitingLanePreparationCursor (row : StampedLane T) : Option (T × ℕ) :=
  if isWorkItemId row.workItemId then some (row.updatedAt, row.workItemId) else none

/-- `updated_at > ? OR (updated_at = ? AND work_item_id > ?)`. -/
def isAfter (after : Option (T × ℕ)) (row : StampedLane T) : Bool :=
  after.all fun cursor => cursor.1 < row.updatedAt ||
    (row.updatedAt == cursor.1 && cursor.2 < row.workItemId)

/-- `ORDER BY updated_at ASC, work_item_id ASC`. -/
def lanesInOrder (r s : StampedLane T) : Bool :=
  r.updatedAt < s.updatedAt || (r.updatedAt == s.updatedAt && r.workItemId ≤ s.workItemId)

/-- The limit of a page. -/
def normalizedLimit (limit : Option ℤ) : ℕ :=
  match limit.filter isCounter with
  | some n => min n.toNat 1000
  | none => 100

/-- `listWaitingLanePreparations`; `none` where it throws. -/
def listWaitingLanePreparations (query : LaneQuery) (limit : Option ℤ) (after : Option (T × ℕ))
    (lanes : List (StampedLane T)) : Option (List (StampedLane T)) :=
  if query.targetBranch.any (fun b => (normalizeOptionalString (some b)).isNone) then none
  else some (pageOf lanesInOrder (fun r => query.selects r.toPreparation && isAfter after r)
    (normalizedLimit limit) lanes)

/-- `boundedPageSize`. -/
def boundedPageSize (query : LaneQuery) : ℕ :=
  match query.pageSize.filter (fun n => isCounter n && 0 < n) with
  | some n => min n.toNat 1000
  | none => 1000

/-! ## 3. The iterator -/

/-- Where the generator stands: before a page, in the loop over a page, or at its end. -/
inductive IteratorPhase (T : Type*)
  | reading
  | yielding (page rest : List (StampedLane T))
  | done

/-- `iterateWaitingLanePreparations`, with the rows it has yielded. -/
structure LaneIterator (T : Type*) where
  phase : IteratorPhase T := .reading
  after : Option (T × ℕ) := none
  seen : List ℕ := []
  yielded : List (StampedLane T) := []

/-- One step of the generator: it reads a page, goes past a row of the page, or leaves the page. -/
def LaneIterator.next (query : LaneQuery) (lanes : List (StampedLane T)) (it : LaneIterator T) :
    LaneIterator T :=
  match it.phase with
  | .reading =>
    match listWaitingLanePreparations query (some (boundedPageSize query : ℤ)) it.after lanes with
    | none => { it with phase := .done }
    | some [] => { it with phase := .done }
    | some page => { it with phase := .yielding page page }
  | .yielding page (row :: rest) =>
    if it.seen.contains row.workItemId then { it with phase := .yielding page rest }
    else { it with
      phase := .yielding page rest
      seen := it.seen ++ [row.workItemId]
      yielded := it.yielded ++ [row] }
  | .yielding page [] =>
    match page.getLast?.bind waitingLanePreparationCursor with
    | none => { it with phase := .done }
    | some cursor =>
      if page.length < boundedPageSize query then { it with after := cursor, phase := .done }
      else { it with after := cursor, phase := .reading }
  | .done => it

/-! ## 4. The table while it is enumerated -/

/-- What happens: the clock goes on, a connection writes, or the generator takes a step. -/
inductive EnumerationOp (T : Type*)
  | tick (now : T)
  | transition (row : Preparation) (changes : Preparation → Preparation)
  | insert (row : Preparation)
  | next

/-- The table, the clock and one enumeration. -/
structure Enumeration (T : Type*) where
  lanes : List (StampedLane T)
  clock : T
  iterator : LaneIterator T := {}

/-- One step.  The clock never goes back. -/
def enumerationStep (query : LaneQuery) (e : Enumeration T) : EnumerationOp T → Enumeration T
  | .tick now => { e with clock := max e.clock now }
  | .transition row changes => { e with lanes := stampPreparationCas e.clock e.lanes row changes }
  | .insert row => { e with lanes := insertPreparation e.clock e.lanes row }
  | .next => { e with iterator := e.iterator.next query e.lanes }

/-- The ids of the rows yielded so far. -/
def Enumeration.yieldedIds (e : Enumeration T) : List ℕ :=
  e.iterator.yielded.map (fun r => r.workItemId)

/-- The generator has returned. -/
def Enumeration.IsDone (e : Enumeration T) : Prop := e.iterator.phase = .done

/-- The work item has a row that the query selects. -/
def Enumeration.Selects (query : LaneQuery) (id : ℕ) (e : Enumeration T) : Prop :=
  ∃ r ∈ e.lanes, r.workItemId = id ∧ query.selects r.toPreparation = true

/-- A table that its writers have made: one row for a work item, stamped in the past. -/
structure StampedBy (clock : T) (lanes : List (StampedLane T)) : Prop where
  nodup : (lanes.map fun r => r.workItemId).Nodup
  isId : ∀ r ∈ lanes, isWorkItemId r.workItemId = true
  past : ∀ r ∈ lanes, r.updatedAt ≤ clock

/-! ## 5. Keys -/

/-- The place of a row in the order of the enumeration. -/
def laneKey (r : StampedLane T) : T ×ₗ ℕ := toLex (r.updatedAt, r.workItemId)

theorem lanesInOrder_iff (r s : StampedLane T) :
    lanesInOrder r s = true ↔ laneKey r ≤ laneKey s := by
  rw [lanesInOrder, laneKey, laneKey, Prod.Lex.toLex_le_toLex, Bool.or_eq_true, Bool.and_eq_true,
    decide_eq_true_eq, decide_eq_true_eq, beq_iff_eq]

theorem isAfter_iff {cursor : T × ℕ} {r : StampedLane T} :
    isAfter (some cursor) r = true ↔ toLex cursor < laneKey r := by
  rw [isAfter, Option.all_some, laneKey, Prod.Lex.toLex_lt_toLex, Bool.or_eq_true,
    Bool.and_eq_true, decide_eq_true_eq, decide_eq_true_eq, beq_iff_eq, eq_comm (a := r.updatedAt)]

theorem isAfter_of_le {after : Option (T × ℕ)} {r s : StampedLane T} (h : isAfter after r = true)
    (hle : laneKey r ≤ laneKey s) : isAfter after s = true := by
  cases after with
  | none => rfl
  | some cursor => exact isAfter_iff.mpr (lt_of_lt_of_le (isAfter_iff.mp h) hle)

omit [LinearOrder T] in
/-- The limit of every page is the bounded page size. -/
theorem normalizedLimit_boundedPageSize (query : LaneQuery) :
    normalizedLimit (some (boundedPageSize query : ℤ)) = boundedPageSize query ∧
      0 < boundedPageSize query := by
  have hbound : 0 < boundedPageSize query ∧ boundedPageSize query ≤ 1000 := by
    unfold boundedPageSize
    split
    case h_1 n h =>
      have hpos : isCounter n = true ∧ 0 < n := by
        simpa using (Option.filter_eq_some_iff.mp h).2
      omega
    case h_2 => omega
  have hcounter : isCounter (boundedPageSize query : ℤ) = true := by
    rw [isCounter, Bool.and_eq_true, decide_eq_true_eq, decide_eq_true_eq]
    omega
  refine ⟨?_, hbound.1⟩
  rw [normalizedLimit, Option.filter_some_pos hcounter]
  change min (boundedPageSize query : ℤ).toNat 1000 = _
  omega

/-! ## 6. The writes -/

section Writes

variable {clock : T} {lanes : List (StampedLane T)}

/-- A row is the only one of its work item. -/
theorem StampedBy.eq_of_id (h : StampedBy clock lanes) {r s : StampedLane T} (hr : r ∈ lanes)
    (hs : s ∈ lanes) (hid : r.workItemId = s.workItemId) : r = s :=
  Table.eq_of_key_eq h.nodup hr hs hid

theorem StampedBy.tick (h : StampedBy clock lanes) (now : T) : StampedBy (max clock now) lanes :=
  ⟨h.nodup, h.isId, fun r hr => le_max_of_le_left (h.past r hr)⟩

theorem StampedBy.transition (h : StampedBy clock lanes) (row : Preparation)
    (changes : Preparation → Preparation) :
    StampedBy clock (stampPreparationCas clock lanes row changes) := by
  constructor
  · have hids : (stampPreparationCas clock lanes row changes).map (fun r => r.workItemId) =
        lanes.map fun r => r.workItemId := Table.map_key_updateWhere fun _ _ => rfl
    rw [hids]
    exact h.nodup
  · intro r hr
    rcases Table.mem_updateWhere_cases hr with ⟨hmem, -⟩ | ⟨s, hs, -, rfl⟩
    · exact h.isId r hmem
    · exact h.isId s hs
  · intro r hr
    rcases Table.mem_updateWhere_cases hr with ⟨hmem, -⟩ | ⟨s, -, -, rfl⟩
    · exact h.past r hmem
    · exact le_refl clock

theorem StampedBy.insert (h : StampedBy clock lanes) (row : Preparation) :
    StampedBy clock (insertPreparation clock lanes row) := by
  unfold insertPreparation
  split
  case isFalse => exact h
  case isTrue hnew =>
    constructor
    · rw [List.map_append, List.nodup_append]
      refine ⟨h.nodup, List.nodup_singleton _, ?_⟩
      intro a ha b hb
      obtain ⟨r, hr, rfl⟩ := List.mem_map.mp ha
      rw [List.mem_singleton.mp hb]
      exact hnew.2 r hr
    · intro r hr
      rcases List.mem_append.mp hr with hr | hr
      · exact h.isId r hr
      · rw [List.mem_singleton.mp hr]
        exact hnew.1
    · intro r hr
      rcases List.mem_append.mp hr with hr | hr
      · exact h.past r hr
      · rw [List.mem_singleton.mp hr]

/-- **A transition moves a row forward**: its stamp is no older, and its work item is the same. -/
theorem transition_forward (h : StampedBy clock lanes) (row : Preparation)
    (changes : Preparation → Preparation) {r : StampedLane T} (hr : r ∈ lanes) :
    ∃ s ∈ stampPreparationCas clock lanes row changes,
      s.workItemId = r.workItemId ∧ laneKey r ≤ laneKey s := by
  by_cases hp : isVersionOf row r.toPreparation = true
  · refine ⟨_, Table.mem_updateWhere_of hr hp, rfl, ?_⟩
    rw [laneKey, laneKey, Prod.Lex.toLex_le_toLex]
    rcases lt_or_eq_of_le (h.past r hr) with hlt | heq
    · exact Or.inl hlt
    · exact Or.inr ⟨heq, le_refl _⟩
  · exact ⟨r, Table.mem_updateWhere_of_not hr (Bool.eq_false_iff.mpr hp), rfl, le_refl _⟩

end Writes

/-! ## 7. What one step of the generator does -/

/-- A page as the generator has read it. -/
structure IsPage (query : LaneQuery) (page : List (StampedLane T)) : Prop where
  nonempty : page ≠ []
  isId : ∀ r ∈ page, isWorkItemId r.workItemId = true
  length_le : page.length ≤ boundedPageSize query

/-- The steps of the generator. -/
inductive NextOf (query : LaneQuery) (lanes : List (StampedLane T)) (it : LaneIterator T) :
    LaneIterator T → Prop
  /-- It has returned. -/
  | stays (h : it.phase = .done) : NextOf query lanes it it
  /-- It reads a page behind its cursor: the selected rows are on it or behind it. -/
  | reads (h : it.phase = .reading) (page : List (StampedLane T)) (hpage : IsPage query page)
      (hcovers : ∀ r ∈ lanes, query.selects r.toPreparation = true → isAfter it.after r = true →
        r ∈ page ∨ (page.length = boundedPageSize query ∧ ∀ b ∈ page, laneKey b < laneKey r))
      (hless : ∀ last, page.getLast? = some last →
        lanes.countP (fun r => query.selects r.toPreparation && decide (laneKey last < laneKey r)) +
          page.length ≤
        lanes.countP fun r => query.selects r.toPreparation && isAfter it.after r) :
      NextOf query lanes it { it with phase := .yielding page page }
  /-- It finds no row behind its cursor. -/
  | returns (h : it.phase = .reading)
      (hnone : ∀ r ∈ lanes, query.selects r.toPreparation = true → isAfter it.after r = false) :
      NextOf query lanes it { it with phase := .done }
  /-- It goes past a row it has yielded before. -/
  | skips (page rest : List (StampedLane T)) (row : StampedLane T)
      (h : it.phase = .yielding page (row :: rest)) (hseen : row.workItemId ∈ it.seen) :
      NextOf query lanes it { it with phase := .yielding page rest }
  /-- It yields a row. -/
  | yields (page rest : List (StampedLane T)) (row : StampedLane T)
      (h : it.phase = .yielding page (row :: rest)) (hnew : row.workItemId ∉ it.seen) :
      NextOf query lanes it { it with
        phase := .yielding page rest
        seen := it.seen ++ [row.workItemId]
        yielded := it.yielded ++ [row] }
  /-- It leaves a full page, and goes on behind its last row. -/
  | turns (page : List (StampedLane T)) (last : StampedLane T) (h : it.phase = .yielding page [])
      (hlast : page.getLast? = some last) (hfull : page.length = boundedPageSize query) :
      NextOf query lanes it { it with
        after := some (last.updatedAt, last.workItemId), phase := .reading }
  /-- It leaves a short page, the last one. -/
  | ends (page : List (StampedLane T)) (last : StampedLane T) (h : it.phase = .yielding page [])
      (hlast : page.getLast? = some last) (hshort : page.length < boundedPageSize query) :
      NextOf query lanes it { it with
        after := some (last.updatedAt, last.workItemId), phase := .done }

/-- The page in work is one the generator has read. -/
def LaneIterator.HasPage (query : LaneQuery) (it : LaneIterator T) : Prop :=
  ∀ page rest, it.phase = .yielding page rest → IsPage query page

/-- A query with a blank target branch selects nothing. -/
theorem selects_of_throws {query : LaneQuery} {row : Preparation}
    (h : query.targetBranch.any (fun b => (normalizeOptionalString (some b)).isNone) = true) :
    query.selects row = false := by
  obtain ⟨branch, hbranch, hnone⟩ := (Option.any_eq_true _ _).mp h
  rw [LaneQuery.selects, hbranch, Option.all_some, Option.isNone_iff_eq_none.mp hnone]
  simp

section Steps

variable {query : LaneQuery} {clock : T} {lanes : List (StampedLane T)} {it : LaneIterator T}

/-- A read of the generator is one of the two above. -/
theorem nextOf_read (hstamped : StampedBy clock lanes) (h : it.phase = .reading) :
    NextOf query lanes it (it.next query lanes) := by
  have hsize := normalizedLimit_boundedPageSize query
  unfold LaneIterator.next listWaitingLanePreparations
  rw [h, hsize.1]
  by_cases hthrows :
      query.targetBranch.any (fun b => (normalizeOptionalString (some b)).isNone) = true
  · rw [if_pos hthrows]
    refine .returns h fun r _ hsel => ?_
    rw [selects_of_throws hthrows] at hsel
    cases hsel
  · rw [if_neg hthrows]
    generalize hpage : pageOf lanesInOrder
      (fun r => query.selects r.toPreparation && isAfter it.after r) (boundedPageSize query) lanes =
        page
    cases page with
    | nil =>
      refine .returns h fun r hr hsel => ?_
      by_contra hafter
      have hp : (query.selects r.toPreparation && isAfter it.after r) = true := by
        rw [hsel, Bool.true_and, Bool.not_eq_false] at *
        exact hafter
      exact pageOf_ne_nil hsize.2 hr hp hpage
    | cons first rest =>
      refine .reads h (first :: rest) ⟨List.cons_ne_nil _ _, ?_, ?_⟩ ?_ ?_
      · intro r hr
        exact hstamped.isId r (mem_of_mem_pageOf (hpage ▸ hr)).1
      · rw [← hpage]
        exact length_pageOf_le
      · intro r hr hsel hafter
        by_cases hon : r ∈ first :: rest
        · exact Or.inl hon
        · have hp : (query.selects r.toPreparation && isAfter it.after r) = true := by
            rw [hsel, hafter]
            rfl
          rw [← hpage] at hon ⊢
          refine Or.inr (lt_of_not_mem_pageOf lanesInOrder_iff (fun a ha b hb hab => ?_) hr hp hon)
          exact hstamped.eq_of_id ha hb (congrArg Prod.snd (toLex.injective hab))
      · intro last hlast
        rw [← hpage] at hlast ⊢
        have hbound := fun a ha =>
          le_last_of_mem_pageOf lanesInOrder_iff (a := a) ha hlast
        have hcount := count_beyond_add_length hbound
        refine le_trans (Nat.add_le_add_right (List.countP_mono_left fun r _ hr => ?_) _) hcount
        rw [Bool.and_eq_true, decide_eq_true_eq] at hr
        have hmem := mem_of_mem_pageOf (List.mem_of_getLast? hlast)
        rw [Bool.and_eq_true] at hmem
        rw [Bool.and_eq_true, Bool.and_eq_true, decide_eq_true_eq]
        exact ⟨⟨hr.1, isAfter_of_le hmem.2.2 hr.2.le⟩, hr.2⟩

/-- **Every step of the generator is one of these.** -/
theorem nextOf_next (hstamped : StampedBy clock lanes) (hpage : it.HasPage query) :
    NextOf query lanes it (it.next query lanes) := by
  cases hphase : it.phase with
  | reading => exact nextOf_read hstamped hphase
  | done =>
    rw [LaneIterator.next, hphase]
    exact .stays hphase
  | yielding page rest =>
    cases rest with
    | cons row rest =>
      rw [LaneIterator.next, hphase]
      dsimp only
      by_cases hseen : row.workItemId ∈ it.seen
      · rw [if_pos (List.contains_iff_mem.mpr hseen)]
        exact .skips page rest row hphase hseen
      · rw [if_neg (mt List.contains_iff_mem.mp hseen)]
        exact .yields page rest row hphase hseen
    | nil =>
      have his := hpage page [] hphase
      obtain ⟨last, hlast⟩ := Option.ne_none_iff_exists'.mp
        (mt List.getLast?_eq_none_iff.mp his.nonempty)
      have hcursor : waitingLanePreparationCursor last = some (last.updatedAt, last.workItemId) :=
        if_pos (his.isId last (List.mem_of_getLast? hlast))
      rw [LaneIterator.next, hphase]
      dsimp only
      rw [hlast, Option.bind_some, hcursor]
      dsimp only
      by_cases hshort : page.length < boundedPageSize query
      · rw [if_pos hshort]
        exact .ends page last hphase hlast hshort
      · rw [if_neg hshort]
        exact .turns page last hphase hlast (le_antisymm his.length_le (not_lt.mp hshort))

end Steps

end PosseClient
