/-
# The enumeration of the waiting lanes is complete

The runs of `enumerationStep`.  A row that is selected until the generator returns is ahead of it or
has been yielded: it is left on the page in work, or it lies behind the cursor of the next read, and
a write only moves it further on.
-/
import PosseClient.Queue.LaneEnumeration
import PosseClient.Lib.Runs

namespace PosseClient

variable {T : Type*} [LinearOrder T]

/-! ## 1. What is still to come -/

/-- The row has been yielded, or the generator will come to it: it is left on the page, or it lies
behind the cursor of the next read. -/
def IsAhead (query : LaneQuery) (it : LaneIterator T) (r : StampedLane T) : Prop :=
  r.workItemId ∈ it.seen ∨
    match it.phase with
    | .reading => isAfter it.after r = true
    | .yielding page rest => (∃ s ∈ rest, s.workItemId = r.workItemId) ∨
        (page.length = boundedPageSize query ∧ ∀ b ∈ page, laneKey b < laneKey r)
    | .done => False

/-- The work item has a row, and it is ahead. -/
def Enumeration.Covers (query : LaneQuery) (id : ℕ) (e : Enumeration T) : Prop :=
  ∃ r ∈ e.lanes, r.workItemId = id ∧ IsAhead query e.iterator r

/-- The books of a generator: it has seen what it has yielded, and nothing twice. -/
structure LaneIterator.Books (query : LaneQuery) (it : LaneIterator T) : Prop where
  seen_eq : it.seen = it.yielded.map fun r => r.workItemId
  nodup : it.seen.Nodup
  hasPage : it.HasPage query

/-- A stamped table and a generator whose books are right. -/
structure Enumeration.Sound (query : LaneQuery) (e : Enumeration T) : Prop where
  stamped : StampedBy e.clock e.lanes
  books : e.iterator.Books query

section Ahead

variable {query : LaneQuery} {lanes : List (StampedLane T)} {it it' : LaneIterator T}
  {r : StampedLane T}

/-- A row that moves forward stays ahead. -/
theorem IsAhead.forward (h : IsAhead query it r) {s : StampedLane T}
    (hid : s.workItemId = r.workItemId) (hle : laneKey r ≤ laneKey s) : IsAhead query it s := by
  unfold IsAhead at h ⊢
  rw [hid]
  refine h.imp_right fun h => ?_
  split at h
  · exact isAfter_of_le h hle
  · exact h.imp_right fun hbehind =>
      ⟨hbehind.1, fun b hb => lt_of_lt_of_le (hbehind.2 b hb) hle⟩
  · exact h

/-- **A step of the generator loses no selected row.** -/
theorem IsAhead.next (hnext : NextOf query lanes it it') (hr : r ∈ lanes)
    (h : IsAhead query it r) (hsel : it.phase ≠ .done → query.selects r.toPreparation = true) :
    IsAhead query it' r := by
  cases hnext with
  | stays => exact h
  | reads hphase page hpage hcovers =>
    unfold IsAhead at h ⊢
    rw [hphase] at h
    refine h.imp_right fun hafter => ?_
    refine (hcovers r hr (hsel (by rw [hphase]; exact nofun)) hafter).imp_left fun hon => ?_
    exact ⟨r, hon, rfl⟩
  | returns hphase hnone =>
    unfold IsAhead at h ⊢
    rw [hphase] at h
    refine h.imp_right fun hafter => ?_
    rw [hnone r hr (hsel (by rw [hphase]; exact nofun))] at hafter
    cases hafter
  | skips page rest row hphase hseen =>
    unfold IsAhead at h ⊢
    rw [hphase] at h
    rcases h with hold | ⟨s, hs, hid⟩ | hbehind
    · exact Or.inl hold
    · rcases List.mem_cons.mp hs with rfl | hs
      · exact Or.inl (hid ▸ hseen)
      · exact Or.inr (Or.inl ⟨s, hs, hid⟩)
    · exact Or.inr (Or.inr hbehind)
  | yields page rest row hphase =>
    unfold IsAhead at h ⊢
    rw [hphase] at h
    rcases h with hold | ⟨s, hs, hid⟩ | hbehind
    · exact Or.inl (List.mem_append_left _ hold)
    · rcases List.mem_cons.mp hs with rfl | hs
      · exact Or.inl (List.mem_append_right _ (List.mem_singleton.mpr hid.symm))
      · exact Or.inr (Or.inl ⟨s, hs, hid⟩)
    · exact Or.inr (Or.inr hbehind)
  | turns page last hphase hlast =>
    unfold IsAhead at h ⊢
    rw [hphase] at h
    refine h.imp_right fun hleft => ?_
    rcases hleft with ⟨s, hs, -⟩ | ⟨-, hbehind⟩
    · cases hs
    · exact isAfter_iff.mpr (hbehind last (List.mem_of_getLast? hlast))
  | ends page last hphase _ hshort =>
    unfold IsAhead at h ⊢
    rw [hphase] at h
    refine h.imp_right fun hleft => ?_
    rcases hleft with ⟨s, hs, -⟩ | ⟨hfull, -⟩
    · cases hs
    · omega

/-- A step of the generator keeps its books. -/
theorem LaneIterator.Books.next (h : it.Books query) (hnext : NextOf query lanes it it') :
    it'.Books query := by
  have hold := h.hasPage
  cases hnext with
  | stays => exact h
  | reads _ page hpage =>
    refine ⟨h.seen_eq, h.nodup, fun page' rest' hphase' => ?_⟩
    cases hphase'
    exact hpage
  | returns => exact ⟨h.seen_eq, h.nodup, nofun⟩
  | skips page rest row hphase =>
    refine ⟨h.seen_eq, h.nodup, fun page' rest' hphase' => ?_⟩
    cases hphase'
    exact hold _ _ hphase
  | yields page rest row hphase hnew =>
    refine ⟨?_, ?_, fun page' rest' hphase' => ?_⟩
    · rw [List.map_append, ← h.seen_eq]
      rfl
    · rw [List.nodup_append]
      refine ⟨h.nodup, List.nodup_singleton _, fun a ha b hb hab => ?_⟩
      rw [hab, List.mem_singleton.mp hb] at ha
      exact hnew ha
    · cases hphase'
      exact hold _ _ hphase
  | turns => exact ⟨h.seen_eq, h.nodup, nofun⟩
  | ends => exact ⟨h.seen_eq, h.nodup, nofun⟩

end Ahead

section Run

variable {query : LaneQuery} {e : Enumeration T}

theorem Enumeration.Sound.nextOf (h : e.Sound query) :
    NextOf query e.lanes e.iterator (e.iterator.next query e.lanes) :=
  nextOf_next h.stamped h.books.hasPage

/-- Every step keeps the enumeration sound. -/
theorem Enumeration.Sound.step (h : e.Sound query) (op : EnumerationOp T) :
    (enumerationStep query e op).Sound query := by
  cases op with
  | tick now => exact { h with stamped := h.stamped.tick now }
  | transition row changes => exact { h with stamped := h.stamped.transition row changes }
  | insert row => exact { h with stamped := h.stamped.insert row }
  | next => exact { h with books := h.books.next h.nextOf }

/-- **Every step covers what was covered**, if the query selects it until the end. -/
theorem Enumeration.Covers.step {id : ℕ} (hsound : e.Sound query) (h : e.Covers query id)
    (hsel : ¬e.IsDone → e.Selects query id) (op : EnumerationOp T) :
    (enumerationStep query e op).Covers query id := by
  obtain ⟨r, hr, hid, hahead⟩ := h
  cases op with
  | tick now => exact ⟨r, hr, hid, hahead⟩
  | transition row changes =>
    obtain ⟨s, hs, hsid, hle⟩ := transition_forward hsound.stamped row changes hr
    exact ⟨s, hs, hsid.trans hid, hahead.forward hsid hle⟩
  | insert row =>
    refine ⟨r, ?_, hid, hahead⟩
    change r ∈ insertPreparation e.clock e.lanes row
    unfold insertPreparation
    split
    · exact List.mem_append_left _ hr
    · exact hr
  | next =>
    refine ⟨r, hr, hid, hahead.next hsound.nextOf hr fun hnot => ?_⟩
    obtain ⟨s, hs, hsid, hselects⟩ := hsel hnot
    rw [hsound.stamped.eq_of_id hr hs (hid.trans hsid.symm)]
    exact hselects

theorem Enumeration.Sound.run (h : e.Sound query) (ops : List (EnumerationOp T)) :
    (Runs.run (enumerationStep query) e ops).Sound query :=
  Runs.run_invariant_of_forall (fun _ op hs => hs.step op) h

/-- The covered work item of a run that selects it until the end. -/
theorem Enumeration.Covers.run {id : ℕ} (hsound : e.Sound query) (h : e.Covers query id)
    {ops : List (EnumerationOp T)}
    (hsel : Runs.Meets (enumerationStep query) (fun e _ => ¬e.IsDone → e.Selects query id) e ops) :
    (Runs.run (enumerationStep query) e ops).Covers query id := by
  have hstep : ∀ (e : Enumeration T) op, e.Sound query ∧ e.Covers query id →
      (¬e.IsDone → e.Selects query id) →
      (enumerationStep query e op).Sound query ∧ (enumerationStep query e op).Covers query id :=
    fun e op hboth hs => ⟨hboth.1.step op, hboth.2.step hboth.1 hs op⟩
  exact (Runs.run_invariant hstep ⟨hsound, h⟩ hsel).2

end Run

/-! ## 2. The end -/

/-- The selected rows behind a cursor. -/
def rowsAfter (query : LaneQuery) (lanes : List (StampedLane T)) (after : Option (T × ℕ)) : ℕ :=
  lanes.countP fun r => query.selects r.toPreparation && isAfter after r

/-- The steps a generator can take until it returns, if nobody writes. -/
def LaneIterator.work (query : LaneQuery) (lanes : List (StampedLane T)) (it : LaneIterator T) :
    ℕ :=
  match it.phase with
  | .reading => 4 * rowsAfter query lanes it.after + 1
  | .yielding page rest =>
    rest.length + 1 +
      page.getLast?.elim 0 fun last =>
        4 * rowsAfter query lanes (last.updatedAt, last.workItemId) + 1
  | .done => 0

/-- A step that writes to no row. -/
def EnumerationOp.isQuiet : EnumerationOp T → Bool
  | .tick _ | .next => true
  | .transition _ _ | .insert _ => false

/-- A step of the generator. -/
def EnumerationOp.isNext : EnumerationOp T → Bool
  | .next => true
  | .tick _ | .transition _ _ | .insert _ => false

section End

variable {query : LaneQuery}

theorem rowsAfter_last {lanes : List (StampedLane T)} (last : StampedLane T) :
    rowsAfter query lanes (last.updatedAt, last.workItemId) =
      lanes.countP fun r =>
        query.selects r.toPreparation && decide (laneKey last < laneKey r) := by
  refine List.countP_congr fun r _ => ?_
  rw [Bool.and_eq_true, Bool.and_eq_true, isAfter_iff, decide_eq_true_eq]
  rfl

/-- **Every step of the generator takes work off**, until it has returned. -/
theorem work_next_lt {lanes : List (StampedLane T)} {it it' : LaneIterator T}
    (hnext : NextOf query lanes it it') (h : it.phase ≠ .done) :
    it'.work query lanes < it.work query lanes := by
  cases hnext with
  | stays hdone => exact absurd hdone h
  | reads hphase page hpage hcovers hless =>
    obtain ⟨last, hlast⟩ := Option.ne_none_iff_exists'.mp
      (mt List.getLast?_eq_none_iff.mp hpage.nonempty)
    have hpos : 0 < page.length := List.length_pos_iff.mpr hpage.nonempty
    have hcount := hless last hlast
    rw [← rowsAfter_last, ← rowsAfter] at hcount
    rw [LaneIterator.work, LaneIterator.work, hphase]
    dsimp only
    rw [hlast, Option.elim_some]
    omega
  | returns hphase =>
    rw [LaneIterator.work, LaneIterator.work, hphase]
    exact Nat.succ_pos _
  | skips page rest row hphase =>
    rw [LaneIterator.work, LaneIterator.work, hphase]
    dsimp only
    rw [List.length_cons]
    omega
  | yields page rest row hphase =>
    rw [LaneIterator.work, LaneIterator.work, hphase]
    dsimp only
    rw [List.length_cons]
    omega
  | turns page last hphase hlast =>
    rw [LaneIterator.work, LaneIterator.work, hphase]
    dsimp only
    rw [hlast, Option.elim_some]
    omega
  | ends page last hphase =>
    rw [LaneIterator.work, LaneIterator.work, hphase]
    dsimp only
    omega

/-- Nobody writes in a quiet run. -/
theorem lanes_of_quiet {e : Enumeration T} {op : EnumerationOp T} (h : op.isQuiet = true) :
    (enumerationStep query e op).lanes = e.lanes := by
  cases op with
  | tick | next => rfl
  | transition | insert => cases h

/-- **The generator returns** in a quiet run that lets it take its steps. -/
theorem isDone_of_quiet {e : Enumeration T} (hsound : e.Sound query)
    {ops : List (EnumerationOp T)} (hquiet : ∀ op ∈ ops, op.isQuiet = true)
    (hwork : e.iterator.work query e.lanes ≤ ops.countP EnumerationOp.isNext) :
    (Runs.run (enumerationStep query) e ops).IsDone := by
  induction ops generalizing e with
  | nil =>
    have hzero : e.iterator.work query e.lanes = 0 := Nat.le_zero.mp hwork
    unfold LaneIterator.work at hzero
    split at hzero
    · omega
    · omega
    · assumption
  | cons op ops ih =>
    refine ih (hsound.step op) (fun o ho => hquiet o (List.mem_cons_of_mem _ ho)) ?_
    rw [lanes_of_quiet (hquiet op List.mem_cons_self)]
    rw [List.countP_cons] at hwork
    cases op with
    | tick now => exact hwork
    | transition | insert => exact absurd (hquiet _ List.mem_cons_self) nofun
    | next =>
      change (e.iterator.next query e.lanes).work query e.lanes ≤ _
      by_cases hdone : e.iterator.phase = .done
      · have hzero : (e.iterator.next query e.lanes).work query e.lanes = 0 := by
          rw [LaneIterator.next, hdone]
          dsimp only
          rw [LaneIterator.work, hdone]
        omega
      · have hlt := work_next_lt hsound.nextOf hdone
        have hcounted : EnumerationOp.isNext (.next : EnumerationOp T) = true := rfl
        rw [if_pos hcounted] at hwork
        omega

end End

/-! ## 3. Completeness -/

/-- A new enumeration of a stamped table. -/
theorem Enumeration.sound_start {query : LaneQuery} {clock : T} {lanes : List (StampedLane T)}
    (h : StampedBy clock lanes) : ({ lanes, clock } : Enumeration T).Sound query :=
  ⟨h, rfl, List.nodup_nil, nofun⟩

/-- **The enumeration is complete under concurrent change.**  From any stamped table, for every
query and page size and over every interleaving of the generator with transitions, inserts and the
clock: no row is yielded twice; a work item whose row is there and selected from before the first
read until the generator returns is yielded exactly once when it has; and from every state reached,
enough steps of the generator with no more writes end it. -/
theorem waitingLane_enumeration_complete (query : LaneQuery) {clock : T}
    {lanes : List (StampedLane T)} (h : StampedBy clock lanes) (ops : List (EnumerationOp T)) :
    let start : Enumeration T := { lanes, clock }
    let reached := Runs.run (enumerationStep query) start ops
    reached.yieldedIds.Nodup ∧
      (reached.IsDone → ∀ id,
        Runs.Meets (enumerationStep query) (fun e _ => ¬e.IsDone → e.Selects query id) start ops →
        reached.yieldedIds.count id = 1) ∧
      ∃ n, ∀ rest : List (EnumerationOp T), (∀ op ∈ rest, op.isQuiet = true) →
        n ≤ rest.countP EnumerationOp.isNext →
        (Runs.run (enumerationStep query) reached rest).IsDone := by
  intro start reached
  have hstart : start.Sound query := Enumeration.sound_start h
  have hreached : reached.Sound query := hstart.run ops
  have hids : reached.yieldedIds = reached.iterator.seen := hreached.books.seen_eq.symm
  refine ⟨hids ▸ hreached.books.nodup, fun hdone id hsel => ?_, ?_⟩
  · rw [hids]
    refine List.count_eq_one_of_mem hreached.books.nodup ?_
    have hfirst : start.Selects query id := by
      cases ops with
      | nil => cases hdone
      | cons op ops => exact hsel.1 nofun
    obtain ⟨r, hr, hid, -⟩ := hfirst
    have hcovers : start.Covers query id := ⟨r, hr, hid, Or.inr rfl⟩
    obtain ⟨s, -, hsid, hahead⟩ := hcovers.run hstart hsel
    rcases hahead with hseen | hnever
    · exact hsid ▸ hseen
    · change match reached.iterator.phase with
        | .reading => _
        | .yielding _ _ => _
        | .done => False at hnever
      rw [hdone] at hnever
      exact hnever.elim
  · exact ⟨reached.iterator.work query reached.lanes, fun rest hquiet hn =>
      isDone_of_quiet hreached hquiet hn⟩

/-- In a quiet run the query goes on selecting what it selects. -/
theorem meets_selects_of_quiet {query : LaneQuery} {id : ℕ} {e : Enumeration T}
    (h : e.Selects query id) {ops : List (EnumerationOp T)}
    (hquiet : ∀ op ∈ ops, op.isQuiet = true) :
    Runs.Meets (enumerationStep query) (fun e _ => ¬e.IsDone → e.Selects query id) e ops := by
  induction ops generalizing e with
  | nil => trivial
  | cons op ops ih =>
    refine ⟨fun _ => h, ih ?_ fun o ho => hquiet o (List.mem_cons_of_mem _ ho)⟩
    rw [Enumeration.Selects, lanes_of_quiet (hquiet op List.mem_cons_self)]
    exact h

/-- Pages of one row: while the generator holds the row of work item 4, it is moved behind the row
of 7, and a row of 9 is inserted; 4 is yielded once. -/
theorem waitingLane_enumeration_complete_moved :
    let row : Preparation := { workItemId := 4, demandReason := .dev, targetBranch := "main" }
    let other : Preparation := { workItemId := 7, demandReason := .dev, targetBranch := "main" }
    let start : Enumeration ℕ :=
      { lanes := [{ row with updatedAt := 1 }, { other with updatedAt := 2 }], clock := 3 }
    let writes : List (EnumerationOp ℕ) :=
      [.next, .transition row fun r => { r with state := .ready },
        .insert { row with workItemId := 9 }]
    ∃ n, (Runs.run (enumerationStep { pageSize := some 1 }) start
        (writes ++ List.replicate n .next)).IsDone ∧
      (Runs.run (enumerationStep { pageSize := some 1 }) start
        (writes ++ List.replicate n .next)).yieldedIds.count 4 = 1 := by
  intro row other start writes
  have hstamped : StampedBy start.clock start.lanes := by
    constructor <;> decide
  obtain ⟨-, -, n, hn⟩ := waitingLane_enumeration_complete { pageSize := some 1 } hstamped writes
  have hquiet : ∀ op ∈ List.replicate n (.next : EnumerationOp ℕ), op.isQuiet = true := by
    intro op hop
    rw [List.eq_of_mem_replicate hop]
    rfl
  have hsteps : n ≤ (List.replicate n (.next : EnumerationOp ℕ)).countP EnumerationOp.isNext := by
    simp [List.countP_replicate, EnumerationOp.isNext]
  have hdone := hn (List.replicate n .next) hquiet hsteps
  rw [← Runs.run_append] at hdone
  refine ⟨n, hdone, ?_⟩
  refine (waitingLane_enumeration_complete { pageSize := some 1 } hstamped _).2.1 hdone 4 ?_
  have hwrites : Runs.Meets (enumerationStep { pageSize := some 1 })
      (fun e _ => ¬e.IsDone → e.Selects { pageSize := some 1 } 4) start writes :=
    ⟨fun _ => ⟨_, List.mem_cons_self, rfl, rfl⟩, fun _ => ⟨_, List.mem_cons_self, rfl, rfl⟩,
      fun _ => ⟨_, List.mem_cons_self, rfl, rfl⟩, trivial⟩
  have hselected : (Runs.run (enumerationStep { pageSize := some 1 }) start writes).Selects
      { pageSize := some 1 } 4 := ⟨_, List.mem_cons_self, rfl, rfl⟩
  exact Runs.meets_append.mpr ⟨hwrites, meets_selects_of_quiet hselected hquiet⟩

end PosseClient
