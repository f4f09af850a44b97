/-
# The tail walk of the candidate scan

The cycles of `RunnableCandidateScan` under one key: the tail calls between two resets of its
position.

* `cursor_eq_sqlPosition_iff`: the cursor is the ordering tuple of its row exactly where the two
  readers of the payload see the same kind.
* `CycleBooks`: what holds in the middle of a cycle.
* `candidateScan_serves`: every completed cycle returns every job that its calls could select once,
  in the order of the query, where the kinds agree and the limits are positive integers.
-/
import PosseClient.Queue.CandidateScan
import PosseClient.Lib.Runs

namespace PosseClient

open Json KeysetPages

variable {T : Type*} [LinearOrder T] {readers : PayloadReaders}

/-! ## 1. Positions -/

omit [LinearOrder T] in
theorem cursor_eq_sqlPosition_iff {job : ScanJob T} :
    cursor readers job = sqlPosition readers job ↔
      cursorKind readers job = sqlKind readers job := by
  constructor
  · intro h
    exact congrArg ScanCursor.kind h
  · intro h
    rw [cursor, sqlPosition, h]

/-- The place of a job in the order of the query. -/
def scanKey (readers : PayloadReaders) (job : ScanJob T) : ℕ ×ₗ ℕ ×ₗ T ×ₗ ℕ :=
  (sqlPosition readers job).key

theorem scanInOrder_iff (a b : ScanJob T) :
    scanInOrder readers a b = true ↔ scanKey readers a ≤ scanKey readers b := decide_eq_true_iff

theorem isBehind_some {position : ScanCursor T} {job : ScanJob T} :
    isBehind readers (some position) job = true ↔ position.key < scanKey readers job :=
  decide_eq_true_iff

omit [LinearOrder T] in
/-- The place of a job tells its id. -/
theorem id_of_scanKey {a b : ScanJob T} (h : scanKey readers a = scanKey readers b) :
    a.id = b.id := by
  have hparts := congrArg (fun k => (ofLex (ofLex (ofLex k).2).2).2) h
  exact hparts

theorem nodup_of_sorted {jobs : List (ScanJob T)}
    (h : jobs.Pairwise fun a b => scanKey readers a < scanKey readers b) : jobs.Nodup := by
  refine h.imp fun hab heq => ?_
  rw [heq] at hab
  exact lt_irrefl _ hab

theorem safeLimit_natCast {n : ℕ} (h : 0 < n) : safeLimit (n : ℚ) = n := by
  rw [safeLimit, Int.floor_natCast]
  omega

/-! ## 2. One tail call -/

/-- The calls `reads` select from the jobs `jobs`, with positive integers as limits, and the two
kinds of every job agree. -/
structure ServesFrom (readers : PayloadReaders) (jobs : List (ScanJob T))
    (reads : List (TailRead T)) : Prop where
  ids : (jobs.map ScanJob.id).Nodup
  kinds : ∀ job ∈ jobs, cursorKind readers job = sqlKind readers job
  limits : ∀ read ∈ reads, ∃ n : ℕ, 0 < n ∧ read.limit = n
  selected : ∀ read ∈ reads, read.selected.Subperm jobs

/-- What holds in the middle of a cycle, at the position that its last call has left. -/
structure CycleBooks (readers : PayloadReaders) (jobs : List (ScanJob T))
    (position : Option (ScanCursor T)) (reads : List (TailRead T)) : Prop where
  sorted : (cycleRows reads).Pairwise fun a b => scanKey readers a < scanKey readers b
  subset : cycleRows reads ⊆ jobs
  progress : reads.length ≤ (cycleRows reads).length
  position_eq : position = ((cycleRows reads).getLast?).map (sqlPosition readers)
  covers : ∀ job, (∀ read ∈ reads, job ∈ read.selected) →
    job ∈ cycleRows reads ∨ isBehind readers position job = true

section Cycle

variable {jobs : List (ScanJob T)} {reads : List (TailRead T)} {read : TailRead T}

omit [LinearOrder T] in
theorem ServesFrom.init (h : ServesFrom readers jobs (reads ++ [read])) :
    ServesFrom readers jobs reads :=
  ⟨h.ids, h.kinds, fun r hr => h.limits r (List.mem_append_left _ hr),
    fun r hr => h.selected r (List.mem_append_left _ hr)⟩

omit [LinearOrder T] in
/-- Jobs with one place are one job. -/
theorem eq_of_scanKey (hids : (jobs.map ScanJob.id).Nodup) {a b : ScanJob T} (ha : a ∈ jobs)
    (hb : b ∈ jobs) (h : scanKey readers a = scanKey readers b) : a = b :=
  Table.eq_of_key_eq hids ha hb (id_of_scanKey h)

theorem cycleBooks_nil : CycleBooks readers jobs none [] :=
  ⟨List.Pairwise.nil, fun _ h => absurd h List.not_mem_nil, le_refl _, rfl,
    fun _ _ => Or.inr rfl⟩

omit [LinearOrder T] in
theorem cycleRows_append : cycleRows (reads ++ [read]) = cycleRows reads ++ read.rows := by
  rw [cycleRows, List.flatMap_append, List.flatMap_singleton]
  rfl

/-- The rows of a call lie behind every row before. -/
theorem CycleBooks.lt_of_mem {position : Option (ScanCursor T)}
    (h : CycleBooks readers jobs position reads) {a b : ScanJob T} (ha : a ∈ cycleRows reads)
    (hb : isBehind readers position b = true) : scanKey readers a < scanKey readers b := by
  rw [h.position_eq] at hb
  cases hlast : (cycleRows reads).getLast? with
  | none =>
    rw [List.getLast?_eq_none_iff.mp hlast] at ha
    exact absurd ha List.not_mem_nil
  | some last =>
    rw [hlast] at hb
    have hbehind : scanKey readers last < scanKey readers b := isBehind_some.mp hb
    refine lt_of_le_of_lt ?_ hbehind
    obtain ⟨front, hfront⟩ := List.getLast?_eq_some_iff.mp hlast
    have hsorted := h.sorted
    rw [hfront] at ha hsorted
    rcases List.mem_append.mp ha with ha | ha
    · exact ((List.pairwise_append.mp hsorted).2.2 a ha last (List.mem_singleton_self _)).le
    · rw [List.mem_singleton.mp ha]

/-- **One tail call** goes on where the cycle stands: the rows of the cycle stay sorted, and a job
that every call selects is among them, unless the page is full and lies before it. -/
theorem CycleBooks.call {position : Option (ScanCursor T)}
    (h : CycleBooks readers jobs position reads)
    (hserves : ServesFrom readers jobs (reads ++ [read]))
    (hpage : read.rows = pageOf (scanInOrder readers) (isBehind readers position)
      (safeLimit read.limit) read.selected) :
    (cycleRows (reads ++ [read])).Pairwise (fun a b => scanKey readers a < scanKey readers b) ∧
      cycleRows (reads ++ [read]) ⊆ jobs ∧
      ∀ job, (∀ r ∈ reads ++ [read], job ∈ r.selected) →
        job ∈ cycleRows (reads ++ [read]) ∨
          ((read.rows.length : ℚ) = read.limit ∧
            ∀ b ∈ read.rows, scanKey readers b < scanKey readers job) := by
  have hlast : read ∈ reads ++ [read] := List.mem_append_right _ (List.mem_singleton_self _)
  obtain ⟨n, hpos, hlimit⟩ := hserves.limits read hlast
  have hsub : read.selected ⊆ jobs := (hserves.selected read hlast).subset
  have hkey : ∀ a ∈ read.selected, ∀ b ∈ read.selected,
      scanKey readers a = scanKey readers b → a = b :=
    fun a ha b hb => eq_of_scanKey hserves.ids (hsub ha) (hsub hb)
  have hnodup : read.selected.Nodup := by
    obtain ⟨part, hperm, hpart⟩ := hserves.selected read hlast
    exact hperm.nodup_iff.mp ((List.Nodup.of_map _ hserves.ids).sublist hpart)
  have hrows : read.rows =
      pageOf (scanInOrder readers) (isBehind readers position) n read.selected := by
    rw [hpage, hlimit, safeLimit_natCast hpos]
  have hmem : ∀ b ∈ read.rows, b ∈ read.selected ∧ isBehind readers position b = true := by
    intro b hb
    rw [hrows] at hb
    exact mem_of_mem_pageOf hb
  rw [cycleRows_append]
  refine ⟨?_, ?_, ?_⟩
  · rw [List.pairwise_append]
    refine ⟨h.sorted, ?_, fun a ha b hb => h.lt_of_mem ha (hmem b hb).2⟩
    rw [hrows]
    exact pairwise_lt_pageOf scanInOrder_iff hkey hnodup
  · intro job hjob
    rcases List.mem_append.mp hjob with hjob | hjob
    · exact h.subset hjob
    · exact hsub (hmem job hjob).1
  · intro job hjob
    rcases h.covers job fun r hr => hjob r (List.mem_append_left _ hr) with hold | hbehind
    · exact Or.inl (List.mem_append_left _ hold)
    · by_cases hon : job ∈ read.rows
      · exact Or.inl (List.mem_append_right _ hon)
      · rw [hrows] at hon
        have hfull := lt_of_not_mem_pageOf scanInOrder_iff hkey (hjob read hlast) hbehind hon
        rw [← hrows] at hfull
        refine Or.inr ⟨?_, hfull.2⟩
        rw [hfull.1, hlimit]

end Cycle

/-! ## 3. The books of a run -/

/-- What a completed cycle has returned. -/
structure CycleServed (readers : PayloadReaders) (jobs : List (ScanJob T))
    (reads : List (TailRead T)) : Prop where
  sorted : (cycleRows reads).Pairwise fun a b => scanKey readers a < scanKey readers b
  subset : cycleRows reads ⊆ jobs
  complete : ∀ job, (∀ read ∈ reads, job ∈ read.selected) → job ∈ cycleRows reads

/-- The books of the tail of `key`. -/
structure ScanBook.Sound (readers : PayloadReaders) (key : ScanKey) (book : ScanBook T) : Prop where
  fresh : book.scan.position key = none → book.current = []
  running : ∀ jobs, ServesFrom readers jobs book.current →
    CycleBooks readers jobs (book.scan.position key) book.current
  served : ∀ reads ∈ book.completed, ∀ jobs, ServesFrom readers jobs reads →
    CycleServed readers jobs reads

section Position

variable {scan : CandidateScan T} {key : ScanKey}

omit [LinearOrder T] in
theorem position_remove (k : ScanKey) :
    ({ scan with positions := KeyedMap.remove Prod.fst k scan.positions } :
      CandidateScan T).position key = if key = k then none else scan.position key := by
  rw [CandidateScan.position, KeyedMap.lookup_remove]
  split_ifs <;> rfl

omit [LinearOrder T] in
theorem position_put (k : ScanKey) (position : ScanCursor T) :
    ({ scan with positions := KeyedMap.put Prod.fst (k, position) scan.positions } :
      CandidateScan T).position key = if k = key then some position else scan.position key := by
  rw [CandidateScan.position, KeyedMap.lookup_put]
  split_ifs <;> rfl

end Position

section Step

variable {key : ScanKey} {book : ScanBook T}

omit [LinearOrder T] in
/-- A tail call resets its position, throws, or leaves the position at its last row. -/
theorem settle_cases (scan : CandidateScan T) (key : ScanKey) (limit : ℚ)
    (rows : List (ScanJob T)) :
    ((rows.length : ℚ) < limit ∧ scan.settle readers key limit rows =
        ({ scan with positions := KeyedMap.remove Prod.fst key scan.positions }, some rows)) ∨
      (rows = [] ∧ limit ≤ 0 ∧ scan.settle readers key limit rows = (scan, none)) ∨
      ∃ last, rows.getLast? = some last ∧ scan.settle readers key limit rows =
        ({ scan with
          positions := KeyedMap.put Prod.fst (key, cursor readers last) scan.positions },
          some rows) := by
  unfold CandidateScan.settle
  by_cases hshort : (rows.length : ℚ) < limit
  · exact Or.inl ⟨hshort, if_pos hshort⟩
  · rw [if_neg hshort]
    cases hlast : rows.getLast? with
    | none =>
      have hnil : rows = [] := List.getLast?_eq_none_iff.mp hlast
      rw [hnil, List.length_nil, Nat.cast_zero, not_lt] at hshort
      exact Or.inr (Or.inl ⟨hnil, hshort, rfl⟩)
    | some last => exact Or.inr (Or.inr ⟨last, rfl, rfl⟩)

/-- The scan calls of other keys, and heads, leave the position where it is. -/
theorem position_next {limit : ℚ} {options : ScanOptions} {headRows : List (ScanJob T)}
    (h : ¬(options.key = key ∧ book.scan.heads.contains key = true)) :
    (book.scan.next readers book.jobs limit options headRows).1.position key =
      book.scan.position key := by
  unfold CandidateScan.next
  by_cases hhead : book.scan.heads.contains options.key = false
  · simp only [hhead, if_true]
    rfl
  · have hne : options.key ≠ key := fun heq => h ⟨heq, by
      rw [← heq]
      exact Bool.not_eq_false _ ▸ hhead⟩
    simp only [if_neg hhead]
    rcases settle_cases book.scan options.key limit _ with ⟨-, h⟩ | ⟨-, -, h⟩ | ⟨last, -, h⟩
    · rw [h, position_remove, if_neg (Ne.symm hne)]
    · rw [h]
    · rw [h, position_put, if_neg hne]

/-- The rows of a tail call. -/
theorem findRunnableJobsBatch_eq {limit : ℚ} {options : ScanOptions}
    {after : Option (ScanCursor T)} {jobs : List (ScanJob T)} :
    findRunnableJobsBatch readers limit options after jobs =
      pageOf (scanInOrder readers) (isBehind readers after) (safeLimit limit)
        (jobs.filter options.selects) :=
  (pageOf_filter options.selects).symm

/-- The books after a call that resets the position. -/
theorem ScanBook.Sound.reset (h : book.Sound readers key) {scan : CandidateScan T}
    {read : TailRead T} (hnone : scan.position key = none)
    (hpage : read.rows = pageOf (scanInOrder readers)
      (isBehind readers (book.scan.position key)) (safeLimit read.limit) read.selected)
    (hshort : (read.rows.length : ℚ) < read.limit ∨ read.limit ≤ 0) :
    (book.record key scan read).Sound readers key := by
  rw [ScanBook.record, hnone, Option.isNone_none, if_pos rfl]
  refine ⟨fun _ => rfl, fun jobs _ => ?_, fun reads hreads jobs hserves => ?_⟩
  · dsimp only
    rw [hnone]
    exact cycleBooks_nil
  · rcases List.mem_append.mp hreads with hold | hnew
    · exact h.served reads hold jobs hserves
    · rw [List.mem_singleton.mp hnew] at hserves ⊢
      obtain ⟨hsorted, hsubset, hcovers⟩ :=
        (h.running jobs hserves.init).call hserves hpage
      refine ⟨hsorted, hsubset, fun job hjob => ?_⟩
      rcases hcovers job hjob with hon | ⟨hfull, -⟩
      · exact hon
      · exfalso
        obtain ⟨n, hpos, hlimit⟩ :=
          hserves.limits read (List.mem_append_right _ (List.mem_singleton_self _))
        rcases hshort with hshort | hshort
        · exact absurd hfull hshort.ne
        · rw [hlimit] at hshort
          exact absurd (Nat.cast_pos.mpr hpos) (not_lt.mpr hshort)

/-- The books after a call that leaves its position at its last row. -/
theorem ScanBook.Sound.advance (h : book.Sound readers key) {scan : CandidateScan T}
    {read : TailRead T} {last : ScanJob T} (hlast : read.rows.getLast? = some last)
    (hsome : scan.position key = some (cursor readers last))
    (hpage : read.rows = pageOf (scanInOrder readers)
      (isBehind readers (book.scan.position key)) (safeLimit read.limit) read.selected) :
    (book.record key scan read).Sound readers key := by
  rw [ScanBook.record, hsome, Option.isNone_some, if_neg Bool.false_ne_true]
  refine ⟨fun hnone => ?_, fun jobs hserves => ?_, h.served⟩
  · dsimp only at hnone
    rw [hsome] at hnone
    cases hnone
  · have hbooks := h.running jobs hserves.init
    obtain ⟨hsorted, hsubset, hcovers⟩ := hbooks.call hserves hpage
    have hmem : last ∈ read.rows := List.mem_of_getLast? hlast
    have hcursor : cursor readers last = sqlPosition readers last := by
      refine cursor_eq_sqlPosition_iff.mpr (hserves.kinds last (hsubset ?_))
      rw [cycleRows_append]
      exact List.mem_append_right _ hmem
    dsimp only
    rw [hsome, hcursor]
    refine ⟨hsorted, hsubset, ?_, ?_, fun job hjob => ?_⟩
    · have hprogress := hbooks.progress
      have hone : 0 < read.rows.length := List.length_pos_of_mem hmem
      rw [cycleRows_append, List.length_append, List.length_append, List.length_singleton]
      omega
    · rw [cycleRows_append, List.getLast?_append, hlast]
      rfl
    · refine (hcovers job hjob).imp_right fun hfull => ?_
      exact isBehind_some.mpr (hfull.2 last hmem)

/-- The books after a call that throws at a position. -/
theorem ScanBook.Sound.thrown (h : book.Sound readers key) {read : TailRead T}
    (hsome : book.scan.position key ≠ none) (hlimit : read.limit ≤ 0) :
    (book.record key book.scan read).Sound readers key := by
  rw [ScanBook.record, if_neg (mt Option.isNone_iff_eq_none.mp hsome)]
  refine ⟨fun hnone => absurd hnone hsome, fun jobs hserves => ?_, h.served⟩
  obtain ⟨n, hpos, hn⟩ :=
    hserves.limits read (List.mem_append_right _ (List.mem_singleton_self _))
  rw [hn] at hlimit
  exact absurd (Nat.cast_pos.mpr hpos) (not_lt.mpr hlimit)

/-- The books after a tail call that has read `rows`. -/
def ScanBook.tailCall (readers : PayloadReaders) (book : ScanBook T) (limit : ℚ)
    (options : ScanOptions) (rows : List (ScanJob T)) : ScanBook T :=
  let out := book.scan.settle readers options.key limit rows
  book.record options.key out.1
    { selected := book.jobs.filter options.selects, limit, rows := out.2.getD [] }

theorem scanStep_tail {limit : ℚ} {options : ScanOptions} {headRows rows : List (ScanJob T)}
    (hhead : book.scan.heads.contains options.key = true)
    (hrows : findRunnableJobsBatch readers limit options (book.scan.position options.key)
      book.jobs = rows) :
    scanStep readers options.key book (.next limit options headRows) =
      book.tailCall readers limit options rows := by
  unfold scanStep CandidateScan.next ScanBook.tailCall
  simp only [hrows, hhead, Bool.true_eq_false, and_self, if_true, if_false]

/-- **A tail call keeps the books.** -/
theorem ScanBook.Sound.tail {limit : ℚ} {options : ScanOptions} {rows : List (ScanJob T)}
    (h : book.Sound readers options.key)
    (hrows : findRunnableJobsBatch readers limit options (book.scan.position options.key)
      book.jobs = rows) :
    (book.tailCall readers limit options rows).Sound readers options.key := by
  rw [findRunnableJobsBatch_eq] at hrows
  unfold ScanBook.tailCall
  have hcases := @settle_cases T readers book.scan options.key limit rows
  rcases hcases with ⟨hshort, hnext⟩ | ⟨hnil, hlimit, hnext⟩ | ⟨last, hlast, hnext⟩
  · rw [hnext]
    refine h.reset ?_ hrows.symm (Or.inl hshort)
    rw [position_remove, if_pos rfl]
  · rw [hnext]
    by_cases hnone : book.scan.position options.key = none
    · exact h.reset hnone (hnil ▸ hrows.symm) (Or.inr hlimit)
    · exact h.thrown hnone hlimit
  · rw [hnext]
    refine h.advance hlast ?_ hrows.symm
    rw [position_put, if_pos rfl]

/-- Every step keeps the books. -/
theorem ScanBook.Sound.step (h : book.Sound readers key) (op : ScanOp T) :
    (scanStep readers key book op).Sound readers key := by
  cases op with
  | commit jobs => exact ⟨h.fresh, h.running, h.served⟩
  | beginPass => exact ⟨h.fresh, h.running, h.served⟩
  | next limit options headRows =>
    by_cases htail : options.key = key ∧ book.scan.heads.contains key = true
    · obtain ⟨rfl, hhead⟩ := htail
      rw [scanStep_tail hhead rfl]
      exact h.tail rfl
    · rw [scanStep, if_neg htail]
      have hposition : (book.scan.next readers book.jobs limit options headRows).1.position key =
          book.scan.position key := position_next htail
      refine ⟨fun hnone => h.fresh (hposition ▸ hnone), fun jobs hserves => ?_, h.served⟩
      dsimp only
      rw [hposition]
      exact h.running jobs hserves

end Step

/-! ## 4. The walk serves every job -/

/-- **The scan starves no job**, where the kinds agree and the limits are positive integers.  Over
every run of passes, calls and changes of the table: a completed cycle whose calls select from
`jobs` returns no job twice and in the order of the query; it returns every job that all of its
calls could select, so that a job that leaves meanwhile costs no other its turn; if they all could
select all of `jobs`, it returns exactly them; and the cursor of a row it has returned is the
ordering tuple of the row.  A cycle that is not completed has had at most one call for each job. -/
theorem candidateScan_serves (readers : PayloadReaders) (key : ScanKey) (queue : List (ScanJob T))
    (ops : List (ScanOp T)) :
    let book := Runs.run (scanStep readers key) { jobs := queue } ops
    (∀ reads ∈ book.completed, ∀ jobs, ServesFrom readers jobs reads →
      ((cycleRows reads).map ScanJob.id).Nodup ∧
      (cycleRows reads).Pairwise (fun a b => scanInOrder readers a b = true) ∧
      (∀ job ∈ cycleRows reads, job ∈ jobs ∧ cursor readers job = sqlPosition readers job) ∧
      (∀ job, (∀ read ∈ reads, job ∈ read.selected) → job ∈ cycleRows reads) ∧
      ((∀ read ∈ reads, read.selected.Perm jobs) →
        cycleRows reads = jobs.mergeSort (scanInOrder readers))) ∧
    ∀ jobs, ServesFrom readers jobs book.current → book.current.length ≤ jobs.length := by
  intro book
  have hempty : ScanBook.Sound readers key ({ jobs := queue } : ScanBook T) :=
    ⟨fun _ => rfl, fun _ _ => cycleBooks_nil, nofun⟩
  have hbook : book.Sound readers key :=
    Runs.run_invariant_of_forall (fun _ op h => h.step op) hempty
  constructor
  · intro reads hreads jobs hserves
    have hserved := hbook.served reads hreads jobs hserves
    have hdistinct : (cycleRows reads).Nodup := nodup_of_sorted hserved.sorted
    have hsorted : (cycleRows reads).Pairwise fun a b => scanInOrder readers a b = true :=
      hserved.sorted.imp fun h => (scanInOrder_iff _ _).mpr h.le
    refine ⟨?_, hsorted, fun job hjob => ?_, hserved.complete, fun hall => ?_⟩
    · refine List.Nodup.map_on (fun a ha b hb hab => ?_) hdistinct
      exact Table.eq_of_key_eq hserves.ids (hserved.subset ha) (hserved.subset hb) hab
    · have hmem := hserved.subset hjob
      exact ⟨hmem, cursor_eq_sqlPosition_iff.mpr (hserves.kinds job hmem)⟩
    · have hjobs : jobs.Nodup := List.Nodup.of_map _ hserves.ids
      have hperm : (cycleRows reads).Perm jobs := by
        refine (List.perm_ext_iff_of_nodup hdistinct hjobs).mpr fun job => ?_
        refine ⟨fun h => hserved.subset h, fun h => hserved.complete job fun read hread => ?_⟩
        exact (hall read hread).mem_iff.mpr h
      calc cycleRows reads
          = (cycleRows reads).mergeSort (scanInOrder readers) :=
            (List.mergeSort_of_pairwise hsorted).symm
        _ = jobs.mergeSort (scanInOrder readers) :=
            KeySort.mergeSort_eq_of_perm scanInOrder_iff (fun a ha b hb =>
              eq_of_scanKey hserves.ids (hserved.subset ha) (hserved.subset hb)) hperm
  · intro jobs hserves
    have hbooks := hbook.running jobs hserves
    have hdistinct : (cycleRows book.current).Nodup := nodup_of_sorted hbooks.sorted
    calc book.current.length
        ≤ (cycleRows book.current).length := hbooks.progress
      _ ≤ jobs.length := (hdistinct.subperm hbooks.subset).length_le

/-- A tail call on a table in order. -/
theorem scanStep_sorted {key : ScanKey} {book : ScanBook T} {limit : ℚ} {options : ScanOptions}
    (headRows : List (ScanJob T)) {rows : List (ScanJob T)}
    (hkey : options.key = key ∧ book.scan.heads.contains key = true)
    (hsorted : (book.jobs.filter fun job => options.selects job &&
      isBehind readers (book.scan.position key) job).Pairwise
        fun a b => scanInOrder readers a b = true)
    (hrows : (book.jobs.filter fun job => options.selects job &&
      isBehind readers (book.scan.position key) job).take (safeLimit limit) = rows) :
    scanStep readers key book (.next limit options headRows) =
      book.tailCall readers limit options rows := by
  obtain ⟨rfl, hhead⟩ := hkey
  refine scanStep_tail hhead ?_
  rw [findRunnableJobsBatch, pageOf, List.mergeSort_of_pairwise hsorted, hrows]

/-- Of two members of one name, the last one counts. -/
def lastMembers (members : Members) : Members :=
  members.foldl (fun found member => putMember member.1 member.2 found) []

/-- The readers of payloads whose member `_assess_only` is no number: of two members of one name
`JSON.parse` keeps the last one, and `json_extract` finds the first. -/
def plainReaders : PayloadReaders where
  jsonParse := parse lastMembers
  jsonValid := fun text => (parse id text).isSome
  extractAssessOnly := fun text =>
    match parse id text with
    | some (.object members) =>
      match findMember assessOnlyKey members with
      | some (.bool true) => .number 1
      | some (.bool false) => .number 0
      | some (.string s) => .text s
      | _ => .null
    | _ => .null

/-- An assessment, a fix and a task. -/
def scannedQueue : List (ScanJob ℕ) :=
  [{ id := 1, jobType := .dev, createdAt := 0,
      payloadJson := some (stringify (.object [(assessOnlyKey, .bool true)])) },
    { id := 2, jobType := .fix, createdAt := 0 },
    { id := 3, jobType := .dev, createdAt := 0 }]

/-- Batches of one job: the fix leaves the queue after the first call, and the task still has its
turn. -/
theorem candidateScan_serves_removed :
    let book := Runs.run (scanStep plainReaders ([], [])) { jobs := scannedQueue }
      [.next 1 {} [], .next 1 {} [], .commit [scannedQueue[0], scannedQueue[2]], .next 1 {} [],
        .next 1 {} []]
    ∃ reads ∈ book.completed, scannedQueue[0] ∈ cycleRows reads ∧
      scannedQueue[2] ∈ cycleRows reads ∧ ((cycleRows reads).map ScanJob.id).Nodup := by
  intro book
  have hserves := (candidateScan_serves plainReaders ([], []) scannedQueue [.next 1 {} [],
    .next 1 {} [], .commit [scannedQueue[0], scannedQueue[2]], .next 1 {} [], .next 1 {} []]).1
  let first := scanStep plainReaders ([], []) { jobs := scannedQueue } (.next 1 {} [])
  let second := scanStep plainReaders ([], []) (first.tailCall plainReaders 1 {} [scannedQueue[0]])
    (.commit [scannedQueue[0], scannedQueue[2]])
  let third := second.tailCall plainReaders 1 {} [scannedQueue[2]]
  have hfirst : scanStep plainReaders ([], []) first (.next 1 {} []) =
      first.tailCall plainReaders 1 {} [scannedQueue[0]] :=
    scanStep_sorted [] (by decide) (by decide) (by decide)
  have hthird : scanStep plainReaders ([], []) second (.next 1 {} []) = third :=
    scanStep_sorted [] (by decide) (by decide) (by decide)
  have hfourth : scanStep plainReaders ([], []) third (.next 1 {} []) =
      third.tailCall plainReaders 1 {} [] :=
    scanStep_sorted [] (by decide) (by decide) (by decide)
  have hbook : book = third.tailCall plainReaders 1 {} [] := by
    rw [← hfourth, ← hthird]
    change _ = scanStep _ _ (scanStep _ _ (scanStep _ _ (first.tailCall _ _ _ _) _) _) _
    rw [← hfirst]
    rfl
  have hmem : (third.tailCall plainReaders 1 {} []).completed.getLast (by decide) ∈
      book.completed := by
    rw [hbook]
    exact List.getLast_mem _
  have hlimits : ∀ read ∈ (third.tailCall plainReaders 1 {} []).completed.getLast (by decide),
      read.limit = (1 : ℕ) := by decide
  obtain ⟨hnodup, -, -, hcomplete, -⟩ := hserves _ hmem scannedQueue
    { ids := by decide, kinds := by decide, selected := by decide,
      limits := fun read hread => ⟨1, Nat.one_pos, hlimits read hread⟩ }
  exact ⟨_, hmem, hcomplete _ (by decide), hcomplete _ (by decide), hnodup⟩

/-! ## 5. Where the kinds differ -/

/-- A job whose payload says twice whether it is an assessment, a fix and a task. -/
def twiceQueue : List (ScanJob ℕ) :=
  [{ id := 1, jobType := .dev, createdAt := 0, payloadJson := some (stringify (.object
      [(assessOnlyKey, .bool true), (assessOnlyKey, .bool false)])) },
    { id := 2, jobType := .fix, createdAt := 0 },
    { id := 3, jobType := .dev, createdAt := 0 }]

/-- **A job is skipped** where the kinds differ: the query orders the first job as an assessment,
the cursor places it behind the fix, and the walk goes on from there. -/
theorem candidateScan_skips_job :
    let book := Runs.run (scanStep plainReaders ([], [])) { jobs := twiceQueue }
      (List.replicate 4 (.next 1 {} []))
    ∃ reads ∈ book.completed, (∀ read ∈ reads, read.selected = twiceQueue ∧ read.limit = 1) ∧
      (cycleRows reads).map ScanJob.id = [1, 3] := by
  intro book
  let first := scanStep plainReaders ([], []) { jobs := twiceQueue } (.next 1 {} [])
  let second := first.tailCall plainReaders 1 {} [twiceQueue[0]]
  let third := second.tailCall plainReaders 1 {} [twiceQueue[2]]
  have hsecond : scanStep plainReaders ([], []) first (.next 1 {} []) = second :=
    scanStep_sorted [] (by decide) (by decide) (by decide)
  have hthird : scanStep plainReaders ([], []) second (.next 1 {} []) = third :=
    scanStep_sorted [] (by decide) (by decide) (by decide)
  have hfourth : scanStep plainReaders ([], []) third (.next 1 {} []) =
      third.tailCall plainReaders 1 {} [] :=
    scanStep_sorted [] (by decide) (by decide) (by decide)
  have hbook : book = third.tailCall plainReaders 1 {} [] := by
    rw [← hfourth, ← hthird, ← hsecond]
    rfl
  rw [hbook]
  refine ⟨_, List.mem_singleton_self _, ?_, rfl⟩
  decide

end PosseClient
