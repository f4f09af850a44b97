/-
# Work-item admission budgets

`admission-budget.js`.  A budget row holds the thresholds of a work item; a reservation row is
taken before a provider call is made, and is settled with the call's receipt, or left unknown.

* A clock reading, the liveness of owner processes and a fresh `randomUUID` are arguments: each
  function is total in what the process cannot choose.
* `reservations_evolve_*`: apart from the insertions of `reserveBudget` and
  `configureAdmissionBudget`, a row is only ever rewritten along `RowStep`: it keeps its key, its
  work item and its reserved amount; it is settled once, with a cost that is not negative.
-/
import PosseClient.Store.Schema

namespace PosseClient

/-! ## 1. Reading a budget -/

/-- What the process reads from its surroundings: `Date.now()` and `process.kill(pid, 0)`. -/
structure BudgetEnv where
  now : ℤ
  ownerAlive : ℕ → Bool

/-- `completedCost`: the cost of a finished call with a complete receipt. -/
def completedCost (db : Db) (agentCallId : Option ℕ) : Option ℚ :=
  match agentCallId.bind db.getAgentCall with
  | none => none
  | some call =>
    if call.status ≠ .running ∧ call.billingPrecision ∈ [some .exact, some .aggregateOnly] then
      call.costEstimateUsd.filter (fun cost => decide (0 ≤ cost))
    else none

/-- The reservation rows of a work item. -/
def Db.reservationsOf (db : Db) (workItemId : ℕ) : List Reservation :=
  Table.select (fun r => r.workItemId == workItemId) db.reservations

/-- The result of `snapshot`: the budget row and the sums over its reservations. -/
structure BudgetSnapshot where
  budget : Budget
  spentUsd : ℚ
  reservedUsd : ℚ
  unknownCosts : ℕ
  spendIsComplete : Bool

/-- `reservations.reduce((sum, r) => sum + (r.cost_usd ?? 0), 0)`. -/
def spentUsd (rows : List Reservation) : ℚ := (rows.map (fun r => r.costUsd.getD 0)).sum

/-- The same over the reserved amounts of the rows in the reserved state. -/
def reservedUsd (rows : List Reservation) : ℚ :=
  ((rows.filter (fun r => r.state == .reserved)).map (fun r => r.reservedUsd.getD 0)).sum

/-- `snapshot`. -/
def snapshot (db : Db) (workItemId : ℕ) : Option BudgetSnapshot :=
  (db.getBudget workItemId).map fun budget =>
    { budget
      spentUsd := spentUsd (db.reservationsOf workItemId)
      reservedUsd := reservedUsd (db.reservationsOf workItemId)
      unknownCosts := Table.changes (fun r => r.state == .unknown) (db.reservationsOf workItemId)
      spendIsComplete := (db.reservationsOf workItemId).all (fun r => r.state == .settled) }

/-! ## 2. Pausing and reconciling -/

/-- `pause`: an enabled budget takes the reason; an unknown cost matters to a spend threshold
only. -/
def pauseBudget (workItemId : ℕ) (reason : BudgetReason) (db : Db) : Db :=
  { db with
    budgets := Table.updateWhere
      (fun b => b.workItemId == workItemId && b.enabled && b.pausedReason != some reason &&
        (reason != .unknown || b.limitUsd.isSome))
      (fun b => { b with pausedReason := some reason }) db.budgets }

/-- The end of a reservation: settled with a cost, unknown without one. -/
def Reservation.finish (cost : Option ℚ) (r : Reservation) : Reservation :=
  { r with state := if cost.isNone then .unknown else .settled, costUsd := cost }

/-- The owner of a reserved row is gone: its process died, or its attempt ended. -/
def ownerEnded (env : BudgetEnv) (db : Db) (r : Reservation) : Bool :=
  !(env.ownerAlive r.ownerPid &&
    (r.attemptId.isNone || (r.attemptId.bind db.getAttempt).any (fun a => a.status == .running)))

/-- The first loop of `reconcileDead`: unknown rows whose receipt has arrived. -/
def settleReceipts (workItemId : ℕ) (db : Db) : Db :=
  { db with
    reservations := Table.updateWhere
      (fun r => r.workItemId == workItemId && r.state == .unknown &&
        (completedCost db r.agentCallId).isSome)
      (fun r => r.finish (completedCost db r.agentCallId)) db.reservations }

/-- The reserved rows that the second loop of `reconcileDead` ends. -/
def endsNow (env : BudgetEnv) (workItemId : ℕ) (db : Db) (r : Reservation) : Bool :=
  r.workItemId == workItemId && r.state == .reserved && ownerEnded env db r

/-- The second loop of `reconcileDead`. -/
def endReservations (env : BudgetEnv) (workItemId : ℕ) (db : Db) : Db :=
  { db with
    reservations := Table.updateWhere (endsNow env workItemId db)
      (fun r => r.finish (completedCost db r.agentCallId)) db.reservations }

/-- `reconcileDead`.  Its updates go by row key, one row at a time; none of them changes what
the next one reads. -/
def reconcileDead (env : BudgetEnv) (workItemId : ℕ) (db : Db) : Db :=
  let db₁ := settleReceipts workItemId db
  let db₂ := endReservations env workItemId db₁
  if db₁.reservations.any
      (fun r => endsNow env workItemId db₁ r && (completedCost db₁ r.agentCallId).isNone)
  then pauseBudget workItemId .unknown db₂ else db₂

/-- `isBudgetPaused`; no work item has the id zero. -/
def isBudgetPaused (db : Db) (workItemId : Option ℕ) : Bool :=
  (workItemId.bind db.getBudget).any (fun b => b.enabled && b.pausedReason.isSome)

/-! ## 3. Reserving, attaching and settling -/

/-- The arguments of `reserveBudget` that it reads. -/
structure ReserveArgs where
  workItemId : Option ℕ := none
  jobId : Option ℕ := none
  attemptId : Option ℕ := none
  parentCallId : Option ℕ := none
  deriving DecidableEq, Repr

/-- The work item a call belongs to: given, or that of its job, or that of its parent call. -/
def ReserveArgs.resolve (args : ReserveArgs) (db : Db) : Option ℕ :=
  args.workItemId.or <|
    ((args.jobId.bind db.getJob).bind Job.workItemId).or
      ((args.parentCallId.bind db.getAgentCall).bind AgentCall.workItemId)

/-- `SELECT id FROM job_attempts WHERE job_id = ? AND status = 'running' ORDER BY id DESC
LIMIT 1`. -/
def Db.latestRunningAttempt (db : Db) (jobId : ℕ) : Option ℕ :=
  ((db.attempts.filter (fun a => a.jobId == jobId && a.status == .running)).map Attempt.id).max?

/-- The reason `reserveBudget` refuses with, if it does. -/
def admissionRefusal (now : ℤ) (s : BudgetSnapshot) : Option BudgetReason :=
  s.budget.pausedReason.or <|
    if s.budget.deadlineAt.any (fun deadline => decide (deadline ≤ now)) then some .time
    else if s.budget.limitUsd.isSome && s.unknownCosts != 0 then some .unknown
    else if s.budget.limitUsd.any
        (fun limit => decide (limit < s.spentUsd + s.reservedUsd + s.budget.reservationUsd.getD 0))
      then some .spend
    else none

/-- What `reserveBudget` reports: null, the error it throws after the commit, or a key. -/
inductive ReserveOutcome
  | unbudgeted
  | refused (reason : BudgetReason)
  | granted (id : ReservationId)
  deriving DecidableEq, Repr

/-- `INSERT INTO budget_reservations`; the key is primary. -/
def insertReservation (db : Db) (r : Reservation) : Except DbError Db :=
  if (db.getReservation r.id).isSome then .error .primaryKey
  else .ok { db with reservations := db.reservations ++ [r] }

/-- The row that `reserveBudget` inserts. -/
def newReservation (pid uuid : ℕ) (args : ReserveArgs) (workItemId : ℕ) (s : BudgetSnapshot)
    (db : Db) : Reservation where
  id := .uuid uuid
  workItemId := workItemId
  jobId := args.jobId
  attemptId := args.attemptId.or (args.jobId.bind db.latestRunningAttempt)
  ownerPid := pid
  reservedUsd := s.budget.reservationUsd
  state := .reserved

/-- `reserveBudget`, in the process `pid`. -/
def reserveBudget (env : BudgetEnv) (pid uuid : ℕ) (args : ReserveArgs) (db : Db) :
    Except DbError (Db × ReserveOutcome) :=
  match args.resolve db with
  | none => .ok (db, .unbudgeted)
  | some workItemId =>
    let db₁ := reconcileDead env workItemId db
    match snapshot db₁ workItemId with
    | none => .ok (db₁, .unbudgeted)
    | some s =>
      if !s.budget.enabled then .ok (db₁, .unbudgeted)
      else match admissionRefusal env.now s with
        | some reason => .ok (pauseBudget workItemId reason db₁, .refused reason)
        | none => do
          let db₂ ← insertReservation db₁ (newReservation pid uuid args workItemId s db₁)
          return (db₂, .granted (.uuid uuid))

/-- `attachBudgetCall`. -/
def attachBudgetCall (reservation : Option ReservationId) (callId : ℕ) (db : Db) : Db :=
  match reservation with
  | none => db
  | some id =>
    { db with
      reservations := Table.updateWhere (fun r => r.id == id && r.state == .reserved)
        (fun r => { r with agentCallId := some callId }) db.reservations }

/-- The pause at the end of `settleBudget`. -/
def pauseAfterSettling (workItemId : ℕ) (cost : Option ℚ) (db : Db) : Db :=
  match snapshot db workItemId with
  | none => db
  | some s =>
    if s.budget.enabled && s.budget.limitUsd.isSome then
      if cost.isNone then pauseBudget workItemId .unknown db
      else if s.budget.limitUsd.any (fun limit => decide (limit ≤ s.spentUsd + s.reservedUsd))
        then pauseBudget workItemId .spend db
      else db
    else db

/-- `settleBudget`. -/
def settleBudget (reservation : Option ReservationId) (notDispatched : Bool) (db : Db) : Db :=
  match reservation.bind db.getReservation with
  | none => db
  | some row =>
    if row.state ≠ .reserved then db
    else
      let cost := if notDispatched then some 0 else completedCost db row.agentCallId
      pauseAfterSettling row.workItemId cost
        { db with
          reservations := Table.updateWhere (fun r => r.id == row.id)
            (Reservation.finish cost) db.reservations }

/-! ## 4. The operator's commands -/

/-- The arguments of `configureAdmissionBudget`. -/
structure BudgetConfig where
  limitUsd : Option ℚ := none
  reservationUsd : Option ℚ := none
  minutes : Option ℚ := none

/-- The checks before the transaction. -/
def BudgetConfig.valid (cfg : BudgetConfig) : Bool :=
  [cfg.limitUsd, cfg.reservationUsd, cfg.minutes].all (·.all (fun v => decide (0 < v))) &&
    (cfg.limitUsd.isSome || cfg.minutes.isSome) &&
    (cfg.limitUsd.isNone || cfg.reservationUsd.isSome)

/-- `Date.now() + Math.ceil(minutes * 60000)`. -/
def BudgetConfig.deadline (cfg : BudgetConfig) (now : ℤ) : Option ℤ :=
  cfg.minutes.map (fun minutes => now + ⌈minutes * 60000⌉)

/-- The `SET` of a configuration: a pause that is there stays. -/
def Budget.configured (cfg : BudgetConfig) (deadlineAt : Option ℤ) (b : Budget) : Budget :=
  { b with enabled := true, limitUsd := cfg.limitUsd, reservationUsd := cfg.reservationUsd,
           deadlineAt := deadlineAt }

/-- `INSERT INTO work_item_budgets .. ON CONFLICT DO UPDATE SET enabled = 1, ..`. -/
def upsertBudget (workItemId : ℕ) (cfg : BudgetConfig) (deadlineAt : Option ℤ) (db : Db) : Db :=
  if (db.getBudget workItemId).isSome then
    { db with
      budgets := Table.updateWhere (fun b => b.workItemId == workItemId)
        (Budget.configured cfg deadlineAt) db.budgets }
  else
    { db with
      budgets := db.budgets ++ [{ workItemId, limitUsd := cfg.limitUsd,
                                  reservationUsd := cfg.reservationUsd, deadlineAt }] }

/-- The row of a call made before the configuration. -/
def historicalRow (workItemId : ℕ) (db : Db) (call : AgentCall) : Reservation :=
  Reservation.finish (completedCost db (some call.id)) {
    id := .historical call.id
    workItemId
    jobId := call.jobId
    agentCallId := some call.id
    attemptId := call.attemptId
    ownerPid := 0
    state := .unknown }

/-- The calls of a work item that no reservation row names. -/
def uncoveredCalls (workItemId : ℕ) (db : Db) : List AgentCall :=
  db.agentCalls.filter fun a => a.workItemId == some workItemId &&
    !db.reservations.any (fun r => r.agentCallId == some a.id)

/-- The loop of `configureAdmissionBudget`. -/
def includePriorCalls (workItemId : ℕ) (db : Db) : Except DbError Db :=
  (uncoveredCalls workItemId db).foldlM
    (fun d call => insertReservation d (historicalRow workItemId db call)) db

/-- The pause at the end of `configureAdmissionBudget`. -/
def pauseAfterConfiguring (workItemId : ℕ) (cfg : BudgetConfig) (db : Db) : Db :=
  match snapshot db workItemId, cfg.limitUsd with
  | some s, some limit =>
    if s.unknownCosts ≠ 0 then pauseBudget workItemId .unknown db
    else if limit < s.spentUsd + s.reservedUsd + cfg.reservationUsd.getD 0
      then pauseBudget workItemId .spend db
    else db
  | _, _ => db

/-- `configureAdmissionBudget`. -/
def configureAdmissionBudget (now : ℤ) (workItemId : ℕ) (cfg : BudgetConfig) (db : Db) :
    Except DbError (Db × Unit) :=
  if !cfg.valid then .error .invalidArgument
  else if (db.getWorkItem workItemId).isNone then .error .unknownWorkItem
  else if (cfg.deadline now).any (fun d => decide (2 ^ 53 ≤ |d|)) then .error .invalidArgument
  else do
    let db₁ := upsertBudget workItemId cfg (cfg.deadline now) db
    let db₂ ← includePriorCalls workItemId db₁
    return (pauseAfterConfiguring workItemId cfg db₂, ())

/-- The actions of `changeBudgetState`. -/
inductive BudgetAction
  | pause | resume | disable
  deriving DecidableEq, Repr

/-- The check before a resume. -/
def resumeBlocked (now : ℤ) (s : BudgetSnapshot) : Bool :=
  (s.budget.limitUsd.any fun limit => s.unknownCosts != 0 ||
    decide (limit < s.spentUsd + s.reservedUsd + s.budget.reservationUsd.getD 0)) ||
  s.budget.deadlineAt.any (fun deadline => decide (deadline ≤ now))

/-- `UPDATE work_item_budgets SET enabled = ?, paused_reason = ?`. -/
def setBudgetState (workItemId : ℕ) (action : BudgetAction) (db : Db) : Db :=
  { db with
    budgets := Table.updateWhere (fun b => b.workItemId == workItemId)
      (fun b => { b with
        enabled := action != .disable
        pausedReason := if action = .pause then some .operator else none }) db.budgets }

/-- `changeBudgetState`; the result is false where a resume is blocked, which is thrown after
the commit. -/
def changeBudgetState (env : BudgetEnv) (workItemId : ℕ) (action : BudgetAction) (db : Db) :
    Except DbError (Db × Bool) :=
  let db₁ := reconcileDead env workItemId db
  match snapshot db₁ workItemId with
  | none => .error .noBudget
  | some s =>
    if action = .resume ∧ resumeBlocked env.now s = true then .ok (db₁, false)
    else .ok (setBudgetState workItemId action db₁, true)

/-- A call that may still be running must not be reconciled by hand. -/
def reservationInFlight (env : BudgetEnv) (db : Db) (row : Reservation) : Bool :=
  (row.state == .reserved && env.ownerAlive row.ownerPid) ||
  (row.ownerPid == 0 &&
    (row.agentCallId.bind db.getAgentCall).any (fun call => call.status == .running) &&
    (row.attemptId.isNone ||
      (row.attemptId.bind db.getAttempt).any (fun a => a.status == .running)))

/-- `reconcileBudgetCost`; `reasonGiven` says that the reason is not blank. -/
def reconcileBudgetCost (env : BudgetEnv) (workItemId : ℕ) (reservationId : ReservationId)
    (costUsd : ℚ) (reasonGiven : Bool) (db : Db) : Except DbError (Db × Unit) :=
  if costUsd < 0 ∨ reasonGiven = false then .error .invalidArgument
  else
    let db₁ := reconcileDead env workItemId db
    match (db₁.getReservation reservationId).filter (fun r => r.workItemId == workItemId) with
    | none => .error .noUnresolvedReservation
    | some row =>
      if row.state = .settled then .error .noUnresolvedReservation
      else if reservationInFlight env db₁ row then .error .inFlightCall
      else .ok ({ db₁ with
        reservations := Table.updateWhere (fun r => r.id == reservationId)
          (Reservation.finish (some costUsd)) db₁.reservations }, ())

/-! ## 5. How rows are rewritten -/

/-- One row before and after a function of this module. -/
structure RowStep (r r' : Reservation) : Prop where
  id : r'.id = r.id
  workItemId : r'.workItemId = r.workItemId
  reservedUsd : r'.reservedUsd = r.reservedUsd
  settled : r.state = .settled → r'.state = .settled ∧ r'.costUsd = r.costUsd
  reserved : r'.state = .reserved → r.state = .reserved
  unpaid : r'.state ≠ .settled → r'.costUsd = r.costUsd ∨ r'.costUsd = none
  paid : r.state ≠ .settled → r'.state = .settled → ∃ cost, 0 ≤ cost ∧ r'.costUsd = some cost

theorem RowStep.refl (r : Reservation) : RowStep r r :=
  ⟨rfl, rfl, rfl, fun h => ⟨h, rfl⟩, fun h => h, fun _ => Or.inl rfl, fun h h' => absurd h' h⟩

theorem RowStep.trans {r s u : Reservation} (h : RowStep r s) (h' : RowStep s u) :
    RowStep r u where
  id := h'.id.trans h.id
  workItemId := h'.workItemId.trans h.workItemId
  reservedUsd := h'.reservedUsd.trans h.reservedUsd
  settled hr := by
    obtain ⟨hs, hcost⟩ := h.settled hr
    obtain ⟨hu, hcost'⟩ := h'.settled hs
    exact ⟨hu, hcost'.trans hcost⟩
  reserved hu := h.reserved (h'.reserved hu)
  unpaid hu := by
    have hs : s.state ≠ .settled := fun hs => hu (h'.settled hs).1
    rcases h'.unpaid hu with heq | hnone
    · rw [heq]
      exact h.unpaid hs
    · exact Or.inr hnone
  paid hr hu := by
    by_cases hs : s.state = .settled
    · obtain ⟨cost, hpos, hcost⟩ := h.paid hr hs
      exact ⟨cost, hpos, (h'.settled hs).2.trans hcost⟩
    · exact h'.paid hs hu

theorem completedCost_nonneg {db : Db} {call : Option ℕ} {cost : ℚ}
    (h : completedCost db call = some cost) : 0 ≤ cost := by
  unfold completedCost at h
  split at h
  · simp at h
  split at h
  · simpa using (Option.filter_eq_some_iff.mp h).2
  · simp at h

/-- Ending an unsettled row is a step, with or without a cost. -/
theorem rowStep_finish {r : Reservation} {cost : Option ℚ} (hr : r.state ≠ .settled)
    (hcost : ∀ c, cost = some c → 0 ≤ c) : RowStep r (r.finish cost) where
  id := rfl
  workItemId := rfl
  reservedUsd := rfl
  settled h := absurd h hr
  reserved h := by cases cost <;> simp [Reservation.finish] at h
  unpaid h := by
    cases cost with
    | none => exact Or.inr rfl
    | some c => simp [Reservation.finish] at h
  paid _ h := by
    cases cost with
    | none => simp [Reservation.finish] at h
    | some c => exact ⟨c, hcost c rfl, rfl⟩

/-- A budget keeps its thresholds; only the switch and the pause move. -/
structure SameTerms (b b' : Budget) : Prop where
  workItemId : b'.workItemId = b.workItemId
  limitUsd : b'.limitUsd = b.limitUsd
  reservationUsd : b'.reservationUsd = b.reservationUsd
  deadlineAt : b'.deadlineAt = b.deadlineAt

theorem SameTerms.refl (b : Budget) : SameTerms b b := ⟨rfl, rfl, rfl, rfl⟩

theorem SameTerms.trans {a b c : Budget} (h : SameTerms a b) (h' : SameTerms b c) :
    SameTerms a c :=
  ⟨h'.workItemId.trans h.workItemId, h'.limitUsd.trans h.limitUsd,
    h'.reservationUsd.trans h.reservationUsd, h'.deadlineAt.trans h.deadlineAt⟩

instance : IsTrans Reservation RowStep := ⟨fun _ _ _ => RowStep.trans⟩

instance : IsTrans Budget SameTerms := ⟨fun _ _ _ => SameTerms.trans⟩

/-- Both tables are rewritten in place: no row comes, none goes. -/
structure Evolves (db db' : Db) : Prop where
  rows : List.Forall₂ RowStep db.reservations db'.reservations
  budgets : List.Forall₂ SameTerms db.budgets db'.budgets

theorem Evolves.refl (db : Db) : Evolves db db :=
  ⟨List.forall₂_same.mpr fun r _ => RowStep.refl r, List.forall₂_same.mpr fun b _ => SameTerms.refl b⟩

theorem Evolves.trans {a b c : Db} (h : Evolves a b) (h' : Evolves b c) : Evolves a c :=
  ⟨Table.forall₂_trans h.rows h'.rows, Table.forall₂_trans h.budgets h'.budgets⟩

theorem Evolves.getBudget {db db' : Db} (h : Evolves db db') {w : ℕ} {b : Budget}
    (hb : db.getBudget w = some b) : ∃ b', db'.getBudget w = some b' ∧ SameTerms b b' :=
  Table.lookup_forall₂ (fun _ _ hs => hs.workItemId) h.budgets hb

/-- The keys of a work item's reservations. -/
def Db.reservationKeys (db : Db) : List ReservationId := db.reservations.map Reservation.id

theorem Evolves.reservationKeys {db db' : Db} (h : Evolves db db') :
    db'.reservationKeys = db.reservationKeys :=
  Table.map_key_forall₂ (fun _ _ hs => hs.id) h.rows

theorem Evolves.reservationsOf {db db' : Db} (h : Evolves db db') (w : ℕ) :
    List.Forall₂ RowStep (db.reservationsOf w) (db'.reservationsOf w) := by
  refine List.rel_filter (fun r r' hs => ?_) h.rows
  change r.workItemId == w ↔ r'.workItemId == w
  rw [hs.workItemId]

/-- An update of reservation rows along `RowStep` is an evolution. -/
theorem evolves_updateWhere {db : Db} {p : Reservation → Bool} {f : Reservation → Reservation}
    (h : ∀ r ∈ db.reservations, p r = true → RowStep r (f r)) :
    Evolves db { db with reservations := Table.updateWhere p f db.reservations } :=
  ⟨Table.forall₂_updateWhere RowStep.refl h, List.forall₂_same.mpr fun b _ => SameTerms.refl b⟩

theorem evolves_updateBudgets {db : Db} {p : Budget → Bool} {f : Budget → Budget}
    (h : ∀ b, SameTerms b (f b)) :
    Evolves db { db with budgets := Table.updateWhere p f db.budgets } :=
  ⟨List.forall₂_same.mpr fun r _ => RowStep.refl r,
    Table.forall₂_updateWhere SameTerms.refl fun b _ _ => h b⟩

/-- A row rewritten from receipts: it goes on naming its call, and it is settled only with the
completed cost of that call. -/
structure ReceiptStep (db : Db) (r r' : Reservation) : Prop where
  step : RowStep r r'
  agentCallId : r'.agentCallId = r.agentCallId
  receipt : r.state ≠ .settled → r'.state = .settled →
    (completedCost db r.agentCallId).isSome

theorem ReceiptStep.refl (db : Db) (r : Reservation) : ReceiptStep db r r :=
  ⟨RowStep.refl r, rfl, fun h h' => absurd h' h⟩

instance (db : Db) : IsTrans Reservation (ReceiptStep db) where
  trans r s u h h' := by
    refine ⟨h.step.trans h'.step, h'.agentCallId.trans h.agentCallId, fun hr hu => ?_⟩
    by_cases hs : s.state = .settled
    · exact h.receipt hr hs
    · rw [← h.agentCallId]
      exact h'.receipt hs hu

theorem receiptStep_finish {db : Db} {r : Reservation} (hr : r.state ≠ .settled) :
    ReceiptStep db r (r.finish (completedCost db r.agentCallId)) where
  step := rowStep_finish hr fun _ => completedCost_nonneg
  agentCallId := rfl
  receipt _ h := by
    unfold Reservation.finish at h
    cases hcost : completedCost db r.agentCallId with
    | none => simp [hcost] at h
    | some cost => rfl

/-- A budget that is at most paused. -/
structure PauseStep (b b' : Budget) : Prop where
  terms : SameTerms b b'
  enabled : b'.enabled = b.enabled

theorem PauseStep.refl (b : Budget) : PauseStep b b := ⟨SameTerms.refl b, rfl⟩

instance : IsTrans Budget PauseStep where
  trans _ _ _ h h' := ⟨h.terms.trans h'.terms, h'.enabled.trans h.enabled⟩

/-- What reconciling and pausing do. -/
structure Reconciles (db db' : Db) : Prop where
  rows : List.Forall₂ (ReceiptStep db) db.reservations db'.reservations
  budgets : List.Forall₂ PauseStep db.budgets db'.budgets
  agentCalls : db'.agentCalls = db.agentCalls

theorem Reconciles.refl (db : Db) : Reconciles db db :=
  ⟨List.forall₂_same.mpr fun r _ => ReceiptStep.refl db r,
    List.forall₂_same.mpr fun b _ => PauseStep.refl b, rfl⟩

theorem receiptStep_congr {db db' : Db} (h : db'.agentCalls = db.agentCalls) {r r' : Reservation}
    (hstep : ReceiptStep db' r r') : ReceiptStep db r r' := by
  refine ⟨hstep.step, hstep.agentCallId, fun hr hr' => ?_⟩
  have hreceipt := hstep.receipt hr hr'
  unfold completedCost Db.getAgentCall at hreceipt ⊢
  rwa [h] at hreceipt

theorem Reconciles.trans {a b c : Db} (h : Reconciles a b) (h' : Reconciles b c) :
    Reconciles a c :=
  ⟨Table.forall₂_trans h.rows (h'.rows.imp fun _ _ => receiptStep_congr h.agentCalls),
    Table.forall₂_trans h.budgets h'.budgets, h'.agentCalls.trans h.agentCalls⟩

theorem Reconciles.evolves {db db' : Db} (h : Reconciles db db') : Evolves db db' :=
  ⟨h.rows.imp fun _ _ hs => hs.step, h.budgets.imp fun _ _ hs => hs.terms⟩

theorem reconciles_updateWhere {db : Db} {p : Reservation → Bool} {f : Reservation → Reservation}
    (h : ∀ r ∈ db.reservations, p r = true → ReceiptStep db r (f r)) :
    Reconciles db { db with reservations := Table.updateWhere p f db.reservations } :=
  ⟨Table.forall₂_updateWhere (ReceiptStep.refl db) h,
    List.forall₂_same.mpr fun b _ => PauseStep.refl b, rfl⟩

theorem reconciles_pauseBudget (w : ℕ) (reason : BudgetReason) (db : Db) :
    Reconciles db (pauseBudget w reason db) :=
  ⟨List.forall₂_same.mpr fun r _ => ReceiptStep.refl db r,
    Table.forall₂_updateWhere PauseStep.refl fun _ _ _ => ⟨⟨rfl, rfl, rfl, rfl⟩, rfl⟩, rfl⟩

theorem reconciles_settleReceipts (w : ℕ) (db : Db) : Reconciles db (settleReceipts w db) := by
  refine reconciles_updateWhere fun r _ hp => receiptStep_finish ?_
  simp only [Bool.and_eq_true, beq_iff_eq] at hp
  simp [hp.1.2]

theorem reconciles_endReservations (env : BudgetEnv) (w : ℕ) (db : Db) :
    Reconciles db (endReservations env w db) := by
  refine reconciles_updateWhere fun r _ hp => receiptStep_finish ?_
  simp only [endsNow, Bool.and_eq_true, beq_iff_eq] at hp
  simp [hp.1.2]

theorem reconciles_reconcileDead (env : BudgetEnv) (w : ℕ) (db : Db) :
    Reconciles db (reconcileDead env w db) := by
  have hends : Reconciles db (endReservations env w (settleReceipts w db)) :=
    (reconciles_settleReceipts w db).trans (reconciles_endReservations env w _)
  unfold reconcileDead
  dsimp only
  split
  · exact hends.trans (reconciles_pauseBudget w .unknown _)
  · exact hends

theorem evolves_reconcileDead (env : BudgetEnv) (w : ℕ) (db : Db) :
    Evolves db (reconcileDead env w db) :=
  (reconciles_reconcileDead env w db).evolves

theorem evolves_attachBudgetCall (reservation : Option ReservationId) (callId : ℕ) (db : Db) :
    Evolves db (attachBudgetCall reservation callId db) := by
  cases reservation with
  | none => exact Evolves.refl db
  | some id =>
    exact evolves_updateWhere fun r _ _ =>
      ⟨rfl, rfl, rfl, fun h => ⟨h, rfl⟩, fun h => h, fun _ => Or.inl rfl, fun h h' => absurd h' h⟩

theorem reconciles_pauseAfterSettling (w : ℕ) (cost : Option ℚ) (db : Db) :
    Reconciles db (pauseAfterSettling w cost db) := by
  unfold pauseAfterSettling
  repeat' split
  all_goals first | exact reconciles_pauseBudget w _ db | exact Reconciles.refl db

/-- A row read by its key is the row of that key: an update by key touches no other. -/
theorem eq_of_getReservation {db : Db} (hkeys : db.reservationKeys.Nodup) {id : ReservationId}
    {row r : Reservation} (hrow : db.getReservation id = some row) (hr : r ∈ db.reservations)
    (hid : r.id = id) : r = row :=
  Table.eq_of_key_eq hkeys hr (Table.lookup_mem hrow) (hid.trans (Table.lookup_key hrow).symm)

theorem evolves_settleBudget {db : Db} (hkeys : db.reservationKeys.Nodup)
    (reservation : Option ReservationId) (notDispatched : Bool) :
    Evolves db (settleBudget reservation notDispatched db) := by
  unfold settleBudget
  split
  · exact Evolves.refl db
  rename_i row hrow
  obtain ⟨id, -, hget⟩ := Option.bind_eq_some_iff.mp hrow
  split
  · exact Evolves.refl db
  rename_i hstate
  refine Evolves.trans (evolves_updateWhere fun r hr hp => ?_) (reconciles_pauseAfterSettling _ _ _).evolves
  have heq : r = row := by
    refine eq_of_getReservation hkeys hget hr ?_
    rw [beq_iff_eq] at hp
    exact hp.trans (Table.lookup_key hget)
  refine rowStep_finish ?_ fun c hc => ?_
  · rw [heq]
    intro hsettled
    rw [hsettled] at hstate
    exact hstate (by decide)
  · cases notDispatched with
    | true => simp at hc; exact hc ▸ le_refl 0
    | false => exact completedCost_nonneg (by simpa using hc)

theorem evolves_changeBudgetState (env : BudgetEnv) (w : ℕ) (action : BudgetAction) (db : Db) :
    Evolves db (db.commit (changeBudgetState env w action db)) := by
  unfold changeBudgetState
  dsimp only
  split
  · exact Evolves.refl db
  split
  · exact evolves_reconcileDead env w db
  · exact (evolves_reconcileDead env w db).trans
      (evolves_updateBudgets fun _ => ⟨rfl, rfl, rfl, rfl⟩)

theorem evolves_reconcileBudgetCost {db : Db} (hkeys : db.reservationKeys.Nodup)
    (env : BudgetEnv) (w : ℕ) (id : ReservationId) (cost : ℚ) (reasonGiven : Bool) :
    Evolves db (db.commit (reconcileBudgetCost env w id cost reasonGiven db)) := by
  unfold reconcileBudgetCost
  split
  · exact Evolves.refl db
  rename_i hvalid
  have hdead := evolves_reconcileDead env w db
  dsimp only
  split
  · exact Evolves.refl db
  rename_i row hrow
  have hget := Option.filter_eq_some_iff.mp hrow
  split
  · exact Evolves.refl db
  rename_i hstate
  split
  · exact Evolves.refl db
  refine hdead.trans (evolves_updateWhere fun r hr hp => ?_)
  have heq : r = row := by
    refine eq_of_getReservation (hdead.reservationKeys ▸ hkeys) hget.1 hr ?_
    simpa using hp
  refine rowStep_finish (heq ▸ hstate) fun c hc => ?_
  obtain rfl := Option.some.inj hc
  push Not at hvalid
  exact hvalid.1

/-! ## 6. What a grant means -/

theorem admissionRefusal_none {now : ℤ} {s : BudgetSnapshot} (h : admissionRefusal now s = none)
    {limit : ℚ} (hlimit : s.budget.limitUsd = some limit) :
    s.budget.pausedReason = none ∧ s.unknownCosts = 0 ∧
      s.spentUsd + s.reservedUsd + s.budget.reservationUsd.getD 0 ≤ limit := by
  unfold admissionRefusal at h
  obtain ⟨hpaused, hrest⟩ := Option.or_eq_none_iff.mp h
  refine ⟨hpaused, ?_⟩
  rw [hlimit] at hrest
  split at hrest
  · simp at hrest
  split at hrest
  · simp at hrest
  rename_i hunknown
  split at hrest
  · simp at hrest
  rename_i hspend
  exact ⟨by simpa using hunknown, by simpa using hspend⟩

/-- **A grant of `reserveBudget`.**  The rows are first reconciled; the new row comes last,
carries the per-call amount, and the budget it was checked against is the one that stays. -/
theorem reserveBudget_granted {env : BudgetEnv} {pid uuid : ℕ} {args : ReserveArgs} {db db' : Db}
    {id : ReservationId} (h : reserveBudget env pid uuid args db = .ok (db', .granted id)) :
    ∃ w s, args.resolve db = some w ∧ snapshot (reconcileDead env w db) w = some s ∧
      s.budget.enabled = true ∧ admissionRefusal env.now s = none ∧ id = .uuid uuid ∧
      insertReservation (reconcileDead env w db)
        (newReservation pid uuid args w s (reconcileDead env w db)) = .ok db' := by
  unfold reserveBudget at h
  split at h
  · simp at h
  rename_i w hw
  dsimp only at h
  split at h
  · simp at h
  rename_i s hs
  split at h
  · simp at h
  rename_i henabled
  split at h
  · simp at h
  rename_i hpass
  refine ⟨w, s, hw, hs, by simpa using henabled, hpass, ?_⟩
  cases hins : insertReservation (reconcileDead env w db)
      (newReservation pid uuid args w s (reconcileDead env w db)) with
  | error e => simp [hins, bind, Except.bind] at h
  | ok db₂ =>
    simp only [hins, bind, Except.bind, pure, Except.pure, Except.ok.injEq, Prod.mk.injEq,
      ReserveOutcome.granted.injEq] at h
    obtain ⟨rfl, rfl⟩ := h
    exact ⟨rfl, rfl⟩

/-- Every other outcome of `reserveBudget` inserts nothing. -/
theorem reserveBudget_other {env : BudgetEnv} {pid uuid : ℕ} {args : ReserveArgs} {db db' : Db}
    {outcome : ReserveOutcome} (h : reserveBudget env pid uuid args db = .ok (db', outcome))
    (hout : ∀ id, outcome ≠ .granted id) : Reconciles db db' := by
  unfold reserveBudget at h
  split at h
  · obtain ⟨rfl, -⟩ := Prod.mk.inj (Except.ok.inj h)
    exact Reconciles.refl db
  rename_i w hw
  have hdead := reconciles_reconcileDead env w db
  dsimp only at h
  split at h
  · obtain ⟨rfl, -⟩ := Prod.mk.inj (Except.ok.inj h)
    exact hdead
  rename_i s _
  split at h
  · obtain ⟨rfl, -⟩ := Prod.mk.inj (Except.ok.inj h)
    exact hdead
  split at h
  · obtain ⟨rfl, -⟩ := Prod.mk.inj (Except.ok.inj h)
    exact hdead.trans (reconciles_pauseBudget w _ _)
  · cases hins : insertReservation (reconcileDead env w db)
        (newReservation pid uuid args w s (reconcileDead env w db)) with
    | error e => simp [hins, bind, Except.bind] at h
    | ok db₂ =>
      simp only [hins, bind, Except.bind, pure, Except.pure, Except.ok.injEq, Prod.mk.injEq] at h
      exact absurd h.2.symm (hout _)

theorem insertReservation_ok {db db' : Db} {r : Reservation}
    (h : insertReservation db r = .ok db') :
    r.id ∉ db.reservationKeys ∧ db' = { db with reservations := db.reservations ++ [r] } := by
  unfold insertReservation at h
  split at h
  · simp at h
  rename_i hnone
  have hget : db.getReservation r.id = none := by simpa using hnone
  refine ⟨fun hmem => ?_, (Except.ok.inj h).symm⟩
  obtain ⟨s, hs, hid⟩ := List.mem_map.mp hmem
  exact Table.lookup_eq_none_iff.mp hget s hs hid

/-- Rows inserted one after another stand behind the old ones, and their keys are new. -/
theorem insertReservations_ok {ι : Type} {g : ι → Reservation} :
    ∀ {xs : List ι} {db db' : Db},
      xs.foldlM (fun d x => insertReservation d (g x)) db = .ok db' →
      db' = { db with reservations := db.reservations ++ xs.map g } ∧
        (db.reservationKeys.Nodup → db'.reservationKeys.Nodup)
  | [], db, db', h => by
    obtain rfl := Except.ok.inj h
    simp
  | x :: xs, db, db', h => by
    rw [List.foldlM_cons] at h
    cases hins : insertReservation db (g x) with
    | error e => simp [hins, bind, Except.bind] at h
    | ok db₁ =>
      rw [hins] at h
      obtain ⟨hnew, hdb₁⟩ := insertReservation_ok hins
      obtain ⟨hdb', hkeys⟩ := @insertReservations_ok _ g xs db₁ db' h
      subst hdb₁
      refine ⟨by simp [hdb'], fun hnd => hkeys ?_⟩
      change ((db.reservations ++ [g x]).map Reservation.id).Nodup
      rw [List.map_append, List.map_singleton, List.nodup_append]
      refine ⟨hnd, List.nodup_singleton _, fun k hk k' hk' heq => hnew ?_⟩
      rw [List.mem_singleton.mp hk'] at heq
      exact heq ▸ hk

/-- **A configuration.**  It stores the thresholds, includes every call that has no row yet,
and may pause. -/
theorem configureAdmissionBudget_ok {now : ℤ} {w : ℕ} {cfg : BudgetConfig} {db db' : Db} {u : Unit}
    (h : configureAdmissionBudget now w cfg db = .ok (db', u)) :
    cfg.valid = true ∧ ∃ db₂,
      includePriorCalls w (upsertBudget w cfg (cfg.deadline now) db) = .ok db₂ ∧
      db' = pauseAfterConfiguring w cfg db₂ := by
  unfold configureAdmissionBudget at h
  split at h
  · simp at h
  rename_i hvalid
  split at h
  · simp at h
  split at h
  · simp at h
  refine ⟨by simpa using hvalid, ?_⟩
  cases hinc : includePriorCalls w (upsertBudget w cfg (cfg.deadline now) db) with
  | error e => simp [hinc, bind, Except.bind] at h
  | ok db₂ =>
    simp only [hinc, bind, Except.bind, pure, Except.pure, Except.ok.injEq, Prod.mk.injEq] at h
    exact ⟨db₂, rfl, h.1.symm⟩

theorem reconciles_pauseAfterConfiguring (w : ℕ) (cfg : BudgetConfig) (db : Db) :
    Reconciles db (pauseAfterConfiguring w cfg db) := by
  unfold pauseAfterConfiguring
  repeat' split
  all_goals first | exact reconciles_pauseBudget w _ db | exact Reconciles.refl db

/-- The budget row after a configuration carries its thresholds. -/
theorem getBudget_upsertBudget (w : ℕ) (cfg : BudgetConfig) (d : Option ℤ) (db : Db) :
    ∃ b, (upsertBudget w cfg d db).getBudget w = some b ∧ b.enabled = true ∧
      b.limitUsd = cfg.limitUsd ∧ b.reservationUsd = cfg.reservationUsd := by
  unfold upsertBudget
  split
  · rename_i hsome
    obtain ⟨b, hb⟩ := Option.isSome_iff_exists.mp hsome
    have hkey : b.workItemId = w := Table.lookup_key hb
    refine ⟨b.configured cfg d, ?_, rfl, rfl, rfl⟩
    change Table.lookup Budget.workItemId w
      (Table.updateWhere _ (Budget.configured cfg d) db.budgets) = _
    unfold Db.getBudget at hb
    rw [Table.lookup_updateWhere, hb]
    · simp [hkey]
    · intro b' _
      rfl
  · rename_i hnone
    have hfind : db.getBudget w = none := by simpa using hnone
    refine ⟨{ workItemId := w, limitUsd := cfg.limitUsd, reservationUsd := cfg.reservationUsd,
              deadlineAt := d }, ?_, rfl, rfl, rfl⟩
    unfold Db.getBudget Table.lookup at hfind ⊢
    rw [List.find?_append, hfind]
    simp

theorem getBudget_upsertBudget_of_ne {w w' : ℕ} (h : w' ≠ w) (cfg : BudgetConfig) (d : Option ℤ)
    (db : Db) : (upsertBudget w cfg d db).getBudget w' = db.getBudget w' := by
  unfold upsertBudget
  split
  · change Table.lookup Budget.workItemId w' (Table.updateWhere _ _ db.budgets) = _
    rw [Table.lookup_updateWhere]
    · change (db.getBudget w').map _ = _
      cases hb : db.getBudget w' with
      | none => rfl
      | some b =>
        have hkey : b.workItemId = w' := Table.lookup_key hb
        have hne : b.workItemId ≠ w := hkey.trans_ne h
        simp [hne]
    · intro b _
      rfl
  · unfold Db.getBudget Table.lookup
    rw [List.find?_append]
    simp [h.symm]

theorem upsertBudget_other (w : ℕ) (cfg : BudgetConfig) (d : Option ℤ) (db : Db) :
    (upsertBudget w cfg d db).reservations = db.reservations ∧
      (upsertBudget w cfg d db).agentCalls = db.agentCalls := by
  unfold upsertBudget
  split <;> exact ⟨rfl, rfl⟩

end PosseClient
