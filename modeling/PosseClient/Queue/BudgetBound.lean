/-
# The admission bound

After one configuration with a spend threshold, worker processes reserve, attach, settle, die,
and an operator pauses, resumes and reconciles, in any order.

* `Reservation.share` is what a row may at most come to count: its reserved amount until it is
  settled, and then the smaller of its cost and that amount.
* `Bounded`: once anything has been granted, every call from before the configuration is
  settled and the shares add up to no more than the limit.  Every function keeps it
  (`bounded_exec`): an update of rows lowers shares, and a grant is checked against the sums.
* `admission_bound`: where no settled call costs more than its reservation, a row counts no
  more than its share, so the snapshot stays within the limit.
-/
import PosseClient.Queue.AdmissionBudget

namespace PosseClient

/-! ## 1. Runs -/

/-- A step of a worker process or of the operator.  `records` stands for all the code that
rewrites jobs, attempts and agent calls between two budget operations. -/
inductive BudgetOp
  | reserve (env : BudgetEnv) (pid uuid : ℕ) (args : ReserveArgs)
  | attach (reservation : Option ReservationId) (callId : ℕ)
  | settle (reservation : Option ReservationId) (notDispatched : Bool)
  | reconcile (env : BudgetEnv) (workItemId : ℕ) (id : ReservationId) (costUsd : ℚ)
      (reasonGiven : Bool)
  | change (env : BudgetEnv) (workItemId : ℕ) (action : BudgetAction)
  | records (jobs : List Job) (attempts : List Attempt) (agentCalls : List AgentCall)

/-- The database after a step. -/
def BudgetOp.exec (db : Db) : BudgetOp → Db
  | .reserve env pid uuid args => db.commit (reserveBudget env pid uuid args db)
  | .attach reservation callId => attachBudgetCall reservation callId db
  | .settle reservation notDispatched => settleBudget reservation notDispatched db
  | .reconcile env w id cost reasonGiven =>
    db.commit (reconcileBudgetCost env w id cost reasonGiven db)
  | .change env w action => db.commit (changeBudgetState env w action db)
  | .records jobs attempts agentCalls => { db with jobs, attempts, agentCalls }

/-! ## 2. What a row counts -/

/-- A row's part of `spent_usd + reserved_usd`. -/
def Reservation.counted (r : Reservation) : ℚ :=
  r.costUsd.getD 0 + if r.state = .reserved then r.reservedUsd.getD 0 else 0

/-- The most a row may come to count, if its call keeps to its reservation.  A row without a
reserved amount is a call from before the configuration. -/
def Reservation.share (r : Reservation) : ℚ :=
  match r.reservedUsd with
  | none => r.costUsd.getD 0
  | some amount => if r.state = .settled then min (r.costUsd.getD 0) amount else amount

/-- The cost of the calls that carry no reservation. -/
def priorCost (rows : List Reservation) : ℚ :=
  ((rows.filter (fun r => r.reservedUsd.isNone)).map (fun r => r.costUsd.getD 0)).sum

theorem spent_add_reserved (rows : List Reservation) :
    spentUsd rows + reservedUsd rows = (rows.map Reservation.counted).sum := by
  induction rows with
  | nil => simp [spentUsd, reservedUsd]
  | cons r rows ih =>
    have hspent : spentUsd (r :: rows) = r.costUsd.getD 0 + spentUsd rows := by simp [spentUsd]
    have hreserved : reservedUsd (r :: rows) =
        (if r.state = .reserved then r.reservedUsd.getD 0 else 0) + reservedUsd rows := by
      unfold reservedUsd
      by_cases hstate : r.state = .reserved
      · simp [hstate]
      · simp [hstate]
    rw [hspent, hreserved, List.map_cons, List.sum_cons, ← ih, Reservation.counted]
    ring

/-- What the writers keep of a row: a cost exactly where it is settled, and never negative; no
call from before the configuration is in the reserved state. -/
structure RowOk (r : Reservation) : Prop where
  paid : r.state = .settled → ∃ cost, 0 ≤ cost ∧ r.costUsd = some cost
  unpaid : r.state ≠ .settled → r.costUsd = none
  prior : r.reservedUsd = none → r.state ≠ .reserved
  amount : ∀ a, r.reservedUsd = some a → 0 ≤ a

theorem RowOk.step {r r' : Reservation} (hr : RowOk r) (h : RowStep r r') : RowOk r' where
  paid hsettled := by
    by_cases hs : r.state = .settled
    · obtain ⟨cost, hpos, hcost⟩ := hr.paid hs
      exact ⟨cost, hpos, (h.settled hs).2.trans hcost⟩
    · exact h.paid hs hsettled
  unpaid hopen := by
    have hs : r.state ≠ .settled := fun hs => hopen (h.settled hs).1
    rcases h.unpaid hopen with heq | hnone
    · exact heq.trans (hr.unpaid hs)
    · exact hnone
  prior hnone hreserved := hr.prior (h.reservedUsd ▸ hnone) (h.reserved hreserved)
  amount a ha := hr.amount a (h.reservedUsd ▸ ha)

/-- A row's share does not grow, unless it is a prior call that is settled only now. -/
theorem share_step {r r' : Reservation} (h : RowStep r r')
    (hprior : r.reservedUsd = none → r.state = .settled) : r'.share ≤ r.share := by
  unfold Reservation.share
  rw [h.reservedUsd]
  cases hamount : r.reservedUsd with
  | none =>
    rw [(h.settled (hprior hamount)).2]
  | some a =>
    by_cases hs : r.state = .settled
    · obtain ⟨hs', hcost⟩ := h.settled hs
      simp [hs, hs', hcost]
    · simp only [hs, if_false]
      split
      · exact min_le_right _ _
      · exact le_refl a

/-- Where no row is unknown, the shares are within what the snapshot counts. -/
theorem share_le_counted {r : Reservation} (hr : RowOk r) (hknown : r.state ≠ .unknown) :
    r.share ≤ r.counted := by
  unfold Reservation.share Reservation.counted
  cases hstate : r.state with
  | unknown => exact absurd hstate hknown
  | settled => cases hamount : r.reservedUsd <;> simp
  | reserved =>
    cases hamount : r.reservedUsd with
    | none => exact absurd hstate (hr.prior hamount)
    | some a => simp [hr.unpaid (by simp [hstate])]

/-- A call that costs at most its reservation counts at most its share. -/
theorem counted_le_share {r : Reservation} (hr : RowOk r)
    (hcost : r.state = .settled → ∀ a, r.reservedUsd = some a → r.costUsd.getD 0 ≤ a) :
    r.counted ≤ r.share := by
  unfold Reservation.share Reservation.counted
  cases hstate : r.state with
  | settled =>
    cases hamount : r.reservedUsd with
    | none => simp
    | some a => simp [hcost hstate a hamount]
  | unknown =>
    rw [hr.unpaid (by simp [hstate])]
    cases hamount : r.reservedUsd with
    | none => simp
    | some a => simpa using hr.amount a hamount
  | reserved =>
    rw [hr.unpaid (by simp [hstate])]
    cases hamount : r.reservedUsd with
    | none => exact absurd hstate (hr.prior hamount)
    | some a => simp

/-! ## 3. The invariant -/

/-- The invariant of one work item under a spend threshold. -/
structure Bounded (w : ℕ) (limit : ℚ) (db : Db) : Prop where
  keys : db.reservationKeys.Nodup
  terms : ∃ b, db.getBudget w = some b ∧ b.limitUsd = some limit ∧
    ∃ amount, 0 < amount ∧ b.reservationUsd = some amount
  rowsOk : ∀ r ∈ db.reservationsOf w, RowOk r
  granted : (∃ r ∈ db.reservationsOf w, r.reservedUsd.isSome) →
    (∀ r ∈ db.reservationsOf w, r.reservedUsd = none → r.state = .settled) ∧
      ((db.reservationsOf w).map Reservation.share).sum ≤ limit

/-- Rewriting rows in place keeps the invariant. -/
theorem Bounded.evolves {w : ℕ} {limit : ℚ} {db db' : Db} (h : Bounded w limit db)
    (he : Evolves db db') : Bounded w limit db' where
  keys := he.reservationKeys ▸ h.keys
  terms := by
    obtain ⟨b, hb, hlimit, amount, hpos, hamount⟩ := h.terms
    obtain ⟨b', hb', hsame⟩ := he.getBudget hb
    exact ⟨b', hb', hsame.limitUsd.trans hlimit, amount, hpos,
      hsame.reservationUsd.trans hamount⟩
  rowsOk r' hr' := by
    obtain ⟨r, hr, hstep⟩ := Table.exists_of_mem_forall₂ (he.reservationsOf w) hr'
    exact (h.rowsOk r hr).step hstep
  granted hg := by
    have hrows := he.reservationsOf w
    obtain ⟨r', hr', hsome⟩ := hg
    obtain ⟨r, hr, hstep⟩ := Table.exists_of_mem_forall₂ hrows hr'
    obtain ⟨hprior, hsum⟩ := h.granted ⟨r, hr, hstep.reservedUsd ▸ hsome⟩
    constructor
    · intro s' hs' hnone
      obtain ⟨s, hs, hstep'⟩ := Table.exists_of_mem_forall₂ hrows hs'
      exact (hstep'.settled (hprior s hs (hstep'.reservedUsd ▸ hnone))).1
    · have hle : List.Forall₂ (fun r' r => r' ≤ r)
          ((db'.reservationsOf w).map Reservation.share)
          ((db.reservationsOf w).map Reservation.share) := by
        rw [List.forall₂_map_left_iff, List.forall₂_map_right_iff]
        have hboth : List.Forall₂ (fun r r' => (r ∈ db.reservationsOf w) ∧ RowStep r r')
            (db.reservationsOf w) (db'.reservationsOf w) :=
          (List.forall₂_and_left _ _).mpr ⟨fun _ hs => hs, hrows⟩
        refine List.Forall₂.flip (hboth.imp fun s s' hs => ?_)
        exact share_step hs.2 (hprior s hs.1)
      exact (List.Forall₂.sum_le_sum hle).trans hsum

theorem mem_reservationsOf {db : Db} {w : ℕ} {r : Reservation} :
    r ∈ db.reservationsOf w ↔ r ∈ db.reservations ∧ r.workItemId = w := by
  simp [Db.reservationsOf, Table.select]

theorem snapshot_some {db : Db} {w : ℕ} {s : BudgetSnapshot} (h : snapshot db w = some s) :
    db.getBudget w = some s.budget ∧ s.spentUsd = spentUsd (db.reservationsOf w) ∧
      s.reservedUsd = reservedUsd (db.reservationsOf w) ∧
      (s.unknownCosts = 0 → ∀ r ∈ db.reservationsOf w, r.state ≠ .unknown) := by
  obtain ⟨b, hb, rfl⟩ := Option.map_eq_some_iff.mp h
  refine ⟨hb, rfl, rfl, fun hzero r hr => ?_⟩
  simpa using Table.changes_eq_zero_iff.mp hzero r hr

/-- A grant for this work item leaves room for its reservation. -/
theorem Bounded.grant {w : ℕ} {limit : ℚ} {db db' : Db} {env : BudgetEnv} {pid uuid : ℕ}
    {args : ReserveArgs} {s : BudgetSnapshot} (h : Bounded w limit db)
    (hs : snapshot db w = some s) (hpass : admissionRefusal env.now s = none)
    (hins : insertReservation db (newReservation pid uuid args w s db) = .ok db') :
    Bounded w limit db' := by
  obtain ⟨hnew, rfl⟩ := insertReservation_ok hins
  obtain ⟨b, hb, hlimit, amount, hpos, hamount⟩ := h.terms
  obtain ⟨hbudget, hspent, hreserved, hunknown⟩ := snapshot_some hs
  obtain rfl : b = s.budget := Option.some.inj (hb.symm.trans hbudget)
  obtain ⟨-, hzero, hroom⟩ := admissionRefusal_none hpass hlimit
  have hknown := hunknown hzero
  have hrows : Db.reservationsOf { db with
      reservations := db.reservations ++ [newReservation pid uuid args w s db] } w =
        db.reservationsOf w ++ [newReservation pid uuid args w s db] := by
    simp [Db.reservationsOf, Table.select, newReservation]
  have hrowOk : RowOk (newReservation pid uuid args w s db) :=
    { paid := fun hsettled => by simp [newReservation] at hsettled
      unpaid := fun _ => rfl
      prior := fun hnone => by simp [newReservation, hamount] at hnone
      amount := fun a ha => by
        have ha' : some amount = some a := hamount.symm.trans ha
        exact Option.some.inj ha' ▸ hpos.le }
  refine ⟨?_, ⟨s.budget, hb, hlimit, amount, hpos, hamount⟩, ?_, fun _ => ⟨?_, ?_⟩⟩
  · change ((db.reservations ++ [newReservation pid uuid args w s db]).map Reservation.id).Nodup
    rw [List.map_append, List.map_singleton, List.nodup_append]
    refine ⟨h.keys, List.nodup_singleton _, fun k hk k' hk' heq => hnew ?_⟩
    rw [List.mem_singleton.mp hk'] at heq
    exact heq ▸ hk
  · intro r hr
    rw [hrows] at hr
    rcases List.mem_append.mp hr with hold | hlast
    · exact h.rowsOk r hold
    · exact List.mem_singleton.mp hlast ▸ hrowOk
  · intro r hr hnone
    rw [hrows] at hr
    rcases List.mem_append.mp hr with hold | hlast
    · cases hstate : r.state with
      | settled => rfl
      | unknown => exact absurd hstate (hknown r hold)
      | reserved => exact absurd hstate ((h.rowsOk r hold).prior hnone)
    · rw [List.mem_singleton.mp hlast] at hnone
      simp [newReservation, hamount] at hnone
  · have hshare : (newReservation pid uuid args w s db).share = amount := by
      simp [Reservation.share, newReservation, hamount]
    have hold : ((db.reservationsOf w).map Reservation.share).sum ≤
        ((db.reservationsOf w).map Reservation.counted).sum :=
      List.sum_le_sum fun r hr => share_le_counted (h.rowsOk r hr) (hknown r hr)
    rw [← spent_add_reserved, ← hspent, ← hreserved] at hold
    rw [hamount, Option.getD_some] at hroom
    rw [hrows, List.map_append, List.sum_append, List.map_singleton, List.sum_singleton, hshare]
    linarith

/-- A row of another work item does not matter to this one. -/
theorem Bounded.insert_other {w w' : ℕ} {limit : ℚ} {db db' : Db} {r : Reservation}
    (h : Bounded w limit db) (hw : r.workItemId = w') (hne : w' ≠ w)
    (hins : insertReservation db r = .ok db') : Bounded w limit db' := by
  obtain ⟨hnew, rfl⟩ := insertReservation_ok hins
  have hrows : Db.reservationsOf { db with reservations := db.reservations ++ [r] } w =
      db.reservationsOf w := by
    simp [Db.reservationsOf, Table.select, hw, hne]
  refine ⟨?_, h.terms, hrows ▸ h.rowsOk, hrows ▸ h.granted⟩
  change ((db.reservations ++ [r]).map Reservation.id).Nodup
  rw [List.map_append, List.map_singleton, List.nodup_append]
  refine ⟨h.keys, List.nodup_singleton _, fun k hk k' hk' heq => hnew ?_⟩
  rw [List.mem_singleton.mp hk'] at heq
  exact heq ▸ hk

/-- **One step keeps the invariant.** -/
theorem bounded_exec {w : ℕ} {limit : ℚ} (db : Db) (op : BudgetOp) (h : Bounded w limit db) :
    Bounded w limit (op.exec db) := by
  cases op with
  | reserve env pid uuid args =>
    change Bounded w limit (db.commit (reserveBudget env pid uuid args db))
    cases hres : reserveBudget env pid uuid args db with
    | error e => exact h
    | ok r =>
      obtain ⟨db', outcome⟩ := r
      cases outcome with
      | unbudgeted => exact h.evolves (reserveBudget_other hres (by simp)).evolves
      | refused reason => exact h.evolves (reserveBudget_other hres (by simp)).evolves
      | granted id =>
        obtain ⟨w', s, -, hs, -, hpass, -, hins⟩ := reserveBudget_granted hres
        have hdead := h.evolves (evolves_reconcileDead env w' db)
        by_cases hw : w' = w
        · subst hw
          exact hdead.grant hs hpass hins
        · exact hdead.insert_other rfl hw hins
  | attach reservation callId => exact h.evolves (evolves_attachBudgetCall reservation callId db)
  | settle reservation notDispatched =>
    exact h.evolves (evolves_settleBudget h.keys reservation notDispatched)
  | reconcile env w' id cost reasonGiven =>
    exact h.evolves (evolves_reconcileBudgetCost h.keys env w' id cost reasonGiven)
  | change env w' action => exact h.evolves (evolves_changeBudgetState env w' action db)
  | records jobs attempts agentCalls => exact ⟨h.keys, h.terms, h.rowsOk, h.granted⟩

/-! ## 4. The invariant holds after the configuration -/

theorem rowOk_historicalRow (w : ℕ) (db : Db) (call : AgentCall) :
    RowOk (historicalRow w db call) where
  paid hsettled := by
    unfold historicalRow Reservation.finish at hsettled ⊢
    cases hcost : completedCost db (some call.id) with
    | none => simp [hcost] at hsettled
    | some cost => exact ⟨cost, completedCost_nonneg hcost, rfl⟩
  unpaid hopen := by
    unfold historicalRow Reservation.finish at hopen ⊢
    cases hcost : completedCost db (some call.id) with
    | none => rfl
    | some cost => simp [hcost] at hopen
  prior _ := by
    unfold historicalRow Reservation.finish
    cases completedCost db (some call.id) <;> simp
  amount a ha := by simp [historicalRow, Reservation.finish] at ha

/-- The rows of a work item right after its first configuration are those of prior calls. -/
theorem bounded_configure {now : ℤ} {w : ℕ} {limit : ℚ} {cfg : BudgetConfig} {db db' : Db}
    {u : Unit} (hkeys : db.reservationKeys.Nodup) (hnew : db.reservationsOf w = [])
    (hlimit : cfg.limitUsd = some limit)
    (hcfg : configureAdmissionBudget now w cfg db = .ok (db', u)) :
    0 < limit ∧ Bounded w limit db' := by
  obtain ⟨hvalid, db₂, hinc, rfl⟩ := configureAdmissionBudget_ok hcfg
  obtain ⟨hrows, hkeys₂⟩ := insertReservations_ok hinc
  obtain ⟨b, hb, -, hblimit, hbamount⟩ := getBudget_upsertBudget w cfg (cfg.deadline now) db
  have hupsert := (upsertBudget_other w cfg (cfg.deadline now) db).1
  have hpositive : 0 < limit ∧ ∃ amount, 0 < amount ∧ cfg.reservationUsd = some amount := by
    unfold BudgetConfig.valid at hvalid
    cases hamount : cfg.reservationUsd with
    | none => simp [hlimit, hamount] at hvalid
    | some amount =>
      simp only [hlimit, hamount, List.all_cons, Option.all_some, Bool.and_eq_true,
        decide_eq_true_eq] at hvalid
      exact ⟨hvalid.1.1.1, amount, hvalid.1.1.2.1, rfl⟩
  obtain ⟨hpos, amount, hamountPos, hamount⟩ := hpositive
  refine ⟨hpos, Bounded.evolves ?_ (reconciles_pauseAfterConfiguring w cfg db₂).evolves⟩
  have hhistorical : ∀ r ∈ db₂.reservationsOf w,
      ∃ call, r = historicalRow w (upsertBudget w cfg (cfg.deadline now) db) call := by
    intro r hr
    obtain ⟨hmem, hw⟩ := mem_reservationsOf.mp hr
    rw [hrows] at hmem
    rcases List.mem_append.mp hmem with hold | hinserted
    · have : r ∈ db.reservationsOf w := mem_reservationsOf.mpr ⟨hupsert ▸ hold, hw⟩
      rw [hnew] at this
      simp at this
    · obtain ⟨call, -, rfl⟩ := List.mem_map.mp hinserted
      exact ⟨call, rfl⟩
  refine ⟨hkeys₂ ?_, ⟨b, ?_, hblimit.trans hlimit, amount, hamountPos, hbamount.trans hamount⟩,
    ?_, ?_⟩
  · unfold Db.reservationKeys
    rw [hupsert]
    exact hkeys
  · rw [hrows]
    exact hb
  · intro r hr
    obtain ⟨call, rfl⟩ := hhistorical r hr
    exact rowOk_historicalRow w _ call
  · rintro ⟨r, hr, hsome⟩
    obtain ⟨call, rfl⟩ := hhistorical r hr
    simp [historicalRow, Reservation.finish] at hsome

/-! ## 5. The bound -/

/-- Under the invariant, calls that keep to their reservations keep the sums within the limit,
or within what the prior calls alone cost. -/
theorem Bounded.counted_le {w : ℕ} {limit : ℚ} {db : Db} (h : Bounded w limit db)
    (hcost : ∀ r ∈ db.reservationsOf w, r.state = .settled →
      ∀ a, r.reservedUsd = some a → r.costUsd.getD 0 ≤ a) :
    spentUsd (db.reservationsOf w) + reservedUsd (db.reservationsOf w) ≤
      max limit (priorCost (db.reservationsOf w)) := by
  rw [spent_add_reserved]
  have hshare : ((db.reservationsOf w).map Reservation.counted).sum ≤
      ((db.reservationsOf w).map Reservation.share).sum :=
    List.sum_le_sum fun r hr => counted_le_share (h.rowsOk r hr) (hcost r hr)
  by_cases hg : ∃ r ∈ db.reservationsOf w, r.reservedUsd.isSome
  · exact (hshare.trans (h.granted hg).2).trans (le_max_left _ _)
  · -- nothing was granted: every row is a prior call, and its share is its cost
    push Not at hg
    have hall : ∀ r ∈ db.reservationsOf w, r.reservedUsd = none := fun r hr => by
      simpa using hg r hr
    have hprior : ((db.reservationsOf w).map Reservation.share).sum =
        priorCost (db.reservationsOf w) := by
      have hfilter : (db.reservationsOf w).filter (fun r => r.reservedUsd.isNone) =
          db.reservationsOf w :=
        List.filter_eq_self.mpr fun r hr => by simp [hall r hr]
      unfold priorCost
      rw [hfilter]
      refine congrArg List.sum (List.map_congr_left fun r hr => ?_)
      simp [Reservation.share, hall r hr]
    exact (hshare.trans hprior.le).trans (le_max_right _ _)

theorem isBudgetPaused_pauseBudget {db : Db} {w w' : ℕ} {reason : BudgetReason}
    (h : isBudgetPaused db (some w) = true) :
    isBudgetPaused (pauseBudget w' reason db) (some w) = true := by
  unfold isBudgetPaused at h ⊢
  rw [Option.bind_some] at h ⊢
  cases hb : db.getBudget w with
  | none => simp [hb] at h
  | some b =>
    rw [hb, Option.any_some] at h
    change ((Table.lookup Budget.workItemId w (Table.updateWhere _ _ db.budgets)).any _) = true
    unfold Db.getBudget at hb
    rw [Table.lookup_updateWhere, hb]
    · simp only [Option.map_some, Option.any_some]
      split
      · simp only [Bool.and_eq_true] at h
        simp [h.1]
      · exact h
    · intro b' _
      rfl

theorem isBudgetPaused_reconcileDead {db : Db} {env : BudgetEnv} {w w' : ℕ}
    (h : isBudgetPaused db (some w) = true) :
    isBudgetPaused (reconcileDead env w' db) (some w) = true := by
  unfold reconcileDead
  dsimp only
  split
  · exact isBudgetPaused_pauseBudget h
  · exact h

/-- A grant is made in a state without unknown costs, and neither before nor after it is the
budget paused. -/
theorem grant_known_and_open {w : ℕ} {limit : ℚ} {db db' : Db} (h : Bounded w limit db)
    {env : BudgetEnv} {pid uuid : ℕ} {args : ReserveArgs} {id : ReservationId}
    (hw : args.resolve db = some w)
    (hgrant : reserveBudget env pid uuid args db = .ok (db', .granted id)) :
    (∀ r ∈ db'.reservationsOf w, r.state ≠ .unknown) ∧
      isBudgetPaused db (some w) = false ∧ isBudgetPaused db' (some w) = false := by
  obtain ⟨w', s, hw', hs, -, hpass, -, hins⟩ := reserveBudget_granted hgrant
  obtain rfl : w' = w := Option.some.inj (hw'.symm.trans hw)
  obtain ⟨-, rfl⟩ := insertReservation_ok hins
  have hdead := h.evolves (evolves_reconcileDead env w' db)
  obtain ⟨b, hb, hlimit, -⟩ := hdead.terms
  obtain ⟨hbudget, -, -, hunknown⟩ := snapshot_some hs
  obtain rfl : b = s.budget := Option.some.inj (hb.symm.trans hbudget)
  obtain ⟨hpaused, hzero, -⟩ := admissionRefusal_none hpass hlimit
  have hopen : isBudgetPaused (reconcileDead env w' db) (some w') = false := by
    unfold isBudgetPaused
    rw [Option.bind_some, hbudget]
    simp [hpaused]
  refine ⟨fun r hr => ?_, ?_, hopen⟩
  · obtain ⟨hmem, hrw⟩ := mem_reservationsOf.mp hr
    rcases List.mem_append.mp hmem with hold | hlast
    · exact hunknown hzero r (mem_reservationsOf.mpr ⟨hold, hrw⟩)
    · rw [List.mem_singleton.mp hlast]
      simp [newReservation]
  · cases hbefore : isBudgetPaused db (some w') with
    | false => rfl
    | true =>
      have hstill : isBudgetPaused (reconcileDead env w' db) (some w') = true :=
        isBudgetPaused_reconcileDead hbefore
      rw [hopen] at hstill
      simp at hstill

/-- **The admission bound.**  After the first configuration of a work item's budget with the
spend threshold `limit`, and after any sequence of steps: the threshold is still there; where
every settled call costs at most its reservation (`reserved_usd ?? 0`), the spent and reserved
amounts are within it; where only the calls that have a reservation are asked to keep to it,
they are within it or within what the prior calls cost; and a reservation is granted only where
no cost of the work item is unknown and its budget is not paused. -/
theorem admission_bound {now : ℤ} {w : ℕ} {limit : ℚ} {cfg : BudgetConfig} {db₀ db₁ : Db}
    (hkeys : db₀.reservationKeys.Nodup) (hnew : db₀.reservationsOf w = [])
    (hlimit : cfg.limitUsd = some limit)
    (hcfg : configureAdmissionBudget now w cfg db₀ = .ok (db₁, ())) (ops : List BudgetOp) :
    let db := Runs.run BudgetOp.exec db₁ ops
    let rows := db.reservationsOf w
    (∃ s, snapshot db w = some s ∧ s.budget.limitUsd = some limit ∧
      ((∀ r ∈ rows, r.state = .settled → r.costUsd.getD 0 ≤ r.reservedUsd.getD 0) →
        s.budget.enabled = true → s.spentUsd + s.reservedUsd ≤ limit) ∧
      ((∀ r ∈ rows, r.state = .settled → ∀ a, r.reservedUsd = some a → r.costUsd.getD 0 ≤ a) →
        s.spentUsd + s.reservedUsd ≤ max limit (priorCost rows))) ∧
    ∀ env pid uuid args db' id, args.resolve db = some w →
      reserveBudget env pid uuid args db = .ok (db', .granted id) →
      (∀ r ∈ db'.reservationsOf w, r.state ≠ .unknown) ∧
        isBudgetPaused db (some w) = false ∧ isBudgetPaused db' (some w) = false := by
  intro db rows
  obtain ⟨hpos, hstart⟩ := bounded_configure hkeys hnew hlimit hcfg
  have h : Bounded w limit db :=
    Runs.run_invariant_of_forall (fun db op h => bounded_exec db op h) hstart
  refine ⟨?_, fun env pid uuid args db' id hw hgrant => grant_known_and_open h hw hgrant⟩
  obtain ⟨b, hb, hblimit, -⟩ := h.terms
  refine ⟨_, Option.map_eq_some_iff.mpr ⟨b, hb, rfl⟩, hblimit, fun hcost _ => ?_,
    fun hcost => h.counted_le hcost⟩
  have hbound := h.counted_le fun r hr hsettled a ha => by
    simpa [ha] using hcost r hr hsettled
  -- a prior call with a cost would have cost more than its reservation, which is none
  have hprior : priorCost rows ≤ 0 := by
    have hle := List.sum_le_card_nsmul
      ((rows.filter (fun r => r.reservedUsd.isNone)).map (fun r => r.costUsd.getD 0)) 0 fun x hx => by
        obtain ⟨r, hr, rfl⟩ := List.mem_map.mp hx
        obtain ⟨hmem, hnone⟩ := List.mem_filter.mp hr
        have hnone' : r.reservedUsd = none := by simpa using hnone
        by_cases hsettled : r.state = .settled
        · simpa [hnone'] using hcost r hmem hsettled
        · simp [(h.rowsOk r hmem).unpaid hsettled]
    simpa [priorCost] using hle
  exact hbound.trans (max_le (le_refl limit) (hprior.trans hpos.le))

/-- One call is reserved, attached, priced and settled under a threshold of five. -/
theorem admission_bound_one_call :
    let env : BudgetEnv := ⟨0, fun _ => true⟩
    let db₀ : Db := { workItems := [{ id := 1, status := .running }] }
    let cfg : BudgetConfig := { limitUsd := some 5, reservationUsd := some 2 }
    let call : AgentCall := { id := 7, workItemId := some 1, status := .succeeded,
                              billingPrecision := some .exact, costEstimateUsd := some 1 }
    ∃ db₁ s, configureAdmissionBudget 0 1 cfg db₀ = .ok (db₁, ()) ∧
      snapshot (Runs.run BudgetOp.exec db₁
        [.reserve env 10 0 { workItemId := some 1 }, .attach (some (.uuid 0)) 7,
          .records [] [] [call], .settle (some (.uuid 0)) false]) 1 = some s ∧
      s.spentUsd + s.reservedUsd ≤ 5 := by
  intro env db₀ cfg call
  have hcfg : configureAdmissionBudget 0 1 cfg db₀ = .ok (
      { db₀ with budgets := [{ workItemId := 1, limitUsd := some 5, reservationUsd := some 2 }] },
      ()) := by
    decide +kernel
  obtain ⟨s, hs, -, hbound, -⟩ := (admission_bound (by decide) rfl rfl hcfg
    [.reserve env 10 0 { workItemId := some 1 }, .attach (some (.uuid 0)) 7,
      .records [] [] [call], .settle (some (.uuid 0)) false]).1
  refine ⟨_, s, hcfg, hs, hbound (by decide +kernel) ?_⟩
  have henabled : (snapshot (Runs.run BudgetOp.exec
      { db₀ with budgets := [{ workItemId := 1, limitUsd := some 5, reservationUsd := some 2 }] }
        [.reserve env 10 0 { workItemId := some 1 }, .attach (some (.uuid 0)) 7,
          .records [] [] [call], .settle (some (.uuid 0)) false]) 1).map (·.budget.enabled) =
      some true := by
    decide +kernel
  rw [hs] at henabled
  exact Option.some.inj henabled

end PosseClient
