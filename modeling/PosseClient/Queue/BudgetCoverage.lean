/-
# Which agent calls a budget counts

A provider call goes through four transactions of one process (`_executeOneAttempt`): reserve,
create the agent call, attach it to the reservation, settle.  `BudgetSystem` is the database
with the calls under way, and a run interleaves their transactions with the operator's.

* `Linked`: keys are unique, and a row stands for the call it was reserved for, or for the call
  a configuration included, and for no other.
* `Counted`: a settled row stands for no running call, a reserved row carries the per-call
  amount, and under an enabled spend threshold every call has a row.
* The configuration includes earlier calls; switching a budget back on does not, and an amount
  that was reserved under other terms is not raised.  `CoverageOk` is the condition under which
  neither matters, and `spend_is_covered` is what then holds in every state of a run.
-/
import PosseClient.Queue.AdmissionBudget

namespace PosseClient

/-! ## 1. Provider calls -/

/-- The local state of one `_executeOneAttempt`. -/
structure ProviderCall where
  handle : ℕ
  args : ReserveArgs
  reservation : Option ReservationId := none
  callId : Option ℕ := none
  settled : Bool := false
  deriving DecidableEq, Repr

/-- The database and the provider calls of all processes. -/
structure BudgetSystem where
  db : Db
  clients : List ProviderCall

/-- A provider call by its handle. -/
def BudgetSystem.client (s : BudgetSystem) (handle : ℕ) : Option ProviderCall :=
  Table.lookup ProviderCall.handle handle s.clients

/-- `reserveBudget` at the start of an attempt; where it throws there is no attempt. -/
def beginAttempt (env : BudgetEnv) (pid uuid handle : ℕ) (args : ReserveArgs)
    (s : BudgetSystem) : BudgetSystem :=
  if (s.client handle).isSome then s
  else match reserveBudget env pid uuid args s.db with
    | .error _ => s
    | .ok (db, .refused _) => { s with db }
    | .ok (db, .unbudgeted) => { db, clients := s.clients ++ [{ handle, args }] }
    | .ok (db, .granted id) =>
      { db, clients := s.clients ++ [{ handle, args, reservation := some id }] }

/-- `createAgentCall`: the row is running, and belongs to the work item of the attempt. -/
def createAgentCall (callId : ℕ) (args : ReserveArgs) (db : Db) : Db :=
  { db with
    agentCalls := db.agentCalls ++
      [{ id := callId, workItemId := args.workItemId, jobId := args.jobId,
         attemptId := args.attemptId }] }

/-- `createAgentCall` in an attempt; the key is new. -/
def createCall (handle callId : ℕ) (s : BudgetSystem) : BudgetSystem :=
  match s.client handle with
  | none => s
  | some c =>
    if c.callId.isSome || c.settled || (s.db.getAgentCall callId).isSome then s
    else
      { db := createAgentCall callId c.args s.db
        clients := Table.updateWhere (fun c => c.handle == handle)
          (fun c => { c with callId := some callId }) s.clients }

/-- `attachBudgetCall`, in the callback of the creation. -/
def attachCall (handle : ℕ) (s : BudgetSystem) : BudgetSystem :=
  match s.client handle with
  | none => s
  | some c =>
    match c.callId with
    | none => s
    | some callId => { s with db := attachBudgetCall c.reservation callId s.db }

/-- `completeAgentCall`. -/
def completeAgentCall (callId : ℕ) (status : AgentCallStatus)
    (billingPrecision : Option BillingPrecision) (costEstimateUsd : Option ℚ) (db : Db) : Db :=
  { db with
    agentCalls := Table.updateWhere (fun a => a.id == callId)
      (fun a => { a with
        status
        billingPrecision := billingPrecision.or a.billingPrecision
        costEstimateUsd := costEstimateUsd.or a.costEstimateUsd }) db.agentCalls }

/-- `settleBudget(reservation, { notDispatched: !callCreated })`, in the `finally` block. -/
def settleCall (handle : ℕ) (s : BudgetSystem) : BudgetSystem :=
  match s.client handle with
  | none => s
  | some c =>
    if c.settled then s
    else
      { db := settleBudget c.reservation c.callId.isNone s.db
        clients := Table.updateWhere (fun c => c.handle == handle)
          (fun c => { c with settled := true }) s.clients }

/-! ## 2. Runs -/

/-- A transaction of a process or of the operator.  `records` stands for the code that rewrites
jobs and attempts. -/
inductive CoverageOp
  | configure (now : ℤ) (workItemId : ℕ) (cfg : BudgetConfig)
  | change (env : BudgetEnv) (workItemId : ℕ) (action : BudgetAction)
  | begin (env : BudgetEnv) (pid uuid handle : ℕ) (args : ReserveArgs)
  | create (handle callId : ℕ)
  | attach (handle : ℕ)
  | complete (callId : ℕ) (status : {s : AgentCallStatus // s ≠ .running})
      (billingPrecision : Option BillingPrecision) (costEstimateUsd : Option ℚ)
  | settle (handle : ℕ)
  | records (jobs : List Job) (attempts : List Attempt)

/-- The system after a transaction. -/
def CoverageOp.exec (s : BudgetSystem) : CoverageOp → BudgetSystem
  | .configure now w cfg =>
    { s with db := s.db.commit (configureAdmissionBudget now w cfg s.db) }
  | .change env w action => { s with db := s.db.commit (changeBudgetState env w action s.db) }
  | .begin env pid uuid handle args => beginAttempt env pid uuid handle args s
  | .create handle callId => createCall handle callId s
  | .attach handle => attachCall handle s
  | .complete callId status precision cost =>
    { s with db := completeAgentCall callId status precision cost s.db }
  | .settle handle => settleCall handle s
  | .records jobs attempts => { s with db := { s.db with jobs, attempts } }

/-- A reservation row stands for an agent call: it names the call, or it is the reservation of
the attempt that made the call. -/
def StandsFor (s : BudgetSystem) (r : Reservation) (callId : ℕ) : Prop :=
  r.agentCallId = some callId ∨
    ∃ c ∈ s.clients, c.callId = some callId ∧ c.reservation = some r.id

/-- No spend is left out: under an enabled spend threshold every agent call of the work item has
exactly one reservation row, a row of that work item, and as long as the call runs the row is
unknown or holds at least the per-call amount. -/
def SpendCovered (s : BudgetSystem) : Prop :=
  ∀ w b, s.db.getBudget w = some b → b.enabled = true → b.limitUsd.isSome →
    ∀ a ∈ s.db.agentCalls, a.workItemId = some w →
      ∃ r ∈ s.db.reservations, r.workItemId = w ∧ StandsFor s r a.id ∧
        (∀ r' ∈ s.db.reservations, StandsFor s r' a.id → r' = r) ∧
        (a.status = .running → r.state = .unknown ∨
          (r.state = .reserved ∧ b.reservationUsd.getD 0 ≤ r.reservedUsd.getD 0))

/-- A change of state switches a spend threshold on that was off. -/
def switchesOn (env : BudgetEnv) (w : ℕ) (action : BudgetAction) (db : Db) : Bool :=
  (snapshot (reconcileDead env w db) w).any fun s =>
    !s.budget.enabled && s.budget.limitUsd.isSome && action != .disable &&
      !(action == .resume && resumeBlocked env.now s)

/-- The condition on a transaction and on the state before it.

* A configuration finds every call made under a reservation attached to it, and, if it sets a
  spend threshold, no open reservation of less than the new per-call amount.
* A threshold that is switched on again finds no call of the work item without a row.
* An attempt that reserved nothing does not create its call under an enabled threshold. -/
def CoverageOk (s : BudgetSystem) : CoverageOp → Prop
  | .configure _ w cfg => cfg.valid = true →
    (∀ c ∈ s.clients, c.args.workItemId = some w → c.reservation.isSome → c.callId.isSome →
      ∃ r ∈ s.db.reservations, r.agentCallId = c.callId) ∧
    (cfg.limitUsd.isSome → ∀ r ∈ s.db.reservationsOf w, r.state = .reserved →
      cfg.reservationUsd.getD 0 ≤ r.reservedUsd.getD 0)
  | .change env w action => switchesOn env w action s.db = true →
    ∀ a ∈ s.db.agentCalls, a.workItemId = some w → ∃ r ∈ s.db.reservations, StandsFor s r a.id
  | .create handle _ => ∀ c w b, s.client handle = some c → c.reservation = none →
    c.args.workItemId = some w → s.db.getBudget w = some b → b.enabled = true → b.limitUsd = none
  | _ => True

/-! ## 3. The invariant -/

/-- Which row stands for which call. -/
structure Linked (s : BudgetSystem) : Prop where
  rowKeys : s.db.reservationKeys.Nodup
  callKeys : (s.db.agentCalls.map AgentCall.id).Nodup
  handles : (s.clients.map ProviderCall.handle).Nodup
  made : ∀ c ∈ s.clients, ∀ a, c.callId = some a →
    ∃ call ∈ s.db.agentCalls, call.id = a ∧ call.workItemId = c.args.workItemId
  callOwner : ∀ c ∈ s.clients, ∀ c' ∈ s.clients, ∀ a, c.callId = some a → c'.callId = some a →
    c = c'
  rowOwner : ∀ c ∈ s.clients, ∀ c' ∈ s.clients, ∀ k, c.reservation = some k →
    c'.reservation = some k → c = c'
  reserved : ∀ c ∈ s.clients, ∀ k, c.reservation = some k → (∃ n, k = .uuid n) ∧
    ∃ r ∈ s.db.reservations, r.id = k ∧ ∀ w, c.args.workItemId = some w → r.workItemId = w
  named : ∀ r ∈ s.db.reservations, ∀ a, r.agentCallId = some a → r.id = .historical a ∨
    ∃ c ∈ s.clients, c.callId = some a ∧ c.reservation = some r.id
  historical : ∀ r ∈ s.db.reservations, ∀ a, r.id = .historical a →
    (∃ call ∈ s.db.agentCalls, call.id = a ∧ call.workItemId = some r.workItemId) ∧
      ∀ c ∈ s.clients, c.callId = some a → c.reservation = none

/-- What the rows count. -/
structure Counted (s : BudgetSystem) : Prop where
  settledCalls : ∀ r ∈ s.db.reservations, r.state = .settled →
    ∀ a ∈ s.db.agentCalls, StandsFor s r a.id → a.status ≠ .running
  settledClients : ∀ r ∈ s.db.reservations, r.state = .settled →
    ∀ c ∈ s.clients, c.reservation = some r.id → c.callId = none → c.settled = true
  amounts : ∀ w b, s.db.getBudget w = some b → b.limitUsd.isSome →
    ∀ r ∈ s.db.reservations, r.workItemId = w → r.state = .reserved →
      b.reservationUsd.getD 0 ≤ r.reservedUsd.getD 0
  covered : ∀ w b, s.db.getBudget w = some b → b.enabled = true → b.limitUsd.isSome →
    ∀ a ∈ s.db.agentCalls, a.workItemId = some w → ∃ r ∈ s.db.reservations, StandsFor s r a.id

/-- A row and the call it stands for belong together by one of two links. -/
theorem Linked.link {s : BudgetSystem} (h : Linked s) {r : Reservation}
    (hr : r ∈ s.db.reservations) {a : ℕ} (hstands : StandsFor s r a) :
    r.id = .historical a ∨ ∃ c ∈ s.clients, c.callId = some a ∧ c.reservation = some r.id := by
  rcases hstands with hnames | hclient
  · exact h.named r hr a hnames
  · exact Or.inr hclient

/-- A call has at most one row. -/
theorem Linked.unique {s : BudgetSystem} (h : Linked s) {r r' : Reservation}
    (hr : r ∈ s.db.reservations) (hr' : r' ∈ s.db.reservations) {a : ℕ}
    (hs : StandsFor s r a) (hs' : StandsFor s r' a) : r = r' := by
  refine Table.eq_of_key_eq h.rowKeys hr hr' ?_
  rcases h.link hr hs with hid | ⟨c, hc, hcall, hres⟩
  · rcases h.link hr' hs' with hid' | ⟨c', hc', hcall', hres'⟩
    · rw [hid, hid']
    · have hnone := (h.historical r hr a hid).2 c' hc' hcall'
      rw [hnone] at hres'
      simp at hres'
  · rcases h.link hr' hs' with hid' | ⟨c', hc', hcall', hres'⟩
    · have hnone := (h.historical r' hr' a hid').2 c hc hcall
      rw [hnone] at hres
      simp at hres
    · have hsame := h.callOwner c hc c' hc' a hcall hcall'
      rw [hsame] at hres
      exact Option.some.inj (hres.symm.trans hres')

/-- The row of a call belongs to the call's work item. -/
theorem Linked.sameWorkItem {s : BudgetSystem} (h : Linked s) {r : Reservation}
    (hr : r ∈ s.db.reservations) {a : AgentCall} (ha : a ∈ s.db.agentCalls) {w : ℕ}
    (hw : a.workItemId = some w) (hstands : StandsFor s r a.id) : r.workItemId = w := by
  rcases h.link hr hstands with hid | ⟨c, hc, hcall, hres⟩
  · obtain ⟨call, hmem, hcallId, hcallW⟩ := (h.historical r hr a.id hid).1
    have heq : call = a := Table.eq_of_key_eq h.callKeys hmem ha hcallId
    rw [heq, hw] at hcallW
    exact (Option.some.inj hcallW).symm
  · obtain ⟨call, hmem, hcallId, hcallW⟩ := h.made c hc a.id hcall
    have heq : call = a := Table.eq_of_key_eq h.callKeys hmem ha hcallId
    obtain ⟨-, r₀, hr₀, hid₀, hr₀w⟩ := h.reserved c hc r.id hres
    have hrow : r₀ = r := Table.eq_of_key_eq h.rowKeys hr₀ hr hid₀
    exact hrow ▸ hr₀w w (by rw [← hcallW, heq, hw])

/-- The invariant gives the property. -/
theorem spendCovered_of_inv {s : BudgetSystem} (hl : Linked s) (hc : Counted s) :
    SpendCovered s := by
  intro w b hb henabled hlimit a ha haw
  obtain ⟨r, hr, hstands⟩ := hc.covered w b hb henabled hlimit a ha haw
  have hrw := hl.sameWorkItem hr ha haw hstands
  refine ⟨r, hr, hrw, hstands, fun r' hr' hs' => hl.unique hr' hr hs' hstands, fun hrun => ?_⟩
  cases hstate : r.state with
  | unknown => exact Or.inl rfl
  | settled => exact absurd hrun (hc.settledCalls r hr hstate a ha hstands)
  | reserved => exact Or.inr ⟨rfl, hc.amounts w b hb hlimit r hr hrw hstate⟩

/-! ## 4. Rows rewritten in place -/

/-- A row rewritten in place stands for the same calls, and is settled only when no running
call, and no attempt that may still make one, is behind it. -/
structure KeepsRow (s : BudgetSystem) (r r' : Reservation) : Prop where
  step : RowStep r r'
  stands : ∀ a, StandsFor s r' a ↔ StandsFor s r a
  named : ∀ a, r'.agentCallId = some a → r.id = .historical a ∨
    ∃ c ∈ s.clients, c.callId = some a ∧ c.reservation = some r.id
  settling : r.state ≠ .settled → r'.state = .settled →
    (∀ a ∈ s.db.agentCalls, StandsFor s r a.id → a.status ≠ .running) ∧
      ∀ c ∈ s.clients, c.reservation = some r.id → c.callId = none → c.settled = true

theorem Linked.inPlace {s : BudgetSystem} {db : Db} (h : Linked s)
    (hrows : List.Forall₂ (KeepsRow s) s.db.reservations db.reservations)
    (hcalls : db.agentCalls = s.db.agentCalls) : Linked ⟨db, s.clients⟩ where
  rowKeys := by
    have hkeys : db.reservations.map Reservation.id = s.db.reservations.map Reservation.id :=
      Table.map_key_forall₂ (fun _ _ hs => hs.step.id) hrows
    change (db.reservations.map Reservation.id).Nodup
    rw [hkeys]
    exact h.rowKeys
  callKeys := hcalls ▸ h.callKeys
  handles := h.handles
  made := hcalls ▸ h.made
  callOwner := h.callOwner
  rowOwner := h.rowOwner
  reserved c hc k hk := by
    obtain ⟨huuid, r, hr, hid, hw⟩ := h.reserved c hc k hk
    obtain ⟨r', hr', hkeep⟩ := Table.exists_of_mem_forall₂' hrows hr
    exact ⟨huuid, r', hr', hkeep.step.id.trans hid,
      fun w hcw => hkeep.step.workItemId.trans (hw w hcw)⟩
  named r' hr' a ha := by
    obtain ⟨r, hr, hkeep⟩ := Table.exists_of_mem_forall₂ hrows hr'
    rw [hkeep.step.id]
    exact hkeep.named a ha
  historical r' hr' a ha := by
    obtain ⟨r, hr, hkeep⟩ := Table.exists_of_mem_forall₂ hrows hr'
    rw [hkeep.step.workItemId]
    change (∃ call ∈ db.agentCalls, call.id = a ∧ call.workItemId = some r.workItemId) ∧ _
    rw [hcalls]
    exact h.historical r hr a (hkeep.step.id ▸ ha)

/-- The budgets after a function of the operator or of a process: a spend threshold keeps its
per-call amount, and is enabled only where it was, or where every call has a row. -/
def BudgetsKept (s : BudgetSystem) (db : Db) : Prop :=
  ∀ w b', db.getBudget w = some b' → b'.limitUsd.isSome →
    ∃ b, s.db.getBudget w = some b ∧ b.limitUsd.isSome ∧ b'.reservationUsd = b.reservationUsd ∧
      (b'.enabled = true → b.enabled = true ∨ ∀ a ∈ s.db.agentCalls, a.workItemId = some w →
        ∃ r ∈ s.db.reservations, StandsFor s r a.id)

theorem Counted.inPlace {s : BudgetSystem} {db : Db} (h : Counted s)
    (hrows : List.Forall₂ (KeepsRow s) s.db.reservations db.reservations)
    (hcalls : db.agentCalls = s.db.agentCalls) (hbudgets : BudgetsKept s db) :
    Counted ⟨db, s.clients⟩ where
  settledCalls r' hr' hsettled a ha hstands := by
    obtain ⟨r, hr, hkeep⟩ := Table.exists_of_mem_forall₂ hrows hr'
    have ha' : a ∈ s.db.agentCalls := hcalls ▸ ha
    have hstands' := (hkeep.stands a.id).mp hstands
    by_cases hs : r.state = .settled
    · exact h.settledCalls r hr hs a ha' hstands'
    · exact (hkeep.settling hs hsettled).1 a ha' hstands'
  settledClients r' hr' hsettled c hc hres hnone := by
    obtain ⟨r, hr, hkeep⟩ := Table.exists_of_mem_forall₂ hrows hr'
    rw [hkeep.step.id] at hres
    by_cases hs : r.state = .settled
    · exact h.settledClients r hr hs c hc hres hnone
    · exact (hkeep.settling hs hsettled).2 c hc hres hnone
  amounts w b' hb' hlimit r' hr' hw hreserved := by
    obtain ⟨b, hb, hblimit, hamount, -⟩ := hbudgets w b' hb' hlimit
    obtain ⟨r, hr, hkeep⟩ := Table.exists_of_mem_forall₂ hrows hr'
    rw [hamount, hkeep.step.reservedUsd]
    exact h.amounts w b hb hblimit r hr (hkeep.step.workItemId ▸ hw)
      (hkeep.step.reserved hreserved)
  covered w b' hb' henabled hlimit a ha haw := by
    obtain ⟨b, hb, hblimit, -, hon⟩ := hbudgets w b' hb' hlimit
    have ha' : a ∈ s.db.agentCalls := hcalls ▸ ha
    have hrow : ∃ r ∈ s.db.reservations, StandsFor s r a.id := by
      rcases hon henabled with hbefore | hall
      · exact h.covered w b hb hbefore hblimit a ha' haw
      · exact hall a ha' haw
    obtain ⟨r, hr, hstands⟩ := hrow
    obtain ⟨r', hr', hkeep⟩ := Table.exists_of_mem_forall₂' hrows hr
    exact ⟨r', hr', (hkeep.stands a.id).mpr hstands⟩

/-- A call with a completed cost has ended. -/
theorem ended_of_completedCost {db : Db} (hkeys : (db.agentCalls.map AgentCall.id).Nodup)
    {a : AgentCall} (ha : a ∈ db.agentCalls) (hcost : (completedCost db (some a.id)).isSome) :
    a.status ≠ .running := by
  have hget : db.getAgentCall a.id = some a := Table.lookup_of_mem hkeys ha
  unfold completedCost at hcost
  rw [Option.bind_some, hget] at hcost
  dsimp only at hcost
  split at hcost
  · rename_i hended
    exact hended.1
  · simp at hcost

/-- A row that an attempt holds is held by no other attempt, and names no earlier call. -/
theorem Linked.held {s : BudgetSystem} (h : Linked s) {r : Reservation}
    {c : ProviderCall} (hc : c ∈ s.clients) (hres : c.reservation = some r.id) {a : ℕ}
    (hlink : r.id = .historical a ∨ ∃ c ∈ s.clients, c.callId = some a ∧ c.reservation = some r.id) :
    c.callId = some a := by
  rcases hlink with hid | ⟨c', hc', hcall', hres'⟩
  · obtain ⟨⟨n, hn⟩, -⟩ := h.reserved c hc r.id hres
    rw [hid] at hn
    simp at hn
  · rw [h.rowOwner c hc c' hc' r.id hres hres']
    exact hcall'

/-- A receipt settles a row only for a call that has ended. -/
theorem Linked.keepsRow {s : BudgetSystem} (h : Linked s) {r r' : Reservation}
    (hr : r ∈ s.db.reservations) (hstep : ReceiptStep s.db r r') : KeepsRow s r r' := by
  refine ⟨hstep.step, fun a => ?_, fun a ha => ?_, fun hopen hsettled => ?_⟩
  · unfold StandsFor
    rw [hstep.agentCallId, hstep.step.id]
  · exact h.named r hr a (hstep.agentCallId ▸ ha)
  have hreceipt := hstep.receipt hopen hsettled
  obtain ⟨x, hx⟩ : ∃ x, r.agentCallId = some x := by
    refine Option.ne_none_iff_exists'.mp fun hnone => ?_
    rw [hnone] at hreceipt
    simp [completedCost] at hreceipt
  have hnamed := h.named r hr x hx
  constructor
  · intro a ha hstands
    have hax : x = a.id := by
      rcases h.link hr hstands with hid | ⟨c, hc, hcall, hres⟩
      · rcases hnamed with hid' | ⟨c', hc', -, hres'⟩
        · exact ReservationId.historical.inj (hid'.symm.trans hid)
        · obtain ⟨⟨n, hn⟩, -⟩ := h.reserved c' hc' r.id hres'
          rw [hid] at hn
          simp at hn
      · exact Option.some.inj ((h.held hc hres hnamed).symm.trans hcall)
    rw [hx, hax] at hreceipt
    exact ended_of_completedCost h.callKeys ha hreceipt
  · intro c hc hres hnone
    rw [h.held hc hres hnamed] at hnone
    simp at hnone

theorem Linked.keepsRows {s : BudgetSystem} (h : Linked s) {db : Db} (hrec : Reconciles s.db db) :
    List.Forall₂ (KeepsRow s) s.db.reservations db.reservations := by
  have hboth : List.Forall₂ (fun r r' => (r ∈ s.db.reservations) ∧ ReceiptStep s.db r r')
      s.db.reservations db.reservations :=
    (List.forall₂_and_left _ _).mpr ⟨fun _ hr => hr, hrec.rows⟩
  exact hboth.imp fun r r' hs => h.keepsRow hs.1 hs.2

theorem Reconciles.budgetsKept {s : BudgetSystem} {db : Db} (h : Reconciles s.db db) :
    BudgetsKept s db := by
  intro w b' hb' hlimit
  obtain ⟨b, hb, hstep⟩ := Table.lookup_forall₂' (fun _ _ hs => hs.terms.workItemId) h.budgets hb'
  exact ⟨b, hb, hstep.terms.limitUsd ▸ hlimit, hstep.terms.reservationUsd,
    fun henabled => Or.inl (hstep.enabled ▸ henabled)⟩

/-! ## 5. The invariant over one transaction -/

/-- Both halves of the invariant. -/
structure Covers (s : BudgetSystem) : Prop where
  linked : Linked s
  counted : Counted s

theorem Covers.reconciles {s : BudgetSystem} {db : Db} (h : Covers s)
    (hrec : Reconciles s.db db) : Covers ⟨db, s.clients⟩ :=
  ⟨h.linked.inPlace (h.linked.keepsRows hrec) hrec.agentCalls,
    h.counted.inPlace (h.linked.keepsRows hrec) hrec.agentCalls hrec.budgetsKept⟩

theorem covers_change {s : BudgetSystem} {env : BudgetEnv} {w : ℕ} {action : BudgetAction}
    (h : Covers s) (hok : CoverageOk s (.change env w action)) :
    Covers (CoverageOp.exec s (.change env w action)) := by
  have hrec := reconciles_reconcileDead env w s.db
  change Covers ⟨s.db.commit (changeBudgetState env w action s.db), s.clients⟩
  unfold changeBudgetState
  dsimp only
  cases hsnap : snapshot (reconcileDead env w s.db) w with
  | none => exact h
  | some sn =>
    dsimp only
    split
    · exact h.reconciles hrec
    rename_i hblocked
    have hkeeps := h.linked.keepsRows hrec
    refine ⟨h.linked.inPlace hkeeps hrec.agentCalls,
      h.counted.inPlace hkeeps hrec.agentCalls fun w' b' hb' hlimit => ?_⟩
    -- the new budget row comes from a reconciled one, and that one from a row of the start
    obtain ⟨b₁, hb₁, rfl⟩ : ∃ b₁, (reconcileDead env w s.db).getBudget w' = some b₁ ∧
        (if (b₁.workItemId == w) = true then
          { b₁ with enabled := action != .disable,
                    pausedReason := if action = .pause then some .operator else none }
        else b₁) = b' := by
      change Table.lookup Budget.workItemId w' (Table.updateWhere _ _ _) = some b' at hb'
      rw [Table.lookup_updateWhere] at hb'
      · exact Option.map_eq_some_iff.mp hb'
      · intro b _
        rfl
    obtain ⟨b, hb, hstep⟩ :=
      Table.lookup_forall₂' (fun _ _ hs => hs.terms.workItemId) hrec.budgets hb₁
    refine ⟨b, hb, ?_, ?_, fun henabled => ?_⟩
    · rw [← hstep.terms.limitUsd]
      revert hlimit
      split <;> exact id
    · rw [← hstep.terms.reservationUsd]
      split <;> rfl
    · rw [← hstep.enabled]
      by_cases hon : b₁.enabled = true
      · exact Or.inl hon
      have hw' : b₁.workItemId = w' := Table.lookup_key hb₁
      by_cases hw : b₁.workItemId = w
      · obtain rfl : w' = w := hw'.symm.trans hw
        refine Or.inr (hok ?_)
        obtain ⟨b₂, hb₂, rfl⟩ := Option.map_eq_some_iff.mp hsnap
        obtain rfl : b₂ = b₁ := Option.some.inj (hb₂.symm.trans hb₁)
        simp only [hw, beq_self_eq_true, if_true] at henabled hlimit
        unfold switchesOn
        rw [hsnap]
        rw [not_and_or] at hblocked
        simpa [hon, hlimit, henabled] using hblocked
      · simp [hw, hon] at henabled

/-- A new reservation row stands for no call yet. -/
theorem Covers.addRow {s : BudgetSystem} {db : Db} {row : Reservation} (h : Covers s)
    (hins : insertReservation s.db row = .ok db) (huuid : ∃ n, row.id = .uuid n)
    (hnone : row.agentCallId = none) (hopen : row.state = .reserved)
    (hamount : ∀ b, s.db.getBudget row.workItemId = some b → b.limitUsd.isSome →
      b.reservationUsd.getD 0 ≤ row.reservedUsd.getD 0) : Covers ⟨db, s.clients⟩ := by
  obtain ⟨hfresh, rfl⟩ := insertReservation_ok hins
  have hl := h.linked
  constructor
  · refine { callKeys := hl.callKeys, handles := hl.handles, made := hl.made,
             callOwner := hl.callOwner, rowOwner := hl.rowOwner, rowKeys := ?_, reserved := ?_,
             named := ?_, historical := ?_ }
    · change ((s.db.reservations ++ [row]).map Reservation.id).Nodup
      rw [List.map_append, List.map_singleton, List.nodup_append]
      refine ⟨hl.rowKeys, List.nodup_singleton _, fun k hk k' hk' heq => hfresh ?_⟩
      rw [List.mem_singleton.mp hk'] at heq
      exact heq ▸ hk
    · intro c hc k hk
      obtain ⟨hn, r, hr, hid, hw⟩ := hl.reserved c hc k hk
      exact ⟨hn, r, List.mem_append_left _ hr, hid, hw⟩
    · intro r hr a ha
      rcases List.mem_append.mp hr with hold | hlast
      · exact hl.named r hold a ha
      · rw [List.mem_singleton.mp hlast, hnone] at ha
        simp at ha
    · intro r hr a ha
      rcases List.mem_append.mp hr with hold | hlast
      · exact hl.historical r hold a ha
      · obtain ⟨n, hn⟩ := huuid
        rw [List.mem_singleton.mp hlast, hn] at ha
        simp at ha
  · refine { settledCalls := ?_, settledClients := ?_, amounts := ?_, covered := ?_ }
    · intro r hr hsettled
      rcases List.mem_append.mp hr with hold | hlast
      · exact h.counted.settledCalls r hold hsettled
      · rw [List.mem_singleton.mp hlast, hopen] at hsettled
        simp at hsettled
    · intro r hr hsettled
      rcases List.mem_append.mp hr with hold | hlast
      · exact h.counted.settledClients r hold hsettled
      · rw [List.mem_singleton.mp hlast, hopen] at hsettled
        simp at hsettled
    · intro w b hb hlimit r hr hw
      rcases List.mem_append.mp hr with hold | hlast
      · exact h.counted.amounts w b hb hlimit r hold hw
      · obtain rfl := List.mem_singleton.mp hlast
        exact fun _ => hamount b (hw ▸ hb) hlimit
    · intro w b hb henabled hlimit a ha haw
      obtain ⟨r, hr, hstands⟩ := h.counted.covered w b hb henabled hlimit a ha haw
      exact ⟨r, List.mem_append_left _ hr, hstands⟩

/-- A new attempt has made no call yet; the row it holds is held by no other. -/
theorem Covers.addClient {s : BudgetSystem} {c : ProviderCall} (h : Covers s)
    (hhandle : s.client c.handle = none) (hcall : c.callId = none)
    (hrow : ∀ k, c.reservation = some k → (∃ n, k = .uuid n) ∧
      (∃ r ∈ s.db.reservations, r.id = k ∧ r.state = .reserved ∧
        ∀ w, c.args.workItemId = some w → r.workItemId = w) ∧
      ∀ c' ∈ s.clients, c'.reservation ≠ some k) : Covers ⟨s.db, s.clients ++ [c]⟩ := by
  have hl := h.linked
  have hstands : ∀ r a, StandsFor ⟨s.db, s.clients ++ [c]⟩ r a → StandsFor s r a := by
    rintro r a (hnames | ⟨c', hc', hcc', hcr'⟩)
    · exact Or.inl hnames
    · rcases List.mem_append.mp hc' with hold | hlast
      · exact Or.inr ⟨c', hold, hcc', hcr'⟩
      · rw [List.mem_singleton.mp hlast, hcall] at hcc'
        simp at hcc'
  constructor
  · refine { rowKeys := hl.rowKeys, callKeys := hl.callKeys, handles := ?_, made := ?_,
             callOwner := ?_, rowOwner := ?_, reserved := ?_, named := ?_, historical := ?_ }
    · change ((s.clients ++ [c]).map ProviderCall.handle).Nodup
      rw [List.map_append, List.map_singleton, List.nodup_append]
      refine ⟨hl.handles, List.nodup_singleton _, fun k hk k' hk' heq => ?_⟩
      obtain ⟨c', hc', hch'⟩ := List.mem_map.mp hk
      refine Table.lookup_eq_none_iff.mp hhandle c' hc' ?_
      rw [hch', heq, List.mem_singleton.mp hk']
    · intro c' hc' a ha
      rcases List.mem_append.mp hc' with hold | hlast
      · exact hl.made c' hold a ha
      · rw [List.mem_singleton.mp hlast, hcall] at ha
        simp at ha
    · intro c₁ hc₁ c₂ hc₂ a ha₁ ha₂
      rcases List.mem_append.mp hc₁ with hold₁ | hlast₁
      · rcases List.mem_append.mp hc₂ with hold₂ | hlast₂
        · exact hl.callOwner c₁ hold₁ c₂ hold₂ a ha₁ ha₂
        · rw [List.mem_singleton.mp hlast₂, hcall] at ha₂
          simp at ha₂
      · rw [List.mem_singleton.mp hlast₁, hcall] at ha₁
        simp at ha₁
    · intro c₁ hc₁ c₂ hc₂ k hk₁ hk₂
      rcases List.mem_append.mp hc₁ with hold₁ | hlast₁
      · rcases List.mem_append.mp hc₂ with hold₂ | hlast₂
        · exact hl.rowOwner c₁ hold₁ c₂ hold₂ k hk₁ hk₂
        · rw [List.mem_singleton.mp hlast₂] at hk₂
          exact absurd hk₁ ((hrow k hk₂).2.2 c₁ hold₁)
      · rw [List.mem_singleton.mp hlast₁] at hk₁
        rcases List.mem_append.mp hc₂ with hold₂ | hlast₂
        · exact absurd hk₂ ((hrow k hk₁).2.2 c₂ hold₂)
        · rw [List.mem_singleton.mp hlast₁, List.mem_singleton.mp hlast₂]
    · intro c' hc' k hk
      rcases List.mem_append.mp hc' with hold | hlast
      · exact hl.reserved c' hold k hk
      · obtain rfl := List.mem_singleton.mp hlast
        obtain ⟨hn, ⟨r, hr, hid, -, hw⟩, -⟩ := hrow k hk
        exact ⟨hn, r, hr, hid, hw⟩
    · intro r hr a ha
      rcases hl.named r hr a ha with hid | ⟨c', hc', hlink⟩
      · exact Or.inl hid
      · exact Or.inr ⟨c', List.mem_append_left _ hc', hlink⟩
    · intro r hr a ha
      obtain ⟨hmade, hall⟩ := hl.historical r hr a ha
      refine ⟨hmade, fun c' hc' hcc' => ?_⟩
      rcases List.mem_append.mp hc' with hold | hlast
      · exact hall c' hold hcc'
      · rw [List.mem_singleton.mp hlast, hcall] at hcc'
        simp at hcc'
  · refine { settledCalls := ?_, settledClients := ?_, amounts := h.counted.amounts,
             covered := ?_ }
    · exact fun r hr hsettled a ha hs =>
        h.counted.settledCalls r hr hsettled a ha (hstands r a.id hs)
    · intro r hr hsettled c' hc' hcr' hnone
      rcases List.mem_append.mp hc' with hold | hlast
      · exact h.counted.settledClients r hr hsettled c' hold hcr' hnone
      · -- the row the new attempt holds is still reserved
        rw [List.mem_singleton.mp hlast] at hcr'
        obtain ⟨-, ⟨r₀, hr₀, hid₀, hopen, -⟩, -⟩ := hrow r.id hcr'
        have heq : r₀ = r := Table.eq_of_key_eq hl.rowKeys hr₀ hr hid₀
        rw [← heq, hopen] at hsettled
        simp at hsettled
    · intro w b hb henabled hlimit a ha haw
      obtain ⟨r, hr, hs⟩ := h.counted.covered w b hb henabled hlimit a ha haw
      refine ⟨r, hr, hs.imp id ?_⟩
      rintro ⟨c', hc', hlink⟩
      exact ⟨c', List.mem_append_left _ hc', hlink⟩

theorem resolve_workItemId {args : ReserveArgs} {db : Db} {w w' : ℕ}
    (hresolve : args.resolve db = some w) (hw' : args.workItemId = some w') : w = w' := by
  unfold ReserveArgs.resolve at hresolve
  rw [hw', Option.some_or] at hresolve
  exact (Option.some.inj hresolve).symm

theorem covers_begin {s : BudgetSystem} {env : BudgetEnv} {pid uuid handle : ℕ}
    {args : ReserveArgs} (h : Covers s) : Covers (beginAttempt env pid uuid handle args s) := by
  unfold beginAttempt
  split
  · exact h
  rename_i hnew
  have hnew' : s.client handle = none := by simpa using hnew
  split
  · exact h
  · rename_i db reason hres
    exact h.reconciles (reserveBudget_other hres (by simp))
  · rename_i db hres
    have hrec := h.reconciles (reserveBudget_other hres (by simp))
    exact hrec.addClient hnew' rfl fun k hk => by simp at hk
  · rename_i db id hres
    obtain ⟨w, sn, hw, hsnap, -, -, rfl, hins⟩ := reserveBudget_granted hres
    have hrec := h.reconciles (reconciles_reconcileDead env w s.db)
    obtain ⟨b₀, hb₀, rfl⟩ := Option.map_eq_some_iff.mp hsnap
    have hrow := hrec.addRow hins ⟨uuid, rfl⟩ rfl rfl fun b hb _ => by
      have heq : b = b₀ := Option.some.inj (hb.symm.trans hb₀)
      exact heq ▸ le_refl _
    refine hrow.addClient hnew' rfl fun k hk => ?_
    obtain rfl := Option.some.inj hk
    obtain ⟨hfresh, rfl⟩ := insertReservation_ok hins
    refine ⟨⟨uuid, rfl⟩, ⟨_, List.mem_append_right _ (List.mem_singleton_self _), rfl, rfl,
      fun w' hw' => resolve_workItemId hw hw'⟩, fun c hc hheld => hfresh ?_⟩
    obtain ⟨-, r, hr, hid, -⟩ := hrec.linked.reserved c hc _ hheld
    exact List.mem_map.mpr ⟨r, hr, hid⟩

theorem covers_attach {s : BudgetSystem} {handle : ℕ} (h : Covers s) :
    Covers (attachCall handle s) := by
  unfold attachCall
  split
  · exact h
  rename_i c hclient
  split
  · exact h
  rename_i callId hcall
  have hc : c ∈ s.clients := Table.lookup_mem hclient
  unfold attachBudgetCall
  split
  · exact h
  rename_i k hres
  have hl := h.linked
  -- the row that now names the call is the one the attempt holds: it stood for the call before
  have hkeeps : List.Forall₂ (KeepsRow s) s.db.reservations
      (Table.updateWhere (fun r => r.id == k && r.state == .reserved)
        (fun r => { r with agentCallId := some callId }) s.db.reservations) := by
    have hrefl : List.Forall₂ (fun r r' => (r ∈ s.db.reservations) ∧
        (r' = r ∨ (r.id = k ∧ r' = { r with agentCallId := some callId }))) s.db.reservations
        (Table.updateWhere (fun r => r.id == k && r.state == .reserved)
          (fun r => { r with agentCallId := some callId }) s.db.reservations) := by
      refine (List.forall₂_and_left _ _).mpr ⟨fun _ hr => hr, ?_⟩
      refine Table.forall₂_updateWhere (fun _ => Or.inl rfl) fun r _ hp => Or.inr ⟨?_, rfl⟩
      simp only [Bool.and_eq_true, beq_iff_eq] at hp
      exact hp.1
    refine hrefl.imp fun r r' ⟨hr, hr'⟩ => ?_
    rcases hr' with rfl | ⟨hid, rfl⟩
    · exact hl.keepsRow hr (ReceiptStep.refl s.db _)
    · have hheld : c.reservation = some r.id := hres.trans (congrArg some hid.symm)
      have hlink : ∃ c ∈ s.clients, c.callId = some callId ∧ c.reservation = some r.id :=
        ⟨c, hc, hcall, hheld⟩
      refine ⟨⟨rfl, rfl, rfl, fun hs => ⟨hs, rfl⟩, fun hs => hs, fun _ => Or.inl rfl,
        fun hs hs' => absurd hs' hs⟩, fun a => ⟨?_, ?_⟩, fun a ha => ?_,
        fun hs hs' => absurd hs' hs⟩
      · rintro (hnames | hclient')
        · obtain rfl := Option.some.inj hnames
          exact Or.inr hlink
        · exact Or.inr hclient'
      · intro hstands
        have hca := hl.held hc hheld (hl.link hr hstands)
        exact Or.inr ⟨c, hc, hca, hheld⟩
      · obtain rfl := Option.some.inj ha
        exact Or.inr hlink
  exact ⟨hl.inPlace hkeeps rfl, h.counted.inPlace hkeeps rfl fun w b hb hlimit =>
    ⟨b, hb, hlimit, rfl, fun henabled => Or.inl henabled⟩⟩

/-- The end of a call changes neither its key nor its work item. -/
theorem mem_completeAgentCall {callId : ℕ} {status : AgentCallStatus}
    {precision : Option BillingPrecision} {cost : Option ℚ} {db : Db} {a : AgentCall}
    (ha : a ∈ (completeAgentCall callId status precision cost db).agentCalls) :
    ∃ a₀ ∈ db.agentCalls, a.id = a₀.id ∧ a.workItemId = a₀.workItemId ∧
      (a.status = status ∨ a.status = a₀.status) := by
  rcases Table.mem_updateWhere_cases ha with ⟨hold, -⟩ | ⟨a₀, ha₀, -, rfl⟩
  · exact ⟨a, hold, rfl, rfl, Or.inr rfl⟩
  · exact ⟨a₀, ha₀, rfl, rfl, Or.inl rfl⟩

theorem exists_completeAgentCall {callId : ℕ} {status : AgentCallStatus}
    {precision : Option BillingPrecision} {cost : Option ℚ} {db : Db} {a₀ : AgentCall}
    (ha₀ : a₀ ∈ db.agentCalls) :
    ∃ a ∈ (completeAgentCall callId status precision cost db).agentCalls,
      a.id = a₀.id ∧ a.workItemId = a₀.workItemId := by
  refine ⟨_, Table.mem_updateWhere.mpr ⟨a₀, ha₀, rfl⟩, ?_, ?_⟩ <;> split <;> rfl

theorem covers_complete {s : BudgetSystem} {callId : ℕ} {status : AgentCallStatus}
    {precision : Option BillingPrecision} {cost : Option ℚ} (hended : status ≠ .running)
    (h : Covers s) : Covers ⟨completeAgentCall callId status precision cost s.db, s.clients⟩ := by
  have hl := h.linked
  constructor
  · refine { rowKeys := hl.rowKeys, handles := hl.handles, callOwner := hl.callOwner,
             rowOwner := hl.rowOwner, reserved := hl.reserved, named := hl.named,
             callKeys := ?_, made := ?_, historical := ?_ }
    · have hkeys : (completeAgentCall callId status precision cost s.db).agentCalls.map
          AgentCall.id = s.db.agentCalls.map AgentCall.id :=
        Table.map_key_updateWhere fun _ _ => rfl
      change ((completeAgentCall callId status precision cost s.db).agentCalls.map
        AgentCall.id).Nodup
      rw [hkeys]
      exact hl.callKeys
    · intro c hc a ha
      obtain ⟨call, hmem, hid, hw⟩ := hl.made c hc a ha
      obtain ⟨call', hmem', hid', hw'⟩ := exists_completeAgentCall hmem
      exact ⟨call', hmem', hid'.trans hid, hw'.trans hw⟩
    · intro r hr a ha
      obtain ⟨⟨call, hmem, hid, hw⟩, hall⟩ := hl.historical r hr a ha
      obtain ⟨call', hmem', hid', hw'⟩ := exists_completeAgentCall hmem
      exact ⟨⟨call', hmem', hid'.trans hid, hw'.trans hw⟩, hall⟩
  · refine { settledClients := h.counted.settledClients, amounts := h.counted.amounts,
             settledCalls := ?_, covered := ?_ }
    · intro r hr hsettled a ha hstands
      obtain ⟨a₀, ha₀, hid, -, hstatus | hstatus⟩ := mem_completeAgentCall ha
      · rw [hstatus]
        exact hended
      · rw [hstatus]
        exact h.counted.settledCalls r hr hsettled a₀ ha₀ (hid ▸ hstands)
    · intro w b hb henabled hlimit a ha haw
      obtain ⟨a₀, ha₀, hid, hw, -⟩ := mem_completeAgentCall ha
      rw [hid]
      exact h.counted.covered w b hb henabled hlimit a₀ ha₀ (hw ▸ haw)

/-- The attempts after one of them was updated: the others, and its new state. -/
theorem mem_updateClient {s : BudgetSystem} (hnd : (s.clients.map ProviderCall.handle).Nodup)
    {handle : ℕ} {c₀ : ProviderCall} (hc₀ : s.client handle = some c₀)
    {f : ProviderCall → ProviderCall} {c : ProviderCall} :
    c ∈ Table.updateWhere (fun c => c.handle == handle) f s.clients ↔
      (c ∈ s.clients ∧ c.handle ≠ handle) ∨ c = f c₀ := by
  have hmem : c₀ ∈ s.clients := Table.lookup_mem hc₀
  have hkey : c₀.handle = handle := Table.lookup_key hc₀
  constructor
  · intro hc
    rcases Table.mem_updateWhere_cases hc with ⟨hold, hne⟩ | ⟨c₁, hc₁, heq, rfl⟩
    · exact Or.inl ⟨hold, by simpa using hne⟩
    · rw [beq_iff_eq] at heq
      have hsame : c₁ = c₀ := Table.eq_of_key_eq hnd hc₁ hmem (heq.trans hkey.symm)
      exact Or.inr (congrArg f hsame)
  · rintro (⟨hold, hne⟩ | rfl)
    · exact Table.mem_updateWhere_of_not hold (by simpa using hne)
    · exact Table.mem_updateWhere_of hmem (by simpa using hkey)

/-- An update that keeps handles, arguments and reservations keeps who holds which row. -/
theorem Linked.updateClient {s : BudgetSystem} (h : Linked s) {handle : ℕ} {c₀ : ProviderCall}
    (hc₀ : s.client handle = some c₀) {f : ProviderCall → ProviderCall}
    (hf : ∀ c, (f c).handle = c.handle ∧ (f c).args = c.args ∧
      (f c).reservation = c.reservation) :
    ((Table.updateWhere (fun c => c.handle == handle) f s.clients).map
      ProviderCall.handle).Nodup ∧
    (∀ c ∈ Table.updateWhere (fun c => c.handle == handle) f s.clients,
      ∀ c' ∈ Table.updateWhere (fun c => c.handle == handle) f s.clients, ∀ k,
        c.reservation = some k → c'.reservation = some k → c = c') ∧
    ∀ c ∈ Table.updateWhere (fun c => c.handle == handle) f s.clients, ∀ k,
      c.reservation = some k → (∃ n, k = .uuid n) ∧
        ∃ r ∈ s.db.reservations, r.id = k ∧ ∀ w, c.args.workItemId = some w → r.workItemId = w := by
  have hmem : c₀ ∈ s.clients := Table.lookup_mem hc₀
  have hkey : c₀.handle = handle := Table.lookup_key hc₀
  refine ⟨?_, fun c₁ hc₁ c₂ hc₂ k hk₁ hk₂ => ?_, fun c hc k hk => ?_⟩
  · rw [Table.map_key_updateWhere fun c _ => (hf c).1]
    exact h.handles
  · rcases (mem_updateClient h.handles hc₀).mp hc₁ with ⟨hold₁, hne₁⟩ | rfl
    · rcases (mem_updateClient h.handles hc₀).mp hc₂ with ⟨hold₂, -⟩ | rfl
      · exact h.rowOwner c₁ hold₁ c₂ hold₂ k hk₁ hk₂
      · rw [(hf c₀).2.2] at hk₂
        exact absurd (h.rowOwner c₁ hold₁ c₀ hmem k hk₁ hk₂ ▸ hkey) hne₁
    · rcases (mem_updateClient h.handles hc₀).mp hc₂ with ⟨hold₂, hne₂⟩ | rfl
      · rw [(hf c₀).2.2] at hk₁
        exact absurd (h.rowOwner c₂ hold₂ c₀ hmem k hk₂ hk₁ ▸ hkey) hne₂
      · rfl
  · rcases (mem_updateClient h.handles hc₀).mp hc with ⟨hold, -⟩ | rfl
    · exact h.reserved c hold k hk
    · rw [(hf c₀).2.2] at hk
      rw [(hf c₀).2.1]
      exact h.reserved c₀ hmem k hk

theorem covers_create {s : BudgetSystem} {handle callId : ℕ} (h : Covers s)
    (hok : CoverageOk s (.create handle callId)) : Covers (createCall handle callId s) := by
  unfold createCall
  split
  · exact h
  rename_i c₀ hclient
  split
  · exact h
  rename_i hguard
  simp only [Bool.or_eq_true, not_or, Bool.not_eq_true, Option.isSome_eq_false_iff,
    Option.isNone_iff_eq_none] at hguard
  obtain ⟨⟨hnone, hunsettled⟩, hfresh⟩ := hguard
  have hl := h.linked
  have hc₀ : c₀ ∈ s.clients := Table.lookup_mem hclient
  have hkey : c₀.handle = handle := Table.lookup_key hclient
  have hnew : ∀ a ∈ s.db.agentCalls, a.id ≠ callId := Table.lookup_eq_none_iff.mp hfresh
  have hunmade : ∀ c ∈ s.clients, c.callId ≠ some callId := by
    intro c hc hcall
    obtain ⟨call, hmem, hid, -⟩ := hl.made c hc callId hcall
    exact hnew call hmem hid
  -- an attempt that has made its call is not the one that makes it now
  have hkept : ∀ c ∈ s.clients, c.callId.isSome → c.handle ≠ handle := by
    intro c hc hsome heq
    have hsame : c = c₀ := Table.eq_of_key_eq hl.handles hc hc₀ (heq.trans hkey.symm)
    rw [hsame, hnone] at hsome
    simp at hsome
  have hstands : ∀ r ∈ s.db.reservations, ∀ a, StandsFor
      ⟨createAgentCall callId c₀.args s.db, Table.updateWhere (fun c => c.handle == handle)
        (fun c => { c with callId := some callId }) s.clients⟩ r a →
      StandsFor s r a ∨ (a = callId ∧ c₀.reservation = some r.id) := by
    rintro r hr a (hnames | ⟨c, hc, hcall, hres⟩)
    · exact Or.inl (Or.inl hnames)
    · rcases (mem_updateClient hl.handles hclient).mp hc with ⟨hold, -⟩ | rfl
      · exact Or.inl (Or.inr ⟨c, hold, hcall, hres⟩)
      · exact Or.inr ⟨(Option.some.inj hcall).symm, hres⟩
  have hstands' : ∀ r a, StandsFor s r a → StandsFor
      ⟨createAgentCall callId c₀.args s.db, Table.updateWhere (fun c => c.handle == handle)
        (fun c => { c with callId := some callId }) s.clients⟩ r a := by
    rintro r a (hnames | ⟨c, hc, hcall, hres⟩)
    · exact Or.inl hnames
    · refine Or.inr ⟨c, (mem_updateClient hl.handles hclient).mpr (Or.inl ⟨hc, ?_⟩), hcall, hres⟩
      exact hkept c hc (by simp [hcall])
  have hunnamed : ∀ r ∈ s.db.reservations, ¬ StandsFor s r callId := by
    intro r hr hs
    rcases hl.link hr hs with hid | ⟨c, hc, hcall, -⟩
    · obtain ⟨⟨call, hmem, hcallId, -⟩, -⟩ := hl.historical r hr callId hid
      exact hnew call hmem hcallId
    · exact hunmade c hc hcall
  have hf : ∀ c : ProviderCall, ({ c with callId := some callId } : ProviderCall).handle = c.handle ∧
      ({ c with callId := some callId } : ProviderCall).args = c.args ∧
      ({ c with callId := some callId } : ProviderCall).reservation = c.reservation :=
    fun _ => ⟨rfl, rfl, rfl⟩
  obtain ⟨hhandles, hrowOwner, hreserved⟩ := hl.updateClient hclient hf
  constructor
  · refine { rowKeys := hl.rowKeys, handles := hhandles, rowOwner := hrowOwner,
             reserved := hreserved, callKeys := ?_, made := ?_, callOwner := ?_, named := ?_,
             historical := ?_ }
    · change ((s.db.agentCalls ++ [_]).map AgentCall.id).Nodup
      rw [List.map_append, List.map_singleton, List.nodup_append]
      refine ⟨hl.callKeys, List.nodup_singleton _, fun k hk k' hk' heq => ?_⟩
      obtain ⟨call, hmem, hid⟩ := List.mem_map.mp hk
      exact hnew call hmem ((hid.trans heq).trans (List.mem_singleton.mp hk'))
    · intro c hc a ha
      rcases (mem_updateClient hl.handles hclient).mp hc with ⟨hold, -⟩ | rfl
      · obtain ⟨call, hmem, hid, hw⟩ := hl.made c hold a ha
        exact ⟨call, List.mem_append_left _ hmem, hid, hw⟩
      · exact ⟨_, List.mem_append_right _ (List.mem_singleton_self _), Option.some.inj ha, rfl⟩
    · intro c₁ hc₁ c₂ hc₂ a ha₁ ha₂
      rcases (mem_updateClient hl.handles hclient).mp hc₁ with ⟨hold₁, -⟩ | rfl
      · rcases (mem_updateClient hl.handles hclient).mp hc₂ with ⟨hold₂, -⟩ | rfl
        · exact hl.callOwner c₁ hold₁ c₂ hold₂ a ha₁ ha₂
        · exact absurd (ha₁.trans ha₂.symm) (hunmade c₁ hold₁)
      · rcases (mem_updateClient hl.handles hclient).mp hc₂ with ⟨hold₂, -⟩ | rfl
        · exact absurd (ha₂.trans ha₁.symm) (hunmade c₂ hold₂)
        · rfl
    · intro r hr a ha
      rcases hl.named r hr a ha with hid | ⟨c, hc, hcall, hres⟩
      · exact Or.inl hid
      · refine Or.inr ⟨c, (mem_updateClient hl.handles hclient).mpr (Or.inl ⟨hc, ?_⟩), hcall, hres⟩
        exact hkept c hc (by simp [hcall])
    · intro r hr a ha
      obtain ⟨⟨call, hmem, hid, hw⟩, hall⟩ := hl.historical r hr a ha
      refine ⟨⟨call, List.mem_append_left _ hmem, hid, hw⟩, fun c hc hcall => ?_⟩
      rcases (mem_updateClient hl.handles hclient).mp hc with ⟨hold, -⟩ | rfl
      · exact hall c hold hcall
      · exact absurd (hid.trans (Option.some.inj hcall).symm) (hnew call hmem)
  · refine { settledCalls := ?_, settledClients := ?_, amounts := h.counted.amounts,
             covered := ?_ }
    · intro r hr hsettled a ha hs
      rcases hstands r hr a.id hs with hs' | ⟨hid, hres⟩
      · rcases List.mem_append.mp ha with hold | hlast
        · exact h.counted.settledCalls r hr hsettled a hold hs'
        · rw [List.mem_singleton.mp hlast] at hs'
          exact absurd hs' (hunnamed r hr)
      · -- a settled row is held by no attempt that may still make its call
        have hdone := h.counted.settledClients r hr hsettled c₀ hc₀ hres hnone
        rw [hunsettled] at hdone
        simp at hdone
    · intro r hr hsettled c hc hres hcall
      rcases (mem_updateClient hl.handles hclient).mp hc with ⟨hold, -⟩ | rfl
      · exact h.counted.settledClients r hr hsettled c hold hres hcall
      · simp at hcall
    · intro w b hb henabled hlimit a ha haw
      rcases List.mem_append.mp ha with hold | hlast
      · obtain ⟨r, hr, hs⟩ := h.counted.covered w b hb henabled hlimit a hold haw
        exact ⟨r, hr, hstands' r a.id hs⟩
      · obtain rfl := List.mem_singleton.mp hlast
        cases hres : c₀.reservation with
        | none =>
          have hoff := hok c₀ w b hclient hres haw hb henabled
          rw [hoff] at hlimit
          simp at hlimit
        | some k =>
          obtain ⟨-, r, hr, hid, -⟩ := hl.reserved c₀ hc₀ k hres
          refine ⟨r, hr, Or.inr ⟨_, (mem_updateClient hl.handles hclient).mpr (Or.inr rfl), rfl, ?_⟩⟩
          exact hres.trans (congrArg some hid.symm)

/-- Marking an attempt as settled changes nothing that links it to a row. -/
theorem Covers.markSettled {s : BudgetSystem} {handle : ℕ} {c₀ : ProviderCall} (h : Covers s)
    (hclient : s.client handle = some c₀) :
    Covers ⟨s.db, Table.updateWhere (fun c => c.handle == handle)
      (fun c => { c with settled := true }) s.clients⟩ := by
  have hl := h.linked
  have hc₀ : c₀ ∈ s.clients := Table.lookup_mem hclient
  have hkey : c₀.handle = handle := Table.lookup_key hclient
  have hf : ∀ c : ProviderCall, ({ c with settled := true } : ProviderCall).handle = c.handle ∧
      ({ c with settled := true } : ProviderCall).args = c.args ∧
      ({ c with settled := true } : ProviderCall).reservation = c.reservation :=
    fun _ => ⟨rfl, rfl, rfl⟩
  obtain ⟨hhandles, hrowOwner, hreserved⟩ := hl.updateClient hclient hf
  have hlink : ∀ k a, (∃ c ∈ Table.updateWhere (fun c => c.handle == handle)
        (fun c => { c with settled := true }) s.clients,
        c.callId = some a ∧ c.reservation = some k) ↔
      ∃ c ∈ s.clients, c.callId = some a ∧ c.reservation = some k := by
    intro k a
    constructor
    · rintro ⟨c, hc, hcall, hres⟩
      rcases (mem_updateClient hl.handles hclient).mp hc with ⟨hold, -⟩ | rfl
      · exact ⟨c, hold, hcall, hres⟩
      · exact ⟨c₀, hc₀, hcall, hres⟩
    · rintro ⟨c, hc, hcall, hres⟩
      by_cases hh : c.handle = handle
      · have hsame : c = c₀ := Table.eq_of_key_eq hl.handles hc hc₀ (hh.trans hkey.symm)
        exact ⟨_, (mem_updateClient hl.handles hclient).mpr (Or.inr rfl), hsame ▸ hcall,
          hsame ▸ hres⟩
      · exact ⟨c, (mem_updateClient hl.handles hclient).mpr (Or.inl ⟨hc, hh⟩), hcall, hres⟩
  have hstands : ∀ r a, StandsFor ⟨s.db, Table.updateWhere (fun c => c.handle == handle)
      (fun c => { c with settled := true }) s.clients⟩ r a ↔ StandsFor s r a :=
    fun r a => or_congr_right (hlink r.id a)
  constructor
  · refine { rowKeys := hl.rowKeys, callKeys := hl.callKeys, handles := hhandles,
             rowOwner := hrowOwner, reserved := hreserved, made := ?_, callOwner := ?_,
             named := ?_, historical := ?_ }
    · intro c hc a ha
      rcases (mem_updateClient hl.handles hclient).mp hc with ⟨hold, -⟩ | rfl
      · exact hl.made c hold a ha
      · exact hl.made c₀ hc₀ a ha
    · intro c₁ hc₁ c₂ hc₂ a ha₁ ha₂
      rcases (mem_updateClient hl.handles hclient).mp hc₁ with ⟨hold₁, hne₁⟩ | rfl
      · rcases (mem_updateClient hl.handles hclient).mp hc₂ with ⟨hold₂, -⟩ | rfl
        · exact hl.callOwner c₁ hold₁ c₂ hold₂ a ha₁ ha₂
        · exact absurd (hl.callOwner c₁ hold₁ c₀ hc₀ a ha₁ ha₂ ▸ hkey) hne₁
      · rcases (mem_updateClient hl.handles hclient).mp hc₂ with ⟨hold₂, hne₂⟩ | rfl
        · exact absurd (hl.callOwner c₂ hold₂ c₀ hc₀ a ha₂ ha₁ ▸ hkey) hne₂
        · rfl
    · intro r hr a ha
      exact (hl.named r hr a ha).imp id (hlink r.id a).mpr
    · intro r hr a ha
      obtain ⟨hcall, hall⟩ := hl.historical r hr a ha
      refine ⟨hcall, fun c hc hcc => ?_⟩
      rcases (mem_updateClient hl.handles hclient).mp hc with ⟨hold, -⟩ | rfl
      · exact hall c hold hcc
      · exact hall c₀ hc₀ hcc
  · refine { amounts := h.counted.amounts, settledCalls := ?_, settledClients := ?_,
             covered := ?_ }
    · exact fun r hr hsettled a ha hs =>
        h.counted.settledCalls r hr hsettled a ha ((hstands r a.id).mp hs)
    · intro r hr hsettled c hc hres hcall
      rcases (mem_updateClient hl.handles hclient).mp hc with ⟨hold, -⟩ | rfl
      · exact h.counted.settledClients r hr hsettled c hold hres hcall
      · rfl
    · intro w b hb henabled hlimit a ha haw
      obtain ⟨r, hr, hs⟩ := h.counted.covered w b hb henabled hlimit a ha haw
      exact ⟨r, hr, (hstands r a.id).mpr hs⟩

theorem covers_settle {s : BudgetSystem} {handle : ℕ} (h : Covers s) :
    Covers (settleCall handle s) := by
  unfold settleCall
  split
  · exact h
  rename_i c₀ hclient
  split
  · exact h
  have hmarked := h.markSettled hclient
  have hl := hmarked.linked
  set s₁ : BudgetSystem := ⟨s.db, Table.updateWhere (fun c => c.handle == handle)
    (fun c => { c with settled := true }) s.clients⟩ with hs₁
  change Covers ⟨settleBudget c₀.reservation c₀.callId.isNone s.db, s₁.clients⟩
  unfold settleBudget
  split
  · exact hmarked
  rename_i row hrow
  obtain ⟨k, hk, hget⟩ := Option.bind_eq_some_iff.mp hrow
  have hrowKey : row.id = k := Table.lookup_key hget
  split
  · exact hmarked
  rename_i hopen
  have hopen' : row.state ≠ .settled := fun hsettled => by
    rw [hsettled] at hopen
    exact hopen (by decide)
  -- the settling attempt is among the marked ones, and holds the row
  have hc₁ : ({ c₀ with settled := true } : ProviderCall) ∈ s₁.clients :=
    (mem_updateClient h.linked.handles hclient).mpr (Or.inr rfl)
  have hheld : ({ c₀ with settled := true } : ProviderCall).reservation = some row.id :=
    hk.trans (congrArg some hrowKey.symm)
  have hkeeps : ∀ cost, cost = (if c₀.callId.isNone then some 0 else completedCost s.db row.agentCallId) →
      List.Forall₂ (KeepsRow s₁) s.db.reservations
        (Table.updateWhere (fun r => r.id == row.id) (Reservation.finish cost)
          s.db.reservations) := by
    intro cost hcost
    have hrows : List.Forall₂ (fun r r' => (r ∈ s.db.reservations) ∧
        (r' = r ∨ (r.id = row.id ∧ r' = r.finish cost))) s.db.reservations
        (Table.updateWhere (fun r => r.id == row.id) (Reservation.finish cost)
          s.db.reservations) := by
      refine (List.forall₂_and_left _ _).mpr ⟨fun _ hr => hr, ?_⟩
      exact Table.forall₂_updateWhere (fun _ => Or.inl rfl) fun r _ hp =>
        Or.inr ⟨by simpa using hp, rfl⟩
    refine hrows.imp fun r r' ⟨hr, hr'⟩ => ?_
    rcases hr' with rfl | ⟨hid, rfl⟩
    · exact hl.keepsRow hr (ReceiptStep.refl s₁.db _)
    obtain rfl : r = row := eq_of_getReservation hl.rowKeys hget hr (hid.trans hrowKey)
    cases hcall : c₀.callId with
    | some callId =>
      simp only [hcall, Option.isNone_some, Bool.false_eq_true, if_false] at hcost
      rw [hcost]
      exact hl.keepsRow hr (receiptStep_finish hopen')
    | none =>
      simp only [hcall, Option.isNone_none, if_true] at hcost
      rw [hcost]
      refine ⟨rowStep_finish hopen' fun c hc => Option.some.inj hc ▸ le_refl 0,
        fun a => Iff.rfl, fun a ha => hl.named r hr a ha, fun _ _ => ⟨fun a ha hs => ?_, ?_⟩⟩
      · have hmade := hl.held hc₁ hheld (hl.link hr hs)
        rw [show ({ c₀ with settled := true } : ProviderCall).callId = c₀.callId from rfl,
          hcall] at hmade
        simp at hmade
      · intro c hc hres _
        rw [hl.rowOwner c hc _ hc₁ r.id hres hheld]
  have hplain := hkeeps _ rfl
  have hcovers : Covers ⟨{ s.db with
      reservations := Table.updateWhere (fun r => r.id == row.id) (Reservation.finish
        (if c₀.callId.isNone then some 0 else completedCost s.db row.agentCallId))
        s.db.reservations }, s₁.clients⟩ :=
    ⟨hl.inPlace hplain rfl, hmarked.counted.inPlace hplain rfl
      fun w b hb hlimit => ⟨b, hb, hlimit, rfl, fun henabled => Or.inl henabled⟩⟩
  exact hcovers.reconciles (reconciles_pauseAfterSettling row.workItemId _ _)

theorem mem_uncoveredCalls {w : ℕ} {db : Db} {a : AgentCall} :
    a ∈ uncoveredCalls w db ↔ a ∈ db.agentCalls ∧ a.workItemId = some w ∧
      ∀ r ∈ db.reservations, r.agentCallId ≠ some a.id := by
  simp [uncoveredCalls]

/-- A configuration includes the calls that no row names, and with them all calls. -/
theorem Covers.includePriorCalls {s : BudgetSystem} {db₁ db₂ : Db} {w : ℕ} {cfg : BudgetConfig}
    {d : Option ℤ} (h : Covers s) (hdb₁ : db₁ = upsertBudget w cfg d s.db)
    (hattached : ∀ c ∈ s.clients, c.args.workItemId = some w → c.reservation.isSome →
      c.callId.isSome → ∃ r ∈ s.db.reservations, r.agentCallId = c.callId)
    (hamounts : cfg.limitUsd.isSome → ∀ r ∈ s.db.reservationsOf w, r.state = .reserved →
      cfg.reservationUsd.getD 0 ≤ r.reservedUsd.getD 0)
    (hinc : includePriorCalls w db₁ = .ok db₂) : Covers ⟨db₂, s.clients⟩ := by
  obtain ⟨hdb₂, hkeys⟩ := insertReservations_ok hinc
  obtain ⟨hres, hcalls⟩ := upsertBudget_other w cfg d s.db
  rw [← hdb₁] at hres hcalls
  have hl := h.linked
  have hcalls₂ : db₂.agentCalls = s.db.agentCalls := by rw [hdb₂]; exact hcalls
  have hmem : ∀ r ∈ db₂.reservations, r ∈ s.db.reservations ∨
      ∃ call ∈ s.db.agentCalls, call.workItemId = some w ∧
        (∀ r₀ ∈ s.db.reservations, r₀.agentCallId ≠ some call.id) ∧
        r = historicalRow w db₁ call := by
    intro r hr
    rw [hdb₂] at hr
    rcases List.mem_append.mp hr with hold | hinserted
    · exact Or.inl (hres ▸ hold)
    · obtain ⟨call, hcall, rfl⟩ := List.mem_map.mp hinserted
      obtain ⟨hc, hw, hun⟩ := mem_uncoveredCalls.mp hcall
      exact Or.inr ⟨call, hcalls ▸ hc, hw, fun r₀ hr₀ => hun r₀ (hres ▸ hr₀), rfl⟩
  have hold : ∀ r ∈ s.db.reservations, r ∈ db₂.reservations := by
    intro r hr
    rw [hdb₂]
    exact List.mem_append_left _ (hres ▸ hr)
  -- no attempt holds a row of a configuration
  have hunheld : ∀ call : AgentCall, ∀ c ∈ s.clients,
      c.reservation ≠ some (historicalRow w db₁ call).id := by
    intro call c hc hheld
    obtain ⟨⟨n, hn⟩, -⟩ := hl.reserved c hc _ hheld
    simp [historicalRow, Reservation.finish] at hn
  constructor
  · refine { handles := hl.handles, callOwner := hl.callOwner, rowOwner := hl.rowOwner,
             rowKeys := ?_, callKeys := ?_, made := ?_, reserved := ?_, named := ?_,
             historical := ?_ }
    · refine hkeys ?_
      unfold Db.reservationKeys
      rw [hres]
      exact hl.rowKeys
    · change (db₂.agentCalls.map AgentCall.id).Nodup
      rw [hcalls₂]
      exact hl.callKeys
    · change ∀ c ∈ s.clients, ∀ a, c.callId = some a → ∃ call ∈ db₂.agentCalls, _
      rw [hcalls₂]
      exact hl.made
    · intro c hc k hk
      obtain ⟨hn, r, hr, hid, hw⟩ := hl.reserved c hc k hk
      exact ⟨hn, r, hold r hr, hid, hw⟩
    · intro r hr a ha
      rcases hmem r hr with hr' | ⟨call, -, -, -, rfl⟩
      · exact hl.named r hr' a ha
      · exact Or.inl (congrArg ReservationId.historical (Option.some.inj ha))
    · intro r hr a ha
      change (∃ call ∈ db₂.agentCalls, _) ∧ _
      rw [hcalls₂]
      rcases hmem r hr with hr' | ⟨call, hcall, hw, hun, rfl⟩
      · exact hl.historical r hr' a ha
      · obtain rfl := ReservationId.historical.inj ha
        refine ⟨⟨call, hcall, rfl, hw⟩, fun c hc hcc => ?_⟩
        -- an attempt that made this call holds no row, or the call would be attached
        by_contra hsome
        obtain ⟨call', hcall', hid', hw'⟩ := hl.made c hc call.id hcc
        have hsame : call' = call := Table.eq_of_key_eq hl.callKeys hcall' hcall hid'
        obtain ⟨r₀, hr₀, hnames⟩ := hattached c hc (by rw [← hw', hsame, hw])
          (Option.isSome_iff_ne_none.mpr hsome) (by rw [hcc]; rfl)
        exact hun r₀ hr₀ (hnames.trans hcc)
  · refine { settledCalls := ?_, settledClients := ?_, amounts := ?_, covered := ?_ }
    · intro r hr hsettled a ha hstands
      change a ∈ db₂.agentCalls at ha
      rw [hcalls₂] at ha
      rcases hmem r hr with hr' | ⟨call, hcall, -, -, rfl⟩
      · exact h.counted.settledCalls r hr' hsettled a ha hstands
      · rcases hstands with hnames | ⟨c, hc, -, hheld⟩
        · have hid : call.id = a.id := Option.some.inj hnames
          have hcost : (completedCost s.db (some a.id)).isSome := by
            have hdb : completedCost db₁ (some call.id) = completedCost s.db (some a.id) := by
              unfold completedCost Db.getAgentCall
              rw [hcalls, hid]
            rw [← hdb]
            cases hc : completedCost db₁ (some call.id) with
            | some cost => rfl
            | none => simp [historicalRow, Reservation.finish, hc] at hsettled
          exact ended_of_completedCost hl.callKeys ha hcost
        · exact absurd hheld (hunheld call c hc)
    · intro r hr hsettled c hc hheld hnone
      rcases hmem r hr with hr' | ⟨call, -, -, -, rfl⟩
      · exact h.counted.settledClients r hr' hsettled c hc hheld hnone
      · exact absurd hheld (hunheld call c hc)
    · intro w' b hb hlimit r hr hw hreserved
      rcases hmem r hr with hr' | ⟨call, -, -, -, rfl⟩
      · have hb₁ : db₁.getBudget w' = some b := by rw [hdb₂] at hb; exact hb
        rw [hdb₁] at hb₁
        by_cases hww : w' = w
        · subst hww
          obtain ⟨b₀, hb₀, -, hlimit₀, hamount₀⟩ := getBudget_upsertBudget w' cfg d s.db
          obtain rfl : b₀ = b := Option.some.inj (hb₀.symm.trans hb₁)
          rw [hamount₀]
          refine hamounts (hlimit₀ ▸ hlimit) r ?_ hreserved
          simpa [Db.reservationsOf, Table.select, hw] using hr'
        · rw [getBudget_upsertBudget_of_ne hww] at hb₁
          exact h.counted.amounts w' b hb₁ hlimit r hr' hw hreserved
      · -- a row of a configuration is settled or unknown
        unfold historicalRow Reservation.finish at hreserved
        cases hc : completedCost db₁ (some call.id) <;> simp [hc] at hreserved
    · intro w' b hb henabled hlimit a ha haw
      change a ∈ db₂.agentCalls at ha
      rw [hcalls₂] at ha
      by_cases hww : w' = w
      · subst hww
        by_cases hun : ∀ r ∈ s.db.reservations, r.agentCallId ≠ some a.id
        · refine ⟨historicalRow w' db₁ a, ?_, Or.inl rfl⟩
          rw [hdb₂]
          refine List.mem_append_right _ (List.mem_map.mpr ⟨a, ?_, rfl⟩)
          exact mem_uncoveredCalls.mpr ⟨hcalls ▸ ha, haw, fun r hr => hun r (hres ▸ hr)⟩
        · push Not at hun
          obtain ⟨r, hr, hnames⟩ := hun
          exact ⟨r, hold r hr, Or.inl hnames⟩
      · have hb₁ : db₁.getBudget w' = some b := by rw [hdb₂] at hb; exact hb
        rw [hdb₁, getBudget_upsertBudget_of_ne hww] at hb₁
        obtain ⟨r, hr, hstands⟩ := h.counted.covered w' b hb₁ henabled hlimit a ha haw
        exact ⟨r, hold r hr, hstands⟩

theorem covers_configure {s : BudgetSystem} {now : ℤ} {w : ℕ} {cfg : BudgetConfig}
    (h : Covers s) (hok : CoverageOk s (.configure now w cfg)) :
    Covers (CoverageOp.exec s (.configure now w cfg)) := by
  change Covers ⟨s.db.commit (configureAdmissionBudget now w cfg s.db), s.clients⟩
  cases hcfg : configureAdmissionBudget now w cfg s.db with
  | error e => exact h
  | ok r =>
    obtain ⟨db', u⟩ := r
    obtain ⟨hvalid, db₂, hinc, rfl⟩ := configureAdmissionBudget_ok hcfg
    obtain ⟨hattached, hamounts⟩ := hok hvalid
    have hprior := h.includePriorCalls rfl hattached hamounts hinc
    exact hprior.reconciles (reconciles_pauseAfterConfiguring w cfg db₂)

/-- **One transaction keeps the invariant.** -/
theorem covers_exec (s : BudgetSystem) (op : CoverageOp) (h : Covers s)
    (hok : CoverageOk s op) : Covers (op.exec s) := by
  cases op with
  | configure now w cfg => exact covers_configure h hok
  | change env w action => exact covers_change h hok
  | begin env pid uuid handle args => exact covers_begin h
  | create handle callId => exact covers_create h hok
  | attach handle => exact covers_attach h
  | complete callId status precision cost => exact covers_complete status.2 h
  | settle handle => exact covers_settle h
  | records jobs attempts =>
    have hl := h.linked
    have hc := h.counted
    exact ⟨⟨hl.rowKeys, hl.callKeys, hl.handles, hl.made, hl.callOwner, hl.rowOwner, hl.reserved,
      hl.named, hl.historical⟩, ⟨hc.settledCalls, hc.settledClients, hc.amounts, hc.covered⟩⟩

/-! ## 6. Coverage over runs -/

/-- Before the first configuration there are calls, but no budget, row or budgeted attempt. -/
theorem covers_start {db : Db} (hcalls : (db.agentCalls.map AgentCall.id).Nodup)
    (hbudgets : db.budgets = []) (hrows : db.reservations = []) : Covers ⟨db, []⟩ := by
  constructor
  · constructor <;> simp [Db.reservationKeys, hrows, hcalls]
  · constructor <;> simp [Db.getBudget, Table.lookup, hrows, hbudgets]

/-- **No spend disappears.**  In every run whose transactions meet `CoverageOk`, every agent
call of a work item with an enabled spend threshold has exactly one reservation row, which
holds at least the per-call amount, or is unknown, as long as the call runs. -/
theorem spend_is_covered {db : Db} (hcalls : (db.agentCalls.map AgentCall.id).Nodup)
    (hbudgets : db.budgets = []) (hrows : db.reservations = []) (ops : List CoverageOp)
    (hok : Runs.Meets CoverageOp.exec CoverageOk ⟨db, []⟩ ops) :
    SpendCovered (Runs.run CoverageOp.exec ⟨db, []⟩ ops) := by
  have h : Covers (Runs.run CoverageOp.exec ⟨db, []⟩ ops) :=
    Runs.run_invariant covers_exec (covers_start hcalls hbudgets hrows) hok
  exact spendCovered_of_inv h.linked h.counted

/-- A threshold of ten, one call reserved, made, attached, completed and settled under it. -/
theorem spend_is_covered_one_call :
    SpendCovered (Runs.run CoverageOp.exec
      ⟨{ workItems := [{ id := 1, status := .running }] }, []⟩
      [.configure 0 1 { limitUsd := some 10, reservationUsd := some 1 },
        .begin ⟨0, fun _ => true⟩ 10 0 0 { workItemId := some 1 }, .create 0 7, .attach 0,
        .complete 7 ⟨.succeeded, by decide⟩ (some .exact) (some (1 / 2)), .settle 0]) := by
  refine spend_is_covered (by decide) rfl rfl _
    ⟨fun _ => ⟨by simp, fun _ r hr => by simp [Db.reservationsOf] at hr⟩, trivial, ?_, trivial,
      trivial, trivial, trivial⟩
  intro c w b hclient hnone _ _ _
  have hc : (Runs.run CoverageOp.exec ⟨{ workItems := [{ id := 1, status := .running }] }, []⟩
      [.configure 0 1 { limitUsd := some 10, reservationUsd := some 1 },
        .begin ⟨0, fun _ => true⟩ 10 0 0 { workItemId := some 1 }]).client 0 =
      some { handle := 0, args := { workItemId := some 1 }, reservation := some (.uuid 0) } := by
    decide +kernel
  obtain rfl := Option.some.inj (hclient.symm.trans hc)
  simp at hnone

/-- A threshold is disabled, a call is made without a reservation, and the threshold is resumed:
the call is under way and has no row. -/
theorem spend_lost_by_resume :
    ¬ ∀ (db : Db) (ops : List CoverageOp), (db.agentCalls.map AgentCall.id).Nodup →
      db.budgets = [] → db.reservations = [] →
      SpendCovered (Runs.run CoverageOp.exec ⟨db, []⟩ ops) := by
  intro hall
  have hcovered := hall { workItems := [{ id := 1, status := .running }] }
    [.configure 0 1 { limitUsd := some 10, reservationUsd := some 1 },
      .change ⟨0, fun _ => true⟩ 1 .disable,
      .begin ⟨0, fun _ => true⟩ 10 0 0 { workItemId := some 1 }, .create 0 7,
      .change ⟨0, fun _ => true⟩ 1 .resume] (by decide) rfl rfl
  obtain ⟨r, hr, -⟩ := hcovered 1 { workItemId := 1, limitUsd := some 10, reservationUsd := some 1 }
    (by decide +kernel) rfl rfl { id := 7, workItemId := some 1 } (by decide +kernel) rfl
  have hempty : (Runs.run CoverageOp.exec ⟨{ workItems := [{ id := 1, status := .running }] }, []⟩
      [.configure 0 1 { limitUsd := some 10, reservationUsd := some 1 },
        .change ⟨0, fun _ => true⟩ 1 .disable,
        .begin ⟨0, fun _ => true⟩ 10 0 0 { workItemId := some 1 }, .create 0 7,
        .change ⟨0, fun _ => true⟩ 1 .resume]).db.reservations = [] := by
    decide +kernel
  rw [hempty] at hr
  simp at hr

end PosseClient
