/-
# A live claim is never taken

Every object id that a sync expects at the remote is one that the instance has published itself, or
one whose claim has passed its expiry on every clock.  From it: a push never replaces or deletes a
live claim of a peer, and two instances never hold the same object.

* `owns` and `expired` are the two reasons; both stay true while objects are only added and time
  goes on.
-/
import PosseClient.Lib.Runs
import PosseClient.Queue.CrossInstanceClaims

namespace PosseClient

/-! ## 1. Why an object id may be expected -/

/-- The payload of the object names the instance. -/
def ClaimWorld.owns (w : ClaimWorld) (instanceId : String) (x : ℕ) : Prop :=
  ∃ payload, w.objects x = some payload ∧ boundedString payload.instanceId 160 = some instanceId

/-- The claim has passed its advertised expiry, at one moment on every clock. -/
def ClaimWorld.expired (clock : String → ℤ → ℤ) (w : ClaimWorld) (x : ℕ) : Prop :=
  ∃ payload expiresAt, w.objects x = some payload ∧ payload.expiresAt = some expiresAt ∧
    ∃ τ ≤ w.now, ∀ instanceId, expiresAt ≤ clock instanceId τ

/-- Time goes on, objects are added, and pushes keep their sender. -/
structure ClaimWorld.Grows (w w' : ClaimWorld) : Prop where
  now : w.now ≤ w'.now
  objects : ∀ x payload, w.objects x = some payload → w'.objects x = some payload
  nextPush : w.nextPush ≤ w'.nextPush
  sender : ∀ k < w.nextPush, (w'.pushes k).instanceId = (w.pushes k).instanceId

section Reasons

variable {clock : String → ℤ → ℤ} {w w' : ClaimWorld} {a b : String} {x : ℕ}

theorem ClaimWorld.Grows.owns (h : w.Grows w') (hx : w.owns a x) : w'.owns a x := by
  obtain ⟨payload, hobject, howner⟩ := hx
  exact ⟨payload, h.objects x payload hobject, howner⟩

theorem ClaimWorld.Grows.expired (h : w.Grows w') (hx : w.expired clock x) :
    w'.expired clock x := by
  obtain ⟨payload, expiresAt, hobject, hexpiry, τ, hτ, hpassed⟩ := hx
  exact ⟨payload, expiresAt, h.objects x payload hobject, hexpiry, τ, hτ.trans h.now, hpassed⟩

/-- An object names one instance at most. -/
theorem ClaimWorld.owns.unique (ha : w.owns a x) (hb : w.owns b x) : a = b := by
  obtain ⟨payload, hobject, howner⟩ := ha
  obtain ⟨payload', hobject', howner'⟩ := hb
  rw [hobject] at hobject'
  obtain rfl := Option.some.inj hobject'
  rw [howner] at howner'
  exact Option.some.inj howner'

end Reasons

/-! ## 2. What is read from a page -/

section Reading

variable {sha256 : String → String} {raw : RawClaim}

/-- A guard that lets something pass holds. -/
theorem of_guard {p : Prop} [Decidable p] {u : Unit} (h : guard p = some u) : p := by
  unfold guard at h
  split_ifs at h with hp
  exact hp

theorem RawClaim.matched_some {key path : String} {oid : ℕ} {payload : ClaimPayload}
    {kind : LockKind} (h : raw.matched sha256 = some (key, oid, payload, path, kind)) :
    raw.objectOid = some oid ∧ raw.payload = some payload := by
  unfold RawClaim.matched at h
  simp only [Option.bind_eq_bind, Option.bind_eq_some_iff] at h
  obtain ⟨key', -, oid', hoid, payload', hpayload, -, -, path', -, kind', -, -, -, heq⟩ := h
  simp only [Option.some.injEq, Prod.mk.injEq] at heq
  obtain ⟨-, rfl, rfl, -, -⟩ := heq
  exact ⟨hoid, hpayload⟩

theorem normalizeFetchedClaim_some {observedAtMs : ℤ} {ttlMin : Option ℕ} {row : PeerClaimRow}
    (h : normalizeFetchedClaim sha256 raw observedAtMs ttlMin = some row) :
    raw.objectOid = some row.objectOid ∧ ∃ payload, raw.payload = some payload ∧
      boundedString payload.instanceId 160 = some row.instanceId := by
  unfold normalizeFetchedClaim at h
  simp only [Option.bind_eq_bind, Option.bind_eq_some_iff] at h
  obtain ⟨⟨key, oid, payload, path, kind⟩, hmatched, instanceId, howner, h⟩ := h
  obtain ⟨hoid, hpayload⟩ := RawClaim.matched_some hmatched
  obtain ⟨-, -, wiId, -, jobId, -, expiry, -, -, -, heq⟩ := h
  obtain rfl := Option.some.inj heq
  exact ⟨hoid, payload, hpayload, howner⟩

theorem fetchedClaimLease_some {remote : RemoteClaim}
    (h : fetchedClaimLease sha256 raw = some remote) :
    raw.objectOid = some remote.objectOid ∧ ∃ payload, raw.payload = some payload ∧
      boundedString payload.instanceId 160 = some remote.instanceId := by
  unfold fetchedClaimLease at h
  simp only [Option.bind_eq_bind, Option.bind_eq_some_iff] at h
  obtain ⟨⟨key, oid, payload, path, kind⟩, hmatched, instanceId, howner, -, -, heq⟩ := h
  obtain ⟨hoid, hpayload⟩ := RawClaim.matched_some hmatched
  obtain rfl := Option.some.inj heq
  exact ⟨hoid, payload, hpayload, howner⟩

/-- The cleanup takes only what is past its expiry and the grace. -/
theorem expiredFetchedClaim_some {observedAtMs grace : ℤ} {expired : ExpiredClaim}
    (h : expiredFetchedClaim sha256 raw observedAtMs grace = some expired) :
    raw.objectOid = some expired.objectOid ∧ ∃ payload expiresAt, raw.payload = some payload ∧
      payload.expiresAt = some expiresAt ∧ expiresAt + grace ≤ observedAtMs := by
  unfold expiredFetchedClaim at h
  simp only [Option.bind_eq_bind, Option.bind_eq_some_iff] at h
  obtain ⟨⟨key, oid, payload, path, kind⟩, hmatched, expiresAt, hexpiry, _, hpassed, heq⟩ := h
  obtain ⟨hoid, hpayload⟩ := RawClaim.matched_some hmatched
  obtain rfl := Option.some.inj heq
  refine ⟨hoid, payload, expiresAt, hpayload, hexpiry, ?_⟩
  exact of_guard hpassed

theorem mem_upsertPeers {rows : List PeerClaimRow} : ∀ {mirror : List PeerClaimRow}
    {row : PeerClaimRow}, row ∈ rows.foldl (fun table row =>
      if table.any (·.claimKey == row.claimKey) then
        table.map (fun old => if old.claimKey = row.claimKey then row else old)
      else table ++ [row]) mirror → row ∈ mirror ∨ row ∈ rows := by
  induction rows with
  | nil =>
    intro mirror row hrow
    exact Or.inl hrow
  | cons first rows ih =>
    intro mirror row hrow
    rw [List.foldl_cons] at hrow
    rcases ih hrow with hmem | hmem
    · split_ifs at hmem
      · obtain ⟨old, hold, rfl⟩ := List.mem_map.mp hmem
        split_ifs
        · exact Or.inr List.mem_cons_self
        · exact Or.inl hold
      · rcases List.mem_append.mp hmem with hold | hnew
        · exact Or.inl hold
        · obtain rfl := List.mem_singleton.mp hnew
          exact Or.inr List.mem_cons_self
    · exact Or.inr (List.mem_cons_of_mem _ hmem)

/-- A row of the new mirror is a row of the old one or of the page. -/
theorem mem_replacePeerClaims {mirror rows : List PeerClaimRow} {instanceId : String}
    {completeSnapshot : Bool} {started : Option ℤ} {now : ℤ} {row : PeerClaimRow}
    (h : row ∈ replacePeerClaims mirror rows instanceId completeSnapshot started now) :
    row ∈ mirror ∨ row ∈ rows := by
  unfold replacePeerClaims at h
  obtain ⟨hkept, -⟩ := List.mem_filter.mp h
  have hupserted : row ∈ mirror ∨ row ∈ rows.filter (·.instanceId != instanceId) := by
    split_ifs at hkept
    · exact mem_upsertPeers hkept
    · split at hkept
      · exact mem_upsertPeers (List.mem_of_mem_filter hkept)
      · exact mem_upsertPeers (List.mem_of_mem_filter hkept)
  exact hupserted.imp id List.mem_of_mem_filter

theorem activeLockClaimsFrom_payload {instanceId : String} {expiresAt : ℤ}
    (activeLocks : List ActiveLock) : ∀ {desired : List DesiredClaim},
    (∀ claim ∈ desired, claim.payload.instanceId = instanceId) →
    ∀ claim ∈ activeLockClaimsFrom sha256 instanceId expiresAt activeLocks desired,
      claim.payload.instanceId = instanceId := by
  induction activeLocks with
  | nil =>
    intro desired h
    exact h
  | cons first rest ih =>
    intro desired h
    unfold activeLockClaimsFrom
    dsimp only
    split
    · exact ih h
    · rename_i claim hclaim
      have hgrown : ∀ c ∈ desired ++ [claim], c.payload.instanceId = instanceId := by
        intro c hc
        rcases List.mem_append.mp hc with hold | hnew
        · exact h c hold
        · obtain rfl := List.mem_singleton.mp hnew
          simp only [Option.bind_eq_bind, Option.bind_eq_some_iff] at hclaim
          obtain ⟨_, -, kind, -, path, -, wiId, -, claimKey, -, _, -, heq⟩ := hclaim
          obtain rfl := Option.some.inj heq
          rfl
      split_ifs
      · exact hgrown
      · exact ih hgrown

end Reading

/-! ## 3. The invariant -/

/-- The payload names the instance. -/
def ClaimPayload.names (payload : ClaimPayload) (instanceId : String) : Prop :=
  boundedString payload.instanceId 160 = some instanceId

/-- What a sync has still to do rests on objects that may be expected. -/
def PhaseSound (clock : String → ℤ → ℤ) (w : ClaimWorld) (owner : String) : SyncPhase → Prop
  | .cleanup todo => ∀ expired ∈ todo, w.expired clock expired.objectOid
  | .publish todo => ∀ claim ∈ todo, claim.payload.names owner
  | .release todo => ∀ row ∈ todo, w.owns owner row.objectOid
  | .finished => True

/-- A sync that runs. -/
structure RunSound (clock : String → ℤ → ℤ) (w : ClaimWorld) (run : SyncRun) : Prop where
  owner : boundedString run.owner 160 = some run.owner
  remote : ∀ remote ∈ run.remoteByKey, w.owns remote.instanceId remote.objectOid
  localRows : ∀ row ∈ run.localRows, w.owns run.owner row.objectOid
  phase : PhaseSound clock w run.owner run.phase
  awaiting : ∀ k, run.awaiting = some k → k < w.nextPush ∧ (w.pushes k).instanceId = run.owner

/-- A push that has been sent. -/
structure PushSound (clock : String → ℤ → ℤ) (w : ClaimWorld) (push : ClaimPush) : Prop where
  payload : ∀ payload, push.payload = some payload → payload.names push.instanceId
  expected : ∀ x, push.expectedOldOid = some x → w.owns push.instanceId x ∨ w.expired clock x
  created : ∀ x, push.newOid = some x → w.owns push.instanceId x

/-- The invariant of the instances and the repository. -/
structure ClaimInv (clock : String → ℤ → ℤ) (w : ClaimWorld) : Prop where
  unused : ∀ x, w.nextOid ≤ x → w.objects x = none
  locals : ∀ a, ∀ row ∈ w.locals a, w.owns a row.objectOid
  mirrors : ∀ a, ∀ row ∈ w.mirrors a, w.owns row.instanceId row.objectOid
  runs : ∀ p < w.nextRun, RunSound clock w (w.runs p)
  pushes : ∀ k < w.nextPush, PushSound clock w (w.pushes k)

section Steps

variable {sha256 : String → String} {clock : String → ℤ → ℤ} {claimsTtlMin : String → Option ℕ}
  {w w' : ClaimWorld}

theorem RunSound.grows (h : w.Grows w') {run : SyncRun} (hrun : RunSound clock w run) :
    RunSound clock w' run := by
  refine ⟨hrun.owner, fun r hr => h.owns (hrun.remote r hr), fun row hr => h.owns
    (hrun.localRows row hr), ?_, fun k hk => ?_⟩
  · have hphase := hrun.phase
    cases hp : run.phase with
    | cleanup todo =>
      rw [hp] at hphase
      intro expired hmem
      exact h.expired (hphase expired hmem)
    | publish todo =>
      rw [hp] at hphase
      exact hphase
    | release todo =>
      rw [hp] at hphase
      intro row hmem
      exact h.owns (hphase row hmem)
    | finished => trivial
  · obtain ⟨hlt, hsender⟩ := hrun.awaiting k hk
    exact ⟨hlt.trans_le h.nextPush, (h.sender k hlt).trans hsender⟩

theorem PushSound.grows (h : w.Grows w') {push : ClaimPush} (hpush : PushSound clock w push) :
    PushSound clock w' push :=
  ⟨hpush.payload, fun x hx => (hpush.expected x hx).imp h.owns h.expired,
    fun x hx => h.owns (hpush.created x hx)⟩

/-- A sync goes on. -/
theorem ClaimInv.setRun (h : ClaimInv clock w) {p : ℕ} {run : SyncRun}
    (hrun : RunSound clock w run) : ClaimInv clock (w.setRun p run) := by
  have hgrows : w.Grows (w.setRun p run) := ⟨le_rfl, fun _ _ => id, le_rfl, fun _ _ => rfl⟩
  refine ⟨h.unused, h.locals, h.mirrors, fun q hq => ?_,
    fun k hk => (h.pushes k hk).grows hgrows⟩
  by_cases hqp : q = p
  · subst hqp
    have hself : (w.setRun q run).runs q = run := by simp [ClaimWorld.setRun]
    rw [hself]
    exact hrun.grows hgrows
  · have hother : (w.setRun p run).runs q = w.runs q := by simp [ClaimWorld.setRun, hqp]
    rw [hother]
    exact (h.runs q hq).grows hgrows

/-- An instance changes the claims it has published. -/
theorem ClaimInv.setLocals (h : ClaimInv clock w) {a : String} {rows : List LocalClaimRow}
    (hrows : ∀ row ∈ rows, w.owns a row.objectOid) : ClaimInv clock (w.setLocals a rows) := by
  have hgrows : w.Grows (w.setLocals a rows) := ⟨le_rfl, fun _ _ => id, le_rfl, fun _ _ => rfl⟩
  refine ⟨h.unused, fun b row hrow => ?_, h.mirrors, fun q hq => (h.runs q hq).grows hgrows,
    fun k hk => (h.pushes k hk).grows hgrows⟩
  by_cases hba : b = a
  · subst hba
    have hself : (w.setLocals b rows).locals b = rows := by simp [ClaimWorld.setLocals]
    rw [hself] at hrow
    exact hrows row hrow
  · have hother : (w.setLocals a rows).locals b = w.locals b := by
      simp [ClaimWorld.setLocals, hba]
    rw [hother] at hrow
    exact h.locals b row hrow

theorem ClaimInv.deleteLocalClaim (h : ClaimInv clock w) (a key : String) :
    ClaimInv clock (w.deleteLocalClaim a key) :=
  h.setLocals fun row hrow => h.locals a row (List.mem_of_mem_filter hrow)

theorem ClaimInv.upsertLocalClaim (h : ClaimInv clock w) {a : String} (claim : DesiredClaim)
    {x : ℕ} (hx : w.owns a x) : ClaimInv clock (w.upsertLocalClaim a claim x) := by
  refine h.setLocals fun row hrow => ?_
  rcases List.mem_append.mp hrow with hold | hnew
  · exact h.locals a row (List.mem_of_mem_filter hold)
  · obtain rfl := List.mem_singleton.mp hnew
    exact hx

/-- A push is sent. -/
theorem ClaimInv.send (h : ClaimInv clock w) {p : ℕ} (hp : p < w.nextRun) (key : String)
    {expected : Option ℕ} {payload : Option ClaimPayload}
    (hpayload : ∀ object, payload = some object → object.names (w.runs p).owner)
    (hexpected : ∀ x, expected = some x → w.owns (w.runs p).owner x ∨ w.expired clock x) :
    ClaimInv clock (w.send p key expected payload) := by
  have hold : ∀ k < w.nextPush, (w.send p key expected payload).pushes k = w.pushes k := by
    intro k hk
    simp [ClaimWorld.send, hk.ne]
  have hself : (w.send p key expected payload).pushes w.nextPush =
      { instanceId := (w.runs p).owner, claimKey := key, expectedOldOid := expected,
        payload := payload } := by
    simp [ClaimWorld.send]
  have hgrows : w.Grows (w.send p key expected payload) :=
    ⟨le_rfl, fun _ _ => id, Nat.le_succ _, fun k hk => by rw [hold k hk]⟩
  refine ⟨h.unused, h.locals, h.mirrors, fun q hq => ?_, fun k hk => ?_⟩
  · by_cases hqp : q = p
    · subst hqp
      have hrun : (w.send q key expected payload).runs q =
          { w.runs q with awaiting := some w.nextPush } := by
        simp [ClaimWorld.send, ClaimWorld.setRun]
      have hsound := (h.runs q hp).grows hgrows
      rw [hrun]
      refine ⟨hsound.owner, hsound.remote, hsound.localRows, hsound.phase, fun k hk => ?_⟩
      obtain rfl := Option.some.inj hk
      rw [hself]
      exact ⟨Nat.lt_succ_self _, rfl⟩
    · have hother : (w.send p key expected payload).runs q = w.runs q := by
        simp [ClaimWorld.send, ClaimWorld.setRun, hqp]
      rw [hother]
      exact (h.runs q hq).grows hgrows
  · by_cases hlt : k < w.nextPush
    · rw [hold k hlt]
      exact (h.pushes k hlt).grows hgrows
    · obtain rfl : k = w.nextPush := by
        change k < w.nextPush + 1 at hk
        omega
      rw [hself]
      refine ⟨hpayload, fun x hx => ?_, fun x hx => by cases hx⟩
      exact (hexpected x hx).imp hgrows.owns hgrows.expired

/-- The repository grows by an object, and a ref changes. -/
theorem ClaimInv.grow (h : ClaimInv clock w) (hgrows : w.Grows w')
    (hunused : ∀ x, w'.nextOid ≤ x → w'.objects x = none) (hlocals : w'.locals = w.locals)
    (hmirrors : w'.mirrors = w.mirrors) (hruns : w'.runs = w.runs)
    (hnextRun : w'.nextRun = w.nextRun)
    (hpushes : ∀ k < w'.nextPush, PushSound clock w' (w'.pushes k)) : ClaimInv clock w' := by
  refine ⟨hunused, fun a row hrow => ?_, fun a row hrow => ?_, fun p hp => ?_, hpushes⟩
  · rw [hlocals] at hrow
    exact hgrows.owns (h.locals a row hrow)
  · rw [hmirrors] at hrow
    exact hgrows.owns (h.mirrors a row hrow)
  · rw [hruns]
    exact (h.runs p (hnextRun ▸ hp)).grows hgrows

theorem ClaimInv.tick (h : ClaimInv clock w) (ms : ℕ) : ClaimInv clock { w with now := w.now + ms } := by
  have hgrows : w.Grows { w with now := w.now + ms } := by
    refine ⟨?_, fun _ _ => id, le_rfl, fun _ _ => rfl⟩
    change w.now ≤ w.now + ms
    omega
  exact h.grow hgrows h.unused rfl rfl rfl rfl fun k hk => (h.pushes k hk).grows hgrows

/-- A new object under a new id. -/
theorem ClaimInv.grows_object (h : ClaimInv clock w) {object : Option ClaimPayload}
    (hobjects : w'.objects = Function.update w.objects w.nextOid object)
    (hnext : w'.nextOid = w.nextOid + 1) (hnow : w'.now = w.now)
    (hnextPush : w'.nextPush = w.nextPush)
    (hsender : ∀ k, (w'.pushes k).instanceId = (w.pushes k).instanceId) :
    w.Grows w' ∧ ∀ x, w'.nextOid ≤ x → w'.objects x = none := by
  refine ⟨⟨hnow.ge, fun x payload hx => ?_, hnextPush.ge, fun k _ => hsender k⟩, fun x hx => ?_⟩
  · have hne : x ≠ w.nextOid := by
      rintro rfl
      rw [h.unused _ le_rfl] at hx
      cases hx
    rw [hobjects, Function.update_of_ne hne]
    exact hx
  · rw [hnext] at hx
    rw [hobjects, Function.update_of_ne (by omega)]
    exact h.unused x (by omega)

theorem ClaimInv.foreignWrite (h : ClaimInv clock w) (key : String)
    (payload : Option (Option ClaimPayload)) : ClaimInv clock (w.foreignWrite key payload) := by
  unfold ClaimWorld.foreignWrite
  cases payload with
  | none =>
    have hgrows : w.Grows { w with refs := Function.update w.refs key none } :=
      ⟨le_rfl, fun _ _ => id, le_rfl, fun _ _ => rfl⟩
    exact h.grow hgrows h.unused rfl rfl rfl rfl fun k hk => (h.pushes k hk).grows hgrows
  | some object =>
    dsimp only
    generalize hw : ClaimWorld.mk _ _ _ _ _ _ _ _ _ _ = w'
    obtain ⟨hgrows, hunused⟩ := @ClaimInv.grows_object clock w w' h object (hw ▸ rfl) (hw ▸ rfl)
      (hw ▸ rfl) (hw ▸ rfl) (fun k => hw ▸ rfl)
    refine h.grow hgrows hunused (hw ▸ rfl) (hw ▸ rfl) (hw ▸ rfl) (hw ▸ rfl) fun k hk => ?_
    have hpushes : w'.pushes = w.pushes := hw ▸ rfl
    have hnext : w'.nextPush = w.nextPush := hw ▸ rfl
    rw [hpushes]
    exact (h.pushes k (hnext ▸ hk)).grows hgrows

/-- A push has its outcome; what it created names its sender. -/
theorem ClaimInv.settlePush (h : ClaimInv clock w) {k : ℕ} (hk : k < w.nextPush)
    {outcome : PushOutcome}
    (hpushes : w'.pushes = Function.update w.pushes k ((w.pushes k).settle outcome))
    (hgrows : (∀ k, (w'.pushes k).instanceId = (w.pushes k).instanceId) → w.Grows w')
    (hunused : ∀ x, w'.nextOid ≤ x → w'.objects x = none) (hlocals : w'.locals = w.locals)
    (hmirrors : w'.mirrors = w.mirrors) (hruns : w'.runs = w.runs)
    (hnextRun : w'.nextRun = w.nextRun) (hnextPush : w'.nextPush = w.nextPush)
    (hcreated : ∀ x, outcome = .applied (some x) → w'.owns (w.pushes k).instanceId x) :
    ClaimInv clock w' := by
  have hsender : ∀ j, (w'.pushes j).instanceId = (w.pushes j).instanceId := by
    intro j
    rw [hpushes]
    by_cases hjk : j = k
    · simp [hjk, ClaimPush.settle]
    · simp [hjk]
  have hgrown := hgrows hsender
  refine h.grow hgrown hunused hlocals hmirrors hruns hnextRun fun j hj => ?_
  have hsound := (h.pushes j (hnextPush ▸ hj)).grows hgrown
  rw [hpushes]
  by_cases hjk : j = k
  · subst hjk
    rw [Function.update_self]
    refine ⟨hsound.payload, hsound.expected, fun x hx => hcreated x ?_⟩
    cases outcome with
    | applied newOid =>
      obtain rfl : newOid = some x := hx
      rfl
    | refused => cases hx
  · rw [Function.update_of_ne hjk]
    exact hsound

/-- A push arrives. -/
theorem ClaimInv.arrive (h : ClaimInv clock w) (k : ℕ) : ClaimInv clock (w.arrive k) := by
  unfold ClaimWorld.arrive
  dsimp only
  split_ifs with hdone hrefused
  · exact h
  · -- refused
    rw [not_or, not_le] at hdone
    refine h.settlePush hdone.1 rfl (fun hsender => ?_) h.unused rfl rfl rfl rfl rfl
      fun x hx => by cases hx
    exact ⟨le_rfl, fun _ _ => id, le_rfl, fun j _ => hsender j⟩
  · rw [not_or, not_le] at hdone
    cases hpayload : (w.pushes k).payload with
    | none =>
      -- a deletion
      dsimp only
      refine h.settlePush hdone.1 rfl (fun hsender => ?_) h.unused rfl rfl rfl rfl rfl
        fun x hx => by cases hx
      exact ⟨le_rfl, fun _ _ => id, le_rfl, fun j _ => hsender j⟩
    | some payload =>
      dsimp only
      generalize hw : ClaimWorld.mk _ _ _ _ _ _ _ _ _ _ = w'
      have hpushes : w'.pushes = Function.update w.pushes k
          ((w.pushes k).settle (.applied (some w.nextOid))) := hw ▸ rfl
      have hobjects : w'.objects = Function.update w.objects w.nextOid (some payload) := hw ▸ rfl
      have hobject := fun hsender => @ClaimInv.grows_object clock w w' h (some payload) hobjects
        (hw ▸ rfl) (hw ▸ rfl) (hw ▸ rfl) hsender
      have hunused : ∀ x, w'.nextOid ≤ x → w'.objects x = none := by
        intro x hx
        have hx' : w.nextOid + 1 ≤ x := by
          rw [← hw] at hx
          exact hx
        rw [hobjects, Function.update_of_ne (by omega)]
        exact h.unused x (by omega)
      refine h.settlePush hdone.1 hpushes (fun hsender => (hobject hsender).1) hunused (hw ▸ rfl)
        (hw ▸ rfl) (hw ▸ rfl) (hw ▸ rfl) (hw ▸ rfl) fun x hx => ?_
      obtain rfl : w.nextOid = x := by simpa using hx
      refine ⟨payload, by rw [hobjects, Function.update_self], ?_⟩
      exact (h.pushes k hdone.1).payload payload hpayload

/-- The answer of a push: only what it has created is held. -/
theorem ClaimInv.answer (h : ClaimInv clock w) (p : ℕ) (report : PushReport) :
    ClaimInv clock (w.answer p report) := by
  unfold ClaimWorld.answer
  dsimp only
  cases hawaiting : (w.runs p).awaiting with
  | none => exact h
  | some k =>
    dsimp only
    by_cases hready : w.nextRun ≤ p ∨ (w.pushes k).answers report = false
    · rw [if_pos hready]
      exact h
    rw [if_neg hready]
    rw [not_or, not_le] at hready
    have hrun := h.runs p hready.1
    obtain ⟨hk, hsender⟩ := hrun.awaiting k hawaiting
    have hphase := hrun.phase
    have hgoes : ∀ {phase : SyncPhase}, PhaseSound clock w (w.runs p).owner phase →
        ClaimInv clock (w.setRun p { w.runs p with phase := phase, awaiting := none }) := by
      intro phase hsound
      exact h.setRun ⟨hrun.owner, hrun.remote, hrun.localRows, hsound, fun j hj => by cases hj⟩
    cases hp : (w.runs p).phase with
    | cleanup todo =>
      rw [hp] at hphase
      cases todo with
      | nil => exact h
      | cons expired rest =>
        have hnext := @hgoes (.cleanup rest)
          fun e he => hphase e (List.mem_cons_of_mem _ he)
        dsimp only
        split_ifs
        · exact hnext.deleteLocalClaim _ _
        · exact hnext
    | publish todo =>
      rw [hp] at hphase
      cases todo with
      | nil => exact h
      | cons claim rest =>
        have hnext : ClaimInv clock (w.publishNext p rest) := @hgoes (.publish rest)
          fun c hc => hphase c (List.mem_cons_of_mem _ hc)
        cases report with
        | failed => exact hnext
        | lostRace =>
          dsimp only
          split_ifs
          · exact hnext.deleteLocalClaim _ _
          · exact hnext
        | applied =>
          dsimp only
          cases hoid : (w.pushes k).newOid with
          | none => exact hnext
          | some x =>
            have hcreated := (h.pushes k hk).created x hoid
            rw [hsender] at hcreated
            exact hnext.upsertLocalClaim claim hcreated
    | release todo =>
      rw [hp] at hphase
      cases todo with
      | nil => exact h
      | cons row rest =>
        have hnext := @hgoes (.release rest)
          fun r hr => hphase r (List.mem_cons_of_mem _ hr)
        dsimp only
        split_ifs
        · exact hnext
        · exact hnext.deleteLocalClaim _ _
    | finished => exact h

/-- The mirror of the peers names each object's instance. -/
theorem ClaimInv.mirroredRemote_owns (h : ClaimInv clock w) {run : SyncRun} {key : String}
    {remote : RemoteClaim} (hremote : w.mirroredRemote run key = some remote) :
    w.owns remote.instanceId remote.objectOid := by
  unfold ClaimWorld.mirroredRemote at hremote
  obtain ⟨row, hrow, rfl⟩ := Option.map_eq_some_iff.mp hremote
  exact h.mirrors run.owner row (List.mem_of_find?_eq_some hrow)

theorem RunSound.remoteFor_owns {run : SyncRun} (h : RunSound clock w run) {key : String}
    {remote : RemoteClaim} (hremote : run.remoteFor key = some remote) :
    w.owns remote.instanceId remote.objectOid := by
  unfold SyncRun.remoteFor at hremote
  exact h.remote remote (List.mem_of_mem_filter (List.mem_of_getLast? hremote))

/-- What a sync keeps while it goes through its passes. -/
theorem ClaimInv.setPhase (h : ClaimInv clock w) {p : ℕ} (hp : p < w.nextRun) {phase : SyncPhase}
    (hphase : PhaseSound clock w (w.runs p).owner phase) :
    ClaimInv clock (w.setRun p { w.runs p with phase := phase }) := by
  have hrun := h.runs p hp
  exact h.setRun ⟨hrun.owner, hrun.remote, hrun.localRows, hphase, hrun.awaiting⟩

theorem ClaimInv.publishNext (h : ClaimInv clock w) {p : ℕ} (hp : p < w.nextRun)
    {rest : List DesiredClaim} (hrest : ∀ claim ∈ rest, claim.payload.names (w.runs p).owner) :
    ClaimInv clock (w.publishNext p rest) := by
  have hrun := h.runs p hp
  exact h.setRun ⟨hrun.owner, hrun.remote, hrun.localRows, hrest, fun k hk => by cases hk⟩

/-- The second pass begins: what it wants to publish names the instance. -/
theorem ClaimInv.beginPublish (h : ClaimInv clock w) {p : ℕ} (hp : p < w.nextRun) :
    ClaimInv clock (w.beginPublish sha256 clock claimsTtlMin p) := by
  have hrun := h.runs p hp
  unfold ClaimWorld.beginPublish
  refine h.setRun ⟨hrun.owner, hrun.remote, h.locals _, fun claim hclaim => ?_, hrun.awaiting⟩
  have hnames : claim.payload.instanceId = (w.runs p).owner :=
    activeLockClaimsFrom_payload _ (by simp) claim hclaim
  unfold ClaimPayload.names
  rw [hnames]
  exact hrun.owner

/-- The second pass expects an object of the instance, or none. -/
theorem ClaimInv.publishClaim (h : ClaimInv clock w) {p : ℕ} (hp : p < w.nextRun)
    {claim : DesiredClaim} {rest : List DesiredClaim}
    (htodo : ∀ c ∈ claim :: rest, c.payload.names (w.runs p).owner) :
    ClaimInv clock (w.publishClaim p claim rest) := by
  have hrun := h.runs p hp
  have hrest : ∀ c ∈ rest, c.payload.names (w.runs p).owner :=
    fun c hc => htodo c (List.mem_cons_of_mem _ hc)
  unfold ClaimWorld.publishClaim
  dsimp only
  have hremote : ∀ remote, ((w.runs p).remoteFor claim.claimKey).or
      (w.mirroredRemote (w.runs p) claim.claimKey) = some remote →
      w.owns remote.instanceId remote.objectOid := by
    intro remote hor
    rcases Option.or_eq_some_iff.mp hor with hfetched | ⟨-, hmirrored⟩
    · exact hrun.remoteFor_owns hfetched
    · exact h.mirroredRemote_owns hmirrored
  generalize ((w.runs p).remoteFor claim.claimKey).or
    (w.mirroredRemote (w.runs p) claim.claimKey) = remote at hremote ⊢
  by_cases hpeer : remote.any (·.instanceId != (w.runs p).owner) = true
  · rw [if_pos hpeer]
    split_ifs
    · exact (h.deleteLocalClaim _ _).publishNext hp hrest
    · exact h.publishNext hp hrest
  rw [if_neg hpeer]
  split_ifs
  · exact h.publishNext hp hrest
  · exact h.publishNext hp hrest
  · refine h.send hp _ (fun object hobject => ?_) fun x hx => Or.inl ?_
    · obtain rfl := Option.some.inj hobject
      exact htodo claim List.mem_cons_self
    · rcases Option.or_eq_some_iff.mp hx with hown | ⟨-, hlocal⟩
      · -- the remote object is the instance's own
        obtain ⟨found, rfl, rfl⟩ := Option.map_eq_some_iff.mp hown
        have howner : found.instanceId = (w.runs p).owner := by simpa using hpeer
        rw [← howner]
        exact hremote found rfl
      · obtain ⟨row, hrow, rfl⟩ := Option.map_eq_some_iff.mp hlocal
        exact hrun.localRows row (List.mem_of_find?_eq_some hrow)

/-- The third pass expects an object of the instance. -/
theorem ClaimInv.releaseClaim (h : ClaimInv clock w) {p : ℕ} (hp : p < w.nextRun)
    {row : LocalClaimRow} {rest : List LocalClaimRow}
    (htodo : ∀ r ∈ row :: rest, w.owns (w.runs p).owner r.objectOid) :
    ClaimInv clock (w.releaseClaim p row rest) := by
  have hrest : ∀ r ∈ rest, w.owns (w.runs p).owner r.objectOid :=
    fun r hr => htodo r (List.mem_cons_of_mem _ hr)
  unfold ClaimWorld.releaseClaim
  dsimp only
  split_ifs
  · exact h.setPhase hp hrest
  · exact (h.deleteLocalClaim (w.runs p).owner row.claimKey).setPhase hp hrest
  · refine h.send hp _ (fun object hobject => by cases hobject) fun x hx => Or.inl ?_
    obtain rfl := Option.some.inj hx
    exact htodo row List.mem_cons_self

theorem ClaimInv.advance (h : ClaimInv clock w) (p : ℕ) (aborted : Bool) :
    ClaimInv clock (w.advance sha256 clock claimsTtlMin p aborted) := by
  unfold ClaimWorld.advance
  dsimp only
  by_cases hready : w.nextRun ≤ p ∨ (w.runs p).awaiting ≠ none
  · rw [if_pos hready]
    exact h
  rw [if_neg hready]
  rw [not_or, not_le] at hready
  have hp := hready.1
  have hrun := h.runs p hp
  have hphase := hrun.phase
  cases hcase : (w.runs p).phase with
  | cleanup todo =>
    rw [hcase] at hphase
    cases todo with
    | nil => exact h.beginPublish hp
    | cons expired rest =>
      dsimp only
      split_ifs
      · exact h.beginPublish hp
      · refine h.send hp _ (fun object hobject => by cases hobject) fun x hx => Or.inr ?_
        obtain rfl := Option.some.inj hx
        exact hphase expired List.mem_cons_self
  | publish todo =>
    rw [hcase] at hphase
    cases todo with
    | nil => exact h.setPhase hp hrun.localRows
    | cons claim rest =>
      dsimp only
      split_ifs
      · exact h.setPhase hp hrun.localRows
      · exact h.publishClaim hp hphase
  | release todo =>
    rw [hcase] at hphase
    cases todo with
    | nil => exact h.setPhase hp trivial
    | cons row rest =>
      dsimp only
      split_ifs
      · exact h.setPhase hp trivial
      · exact h.releaseClaim hp hphase
  | finished => exact h

theorem boundedString_idem {value text : String} {max : ℕ}
    (h : boundedString value max = some text) : boundedString text max = some text := by
  unfold boundedString at h
  dsimp only at h
  split_ifs at h with hbounds
  obtain rfl := Option.some.inj h
  unfold boundedString
  rw [trim_trim]
  exact if_pos hbounds

/-- **A sync starts.**  What its page says about an object is what the object says, and what it will
delete has passed its expiry on every clock, which differ by less than the grace. -/
theorem ClaimInv.startSync (h : ClaimInv clock w)
    (hskew : ∀ a b τ, clock a τ - clock b τ < claimTtlMs (claimsTtlMin a)) (call : SyncCall) :
    ClaimInv clock (w.startSync sha256 clock claimsTtlMin call) := by
  unfold ClaimWorld.startSync
  split_ifs with hdisabled
  · exact h
  cases howner : boundedString call.instanceId 160 with
  | none => exact h
  | some owner =>
    dsimp only
    generalize hpage : (call.fetchedClaims.take maxClaimsPerFetch).map
      (fun raw => ({ raw with payload := raw.objectOid.bind w.objects } : RawClaim)) = page
    -- the page shows the objects
    have hobject : ∀ raw ∈ page, ∀ oid payload, raw.objectOid = some oid →
        raw.payload = some payload → w.objects oid = some payload := by
      intro raw hraw oid payload hoid hpayload
      rw [← hpage] at hraw
      obtain ⟨fetched, -, rfl⟩ := List.mem_map.mp hraw
      dsimp only at hoid hpayload
      rw [hoid] at hpayload
      exact hpayload
    generalize hrows : page.filterMap (fun raw =>
      normalizeFetchedClaim sha256 raw (clock owner w.now) (claimsTtlMin owner)) = rows
    have hfetched : ∀ row ∈ rows, w.owns row.instanceId row.objectOid := by
      intro row hrow
      rw [← hrows] at hrow
      obtain ⟨raw, hraw, hsome⟩ := List.mem_filterMap.mp hrow
      obtain ⟨hoid, payload, hpayload, hnames⟩ := normalizeFetchedClaim_some hsome
      exact ⟨payload, hobject raw hraw _ payload hoid hpayload, hnames⟩
    have hnormal : ∀ row ∈ clampObserved rows (clock owner w.now) call.claimSnapshotStartedAt,
        w.owns row.instanceId row.objectOid := by
      intro row hrow
      unfold clampObserved at hrow
      split at hrow
      · split_ifs at hrow
        · obtain ⟨old, hold, rfl⟩ := List.mem_map.mp hrow
          exact hfetched old hold
        · exact hfetched row hrow
      · exact hfetched row hrow
    generalize clampObserved rows (clock owner w.now) call.claimSnapshotStartedAt = normalized
      at hnormal ⊢
    generalize hw : ClaimWorld.mk _ _ _ _ _ _ _ _ _ _ = w'
    have hgrows : w.Grows w' := by
      rw [← hw]
      exact ⟨le_rfl, fun _ _ => id, le_rfl, fun _ _ => rfl⟩
    refine ⟨?_, fun a row hrow => ?_, fun a row hrow => ?_, fun p hp => ?_, fun k hk => ?_⟩
    · rw [← hw]
      exact h.unused
    · rw [← hw] at hrow
      exact hgrows.owns (h.locals a row hrow)
    · refine hgrows.owns ?_
      rw [← hw] at hrow
      dsimp only at hrow
      by_cases hao : a = owner
      · subst hao
        rw [Function.update_self] at hrow
        rcases mem_replacePeerClaims hrow with hold | hnew
        · exact h.mirrors a row hold
        · exact hnormal row hnew
      · rw [Function.update_of_ne hao] at hrow
        exact h.mirrors a row hrow
    · by_cases hpn : p = w.nextRun
      · subst hpn
        refine RunSound.grows hgrows ?_
        rw [← hw]
        dsimp only
        rw [Function.update_self]
        refine ⟨boundedString_idem howner, fun remote hremote => ?_, by simp,
          fun expired hexpired => ?_, fun k hk => by cases hk⟩
        · rcases List.mem_append.mp hremote with hlease | hrow
          · obtain ⟨raw, hraw, hsome⟩ := List.mem_filterMap.mp hlease
            obtain ⟨hoid, payload, hpayload, hnames⟩ := fetchedClaimLease_some hsome
            exact ⟨payload, hobject raw hraw _ payload hoid hpayload, hnames⟩
          · obtain ⟨row, hmem, rfl⟩ := List.mem_map.mp hrow
            exact hnormal row hmem
        · obtain ⟨raw, hraw, hsome⟩ := List.mem_filterMap.mp hexpired
          obtain ⟨hoid, payload, expiresAt, hpayload, hexpiry, hgrace⟩ :=
            expiredFetchedClaim_some hsome
          refine ⟨payload, expiresAt, hobject raw hraw _ payload hoid hpayload, hexpiry, w.now,
            le_rfl, fun b => ?_⟩
          have hclose := hskew owner b w.now
          omega
      · have hother : w'.runs p = w.runs p := by
          rw [← hw]
          exact Function.update_of_ne hpn _ _
        have hlt : p < w.nextRun := by
          rw [← hw] at hp
          change p < w.nextRun + 1 at hp
          omega
        rw [hother]
        exact (h.runs p hlt).grows hgrows
    · have hsame : w'.pushes = w.pushes ∧ w'.nextPush = w.nextPush := by
        rw [← hw]
        exact ⟨rfl, rfl⟩
      rw [hsame.1]
      exact (h.pushes k (hsame.2 ▸ hk)).grows hgrows

/-- **The step.**  Every event keeps the invariant. -/
theorem ClaimInv.step (h : ClaimInv clock w)
    (hskew : ∀ a b τ, clock a τ - clock b τ < claimTtlMs (claimsTtlMin a)) (event : ClaimEvent) :
    ClaimInv clock (claimStep sha256 clock claimsTtlMin w event) := by
  cases event with
  | tick ms => exact h.tick ms
  | foreignWrite key payload => exact h.foreignWrite key payload
  | startSync call => exact h.startSync hskew call
  | advance p aborted => exact h.advance p aborted
  | arrive k => exact h.arrive k
  | answer p report => exact h.answer p report

end Steps

/-! ## 4. Live claims over whole runs -/

/-- An empty repository and new databases. -/
theorem claimInv_initial (clock : String → ℤ → ℤ) : ClaimInv clock {} := by
  constructor
  · simp
  · simp
  · simp
  · simp
  · simp

/-- A push that changes the ref of a key found the object it expects there. -/
theorem expected_of_changed {w : ClaimWorld} {k : ℕ} {key : String} {x : ℕ}
    (hx : w.refs key = some x) (hchanged : (w.arrive k).refs key ≠ some x) :
    k < w.nextPush ∧ (w.pushes k).claimKey = key ∧ (w.pushes k).expectedOldOid = some x := by
  unfold ClaimWorld.arrive at hchanged
  dsimp only at hchanged
  have hkey : ∀ value, Function.update w.refs (w.pushes k).claimKey value key ≠ some x →
      (w.pushes k).claimKey = key := by
    intro value hvalue
    by_contra hne
    rw [Function.update_of_ne (Ne.symm hne)] at hvalue
    exact hvalue hx
  by_cases hdone : w.nextPush ≤ k ∨ (w.pushes k).outcome ≠ none
  · rw [if_pos hdone] at hchanged
    exact absurd hx hchanged
  rw [if_neg hdone] at hchanged
  rw [not_or, not_le] at hdone
  by_cases hrefused : w.refs (w.pushes k).claimKey ≠ (w.pushes k).expectedOldOid
  · rw [if_pos hrefused] at hchanged
    exact absurd hx hchanged
  rw [if_neg hrefused] at hchanged
  rw [not_not] at hrefused
  have hsame : (w.pushes k).claimKey = key := by
    cases hpayload : (w.pushes k).payload with
    | none =>
      rw [hpayload] at hchanged
      exact hkey _ hchanged
    | some payload =>
      rw [hpayload] at hchanged
      exact hkey _ hchanged
  refine ⟨hdone.1, hsame, ?_⟩
  rw [← hrefused, hsame, hx]

/-- **A live claim is never taken.**  After every sequence of events, where clocks differ by less
than the time to live: a push that replaces or deletes a ref whose object names another instance
does so after the claim has passed its advertised expiry on that instance's clock, for good if
that clock never goes backwards; and two instances never hold, for one key, rows with the object
of its ref. -/
theorem live_claims_never_taken (sha256 : String → String) (clock : String → ℤ → ℤ)
    (claimsTtlMin : String → Option ℕ)
    (hskew : ∀ a b τ, clock a τ - clock b τ < claimTtlMs (claimsTtlMin a))
    (events : List ClaimEvent) :
    let w := Runs.run (claimStep sha256 clock claimsTtlMin) {} events
    (∀ k key x payload b, w.refs key = some x → (w.arrive k).refs key ≠ some x →
      w.objects x = some payload → boundedString payload.instanceId 160 = some b →
      b ≠ (w.pushes k).instanceId →
      ∃ expiresAt, payload.expiresAt = some expiresAt ∧ (∃ τ ≤ w.now, expiresAt ≤ clock b τ) ∧
        (Monotone (clock b) → expiresAt ≤ clock b w.now)) ∧
    (∀ a b key, a ≠ b → ∀ row ∈ w.locals a, ∀ row' ∈ w.locals b, row.claimKey = key →
      row'.claimKey = key →
      ¬ (w.refs key = some row.objectOid ∧ w.refs key = some row'.objectOid)) := by
  intro w
  have hstep : ∀ v event, ClaimInv clock v →
      ClaimInv clock (claimStep sha256 clock claimsTtlMin v event) :=
    fun v event hinv => hinv.step hskew event
  have h : ClaimInv clock w := Runs.run_invariant_of_forall hstep (claimInv_initial clock)
  constructor
  · intro k key x payload b hx hchanged hobject hnames hpeer
    obtain ⟨hk, -, hexpected⟩ := expected_of_changed hx hchanged
    rcases (h.pushes k hk).expected x hexpected with hown | hexpired
    · exact absurd (ClaimWorld.owns.unique ⟨payload, hobject, hnames⟩ hown) hpeer
    · obtain ⟨payload', expiresAt, hobject', hexpiry, τ, hτ, hpassed⟩ := hexpired
      rw [hobject] at hobject'
      obtain rfl := Option.some.inj hobject'
      exact ⟨expiresAt, hexpiry, ⟨τ, hτ, hpassed b⟩, fun hmono => (hpassed b).trans (hmono hτ)⟩
  · rintro a b key hab row hrow row' hrow' - - ⟨href, href'⟩
    rw [href] at href'
    have hown' := h.locals b row' hrow'
    rw [← Option.some.inj href'] at hown'
    exact hab ((h.locals a row hrow).unique hown')

/-- Instance `a` publishes a claim and is not seen again; two times to live later, instance `b`
deletes the ref. -/
theorem live_claims_never_taken_abandoned :
    let key := String.ofList (List.replicate 64 '0')
    let events : List ClaimEvent :=
      [ .startSync { instanceId := "a", activeLocks := [{ path := "src/a.js", workItemId := some 1 }] },
        .advance 0 false, .advance 0 false, .arrive 0, .answer 0 .applied, .tick 3600000,
        .startSync { instanceId := "b",
                     fetchedClaims := [{ ref := some (claimRefPrefix ++ key), objectOid := some 0 }] },
        .advance 1 false ]
    let w := Runs.run (claimStep (fun _ => key) (fun _ τ => τ) (fun _ => none)) {} events
    w.refs key = some 0 ∧ (w.arrive 1).refs key = none ∧ (w.pushes 1).instanceId = "b" ∧
      ∃ expiresAt, (w.objects 0).bind ClaimPayload.expiresAt = some expiresAt ∧
        expiresAt ≤ w.now := by
  intro key events
  have hskew : ∀ (_ _ : String) (τ : ℤ), τ - τ < claimTtlMs none := by
    intro _ _ τ
    rw [Int.sub_self]
    decide
  have hsafe : _ ∧ _ :=
    live_claims_never_taken (fun _ => key) (fun _ τ => τ) (fun _ => none) hskew events
  obtain ⟨w, hw⟩ : ∃ w, w = Runs.run (claimStep (fun _ => key) (fun _ τ => τ) (fun _ => none)) {}
    events := ⟨_, rfl⟩
  have hfacts : w.refs key = some 0 ∧ (w.arrive 1).refs key = none ∧
      (w.pushes 1).instanceId = "b" ∧ (w.objects 0).isSome = true ∧
      (w.objects 0).bind (fun p => boundedString p.instanceId 160) = some "a" := by
    rw [hw]
    decide +kernel
  rw [← hw] at hsafe ⊢
  obtain ⟨href, hdeleted, hsender, hsome, howner⟩ := hfacts
  obtain ⟨payload, hobject⟩ := Option.isSome_iff_exists.mp hsome
  rw [hobject] at howner
  have hchanged : (w.arrive 1).refs key ≠ some 0 := by
    rw [hdeleted]
    simp
  have hpeer : "a" ≠ (w.pushes 1).instanceId := by
    rw [hsender]
    decide
  obtain ⟨expiresAt, hexpiry, -, hpassed⟩ :=
    hsafe.1 1 key 0 payload "a" href hchanged hobject howner hpeer
  refine ⟨href, hdeleted, hsender, expiresAt, ?_, ?_⟩
  · rw [hobject]
    exact hexpiry
  · exact hpassed monotone_id

end PosseClient
