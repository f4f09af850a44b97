/-
# The life of a human gate

Every writer of `human_gates` is one of a few updates of rows that are still active, or the
insert of a row that competes with none.

* `Moves` is what any update may do to a row; `Settles` adds that it does not answer it.  Both
  are reflexive and transitive, so a transaction of many updates is one step (`GatesStep`).
* `human_gate_lifecycle` reads the four promises off the steps: one active gate for each
  question, closed gates stay as they are, generations grow, and an answer counts for the
  generation it was claimed for.
* The last one fails where a contract is refreshed under an answer that is being applied;
  `answer_accepted_after_refresh` is such a run.
-/
import PosseClient.Queue.HumanGates
import PosseClient.Queue.LeaseColumns

namespace PosseClient

/-! ## 1. What an update does to a row -/

/-- The gate carries an answer that is being applied or was. -/
def HumanGate.isAnswered (gate : HumanGate) : Bool :=
  gate.gateState ∈ [GateState.resolving, GateState.resolved] && gate.resolutionAction.isSome

/-- An open gate carries no answer. -/
def HumanGate.isBlank (gate : HumanGate) : Prop :=
  gate.gateState = .opened → gate.resolutionAction = none

/-- What any update does to a gate: it keeps the question, never lowers the generation, and
leaves a closed gate as it is. -/
structure Moves (gate gate' : HumanGate) : Prop where
  gateJobId : gate'.gateJobId = gate.gateJobId
  gateKind : gate'.gateKind = gate.gateKind
  originalJobId : gate'.originalJobId = gate.originalJobId
  generation : gate.generation ≤ gate'.generation
  closed : gate.isActive = false →
    gate'.gateState = gate.gateState ∧ gate'.resolutionAction = gate.resolutionAction

/-- What an update does that is not an answer: an answered gate was answered before, in the same
generation, and a gate that is being resolved was. -/
structure Settles (gate gate' : HumanGate) : Prop extends Moves gate gate' where
  blank : gate.isBlank → gate'.isBlank
  answered : gate.isBlank → gate'.isAnswered = true →
    gate.isAnswered = true ∧ gate'.generation = gate.generation
  resolving : gate'.gateState = .resolving → gate.gateState = .resolving

theorem Moves.refl (gate : HumanGate) : Moves gate gate :=
  ⟨rfl, rfl, rfl, le_rfl, fun _ => ⟨rfl, rfl⟩⟩

theorem Moves.isActive {gate gate' : HumanGate} (h : Moves gate gate')
    (hactive : gate'.isActive = true) : gate.isActive = true := by
  by_contra hclosed
  rw [Bool.not_eq_true] at hclosed
  have hsame : gate'.isActive = gate.isActive := by
    rw [HumanGate.isActive, HumanGate.isActive, (h.closed hclosed).1]
  rw [hsame, hclosed] at hactive
  exact absurd hactive (by simp)

theorem Moves.trans {a b c : HumanGate} (h : Moves a b) (h' : Moves b c) : Moves a c := by
  refine ⟨h'.gateJobId.trans h.gateJobId, h'.gateKind.trans h.gateKind,
    h'.originalJobId.trans h.originalJobId, h.generation.trans h'.generation, fun hclosed => ?_⟩
  obtain ⟨hstate, haction⟩ := h.closed hclosed
  have hclosed' : b.isActive = false := by
    rw [HumanGate.isActive, hstate]
    exact hclosed
  obtain ⟨hstate', haction'⟩ := h'.closed hclosed'
  exact ⟨hstate'.trans hstate, haction'.trans haction⟩

theorem Settles.refl (gate : HumanGate) : Settles gate gate :=
  ⟨Moves.refl gate, id, fun _ h => ⟨h, rfl⟩, id⟩

theorem Settles.trans {a b c : HumanGate} (h : Settles a b) (h' : Settles b c) : Settles a c := by
  refine ⟨h.toMoves.trans h'.toMoves, fun hblank => h'.blank (h.blank hblank), ?_,
    fun hresolving => h.resolving (h'.resolving hresolving)⟩
  intro hblank hanswered
  obtain ⟨hmid, hgeneration'⟩ := h'.answered (h.blank hblank) hanswered
  obtain ⟨hfirst, hgeneration⟩ := h.answered hblank hmid
  exact ⟨hfirst, hgeneration'.trans hgeneration⟩

/-- An active row may move to any state. -/
theorem moves_of_active {gate gate' : HumanGate} (hactive : gate.isActive = true)
    (hid : gate'.gateJobId = gate.gateJobId) (hkind : gate'.gateKind = gate.gateKind)
    (horiginal : gate'.originalJobId = gate.originalJobId)
    (hgeneration : gate.generation ≤ gate'.generation) : Moves gate gate' :=
  ⟨hid, hkind, horiginal, hgeneration, fun h => absurd (hactive.symm.trans h) (by simp)⟩

theorem settles_supersede {gate : HumanGate} (h : gate.isActive = true) :
    Settles gate gate.supersede :=
  ⟨moves_of_active h rfl rfl rfl le_rfl, fun _ hopen => absurd hopen (by simp [HumanGate.supersede]),
    fun _ hanswered => absurd hanswered (by simp [HumanGate.supersede, HumanGate.isAnswered]),
    fun hresolving => absurd hresolving (by simp [HumanGate.supersede])⟩

theorem settles_reopen {gate : HumanGate} (h : gate.isActive = true) :
    Settles gate gate.reopen :=
  ⟨moves_of_active h rfl rfl rfl le_rfl, fun _ _ => rfl,
    fun _ hanswered => absurd hanswered (by simp [HumanGate.reopen, HumanGate.isAnswered]),
    fun hresolving => absurd hresolving (by simp [HumanGate.reopen])⟩

theorem isActive_iff {gate : HumanGate} :
    gate.isActive = true ↔ gate.gateState = .opened ∨ gate.gateState = .resolving := by
  simp [HumanGate.isActive, activeGateStates]

/-- A gate that is resolved with an answer was being resolved with it. -/
theorem settles_resolve {gate : HumanGate} (h : gate.isActive = true) :
    Settles gate gate.resolve := by
  refine ⟨moves_of_active h rfl rfl rfl le_rfl,
    fun _ hopen => absurd hopen (by simp [HumanGate.resolve]), fun hblank hanswered => ?_,
    fun hresolving => absurd hresolving (by simp [HumanGate.resolve])⟩
  simp only [HumanGate.isAnswered, HumanGate.resolve, Bool.and_eq_true] at hanswered
  refine ⟨?_, rfl⟩
  rcases isActive_iff.mp h with hopen | hresolving
  · rw [hblank hopen] at hanswered
    exact absurd hanswered.2 (by simp)
  · simp [HumanGate.isAnswered, hresolving, hanswered.2]

/-- A new contract or generation of an open gate. -/
theorem settles_revise {gate : HumanGate} (h : gate.gateState = .opened) (actions : List String) :
    Settles gate { gate with allowedActions := actions, generation := gate.generation + 1 } :=
  ⟨moves_of_active (isActive_iff.mpr (Or.inl h)) rfl rfl rfl (Nat.le_succ _), fun hblank => hblank,
    fun _ hanswered => absurd hanswered (by simp [HumanGate.isAnswered, h]), id⟩

/-! ## 2. What a transaction does to the table -/

/-- At most one gate is active for each original job and kind. -/
def OneActive (db : Db) : Prop :=
  ∀ gate ∈ db.humanGates, ∀ other ∈ db.humanGates, gate.isActive = true → other.isActive = true →
    gate.originalJobId.isSome = true → other.originalJobId = gate.originalJobId →
    other.gateKind = gate.gateKind → other.gateJobId = gate.gateJobId

/-- A row that was inserted on the way: it started open and without an answer. -/
def IsNewGate (R : HumanGate → HumanGate → Prop) (gate : HumanGate) : Prop :=
  ∃ start : HumanGate, start.gateState = .opened ∧ start.resolutionAction = none ∧ R start gate

/-- Every row moves, and rows are added at the end. -/
structure GatesStep (R : HumanGate → HumanGate → Prop) (db db' : Db) : Prop where
  rows : ∃ old new, db'.humanGates = old ++ new ∧ List.Forall₂ R db.humanGates old ∧
    ∀ gate ∈ new, IsNewGate R gate
  unique : OneActive db → OneActive db'
  ids : (db.humanGates.map HumanGate.gateJobId).Nodup →
    (db'.humanGates.map HumanGate.gateJobId).Nodup

/-- A relation of the rows around a transaction. -/
structure GateRelation (R : HumanGate → HumanGate → Prop) : Prop where
  refl : ∀ gate, R gate gate
  trans : ∀ a b c, R a b → R b c → R a c
  moves : ∀ a b, R a b → Moves a b

theorem gateRelation_moves : GateRelation Moves :=
  ⟨Moves.refl, fun _ _ _ => Moves.trans, fun _ _ h => h⟩

theorem gateRelation_settles : GateRelation Settles :=
  ⟨Settles.refl, fun _ _ _ => Settles.trans, fun _ _ h => h.toMoves⟩

section Steps

variable {R : HumanGate → HumanGate → Prop}

theorem GatesStep.of_eq (hR : GateRelation R) {db db' : Db} (h : db'.humanGates = db.humanGates) :
    GatesStep R db db' := by
  refine ⟨⟨db.humanGates, [], by simp [h], List.forall₂_same.mpr fun g _ => hR.refl g, by simp⟩,
    ?_, ?_⟩
  · intro hone
    unfold OneActive
    rw [h]
    exact hone
  · rw [h]
    exact id

theorem GatesStep.refl (hR : GateRelation R) (db : Db) : GatesStep R db db :=
  GatesStep.of_eq hR rfl

theorem GatesStep.trans (hR : GateRelation R) {a b c : Db} (h : GatesStep R a b)
    (h' : GatesStep R b c) : GatesStep R a c := by
  obtain ⟨old, new, hb, hold, hnew⟩ := h.rows
  obtain ⟨old', new', hc, hold', hnew'⟩ := h'.rows
  rw [hb] at hold'
  -- the rows that were there at first, and those the first step added
  have hkept : List.Forall₂ R old (old'.take old.length) :=
    (List.forall₂_take_append old' old new hold'.flip).flip
  have hadded : List.Forall₂ R new (old'.drop old.length) :=
    (List.forall₂_drop_append old' old new hold'.flip).flip
  have : IsTrans HumanGate R := ⟨hR.trans⟩
  refine ⟨⟨old'.take old.length, old'.drop old.length ++ new', ?_, ?_, ?_⟩,
    fun hone => h'.unique (h.unique hone), fun hids => h'.ids (h.ids hids)⟩
  · rw [hc, ← List.append_assoc, List.take_append_drop]
  · exact Table.forall₂_trans hold hkept
  · intro gate hgate
    rcases List.mem_append.mp hgate with hgate | hgate
    · obtain ⟨mid, hmid, hR'⟩ := Table.exists_of_mem_forall₂ hadded hgate
      obtain ⟨start, hopen, hnone, hmoved⟩ := hnew mid hmid
      exact ⟨start, hopen, hnone, hR.trans _ _ _ hmoved hR'⟩
    · exact hnew' gate hgate

theorem GatesStep.trans_eq (hR : GateRelation R) {a b c : Db} (h : GatesStep R a b)
    (heq : c.humanGates = b.humanGates) : GatesStep R a c :=
  h.trans hR (GatesStep.of_eq hR heq)

theorem GatesStep.mono {R' : HumanGate → HumanGate → Prop} {db db' : Db}
    (h : GatesStep R db db') (hsub : ∀ a b, R a b → R' a b) : GatesStep R' db db' := by
  obtain ⟨old, new, hdb', hold, hnew⟩ := h.rows
  refine ⟨⟨old, new, hdb', hold.imp hsub, fun gate hgate => ?_⟩, h.unique, h.ids⟩
  obtain ⟨start, hopen, hnone, hmoved⟩ := hnew gate hgate
  exact ⟨start, hopen, hnone, hsub _ _ hmoved⟩

/-- An update of rows that are related to their images. -/
theorem gatesStep_update (hR : GateRelation R) {db : Db} {p : HumanGate → Bool}
    {f : HumanGate → HumanGate} (h : ∀ gate ∈ db.humanGates, p gate = true → R gate (f gate)) :
    GatesStep R db (db.updateHumanGates p f) := by
  have hrows : List.Forall₂ R db.humanGates (Table.updateWhere p f db.humanGates) :=
    Table.forall₂_updateWhere hR.refl h
  refine ⟨⟨_, [], (List.append_nil _).symm, hrows, by simp⟩, ?_, ?_⟩
  · intro hone gate hgate other hother hactive hactive' hsome hsame hkind
    obtain ⟨gate₀, hgate₀, hmoved⟩ := Table.exists_of_mem_forall₂ hrows hgate
    obtain ⟨other₀, hother₀, hmoved'⟩ := Table.exists_of_mem_forall₂ hrows hother
    have hg := hR.moves _ _ hmoved
    have ho := hR.moves _ _ hmoved'
    have hid := hone gate₀ hgate₀ other₀ hother₀ (hg.isActive hactive) (ho.isActive hactive')
      (hg.originalJobId ▸ hsome) (by rw [← ho.originalJobId, ← hg.originalJobId, hsame])
      (by rw [← ho.gateKind, ← hg.gateKind, hkind])
    rw [ho.gateJobId, hg.gateJobId, hid]
  · intro hids
    have hmap : (Table.updateWhere p f db.humanGates).map HumanGate.gateJobId =
        db.humanGates.map HumanGate.gateJobId :=
      Table.map_key_forall₂ (fun a b hab => (hR.moves a b hab).gateJobId) hrows
    exact hmap ▸ hids

theorem gatesStep_foldl (hR : GateRelation R) {α : Type} {step : Db → α → Db}
    (hstep : ∀ d a, GatesStep R d (step d a)) (as : List α) (db : Db) :
    GatesStep R db (as.foldl step db) := by
  induction as generalizing db with
  | nil => exact GatesStep.refl hR db
  | cons a as ih => exact (hstep db a).trans hR (ih (step db a))

end Steps

/-! ## 3. The functions of a gate -/

theorem latestGeneration_eq_none {gates : List HumanGate} (h : latestGeneration gates = none) :
    gates = [] := by
  have hsome : ∀ (gs : List HumanGate) (best : Option HumanGate), best.isSome = true →
      (gs.foldl (fun best g =>
        if best.any (fun b => g.generation ≤ b.generation) then best else some g) best).isSome =
          true := by
    intro gs
    induction gs with
    | nil => exact fun _ hbest => hbest
    | cons g gs ih =>
      intro best hbest
      refine ih _ ?_
      dsimp only
      split
      · exact hbest
      · rfl
  cases gates with
  | nil => rfl
  | cons g gs =>
    have hgs := hsome gs (some g) rfl
    rw [latestGeneration, List.foldl_cons] at h
    simp only [Option.any_none, Bool.false_eq_true, if_false] at h
    rw [h] at hgs
    exact absurd hgs (by simp)

theorem isActive_of_and {gate : HumanGate} {a b : Bool} (h : (a && gate.isActive && b) = true) :
    gate.isActive = true := by
  rw [Bool.and_eq_true, Bool.and_eq_true] at h
  exact h.1.2

theorem gatesStep_supersedeStaleGates (db : Db) (gateJobId : ℕ) (contract : GateContract) :
    GatesStep Settles db (supersedeStaleGates db gateJobId contract) :=
  gatesStep_update gateRelation_settles
    (fun _ _ hp => settles_supersede (isActive_of_and hp))

/-- A row that competes with no active gate may be inserted. -/
theorem gatesStep_insert {db : Db} {gateJobId : ℕ} {contract : GateContract}
    (hfresh : ∀ gate ∈ db.humanGates, gate.gateJobId ≠ gateJobId)
    (hnone : ∀ gate ∈ db.humanGates, gate.asks contract.originalJobId contract.gateKind = true →
      contract.originalJobId.isSome = true → gate.isActive = false) :
    GatesStep Settles db
      { db with humanGates := db.humanGates ++ [newHumanGate db gateJobId contract] } := by
  have hnewActive : (newHumanGate db gateJobId contract).isActive = true := rfl
  have hkey : ∀ gate ∈ db.humanGates, gate.isActive = true →
      contract.originalJobId.isSome = true → gate.originalJobId = contract.originalJobId →
      gate.gateKind ≠ contract.gateKind := by
    intro gate hgate hactive hsome hsame hkind
    have hclosed := hnone gate hgate (by simp [HumanGate.asks, hsame, hkind]) hsome
    rw [hactive] at hclosed
    exact absurd hclosed (by simp)
  refine ⟨⟨db.humanGates, [newHumanGate db gateJobId contract], rfl,
    List.forall₂_same.mpr fun g _ => Settles.refl g, ?_⟩, ?_, ?_⟩
  · intro gate hgate
    rw [List.mem_singleton] at hgate
    exact ⟨gate, hgate ▸ rfl, hgate ▸ rfl, Settles.refl gate⟩
  · intro hone gate hgate other hother hactive hactive' hsome hsame hkind
    rcases List.mem_append.mp hgate with hgate | hgate <;>
      rcases List.mem_append.mp hother with hother | hother
    · exact hone gate hgate other hother hactive hactive' hsome hsame hkind
    · rw [List.mem_singleton] at hother
      subst hother
      have horiginal : gate.originalJobId = contract.originalJobId := hsame.symm
      exact absurd hkind.symm (hkey gate hgate hactive (horiginal ▸ hsome) horiginal)
    · rw [List.mem_singleton] at hgate
      subst hgate
      exact absurd hkind (hkey other hother hactive' hsome hsame)
    · rw [List.mem_singleton] at hgate hother
      rw [hgate, hother]
  · intro hids
    rw [List.map_append, List.map_singleton, ← List.concat_eq_append]
    refine hids.concat (fun hmem => ?_)
    obtain ⟨gate, hgate, hid⟩ := List.mem_map.mp hmem
    exact hfresh gate hgate hid

theorem gatesStep_registerHumanGateIn (db : Db) (gateJobId : ℕ) (contract : Option GateContract) :
    GatesStep Settles db (registerHumanGateIn db gateJobId contract).1 := by
  have hR := gateRelation_settles
  unfold registerHumanGateIn
  split
  · exact GatesStep.refl hR db
  · rename_i hmissing
    split
    · exact GatesStep.refl hR db
    · rename_i contract
      have hretired := gatesStep_supersedeStaleGates db gateJobId contract
      dsimp only
      split
      · exact hretired
      · rename_i hcompeting
        split
        · exact hretired
        · refine hretired.trans hR (gatesStep_insert ?_ ?_)
          · intro gate hgate hid
            obtain ⟨before, hbefore, hmoved⟩ := Table.exists_of_mem_forall₂
              (Table.forall₂_updateWhere Settles.refl (fun gate _ hp =>
                settles_supersede (isActive_of_and hp))) hgate
            rw [Db.getHumanGate, Table.lookup_eq_none_iff] at hmissing
            exact hmissing before hbefore (hmoved.gateJobId ▸ hid)
          · intro gate hgate hasks hsome
            have hempty := latestGeneration_eq_none hcompeting
            rw [List.filter_eq_nil_iff] at hempty
            have hnot := hempty gate hgate
            obtain ⟨original, horiginal⟩ := Option.isSome_iff_exists.mp hsome
            rw [horiginal] at hasks
            simpa [competes, horiginal, hasks] using hnot

theorem gatesStep_registerHumanGate (db : Db) (gateJobId : ℕ) (contract : Option GateContract) :
    GatesStep Settles db (registerHumanGate db gateJobId contract).1 := by
  unfold registerHumanGate
  dsimp only
  split
  · exact GatesStep.refl gateRelation_settles db
  · exact gatesStep_registerHumanGateIn db gateJobId contract

theorem activeOf_isActive {gateJobId : ℕ} {gate : HumanGate}
    (h : gate.activeOf gateJobId = true) : gate.isActive = true := by
  rw [HumanGate.activeOf, Bool.and_eq_true] at h
  exact h.2

theorem resolvedBy_isActive {gateJobId : ℕ} {leaseToken : Option ℕ} {gate : HumanGate}
    (h : gate.resolvedBy gateJobId leaseToken = true) : gate.isActive = true := by
  simp only [HumanGate.resolvedBy, Bool.and_eq_true, beq_iff_eq] at h
  exact isActive_iff.mpr (Or.inr h.1.2)

theorem gatesStep_reviseOpenHumanGateGeneration (db : Db) (gateJobId : ℕ) :
    GatesStep Settles db (reviseOpenHumanGateGeneration db gateJobId) := by
  refine gatesStep_update gateRelation_settles (fun gate _ hp => ?_)
  rw [Bool.and_eq_true, beq_iff_eq, beq_iff_eq] at hp
  exact settles_revise hp.2 gate.allowedActions

theorem gatesStep_completeHumanGateResolution (clock : Clock) (db : Db) (gateJobId : ℕ)
    (leaseToken : Option ℕ) :
    GatesStep Settles db (completeHumanGateResolution clock db gateJobId leaseToken).1 := by
  have hR := gateRelation_settles
  unfold completeHumanGateResolution
  split
  · exact GatesStep.refl hR db
  · split_ifs
    · exact GatesStep.refl hR db
    · exact GatesStep.refl hR db
    · exact GatesStep.refl hR db
    · exact gatesStep_update hR (fun _ _ hp => settles_resolve (resolvedBy_isActive hp))

theorem gatesStep_reopenHumanGateResolution (db : Db) (gateJobId : ℕ) (leaseToken : Option ℕ) :
    GatesStep Settles db (reopenHumanGateResolution db gateJobId leaseToken) :=
  gatesStep_update gateRelation_settles
    (fun _ _ hp => settles_reopen (resolvedBy_isActive hp))

theorem gatesStep_supersedeHumanGate (db : Db) (gateJobId : ℕ) :
    GatesStep Settles db (supersedeHumanGate db gateJobId) :=
  gatesStep_update gateRelation_settles (fun _ _ hp => settles_supersede (activeOf_isActive hp))

theorem gatesStep_claimHeadlessHumanGateTimeout (clock : Clock) (db : Db) (gateJobId : ℕ) :
    GatesStep Settles db (claimHeadlessHumanGateTimeout clock db gateJobId) := by
  refine gatesStep_update gateRelation_settles (fun gate _ hp => settles_supersede ?_)
  rw [Bool.and_eq_true, Bool.and_eq_true, beq_iff_eq, beq_iff_eq] at hp
  exact isActive_iff.mpr (Or.inl hp.1.2)

/-- A refresh moves an active gate, whatever it does to the answer of a resolving one. -/
theorem gatesStep_refreshHumanGateContract (db : Db) (gateJobId : ℕ) (contract : GateContract) :
    GatesStep Moves db (refreshHumanGateContract db gateJobId contract) := by
  refine gatesStep_update gateRelation_moves (fun gate _ hp => ?_)
  rw [Bool.and_eq_true, Bool.and_eq_true] at hp
  exact moves_of_active hp.1.2 rfl rfl rfl (Nat.le_succ _)

theorem gatesStep_beginHumanGateResolution (clock : Clock) (db : Db) (gateJobId : ℕ)
    (leaseToken : Option ℕ) (action : String) (requestKey : Option String) (requireLease : Bool) :
    GatesStep Moves db (beginHumanGateResolution clock db gateJobId leaseToken action requestKey
      requireLease).1 := by
  have hR := gateRelation_moves
  unfold beginHumanGateResolution
  split
  · exact GatesStep.refl hR db
  · split
    · exact GatesStep.refl hR db
    · split
      · exact GatesStep.refl hR db
      · dsimp only
        split
        · exact GatesStep.refl hR db
        · refine gatesStep_update hR (fun gate _ hp => ?_)
          rw [Bool.and_eq_true, Bool.and_eq_true, beq_iff_eq, beq_iff_eq] at hp
          exact moves_of_active (isActive_iff.mpr (Or.inl hp.1.2)) rfl rfl rfl le_rfl

theorem gatesStep_settleGateOfJob (db : Db) (jobId : ℕ) (status : JobStatus) :
    GatesStep Settles db (settleGateOfJob db jobId status) := by
  have hR := gateRelation_settles
  have hactive : ∀ gate : HumanGate,
      (gate.gateJobId == jobId && decide (gate.gateState ∈ activeGateStates)) = true →
        gate.isActive = true := by
    intro gate hp
    rw [Bool.and_eq_true] at hp
    exact hp.2
  unfold settleGateOfJob
  dsimp only
  split
  · exact gatesStep_update hR (fun gate _ hp => settles_resolve (hactive gate hp))
  · exact gatesStep_update hR (fun gate _ hp => settles_supersede (hactive gate hp))
  · exact GatesStep.refl hR db

theorem humanGates_cancelUnusedReviewedTransfers (db : Db) (jobId : ℕ) :
    (cancelUnusedReviewedTransfers db jobId).humanGates = db.humanGates := by
  unfold cancelUnusedReviewedTransfers
  split
  · rfl
  · dsimp only
    split
    · rfl
    · split
      · rfl
      · exact (locksOnly_returnTransfers db _ jobId _).humanGates

theorem gatesStep_updateJobStatus (clock : Clock) (db : Db) (jobId : ℕ) (status : JobStatus)
    (options : StatusOptions) :
    GatesStep Settles db (updateJobStatus clock db jobId status options).1 := by
  have hR := gateRelation_settles
  have hsettled : ∀ (isGate : Bool) (updated : Db), updated.humanGates = db.humanGates →
      GatesStep Settles db (if isGate then settleGateOfJob updated jobId status else updated) := by
    intro isGate updated hupdated
    split
    · exact (GatesStep.of_eq hR hupdated).trans hR (gatesStep_settleGateOfJob updated jobId status)
    · exact GatesStep.of_eq hR hupdated
  unfold updateJobStatus
  dsimp only
  split
  · exact GatesStep.refl hR db
  · refine GatesStep.trans_eq hR (GatesStep.trans_eq hR ?_
      (locksOnly_releaseJobLocksForStatus _ jobId status).humanGates) rfl
    have hupdated := fun isGate => hsettled isGate
      (db.updateJobs (statusUpdateApplies jobId options) (Job.setStatus clock status)) rfl
    split
    · exact GatesStep.trans_eq hR (hupdated _) (humanGates_cancelUnusedReviewedTransfers _ jobId)
    · exact hupdated _

/-! ## 4. Reconciliation -/

theorem humanGates_endGateJob (clock : Clock) (db : Db) (gateJobId : ℕ) (status : JobStatus) :
    (endGateJob clock db gateJobId status).humanGates = db.humanGates := rfl

theorem gatesStep_retireGateJob (env : GateEnv) (clock : Clock) (db : Db) (gateJobId : ℕ) :
    GatesStep Settles db (retireGateJob env clock db gateJobId) := by
  have hR := gateRelation_settles
  unfold retireGateJob
  dsimp only
  refine GatesStep.trans hR ?_ (gatesStep_supersedeHumanGate _ gateJobId)
  split
  · exact GatesStep.of_eq hR rfl
  · exact GatesStep.of_eq hR rfl

theorem humanGates_closeContractJob (env : GateEnv) (clock : Clock) (db : Db) (gate : HumanGate) :
    (closeContractJob env clock db gate).humanGates = db.humanGates := by
  unfold closeContractJob
  dsimp only
  split
  · rfl
  · split
    · rfl
    · rfl

theorem gatesStep_registerMissingGate (env : GateEnv) (clock : Clock) (db : Db) (job : Job) :
    GatesStep Settles db (registerMissingGate env clock db job) := by
  have hR := gateRelation_settles
  have hregistered := gatesStep_registerHumanGateIn db job.id (env.contractFor job)
  unfold registerMissingGate
  dsimp only
  split
  · exact hregistered.trans hR (gatesStep_retireGateJob env clock _ job.id)
  · split
    · exact hregistered
    · exact hregistered.trans_eq hR (humanGates_endGateJob clock _ job.id _)

theorem gatesStep_refreshDriftedContract (env : GateEnv) (db : Db) (gate : HumanGate) :
    GatesStep Settles db (refreshDriftedContract env db gate) := by
  have hR := gateRelation_settles
  unfold refreshDriftedContract
  split
  · exact GatesStep.refl hR db
  · split
    · exact GatesStep.refl hR db
    · refine gatesStep_update hR (fun g _ hp => ?_)
      rw [Bool.and_eq_true, Bool.and_eq_true, beq_iff_eq, beq_iff_eq] at hp
      exact settles_revise hp.1.2 _

theorem gatesStep_endGate (clock : Clock) (status : JobStatus) (db : Db) (gate : HumanGate) :
    GatesStep Settles db (endGate clock status db gate) :=
  (GatesStep.of_eq gateRelation_settles
    (humanGates_endGateJob clock db gate.gateJobId status)).trans gateRelation_settles
      (gatesStep_supersedeHumanGate _ gate.gateJobId)

theorem gatesStep_settleAbandoned (env : GateEnv) (clock : Clock) (db : Db) (gate : HumanGate) :
    GatesStep Settles db (settleAbandoned env clock db gate) := by
  unfold settleAbandoned
  dsimp only
  split
  · exact gatesStep_retireGateJob env clock db gate.gateJobId
  · exact gatesStep_retireGateJob env clock db gate.gateJobId
  · refine gatesStep_update gateRelation_settles (fun g _ hp => settles_reopen ?_)
    rw [Bool.and_eq_true, beq_iff_eq, beq_iff_eq] at hp
    exact isActive_iff.mpr (Or.inr hp.2)

/-- The last pass writes by the gate's id alone: the row it selected is the one it writes. -/
theorem gatesStep_settleInconsistent (env : GateEnv) {db : Db} {gate : HumanGate}
    (hids : (db.humanGates.map HumanGate.gateJobId).Nodup) (hgate : gate ∈ db.humanGates)
    (hactive : gate.isActive = true) : GatesStep Settles db (settleInconsistent env db gate) := by
  have hR := gateRelation_settles
  have hrow : ∀ g ∈ db.humanGates, (g.gateJobId == gate.gateJobId) = true → g.isActive = true := by
    intro g hg hp
    rw [Table.eq_of_key_eq hids hg hgate (beq_iff_eq.mp hp)]
    exact hactive
  unfold settleInconsistent
  dsimp only
  split
  · exact gatesStep_update hR (fun g hg hp => settles_resolve (hrow g hg hp))
  · exact gatesStep_update hR (fun g hg hp => settles_supersede (hrow g hg hp))
  · refine GatesStep.trans hR ?_ (gatesStep_update hR fun g hg hp => settles_reopen (hrow g hg hp))
    exact GatesStep.of_eq hR rfl

/-- A step of the last pass leaves the other rows. -/
theorem mem_settleInconsistent (env : GateEnv) {db : Db} {gate other : HumanGate}
    (hother : other ∈ db.humanGates) (hne : other.gateJobId ≠ gate.gateJobId) :
    other ∈ (settleInconsistent env db gate).humanGates := by
  have hp : (other.gateJobId == gate.gateJobId) = false := beq_eq_false_iff_ne.mpr hne
  unfold settleInconsistent
  dsimp only
  split
  · exact Table.mem_updateWhere_of_not hother hp
  · exact Table.mem_updateWhere_of_not hother hp
  · exact Table.mem_updateWhere_of_not hother hp

theorem gatesStep_foldl_settleInconsistent (env : GateEnv) {rows : List HumanGate} {db : Db}
    (hids : (db.humanGates.map HumanGate.gateJobId).Nodup)
    (hrows : (rows.map HumanGate.gateJobId).Nodup)
    (hmem : ∀ gate ∈ rows, gate ∈ db.humanGates ∧ gate.isActive = true) :
    GatesStep Settles db (rows.foldl (settleInconsistent env) db) := by
  induction rows generalizing db with
  | nil => exact GatesStep.refl gateRelation_settles db
  | cons gate rows ih =>
    obtain ⟨hgate, hactive⟩ := hmem gate List.mem_cons_self
    rw [List.map_cons, List.nodup_cons] at hrows
    have hstep := gatesStep_settleInconsistent env hids hgate hactive
    refine hstep.trans gateRelation_settles (ih (hstep.ids hids) hrows.2 (fun other hother => ?_))
    obtain ⟨hmem', hactive'⟩ := hmem other (List.mem_cons_of_mem gate hother)
    refine ⟨mem_settleInconsistent env hmem' (fun hid => hrows.1 ?_), hactive'⟩
    exact List.mem_map.mpr ⟨other, hother, hid⟩

theorem gatesStep_gatePass {select : Db → HumanGate → Bool} {step : Db → HumanGate → Db}
    (hstep : ∀ d gate, GatesStep Settles d (step d gate)) (db : Db) :
    GatesStep Settles db (gatePass select step db) :=
  gatesStep_foldl gateRelation_settles hstep _ db

theorem gatesStep_reconcileLiveGates (env : GateEnv) (clock : Clock) (db : Db) :
    GatesStep Settles db (reconcileLiveGates env clock db) := by
  have hR := gateRelation_settles
  have hretire := gatesStep_retireGateJob env clock
  -- the passes, from the last to the first
  unfold reconcileLiveGates
  refine GatesStep.trans hR ?_ (gatesStep_gatePass (gatesStep_settleAbandoned env clock) _)
  refine GatesStep.trans hR ?_ (gatesStep_gatePass (gatesStep_endGate clock .failed) _)
  refine GatesStep.trans hR ?_ (gatesStep_gatePass (gatesStep_endGate clock .canceled) _)
  refine GatesStep.trans hR ?_ (gatesStep_gatePass (gatesStep_refreshDriftedContract env) _)
  refine GatesStep.trans hR ?_ (gatesStep_foldl hR (gatesStep_registerMissingGate env clock) _ _)
  refine GatesStep.trans hR ?_ (gatesStep_gatePass (fun d gate => hretire d gate.gateJobId) _)
  refine GatesStep.trans hR ?_ (gatesStep_gatePass (fun d gate => hretire d gate.gateJobId) _)
  refine GatesStep.trans hR ?_ (gatesStep_foldl hR (fun d (job : Job) => hretire d job.id) _ _)
  exact gatesStep_gatePass
    (fun d gate => GatesStep.of_eq hR (humanGates_closeContractJob env clock d gate)) db

/-- **A reconciliation is one step**: none of its passes answers a gate or touches a closed
one. -/
theorem gatesStep_reconcileHumanGates (env : GateEnv) (clock : Clock) {db : Db}
    (hids : (db.humanGates.map HumanGate.gateJobId).Nodup) :
    GatesStep Settles db (reconcileHumanGates env clock db) := by
  have hlive := gatesStep_reconcileLiveGates env clock db
  have hids' := hlive.ids hids
  refine hlive.trans gateRelation_settles (gatesStep_foldl_settleInconsistent env hids' ?_ ?_)
  · exact hids'.sublist (List.filter_sublist.map HumanGate.gateJobId)
  · intro gate hgate
    obtain ⟨hmem, hselected⟩ := List.mem_filter.mp hgate
    rw [isInconsistent, Bool.and_eq_true] at hselected
    exact ⟨hmem, hselected.1⟩

/-! ## 5. Runs -/

/-- A transaction on the gates, with everything it does not control; `jobsChange` is any other
writer of jobs and work items. -/
inductive GateOp
  | registerHumanGate (gateJobId : ℕ) (contract : Option GateContract)
  | beginHumanGateResolution (clock : Clock) (gateJobId : ℕ) (leaseToken : Option ℕ)
      (action : String) (requestKey : Option String) (requireLease : Bool)
  | completeHumanGateResolution (clock : Clock) (gateJobId : ℕ) (leaseToken : Option ℕ)
  | reopenHumanGateResolution (gateJobId : ℕ) (leaseToken : Option ℕ)
  | reviseOpenHumanGateGeneration (gateJobId : ℕ)
  | refreshHumanGateContract (gateJobId : ℕ) (contract : GateContract)
  | supersedeHumanGate (gateJobId : ℕ)
  | claimHeadlessHumanGateTimeout (clock : Clock) (gateJobId : ℕ)
  | updateJobStatus (clock : Clock) (jobId : ℕ) (status : JobStatus) (options : StatusOptions)
  | reconcileHumanGates (env : GateEnv) (clock : Clock)
  | jobsChange (jobs : List Job) (workItems : List WorkItem)

/-- One transaction. -/
def gateStep (db : Db) : GateOp → Db
  | .registerHumanGate gateJobId contract => (registerHumanGate db gateJobId contract).1
  | .beginHumanGateResolution clock gateJobId leaseToken action requestKey requireLease =>
    (beginHumanGateResolution clock db gateJobId leaseToken action requestKey requireLease).1
  | .completeHumanGateResolution clock gateJobId leaseToken =>
    (completeHumanGateResolution clock db gateJobId leaseToken).1
  | .reopenHumanGateResolution gateJobId leaseToken =>
    reopenHumanGateResolution db gateJobId leaseToken
  | .reviseOpenHumanGateGeneration gateJobId => reviseOpenHumanGateGeneration db gateJobId
  | .refreshHumanGateContract gateJobId contract => refreshHumanGateContract db gateJobId contract
  | .supersedeHumanGate gateJobId => supersedeHumanGate db gateJobId
  | .claimHeadlessHumanGateTimeout clock gateJobId =>
    claimHeadlessHumanGateTimeout clock db gateJobId
  | .updateJobStatus clock jobId status options =>
    (updateJobStatus clock db jobId status options).1
  | .reconcileHumanGates env clock => reconcileHumanGates env clock db
  | .jobsChange jobs workItems => { db with
      jobs := jobs
      workItems := workItems }

/-- The tables of gates that the runs start from: one row for each job, one active gate for each
question, and no answer on an open gate. -/
structure GatesWellFormed (db : Db) : Prop where
  ids : (db.humanGates.map HumanGate.gateJobId).Nodup
  oneActive : OneActive db
  blank : ∀ gate ∈ db.humanGates, gate.isBlank

/-- Every operation but a claim and a refresh settles gates at most. -/
theorem gatesStep_settles {db : Db} (hids : (db.humanGates.map HumanGate.gateJobId).Nodup)
    {op : GateOp}
    (hclaim : ∀ clock gateJobId leaseToken action requestKey requireLease, op ≠
      .beginHumanGateResolution clock gateJobId leaseToken action requestKey requireLease)
    (hrefresh : ∀ gateJobId contract, op ≠ .refreshHumanGateContract gateJobId contract) :
    GatesStep Settles db (gateStep db op) := by
  cases op with
  | registerHumanGate gateJobId contract => exact gatesStep_registerHumanGate db gateJobId contract
  | beginHumanGateResolution clock gateJobId leaseToken action requestKey requireLease =>
    exact absurd rfl (hclaim clock gateJobId leaseToken action requestKey requireLease)
  | completeHumanGateResolution clock gateJobId leaseToken =>
    exact gatesStep_completeHumanGateResolution clock db gateJobId leaseToken
  | reopenHumanGateResolution gateJobId leaseToken =>
    exact gatesStep_reopenHumanGateResolution db gateJobId leaseToken
  | reviseOpenHumanGateGeneration gateJobId =>
    exact gatesStep_reviseOpenHumanGateGeneration db gateJobId
  | refreshHumanGateContract gateJobId contract => exact absurd rfl (hrefresh gateJobId contract)
  | supersedeHumanGate gateJobId => exact gatesStep_supersedeHumanGate db gateJobId
  | claimHeadlessHumanGateTimeout clock gateJobId =>
    exact gatesStep_claimHeadlessHumanGateTimeout clock db gateJobId
  | updateJobStatus clock jobId status options =>
    exact gatesStep_updateJobStatus clock db jobId status options
  | reconcileHumanGates env clock => exact gatesStep_reconcileHumanGates env clock hids
  | jobsChange jobs workItems => exact GatesStep.of_eq gateRelation_settles rfl

theorem gatesStep_moves {db : Db} (hids : (db.humanGates.map HumanGate.gateJobId).Nodup)
    (op : GateOp) : GatesStep Moves db (gateStep db op) := by
  by_cases hclaim : ∀ clock gateJobId leaseToken action requestKey requireLease, op ≠
      .beginHumanGateResolution clock gateJobId leaseToken action requestKey requireLease
  · by_cases hrefresh : ∀ gateJobId contract, op ≠ .refreshHumanGateContract gateJobId contract
    · exact (gatesStep_settles hids hclaim hrefresh).mono (fun _ _ h => h.toMoves)
    · push Not at hrefresh
      obtain ⟨gateJobId, contract, rfl⟩ := hrefresh
      exact gatesStep_refreshHumanGateContract db gateJobId contract
  · push Not at hclaim
    obtain ⟨clock, gateJobId, leaseToken, action, requestKey, requireLease, rfl⟩ := hclaim
    exact gatesStep_beginHumanGateResolution clock db gateJobId leaseToken action requestKey
      requireLease

/-- A state of a run with the generation in which each gate was last claimed. -/
structure GateLedger where
  db : Db
  claims : ℕ → Option ℕ

/-- The claim in an answer of `beginHumanGateResolution`: one that is neither refused nor a
repetition. -/
def claimedBy (gateJobId : ℕ) : Except GateRefusal GateClaim → Option (ℕ × ℕ)
  | .ok claim => if claim.idempotent then none else some (gateJobId, claim.generation)
  | .error _ => none

/-- The claim a step makes. -/
def claimOf (db : Db) : GateOp → Option (ℕ × ℕ)
  | .beginHumanGateResolution clock gateJobId leaseToken action requestKey requireLease =>
    claimedBy gateJobId (beginHumanGateResolution clock db gateJobId leaseToken action requestKey
      requireLease).2
  | _ => none

/-- One transaction, recorded. -/
def gateLedgerStep (s : GateLedger) (op : GateOp) : GateLedger :=
  { db := gateStep s.db op
    claims := match claimOf s.db op with
      | some (gateJobId, generation) => Function.update s.claims gateJobId (some generation)
      | none => s.claims }

/-- The ledger of a table whose answered gates were claimed in their generation. -/
def GateLedger.start (db : Db) : GateLedger :=
  { db := db, claims := fun id => (db.getHumanGate id).map HumanGate.generation }

/-- The recorded run is the run. -/
theorem gateLedger_db (s : GateLedger) (ops : List GateOp) :
    (Runs.run gateLedgerStep s ops).db = Runs.run gateStep s.db ops := by
  induction ops generalizing s with
  | nil => rfl
  | cons op ops ih => exact ih (gateLedgerStep s op)

/-- A contract is not refreshed under an answer that is being applied. -/
def RefreshesNoAnswer (s : GateLedger) : GateOp → Prop
  | .refreshHumanGateContract gateJobId contract =>
    ∀ gate ∈ s.db.getHumanGate gateJobId, gate.gateKind = contract.gateKind →
      gate.gateState ≠ .resolving
  | _ => True

instance (s : GateLedger) (op : GateOp) : Decidable (RefreshesNoAnswer s op) := by
  cases op <;> unfold RefreshesNoAnswer <;> infer_instance

/-- Every answer, applied or being applied, was claimed in the gate's generation. -/
def AnswersCurrent (s : GateLedger) : Prop :=
  ∀ gate ∈ s.db.humanGates, gate.isAnswered = true →
    s.claims gate.gateJobId = some gate.generation

/-! ## 6. What each step keeps -/

/-- A gate inserted on the way is blank and not answered. -/
theorem isBlank_of_new {gate : HumanGate} (h : IsNewGate Settles gate) :
    gate.isBlank ∧ gate.isAnswered = false := by
  obtain ⟨start, hopen, hnone, hmoved⟩ := h
  have hblank : start.isBlank := fun _ => hnone
  refine ⟨hmoved.blank hblank, ?_⟩
  rw [← Bool.not_eq_true]
  intro hanswered
  have hfirst := (hmoved.answered hblank hanswered).1
  simp [HumanGate.isAnswered, hnone] at hfirst

/-- Settling leaves open gates blank. -/
theorem GatesStep.keeps_blank {db db' : Db} (h : GatesStep Settles db db')
    (hblank : ∀ gate ∈ db.humanGates, gate.isBlank) : ∀ gate ∈ db'.humanGates, gate.isBlank := by
  obtain ⟨old, new, hrows, hold, hnew⟩ := h.rows
  intro gate hgate
  rcases List.mem_append.mp (hrows ▸ hgate) with hgate | hgate
  · obtain ⟨before, hbefore, hmoved⟩ := Table.exists_of_mem_forall₂ hold hgate
    exact hmoved.blank (hblank before hbefore)
  · exact (isBlank_of_new (hnew gate hgate)).1

/-- Settling keeps the answers current. -/
theorem GatesStep.keeps_answers {db db' : Db} (h : GatesStep Settles db db')
    {claims : ℕ → Option ℕ} (hblank : ∀ gate ∈ db.humanGates, gate.isBlank)
    (hcurrent : AnswersCurrent ⟨db, claims⟩) : AnswersCurrent ⟨db', claims⟩ := by
  obtain ⟨old, new, hrows, hold, hnew⟩ := h.rows
  intro gate hgate hanswered
  rcases List.mem_append.mp (hrows ▸ hgate) with hgate | hgate
  · obtain ⟨before, hbefore, hmoved⟩ := Table.exists_of_mem_forall₂ hold hgate
    obtain ⟨hfirst, hgeneration⟩ := hmoved.answered (hblank before hbefore) hanswered
    rw [hmoved.gateJobId, hgeneration]
    exact hcurrent before hbefore hfirst
  · have hnot := (isBlank_of_new (hnew gate hgate)).2
    rw [hanswered] at hnot
    exact absurd hnot (by simp)

/-- A decision that is not idempotent is about an open gate, in its generation. -/
theorem beginResolutionDecision_open {gate : HumanGate} {action : String}
    {requestKey : Option String} {claim : GateClaim}
    (h : beginResolutionDecision gate action requestKey = .ok claim)
    (hnew : claim.idempotent = false) :
    gate.gateState = .opened ∧ claim.generation = gate.generation := by
  unfold beginResolutionDecision at h
  dsimp only at h
  split_ifs at h with hallowed hresolved hkey hopen
  · obtain rfl := Except.ok.inj h
    exact absurd hnew (by simp)
  · obtain rfl := Except.ok.inj h
    exact ⟨not_not.mp hopen, rfl⟩

/-- What a `beginHumanGateResolution` does: nothing, or the claim of the open gate it read. -/
theorem beginHumanGateResolution_cases (clock : Clock) (db : Db) (gateJobId : ℕ)
    (leaseToken : Option ℕ) (action : String) (requestKey : Option String)
    (requireLease : Bool) :
    (∃ answer, beginHumanGateResolution clock db gateJobId leaseToken action requestKey
        requireLease = (db, answer) ∧ claimedBy gateJobId answer = none) ∨
    ∃ gate action' key answer, db.getHumanGate gateJobId = some gate ∧ gate.gateState = .opened ∧
      beginHumanGateResolution clock db gateJobId leaseToken action requestKey requireLease =
        (claimHumanGate db gate action' key leaseToken, answer) ∧
      claimedBy gateJobId answer = some (gateJobId, gate.generation) := by
  unfold beginHumanGateResolution
  cases hgate : db.getHumanGate gateJobId with
  | none => exact Or.inl ⟨_, rfl, rfl⟩
  | some gate =>
    dsimp only
    cases hdecision : beginResolutionDecision gate action requestKey with
    | error refusal => exact Or.inl ⟨_, rfl, rfl⟩
    | ok claim =>
      dsimp only
      cases hidempotent : claim.idempotent with
      | true =>
        rw [if_pos rfl]
        exact Or.inl ⟨_, rfl, by simp [claimedBy, hidempotent]⟩
      | false =>
        rw [if_neg (by simp)]
        obtain ⟨hopen, hgeneration⟩ := beginResolutionDecision_open hdecision hidempotent
        split
        · exact Or.inl ⟨_, rfl, rfl⟩
        · exact Or.inr ⟨gate, _, _, _, rfl, hopen, rfl,
            by simp [claimedBy, hidempotent, hgeneration]⟩

theorem claimHumanGate_blank {db : Db} {gate : HumanGate} {action : Option String}
    {key : IdempotencyKey} {leaseToken : Option ℕ} (hblank : ∀ gate ∈ db.humanGates, gate.isBlank) :
    ∀ g ∈ (claimHumanGate db gate action key leaseToken).humanGates, g.isBlank := by
  intro g hg
  rcases Table.mem_updateWhere_cases hg with ⟨hmem, -⟩ | ⟨before, -, -, rfl⟩
  · exact hblank g hmem
  · exact fun h => absurd h (by simp)

/-- A claim answers one gate, in its generation. -/
theorem claimHumanGate_keeps {db : Db} {gate : HumanGate} {action : Option String}
    {key : IdempotencyKey} {leaseToken : Option ℕ} {claims : ℕ → Option ℕ}
    (hids : (db.humanGates.map HumanGate.gateJobId).Nodup) (hgate : gate ∈ db.humanGates)
    (hopen : gate.gateState = .opened) (hcurrent : AnswersCurrent ⟨db, claims⟩) :
    AnswersCurrent ⟨claimHumanGate db gate action key leaseToken,
      Function.update claims gate.gateJobId (some gate.generation)⟩ := by
  intro g hg hanswered
  rcases Table.mem_updateWhere_cases hg with ⟨hmem, hnot⟩ | ⟨before, -, hp, rfl⟩
  · by_cases hid : g.gateJobId = gate.gateJobId
    · -- the row the claim read is the one it writes
      have hsame : g = gate := Table.eq_of_key_eq hids hmem hgate hid
      subst hsame
      simp [hopen] at hnot
    · exact (Function.update_of_ne hid _ _).trans (hcurrent g hmem hanswered)
  · rw [Bool.and_eq_true, Bool.and_eq_true, beq_iff_eq, beq_iff_eq, beq_iff_eq] at hp
    have hclaims : Function.update claims gate.gateJobId (some gate.generation) before.gateJobId =
        some before.generation := by rw [hp.1.1, Function.update_self, hp.2]
    exact hclaims

/-- A refresh of a gate that is not being resolved settles it at most. -/
theorem gatesStep_refresh_of_open {db : Db} {gateJobId : ℕ} {contract : GateContract}
    (hids : (db.humanGates.map HumanGate.gateJobId).Nodup)
    (hopen : ∀ gate ∈ db.getHumanGate gateJobId, gate.gateKind = contract.gateKind →
      gate.gateState ≠ .resolving) :
    GatesStep Settles db (refreshHumanGateContract db gateJobId contract) := by
  refine gatesStep_update gateRelation_settles (fun gate hgate hp => ?_)
  rw [Bool.and_eq_true, Bool.and_eq_true, beq_iff_eq, beq_iff_eq] at hp
  have hread : db.getHumanGate gateJobId = some gate := hp.1.1 ▸ Table.lookup_of_mem hids hgate
  rcases isActive_iff.mp hp.1.2 with hstate | hresolving
  · exact settles_revise hstate _
  · exact absurd hresolving (hopen gate hread hp.2)

/-- The table stays well formed. -/
theorem GatesWellFormed.step {db : Db} (h : GatesWellFormed db) (op : GateOp) :
    GatesWellFormed (gateStep db op) := by
  have hmoves := gatesStep_moves h.ids op
  refine ⟨hmoves.ids h.ids, hmoves.unique h.oneActive, ?_⟩
  by_cases hclaim : ∀ clock gateJobId leaseToken action requestKey requireLease, op ≠
      .beginHumanGateResolution clock gateJobId leaseToken action requestKey requireLease
  · by_cases hrefresh : ∀ gateJobId contract, op ≠ .refreshHumanGateContract gateJobId contract
    · exact (gatesStep_settles h.ids hclaim hrefresh).keeps_blank h.blank
    · push Not at hrefresh
      obtain ⟨gateJobId, contract, rfl⟩ := hrefresh
      intro gate hgate
      rcases Table.mem_updateWhere_cases hgate with ⟨hmem, -⟩ | ⟨before, hmem, -, rfl⟩
      · exact h.blank gate hmem
      · exact h.blank before hmem
  · push Not at hclaim
    obtain ⟨clock, gateJobId, leaseToken, action, requestKey, requireLease, rfl⟩ := hclaim
    rcases beginHumanGateResolution_cases clock db gateJobId leaseToken action requestKey
      requireLease with ⟨answer, hsame, -⟩ | ⟨gate, action', key, answer, hread, hopen, heq, -⟩
    · have hdb : gateStep db (.beginHumanGateResolution clock gateJobId leaseToken action
        requestKey requireLease) = db := congrArg Prod.fst hsame
      exact fun gate hgate => h.blank gate (hdb ▸ hgate)
    · have hdb : gateStep db (.beginHumanGateResolution clock gateJobId leaseToken action
        requestKey requireLease) = claimHumanGate db gate action' key leaseToken :=
        congrArg Prod.fst heq
      rw [hdb]
      exact claimHumanGate_blank h.blank

/-- Answers stay current under a step that refreshes none of them. -/
theorem AnswersCurrent.step {s : GateLedger} (h : AnswersCurrent s) (hwf : GatesWellFormed s.db)
    {op : GateOp} (hop : RefreshesNoAnswer s op) : AnswersCurrent (gateLedgerStep s op) := by
  by_cases hclaim : ∀ clock gateJobId leaseToken action requestKey requireLease, op ≠
      .beginHumanGateResolution clock gateJobId leaseToken action requestKey requireLease
  · have hnone : claimOf s.db op = none := by
      cases op with
      | beginHumanGateResolution clock gateJobId leaseToken action requestKey requireLease =>
        exact absurd rfl (hclaim clock gateJobId leaseToken action requestKey requireLease)
      | _ => rfl
    have hsettles : GatesStep Settles s.db (gateStep s.db op) := by
      by_cases hrefresh : ∀ gateJobId contract, op ≠ .refreshHumanGateContract gateJobId contract
      · exact gatesStep_settles hwf.ids hclaim hrefresh
      · push Not at hrefresh
        obtain ⟨gateJobId, contract, rfl⟩ := hrefresh
        exact gatesStep_refresh_of_open hwf.ids hop
    have hkeeps := hsettles.keeps_answers hwf.blank h
    unfold gateLedgerStep
    rw [hnone]
    exact hkeeps
  · push Not at hclaim
    obtain ⟨clock, gateJobId, leaseToken, action, requestKey, requireLease, rfl⟩ := hclaim
    unfold gateLedgerStep
    unfold gateStep claimOf
    rcases beginHumanGateResolution_cases clock s.db gateJobId leaseToken action requestKey
      requireLease with ⟨answer, hsame, hnone⟩ |
        ⟨gate, action', key, answer, hread, hopen, heq, hclaimed⟩
    · dsimp only
      rw [hsame, hnone]
      exact h
    · have hid : gate.gateJobId = gateJobId := Table.lookup_key hread
      dsimp only
      rw [heq, hclaimed]
      exact hid ▸ claimHumanGate_keeps hwf.ids (Table.lookup_mem hread) hopen h

/-- A state of a run whose steps refresh no answer. -/
structure LedgerWellFormed (s : GateLedger) : Prop where
  gates : GatesWellFormed s.db
  answers : AnswersCurrent s

theorem LedgerWellFormed.step {s : GateLedger} (h : LedgerWellFormed s) {op : GateOp}
    (hop : RefreshesNoAnswer s op) : LedgerWellFormed (gateLedgerStep s op) :=
  ⟨h.gates.step op, h.answers.step h.gates hop⟩

/-- Between two states a gate keeps its row, does not lose generations, and stays closed. -/
def GatesGrow (db db' : Db) : Prop :=
  ∀ gate ∈ db.humanGates, ∃ gate' ∈ db'.humanGates, Moves gate gate'

theorem GatesStep.grow {db db' : Db} (h : GatesStep Moves db db') : GatesGrow db db' := by
  obtain ⟨old, new, hrows, hold, -⟩ := h.rows
  intro gate hgate
  obtain ⟨gate', hgate', hmoved⟩ := Table.exists_of_mem_forall₂' hold hgate
  exact ⟨gate', hrows ▸ List.mem_append_left new hgate', hmoved⟩

/-! ## 7. The lifecycle -/

theorem gatesWellFormed_run {db : Db} (h : GatesWellFormed db) (ops : List GateOp) :
    GatesWellFormed (Runs.run gateStep db ops) :=
  Runs.run_invariant_of_forall (fun _ op hdb => hdb.step op) h

theorem gatesGrow_run {db : Db} (h : GatesWellFormed db) (ops : List GateOp) :
    GatesGrow db (Runs.run gateStep db ops) := by
  have hmeets : Runs.Meets gateStep (fun _ _ => True) db ops :=
    Runs.Meets.of_forall (fun _ _ => trivial) db ops
  have hrefl : ∀ s, GatesGrow s s := fun s gate hgate => ⟨gate, hgate, Moves.refl gate⟩
  have htrans : ∀ a b c, GatesGrow a b → GatesGrow b c → GatesGrow a c := by
    intro a b c hab hbc gate hgate
    obtain ⟨mid, hmid, hmoved⟩ := hab gate hgate
    obtain ⟨last, hlast, hmoved'⟩ := hbc mid hmid
    exact ⟨last, hlast, hmoved.trans hmoved'⟩
  have hkeep : ∀ s op, GatesWellFormed s → True → GatesWellFormed (gateStep s op) :=
    fun s op hs _ => hs.step op
  have hgrow : ∀ s op, GatesWellFormed s → True → GatesGrow s (gateStep s op) :=
    fun s op hs _ => (gatesStep_moves hs.ids op).grow
  exact Runs.run_rel hrefl htrans hkeep hgrow h hmeets

theorem ledgerWellFormed_start {db : Db} (h : GatesWellFormed db) :
    LedgerWellFormed (GateLedger.start db) := by
  refine ⟨h, fun gate hgate _ => ?_⟩
  have hread : db.getHumanGate gate.gateJobId = some gate := Table.lookup_of_mem h.ids hgate
  have hclaims : (db.getHumanGate gate.gateJobId).map HumanGate.generation =
      some gate.generation := by rw [hread, Option.map_some]
  exact hclaims

/-- **The life of a gate.**  In every run: one gate at most is active for each original job and
kind; from any state on, no gate loses a generation and a resolved or superseded gate keeps its
state and its action; and, if no contract is refreshed under an answer that is being applied,
every answer that is or was applied was claimed in the gate's generation. -/
theorem human_gate_lifecycle {db : Db} (h : GatesWellFormed db) (earlier later : List GateOp)
    (hrefresh : Runs.Meets gateLedgerStep RefreshesNoAnswer (GateLedger.start db)
      (earlier ++ later)) :
    let middle := Runs.run gateStep db earlier
    let reached := Runs.run gateStep middle later
    let claims := (Runs.run gateLedgerStep (GateLedger.start db) (earlier ++ later)).claims
    OneActive reached ∧
    (∀ gate ∈ middle.humanGates, ∃ gate', reached.getHumanGate gate.gateJobId = some gate' ∧
      gate.generation ≤ gate'.generation ∧
      (gate.gateState = .resolved ∨ gate.gateState = .superseded →
        gate'.gateState = gate.gateState ∧ gate'.resolutionAction = gate.resolutionAction)) ∧
    (∀ gate ∈ reached.humanGates,
      gate.gateState = .resolving ∨ gate.gateState = .resolved →
      gate.resolutionAction.isSome = true → claims gate.gateJobId = some gate.generation) := by
  intro middle reached claims
  have hmiddle : GatesWellFormed middle := gatesWellFormed_run h earlier
  have hreached : GatesWellFormed reached := gatesWellFormed_run hmiddle later
  refine ⟨hreached.oneActive, fun gate hgate => ?_, fun gate hgate hstate haction => ?_⟩
  · obtain ⟨gate', hgate', hmoved⟩ := gatesGrow_run hmiddle later gate hgate
    refine ⟨gate', ?_, hmoved.generation, fun hclosed => hmoved.closed ?_⟩
    · exact hmoved.gateJobId ▸ Table.lookup_of_mem hreached.ids hgate'
    · rcases hclosed with hresolved | hsuperseded
      · simp [HumanGate.isActive, activeGateStates, hresolved]
      · simp [HumanGate.isActive, activeGateStates, hsuperseded]
  · have hrun : LedgerWellFormed
        (Runs.run gateLedgerStep (GateLedger.start db) (earlier ++ later)) :=
      Runs.run_invariant (fun _ _ hs hop => hs.step hop) (ledgerWellFormed_start h) hrefresh
    have hdb : (Runs.run gateLedgerStep (GateLedger.start db) (earlier ++ later)).db = reached := by
      rw [gateLedger_db, Runs.run_append]
      rfl
    refine hrun.answers gate (hdb ▸ hgate) ?_
    rw [HumanGate.isAnswered, haction, Bool.and_true]
    exact decide_eq_true (List.mem_pair.mpr hstate)

/-- A gate (job 2) about a blocked job 1 that is claimed, then completed: its answer is the one
claimed in generation 1. -/
theorem human_gate_lifecycle_one_answer :
    let clock : Clock := { now := 0, leaseNow := 0, grace := 60 }
    let original : Job := { id := 1, workItemId := none, jobType := .dev, status := .blocked }
    let gateJob : Job :=
      { id := 2, workItemId := none, jobType := .humanInput, status := .waitingOnHuman }
    let db : Db := { jobs := [original, gateJob] }
    let contract : GateContract :=
      { gateKind := "blocked_recovery", originalJobId := some 1,
        allowedSourceStates := [.blocked], allowedActions := ["retry"] }
    let asked := [GateOp.registerHumanGate 2 (some contract),
      .beginHumanGateResolution clock 2 none "retry" none false]
    let answered := [GateOp.completeHumanGateResolution clock 2 none]
    (Runs.run gateLedgerStep (GateLedger.start db) (asked ++ answered)).claims 2 = some 1 := by
  intro clock original gateJob db contract asked answered
  have hwf : GatesWellFormed db := ⟨by decide, by simp [OneActive, db], by simp [db]⟩
  obtain ⟨gate, hgate, hid, hgeneration, hstate, haction⟩ :
      ∃ gate ∈ (Runs.run gateStep (Runs.run gateStep db asked) answered).humanGates,
        gate.gateJobId = 2 ∧ gate.generation = 1 ∧ gate.gateState = .resolved ∧
          gate.resolutionAction.isSome = true := by decide
  have hclaims := (human_gate_lifecycle hwf asked answered (by decide)).2.2 gate hgate
    (Or.inr hstate) haction
  rwa [hid, hgeneration] at hclaims

/-- **An answer is accepted after its generation.**  The contract of a gate is refreshed while
an answer claimed in generation 1 is being applied; the resolver, which knows nothing of
it, completes the answer in generation 2. -/
theorem answer_accepted_after_refresh :
    let clock : Clock := { now := 0, leaseNow := 0, grace := 60 }
    let original : Job := { id := 1, workItemId := none, jobType := .dev, status := .blocked }
    let gateJob : Job :=
      { id := 2, workItemId := none, jobType := .humanInput, status := .waitingOnHuman }
    let db : Db := { jobs := [original, gateJob] }
    let contract : GateContract :=
      { gateKind := "blocked_recovery", originalJobId := some 1,
        allowedSourceStates := [.blocked], allowedActions := ["retry"] }
    let ops := [GateOp.registerHumanGate 2 (some contract),
      .beginHumanGateResolution clock 2 none "retry" none false,
      .refreshHumanGateContract 2 { contract with allowedActions := ["fail"] },
      .completeHumanGateResolution clock 2 none]
    let reached := Runs.run gateLedgerStep (GateLedger.start db) ops
    ¬(∀ gate ∈ reached.db.humanGates,
      gate.gateState = .resolving ∨ gate.gateState = .resolved →
      gate.resolutionAction.isSome = true →
        reached.claims gate.gateJobId = some gate.generation) := by
  decide

end PosseClient
