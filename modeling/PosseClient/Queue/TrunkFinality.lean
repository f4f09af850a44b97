/-
# Shared-trunk publication is final, where it is not moved back

A transition refuses an abandoned operation but not a published one, so a caller that knows the
current version moves a published row back (`trunk_publication_moved_back`).  Where no call does
that, and where the search for evidence does not take the evidence of another operation for its
own, a publication is final.

* `JournalStep` says once what a call may do to the journal; `TrunkSound` is what it keeps.
-/
import PosseClient.Lib.Runs
import PosseClient.Queue.MergeAuthorization
import PosseClient.Queue.TrunkMerge

namespace PosseClient

/-! ## 1. Calls -/

/-- A call of a coordinator, with any version. -/
inductive TrunkOp
  | beginSharedTrunkMergeOperation (intent : TrunkIntent)
  | transitionSharedTrunkMergeOperation (operationId : String) (args : TrunkTransition)
  | abandonSharedTrunkMergeOperation (operationId : String) (expectedVersion : ℤ)
      (lastErrorCode : Option String)
  | finalizePublishedSharedTrunkMergeOperation (env : WorkItemEnv) (clock : Clock)
      (operationId : String) (expectedVersion : ℤ) (remoteSha : Option String) (recovered : Bool)

/-- The call. -/
def TrunkOp.apply (op : TrunkOp) (j : Journal) : JournalResult :=
  match op with
  | .beginSharedTrunkMergeOperation intent => PosseClient.beginSharedTrunkMergeOperation j intent
  | .transitionSharedTrunkMergeOperation id args =>
    PosseClient.transitionSharedTrunkMergeOperation j id args
  | .abandonSharedTrunkMergeOperation id version code =>
    PosseClient.abandonSharedTrunkMergeOperation j id version code
  | .finalizePublishedSharedTrunkMergeOperation env clock id version remoteSha recovered =>
    PosseClient.finalizePublishedSharedTrunkMergeOperation env clock j id version remoteSha
      recovered

/-- The journal after a call; one that throws has been rolled back. -/
def trunkStep (j : Journal) (op : TrunkOp) : Journal :=
  match op.apply j with
  | .error _ => j
  | .ok (j', _) => j'

/-- The arguments of a transition that do not depend on the row are accepted. -/
def TrunkTransition.isAccepted (args : TrunkTransition) : Bool :=
  (transitionPhase args.phase).toBool && (requiredColumn args.baseSha "" "baseSha").toBool &&
    (requiredColumn args.expectedRemoteSha "" "expectedRemoteSha").toBool

/-- The version a caller gives is the row's. -/
def TrunkOperation.isAt (o : TrunkOperation) (expectedVersion : ℤ) : Bool :=
  (requiredVersion expectedVersion).toOption == some o.version

/-- A transition with these arguments moves a published operation. -/
def movesPublished (j : Journal) (operationId : String) (args : TrunkTransition) : Bool :=
  args.isAccepted && (j.selectOperation (trim operationId)).any
    (fun o => o.isAt args.expectedVersion && o.phase == .published)

/-- A publication takes an event of another operation for its evidence. -/
def takesStrayEvidence (env : WorkItemEnv) (clock : Clock) (j : Journal) (operationId : String)
    (expectedVersion : ℤ) : Bool :=
  (j.selectOperation (trim operationId)).any (fun o => o.isAt expectedVersion &&
    decide (o.phase ∈ publishablePhases) && o.candidateSha.isSome && j.evidenceExists o &&
    (settleOperation env clock j o).toBool)

/-- The arguments `abandonSharedTrunkMergeOperation` passes on. -/
def abandonment (expectedVersion : ℤ) (lastErrorCode : Option String) : TrunkTransition :=
  { expectedVersion, phase := "abandoned", lastErrorCode := some lastErrorCode }

/-- The call does neither. -/
def TrunkOp.Spares (j : Journal) (op : TrunkOp) : Prop :=
  match op with
  | .beginSharedTrunkMergeOperation _ => True
  | .transitionSharedTrunkMergeOperation id args => movesPublished j id args = false
  | .abandonSharedTrunkMergeOperation id version code =>
    movesPublished j id (abandonment version code) = false
  | .finalizePublishedSharedTrunkMergeOperation env clock id version _ _ =>
    takesStrayEvidence env clock j id version = false

instance (j : Journal) (op : TrunkOp) : Decidable (op.Spares j) :=
  match op with
  | .beginSharedTrunkMergeOperation _ => .isTrue trivial
  | .transitionSharedTrunkMergeOperation _ _ => inferInstanceAs (Decidable (_ = false))
  | .abandonSharedTrunkMergeOperation _ _ _ => inferInstanceAs (Decidable (_ = false))
  | .finalizePublishedSharedTrunkMergeOperation _ _ _ _ _ _ =>
    inferInstanceAs (Decidable (_ = false))

/-! ## 2. What a call does -/

/-- A row that has ended. -/
def TrunkOperation.HasEnded (o : TrunkOperation) : Prop :=
  o.phase = .published ∨ o.phase = .abandoned

/-- A write to a row names the same operation. -/
def NamesSame (f : TrunkOperation → TrunkOperation) : Prop :=
  ∀ o, (f o).operationId = o.operationId ∧ (f o).workItemId = o.workItemId ∧
    (f o).purpose = o.purpose

/-- **What a call may do to the journal.** -/
inductive JournalStep (j : Journal) : Journal → Prop
  | keep : JournalStep j j
  | begun (row : TrunkOperation) (hphase : row.phase = .intent)
    (hnew : j.selectOperation row.operationId = none) :
    JournalStep j { j with operations := j.operations ++ [row] }
  | moved (o : TrunkOperation) (f : TrunkOperation → TrunkOperation) (logged : List TrunkEvent)
    (hrow : j.selectOperation o.operationId = some o) (hlive : ¬o.HasEnded) (hsame : NamesSame f)
    (hphase : (f o).phase ≠ .published)
    (hlogged : ∀ e ∈ logged, e.eventType = .sharedTrunkOperationAbandoned) :
    JournalStep j { (j.updateOperation o f).1 with events := j.events ++ logged }
  | published (o : TrunkOperation) (f : TrunkOperation → TrunkOperation) (event : TrunkEvent)
    (db : Db) (hrow : j.selectOperation o.operationId = some o)
    (hpublishable : o.phase ∈ publishablePhases) (hcandidate : o.candidateSha.isSome)
    (hsame : NamesSame f) (hphase : (f o).phase = .published)
    (hkept : (f o).candidateSha = o.candidateSha)
    (hevent : event.operationId = some o.operationId ∧ event.eventType = o.evidenceType)
    (hsettled : (o.purpose = .iterative ∧ db = j.db) ∨ (o.purpose = .final ∧
      ∃ env clock, finalizeApprovedWorkItemMerge env clock j.db o.workItemId = (db, true))) :
    JournalStep j
      { db := db, operations := (j.updateOperation o f).1.operations,
        events := j.events ++ [event] }

/-- A computation that succeeds succeeds in its first step. -/
theorem bind_ok {ε α β : Type} {x : Except ε α} {f : α → Except ε β} {b : β}
    (h : (x >>= f) = .ok b) : ∃ a, x = .ok a ∧ f a = .ok b := by
  cases x with
  | error e => cases h
  | ok a => exact ⟨a, rfl, h⟩

theorem requiredString_ok {value name text : String} (h : requiredString value name = .ok text) :
    text = trim value := by
  unfold requiredString at h
  split_ifs at h
  exact (Except.ok.inj h).symm

theorem requiredColumn_toBool {value : Option String} {current current' name text : String}
    (h : requiredColumn value current name = .ok text) :
    (requiredColumn value current' name).toBool = true := by
  cases value with
  | none => rfl
  | some value =>
    have hvalue : requiredColumn (some value) current' name = .ok text := h
    rw [hvalue]
    rfl

theorem transitionPhase_ne {text : String} {phase : TrunkPhase}
    (h : transitionPhase text = .ok phase) : phase ≠ .published := by
  obtain ⟨named, -, hparse⟩ := bind_ok h
  rintro rfl
  split at hparse
  · cases hparse
  · cases hparse
  · rename_i hne _
    obtain rfl := Except.ok.inj hparse
    exact hne rfl

theorem namesSame_write (args : TrunkTransition) (phase : TrunkPhase)
    (baseSha expectedRemoteSha : String) :
    NamesSame (args.write phase baseSha expectedRemoteSha) :=
  fun _ => ⟨rfl, rfl, rfl⟩

/-- What an accepted transition did. -/
theorem transition_cases {j j' : Journal} {operationId : String} {args : TrunkTransition}
    {answer : Option TrunkOperation}
    (h : transitionSharedTrunkMergeOperation j operationId args = .ok (j', answer))
    (hspares : movesPublished j operationId args = false) :
    (j' = j ∧ answer = none) ∨ ∃ o f, j.selectOperation o.operationId = some o ∧ ¬o.HasEnded ∧
      NamesSame f ∧ (f o).phase ≠ .published ∧ j' = (j.updateOperation o f).1 := by
  unfold transitionSharedTrunkMergeOperation at h
  obtain ⟨phase, hphase, h⟩ := bind_ok h
  obtain ⟨version, hversion, h⟩ := bind_ok h
  obtain ⟨id, hid, h⟩ := bind_ok h
  unfold transitionOperation at h
  cases hrow : j.selectOperation id with
  | none =>
    rw [hrow] at h
    cases h
    exact Or.inl ⟨rfl, rfl⟩
  | some o =>
    rw [hrow] at h
    dsimp only at h
    by_cases hat : o.version ≠ version
    · rw [if_pos hat] at h
      cases h
      exact Or.inl ⟨rfl, rfl⟩
    rw [if_neg hat] at h
    by_cases habandoned : o.phase = .abandoned
    · rw [if_pos habandoned] at h
      cases h
    rw [if_neg habandoned] at h
    obtain ⟨baseSha, hbase, h⟩ := bind_ok h
    obtain ⟨expected, hexpected, h⟩ := bind_ok h
    have hkey : o.operationId = id := Table.lookup_key hrow
    have hpublished : o.phase ≠ .published := by
      intro hpublished
      have haccepted : args.isAccepted = true := by
        rw [TrunkTransition.isAccepted, hphase, requiredColumn_toBool hbase,
          requiredColumn_toBool hexpected]
        rfl
      have hisAt : o.isAt args.expectedVersion = true := by
        rw [TrunkOperation.isAt, hversion, not_not.mp hat]
        exact beq_self_eq_true _
      rw [movesPublished, ← requiredString_ok hid, hrow, haccepted] at hspares
      simp [hisAt, hpublished] at hspares
    refine Or.inr ⟨o, args.write phase baseSha expected, ?_, ?_,
      namesSame_write args phase baseSha expected, transitionPhase_ne hphase, ?_⟩
    · rw [hkey]
      exact hrow
    · rintro (hended | hended)
      · exact hpublished hended
      · exact habandoned hended
    · exact (congrArg Prod.fst (Except.ok.inj h)).symm

/-- A row that was inserted or found. -/
theorem insertOperation_cases {j j' : Journal} {row : TrunkOperation}
    {answer : Option TrunkOperation} (h : insertOperation j row = .ok (j', answer)) :
    j' = j ∨ (j.selectOperation row.operationId = none ∧
      j' = { j with operations := j.operations ++ [row] }) := by
  unfold insertOperation at h
  cases hfound : j.operations.find? (fun o => o.identity == row.identity) with
  | some existing =>
    rw [hfound] at h
    cases h
    exact Or.inl rfl
  | none =>
    rw [hfound] at h
    dsimp only at h
    split_ifs at h with hworkItem hid
    cases h
    exact Or.inr ⟨by simpa using hid, rfl⟩

theorem normalize_intent {intent : TrunkIntent} {row : TrunkOperation}
    (h : intent.normalize = .ok row) : row.phase = .intent := by
  unfold TrunkIntent.normalize at h
  obtain ⟨named, -, h⟩ := bind_ok h
  cases hpurpose : TrunkPurpose.parse named with
  | none =>
    rw [hpurpose] at h
    cases h
  | some purpose =>
    rw [hpurpose] at h
    obtain ⟨sourceSha, -, h⟩ := bind_ok h
    obtain ⟨operationId, -, h⟩ := bind_ok h
    obtain ⟨workItemId, -, h⟩ := bind_ok h
    obtain ⟨purposeKey, -, h⟩ := bind_ok h
    obtain ⟨sourceBranch, -, h⟩ := bind_ok h
    obtain ⟨targetBranch, -, h⟩ := bind_ok h
    obtain ⟨remote, -, h⟩ := bind_ok h
    obtain ⟨baseSha, -, h⟩ := bind_ok h
    obtain ⟨expectedRemoteSha, -, h⟩ := bind_ok h
    obtain rfl := Except.ok.inj h
    rfl

/-- What a settlement did to the database. -/
theorem settleOperation_cases {env : WorkItemEnv} {clock : Clock} {j j' : Journal}
    {o : TrunkOperation} (h : settleOperation env clock j o = .ok j') :
    ∃ db, j' = { j with db := db } ∧ ((o.purpose = .iterative ∧ db = j.db) ∨
      (o.purpose = .final ∧ finalizeApprovedWorkItemMerge env clock j.db o.workItemId =
        (db, true))) := by
  unfold settleOperation at h
  cases hpurpose : o.purpose with
  | iterative =>
    rw [hpurpose] at h
    cases h
    exact ⟨j.db, rfl, Or.inl ⟨rfl, rfl⟩⟩
  | final =>
    rw [hpurpose] at h
    dsimp only at h
    by_cases hok : (finalizeApprovedWorkItemMerge env clock j.db o.workItemId).2 = true
    · rw [if_pos hok] at h
      cases h
      exact ⟨_, rfl, Or.inr ⟨rfl, Prod.ext rfl hok⟩⟩
    · rw [if_neg hok] at h
      cases h

/-- What a publication did. -/
theorem publishOperation_cases {env : WorkItemEnv} {clock : Clock} {j j' : Journal}
    {operationId : String} {version : ℕ} {remoteSha : Option String} {recovered : Bool}
    {answer : Option TrunkOperation}
    (h : publishOperation env clock j operationId version remoteSha recovered = .ok (j', answer))
    (hspares : ∀ o, j.selectOperation operationId = some o → o.version = version →
      o.phase ∈ publishablePhases → o.candidateSha.isSome = true →
      (settleOperation env clock j o).toBool = true → j.evidenceExists o = false) :
    JournalStep j j' := by
  unfold publishOperation at h
  cases hrow : j.selectOperation operationId with
  | none =>
    rw [hrow] at h
    cases h
    exact JournalStep.keep
  | some o =>
    rw [hrow] at h
    dsimp only at h
    by_cases hversion : o.version ≠ version
    · rw [if_pos hversion] at h
      cases h
      exact JournalStep.keep
    rw [if_neg hversion] at h
    by_cases hdone : o.phase = .published
    · rw [if_pos hdone] at h
      cases h
      exact JournalStep.keep
    rw [if_neg hdone] at h
    by_cases habandoned : o.phase = .abandoned
    · rw [if_pos habandoned] at h
      cases h
    rw [if_neg habandoned] at h
    by_cases hrefused : o.phase ∉ publishablePhases ∨ o.candidateSha.isNone = true
    · rw [if_pos hrefused] at h
      cases h
    rw [if_neg hrefused] at h
    rw [not_or, not_not, Bool.not_eq_true, Option.isNone_eq_false_iff] at hrefused
    obtain ⟨hpublishable, hcandidate⟩ := hrefused
    have hkey : o.operationId = operationId := Table.lookup_key hrow
    obtain ⟨settled, hsettled, h⟩ := bind_ok h
    -- the search finds nothing: otherwise the journal settled is the one the call started from
    have hnone : j.evidenceExists o = false := by
      by_contra hfound
      rw [Bool.not_eq_false] at hfound
      rw [if_pos hfound] at hsettled
      refine absurd (hspares o hrow (not_not.mp hversion) hpublishable hcandidate ?_) (by simp [hfound])
      rw [hsettled]
      rfl
    rw [if_neg (by simp [hnone])] at hsettled
    obtain ⟨db, rfl, hdb⟩ := settleOperation_cases hsettled
    split_ifs at h with hchanges
    obtain rfl : _ = j' := congrArg Prod.fst (Except.ok.inj h)
    refine JournalStep.published o _ (o.evidence remoteSha recovered) db (hkey ▸ hrow) hpublishable
      hcandidate (fun _ => ⟨rfl, rfl, rfl⟩) rfl rfl ⟨rfl, rfl⟩ ?_
    rcases hdb with hiterative | ⟨hfinal, hfinalize⟩
    · exact Or.inl hiterative
    · exact Or.inr ⟨hfinal, env, clock, hfinalize⟩

/-- Every call that spares published operations is a step of the journal. -/
theorem journalStep_trunkStep (j : Journal) (op : TrunkOp) (h : op.Spares j) :
    JournalStep j (trunkStep j op) := by
  unfold trunkStep
  cases happly : op.apply j with
  | error e => exact JournalStep.keep
  | ok out =>
    obtain ⟨j', answer⟩ := out
    dsimp only
    cases op with
    | beginSharedTrunkMergeOperation intent =>
      obtain ⟨row, hnormal, hinsert⟩ := bind_ok happly
      rcases insertOperation_cases hinsert with rfl | ⟨hnew, rfl⟩
      · exact JournalStep.keep
      · exact JournalStep.begun row (normalize_intent hnormal) hnew
    | transitionSharedTrunkMergeOperation operationId args =>
      rcases transition_cases happly h with ⟨rfl, -⟩ | ⟨o, f, hrow, hlive, hsame, hphase, rfl⟩
      · exact JournalStep.keep
      · have hstep := JournalStep.moved o f [] hrow hlive hsame hphase (by simp)
        rwa [List.append_nil] at hstep
    | abandonSharedTrunkMergeOperation operationId version code =>
      obtain ⟨id, hid, hbody⟩ := bind_ok happly
      cases hrow : j.selectOperation id with
      | none =>
        rw [hrow] at hbody
        cases hbody
        exact JournalStep.keep
      | some current =>
        rw [hrow] at hbody
        obtain ⟨⟨moved, result⟩, htransition, hlog⟩ := bind_ok hbody
        rcases transition_cases htransition h with
          ⟨rfl, rfl⟩ | ⟨o, f, hrow, hlive, hsame, hphase, rfl⟩
        · cases hlog
          exact JournalStep.keep
        · cases result with
          | none =>
            cases hlog
            have hstep := JournalStep.moved o f [] hrow hlive hsame hphase (by simp)
            rwa [List.append_nil] at hstep
          | some abandoned =>
            cases hlog
            refine JournalStep.moved o f [_] hrow hlive hsame hphase ?_
            intro e he
            obtain rfl := List.mem_singleton.mp he
            rfl
    | finalizePublishedSharedTrunkMergeOperation env clock operationId version remoteSha
        recovered =>
      obtain ⟨id, hid, hbody⟩ := bind_ok happly
      obtain ⟨n, hversion, hpublish⟩ := bind_ok hbody
      refine publishOperation_cases hpublish fun o hrow hn hpublishable hcandidate hsettles => ?_
      have hisAt : o.isAt version = true := by
        rw [TrunkOperation.isAt, hversion, hn]
        exact beq_self_eq_true _
      obtain rfl := requiredString_ok hid
      have hspares : takesStrayEvidence env clock j operationId version = false := h
      rw [takesStrayEvidence, hrow] at hspares
      simpa [hisAt, hpublishable, hcandidate, hsettles] using hspares

/-! ## 3. The invariant -/

/-- An event that is evidence of a merge. -/
def TrunkEvent.isEvidence (event : TrunkEvent) : Bool :=
  event.eventType ∈ [TrunkEventType.workItemMerged, .workItemIterationPassMerged]

/-- The merge evidence of an operation. -/
def Journal.evidenceOf (j : Journal) (operationId : String) : List TrunkEvent :=
  j.events.filter (fun event => event.isEvidence && event.operationId == some operationId)

/-- The number of evidence events an operation has. -/
def TrunkOperation.evidenceCount (o : TrunkOperation) : ℕ := if o.phase = .published then 1 else 0

/-- Operations are distinct, each published one has its one evidence and its work item settled, and
evidence names operations of the journal only. -/
structure TrunkSound (j : Journal) : Prop where
  operations : (j.operations.map TrunkOperation.operationId).Nodup
  workItems : (j.db.workItems.map WorkItem.id).Nodup
  evidence : ∀ o ∈ j.operations, (j.evidenceOf o.operationId).length = o.evidenceCount
  owned : ∀ event ∈ j.events, event.isEvidence = true → ∀ id, event.operationId = some id →
    ∃ o ∈ j.operations, o.operationId = id
  settled : ∀ o ∈ j.operations, o.purpose = .final → o.phase = .published →
    IsMergedComplete o.workItemId j.db

/-- What a call keeps of a row: its name, and all of it once it has ended. -/
structure EndsKept (o o' : TrunkOperation) : Prop where
  operationId : o'.operationId = o.operationId
  ended : o.HasEnded → o' = o

theorem EndsKept.refl (o : TrunkOperation) : EndsKept o o := ⟨rfl, fun _ => rfl⟩

theorem EndsKept.trans {a b c : TrunkOperation} (h : EndsKept a b) (h' : EndsKept b c) :
    EndsKept a c := by
  refine ⟨h'.operationId.trans h.operationId, fun hended => ?_⟩
  obtain rfl := h.ended hended
  exact h'.ended hended

section Update

variable {j : Journal} {o : TrunkOperation} {f : TrunkOperation → TrunkOperation}

/-- The row a write selects is the one that was read. -/
theorem eq_of_selected (hids : (j.operations.map TrunkOperation.operationId).Nodup)
    (hrow : j.selectOperation o.operationId = some o) {r : TrunkOperation}
    (hr : r ∈ j.operations)
    (h : (r.operationId == o.operationId && r.version == o.version) = true) : r = o := by
  rw [Bool.and_eq_true, beq_iff_eq] at h
  exact Table.eq_of_key_eq hids hr (Table.lookup_mem hrow) h.1

/-- A row after the write is the written one or an old one of another name. -/
theorem mem_updateOperation (hids : (j.operations.map TrunkOperation.operationId).Nodup)
    (hrow : j.selectOperation o.operationId = some o) {r : TrunkOperation}
    (hr : r ∈ (j.updateOperation o f).1.operations) :
    r = { f o with version := o.version + 1 } ∨
      (r ∈ j.operations ∧ r.operationId ≠ o.operationId) := by
  rcases Table.mem_updateWhere_cases hr with ⟨hmem, hnot⟩ | ⟨r₀, hr₀, hp, rfl⟩
  · refine Or.inr ⟨hmem, fun hsame => ?_⟩
    obtain rfl := Table.eq_of_key_eq hids hmem (Table.lookup_mem hrow) hsame
    simp at hnot
  · obtain rfl := eq_of_selected hids hrow hr₀ hp
    exact Or.inl rfl

theorem endsKept_updateOperation (hids : (j.operations.map TrunkOperation.operationId).Nodup)
    (hrow : j.selectOperation o.operationId = some o) (hlive : ¬o.HasEnded)
    (hsame : NamesSame f) :
    List.Forall₂ EndsKept j.operations (j.updateOperation o f).1.operations := by
  refine Table.forall₂_updateWhere EndsKept.refl fun r hr hp => ?_
  obtain rfl := eq_of_selected hids hrow hr hp
  exact ⟨(hsame r).1, fun hended => absurd hended hlive⟩

theorem ids_updateOperation (hsame : NamesSame f) :
    (j.updateOperation o f).1.operations.map TrunkOperation.operationId =
      j.operations.map TrunkOperation.operationId :=
  Table.map_key_updateWhere fun r _ => (hsame r).1

end Update

/-- Evidence does not count events of another kind. -/
theorem evidenceOf_append (j : Journal) (operations : List TrunkOperation) (db : Db)
    (logged : List TrunkEvent) (operationId : String) :
    Journal.evidenceOf { db := db, operations := operations, events := j.events ++ logged }
      operationId = j.evidenceOf operationId ++ logged.filter (fun event =>
        event.isEvidence && event.operationId == some operationId) :=
  List.filter_append _ _

theorem live_of_publishable {o : TrunkOperation} (h : o.phase ∈ publishablePhases) :
    ¬o.HasEnded := by
  rintro (hended | hended)
  · rw [hended] at h
    exact absurd h (by decide)
  · rw [hended] at h
    exact absurd h (by decide)

/-- A row that is not published has no evidence. -/
theorem TrunkOperation.evidenceCount_of_live {o : TrunkOperation} (h : ¬o.HasEnded) :
    o.evidenceCount = 0 := if_neg fun hpublished => h (Or.inl hpublished)

/-- What a settlement that succeeded keeps, and brings. -/
theorem finalizeApprovedWorkItemMerge_spec {env : WorkItemEnv} {clock : Clock} {db db' : Db}
    {workItemId : ℕ} (hids : (db.workItems.map WorkItem.id).Nodup)
    (h : finalizeApprovedWorkItemMerge env clock db workItemId = (db', true)) :
    IsMergedComplete workItemId db' ∧ (db'.workItems.map WorkItem.id).Nodup ∧
      ∀ other, IsMergedComplete other db → IsMergedComplete other db' := by
  unfold finalizeApprovedWorkItemMerge at h
  cases hwi : db.getWorkItem workItemId with
  | none =>
    rw [hwi] at h
    cases h
  | some wi =>
    rw [hwi] at h
    dsimp only at h
    obtain ⟨rfl, hok⟩ := Prod.mk.inj h
    have hmerged := keeps_setMergeState_merged env clock db workItemId
    have hids' : ((setMergeState env clock db workItemId (some .merged)).workItems.map
        WorkItem.id).Nodup := by
      rw [hmerged.ids rowRelation_holds]
      exact hids
    have hcompleted := hmerged.trans rowRelation_holds
      (keeps_updateWorkItemStatus env clock hids' workItemId .complete
        { allowTerminalFailureBlockers := true, resolvePendingReviews := true })
    refine ⟨?_, ?_, ?_⟩
    · rw [Bool.and_eq_true] at hok
      obtain ⟨row, hrow, hstate⟩ := (Option.any_eq_true _ _).mp hok.2
      rw [Bool.and_eq_true, beq_iff_eq, beq_iff_eq] at hstate
      exact ⟨row, hrow, hstate.1, hstate.2⟩
    · rw [hcompleted.ids rowRelation_holds]
      exact hids
    · rintro other ⟨row, hrow, hstate, hstatus⟩
      obtain ⟨row', hrow', hholds⟩ :=
        Table.lookup_forall₂ rowRelation_holds.id hcompleted.workItems hrow
      obtain ⟨hstate', hstatus'⟩ := hholds.merge.merged hstate
      exact ⟨row', hrow', hstate', hstatus' hstatus⟩

/-- Events that are no evidence change no evidence. -/
theorem evidenceOf_moved (j : Journal) (operations : List TrunkOperation) (db : Db)
    {logged : List TrunkEvent}
    (hlogged : ∀ e ∈ logged, e.eventType = .sharedTrunkOperationAbandoned) (operationId : String) :
    Journal.evidenceOf { db := db, operations := operations, events := j.events ++ logged }
      operationId = j.evidenceOf operationId := by
  have hnone : logged.filter (fun event =>
      event.isEvidence && event.operationId == some operationId) = [] := by
    rw [List.filter_eq_nil_iff]
    intro e he
    simp [TrunkEvent.isEvidence, hlogged e he]
  rw [evidenceOf_append, hnone, List.append_nil]

theorem TrunkEvent.isEvidence_of {event : TrunkEvent} {o : TrunkOperation}
    (h : event.eventType = o.evidenceType) : event.isEvidence = true := by
  unfold TrunkEvent.isEvidence
  rw [h, TrunkOperation.evidenceType]
  cases o.purpose <;> rfl

/-- The evidence of a publication is that of the operation, and of no other. -/
theorem length_evidenceOf_published (j : Journal) (operations : List TrunkOperation) (db : Db)
    {event : TrunkEvent} {o : TrunkOperation} (hid : event.operationId = some o.operationId)
    (htype : event.eventType = o.evidenceType) (operationId : String) :
    (Journal.evidenceOf { db := db, operations := operations, events := j.events ++ [event] }
      operationId).length = (j.evidenceOf operationId).length +
        if operationId = o.operationId then 1 else 0 := by
  rw [evidenceOf_append, List.length_append, List.filter_singleton,
    TrunkEvent.isEvidence_of htype, hid]
  by_cases hsame : operationId = o.operationId
  · simp [hsame]
  · have hother : (o.operationId == operationId) = false := by simpa using Ne.symm hsame
    simp [hsame, hother]

/-- **A call keeps the invariant, and every row that has ended.** -/
theorem TrunkSound.step {j j' : Journal} (h : TrunkSound j) (hstep : JournalStep j j') :
    TrunkSound j' ∧ ∀ o ∈ j.operations, ∃ o' ∈ j'.operations, EndsKept o o' := by
  cases hstep with
  | keep => exact ⟨h, fun o ho => ⟨o, ho, EndsKept.refl o⟩⟩
  | begun row hphase hnew =>
    have hfresh : ∀ o ∈ j.operations, o.operationId ≠ row.operationId :=
      Table.lookup_eq_none_iff.mp hnew
    have hnone : j.evidenceOf row.operationId = [] := by
      refine List.filter_eq_nil_iff.mpr fun event hevent hown => ?_
      rw [Bool.and_eq_true, beq_iff_eq] at hown
      obtain ⟨o, ho, hid⟩ := h.owned event hevent hown.1 row.operationId hown.2
      exact hfresh o ho hid
    refine ⟨⟨?_, h.workItems, fun o ho => ?_, fun event hevent howned id hid => ?_,
      fun o ho hfinal hpublished => ?_⟩,
      fun o ho => ⟨o, List.mem_append_left _ ho, EndsKept.refl o⟩⟩
    · rw [List.map_append, List.nodup_append]
      refine ⟨h.operations, List.nodup_singleton _, ?_⟩
      rintro a ha b hb rfl
      obtain ⟨o, ho, rfl⟩ := List.mem_map.mp ha
      exact hfresh o ho (by simpa using hb)
    · rcases List.mem_append.mp ho with hold | hmem
      · exact h.evidence o hold
      · obtain rfl := List.mem_singleton.mp hmem
        have hcount : o.evidenceCount = 0 := if_neg (by simp [hphase])
        rw [hcount]
        exact congrArg List.length hnone
    · obtain ⟨o, ho, hsame⟩ := h.owned event hevent howned id hid
      exact ⟨o, List.mem_append_left _ ho, hsame⟩
    · rcases List.mem_append.mp ho with hold | hmem
      · exact h.settled o hold hfinal hpublished
      · obtain rfl := List.mem_singleton.mp hmem
        rw [hphase] at hpublished
        cases hpublished
  | moved o f logged hrow hlive hsame hphase hlogged =>
    have hrows := endsKept_updateOperation h.operations hrow hlive hsame
    have hcount : ({ f o with version := o.version + 1 } : TrunkOperation).evidenceCount = 0 :=
      if_neg hphase
    refine ⟨⟨?_, h.workItems, fun r hr => ?_, fun event hevent howned id hid => ?_,
      fun r hr hfinal hpublished => ?_⟩, fun r hr => Table.exists_of_mem_forall₂' hrows hr⟩
    · exact (ids_updateOperation hsame).symm ▸ h.operations
    · rw [evidenceOf_moved j _ _ hlogged]
      rcases mem_updateOperation h.operations hrow hr with rfl | ⟨hold, -⟩
      · rw [hcount, (hsame o).1, h.evidence o (Table.lookup_mem hrow), o.evidenceCount_of_live hlive]
      · exact h.evidence r hold
    · rcases List.mem_append.mp hevent with hold | hnew
      · obtain ⟨r, hr, hkey⟩ := h.owned event hold howned id hid
        obtain ⟨r', hr', hkept⟩ := Table.exists_of_mem_forall₂' hrows hr
        exact ⟨r', hr', hkept.operationId.trans hkey⟩
      · simp [TrunkEvent.isEvidence, hlogged event hnew] at howned
    · rcases mem_updateOperation h.operations hrow hr with rfl | ⟨hold, -⟩
      · exact absurd hpublished hphase
      · exact h.settled r hold hfinal hpublished
  | published o f event db hrow hpublishable hcandidate hsame hphase hkept hevent hsettled =>
    have hlive := live_of_publishable hpublishable
    have hrows := endsKept_updateOperation h.operations hrow hlive hsame
    have hcount : ({ f o with version := o.version + 1 } : TrunkOperation).evidenceCount = 1 :=
      if_pos hphase
    have hdb : (db.workItems.map WorkItem.id).Nodup ∧
        (o.purpose = .final → IsMergedComplete o.workItemId db) ∧
        ∀ other, IsMergedComplete other j.db → IsMergedComplete other db := by
      rcases hsettled with ⟨hiterative, rfl⟩ | ⟨-, env, clock, hfinalize⟩
      · exact ⟨h.workItems, fun hfinal => by simp [hfinal] at hiterative, fun _ => id⟩
      · obtain ⟨hmerged, hids, hothers⟩ := finalizeApprovedWorkItemMerge_spec h.workItems hfinalize
        exact ⟨hids, fun _ => hmerged, hothers⟩
    refine ⟨⟨?_, hdb.1, fun r hr => ?_, fun e he howned id hid => ?_,
      fun r hr hfinal hpublished => ?_⟩, fun r hr => Table.exists_of_mem_forall₂' hrows hr⟩
    · exact (ids_updateOperation hsame).symm ▸ h.operations
    · rw [length_evidenceOf_published j _ _ hevent.1 hevent.2]
      rcases mem_updateOperation h.operations hrow hr with rfl | ⟨hold, hother⟩
      · rw [hcount, (hsame o).1, h.evidence o (Table.lookup_mem hrow),
          o.evidenceCount_of_live hlive, if_pos rfl]
      · rw [if_neg hother, Nat.add_zero]
        exact h.evidence r hold
    · rcases List.mem_append.mp he with hold | hnew
      · obtain ⟨r, hr, hkey⟩ := h.owned e hold howned id hid
        obtain ⟨r', hr', hkept⟩ := Table.exists_of_mem_forall₂' hrows hr
        exact ⟨r', hr', hkept.operationId.trans hkey⟩
      · obtain rfl := List.mem_singleton.mp hnew
        obtain ⟨r', hr', hkept⟩ := Table.exists_of_mem_forall₂' hrows (Table.lookup_mem hrow)
        exact ⟨r', hr', hkept.operationId.trans (Option.some.inj (hevent.1.symm.trans hid))⟩
    · rcases mem_updateOperation h.operations hrow hr with rfl | ⟨hold, -⟩
      · rw [(hsame o).2.1]
        exact hdb.2.1 ((hsame o).2.2 ▸ hfinal)
      · exact hdb.2.2 _ (h.settled r hold hfinal hpublished)

/-! ## 4. Any order -/

theorem TrunkSound.trunkStep {j : Journal} (h : TrunkSound j) (op : TrunkOp) (hop : op.Spares j) :
    TrunkSound (trunkStep j op) :=
  (h.step (journalStep_trunkStep j op hop)).1

/-- A row that has ended is read as it was, after any sparing run. -/
theorem selectOperation_run {j : Journal} (h : TrunkSound j) {ops : List TrunkOp}
    (hspares : Runs.Meets PosseClient.trunkStep (fun j op => op.Spares j) j ops)
    {o : TrunkOperation} (ho : o ∈ j.operations) (hended : o.HasEnded) :
    (Runs.run PosseClient.trunkStep j ops).selectOperation o.operationId = some o := by
  have hsound : TrunkSound (Runs.run PosseClient.trunkStep j ops) :=
    Runs.run_invariant (fun _ op hj hop => hj.trunkStep op hop) h hspares
  have hkept := Runs.run_rel (R := fun a b : Journal =>
      ∀ o ∈ a.operations, ∃ o' ∈ b.operations, EndsKept o o')
    (fun a o ho => ⟨o, ho, EndsKept.refl o⟩)
    (fun a b c hab hbc o ho => by
      obtain ⟨o', ho', hk⟩ := hab o ho
      obtain ⟨o'', ho'', hk'⟩ := hbc o' ho'
      exact ⟨o'', ho'', hk.trans hk'⟩)
    (fun _ op hj hop => hj.trunkStep op hop)
    (fun a op hj hop => (hj.step (journalStep_trunkStep a op hop)).2) h hspares
  obtain ⟨o', ho', hk⟩ := hkept o ho
  obtain rfl := hk.ended hended
  exact Table.lookup_of_mem hsound.operations ho'

/-- A row becomes published from a publishable one with its candidate. -/
theorem published_cases {j j' : Journal} (h : TrunkSound j) (hstep : JournalStep j j')
    {o' : TrunkOperation} (ho' : o' ∈ j'.operations) (hpublished : o'.phase = .published) :
    o' ∈ j.operations ∨ ∃ o ∈ j.operations, o.operationId = o'.operationId ∧
      o.phase ∈ publishablePhases ∧ o.candidateSha.isSome ∧ o'.candidateSha = o.candidateSha := by
  cases hstep with
  | keep => exact Or.inl ho'
  | begun row hphase hnew =>
    rcases List.mem_append.mp ho' with hold | hmem
    · exact Or.inl hold
    · obtain rfl := List.mem_singleton.mp hmem
      rw [hphase] at hpublished
      cases hpublished
  | moved o f logged hrow hlive hsame hphase hlogged =>
    rcases mem_updateOperation h.operations hrow ho' with rfl | ⟨hold, -⟩
    · exact absurd hpublished hphase
    · exact Or.inl hold
  | published o f event db hrow hpublishable hcandidate hsame hphase hkept hevent hsettled =>
    rcases mem_updateOperation h.operations hrow ho' with rfl | ⟨hold, -⟩
    · exact Or.inr ⟨o, Table.lookup_mem hrow, (hsame o).1.symm, hpublishable, hcandidate, hkept⟩
    · exact Or.inl hold

/-- The queue changes only with the publication of a final operation. -/
theorem db_cases {j j' : Journal} (h : TrunkSound j) (hstep : JournalStep j j') :
    j'.db = j.db ∨ ∃ o ∈ j'.operations, o.purpose = .final ∧ o.phase = .published ∧
      o ∉ j.operations ∧ IsMergedComplete o.workItemId j'.db := by
  cases hstep with
  | keep => exact Or.inl rfl
  | begun row hphase hnew => exact Or.inl rfl
  | moved o f logged hrow hlive hsame hphase hlogged => exact Or.inl rfl
  | published o f event db hrow hpublishable hcandidate hsame hphase hkept hevent hsettled =>
    rcases hsettled with ⟨-, rfl⟩ | ⟨hfinal, env, clock, hfinalize⟩
    · exact Or.inl rfl
    · refine Or.inr ⟨{ f o with version := o.version + 1 }, ?_, (hsame o).2.2.trans hfinal, hphase,
        fun hmem => ?_, ?_⟩
      · exact Table.mem_updateWhere_of (Table.lookup_mem hrow) (by simp)
      · have hsame' : ({ f o with version := o.version + 1 } : TrunkOperation) = o :=
          Table.eq_of_key_eq h.operations hmem (Table.lookup_mem hrow) (hsame o).1
        have hversion := congrArg TrunkOperation.version hsame'
        dsimp only at hversion
        omega
      · exact (hsame o).2.1.symm ▸ (finalizeApprovedWorkItemMerge_spec h.workItems hfinalize).1

/-- **Shared-trunk publication is final.**  In every run whose calls move no published operation
and take no stray evidence: a published or abandoned row never changes again; each published
operation has one evidence event and every other none; the work item of a published final operation
is settled.  One more such call publishes only what is publishable with its candidate, and changes
the queue only where it publishes a final operation and settles its work item. -/
theorem trunk_publication_final {db : Db} {events : List TrunkEvent}
    (hids : (db.workItems.map WorkItem.id).Nodup) (hevents : ∀ e ∈ events, e.operationId = none)
    (earlier later : List TrunkOp)
    (hspares : Runs.Meets trunkStep (fun j op => op.Spares j) { db := db, events := events }
      (earlier ++ later)) :
    let middle := Runs.run trunkStep { db := db, events := events } earlier
    let reached := Runs.run trunkStep { db := db, events := events } (earlier ++ later)
    (∀ o ∈ middle.operations, o.phase = .published ∨ o.phase = .abandoned →
      reached.selectOperation o.operationId = some o) ∧
    (∀ o ∈ reached.operations, (reached.evidenceOf o.operationId).length =
      if o.phase = .published then 1 else 0) ∧
    (∀ o ∈ reached.operations, o.purpose = .final → o.phase = .published →
      ∃ wi, reached.db.getWorkItem o.workItemId = some wi ∧ wi.mergeState = some .merged ∧
        wi.status = .complete) ∧
    ∀ op : TrunkOp, op.Spares reached →
      (∀ o' ∈ (trunkStep reached op).operations, o'.phase = .published →
        o' ∈ reached.operations ∨ ∃ o ∈ reached.operations, o.operationId = o'.operationId ∧
          (o.phase = .candidate ∨ o.phase = .publishUnknown) ∧ o.candidateSha.isSome ∧
          o'.candidateSha = o.candidateSha) ∧
      ((trunkStep reached op).db = reached.db ∨ ∃ o' ∈ (trunkStep reached op).operations,
        o'.purpose = .final ∧ o'.phase = .published ∧ o' ∉ reached.operations ∧
        ∃ wi, (trunkStep reached op).db.getWorkItem o'.workItemId = some wi ∧
          wi.mergeState = some .merged ∧ wi.status = .complete) := by
  intro middle reached
  have hstart : TrunkSound { db := db, events := events } := by
    refine ⟨List.nodup_nil, hids, by simp, fun event hevent _ id hid => ?_, by simp⟩
    rw [hevents event hevent] at hid
    cases hid
  have hstep : ∀ j op, TrunkSound j → op.Spares j → TrunkSound (trunkStep j op) :=
    fun _ op hj hop => hj.trunkStep op hop
  obtain ⟨hearlier, hlater⟩ := Runs.meets_append.mp hspares
  have hmiddle : TrunkSound middle := Runs.run_invariant hstep hstart hearlier
  have hreached : TrunkSound reached := Runs.run_invariant hstep hstart hspares
  refine ⟨fun o ho hended => ?_, hreached.evidence, hreached.settled, fun op hop => ?_⟩
  · have hrow := selectOperation_run hmiddle hlater ho hended
    rwa [← Runs.run_append] at hrow
  · have hjournal := journalStep_trunkStep reached op hop
    refine ⟨fun o' ho' hpublished => ?_, db_cases hreached hjournal⟩
    refine (published_cases hreached hjournal ho' hpublished).imp id ?_
    rintro ⟨o, ho, hid, hphase, hcandidate⟩
    exact ⟨o, ho, hid, by simpa [publishablePhases] using hphase, hcandidate⟩

/-- Work item 1, complete and on a branch. -/
def trunkDemoDb : Db :=
  { workItems := [{ id := 1, status := .complete, branchName := some "wi-1" }] }

/-- An operation for its branch is begun, gets a candidate and is published. -/
def trunkDemoPublication : List TrunkOp :=
  [.beginSharedTrunkMergeOperation
      { operationId := "op", workItemId := 1, sourceBranch := "wi-1", sourceSha := "s",
        targetBranch := "main", remote := "origin", baseSha := "b", expectedRemoteSha := "b" },
    .transitionSharedTrunkMergeOperation "op"
      { expectedVersion := 1, phase := "candidate", candidateSha := some (some "c") },
    .finalizePublishedSharedTrunkMergeOperation {} { now := 0, leaseNow := 0, grace := 60 } "op" 2
      none false]

/-- A stale transition and a second finalization find the publication as it was. -/
theorem trunk_publication_final_stale :
    let later := [TrunkOp.transitionSharedTrunkMergeOperation "op"
        { expectedVersion := 2, phase := "deferred" },
      .finalizePublishedSharedTrunkMergeOperation {} { now := 0, leaseNow := 0, grace := 60 } "op"
        3 none true]
    ∀ o ∈ (Runs.run trunkStep { db := trunkDemoDb } trunkDemoPublication).operations,
      (Runs.run trunkStep { db := trunkDemoDb }
        (trunkDemoPublication ++ later)).selectOperation o.operationId = some o := by
  intro later o ho
  have hphase : ∀ o ∈ (Runs.run trunkStep { db := trunkDemoDb }
      trunkDemoPublication).operations, o.phase = .published := by
    decide +kernel
  have hids : (trunkDemoDb.workItems.map WorkItem.id).Nodup := by decide
  have hfinal := @trunk_publication_final trunkDemoDb [] hids (by simp) trunkDemoPublication
    later (by decide +kernel)
  exact hfinal.1 o ho (Or.inl (hphase o ho))

/-- **A caller that knows the version moves a published operation back**: it gets another
candidate. -/
theorem trunk_publication_moved_back :
    let later := [TrunkOp.transitionSharedTrunkMergeOperation "op"
      { expectedVersion := 3, phase := "candidate", candidateSha := some (some "d") }]
    ¬∀ o ∈ (Runs.run trunkStep { db := trunkDemoDb } trunkDemoPublication).operations,
      o.phase = .published →
      ∀ o' ∈ (Runs.run trunkStep { db := trunkDemoDb } (trunkDemoPublication ++ later)).operations,
        o'.operationId = o.operationId →
          o'.phase = .published ∧ o'.candidateSha = o.candidateSha := by
  decide +kernel

end PosseClient
