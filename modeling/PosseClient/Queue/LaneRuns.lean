/-
# Any order of calls on the waiting lanes

`LaneOp` is a call of the module with everything its caller chooses, stale versions and foreign job
ids included; `LaneBook` is the table together with the generations that calls have settled.

* `waiting_lane_proofs_truthful` holds after every sequence of calls: ready and active rows are
  prepared at the generation they desire, Atlas coordinates stand with the Git oid they were
  settled for, an end is final, and of two callers with one expected version one is refused.
-/
import PosseClient.Lib.Runs
import PosseClient.Queue.LaneProofs

namespace PosseClient

/-! ## 1. Calls -/

/-- A call.  `db` is the queue as the call reads it. -/
inductive LaneOp
  | ensureWaitingLanePreparation (request : LaneRequest)
  | claimWaitingLaneGitPreparation (db : Db) (workItemId : ℕ) (expectedVersion : Option ℤ)
      (gitJobId : ℕ)
  | recordWaitingLaneGitPrepared (db : Db) (workItemId : ℕ) (expectedVersion : Option ℤ)
      (prepared : GitPrepared)
  | settleWaitingLaneAtlas (workItemId : ℕ) (expectedVersion : Option ℤ) (atlasJobId : Option ℕ)
      (actualGeneration : Option RawGeneration) (result : AtlasResult)
  | advanceWaitingLaneDesiredGeneration (generation : RawGeneration)
  | claimWaitingLaneActivation (workItemId : ℕ)
  | claimWaitingLanePlanning (workItemId : ℕ)
  | retireWaitingLanePlanning (db : Db) (workItemId : ℕ) (reason : Option String)
      (consumerJobId : Option ℕ)
  | markWaitingLaneActive (workItemId : ℕ) (expectedVersion : Option ℤ)
      (actualGeneration : Option RawGeneration)
  | retireWaitingLanePreparation (workItemId : ℕ) (expectedVersion : Option ℤ)
      (reason : Option String)
  | poisonWaitingLanePreparation (workItemId : ℕ) (expectedVersion : Option ℤ)
      (reason : Option String)
  | clearWaitingLanePreparedAssetProof (workItemId : ℕ) (expectedVersion : Option ℤ)
  | storeWaitingLaneHotPaths (workItemId : ℕ) (hotPaths : List String)

/-- A call that answers with one row. -/
def answered (out : Lanes × LaneResult) : Lanes × Option LaneResult := (out.1, some out.2)

/-- The table after a call, and its answer; an advance answers with a list of rows, which is left
out. -/
def LaneOp.apply (op : LaneOp) (lanes : Lanes) : Lanes × Option LaneResult :=
  match op with
  | .ensureWaitingLanePreparation request =>
    answered (PosseClient.ensureWaitingLanePreparation lanes request)
  | .claimWaitingLaneGitPreparation db workItemId version gitJobId =>
    answered (PosseClient.claimWaitingLaneGitPreparation db lanes workItemId version gitJobId)
  | .recordWaitingLaneGitPrepared db workItemId version prepared =>
    answered (PosseClient.recordWaitingLaneGitPrepared db lanes workItemId version prepared)
  | .settleWaitingLaneAtlas workItemId version atlasJobId actual result =>
    answered (PosseClient.settleWaitingLaneAtlas lanes workItemId version atlasJobId actual result)
  | .advanceWaitingLaneDesiredGeneration generation =>
    (PosseClient.advanceWaitingLaneDesiredGeneration lanes generation, none)
  | .claimWaitingLaneActivation workItemId =>
    answered (PosseClient.claimWaitingLaneActivation lanes workItemId)
  | .claimWaitingLanePlanning workItemId =>
    answered (PosseClient.claimWaitingLanePlanning lanes workItemId)
  | .retireWaitingLanePlanning db workItemId reason consumerJobId =>
    answered (PosseClient.retireWaitingLanePlanning db lanes workItemId reason consumerJobId)
  | .markWaitingLaneActive workItemId version actual =>
    answered (PosseClient.markWaitingLaneActive lanes workItemId version actual)
  | .retireWaitingLanePreparation workItemId version reason =>
    answered (PosseClient.retireWaitingLanePreparation lanes workItemId version reason)
  | .poisonWaitingLanePreparation workItemId version reason =>
    answered (PosseClient.poisonWaitingLanePreparation lanes workItemId version reason)
  | .clearWaitingLanePreparedAssetProof workItemId version =>
    answered (PosseClient.clearWaitingLanePreparedAssetProof lanes workItemId version)
  | .storeWaitingLaneHotPaths workItemId hotPaths =>
    answered (PosseClient.storeWaitingLaneHotPaths lanes workItemId hotPaths)

/-- The work item whose row a call compares and swaps, and the version it expects. -/
def LaneOp.compares : LaneOp → Option (ℕ × Option ℤ)
  | .ensureWaitingLanePreparation _ => none
  | .claimWaitingLaneGitPreparation _ workItemId version _ => some (workItemId, version)
  | .recordWaitingLaneGitPrepared _ workItemId version _ => some (workItemId, version)
  | .settleWaitingLaneAtlas workItemId version _ _ _ => some (workItemId, version)
  | .advanceWaitingLaneDesiredGeneration _ => none
  | .claimWaitingLaneActivation workItemId => some (workItemId, none)
  | .claimWaitingLanePlanning workItemId => some (workItemId, none)
  | .retireWaitingLanePlanning _ workItemId _ _ => some (workItemId, none)
  | .markWaitingLaneActive workItemId version _ => some (workItemId, version)
  | .retireWaitingLanePreparation workItemId version _ => some (workItemId, version)
  | .poisonWaitingLanePreparation workItemId version _ => some (workItemId, version)
  | .clearWaitingLanePreparedAssetProof workItemId version => some (workItemId, version)
  | .storeWaitingLaneHotPaths workItemId _ => some (workItemId, none)

/-- The generation a settlement or an activation brings, and the state it gives the row if it
accepts it. -/
def LaneOp.brings : LaneOp → Option (ℕ × Generation × LaneState)
  | .settleWaitingLaneAtlas workItemId _ _ actual _ =>
    (actual.bind normalizeWaitingLaneGeneration).map (workItemId, ·, .ready)
  | .markWaitingLaneActive workItemId _ actual =>
    (actual.bind normalizeWaitingLaneGeneration).map (workItemId, ·, .active)
  | _ => none

/-- The generations a call has settled: it changed the row, and the row is now in the state of an
accepted one. -/
def LaneOp.settles (op : LaneOp) (before after : Lanes) : List (ℕ × Generation) :=
  match op.brings with
  | none => []
  | some (workItemId, generation, state) =>
    if selectPreparation after workItemId ≠ selectPreparation before workItemId ∧
        (selectPreparation after workItemId).any (fun row => row.state == state) then
      [(workItemId, generation)]
    else []

/-- The table, and the ledger of the settled generations. -/
structure LaneBook where
  lanes : Lanes := []
  settled : List (ℕ × Generation) := []

/-- A call on the table. -/
def laneStep (book : LaneBook) (op : LaneOp) : LaneBook :=
  { lanes := (op.apply book.lanes).1
    settled := book.settled ++ op.settles book.lanes (op.apply book.lanes).1 }

/-! ## 2. One call -/

section Call

variable {lanes : Lanes} {op : LaneOp}

/-- What an accepted settlement leaves in the ledger. -/
theorem mem_settles_cas {row : Preparation} {f : Preparation → Preparation} {outcome : LaneOutcome}
    {g : Generation} {state : LaneState}
    (hnd : (lanes.map Preparation.workItemId).Nodup)
    (hrow : selectPreparation lanes row.workItemId = some row)
    (hbrings : op.brings = some (row.workItemId, g, state))
    (hid : (f row).workItemId = row.workItemId)
    (hstate : (f row).state = state)
    (hout : (op.apply lanes).1 = (updatePreparationCas lanes row f outcome).1) :
    (row.workItemId, g) ∈ op.settles lanes (op.apply lanes).1 := by
  have hafter : selectPreparation (op.apply lanes).1 row.workItemId =
      some { f row with version := row.version + 1 } := by
    rw [hout]
    exact select_cas hnd (Table.lookup_mem hrow) hid
  have hchanged : (some { f row with version := row.version + 1 } : Option Preparation) ≠
      some row := by
    intro h
    have hversion := congrArg Preparation.version (Option.some.inj h)
    dsimp only at hversion
    omega
  unfold LaneOp.settles
  rw [hbrings]
  dsimp only
  rw [hafter, hrow, if_pos ⟨hchanged, by simp [hstate]⟩]
  exact List.mem_singleton.mpr rfl

theorem Truthful.after {book : LaneBook} {row : Preparation} (op : LaneOp)
    (h : Truthful book.settled row) : Truthful (laneStep book op).settled row :=
  h.mono (List.subset_append_left _ _)

/-- A call on one row is one compare-and-swap. -/
theorem laneWrite_laneStep (book : LaneBook) (op : LaneOp)
    (hnd : (book.lanes.map Preparation.workItemId).Nodup)
    (htrue : ∀ row ∈ book.lanes, Truthful book.settled row) {workItemId : ℕ}
    {expected : Option ℤ} (hop : op.compares = some (workItemId, expected)) :
    LaneWrite (laneStep book op).settled book.lanes workItemId expected
      (laneStep book op).lanes := by
  cases op with
  | ensureWaitingLanePreparation request => cases hop
  | advanceWaitingLaneDesiredGeneration generation => cases hop
  | claimWaitingLaneGitPreparation db id version gitJobId =>
    obtain ⟨rfl, rfl⟩ := Prod.mk.inj (Option.some.inj hop)
    exact laneWrite_claimGit db _ _ _ gitJobId
  | recordWaitingLaneGitPrepared db id version prepared =>
    obtain ⟨rfl, rfl⟩ := Prod.mk.inj (Option.some.inj hop)
    exact laneWrite_recordGit db _ _ _ prepared
  | claimWaitingLaneActivation id =>
    obtain ⟨rfl, rfl⟩ := Prod.mk.inj (Option.some.inj hop)
    exact laneWrite_claimActivation _ _
  | claimWaitingLanePlanning id =>
    obtain ⟨rfl, rfl⟩ := Prod.mk.inj (Option.some.inj hop)
    exact laneWrite_claimPlanning _ _
  | retireWaitingLanePlanning db id reason consumerJobId =>
    obtain ⟨rfl, rfl⟩ := Prod.mk.inj (Option.some.inj hop)
    exact laneWrite_retirePlanning db _ _ reason consumerJobId
  | retireWaitingLanePreparation id version reason =>
    obtain ⟨rfl, rfl⟩ := Prod.mk.inj (Option.some.inj hop)
    exact laneWrite_retire _ _ _ reason
  | poisonWaitingLanePreparation id version reason =>
    obtain ⟨rfl, rfl⟩ := Prod.mk.inj (Option.some.inj hop)
    exact laneWrite_poison _ _ _ reason
  | clearWaitingLanePreparedAssetProof id version =>
    obtain ⟨rfl, rfl⟩ := Prod.mk.inj (Option.some.inj hop)
    exact laneWrite_clear _ _ _
  | storeWaitingLaneHotPaths id hotPaths =>
    obtain ⟨rfl, rfl⟩ := Prod.mk.inj (Option.some.inj hop)
    exact laneWrite_storeHotPaths _ _ hotPaths
  | settleWaitingLaneAtlas id version atlasJobId actual result =>
    obtain ⟨rfl, rfl⟩ := Prod.mk.inj (Option.some.inj hop)
    refine laneWrite_settle _ _ _ atlasJobId actual result ?_
    intro row g hrow hwaiting hg hready hout
    obtain rfl : row.workItemId = id := Table.lookup_key hrow
    refine List.mem_append_right _ (mem_settles_cas hnd hrow ?_ ?_ hready hout)
    · simp [LaneOp.brings, hg]
    · have hturns : Turns [(row.workItemId, g)] row
          (row.settleAtlas (actual.bind normalizeWaitingLaneGeneration) result) :=
        turns_settleAtlas hwaiting fun g' hg' _ => by
          obtain rfl := Option.some.inj (hg.symm.trans hg')
          exact List.mem_singleton.mpr rfl
      exact hturns.workItemId
  | markWaitingLaneActive id version actual =>
    obtain ⟨rfl, rfl⟩ := Prod.mk.inj (Option.some.inj hop)
    refine laneWrite_markActive _ _ _ actual (fun row hrow => (htrue row hrow).after _) ?_
    rintro row value g hrow - rfl hg hout
    obtain rfl : row.workItemId = id := Table.lookup_key hrow
    refine List.mem_append_right _ (mem_settles_cas hnd hrow ?_ rfl rfl hout)
    simp [LaneOp.brings, hg]

/-- **One call.**  It keeps what the rows prove, with the ledger it leaves. -/
theorem laneStep_step (book : LaneBook) (op : LaneOp)
    (hnd : (book.lanes.map Preparation.workItemId).Nodup)
    (htrue : ∀ row ∈ book.lanes, Truthful book.settled row) :
    LaneStep (laneStep book op).settled book.lanes (laneStep book op).lanes := by
  cases hop : op.compares with
  | some target => exact (laneWrite_laneStep book op hnd htrue hop).laneStep hnd
  | none =>
    cases op with
    | ensureWaitingLanePreparation request => exact laneStep_ensure hnd request
    | advanceWaitingLaneDesiredGeneration generation => exact laneStep_advance hnd generation
    | _ => cases hop

/-- A version that is not the row's is refused, and nothing changes. -/
theorem apply_of_stale {workItemId : ℕ} {version : ℤ} {row : Preparation}
    (hop : op.compares = some (workItemId, some version))
    (hrow : selectPreparation lanes workItemId = some row)
    (hstale : normalizeExpectedVersion (some version) ≠ some row.version) :
    op.apply lanes = (lanes, some ⟨.versionConflict, none⟩) := by
  have hcas : casRow lanes workItemId (some version) = none := by
    rw [casRow, hrow, Option.filter_some, if_neg]
    simpa using hstale
  have hrefused : versionRefused (some version) row = true := by
    simpa [versionRefused] using hstale
  cases op <;> simp only [LaneOp.compares, Option.some.injEq, Prod.mk.injEq, reduceCtorEq,
    and_false] at hop <;> obtain ⟨rfl, rfl⟩ := hop
  · simp [LaneOp.apply, answered, claimWaitingLaneGitPreparation, hcas, keepLanes]
  · simp [LaneOp.apply, answered, recordWaitingLaneGitPrepared, hcas, keepLanes]
  · simp [LaneOp.apply, answered, settleWaitingLaneAtlas, hcas, keepLanes]
  · simp [LaneOp.apply, answered, markWaitingLaneActive, hcas, keepLanes]
  · simp [LaneOp.apply, answered, retireWaitingLanePreparation, hrow, hrefused, keepLanes]
  · simp [LaneOp.apply, answered, poisonWaitingLanePreparation, hrow, hrefused, keepLanes]
  · simp [LaneOp.apply, answered, clearWaitingLanePreparedAssetProof, hcas, keepLanes]

end Call

/-! ## 3. Any order -/

/-- One row for each work item, and each row truthful. -/
structure LaneBook.Sound (book : LaneBook) : Prop where
  nodup : (book.lanes.map Preparation.workItemId).Nodup
  truthful : ∀ row ∈ book.lanes, Truthful book.settled row

theorem LaneBook.Sound.step {book : LaneBook} (h : book.Sound) (op : LaneOp) :
    (laneStep book op).Sound := by
  have hstep := laneStep_step book op h.nodup h.truthful
  exact ⟨hstep.nodup, hstep.truthful fun row hrow => (h.truthful row hrow).after op⟩

theorem LaneBook.Sound.run {book : LaneBook} (h : book.Sound) (ops : List LaneOp) :
    (Runs.run laneStep book ops).Sound :=
  Runs.run_invariant_of_forall (fun _ op hbook => hbook.step op) h

theorem LaneBook.sound_empty : LaneBook.Sound {} := ⟨List.nodup_nil, by simp⟩

/-- What the row of a work item becomes. -/
structure Persists (row row' : Preparation) : Prop where
  grows : row' = row ∨ row.version < row'.version
  terminal : row.state ∈ waitingLaneTerminalStates → row'.state ∈ waitingLaneTerminalStates

theorem Persists.refl (row : Preparation) : Persists row row := ⟨Or.inl rfl, id⟩

theorem Persists.trans {a b c : Preparation} (h : Persists a b) (h' : Persists b c) :
    Persists a c := by
  refine ⟨?_, h'.terminal ∘ h.terminal⟩
  rcases h.grows with rfl | hlt
  · exact h'.grows
  · rcases h'.grows with rfl | hlt'
    · exact Or.inr hlt
    · exact Or.inr (hlt.trans hlt')

/-- The rows of a book persist in another. -/
def Persist (book book' : LaneBook) : Prop :=
  ∀ workItemId row, selectPreparation book.lanes workItemId = some row →
    ∃ row', selectPreparation book'.lanes workItemId = some row' ∧ Persists row row'

theorem persist_step (book : LaneBook) (op : LaneOp) (h : book.Sound) :
    Persist book (laneStep book op) := by
  intro workItemId row hrow
  have hstep := laneStep_step book op h.nodup h.truthful
  obtain ⟨row', hrow', hstays⟩ := hstep.kept row (Table.lookup_mem hrow)
  refine ⟨row', ?_, hstays.grows, hstays.terminal⟩
  rw [← Table.lookup_key hrow, ← hstays.workItemId]
  exact Table.lookup_of_mem hstep.nodup hrow'

theorem persist_run {book : LaneBook} (h : book.Sound) (ops : List LaneOp) :
    Persist book (Runs.run laneStep book ops) := by
  have hmeets : Runs.Meets laneStep (fun _ _ => True) book ops :=
    Runs.Meets.of_forall (fun _ _ => trivial) book ops
  refine Runs.run_rel (fun b id row hrow => ⟨row, hrow, Persists.refl row⟩) ?_
    (fun b op hb _ => hb.step op) (fun b op hb _ => persist_step b op hb) h hmeets
  intro a b c hab hbc id row hrow
  obtain ⟨row', hrow', hper⟩ := hab id row hrow
  obtain ⟨row'', hrow'', hper'⟩ := hbc id row' hrow'
  exact ⟨row'', hrow'', hper.trans hper'⟩

/-- A call that changed the table moved the version it expected. -/
theorem version_lt_of_changed {book : LaneBook} (h : book.Sound) {op : LaneOp} {workItemId : ℕ}
    {version : ℤ} (hop : op.compares = some (workItemId, some version))
    (hchanged : (op.apply book.lanes).1 ≠ book.lanes) :
    ∃ n row', normalizeExpectedVersion (some version) = some n ∧
      selectPreparation (laneStep book op).lanes workItemId = some row' ∧ n < row'.version := by
  have hwrite := laneWrite_laneStep book op h.nodup h.truthful hop
  have hout : (op.apply book.lanes).1 = (laneStep book op).lanes := rfl
  rw [hout] at hchanged
  generalize (laneStep book op).lanes = after at hwrite hchanged ⊢
  cases hwrite with
  | keep => exact absurd rfl hchanged
  | @cas row f outcome hrow hversion hf =>
    refine ⟨row.version, { f row with version := row.version + 1 }, hversion version rfl, ?_,
      Nat.lt_succ_self row.version⟩
    obtain rfl : row.workItemId = workItemId := Table.lookup_key hrow
    exact select_cas h.nodup (Table.lookup_mem hrow) hf.workItemId

/-- **Waiting-lane preparation proofs are truthful.**  After any sequence of calls, a ready or
active row has been prepared at the generation it desires, and Atlas coordinates in a row are those
of a generation that was settled for it.  Up to any later state a row keeps an end and raises its
version with every change; and once a call has changed the row at the version it expected, no later
call that expects this version changes anything. -/
theorem waiting_lane_proofs_truthful (earlier later : List LaneOp) :
    (∀ row ∈ (Runs.run laneStep {} (earlier ++ later)).lanes,
      (row.state = .ready ∨ row.state = .active →
        (row.generation row.desired).isSome ∧ row.applied = row.desired) ∧
      (row.applied.HasAtlas → ∃ g : Generation,
        (row.workItemId, g) ∈ (Runs.run laneStep {} (earlier ++ later)).settled ∧
        row.applied = g.coordinates)) ∧
    (∀ row ∈ (Runs.run laneStep {} earlier).lanes, ∃ row',
      selectPreparation (Runs.run laneStep {} (earlier ++ later)).lanes row.workItemId =
        some row' ∧
      (row' = row ∨ row.version < row'.version) ∧
      (row.state ∈ waitingLaneTerminalStates → row'.state ∈ waitingLaneTerminalStates)) ∧
    ∀ (op op' : LaneOp) (workItemId : ℕ) (version : ℤ),
      op.compares = some (workItemId, some version) →
      op'.compares = some (workItemId, some version) →
      (op.apply (Runs.run laneStep {} earlier).lanes).1 ≠ (Runs.run laneStep {} earlier).lanes →
      op'.apply (Runs.run laneStep {} (earlier ++ op :: later)).lanes =
        ((Runs.run laneStep {} (earlier ++ op :: later)).lanes,
          some ⟨.versionConflict, none⟩) := by
  have hmiddle : (Runs.run laneStep {} earlier).Sound := LaneBook.sound_empty.run earlier
  have hreached : (Runs.run laneStep {} (earlier ++ later)).Sound :=
    LaneBook.sound_empty.run (earlier ++ later)
  refine ⟨fun row hrow => ⟨fun hstate => ?_, fun hatlas => ?_⟩, fun row hrow => ?_, ?_⟩
  · have htrue := hreached.truthful row hrow
    obtain ⟨hdesired, happlied⟩ := htrue.proved hstate
    obtain ⟨g, hg⟩ := htrue.desired.resolve_left hdesired
    rw [hg.generation]
    exact ⟨rfl, happlied⟩
  · obtain ⟨g, hmem, hg⟩ := (hreached.truthful row hrow).settled hatlas
    exact ⟨g, hmem, hg.columns⟩
  · rw [Runs.run_append]
    obtain ⟨row', hrow', hper⟩ := persist_run hmiddle later row.workItemId row
      (Table.lookup_of_mem hmiddle.nodup hrow)
    exact ⟨row', hrow', hper.grows, hper.terminal⟩
  · intro op op' workItemId version hop hop' hchanged
    rw [Runs.run_append, Runs.run_cons]
    obtain ⟨n, row', hn, hrow', hlt⟩ := version_lt_of_changed hmiddle hop hchanged
    obtain ⟨row'', hrow'', hper⟩ := persist_run (hmiddle.step op) later workItemId row' hrow'
    refine apply_of_stale hop' hrow'' ?_
    rw [hn]
    intro hsame
    have hversion : n = row''.version := Option.some.inj hsame
    rcases hper.grows with rfl | hlt'
    · omega
    · omega

end PosseClient
