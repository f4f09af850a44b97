/-
# The proofs in a waiting-lane row are truthful

A row that is ready or active has been prepared at the generation it desires; the Atlas
coordinates in it stand beside the Git oid they were settled for; a row that has ended stays ended;
and the version grows with every change.

* `Turns` is what the changes of one compare-and-swap do to the row they were computed from, and
  `Stays` adds the version; a transaction is a `LaneStep`, whatever rows it touches.
* `settled` is the ledger of the generations that a settlement or an activation accepted.
-/
import PosseClient.Queue.WaitingLanes

namespace PosseClient

/-! ## 1. Normal generations -/

theorem hexDigits_eq : hexDigits = ['0', '1', '2', '3', '4', '5', '6', '7', '8', '9', 'a', 'b',
    'c', 'd', 'e', 'f', 'A', 'B', 'C', 'D', 'E', 'F'] := rfl

/-- A hex digit in lower case is a hex digit, not a blank, and in lower case. -/
theorem hexDigit_toLower {c : Char} (h : c ∈ hexDigits) :
    c.toLower ∈ hexDigits ∧ isTrimmed c.toLower = false ∧ c.toLower.toLower = c.toLower := by
  rw [hexDigits_eq] at h ⊢
  fin_cases h <;> decide

/-- The lower case of a Git oid is a Git oid that normalization keeps. -/
theorem gitOid_lower {s : String} (h : isGitOid s = true) :
    isGitOid (lower s) = true ∧ trim (lower s) = lower s ∧ lower (lower s) = lower s := by
  obtain ⟨⟨hhex, hshort⟩, hlong⟩ : (s.toList.all (· ∈ hexDigits) = true ∧
      decide (40 ≤ s.toList.length) = true) ∧ decide (s.toList.length ≤ 64) = true := by
    simpa [isGitOid, and_assoc] using h
  have hdigit : ∀ c ∈ s.toList, c ∈ hexDigits := by
    intro c hc
    simpa using List.all_eq_true.mp hhex c hc
  have hlist : (lower s).toList = s.toList.map Char.toLower := by
    rw [lower, String.toList_ofList]
  have hlower : ∀ c ∈ (lower s).toList, ∃ d ∈ hexDigits, d.toLower = c := by
    intro c hc
    rw [hlist] at hc
    obtain ⟨d, hd, rfl⟩ := List.mem_map.mp hc
    exact ⟨d, hdigit d hd, rfl⟩
  refine ⟨?_, ?_, ?_⟩
  · have hdigits : (lower s).toList.all (· ∈ hexDigits) = true := by
      rw [List.all_eq_true]
      intro c hc
      obtain ⟨d, hd, rfl⟩ := hlower c hc
      exact decide_eq_true (hexDigit_toLower hd).1
    have hlength : (lower s).toList.length = s.toList.length := by
      rw [hlist, List.length_map]
    unfold isGitOid
    rw [hdigits, hlength, hshort, hlong]
    rfl
  · refine trim_eq_self fun c hc => ?_
    obtain ⟨d, hd, rfl⟩ := hlower c hc
    exact (hexDigit_toLower hd).2.1
  · rw [lower, hlist, lower, List.map_map]
    congr 1
    refine List.map_congr_left fun c hc => ?_
    exact (hexDigit_toLower (hdigit c hc)).2.2

/-- What normalization makes of a value, it keeps. -/
structure Generation.IsNormal (g : Generation) : Prop where
  branch : trim g.targetBranch = g.targetBranch
  branch_ne : g.targetBranch ≠ ""
  oid : isGitOid g.gitOid = true ∧ trim g.gitOid = g.gitOid ∧ lower g.gitOid = g.gitOid
  seq : isCounter g.atlasLedgerSeq = true
  revision : isCounter g.atlasLayerRevision = true
  rowCount : ∀ n, g.atlasLayerRowCount = some n → isCounter n = true
  fingerprint : trim g.viewFingerprint = g.viewFingerprint
  fingerprint_ne : g.viewFingerprint ≠ ""

theorem rowCountOf_some {value : RawField ℤ} {count : Option ℤ}
    (h : rowCountOf value = some count) : ∀ n, count = some n → isCounter n = true := by
  rintro n rfl
  cases value with
  | missing => simp [rowCountOf] at h
  | malformed => simp [rowCountOf] at h
  | value m =>
    simp only [rowCountOf] at h
    by_cases hm : isCounter m = true
    · rw [if_pos hm] at h
      obtain rfl := Option.some.inj (Option.some.inj h)
      exact hm
    · rw [if_neg hm] at h
      cases h

/-- What a normalization succeeds on. -/
theorem normalize_some {value : RawGeneration} {g : Generation}
    (h : normalizeWaitingLaneGeneration value = some g) :
    g.IsNormal ∧ ∃ branch, value.targetBranch = .value branch ∧ g.targetBranch = trim branch := by
  obtain ⟨branch, oid, seq, revision, rowCount, fingerprint⟩ := value
  unfold normalizeWaitingLaneGeneration at h
  cases branch <;> cases oid <;> cases seq <;> cases revision <;> cases fingerprint <;>
    cases hcount : rowCountOf rowCount <;> simp only [hcount, reduceCtorEq] at h
  rename_i branch oid seq revision fingerprint count
  by_cases hok : trim branch ≠ "" ∧ isGitOid (trim oid) ∧ isCounter seq ∧ isCounter revision ∧
      trim fingerprint ≠ ""
  · rw [if_pos hok] at h
    obtain ⟨hbranch, hoid, hseq, hrevision, hprint⟩ := hok
    obtain rfl := Option.some.inj h
    exact ⟨⟨trim_trim branch, hbranch, gitOid_lower hoid, hseq, hrevision,
      rowCountOf_some hcount, trim_trim fingerprint, hprint⟩, branch, rfl, rfl⟩
  · rw [if_neg hok] at h
    cases h

/-- **A normal generation survives its columns.** -/
theorem generation_coordinates {row : Preparation} {g : Generation} (hg : g.IsNormal)
    (hbranch : g.targetBranch = row.targetBranch) :
    row.generation g.coordinates = some g := by
  have hcount : rowCountOf (RawField.ofColumn g.atlasLayerRowCount) =
      some g.atlasLayerRowCount := by
    cases hn : g.atlasLayerRowCount with
    | none => rfl
    | some n => simp [RawField.ofColumn, rowCountOf, hg.rowCount n hn]
  unfold Preparation.generation normalizeWaitingLaneGeneration
  simp only [Generation.coordinates, RawField.ofColumn] at hcount ⊢
  simp only [hcount, ← hbranch, hg.branch, hg.oid, hg.fingerprint]
  rw [if_pos ⟨hg.branch_ne, trivial, hg.seq, hg.revision, hg.fingerprint_ne⟩]

/-! ## 2. Truthful rows -/

/-- Some column of the Atlas view is filled. -/
def Coordinates.HasAtlas (columns : Coordinates) : Prop :=
  columns.atlasSeq ≠ none ∨ columns.atlasLayerRevision ≠ none ∨
    columns.atlasLayerRowCount ≠ none ∨ columns.viewFingerprint ≠ none

/-- The columns are those of a generation of the row's branch. -/
structure Fills (row : Preparation) (g : Generation) (columns : Coordinates) : Prop where
  normal : g.IsNormal
  branch : g.targetBranch = row.targetBranch
  columns : columns = g.coordinates

/-- The columns of a row give back the generation that filled them. -/
theorem Fills.generation {row : Preparation} {g : Generation} {columns : Coordinates}
    (h : Fills row g columns) : row.generation columns = some g := by
  rw [h.columns]
  exact generation_coordinates h.normal h.branch

/-- What a row proves is true, given the generations that were settled. -/
structure Truthful (settled : List (ℕ × Generation)) (row : Preparation) : Prop where
  branch : trim row.targetBranch = row.targetBranch
  desired : row.desired = {} ∨ ∃ g, Fills row g row.desired
  proved : row.state = .ready ∨ row.state = .active →
    row.desired ≠ {} ∧ row.applied = row.desired
  settled : row.applied.HasAtlas →
    ∃ g, (row.workItemId, g) ∈ settled ∧ Fills row g row.applied

theorem Truthful.mono {settled settled' : List (ℕ × Generation)} {row : Preparation}
    (h : Truthful settled row) (hsub : settled ⊆ settled') : Truthful settled' row := by
  refine ⟨h.branch, h.desired, h.proved, fun hatlas => ?_⟩
  obtain ⟨g, hg, hfills⟩ := h.settled hatlas
  exact ⟨g, hsub hg, hfills⟩

/-- The columns of no generation give no generation. -/
@[simp] theorem generation_empty (row : Preparation) : row.generation {} = none := rfl

/-- A generation that the columns give is the one that filled them. -/
theorem fills_of_generation {row : Preparation} {g : Generation} {columns : Coordinates}
    (hcolumns : columns = {} ∨ ∃ g, Fills row g columns)
    (h : row.generation columns = some g) : Fills row g columns := by
  rcases hcolumns with rfl | ⟨g', hfills⟩
  · rw [generation_empty] at h
    cases h
  · obtain rfl := Option.some.inj (hfills.generation.symm.trans h)
    exact hfills

/-- Columns that give a generation have the Atlas view filled. -/
theorem hasAtlas_of_generation {row : Preparation} {g : Generation} {columns : Coordinates}
    (h : row.generation columns = some g) : columns.HasAtlas := by
  refine Or.inl fun hseq => ?_
  unfold Preparation.generation normalizeWaitingLaneGeneration at h
  rw [hseq] at h
  cases hoid : columns.gitOid <;> simp [RawField.ofColumn, hoid] at h

theorem not_hasAtlas_gitOnly (oid : Option String) : ¬Coordinates.HasAtlas { gitOid := oid } := by
  rintro (h | h | h | h) <;> exact h rfl

theorem Generation.coordinates_ne (g : Generation) : g.coordinates ≠ {} := by
  intro h
  cases congrArg Coordinates.gitOid h

/-- What a change of a row keeps, apart from its version. -/
structure Turns (settled : List (ℕ × Generation)) (row row' : Preparation) : Prop where
  workItemId : row'.workItemId = row.workItemId
  terminal : row.state ∈ waitingLaneTerminalStates → row'.state ∈ waitingLaneTerminalStates
  truthful : Truthful settled row → Truthful settled row'

/-- What a step keeps of a row. -/
structure Stays (settled : List (ℕ × Generation)) (row row' : Preparation) : Prop
    extends Turns settled row row' where
  grows : row' = row ∨ row.version < row'.version

theorem Stays.refl (settled : List (ℕ × Generation)) (row : Preparation) :
    Stays settled row row :=
  ⟨⟨rfl, id, id⟩, Or.inl rfl⟩

theorem Stays.trans {settled : List (ℕ × Generation)} {a b c : Preparation}
    (h : Stays settled a b) (h' : Stays settled b c) : Stays settled a c := by
  refine ⟨⟨h'.workItemId.trans h.workItemId, h'.terminal ∘ h.terminal,
    h'.truthful ∘ h.truthful⟩, ?_⟩
  rcases h.grows with rfl | hlt
  · exact h'.grows
  · rcases h'.grows with rfl | hlt'
    · exact Or.inr hlt
    · exact Or.inr (hlt.trans hlt')

/-! ## 3. The changes of each operation -/

section Changes

variable {settled : List (ℕ × Generation)} {row : Preparation}

/-- A change that touches neither the proofs nor the end of a row. -/
theorem turns_of_same {row' : Preparation} (hid : row'.workItemId = row.workItemId)
    (hbranch : row'.targetBranch = row.targetBranch) (hdesired : row'.desired = row.desired)
    (happlied : row'.applied = row.applied)
    (hproved : row'.state = .ready ∨ row'.state = .active → row'.state = row.state)
    (hterminal : row.state ∈ waitingLaneTerminalStates →
      row'.state ∈ waitingLaneTerminalStates) : Turns settled row row' := by
  refine ⟨hid, hterminal, fun h => ⟨?_, ?_, fun hstate => ?_, fun hatlas => ?_⟩⟩
  · rw [hbranch]
    exact h.branch
  · rw [hdesired]
    refine h.desired.imp id ?_
    rintro ⟨g, hg⟩
    exact ⟨g, hg.normal, hg.branch.trans hbranch.symm, hg.columns⟩
  · rw [hdesired, happlied]
    have hold : row'.state = row.state := hproved hstate
    exact h.proved (hold ▸ hstate)
  · rw [happlied] at hatlas ⊢
    obtain ⟨g, hmem, hg⟩ := h.settled hatlas
    rw [hid]
    exact ⟨g, hmem, hg.normal, hg.branch.trans hbranch.symm, hg.columns⟩

/-- A row that has begun its task may desire another generation, and is then no longer ready. -/
theorem turns_desire {g : Generation} (hg : g.IsNormal) (hbranch : g.targetBranch = row.targetBranch)
    (hactive : row.state ≠ .active) : Turns settled row (row.desire g) := by
  refine ⟨rfl, fun hterminal => ?_, fun h => ⟨h.branch, Or.inr ⟨g, hg, hbranch, rfl⟩, ?_, ?_⟩⟩
  · have hready : row.state ≠ .ready := by
      intro hready
      rw [hready] at hterminal
      exact absurd hterminal (by decide)
    simpa [Preparation.desire, hready] using hterminal
  · by_cases hready : row.state = .ready
    · simp [Preparation.desire, hready]
    · simp [Preparation.desire, hready, hactive]
  · intro hatlas
    obtain ⟨g', hmem, hg'⟩ := h.settled hatlas
    exact ⟨g', hmem, hg'.normal, hg'.branch, hg'.columns⟩

theorem Turns.trans {a b c : Preparation} (h : Turns settled a b) (h' : Turns settled b c) :
    Turns settled a c :=
  ⟨h'.workItemId.trans h.workItemId, h'.terminal ∘ h.terminal, h'.truthful ∘ h.truthful⟩

theorem turns_coalesce {request : LaneRequest} {promoted : Bool} {reason : DemandReason}
    {newer : Option Generation}
    (hnewer : ∀ g, newer = some g → g.IsNormal ∧ g.targetBranch = row.targetBranch)
    (hactive : row.state ≠ .active) :
    Turns settled row (row.coalesce request promoted reason newer) := by
  have hfilled : Turns settled row (row.coalesce request promoted reason none) :=
    turns_of_same rfl rfl rfl rfl (fun _ => rfl) id
  cases newer with
  | none => exact hfilled
  | some g =>
    obtain ⟨hg, hbranch⟩ := hnewer g rfl
    exact hfilled.trans (turns_desire hg hbranch hactive)

/-- The end of a row. -/
theorem turns_finish {state : LaneState} {reason : Option String} {fallback : String}
    (hstate : state ∈ waitingLaneTerminalStates) :
    Turns settled row (row.finish state reason fallback) := by
  refine turns_of_same rfl rfl rfl rfl (fun hproved => ?_) (fun _ => hstate)
  change state = .ready ∨ state = .active at hproved
  rcases hproved with rfl | rfl <;> exact absurd hstate (by decide)

/-- A row takes a generation it desires as its proof. -/
theorem turns_prove {g : Generation} {row' : Preparation}
    (hdesired : row.generation row.desired = some g) (hmem : (row.workItemId, g) ∈ settled)
    (hid : row'.workItemId = row.workItemId) (hbranch : row'.targetBranch = row.targetBranch)
    (hdesired' : row'.desired = row.desired) (happlied : row'.applied = g.coordinates)
    (hterminal : row.state ∉ waitingLaneTerminalStates) : Turns settled row row' := by
  refine ⟨hid, fun h => absurd h hterminal, fun h => ?_⟩
  have hfills : Fills row g row.desired := fills_of_generation h.desired hdesired
  have hfills' : ∀ columns, columns = g.coordinates → Fills row' g columns := fun _ hcolumns =>
    ⟨hfills.normal, hfills.branch.trans hbranch.symm, hcolumns⟩
  refine ⟨hbranch ▸ h.branch, Or.inr ⟨g, hfills' _ (hdesired'.trans hfills.columns)⟩,
    fun _ => ?_, fun _ => ⟨g, hid ▸ hmem, hfills' _ happlied⟩⟩
  rw [hdesired', happlied, hfills.columns]
  exact ⟨g.coordinates_ne, rfl⟩

end Changes

/-! ## 4. One step -/

/-- What a step does to the table. -/
structure LaneStep (settled : List (ℕ × Generation)) (lanes lanes' : Lanes) : Prop where
  nodup : (lanes'.map Preparation.workItemId).Nodup
  kept : ∀ row ∈ lanes, ∃ row' ∈ lanes', Stays settled row row'
  truthful : (∀ row ∈ lanes, Truthful settled row) → ∀ row' ∈ lanes', Truthful settled row'

section Step

variable {settled : List (ℕ × Generation)} {lanes : Lanes} {row : Preparation}
  {f : Preparation → Preparation} {outcome : LaneOutcome}

theorem LaneStep.refl (hnd : (lanes.map Preparation.workItemId).Nodup) :
    LaneStep settled lanes lanes :=
  ⟨hnd, fun row hrow => ⟨row, hrow, Stays.refl settled row⟩, fun h => h⟩

theorem LaneStep.trans {a b c : Lanes} (h : LaneStep settled a b) (h' : LaneStep settled b c) :
    LaneStep settled a c := by
  refine ⟨h'.nodup, fun row hrow => ?_, fun htrue => h'.truthful (h.truthful htrue)⟩
  obtain ⟨row', hrow', hstays⟩ := h.kept row hrow
  obtain ⟨row'', hrow'', hstays'⟩ := h'.kept row' hrow'
  exact ⟨row'', hrow'', hstays.trans hstays'⟩

/-- The row the statement of a compare-and-swap selects is the one that was read. -/
theorem eq_of_isVersionOf (hnd : (lanes.map Preparation.workItemId).Nodup) (hrow : row ∈ lanes)
    {r : Preparation} (hr : r ∈ lanes) (h : isVersionOf row r = true) : r = row := by
  have hid : r.workItemId = row.workItemId := by
    simp only [isVersionOf, Bool.and_eq_true, beq_iff_eq] at h
    exact h.1
  exact Table.eq_of_key_eq hnd hr hrow hid

theorem isVersionOf_self (row : Preparation) : isVersionOf row row = true := by
  simp [isVersionOf]

/-- A compare-and-swap on a row of the table takes place. -/
theorem updatePreparationCas_of_mem (hrow : row ∈ lanes) :
    updatePreparationCas lanes row f outcome =
      (Table.updateWhere (isVersionOf row)
        (fun r => { f r with version := r.version + 1 }) lanes, ⟨outcome, none⟩) := by
  have hpos : 0 < Table.changes (isVersionOf row) lanes :=
    Table.changes_pos_iff.mpr ⟨row, hrow, isVersionOf_self row⟩
  unfold updatePreparationCas
  rw [if_neg (by omega)]

theorem Truthful.withVersion {n : ℕ} (h : Truthful settled row) :
    Truthful settled { row with version := n } := by
  refine ⟨h.branch, h.desired.imp id ?_, h.proved, fun hatlas => ?_⟩
  · rintro ⟨g, hg⟩
    exact ⟨g, hg.normal, hg.branch, hg.columns⟩
  · obtain ⟨g, hmem, hg⟩ := h.settled hatlas
    exact ⟨g, hmem, hg.normal, hg.branch, hg.columns⟩

/-- Each row stays under a compare-and-swap on a row of the table. -/
theorem forall₂_cas (hnd : (lanes.map Preparation.workItemId).Nodup) (hrow : row ∈ lanes)
    (hf : Turns settled row (f row)) :
    List.Forall₂ (Stays settled) lanes (updatePreparationCas lanes row f outcome).1 := by
  rw [updatePreparationCas_of_mem hrow]
  refine Table.forall₂_updateWhere (Stays.refl settled) fun r hr hversion => ?_
  obtain rfl := eq_of_isVersionOf hnd hrow hr hversion
  exact ⟨⟨hf.workItemId, hf.terminal, fun h => (hf.truthful h).withVersion⟩,
    Or.inr (Nat.lt_succ_self r.version)⟩

theorem LaneStep.cas (hnd : (lanes.map Preparation.workItemId).Nodup) (hrow : row ∈ lanes)
    (hf : Turns settled row (f row)) :
    LaneStep settled lanes (updatePreparationCas lanes row f outcome).1 := by
  have hrows : List.Forall₂ (Stays settled) lanes (updatePreparationCas lanes row f outcome).1 :=
    forall₂_cas hnd hrow hf
  refine ⟨?_, fun r hr => Table.exists_of_mem_forall₂' hrows hr, fun htrue r' hr' => ?_⟩
  · rw [Table.map_key_forall₂ (fun _ _ h => h.workItemId) hrows]
    exact hnd
  · obtain ⟨r, hr, hstays⟩ := Table.exists_of_mem_forall₂ hrows hr'
    exact hstays.truthful (htrue r hr)

/-- What a read finds after a compare-and-swap. -/
theorem select_cas (hnd : (lanes.map Preparation.workItemId).Nodup) (hrow : row ∈ lanes)
    (hid : (f row).workItemId = row.workItemId) :
    selectPreparation (updatePreparationCas lanes row f outcome).1 row.workItemId =
      some { f row with version := row.version + 1 } := by
  rw [updatePreparationCas_of_mem hrow]
  dsimp only
  have hrows : List.Forall₂ (fun r r' : Preparation => r'.workItemId = r.workItemId) lanes
      (Table.updateWhere (isVersionOf row)
        (fun r => { f r with version := r.version + 1 }) lanes) := by
    refine Table.forall₂_updateWhere (fun _ => rfl) fun r hr hversion => ?_
    obtain rfl := eq_of_isVersionOf hnd hrow hr hversion
    exact hid
  have hmem : { f row with version := row.version + 1 } ∈ Table.updateWhere (isVersionOf row)
      (fun r => { f r with version := r.version + 1 }) lanes :=
    Table.mem_updateWhere_of hrow (isVersionOf_self row)
  rw [← Table.map_key_forall₂ (fun _ _ h => h) hrows] at hnd
  rw [← hid]
  exact Table.lookup_of_mem hnd hmem

/-- The table after a call that writes at most one row, by a compare-and-swap on the row it read,
at the version it expects if it expects one. -/
inductive LaneWrite (settled : List (ℕ × Generation)) (lanes : Lanes) (workItemId : ℕ)
    (expected : Option ℤ) : Lanes → Prop
  | keep : LaneWrite settled lanes workItemId expected lanes
  | cas {row : Preparation} {f : Preparation → Preparation} {outcome : LaneOutcome}
    (hrow : selectPreparation lanes workItemId = some row)
    (hversion : ∀ v, expected = some v → normalizeExpectedVersion (some v) = some row.version)
    (hf : Turns settled row (f row)) :
    LaneWrite settled lanes workItemId expected (updatePreparationCas lanes row f outcome).1

theorem LaneWrite.laneStep {workItemId : ℕ} {expected : Option ℤ} {lanes' : Lanes}
    (h : LaneWrite settled lanes workItemId expected lanes')
    (hnd : (lanes.map Preparation.workItemId).Nodup) : LaneStep settled lanes lanes' := by
  cases h with
  | keep => exact LaneStep.refl hnd
  | cas hrow _ hf => exact LaneStep.cas hnd (Table.lookup_mem hrow) hf

theorem casRow_some {workItemId : ℕ} {expected : Option ℤ}
    (h : casRow lanes workItemId expected = some row) :
    selectPreparation lanes workItemId = some row ∧
      normalizeExpectedVersion expected = some row.version := by
  unfold casRow at h
  obtain ⟨hrow, hversion⟩ := Option.filter_eq_some_iff.mp h
  exact ⟨hrow, by simpa using hversion⟩

/-- A write on the row `casRow` gives. -/
theorem LaneWrite.of_casRow {workItemId : ℕ} {expected : Option ℤ}
    (hrow : casRow lanes workItemId expected = some row) (hf : Turns settled row (f row)) :
    LaneWrite settled lanes workItemId expected (updatePreparationCas lanes row f outcome).1 := by
  obtain ⟨hselect, hversion⟩ := casRow_some hrow
  refine LaneWrite.cas hselect ?_ hf
  rintro v rfl
  exact hversion

end Step

/-! ## 5. The operations -/

section Operations

variable {settled : List (ℕ × Generation)} (db : Db) (lanes : Lanes) (workItemId : ℕ)
  (expectedVersion : Option ℤ)

omit db lanes workItemId expectedVersion in
theorem live_of_claimable {state : LaneState} (h : state ∈ [LaneState.requested, .stale]) :
    state ∉ waitingLaneTerminalStates := by
  revert h
  cases state <;> decide

theorem laneWrite_claimGit (gitJobId : ℕ) :
    LaneWrite settled lanes workItemId expectedVersion
      (claimWaitingLaneGitPreparation db lanes workItemId expectedVersion gitJobId).1 := by
  unfold claimWaitingLaneGitPreparation
  cases hrow : casRow lanes workItemId expectedVersion with
  | none => exact LaneWrite.keep
  | some row =>
    dsimp only
    split_ifs with hjob hsame hstate
    · exact LaneWrite.keep
    · exact LaneWrite.keep
    · exact LaneWrite.keep
    · refine LaneWrite.of_casRow hrow (turns_of_same rfl rfl rfl rfl (by simp) fun hterminal => ?_)
      exact absurd hterminal (live_of_claimable (not_not.mp fun h => hstate (Or.inl h)))

theorem laneWrite_recordGit (prepared : GitPrepared) :
    LaneWrite settled lanes workItemId expectedVersion
      (recordWaitingLaneGitPrepared db lanes workItemId expectedVersion prepared).1 := by
  unfold recordWaitingLaneGitPrepared
  cases hrow : casRow lanes workItemId expectedVersion with
  | none => exact LaneWrite.keep
  | some row =>
    dsimp only
    split_ifs with hmatch howner
    · exact LaneWrite.keep
    · exact LaneWrite.keep
    · have hstate : row.state = .preparingGit := by
        by_contra hnot
        exact hmatch (Or.inl hnot)
      refine LaneWrite.of_casRow hrow ⟨rfl, fun h => ?_, fun h => ⟨h.branch, ?_, ?_, ?_⟩⟩
      · rw [hstate] at h
        exact absurd h (by decide)
      · refine h.desired.imp id ?_
        rintro ⟨g, hg⟩
        exact ⟨g, hg.normal, hg.branch, hg.columns⟩
      · rintro (hready | hactive)
        · cases hready
        · cases hactive
      · intro hatlas
        exact absurd hatlas (not_hasAtlas_gitOnly _)

/-- A settlement proves what it was settled for, or leaves the proofs as they are. -/
theorem turns_settleAtlas {row : Preparation} {actual : Option Generation} {result : AtlasResult}
    (hstate : row.state = .waitingAtlas)
    (hmem : ∀ g, actual = some g → (row.settleAtlas actual result).state = .ready →
      (row.workItemId, g) ∈ settled) :
    Turns settled row (row.settleAtlas actual result) := by
  have hlive : row.state ∉ waitingLaneTerminalStates := by
    rw [hstate]
    decide
  have hretire : ∀ reason, Turns settled row
      { row with state := .retired, successorNeeded := false, poisonedReason := reason } :=
    fun reason => turns_of_same rfl rfl rfl rfl (by simp) (by simp [waitingLaneTerminalStates])
  unfold Preparation.settleAtlas at hmem ⊢
  cases actual with
  | none => exact hretire _
  | some g =>
    dsimp only at hmem ⊢
    by_cases hproof : isSuccessfulAtlasResult result = true ∧
        row.generation row.desired = some g ∧ g.gitOid = lower (row.applied.gitOid.getD "")
    · rw [if_pos hproof] at hmem ⊢
      exact turns_prove hproof.2.1 (hmem g rfl rfl) rfl rfl rfl rfl hlive
    · rw [if_neg hproof]
      split_ifs with hstale
      · exact turns_of_same rfl rfl rfl rfl (by simp) (fun h => absurd h hlive)
      · exact hretire _

theorem laneWrite_settle (atlasJobId : Option ℕ) (actual : Option RawGeneration)
    (result : AtlasResult)
    (hmem : ∀ row g, selectPreparation lanes workItemId = some row → row.state = .waitingAtlas →
      actual.bind normalizeWaitingLaneGeneration = some g →
      (row.settleAtlas (actual.bind normalizeWaitingLaneGeneration) result).state = .ready →
      (settleWaitingLaneAtlas lanes workItemId expectedVersion atlasJobId actual result).1 =
        (updatePreparationCas lanes row (fun r => r.settleAtlas
          (actual.bind normalizeWaitingLaneGeneration) result) .promoted).1 →
      (workItemId, g) ∈ settled) :
    LaneWrite settled lanes workItemId expectedVersion
      (settleWaitingLaneAtlas lanes workItemId expectedVersion atlasJobId actual result).1 := by
  unfold settleWaitingLaneAtlas at hmem ⊢
  cases hrow : casRow lanes workItemId expectedVersion with
  | none => exact LaneWrite.keep
  | some row =>
    simp only [hrow] at hmem ⊢
    split_ifs with hready hmatch
    · exact LaneWrite.keep
    · exact LaneWrite.keep
    · have hstate : row.state = .waitingAtlas := by
        by_contra hnot
        exact hmatch (Or.inl hnot)
      have hselect := (casRow_some hrow).1
      refine LaneWrite.of_casRow hrow (turns_settleAtlas hstate fun g hg hproved => ?_)
      rw [Table.lookup_key hselect]
      refine hmem row g hselect hstate hg hproved ?_
      rw [if_neg hready, if_neg hmatch]

theorem laneWrite_claimActivation :
    LaneWrite settled lanes workItemId none (claimWaitingLaneActivation lanes workItemId).1 := by
  unfold claimWaitingLaneActivation
  cases hrow : selectPreparation lanes workItemId with
  | none => exact LaneWrite.keep
  | some row =>
    dsimp only
    split_ifs with hretired hpoisoned hplanner hactive hstate
    · exact LaneWrite.keep
    · exact LaneWrite.keep
    · exact LaneWrite.cas hrow (by simp) (turns_of_same rfl rfl rfl rfl (fun _ => rfl) id)
    · exact LaneWrite.keep
    · refine LaneWrite.cas hrow (by simp) (turns_of_same rfl rfl rfl rfl (by simp) fun h => ?_)
      simp [waitingLaneTerminalStates, hretired, hpoisoned] at h
    · exact LaneWrite.keep

theorem laneWrite_claimPlanning :
    LaneWrite settled lanes workItemId none (claimWaitingLanePlanning lanes workItemId).1 := by
  unfold claimWaitingLanePlanning
  cases hrow : selectPreparation lanes workItemId with
  | none => exact LaneWrite.keep
  | some row =>
    dsimp only
    split_ifs with hpoisoned hretired hplanner hactive hready
    · exact LaneWrite.keep
    · exact LaneWrite.keep
    · exact LaneWrite.keep
    · exact LaneWrite.keep
    · exact LaneWrite.keep
    · refine LaneWrite.cas hrow (by simp) (turns_of_same rfl rfl rfl rfl (by simp) fun h => ?_)
      simp [waitingLaneTerminalStates, hretired, hpoisoned] at h

theorem laneWrite_retirePlanning (reason : Option String) (consumerJobId : Option ℕ) :
    LaneWrite settled lanes workItemId none
      (retireWaitingLanePlanning db lanes workItemId reason consumerJobId).1 := by
  unfold retireWaitingLanePlanning
  cases hrow : selectPreparation lanes workItemId with
  | none => exact LaneWrite.keep
  | some row =>
    dsimp only
    split_ifs with hstate hconsumer
    · exact LaneWrite.keep
    · exact LaneWrite.keep
    · exact LaneWrite.cas hrow (by simp) (turns_finish (by decide))

/-- An activation at a generation that was found. -/
theorem laneWrite_activate {row : Preparation}
    (hrow : casRow lanes workItemId expectedVersion = some row) (hstate : row.state = .activating)
    (found : Option Generation)
    (hmem : ∀ g, found = some g → row.generation row.desired = some g →
      (row.workItemId, g) ∈ settled) :
    LaneWrite settled lanes workItemId expectedVersion
      (match found with
      | none => keepLanes lanes .ineligible "generation_not_current"
      | some generation =>
        if row.generation row.desired ≠ some generation then
          keepLanes lanes .ineligible "generation_not_current"
        else updatePreparationCas lanes row (fun r => { r with
          applied := generation.coordinates, state := .active, successorNeeded := false })
          .promoted).1 := by
  cases found with
  | none => exact LaneWrite.keep
  | some g =>
    dsimp only
    by_cases hdesired : row.generation row.desired ≠ some g
    · rw [if_pos hdesired]
      exact LaneWrite.keep
    · rw [if_neg hdesired]
      have hlive : row.state ∉ waitingLaneTerminalStates := by
        rw [hstate]
        decide
      have hproof : row.generation row.desired = some g := not_not.mp hdesired
      exact LaneWrite.of_casRow hrow
        (turns_prove hproof (hmem g rfl hproof) rfl rfl rfl rfl hlive)

theorem laneWrite_markActive (actual : Option RawGeneration)
    (htrue : ∀ row ∈ lanes, Truthful settled row)
    (hmem : ∀ row value g, selectPreparation lanes workItemId = some row →
      row.state = .activating → actual = some value →
      normalizeWaitingLaneGeneration value = some g →
      (markWaitingLaneActive lanes workItemId expectedVersion actual).1 =
        (updatePreparationCas lanes row (fun r => { r with
          applied := g.coordinates, state := .active, successorNeeded := false }) .promoted).1 →
      (workItemId, g) ∈ settled) :
    LaneWrite settled lanes workItemId expectedVersion
      (markWaitingLaneActive lanes workItemId expectedVersion actual).1 := by
  unfold markWaitingLaneActive at hmem ⊢
  cases hrow : casRow lanes workItemId expectedVersion with
  | none => exact LaneWrite.keep
  | some row =>
    obtain ⟨hselect, -⟩ := casRow_some hrow
    simp only [hrow] at hmem ⊢
    by_cases hactive : row.state = .active
    · rw [if_pos hactive]
      exact LaneWrite.keep
    · rw [if_neg hactive] at hmem ⊢
      by_cases hstate : row.state ≠ .activating
      · rw [if_pos hstate]
        exact LaneWrite.keep
      · rw [if_neg hstate] at hmem ⊢
        cases actual with
        | none =>
          -- without a value the row keeps the generation it has been settled for
          refine laneWrite_activate lanes workItemId expectedVersion hrow (not_not.mp hstate) _ ?_
          intro g hactual _
          obtain ⟨g', hg', hfills⟩ := (htrue row (Table.lookup_mem hselect)).settled
            (hasAtlas_of_generation hactual)
          obtain rfl := Option.some.inj (hfills.generation.symm.trans hactual)
          exact hg'
        | some value =>
          refine laneWrite_activate lanes workItemId expectedVersion hrow (not_not.mp hstate) _ ?_
          intro g hactual hdesired
          rw [Table.lookup_key hselect]
          refine hmem row value g hselect (not_not.mp hstate) rfl hactual ?_
          simp only [hactual, hdesired, ne_eq, not_true_eq_false, if_false]

/-- The version a caller gave is the row's. -/
theorem version_of_not_refused {row : Preparation} (h : ¬versionRefused expectedVersion row = true) :
    ∀ v, expectedVersion = some v → normalizeExpectedVersion (some v) = some row.version := by
  rintro v rfl
  simpa [versionRefused] using h

theorem laneWrite_retire (reason : Option String) :
    LaneWrite settled lanes workItemId expectedVersion
      (retireWaitingLanePreparation lanes workItemId expectedVersion reason).1 := by
  unfold retireWaitingLanePreparation
  cases hrow : selectPreparation lanes workItemId with
  | none => exact LaneWrite.keep
  | some row =>
    dsimp only
    split_ifs with hversion hretired hpoisoned
    · exact LaneWrite.keep
    · exact LaneWrite.keep
    · exact LaneWrite.keep
    · exact LaneWrite.cas hrow (version_of_not_refused _ hversion) (turns_finish (by decide))

theorem laneWrite_poison (reason : Option String) :
    LaneWrite settled lanes workItemId expectedVersion
      (poisonWaitingLanePreparation lanes workItemId expectedVersion reason).1 := by
  unfold poisonWaitingLanePreparation
  cases hrow : selectPreparation lanes workItemId with
  | none => exact LaneWrite.keep
  | some row =>
    dsimp only
    split_ifs with hversion hpoisoned
    · exact LaneWrite.keep
    · exact LaneWrite.keep
    · exact LaneWrite.cas hrow (version_of_not_refused _ hversion) (turns_finish (by decide))

theorem laneWrite_clear :
    LaneWrite settled lanes workItemId expectedVersion
      (clearWaitingLanePreparedAssetProof lanes workItemId expectedVersion).1 := by
  unfold clearWaitingLanePreparedAssetProof
  cases hrow : casRow lanes workItemId expectedVersion with
  | none => exact LaneWrite.keep
  | some row =>
    dsimp only
    split_ifs with hterminal hclear
    · exact LaneWrite.keep
    · refine LaneWrite.of_casRow hrow ⟨rfl, id, fun h => ⟨h.branch, ?_, fun hproved => ?_, ?_⟩⟩
      · refine h.desired.imp id ?_
        rintro ⟨g, hg⟩
        exact ⟨g, hg.normal, hg.branch, hg.columns⟩
      · dsimp only at hproved
        rcases hproved with hready | hactive
        · rw [hready] at hterminal
          exact absurd hterminal (by decide)
        · rw [hactive] at hterminal
          exact absurd hterminal (by decide)
      · intro hatlas
        exact absurd hatlas (not_hasAtlas_gitOnly none)
    · exact LaneWrite.keep

theorem laneWrite_storeHotPaths (hotPaths : List String) :
    LaneWrite settled lanes workItemId none
      (storeWaitingLaneHotPaths lanes workItemId hotPaths).1 := by
  unfold storeWaitingLaneHotPaths
  cases hrow : selectPreparation lanes workItemId with
  | none => exact LaneWrite.keep
  | some row =>
    dsimp only
    split_ifs with hstate hsame
    · exact LaneWrite.keep
    · exact LaneWrite.keep
    · exact LaneWrite.cas hrow (by simp) (turns_of_same rfl rfl rfl rfl (fun _ => rfl) id)

end Operations

/-! ## 6. Requests and newer generations -/

section Requests

variable {settled : List (ℕ × Generation)} {lanes : Lanes}

/-- A new row joins the table. -/
theorem LaneStep.insert (hnd : (lanes.map Preparation.workItemId).Nodup) {row : Preparation}
    (hnew : selectPreparation lanes row.workItemId = none) (htrue : Truthful settled row) :
    LaneStep settled lanes (lanes ++ [row]) := by
  have hfresh : ∀ r ∈ lanes, r.workItemId ≠ row.workItemId := Table.lookup_eq_none_iff.mp hnew
  refine ⟨?_, fun r hr => ⟨r, List.mem_append_left _ hr, Stays.refl settled r⟩, fun h r hr => ?_⟩
  · rw [List.map_append, List.nodup_append]
    refine ⟨hnd, List.nodup_singleton _, ?_⟩
    rintro a ha b hb rfl
    obtain ⟨r, hr, rfl⟩ := List.mem_map.mp ha
    exact hfresh r hr (by simpa using hb)
  · rcases List.mem_append.mp hr with hold | hmem
    · exact h r hold
    · obtain rfl := List.mem_singleton.mp hmem
      exact htrue

theorem truthful_newPreparation {request : LaneRequest} {reason : DemandReason} {target : String}
    {generation : Option Generation} (htarget : trim target = target)
    (hgeneration : ∀ g, generation = some g → g.IsNormal ∧ g.targetBranch = target) :
    Truthful settled (newPreparation request reason target generation) := by
  refine ⟨htarget, ?_, ?_, fun hatlas => absurd hatlas (not_hasAtlas_gitOnly none)⟩
  · cases generation with
    | none => exact Or.inl rfl
    | some g => exact Or.inr ⟨g, (hgeneration g rfl).1, (hgeneration g rfl).2, rfl⟩
  · rintro (hready | hactive)
    · cases hready
    · cases hactive

theorem laneStep_coalesce (hnd : (lanes.map Preparation.workItemId).Nodup) {row : Preparation}
    (hrow : row ∈ lanes) (request : LaneRequest) (reason : DemandReason) (target : String)
    {generation : Option Generation}
    (hgeneration : ∀ g, generation = some g → g.IsNormal ∧ g.targetBranch = target) :
    LaneStep settled lanes
      (coalescePreparation lanes row request reason target generation).1 := by
  unfold coalescePreparation
  split_ifs with hpoisoned hretired hactive hbranch howner
  · exact LaneStep.refl hnd
  · exact LaneStep.refl hnd
  · exact LaneStep.refl hnd
  · exact LaneStep.refl hnd
  · exact LaneStep.refl hnd
  · dsimp only
    have hnewer : ∀ g, generation.filter (isNewerGeneration (row.generation row.desired)) =
        some g → g.IsNormal ∧ g.targetBranch = row.targetBranch := by
      intro g hg
      obtain ⟨hnormal, hsame⟩ := hgeneration g (Option.filter_eq_some_iff.mp hg).1
      exact ⟨hnormal, hsame.trans (not_not.mp hbranch).symm⟩
    split_ifs with hsame
    · exact LaneStep.refl hnd
    · exact LaneStep.cas hnd hrow
        (turns_coalesce hnewer fun h => hactive (Or.inr h))

theorem laneStep_ensure (hnd : (lanes.map Preparation.workItemId).Nodup)
    (request : LaneRequest) :
    LaneStep settled lanes (ensureWaitingLanePreparation lanes request).1 := by
  unfold ensureWaitingLanePreparation
  cases request.demandReason with
  | none => exact LaneStep.refl hnd
  | some reason =>
    cases htarget : normalizeOptionalString request.targetBranch with
    | none => exact LaneStep.refl hnd
    | some target =>
      dsimp only
      split_ifs with hinvalid
      · exact LaneStep.refl hnd
      · cases request.ineligible with
        | some why => exact LaneStep.refl hnd
        | none =>
          have hgeneration : ∀ g, request.generation.bind normalizeWaitingLaneGeneration =
              some g → g.IsNormal ∧ g.targetBranch = target := by
            intro g hg
            obtain ⟨value, -, hvalue⟩ := Option.bind_eq_some_iff.mp hg
            refine ⟨(normalize_some hvalue).1, ?_⟩
            by_contra hother
            refine hinvalid (Or.inr (Or.inr ?_))
            rw [hg]
            simpa using hother
          cases hselect : selectPreparation lanes request.workItemId with
          | some row =>
            exact laneStep_coalesce hnd (Table.lookup_mem hselect) request reason target
              hgeneration
          | none =>
            have htrimmed : trim target = target := by
              obtain ⟨hmap, -⟩ := Option.filter_eq_some_iff.mp htarget
              obtain ⟨text, -, rfl⟩ := Option.map_eq_some_iff.mp hmap
              exact trim_trim text
            exact LaneStep.insert hnd hselect (truthful_newPreparation htrimmed hgeneration)

/-- One row of an advance. -/
theorem laneStep_advanceRow {generation : Generation} (hnormal : generation.IsNormal)
    (hnd : (lanes.map Preparation.workItemId).Nodup) {row : Preparation} (hrow : row ∈ lanes)
    (hadvanced : isAdvanced generation row = true) :
    LaneStep settled lanes (advanceRow generation lanes row).1 ∧
      ∀ r ∈ lanes, r.workItemId ≠ row.workItemId → r ∈ (advanceRow generation lanes row).1 := by
  have hbranch : generation.targetBranch = row.targetBranch := by
    simp only [isAdvanced, Bool.and_eq_true, beq_iff_eq] at hadvanced
    exact hadvanced.1.symm
  have hactive : row.state ≠ .active := by
    rintro h
    simp [isAdvanced, h, waitingLanePreparatoryStates] at hadvanced
  unfold advanceRow
  by_cases hnewer : isNewerGeneration (row.generation row.desired) generation = false
  · rw [if_pos hnewer]
    exact ⟨LaneStep.refl hnd, fun r hr _ => hr⟩
  · rw [if_neg hnewer]
    have hturns : Turns settled row { row.desire generation with
        successorNeeded := row.isRunning || row.state == .activating || row.successorNeeded } :=
      (turns_desire hnormal hbranch hactive).trans
        (turns_of_same rfl rfl rfl rfl (fun _ => rfl) id)
    refine ⟨LaneStep.cas hnd hrow hturns, fun r hr hother => ?_⟩
    rw [updatePreparationCas_of_mem hrow]
    refine Table.mem_updateWhere_of_not hr ?_
    simp [isVersionOf, hother]

/-- The rows of an advance, one after the other. -/
theorem laneStep_advanceRows {generation : Generation} (hnormal : generation.IsNormal)
    (rows : List Preparation) :
    ∀ {lanes : Lanes}, (lanes.map Preparation.workItemId).Nodup →
      (rows.map Preparation.workItemId).Nodup →
      (∀ row ∈ rows, row ∈ lanes ∧ isAdvanced generation row = true) →
      LaneStep settled lanes
        (rows.foldl (fun lanes row => (advanceRow generation lanes row).1) lanes) := by
  induction rows with
  | nil =>
    intro lanes hnd _ _
    exact LaneStep.refl hnd
  | cons row rows ih =>
    intro lanes hnd hrows hmem
    obtain ⟨hrow, hadvanced⟩ := hmem row List.mem_cons_self
    obtain ⟨hstep, hothers⟩ : LaneStep settled lanes (advanceRow generation lanes row).1 ∧ _ :=
      laneStep_advanceRow hnormal hnd hrow hadvanced
    rw [List.map_cons, List.nodup_cons] at hrows
    refine hstep.trans (ih hstep.nodup hrows.2 fun r hr => ?_)
    obtain ⟨hlane, hadv⟩ := hmem r (List.mem_cons_of_mem row hr)
    refine ⟨hothers r hlane fun hsame => hrows.1 ?_, hadv⟩
    exact List.mem_map.mpr ⟨r, hr, hsame⟩

theorem laneStep_advance (hnd : (lanes.map Preparation.workItemId).Nodup)
    (generation : RawGeneration) :
    LaneStep settled lanes (advanceWaitingLaneDesiredGeneration lanes generation) := by
  unfold advanceWaitingLaneDesiredGeneration
  cases hg : normalizeWaitingLaneGeneration generation with
  | none => exact LaneStep.refl hnd
  | some g =>
    have hperm := List.mergeSort_perm (lanes.filter (isAdvanced g))
      (fun a b => decide (a.workItemId ≤ b.workItemId))
    refine laneStep_advanceRows (normalize_some hg).1 _ hnd ?_ fun row hrow => ?_
    · refine (hperm.map Preparation.workItemId).nodup_iff.mpr ?_
      exact hnd.sublist (List.filter_sublist.map Preparation.workItemId)
    · exact List.mem_filter.mp (hperm.mem_iff.mp hrow)

end Requests

end PosseClient
