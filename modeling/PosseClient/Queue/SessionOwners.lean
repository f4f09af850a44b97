/-
# Session handles have one owner

The two unique indexes and the guard `status = 'active'` of every `UPDATE` carry the argument.  What
a worker has read before its statement is not relied on: each statement checks again what it needs.

* `SessionEdit` says what an `UPDATE` of the two tables may do, with the session it advances;
  every statement is one (`*_edit`) or an insertion.
* `SessionsSound` is about the tables, `HopsCounted` about the successful advances, and `Later` about
  what is over once and for all: a token that left its session, a lane that was closed.
-/
import PosseClient.Lib.Runs
import PosseClient.Queue.Sessions

namespace PosseClient

open Table

/-! ## 1. The tables -/

/-- At most one active row per key of an index, an active lane for every active session, and every
lease token on one active session. -/
structure SessionsSound (db : SessionDb) : Prop where
  laneBound : ∀ lane ∈ db.lanes, lane.id ≤ db.laneIds
  laneOnce : (db.lanes.map (·.id)).Nodup
  sessionBound : ∀ row ∈ db.sessions, row.id ≤ db.sessionIds
  sessionOnce : (db.sessions.map (·.id)).Nodup
  oneLane : ∀ a ∈ db.lanes, ∀ b ∈ db.lanes, a.status = .active → b.status = .active →
    a.workItemId = b.workItemId → a.lane = b.lane → a.skillKey = b.skillKey → a = b
  oneSession : ∀ a ∈ db.sessions, ∀ b ∈ db.sessions, a.status = .active → b.status = .active →
    a.laneId = b.laneId → a = b
  parent : ∀ row ∈ db.sessions, row.status = .active →
    ∃ lane ∈ db.lanes, lane.id = row.laneId ∧ lane.status = .active
  drawn : ∀ row ∈ db.sessions, ∀ t, row.leaseToken = some t → t < db.tokens
  oneHolder : ∀ a ∈ db.sessions, ∀ b ∈ db.sessions, ∀ t, a.leaseToken = some t →
    b.leaseToken = some t → a = b
  leased : ∀ row ∈ db.sessions, row.status ≠ .active → row.leaseToken = none

/-- `hop_count` is the number of advances of the session. -/
structure HopsCounted (db : SessionDb) (advances : List ℕ) : Prop where
  hops : ∀ row ∈ db.sessions, row.hopCount = advances.count row.id
  known : ∀ i ∈ advances, i ≤ db.sessionIds

/-- What stays over from one state to a later one. -/
structure Later (db db' : SessionDb) : Prop where
  tokens_le : db.tokens ≤ db'.tokens
  held : ∀ row' ∈ db'.sessions, ∀ t < db.tokens, row'.leaseToken = some t →
    ∃ row ∈ db.sessions, row.id = row'.id ∧ row.leaseToken = some t
  closed : ∀ lane ∈ db.lanes, lane.status ≠ .active →
    ∃ lane' ∈ db'.lanes, lane'.id = lane.id ∧ lane'.status ≠ .active

theorem Later.refl (db : SessionDb) : Later db db :=
  ⟨le_refl _, fun row hrow _ _ ht => ⟨row, hrow, rfl, ht⟩,
    fun lane hlane h => ⟨lane, hlane, rfl, h⟩⟩

theorem Later.trans {db db' db'' : SessionDb} (h : Later db db') (h' : Later db' db'') :
    Later db db'' where
  tokens_le := h.tokens_le.trans h'.tokens_le
  held := by
    intro row'' hrow'' t ht htoken
    rcases h'.held row'' hrow'' t (lt_of_lt_of_le ht h.tokens_le) htoken with
      ⟨row', hrow', hid', htoken'⟩
    rcases h.held row' hrow' t ht htoken' with ⟨row, hrow, hid, htoken''⟩
    exact ⟨row, hrow, hid.trans hid', htoken''⟩
  closed := by
    intro lane hlane hstatus
    rcases h.closed lane hlane hstatus with ⟨lane', hlane', hid, hstatus'⟩
    rcases h'.closed lane' hlane' hstatus' with ⟨lane'', hlane'', hid', hstatus''⟩
    exact ⟨lane'', hlane'', hid'.trans hid, hstatus''⟩

/-- The invariant, and what is over at the start of the step and stays so. -/
structure SessionProgress (db db' : SessionDb) (advances : List ℕ) : Prop where
  sound : SessionsSound db'
  counted : HopsCounted db' advances
  later : Later db db'

/-! ## 2. Updates of the two tables -/

/-- The rows after an `UPDATE` are the images of the rows before it. -/
structure SessionEdit (db db' : SessionDb) (bumped : Option ℕ) (lg : SessionLane → SessionLane)
    (g : JobSession → JobSession) : Prop where
  lanes : db'.lanes = db.lanes.map lg
  sessions : db'.sessions = db.sessions.map g
  laneIds : db'.laneIds = db.laneIds
  sessionIds : db'.sessionIds = db.sessionIds
  tokens_le : db.tokens ≤ db'.tokens
  laneKey : ∀ lane ∈ db.lanes, (lg lane).id = lane.id ∧ (lg lane).workItemId = lane.workItemId ∧
    (lg lane).lane = lane.lane ∧ (lg lane).skillKey = lane.skillKey
  laneActive : ∀ lane ∈ db.lanes, (lg lane).status = .active → lane.status = .active
  key : ∀ row ∈ db.sessions, (g row).id = row.id ∧ (g row).laneId = row.laneId
  active : ∀ row ∈ db.sessions, (g row).status = .active → row.status = .active
  parent : ∀ row ∈ db.sessions, (g row).status = .active → ∀ lane ∈ db.lanes,
    lane.id = row.laneId → lane.status = .active → (lg lane).status = .active
  leased : ∀ row ∈ db.sessions, (g row).status ≠ .active → (g row).leaseToken = none
  token : ∀ row ∈ db.sessions, ∀ t, (g row).leaseToken = some t →
    row.leaseToken = some t ∨ (t = db.tokens ∧ db.tokens < db'.tokens)
  oneFresh : ∀ a ∈ db.sessions, ∀ b ∈ db.sessions, (g a).leaseToken = some db.tokens →
    (g b).leaseToken = some db.tokens → a.id = b.id
  hops : ∀ row ∈ db.sessions,
    (g row).hopCount = row.hopCount + if bumped = some row.id then 1 else 0
  known : ∀ i ∈ bumped, i ≤ db.sessionIds

section Edit

variable {db db' : SessionDb} {bumped : Option ℕ} {lg : SessionLane → SessionLane}
  {g : JobSession → JobSession} {advances : List ℕ}

theorem SessionEdit.exists_lane (he : SessionEdit db db' bumped lg g) {lane' : SessionLane}
    (h : lane' ∈ db'.lanes) : ∃ lane ∈ db.lanes, lg lane = lane' :=
  List.mem_map.1 (he.lanes ▸ h)

theorem SessionEdit.exists_session (he : SessionEdit db db' bumped lg g) {row' : JobSession}
    (h : row' ∈ db'.sessions) : ∃ row ∈ db.sessions, g row = row' :=
  List.mem_map.1 (he.sessions ▸ h)

theorem SessionEdit.sound (he : SessionEdit db db' bumped lg g) (h : SessionsSound db) :
    SessionsSound db' where
  laneBound := by
    intro lane' hlane'
    rcases he.exists_lane hlane' with ⟨lane, hlane, rfl⟩
    rw [(he.laneKey lane hlane).1, he.laneIds]
    exact h.laneBound lane hlane
  laneOnce := by
    have hids : db'.lanes.map (·.id) = db.lanes.map (·.id) := by
      rw [he.lanes, List.map_map]
      exact List.map_congr_left fun lane hlane => (he.laneKey lane hlane).1
    rw [hids]
    exact h.laneOnce
  sessionBound := by
    intro row' hrow'
    rcases he.exists_session hrow' with ⟨row, hrow, rfl⟩
    rw [(he.key row hrow).1, he.sessionIds]
    exact h.sessionBound row hrow
  sessionOnce := by
    have hids : db'.sessions.map (·.id) = db.sessions.map (·.id) := by
      rw [he.sessions, List.map_map]
      exact List.map_congr_left fun row hrow => (he.key row hrow).1
    rw [hids]
    exact h.sessionOnce
  oneLane := by
    intro a' ha' b' hb' hsa hsb hwi hlane hskill
    rcases he.exists_lane ha' with ⟨a, ha, rfl⟩
    rcases he.exists_lane hb' with ⟨b, hb, rfl⟩
    rcases he.laneKey a ha with ⟨_, hawi, halane, haskill⟩
    rcases he.laneKey b hb with ⟨_, hbwi, hblane, hbskill⟩
    have hab : a = b := by
      refine h.oneLane a ha b hb (he.laneActive a ha hsa) (he.laneActive b hb hsb) ?_ ?_ ?_
      · rw [← hawi, ← hbwi, hwi]
      · rw [← halane, ← hblane, hlane]
      · rw [← haskill, ← hbskill, hskill]
    rw [hab]
  oneSession := by
    intro a' ha' b' hb' hsa hsb hlane
    rcases he.exists_session ha' with ⟨a, ha, rfl⟩
    rcases he.exists_session hb' with ⟨b, hb, rfl⟩
    have hab : a = b := by
      refine h.oneSession a ha b hb (he.active a ha hsa) (he.active b hb hsb) ?_
      rw [← (he.key a ha).2, ← (he.key b hb).2, hlane]
    rw [hab]
  parent := by
    intro row' hrow' hstatus
    rcases he.exists_session hrow' with ⟨row, hrow, rfl⟩
    rcases h.parent row hrow (he.active row hrow hstatus) with ⟨lane, hlane, hid, hactive⟩
    have hmem : lg lane ∈ db'.lanes := he.lanes ▸ List.mem_map_of_mem hlane
    refine ⟨lg lane, hmem, ?_, he.parent row hrow hstatus lane hlane hid hactive⟩
    rw [(he.laneKey lane hlane).1, (he.key row hrow).2, hid]
  drawn := by
    intro row' hrow' t ht
    rcases he.exists_session hrow' with ⟨row, hrow, rfl⟩
    rcases he.token row hrow t ht with
      hold
    | ⟨hfresh, hlt⟩
    · exact lt_of_lt_of_le (h.drawn row hrow t hold) he.tokens_le
    · omega
  oneHolder := by
    intro a' ha' b' hb' t hat hbt
    rcases he.exists_session ha' with ⟨a, ha, rfl⟩
    rcases he.exists_session hb' with ⟨b, hb, rfl⟩
    have hab : a = b := by
      by_cases hfresh : t = db.tokens
      · subst hfresh
        exact eq_of_key_eq h.sessionOnce ha hb (he.oneFresh a ha b hb hat hbt)
      · have hold : ∀ row ∈ db.sessions, (g row).leaseToken = some t →
            row.leaseToken = some t := fun row hrow htoken =>
          (he.token row hrow t htoken).resolve_right fun hnew => hfresh hnew.1
        exact h.oneHolder a ha b hb t (hold a ha hat) (hold b hb hbt)
    rw [hab]
  leased := by
    intro row' hrow' hstatus
    rcases he.exists_session hrow' with ⟨row, hrow, rfl⟩
    exact he.leased row hrow hstatus

theorem SessionEdit.counted (he : SessionEdit db db' bumped lg g) (h : HopsCounted db advances) :
    HopsCounted db' (advances ++ bumped.toList) where
  hops := by
    intro row' hrow'
    rcases he.exists_session hrow' with ⟨row, hrow, rfl⟩
    rw [he.hops row hrow, (he.key row hrow).1, List.count_append, h.hops row hrow]
    cases bumped with
    | none => simp
    | some i => simp [List.count_singleton]
  known := by
    intro i hi
    rw [he.sessionIds]
    rcases List.mem_append.1 hi with
      hold
    | hnew
    · exact h.known i hold
    · exact he.known i (by simpa using hnew)

theorem SessionEdit.later (he : SessionEdit db db' bumped lg g) : Later db db' where
  tokens_le := he.tokens_le
  held := by
    intro row' hrow' t ht htoken
    rcases he.exists_session hrow' with ⟨row, hrow, rfl⟩
    have hold : row.leaseToken = some t :=
      (he.token row hrow t htoken).resolve_right fun hnew => by omega
    exact ⟨row, hrow, (he.key row hrow).1.symm, hold⟩
  closed := by
    intro lane hlane hstatus
    exact ⟨lg lane, he.lanes ▸ List.mem_map_of_mem hlane, (he.laneKey lane hlane).1,
      fun hactive => hstatus (he.laneActive lane hlane hactive)⟩

theorem SessionEdit.progress (he : SessionEdit db db' bumped lg g) (h : SessionsSound db)
    (hc : HopsCounted db advances) : SessionProgress db db' (advances ++ bumped.toList) :=
  ⟨he.sound h, he.counted hc, he.later⟩

/-- Tokens may be drawn and not stored. -/
theorem SessionsSound.same (h : SessionsSound db) {tokens : ℕ} (hle : db.tokens ≤ tokens) :
    SessionEdit db { db with tokens := tokens } none id id := by
  refine ⟨by simp, by simp, rfl, rfl, hle, fun _ _ => ⟨rfl, rfl, rfl, rfl⟩, fun _ _ hl => hl,
    fun _ _ => ⟨rfl, rfl⟩, fun _ _ hr => hr, fun _ _ _ _ _ _ hl => hl, h.leased,
    fun _ _ _ ht => Or.inl ht, ?_, by simp, fun _ hi => absurd hi (by simp)⟩
  intro a ha b _ hat _
  exact absurd (h.drawn a ha _ hat) (lt_irrefl _)

/-- A statement that changes active sessions and gives no lease: each either loses its lease or keeps
both its lease token and its status. -/
theorem SessionsSound.edit (h : SessionsSound db) {p : JobSession → Bool}
    {f : JobSession → JobSession} (hp : ∀ row, p row = true → row.status = .active)
    (hkey : ∀ row, (f row).id = row.id ∧ (f row).laneId = row.laneId)
    (hhop : ∀ row, (f row).hopCount = row.hopCount)
    (htoken : ∀ row, (f row).leaseToken = none ∨
      ((f row).leaseToken = row.leaseToken ∧ (f row).status = row.status)) :
    SessionEdit db { db with sessions := updateWhere p f db.sessions } none id
      (fun row => if p row then f row else row) := by
  have hcases : ∀ row ∈ db.sessions,
      (p row = true ∧ (if p row then f row else row) = f row) ∨
        (if p row then f row else row) = row := by
    intro row _
    cases hrow : p row with
    | true => exact Or.inl ⟨rfl, rfl⟩
    | false => exact Or.inr rfl
  have hold : ∀ row ∈ db.sessions, ∀ t, (if p row then f row else row).leaseToken = some t →
      row.leaseToken = some t := by
    intro row hrow t ht
    rcases hcases row hrow with
      ⟨_, hg⟩
    | hg
    · rw [hg] at ht
      rcases htoken row with
        hnone
      | ⟨hsame, _⟩
      · rw [hnone] at ht
        cases ht
      · exact hsame ▸ ht
    · rwa [hg] at ht
  refine ⟨by simp, rfl, rfl, rfl, le_refl _, fun _ _ => ⟨rfl, rfl, rfl, rfl⟩, fun _ _ hl => hl, ?_,
    ?_, fun _ _ _ _ _ _ hl => hl, ?_, fun row hrow t ht => Or.inl (hold row hrow t ht), ?_, ?_,
    fun _ hi => absurd hi (by simp)⟩
  · intro row hrow
    rcases hcases row hrow with
      ⟨_, hg⟩
    | hg
    · rw [hg]
      exact hkey row
    · rw [hg]
      exact ⟨rfl, rfl⟩
  · intro row hrow hstatus
    rcases hcases row hrow with
      ⟨hrow', _⟩
    | hg
    · exact hp row hrow'
    · rwa [hg] at hstatus
  · intro row hrow hstatus
    rcases hcases row hrow with
      ⟨hrow', hg⟩
    | hg
    · rw [hg] at hstatus ⊢
      rcases htoken row with
        hnone
      | ⟨_, hsame⟩
      · exact hnone
      · exact absurd (hsame.trans (hp row hrow')) hstatus
    · rw [hg] at hstatus ⊢
      exact h.leased row hrow hstatus
  · intro a ha b _ hat _
    have hlt : db.tokens < db.tokens := h.drawn a ha _ (hold a ha _ hat)
    exact absurd hlt (lt_irrefl _)
  · intro row hrow
    rcases hcases row hrow with
      ⟨_, hg⟩
    | hg
    · simp [hg, hhop row]
    · simp [hg]

end Edit

/-! ## 3. Statements -/

section Statements

variable {db : SessionDb} {advances : List ℕ} {sessionId laneId jobId : ℕ} {leaseToken : Option ℕ}
  {ts date leaseTtlSec : ℤ} {status : SessionStatus} {reason : String}

theorem JobSession.isLeasedWith_iff {row : JobSession} :
    row.isLeasedWith sessionId leaseToken = true ↔
      row.id = sessionId ∧ leaseToken ≠ none ∧ row.leaseToken = leaseToken ∧
        row.status = .active := by
  simp [JobSession.isLeasedWith, Option.isSome_iff_ne_none, and_assoc]

theorem releaseSessionHandle_edit (h : SessionsSound db) :
    ∃ g, SessionEdit db (db.releaseSessionHandle sessionId leaseToken ts).1 none id g := by
  refine ⟨_, h.edit ?_ ?_ ?_ ?_⟩
  · intro row hrow
    exact (JobSession.isLeasedWith_iff.1 hrow).2.2.2
  · exact fun row => ⟨rfl, rfl⟩
  · exact fun row => rfl
  · exact fun row => Or.inl rfl

theorem renewSessionHandleLease_edit (h : SessionsSound db) (jobId : Option ℕ) :
    ∃ g, SessionEdit db
      (db.renewSessionHandleLease sessionId leaseToken jobId leaseTtlSec ts date).1 none id g := by
  refine ⟨_, h.edit ?_ ?_ ?_ ?_⟩
  · intro row hrow
    exact (JobSession.isLeasedWith_iff.1 (Bool.and_eq_true_iff.1 hrow).1).2.2.2
  · exact fun row => ⟨rfl, rfl⟩
  · exact fun row => rfl
  · exact fun row => Or.inr ⟨rfl, rfl⟩

theorem setSessionStatus_edit (h : SessionsSound db) :
    ∃ g, SessionEdit db (db.setSessionStatus sessionId status reason ts).1 none id g := by
  refine ⟨_, h.edit ?_ ?_ ?_ ?_⟩
  · intro row hrow
    simpa using (Bool.and_eq_true_iff.1 hrow).2
  · exact fun row => ⟨rfl, rfl⟩
  · exact fun row => rfl
  · exact fun row => Or.inl rfl

theorem clearStaleLease_edit (h : SessionsSound db) :
    ∃ g, SessionEdit db (db.clearStaleLease sessionId reason ts).1 none id g := by
  refine ⟨_, h.edit ?_ ?_ ?_ ?_⟩
  · intro row hrow
    have hstale : row.isStaleAt ts = true := (Bool.and_eq_true_iff.1 hrow).2
    simpa using (Bool.and_eq_true_iff.1 hstale).1
  · exact fun row => ⟨rfl, rfl⟩
  · exact fun row => rfl
  · exact fun row => Or.inl rfl

theorem SessionDb.isLeasable_iff {row : JobSession} : db.isLeasable sessionId ts row = true ↔
    row.id = sessionId ∧ row.status = .active ∧ row.leaseExpiresAt.all (· < ts) = true ∧
      row.expiresAt.all (ts < ·) = true ∧ db.hasActiveLane row = true := by
  simp only [SessionDb.isLeasable, Bool.and_eq_true, decide_eq_true_eq, and_assoc]

/-- The statement of a lease draws a token, which one session gets. -/
theorem leaseSessionHandle_edit (h : SessionsSound db) :
    ∃ g, SessionEdit db (db.leaseSessionHandle sessionId jobId leaseTtlSec ts date).1 none id g := by
  unfold SessionDb.leaseSessionHandle
  split
  · exact ⟨id, h.same (Nat.le_succ _)⟩
  · have htarget : ∀ row ∈ db.sessions,
        (if db.isLeasable sessionId ts row then some db.tokens else row.leaseToken) =
          some db.tokens → row.id = sessionId := by
      intro row hrow htoken
      split at htoken
      · next hleasable => exact (SessionDb.isLeasable_iff.1 hleasable).1
      · exact absurd (h.drawn row hrow _ htoken) (lt_irrefl _)
    refine ⟨_, by simp, rfl, rfl, rfl, Nat.le_succ _, fun _ _ => ⟨rfl, rfl, rfl, rfl⟩,
      fun _ _ hl => hl, ?_, ?_, fun _ _ _ _ _ _ hl => hl, ?_, ?_, ?_, ?_,
      fun _ hi => absurd hi (by simp)⟩
    · intro row _
      split <;> exact ⟨rfl, rfl⟩
    · intro row _
      split <;> exact fun hr => hr
    · intro row hrow
      split
      · next hleasable =>
        exact fun hstatus => absurd (SessionDb.isLeasable_iff.1 hleasable).2.1 hstatus
      · exact h.leased row hrow
    · intro row _ t ht
      split at ht
      · exact Or.inr ⟨(Option.some.inj ht).symm, Nat.lt_succ_self _⟩
      · exact Or.inl ht
    · intro a ha b hb hat hbt
      rw [apply_ite JobSession.leaseToken] at hat hbt
      rw [htarget a ha hat, htarget b hb hbt]
    · intro row _
      split <;> simp

/-- An advance counts one hop on the session it names, which held the token. -/
theorem advanceSessionHandle_edit (h : SessionsSound db) (args : AdvanceHandleArgs) :
    ((db.advanceSessionHandle args ts).2 = none ∧ (db.advanceSessionHandle args ts).1 = db) ∨
      ((db.advanceSessionHandle args ts).2 ≠ none ∧
        ∃ g, SessionEdit db (db.advanceSessionHandle args ts).1 (some args.sessionId) id g) := by
  by_cases hnone : changes (fun row => row.isLeasedWith args.sessionId args.leaseToken)
      db.sessions = 0
  · left
    simp [SessionDb.advanceSessionHandle, hnone]
  · right
    rcases changes_pos_iff.1 (Nat.pos_of_ne_zero hnone) with ⟨held, hheld, htarget⟩
    rcases JobSession.isLeasedWith_iff.1 htarget with ⟨hid, -, -, -⟩
    -- the session of the statement is the only row with its id
    have honly : ∀ row ∈ db.sessions, row.id = args.sessionId → row = held := fun row hrow hrid =>
      eq_of_key_eq h.sessionOnce hrow hheld (hrid.trans hid.symm)
    constructor
    · simp only [SessionDb.advanceSessionHandle, if_neg hnone]
      intro hlookup
      rw [lookup_eq_none_iff] at hlookup
      refine hlookup _ (mem_updateWhere_of hheld htarget) ?_
      exact hid
    · simp only [SessionDb.advanceSessionHandle, if_neg hnone]
      refine ⟨_, by simp, rfl, rfl, rfl, le_refl _, fun _ _ => ⟨rfl, rfl, rfl, rfl⟩,
        fun _ _ hl => hl, ?_, ?_, fun _ _ _ _ _ _ hl => hl, ?_, ?_, ?_, ?_, ?_⟩
      · intro row _
        split <;> exact ⟨rfl, rfl⟩
      · intro row _ hstatus
        split at hstatus <;> exact hstatus
      · intro row hrow
        split
        · exact fun _ => rfl
        · exact h.leased row hrow
      · intro row _ t ht
        split at ht
        · cases ht
        · exact Or.inl ht
      · intro a ha b _ hat _
        split at hat
        · cases hat
        · exact absurd (h.drawn a ha _ hat) (lt_irrefl _)
      · intro row hrow
        split
        · next hrt =>
          simp [(JobSession.isLeasedWith_iff.1 hrt).1]
        · next hrt =>
          have hne : args.sessionId ≠ row.id := fun heq =>
            hrt (honly row hrow heq.symm ▸ htarget)
          simp [hne]
      · intro i hi
        obtain rfl : args.sessionId = i := by simpa using hi
        exact hid ▸ h.sessionBound held hheld

/-- A lane is closed together with its session. -/
theorem invalidateSessionLane_edit (h : SessionsSound db) :
    ∃ lg g, SessionEdit db (db.invalidateSessionLane laneId reason status ts).1 none lg g := by
  unfold SessionDb.invalidateSessionLane
  dsimp only
  split
  · exact ⟨id, id, h.same (le_refl _)⟩
  · refine ⟨_, _, rfl, rfl, rfl, rfl, le_refl _, ?_, ?_, ?_, ?_, ?_, ?_, ?_, ?_, ?_,
      fun _ hi => absurd hi (by simp)⟩
    · intro lane _
      split <;> exact ⟨rfl, rfl, rfl, rfl⟩
    · intro lane _
      split
      · next hlane =>
        simp only [Bool.and_eq_true, decide_eq_true_eq] at hlane
        exact fun _ => hlane.2
      · exact fun hl => hl
    · intro row _
      split <;> exact ⟨rfl, rfl⟩
    · intro row _
      split
      · next hrow =>
        simp only [JobSession.isActiveOf, Bool.and_eq_true, decide_eq_true_eq] at hrow
        exact fun _ => hrow.2
      · exact fun hr => hr
    · intro row _ hstatus lane _ hid hactive
      by_cases hrow : row.isActiveOf laneId = true
      · rw [if_pos hrow] at hstatus
        simp only [JobSession.isActiveOf, Bool.and_eq_true, decide_eq_true_eq] at hrow
        rw [if_pos (by simp [hid, hrow.1, hactive])]
        exact hstatus
      · rw [if_neg hrow] at hstatus
        have hother : lane.id ≠ laneId := by
          intro heq
          simp [JobSession.isActiveOf, hstatus, ← hid, heq] at hrow
        rw [if_neg (by simp [hother])]
        exact hactive
    · intro row hrow
      split
      · exact fun _ => rfl
      · exact h.leased row hrow
    · intro row _ t ht
      split at ht
      · cases ht
      · exact Or.inl ht
    · intro a ha b _ hat _
      split at hat
      · cases hat
      · exact absurd (h.drawn a ha _ hat) (lt_irrefl _)
    · intro row _
      split <;> simp [JobSession.clearLease]

/-! ## 4. Insertions -/

theorem SessionsSound.of_insertSessionLane {row : SessionLane} {db' : SessionDb}
    (h : SessionsSound db) (hc : HopsCounted db advances) (hid : row.id = db.laneIds + 1)
    (hins : db.insertSessionLane row = some db') :
    SessionProgress db db' advances := by
  unfold SessionDb.insertSessionLane at hins
  split at hins
  · cases hins
  · next hfree =>
    obtain rfl := Option.some.inj hins
    have hnone : ∀ a ∈ db.lanes, a.status = .active → a.workItemId = row.workItemId →
        a.lane = row.lane → a.skillKey ≠ row.skillKey := by
      intro a ha hactive hwi hlane hskill
      refine hfree (List.any_eq_true.2 ⟨a, ha, ?_⟩)
      simp [SessionLane.isActiveAt, hactive, hwi, hlane, hskill]
    refine ⟨⟨?_, ?_, h.sessionBound, h.sessionOnce, ?_, h.oneSession, ?_, h.drawn, h.oneHolder,
      h.leased⟩, ⟨hc.hops, hc.known⟩, le_refl _, ?_, ?_⟩
    · intro lane hlane
      rcases List.mem_append.1 hlane with
        hold
      | hnew
      · have hle : lane.id ≤ db.laneIds := h.laneBound lane hold
        dsimp only
        omega
      · rw [List.mem_singleton.1 hnew]
    · rw [List.map_append, List.nodup_append]
      refine ⟨h.laneOnce, by simp, ?_⟩
      intro i hi j hj
      rcases List.mem_map.1 hi with ⟨lane, hlane, rfl⟩
      have hle : lane.id ≤ db.laneIds := h.laneBound lane hlane
      simp only [List.map_cons, List.map_nil, List.mem_singleton] at hj
      omega
    · intro a ha b hb hsa hsb hwi hlane hskill
      rcases List.mem_append.1 ha with
        haold
      | hanew
      · rcases List.mem_append.1 hb with
          hbold
        | hbnew
        · exact h.oneLane a haold b hbold hsa hsb hwi hlane hskill
        · rw [List.mem_singleton.1 hbnew] at hwi hlane hskill
          exact absurd hskill (hnone a haold hsa hwi hlane)
      · rcases List.mem_append.1 hb with
          hbold
        | hbnew
        · rw [List.mem_singleton.1 hanew] at hwi hlane hskill
          exact absurd hskill.symm (hnone b hbold hsb hwi.symm hlane.symm)
        · rw [List.mem_singleton.1 hanew, List.mem_singleton.1 hbnew]
    · intro session hsession hactive
      rcases h.parent session hsession hactive with ⟨lane, hlane, hparent⟩
      exact ⟨lane, List.mem_append_left _ hlane, hparent⟩
    · exact fun session hsession _ _ ht => ⟨session, hsession, rfl, ht⟩
    · exact fun lane hlane hclosed => ⟨lane, List.mem_append_left _ hlane, rfl, hclosed⟩

theorem SessionsSound.of_insertJobSession {row : JobSession} {db' : SessionDb}
    (h : SessionsSound db) (hc : HopsCounted db advances) (hid : row.id = db.sessionIds + 1)
    (hnew : row.hopCount = 0 ∧ row.leaseToken = none)
    (hparent : ∃ lane ∈ db.lanes, lane.id = row.laneId ∧ lane.status = .active)
    (hins : db.insertJobSession row = some db') : SessionProgress db db' advances := by
  unfold SessionDb.insertJobSession at hins
  split at hins
  · cases hins
  · next hfree =>
    obtain rfl := Option.some.inj hins
    have hnone : ∀ a ∈ db.sessions, a.status = .active → a.laneId ≠ row.laneId := by
      intro a ha hactive hlane
      refine hfree (List.any_eq_true.2 ⟨a, ha, ?_⟩)
      simp [JobSession.isActiveOf, hactive, hlane]
    -- a token is on a row there was
    have hheld : ∀ a ∈ db.sessions ++ [row], ∀ t, a.leaseToken = some t → a ∈ db.sessions := by
      intro a ha t ht
      rcases List.mem_append.1 ha with
        hold
      | hlast
      · exact hold
      · rw [List.mem_singleton.1 hlast, hnew.2] at ht
        cases ht
    refine ⟨⟨h.laneBound, h.laneOnce, ?_, ?_, h.oneLane, ?_, ?_, ?_, ?_, ?_⟩, ⟨?_, ?_⟩,
      le_refl _, ?_, fun lane hlane hclosed => ⟨lane, hlane, rfl, hclosed⟩⟩
    · intro a ha
      rcases List.mem_append.1 ha with
        hold
      | hlast
      · have hle : a.id ≤ db.sessionIds := h.sessionBound a hold
        dsimp only
        omega
      · rw [List.mem_singleton.1 hlast]
    · rw [List.map_append, List.nodup_append]
      refine ⟨h.sessionOnce, by simp, ?_⟩
      intro i hi j hj
      rcases List.mem_map.1 hi with ⟨a, ha, rfl⟩
      have hle : a.id ≤ db.sessionIds := h.sessionBound a ha
      simp only [List.map_cons, List.map_nil, List.mem_singleton] at hj
      omega
    · intro a ha b hb hsa hsb hlane
      rcases List.mem_append.1 ha with
        haold
      | hanew
      · rcases List.mem_append.1 hb with
          hbold
        | hbnew
        · exact h.oneSession a haold b hbold hsa hsb hlane
        · rw [List.mem_singleton.1 hbnew] at hlane
          exact absurd hlane (hnone a haold hsa)
      · rcases List.mem_append.1 hb with
          hbold
        | hbnew
        · rw [List.mem_singleton.1 hanew] at hlane
          exact absurd hlane.symm (hnone b hbold hsb)
        · rw [List.mem_singleton.1 hanew, List.mem_singleton.1 hbnew]
    · intro a ha hactive
      rcases List.mem_append.1 ha with
        hold
      | hlast
      · exact h.parent a hold hactive
      · rw [List.mem_singleton.1 hlast]
        exact hparent
    · exact fun a ha t ht => h.drawn a (hheld a ha t ht) t ht
    · exact fun a ha b hb t hat hbt =>
        h.oneHolder a (hheld a ha t hat) b (hheld b hb t hbt) t hat hbt
    · intro a ha hstatus
      rcases List.mem_append.1 ha with
        hold
      | hlast
      · exact h.leased a hold hstatus
      · rw [List.mem_singleton.1 hlast]
        exact hnew.2
    · intro a ha
      rcases List.mem_append.1 ha with
        hold
      | hlast
      · exact hc.hops a hold
      · have hfresh : row.id ∉ advances := by
          intro hmem
          have hle : row.id ≤ db.sessionIds := hc.known _ hmem
          omega
        rw [List.mem_singleton.1 hlast, hnew.1, List.count_eq_zero_of_not_mem hfresh]
    · intro i hi
      have hle : i ≤ db.sessionIds := hc.known i hi
      dsimp only
      omega
    · exact fun a ha t _ ht => ⟨a, hheld a ha t ht, rfl, ht⟩

/-! ## 5. Functions -/

/-- Nothing happens. -/
theorem SessionProgress.refl (h : SessionsSound db) (hc : HopsCounted db advances) :
    SessionProgress db db advances :=
  ⟨h, hc, Later.refl db⟩

theorem SessionProgress.trans {db' db'' : SessionDb} {advances' : List ℕ}
    (h : SessionProgress db db' advances) (h' : SessionProgress db' db'' advances') :
    SessionProgress db db'' advances' :=
  ⟨h'.sound, h'.counted, h.later.trans h'.later⟩

theorem invalidateSessionLane_progress (h : SessionsSound db) (hc : HopsCounted db advances) :
    SessionProgress db (db.invalidateSessionLane laneId reason status ts).1 advances := by
  rcases invalidateSessionLane_edit h with ⟨lg, g, he⟩
  simpa using he.progress h hc

theorem createSessionLane_progress (h : SessionsSound db) (hc : HopsCounted db advances)
    (args : EnsureLaneArgs) (provider contractFingerprint : String) (contractChanged : Bool) :
    SessionProgress db
      (db.createSessionLane args provider contractFingerprint contractChanged ts).1 advances := by
  unfold SessionDb.createSessionLane
  dsimp only
  split
  · next hins => exact h.of_insertSessionLane hc rfl hins
  · split <;> exact SessionProgress.refl h hc

theorem ensureSessionLane_progress (toLowerCase : String → String) (h : SessionsSound db)
    (hc : HopsCounted db advances) (args : EnsureLaneArgs) :
    SessionProgress db (db.ensureSessionLane toLowerCase args ts).1 advances := by
  unfold SessionDb.ensureSessionLane
  dsimp only
  split
  · exact SessionProgress.refl h hc
  · split
    · exact createSessionLane_progress h hc args _ _ _
    · split
      · next existing _ _ =>
        have hclosed : SessionProgress db
            (db.invalidateSessionLane existing.id "contract_changed" .invalidated ts).1 advances :=
          invalidateSessionLane_progress h hc
        exact hclosed.trans (createSessionLane_progress hclosed.sound hclosed.counted args _ _ _)
      · exact SessionProgress.refl h hc

theorem recordInitialSessionHandle_progress (h : SessionsSound db) (hc : HopsCounted db advances)
    (args : RecordHandleArgs) :
    SessionProgress db (db.recordInitialSessionHandle args ts).1 advances := by
  unfold SessionDb.recordInitialSessionHandle
  split
  · exact SessionProgress.refl h hc
  · cases hlane : lookup (·.id) args.laneId db.lanes with
    | none => exact SessionProgress.refl h hc
    | some lane =>
      dsimp only
      split
      · exact SessionProgress.refl h hc
      · next hactive =>
        cases db.getActiveSessionForLane lane.id with
        | some existing => exact SessionProgress.refl h hc
        | none =>
          dsimp only
          split
          · next hins =>
            exact h.of_insertJobSession hc rfl ⟨rfl, rfl⟩
              ⟨lane, lookup_mem hlane, rfl, not_not.1 hactive⟩ hins
          · exact SessionProgress.refl h hc

theorem proceed_progress (h : SessionsSound db) (hc : HopsCounted db advances)
    (task : SessionTask) : SessionProgress db (db.proceed ts date task).1 advances := by
  cases task with
  | acquiring session jobId leaseTtlSec =>
    simp only [SessionDb.proceed]
    split
    · exact SessionProgress.refl h hc
    · rcases leaseSessionHandle_edit h with ⟨g, he⟩
      simpa using he.progress h hc
  | marking sessionId status reason =>
    rcases setSessionStatus_edit h with ⟨g, he⟩
    simpa [SessionDb.proceed] using he.progress h hc
  | expiring rows reason started =>
    cases rows with
    | nil => exact SessionProgress.refl h hc
    | cons row rows =>
      rcases clearStaleLease_edit h with ⟨g, he⟩
      simpa [SessionDb.proceed] using he.progress h hc

end Statements

/-! ## 6. Runs -/

section Runs

variable {s : SessionState} {toLowerCase : String → String}

theorem SessionState.start_db (worker : ℕ) (task : Option SessionTask) :
    (s.start worker task).db = s.db := by
  unfold SessionState.start
  split <;> rfl

theorem SessionState.start_advances (worker : ℕ) (task : Option SessionTask) :
    (s.start worker task).advances = s.advances := by
  unfold SessionState.start
  split <;> rfl

/-- The invariant of a run. -/
def SessionState.Sound (s : SessionState) : Prop :=
  SessionsSound s.db ∧ HopsCounted s.db s.advances

/-- What every step keeps, and what is over after it. -/
theorem sessionStep_progress (h : s.Sound) (op : SessionOp) :
    SessionProgress s.db (sessionStep toLowerCase s op).db
      (sessionStep toLowerCase s op).advances := by
  rcases h with ⟨hs, hc⟩
  have hstart : ∀ worker task, SessionProgress s.db (s.start worker task).db
      (s.start worker task).advances := by
    intro worker task
    rw [SessionState.start_db, SessionState.start_advances]
    exact SessionProgress.refl hs hc
  cases op with
  | ensureSessionLane args ts => exact ensureSessionLane_progress toLowerCase hs hc args
  | invalidateSessionLane laneId reason status ts => exact invalidateSessionLane_progress hs hc
  | recordInitialSessionHandle args ts => exact recordInitialSessionHandle_progress hs hc args
  | acquireSessionHandle worker laneId jobId leaseTtlSec => exact hstart _ _
  | markSessionStatus worker sessionId status reason => exact hstart _ _
  | expireStaleSessionLeases worker reason ts => exact hstart _ _
  | proceed worker ts date =>
    simp only [sessionStep]
    cases s.tasks worker with
    | none => exact SessionProgress.refl hs hc
    | some task => exact proceed_progress hs hc task
  | releaseSessionHandle sessionId leaseToken ts =>
    rcases releaseSessionHandle_edit hs with ⟨g, he⟩
    simpa [sessionStep] using he.progress hs hc
  | renewSessionHandleLease sessionId leaseToken jobId leaseTtlSec ts date =>
    rcases renewSessionHandleLease_edit hs jobId with ⟨g, he⟩
    simpa [sessionStep] using he.progress hs hc
  | advanceSessionHandle args ts =>
    simp only [sessionStep]
    rcases advanceSessionHandle_edit hs args with
      ⟨hnone, hsame⟩
    | ⟨hsome, g, he⟩
    · cases hres : s.db.advanceSessionHandle args ts with
      | mk db result =>
        rw [hres] at hnone hsame
        simp only at hnone hsame
        subst hnone hsame
        exact SessionProgress.refl hs hc
    · cases hres : s.db.advanceSessionHandle args ts with
      | mk db result =>
        rw [hres] at hsome he
        cases result with
        | none => exact absurd rfl hsome
        | some row => exact he.progress hs hc

theorem SessionState.Sound.run (h : s.Sound) (ops : List SessionOp) :
    (Runs.run (sessionStep toLowerCase) s ops).Sound := by
  have hstep : ∀ t op, SessionState.Sound t → SessionState.Sound (sessionStep toLowerCase t op) :=
    fun t op ht => ⟨(sessionStep_progress ht op).sound, (sessionStep_progress ht op).counted⟩
  exact Runs.run_invariant_of_forall hstep h

theorem SessionState.Sound.later (h : s.Sound) (ops : List SessionOp) :
    Later s.db (Runs.run (sessionStep toLowerCase) s ops).db := by
  have hinv : ∀ t op, SessionState.Sound t → True →
      SessionState.Sound (sessionStep toLowerCase t op) :=
    fun t op ht _ => ⟨(sessionStep_progress ht op).sound, (sessionStep_progress ht op).counted⟩
  have hstep : ∀ t op, SessionState.Sound t → True →
      Later t.db (sessionStep toLowerCase t op).db :=
    fun t op ht _ => (sessionStep_progress ht op).later
  have hall : Runs.Meets (sessionStep toLowerCase) (fun _ _ => True) s ops :=
    Runs.Meets.of_forall (fun _ _ => trivial) s ops
  exact Runs.run_rel (R := fun t u => Later t.db u.db) (fun t => Later.refl t.db)
    (fun _ _ _ => Later.trans) hinv hstep h hall

theorem SessionState.sound_init : SessionState.Sound {} := by
  constructor
  · constructor <;> simp
  · constructor <;> simp

end Runs

/-! ## 7. Owners -/

/-- The session holds the token. -/
def SessionDb.Holds (db : SessionDb) (sessionId token : ℕ) : Prop :=
  ∃ row ∈ db.sessions, row.id = sessionId ∧ row.leaseToken = some token

/-- Nothing can be renewed, released or advanced with the token. -/
def SessionDb.Refuses (db : SessionDb) (token : ℕ) : Prop :=
  (∀ sessionId jobId ttl ts date,
    (db.renewSessionHandleLease sessionId (some token) jobId ttl ts date).2 = false) ∧
  (∀ sessionId ts, (db.releaseSessionHandle sessionId (some token) ts).2 = 0) ∧
  ∀ args ts, args.leaseToken = some token → (db.advanceSessionHandle args ts).2 = none

/-- A token on no session is refused. -/
theorem SessionDb.refuses_of_not_holds {db : SessionDb} {token : ℕ}
    (h : ∀ sessionId, ¬ db.Holds sessionId token) : db.Refuses token := by
  have hnone : ∀ sessionId, ∀ row ∈ db.sessions,
      row.isLeasedWith sessionId (some token) = false := by
    intro sessionId row hrow
    rw [Bool.eq_false_iff]
    intro hleased
    rcases JobSession.isLeasedWith_iff.1 hleased with ⟨hid, -, htoken, -⟩
    exact h sessionId ⟨row, hrow, hid, htoken⟩
  refine ⟨?_, ?_, ?_⟩
  · intro sessionId jobId ttl ts date
    simp only [SessionDb.renewSessionHandleLease, decide_eq_false_iff_not, not_lt,
      Nat.le_zero, changes_eq_zero_iff]
    intro row hrow
    rw [hnone sessionId row hrow, Bool.false_and]
  · intro sessionId ts
    exact changes_eq_zero_iff.2 (hnone sessionId)
  · intro args ts htoken
    have hzero : changes (fun row => row.isLeasedWith args.sessionId args.leaseToken)
        db.sessions = 0 := by
      rw [htoken]
      exact changes_eq_zero_iff.2 (hnone args.sessionId)
    simp [SessionDb.advanceSessionHandle, hzero]

/-- The state after a run from empty tables. -/
def sessionsAfter (toLowerCase : String → String) (ops : List SessionOp) : SessionState :=
  Runs.run (sessionStep toLowerCase) {} ops

section Owners

variable {db : SessionDb} {toLowerCase : String → String}

theorem SessionsSound.one_lane (h : SessionsSound db) (workItemId : ℕ) (lane skillKey : String) :
    (select (·.isActiveAt workItemId lane skillKey) db.lanes).length ≤ 1 := by
  refine length_select_le_one h.laneOnce fun a ha b hb hat hbt => ?_
  simp only [SessionLane.isActiveAt, Bool.and_eq_true, decide_eq_true_eq] at hat hbt
  rcases hat with ⟨⟨⟨hawi, halane⟩, haskill⟩, hastatus⟩
  rcases hbt with ⟨⟨⟨hbwi, hblane⟩, hbskill⟩, hbstatus⟩
  exact h.oneLane a ha b hb hastatus hbstatus (hawi.trans hbwi.symm) (halane.trans hblane.symm)
    (haskill.trans hbskill.symm)

theorem SessionsSound.one_session (h : SessionsSound db) (laneId : ℕ) :
    (select (·.isActiveOf laneId) db.sessions).length ≤ 1 := by
  refine length_select_le_one h.sessionOnce fun a ha b hb hat hbt => ?_
  simp only [JobSession.isActiveOf, Bool.and_eq_true, decide_eq_true_eq] at hat hbt
  exact h.oneSession a ha b hb hat.2 hbt.2 (hat.1.trans hbt.1.symm)

/-- An advance succeeds with the token its session holds. -/
theorem SessionDb.holds_of_advance {args : AdvanceHandleArgs} {ts : ℤ}
    (h : (db.advanceSessionHandle args ts).2 ≠ none) :
    ∃ token, args.leaseToken = some token ∧ db.Holds args.sessionId token := by
  by_cases hzero : changes (fun row => row.isLeasedWith args.sessionId args.leaseToken)
      db.sessions = 0
  · simp [SessionDb.advanceSessionHandle, hzero] at h
  · rcases changes_pos_iff.1 (Nat.pos_of_ne_zero hzero) with ⟨row, hrow, htarget⟩
    rcases JobSession.isLeasedWith_iff.1 htarget with ⟨hid, hsome, htoken, -⟩
    rcases Option.ne_none_iff_exists'.1 hsome with ⟨token, hargs⟩
    exact ⟨token, hargs, row, hrow, hid, htoken.trans hargs⟩

/-- A session that holds no token is not advanced. -/
theorem SessionsSound.not_advanced (h : SessionsSound db) {row : JobSession}
    (hrow : row ∈ db.sessions) (htoken : row.leaseToken = none) {args : AdvanceHandleArgs} {ts : ℤ}
    (hid : args.sessionId = row.id) : (db.advanceSessionHandle args ts).2 = none := by
  by_contra hadvanced
  rcases SessionDb.holds_of_advance hadvanced with ⟨token, -, held, hheld, hheldId, hheldToken⟩
  have hsame : held = row := eq_of_key_eq h.sessionOnce hheld hrow (hheldId.trans hid)
  rw [hsame, htoken] at hheldToken
  cases hheldToken

/-- A token that has left its session is on no session, then and later. -/
theorem SessionsSound.not_holds (h : SessionsSound db) {db' db'' : SessionDb} {i t : ℕ}
    (hholds : db.Holds i t) (hleft : ¬ db'.Holds i t) (hlater : Later db db')
    (hlater' : Later db' db'') (j : ℕ) : ¬ db''.Holds j t := by
  rcases hholds with ⟨row, hrow, hid, htoken⟩
  have hdrawn : t < db.tokens := h.drawn row hrow t htoken
  rintro ⟨row'', hrow'', _, htoken''⟩
  have hdrawn' : t < db'.tokens := lt_of_lt_of_le hdrawn hlater.tokens_le
  rcases hlater'.held row'' hrow'' t hdrawn' htoken'' with ⟨row', hrow', _, htoken'⟩
  rcases hlater.held row' hrow' t hdrawn htoken' with ⟨held, hheld, hheldId, hheldToken⟩
  have hsame : held = row := h.oneHolder held hheld row hrow t hheldToken htoken
  exact hleft ⟨row', hrow', by rw [← hheldId, hsame, hid], htoken'⟩

/-- The session of a closed lane is not active. -/
theorem SessionsSound.inactive_of_closed (h : SessionsSound db) {lane : SessionLane}
    (hlane : lane ∈ db.lanes) (hclosed : lane.status ≠ .active) {row : JobSession}
    (hrow : row ∈ db.sessions) (hof : row.laneId = lane.id) : row.status ≠ .active := by
  intro hactive
  rcases h.parent row hrow hactive with ⟨parent, hparent, hid, hparentActive⟩
  have hsame : parent = lane := eq_of_key_eq h.laneOnce hparent hlane (hid.trans hof)
  exact hclosed (hsame ▸ hparentActive)

end Owners

/-- **Session handles have one owner.**  After every run: at most one active lane per key, at most one
active session per lane, none of them under a closed lane; `hop_count` counts the successful
advances, each with the token the session held; a token that left its session is refused from then
on; and no session of a closed lane is leased or advanced again. -/
theorem session_handles_have_one_owner (toLowerCase : String → String) (ops : List SessionOp) :
    (∀ workItemId lane skillKey,
      (select (·.isActiveAt workItemId lane skillKey)
        (sessionsAfter toLowerCase ops).db.lanes).length ≤ 1) ∧
    (∀ laneId, (select (·.isActiveOf laneId)
      (sessionsAfter toLowerCase ops).db.sessions).length ≤ 1) ∧
    (∀ row ∈ (sessionsAfter toLowerCase ops).db.sessions, row.status = .active →
      ∃ lane ∈ (sessionsAfter toLowerCase ops).db.lanes,
        lane.id = row.laneId ∧ lane.status = .active) ∧
    (∀ row ∈ (sessionsAfter toLowerCase ops).db.sessions,
      row.hopCount = (sessionsAfter toLowerCase ops).advances.count row.id) ∧
    (∀ args ts, ((sessionsAfter toLowerCase ops).db.advanceSessionHandle args ts).2 ≠ none →
      ∃ token, args.leaseToken = some token ∧
        (sessionsAfter toLowerCase ops).db.Holds args.sessionId token) ∧
    (∀ more later i t, (sessionsAfter toLowerCase ops).db.Holds i t →
      ¬ (sessionsAfter toLowerCase (ops ++ more)).db.Holds i t →
      (sessionsAfter toLowerCase (ops ++ more ++ later)).db.Refuses t) ∧
    (∀ lane ∈ (sessionsAfter toLowerCase ops).db.lanes, lane.status ≠ .active →
      ∀ more, ∀ row ∈ (sessionsAfter toLowerCase (ops ++ more)).db.sessions,
        row.laneId = lane.id → row.leaseToken = none ∧
          ∀ args ts, args.sessionId = row.id →
            ((sessionsAfter toLowerCase (ops ++ more)).db.advanceSessionHandle args ts).2 =
              none) := by
  have hsound : ∀ as, (sessionsAfter toLowerCase as).Sound := fun as =>
    SessionState.sound_init.run as
  have hlater : ∀ as bs, Later (sessionsAfter toLowerCase as).db
      (sessionsAfter toLowerCase (as ++ bs)).db := by
    intro as bs
    unfold sessionsAfter
    rw [Runs.run_append]
    exact (hsound as).later bs
  have hs : SessionsSound (sessionsAfter toLowerCase ops).db := (hsound ops).1
  refine ⟨hs.one_lane, hs.one_session, hs.parent, (hsound ops).2.hops,
    fun args ts => SessionDb.holds_of_advance, ?_, ?_⟩
  · intro more later i t hholds hleft
    exact SessionDb.refuses_of_not_holds
      (hs.not_holds hholds hleft (hlater ops more) (hlater (ops ++ more) later))
  · intro lane hlane hclosed more row hrow hof
    have hs' : SessionsSound (sessionsAfter toLowerCase (ops ++ more)).db := (hsound _).1
    rcases (hlater ops more).closed lane hlane hclosed with ⟨lane', hlane', hid, hclosed'⟩
    have hinactive : row.status ≠ .active :=
      hs'.inactive_of_closed hlane' hclosed' hrow (hof.trans hid.symm)
    have htoken : row.leaseToken = none := hs'.leased row hrow hinactive
    exact ⟨htoken, fun args ts => hs'.not_advanced hrow htoken⟩

end PosseClient
