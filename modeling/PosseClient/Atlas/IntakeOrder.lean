/-
# The order and the join of document intake

The runs of `OrderedDocumentIntake.js`.

* `IntakePre`: what holds before the pump runs and between its steps; `IntakeInv`: what holds after
  each call.
* `upNext`: the records that a pump gives to readers.
* **The join fails in one way**: a document that has SCIP commits, all of other hashes, is delivered
  or comes about after the delivery; `JoinsCleanly` says when neither happens.
-/
import PosseClient.Atlas.DocumentIntake

namespace PosseClient

open Table

/-! ## 1. Skipped records -/

section Lists

variable {α : Type*} {p : α → Bool} {l : List α}

/-- Entries that a filter drops do not count. -/
theorem filter_take_of_dropped {a b : ℕ} (hab : a ≤ b)
    (h : ∀ i x, a ≤ i → i < b → l[i]? = some x → p x = false) :
    (l.take b).filter p = (l.take a).filter p := by
  induction b, hab using Nat.le_induction with
  | base => rfl
  | succ b hab ih =>
    rw [List.take_add_one, List.filter_append,
      ih fun i x hi hlt hx => h i x hi (Nat.lt_succ_of_lt hlt) hx]
    cases hx : l[b]? with
    | none => simp
    | some x => simp [h b x hab (Nat.lt_succ_self b) hx]

theorem takeWhile_length_lt {i : ℕ} {x : α} (hi : i < (l.takeWhile p).length)
    (hx : l[i]? = some x) : p x = true := by
  induction l generalizing i with
  | nil => simp at hx
  | cons y l ih =>
    rw [List.takeWhile_cons] at hi
    split_ifs at hi with hy
    · cases i with
      | zero =>
        obtain rfl : y = x := by simpa using hx
        exact hy
      | succ i => exact ih (by simpa using hi) (by simpa using hx)
    · simp at hi

theorem takeWhile_length_stop {x : α} (hx : l[(l.takeWhile p).length]? = some x) :
    p x = false := by
  induction l with
  | nil => simp at hx
  | cons y l ih =>
    rw [List.takeWhile_cons] at hx
    split_ifs at hx with hy
    · exact ih (by simpa using hx)
    · obtain rfl : y = x := by simpa using hx
      simpa using hy

end Lists

section Advance

variable (s : Intake)

theorem le_advanced : s.processed ≤ s.advanceProcessedPastSkips.processed := Nat.le_add_right _ _

theorem advanced_skipped {i : ℕ} {r : IntakeRecord} (hle : s.processed ≤ i)
    (hlt : i < s.advanceProcessedPastSkips.processed) (hr : s.records[i]? = some r) :
    r.skipped = true := by
  obtain ⟨k, rfl⟩ := Nat.exists_eq_add_of_le hle
  have hk : k < ((s.records.drop s.processed).takeWhile (·.skipped)).length :=
    Nat.lt_of_add_lt_add_left hlt
  refine takeWhile_length_lt (p := fun r : IntakeRecord => r.skipped) hk ?_
  rw [List.getElem?_drop]
  exact hr

theorem advanced_stop {r : IntakeRecord}
    (hr : s.records[s.advanceProcessedPastSkips.processed]? = some r) : r.skipped = false := by
  refine takeWhile_length_stop (l := s.records.drop s.processed)
    (p := fun r : IntakeRecord => r.skipped) ?_
  rw [List.getElem?_drop]
  exact hr

theorem advanced_le (h : s.processed ≤ s.records.length) :
    s.advanceProcessedPastSkips.processed ≤ s.records.length := by
  have hlen : ((s.records.drop s.processed).takeWhile (·.skipped)).length ≤
      (s.records.drop s.processed).length := (List.takeWhile_prefix _).length_le
  rw [List.length_drop] at hlen
  change s.processed + _ ≤ _
  omega

end Advance

/-! ## 2. Before and during a pump -/

/-- A record that is not skipped. -/
def IntakeRecord.kept (r : IntakeRecord) : Bool := !r.skipped

structure IntakePre (s : Intake) : Prop where
  ordinals : ∀ i (r : IntakeRecord), s.records[i]? = some r → r.ordinal = i
  paths : (s.records.map (·.repoRelPath)).Nodup
  cursor : s.cursor ≤ s.records.length
  delivered : s.delivered.map (fun d => (d.ordinal, d.repoRelPath)) =
    ((s.records.take s.cursor).filter (·.kept)).map
      fun r : IntakeRecord => (r.ordinal, r.repoRelPath)
  passed : ∀ r ∈ s.records.take s.cursor, r.skipped = false → r.treeSitter.isSome = true
  joined : ∀ d ∈ s.delivered, d.treeSitter = some d.contentHash ∧
    (d.contentHash ∈ d.scipHashes ∨ d.scipHashes = [] ∧ d.scipAbsent = true)
  count : ((s.records.take s.processed).filter (·.kept)).length = s.processedDocuments
  processed : s.processed ≤ s.records.length
  ahead : ∀ i (r : IntakeRecord), s.cursor ≤ i → i < s.processed → s.records[i]? = some r → r.skipped = true
  behind : ∀ r : IntakeRecord, s.records[s.processed]? = some r → r.skipped = true → s.processed = s.cursor
  finished : s.treeSitterFinished = true → s.registered = true ∧
    ∀ r ∈ s.records, r.treeSitter = none → r.skipped = true
  unregistered : s.registered = false → s.records = []
  closed : s.closed = true → s.treeSitterFinished = true ∧ s.scipFinished = true ∧
    s.cursor = s.records.length ∧ s.readers = 0
  ended : none ∈ s.answers → s.closed = true

/-- What the pump leaves: the record at the cursor waits for its sides or for a reader, or there is
none and nothing more to come. -/
structure IntakeInv (s : Intake) : Prop extends IntakePre s where
  head : ∀ r : IntakeRecord, s.records[s.cursor]? = some r → r.skipped = false ∧
    (r.ready s.scipFinished = true → s.readers = 0)
  done : s.treeSitterFinished = true → s.scipFinished = true → s.cursor = s.records.length →
    s.closed = true

/-- The records that the loop of the pump gives to readers. -/
def upNext (scipFinished : Bool) : ℕ → List IntakeRecord → List IntakeRecord
  | readers, record :: rest =>
    if record.skipped then upNext scipFinished readers rest
    else if !record.ready scipFinished || readers == 0 then []
    else record :: upNext scipFinished (readers - 1) rest
  | _, [] => []

/-- The records that a pump gives to readers. -/
def Intake.upNext (s : Intake) : List IntakeRecord :=
  if s.closed || !s.registered then []
  else PosseClient.upNext s.scipFinished s.readers (s.records.drop s.cursor)

theorem mismatched_eq_false {r : IntakeRecord} {hash : String} (hhash : r.treeSitter = some hash) :
    r.mismatched = false ↔ r.scipHashes = [] ∨ hash ∈ r.scipHashes := by
  unfold IntakeRecord.mismatched
  rw [hhash]
  simp only [Bool.and_eq_false_iff, Bool.not_eq_false', List.isEmpty_iff, List.contains_iff_mem]

section Pump

variable {s : Intake} {r : IntakeRecord}

theorem take_cursor_succ (hr : s.records[s.cursor]? = some r) :
    s.records.take (s.cursor + 1) = s.records.take s.cursor ++ [r] := by
  rw [List.take_add_one, hr]
  rfl

theorem IntakePre.open_of_cursor (h : IntakePre s) (hr : s.records[s.cursor]? = some r) :
    s.closed = false := by
  have hlt : s.cursor < s.records.length := (List.getElem?_eq_some_iff.mp hr).1
  cases hc : s.closed with
  | false => rfl
  | true =>
    have hend := (h.closed hc).2.2.1
    omega

theorem IntakePre.passSkipped (h : IntakePre s) (hr : s.records[s.cursor]? = some r)
    (hskipped : r.skipped = true) : IntakePre (s.passSkipped r) := by
  have hlt : s.cursor < s.records.length := (List.getElem?_eq_some_iff.mp hr).1
  have hfilter : (s.records.take (s.cursor + 1)).filter (·.kept) =
      (s.records.take s.cursor).filter (·.kept) := by
    rw [take_cursor_succ hr, List.filter_append]
    simp [IntakeRecord.kept, hskipped]
  -- where the processed cursor may stand afterwards
  have hmove : ∀ processed, s.processed ≤ processed → processed ≤ s.records.length →
      (∀ i x, s.processed ≤ i → i < processed → s.records[i]? = some x → x.skipped = true) →
      (∀ i x, s.cursor + 1 ≤ i → i < processed → s.records[i]? = some x → x.skipped = true) →
      (∀ x, s.records[processed]? = some x → x.skipped = true → processed = s.cursor + 1) →
      IntakePre { s with cursor := s.cursor + 1, processed := processed } := by
    intro processed hge hle hbetween hahead hbehind
    have hclosed := h.open_of_cursor hr
    refine ⟨h.ordinals, h.paths, hlt, ?_, fun x hx hkept => ?_, h.joined, ?_, hle, hahead, hbehind,
      h.finished, h.unregistered, fun hc => ?_, h.ended⟩
    · change _ = ((s.records.take (s.cursor + 1)).filter (·.kept)).map _
      rw [hfilter]
      exact h.delivered
    · rw [take_cursor_succ hr, List.mem_append, List.mem_singleton] at hx
      rcases hx with hx | rfl
      · exact h.passed x hx hkept
      · rw [hskipped] at hkept
        cases hkept
    · refine (congrArg List.length (filter_take_of_dropped hge fun i x hi hlt hx => ?_)).trans h.count
      simp [IntakeRecord.kept, hbetween i x hi hlt hx]
    · rw [hclosed] at hc
      cases hc
  unfold Intake.passSkipped
  dsimp only
  rw [h.ordinals _ _ hr]
  split_ifs with hnext
  · -- the record is the next to be processed too
    generalize hbefore : ({ s with cursor := s.cursor + 1, processed := s.processed + 1 } : Intake) = t
    have hrecords : t.records = s.records := by rw [← hbefore]
    have hstart : t.processed = s.processed + 1 := by rw [← hbefore]
    have hge := le_advanced t
    have hle : t.advanceProcessedPastSkips.processed ≤ t.records.length := by
      refine advanced_le t ?_
      rw [hstart, hrecords]
      omega
    have hskip : ∀ i x, s.cursor + 1 ≤ i → i < t.advanceProcessedPastSkips.processed →
        s.records[i]? = some x → x.skipped = true := by
      intro i x hi hlt hx
      exact advanced_skipped t (by omega) hlt (by rw [hrecords]; exact hx)
    have hmoved := hmove t.advanceProcessedPastSkips.processed (by omega)
      (by rw [← hrecords]; exact hle) (fun i x hi hlt hx => ?_) hskip fun x hx hx' => ?_
    · rw [← hbefore] at hmoved ⊢
      exact hmoved
    · by_cases hi' : i = s.cursor
      · subst hi'
        rw [hr] at hx
        exact Option.some.inj hx ▸ hskipped
      · exact hskip i x (by omega) hlt hx
    · have hstop : x.skipped = false := advanced_stop t (by rw [hrecords]; exact hx)
      rw [hstop] at hx'
      cases hx'
  · refine hmove s.processed le_rfl h.processed (fun i _ hi hlt => by omega)
      (fun i x hi hlt hx => h.ahead i x (by omega) hlt hx) fun x hx hx' => ?_
    exact absurd (h.behind x hx hx').symm hnext

theorem IntakePre.deliver (h : IntakePre s) (hr : s.records[s.cursor]? = some r)
    (hkept : r.skipped = false) (hready : r.ready s.scipFinished = true)
    (hjoins : r.mismatched = false) : IntakePre (s.deliver r) := by
  have hlt : s.cursor < s.records.length := (List.getElem?_eq_some_iff.mp hr).1
  obtain ⟨hash, hhash⟩ : ∃ hash, r.treeSitter = some hash := by
    cases hts : r.treeSitter with
    | none =>
      rw [IntakeRecord.ready, hts] at hready
      cases hready
    | some hash => exact ⟨hash, rfl⟩
  have hdelivered : (s.deliver r).delivered = s.delivered ++ [r.document s.scipFinished] := by
    simp [Intake.deliver, Intake.delivered]
  have hclosed := h.open_of_cursor hr
  refine ⟨h.ordinals, h.paths, hlt, ?_, fun x hx hkept' => ?_, fun d hd => ?_, h.count, h.processed,
    fun i x hi hlt hx => h.ahead i x (Nat.le_of_succ_le hi) hlt hx, fun x hx hx' => ?_, h.finished,
    h.unregistered, fun hc => ?_, fun hnone => ?_⟩
  · rw [hdelivered, List.map_append, h.delivered]
    change _ = ((s.records.take (s.cursor + 1)).filter (·.kept)).map _
    rw [take_cursor_succ hr, List.filter_append]
    simp [IntakeRecord.kept, hkept, IntakeRecord.document]
  · change x ∈ s.records.take (s.cursor + 1) at hx
    rw [take_cursor_succ hr, List.mem_append, List.mem_singleton] at hx
    rcases hx with hx | rfl
    · exact h.passed x hx hkept'
    · rw [hhash]
      rfl
  · rw [hdelivered, List.mem_append, List.mem_singleton] at hd
    rcases hd with hd | rfl
    · exact h.joined d hd
    · -- ready, and not for commits of other hashes
      rw [IntakeRecord.ready, hhash] at hready
      change r.treeSitter = some (r.treeSitter.getD "") ∧
        (r.treeSitter.getD "" ∈ r.scipHashes ∨ r.scipHashes = [] ∧ _)
      rw [hhash, Option.getD_some]
      refine ⟨rfl, ?_⟩
      rcases (mismatched_eq_false hhash).mp hjoins with hnil | hmem
      · rw [hnil] at hready
        exact Or.inr ⟨hnil, by simpa [IntakeRecord.document] using hready⟩
      · exact Or.inl hmem
  · have hat : s.processed = s.cursor := h.behind x hx hx'
    rw [show (s.deliver r).processed = s.processed from rfl, hat] at hx
    change s.records[s.cursor]? = some x at hx
    rw [hr] at hx
    obtain rfl := Option.some.inj hx
    rw [hkept] at hx'
    cases hx'
  · change s.closed = true at hc
    rw [hclosed] at hc
    cases hc
  · refine h.ended ?_
    have hmem : none ∈ s.answers ++ [some (r.document s.scipFinished)] := hnone
    simpa using hmem

/-- The loop of the pump keeps what holds, and stops where the next record has to wait. -/
theorem IntakePre.pumpLoop {rest : List IntakeRecord} {s : Intake} (h : IntakePre s)
    (hrest : s.records.drop s.cursor = rest)
    (hjoins : ∀ r ∈ PosseClient.upNext s.scipFinished s.readers rest, r.mismatched = false) :
    IntakePre (pumpLoop rest s) ∧
      ∀ r : IntakeRecord, (PosseClient.pumpLoop rest s).records[(PosseClient.pumpLoop rest s).cursor]? =
        some r → r.skipped = false ∧
        (r.ready (pumpLoop rest s).scipFinished = true → (pumpLoop rest s).readers = 0) := by
  induction rest generalizing s with
  | nil =>
    refine ⟨h, fun r hr => ?_⟩
    have hlt : s.cursor < s.records.length := (List.getElem?_eq_some_iff.mp hr).1
    have hlen := congrArg List.length hrest
    rw [List.length_drop, List.length_nil] at hlen
    omega
  | cons record rest ih =>
    have hr : s.records[s.cursor]? = some record := by
      have hhead : (s.records.drop s.cursor)[0]? = some record := by rw [hrest]; rfl
      rw [List.getElem?_drop] at hhead
      exact hhead
    have hdrop : s.records.drop (s.cursor + 1) = rest := by
      rw [← List.tail_drop, hrest]
      rfl
    rw [PosseClient.pumpLoop]
    rw [PosseClient.upNext] at hjoins
    by_cases hskipped : record.skipped = true
    · rw [if_pos hskipped] at hjoins ⊢
      have hsame : (s.passSkipped record).records = s.records ∧
          (s.passSkipped record).cursor = s.cursor + 1 ∧
          (s.passSkipped record).scipFinished = s.scipFinished ∧
          (s.passSkipped record).readers = s.readers := by
        unfold Intake.passSkipped
        dsimp only
        split_ifs <;> exact ⟨rfl, rfl, rfl, rfl⟩
      refine ih (h.passSkipped hr hskipped) ?_ ?_
      · rw [hsame.1, hsame.2.1, hdrop]
      · rw [hsame.2.2.1, hsame.2.2.2]
        exact hjoins
    · rw [if_neg hskipped] at hjoins ⊢
      by_cases hwait : (!record.ready s.scipFinished || s.readers == 0) = true
      · rw [if_pos hwait]
        refine ⟨h, fun r hr' => ?_⟩
        obtain rfl := Option.some.inj (hr.symm.trans hr')
        refine ⟨Bool.eq_false_iff.mpr hskipped, fun hready => ?_⟩
        simpa [hready] using hwait
      · rw [if_neg hwait] at hjoins ⊢
        rw [Bool.or_eq_true, not_or, Bool.not_eq_true', Bool.not_eq_false] at hwait
        exact ih (h.deliver hr (Bool.eq_false_iff.mpr hskipped) hwait.1
          (hjoins record List.mem_cons_self)) hdrop
          fun r hr' => hjoins r (List.mem_cons_of_mem _ hr')

theorem closeIfDone_inv (h : IntakePre s)
    (hhead : ∀ r : IntakeRecord, s.records[s.cursor]? = some r → r.skipped = false ∧
      (r.ready s.scipFinished = true → s.readers = 0)) : IntakeInv s.closeIfDone := by
  unfold Intake.closeIfDone
  by_cases hlt : s.cursor < s.records.length
  · rw [if_pos hlt]
    exact ⟨h, hhead, fun _ _ hend => by omega⟩
  · rw [if_neg hlt]
    have hend : s.cursor = s.records.length := le_antisymm h.cursor (not_lt.mp hlt)
    by_cases hmore : (!s.treeSitterFinished || !s.scipFinished) = true
    · rw [if_pos hmore]
      refine ⟨h, hhead, fun hts hscip _ => ?_⟩
      rw [hts, hscip] at hmore
      cases hmore
    · rw [if_neg hmore]
      rw [Bool.or_eq_true, not_or, Bool.not_eq_true', Bool.not_eq_true', Bool.not_eq_false,
        Bool.not_eq_false] at hmore
      have hdelivered : (s.answers ++ List.replicate s.readers none).filterMap id = s.delivered := by
        rw [List.filterMap_append]
        have hnil : (List.replicate s.readers (none : Option DeliveredDocument)).filterMap id = [] := by
          simp
        rw [hnil, List.append_nil]
        rfl
      refine ⟨⟨h.ordinals, h.paths, h.cursor, ?_, h.passed, fun d hd => ?_, h.count, h.processed,
        h.ahead, h.behind, h.finished, h.unregistered, fun _ => ⟨hmore.1, hmore.2, hend, rfl⟩,
        fun _ => rfl⟩, fun r hr => ?_, fun _ _ _ => rfl⟩
      · change ((s.answers ++ List.replicate s.readers none).filterMap id).map _ = _
        rw [hdelivered]
        exact h.delivered
      · change d ∈ (s.answers ++ List.replicate s.readers none).filterMap id at hd
        rw [hdelivered] at hd
        exact h.joined d hd
      · have hin : s.cursor < s.records.length := (List.getElem?_eq_some_iff.mp hr).1
        exact absurd hin hlt

/-- **The pump** leads from what the calls leave to what holds after each call. -/
theorem IntakePre.pump (h : IntakePre s) (hjoins : ∀ r ∈ s.upNext, r.mismatched = false) :
    IntakeInv s.pump := by
  unfold Intake.pump
  unfold Intake.upNext at hjoins
  by_cases hidle : (s.closed || !s.registered) = true
  · rw [if_pos hidle]
    rw [Bool.or_eq_true, Bool.not_eq_true'] at hidle
    rcases hidle with hclosed | hunregistered
    · have hend := (h.closed hclosed).2.2.1
      refine ⟨h, fun r hr => ?_, fun _ _ _ => hclosed⟩
      have hlt : s.cursor < s.records.length := (List.getElem?_eq_some_iff.mp hr).1
      omega
    · refine ⟨h, fun r hr => ?_, fun hts _ _ => ?_⟩
      · rw [h.unregistered hunregistered] at hr
        cases hr
      · rw [(h.finished hts).1] at hunregistered
        cases hunregistered
  · rw [if_neg hidle] at hjoins ⊢
    obtain ⟨hpre, hhead⟩ := h.pumpLoop rfl hjoins
    exact closeIfDone_inv hpre hhead

/-- After a call nothing is left for the pump to give. -/
theorem IntakeInv.upNext_eq_nil (h : IntakeInv s) : s.upNext = [] := by
  unfold Intake.upNext
  split_ifs with hidle
  · rfl
  · cases hrest : s.records.drop s.cursor with
    | nil => rw [PosseClient.upNext]
    | cons record rest =>
      have hr : s.records[s.cursor]? = some record := by
        have hhead : (s.records.drop s.cursor)[0]? = some record := by rw [hrest]; rfl
        rw [List.getElem?_drop] at hhead
        exact hhead
      obtain ⟨hkept, hwait⟩ := h.head record hr
      rw [PosseClient.upNext, hkept]
      simp only [Bool.false_eq_true, if_false]
      refine if_pos ?_
      cases hready : record.ready s.scipFinished with
      | false => simp
      | true => simp [hwait hready]

theorem pumpLoop_delivered (rest : List IntakeRecord) (s : Intake) :
    (pumpLoop rest s).delivered = s.delivered ++
      (upNext s.scipFinished s.readers rest).map (·.document s.scipFinished) := by
  induction rest generalizing s with
  | nil => simp [pumpLoop, PosseClient.upNext]
  | cons record rest ih =>
    rw [PosseClient.pumpLoop, PosseClient.upNext]
    split_ifs
    · rw [ih]
      unfold Intake.passSkipped
      dsimp only
      split_ifs <;> rfl
    · simp
    · rw [ih]
      simp [Intake.deliver, Intake.delivered]

/-- **What a pump delivers.** -/
theorem pump_delivered (s : Intake) :
    s.pump.delivered = s.delivered ++ s.upNext.map (·.document s.scipFinished) := by
  unfold Intake.pump Intake.upNext
  split_ifs with hidle
  · simp
  · rw [← pumpLoop_delivered]
    generalize pumpLoop (s.records.drop s.cursor) s = t
    unfold Intake.closeIfDone
    split_ifs
    · rfl
    · rfl
    · unfold Intake.delivered
      simp

theorem pump_records (s : Intake) : s.pump.records = s.records := by
  have hloop : ∀ rest s, (pumpLoop rest s).records = s.records := by
    intro rest
    induction rest with
    | nil => exact fun _ => rfl
    | cons record rest ih =>
      intro s
      rw [pumpLoop]
      split_ifs
      · rw [ih]
        unfold Intake.passSkipped
        dsimp only
        split_ifs <;> rfl
      · rfl
      · exact ih _
  unfold Intake.pump
  split_ifs
  · rfl
  · unfold Intake.closeIfDone
    split_ifs <;> exact hloop _ _

/-- A pump after a call changes nothing. -/
theorem IntakeInv.pump_eq_self (h : IntakeInv s) : s.pump = s := by
  unfold Intake.pump
  split_ifs with hidle
  · rfl
  · rw [Bool.or_eq_true, not_or, Bool.not_eq_true', Bool.not_eq_true, Bool.not_eq_false] at hidle
    have hloop : PosseClient.pumpLoop (s.records.drop s.cursor) s = s := by
      cases hrest : s.records.drop s.cursor with
      | nil => rfl
      | cons record rest =>
        have hr : s.records[s.cursor]? = some record := by
          have hhead : (s.records.drop s.cursor)[0]? = some record := by rw [hrest]; rfl
          rw [List.getElem?_drop] at hhead
          exact hhead
        obtain ⟨hkept, hwait⟩ := h.head record hr
        rw [PosseClient.pumpLoop, hkept]
        simp only [Bool.false_eq_true, if_false]
        refine if_pos ?_
        cases hready : record.ready s.scipFinished with
        | false => simp
        | true => simp [hwait hready]
    rw [hloop]
    unfold Intake.closeIfDone
    split_ifs with hlt hmore
    · rfl
    · rfl
    · rw [Bool.or_eq_true, not_or, Bool.not_eq_true', Bool.not_eq_true', Bool.not_eq_false,
        Bool.not_eq_false] at hmore
      have hclosed := h.done hmore.1 hmore.2 (le_antisymm h.cursor (not_lt.mp hlt))
      rw [hidle.1] at hclosed
      cases hclosed

end Pump

/-! ## 3. What the calls leave to the pump -/

section Notes

variable {s : Intake}

theorem IntakeInv.processed_le_cursor (h : IntakeInv s) : s.processed ≤ s.cursor := by
  by_contra hlt
  have hin : s.cursor < s.records.length := lt_of_lt_of_le (not_le.mp hlt) h.processed
  have hr := List.getElem?_eq_getElem hin
  have hskipped := h.ahead s.cursor _ le_rfl (not_le.mp hlt) hr
  rw [(h.head _ hr).1] at hskipped
  cases hskipped

theorem mem_take_of_getElem? {i n : ℕ} {r : IntakeRecord} (hi : i < n)
    (hr : s.records[i]? = some r) : r ∈ s.records.take n := by
  refine List.mem_of_getElem? (i := i) ?_
  rw [List.getElem?_take_of_lt hi]
  exact hr

theorem mem_take_getElem? {n : ℕ} {r : IntakeRecord} (hr : r ∈ s.records.take n) :
    ∃ i < n, s.records[i]? = some r := by
  obtain ⟨k, hk⟩ := List.mem_iff_getElem?.mp hr
  have hlt : k < n := by
    have hlen := (List.getElem?_eq_some_iff.mp hk).1
    rw [List.length_take] at hlen
    omega
  rw [List.getElem?_take_of_lt hlt] at hk
  exact ⟨k, hlt, hk⟩

/-- The next record to be processed has been delivered, or is at the cursor. -/
theorem IntakeInv.next_kept (h : IntakeInv s) {r : IntakeRecord}
    (hr : s.records[s.processed]? = some r) : r.skipped = false := by
  cases hskipped : r.skipped with
  | false => rfl
  | true =>
    have hat := h.behind r hr hskipped
    rw [hat] at hr
    rw [(h.head r hr).1] at hskipped
    cases hskipped

/-- **Records that change** leave the pump what it needs: no flag is taken back, and no delivered
record is skipped. -/
theorem IntakeInv.mapRecords (h : IntakeInv s) {g : IntakeRecord → IntakeRecord}
    {treeSitterFinished scipFinished : Bool} {readers : ℕ}
    (hordinal : ∀ r, (g r).ordinal = r.ordinal) (hpath : ∀ r, (g r).repoRelPath = r.repoRelPath)
    (hskip : ∀ r, r.skipped = true → (g r).skipped = true)
    (hsome : ∀ r, r.treeSitter.isSome = true → (g r).treeSitter.isSome = true)
    (hkept : ∀ r ∈ s.records.take s.cursor, r.skipped = false → (g r).skipped = false)
    (hfinished : treeSitterFinished = true → s.registered = true ∧
      ∀ r ∈ s.records, (g r).treeSitter = none → (g r).skipped = true)
    (hclosed : s.closed = true → treeSitterFinished = true ∧ scipFinished = true ∧ readers = 0) :
    IntakePre { s with
      records := s.records.map g, treeSitterFinished := treeSitterFinished
      scipFinished := scipFinished, readers := readers } := by
  have hget : ∀ {i : ℕ} {r : IntakeRecord}, (s.records.map g)[i]? = some r →
      ∃ r₀, s.records[i]? = some r₀ ∧ g r₀ = r := by
    intro i r hr
    rw [List.getElem?_map] at hr
    exact Option.map_eq_some_iff.mp hr
  have hfilter : ∀ n ≤ s.cursor, ((s.records.map g).take n).filter (·.kept) =
      ((s.records.take n).filter (·.kept)).map g := by
    intro n hn
    rw [← List.map_take, List.filter_map]
    refine congrArg (List.map g) (List.filter_congr fun r hr => ?_)
    have hmem : r ∈ s.records.take s.cursor := (List.take_sublist_take_left hn).subset hr
    cases hskipped : r.skipped with
    | true => simp [IntakeRecord.kept, hskipped, hskip r hskipped]
    | false => simp [IntakeRecord.kept, hskipped, hkept r hmem hskipped]
  refine ⟨fun i r hr => ?_, ?_, ?_, ?_, fun r hr hnot => ?_, h.joined, ?_, ?_,
    fun i r hi hlt hr => ?_, fun r hr hskipped => ?_, fun hts => ?_, fun hun => ?_, fun hc => ?_,
    h.ended⟩
  · obtain ⟨r₀, hr₀, rfl⟩ := hget hr
    rw [hordinal]
    exact h.ordinals i r₀ hr₀
  · rw [List.map_map, show (fun r : IntakeRecord => r.repoRelPath) ∘ g = (·.repoRelPath) from
      funext hpath]
    exact h.paths
  · rw [List.length_map]
    exact h.cursor
  · change _ = (((s.records.map g).take s.cursor).filter (·.kept)).map _
    rw [hfilter s.cursor le_rfl, List.map_map]
    refine h.delivered.trans (List.map_congr_left fun r _ => ?_)
    change _ = ((g r).ordinal, (g r).repoRelPath)
    rw [hordinal, hpath]
  · change r ∈ (s.records.map g).take s.cursor at hr
    rw [← List.map_take] at hr
    obtain ⟨r₀, hr₀, rfl⟩ := List.mem_map.mp hr
    refine hsome r₀ (h.passed r₀ hr₀ ?_)
    cases hskipped : r₀.skipped with
    | false => rfl
    | true =>
      rw [hskip r₀ hskipped] at hnot
      cases hnot
  · change (((s.records.map g).take s.processed).filter (·.kept)).length = _
    rw [hfilter s.processed h.processed_le_cursor, List.length_map]
    exact h.count
  · rw [List.length_map]
    exact h.processed
  · obtain ⟨r₀, hr₀, rfl⟩ := hget hr
    exact hskip r₀ (h.ahead i r₀ hi hlt hr₀)
  · obtain ⟨r₀, hr₀, rfl⟩ := hget hr
    have hkept₀ := h.next_kept hr₀
    by_contra hne
    have hlt : s.processed < s.cursor := lt_of_le_of_ne h.processed_le_cursor hne
    rw [hkept r₀ (mem_take_of_getElem? hlt hr₀) hkept₀] at hskipped
    cases hskipped
  · obtain ⟨hregistered, hall⟩ := hfinished hts
    refine ⟨hregistered, fun r hr hnone => ?_⟩
    obtain ⟨r₀, hr₀, rfl⟩ := List.mem_map.mp hr
    exact hall r₀ hr₀ hnone
  · change s.records.map g = []
    rw [h.unregistered hun]
    rfl
  · obtain ⟨hts, hscip, hreaders⟩ := hclosed hc
    refine ⟨hts, hscip, ?_, hreaders⟩
    change s.cursor = (s.records.map g).length
    rw [List.length_map]
    exact (h.closed hc).2.2.1

/-- The same for the record of one path. -/
theorem IntakeInv.setRecord (h : IntakeInv s) {path : String} {f : IntakeRecord → IntakeRecord}
    (hordinal : ∀ r, (f r).ordinal = r.ordinal) (hpath : ∀ r, (f r).repoRelPath = r.repoRelPath)
    (hskip : ∀ r, r.skipped = true → f r = r)
    (hsome : ∀ r, r.treeSitter.isSome = true → (f r).treeSitter.isSome = true)
    (hkept : ∀ r ∈ s.records.take s.cursor, r.repoRelPath = path → r.skipped = false →
      (f r).skipped = false) : IntakePre (s.setRecord path f) := by
  refine h.mapRecords (g := fun r => if decide (r.repoRelPath = path) = true then f r else r)
    (fun r => ?_) (fun r => ?_) (fun r hskipped => ?_) (fun r hts => ?_) (fun r hr hnot => ?_)
    (fun hts => ⟨(h.finished hts).1, fun r hr hnone => ?_⟩) fun hc =>
      ⟨(h.closed hc).1, (h.closed hc).2.1, (h.closed hc).2.2.2⟩
  · split_ifs
    · exact hordinal r
    · rfl
  · split_ifs
    · exact hpath r
    · rfl
  · split_ifs
    · rw [hskip r hskipped]
      exact hskipped
    · exact hskipped
  · split_ifs
    · exact hsome r hts
    · exact hts
  · split_ifs with hp
    · exact hkept r hr (of_decide_eq_true hp) hnot
    · exact hnot
  · -- a record without a tree-sitter hash is skipped, and so not changed
    have hskipped : r.skipped = true := by
      cases hts' : r.treeSitter with
      | none => exact (h.finished hts).2 r hr hts'
      | some hash =>
        split_ifs at hnone
        · have hsome' := hsome r (by rw [hts']; rfl)
          rw [hnone] at hsome'
          cases hsome'
        · rw [hts'] at hnone
          cases hnone
    split_ifs
    · rw [hskip r hskipped]
      exact hskipped
    · exact hskipped

/-- A change that fixes the record of the path, or finds none, is none. -/
theorem setRecord_eq_self {path : String} {f : IntakeRecord → IntakeRecord}
    (hfix : ∀ r ∈ s.records, r.repoRelPath = path → f r = r) : s.setRecord path f = s := by
  have hrecords : updateWhere (fun r => decide (r.repoRelPath = path)) f s.records = s.records := by
    unfold updateWhere
    refine (List.map_congr_left fun r hr => ?_).trans (List.map_id' _)
    split_ifs with hp
    · exact hfix r hr (of_decide_eq_true hp)
    · rfl
  unfold Intake.setRecord
  rw [hrecords]

theorem IntakeInv.byPath_unique (h : IntakeInv s) {path : String} {record r : IntakeRecord}
    (hfound : s.byPath path = some record) (hr : r ∈ s.records) (hp : r.repoRelPath = path) :
    r = record :=
  eq_of_key_eq h.paths hr (lookup_mem hfound) (hp.trans (lookup_key hfound).symm)

theorem byPath_none {path : String} {r : IntakeRecord} (hnone : s.byPath path = none)
    (hr : r ∈ s.records) (hp : r.repoRelPath = path) : False :=
  lookup_eq_none_iff.mp hnone r hr hp

theorem IntakeInv.markTreeSitter_eq (h : IntakeInv s) (path hash : String) :
    s.markTreeSitter path hash = (s.noteTreeSitter path hash).pump := by
  unfold Intake.markTreeSitter
  cases hfound : s.byPath path with
  | none =>
    unfold Intake.noteTreeSitter
    rw [setRecord_eq_self fun r hr hp => (byPath_none hfound hr hp).elim, h.pump_eq_self]
  | some record =>
    dsimp only
    split_ifs with hearly
    · unfold Intake.noteTreeSitter
      rw [setRecord_eq_self fun r hr hp => ?_, h.pump_eq_self]
      rw [h.byPath_unique hfound hr hp, if_pos hearly]
    · rfl

theorem IntakeInv.skip_eq (h : IntakeInv s) (path : String) :
    s.skip path = (s.noteSkip path).pump := by
  unfold Intake.skip
  cases hfound : s.byPath path with
  | none =>
    unfold Intake.noteSkip
    rw [setRecord_eq_self fun r hr hp => (byPath_none hfound hr hp).elim, h.pump_eq_self]
  | some record =>
    dsimp only
    split_ifs with hearly
    · unfold Intake.noteSkip
      rw [setRecord_eq_self fun r hr hp => ?_, h.pump_eq_self]
      rw [h.byPath_unique hfound hr hp, if_pos hearly]
    · rfl

end Notes

/-! ## 4. Calls -/

section Step

variable (languageTag : String → Option String) (toLowerCase : String → String)

/-- The intake that the pump of a call finds. -/
def Intake.beforePump (s : Intake) : IntakeOp → Intake
  | .markTreeSitter path hash => s.noteTreeSitter path hash
  | .markScip path hash => if path = "" ∨ hash = "" then s else s.noteScip path hash
  | .declareScipCoverage coverage =>
    if s.registered then s.noteCoverage languageTag (normalizeCoverage toLowerCase coverage) else s
  | .skip path => s.noteSkip path
  | .finishTreeSitter => s.noteTreeSitterFinished languageTag
  | .finishScip => s.noteScipFinished
  | .next => if s.closed then s else s.noteReader
  | .registerPaths _ | .markProcessed _ => s

/-- No document with SCIP commits, all of other hashes, comes up for a reader, and none of those that
readers have got becomes skipped for such commits. -/
structure JoinsCleanly (s : Intake) (op : IntakeOp) : Prop where
  comesUp : ∀ r ∈ (s.beforePump languageTag toLowerCase op).upNext, r.mismatched = false
  again : ∀ path hash, op = .markTreeSitter path hash → hash ≠ "" →
    ∀ r ∈ s.records.take s.cursor, r.repoRelPath = path → r.skipped = false →
      s.scipFinished = true → r.scipHashes ≠ [] → hash ∈ r.scipHashes
  finish : op = .finishScip → ∀ r ∈ s.records.take s.cursor, r.skipped = false →
    r.mismatched = false

/-- Documents are processed in the order of their delivery. -/
def InDeliveryOrder (s : Intake) : IntakeOp → Prop
  | .markProcessed path =>
    (s.delivered[s.processedDocuments]?).map (·.repoRelPath) = some path
  | _ => True

variable {languageTag toLowerCase} {s : Intake} {op : IntakeOp}

theorem distinctPaths_nodup (seen paths : List String) :
    (distinctPaths seen paths).Nodup ∧ ∀ path ∈ distinctPaths seen paths, path ∉ seen := by
  induction paths generalizing seen with
  | nil => exact ⟨List.nodup_nil, fun _ hpath => by cases hpath⟩
  | cons path rest ih =>
    rw [distinctPaths]
    split_ifs with hout
    · exact ih seen
    · obtain ⟨hnodup, hfresh⟩ := ih (path :: seen)
      refine ⟨List.nodup_cons.mpr ⟨fun hmem => ?_, hnodup⟩, fun p hp => ?_⟩
      · exact hfresh path hmem List.mem_cons_self
      · rcases List.mem_cons.mp hp with rfl | hp
        · exact fun hseen => hout (Or.inr hseen)
        · exact fun hseen => hfresh p hp (List.mem_cons_of_mem _ hseen)

/-- Without a tree-sitter hash nothing comes up. -/
theorem upNext_of_no_treeSitter {scipFinished : Bool} {readers : ℕ} {rest : List IntakeRecord}
    (h : ∀ r ∈ rest, r.treeSitter = none) : upNext scipFinished readers rest = [] := by
  induction rest with
  | nil => rw [upNext]
  | cons record rest ih =>
    rw [upNext, ih fun r hr => h r (List.mem_cons_of_mem _ hr)]
    have hready : record.ready scipFinished = false := by
      rw [IntakeRecord.ready, h record List.mem_cons_self]
    simp [hready]

theorem IntakeInv.applyScipCoverage_pre (h : IntakeInv s) (coverage : ScipCoverage) :
    IntakePre (s.noteCoverage languageTag coverage) := by
  have hcases : ∀ r, IntakeRecord.applyCoverage languageTag coverage r = r ∨
      IntakeRecord.applyCoverage languageTag coverage r = { r with scipTerminal := true } := by
    intro r
    unfold IntakeRecord.applyCoverage
    dsimp only
    split_ifs
    · exact Or.inl rfl
    · exact Or.inr rfl
    · exact Or.inl rfl
  have hsame : ∀ r, (IntakeRecord.applyCoverage languageTag coverage r).skipped = r.skipped ∧
      (IntakeRecord.applyCoverage languageTag coverage r).treeSitter = r.treeSitter ∧
      (IntakeRecord.applyCoverage languageTag coverage r).ordinal = r.ordinal ∧
      (IntakeRecord.applyCoverage languageTag coverage r).repoRelPath = r.repoRelPath := by
    intro r
    rcases hcases r with heq | heq <;> rw [heq] <;> exact ⟨rfl, rfl, rfl, rfl⟩
  refine h.mapRecords (fun r => (hsame r).2.2.1) (fun r => (hsame r).2.2.2)
    (fun r hskipped => (hsame r).1.trans hskipped) (fun r hts => ?_)
    (fun r _ hnot => (hsame r).1.trans hnot)
    (fun hts => ⟨(h.finished hts).1, fun r hr hnone => ?_⟩) fun hc =>
      ⟨(h.closed hc).1, (h.closed hc).2.1, (h.closed hc).2.2.2⟩
  · rw [(hsame r).2.1]
    exact hts
  · rw [(hsame r).2.1] at hnone
    rw [(hsame r).1]
    exact (h.finished hts).2 r hr hnone

theorem pump_registered (s : Intake) : s.pump.registered = s.registered := by
  have hloop : ∀ rest s, (pumpLoop rest s).registered = s.registered := by
    intro rest
    induction rest with
    | nil => exact fun _ => rfl
    | cons record rest ih =>
      intro s
      rw [pumpLoop]
      split_ifs
      · rw [ih]
        unfold Intake.passSkipped
        dsimp only
        split_ifs <;> rfl
      · rfl
      · exact ih _
  unfold Intake.pump
  split_ifs
  · rfl
  · unfold Intake.closeIfDone
    split_ifs <;> exact hloop _ _

/-- Coverages that are applied before any tree-sitter hash is there give no document to a reader. -/
theorem IntakeInv.applyCoverages (h : IntakeInv s) (coverages : List ScipCoverage)
    (hnone : ∀ r ∈ s.records, r.treeSitter = none) :
    IntakeInv (coverages.foldl (Intake.applyScipCoverage languageTag) s) ∧
      (coverages.foldl (Intake.applyScipCoverage languageTag) s).delivered = s.delivered ∧
      (coverages.foldl (Intake.applyScipCoverage languageTag) s).registered = s.registered := by
  induction coverages generalizing s with
  | nil => exact ⟨h, rfl, rfl⟩
  | cons coverage coverages ih =>
    have hnone' : ∀ r ∈ (s.noteCoverage languageTag coverage).records, r.treeSitter = none := by
      intro r hr
      obtain ⟨r₀, hr₀, rfl⟩ := List.mem_map.mp hr
      unfold IntakeRecord.applyCoverage
      dsimp only
      split_ifs <;> exact hnone r₀ hr₀
    have hempty : (s.noteCoverage languageTag coverage).upNext = [] := by
      unfold Intake.upNext
      split_ifs
      · rfl
      · exact upNext_of_no_treeSitter fun r hr => hnone' r (List.mem_of_mem_drop hr)
    have hnext : IntakeInv (s.applyScipCoverage languageTag coverage) := by
      refine (h.applyScipCoverage_pre coverage).pump fun r hr => ?_
      rw [hempty] at hr
      cases hr
    have hdelivered : (s.applyScipCoverage languageTag coverage).delivered = s.delivered := by
      unfold Intake.applyScipCoverage
      rw [pump_delivered, hempty, List.map_nil, List.append_nil]
      rfl
    have hregistered : (s.applyScipCoverage languageTag coverage).registered = s.registered :=
      pump_registered _
    rw [List.foldl_cons, ← hdelivered, ← hregistered]
    refine ih hnext fun r hr => ?_
    unfold Intake.applyScipCoverage at hr
    rw [pump_records] at hr
    exact hnone' r hr

/-- `registerPaths` gives no document to a reader. -/
theorem IntakeInv.registerPaths (h : IntakeInv s) (paths : List String) :
    IntakeInv (s.registerPaths languageTag paths) ∧
      (s.registerPaths languageTag paths).delivered = s.delivered ∧
      (s.registerPaths languageTag paths).registered = true := by
  unfold Intake.registerPaths
  split_ifs with hregistered
  · exact ⟨h, rfl, hregistered⟩
  · rw [Bool.not_eq_true] at hregistered
    have hnil := h.unregistered hregistered
    have hts : s.treeSitterFinished = false := by
      cases hts : s.treeSitterFinished with
      | false => rfl
      | true =>
        rw [(h.finished hts).1] at hregistered
        cases hregistered
    have hopen : s.closed = false := by
      cases hc : s.closed with
      | false => rfl
      | true =>
        rw [(h.closed hc).1] at hts
        cases hts
    have hcursor : s.cursor = 0 := by
      have hle := h.cursor
      rw [hnil] at hle
      exact Nat.le_zero.mp hle
    have hprocessed : s.processed = 0 := by
      have hle := h.processed
      rw [hnil] at hle
      exact Nat.le_zero.mp hle
    dsimp only
    generalize hstart : ({ s with
      registered := true, records := newRecords s.earlyScip paths, earlyScip := []
      earlyCoverage := [] } : Intake) = start
    -- a new record has no tree-sitter hash, and is not skipped
    have hnew : ∀ i (r : IntakeRecord), (newRecords s.earlyScip paths)[i]? = some r →
        r.ordinal = i ∧ r.treeSitter = none ∧ r.skipped = false := by
      intro i r hr
      unfold newRecords at hr
      rw [List.getElem?_mapIdx] at hr
      obtain ⟨path, -, rfl⟩ := Option.map_eq_some_iff.mp hr
      exact ⟨rfl, rfl, rfl⟩
    have hnewMem : ∀ r ∈ newRecords s.earlyScip paths, r.treeSitter = none := by
      intro r hr
      obtain ⟨i, hi⟩ := List.mem_iff_getElem?.mp hr
      exact (hnew i r hi).2.1
    have hinv : IntakeInv start ∧ (∀ r ∈ start.records, r.treeSitter = none) ∧
        start.delivered = s.delivered ∧ start.registered = true := by
      rw [← hstart]
      refine ⟨⟨⟨fun i r hr => (hnew i r hr).1, ?_, ?_, ?_, ?_, h.joined, ?_, ?_, ?_, ?_, fun hts' => ?_,
        (fun hun => by cases hun), fun hc => ?_, h.ended⟩, fun r hr => ?_, fun hts' => ?_⟩, hnewMem,
        rfl, rfl⟩
      · have hpaths : (newRecords s.earlyScip paths).map (·.repoRelPath) = distinctPaths [] paths := by
          unfold newRecords
          refine List.ext_getElem? fun i => ?_
          rw [List.getElem?_map, List.getElem?_mapIdx, Option.map_map]
          cases (distinctPaths [] paths)[i]? <;> rfl
        change ((newRecords s.earlyScip paths).map (·.repoRelPath)).Nodup
        rw [hpaths]
        exact (distinctPaths_nodup [] paths).1
      · change s.cursor ≤ _
        rw [hcursor]
        exact Nat.zero_le _
      · change s.delivered.map _ = (((newRecords s.earlyScip paths).take s.cursor).filter _).map _
        rw [h.delivered, hcursor]
        rfl
      · intro r hr
        change r ∈ (newRecords s.earlyScip paths).take s.cursor at hr
        rw [hcursor] at hr
        cases hr
      · change (((newRecords s.earlyScip paths).take s.processed).filter _).length = _
        rw [← h.count, hprocessed]
        rfl
      · change s.processed ≤ _
        rw [hprocessed]
        exact Nat.zero_le _
      · intro i r _ hlt
        change i < s.processed at hlt
        rw [hprocessed] at hlt
        exact absurd hlt (Nat.not_lt_zero i)
      · intro r hr hskipped
        rw [(hnew _ r hr).2.2] at hskipped
        cases hskipped
      · rw [show _ = s.treeSitterFinished from rfl, hts] at hts'
        cases hts'
      · change s.closed = true at hc
        rw [hopen] at hc
        cases hc
      · obtain ⟨-, hnone, hkept⟩ := hnew _ r hr
        refine ⟨hkept, fun hready => ?_⟩
        rw [IntakeRecord.ready, hnone] at hready
        cases hready
      · change s.treeSitterFinished = true at hts'
        rw [hts] at hts'
        cases hts'
    rw [← hinv.2.2.1]
    obtain ⟨hcovered, hdelivered, hregistered'⟩ := hinv.1.applyCoverages s.earlyCoverage hinv.2.1
    rw [hcovered.pump_eq_self]
    exact ⟨hcovered, hdelivered, hregistered'.trans hinv.2.2.2⟩

theorem IntakeInv.withEarly (h : IntakeInv s) (earlyScip : List (String × String))
    (earlyCoverage : List ScipCoverage) :
    IntakeInv { s with earlyScip := earlyScip, earlyCoverage := earlyCoverage } :=
  ⟨⟨h.ordinals, h.paths, h.cursor, h.delivered, h.passed, h.joined, h.count, h.processed, h.ahead,
    h.behind, h.finished, h.unregistered, h.closed, h.ended⟩, h.head, h.done⟩

/-- The next document in delivery order is the one at the processed cursor. -/
theorem IntakeInv.next_delivered (h : IntakeInv s) {d : DeliveredDocument}
    (hd : s.delivered[s.processedDocuments]? = some d) :
    ∃ r, s.records[s.processed]? = some r ∧ r.skipped = false ∧ r.repoRelPath = d.repoRelPath ∧
      s.processed < s.cursor := by
  -- the delivered records, split at the processed cursor
  have hsplit : (s.records.take s.cursor).filter (·.kept) =
      (s.records.take s.processed).filter (·.kept) ++
        ((s.records.drop s.processed).take (s.cursor - s.processed)).filter (·.kept) := by
    rw [← List.filter_append, ← List.take_add, Nat.add_sub_cancel' h.processed_le_cursor]
  have hmap : (((s.records.take s.cursor).filter (·.kept)).map
      fun r : IntakeRecord => (r.ordinal, r.repoRelPath))[s.processedDocuments]? =
        some (d.ordinal, d.repoRelPath) := by
    rw [← h.delivered, List.getElem?_map, hd]
    rfl
  rw [List.getElem?_map, hsplit, List.getElem?_append_right (by rw [h.count]), h.count,
    Nat.sub_self] at hmap
  obtain ⟨r, hr, hpair⟩ := Option.map_eq_some_iff.mp hmap
  have hlt : s.processed < s.cursor := by
    by_contra hge
    rw [Nat.sub_eq_zero_of_le (not_lt.mp hge)] at hr
    simp at hr
  have hin : s.processed < s.records.length := lt_of_lt_of_le hlt h.cursor
  have hget := List.getElem?_eq_getElem hin
  have hkept := h.next_kept hget
  have hfirst : ((s.records.drop s.processed).take (s.cursor - s.processed)).filter (·.kept) =
      s.records[s.processed] ::
        ((s.records.drop (s.processed + 1)).take (s.cursor - s.processed - 1)).filter (·.kept) := by
    rw [List.drop_eq_getElem_cons hin]
    obtain ⟨k, hk⟩ : ∃ k, s.cursor - s.processed = k + 1 := ⟨s.cursor - s.processed - 1, by omega⟩
    rw [hk, List.take_succ_cons, List.filter_cons_of_pos (by simp [IntakeRecord.kept, hkept])]
    rfl
  rw [hfirst] at hr
  obtain rfl : s.records[s.processed] = r := Option.some.inj hr
  exact ⟨_, hget, hkept, congrArg Prod.snd hpair, hlt⟩

theorem IntakeInv.byPath_of_getElem? (h : IntakeInv s) {i : ℕ} {r : IntakeRecord}
    (hr : s.records[i]? = some r) : s.byPath r.repoRelPath = some r :=
  lookup_of_mem h.paths (List.mem_of_getElem? hr)

/-- **`markProcessed` goes through** in delivery order. -/
theorem IntakeInv.markProcessed (h : IntakeInv s) {path : String}
    (horder : InDeliveryOrder s (.markProcessed path)) :
    ∃ t, s.markProcessed path = some t ∧ IntakeInv t := by
  obtain ⟨d, hd, rfl⟩ := Option.map_eq_some_iff.mp horder
  obtain ⟨r, hr, hkept, hpath, hlt⟩ := h.next_delivered hd
  have hfound := h.byPath_of_getElem? hr
  rw [hpath] at hfound
  unfold Intake.markProcessed
  rw [hfound]
  dsimp only
  rw [h.ordinals _ _ hr, if_neg (not_not.mpr rfl)]
  refine ⟨_, rfl, ?_⟩
  generalize hbefore : ({ s with processed := s.processed + 1
                                 processedDocuments := s.processedDocuments + 1 } : Intake) = t
  have hrecords : t.records = s.records := by rw [← hbefore]
  have hstart : t.processed = s.processed + 1 := by rw [← hbefore]
  have hge := le_advanced t
  have hle : t.advanceProcessedPastSkips.processed ≤ t.records.length := by
    refine advanced_le t ?_
    rw [hstart, hrecords]
    exact lt_of_lt_of_le hlt h.cursor
  have hskip : ∀ i (x : IntakeRecord), s.processed + 1 ≤ i →
      i < t.advanceProcessedPastSkips.processed → s.records[i]? = some x → x.skipped = true := by
    intro i x hi hlt' hx
    exact advanced_skipped t (by omega) hlt' (by rw [hrecords]; exact hx)
  have hcount : ((s.records.take t.advanceProcessedPastSkips.processed).filter (·.kept)).length =
      s.processedDocuments + 1 := by
    rw [filter_take_of_dropped (a := s.processed + 1) (by omega) fun i x hi hlt' hx => ?_,
      List.take_add_one, hr, List.filter_append, List.length_append, h.count]
    · simp [IntakeRecord.kept, hkept]
    · simp [IntakeRecord.kept, hskip i x hi hlt' hx]
  have hmoved : IntakeInv { s with
      processed := t.advanceProcessedPastSkips.processed
      processedDocuments := s.processedDocuments + 1 } := by
    refine ⟨⟨h.ordinals, h.paths, h.cursor, h.delivered, h.passed, h.joined, hcount, ?_,
      fun i x hi hlt' hx => ?_, fun x hx hx' => ?_, h.finished, h.unregistered, h.closed, h.ended⟩,
      h.head, h.done⟩
    · rw [← hrecords]
      exact hle
    · exact hskip i x (lt_of_lt_of_le hlt hi) hlt' hx
    · have hstop : x.skipped = false := advanced_stop t (by rw [hrecords]; exact hx)
      rw [hstop] at hx'
      cases hx'
  rw [← hbefore] at hmoved ⊢
  exact hmoved

/-- **Each call** in delivery order that joins cleanly keeps what holds. -/
theorem IntakeInv.step (h : IntakeInv s) (horder : InDeliveryOrder s op)
    (hok : JoinsCleanly languageTag toLowerCase s op) :
    IntakeInv (intakeStep languageTag toLowerCase s op) := by
  have hclosed : s.closed = true →
      s.treeSitterFinished = true ∧ s.scipFinished = true ∧ s.readers = 0 := fun hc =>
    ⟨(h.closed hc).1, (h.closed hc).2.1, (h.closed hc).2.2.2⟩
  have hcomes := hok.comesUp
  cases op with
  | registerPaths paths => exact (h.registerPaths paths).1
  | markTreeSitter path hash =>
    change IntakeInv (s.markTreeSitter path hash)
    rw [h.markTreeSitter_eq]
    refine IntakePre.pump (h.setRecord (fun r => ?_) (fun r => ?_) (fun r hskipped => ?_)
      (fun r hts => ?_) fun r hr hp hkept => ?_) hcomes
    · split_ifs <;> rfl
    · split_ifs <;> rfl
    · exact if_pos (Or.inl hskipped)
    · split_ifs
      · exact hts
      · rfl
    · split_ifs with hearly
      · exact hkept
      · rw [not_or] at hearly
        have hagain := hok.again path hash rfl hearly.2 r hr hp hkept
        change (s.scipFinished && !r.scipHashes.isEmpty && !r.scipHashes.contains hash) = false
        cases hscip : s.scipFinished with
        | false => rfl
        | true =>
          by_cases hnil : r.scipHashes = []
          · simp [hnil]
          · have hmem := List.contains_iff_mem.mpr (hagain hscip hnil)
            rw [hmem, Bool.not_true, Bool.and_false]
  | markScip path hash =>
    change IntakeInv (s.markScip path hash)
    change ∀ r ∈ (if path = "" ∨ hash = "" then s else s.noteScip path hash).upNext, _ at hcomes
    unfold Intake.markScip
    by_cases hempty : path = "" ∨ hash = ""
    · rw [if_pos hempty]
      exact h
    · rw [if_neg hempty] at hcomes ⊢
      cases hfound : s.byPath path with
      | none => exact h.withEarly _ s.earlyCoverage
      | some record =>
        dsimp only
        split_ifs with hearly
        · exact h
        · refine IntakePre.pump (h.setRecord (fun r => ?_) (fun r => ?_) (fun r hskipped => ?_)
            (fun r hts => ?_) fun r hr hp hkept => ?_) hcomes
          · split_ifs <;> rfl
          · split_ifs <;> rfl
          · exact if_pos hskipped
          · split_ifs <;> exact hts
          · split_ifs <;> exact hkept
  | declareScipCoverage coverage =>
    change IntakeInv (s.declareScipCoverage languageTag toLowerCase coverage)
    change ∀ r ∈ (if s.registered then s.noteCoverage languageTag
      (normalizeCoverage toLowerCase coverage) else s).upNext, _ at hcomes
    unfold Intake.declareScipCoverage
    dsimp only
    by_cases hregistered : s.registered = true
    · rw [if_pos hregistered] at hcomes
      rw [if_neg (by simp [hregistered])]
      exact (h.applyScipCoverage_pre _).pump hcomes
    · rw [if_pos (by simpa using hregistered)]
      exact h.withEarly s.earlyScip _
  | skip path =>
    change IntakeInv (s.skip path)
    rw [h.skip_eq]
    refine IntakePre.pump (h.setRecord (fun r => ?_) (fun r => ?_) (fun r hskipped => ?_)
      (fun r hts => ?_) fun r hr hp hkept => ?_) hcomes
    · split_ifs <;> rfl
    · split_ifs <;> rfl
    · split_ifs
      · rfl
      · rw [← hskipped]
    · rw [if_pos hts]
      exact hts
    · rw [if_pos (h.passed r hr hkept)]
      exact hkept
  | finishTreeSitter =>
    refine IntakePre.pump ?_ hcomes
    unfold Intake.noteTreeSitterFinished
    dsimp only
    generalize hstart : (if s.registered = true then s else s.registerPaths languageTag []) = start
    have hinv : IntakeInv start ∧ start.registered = true := by
      rw [← hstart]
      split_ifs with hregistered
      · exact ⟨h, hregistered⟩
      · obtain ⟨hstep, -, hregistered'⟩ := h.registerPaths []
        exact ⟨hstep, hregistered'⟩
    refine hinv.1.mapRecords (fun r => ?_) (fun r => ?_) (fun r hskipped => ?_) (fun r hts => ?_)
      (fun r hr hkept => ?_) (fun _ => ⟨hinv.2, fun r _ hnone => ?_⟩) fun hc =>
        ⟨rfl, (hinv.1.closed hc).2.1, (hinv.1.closed hc).2.2.2⟩
    · split_ifs <;> rfl
    · split_ifs <;> rfl
    · split_ifs
      · rfl
      · exact hskipped
    · split_ifs <;> exact hts
    · rw [if_neg]
      · exact hkept
      · intro hnone
        have hts := hinv.1.passed r hr hkept
        rw [hnone] at hts
        cases hts
    · by_cases hts : r.treeSitter = none
      · rw [if_pos hts]
      · rw [if_neg hts] at hnone
        exact absurd hnone hts
  | finishScip =>
    refine IntakePre.pump ?_ hcomes
    refine h.mapRecords (fun r => ?_) (fun r => ?_) (fun r hskipped => ?_) (fun r hts => ?_)
      (fun r hr hkept => ?_) (fun hts => ⟨(h.finished hts).1, fun r hr hnone => ?_⟩) fun hc =>
        ⟨(h.closed hc).1, rfl, (h.closed hc).2.2.2⟩
    · split_ifs <;> rfl
    · split_ifs <;> rfl
    · split_ifs
      · rfl
      · exact hskipped
    · split_ifs <;> exact hts
    · rw [hok.finish rfl r hr hkept]
      exact hkept
    · have hskipped : r.skipped = true := by
        refine (h.finished hts).2 r hr ?_
        split_ifs at hnone <;> exact hnone
      split_ifs
      · rfl
      · exact hskipped
  | next =>
    change IntakeInv s.next
    change ∀ r ∈ (if s.closed then s else s.noteReader).upNext, _ at hcomes
    unfold Intake.next
    by_cases hc : s.closed = true
    · rw [if_pos hc]
      have hdelivered : (s.answers ++ [none]).filterMap id = s.delivered := by
        simp [Intake.delivered]
      refine ⟨⟨h.ordinals, h.paths, h.cursor, ?_, h.passed, ?_, h.count, h.processed,
          h.ahead, h.behind, h.finished, h.unregistered, h.closed, fun _ => hc⟩, h.head, h.done⟩
      · change ((s.answers ++ [none]).filterMap id).map _ = _
        rw [hdelivered]
        exact h.delivered
      · change ∀ d ∈ (s.answers ++ [none]).filterMap id, _
        rw [hdelivered]
        exact h.joined
    · rw [if_neg hc] at hcomes ⊢
      refine IntakePre.pump ?_ hcomes
      exact ⟨h.ordinals, h.paths, h.cursor, h.delivered, h.passed, h.joined, h.count, h.processed,
        h.ahead, h.behind, h.finished, h.unregistered, fun hc' => absurd hc' hc, h.ended⟩
  | markProcessed path =>
    obtain ⟨t, ht, hinv⟩ := h.markProcessed horder
    change IntakeInv ((s.markProcessed path).getD s)
    rw [ht]
    exact hinv

/-! ## 5. What a correct join is -/

/-- The documents come in the order of registration, each at most once, with a tree-sitter commit of
their hash and a SCIP commit of it or none at all; what was delivered is not skipped, so that the next one can be marked as
processed; and once both sides are finished every reader has its answer, the end only if all records
are delivered or skipped. -/
structure JoinedInOrder (s : Intake) : Prop where
  order : (s.delivered.map (·.ordinal)).Pairwise (· < ·)
  kept : ∀ d ∈ s.delivered, ∃ r, s.records[d.ordinal]? = some r ∧ r.repoRelPath = d.repoRelPath ∧
    r.skipped = false
  joined : ∀ d ∈ s.delivered, d.treeSitter = some d.contentHash ∧
    (d.contentHash ∈ d.scipHashes ∨ d.scipHashes = [] ∧ d.scipAbsent = true)
  processing : ∀ d, s.delivered[s.processedDocuments]? = some d →
    (s.markProcessed d.repoRelPath).isSome = true
  answered : s.treeSitterFinished = true → s.scipFinished = true → s.readers = 0
  closing : s.treeSitterFinished = true → s.scipFinished = true → (s.closed = true ↔
    ∀ i r, s.records[i]? = some r → r.skipped = true ∨ ∃ d ∈ s.delivered, d.ordinal = i)
  ended : none ∈ s.answers → s.closed = true ∧ s.treeSitterFinished = true ∧ s.scipFinished = true

/-- The delivered documents are the records before the cursor that are not skipped. -/
theorem IntakePre.mem_delivered (h : IntakePre s) {i : ℕ} {path : String} :
    (∃ d ∈ s.delivered, d.ordinal = i ∧ d.repoRelPath = path) ↔
      ∃ r, i < s.cursor ∧ s.records[i]? = some r ∧ r.skipped = false ∧ r.repoRelPath = path := by
  have hmem : (∃ d ∈ s.delivered, d.ordinal = i ∧ d.repoRelPath = path) ↔
      (i, path) ∈ s.delivered.map fun d => (d.ordinal, d.repoRelPath) := by
    simp [List.mem_map]
  rw [hmem, h.delivered]
  constructor
  · intro hpair
    obtain ⟨r, hr, heq⟩ := List.mem_map.mp hpair
    obtain ⟨htake, hkept⟩ := List.mem_filter.mp hr
    obtain ⟨k, hlt, hk⟩ := mem_take_getElem? htake
    have hordinal := h.ordinals k r hk
    cases heq
    rw [hordinal]
    exact ⟨r, hlt, hk, by simpa [IntakeRecord.kept] using hkept, rfl⟩
  · rintro ⟨r, hlt, hr, hkept, rfl⟩
    refine List.mem_map.mpr ⟨r, List.mem_filter.mpr ⟨mem_take_of_getElem? hlt hr, ?_⟩, ?_⟩
    · simp [IntakeRecord.kept, hkept]
    · rw [h.ordinals i r hr]

theorem IntakeInv.joinedInOrder (h : IntakeInv s) : JoinedInOrder s := by
  refine ⟨?_, fun d hd => ?_, h.joined, fun d hd => ?_, fun hts hscip => ?_, fun hts hscip => ?_,
    fun hnone => ?_⟩
  · -- the ordinals of the records are their places
    have hrecords : s.records.map (·.ordinal) = List.range s.records.length := by
      refine List.ext_getElem? fun i => ?_
      rw [List.getElem?_map]
      by_cases hi : i < s.records.length
      · rw [List.getElem?_eq_getElem hi, List.getElem?_range hi, Option.map_some,
          h.ordinals i _ (List.getElem?_eq_getElem hi)]
      · rw [List.getElem?_eq_none (not_lt.mp hi), List.getElem?_eq_none (by simpa using hi)]
        rfl
    have hmap : s.delivered.map (·.ordinal) =
        ((s.records.take s.cursor).filter (·.kept)).map (·.ordinal) := by
      have hfst := congrArg (List.map Prod.fst) h.delivered
      rw [List.map_map, List.map_map] at hfst
      exact hfst
    rw [hmap]
    have hsub : (((s.records.take s.cursor).filter (·.kept)).map (·.ordinal)).Sublist
        (s.records.map (·.ordinal)) :=
      (List.filter_sublist.trans (List.take_sublist _ _)).map _
    rw [hrecords] at hsub
    exact List.pairwise_lt_range.sublist hsub
  · obtain ⟨r, -, hr, hkept, hpath⟩ := h.mem_delivered.mp ⟨d, hd, rfl, rfl⟩
    exact ⟨r, hr, hpath, hkept⟩
  · have horder : InDeliveryOrder s (.markProcessed d.repoRelPath) := by
      change (s.delivered[s.processedDocuments]?).map (·.repoRelPath) = _
      rw [hd]
      rfl
    obtain ⟨t, ht, -⟩ := h.markProcessed horder
    rw [ht]
    rfl
  · by_cases hend : s.cursor = s.records.length
    · exact (h.closed (h.done hts hscip hend)).2.2.2
    · have hlt : s.cursor < s.records.length := lt_of_le_of_ne h.cursor hend
      have hr := List.getElem?_eq_getElem hlt
      obtain ⟨hkept, hwait⟩ := h.head _ hr
      refine hwait ?_
      cases hhash : s.records[s.cursor].treeSitter with
      | none =>
        rw [(h.finished hts).2 _ (List.mem_of_getElem? hr) hhash] at hkept
        cases hkept
      | some hash =>
        rw [IntakeRecord.ready, hhash, hscip]
        simp
  · constructor
    · intro hclosed i r hr
      have hend := (h.closed hclosed).2.2.1
      have hlt : i < s.cursor := by
        rw [hend]
        exact (List.getElem?_eq_some_iff.mp hr).1
      cases hskipped : r.skipped with
      | true => exact Or.inl rfl
      | false =>
        obtain ⟨d, hd, hordinal, -⟩ := h.mem_delivered.mpr ⟨r, hlt, hr, hskipped, rfl⟩
        exact Or.inr ⟨d, hd, hordinal⟩
    · intro hall
      refine h.done hts hscip ?_
      by_contra hne
      have hlt : s.cursor < s.records.length := lt_of_le_of_ne h.cursor hne
      have hr := List.getElem?_eq_getElem hlt
      rcases hall _ _ hr with hskipped | ⟨d, hd, hordinal⟩
      · rw [(h.head _ hr).1] at hskipped
        cases hskipped
      · obtain ⟨_, hbefore, -⟩ := h.mem_delivered.mp ⟨d, hd, rfl, rfl⟩
        omega
  · have hclosed := h.ended hnone
    exact ⟨hclosed, (h.closed hclosed).1, (h.closed hclosed).2.1⟩

/-! ## 6. Where the join fails -/

/-- What a call delivers is what its pump finds. -/
theorem IntakeInv.step_delivered (h : IntakeInv s) (horder : InDeliveryOrder s op) :
    (intakeStep languageTag toLowerCase s op).delivered = s.delivered ++
      (s.beforePump languageTag toLowerCase op).upNext.map
        (·.document (s.beforePump languageTag toLowerCase op).scipFinished) := by
  have hidle : s.delivered = s.delivered ++ s.upNext.map (·.document s.scipFinished) := by
    rw [h.upNext_eq_nil]
    simp
  cases op with
  | registerPaths paths => exact (h.registerPaths paths).2.1.trans hidle
  | markTreeSitter path hash =>
    change (s.markTreeSitter path hash).delivered = _
    rw [h.markTreeSitter_eq]
    exact pump_delivered _
  | markScip path hash =>
    change (s.markScip path hash).delivered = s.delivered ++
      (if path = "" ∨ hash = "" then s else s.noteScip path hash).upNext.map
        (·.document (if path = "" ∨ hash = "" then s else s.noteScip path hash).scipFinished)
    unfold Intake.markScip
    by_cases hempty : path = "" ∨ hash = ""
    · rw [if_pos hempty, if_pos hempty]
      exact hidle
    · rw [if_neg hempty, if_neg hempty]
      cases hfound : s.byPath path with
      | none =>
        have hsame : s.noteScip path hash = s :=
          setRecord_eq_self fun r hr hp => (byPath_none hfound hr hp).elim
        rw [hsame]
        exact hidle
      | some record =>
        dsimp only
        split_ifs with hskipped
        · have hsame : s.noteScip path hash = s := setRecord_eq_self fun r hr hp => by
            rw [h.byPath_unique hfound hr hp, if_pos hskipped]
          rw [hsame]
          exact hidle
        · exact pump_delivered _
  | declareScipCoverage coverage =>
    change (s.declareScipCoverage languageTag toLowerCase coverage).delivered = s.delivered ++
      (if s.registered then s.noteCoverage languageTag (normalizeCoverage toLowerCase coverage)
        else s).upNext.map (·.document (if s.registered then
          s.noteCoverage languageTag (normalizeCoverage toLowerCase coverage) else s).scipFinished)
    unfold Intake.declareScipCoverage
    dsimp only
    by_cases hregistered : s.registered = true
    · rw [if_pos hregistered, if_neg (by simp [hregistered])]
      exact pump_delivered _
    · rw [if_neg hregistered, if_pos (by simpa using hregistered)]
      exact hidle
  | skip path =>
    change (s.skip path).delivered = _
    rw [h.skip_eq]
    exact pump_delivered _
  | finishTreeSitter =>
    refine (pump_delivered _).trans (congrArg (· ++ _) ?_)
    unfold Intake.noteTreeSitterFinished
    dsimp only
    split_ifs
    · rfl
    · exact (h.registerPaths []).2.1
  | finishScip => exact pump_delivered _
  | next =>
    change s.next.delivered = s.delivered ++ (if s.closed then s else s.noteReader).upNext.map
      (·.document (if s.closed then s else s.noteReader).scipFinished)
    unfold Intake.next
    by_cases hc : s.closed = true
    · rw [if_pos hc, if_pos hc]
      have hsame : (s.answers ++ [none]).filterMap id = s.delivered := by simp [Intake.delivered]
      exact hsame.trans hidle
    · rw [if_neg hc, if_neg hc]
      exact pump_delivered _
  | markProcessed path =>
    obtain ⟨t, ht, -⟩ := h.markProcessed horder
    change ((s.markProcessed path).getD s).delivered = _
    rw [ht]
    refine Eq.trans ?_ hidle
    unfold Intake.markProcessed at ht
    split at ht
    · split_ifs at ht
      cases ht
      rfl
    · cases ht

/-- A call that skips a delivered record breaks the join. -/
theorem IntakeInv.not_joined_of_skip (h : IntakeInv s) {t : Intake} {r r' : IntakeRecord} {i : ℕ}
    (hi : i < s.cursor) (hr : s.records[i]? = some r) (hkept : r.skipped = false)
    (hdelivered : ∀ d ∈ s.delivered, d ∈ t.delivered) (hr' : t.records[i]? = some r')
    (hskipped : r'.skipped = true) : ¬ JoinedInOrder t := by
  intro hjoined
  obtain ⟨d, hd, hordinal, -⟩ := h.mem_delivered.mpr ⟨r, hi, hr, hkept, rfl⟩
  obtain ⟨found, hfound, -, hnot⟩ := hjoined.kept d (hdelivered d hd)
  rw [hordinal, hr'] at hfound
  obtain rfl := Option.some.inj hfound
  rw [hskipped] at hnot
  cases hnot

/-- **Each call that does not join cleanly** leaves an intake that is not joined in order. -/
theorem IntakeInv.not_joined (h : IntakeInv s) (horder : InDeliveryOrder s op)
    (hbad : ¬ JoinsCleanly languageTag toLowerCase s op) :
    ¬ JoinedInOrder (intakeStep languageTag toLowerCase s op) := by
  intro hjoined
  have hdelivered : (intakeStep languageTag toLowerCase s op).delivered = _ :=
    h.step_delivered horder
  have hold : ∀ d ∈ s.delivered, d ∈ (intakeStep languageTag toLowerCase s op).delivered := by
    intro d hd
    rw [hdelivered]
    exact List.mem_append_left _ hd
  refine hbad ⟨fun r hr => ?_, ?_, ?_⟩
  · -- a mismatched document would be among the delivered ones
    cases hhash : r.treeSitter with
    | none => simp [IntakeRecord.mismatched, hhash]
    | some hash =>
      have hmem : r.document (s.beforePump languageTag toLowerCase op).scipFinished ∈
          (intakeStep languageTag toLowerCase s op).delivered := by
        rw [hdelivered]
        exact List.mem_append_right _ (List.mem_map_of_mem hr)
      have hjoin := (hjoined.joined _ hmem).2
      change r.treeSitter.getD "" ∈ r.scipHashes ∨ r.scipHashes = [] ∧ _ at hjoin
      rw [hhash, Option.getD_some] at hjoin
      exact (mismatched_eq_false hhash).mpr (hjoin.elim Or.inr fun hnil => Or.inl hnil.1)
  · rintro path hash rfl hne r hr rfl hkept hscip hnonempty
    by_contra hmissing
    obtain ⟨i, hi, hget⟩ := mem_take_getElem? hr
    change JoinedInOrder (s.markTreeSitter r.repoRelPath hash) at hjoined
    have hnow : (s.markTreeSitter r.repoRelPath hash).records[i]? =
        some { r with treeSitter := some hash, skipped := true } := by
      rw [h.markTreeSitter_eq, pump_records]
      unfold Intake.noteTreeSitter Intake.setRecord updateWhere
      rw [List.getElem?_map, hget, Option.map_some]
      simp [hkept, hne, hscip, hnonempty, hmissing]
    exact h.not_joined_of_skip hi hget hkept hold hnow rfl hjoined
  · rintro rfl r hr hkept
    by_contra hmismatched
    rw [Bool.not_eq_false] at hmismatched
    obtain ⟨i, hi, hget⟩ := mem_take_getElem? hr
    have hnow : (s.noteScipFinished.pump).records[i]? = some { r with skipped := true } := by
      rw [pump_records]
      unfold Intake.noteScipFinished
      rw [List.getElem?_map, hget, Option.map_some, if_pos hmismatched]
    exact h.not_joined_of_skip hi hget hkept hold hnow rfl hjoined

theorem intakeInv_initial : IntakeInv {} := by
  refine ⟨⟨fun i r hr => ?_, List.nodup_nil, le_rfl, rfl, fun r hr => ?_, fun d hd => ?_, rfl, le_rfl,
    fun i r _ _ hr => ?_, fun r hr => ?_, fun hts => ?_, fun _ => rfl, fun hc => ?_, fun hnone => ?_⟩,
    fun r hr => ?_, fun hts => ?_⟩
  · cases hr
  · cases hr
  · cases hd
  · cases hr
  · cases hr
  · cases hts
  · cases hc
  · cases hnone
  · cases hr
  · cases hts

end Step

/-- A document with commits of one hash on both sides, read and processed. -/
def matchedRun : List IntakeOp :=
  [.registerPaths ["a.js"], .markTreeSitter "a.js" "new", .markScip "a.js" "new", .next,
    .markProcessed "a.js"]

/-- An artifact without the document is covered after another has committed it for older content. -/
def mismatchedRun : List IntakeOp :=
  [.registerPaths ["a.js"], .markScip "a.js" "old", .declareScipCoverage { scopePaths := ["a.js"] },
    .markTreeSitter "a.js" "new", .next]

end PosseClient
