/-
# What a chain of replay pages delivers

The buffer is the end of what the stream has emitted, and a page is the part of the buffer between
the cursor and the head.  So a chain delivers, in order and without a repetition, frames it has
asked for; and it delivers all of them exactly when no page was asked for after a frame between its
cursor and the head had left the buffer.

`replay_complete` looks at the buffer from the cursor of the last page alone: a frame that an
earlier page passed over because it had been evicted is not seen from there
(`replay_complete_after_gap`).

* `BridgeReplay.Window` is the buffer against the history, `ReplayClient.Ordered` what every client
  satisfies, `ReplayClient.Gapless` and `Missed` the two ends of a chain.
-/
import PosseClient.Lib.Runs
import PosseClient.Lib.KeyOrder
import PosseClient.Bridge.ChangeStream

namespace PosseClient

open KeyOrder

/-- The id of a frame, as the number a cursor is compared with. -/
def BridgeFrame.key (frame : BridgeFrame) : ℚ := frame.eventId

/-! ## 1. The buffer is the end of the history -/

/-- The frames are numbered from 1 on, and the buffer is the end of them. -/
structure BridgeReplay.Window (s : BridgeReplay) : Prop where
  ids : s.emitted.map BridgeFrame.eventId = List.range' 1 s.stream.eventId
  suffix : s.stream.replay <:+ s.emitted

section Window

variable {s : BridgeReplay}

theorem BridgeReplay.Window.increasing (h : s.Window) : Increasing BridgeFrame.key s.emitted := by
  have hpair : (s.emitted.map BridgeFrame.eventId).Pairwise (· < ·) := by
    rw [h.ids]
    exact List.pairwise_lt_range'
  refine (List.pairwise_map.mp hpair).imp ?_
  intro a b hab
  simpa [BridgeFrame.key] using hab

theorem BridgeReplay.Window.id_le (h : s.Window) {frame : BridgeFrame}
    (hf : frame ∈ s.emitted) : frame.eventId ≤ s.stream.eventId := by
  have hmem : frame.eventId ∈ s.emitted.map BridgeFrame.eventId := List.mem_map_of_mem hf
  rw [h.ids, List.mem_range'_1] at hmem
  omega

/-- An event keeps the window. -/
theorem BridgeReplay.Window.emit (h : s.Window) (event : BridgeEvent) :
    (bridgeStep s (.emit event)).Window := by
  have hsuffix : s.stream.replay ++ [⟨s.stream.eventId + 1, event⟩] <:+
      s.emitted ++ [⟨s.stream.eventId + 1, event⟩] := by
    obtain ⟨evicted, heq⟩ := h.suffix
    exact ⟨evicted, by rw [← heq, List.append_assoc]⟩
  constructor
  · simp only [bridgeStep, ChangeStream.emitBridgeEvent, List.map_append, List.map_cons,
      List.map_nil, h.ids]
    rw [List.range'_1_concat, Nat.add_comm 1]
  · simp only [bridgeStep, ChangeStream.emitBridgeEvent]
    split_ifs
    · exact (List.drop_suffix _ _).trans hsuffix
    · exact hsuffix

end Window

/-! ## 2. A page -/

section Page

variable {s : ChangeStream} {since : ℚ} {head : Option ℚ} {bridgeEpoch : Option String}
  {limit : Option ℤ} {page : TailPage}

theorem ChangeStream.fixedHead_nonneg : 0 ≤ s.fixedHead head := by
  cases head with
  | none => exact Nat.cast_nonneg _
  | some requested => exact le_min (Nat.cast_nonneg _) (le_max_left _ _)

theorem ChangeStream.fixedHead_le : s.fixedHead head ≤ s.eventId := by
  cases head with
  | none => exact le_rfl
  | some requested => exact min_le_left _ _

/-- A head the stream has reached is kept. -/
theorem ChangeStream.fixedHead_some {b : ℚ} (h0 : 0 ≤ b) (h : b ≤ s.eventId) :
    s.fixedHead (some b) = b := by
  simp only [ChangeStream.fixedHead]
  rw [max_eq_right h0, min_eq_right h]

/-- **What a page holds.** -/
theorem ChangeStream.tailFrames_ok (h : s.tailFrames since head bridgeEpoch limit = .ok page) :
    bridgeEpoch.any (· != s.bridgeEpochId) = false ∧
    page.headEventId = s.fixedHead head ∧
    page.events = (between BridgeFrame.key (max 0 since) (s.fixedHead head) s.replay).take
      (boundedLimit limit) ∧
    page.nextEventId = (page.events.getLast?.map BridgeFrame.key).getD (max 0 since) ∧
    (page.replayComplete = true → s.fixedHead head ≤ page.nextEventId ∧
      (s.fixedHead head ≤ max 0 since ∨ (s.firstReplayId : ℚ) - 1 ≤ max 0 since)) := by
  unfold ChangeStream.tailFrames at h
  split_ifs at h with hepoch
  simp only [Except.ok.injEq] at h
  subst h
  refine ⟨by simpa using hepoch, rfl, rfl, rfl, ?_⟩
  intro hcomplete
  simp only [Bool.and_eq_true, decide_eq_true_eq] at hcomplete
  exact ⟨hcomplete.2, hcomplete.1.1⟩

/-- The first page is the page of a client that starts where it asks to. -/
theorem ChangeStream.tailFrames_start (h : s.tailFrames since head bridgeEpoch limit = .ok page) :
    s.tailFrames (max 0 since) (some (s.fixedHead head)) bridgeEpoch limit = .ok page := by
  unfold ChangeStream.tailFrames at h ⊢
  rw [ChangeStream.fixedHead_some ChangeStream.fixedHead_nonneg ChangeStream.fixedHead_le,
    max_eq_right (le_max_left 0 since)]
  exact h

end Page

/-! ## 3. What holds of every client -/

/-- The ends of the chain, and what it has received between them. -/
structure ReplayClient.Ordered (s : BridgeReplay) (c : ReplayClient) : Prop where
  since_nonneg : 0 ≤ c.since
  since_le : c.since ≤ c.cursor
  head_nonneg : 0 ≤ c.head
  head_le : c.head ≤ s.stream.eventId
  cursor : c.cursor ≤ c.head ∨ c.cursor = c.since
  increasing : Increasing BridgeFrame.key c.received
  received : ∀ frame ∈ c.received,
    frame ∈ s.emitted ∧ c.since < frame.key ∧ frame.key ≤ c.cursor
  complete : c.replayComplete = true → c.head ≤ c.cursor

/-- Nothing between the start and the cursor is missing. -/
def ReplayClient.Gapless (s : BridgeReplay) (c : ReplayClient) : Prop :=
  c.received = between BridgeFrame.key c.since c.cursor s.emitted

/-- A frame the client asked for has left the buffer, and the client does not have it. -/
def ReplayClient.Missed (s : BridgeReplay) (c : ReplayClient) : Prop :=
  ∃ frame ∈ s.emitted, (c.since < frame.key ∧ frame.key ≤ c.head) ∧
    frame ∉ s.stream.replay ∧ frame ∉ c.received

/-- Every frame between the cursor and the head is still in the buffer. -/
def BridgeReplay.Retains (s : BridgeReplay) (since head : ℚ) : Prop :=
  ∀ frame ∈ s.emitted, since < frame.key → frame.key ≤ head → frame ∈ s.stream.replay

section Clients

variable {s : BridgeReplay} {c : ReplayClient} {bridgeEpoch : Option String}
  {limit : Option ℤ} {page : TailPage}

theorem ReplayClient.ordered_start {since : ℚ} {head : Option ℚ} (h : 0 ≤ since) :
    (ReplayClient.start since (s.stream.fixedHead head)).Ordered s where
  since_nonneg := h
  since_le := le_rfl
  head_nonneg := ChangeStream.fixedHead_nonneg
  head_le := ChangeStream.fixedHead_le
  cursor := Or.inr rfl
  increasing := List.Pairwise.nil
  received := by simp [ReplayClient.start]
  complete := by simp [ReplayClient.start]

theorem ReplayClient.gapless_start (since head : ℚ) :
    (ReplayClient.start since head).Gapless s := by
  simp only [ReplayClient.Gapless, ReplayClient.start]
  rw [between_of_le le_rfl]

/-- What is received is not after the head. -/
theorem ReplayClient.Ordered.le_head (h : c.Ordered s) {frame : BridgeFrame}
    (hf : frame ∈ c.received) : frame.key ≤ c.head := by
  obtain ⟨-, hsince, hcursor⟩ := h.received frame hf
  rcases h.cursor with hle | heq
  · exact hcursor.trans hle
  · exact absurd (hsince.trans_le hcursor) (by rw [heq]; exact lt_irrefl _)

/-- The page of a client, from its cursor and head. -/
theorem ReplayClient.Ordered.page_ok (h : c.Ordered s)
    (hp : s.stream.tailFrames c.cursor (some c.head) bridgeEpoch limit = .ok page) :
    page.events = (between BridgeFrame.key c.cursor c.head s.stream.replay).take
        (boundedLimit limit) ∧
      page.nextEventId = (page.events.getLast?.map BridgeFrame.key).getD c.cursor ∧
      (page.replayComplete = true → c.head ≤ page.nextEventId) := by
  obtain ⟨-, -, hevents, hnext, hcomplete⟩ := ChangeStream.tailFrames_ok hp
  have hcursor : max 0 c.cursor = c.cursor := max_eq_right (h.since_nonneg.trans h.since_le)
  rw [hcursor, ChangeStream.fixedHead_some h.head_nonneg h.head_le] at hevents
  rw [hcursor] at hnext
  rw [ChangeStream.fixedHead_some h.head_nonneg h.head_le] at hcomplete
  exact ⟨hevents, hnext, fun hc => (hcomplete hc).1⟩

/-- The frames of a page are in the buffer, after the cursor and not after the head. -/
theorem ReplayClient.Ordered.page_mem (h : c.Ordered s)
    (hp : s.stream.tailFrames c.cursor (some c.head) bridgeEpoch limit = .ok page)
    {frame : BridgeFrame} (hf : frame ∈ page.events) :
    frame ∈ s.stream.replay ∧ c.cursor < frame.key ∧ frame.key ≤ c.head := by
  rw [(h.page_ok hp).1] at hf
  exact mem_between.mp (List.mem_of_mem_take hf)

/-- The cursor of a page: it stands still on an empty page, else at the last frame. -/
theorem ReplayClient.Ordered.page_next (h : c.Ordered s)
    (hp : s.stream.tailFrames c.cursor (some c.head) bridgeEpoch limit = .ok page) :
    (page.events = [] ∧ page.nextEventId = c.cursor) ∨
      ∃ last, page.events.getLast? = some last ∧ page.nextEventId = last.key := by
  have hnext := (h.page_ok hp).2.1
  cases hlast : page.events.getLast? with
  | none =>
    rw [hlast] at hnext
    exact Or.inl ⟨List.getLast?_eq_none_iff.mp hlast, hnext⟩
  | some last =>
    rw [hlast] at hnext
    exact Or.inr ⟨last, rfl, hnext⟩

/-- **A page keeps the order of a client.** -/
theorem ReplayClient.Ordered.take (hw : s.Window) (h : c.Ordered s)
    (hp : s.stream.tailFrames c.cursor (some c.head) bridgeEpoch limit = .ok page) :
    (c.take page).Ordered s := by
  have hpage : Increasing BridgeFrame.key page.events := by
    rw [(h.page_ok hp).1]
    refine Increasing.sublist ?_ (List.take_sublist _ _)
    exact (hw.increasing.sublist hw.suffix.sublist).between
  have hbound : ∀ frame ∈ page.events, frame.key ≤ page.nextEventId := by
    rcases h.page_next hp with ⟨hnil, -⟩ | ⟨last, hlast, hnext⟩
    · simp [hnil]
    · rw [hnext]
      exact hpage.le_getLast hlast
  have hforward : c.cursor ≤ page.nextEventId := by
    rcases h.page_next hp with ⟨-, hnext⟩ | ⟨last, hlast, hnext⟩
    · exact hnext.ge
    · rw [hnext]
      exact (h.page_mem hp (List.mem_of_getLast? hlast)).2.1.le
  constructor
  case since_nonneg => exact h.since_nonneg
  case since_le => exact h.since_le.trans hforward
  case head_nonneg => exact h.head_nonneg
  case head_le => exact h.head_le
  case cursor =>
    rcases h.page_next hp with ⟨-, hnext⟩ | ⟨last, hlast, hnext⟩
    · simpa only [ReplayClient.take, hnext] using h.cursor
    · refine Or.inl ?_
      simp only [ReplayClient.take, hnext]
      exact (h.page_mem hp (List.mem_of_getLast? hlast)).2.2
  case increasing =>
    refine List.pairwise_append.mpr ⟨h.increasing, hpage, ?_⟩
    intro x hx y hy
    exact (h.received x hx).2.2.trans_lt (h.page_mem hp hy).2.1
  case received =>
    intro frame hf
    rcases List.mem_append.mp hf with hf | hf
    · obtain ⟨hin, hsince, hcursor⟩ := h.received frame hf
      exact ⟨hin, hsince, hcursor.trans hforward⟩
    · obtain ⟨hin, hcursor, -⟩ := h.page_mem hp hf
      exact ⟨hw.suffix.subset hin, h.since_le.trans_lt hcursor, hbound frame hf⟩
  case complete => exact (h.page_ok hp).2.2

/-- **A page over a buffer that retains what it is asked for leaves no gap.** -/
theorem ReplayClient.Gapless.take (hw : s.Window) (h : c.Ordered s) (hg : c.Gapless s)
    (hr : s.Retains c.cursor c.head)
    (hp : s.stream.tailFrames c.cursor (some c.head) bridgeEpoch limit = .ok page) :
    (c.take page).Gapless s := by
  -- the eligible part of the buffer is the part of the history
  have hpart : between BridgeFrame.key c.cursor c.head s.stream.replay
      = between BridgeFrame.key c.cursor c.head s.emitted := by
    obtain ⟨evicted, heq⟩ := hw.suffix
    rw [← heq]
    refine (between_of_append fun x hx hax hxb => ?_).symm
    have hin : x ∈ s.stream.replay := hr x (heq ▸ List.mem_append_left _ hx) hax hxb
    have hsorted := hw.increasing
    rw [← heq] at hsorted
    exact absurd ((List.pairwise_append.mp hsorted).2.2 x hx x hin) (lt_irrefl _)
  have hevents := (h.page_ok hp).1
  rw [hpart] at hevents
  unfold ReplayClient.Gapless at hg ⊢
  simp only [ReplayClient.take]
  rcases h.page_next hp with ⟨hnil, hnext⟩ | ⟨last, hlast, hnext⟩
  · rw [hnil, hnext, List.append_nil, hg]
  · rw [hevents] at hlast
    rw [hnext, hevents, take_between hw.increasing hlast, hg]
    refine between_append hw.increasing h.since_le ?_
    exact (mem_between.mp (List.mem_of_mem_take (List.mem_of_getLast? hlast))).2.1.le

/-- **A page over a buffer that does not retain what it is asked for misses something.** -/
theorem ReplayClient.missed_take (h : c.Ordered s) (hr : ¬ s.Retains c.cursor c.head)
    (hp : s.stream.tailFrames c.cursor (some c.head) bridgeEpoch limit = .ok page) :
    (c.take page).Missed s := by
  unfold BridgeReplay.Retains at hr
  push Not at hr
  obtain ⟨frame, hin, hcursor, hhead, hout⟩ := hr
  refine ⟨frame, hin, ⟨h.since_le.trans_lt hcursor, hhead⟩, hout, ?_⟩
  intro hf
  rcases List.mem_append.mp hf with hf | hf
  · exact absurd ((h.received frame hf).2.2.trans_lt hcursor) (lt_irrefl _)
  · exact hout (h.page_mem hp hf).1

/-- What is missed stays missed. -/
theorem ReplayClient.Missed.take (h : c.Ordered s) (hm : c.Missed s)
    (hp : s.stream.tailFrames c.cursor (some c.head) bridgeEpoch limit = .ok page) :
    (c.take page).Missed s := by
  obtain ⟨frame, hin, hbetween, hout, hnot⟩ := hm
  refine ⟨frame, hin, hbetween, hout, ?_⟩
  intro hf
  rcases List.mem_append.mp hf with hf | hf
  · exact hnot hf
  · exact hout (h.page_mem hp hf).1

/-! Events change none of this. -/

theorem ReplayClient.Ordered.emit (h : c.Ordered s) (event : BridgeEvent) :
    c.Ordered (bridgeStep s (.emit event)) where
  since_nonneg := h.since_nonneg
  since_le := h.since_le
  head_nonneg := h.head_nonneg
  head_le := by
    have hle := h.head_le
    simp only [bridgeStep, ChangeStream.emitBridgeEvent]
    push_cast
    linarith
  cursor := h.cursor
  increasing := h.increasing
  received := fun frame hf =>
    ⟨List.mem_append_left _ (h.received frame hf).1, (h.received frame hf).2⟩
  complete := h.complete

theorem ReplayClient.Gapless.emit (h : c.Ordered s) (hg : c.Gapless s) (event : BridgeEvent) :
    c.Gapless (bridgeStep s (.emit event)) := by
  have hnew : between BridgeFrame.key c.since c.cursor [⟨s.stream.eventId + 1, event⟩] = [] := by
    refine between_eq_nil fun frame hf hsince hcursor => ?_
    rw [List.mem_singleton.mp hf] at hsince hcursor
    simp only [BridgeFrame.key, Nat.cast_add, Nat.cast_one] at hsince hcursor
    have hle := h.head_le
    rcases h.cursor with hhead | heq
    · linarith
    · linarith
  unfold ReplayClient.Gapless at hg ⊢
  simp only [bridgeStep]
  rw [hg]
  unfold between at hnew ⊢
  rw [List.filter_append, hnew, List.append_nil]

theorem ReplayClient.Missed.emit (hw : s.Window) (hm : c.Missed s) (event : BridgeEvent) :
    c.Missed (bridgeStep s (.emit event)) := by
  obtain ⟨frame, hin, hbetween, hout, hnot⟩ := hm
  refine ⟨frame, List.mem_append_left _ hin, hbetween, ?_, hnot⟩
  have hnew : frame ∉ s.stream.replay ++ [⟨s.stream.eventId + 1, event⟩] := by
    intro hmem
    rcases List.mem_append.mp hmem with hmem | hmem
    · exact hout hmem
    · have hle := hw.id_le hin
      rw [List.mem_singleton.mp hmem] at hle
      simp at hle
  simp only [bridgeStep, ChangeStream.emitBridgeEvent]
  split_ifs
  · exact fun hmem => hnew (List.mem_of_mem_drop hmem)
  · exact hnew

end Clients

/-! ## 4. Whole chains -/

/-- **The condition on a page.**  Every frame between its cursor and the chain's head is still in
the buffer when it is asked for. -/
def PageRetained (s : BridgeReplay) : BridgeOp → Prop
  | .emit _ => True
  | .firstPage since head bridgeEpoch _ =>
    s.client = none → bridgeEpoch.any (· != s.stream.bridgeEpochId) = false →
      s.Retains (max 0 since) (s.stream.fixedHead head)
  | .nextPage bridgeEpoch _ =>
    ∀ c, s.client = some c → bridgeEpoch.any (· != s.stream.bridgeEpochId) = false →
      s.Retains c.cursor c.head

/-- What every state of a chain satisfies. -/
structure BridgeReplay.Sound (s : BridgeReplay) : Prop where
  window : s.Window
  client : ∀ c, s.client = some c → c.Ordered s

/-- No client has missed anything yet. -/
def BridgeReplay.GapFree (s : BridgeReplay) : Prop := ∀ c, s.client = some c → c.Gapless s

/-- There is a client, and it has missed something. -/
def BridgeReplay.Gap (s : BridgeReplay) : Prop := ∃ c, s.client = some c ∧ c.Missed s

section Chains

variable {s : BridgeReplay}

/-- **What a step is.**  It emits an event, changes nothing, or gives a client the page of its
cursor: the client there was, or the one that starts. -/
theorem bridgeStep_cases (s : BridgeReplay) (op : BridgeOp) :
    (∃ event, op = .emit event) ∨
    (bridgeStep s op = s ∧ PageRetained s op) ∨
    ∃ c bridgeEpoch limit page,
      s.stream.tailFrames c.cursor (some c.head) bridgeEpoch limit = .ok page ∧
      bridgeStep s op = { s with client := some (c.take page) } ∧
      (PageRetained s op ↔ s.Retains c.cursor c.head) ∧
      (s.client = some c ∨
        s.client = none ∧ ∃ since head, c = .start (max 0 since) (s.stream.fixedHead head)) := by
  cases op with
  | emit event => exact Or.inl ⟨event, rfl⟩
  | firstPage since head bridgeEpoch limit =>
    right
    cases hclient : s.client with
    | some c => exact Or.inl ⟨by simp [bridgeStep, hclient], by simp [PageRetained, hclient]⟩
    | none =>
      cases hp : s.stream.tailFrames since head bridgeEpoch limit with
      | error e =>
        refine Or.inl ⟨by simp [bridgeStep, hclient, hp], ?_⟩
        intro _ hepoch
        simp [ChangeStream.tailFrames, hepoch] at hp
      | ok page =>
        obtain ⟨hepoch, hhead, -⟩ := ChangeStream.tailFrames_ok hp
        refine Or.inr ⟨.start (max 0 since) (s.stream.fixedHead head), bridgeEpoch, limit, page,
          ChangeStream.tailFrames_start hp, ?_, ?_, Or.inr ⟨rfl, since, head, rfl⟩⟩
        · simp [bridgeStep, hclient, hp, hhead]
        · simp [PageRetained, hclient, hepoch, ReplayClient.start]
  | nextPage bridgeEpoch limit =>
    right
    cases hclient : s.client with
    | none => exact Or.inl ⟨by simp [bridgeStep, hclient], by simp [PageRetained, hclient]⟩
    | some c =>
      cases hp : s.stream.tailFrames c.cursor (some c.head) bridgeEpoch limit with
      | error e =>
        refine Or.inl ⟨by simp [bridgeStep, hclient, hp], ?_⟩
        intro _ _ hepoch
        simp [ChangeStream.tailFrames, hepoch] at hp
      | ok page =>
        obtain ⟨hepoch, -⟩ := ChangeStream.tailFrames_ok hp
        refine Or.inr ⟨c, bridgeEpoch, limit, page, hp, ?_, ?_, Or.inl rfl⟩
        · simp [bridgeStep, hclient, hp]
        · simp [PageRetained, hclient, hepoch]

/-- The client that is given a page was in order before it. -/
theorem BridgeReplay.Sound.ordered (h : s.Sound) {c : ReplayClient}
    (hc : s.client = some c ∨
      s.client = none ∧ ∃ since head, c = .start (max 0 since) (s.stream.fixedHead head)) :
    c.Ordered s := by
  rcases hc with hc | ⟨-, since, head, rfl⟩
  · exact h.client c hc
  · exact ReplayClient.ordered_start (le_max_left 0 since)

theorem BridgeReplay.Sound.step (h : s.Sound) (op : BridgeOp) : (bridgeStep s op).Sound := by
  rcases bridgeStep_cases s op with
    ⟨event, rfl⟩ | ⟨heq, -⟩ | ⟨c, bridgeEpoch, limit, page, hp, heq, -, hc⟩
  · exact ⟨h.window.emit event, fun c hc => (h.client c hc).emit event⟩
  · rw [heq]
    exact h
  · have htake : (c.take page).Ordered s := (h.ordered hc).take h.window hp
    rw [heq]
    refine ⟨⟨h.window.ids, h.window.suffix⟩, ?_⟩
    rintro _ ⟨rfl⟩
    exact ⟨htake.since_nonneg, htake.since_le, htake.head_nonneg, htake.head_le, htake.cursor,
      htake.increasing, htake.received, htake.complete⟩

theorem BridgeReplay.GapFree.step (h : s.Sound) (hg : s.GapFree) {op : BridgeOp}
    (hr : PageRetained s op) : (bridgeStep s op).GapFree := by
  rcases bridgeStep_cases s op with
    ⟨event, rfl⟩ | ⟨heq, -⟩ | ⟨c, bridgeEpoch, limit, page, hp, heq, hiff, hc⟩
  · exact fun c hc => (hg c hc).emit (h.client c hc) event
  · rw [heq]
    exact hg
  · have hgap : c.Gapless s := by
      rcases hc with hc | ⟨-, since, head, rfl⟩
      · exact hg c hc
      · exact ReplayClient.gapless_start _ _
    have htake := hgap.take h.window (h.ordered hc) (hiff.mp hr) hp
    rw [heq]
    rintro _ ⟨rfl⟩
    exact htake

theorem BridgeReplay.gap_of_not_retained (h : s.Sound) {op : BridgeOp}
    (hr : ¬ PageRetained s op) : (bridgeStep s op).Gap := by
  rcases bridgeStep_cases s op with
    ⟨event, rfl⟩ | ⟨-, hret⟩ | ⟨c, bridgeEpoch, limit, page, hp, heq, hiff, hc⟩
  · exact absurd trivial hr
  · exact absurd hret hr
  · have hmissed : (c.take page).Missed s :=
      ReplayClient.missed_take (h.ordered hc) (fun hh => hr (hiff.mpr hh)) hp
    rw [heq]
    exact ⟨c.take page, rfl, hmissed⟩

theorem BridgeReplay.Gap.step (h : s.Sound) (hg : s.Gap) (op : BridgeOp) :
    (bridgeStep s op).Gap := by
  obtain ⟨c₀, hc₀, hm⟩ := hg
  rcases bridgeStep_cases s op with
    ⟨event, rfl⟩ | ⟨heq, -⟩ | ⟨c, bridgeEpoch, limit, page, hp, heq, -, hc⟩
  · exact ⟨c₀, hc₀, hm.emit h.window event⟩
  · rw [heq]
    exact ⟨c₀, hc₀, hm⟩
  · rcases hc with hc | ⟨hnone, -⟩
    · obtain rfl : c₀ = c := Option.some.inj (hc₀.symm.trans hc)
      have hmissed : (c₀.take page).Missed s := hm.take (h.ordered (Or.inl hc)) hp
      rw [heq]
      exact ⟨c₀.take page, rfl, hmissed⟩
    · rw [hnone] at hc₀
      cases hc₀

theorem BridgeReplay.sound_fresh {bridgeEpochId : String} {replayLimit : ℕ}
    (h : 0 < replayLimit) : (BridgeReplay.fresh bridgeEpochId replayLimit h).Sound where
  window := ⟨rfl, List.suffix_rfl⟩
  client := by simp [BridgeReplay.fresh]

end Chains

/-! ## 5. The theorem of the chain -/

/-- **A chain is in order, and complete exactly when the buffer kept up with it.**  The ids a client
receives strictly increase and are ids it asked for; and where the last page says
`replay_complete`, the client has every frame after its first cursor and up to the head if and only
if every page was asked for while the buffer retained what it asked for. -/
theorem replay_complete_iff (bridgeEpochId : String) (replayLimit : ℕ) (hlimit : 0 < replayLimit)
    (ops : List BridgeOp) (c : ReplayClient)
    (hc : (Runs.run bridgeStep (.fresh bridgeEpochId replayLimit hlimit) ops).client = some c) :
    (c.received.map BridgeFrame.eventId).Pairwise (· < ·) ∧
    (∀ frame ∈ c.received,
      frame ∈ (Runs.run bridgeStep (.fresh bridgeEpochId replayLimit hlimit) ops).emitted ∧
        c.since < frame.eventId ∧ (frame.eventId : ℚ) ≤ c.head) ∧
    (c.replayComplete = true →
      ((∀ frame ∈ (Runs.run bridgeStep (.fresh bridgeEpochId replayLimit hlimit) ops).emitted,
          c.since < frame.eventId → (frame.eventId : ℚ) ≤ c.head → frame ∈ c.received) ↔
        Runs.Meets bridgeStep PageRetained (.fresh bridgeEpochId replayLimit hlimit) ops)) := by
  have hfresh : (BridgeReplay.fresh bridgeEpochId replayLimit hlimit).Sound :=
    BridgeReplay.sound_fresh hlimit
  have hstep : ∀ s op, BridgeReplay.Sound s → (bridgeStep s op).Sound := fun _ op h => h.step op
  have hsound : (Runs.run bridgeStep (.fresh bridgeEpochId replayLimit hlimit) ops).Sound :=
    Runs.run_invariant_of_forall hstep hfresh
  have hordered := hsound.client c hc
  refine ⟨?_, ?_, ?_⟩
  · refine List.pairwise_map.mpr (hordered.increasing.imp ?_)
    intro a b hab
    simpa [BridgeFrame.key] using hab
  · intro frame hf
    obtain ⟨hin, hsince, -⟩ := hordered.received frame hf
    exact ⟨hin, hsince, hordered.le_head hf⟩
  · intro hcomplete
    constructor
    · -- a page that was not retained has left a gap, and gaps stay
      intro hall
      by_contra hnot
      obtain ⟨c', hc', frame, hin, ⟨hsince, hhead⟩, -, hmissed⟩ :=
        Runs.run_of_not_meets hstep (fun _ _ h hr => BridgeReplay.gap_of_not_retained h hr)
          (fun _ op h hg => hg.step h op) hfresh hnot
      obtain rfl : c = c' := Option.some.inj (hc.symm.trans hc')
      exact hmissed (hall frame hin hsince hhead)
    · intro hmeets frame hin hsince hhead
      have hfree : ∀ s op, (BridgeReplay.Sound s ∧ BridgeReplay.GapFree s) → PageRetained s op →
          (bridgeStep s op).Sound ∧ (bridgeStep s op).GapFree :=
        fun _ op h hr => ⟨h.1.step op, h.2.step h.1 hr⟩
      have hboth := Runs.run_invariant hfree
        ⟨hfresh, by simp [BridgeReplay.GapFree, BridgeReplay.fresh]⟩ hmeets
      have hgapless := hboth.2 c hc
      unfold ReplayClient.Gapless at hgapless
      rw [hgapless]
      exact mem_between.mpr ⟨hin, hsince, hhead.trans (hordered.complete hcomplete)⟩

/-- A chain of one page over a buffer that has lost nothing. -/
theorem replay_complete_iff_onePage :
    Runs.Meets bridgeStep PageRetained (.fresh "boot" 2 (by decide))
      [.emit ⟨"feed_event", "a", "t1"⟩, .firstPage 0 none none none] :=
  ((replay_complete_iff "boot" 2 (by decide)
    [.emit ⟨"feed_event", "a", "t1"⟩, .firstPage 0 none none none] _ rfl).2.2
      (by decide +kernel)).mp (by decide +kernel)

/-! A buffer of two frames and three events: the first page starts behind the buffer, the second
one starts in it and says that the replay is complete. -/

def evictedRun : List BridgeOp :=
  [.emit ⟨"feed_event", "a", "t1"⟩, .emit ⟨"feed_event", "b", "t2"⟩,
    .emit ⟨"feed_event", "c", "t3"⟩, .firstPage 0 none none (some 1), .nextPage none none]

/-- **`replay_complete` does not mean that nothing was missed.**  The first event is after the
first cursor and not after the head, and the client never gets it. -/
theorem replay_complete_after_gap :
    (Runs.run bridgeStep (.fresh "boot" 2 (by decide)) evictedRun).emitted.map
        BridgeFrame.eventId = [1, 2, 3] ∧
    ∃ c, (Runs.run bridgeStep (.fresh "boot" 2 (by decide)) evictedRun).client = some c ∧
      c.since = 0 ∧ c.head = 3 ∧ c.replayComplete = true ∧
      c.received.map BridgeFrame.eventId = [2, 3] := by
  refine ⟨by decide +kernel, _, rfl, ?_⟩
  decide +kernel

end PosseClient
