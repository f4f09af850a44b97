/-
# The bridge's change stream and the pages of its replay buffer

Every bridge event gets the next event id and goes to a replay buffer of at most `replayLimit`
frames; a client that has lost its stream reads the buffer page by page (`events.tail`).  The
first page fixes the head that the replay runs to; each later page starts at the `next_event_id`
of the page before and asks for the same head.

* A frame here is what a page returns (`stripBridgeFrame`), without the instance id and epoch that
  are the same in every frame of the stream.
* The cursor and the requested head are numbers of the client, any finite ones; event ids are
  counted by the stream.
-/
import Mathlib

namespace PosseClient

/-! ## 1. The stream -/

/-- What an event says. -/
structure BridgeEvent where
  kind : String
  payload : String
  ts : String
deriving DecidableEq, Repr

structure BridgeFrame where
  eventId : ℕ
  event : BridgeEvent
deriving DecidableEq, Repr

structure ChangeStream where
  bridgeEpochId : String
  replayLimit : ℕ
  replayLimit_pos : 0 < replayLimit
  eventId : ℕ := 0
  replay : List BridgeFrame := []

def defaultTailLimit : ℕ := 100
def maxTailLimit : ℤ := 500

/-- `boundedLimit`: the limit as an integer, if it reads as one, within 1 and the maximum. -/
def boundedLimit (value : Option ℤ) : ℕ :=
  match value with
  | none => defaultTailLimit
  | some parsed => (max 1 (min maxTailLimit parsed)).toNat

/-- The event gets the next id; the oldest frames beyond the limit leave the buffer. -/
def ChangeStream.emitBridgeEvent (s : ChangeStream) (event : BridgeEvent) : ChangeStream :=
  let replay := s.replay ++ [⟨s.eventId + 1, event⟩]
  { s with
    eventId := s.eventId + 1
    replay := if s.replayLimit < replay.length then replay.drop (replay.length - s.replayLimit)
      else replay }

/-! ## 2. A page -/

structure TailPage where
  events : List BridgeFrame
  headEventId : ℚ
  liveHeadEventId : ℕ
  nextEventId : ℚ
  hasMore : Bool
  replayStartEventId : ℕ
  replayComplete : Bool
deriving DecidableEq

/-- The reply to a request of another epoch. -/
structure BridgeEpochChanged where
  bridgeEpoch : String
  headEventId : ℕ
deriving DecidableEq

/-- The id of the oldest frame of the buffer, the next id when it is empty. -/
def ChangeStream.firstReplayId (s : ChangeStream) : ℕ :=
  match s.replay with
  | [] => s.eventId + 1
  | frame :: _ => frame.eventId

/-- The head a page runs to: what is asked for, if the stream is there already. -/
def ChangeStream.fixedHead (s : ChangeStream) (headEventId : Option ℚ) : ℚ :=
  match headEventId with
  | none => s.eventId
  | some requested => min (s.eventId : ℚ) (max 0 requested)

/-- The frames of the buffer between the cursor and the head. -/
def ChangeStream.eligible (s : ChangeStream) (since head : ℚ) : List BridgeFrame :=
  s.replay.filter fun frame => decide (since < frame.eventId ∧ (frame.eventId : ℚ) ≤ head)

def ChangeStream.tailFrames (s : ChangeStream) (sinceEventId : ℚ) (headEventId : Option ℚ)
    (bridgeEpoch : Option String) (limit : Option ℤ) : Except BridgeEpochChanged TailPage :=
  if bridgeEpoch.any (· != s.bridgeEpochId) then .error ⟨s.bridgeEpochId, s.eventId⟩ else
  let since := max 0 sinceEventId
  let fixedHead := s.fixedHead headEventId
  let eligible := s.eligible since fixedHead
  let events := eligible.take (boundedLimit limit)
  let nextEventId : ℚ := (events.getLast?.map fun frame => (frame.eventId : ℚ)).getD since
  let hasMore := decide (events.length < eligible.length)
  let retainedFromCursor := decide (fixedHead ≤ since ∨ (s.firstReplayId : ℚ) - 1 ≤ since)
  .ok
    { events := events
      headEventId := fixedHead
      liveHeadEventId := s.eventId
      nextEventId := nextEventId
      hasMore := hasMore
      replayStartEventId := s.firstReplayId
      replayComplete := retainedFromCursor && !hasMore && decide (fixedHead ≤ nextEventId) }

/-! ## 3. A client that pages -/

/-- What the client of one replay keeps: where it started, the head of the first page, its cursor,
what it has received and what the last page said. -/
structure ReplayClient where
  since : ℚ
  head : ℚ
  cursor : ℚ
  received : List BridgeFrame
  replayComplete : Bool
deriving DecidableEq

/-- The stream with its client; `emitted` is every frame the stream ever made. -/
structure BridgeReplay where
  stream : ChangeStream
  emitted : List BridgeFrame := []
  client : Option ReplayClient := none

inductive BridgeOp
  | emit (event : BridgeEvent)
  | firstPage (since : ℚ) (head : Option ℚ) (bridgeEpoch : Option String) (limit : Option ℤ)
  | nextPage (bridgeEpoch : Option String) (limit : Option ℤ)
deriving DecidableEq

/-- The client takes a page in: the frames after those it has, the cursor of the page. -/
def ReplayClient.take (c : ReplayClient) (page : TailPage) : ReplayClient :=
  { c with
    cursor := page.nextEventId
    received := c.received ++ page.events
    replayComplete := page.replayComplete }

/-- The client before its first page. -/
def ReplayClient.start (since head : ℚ) : ReplayClient :=
  ⟨since, head, since, [], false⟩

/-- One event or one page.  A chain has one first page; a reply of another epoch gives nothing. -/
def bridgeStep (s : BridgeReplay) : BridgeOp → BridgeReplay
  | .emit event =>
    { s with
      stream := s.stream.emitBridgeEvent event
      emitted := s.emitted ++ [⟨s.stream.eventId + 1, event⟩] }
  | .firstPage since head bridgeEpoch limit =>
    match s.client, s.stream.tailFrames since head bridgeEpoch limit with
    | none, .ok page =>
      { s with client := some ((ReplayClient.start (max 0 since) page.headEventId).take page) }
    | _, _ => s
  | .nextPage bridgeEpoch limit =>
    match s.client with
    | none => s
    | some c =>
      match s.stream.tailFrames c.cursor (some c.head) bridgeEpoch limit with
      | .ok page => { s with client := some (c.take page) }
      | .error _ => s

/-- A stream that has emitted nothing, and no client yet. -/
def BridgeReplay.fresh (bridgeEpochId : String) (replayLimit : ℕ) (h : 0 < replayLimit) :
    BridgeReplay :=
  { stream := ⟨bridgeEpochId, replayLimit, h, 0, []⟩ }

end PosseClient
