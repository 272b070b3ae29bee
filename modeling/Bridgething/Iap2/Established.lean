/-
The established phase of the accessory link: a window of numbered packets, sent
again until the peer acknowledges them, and put back in order where they arrive.
-/
import Bridgething.Iap2.Frame
import Bridgething.Lib.Serial
import Bridgething.Lib.Table

namespace Bridgething

namespace Iap2

/-- What the peer announced of itself. -/
structure Lsp where
  maxOutgoing : UInt8
  maxLen : UInt16
deriving Repr, DecidableEq

structure LinkParams where
  maxOutgoing : Nat
  maxPayloadLen : Nat
deriving Repr, DecidableEq

def LinkParams.fromPeerLsp (lsp : Lsp) : LinkParams where
  maxOutgoing := max lsp.maxOutgoing.toNat 1
  maxPayloadLen := max (lsp.maxLen.toNat - LINK_FRAME_OVERHEAD) 1

/-- A payload with the session it belongs to. -/
abbrev Chunk := UInt8 × Bytes

/-- A packet that was sent.  The link never looks at `deliveredBefore`, how much
it had delivered itself when it sent the packet first. -/
structure UnackedPacket where
  seq : UInt8
  wire : LinkPacket
  deliveredBefore : Nat
deriving Repr, DecidableEq

/-- The state of a link without its clocks; `enqueued` and `delivered` are all
that was ever given to it and handed up by it. -/
structure EstablishedState where
  params : LinkParams
  lastSentPsn : UInt8
  unacked : List UnackedPacket
  pendingSend : List Chunk
  lastReceivedInSequencePsn : UInt8
  outOfOrder : Table UInt8 LinkPacket
  unackedDelivery : Bool
  mustSendAck : Bool
  enqueued : List Chunk
  delivered : List Chunk
deriving Repr, DecidableEq

namespace EstablishedState

def new (initialPsn peerInitialPsn : UInt8) (peerLsp : Lsp) :
    EstablishedState where
  params := .fromPeerLsp peerLsp
  lastSentPsn := initialPsn
  unacked := []
  pendingSend := []
  lastReceivedInSequencePsn := peerInitialPsn
  outOfOrder := []
  unackedDelivery := false
  mustSendAck := false
  enqueued := []
  delivered := []

def needsAck (state : EstablishedState) : Bool :=
  state.mustSendAck || state.unackedDelivery

/-- A payload cut to the peer's length; an empty one is none.  Each turn of the
loop takes at least one byte. -/
def chunks (maxLen : Nat) : Nat → Bytes → List Bytes
  | 0, _ => []
  | fuel + 1, remaining =>
      if remaining.length > maxLen then
        remaining.take maxLen :: chunks maxLen fuel (remaining.drop maxLen)
      else if remaining ≠ [] then [remaining]
      else []

def enqueueSend (state : EstablishedState) (sessionId : UInt8)
    (payload : Bytes) : EstablishedState :=
  let cut := (chunks state.params.maxPayloadLen (payload.length + 1) payload).map
    fun chunk => (sessionId, chunk)
  { state with
    pendingSend := state.pendingSend ++ cut
    enqueued := state.enqueued ++ cut }

def windowHasRoom (state : EstablishedState) : Bool :=
  state.unacked.length < state.params.maxOutgoing

def sendDataPacket (state : EstablishedState) (chunk : Chunk) :
    EstablishedState × LinkPacket :=
  let seq := state.lastSentPsn + 1
  let packet := LinkPacket.withPayload .ACK seq state.lastReceivedInSequencePsn
    chunk.1 chunk.2
  ({ state with
      lastSentPsn := seq
      unackedDelivery := false
      mustSendAck := false
      unacked := state.unacked ++ [⟨seq, packet, state.delivered.length⟩] },
    packet)

/-- Send while there is room, the head of the queue first. -/
def drainFrom (state : EstablishedState) :
    List Chunk → EstablishedState × List LinkPacket
  | [] => ({ state with pendingSend := [] }, [])
  | chunk :: rest =>
      if state.windowHasRoom then
        let (state, packet) := state.sendDataPacket chunk
        let (state, packets) := drainFrom state rest
        (state, packet :: packets)
      else ({ state with pendingSend := chunk :: rest }, [])

def drainPendingSend (state : EstablishedState) :
    EstablishedState × List LinkPacket :=
  state.drainFrom state.pendingSend

def sendStandaloneAck (state : EstablishedState) :
    EstablishedState × LinkPacket :=
  ({ state with unackedDelivery := false, mustSendAck := false },
    .headerOnly .ACK state.lastSentPsn state.lastReceivedInSequencePsn)

/-- The numbers from the one after the last in sequence on that are not
buffered. -/
def missing (state : EstablishedState) (total : Nat) : Bytes :=
  ((List.range total).map fun step =>
      state.lastReceivedInSequencePsn + 1 + UInt8.ofNat step).filter
    fun probe => (state.outOfOrder.get? probe).isNone

/-- The last key of a map that is ordered by the numbers themselves. -/
def lastKey : List UInt8 → Option UInt8
  | [] => none
  | key :: rest =>
      match lastKey rest with
      | none => some key
      | some last => some (if key ≤ last then last else key)

def furthestBuffered (state : EstablishedState) : Option UInt8 :=
  lastKey state.outOfOrder.keys

def sendEak (state : EstablishedState) :
    EstablishedState × List LinkPacket :=
  match state.furthestBuffered with
  | none => (state, [])
  | some furthest =>
      let total :=
        (furthest - state.lastReceivedInSequencePsn).toNat
      let payload := state.missing total
      if payload = [] then (state, [])
      else
        ({ state with unackedDelivery := false, mustSendAck := false },
          [.withPayload (ControlBits.EAK.union .ACK) state.lastSentPsn
            state.lastReceivedInSequencePsn 0 payload])

/-- The packets that are sent again. -/
def handleInboundEak (state : EstablishedState) (payload : Bytes) :
    List LinkPacket :=
  payload.filterMap fun missingSeq =>
    (state.unacked.find? fun packet => packet.seq = missingSeq).map
      UnackedPacket.wire

def handleInboundAck (state : EstablishedState) (ackValue : UInt8) :
    EstablishedState :=
  { state with
    unacked := state.unacked.dropWhile fun packet =>
      ¬ (ackValue - packet.seq).toNat > 127 }

def deliver (state : EstablishedState) (seq : UInt8) (packet : LinkPacket) :
    EstablishedState :=
  { state with
    lastReceivedInSequencePsn := seq
    unackedDelivery := true
    delivered := state.delivered ++ [(packet.header.sessionId, packet.payload)] }

/-- Each turn of the loop takes a packet out of the buffer. -/
def deliverBuffered : Nat → EstablishedState → EstablishedState
  | 0, state => state
  | fuel + 1, state =>
      let next := state.lastReceivedInSequencePsn + 1
      match state.outOfOrder.get? next with
      | none => state
      | some buffered =>
          deliverBuffered fuel
            ({ state with
              outOfOrder := state.outOfOrder.remove next : EstablishedState
              }.deliver next buffered)

def handleInboundData (state : EstablishedState) (packet : LinkPacket) :
    EstablishedState :=
  let recvSeq := packet.header.seq
  let delta := (recvSeq - state.lastReceivedInSequencePsn).toNat
  if delta = 0 then { state with mustSendAck := true }
  else if delta = 1 then
    deliverBuffered state.outOfOrder.length (state.deliver recvSeq packet)
  else if delta < state.params.maxOutgoing then
    { state with outOfOrder := state.outOfOrder.put recvSeq packet }
  else { state with mustSendAck := true }

/-- The packet that is sent again when the timer fires. -/
def handleRetransmitFire (state : EstablishedState) : List LinkPacket :=
  (state.unacked.head?.map UnackedPacket.wire).toList

def acknowledge (state : EstablishedState) (header : LinkHeader) :
    EstablishedState :=
  if header.control.ack then state.handleInboundAck header.ack else state

def takePayload (state : EstablishedState) (packet : LinkPacket) :
    EstablishedState × List LinkPacket :=
  if packet.header.control.eak then
    (state, state.handleInboundEak packet.payload)
  else if packet.header.hasPayload ∧ ¬ packet.header.control.syn then
    let state := state.handleInboundData packet
    if state.outOfOrder ≠ [] then state.sendEak else (state, [])
  else (state, [])

/-- A packet of the peer, as the loop of the established phase takes it; a reset
ends the link. -/
def receive (state : EstablishedState) (packet : LinkPacket) :
    EstablishedState × List LinkPacket :=
  if packet.header.control.rst then (state, [])
  else (state.acknowledge packet.header).takePayload packet

/-- What the loop does once it has taken all packets. -/
def settle (state : EstablishedState) :
    EstablishedState × List LinkPacket :=
  let (state, packets) := state.drainPendingSend
  if state.needsAck then
    let (state, ack) := state.sendStandaloneAck
    (state, packets ++ [ack])
  else (state, packets)

end EstablishedState

/-- What happens to one end of a link. -/
inductive LinkEvent
  | receive (packet : LinkPacket)
  | settle
  | send (sessionId : UInt8) (payload : Bytes)
  | retransmit
deriving Repr, DecidableEq

namespace EstablishedState

/-- The state after an event, and the packets it sends. -/
def step (state : EstablishedState) :
    LinkEvent → EstablishedState × List LinkPacket
  | .receive packet => state.receive packet
  | .settle => state.settle
  | .send sessionId payload => (state.enqueueSend sessionId payload, [])
  | .retransmit => (state, state.handleRetransmitFire)

/-- A state of a link under events in any order. -/
def after (start : EstablishedState) (events : List LinkEvent) :
    EstablishedState :=
  events.foldl (fun state event => (state.step event).1) start

end EstablishedState

end Iap2

end Bridgething
