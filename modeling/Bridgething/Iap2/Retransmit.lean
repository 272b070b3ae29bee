/-
The sending side of an established link with its clocks: how often a packet was
sent again, how long an answer takes, when the timer fires and when the link is
given up.
-/
import Bridgething.Iap2.Established

namespace Bridgething

namespace Iap2

/-- What the peer announced of itself, with what it said of retransmission. -/
structure PeerLsp extends Lsp where
  retransmissionTimeoutMs : UInt16
  maxRetransmissions : UInt8
deriving Repr, DecidableEq

/-- Times are in nanoseconds, lengths of time and instants both. -/
def fromMillis (ms : Nat) : Nat := ms * 1000000

def fromSecs (secs : Nat) : Nat := secs * 1000000000

def RTO_MIN : Nat := fromMillis 500

def RTO_MAX : Nat := fromSecs 8

def RETRANSMIT_GIVE_UP : Nat := fromSecs 60

/-- How far two times are apart. -/
def absDiff (left right : Nat) : Nat :=
  if left ≤ right then right - left else left - right

structure RttEstimator where
  srtt : Option Nat
  rttvar : Nat
  seed : Nat
deriving Repr, DecidableEq

namespace RttEstimator

def new (seed : Nat) : RttEstimator where
  srtt := none
  rttvar := 0
  seed := seed

def sample (estimator : RttEstimator) (rtt : Nat) : RttEstimator :=
  match estimator.srtt with
  | none => { estimator with srtt := some rtt, rttvar := rtt / 2 }
  | some srtt =>
      let err := absDiff srtt rtt
      { estimator with
        rttvar := (estimator.rttvar * 3 + err) / 4
        srtt := some ((srtt * 7 + rtt) / 8) }

def rto (estimator : RttEstimator) : Nat :=
  match estimator.srtt with
  | none => estimator.seed
  | some srtt => max RTO_MIN (min (srtt + 4 * estimator.rttvar) RTO_MAX)

end RttEstimator

/-- A packet that was sent.  The link never looks at `transmissions`, how often
it was written to the wire. -/
structure TimedPacket where
  seq : UInt8
  wire : LinkPacket
  sentAt : Nat
  retryCount : UInt8
  transmissions : Nat
deriving Repr, DecidableEq

structure TimedState where
  params : LinkParams
  lastSentPsn : UInt8
  unacked : List TimedPacket
  pendingSend : List Chunk
  rtt : RttEstimator
  rto : Nat
  retransmitAt : Option Nat
  lastProgress : Nat
  giveUpAfter : Nat
deriving Repr, DecidableEq

namespace TimedState

def seedRto (peerLsp : PeerLsp) : Nat :=
  fromMillis peerLsp.retransmissionTimeoutMs.toNat

def new (initialPsn : UInt8) (peerLsp : PeerLsp) (giveUpAfter now : Nat) :
    TimedState where
  params := .fromPeerLsp peerLsp.toLsp
  lastSentPsn := initialPsn
  unacked := []
  pendingSend := []
  rtt := .new (seedRto peerLsp)
  rto := seedRto peerLsp
  retransmitAt := none
  lastProgress := now
  giveUpAfter := giveUpAfter

def armRetransmit (state : TimedState) (now : Nat) : TimedState :=
  { state with
    retransmitAt :=
      if state.unacked = [] then none else some (now + state.rto) }

def enqueueSend (state : TimedState) (sessionId : UInt8) (payload : Bytes) :
    TimedState :=
  let max := state.params.maxPayloadLen
  { state with
    pendingSend := state.pendingSend ++
      (EstablishedState.chunks max (payload.length + 1) payload).map
        fun chunk => (sessionId, chunk) }

def windowHasRoom (state : TimedState) : Bool :=
  state.unacked.length < state.params.maxOutgoing

/-- `received` is what the other side of the state has in sequence. -/
def sendDataPacket (state : TimedState) (received : UInt8) (now : Nat)
    (chunk : Chunk) : TimedState × LinkPacket :=
  let seq := state.lastSentPsn + 1
  let packet := LinkPacket.withPayload .ACK seq received chunk.1 chunk.2
  let sent := { state with
    lastSentPsn := seq
    unacked := state.unacked ++ [⟨seq, packet, now, 0, 1⟩] }
  if state.unacked = [] then
    ({ sent with lastProgress := now : TimedState }.armRetransmit now, packet)
  else (sent, packet)

/-- Send while there is room, the head of the queue first; `clock` is read once
for each packet. -/
def drainFrom (state : TimedState) (received : UInt8) (clock : Nat → Nat) :
    List Chunk → TimedState × List LinkPacket
  | [] => ({ state with pendingSend := [] }, [])
  | chunk :: rest =>
      if state.windowHasRoom then
        let (state, packet) := state.sendDataPacket received (clock 0) chunk
        let (state, packets) :=
          drainFrom state received (fun tick => clock (tick + 1)) rest
        (state, packet :: packets)
      else ({ state with pendingSend := chunk :: rest }, [])

def drainPendingSend (state : TimedState) (received : UInt8)
    (clock : Nat → Nat) : TimedState × List LinkPacket :=
  state.drainFrom received clock state.pendingSend

/-- `saturating_add(1)`. -/
def saturatingSucc (count : UInt8) : UInt8 :=
  if count = 255 then 255 else count + 1

/-- The first packet of a number is sent again. -/
def resend (missingSeq : UInt8) :
    List TimedPacket → List TimedPacket × List LinkPacket
  | [] => ([], [])
  | packet :: rest =>
      if packet.seq = missingSeq then
        ({ packet with
            retryCount := saturatingSucc packet.retryCount
            transmissions := packet.transmissions + 1 } :: rest,
          [packet.wire])
      else
        let (rest, wires) := resend missingSeq rest
        (packet :: rest, wires)

def handleInboundEak (state : TimedState) :
    Bytes → TimedState × List LinkPacket
  | [] => (state, [])
  | missingSeq :: payload =>
      let (unacked, wires) := resend missingSeq state.unacked
      let (state, more) :=
        handleInboundEak { state with unacked := unacked } payload
      (state, wires ++ more)

/-- What an acknowledgement takes off the head of the window, and what is left
of it. -/
def popAcked (ackValue : UInt8) :
    List TimedPacket → List TimedPacket × List TimedPacket
  | [] => ([], [])
  | front :: rest =>
      if (ackValue - front.seq).toNat > 127 then ([], front :: rest)
      else
        let (popped, left) := popAcked ackValue rest
        (front :: popped, left)

/-- The first of the packets that was not sent again. -/
def sampled (popped : List TimedPacket) : Option TimedPacket :=
  popped.find? fun packet => packet.retryCount = 0

def handleInboundAck (state : TimedState) (ackValue : UInt8)
    (now : Nat) : TimedState :=
  let (popped, left) := popAcked ackValue state.unacked
  if popped = [] then state
  else
    let state := { state with unacked := left }
    let state :=
      match sampled popped with
      | none => state
      | some packet =>
          let rtt := state.rtt.sample (now - packet.sentAt)
          { state with rtt := rtt, rto := rtt.rto }
    { state with lastProgress := now : TimedState }.armRetransmit now

/-- What the timer does to the state, what it sends again, and whether the link
is given up.  `retryCount + 1` wraps, as it does in a release build. -/
def handleRetransmitFire (state : TimedState) (now : Nat) :
    TimedState × List LinkPacket × Bool :=
  match state.retransmitAt with
  | none => (state, [], false)
  | some due =>
      if due > now then (state, [], false)
      else
        match state.unacked with
        | [] => ({ state with retransmitAt := none }, [], false)
        | front :: rest =>
            if now - state.lastProgress ≥ state.giveUpAfter then
              (state, [], true)
            else
              let front := { front with
                retryCount := front.retryCount + 1
                transmissions := front.transmissions + 1 }
              ({ state with
                  unacked := front :: rest
                  rto := min (state.rto * 2) RTO_MAX : TimedState
                  }.armRetransmit now,
                [front.wire], false)

end TimedState

/-- What happens to the sending side of a link. -/
inductive TimedEvent
  | send (sessionId : UInt8) (payload : Bytes)
  | drain (received : UInt8) (clock : Nat → Nat)
  | eak (payload : Bytes)
  | ack (value : UInt8) (now : Nat)
  | fire (now : Nat)

namespace TimedState

def step (state : TimedState) : TimedEvent → TimedState
  | .send sessionId payload => state.enqueueSend sessionId payload
  | .drain received clock => (state.drainPendingSend received clock).1
  | .eak payload => (state.handleInboundEak payload).1
  | .ack value now => state.handleInboundAck value now
  | .fire now => (state.handleRetransmitFire now).1

end TimedState

/-! ### What the clocks leave as it is -/

/-- The number and the bytes of a packet that is out. -/
def TimedPacket.label (packet : TimedPacket) : UInt8 × LinkPacket :=
  (packet.seq, packet.wire)

def UnackedPacket.label (packet : UnackedPacket) : UInt8 × LinkPacket :=
  (packet.seq, packet.wire)

theorem EstablishedState.handleInboundEak_labels (state : EstablishedState)
    (payload : Bytes) :
    state.handleInboundEak payload = payload.filterMap fun missingSeq =>
      ((state.unacked.map UnackedPacket.label).find? fun label =>
        label.1 = missingSeq).map Prod.snd := by
  unfold handleInboundEak
  congr 1
  funext missingSeq
  rw [List.find?_map, Option.map_map]
  rfl

/-- The sending side of a state without clocks is that of the one with. -/
structure Follows (state : EstablishedState) (timed : TimedState) : Prop where
  params : state.params = timed.params
  lastSentPsn : state.lastSentPsn = timed.lastSentPsn
  pendingSend : state.pendingSend = timed.pendingSend
  unacked : state.unacked.map UnackedPacket.label =
    timed.unacked.map TimedPacket.label

namespace TimedState

theorem resend_labels (missingSeq : UInt8) (packets : List TimedPacket) :
    (resend missingSeq packets).1.map TimedPacket.label =
      packets.map TimedPacket.label := by
  induction packets with
  | nil => rfl
  | cons packet rest ih =>
      rw [resend]
      split
      · rfl
      · rw [List.map_cons, ih, List.map_cons]

theorem resend_wires (missingSeq : UInt8) (packets : List TimedPacket) :
    (resend missingSeq packets).2 =
      (((packets.map TimedPacket.label).find? fun label =>
        label.1 = missingSeq).map Prod.snd).toList := by
  induction packets with
  | nil => rfl
  | cons packet rest ih =>
      rw [resend]
      by_cases hseq : packet.seq = missingSeq
      · simp [TimedPacket.label, hseq]
      · rw [if_neg hseq, List.map_cons, List.find?_cons_of_neg
          (by simp [TimedPacket.label, hseq])]
        exact ih

theorem popAcked_append (ackValue : UInt8) (packets : List TimedPacket) :
    (popAcked ackValue packets).1 ++ (popAcked ackValue packets).2 =
      packets := by
  induction packets with
  | nil => rfl
  | cons front rest ih =>
      rw [popAcked]
      split
      · rfl
      · simpa using ih

theorem popAcked_left (ackValue : UInt8) (packets : List TimedPacket) :
    (popAcked ackValue packets).2.map TimedPacket.label =
      (packets.map TimedPacket.label).dropWhile fun label =>
        ¬ (ackValue - label.1).toNat > 127 := by
  induction packets with
  | nil => rfl
  | cons front rest ih =>
      rw [popAcked, List.map_cons]
      by_cases hfar : (ackValue - front.seq).toNat > 127
      · simp [hfar, TimedPacket.label]
      · rw [if_neg hfar, List.dropWhile_cons_of_pos
          (by simpa [TimedPacket.label] using hfar)]
        exact ih

@[simp] theorem armRetransmit_lastSentPsn (state : TimedState)
    (now : Nat) :
    (state.armRetransmit now).lastSentPsn = state.lastSentPsn := rfl

@[simp] theorem armRetransmit_unacked (state : TimedState) (now : Nat) :
    (state.armRetransmit now).unacked = state.unacked := rfl

end TimedState

namespace Follows

variable {state : EstablishedState} {timed : TimedState}

theorem new (initialPsn peerInitialPsn : UInt8) (peerLsp : PeerLsp)
    (giveUpAfter now : Nat) :
    Follows (.new initialPsn peerInitialPsn peerLsp.toLsp)
      (.new initialPsn peerLsp giveUpAfter now) :=
  ⟨rfl, rfl, rfl, rfl⟩

theorem unacked_length (h : Follows state timed) :
    state.unacked.length = timed.unacked.length := by
  simpa using congrArg List.length h.unacked

theorem windowHasRoom (h : Follows state timed) :
    state.windowHasRoom = timed.windowHasRoom := by
  rw [EstablishedState.windowHasRoom, TimedState.windowHasRoom,
    h.unacked_length, h.params]

theorem enqueueSend (h : Follows state timed) (sessionId : UInt8)
    (payload : Bytes) :
    Follows (state.enqueueSend sessionId payload)
      (timed.enqueueSend sessionId payload) := by
  refine ⟨h.params, h.lastSentPsn, ?_, h.unacked⟩
  simp only [EstablishedState.enqueueSend, TimedState.enqueueSend,
    h.pendingSend, h.params]

theorem sendDataPacket (h : Follows state timed) (now : Nat)
    (chunk : Chunk) :
    Follows (state.sendDataPacket chunk).1
        (timed.sendDataPacket state.lastReceivedInSequencePsn now chunk).1 ∧
      (state.sendDataPacket chunk).2 =
        (timed.sendDataPacket state.lastReceivedInSequencePsn now chunk).2 := by
  have hlast := h.lastSentPsn
  unfold EstablishedState.sendDataPacket TimedState.sendDataPacket
  dsimp only
  split
  all_goals
    refine ⟨⟨h.params, ?_, h.pendingSend, ?_⟩, ?_⟩
    · simp [hlast]
    · simp [h.unacked, hlast, TimedPacket.label, UnackedPacket.label]
    · rw [hlast]

theorem drainFrom (h : Follows state timed) (clock : Nat → Nat)
    (chunks : List Chunk) :
    Follows (state.drainFrom chunks).1
        (timed.drainFrom state.lastReceivedInSequencePsn clock chunks).1 ∧
      (state.drainFrom chunks).2 =
        (timed.drainFrom state.lastReceivedInSequencePsn clock chunks).2 := by
  induction chunks generalizing state timed clock with
  | nil => exact ⟨⟨h.params, h.lastSentPsn, rfl, h.unacked⟩, rfl⟩
  | cons chunk rest ih =>
      rw [EstablishedState.drainFrom, TimedState.drainFrom, h.windowHasRoom]
      split
      · have hsent := h.sendDataPacket (clock 0) chunk
        have hrest := ih hsent.1 fun tick => clock (tick + 1)
        exact ⟨hrest.1, congrArg₂ List.cons hsent.2 hrest.2⟩
      · exact ⟨⟨h.params, h.lastSentPsn, rfl, h.unacked⟩, rfl⟩

theorem handleInboundAck (h : Follows state timed) (ackValue : UInt8)
    (now : Nat) :
    Follows (state.handleInboundAck ackValue)
      (timed.handleInboundAck ackValue now) := by
  have hleft : (state.handleInboundAck ackValue).unacked.map
      UnackedPacket.label =
        (TimedState.popAcked ackValue timed.unacked).2.map
          TimedPacket.label := by
    rw [TimedState.popAcked_left, ← h.unacked, List.dropWhile_map]
    rfl
  have hwhole := TimedState.popAcked_append ackValue timed.unacked
  unfold TimedState.handleInboundAck
  dsimp only
  split
  · rename_i hnone
    rw [hnone, List.nil_append] at hwhole
    exact ⟨h.params, h.lastSentPsn, h.pendingSend, by rw [hleft, hwhole]⟩
  · split
    · exact ⟨h.params, h.lastSentPsn, h.pendingSend, hleft⟩
    · exact ⟨h.params, h.lastSentPsn, h.pendingSend, hleft⟩

theorem handleInboundEak (h : Follows state timed) (payload : Bytes) :
    Follows state (timed.handleInboundEak payload).1 ∧
      state.handleInboundEak payload =
        (timed.handleInboundEak payload).2 := by
  induction payload generalizing timed with
  | nil => exact ⟨h, rfl⟩
  | cons missingSeq payload ih =>
      have hnext : Follows state
          { timed with
            unacked := (TimedState.resend missingSeq timed.unacked).1 } :=
        ⟨h.params, h.lastSentPsn, h.pendingSend,
          by rw [TimedState.resend_labels, h.unacked]⟩
      have hrest := ih hnext
      refine ⟨hrest.1, ?_⟩
      have hwires : (timed.handleInboundEak (missingSeq :: payload)).2 =
          (TimedState.resend missingSeq timed.unacked).2 ++
            state.handleInboundEak payload := by
        rw [hrest.2]
        rfl
      rw [hwires, TimedState.resend_wires, ← h.unacked,
        EstablishedState.handleInboundEak_labels,
        EstablishedState.handleInboundEak_labels, List.filterMap_cons]
      cases (state.unacked.map UnackedPacket.label).find? fun label =>
          label.1 = missingSeq with
      | none => rfl
      | some label => rfl

/-- A timer that fires sends the head again, or nothing. -/
theorem handleRetransmitFire (h : Follows state timed) (now : Nat) :
    Follows state (timed.handleRetransmitFire now).1 ∧
      ((timed.handleRetransmitFire now).2.1 = [] ∨
        (timed.handleRetransmitFire now).2.1 =
          state.handleRetransmitFire) := by
  unfold TimedState.handleRetransmitFire
  split
  · exact ⟨h, .inl rfl⟩
  · split
    · exact ⟨h, .inl rfl⟩
    · split
      · exact ⟨⟨h.params, h.lastSentPsn, h.pendingSend, h.unacked⟩, .inl rfl⟩
      · rename_i front rest hunacked
        split
        · exact ⟨h, .inl rfl⟩
        · have hlabels := h.unacked
          rw [hunacked] at hlabels
          refine ⟨⟨h.params, h.lastSentPsn, h.pendingSend, ?_⟩, .inr ?_⟩
          · exact hlabels
          · unfold EstablishedState.handleRetransmitFire
            cases hstate : state.unacked with
            | nil => simp [hstate] at hlabels
            | cons first others =>
                rw [hstate] at hlabels
                simp only [List.map_cons, List.cons.injEq, TimedPacket.label,
                  UnackedPacket.label, Prod.mk.injEq] at hlabels
                simp [hlabels.1.2]

end Follows

end Iap2

end Bridgething
