/-
Both windows of a link in every state it reaches: what was sent and is not
acknowledged, with the timer that is armed for it, and what is buffered because
it came too soon.
-/
import Bridgething.Iap2.Acks
import Bridgething.Iap2.Eak
import Bridgething.Iap2.Retransmit

namespace Bridgething

namespace Iap2

open Serial

/-- What happens to one end of a link, with the clock as it is read then. -/
inductive ClockedEvent
  | receive (packet : LinkPacket) (now : Nat)
  | settle (clock : Nat → Nat)
  | send (sessionId : UInt8) (payload : Bytes)
  | retransmit (now : Nat)

/-- The same event without its clock. -/
def ClockedEvent.event : ClockedEvent → LinkEvent
  | .receive packet _ => .receive packet
  | .settle _ => .settle
  | .send sessionId payload => .send sessionId payload
  | .retransmit _ => .retransmit

/-- What an event is to the clocks of a link. -/
def ClockedEvent.timed (state : EstablishedState) :
    ClockedEvent → List TimedEvent
  | .receive packet now =>
      if packet.header.control.rst then []
      else
        (if packet.header.control.ack then [.ack packet.header.ack now] else [])
          ++ if packet.header.control.eak then [.eak packet.payload] else []
  | .settle clock => [.drain state.lastReceivedInSequencePsn clock]
  | .send sessionId payload => [.send sessionId payload]
  | .retransmit now => [.fire now]

def TimedState.run (timed : TimedState) (events : List TimedEvent) :
    TimedState := events.foldl TimedState.step timed

/-! ### The clocks -/

namespace TimedState

theorem run_append (timed : TimedState) (front back : List TimedEvent) :
    timed.run (front ++ back) = (timed.run front).run back :=
  List.foldl_append

variable {timed : TimedState}

/-- The timer is armed while a packet is out. -/
def Armed (timed : TimedState) : Prop :=
  timed.retransmitAt.isSome = true ↔ timed.unacked ≠ []

theorem armed_armRetransmit (timed : TimedState) (now : Nat) :
    (timed.armRetransmit now).Armed := by
  simp only [Armed, armRetransmit]
  split
  · next hnone => simp [hnone]
  · next hsome => simp [hsome]

theorem Armed.sendDataPacket (h : timed.Armed) (received : UInt8) (now : Nat)
    (chunk : Chunk) : (timed.sendDataPacket received now chunk).1.Armed := by
  simp only [TimedState.sendDataPacket]
  split
  · exact armed_armRetransmit _ now
  · next hout =>
      have harmed : timed.retransmitAt.isSome = true := h.mpr hout
      simp [Armed, harmed]

theorem Armed.drainFrom (h : timed.Armed) (received : UInt8)
    (clock : Nat → Nat) (chunks : List Chunk) :
    (timed.drainFrom received clock chunks).1.Armed := by
  induction chunks generalizing timed clock with
  | nil => exact h
  | cons chunk rest ih =>
      rw [TimedState.drainFrom]
      split
      · exact ih (h.sendDataPacket received (clock 0) chunk) _
      · exact h

theorem resend_eq_nil (missingSeq : UInt8) (packets : List TimedPacket) :
    (resend missingSeq packets).1 = [] ↔ packets = [] := by
  cases packets with
  | nil => simp [resend]
  | cons packet rest =>
      rw [resend]
      split <;> simp

theorem Armed.handleInboundEak (h : timed.Armed) (payload : Bytes) :
    (timed.handleInboundEak payload).1.Armed := by
  induction payload generalizing timed with
  | nil => exact h
  | cons missingSeq payload ih =>
      apply ih
      simp only [Armed, ne_eq, resend_eq_nil]
      exact h

theorem Armed.handleInboundAck (h : timed.Armed) (value : UInt8) (now : Nat) :
    (timed.handleInboundAck value now).Armed := by
  simp only [TimedState.handleInboundAck]
  split
  · exact h
  · exact armed_armRetransmit _ now

theorem Armed.handleRetransmitFire (h : timed.Armed) (now : Nat) :
    (timed.handleRetransmitFire now).1.Armed := by
  simp only [TimedState.handleRetransmitFire]
  split
  · exact h
  · split
    · exact h
    · split
      · next hnone => simp [Armed, hnone]
      · split
        · exact h
        · exact armed_armRetransmit _ now

theorem Armed.step (h : timed.Armed) (event : TimedEvent) :
    (timed.step event).Armed := by
  cases event with
  | send sessionId payload => exact h
  | drain received clock => exact h.drainFrom received clock _
  | eak payload => exact h.handleInboundEak payload
  | ack value now => exact h.handleInboundAck value now
  | fire now => exact h.handleRetransmitFire now

theorem Armed.run (h : timed.Armed) (events : List TimedEvent) :
    (timed.run events).Armed := by
  induction events generalizing timed with
  | nil => exact h
  | cons event rest ih => exact ih (h.step event)

end TimedState

/-! ### What is buffered -/

namespace EstablishedState

variable {state : EstablishedState}

/-- What is buffered is not beyond the window. -/
def Near (state : EstablishedState) : Prop :=
  ∀ number, state.Buffered number →
    state.distance number < state.params.maxOutgoing

theorem SameReceiver.near {next : EstablishedState}
    (hsame : SameReceiver state next) (h : state.Near) : next.Near := by
  intro number hbuffered
  rw [Buffered, hsame.outOfOrder] at hbuffered
  rw [distance, hsame.last, hsame.params]
  exact h number hbuffered

/-- Delivering brings what stays buffered nearer. -/
theorem near_deliverBuffered (fuel : Nat)
    (hahead : ∀ number, state.Buffered number →
      1 ≤ state.distance number ∧
        state.distance number < state.params.maxOutgoing) :
    (deliverBuffered fuel state).Near := by
  induction fuel generalizing state with
  | zero => exact fun number hbuffered => (hahead number hbuffered).2
  | succ fuel ih =>
      rw [deliverBuffered]
      cases hnext : state.outOfOrder.get?
          (state.lastReceivedInSequencePsn + 1) with
      | none => exact fun number hbuffered => (hahead number hbuffered).2
      | some buffered =>
          apply ih
          intro number hbuffered
          obtain ⟨hne, hkept⟩ := Table.isSome_of_remove hbuffered
          obtain ⟨hone, hlt⟩ := hahead number hkept
          have hmore : state.distance number ≠ 1 := fun hsame =>
            hne (ahead_eq_one hsame)
          have hsucc : ahead number (state.lastReceivedInSequencePsn + 1) =
              state.distance number - 1 := ahead_succ hone
          show 1 ≤ ahead number (state.lastReceivedInSequencePsn + 1) ∧
            ahead number (state.lastReceivedInSequencePsn + 1) <
              state.params.maxOutgoing
          omega

theorem Near.handleInboundData (h : state.Near) (hgapped : state.Gapped)
    (packet : LinkPacket) : (state.handleInboundData packet).Near := by
  simp only [EstablishedState.handleInboundData]
  split
  · exact h
  · split
    · next hone =>
        have hnext : packet.header.seq = state.lastReceivedInSequencePsn + 1 :=
          ahead_eq_one hone
        apply near_deliverBuffered
        intro number hbuffered
        have htwo := hgapped number hbuffered
        have hlt := h number hbuffered
        have hsucc : ahead number packet.header.seq =
            state.distance number - 1 := by
          rw [hnext]
          exact ahead_succ (Nat.le_of_succ_le htwo)
        show 1 ≤ ahead number packet.header.seq ∧
          ahead number packet.header.seq < state.params.maxOutgoing
        omega
    · split
      · next hwithin =>
          intro number hbuffered
          rcases Table.isSome_of_put hbuffered with rfl | hold
          · exact hwithin
          · exact h number hold
      · exact h

theorem Near.step (h : state.Near) (hgapped : state.Gapped)
    (event : LinkEvent) : (state.step event).1.Near := by
  cases event with
  | send sessionId payload => exact h
  | retransmit => exact h
  | settle => exact (sameReceiver_settle state).near h
  | receive packet =>
      have hsame := sameReceiver_acknowledge state packet.header
      have hdata := (hsame.near h).handleInboundData (hsame.gapped hgapped)
        packet
      simp only [EstablishedState.step, receive, takePayload]
      split
      · exact h
      · split
        · exact hsame.near h
        · split
          · split
            · exact (sendEak_same _).2.near hdata
            · exact hdata
          · exact hsame.near h

end EstablishedState

/-! ### Both sides of a link -/

/-- A link with its clocks, which follow what it sends. -/
structure Link where
  state : EstablishedState
  timed : TimedState
  follows : Follows state timed

theorem Follows.sameSender {state next : EstablishedState} {timed : TimedState}
    (h : Follows state timed) (hsame : state.SameSender next) :
    Follows next timed := by
  refine ⟨?_, ?_, ?_, ?_⟩
  · rw [hsame.params, h.params]
  · rw [hsame.lastSentPsn, h.lastSentPsn]
  · rw [hsame.pendingSend, h.pendingSend]
  · rw [hsame.unacked, h.unacked]

theorem Follows.receive {state : EstablishedState} {timed : TimedState}
    (h : Follows state timed) (packet : LinkPacket) (now : Nat) :
    Follows (state.receive packet).1
      (timed.run ((ClockedEvent.receive packet now).timed state)) := by
  simp only [EstablishedState.receive, ClockedEvent.timed]
  split
  · exact h
  · have hacked : Follows (state.acknowledge packet.header)
        (timed.run (if packet.header.control.ack then
          [.ack packet.header.ack now] else [])) := by
      simp only [EstablishedState.acknowledge]
      split
      · exact h.handleInboundAck packet.header.ack now
      · exact h
    have htaken := hacked.sameSender
      (EstablishedState.sameSender_takePayload _ packet)
    rw [TimedState.run_append]
    generalize timed.run (if packet.header.control.ack then
      [.ack packet.header.ack now] else []) = acked at htaken ⊢
    split
    · exact (htaken.handleInboundEak packet.payload).1
    · exact htaken

theorem Follows.clocked {state : EstablishedState} {timed : TimedState}
    (h : Follows state timed) (event : ClockedEvent) :
    Follows (state.step event.event).1 (timed.run (event.timed state)) := by
  cases event with
  | receive packet now => exact h.receive packet now
  | send sessionId payload => exact h.enqueueSend sessionId payload
  | retransmit now => exact (h.handleRetransmitFire now).1
  | settle clock =>
      have hdrained := (h.drainFrom clock state.pendingSend).1
      have hclocked : timed.drainFrom state.lastReceivedInSequencePsn clock
          state.pendingSend =
            timed.drainPendingSend state.lastReceivedInSequencePsn clock := by
        rw [TimedState.drainPendingSend, h.pendingSend]
      rw [hclocked] at hdrained
      simp only [ClockedEvent.event, EstablishedState.step,
        EstablishedState.settle]
      split
      · exact hdrained.sameSender ⟨rfl, rfl, rfl, rfl, rfl⟩
      · exact hdrained

namespace Link

def new (initialPsn peerInitialPsn : UInt8) (peerLsp : PeerLsp)
    (giveUpAfter now : Nat) : Link :=
  ⟨_, _, .new initialPsn peerInitialPsn peerLsp giveUpAfter now⟩

def step (link : Link) (event : ClockedEvent) : Link :=
  ⟨(link.state.step event.event).1, link.timed.run (event.timed link.state),
    link.follows.clocked event⟩

def after (link : Link) (events : List ClockedEvent) : Link :=
  events.foldl step link

/-- What holds of the windows of a link whose peer takes so many packets. -/
structure Sound (window : Nat) (link : Link) : Prop where
  /-- The numbers out are the last that were sent, in order. -/
  numbered : link.timed.unacked.map TimedPacket.seq =
    (List.range link.timed.unacked.length).reverse.map fun back =>
      link.timed.lastSentPsn - UInt8.ofNat back
  bounded : link.timed.unacked.length ≤ window
  armed : link.timed.retransmitAt.isSome = true ↔ link.timed.unacked ≠ []
  buffered : ∀ number, link.state.Buffered number →
    2 ≤ link.state.distance number ∧ link.state.distance number ≤ window

/-- The parts of a link's state that every event keeps. -/
structure Kept (window : Nat) (link : Link) : Prop where
  params : link.state.params.maxOutgoing = window
  windowed : ∃ base, link.state.Windowed base
  armed : link.timed.Armed
  gapped : link.state.Gapped
  near : link.state.Near

variable {window : Nat} {link : Link}

theorem Kept.step (h : Kept window link) (event : ClockedEvent) :
    Kept window (link.step event) where
  params := by
    rw [← h.params]
    exact congrArg LinkParams.maxOutgoing
      (EstablishedState.step_params link.state event.event)
  windowed := by
    obtain ⟨base, hwindowed⟩ := h.windowed
    exact hwindowed.step event.event
  armed := h.armed.run _
  gapped := h.gapped.step event.event
  near := h.near.step h.gapped event.event

theorem Kept.after (h : Kept window link) (events : List ClockedEvent) :
    Kept window (link.after events) := by
  induction events generalizing link with
  | nil => exact h
  | cons event rest ih => exact ih (h.step event)

theorem numbered_of_windowed {base : UInt8}
    (h : link.state.Windowed base) :
    link.timed.unacked.map TimedPacket.seq =
      (List.range link.timed.unacked.length).reverse.map fun back =>
        link.timed.lastSentPsn - UInt8.ofNat back := by
  have hlabels : link.state.unacked.map UnackedPacket.seq =
      link.timed.unacked.map TimedPacket.seq := by
    have hfirst := congrArg (List.map Prod.fst) link.follows.unacked
    simpa [Function.comp_def, UnackedPacket.label, TimedPacket.label] using
      hfirst
  have hlength := link.follows.unacked_length
  rw [← hlabels, ← hlength, ← link.follows.lastSentPsn, h.last]
  apply List.ext_getElem
  · simp
  · intro place hleft hright
    rw [List.length_map] at hleft
    have hnumber := h.numbered place _ (List.getElem?_eq_getElem hleft)
    have hsum : link.state.unacked.length =
        place + 1 + (link.state.unacked.length - 1 - place) := by omega
    simp only [List.getElem_map, List.getElem_reverse, List.getElem_range,
      List.length_range]
    rw [hnumber]
    generalize link.state.unacked.length - 1 - place = back at hsum
    have hlast : nth base (place + 1 + back) =
        nth base (place + 1) + UInt8.ofNat back := (nth_nth _ _ _).symm
    rw [hsum, hlast, UInt8.add_sub_cancel]

theorem Kept.sound (h : Kept window link) : Sound window link where
  numbered := by
    obtain ⟨base, hwindowed⟩ := h.windowed
    exact numbered_of_windowed hwindowed
  bounded := by
    obtain ⟨base, hwindowed⟩ := h.windowed
    rw [← link.follows.unacked_length, ← h.params]
    exact hwindowed.bounded
  armed := h.armed
  buffered number hbuffered := by
    have hlt := h.near number hbuffered
    rw [h.params] at hlt
    exact ⟨h.gapped number hbuffered, Nat.le_of_lt hlt⟩

/-- Whatever a link sends and receives at whatever times, the packets out are
numbered one after the other up to the last sent, the timer is armed while there
are any, no more of them are out than the peer takes, and what is buffered is at
least two and at most a window ahead. -/
theorem windows_kept (initialPsn peerInitialPsn : UInt8) (peerLsp : PeerLsp)
    (giveUpAfter now : Nat) (hwindow : 1 ≤ peerLsp.maxOutgoing.toNat)
    (events : List ClockedEvent) :
    Sound peerLsp.maxOutgoing.toNat
      ((new initialPsn peerInitialPsn peerLsp giveUpAfter now).after
        events) := by
  have hnew : Kept peerLsp.maxOutgoing.toNat
      (new initialPsn peerInitialPsn peerLsp giveUpAfter now) := by
    refine ⟨Nat.max_eq_left hwindow, ?_, ?_, ?_, ?_⟩
    · exact EstablishedState.windowed_after initialPsn peerInitialPsn
        peerLsp.toLsp []
    · simp [TimedState.Armed, new, TimedState.new]
    · exact EstablishedState.gapped_after initialPsn peerInitialPsn
        peerLsp.toLsp []
    · intro number hbuffered
      simp [new, EstablishedState.Buffered, EstablishedState.new] at hbuffered
  exact (hnew.after events).sound


/-- A peer that takes eight packets, of which three are out. -/
theorem windows_kept_eight :
    Sound (8 : UInt8).toNat
      ((new 250 10 ⟨⟨8, 128⟩, 1000, 30⟩ RETRANSMIT_GIVE_UP 0).after
        [.send 0 [1, 2, 3], .send 0 [4], .send 1 [5], .settle fun _ => 5,
          .retransmit 5]) :=
  windows_kept 250 10 ⟨⟨8, 128⟩, 1000, 30⟩ RETRANSMIT_GIVE_UP 0 (by decide) _

end Link

end Iap2

end Bridgething
