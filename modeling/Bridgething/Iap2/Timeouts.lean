/-
What the clocks of a link promise: how often a packet was sent again is counted,
an answer is timed only where it is clear what it answers, the link is given up
when nothing moves, and the timeout keeps its bounds.
-/
import Bridgething.Iap2.Retransmit
import Bridgething.Lib.Transition

namespace Bridgething

namespace Iap2

open Transition

theorem rtoMin_lt_rtoMax : RTO_MIN < RTO_MAX := by decide

namespace RttEstimator

theorem sample_srtt (estimator : RttEstimator) (rtt : Nat) :
    (estimator.sample rtt).srtt ≠ none := by
  unfold sample
  split
  · exact Option.some_ne_none _
  · exact Option.some_ne_none _

/-- From the first sample on the timeout is clamped. -/
theorem rto_bounded {estimator : RttEstimator}
    (hsome : estimator.srtt ≠ none) :
    RTO_MIN ≤ estimator.rto ∧ estimator.rto ≤ RTO_MAX := by
  unfold rto
  have hlt := rtoMin_lt_rtoMax
  split
  · rename_i hnone
    exact absurd hnone hsome
  · constructor
    · exact le_max_left _ _
    · exact max_le (le_of_lt hlt) (min_le_right _ _)

end RttEstimator

namespace TimedState

variable {state : TimedState}

/-! ### The count of retries -/

/-- The counter of a packet says how often it was sent again, as far as it
reaches. -/
structure Counted (packet : TimedPacket) : Prop where
  sent : 1 ≤ packet.transmissions
  retries : packet.retryCount.toNat = min (packet.transmissions - 1) 255

theorem saturatingSucc_toNat (count : UInt8) :
    (saturatingSucc count).toNat = min (count.toNat + 1) 255 := by
  unfold saturatingSucc
  have hlt := count.toNat_lt
  split
  · rename_i hmax
    subst hmax
    rfl
  · rename_i hmax
    have hne : count.toNat ≠ 255 := fun heq => hmax (UInt8.toNat_inj.1 heq)
    have hone : (1 : UInt8).toNat = 1 := rfl
    rw [UInt8.toNat_add, hone]
    omega

/-- Nothing is counted wrong for a packet that was never sent again. -/
theorem Counted.once {packet : TimedPacket} (h : Counted packet)
    (hzero : packet.retryCount = 0) : packet.transmissions = 1 := by
  have hsent := h.sent
  have hretries := h.retries
  rw [hzero] at hretries
  have hnone : (0 : UInt8).toNat = 0 := rfl
  omega

def AllCounted (packets : List TimedPacket) : Prop :=
  ∀ packet ∈ packets, Counted packet

theorem AllCounted.resend {packets : List TimedPacket}
    (h : AllCounted packets) (missingSeq : UInt8) :
    AllCounted (resend missingSeq packets).1 := by
  induction packets with
  | nil => exact h
  | cons packet rest ih =>
      have hhead := h packet List.mem_cons_self
      have hrest : AllCounted rest := fun other hother =>
        h other (List.mem_cons_of_mem packet hother)
      rw [TimedState.resend]
      split
      · intro other hother
        rcases List.mem_cons.1 hother with rfl | hother
        · have hsent := hhead.sent
          have hretries := hhead.retries
          refine ⟨by simp, ?_⟩
          simp only [saturatingSucc_toNat]
          omega
        · exact hrest other hother
      · intro other hother
        rcases List.mem_cons.1 hother with rfl | hother
        · exact hhead
        · exact ih hrest other hother

theorem AllCounted.handleInboundEak (h : AllCounted state.unacked)
    (payload : Bytes) :
    AllCounted (state.handleInboundEak payload).1.unacked := by
  induction payload generalizing state with
  | nil => exact h
  | cons missingSeq payload ih =>
      have hnext : AllCounted ({ state with
          unacked := (TimedState.resend missingSeq state.unacked).1 :
            TimedState }).unacked :=
        h.resend missingSeq
      exact ih hnext

theorem AllCounted.sendDataPacket (h : AllCounted state.unacked)
    (received : UInt8) (now : Nat) (chunk : Chunk) :
    AllCounted (state.sendDataPacket received now chunk).1.unacked := by
  have hadded : AllCounted (state.unacked ++
      [⟨state.lastSentPsn + 1, .withPayload .ACK (state.lastSentPsn + 1)
        received chunk.1 chunk.2, now, 0, 1⟩]) := by
    intro packet hpacket
    rcases List.mem_append.1 hpacket with hold | hnew
    · exact h packet hold
    · rw [List.mem_singleton.1 hnew]
      exact ⟨le_refl 1, rfl⟩
  unfold TimedState.sendDataPacket
  dsimp only
  split
  · exact hadded
  · exact hadded

theorem AllCounted.drainFrom (h : AllCounted state.unacked)
    (received : UInt8) (clock : Nat → Nat) (chunks : List Chunk) :
    AllCounted (state.drainFrom received clock chunks).1.unacked := by
  induction chunks generalizing state clock with
  | nil => exact h
  | cons chunk rest ih =>
      rw [TimedState.drainFrom]
      split
      · exact ih (h.sendDataPacket received (clock 0) chunk) _
      · exact h

theorem handleInboundAck_unacked (state : TimedState) (ackValue : UInt8)
    (now : Nat) :
    (state.handleInboundAck ackValue now).unacked =
      (popAcked ackValue state.unacked).2 := by
  have hwhole := popAcked_append ackValue state.unacked
  unfold handleInboundAck
  dsimp only
  split
  · rename_i hnone
    rw [hnone] at hwhole
    exact hwhole.symm
  · split
    · rfl
    · rfl

/-- A timer that fires sends a packet again only where the counter of the packet
can still count it. -/
def Spared (state : TimedState) : TimedEvent → Prop
  | .fire now => (state.handleRetransmitFire now).2.1 ≠ [] →
      ∀ front ∈ state.unacked.head?, front.transmissions ≤ 255
  | _ => True

theorem AllCounted.handleRetransmitFire (h : AllCounted state.unacked)
    (now : Nat) (hspared : state.Spared (.fire now)) :
    AllCounted (state.handleRetransmitFire now).1.unacked := by
  unfold Spared at hspared
  unfold TimedState.handleRetransmitFire at hspared ⊢
  split
  · exact h
  · rename_i due hdue
    rw [hdue] at hspared
    split
    · exact h
    · rename_i hpast
      split
      · rename_i hnone
        rw [hnone] at h
        exact hnone ▸ h
      · rename_i front rest hunacked
        split
        · exact h
        · rename_i hstalled
          simp only [hunacked, if_neg hpast, if_neg hstalled] at hspared
          have hfew := hspared (List.cons_ne_nil _ _) front rfl
          rw [hunacked] at h
          have hfront := h front List.mem_cons_self
          have hsent := hfront.sent
          have hretries := hfront.retries
          intro packet hpacket
          rcases List.mem_cons.1 hpacket with rfl | hother
          · refine ⟨by simp, ?_⟩
            simp only [UInt8.toNat_add, UInt8.reduceToNat]
            omega
          · exact h packet (List.mem_cons_of_mem front hother)

theorem AllCounted.step {event : TimedEvent} (h : AllCounted state.unacked)
    (hspared : state.Spared event) : AllCounted (state.step event).unacked := by
  cases event with
  | send sessionId payload => exact h
  | drain received clock => exact h.drainFrom received clock state.pendingSend
  | eak payload => exact h.handleInboundEak payload
  | ack value now =>
      unfold TimedState.step
      rw [handleInboundAck_unacked]
      intro packet hpacket
      refine h packet ?_
      rw [← popAcked_append value state.unacked]
      exact List.mem_append_right _ hpacket
  | fire now => exact h.handleRetransmitFire now hspared

/-! ### When the link is given up -/

/-- The packet is due, out, and nothing has moved for as long as the link
waits. -/
structure Stalled (state : TimedState) (now : Nat) : Prop where
  out : state.unacked ≠ []
  due : ∃ due, state.retransmitAt = some due ∧ due ≤ now
  still : state.giveUpAfter ≤ now - state.lastProgress

theorem givenUp_iff (state : TimedState) (now : Nat) :
    (state.handleRetransmitFire now).2.2 = true ↔ state.Stalled now := by
  unfold handleRetransmitFire
  split
  · rename_i hnone
    refine ⟨(nomatch ·), fun hstalled => ?_⟩
    obtain ⟨due, hdue, _⟩ := hstalled.due
    rw [hnone] at hdue
    nomatch hdue
  · rename_i due hdue
    split
    · rename_i hearly
      refine ⟨(nomatch ·), fun hstalled => ?_⟩
      obtain ⟨other, hother, hle⟩ := hstalled.due
      rw [hdue, Option.some.injEq] at hother
      omega
    · rename_i hpast
      split
      · rename_i hnone
        exact ⟨(nomatch ·), fun hstalled => absurd hnone hstalled.out⟩
      · rename_i front rest hunacked
        split
        · rename_i hstill
          refine ⟨fun _ => ⟨?_, ⟨due, hdue, by omega⟩, hstill⟩, fun _ => rfl⟩
          rw [hunacked]
          exact List.cons_ne_nil front rest
        · rename_i hmoved
          exact ⟨(nomatch ·), fun hstalled => absurd hstalled.still hmoved⟩

/-- When the event moved the link on: an acknowledgement took a packet off the
window, or the first packet entered an empty one. -/
def progressAt (state : TimedState) : TimedEvent → Option Nat
  | .ack value now =>
      if (popAcked value state.unacked).1 = [] then none else some now
  | .drain _ clock =>
      if state.unacked = [] ∧ state.pendingSend ≠ [] ∧ state.windowHasRoom then
        some (clock 0)
      else none
  | _ => none

theorem handleInboundEak_lastProgress (state : TimedState) (payload : Bytes) :
    (state.handleInboundEak payload).1.lastProgress = state.lastProgress := by
  induction payload generalizing state with
  | nil => rfl
  | cons missingSeq payload ih =>
      exact ih { state with unacked := (resend missingSeq state.unacked).1 }

theorem sendDataPacket_unacked (state : TimedState) (received : UInt8)
    (now : Nat) (chunk : Chunk) :
    (state.sendDataPacket received now chunk).1.unacked ≠ [] := by
  unfold sendDataPacket
  dsimp only
  split
  · exact List.append_ne_nil_of_right_ne_nil _ (List.cons_ne_nil _ _)
  · exact List.append_ne_nil_of_right_ne_nil _ (List.cons_ne_nil _ _)

theorem drainFrom_lastProgress (state : TimedState) (received : UInt8)
    (clock : Nat → Nat) (chunks : List Chunk)
    (hout : state.unacked ≠ []) :
    (state.drainFrom received clock chunks).1.lastProgress =
      state.lastProgress := by
  induction chunks generalizing state clock with
  | nil => rfl
  | cons chunk rest ih =>
      rw [drainFrom]
      split
      · have hrest := ih (state.sendDataPacket received (clock 0) chunk).1
          (fun tick => clock (tick + 1))
          (state.sendDataPacket_unacked received (clock 0) chunk)
        have hsent : (state.sendDataPacket received (clock 0)
            chunk).1.lastProgress = state.lastProgress := by
          unfold sendDataPacket
          rw [if_neg hout]
        exact hrest.trans hsent
      · rfl

theorem drainPendingSend_lastProgress (state : TimedState) (received : UInt8)
    (clock : Nat → Nat) :
    (state.drainPendingSend received clock).1.lastProgress =
      (state.progressAt (.drain received clock)).getD state.lastProgress := by
  unfold drainPendingSend progressAt
  dsimp only
  by_cases hout : state.unacked = []
  · cases hpending : state.pendingSend with
    | nil =>
        rw [if_neg (by simp)]
        rfl
    | cons chunk rest =>
        by_cases hroom : state.windowHasRoom = true
        · have hsent : (state.sendDataPacket received (clock 0)
              chunk).1.lastProgress = clock 0 := by
            unfold sendDataPacket
            rw [if_pos hout]
            rfl
          have hrest := drainFrom_lastProgress
            (state.sendDataPacket received (clock 0) chunk).1 received
            (fun tick => clock (tick + 1)) rest
            (state.sendDataPacket_unacked received (clock 0) chunk)
          rw [drainFrom, if_pos hroom, if_pos ⟨hout, by simp, hroom⟩]
          exact hrest.trans hsent
        · rw [drainFrom, if_neg hroom, if_neg fun h => hroom h.2.2]
          rfl
  · rw [if_neg fun h => hout h.1]
    exact drainFrom_lastProgress state received clock _ hout

theorem handleInboundAck_lastProgress (state : TimedState) (ackValue : UInt8)
    (now : Nat) :
    (state.handleInboundAck ackValue now).lastProgress =
      (state.progressAt (.ack ackValue now)).getD state.lastProgress := by
  unfold progressAt handleInboundAck
  dsimp only
  split
  · rfl
  · split
    · rfl
    · rfl

theorem handleRetransmitFire_lastProgress (state : TimedState) (now : Nat) :
    (state.handleRetransmitFire now).1.lastProgress = state.lastProgress := by
  unfold handleRetransmitFire
  split
  · rfl
  · split
    · rfl
    · split
      · rfl
      · split
        · rfl
        · rfl

theorem step_lastProgress (state : TimedState) (event : TimedEvent) :
    (state.step event).lastProgress =
      (state.progressAt event).getD state.lastProgress := by
  cases event with
  | send sessionId payload => rfl
  | drain received clock =>
      exact state.drainPendingSend_lastProgress received clock
  | eak payload => exact state.handleInboundEak_lastProgress payload
  | ack value now => exact state.handleInboundAck_lastProgress value now
  | fire now => exact state.handleRetransmitFire_lastProgress now

/-! ### What an acknowledgement times -/

theorem handleInboundAck_rtt (state : TimedState) (ackValue : UInt8)
    (now : Nat) :
    (state.handleInboundAck ackValue now).rtt = state.rtt ∨
      ∃ packet ∈ (popAcked ackValue state.unacked).1, packet.retryCount = 0 ∧
        (state.handleInboundAck ackValue now).rtt =
          state.rtt.sample (now - packet.sentAt) := by
  unfold handleInboundAck
  dsimp only
  split
  · exact .inl rfl
  · split
    · exact .inl rfl
    · rename_i packet hsampled
      refine .inr ⟨packet, List.mem_of_find?_eq_some hsampled, ?_, rfl⟩
      simpa using List.find?_some hsampled

/-- What holds of the retransmissions of a link in a state. -/
structure Bookkept (state : TimedState) : Prop where
  /-- The counters, which neither path has brought past their type. -/
  counted : AllCounted state.unacked
  counts : ∀ now, state.Spared (.fire now) →
    (state.handleRetransmitFire now).2.1 ≠ [] →
      ∀ front ∈ state.unacked.head?, front.retryCount.toNat + 1 < 2 ^ 8
  /-- The link is dead once nothing has moved for long enough. -/
  givenUp : ∀ now,
    (state.handleRetransmitFire now).2.2 = true ↔ state.Stalled now
  moved : ∀ event, (state.step event).lastProgress =
    (state.progressAt event).getD state.lastProgress
  /-- Only a packet that was sent once is timed. -/
  timed : ∀ value now,
    (state.handleInboundAck value now).rtt = state.rtt ∨
      ∃ packet ∈ (popAcked value state.unacked).1, packet.transmissions = 1 ∧
        (state.handleInboundAck value now).rtt =
          state.rtt.sample (now - packet.sentAt)

theorem Bookkept.of_counted (h : AllCounted state.unacked) :
    Bookkept state where
  counted := h
  counts := by
    intro now hspared hsent front hfront
    have hfew := hspared hsent front hfront
    have hcounted := h front (List.mem_of_mem_head? hfront)
    have hretries := hcounted.retries
    omega
  givenUp := state.givenUp_iff
  moved := state.step_lastProgress
  timed := by
    intro value now
    rcases state.handleInboundAck_rtt value now with
      hsame | ⟨packet, hpacket, hzero, hrtt⟩
    · exact .inl hsame
    · have hmem : packet ∈ state.unacked := by
        rw [← popAcked_append value state.unacked]
        exact List.mem_append_left _ hpacket
      exact .inr ⟨packet, hpacket, (h packet hmem).once hzero, hrtt⟩

/-- However sends, requests to send again, timers and acknowledgements follow
one another: retries are counted right, the link is given up when it stalls and
only then, and no packet that was sent twice is timed. -/
theorem bookkept_reached (initialPsn : UInt8) (peerLsp : PeerLsp)
    (giveUpAfter start : Nat) (events : List TimedEvent) (count : Nat)
    (hspared : ∀ before < count, ∀ event, events[before]? = some event →
      (reached step (new initialPsn peerLsp giveUpAfter start) events
        before).Spared event) :
    (reached step (new initialPsn peerLsp giveUpAfter start) events
      count).Bookkept := by
  have hnew : AllCounted
      (new initialPsn peerLsp giveUpAfter start).unacked := by
    intro packet hpacket
    nomatch hpacket
  have hkeep : ∀ {state : TimedState} {event : TimedEvent},
      AllCounted state.unacked → state.Spared event →
        AllCounted (state.step event).unacked :=
    fun hcounted hok => hcounted.step hok
  exact .of_counted (@reached_invariant _ _ step
    (fun state => AllCounted state.unacked) Spared _ hnew hkeep _ _ hspared)

/-- A peer that asks for the default timers, but for this timeout. -/
def peerAsking (timeoutMs : UInt16) : PeerLsp where
  maxOutgoing := 32
  maxLen := 4096
  retransmissionTimeoutMs := timeoutMs
  maxRetransmissions := 30

/-- One packet of the number 100, sent at once. -/
def onePacket (timeoutMs : UInt16) : TimedState :=
  [.send 1 [7], .drain 50 fun _ => 0].foldl step
    (new 99 (peerAsking timeoutMs) RETRANSMIT_GIVE_UP 0)

/-- A packet is sent, asked for, sent again by the timer and answered. -/
def answered : List TimedEvent :=
  [.send 1 [7], .drain 50 fun _ => 0, .eak [100], .fire (fromSecs 6),
    .ack 100 (fromSecs 7)]

theorem answered_bookkept :
    (reached step (new 99 (peerAsking 6000) RETRANSMIT_GIVE_UP 0) answered
      5).Bookkept := by
  refine bookkept_reached 99 (peerAsking 6000) RETRANSMIT_GIVE_UP 0 answered
    5 ?_
  intro before hlt event hevent
  interval_cases before
  all_goals
    obtain rfl := Option.some.inj hevent
    simp only [Spared]
  intro _
  decide +kernel

/-- A packet that was asked for as often as the peer allows is sent again, and
the link goes on.  One more time after 255, its counter is at zero again, and
the answer to it is timed. -/
theorem retries_unlimited :
    let most := (peerAsking 6000).maxRetransmissions
    let asked := (onePacket 6000).step (.eak (List.replicate 30 100))
    let often := (onePacket 6000).step (.eak (List.replicate 255 100))
    let wrapped := often.step (.fire (fromSecs 6))
    asked.unacked.map (·.retryCount) = [most] ∧
      asked.handleRetransmitFire (fromSecs 6) =
        (asked.step (.fire (fromSecs 6)), asked.unacked.map (·.wire), false) ∧
      often.unacked.map (·.retryCount) = [255] ∧
      wrapped.unacked.map (·.retryCount) = [0] ∧
      wrapped.unacked.map (·.transmissions) = [257] ∧
      wrapped.rtt.srtt = none ∧
      (wrapped.step (.ack 100 (fromSecs 7))).rtt.srtt = some (fromSecs 7) := by
  decide +kernel

/-! ### The timeout -/

/-- The timeout is positive, within its bounds, and no timer that fires next
lowers it. -/
structure RtoBounded (state : TimedState) : Prop where
  positive : 0 < state.rto
  least : RTO_MIN ≤ state.rto
  most : state.rto ≤ RTO_MAX
  backsOff : ∀ now, state.rto ≤ (state.handleRetransmitFire now).1.rto

theorem resent_rto (state : TimedState) (now : Nat) :
    (state.handleRetransmitFire now).1.rto = state.rto ∨
      (state.handleRetransmitFire now).1.rto = min (state.rto * 2) RTO_MAX := by
  unfold handleRetransmitFire
  split
  · exact .inl rfl
  · split
    · exact .inl rfl
    · split
      · exact .inl rfl
      · split
        · exact .inl rfl
        · exact .inr rfl

theorem sendDataPacket_rto (state : TimedState) (received : UInt8)
    (now : Nat) (chunk : Chunk) :
    (state.sendDataPacket received now chunk).1.rto = state.rto := by
  unfold sendDataPacket
  dsimp only
  split
  · rfl
  · rfl

theorem drainFrom_rto (state : TimedState) (received : UInt8)
    (clock : Nat → Nat) (chunks : List Chunk) :
    (state.drainFrom received clock chunks).1.rto = state.rto := by
  induction chunks generalizing state clock with
  | nil => rfl
  | cons chunk rest ih =>
      rw [drainFrom]
      split
      · exact (ih _ _).trans (state.sendDataPacket_rto received (clock 0) chunk)
      · rfl

theorem handleInboundEak_rto (state : TimedState) (payload : Bytes) :
    (state.handleInboundEak payload).1.rto = state.rto := by
  induction payload generalizing state with
  | nil => rfl
  | cons missingSeq payload ih =>
      exact ih { state with unacked := (resend missingSeq state.unacked).1 }

/-- A sample sets the timeout anew. -/
theorem handleInboundAck_rto (state : TimedState) (ackValue : UInt8)
    (now : Nat) :
    (state.handleInboundAck ackValue now).rto = state.rto ∨
      ∃ rtt, (state.handleInboundAck ackValue now).rto =
        (state.rtt.sample rtt).rto := by
  unfold handleInboundAck
  dsimp only
  split
  · exact .inl rfl
  · split
    · exact .inl rfl
    · exact .inr ⟨_, rfl⟩

/-- The timeout lies within the bounds of the estimator. -/
def Within (state : TimedState) : Prop :=
  RTO_MIN ≤ state.rto ∧ state.rto ≤ RTO_MAX

theorem Within.step (h : state.Within) (event : TimedEvent) :
    (state.step event).Within := by
  cases event with
  | send sessionId payload => exact h
  | drain received clock =>
      have hsame := state.drainFrom_rto received clock state.pendingSend
      exact ⟨h.1.trans hsame.ge, hsame.le.trans h.2⟩
  | eak payload =>
      have hsame := state.handleInboundEak_rto payload
      exact ⟨h.1.trans hsame.ge, hsame.le.trans h.2⟩
  | ack value now =>
      rcases state.handleInboundAck_rto value now with hsame | ⟨rtt, hset⟩
      · exact ⟨h.1.trans hsame.ge, hsame.le.trans h.2⟩
      · have hbounds := RttEstimator.rto_bounded
          (state.rtt.sample_srtt rtt)
        exact ⟨hbounds.1.trans hset.ge, hset.le.trans hbounds.2⟩
  | fire now =>
      rcases state.resent_rto now with hsame | hdoubled
      · exact ⟨h.1.trans hsame.ge, hsame.le.trans h.2⟩
      · have hleast : RTO_MIN ≤ min (state.rto * 2) RTO_MAX :=
          le_min (h.1.trans (by omega)) (le_of_lt rtoMin_lt_rtoMax)
        exact ⟨hleast.trans hdoubled.ge, hdoubled.le.trans (min_le_right _ _)⟩

theorem Within.bounded (h : state.Within) : state.RtoBounded where
  positive := lt_of_lt_of_le (by decide) h.1
  least := h.1
  most := h.2
  backsOff := by
    intro now
    rcases state.resent_rto now with hsame | hdoubled
    · exact hsame.ge
    · exact (le_min (by omega) h.2).trans hdoubled.ge

/-- The timeout keeps its bounds in every run if and only if the peer asked for
one within them. -/
theorem rto_bounded_iff (initialPsn : UInt8) (peerLsp : PeerLsp)
    (giveUpAfter start : Nat) :
    (∀ events count, (reached step (new initialPsn peerLsp giveUpAfter start)
        events count).RtoBounded) ↔
      500 ≤ peerLsp.retransmissionTimeoutMs.toNat ∧
        peerLsp.retransmissionTimeoutMs.toNat ≤ 8000 := by
  have hseed : (new initialPsn peerLsp giveUpAfter start).rto =
      peerLsp.retransmissionTimeoutMs.toNat * 1000000 := rfl
  constructor
  · intro hall
    have hstart := hall [] 0
    have hleast := hstart.least
    have hmost := hstart.most
    rw [reached_zero, hseed] at hleast hmost
    simp only [RTO_MIN, RTO_MAX, fromMillis, fromSecs] at hleast hmost
    omega
  · rintro ⟨hleast, hmost⟩ events count
    have hwithin : (new initialPsn peerLsp giveUpAfter start).Within := by
      unfold Within
      rw [hseed]
      simp only [RTO_MIN, RTO_MAX, fromMillis, fromSecs]
      omega
    exact (reached_always Within hwithin (fun event h => h.step event) events
      count).bounded

/-- A peer that asks for no timeout gets none, and the timer fires without end;
one that asks for half a minute is sent a packet again after half a minute, and
from then on every eight seconds. -/
theorem timeout_unbounded :
    ((onePacket 0).rto = 0 ∧ ¬ (onePacket 0).RtoBounded) ∧
      ((onePacket 30000).step (.fire (fromSecs 30))).rto = RTO_MAX ∧
      ¬ (onePacket 30000).RtoBounded := by
  refine ⟨⟨by decide +kernel, ?_⟩, by decide +kernel, ?_⟩
  · intro hbounded
    exact absurd hbounded.positive (by decide +kernel)
  · intro hbounded
    exact absurd (hbounded.backsOff (fromSecs 30)) (by decide +kernel)

end TimedState

end Iap2

end Bridgething
