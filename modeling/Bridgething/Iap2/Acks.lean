/-
What an acknowledgement takes out of the window, and how large a window it can
tell apart.
-/
import Bridgething.Iap2.Sides
import Bridgething.Lib.Sequence

namespace Bridgething

namespace Iap2

open Serial Sequence

namespace EstablishedState

/-- The packets in the window are numbered one after the other, up to the last
that was sent. -/
structure Windowed (state : EstablishedState) (base : UInt8) : Prop where
  numbered : ∀ place packet, state.unacked[place]? = some packet →
    packet.seq = nth base (place + 1)
  last : state.lastSentPsn = nth base state.unacked.length
  bounded : state.unacked.length ≤ state.params.maxOutgoing

/-! ### What the operations do to the window -/

theorem SameSender.windowed {state next : EstablishedState} {base : UInt8}
    (hsame : SameSender state next) (h : state.Windowed base) :
    next.Windowed base := by
  constructor
  · rw [hsame.unacked]
    exact h.numbered
  · rw [hsame.unacked, hsame.lastSentPsn]
    exact h.last
  · rw [hsame.unacked, hsame.params]
    exact h.bounded

theorem handleInboundAck_unacked (state : EstablishedState)
    (ackValue : UInt8) :
    ∃ taken ≤ state.unacked.length,
      (state.handleInboundAck ackValue).unacked = state.unacked.drop taken :=
  ⟨_, List.findIdx_le_length, List.dropWhile_eq_drop_findIdx_not⟩

theorem Windowed.handleInboundAck {state : EstablishedState} {base : UInt8}
    (h : state.Windowed base) (ackValue : UInt8) :
    ∃ next, (state.handleInboundAck ackValue).Windowed next := by
  obtain ⟨taken, hle, hleft⟩ := state.handleInboundAck_unacked ackValue
  refine ⟨nth base taken, ?_, ?_, ?_⟩
  · intro place packet hpacket
    rw [hleft, List.getElem?_drop] at hpacket
    rw [h.numbered _ packet hpacket, nth_nth, Nat.add_assoc]
  · rw [hleft, List.length_drop, nth_nth, Nat.add_sub_of_le hle]
    exact h.last
  · rw [hleft, List.length_drop]
    exact (Nat.sub_le _ _).trans h.bounded

theorem Windowed.sendDataPacket {state : EstablishedState} {base : UInt8}
    (h : state.Windowed base) (hroom : state.windowHasRoom = true)
    (chunk : Chunk) : (state.sendDataPacket chunk).1.Windowed base := by
  have hnext : state.lastSentPsn + 1 = nth base (state.unacked.length + 1) := by
    rw [h.last, nth_succ]
  constructor
  · intro place packet hpacket
    rcases getElem?_concat hpacket with hold | ⟨hplace, hnew⟩
    · exact h.numbered place packet hold
    · rw [hnew, hplace]
      exact hnext
  · show state.lastSentPsn + 1 = nth base (state.unacked ++ [_]).length
    rw [hnext, List.length_append]
    rfl
  · show (state.unacked ++ [_]).length ≤ state.params.maxOutgoing
    rw [List.length_append]
    exact of_decide_eq_true hroom

theorem Windowed.drainFrom {state : EstablishedState} {base : UInt8}
    (h : state.Windowed base) (chunks : List Chunk) :
    (state.drainFrom chunks).1.Windowed base := by
  induction chunks generalizing state with
  | nil => exact ⟨h.numbered, h.last, h.bounded⟩
  | cons chunk rest ih =>
      rw [EstablishedState.drainFrom]
      split
      · exact ih (h.sendDataPacket ‹_› chunk)
      · exact ⟨h.numbered, h.last, h.bounded⟩

theorem Windowed.acknowledge {state : EstablishedState} {base : UInt8}
    (h : state.Windowed base) (header : LinkHeader) :
    ∃ next, (state.acknowledge header).Windowed next := by
  unfold EstablishedState.acknowledge
  split
  · exact h.handleInboundAck header.ack
  · exact ⟨base, h⟩

theorem Windowed.takePayload {state : EstablishedState} {base : UInt8}
    (h : state.Windowed base) (packet : LinkPacket) :
    (state.takePayload packet).1.Windowed base :=
  (sameSender_takePayload state packet).windowed h

theorem Windowed.step {state : EstablishedState} {base : UInt8}
    (h : state.Windowed base) (event : LinkEvent) :
    ∃ next, (state.step event).1.Windowed next := by
  cases event with
  | send sessionId payload => exact ⟨base, h.numbered, h.last, h.bounded⟩
  | retransmit => exact ⟨base, h⟩
  | settle =>
      refine ⟨base, ?_⟩
      have hdrained := h.drainFrom state.pendingSend
      unfold EstablishedState.step settle drainPendingSend
      dsimp only
      split
      · exact ⟨hdrained.numbered, hdrained.last, hdrained.bounded⟩
      · exact hdrained
  | receive packet =>
      unfold EstablishedState.step receive
      dsimp only
      split
      · exact ⟨base, h⟩
      · obtain ⟨acked, hacked⟩ := h.acknowledge packet.header
        exact ⟨acked, hacked.takePayload packet⟩

theorem windowed_after (initialPsn peerInitialPsn : UInt8) (peerLsp : Lsp)
    (events : List LinkEvent) :
    ∃ base, ((new initialPsn peerInitialPsn peerLsp).after events).Windowed
      base := by
  unfold after
  generalize hstart : new initialPsn peerInitialPsn peerLsp = start
  have hwindowed : start.Windowed initialPsn := by
    rw [← hstart]
    exact ⟨fun _ _ hpacket => absurd hpacket (by simp [new]),
      (nth_zero initialPsn).symm, Nat.zero_le _⟩
  clear hstart
  generalize initialPsn = base at hwindowed
  induction events generalizing start base with
  | nil => exact ⟨base, hwindowed⟩
  | cons event rest ih =>
      obtain ⟨next, hnext⟩ := hwindowed.step event
      exact ih _ next hnext

/-! ### What an acknowledgement takes out -/

/-- An acknowledgement of any packet in the window takes out that one and those
before it. -/
def Cumulative (state : EstablishedState) : Prop :=
  ∀ place packet, state.unacked[place]? = some packet →
    (state.handleInboundAck packet.seq).unacked = state.unacked.drop (place + 1)

/-- Whether the acknowledgement of one packet takes out another. -/
theorem Windowed.taken_iff {state : EstablishedState} {base : UInt8}
    (h : state.Windowed base) {acked place : Nat} {ack packet : UnackedPacket}
    (hack : state.unacked[acked]? = some ack)
    (hpacket : state.unacked[place]? = some packet) :
    (decide ¬ (ack.seq - packet.seq).toNat > 127) =
      decide ((acked + 1 + (256 - (place + 1) % 256)) % 256 ≤ 127) := by
  have hahead : (ack.seq - packet.seq).toNat =
      ahead (nth base (acked + 1)) (nth base (place + 1)) := by
    rw [h.numbered acked ack hack, h.numbered place packet hpacket]
    rfl
  rw [hahead, ahead_nth]
  simp only [Nat.not_lt, gt_iff_lt]

theorem Windowed.cumulative {state : EstablishedState} {base : UInt8}
    (h : state.Windowed base) (hsmall : state.params.maxOutgoing ≤ 128) :
    state.Cumulative := by
  have hlength := h.bounded.trans hsmall
  intro place packet hpacket
  obtain ⟨hplace, -⟩ := List.getElem?_eq_some_iff.mp hpacket
  refine dropWhile_eq_drop (fun before other hbefore hother => ?_)
    fun other hother => ?_
  · rw [h.taken_iff hpacket hother, decide_eq_true_iff]
    omega
  · obtain ⟨hnext, -⟩ := List.getElem?_eq_some_iff.mp hother
    rw [h.taken_iff hpacket hother, decide_eq_false_iff_not]
    omega

/-- The acknowledgement of a packet that is half a turn after the oldest takes
nothing out. -/
theorem Windowed.not_cumulative {state : EstablishedState} {base : UInt8}
    (h : state.Windowed base) (hlength : state.unacked.length = 129) :
    ¬ state.Cumulative := by
  intro hcumulative
  have hoccupied : ∀ place < 129, ∃ packet,
      state.unacked[place]? = some packet := fun place hplace =>
    ⟨_, List.getElem?_eq_getElem (hlength ▸ hplace)⟩
  obtain ⟨last, hlast⟩ := hoccupied 128 (by decide)
  obtain ⟨first, hfirst⟩ := hoccupied 0 (by decide)
  have hstop : (state.handleInboundAck last.seq).unacked =
      state.unacked.drop 0 := by
    refine dropWhile_eq_drop (fun _ _ hlt => absurd hlt (Nat.not_lt_zero _))
      fun packet hpacket => ?_
    rw [h.taken_iff hlast hpacket]
    decide
  have hdropped := hcumulative 128 last hlast
  rw [hstop, List.drop_zero] at hdropped
  have hlengths := congrArg List.length hdropped
  rw [List.length_drop, hlength] at hlengths
  omega

/-! ### A window that is filled -/

theorem drainFrom_length {state : EstablishedState} (chunks : List Chunk)
    (h : state.unacked.length ≤ state.params.maxOutgoing) :
    (state.drainFrom chunks).1.unacked.length =
      min (state.unacked.length + chunks.length) state.params.maxOutgoing := by
  induction chunks generalizing state with
  | nil => exact (Nat.min_eq_left h).symm
  | cons chunk rest ih =>
      rw [drainFrom]
      split
      · rename_i hroom
        have hlength : (state.sendDataPacket chunk).1.unacked.length =
            state.unacked.length + 1 := List.length_append
        have hsent := @ih (state.sendDataPacket chunk).1
          (hlength ▸ of_decide_eq_true hroom)
        refine hsent.trans ?_
        rw [hlength, List.length_cons, Nat.add_assoc, Nat.add_comm 1]
        rfl
      · rename_i hfull
        have hle := Nat.not_lt.mp (fun hlt => hfull (decide_eq_true hlt))
        show state.unacked.length = _
        rw [Nat.min_eq_right (by rw [List.length_cons]; omega)]
        exact Nat.le_antisymm h hle

theorem settle_unacked (state : EstablishedState) :
    state.settle.1.unacked = state.drainPendingSend.1.unacked := by
  unfold settle
  dsimp only
  split <;> rfl

/-- Payloads of a byte, one after the other. -/
def bytewise (count : Nat) : List LinkEvent :=
  List.replicate count (.send 1 [0])

theorem after_append (state : EstablishedState)
    (before rest : List LinkEvent) :
    state.after (before ++ rest) = (state.after before).after rest :=
  List.foldl_append

theorem after_bytewise (state : EstablishedState)
    (hfits : 1 ≤ state.params.maxPayloadLen) (count : Nat) :
    ∃ pending enqueued, pending.length = state.pendingSend.length + count ∧
      state.after (bytewise count) =
        { state with pendingSend := pending, enqueued := enqueued } := by
  induction count with
  | zero => exact ⟨state.pendingSend, state.enqueued, rfl, rfl⟩
  | succ count ih =>
      obtain ⟨pending, enqueued, hlength, hafter⟩ := ih
      have hchunk : chunks state.params.maxPayloadLen 2 [0] = [[0]] := by
        rw [chunks, if_neg (show ¬ ([0] : Bytes).length > _ from
          Nat.not_lt.mpr hfits), if_pos (by simp)]
      refine ⟨pending ++ [(1, [0])], enqueued ++ [(1, [0])], ?_, ?_⟩
      · rw [List.length_append, hlength]
        rfl
      · rw [bytewise, List.replicate_succ', after_append]
        show (state.after (bytewise count)).after [.send 1 [0]] = _
        rw [hafter]
        show enqueueSend _ 1 [0] = _
        simp [enqueueSend, hchunk]

/-- With room for them, that many packets can be outstanding. -/
theorem filled_length (initialPsn peerInitialPsn : UInt8) (peerLsp : Lsp)
    {count : Nat} (h : count ≤ max peerLsp.maxOutgoing.toNat 1) :
    ((new initialPsn peerInitialPsn peerLsp).after
      (bytewise count ++ [.settle])).unacked.length = count := by
  obtain ⟨pending, enqueued, hlength, hafter⟩ :=
    after_bytewise (new initialPsn peerInitialPsn peerLsp)
      (Nat.le_max_right _ _) count
  rw [after_append, hafter]
  refine (congrArg List.length (settle_unacked _)).trans ?_
  refine (drainFrom_length _ (Nat.zero_le _)).trans ?_
  show min (0 + pending.length) (max peerLsp.maxOutgoing.toNat 1) = count
  rw [hlength, Nat.zero_add, Nat.min_eq_left (by simpa [new] using h)]
  exact Nat.zero_add count

/-- Acknowledgements are cumulative in every state of a link exactly when the
peer announced no more than half a turn of outstanding packets. -/
theorem cumulative_iff (initialPsn peerInitialPsn : UInt8) (peerLsp : Lsp) :
    (∀ events : List LinkEvent,
      ((new initialPsn peerInitialPsn peerLsp).after events).Cumulative) ↔
      peerLsp.maxOutgoing.toNat ≤ 128 := by
  constructor
  · intro hall
    by_contra hlarge
    obtain ⟨base, hwindowed⟩ := windowed_after initialPsn peerInitialPsn peerLsp
      (bytewise 129 ++ [.settle])
    refine hwindowed.not_cumulative ?_ (hall _)
    exact filled_length initialPsn peerInitialPsn peerLsp (by omega)
  · intro hsmall events
    obtain ⟨base, hwindowed⟩ := windowed_after initialPsn peerInitialPsn peerLsp
      events
    refine hwindowed.cumulative ?_
    rw [after_params]
    show max peerLsp.maxOutgoing.toNat 1 ≤ 128
    omega

/-- Of 129 outstanding packets the acknowledgement of the last takes out none. -/
theorem cumulative_not_beyond :
    ¬ ((new 99 50 ⟨255, 65535⟩).after
      (bytewise 129 ++ [.settle])).Cumulative := by
  obtain ⟨base, hwindowed⟩ := windowed_after 99 50 ⟨255, 65535⟩
    (bytewise 129 ++ [.settle])
  exact hwindowed.not_cumulative (filled_length 99 50 ⟨255, 65535⟩ (by decide))

end EstablishedState

end Iap2

end Bridgething
