/-
The two sides of a link's state: what sends, and what receives.  Most operations
leave one of them alone.
-/
import Bridgething.Iap2.Established

namespace Bridgething

namespace Iap2

namespace EstablishedState

/-- What sends is as it was. -/
structure SameSender (state next : EstablishedState) : Prop where
  params : next.params = state.params
  lastSentPsn : next.lastSentPsn = state.lastSentPsn
  unacked : next.unacked = state.unacked
  pendingSend : next.pendingSend = state.pendingSend
  enqueued : next.enqueued = state.enqueued

/-- What receives is as it was. -/
structure SameReceiver (state next : EstablishedState) : Prop where
  params : next.params = state.params
  last : next.lastReceivedInSequencePsn = state.lastReceivedInSequencePsn
  outOfOrder : next.outOfOrder = state.outOfOrder
  delivered : next.delivered = state.delivered

theorem SameSender.refl (state : EstablishedState) : SameSender state state :=
  ⟨rfl, rfl, rfl, rfl, rfl⟩

theorem SameReceiver.refl (state : EstablishedState) :
    SameReceiver state state :=
  ⟨rfl, rfl, rfl, rfl⟩

theorem SameSender.trans {state mid next : EstablishedState}
    (hfirst : SameSender state mid) (hsecond : SameSender mid next) :
    SameSender state next :=
  ⟨hsecond.params.trans hfirst.params,
    hsecond.lastSentPsn.trans hfirst.lastSentPsn,
    hsecond.unacked.trans hfirst.unacked,
    hsecond.pendingSend.trans hfirst.pendingSend,
    hsecond.enqueued.trans hfirst.enqueued⟩

theorem SameReceiver.trans {state mid next : EstablishedState}
    (hfirst : SameReceiver state mid) (hsecond : SameReceiver mid next) :
    SameReceiver state next :=
  ⟨hsecond.params.trans hfirst.params, hsecond.last.trans hfirst.last,
    hsecond.outOfOrder.trans hfirst.outOfOrder,
    hsecond.delivered.trans hfirst.delivered⟩

/-! ### Operations of the receiving side -/

theorem sameSender_deliverBuffered (fuel : Nat) (state : EstablishedState) :
    SameSender state (deliverBuffered fuel state) := by
  induction fuel generalizing state with
  | zero => exact .refl state
  | succ fuel ih =>
      rw [deliverBuffered]
      split
      · exact .refl state
      · rename_i buffered _
        have hsame := ih ({ state with
          outOfOrder := state.outOfOrder.remove
            (state.lastReceivedInSequencePsn + 1) : EstablishedState }.deliver
              (state.lastReceivedInSequencePsn + 1) buffered)
        exact ⟨hsame.params, hsame.lastSentPsn, hsame.unacked,
          hsame.pendingSend, hsame.enqueued⟩

theorem sameSender_handleInboundData (state : EstablishedState)
    (packet : LinkPacket) :
    SameSender state (state.handleInboundData packet) := by
  unfold handleInboundData
  dsimp only
  split
  · exact ⟨rfl, rfl, rfl, rfl, rfl⟩
  · split
    · have hsame := sameSender_deliverBuffered state.outOfOrder.length
        (state.deliver packet.header.seq packet)
      exact ⟨hsame.params, hsame.lastSentPsn, hsame.unacked, hsame.pendingSend,
        hsame.enqueued⟩
    · split
      · exact ⟨rfl, rfl, rfl, rfl, rfl⟩
      · exact ⟨rfl, rfl, rfl, rfl, rfl⟩

theorem sendEak_same (state : EstablishedState) :
    SameSender state state.sendEak.1 ∧ SameReceiver state state.sendEak.1 := by
  unfold sendEak
  split
  · exact ⟨.refl state, .refl state⟩
  · dsimp only
    split
    · exact ⟨.refl state, .refl state⟩
    · exact ⟨⟨rfl, rfl, rfl, rfl, rfl⟩, ⟨rfl, rfl, rfl, rfl⟩⟩

theorem sameSender_takePayload (state : EstablishedState)
    (packet : LinkPacket) :
    SameSender state (state.takePayload packet).1 := by
  have hdata := sameSender_handleInboundData state packet
  unfold takePayload
  split
  · exact .refl state
  · split
    · dsimp only
      split
      · exact hdata.trans (sendEak_same _).1
      · exact hdata
    · exact .refl state

/-! ### Operations of the sending side -/

theorem sameReceiver_acknowledge (state : EstablishedState)
    (header : LinkHeader) : SameReceiver state (state.acknowledge header) := by
  unfold acknowledge
  split
  · exact ⟨rfl, rfl, rfl, rfl⟩
  · exact .refl state

theorem sameReceiver_drainFrom (state : EstablishedState)
    (chunks : List Chunk) :
    SameReceiver state (state.drainFrom chunks).1 := by
  induction chunks generalizing state with
  | nil => exact ⟨rfl, rfl, rfl, rfl⟩
  | cons chunk rest ih =>
      rw [drainFrom]
      split
      · have hsame := ih (state.sendDataPacket chunk).1
        exact ⟨hsame.params, hsame.last, hsame.outOfOrder, hsame.delivered⟩
      · exact ⟨rfl, rfl, rfl, rfl⟩

theorem sameReceiver_settle (state : EstablishedState) :
    SameReceiver state state.settle.1 := by
  have hdrained := sameReceiver_drainFrom state state.pendingSend
  unfold settle drainPendingSend
  dsimp only
  split
  · exact hdrained.trans ⟨rfl, rfl, rfl, rfl⟩
  · exact hdrained

/-! ### What the peer announced -/

theorem step_params (state : EstablishedState) (event : LinkEvent) :
    (state.step event).1.params = state.params := by
  cases event with
  | send sessionId payload => rfl
  | retransmit => rfl
  | settle => exact (sameReceiver_settle state).params
  | receive packet =>
      unfold step receive
      dsimp only
      split
      · rfl
      · exact (sameSender_takePayload _ packet).params.trans
          (sameReceiver_acknowledge state packet.header).params

theorem after_params (state : EstablishedState) (events : List LinkEvent) :
    (state.after events).params = state.params := by
  unfold after
  induction events generalizing state with
  | nil => rfl
  | cons event rest ih => rw [List.foldl_cons, ih, step_params]

end EstablishedState

end Iap2

end Bridgething
