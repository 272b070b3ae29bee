/-
The two ends of a tunnel: the core's, between a SOCKS client and the link
(`proxy/mod.rs`), and the delivery's, between the link and the remote host
(`serve/tunnel.rs`).  Each counts what it has written and acknowledges the
count, and reads on only as far as its window allows.
-/
import Bridgething.Delivery.Sender

namespace Bridgething

namespace Tunnel

open Gateway Delivery

/-! ### The delivery's end -/

/-- The buffer of one read of the remote host. -/
def FRAGMENT_BYTES : Nat := 16 * 1024

/-- `TunnelDispatcher::ack`: the wire carries a difference, the window keeps
the total. -/
def dispatchAck (acks : AckWindow) (tunnelId : Uuid) (consumed : UInt32) :
    AckWindow :=
  acks.note tunnelId (acks.receivedBytes tunnelId + consumed.toNat)

/-- The count is taken and, unless it is nothing, sent. -/
def flushAck (delivered : Nat) : Nat × Option UInt32 :=
  (0, if delivered = 0 then none
    else some (UInt32.ofNat (min delivered (2 ^ 32 - 1))))

/-- What `write_loop` does once bytes are written. -/
def writeLoop (delivered : Nat) (bytes : Bytes) : Nat × Option UInt32 :=
  if ACK_INTERVAL_BYTES ≤ delivered + bytes.length then
    flushAck (delivered + bytes.length)
  else (delivered + bytes.length, none)

/-! ### The core's end -/

def TUNNEL_INBOUND_CAPACITY : Nat := 32

def TUNNEL_ACK_INTERVAL_BYTES : UInt32 := 16 * 1024

/-- The most that one read of a socket returns. -/
def READ_MAX_BYTES : Nat := 0x7ffff000

/-- The consumed total of a route, and how often it was written. -/
structure Consumed where
  total : Nat := 0
  version : Nat := 0
deriving DecidableEq, Repr

/-- `TunnelRoutes::note_ack`. -/
def Consumed.noteAck (consumed : Consumed) (amount : UInt32) : Consumed where
  total := consumed.total + amount.toNat
  version := consumed.version + 1

/-- Whether `bridge` reads on; nothing holds it before the first ack. -/
def bridgeAdmits (consumed sent window : Nat) : Bool :=
  consumed = 0 || sent < consumed + window

def saturatingAdd (a b : UInt32) : UInt32 :=
  if a.toNat + b.toNat < 2 ^ 32 then a + b else UInt32.ofNat (2 ^ 32 - 1)

/-- The count is sent and taken, unless it is nothing. -/
def sendAck (unacked : UInt32) : UInt32 × Option UInt32 :=
  if unacked = 0 then (unacked, none) else (0, some unacked)

/-- What `bridge` does once inbound bytes are written. -/
def bridgeInbound (unacked : UInt32) (bytes : Bytes) :
    UInt32 × Option UInt32 :=
  let counted := saturatingAdd unacked (UInt32.ofNat bytes.length)
  if TUNNEL_ACK_INTERVAL_BYTES ≤ counted then sendAck counted
  else (counted, none)

/-! ### What the counts come to -/

theorem ACK_INTERVAL_le_MIN_WINDOW : ACK_INTERVAL_BYTES ≤ MIN_WINDOW_BYTES := by
  decide

/-- A flush takes the whole count, as long as it fits an ack. -/
theorem flushAck_eq {delivered : Nat} (hfits : delivered < 2 ^ 32) :
    flushAck delivered = (0, none) ∧ delivered = 0 ∨
      ∃ consumed, flushAck delivered = (0, some consumed) ∧
        consumed.toNat = delivered := by
  by_cases hzero : delivered = 0
  · left
    simp [flushAck, hzero]
  · right
    refine ⟨_, by rw [flushAck, if_neg hzero], ?_⟩
    rw [Nat.min_eq_left (by omega)]
    exact UInt32.toNat_ofNat_of_lt' hfits

theorem sendAck_eq (unacked : UInt32) :
    sendAck unacked = (0, none) ∧ unacked.toNat = 0 ∨
      sendAck unacked = (0, some unacked) := by
  by_cases hzero : unacked = 0
  · left
    simp [sendAck, hzero]
  · right
    simp [sendAck, hzero]

/-- Bytes written count, and stay below the interval or go into an ack. -/
theorem writeLoop_cases {delivered : Nat} {bytes : Bytes}
    (hfits : delivered + bytes.length < 2 ^ 32) :
    (writeLoop delivered bytes = (delivered + bytes.length, none) ∧
        delivered + bytes.length < ACK_INTERVAL_BYTES) ∨
      ∃ consumed, writeLoop delivered bytes = (0, some consumed) ∧
        consumed.toNat = delivered + bytes.length := by
  by_cases hreach : ACK_INTERVAL_BYTES ≤ delivered + bytes.length
  · right
    rw [writeLoop, if_pos hreach]
    rcases flushAck_eq hfits with ⟨-, hzero⟩ | hsome
    · have hpos : 0 < ACK_INTERVAL_BYTES := by decide
      omega
    · exact hsome
  · left
    rw [writeLoop, if_neg hreach]
    exact ⟨rfl, by omega⟩

theorem bridgeInbound_cases {unacked : UInt32} {bytes : Bytes}
    (hnear : unacked.toNat < ACK_INTERVAL_BYTES)
    (hsize : bytes.length ≤ FRAGMENT_BYTES) :
    (∃ counted, bridgeInbound unacked bytes = (counted, none) ∧
        counted.toNat = unacked.toNat + bytes.length ∧
        unacked.toNat + bytes.length < ACK_INTERVAL_BYTES) ∨
      ∃ consumed, bridgeInbound unacked bytes = (0, some consumed) ∧
        consumed.toNat = unacked.toNat + bytes.length := by
  have hinterval : ACK_INTERVAL_BYTES = 16384 := rfl
  have hfragment : FRAGMENT_BYTES = 16384 := rfl
  have hlength : (UInt32.ofNat bytes.length).toNat = bytes.length :=
    UInt32.toNat_ofNat_of_lt' (by simp [UInt32.size]; omega)
  have hsum : unacked.toNat + (UInt32.ofNat bytes.length).toNat < 2 ^ 32 := by
    omega
  have hcounted : (saturatingAdd unacked (UInt32.ofNat bytes.length)).toNat =
      unacked.toNat + bytes.length := by
    rw [saturatingAdd, if_pos hsum, UInt32.toNat_add, Nat.mod_eq_of_lt hsum,
      hlength]
  unfold bridgeInbound
  dsimp only
  split
  · next hreach =>
      right
      have hle : 16384 ≤
          (saturatingAdd unacked (UInt32.ofNat bytes.length)).toNat :=
        UInt32.le_iff_toNat_le.mp hreach
      rcases sendAck_eq (saturatingAdd unacked (UInt32.ofNat bytes.length)) with
        ⟨-, hzero⟩ | hsome
      · omega
      · exact ⟨_, hsome, hcounted⟩
  · next hshort =>
      left
      refine ⟨_, rfl, hcounted, ?_⟩
      have hlt : ¬ 16384 ≤
          (saturatingAdd unacked (UInt32.ofNat bytes.length)).toNat :=
        fun hle => hshort (UInt32.le_iff_toNat_le.mpr hle)
      omega

/-- An ack of a tunnel that is open raises its total by what it says. -/
theorem receivedBytes_dispatchAck {acks : AckWindow} {tunnelId : Uuid}
    (hopen : (acks.get? tunnelId).isSome) (consumed : UInt32) :
    (dispatchAck acks tunnelId consumed).receivedBytes tunnelId =
        acks.receivedBytes tunnelId + consumed.toNat ∧
      ((dispatchAck acks tunnelId consumed).get? tunnelId).isSome := by
  obtain ⟨entry, hentry⟩ := Option.isSome_iff_exists.mp hopen
  simp [dispatchAck, AckWindow.note, AckWindow.receivedBytes, hentry]

end Tunnel

end Bridgething
