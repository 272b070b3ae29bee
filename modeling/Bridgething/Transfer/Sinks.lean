/-
The sinks that incoming transfers are bound to: a buffer in memory, or a stream
forwarded to a consumer and acknowledged on receipt or on drain.
-/
import Bridgething.Lib.Table
import Bridgething.Gateway.Transfer

namespace Bridgething

namespace Transfer

open Gateway

def MEMORY_SINK_CAP : Nat := 256 * 1024

def FORWARD_ACK_INTERVAL : UInt32 := 16 * 1024

def FORWARD_SPOOL_WARN_BYTES : Nat := 4 * 1024 * 1024

def FORWARD_SPOOL_MAX_BYTES : Nat := 64 * 1024 * 1024

inductive AckPolicy
  | onReceipt
  | onDrain
deriving Repr, DecidableEq

inductive TransferEvent
  | fragment (offset : UInt32) (bytes : Bytes)
  | abandon (reason : String)
deriving Repr, DecidableEq

structure MemoryState where
  buf : Bytes
  failed : Bool
deriving Repr, DecidableEq

/-- The channel to the consumer is part of the state: what it holds, and whether
the consumer still listens. -/
structure ForwardState where
  events : List TransferEvent
  listening : Bool
  queued : Nat
  lastAck : UInt32
  policy : AckPolicy
  warned : Bool
deriving Repr, DecidableEq

inductive Binding
  | memory (state : MemoryState)
  | forward (state : ForwardState)
deriving Repr, DecidableEq

abbrev TransferSinks := Table Uuid Binding

namespace TransferSinks

def bindMemory (sinks : TransferSinks) (id : Uuid) : TransferSinks :=
  sinks.put id (.memory ⟨[], false⟩)

def bindForward (sinks : TransferSinks) (id : Uuid) (policy : AckPolicy) :
    TransferSinks :=
  sinks.put id (.forward ⟨[], true, 0, 0, policy, false⟩)

def unbind (sinks : TransferSinks) (id : Uuid) : TransferSinks :=
  sinks.remove id

/-- The consumer takes the next event of a forwarded transfer. -/
def recv (sinks : TransferSinks) (id : Uuid) :
    TransferSinks × Option TransferEvent :=
  match sinks.get? id with
  | some (.forward state) =>
      match state.events with
      | [] => (sinks, none)
      | .fragment offset bytes :: rest =>
          (sinks.put id (.forward { state with
              events := rest
              queued := state.queued - bytes.length }),
            some (.fragment offset bytes))
      | .abandon reason :: rest =>
          (sinks.put id (.forward { state with events := rest }),
            some (.abandon reason))
  | _ => (sinks, none)

/-- The consumer drops its end of the stream. -/
def leave (sinks : TransferSinks) (id : Uuid) : TransferSinks :=
  match sinks.get? id with
  | some (.forward state) =>
      sinks.put id (.forward { state with listening := false })
  | _ => sinks

def saturatingAdd (left right : UInt32) : UInt32 :=
  if left.toNat + right.toNat < 2 ^ 32 then left + right else 0xFFFFFFFF

def saturatingSub (left right : UInt32) : UInt32 :=
  if right ≤ left then left - right else 0

def fragment (sinks : TransferSinks) (id : Uuid) (offset : UInt32)
    (bytes : Bytes) : TransferSinks × Option UInt32 :=
  let received := saturatingAdd offset bytes.length.toUInt32
  match sinks.get? id with
  | none => (sinks, none)
  | some (.memory state) =>
      if state.failed then (sinks, none)
      else if offset.toNat ≠ state.buf.length ∨
          state.buf.length + bytes.length > MEMORY_SINK_CAP then
        (sinks.put id (.memory { state with failed := true }), none)
      else
        (sinks.put id (.memory { state with buf := state.buf ++ bytes }),
          some received)
  | some (.forward state) =>
      if state.queued + bytes.length > FORWARD_SPOOL_MAX_BYTES then
        (sinks.remove id, none)
      else
        let warned := state.warned ∨
          state.queued + bytes.length > FORWARD_SPOOL_WARN_BYTES
        if ¬ state.listening then (sinks.remove id, none)
        else
          let state :=
            { state with
              warned := warned
              queued := state.queued + bytes.length
              events := state.events ++ [.fragment offset bytes] }
          if state.policy = .onDrain then
            (sinks.put id (.forward state), none)
          else if saturatingSub received state.lastAck ≥ FORWARD_ACK_INTERVAL
          then
            (sinks.put id (.forward { state with lastAck := received }),
              some received)
          else (sinks.put id (.forward state), none)

def abandon (sinks : TransferSinks) (id : Uuid) (reason : String) :
    TransferSinks × Option TransferEvent :=
  match sinks.get? id with
  | none => (sinks, none)
  | some (.memory state) =>
      (sinks.put id (.memory { state with failed := true }), none)
  | some (.forward _) => (sinks.remove id, some (.abandon reason))

/-- Any call on the sinks. -/
inductive Op
  | bindMemory (id : Uuid)
  | bindForward (id : Uuid) (policy : AckPolicy)
  | unbind (id : Uuid)
  | recv (id : Uuid)
  | leave (id : Uuid)
  | fragment (id : Uuid) (offset : UInt32) (bytes : Bytes)
  | abandon (id : Uuid) (reason : String)
deriving Repr, DecidableEq

def Op.id : Op → Uuid
  | .bindMemory id => id
  | .bindForward id _ => id
  | .unbind id => id
  | .recv id => id
  | .leave id => id
  | .fragment id _ _ => id
  | .abandon id _ => id

def apply (sinks : TransferSinks) : Op → TransferSinks
  | .bindMemory id => sinks.bindMemory id
  | .bindForward id policy => sinks.bindForward id policy
  | .unbind id => sinks.unbind id
  | .recv id => (sinks.recv id).1
  | .leave id => sinks.leave id
  | .fragment id offset bytes => (sinks.fragment id offset bytes).1
  | .abandon id reason => (sinks.abandon id reason).1

section Forwarding

variable {sinks : TransferSinks} {id : Uuid} {state : ForwardState}
  {offset : UInt32} {bytes : Bytes}

theorem saturatingAdd_toNat {left right : UInt32}
    (h : left.toNat + right.toNat < 2 ^ 32) :
    (saturatingAdd left right).toNat = left.toNat + right.toNat := by
  rw [saturatingAdd, if_pos h, UInt32.toNat_add]
  exact Nat.mod_eq_of_lt h

theorem saturatingSub_toNat (left right : UInt32) :
    (saturatingSub left right).toNat = left.toNat - right.toNat := by
  unfold saturatingSub
  split
  case isTrue hle => exact UInt32.toNat_sub_of_le _ _ hle
  case isFalse hlt =>
    have hnat : ¬ right.toNat ≤ left.toNat := fun hle =>
      hlt (UInt32.le_iff_toNat_le.mpr hle)
    rw [UInt32.toNat_zero]
    omega

/-- On receipt an ack goes out wherever a fragment ends an interval past the
last one. -/
theorem fragment_onReceipt (hget : sinks.get? id = some (.forward state))
    (hpolicy : state.policy = .onReceipt) (hlistening : state.listening = true)
    (hroom : state.queued + bytes.length ≤ FORWARD_SPOOL_MAX_BYTES)
    (hfits : offset.toNat + bytes.length < 2 ^ 32) :
    ∃ next : ForwardState,
      (sinks.fragment id offset bytes).1 = sinks.put id (.forward next) ∧
      next.policy = .onReceipt ∧ next.listening = true ∧
      ((sinks.fragment id offset bytes).2 = none ∧
          next.lastAck = state.lastAck ∧
          offset.toNat + bytes.length <
            state.lastAck.toNat + FORWARD_ACK_INTERVAL.toNat ∨
        (sinks.fragment id offset bytes).2 = some next.lastAck ∧
          next.lastAck.toNat = offset.toNat + bytes.length ∧
          state.lastAck.toNat ≤ next.lastAck.toNat) := by
  have hroom' : ¬ state.queued + bytes.length > FORWARD_SPOOL_MAX_BYTES := by
    omega
  have hlen : bytes.length.toUInt32.toNat = bytes.length :=
    UInt32.toNat_ofNat_of_lt' (Nat.lt_of_le_of_lt (Nat.le_add_left _ _) hfits)
  have hreceived :
      (saturatingAdd offset bytes.length.toUInt32).toNat =
        offset.toNat + bytes.length := by
    rw [saturatingAdd_toNat, hlen]
    rw [hlen]
    exact hfits
  have hpolicy' : ¬ state.policy = .onDrain := by
    rw [hpolicy]
    exact AckPolicy.noConfusion
  have hdue : FORWARD_ACK_INTERVAL ≤ saturatingSub
        (saturatingAdd offset bytes.length.toUInt32) state.lastAck ↔
      FORWARD_ACK_INTERVAL.toNat ≤
        offset.toNat + bytes.length - state.lastAck.toNat := by
    rw [UInt32.le_iff_toNat_le, saturatingSub_toNat, hreceived]
  by_cases hsend : FORWARD_ACK_INTERVAL ≤ saturatingSub
      (saturatingAdd offset bytes.length.toUInt32) state.lastAck
  · refine ⟨{ state with
        warned := state.warned ∨
          state.queued + bytes.length > FORWARD_SPOOL_WARN_BYTES
        queued := state.queued + bytes.length
        events := state.events ++ [.fragment offset bytes]
        lastAck := saturatingAdd offset bytes.length.toUInt32 },
      ?_, hpolicy, hlistening, Or.inr ⟨?_, hreceived, ?_⟩⟩
    · simp [fragment, hget, hroom', hlistening, hpolicy', hsend]
    · simp [fragment, hget, hroom', hlistening, hpolicy', hsend]
    · have hreach := hdue.mp hsend
      have hinterval : 0 < FORWARD_ACK_INTERVAL.toNat := by decide
      simp only [hreceived]
      omega
  · refine ⟨{ state with
        warned := state.warned ∨
          state.queued + bytes.length > FORWARD_SPOOL_WARN_BYTES
        queued := state.queued + bytes.length
        events := state.events ++ [.fragment offset bytes] },
      ?_, hpolicy, hlistening, Or.inl ⟨?_, rfl, ?_⟩⟩
    · simp [fragment, hget, hroom', hlistening, hpolicy', hsend]
    · simp [fragment, hget, hroom', hlistening, hpolicy', hsend]
    · have hshort := mt hdue.mpr hsend
      omega

/-- A call leaves the bindings of every other transfer. -/
theorem apply_other (sinks : TransferSinks) (op : Op) {other : Uuid}
    (hother : other ≠ op.id) :
    (sinks.apply op).get? other = sinks.get? other := by
  cases op with
  | bindMemory id => exact Table.get?_put_of_ne _ _ hother
  | bindForward id policy => exact Table.get?_put_of_ne _ _ hother
  | unbind id => exact Table.get?_remove_of_ne _ hother
  | recv id =>
      simp only [apply, recv]
      repeat' split
      all_goals first | rfl | exact Table.get?_put_of_ne _ _ hother
  | leave id =>
      simp only [apply, leave]
      split
      · exact Table.get?_put_of_ne _ _ hother
      · rfl
  | fragment id offset bytes =>
      simp only [apply, fragment]
      repeat' split
      all_goals first
        | rfl
        | exact Table.get?_put_of_ne _ _ hother
        | exact Table.get?_remove_of_ne _ hother
  | abandon id reason =>
      simp only [apply, abandon]
      split
      · rfl
      · exact Table.get?_put_of_ne _ _ hother
      · exact Table.get?_remove_of_ne _ hother

/-- The consumer only drains. -/
theorem recv_forward (hget : sinks.get? id = some (.forward state)) :
    ∃ next : ForwardState, (sinks.recv id).1.get? id = some (.forward next) ∧
      next.policy = state.policy ∧ next.listening = state.listening ∧
      next.lastAck = state.lastAck := by
  cases hevents : state.events with
  | nil => exact ⟨state, by simp [recv, hget, hevents], rfl, rfl, rfl⟩
  | cons event rest =>
      cases event with
      | fragment offset bytes =>
          refine ⟨{ state with
            events := rest, queued := state.queued - bytes.length },
            ?_, rfl, rfl, rfl⟩
          simp [recv, hget, hevents]
      | abandon reason =>
          refine ⟨{ state with events := rest }, ?_, rfl, rfl, rfl⟩
          simp [recv, hget, hevents]

end Forwarding

end TransferSinks

end Transfer

end Bridgething
