/-
The receiver of fragmented transfers: fragments are assembled under a registered
transfer, or held for a while when they come before it is registered.
-/
import Bridgething.Delivery.Sender

namespace Bridgething

namespace Delivery

open Gateway

def MAX_TRANSFER_BYTES : Nat := 1024 * 1024

def RECEIPT_ACK_INTERVAL_BYTES : UInt32 := ACK_INTERVAL_BYTES.toUInt32

def PREREGISTRATION_BUDGET_BYTES : Nat := 512 * 1024

/-- In milliseconds, as every time below. -/
def PREREGISTRATION_TTL : Nat := 5000

inductive TransferReceiveError
  | notRegistered (transferId : Uuid)
  | timedOut (transferId : Uuid)
  | tooLarge (transferId : Uuid) (totalSize : UInt32)
  | overflow (transferId : Uuid)
  | gap (transferId : Uuid) (expected got : UInt32)
  | shaMismatch (transferId : Uuid) (expected got : String)
  | abandoned (transferId : Uuid) (reason : String)
  | stopped (transferId : Uuid)
deriving Repr, DecidableEq

abbrev Collected := Except TransferReceiveError Bytes

/-- A call of `collect`, which may wait for its answer. -/
abbrev Call := Nat

structure Pending where
  totalSize : UInt32
  sha256 : Option String
  buffer : Bytes
  lastAcked : UInt32
  waiter : Option Call
  terminal : Option Collected

structure Buffered where
  fragments : List (UInt32 × Bytes)
  bytes : Nat
  expiresAt : Nat
deriving Repr, DecidableEq

structure State where
  pending : Table Uuid Pending
  buffer : Table Uuid Buffered
  bufferedBytes : Nat

def State.init : State := ⟨[], [], 0⟩

structure Answer where
  call : Call
  transferId : Uuid
  outcome : Collected

/-- What a call of the receiver leaves behind: the state, the answers that were
sent to waiting collects and the acks that were emitted. -/
structure Reply where
  state : State
  answers : List Answer
  acks : List TransferAck

def settle (state : State) (transferId : Uuid) (outcome : Collected) :
    State × List Answer :=
  match state.pending.get? transferId with
  | none => (state, [])
  | some pending =>
      if pending.terminal.isSome then (state, [])
      else match pending.waiter with
        | none =>
            ({ state with
              pending := state.pending.put transferId
                { pending with buffer := [], terminal := some outcome } }, [])
        | some waiter =>
            ({ state with pending := state.pending.remove transferId },
              [⟨waiter, transferId, outcome⟩])

inductive Step
  | gap (expected : UInt32)
  | overflow
  | complete (body : Bytes)
  | ack (received : UInt32)
  | quiet

def Pending.take (pending : Pending) (offset : UInt32) (bytes : Bytes) :
    Step × Pending :=
  let held := pending.buffer.length.toUInt32
  if offset ≠ held then (.gap held, pending)
  else if pending.buffer.length + bytes.length > pending.totalSize.toNat then
    (.overflow, pending)
  else
    let buffer := pending.buffer ++ bytes
    let received := buffer.length.toUInt32
    if received = pending.totalSize then
      (.complete buffer, { pending with buffer := [] })
    else if received - pending.lastAcked ≥ RECEIPT_ACK_INTERVAL_BYTES then
      (.ack received, { pending with buffer := buffer, lastAcked := received })
    else (.quiet, { pending with buffer := buffer })

def eqIgnoreAsciiCase (left right : String) : Bool :=
  left.toList.map Char.toLower = right.toList.map Char.toLower

section

variable (sha256Hex : Bytes → String)

def checked (transferId : Uuid) (want : Option String) (body : Bytes) :
    Collected :=
  match want with
  | some want =>
      let got := sha256Hex body
      if eqIgnoreAsciiCase got want then .ok body
      else .error (.shaMismatch transferId want got)
  | none => .ok body

/-- The offset to acknowledge comes last. -/
def ingest (state : State) (transferId : Uuid) (offset : UInt32)
    (bytes : Bytes) : State × List Answer × Option UInt32 :=
  match state.pending.get? transferId with
  | none => (state, [], none)
  | some pending =>
      if pending.terminal.isSome then (state, [], none)
      else
        let (step, pending) := pending.take offset bytes
        let state :=
          { state with pending := state.pending.put transferId pending }
        match step with
        | .gap expected =>
            let (state, answers) :=
              settle state transferId (.error (.gap transferId expected offset))
            (state, answers, none)
        | .overflow =>
            let (state, answers) :=
              settle state transferId (.error (.overflow transferId))
            (state, answers, none)
        | .complete body =>
            let received := body.length.toUInt32
            let outcome := checked sha256Hex transferId pending.sha256 body
            let (state, answers) := settle state transferId outcome
            (state, answers, some received)
        | .ack received => (state, [], some received)
        | .quiet => (state, [], none)

def evictExpired (now : Nat) (state : State) : State :=
  let freed := (state.buffer.filter fun entry =>
    ¬ entry.2.expiresAt > now).map fun entry => entry.2.bytes
  { state with
    buffer := state.buffer.filter fun entry => entry.2.expiresAt > now
    bufferedBytes := state.bufferedBytes - freed.sum }

def holdUnregistered (now : Nat) (state : State) (fragment : TransferFragment) :
    State :=
  let bytes := fragment.bytes.length
  if state.bufferedBytes + bytes > PREREGISTRATION_BUDGET_BYTES then state
  else
    let expiresAt := now + PREREGISTRATION_TTL
    let held := (state.buffer.get? fragment.transferId).getD ⟨[], 0, expiresAt⟩
    { state with
      bufferedBytes := state.bufferedBytes + bytes
      buffer := state.buffer.put fragment.transferId
        { fragments := held.fragments ++ [(fragment.offset, fragment.bytes)]
          bytes := held.bytes + bytes
          expiresAt := expiresAt } }

/-- The fragments held for a transfer that has just been registered, up to the
first that ends it. -/
def replay (transferId : Uuid) : State → List (UInt32 × Bytes) →
    State × List Answer × List UInt32
  | state, [] => (state, [], [])
  | state, (offset, bytes) :: rest =>
      if (state.pending.get? transferId).all (·.terminal.isSome) then
        (state, [], [])
      else
        let (state, answers, received) :=
          ingest sha256Hex state transferId offset bytes
        let (state, later, acks) := replay transferId state rest
        (state, answers ++ later, received.toList ++ acks)

def State.register (now : Nat) (state : State) (transfer : TransferRef) :
    Reply :=
  let state := evictExpired now state
  if (state.pending.get? transfer.id).isSome then ⟨state, [], []⟩
  else
    let settled : Option Collected :=
      if transfer.totalSize = 0 then some (.ok [])
      else if transfer.totalSize.toNat > MAX_TRANSFER_BYTES then
        some (.error (.tooLarge transfer.id transfer.totalSize))
      else none
    let state :=
      { state with
        pending := state.pending.put transfer.id
          { totalSize := transfer.totalSize
            sha256 := transfer.sha256
            buffer := []
            lastAcked := 0
            waiter := none
            terminal := settled } }
    if settled.isSome then ⟨state, [], []⟩
    else
      match state.buffer.get? transfer.id with
      | none => ⟨state, [], []⟩
      | some held =>
          let state :=
            { state with
              buffer := state.buffer.remove transfer.id
              bufferedBytes := state.bufferedBytes - held.bytes }
          let (state, answers, acks) :=
            replay sha256Hex transfer.id state held.fragments
          ⟨state, answers, acks.map fun received => ⟨transfer.id, received⟩⟩

def State.onFragment (now : Nat) (state : State) (fragment : TransferFragment) :
    Reply :=
  let transferId := fragment.transferId
  let state := evictExpired now state
  if (state.pending.get? transferId).isSome then
    let (state, answers, received) :=
      ingest sha256Hex state transferId fragment.offset fragment.bytes
    ⟨state, answers,
      received.toList.map fun received => ⟨transferId, received⟩⟩
  else ⟨holdUnregistered now state fragment, [], []⟩

end

def State.onAbandon (state : State) (abandon : TransferAbandon) : Reply :=
  let transferId := abandon.transferId
  let state :=
    match state.buffer.get? transferId with
    | some held =>
        { state with
          buffer := state.buffer.remove transferId
          bufferedBytes := state.bufferedBytes - held.bytes }
    | none => state
  if (state.pending.get? transferId).isSome then
    let (state, answers) :=
      settle state transferId (.error (.abandoned transferId abandon.reason))
    ⟨state, answers, []⟩
  else ⟨state, [], []⟩

/-- The waiter that another takes the place of sees its channel close. -/
def dropped (transferId : Uuid) (waiter : Option Call) : List Answer :=
  waiter.toList.map fun call => ⟨call, transferId, .error (.stopped transferId)⟩

/-- The call up to its answer, or to its wait for one. -/
def State.collect (state : State) (call : Call) (transferId : Uuid) : Reply :=
  match state.pending.get? transferId with
  | none => ⟨state, [⟨call, transferId, .error (.notRegistered transferId)⟩], []⟩
  | some pending =>
      match pending.terminal with
      | some terminal =>
          ⟨{ state with pending := state.pending.remove transferId },
            [⟨call, transferId, terminal⟩], []⟩
      | none =>
          ⟨{ state with
              pending := state.pending.put transferId
                { pending with waiter := some call } },
            dropped transferId pending.waiter, []⟩

/-- The timeout of a waiting call.  It is taken outside the lock, so the entry
that goes need not be the one the call has waited for. -/
def State.collectTimeout (state : State) (call : Call) (transferId : Uuid) :
    Reply :=
  let waiter := (state.pending.get? transferId).bind fun pending =>
    pending.waiter.filter (· ≠ call)
  ⟨{ state with pending := state.pending.remove transferId },
    dropped transferId waiter ++
      [⟨call, transferId, .error (.timedOut transferId)⟩], []⟩

def stopEach : State → List Uuid → State × List Answer
  | state, [] => (state, [])
  | state, transferId :: rest =>
      let (state, sent) :=
        settle state transferId (.error (.stopped transferId))
      let (state, later) := stopEach state rest
      (state, sent ++ later)

def State.stop (state : State) : Reply :=
  let (state, answers) := stopEach state state.pending.keys
  ⟨{ state with buffer := [], bufferedBytes := 0 }, answers, []⟩

end Delivery

end Bridgething
