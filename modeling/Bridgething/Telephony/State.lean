/-
The calls of a phone, as `state/telephony.rs` keeps them.  They come from the
phone itself, update by update, and from the companion app on it, whole; each
operation changes the state under a lock and says afterwards what it changed.
-/
import Bridgething.Lib.Ranking
import Bridgething.Lib.Table

namespace Bridgething

namespace Telephony

/-- The Bluetooth address of a companion. -/
abbrev Address := Nat

inductive PhoneCallStatus
  | disconnected
  | sending
  | ringing
  | connecting
  | active
  | held
  | disconnecting
deriving DecidableEq, Repr

inductive PhoneCallDirection
  | incoming
  | outgoing
deriving DecidableEq, Repr

inductive PhoneCallService
  | unknown
  | telephony
  | faceTimeAudio
  | faceTimeVideo
deriving DecidableEq, Repr

structure PhoneCall where
  callId : String
  remoteId : String
  displayName : String
  status : PhoneCallStatus
  direction : PhoneCallDirection
  startedAtUnixS : Option UInt32
  label : Option String
  addressBookId : Option String
  service : Option PhoneCallService
  isConferenced : Option Bool
  conferenceGroup : Option UInt8
deriving DecidableEq, Repr

/-- Why a call ended, for the clients. -/
inductive CallEndReason
  | local
  | remote
  | missed
  | declined
  | failed (reason : String)
deriving DecidableEq, Repr

inductive RegistrationStatus
  | unknown
  | notRegistered
  | searching
  | denied
  | registeredHome
  | registeredRoaming
  | emergencyCallsOnly
deriving DecidableEq, Repr

structure CommunicationsState where
  signalStrength : Option UInt8 := none
  registrationStatus : Option RegistrationStatus := none
  airplaneMode : Option Bool := none
  carrierName : Option String := none
  cellularSupported : Option Bool := none
  telephonyEnabled : Option Bool := none
  faceTimeAudioEnabled : Option Bool := none
  faceTimeVideoEnabled : Option Bool := none
  muteStatus : Option Bool := none
  currentCallCount : Option UInt8 := none
  newVoicemailCount : Option UInt8 := none
  initiateCallAvailable : Option Bool := none
  endAndAcceptAvailable : Option Bool := none
  holdAndAcceptAvailable : Option Bool := none
  swapAvailable : Option Bool := none
  mergeAvailable : Option Bool := none
  holdAvailable : Option Bool := none
deriving DecidableEq, Repr

/-- What the phone says of one call; what it leaves out has not changed. -/
structure Iap2CallStateUpdate where
  remoteId : Option String := none
  displayName : Option String := none
  status : Option UInt8 := none
  direction : Option UInt8 := none
  callUuid : Option String := none
  addressBookId : Option String := none
  label : Option String := none
  service : Option UInt8 := none
  isConferenced : Option Bool := none
  conferenceGroup : Option UInt8 := none
  disconnectReason : Option UInt8 := none
  startTimestampUnixS : Option Int := none
deriving DecidableEq, Repr

structure Iap2CommunicationsUpdate where
  signalStrength : Option UInt8 := none
  registrationStatus : Option UInt8 := none
  airplaneMode : Option Bool := none
  carrierName : Option String := none
  cellularSupported : Option Bool := none
  telephonyEnabled : Option Bool := none
  faceTimeAudioEnabled : Option Bool := none
  faceTimeVideoEnabled : Option Bool := none
  muteStatus : Option Bool := none
  currentCallCount : Option UInt8 := none
  newVoicemailCount : Option UInt8 := none
  initiateCallAvailable : Option Bool := none
  endAndAcceptAvailable : Option Bool := none
  holdAndAcceptAvailable : Option Bool := none
  swapAvailable : Option Bool := none
  mergeAvailable : Option Bool := none
  holdAvailable : Option Bool := none
deriving DecidableEq, Repr

def decodeStatus (byte : UInt8) : PhoneCallStatus :=
  match byte.toNat with
  | 1 => .sending
  | 2 => .ringing
  | 3 => .connecting
  | 4 => .active
  | 5 => .held
  | 6 => .disconnecting
  | _ => .disconnected

def decodeDirection (byte : UInt8) : PhoneCallDirection :=
  match byte.toNat with
  | 1 => .incoming
  | 2 => .outgoing
  | _ => .incoming

def decodeService (byte : UInt8) : PhoneCallService :=
  match byte.toNat with
  | 1 => .telephony
  | 2 => .faceTimeAudio
  | 3 => .faceTimeVideo
  | _ => .unknown

def decodeRegistration (byte : UInt8) : RegistrationStatus :=
  match byte.toNat with
  | 1 => .notRegistered
  | 2 => .searching
  | 3 => .denied
  | 4 => .registeredHome
  | 5 => .registeredRoaming
  | 6 => .emergencyCallsOnly
  | _ => .unknown

def iap2EndReason (disconnectReason : Option UInt8)
    (priorStatus : PhoneCallStatus) (direction : PhoneCallDirection) :
    CallEndReason :=
  match disconnectReason.map UInt8.toNat with
  | some 1 => .declined
  | some 2 => .failed "call failed"
  | _ =>
      if priorStatus = .ringing ∧ direction = .incoming then .missed
      else .remote

def survivorPriority : PhoneCallStatus → Nat
  | .ringing => 3
  | .active => 2
  | .held => 1
  | _ => 0

/-- A call that is being set up. -/
def PhoneCallStatus.isInitiation (status : PhoneCallStatus) : Bool :=
  status = .sending || status = .ringing

/-- Whether an update that names no call can be about this one. -/
def untaggedIsStateAdvance (update : Iap2CallStateUpdate)
    (existing : PhoneCall) : Bool :=
  let other := update.remoteId.any fun remoteId =>
    remoteId ≠ "" && existing.remoteId ≠ "" && remoteId ≠ existing.remoteId
  let again := update.status.any fun status =>
    (decodeStatus status).isInitiation && !existing.status.isInitiation
  !other && !again

/-- The entry made for a call that an update is the first to name. -/
def PhoneCall.fresh (callId : String) : PhoneCall where
  callId := callId
  remoteId := ""
  displayName := ""
  status := .disconnected
  direction := .incoming
  startedAtUnixS := none
  label := none
  addressBookId := none
  service := none
  isConferenced := none
  conferenceGroup := none

/-- A signed timestamp as the clients take it, if it is one. -/
def toU32 (seconds : Int) : Option UInt32 :=
  if 0 ≤ seconds ∧ seconds < 2 ^ 32 then some (UInt32.ofNat seconds.toNat)
  else none

/-- An update's values written into a call's entry. -/
def PhoneCall.merge (entry : PhoneCall) (update : Iap2CallStateUpdate) :
    PhoneCall :=
  { entry with
    remoteId := update.remoteId.getD entry.remoteId
    displayName := update.displayName.getD entry.displayName
    status := (update.status.map decodeStatus).getD entry.status
    direction := (update.direction.map decodeDirection).getD entry.direction
    label := update.label.or entry.label
    addressBookId := update.addressBookId.or entry.addressBookId
    service := (update.service.map decodeService).or entry.service
    isConferenced := update.isConferenced.or entry.isConferenced
    conferenceGroup := update.conferenceGroup.or entry.conferenceGroup
    startedAtUnixS :=
      (update.startTimestampUnixS.map toU32).getD entry.startedAtUnixS }

@[simp] theorem PhoneCall.merge_callId (entry : PhoneCall)
    (update : Iap2CallStateUpdate) :
    (entry.merge update).callId = entry.callId := rfl

/-- The values an update of the communications carries, over the ones held. -/
def CommunicationsState.merge (comm : CommunicationsState)
    (update : Iap2CommunicationsUpdate) : CommunicationsState where
  signalStrength := update.signalStrength.or comm.signalStrength
  registrationStatus :=
    (update.registrationStatus.map decodeRegistration).or
      comm.registrationStatus
  airplaneMode := update.airplaneMode.or comm.airplaneMode
  carrierName := update.carrierName.or comm.carrierName
  cellularSupported := update.cellularSupported.or comm.cellularSupported
  telephonyEnabled := update.telephonyEnabled.or comm.telephonyEnabled
  faceTimeAudioEnabled :=
    update.faceTimeAudioEnabled.or comm.faceTimeAudioEnabled
  faceTimeVideoEnabled :=
    update.faceTimeVideoEnabled.or comm.faceTimeVideoEnabled
  muteStatus := update.muteStatus.or comm.muteStatus
  currentCallCount := update.currentCallCount.or comm.currentCallCount
  newVoicemailCount := update.newVoicemailCount.or comm.newVoicemailCount
  initiateCallAvailable :=
    update.initiateCallAvailable.or comm.initiateCallAvailable
  endAndAcceptAvailable :=
    update.endAndAcceptAvailable.or comm.endAndAcceptAvailable
  holdAndAcceptAvailable :=
    update.holdAndAcceptAvailable.or comm.holdAndAcceptAvailable
  swapAvailable := update.swapAvailable.or comm.swapAvailable
  mergeAvailable := update.mergeAvailable.or comm.mergeAvailable
  holdAvailable := update.holdAvailable.or comm.holdAvailable

/-- What the manager keeps behind its lock. -/
structure Inner where
  calls : Table String PhoneCall := []
  announced : List String := []
  communications : CommunicationsState := {}
  companion : Option Address := none
  companionCalls : List String := []

/-- A message that an operation has still to broadcast.  The communications
are read when their turn comes. -/
inductive Outgoing
  | callStarted (call : PhoneCall)
  | callUpdated (call : PhoneCall)
  | callEnded (callId : String) (reason : CallEndReason)
  | communications
deriving DecidableEq

namespace Inner

/-- What a client that asks is told. -/
def snapshot (inner : Inner) : List PhoneCall := inner.calls.values

def dropCall (inner : Inner) (callId : String) : Inner :=
  { inner with
    calls := inner.calls.remove callId
    announced := inner.announced.filter (· ≠ callId) }

def dropCalls (inner : Inner) (callIds : List String) : Inner :=
  callIds.foldl dropCall inner

/-- The companion's call, as it is. -/
def insertCompanionCall (inner : Inner) (call : PhoneCall) : Inner :=
  { inner with
    companionCalls := inner.companionCalls.insert call.callId
    announced := inner.announced.insert call.callId
    calls := inner.calls.put call.callId call }

/-- Another companion than the last takes its calls away. -/
def noteCompanion (inner : Inner) (addr : Address) : Inner × List String :=
  if inner.companion = some addr then (inner, [])
  else
    let orphaned := inner.companionCalls
    (dropCalls
      { inner with companion := some addr, companionCalls := [] } orphaned,
      orphaned)

end Inner

def endCalls (callIds : List String) : List Outgoing :=
  callIds.map fun callId => .callEnded callId .remote

/-- The call an update is about: the one it names or, if it names none, the
only one there is. -/
def Inner.target (inner : Inner) (update : Iap2CallStateUpdate) :
    Option String :=
  match update.callUuid with
  | some callId => some callId
  | none =>
      match inner.calls with
      | [(_, existing)] =>
          if untaggedIsStateAdvance update existing then some existing.callId
          else none
      | _ => none

/-- Of the announced calls, the one to show when another has ended. -/
def Inner.survivor (inner : Inner) : Option PhoneCall :=
  Ranking.maxBy
    (fun call other => compare (survivorPriority call.status)
      (survivorPriority other.status))
    (inner.calls.values.filter fun call => call.callId ∈ inner.announced)

def planIap2CallState (inner : Inner) (update : Iap2CallStateUpdate) :
    Inner × List Outgoing :=
  match inner.target update with
  | none => (inner, [])
  | some callId =>
      let entry := (inner.calls.get? callId).getD (PhoneCall.fresh callId)
      let snapshot := entry.merge update
      let merged := { inner with calls := inner.calls.put callId snapshot }
      if update.status.map decodeStatus = some .disconnected then
        let dropped := merged.dropCall callId
        if callId ∈ inner.announced then
          let reason :=
            iap2EndReason update.disconnectReason entry.status
              snapshot.direction
          (dropped, .callEnded callId reason ::
            dropped.survivor.toList.map Outgoing.callUpdated)
        else (dropped, [])
      else if callId ∈ inner.announced then (merged, [.callUpdated snapshot])
      else if snapshot.status = .disconnected then (merged, [])
      else
        ({ merged with announced := inner.announced.insert callId },
          [.callStarted snapshot])

def applyCompanionSnapshot (inner : Inner) (addr : Address)
    (activeCalls : List PhoneCall) : Inner × List Outgoing :=
  let noted := inner.noteCompanion addr
  let dropped := noted.2 ++ noted.1.companionCalls
  let emptied :=
    { noted.1 with companionCalls := [] }.dropCalls dropped
  let held := activeCalls.foldl Inner.insertCompanionCall emptied
  (held, endCalls (dropped.filter fun callId => callId ∉ held.calls.keys))

def applyCompanionCallStarted (inner : Inner) (addr : Address)
    (call : PhoneCall) : Inner × List Outgoing :=
  let noted := inner.noteCompanion addr
  (noted.1.insertCompanionCall call, endCalls noted.2 ++ [.callStarted call])

def applyCompanionCallUpdated (inner : Inner) (addr : Address)
    (call : PhoneCall) : Inner × List Outgoing :=
  let noted := inner.noteCompanion addr
  (noted.1.insertCompanionCall call, endCalls noted.2 ++ [.callUpdated call])

def applyCompanionCallEnded (inner : Inner) (callId : String)
    (reason : CallEndReason) : Inner × List Outgoing :=
  ({ inner.dropCall callId with
      companionCalls := inner.companionCalls.filter (· ≠ callId) },
    [.callEnded callId reason])

def clearCompanion (inner : Inner) (addr : Address) : Inner × List Outgoing :=
  if inner.companion ≠ some addr then (inner, [])
  else
    let ended := inner.companionCalls
    (Inner.dropCalls { inner with companion := none, companionCalls := [] }
      ended, endCalls ended)

def applyCompanionCommunications (inner : Inner) (addr : Address)
    (state : CommunicationsState) : Inner × List Outgoing :=
  let noted := inner.noteCompanion addr
  ({ noted.1 with communications := state },
    endCalls noted.2 ++ [.communications])

def applyIap2Communications (inner : Inner)
    (update : Iap2CommunicationsUpdate) : Inner × List Outgoing :=
  ({ inner with communications := inner.communications.merge update },
    [.communications])

/-- The operations that change what is held, of the phone and of companions. -/
inductive Op
  | iap2CallState (update : Iap2CallStateUpdate)
  | iap2Communications (update : Iap2CommunicationsUpdate)
  | companionSnapshot (addr : Address) (activeCalls : List PhoneCall)
  | companionCallStarted (addr : Address) (call : PhoneCall)
  | companionCallUpdated (addr : Address) (call : PhoneCall)
  | companionCallEnded (callId : String) (reason : CallEndReason)
  | companionCommunications (addr : Address) (state : CommunicationsState)
  | companionLost (addr : Address)

/-- What an operation does under the lock, and what it broadcasts after. -/
def Inner.apply (inner : Inner) : Op → Inner × List Outgoing
  | .iap2CallState update => planIap2CallState inner update
  | .iap2Communications update => applyIap2Communications inner update
  | .companionSnapshot addr activeCalls =>
      applyCompanionSnapshot inner addr activeCalls
  | .companionCallStarted addr call =>
      applyCompanionCallStarted inner addr call
  | .companionCallUpdated addr call =>
      applyCompanionCallUpdated inner addr call
  | .companionCallEnded callId reason =>
      applyCompanionCallEnded inner callId reason
  | .companionCommunications addr state =>
      applyCompanionCommunications inner addr state
  | .companionLost addr => clearCompanion inner addr

end Telephony

end Bridgething
