/-
The actor that tracks the peers: which links each has, what is presented as
connected, and the grace timers that end the presentation.
-/
import Bridgething.Lib.Table

namespace Bridgething

namespace Peers

/-- A Bluetooth address. -/
abbrev Address := Vector UInt8 6

def Address.display (address : Address) : String :=
  let digit (n : UInt8) : Char := "0123456789ABCDEF".toList[n.toNat]?.getD '0'
  String.intercalate ":" (address.toList.map fun octet =>
    String.ofList [digit (octet / 16), digit (octet % 16)])

inductive LinkKind
  | bluetooth
  | network
deriving Repr, DecidableEq

inductive DeviceType
  | android
  | ios
  | windows
  | macOS
  | linux
  | unknown
deriving Repr, DecidableEq

structure Device where
  name : String
  deviceType : DeviceType
  id : String
  kind : LinkKind
  default : Bool
deriving Repr, DecidableEq

structure GatewayInfo where
  address : String
  name : String
  osName : String
  appName : String
  appVersion : String
  adapterVersion : String
  libVersion : String
  libbridgethingVersion : String
deriving Repr, DecidableEq

inductive PeerIap2Status
  | none
  | linkUp
  | authenticated
  | identified
deriving Repr, DecidableEq

inductive PeerCompanionStatus
  | none
  | pending
  | connected (info : GatewayInfo)
deriving Repr, DecidableEq

def PeerCompanionStatus.isConnected : PeerCompanionStatus → Bool
  | .connected _ => true
  | _ => false

/-- The gateway link is there before the companion announced itself on it. -/
def PeerCompanionStatus.isLinked : PeerCompanionStatus → Bool
  | .none => false
  | _ => true

structure Peer where
  device : Device
  paired : Bool
  iap2 : PeerIap2Status
  companion : PeerCompanionStatus
  displayName : Option String
  language : Option String
  uuid : Option String
deriving Repr, DecidableEq

namespace Peer

def new (device : Device) : Peer where
  device := device
  paired := false
  iap2 := .none
  companion := .none
  displayName := none
  language := none
  uuid := none

def hasUsefulLink (peer : Peer) : Bool :=
  peer.iap2 == .identified || peer.companion.isConnected

end Peer

inductive PeerCommand
  | upsert (mac : Address) (device : Device)
  | ensureExists (mac : Address) (device : Device)
  | setPaired (mac : Address) (paired : Bool)
  | setIap2 (mac : Address) (iap2 : PeerIap2Status)
  | setCompanion (mac : Address) (companion : PeerCompanionStatus)
  | setDisplayName (mac : Address) (name : String)
  | setLanguage (mac : Address) (language : String)
  | setUuid (mac : Address) (uuid : String)
  | remove (mac : Address)
  | removeBluez (mac : Address)
  | notePinShown (mac : Address)
  | confirmPairing (mac : Address)
  | seedTo (addr : String)
  | resyncStockConnection
  | flushPendingDisconnect (epoch : UInt64)
deriving Repr, DecidableEq

/-- What the actor has other parts do. -/
inductive Effect
  | publishSnapshot (peers : Table Address Peer)
  | snapshot (peers : Table String Peer)
  | pairedDevices (devices : Table String Device)
  | pairingResult (success : Bool)
  | connectedDevice (name mac : String)
  | status (connected : Bool)
  | stockConnection (device : Device)
  | stockDisconnection
  | sendState
  | broadcastVolume
  | sendEvent (addr : String) (event : Effect)
  | forgetExtensions (addr : Address)
  | drainLogs (addr : Address)
  | clearCompanion (addr : Address)
  | resetCompanion (addr : Address)
  | clearTargets (addr : Address)
  | clearCalls (addr : Address)
  | dropNotificationOrigins (addr : Address)
  | tearDownNetRoutes (addr : Address)
deriving Repr

structure Diff where
  mac : Address
  snapshot : Table String Peer
  pairedTransitionedUp : Bool
  pairedSetChanged : Bool
  usefulLinkTransitionedUp : Bool
  usefulLinkTransitionedDown : Bool
  usefulDevice : Option Device
  companionLost : Option Address
  gatewayLinkLost : Option Address
  removed : Bool
deriving Repr

def display (peers : Table Address Peer) : Table String Peer :=
  peers.map fun entry => (entry.1.display, entry.2)

/-- Another peer than the one of this device identity has a useful link. -/
def otherUseful (peers : Table Address Peer) (identity : Option String) :
    Bool :=
  (peers.values.filter fun peer => identity != some peer.device.id).any
    Peer.hasUsefulLink

def Diff.compute (mac : Address) (prior current : Option Peer)
    (peers : Table Address Peer) : Diff :=
  let identity := (current <|> prior).map fun peer => peer.device.id
  let wasPaired := prior.any Peer.paired
  let isPaired := current.any Peer.paired
  let wasUsefulSelf := prior.any Peer.hasUsefulLink
  let isUsefulSelf := current.any Peer.hasUsefulLink
  let anyUsefulBefore := otherUseful peers identity || wasUsefulSelf
  let anyUsefulNow := otherUseful peers identity || isUsefulSelf
  let wasCompanionConnected := prior.any fun peer => peer.companion.isConnected
  let isCompanionConnected := current.any fun peer => peer.companion.isConnected
  let wasGatewayLinked := prior.any fun peer => peer.companion.isLinked
  let isGatewayLinked := current.any fun peer => peer.companion.isLinked
  { mac := mac
    snapshot := display peers
    pairedTransitionedUp := !wasPaired && isPaired
    pairedSetChanged := wasPaired != isPaired
    usefulLinkTransitionedUp := !anyUsefulBefore && anyUsefulNow
    usefulLinkTransitionedDown := anyUsefulBefore && !anyUsefulNow
    usefulDevice :=
      if !wasUsefulSelf && isUsefulSelf then current.map Peer.device else none
    companionLost :=
      if wasCompanionConnected && !isCompanionConnected then some mac else none
    gatewayLinkLost :=
      if wasGatewayLinked && !isGatewayLinked then some mac else none
    removed := prior.isSome && current.isNone }

structure PeerActor where
  peers : Table Address Peer
  pinPending : Finset Address
  disconnectGen : UInt64
  pendingBluezRemovals : Finset Address
  presentedConnected : Bool
  presentedDevice : Option Device
  /-- The epochs of the grace timers whose flush has not been handled. -/
  flushes : List UInt64
  effects : List Effect

namespace PeerActor

def new : PeerActor where
  peers := []
  pinPending := ∅
  disconnectGen := 0
  pendingBluezRemovals := ∅
  presentedConnected := false
  presentedDevice := none
  flushes := []
  effects := []

def emit (actor : PeerActor) (effects : List Effect) : PeerActor :=
  { actor with effects := actor.effects ++ effects }

def anyUsefulLink (actor : PeerActor) : Bool :=
  actor.peers.values.any Peer.hasUsefulLink

def pairedDevices (snapshot : Table String Peer) : Table String Device :=
  (snapshot.values.filter Peer.paired).foldl
    (fun devices peer => devices.put peer.device.id peer.device) []

def broadcastUsefulLinkDown (actor : PeerActor) : PeerActor :=
  actor.emit [.status false, .stockDisconnection]

def scheduleDisconnectFlush (actor : PeerActor) : PeerActor :=
  { actor with
    disconnectGen := actor.disconnectGen + 1
    flushes := actor.flushes ++ [actor.disconnectGen + 1] }

/-- What a diff tells of the peers and of their pairing. -/
def broadcastPeers (actor : PeerActor) (diff : Diff) : PeerActor :=
  let actor := actor.emit
    [.publishSnapshot actor.peers, .snapshot diff.snapshot]
  let actor :=
    if diff.pairedSetChanged then
      actor.emit [.pairedDevices (pairedDevices diff.snapshot)]
    else actor
  if diff.pairedTransitionedUp then
    { actor with
      pinPending := actor.pinPending.erase diff.mac : PeerActor }.emit
      [.pairingResult true]
  else actor

/-- What a diff does to what is presented. -/
def broadcastUseful (actor : PeerActor) (diff : Diff) : PeerActor :=
  if diff.usefulLinkTransitionedUp then
    { actor with
      disconnectGen := actor.disconnectGen + 1
      presentedConnected := true
      presentedDevice := diff.usefulDevice : PeerActor }.emit
      ((diff.usefulDevice.elim [] fun device =>
        [.connectedDevice device.name device.id, .stockConnection device,
          .sendState]) ++ [.status true])
  else if actor.presentedConnected && !actor.anyUsefulLink then
    if diff.removed || diff.companionLost.isSome then
      { actor with
        disconnectGen := actor.disconnectGen + 1
        presentedConnected := false
        presentedDevice := none : PeerActor }.broadcastUsefulLinkDown
    else if diff.usefulLinkTransitionedDown then actor.scheduleDisconnectFlush
    else actor
  else actor

/-- What a diff has others give up. -/
def broadcastLost (actor : PeerActor) (diff : Diff) : PeerActor :=
  (actor.emit (diff.gatewayLinkLost.elim [] fun addr =>
    [.forgetExtensions addr, .drainLogs addr])).emit
    (diff.companionLost.elim [] fun addr =>
      [.clearCompanion addr, .resetCompanion addr, .clearTargets addr,
        .clearCalls addr, .dropNotificationOrigins addr,
        .tearDownNetRoutes addr])

def broadcastDiff (actor : PeerActor) (diff : Diff) : PeerActor :=
  ((actor.broadcastPeers diff).broadcastUseful diff).broadcastLost diff

def upsert (actor : PeerActor) (mac : Address) (device : Device) : PeerActor :=
  let prior := actor.peers.get? mac
  let entry := { prior.getD (.new device) with device := device }
  let peers := actor.peers.put mac entry
  { actor with
    pendingBluezRemovals := actor.pendingBluezRemovals.erase mac
    peers := peers : PeerActor }.broadcastDiff
    (.compute mac prior (some entry) peers)

def ensureExists (actor : PeerActor) (mac : Address) (device : Device) :
    PeerActor :=
  let actor := { actor with
    pendingBluezRemovals := actor.pendingBluezRemovals.erase mac }
  if (actor.peers.get? mac).isSome then actor
  else
    let peers := actor.peers.put mac (.new device)
    { actor with peers := peers : PeerActor }.broadcastDiff
      (.compute mac none (some (.new device)) peers)

/-- A peer that is there is changed in place. -/
def amend (actor : PeerActor) (mac : Address) (change : Peer → Peer) :
    PeerActor :=
  match actor.peers.get? mac with
  | none => actor
  | some prior =>
      let peers := actor.peers.put mac (change prior)
      { actor with peers := peers : PeerActor }.broadcastDiff
        (.compute mac (some prior) (some (change prior)) peers)

def remove (actor : PeerActor) (mac : Address) : PeerActor :=
  let prior := actor.peers.get? mac
  let peers := actor.peers.remove mac
  let actor := { actor with
    pinPending := actor.pinPending.erase mac
    pendingBluezRemovals := actor.pendingBluezRemovals.erase mac
    peers := peers }
  if prior.isNone then actor
  else actor.broadcastDiff (.compute mac prior none peers)

def setPaired (actor : PeerActor) (mac : Address) (paired : Bool) : PeerActor :=
  actor.amend mac fun peer => { peer with paired := paired }

/-- A removal that waited for the link to go is done when it went. -/
def maybeCompleteBluezRemoval (actor : PeerActor) (mac : Address) : PeerActor :=
  if mac ∈ actor.pendingBluezRemovals ∧
      (actor.peers.get? mac).any (fun peer => !peer.hasUsefulLink) then
    actor.remove mac
  else actor

/-- A peer that is not there has nothing amended and, not being there, nothing
to complete. -/
def setIap2 (actor : PeerActor) (mac : Address) (iap2 : PeerIap2Status) :
    PeerActor :=
  (actor.amend mac fun peer =>
    { peer with iap2 := iap2 }).maybeCompleteBluezRemoval mac

def setCompanion (actor : PeerActor) (mac : Address)
    (companion : PeerCompanionStatus) : PeerActor :=
  (actor.amend mac fun peer =>
    { peer with companion := companion }).maybeCompleteBluezRemoval mac

def setDisplayName (actor : PeerActor) (mac : Address) (displayName : String) :
    PeerActor :=
  actor.amend mac fun peer => { peer with displayName := some displayName }

def setLanguage (actor : PeerActor) (mac : Address) (language : String) :
    PeerActor :=
  actor.amend mac fun peer => { peer with language := some language }

def setUuid (actor : PeerActor) (mac : Address) (uuid : String) : PeerActor :=
  actor.amend mac fun peer => { peer with uuid := some uuid }

def removeBluez (actor : PeerActor) (mac : Address) : PeerActor :=
  if (actor.peers.get? mac).any Peer.hasUsefulLink then
    { actor with
      pinPending := actor.pinPending.erase mac
      pendingBluezRemovals := insert mac actor.pendingBluezRemovals }
  else actor.remove mac

def notePinShown (actor : PeerActor) (mac : Address) : PeerActor :=
  { actor with pinPending := insert mac actor.pinPending }

def confirmPairing (actor : PeerActor) (mac : Address) : PeerActor :=
  if mac ∈ actor.pinPending then
    { actor with
      pinPending := actor.pinPending.erase mac : PeerActor }.emit
      [.pairingResult true]
  else actor

def seedTo (actor : PeerActor) (addr : String) : PeerActor :=
  let events : List Effect :=
    .snapshot (display actor.peers) :: (actor.presentedDevice.elim []
      fun device => [.connectedDevice device.name device.id]) ++
      [.status actor.presentedConnected]
  actor.emit (events.map (.sendEvent addr))

def resyncStockConnection (actor : PeerActor) : PeerActor :=
  match if actor.presentedConnected then actor.presentedDevice else none with
  | none => actor.emit [.stockDisconnection]
  | some device => actor.emit
      [.stockConnection device, .connectedDevice device.name device.id,
        .status true, .sendState, .broadcastVolume]

def flushPendingDisconnect (actor : PeerActor) (epoch : UInt64) : PeerActor :=
  if epoch ≠ actor.disconnectGen then actor
  else if actor.anyUsefulLink then actor
  else
    { actor with
      presentedConnected := false
      presentedDevice := none : PeerActor }.broadcastUsefulLinkDown

def handle (actor : PeerActor) : PeerCommand → PeerActor
  | .upsert mac device => actor.upsert mac device
  | .ensureExists mac device => actor.ensureExists mac device
  | .setPaired mac paired => actor.setPaired mac paired
  | .setIap2 mac iap2 => actor.setIap2 mac iap2
  | .setCompanion mac companion => actor.setCompanion mac companion
  | .setDisplayName mac name => actor.setDisplayName mac name
  | .setLanguage mac language => actor.setLanguage mac language
  | .setUuid mac uuid => actor.setUuid mac uuid
  | .remove mac => actor.remove mac
  | .removeBluez mac => actor.removeBluez mac
  | .notePinShown mac => actor.notePinShown mac
  | .confirmPairing mac => actor.confirmPairing mac
  | .seedTo addr => actor.seedTo addr
  | .resyncStockConnection => actor.resyncStockConnection
  | .flushPendingDisconnect epoch => actor.flushPendingDisconnect epoch

end PeerActor

/-- A command is handled, or the flush of a grace timer that ran out. -/
inductive PeerEvent
  | command (cmd : PeerCommand)
  | timer (place : Nat)
deriving Repr, DecidableEq

def PeerActor.step (actor : PeerActor) : PeerEvent → PeerActor
  | .command cmd => actor.handle cmd
  | .timer place =>
      match actor.flushes[place]? with
      | none => actor
      | some epoch =>
          { actor with
            flushes := actor.flushes.eraseIdx place : PeerActor }.handle
            (.flushPendingDisconnect epoch)

end Peers

end Bridgething
