/-
Which source is heard, and what of it is sent to the device: its player, its
queue and targets, and the authority that goes with it.
-/
import Bridgething.Lib.Table

namespace Bridgething

namespace NowPlaying

universe u

inductive CompanionAuthorityScope
  | nowPlayingMetadata
  | nowPlayingPlayback
  | volume
deriving Repr, DecidableEq

inductive PlaybackState
  | stopped
  | paused
  | playing
deriving Repr, DecidableEq

def nowPlayingScopes : List CompanionAuthorityScope :=
  [.nowPlayingPlayback, .nowPlayingMetadata]

structure Held where
  scopes : Finset CompanionAuthorityScope := ∅
  appBundle : Option String := none

/-- What is sent on the link. -/
inductive LinkEvent (Player Queue Targets : Type u)
  | snapshot (player : Player)
  | queueChanged (queue : Queue)
  | targetsChanged (targets : Targets)
  | claim (scope : CompanionAuthorityScope) (appBundle : Option String)
  | release (scope : CompanionAuthorityScope)

/-- What the device received last of each kind, and the bundle under which each
scope is claimed. -/
structure Device (Player Queue Targets : Type u) where
  snapshot : Option Player := none
  queue : Option Queue := none
  targets : Option Targets := none
  claims : CompanionAuthorityScope → Option String := fun _ => none

structure SourceState (Player Queue Targets : Type u) where
  snapshot : Option Player := none
  appBundle : String := ""
  hasItem : Bool := false
  sourceOwnsVolume : Bool := false
  queue : Option Queue := none
  targets : Option Targets := none
  seq : UInt64 := 0
  playingSince : UInt64 := 0

/-- The arbiter, its link and the device at the other end. -/
structure Arbiter (Player Queue Targets : Type u) where
  hostOwnsVolume : Bool
  current : Option String := none
  held : Held := {}
  sources : Table String (SourceState Player Queue Targets) := []
  seqCounter : UInt64 := 0
  arbitrated : List (Option Player) := []
  up : Bool := false
  device : Device Player Queue Targets := {}

inductive Op (Player Queue Targets : Type u)
  | player (source : String) (snapshot : Player) (appBundle : String)
      (hasItem sourceOwnsVolume : Bool)
  | queue (source : String) (queue : Queue)
  | targets (source : String) (targets : Targets)
  | clear (source : String)
  | reconnect

variable {Player Queue Targets : Type u}

/-- The state that a player reports. -/
class HasPlayback (Player : Type u) where
  state : Player → PlaybackState

/-- An entry of the greatest key: the preferred one if it is among them. -/
def maxByKey (key : SourceState Player Queue Targets → UInt64)
    (sources : Table String (SourceState Player Queue Targets))
    (prefer : String) : Option String :=
  let ties : Table String (SourceState Player Queue Targets) :=
    sources.filter fun entry =>
      sources.all fun other => key other.2 ≤ key entry.2
  if prefer ∈ Table.keys ties then some prefer
  else (Table.keys ties).getLast?

namespace Device

def receive (device : Device Player Queue Targets) :
    LinkEvent Player Queue Targets → Device Player Queue Targets
  | .snapshot player => { device with snapshot := some player }
  | .queueChanged queue => { device with queue := some queue }
  | .targetsChanged targets => { device with targets := some targets }
  | .claim scope appBundle =>
      { device with claims := Function.update device.claims scope appBundle }
  | .release scope =>
      { device with claims := Function.update device.claims scope none }

end Device

namespace Arbiter

def event (arbiter : Arbiter Player Queue Targets)
    (sent : LinkEvent Player Queue Targets) : Arbiter Player Queue Targets :=
  if arbiter.up then { arbiter with device := arbiter.device.receive sent }
  else arbiter

/-- The order in which the sources are gone through is not fixed: of several
that come last, `prefer` tells which one is found. -/
def pickCurrent (arbiter : Arbiter Player Queue Targets) (prefer : String) :
    Option String :=
  let playing := arbiter.sources.filter fun entry => entry.2.playingSince ≠ 0
  match maxByKey SourceState.playingSince playing prefer with
  | some startedLast => some startedLast
  | none =>
      match arbiter.current with
      | some held =>
          if (arbiter.sources.get? held).any SourceState.hasItem then some held
          else maxByKey SourceState.seq arbiter.sources prefer
      | none => maxByKey SourceState.seq arbiter.sources prefer

/-- A scope is held when its claim was sent. -/
def claimScope (arbiter : Arbiter Player Queue Targets) (appBundle : String)
    (scope : CompanionAuthorityScope) : Arbiter Player Queue Targets :=
  if scope ∉ arbiter.held.scopes ∨
      arbiter.held.appBundle ≠ some appBundle then
    let sent := arbiter.event (.claim scope (some appBundle))
    if arbiter.up then
      { sent with held.scopes := insert scope sent.held.scopes }
    else sent
  else arbiter

def dropVolume (arbiter : Arbiter Player Queue Targets) :
    Arbiter Player Queue Targets :=
  if .volume ∈ arbiter.held.scopes then
    { arbiter with
      held.scopes := arbiter.held.scopes.erase .volume
      : Arbiter Player Queue Targets }.event (.release .volume)
  else arbiter

def claim (arbiter : Arbiter Player Queue Targets) (appBundle : String)
    (sourceOwnsVolume : Bool) : Arbiter Player Queue Targets :=
  let volume := sourceOwnsVolume || arbiter.hostOwnsVolume
  let want := nowPlayingScopes ++ if volume then [.volume] else []
  let claimed := want.foldl (fun arbiter scope =>
    arbiter.claimScope appBundle scope) arbiter
  let kept := if volume then claimed else claimed.dropVolume
  { kept with held.appBundle := some appBundle }

def releaseAll (arbiter : Arbiter Player Queue Targets) :
    Arbiter Player Queue Targets :=
  let scopes := [.nowPlayingMetadata, .nowPlayingPlayback, .volume].filter
    fun scope => scope ∈ arbiter.held.scopes
  scopes.foldl (fun arbiter scope => arbiter.event (.release scope))
    { arbiter with held := {} }

def sendSnapshot (arbiter : Arbiter Player Queue Targets)
    (snapshot : Option Player) : Arbiter Player Queue Targets :=
  match snapshot with
  | some player =>
      { arbiter with
        arbitrated := arbiter.arbitrated ++ [some player]
        : Arbiter Player Queue Targets }.event (.snapshot player)
  | none => arbiter

variable [Inhabited Queue] [Inhabited Targets]

/-- A source is heard from now on, where `prev` was before. -/
def emitSource (arbiter : Arbiter Player Queue Targets) (prev : Option String)
    (next : String) (state : SourceState Player Queue Targets) :
    Arbiter Player Queue Targets :=
  let arbiter :=
    if state.hasItem then
      arbiter.claim state.appBundle state.sourceOwnsVolume
    else arbiter.releaseAll
  let arbiter := arbiter.sendSnapshot state.snapshot
  if prev.any fun prev => prev != next then
    (arbiter.event (.queueChanged (state.queue.getD default))).event
      (.targetsChanged (state.targets.getD default))
  else arbiter

/-- Nothing is heard. -/
def emitNothing (arbiter : Arbiter Player Queue Targets) :
    Arbiter Player Queue Targets :=
  let released := arbiter.releaseAll
  { released with arbitrated := released.arbitrated ++ [none] }

def emitArbitrated (arbiter : Arbiter Player Queue Targets) (prefer : String) :
    Arbiter Player Queue Targets :=
  let prev := arbiter.current
  let next := arbiter.pickCurrent prefer
  let arbiter := { arbiter with current := next }
  match next with
  | none => arbiter.emitNothing
  | some next =>
      match arbiter.sources.get? next with
      | none => arbiter.emitNothing
      | some state => arbiter.emitSource prev next state

def reemitSource (arbiter : Arbiter Player Queue Targets)
    (state : SourceState Player Queue Targets) :
    Arbiter Player Queue Targets :=
  let arbiter :=
    if state.hasItem then
      arbiter.claim state.appBundle state.sourceOwnsVolume
    else arbiter
  let arbiter := arbiter.sendSnapshot state.snapshot
  let arbiter := state.queue.elim arbiter fun queue =>
    arbiter.event (.queueChanged queue)
  state.targets.elim arbiter fun targets =>
    arbiter.event (.targetsChanged targets)

def reemitCurrent (arbiter : Arbiter Player Queue Targets) (prefer : String) :
    Arbiter Player Queue Targets :=
  let next := arbiter.current <|> arbiter.pickCurrent prefer
  let arbiter := { arbiter with current := next }
  match next.bind arbiter.sources.get? with
  | some state => arbiter.reemitSource state
  | none => arbiter

/-- What a player's report changes of its source. -/
def submit [HasPlayback Player] (arbiter : Arbiter Player Queue Targets)
    (source : String) (snapshot : Player) (appBundle : String)
    (hasItem sourceOwnsVolume : Bool) : Arbiter Player Queue Targets :=
  let seqCounter := arbiter.seqCounter + 1
  let audible := hasItem && HasPlayback.state snapshot == .playing
  let state := (arbiter.sources.get? source).getD {}
  { arbiter with
    seqCounter := seqCounter
    sources := arbiter.sources.put source { state with
      snapshot := some snapshot
      appBundle := appBundle
      hasItem := hasItem
      sourceOwnsVolume := sourceOwnsVolume
      seq := seqCounter
      playingSince :=
        if audible then
          if state.playingSince = 0 then seqCounter else state.playingSince
        else 0 } }

/-- A source is heard, or none is. -/
def hears (arbiter : Arbiter Player Queue Targets) (source : String) : Bool :=
  arbiter.current.all fun current => current == source

def handle [HasPlayback Player] (arbiter : Arbiter Player Queue Targets)
    (op : Op Player Queue Targets) (prefer : String) :
    Arbiter Player Queue Targets :=
  match op with
  | .player source snapshot appBundle hasItem sourceOwnsVolume =>
      (arbiter.submit source snapshot appBundle hasItem
        sourceOwnsVolume).emitArbitrated prefer
  | .queue source queue =>
      let state := (arbiter.sources.get? source).getD {}
      let arbiter := { arbiter with
        sources := arbiter.sources.put source
          { state with queue := some queue } }
      if arbiter.hears source then arbiter.event (.queueChanged queue)
      else arbiter
  | .targets source targets =>
      let state := (arbiter.sources.get? source).getD {}
      let arbiter := { arbiter with
        sources := arbiter.sources.put source
          { state with targets := some targets } }
      if arbiter.hears source then arbiter.event (.targetsChanged targets)
      else arbiter
  | .clear source =>
      let cleared := { arbiter with sources := arbiter.sources.remove source }
      if arbiter.current = some source then
        { cleared with
          current := none
          : Arbiter Player Queue Targets }.emitArbitrated prefer
      else cleared
  | .reconnect => { arbiter with
      held := {} : Arbiter Player Queue Targets }.reemitCurrent prefer

end Arbiter

/-- An operation, or the end of the link.  A link that is back is told of by a
reconnection; one may also be asked for while it is up. -/
inductive Event (Player Queue Targets : Type u)
  | op (op : Op Player Queue Targets) (prefer : String)
  | drop

/-- The device forgets a companion whose link is gone. -/
def Arbiter.step [HasPlayback Player] [Inhabited Queue] [Inhabited Targets]
    (arbiter : Arbiter Player Queue Targets) :
    Event Player Queue Targets → Arbiter Player Queue Targets
  | .op .reconnect prefer => { arbiter with
      up := true : Arbiter Player Queue Targets }.handle .reconnect prefer
  | .op op prefer => arbiter.handle op prefer
  | .drop => { arbiter with up := false, device := {} }

end NowPlaying

end Bridgething
