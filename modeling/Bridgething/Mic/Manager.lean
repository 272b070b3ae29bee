/-
The microphone's turns: opened by a button or the wake word, ended by many
causes, and answered by the companion that claims them.
-/
import Bridgething.Peers.Tracker

namespace Bridgething

namespace Mic

/-- The number under which an id was issued: no id is issued twice. -/
abbrev Uuid := Nat

/-- The bits of a score. -/
abbrev Score := UInt32

inductive VoiceCaptureReason
  | pushToTalk
  | assistant
  | wakeWord
deriving Repr, DecidableEq

inductive VoiceCloseReason
  | endOfSpeech
  | cancelled
  | muted
  | error
deriving Repr, DecidableEq

inductive VoicePhase
  | idle
  | listening
  | thinking
  | done
  | failed
deriving Repr, DecidableEq

inductive VoiceDispatchErrorCode
  | webappNotFound
  | notDispatchable
  | unsupported
  | playbackFailed
  | badSlots
  | staleTurn
  | noCompanion
  | internal
deriving Repr, DecidableEq

structure VoiceActivityError where
  code : VoiceDispatchErrorCode
  msg : String
deriving Repr, DecidableEq

structure VoiceActivity where
  phase : VoicePhase
  streamId : Option Uuid := none
  reason : Option VoiceCaptureReason := none
  score : Option Score := none
  error : Option VoiceActivityError := none
deriving Repr, DecidableEq

structure VoiceState where
  muted : Bool := false
  capturing : Bool := false
  phase : VoicePhase := .idle
deriving Repr, DecidableEq

inductive MicError
  | unavailable
  | noListener
  | notResolving (streamId : Uuid)
deriving Repr, DecidableEq

def MicError.display : MicError → String
  | .unavailable => "mic capture is not available in this build"
  | .noListener => "no connected companion can transcribe a voice turn"
  | .notResolving streamId =>
      "turn " ++ toString streamId ++ " is not awaiting an answer"

structure Turn where
  streamId : Uuid
  reason : VoiceCaptureReason
  score : Option Score
  listener : Peers.Address
deriving Repr, DecidableEq

namespace Turn

def activity (turn : Turn) (phase : VoicePhase) : VoiceActivity where
  phase := phase
  streamId := some turn.streamId
  reason := some turn.reason
  score := turn.score

def listenerGone (turn : Turn) (peers : Table Peers.Address Peers.Peer) :
    Bool :=
  !(peers.get? turn.listener).any fun peer => peer.companion.isLinked

def listenerLost (turn : Turn) : VoiceActivity :=
  { turn.activity .failed with
    error := some ⟨.noCompanion, "companion " ++ turn.listener.display ++
      " disconnected before it answered the turn"⟩ }

def unanswered (turn : Turn) : VoiceActivity :=
  { turn.activity .failed with
    error := some ⟨.internal,
      "companion did not answer before the resolve timeout"⟩ }

end Turn

/-- What goes to the clients, and to the companion that listens. -/
inductive Outgoing
  | activity (activity : VoiceActivity)
  | stateChanged (state : VoiceState)
  | streamOpen (listener : Peers.Address) (streamId : Uuid)
      (reason : VoiceCaptureReason)
  | streamClose (listener : Peers.Address) (streamId : Uuid)
      (reason : VoiceCloseReason)
deriving Repr, DecidableEq

structure MicManager where
  muted : Bool
  phase : VoicePhase
  turn : Option Turn
  capture : Bool
  stream : Option Turn
  resolving : Option Turn
  issued : Nat
  /-- The answers that were claimed and have not been finished. -/
  claims : List VoiceActivity
  /-- The turns whose claim succeeded, the last first. -/
  granted : List Uuid
  sent : List Outgoing
deriving Repr, DecidableEq

inductive WakeGate
  | muted
  | turnOpen (streamId : Uuid)
  | free
deriving Repr, DecidableEq

def settledPhase : VoiceCloseReason → VoicePhase
  | .endOfSpeech => .thinking
  | .error => .failed
  | .cancelled => .idle
  | .muted => .idle

namespace MicManager

def new : MicManager where
  muted := false
  phase := .idle
  turn := none
  capture := false
  stream := none
  resolving := none
  issued := 0
  claims := []
  granted := []
  sent := []

def snapshot (manager : MicManager) : VoiceState where
  muted := manager.muted
  capturing := manager.turn.isSome
  phase := manager.phase

def wakeGate (manager : MicManager) : WakeGate :=
  if manager.muted then .muted
  else
    match manager.turn with
    | some turn => .turnOpen turn.streamId
    | none => .free

def settle (manager : MicManager) : MicManager :=
  { manager with
    phase :=
      if manager.turn.isSome then .listening
      else if manager.resolving.isSome then .thinking
      else .idle }

def send (manager : MicManager) (outgoing : Outgoing) : MicManager :=
  { manager with sent := manager.sent ++ [outgoing] }

def broadcastActivity (manager : MicManager) (activity : VoiceActivity) :
    MicManager :=
  manager.send (.activity activity)

def broadcastState (manager : MicManager) : MicManager :=
  manager.send (.stateChanged manager.snapshot)

/-- A turn for a listener, once the microphone is open. -/
def openTurn (manager : MicManager) (listener : Peers.Address)
    (reason : VoiceCaptureReason) (score : Option Score) : MicManager :=
  let turn : Turn := ⟨manager.issued, reason, score, listener⟩
  let manager := { manager with
    issued := manager.issued + 1
    stream := some turn
    turn := some turn
    phase := .listening }
  ((manager.send (.streamOpen listener turn.streamId reason)).broadcastActivity
    (turn.activity .listening)).broadcastState

/-- `opens` tells whether the device can be opened, and `listener` which
companion listens, if one does. -/
def startStream (manager : MicManager) (opens : Bool)
    (listener : Option Peers.Address) (reason : VoiceCaptureReason)
    (score : Option Score) : MicManager × Except MicError Uuid :=
  if manager.muted then (manager, .error .unavailable)
  else
    match manager.turn with
    | some turn => (manager, .ok turn.streamId)
    | none =>
        let manager := { manager with capture := manager.capture || opens }
        if manager.capture then
          match listener with
          | none =>
              (manager.broadcastActivity
                { phase := .failed
                  reason := some reason
                  score := score
                  error := some ⟨.noCompanion, MicError.noListener.display⟩ },
                .error .noListener)
          | some listener =>
              (manager.openTurn listener reason score, .ok manager.issued)
        else (manager, .error .unavailable)

/-- The uplink that is open is closed. -/
def closeStream (manager : MicManager) (reason : VoiceCloseReason) :
    MicManager :=
  match manager.stream with
  | none => manager
  | some turn =>
      { manager with stream := none : MicManager }.send
        (.streamClose turn.listener turn.streamId reason)

def stopStream (manager : MicManager) (reason : VoiceCloseReason)
    (ended : Option VoiceActivity) : MicManager :=
  match manager.turn with
  | none => manager
  | some turn =>
      let next : VoicePhase := settledPhase reason
      let superseded :=
        if next = VoicePhase.thinking then manager.resolving else none
      let manager := { manager with
        turn := none
        resolving :=
          if next = VoicePhase.thinking then some turn
          else manager.resolving }.settle
      let manager := manager.closeStream reason
      let manager := superseded.elim manager fun prior =>
        manager.broadcastActivity (prior.activity .idle)
      (manager.broadcastActivity
        (ended.getD (turn.activity next))).broadcastState

def claim (manager : MicManager) (streamId : Uuid) :
    MicManager × Except MicError VoiceActivity :=
  match manager.resolving with
  | some held =>
      if held.streamId = streamId then
        ({ manager with
          resolving := none
          claims := manager.claims ++ [held.activity .done]
          granted := streamId :: manager.granted },
          .ok (held.activity .done))
      else (manager, .error (.notResolving streamId))
  | none => (manager, .error (.notResolving streamId))

/-- The companion's answer to a turn it claimed: done, or an error. -/
def outcome (claimed : VoiceActivity) :
    Option VoiceActivityError → VoiceActivity
  | none => claimed
  | some error => { claimed with phase := .failed, error := some error }

def finish (manager : MicManager) (activity : VoiceActivity) : MicManager :=
  (manager.settle.broadcastActivity activity).broadcastState

def mute (manager : MicManager) (preserve : Bool) : MicManager :=
  let wasOpen := manager.turn.isSome
  let manager := { manager with muted := true, capture := false }
  if wasOpen && !preserve then manager.stopStream .muted none
  else manager.broadcastState

def unmute (manager : MicManager) (opens : Bool) : MicManager :=
  { manager with
    muted := false
    capture := manager.capture || opens : MicManager }.broadcastState

def onWakeWord (manager : MicManager) (score : Score) (opens : Bool)
    (listener : Option Peers.Address) : MicManager :=
  match manager.wakeGate with
  | .muted => manager
  | .turnOpen _ => manager
  | .free => (manager.startStream opens listener .wakeWord (some score)).1

/-- A captured frame: the endpointer may end the turn with it, or the uplink's
buffer not take it. -/
def onFrame (manager : MicManager) (ended : Option VoiceCloseReason)
    (forwarded : Bool) : MicManager :=
  match manager.stream with
  | none => manager
  | some _ =>
      if forwarded then
        match ended with
        | some reason => manager.stopStream reason none
        | none => manager
      else manager.stopStream .error none

def onPastCap (manager : MicManager) : MicManager :=
  match manager.stream with
  | none => manager
  | some _ => manager.stopStream .endOfSpeech none

def onPastDeadline (manager : MicManager) : MicManager :=
  match manager.resolving with
  | none => manager
  | some expired =>
      ({ manager with resolving := none : MicManager }.settle.broadcastActivity
        expired.unanswered).broadcastState

/-- An open turn whose listener is gone. -/
def dropOpen (manager : MicManager) (peers : Table Peers.Address Peers.Peer) :
    MicManager :=
  match manager.turn.filter fun turn => turn.listenerGone peers with
  | some turn => manager.stopStream .error (some turn.listenerLost)
  | none => manager

/-- A turn whose listener is gone before it answered. -/
def dropResolving (manager : MicManager)
    (peers : Table Peers.Address Peers.Peer) : MicManager :=
  match manager.resolving.filter fun turn => turn.listenerGone peers with
  | some orphaned =>
      ({ manager with resolving := none : MicManager }.settle.broadcastActivity
        orphaned.listenerLost).broadcastState
  | none => manager

def dropLostListener (manager : MicManager)
    (peers : Table Peers.Address Peers.Peer) : MicManager :=
  (manager.dropOpen peers).dropResolving peers

end MicManager

/-- What the loop takes up next. -/
inductive MicEvent
  | start (reason : VoiceCaptureReason) (opens : Bool)
      (listener : Option Peers.Address)
  | claim (streamId : Uuid)
  /-- The holder of a claim finishes it. -/
  | finish (place : Nat) (error : Option VoiceActivityError)
  | reloadWakeWord
  | stop (reason : VoiceCloseReason)
  | mute (preserve : Bool)
  | unmute (opens : Bool)
  | frame (ended : Option VoiceCloseReason) (forwarded : Bool)
  | wakeWord (score : Score) (opens : Bool) (listener : Option Peers.Address)
  | pastCap
  | pastDeadline
  | peersChanged (peers : Table Peers.Address Peers.Peer)

def MicManager.step (manager : MicManager) : MicEvent → MicManager
  | .start reason opens listener =>
      (manager.startStream opens listener reason none).1
  | .claim streamId => (manager.claim streamId).1
  | .finish place error =>
      match manager.claims[place]? with
      | some claimed =>
          { manager with
            claims := manager.claims.eraseIdx place : MicManager }.finish
            (outcome claimed error)
      | none => manager
  | .reloadWakeWord => manager
  | .stop reason => manager.stopStream reason none
  | .mute preserve => manager.mute preserve
  | .unmute opens => manager.unmute opens
  | .frame ended forwarded => manager.onFrame ended forwarded
  | .wakeWord score opens listener => manager.onWakeWord score opens listener
  | .pastCap => manager.onPastCap
  | .pastDeadline => manager.onPastDeadline
  | .peersChanged peers => manager.dropLostListener peers

end Mic

end Bridgething
