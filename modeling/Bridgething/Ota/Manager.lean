/-
The device's update orchestrator: one update streaming or being written at a time,
pieces staged beside it, and the tasks and watchers it leaves running.  Progress
ticks, acks and the range proxy are left out.
-/
import Bridgething.Ota.Staging

namespace Bridgething

namespace Ota

abbrev Address := Nat

/-- The kinds that are staged, for a later activation. -/
def OtaKind.stages : OtaKind → Bool
  | .daemon | .builtinWebapp => true
  | .image | .installedWebapp | .wakewordModel => false

def WEBAPP_PROVENANCE_MAX_LEN : Nat := 2048

structure TransferRef where
  id : Nat
  totalSize : Nat
  sha256 : Option String
deriving Repr, DecidableEq

structure OtaBegin where
  kind : OtaKind
  updateId : String
  transfer : TransferRef
  patch : Option String
  provenance : Option String
  version : Option String
deriving Repr, DecidableEq

inductive OtaErrorCode
  | internal
  | cancelled
  | writeFailed
  | confirmFailed
  | offsetMismatch
  | sizeMismatch
  | hashMismatch
  | unknownUpdate
deriving Repr, DecidableEq

structure OtaError where
  code : OtaErrorCode
  msg : String
  updateId : Option String
  replayed : Bool
deriving Repr, DecidableEq

inductive OtaEvent
  | finished (kind : OtaKind) (updateId : String)
  | error (error : OtaError)
deriving Repr, DecidableEq

structure WriteError where
  code : OtaErrorCode
  msg : String
deriving Repr, DecidableEq

/-- What the store of transfers answers to a begin. -/
inductive BeginOutcome
  | alreadyComplete
  | resume (offset : Nat)
  | failed (error : String)
deriving Repr, DecidableEq

/-- What it answers to a fragment. -/
inductive ChunkOutcome
  | continue
  | completed
  | failed (code : OtaErrorCode) (error : String)
deriving Repr, DecidableEq

inductive OtaState
  | idle
  | streaming (kind : OtaKind) (updateId : String) (peer : Option Address)
      (patch : Option String)
  | writing (kind : OtaKind) (updateId : String) (peer : Option Address)
deriving Repr, DecidableEq

def OtaState.pinnedPeer : OtaState → Option (Option Address)
  | .idle => none
  | .streaming _ _ peer _ => some peer
  | .writing _ _ peer => some peer

/-- The work of a write, until it has its outcome. -/
structure Task where
  write : Nat
  kind : OtaKind
  updateId : String
  peer : Option Address
  cancel : Bool
deriving Repr, DecidableEq

/-- The watcher of an image write's peer, with the snapshot it saw last. -/
structure Watcher where
  write : Nat
  peer : Address
  updateId : String
  seen : Nat
deriving Repr, DecidableEq

structure UnsentFailure where
  peer : Address
  updateId : String
  code : OtaErrorCode
  msg : String
deriving Repr, DecidableEq

/-- What tasks and watchers post to the orchestrator. -/
inductive Command
  | holdFailure (failure : UnsentFailure)
  | writeFinished
  | stageFinished (result : Except WriteError StagedPiece)
      (peer : Option Address)
deriving DecidableEq

/-- How the work of a write ends.  A stage that fails may have cleared a target's
staged and previous paths. -/
inductive Outcome
  | done
  | staged (paths : Option Target) (content : Content)
  | failed (error : WriteError) (cleared : Option Target)
deriving Repr, DecidableEq

structure OtaActor where
  state : OtaState
  staged : List StagedPiece
  stagedPeer : Option Address
  unsentFailure : Option UnsentFailure
  events : List OtaEvent
  posted : List Command
  task : Option Task
  watchers : List Watcher
  writes : Nat
  linked : List Address
  snapshot : Nat
  peerSeen : Nat
  failureSeen : Nat
  disk : Disk

def DISCONNECTED : String := "companion disconnected mid-install"

namespace OtaActor

def spawn (linked : List Address) (disk : Disk) : OtaActor where
  state := .idle
  staged := []
  stagedPeer := none
  unsentFailure := none
  events := []
  posted := []
  task := none
  watchers := []
  writes := 0
  linked := linked
  snapshot := 0
  peerSeen := 0
  failureSeen := 0
  disk := disk

def emit (actor : OtaActor) (event : OtaEvent) : OtaActor :=
  { actor with events := actor.events ++ [event] }

def emitError (actor : OtaActor) (code : OtaErrorCode) (msg : String) :
    OtaActor :=
  actor.emit (.error ⟨code, msg, none, false⟩)

def post (actor : OtaActor) (command : Command) : OtaActor :=
  { actor with posted := actor.posted ++ [command] }

def companionLinked (actor : OtaActor) (peer : Address) : Bool :=
  actor.linked.contains peer

def spawnWrite (actor : OtaActor) (kind : OtaKind) (updateId : String)
    (peer : Option Address) : OtaActor :=
  let actor := { actor with
    state := .writing kind updateId peer
    task := some ⟨actor.writes, kind, updateId, peer, false⟩
    writes := actor.writes + 1 }
  match kind, peer with
  | .image, some addr =>
      { actor with
        watchers := actor.watchers ++
          [⟨actor.writes - 1, addr, updateId, actor.snapshot⟩] }
  | _, _ => actor

def dismissFailure (actor : OtaActor) (peer : Option Address) : OtaActor :=
  match actor.unsentFailure with
  | some held =>
      if some held.peer = peer then { actor with unsentFailure := none }
      else actor
  | none => actor

def pinned (actor : OtaActor) : Option (Option Address) :=
  match actor.state.pinnedPeer with
  | some peer => some peer
  | none => if actor.staged ≠ [] then some actor.stagedPeer else none

/-- A staged batch whose companion is gone gives way to another's push. -/
def orphaned (actor : OtaActor) (pinned : Option Address) : Bool :=
  actor.state.pinnedPeer.isNone && actor.staged ≠ [] &&
    pinned.all fun peer => ! actor.companionLinked peer

def discardStaged (actor : OtaActor) : OtaActor :=
  { actor with
    staged := []
    stagedPeer := none
    disk := actor.staged.foldl Disk.discard actor.disk }

/-- The orchestrator as it takes a begin from a peer, unless it is pinned to
another. -/
def release (actor : OtaActor) (peer : Option Address) : Option OtaActor :=
  match actor.pinned with
  | some pinned =>
      if pinned ≠ peer then
        if actor.orphaned pinned then some actor.discardStaged else none
      else some actor
  | none => some actor

/-- What is wrong with a begin by itself. -/
def objection (req : OtaBegin) (hasTarget : Bool) : Option String :=
  if req.transfer.sha256.isNone then
    some "ota transfer ref must carry sha256"
  else if req.patch.isSome ∧ req.kind ≠ .daemon then
    some "patch delta is only supported for daemon updates"
  else if req.kind = .wakewordModel ∧ ¬ hasTarget then
    some "this build has nowhere to install a wake word model"
  else if req.provenance.isSome ∧ req.kind ≠ .installedWebapp then
    some "provenance is only recorded for installed-webapp updates"
  else if req.provenance.any fun value =>
      value.utf8ByteSize > WEBAPP_PROVENANCE_MAX_LEN then
    some s!"provenance exceeds {WEBAPP_PROVENANCE_MAX_LEN} bytes"
  else none

def stopStreaming (actor : OtaActor) : OtaActor :=
  match actor.state with
  | .streaming _ _ _ _ => { actor with state := .idle }
  | _ => actor

/-- The begin once nothing stands against it: a piece that is staged needs no
transfer, and one that was retained whole is written at once. -/
def accept (actor : OtaActor) (req : OtaBegin) (peer : Option Address)
    (outcome : BeginOutcome) : Except String Nat × OtaActor :=
  if actor.staged.any fun piece => piece.updateId = req.updateId then
    (.ok req.transfer.totalSize, actor)
  else
    match outcome with
    | .alreadyComplete =>
        (.ok req.transfer.totalSize, actor.spawnWrite req.kind req.updateId peer)
    | .resume offset =>
        (.ok offset,
          { actor with
            state := .streaming req.kind req.updateId peer req.patch })
    | .failed error => (.error s!"transfer begin failed: {error}", actor)

/-- The begin of a peer that the orchestrator is not pinned against. -/
def beginReleased (actor : OtaActor) (req : OtaBegin) (peer : Option Address)
    (outcome : BeginOutcome) (hasTarget : Bool) :
    Except String Nat × OtaActor :=
  if req.kind = .image ∧ actor.staged ≠ [] then
    (.error ("bandaid updates staged; " ++
      "activate or abandon them before an image OTA"), actor)
  else
    let actor := actor.stopStreaming
    match objection req hasTarget with
    | some reason => (.error reason, actor)
    | none => actor.accept req peer outcome

def handleBegin (actor : OtaActor) (req : OtaBegin) (peer : Option Address)
    (outcome : BeginOutcome) (hasTarget : Bool) :
    Except String Nat × OtaActor :=
  let actor := actor.dismissFailure peer
  match actor.state with
  | .writing _ updateId _ =>
      (.error s!"ota write of {updateId} in progress; cancel or wait first",
        actor)
  | _ =>
      match actor.release peer with
      | none =>
          (.error "ota in progress, pinned to a different companion", actor)
      | some actor => actor.beginReleased req peer outcome hasTarget

def handleFragment (actor : OtaActor) (outcome : ChunkOutcome) : OtaActor :=
  match actor.state with
  | .streaming kind updateId peer _ =>
      match outcome with
      | .continue => actor
      | .completed => actor.spawnWrite kind updateId peer
      | .failed code error =>
          { actor.emitError code s!"ota fragment: {error}" with state := .idle }
  | _ => actor

def removeStaged (actor : OtaActor) (updateId : String) : OtaActor :=
  match actor.staged.find? fun piece => piece.updateId = updateId with
  | some piece =>
      let staged := actor.staged.eraseP fun piece => piece.updateId = updateId
      { actor with
        staged := staged
        stagedPeer := if staged = [] then none else actor.stagedPeer
        disk := actor.disk.discard piece }
  | none => actor

def handleAbandon (actor : OtaActor) (updateId : String) : OtaActor :=
  let actor := actor.removeStaged updateId
  match actor.state with
  | .streaming _ streaming _ _ =>
      if streaming = updateId then { actor with state := .idle } else actor
  | _ => actor

def handleCancel (actor : OtaActor) : OtaActor :=
  match actor.state with
  | .idle => actor
  | .streaming _ _ _ _ => { actor with state := .idle }
  | .writing kind _ _ =>
      if kind = .image then
        { actor with
          task := actor.task.map fun task => { task with cancel := true } }
      else actor

def handleStageFinished (actor : OtaActor)
    (result : Except WriteError StagedPiece) (peer : Option Address) :
    OtaActor :=
  let actor := { actor with state := .idle }
  match result with
  | .ok piece =>
      { actor with
        staged := (actor.staged.filter fun held =>
          held.updateId ≠ piece.updateId) ++ [piece]
        stagedPeer := peer }
  | .error error => actor.emitError error.code error.msg

def holdFailure (actor : OtaActor) (failure : UnsentFailure) : OtaActor :=
  { actor.emit
      (.error ⟨failure.code, failure.msg, some failure.updateId, false⟩) with
    unsentFailure := some failure }

def handleCommand (actor : OtaActor) : Command → OtaActor
  | .holdFailure failure => actor.holdFailure failure
  | .writeFinished => { actor with state := .idle }
  | .stageFinished result peer => actor.handleStageFinished result peer

def sameUpdates (staged : List StagedPiece) (expected : List String) : Bool :=
  (staged.all fun piece => expected.contains piece.updateId) &&
    expected.all fun updateId =>
      staged.any fun piece => piece.updateId = updateId

/-- Nothing is answered when the batch is in place and the service restarts. -/
def handleActivate (actor : OtaActor) (expected : List String)
    (fails : Nat → Rename → Bool) : Option OtaError × OtaActor :=
  let refuse (actor : OtaActor) (code : OtaErrorCode) (msg : String) :=
    (some ⟨code, msg, none, false⟩, actor.emitError code msg)
  if actor.state ≠ .idle then
    refuse actor .internal "cannot activate while an OTA transfer is in flight"
  else if actor.staged = [] ∨ sameUpdates actor.staged expected = false then
    refuse actor .internal
      (s!"no matching staged batch (staged {actor.staged.length}, " ++
        s!"expected {expected.length})")
  else
    let batch := commitOrder actor.staged
    let actor := { actor with staged := [], stagedPeer := none }
    match actor.disk.activate fails batch with
    | .error disk =>
        refuse { actor with disk := disk } .writeFailed "commit failed"
    | .ok disk =>
        (none,
          { actor with
            disk := disk
            events := actor.events ++
              batch.map fun piece => .finished piece.kind piece.updateId })

/-- A command that was posted is received. -/
def receive (actor : OtaActor) (index : Nat) : OtaActor :=
  match actor.posted[index]? with
  | some command =>
      { actor with posted := actor.posted.eraseIdx index }.handleCommand command
  | none => actor

/-- The pinned peer of a stream is gone. -/
def peerLost (actor : OtaActor) : OtaActor :=
  match actor.state with
  | .streaming _ _ (some peer) _ =>
      if actor.peerSeen < actor.snapshot then
        let actor := { actor with peerSeen := actor.snapshot }
        if actor.companionLinked peer then actor
        else { actor with state := .idle }
      else actor
  | _ => actor

/-- The peer that missed a failure is back. -/
def failurePeerBack (actor : OtaActor) : OtaActor :=
  match actor.unsentFailure with
  | some held =>
      if actor.failureSeen < actor.snapshot then
        let actor := { actor with failureSeen := actor.snapshot }
        if actor.companionLinked held.peer then
          { actor.emit
              (.error ⟨held.code, held.msg, some held.updateId, true⟩) with
            unsentFailure := none }
        else actor
      else actor
  | none => actor

/-- The companions that are linked change. -/
def setLinked (actor : OtaActor) (linked : List Address) : OtaActor :=
  { actor with linked := linked, snapshot := actor.snapshot + 1 }

/-- A watcher looks at the snapshots that came since it last did; once its peer is
not linked it reports that and ends. -/
def wake (actor : OtaActor) (index : Nat) : OtaActor :=
  match actor.watchers[index]? with
  | some watcher =>
      if watcher.seen < actor.snapshot then
        if actor.companionLinked watcher.peer then
          { actor with
            watchers := actor.watchers.set index
              { watcher with seen := actor.snapshot } }
        else
          let actor := actor.post (.holdFailure
            ⟨watcher.peer, watcher.updateId, .internal, DISCONNECTED⟩)
          { actor with
            watchers := actor.watchers.eraseIdx index
            task := actor.task.map fun task =>
              if task.write = watcher.write then { task with cancel := true }
              else task }
      else actor
  | none => actor

/-- What staging leaves on the disk. -/
def stage (disk : Disk) (paths : Option Target) (content : Option Content) :
    Disk :=
  match paths with
  | none => disk
  | some target =>
      (disk.write ⟨target, .previous⟩ none).write ⟨target, .incoming⟩ content

/-- The work of a write has its outcome, and what it posts is on its way. -/
def finish (actor : OtaActor) (outcome : Outcome) : OtaActor :=
  match actor.task with
  | none => actor
  | some task =>
      let actor := { actor with task := none }
      match task.kind.stages, outcome with
      | true, .staged paths content =>
          { actor with disk := stage actor.disk paths (some content) }.post
            (.stageFinished (.ok ⟨task.kind, task.updateId, paths⟩) task.peer)
      | true, .failed error cleared =>
          { actor with disk := stage actor.disk cleared none }.post
            (.stageFinished (.error error) task.peer)
      | false, .done =>
          (actor.emit (.finished task.kind task.updateId)).post .writeFinished
      | false, .failed error _ =>
          (actor.emitError error.code error.msg).post .writeFinished
      | _, _ => { actor with task := some task }

end OtaActor

inductive Event
  | begin (req : OtaBegin) (peer : Option Address) (outcome : BeginOutcome)
      (hasTarget : Bool)
  | abandon (updateId : String)
  | activate (expected : List String) (fails : Nat → Rename → Bool)
  | cancel
  | receive (index : Nat)
  | fragment (outcome : ChunkOutcome)
  | streamEnds
  | peerLost
  | failurePeerBack
  | setLinked (linked : List Address)
  | wake (watcher : Nat)
  | finish (outcome : Outcome)

namespace OtaActor

def step (actor : OtaActor) : Event → OtaActor
  | .begin req peer outcome hasTarget =>
      (actor.handleBegin req peer outcome hasTarget).2
  | .abandon updateId => actor.handleAbandon updateId
  | .activate expected fails => (actor.handleActivate expected fails).2
  | .cancel => actor.handleCancel
  | .receive index => actor.receive index
  | .fragment outcome => actor.handleFragment outcome
  | .streamEnds => actor.stopStreaming
  | .peerLost => actor.peerLost
  | .failurePeerBack => actor.failurePeerBack
  | .setLinked linked => actor.setLinked linked
  | .wake watcher => actor.wake watcher
  | .finish outcome => actor.finish outcome

/-! ### What the handlers come to -/

/-- A begin is refused, or stops what streams, or is accepted. -/
theorem handleBegin_cases (actor : OtaActor) (req : OtaBegin)
    (peer : Option Address) (outcome : BeginOutcome) (hasTarget : Bool) :
    (actor.handleBegin req peer outcome hasTarget).2 =
        actor.dismissFailure peer ∨
      ∃ next, (actor.dismissFailure peer).release peer = some next ∧
        ((actor.handleBegin req peer outcome hasTarget).2 = next ∨
          (actor.handleBegin req peer outcome hasTarget).2 =
            next.stopStreaming ∨
          (actor.handleBegin req peer outcome hasTarget).2 =
            (next.stopStreaming.accept req peer outcome).2) := by
  unfold handleBegin
  simp only
  split
  · exact Or.inl rfl
  · cases hrelease : (actor.dismissFailure peer).release peer with
    | none => exact Or.inl rfl
    | some next =>
        refine Or.inr ⟨next, rfl, ?_⟩
        simp only [beginReleased]
        split
        · exact Or.inl rfl
        · cases objection req hasTarget with
          | some reason => exact Or.inr (Or.inl rfl)
          | none => exact Or.inr (Or.inr rfl)

/-- An accepted begin changes nothing, or starts a write, or starts a stream. -/
theorem accept_cases (actor : OtaActor) (req : OtaBegin)
    (peer : Option Address) (outcome : BeginOutcome) :
    (actor.accept req peer outcome).2 = actor ∨
      (actor.accept req peer outcome).2 =
        actor.spawnWrite req.kind req.updateId peer ∨
      (actor.accept req peer outcome).2 =
        { actor with
          state := .streaming req.kind req.updateId peer req.patch } := by
  unfold accept
  split
  · exact Or.inl rfl
  · cases outcome with
    | alreadyComplete => exact Or.inr (Or.inl rfl)
    | resume offset => exact Or.inr (Or.inr rfl)
    | failed error => exact Or.inl rfl

theorem release_cases {actor next : OtaActor} {peer : Option Address}
    (h : actor.release peer = some next) :
    next = actor ∨ next = actor.discardStaged := by
  unfold release at h
  cases hpinned : actor.pinned with
  | none =>
      simp only [hpinned, Option.some.injEq] at h
      exact Or.inl h.symm
  | some pinned =>
      simp only [hpinned] at h
      split at h
      · split at h
        · exact Or.inr (Option.some.inj h).symm
        · contradiction
      · exact Or.inl (Option.some.inj h).symm

theorem dismissFailure_eq (actor : OtaActor) (peer : Option Address) :
    actor.dismissFailure peer = actor ∨
      actor.dismissFailure peer = { actor with unsentFailure := none } := by
  unfold dismissFailure
  cases actor.unsentFailure with
  | none => exact Or.inl rfl
  | some held =>
      simp only
      split
      · exact Or.inr rfl
      · exact Or.inl rfl

theorem stopStreaming_eq (actor : OtaActor) :
    actor.stopStreaming = actor ∨
      actor.stopStreaming = { actor with state := .idle } := by
  unfold stopStreaming
  cases actor.state with
  | idle => exact Or.inl rfl
  | streaming kind updateId peer patch => exact Or.inr rfl
  | writing kind updateId peer => exact Or.inl rfl

/-- What a write that starts leaves, but for the watcher of an image's peer. -/
theorem spawnWrite_frame (actor : OtaActor) (kind : OtaKind)
    (updateId : String) (peer : Option Address) :
    (actor.spawnWrite kind updateId peer).state = .writing kind updateId peer ∧
      (actor.spawnWrite kind updateId peer).staged = actor.staged ∧
      (actor.spawnWrite kind updateId peer).posted = actor.posted ∧
      (actor.spawnWrite kind updateId peer).events = actor.events ∧
      (actor.spawnWrite kind updateId peer).linked = actor.linked ∧
      (actor.spawnWrite kind updateId peer).task =
        some ⟨actor.writes, kind, updateId, peer, false⟩ := by
  unfold spawnWrite
  simp only
  split <;> exact ⟨rfl, rfl, rfl, rfl, rfl, rfl⟩

end OtaActor

end Ota

end Bridgething
