/-
The actor of chunked transfers: partial files on disk under a budget, completed
by the digest of what they hold.
-/
import Bridgething.Lib.Table

namespace Bridgething

namespace Chunked

def U64_MAX : Nat := 2 ^ 64 - 1

def saturatingAdd (left right : Nat) : Nat := min (left + right) U64_MAX

/-- In seconds. -/
def STALE_TIMEOUT : Int := 7 * 24 * 60 * 60

abbrev Bytes := List UInt8

abbrev Path := String

/-- The caller that waits for an answer. -/
abbrev Ack := Nat

inductive TransferError
  | io
  | budgetExceeded (id : String) (budget : Nat)
  | tooLarge (id : String) (size : Nat)
  | conflictingBegin (id : String)
  | unknownTransfer (id : String)
  | offsetMismatch (id : String) (expected got : Nat)
  | sizeOverflow (id : String) (expectedSize received chunkLen : Nat)
  | hashMismatch (id : String) (expected actual : String)
deriving Repr, DecidableEq

inductive BeginOutcome
  | resume (offset : Nat)
  | alreadyComplete (path : Path)
deriving Repr, DecidableEq

inductive ChunkOutcome
  | continue (received : Nat)
  | completed (path : Path)
deriving Repr, DecidableEq

structure Meta where
  id : String
  expectedSize : Nat
  expectedSha256 : Option String
  partialPath : Path
  complete : Bool
deriving Repr, DecidableEq

/-- A file's contents are reached by its path, or through a handle that was
opened before. -/
abbrev Inode := Nat

structure Transfer where
  id : String
  expectedSize : Nat
  expectedSha256 : Option String
  received : Nat
  lastTouchedUnix : Int
  partialPath : Path
  metaPath : Path
  file : Option Inode
  complete : Bool
deriving Repr, DecidableEq

def metaFrom (transfer : Transfer) : Meta where
  id := transfer.id
  expectedSize := transfer.expectedSize
  expectedSha256 := transfer.expectedSha256
  partialPath := transfer.partialPath
  complete := transfer.complete

/-- The calls on the filesystem that can fail. -/
inductive FsCall
  | remove (path : Path)
  | create (path : Path)
  | openAppend (path : Path)
  | flush (inode : Inode)
  | openMeta (path : Path)
  | writeMeta (path : Path)
  | hash (path : Path)
  | sync (path : Path)
deriving Repr, DecidableEq

/-- What a command finds around it: the time, the calls that fail, how much of a
chunk reaches the file when its write fails, and the order in which the map of
transfers is walked. -/
structure Env where
  now : Int
  fails : FsCall → Bool
  torn : Option Nat
  order : String → Nat

/-- An unreadable sidecar is a meta that is absent. -/
structure Disk where
  files : Table Path Inode
  contents : Table Inode Bytes
  metas : Table Path (Option Meta)
  nextInode : Inode
deriving Repr, DecidableEq

namespace Disk

def content (disk : Disk) (path : Path) : Option Bytes :=
  (disk.files.get? path).bind disk.contents.get?

def removeFile (env : Env) (disk : Disk) (path : Path) : Disk :=
  if env.fails (.remove path) then disk
  else { disk with
    files := disk.files.remove path
    metas := disk.metas.remove path }

def createNew (env : Env) (disk : Disk) (path : Path) : Option (Disk × Inode) :=
  if env.fails (.create path) ∨ (disk.files.get? path).isSome then none
  else some
    ({ disk with
        files := disk.files.put path disk.nextInode
        contents := disk.contents.put disk.nextInode []
        nextInode := disk.nextInode + 1 }, disk.nextInode)

def openAppend (env : Env) (disk : Disk) (path : Path) : Option Inode :=
  if env.fails (.openAppend path) then none else disk.files.get? path

/-- All of the bytes, or those that reach the file before its write fails. -/
def reaching (env : Env) (bytes : Bytes) : Bytes :=
  match env.torn with
  | none => bytes
  | some written => bytes.take written

def writeAll (env : Env) (disk : Disk) (inode : Inode) (bytes : Bytes) :
    Disk × Bool :=
  let held := (disk.contents.get? inode).getD []
  ({ disk with
      contents := disk.contents.put inode (held ++ reaching env bytes) },
    env.torn.isNone)

def writeMeta (env : Env) (disk : Disk) (path : Path) (record : Meta) :
    Disk × Bool :=
  if env.fails (.openMeta path) then (disk, false)
  else if env.fails (.writeMeta path) then
    ({ disk with metas := disk.metas.put path none }, false)
  else ({ disk with metas := disk.metas.put path (some record) }, true)

end Disk

/-- What a task that hashes a file is for. -/
inductive Purpose
  | completion
  | beginVerify
deriving Repr, DecidableEq

/-- A hash task: not yet run, or with its result on the way to the actor.  The
actor never looks at `spawned`, the file that was at the path when the task was
spawned. -/
structure Task where
  id : String
  path : Path
  purpose : Purpose
  spawned : Option Inode
  result : Option (Except TransferError String)

inductive Reply
  | begun (result : Except TransferError BeginOutcome)
  | chunk (result : Except TransferError ChunkOutcome)
  | abandoned

structure ChunkedTransferActor where
  transfersDir : Path
  budget : Nat
  transfers : Table String Transfer
  totalDiskBytes : Nat
  pendingCompletions : Table String Ack
  pendingBeginVerifies : Table String Ack
deriving Repr, DecidableEq

/-- The actor with its disk, its tasks, and the replies of the command at hand. -/
structure Node where
  actor : ChunkedTransferActor
  disk : Disk
  tasks : List Task
  replies : List (Ack × Reply)

def Node.answer (node : Node) (ack : Ack) (reply : Reply) : Node :=
  { node with replies := node.replies ++ [(ack, reply)] }

def Node.spawn (node : Node) (id : String) (path : Path) (purpose : Purpose) :
    Node :=
  { node with
    tasks := node.tasks ++
      [⟨id, path, purpose, node.disk.files.get? path, none⟩] }

def Node.setTransfer (node : Node) (id : String) (transfer : Transfer) : Node :=
  { node with
    actor := { node.actor with
      transfers := node.actor.transfers.put id transfer } }

def eqIgnoreAsciiCase (left right : String) : Bool :=
  left.toList.map Char.toLower = right.toList.map Char.toLower

inductive FastPath
  | reject (error : TransferError)
  | resume (offset : Nat)
  | verifyComplete (partialPath : Path)
  | fresh
deriving Repr, DecidableEq

inductive WriteOutcome
  | continue (received : Nat)
  | hashPending (partialPath : Path)
deriving Repr, DecidableEq

section

variable (safeFilename : String → String) (sha256Hex : Bytes → String)

def partialPathOf (dir : Path) (id : String) : Path :=
  dir ++ "/" ++ safeFilename id ++ ".partial"

def metaPathOf (dir : Path) (id : String) : Path :=
  dir ++ "/" ++ safeFilename id ++ ".meta"

def Node.dropCompletion (node : Node) (id : String) : Node :=
  match node.actor.pendingCompletions.get? id with
  | some ack =>
      { node with
        actor := { node.actor with
          pendingCompletions := node.actor.pendingCompletions.remove id }
        : Node }.answer ack (.chunk (.error (.unknownTransfer id)))
  | none => node

def Node.dropBeginVerify (node : Node) (id : String) : Node :=
  match node.actor.pendingBeginVerifies.get? id with
  | some ack =>
      { node with
        actor := { node.actor with
          pendingBeginVerifies := node.actor.pendingBeginVerifies.remove id }
        : Node }.answer ack (.begun (.error (.unknownTransfer id)))
  | none => node

def Node.dropTransfer (env : Env) (node : Node) (id : String) : Node :=
  match node.actor.transfers.get? id with
  | some transfer =>
      let disk := node.disk.removeFile env transfer.partialPath
      { node with
        actor := { node.actor with
          transfers := node.actor.transfers.remove id
          totalDiskBytes := node.actor.totalDiskBytes - transfer.received }
        disk := disk.removeFile env transfer.metaPath }
  | none => node

def Node.handleAbandon (env : Env) (node : Node) (id : String) : Node :=
  ((node.dropCompletion id).dropBeginVerify id).dropTransfer env id

/-- The transfer that was touched longest ago. -/
def oldest (env : Env) (transfers : Table String Transfer) : Option String :=
  (transfers.mergeSort fun left right =>
    left.2.lastTouchedUnix < right.2.lastTouchedUnix ∨
      left.2.lastTouchedUnix = right.2.lastTouchedUnix ∧
        env.order left.1 ≤ env.order right.1).head?.map Prod.fst

/-- Every turn of the loop takes a transfer away. -/
def Node.evictUntilUnder (env : Env) (incomingSize : Nat) : Nat → Node → Node
  | 0, node => node
  | fuel + 1, node =>
      if saturatingAdd node.actor.totalDiskBytes incomingSize >
          node.actor.budget then
        match oldest env node.actor.transfers with
        | none => node
        | some victim =>
            evictUntilUnder env incomingSize fuel (node.handleAbandon env victim)
      else node

def Node.makeRoom (env : Env) (node : Node) (expectedSize : Nat) : Node :=
  if saturatingAdd node.actor.totalDiskBytes expectedSize > node.actor.budget
  then node.evictUntilUnder env expectedSize node.actor.transfers.length
  else node

def Node.beginFresh (env : Env) (node : Node) (id : String) (expectedSize : Nat)
    (expectedSha256 : Option String) : Node × Except TransferError Nat :=
  let node := node.makeRoom env expectedSize
  if saturatingAdd node.actor.totalDiskBytes expectedSize > node.actor.budget
  then (node, .error (.budgetExceeded id node.actor.budget))
  else
    let partialPath := partialPathOf safeFilename node.actor.transfersDir id
    let metaPath := metaPathOf safeFilename node.actor.transfersDir id
    let node := { node with disk := node.disk.removeFile env partialPath }
    match node.disk.createNew env partialPath with
    | none => (node, .error .io)
    | some (disk, inode) =>
        let transfer : Transfer :=
          { id := id
            expectedSize := expectedSize
            expectedSha256 := expectedSha256
            received := 0
            lastTouchedUnix := env.now
            partialPath := partialPath
            metaPath := metaPath
            file := some inode
            complete := false }
        let (disk, wrote) := disk.writeMeta env metaPath (metaFrom transfer)
        let node := { node with disk := disk }
        if wrote then (node.setTransfer id transfer, .ok 0)
        else (node, .error .io)

def Node.beginFastPath (env : Env) (node : Node) (id : String)
    (expectedSize : Nat) (expectedSha256 : Option String) : Node × FastPath :=
  if expectedSize > node.actor.budget then
    (node, .reject (.tooLarge id expectedSize))
  else if (node.actor.pendingCompletions.get? id).isSome ∨
      (node.actor.pendingBeginVerifies.get? id).isSome then
    (node, .reject (.conflictingBegin id))
  else
    match node.actor.transfers.get? id with
    | some existing =>
        if existing.expectedSize ≠ expectedSize ∨
            existing.expectedSha256 ≠ expectedSha256 then
          (node, .reject (.conflictingBegin id))
        else
          let node := node.setTransfer id
            { existing with lastTouchedUnix := env.now }
          if existing.complete ∨ existing.received = existing.expectedSize then
            (node, .verifyComplete existing.partialPath)
          else (node, .resume existing.received)
    | none => (node, .fresh)

def Node.handleBegin (env : Env) (node : Node) (id : String)
    (expectedSize : Nat) (expectedSha256 : Option String) (ack : Ack) : Node :=
  match node.beginFastPath env id expectedSize expectedSha256 with
  | (node, .reject error) => node.answer ack (.begun (.error error))
  | (node, .resume offset) => node.answer ack (.begun (.ok (.resume offset)))
  | (node, .verifyComplete partialPath) =>
      { node with
        actor := { node.actor with
          pendingBeginVerifies := node.actor.pendingBeginVerifies.put id ack }
        : Node }.spawn id partialPath .beginVerify
  | (node, .fresh) =>
      let (node, result) :=
        node.beginFresh safeFilename env id expectedSize expectedSha256
      node.answer ack (.begun (result.map .resume))

def Node.handleBeginVerified (env : Env) (node : Node) (id : String)
    (result : Except TransferError String) : Node :=
  match node.actor.pendingBeginVerifies.get? id with
  | none => node
  | some ack =>
      let node :=
        { node with
          actor := { node.actor with
            pendingBeginVerifies :=
              node.actor.pendingBeginVerifies.remove id } }
      match node.actor.transfers.get? id with
      | none => node.answer ack (.begun (.error (.unknownTransfer id)))
      | some transfer =>
          match result with
          | .error error => node.answer ack (.begun (.error error))
          | .ok actual =>
              if (transfer.expectedSha256.map
                  (eqIgnoreAsciiCase actual)).getD true then
                let complete := { transfer with file := none, complete := true }
                let disk :=
                  if transfer.complete then node.disk
                  else (node.disk.writeMeta env transfer.metaPath
                    (metaFrom complete)).1
                let node := { node with disk := disk }
                (node.setTransfer id complete).answer ack
                  (.begun (.ok (.alreadyComplete transfer.partialPath)))
              else
                let node := node.handleAbandon env id
                let (node, result) := node.beginFresh safeFilename env id
                  transfer.expectedSize transfer.expectedSha256
                node.answer ack (.begun (result.map .resume))

/-- The transfer's own handle, or one opened at its path. -/
def Disk.handleFor (env : Env) (disk : Disk) (transfer : Transfer) :
    Option Inode :=
  match transfer.file with
  | some inode => some inode
  | none => disk.openAppend env transfer.partialPath

def Node.chunkWritten (env : Env) (node : Node) (id : String)
    (transfer : Transfer) (inode : Inode) (chunkLen : Nat) :
    Node × Except TransferError WriteOutcome :=
  let transfer :=
    { transfer with
      received := transfer.received + chunkLen
      lastTouchedUnix := env.now }
  let node :=
    { node with
      actor := { node.actor with
        totalDiskBytes := saturatingAdd node.actor.totalDiskBytes chunkLen } }
  if transfer.received < transfer.expectedSize then
    (node.setTransfer id transfer, .ok (.continue transfer.received))
  else
    let node := node.setTransfer id { transfer with file := none }
    if env.fails (.flush inode) then (node, .error .io)
    else (node, .ok (.hashPending transfer.partialPath))

def Node.handleChunkWrite (env : Env) (node : Node) (id : String) (offset : Nat)
    (bytes : Bytes) : Node × Except TransferError WriteOutcome :=
  match node.actor.transfers.get? id with
  | none => (node, .error (.unknownTransfer id))
  | some transfer =>
      if offset ≠ transfer.received then
        (node, .error (.offsetMismatch id transfer.received offset))
      else if saturatingAdd transfer.received bytes.length >
          transfer.expectedSize then
        (node, .error (.sizeOverflow id transfer.expectedSize transfer.received
          bytes.length))
      else
        match node.disk.handleFor env transfer with
        | none => (node, .error .io)
        | some inode =>
            let transfer := { transfer with file := some inode }
            let (disk, wrote) := node.disk.writeAll env inode bytes
            let node := { node with disk := disk }
            if wrote then
              node.chunkWritten env id transfer inode bytes.length
            else (node.setTransfer id transfer, .error .io)

def Node.handleChunk (env : Env) (node : Node) (id : String) (offset : Nat)
    (bytes : Bytes) (ack : Ack) : Node :=
  match node.handleChunkWrite env id offset bytes with
  | (node, .ok (.continue received)) =>
      node.answer ack (.chunk (.ok (.continue received)))
  | (node, .ok (.hashPending partialPath)) =>
      { node with
        actor := { node.actor with
          pendingCompletions := node.actor.pendingCompletions.put id ack }
        : Node }.spawn id partialPath .completion
  | (node, .error error) => node.answer ack (.chunk (.error error))

def Node.handleHashCompleted (env : Env) (node : Node) (id : String)
    (result : Except TransferError String) : Node :=
  match node.actor.pendingCompletions.get? id with
  | none => node
  | some ack =>
      let node :=
        { node with
          actor := { node.actor with
            pendingCompletions := node.actor.pendingCompletions.remove id } }
      match result with
      | .error error => node.answer ack (.chunk (.error error))
      | .ok actual =>
          match node.actor.transfers.get? id with
          | none => node.answer ack (.chunk (.error (.unknownTransfer id)))
          | some transfer =>
              match transfer.expectedSha256.filter
                  fun expected => ¬ eqIgnoreAsciiCase actual expected with
              | some expected =>
                  node.answer ack
                    (.chunk (.error (.hashMismatch id expected actual)))
              | none =>
                  let complete :=
                    { transfer with
                      complete := true, lastTouchedUnix := env.now }
                  let disk := (node.disk.writeMeta env transfer.metaPath
                    (metaFrom complete)).1
                  let node := { node with disk := disk }
                  (node.setTransfer id complete).answer ack
                    (.chunk (.ok (.completed transfer.partialPath)))

def Node.abandonAll (env : Env) (node : Node) (ids : List String) : Node :=
  ids.foldl (Node.handleAbandon env) node

def Node.abandonMatching (env : Env) (node : Node) (stem : String) : Node :=
  let ids := node.actor.transfers.keys ++ node.actor.pendingCompletions.keys ++
    node.actor.pendingBeginVerifies.keys
  node.abandonAll env
    ((ids.filter fun id => stem.toList.isPrefixOf id.toList).dedup)

def isStale (now lastTouched : Int) : Bool :=
  now - lastTouched ≥ STALE_TIMEOUT

def Node.sweepStale (env : Env) (node : Node) : Node :=
  node.abandonAll env
    (Table.keys (node.actor.transfers.filter fun entry =>
      isStale env.now entry.2.lastTouchedUnix))

def sealFile (env : Env) (disk : Disk) (path : Path) :
    Except TransferError String :=
  match disk.content path with
  | none => .error .io
  | some bytes =>
      if env.fails (.hash path) ∨ env.fails (.sync path) then .error .io
      else .ok (sha256Hex bytes)

/-- What the actor's clients send it. -/
inductive Command
  | begin (id : String) (expectedSize : Nat) (expectedSha256 : Option String)
      (ack : Ack)
  | acceptChunk (id : String) (offset : Nat) (bytes : Bytes) (ack : Ack)
  | abandon (id : String) (ack : Ack)
  | abandonMatching (stem : String) (ack : Ack)
deriving Repr, DecidableEq

/-- A command, a sweep, a hash task that reads its file, or the result of one
that the actor receives. -/
inductive Event
  | command (command : Command)
  | sweep
  | runTask (index : Nat)
  | deliver (index : Nat)
deriving Repr, DecidableEq

def Node.handle (env : Env) (node : Node) : Command → Node
  | .begin id expectedSize expectedSha256 ack =>
      node.handleBegin safeFilename env id expectedSize expectedSha256 ack
  | .acceptChunk id offset bytes ack => node.handleChunk env id offset bytes ack
  | .abandon id ack => (node.handleAbandon env id).answer ack .abandoned
  | .abandonMatching stem ack =>
      (node.abandonMatching env stem).answer ack .abandoned

def Node.runTask (env : Env) (node : Node) (index : Nat) : Node :=
  { node with
    tasks := node.tasks.modify index fun task =>
      match task.result with
      | none =>
          { task with
            result := some (sealFile sha256Hex env node.disk task.path) }
      | some _ => task }

def Node.receive (env : Env) (node : Node) (id : String) (purpose : Purpose)
    (result : Except TransferError String) : Node :=
  match purpose with
  | .completion => node.handleHashCompleted env id result
  | .beginVerify => node.handleBeginVerified safeFilename env id result

def Node.deliver (env : Env) (node : Node) (index : Nat) : Node :=
  match node.tasks[index]? with
  | none => node
  | some task =>
      match task.result with
      | none => node
      | some result =>
          ({ node with tasks := node.tasks.eraseIdx index } : Node).receive
            safeFilename env task.id task.purpose result

/-- One turn of the actor, or of a task beside it. -/
def Node.turn (env : Env) (node : Node) : Event → Node
  | .command command => node.handle safeFilename env command
  | .sweep => node.sweepStale env
  | .runTask index => node.runTask sha256Hex env index
  | .deliver index => node.deliver safeFilename env index

/-- The file that a reply calls complete. -/
def Reply.path? : Reply → Option Path
  | .chunk (.ok (.completed path)) => some path
  | .begun (.ok (.alreadyComplete path)) => some path
  | _ => none

/-- A client waits for the result of a hash task of this id. -/
def Node.Pending (node : Node) (id : String) : Prop :=
  (node.actor.pendingCompletions.get? id).isSome ∨
    (node.actor.pendingBeginVerifies.get? id).isSome

/-- A turn begins with no reply given. -/
def Node.listening (node : Node) : Node :=
  { node with replies := [] }

def Node.step (node : Node) (label : Env × Event) : Node :=
  node.listening.turn safeFilename sha256Hex label.1 label.2

end

/-- An actor that holds nothing yet, on a disk that may hold anything. -/
def Node.fresh (dir : Path) (budget : Nat) (disk : Disk) : Node where
  actor :=
    { transfersDir := dir
      budget := budget
      transfers := []
      totalDiskBytes := 0
      pendingCompletions := []
      pendingBeginVerifies := [] }
  disk := disk
  tasks := []
  replies := []

def Disk.empty : Disk := ⟨[], [], [], 0⟩

/-- A filesystem on which every call succeeds. -/
def Env.calm : Env where
  now := 0
  fails := fun _ => false
  torn := none
  order := fun _ => 0

end Chunked

end Bridgething
