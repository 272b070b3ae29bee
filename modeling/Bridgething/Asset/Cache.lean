/-
The asset cache: entries in memory and on disk under two budgets, with running
totals, eviction by class and recency, and events.
-/
import Bridgething.Lib.Table

namespace Bridgething

namespace Asset

def USIZE_MAX : Nat := 2 ^ 64 - 1

/-- No allocation and no file is longer. -/
def ISIZE_MAX : Nat := 2 ^ 63 - 1

def U64_MAX : Nat := 2 ^ 64 - 1

def MEMORY_BUDGET_BYTES : Nat := 8 * 1024 * 1024

def DISK_BUDGET_BYTES : Nat := 512 * 1024 * 1024

def DISK_FREE_HEADROOM_BYTES : Nat := 128 * 1024 * 1024

def saturatingAdd (left right : Nat) : Nat := min (left + right) USIZE_MAX

abbrev Bytes := { bytes : List UInt8 // bytes.length ≤ ISIZE_MAX }

def Bytes.len (bytes : Bytes) : Nat := bytes.1.length

abbrev Path := String

inductive Tier
  | memory
  | disk
deriving Repr, DecidableEq

inductive Lifetime
  | pinned
  | lru
  | ttl (seconds : Nat)
deriving Repr, DecidableEq

structure Retention where
  tier : Tier
  lifetime : Lifetime
deriving Repr, DecidableEq

namespace Retention

def DISK_PINNED : Retention := ⟨.disk, .pinned⟩

def DISK_LRU : Retention := ⟨.disk, .lru⟩

def ttlSeconds (retention : Retention) : Option Nat :=
  match retention.lifetime with
  | .ttl seconds => some seconds
  | _ => none

def isPinned (retention : Retention) : Bool :=
  match retention.lifetime with
  | .pinned => true
  | _ => false

def isTtl (retention : Retention) : Bool :=
  match retention.lifetime with
  | .ttl _ => true
  | _ => false

def isDiskPersisted (retention : Retention) : Bool :=
  retention.tier = .disk ∧ ¬ retention.isTtl

end Retention

inductive AssetCacheEvent
  | ready (id : String)
  | cleared (id : String)
deriving Repr, DecidableEq

inductive AssetError
  | db
  | io
  | diskBudgetExceeded
deriving Repr, DecidableEq

inductive EntryStorage
  | memory (bytes : Bytes)
  | disk (path : Path)
deriving DecidableEq

structure Entry where
  retention : Retention
  mime : Option String
  byteLen : Nat
  accessedAt : Int
  lruSeq : Nat
  ttlDeadline : Option Nat
  storage : EntryStorage
deriving DecidableEq

def Entry.tier (entry : Entry) : Tier :=
  match entry.storage with
  | .memory _ => .memory
  | .disk _ => .disk

structure CachedAsset where
  bytes : Bytes
  mime : Option String
deriving DecidableEq

/-- A row of the assets table, keyed by the asset's id. -/
structure Row where
  path : Path
  mime : Option String
  byteLen : Int
  accessedAt : Int
  pinned : Bool
deriving Repr, DecidableEq

/-- The calls that can fail on the way of a command. -/
inductive Call
  | write (path : Path)
  | rename (source dest : Path)
  | read (source : Path)
  | upsertRow (id : String)
deriving Repr, DecidableEq

/-- What a command finds around it: the clocks, what the files hold, the calls
that fail, the partition's free bytes, and the order in which the map of entries
is walked. -/
structure Env where
  now : Int
  instant : Nat
  file : Path → Option Bytes
  fails : Call → Bool
  free : Nat
  order : String → Nat

structure AssetActor where
  blobsDir : Path
  entries : Table String Entry
  memoryByteTotal : Nat
  diskByteTotal : Nat
  lruClock : Nat
  dirtyPersist : List String
  events : List AssetCacheEvent
deriving DecidableEq

inductive Command
  | insert (id : String) (bytes : Bytes) (mime : Option String)
      (retention : Retention)
  | insertFromPath (id : String) (source : Path) (mime : Option String)
      (retention : Retention)
  | setRetention (id : String) (retention : Retention)
  | get (id : String)
  | contains (id : String)
  | clear (id : String)
  | reserveDisk (needBytes : Nat)
  | sweep
deriving DecidableEq

inductive Reply
  | done (result : Except AssetError Unit)
  | asset (found : Option CachedAsset)
  | contains (found : Bool)

/-- The first entry of the least key. -/
def minByKey {κ : Type} (before : κ → κ → Bool) (key : Entry → κ) :
    List (String × Entry) → Option (String × Entry)
  | [] => none
  | entry :: rest =>
      match minByKey before key rest with
      | none => some entry
      | some best =>
          if before (key best.2) (key entry.2) then some best else some entry

def diskOverLimit (currentBytes freeBytes budget headroom : Nat) : Bool :=
  currentBytes > budget ∨ freeBytes < headroom

def ttlDeadlineFor (env : Env) (retention : Retention) : Option Nat :=
  retention.ttlSeconds.map fun seconds => env.instant + max seconds 1

namespace AssetActor

def emit (actor : AssetActor) (event : AssetCacheEvent) : AssetActor :=
  { actor with events := actor.events ++ [event] }

/-- The clock's next reading. -/
def tick (actor : AssetActor) : AssetActor :=
  { actor with lruClock := (actor.lruClock + 1) % 2 ^ 64 }

def evictEntry (actor : AssetActor) (id : String) : AssetActor :=
  match actor.entries.get? id with
  | none => actor
  | some entry =>
      let actor := { actor with entries := actor.entries.remove id }
      match entry.storage with
      | .memory _ =>
          { actor with
            memoryByteTotal := actor.memoryByteTotal - entry.byteLen }
      | .disk _ =>
          { actor with
            diskByteTotal := actor.diskByteTotal - entry.byteLen
            dirtyPersist := actor.dirtyPersist.filter (· ≠ id) }

def walk (env : Env) (actor : AssetActor) : List (String × Entry) :=
  actor.entries.mergeSort fun left right => env.order left.1 ≤ env.order right.1

def inMemory (entry : String × Entry) : Bool :=
  entry.2.tier = .memory

def onDisk (entry : String × Entry) : Bool :=
  entry.2.tier = .disk

def lruScore (actor : AssetActor) (entry : Entry) : Nat :=
  max ((actor.lruClock - entry.lruSeq) * entry.byteLen) 1

def pickMemoryVictim (env : Env) (actor : AssetActor) : Option String :=
  let held := (actor.walk env).filter inMemory
  let lru := held.filter fun entry => entry.2.retention.lifetime = .lru
  let ttl := held.filter fun entry => entry.2.retention.isTtl
  let pinned := held.filter fun entry => entry.2.retention.isPinned
  ((minByKey (fun best score => decide (best > score)) actor.lruScore lru).or
    ((minByKey (fun best seq => decide (best < seq)) Entry.lruSeq ttl).or
      (minByKey (fun best seq => decide (best < seq)) Entry.lruSeq
        pinned))).map Prod.fst

/-- Accessed before, or at the same time and in an earlier turn. -/
def olderAccess (left right : Int × Nat) : Bool :=
  left.1 < right.1 ∨ left.1 = right.1 ∧ left.2 < right.2

def pickDiskVictim (env : Env) (actor : AssetActor) (pinned : Bool) :
    Option String :=
  (minByKey olderAccess (fun entry => (entry.accessedAt, entry.lruSeq))
    ((actor.walk env).filter fun entry =>
      onDisk entry ∧ entry.2.retention.isPinned = pinned)).map Prod.fst

def pickDiskEvictableVictim (env : Env) (actor : AssetActor) : Option String :=
  actor.pickDiskVictim env false

def pickDiskPinnedVictim (env : Env) (actor : AssetActor) : Option String :=
  actor.pickDiskVictim env true

def evictVictim (actor : AssetActor) (victim : String) : AssetActor :=
  (actor.evictEntry victim).emit (.cleared victim)

/-- Every turn of the loop takes an entry away. -/
def evictUnderMemoryBudget (env : Env) : Nat → AssetActor → AssetActor
  | 0, actor => actor
  | fuel + 1, actor =>
      if actor.memoryByteTotal > MEMORY_BUDGET_BYTES then
        match actor.pickMemoryVictim env with
        | none => actor
        | some victim => evictUnderMemoryBudget env fuel (actor.evictVictim victim)
      else actor

def evictUntilUnderMemoryBudget (env : Env) (actor : AssetActor) : AssetActor :=
  actor.evictUnderMemoryBudget env actor.entries.length

def freedBy (actor : AssetActor) (victim : String) : Nat :=
  ((actor.entries.get? victim).map Entry.byteLen).getD 0

def evictWhileOverLimit (env : Env) (minFree : Nat) :
    Nat → AssetActor → Nat → AssetActor × Nat
  | 0, actor, free => (actor, free)
  | fuel + 1, actor, free =>
      if diskOverLimit actor.diskByteTotal free DISK_BUDGET_BYTES minFree then
        match actor.pickDiskEvictableVictim env with
        | none => (actor, free)
        | some victim =>
            evictWhileOverLimit env minFree fuel (actor.evictVictim victim)
              (min (free + actor.freedBy victim) U64_MAX)
      else (actor, free)

def evictPinnedUntilFree (env : Env) (minFree : Nat) :
    Nat → AssetActor → Nat → AssetActor
  | 0, actor, _ => actor
  | fuel + 1, actor, free =>
      if free < minFree then
        match actor.pickDiskPinnedVictim env with
        | none => actor
        | some victim =>
            evictPinnedUntilFree env minFree fuel (actor.evictVictim victim)
              (min (free + actor.freedBy victim) U64_MAX)
      else actor

def enforceDiskLimits (env : Env) (actor : AssetActor) (minFree : Nat) :
    AssetActor :=
  let (actor, free) :=
    evictWhileOverLimit env minFree actor.entries.length actor env.free
  actor.evictPinnedUntilFree env minFree actor.entries.length free

def evictUntilUnderDiskBudget (env : Env) (actor : AssetActor) : AssetActor :=
  actor.enforceDiskLimits env DISK_FREE_HEADROOM_BYTES

def reserveDisk (env : Env) (actor : AssetActor) (needBytes : Nat) : AssetActor :=
  actor.enforceDiskLimits env (min (DISK_FREE_HEADROOM_BYTES + needBytes) U64_MAX)

def makeDiskRoom (env : Env) (actor : AssetActor) (newId : String)
    (newIsPinned : Bool) : AssetActor × Except AssetError Unit :=
  let actor := actor.evictUntilUnderDiskBudget env
  if actor.diskByteTotal > DISK_BUDGET_BYTES ∧ newIsPinned then
    (actor.evictEntry newId, .error .diskBudgetExceeded)
  else (actor, .ok ())

/-- An entry that is there to stay is ready. -/
def announce (id : String) :
    AssetActor × Except AssetError Unit → AssetActor × Except AssetError Unit
  | (actor, .ok ()) => (actor.emit (.ready id), .ok ())
  | (actor, .error error) => (actor, .error error)

section

variable (safeBlobName : String → String)

def blobPath (actor : AssetActor) (id : String) : Path :=
  actor.blobsDir ++ "/" ++ safeBlobName id

def insertMemory (env : Env) (actor : AssetActor) (id : String) (bytes : Bytes)
    (mime : Option String) (retention : Retention) :
    AssetActor × Except AssetError Unit :=
  let actor :=
    { actor with
      memoryByteTotal := saturatingAdd actor.memoryByteTotal bytes.len }.tick
  let actor :=
    { actor with
      entries := actor.entries.put id
        { retention := retention
          mime := mime
          byteLen := bytes.len
          accessedAt := env.now
          lruSeq := actor.lruClock
          ttlDeadline := ttlDeadlineFor env retention
          storage := .memory bytes } }
  ((actor.evictUntilUnderMemoryBudget env).emit (.ready id), .ok ())

/-- What follows once the blob is in its place. -/
def insertPlaced (env : Env) (actor : AssetActor) (id : String) (dest : Path)
    (byteLen : Nat) (mime : Option String) (retention : Retention) :
    AssetActor × Except AssetError Unit :=
  let actor :=
    { actor with diskByteTotal := saturatingAdd actor.diskByteTotal byteLen }
  if retention.isDiskPersisted ∧ env.fails (.upsertRow id) then
    (actor, .error .db)
  else
    let actor := actor.tick
    let actor :=
      { actor with
        entries := actor.entries.put id
          { retention := retention
            mime := mime
            byteLen := byteLen
            accessedAt := env.now
            lruSeq := actor.lruClock
            ttlDeadline := ttlDeadlineFor env retention
            storage := .disk dest } }
    announce id (actor.makeDiskRoom env id retention.isPinned)

def handleInsert (env : Env) (actor : AssetActor) (id : String) (bytes : Bytes)
    (mime : Option String) (retention : Retention) :
    AssetActor × Except AssetError Unit :=
  if bytes.1.isEmpty then (actor, .ok ())
  else
    let actor := actor.evictEntry id
    match retention.tier with
    | .memory => actor.insertMemory env id bytes mime retention
    | .disk =>
        let dest := actor.blobPath safeBlobName id
        if env.fails (.write dest) then (actor, .error .io)
        else actor.insertPlaced env id dest bytes.len mime retention

/-- A source that cannot be looked at is one that holds nothing here. -/
def handleInsertFromPath (env : Env) (actor : AssetActor) (id : String)
    (source : Path) (mime : Option String) (retention : Retention) :
    AssetActor × Except AssetError Unit :=
  match env.file source with
  | none => (actor, .error .io)
  | some bytes =>
      if bytes.1.isEmpty then (actor, .ok ())
      else
        let actor := actor.evictEntry id
        match retention.tier with
        | .disk =>
            let dest := actor.blobPath safeBlobName id
            if env.fails (.rename source dest) then (actor, .error .io)
            else actor.insertPlaced env id dest bytes.len mime retention
        | .memory =>
            if env.fails (.read source) then (actor, .error .io)
            else actor.insertMemory env id bytes mime retention

def handleSetRetention (env : Env) (actor : AssetActor) (id : String)
    (retention : Retention) : AssetActor × Except AssetError Unit :=
  match actor.entries.get? id with
  | none => (actor, .ok ())
  | some entry =>
      if entry.tier ≠ retention.tier then (actor, .ok ())
      else
        let actor :=
          { actor with
            entries := actor.entries.put id
              { entry with
                retention := retention
                ttlDeadline := ttlDeadlineFor env retention } }
        match entry.storage with
        | .memory _ => (actor, .ok ())
        | .disk _ =>
            if retention.isDiskPersisted ∧ env.fails (.upsertRow id) then
              (actor, .error .db)
            else (actor, .ok ())

def handleGet (env : Env) (actor : AssetActor) (id : String) :
    AssetActor × Option CachedAsset :=
  let actor := actor.tick
  match actor.entries.get? id with
  | none => (actor, none)
  | some entry =>
      let actor :=
        { actor with
          entries := actor.entries.put id
            { entry with accessedAt := env.now, lruSeq := actor.lruClock } }
      match entry.storage with
      | .memory bytes => (actor, some ⟨bytes, entry.mime⟩)
      | .disk path =>
          match env.file path with
          | none => (actor, none)
          | some bytes =>
              ({ actor with
                  dirtyPersist := (id :: actor.dirtyPersist).dedup },
                some ⟨bytes, entry.mime⟩)

def handleClear (actor : AssetActor) (id : String) : AssetActor :=
  if (actor.entries.get? id).isSome then actor.evictVictim id else actor

def expired (env : Env) (entry : String × Entry) : Bool :=
  match entry.2.ttlDeadline with
  | some deadline => deadline ≤ env.instant
  | none => false

def ttlSweep (env : Env) (actor : AssetActor) : AssetActor :=
  (Table.keys ((actor.walk env).filter (expired env))).foldl evictVictim actor

def flushPersistTouches (actor : AssetActor) : AssetActor :=
  { actor with dirtyPersist := [] }

def handle (env : Env) (actor : AssetActor) : Command → AssetActor × Reply
  | .insert id bytes mime retention =>
      let (actor, result) :=
        actor.handleInsert safeBlobName env id bytes mime retention
      (actor, .done result)
  | .insertFromPath id source mime retention =>
      let (actor, result) :=
        actor.handleInsertFromPath safeBlobName env id source mime retention
      (actor, .done result)
  | .setRetention id retention =>
      let (actor, result) := actor.handleSetRetention env id retention
      (actor, .done result)
  | .get id =>
      let (actor, found) := actor.handleGet env id
      (actor, .asset found)
  | .contains id => (actor, .contains (actor.entries.get? id).isSome)
  | .clear id => (actor.handleClear id, .done (.ok ()))
  | .reserveDisk needBytes => (actor.reserveDisk env needBytes, .done (.ok ()))
  | .sweep => ((actor.ttlSweep env).flushPersistTouches, .done (.ok ()))

end

def new (blobsDir : Path) : AssetActor where
  blobsDir := blobsDir
  entries := []
  memoryByteTotal := 0
  diskByteTotal := 0
  lruClock := 0
  dirtyPersist := []
  events := []

/-- A row whose file is gone is passed over. -/
def recoverRow (env : Env) (actor : AssetActor) (row : String × Row) :
    AssetActor :=
  if (env.file row.2.path).isNone then actor
  else
    let byteLen := row.2.byteLen.toNat
    let actor :=
      { actor with
        diskByteTotal := saturatingAdd actor.diskByteTotal byteLen }.tick
    { actor with
      entries := actor.entries.put row.1
        { retention :=
            if row.2.pinned then Retention.DISK_PINNED else Retention.DISK_LRU
          mime := row.2.mime
          byteLen := byteLen
          accessedAt := row.2.accessedAt
          lruSeq := actor.lruClock
          ttlDeadline := none
          storage := .disk row.2.path } }

/-- The rows come in the order of their last access. -/
def bootstrap (env : Env) (blobsDir : Path) (rows : Table String Row) :
    AssetActor :=
  ((rows.mergeSort fun left right =>
      left.2.accessedAt ≤ right.2.accessedAt).foldl (recoverRow env)
    (new blobsDir)).evictUntilUnderDiskBudget env

end AssetActor

end Asset

end Bridgething
