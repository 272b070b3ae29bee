/-
The device's blob store: records by key, content by digest, and the uploads that
are in flight.  The transfer store that uploads arrive through answers as it will.
-/
import Bridgething.Lib.Table
import Bridgething.Lib.Transition

namespace Bridgething

namespace Blobs

abbrev Webapp := Nat

abbrev Address := Nat

abbrev Content := List UInt8

def WEBAPP_BLOB_QUOTA_BYTES : Nat := 64 * 1024 * 1024

structure BlobMeta where
  sha256 : String
  mime : String
  size : Nat
deriving Repr, DecidableEq

abbrev Slot := Webapp × String

inductive WebappError
  | webappNotFound (id : Webapp)
  | invalidBlobPut (key reason : String)
  | blobQuotaExceeded (key : String) (maxBytes : Nat)
  | blobTransferFailed (key reason : String)
  | blobStorageFull (key : String) (neededBytes : Nat)
  | internal (text : String)
deriving Repr, DecidableEq

inductive BlobEvent
  | stored (webapp : Webapp) (key : String) (stored : BlobMeta) (changed : Bool)
  | failed (webapp : Webapp) (key sha256 : String) (error : WebappError)
  | replaced (webapp : Webapp) (key sha256 : String) (uploader : Address)
  | removed (webapp : Webapp) (key : String)
deriving Repr, DecidableEq

structure InFlight where
  attempt : Nat
  blob : BlobMeta
  uploader : Address
deriving Repr, DecidableEq

inductive Takeover
  | resumes
  | streams
  | stored
deriving Repr, DecidableEq

/-- The digest of stored content, and whether the file it was taken of is still the
one that is there. -/
inductive Verdict
  | unreadable (error : String)
  | hashed (actual : String) (current : Bool)
deriving Repr, DecidableEq

structure BeginPut where
  webapp : Webapp
  key : String
  blob : BlobMeta
  uploader : Option Address
  verdict : Option Verdict
deriving Repr, DecidableEq

/-- What the transfer store answers to a begin; the file of a complete transfer may
be gone by the time it is taken. -/
inductive BeginOutcome
  | alreadyComplete (file : Option Content)
  | resume (offset : Nat)
  | failed (error : String)
deriving Repr, DecidableEq

inductive PutBegin
  | stored (size : Nat)
  | stream (offset attempt : Nat)
deriving Repr, DecidableEq

/-- What is kept for one webapp: its records, and its content files. -/
structure Shelf where
  records : Table String BlobMeta
  files : Table String Content
deriving Repr, DecidableEq

namespace Shelf

def empty : Shelf := ⟨[], []⟩

/-- The sizes of the contents there would be with a record under the key. -/
def sizes (shelf : Shelf) (key : String) (blob : BlobMeta) :
    Table String Nat :=
  let others := shelf.records.filter fun record => record.1 ≠ key
  Table.put (others.foldl
      (fun sizes record => Table.put sizes record.2.sha256 record.2.size) [])
    blob.sha256 blob.size

def checkQuota (shelf : Shelf) (key : String) (blob : BlobMeta) :
    Except WebappError Unit :=
  if Table.total id (shelf.sizes key blob) > WEBAPP_BLOB_QUOTA_BYTES then
    .error (.blobQuotaExceeded key WEBAPP_BLOB_QUOTA_BYTES)
  else .ok ()

def references (shelf : Shelf) (sha256 : String) : Bool :=
  shelf.records.any fun record => record.2.sha256 = sha256

def collectUnreferenced (shelf : Shelf) (sha256 : String) : Shelf :=
  if shelf.references sha256 then shelf
  else { shelf with files := shelf.files.remove sha256 }

def record (shelf : Shelf) (key : String) (blob : BlobMeta) : Bool × Shelf :=
  let next := { shelf with records := shelf.records.put key blob }
  match shelf.records.get? key with
  | some previous =>
      if previous.sha256 ≠ blob.sha256 then
        (true, next.collectUnreferenced previous.sha256)
      else (previous ≠ blob, next)
  | none => (true, next)

/-- The content and the records that go with a digest, and the keys of those. -/
def dropContent (shelf : Shelf) (sha256 : String) : List String × Shelf :=
  (Table.keys (shelf.records.filter fun record => record.2.sha256 = sha256),
    { records := shelf.records.filter fun record => record.2.sha256 ≠ sha256
      files := shelf.files.remove sha256 })

/-- Content that arrived is put in place and recorded. -/
def place (shelf : Shelf) (key : String) (blob : BlobMeta)
    (file : Option Content) : Except WebappError Bool × Shelf :=
  match shelf.checkQuota key blob with
  | .error error => (.error error, shelf)
  | .ok () =>
      match file with
      | none => (.error (.internal "the file is gone"), shelf)
      | some content =>
          let (changed, next) :=
            { shelf with files := shelf.files.put blob.sha256 content }.record
              key blob
          (.ok changed, next)

def delete (shelf : Shelf) (key : String) : Shelf :=
  match shelf.records.get? key with
  | some blob =>
      { shelf with records := shelf.records.remove key }.collectUnreferenced
        blob.sha256
  | none => shelf

end Shelf

structure Store where
  shelves : Webapp → Shelf
  bundles : List Webapp
  inflight : Table Slot InFlight
  nextAttempt : Nat
  events : List BlobEvent

namespace Store

def new (bundles : List Webapp) : Store :=
  ⟨fun _ => .empty, bundles, [], 0, []⟩

def emit (store : Store) (event : BlobEvent) : Store :=
  { store with events := store.events ++ [event] }

def setShelf (store : Store) (webapp : Webapp) (shelf : Shelf) : Store :=
  { store with
    shelves := fun other => if other = webapp then shelf else store.shelves other }

def replaceInflight (store : Store) (slot : Slot) (taker : Option Address)
    (newer : BlobMeta) (takeover : Takeover) : Store :=
  match store.inflight.get? slot with
  | none => store
  | some prior =>
      let store := { store with inflight := store.inflight.remove slot }
      let settledByNewer :=
        takeover = .stored ∧ prior.blob.sha256 = newer.sha256
      if taker ≠ some prior.uploader ∧ ¬ settledByNewer then
        store.emit (.replaced slot.1 slot.2 prior.blob.sha256 prior.uploader)
      else store

def cancel (store : Store) (slot : Slot) (reason : String) : Store :=
  match store.inflight.get? slot with
  | none => store
  | some upload =>
      { store with inflight := store.inflight.remove slot }.emit
        (.failed slot.1 slot.2 upload.blob.sha256
          (.blobTransferFailed slot.2 reason))

def register (store : Store) (slot : Slot) (blob : BlobMeta)
    (uploader : Address) : Store :=
  { store with
    nextAttempt := store.nextAttempt + 1
    inflight := store.inflight.put slot ⟨store.nextAttempt + 1, blob, uploader⟩ }

def stored (store : Store) (slot : Slot) (blob : BlobMeta) (changed : Bool) :
    Store :=
  store.emit (.stored slot.1 slot.2 blob changed)

def dropContent (store : Store) (webapp : Webapp) (sha256 : String) : Store :=
  let (keys, shelf) := (store.shelves webapp).dropContent sha256
  { store.setShelf webapp shelf with
    events := store.events ++ keys.map fun key => .removed webapp key }

/-- `none` when the content has yet to be hashed. -/
def verifyStored (store : Store) (webapp : Webapp) (key : String)
    (blob : BlobMeta) (verdict : Option Verdict) :
    Except WebappError (Option Bool) × Store :=
  match (store.shelves webapp).files.get? blob.sha256 with
  | none => (.ok (some false), store.dropContent webapp blob.sha256)
  | some found =>
      match verdict with
      | none => (.ok none, store)
      | some (.unreadable error) =>
          (.error (.internal ("the content stored under this sha256 could not " ++
            s!"be read: {error}")), store)
      | some (.hashed actual current) =>
          if ¬ current then (.ok none, store)
          else if actual ≠ blob.sha256 then
            (.ok (some false), store.dropContent webapp blob.sha256)
          else if found.length ≠ blob.size then
            (.error (.invalidBlobPut key ("the content stored under this " ++
              s!"sha256 is {found.length} bytes")), store)
          else (.ok (some true), store)

def examine (store : Store) (put : BeginPut) :
    Except WebappError (Option Bool) × Store :=
  if put.webapp ∉ store.bundles then
    (.error (.webappNotFound put.webapp), store)
  else store.verifyStored put.webapp put.key put.blob put.verdict

def place (store : Store) (slot : Slot) (blob : BlobMeta)
    (file : Option Content) : Except WebappError Bool × Store :=
  if slot.1 ∉ store.bundles then (.error (.webappNotFound slot.1), store)
  else
    let (placed, shelf) := (store.shelves slot.1).place slot.2 blob file
    (placed, store.setShelf slot.1 shelf)

/-- An upload of content that is not stored yet. -/
def stream (store : Store) (slot : Slot) (blob : BlobMeta)
    (uploader : Address) (room : Bool) (outcome : BeginOutcome) :
    Except WebappError PutBegin × Store :=
  if ¬ room then (.error (.blobStorageFull slot.2 blob.size), store)
  else
    let resumes := (store.inflight.get? slot).any fun prior =>
      prior.blob.sha256 = blob.sha256 ∧ prior.blob.size = blob.size
    let store :=
      if resumes then store.replaceInflight slot (some uploader) blob .resumes
      else store
    match outcome with
    | .failed error => (.error (.blobTransferFailed slot.2 error), store)
    | .alreadyComplete file =>
        match store.place slot blob file with
        | (.error error, store) => (.error error, store)
        | (.ok changed, store) =>
            (.ok (.stored blob.size),
              (store.replaceInflight slot (some uploader) blob .stored).stored
                slot blob changed)
    | .resume offset =>
        let store := store.replaceInflight slot (some uploader) blob .streams
        (.ok (.stream offset (store.nextAttempt + 1)),
          store.register slot blob uploader)

def admitPut (store : Store) (slot : Slot) (blob : BlobMeta)
    (uploader : Option Address) (isStored room : Bool)
    (outcome : BeginOutcome) : Except WebappError PutBegin × Store :=
  match (store.shelves slot.1).checkQuota slot.2 blob with
  | .error error => (.error error, store)
  | .ok () =>
      if isStored then
        let (changed, shelf) := (store.shelves slot.1).record slot.2 blob
        (.ok (.stored blob.size),
          ((store.setShelf slot.1 shelf).replaceInflight slot uploader blob
            .stored).stored slot blob changed)
      else
        match uploader with
        | none =>
            (.error (.blobTransferFailed slot.2
              "a streamed upload needs an addressed peer"), store)
        | some uploader => store.stream slot blob uploader room outcome

/-- Nothing is answered while the content is being hashed; the put then comes
again with the verdict. -/
def begin? (store : Store) (put : BeginPut) (room : Bool)
    (outcome : BeginOutcome) : Option (Except WebappError PutBegin) × Store :=
  match store.examine put with
  | (.ok none, store) => (none, store)
  | (.error error, store) => (some (.error error), store)
  | (.ok (some isStored), store) =>
      let (answer, store) := store.admitPut (put.webapp, put.key) put.blob
        put.uploader isStored room outcome
      (some answer, store)

/-- A put that ends with its file, or with the error of its transfer. -/
def finish (store : Store) (slot : Slot) (attempt : Nat)
    (outcome : Except String (Option Content)) : Store :=
  match store.inflight.get? slot with
  | none => store
  | some upload =>
      if upload.attempt ≠ attempt then store
      else
        let store := { store with inflight := store.inflight.remove slot }
        match outcome with
        | .error reason =>
            store.emit (.failed slot.1 slot.2 upload.blob.sha256
              (.blobTransferFailed slot.2 reason))
        | .ok file =>
            match store.place slot upload.blob file with
            | (.ok changed, store) => store.stored slot upload.blob changed
            | (.error error, store) =>
                store.emit
                  (.failed slot.1 slot.2 upload.blob.sha256 error)

def delete (store : Store) (slot : Slot) : Store :=
  let store := store.cancel slot "the key was deleted"
  match (store.shelves slot.1).records.get? slot.2 with
  | none => store
  | some _ =>
      (store.setShelf slot.1 ((store.shelves slot.1).delete slot.2)).emit
        (.removed slot.1 slot.2)

def purge (store : Store) (webapp : Webapp) : Store :=
  let slots := store.inflight.keys.filter fun slot => slot.1 = webapp
  let store := slots.foldl
    (fun store slot => store.cancel slot "the webapp was uninstalled") store
  store.setShelf webapp .empty

/-- The uploads that have ended are forgotten before each command. -/
def retain (store : Store) (exited : List Slot) : Store :=
  { store with
    inflight := store.inflight.filter fun entry => entry.1 ∉ exited }

/-- The uploads so forgotten. -/
def exiting (store : Store) (exited : List Slot) : List (Slot × InFlight) :=
  store.inflight.filter fun entry => entry.1 ∈ exited

end Store

inductive Command
  | begin (put : BeginPut) (room : Bool) (outcome : BeginOutcome)
  | finish (slot : Slot) (attempt : Nat)
      (outcome : Except String (Option Content))
  | delete (slot : Slot)
  | purge (webapp : Webapp)
deriving DecidableEq

/-- A command is received when some uploads have ended, or webapps come and go. -/
inductive Event
  | receive (exited : List Slot) (command : Command)
  | setBundles (bundles : List Webapp)
deriving DecidableEq

namespace Store

def handle (store : Store) : Command → Store
  | .begin put room outcome => (store.begin? put room outcome).2
  | .finish slot attempt outcome => store.finish slot attempt outcome
  | .delete slot => store.delete slot
  | .purge webapp => store.purge webapp

def step (store : Store) : Event → Store
  | .receive exited command => (store.retain exited).handle command
  | .setBundles bundles => { store with bundles := bundles }

end Store

end Blobs

end Bridgething
