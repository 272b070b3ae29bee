/-
The blob store step by step: the single calls to the file system and to the
key-value store that each command makes, in the order it makes them.
-/
import Bridgething.Webapp.Blobs

namespace Bridgething

namespace Blobs

def SHA256_HEX_LEN : Nat := 64

def isSha256Text (name : List Char) : Bool :=
  name.length = SHA256_HEX_LEN &&
    name.all fun c => c.isDigit || ('a' ≤ c && c ≤ 'f')

def isSha256 (name : String) : Bool := isSha256Text name.toList

/-- A name without the dot it begins with and the mark of a staged file. -/
def stripStaged : List Char → Option (List Char)
  | '.' :: rest =>
      if ".staged".toList.isSuffixOf rest then
        some (rest.take (rest.length - ".staged".length))
      else none
  | _ => none

/-- What stands before the first separator. -/
def splitOnce (text : List Char) : Option (List Char) :=
  if '.' ∈ text then some (text.takeWhile (· ≠ '.')) else none

def isStoreName (name : String) : Bool :=
  ((stripStaged name.toList).bind splitOnce).any isSha256Text || isSha256 name

/-- The name of a copy under way, with an id of its own. -/
def stagingPath (sha256 id : String) : String :=
  "." ++ sha256 ++ "." ++ id ++ ".staged"

/-- One call.  A directory without files is as none, so that those about
directories change nothing here. -/
inductive Effect
  | createDir
  | rename (sha256 : String) (content : Content)
  | create (name : String)
  | append (name : String) (byte : UInt8)
  | renameStaged (name sha256 : String)
  | setRecord (key : String) (blob : BlobMeta)
  | deleteRecord (key : String)
  | purgeRecords
  | removeFile (name : String)
  | removeDir
deriving Repr, DecidableEq

def Effect.apply (shelf : Shelf) : Effect → Shelf
  | .createDir => shelf
  | .rename sha256 content =>
      { shelf with files := shelf.files.put sha256 content }
  | .create name => { shelf with files := shelf.files.put name [] }
  | .append name byte =>
      match shelf.files.get? name with
      | some content =>
          { shelf with files := shelf.files.put name (content ++ [byte]) }
      | none => shelf
  | .renameStaged name sha256 =>
      match shelf.files.get? name with
      | some content =>
          { shelf with
            files := (shelf.files.remove name).put sha256 content }
      | none => shelf
  | .setRecord key blob =>
      { shelf with records := shelf.records.put key blob }
  | .deleteRecord key =>
      { shelf with records := shelf.records.remove key }
  | .purgeRecords => { shelf with records := [] }
  | .removeFile name => { shelf with files := shelf.files.remove name }
  | .removeDir => shelf

/-- What the store does not decide: whether arriving content must be copied from
another device, and under which id; and the order in which rows and entries are
listed. -/
structure Env where
  staging : Option String
  listing : List String → List String
  perm : ∀ names, (listing names).Perm names

namespace Shelf

def apply (shelf : Shelf) (effects : List Effect) : Shelf :=
  effects.foldl Effect.apply shelf

/-! ### The calls of the handlers -/

def collectSteps (shelf : Shelf) (sha256 : String) : List Effect :=
  if shelf.references sha256 then [] else [.removeFile sha256]

def recordSteps (shelf : Shelf) (key : String) (blob : BlobMeta) :
    List Effect :=
  .setRecord key blob ::
    match shelf.records.get? key with
    | some previous =>
        if previous.sha256 ≠ blob.sha256 then
          { shelf with
            records :=
              shelf.records.put key blob }.collectSteps previous.sha256
        else []
    | none => []

def dropSteps (shelf : Shelf) (sha256 : String) : List Effect :=
  .removeFile sha256 ::
    ((Table.keys (shelf.records.filter fun record =>
      record.2.sha256 = sha256)).mergeSort (· ≤ ·)).map .deleteRecord

/-- Content is renamed into place, or copied byte by byte and then renamed. -/
def landSteps (staging : Option String) (sha256 : String)
    (content : Content) : List Effect :=
  match staging with
  | none => [.rename sha256 content]
  | some id =>
      .create (stagingPath sha256 id) ::
        (content.map (.append (stagingPath sha256 id)) ++
          [.renameStaged (stagingPath sha256 id) sha256])

def placeSteps (shelf : Shelf) (staging : Option String) (key : String)
    (blob : BlobMeta) (file : Option Content) : List Effect :=
  match shelf.checkQuota key blob with
  | .error _ => []
  | .ok () =>
      .createDir ::
        match file with
        | none => []
        | some content =>
            landSteps staging blob.sha256 content ++
              { shelf with
                files := shelf.files.put blob.sha256 content }.recordSteps
                  key blob

def deleteSteps (shelf : Shelf) (key : String) : List Effect :=
  match shelf.records.get? key with
  | some blob =>
      .deleteRecord key ::
        { shelf with
          records := shelf.records.remove key }.collectSteps blob.sha256
  | none => []

def purgeSteps (shelf : Shelf) (env : Env) : List Effect :=
  .purgeRecords ::
    ((env.listing shelf.files.keys).map .removeFile ++ [.removeDir])

end Shelf

namespace Store

def verifySteps (store : Store) (put : BeginPut) : List Effect :=
  let shelf := store.shelves put.webapp
  match shelf.files.get? put.blob.sha256 with
  | none => shelf.dropSteps put.blob.sha256
  | some _ =>
      match put.verdict with
      | some (.hashed actual true) =>
          if actual ≠ put.blob.sha256 then shelf.dropSteps put.blob.sha256
          else []
      | _ => []

def admitSteps (store : Store) (env : Env) (put : BeginPut)
    (isStored room : Bool) (outcome : BeginOutcome) : List Effect :=
  let shelf := store.shelves put.webapp
  match shelf.checkQuota put.key put.blob with
  | .error _ => []
  | .ok () =>
      if isStored then shelf.recordSteps put.key put.blob
      else
        match put.uploader, outcome with
        | some _, .alreadyComplete file =>
            if room then shelf.placeSteps env.staging put.key put.blob file
            else []
        | _, _ => []

def beginSteps (store : Store) (env : Env) (put : BeginPut) (room : Bool)
    (outcome : BeginOutcome) : List Effect :=
  if put.webapp ∉ store.bundles then []
  else
    store.verifySteps put ++
      match store.examine put with
      | (.ok (some isStored), examined) =>
          examined.admitSteps env put isStored room outcome
      | _ => []

def finishSteps (store : Store) (env : Env) (slot : Slot) (attempt : Nat)
    (outcome : Except String (Option Content)) : List Effect :=
  match store.inflight.get? slot, outcome with
  | some upload, .ok file =>
      if upload.attempt = attempt ∧ slot.1 ∈ store.bundles then
        (store.shelves slot.1).placeSteps env.staging slot.2 upload.blob file
      else []
  | _, _ => []

end Store

/-! ### The pass over a webapp when the store starts -/

namespace Shelf

/-- The size of a content file that is there. -/
def onDisk (shelf : Shelf) (name : String) : Option Nat :=
  if isStoreName name then (shelf.files.get? name).map List.length else none

def isWhole (shelf : Shelf) (blob : BlobMeta) : Bool :=
  shelf.onDisk blob.sha256 = some blob.size

def referenced (shelf : Shelf) : List String :=
  (shelf.records.filter fun record => shelf.isWhole record.2).map
    fun record => record.2.sha256

def damagedKeys (shelf : Shelf) : List String :=
  Table.keys (shelf.records.filter fun record => ¬ shelf.isWhole record.2)

def unreferencedNames (shelf : Shelf) : List String :=
  Table.keys (shelf.files.filter fun file =>
    isStoreName file.1 ∧ file.1 ∉ shelf.referenced)

def reconcileSteps (shelf : Shelf) (env : Env) : List Effect :=
  (env.listing shelf.damagedKeys).map .deleteRecord ++
    ((env.listing shelf.unreferencedNames).map .removeFile ++
      if shelf.referenced = [] then [.removeDir] else [])

end Shelf

def Command.webapp : Command → Webapp
  | .begin put _ _ => put.webapp
  | .finish slot _ _ => slot.1
  | .delete slot => slot.1
  | .purge webapp => webapp

/-- The calls of a command, all of them about its webapp. -/
def Store.steps (store : Store) (env : Env) : Command → List Effect
  | .begin put room outcome => store.beginSteps env put room outcome
  | .finish slot attempt outcome => store.finishSteps env slot attempt outcome
  | .delete slot => (store.shelves slot.1).deleteSteps slot.2
  | .purge webapp => (store.shelves webapp).purgeSteps env

end Blobs

end Bridgething
