/-
The cache on disk: entries in files named by their scope and key, under a budget
for which the least recently used go first.
-/
import Bridgething.Cache.Index
import Bridgething.Cache.Response

namespace Bridgething

namespace Cache

namespace Disk

open LeastRecent

def MAGIC : Bytes := [0x42, 0x54, 0x43, 0x31]

def TEMP_SUFFIX : String := ".tmp"

/-- In nanoseconds. -/
def TORN_AFTER : Nat := 60 * 10 ^ 9

structure File where
  raw : Bytes
  modified : Nat
deriving DecidableEq

/-- The root directory with the files below it. -/
structure Root where
  present : Bool
  files : Rel → Option File

namespace Root

def write (root : Root) (rel : Rel) (file : File) : Root where
  present := true
  files other := if other = rel then some file else root.files other

def remove (root : Root) (rel : Rel) : Root :=
  { root with
    files := fun other => if other = rel then none else root.files other }

/-- `remove_dir_all`; a path with no components is the root itself. -/
def removeDirAll (root : Root) (dir : Rel) : Root where
  present := root.present && !dir.isEmpty
  files other := if dir <+: other then none else root.files other

theorem files_write (root : Root) (rel other : Rel) (file : File) :
    (root.write rel file).files other =
      if other = rel then some file else root.files other := rfl

theorem files_remove (root : Root) (rel other : Rel) :
    (root.remove rel).files other =
      if other = rel then none else root.files other := rfl

theorem files_removeDirAll (root : Root) (dir other : Rel) :
    (root.removeDirAll dir).files other =
      if dir <+: other then none else root.files other := rfl

end Root

def hexByte (byte : UInt8) : List Char :=
  [Nat.digitChar (byte.toNat / 16), Nat.digitChar (byte.toNat % 16)]

/-- The directory of a scope, by its components: the path of an empty name has
none. -/
def scopePath (scope : String) : Rel :=
  if scopeDir scope = "" then [] else [scopeDir scope]

/-- `sha256` stands for the digest. -/
def relative (sha256 : Bytes → Bytes) (scope key : String) : Rel :=
  scopePath scope ++
    [String.ofList ((sha256 key.toUTF8.data.toList).flatMap hexByte)]

def isTemp (rel : Rel) : Bool :=
  TEMP_SUFFIX.toList.isSuffixOf (rel.getLastD "").toList

end Disk

open Disk in
structure DiskCache where
  budget : Nat
  index : Index
  root : Root

namespace DiskCache

open Disk LeastRecent

/-- What a call leaves and returns, and the files that it trimmed, in the order
in which they went. -/
structure Outcome where
  cache : DiskCache
  body : Option Bytes
  trimmed : List Rel

def new (root : Root) (budget : Nat) : DiskCache := ⟨budget, Index.empty, root⟩

/-- The loop of `trim`, so many times at most. -/
def trimLoop : Nat → DiskCache → DiskCache × List Rel
  | 0, cache => (cache, [])
  | fuel + 1, cache =>
      if cache.budget < cache.index.held then
        match cache.index.oldest with
        | none => (cache, [])
        | some rel =>
            let rest := trimLoop fuel
              { cache with
                index := cache.index.forget rel
                root := cache.root.remove rel }
            (rest.1, rel :: rest.2)
      else (cache, [])

/-- The loop goes round once for each entry at most. -/
def trim (cache : DiskCache) : DiskCache × List Rel :=
  trimLoop cache.index.byRecency.length cache

/-- The finished entries one level below the root, in the listing's order. -/
def found (root : Root) (listing : List Rel) : List (Nat × Rel × Nat) :=
  listing.filterMap fun rel =>
    match root.files rel with
    | none => none
    | some file =>
        if isTemp rel then none
        else some (file.modified, rel, file.raw.length)

/-- Writes that are torn are deleted. -/
def sweep (root : Root) (listing : List Rel) (now : Nat) : Root :=
  { root with
    files := fun rel =>
      match root.files rel with
      | none => none
      | some file =>
          if rel ∈ listing ∧ isTemp rel ∧ file.modified + TORN_AFTER < now then
            none
          else some file }

def touchAll (index : Index) (entries : List (Rel × Nat)) : Index :=
  entries.foldl (fun index entry => index.touch entry.1 entry.2) index

/-- The index of what is found, the least recently modified first, with what is
live already after it. -/
def rebuilt (live : Index) (found : List (Nat × Rel × Nat)) : Index :=
  let sorted := found.mergeSort fun left right => left.1 ≤ right.1
  let fresh := sorted.filter fun entry =>
    (live.entries.get? entry.2.1).isNone
  touchAll (touchAll Index.empty (fresh.map Prod.snd)) live.order

/-- `listing` is what the directories of the root list. -/
def scan (cache : DiskCache) (listing : List Rel) (now : Nat) : Outcome :=
  let done := trim
    { cache with
      index := rebuilt cache.index (found cache.root listing)
      root := sweep cache.root listing now }
  ⟨done.1, none, done.2⟩

section

variable (sha256 : Bytes → Bytes) (cache : DiskCache) (scope key : String)

def load (now : Nat) : Outcome :=
  let rel := Disk.relative sha256 scope key
  match cache.root.files rel with
  | none => ⟨{ cache with index := cache.index.forget rel }, none, []⟩
  | some file =>
      if MAGIC.isPrefixOf file.raw then
        ⟨{ cache with
            index := cache.index.touch rel file.raw.length
            root := cache.root.write rel { file with modified := now } },
          some (file.raw.drop MAGIC.length), []⟩
      else
        ⟨{ cache with
            index := cache.index.forget rel
            root := cache.root.remove rel }, none, []⟩

def store (body : Bytes) (now : Nat) : Outcome :=
  let bytes := MAGIC.length + body.length
  if cache.budget < bytes then ⟨cache, none, []⟩
  else
    let rel := Disk.relative sha256 scope key
    let index := if cache.root.present then cache.index else Index.empty
    let done := trim
      { cache with
        index := index.touch rel bytes
        root := cache.root.write rel ⟨MAGIC ++ body, now⟩ }
    ⟨done.1, none, done.2⟩

def evict : Outcome :=
  let rel := Disk.relative sha256 scope key
  ⟨{ cache with
      index := cache.index.forget rel
      root := cache.root.remove rel }, none, []⟩

def purge : Outcome :=
  let dir := scopePath scope
  let doomed := cache.index.entries.keys.filter fun rel => dir.isPrefixOf rel
  ⟨{ cache with
      index := doomed.foldl Index.forget cache.index
      root := cache.root.removeDirAll dir }, none, []⟩

end

inductive Op
  | store (scope key : String) (body : Bytes) (now : Nat)
  | load (scope key : String) (now : Nat)
  | evict (scope key : String)
  | purge (scope : String)
  | scan (listing : List Rel) (now : Nat)
  /-- A new process makes its cache over the same root. -/
  | reopen (budget : Nat)

def apply (sha256 : Bytes → Bytes) (cache : DiskCache) : Op → Outcome
  | .store scope key body now => cache.store sha256 scope key body now
  | .load scope key now => cache.load sha256 scope key now
  | .evict scope key => cache.evict sha256 scope key
  | .purge scope => cache.purge scope
  | .scan listing now => cache.scan listing now
  | .reopen budget => ⟨new cache.root budget, none, []⟩

end DiskCache

end Cache

end Bridgething
