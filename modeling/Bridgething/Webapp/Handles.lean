/-
Picked files that wait to be uploaded: handles with their bytes, kept by pins and
leases, swept when idle, used up by a put that stores.
-/
import Bridgething.Lib.Table
import Bridgething.Lib.Transition

namespace Bridgething

namespace Handles

/-- Handles are minted afresh, so their order of minting tells them apart. -/
abbrev Handle := Nat

abbrev Instant := Nat

def HANDLE_MAX_BYTES : Nat := 32 * 1024 * 1024

inductive HandleError
  | unknown (handle : Handle)
  | tooLarge
  | busy (budget : Nat)
  | io
deriving Repr, DecidableEq

structure HeldBlob where
  mime : String
  size : Nat
deriving Repr, DecidableEq

structure PutTarget where
  webapp : Nat
  key : String
deriving Repr, DecidableEq

structure Held where
  blob : HeldBlob
  touched : Instant
  pins : Nat
  stored : Bool
  retrying : List PutTarget
deriving Repr, DecidableEq

namespace Held

def spent (entry : Held) : Bool := entry.stored && entry.retrying.isEmpty

def takes (entry : Held) : Option PutTarget → Bool
  | some target =>
      if entry.stored then entry.retrying.contains target else !entry.spent
  | none => !entry.spent

/-- What the end of a put does to its entry. -/
def ended (entry : Held) (target : PutTarget) (stored : Bool) : Held :=
  if stored then
    { entry with
      retrying := entry.retrying.filter (· ≠ target)
      stored := true }
  else { entry with retrying := entry.retrying.insert target }

end Held

/-- What keeps a handle: a pin, or the lease of a put. -/
inductive Owner
  | pin (handle : Handle)
  | lease (handle : Handle) (target : PutTarget)
deriving Repr, DecidableEq

def Owner.handle : Owner → Handle
  | .pin handle => handle
  | .lease handle _ => handle

@[simp] theorem Owner.handle_pin (handle : Handle) :
    (Owner.pin handle).handle = handle := rfl

@[simp] theorem Owner.handle_lease (handle : Handle) (target : PutTarget) :
    (Owner.lease handle target).handle = handle := rfl

/-- The registry with the bytes its store holds, the pins and leases that are
live, and how many handles were minted. -/
structure Registry where
  ttl : Nat
  budget : Nat
  held : Table Handle Held
  store : Table Handle (List UInt8)
  live : List Owner
  minted : Nat
deriving Repr, DecidableEq

namespace Registry

def withLimits (ttl budget : Nat) : Registry := ⟨ttl, budget, [], [], [], 0⟩

def idle (registry : Registry) (now : Instant) (entry : Held) : Bool :=
  entry.pins = 0 ∧ now - entry.touched ≥ registry.ttl

/-- An entry goes, and its bytes with it. -/
def discard (registry : Registry) (handle : Handle) : Registry :=
  { registry with
    held := registry.held.remove handle
    store := registry.store.remove handle }

def expired (registry : Registry) (now : Instant) : List Handle :=
  Table.keys (registry.held.filter fun entry => registry.idle now entry.2)

def sweep (registry : Registry) (now : Instant) : Registry :=
  (registry.expired now).foldl discard registry

def total (registry : Registry) : Nat :=
  Table.total (fun entry => entry.blob.size) registry.held

def fits (registry : Registry) (incoming : Nat) : Except HandleError Unit :=
  if registry.total + incoming > registry.budget then
    .error (.busy registry.budget)
  else .ok ()

def settle (registry : Registry) (now : Instant) (handle : Handle)
    (outcome : Held → Held) : Registry :=
  match registry.held.get? handle with
  | none => registry
  | some entry =>
      let entry := { outcome entry with
        pins := (outcome entry).pins - 1
        touched := now }
      if entry.spent ∧ entry.pins = 0 then registry.discard handle
      else { registry with held := registry.held.put handle entry }

def unpin (registry : Registry) (now : Instant) (handle : Handle) : Registry :=
  registry.settle now handle id

/-- `end` of a put. -/
def ends (registry : Registry) (now : Instant) (handle : Handle)
    (target : PutTarget) (stored : Bool) : Registry :=
  registry.settle now handle fun entry => entry.ended target stored

/-- The drop of a pin or a lease. -/
def drop (registry : Registry) (now : Instant) (owner : Owner) (stored : Bool) :
    Registry :=
  if owner ∈ registry.live then
    let registry := { registry with live := registry.live.erase owner }
    match owner with
    | .pin handle => registry.unpin now handle
    | .lease handle target => registry.ends now handle target stored
  else registry

def find (registry : Registry) (handle : Handle) (target : Option PutTarget) :
    Except HandleError Held :=
  match registry.held.get? handle with
  | some entry =>
      if entry.takes target then .ok entry else .error (.unknown handle)
  | none => .error (.unknown handle)

def owner (handle : Handle) : Option PutTarget → Owner
  | none => .pin handle
  | some target => .lease handle target

/-- `hold` once it has swept, and what then keeps the handle. -/
def hold (registry : Registry) (now : Instant) (handle : Handle)
    (target : Option PutTarget) : Except HandleError HeldBlob × Registry :=
  match registry.find handle target with
  | .error error => (.error error, registry)
  | .ok entry =>
      (.ok entry.blob,
        { registry with
          held := registry.held.put handle
            { entry with pins := entry.pins + 1, touched := now }
          live := owner handle target :: registry.live })

def resolve (registry : Registry) (clock : Nat → Instant) (handle : Handle) :
    Except HandleError (HeldBlob × List UInt8) × Registry :=
  match (registry.sweep (clock 0)).hold (clock 1) handle none with
  | (.error error, registry) => (.error error, registry)
  | (.ok blob, registry) =>
      match registry.store.get? handle with
      | some bytes => (.ok (blob, bytes), registry)
      | none =>
          (.error (.unknown handle),
            registry.drop (clock 2) (.pin handle) false)

def lease (registry : Registry) (clock : Nat → Instant) (handle : Handle)
    (target : PutTarget) :
    Except HandleError (HeldBlob × List UInt8) × Registry :=
  match (registry.sweep (clock 0)).hold (clock 1) handle (some target) with
  | (.error error, registry) => (.error error, registry)
  | (.ok _, registry) =>
      match registry.resolve (fun reading => clock (reading + 2)) handle with
      | (.ok found, registry) => (.ok found, registry)
      | (.error error, registry) =>
          (.error error,
            registry.drop (clock 5) (.lease handle target) false)

/-- `append` once it has swept.  A store that fails may have written some of the
bytes. -/
def append (registry : Registry) (now : Instant) (handle : Handle)
    (bytes : List UInt8) (fault : Option Nat) :
    Except HandleError Nat × Registry :=
  match registry.find handle none with
  | .error error => (.error error, registry)
  | .ok entry =>
      let grown := entry.blob.size + bytes.length
      if grown > HANDLE_MAX_BYTES then (.error .tooLarge, registry)
      else
        match registry.fits bytes.length with
        | .error error => (.error error, registry)
        | .ok () =>
            match registry.store.get? handle, fault with
            | none, _ => (.error (.unknown handle), registry)
            | some old, some written =>
                (.error .io,
                  { registry with
                    store := registry.store.put handle
                      (old ++ bytes.take written) })
            | some old, none =>
                (.ok grown,
                  { registry with
                    store := registry.store.put handle (old ++ bytes)
                    held := registry.held.put handle
                      { entry with
                        blob := { entry.blob with size := grown }
                        touched := now } })

/-- `reserve` once it has swept. -/
def reserve (registry : Registry) (now : Instant) (blob : HeldBlob) :
    Except HandleError Handle × Registry :=
  match registry.fits blob.size with
  | .error error => (.error error, registry)
  | .ok () =>
      (.ok registry.minted,
        { registry with
          held := registry.held.put registry.minted ⟨blob, now, 1, false, []⟩
          live := .pin registry.minted :: registry.live
          minted := registry.minted + 1 })

def forget (registry : Registry) (handle : Handle) : Registry :=
  registry.discard handle

/-- A handle is made with the bytes it starts from; nobody can name it before
that is done. -/
def mint (registry : Registry) (clock : Nat → Instant) (mime : String)
    (bytes : List UInt8) (placed : Bool) :
    Except HandleError Handle × Registry :=
  match (registry.sweep (clock 0)).reserve (clock 1) ⟨mime, bytes.length⟩ with
  | (.error error, registry) => (.error error, registry)
  | (.ok handle, registry) =>
      if placed then
        let registry :=
          { registry with store := registry.store.put handle bytes }
        (.ok handle, registry.drop (clock 2) (.pin handle) false)
      else
        (.error .io,
          (registry.forget handle).drop (clock 2) (.pin handle) false)

def create (registry : Registry) (clock : Nat → Instant) (mime : String)
    (placed : Bool) : Except HandleError Handle × Registry :=
  registry.mint clock mime [] placed

/-- `land` of a file that nobody writes to meanwhile. -/
def land (registry : Registry) (clock : Nat → Instant) (mime : String)
    (file : List UInt8) (placed : Bool) :
    Except HandleError Handle × Registry :=
  if file.length > HANDLE_MAX_BYTES then (.error .tooLarge, registry)
  else registry.mint clock mime file placed

end Registry

/-- What happens to the registry, one locked section at a time. -/
inductive Event
  | create (clock : Nat → Instant) (mime : String) (placed : Bool)
  | land (clock : Nat → Instant) (mime : String) (file : List UInt8)
      (placed : Bool)
  | sweep (now : Instant)
  | append (now : Instant) (handle : Handle) (bytes : List UInt8)
      (fault : Option Nat)
  | hold (now : Instant) (handle : Handle) (target : Option PutTarget)
  | drop (now : Instant) (owner : Owner) (stored : Bool)
  | forget (handle : Handle)

def step (registry : Registry) : Event → Registry
  | .create clock mime placed => (registry.create clock mime placed).2
  | .land clock mime file placed => (registry.land clock mime file placed).2
  | .sweep now => registry.sweep now
  | .append now handle bytes fault =>
      (registry.append now handle bytes fault).2
  | .hold now handle target => (registry.hold now handle target).2
  | .drop now owner stored => registry.drop now owner stored
  | .forget handle => registry.forget handle

end Handles

end Bridgething
