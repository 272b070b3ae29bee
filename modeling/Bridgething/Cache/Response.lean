/-
Responses served from the disk while they are fetched again: calls, the
refreshes they start or join, and the store they share, in any interleaving.
-/
import Bridgething.Lib.Table

namespace Bridgething

namespace Cache

universe u v

abbrev Bytes := List UInt8

/-- A scope and the serialised key. -/
abbrev Slot := String × String

def scopeDir (scope : String) : String :=
  String.ofList (scope.toList.map fun c =>
    if c.isAlphanum || c == '-' then c else '_')

/-- Where a slot's entry is stored. -/
def relative (digest : String → String) (slot : Slot) : String × String :=
  (scopeDir slot.1, digest slot.2)

inductive Handoff (T : Type u) (E : Type v)
  | waiting
  | abandoned
  | done (result : Except E T)

/-- How far a refresh's task is. -/
inductive Phase (T : Type u) (E : Type v)
  | fetching
  | storing (fresh : T) (bytes : Bytes)
  | leaving (fresh : Except E T) (differs : Bool)
  | handing (fresh : Except E T) (differs : Bool)
  | announcing (differs abandoned : Bool)
  | finished (changed : Bool)

structure Refresh (T : Type u) (E : Type v) where
  slot : Slot
  staleBytes : Bytes
  staleServed : Bool
  handoff : Handoff T E
  phase : Phase T E
  /-- What callers were served from the store while it was in progress, and its
  own caller when that gave up on it. -/
  served : List Bytes
  /-- What it put in the store. -/
  landed : Option Bytes

/-- A call of `revalidate`, by the point at which it awaits. -/
inductive Caller (T : Type u) (E : Type v)
  | direct
  | reading (slot : Slot)
  | fetching (slot : Slot)
  | storing (slot : Slot) (value : T)
  | found (slot : Slot) (stale : T) (bytes : Bytes)
  | waiting (refresh : Nat) (stale : T)
  | returned (result : Except E T)

structure ResponseCache (T : Type u) (E : Type v) where
  disk : Table (String × String) Bytes
  refreshing : Table Slot Nat
  refreshes : List (Refresh T E)
  callers : List (Caller T E)

/-- What happens next: to a call, to a refresh, or to an entry on the disk. -/
inductive Event (T : Type u) (E : Type v)
  | call (scope : String) (key : Option String)
  | read (caller : Nat)
  | fetched (caller : Nat) (result : Except E T)
  | put (caller : Nat) (kept : Bool)
  | serve (caller : Nat) (online : Bool)
  | wake (caller : Nat)
  | land (refresh : Nat) (result : Except E T)
  | store (refresh : Nat) (kept : Bool)
  | leave (refresh : Nat)
  | hand (refresh : Nat)
  | announce (refresh : Nat)
  | lose (path : String × String)

variable {T : Type u} {E : Type v}

namespace Refresh

def new (slot : Slot) (staleBytes : Bytes) : Refresh T E where
  slot := slot
  staleBytes := staleBytes
  staleServed := false
  handoff := .waiting
  phase := .fetching
  served := []
  landed := none

/-- A caller is served while the refresh is in progress. -/
def serve (refresh : Refresh T E) (online : Bool) (bytes : Bytes) :
    Refresh T E :=
  { refresh with
    staleServed := refresh.staleServed || online
    served := refresh.served ++ [bytes] }

/-- The fetch is done. -/
def land (encode : T → Option Bytes) (refresh : Refresh T E)
    (result : Except E T) : Refresh T E :=
  match refresh.phase with
  | .fetching =>
      match result with
      | .ok fresh =>
          match encode fresh with
          | some bytes => { refresh with phase := .storing fresh bytes }
          | none => { refresh with phase := .leaving result false }
      | .error _ => { refresh with phase := .leaving result false }
  | _ => refresh

/-- The store has what was fetched. -/
def store (refresh : Refresh T E) : Refresh T E :=
  match refresh.phase with
  | .storing fresh bytes => { refresh with
      phase := .leaving (.ok fresh) (bytes != refresh.staleBytes)
      landed := some bytes }
  | _ => refresh

/-- The slot is free for the next. -/
def leave (refresh : Refresh T E) : Refresh T E :=
  match refresh.phase with
  | .leaving fresh differs => { refresh with phase := .handing fresh differs }
  | _ => refresh

/-- The caller that waits gets what was fetched, if it still waits. -/
def hand (refresh : Refresh T E) : Refresh T E :=
  match refresh.phase with
  | .handing fresh differs =>
      match refresh.handoff with
      | .waiting => { refresh with
          handoff := .done fresh
          phase := .announcing differs false }
      | _ => { refresh with phase := .announcing differs true }
  | _ => refresh

def announce (refresh : Refresh T E) : Refresh T E :=
  match refresh.phase with
  | .announcing differs abandoned => { refresh with
      phase := .finished (differs && (abandoned || refresh.staleServed)) }
  | _ => refresh

/-- The caller no longer waits.  It is served what it has when there is nothing
else. -/
def abandon (refresh : Refresh T E) : Refresh T E :=
  match refresh.handoff with
  | .waiting => { refresh with
      handoff := .abandoned
      served := refresh.served ++ [refresh.staleBytes] }
  | _ => { refresh with handoff := .abandoned }

/-- What a call that waited for the refresh returns. -/
def outcome (refresh : Refresh T E) (stale : T) : Except E T :=
  match refresh.handoff with
  | .done (.ok fresh) => .ok fresh
  | _ => .ok stale

end Refresh

namespace ResponseCache

def new (disk : Table (String × String) Bytes) : ResponseCache T E where
  disk := disk
  refreshing := []
  refreshes := []
  callers := []

def setCaller (cache : ResponseCache T E) (caller : Nat) (state : Caller T E) :
    ResponseCache T E :=
  { cache with callers := cache.callers.set caller state }

def setRefresh (cache : ResponseCache T E) (place : Nat)
    (change : Refresh T E → Refresh T E) : ResponseCache T E :=
  { cache with refreshes := cache.refreshes.modify place change }

variable (digest : String → String) (encode : T → Option Bytes)
  (decode : Bytes → Option T)

/-- A call looks for its slot on the disk. -/
def read (cache : ResponseCache T E) (caller : Nat) (slot : Slot) :
    ResponseCache T E :=
  match cache.disk.get? (relative digest slot) with
  | none => cache.setCaller caller (.fetching slot)
  | some bytes =>
      match decode bytes with
      | some stale => cache.setCaller caller (.found slot stale bytes)
      | none => { cache with
          disk := cache.disk.remove (relative digest slot)
          : ResponseCache T E }.setCaller caller (.fetching slot)

/-- A call that found an entry is served it offline or while a refresh runs,
else it starts one. -/
def serve (cache : ResponseCache T E) (caller : Nat) (slot : Slot)
    (stale : T) (bytes : Bytes) (online : Bool) : ResponseCache T E :=
  match cache.refreshing.get? slot with
  | some running =>
      (cache.setRefresh running fun refresh =>
        refresh.serve online bytes).setCaller caller (.returned (.ok stale))
  | none =>
      if online then
        { cache with
          refreshing := cache.refreshing.put slot cache.refreshes.length
          refreshes := cache.refreshes ++ [.new slot bytes]
          : ResponseCache T E }.setCaller caller
          (.waiting cache.refreshes.length stale)
      else cache.setCaller caller (.returned (.ok stale))

/-- What a call that found no entry fetched is stored, and returned. -/
def fetched (cache : ResponseCache T E) (caller : Nat) (slot : Slot)
    (result : Except E T) : ResponseCache T E :=
  match result with
  | .error _ => cache.setCaller caller (.returned result)
  | .ok value =>
      if (encode value).isSome then cache.setCaller caller (.storing slot value)
      else cache.setCaller caller (.returned result)

def write (cache : ResponseCache T E) (slot : Slot) (bytes : Option Bytes)
    (kept : Bool) : ResponseCache T E :=
  match bytes with
  | some bytes =>
      if kept then
        { cache with disk := cache.disk.put (relative digest slot) bytes }
      else cache
  | none => cache

def step (cache : ResponseCache T E) : Event T E → ResponseCache T E
  | .call scope key => { cache with
      callers := cache.callers ++
        [key.elim .direct fun key => .reading (scope, key)] }
  | .read caller =>
      match cache.callers[caller]? with
      | some (.reading slot) => cache.read digest decode caller slot
      | _ => cache
  | .fetched caller result =>
      match cache.callers[caller]? with
      | some .direct => cache.setCaller caller (.returned result)
      | some (.fetching slot) => cache.fetched encode caller slot result
      | _ => cache
  | .put caller kept =>
      match cache.callers[caller]? with
      | some (.storing slot value) =>
          (cache.write digest slot (encode value) kept).setCaller caller
            (.returned (.ok value))
      | _ => cache
  | .serve caller online =>
      match cache.callers[caller]? with
      | some (.found slot stale bytes) =>
          cache.serve caller slot stale bytes online
      | _ => cache
  | .wake caller =>
      match cache.callers[caller]? with
      | some (.waiting running stale) =>
          match cache.refreshes[running]? with
          | some refresh =>
              (cache.setRefresh running Refresh.abandon).setCaller caller
                (.returned (refresh.outcome stale))
          | none => cache
      | _ => cache
  | .land running result =>
      cache.setRefresh running fun refresh => refresh.land encode result
  | .store running kept =>
      match cache.refreshes[running]? with
      | some refresh =>
          match refresh.phase with
          | .storing _ bytes =>
              (cache.write digest refresh.slot (some bytes) kept).setRefresh
                running Refresh.store
          | _ => cache
      | none => cache
  | .leave running =>
      match cache.refreshes[running]? with
      | some refresh =>
          match refresh.phase with
          | .leaving _ _ => { cache with
              refreshing := cache.refreshing.remove refresh.slot
              : ResponseCache T E }.setRefresh running Refresh.leave
          | _ => cache
      | none => cache
  | .hand running => cache.setRefresh running Refresh.hand
  | .announce running => cache.setRefresh running Refresh.announce
  | .lose path => { cache with disk := cache.disk.remove path }

end ResponseCache

end Cache

end Bridgething
