/-
The lane scheduler of the link runtime: three queues that share one batch
budget, with credit for the lanes a batch left out.
-/
import Mathlib
import Bridgething.Wire.Frame

namespace Bridgething

namespace Sched

open Wire (Priority)

def USIZE_MAX : Nat := 2 ^ 64 - 1

def saturatingAdd (left right : Nat) : Nat := min (left + right) USIZE_MAX

def saturatingMul (left right : Nat) : Nat := min (left * right) USIZE_MAX

def LANES : List Priority := [.normal, .bulk, .background]

def LANE_RESERVE : Priority → Nat
  | .normal => 70
  | .bulk => 20
  | .background => 10

def laneIndex : Priority → Nat
  | .normal => 0
  | .bulk => 1
  | .background => 2

def allowance (max share : Nat) : Nat :=
  Nat.max (saturatingMul max share / 100) 1

/-- What a lane queues.  A length is a `usize`. -/
class LaneItem (T : Type) where
  len : T → Nat
  len_le : ∀ item, len item ≤ USIZE_MAX

open LaneItem (len)

variable {T : Type} [LaneItem T]

structure Lane (T : Type) where
  queue : List T
  bytes : Nat
  credit : Nat
deriving Repr, DecidableEq

def Lane.new : Lane T := ⟨[], 0, 0⟩

def Lane.headLen (lane : Lane T) : Option Nat := lane.queue.head?.map len

def Lane.push (lane : Lane T) (item : T) : Lane T :=
  { lane with
    bytes := lane.bytes + len item
    queue := lane.queue ++ [item] }

def Lane.pop (lane : Lane T) : Option (T × Lane T) :=
  match lane.queue with
  | [] => none
  | item :: rest =>
      some (item, { lane with queue := rest, bytes := lane.bytes - len item })

structure Batch (T : Type) where
  items : List T
  bytes : Nat
deriving Repr, DecidableEq

/-- The loop of `fill`, over what the lane still queues. -/
def Lane.fillLoop (ceiling credit : Nat) :
    List T → Nat → Batch T → Lane T × Batch T
  | [], bytes, batch => (⟨[], bytes, credit⟩, batch)
  | item :: rest, bytes, batch =>
      let next := batch.bytes + len item
      if ceiling < next then (⟨item :: rest, bytes, credit⟩, batch)
      else
        fillLoop ceiling credit rest (bytes - len item)
          ⟨batch.items ++ [item], next⟩

def Lane.fill (lane : Lane T) (batch : Batch T) (ceiling : Nat) :
    Lane T × Batch T :=
  fillLoop ceiling lane.credit lane.queue lane.bytes batch

/-- The lanes under their priorities. -/
abbrev Lanes (T : Type) := Priority → Lane T

structure LaneScheduler (T : Type) where
  lanes : Lanes T
  maxBatchBytes : Nat
  positive : 0 < maxBatchBytes
  fits : maxBatchBytes ≤ USIZE_MAX

def LaneScheduler.new (maxBatchBytes : Nat) (positive : 0 < maxBatchBytes)
    (fits : maxBatchBytes ≤ USIZE_MAX) : LaneScheduler T :=
  ⟨fun _ => Lane.new, maxBatchBytes, positive, fits⟩

def LaneScheduler.push (sched : LaneScheduler T) (priority : Priority)
    (item : T) : LaneScheduler T :=
  { sched with
    lanes := Function.update sched.lanes priority
      ((sched.lanes priority).push item) }

/-- The lane has credit for its head. -/
def Lane.Owes (lane : Lane T) : Prop :=
  ∃ length, lane.headLen = some length ∧ length ≤ lane.credit

instance (lane : Lane T) : Decidable lane.Owes :=
  match h : lane.headLen with
  | none => .isFalse fun ⟨_, hlength, _⟩ => by simp [h] at hlength
  | some length =>
      if hcredit : length ≤ lane.credit then .isTrue ⟨length, h, hcredit⟩
      else .isFalse fun ⟨other, hother, hle⟩ => by
        rw [h, Option.some.injEq] at hother
        exact hcredit (hother ▸ hle)

def LaneScheduler.owed (sched : LaneScheduler T) : Option Priority :=
  LANES.find? fun priority => (sched.lanes priority).Owes

/-- Pop the first of these lanes that has an item. -/
def popFirst (lanes : Lanes T) : List Priority → Option (T × Lanes T)
  | [] => none
  | priority :: rest =>
      match (lanes priority).pop with
      | some (item, lane) =>
          some (item, Function.update lanes priority lane)
      | none => popFirst lanes rest

def fillLane (priority : Priority) (ceiling : Nat)
    (filling : Lanes T × Batch T) : Lanes T × Batch T :=
  let filled := (filling.1 priority).fill filling.2 ceiling
  (Function.update filling.1 priority filled.1, filled.2)

/-- Each lane in turn, up to its own share of what is left. -/
def fillShares (max : Nat) (filling : Lanes T × Batch T) :
    Lanes T × Batch T :=
  LANES.foldl (fun filling priority =>
    let ceiling := min
      (saturatingAdd filling.2.bytes (allowance max (LANE_RESERVE priority)))
      max
    fillLane priority ceiling filling) filling

/-- Each lane in turn, up to the whole batch. -/
def fillRest (max : Nat) (filling : Lanes T × Batch T) :
    Lanes T × Batch T :=
  LANES.foldl (fun filling priority => fillLane priority max filling) filling

def settle (max : Nat) (held : Priority → Nat) (lanes : Lanes T) : Lanes T :=
  fun priority =>
    let lane := lanes priority
    let served : Bool := lane.queue.length < held priority
    { lane with
      credit :=
        if served ∨ lane.queue = [] then 0
        else saturatingAdd lane.credit
          (allowance max (LANE_RESERVE priority)) }

/-- `None` leaves the scheduler as it was. -/
def LaneScheduler.nextBatch (sched : LaneScheduler T) :
    Option (Batch T × LaneScheduler T) :=
  let max := sched.maxBatchBytes
  let held := fun priority => (sched.lanes priority).queue.length
  let first := sched.owed.getD .normal
  match popFirst sched.lanes (LANES.drop (laneIndex first)) with
  | none => none
  | some (seed, lanes) =>
      let filling := fillShares max (lanes, ⟨[seed], len seed⟩)
      let (lanes, batch) := fillRest max filling
      some (batch, { sched with lanes := settle max held lanes })

end Sched

end Bridgething
