/-
The connection driver: frames of commands stall until their lane has room, the
link is asked for capacity, and responses find the requests that wait for them.
-/
import Bridgething.Lib.Table
import Bridgething.Sched.Conservation

namespace Bridgething

namespace Sched

open Wire (Priority PrioritizedFrame)

def INBOUND_ERROR_LIMIT : Nat := 8

inductive TransportError
  | closed
  | encode (text : String)
  | decode (text : String)
  | io (text : String)
deriving Repr, DecidableEq

inductive MsgMeta (Uuid : Type)
  | command
  | event
  | request
  | response (requestId : Uuid)
deriving Repr, DecidableEq

/-- What the driver is generic over: the meta of inbound messages and the
encoder of the outbound half. -/
structure Transport (Out In Uuid T : Type) where
  inMeta : In → MsgMeta Uuid
  encode : PrioritizedFrame Out → Except TransportError T

/-- A command comes with the sender of its answer, an `ack` or a `reply`. -/
inductive Command (Out Uuid : Type)
  | send (frame : PrioritizedFrame Out)
  | request (id : Uuid) (frame : PrioritizedFrame Out)
  | cancel (id : Uuid)
deriving Repr, DecidableEq

inductive Completion (Uuid : Type)
  | ack
  | request (id : Uuid)
deriving Repr, DecidableEq

/-- The number is the place of the command; it stands for its sender. -/
structure Stalled (Out Uuid : Type) where
  number : Nat
  frame : PrioritizedFrame Out
  completion : Completion Uuid
deriving Repr, DecidableEq

inductive Link (T : Type)
  | idle
  | ready
  | writing (batch : Batch T)
deriving Repr, DecidableEq

/-- What others see of the driver: a frame in its lane, the answer to an `ack`,
the message that a `reply` is sent, and a message for all who subscribe. -/
inductive Effect (In T : Type)
  | pushed (number : Nat) (priority : Priority) (bytes : T)
  | answered (number : Nat) (result : Except TransportError Unit)
  | resolved (number : Nat) (msg : In)
  | broadcast (msg : In)

/-- The driver, with the commands that it took and what it did so far. -/
structure Driver (Out In Uuid T : Type) where
  link : Link T
  pending : Table Uuid Nat
  sched : LaneScheduler T
  stalled : Priority → List (Stalled Out Uuid)
  maxLaneBytes : Nat
  inboundErrors : Nat
  closed : Bool
  commands : List (Command Out Uuid)
  log : List (Effect In T)

inductive Wake (Out In Uuid : Type)
  | link (result : Except TransportError Unit)
  | cmd (command : Option (Command Out Uuid))
  | inbound (msg : Option (Except TransportError In))

variable {Out In Uuid T : Type} [LaneItem T] [DecidableEq Uuid]

def LaneScheduler.isEmpty (sched : LaneScheduler T) : Bool :=
  LANES.all fun priority => (sched.lanes priority).queue.isEmpty

def LaneScheduler.laneBytes (sched : LaneScheduler T) (priority : Priority) :
    Nat :=
  (sched.lanes priority).bytes

namespace Driver

def new (maxBatchBytes : Nat) (positive : 0 < maxBatchBytes)
    (fits : maxBatchBytes ≤ USIZE_MAX) (maxLaneBytes : Nat) :
    Driver Out In Uuid T where
  link := .idle
  pending := []
  sched := LaneScheduler.new maxBatchBytes positive fits
  stalled := fun _ => []
  maxLaneBytes := maxLaneBytes
  inboundErrors := 0
  closed := false
  commands := []
  log := []

def note (driver : Driver Out In Uuid T) (effect : Effect In T) :
    Driver Out In Uuid T :=
  { driver with log := driver.log ++ [effect] }

def stall (driver : Driver Out In Uuid T) (item : Stalled Out Uuid) :
    Driver Out In Uuid T :=
  let lane := item.frame.priority
  { driver with
    stalled := Function.update driver.stalled lane
      (driver.stalled lane ++ [item]) }

/-- What admission does with an item off the front of a lane. -/
def admitItem (transport : Transport Out In Uuid T) (priority : Priority)
    (item : Stalled Out Uuid) (driver : Driver Out In Uuid T) :
    Driver Out In Uuid T :=
  match transport.encode item.frame with
  | .ok bytes =>
      let pushed := Driver.note
        { driver with sched := driver.sched.push priority bytes }
        (.pushed item.number priority bytes)
      match item.completion with
      | .ack => pushed.note (.answered item.number (.ok ()))
      | .request _ => pushed
  | .error err =>
      match item.completion with
      | .ack => driver.note (.answered item.number (.error err))
      | .request id => { driver with pending := driver.pending.remove id }

def pop (transport : Transport Out In Uuid T) (priority : Priority)
    (item : Stalled Out Uuid) (rest : List (Stalled Out Uuid))
    (driver : Driver Out In Uuid T) : Driver Out In Uuid T :=
  admitItem transport priority item
    { driver with stalled := Function.update driver.stalled priority rest }

/-- The inner loop of admission, over what the lane has stalled. -/
def admitLoop (transport : Transport Out In Uuid T) (priority : Priority) :
    List (Stalled Out Uuid) → Driver Out In Uuid T →
      Bool × Driver Out In Uuid T
  | [], driver => (false, driver)
  | item :: rest, driver =>
      if driver.sched.laneBytes priority < driver.maxLaneBytes then
        (true, (admitLoop transport priority rest
          (driver.pop transport priority item rest)).2)
      else (false, driver)

/-- Whether there was progress, and the driver after it. -/
def admitStalled (transport : Transport Out In Uuid T)
    (driver : Driver Out In Uuid T) : Bool × Driver Out In Uuid T :=
  LANES.foldl (fun before priority =>
    let after := admitLoop transport priority (before.2.stalled priority)
      before.2
    (before.1 || after.1, after.2)) (false, driver)

def requestCapacity (driver : Driver Out In Uuid T) :
    Bool × Driver Out In Uuid T :=
  match driver.link with
  | .idle =>
      if driver.sched.isEmpty then (false, driver)
      else (true, { driver with link := .ready })
  | .ready | .writing _ => (false, driver)

/-- One turn of the loops before the driver waits. -/
inductive Move (transport : Transport Out In Uuid T) :
    Driver Out In Uuid T → Driver Out In Uuid T → Prop
  | pop {driver : Driver Out In Uuid T} {priority : Priority}
      {item : Stalled Out Uuid} {rest : List (Stalled Out Uuid)}
      (hroom : driver.sched.laneBytes priority < driver.maxLaneBytes)
      (hstalled : driver.stalled priority = item :: rest) :
      Move transport driver (driver.pop transport priority item rest)
  | ask {driver : Driver Out In Uuid T} (hidle : driver.link = .idle) :
      Move transport driver { driver with link := .ready }

/-- What a loop answers: with progress there was a move, else nothing is
changed. -/
def Progressed (transport : Transport Out In Uuid T)
    (before : Driver Out In Uuid T) (after : Bool × Driver Out In Uuid T) :
    Prop :=
  (after.1 = true ∧ Relation.TransGen (Move transport) before after.2) ∨
    (after.1 = false ∧ after.2 = before)

/-- How many turns the loops have left at most. -/
def turns (driver : Driver Out In Uuid T) : Nat :=
  (driver.stalled .normal).length + (driver.stalled .bulk).length +
    (driver.stalled .background).length +
    match driver.link with
    | .idle => 1
    | .ready | .writing _ => 0

@[simp] theorem admitItem_stalled (transport : Transport Out In Uuid T)
    (priority : Priority) (item : Stalled Out Uuid)
    (driver : Driver Out In Uuid T) :
    (driver.admitItem transport priority item).stalled = driver.stalled := by
  unfold admitItem
  split <;> split <;> rfl

@[simp] theorem admitItem_link (transport : Transport Out In Uuid T)
    (priority : Priority) (item : Stalled Out Uuid)
    (driver : Driver Out In Uuid T) :
    (driver.admitItem transport priority item).link = driver.link := by
  unfold admitItem
  split <;> split <;> rfl

theorem Move.turns {transport : Transport Out In Uuid T}
    {before after : Driver Out In Uuid T} (h : Move transport before after) :
    after.turns < before.turns := by
  cases h with
  | @pop priority item rest hroom hstalled =>
      cases priority <;>
        simp [Driver.turns, Driver.pop, Function.update, hstalled]
  | ask hidle => simp [Driver.turns, hidle]

theorem admitLoop_progressed (transport : Transport Out In Uuid T)
    {priority : Priority} {items : List (Stalled Out Uuid)}
    {driver : Driver Out In Uuid T} (h : driver.stalled priority = items) :
    Progressed transport driver
      (admitLoop transport priority items driver) := by
  induction items generalizing driver with
  | nil => exact Or.inr ⟨rfl, rfl⟩
  | cons item rest ih =>
      rw [admitLoop]
      split
      · rename_i hroom
        have hmove : Move transport driver
            (driver.pop transport priority item rest) := Move.pop hroom h
        have hleft : (driver.pop transport priority item rest).stalled
            priority = rest := by
          simp [Driver.pop]
        refine Or.inl ⟨rfl, ?_⟩
        rcases ih hleft with ⟨_, hmoves⟩ | ⟨_, hsame⟩
        · exact Relation.TransGen.head hmove hmoves
        · rw [hsame]
          exact Relation.TransGen.single hmove
      · exact Or.inr ⟨rfl, rfl⟩

theorem Progressed.trans {transport : Transport Out In Uuid T}
    {driver : Driver Out In Uuid T}
    {middle after : Bool × Driver Out In Uuid T}
    (hfirst : Progressed transport driver middle)
    (hrest : Progressed transport middle.2 after) :
    Progressed transport driver (middle.1 || after.1, after.2) := by
  rcases hfirst with ⟨htrue, hmoves⟩ | ⟨hfalse, hsame⟩
  · refine Or.inl ⟨by rw [htrue, Bool.true_or], ?_⟩
    rcases hrest with ⟨_, hmore⟩ | ⟨_, hend⟩
    · exact hmoves.trans hmore
    · rw [hend]
      exact hmoves
  · rw [hfalse, Bool.false_or]
    rw [hsame] at hrest
    exact hrest

theorem admitStalled_progressed (transport : Transport Out In Uuid T)
    (driver : Driver Out In Uuid T) :
    Progressed transport driver (driver.admitStalled transport) := by
  have hfold : ∀ (lanes : List Priority)
      (before : Bool × Driver Out In Uuid T),
      Progressed transport driver before →
      Progressed transport driver (lanes.foldl (fun before priority =>
        let after := admitLoop transport priority
          (before.2.stalled priority) before.2
        (before.1 || after.1, after.2)) before) := by
    intro lanes
    induction lanes with
    | nil => exact fun _ hbefore => hbefore
    | cons priority rest ih =>
        intro before hbefore
        exact ih _ (hbefore.trans (admitLoop_progressed transport rfl))
  exact hfold LANES (false, driver) (Or.inr ⟨rfl, rfl⟩)

theorem requestCapacity_progressed (transport : Transport Out In Uuid T)
    (driver : Driver Out In Uuid T) :
    Progressed transport driver driver.requestCapacity := by
  unfold requestCapacity
  split
  · rename_i hidle
    split
    · exact Or.inr ⟨rfl, rfl⟩
    · exact Or.inl ⟨rfl, Relation.TransGen.single (Move.ask hidle)⟩
  · exact Or.inr ⟨rfl, rfl⟩
  · exact Or.inr ⟨rfl, rfl⟩

theorem turns_of_moves {transport : Transport Out In Uuid T}
    {before after : Driver Out In Uuid T}
    (h : Relation.TransGen (Move transport) before after) :
    after.turns < before.turns := by
  induction h with
  | single hmove => exact hmove.turns
  | tail _ hmove ih => exact hmove.turns.trans ih

theorem Progressed.turns {transport : Transport Out In Uuid T}
    {before : Driver Out In Uuid T} {after : Bool × Driver Out In Uuid T}
    (h : Progressed transport before after) (hafter : after.1 = true) :
    after.2.turns < before.turns := by
  rcases h with ⟨_, hmoves⟩ | ⟨hfalse, _⟩
  · exact turns_of_moves hmoves
  · rw [hfalse] at hafter
    contradiction

/-- Admission and the request for capacity, in turn. -/
def admitAndAsk (transport : Transport Out In Uuid T)
    (driver : Driver Out In Uuid T) : Bool × Driver Out In Uuid T :=
  let admitted := driver.admitStalled transport
  let asked := admitted.2.requestCapacity
  (admitted.1 || asked.1, asked.2)

theorem admitAndAsk_progressed (transport : Transport Out In Uuid T)
    (driver : Driver Out In Uuid T) :
    Progressed transport driver (driver.admitAndAsk transport) :=
  (admitStalled_progressed transport driver).trans
    (requestCapacity_progressed transport _)

/-- The loop before the driver waits: until neither makes progress. -/
def settle (transport : Transport Out In Uuid T)
    (driver : Driver Out In Uuid T) : Driver Out In Uuid T :=
  let after := driver.admitAndAsk transport
  if _h : after.1 = true then settle transport after.2 else after.2
termination_by driver.turns
decreasing_by exact (admitAndAsk_progressed transport driver).turns _h

def close (driver : Driver Out In Uuid T) : Driver Out In Uuid T :=
  { driver with pending := [], closed := true }

def take (driver : Driver Out In Uuid T) (command : Command Out Uuid) :
    Driver Out In Uuid T :=
  let number := driver.commands.length
  let taken := { driver with commands := driver.commands ++ [command] }
  match command with
  | .send frame => taken.stall ⟨number, frame, .ack⟩
  | .request id frame =>
      Driver.stall { taken with pending := taken.pending.put id number }
        ⟨number, frame, .request id⟩
  | .cancel id => { taken with pending := taken.pending.remove id }

def routeInbound (transport : Transport Out In Uuid T)
    (driver : Driver Out In Uuid T) (msg : In) : Driver Out In Uuid T :=
  match transport.inMeta msg with
  | .response requestId =>
      match driver.pending.get? requestId with
      | some number =>
          Driver.note
            { driver with pending := driver.pending.remove requestId }
            (.resolved number msg)
      | none => driver.note (.broadcast msg)
  | .command | .event | .request => driver.note (.broadcast msg)

/-- The link is ready for a batch, or has written one. -/
def linkDone (driver : Driver Out In Uuid T) : Driver Out In Uuid T :=
  match driver.link with
  | .ready =>
      match driver.sched.nextBatch with
      | some (batch, sched) =>
          { driver with link := .writing batch, sched := sched }
      | none => { driver with link := .idle }
  | .writing _ | .idle => { driver with link := .idle }

def inboundFailed (driver : Driver Out In Uuid T) (err : TransportError) :
    Driver Out In Uuid T :=
  if err = .closed then driver.close
  else
    let inboundErrors := driver.inboundErrors + 1
    let failed := { driver with inboundErrors := inboundErrors }
    if INBOUND_ERROR_LIMIT ≤ inboundErrors then failed.close else failed

/-- What the driver does with what woke it. -/
def react (transport : Transport Out In Uuid T)
    (driver : Driver Out In Uuid T) :
    Wake Out In Uuid → Driver Out In Uuid T
  | .link (.ok ()) => driver.linkDone
  | .link (.error _) => driver.close
  | .cmd (some command) => driver.take command
  | .cmd none => driver.close
  | .inbound (some (.ok msg)) =>
      routeInbound transport { driver with inboundErrors := 0 } msg
  | .inbound (some (.error err)) => driver.inboundFailed err
  | .inbound none => driver.close

/-- From one wait to the next.  Nothing wakes a driver that has ended. -/
def turn (transport : Transport Out In Uuid T)
    (driver : Driver Out In Uuid T) (wake : Wake Out In Uuid) :
    Driver Out In Uuid T :=
  if driver.closed then driver
  else
    let after := driver.react transport wake
    if after.closed then after else after.settle transport

theorem settle_moves (transport : Transport Out In Uuid T)
    (driver : Driver Out In Uuid T) :
    Relation.ReflTransGen (Move transport) driver
      (driver.settle transport) := by
  induction hturns : driver.turns using Nat.strongRecOn
    generalizing driver with
  | ind count ih =>
      subst hturns
      have hprogress := admitAndAsk_progressed transport driver
      rw [settle]
      split
      · rename_i hagain
        have hrest := ih _ (hprogress.turns hagain) _ rfl
        rcases hprogress with ⟨_, hmoves⟩ | ⟨_, hsame⟩
        · exact hmoves.to_reflTransGen.trans hrest
        · rw [hsame] at hrest ⊢
          exact hrest
      · rename_i hdone
        rcases hprogress with ⟨htrue, _⟩ | ⟨_, hsame⟩
        · exact absurd htrue hdone
        · rw [hsame]

end Driver

end Sched

end Bridgething
