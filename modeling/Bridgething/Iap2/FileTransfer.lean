/-
File transfers over a link session: a setup declares a size and a type, the data
follows in datagrams, and the whole is handed up once the last one has come.
-/
import Bridgething.Iap2.Frame
import Bridgething.Lib.BigEndian
import Bridgething.Lib.Projection
import Bridgething.Lib.Table

namespace Bridgething

namespace Iap2

def OP_DATA : UInt8 := 0x00

def OP_SETUP_ACK : UInt8 := 0x01

def OP_CANCEL : UInt8 := 0x02

def OP_PAUSE : UInt8 := 0x03

def OP_SETUP : UInt8 := 0x04

def OP_COMPLETE_ACK : UInt8 := 0x05

def OP_LAST_DATA : UInt8 := 0x40

def OP_FIRST_DATA : UInt8 := 0x80

def OP_FIRST_AND_ONLY : UInt8 := 0xC0

def FILE_TYPE_ARTWORK : UInt16 := 2

structure FileInFlight where
  buffer : Bytes
  declaredSize : Nat
  fileType : UInt16
deriving Repr, DecidableEq

inductive SessionEvent
  | artworkBytes (transferId : UInt8) (bytes : Bytes)
  | queueSnapshotBytes (transferId : UInt8) (bytes : Bytes)
deriving Repr, DecidableEq

namespace SessionEvent

def transferId : SessionEvent → UInt8
  | .artworkBytes transferId _ => transferId
  | .queueSnapshotBytes transferId _ => transferId

def bytes : SessionEvent → Bytes
  | .artworkBytes _ bytes => bytes
  | .queueSnapshotBytes _ bytes => bytes

end SessionEvent

namespace FileInFlight

/-- What a complete transfer is handed up as. -/
def event (id : UInt8) (state : FileInFlight) : SessionEvent :=
  if state.fileType = FILE_TYPE_ARTWORK then .artworkBytes id state.buffer
  else .queueSnapshotBytes id state.buffer

@[simp] theorem event_transferId (id : UInt8) (state : FileInFlight) :
    (state.event id).transferId = id := by
  unfold event
  split
  · rfl
  · rfl

@[simp] theorem event_bytes (id : UInt8) (state : FileInFlight) :
    (state.event id).bytes = state.buffer := by
  unfold event
  split
  · rfl
  · rfl

end FileInFlight

/-- What a packet makes the flow send over the link and hand up, and whether the
link turned out to be closed. -/
structure FileReply where
  sent : List Bytes
  events : List SessionEvent
  linkClosed : Bool
deriving Repr, DecidableEq

def FileReply.nothing : FileReply := ⟨[], [], false⟩

structure FileTransferFlow where
  inFlight : Table UInt8 FileInFlight
deriving Repr, DecidableEq

/-- The size and the type that a setup declares, with a reserved byte between
them or without. -/
def parseSetup (rest : Bytes) : Option (Nat × UInt16) :=
  if rest.length = 11 then
    some (BigEndian.ofBytes (rest.take 8),
      UInt16.ofNat (BigEndian.ofBytes (rest.drop 9)))
  else if rest.length = 10 then
    some (BigEndian.ofBytes (rest.take 8),
      UInt16.ofNat (BigEndian.ofBytes (rest.drop 8)))
  else none

namespace FileTransferFlow

def new : FileTransferFlow := ⟨[]⟩

def sendOp (linkOpen : Bool) (id op : UInt8) : FileReply :=
  if linkOpen then ⟨[[id, op]], [], false⟩ else ⟨[], [], true⟩

def handleSetup (flow : FileTransferFlow) (linkOpen : Bool) (id : UInt8)
    (rest : Bytes) : FileTransferFlow × FileReply :=
  match parseSetup rest with
  | none => (flow, .nothing)
  | some (declaredSize, fileType) =>
      (⟨flow.inFlight.put id ⟨[], declaredSize, fileType⟩⟩,
        sendOp linkOpen id OP_SETUP_ACK)

/-- The answer to the last datagram of a transfer, and the body. -/
def completed (linkOpen : Bool) (id : UInt8) (state : FileInFlight) :
    FileReply :=
  if linkOpen then ⟨[[id, OP_COMPLETE_ACK]], [state.event id], false⟩
  else ⟨[], [], true⟩

def complete (flow : FileTransferFlow) (linkOpen : Bool) (id : UInt8) :
    FileTransferFlow × FileReply :=
  match flow.inFlight.get? id with
  | none => (flow, .nothing)
  | some state =>
      (⟨flow.inFlight.remove id⟩, completed linkOpen id state)

/-- The one datagram of a transfer that has no other.  Nothing compares its
length with the declared size. -/
def handleFirstAndOnly (flow : FileTransferFlow) (linkOpen : Bool)
    (id : UInt8) (body : Bytes) : FileTransferFlow × FileReply :=
  match flow.inFlight.get? id with
  | none => (flow, .nothing)
  | some state =>
      complete ⟨flow.inFlight.put id { state with buffer := body }⟩ linkOpen id

def handleChunk (flow : FileTransferFlow) (linkOpen : Bool) (id : UInt8)
    (body : Bytes) (first last : Bool) : FileTransferFlow × FileReply :=
  match flow.inFlight.get? id with
  | none => (flow, .nothing)
  | some state =>
      let buffer := if first then [] else state.buffer
      if buffer.length + body.length > state.declaredSize then
        (⟨flow.inFlight.remove id⟩, .nothing)
      else
        let flow : FileTransferFlow :=
          ⟨flow.inFlight.put id { state with buffer := buffer ++ body }⟩
        if last then flow.complete linkOpen id else (flow, .nothing)

def dispatchLinkData (flow : FileTransferFlow) (linkOpen : Bool) :
    Bytes → FileTransferFlow × FileReply
  | id :: op :: rest =>
      if op = OP_SETUP then flow.handleSetup linkOpen id rest
      else if op = OP_FIRST_AND_ONLY then
        flow.handleFirstAndOnly linkOpen id rest
      else if op = OP_FIRST_DATA then
        flow.handleChunk linkOpen id rest true false
      else if op = OP_DATA then flow.handleChunk linkOpen id rest false false
      else if op = OP_LAST_DATA then
        flow.handleChunk linkOpen id rest false true
      else if op = OP_CANCEL then (⟨flow.inFlight.remove id⟩, .nothing)
      else (flow, .nothing)
  | _ => (flow, .nothing)

/-- A packet and whether the link is open to an answer, the flow after it and
what is handed up. -/
def step (flow : FileTransferFlow) (input : Bool × Bytes) :
    FileTransferFlow × List SessionEvent :=
  let result := flow.dispatchLinkData input.1 input.2
  (result.1, result.2.events)

end FileTransferFlow

/-! ### The sending side -/

/-- A file; no buffer is as long as `2 ^ 63`. -/
structure FileBody where
  bytes : Bytes
  fits : bytes.length < 2 ^ 63

def PER_PACKET_OVERHEAD : Nat := LINK_HEADER_LEN + 1 + 2

structure DeviceFileTransfer where
  chunkBudget : Nat
  pending : Table UInt8 Bytes
deriving Repr, DecidableEq

namespace DeviceFileTransfer

def new (peerMaxLen : UInt16) : DeviceFileTransfer where
  chunkBudget := max (peerMaxLen.toNat - PER_PACKET_OVERHEAD) 1
  pending := []

/-- The packet that declares a file, which is kept until the peer agrees. -/
def beginArtwork (device : DeviceFileTransfer) (transferId : UInt8)
    (body : Bytes) : DeviceFileTransfer × Bytes :=
  ({ device with pending := device.pending.put transferId body },
    transferId :: OP_SETUP :: (BigEndian.toBytes 8 body.length ++
      BigEndian.toBytes 2 FILE_TYPE_ARTWORK.toNat))

def frame (id op : UInt8) (body : Bytes) : Bytes :=
  id :: op :: body

/-- What follows the first datagram.  Each turn of the loop takes at least one
byte. -/
def laterFrames (chunkBudget : Nat) (id : UInt8) : Nat → Bytes → List Bytes
  | 0, _ => []
  | fuel + 1, remaining =>
      if remaining.length > chunkBudget then
        frame id OP_DATA (remaining.take chunkBudget) ::
          laterFrames chunkBudget id fuel (remaining.drop chunkBudget)
      else [frame id OP_LAST_DATA remaining]

def sendBody (device : DeviceFileTransfer) (id : UInt8) :
    DeviceFileTransfer × List Bytes :=
  match device.pending.get? id with
  | none => (device, [])
  | some body =>
      let budget := device.chunkBudget
      ({ device with pending := device.pending.remove id },
        if body.length ≤ budget then [frame id OP_FIRST_AND_ONLY body]
        else
          frame id OP_FIRST_DATA (body.take budget) ::
            laterFrames budget id body.length (body.drop budget))

/-- The packets an answer of the peer lets out, and the transfer it confirms. -/
def onLinkData (device : DeviceFileTransfer) :
    Bytes → DeviceFileTransfer × List Bytes × Option UInt8
  | id :: op :: _ =>
      if op = OP_SETUP_ACK then
        let (device, packets) := device.sendBody id
        (device, packets, none)
      else if op = OP_COMPLETE_ACK then (device, [], some id)
      else (device, [], none)
  | _ => (device, [], none)

/-- All packets of a transfer: its setup, and what the answer to it lets out. -/
def outbound (device : DeviceFileTransfer) (id : UInt8) (body : Bytes) :
    List Bytes :=
  let (device, setup) := device.beginArtwork id body
  setup :: (device.onLinkData [id, OP_SETUP_ACK]).2.1

end DeviceFileTransfer

/-! ### One transfer on its own -/

namespace FileInFlight

/-- A transfer that data comes for, and what is handed up. -/
def trackChunk (id : UInt8) (linkOpen : Bool) (body : Bytes)
    (first last : Bool) :
    Option FileInFlight → Option FileInFlight × List SessionEvent
  | none => (none, [])
  | some state =>
      let buffer := if first then [] else state.buffer
      if buffer.length + body.length > state.declaredSize then (none, [])
      else
        let state := { state with buffer := buffer ++ body }
        if last then
          (none, (FileTransferFlow.completed linkOpen id state).events)
        else (some state, [])

/-- A transfer that a packet comes for, and what is handed up. -/
def track (id : UInt8) (entry : Option FileInFlight) :
    Bool × Bytes → Option FileInFlight × List SessionEvent
  | (linkOpen, _ :: op :: rest) =>
      if op = OP_SETUP then
        match parseSetup rest with
        | none => (entry, [])
        | some (declaredSize, fileType) =>
            (some ⟨[], declaredSize, fileType⟩, [])
      else if op = OP_FIRST_AND_ONLY then
        match entry with
        | none => (none, [])
        | some state =>
            (none, (FileTransferFlow.completed linkOpen id
              { state with buffer := rest }).events)
      else if op = OP_FIRST_DATA then
        trackChunk id linkOpen rest true false entry
      else if op = OP_DATA then trackChunk id linkOpen rest false false entry
      else if op = OP_LAST_DATA then
        trackChunk id linkOpen rest false true entry
      else if op = OP_CANCEL then (none, [])
      else (entry, [])
  | _ => (entry, [])

end FileInFlight

namespace FileTransferFlow

/-- The packet was one of a single transfer, and this is what came of it. -/
structure Handled (flow : FileTransferFlow) (id : UInt8)
    (tracked : Option FileInFlight × List SessionEvent)
    (result : FileTransferFlow × FileReply) : Prop where
  entry : result.1.inFlight.get? id = tracked.1
  events : result.2.events = tracked.2
  ours : ∀ event ∈ tracked.2, event.transferId = id
  others : ∀ other, other ≠ id →
    result.1.inFlight.get? other = flow.inFlight.get? other

variable {flow : FileTransferFlow} {id : UInt8}

theorem mem_completed {linkOpen : Bool} {id : UInt8} {state : FileInFlight}
    {event : SessionEvent} :
    event ∈ (completed linkOpen id state).events ↔
      linkOpen = true ∧ event = state.event id := by
  unfold completed
  split
  · rename_i hopen
    simp [hopen]
  · rename_i hclosed
    simp [hclosed]

theorem Handled.unmoved {found : Option FileInFlight}
    (hfound : flow.inFlight.get? id = found) :
    Handled flow id (found, []) (flow, .nothing) where
  entry := hfound
  events := rfl
  ours := fun _ => (nomatch ·)
  others := fun _ _ => rfl

theorem Handled.removed (flow : FileTransferFlow) (id : UInt8) :
    Handled flow id (none, []) (⟨flow.inFlight.remove id⟩, .nothing) where
  entry := Table.get?_remove_self flow.inFlight id
  events := rfl
  ours := fun _ => (nomatch ·)
  others := fun _ hother => Table.get?_remove_of_ne flow.inFlight hother

theorem Handled.put (flow : FileTransferFlow) (id : UInt8)
    (state : FileInFlight) {reply : FileReply} (hreply : reply.events = []) :
    Handled flow id (some state, []) (⟨flow.inFlight.put id state⟩, reply) where
  entry := Table.get?_put_self flow.inFlight id state
  events := hreply
  ours := fun _ => (nomatch ·)
  others := fun _ hother => Table.get?_put_of_ne flow.inFlight state hother

theorem Handled.complete (flow : FileTransferFlow) (id : UInt8)
    (state : FileInFlight) (linkOpen : Bool) :
    Handled flow id (none, (completed linkOpen id state).events)
      (FileTransferFlow.complete ⟨flow.inFlight.put id state⟩ linkOpen id) := by
  unfold FileTransferFlow.complete
  rw [Table.get?_put_self]
  exact
    { entry := Table.get?_remove_self _ id
      events := rfl
      ours := by
        intro event hevent
        rw [(mem_completed.mp hevent).2, FileInFlight.event_transferId]
      others := fun _ hother =>
        (Table.get?_remove_of_ne _ hother).trans
          (Table.get?_put_of_ne flow.inFlight state hother) }

theorem handled_setup (flow : FileTransferFlow) (linkOpen : Bool) (id : UInt8)
    (rest : Bytes) :
    Handled flow id
      (match parseSetup rest with
        | none => (flow.inFlight.get? id, [])
        | some (declaredSize, fileType) =>
            (some ⟨[], declaredSize, fileType⟩, []))
      (flow.handleSetup linkOpen id rest) := by
  unfold handleSetup
  split
  · exact .unmoved rfl
  · refine .put flow id _ ?_
    unfold sendOp
    split
    · rfl
    · rfl

theorem handled_chunk (flow : FileTransferFlow) (linkOpen : Bool) (id : UInt8)
    (body : Bytes) (first last : Bool) :
    Handled flow id
      (FileInFlight.trackChunk id linkOpen body first last
        (flow.inFlight.get? id))
      (flow.handleChunk linkOpen id body first last) := by
  unfold handleChunk FileInFlight.trackChunk
  split
  · rename_i hnone
    exact .unmoved hnone
  · rename_i state hstate
    dsimp only
    generalize (if first = true then [] else state.buffer) = buffer
    split
    · exact .removed flow id
    · split
      · exact .complete flow id _ linkOpen
      · exact .put flow id _ rfl

theorem handled_dispatch (flow : FileTransferFlow) (linkOpen : Bool)
    (id op : UInt8) (rest : Bytes) :
    Handled flow id
      (FileInFlight.track id (flow.inFlight.get? id)
        (linkOpen, id :: op :: rest))
      (flow.dispatchLinkData linkOpen (id :: op :: rest)) := by
  unfold dispatchLinkData FileInFlight.track
  dsimp only
  split
  · exact handled_setup flow linkOpen id rest
  · split
    · unfold handleFirstAndOnly
      split
      · rename_i hnone
        exact .unmoved hnone
      · exact .complete flow id _ linkOpen
    · split
      · exact handled_chunk flow linkOpen id rest true false
      · split
        · exact handled_chunk flow linkOpen id rest false false
        · split
          · exact handled_chunk flow linkOpen id rest false true
          · split
            · exact .removed flow id
            · exact .unmoved rfl

/-- Whether a packet is one of a transfer. -/
def packetOf (id : UInt8) (input : Bool × Bytes) : Bool :=
  input.2.head? = some id

def eventOf (id : UInt8) (event : SessionEvent) : Bool :=
  event.transferId = id

/-- Each transfer goes its own way, whatever comes in between. -/
theorem part (id : UInt8) :
    Projection.Part step (FileInFlight.track id)
      (fun flow => flow.inFlight.get? id) (packetOf id) (eventOf id) where
  moves := by
    rintro flow ⟨linkOpen, payload⟩ hmine
    match payload with
    | [] => nomatch hmine
    | [first] => exact ⟨rfl, rfl⟩
    | first :: op :: rest =>
        obtain rfl : first = id := by simpa [packetOf] using hmine
        have hhandled := handled_dispatch flow linkOpen first op rest
        refine ⟨hhandled.entry, ?_⟩
        dsimp only [step]
        rw [hhandled.events]
        refine List.filter_eq_self.mpr fun event hevent => ?_
        simpa [eventOf] using hhandled.ours event hevent
  stays := by
    rintro flow ⟨linkOpen, payload⟩ hother
    match payload with
    | [] => exact ⟨rfl, rfl⟩
    | [first] => exact ⟨rfl, rfl⟩
    | first :: op :: rest =>
        have hne : first ≠ id := by simpa [packetOf] using hother
        have hhandled := handled_dispatch flow linkOpen first op rest
        refine ⟨hhandled.others id hne.symm, ?_⟩
        dsimp only [step]
        rw [hhandled.events]
        refine List.filter_eq_nil_iff.mpr fun event hevent => ?_
        have hours := hhandled.ours event hevent
        simpa [eventOf, hours] using hne

end FileTransferFlow

end Iap2

end Bridgething
