/-
The log store on its disk: a directory for every launch, its numbered segments
with the markers that pin them, the queue of lines, and the writer behind it.
-/
import Bridgething.Log.Line

namespace Bridgething

namespace LogStore

structure Limits where
  launches : ℕ := 3
  segmentsPerLaunch : ℕ := 2
  segmentBytes : ℕ := 512 * 1024
  queueCapacity : ℕ := 4096
  pinnedBytesLimit : ℕ := 32 * 1024 * 1024
deriving Repr, DecidableEq

structure Entry where
  line : List Char
  pins : Bool
deriving Repr, DecidableEq

/-- The file that `index` numbers, pinned if its marker stands beside it. -/
structure Segment where
  index : ℕ
  body : List Char
  pinned : Bool
deriving Repr, DecidableEq

/-- The directory of a launch, named by the milliseconds of its start. -/
structure Launch where
  millis : ℕ
  segments : List Segment
deriving Repr, DecidableEq

structure Sink where
  index : ℕ
  bytes : ℕ
  sawError : Bool
  pinned : Bool
deriving Repr, DecidableEq

structure Queue where
  pending : List Entry := []
  running : Bool := false
  dropped : ℕ := 0
  generation : ℕ := 0
deriving Repr, DecidableEq

/-- One `LogStore`: its queue, the launch that is live once it is installed, and
the sink and generation of its writer. -/
structure Store where
  limits : Limits
  queue : Queue := {}
  launch : Option ℕ := none
  sink : Option Sink := none
  generation : ℕ := 0
deriving Repr, DecidableEq

structure State where
  root : List Launch := []
  store : Store
deriving Repr, DecidableEq

section Files

def utf8Len (text : List Char) : ℕ := (text.map Char.utf8Size).sum

def Segment.fileSize (segment : Segment) : ℕ := utf8Len segment.body

def totalBytes (segments : List Segment) : ℕ :=
  (segments.map Segment.fileSize).sum

def Launch.name (launch : Launch) : List Char := Nat.toDigits 10 launch.millis

/-- The launches in the order of their names, which are compared as texts. -/
def launchDirs (root : List Launch) : List Launch :=
  root.mergeSort fun left right => decide (left.name ≤ right.name)

def sortedSegments (segments : List Segment) : List Segment :=
  segments.mergeSort fun left right => decide (left.index ≤ right.index)

def Launch.pinnedSegments (launch : Launch) : List Segment :=
  (sortedSegments launch.segments).filter Segment.pinned

def removeLaunches (doomed : List Launch) (root : List Launch) : List Launch :=
  root.filter fun launch => launch.millis ∉ doomed.map Launch.millis

/-- The pinned launches given up, oldest name first, until the rest is small
enough. -/
def shedPinned (limit : ℕ) : ℕ → List Launch → List Launch
  | _, [] => []
  | total, dir :: dirs =>
      if total ≤ limit then []
      else dir :: shedPinned limit (total - totalBytes dir.pinnedSegments) dirs

def pruneLaunches (limits : Limits) (root : List Launch) : List Launch :=
  let pinned := (launchDirs root).filter fun dir => dir.pinnedSegments ≠ []
  let rotating := (launchDirs root).filter fun dir => dir.pinnedSegments = []
  let excess := rotating.length - limits.launches
  let total := (pinned.map fun dir => totalBytes dir.pinnedSegments).sum
  removeLaunches
    (rotating.take excess ++ shedPinned limits.pinnedBytesLimit total pinned)
    root

def hasSegment (index : ℕ) (segments : List Segment) : Bool :=
  segments.any fun segment => segment.index = index

/-- `OpenOptions::create`: a file that is there is left as it is. -/
def createSegment (index : ℕ) (segments : List Segment) : List Segment :=
  if hasSegment index segments then segments
  else segments ++ [⟨index, [], false⟩]

def pruneSegments (limits : Limits) (keepAlso : ℕ) (segments : List Segment) :
    List Segment :=
  let all := sortedSegments (createSegment keepAlso segments)
  let rotating := all.filter fun segment => !segment.pinned
  let excess := rotating.length - limits.segmentsPerLaunch
  let doomed :=
    (rotating.take excess).filter fun segment => segment.index ≠ keepAlso
  segments.filter fun segment => segment.index ∉ doomed.map Segment.index

def updateSegment (index : ℕ) (update : Segment → Segment)
    (segments : List Segment) : List Segment :=
  segments.map fun segment =>
    if segment.index = index then update segment else segment

def segmentBytes (index : ℕ) (segments : List Segment) : ℕ :=
  ((segments.find? fun segment => segment.index = index).map
    Segment.fileSize).getD 0

end Files

section Writer

/-- The newest segment while it has room, or else the one after it. -/
def openTarget (limits : Limits) (segments : List Segment) : ℕ :=
  match (sortedSegments segments).getLast? with
  | some newest =>
      if newest.fileSize < limits.segmentBytes then newest.index
      else newest.index + 1
  | none => 0

def openSegments (limits : Limits) (segments : List Segment) : List Segment :=
  createSegment (openTarget limits segments)
    (pruneSegments limits (openTarget limits segments) segments)

def Sink.opened (limits : Limits) (segments : List Segment) : Sink where
  index := openTarget limits segments
  bytes := segmentBytes (openTarget limits segments)
    (openSegments limits segments)
  sawError := false
  pinned := false

def Sink.write (sink : Sink) (entry : Entry) : Sink :=
  { sink with
    bytes := sink.bytes + utf8Len entry.line + 1
    sawError := sink.sawError || (!sink.pinned && entry.pins) }

def appendLine (index : ℕ) (line : List Char) (segments : List Segment) :
    List Segment :=
  updateSegment index
    (fun segment => { segment with body := segment.body ++ line ++ ['\n'] })
    segments

/-- The marker of the sink's segment is written, unless it is known to be. -/
def pinSegment (sink : Sink) (segments : List Segment) : List Segment :=
  if sink.pinned then segments
  else
    updateSegment sink.index (fun segment => { segment with pinned := true })
      segments

def Sink.pin (sink : Sink) : Sink :=
  { sink with sawError := false, pinned := true }

/-- The lines of a batch, in the directory of the live launch. -/
def writeBatch (limits : Limits) :
    List Entry → List Segment × Option Sink → List Segment × Option Sink
  | [], held => held
  | entry :: rest, (segments, sink) =>
      let segments' := if sink.isNone then openSegments limits segments else segments
      let active := (sink.getD (Sink.opened limits segments)).write entry
      let written := appendLine active.index entry.line segments'
      if limits.segmentBytes ≤ active.bytes then
        writeBatch limits rest
          (if active.sawError then pinSegment active written else written, none)
      else writeBatch limits rest (written, some active)

/-- What is left of a batch's end: the marker of an error in the open segment. -/
def settleBatch : List Segment × Option Sink → List Segment × Option Sink
  | (segments, none) => (segments, none)
  | (segments, some active) =>
      if active.sawError then (pinSegment active segments, some active.pin)
      else (segments, some active)

def updateLaunch (millis : ℕ) (update : List Segment → List Segment)
    (root : List Launch) : List Launch :=
  root.map fun launch =>
    if launch.millis = millis then
      { launch with segments := update launch.segments }
    else launch

/-- The writer takes all that is pending. Where the directory of its launch is
gone no segment can be opened, and the batch is lost. -/
def drain (state : State) : State :=
  match state.store.launch with
  | none => state
  | some live =>
      if state.store.queue.pending = [] then state
      else
        let sink :=
          if state.store.queue.generation ≠ state.store.generation then none
          else state.store.sink
        let store :=
          { state.store with
            queue := { state.store.queue with pending := [] }
            generation := state.store.queue.generation }
        match state.root.find? fun launch => launch.millis = live with
        | none => { state with store := { store with sink := sink } }
        | some dir =>
            let written := settleBatch (writeBatch state.store.limits
              state.store.queue.pending (dir.segments, sink))
            { root := updateLaunch live (fun _ => written.1) state.root
              store := { store with sink := written.2 } }

end Writer

section Operations

/-- A new `LogStore` in the place of the last one, whose lines still pending are
gone with it. -/
def renew (limits : Limits) (state : State) : State :=
  { state with store := { limits := limits } }

def createLaunch (millis : ℕ) (root : List Launch) : List Launch :=
  if root.any fun launch => launch.millis = millis then root
  else root ++ [⟨millis, []⟩]

def install (now : Instant) (state : State) : State :=
  if state.store.launch.isSome then state
  else
    { root := pruneLaunches state.store.limits
        (createLaunch now.millis state.root)
      store :=
        { state.store with
          launch := some now.millis
          queue := { state.store.queue with running := true } } }

def push (limits : Limits) (queue : Queue) (entry : Entry) : Queue :=
  if limits.queueCapacity ≤ queue.pending.length then
    { queue with dropped := queue.dropped + 1 }
  else { queue with pending := queue.pending ++ [entry] }

structure Call where
  now : Instant
  pid : ℕ
  thread : ℕ
  level : Level
  label : List Char
  message : List Char

def Call.entries (offset : ℤ) (call : Call) : List Entry :=
  (call.message.splitOn '\n').map fun part =>
    ⟨linePrefix offset call.now.millis call.pid call.thread call.level call.label
        ++ part, call.level.pins⟩

def enqueue (entries : List Entry) (state : State) : State :=
  if state.store.queue.running then
    { state with
      store :=
        { state.store with
          queue := entries.foldl (push state.store.limits) state.store.queue } }
  else state

def record (offset : ℤ) (call : Call) (state : State) : State :=
  enqueue (call.entries offset) state

def write (line : List Char) (state : State) : State :=
  enqueue [⟨line, errorLine line⟩] state

/-- The live directory is emptied and the writer's sink is to be opened anew. -/
def reopened (live : ℕ) (state : State) : State :=
  { root := updateLaunch live (fun _ => []) state.root
    store :=
      { state.store with
        queue :=
          { state.store.queue with
            generation := state.store.queue.generation + 1 } } }

def delete (id : ℕ) (state : State) : State :=
  match state.store.launch with
  | none => state
  | some live =>
      if state.root.any fun launch => launch.millis = id then
        let flushed := drain state
        if id = live then reopened live flushed
        else
          { flushed with
            root := flushed.root.filter fun launch => launch.millis ≠ id }
      else state

def clear (state : State) : State :=
  match state.store.launch with
  | none => state
  | some live =>
      let cleared := reopened live (drain state)
      { root := cleared.root.filter fun launch => launch.millis = live
        store :=
          { cleared.store with
            queue := { cleared.store.queue with dropped := 0 } } }

inductive Event
  | renew (limits : Limits)
  | install (now : Instant)
  | record (call : Call)
  | write (line : List Char)
  | drain
  | delete (id : ℕ)
  | clear

/-- One event, in a zone that is `offset` milliseconds ahead. -/
def apply (offset : ℤ) (state : State) : Event → State
  | .renew limits => renew limits state
  | .install now => install now state
  | .record call => record offset call state
  | .write line => write line state
  | .drain => drain state
  | .delete id => delete id state
  | .clear => clear state

def run (offset : ℤ) (state : State) (events : List Event) : State :=
  events.foldl (apply offset) state

end Operations

end LogStore

end Bridgething
