/-
A response body streamed to the device: the writer that a fetch hands its pieces
to, and the task that emits the chunks it cuts.
-/
import Bridgething.Lib.Transition

namespace Bridgething

namespace NetStream

abbrev Bytes := List UInt8

def U32_MAX : Nat := 2 ^ 32 - 1

def BEHIND_REASON : String := "the link fell too far behind this stream"

structure NetConfig where
  streamChunkBytes : Nat
  streamBufferBudgetBytes : Nat
deriving Repr, DecidableEq

structure HttpHeader where
  name : String
  value : String
deriving Repr, DecidableEq

structure Head where
  status : Nat
  headers : List HttpHeader
  contentLength : Option Nat
deriving Repr, DecidableEq

inductive HttpError
  | invalidRequest (reason : String)
  | transport (reason : String)
  | body (reason : String)
  | dropped
deriving Repr, DecidableEq

inductive NetError
  | requestFailed (reason : String)
  | unavailable
deriving Repr, DecidableEq

def netError : HttpError → NetError
  | .invalidRequest reason => .requestFailed reason
  | .transport reason => .requestFailed reason
  | .body reason => .requestFailed reason
  | .dropped => .unavailable

structure StreamChunk where
  offset : Nat
  bytes : Bytes
deriving Repr, DecidableEq

/-- What the device receives. -/
inductive Message
  | streamBegin (status : Nat) (headers : List HttpHeader)
      (totalSize : Option Nat)
  | streamChunk (chunk : StreamChunk)
  | streamEnd
  | streamError (error : NetError)
deriving Repr, DecidableEq

/-- Where a call to `write` stands: none is going on, the loop that pushes full
chunks is at its head, or a push was refused and the writer is about to be
dropped. -/
inductive Phase
  | idle
  | writing
  | refused
deriving Repr, DecidableEq

structure StreamWriter where
  buffer : Bytes
  phase : Phase
deriving Repr, DecidableEq

inductive Ending
  | cancelled
  | reported
deriving Repr, DecidableEq

/-- A stream with its fetch.  `body` is all that the fetch has handed over, and
`sent` what the device has received. -/
structure Stream where
  body : Bytes
  writer : Option StreamWriter
  head : Option Head
  failure : Option HttpError
  outcome : Option (Except HttpError Unit)
  chunks : List Bytes
  queued : Nat
  dropped : Option String
  begun : Bool
  offset : Nat
  sent : List Message
  ending : Option Ending

/-- What the fetch does, and the turns of the tasks beside it. -/
inductive Event
  | onResponse (head : Head)
  | onChunk (piece : Bytes)
  | writeLoop
  | dropRefused
  | onFinished
  | onFailed (reason : String)
  | sinkDropped
  | emit
  | terminate
  | cancel
deriving Repr, DecidableEq

namespace Stream

def «open» : Stream where
  body := []
  writer := some ⟨[], .idle⟩
  head := none
  failure := none
  outcome := none
  chunks := []
  queued := 0
  dropped := none
  begun := false
  offset := 0
  sent := []
  ending := none

def send (stream : Stream) (message : Message) : Stream :=
  { stream with sent := stream.sent ++ [message] }

section

variable (config : NetConfig)

def fits (stream : Stream) (chunk : Bytes) : Bool :=
  stream.queued + chunk.length ≤ config.streamBufferBudgetBytes

def push (stream : Stream) (chunk : Bytes) : Stream :=
  if stream.fits config chunk then
    { stream with
      queued := stream.queued + chunk.length
      chunks := stream.chunks ++ [chunk] }
  else { stream with dropped := some BEHIND_REASON }

/-- The writer is dropped, with the tail it holds. -/
def dropWriter (stream : Stream) : Stream :=
  match stream.writer with
  | none => stream
  | some writer =>
      let stream := { stream with writer := none }
      if writer.buffer ≠ [] then stream.push config writer.buffer else stream

/-- The fetch answers once, before it hands over any of the body. -/
def onResponse (stream : Stream) (head : Head) : Stream :=
  match stream.head with
  | some _ => stream
  | none => if stream.writer.isSome then { stream with head := some head }
      else stream

/-- A piece is appended to what the writer holds; a writer that was dropped takes
none. -/
def onChunk (stream : Stream) (piece : Bytes) : Stream :=
  if stream.head.isNone ∨ stream.outcome.isSome then stream
  else
    match stream.writer with
    | none => { stream with body := stream.body ++ piece }
    | some writer =>
        match writer.phase with
        | .idle =>
            { stream with
              body := stream.body ++ piece
              writer := some ⟨writer.buffer ++ piece, .writing⟩ }
        | _ => stream

/-- One turn of the loop in `write`. -/
def writeLoop (stream : Stream) : Stream :=
  match stream.writer with
  | none => stream
  | some writer =>
      match writer.phase with
      | .writing =>
          if config.streamChunkBytes ≤ writer.buffer.length then
            let rest := writer.buffer.drop config.streamChunkBytes
            let full := writer.buffer.take config.streamChunkBytes
            if stream.fits config full then
              { stream.push config full with writer := some ⟨rest, .writing⟩ }
            else
              { stream.push config full with
                writer := some ⟨rest, .refused⟩
                failure := some (.body BEHIND_REASON) }
          else { stream with writer := some ⟨writer.buffer, .idle⟩ }
      | _ => stream

def dropRefused (stream : Stream) : Stream :=
  match stream.writer with
  | none => stream
  | some writer =>
      match writer.phase with
      | .refused => stream.dropWriter config
      | _ => stream

/-- No call on the sink is going on, and none has settled it. -/
def Settleable (stream : Stream) : Bool :=
  stream.outcome.isNone ∧ stream.writer.all fun writer => writer.phase = .idle

def onFinished (stream : Stream) : Stream :=
  if stream.head.isNone ∨ ¬ stream.Settleable then stream
  else
    let stream := stream.dropWriter config
    { stream with
      failure := none
      outcome := some (match stream.failure with
        | some failure => .error failure
        | none => .ok ()) }

def onFailed (stream : Stream) (reason : String) : Stream :=
  if ¬ stream.Settleable then stream
  else
    { stream.dropWriter config with outcome := some (.error (.transport reason)) }

/-- The fetch goes away without settling the sink. -/
def sinkDropped (stream : Stream) : Stream :=
  if ¬ stream.Settleable then stream
  else { stream.dropWriter config with outcome := some (.error .dropped) }

/-- The head is emitted first, then chunk after chunk. -/
def emit (stream : Stream) : Stream :=
  match stream.ending, stream.begun with
  | some _, _ => stream
  | none, false =>
      match stream.head with
      | none => stream
      | some head =>
          { stream with begun := true : Stream }.send
            (.streamBegin head.status head.headers
              (head.contentLength.map (min · U32_MAX)))
  | none, true =>
      match stream.chunks with
      | [] => stream
      | chunk :: chunks =>
          { stream with
            chunks := chunks
            queued := stream.queued - chunk.length
            offset := min (stream.offset + chunk.length % (U32_MAX + 1)) U32_MAX
            : Stream }.send (.streamChunk ⟨stream.offset, chunk⟩)

/-- The emitting task has ended: there was no head, or nothing is left to emit. -/
def emitted (stream : Stream) : Bool :=
  stream.writer.isNone ∧
    (stream.head.isNone ∨ stream.begun ∧ stream.chunks = [])

def terminal (outcome : Except HttpError Unit) (truncated : Option String) :
    Message :=
  match outcome, truncated with
  | .ok (), none => .streamEnd
  | .ok (), some reason => .streamError (.requestFailed reason)
  | .error error, _ => .streamError (netError error)

def terminate (stream : Stream) : Stream :=
  match stream.ending, stream.outcome with
  | none, some outcome =>
      if stream.emitted then
        { stream with ending := some .reported : Stream }.send
          (terminal outcome stream.dropped)
      else stream
  | _, _ => stream

def cancel (stream : Stream) : Stream :=
  match stream.ending with
  | none => { stream with ending := some .cancelled }
  | some _ => stream

def step (stream : Stream) : Event → Stream
  | .onResponse head => stream.onResponse head
  | .onChunk piece => stream.onChunk piece
  | .writeLoop => stream.writeLoop config
  | .dropRefused => stream.dropRefused config
  | .onFinished => stream.onFinished config
  | .onFailed reason => stream.onFailed config reason
  | .sinkDropped => stream.sinkDropped config
  | .emit => stream.emit
  | .terminate => stream.terminate
  | .cancel => stream.cancel

end

end Stream

end NetStream

end Bridgething
