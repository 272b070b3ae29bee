/-
Answering a range request: what is cached goes out from the log, the gaps are
asked of the companion and written to the log as they come in.
-/
import Bridgething.RangeProxy.Layout
import Bridgething.RangeProxy.Log

namespace Bridgething

namespace RangeProxy

/-- Parts that an accepted header named: no others are remembered. -/
structure Ranges where
  parts : List RangePart
  accepted : ∃ headerValue ranges,
    parseRangeHeader headerValue = .ok (.fresh ranges) ∧
      parts = ranges.map fun range => ⟨range.start, range.length⟩

/-! ### Writing what is fetched -/

structure Rec where
  logOff : Nat
  len : Nat
deriving Repr, DecidableEq

inductive FetchState
  | open (records : Nat)
  | finished (records : Nat)
  | failed (reason : String)
deriving Repr, DecidableEq

structure FetchWriter where
  log : AssetLog
  gaps : List RangeSpec
  recs : List Rec := []
  state : FetchState := .open 0

/-- What the disk answers a write with in place of writing. -/
abbrev Disk := AssetLog → List UInt8 → Option String

def Disk.append (disk : Disk) (log : AssetLog) (zckStart : Nat)
    (bytes : List UInt8) : Except String Nat × AssetLog :=
  match disk log bytes with
  | some error => (.error error, log)
  | none => log.append (.ofNat zckStart) bytes

namespace FetchWriter

/-- A write at the first gap, which is gone once it has no byte left. -/
def written (writer : FetchWriter) (log : AssetLog) (gap : RangeSpec)
    (gaps : List RangeSpec) (logOff take : Nat) : Option FetchWriter := do
  let start ← add32 gap.start (take % 2 ^ 32)
  let length ← sub32 gap.length (take % 2 ^ 32)
  let recs := writer.recs ++ [⟨logOff, take % 2 ^ 32⟩]
  return {
    log := log
    gaps := if length = 0 then gaps else ⟨start, length⟩ :: gaps
    recs := recs
    state := .open recs.length }

/-- The loop of `append`; every turn takes a byte at least, or fails. -/
def appendFrom (disk : Disk) (writer : FetchWriter) :
    Nat → List UInt8 → Option (Except String Unit × FetchWriter)
  | 0, _ => some (.ok (), writer)
  | fuel + 1, rest =>
      if rest = [] then some (.ok (), writer)
      else
        match writer.gaps with
        | [] =>
            some (.error "companion bytes overshoot the planned gaps", writer)
        | gap :: gaps =>
            let take := min rest.length gap.length
            match disk.append writer.log gap.start (rest.take take) with
            | (.error error, log) =>
                some (.error error, { writer with log := log })
            | (.ok logOff, log) =>
                (writer.written log gap gaps logOff take).bind fun next =>
                  next.appendFrom disk fuel (rest.drop take)

def append (disk : Disk) (writer : FetchWriter) (bytes : List UInt8) :
    Option (Except String Unit × FetchWriter) :=
  writer.appendFrom disk bytes.length bytes

def finish (writer : FetchWriter) : FetchWriter :=
  { writer with state := .finished writer.recs.length }

def fail (writer : FetchWriter) (reason : String) : FetchWriter :=
  { writer with state := .failed reason }

end FetchWriter

/-- What the pump receives within the time it waits, or that it waited for
nothing, or that the stream is closed. -/
inductive Received
  | timeout
  | closed
  | abandon (reason : String)
  | fragment (offset : Nat) (bytes : List UInt8)

/-- The loop of `ingest_pump`, with what has come in so far. -/
def ingestPump (disk : Disk) (expected : Nat) (writer : FetchWriter)
    (received : Nat) : List Received → Option FetchWriter
  | [] => some writer
  | .timeout :: _ => some (writer.fail "range ingest idle timeout")
  | .closed :: _ =>
      some (writer.fail "companion fragment stream closed mid-range")
  | .abandon reason :: _ =>
      some (writer.fail s!"companion abandoned range stream: {reason}")
  | .fragment offset bytes :: events =>
      if offset ≠ received then
        some (writer.fail "companion fragment offset out of order")
      else if received + bytes.length > expected then
        some (writer.fail
          "companion fragment overshoots declared stream length")
      else
        (writer.append disk bytes).bind fun appended =>
          match appended with
          | (.error error, writer) =>
              some (writer.fail s!"range cache write failed: {error}")
          | (.ok (), writer) =>
              if received + bytes.length = expected then some writer.finish
              else
                ingestPump disk expected writer (received + bytes.length) events

/-! ### The answer -/

inductive Content
  | text (reason : String)
  | steps (steps : List EmitStep)

structure Response where
  status : Nat
  headers : List (String × String)
  body : Content

def errorResponse (status : Nat) (reason : String) : Response :=
  ⟨status, [("content-type", "text/plain; charset=utf-8")], .text reason⟩

/-- The answer has several parts where it has no single one. -/
structure ResponseMeta where
  single : Option RangePart
  resumeOffset : Nat
  total : Nat
  bodyRemaining : Nat

def buildHeaders (info : ResponseMeta) : Option (List (String × String)) :=
  match info.single with
  | none => some [("content-type",
      s!"multipart/byteranges; boundary={MULTIPART_BOUNDARY}")]
  | some part => do
      let start ← add32 part.start (info.resumeOffset % 2 ^ 32)
      let stop ← add32 part.start part.length
      let last ← sub32 stop 1
      return [("content-type", "application/octet-stream"),
        ("content-length", toString info.bodyRemaining),
        ("content-range", s!"bytes {start}-{last}/{info.total}")]

/-- An answer that is under way. -/
def partialContent (info : ResponseMeta) (steps : List EmitStep) :
    Option Response :=
  (buildHeaders info).map fun headers => ⟨206, headers, .steps steps⟩

inductive TransferBody
  | inline (bytes : List UInt8)
  | stream (id totalSize : Nat)

structure OtaAssetRangeReply where
  totalSize : Nat
  parts : List RangePart
  body : TransferBody

inductive RequestError
  | domain (reason : String)
  | wire

/-- What lies outside the proxy: the companion that answers for ranges and sends
their bytes, and the disk. -/
structure Outside where
  reply : List RangeSpec → Except RequestError OtaAssetRangeReply
  events : List Received
  disk : Disk

/-- The answer, the ranges that are remembered after it, and what was written
for it. -/
structure Served where
  response : Response
  remembered : Option (Ranges × Nat)
  writer : Option FetchWriter := none

def requestCompanion (outside : Outside) (ranges : List RangeSpec) :
    Except Response OtaAssetRangeReply :=
  match outside.reply ranges with
  | .ok reply => .ok reply
  | .error (.domain reason) =>
      .error (errorResponse 502 s!"companion rejected: {reason}")
  | .error .wire => .error (errorResponse 502 "wire request failed")

/-- The pump and the answer run beside each other. -/
def finishResponse (outside : Outside) (requestId : Nat) (log : AssetLog)
    (plan : EmitPlan) (info : ResponseMeta) (body : TransferBody)
    (remembered : Option (Ranges × Nat)) : Option Served :=
  let writer : FetchWriter := { log := log, gaps := plan.companionRanges }
  match body with
  | .inline bytes =>
      if bytes.length ≠ plan.companionBytes then
        let reason := "inline body length does not match requested ranges"
        some ⟨errorResponse 502 reason, remembered, some (writer.fail reason)⟩
      else
        (writer.append outside.disk bytes).bind fun appended =>
          match appended with
          | (.error error, writer) =>
              some ⟨errorResponse 500 "range cache write failed", remembered,
                some (writer.fail s!"range cache write failed: {error}")⟩
          | (.ok (), writer) =>
              (partialContent info plan.steps).map fun response =>
                ⟨response, remembered, some writer.finish⟩
  | .stream id totalSize =>
      if id ≠ requestId then
        some ⟨errorResponse 502 "stream ref id does not match request id",
          remembered, some writer⟩
      else if totalSize ≠ plan.companionBytes then
        some ⟨errorResponse 502
          "stream length does not match requested ranges",
          remembered, some writer⟩
      else
        (ingestPump outside.disk plan.companionBytes writer 0
          outside.events).bind fun writer =>
            (partialContent info plan.steps).map fun response =>
              ⟨response, remembered, some writer⟩

/-- The body again once the companion has told the size of the asset, where it
is another one than was known.  The plan may not ask for other ranges. -/
def relaid (parts : List RangePart) (knownTotal : Option Nat)
    (total start : Nat) (index : CacheIndex) (layout : BodyLayout)
    (plan : EmitPlan) :
    Option (Option (BodyLayout × EmitPlan)) :=
  if knownTotal = some total then some (some (layout, plan))
  else
    (build parts total).bind fun again =>
      (planFrom again start index).map fun found =>
        (found.filter fun replanned =>
          replanned.companionRanges = plan.companionRanges).map (again, ·)

/-- What is asked of the companion, and the answer with what it sends. -/
def serveGaps (outside : Outside) (requestId : Nat) (log : AssetLog)
    (ranges : Ranges) (knownTotal : Option Nat) (start : Nat)
    (remembered : Option (Ranges × Nat)) (layout : BodyLayout)
    (plan : EmitPlan) : Option Served :=
  match requestCompanion outside plan.companionRanges with
  | .error response => some ⟨response, remembered, none⟩
  | .ok reply =>
      if reply.parts = [] then
        some ⟨errorResponse 502 "companion returned 0 parts", remembered, none⟩
      else
        (relaid ranges.parts knownTotal reply.totalSize start log.index layout
          plan).bind fun again =>
            match again with
            | none =>
                some ⟨errorResponse 502 "asset size changed mid-request",
                  remembered, none⟩
            | some (layout, plan) =>
                finishResponse outside requestId log plan
                  ⟨layout.single, start, reply.totalSize,
                    layout.totalBody - start⟩
                  reply.body (some (ranges, reply.totalSize))

def serve (outside : Outside) (requestId : Nat) (log : AssetLog)
    (ranges : Ranges) (knownTotal : Option Nat) (start : Nat)
    (remembered : Option (Ranges × Nat)) : Option Served :=
  (build ranges.parts (knownTotal.getD 0)).bind fun layout =>
    (planFrom layout start log.index).bind fun planned =>
      match planned with
      | none =>
          some ⟨errorResponse 416 "resume offset past end of body",
            remembered, none⟩
      | some plan =>
          if plan.companionRanges = [] then
            match knownTotal with
            | none =>
                some ⟨errorResponse 502
                  "no asset size known for a fully cached body",
                  remembered, none⟩
            | some total =>
                (partialContent
                  ⟨layout.single, start, total, layout.totalBody - start⟩
                  plan.steps).map fun response => ⟨response, remembered, none⟩
          else
            serveGaps outside requestId log ranges knownTotal start remembered
              layout plan

inductive BeginRangeError
  | noActiveOta
  | proxyDown
  | cache (reason : String)

def BeginRangeError.response : BeginRangeError → Response
  | .noActiveOta => errorResponse 409 "no OTA in flight"
  | .proxyDown => errorResponse 500 "range proxy unavailable"
  | .cache reason => errorResponse 500 s!"range cache: {reason}"

/-- The parts of a request that has been parsed are those it names, or those
that are remembered. -/
def serveParsed (outside : Outside) (requestId : Nat) (log : AssetLog)
    (remembered : Option (Ranges × Nat)) (headerValue : List Char) :
    (parsed : Parsed) → parseRangeHeader headerValue = .ok parsed →
      Option Served
  | .fresh ranges, accepted =>
      serve outside requestId log
        ⟨ranges.map fun range => ⟨range.start, range.length⟩,
          headerValue, ranges, accepted, rfl⟩
        (remembered.map Prod.snd) 0 remembered
  | .resume offset, _ =>
      match remembered with
      | none => some ⟨errorResponse 416 "no ranges to resume", none, none⟩
      | some (ranges, total) =>
          serve outside requestId log ranges (some total) offset remembered

def handleRange (outside : Outside) (requestId : Nat)
    (begun : Except BeginRangeError AssetLog)
    (remembered : Option (Ranges × Nat)) (rangeHeader : Option (List Char)) :
    Option Served :=
  match rangeHeader with
  | none =>
      some ⟨errorResponse 416 "Range header is required for OTA delta fetch",
        remembered, none⟩
  | some headerValue =>
      match accepted : parseRangeHeader headerValue with
      | .error reason => some ⟨errorResponse 416 reason, remembered, none⟩
      | .ok parsed =>
          match begun with
          | .error error => some ⟨error.response, remembered, none⟩
          | .ok log =>
              serveParsed outside requestId log remembered headerValue parsed
                accepted

end RangeProxy

end Bridgething
