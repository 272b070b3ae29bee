/-
A body with metadata blocks between runs of audio, taken apart as it is pushed,
and what a block says.
-/
import Bridgething.Lib.Text

namespace Bridgething

namespace Playback

abbrev Bytes := List UInt8

def METADATA_UNIT : Nat := 16

structure IcyMetadata where
  title : Option String
  url : Option String
deriving Repr, DecidableEq

section Utf8

def REPLACEMENT : Char := Char.ofNat 0xFFFD

/-- A character of which some bytes have come: how many are left, what the next
may be, and the bits so far. -/
structure Partial where
  left : Nat
  low : UInt8
  high : UInt8
  bits : Nat
deriving Repr, DecidableEq

/-- A byte that does not continue a character. -/
def leadByte (byte : UInt8) : List Char × Option Partial :=
  let n := byte.toNat
  if n < 0x80 then ([Char.ofNat n], none)
  else if n < 0xC2 then ([REPLACEMENT], none)
  else if n < 0xE0 then ([], some ⟨1, 0x80, 0xBF, n % 0x20⟩)
  else if n < 0xF0 then
    let low := if n = 0xE0 then 0xA0 else 0x80
    let high := if n = 0xED then 0x9F else 0xBF
    ([], some ⟨2, low, high, n % 0x10⟩)
  else if n < 0xF5 then
    let low := if n = 0xF0 then 0x90 else 0x80
    let high := if n = 0xF4 then 0x8F else 0xBF
    ([], some ⟨3, low, high, n % 0x08⟩)
  else ([REPLACEMENT], none)

def nextByte (pending : Option Partial) (byte : UInt8) :
    List Char × Option Partial :=
  match pending with
  | none => leadByte byte
  | some pending =>
      if pending.low ≤ byte ∧ byte ≤ pending.high then
        let bits := pending.bits * 0x40 + byte.toNat % 0x40
        if pending.left = 1 then ([Char.ofNat bits], none)
        else ([], some ⟨pending.left - 1, 0x80, 0xBF, bits⟩)
      else
        -- What has come of the character is replaced, and the byte leads anew.
        let (chars, next) := leadByte byte
        (REPLACEMENT :: chars, next)

def decodeFrom (pending : Option Partial) : Bytes → List Char
  | [] => pending.toList.map fun _ => REPLACEMENT
  | byte :: rest =>
      let (chars, next) := nextByte pending byte
      chars ++ decodeFrom next rest

def fromUtf8Lossy (bytes : Bytes) : List Char := decodeFrom none bytes

end Utf8

/-- What stands before and after the first place of a mark. -/
def find (mark : List Char) : List Char → Option (List Char × List Char)
  | [] => if mark = [] then some ([], []) else none
  | c :: rest =>
      if mark.isPrefixOf (c :: rest) then
        some ([], (c :: rest).drop mark.length)
      else (find mark rest).map fun found => (c :: found.1, found.2)

/-- What stands before the last place of a mark. -/
def rfind (mark : Char) (text : List Char) : Option (List Char) :=
  if mark ∈ text then some (text.rdropWhile (· ≠ mark)).dropLast else none

def field (text : List Char) (key : String) : Option String :=
  match find key.toList text with
  | none => none
  | some (_, rest) =>
      let value :=
        match find ['\'', ';'] rest with
        | some (value, _) => value
        | none => (rfind '\'' rest).getD rest
      let value := Text.trim value
      if value.isEmpty then none else some (String.ofList value)

def parseBlock (block : Bytes) : Option IcyMetadata :=
  let text := (fromUtf8Lossy block).rdropWhile (· = '\x00')
  let parsed : IcyMetadata :=
    { title := field text "StreamTitle='"
      url := field text "StreamUrl='" }
  if parsed ≠ ⟨none, none⟩ then some parsed else none

/-- The demultiplexer between two bytes.  A block that is full is read and
cleared at once. -/
structure IcyDemux where
  metaint : Nat
  untilMetadata : Nat
  block : Bytes
  blockLen : Option Nat
  metaint_pos : 0 < metaint
  block_short : block.length < blockLen.getD 1

/-- One turn of the loop: what it leaves of the chunk, and what it hands on. -/
structure Turn where
  demux : IcyDemux
  chunk : Bytes
  audio : Option Bytes
  metadata : Option IcyMetadata

structure Pushed where
  demux : IcyDemux
  audio : List Bytes
  metadata : List IcyMetadata

namespace IcyDemux

def new (metaint : Nat) : IcyDemux where
  metaint := max metaint 1
  untilMetadata := max metaint 1
  block := []
  blockLen := none
  metaint_pos := lt_max_of_lt_right Nat.one_pos
  block_short := Nat.one_pos

def turn (demux : IcyDemux) (first : UInt8) (rest : Bytes) : Turn :=
  let chunk := first :: rest
  if demux.untilMetadata > 0 then
    let take := min chunk.length demux.untilMetadata
    { demux := { demux with untilMetadata := demux.untilMetadata - take }
      chunk := chunk.drop take
      audio := some (chunk.take take)
      metadata := none }
  else
    match hlen : demux.blockLen with
    | none =>
        let len := first.toNat * METADATA_UNIT
        if hzero : len = 0 then
          { demux := { demux with untilMetadata := demux.metaint }
            chunk := rest
            audio := none
            metadata := none }
        else
          { demux := { demux with
              blockLen := some len
              block_short := by
                have hshort := demux.block_short
                rw [hlen, Option.getD_none] at hshort
                rw [Option.getD_some]
                omega }
            chunk := rest
            audio := none
            metadata := none }
    | some len =>
        let take := min (len - demux.block.length) chunk.length
        let block := demux.block ++ chunk.take take
        if hfull : block.length = len then
          { demux := { demux with
              block := []
              blockLen := none
              untilMetadata := demux.metaint
              block_short := Nat.one_pos }
            chunk := chunk.drop take
            audio := none
            metadata := parseBlock block }
        else
          { demux := { demux with
              block := block
              block_short := by
                have hshort := demux.block_short
                rw [hlen, Option.getD_some] at hshort
                have hle : block.length ≤ len := by
                  simp only [block, take, List.length_append, List.length_take]
                  omega
                rw [hlen, Option.getD_some]
                exact Nat.lt_of_le_of_ne hle hfull }
            chunk := chunk.drop take
            audio := none
            metadata := none }

/-- Every turn takes something of the chunk. -/
theorem turn_lt (demux : IcyDemux) (first : UInt8) (rest : Bytes) :
    (demux.turn first rest).chunk.length < (first :: rest).length := by
  simp only [turn]
  split
  · simp only [List.length_drop, List.length_cons]
    omega
  · split
    · split <;> simp
    · next len hlen =>
        have hshort := demux.block_short
        rw [hlen, Option.getD_some] at hshort
        split <;> simp only [List.length_drop, List.length_cons] <;> omega

def push (demux : IcyDemux) : Bytes → Pushed
  | [] => ⟨demux, [], []⟩
  | first :: rest =>
      let turn := demux.turn first rest
      let later := turn.demux.push turn.chunk
      { demux := later.demux
        audio := turn.audio.toList ++ later.audio
        metadata := turn.metadata.toList ++ later.metadata }
termination_by chunk => chunk.length
decreasing_by exact demux.turn_lt first rest

def pushAll (demux : IcyDemux) : List Bytes → Pushed
  | [] => ⟨demux, [], []⟩
  | chunk :: chunks =>
      let pushed := demux.push chunk
      let later := pushed.demux.pushAll chunks
      { demux := later.demux
        audio := pushed.audio ++ later.audio
        metadata := pushed.metadata ++ later.metadata }

end IcyDemux

end Playback

end Bridgething
