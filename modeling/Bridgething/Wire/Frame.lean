/-
Frames of the gateway wire: the 16 byte header, the lanes and compression
directives it names, and the errors its codec reports.
-/
import Mathlib

namespace Bridgething

namespace Wire

def HEADER_LEN : Nat := 16

def MAGIC : UInt8 × UInt8 := (0xde, 0xad)

def VERSION : UInt8 := 2

def MAX_FRAME_LEN : Nat := 16 * 1024 * 1024

def COMPRESSION_NONE : UInt8 := 0x00

def COMPRESSION_GZIP : UInt8 := 0x01

def AUTO_GZIP_THRESHOLD_BYTES : Nat := 16 * 1024 - 128

def ENCODING_MSGPACK : UInt8 := 0x00

def ENCODING_JSON : UInt8 := 0x01

/-- Priority lane for outbound frames. -/
inductive Priority
  | normal
  | bulk
  | background
deriving Repr, DecidableEq

def Priority.asByte : Priority → UInt8
  | .normal => 0x00
  | .bulk => 0x01
  | .background => 0x02

def Priority.fromByte (byte : UInt8) : Priority :=
  if byte = 0x01 then .bulk
  else if byte = 0x02 then .background
  else .normal

@[simp] theorem Priority.fromByte_asByte (priority : Priority) :
    Priority.fromByte priority.asByte = priority := by
  cases priority <;> rfl

inductive Compress
  | auto
  | never
  | always
  | ifSmaller
deriving Repr, DecidableEq

inductive Compression
  | gzip
  | none
deriving Repr, DecidableEq

/-- Unknown compression bytes read as uncompressed. -/
def Compression.fromByte (value : UInt8) : Compression :=
  if value = COMPRESSION_GZIP then .gzip else .none

def Compression.toByte : Compression → UInt8
  | .gzip => COMPRESSION_GZIP
  | .none => COMPRESSION_NONE

@[simp] theorem Compression.fromByte_toByte (compression : Compression) :
    Compression.fromByte compression.toByte = compression := by
  cases compression <;> rfl

inductive Encoding
  | msgpack
  | json
deriving Repr, DecidableEq

/-- Unknown encoding bytes read as msgpack. -/
def Encoding.fromByte (value : UInt8) : Encoding :=
  if value = ENCODING_JSON then .json else .msgpack

/-- Why a body did not deserialise, by the encoding it was read in. -/
inductive TypedDecodeError (Err : Type)
  | rmp (error : Err)
  | json (error : Err)
deriving Repr, DecidableEq

inductive EndecError (Err Probe : Type)
  | rmpSerialization (error : Err)
  | typedDecode (error : TypedDecodeError Err) (probe : Probe)
  | decompress (error : Err)
  | decompressTooLarge (limit : Nat)
  | compression (error : Err)
  | io (error : Err)
deriving Repr, DecidableEq

def EndecError.isRecoverable {Err Probe : Type} :
    EndecError Err Probe → Bool
  | .typedDecode _ _ => true
  | .decompress _ => true
  | .decompressTooLarge _ => true
  | .rmpSerialization _ => false
  | .compression _ => false
  | .io _ => false

structure PrioritizedFrame (Msg : Type) where
  priority : Priority
  compress : Compress
  msg : Msg
deriving Repr, DecidableEq

def PrioritizedFrame.new {Msg : Type} (priority : Priority) (msg : Msg) :
    PrioritizedFrame Msg :=
  ⟨priority, .auto, msg⟩

/-- One item out of the decoder: a frame, or a failure the stream survives. -/
inductive DecodedFrame (Msg Err Probe : Type)
  | frame (frame : PrioritizedFrame Msg)
  | failed (error : EndecError Err Probe)
deriving Repr, DecidableEq

/-- The serialisers, the gzip codec and the envelope probe the codec calls.
`gunzipTake limit` is a gzip reader cut off after `limit` bytes of output. -/
structure BodyLib (Msg Err Probe : Type) where
  rmpToVecNamed : Msg → Except Err (List UInt8)
  rmpFromSlice : List UInt8 → Except Err Msg
  jsonFromSlice : List UInt8 → Except Err Msg
  gzip : List UInt8 → Except Err (List UInt8)
  gunzipTake : Nat → List UInt8 → Except Err (List UInt8)
  tryProbeEnvelopeMsgpack : List UInt8 → Probe
  tryProbeEnvelopeJson : List UInt8 → Probe

/-- Big-endian value of a byte string. -/
def fromBeBytes (bytes : List UInt8) : Nat :=
  bytes.foldl (fun acc byte => acc * 256 + byte.toNat) 0

/-- The `width` big-endian bytes of a number. -/
def toBeBytes : Nat → Nat → List UInt8
  | 0, _ => []
  | width + 1, value => toBeBytes width (value / 256) ++ [UInt8.ofNat value]

@[simp] theorem toBeBytes_length (width value : Nat) :
    (toBeBytes width value).length = width := by
  induction width generalizing value with
  | zero => rfl
  | succ width ih => simp [toBeBytes, ih]

theorem fromBeBytes_append_singleton (bytes : List UInt8) (byte : UInt8) :
    fromBeBytes (bytes ++ [byte]) = fromBeBytes bytes * 256 + byte.toNat := by
  simp [fromBeBytes]

theorem fromBeBytes_toBeBytes {width value : Nat} (h : value < 256 ^ width) :
    fromBeBytes (toBeBytes width value) = value := by
  induction width generalizing value with
  | zero =>
      have hzero : value = 0 := by simpa using h
      simp [toBeBytes, fromBeBytes, hzero]
  | succ width ih =>
      have hhigh : value / 256 < 256 ^ width := by
        rw [Nat.div_lt_iff_lt_mul (by decide)]
        rwa [Nat.pow_succ] at h
      rw [toBeBytes, fromBeBytes_append_singleton, ih hhigh,
        UInt8.toNat_ofNat']
      omega

/-- Byte strings as messages: a MessagePack `bin` value and a gzip member that
stores its contents. -/
def binLib : BodyLib (List UInt8) Unit Unit where
  rmpToVecNamed msg :=
    if msg.length < 256 ^ 1 then .ok (0xc4 :: toBeBytes 1 msg.length ++ msg)
    else if msg.length < 256 ^ 2 then
      .ok (0xc5 :: toBeBytes 2 msg.length ++ msg)
    else if msg.length < 256 ^ 4 then
      .ok (0xc6 :: toBeBytes 4 msg.length ++ msg)
    else .error ()
  rmpFromSlice payload :=
    let width := match payload.head? with
      | some 0xc4 => 1
      | some 0xc5 => 2
      | some 0xc6 => 4
      | _ => 0
    let length := fromBeBytes ((payload.drop 1).take width)
    if width = 0 ∨ payload.length < 1 + width + length then .error ()
    else .ok ((payload.drop (1 + width)).take length)
  jsonFromSlice _ := .error ()
  gzip payload := .ok (0x1f :: 0x8b :: payload)
  gunzipTake limit zipped :=
    match zipped with
    | 0x1f :: 0x8b :: payload => .ok (payload.take limit)
    | _ => .error ()
  tryProbeEnvelopeMsgpack _ := ()
  tryProbeEnvelopeJson _ := ()

end Wire

end Bridgething
