/-
Packets of the accessory link, and the codec that finds them in a byte stream.
-/
import Bridgething.Lib.Scanner

namespace Bridgething

namespace Iap2

abbrev Bytes := List UInt8

def LINK_HEADER_LEN : Nat := 9

def PAYLOAD_TRAILER : Nat := 1

def LINK_FRAME_OVERHEAD : Nat := LINK_HEADER_LEN + PAYLOAD_TRAILER

def LINK_MAGIC : Bytes := [0xFF, 0x5A]

structure ControlBits where
  syn : Bool
  ack : Bool
  eak : Bool
  rst : Bool
deriving Repr, DecidableEq

namespace ControlBits

def ACK : ControlBits := ⟨false, true, false, false⟩

def EAK : ControlBits := ⟨false, false, true, false⟩

def union (left right : ControlBits) : ControlBits :=
  ⟨left.syn || right.syn, left.ack || right.ack, left.eak || right.eak,
    left.rst || right.rst⟩

def bits (control : ControlBits) : UInt8 :=
  (if control.syn then 0x80 else 0) + (if control.ack then 0x40 else 0) +
    (if control.eak then 0x20 else 0) + (if control.rst then 0x10 else 0)

def fromBitsTruncate (bits : UInt8) : ControlBits where
  syn := bits.toNat.testBit 7
  ack := bits.toNat.testBit 6
  eak := bits.toNat.testBit 5
  rst := bits.toNat.testBit 4

@[simp] theorem fromBitsTruncate_bits (control : ControlBits) :
    fromBitsTruncate control.bits = control := by
  rcases control with ⟨syn, ack, eak, rst⟩
  cases syn <;> cases ack <;> cases eak <;> cases rst <;> decide

end ControlBits

structure LinkHeader where
  length : Nat
  control : ControlBits
  seq : UInt8
  ack : UInt8
  sessionId : UInt8
deriving Repr, DecidableEq

inductive FrameError
  | incomplete
  | badMagic
  | badHeaderChecksum
deriving Repr, DecidableEq

def byteSum (buf : Bytes) : Nat :=
  (buf.map UInt8.toNat).sum

def modularSumChecksum (buf : Bytes) : UInt8 :=
  UInt8.ofNat (256 - byteSum buf % 256)

def verifyModularSum (buf : Bytes) : Bool :=
  byteSum buf % 256 = 0

namespace LinkHeader

def headerOnly (control : ControlBits) (seq ack : UInt8) : LinkHeader where
  length := LINK_HEADER_LEN
  control := control
  seq := seq
  ack := ack
  sessionId := 0

def withPayload (control : ControlBits) (seq ack sessionId : UInt8)
    (payloadLen : Nat) : LinkHeader where
  length := (LINK_HEADER_LEN + payloadLen + 1) % 2 ^ 16
  control := control
  seq := seq
  ack := ack
  sessionId := sessionId

def hasPayload (header : LinkHeader) : Bool :=
  header.length > LINK_HEADER_LEN

/-- The header before its checksum. -/
def fields (header : LinkHeader) : Bytes :=
  LINK_MAGIC ++
    [UInt8.ofNat (header.length / 256), UInt8.ofNat header.length,
      header.control.bits, header.seq, header.ack, header.sessionId]

def encode (header : LinkHeader) : Bytes :=
  header.fields ++ [modularSumChecksum header.fields]

def decode (buf : Bytes) : Except FrameError LinkHeader :=
  match buf with
  | first :: second :: high :: low :: control :: seq :: ack :: sessionId ::
      _ :: _ =>
      if [first, second] ≠ LINK_MAGIC then .error .badMagic
      else if ¬ verifyModularSum (buf.take LINK_HEADER_LEN) then
        .error .badHeaderChecksum
      else
        .ok
          { length := high.toNat * 256 + low.toNat
            control := .fromBitsTruncate control
            seq := seq
            ack := ack
            sessionId := sessionId }
  | _ => .error .incomplete

end LinkHeader

structure LinkPacket where
  header : LinkHeader
  payload : Bytes
deriving Repr, DecidableEq

namespace LinkPacket

def headerOnly (control : ControlBits) (seq ack : UInt8) : LinkPacket where
  header := .headerOnly control seq ack
  payload := []

def withPayload (control : ControlBits) (seq ack sessionId : UInt8)
    (payload : Bytes) : LinkPacket where
  header := .withPayload control seq ack sessionId payload.length
  payload := payload

end LinkPacket

namespace LinkCodec

/-- One turn of the loop in `decode`: how far it advances, and the packet it
returns. -/
def look (src : Bytes) : Option (Nat × Option LinkPacket) :=
  if src.length < LINK_HEADER_LEN then none
  else if src.take 2 ≠ LINK_MAGIC then some (1, none)
  else
    match LinkHeader.decode (src.take LINK_HEADER_LEN) with
    | .error .incomplete => none
    | .error .badHeaderChecksum => some (1, none)
    | .error .badMagic => some (1, none)
    | .ok header =>
        if header.length < LINK_HEADER_LEN then some (1, none)
        else if src.length < header.length then none
        else
          let trailer := (src.take header.length).drop LINK_HEADER_LEN
          if trailer = [] then some (header.length, some ⟨header, []⟩)
          else if ¬ verifyModularSum trailer then some (header.length, none)
          else some (header.length, some ⟨header, trailer.dropLast⟩)

/-- A turn that steps over something steps over no more than there is. -/
theorem look_size {src : Bytes} {size : Nat} {packet : Option LinkPacket}
    (h : look src = some (size, packet)) : 0 < size ∧ size ≤ src.length := by
  unfold look at h
  split at h
  · contradiction
  · rename_i hlength
    have hheader : 9 ≤ src.length := Nat.not_lt.mp hlength
    split at h
    · simp only [Option.some.injEq, Prod.mk.injEq] at h
      omega
    · split at h
      · contradiction
      · simp only [Option.some.injEq, Prod.mk.injEq] at h
        omega
      · simp only [Option.some.injEq, Prod.mk.injEq] at h
        omega
      · rename_i header hdecode
        split at h
        · simp only [Option.some.injEq, Prod.mk.injEq] at h
          omega
        · rename_i hplausible
          have hlong : 9 ≤ header.length := Nat.not_lt.mp hplausible
          split at h
          · contradiction
          · rename_i hthere
            have hsize : size = header.length := by
              dsimp only at h
              split at h
              · simp only [Option.some.injEq, Prod.mk.injEq] at h
                exact h.1.symm
              · split at h
                · simp only [Option.some.injEq, Prod.mk.injEq] at h
                  exact h.1.symm
                · simp only [Option.some.injEq, Prod.mk.injEq] at h
                  exact h.1.symm
            omega

/-- Once a turn steps over something, more input does not change it. -/
theorem look_append {src : Bytes} {seen : Nat × Option LinkPacket}
    (more : Bytes) (h : look src = some seen) :
    look (src ++ more) = some seen := by
  have hlength : ¬ src.length < LINK_HEADER_LEN := by
    intro hshort
    rw [look, if_pos hshort] at h
    contradiction
  have hheader : (src ++ more).take LINK_HEADER_LEN =
      src.take LINK_HEADER_LEN :=
    List.take_append_of_le_length (Nat.not_lt.mp hlength)
  have hmagic : (src ++ more).take 2 = src.take 2 := by
    refine List.take_append_of_le_length (le_trans ?_ (Nat.not_lt.mp hlength))
    decide
  have hgrown : ¬ (src ++ more).length < LINK_HEADER_LEN := by
    rw [List.length_append]
    omega
  rw [look, if_neg hlength] at h
  rw [look, if_neg hgrown, hmagic, hheader]
  split at h
  · rename_i hjunk
    rw [if_pos hjunk]
    exact h
  · rename_i hfound
    rw [if_neg hfound]
    cases hdecode : LinkHeader.decode (src.take LINK_HEADER_LEN) with
    | error error =>
        rw [hdecode] at h
        cases error <;> exact h
    | ok header =>
        rw [hdecode] at h
        dsimp only at h ⊢
        split at h
        · rename_i hshort
          rw [if_pos hshort]
          exact h
        · rename_i hplausible
          rw [if_neg hplausible]
          split at h
          · contradiction
          · rename_i hthere
            rw [if_neg (by rw [List.length_append]; omega),
              List.take_append_of_le_length (Nat.not_lt.mp hthere)]
            exact h

def scanner : Scanner UInt8 LinkPacket where
  look := look
  look_size := look_size
  look_append := look_append

def decode (src : Bytes) : Option LinkPacket × Bytes :=
  scanner.decode src

def encode (item : LinkPacket) : Bytes :=
  item.header.encode ++
    if item.payload ≠ [] then
      item.payload ++ [modularSumChecksum item.payload]
    else []

end LinkCodec

end Iap2

end Bridgething
