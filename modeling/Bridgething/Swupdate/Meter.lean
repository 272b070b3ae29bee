/-
The bytes an update writes: a walk over a newc archive, entry by entry, and what
it counts of each.
-/
import Bridgething.Swupdate.Zchunk

namespace Bridgething

namespace Swupdate

def CPIO_HEADER_LEN : Nat := 110

def CPIO_TRAILER : List UInt8 :=
  [0x54, 0x52, 0x41, 0x49, 0x4c, 0x45, 0x52, 0x21, 0x21, 0x21]

def SW_DESCRIPTION : List UInt8 :=
  [0x73, 0x77, 0x2d, 0x64, 0x65, 0x73, 0x63, 0x72, 0x69, 0x70, 0x74, 0x69,
    0x6f, 0x6e]

def hexDigit? (byte : UInt8) : Option Nat :=
  if 0x30 ≤ byte ∧ byte ≤ 0x39 then some (byte.toNat - 0x30)
  else if 0x41 ≤ byte ∧ byte ≤ 0x46 then some (byte.toNat - 0x41 + 10)
  else if 0x61 ≤ byte ∧ byte ≤ 0x66 then some (byte.toNat - 0x61 + 10)
  else none

def hexDigits? (digits : List UInt8) : Option Nat :=
  digits.foldlM (fun value byte => (hexDigit? byte).map (value * 16 + ·)) 0

/-- A sign is taken, where digits follow. -/
def fromStrRadix16 (text : List UInt8) : Option Nat :=
  match text with
  | [] => none
  | [byte] => if byte = 0x2b then none else hexDigits? [byte]
  | byte :: rest =>
      if byte = 0x2b then hexDigits? rest else hexDigits? (byte :: rest)

def cpioField (header : List UInt8) (index : Nat) : Read Nat :=
  match fromStrRadix16 ((header.drop (6 + index * 8)).take 8) with
  | some value => pure value
  | none => invalid "cpio header field is not hex"

def pad4 (n : Nat) : Nat := (4 - n % 4) % 4

def isNewc (header : List UInt8) : Bool :=
  header.take 5 = [0x30, 0x37, 0x30, 0x37, 0x30] ∧
    (header[5]? = some 0x31 ∨ header[5]? = some 0x32)

def stripSuffix (name : List UInt8) : List UInt8 :=
  if name.getLast? = some 0 then name.dropLast else name

/-- Less than a magic is not looked at. -/
def entryBytes (size : Nat) : Read Nat :=
  if size < 5 then pure size
  else do
    let magic ← readExact 5
    if magic = ZCK_MAGIC ∨ magic = ZCK_HEADER_ONLY_MAGIC then
      zckUncompressedBytes
    else pure size

/-- The text of a name is compared with ASCII only, which no replaced byte
is. -/
def payloadEntry (size : Nat) (name : List UInt8) : Read Nat :=
  if SW_DESCRIPTION.isPrefixOf name then pure 0
  else Decode.within size (entryBytes size)

/-- What an entry counts, read from where its body begins. -/
def countEntry (size : Nat) (name : List UInt8) : Read Nat := do
  let bytes ← payloadEntry size name
  Decode.seek (size + pad4 size)
  pure bytes

/-- One turn of the walk: nothing at the trailer. -/
def nextEntry : Read (Option Nat) := do
  let header ← readExact CPIO_HEADER_LEN
  if isNewc header then do
    let size ← cpioField header 6
    let nameLen ← cpioField header 11
    let name ← readExact nameLen
    Decode.seek (pad4 (CPIO_HEADER_LEN + nameLen))
    if stripSuffix name = CPIO_TRAILER then pure none
    else do
      let bytes ← countEntry size (stripSuffix name)
      pure (some bytes)
  else invalid "not a newc cpio archive"

theorem shrinks_cpioField (header : List UInt8) (index : Nat) :
    Decode.Shrinks (cpioField header index) := by
  rw [cpioField]
  split
  · exact Decode.Shrinks.pure _
  · exact Decode.Shrinks.fail _

theorem shrinks_countEntry (size : Nat) (name : List UInt8) :
    Decode.Shrinks (countEntry size name) := by
  have hbytes : Decode.Shrinks (payloadEntry size name) := by
    rw [payloadEntry]
    split
    · exact Decode.Shrinks.pure _
    · exact Decode.Shrinks.within _ _
  exact hbytes.bind fun bytes =>
    (Decode.Shrinks.seek _).bind fun _ => Decode.Shrinks.pure bytes

/-- A turn takes a whole header. -/
theorem nextEntry_shorter {swu rest : List UInt8} {found : Option Nat}
    (h : nextEntry swu = .ok (found, rest)) : rest.length < swu.length := by
  obtain ⟨header, mid, hheader, hbehind⟩ := Decode.of_bind h
  obtain ⟨hlength, -, rfl⟩ := Decode.of_exactly hheader
  have hpos : 0 < CPIO_HEADER_LEN := by decide
  have hmid : (swu.drop CPIO_HEADER_LEN).length < swu.length := by
    rw [List.length_drop]
    omega
  refine Nat.lt_of_le_of_lt ?_ hmid
  split at hbehind
  · refine ((shrinks_cpioField header 6).bind fun size =>
      (shrinks_cpioField header 11).bind fun nameLen =>
        (Decode.Shrinks.exactly _ nameLen).bind fun name =>
          (Decode.Shrinks.seek _).bind fun _ => ?_) _ _ _ hbehind
    split
    · exact Decode.Shrinks.pure none
    · exact (shrinks_countEntry _ _).bind fun _ => Decode.Shrinks.pure _
  · cases hbehind

def payloadFrom (total : Nat) (swu : List UInt8) : Except Error Nat :=
  match _h : nextEntry swu with
  | .error error => .error error
  | .ok (none, _) => .ok total
  | .ok (some bytes, rest) => payloadFrom (u64 (total + bytes)) rest
termination_by swu.length
decreasing_by exact nextEntry_shorter _h

def payloadBytes (swu : List UInt8) : Except Error Nat := payloadFrom 0 swu

theorem payloadFrom_error {total : Nat} {swu : List UInt8} {error : Error}
    (h : nextEntry swu = .error error) :
    payloadFrom total swu = .error error := by
  rw [payloadFrom]
  split <;> simp_all

theorem payloadFrom_trailer {total : Nat} {swu rest : List UInt8}
    (h : nextEntry swu = .ok (none, rest)) :
    payloadFrom total swu = .ok total := by
  rw [payloadFrom]
  split <;> simp_all

theorem payloadFrom_entry {total bytes : Nat} {swu rest : List UInt8}
    (h : nextEntry swu = .ok (some bytes, rest)) :
    payloadFrom total swu = payloadFrom (u64 (total + bytes)) rest := by
  rw [payloadFrom]
  split <;> simp_all

end Swupdate

end Bridgething
