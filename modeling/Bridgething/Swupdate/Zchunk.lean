/-
The header of a zchunk image: its compressed integers, and the size its chunks
have when they are unpacked.
-/
import Bridgething.Lib.Decoding

namespace Bridgething

namespace Swupdate

inductive Error
  | unexpectedEof
  | invalidData (msg : String)
deriving Repr, DecidableEq

abbrev Read := Decode UInt8 Error

def ZCK_MAGIC : List UInt8 := [0, 0x5a, 0x43, 0x4b, 0x31]
def ZCK_HEADER_ONLY_MAGIC : List UInt8 := [0, 0x5a, 0x48, 0x52, 0x31]
def ZCK_FLAG_OPTIONAL_ELEMENTS : Nat := 2
def ZCK_FLAG_UNCOMPRESSED_DIGESTS : Nat := 4
def ZCK_MAX_COMPINT_BYTES : Nat := 10

/-- What a sum of 64 bits comes to. -/
def u64 (value : Nat) : Nat := value % 2 ^ 64

abbrev U64 := Fin (2 ^ 64)

def readExact (count : Nat) : Read (List UInt8) :=
  Decode.exactly .unexpectedEof count

def invalid {α : Type} (msg : String) : Read α :=
  Decode.fail (.invalidData msg)

def skip (count : Nat) : Read Unit := do
  let _ ← readExact count

/-! ### Compressed integers -/

/-- With so many bytes read and so many left. -/
def compintFrom : Nat → Nat → Nat → Read Nat
  | _, 0, _ => invalid "zchunk integer is too long"
  | index, left + 1, value => do
      let bytes ← readExact 1
      let byte := bytes.headD 0
      let value := value ||| u64 ((byte &&& 0x7f).toNat <<< (7 * index))
      if byte &&& 0x80 ≠ 0 then pure value
      else compintFrom (index + 1) left value

def compint : Read Nat := compintFrom 0 ZCK_MAX_COMPINT_BYTES 0

/-- Seven bits a byte, the lowest first; the last byte has its top bit set. -/
def putCompint (value : Nat) : List UInt8 :=
  if value > 127 then UInt8.ofNat (value % 128) :: putCompint (value / 128)
  else [UInt8.ofNat value ||| 0x80]

/-- Of the bytes of an integer, all but the last. -/
theorem middle_byte {digit : Nat} (h : digit < 128) :
    UInt8.ofNat digit &&& 0x80 = 0 ∧
      (UInt8.ofNat digit &&& 0x7f).toNat = digit := by
  have hall : ∀ digit : Fin 128, UInt8.ofNat digit &&& 0x80 = 0 ∧
      (UInt8.ofNat digit &&& 0x7f).toNat = digit := by
    decide +kernel
  exact hall ⟨digit, h⟩

theorem last_byte {digit : Nat} (h : digit < 128) :
    (UInt8.ofNat digit ||| 0x80) &&& 0x80 = 0x80 ∧
      ((UInt8.ofNat digit ||| 0x80) &&& 0x7f).toNat = digit := by
  have hall : ∀ digit : Fin 128,
      (UInt8.ofNat digit ||| 0x80) &&& 0x80 = 0x80 ∧
        ((UInt8.ofNat digit ||| 0x80) &&& 0x7f).toNat = digit := by
    decide +kernel
  exact hall ⟨digit, h⟩

theorem compintFrom_middle {digit : Nat} (h : digit < 128)
    (index left value : Nat) (rest : List UInt8) :
    compintFrom index (left + 1) value (UInt8.ofNat digit :: rest) =
      compintFrom (index + 1) left
        (value ||| u64 (digit <<< (7 * index))) rest := by
  obtain ⟨htop, hlow⟩ := middle_byte h
  have hread : readExact 1 (UInt8.ofNat digit :: rest) =
      .ok ([UInt8.ofNat digit], rest) :=
    Decode.Reads.exactly _ [UInt8.ofNat digit] rest
  rw [compintFrom, Decode.bind_ok hread]
  simp only [List.headD_cons, htop, hlow, ne_eq, not_true_eq_false, if_false]

theorem compintFrom_last {digit : Nat} (h : digit < 128)
    (index left value : Nat) (rest : List UInt8) :
    compintFrom index (left + 1) value
        ((UInt8.ofNat digit ||| 0x80) :: rest) =
      .ok (value ||| u64 (digit <<< (7 * index)), rest) := by
  obtain ⟨htop, hlow⟩ := last_byte h
  have hread : readExact 1 ((UInt8.ofNat digit ||| 0x80) :: rest) =
      .ok ([UInt8.ofNat digit ||| 0x80], rest) :=
    Decode.Reads.exactly _ [UInt8.ofNat digit ||| 0x80] rest
  rw [compintFrom, Decode.bind_ok hread]
  simp only [List.headD_cons, htop, hlow]
  rfl

/-- The bits of a further byte are above those there are. -/
theorem or_shift {value digit index : Nat} (hvalue : value < 2 ^ (7 * index))
    (hindex : index < 10) :
    value ||| u64 (digit <<< (7 * index)) =
      u64 (value + digit * 2 ^ (7 * index)) := by
  have hsplit : 2 ^ 64 = 2 ^ (7 * index) * 2 ^ (64 - 7 * index) := by
    rw [← Nat.pow_add]
    congr 1
    omega
  have hshift : u64 (digit <<< (7 * index)) =
      2 ^ (7 * index) * (digit % 2 ^ (64 - 7 * index)) := by
    rw [u64, Nat.shiftLeft_eq, Nat.mul_comm, hsplit, Nat.mul_mod_mul_left]
  rw [hshift, Nat.or_comm, ← Nat.two_pow_add_eq_or_of_lt hvalue, u64, hsplit,
    Nat.mod_mul, Nat.mul_comm digit, Nat.add_mul_mod_self_left,
    Nat.mod_eq_of_lt hvalue, Nat.add_mul_div_left _ _ (Nat.two_pow_pos _),
    Nat.div_eq_of_lt hvalue, Nat.zero_add, Nat.add_comm]

/-- An integer of no more bytes than are left is read, as far as 64 bits hold
it. -/
theorem compintFrom_putCompint {index left value number : Nat}
    (hvalue : value < 2 ^ (7 * index)) (hleft : index + left = 10)
    (hlength : (putCompint number).length ≤ left) (rest : List UInt8) :
    compintFrom index left value (putCompint number ++ rest) =
      .ok (u64 (value + number * 2 ^ (7 * index)), rest) := by
  induction left generalizing index value number with
  | zero =>
      rw [putCompint] at hlength
      split at hlength <;> simp at hlength
  | succ left ih =>
      have hindex : index < 10 := by omega
      rw [putCompint] at hlength ⊢
      split
      · next hmore =>
          rw [if_pos hmore, List.length_cons] at hlength
          have hmiddle : index < 9 := by
            by_contra hlast
            have hnone : left = 0 := by omega
            rw [putCompint] at hlength
            split at hlength <;> simp [hnone] at hlength
          have hdigit : number % 128 < 128 := Nat.mod_lt _ (by decide)
          have hstep : value + number % 128 * 2 ^ (7 * index) <
              2 ^ (7 * (index + 1)) := by
            have hpow : 2 ^ (7 * (index + 1)) = 128 * 2 ^ (7 * index) := by
              rw [Nat.mul_succ, Nat.pow_add, Nat.mul_comm]
            have hle := Nat.mul_le_mul_right (2 ^ (7 * index))
              (Nat.le_of_lt_succ hdigit)
            omega
          have hfits : 2 ^ (7 * (index + 1)) ≤ 2 ^ 64 :=
            Nat.pow_le_pow_right (by decide) (by omega)
          have hnext : u64 (value + number % 128 * 2 ^ (7 * index)) =
              value + number % 128 * 2 ^ (7 * index) :=
            Nat.mod_eq_of_lt (Nat.lt_of_lt_of_le hstep hfits)
          rw [List.cons_append, compintFrom_middle hdigit,
            or_shift hvalue hindex, hnext,
            ih hstep (by omega) (Nat.le_of_succ_le_succ hlength)]
          have hnumber : value + number % 128 * 2 ^ (7 * index) +
              number / 128 * 2 ^ (7 * (index + 1)) =
                value + number * 2 ^ (7 * index) := by
            have hpow : 2 ^ (7 * (index + 1)) = 128 * 2 ^ (7 * index) := by
              rw [Nat.mul_succ, Nat.pow_add, Nat.mul_comm]
            conv_rhs => rw [← Nat.mod_add_div number 128]
            rw [hpow]
            ring
          rw [hnumber]
      · next hlast =>
          have hdigit : number < 128 := by omega
          rw [List.singleton_append, compintFrom_last hdigit,
            or_shift hvalue hindex]

/-- An integer of more bytes than are left is an error. -/
theorem compintFrom_long {index left value number : Nat}
    (hlength : left < (putCompint number).length) (rest : List UInt8) :
    compintFrom index left value (putCompint number ++ rest) =
      .error (.invalidData "zchunk integer is too long") := by
  induction left generalizing index value number with
  | zero => rfl
  | succ left ih =>
      rw [putCompint] at hlength ⊢
      split
      · next hmore =>
          rw [if_pos hmore, List.length_cons] at hlength
          rw [List.cons_append,
            compintFrom_middle (Nat.mod_lt _ (by decide)),
            ih (Nat.lt_of_succ_lt_succ hlength)]
      · next hlast =>
          rw [if_neg hlast] at hlength
          simp at hlength

theorem length_putCompint_le {number count : Nat}
    (h : number < 128 ^ (count + 1)) :
    (putCompint number).length ≤ count + 1 := by
  induction count generalizing number with
  | zero =>
      rw [putCompint, if_neg (by omega)]
      exact Nat.le_refl 1
  | succ count ih =>
      rw [putCompint]
      split
      · rw [List.length_cons]
        refine Nat.succ_le_succ (ih ?_)
        rw [Nat.pow_succ] at h
        exact Nat.div_lt_of_lt_mul (Nat.mul_comm _ _ ▸ h)
      · simp

/-- Every number of 64 bits is read back. -/
theorem reads_compint (number : U64) :
    Decode.Reads compint (putCompint number) number := by
  intro rest
  have hlength : (putCompint number).length ≤ ZCK_MAX_COMPINT_BYTES :=
    length_putCompint_le (Nat.lt_trans number.isLt (by decide))
  have hvalue : 0 < 2 ^ (7 * 0) := by decide
  rw [compint, compintFrom_putCompint hvalue rfl hlength, Nat.zero_add,
    Nat.mul_zero, Nat.pow_zero, Nat.mul_one, u64,
    Nat.mod_eq_of_lt number.isLt]

theorem compint_long {number : Nat}
    (h : ZCK_MAX_COMPINT_BYTES < (putCompint number).length)
    (rest : List UInt8) :
    compint (putCompint number ++ rest) =
      .error (.invalidData "zchunk integer is too long") :=
  compintFrom_long h rest

/-! ### The header -/

def zckDigestLen : Nat → Read Nat
  | 0 => pure 20
  | 1 => pure 32
  | 2 => pure 64
  | 3 => pure 16
  | other => invalid s!"unknown zchunk hash type {other}"

def skipElement : Unit → Read Unit := fun _ => do
  let _ ← compint
  let len ← compint
  skip len

def skipElements (flags : Nat) : Read Unit :=
  if flags &&& ZCK_FLAG_OPTIONAL_ELEMENTS ≠ 0 then do
    let count ← compint
    Decode.turns skipElement count ()
  else pure ()

def entryDigests (flags chunkDigest : Nat) : Nat :=
  if flags &&& ZCK_FLAG_UNCOMPRESSED_DIGESTS ≠ 0 then chunkDigest * 2
  else chunkDigest

def addChunk (digests total : Nat) : Read Nat := do
  skip digests
  let _ ← compint
  let len ← compint
  pure (u64 (total + len))

def zckUncompressedBytes : Read Nat := do
  let hashType ← compint
  let digest ← zckDigestLen hashType
  let _ ← compint
  skip digest
  skip digest
  let flags ← compint
  let _ ← compint
  skipElements flags
  let _ ← compint
  let chunkHashType ← compint
  let chunkDigest ← zckDigestLen chunkHashType
  let count ← compint
  Decode.turns (addChunk (entryDigests flags chunkDigest)) count 0

/-! ### What a header is -/

def digestLen : Fin 4 → Nat := ![20, 32, 64, 16]

/-- A digest under a hash type. -/
abbrev Digest (hashType : Fin 4) :=
  { bytes : List UInt8 // bytes.length = digestLen hashType }

def hashTypeNumber (hashType : Fin 4) : U64 :=
  Fin.castLE (by decide) hashType

structure Element where
  id : U64
  data : List UInt8
  fits : data.length < 2 ^ 64

structure Chunk (digests : Nat) where
  digest : List UInt8
  digest_length : digest.length = digests
  compressed : U64
  uncompressed : U64

/-- The header of a zchunk image, behind its magic. -/
structure ZckHeader where
  hashType : Fin 4
  headerSize : U64
  headerDigest : Digest hashType
  dataDigest : Digest hashType
  flags : U64
  compressionType : U64
  elements : List Element
  elements_fit : elements.length < 2 ^ 64
  indexSize : U64
  chunkHashType : Fin 4
  chunks : List (Chunk (entryDigests flags (digestLen chunkHashType)))
  chunks_fit : chunks.length < 2 ^ 64

def Element.code (element : Element) : List UInt8 :=
  putCompint element.id ++
    (putCompint element.data.length ++ element.data)

def Chunk.code {digests : Nat} (chunk : Chunk digests) : List UInt8 :=
  chunk.digest ++
    (putCompint chunk.compressed ++ putCompint chunk.uncompressed)

namespace ZckHeader

def elementsCode (header : ZckHeader) : List UInt8 :=
  if header.flags.val &&& ZCK_FLAG_OPTIONAL_ELEMENTS ≠ 0 then
    putCompint header.elements.length ++
      header.elements.flatMap Element.code
  else []

def chunksCode (header : ZckHeader) : List UInt8 :=
  putCompint header.chunks.length ++ header.chunks.flatMap Chunk.code

def code (header : ZckHeader) : List UInt8 :=
  putCompint (hashTypeNumber header.hashType) ++
    (putCompint header.headerSize ++
      (header.headerDigest ++
        (header.dataDigest ++
          (putCompint header.flags ++
            (putCompint header.compressionType ++
              (header.elementsCode ++
                (putCompint header.indexSize ++
                  (putCompint (hashTypeNumber header.chunkHashType) ++
                    header.chunksCode))))))))

/-- What the chunks have when they are unpacked. -/
def uncompressed (header : ZckHeader) : Nat :=
  (header.chunks.map fun chunk => chunk.uncompressed.val).sum

end ZckHeader

theorem reads_skip {code : List UInt8} {count : Nat}
    (h : code.length = count) : Decode.Reads (skip count) code () := by
  subst h
  exact (Decode.Reads.exactly _ code).map (Decode.Reads.pure ())

theorem reads_count {count : Nat} (h : count < 2 ^ 64) :
    Decode.Reads compint (putCompint count) count :=
  reads_compint ⟨count, h⟩

/-- A hash type is read, and how long its digests are is known. -/
theorem reads_hashType (hashType : Fin 4) {α : Type} {next : Nat → Read α}
    {behind : List UInt8} {result : α}
    (h : Decode.Reads (next (digestLen hashType)) behind result) :
    Decode.Reads (compint >>= fun found => zckDigestLen found >>= next)
      (putCompint (hashTypeNumber hashType) ++ behind) result := by
  refine (reads_compint (hashTypeNumber hashType)).bind ?_
  have hdigest : Decode.Reads (zckDigestLen (hashTypeNumber hashType).val) []
      (digestLen hashType) := by
    fin_cases hashType <;> exact Decode.Reads.pure _
  exact hdigest.bind h

theorem reads_element (element : Element) :
    Decode.Reads (skipElement ()) element.code () :=
  (reads_compint element.id).bind
    ((reads_count element.fits).bind (reads_skip rfl))

theorem reads_chunk {digests : Nat} (chunk : Chunk digests) (total : Nat) :
    Decode.Reads (addChunk digests total) chunk.code
      (u64 (total + chunk.uncompressed)) :=
  (reads_skip chunk.digest_length).bind
    ((reads_compint chunk.compressed).bind
      ((reads_compint chunk.uncompressed).map (Decode.Reads.pure _)))

namespace ZckHeader

theorem reads_elements (header : ZckHeader) :
    Decode.Reads (skipElements header.flags) header.elementsCode () := by
  rw [skipElements, elementsCode]
  split
  · refine (reads_count header.elements_fit).bind ?_
    exact Decode.Reads.turns (fun element _ => reads_element element)
      header.elements ()
  · exact Decode.Reads.pure ()

theorem foldl_u64 {digests : Nat} (chunks : List (Chunk digests))
    (total : Nat) :
    chunks.foldl (fun acc chunk => u64 (acc + chunk.uncompressed)) (u64 total) =
      u64 (total + (chunks.map fun chunk => chunk.uncompressed.val).sum) := by
  induction chunks generalizing total with
  | nil => rfl
  | cons chunk chunks ih =>
      have hstep : u64 (u64 total + chunk.uncompressed) =
          u64 (total + chunk.uncompressed) := Nat.mod_add_mod _ _ _
      rw [List.foldl_cons, hstep, ih, List.map_cons, List.sum_cons,
        Nat.add_assoc]

theorem reads_chunks (header : ZckHeader) :
    Decode.Reads
      (compint >>= fun count =>
        Decode.turns (addChunk (entryDigests header.flags
          (digestLen header.chunkHashType))) count 0)
      header.chunksCode (u64 header.uncompressed) := by
  refine (reads_count header.chunks_fit).bind ?_
  have hturns := Decode.Reads.turns reads_chunk header.chunks (u64 0)
  rwa [foldl_u64, Nat.zero_add] at hturns

/-- The size of what a header tells of. -/
theorem reads_uncompressed (header : ZckHeader) :
    Decode.Reads zckUncompressedBytes header.code
      (u64 header.uncompressed) := by
  refine reads_hashType header.hashType ?_
  refine (reads_compint header.headerSize).bind ?_
  refine (reads_skip header.headerDigest.property).bind ?_
  refine (reads_skip header.dataDigest.property).bind ?_
  refine (reads_compint header.flags).bind ?_
  refine (reads_compint header.compressionType).bind ?_
  refine header.reads_elements.bind ?_
  refine (reads_compint header.indexSize).bind ?_
  exact reads_hashType header.chunkHashType header.reads_chunks

end ZckHeader

end Swupdate

end Bridgething
