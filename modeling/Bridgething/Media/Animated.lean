/-
Which PNG and GIF files are reported to be animated.
-/
import Bridgething.Media.Walks

namespace Bridgething

namespace Media

open Decode (Reads)

def ACTL : List UInt8 := [0x61, 0x63, 0x54, 0x4C]
def IDAT : List UInt8 := [0x49, 0x44, 0x41, 0x54]
def IEND : List UInt8 := [0x49, 0x45, 0x4E, 0x44]

theorem skip_ok {bytes : Nat} {input rest : List UInt8}
    (h : skip bytes input = .ok ((), rest)) : rest = input.drop bytes := by
  rw [skip] at h
  split at h
  · exact (Prod.mk.inj (Except.ok.inj h)).2.symm
  · contradiction

theorem skip_lt (bytes : Nat) (h : bytes < 2 ^ 63) (input : List UInt8) :
    skip bytes input = .ok ((), input.drop bytes) := by
  rw [skip, if_pos h]
  rfl

/-- The walk over the chunks. -/
def pngWalk (rest : List UInt8) : Bool :=
  match _hchunk : take 8 rest with
  | .error _ => false
  | .ok (chunk, data) =>
      if chunk.drop 4 = ACTL then
        match take 4 data with
        | .ok (frames, _) => 1 < be32 frames
        | .error _ => false
      else if chunk.drop 4 = IDAT ∨ chunk.drop 4 = IEND then false
      else
        match _hskip : skip (be32 chunk + 4) data with
        | .error _ => false
        | .ok (_, behind) => pngWalk behind
termination_by rest.length
decreasing_by
  obtain ⟨hle, -, rfl⟩ := take_ok _hchunk
  rw [skip_ok _hskip, List.length_drop, List.length_drop]
  omega

def pngAnimated (bytes : List UInt8) : Bool := pngWalk (bytes.drop 8)

def colorTable (flags : UInt8) : Nat :=
  if flags &&& 0x80 = 0 then 0 else 3 * 1 <<< ((flags &&& 0x07).toNat + 1)

def skipSubBlocks (rest : List UInt8) : Except Unit (Unit × List UInt8) :=
  match _hsize : take 1 rest with
  | .error error => .error error
  | .ok (size, data) =>
      if size.headD 0 = 0 then .ok ((), data)
      else
        match _hskip : skip (size.headD 0).toNat data with
        | .error error => .error error
        | .ok (_, behind) => skipSubBlocks behind
termination_by rest.length
decreasing_by
  obtain ⟨hle, -, rfl⟩ := take_ok _hsize
  rw [skip_ok _hskip, List.length_drop, List.length_drop]
  omega

theorem shrinks_take (count : Nat) : Decode.Shrinks (take count) :=
  Decode.Shrinks.exactly () count

theorem shrinks_skip (bytes : Nat) : Decode.Shrinks (skip bytes) := by
  rw [skip]
  split
  · exact Decode.Shrinks.seek bytes
  · exact Decode.Shrinks.fail ()

theorem shrinks_skipSubBlocks : Decode.Shrinks skipSubBlocks := by
  intro input value rest h
  induction hlength : input.length using Nat.strongRecOn generalizing input with
  | ind length ih =>
      rw [skipSubBlocks] at h
      split at h
      · contradiction
      · rename_i size data hsize
        obtain ⟨hle, -, rfl⟩ := take_ok hsize
        split at h
        · obtain ⟨-, rfl⟩ := Prod.mk.inj (Except.ok.inj h)
          rw [List.length_drop]
          omega
        · split at h
          · contradiction
          · rename_i behind hskip
            have hbehind := shrinks_skip _ _ _ _ hskip
            rw [List.length_drop] at hbehind
            have hrest := ih behind.length (by omega) behind h rfl
            omega

/-- An image behind its introducer. -/
def image : Source Unit := do
  skip 8
  let flags ← take 1
  skip (colorTable (flags.headD 0) + 1)
  skipSubBlocks

/-- An extension behind its introducer. -/
def extension : Source Unit := do
  skip 1
  skipSubBlocks

theorem shrinks_image : Decode.Shrinks image :=
  (shrinks_skip 8).bind fun _ => (shrinks_take 1).bind fun _ =>
    (shrinks_skip _).bind fun _ => shrinks_skipSubBlocks

theorem shrinks_extension : Decode.Shrinks extension :=
  (shrinks_skip 1).bind fun _ => shrinks_skipSubBlocks

/-- The walk over the blocks, with the images counted so far. -/
def gifWalk (frames : Nat) (rest : List UInt8) : Nat :=
  match _hkind : take 1 rest with
  | .error _ => frames
  | .ok (kind, data) =>
      if kind.headD 0 = 0x2C then
        if 1 < frames + 1 then frames + 1
        else
          match _himage : image data with
          | .error _ => frames + 1
          | .ok (_, behind) => gifWalk (frames + 1) behind
      else if kind.headD 0 = 0x21 then
        match _hextension : extension data with
        | .error _ => frames
        | .ok (_, behind) => gifWalk frames behind
      else frames
termination_by rest.length
decreasing_by
  · obtain ⟨hle, -, rfl⟩ := take_ok _hkind
    have hbehind := shrinks_image _ _ _ _himage
    rw [List.length_drop] at hbehind
    omega
  · obtain ⟨hle, -, rfl⟩ := take_ok _hkind
    have hbehind := shrinks_extension _ _ _ _hextension
    rw [List.length_drop] at hbehind
    omega

/-- The flags of the screen, and all before the blocks. -/
def screen : Source Unit := do
  let flags ← take 1
  skip (2 + colorTable (flags.headD 0))

def gifFrames (bytes : List UInt8) : Nat :=
  match screen (bytes.drop 10) with
  | .error _ => 0
  | .ok (_, rest) => gifWalk 0 rest

def gifAnimated (bytes : List UInt8) : Bool := 1 < gifFrames bytes

/-! ### The chunks of a PNG -/

structure Chunk where
  kind : List UInt8
  data : List UInt8
  crc : List UInt8
  length_kind : kind.length = 4
  length_data : data.length < 2 ^ 32
  length_crc : crc.length = 4

namespace Chunk

def code (chunk : Chunk) : List UInt8 :=
  BigEndian.toBytes 4 chunk.data.length ++ chunk.kind ++ chunk.data ++ chunk.crc

/-- The walk goes past it. -/
def Plain (chunk : Chunk) : Prop :=
  chunk.kind ≠ ACTL ∧ chunk.kind ≠ IDAT ∧ chunk.kind ≠ IEND

end Chunk

theorem take_append {count : Nat} {front : List UInt8}
    (h : front.length = count) (rest : List UInt8) :
    take count (front ++ rest) = .ok (front, rest) := by
  rw [← h]
  exact Reads.exactly () front rest

theorem pngWalk_short {rest : List UInt8} (h : rest.length < 8) :
    pngWalk rest = false := by
  have htake : take 8 rest = .error () := Decode.exactly_short h
  rw [pngWalk]
  split
  · rfl
  · simp_all

theorem pngWalk_head {head kind : List UInt8} (hhead : head.length = 4)
    (hkind : kind.length = 4) (data : List UInt8) :
    pngWalk (head ++ kind ++ data) =
      if kind = ACTL then
        match take 4 data with
        | .ok (frames, _) => decide (1 < be32 frames)
        | .error _ => false
      else if kind = IDAT ∨ kind = IEND then false
      else pngWalk (data.drop (BigEndian.ofBytes head + 4)) := by
  have hbound := BigEndian.ofBytes_lt head
  rw [hhead] at hbound
  have hskip := skip_lt (BigEndian.ofBytes head + 4) (by omega) data
  have htake : take 8 (head ++ kind ++ data) = .ok (head ++ kind, data) :=
    take_append (by simp [hhead, hkind]) data
  have hdrop : (head ++ kind).drop 4 = kind := by
    rw [← hhead, List.drop_left]
  have hsize : be32 (head ++ kind) = BigEndian.ofBytes head := by
    rw [be32, ← hhead, List.take_left]
  rw [pngWalk]
  split
  · simp_all
  · rename_i chunk behind hchunk
    rw [htake, Except.ok.injEq, Prod.mk.injEq] at hchunk
    obtain ⟨rfl, rfl⟩ := hchunk
    rw [hdrop, hsize]
    split
    · rfl
    · split
      · rfl
      · split
        · simp_all
        · rename_i found hfound
          rw [hskip, Except.ok.injEq, Prod.mk.injEq] at hfound
          rw [← hfound.2]

theorem pngWalk_plain {chunk : Chunk} (h : chunk.Plain) (rest : List UInt8) :
    pngWalk (chunk.code ++ rest) = pngWalk rest := by
  have hsize : BigEndian.ofBytes (BigEndian.toBytes 4 chunk.data.length) =
      chunk.data.length :=
    BigEndian.ofBytes_toBytes_of_lt chunk.length_data
  have hcode : chunk.code ++ rest =
      BigEndian.toBytes 4 chunk.data.length ++ chunk.kind ++
        (chunk.data ++ chunk.crc ++ rest) := by
    simp [Chunk.code]
  have hdrop : (chunk.data ++ chunk.crc ++ rest).drop
      (chunk.data.length + 4) = rest := by
    have hlength : (chunk.data ++ chunk.crc).length =
        chunk.data.length + 4 := by
      rw [List.length_append, chunk.length_crc]
    rw [← hlength, List.drop_left]
  rw [hcode, pngWalk_head (BigEndian.length_toBytes _ _) chunk.length_kind,
    if_neg h.1, if_neg (not_or.mpr h.2), hsize, hdrop]

theorem pngWalk_flatMap {chunks : List Chunk}
    (h : ∀ chunk ∈ chunks, chunk.Plain) (rest : List UInt8) :
    pngWalk (chunks.flatMap Chunk.code ++ rest) = pngWalk rest := by
  induction chunks with
  | nil => rfl
  | cons chunk chunks ih =>
      rw [List.flatMap_cons, List.append_assoc,
        pngWalk_plain (h chunk List.mem_cons_self),
        ih fun other hother => h other (List.mem_cons_of_mem _ hother)]

theorem pngWalk_actl {head frames : List UInt8} (hhead : head.length = 4)
    (hframes : frames.length = 4) (rest : List UInt8) :
    pngWalk (head ++ ACTL ++ (frames ++ rest)) =
      decide (1 < BigEndian.ofBytes frames) := by
  have hbe : be32 frames = BigEndian.ofBytes frames := by
    rw [be32, ← hframes, List.take_length]
  rw [pngWalk_head hhead rfl, if_pos rfl, take_append hframes]
  simp only [hbe]

/-- Whole chunks that the walk goes past, and then one that declares more than
one frame. -/
def Declares (rest : List UInt8) : Prop :=
  ∃ (chunks : List Chunk) (head frames behind : List UInt8),
    rest = chunks.flatMap Chunk.code ++ (head ++ ACTL ++ (frames ++ behind)) ∧
    (∀ chunk ∈ chunks, chunk.Plain) ∧ head.length = 4 ∧ frames.length = 4 ∧
    1 < BigEndian.ofBytes frames

/-- The front of a list, in two pieces. -/
theorem eq_pieces {rest : List UInt8} {first second : Nat}
    (h : first + second ≤ rest.length) :
    ∃ front middle behind, rest = front ++ middle ++ behind ∧
      front.length = first ∧ middle.length = second := by
  refine ⟨rest.take first, (rest.drop first).take second,
    (rest.drop first).drop second, ?_, ?_, ?_⟩
  · rw [List.append_assoc, List.take_append_drop, List.take_append_drop]
  · exact List.length_take_of_le (by omega)
  · exact List.length_take_of_le (by rw [List.length_drop]; omega)

theorem declares_of_pngWalk {rest : List UInt8} (h : pngWalk rest = true) :
    Declares rest := by
  induction hlength : rest.length using Nat.strongRecOn generalizing rest with
  | ind length ih =>
      have hwide : 4 + 4 ≤ rest.length := by
        by_contra hshort
        rw [pngWalk_short (by omega)] at h
        contradiction
      obtain ⟨head, kind, data, rfl, hhead, hkind⟩ := eq_pieces hwide
      rw [pngWalk_head hhead hkind] at h
      split at h
      · rename_i hactl
        subst hactl
        have hframes : 4 + 0 ≤ data.length := by
          by_contra hshort
          have htake : take 4 data = .error () :=
            Decode.exactly_short (by omega)
          simp [htake] at h
        obtain ⟨frames, middle, behind, rfl, hfour, hnone⟩ := eq_pieces hframes
        rw [List.length_eq_zero_iff] at hnone
        subst hnone
        rw [List.append_nil, take_append hfour] at h
        simp only [decide_eq_true_eq, be32, ← hfour, List.take_length] at h
        exact ⟨[], head, frames, behind, by simp, by simp, hhead, hfour, h⟩
      · rename_i hactl
        split at h
        · contradiction
        · rename_i hends
          have hbound := BigEndian.ofBytes_lt head
          rw [hhead] at hbound
          have hwhole : BigEndian.ofBytes head + 4 ≤ data.length := by
            by_contra hshort
            rw [pngWalk_short (by rw [List.length_drop]; omega)] at h
            contradiction
          obtain ⟨body, crc, behind, rfl, hbody, hcrc⟩ := eq_pieces hwhole
          have hdrop : (body ++ crc ++ behind).drop
              (BigEndian.ofBytes head + 4) = behind := by
            rw [← hbody, ← hcrc, ← List.length_append, List.drop_left]
          rw [hdrop] at h
          have hshorter : behind.length < length := by
            simp only [List.length_append] at hlength
            omega
          obtain ⟨chunks, mark, frames, rest, hrest, hplain, hfour⟩ :=
            ih _ hshorter h rfl
          have hcode : BigEndian.toBytes 4 body.length = head := by
            rw [hbody, ← hhead, BigEndian.toBytes_ofBytes]
          let chunk : Chunk := ⟨kind, body, crc, hkind, by omega, hcrc⟩
          refine ⟨chunk :: chunks, mark, frames, rest, ?_, ?_, hfour⟩
          · rw [hrest, List.flatMap_cons]
            simp only [Chunk.code, chunk, hcode, List.append_assoc]
          · intro other hother
            rcases List.mem_cons.mp hother with rfl | hother
            · exact ⟨hactl, not_or.mp hends⟩
            · exact hplain other hother

/-- A PNG is reported to be animated where it declares more than one frame. -/
theorem pngAnimated_iff (bytes : List UInt8) :
    pngAnimated bytes = true ↔ Declares (bytes.drop 8) := by
  constructor
  · exact declares_of_pngWalk
  · rintro ⟨chunks, head, frames, behind, hrest, hplain, hhead, hframes, hmore⟩
    rw [pngAnimated, hrest, pngWalk_flatMap hplain,
      pngWalk_actl hhead hframes]
    exact decide_eq_true hmore

/-! ### The blocks of a GIF -/

/-- A sub-block. -/
structure Piece where
  bytes : List UInt8
  some : 0 < bytes.length
  fits : bytes.length < 256

def Piece.code (piece : Piece) : List UInt8 :=
  UInt8.ofNat piece.bytes.length :: piece.bytes

/-- Sub-blocks with their end. -/
def subBlocks (pieces : List Piece) : List UInt8 :=
  pieces.flatMap Piece.code ++ [0]

theorem toNat_length (piece : Piece) :
    (UInt8.ofNat piece.bytes.length).toNat = piece.bytes.length := by
  rw [UInt8.toNat_ofNat']
  exact Nat.mod_eq_of_lt piece.fits

theorem skipSubBlocks_cons (size : UInt8) (data : List UInt8) :
    skipSubBlocks (size :: data) =
      if size = 0 then .ok ((), data)
      else skipSubBlocks (data.drop size.toNat) := by
  have htake : take 1 (size :: data) = .ok ([size], data) :=
    take_append (show [size].length = 1 from rfl) data
  have hskip := skip_lt size.toNat (by have := size.toNat_lt; omega) data
  rw [skipSubBlocks]
  split
  · simp_all
  · rename_i found behind hfound
    rw [htake, Except.ok.injEq, Prod.mk.injEq] at hfound
    obtain ⟨rfl, rfl⟩ := hfound
    by_cases hzero : size = 0
    · have hhead : [size].headD 0 = 0 := hzero
      rw [if_pos hhead, if_pos hzero]
    · have hhead : ¬ [size].headD 0 = 0 := hzero
      rw [if_neg hhead, if_neg hzero]
      split
      · rename_i error herror
        change skip size.toNat data = .error error at herror
        rw [hskip] at herror
        contradiction
      · rename_i found hfound
        change skip size.toNat data = .ok _ at hfound
        rw [hskip, Except.ok.injEq, Prod.mk.injEq] at hfound
        rw [← hfound.2]

theorem skipSubBlocks_nil : skipSubBlocks [] = .error () := by
  have htake : take 1 ([] : List UInt8) = .error () :=
    Decode.exactly_short (by simp)
  rw [skipSubBlocks]
  split
  · rfl
  · simp_all

theorem reads_subBlocks (pieces : List Piece) :
    Reads skipSubBlocks (subBlocks pieces) () := by
  induction pieces with
  | nil =>
      intro rest
      exact skipSubBlocks_cons 0 rest
  | cons piece pieces ih =>
      intro rest
      have hne : UInt8.ofNat piece.bytes.length ≠ 0 := by
        intro hzero
        have hlength := toNat_length piece
        rw [hzero] at hlength
        have := piece.some
        simp at hlength
        omega
      have hcode : subBlocks (piece :: pieces) ++ rest =
          UInt8.ofNat piece.bytes.length ::
            (piece.bytes ++ (subBlocks pieces ++ rest)) := by
        simp [subBlocks, Piece.code]
      rw [hcode, skipSubBlocks_cons, if_neg hne, toNat_length, List.drop_left,
        ih rest]

theorem subBlocks_of_skip {input rest : List UInt8}
    (h : skipSubBlocks input = .ok ((), rest)) :
    ∃ pieces, input = subBlocks pieces ++ rest := by
  induction hlength : input.length using Nat.strongRecOn generalizing input with
  | ind length ih =>
      cases input with
      | nil =>
          rw [skipSubBlocks_nil] at h
          contradiction
      | cons size data =>
          rw [skipSubBlocks_cons] at h
          split at h
          · rename_i hzero
            obtain ⟨-, rfl⟩ := Prod.mk.inj (Except.ok.inj h)
            rw [hzero]
            exact ⟨[], rfl⟩
          · rename_i hsize
            have hwhole : size.toNat + 0 ≤ data.length := by
              by_contra hshort
              rw [List.drop_of_length_le (by omega), skipSubBlocks_nil] at h
              contradiction
            obtain ⟨bytes, none, behind, rfl, hbytes, hnone⟩ := eq_pieces hwhole
            rw [List.length_eq_zero_iff] at hnone
            subst hnone
            rw [List.append_nil, ← hbytes, List.drop_left] at h
            have hpos : 0 < bytes.length := by
              rw [hbytes, Nat.pos_iff_ne_zero]
              intro hzero
              exact hsize (UInt8.toNat_inj.mp hzero)
            have hfits : bytes.length < 256 := by
              rw [hbytes]
              exact size.toNat_lt
            have hshorter : behind.length < length := by
              rw [← hlength]
              simp only [List.append_nil, List.length_cons, List.length_append]
              omega
            obtain ⟨pieces, rfl⟩ := ih _ hshorter h rfl
            refine ⟨⟨bytes, hpos, hfits⟩ :: pieces, ?_⟩
            have hhead : UInt8.ofNat bytes.length = size := by
              rw [hbytes]
              exact UInt8.ofNat_toNat
            simp [subBlocks, Piece.code, hhead]

inductive Block
  | image (descriptor : List UInt8) (flags : UInt8) (table : List UInt8)
      (codeSize : UInt8) (pieces : List Piece)
  | extension (label : UInt8) (pieces : List Piece)

namespace Block

/-- A descriptor has its size, and a table the one that the flags declare. -/
def Whole : Block → Prop
  | image descriptor flags table _ _ =>
      descriptor.length = 8 ∧ table.length = colorTable flags
  | extension _ _ => True

def code : Block → List UInt8
  | image descriptor flags table codeSize pieces =>
      0x2C :: (descriptor ++ ([flags] ++ ((table ++ [codeSize]) ++
        subBlocks pieces)))
  | extension label pieces => 0x21 :: label :: subBlocks pieces

/-- An image is one frame. -/
def frames : Block → Nat
  | image _ _ _ _ _ => 1
  | extension _ _ => 0

end Block

theorem reads_skip (front : List UInt8) {bytes : Nat}
    (hlength : front.length = bytes) (hbytes : bytes < 2 ^ 63) :
    Reads (skip bytes) front () := by
  intro rest
  rw [skip_lt bytes hbytes, ← hlength, List.drop_left]

theorem colorTable_lt (flags : UInt8) : colorTable flags < 2 ^ 10 := by
  have hall : ∀ flags : Fin 256, colorTable (UInt8.ofNat flags) < 2 ^ 10 := by
    decide +kernel
  have hflags := hall ⟨flags.toNat, flags.toNat_lt⟩
  rwa [UInt8.ofNat_toNat] at hflags

theorem reads_image {descriptor table : List UInt8} {flags : UInt8}
    (hdescriptor : descriptor.length = 8)
    (htable : table.length = colorTable flags) (codeSize : UInt8)
    (pieces : List Piece) :
    Reads image (descriptor ++ ([flags] ++ ((table ++ [codeSize]) ++
      subBlocks pieces))) () := by
  have htable : (table ++ [codeSize]).length = colorTable flags + 1 := by
    rw [List.length_append, htable, List.length_singleton]
  have hsmall := colorTable_lt flags
  refine (reads_skip descriptor hdescriptor (by decide)).bind ?_
  refine (Reads.exactly () [flags]).bind ?_
  exact (reads_skip _ htable (by omega)).bind (reads_subBlocks pieces)

theorem reads_extension (label : UInt8) (pieces : List Piece) :
    Reads extension (label :: subBlocks pieces) () := by
  have hlabel : Reads (skip 1) [label] () :=
    reads_skip [label] rfl (by decide)
  exact hlabel.bind (reads_subBlocks pieces)

/-- What was skipped before something else is read was there. -/
theorem skip_then {bytes : Nat} {input mid rest : List UInt8}
    {next : Source Unit} (hnext : next [] = .error ())
    (hskip : skip bytes input = .ok ((), mid))
    (h : next mid = .ok ((), rest)) :
    ∃ front, input = front ++ mid ∧ front.length = bytes := by
  have hmid := skip_ok hskip
  have hlong : bytes ≤ input.length := by
    by_contra hshort
    rw [hmid, List.drop_of_length_le (by omega), hnext] at h
    contradiction
  refine ⟨input.take bytes, ?_, List.length_take_of_le hlong⟩
  rw [hmid, List.take_append_drop]

theorem extension_of_ok {input rest : List UInt8}
    (h : extension input = .ok ((), rest)) :
    ∃ label pieces, input = label :: subBlocks pieces ++ rest := by
  obtain ⟨⟨⟩, mid, hskip, hpieces⟩ := Decode.of_bind h
  obtain ⟨front, rfl, hfront⟩ :=
    skip_then skipSubBlocks_nil hskip hpieces
  obtain ⟨label, rfl⟩ := List.length_eq_one_iff.mp hfront
  obtain ⟨pieces, rfl⟩ := subBlocks_of_skip hpieces
  exact ⟨label, pieces, rfl⟩

theorem image_of_ok {input rest : List UInt8}
    (h : image input = .ok ((), rest)) :
    ∃ descriptor flags table codeSize pieces, descriptor.length = 8 ∧
      table.length = colorTable flags ∧
      input = descriptor ++ ([flags] ++ ((table ++ [codeSize]) ++
        subBlocks pieces)) ++ rest := by
  obtain ⟨⟨⟩, mid, hskip, hrest⟩ := Decode.of_bind h
  obtain ⟨found, after, hflags, hlast⟩ := Decode.of_bind hrest
  obtain ⟨⟨⟩, behind, htable, hpieces⟩ := Decode.of_bind hlast
  have hempty : (do
      let flags ← take 1
      skip (colorTable (flags.headD 0) + 1)
      skipSubBlocks : Source Unit) [] = .error () :=
    Decode.bind_error (Decode.exactly_short (by simp))
  obtain ⟨descriptor, rfl, hdescriptor⟩ :=
    skip_then hempty hskip hrest
  obtain ⟨hle, hone, rfl⟩ := take_ok hflags
  obtain ⟨flags, rfl⟩ := List.length_eq_one_iff.mp hone
  have hmid : mid = [flags] ++ mid.drop 1 := by
    obtain ⟨-, hsame, -⟩ := Decode.of_exactly hflags
    rw [hsame, List.take_append_drop]
  simp only [List.headD_cons] at htable
  obtain ⟨front, hfront, hlength⟩ :=
    skip_then skipSubBlocks_nil htable hpieces
  obtain ⟨table, codeSize, rfl⟩ :=
    (List.eq_nil_or_concat' front).resolve_left fun hnil => by
      simp [hnil] at hlength
  obtain ⟨pieces, rfl⟩ := subBlocks_of_skip hpieces
  rw [List.length_append, List.length_singleton] at hlength
  refine ⟨descriptor, flags, table, codeSize, pieces, hdescriptor,
    Nat.add_right_cancel hlength, ?_⟩
  rw [hmid, hfront]
  simp only [List.append_assoc]

/-! ### The frames of a GIF -/

theorem gifWalk_nil (frames : Nat) : gifWalk frames [] = frames := by
  have htake : take 1 ([] : List UInt8) = .error () :=
    Decode.exactly_short (by simp)
  rw [gifWalk]
  split
  · rfl
  · simp_all

theorem gifWalk_cons (frames : Nat) (kind : UInt8) (data : List UInt8) :
    gifWalk frames (kind :: data) =
      if kind = 0x2C then
        if 1 < frames + 1 then frames + 1
        else
          match image data with
          | .error _ => frames + 1
          | .ok (_, behind) => gifWalk (frames + 1) behind
      else if kind = 0x21 then
        match extension data with
        | .error _ => frames
        | .ok (_, behind) => gifWalk frames behind
      else frames := by
  have htake : take 1 (kind :: data) = .ok ([kind], data) :=
    take_append (show [kind].length = 1 from rfl) data
  rw [gifWalk]
  split
  · simp_all
  · rename_i found behind hfound
    rw [htake, Except.ok.injEq, Prod.mk.injEq] at hfound
    obtain ⟨rfl, rfl⟩ := hfound
    by_cases himage : kind = 0x2C
    · have hhead : [kind].headD 0 = 0x2C := himage
      rw [if_pos hhead, if_pos himage]
      by_cases hsecond : 1 < frames + 1
      · rw [if_pos hsecond, if_pos hsecond]
      · rw [if_neg hsecond, if_neg hsecond]
        split <;> simp_all
    · have hhead : ¬ [kind].headD 0 = 0x2C := himage
      rw [if_neg hhead, if_neg himage]
      by_cases hextension : kind = 0x21
      · have hhead : [kind].headD 0 = 0x21 := hextension
        rw [if_pos hhead, if_pos hextension]
        split <;> simp_all
      · have hhead : ¬ [kind].headD 0 = 0x21 := hextension
        rw [if_neg hhead, if_neg hextension]

theorem gifWalk_image {descriptor table : List UInt8} {flags : UInt8}
    (hdescriptor : descriptor.length = 8)
    (htable : table.length = colorTable flags) (codeSize : UInt8)
    (pieces : List Piece) (rest : List UInt8) :
    gifWalk 0 ((Block.image descriptor flags table codeSize pieces).code ++
      rest) = gifWalk 1 rest := by
  have hread := reads_image hdescriptor htable codeSize pieces rest
  rw [Block.code, List.cons_append, gifWalk_cons, if_pos rfl,
    if_neg (by decide), hread]

theorem gifWalk_extension (frames : Nat) (label : UInt8)
    (pieces : List Piece) (rest : List UInt8) :
    gifWalk frames ((Block.extension label pieces).code ++ rest) =
      gifWalk frames rest := by
  have hread := reads_extension label pieces rest
  rw [Block.code, List.cons_append, gifWalk_cons, if_neg (by decide),
    if_pos rfl, hread]

/-- The frames of blocks. -/
def frameCount (blocks : List Block) : Nat := (blocks.map Block.frames).sum

theorem frameCount_cons (block : Block) (blocks : List Block) :
    frameCount (block :: blocks) = block.frames + frameCount blocks := by
  simp [frameCount]

/-- The walk goes past one image, and the extensions around it. -/
theorem gifWalk_blocks {blocks : List Block} {frames : Nat}
    (hwhole : ∀ block ∈ blocks, block.Whole)
    (hfew : frames + frameCount blocks ≤ 1) (rest : List UInt8) :
    gifWalk frames (blocks.flatMap Block.code ++ rest) =
      gifWalk (frames + frameCount blocks) rest := by
  induction blocks generalizing frames with
  | nil => rfl
  | cons block blocks ih =>
      have hrest : ∀ other ∈ blocks, other.Whole :=
        fun other hother => hwhole other (List.mem_cons_of_mem _ hother)
      rw [frameCount_cons] at hfew ⊢
      rw [List.flatMap_cons, List.append_assoc]
      cases block with
      | image descriptor flags table codeSize pieces =>
          obtain ⟨hdescriptor, htable⟩ := hwhole _ List.mem_cons_self
          simp only [Block.frames] at hfew ⊢
          obtain rfl : frames = 0 := by omega
          rw [gifWalk_image hdescriptor htable, ih hrest (by omega)]
          congr 1
          omega
      | extension label pieces =>
          simp only [Block.frames] at hfew ⊢
          rw [gifWalk_extension, ih hrest (by omega)]
          congr 1
          omega

/-- Whole blocks with one image, and then another introduced. -/
def Second (frames : Nat) (rest : List UInt8) : Prop :=
  ∃ (blocks : List Block) (behind : List UInt8),
    rest = blocks.flatMap Block.code ++ 0x2C :: behind ∧
    (∀ block ∈ blocks, block.Whole) ∧ frames + frameCount blocks = 1

theorem Second.cons (block : Block) {frames : Nat} {rest : List UInt8}
    (hblock : block.Whole) (h : Second (frames + block.frames) rest) :
    Second frames (block.code ++ rest) := by
  obtain ⟨blocks, behind, rfl, hwhole, hone⟩ := h
  refine ⟨block :: blocks, behind, by simp, ?_, ?_⟩
  · intro other hother
    rcases List.mem_cons.mp hother with rfl | hother
    · exact hblock
    · exact hwhole other hother
  · rw [frameCount_cons]
    omega

theorem second_of_gifWalk {frames : Nat} {rest : List UInt8}
    (hfew : frames ≤ 1) (h : 1 < gifWalk frames rest) : Second frames rest := by
  induction hlength : rest.length using Nat.strongRecOn
    generalizing frames rest with
  | ind length ih =>
      cases rest with
      | nil =>
          rw [gifWalk_nil] at h
          omega
      | cons kind data =>
          rw [gifWalk_cons] at h
          by_cases himage : kind = 0x2C
          · rw [if_pos himage] at h
            subst himage
            by_cases hsecond : 1 < frames + 1
            · exact ⟨[], data, rfl, by simp, by
                simp only [frameCount, List.map_nil, List.sum_nil]
                omega⟩
            · rw [if_neg hsecond] at h
              cases hread : image data with
              | error =>
                  rw [hread] at h
                  exact absurd h hsecond
              | ok found =>
                  obtain ⟨⟨⟩, behind⟩ := found
                  rw [hread] at h
                  have hshorter := shrinks_image _ _ _ hread
                  obtain ⟨descriptor, flags, table, codeSize, pieces,
                    hdescriptor, htable, rfl⟩ := image_of_ok hread
                  have hnext := ih behind.length (by
                    simp only [List.length_cons] at hlength
                    omega) (by omega) h rfl
                  have hsecond := Second.cons
                    (.image descriptor flags table codeSize pieces)
                    ⟨hdescriptor, htable⟩ hnext
                  simpa [Block.code] using hsecond
          · rw [if_neg himage] at h
            by_cases hextension : kind = 0x21
            · rw [if_pos hextension] at h
              subst hextension
              cases hread : extension data with
              | error =>
                  rw [hread] at h
                  exact absurd h (Nat.not_lt.mpr hfew)
              | ok found =>
                  obtain ⟨⟨⟩, behind⟩ := found
                  rw [hread] at h
                  have hshorter := shrinks_extension _ _ _ hread
                  obtain ⟨label, pieces, rfl⟩ := extension_of_ok hread
                  have hnext := ih behind.length (by
                    simp only [List.length_cons] at hlength
                    omega) hfew h rfl
                  have hsecond := Second.cons
                    (.extension label pieces) trivial hnext
                  simpa [Block.code] using hsecond
            · rw [if_neg hextension] at h
              omega

theorem second_iff {frames : Nat} (hfew : frames ≤ 1) (rest : List UInt8) :
    1 < gifWalk frames rest ↔ Second frames rest := by
  constructor
  · exact second_of_gifWalk hfew
  · rintro ⟨blocks, behind, rfl, hwhole, hone⟩
    rw [gifWalk_blocks hwhole (by omega), hone, gifWalk_cons, if_pos rfl,
      if_pos (by decide)]
    decide

/-- A header and a colour table, and then blocks with a second image. -/
def SecondFrame (bytes : List UInt8) : Prop :=
  ∃ (flags : UInt8) (table rest : List UInt8),
    bytes.drop 10 = flags :: (table ++ rest) ∧
    table.length = 2 + colorTable flags ∧ Second 0 rest

theorem reads_screen {flags : UInt8} {table : List UInt8}
    (h : table.length = 2 + colorTable flags) :
    Reads screen (flags :: table) () := by
  have hsmall := colorTable_lt flags
  have hskip : Reads (skip (2 + colorTable ([flags].headD 0))) table () :=
    reads_skip table h (by
      simp only [List.headD_cons]
      omega)
  exact (Reads.exactly () [flags]).bind hskip

/-- A GIF is reported to be animated where it begins a second image. -/
theorem gifAnimated_iff (bytes : List UInt8) :
    gifAnimated bytes = true ↔ SecondFrame bytes := by
  rw [gifAnimated, decide_eq_true_iff, gifFrames, SecondFrame]
  constructor
  · intro h
    cases hread : screen (bytes.drop 10) with
    | error =>
        rw [hread] at h
        contradiction
    | ok found =>
        obtain ⟨⟨⟩, rest⟩ := found
        rw [hread] at h
        change 1 < gifWalk 0 rest at h
        obtain ⟨found, mid, hflags, hskip⟩ := Decode.of_bind hread
        obtain ⟨-, hone, -⟩ := take_ok hflags
        obtain ⟨flags, rfl⟩ := List.length_eq_one_iff.mp hone
        have hinput : bytes.drop 10 = [flags] ++ mid := by
          obtain ⟨-, hsame, hmid⟩ := Decode.of_exactly hflags
          rw [hsame, hmid, List.take_append_drop]
        have hrest := skip_ok hskip
        simp only [List.headD_cons] at hrest
        have hlong : 2 + colorTable flags ≤ mid.length := by
          by_contra hshort
          rw [hrest, List.drop_of_length_le (by omega), gifWalk_nil] at h
          contradiction
        refine ⟨flags, mid.take (2 + colorTable flags), rest, ?_,
          List.length_take_of_le hlong, second_of_gifWalk (by decide) h⟩
        rw [hrest, List.take_append_drop, hinput]
        rfl
  · rintro ⟨flags, table, rest, hinput, htable, hsecond⟩
    have hread := reads_screen htable rest
    rw [hinput]
    rw [List.cons_append] at hread
    rw [hread]
    exact (second_iff (by decide) rest).mpr hsecond

/-! ### Well-formed files -/

/-- A whole file, to its trailer. -/
structure Gif where
  head : List UInt8
  flags : UInt8
  table : List UInt8
  blocks : List Block
  length_head : head.length = 10
  length_table : table.length = 2 + colorTable flags
  whole : ∀ block ∈ blocks, block.Whole

def Gif.code (gif : Gif) : List UInt8 :=
  gif.head ++ gif.flags :: (gif.table ++
    (gif.blocks.flatMap Block.code ++ [0x3B]))

theorem gifWalk_trailer (frames : Nat) (rest : List UInt8) :
    gifWalk frames (0x3B :: rest) = frames := by
  rw [gifWalk_cons, if_neg (by decide), if_neg (by decide)]

/-- Of blocks with a second image, those before it. -/
theorem second_of_blocks {blocks : List Block} {frames : Nat}
    (hwhole : ∀ block ∈ blocks, block.Whole) (hfew : frames ≤ 1)
    (hmany : 1 < frames + frameCount blocks) (rest : List UInt8) :
    Second frames (blocks.flatMap Block.code ++ rest) := by
  induction blocks generalizing frames with
  | nil =>
      simp only [frameCount, List.map_nil, List.sum_nil] at hmany
      omega
  | cons block blocks ih =>
      have hblock := hwhole block List.mem_cons_self
      rw [frameCount_cons] at hmany
      rw [List.flatMap_cons, List.append_assoc]
      by_cases hlast : frames + block.frames ≤ 1
      · refine Second.cons block hblock (ih ?_ hlast (by omega))
        exact fun other hother => hwhole other (List.mem_cons_of_mem _ hother)
      · cases block with
        | extension label pieces => exact absurd hfew hlast
        | image descriptor flags table codeSize pieces =>
            refine ⟨[], descriptor ++ ([flags] ++ ((table ++ [codeSize]) ++
              subBlocks pieces)) ++ (blocks.flatMap Block.code ++ rest), rfl,
              by simp, ?_⟩
            simp only [Block.frames] at hlast
            simp only [frameCount, List.map_nil, List.sum_nil]
            omega

/-- A whole GIF is reported to be animated where it has more than one image. -/
theorem gifAnimated_code (gif : Gif) :
    gifAnimated gif.code = true ↔ 1 < frameCount gif.blocks := by
  have hdrop : gif.code.drop 10 = gif.flags :: (gif.table ++
      (gif.blocks.flatMap Block.code ++ [0x3B])) := by
    rw [Gif.code, ← gif.length_head, List.drop_left]
  have hread := reads_screen gif.length_table
    (gif.blocks.flatMap Block.code ++ [0x3B])
  rw [List.cons_append] at hread
  rw [gifAnimated, decide_eq_true_iff, gifFrames, hdrop, hread]
  simp only
  constructor
  · intro h
    by_contra hfew
    rw [gifWalk_blocks gif.whole (by omega), gifWalk_trailer] at h
    omega
  · intro h
    rw [second_iff (by decide)]
    exact second_of_blocks gif.whole (by decide) (by omega) _

/-- A whole PNG: its animation control has its size, and it ends. -/
structure Png where
  signature : List UInt8
  chunks : List Chunk
  length_signature : signature.length = 8
  control : ∀ chunk ∈ chunks, chunk.kind = ACTL → chunk.data.length = 8

def Png.code (png : Png) : List UInt8 :=
  png.signature ++ png.chunks.flatMap Chunk.code

/-- Before the image data there is an animation control with more than one
frame. -/
def Png.Moves (png : Png) : Prop :=
  ∃ before chunk after, png.chunks = before ++ chunk :: after ∧
    (∀ other ∈ before, other.Plain) ∧ chunk.kind = ACTL ∧
    1 < be32 chunk.data

theorem pngWalk_control {chunk : Chunk} (hkind : chunk.kind = ACTL)
    (hdata : chunk.data.length = 8) (rest : List UInt8) :
    pngWalk (chunk.code ++ rest) = decide (1 < be32 chunk.data) := by
  have hcode : chunk.code ++ rest =
      BigEndian.toBytes 4 chunk.data.length ++ ACTL ++
        (chunk.data.take 4 ++ (chunk.data.drop 4 ++ chunk.crc ++ rest)) := by
    rw [Chunk.code, hkind]
    simp only [List.append_assoc]
    rw [← List.append_assoc (chunk.data.take 4), List.take_append_drop]
  rw [hcode, pngWalk_actl (BigEndian.length_toBytes _ _)
    (List.length_take_of_le (by omega))]
  rfl

theorem pngWalk_stop {chunk : Chunk}
    (h : chunk.kind = IDAT ∨ chunk.kind = IEND) (rest : List UInt8) :
    pngWalk (chunk.code ++ rest) = false := by
  have hcode : chunk.code ++ rest =
      BigEndian.toBytes 4 chunk.data.length ++ chunk.kind ++
        (chunk.data ++ chunk.crc ++ rest) := by
    simp [Chunk.code]
  have hactl : chunk.kind ≠ ACTL := by
    rcases h with h | h <;> rw [h] <;> decide
  rw [hcode, pngWalk_head (BigEndian.length_toBytes _ _) chunk.length_kind,
    if_neg hactl, if_pos h]

theorem pngAnimated_code (png : Png) :
    pngAnimated png.code = true ↔ png.Moves := by
  rw [pngAnimated, Png.code, ← png.length_signature, List.drop_left, Png.Moves]
  have hcontrol := png.control
  generalize png.chunks = chunks at hcontrol
  induction chunks with
  | nil =>
      rw [List.flatMap_nil, pngWalk_short (by simp)]
      simp
  | cons chunk chunks ih =>
      have hrest := ih fun other hother =>
        hcontrol other (List.mem_cons_of_mem _ hother)
      rw [List.flatMap_cons]
      by_cases hplain : chunk.Plain
      · rw [pngWalk_plain hplain]
        refine hrest.trans ?_
        constructor
        · rintro ⟨before, found, after, rfl, hbefore, hfound⟩
          refine ⟨chunk :: before, found, after, rfl, ?_, hfound⟩
          intro other hother
          rcases List.mem_cons.mp hother with rfl | hother
          · exact hplain
          · exact hbefore other hother
        · rintro ⟨before, found, after, hsplit, hbefore, hkind, hmore⟩
          cases before with
          | nil =>
              obtain ⟨rfl, -⟩ := List.cons.inj hsplit
              exact absurd hkind hplain.1
          | cons first before =>
              obtain ⟨-, rfl⟩ := List.cons.inj hsplit
              exact ⟨before, found, after, rfl, fun other hother =>
                hbefore other (List.mem_cons_of_mem _ hother), hkind, hmore⟩
      · have hfirst : ∀ before found after,
            chunk :: chunks = before ++ found :: after →
            (∀ other ∈ before, other.Plain) → found = chunk := by
          intro before found after hsplit hbefore
          cases before with
          | nil => exact (List.cons.inj hsplit).1.symm
          | cons first before =>
              obtain ⟨rfl, -⟩ := List.cons.inj hsplit
              exact absurd (hbefore _ List.mem_cons_self) hplain
        by_cases hkind : chunk.kind = ACTL
        · rw [pngWalk_control hkind (hcontrol _ List.mem_cons_self hkind),
            decide_eq_true_iff]
          constructor
          · exact fun hmore => ⟨[], chunk, chunks, rfl, by simp, hkind, hmore⟩
          · rintro ⟨before, found, after, hsplit, hbefore, -, hmore⟩
            rwa [hfirst before found after hsplit hbefore] at hmore
        · have hstop : chunk.kind = IDAT ∨ chunk.kind = IEND := by
            by_contra hnot
            exact hplain ⟨hkind, not_or.mp hnot⟩
          rw [pngWalk_stop hstop]
          refine iff_of_false (by simp) ?_
          rintro ⟨before, found, after, hsplit, hbefore, hactl, -⟩
          rw [hfirst before found after hsplit hbefore] at hactl
          exact hkind hactl

/-- A chunk that stands for the image, and one that ends the file. -/
def imageChunk : Chunk := ⟨IDAT, [0], [0, 0, 0, 0], rfl, by decide, rfl⟩

def endChunk : Chunk := ⟨IEND, [], [0, 0, 0, 0], rfl, by decide, rfl⟩

/-- An animation control of a single frame. -/
def singleFrame : Chunk :=
  ⟨ACTL, [0, 0, 0, 1, 0, 0, 0, 0], [0, 0, 0, 0], rfl, by decide, rfl⟩

def singlePng : Png where
  signature := [0x89, 0x50, 0x4E, 0x47, 0x0D, 0x0A, 0x1A, 0x0A]
  chunks := [singleFrame, imageChunk, endChunk]
  length_signature := rfl
  control := by decide +kernel

/-- A well-formed PNG with an animation control before its image is reported to
be still where it declares one frame. -/
theorem single_not_animated :
    singlePng.chunks.map Chunk.kind = [ACTL, IDAT, IEND] ∧
      pngAnimated singlePng.code = false := by
  refine ⟨rfl, ?_⟩
  have hsplit : singlePng.code.drop 8 = singleFrame.code ++
      (imageChunk.code ++ endChunk.code) := by
    decide +kernel
  rw [pngAnimated, hsplit, pngWalk_control rfl rfl]
  decide +kernel

/-- However deep they are nested, the walks over boxes and elements end without
an overflow, with a few items in order inside their range, which is inside the
input; and what is reported to be animated is just what declares or begins a
second frame. -/
theorem walks_sound (input : Input) :
    (∀ within, Reached input.bytes within →
      within.start ≤ within.stop ∧ within.stop ≤ input.bytes.length ∧
        Sound within (boxes input.bytes within) ∧
        Sound within (elements input.bytes within)) ∧
    (pngAnimated input.bytes = true ↔ Declares (input.bytes.drop 8)) ∧
    (gifAnimated input.bytes = true ↔ SecondFrame input.bytes) ∧
    (∀ png : Png, pngAnimated png.code = true ↔ png.Moves) ∧
    ∀ gif : Gif, gifAnimated gif.code = true ↔ 1 < frameCount gif.blocks := by
  refine ⟨?_, pngAnimated_iff _, gifAnimated_iff _, pngAnimated_code,
    gifAnimated_code⟩
  intro within hreached
  obtain ⟨hle, hstop⟩ := hreached.inside
  exact ⟨hle, hstop, sound_boxes _ (hstop.trans_lt input.length_lt),
    sound_elements input.length_lt within⟩

end Media

end Bridgething
