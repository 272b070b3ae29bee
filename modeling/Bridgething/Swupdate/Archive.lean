/-
Newc archives as they are written, and what the walk over one counts: all of its
payload, or nothing where the archive is cut short.
-/
import Bridgething.Swupdate.Meter

namespace Bridgething

namespace Swupdate

/-! ### Headers -/

/-- A digit, and whether it is written in upper case. -/
abbrev HexDigit := Fin 16 × Bool

def HexDigit.char (digit : HexDigit) : UInt8 :=
  if digit.1 < 10 then UInt8.ofNat (0x30 + digit.1)
  else if digit.2 then UInt8.ofNat (0x41 + (digit.1 - 10))
  else UInt8.ofNat (0x61 + (digit.1 - 10))

/-- A number of 32 bits in eight digits. -/
structure Field where
  digits : List HexDigit
  length_digits : digits.length = 8

def Field.code (field : Field) : List UInt8 := field.digits.map HexDigit.char

def Field.value (field : Field) : Nat :=
  Nat.ofDigits 16 (field.digits.map fun digit => digit.1.val).reverse

/-- The fields before the size of the file, those between it and the size of the
name, and the last. -/
structure EntryHeader where
  checked : Bool
  file : List Field
  length_file : file.length = 6
  fileSize : Field
  device : List Field
  length_device : device.length = 4
  nameSize : Field
  check : Field

namespace EntryHeader

def magic (header : EntryHeader) : List UInt8 :=
  [0x30, 0x37, 0x30, 0x37, 0x30, if header.checked then 0x32 else 0x31]

def fields (header : EntryHeader) : List Field :=
  header.file ++ header.fileSize :: (header.device ++
    [header.nameSize, header.check])

def code (header : EntryHeader) : List UInt8 :=
  header.magic ++ header.fields.flatMap Field.code

/-- The header, and a name with the zero that ends it. -/
def named (header : EntryHeader) (name : List UInt8) : List UInt8 :=
  header.code ++ (name ++ [0])

end EntryHeader

theorem Field.length_code (field : Field) : field.code.length = 8 := by
  rw [code, List.length_map, field.length_digits]

theorem hexDigit?_char (digit : HexDigit) :
    hexDigit? digit.char = some digit.1.val := by
  have hall : ∀ digit : HexDigit, hexDigit? digit.char = some digit.1.val := by
    decide +kernel
  exact hall digit

theorem char_ne_plus (digit : HexDigit) : digit.char ≠ 0x2b := by
  have hall : ∀ digit : HexDigit, digit.char ≠ 0x2b := by
    decide +kernel
  exact hall digit

theorem hexDigits?_chars (digits : List HexDigit) (value : Nat) :
    (digits.map HexDigit.char).foldlM
        (fun value byte => (hexDigit? byte).map (value * 16 + ·)) value =
      some (digits.foldl (fun value digit => value * 16 + digit.1.val)
        value) := by
  induction digits generalizing value with
  | nil => rfl
  | cons digit digits ih =>
      rw [List.map_cons, List.foldlM_cons, hexDigit?_char, Option.map_some,
        List.foldl_cons]
      exact ih _

theorem Field.fromStrRadix16 (field : Field) :
    fromStrRadix16 field.code = some field.value := by
  obtain ⟨digits, hlength⟩ := field
  have hvalue : Nat.ofDigits 16 (digits.map fun digit => digit.1.val).reverse =
      digits.foldl (fun value digit => value * 16 + digit.1.val) 0 := by
    rw [Nat.ofDigits_eq_foldr, List.foldr_reverse, List.foldl_map]
    congr 1
    funext value digit
    simp only [Nat.cast_id]
    omega
  have hread := hexDigits?_chars digits 0
  rw [← hvalue] at hread
  rcases digits with _ | ⟨first, _ | ⟨second, rest⟩⟩
  · cases hlength
  · cases hlength
  · simp only [code, List.map_cons, Swupdate.fromStrRadix16,
      if_neg (char_ne_plus first)]
    exact hread

theorem drop_fields (fields : List Field) (index : Nat) :
    (fields.flatMap Field.code).drop (index * 8) =
      (fields.drop index).flatMap Field.code := by
  induction index generalizing fields with
  | zero => simp
  | succ index ih =>
      cases fields with
      | nil => simp
      | cons field fields =>
          have hsplit : (index + 1) * 8 = field.code.length + index * 8 := by
            rw [field.length_code]
            omega
          rw [List.flatMap_cons, hsplit, List.drop_length_add_append, ih,
            List.drop_succ_cons]

namespace EntryHeader

variable (header : EntryHeader)

theorem length_fields : header.fields.length = 13 := by
  simp [fields, header.length_file, header.length_device]

theorem length_code : header.code.length = CPIO_HEADER_LEN := by
  have hfields : (header.fields.flatMap Field.code).length =
      header.fields.length * 8 := by
    rw [List.length_flatMap, List.map_congr_left
      (fun field _ => field.length_code), List.map_const', List.sum_replicate]
    rfl
  rw [code, List.length_append, hfields, length_fields]
  rfl

theorem isNewc_code : isNewc header.code = true := by
  by_cases hchecked : header.checked = true <;>
    simp [isNewc, code, magic, hchecked]

theorem cpioField_code {index : Nat} {field : Field} (rest : List Field)
    (h : header.fields.drop index = field :: rest) :
    cpioField header.code index = pure field.value := by
  have hmagic : 6 + index * 8 = header.magic.length + index * 8 := rfl
  have hcode : (header.code.drop (6 + index * 8)).take 8 = field.code := by
    rw [code, hmagic, List.drop_length_add_append, drop_fields, h,
      List.flatMap_cons, ← field.length_code, List.take_left]
  rw [cpioField, hcode, field.fromStrRadix16]

theorem fileSize_code :
    cpioField header.code 6 = pure header.fileSize.value := by
  refine header.cpioField_code
    (header.device ++ [header.nameSize, header.check]) ?_
  rw [fields, ← header.length_file, List.drop_left]

theorem nameSize_code :
    cpioField header.code 11 = pure header.nameSize.value := by
  refine header.cpioField_code [header.check] ?_
  have hsplit : header.fields =
      (header.file ++ header.fileSize :: header.device) ++
        [header.nameSize, header.check] := by
    simp [fields]
  have hlength :
      11 = (header.file ++ header.fileSize :: header.device).length := by
    simp [header.length_file, header.length_device]
  rw [hsplit, hlength, List.drop_left]

end EntryHeader

/-! ### Entries -/

/-- What fills up to a multiple of four. -/
abbrev Pad (length : Nat) :=
  { bytes : List UInt8 // bytes.length = pad4 length }

def IsZchunk (bytes : List UInt8) : Prop :=
  bytes.take 5 = ZCK_MAGIC ∨ bytes.take 5 = ZCK_HEADER_ONLY_MAGIC

/-- An image as it is, or one in chunks. -/
inductive Body
  | raw (bytes : List UInt8) (plain : ¬ IsZchunk bytes)
  | zchunk (headerOnly : Bool) (header : ZckHeader) (chunks : List UInt8)

namespace Body

def zckMagic (headerOnly : Bool) : List UInt8 :=
  if headerOnly then ZCK_HEADER_ONLY_MAGIC else ZCK_MAGIC

def bytes : Body → List UInt8
  | raw bytes _ => bytes
  | zchunk headerOnly header chunks =>
      zckMagic headerOnly ++ (header.code ++ chunks)

/-- Its size, or the one its header declares. -/
def payload : Body → Nat
  | raw bytes _ => bytes.length
  | zchunk _ header _ => header.uncompressed

end Body

structure Entry where
  header : EntryHeader
  name : List UInt8
  body : Body
  namePad : Pad (CPIO_HEADER_LEN + (name.length + 1))
  bodyPad : Pad body.bytes.length
  name_length : header.nameSize.value = name.length + 1
  file_size : header.fileSize.value = body.bytes.length
  name_no_zero : 0 ∉ name
  name_not_trailer : name ≠ CPIO_TRAILER

namespace Entry

def contents (entry : Entry) : List UInt8 :=
  entry.namePad ++ (entry.body.bytes ++ entry.bodyPad)

def code (entry : Entry) : List UInt8 :=
  entry.header.named entry.name ++ entry.contents

/-- Nothing is counted of the description, nor of what is named after it. -/
def counted (entry : Entry) : Nat :=
  if SW_DESCRIPTION.isPrefixOf entry.name then 0 else entry.body.payload

end Entry

theorem stripSuffix_zero (name : List UInt8) :
    stripSuffix (name ++ [0]) = name := by
  rw [stripSuffix, List.getLast?_concat, if_pos rfl, List.dropLast_concat]

/-- The walk behind a header and its name. -/
theorem nextEntry_named {header : EntryHeader} {name : List UInt8}
    (hname : header.nameSize.value = name.length + 1) (behind : List UInt8) :
    nextEntry (header.named name ++ behind) =
      if name = CPIO_TRAILER then
        .ok (none, behind.drop (pad4 (CPIO_HEADER_LEN + (name.length + 1))))
      else
        (countEntry header.fileSize.value name >>= fun bytes =>
          pure (some bytes))
          (behind.drop (pad4 (CPIO_HEADER_LEN + (name.length + 1)))) := by
  have hheader : readExact CPIO_HEADER_LEN (header.named name ++ behind) =
      .ok (header.code, name ++ [0] ++ behind) := by
    rw [← header.length_code, EntryHeader.named, List.append_assoc]
    exact Decode.Reads.exactly _ header.code _
  have hread : readExact header.nameSize.value (name ++ [0] ++ behind) =
      .ok (name ++ [0], behind) := by
    have hlength : header.nameSize.value = (name ++ [0]).length := by
      rw [hname, List.length_append, List.length_singleton]
    rw [hlength]
    exact Decode.Reads.exactly _ (name ++ [0]) behind
  rw [nextEntry, Decode.bind_ok hheader, if_pos header.isNewc_code,
    header.fileSize_code, header.nameSize_code, pure_bind, pure_bind,
    Decode.bind_ok hread, stripSuffix_zero, ← hname]
  rw [Decode.bind_ok (show Decode.seek
    (pad4 (CPIO_HEADER_LEN + header.nameSize.value)) behind = _ from rfl)]
  split <;> rfl

/-- A header or a name that is cut short. -/
theorem nextEntry_short {header : EntryHeader} {name : List UInt8}
    (hname : header.nameSize.value = name.length + 1) {cut : Nat}
    (hcut : cut < (header.named name).length) :
    ∃ error, nextEntry ((header.named name).take cut) = .error error := by
  have hlength : (header.named name).length =
      CPIO_HEADER_LEN + (name.length + 1) := by
    rw [EntryHeader.named, List.length_append, header.length_code,
      List.length_append, List.length_singleton]
  rcases Nat.lt_or_ge cut CPIO_HEADER_LEN with hshort | hlong
  · refine ⟨_, Decode.bind_error (Decode.exactly_short ?_)⟩
    rw [List.length_take]
    omega
  · have hsplit : (header.named name).take cut =
        header.code ++ (name ++ [0]).take (cut - CPIO_HEADER_LEN) := by
      rw [EntryHeader.named, List.take_append,
        List.take_of_length_le (header.length_code ▸ hlong),
        header.length_code]
    have hheader : readExact CPIO_HEADER_LEN ((header.named name).take cut) =
        .ok (header.code, (name ++ [0]).take (cut - CPIO_HEADER_LEN)) := by
      rw [hsplit, ← header.length_code]
      exact Decode.Reads.exactly _ header.code _
    rw [nextEntry, Decode.bind_ok hheader, if_pos header.isNewc_code,
      header.fileSize_code, header.nameSize_code, pure_bind, pure_bind]
    refine ⟨_, Decode.bind_error (Decode.exactly_short ?_)⟩
    rw [List.length_take, hname]
    omega

theorem Body.entryBytes_bytes (body : Body) :
    ∃ bytes rest, entryBytes body.bytes.length body.bytes =
      .ok (bytes, rest) ∧ u64 bytes = u64 body.payload := by
  cases body with
  | raw bytes plain =>
      simp only [Body.bytes, payload]
      rw [entryBytes]
      split
      · exact ⟨_, _, rfl, rfl⟩
      · next hlong =>
          have hread : readExact 5 bytes = .ok (bytes.take 5, bytes.drop 5) :=
            Decode.exactly_ok (Nat.not_lt.mp hlong)
          have hplain : ¬ (bytes.take 5 = ZCK_MAGIC ∨
              bytes.take 5 = ZCK_HEADER_ONLY_MAGIC) := plain
          rw [Decode.bind_ok hread, if_neg hplain]
          exact ⟨_, _, rfl, rfl⟩
  | zchunk headerOnly header chunks =>
      have hmagic : (zckMagic headerOnly).length = 5 := by
        cases headerOnly <;> rfl
      have hknown : zckMagic headerOnly = ZCK_MAGIC ∨
          zckMagic headerOnly = ZCK_HEADER_ONLY_MAGIC := by
        cases headerOnly
        · exact Or.inl rfl
        · exact Or.inr rfl
      have hread : readExact 5 (zckMagic headerOnly ++
          (header.code ++ chunks)) =
            .ok (zckMagic headerOnly, header.code ++ chunks) := by
        rw [← hmagic]
        exact Decode.Reads.exactly _ (zckMagic headerOnly) _
      have hlong : ¬ (zckMagic headerOnly ++
          (header.code ++ chunks)).length < 5 := by
        rw [List.length_append, hmagic]
        omega
      refine ⟨u64 header.uncompressed, chunks, ?_, Nat.mod_mod _ _⟩
      simp only [Body.bytes]
      rw [entryBytes, if_neg hlong, Decode.bind_ok hread, if_pos hknown]
      exact header.reads_uncompressed chunks

namespace Entry

variable (entry : Entry)

theorem payloadEntry_bytes (rest : List UInt8) :
    ∃ bytes, payloadEntry entry.body.bytes.length entry.name
        (entry.body.bytes ++ rest) =
          .ok (bytes, entry.body.bytes ++ rest) ∧
      u64 bytes = u64 entry.counted := by
  rw [payloadEntry, counted]
  split
  · exact ⟨0, rfl, rfl⟩
  · obtain ⟨bytes, left, hbytes, hsame⟩ := entry.body.entryBytes_bytes
    have hread : entryBytes entry.body.bytes.length
        ((entry.body.bytes ++ rest).take entry.body.bytes.length) =
          .ok (bytes, left) := by
      rw [List.take_left]
      exact hbytes
    exact ⟨bytes, Decode.within_ok hread, hsame⟩

/-- A turn over a whole entry. -/
theorem nextEntry_code (rest : List UInt8) :
    ∃ bytes, nextEntry (entry.code ++ rest) = .ok (some bytes, rest) ∧
      u64 bytes = u64 entry.counted := by
  obtain ⟨bytes, hbytes, hsame⟩ :=
    entry.payloadEntry_bytes (entry.bodyPad ++ rest)
  refine ⟨bytes, ?_, hsame⟩
  have hcontents : (entry.contents ++ rest).drop
      (pad4 (CPIO_HEADER_LEN + (entry.name.length + 1))) =
        entry.body.bytes ++ (entry.bodyPad ++ rest) := by
    rw [contents, List.append_assoc, List.append_assoc]
    exact List.drop_left' entry.namePad.property
  have hdone : (entry.body.bytes ++ (entry.bodyPad ++ rest)).drop
      (entry.body.bytes.length + pad4 entry.body.bytes.length) = rest := by
    rw [List.drop_length_add_append]
    exact List.drop_left' entry.bodyPad.property
  have hcount : countEntry entry.body.bytes.length entry.name
      (entry.body.bytes ++ (entry.bodyPad ++ rest)) = .ok (bytes, rest) := by
    rw [countEntry, Decode.bind_ok hbytes]
    exact congrArg (fun left => Except.ok (bytes, left)) hdone
  rw [code, List.append_assoc, nextEntry_named entry.name_length,
    if_neg entry.name_not_trailer, hcontents, entry.file_size,
    Decode.bind_ok hcount]
  rfl

/-- A turn over an entry that is cut short leaves nothing. -/
theorem nextEntry_cut {cut : Nat} (hcut : cut < entry.code.length) :
    (∃ error, nextEntry (entry.code.take cut) = .error error) ∨
      ∃ bytes, nextEntry (entry.code.take cut) = .ok (some bytes, []) := by
  have hwhole : cut < (entry.header.named entry.name).length +
      entry.contents.length := by
    rw [← List.length_append]
    exact hcut
  rcases Nat.lt_or_ge cut (entry.header.named entry.name).length with
    hshort | hlong
  · rw [code, List.take_append_of_le_length (Nat.le_of_lt hshort)]
    exact Or.inl (nextEntry_short entry.name_length hshort)
  have hcontents : entry.contents.length =
      pad4 (CPIO_HEADER_LEN + (entry.name.length + 1)) +
        (entry.body.bytes.length + pad4 entry.body.bytes.length) := by
    rw [contents, List.length_append, List.length_append,
      entry.namePad.property, entry.bodyPad.property]
  rw [code, List.take_append, List.take_of_length_le hlong,
    nextEntry_named entry.name_length, if_neg entry.name_not_trailer,
    entry.file_size, countEntry]
  generalize hleft : (entry.contents.take
    (cut - (entry.header.named entry.name).length)).drop
      (pad4 (CPIO_HEADER_LEN + (entry.name.length + 1))) = left
  have hnone : left.drop
      (entry.body.bytes.length + pad4 entry.body.bytes.length) = [] := by
    rw [← hleft, List.drop_drop, List.drop_eq_nil_iff, List.length_take]
    omega
  rcases hcounted : payloadEntry entry.body.bytes.length entry.name left with
    error | ⟨bytes, behind⟩
  · exact Or.inl ⟨error, Decode.bind_error (Decode.bind_error hcounted)⟩
  · have hsame : behind = left := by
      rw [payloadEntry] at hcounted
      split at hcounted
      · exact (Prod.mk.inj (Except.ok.inj hcounted)).2.symm
      · exact Decode.of_within hcounted
    subst hsame
    refine Or.inr ⟨bytes, ?_⟩
    have hcount : (payloadEntry entry.body.bytes.length entry.name >>=
        fun bytes => Decode.seek (entry.body.bytes.length +
          pad4 entry.body.bytes.length) >>= fun _ => pure bytes) behind =
            .ok (bytes, []) := by
      rw [Decode.bind_ok hcounted]
      exact congrArg (fun left => Except.ok (bytes, left)) hnone
    exact Decode.bind_ok hcount

end Entry

/-! ### Archives -/

/-- Entries, and the trailer with whatever stands behind its name. -/
structure Archive where
  entries : List Entry
  trailer : EntryHeader
  trailer_name : trailer.nameSize.value = CPIO_TRAILER.length + 1
  behind : List UInt8

namespace Archive

def entriesCode (archive : Archive) : List UInt8 :=
  archive.entries.flatMap Entry.code

/-- Up to the end of the name of the trailer. -/
def named (archive : Archive) : List UInt8 :=
  archive.entriesCode ++ archive.trailer.named CPIO_TRAILER

def code (archive : Archive) : List UInt8 := archive.named ++ archive.behind

def payload (archive : Archive) : Nat :=
  (archive.entries.map Entry.counted).sum

end Archive

theorem u64_add {left other : Nat} (total : Nat) (h : u64 left = u64 other) :
    u64 (u64 total + left) = u64 (total + other) := by
  rw [u64, u64, u64, Nat.mod_add_mod]
  exact Nat.ModEq.add_left total h

theorem payloadFrom_entries (entries : List Entry) (total : Nat)
    (behind : List UInt8) :
    payloadFrom (u64 total) (entries.flatMap Entry.code ++ behind) =
      payloadFrom (u64 (total + (entries.map Entry.counted).sum)) behind := by
  induction entries generalizing total with
  | nil => rfl
  | cons entry entries ih =>
      obtain ⟨bytes, hnext, hsame⟩ :=
        entry.nextEntry_code (entries.flatMap Entry.code ++ behind)
      rw [List.flatMap_cons, List.append_assoc, payloadFrom_entry hnext,
        u64_add total hsame, ih, List.map_cons, List.sum_cons, Nat.add_assoc]

theorem payloadFrom_nil (total : Nat) :
    payloadFrom total [] = .error .unexpectedEof :=
  payloadFrom_error rfl

theorem payloadFrom_cut (entries : List Entry) (total : Nat)
    {header : EntryHeader}
    (hname : header.nameSize.value = CPIO_TRAILER.length + 1) {cut : Nat}
    (hcut : cut < (entries.flatMap Entry.code ++
      header.named CPIO_TRAILER).length) :
    ∃ error, payloadFrom (u64 total) ((entries.flatMap Entry.code ++
      header.named CPIO_TRAILER).take cut) = .error error := by
  induction entries generalizing total cut with
  | nil =>
      obtain ⟨error, herror⟩ := nextEntry_short hname hcut
      exact ⟨error, payloadFrom_error herror⟩
  | cons entry entries ih =>
      rw [List.flatMap_cons, List.append_assoc] at hcut ⊢
      rcases Nat.lt_or_ge cut entry.code.length with hshort | hlong
      · rw [List.take_append_of_le_length (Nat.le_of_lt hshort)]
        rcases entry.nextEntry_cut hshort with ⟨error, hnext⟩ | ⟨bytes, hnext⟩
        · exact ⟨error, payloadFrom_error hnext⟩
        · rw [payloadFrom_entry hnext]
          exact ⟨_, payloadFrom_nil _⟩
      · rw [List.take_append, List.take_of_length_le hlong]
        obtain ⟨bytes, hnext, hsame⟩ := entry.nextEntry_code
          ((entries.flatMap Entry.code ++ header.named CPIO_TRAILER).take
            (cut - entry.code.length))
        rw [payloadFrom_entry hnext, u64_add total hsame]
        refine ih _ ?_
        rw [List.length_append] at hcut
        omega

namespace Archive

/-- Of a whole archive, everything is counted. -/
theorem payloadBytes_code (archive : Archive) :
    payloadBytes archive.code = .ok (u64 archive.payload) := by
  have hstart := payloadFrom_entries archive.entries 0
    (archive.trailer.named CPIO_TRAILER ++ archive.behind)
  rw [Nat.zero_add] at hstart
  rw [payloadBytes, code, named, entriesCode, List.append_assoc]
  have hnext := nextEntry_named archive.trailer_name archive.behind
  rw [if_pos rfl] at hnext
  rw [payloadFrom_trailer hnext] at hstart
  exact hstart

/-- Of one that is cut short, nothing. -/
theorem payloadBytes_cut (archive : Archive) {cut : Nat}
    (hcut : cut < archive.named.length) :
    ∃ error, payloadBytes (archive.code.take cut) = .error error := by
  rw [code, List.take_append_of_le_length (Nat.le_of_lt hcut)]
  exact payloadFrom_cut archive.entries 0 archive.trailer_name hcut

end Archive

/-- The walk counts an archive whole or not at all, and an integer is read back
where ten bytes hold it. -/
theorem meter_counts :
    (∀ archive : Archive,
      payloadBytes archive.code = .ok (u64 archive.payload)) ∧
    (∀ (archive : Archive) (cut : Fin archive.named.length),
      ∃ error, payloadBytes (archive.code.take cut) = .error error) ∧
    (∀ (number : U64) (rest : List UInt8),
      compint (putCompint number ++ rest) = .ok (number, rest)) ∧
    ∀ (number : Nat) (rest : List UInt8),
      ZCK_MAX_COMPINT_BYTES < (putCompint number).length →
        compint (putCompint number ++ rest) =
          .error (.invalidData "zchunk integer is too long") :=
  ⟨Archive.payloadBytes_code,
    fun archive cut => archive.payloadBytes_cut cut.isLt,
    reads_compint, fun _ rest hlong => compint_long hlong rest⟩

/-! ### What is signed beside the description -/

def smallField (high low : Fin 16) : Field where
  digits := List.replicate 6 (0, true) ++ [(high, true), (low, true)]
  length_digits := rfl

def plainHeader (fileSize nameSize : Field) : EntryHeader where
  checked := true
  file := List.replicate 6 (smallField 0 0)
  length_file := List.length_replicate
  fileSize := fileSize
  device := List.replicate 4 (smallField 0 0)
  length_device := List.length_replicate
  nameSize := nameSize
  check := smallField 0 0

/-- A signature of one byte. -/
def signature : Entry where
  header := plainHeader (smallField 0 1) (smallField 1 3)
  name := SW_DESCRIPTION ++ [0x2e, 0x73, 0x69, 0x67]
  body := .raw [9] (by simp [IsZchunk, ZCK_MAGIC, ZCK_HEADER_ONLY_MAGIC])
  namePad := ⟨[0, 0, 0], rfl⟩
  bodyPad := ⟨[0, 0, 0], rfl⟩
  name_length := rfl
  file_size := rfl
  name_no_zero := by decide
  name_not_trailer := by decide

def signed : Archive where
  entries := [signature]
  trailer := plainHeader (smallField 0 0) (smallField 0 11)
  trailer_name := rfl
  behind := []

/-- It is not the description, and is not counted. -/
theorem signature_not_counted :
    ¬ ∀ archive : Archive, payloadBytes archive.code =
      .ok (u64 ((archive.entries.filter (·.name ≠ SW_DESCRIPTION)).map
        fun entry => entry.body.payload).sum) := by
  intro hall
  have hsigned := hall signed
  rw [signed.payloadBytes_code] at hsigned
  have hcounted : signed.payload = 0 := by decide
  have hclaimed : ((signed.entries.filter (·.name ≠ SW_DESCRIPTION)).map
      fun entry => entry.body.payload).sum = 1 := by decide
  rw [hcounted, hclaimed] at hsigned
  exact absurd (Except.ok.inj hsigned) (by decide)

end Swupdate

end Bridgething
