/-
The log of a cached asset: records that are appended, and the scan that rebuilds
the index when the log is opened.
-/
import Bridgething.Lib.BigEndian
import Bridgething.Lib.RecordLog
import Bridgething.RangeProxy.Segments

namespace Bridgething

namespace RangeProxy

open RecordLog

def HEADER_LEN : Nat := 8

def MAX_RECORD_LEN : Nat := 8 * 1024 * 1024

def RESERVE_STEP : Nat := 32 * 1024 * 1024

def toLeBytes (value : Nat) : List UInt8 :=
  (BigEndian.toBytes 4 value).reverse

def fromLeBytes (bytes : List UInt8) : Nat :=
  BigEndian.ofBytes bytes.reverse

/-- A record that may be appended. -/
structure Record where
  zckStart : UInt32
  bytes : List UInt8
  nonempty : 0 < bytes.length
  bounded : bytes.length ≤ MAX_RECORD_LEN

namespace Record

def checked (zckStart : UInt32) (bytes : List UInt8) :
    Except String Record :=
  if bytes.length > U32_MAX then .error "range record longer than u32"
  else if h : bytes.length = 0 ∨ bytes.length > MAX_RECORD_LEN then
    .error "range record length out of bounds"
  else
    .ok {
      zckStart := zckStart
      bytes := bytes
      nonempty := by omega
      bounded := by omega }

def encode (record : Record) : List UInt8 :=
  toLeBytes record.zckStart.toNat ++ toLeBytes record.bytes.length ++
    record.bytes

/-- What the record inserts into the index, where it starts at a place of the
log. -/
def insertAt (record : Record) (at' : Nat) : Insert :=
  ⟨record.zckStart.toNat, at' + HEADER_LEN, record.bytes.length⟩

end Record

/-- `endAt` is where the next record is written. -/
structure AssetLog where
  file : List UInt8
  endAt : Nat
  reservedSteps : Nat
  index : CacheIndex

/-- A write to a place of a file; what lay between the end and the place is
zeros. -/
def writeAllAt (file bytes : List UInt8) (at' : Nat) : List UInt8 :=
  (file ++ List.replicate (at' - file.length) 0).take at' ++ bytes ++
    file.drop (at' + bytes.length)

/-- The loop of `scan`, from a place of the file. -/
def scanFrom (file : List UInt8) (pos : Nat) (index : CacheIndex) :
    CacheIndex × Nat :=
  if _h : pos + HEADER_LEN ≤ file.length then
    let header := (file.drop pos).take HEADER_LEN
    let zckStart := fromLeBytes (header.take 4)
    let len := fromLeBytes (header.drop 4)
    if len = 0 ∨ len > MAX_RECORD_LEN ∨
        pos + HEADER_LEN + len > file.length then
      (index, pos)
    else
      scanFrom file (pos + (HEADER_LEN + len))
        (index.insert zckStart (pos + HEADER_LEN) len)
  else (index, pos)
termination_by file.length - pos
decreasing_by
  unfold HEADER_LEN at *
  omega

namespace AssetLog

/-- A torn record at the end is cut off. -/
def «open» (file : List UInt8) : AssetLog :=
  let scanned := scanFrom file 0 {}
  { file := if scanned.2 ≠ file.length then file.take scanned.2 else file
    endAt := scanned.2
    reservedSteps := scanned.2 / RESERVE_STEP
    index := scanned.1 }

/-- What an append does while it holds the lock of the file. -/
def write (log : AssetLog) (record : Record) : AssetLog :=
  let endAt := log.endAt + record.encode.length
  { log with
    file := writeAllAt log.file record.encode log.endAt
    endAt := endAt
    reservedSteps := max (endAt / RESERVE_STEP) log.reservedSteps }

/-- What an append does to the index once its record is written. -/
def note (log : AssetLog) (record : Record) (at' : Nat) : AssetLog :=
  { log with
    index := log.index.insert record.zckStart.toNat (at' + HEADER_LEN)
      record.bytes.length }

def append (log : AssetLog) (zckStart : UInt32) (bytes : List UInt8) :
    Except String Nat × AssetLog :=
  match Record.checked zckStart bytes with
  | .error error => (.error error, log)
  | .ok record =>
      (.ok (log.endAt + HEADER_LEN),
        (log.write record).note record log.endAt)

end AssetLog

/-! ### Records -/

@[simp] theorem length_toLeBytes (value : Nat) :
    (toLeBytes value).length = 4 := by
  simp [toLeBytes]

theorem fromLeBytes_toLeBytes {value : Nat} (h : value < 2 ^ 32) :
    fromLeBytes (toLeBytes value) = value := by
  rw [fromLeBytes, toLeBytes, List.reverse_reverse]
  exact BigEndian.ofBytes_toBytes_of_lt (by omega)

theorem fromLeBytes_lt {bytes : List UInt8} (h : bytes.length = 4) :
    fromLeBytes bytes < 2 ^ 32 := by
  have hlt := BigEndian.ofBytes_lt bytes.reverse
  rw [List.length_reverse, h] at hlt
  exact hlt

theorem toLeBytes_fromLeBytes {bytes : List UInt8} (h : bytes.length = 4) :
    toLeBytes (fromLeBytes bytes) = bytes := by
  have hback := BigEndian.toBytes_ofBytes bytes.reverse
  rw [List.length_reverse, h] at hback
  rw [toLeBytes, fromLeBytes, hback, List.reverse_reverse]

namespace Record

theorem length_encode (record : Record) :
    record.encode.length = HEADER_LEN + record.bytes.length := by
  simp only [encode, List.length_append, length_toLeBytes]
  rfl

theorem length_lt (record : Record) : record.bytes.length < 2 ^ 32 := by
  have hbounded := record.bounded
  unfold MAX_RECORD_LEN at hbounded
  omega

/-- The record at the front of some bytes, as `scan` looks for it. -/
def read (s : List UInt8) : Option Record :=
  let header := s.take HEADER_LEN
  let len := fromLeBytes (header.drop 4)
  if h : HEADER_LEN + len ≤ s.length ∧ 0 < len ∧ len ≤ MAX_RECORD_LEN then
    some {
      zckStart := .ofNat (fromLeBytes (header.take 4))
      bytes := (s.drop HEADER_LEN).take len
      nonempty := by
        rw [List.length_take, List.length_drop]
        omega
      bounded := by
        rw [List.length_take, List.length_drop]
        omega }
  else none

theorem header_encode (record : Record) (rest : List UInt8) :
    (record.encode ++ rest).take HEADER_LEN =
        toLeBytes record.zckStart.toNat ++ toLeBytes record.bytes.length ∧
      (record.encode ++ rest).drop HEADER_LEN = record.bytes ++ rest := by
  have hheader : (toLeBytes record.zckStart.toNat ++
      toLeBytes record.bytes.length).length = HEADER_LEN := by
    simp [HEADER_LEN]
  rw [encode, List.append_assoc]
  exact ⟨List.take_left' hheader, List.drop_left' hheader⟩

theorem read_encode (record : Record) (rest : List UInt8) :
    read (record.encode ++ rest) = some record := by
  obtain ⟨hheader, hbytes⟩ := record.header_encode rest
  have hlength := record.length_encode
  have hlen : fromLeBytes (((record.encode ++ rest).take HEADER_LEN).drop 4) =
      record.bytes.length := by
    rw [hheader, List.drop_left' (length_toLeBytes _),
      fromLeBytes_toLeBytes record.length_lt]
  have hstart : fromLeBytes (((record.encode ++ rest).take HEADER_LEN).take 4) =
      record.zckStart.toNat := by
    rw [hheader, List.take_left' (length_toLeBytes _),
      fromLeBytes_toLeBytes record.zckStart.toNat_lt]
  unfold read
  simp only [hlen, hstart, hbytes]
  rw [dif_pos]
  · simp
  · rw [List.length_append, hlength]
    exact ⟨Nat.le_add_right _ _, record.nonempty, record.bounded⟩

theorem encode_of_read {s : List UInt8} {record : Record}
    (h : read s = some record) : record.encode <+: s := by
  unfold read at h
  dsimp only at h
  split at h
  · rename_i hwhole
    obtain rfl := Option.some.inj h
    have hheader : (s.take HEADER_LEN).length = 8 := by
      rw [List.length_take]
      unfold HEADER_LEN at hwhole ⊢
      omega
    have hfirst : ((s.take HEADER_LEN).take 4).length = 4 := by
      rw [List.length_take, hheader]
      rfl
    have hlast : ((s.take HEADER_LEN).drop 4).length = 4 := by
      rw [List.length_drop, hheader]
    have hbytes : ((s.drop HEADER_LEN).take
        (fromLeBytes ((s.take HEADER_LEN).drop 4))).length =
          fromLeBytes ((s.take HEADER_LEN).drop 4) := by
      rw [List.length_take, List.length_drop]
      omega
    have hstart : (UInt32.ofNat (fromLeBytes
        ((s.take HEADER_LEN).take 4))).toNat =
          fromLeBytes ((s.take HEADER_LEN).take 4) :=
      UInt32.toNat_ofNat_of_lt' (fromLeBytes_lt hfirst)
    refine ⟨(s.drop HEADER_LEN).drop
      (fromLeBytes ((s.take HEADER_LEN).drop 4)), ?_⟩
    simp only [encode, hstart, hbytes, toLeBytes_fromLeBytes hfirst,
      toLeBytes_fromLeBytes hlast, List.append_assoc, List.take_append_drop]
  · contradiction

end Record

/-- The records of a log. -/
def recordFormat : Format UInt8 Record where
  encode := Record.encode
  read := Record.read
  encode_pos record := by
    rw [record.length_encode]
    exact Nat.add_pos_left (by decide) _
  read_encode := Record.read_encode
  encode_of_read := Record.encode_of_read

/-- The inserts of records that follow each other from a place of the log. -/
def placed (pos : Nat) : List Record → List Insert
  | [] => []
  | record :: rest =>
      record.insertAt pos :: placed (pos + record.encode.length) rest

/-- The index of a log of these records alone. -/
def indexOf (records : List Record) : CacheIndex := .of (placed 0 records)

theorem placed_append (pos : Nat) (records more : List Record) :
    placed pos (records ++ more) =
      placed pos records ++
        placed (pos + (recordFormat.encodeAll records).length) more := by
  induction records generalizing pos with
  | nil => rfl
  | cons record rest ih =>
      rw [List.cons_append, placed, ih, placed, Format.encodeAll_cons,
        List.length_append, Nat.add_assoc]
      rfl

theorem indexOf_concat (records : List Record) (last : Record) :
    indexOf (records ++ [last]) =
      (indexOf records).insert last.zckStart.toNat
        ((recordFormat.encodeAll records).length + HEADER_LEN)
        last.bytes.length := by
  rw [indexOf, placed_append, Nat.zero_add]
  exact CacheIndex.of_concat (placed 0 records) (last.insertAt _)

/-! ### Scans -/

theorem scanFrom_of_none {file : List UInt8} {pos : Nat} {index : CacheIndex}
    (h : Record.read (file.drop pos) = none) :
    scanFrom file pos index = (index, pos) := by
  unfold Record.read at h
  dsimp only at h
  split at h
  · contradiction
  · rename_i htorn
    rw [List.length_drop] at htorn
    unfold scanFrom
    split
    · dsimp only
      split
      · rfl
      · rename_i hwhole
        exact absurd ⟨by omega, by omega, by omega⟩ htorn
    · rfl

theorem scanFrom_of_some {file : List UInt8} {pos : Nat} {index : CacheIndex}
    {record : Record} (h : Record.read (file.drop pos) = some record) :
    scanFrom file pos index =
      scanFrom file (pos + record.encode.length)
        (index.insert record.zckStart.toNat (pos + HEADER_LEN)
          record.bytes.length) := by
  obtain ⟨rest, hrest⟩ := Record.encode_of_read h
  obtain ⟨hheader, -⟩ := record.header_encode rest
  have hsize : pos + record.encode.length ≤ file.length := by
    have hlength := congrArg List.length hrest
    rw [List.length_append, List.length_drop] at hlength
    have hpos := recordFormat.encode_pos record
    have hpos : 0 < record.encode.length := hpos
    omega
  rw [record.length_encode] at hsize ⊢
  have hstart : fromLeBytes (((file.drop pos).take HEADER_LEN).take 4) =
      record.zckStart.toNat := by
    rw [← hrest, hheader, List.take_left' (length_toLeBytes _),
      fromLeBytes_toLeBytes record.zckStart.toNat_lt]
  have hlen : fromLeBytes (((file.drop pos).take HEADER_LEN).drop 4) =
      record.bytes.length := by
    rw [← hrest, hheader, List.drop_left' (length_toLeBytes _),
      fromLeBytes_toLeBytes record.length_lt]
  have hnonempty := record.nonempty
  have hbounded := record.bounded
  rw [scanFrom, dif_pos (by omega)]
  dsimp only
  rw [hstart, hlen, if_neg (by omega)]

/-- A scan inserts the records at the front, and ends after them. -/
theorem scanFrom_eq (file : List UInt8) (pos : Nat) (inserts : List Insert) :
    scanFrom file pos (.of inserts) =
      (.of (inserts ++ placed pos (recordFormat.scan (file.drop pos))),
        pos + (recordFormat.encodeAll
          (recordFormat.scan (file.drop pos))).length) := by
  induction hsize : file.length - pos using Nat.strong_induction_on
    generalizing pos inserts with
  | h size ih =>
      cases hread : Record.read (file.drop pos) with
      | none =>
          have hscan : recordFormat.scan (file.drop pos) = [] :=
            Format.scan_of_none hread
          rw [hscan, scanFrom_of_none hread]
          simp [placed]
      | some record =>
          have hscan : recordFormat.scan (file.drop pos) =
              record :: recordFormat.scan
                (file.drop (pos + record.encode.length)) := by
            rw [← List.drop_drop]
            exact Format.scan_of_some hread
          have hpos : 0 < record.encode.length := recordFormat.encode_pos record
          have hle := (Record.encode_of_read hread).length_le
          rw [List.length_drop] at hle
          have hrest := ih (file.length - (pos + record.encode.length))
            (by omega) (pos + record.encode.length)
            (inserts ++ [record.insertAt pos]) rfl
          have hinsert := CacheIndex.of_concat inserts (record.insertAt pos)
          rw [scanFrom_of_some hread, hscan, placed, Format.encodeAll_cons,
            List.length_append, ← Nat.add_assoc]
          rw [hinsert, List.append_assoc] at hrest
          exact hrest

/-- A log that is opened holds the whole records of its file. -/
theorem open_eq (file : List UInt8) :
    (AssetLog.open file).index = indexOf (recordFormat.scan file) ∧
      (AssetLog.open file).endAt =
        (recordFormat.encodeAll (recordFormat.scan file)).length ∧
      (AssetLog.open file).file =
        file.take (recordFormat.encodeAll (recordFormat.scan file)).length := by
  have hscan := scanFrom_eq file 0 []
  rw [List.drop_zero, Nat.zero_add, List.nil_append] at hscan
  have hscan : scanFrom file 0 {} = _ := hscan
  refine ⟨by rw [AssetLog.open, hscan]; rfl, by rw [AssetLog.open, hscan], ?_⟩
  rw [AssetLog.open, hscan]
  dsimp only
  split
  · rfl
  · rename_i hwhole
    rw [not_not.mp hwhole, List.take_length]

/-! ### Appends -/

/-- The log is made of some records, and its index is theirs. -/
structure AssetLog.Keeps (log : AssetLog) (records : List Record) : Prop where
  file : log.file = recordFormat.encodeAll records
  endAt : log.endAt = log.file.length
  index : log.index = indexOf records

/-- The appends that are not refused. -/
def accepted (appends : List (UInt32 × List UInt8)) : List Record :=
  appends.filterMap fun append => (Record.checked append.1 append.2).toOption

/-- A write at the end of a file. -/
theorem writeAllAt_length (file bytes : List UInt8) :
    writeAllAt file bytes file.length = file ++ bytes := by
  rw [writeAllAt, Nat.sub_self, List.replicate_zero, List.append_nil,
    List.take_length, List.drop_of_length_le (Nat.le_add_right _ _),
    List.append_nil]

theorem AssetLog.Keeps.append {log : AssetLog} {records : List Record}
    (h : log.Keeps records) (zckStart : UInt32) (bytes : List UInt8) :
    (log.append zckStart bytes).2.Keeps
      (records ++ (Record.checked zckStart bytes).toOption.toList) := by
  unfold AssetLog.append
  cases Record.checked zckStart bytes with
  | error error =>
      have hnone : (Except.error error : Except String Record).toOption.toList =
        [] := rfl
      rw [hnone, List.append_nil]
      exact h
  | ok record =>
      have hsome : (Except.ok record : Except String Record).toOption.toList =
        [record] := rfl
      have hend : log.endAt = (recordFormat.encodeAll records).length := by
        rw [h.endAt, h.file]
      have hfile : writeAllAt log.file record.encode log.endAt =
          log.file ++ record.encode := by
        rw [h.endAt]
        exact writeAllAt_length _ _
      rw [hsome]
      constructor
      · show writeAllAt log.file record.encode log.endAt = _
        rw [hfile, h.file, Format.encodeAll_append, Format.encodeAll_cons,
          Format.encodeAll_nil, List.append_nil]
        rfl
      · show log.endAt + record.encode.length =
          (writeAllAt log.file record.encode log.endAt).length
        rw [hfile, List.length_append, h.endAt]
      · show log.index.insert _ (log.endAt + HEADER_LEN) _ = _
        rw [indexOf_concat, h.index, hend]

/-- A log that is opened again after its file was cut. -/
def AssetLog.reopen (log : AssetLog) (cut : Nat) : AssetLog :=
  .open (log.file.take cut)

/-- Whatever is left of a log after a cut, opening it finds the records that end
before the cut. -/
theorem AssetLog.Keeps.reopen {log : AssetLog} {records : List Record}
    (h : log.Keeps records) (cut : Nat) :
    (log.reopen cut).Keeps (recordFormat.intact cut records) := by
  unfold AssetLog.reopen
  obtain ⟨hindex, hend, hfile⟩ := open_eq (log.file.take cut)
  rw [h.file, Format.scan_take] at hindex hend hfile
  obtain ⟨torn, htake, -⟩ :=
    Format.take_encodeAll (F := recordFormat) cut records
  have hwhole : (AssetLog.open (log.file.take cut)).file =
      recordFormat.encodeAll (recordFormat.intact cut records) := by
    rw [h.file, hfile, htake, List.take_left]
  rw [h.file] at hwhole ⊢
  exact ⟨hwhole, by rw [hend, hwhole], hindex⟩

/-- A log that is opened again as it is keeps its records. -/
theorem AssetLog.Keeps.open {log : AssetLog} {records : List Record}
    (h : log.Keeps records) : (AssetLog.open log.file).Keeps records := by
  have hagain := h.reopen log.file.length
  have hall : recordFormat.intact log.file.length records = records := by
    apply (Format.intact_prefix _ _).eq_of_length_le
    rw [h.file]
    exact (Format.prefix_intact List.prefix_rfl (Nat.le_refl _)).length_le
  rw [hall, AssetLog.reopen, List.take_length] at hagain
  exact hagain

end RangeProxy

end Bridgething
