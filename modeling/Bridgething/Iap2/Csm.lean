/-
Messages of the control session: the codec that finds them in a byte stream, and
the parameters that their bodies are made of.
-/
import Bridgething.Iap2.Frame
import Bridgething.Lib.BigEndian
import Bridgething.Lib.Reader

namespace Bridgething

namespace Iap2

open BigEndian

def CSM_START_MARKER : UInt16 := 0x4040

def CSM_OUTER_HEADER_LEN : Nat := 6

def CSM_PARAM_HEADER_LEN : Nat := 4

structure CsmParam where
  id : UInt16
  payload : Bytes
deriving Repr, DecidableEq

structure CsmFrame where
  msgId : UInt16
  params : List CsmParam
deriving Repr, DecidableEq

inductive CsmDecodeError
  | badStartMarker (got : UInt16)
  | lengthTooSmall (length : UInt16)
  | paramLengthTooSmall (length : UInt16)
  | paramLengthOverrun (offset : Nat) (length : UInt16) (available : Nat)
  | wrongMsgId (got expected : UInt16)
  | missingParam (paramId : UInt16)
  | duplicateParam (paramId : UInt16)
  | paramLength (paramId : UInt16) (expected got : Nat)
  | stringNotTerminated (paramId : UInt16)
  | stringNotUtf8 (paramId : UInt16)
deriving Repr, DecidableEq

/-- The two bytes from a place on, as a `u16`. -/
def u16At (bytes : Bytes) (place : Nat) : UInt16 :=
  UInt16.ofNat (ofBytes ((bytes.drop place).take 2))

def putU16 (value : UInt16) : Bytes := toBytes 2 value.toNat

/-- How long a parameter is, its header counted. -/
def CsmParam.size (param : CsmParam) : Nat :=
  CSM_PARAM_HEADER_LEN + param.payload.length

def encodeParam (param : CsmParam) : Bytes :=
  putU16 param.size.toUInt16 ++ putU16 param.id ++ param.payload

def encodeParams (params : List CsmParam) : Bytes :=
  params.flatMap encodeParam

def CsmFrame.total (frame : CsmFrame) : Nat :=
  CSM_OUTER_HEADER_LEN + (frame.params.map CsmParam.size).sum

def CsmFrame.encode (frame : CsmFrame) : Bytes :=
  putU16 CSM_START_MARKER ++ putU16 frame.total.toUInt16 ++
    putU16 frame.msgId ++ encodeParams frame.params

/-- `offset` is how much of the body is behind. -/
def decodeParamsFrom (offset : Nat) (body : Bytes) :
    Except CsmDecodeError (List CsmParam) :=
  if body = [] then .ok []
  else if body.length < CSM_PARAM_HEADER_LEN then
    .error (.paramLengthOverrun offset body.length.toUInt16 body.length)
  else
    let length := u16At body 0
    if _hshort : length.toNat < CSM_PARAM_HEADER_LEN then
      .error (.paramLengthTooSmall length)
    else if _hlong : body.length < length.toNat then
      .error (.paramLengthOverrun offset length body.length)
    else
      let param : CsmParam :=
        { id := u16At body 2
          payload := (body.take length.toNat).drop CSM_PARAM_HEADER_LEN }
      match decodeParamsFrom (offset + length.toNat)
          (body.drop length.toNat) with
      | .error error => .error error
      | .ok params => .ok (param :: params)
termination_by body.length
decreasing_by
  have hheader : 0 < CSM_PARAM_HEADER_LEN := by decide
  have hlong : ¬ body.length < (u16At body 0).toNat := _hlong
  have hshort : ¬ (u16At body 0).toNat < CSM_PARAM_HEADER_LEN := _hshort
  rw [List.length_drop]
  omega

def decodeParams (body : Bytes) : Except CsmDecodeError (List CsmParam) :=
  decodeParamsFrom 0 body

namespace CsmCodec

/-- What the front of the input tells the decoder. -/
def look (src : Bytes) : Option (Except CsmDecodeError (Nat × CsmFrame)) :=
  if src.length < CSM_OUTER_HEADER_LEN then none
  else if u16At src 0 ≠ CSM_START_MARKER then
    some (.error (.badStartMarker (u16At src 0)))
  else
    let length := u16At src 2
    if length.toNat < CSM_OUTER_HEADER_LEN then
      some (.error (.lengthTooSmall length))
    else if src.length < length.toNat then none
    else
      match decodeParams
          ((src.take length.toNat).drop CSM_OUTER_HEADER_LEN) with
      | .error error => some (.error error)
      | .ok params => some (.ok (length.toNat, ⟨u16At src 4, params⟩))

def decode (src : Bytes) : Except CsmDecodeError (Option CsmFrame × Bytes) :=
  match look src with
  | none => .ok (none, src)
  | some (.error error) => .error error
  | some (.ok (size, frame)) => .ok (some frame, src.drop size)

end CsmCodec

/-- A body that well-formed parameters cover entirely: each is the length of the
whole parameter in two bytes, two bytes of id and its payload. -/
inductive Covers : Bytes → List CsmParam → Prop
  | nil : Covers [] []
  | cons {length id payload rest : Bytes} {params : List CsmParam}
      (hlength : length.length = 2) (hid : id.length = 2)
      (hwhole : ofBytes length = CSM_PARAM_HEADER_LEN + payload.length)
      (hrest : Covers rest params) :
      Covers (length ++ id ++ payload ++ rest)
        (⟨UInt16.ofNat (ofBytes id), payload⟩ :: params)

@[simp] theorem putU16_length (value : UInt16) : (putU16 value).length = 2 :=
  length_toBytes 2 value.toNat

theorem ofBytes_two {bytes : Bytes} (h : bytes.length = 2) :
    (UInt16.ofNat (ofBytes bytes)).toNat = ofBytes bytes := by
  have hlt := ofBytes_lt bytes
  rw [h] at hlt
  exact Nat.mod_eq_of_lt hlt

theorem putU16_ofBytes {bytes : Bytes} (h : bytes.length = 2) :
    putU16 (UInt16.ofNat (ofBytes bytes)) = bytes := by
  rw [putU16, ofBytes_two h, ← h]
  exact toBytes_ofBytes bytes

theorem u16At_putU16 (before : Bytes) (value : UInt16) (after : Bytes) :
    u16At (before ++ (putU16 value ++ after)) before.length = value := by
  have hvalue : ofBytes (putU16 value) = value.toNat :=
    ofBytes_toBytes_of_lt value.toNat_lt
  rw [u16At, List.drop_left, List.take_append_of_le_length (by simp),
    List.take_of_length_le (by simp), hvalue]
  exact UInt16.ofNat_toNat

/-- What a reader sees of a body that starts with the header of a parameter. -/
theorem decodeParamsFrom_cons {length id payload : Bytes} (offset : Nat)
    (rest : Bytes) (hlength : length.length = 2) (hid : id.length = 2)
    (hwhole : ofBytes length = CSM_PARAM_HEADER_LEN + payload.length) :
    decodeParamsFrom offset (length ++ id ++ payload ++ rest) =
      (decodeParamsFrom (offset + ofBytes length) rest).map
        (⟨UInt16.ofNat (ofBytes id), payload⟩ :: ·) := by
  have hheader : CSM_PARAM_HEADER_LEN = 4 := rfl
  have hbody : length ++ id ++ payload ++ rest =
      [] ++ (length ++ (id ++ payload ++ rest)) := by simp
  have hbodyId : length ++ id ++ payload ++ rest =
      length ++ (id ++ (payload ++ rest)) := by simp
  have hread : u16At (length ++ id ++ payload ++ rest) 0 =
      UInt16.ofNat (ofBytes length) := by
    have hput := u16At_putU16 [] (UInt16.ofNat (ofBytes length))
      (id ++ payload ++ rest)
    rwa [putU16_ofBytes hlength, ← hbody] at hput
  have hreadId : u16At (length ++ id ++ payload ++ rest) 2 =
      UInt16.ofNat (ofBytes id) := by
    have hput := u16At_putU16 length (UInt16.ofNat (ofBytes id))
      (payload ++ rest)
    rwa [putU16_ofBytes hid, ← hbodyId, hlength] at hput
  have hall : (length ++ id ++ payload ++ rest).length =
      ofBytes length + rest.length := by
    simp only [List.length_append]
    omega
  have hsome : length ++ id ++ payload ++ rest ≠ [] := by
    intro hnil
    rw [hnil, List.length_nil] at hall
    omega
  have hcut : ofBytes length = (length ++ id ++ payload).length := by
    simp only [List.length_append]
    omega
  rw [decodeParamsFrom, if_neg hsome, if_neg (by omega)]
  simp only [hread, hreadId, ofBytes_two hlength]
  rw [dif_neg (by omega), dif_neg (by omega), hcut, List.take_left,
    List.drop_left]
  have hpayload : (length ++ id ++ payload).drop CSM_PARAM_HEADER_LEN =
      payload := by
    have hheaders : CSM_PARAM_HEADER_LEN = (length ++ id).length := by
      simp only [List.length_append]
      omega
    rw [hheaders, List.drop_left]
  rw [hpayload]
  cases decodeParamsFrom (offset + (length ++ id ++ payload).length) rest <;>
    rfl

theorem Covers.decode {body : Bytes} {params : List CsmParam}
    (h : Covers body params) (offset : Nat) :
    decodeParamsFrom offset body = .ok params := by
  induction h generalizing offset with
  | nil =>
      rw [decodeParamsFrom]
      rfl
  | cons hlength hid hwhole hrest ih =>
      rw [decodeParamsFrom_cons offset _ hlength hid hwhole, ih]
      rfl

theorem covers_of_decode {body : Bytes} {params : List CsmParam}
    {offset : Nat} (h : decodeParamsFrom offset body = .ok params) :
    Covers body params := by
  induction hsize : body.length using Nat.strongRecOn
    generalizing body params offset with
  | ind size ih =>
      subst hsize
      have hheader : CSM_PARAM_HEADER_LEN = 4 := rfl
      rw [decodeParamsFrom] at h
      split at h
      · rename_i hnil
        rw [hnil, ← Except.ok.inj h]
        exact Covers.nil
      · split at h
        · contradiction
        · simp only at h
          split at h
          · contradiction
          · split at h
            · contradiction
            · rename_i hheaded hshort hlong
              split at h
              · contradiction
              · rename_i rest hrest
                obtain rfl := Except.ok.inj h
                let whole := (u16At body 0).toNat
                have hlength : (body.take 2).length = 2 := by
                  rw [List.length_take]
                  omega
                have hid : ((body.drop 2).take 2).length = 2 := by
                  rw [List.length_take, List.length_drop]
                  omega
                have hwhole : ofBytes (body.take 2) = whole :=
                  (ofBytes_two hlength).symm
                have hpayload : ((body.take whole).drop 4).length + 4 =
                    whole := by
                  rw [List.length_drop, List.length_take]
                  omega
                have hcovers := ih (body.drop whole).length (by
                  rw [List.length_drop]
                  omega) hrest rfl
                have hbody : body.take 2 ++ (body.drop 2).take 2 ++
                    (body.take whole).drop 4 ++ body.drop whole = body := by
                  have hfour : body.take 2 ++ (body.drop 2).take 2 =
                      body.take 4 := by
                    rw [← List.take_add]
                  have hfront : body.take 4 = (body.take whole).take 4 := by
                    rw [List.take_take, Nat.min_eq_left (by omega)]
                  rw [hfour, hfront, List.take_append_drop,
                    List.take_append_drop]
                have hcons : Covers (body.take 2 ++ (body.drop 2).take 2 ++
                    (body.take whole).drop 4 ++ body.drop whole) _ :=
                  Covers.cons hlength hid (by omega) hcovers
                rwa [hbody] at hcons

theorem Covers.encode {body : Bytes} {params : List CsmParam}
    (h : Covers body params) : encodeParams params = body := by
  induction h with
  | nil => rfl
  | @cons length id payload rest params hlength hid hwhole hrest ih =>
      have hsize : (CsmParam.size
          ⟨UInt16.ofNat (ofBytes id), payload⟩).toUInt16 =
            UInt16.ofNat (ofBytes length) := by
        rw [hwhole]
        rfl
      rw [encodeParams] at ih ⊢
      rw [List.flatMap_cons, ih, encodeParam, hsize, putU16_ofBytes hlength,
        putU16_ofBytes hid]

/-- Parameters whose sizes fit their headers. -/
theorem covers_encodeParams {params : List CsmParam}
    (h : ∀ param ∈ params, param.size < 2 ^ 16) :
    Covers (encodeParams params) params := by
  induction params with
  | nil => exact Covers.nil
  | cons param rest ih =>
      have hfits := h param List.mem_cons_self
      have hrest := ih fun other hother =>
        h other (List.mem_cons_of_mem _ hother)
      have hsize : ofBytes (putU16 param.size.toUInt16) =
          CSM_PARAM_HEADER_LEN + param.payload.length := by
        rw [putU16, ofBytes_toBytes_of_lt (UInt16.toNat_lt _)]
        exact Nat.mod_eq_of_lt hfits
      have hid : UInt16.ofNat (ofBytes (putU16 param.id)) = param.id := by
        rw [putU16, ofBytes_toBytes_of_lt (UInt16.toNat_lt _)]
        exact UInt16.ofNat_toNat
      have hcons := Covers.cons (putU16_length _) (putU16_length param.id)
        hsize hrest
      rw [hid] at hcons
      exact hcons

/-- Decoding accepts what parameters cover, and nothing else. -/
theorem decodeParams_eq_ok {body : Bytes} {params : List CsmParam} :
    decodeParams body = .ok params ↔ Covers body params :=
  ⟨covers_of_decode, fun h => h.decode 0⟩

theorem u16At_append {bytes : Bytes} {place : Nat}
    (h : place + 2 ≤ bytes.length) (more : Bytes) :
    u16At (bytes ++ more) place = u16At bytes place := by
  rw [u16At, u16At, List.drop_append_of_le_length (by omega),
    List.take_append_of_le_length]
  rw [List.length_drop]
  omega

namespace CsmCodec

theorem look_size {src : Bytes} {size : Nat} {frame : CsmFrame}
    (h : look src = some (.ok (size, frame))) :
    0 < size ∧ size ≤ src.length := by
  have hheader : 0 < CSM_OUTER_HEADER_LEN := by decide
  unfold look at h
  split at h
  · contradiction
  · split at h
    · simp at h
    · simp only at h
      split at h
      · simp at h
      · split at h
        · contradiction
        · split at h
          · simp at h
          · simp only [Option.some.injEq, Except.ok.injEq, Prod.mk.injEq] at h
            omega

theorem look_append {src : Bytes}
    {seen : Except CsmDecodeError (Nat × CsmFrame)} (more : Bytes)
    (h : look src = some seen) : look (src ++ more) = some seen := by
  have hheader : CSM_OUTER_HEADER_LEN = 6 := rfl
  unfold look at h ⊢
  rw [List.length_append]
  by_cases hshort : src.length < CSM_OUTER_HEADER_LEN
  · rw [if_pos hshort] at h
    contradiction
  · rw [if_neg hshort] at h
    rw [if_neg (by omega), u16At_append (by omega), u16At_append (by omega),
      u16At_append (by omega)]
    split at h
    · rename_i hmarker
      rw [if_pos hmarker]
      exact h
    · rename_i hmarker
      rw [if_neg hmarker]
      simp only at h ⊢
      split at h
      · rename_i hsmall
        rw [if_pos hsmall]
        exact h
      · rename_i hsmall
        rw [if_neg hsmall]
        by_cases hwait : src.length < (u16At src 2).toNat
        · rw [if_pos hwait] at h
          contradiction
        · rw [if_neg hwait] at h
          rw [if_neg (by omega), List.take_append_of_le_length (by omega)]
          exact h

def reader : Reader UInt8 CsmDecodeError CsmFrame where
  look := look
  look_size := look_size
  look_append := look_append

/-- The loop of the framed reader: decode until the buffer has no message
more. -/
theorem drain_decode (src : Bytes) :
    reader.drain src =
      match decode src with
      | .error error => ([], .error error)
      | .ok (none, rest) => ([], .ok rest)
      | .ok (some frame, rest) =>
          (frame :: (reader.drain rest).1, (reader.drain rest).2) := by
  rcases hlook : look src with _ | error | ⟨size, frame⟩
  · rw [decode, hlook]
    exact reader.drain_none hlook
  · rw [decode, hlook]
    exact reader.drain_error hlook
  · rw [decode, hlook]
    exact reader.drain_item hlook

theorem encodeParams_length (params : List CsmParam) :
    (encodeParams params).length = (params.map CsmParam.size).sum := by
  induction params with
  | nil => rfl
  | cons param rest ih =>
      rw [encodeParams] at ih ⊢
      rw [List.flatMap_cons, List.length_append, ih, List.map_cons,
        List.sum_cons, encodeParam, CsmParam.size]
      simp only [List.length_append, putU16_length, CSM_PARAM_HEADER_LEN]

theorem encode_length (frame : CsmFrame) :
    frame.encode.length = frame.total := by
  simp only [CsmFrame.encode, CsmFrame.total, List.length_append,
    putU16_length, encodeParams_length, CSM_OUTER_HEADER_LEN]

/-- A message at the front of the input is read, if its length fits its
header. -/
theorem look_encode {frame : CsmFrame} (h : frame.total ≤ 65535)
    (after : Bytes) :
    look (frame.encode ++ after) = some (.ok (frame.total, frame)) := by
  have hheader : CSM_OUTER_HEADER_LEN = 6 := rfl
  have htotal : frame.total.toUInt16.toNat = frame.total :=
    Nat.mod_eq_of_lt (Nat.lt_succ_of_le h)
  have hleast : CSM_OUTER_HEADER_LEN ≤ frame.total := Nat.le_add_right _ _
  have hlength : (frame.encode ++ after).length =
      frame.total + after.length := by
    rw [List.length_append, encode_length]
  have hmarker : u16At (frame.encode ++ after) 0 = CSM_START_MARKER := by
    have hput := u16At_putU16 [] CSM_START_MARKER
      (putU16 frame.total.toUInt16 ++ putU16 frame.msgId ++
        encodeParams frame.params ++ after)
    simpa [CsmFrame.encode] using hput
  have hsize : u16At (frame.encode ++ after) 2 = frame.total.toUInt16 := by
    have hput := u16At_putU16 (putU16 CSM_START_MARKER) frame.total.toUInt16
      (putU16 frame.msgId ++ encodeParams frame.params ++ after)
    simpa [CsmFrame.encode] using hput
  have hid : u16At (frame.encode ++ after) 4 = frame.msgId := by
    have hput := u16At_putU16
      (putU16 CSM_START_MARKER ++ putU16 frame.total.toUInt16) frame.msgId
      (encodeParams frame.params ++ after)
    simpa [CsmFrame.encode] using hput
  have hbody : ((frame.encode ++ after).take frame.total).drop
      CSM_OUTER_HEADER_LEN = encodeParams frame.params := by
    have hfront : (putU16 CSM_START_MARKER ++ putU16 frame.total.toUInt16 ++
        putU16 frame.msgId).length = CSM_OUTER_HEADER_LEN := by
      simp [CSM_OUTER_HEADER_LEN]
    rw [← encode_length, List.take_left, CsmFrame.encode, ← hfront,
      List.drop_left]
  have hparams : decodeParams (encodeParams frame.params) =
      .ok frame.params := by
    rw [decodeParams_eq_ok]
    apply covers_encodeParams
    intro param hparam
    have hle : param.size ≤ (frame.params.map CsmParam.size).sum :=
      List.single_le_sum (fun _ _ => Nat.zero_le _) _
        (List.mem_map_of_mem hparam)
    have hsum : frame.total =
      CSM_OUTER_HEADER_LEN + (frame.params.map CsmParam.size).sum := rfl
    omega
  unfold look
  rw [if_neg (by omega), hmarker, if_neg (not_not_intro rfl), hsize, hid]
  simp only [htotal, hbody, hparams]
  rw [if_neg (by omega), if_neg (by omega)]

/-- However the encodings of messages are cut, their messages come out. -/
theorem feed_encode {frames : List CsmFrame} {chunks : List Bytes}
    (hsmall : ∀ frame ∈ frames, frame.total ≤ 65535)
    (hchunks : chunks.flatten = frames.flatMap CsmFrame.encode) :
    reader.feed [] chunks = (frames, .ok []) := by
  have hstart : reader.look [] = none := rfl
  rw [reader.feed_eq_drain hstart, List.nil_append, hchunks]
  clear hchunks
  induction frames with
  | nil => exact reader.drain_none hstart
  | cons frame rest ih =>
      have hlook : reader.look (frame.encode ++ rest.flatMap CsmFrame.encode) =
          some (.ok (frame.total, frame)) :=
        look_encode (hsmall frame List.mem_cons_self) _
      have hrest := ih fun other hother =>
        hsmall other (List.mem_cons_of_mem _ hother)
      rw [List.flatMap_cons, reader.drain_item hlook, ← encode_length,
        List.drop_left, hrest]

end CsmCodec

end Iap2

end Bridgething
