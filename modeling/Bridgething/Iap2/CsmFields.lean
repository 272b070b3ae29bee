/-
Message structs of the control session: the types a field may have, how a field
is written as parameters and taken out of them, and what the derive makes of a
struct.
-/
import Bridgething.Iap2.Csm

namespace Bridgething

namespace Iap2

open BigEndian

inductive CsmInt
  | u8 | i8 | u16 | i16 | u32 | i32 | u64 | i64
deriving Repr, DecidableEq

def CsmInt.bytes : CsmInt → Nat
  | .u8 | .i8 => 1
  | .u16 | .i16 => 2
  | .u32 | .i32 => 4
  | .u64 | .i64 => 8

/-- The types that are one parameter. -/
inductive CsmScalar
  | bytes
  | unit
  | bool
  | int (type : CsmInt)
  | string
deriving Repr, DecidableEq

@[reducible] def CsmScalar.Value : CsmScalar → Type
  | .bytes => Bytes
  | .unit => Unit
  | .bool => Bool
  | .int type => BitVec (8 * type.bytes)
  | .string => String

/-- The types that can be both written and read. -/
inductive CsmFieldType
  | one (scalar : CsmScalar)
  | optional (scalar : CsmScalar)
  | bytesVec
  | stringVec
deriving Repr, DecidableEq

@[reducible] def CsmFieldType.Value : CsmFieldType → Type
  | .one scalar => scalar.Value
  | .optional scalar => Option scalar.Value
  | .bytesVec => List Bytes
  | .stringVec => List String

def CsmScalar.payload : (scalar : CsmScalar) → scalar.Value → Bytes
  | .bytes, payload => payload
  | .unit, _ => []
  | .bool, flag => [if flag then 1 else 0]
  | .int type, value => toBytes type.bytes value.toNat
  | .string, text => text.toByteArray.data.toList ++ [0]

/-- The parameters that a field adds. -/
def encodeField (paramId : UInt16) :
    (type : CsmFieldType) → type.Value → List CsmParam
  | .one scalar, value => [⟨paramId, scalar.payload value⟩]
  | .optional _, none => []
  | .optional scalar, some value => [⟨paramId, scalar.payload value⟩]
  | .bytesVec, payloads => payloads.map fun payload => ⟨paramId, payload⟩
  | .stringVec, texts =>
      texts.map fun text => ⟨paramId, CsmScalar.string.payload text⟩

def takeOne (paramId : UInt16) (params : List CsmParam) :
    Except CsmDecodeError (Bytes × List CsmParam) :=
  match params.find? (·.id = paramId) with
  | none => .error (.missingParam paramId)
  | some param =>
      let others := params.eraseP (·.id = paramId)
      if others.any (·.id = paramId) then .error (.duplicateParam paramId)
      else .ok (param.payload, others)

def takeOptional (paramId : UInt16) (params : List CsmParam) :
    Except CsmDecodeError (Option Bytes × List CsmParam) :=
  match params.find? (·.id = paramId) with
  | none => .ok (none, params)
  | some param =>
      let others := params.eraseP (·.id = paramId)
      if others.any (·.id = paramId) then .error (.duplicateParam paramId)
      else .ok (some param.payload, others)

/-- The payloads of a parameter, and the parameters that stay. -/
def drainAll (paramId : UInt16) :
    List CsmParam → List Bytes × List CsmParam
  | [] => ([], [])
  | param :: params =>
      let after := drainAll paramId params
      if param.id = paramId then (param.payload :: after.1, after.2)
      else (after.1, param :: after.2)

def decodeString (paramId : UInt16) (payload : Bytes) :
    Except CsmDecodeError String :=
  if payload.getLast? ≠ some 0 then .error (.stringNotTerminated paramId)
  else
    match String.fromUTF8? ⟨payload.dropLast.toArray⟩ with
    | none => .error (.stringNotUtf8 paramId)
    | some text => .ok text

def decodePayload (paramId : UInt16) :
    (scalar : CsmScalar) → Bytes → Except CsmDecodeError scalar.Value
  | .bytes, payload => .ok payload
  | .unit, payload =>
      if payload ≠ [] then .error (.paramLength paramId 0 payload.length)
      else .ok ()
  | .bool, [byte] => .ok (byte != 0)
  | .bool, payload => .error (.paramLength paramId 1 payload.length)
  | .int type, payload =>
      if payload.length ≠ type.bytes then
        .error (.paramLength paramId type.bytes payload.length)
      else .ok (BitVec.ofNat _ (ofBytes payload))
  | .string, payload => decodeString paramId payload

/-- An optional flag may come without its byte. -/
def decodeOptionalPayload (paramId : UInt16) :
    (scalar : CsmScalar) → Bytes → Except CsmDecodeError scalar.Value
  | .bool, [] => .ok true
  | scalar, payload => decodePayload paramId scalar payload

/-- The field's value, and the parameters that it leaves. -/
def decodeField (paramId : UInt16) :
    (type : CsmFieldType) → List CsmParam →
      Except CsmDecodeError (type.Value × List CsmParam)
  | .one scalar, params => do
      let (payload, others) ← takeOne paramId params
      let value ← decodePayload paramId scalar payload
      return (value, others)
  | .optional scalar, params => do
      match ← takeOptional paramId params with
      | (none, others) => return (none, others)
      | (some payload, others) =>
          let value ← decodeOptionalPayload paramId scalar payload
          return (some value, others)
  | .bytesVec, params => .ok (drainAll paramId params)
  | .stringVec, params => do
      let drained := drainAll paramId params
      let texts ← drained.1.mapM (decodeString paramId)
      return (texts, drained.2)

structure CsmField where
  param : Option UInt16
  type : CsmFieldType
deriving Repr, DecidableEq

/-- A struct with the derive: its message id and its fields in order. -/
structure CsmMessage where
  id : UInt16
  fields : List CsmField
deriving Repr, DecidableEq

def saturatingSucc (id : UInt16) : UInt16 :=
  if id = 0xffff then id else id + 1

/-- The parameter ids of the fields, when `next` is the next automatic one. -/
def fieldIds (next : UInt16) : List CsmField → List UInt16
  | [] => []
  | field :: fields =>
      let paramId := field.param.getD next
      paramId :: fieldIds (saturatingSucc paramId) fields

def CsmMessage.paramIds (message : CsmMessage) : List UInt16 :=
  fieldIds 0 message.fields

/-- A value of each field. -/
@[reducible] def FieldValues : List CsmField → Type
  | [] => Unit
  | field :: fields => field.type.Value × FieldValues fields

@[reducible] def CsmMessage.Value (message : CsmMessage) : Type :=
  FieldValues message.fields

def encodeFields (next : UInt16) :
    (fields : List CsmField) → FieldValues fields → List CsmParam
  | [], _ => []
  | field :: fields, (value, values) =>
      let paramId := field.param.getD next
      encodeField paramId field.type value ++
        encodeFields (saturatingSucc paramId) fields values

def decodeFields (next : UInt16) :
    (fields : List CsmField) → List CsmParam →
      Except CsmDecodeError (FieldValues fields)
  | [], _ => .ok ()
  | field :: fields, params => do
      let paramId := field.param.getD next
      let (value, others) ← decodeField paramId field.type params
      let values ← decodeFields (saturatingSucc paramId) fields others
      return (value, values)

namespace CsmMessage

def toFrame (message : CsmMessage) (value : message.Value) : CsmFrame where
  msgId := message.id
  params := encodeFields 0 message.fields value

def tryFrom (message : CsmMessage) (frame : CsmFrame) :
    Except CsmDecodeError message.Value :=
  if frame.msgId ≠ message.id then
    .error (.wrongMsgId frame.msgId message.id)
  else decodeFields 0 message.fields frame.params

end CsmMessage

def acceptCall : CsmMessage where
  id := 0x415B
  fields := [⟨some 0, .one (.int .u8)⟩, ⟨some 1, .optional .string⟩]

theorem takeOne_cons {paramId : UInt16} {others : List CsmParam}
    (payload : Bytes) (h : ∀ param ∈ others, param.id ≠ paramId) :
    takeOne paramId (⟨paramId, payload⟩ :: others) = .ok (payload, others) := by
  have hnone : others.any (·.id = paramId) = false := by
    simpa using h
  simp [takeOne, hnone]

theorem takeOptional_cons {paramId : UInt16} {others : List CsmParam}
    (payload : Bytes) (h : ∀ param ∈ others, param.id ≠ paramId) :
    takeOptional paramId (⟨paramId, payload⟩ :: others) =
      .ok (some payload, others) := by
  have hnone : others.any (·.id = paramId) = false := by
    simpa using h
  simp [takeOptional, hnone]

theorem takeOptional_none {paramId : UInt16} {params : List CsmParam}
    (h : ∀ param ∈ params, param.id ≠ paramId) :
    takeOptional paramId params = .ok (none, params) := by
  have hnone : params.find? (·.id = paramId) = none := by
    rw [List.find?_eq_none]
    simpa using h
  rw [takeOptional, hnone]

theorem drainAll_others {paramId : UInt16} {params : List CsmParam}
    (h : ∀ param ∈ params, param.id ≠ paramId) :
    drainAll paramId params = ([], params) := by
  induction params with
  | nil => rfl
  | cons param params ih =>
      have hrest := ih fun other hother =>
        h other (List.mem_cons_of_mem _ hother)
      rw [drainAll, hrest, if_neg (h param List.mem_cons_self)]

theorem drainAll_append {paramId : UInt16} {others : List CsmParam}
    (payloads : List Bytes) (h : ∀ param ∈ others, param.id ≠ paramId) :
    drainAll paramId
        (payloads.map (fun payload => ⟨paramId, payload⟩) ++ others) =
      (payloads, others) := by
  induction payloads with
  | nil => exact drainAll_others h
  | cons payload payloads ih =>
      rw [List.map_cons, List.cons_append, drainAll, if_pos rfl, ih]

theorem decodeString_payload (paramId : UInt16) (text : String) :
    decodeString paramId (CsmScalar.string.payload text) = .ok text := by
  have hback : String.fromUTF8? text.toByteArray = some text := by
    rw [String.fromUTF8?, dif_pos text.isValidUTF8]
    rfl
  simp [decodeString, CsmScalar.payload, hback]

theorem decodePayload_payload (paramId : UInt16) (scalar : CsmScalar)
    (value : scalar.Value) :
    decodePayload paramId scalar (scalar.payload value) = .ok value := by
  cases scalar with
  | bytes => rfl
  | unit => rfl
  | bool => cases value <;> rfl
  | int type =>
      have hfits : value.toNat < 256 ^ type.bytes := by
        have hlt := value.isLt
        rwa [Nat.pow_mul] at hlt
      rw [CsmScalar.payload, decodePayload, if_neg (by simp),
        ofBytes_toBytes_of_lt hfits, BitVec.ofNat_toNat, BitVec.setWidth_eq]
  | string => exact decodeString_payload paramId value

/-- No value is written as the empty payload that an optional flag also
takes. -/
theorem decodeOptionalPayload_payload (paramId : UInt16) (scalar : CsmScalar)
    (value : scalar.Value) :
    decodeOptionalPayload paramId scalar (scalar.payload value) =
      .ok value := by
  have hplain := decodePayload_payload paramId scalar value
  cases scalar with
  | bool => cases value <;> rfl
  | bytes => exact hplain
  | unit => exact hplain
  | int type => exact hplain
  | string => exact hplain

theorem mapM_decodeString (paramId : UInt16) (texts : List String) :
    (texts.map CsmScalar.string.payload).mapM (decodeString paramId) =
      .ok texts := by
  induction texts with
  | nil => rfl
  | cons text texts ih =>
      rw [List.map_cons, List.mapM_cons, decodeString_payload, ih]
      rfl

/-- A field takes its own parameters off the front and leaves the others. -/
theorem decodeField_encodeField {paramId : UInt16} {others : List CsmParam}
    (h : ∀ param ∈ others, param.id ≠ paramId) (type : CsmFieldType)
    (value : type.Value) :
    decodeField paramId type (encodeField paramId type value ++ others) =
      .ok (value, others) := by
  cases type with
  | one scalar =>
      rw [encodeField, List.singleton_append, decodeField, takeOne_cons _ h]
      simp only [bind, Except.bind, decodePayload_payload]
      rfl
  | optional scalar =>
      cases value with
      | none =>
          rw [encodeField, List.nil_append, decodeField, takeOptional_none h]
          rfl
      | some value =>
          rw [encodeField, List.singleton_append, decodeField,
            takeOptional_cons _ h]
          simp only [bind, Except.bind, decodeOptionalPayload_payload]
          rfl
  | bytesVec =>
      rw [encodeField, decodeField, drainAll_append value h]
  | stringVec =>
      have hmap : value.map (fun text =>
          (⟨paramId, CsmScalar.string.payload text⟩ : CsmParam)) =
            (value.map CsmScalar.string.payload).map
              fun payload => ⟨paramId, payload⟩ := by
        rw [List.map_map]
        rfl
      have htexts := mapM_decodeString paramId value
      rw [encodeField, hmap, decodeField, drainAll_append _ h]
      simp only [htexts, bind, Except.bind]
      rfl

theorem encodeField_ids {paramId : UInt16} {type : CsmFieldType}
    {value : type.Value} {param : CsmParam}
    (h : param ∈ encodeField paramId type value) : param.id = paramId := by
  cases type with
  | one scalar =>
      rw [encodeField, List.mem_singleton] at h
      rw [h]
  | optional scalar =>
      cases value with
      | none => exact absurd h List.not_mem_nil
      | some value =>
          rw [encodeField, List.mem_singleton] at h
          rw [h]
  | bytesVec =>
      obtain ⟨payload, _, rfl⟩ := List.mem_map.mp h
      rfl
  | stringVec =>
      obtain ⟨text, _, rfl⟩ := List.mem_map.mp h
      rfl

theorem encodeFields_ids {next : UInt16} {fields : List CsmField}
    {values : FieldValues fields} {param : CsmParam}
    (h : param ∈ encodeFields next fields values) :
    param.id ∈ fieldIds next fields := by
  induction fields generalizing next with
  | nil => exact absurd h List.not_mem_nil
  | cons field fields ih =>
      obtain ⟨value, values⟩ := values
      rw [fieldIds, List.mem_cons]
      rw [encodeFields] at h
      rcases List.mem_append.mp h with hown | hlater
      · exact Or.inl (encodeField_ids hown)
      · exact Or.inr (ih hlater)

theorem decodeFields_encodeFields {next : UInt16} {fields : List CsmField}
    (h : (fieldIds next fields).Nodup) (values : FieldValues fields) :
    decodeFields next fields (encodeFields next fields values) =
      .ok values := by
  induction fields generalizing next with
  | nil => rfl
  | cons field fields ih =>
      obtain ⟨value, values⟩ := values
      rw [fieldIds, List.nodup_cons] at h
      have hothers : ∀ param ∈ encodeFields
          (saturatingSucc (field.param.getD next)) fields values,
          param.id ≠ field.param.getD next := by
        intro param hparam hid
        have hlater := encodeFields_ids hparam
        rw [hid] at hlater
        exact h.1 hlater
      rw [encodeFields, decodeFields]
      simp only [decodeField_encodeField hothers, bind, Except.bind,
        ih h.2 values]
      rfl

/-- A message with distinct parameter ids comes back from its frame. -/
theorem CsmMessage.tryFrom_toFrame {message : CsmMessage}
    (h : message.paramIds.Nodup) (value : message.Value) :
    message.tryFrom (message.toFrame value) = .ok value := by
  rw [CsmMessage.tryFrom, if_neg fun hne => hne rfl]
  exact decodeFields_encodeFields h value

/-- Messages come out of any cut of their encodings, parameters are accepted
exactly when they cover the body and are written as they were read, and a
struct with distinct parameter ids comes back from its message. -/
theorem csm_agrees :
    (∀ (frames : List CsmFrame) (chunks : List Bytes),
      (∀ frame ∈ frames, frame.encode.length ≤ 65535) →
      chunks.flatten = frames.flatMap CsmFrame.encode →
      CsmCodec.reader.feed [] chunks = (frames, .ok [])) ∧
    (∀ (body : Bytes) (params : List CsmParam),
      decodeParams body = .ok params ↔ Covers body params) ∧
    (∀ (body : Bytes) (params : List CsmParam),
      decodeParams body = .ok params → encodeParams params = body) ∧
    ∀ (message : CsmMessage) (value : message.Value),
      message.paramIds.Nodup →
      message.tryFrom (message.toFrame value) = .ok value := by
  refine ⟨?_, ?_, ?_, ?_⟩
  · intro frames chunks hsmall hchunks
    refine CsmCodec.feed_encode (fun frame hframe => ?_) hchunks
    rw [← CsmCodec.encode_length]
    exact hsmall frame hframe
  · exact fun _ _ => decodeParams_eq_ok
  · exact fun _ _ h => (decodeParams_eq_ok.mp h).encode
  · exact fun _ value h => CsmMessage.tryFrom_toFrame h value

/-- The message that accepts a call: cut in two, its body, and its struct. -/
theorem csm_agrees_short :
    CsmCodec.reader.feed []
        [[0x40, 0x40, 0, 11, 0x41], [0x5B, 0, 5, 0, 0, 1]] =
      ([⟨0x415B, [⟨0, [1]⟩]⟩], .ok []) ∧
    decodeParams [0, 5, 0, 0, 1] = .ok [⟨0, [1]⟩] ∧
    encodeParams [⟨0, [1]⟩] = [0, 5, 0, 0, 1] ∧
    acceptCall.tryFrom (acceptCall.toFrame (7#8, (some "id", ()))) =
      .ok (7#8, (some "id", ())) := by
  have hcovers : Covers ([0, 5] ++ [0, 0] ++ [1] ++ []) [⟨0, [1]⟩] :=
    Covers.cons rfl rfl rfl Covers.nil
  have hbody : decodeParams [0, 5, 0, 0, 1] = .ok [⟨0, [1]⟩] :=
    (csm_agrees.2.1 _ _).mpr hcovers
  refine ⟨csm_agrees.1 _ _ (by decide) (by decide), hbody,
    csm_agrees.2.2.1 _ _ hbody, ?_⟩
  exact csm_agrees.2.2.2 _ _ (by decide)

end Iap2

end Bridgething
