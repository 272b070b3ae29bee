/-
The gateway wire codec: the resynchronising decoder, one iteration of its loop
at a time, and the encoder of the peer.
-/
import Bridgething.Lib.Framing
import Bridgething.Wire.Frame

namespace Bridgething

namespace Wire

variable {Msg Err Probe : Type}

/-- The decoder's progress on the frame at the front of its buffer.  Counters
that only feed log lines are left out. -/
structure EndecState where
  compression : Compression
  encoding : Encoding
  priority : Priority
  length : Nat
  headerParsed : Bool
  totalLength : Nat
deriving Repr, DecidableEq

instance : Inhabited EndecState :=
  ⟨{ compression := .none
     encoding := .msgpack
     priority := .normal
     length := 0
     headerParsed := false
     totalLength := 0 }⟩

/-- Position of the first two-byte window that is the magic. -/
def magicPosition : List UInt8 → Option Nat
  | first :: second :: rest =>
      if (first, second) = MAGIC then some 0
      else (magicPosition (second :: rest)).map (· + 1)
  | _ => none

/-- Skip to the next magic; without one, keep only the last byte, which may be
the first half of a magic that straddles two reads. -/
def resyncToMagic (src : List UInt8) : Bool × List UInt8 :=
  match magicPosition src with
  | some pos => (true, src.drop pos)
  | none => (false, src.drop (src.length - 1))

/-- The magic, version and length fields of the header at the front. -/
def headerMagic (src : List UInt8) : UInt8 × UInt8 :=
  (src.getD 0 0, src.getD 1 0)

def headerVersion (src : List UInt8) : UInt8 := src.getD 2 0

def headerLength (src : List UInt8) : Nat :=
  fromBeBytes ((src.drop 8).take 8)

/-- The state after a header was accepted. -/
def parsedHeader (src : List UInt8) : EndecState where
  compression := Compression.fromByte (src.getD 3 0)
  encoding := Encoding.fromByte (src.getD 4 0)
  priority := Priority.fromByte (src.getD 5 0)
  length := headerLength src
  headerParsed := true
  totalLength := HEADER_LEN + headerLength src

/-- The payload of a body, capped at the frame limit after decompression. -/
def decompressBody (lib : BodyLib Msg Err Probe) (compression : Compression)
    (body : List UInt8) : Except (EndecError Err Probe) (List UInt8) :=
  match compression with
  | .none => .ok body
  | .gzip =>
      match lib.gunzipTake (MAX_FRAME_LEN + 1) body with
      | .error error => .error (.decompress error)
      | .ok decompressed =>
          if MAX_FRAME_LEN < decompressed.length then
            .error (.decompressTooLarge MAX_FRAME_LEN)
          else .ok decompressed

def deserializePayload (lib : BodyLib Msg Err Probe) (encoding : Encoding)
    (payload : List UInt8) : Except (EndecError Err Probe) Msg :=
  match encoding with
  | .msgpack =>
      match lib.rmpFromSlice payload with
      | .ok msg => .ok msg
      | .error error => .error
          (.typedDecode (.rmp error) (lib.tryProbeEnvelopeMsgpack payload))
  | .json =>
      match lib.jsonFromSlice payload with
      | .ok msg => .ok msg
      | .error error => .error
          (.typedDecode (.json error) (lib.tryProbeEnvelopeJson payload))

/-- What the body of an accepted header turns into. -/
def decodeBody (lib : BodyLib Msg Err Probe) (state : EndecState)
    (body : List UInt8) :
    Except (EndecError Err Probe) (PrioritizedFrame Msg) := do
  let payload ← decompressBody lib state.compression body
  let msg ← deserializePayload lib state.encoding payload
  return .new state.priority msg

/-- A decoder call's answer, the state it leaves and the bytes left unread. -/
abbrev Answer (Item Err Probe : Type) :=
  Except (EndecError Err Probe) (Option Item) × Option EndecState × List UInt8

/-- The body is off the buffer and the state is gone before either can fail. -/
def finishFrame (lib : BodyLib Msg Err Probe) (state : EndecState)
    (src : List UInt8) : Answer (PrioritizedFrame Msg) Err Probe :=
  let body := (src.drop HEADER_LEN).take state.length
  ((decodeBody lib state body).map some, none,
    (src.drop HEADER_LEN).drop state.length)

/-- How one iteration of the decode loop ends: a return, or a `continue` with
no state and the buffer at a magic. -/
inductive Iteration (Msg Err Probe : Type)
  | done (answer : Answer (PrioritizedFrame Msg) Err Probe)
  | again (src : List UInt8)

def resyncOrWait (src : List UInt8) : Iteration Msg Err Probe :=
  match resyncToMagic src with
  | (true, src) => .again src
  | (false, src) => .done (.ok none, none, src)

def awaitBody (lib : BodyLib Msg Err Probe) (state : EndecState)
    (src : List UInt8) : Iteration Msg Err Probe :=
  if src.length < state.totalLength then .done (.ok none, some state, src)
  else .done (finishFrame lib state src)

def iterate (lib : BodyLib Msg Err Probe) (state : Option EndecState)
    (src : List UInt8) : Iteration Msg Err Probe :=
  if src = [] then .done (.ok none, state, src)
  else
    let state := state.getD default
    if state.headerParsed then awaitBody lib state src
    else if src.length < HEADER_LEN then .done (.ok none, some state, src)
    else if headerMagic src ≠ MAGIC then resyncOrWait src
    else if headerVersion src ≠ VERSION then resyncOrWait (src.drop 1)
    else if MAX_FRAME_LEN < headerLength src then resyncOrWait (src.drop 1)
    else awaitBody lib (parsedHeader src) src

theorem magicPosition_lt {src : List UInt8} {pos : Nat}
    (h : magicPosition src = some pos) : pos + 1 < src.length := by
  induction src generalizing pos with
  | nil => simp [magicPosition] at h
  | cons first tail ih =>
      cases tail with
      | nil => simp [magicPosition] at h
      | cons second rest =>
          by_cases hmagic : (first, second) = MAGIC
          · simp only [magicPosition, hmagic, ↓reduceIte,
              Option.some.injEq] at h
            simp only [List.length_cons]
            omega
          · simp only [magicPosition, hmagic, ↓reduceIte,
              Option.map_eq_some_iff] at h
            obtain ⟨before, hbefore, rfl⟩ := h
            have := ih hbefore
            simp only [List.length_cons] at this ⊢
            omega

theorem magicPosition_pos {src : List UInt8} {pos : Nat}
    (h : magicPosition src = some pos) (hfront : headerMagic src ≠ MAGIC) :
    0 < pos := by
  match src with
  | [] => simp [magicPosition] at h
  | [_] => simp [magicPosition] at h
  | first :: second :: rest =>
      have hmagic : ¬ (first, second) = MAGIC := by
        simpa [headerMagic] using hfront
      simp only [magicPosition, hmagic, ↓reduceIte,
        Option.map_eq_some_iff] at h
      obtain ⟨before, _, rfl⟩ := h
      exact Nat.succ_pos before

theorem resyncOrWait_eq_again {src next : List UInt8}
    (h : @resyncOrWait Msg Err Probe src = .again next) :
    ∃ pos, magicPosition src = some pos ∧ next = src.drop pos := by
  unfold resyncOrWait resyncToMagic at h
  cases hpos : magicPosition src with
  | none => simp [hpos] at h
  | some pos =>
      simp only [hpos, Iteration.again.injEq] at h
      exact ⟨pos, rfl, h.symm⟩

theorem awaitBody_ne_again (lib : BodyLib Msg Err Probe) (state : EndecState)
    (src next : List UInt8) : awaitBody lib state src ≠ .again next := by
  unfold awaitBody
  split <;> simp

/-- The ways one iteration can go, with the guards that lead there. -/
inductive IterateCase (lib : BodyLib Msg Err Probe)
    (state : Option EndecState) (src : List UInt8) :
    Iteration Msg Err Probe → Prop
  | empty (hempty : src = []) :
      IterateCase lib state src (.done (.ok none, state, src))
  | parsed (hsome : src ≠ [])
      (hparsed : (state.getD default).headerParsed = true) :
      IterateCase lib state src (awaitBody lib (state.getD default) src)
  | short (hparsed : (state.getD default).headerParsed = false)
      (hshort : src.length < HEADER_LEN) :
      IterateCase lib state src
        (.done (.ok none, some (state.getD default), src))
  | badMagic (hlong : HEADER_LEN ≤ src.length)
      (hmagic : headerMagic src ≠ MAGIC) :
      IterateCase lib state src (resyncOrWait src)
  | badHeader (hlong : HEADER_LEN ≤ src.length)
      (hmagic : headerMagic src = MAGIC)
      (hbad : headerVersion src ≠ VERSION ∨
        MAX_FRAME_LEN < headerLength src) :
      IterateCase lib state src (resyncOrWait (src.drop 1))
  | accepted (hlong : HEADER_LEN ≤ src.length)
      (hmagic : headerMagic src = MAGIC)
      (hversion : headerVersion src = VERSION)
      (hlength : headerLength src ≤ MAX_FRAME_LEN) :
      IterateCase lib state src (awaitBody lib (parsedHeader src) src)

theorem iterate_case (lib : BodyLib Msg Err Probe)
    (state : Option EndecState) (src : List UInt8) :
    IterateCase lib state src (iterate lib state src) := by
  simp only [iterate]
  by_cases hempty : src = []
  · rw [if_pos hempty]
    exact .empty hempty
  rw [if_neg hempty]
  by_cases hparsed : (state.getD default).headerParsed = true
  · rw [if_pos hparsed]
    exact .parsed hempty hparsed
  rw [if_neg hparsed]
  by_cases hshort : src.length < HEADER_LEN
  · rw [if_pos hshort]
    exact .short (by simpa using hparsed) hshort
  rw [if_neg hshort]
  have hlong : HEADER_LEN ≤ src.length := Nat.le_of_not_lt hshort
  by_cases hmagic : headerMagic src = MAGIC
  · rw [if_neg (not_not_intro hmagic)]
    by_cases hversion : headerVersion src = VERSION
    · rw [if_neg (not_not_intro hversion)]
      by_cases hlength : MAX_FRAME_LEN < headerLength src
      · rw [if_pos hlength]
        exact .badHeader hlong hmagic (Or.inr hlength)
      · rw [if_neg hlength]
        exact .accepted hlong hmagic hversion (Nat.le_of_not_lt hlength)
    · rw [if_pos hversion]
      exact .badHeader hlong hmagic (Or.inl hversion)
  · rw [if_pos hmagic]
    exact .badMagic hlong hmagic

/-- The loop only continues out of a rejected header, and what it rejected is
behind the buffer's new front. -/
theorem iterate_eq_again (lib : BodyLib Msg Err Probe)
    {state : Option EndecState} {src next : List UInt8}
    (h : iterate lib state src = .again next) :
    ∃ pos, 0 < pos ∧ pos < src.length ∧ next = src.drop pos := by
  have hcase := iterate_case lib state src
  rw [h] at hcase
  generalize hit : Iteration.again next = iteration at hcase
  cases hcase with
  | empty hempty => simp at hit
  | parsed hsome hparsed => exact absurd hit.symm (awaitBody_ne_again _ _ _ _)
  | short hparsed hshort => simp at hit
  | badMagic hlong hmagic =>
      obtain ⟨pos, hpos, rfl⟩ := resyncOrWait_eq_again hit.symm
      have := magicPosition_lt hpos
      exact ⟨pos, magicPosition_pos hpos hmagic, by omega, rfl⟩
  | badHeader hlong hmagic hbad =>
      obtain ⟨pos, hpos, rfl⟩ := resyncOrWait_eq_again hit.symm
      have hlt := magicPosition_lt hpos
      rw [List.length_drop] at hlt
      exact ⟨1 + pos, by omega, by omega, by rw [List.drop_drop]⟩
  | accepted hlong hmagic hversion hlength =>
      exact absurd hit.symm (awaitBody_ne_again _ _ _ _)

theorem iterate_again_length (lib : BodyLib Msg Err Probe)
    {state : Option EndecState} {src next : List UInt8}
    (h : iterate lib state src = .again next) : next.length < src.length := by
  obtain ⟨pos, hpos, hlt, rfl⟩ := iterate_eq_again lib h
  rw [List.length_drop]
  omega

/-- The decode loop. -/
def decodeBuf (lib : BodyLib Msg Err Probe) (state : Option EndecState)
    (src : List UInt8) : Answer (PrioritizedFrame Msg) Err Probe :=
  match _h : iterate lib state src with
  | .done answer => answer
  | .again next => decodeBuf lib none next
termination_by src.length
decreasing_by exact iterate_again_length lib _h

theorem decodeBuf_done (lib : BodyLib Msg Err Probe)
    {state : Option EndecState} {src : List UInt8}
    {answer : Answer (PrioritizedFrame Msg) Err Probe}
    (h : iterate lib state src = .done answer) :
    decodeBuf lib state src = answer := by
  rw [decodeBuf]
  split <;> simp_all

theorem decodeBuf_again (lib : BodyLib Msg Err Probe)
    {state : Option EndecState} {src next : List UInt8}
    (h : iterate lib state src = .again next) :
    decodeBuf lib state src = decodeBuf lib none next := by
  rw [decodeBuf]
  split <;> simp_all

/-- Whatever is not a wait has taken bytes off the buffer. -/
theorem awaitBody_length (lib : BodyLib Msg Err Probe) {state : EndecState}
    {src : List UInt8} (hsome : src ≠ [])
    {answer : Answer (PrioritizedFrame Msg) Err Probe}
    (h : awaitBody lib state src = .done answer) :
    answer.1 = .ok none ∨ answer.2.2.length < src.length := by
  unfold awaitBody at h
  split at h
  · rw [Iteration.done.injEq] at h
    exact Or.inl (by rw [← h])
  · rw [Iteration.done.injEq] at h
    have hpos := List.length_pos_iff.mpr hsome
    apply Or.inr
    rw [← h]
    simp only [finishFrame, List.length_drop, HEADER_LEN]
    omega

theorem resyncOrWait_eq_done {src : List UInt8}
    {answer : Answer (PrioritizedFrame Msg) Err Probe}
    (h : @resyncOrWait Msg Err Probe src = .done answer) :
    answer.1 = .ok none := by
  unfold resyncOrWait at h
  split at h
  · simp at h
  · rw [Iteration.done.injEq] at h
    rw [← h]

theorem iterate_done_length (lib : BodyLib Msg Err Probe)
    {state : Option EndecState} {src : List UInt8}
    {answer : Answer (PrioritizedFrame Msg) Err Probe}
    (h : iterate lib state src = .done answer) :
    answer.1 = .ok none ∨ answer.2.2.length < src.length := by
  have hcase := iterate_case lib state src
  rw [h] at hcase
  generalize hit : Iteration.done answer = iteration at hcase
  cases hcase with
  | empty hempty =>
      rw [Iteration.done.injEq] at hit
      exact Or.inl (by rw [hit])
  | parsed hsome hparsed => exact awaitBody_length lib hsome hit.symm
  | short hparsed hshort =>
      rw [Iteration.done.injEq] at hit
      exact Or.inl (by rw [hit])
  | badMagic hlong hmagic => exact Or.inl (resyncOrWait_eq_done hit.symm)
  | badHeader hlong hmagic hbad =>
      exact Or.inl (resyncOrWait_eq_done hit.symm)
  | accepted hlong hmagic hversion hlength =>
      have hsome : src ≠ [] := by
        intro hempty
        rw [hempty] at hlong
        exact absurd hlong (by decide)
      exact awaitBody_length lib hsome hit.symm

theorem decodeBuf_length (lib : BodyLib Msg Err Probe)
    (state : Option EndecState) (src : List UInt8) :
    (decodeBuf lib state src).1 = .ok none ∨
      (decodeBuf lib state src).2.2.length < src.length := by
  induction hlength : src.length using Nat.strongRecOn
    generalizing state src with
  | ind length ih =>
      subst hlength
      cases hit : iterate lib state src with
      | done answer =>
          rw [decodeBuf_done lib hit]
          exact iterate_done_length lib hit
      | again next =>
          have hlt := iterate_again_length lib hit
          rw [decodeBuf_again lib hit]
          rcases ih next.length hlt none next rfl with hnone | hshrinks
          · exact Or.inl hnone
          · exact Or.inr (Nat.lt_trans hshrinks hlt)

/-- Recoverable failures ride the item, so that they do not end the stream. -/
def decodeItem (lib : BodyLib Msg Err Probe) (state : Option EndecState)
    (src : List UInt8) : Answer (DecodedFrame Msg Err Probe) Err Probe :=
  match decodeBuf lib state src with
  | (.ok (some frame), next) => (.ok (some (.frame frame)), next)
  | (.ok none, next) => (.ok none, next)
  | (.error error, next) =>
      if error.isRecoverable then (.ok (some (.failed error)), next)
      else (.error error, next)

def gzipBody (lib : BodyLib Msg Err Probe) (payload : List UInt8) :
    Except (EndecError Err Probe) (List UInt8) :=
  (lib.gzip payload).mapError .compression

def compressBody (lib : BodyLib Msg Err Probe) (priority : Priority)
    (compress : Compress) (packed : List UInt8) :
    Except (EndecError Err Probe) (Compression × List UInt8) := do
  let wanted : Bool := match compress with
    | .never => false
    | .always => true
    | .ifSmaller => true
    | .auto => priority = .normal ∧ AUTO_GZIP_THRESHOLD_BYTES < packed.length
  if !wanted then
    return (.none, packed)
  let zipped ← gzipBody lib packed
  if compress = .always ∨ zipped.length < packed.length then
    return (.gzip, zipped)
  else
    return (.none, packed)

/-- The header `encodeFrame` writes in front of a body. -/
def frameHeader (priority : Priority) (compression : Compression)
    (length : Nat) : List UInt8 :=
  [MAGIC.1, MAGIC.2, VERSION, compression.toByte, ENCODING_MSGPACK,
    priority.asByte, 0, 0] ++ toBeBytes 8 length

/-- The bytes appended to the outgoing buffer; on an error none are. -/
def encodeFrame (lib : BodyLib Msg Err Probe) (priority : Priority)
    (compress : Compress) (msg : Msg) :
    Except (EndecError Err Probe) (List UInt8) := do
  let packed ← (lib.rmpToVecNamed msg).mapError .rmpSerialization
  let (compression, body) ← compressBody lib priority compress packed
  return frameHeader priority compression body.length ++ body

end Wire

end Bridgething
