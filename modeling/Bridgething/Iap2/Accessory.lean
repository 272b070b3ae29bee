/-
External accessory streams over a link: the frames of a batch are packed into
packets, each with the identifier of its one stream in front, that fill what the
link takes at once.
-/
import Bridgething.Iap2.Established
import Bridgething.Lib.BigEndian

namespace Bridgething

namespace Iap2

def EA_LINK_SESSION_ID : UInt8 := 3

def EA_STREAM_ID_PREFIX_LEN : Nat := 2

structure EaFrame where
  streamId : UInt16
  bytes : Bytes
deriving Repr, DecidableEq

/-- The identifier as it stands in front of a packet. -/
def streamPrefix (streamId : UInt16) : Bytes :=
  BigEndian.toBytes EA_STREAM_ID_PREFIX_LEN streamId.toNat

def splitStreamFrame (payload : Bytes) : Option (UInt16 × Bytes) :=
  if payload.length < EA_STREAM_ID_PREFIX_LEN then none
  else
    let streamId := BigEndian.ofBytes (payload.take EA_STREAM_ID_PREFIX_LEN)
    some (UInt16.ofNat streamId, payload.drop EA_STREAM_ID_PREFIX_LEN)

def maxChunkPayload (peerMaxLen : UInt16) : Nat :=
  let overhead := LINK_FRAME_OVERHEAD + EA_STREAM_ID_PREFIX_LEN
  let total := peerMaxLen.toNat
  if total ≤ overhead then 1 else total - overhead

/-- The packets that are full or were left for another stream, and the one that
is open. -/
structure EaPacking where
  packets : List Bytes
  openPacket : Option (UInt16 × Bytes)
deriving Repr, DecidableEq

namespace EaPacking

def close (packing : EaPacking) : EaPacking where
  packets := packing.packets ++ (packing.openPacket.map Prod.snd).toList
  openPacket := none

/-- An open packet of another stream takes no more. -/
def closeOther (packing : EaPacking) (streamId : UInt16) : EaPacking :=
  match packing.openPacket with
  | some (other, _) => if other ≠ streamId then packing.close else packing
  | none => packing

/-- What the open packet, or a new one, has room for goes into it. -/
def takeSome (full : Nat) (streamId : UInt16) (packing : EaPacking)
    (rest : Bytes) : EaPacking × Bytes :=
  let (stream, buf) :=
    packing.openPacket.getD (streamId, streamPrefix streamId)
  let take := min (full - buf.length) rest.length
  let buf := buf ++ rest.take take
  let packing := { packing with openPacket := some (stream, buf) }
  (if buf.length = full then packing.close else packing, rest.drop take)

/-- Each turn of the loop takes at least one byte of the frame. -/
def fill (full : Nat) (streamId : UInt16) :
    Nat → EaPacking → Bytes → EaPacking
  | 0, packing, _ => packing
  | fuel + 1, packing, rest =>
      if rest = [] then packing
      else
        let (packing, rest) := packing.takeSome full streamId rest
        fill full streamId fuel packing rest

def addFrame (full : Nat) (packing : EaPacking) (frame : EaFrame) : EaPacking :=
  fill full frame.streamId frame.bytes.length
    (packing.closeOther frame.streamId) frame.bytes

end EaPacking

def eaPackets (items : List EaFrame) (maxPayload : Nat) : List Bytes :=
  let full := EA_STREAM_ID_PREFIX_LEN + maxPayload
  (items.foldl (EaPacking.addFrame full) ⟨[], none⟩).close.packets

/-! ### What a packet carries -/

@[simp] theorem streamPrefix_length (streamId : UInt16) :
    (streamPrefix streamId).length = 2 :=
  BigEndian.length_toBytes 2 streamId.toNat

theorem splitStreamFrame_packet (streamId : UInt16) (data : Bytes) :
    splitStreamFrame (streamPrefix streamId ++ data) =
      some (streamId, data) := by
  have hlong : ¬ (streamPrefix streamId ++ data).length <
      EA_STREAM_ID_PREFIX_LEN := by
    rw [List.length_append, streamPrefix_length]
    exact Nat.not_lt.mpr (Nat.le_add_right 2 data.length)
  have htake : (streamPrefix streamId ++ data).take EA_STREAM_ID_PREFIX_LEN =
      streamPrefix streamId :=
    List.take_left' (streamPrefix_length streamId)
  have hdrop : (streamPrefix streamId ++ data).drop EA_STREAM_ID_PREFIX_LEN =
      data :=
    List.drop_left' (streamPrefix_length streamId)
  have hnumber : BigEndian.ofBytes (streamPrefix streamId) = streamId.toNat :=
    BigEndian.ofBytes_toBytes_of_lt streamId.toNat_lt
  rw [splitStreamFrame, if_neg hlong, htake, hdrop, hnumber]
  dsimp only
  rw [UInt16.ofNat_toNat]

/-- A packet of one stream with some data, and no more than it may have. -/
def WellPacked (maxPayload : Nat) (packet : Bytes) : Prop :=
  ∃ streamId data, splitStreamFrame packet = some (streamId, data) ∧
    1 ≤ data.length ∧ data.length ≤ maxPayload

/-- The data a packet has of a stream. -/
def dataOf (streamId : UInt16) (packet : Bytes) : Bytes :=
  match splitStreamFrame packet with
  | some (stream, data) => if stream = streamId then data else []
  | none => []

/-- The bytes a frame has of a stream. -/
def EaFrame.bytesOf (streamId : UInt16) (frame : EaFrame) : Bytes :=
  if frame.streamId = streamId then frame.bytes else []

theorem dataOf_packet (streamId stream : UInt16) (data : Bytes) :
    dataOf streamId (streamPrefix stream ++ data) =
      if stream = streamId then data else [] := by
  rw [dataOf, splitStreamFrame_packet]

namespace EaPacking

/-- All packets, with the open one. -/
def whole (packing : EaPacking) : List Bytes :=
  packing.close.packets

def content (streamId : UInt16) (packing : EaPacking) : Bytes :=
  packing.whole.flatMap (dataOf streamId)

/-- What is done is well packed; what is open has some data and room for
more. -/
structure Tidy (maxPayload : Nat) (packing : EaPacking) : Prop where
  packets : ∀ packet ∈ packing.packets, WellPacked maxPayload packet
  openPacket : ∀ stream buf, packing.openPacket = some (stream, buf) →
    ∃ data, buf = streamPrefix stream ++ data ∧ 1 ≤ data.length ∧
      data.length < maxPayload

variable {maxPayload : Nat} {packing : EaPacking}

@[simp] theorem whole_close (packing : EaPacking) :
    packing.close.whole = packing.whole := by
  simp [whole, close]

theorem content_close (streamId : UInt16) (packing : EaPacking) :
    packing.close.content streamId = packing.content streamId := by
  rw [content, whole_close, content]

theorem Tidy.close (h : packing.Tidy maxPayload) :
    packing.close.Tidy maxPayload := by
  refine ⟨fun packet hpacket => ?_, fun stream buf hnone => nomatch hnone⟩
  rcases List.mem_append.1 hpacket with hdone | hopen
  · exact h.packets packet hdone
  · rw [Option.mem_toList, Option.map_eq_some_iff] at hopen
    obtain ⟨⟨stream, buf⟩, hsome, rfl⟩ := hopen
    obtain ⟨data, rfl, hleast, hmost⟩ := h.openPacket stream buf hsome
    exact ⟨stream, data, splitStreamFrame_packet stream data, hleast,
      Nat.le_of_lt hmost⟩

theorem closeOther_eq (packing : EaPacking) (streamId : UInt16) :
    packing.closeOther streamId = packing ∨
      packing.closeOther streamId = packing.close := by
  unfold closeOther
  split
  · split
    · exact .inr rfl
    · exact .inl rfl
  · exact .inl rfl

/-- What is open afterwards is of the stream. -/
theorem closeOther_open {streamId stream : UInt16} {buf : Bytes}
    (h : (packing.closeOther streamId).openPacket = some (stream, buf)) :
    stream = streamId := by
  unfold closeOther at h
  split at h
  · rename_i other held hopen
    split at h
    · nomatch h
    · rename_i hsame
      rw [hopen, Option.some.injEq, Prod.mk.injEq] at h
      rw [← h.1]
      exact not_not.mp hsame
  · rename_i hnone
    rw [hnone] at h
    nomatch h

theorem content_eq (streamId : UInt16) (packing : EaPacking) :
    packing.content streamId = packing.packets.flatMap (dataOf streamId) ++
      (packing.openPacket.map Prod.snd).toList.flatMap (dataOf streamId) := by
  rw [content, whole, close, List.flatMap_append]

/-- The packet that takes more is of the frame's stream and has room. -/
theorem Tidy.opened (h : packing.Tidy maxPayload) (hroom : 0 < maxPayload)
    {streamId : UInt16}
    (hstream : ∀ stream buf, packing.openPacket = some (stream, buf) →
      stream = streamId) :
    ∃ data, packing.openPacket.getD (streamId, streamPrefix streamId) =
        (streamId, streamPrefix streamId ++ data) ∧
      data.length < maxPayload ∧
      ∀ other, packing.content other =
        packing.packets.flatMap (dataOf other) ++
          (if streamId = other then data else []) := by
  rcases hopen : packing.openPacket with _ | ⟨stream, buf⟩
  · refine ⟨[], by rw [List.append_nil]; rfl, hroom, fun other => ?_⟩
    rw [content_eq, hopen, ite_self]
    rfl
  · obtain rfl := hstream stream buf hopen
    obtain ⟨data, rfl, _, hmost⟩ := h.openPacket stream buf hopen
    refine ⟨data, rfl, hmost, fun other => ?_⟩
    rw [content_eq, hopen]
    simp [dataOf_packet]

theorem Tidy.takeSome (h : packing.Tidy maxPayload) (hroom : 0 < maxPayload)
    {streamId : UInt16}
    (hstream : ∀ stream buf, packing.openPacket = some (stream, buf) →
      stream = streamId) {rest : Bytes} (hrest : rest ≠ []) :
    let taken := packing.takeSome (EA_STREAM_ID_PREFIX_LEN + maxPayload)
      streamId rest
    taken.1.Tidy maxPayload ∧
      (∀ stream buf, taken.1.openPacket = some (stream, buf) →
        stream = streamId) ∧
      taken.2.length < rest.length ∧
      ∀ other, taken.1.content other ++
          (if streamId = other then taken.2 else []) =
        packing.content other ++ (if streamId = other then rest else []) := by
  obtain ⟨data, hopened, hmost, hcontent⟩ := h.opened hroom hstream
  have hsome : 0 < rest.length := List.length_pos_of_ne_nil hrest
  have hroomLeft : EA_STREAM_ID_PREFIX_LEN + maxPayload -
      (streamPrefix streamId ++ data).length = maxPayload - data.length := by
    rw [List.length_append, streamPrefix_length, EA_STREAM_ID_PREFIX_LEN]
    omega
  generalize htake : min (maxPayload - data.length) rest.length = take
  have hlength : (data ++ rest.take take).length = data.length + take := by
    rw [List.length_append, List.length_take]
    omega
  let grown : EaPacking := { packing with
    openPacket := some (streamId, streamPrefix streamId ++
      (data ++ rest.take take)) }
  have hgrown : ∀ other, grown.content other ++
      (if streamId = other then rest.drop take else []) =
        packing.content other ++ (if streamId = other then rest else []) := by
    intro other
    rw [hcontent other, content_eq]
    by_cases hother : streamId = other
    · simp [grown, dataOf_packet, hother]
    · simp [grown, dataOf_packet, hother]
  have htaken : packing.takeSome (EA_STREAM_ID_PREFIX_LEN + maxPayload)
      streamId rest =
        (if (data ++ rest.take take).length = maxPayload then grown.close
          else grown, rest.drop take) := by
    unfold EaPacking.takeSome
    rw [hopened]
    dsimp only
    rw [hroomLeft, htake, List.append_assoc]
    congr 2
    rw [List.length_append, streamPrefix_length, EA_STREAM_ID_PREFIX_LEN,
      Nat.add_left_cancel_iff]
  have hleft : (rest.drop take).length < rest.length := by
    rw [List.length_drop]
    omega
  intro taken
  simp only [taken, htaken]
  split
  · rename_i hfull
    refine ⟨⟨fun packet hpacket => ?_, fun stream buf => (nomatch ·)⟩,
      fun stream buf => (nomatch ·), hleft, fun other => ?_⟩
    · rcases List.mem_append.1 hpacket with hdone | hopen
      · exact h.packets packet hdone
      · rw [List.mem_singleton.1 hopen]
        exact ⟨streamId, data ++ rest.take take, splitStreamFrame_packet _ _,
          by omega, le_of_eq hfull⟩
    · rw [content_close]
      exact hgrown other
  · rename_i hnotFull
    refine ⟨⟨h.packets, fun stream buf hsame => ?_⟩, fun stream buf hsame => ?_,
      hleft, hgrown⟩
    · rw [Option.some.injEq, Prod.mk.injEq] at hsame
      obtain ⟨rfl, rfl⟩ := hsame
      exact ⟨data ++ rest.take take, rfl, by omega, by omega⟩
    · rw [Option.some.injEq, Prod.mk.injEq] at hsame
      exact hsame.1.symm

theorem Tidy.fill (h : packing.Tidy maxPayload) (hroom : 0 < maxPayload)
    {streamId : UInt16}
    (hstream : ∀ stream buf, packing.openPacket = some (stream, buf) →
      stream = streamId) {fuel : Nat} {rest : Bytes}
    (hfuel : rest.length ≤ fuel) :
    let filled := fill (EA_STREAM_ID_PREFIX_LEN + maxPayload) streamId fuel
      packing rest
    filled.Tidy maxPayload ∧ ∀ other, filled.content other =
      packing.content other ++ (if streamId = other then rest else []) := by
  induction fuel generalizing packing rest with
  | zero =>
      obtain rfl := List.length_eq_zero_iff.mp (Nat.le_zero.mp hfuel)
      exact ⟨h, fun other => by rw [ite_self, List.append_nil]; rfl⟩
  | succ fuel ih =>
      rw [EaPacking.fill]
      split
      · rename_i hnil
        subst hnil
        exact ⟨h, fun other => by rw [ite_self, List.append_nil]⟩
      · rename_i hrest
        obtain ⟨htidy, hsame, hshort, hcontent⟩ :=
          h.takeSome hroom hstream hrest
        obtain ⟨hlast, hwhole⟩ :=
          ih htidy hsame (Nat.lt_succ_iff.mp (hshort.trans_le hfuel))
        exact ⟨hlast, fun other => (hwhole other).trans (hcontent other)⟩

theorem Tidy.addFrame (h : packing.Tidy maxPayload) (hroom : 0 < maxPayload)
    (frame : EaFrame) :
    let added := packing.addFrame (EA_STREAM_ID_PREFIX_LEN + maxPayload) frame
    added.Tidy maxPayload ∧ ∀ streamId, added.content streamId =
      packing.content streamId ++ frame.bytesOf streamId := by
  have hclosed : (packing.closeOther frame.streamId).Tidy maxPayload := by
    rcases packing.closeOther_eq frame.streamId with hsame | hclose
    · rw [hsame]
      exact h
    · rw [hclose]
      exact h.close
  have hcontent : ∀ streamId, (packing.closeOther frame.streamId).content
      streamId = packing.content streamId := by
    intro streamId
    rcases packing.closeOther_eq frame.streamId with hsame | hclose
    · rw [hsame]
    · rw [hclose, content_close]
  obtain ⟨htidy, hfilled⟩ := hclosed.fill hroom
    (fun stream buf hopen => closeOther_open hopen) (le_refl frame.bytes.length)
  exact ⟨htidy, fun streamId => by
    rw [EaPacking.addFrame, hfilled, hcontent, EaFrame.bytesOf]⟩

theorem Tidy.addFrames (h : packing.Tidy maxPayload) (hroom : 0 < maxPayload)
    (items : List EaFrame) :
    let added := items.foldl
      (EaPacking.addFrame (EA_STREAM_ID_PREFIX_LEN + maxPayload)) packing
    added.Tidy maxPayload ∧ ∀ streamId, added.content streamId =
      packing.content streamId ++ items.flatMap (·.bytesOf streamId) := by
  induction items generalizing packing with
  | nil => exact ⟨h, fun streamId => by simp⟩
  | cons frame items ih =>
      obtain ⟨htidy, hadded⟩ := h.addFrame hroom frame
      obtain ⟨hlast, hwhole⟩ := ih htidy
      refine ⟨hlast, fun streamId => (hwhole streamId).trans ?_⟩
      rw [hadded, List.flatMap_cons, List.append_assoc]

end EaPacking

theorem eaPackets_spec (items : List EaFrame) {maxPayload : Nat}
    (hroom : 0 < maxPayload) :
    (∀ packet ∈ eaPackets items maxPayload, WellPacked maxPayload packet) ∧
      ∀ streamId, (eaPackets items maxPayload).flatMap (dataOf streamId) =
        items.flatMap (·.bytesOf streamId) := by
  have hstart : EaPacking.Tidy maxPayload ⟨[], none⟩ :=
    ⟨fun packet => (nomatch ·), fun stream buf => (nomatch ·)⟩
  obtain ⟨htidy, hcontent⟩ := hstart.addFrames hroom items
  exact ⟨htidy.close.packets, fun streamId => hcontent streamId⟩

/-! ### What the link does with a packet -/

theorem WellPacked.length_le {maxPayload : Nat} {packet : Bytes}
    (h : WellPacked maxPayload packet) :
    packet ≠ [] ∧ packet.length ≤ EA_STREAM_ID_PREFIX_LEN + maxPayload := by
  obtain ⟨streamId, data, hsplit, hleast, hmost⟩ := h
  unfold splitStreamFrame at hsplit
  split at hsplit
  · nomatch hsplit
  · rename_i hlong
    rw [Option.some.injEq, Prod.mk.injEq] at hsplit
    rw [← hsplit.2, List.length_drop] at hleast hmost
    constructor
    · rintro rfl
      exact hlong (by decide)
    · omega

/-- What the link takes at once stays in one piece. -/
theorem enqueueSend_whole (state : EstablishedState) (sessionId : UInt8)
    {payload : Bytes} (hsome : payload ≠ [])
    (hfits : payload.length ≤ state.params.maxPayloadLen) :
    (state.enqueueSend sessionId payload).pendingSend =
      state.pendingSend ++ [(sessionId, payload)] := by
  unfold EstablishedState.enqueueSend
  rw [EstablishedState.chunks, if_neg (Nat.not_lt.mpr hfits), if_pos hsome]
  rfl

/-- The limits of the two layers agree wherever the peer leaves room for a
byte. -/
theorem maxChunkPayload_fits {lsp : Lsp} (h : 12 < lsp.maxLen.toNat) :
    0 < maxChunkPayload lsp.maxLen ∧
      EA_STREAM_ID_PREFIX_LEN + maxChunkPayload lsp.maxLen =
        (LinkParams.fromPeerLsp lsp).maxPayloadLen := by
  have hoverhead : LINK_FRAME_OVERHEAD = 10 := rfl
  have hprefix : EA_STREAM_ID_PREFIX_LEN = 2 := rfl
  unfold maxChunkPayload LinkParams.fromPeerLsp
  dsimp only
  rw [if_neg (by omega)]
  omega

/-- The packets of a batch carry the bytes of each stream in order, one stream
and no more than the limit each; and where the limit is that of a peer with room
for any data, the link sends each of them in one piece. -/
theorem packetised (items : List EaFrame) :
    (∀ maxPayload, 0 < maxPayload →
      (∀ packet ∈ eaPackets items maxPayload, WellPacked maxPayload packet) ∧
        ∀ streamId, (eaPackets items maxPayload).flatMap (dataOf streamId) =
          items.flatMap (·.bytesOf streamId)) ∧
      ∀ (state : EstablishedState) (lsp : Lsp),
        state.params = .fromPeerLsp lsp → 12 < lsp.maxLen.toNat →
          ∀ packet ∈ eaPackets items (maxChunkPayload lsp.maxLen),
            (state.enqueueSend EA_LINK_SESSION_ID packet).pendingSend =
              state.pendingSend ++ [(EA_LINK_SESSION_ID, packet)] := by
  refine ⟨fun maxPayload => eaPackets_spec items, ?_⟩
  intro state lsp hparams hlong packet hpacket
  obtain ⟨hroom, hlimit⟩ := maxChunkPayload_fits hlong
  have hpacked := ((eaPackets_spec items hroom).1 packet hpacket).length_le
  refine enqueueSend_whole state EA_LINK_SESSION_ID hpacked.1 ?_
  rw [hparams, ← hlimit]
  exact hpacked.2

/-- Two streams over a peer that takes two bytes of data at once. -/
theorem packetised_narrow :
    let lsp : Lsp := ⟨4, 14⟩
    let items : List EaFrame := [⟨256, [1, 2, 3]⟩, ⟨256, [4]⟩, ⟨512, [5]⟩]
    eaPackets items (maxChunkPayload lsp.maxLen) =
        [[1, 0, 1, 2], [1, 0, 3, 4], [2, 0, 5]] ∧
      (∀ packet ∈ eaPackets items 2, WellPacked 2 packet) ∧
      ((EstablishedState.new 0 0 lsp).enqueueSend 3 [1, 0, 3, 4]).pendingSend =
        [(3, [1, 0, 3, 4])] :=
  ⟨by decide, ((packetised _).1 2 (by decide)).1,
    (packetised [⟨256, [1, 2, 3]⟩, ⟨256, [4]⟩, ⟨512, [5]⟩]).2 _ ⟨4, 14⟩ rfl
      (by decide) [1, 0, 3, 4] (by decide)⟩

end Iap2

end Bridgething
