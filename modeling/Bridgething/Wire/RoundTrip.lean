/-
The encoder against the decoder: a frame under the cap comes back whole, and a
frame over it is scanned past.
-/
import Bridgething.Wire.Resync

namespace Bridgething

namespace Wire

open Framing

variable {Msg Err Probe : Type}

/-- What the serialiser and the gzip codec owe each other. -/
structure BodyLib.RoundTrips (lib : BodyLib Msg Err Probe) : Prop where
  rmp : ∀ {msg : Msg} {packed : List UInt8},
    lib.rmpToVecNamed msg = .ok packed → lib.rmpFromSlice packed = .ok msg
  gzip : ∀ {payload zipped : List UInt8}, lib.gzip payload = .ok zipped →
    ∀ limit, lib.gunzipTake limit zipped = .ok (payload.take limit)

/-- A fresh decoder fed these bytes gives exactly this frame and has nothing
left. -/
def Delivered (lib : BodyLib Msg Err Probe) (priority : Priority) (msg : Msg)
    (bytes : List UInt8) : Prop :=
  (wireDecoder lib).drain none bytes =
    ([.frame (.new priority msg)], none, [])

/-- The serialised message, and its gzip where the directive ships it whatever
its size, are under the cap. -/
def UnderCap (lib : BodyLib Msg Err Probe) (compress : Compress)
    (msg : Msg) : Prop :=
  ∀ packed, lib.rmpToVecNamed msg = .ok packed →
    packed.length ≤ MAX_FRAME_LEN ∧
      (compress = .always → ∀ zipped, lib.gzip packed = .ok zipped →
        zipped.length ≤ MAX_FRAME_LEN)

section Encoded

variable {lib : BodyLib Msg Err Probe} {priority : Priority}
  {compress : Compress} {msg : Msg} {packed : List UInt8}

/-- The body is the payload itself or its gzip, and a gzip that is not forced
is the smaller of the two. -/
theorem compressBody_cases {compression : Compression} {body : List UInt8}
    (h : compressBody lib priority compress packed =
      .ok (compression, body)) :
    (compress ≠ .always ∧ compression = .none ∧ body = packed) ∨
      (compression = .gzip ∧ lib.gzip packed = .ok body ∧
        (compress = .always ∨ body.length < packed.length)) := by
  unfold compressBody gzipBody at h
  cases hzip : lib.gzip packed with
  | error error =>
      cases compress <;>
        simp_all [bind, Except.bind, pure, Except.pure, Except.mapError]
      split at h <;> simp_all
  | ok zipped =>
      cases compress <;>
        simp_all [bind, Except.bind, pure, Except.pure, Except.mapError]
      · split at h <;> (try split at h) <;> simp_all
      · split at h <;> simp_all

/-- What was written: a header over a body, both of them this message's. -/
theorem encodeFrame_eq_ok {bytes : List UInt8}
    (h : encodeFrame lib priority compress msg = .ok bytes) :
    ∃ packed compression body, lib.rmpToVecNamed msg = .ok packed ∧
      compressBody lib priority compress packed = .ok (compression, body) ∧
      bytes = frameHeader priority compression body.length ++ body := by
  unfold encodeFrame at h
  cases hpacked : lib.rmpToVecNamed msg with
  | error error => simp [hpacked, Except.mapError, bind, Except.bind] at h
  | ok packed =>
      cases hbody : compressBody lib priority compress packed with
      | error error =>
          simp [hpacked, hbody, Except.mapError, bind, Except.bind] at h
      | ok shipped =>
          simp only [hpacked, hbody, Except.mapError, bind, Except.bind, pure,
            Except.pure, Except.ok.injEq] at h
          exact ⟨packed, shipped.1, shipped.2, rfl, hbody, h.symm⟩

/-- The body of an encoded message reads back, as long as the payload is under
the cap. -/
theorem decodeBody_of_compressBody (laws : lib.RoundTrips)
    {compression : Compression} {body : List UInt8} (state : EndecState)
    (hpacked : lib.rmpToVecNamed msg = .ok packed)
    (hbody : compressBody lib priority compress packed =
      .ok (compression, body))
    (hcap : packed.length ≤ MAX_FRAME_LEN)
    (hcompression : state.compression = compression)
    (hencoding : state.encoding = .msgpack) :
    decodeBody lib state body = .ok (.new state.priority msg) := by
  have hpayload : decompressBody lib compression body = .ok packed := by
    rcases compressBody_cases hbody with ⟨_, rfl, rfl⟩ | ⟨rfl, hzip, _⟩
    · rfl
    · have htaken : packed.take (MAX_FRAME_LEN + 1) = packed :=
        List.take_of_length_le (Nat.le_succ_of_le hcap)
      simp only [decompressBody, laws.gzip hzip, htaken,
        if_neg (Nat.not_lt.mpr hcap)]
  have hmsg : deserializePayload lib .msgpack packed = .ok msg := by
    simp only [deserializePayload, laws.rmp hpacked]
  simp only [decodeBody, hcompression, hencoding, hpayload, hmsg, bind,
    Except.bind, pure, Except.pure]

/-- A payload over the cap does not come out of its gzip. -/
theorem decodeBody_tooLarge (laws : lib.RoundTrips) {body : List UInt8}
    (state : EndecState) (hzip : lib.gzip packed = .ok body)
    (hcap : MAX_FRAME_LEN < packed.length)
    (hcompression : state.compression = .gzip) :
    decodeBody lib state body =
      .error (.decompressTooLarge MAX_FRAME_LEN) := by
  have hlong : MAX_FRAME_LEN < (packed.take (MAX_FRAME_LEN + 1)).length := by
    rw [List.length_take]
    omega
  simp only [decodeBody, hcompression, decompressBody, laws.gzip hzip,
    if_pos hlong, bind, Except.bind]

end Encoded

/-- The frame `encodeFrame` writes, when the body is under the cap. -/
def encodedFrame (priority : Priority) (compression : Compression)
    (body : List UInt8) (fits : body.length ≤ MAX_FRAME_LEN) : WireFrame where
  compression := compression.toByte
  encoding := ENCODING_MSGPACK
  priority := priority.asByte
  reserved := (0, 0)
  body := body
  fits := fits

theorem encodedFrame_bytes (priority : Priority) (compression : Compression)
    (body : List UInt8) (fits : body.length ≤ MAX_FRAME_LEN) :
    (encodedFrame priority compression body fits).bytes =
      frameHeader priority compression body.length ++ body := rfl

section Frame

variable (lib : BodyLib Msg Err Probe)

/-- One whole frame in a fresh decoder's buffer is read in one call. -/
theorem WireFrame.decodeBuf_bytes (frame : WireFrame) :
    decodeBuf lib none frame.bytes =
      ((decodeBody lib frame.state frame.body).map some, none, []) := by
  have haccepted : HeaderAccepted frame.bytes := by
    simpa using frame.headerAccepted []
  have hparsed : parsedHeader frame.bytes = frame.state := by
    simpa using frame.parsedHeader_bytes_append []
  have hbody : (frame.bytes.drop HEADER_LEN).take frame.body.length =
      frame.body := by
    simpa using frame.body_bytes_append []
  have hrest : (frame.bytes.drop HEADER_LEN).drop frame.body.length = [] := by
    rw [List.drop_drop, ← frame.length_bytes, List.drop_length]
  have hdone : iterate lib none frame.bytes =
      .done (finishFrame lib frame.state frame.bytes) := by
    have hcase := iterate_case lib none frame.bytes
    generalize iterate lib none frame.bytes = iteration at hcase
    cases hcase with
    | empty hempty =>
        have := haccepted.long
        rw [hempty] at this
        exact absurd this (by decide)
    | parsed _ hparsed => exact absurd hparsed (by decide)
    | short _ hshort => exact absurd hshort (Nat.not_lt.mpr haccepted.long)
    | badMagic _ hmagic => exact absurd haccepted.magic hmagic
    | badHeader _ _ hbad =>
        rcases hbad with hversion | hlength
        · exact absurd haccepted.version hversion
        · exact absurd hlength (Nat.not_lt.mpr haccepted.length)
    | accepted _ _ _ _ =>
        rw [hparsed, awaitBody, if_neg]
        rw [frame.length_bytes]
        exact Nat.lt_irrefl _
  rw [decodeBuf_done lib hdone]
  simp only [finishFrame]
  rw [show frame.state.length = frame.body.length from rfl, hbody, hrest]

theorem wireDecoder_pull_nil (state : Option EndecState) :
    (wireDecoder lib).pull state [] = (none, state, []) := by
  have hdone : iterate lib state [] = .done (.ok none, state, []) := rfl
  rw [wireDecoder_pull, decodeBuf_done lib hdone]
  rfl

theorem WireFrame.drain_bytes (frame : WireFrame) :
    (wireDecoder lib).drain none frame.bytes =
      ([frame.outcome lib], none, []) := by
  have hpull : (wireDecoder lib).pull none frame.bytes =
      (some (frame.outcome lib), none, []) := by
    rw [wireDecoder_pull, frame.decodeBuf_bytes lib]
    simp only [WireFrame.outcome, Wire.outcome]
    cases decodeBody lib frame.state frame.body <;> rfl
  rw [Decoder.drain_item _ hpull,
    Decoder.drain_idle _ (wireDecoder_pull_nil lib none)]

/-- Draining a fresh decoder gives the items of the stream. -/
theorem drain_items (bytes : List UInt8) :
    ((wireDecoder lib).drain none bytes).1 =
      (wireGrammar lib).parse bytes := by
  obtain ⟨_, hidle, hparse⟩ :=
    (wireDecoder_reads lib).drain none bytes (coherent_none bytes)
  have hwhole := hparse []
  rw [List.append_nil, List.append_nil, hidle, List.append_nil] at hwhole
  exact hwhole.symm

end Frame

section Cap

variable {lib : BodyLib Msg Err Probe} {priority : Priority}
  {compress : Compress} {msg : Msg} {bytes : List UInt8}

/-- The length field of an encoded header, for every length a `u64` holds. -/
theorem headerLength_frameHeader (compression : Compression)
    (body : List UInt8) (h : body.length < 256 ^ 8) :
    headerLength (frameHeader priority compression body.length ++ body) =
      body.length := by
  have hfield : ((frameHeader priority compression body.length ++ body).drop
      8).take 8 = toBeBytes 8 body.length := by
    simp [frameHeader]
  rw [headerLength, hfield, fromBeBytes_toBeBytes h]

theorem delivered_of_underCap (laws : lib.RoundTrips)
    (hencode : encodeFrame lib priority compress msg = .ok bytes)
    (hcap : UnderCap lib compress msg) :
    Delivered lib priority msg bytes := by
  obtain ⟨packed, compression, body, hpacked, hbody, rfl⟩ :=
    encodeFrame_eq_ok hencode
  obtain ⟨hsmall, hforced⟩ := hcap packed hpacked
  have hfits : body.length ≤ MAX_FRAME_LEN := by
    rcases compressBody_cases hbody with ⟨_, _, rfl⟩ | ⟨_, hzip, hwhy⟩
    · exact hsmall
    · rcases hwhy with halways | hshorter
      · exact hforced halways body hzip
      · exact Nat.le_trans (Nat.le_of_lt hshorter) hsmall
  have hread := decodeBody_of_compressBody laws
    (encodedFrame priority compression body hfits).state hpacked
    hbody hsmall (Compression.fromByte_toByte compression) rfl
  have hpriority : (encodedFrame priority compression body hfits).state.priority
      = priority := Priority.fromByte_asByte priority
  rw [hpriority] at hread
  rw [Delivered, ← encodedFrame_bytes priority compression body hfits,
    WireFrame.drain_bytes]
  simp only [WireFrame.outcome, Wire.outcome]
  rw [show (encodedFrame priority compression body hfits).body = body from rfl,
    hread]

/-- Over the cap, the frame is scanned past: without a magic behind its first
byte nothing comes out, or only a failure does. -/
theorem not_delivered_of_not_underCap (laws : lib.RoundTrips)
    (hencode : encodeFrame lib priority compress msg = .ok bytes)
    (hsize : bytes.length < 2 ^ 64)
    (hnoMagic : ¬ [MAGIC.1, MAGIC.2] <:+: bytes.drop 1)
    (hcap : ¬ UnderCap lib compress msg) :
    ¬ Delivered lib priority msg bytes := by
  intro hdelivered
  obtain ⟨packed, compression, body, hpacked, hbody, rfl⟩ :=
    encodeFrame_eq_ok hencode
  have hitems := drain_items lib
    (frameHeader priority compression body.length ++ body)
  rw [hdelivered] at hitems
  by_cases hfits : body.length ≤ MAX_FRAME_LEN
  · rcases compressBody_cases hbody with ⟨hnever, _, rfl⟩ | ⟨rfl, hzip, _⟩
    · apply hcap
      intro other hother
      rw [hpacked, Except.ok.injEq] at hother
      rw [← hother]
      exact ⟨hfits, fun halways => absurd halways hnever⟩
    · have hlarge : MAX_FRAME_LEN < packed.length := by
        by_contra hsmall
        apply hcap
        intro other hother
        rw [hpacked, Except.ok.injEq] at hother
        rw [← hother]
        refine ⟨Nat.le_of_not_lt hsmall, fun _ zipped hzipped => ?_⟩
        rw [hzip, Except.ok.injEq] at hzipped
        rwa [← hzipped]
      have hread := decodeBody_tooLarge laws
        (encodedFrame priority .gzip body hfits).state hzip hlarge
        (Compression.fromByte_toByte .gzip)
      rw [← encodedFrame_bytes priority .gzip body hfits,
        ← List.append_nil (WireFrame.bytes _), WireFrame.parse_bytes_append,
        Grammar.parse_nil, List.singleton_inj] at hitems
      simp only [WireFrame.outcome, Wire.outcome] at hitems
      rw [show (encodedFrame priority .gzip body hfits).body = body from rfl,
        hread] at hitems
      exact absurd hitems (by simp)
  · have hwidth : body.length < 256 ^ 8 := by
      have : body.length ≤
          (frameHeader priority compression body.length ++ body).length := by
        simp
      exact Nat.lt_of_le_of_lt this hsize
    have hlong : HEADER_LEN ≤
        (frameHeader priority compression body.length ++ body).length := by
      simp [frameHeader, HEADER_LEN]
    have hrejected := lookFrame_rejected lib hlong (Or.inr (by
      rw [headerLength_frameHeader compression body hwidth]
      exact Nat.lt_of_not_le hfits))
    have hjunk := parse_junk_append lib _ [] hnoMagic (by simp)
    rw [List.append_nil, Grammar.parse_nil] at hjunk
    rw [wireParse_skip lib hrejected, hjunk] at hitems
    exact absurd hitems (by simp)

/-- An encoded message under the cap comes back whole; one over it never does,
unless its bytes hide another magic. -/
theorem encodeFrame_delivered (laws : lib.RoundTrips)
    (hencode : encodeFrame lib priority compress msg = .ok bytes) :
    (UnderCap lib compress msg → Delivered lib priority msg bytes) ∧
    (bytes.length < 2 ^ 64 → ¬ [MAGIC.1, MAGIC.2] <:+: bytes.drop 1 →
      (Delivered lib priority msg bytes ↔ UnderCap lib compress msg)) := by
  refine ⟨delivered_of_underCap laws hencode, fun hsize hnoMagic => ?_⟩
  refine ⟨fun hdelivered => ?_, delivered_of_underCap laws hencode⟩
  by_contra hcap
  exact not_delivered_of_not_underCap laws hencode hsize hnoMagic hcap
    hdelivered

end Cap

theorem binLib_rmp_bin (marker : UInt8) (width : Nat) (msg : List UInt8)
    (hmarker : (marker, width) = (0xc4, 1) ∨ (marker, width) = (0xc5, 2) ∨
      (marker, width) = (0xc6, 4))
    (hlength : msg.length < 256 ^ width) :
    binLib.rmpFromSlice (marker :: toBeBytes width msg.length ++ msg) =
      .ok msg := by
  have hfield : (toBeBytes width msg.length ++ msg).take width =
      toBeBytes width msg.length := List.take_left' (by simp)
  have hrest : (toBeBytes width msg.length ++ msg).drop width = msg :=
    List.drop_left' (by simp)
  rcases hmarker with heq | heq | heq <;>
    (rw [Prod.mk.injEq] at heq; obtain ⟨rfl, rfl⟩ := heq) <;>
    simp [binLib, hfield, fromBeBytes_toBeBytes hlength] <;>
    omega

theorem binLib_roundTrips : binLib.RoundTrips where
  rmp := by
    intro msg packed h
    simp only [binLib] at h
    split at h
    · rw [Except.ok.injEq] at h
      rw [← h]
      exact binLib_rmp_bin _ _ _ (Or.inl rfl) ‹_›
    split at h
    · rw [Except.ok.injEq] at h
      rw [← h]
      exact binLib_rmp_bin _ _ _ (Or.inr (Or.inl rfl)) ‹_›
    split at h
    · rw [Except.ok.injEq] at h
      rw [← h]
      exact binLib_rmp_bin _ _ _ (Or.inr (Or.inr rfl)) ‹_›
    · exact absurd h (by simp)
  gzip := by
    intro payload zipped h limit
    simp only [binLib, Except.ok.injEq] at h
    rw [← h]
    rfl

theorem encodeFrame_delivered_binLib :
    Delivered binLib .bulk [1, 2, 3]
      [0xde, 0xad, 2, 0, 0, 1, 0, 0, 0, 0, 0, 0, 0, 0, 0, 5, 0xc4, 3, 1, 2,
        3] := by
  have hpacked : binLib.rmpToVecNamed [1, 2, 3] = .ok [0xc4, 3, 1, 2, 3] := rfl
  have hencode : encodeFrame binLib .bulk .never [1, 2, 3] =
      .ok [0xde, 0xad, 2, 0, 0, 1, 0, 0, 0, 0, 0, 0, 0, 0, 0, 5, 0xc4, 3, 1,
        2, 3] := rfl
  apply (encodeFrame_delivered binLib_roundTrips hencode).1
  intro packed hother
  rw [hpacked, Except.ok.injEq] at hother
  rw [← hother]
  exact ⟨by decide, fun halways => absurd halways (by decide)⟩

section Zeros

variable {zeros : List UInt8} (hlength : zeros.length = 16777216)

include hlength

theorem binLib_zeros_packed :
    binLib.rmpToVecNamed zeros = .ok ([0xc6, 1, 0, 0, 0] ++ zeros) := by
  have hwidth : toBeBytes 4 16777216 = [1, 0, 0, 0] := by simp [toBeBytes]
  simp [binLib, hlength, hwidth]

theorem binLib_zeros_encoded :
    encodeFrame binLib .normal .never zeros =
      .ok ([0xde, 0xad, 2, 0, 0, 0, 0, 0, 0, 0, 0, 0, 1, 0, 0, 5] ++
        ([0xc6, 1, 0, 0, 0] ++ zeros)) := by
  have hwidth : toBeBytes 8 16777221 = [0, 0, 0, 0, 1, 0, 0, 5] := by
    simp [toBeBytes]
  have hsize : ([0xc6, 1, 0, 0, 0] ++ zeros).length = 16777221 := by
    rw [List.length_append, hlength]
    rfl
  have hheader : frameHeader .normal .none 16777221 =
      [0xde, 0xad, 2, 0, 0, 0, 0, 0, 0, 0, 0, 0, 1, 0, 0, 5] := by
    rw [frameHeader, hwidth]
    rfl
  simp only [encodeFrame, binLib_zeros_packed hlength, Except.mapError,
    compressBody, bind, Except.bind, pure, Except.pure, Bool.not_false,
    ↓reduceIte, hsize, hheader]

theorem binLib_zeros_not_underCap : ¬ UnderCap binLib .never zeros := by
  intro hcap
  have hsmall := (hcap _ (binLib_zeros_packed hlength)).1
  rw [List.length_append, hlength] at hsmall
  exact absurd hsmall (by decide)

theorem binLib_zeros_not_delivered (hzero : ∀ byte ∈ zeros, byte = 0) :
    ∃ bytes, encodeFrame binLib .normal .never zeros = .ok bytes ∧
      ¬ Delivered binLib .normal zeros bytes := by
  have hencode := binLib_zeros_encoded hlength
  refine ⟨_, hencode, ?_⟩
  apply not_delivered_of_not_underCap binLib_roundTrips hencode
  · rw [List.length_append, List.length_append, hlength]
    decide
  · intro hinside
    have hmem := hinside.subset (List.mem_cons_self (a := MAGIC.1))
    rw [List.cons_append, List.drop_succ_cons, List.drop_zero,
      List.mem_append, List.mem_append] at hmem
    rcases hmem with hheader | hmarker | hbody
    · exact absurd hheader (by decide)
    · exact absurd hmarker (by decide)
    · exact absurd (hzero _ hbody) (by decide)
  · exact binLib_zeros_not_underCap hlength

end Zeros

/-- Sixteen mebibytes of zeros encode, and the decoder scans past them. -/
theorem encodeFrame_zeros_not_delivered :
    binLib.RoundTrips ∧
      ∃ bytes, encodeFrame binLib .normal .never
          (List.replicate 16777216 0) = .ok bytes ∧
        ¬ Delivered binLib .normal (List.replicate 16777216 0) bytes :=
  ⟨binLib_roundTrips, binLib_zeros_not_delivered List.length_replicate
    (fun _ hbyte => List.eq_of_mem_replicate hbyte)⟩

end Wire

end Bridgething
