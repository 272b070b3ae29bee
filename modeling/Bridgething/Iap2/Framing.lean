/-
What the link codec makes of a stream: the same however it is cut, and just the
packets that were put in it.
-/
import Bridgething.Iap2.Frame

namespace Bridgething

namespace Iap2

theorem byteSum_append (left right : Bytes) :
    byteSum (left ++ right) = byteSum left + byteSum right := by
  rw [byteSum, List.map_append, List.sum_append]
  rfl

/-- A checksum makes up the sum. -/
theorem verifyModularSum_checksum (buf : Bytes) :
    verifyModularSum (buf ++ [modularSumChecksum buf]) = true := by
  have hlast : byteSum [modularSumChecksum buf] =
      (256 - byteSum buf % 256) % 256 := by
    simp [byteSum, modularSumChecksum]
  rw [verifyModularSum, byteSum_append, hlast, decide_eq_true_iff]
  omega

namespace LinkHeader

theorem encode_length (header : LinkHeader) :
    header.encode.length = LINK_HEADER_LEN := rfl

theorem verifyModularSum_encode (header : LinkHeader) :
    verifyModularSum header.encode = true :=
  verifyModularSum_checksum header.fields

theorem decode_encode {header : LinkHeader} (h : header.length < 2 ^ 16) :
    decode header.encode = .ok header := by
  have hlength : (UInt8.ofNat (header.length / 256)).toNat * 256 +
      (UInt8.ofNat header.length).toNat = header.length := by
    rw [UInt8.toNat_ofNat', UInt8.toNat_ofNat']
    omega
  have hsum : verifyModularSum (header.encode.take LINK_HEADER_LEN) = true :=
    verifyModularSum_encode header
  have hbytes : header.encode =
      [0xFF, 0x5A, UInt8.ofNat (header.length / 256),
        UInt8.ofNat header.length, header.control.bits, header.seq, header.ack,
        header.sessionId, modularSumChecksum header.fields] := rfl
  rw [hbytes] at hsum ⊢
  rw [decode, if_neg (by decide), if_neg (by simp only [hsum, not_true_eq_false,
    not_false_eq_true]), hlength, ControlBits.fromBitsTruncate_bits]

end LinkHeader

/-- The packets that the link builds. -/
inductive LinkPacket.Built : LinkPacket → Prop
  | headerOnly (control : ControlBits) (seq ack : UInt8) :
      Built (.headerOnly control seq ack)
  | withPayload (control : ControlBits) (seq ack sessionId : UInt8)
      (payload : Bytes) (some : payload ≠ []) (fits : payload.length ≤ 65525) :
      Built (.withPayload control seq ack sessionId payload)

namespace LinkCodec

/-- What follows the header of an encoded packet. -/
def trailer (packet : LinkPacket) : Bytes :=
  if packet.payload ≠ [] then
    packet.payload ++ [modularSumChecksum packet.payload]
  else []

theorem encode_eq (packet : LinkPacket) :
    encode packet = packet.header.encode ++ trailer packet := rfl

theorem encode_length {packet : LinkPacket} (h : packet.Built) :
    (encode packet).length = packet.header.length ∧
      packet.header.length < 2 ^ 16 := by
  cases h with
  | headerOnly control seq ack =>
      refine ⟨rfl, ?_⟩
      show LINK_HEADER_LEN < 2 ^ 16
      decide
  | withPayload control seq ack sessionId payload hsome hfits =>
      have htrailer : trailer (.withPayload control seq ack sessionId payload) =
          payload ++ [modularSumChecksum payload] := if_pos hsome
      have hlength : (9 + payload.length + 1) % 2 ^ 16 =
          9 + payload.length + 1 := Nat.mod_eq_of_lt (by omega)
      rw [encode_eq, htrailer, List.length_append, LinkHeader.encode_length,
        List.length_append]
      show LINK_HEADER_LEN + (payload.length + 1) =
        (9 + payload.length + 1) % 2 ^ 16 ∧
          (9 + payload.length + 1) % 2 ^ 16 < 2 ^ 16
      rw [hlength]
      exact ⟨by rw [LINK_HEADER_LEN]; omega, by omega⟩

theorem header_le_encode (packet : LinkPacket) :
    LINK_HEADER_LEN ≤ (encode packet).length := by
  rw [encode_eq, List.length_append, LinkHeader.encode_length]
  exact Nat.le_add_right _ _

/-- A packet at the front of the stream is found, whatever follows it. -/
theorem look_encode {packet : LinkPacket} (h : packet.Built) (after : Bytes) :
    look (encode packet ++ after) =
      some ((encode packet).length, some packet) := by
  obtain ⟨hlength, hbound⟩ := encode_length h
  have hsize := header_le_encode packet
  have hfront : ∀ count ≤ LINK_HEADER_LEN,
      (encode packet ++ after).take count = packet.header.encode.take count := by
    intro count hcount
    rw [encode_eq, List.append_assoc, List.take_append_of_le_length]
    exact hcount
  have hmagic : (encode packet ++ after).take 2 = LINK_MAGIC :=
    hfront 2 (by decide)
  have hheader : (encode packet ++ after).take LINK_HEADER_LEN =
      packet.header.encode :=
    (hfront LINK_HEADER_LEN le_rfl).trans rfl
  have htrailer : ((encode packet ++ after).take packet.header.length).drop
      LINK_HEADER_LEN = trailer packet := by
    rw [← hlength, List.take_left, encode_eq,
      ← LinkHeader.encode_length packet.header, List.drop_left]
  rw [look, if_neg (by rw [List.length_append]; omega), hmagic,
    if_neg (not_not_intro rfl), hheader, LinkHeader.decode_encode hbound]
  dsimp only
  rw [if_neg (by omega), if_neg (by rw [List.length_append]; omega), htrailer,
    hlength]
  cases h with
  | headerOnly control seq ack => rfl
  | withPayload control seq ack sessionId payload hsome hfits =>
      have hgiven : trailer (.withPayload control seq ack sessionId payload) =
          payload ++ [modularSumChecksum payload] := if_pos hsome
      rw [hgiven, if_neg (by simp),
        if_neg (by simp [verifyModularSum_checksum]), List.dropLast_concat]
      rfl

/-- Bytes in which no packet seems to start. -/
def Junk (junk : Bytes) : Prop :=
  ¬ LINK_MAGIC <:+: junk

theorem Junk.drop {junk : Bytes} (h : Junk junk) (place : Nat) :
    (junk.drop place).take 2 ≠ LINK_MAGIC := by
  intro hmagic
  refine h ?_
  rw [← hmagic]
  exact (List.take_prefix _ _).isInfix.trans (List.drop_suffix _ _).isInfix

/-- Before a packet, junk is stepped over byte by byte. -/
theorem Junk.look_before {junk : Bytes} (h : Junk junk) (packet : LinkPacket)
    (after : Bytes) {place : Nat} (hplace : place < junk.length) :
    look ((junk ++ (encode packet ++ after)).drop place) = some (1, none) := by
  have hsize := header_le_encode packet
  have hne : ((junk ++ (encode packet ++ after)).drop place).take 2 ≠
      LINK_MAGIC := by
    rw [List.drop_append_of_le_length hplace.le]
    by_cases hlast : place + 2 ≤ junk.length
    · rw [List.take_append_of_le_length (by rw [List.length_drop]; omega)]
      exact h.drop place
    · obtain ⟨byte, hbyte⟩ : ∃ byte, junk.drop place = [byte] :=
        List.length_eq_one_iff.mp (by rw [List.length_drop]; omega)
      have hmarker : encode packet = 0xFF :: (encode packet).tail := rfl
      rw [hbyte, hmarker]
      intro hmagic
      have hsecond : (0xFF : UInt8) = 0x5A :=
        (List.cons.inj (List.cons.inj hmagic).2).1
      exact absurd hsecond (by decide)
  rw [look, if_neg, if_pos hne]
  rw [List.length_drop, List.length_append, List.length_append]
  omega

theorem Junk.look_last {junk : Bytes} (h : Junk junk) (place : Nat) :
    look (junk.drop place) = none ∨ look (junk.drop place) = some (1, none) := by
  by_cases hshort : (junk.drop place).length < LINK_HEADER_LEN
  · exact Or.inl (by rw [look, if_pos hshort])
  · exact Or.inr (by rw [look, if_neg hshort, if_pos (h.drop place)])

theorem scanner_look (src : Bytes) : scanner.look src = look src := rfl

/-- Packets with junk before each of them and after the last. -/
def render : List (Bytes × LinkPacket) → Bytes → Bytes
  | [], last => last
  | (junk, packet) :: parts, last =>
      junk ++ (encode packet ++ render parts last)

theorem drain_render {parts : List (Bytes × LinkPacket)} {last : Bytes}
    (hparts : ∀ part ∈ parts, Junk part.1 ∧ part.2.Built) (hlast : Junk last) :
    (scanner.drain (render parts last)).1 = parts.map Prod.snd := by
  induction parts with
  | nil =>
      refine scanner.drain_nil fun place => ?_
      rw [scanner_look]
      exact hlast.look_last place
  | cons part parts ih =>
      obtain ⟨hjunk, hbuilt⟩ := hparts part List.mem_cons_self
      have hrest := ih fun other hother =>
        hparts other (List.mem_cons_of_mem _ hother)
      have hskip := scanner.drain_drop
        (part.1 ++ (encode part.2 ++ render parts last)) part.1.length
        fun place hplace => by
          rw [scanner_look]
          exact hjunk.look_before part.2 _ hplace
      rw [List.drop_left] at hskip
      have hlook := look_encode hbuilt (render parts last)
      rw [← scanner_look] at hlook
      have hfound := scanner.drain_item hlook
      rw [List.drop_left] at hfound
      rw [render, hskip, hfound, List.map_cons, hrest]

/-- The packets of a stream do not depend on how it was cut, and are those that
were encoded into it. -/
theorem framing :
    (∀ chunks : List Bytes,
      (scanner.feed [] chunks).1 = (scanner.drain chunks.flatten).1) ∧
    ∀ (parts : List (Bytes × LinkPacket)) (last : Bytes),
      (∀ part ∈ parts, Junk part.1 ∧ part.2.Built) → Junk last →
        (scanner.drain (render parts last)).1 = parts.map Prod.snd := by
  refine ⟨fun chunks => ?_, fun parts last => drain_render⟩
  have hempty : scanner.look [] = none := by
    rw [scanner_look, look, if_pos (by decide)]
  rw [scanner.feed_eq_drain (scanner.drain_stop hempty), List.nil_append]

theorem framing_ack :
    (scanner.drain (render
        [([0xFF, 0x55], .headerOnly .ACK 5 6),
          ([], .withPayload .ACK 6 6 1 [0xFF, 0x5A])] [0x5A])).1 =
      [.headerOnly .ACK 5 6, .withPayload .ACK 6 6 1 [0xFF, 0x5A]] := by
  refine framing.2 _ [0x5A] ?_ (by simp [Junk, LINK_MAGIC]; decide)
  intro part hpart
  rcases List.mem_cons.mp hpart with rfl | hpart
  · exact ⟨by simp [Junk, LINK_MAGIC]; decide, .headerOnly _ _ _⟩
  · rw [List.mem_singleton.mp hpart]
    exact ⟨by simp [Junk, LINK_MAGIC],
      .withPayload _ _ _ _ _ (by simp) (by simp)⟩

end LinkCodec

end Iap2

end Bridgething
