/-
However a body is cut into pushes and wherever it ends, its audio comes out
whole and its complete metadata blocks are read once each, in order.
-/
import Bridgething.Playback.Icy

namespace Bridgething

namespace Playback

/-- What was heard of some bytes, whatever slices the audio came in. -/
structure Heard where
  demux : IcyDemux
  audio : Bytes
  metadata : List IcyMetadata

def Pushed.heard (pushed : Pushed) : Heard :=
  ⟨pushed.demux, pushed.audio.flatten, pushed.metadata⟩

def Turn.heard (turn : Turn) : Heard :=
  ⟨turn.demux, turn.audio.toList.flatten, turn.metadata.toList⟩

def Heard.before (first : Heard) (later : Heard) : Heard :=
  ⟨later.demux, first.audio ++ later.audio, first.metadata ++ later.metadata⟩

theorem Heard.before_assoc (first second third : Heard) :
    (first.before second).before third =
      first.before (second.before third) := by
  simp [Heard.before]

namespace IcyDemux

/-- The bytes one at a time. -/
def bytewise (demux : IcyDemux) : Bytes → Heard
  | [] => ⟨demux, [], []⟩
  | byte :: rest =>
      let turn := demux.turn byte []
      turn.heard.before (turn.demux.bytewise rest)

theorem bytewise_append (demux : IcyDemux) (front back : Bytes) :
    demux.bytewise (front ++ back) = (demux.bytewise front).before
      ((demux.bytewise front).demux.bytewise back) := by
  induction front generalizing demux with
  | nil => rfl
  | cons byte rest ih =>
      simp only [List.cons_append, bytewise]
      rw [ih, ← Heard.before_assoc]
      rfl

section Stretches

variable {demux : IcyDemux}

/-- Bytes up to the next metadata are audio. -/
theorem bytewise_audio {bytes : Bytes}
    (h : bytes.length ≤ demux.untilMetadata) :
    demux.bytewise bytes =
      ⟨{ demux with untilMetadata := demux.untilMetadata - bytes.length },
        bytes, []⟩ := by
  induction bytes generalizing demux with
  | nil => rfl
  | cons byte rest ih =>
      rw [List.length_cons] at h
      have hpos : demux.untilMetadata > 0 :=
        Nat.lt_of_lt_of_le (Nat.succ_pos _) h
      have hmin : min 1 demux.untilMetadata = 1 := Nat.min_eq_left hpos
      have hturn : demux.turn byte [] =
          ⟨{ demux with untilMetadata := demux.untilMetadata - 1 }, [],
            some [byte], none⟩ := by
        simp only [turn, hpos, ↓reduceIte, List.length_singleton, hmin]
        rfl
      rw [bytewise, hturn, ih (by dsimp only; omega)]
      simp only [Turn.heard, Heard.before, List.length_cons]
      simp [Nat.sub_sub, Nat.add_comm]

end Stretches

section Blocks

variable (metaint : Nat) (hpos : 0 < metaint)

/-- Audio comes next. -/
def fresh : IcyDemux := ⟨metaint, metaint, [], none, hpos, Nat.one_pos⟩

/-- The length of the metadata comes next. -/
def dueLength : IcyDemux := ⟨metaint, 0, [], none, hpos, Nat.one_pos⟩

/-- Some of a metadata block has come. -/
def collecting (len : Nat) (block : Bytes) (h : block.length < len) :
    IcyDemux :=
  ⟨metaint, 0, block, some len, hpos, h⟩

variable {metaint hpos}

theorem turn_zero (byte : UInt8) (rest : Bytes)
    (hzero : byte.toNat * METADATA_UNIT = 0) :
    (dueLength metaint hpos).turn byte rest =
      ⟨fresh metaint hpos, rest, none, none⟩ := by
  simp only [turn, dueLength, gt_iff_lt, Nat.lt_irrefl, ↓reduceIte, hzero,
    ↓reduceDIte]
  rfl

theorem turn_length (byte : UInt8) (rest : Bytes)
    (hlen : 0 < byte.toNat * METADATA_UNIT) :
    (dueLength metaint hpos).turn byte rest =
      ⟨collecting metaint hpos (byte.toNat * METADATA_UNIT) [] hlen, rest, none,
        none⟩ := by
  simp only [turn, dueLength, gt_iff_lt, Nat.lt_irrefl, ↓reduceIte,
    Nat.ne_of_gt hlen, ↓reduceDIte]
  rfl

theorem turn_full {len : Nat} {block : Bytes} (h : block.length < len)
    {byte : UInt8} {rest : Bytes}
    (hfull : len - block.length ≤ (byte :: rest).length) :
    (collecting metaint hpos len block h).turn byte rest =
      ⟨fresh metaint hpos, (byte :: rest).drop (len - block.length), none,
        parseBlock (block ++ (byte :: rest).take (len - block.length))⟩ := by
  have hlength : (block ++ (byte :: rest).take (len - block.length)).length =
      len := by
    rw [List.length_append, List.length_take, Nat.min_eq_left hfull]
    omega
  simp only [turn, collecting, gt_iff_lt, Nat.lt_irrefl, ↓reduceIte,
    Nat.min_eq_left hfull, hlength, ↓reduceDIte]
  rfl

theorem turn_short {len : Nat} {block : Bytes} (h : block.length < len)
    {byte : UInt8} {rest : Bytes}
    (hshort : (block ++ byte :: rest).length < len) :
    (collecting metaint hpos len block h).turn byte rest =
      ⟨collecting metaint hpos len (block ++ byte :: rest) hshort, [], none,
        none⟩ := by
  have hle : (byte :: rest).length ≤ len - block.length := by
    rw [List.length_append] at hshort
    omega
  have htake : (byte :: rest).take (byte :: rest).length = byte :: rest :=
    List.take_length
  simp only [turn, collecting, gt_iff_lt, Nat.lt_irrefl, ↓reduceIte,
    Nat.min_eq_right hle, htake, Nat.ne_of_lt hshort, ↓reduceDIte,
    List.drop_length]

/-- Bytes that do not complete a block are kept. -/
theorem bytewise_short {len : Nat} {block bytes : Bytes}
    (h : block.length < len) (hshort : (block ++ bytes).length < len) :
    (collecting metaint hpos len block h).bytewise bytes =
      ⟨collecting metaint hpos len (block ++ bytes) hshort, [], []⟩ := by
  induction bytes generalizing block with
  | nil => simp [bytewise]
  | cons byte rest ih =>
      have hassoc : block ++ [byte] ++ rest = block ++ byte :: rest := by simp
      have hfirst : (block ++ [byte]).length < len := by
        rw [← hassoc, List.length_append] at hshort
        omega
      have hrest : (block ++ [byte] ++ rest).length < len := hassoc ▸ hshort
      rw [bytewise, turn_short h hfirst, ih hfirst hrest]
      simp [Turn.heard, Heard.before]

/-- Bytes that complete a block have it read. -/
theorem bytewise_full {len : Nat} {block bytes : Bytes}
    (h : block.length < len) (hfull : (block ++ bytes).length = len) :
    (collecting metaint hpos len block h).bytewise bytes =
      ⟨fresh metaint hpos, [], (parseBlock (block ++ bytes)).toList⟩ := by
  induction bytes generalizing block with
  | nil =>
      rw [List.append_nil] at hfull
      omega
  | cons byte rest ih =>
      have hassoc : block ++ [byte] ++ rest = block ++ byte :: rest := by simp
      cases rest with
      | nil =>
          have hone : len - block.length = 1 := by
            rw [List.length_append, List.length_singleton] at hfull
            omega
          rw [bytewise, turn_full h (by simp [hone]), hone]
          simp [Turn.heard, Heard.before, bytewise]
      | cons next rest =>
          have hfirst : (block ++ [byte]).length < len := by
            rw [← hassoc, List.length_append, List.length_cons] at hfull
            omega
          rw [bytewise, turn_short h hfirst, ih hfirst (hassoc ▸ hfull)]
          simp [Turn.heard, Heard.before]

end Blocks

/-- A turn over more than one byte is as many turns over one. -/
theorem bytewise_turn (demux : IcyDemux) (first : UInt8) (rest : Bytes) :
    demux.bytewise (first :: rest) = (demux.turn first rest).heard.before
      ((demux.turn first rest).demux.bytewise
        (demux.turn first rest).chunk) := by
  by_cases huntil : demux.untilMetadata > 0
  · let take := min (first :: rest).length demux.untilMetadata
    have hlength : ((first :: rest).take take).length = take :=
      List.length_take_of_le (Nat.min_le_left _ _)
    have hturn : demux.turn first rest =
        ⟨{ demux with untilMetadata := demux.untilMetadata - take },
          (first :: rest).drop take, some ((first :: rest).take take),
          none⟩ := by
      simp only [turn, huntil, ↓reduceIte]
      rfl
    have haudio : ((first :: rest).take take).length ≤ demux.untilMetadata := by
      rw [hlength]
      exact Nat.min_le_right _ _
    have hsplit := demux.bytewise_append ((first :: rest).take take)
      ((first :: rest).drop take)
    rw [List.take_append_drop, bytewise_audio haudio, hlength] at hsplit
    rw [hturn, hsplit]
    simp [Turn.heard]
  · have hzero : demux.untilMetadata = 0 := Nat.eq_zero_of_not_pos huntil
    obtain ⟨metaint, untilMetadata, block, blockLen, hpos, hshort⟩ := demux
    dsimp only at hzero
    subst hzero
    cases blockLen with
    | none =>
        have hnil : block = [] := by
          rw [Option.getD_none] at hshort
          exact List.length_eq_zero_iff.mp (Nat.lt_one_iff.mp hshort)
        subst hnil
        have hdue : (⟨metaint, 0, [], none, hpos, hshort⟩ : IcyDemux) =
          dueLength metaint hpos := rfl
        rw [hdue, bytewise]
        rcases Nat.eq_zero_or_pos (first.toNat * METADATA_UNIT) with hlen | hlen
        · rw [turn_zero first [] hlen, turn_zero first rest hlen]
          rfl
        · rw [turn_length first [] hlen, turn_length first rest hlen]
          rfl
    | some len =>
        have hlt : block.length < len := hshort
        have hcollecting : (⟨metaint, 0, block, some len, hpos, hshort⟩ :
            IcyDemux) = collecting metaint hpos len block hlt := rfl
        rw [hcollecting]
        rcases Nat.lt_or_ge (first :: rest).length (len - block.length)
          with hfew | henough
        · have hfits : (block ++ first :: rest).length < len := by
            rw [List.length_append]
            omega
          rw [turn_short hlt hfits, bytewise_short hlt hfits]
          rfl
        · have hfull : (block ++ (first :: rest).take
              (len - block.length)).length = len := by
            rw [List.length_append, List.length_take, Nat.min_eq_left henough]
            omega
          have hsplit := (collecting metaint hpos len block hlt).bytewise_append
            ((first :: rest).take (len - block.length))
            ((first :: rest).drop (len - block.length))
          rw [List.take_append_drop, bytewise_full hlt hfull] at hsplit
          rw [turn_full hlt henough, hsplit]
          rfl

theorem push_heard (demux : IcyDemux) (chunk : Bytes) :
    (demux.push chunk).heard = demux.bytewise chunk := by
  induction hlength : chunk.length using Nat.strongRecOn
    generalizing demux chunk with
  | ind length ih =>
      cases chunk with
      | nil => simp [push, bytewise, Pushed.heard]
      | cons first rest =>
          have hlt := demux.turn_lt first rest
          rw [bytewise_turn, ← ih _ (hlength ▸ hlt) _ _ rfl, push]
          simp [Pushed.heard, Turn.heard, Heard.before]

/-- Where the pushes are cut makes no difference. -/
theorem pushAll_heard (demux : IcyDemux) (chunks : List Bytes) :
    (demux.pushAll chunks).heard = demux.bytewise chunks.flatten := by
  induction chunks generalizing demux with
  | nil => rfl
  | cons chunk rest ih =>
      have hfirst : (demux.push chunk).demux =
          (demux.bytewise chunk).demux := by
        rw [← push_heard]
        rfl
      rw [List.flatten_cons, bytewise_append, ← hfirst, ← ih, ← push_heard]
      simp [pushAll, Pushed.heard, Heard.before]

end IcyDemux

/-- A run of audio with the metadata after it. -/
structure Frame (metaint : Nat) where
  audio : Bytes
  units : UInt8
  block : Bytes
  audio_length : audio.length = metaint
  block_length : block.length = units.toNat * METADATA_UNIT

/-- Runs of audio with metadata between them. -/
structure Stream (metaint : Nat) where
  frames : List (Frame metaint)
  last : Bytes
  last_length : last.length ≤ metaint

/-- The bytes, each with whether it is audio. -/
def Frame.marked {metaint : Nat} (frame : Frame metaint) :
    List (Bool × UInt8) :=
  frame.audio.map (Prod.mk true) ++
    (frame.units :: frame.block).map (Prod.mk false)

def Stream.marked {metaint : Nat} (stream : Stream metaint) :
    List (Bool × UInt8) :=
  stream.frames.flatMap Frame.marked ++ stream.last.map (Prod.mk true)

def Stream.encoded {metaint : Nat} (stream : Stream metaint) : Bytes :=
  stream.marked.map Prod.snd

/-- The frames that are whole within so many bytes. -/
def complete {metaint : Nat} : List (Frame metaint) → Nat → List (Frame metaint)
  | [], _ => []
  | frame :: rest, count =>
      if frame.marked.length ≤ count then
        frame :: complete rest (count - frame.marked.length)
      else []

/-- The audio among marked bytes. -/
def audioOf (marked : List (Bool × UInt8)) : Bytes :=
  (marked.filter Prod.fst).map Prod.snd

/-- What the metadata of frames says, where there is any. -/
def reports {metaint : Nat} (frames : List (Frame metaint)) :
    List IcyMetadata :=
  (frames.filter (·.block ≠ [])).filterMap (parseBlock ·.block)

section Streams

variable {metaint : Nat} {hpos : 0 < metaint}

open IcyDemux (fresh dueLength collecting)

theorem reports_cons (frame : Frame metaint) (rest : List (Frame metaint)) :
    reports (frame :: rest) = reports [frame] ++ reports rest := by
  rw [reports, ← List.singleton_append, List.filter_append,
    List.filterMap_append]
  rfl

theorem audioOf_append (front back : List (Bool × UInt8)) :
    audioOf (front ++ back) = audioOf front ++ audioOf back := by
  simp [audioOf]

@[simp] theorem audioOf_audio (bytes : Bytes) :
    audioOf (bytes.map (Prod.mk true)) = bytes := by
  simp [audioOf, List.filter_map, Function.comp_def]

@[simp] theorem audioOf_metadata (bytes : Bytes) :
    audioOf (bytes.map (Prod.mk false)) = [] := by
  simp [audioOf, List.filter_map, Function.comp_def]

theorem map_snd_mk (mark : Bool) (bytes : Bytes) :
    (bytes.map (Prod.mk mark)).map Prod.snd = bytes := by
  simp [Function.comp_def]

theorem Frame.marked_length (frame : Frame metaint) :
    frame.marked.length = metaint + 1 + frame.block.length := by
  simp only [marked, List.length_append, List.length_map, List.length_cons,
    frame.audio_length]
  omega

/-- Audio of at most one run leaves the rest of it to come. -/
theorem bytewise_run {bytes : Bytes} (h : bytes.length ≤ metaint) :
    (fresh metaint hpos).bytewise bytes =
      ⟨{ fresh metaint hpos with untilMetadata := metaint - bytes.length },
        bytes, []⟩ :=
  IcyDemux.bytewise_audio h

theorem bytewise_wholeRun {bytes : Bytes} (h : bytes.length = metaint) :
    (fresh metaint hpos).bytewise bytes =
      ⟨dueLength metaint hpos, bytes, []⟩ := by
  rw [bytewise_run (Nat.le_of_eq h), h, Nat.sub_self]
  rfl

/-- A frame is heard, and the demultiplexer is as it was before it. -/
theorem bytewise_frame (frame : Frame metaint) :
    (fresh metaint hpos).bytewise (frame.marked.map Prod.snd) =
      ⟨fresh metaint hpos, frame.audio, reports [frame]⟩ := by
  have hlength := frame.block_length
  rw [Frame.marked, List.map_append, map_snd_mk, map_snd_mk,
    IcyDemux.bytewise_append, bytewise_wholeRun frame.audio_length,
    IcyDemux.bytewise]
  rcases Nat.eq_zero_or_pos (frame.units.toNat * METADATA_UNIT) with hlen | hlen
  · have hnil : frame.block = [] := by
      rw [hlen] at hlength
      exact List.length_eq_zero_iff.mp hlength
    rw [IcyDemux.turn_zero _ _ hlen, hnil]
    simp [Turn.heard, Heard.before, IcyDemux.bytewise, reports, hnil]
  · have hne : frame.block ≠ [] := by
      intro hnil
      rw [hnil, List.length_nil] at hlength
      omega
    rw [IcyDemux.turn_length _ _ hlen]
    have hempty : ([] : Bytes).length < frame.units.toNat * METADATA_UNIT :=
      hlen
    have hfull : ([] ++ frame.block).length =
        frame.units.toNat * METADATA_UNIT := hlength
    dsimp only
    rw [IcyDemux.bytewise_full hempty hfull]
    simp [Turn.heard, Heard.before, reports, hne, List.filterMap_cons]
    cases parseBlock frame.block <;> rfl

/-- A frame that is cut off is heard as far as its audio goes. -/
theorem bytewise_cut (frame : Frame metaint) {count : Nat}
    (hcut : count < frame.marked.length) :
    ∃ demux, (fresh metaint hpos).bytewise
        ((frame.marked.take count).map Prod.snd) =
      ⟨demux, audioOf (frame.marked.take count), []⟩ := by
  have hsize := frame.marked_length
  have haudio := frame.audio_length
  rcases Nat.lt_or_ge metaint count with hmore | hwithin
  · obtain ⟨more, rfl⟩ := Nat.exists_eq_add_of_lt hmore
    have htake : frame.marked.take (metaint + more + 1) =
        frame.audio.map (Prod.mk true) ++
          (frame.units :: frame.block.take more).map (Prod.mk false) := by
      have hover : (frame.audio.map (Prod.mk true)).take (metaint + more + 1) =
          frame.audio.map (Prod.mk true) := by
        apply List.take_of_length_le
        rw [List.length_map, haudio]
        omega
      have hrest : metaint + more + 1 -
          (frame.audio.map (Prod.mk true)).length = more + 1 := by
        rw [List.length_map, haudio]
        omega
      rw [Frame.marked, List.take_append, hover, hrest, List.map_cons,
        List.take_succ_cons, List.map_cons, List.map_take]
    have hshort : (frame.block.take more).length <
        frame.units.toNat * METADATA_UNIT := by
      rw [← frame.block_length, List.length_take]
      omega
    have hempty : ([] : Bytes).length < frame.units.toNat * METADATA_UNIT :=
      Nat.lt_of_le_of_lt (Nat.zero_le _) hshort
    rw [htake, audioOf_append, audioOf_audio, audioOf_metadata,
      List.map_append, map_snd_mk, map_snd_mk, IcyDemux.bytewise_append,
      bytewise_wholeRun haudio, IcyDemux.bytewise,
      IcyDemux.turn_length _ _ hempty]
    dsimp only
    rw [IcyDemux.bytewise_short hempty hshort]
    exact ⟨_, rfl⟩
  · have htake : frame.marked.take count =
        (frame.audio.take count).map (Prod.mk true) := by
      rw [Frame.marked, List.take_append_of_le_length
        (by rwa [List.length_map, haudio]), List.map_take]
    have hle : (frame.audio.take count).length ≤ metaint := by
      rw [List.length_take, haudio]
      exact Nat.min_le_right _ _
    rw [htake, audioOf_audio, map_snd_mk, bytewise_run hle]
    exact ⟨_, rfl⟩

/-- What is heard of a stream that is cut off anywhere. -/
theorem bytewise_stream (frames : List (Frame metaint)) {last : Bytes}
    (hlast : last.length ≤ metaint) (count : Nat) :
    ∃ demux, (fresh metaint hpos).bytewise
        (((frames.flatMap Frame.marked ++ last.map (Prod.mk true)).take
          count).map Prod.snd) =
      ⟨demux, audioOf ((frames.flatMap Frame.marked ++
          last.map (Prod.mk true)).take count),
        reports (complete frames count)⟩ := by
  induction frames generalizing count with
  | nil =>
      have hle : (last.take count).length ≤ metaint := by
        rw [List.length_take]
        omega
      rw [List.flatMap_nil, List.nil_append, ← List.map_take, audioOf_audio,
        map_snd_mk, bytewise_run hle]
      exact ⟨_, rfl⟩
  | cons frame rest ih =>
      rw [List.flatMap_cons, List.append_assoc, complete]
      rcases Nat.lt_or_ge count frame.marked.length with hcut | hwhole
      · rw [if_neg (Nat.not_le.mpr hcut),
          List.take_append_of_le_length (Nat.le_of_lt hcut)]
        exact bytewise_cut frame hcut
      · obtain ⟨demux, hrest⟩ := ih (count - frame.marked.length)
        rw [if_pos hwhole, List.take_append, List.take_of_length_le hwhole,
          List.map_append, IcyDemux.bytewise_append, bytewise_frame]
        dsimp only
        rw [hrest, audioOf_append]
        refine ⟨demux, ?_⟩
        have hframe : audioOf frame.marked = frame.audio := by
          rw [Frame.marked, audioOf_append, audioOf_audio, audioOf_metadata,
            List.append_nil]
        rw [hframe, reports_cons frame (complete rest _)]
        rfl

/-- However a stream is cut into pushes, and wherever it ends, the audio that is
handed on is the audio that came, and each metadata block that came whole is
read once, in order. -/
theorem pushAll_stream (h : 1 ≤ metaint) (stream : Stream metaint) (count : Nat)
    (chunks : List Bytes) (hcut : chunks.flatten = stream.encoded.take count) :
    ((IcyDemux.new metaint).pushAll chunks).audio.flatten =
        audioOf (stream.marked.take count) ∧
      ((IcyDemux.new metaint).pushAll chunks).metadata =
        reports (complete stream.frames count) := by
  have hnew : IcyDemux.new metaint = fresh metaint h := by
    simp [IcyDemux.new, fresh, Nat.max_eq_left h]
  have hheard := IcyDemux.pushAll_heard (IcyDemux.new metaint) chunks
  obtain ⟨demux, hstream⟩ := @bytewise_stream metaint h stream.frames
    stream.last stream.last_length count
  rw [hcut, Stream.encoded, ← List.map_take, hnew, Stream.marked, hstream]
    at hheard
  rw [hnew, Stream.marked]
  exact ⟨congrArg Heard.audio hheard, congrArg Heard.metadata hheard⟩

/-- Two bytes of audio, a block that titles the stream, and one byte more. -/
def titled : Stream 2 where
  frames := [⟨[1, 2], 1, [83, 116, 114, 101, 97, 109, 84, 105, 116, 108, 101,
    61, 39, 97, 39, 59], rfl, rfl⟩]
  last := [3]
  last_length := by decide

theorem pushAll_stream_titled :
    ((IcyDemux.new 2).pushAll [titled.encoded.take 5,
        titled.encoded.drop 5]).audio.flatten =
        audioOf (titled.marked.take 20) ∧
      ((IcyDemux.new 2).pushAll [titled.encoded.take 5,
        titled.encoded.drop 5]).metadata =
        reports (complete titled.frames 20) :=
  pushAll_stream (by decide) titled 20 _ rfl

end Streams

end Playback

end Bridgething
