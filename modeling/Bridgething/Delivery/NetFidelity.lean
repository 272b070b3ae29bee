/-
What the device makes of a streamed body: chunks that are the body's own, one
after the other, and an ending that tells whether it was all.
-/
import Bridgething.Delivery.NetStream

namespace Bridgething

namespace NetStream

def Message.chunk? : Message → Option StreamChunk
  | .streamChunk chunk => some chunk
  | _ => none

/-- Chunks that follow one another from an offset on. -/
def Contiguous : Nat → List StreamChunk → Prop
  | _, [] => True
  | start, chunk :: rest =>
      chunk.offset = start ∧ Contiguous (start + chunk.bytes.length) rest

theorem Contiguous.append {start : Nat} {chunks : List StreamChunk}
    {last : StreamChunk} (h : Contiguous start chunks)
    (hlast : last.offset = start + (chunks.flatMap StreamChunk.bytes).length) :
    Contiguous start (chunks ++ [last]) := by
  induction chunks generalizing start with
  | nil => exact ⟨by simpa using hlast, trivial⟩
  | cons chunk rest ih =>
      refine ⟨h.1, ih h.2 ?_⟩
      rw [hlast, List.flatMap_cons, List.length_append, Nat.add_assoc]

/-- Contiguous chunks that make up a prefix of a body are that body's bytes. -/
theorem Contiguous.exact {before body : Bytes} {chunks : List StreamChunk}
    (h : Contiguous before.length chunks)
    (hbody : before ++ chunks.flatMap StreamChunk.bytes <+: body)
    {chunk : StreamChunk} (hin : chunk ∈ chunks) :
    chunk.bytes = (body.drop chunk.offset).take chunk.bytes.length := by
  induction chunks generalizing before with
  | nil => exact absurd hin List.not_mem_nil
  | cons first rest ih =>
      rw [List.flatMap_cons, ← List.append_assoc] at hbody
      rcases List.mem_cons.mp hin with rfl | hrest
      · obtain ⟨after, rfl⟩ := hbody
        rw [h.1, List.append_assoc, List.append_assoc, List.drop_left,
          List.take_left]
      · refine ih ?_ hbody hrest
        rw [List.length_append]
        exact h.2

namespace Stream

/-- The chunks that the device has received. -/
def received (stream : Stream) : List StreamChunk :=
  stream.sent.filterMap Message.chunk?

def delivered (stream : Stream) : Bytes :=
  stream.received.flatMap StreamChunk.bytes

/-- What the writer holds back. -/
def held (stream : Stream) : Bytes :=
  stream.writer.elim [] StreamWriter.buffer

/-- The device's view of a stream is right. -/
structure Faithful (config : NetConfig) (stream : Stream) : Prop where
  exact : ∀ chunk ∈ stream.received,
    chunk.bytes = (stream.body.drop chunk.offset).take chunk.bytes.length
  sized : ∀ chunk ∈ stream.received,
    chunk.bytes.length ≤ config.streamChunkBytes
  contiguous : Contiguous 0 stream.received
  ended : Message.streamEnd ∈ stream.sent →
    stream.outcome = some (.ok ()) ∧ stream.delivered = stream.body
  reported : stream.ending = some .reported → ∃ before last,
    stream.sent = before ++ [last] ∧
      (last = .streamEnd ∨ ∃ error, last = .streamError error)

/-- The condition on a step: a writer whose push was refused leaves no tail that
fits, and no chunk starts past what its offset can tell. -/
def Steady (config : NetConfig) (stream : Stream) : Event → Prop
  | .dropRefused => ∀ writer, stream.writer = some writer →
      writer.phase = .refused →
        writer.buffer = [] ∨ stream.fits config writer.buffer = false
  | .emit => stream.ending = none → stream.begun = true →
      stream.chunks ≠ [] → stream.delivered.length ≤ U32_MAX
  | _ => True

/-- Where the bytes of the body are, and that they are in order. -/
structure Kept (config : NetConfig) (stream : Stream) : Prop where
  whole : stream.dropped = none →
    stream.delivered ++ stream.chunks.flatten ++ stream.held = stream.body
  ordered : stream.delivered ++ stream.chunks.flatten <+: stream.body
  cut : ∀ chunk ∈ stream.chunks, chunk.length ≤ config.streamChunkBytes
  sized : ∀ chunk ∈ stream.received,
    chunk.bytes.length ≤ config.streamChunkBytes
  contiguous : Contiguous 0 stream.received
  offset : stream.delivered.length ≤ U32_MAX →
    stream.offset = stream.delivered.length

/-- What the writer, the sink and the emitting task know of one another. -/
structure Agreed (config : NetConfig) (stream : Stream) : Prop where
  alive : ∀ writer, stream.writer = some writer → writer.phase ≠ .refused →
    stream.dropped = none
  refused : ∀ writer, stream.writer = some writer → writer.phase = .refused →
    stream.dropped ≠ none
  gone : stream.writer = none → stream.outcome = none → stream.dropped ≠ none
  short : ∀ writer, stream.writer = some writer → writer.phase = .idle →
    writer.buffer.length ≤ config.streamChunkBytes
  settled : stream.outcome.isSome → stream.writer = none
  answered : stream.outcome = some (.ok ()) → stream.head.isSome
  ended : Message.streamEnd ∈ stream.sent →
    stream.outcome = some (.ok ()) ∧ stream.delivered = stream.body ∧
      stream.ending = some .reported
  reported : stream.ending = some .reported → ∃ before last,
    stream.sent = before ++ [last] ∧
      (last = .streamEnd ∨ ∃ error, last = .streamError error)

structure Inv (config : NetConfig) (stream : Stream) : Prop where
  kept : stream.Kept config
  agreed : stream.Agreed config

variable {config : NetConfig}

theorem Inv.faithful {stream : Stream} (h : stream.Inv config) :
    stream.Faithful config := by
  constructor
  · intro chunk hin
    have hordered : stream.delivered <+: stream.body :=
      (List.prefix_append _ _).trans h.kept.ordered
    exact Contiguous.exact (show Contiguous ([] : Bytes).length _ from
      h.kept.contiguous) hordered hin
  · exact h.kept.sized
  · exact h.kept.contiguous
  · exact fun hin => ⟨(h.agreed.ended hin).1, (h.agreed.ended hin).2.1⟩
  · exact h.agreed.reported

theorem inv_open : Stream.open.Inv config := by
  constructor
  · exact ⟨fun _ => rfl, List.nil_prefix, by simp [Stream.open],
      by simp [Stream.open, received], trivial, fun _ => rfl⟩
  · constructor
    all_goals simp [Stream.open]

/-! ### The writer -/

theorem push_of_fits {stream : Stream} {chunk : Bytes}
    (h : stream.fits config chunk = true) :
    stream.push config chunk =
      { stream with
        queued := stream.queued + chunk.length
        chunks := stream.chunks ++ [chunk] } := by
  rw [push, if_pos h]

theorem push_of_not_fits {stream : Stream} {chunk : Bytes}
    (h : stream.fits config chunk = false) :
    stream.push config chunk =
      { stream with dropped := some BEHIND_REASON } := by
  rw [push, if_neg (by simp [h])]

theorem dropWriter_none {stream : Stream} (h : stream.writer = none) :
    stream.dropWriter config = stream := by
  rw [dropWriter, h]

/-- Dropping the writer changes what it holds, and what that is pushed to. -/
theorem dropWriter_cases (config : NetConfig) (stream : Stream) :
    ∃ queued chunks dropped, stream.dropWriter config =
        { stream with
          writer := none
          queued := queued
          chunks := chunks
          dropped := dropped } ∧
      ((chunks = stream.chunks ∧ dropped = stream.dropped ∧ stream.held = []) ∨
        (chunks = stream.chunks ++ [stream.held] ∧ dropped = stream.dropped ∧
          stream.fits config stream.held = true ∧ stream.held ≠ []) ∨
        chunks = stream.chunks ∧ dropped = some BEHIND_REASON) := by
  cases hwriter : stream.writer with
  | none =>
      refine ⟨stream.queued, stream.chunks, stream.dropped, ?_, Or.inl ?_⟩
      · rw [dropWriter_none hwriter, ← hwriter]
      · exact ⟨rfl, rfl, by rw [held, hwriter]; rfl⟩
  | some writer =>
      have hheld : stream.held = writer.buffer := by rw [held, hwriter]; rfl
      rw [dropWriter, hwriter, hheld]
      dsimp only
      by_cases hempty : writer.buffer = []
      · rw [if_neg (not_not_intro hempty)]
        exact ⟨_, _, _, rfl, Or.inl ⟨rfl, rfl, hempty⟩⟩
      · rw [if_pos hempty]
        cases hfits : stream.fits config writer.buffer with
        | true =>
            rw [push, if_pos (show fits config { stream with writer := none }
              writer.buffer = true from hfits)]
            exact ⟨_, _, _, rfl, Or.inr (Or.inl ⟨rfl, rfl, rfl, hempty⟩)⟩
        | false =>
            rw [push, if_neg (show ¬ fits config { stream with writer := none }
              writer.buffer = true by simpa [fits] using hfits)]
            exact ⟨_, _, _, rfl, Or.inr (Or.inr ⟨rfl, rfl⟩)⟩

/-- The tail that a writer may be dropped with: one that follows on, or one that
does not fit either. -/
def Tail (config : NetConfig) (stream : Stream) : Prop :=
  stream.dropped = none ∧ stream.held.length ≤ config.streamChunkBytes ∨
    stream.held = [] ∨ stream.fits config stream.held = false

theorem Kept.dropWriter {stream : Stream} (h : stream.Kept config)
    (htail : stream.Tail config) : (stream.dropWriter config).Kept config := by
  obtain ⟨queued, chunks, dropped, hnext, hcases⟩ :=
    dropWriter_cases config stream
  rw [hnext]
  rcases hcases with ⟨rfl, rfl, hheld⟩ | ⟨rfl, rfl, hfits, hheld⟩ | ⟨rfl, rfl⟩
  · refine ⟨fun hnone => ?_, h.ordered, h.cut, h.sized, h.contiguous, h.offset⟩
    have hwhole := h.whole hnone
    rw [hheld] at hwhole
    exact hwhole
  · obtain ⟨hnone, hshort⟩ : stream.dropped = none ∧
        stream.held.length ≤ config.streamChunkBytes := by
      rcases htail with hfollows | hempty | hrefused
      · exact hfollows
      · exact absurd hempty hheld
      · rw [hfits] at hrefused
        contradiction
    have hbody : stream.delivered ++ (stream.chunks ++ [stream.held]).flatten =
        stream.body := by
      rw [← h.whole hnone, List.flatten_append, List.append_assoc]
      simp
    constructor
    · intro _
      show stream.delivered ++ (stream.chunks ++ [stream.held]).flatten ++ [] = _
      rw [List.append_nil]
      exact hbody
    · show stream.delivered ++ (stream.chunks ++ [stream.held]).flatten <+: _
      rw [hbody]
    · intro chunk hin
      rcases List.mem_append.mp hin with hold | hlast
      · exact h.cut chunk hold
      · rw [List.mem_singleton.mp hlast]
        exact hshort
    · exact h.sized
    · exact h.contiguous
    · exact h.offset
  · exact ⟨fun hnone => absurd hnone (by simp), h.ordered, h.cut, h.sized,
      h.contiguous, h.offset⟩

theorem dropWriter_dropped {stream : Stream} (h : stream.dropped ≠ none) :
    (stream.dropWriter config).dropped ≠ none := by
  obtain ⟨queued, chunks, dropped, hnext, hcases⟩ :=
    dropWriter_cases config stream
  rw [hnext]
  rcases hcases with ⟨-, rfl, -⟩ | ⟨-, rfl, -⟩ | ⟨-, rfl⟩
  · exact h
  · exact h
  · exact Option.some_ne_none _

theorem settleable_iff {stream : Stream} : stream.Settleable = true ↔
    stream.outcome = none ∧
      ∀ writer, stream.writer = some writer → writer.phase = .idle := by
  simp [Settleable, Option.all_eq_true]

/-- The sink is settled: the writer goes with its tail. -/
theorem Inv.settle {stream : Stream} (h : stream.Inv config)
    (hsettleable : stream.Settleable = true) (failure : Option HttpError)
    (outcome : Except HttpError Unit)
    (hanswered : outcome = .ok () → stream.head.isSome) :
    Inv config
      { stream.dropWriter config with
        failure := failure
        outcome := some outcome } := by
  obtain ⟨hopen, hidle⟩ := settleable_iff.mp hsettleable
  have htail : stream.Tail config := by
    cases hwriter : stream.writer with
    | none => exact Or.inr (Or.inl (by rw [held, hwriter]; rfl))
    | some writer =>
        have hphase := hidle writer hwriter
        refine Or.inl ⟨h.agreed.alive writer hwriter (by simp [hphase]), ?_⟩
        rw [held, hwriter]
        exact h.agreed.short writer hwriter hphase
  have hkept := h.kept.dropWriter htail
  have hended : Message.streamEnd ∉ stream.sent := fun hin =>
    absurd (h.agreed.ended hin).1 (by simp [hopen])
  obtain ⟨queued, chunks, dropped, hnext, -⟩ :=
    dropWriter_cases config stream
  rw [hnext] at hkept ⊢
  constructor
  · exact ⟨hkept.whole, hkept.ordered, hkept.cut, hkept.sized,
      hkept.contiguous, hkept.offset⟩
  · constructor
    · exact fun _ hwriter => absurd hwriter (by simp)
    · exact fun _ hwriter => absurd hwriter (by simp)
    · exact fun _ hnone => absurd hnone (by simp)
    · exact fun _ hwriter => absurd hwriter (by simp)
    · exact fun _ => rfl
    · exact fun hok => hanswered (Option.some.inj hok)
    · exact fun hin => absurd hin hended
    · exact h.agreed.reported

theorem Inv.onResponse {stream : Stream} (h : stream.Inv config)
    (head : Head) : (stream.onResponse head).Inv config := by
  unfold Stream.onResponse
  split
  · exact h
  · split
    · constructor
      · exact ⟨h.kept.whole, h.kept.ordered, h.kept.cut, h.kept.sized,
          h.kept.contiguous, h.kept.offset⟩
      · exact ⟨h.agreed.alive, h.agreed.refused, h.agreed.gone, h.agreed.short,
          h.agreed.settled, fun _ => rfl, h.agreed.ended, h.agreed.reported⟩
    · exact h

/-- More of the body arrives: it is held back, or nothing holds it any more. -/
theorem Inv.receive {stream : Stream} (h : stream.Inv config)
    (hopen : stream.outcome = none) {piece : Bytes}
    {writer : Option StreamWriter}
    (hheld : stream.dropped = none →
      writer.elim [] StreamWriter.buffer = stream.held ++ piece)
    (hphase : ∀ after, writer = some after → after.phase = .writing ∧
      stream.dropped = none)
    (hgone : writer = none → stream.dropped ≠ none) :
    Inv config
      { stream with body := stream.body ++ piece, writer := writer } := by
  have hended : Message.streamEnd ∉ stream.sent := fun hin =>
    absurd (h.agreed.ended hin).1 (by simp [hopen])
  constructor
  · constructor
    · intro hnone
      show stream.delivered ++ stream.chunks.flatten ++
        writer.elim [] StreamWriter.buffer = stream.body ++ piece
      rw [hheld hnone, ← h.kept.whole hnone, List.append_assoc,
        List.append_assoc, List.append_assoc]
    · exact h.kept.ordered.trans (List.prefix_append _ _)
    · exact h.kept.cut
    · exact h.kept.sized
    · exact h.kept.contiguous
    · exact h.kept.offset
  · constructor
    · exact fun after hafter _ => (hphase after hafter).2
    · intro after hafter hrefused
      rw [(hphase after hafter).1] at hrefused
      contradiction
    · exact fun hnone _ => hgone hnone
    · intro after hafter hidle
      rw [(hphase after hafter).1] at hidle
      contradiction
    · exact fun hsome => absurd hsome (by simp [hopen])
    · exact h.agreed.answered
    · exact fun hin => absurd hin hended
    · exact h.agreed.reported

theorem Inv.onChunk {stream : Stream} (h : stream.Inv config)
    (piece : Bytes) : (stream.onChunk piece).Inv config := by
  unfold Stream.onChunk
  split
  · exact h
  · rename_i hready
    have hopen : stream.outcome = none := by
      simpa using (not_or.mp hready).2
    cases hwriter : stream.writer with
    | none =>
        have hdropped := h.agreed.gone hwriter hopen
        exact h.receive hopen (fun hnone => absurd hnone hdropped) (by simp)
          fun _ => hdropped
    | some writer =>
        dsimp only
        split
        · rename_i hidle
          have hnone := h.agreed.alive writer hwriter (by simp [hidle])
          refine h.receive hopen (fun _ => ?_) (fun after hafter => ?_)
            (fun hnone => absurd hnone (by simp))
          · rw [held, hwriter]
            rfl
          · rw [← Option.some.inj hafter]
            exact ⟨rfl, hnone⟩
        · exact h

/-- The loop in `write` moves bytes from the writer to the channel. -/
theorem Inv.cutOff {stream : Stream} (h : stream.Inv config)
    (hopen : stream.outcome = none) {after : StreamWriter} {queued : Nat}
    {chunks : List Bytes} {dropped : Option String}
    {failure : Option HttpError}
    (hwhole : dropped = none →
      stream.delivered ++ chunks.flatten ++ after.buffer = stream.body)
    (hordered : stream.delivered ++ chunks.flatten <+: stream.body)
    (hcut : ∀ chunk ∈ chunks, chunk.length ≤ config.streamChunkBytes)
    (hphase : after.phase = .refused ↔ dropped ≠ none)
    (hshort : after.phase = .idle →
      after.buffer.length ≤ config.streamChunkBytes) :
    Inv config
      { stream with
        writer := some after
        queued := queued
        chunks := chunks
        dropped := dropped
        failure := failure } := by
  have hended : Message.streamEnd ∉ stream.sent := fun hin =>
    absurd (h.agreed.ended hin).1 (by simp [hopen])
  constructor
  · exact ⟨hwhole, hordered, hcut, h.kept.sized, h.kept.contiguous,
      h.kept.offset⟩
  · constructor
    · intro writer hwriter hne
      rw [← Option.some.inj hwriter] at hne
      exact not_not.mp (mt hphase.mpr hne)
    · intro writer hwriter hrefused
      rw [← Option.some.inj hwriter] at hrefused
      exact hphase.mp hrefused
    · exact fun hnone => absurd hnone (Option.some_ne_none _)
    · intro writer hwriter hidle
      rw [← Option.some.inj hwriter] at hidle ⊢
      exact hshort hidle
    · exact fun hsome => absurd hsome (by simp [hopen])
    · exact h.agreed.answered
    · exact fun hin => absurd hin hended
    · exact h.agreed.reported

theorem Inv.open_of_writer {stream : Stream} (h : stream.Inv config)
    {writer : StreamWriter} (hwriter : stream.writer = some writer) :
    stream.outcome = none := by
  by_contra hsome
  have hgone := h.agreed.settled (Option.isSome_iff_ne_none.mpr hsome)
  rw [hwriter] at hgone
  contradiction

theorem Inv.writeLoop {stream : Stream} (h : stream.Inv config) :
    (stream.writeLoop config).Inv config := by
  unfold Stream.writeLoop
  split
  · exact h
  · rename_i writer hwriter
    split
    · rename_i hwriting
      have hopen := h.open_of_writer hwriter
      have hnone := h.agreed.alive writer hwriter (by simp [hwriting])
      have hwhole := h.kept.whole hnone
      rw [show stream.held = writer.buffer by rw [held, hwriter]; rfl] at hwhole
      dsimp only
      split
      · have hlength : (writer.buffer.take config.streamChunkBytes).length ≤
            config.streamChunkBytes := List.length_take_le _ _
        split
        · rename_i hfits
          -- The chunk is queued behind those before it.
          have hbody : stream.delivered ++ (stream.chunks ++
              [writer.buffer.take config.streamChunkBytes]).flatten ++
                writer.buffer.drop config.streamChunkBytes = stream.body := by
            rw [← hwhole, List.flatten_append, List.flatten_singleton,
              List.append_assoc, List.append_assoc, List.append_assoc,
              List.take_append_drop]
          rw [push_of_fits hfits]
          refine h.cutOff hopen (fun _ => hbody) ?_ ?_ (by simp [hnone])
            (by simp)
          · rw [← hbody]
            exact List.prefix_append _ _
          · intro chunk hin
            rcases List.mem_append.mp hin with hold | hlast
            · exact h.kept.cut chunk hold
            · rw [List.mem_singleton.mp hlast]
              exact hlength
        · rename_i hfits
          rw [push_of_not_fits (by simpa using hfits)]
          exact h.cutOff hopen (fun hnone => absurd hnone (by simp))
            h.kept.ordered h.kept.cut (by simp) (by simp)
      · rename_i hless
        exact h.cutOff hopen (fun _ => hwhole) h.kept.ordered h.kept.cut
          (by simp [hnone]) (fun _ => (Nat.not_le.mp hless).le)
    · exact h

theorem Inv.dropRefused {stream : Stream} (h : stream.Inv config)
    (hsteady : stream.Steady config .dropRefused) :
    (stream.dropRefused config).Inv config := by
  unfold Stream.dropRefused
  split
  · exact h
  · rename_i writer hwriter
    split
    · rename_i hrefused
      have hheld : stream.held = writer.buffer := by rw [held, hwriter]; rfl
      have htail : stream.Tail config := by
        refine Or.inr ?_
        rw [hheld]
        exact hsteady writer hwriter hrefused
      have hkept := h.kept.dropWriter htail
      have hdropped : (stream.dropWriter config).dropped ≠ none :=
        dropWriter_dropped (h.agreed.refused writer hwriter hrefused)
      have hopen := h.open_of_writer hwriter
      obtain ⟨queued, chunks, dropped, hnext, -⟩ :=
        dropWriter_cases config stream
      rw [hnext] at hkept hdropped ⊢
      refine ⟨hkept, ?_⟩
      constructor
      · exact fun _ hsome => absurd hsome (by simp)
      · exact fun _ hsome => absurd hsome (by simp)
      · exact fun _ _ => hdropped
      · exact fun _ hsome => absurd hsome (by simp)
      · exact fun _ => rfl
      · exact h.agreed.answered
      · exact h.agreed.ended
      · exact h.agreed.reported
    · exact h

/-! ### The emitting task -/

theorem received_send (stream : Stream) (message : Message) :
    (stream.send message).received =
      stream.received ++ [message].filterMap Message.chunk? := by
  rw [received, send, List.filterMap_append]
  rfl

theorem received_send_none {stream : Stream} {message : Message}
    (h : message.chunk? = none) :
    (stream.send message).received = stream.received := by
  rw [received_send, List.filterMap_cons_none h]
  exact List.append_nil _

theorem delivered_send_none {stream : Stream} {message : Message}
    (h : message.chunk? = none) :
    (stream.send message).delivered = stream.delivered := by
  rw [delivered, received_send_none h, delivered]

/-- A message that is no chunk carries none of the body. -/
theorem Kept.send {stream : Stream} (h : stream.Kept config)
    {message : Message} (hmessage : message.chunk? = none) :
    (stream.send message).Kept config := by
  constructor
  · rw [delivered_send_none hmessage]
    exact h.whole
  · rw [delivered_send_none hmessage]
    exact h.ordered
  · exact h.cut
  · rw [received_send_none hmessage]
    exact h.sized
  · rw [received_send_none hmessage]
    exact h.contiguous
  · rw [delivered_send_none hmessage]
    exact h.offset

/-- The emitting task sends a message that ends nothing. -/
theorem Agreed.send {stream : Stream} (h : stream.Agreed config)
    (hending : stream.ending = none) {message : Message}
    (hmessage : message ≠ .streamEnd) (queued offset : Nat)
    (chunks : List Bytes) (begun : Bool) :
    Agreed config
      (send { stream with
        queued := queued
        offset := offset
        chunks := chunks
        begun := begun } message) := by
  constructor
  · exact h.alive
  · exact h.refused
  · exact h.gone
  · exact h.short
  · exact h.settled
  · exact h.answered
  · intro hin
    rcases List.mem_append.mp hin with hold | hlast
    · exact absurd (hending.symm.trans (h.ended hold).2.2) (by simp)
    · exact absurd (List.mem_singleton.mp hlast).symm hmessage
  · exact fun hreported => absurd (hending.symm.trans hreported) (by simp)

theorem Inv.emit {stream : Stream} (h : stream.Inv config)
    (hsteady : stream.Steady config .emit) : stream.emit.Inv config := by
  unfold Stream.emit
  split
  · exact h
  · rename_i hending hbegun
    split
    · exact h
    · refine ⟨?_, h.agreed.send hending (by simp) _ _ _ _⟩
      refine Kept.send ?_ rfl
      exact ⟨h.kept.whole, h.kept.ordered, h.kept.cut, h.kept.sized,
        h.kept.contiguous, h.kept.offset⟩
  · rename_i hending hbegun
    split
    · exact h
    · rename_i chunk chunks hchunks
      refine ⟨?_, h.agreed.send hending (by simp) _ _ _ _⟩
      have hsmall := hsteady hending hbegun (by simp [hchunks])
      have hoffset := h.kept.offset hsmall
      let sending : Stream :=
        { stream with
          queued := stream.queued - chunk.length
          offset := min (stream.offset + chunk.length % (U32_MAX + 1)) U32_MAX
          chunks := chunks }
      have hreceived :
          (sending.send (.streamChunk ⟨stream.offset, chunk⟩)).received =
            stream.received ++ [⟨stream.offset, chunk⟩] :=
        received_send _ _
      have hdelivered :
          (sending.send (.streamChunk ⟨stream.offset, chunk⟩)).delivered =
            stream.delivered ++ chunk := by
        rw [delivered, hreceived, List.flatMap_append]
        simp [delivered]
      have hmoved : stream.delivered ++ chunk ++ chunks.flatten =
          stream.delivered ++ stream.chunks.flatten := by
        rw [hchunks, List.flatten_cons, List.append_assoc]
      constructor
      · intro hnone
        rw [hdelivered]
        show stream.delivered ++ chunk ++ chunks.flatten ++ stream.held =
          stream.body
        rw [hmoved]
        exact h.kept.whole hnone
      · rw [hdelivered]
        show stream.delivered ++ chunk ++ chunks.flatten <+: stream.body
        rw [hmoved]
        exact h.kept.ordered
      · intro other hin
        exact h.kept.cut other (hchunks ▸ List.mem_cons_of_mem _ hin)
      · rw [hreceived]
        intro other hin
        rcases List.mem_append.mp hin with hold | hlast
        · exact h.kept.sized other hold
        · rw [List.mem_singleton.mp hlast]
          exact h.kept.cut chunk (hchunks ▸ List.mem_cons_self)
      · rw [hreceived]
        refine h.kept.contiguous.append ?_
        rw [Nat.zero_add]
        exact hoffset
      · intro hfits
        rw [hdelivered, List.length_append] at hfits ⊢
        show min (stream.offset + chunk.length % (U32_MAX + 1)) U32_MAX = _
        rw [hoffset, Nat.mod_eq_of_lt (by omega), Nat.min_eq_left hfits]

/-- When the emitting task has ended with nothing refused, the device has it
all. -/
theorem Inv.all_delivered {stream : Stream} (h : stream.Inv config)
    (hok : stream.outcome = some (.ok ())) (hdropped : stream.dropped = none)
    (hemitted : stream.emitted = true) : stream.delivered = stream.body := by
  have hwhole := h.kept.whole hdropped
  obtain ⟨hgone, hdone⟩ : stream.writer = none ∧
      (stream.head = none ∨ stream.begun = true ∧ stream.chunks = []) := by
    simpa [emitted] using hemitted
  have hhead := h.agreed.answered hok
  obtain ⟨-, hchunks⟩ := hdone.resolve_left
    (Option.isSome_iff_ne_none.mp hhead)
  rw [hchunks, held, hgone] at hwhole
  simpa using hwhole

theorem terminal_eq_end {outcome : Except HttpError Unit}
    {truncated : Option String} (h : terminal outcome truncated = .streamEnd) :
    outcome = .ok () ∧ truncated = none := by
  unfold terminal at h
  split at h
  · exact ⟨rfl, rfl⟩
  · contradiction
  · contradiction

theorem terminal_cases (outcome : Except HttpError Unit)
    (truncated : Option String) :
    terminal outcome truncated = .streamEnd ∨
      ∃ error, terminal outcome truncated = .streamError error := by
  unfold terminal
  split
  · exact Or.inl rfl
  · exact Or.inr ⟨_, rfl⟩
  · exact Or.inr ⟨_, rfl⟩

theorem Inv.terminate {stream : Stream} (h : stream.Inv config) :
    stream.terminate.Inv config := by
  unfold Stream.terminate
  split
  · rename_i outcome hending houtcome
    split
    · rename_i hemitted
      have hchunk : (terminal outcome stream.dropped).chunk? = none := by
        rcases terminal_cases outcome stream.dropped with hend | ⟨error, herror⟩
        · rw [hend]
          rfl
        · rw [herror]
          rfl
      constructor
      · refine Kept.send ?_ hchunk
        exact ⟨h.kept.whole, h.kept.ordered, h.kept.cut, h.kept.sized,
          h.kept.contiguous, h.kept.offset⟩
      · constructor
        · exact h.agreed.alive
        · exact h.agreed.refused
        · exact h.agreed.gone
        · exact h.agreed.short
        · exact h.agreed.settled
        · exact h.agreed.answered
        · intro hin
          rcases List.mem_append.mp hin with hold | hlast
          · exact absurd (hending.symm.trans (h.agreed.ended hold).2.2)
              (by simp)
          · obtain ⟨rfl, hdropped⟩ :=
              terminal_eq_end (List.mem_singleton.mp hlast).symm
            refine ⟨houtcome, ?_, rfl⟩
            rw [delivered_send_none hchunk]
            exact h.all_delivered houtcome hdropped hemitted
        · exact fun _ => ⟨stream.sent, _, rfl, terminal_cases _ _⟩
    · exact h
  · exact h

theorem Inv.cancel {stream : Stream} (h : stream.Inv config) :
    stream.cancel.Inv config := by
  unfold Stream.cancel
  split
  · rename_i hending
    refine ⟨⟨h.kept.whole, h.kept.ordered, h.kept.cut, h.kept.sized,
      h.kept.contiguous, h.kept.offset⟩, ?_⟩
    constructor
    · exact h.agreed.alive
    · exact h.agreed.refused
    · exact h.agreed.gone
    · exact h.agreed.short
    · exact h.agreed.settled
    · exact h.agreed.answered
    · exact fun hin => absurd (hending.symm.trans (h.agreed.ended hin).2.2)
        (by simp)
    · exact fun hreported => absurd hreported (by simp)
  · exact h

theorem Inv.step {stream : Stream} {event : Event} (h : stream.Inv config)
    (hsteady : stream.Steady config event) :
    (stream.step config event).Inv config := by
  cases event with
  | onResponse head => exact h.onResponse head
  | onChunk piece => exact h.onChunk piece
  | writeLoop => exact h.writeLoop
  | dropRefused => exact h.dropRefused hsteady
  | onFinished =>
      unfold Stream.step Stream.onFinished
      dsimp only
      split
      · exact h
      · rename_i hready
        obtain ⟨hhead, hsettleable⟩ := not_or.mp hready
        exact h.settle (not_not.mp hsettleable) none _ fun _ => by
          simpa [Option.isSome_iff_ne_none] using hhead
  | onFailed reason =>
      unfold Stream.step Stream.onFailed
      dsimp only
      split
      · exact h
      · rename_i hsettleable
        exact h.settle (not_not.mp hsettleable) _ _ (by simp)
  | sinkDropped =>
      unfold Stream.step Stream.sinkDropped
      dsimp only
      split
      · exact h
      · rename_i hsettleable
        exact h.settle (not_not.mp hsettleable) _ _ (by simp)
  | emit => exact h.emit hsteady
  | terminate => exact h.terminate
  | cancel => exact h.cancel

/-- A run in which every step meets the condition. -/
def SteadyRun (config : NetConfig) :
    Stream → List Event → Stream → Prop :=
  Transition.Run fun stream event next =>
    stream.Steady config event ∧ next = stream.step config event

/-- However a body is split and emitted, under whatever budget, the device is told
the truth about it. -/
theorem steady_faithful (config : NetConfig) {events : List Event}
    {last : Stream} (hrun : SteadyRun config Stream.open events last) :
    last.Faithful config := by
  have hstep : ∀ {stream next : Stream} {event : Event},
      stream.Inv config →
      stream.Steady config event ∧ next = stream.step config event →
        next.Inv config := by
    rintro stream next event h ⟨hsteady, rfl⟩
    exact h.step hsteady
  exact (Transition.Run.invariant hrun hstep inv_open).faithful

/-- A body of three bytes in chunks of two. -/
def threeBytes : List Event :=
  [.onResponse ⟨200, [], some 3⟩, .onChunk [1, 2, 3], .writeLoop, .emit, .emit,
    .writeLoop, .onFinished, .emit, .terminate]

def threeBytesStream : Stream :=
  threeBytes.foldl (Stream.step ⟨2, 4⟩) Stream.open

theorem steady_faithful_threeBytes :
    threeBytesStream.sent =
        [.streamBegin 200 [] (some 3), .streamChunk ⟨0, [1, 2]⟩,
          .streamChunk ⟨2, [3]⟩, .streamEnd] ∧
      threeBytesStream.Faithful ⟨2, 4⟩ := by
  have hrun : SteadyRun ⟨2, 4⟩ Stream.open threeBytes threeBytesStream := by
    refine .cons ⟨trivial, rfl⟩ (.cons ⟨trivial, rfl⟩ (.cons ⟨trivial, rfl⟩ ?_))
    refine .cons ⟨fun _ _ _ => by decide, rfl⟩ ?_
    refine .cons ⟨fun _ _ _ => by decide, rfl⟩ ?_
    refine .cons ⟨trivial, rfl⟩ (.cons ⟨trivial, rfl⟩ ?_)
    refine .cons ⟨fun _ _ _ => by decide, rfl⟩ ?_
    exact .cons ⟨trivial, rfl⟩ (.nil _)
  exact ⟨by decide, steady_faithful ⟨2, 4⟩ hrun⟩

/-- A piece of eleven bytes under a budget of five: the third chunk is refused,
and what is left after it is sent in its place once the first two are gone. -/
def skipped : List Event :=
  [.onResponse ⟨200, [], some 11⟩, .onChunk [1, 2, 3, 4, 5, 6, 7, 8, 9, 10, 11],
    .writeLoop, .writeLoop, .writeLoop, .emit, .emit, .emit, .dropRefused, .emit,
    .onFinished, .terminate]

def skippedStream : Stream :=
  skipped.foldl (Stream.step ⟨2, 5⟩) Stream.open

theorem skipped_unfaithful :
    ⟨4, [7, 8, 9, 10, 11]⟩ ∈ skippedStream.received ∧
      ¬ skippedStream.Faithful ⟨2, 5⟩ := by
  have hin : ⟨4, [7, 8, 9, 10, 11]⟩ ∈ skippedStream.received := by decide
  refine ⟨hin, fun hfaithful => ?_⟩
  have hexact := hfaithful.exact _ hin
  have hne : ([7, 8, 9, 10, 11] : Bytes) ≠
      (skippedStream.body.drop 4).take 5 := by
    decide
  exact hne hexact

end Stream

end NetStream

end Bridgething
