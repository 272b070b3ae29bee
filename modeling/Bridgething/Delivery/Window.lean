/-
The two receivers of a windowed stream: a forwarding sink that acknowledges on
receipt, and the receiver of a registered transfer.
-/
import Bridgething.Delivery.Flow
import Bridgething.Delivery.Streamed
import Bridgething.Transfer.Sinks

namespace Bridgething

namespace Delivery

open Gateway Transition Transfer

/-- A sink whose consumer may drain, and whose other transfers may do
anything. -/
def sinkPeer (transferId : Uuid) : Peer TransferSinks where
  recv := fun _ sinks fragment =>
    sinks.fragment fragment.transferId fragment.offset fragment.bytes
  Other := fun sinks next => ∃ op : TransferSinks.Op,
    (op.id ≠ transferId ∨ op = .recv transferId) ∧ next = sinks.apply op

/-- A receiver whose other transfers may do anything, and whose own may be
collected. -/
def receiverPeer (sha256Hex : Bytes → String) (transferId : Uuid) :
    Peer State where
  recv := fun now state fragment =>
    let reply := state.onFragment sha256Hex now fragment
    (reply.state, reply.acks.head?.map TransferAck.received)
  Other := fun state next => ∃ now op,
    (op.concerns transferId = false ∨ ∃ call, op = .collect call transferId) ∧
      next = (state.apply sha256Hex now op).state

/-- The fragment stays under the hard ceiling of what the consumer has left. -/
def SpoolRoom (sinks : TransferSinks) (fragment : TransferFragment) : Prop :=
  ∀ state, sinks.get? fragment.transferId = some (.forward state) →
    state.queued + fragment.bytes.length ≤ FORWARD_SPOOL_MAX_BYTES

section Sinks

variable {stream : FragmentStream}

/-- The transfer is forwarded on receipt, and was last acked at `marked`. -/
def SinkTracks (transferId : Uuid) (sinks : TransferSinks)
    (_received marked : Nat) : Prop :=
  ∃ state : ForwardState,
    sinks.get? transferId = some (.forward state) ∧
      state.policy = .onReceipt ∧ state.listening = true ∧
      state.lastAck.toNat = marked

theorem sink_paces (htotal : stream.total < 2 ^ 32) :
    Paces stream (sinkPeer stream.transferId) SpoolRoom
      (SinkTracks stream.transferId) where
  recv := by
    intro now sinks fragment received marked htrack hadmits hid hoffset hsome
      hle upto
    obtain ⟨state, hget, hpolicy, hlistening, hmarked⟩ := htrack
    rw [← hid] at hget
    obtain ⟨next, hput, hpolicy', hlistening', hack⟩ :=
      TransferSinks.fragment_onReceipt hget hpolicy hlistening
        (hadmits state hget) (by omega : fragment.offset.toNat +
          fragment.bytes.length < 2 ^ 32)
    have hinterval : FORWARD_ACK_INTERVAL.toNat = ACK_INTERVAL_BYTES := by
      decide
    have hkept : ∀ last, next.lastAck.toNat = last →
        SinkTracks stream.transferId
          (sinks.fragment fragment.transferId fragment.offset fragment.bytes).1
          upto last := by
      intro last hlast
      refine ⟨next, ?_, hpolicy', hlistening', hlast⟩
      rw [hput, hid]
      exact Table.get?_put_self _ _ _
    rw [hoffset, hinterval] at hack
    rcases hack with ⟨hnone, hsame, hnear⟩ | ⟨hsent, hreach, hrise⟩
    · left
      refine ⟨hkept marked (by rw [hsame, hmarked]), hnone, ?_⟩
      rw [← hmarked]
      exact hnear
    · right
      refine ⟨hkept upto hreach, ⟨next.lastAck, hsent, hreach⟩, ?_⟩
      rw [← hmarked]
      exact Nat.le_trans hrise hreach.le
  other := by
    rintro sinks next received marked ⟨state, hget, hpolicy, hlistening, hmarked⟩
      ⟨op, hother | hrecv, rfl⟩
    · refine ⟨state, ?_, hpolicy, hlistening, hmarked⟩
      rw [TransferSinks.apply_other sinks op (Ne.symm hother)]
      exact hget
    · subst hrecv
      obtain ⟨drained, hdrained, hpolicy', hlistening', hlast⟩ :=
        TransferSinks.recv_forward hget
      refine ⟨drained, hdrained, ?_, ?_, ?_⟩
      · rw [hpolicy', hpolicy]
      · rw [hlistening', hlistening]
      · rw [hlast, hmarked]

end Sinks

section Receivers

variable {sha256Hex : Bytes → String} {stream : FragmentStream}

/-- The transfer is short of its total by what has not come, or all has. -/
def ReceiverTracks (stream : FragmentStream) (state : State)
    (received marked : Nat) : Prop :=
  (∃ pending, state.pending.get? stream.transferId = some pending ∧
    pending.terminal = none ∧ pending.totalSize.toNat = stream.total ∧
    pending.buffer.length = received ∧ received < stream.total ∧
    pending.lastAcked.toNat = marked ∧ marked ≤ received) ∨
  received = stream.total

theorem receiver_paces :
    Paces stream (receiverPeer sha256Hex stream.transferId)
      (fun _ _ => True) (ReceiverTracks stream) where
  recv := by
    intro now state fragment received marked htrack _ hid hoffset hsome hle upto
    have hlen : 0 < fragment.bytes.length := List.length_pos_iff.mpr hsome
    rcases htrack with ⟨pending, hget, hopen, htotal, hbuffer, hshort, hmarked,
      hacked⟩ | hall
    · have hevicted : (evictExpired now state).pending.get?
          fragment.transferId = some pending := by
        rw [hid]
        exact hget
      have hgrown : (pending.buffer ++ fragment.bytes).length = upto := by
        rw [List.length_append, hbuffer]
      simp only [receiverPeer, onFragment_registered hevicted]
      rcases ingest_cases sha256Hex hevicted hopen (by omega) fragment.offset
        fragment.bytes with ⟨hwrong, _⟩ | ⟨_, hfull, emptied, _, hs⟩ |
          ⟨_, hlt, ack, lastAcked, hpace, hs⟩
      · rw [hgrown] at hwrong
        omega
      · right
        rw [hgrown] at hfull
        refine ⟨Or.inr (by omega), ⟨pending.totalSize, ?_, hfull.symm⟩,
          by omega⟩
        simp [hs]
      · rw [hgrown] at hlt hpace
        have hreach : upto.toUInt32.toNat = upto := toNat_toUInt32 hlt.le
        have hdue := receipt_due
          (show pending.lastAcked.toNat ≤ upto.toUInt32.toNat by omega)
        rw [hreach] at hdue
        have hnext : ∀ last, lastAcked.toNat = last → last ≤ upto →
            ReceiverTracks stream
              (ingest sha256Hex (evictExpired now state) fragment.transferId
                fragment.offset fragment.bytes).1 upto last := by
          intro last hlast hle
          refine Or.inl ⟨{ pending with
              buffer := pending.buffer ++ fragment.bytes
              lastAcked := lastAcked },
            ?_, hopen, htotal, hgrown, by omega, hlast, hle⟩
          rw [hs, hid]
          exact Table.get?_put_self _ _ _
        rcases hpace with ⟨rfl, rfl, hquiet⟩ | ⟨rfl, hlast, hreached⟩
        · left
          have hnear := mt hdue.mpr hquiet
          refine ⟨hnext marked hmarked (by omega), ?_, by omega⟩
          simp [hs]
        · right
          have hupto : lastAcked.toNat = upto := by rw [hlast, hreach]
          refine ⟨hnext upto hupto (Nat.le_refl _), ⟨lastAcked, ?_, hupto⟩,
            by omega⟩
          simp [hs]
    · omega
  other := by
    rintro state next received marked htrack ⟨now, op, hop, rfl⟩
    rcases htrack with ⟨pending, hget, hopen, hrest⟩ | hall
    · left
      rcases hop with helse | ⟨call, rfl⟩
      · refine ⟨pending, ?_, hopen, hrest⟩
        rw [(apply_elsewhere helse now).1]
        exact hget
      · refine ⟨{ pending with waiter := some call }, ?_, hopen, hrest⟩
        simp only [State.apply, State.collect, hget, hopen]
        exact Table.get?_put_self _ _ _
    · exact Or.inr hall

/-- A transfer that has just been registered, with nothing held for it, is at
its start. -/
theorem register_tracks {state : State} {transfer : TransferRef} {now : Nat}
    (hid : transfer.id = stream.transferId)
    (htotal : transfer.totalSize.toNat = stream.total)
    (hcap : stream.total ≤ MAX_TRANSFER_BYTES)
    (hpending : state.pending.get? transfer.id = none)
    (hbuffer : state.buffer.get? transfer.id = none) :
    ReceiverTracks stream (state.register sha256Hex now transfer).state 0 0 := by
  have hget : (evictExpired now state).pending.get? transfer.id = none :=
    hpending
  by_cases hzero : transfer.totalSize = 0
  · right
    rw [← htotal, hzero]
    rfl
  · left
    have hheld : (evictExpired now state).buffer.get? transfer.id = none := by
      rw [evictExpired_get?]
      · exact hbuffer
      · intro held hheld
        rw [hbuffer] at hheld
        exact absurd hheld (Option.some_ne_none _).symm
    obtain ⟨opened, hopened, _, _, hreply⟩ :=
      register_opening sha256Hex hget hzero (by omega)
    refine ⟨⟨transfer.totalSize, transfer.sha256, [], 0, none, none⟩, ?_, rfl,
      htotal, rfl, ?_, rfl, Nat.le_refl _⟩
    · rw [hreply, hheld, ← hid]
      simp only [Option.map_none, Option.getD_none, replay, hopened]
      exact Table.get?_put_self _ _ _
    · rw [← htotal]
      apply Nat.pos_of_ne_zero
      intro hnat
      exact hzero (UInt32.toNat_inj.mp hnat)

end Receivers

/-- No fragment goes out at or past what is acked and the window; and a sink that
acknowledges on receipt, or the receiver of a registered transfer, never leaves
the window shut. -/
theorem window_never_deadlocks :
    (∀ (ρ : Type) (stream : FragmentStream) (peer : Peer ρ) (acks : AckWindow)
        (receiver : ρ) (labels : List Happening) (s t : Flow ρ)
        (fragment : TransferFragment),
      Run (Flow.Step stream peer) (Flow.start stream acks receiver) labels s →
      Flow.Step stream peer s (.push (some fragment)) t →
        ∃ walk window, s.stage = .admitted walk window ∧
          window ≤ MAX_WINDOW_BYTES ∧
          fragment.offset.toNat <
            s.acks.receivedBytes stream.transferId + window) ∧
    (∀ (stream : FragmentStream) (acks : AckWindow) (sinks : TransferSinks)
        (labels : List Happening) (s : Flow TransferSinks),
      stream.total < 2 ^ 32 →
      Run (Flow.Roomy stream (sinkPeer stream.transferId) SpoolRoom)
        (Flow.start stream acks
          (sinks.bindForward stream.transferId .onReceipt)) labels s →
      s.fragments = [] → s.receipts = [] → ¬ s.Blocked stream) ∧
    (∀ (sha256Hex : Bytes → String) (stream : FragmentStream)
        (acks : AckWindow) (state : State) (transfer : TransferRef) (now : Nat)
        (labels : List Happening) (s : Flow State),
      stream.resumeFrom = 0 → transfer.id = stream.transferId →
      transfer.totalSize.toNat = stream.total →
      stream.total ≤ MAX_TRANSFER_BYTES →
      state.pending.get? transfer.id = none →
      state.buffer.get? transfer.id = none →
      Run (Flow.Step stream (receiverPeer sha256Hex stream.transferId))
        (Flow.start stream acks (state.register sha256Hex now transfer).state)
        labels s →
      s.fragments = [] → s.receipts = [] → ¬ s.Blocked stream) := by
  refine ⟨?_, ?_, ?_⟩
  · intro ρ stream peer acks receiver labels s t fragment hrun hstep
    exact run_granted hrun hstep
  · intro stream acks sinks labels s htotal hrun hfragments hreceipts
    have hbound : SinkTracks stream.transferId
        (sinks.bindForward stream.transferId .onReceipt) stream.resumeFrom 0 :=
      ⟨⟨[], true, 0, 0, .onReceipt, false⟩, Table.get?_put_self _ _ _, rfl, rfl,
        rfl⟩
    exact (run_kept (sink_paces htotal) hbound hrun).not_blocked htotal
      hfragments hreceipts
  · intro sha256Hex stream acks state transfer now labels s hresume hid htotal
      hcap hpending hbuffer hrun hfragments hreceipts
    have hregistered : ReceiverTracks stream
        (state.register sha256Hex now transfer).state stream.resumeFrom 0 := by
      rw [hresume]
      exact register_tracks hid htotal hcap hpending hbuffer
    have hroomy : Run (Flow.Roomy stream
        (receiverPeer sha256Hex stream.transferId) fun _ _ => True)
        (Flow.start stream acks (state.register sha256Hex now transfer).state)
        labels s := hrun.mono fun hstep => ⟨hstep, fun _ _ _ => trivial⟩
    refine (run_kept receiver_paces hregistered hroomy).not_blocked ?_
      hfragments hreceipts
    exact Nat.lt_of_le_of_lt hcap (by decide)

/-- A stream of two bytes. -/
def shortStream : FragmentStream := ⟨1, [⟨0, 2⟩], 0, 16⟩

theorem window_never_deadlocks_short :
    (∃ walk window,
      Stage.admitted ⟨[⟨0, 2⟩], 0, 0, 0⟩ 65536 = .admitted walk window ∧
      window ≤ MAX_WINDOW_BYTES ∧
      (0 : UInt32).toNat < AckWindow.receivedBytes [(1, 0)] 1 + window) ∧
    ¬ (Flow.start shortStream []
      (TransferSinks.bindForward [] 1 .onReceipt)).Blocked shortStream ∧
    ¬ (Flow.start shortStream []
      (State.init.register twoDigests 0 twoBytes).state).Blocked shortStream := by
  obtain ⟨hsafe, hsink, hreceiver⟩ := window_never_deadlocks
  refine ⟨?_, ?_, ?_⟩
  · have hread : ∀ other, (.ok [1, 2] : Except String Bytes) = .ok other →
        other.length ≤ shortStream.want ⟨[⟨0, 2⟩], 0, 0, 0⟩ := by
      intro other hother
      cases hother
      decide
    exact hsafe TransferSinks shortStream (sinkPeer 1) []
      (TransferSinks.bindForward [] 1 .onReceipt) [.pace, .grant]
      ⟨[(1, 0)], .admitted ⟨[⟨0, 2⟩], 0, 0, 0⟩ 65536, [],
        TransferSinks.bindForward [] 1 .onReceipt, []⟩ _ ⟨1, 0, [1, 2]⟩
      (Run.cons (Flow.Step.pace 65536 rfl (by decide) (by decide)) <|
        Run.cons (Flow.Step.grant rfl (by decide)) <| Run.nil _)
      (Flow.Step.push (.ok [1, 2]) true rfl hread)
  · exact hsink shortStream [] [] [] _ (by decide) (Run.nil _) rfl rfl
  · exact hreceiver twoDigests shortStream [] State.init twoBytes 0 [] _ rfl rfl
      rfl (by decide) rfl rfl (Run.nil _) rfl rfl

/-- A fragment of a whole window or more whose ack, if any, falls a window short
of its end leaves the window shut. -/
theorem one_fragment_shuts {ρ : Type} (peer : Peer ρ) (receiver : ρ)
    {resume total size : Nat} (hresume : resume < 2 ^ 32)
    (hinside : resume + size < total) (hsize : MIN_WINDOW_BYTES ≤ size)
    {bytes : Bytes} (hlength : bytes.length = size)
    (hacked : ((peer.recv 0 receiver ⟨1, resume.toUInt32, bytes⟩).2.map
      UInt32.toNat).getD 0 + MIN_WINDOW_BYTES ≤ resume + size) :
    ∃ (labels : List Happening) (s : Flow ρ),
      Run (Flow.Step ⟨1, [⟨0, total⟩], resume, size⟩ peer)
        (Flow.start ⟨1, [⟨0, total⟩], resume, size⟩ [] receiver) labels s ∧
      s.fragments = [] ∧ s.receipts = [] ∧
      s.Blocked ⟨1, [⟨0, total⟩], resume, size⟩ := by
  have hmin : 0 < MIN_WINDOW_BYTES := by decide
  have hwindow : MIN_WINDOW_BYTES ≤ MAX_WINDOW_BYTES := by decide
  have hsome : bytes ≠ [] := List.length_pos_iff.mp (by omega)
  have hstart : FragmentStream.start ⟨1, [⟨0, total⟩], resume, size⟩ =
      .head ⟨[⟨0, total⟩], 0, resume, 0⟩ := by
    have hbefore : resume < total := by omega
    simp [FragmentStream.start, enter, skipRanges, hbefore]
  have hpush : FragmentStream.push ⟨1, [⟨0, total⟩], resume, size⟩
      ⟨[⟨0, total⟩], 0, resume, 0⟩ (.ok bytes) true =
        (.head ⟨[⟨0, total⟩], 0, resume + size, size⟩,
          some ⟨1, resume.toUInt32, bytes⟩) := by
    rw [FragmentStream.push, if_neg (Nat.not_le.mpr hresume)]
    simp [hsome, hlength, enter, skipRanges, hinside]
  have hsent : Flow.Step ⟨1, [⟨0, total⟩], resume, size⟩ peer
      ⟨[(1, max 0 resume)],
        .admitted ⟨[⟨0, total⟩], 0, resume, 0⟩ MIN_WINDOW_BYTES, [], receiver,
        []⟩
      (.push (some ⟨1, resume.toUInt32, bytes⟩))
      ⟨[(1, max 0 resume)], .head ⟨[⟨0, total⟩], 0, resume + size, size⟩,
        [⟨1, resume.toUInt32, bytes⟩], receiver, []⟩ := by
    have hread : ∀ other, (.ok bytes : Except String Bytes) = .ok other →
        other.length ≤ FragmentStream.want ⟨1, [⟨0, total⟩], resume, size⟩
          ⟨[⟨0, total⟩], 0, resume, 0⟩ := by
      intro other hother
      cases hother
      simp only [FragmentStream.want, List.head?_cons, Option.map_some,
        Option.getD_some]
      omega
    have hstep : Flow.Step ⟨1, [⟨0, total⟩], resume, size⟩ peer
        ⟨[(1, max 0 resume)],
          .admitted ⟨[⟨0, total⟩], 0, resume, 0⟩ MIN_WINDOW_BYTES, [],
          receiver, []⟩ _ _ :=
      Flow.Step.push (.ok bytes) true rfl hread
    rw [hpush] at hstep
    exact hstep
  have hgrant : AckWindow.admits [(1, max 0 resume)] 1 resume
      MIN_WINDOW_BYTES = true := by
    simp only [AckWindow.admits, AckWindow.receivedBytes, Table.get?,
      ↓reduceIte, Option.getD_some, decide_eq_true_eq]
    omega
  have hshut : ∀ acked, acked + MIN_WINDOW_BYTES ≤ resume + size →
      AckWindow.admits [(1, max (max 0 resume) acked)] 1 (resume + size)
        MIN_WINDOW_BYTES = false := by
    intro acked hle
    simp only [AckWindow.admits, AckWindow.receivedBytes, Table.get?,
      ↓reduceIte, Option.getD_some, decide_eq_false_iff_not]
    omega
  have hrun : ∀ s labels,
      Run (Flow.Step ⟨1, [⟨0, total⟩], resume, size⟩ peer)
        ⟨[(1, max 0 resume)], .head ⟨[⟨0, total⟩], 0, resume + size, size⟩, [],
          (peer.recv 0 receiver ⟨1, resume.toUInt32, bytes⟩).1,
          (peer.recv 0 receiver ⟨1, resume.toUInt32, bytes⟩).2.toList⟩
        labels s →
      Run (Flow.Step ⟨1, [⟨0, total⟩], resume, size⟩ peer)
        (Flow.start ⟨1, [⟨0, total⟩], resume, size⟩ [] receiver)
        (.pace :: .grant :: .push (some ⟨1, resume.toUInt32, bytes⟩) ::
          .deliver :: labels) s := by
    intro s labels hrest
    have hpace : Flow.Step ⟨1, [⟨0, total⟩], resume, size⟩ peer
        (Flow.start ⟨1, [⟨0, total⟩], resume, size⟩ [] receiver) .pace _ :=
      Flow.Step.pace MIN_WINDOW_BYTES hstart (Nat.le_refl _) hwindow
    exact Run.cons hpace <| Run.cons (Flow.Step.grant rfl hgrant) <|
      Run.cons hsent <| Run.cons (Flow.Step.deliver 0 rfl) hrest
  cases hreceipt : (peer.recv 0 receiver ⟨1, resume.toUInt32, bytes⟩).2 with
  | none =>
      rw [hreceipt] at hrun
      refine ⟨_, _, hrun _ _ (Run.cons (Flow.Step.pace MIN_WINDOW_BYTES rfl
        (Nat.le_refl _) hwindow) (Run.nil _)), rfl, rfl, ⟨_, _, rfl, ?_⟩⟩
      have := hshut 0 (by omega)
      rwa [Nat.max_zero] at this
  | some receipt =>
      rw [hreceipt] at hrun hacked
      refine ⟨_, _, hrun _ _ (Run.cons
          (Flow.Step.note receipt (List.mem_singleton_self _)) <|
        Run.cons (Flow.Step.pace MIN_WINDOW_BYTES rfl (Nat.le_refl _) hwindow)
          (Run.nil _)), rfl, ?_, ⟨_, _, rfl, hshut receipt.toNat hacked⟩⟩
      simp

/-- What the receivers refuse leaves the window shut: a resumed stream, a body
over the cap, a fragment over the forward's ceiling, an offset that saturates. -/
theorem refused_stream_deadlocks :
    (∃ (labels : List Happening) (s : Flow State),
      Run (Flow.Step ⟨1, [⟨0, 65538⟩], 1, 65536⟩ (receiverPeer twoDigests 1))
        (Flow.start ⟨1, [⟨0, 65538⟩], 1, 65536⟩ []
          (State.init.register twoDigests 0 ⟨1, 65538, none⟩).state) labels s ∧
      s.fragments = [] ∧ s.receipts = [] ∧
      s.Blocked ⟨1, [⟨0, 65538⟩], 1, 65536⟩) ∧
    (∃ (labels : List Happening) (s : Flow State),
      Run (Flow.Step ⟨1, [⟨0, 1048577⟩], 0, 65536⟩ (receiverPeer twoDigests 1))
        (Flow.start ⟨1, [⟨0, 1048577⟩], 0, 65536⟩ []
          (State.init.register twoDigests 0 ⟨1, 1048577, none⟩).state) labels
        s ∧
      s.fragments = [] ∧ s.receipts = [] ∧
      s.Blocked ⟨1, [⟨0, 1048577⟩], 0, 65536⟩) ∧
    (∃ (labels : List Happening) (s : Flow TransferSinks),
      Run (Flow.Step ⟨1, [⟨0, 67108866⟩], 0, 67108865⟩ (sinkPeer 1))
        (Flow.start ⟨1, [⟨0, 67108866⟩], 0, 67108865⟩ []
          (TransferSinks.bindForward [] 1 .onReceipt)) labels s ∧
      s.fragments = [] ∧ s.receipts = [] ∧
      s.Blocked ⟨1, [⟨0, 67108866⟩], 0, 67108865⟩) ∧
    (∃ (labels : List Happening) (s : Flow TransferSinks),
      Run (Flow.Step ⟨1, [⟨0, 4295101761⟩], 4294901760, 200000⟩ (sinkPeer 1))
        (Flow.start ⟨1, [⟨0, 4295101761⟩], 4294901760, 200000⟩ []
          (TransferSinks.bindForward [] 1 .onReceipt)) labels s ∧
      s.fragments = [] ∧ s.receipts = [] ∧
      s.Blocked ⟨1, [⟨0, 4295101761⟩], 4294901760, 200000⟩) := by
  have hbytes : ∀ size, ∃ bytes : Bytes, bytes.length = size := fun size =>
    ⟨List.replicate size 0, List.length_replicate⟩
  refine ⟨?_, ?_, ?_, ?_⟩
  · obtain ⟨bytes, hlength⟩ := hbytes 65536
    apply one_fragment_shuts _ _ (by decide) (by decide) (by decide) hlength
    have hgap : ((receiverPeer twoDigests 1).recv 0
        (State.init.register twoDigests 0 ⟨1, 65538, none⟩).state
        ⟨1, Nat.toUInt32 1, bytes⟩).2 = none := rfl
    rw [hgap]
    decide
  · obtain ⟨bytes, hlength⟩ := hbytes 65536
    apply one_fragment_shuts _ _ (by decide) (by decide) (by decide) hlength
    have hrefused : ((receiverPeer twoDigests 1).recv 0
        (State.init.register twoDigests 0 ⟨1, 1048577, none⟩).state
        ⟨1, Nat.toUInt32 0, bytes⟩).2 = none := rfl
    rw [hrefused]
    decide
  · obtain ⟨bytes, hlength⟩ := hbytes 67108865
    apply one_fragment_shuts _ _ (by decide) (by decide) (by decide) hlength
    have habandoned : ((sinkPeer 1).recv 0
        (TransferSinks.bindForward [] 1 .onReceipt)
        ⟨1, Nat.toUInt32 0, bytes⟩).2 = none := by
      simp [sinkPeer, TransferSinks.fragment, TransferSinks.bindForward,
        hlength, FORWARD_SPOOL_MAX_BYTES]
    rw [habandoned]
    decide
  · obtain ⟨bytes, hlength⟩ := hbytes 200000
    apply one_fragment_shuts _ _ (by decide) (by decide) (by decide) hlength
    have hsaturated : ((sinkPeer 1).recv 0
        (TransferSinks.bindForward [] 1 .onReceipt)
        ⟨1, Nat.toUInt32 4294901760, bytes⟩).2 = some 0xFFFFFFFF := by
      have hdue : FORWARD_ACK_INTERVAL ≤ TransferSinks.saturatingSub
          4294967295 0 := by decide
      have hend : TransferSinks.saturatingAdd 4294901760 200000 =
          4294967295 := by decide
      simp [sinkPeer, TransferSinks.fragment, TransferSinks.bindForward,
        hlength, FORWARD_SPOOL_MAX_BYTES, hdue, hend]
    rw [hsaturated]
    decide

end Delivery

end Bridgething
