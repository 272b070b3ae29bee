/-
What the bodies of file transfers are: no longer than was declared and what came
since the first datagram, wherever the code looks; and what a device sends comes
out whole, however its transfers are mixed on the way.
-/
import Bridgething.Iap2.FileTransfer
import Bridgething.Lib.Sequence

namespace Bridgething

namespace Iap2

open Projection

/-- What a packet says of a transfer. -/
inductive Datagram
  | setup (size : Nat)
  | first (body : Bytes)
  | more (body : Bytes)
deriving Repr, DecidableEq

def datagramOf (id : UInt8) : Bytes → Option Datagram
  | first :: op :: rest =>
      if first ≠ id then none
      else if op = OP_SETUP then
        (parseSetup rest).map fun declared => .setup declared.1
      else if op = OP_FIRST_AND_ONLY ∨ op = OP_FIRST_DATA then
        some (.first rest)
      else if op = OP_DATA ∨ op = OP_LAST_DATA then some (.more rest)
      else none
  | _ => none

theorem datagramOf_self (id op : UInt8) (rest : Bytes) :
    datagramOf id (id :: op :: rest) =
      if op = OP_SETUP then
        (parseSetup rest).map fun declared => .setup declared.1
      else if op = OP_FIRST_AND_ONLY ∨ op = OP_FIRST_DATA then
        some (.first rest)
      else if op = OP_DATA ∨ op = OP_LAST_DATA then some (.more rest)
      else none := by
  rw [datagramOf, if_neg fun hne => hne rfl]

/-- What came for a transfer: the size of its latest setup, the data since its
last first datagram, and how much of that came before the setup. -/
structure FileAccount where
  size : Option Nat
  data : Bytes
  stale : Bytes
deriving Repr, DecidableEq

namespace FileAccount

def take (account : FileAccount) : Option Datagram → FileAccount
  | none => account
  | some (.setup size) => ⟨some size, account.data, account.data⟩
  | some (.first body) => ⟨account.size, body, []⟩
  | some (.more body) => ⟨account.size, account.data ++ body, account.stale⟩

def of (id : UInt8) (history : List (Bool × Bytes)) : FileAccount :=
  history.foldl (fun account input => account.take (datagramOf id input.2))
    ⟨none, [], []⟩

theorem of_concat (id : UInt8) (history : List (Bool × Bytes))
    (input : Bool × Bytes) :
    of id (history ++ [input]) =
      (of id history).take (datagramOf id input.2) := by
  rw [of, List.foldl_append]
  rfl

/-- What is in flight is what came since the setup. -/
structure Matches (account : FileAccount) (state : FileInFlight) : Prop where
  size : account.size = some state.declaredSize
  data : account.data = account.stale ++ state.buffer

end FileAccount

/-- The flow after packets. -/
def flowAfter (history : List (Bool × Bytes)) : FileTransferFlow :=
  (run FileTransferFlow.step .new history).1

/-- A body that is handed up after these packets is what was declared at most,
and all that came since the first datagram. -/
structure FaithfulBody (history : List (Bool × Bytes)) (event : SessionEvent) :
    Prop where
  bounded : ∃ size, (FileAccount.of event.transferId history).size = some size ∧
    event.bytes.length ≤ size
  exact : event.bytes = (FileAccount.of event.transferId history).data

/-- All bodies handed up on the way are faithful. -/
def AllFaithful (history : List (Bool × Bytes)) : Prop :=
  ∀ before input, before ++ [input] <+: history →
    ∀ event ∈ ((flowAfter before).step input).2,
      FaithfulBody (before ++ [input]) event

/-- A transfer that is in flight gets no single datagram beyond its size; and
one that its last datagram completes has no data from before its setup. -/
def Orderly (before : List (Bool × Bytes)) (input : Bool × Bytes) : Prop :=
  ∀ id op rest state, input = (true, id :: op :: rest) →
    (flowAfter before).inFlight.get? id = some state →
      (op = OP_FIRST_AND_ONLY → rest.length ≤ state.declaredSize) ∧
      (op = OP_LAST_DATA →
        state.buffer.length + rest.length ≤ state.declaredSize →
          (FileAccount.of id before).stale = [])

namespace FileInFlight

open FileAccount

theorem mem_trackChunk {id : UInt8} {linkOpen : Bool} {body : Bytes}
    {first last : Bool} {entry : Option FileInFlight} {event : SessionEvent} :
    event ∈ (trackChunk id linkOpen body first last entry).2 ↔
      ∃ state, entry = some state ∧ linkOpen = true ∧ last = true ∧
        (if first then [] else state.buffer).length + body.length ≤
          state.declaredSize ∧
        event = { state with
          buffer := (if first then [] else state.buffer) ++ body :
            FileInFlight }.event id := by
  cases entry with
  | none => simp [trackChunk]
  | some state =>
      unfold trackChunk
      simp only [Option.some.injEq, exists_eq_left']
      generalize (if first = true then [] else state.buffer) = buffer
      by_cases hlong : buffer.length + body.length > state.declaredSize
      · rw [if_pos hlong]
        simp [Nat.not_le.mpr hlong]
      · rw [if_neg hlong]
        have hfits := Nat.not_lt.mp hlong
        cases last with
        | false => simp
        | true => simp [FileTransferFlow.mem_completed, hfits]

/-- Which packets complete a transfer, and with what. -/
theorem mem_track {id op : UInt8} {entry : Option FileInFlight}
    {linkOpen : Bool} {rest : Bytes} {event : SessionEvent} :
    event ∈ (track id entry (linkOpen, id :: op :: rest)).2 ↔
      ∃ state, entry = some state ∧ linkOpen = true ∧
        (op = OP_FIRST_AND_ONLY ∧
            event = { state with buffer := rest : FileInFlight }.event id ∨
          op = OP_LAST_DATA ∧
            state.buffer.length + rest.length ≤ state.declaredSize ∧
            event = { state with
              buffer := state.buffer ++ rest : FileInFlight }.event id) := by
  by_cases honly : op = OP_FIRST_AND_ONLY
  · subst honly
    have hdiffers : OP_FIRST_AND_ONLY ≠ OP_SETUP ∧
        OP_FIRST_AND_ONLY ≠ OP_LAST_DATA := by decide
    cases entry with
    | none => simp [track, hdiffers]
    | some state =>
        simp [track, hdiffers, FileTransferFlow.mem_completed]
  · by_cases hlast : op = OP_LAST_DATA
    · subst hlast
      have hdiffers : OP_LAST_DATA ≠ OP_SETUP ∧
          OP_LAST_DATA ≠ OP_FIRST_DATA ∧ OP_LAST_DATA ≠ OP_DATA := by decide
      simp [track, hdiffers, honly, mem_trackChunk]
    · refine iff_of_false (fun hmem => ?_) fun ⟨_, _, _, hcases⟩ =>
        hcases.elim (honly ·.1) (hlast ·.1)
      unfold track at hmem
      simp only [if_neg honly, if_neg hlast] at hmem
      split at hmem
      · split at hmem
        · nomatch hmem
        · nomatch hmem
      · split at hmem
        · simp [mem_trackChunk] at hmem
        · split at hmem
          · simp [mem_trackChunk] at hmem
          · split at hmem
            · nomatch hmem
            · nomatch hmem

theorem trackChunk_matches {account : FileAccount} {id : UInt8}
    {linkOpen : Bool} {body : Bytes} {first last : Bool}
    {entry : Option FileInFlight}
    (h : ∀ state, entry = some state → account.Matches state) :
    ∀ state,
      (trackChunk id linkOpen body first last entry).1 = some state →
        (account.take (some
          (if first then .first body else .more body))).Matches state := by
  intro state hstate
  cases entry with
  | none => nomatch hstate
  | some old =>
      have hold := h old rfl
      unfold trackChunk at hstate
      dsimp only at hstate
      generalize hbuffer : (if first = true then [] else old.buffer) = buffer
        at hstate
      split at hstate
      · nomatch hstate
      · split at hstate
        · nomatch hstate
        · rw [Option.some.injEq] at hstate
          subst hstate hbuffer
          cases first with
          | true => exact ⟨hold.size, rfl⟩
          | false =>
              refine ⟨hold.size, ?_⟩
              have hdata := hold.data
              simp [FileAccount.take, hdata]

theorem track_matches {account : FileAccount} {id op : UInt8}
    {entry : Option FileInFlight} {linkOpen : Bool} {rest : Bytes}
    (h : ∀ state, entry = some state → account.Matches state) :
    ∀ state, (track id entry (linkOpen, id :: op :: rest)).1 = some state →
      (account.take (datagramOf id (id :: op :: rest))).Matches state := by
  intro state hstate
  rw [datagramOf_self]
  unfold track at hstate
  dsimp only at hstate
  split at hstate
  · rename_i hsetup
    rw [if_pos hsetup]
    split at hstate
    · rename_i hshort
      rw [hshort]
      exact h state hstate
    · rename_i size fileType hdeclared
      rw [Option.some.injEq] at hstate
      rw [hdeclared, ← hstate]
      exact ⟨rfl, (List.append_nil _).symm⟩
  · rename_i hsetup
    rw [if_neg hsetup]
    split at hstate
    · split at hstate
      · nomatch hstate
      · nomatch hstate
    · rename_i honly
      split at hstate
      · rename_i hfirst
        rw [if_pos (Or.inr hfirst)]
        exact trackChunk_matches h state hstate
      · rename_i hfirst
        rw [if_neg fun hor => hor.elim honly hfirst]
        split at hstate
        · rename_i hmore
          rw [if_pos (Or.inl hmore)]
          exact trackChunk_matches h state hstate
        · rename_i hmore
          split at hstate
          · rename_i hlast
            rw [if_pos (Or.inr hlast)]
            exact trackChunk_matches h state hstate
          · rename_i hlast
            rw [if_neg fun hor => hor.elim hmore hlast]
            split at hstate
            · nomatch hstate
            · exact h state hstate

end FileInFlight

theorem flowAfter_concat (history : List (Bool × Bytes))
    (input : Bool × Bytes) :
    flowAfter (history ++ [input]) = ((flowAfter history).step input).1 := by
  rw [flowAfter, run_concat, flowAfter]

theorem flowAfter_matches (history : List (Bool × Bytes)) (id : UInt8) :
    ∀ state, (flowAfter history).inFlight.get? id = some state →
      (FileAccount.of id history).Matches state := by
  induction history using List.reverseRecOn with
  | nil => exact fun state => (nomatch ·)
  | append_singleton history input ih =>
      obtain ⟨linkOpen, payload⟩ := input
      rw [flowAfter_concat, FileAccount.of_concat]
      match payload with
      | [] => exact ih
      | [first] => exact ih
      | first :: op :: rest =>
          have hhandled := FileTransferFlow.handled_dispatch (flowAfter history)
            linkOpen first op rest
          by_cases hsame : id = first
          · subst hsame
            intro state hstate
            exact FileInFlight.track_matches ih state
              (hhandled.entry.symm.trans hstate)
          · have hother : datagramOf id (first :: op :: rest) = none := by
              rw [datagramOf, if_pos (Ne.symm hsame)]
            intro state hstate
            rw [hother]
            exact ih state ((hhandled.others id hsame).symm.trans hstate)

theorem mem_step {flow : FileTransferFlow} {input : Bool × Bytes}
    {event : SessionEvent} (h : event ∈ (flow.step input).2) :
    ∃ id op rest, input.2 = id :: op :: rest ∧ event.transferId = id ∧
      event ∈ (FileInFlight.track id (flow.inFlight.get? id)
        (input.1, id :: op :: rest)).2 := by
  obtain ⟨linkOpen, payload⟩ := input
  match payload with
  | [] => nomatch h
  | [first] => nomatch h
  | first :: op :: rest =>
      have hhandled :=
        FileTransferFlow.handled_dispatch flow linkOpen first op rest
      have hevent : event ∈ (FileInFlight.track first
          (flow.inFlight.get? first) (linkOpen, first :: op :: rest)).2 := by
        rw [← hhandled.events]
        exact h
      exact ⟨first, op, rest, rfl, hhandled.ours event hevent, hevent⟩

theorem step_events (flow : FileTransferFlow) (linkOpen : Bool) (id op : UInt8)
    (rest : Bytes) :
    (flow.step (linkOpen, id :: op :: rest)).2 =
      (FileInFlight.track id (flow.inFlight.get? id)
        (linkOpen, id :: op :: rest)).2 :=
  (FileTransferFlow.handled_dispatch flow linkOpen id op rest).events

section Completed

variable {before : List (Bool × Bytes)} {id : UInt8} {state : FileInFlight}

theorem of_only (linkOpen : Bool) (rest : Bytes) :
    FileAccount.of id
        (before ++ [(linkOpen, id :: OP_FIRST_AND_ONLY :: rest)]) =
      ⟨(FileAccount.of id before).size, rest, []⟩ := by
  rw [FileAccount.of_concat, datagramOf_self, if_neg (by decide),
    if_pos (by decide)]
  rfl

theorem of_last (linkOpen : Bool) (rest : Bytes) :
    FileAccount.of id (before ++ [(linkOpen, id :: OP_LAST_DATA :: rest)]) =
      ⟨(FileAccount.of id before).size, (FileAccount.of id before).data ++ rest,
        (FileAccount.of id before).stale⟩ := by
  rw [FileAccount.of_concat, datagramOf_self, if_neg (by decide),
    if_neg (by decide), if_pos (by decide)]
  rfl

/-- A single datagram is faithful where it is no longer than declared. -/
theorem faithful_only (hmatches : (FileAccount.of id before).Matches state)
    (linkOpen : Bool) (rest : Bytes) :
    FaithfulBody (before ++ [(linkOpen, id :: OP_FIRST_AND_ONLY :: rest)])
        ({ state with buffer := rest : FileInFlight }.event id) ↔
      rest.length ≤ state.declaredSize := by
  constructor
  · rintro ⟨⟨size, hsize, hlength⟩, _⟩
    rw [FileInFlight.event_transferId, of_only, hmatches.size,
      Option.some.injEq] at hsize
    rw [FileInFlight.event_bytes] at hlength
    exact hsize ▸ hlength
  · intro hlength
    refine ⟨⟨state.declaredSize, ?_, ?_⟩, ?_⟩
    · rw [FileInFlight.event_transferId, of_only, hmatches.size]
    · rw [FileInFlight.event_bytes]
      exact hlength
    · rw [FileInFlight.event_bytes, FileInFlight.event_transferId, of_only]

/-- What a last datagram completes is faithful where nothing is left from before
the setup. -/
theorem faithful_last (hmatches : (FileAccount.of id before).Matches state)
    (linkOpen : Bool) {rest : Bytes}
    (hfits : state.buffer.length + rest.length ≤ state.declaredSize) :
    FaithfulBody (before ++ [(linkOpen, id :: OP_LAST_DATA :: rest)])
        ({ state with
          buffer := state.buffer ++ rest : FileInFlight }.event id) ↔
      (FileAccount.of id before).stale = [] := by
  constructor
  · rintro ⟨_, hexact⟩
    rw [FileInFlight.event_bytes, FileInFlight.event_transferId,
      of_last] at hexact
    simpa [hmatches.data] using hexact
  · intro hfresh
    refine ⟨⟨state.declaredSize, ?_, ?_⟩, ?_⟩
    · rw [FileInFlight.event_transferId, of_last, hmatches.size]
    · rw [FileInFlight.event_bytes, List.length_append]
      exact hfits
    · rw [FileInFlight.event_bytes, FileInFlight.event_transferId, of_last]
      simp [hmatches.data, hfresh]

end Completed

/-- One packet: what it hands up is faithful if and only if it is orderly. -/
theorem faithful_iff_orderly (before : List (Bool × Bytes))
    (input : Bool × Bytes) :
    (∀ event ∈ ((flowAfter before).step input).2,
        FaithfulBody (before ++ [input]) event) ↔ Orderly before input := by
  constructor
  · rintro hfaithful id op rest state rfl hstate
    have hmatches := flowAfter_matches before id state hstate
    rw [step_events, hstate] at hfaithful
    constructor
    · rintro rfl
      exact (faithful_only hmatches true rest).mp (hfaithful _
        (FileInFlight.mem_track.mpr ⟨state, rfl, rfl, .inl ⟨rfl, rfl⟩⟩))
    · rintro rfl hfits
      exact (faithful_last hmatches true hfits).mp (hfaithful _
        (FileInFlight.mem_track.mpr ⟨state, rfl, rfl, .inr ⟨rfl, hfits, rfl⟩⟩))
  · intro horderly event hevent
    obtain ⟨id, op, rest, hpayload, _, htracked⟩ := mem_step hevent
    obtain ⟨state, hstate, hopen, hcompletes⟩ :=
      FileInFlight.mem_track.mp htracked
    obtain ⟨linkOpen, payload⟩ := input
    obtain rfl : linkOpen = true := hopen
    obtain rfl : payload = id :: op :: rest := hpayload
    have hmatches := flowAfter_matches before id state hstate
    have hboth := horderly id op rest state rfl hstate
    rcases hcompletes with ⟨rfl, rfl⟩ | ⟨rfl, hfits, rfl⟩
    · exact (faithful_only hmatches true rest).mpr (hboth.1 rfl)
    · exact (faithful_last hmatches true hfits).mpr (hboth.2 rfl hfits)

/-- Every body handed up is faithful if and only if all packets are orderly. -/
theorem allFaithful_iff_orderly (history : List (Bool × Bytes)) :
    AllFaithful history ↔
      ∀ before input, before ++ [input] <+: history →
        Orderly before input := by
  constructor
  · intro hall before input hprefix
    exact (faithful_iff_orderly before input).mp (hall before input hprefix)
  · intro hall before input hprefix
    exact (faithful_iff_orderly before input).mpr (hall before input hprefix)

/-- A device that declares three bytes. -/
def threeDeclared : List (Bool × Bytes) :=
  [(true, [7, OP_SETUP, 0, 0, 0, 0, 0, 0, 0, 3, 0, 2])]

/-- Four bytes in a single datagram. -/
def fourAtOnce : Bool × Bytes := (true, [7, OP_FIRST_AND_ONLY, 1, 2, 3, 4])

theorem single_datagram_unbounded :
    ((flowAfter threeDeclared).step fourAtOnce).2 =
        [.artworkBytes 7 [1, 2, 3, 4]] ∧
      (FileAccount.of 7 (threeDeclared ++ [fourAtOnce])).size = some 3 ∧
      ¬ AllFaithful (threeDeclared ++ [fourAtOnce]) := by
  have hsize :
      (FileAccount.of 7 (threeDeclared ++ [fourAtOnce])).size = some 3 := by
    decide
  refine ⟨by decide, hsize, fun hall => ?_⟩
  obtain ⟨⟨size, hdeclared, hlength⟩, _⟩ := hall threeDeclared fourAtOnce
    List.prefix_rfl (.artworkBytes 7 [1, 2, 3, 4]) (by decide)
  rw [SessionEvent.transferId, hsize, Option.some.injEq] at hdeclared
  subst hdeclared
  exact absurd hlength (by decide)

/-! ### What a device sends -/

namespace DeviceFileTransfer

theorem outbound_eq (device : DeviceFileTransfer) (id : UInt8) (body : Bytes) :
    device.outbound id body =
      (id :: OP_SETUP :: (BigEndian.toBytes 8 body.length ++
        BigEndian.toBytes 2 FILE_TYPE_ARTWORK.toNat)) ::
        if body.length ≤ device.chunkBudget then
          [frame id OP_FIRST_AND_ONLY body]
        else
          frame id OP_FIRST_DATA (body.take device.chunkBudget) ::
            laterFrames device.chunkBudget id body.length
              (body.drop device.chunkBudget) := by
  unfold outbound onLinkData sendBody beginArtwork
  simp

theorem parseSetup_artwork (body : FileBody) :
    parseSetup (BigEndian.toBytes 8 body.bytes.length ++
        BigEndian.toBytes 2 FILE_TYPE_ARTWORK.toNat) =
      some (body.bytes.length, FILE_TYPE_ARTWORK) := by
  have hfits : body.bytes.length < 256 ^ 8 :=
    body.fits.trans (by decide)
  have hwidth := BigEndian.length_toBytes 8 body.bytes.length
  have htype : BigEndian.ofBytes (BigEndian.toBytes 2 FILE_TYPE_ARTWORK.toNat) =
      FILE_TYPE_ARTWORK.toNat := by decide
  have hlength : (BigEndian.toBytes 8 body.bytes.length ++
      BigEndian.toBytes 2 FILE_TYPE_ARTWORK.toNat).length = 10 := by
    rw [List.length_append, hwidth, BigEndian.length_toBytes]
  rw [parseSetup, if_neg (by omega), if_pos hlength, List.take_left' hwidth,
    List.drop_left' hwidth, BigEndian.ofBytes_toBytes_of_lt hfits, htype]
  rfl

/-- Each packet as the flow takes it, while the link is open. -/
def arriving (packets : List Bytes) : List (Bool × Bytes) :=
  packets.map fun packet => (true, packet)

section Tracked

open FileInFlight

variable {id : UInt8}

theorem track_setup (body : FileBody) (entry : Option FileInFlight) :
    track id entry (true, id :: OP_SETUP :: (BigEndian.toBytes 8
        body.bytes.length ++ BigEndian.toBytes 2 FILE_TYPE_ARTWORK.toNat)) =
      (some ⟨[], body.bytes.length, FILE_TYPE_ARTWORK⟩, []) := by
  simp [track, parseSetup_artwork]

/-- A datagram that fits, and is not the last. -/
theorem track_more {state : FileInFlight} {body : Bytes}
    (hfits : state.buffer.length + body.length ≤ state.declaredSize) :
    track id (some state) (true, frame id OP_DATA body) =
      (some { state with buffer := state.buffer ++ body }, []) := by
  have hdiffers : OP_DATA ≠ OP_SETUP ∧ OP_DATA ≠ OP_FIRST_AND_ONLY ∧
      OP_DATA ≠ OP_FIRST_DATA := by decide
  simp [track, frame, trackChunk, hdiffers, Nat.not_lt.mpr hfits]

theorem track_first {state : FileInFlight} {body : Bytes}
    (hfits : body.length ≤ state.declaredSize) :
    track id (some state) (true, frame id OP_FIRST_DATA body) =
      (some { state with buffer := body }, []) := by
  have hdiffers : OP_FIRST_DATA ≠ OP_SETUP ∧
      OP_FIRST_DATA ≠ OP_FIRST_AND_ONLY := by decide
  simp [track, frame, trackChunk, hdiffers, Nat.not_lt.mpr hfits]

theorem track_last {state : FileInFlight} {body : Bytes}
    (hfits : state.buffer.length + body.length ≤ state.declaredSize) :
    track id (some state) (true, frame id OP_LAST_DATA body) =
      (none, [{ state with
        buffer := state.buffer ++ body : FileInFlight }.event id]) := by
  have hdiffers : OP_LAST_DATA ≠ OP_SETUP ∧ OP_LAST_DATA ≠ OP_FIRST_AND_ONLY ∧
      OP_LAST_DATA ≠ OP_FIRST_DATA ∧ OP_LAST_DATA ≠ OP_DATA := by decide
  simp [track, frame, trackChunk, FileTransferFlow.completed, hdiffers,
    Nat.not_lt.mpr hfits]

theorem track_only {state : FileInFlight} (body : Bytes) :
    track id (some state) (true, frame id OP_FIRST_AND_ONLY body) =
      (none, [{ state with buffer := body : FileInFlight }.event id]) := by
  have hdiffers : OP_FIRST_AND_ONLY ≠ OP_SETUP := by decide
  simp [track, frame, FileTransferFlow.completed, hdiffers]

/-- What is left of a body comes out with what was there, in one event. -/
theorem run_laterFrames {budget : Nat} (hbudget : 0 < budget) (fuel : Nat)
    (remaining : Bytes) (state : FileInFlight) (hfuel : remaining.length < fuel)
    (hsize : state.buffer.length + remaining.length = state.declaredSize) :
    run (track id) (some state)
        (arriving (laterFrames budget id fuel remaining)) =
      (none, [{ state with
        buffer := state.buffer ++ remaining : FileInFlight }.event id]) := by
  induction fuel generalizing remaining state with
  | zero => omega
  | succ fuel ih =>
      rw [laterFrames]
      split
      · rename_i hlong
        have htaken : (remaining.take budget).length = budget :=
          List.length_take_of_le (Nat.le_of_lt hlong)
        have hleft : (remaining.drop budget).length =
            remaining.length - budget := List.length_drop
        have hrest := ih (remaining.drop budget)
          { state with buffer := state.buffer ++ remaining.take budget }
          (by omega) (by simp only [List.length_append]; omega)
        rw [List.append_assoc, List.take_append_drop] at hrest
        rw [arriving, List.map_cons, run, track_more (by omega)]
        simpa [arriving] using hrest
      · rw [arriving, List.map_singleton, run, track_last (Nat.le_of_eq hsize)]
        rfl

/-- A transfer on its own: all that comes of its packets is its body. -/
theorem run_outbound (device : DeviceFileTransfer)
    (hbudget : 0 < device.chunkBudget) (body : FileBody) :
    run (track id) none (arriving (device.outbound id body.bytes)) =
      (none, [.artworkBytes id body.bytes]) := by
  rw [outbound_eq, arriving, List.map_cons, run, track_setup]
  dsimp only
  split
  · rw [List.map_singleton, run, track_only]
    rfl
  · rename_i hlong
    have htaken : (body.bytes.take device.chunkBudget).length =
        device.chunkBudget := List.length_take_of_le (by omega)
    have hleft : (body.bytes.drop device.chunkBudget).length =
        body.bytes.length - device.chunkBudget := List.length_drop
    have hrest := @run_laterFrames id _ hbudget body.bytes.length
      (body.bytes.drop device.chunkBudget)
      ⟨body.bytes.take device.chunkBudget, body.bytes.length, FILE_TYPE_ARTWORK⟩
      (by omega) (by dsimp only; omega)
    rw [List.take_append_drop] at hrest
    rw [List.map_cons, run, track_first (by dsimp only; omega)]
    simpa [arriving, event] using hrest

end Tracked

/-- The packets of a device's transfers, mixed in any way that keeps the order
of each. -/
structure Interleaves (device : DeviceFileTransfer)
    (bodies : List (UInt8 × FileBody)) (wire : List Bytes) : Prop where
  each : ∀ entry ∈ bodies,
    wire.filter (fun packet => packet.head? = some entry.1) =
      device.outbound entry.1 entry.2.bytes
  only : ∀ packet ∈ wire, ∃ entry ∈ bodies, packet.head? = some entry.1

theorem filter_arriving (id : UInt8) (wire : List Bytes) :
    (arriving wire).filter (FileTransferFlow.packetOf id) =
      arriving (wire.filter fun packet => packet.head? = some id) := by
  rw [arriving, List.filter_map]
  rfl

/-- However the packets are mixed, what is handed up for an id is the body of
that id and nothing else. -/
theorem events_of {device : DeviceFileTransfer}
    {bodies : List (UInt8 × FileBody)} {wire : List Bytes}
    (hbudget : 0 < device.chunkBudget) (h : device.Interleaves bodies wire)
    (hdistinct : (bodies.map Prod.fst).Nodup) (id : UInt8) :
    (run FileTransferFlow.step .new (arriving wire)).2.filter
        (FileTransferFlow.eventOf id) =
      (bodies.map fun entry =>
        SessionEvent.artworkBytes entry.1 entry.2.bytes).filter
          (FileTransferFlow.eventOf id) := by
  have hpart := ((FileTransferFlow.part id).run .new (arriving wire)).2
  have hnew : FileTransferFlow.new.inFlight.get? id = none := rfl
  rw [hpart, filter_arriving, List.filter_map, hnew]
  by_cases hentry : ∃ entry ∈ bodies, entry.1 = id
  · obtain ⟨entry, hmem, rfl⟩ := hentry
    have hone : bodies.filter (FileTransferFlow.eventOf entry.1 ∘ fun entry =>
        SessionEvent.artworkBytes entry.1 entry.2.bytes) = [entry] :=
      Sequence.filter_key hdistinct hmem
    rw [h.each entry hmem, run_outbound device hbudget, hone]
    rfl
  · have hnone : wire.filter (fun packet => packet.head? = some id) = [] := by
      refine List.filter_eq_nil_iff.mpr fun packet hpacket => ?_
      obtain ⟨entry, hmem, hhead⟩ := h.only packet hpacket
      rw [hhead]
      simpa using fun hsame => hentry ⟨entry, hmem, hsame⟩
    have hothers : bodies.filter (FileTransferFlow.eventOf id ∘ fun entry =>
        SessionEvent.artworkBytes entry.1 entry.2.bytes) = [] := by
      refine List.filter_eq_nil_iff.mpr fun entry hmem => ?_
      have hne : entry.1 ≠ id := fun hsame => hentry ⟨entry, hmem, hsame⟩
      simp [FileTransferFlow.eventOf, SessionEvent.transferId, hne]
    rw [hnone, hothers]
    rfl

theorem chunkBudget_pos (peerMaxLen : UInt16) :
    0 < (new peerMaxLen).chunkBudget :=
  lt_of_lt_of_le Nat.one_pos (le_max_right _ _)

/-- Exactly one event for each transfer, with exactly its body. -/
theorem files_arrive (peerMaxLen : UInt16) (bodies : List (UInt8 × FileBody))
    (hdistinct : (bodies.map Prod.fst).Nodup) (wire : List Bytes)
    (hwire : (new peerMaxLen).Interleaves bodies wire) :
    (run FileTransferFlow.step .new (arriving wire)).2.Perm
      (bodies.map fun entry =>
        SessionEvent.artworkBytes entry.1 entry.2.bytes) := by
  refine List.perm_iff_count.mpr fun event => ?_
  have hours : FileTransferFlow.eventOf event.transferId event = true := by
    simp [FileTransferFlow.eventOf]
  rw [← List.count_filter hours, events_of (chunkBudget_pos peerMaxLen) hwire
    hdistinct, List.count_filter hours]

/-- A body of four bytes and one of one, to a peer that takes two at once. -/
def twoFiles : List (UInt8 × FileBody) :=
  [(1, ⟨[10, 11, 12, 13], by decide⟩), (2, ⟨[20], by decide⟩)]

def twoFilesMixed : List Bytes :=
  [[1, OP_SETUP, 0, 0, 0, 0, 0, 0, 0, 4, 0, 2],
    [2, OP_SETUP, 0, 0, 0, 0, 0, 0, 0, 1, 0, 2], [1, OP_FIRST_DATA, 10, 11],
    [2, OP_FIRST_AND_ONLY, 20], [1, OP_LAST_DATA, 12, 13]]

theorem two_files_arrive :
    (run FileTransferFlow.step .new (arriving twoFilesMixed)).2.Perm
      [.artworkBytes 1 [10, 11, 12, 13], .artworkBytes 2 [20]] := by
  refine files_arrive 14 twoFiles (by decide) twoFilesMixed ⟨?_, ?_⟩
  · intro entry hentry
    rcases List.mem_cons.mp hentry with rfl | hentry
    · decide
    · rw [List.mem_singleton.mp hentry]
      decide
  · intro packet hpacket
    have hknown : packet.head? = some 1 ∨ packet.head? = some 2 := by
      revert packet
      decide
    rcases hknown with hone | htwo
    · exact ⟨_, List.mem_cons_self, hone⟩
    · exact ⟨_, List.mem_cons_of_mem _ List.mem_cons_self, htwo⟩

end DeviceFileTransfer

end Iap2

end Bridgething
