/-
A sender and a receiver over a link: the window is never overrun, and with
everything delivered and every ack noted it never holds the sender back.
-/
import Bridgething.Lib.Credit
import Bridgething.Delivery.Sender

namespace Bridgething

namespace Delivery

open Gateway Transition

/-- What a sender sees of a receiver: what it does with a fragment, and whether
it acknowledges, and what else may happen to it. -/
structure Peer (ρ : Type) where
  recv : Nat → ρ → TransferFragment → ρ × Option UInt32
  Other : ρ → ρ → Prop

/-- Both ends of a transfer, with the fragments and the acks on their way. -/
structure Flow (ρ : Type) where
  acks : AckWindow
  stage : Stage
  fragments : List TransferFragment
  receiver : ρ
  receipts : List UInt32

inductive Happening
  | pace
  | grant
  | push (sent : Option TransferFragment)
  | stall
  | deliver
  | note
  | other

section Flows

variable {ρ : Type}

/-- The pacer gives any window within its bounds; a read gives any bytes, up to
what was asked; acks may overtake each other. -/
inductive Flow.Step (stream : FragmentStream) (peer : Peer ρ) :
    Flow ρ → Happening → Flow ρ → Prop
  | pace {s : Flow ρ} {walk : Walk} (window : Nat) (hstage : s.stage = .head walk)
      (hmin : MIN_WINDOW_BYTES ≤ window) (hmax : window ≤ MAX_WINDOW_BYTES) :
      Step stream peer s .pace { s with stage := .awaiting walk window }
  | grant {s : Flow ρ} {walk : Walk} {window : Nat}
      (hstage : s.stage = .awaiting walk window)
      (hwindow : s.acks.admits stream.transferId walk.streamOffset window) :
      Step stream peer s .grant { s with stage := .admitted walk window }
  | push {s : Flow ρ} {walk : Walk} {window : Nat}
      (read : Except String Bytes) (linkOpen : Bool)
      (hstage : s.stage = .admitted walk window)
      (hread : ∀ bytes, read = .ok bytes → bytes.length ≤ stream.want walk) :
      Step stream peer s (.push (stream.push walk read linkOpen).2)
        { s with
          stage := (stream.push walk read linkOpen).1
          fragments :=
            s.fragments ++ (stream.push walk read linkOpen).2.toList }
  | stall {s : Flow ρ} {walk : Walk} {window : Nat}
      (hstage : s.stage = .awaiting walk window)
      (hblocked :
        s.acks.admits stream.transferId walk.streamOffset window = false) :
      Step stream peer s .stall
        { s with
          stage := .done
            (.error (.stalled stream.transferId walk.streamOffset))
          acks := s.acks.finish stream.transferId }
  | deliver {s : Flow ρ} {fragment : TransferFragment}
      {rest : List TransferFragment} (now : Nat)
      (hflight : s.fragments = fragment :: rest) :
      Step stream peer s .deliver
        { s with
          fragments := rest
          receiver := (peer.recv now s.receiver fragment).1
          receipts :=
            s.receipts ++ (peer.recv now s.receiver fragment).2.toList }
  | note {s : Flow ρ} (received : UInt32) (hflight : received ∈ s.receipts) :
      Step stream peer s .note
        { s with
          acks := s.acks.note stream.transferId received.toNat
          receipts := s.receipts.erase received }
  | other {s : Flow ρ} (receiver : ρ) (hother : peer.Other s.receiver receiver) :
      Step stream peer s .other { s with receiver := receiver }

def Flow.start (stream : FragmentStream) (acks : AckWindow) (receiver : ρ) :
    Flow ρ where
  acks := acks.openAt stream.transferId stream.resumeFrom
  stage := stream.start
  fragments := []
  receiver := receiver
  receipts := []

/-- A step that hands the receiver only what it has room for. -/
def Flow.Roomy (stream : FragmentStream) (peer : Peer ρ)
    (Admits : ρ → TransferFragment → Prop) (s : Flow ρ) (label : Happening)
    (t : Flow ρ) : Prop :=
  Flow.Step stream peer s label t ∧
    (label = .deliver → ∀ fragment ∈ s.fragments.head?,
      Admits s.receiver fragment)

/-- The window holds the sender back. -/
def Flow.Blocked (stream : FragmentStream) (flow : Flow ρ) : Prop :=
  ∃ walk window, flow.stage = .awaiting walk window ∧
    flow.acks.admits stream.transferId walk.streamOffset window = false

end Flows

namespace AckWindow

variable {acks : AckWindow} {transferId : Uuid}

theorem receivedBytes_openAt (acks : AckWindow) (transferId : Uuid)
    (resumeFrom : Nat) :
    (acks.openAt transferId resumeFrom).receivedBytes transferId =
      max (acks.receivedBytes transferId) resumeFrom := by
  simp [openAt, receivedBytes]

theorem get?_openAt (acks : AckWindow) (transferId : Uuid) (resumeFrom : Nat) :
    ((acks.openAt transferId resumeFrom).get? transferId).isSome := by
  simp [openAt]

theorem receivedBytes_note (hopen : (acks.get? transferId).isSome)
    (received : Nat) :
    (acks.note transferId received).receivedBytes transferId =
        max (acks.receivedBytes transferId) received ∧
      ((acks.note transferId received).get? transferId).isSome := by
  obtain ⟨entry, hentry⟩ := Option.isSome_iff_exists.mp hopen
  simp [note, receivedBytes, hentry]

end AckWindow

section Pacing

variable {ρ : Type} {stream : FragmentStream} {peer : Peer ρ}
  {Admits : ρ → TransferFragment → Prop} {Track : ρ → Nat → Nat → Prop} {s t : Flow ρ} {label : Happening}

/-- A receiver that takes the stream from where it stands, and acknowledges by
the interval.  `Track` says where it stands and what it acknowledged last. -/
structure Paces (stream : FragmentStream) (peer : Peer ρ)
    (Admits : ρ → TransferFragment → Prop)
    (Track : ρ → Nat → Nat → Prop) : Prop where
  recv : ∀ now receiver fragment received marked,
    Track receiver received marked → Admits receiver fragment →
    fragment.transferId = stream.transferId →
    fragment.offset.toNat = received → fragment.bytes ≠ [] →
    received + fragment.bytes.length ≤ stream.total →
      let upto := received + fragment.bytes.length
      (Track (peer.recv now receiver fragment).1 upto marked ∧
          (peer.recv now receiver fragment).2 = none ∧
          upto < marked + ACK_INTERVAL_BYTES) ∨
        (Track (peer.recv now receiver fragment).1 upto upto ∧
          (∃ receipt : UInt32,
            (peer.recv now receiver fragment).2 = some receipt ∧
            receipt.toNat = upto) ∧ marked ≤ upto)
  other : ∀ receiver next received marked, Track receiver received marked →
    peer.Other receiver next → Track next received marked

/-- The fragments on their way fill the stream from one offset to another. -/
def Chained (transferId : Uuid) (total : Nat) :
    Nat → List TransferFragment → Nat → Prop
  | received, [], sent => received = sent
  | received, fragment :: rest, sent =>
      fragment.transferId = transferId ∧ fragment.offset.toNat = received ∧
        fragment.bytes ≠ [] ∧ received + fragment.bytes.length ≤ total ∧
        Chained transferId total (received + fragment.bytes.length) rest sent

theorem Chained.snoc {transferId : Uuid} {total received sent : Nat}
    {fragments : List TransferFragment}
    (h : Chained transferId total received fragments sent) {offset : UInt32}
    {bytes : Bytes} (hoffset : offset.toNat = sent) (hbytes : bytes ≠ [])
    (htotal : sent + bytes.length ≤ total) :
    Chained transferId total received
      (fragments ++ [⟨transferId, offset, bytes⟩]) (sent + bytes.length) := by
  induction fragments generalizing received with
  | nil =>
      have hsame : received = sent := h
      subst hsame
      exact ⟨rfl, hoffset, hbytes, htotal, rfl⟩
  | cons fragment rest ih =>
      obtain ⟨hid, hat, hsome, hle, hrest⟩ := h
      exact ⟨hid, hat, hsome, hle, ih hrest⟩

def Stage.walk? : Stage → Option Walk
  | .head walk => some walk
  | .awaiting walk _ => some walk
  | .admitted walk _ => some walk
  | .done _ => none

def endOffset (fragment : TransferFragment) : Nat :=
  fragment.offset.toNat + fragment.bytes.length

/-- The flow as one of acknowledged offsets. -/
def Flow.credit (stream : FragmentStream) (flow : Flow ρ) (sent marked : Nat) :
    Credit.State where
  sent := sent
  acked := flow.acks.receivedBytes stream.transferId
  inFlight := flow.fragments.map endOffset
  marked := marked
  acks := flow.receipts.map UInt32.toNat

/-- While the sender walks: where it stands, what is on the way, and that the
credit is kept. -/
structure Flow.Walking (stream : FragmentStream) (Track : ρ → Nat → Nat → Prop)
    (flow : Flow ρ) (walk : Walk) : Prop where
  stage : flow.stage.walk? = some walk
  inside : walk.Inside stream.total
  opened : (flow.acks.get? stream.transferId).isSome
  window : ∀ window, flow.stage = .awaiting walk window →
    MIN_WINDOW_BYTES ≤ window
  tracked : ∃ received marked, Track flow.receiver received marked ∧
    Chained stream.transferId stream.total received flow.fragments
      walk.streamOffset ∧
    Credit.Inv ACK_INTERVAL_BYTES
      (flow.credit stream walk.streamOffset marked)

def Flow.Kept (stream : FragmentStream) (Track : ρ → Nat → Nat → Prop)
    (flow : Flow ρ) : Prop :=
  flow.stage.walk? = none ∨ ∃ walk, flow.Walking stream Track walk

theorem interval_pos : 0 < ACK_INTERVAL_BYTES := by decide

/-- A flow whose stage has ended stays so. -/
theorem Flow.Step.ended (hstep : Flow.Step stream peer s label t)
    (hdone : s.stage.walk? = none) : t.stage.walk? = none := by
  cases hstep with
  | pace window hstage _ _ => simp [hstage, Stage.walk?] at hdone
  | grant hstage _ => simp [hstage, Stage.walk?] at hdone
  | push _ _ hstage _ => simp [hstage, Stage.walk?] at hdone
  | stall hstage _ => rfl
  | deliver _ _ => exact hdone
  | note _ _ => exact hdone
  | other _ _ => exact hdone

/-- A turn of the loop ends the run, or sends the next bytes of the stream. -/
theorem FragmentStream.push_cases (stream : FragmentStream) (walk : Walk)
    (read : Except String Bytes) (linkOpen : Bool) :
    ((stream.push walk read linkOpen).1.walk? = none ∧
      (stream.push walk read linkOpen).2 = none) ∨
    ∃ bytes, read = .ok bytes ∧ bytes ≠ [] ∧ walk.streamOffset < 2 ^ 32 ∧
      stream.push walk read linkOpen =
        (enter walk.ranges walk.rangeStart (walk.streamOffset + bytes.length)
            (walk.pushed + bytes.length),
          some ⟨stream.transferId, walk.streamOffset.toUInt32, bytes⟩) := by
  unfold FragmentStream.push
  by_cases hover : walk.streamOffset ≥ 2 ^ 32
  · rw [if_pos hover]
    exact Or.inl ⟨rfl, rfl⟩
  · rw [if_neg hover]
    cases read with
    | error reason => exact Or.inl ⟨rfl, rfl⟩
    | ok bytes =>
        by_cases hempty : bytes = []
        · simp [hempty, Stage.walk?]
        · cases linkOpen with
          | false => simp [hempty, Stage.walk?]
          | true =>
              right
              refine ⟨bytes, rfl, hempty, Nat.lt_of_not_le hover, ?_⟩
              simp [hempty]

/-- One step keeps the credit of a walking flow. -/
theorem Flow.Walking.step {walk : Walk} (hpaces : Paces stream peer Admits Track)
    (h : s.Walking stream Track walk)
    (hroomy : Flow.Roomy stream peer Admits s label t) : t.Kept stream Track := by
  obtain ⟨hstep, hadmits⟩ := hroomy
  obtain ⟨received, marked, htrack, hchained, hcredit⟩ := h.tracked
  have hwalk := h.stage
  cases hstep with
  | pace window hstage hmin hmax =>
      right
      have hsame := hwalk
      rw [hstage] at hsame
      refine ⟨walk, ?_, h.inside, h.opened, ?_, received, marked, htrack,
        hchained, hcredit⟩
      · exact hsame
      · intro other hother
        cases hother
        exact hmin
  | grant hstage hwindow =>
      right
      have hsame := hwalk
      rw [hstage] at hsame
      refine ⟨walk, hsame, h.inside, h.opened, ?_, received, marked, htrack,
        hchained, hcredit⟩
      intro other hother
      exact Stage.noConfusion hother
  | @push current window read linkOpen hstage hread =>
      simp only [hstage, Stage.walk?, Option.some.injEq] at hwalk
      rw [hwalk] at hread ⊢
      rcases stream.push_cases walk read linkOpen with ⟨hends, _⟩ |
        ⟨bytes, hok, hsome, hfits, hpush⟩
      · exact Or.inl hends
      · have hle : walk.streamOffset + bytes.length ≤ stream.total :=
          Nat.le_trans (Nat.add_le_add_left (hread bytes hok) _)
            h.inside.want_le
        rcases enter_cases walk.ranges walk.rangeStart
          (walk.streamOffset + bytes.length) (walk.pushed + bytes.length) with
          hdone | ⟨next, hhead, hoffset, _, hinside⟩
        · left
          simp only [hpush, hdone]
          rfl
        · right
          rw [h.inside.total] at hinside
          have hat : walk.streamOffset.toUInt32.toNat = walk.streamOffset :=
            UInt32.toNat_ofNat_of_lt' hfits
          simp only [hpush, hhead]
          refine ⟨next, rfl, hinside, h.opened, ?_, received, marked, htrack,
            ?_, ?_⟩
          · intro window hwindow
            exact Stage.noConfusion hwindow
          · rw [hoffset]
            exact hchained.snoc hat hsome hle
          · rw [hoffset]
            have hsent := hcredit.step interval_pos
              (Credit.Step.send (walk.streamOffset + bytes.length))
            simpa [Flow.credit, endOffset, hat] using hsent
  | stall hstage hblocked => exact Or.inl rfl
  | @deliver fragment rest now hflight =>
      right
      have hroom := hadmits rfl fragment (by rw [hflight]; rfl)
      rw [hflight] at hchained
      obtain ⟨hid, hoffset, hsome, hle, hrest⟩ := hchained
      have hend : endOffset fragment = received + fragment.bytes.length := by
        rw [endOffset, hoffset]
      have hflying : received + fragment.bytes.length ∈
          (s.credit stream walk.streamOffset marked).inFlight := by
        rw [Flow.credit, hflight, List.map_cons, hend]
        exact List.mem_cons_self
      rcases hpaces.recv now s.receiver fragment received marked htrack hroom
        hid hoffset hsome hle with ⟨hnext, hquiet, hnear⟩ |
          ⟨hnext, ⟨receipt, hsent, hreceipt⟩, hrise⟩
      · refine ⟨walk, hwalk, h.inside, h.opened, h.window, _, marked, hnext,
          hrest, ?_⟩
        have htaken := hcredit.step interval_pos
          (Credit.Step.quiet _ hflying hnear)
        simpa [Flow.credit, hquiet, hflight, hend] using htaken
      · refine ⟨walk, hwalk, h.inside, h.opened, h.window, _, _, hnext, hrest,
          ?_⟩
        have htaken := hcredit.step interval_pos
          (Credit.Step.ack _ hflying hrise)
        simpa [Flow.credit, hsent, hreceipt, hflight, hend] using htaken
  | note receipt hflight =>
      right
      obtain ⟨hraised, hopened⟩ :=
        AckWindow.receivedBytes_note h.opened receipt.toNat
      refine ⟨walk, hwalk, h.inside, hopened, h.window, received, marked,
        htrack, hchained, ?_⟩
      have hback : receipt.toNat ∈
          (s.credit stream walk.streamOffset marked).acks :=
        List.mem_map_of_mem hflight
      have hnoted := hcredit.step interval_pos (Credit.Step.note _ hback)
      have hinj : Function.Injective UInt32.toNat :=
        fun _ _ heq => UInt32.toNat_inj.mp heq
      rw [Flow.credit]
      simp only [Flow.credit] at hnoted
      rw [hraised, List.map_erase hinj]
      exact hnoted
  | other receiver hother =>
      right
      exact ⟨walk, hwalk, h.inside, h.opened, h.window, received, marked,
        hpaces.other _ _ _ _ htrack hother, hchained, hcredit⟩

/-- Every flow that is reached keeps its credit. -/
theorem run_kept {acks : AckWindow} {receiver : ρ} {labels : List Happening}
    (hpaces : Paces stream peer Admits Track) (htrack : Track receiver stream.resumeFrom 0)
    (hrun : Run (Flow.Roomy stream peer Admits)
      (Flow.start stream acks receiver) labels s) : s.Kept stream Track := by
  apply hrun.invariant
  · rintro s t label (hdone | ⟨walk, hwalking⟩) hroomy
    · exact Or.inl (hroomy.1.ended hdone)
    · exact hwalking.step hpaces hroomy
  · rcases enter_cases stream.ranges 0 stream.resumeFrom 0 with
      hdone | ⟨walk, hhead, hoffset, _, hinside⟩
    · left
      simp only [Flow.start, FragmentStream.start, hdone]
      rfl
    · right
      rw [Nat.zero_add] at hinside
      refine ⟨walk, ?_, hinside, AckWindow.get?_openAt _ _ _, ?_,
        stream.resumeFrom, 0, htrack, hoffset.symm, ?_, ?_⟩
      · simp only [Flow.start, FragmentStream.start, hhead]
        rfl
      · intro window hwindow
        simp only [Flow.start, FragmentStream.start, hhead] at hwindow
        exact Stage.noConfusion hwindow
      · left
        simp only [Flow.credit, Flow.start, AckWindow.receivedBytes_openAt,
          hoffset]
        exact Nat.le_max_right _ _
      · left
        exact Nat.zero_le _

/-- With everything delivered and noted the window is open. -/
theorem Flow.Kept.not_blocked (h : s.Kept stream Track)
    (htotal : stream.total < 2 ^ 32) (hfragments : s.fragments = [])
    (hreceipts : s.receipts = []) : ¬ s.Blocked stream := by
  rintro ⟨current, window, hstage, hblocked⟩
  rcases h with hdone | ⟨walk, hwalking⟩
  · rw [hstage] at hdone
    exact absurd hdone (Option.some_ne_none _)
  · have hsame := hwalking.stage
    simp only [hstage, Stage.walk?, Option.some.injEq] at hsame
    rw [hsame] at hstage hblocked
    obtain ⟨received, marked, _, _, hcredit⟩ := hwalking.tracked
    have hnear : walk.streamOffset <
        s.acks.receivedBytes stream.transferId + ACK_INTERVAL_BYTES :=
      hcredit.settled interval_pos (by simp [Flow.credit, hfragments])
        (by simp [Flow.credit, hreceipts])
    have hwindow : ACK_INTERVAL_BYTES ≤ window :=
      Nat.le_trans (by decide) (hwalking.window window hstage)
    obtain ⟨range, rest, hranges, hcurrent⟩ := hwalking.inside.current
    have htail := hwalking.inside.total
    simp only [hranges, totalLength, List.map_cons, List.sum_cons] at htail
    simp only [AckWindow.admits, decide_eq_false_iff_not] at hblocked
    omega

/-- The window that an admitted turn was granted still covers its offset. -/
def Flow.Granted (stream : FragmentStream) (flow : Flow ρ) : Prop :=
  match flow.stage with
  | .awaiting _ window => window ≤ MAX_WINDOW_BYTES
  | .admitted walk window => window ≤ MAX_WINDOW_BYTES ∧
      walk.streamOffset <
        flow.acks.receivedBytes stream.transferId + window
  | _ => True

theorem receivedBytes_note_le (acks : AckWindow) (transferId : Uuid)
    (received : Nat) :
    acks.receivedBytes transferId ≤
      (acks.note transferId received).receivedBytes transferId := by
  cases hentry : acks.get? transferId with
  | none => simp [AckWindow.note, AckWindow.receivedBytes, hentry]
  | some entry => simp [AckWindow.note, AckWindow.receivedBytes, hentry]

theorem Flow.Granted.step (h : s.Granted stream)
    (hstep : Flow.Step stream peer s label t) : t.Granted stream := by
  cases hstep with
  | pace window hstage hmin hmax => exact hmax
  | grant hstage hwindow =>
      rw [Flow.Granted, hstage] at h
      refine ⟨h, ?_⟩
      simp only [AckWindow.admits, decide_eq_true_eq] at hwindow
      exact Nat.lt_of_lt_of_le hwindow (Nat.min_le_left _ _)
  | @push current window read linkOpen hstage hread =>
      rcases stream.push_cases current read linkOpen with ⟨hends, _⟩ |
        ⟨bytes, _, _, _, hpush⟩
      · cases hnext : (stream.push current read linkOpen).1 with
        | done outcome => trivial
        | head walk => trivial
        | awaiting walk window => simp [hnext, Stage.walk?] at hends
        | admitted walk window => simp [hnext, Stage.walk?] at hends
      · rcases enter_cases current.ranges current.rangeStart
          (current.streamOffset + bytes.length)
          (current.pushed + bytes.length) with hdone | ⟨next, hhead, _⟩
        · simp [Flow.Granted, hpush, hdone]
        · simp [Flow.Granted, hpush, hhead]
  | stall hstage hblocked => exact trivial
  | deliver now hflight => exact h
  | note received hflight =>
      unfold Flow.Granted at h ⊢
      cases hstage : s.stage with
      | done outcome => trivial
      | head walk => trivial
      | awaiting walk window =>
          rw [hstage] at h
          exact h
      | admitted walk window =>
          rw [hstage] at h
          exact ⟨h.1, Nat.lt_of_lt_of_le h.2 (Nat.add_le_add_right
            (receivedBytes_note_le s.acks stream.transferId received.toNat) _)⟩
  | other receiver hother => exact h

/-- No fragment goes out past what is acked and the window. -/
theorem run_granted {acks : AckWindow} {receiver : ρ} {labels : List Happening}
    {fragment : TransferFragment}
    (hrun : Run (Flow.Step stream peer) (Flow.start stream acks receiver) labels
      s) (hstep : Flow.Step stream peer s (.push (some fragment)) t) :
    ∃ walk window, s.stage = .admitted walk window ∧
      window ≤ MAX_WINDOW_BYTES ∧
      fragment.offset.toNat <
        s.acks.receivedBytes stream.transferId + window := by
  have hgranted : s.Granted stream := by
    apply hrun.invariant
    · intro s t label hs hstep
      exact hs.step hstep
    · rcases enter_cases stream.ranges 0 stream.resumeFrom 0 with
        hdone | ⟨walk, hhead, _⟩
      · simp [Flow.Granted, Flow.start, FragmentStream.start, hdone]
      · simp [Flow.Granted, Flow.start, FragmentStream.start, hhead]
  generalize hlabel : Happening.push (some fragment) = label at hstep
  cases hstep with
  | @push walk window read linkOpen hstage hread =>
      rw [Flow.Granted, hstage] at hgranted
      refine ⟨walk, window, hstage, hgranted.1, ?_⟩
      rcases stream.push_cases walk read linkOpen with ⟨_, hnone⟩ |
        ⟨bytes, _, _, hfits, hpush⟩
      · rw [hnone] at hlabel
        cases hlabel
      · rw [hpush] at hlabel
        cases hlabel
        simp only
        rw [show walk.streamOffset.toUInt32.toNat = walk.streamOffset from
          UInt32.toNat_ofNat_of_lt' hfits]
        exact hgranted.2
  | _ => cases hlabel

end Pacing

end Delivery

end Bridgething
