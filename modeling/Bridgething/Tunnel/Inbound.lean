/-
The bytes of the remote host: read by the delivery's `pump_loop` under its ack
window, written by the core's `bridge` and acknowledged from there.
-/
import Bridgething.Lib.Deltas
import Bridgething.Tunnel.Ends

namespace Bridgething

namespace Tunnel

open Gateway Delivery

/-- Where a loop that reads under a window stands.  One that waits does so for
more than it had when it looked. -/
inductive Gate
  | head
  | waiting (window beyond : Nat)
  | admitted (window : Nat)
deriving DecidableEq, Repr

/-- One direction of a tunnel, with what is on its way.  `granted` and
`fragment` are the window of the last read and its size. -/
structure Inbound where
  acks : AckWindow
  gate : Gate := .head
  sent : Nat := 0
  granted : Nat := 0
  fragment : Nat := 0
  data : List Bytes := []
  inbound : List Bytes := []
  written : Nat := 0
  unacked : UInt32 := 0
  receipts : List UInt32 := []

namespace Inbound

variable {tunnelId : Uuid}

def acked (tunnelId : Uuid) (s : Inbound) : Nat :=
  s.acks.receivedBytes tunnelId

/-- One look of `await_window`. -/
def look (tunnelId : Uuid) (s : Inbound) (window : Nat) : Gate :=
  if s.acks.admits tunnelId s.sent window then .admitted window
  else .waiting window (s.acked tunnelId)

/-- The pacer gives any window within its bounds, a read any bytes that fit the
buffer; acks may overtake each other, and other tunnels share the acks. -/
inductive Step (tunnelId : Uuid) : Inbound → Inbound → Prop
  | pace {s : Inbound} (window : Nat) (hgate : s.gate = .head)
      (hmin : MIN_WINDOW_BYTES ≤ window) (hmax : window ≤ MAX_WINDOW_BYTES) :
      Step tunnelId s { s with gate := s.look tunnelId window }
  | wake {s : Inbound} {window beyond : Nat}
      (hgate : s.gate = .waiting window beyond)
      (hprogress : beyond < s.acked tunnelId) :
      Step tunnelId s { s with gate := s.look tunnelId window }
  | read {s : Inbound} {window : Nat} (bytes : Bytes)
      (hgate : s.gate = .admitted window) (hsome : bytes ≠ [])
      (hfits : bytes.length ≤ FRAGMENT_BYTES) :
      Step tunnelId s
        { s with
          gate := .head
          sent := s.sent + bytes.length
          granted := window
          fragment := bytes.length
          data := s.data ++ [bytes] }
  | arrive {s : Inbound} {bytes : Bytes} {rest : List Bytes}
      (hdata : s.data = bytes :: rest)
      (hroom : s.inbound.length < TUNNEL_INBOUND_CAPACITY) :
      Step tunnelId s { s with data := rest, inbound := s.inbound ++ [bytes] }
  | write {s : Inbound} {bytes : Bytes} {rest : List Bytes}
      (hinbound : s.inbound = bytes :: rest) :
      Step tunnelId s
        { s with
          inbound := rest
          written := s.written + bytes.length
          unacked := (bridgeInbound s.unacked bytes).1
          receipts :=
            s.receipts ++ (bridgeInbound s.unacked bytes).2.toList }
  | flush {s : Inbound} (hcount : 0 < s.unacked) :
      Step tunnelId s
        { s with
          unacked := (sendAck s.unacked).1
          receipts := s.receipts ++ (sendAck s.unacked).2.toList }
  | note {s : Inbound} {consumed : UInt32} (hreceipt : consumed ∈ s.receipts) :
      Step tunnelId s
        { s with
          acks := dispatchAck s.acks tunnelId consumed
          receipts := s.receipts.erase consumed }
  | other {s : Inbound} (acks : AckWindow)
      (hsame : acks.get? tunnelId = s.acks.get? tunnelId) :
      Step tunnelId s { s with acks := acks }

/-- The tunnel is opened among others. -/
def start (tunnelId : Uuid) (acks : AckWindow) : Inbound where
  acks := acks.openAt tunnelId 0

/-- The loop waits, and nothing has come that it waits for. -/
def Blocked (tunnelId : Uuid) (s : Inbound) : Prop :=
  ∃ window beyond, s.gate = .waiting window beyond ∧
    s.acked tunnelId ≤ beyond

/-- What holds of the direction at every moment. -/
structure Controlled (tunnelId : Uuid) (s : Inbound) : Prop where
  /-- Before the last read less was sent than the window allowed. -/
  bounded : s.sent = 0 ∨
    s.sent < s.acked tunnelId + s.granted + s.fragment
  reads : s.granted ≤ MAX_WINDOW_BYTES ∧ s.fragment ≤ FRAGMENT_BYTES
  counted : s.acked tunnelId + (s.receipts.map UInt32.toNat).sum +
    s.unacked.toNat = s.written
  free : s.data = [] → s.inbound = [] → s.receipts = [] →
    s.sent < 2 ^ 64 - 1 →
      ¬ s.Blocked tunnelId ∧ ∀ window, MIN_WINDOW_BYTES ≤ window →
        s.acks.admits tunnelId s.sent window = true

/-- The direction as flow control by consumed amounts. -/
def deltas (tunnelId : Uuid) (s : Inbound) : Deltas.State where
  sent := s.sent
  pieces := (s.inbound ++ s.data).map List.length
  written := s.written
  unacked := s.unacked.toNat
  acks := s.receipts.map UInt32.toNat
  acked := s.acked tunnelId

/-- What the steps keep. -/
structure Inv (tunnelId : Uuid) (s : Inbound) : Prop where
  opened : (s.acks.get? tunnelId).isSome
  fits : ∀ bytes ∈ s.inbound ++ s.data, bytes.length ≤ FRAGMENT_BYTES
  deltas : Deltas.Inv ACK_INTERVAL_BYTES (s.deltas tunnelId)
  admitted : ∀ window, s.gate = .admitted window →
    s.sent < s.acked tunnelId + window ∧ window ≤ MAX_WINDOW_BYTES
  waiting : ∀ window beyond, s.gate = .waiting window beyond →
    MIN_WINDOW_BYTES ≤ window ∧ window ≤ MAX_WINDOW_BYTES ∧
      (beyond + window ≤ s.sent ∨ 2 ^ 64 - 1 ≤ s.sent)
  bounded : s.sent = 0 ∨
    s.sent < s.acked tunnelId + s.granted + s.fragment
  reads : s.granted ≤ MAX_WINDOW_BYTES ∧ s.fragment ≤ FRAGMENT_BYTES

variable {s t : Inbound}

theorem Inv.start {acks : AckWindow} (h : acks.get? tunnelId = none) :
    Inv tunnelId (start tunnelId acks) := by
  have hacked : (Inbound.start tunnelId acks).acked tunnelId = 0 := by
    simp [Inbound.start, acked, AckWindow.receivedBytes, AckWindow.openAt, h]
  refine ⟨by simp [Inbound.start, AckWindow.openAt], by simp [Inbound.start],
    ?_, ?_, ?_, Or.inl rfl, ⟨Nat.zero_le _, Nat.zero_le _⟩⟩
  · constructor
    · rfl
    · simp [Inbound.deltas, hacked]
      simp [Inbound.start]
    · exact Nat.lt_of_lt_of_eq (by decide : 0 < ACK_INTERVAL_BYTES) rfl
  · intro window hgate
    exact absurd hgate (by simp [Inbound.start])
  · intro window beyond hgate
    exact absurd hgate (by simp [Inbound.start])

/-- A look admits what the window allows, or waits for more than there is. -/
theorem Inv.looked (h : Inv tunnelId s) {window : Nat}
    (hmin : MIN_WINDOW_BYTES ≤ window) (hmax : window ≤ MAX_WINDOW_BYTES) :
    Inv tunnelId { s with gate := s.look tunnelId window } := by
  refine ⟨h.opened, h.fits, h.deltas, ?_, ?_, h.bounded, h.reads⟩
  · intro other hgate
    unfold look at hgate
    split at hgate
    · next hadmits =>
        simp only [Gate.admitted.injEq] at hgate
        rw [← hgate]
        simp only [AckWindow.admits, decide_eq_true_eq, lt_min_iff] at hadmits
        exact ⟨hadmits.1, hmax⟩
    · cases hgate
  · intro other beyond hgate
    unfold look at hgate
    split at hgate
    · cases hgate
    · next hblocked =>
        simp only [Gate.waiting.injEq] at hgate
        obtain ⟨rfl, rfl⟩ := hgate
        simp only [AckWindow.admits, decide_eq_true_eq, lt_min_iff,
          not_and_or, not_lt] at hblocked
        exact ⟨hmin, hmax, hblocked⟩

theorem acked_note (h : Inv tunnelId s) (consumed : UInt32)
    (receipts : List UInt32) :
    acked tunnelId { s with
      acks := dispatchAck s.acks tunnelId consumed
      receipts := receipts } = s.acked tunnelId + consumed.toNat :=
  (receivedBytes_dispatchAck h.opened consumed).1

theorem Inv.read (h : Inv tunnelId s) {window : Nat} {bytes : Bytes}
    (hgate : s.gate = .admitted window)
    (hfits : bytes.length ≤ FRAGMENT_BYTES) :
    Inv tunnelId { s with
      gate := .head
      sent := s.sent + bytes.length
      granted := window
      fragment := bytes.length
      data := s.data ++ [bytes] } := by
  obtain ⟨hunder, hmax⟩ := h.admitted window hgate
  constructor
  · exact h.opened
  · intro other hother
    simp only [List.mem_append, List.mem_singleton] at hother
    rcases hother with hold | hold | rfl
    · exact h.fits other (List.mem_append_left _ hold)
    · exact h.fits other (List.mem_append_right _ hold)
    · exact hfits
  · have hsent := h.deltas.step (.send bytes.length)
    simpa [Inbound.deltas, acked] using hsent
  · exact fun other hother => absurd hother (by simp)
  · exact fun other beyond hother => absurd hother (by simp)
  · right
    have hle : s.sent + bytes.length <
        s.acked tunnelId + window + bytes.length := by omega
    exact hle
  · exact ⟨hmax, hfits⟩

theorem Inv.arrive (h : Inv tunnelId s) {bytes : Bytes} {rest : List Bytes}
    (hdata : s.data = bytes :: rest) :
    Inv tunnelId { s with data := rest, inbound := s.inbound ++ [bytes] } := by
  have hpieces : s.inbound ++ [bytes] ++ rest = s.inbound ++ s.data := by
    rw [hdata, List.append_assoc, List.singleton_append]
  constructor
  · exact h.opened
  · intro other hother
    exact h.fits other (hpieces ▸ hother)
  · have hsame := h.deltas
    unfold Inbound.deltas at hsame
    rw [← hpieces] at hsame
    exact hsame
  · exact h.admitted
  · exact h.waiting
  · exact h.bounded
  · exact h.reads

theorem Inv.write (h : Inv tunnelId s) {bytes : Bytes} {rest : List Bytes}
    (hinbound : s.inbound = bytes :: rest) :
    Inv tunnelId { s with
      inbound := rest
      written := s.written + bytes.length
      unacked := (bridgeInbound s.unacked bytes).1
      receipts :=
        s.receipts ++ (bridgeInbound s.unacked bytes).2.toList } := by
  have hmem : bytes ∈ s.inbound ++ s.data := by simp [hinbound]
  have hpieces : (s.deltas tunnelId).pieces =
      bytes.length :: (rest ++ s.data).map List.length := by
    simp [Inbound.deltas, hinbound]
  constructor
  · exact h.opened
  · intro other hother
    apply h.fits other
    rw [hinbound]
    exact List.mem_cons_of_mem _ hother
  · rcases bridgeInbound_cases h.deltas.near (h.fits bytes hmem) with
      ⟨counted, heq, hcounted, hnear⟩ | ⟨consumed, heq, hconsumed⟩
    · have hquiet := h.deltas.step (.quiet hpieces hnear)
      simpa [Inbound.deltas, acked, heq, hcounted] using hquiet
    · have hack := h.deltas.step (.ack hpieces)
      simpa [Inbound.deltas, acked, heq, hconsumed] using hack
  · exact h.admitted
  · exact h.waiting
  · exact h.bounded
  · exact h.reads

theorem Inv.flush (h : Inv tunnelId s) :
    Inv tunnelId { s with
      unacked := (sendAck s.unacked).1
      receipts := s.receipts ++ (sendAck s.unacked).2.toList } := by
  refine ⟨h.opened, h.fits, ?_, h.admitted, h.waiting, h.bounded, h.reads⟩
  rcases sendAck_eq s.unacked with ⟨heq, hzero⟩ | heq
  · have hsame := h.deltas
    simpa [Inbound.deltas, acked, heq, hzero] using hsame
  · have hflush := h.deltas.step .flush
    simpa [Inbound.deltas, acked, heq] using hflush

theorem Inv.note (h : Inv tunnelId s) {consumed : UInt32}
    (hreceipt : consumed ∈ s.receipts) :
    Inv tunnelId { s with
      acks := dispatchAck s.acks tunnelId consumed
      receipts := s.receipts.erase consumed } := by
  have hacked := acked_note h consumed (s.receipts.erase consumed)
  have hmem : consumed.toNat ∈ (s.deltas tunnelId).acks :=
    List.mem_map.mpr ⟨consumed, hreceipt, rfl⟩
  constructor
  · exact (receivedBytes_dispatchAck h.opened consumed).2
  · exact h.fits
  · have hnote := h.deltas.step (.note hmem)
    unfold Inbound.deltas at hnote ⊢
    rw [hacked, List.map_erase fun _ _ => UInt32.toNat_inj.mp]
    exact hnote
  · intro window hgate
    rw [hacked]
    obtain ⟨hunder, hmax⟩ := h.admitted window hgate
    have hraised : s.sent < s.acked tunnelId + consumed.toNat + window := by
      omega
    exact ⟨hraised, hmax⟩
  · exact h.waiting
  · rw [hacked]
    rcases h.bounded with hnone | hunder
    · exact Or.inl hnone
    · right
      simp only
      omega
  · exact h.reads

/-- Other tunnels' acks change nothing here. -/
theorem Inv.other (h : Inv tunnelId s) {acks : AckWindow}
    (hsame : acks.get? tunnelId = s.acks.get? tunnelId) :
    Inv tunnelId { s with acks := acks } := by
  have hacked : acked tunnelId { s with acks := acks } = s.acked tunnelId := by
    simp [acked, AckWindow.receivedBytes, hsame]
  constructor
  · simpa [hsame] using h.opened
  · exact h.fits
  · have hdeltas := h.deltas
    unfold Inbound.deltas at hdeltas ⊢
    rw [hacked]
    exact hdeltas
  · intro window hgate
    rw [hacked]
    exact h.admitted window hgate
  · exact h.waiting
  · rw [hacked]
    exact h.bounded
  · exact h.reads

theorem Inv.step (h : Inv tunnelId s) (hstep : Step tunnelId s t) :
    Inv tunnelId t := by
  cases hstep with
  | pace window hgate hmin hmax => exact h.looked hmin hmax
  | wake hgate hprogress =>
      obtain ⟨hmin, hmax, -⟩ := h.waiting _ _ hgate
      exact h.looked hmin hmax
  | read bytes hgate hsome hfits => exact h.read hgate hfits
  | arrive hdata hroom => exact h.arrive hdata
  | write hinbound => exact h.write hinbound
  | flush hcount => exact h.flush
  | note hreceipt => exact h.note hreceipt
  | other acks hsame => exact h.other hsame

theorem Inv.controlled (h : Inv tunnelId s) : Controlled tunnelId s where
  bounded := h.bounded
  reads := h.reads
  counted := h.deltas.written.symm
  free := by
    intro hdata hinbound hreceipts hsmall
    have hsettled : s.sent < s.acked tunnelId + ACK_INTERVAL_BYTES := by
      apply h.deltas.settled
      · simp [Inbound.deltas, hdata, hinbound]
      · simp [Inbound.deltas, hreceipts]
    have hinterval := ACK_INTERVAL_le_MIN_WINDOW
    constructor
    · rintro ⟨window, beyond, hgate, hbeyond⟩
      obtain ⟨hmin, -, hheld | hheld⟩ := h.waiting window beyond hgate
      · omega
      · omega
    · intro window hmin
      simp only [AckWindow.admits, decide_eq_true_eq, lt_min_iff]
      have hunder : s.sent < s.acked tunnelId + window := by omega
      exact ⟨hunder, hsmall⟩

/-- The direction is controlled at every moment. -/
theorem run_controlled {acks : AckWindow} (hfresh : acks.get? tunnelId = none)
    (hrun : Relation.ReflTransGen (Step tunnelId) (start tunnelId acks) s) :
    Controlled tunnelId s := by
  have hinv : Inv tunnelId s := by
    induction hrun with
    | refl => exact Inv.start hfresh
    | tail _ hstep ih => exact ih.step hstep
  exact hinv.controlled

end Inbound

end Tunnel

end Bridgething
