/-
The bytes of the SOCKS client: read by the core's `bridge` under a window that
nothing enforces before the first ack, written by the delivery's `write_loop`
and acknowledged by it or by `flush_loop`.
-/
import Bridgething.Tunnel.Inbound

namespace Bridgething

namespace Tunnel

open Gateway Delivery

/-- Where the core's reading loop stands; an admission remembers the total it
looked at. -/
inductive Reading
  | head
  | waiting
  | admitted (known window : Nat)
deriving DecidableEq, Repr

/-- One direction of a tunnel, with what is on its way.  `seen` is the version
of the total the loop last woke for; `known`, `granted` and `chunk` are the
total and the window of the last read and its size. -/
structure Outbound where
  consumed : Consumed := {}
  reading : Reading := .head
  seen : Nat := 0
  sent : Nat := 0
  known : Nat := 0
  granted : Nat := 0
  chunk : Nat := 0
  data : List Bytes := []
  writes : List Bytes := []
  written : Nat := 0
  delivered : Nat := 0
  receipts : List UInt32 := []

namespace Outbound

/-- One turn of the inner loop. -/
def look (s : Outbound) (window : Nat) : Reading :=
  if bridgeAdmits s.consumed.total s.sent window then
    .admitted s.consumed.total window
  else .waiting

inductive Step : Outbound → Outbound → Prop
  | pace {s : Outbound} (window : Nat) (hreading : s.reading = .head)
      (hmin : MIN_WINDOW_BYTES ≤ window) (hmax : window ≤ MAX_WINDOW_BYTES) :
      Step s { s with reading := s.look window }
  | wake {s : Outbound} (hreading : s.reading = .waiting)
      (hchanged : s.seen ≠ s.consumed.version) :
      Step s { s with reading := .head, seen := s.consumed.version }
  | read {s : Outbound} {known window : Nat} (bytes : Bytes)
      (hreading : s.reading = .admitted known window) (hsome : bytes ≠ [])
      (hfits : bytes.length ≤ READ_MAX_BYTES) :
      Step s
        { s with
          reading := .head
          sent := s.sent + bytes.length
          known := known
          granted := window
          chunk := bytes.length
          data := s.data ++ [bytes] }
  | arrive {s : Outbound} {bytes : Bytes} {rest : List Bytes}
      (hdata : s.data = bytes :: rest) :
      Step s { s with data := rest, writes := s.writes ++ [bytes] }
  | write {s : Outbound} {bytes : Bytes} {rest : List Bytes}
      (hwrites : s.writes = bytes :: rest) :
      Step s
        { s with
          writes := rest
          written := s.written + bytes.length
          delivered := (writeLoop s.delivered bytes).1
          receipts := s.receipts ++ (writeLoop s.delivered bytes).2.toList }
  | flush {s : Outbound} :
      Step s
        { s with
          delivered := (flushAck s.delivered).1
          receipts := s.receipts ++ (flushAck s.delivered).2.toList }
  | note {s : Outbound} {consumed : UInt32}
      (hreceipt : consumed ∈ s.receipts) :
      Step s
        { s with
          consumed := s.consumed.noteAck consumed
          receipts := s.receipts.erase consumed }

/-- The loop waits, and the total is the one it last woke for. -/
def Blocked (s : Outbound) : Prop :=
  s.reading = .waiting ∧ s.seen = s.consumed.version

/-- What holds of the direction at every moment. -/
structure Controlled (s : Outbound) : Prop where
  /-- Before the last read less was sent than the window allowed, unless no ack
  had come then. -/
  bounded : s.sent = 0 ∨ s.known = 0 ∨
    s.sent < s.consumed.total + s.granted + s.chunk
  reads : s.granted ≤ MAX_WINDOW_BYTES ∧ s.chunk ≤ READ_MAX_BYTES
  counted : s.consumed.total + (s.receipts.map UInt32.toNat).sum +
    s.delivered = s.written
  free : s.data = [] → s.writes = [] → s.receipts = [] →
    ¬ s.Blocked ∧ ∀ window, MIN_WINDOW_BYTES ≤ window →
      bridgeAdmits s.consumed.total s.sent window = true

/-- The direction as flow control by consumed amounts. -/
def deltas (s : Outbound) : Deltas.State where
  sent := s.sent
  pieces := (s.writes ++ s.data).map List.length
  written := s.written
  unacked := s.delivered
  acks := s.receipts.map UInt32.toNat
  acked := s.consumed.total

/-- What the steps keep. -/
structure Inv (s : Outbound) : Prop where
  fits : ∀ bytes ∈ s.writes ++ s.data, bytes.length ≤ READ_MAX_BYTES
  deltas : Deltas.Inv ACK_INTERVAL_BYTES s.deltas
  admitted : ∀ known window, s.reading = .admitted known window →
    known ≤ s.consumed.total ∧ window ≤ MAX_WINDOW_BYTES ∧
      (known = 0 ∨ s.sent < known + window)
  seen : s.seen ≤ s.consumed.version
  waiting : s.reading = .waiting → s.seen = s.consumed.version →
    s.consumed.total + MIN_WINDOW_BYTES ≤ s.sent
  bounded : s.sent = 0 ∨ s.known = 0 ∨
    s.sent < s.consumed.total + s.granted + s.chunk
  reads : s.granted ≤ MAX_WINDOW_BYTES ∧ s.chunk ≤ READ_MAX_BYTES

variable {s t : Outbound}

theorem Inv.start : Inv {} := by
  refine ⟨by simp, ?_, ?_, Nat.le_refl _, ?_, Or.inl rfl,
    ⟨Nat.zero_le _, Nat.zero_le _⟩⟩
  · exact Deltas.Inv.empty (by decide)
  · exact fun known window hreading => absurd hreading (by simp)
  · exact fun hreading => absurd hreading (by simp)

theorem Inv.looked (h : Inv s) {window : Nat}
    (hmin : MIN_WINDOW_BYTES ≤ window) (hmax : window ≤ MAX_WINDOW_BYTES) :
    Inv { s with reading := s.look window } := by
  refine ⟨h.fits, h.deltas, ?_, h.seen, ?_, h.bounded, h.reads⟩
  · intro known other hreading
    unfold look at hreading
    split at hreading
    · next hadmits =>
        simp only [Reading.admitted.injEq] at hreading
        obtain ⟨rfl, rfl⟩ := hreading
        simp only [bridgeAdmits, Bool.or_eq_true, decide_eq_true_eq] at hadmits
        exact ⟨Nat.le_refl _, hmax, hadmits⟩
    · cases hreading
  · intro hreading _
    unfold look at hreading
    split at hreading
    · cases hreading
    · next hblocked =>
        simp only [bridgeAdmits, Bool.or_eq_true, decide_eq_true_eq, not_or,
          not_lt] at hblocked
        exact (Nat.add_le_add_left hmin _).trans hblocked.2

theorem Inv.wake (h : Inv s) :
    Inv { s with reading := .head, seen := s.consumed.version } := by
  refine ⟨h.fits, h.deltas, ?_, Nat.le_refl _, ?_, h.bounded, h.reads⟩
  · exact fun known window hreading => absurd hreading (by simp)
  · exact fun hreading => absurd hreading (by simp)

theorem Inv.read (h : Inv s) {known window : Nat} {bytes : Bytes}
    (hreading : s.reading = .admitted known window)
    (hfits : bytes.length ≤ READ_MAX_BYTES) :
    Inv { s with
      reading := .head
      sent := s.sent + bytes.length
      known := known
      granted := window
      chunk := bytes.length
      data := s.data ++ [bytes] } := by
  obtain ⟨hknown, hmax, hunder⟩ := h.admitted known window hreading
  constructor
  · intro other hother
    simp only [List.mem_append, List.mem_singleton] at hother
    rcases hother with hold | hold | rfl
    · exact h.fits other (List.mem_append_left _ hold)
    · exact h.fits other (List.mem_append_right _ hold)
    · exact hfits
  · have hsent := h.deltas.step (.send bytes.length)
    simpa [Outbound.deltas] using hsent
  · exact fun other size hother => absurd hother (by simp)
  · exact h.seen
  · exact fun hother => absurd hother (by simp)
  · right
    rcases hunder with hnone | hunder
    · exact Or.inl hnone
    · right
      have hlt : s.sent + bytes.length <
          s.consumed.total + window + bytes.length := by omega
      exact hlt
  · exact ⟨hmax, hfits⟩

theorem Inv.arrive (h : Inv s) {bytes : Bytes} {rest : List Bytes}
    (hdata : s.data = bytes :: rest) :
    Inv { s with data := rest, writes := s.writes ++ [bytes] } := by
  have hpieces : s.writes ++ [bytes] ++ rest = s.writes ++ s.data := by
    rw [hdata, List.append_assoc, List.singleton_append]
  constructor
  · intro other hother
    exact h.fits other (hpieces ▸ hother)
  · have hsame := h.deltas
    unfold Outbound.deltas at hsame
    rw [← hpieces] at hsame
    exact hsame
  · exact h.admitted
  · exact h.seen
  · exact h.waiting
  · exact h.bounded
  · exact h.reads

theorem Inv.write (h : Inv s) {bytes : Bytes} {rest : List Bytes}
    (hwrites : s.writes = bytes :: rest) :
    Inv { s with
      writes := rest
      written := s.written + bytes.length
      delivered := (writeLoop s.delivered bytes).1
      receipts := s.receipts ++ (writeLoop s.delivered bytes).2.toList } := by
  have hmem : bytes ∈ s.writes ++ s.data := by simp [hwrites]
  have hpieces : s.deltas.pieces =
      bytes.length :: (rest ++ s.data).map List.length := by
    simp [Outbound.deltas, hwrites]
  have hsize : s.delivered + bytes.length < 2 ^ 32 := by
    have hnear : s.delivered < 16384 := h.deltas.near
    have hread : bytes.length ≤ 0x7ffff000 := h.fits bytes hmem
    omega
  constructor
  · intro other hother
    apply h.fits other
    rw [hwrites]
    exact List.mem_cons_of_mem _ hother
  · rcases writeLoop_cases hsize with ⟨heq, hnear⟩ | ⟨consumed, heq, hconsumed⟩
    · have hquiet := h.deltas.step (.quiet hpieces hnear)
      simpa [Outbound.deltas, heq] using hquiet
    · have hack := h.deltas.step (.ack hpieces)
      simpa [Outbound.deltas, heq, hconsumed] using hack
  · exact h.admitted
  · exact h.seen
  · exact h.waiting
  · exact h.bounded
  · exact h.reads

theorem Inv.flush (h : Inv s) :
    Inv { s with
      delivered := (flushAck s.delivered).1
      receipts := s.receipts ++ (flushAck s.delivered).2.toList } := by
  refine ⟨h.fits, ?_, h.admitted, h.seen, h.waiting, h.bounded, h.reads⟩
  have hsize : s.delivered < 2 ^ 32 := by
    have hnear : s.delivered < 16384 := h.deltas.near
    omega
  rcases flushAck_eq hsize with ⟨heq, hzero⟩ | ⟨consumed, heq, hconsumed⟩
  · have hsame := h.deltas
    simp only [Outbound.deltas, heq]
    simpa [Outbound.deltas, hzero] using hsame
  · have hflush := h.deltas.step .flush
    simpa [Outbound.deltas, heq, hconsumed] using hflush

theorem Inv.note (h : Inv s) {consumed : UInt32}
    (hreceipt : consumed ∈ s.receipts) :
    Inv { s with
      consumed := s.consumed.noteAck consumed
      receipts := s.receipts.erase consumed } := by
  have hmem : consumed.toNat ∈ s.deltas.acks :=
    List.mem_map.mpr ⟨consumed, hreceipt, rfl⟩
  have hseen := h.seen
  constructor
  · exact h.fits
  · have hnote := h.deltas.step (.note hmem)
    unfold Outbound.deltas at hnote ⊢
    rw [List.map_erase fun _ _ => UInt32.toNat_inj.mp]
    exact hnote
  · intro known window hreading
    obtain ⟨hknown, hmax, hunder⟩ := h.admitted known window hreading
    exact ⟨hknown.trans (Nat.le_add_right _ _), hmax, hunder⟩
  · exact hseen.trans (Nat.le_succ _)
  · intro _ hsame
    have hnext : s.seen = s.consumed.version + 1 := hsame
    omega
  · rcases h.bounded with hnone | hfirst | hunder
    · exact Or.inl hnone
    · exact Or.inr (Or.inl hfirst)
    · right; right
      simp only [Consumed.noteAck]
      omega
  · exact h.reads

theorem Inv.step (h : Inv s) (hstep : Step s t) : Inv t := by
  cases hstep with
  | pace window hreading hmin hmax => exact h.looked hmin hmax
  | wake hreading hchanged => exact h.wake
  | read bytes hreading hsome hfits => exact h.read hreading hfits
  | arrive hdata => exact h.arrive hdata
  | write hwrites => exact h.write hwrites
  | flush => exact h.flush
  | note hreceipt => exact h.note hreceipt

theorem Inv.controlled (h : Inv s) : Controlled s where
  bounded := h.bounded
  reads := h.reads
  counted := h.deltas.written.symm
  free := by
    intro hdata hwrites hreceipts
    have hsettled : s.sent < s.consumed.total + ACK_INTERVAL_BYTES := by
      apply h.deltas.settled
      · simp [Outbound.deltas, hdata, hwrites]
      · simp [Outbound.deltas, hreceipts]
    have hinterval := ACK_INTERVAL_le_MIN_WINDOW
    constructor
    · rintro ⟨hreading, hseen⟩
      have hheld := h.waiting hreading hseen
      omega
    · intro window hmin
      simp only [bridgeAdmits, Bool.or_eq_true, decide_eq_true_eq]
      right
      omega

theorem run_controlled (hrun : Relation.ReflTransGen Step {} s) :
    Controlled s := by
  have hinv : Inv s := by
    induction hrun with
    | refl => exact Inv.start
    | tail _ hstep ih => exact ih.step hstep
  exact hinv.controlled

end Outbound

end Tunnel

end Bridgething
