/-
What collect hands over: the contiguous bytes of one transfer, of the declared
length and digest; and what was acknowledged on the way.
-/
import Bridgething.Delivery.Receiver

namespace Bridgething

namespace Delivery

open Gateway

/-- One call of the receiver. -/
inductive Op
  | register (transfer : TransferRef)
  | fragment (fragment : TransferFragment)
  | abandon (abandon : TransferAbandon)
  | collect (call : Call) (transferId : Uuid)
  | collectTimeout (call : Call) (transferId : Uuid)
  | stop
deriving Repr, DecidableEq

/-- What history keeps of a run: the transfers as they were taken up, the
fragments as they came and the acks as they went. -/
inductive Event
  | opened (transfer : TransferRef)
  | fragment (fragment : TransferFragment)
  | ack (ack : TransferAck)
deriving Repr, DecidableEq

def Event.transferId : Event → Uuid
  | .opened transfer => transfer.id
  | .fragment piece => piece.transferId
  | .ack receipt => receipt.transferId

/-- The history of one transfer id: what was last declared for it, the fragments
that came for it, and the acks since it was declared. -/
structure History where
  declared : Option TransferRef
  fragments : List (UInt32 × Bytes)
  acks : List UInt32
deriving Repr, DecidableEq

def History.see (history : History) : Event → History
  | .opened transfer => { history with declared := some transfer, acks := [] }
  | .fragment piece =>
      { history with
        fragments := history.fragments ++ [(piece.offset, piece.bytes)] }
  | .ack receipt =>
      { history with acks := history.acks ++ [receipt.received] }

def historyOf (log : List Event) (transferId : Uuid) : History :=
  (log.filter fun event => event.transferId = transferId).foldl History.see
    ⟨none, [], []⟩

structure World where
  state : State
  log : List Event

def World.init : World := ⟨State.init, []⟩

def State.apply (sha256Hex : Bytes → String) (state : State) (now : Nat) :
    Op → Reply
  | .register transfer => state.register sha256Hex now transfer
  | .fragment piece => state.onFragment sha256Hex now piece
  | .abandon abandon => state.onAbandon abandon
  | .collect call transferId => state.collect call transferId
  | .collectTimeout call transferId => state.collectTimeout call transferId
  | .stop => state.stop

def State.opens (state : State) (transfer : TransferRef) : Bool :=
  (state.pending.get? transfer.id).isNone

def Op.seen (state : State) : Op → List Event
  | .register transfer =>
      if state.opens transfer then [.opened transfer] else []
  | .fragment piece => [.fragment piece]
  | _ => []

/-- One operation, at its time. -/
def World.step (sha256Hex : Bytes → String) (world : World) (label : Nat × Op) :
    World :=
  let reply := world.state.apply sha256Hex label.1 label.2
  { state := reply.state
    log := world.log ++ label.2.seen world.state ++ reply.acks.map .ack }

def World.run (sha256Hex : Bytes → String) (world : World)
    (labels : List (Nat × Op)) : World :=
  labels.foldl (World.step sha256Hex) world

/-- Each fragment starts where the one before it ends. -/
def Contiguous : Nat → List (UInt32 × Bytes) → Prop
  | _, [] => True
  | start, (offset, bytes) :: rest =>
      offset.toNat = start ∧ Contiguous (start + bytes.length) rest

/-- The body is the concatenation of fragments at contiguous offsets from 0,
picked from `source` in its order. -/
def Assembled (source : List (UInt32 × Bytes)) (body : Bytes) : Prop :=
  ∃ fragments, fragments.Sublist source ∧ Contiguous 0 fragments ∧
    (fragments.map Prod.snd).flatten = body

/-- The acks rise, and never pass the contiguous bytes received. -/
structure Acked (history : History) : Prop where
  increasing : history.acks.Pairwise (· < ·)
  received : ∃ body, Assembled history.fragments body ∧
    ∀ received ∈ history.acks, received.toNat ≤ body.length

/-- What collect promises of a body.  An empty transfer is settled when it is
registered, and neither hashed nor acknowledged. -/
structure Delivered (sha256Hex : Bytes → String) (history : History)
    (transfer : TransferRef) (body : Bytes) : Prop where
  declared : history.declared = some transfer
  length : body.length = transfer.totalSize.toNat
  assembled : Assembled history.fragments body
  hashed : transfer.totalSize ≠ 0 → ∀ want, transfer.sha256 = some want →
    eqIgnoreAsciiCase (sha256Hex body) want = true
  acked : transfer.totalSize ≠ 0 →
    history.acks.getLast? = some transfer.totalSize

def Verdict (sha256Hex : Bytes → String) (history : History) :
    Collected → Prop
  | .ok body => ∃ transfer, Delivered sha256Hex history transfer body
  | .error _ => True

/-- A transfer that is still being assembled. -/
structure Receiving (history : History) (pending : Pending) : Prop where
  short : pending.buffer.length < pending.totalSize.toNat
  assembled : Assembled history.fragments pending.buffer
  lastAcked : pending.lastAcked = history.acks.getLastD 0
  acked : pending.lastAcked.toNat ≤ pending.buffer.length

/-- What the entry of a transfer owes to its history. -/
structure Ledger (sha256Hex : Bytes → String) (history : History)
    (pending : Pending) : Prop where
  declared : ∃ transfer, history.declared = some transfer ∧
    pending.totalSize = transfer.totalSize ∧ pending.sha256 = transfer.sha256
  terminal : ∀ outcome, pending.terminal = some outcome →
    Verdict sha256Hex history outcome
  receiving : pending.terminal = none → Receiving history pending

/-- Every entry keeps its ledger, and every history its acks. -/
structure Kept (sha256Hex : Bytes → String) (history : Uuid → History)
    (state : State) : Prop where
  ledger : ∀ transferId pending,
    state.pending.get? transferId = some pending →
      Ledger sha256Hex (history transferId) pending
  acked : ∀ transferId, Acked (history transferId)

section Fragments

variable {source other : List (UInt32 × Bytes)} {body bytes : Bytes}

theorem Contiguous.snoc {start : Nat} {fragments : List (UInt32 × Bytes)}
    (h : Contiguous start fragments) {offset : UInt32}
    (hoffset : offset.toNat =
      start + (fragments.map Prod.snd).flatten.length) (bytes : Bytes) :
    Contiguous start (fragments ++ [(offset, bytes)]) := by
  induction fragments generalizing start with
  | nil =>
      simp only [List.map_nil, List.flatten_nil, List.length_nil] at hoffset
      exact ⟨hoffset, trivial⟩
  | cons head rest ih =>
      refine ⟨h.1, ih h.2 ?_⟩
      simp only [List.map_cons, List.flatten_cons, List.length_append] at hoffset
      omega

theorem Assembled.nil (source : List (UInt32 × Bytes)) : Assembled source [] :=
  ⟨[], List.nil_sublist source, trivial, rfl⟩

theorem Assembled.mono (h : Assembled source body)
    (hsub : source.Sublist other) : Assembled other body := by
  obtain ⟨fragments, hfragments, hcontiguous, hbody⟩ := h
  exact ⟨fragments, hfragments.trans hsub, hcontiguous, hbody⟩

theorem Assembled.snoc (h : Assembled source body) {offset : UInt32}
    (hoffset : offset.toNat = body.length) (bytes : Bytes) :
    Assembled (source ++ [(offset, bytes)]) (body ++ bytes) := by
  obtain ⟨fragments, hfragments, hcontiguous, rfl⟩ := h
  refine ⟨fragments ++ [(offset, bytes)], ?_, ?_, ?_⟩
  · exact hfragments.append (List.Sublist.refl _)
  · apply hcontiguous.snoc
    omega
  · simp

end Fragments

section Settling

variable {sha256Hex : Bytes → String} {history : Uuid → History}
  {state : State} {pending : Pending} {transferId : Uuid}

/-- The first outcome of a transfer is kept for its collect, or handed to the
one that waits. -/
theorem settle_cases (hget : state.pending.get? transferId = some pending)
    (hopen : pending.terminal = none) (outcome : Collected) :
    (pending.waiter = none ∧ settle state transferId outcome =
      ({ state with
          pending := state.pending.put transferId
            { pending with buffer := [], terminal := some outcome } }, [])) ∨
    (∃ call, pending.waiter = some call ∧ settle state transferId outcome =
      ({ state with pending := state.pending.remove transferId },
        [⟨call, transferId, outcome⟩])) := by
  unfold settle
  simp only [hget, hopen, Option.isSome_none, Bool.false_eq_true, ↓reduceIte]
  cases hwaiter : pending.waiter with
  | none => exact Or.inl ⟨rfl, rfl⟩
  | some call => exact Or.inr ⟨call, rfl, rfl⟩

theorem settle_settled {outcome : Collected}
    (hget : state.pending.get? transferId = some pending)
    (hdone : pending.terminal.isSome) :
    settle state transferId outcome = (state, []) := by
  simp [settle, hget, hdone]

theorem settle_absent {outcome : Collected}
    (hget : state.pending.get? transferId = none) :
    settle state transferId outcome = (state, []) := by
  simp [settle, hget]

end Settling

section Taking

variable {pending : Pending} {offset : UInt32} {bytes : Bytes}

theorem toNat_toUInt32 {n : Nat} {bound : UInt32} (h : n ≤ bound.toNat) :
    n.toUInt32.toNat = n :=
  UInt32.toNat_ofNat_of_lt' (Nat.lt_of_le_of_lt h bound.toNat_lt)

/-- Acks keep an interval. -/
theorem receipt_due {received last : UInt32} (hle : last.toNat ≤ received.toNat) :
    RECEIPT_ACK_INTERVAL_BYTES ≤ received - last ↔
      last.toNat + ACK_INTERVAL_BYTES ≤ received.toNat := by
  have hinterval : RECEIPT_ACK_INTERVAL_BYTES.toNat = ACK_INTERVAL_BYTES := by
    decide
  rw [UInt32.le_iff_toNat_le, hinterval,
    UInt32.toNat_sub_of_le _ _ (UInt32.le_iff_toNat_le.mpr hle)]
  omega

/-- What a fragment can do to a transfer that is still short of its total. -/
theorem Pending.take_cases
    (hshort : pending.buffer.length < pending.totalSize.toNat)
    (offset : UInt32) (bytes : Bytes) :
    ((offset.toNat ≠ pending.buffer.length ∨
        pending.totalSize.toNat < (pending.buffer ++ bytes).length) ∧
      ((∃ expected, pending.take offset bytes = (.gap expected, pending)) ∨
        pending.take offset bytes = (.overflow, pending))) ∨
    (offset.toNat = pending.buffer.length ∧
      (pending.buffer ++ bytes).length = pending.totalSize.toNat ∧
      pending.take offset bytes =
        (.complete (pending.buffer ++ bytes), { pending with buffer := [] })) ∨
    (offset.toNat = pending.buffer.length ∧
      (pending.buffer ++ bytes).length < pending.totalSize.toNat ∧
      RECEIPT_ACK_INTERVAL_BYTES ≤
        (pending.buffer ++ bytes).length.toUInt32 - pending.lastAcked ∧
      pending.take offset bytes =
        (.ack (pending.buffer ++ bytes).length.toUInt32,
          { pending with
            buffer := pending.buffer ++ bytes
            lastAcked := (pending.buffer ++ bytes).length.toUInt32 })) ∨
    (offset.toNat = pending.buffer.length ∧
      (pending.buffer ++ bytes).length < pending.totalSize.toNat ∧
      ¬ RECEIPT_ACK_INTERVAL_BYTES ≤
        (pending.buffer ++ bytes).length.toUInt32 - pending.lastAcked ∧
      pending.take offset bytes =
        (.quiet, { pending with buffer := pending.buffer ++ bytes })) := by
  by_cases hgap : offset = pending.buffer.length.toUInt32
  case neg =>
    left
    constructor
    · left
      intro heq
      apply hgap
      rw [← UInt32.toNat_inj, heq, toNat_toUInt32 hshort.le]
    · left
      refine ⟨pending.buffer.length.toUInt32, ?_⟩
      simp only [Pending.take, ne_eq, hgap, not_false_eq_true, ↓reduceIte]
  have hoffset : offset.toNat = pending.buffer.length := by
    rw [hgap, toNat_toUInt32 hshort.le]
  by_cases hover :
      pending.buffer.length + bytes.length > pending.totalSize.toNat
  · left
    constructor
    · right
      rw [List.length_append]
      exact hover
    · right
      simp only [Pending.take, ne_eq, hgap, not_true_eq_false, ↓reduceIte,
        hover]
  right
  have hle : (pending.buffer ++ bytes).length ≤ pending.totalSize.toNat := by
    rw [List.length_append]
    omega
  by_cases hfull :
      (pending.buffer ++ bytes).length.toUInt32 = pending.totalSize
  · left
    refine ⟨hoffset, ?_, ?_⟩
    · rw [← hfull, toNat_toUInt32 hle]
    · simp only [Pending.take, ne_eq, hgap, not_true_eq_false, ↓reduceIte,
        hover, hfull]
  right
  have hlt : (pending.buffer ++ bytes).length < pending.totalSize.toNat := by
    apply Nat.lt_of_le_of_ne hle
    intro heq
    apply hfull
    rw [← UInt32.toNat_inj, toNat_toUInt32 hle, heq]
  by_cases hdue : RECEIPT_ACK_INTERVAL_BYTES ≤
      (pending.buffer ++ bytes).length.toUInt32 - pending.lastAcked
  · left
    refine ⟨hoffset, hlt, hdue, ?_⟩
    simp only [Pending.take, ne_eq, hgap, not_true_eq_false, ↓reduceIte, hover,
      hfull, ge_iff_le, hdue]
  · right
    refine ⟨hoffset, hlt, hdue, ?_⟩
    simp only [Pending.take, ne_eq, hgap, not_true_eq_false, ↓reduceIte, hover,
      hfull, ge_iff_le, hdue]

end Taking

/-- Nothing but the entry of one transfer has changed. -/
structure Local (transferId : Uuid) (before after : State) : Prop where
  pending : ∀ other, other ≠ transferId →
    after.pending.get? other = before.pending.get? other
  buffer : after.buffer = before.buffer
  bufferedBytes : after.bufferedBytes = before.bufferedBytes

theorem Local.refl (transferId : Uuid) (state : State) :
    Local transferId state state :=
  ⟨fun _ _ => rfl, rfl, rfl⟩

theorem Local.trans {transferId : Uuid} {first second third : State}
    (h : Local transferId first second) (hnext : Local transferId second third) :
    Local transferId first third where
  pending := fun other hother => by
    rw [hnext.pending other hother, h.pending other hother]
  buffer := hnext.buffer.trans h.buffer
  bufferedBytes := hnext.bufferedBytes.trans h.bufferedBytes

theorem Local.put (state : State) (transferId : Uuid) (pending : Pending) :
    Local transferId state
      { state with pending := state.pending.put transferId pending } :=
  ⟨fun _ hother => Table.get?_put_of_ne _ _ hother, rfl, rfl⟩

theorem Local.remove (state : State) (transferId : Uuid) :
    Local transferId state
      { state with pending := state.pending.remove transferId } :=
  ⟨fun _ hother => Table.get?_remove_of_ne _ hother, rfl, rfl⟩

section Frames

variable {sha256Hex : Bytes → String} {state : State}
  {transferId other : Uuid} {outcome : Collected}

theorem settle_local :
    Local transferId state (settle state transferId outcome).1 := by
  cases hget : state.pending.get? transferId with
  | none =>
      rw [settle_absent hget]
      exact Local.refl _ _
  | some pending =>
      cases hopen : pending.terminal with
      | some _ =>
          rw [settle_settled hget (by simp [hopen])]
          exact Local.refl _ _
      | none =>
          rcases settle_cases hget hopen outcome with ⟨_, hs⟩ | ⟨_, _, hs⟩
          · rw [hs]
            exact Local.put _ _ _
          · rw [hs]
            exact Local.remove _ _

theorem settle_answers {answer : Answer}
    (hmem : answer ∈ (settle state transferId outcome).2) :
    answer.transferId = transferId ∧ answer.outcome = outcome := by
  cases hget : state.pending.get? transferId with
  | none =>
      rw [settle_absent hget] at hmem
      exact absurd hmem List.not_mem_nil
  | some pending =>
      cases hopen : pending.terminal with
      | some _ =>
          rw [settle_settled hget (by simp [hopen])] at hmem
          exact absurd hmem List.not_mem_nil
      | none =>
          rcases settle_cases hget hopen outcome with ⟨_, hs⟩ | ⟨_, _, hs⟩
          · rw [hs] at hmem
            exact absurd hmem List.not_mem_nil
          · rw [hs] at hmem
            rw [List.mem_singleton.mp hmem]
            exact ⟨rfl, rfl⟩

theorem ingest_local (offset : UInt32) (bytes : Bytes) :
    Local transferId state
      (ingest sha256Hex state transferId offset bytes).1 := by
  cases hget : state.pending.get? transferId with
  | none =>
      simp only [ingest, hget]
      exact Local.refl _ _
  | some pending =>
      simp only [ingest, hget]
      split
      · exact Local.refl _ _
      · split
        case h_4 => exact Local.put _ _ _
        case h_5 => exact Local.put _ _ _
        all_goals exact (Local.put _ _ _).trans settle_local

theorem replay_local (fragments : List (UInt32 × Bytes)) :
    Local transferId state
      (replay sha256Hex transferId state fragments).1 := by
  induction fragments generalizing state with
  | nil => exact Local.refl _ _
  | cons head rest ih =>
      simp only [replay]
      split
      · exact Local.refl _ _
      · exact (ingest_local head.1 head.2).trans ih

end Frames

/-- A fragment that an open transfer does not take for its next bytes fails it;
otherwise it grows the transfer, or completes it. -/
theorem ingest_cases (sha256Hex : Bytes → String) {state : State}
    {pending : Pending} {transferId : Uuid}
    (hget : state.pending.get? transferId = some pending)
    (hopen : pending.terminal = none)
    (hshort : pending.buffer.length < pending.totalSize.toNat)
    (offset : UInt32) (bytes : Bytes) :
    ((offset.toNat ≠ pending.buffer.length ∨
        pending.totalSize.toNat < (pending.buffer ++ bytes).length) ∧
      ∃ error, ingest sha256Hex state transferId offset bytes =
        ((settle state transferId (.error error)).1,
          (settle state transferId (.error error)).2, none)) ∨
    (offset.toNat = pending.buffer.length ∧
      (pending.buffer ++ bytes).length = pending.totalSize.toNat ∧
      ∃ emptied : State, emptied = { state with
          pending := state.pending.put transferId { pending with buffer := [] } } ∧
        ingest sha256Hex state transferId offset bytes =
          ((settle emptied transferId (checked sha256Hex transferId
              pending.sha256 (pending.buffer ++ bytes))).1,
            (settle emptied transferId (checked sha256Hex transferId
              pending.sha256 (pending.buffer ++ bytes))).2,
            some pending.totalSize)) ∨
    (offset.toNat = pending.buffer.length ∧
      (pending.buffer ++ bytes).length < pending.totalSize.toNat ∧
      ∃ received lastAcked,
        (received = none ∧ lastAcked = pending.lastAcked ∧
            ¬ RECEIPT_ACK_INTERVAL_BYTES ≤
              (pending.buffer ++ bytes).length.toUInt32 - pending.lastAcked ∨
          received = some lastAcked ∧
            lastAcked = (pending.buffer ++ bytes).length.toUInt32 ∧
            RECEIPT_ACK_INTERVAL_BYTES ≤ lastAcked - pending.lastAcked) ∧
        ingest sha256Hex state transferId offset bytes =
          ({ state with
              pending := state.pending.put transferId
                { pending with
                  buffer := pending.buffer ++ bytes
                  lastAcked := lastAcked } }, [], received)) := by
  rcases Pending.take_cases hshort offset bytes with
    ⟨hwrong, ⟨expected, htake⟩ | htake⟩ | ⟨hoffset, hfull, htake⟩ |
      ⟨hoffset, hlt, hdue, htake⟩ | ⟨hoffset, hlt, hdue, htake⟩
  · left
    refine ⟨hwrong, .gap transferId expected offset, ?_⟩
    simp [ingest, hget, hopen, htake, Table.put_get? hget]
  · left
    refine ⟨hwrong, .overflow transferId, ?_⟩
    simp [ingest, hget, hopen, htake, Table.put_get? hget]
  · right; left
    refine ⟨hoffset, hfull, _, rfl, ?_⟩
    have htotal :
        (pending.buffer ++ bytes).length.toUInt32 = pending.totalSize := by
      rw [hfull, ← UInt32.toNat_inj, toNat_toUInt32 (Nat.le_refl _)]
    simp only [ingest, hget, hopen, htake, Option.isSome_none,
      Bool.false_eq_true, ↓reduceIte, htotal]
  · right; right
    refine ⟨hoffset, hlt, _, _, Or.inr ⟨rfl, rfl, hdue⟩, ?_⟩
    simp only [ingest, hget, hopen, htake, Option.isSome_none,
      Bool.false_eq_true, ↓reduceIte]
  · right; right
    refine ⟨hoffset, hlt, _, _, Or.inl ⟨rfl, rfl, hdue⟩, ?_⟩
    simp only [ingest, hget, hopen, htake, Option.isSome_none,
      Bool.false_eq_true, ↓reduceIte]

section Ledgers

variable {sha256Hex : Bytes → String} {history next : History}
  {pending : Pending} {body : Bytes} {outcome : Collected}

/-- A history with more fragments, and otherwise the same. -/
structure History.Grows (history next : History) : Prop where
  declared : next.declared = history.declared
  fragments : history.fragments.Sublist next.fragments
  acks : next.acks = history.acks

theorem Acked.grows (h : Acked history) (hgrows : history.Grows next) :
    Acked next := by
  obtain ⟨body, hassembled, hreceived⟩ := h.received
  constructor
  · rw [hgrows.acks]
    exact h.increasing
  · refine ⟨body, hassembled.mono hgrows.fragments, ?_⟩
    rw [hgrows.acks]
    exact hreceived

theorem Verdict.grows (h : Verdict sha256Hex history outcome)
    (hgrows : history.Grows next) : Verdict sha256Hex next outcome := by
  cases outcome with
  | error _ => trivial
  | ok body =>
      obtain ⟨transfer, hdelivered⟩ := h
      refine ⟨transfer, ?_, hdelivered.length,
        hdelivered.assembled.mono hgrows.fragments, hdelivered.hashed, ?_⟩
      · rw [hgrows.declared]
        exact hdelivered.declared
      · rw [hgrows.acks]
        exact hdelivered.acked

theorem Receiving.grows (h : Receiving history pending)
    (hgrows : history.Grows next) : Receiving next pending where
  short := h.short
  assembled := h.assembled.mono hgrows.fragments
  lastAcked := by
    rw [hgrows.acks]
    exact h.lastAcked
  acked := h.acked

theorem Ledger.grows (h : Ledger sha256Hex history pending)
    (hgrows : history.Grows next) : Ledger sha256Hex next pending where
  declared := by
    rw [hgrows.declared]
    exact h.declared
  terminal := fun outcome hterminal => (h.terminal outcome hterminal).grows hgrows
  receiving := fun hopen => (h.receiving hopen).grows hgrows

/-- The bytes so far may be acknowledged past the last ack. -/
theorem Acked.snoc (h : Acked history) {received : UInt32}
    (hassembled : Assembled history.fragments body)
    (hlast : (history.acks.getLastD 0).toNat < received.toNat)
    (hreceived : received.toNat ≤ body.length) :
    Acked { history with acks := history.acks ++ [received] } := by
  have hrise : ∀ old ∈ history.acks, old < received := by
    intro old hold
    obtain ⟨front, last, hsplit⟩ : ∃ front last, history.acks = front ++ [last] :=
      ⟨_, _, (List.dropLast_append_getLast (List.ne_nil_of_mem hold)).symm⟩
    have hincreasing := h.increasing
    rw [hsplit] at hold hincreasing hlast
    rw [List.getLastD_concat] at hlast
    have hlt : last < received := UInt32.lt_iff_toNat_lt.mpr hlast
    rcases List.mem_append.mp hold with hfront | hlast'
    · have := (List.pairwise_append.mp hincreasing).2.2 old hfront last
        List.mem_cons_self
      exact UInt32.lt_trans this hlt
    · rw [List.mem_singleton.mp hlast']
      exact hlt
  constructor
  · refine List.pairwise_append.mpr ⟨h.increasing, List.pairwise_singleton _ _, ?_⟩
    intro old hold new hnew
    rw [List.mem_singleton.mp hnew]
    exact hrise old hold
  · refine ⟨body, hassembled, ?_⟩
    intro ack hack
    rcases List.mem_append.mp hack with hold | hnew
    · have := UInt32.lt_iff_toNat_lt.mp (hrise ack hold)
      omega
    · rw [List.mem_singleton.mp hnew]
      exact hreceived

/-- The history of a transfer after one more fragment. -/
def History.after (history : History) (offset : UInt32) (bytes : Bytes)
    (received : Option UInt32) : History :=
  { history with
    fragments := history.fragments ++ [(offset, bytes)]
    acks := history.acks ++ received.toList }

theorem History.grows_after (history : History) (offset : UInt32)
    (bytes : Bytes) : history.Grows (history.after offset bytes none) where
  declared := rfl
  fragments := List.sublist_append_left _ _
  acks := List.append_nil _

theorem Acked.after (h : Acked history) {offset received : UInt32}
    {bytes : Bytes}
    (hassembled : Assembled (history.fragments ++ [(offset, bytes)]) body)
    (hlast : (history.acks.getLastD 0).toNat < received.toNat)
    (hreceived : received.toNat ≤ body.length) :
    Acked (history.after offset bytes (some received)) := by
  have hgrown := h.grows (history.grows_after offset bytes)
  rw [History.after, Option.toList_none, List.append_nil] at hgrown
  exact hgrown.snoc hassembled hlast hreceived

end Ledgers

section Ingesting

variable {sha256Hex : Bytes → String} {history : History} {state : State}
  {pending : Pending} {transferId : Uuid}

/-- What a settlement leaves of its transfer. -/
theorem settle_ledger (pending : Pending)
    (hget : state.pending.get? transferId = some pending)
    (hopen : pending.terminal = none)
    (hdeclared : ∃ transfer, history.declared = some transfer ∧
      pending.totalSize = transfer.totalSize ∧
      pending.sha256 = transfer.sha256)
    {outcome : Collected} (hverdict : Verdict sha256Hex history outcome) :
    ∀ left, (settle state transferId outcome).1.pending.get? transferId =
      some left → Ledger sha256Hex history left := by
  intro left hleft
  rcases settle_cases hget hopen outcome with ⟨_, hs⟩ | ⟨_, _, hs⟩
  · rw [hs, Table.get?_put_self, Option.some.injEq] at hleft
    rw [← hleft]
    constructor
    · exact hdeclared
    · intro kept hkept
      rw [← Option.some.inj hkept]
      exact hverdict
    · intro habsurd
      exact absurd habsurd (Option.some_ne_none _)
  · rw [hs, Table.get?_remove_self] at hleft
    exact absurd hleft (Option.some_ne_none _).symm

theorem checked_verdict {transfer : TransferRef} {body : Bytes}
    (hdeclared : history.declared = some transfer)
    (hlength : body.length = transfer.totalSize.toNat)
    (hassembled : Assembled history.fragments body)
    (hacked : history.acks.getLast? = some transfer.totalSize) :
    Verdict sha256Hex history
      (checked sha256Hex transferId transfer.sha256 body) := by
  cases hsha : transfer.sha256 with
  | none =>
      refine ⟨transfer, hdeclared, hlength, hassembled, ?_, fun _ => hacked⟩
      intro _ want hwant
      rw [hsha] at hwant
      exact absurd hwant (Option.some_ne_none _).symm
  | some want =>
      by_cases hmatch : eqIgnoreAsciiCase (sha256Hex body) want = true
      · simp only [checked, hmatch, ↓reduceIte]
        refine ⟨transfer, hdeclared, hlength, hassembled, ?_, fun _ => hacked⟩
        intro _ other hother
        rw [hsha, Option.some.injEq] at hother
        rw [← hother]
        exact hmatch
      · simp only [checked, hmatch, ↓reduceIte, Bool.false_eq_true]
        trivial

/-- A fragment keeps the ledger of its transfer; what it settles is a verdict. -/
theorem ingest_ledger (hacked : Acked history)
    (hledger : ∀ pending, state.pending.get? transferId = some pending →
      Ledger sha256Hex history pending) (offset : UInt32) (bytes : Bytes) :
    let reply := ingest sha256Hex state transferId offset bytes
    let next := history.after offset bytes reply.2.2
    Acked next ∧
      (∀ left, reply.1.pending.get? transferId = some left →
        Ledger sha256Hex next left) ∧
      ∀ answer ∈ reply.2.1, answer.transferId = transferId ∧
        Verdict sha256Hex next answer.outcome := by
  intro reply next
  have hgrows := history.grows_after offset bytes
  cases hget : state.pending.get? transferId with
  | none =>
      have hreply : reply = (state, [], none) := by
        simp only [reply, ingest, hget]
      rw [show next = history.after offset bytes none by simp only [next, hreply],
        hreply]
      refine ⟨hacked.grows hgrows, ?_, by simp⟩
      intro left hleft
      rw [hget] at hleft
      exact absurd hleft (Option.some_ne_none _).symm
  | some pending =>
      have howned := hledger pending hget
      cases hopen : pending.terminal with
      | some _ =>
          have hreply : reply = (state, [], none) := by
            simp only [reply, ingest, hget, hopen, Option.isSome_some,
              ↓reduceIte]
          rw [show next = history.after offset bytes none by
            simp only [next, hreply], hreply]
          refine ⟨hacked.grows hgrows, ?_, by simp⟩
          intro left hleft
          exact (hledger left hleft).grows hgrows
      | none =>
          have hreceiving := howned.receiving hopen
          obtain ⟨transfer, hdeclared, hsize, hsha⟩ := howned.declared
          rcases ingest_cases sha256Hex hget hopen hreceiving.short offset
            bytes with ⟨_, error, hs⟩ | ⟨hoffset, hfull, emptied, hemptied, hs⟩ |
              ⟨hoffset, hlt, received, lastAcked, hpace, hs⟩
          · have hreply : reply = _ := hs
            rw [show next = history.after offset bytes none by
              simp only [next, hreply], hreply]
            refine ⟨hacked.grows hgrows, ?_, ?_⟩
            · exact settle_ledger pending hget hopen (howned.grows hgrows).declared
                trivial
            · intro answer hanswer
              obtain ⟨hid, houtcome⟩ := settle_answers hanswer
              rw [houtcome]
              exact ⟨hid, trivial⟩
          · have hreply : reply = _ := hs
            rw [show next = history.after offset bytes (some pending.totalSize)
              by simp only [next, hreply], hreply]
            have hemptiedGet := Table.get?_put_self state.pending transferId
              { pending with buffer := [] }
            have hassembled := hreceiving.assembled.snoc hoffset bytes
            have hverdict : Verdict sha256Hex
                (history.after offset bytes (some pending.totalSize))
                (checked sha256Hex transferId pending.sha256
                  (pending.buffer ++ bytes)) := by
              rw [hsha]
              have hnext : (history.after offset bytes
                  (some pending.totalSize)).declared = some transfer := hdeclared
              apply checked_verdict hnext
              · rw [hfull, hsize]
              · exact hassembled
              · rw [hsize]
                exact List.getLast?_concat
            refine ⟨?_, ?_, ?_⟩
            · apply hacked.after hassembled
              · have hle := hreceiving.acked
                have hshort := hreceiving.short
                rw [← hreceiving.lastAcked]
                omega
              · rw [hfull]
            · subst hemptied
              intro left hleft
              have hkept : ∃ transfer, (history.after offset bytes
                    (some pending.totalSize)).declared = some transfer ∧
                  pending.totalSize = transfer.totalSize ∧
                  pending.sha256 = transfer.sha256 :=
                ⟨transfer, hdeclared, hsize, hsha⟩
              exact settle_ledger { pending with buffer := [] } hemptiedGet
                hopen hkept hverdict left hleft
            · intro answer hanswer
              obtain ⟨hid, houtcome⟩ := settle_answers hanswer
              rw [houtcome]
              exact ⟨hid, hverdict⟩
          · have hreply : reply = _ := hs
            have hassembled := hreceiving.assembled.snoc hoffset bytes
            rw [show next = history.after offset bytes received by
              simp only [next, hreply], hreply]
            have hgrown : Acked (history.after offset bytes received) ∧
                lastAcked = (history.after offset bytes received).acks.getLastD
                  0 ∧
                lastAcked.toNat ≤ (pending.buffer ++ bytes).length := by
              have hle := hreceiving.acked
              have hlen : (pending.buffer ++ bytes).length =
                  pending.buffer.length + bytes.length := List.length_append
              rcases hpace with ⟨rfl, rfl, _⟩ | ⟨rfl, hlast, hdue⟩
              · refine ⟨hacked.grows hgrows, ?_, by omega⟩
                simp only [History.after, Option.toList_none, List.append_nil]
                exact hreceiving.lastAcked
              · have hreach : lastAcked.toNat =
                    (pending.buffer ++ bytes).length := by
                  rw [hlast, toNat_toUInt32 hlt.le]
                refine ⟨?_, ?_, hreach.le⟩
                · refine hacked.after hassembled ?_ hreach.le
                  rw [← hreceiving.lastAcked]
                  have hpaced := (receipt_due (by omega)).mp hdue
                  have : 0 < ACK_INTERVAL_BYTES := by decide
                  omega
                · simp only [History.after, Option.toList_some,
                    List.getLastD_concat]
            refine ⟨hgrown.1, ?_, by simp⟩
            intro left hleft
            rw [Table.get?_put_self, Option.some.injEq] at hleft
            rw [← hleft]
            refine ⟨⟨transfer, hdeclared, hsize, hsha⟩, ?_, ?_⟩
            · intro outcome houtcome
              rw [hopen] at houtcome
              exact absurd houtcome (Option.some_ne_none _).symm
            · intro _
              exact ⟨hlt, hassembled, hgrown.2.1, hgrown.2.2⟩

/-- Without a waiting collect nothing is answered. -/
theorem settle_unwatched
    (hidle : ∀ pending, state.pending.get? transferId = some pending →
      pending.waiter = none) (outcome : Collected) :
    (settle state transferId outcome).2 = [] ∧
      ∀ left, (settle state transferId outcome).1.pending.get? transferId =
        some left → left.waiter = none := by
  cases hget : state.pending.get? transferId with
  | none =>
      rw [settle_absent hget]
      exact ⟨rfl, hidle⟩
  | some pending =>
      cases hopen : pending.terminal with
      | some _ =>
          rw [settle_settled hget (by simp [hopen])]
          exact ⟨rfl, hidle⟩
      | none =>
          rcases settle_cases hget hopen outcome with ⟨_, hs⟩ | ⟨call, hwait, _⟩
          · rw [hs]
            refine ⟨rfl, ?_⟩
            intro left hleft
            rw [Table.get?_put_self, Option.some.injEq] at hleft
            rw [← hleft]
            exact hidle pending hget
          · rw [hidle pending hget] at hwait
            exact absurd hwait (Option.some_ne_none _).symm

theorem Pending.take_waiter (pending : Pending) (offset : UInt32)
    (bytes : Bytes) : (pending.take offset bytes).2.waiter = pending.waiter := by
  simp only [Pending.take]
  repeat' split
  all_goals rfl

theorem ingest_unwatched (sha256Hex : Bytes → String)
    (hidle : ∀ pending, state.pending.get? transferId = some pending →
      pending.waiter = none) (offset : UInt32) (bytes : Bytes) :
    (ingest sha256Hex state transferId offset bytes).2.1 = [] ∧
      ∀ left, (ingest sha256Hex state transferId offset bytes).1.pending.get?
        transferId = some left → left.waiter = none := by
  cases hget : state.pending.get? transferId with
  | none =>
      simp only [ingest, hget]
      exact ⟨trivial, fun _ habsurd => absurd habsurd (by simp)⟩
  | some pending =>
      have hkept : ∀ left,
          (state.pending.put transferId (pending.take offset bytes).2).get?
            transferId = some left → left.waiter = none := by
        intro left hleft
        rw [Table.get?_put_self, Option.some.injEq] at hleft
        rw [← hleft, Pending.take_waiter]
        exact hidle pending hget
      simp only [ingest, hget]
      split
      · exact ⟨rfl, hidle⟩
      · split
        case h_4 => exact ⟨rfl, hkept⟩
        case h_5 => exact ⟨rfl, hkept⟩
        all_goals exact settle_unwatched hkept _

theorem replay_unwatched
    (hidle : ∀ pending, state.pending.get? transferId = some pending →
      pending.waiter = none) (fragments : List (UInt32 × Bytes)) :
    (replay sha256Hex transferId state fragments).2.1 = [] := by
  induction fragments generalizing state with
  | nil => rfl
  | cons head rest ih =>
      simp only [replay]
      split
      · rfl
      · obtain ⟨hnone, hnext⟩ := ingest_unwatched sha256Hex hidle head.1 head.2
        simp only [hnone, List.nil_append]
        exact ih hnext

theorem replay_ledger (hacked : Acked history)
    (hledger : ∀ pending, state.pending.get? transferId = some pending →
      Ledger sha256Hex history pending) (fragments : List (UInt32 × Bytes)) :
    let reply := replay sha256Hex transferId state fragments
    let next : History :=
      { history with
        fragments := history.fragments ++ fragments
        acks := history.acks ++ reply.2.2 }
    Acked next ∧
      ∀ left, reply.1.pending.get? transferId = some left →
        Ledger sha256Hex next left := by
  induction fragments generalizing state history with
  | nil =>
      simpa [replay] using ⟨hacked, hledger⟩
  | cons head rest ih =>
      simp only [replay]
      split
      · have hgrows : history.Grows
            { history with fragments := history.fragments ++ head :: rest } :=
          ⟨rfl, List.sublist_append_left _ _, rfl⟩
        simp only [List.append_nil]
        constructor
        · exact hacked.grows hgrows
        · intro left hleft
          exact (hledger left hleft).grows hgrows
      · obtain ⟨hnext, hleft, _⟩ := ingest_ledger hacked hledger head.1 head.2
        have hrest := ih hnext hleft
        simpa only [History.after, List.append_assoc, List.singleton_append]
          using hrest

end Ingesting

end Delivery

end Bridgething
