/-
Over every run of the receiver: what collect answers, what is acknowledged, that
a failure stands, and that a stream in order is collected.
-/
import Bridgething.Delivery.Integrity

namespace Bridgething

namespace Delivery

open Gateway

/-- The entries keep their ledgers, and the buffer holds what came. -/
structure Sound (sha256Hex : Bytes → String) (state : State)
    (log : List Event) : Prop where
  kept : Kept sha256Hex (historyOf log) state
  held : ∀ entry ∈ state.buffer,
    entry.2.fragments.Sublist (historyOf log entry.1).fragments

section Histories

variable {log events : List Event} {transferId other : Uuid}

theorem historyOf_append (log events : List Event) (transferId : Uuid) :
    historyOf (log ++ events) transferId =
      (events.filter fun event => event.transferId = transferId).foldl
        History.see (historyOf log transferId) := by
  rw [historyOf, List.filter_append, List.foldl_append]
  rfl

/-- What concerns one transfer is nothing to the history of another. -/
theorem historyOf_other
    (habout : ∀ event ∈ events, event.transferId = transferId)
    (hother : other ≠ transferId) :
    historyOf (log ++ events) other = historyOf log other := by
  have hnone : (events.filter fun event => event.transferId = other) = [] := by
    apply List.filter_eq_nil_iff.mpr
    intro event hevent
    rw [habout event hevent]
    simp [Ne.symm hother]
  rw [historyOf_append, hnone, List.foldl_nil]

theorem historyOf_about
    (habout : ∀ event ∈ events, event.transferId = transferId) :
    historyOf (log ++ events) transferId =
      events.foldl History.see (historyOf log transferId) := by
  have hall : (events.filter fun event => event.transferId = transferId) =
      events := by
    apply List.filter_eq_self.mpr
    intro event hevent
    simp [habout event hevent]
  rw [historyOf_append, hall]

theorem foldl_see_acks (history : History) (acks : List UInt32) :
    ((acks.map fun received => TransferAck.mk transferId received).map
      Event.ack).foldl History.see history =
      { history with acks := history.acks ++ acks } := by
  induction acks generalizing history with
  | nil => simp
  | cons received rest ih =>
      simp only [List.map_cons, List.foldl_cons, ih, History.see,
        List.append_assoc, List.singleton_append]

end Histories

section Soundness

variable {sha256Hex : Bytes → String} {state after : State}
  {log next : List Event} {transferId : Uuid} {table : Table Uuid Pending}

/-- A call that only touches one transfer, and gives its new entry a ledger. -/
theorem Sound.at (h : Sound sha256Hex state log)
    (hlocal : Local transferId state after)
    (hothers : ∀ other, other ≠ transferId →
      historyOf next other = historyOf log other)
    (hacked : Acked (historyOf next transferId))
    (hledger : ∀ left, after.pending.get? transferId = some left →
      Ledger sha256Hex (historyOf next transferId) left)
    (hfragments : (historyOf log transferId).fragments.Sublist
      (historyOf next transferId).fragments) :
    Sound sha256Hex after next := by
  refine ⟨⟨?_, ?_⟩, ?_⟩
  · intro other pending hget
    by_cases hother : other = transferId
    · subst hother
      exact hledger pending hget
    · rw [hothers other hother]
      rw [hlocal.pending other hother] at hget
      exact h.kept.ledger other pending hget
  · intro other
    by_cases hother : other = transferId
    · subst hother
      exact hacked
    · rw [hothers other hother]
      exact h.kept.acked other
  · intro entry hentry
    rw [hlocal.buffer] at hentry
    have hheld := h.held entry hentry
    by_cases hother : entry.1 = transferId
    · rw [hother] at hheld ⊢
      exact hheld.trans hfragments
    · rw [hothers entry.1 hother]
      exact hheld

/-- The buffer may lose entries. -/
theorem Sound.shrink (h : Sound sha256Hex state log)
    (hpending : after.pending = state.pending)
    (hbuffer : ∀ entry ∈ after.buffer, entry ∈ state.buffer) :
    Sound sha256Hex after log := by
  refine ⟨⟨?_, h.kept.acked⟩, ?_⟩
  · intro other pending hget
    rw [hpending] at hget
    exact h.kept.ledger other pending hget
  · intro entry hentry
    exact h.held entry (hbuffer entry hentry)

theorem Sound.evictExpired (h : Sound sha256Hex state log) (now : Nat) :
    Sound sha256Hex (evictExpired now state) log := by
  refine h.shrink rfl ?_
  intro entry hentry
  exact List.mem_of_mem_filter hentry

/-- A settlement with an error keeps what there is. -/
theorem Sound.fail (h : Sound sha256Hex state log) (transferId : Uuid)
    (error : TransferReceiveError) :
    Sound sha256Hex (settle state transferId (.error error)).1 log := by
  apply h.at settle_local (fun _ _ => rfl) (h.kept.acked transferId) ?_
    (List.Sublist.refl _)
  intro left hleft
  cases hget : state.pending.get? transferId with
  | none =>
      rw [settle_absent hget, hget] at hleft
      exact absurd hleft (Option.some_ne_none _).symm
  | some pending =>
      have howned := h.kept.ledger transferId pending hget
      cases hopen : pending.terminal with
      | some _ =>
          rw [settle_settled hget (by simp [hopen])] at hleft
          exact h.kept.ledger transferId left hleft
      | none =>
          have hverdict : Verdict sha256Hex (historyOf log transferId)
              (.error error) := trivial
          exact settle_ledger pending hget hopen howned.declared hverdict left
            hleft

/-- The answers of a call are what collect promises. -/
def Answered (sha256Hex : Bytes → String) (log : List Event)
    (answers : List Answer) : Prop :=
  ∀ answer ∈ answers, Verdict sha256Hex (historyOf log answer.transferId)
    answer.outcome

theorem Answered.of_errors {answers : List Answer}
    (h : ∀ answer ∈ answers, ∃ error, answer.outcome = .error error) :
    Answered sha256Hex log answers := by
  intro answer hanswer
  obtain ⟨error, herror⟩ := h answer hanswer
  rw [herror]
  trivial

theorem dropped_errors {waiter : Option Call} :
    ∀ answer ∈ dropped transferId waiter,
      ∃ error, answer.outcome = .error error := by
  intro answer hanswer
  obtain ⟨call, _, rfl⟩ := List.mem_map.mp hanswer
  exact ⟨_, rfl⟩

theorem onFragment_registered {now : Nat} {fragment : TransferFragment}
    {pending : Pending}
    (hget : (evictExpired now state).pending.get? fragment.transferId =
      some pending) :
    state.onFragment sha256Hex now fragment =
      let reply := ingest sha256Hex (evictExpired now state) fragment.transferId
        fragment.offset fragment.bytes
      ⟨reply.1, reply.2.1, reply.2.2.toList.map fun received =>
        ⟨fragment.transferId, received⟩⟩ := by
  simp only [State.onFragment, hget, Option.isSome_some, ↓reduceIte]

theorem onFragment_unregistered {now : Nat} {fragment : TransferFragment}
    (hget : (evictExpired now state).pending.get? fragment.transferId = none) :
    state.onFragment sha256Hex now fragment =
      ⟨holdUnregistered now (evictExpired now state) fragment, [], []⟩ := by
  simp only [State.onFragment, hget, Option.isSome_none, Bool.false_eq_true,
    ↓reduceIte]

/-- The history a fragment leaves, with the ack it may bring. -/
theorem historyOf_fragment (log : List Event) (fragment : TransferFragment)
    (received : Option UInt32) :
    historyOf (log ++ ([.fragment fragment] ++
        (received.toList.map fun received =>
          TransferAck.mk fragment.transferId received).map Event.ack))
      fragment.transferId =
    (historyOf log fragment.transferId).after fragment.offset fragment.bytes
      received := by
  rw [historyOf_about, List.foldl_append, foldl_see_acks]
  · rfl
  · intro event hevent
    simp only [List.singleton_append, List.mem_cons, List.mem_map,
      exists_exists_and_eq_and] at hevent
    rcases hevent with rfl | ⟨received, _, rfl⟩
    · rfl
    · rfl

theorem about_fragment (fragment : TransferFragment) (acks : List UInt32) :
    ∀ event ∈ [Event.fragment fragment] ++
        (acks.map fun received =>
          TransferAck.mk fragment.transferId received).map Event.ack,
      event.transferId = fragment.transferId := by
  intro event hevent
  simp only [List.singleton_append, List.mem_cons, List.mem_map,
    exists_exists_and_eq_and] at hevent
  rcases hevent with rfl | ⟨received, _, rfl⟩
  · rfl
  · rfl

theorem Sound.seen (h : Sound sha256Hex state log)
    (fragment : TransferFragment) :
    Sound sha256Hex state (log ++ [.fragment fragment]) := by
  have hafter := historyOf_fragment log fragment none
  have hgrows := (historyOf log fragment.transferId).grows_after
    fragment.offset fragment.bytes
  simp only [Option.toList_none, List.map_nil, List.append_nil] at hafter
  refine h.at (Local.refl fragment.transferId state) ?_ ?_ ?_ ?_
  · intro other hother
    exact historyOf_other (by simp [Event.transferId]) hother
  · rw [hafter]
    exact (h.kept.acked _).grows hgrows
  · intro left hleft
    rw [hafter]
    exact (h.kept.ledger _ left hleft).grows hgrows
  · rw [hafter]
    exact hgrows.fragments

/-- A fragment that is held stands at the end of what its transfer holds. -/
theorem Sound.hold (h : Sound sha256Hex state log) (now : Nat)
    (fragment : TransferFragment) :
    Sound sha256Hex (holdUnregistered now state fragment)
      (log ++ [.fragment fragment]) := by
  have hseen := h.seen fragment
  simp only [holdUnregistered]
  split
  · exact hseen
  · refine ⟨⟨hseen.kept.ledger, hseen.kept.acked⟩, ?_⟩
    intro entry hentry
    rcases Table.mem_put hentry with rfl | hold
    · have hafter := historyOf_fragment log fragment none
      simp only [Option.toList_none, List.map_nil, List.append_nil] at hafter
      rw [hafter]
      apply List.Sublist.append _ (List.Sublist.refl _)
      cases hget : state.buffer.get? fragment.transferId with
      | none => exact List.nil_sublist _
      | some held => exact h.held _ (Table.mem_of_get? hget)
    · exact hseen.held entry hold

theorem onFragment_sound (h : Sound sha256Hex state log) (now : Nat)
    (fragment : TransferFragment) :
    let reply := state.onFragment sha256Hex now fragment
    let next := log ++ ([.fragment fragment] ++ reply.acks.map .ack)
    Sound sha256Hex reply.state next ∧
      Answered sha256Hex next reply.answers := by
  have hevicted := h.evictExpired now
  cases hget : (evictExpired now state).pending.get? fragment.transferId with
  | some pending =>
      obtain ⟨hacked, hledger, hanswers⟩ := ingest_ledger
        (hevicted.kept.acked fragment.transferId)
        (hevicted.kept.ledger fragment.transferId) fragment.offset fragment.bytes
      rw [onFragment_registered hget]
      constructor
      · refine hevicted.at (ingest_local fragment.offset fragment.bytes) ?_ ?_ ?_ ?_
        · intro other hother
          exact historyOf_other (about_fragment fragment _) hother
        · rw [historyOf_fragment]
          exact hacked
        · rw [historyOf_fragment]
          exact hledger
        · rw [historyOf_fragment]
          exact List.sublist_append_left _ _
      · intro answer hanswer
        obtain ⟨hid, hverdict⟩ := hanswers answer hanswer
        rw [hid, historyOf_fragment]
        exact hverdict
  | none =>
      rw [onFragment_unregistered hget]
      constructor
      · exact hevicted.hold now fragment
      · exact Answered.of_errors (by simp)

/-- What stands in the buffer is replayed into the entry that was opened. -/
theorem register_opening (sha256Hex : Bytes → String) {now : Nat} {transfer : TransferRef}
    (hget : (evictExpired now state).pending.get? transfer.id = none)
    (hzero : transfer.totalSize ≠ 0)
    (hcap : transfer.totalSize.toNat ≤ MAX_TRANSFER_BYTES) :
    ∃ opened : State, opened.pending = state.pending.put transfer.id
        ⟨transfer.totalSize, transfer.sha256, [], 0, none, none⟩ ∧
      (∀ entry ∈ opened.buffer, entry ∈ state.buffer) ∧
      (∀ other, other ≠ transfer.id → opened.buffer.get? other =
        (evictExpired now state).buffer.get? other) ∧
      let fragments := (((evictExpired now state).buffer.get? transfer.id).map
        Buffered.fragments).getD []
      let reply := replay sha256Hex transfer.id opened fragments
      state.register sha256Hex now transfer =
        ⟨reply.1, reply.2.1, reply.2.2.map fun received =>
          ⟨transfer.id, received⟩⟩ := by
  have hcap' : ¬ transfer.totalSize.toNat > MAX_TRANSFER_BYTES := by omega
  cases hheld : (evictExpired now state).buffer.get? transfer.id with
  | none =>
      refine ⟨{ evictExpired now state with
          pending := state.pending.put transfer.id
            ⟨transfer.totalSize, transfer.sha256, [], 0, none, none⟩ },
        rfl, fun _ hentry => List.mem_of_mem_filter hentry, fun _ _ => rfl, ?_⟩
      simp only [State.register, hget, hzero, hcap', hheld, Option.isSome_none,
        Bool.false_eq_true, ↓reduceIte]
      rfl
  | some held =>
      refine ⟨{ evictExpired now state with
          pending := state.pending.put transfer.id
            ⟨transfer.totalSize, transfer.sha256, [], 0, none, none⟩
          buffer := (evictExpired now state).buffer.remove transfer.id
          bufferedBytes := (evictExpired now state).bufferedBytes - held.bytes },
        rfl, ?_, ?_, ?_⟩
      · intro entry hentry
        exact List.mem_of_mem_filter (List.mem_of_mem_filter hentry)
      · intro other hother
        exact Table.get?_remove_of_ne _ hother
      · simp only [State.register, hget, hzero, hcap', hheld,
          Option.isSome_none, Bool.false_eq_true, ↓reduceIte]
        rfl

theorem register_refused {now : Nat} {transfer : TransferRef}
    {pending : Pending}
    (hget : (evictExpired now state).pending.get? transfer.id = some pending) :
    state.register sha256Hex now transfer =
      ⟨evictExpired now state, [], []⟩ := by
  simp only [State.register, hget, Option.isSome_some, ↓reduceIte]

/-- An empty transfer, and one over the cap, is settled when it is registered. -/
theorem register_settled (sha256Hex : Bytes → String) {now : Nat} {transfer : TransferRef}
    (hget : (evictExpired now state).pending.get? transfer.id = none)
    (hdone : transfer.totalSize = 0 ∨
      transfer.totalSize.toNat > MAX_TRANSFER_BYTES) :
    ∃ outcome : Collected,
      (transfer.totalSize = 0 ∧ outcome = .ok [] ∨ transfer.totalSize ≠ 0 ∧
        outcome = .error (.tooLarge transfer.id transfer.totalSize)) ∧
      state.register sha256Hex now transfer =
        ⟨{ evictExpired now state with
            pending := state.pending.put transfer.id
              ⟨transfer.totalSize, transfer.sha256, [], 0, none,
                some outcome⟩ }, [], []⟩ := by
  by_cases hzero : transfer.totalSize = 0
  · refine ⟨.ok [], Or.inl ⟨hzero, rfl⟩, ?_⟩
    simp only [State.register, hget, hzero, Option.isSome_none,
      Option.isSome_some, Bool.false_eq_true, ↓reduceIte]
    rfl
  · refine ⟨.error (.tooLarge transfer.id transfer.totalSize),
      Or.inr ⟨hzero, rfl⟩, ?_⟩
    simp only [State.register, hget, hzero, hdone.resolve_left hzero,
      Option.isSome_none, Option.isSome_some, Bool.false_eq_true, ↓reduceIte]
    rfl

/-- The history a registration leaves, with the acks of what it replays. -/
theorem historyOf_opened (log : List Event) (transfer : TransferRef)
    (acks : List UInt32) :
    historyOf (log ++ ([.opened transfer] ++
        (acks.map fun received =>
          TransferAck.mk transfer.id received).map Event.ack)) transfer.id =
      ⟨some transfer, (historyOf log transfer.id).fragments, acks⟩ := by
  rw [historyOf_about, List.foldl_append, foldl_see_acks]
  · rfl
  · intro event hevent
    simp only [List.singleton_append, List.mem_cons, List.mem_map,
      exists_exists_and_eq_and] at hevent
    rcases hevent with rfl | ⟨received, _, rfl⟩
    · rfl
    · rfl

theorem about_opened (transfer : TransferRef) (acks : List UInt32) :
    ∀ event ∈ [Event.opened transfer] ++
        (acks.map fun received =>
          TransferAck.mk transfer.id received).map Event.ack,
      event.transferId = transfer.id := by
  intro event hevent
  simp only [List.singleton_append, List.mem_cons, List.mem_map,
    exists_exists_and_eq_and] at hevent
  rcases hevent with rfl | ⟨received, _, rfl⟩
  · rfl
  · rfl

theorem Acked.fresh (declared : Option TransferRef)
    (fragments : List (UInt32 × Bytes)) : Acked ⟨declared, fragments, []⟩ :=
  ⟨List.Pairwise.nil, [], Assembled.nil _, by simp⟩

theorem settled_ledger {transfer : TransferRef} {outcome : Collected}
    {fragments : List (UInt32 × Bytes)}
    (houtcome : transfer.totalSize = 0 ∧ outcome = .ok [] ∨
      transfer.totalSize ≠ 0 ∧
        outcome = .error (.tooLarge transfer.id transfer.totalSize)) :
    Ledger sha256Hex ⟨some transfer, fragments, []⟩
      ⟨transfer.totalSize, transfer.sha256, [], 0, none, some outcome⟩ := by
  refine ⟨⟨transfer, rfl, rfl, rfl⟩, ?_, ?_⟩
  · intro kept hkept
    rw [← Option.some.inj hkept]
    rcases houtcome with ⟨hzero, rfl⟩ | ⟨_, rfl⟩
    · refine ⟨transfer, rfl, ?_, Assembled.nil _, ?_, ?_⟩
      · rw [hzero]
        rfl
      · exact fun hne => absurd hzero hne
      · exact fun hne => absurd hzero hne
    · trivial
  · intro habsurd
    exact absurd habsurd (Option.some_ne_none _)

theorem opened_ledger (sha256Hex : Bytes → String) {transfer : TransferRef}
    {left : Pending}
    (hpending : state.pending = table.put transfer.id
      ⟨transfer.totalSize, transfer.sha256, [], 0, none, none⟩)
    (hzero : transfer.totalSize ≠ 0)
    (hleft : state.pending.get? transfer.id = some left) :
    Ledger sha256Hex ⟨some transfer, [], []⟩ left := by
  rw [hpending, Table.get?_put_self, Option.some.injEq] at hleft
  rw [← hleft]
  refine ⟨⟨transfer, rfl, rfl, rfl⟩, ?_, ?_⟩
  · intro kept hkept
    exact absurd hkept (Option.some_ne_none _).symm
  · intro _
    refine ⟨?_, Assembled.nil _, rfl, Nat.le_refl _⟩
    apply Nat.pos_of_ne_zero
    intro hnat
    exact hzero (UInt32.toNat_inj.mp hnat)

theorem register_sound (h : Sound sha256Hex state log) (now : Nat)
    (transfer : TransferRef) :
    let reply := state.register sha256Hex now transfer
    let next := log ++ ((Op.register transfer).seen state ++
      reply.acks.map .ack)
    Sound sha256Hex reply.state next ∧
      Answered sha256Hex next reply.answers := by
  have hevicted := h.evictExpired now
  cases hget : (evictExpired now state).pending.get? transfer.id with
  | some pending =>
      have hopens : state.opens transfer = false := by
        have hstate : state.pending.get? transfer.id = some pending := hget
        simp [State.opens, hstate]
      rw [register_refused hget]
      simp only [Op.seen, hopens, Bool.false_eq_true, ↓reduceIte, List.map_nil,
        List.append_nil]
      exact ⟨hevicted, Answered.of_errors (by simp)⟩
  | none =>
      have hopens : state.opens transfer = true := by
        have hstate : state.pending.get? transfer.id = none := hget
        simp [State.opens, hstate]
      simp only [Op.seen, hopens, ↓reduceIte]
      by_cases hdone : transfer.totalSize = 0 ∨
          transfer.totalSize.toNat > MAX_TRANSFER_BYTES
      · obtain ⟨outcome, houtcome, hreply⟩ :=
          register_settled sha256Hex hget hdone
        have hopened := historyOf_opened log transfer []
        rw [hreply]
        simp only [List.map_nil] at hopened ⊢
        refine ⟨?_, Answered.of_errors (by simp)⟩
        refine hevicted.at (Local.put _ transfer.id _) ?_ ?_ ?_ ?_
        · intro other hother
          exact historyOf_other (about_opened transfer []) hother
        · rw [hopened]
          exact Acked.fresh _ _
        · intro left hleft
          rw [Table.get?_put_self, Option.some.injEq] at hleft
          rw [hopened, ← hleft]
          exact settled_ledger houtcome
        · rw [hopened]
      · push Not at hdone
        obtain ⟨opened, hpending, hbuffer, _, hreply⟩ :=
          register_opening sha256Hex hget hdone.1 hdone.2
        rw [hreply]
        refine ⟨?_, ?_⟩
        · have hbase : Sound sha256Hex
              { opened with pending := state.pending } log :=
            h.shrink rfl hbuffer
          have hlocal : Local transfer.id { opened with pending := state.pending }
              opened := by
            refine ⟨?_, rfl, rfl⟩
            intro other hother
            rw [hpending]
            exact Table.get?_put_of_ne _ _ hother
          have hheld : ((((evictExpired now state).buffer.get?
              transfer.id).map Buffered.fragments).getD []).Sublist
                (historyOf log transfer.id).fragments := by
            cases hheld : (evictExpired now state).buffer.get? transfer.id with
            | none => exact List.nil_sublist _
            | some held =>
                exact hevicted.held _ (Table.mem_of_get? hheld)
          obtain ⟨hacked, hledger⟩ := replay_ledger
            (Acked.fresh (some transfer) [])
            (fun left hleft => opened_ledger sha256Hex hpending hdone.1
              hleft)
            (((evictExpired now state).buffer.get? transfer.id).map
              Buffered.fragments |>.getD [])
          refine hbase.at (hlocal.trans (replay_local _)) ?_ ?_ ?_ ?_
          · intro other hother
            exact historyOf_other (about_opened transfer _) hother
          · rw [historyOf_opened]
            exact hacked.grows ⟨rfl, hheld, rfl⟩
          · intro left hleft
            rw [historyOf_opened]
            exact (hledger left hleft).grows ⟨rfl, hheld, rfl⟩
          · rw [historyOf_opened]
        · rw [replay_unwatched]
          · exact Answered.of_errors (by simp)
          · intro left hleft
            rw [hpending, Table.get?_put_self, Option.some.injEq] at hleft
            rw [← hleft]

/-- What a settlement with an error answers is an error. -/
theorem settle_error_answered (log : List Event)
    (error : TransferReceiveError) :
    Answered sha256Hex log (settle state transferId (.error error)).2 := by
  apply Answered.of_errors
  intro answer hanswer
  exact ⟨error, (settle_answers hanswer).2⟩

/-- An abandon lets what was held go, and settles what was registered. -/
theorem onAbandon_eq (state : State) (abandon : TransferAbandon) :
    ∃ released : State, released.pending = state.pending ∧
      (∀ entry ∈ released.buffer, entry ∈ state.buffer) ∧
      (∀ other, other ≠ abandon.transferId →
        released.buffer.get? other = state.buffer.get? other) ∧
      (state.onAbandon abandon =
          ⟨(settle released abandon.transferId (.error (.abandoned
              abandon.transferId abandon.reason))).1,
            (settle released abandon.transferId (.error (.abandoned
              abandon.transferId abandon.reason))).2, []⟩) := by
  cases hheld : state.buffer.get? abandon.transferId with
  | none =>
      refine ⟨state, rfl, fun _ hentry => hentry, fun _ _ => rfl, ?_⟩
      cases hget : state.pending.get? abandon.transferId with
      | none => simp [State.onAbandon, hheld, hget, settle_absent hget]
      | some pending => simp [State.onAbandon, hheld, hget]
  | some held =>
      refine ⟨{ state with
          buffer := state.buffer.remove abandon.transferId
          bufferedBytes := state.bufferedBytes - held.bytes },
        rfl, fun _ hentry => List.mem_of_mem_filter hentry,
        fun _ hother => Table.get?_remove_of_ne _ hother, ?_⟩
      cases hget : state.pending.get? abandon.transferId with
      | none => simp [State.onAbandon, hheld, hget, settle]
      | some pending => simp [State.onAbandon, hheld, hget]

theorem onAbandon_sound (h : Sound sha256Hex state log)
    (abandon : TransferAbandon) :
    Sound sha256Hex (state.onAbandon abandon).state log ∧
      Answered sha256Hex log (state.onAbandon abandon).answers ∧
      (state.onAbandon abandon).acks = [] := by
  obtain ⟨released, hpending, hbuffer, _, hreply⟩ := onAbandon_eq state abandon
  rw [hreply]
  have hreleased : Sound sha256Hex released log := h.shrink hpending hbuffer
  exact ⟨hreleased.fail _ _, settle_error_answered log _, rfl⟩

theorem Sound.forget (h : Sound sha256Hex state log) (transferId : Uuid) :
    Sound sha256Hex
      { state with pending := state.pending.remove transferId } log := by
  refine h.at (Local.remove state transferId) (fun _ _ => rfl)
    (h.kept.acked transferId) ?_ (List.Sublist.refl _)
  intro left hleft
  rw [Table.get?_remove_self] at hleft
  exact absurd hleft (Option.some_ne_none _).symm

theorem collect_sound (h : Sound sha256Hex state log) (call : Call)
    (transferId : Uuid) :
    Sound sha256Hex (state.collect call transferId).state log ∧
      Answered sha256Hex log (state.collect call transferId).answers ∧
      (state.collect call transferId).acks = [] := by
  cases hget : state.pending.get? transferId with
  | none =>
      simp only [State.collect, hget]
      refine ⟨h, ?_, trivial⟩
      apply Answered.of_errors
      intro answer hanswer
      rw [List.mem_singleton.mp hanswer]
      exact ⟨_, rfl⟩
  | some pending =>
      have howned := h.kept.ledger transferId pending hget
      cases hterminal : pending.terminal with
      | some terminal =>
          simp only [State.collect, hget, hterminal]
          refine ⟨h.forget transferId, ?_, trivial⟩
          intro answer hanswer
          rw [List.mem_singleton.mp hanswer]
          exact howned.terminal terminal hterminal
      | none =>
          simp only [State.collect, hget, hterminal]
          refine ⟨?_, Answered.of_errors dropped_errors, trivial⟩
          refine h.at (Local.put state transferId _) (fun _ _ => rfl)
            (h.kept.acked transferId) ?_ (List.Sublist.refl _)
          intro left hleft
          rw [Table.get?_put_self, Option.some.injEq] at hleft
          rw [← hleft]
          have hreceiving := howned.receiving hterminal
          refine ⟨howned.declared, ?_, ?_⟩
          · intro outcome houtcome
            exact absurd houtcome (Option.some_ne_none _).symm
          · intro _
            exact ⟨hreceiving.short, hreceiving.assembled,
              hreceiving.lastAcked, hreceiving.acked⟩

theorem collectTimeout_sound (h : Sound sha256Hex state log) (call : Call)
    (transferId : Uuid) :
    Sound sha256Hex (state.collectTimeout call transferId).state log ∧
      Answered sha256Hex log (state.collectTimeout call transferId).answers ∧
      (state.collectTimeout call transferId).acks = [] := by
  refine ⟨h.forget transferId, ?_, rfl⟩
  apply Answered.of_errors
  intro answer hanswer
  rcases List.mem_append.mp hanswer with hdropped | hown
  · exact dropped_errors answer hdropped
  · rw [List.mem_singleton.mp hown]
    exact ⟨_, rfl⟩

theorem stopEach_sound (ids : List Uuid) (h : Sound sha256Hex state log) :
    Sound sha256Hex (stopEach state ids).1 log ∧
      Answered sha256Hex log (stopEach state ids).2 := by
  induction ids generalizing state with
  | nil => exact ⟨h, Answered.of_errors (by simp [stopEach])⟩
  | cons transferId rest ih =>
      obtain ⟨hsound, hanswered⟩ := ih (h.fail transferId (.stopped transferId))
      refine ⟨hsound, ?_⟩
      intro answer hanswer
      rcases List.mem_append.mp hanswer with hsent | hlater
      · exact settle_error_answered log _ answer hsent
      · exact hanswered answer hlater

theorem stop_sound (h : Sound sha256Hex state log) :
    Sound sha256Hex state.stop.state log ∧
      Answered sha256Hex log state.stop.answers ∧ state.stop.acks = [] := by
  obtain ⟨hsound, hanswered⟩ := stopEach_sound state.pending.keys h
  exact ⟨hsound.shrink rfl (by simp [State.stop]), hanswered, rfl⟩

/-- One call keeps every ledger, and answers what collect promises. -/
theorem step_sound {world : World}
    (h : Sound sha256Hex world.state world.log) (label : Nat × Op) :
    let next := world.step sha256Hex label
    Sound sha256Hex next.state next.log ∧
      Answered sha256Hex next.log
        (world.state.apply sha256Hex label.1 label.2).answers := by
  obtain ⟨now, op⟩ := label
  cases op with
  | register transfer =>
      simp only [World.step, List.append_assoc]
      exact register_sound h now transfer
  | fragment fragment =>
      simp only [World.step, List.append_assoc]
      exact onFragment_sound h now fragment
  | abandon abandon =>
      obtain ⟨hsound, hanswered, hacks⟩ := onAbandon_sound h abandon
      simpa [World.step, State.apply, Op.seen, hacks] using ⟨hsound, hanswered⟩
  | collect call transferId =>
      obtain ⟨hsound, hanswered, hacks⟩ := collect_sound h call transferId
      simpa [World.step, State.apply, Op.seen, hacks] using ⟨hsound, hanswered⟩
  | collectTimeout call transferId =>
      obtain ⟨hsound, hanswered, hacks⟩ := collectTimeout_sound h call transferId
      simpa [World.step, State.apply, Op.seen, hacks] using ⟨hsound, hanswered⟩
  | stop =>
      obtain ⟨hsound, hanswered, hacks⟩ := stop_sound h
      simpa [World.step, State.apply, Op.seen, hacks] using ⟨hsound, hanswered⟩

/-- Every reachable state keeps its ledgers. -/
theorem run_sound (sha256Hex : Bytes → String) (labels : List (Nat × Op)) :
    let world := World.init.run sha256Hex labels
    Sound sha256Hex world.state world.log := by
  have hfrom : ∀ (labels : List (Nat × Op)) (world : World),
      Sound sha256Hex world.state world.log →
      Sound sha256Hex (world.run sha256Hex labels).state
        (world.run sha256Hex labels).log := by
    intro labels
    induction labels with
    | nil => exact fun world h => h
    | cons label rest ih =>
        intro world h
        exact ih _ (step_sound h label).1
  apply hfrom
  refine ⟨⟨?_, fun _ => Acked.fresh none []⟩, ?_⟩
  · intro transferId pending hget
    exact absurd hget (by simp [World.init, State.init])
  · intro entry hentry
    exact absurd hentry List.not_mem_nil

end Soundness

end Delivery

end Bridgething
