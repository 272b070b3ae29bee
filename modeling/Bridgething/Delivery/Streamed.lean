/-
A transfer that has failed stays failed, and one whose fragments come in order
is collected whole, wherever it is registered.
-/
import Bridgething.Lib.Transition
import Bridgething.Delivery.Collected

namespace Bridgething

namespace Delivery

open Gateway Transition

/-- The operation is about the transfer, or about every one. -/
def Op.concerns (transferId : Uuid) : Op → Bool
  | .register transfer => transfer.id = transferId
  | .fragment piece => piece.transferId = transferId
  | .abandon notice => notice.transferId = transferId
  | .collect _ collected => collected = transferId
  | .collectTimeout _ collected => collected = transferId
  | .stop => true

/-- The operation takes the transfer up anew. -/
def Op.opens (transferId : Uuid) (state : State) : Op → Bool
  | .register transfer => transfer.id = transferId ∧ state.opens transfer
  | _ => false

/-- Nothing is being assembled for the transfer, and no body waits for its
collect. -/
def Closed (transferId : Uuid) (state : State) : Prop :=
  ∀ pending, state.pending.get? transferId = some pending →
    ∃ error, pending.terminal = some (.error error)

section Elsewhere

variable {sha256Hex : Bytes → String} {state : State} {transferId : Uuid}

theorem ingest_answers {offset : UInt32} {bytes : Bytes} {answer : Answer}
    (hmem : answer ∈ (ingest sha256Hex state transferId offset bytes).2.1) :
    answer.transferId = transferId := by
  cases hget : state.pending.get? transferId with
  | none =>
      simp only [ingest, hget] at hmem
      exact absurd hmem List.not_mem_nil
  | some pending =>
      simp only [ingest, hget] at hmem
      split at hmem
      · exact absurd hmem List.not_mem_nil
      · split at hmem
        case h_4 => exact absurd hmem List.not_mem_nil
        case h_5 => exact absurd hmem List.not_mem_nil
        all_goals exact (settle_answers hmem).1

/-- An operation about other transfers does not touch this one. -/
theorem apply_elsewhere {op : Op} (helse : op.concerns transferId = false)
    (now : Nat) :
    (state.apply sha256Hex now op).state.pending.get? transferId =
      state.pending.get? transferId ∧
    ∀ answer ∈ (state.apply sha256Hex now op).answers,
      answer.transferId ≠ transferId := by
  cases op with
  | register transfer =>
      have hother : transferId ≠ transfer.id := by
        rintro rfl
        simp [Op.concerns] at helse
      simp only [State.apply]
      cases hget : (evictExpired now state).pending.get? transfer.id with
      | some pending =>
          rw [register_refused hget]
          exact ⟨rfl, by simp⟩
      | none =>
          by_cases hdone : transfer.totalSize = 0 ∨
              transfer.totalSize.toNat > MAX_TRANSFER_BYTES
          · obtain ⟨outcome, _, hreply⟩ := register_settled sha256Hex hget hdone
            rw [hreply]
            exact ⟨Table.get?_put_of_ne _ _ hother, by simp⟩
          · push Not at hdone
            obtain ⟨opened, hpending, _, _, hreply⟩ :=
              register_opening sha256Hex hget hdone.1 hdone.2
            rw [hreply]
            constructor
            · rw [(replay_local _).pending transferId hother, hpending]
              exact Table.get?_put_of_ne _ _ hother
            · rw [replay_unwatched]
              · simp
              · intro left hleft
                rw [hpending, Table.get?_put_self, Option.some.injEq] at hleft
                rw [← hleft]
  | fragment fragment =>
      have hother : transferId ≠ fragment.transferId := by
        rintro rfl
        simp [Op.concerns] at helse
      simp only [State.apply]
      cases hget : (evictExpired now state).pending.get? fragment.transferId with
      | some pending =>
          rw [onFragment_registered hget]
          constructor
          · exact (ingest_local _ _).pending transferId hother
          · intro answer hanswer
            rw [ingest_answers hanswer]
            exact Ne.symm hother
      | none =>
          rw [onFragment_unregistered hget]
          refine ⟨?_, by simp⟩
          simp only [holdUnregistered]
          split
          · rfl
          · rfl
  | abandon abandon =>
      have hother : transferId ≠ abandon.transferId := by
        rintro rfl
        simp [Op.concerns] at helse
      obtain ⟨released, hpending, _, _, hreply⟩ := onAbandon_eq state abandon
      simp only [State.apply, hreply]
      constructor
      · rw [settle_local.pending transferId hother, hpending]
      · intro answer hanswer
        rw [(settle_answers hanswer).1]
        exact Ne.symm hother
  | collect call collected =>
      have hother : transferId ≠ collected := by
        rintro rfl
        simp [Op.concerns] at helse
      simp only [State.apply]
      cases hget : state.pending.get? collected with
      | none => simp [State.collect, hget, Ne.symm hother]
      | some pending =>
          cases hterminal : pending.terminal with
          | some terminal =>
              simp only [State.collect, hget, hterminal]
              refine ⟨Table.get?_remove_of_ne _ hother, ?_⟩
              simp [Ne.symm hother]
          | none =>
              simp only [State.collect, hget, hterminal]
              refine ⟨Table.get?_put_of_ne _ _ hother, ?_⟩
              intro answer hanswer
              obtain ⟨_, _, rfl⟩ := List.mem_map.mp hanswer
              exact Ne.symm hother
  | collectTimeout call collected =>
      have hother : transferId ≠ collected := by
        rintro rfl
        simp [Op.concerns] at helse
      refine ⟨Table.get?_remove_of_ne _ hother, ?_⟩
      intro answer hanswer
      rcases List.mem_append.mp hanswer with hdropped | hown
      · obtain ⟨_, _, rfl⟩ := List.mem_map.mp hdropped
        exact Ne.symm hother
      · rw [List.mem_singleton.mp hown]
        exact Ne.symm hother
  | stop => exact absurd helse (by simp [Op.concerns])

end Elsewhere

section Failing

variable {sha256Hex : Bytes → String} {state : State} {transferId : Uuid}

/-- No answer brings a body of the transfer. -/
def Bodiless (transferId : Uuid) (answers : List Answer) : Prop :=
  ∀ answer ∈ answers, answer.transferId = transferId →
    ∃ error, answer.outcome = .error error

theorem Closed.of_get? {after : State} (h : Closed transferId state)
    (hget : after.pending.get? transferId = state.pending.get? transferId) :
    Closed transferId after := by
  intro pending hpending
  rw [hget] at hpending
  exact h pending hpending

theorem Closed.settled (h : Closed transferId state) (outcome : Collected) :
    settle state transferId outcome = (state, []) := by
  cases hget : state.pending.get? transferId with
  | none => exact settle_absent hget
  | some pending =>
      obtain ⟨error, herror⟩ := h pending hget
      exact settle_settled hget (by simp [herror])

theorem Closed.settle (h : Closed transferId state) (other : Uuid)
    (outcome : Collected) :
    Closed transferId (settle state other outcome).1 := by
  by_cases hother : transferId = other
  · subst hother
    rw [h.settled]
    exact h
  · exact h.of_get? (settle_local.pending transferId hother)

/-- A late fragment leaves a closed transfer as it is. -/
theorem Closed.ingested (h : Closed transferId state) (offset : UInt32)
    (bytes : Bytes) :
    ingest sha256Hex state transferId offset bytes = (state, [], none) := by
  cases hget : state.pending.get? transferId with
  | none => simp only [ingest, hget]
  | some pending =>
      obtain ⟨error, herror⟩ := h pending hget
      simp only [ingest, hget, herror, Option.isSome_some, ↓reduceIte]

theorem stopEach_closed (ids : List Uuid) (h : Closed transferId state) :
    Closed transferId (stopEach state ids).1 ∧
      Bodiless transferId (stopEach state ids).2 := by
  induction ids generalizing state with
  | nil => exact ⟨h, by simp [stopEach, Bodiless]⟩
  | cons other rest ih =>
      obtain ⟨hclosed, hbodiless⟩ := ih (h.settle other (.error (.stopped other)))
      refine ⟨hclosed, ?_⟩
      intro answer hanswer hid
      rcases List.mem_append.mp hanswer with hsent | hlater
      · exact ⟨_, (settle_answers hsent).2⟩
      · exact hbodiless answer hlater hid

theorem stop_closed (h : Closed transferId state) :
    Closed transferId state.stop.state ∧
      Bodiless transferId state.stop.answers :=
  stopEach_closed state.pending.keys h

/-- What is closed stays closed until it is taken up anew. -/
theorem apply_closed {op : Op} (h : Closed transferId state)
    (hopens : op.opens transferId state = false) (now : Nat) :
    Closed transferId (state.apply sha256Hex now op).state ∧
      Bodiless transferId (state.apply sha256Hex now op).answers := by
  cases helse : op.concerns transferId with
  | false =>
      obtain ⟨hget, hanswers⟩ := apply_elsewhere helse now
      refine ⟨h.of_get? hget, ?_⟩
      intro answer hanswer hid
      exact absurd hid (hanswers answer hanswer)
  | true =>
      cases op with
      | register transfer =>
          have hid : transfer.id = transferId := by
            simpa [Op.concerns] using helse
          subst hid
          cases hget : state.pending.get? transfer.id with
          | none => simp [Op.opens, State.opens, hget] at hopens
          | some pending =>
              have hevicted :
                  (evictExpired now state).pending.get? transfer.id =
                    some pending := hget
              simp only [State.apply, register_refused hevicted]
              exact ⟨h.of_get? rfl, by simp [Bodiless]⟩
      | fragment fragment =>
          have hid : fragment.transferId = transferId := by
            simpa [Op.concerns] using helse
          subst hid
          have hevicted : Closed fragment.transferId (evictExpired now state) :=
            h.of_get? rfl
          simp only [State.apply]
          cases hget : (evictExpired now state).pending.get?
              fragment.transferId with
          | some pending =>
              rw [onFragment_registered hget, hevicted.ingested]
              exact ⟨hevicted, by simp [Bodiless]⟩
          | none =>
              rw [onFragment_unregistered hget]
              refine ⟨h.of_get? ?_, by simp [Bodiless]⟩
              simp only [holdUnregistered]
              split
              · rfl
              · rfl
      | abandon abandon =>
          obtain ⟨released, hpending, _, _, hreply⟩ :=
            onAbandon_eq state abandon
          have hreleased : Closed transferId released :=
            h.of_get? (by rw [hpending])
          simp only [State.apply, hreply]
          constructor
          · exact hreleased.settle _ _
          · intro answer hanswer _
            exact ⟨_, (settle_answers hanswer).2⟩
      | collect call collected =>
          have hid : collected = transferId := by
            simpa [Op.concerns] using helse
          subst hid
          cases hget : state.pending.get? collected with
          | none =>
              simp only [State.apply, State.collect, hget]
              exact ⟨h, by simp [Bodiless]⟩
          | some pending =>
              obtain ⟨error, herror⟩ := h pending hget
              simp only [State.apply, State.collect, hget, herror]
              constructor
              · intro left hleft
                rw [Table.get?_remove_self] at hleft
                exact absurd hleft (Option.some_ne_none _).symm
              · simp [Bodiless]
      | collectTimeout call collected =>
          have hid : collected = transferId := by
            simpa [Op.concerns] using helse
          subst hid
          constructor
          · intro left hleft
            simp only [State.apply, State.collectTimeout,
              Table.get?_remove_self] at hleft
            exact absurd hleft (Option.some_ne_none _).symm
          · intro answer hanswer _
            rcases List.mem_append.mp hanswer with hdropped | hown
            · exact dropped_errors answer hdropped
            · rw [List.mem_singleton.mp hown]
              exact ⟨_, rfl⟩
      | stop => exact stop_closed h

/-- The steps that do not take the transfer up anew. -/
def Unopening (sha256Hex : Bytes → String) (transferId : Uuid) (state : State)
    (label : Nat × Op) (next : State) : Prop :=
  label.2.opens transferId state = false ∧
    next = (state.apply sha256Hex label.1 label.2).state

/-- Once a transfer has failed, nothing that comes makes it succeed. -/
theorem failure_stands {next : State} {labels : List (Nat × Op)}
    (h : Closed transferId state)
    (hrun : Run (Unopening sha256Hex transferId) state labels next)
    {label : Nat × Op} (hopens : label.2.opens transferId next = false) :
    Bodiless transferId (next.apply sha256Hex label.1 label.2).answers := by
  have hclosed : Closed transferId next := by
    apply hrun.invariant _ h
    rintro s t label hs ⟨hquiet, rfl⟩
    exact (apply_closed hs hquiet label.1).1
  exact (apply_closed hclosed hopens label.1).2

end Failing

/-- The operations about the transfer, in their order. -/
def opsOf (transferId : Uuid) (labels : List (Nat × Op)) : List Op :=
  (labels.map Prod.snd).filter fun op => op.concerns transferId

/-- The chunks at contiguous offsets. -/
def placed : Nat → List Bytes → List (UInt32 × Bytes)
  | _, [] => []
  | start, bytes :: rest =>
      (start.toUInt32, bytes) :: placed (start + bytes.length) rest

/-- The chunks as the fragments of a transfer. -/
def fragmentsFrom (transferId : Uuid) (start : Nat) (chunks : List Bytes) :
    List Op :=
  (placed start chunks).map fun piece =>
    .fragment ⟨transferId, piece.1, piece.2⟩

def Op.evicts : Op → Bool
  | .register _ => true
  | .fragment _ => true
  | _ => false

section Streaming

variable (sha256Hex : Bytes → String)

def State.run (state : State) : List (Nat × Op) → State
  | [] => state
  | label :: rest =>
      State.run (state.apply sha256Hex label.1 label.2).state rest

def State.answers (state : State) : List (Nat × Op) → List Answer
  | [] => []
  | label :: rest =>
      (state.apply sha256Hex label.1 label.2).answers ++
        State.answers (state.apply sha256Hex label.1 label.2).state rest

theorem State.answers_append (state : State) (front back : List (Nat × Op)) :
    state.answers sha256Hex (front ++ back) =
      state.answers sha256Hex front ++
        (state.run sha256Hex front).answers sha256Hex back := by
  induction front generalizing state with
  | nil => rfl
  | cons label rest ih =>
      simp only [List.cons_append, State.answers, State.run, ih,
        List.append_assoc]

/-- What is held for the transfer neither expires nor exceeds the budget. -/
def Fits (transferId : Uuid) (state : State) : List (Nat × Op) → Prop
  | [] => True
  | (now, op) :: rest =>
      (op.evicts → ∀ held, state.buffer.get? transferId = some held →
        held.expiresAt > now) ∧
      (∀ piece, op = .fragment piece → piece.transferId = transferId →
        (evictExpired now state).bufferedBytes + piece.bytes.length ≤
          PREREGISTRATION_BUDGET_BYTES) ∧
      Fits transferId (state.apply sha256Hex now op).state rest

end Streaming

section Held

variable {sha256Hex : Bytes → String} {state : State} {transferId : Uuid}

/-- The fragments held for a transfer. -/
def State.heldFor (state : State) (transferId : Uuid) :
    List (UInt32 × Bytes) :=
  ((state.buffer.get? transferId).map Buffered.fragments).getD []

theorem evictExpired_get? {now : Nat}
    (hlive : ∀ held, state.buffer.get? transferId = some held →
      held.expiresAt > now) :
    (evictExpired now state).buffer.get? transferId =
      state.buffer.get? transferId := by
  apply Table.get?_filter
  intro held hheld
  simpa using hlive held hheld

/-- An operation about other transfers leaves what this one holds, unless it
has expired. -/
theorem apply_heldFor {op : Op} (helse : op.concerns transferId = false)
    {now : Nat}
    (hlive : op.evicts → ∀ held, state.buffer.get? transferId = some held →
      held.expiresAt > now) :
    (state.apply sha256Hex now op).state.buffer.get? transferId =
      state.buffer.get? transferId := by
  cases op with
  | register transfer =>
      have hother : transferId ≠ transfer.id := by
        rintro rfl
        simp [Op.concerns] at helse
      have hkept := evictExpired_get? (hlive rfl)
      simp only [State.apply]
      cases hget : (evictExpired now state).pending.get? transfer.id with
      | some pending =>
          rw [register_refused hget]
          exact hkept
      | none =>
          by_cases hdone : transfer.totalSize = 0 ∨
              transfer.totalSize.toNat > MAX_TRANSFER_BYTES
          · obtain ⟨outcome, _, hreply⟩ := register_settled sha256Hex hget hdone
            rw [hreply]
            exact hkept
          · push Not at hdone
            obtain ⟨opened, _, _, hbuffer, hreply⟩ :=
              register_opening sha256Hex hget hdone.1 hdone.2
            rw [hreply, (replay_local _).buffer, hbuffer transferId hother]
            exact hkept
  | fragment fragment =>
      have hother : transferId ≠ fragment.transferId := by
        rintro rfl
        simp [Op.concerns] at helse
      have hkept := evictExpired_get? (hlive rfl)
      simp only [State.apply]
      cases hget : (evictExpired now state).pending.get? fragment.transferId with
      | some pending =>
          rw [onFragment_registered hget, (ingest_local _ _).buffer]
          exact hkept
      | none =>
          rw [onFragment_unregistered hget, ← hkept]
          simp only [holdUnregistered]
          split
          · rfl
          · exact Table.get?_put_of_ne _ _ hother
  | abandon abandon =>
      have hother : transferId ≠ abandon.transferId := by
        rintro rfl
        simp [Op.concerns] at helse
      obtain ⟨released, _, _, hbuffer, hreply⟩ := onAbandon_eq state abandon
      simp only [State.apply, hreply]
      rw [settle_local.buffer, hbuffer transferId hother]
  | collect call collected =>
      simp only [State.apply, State.collect]
      split
      · rfl
      · split
        · rfl
        · rfl
  | collectTimeout call collected => rfl
  | stop => exact absurd helse (by simp [Op.concerns])

end Held

section Stages

variable {sha256Hex : Bytes → String} {state : State} {transfer : TransferRef}
  {body sent rest : Bytes} {waiter : Option Call}

/-- How far a registered transfer has come: short of its total with the bytes
sent so far, or complete and kept for its collect. -/
inductive Progress (transfer : TransferRef) (body : Bytes) (state : State)
    (sent : Bytes) (waiter : Option Call) : Prop
  | receiving (lastAcked : UInt32)
      (short : sent.length < transfer.totalSize.toNat)
      (held : state.pending.get? transfer.id = some
        ⟨transfer.totalSize, transfer.sha256, sent, lastAcked, waiter, none⟩)
  | complete (pending : Pending) (all : sent = body) (idle : waiter = none)
      (held : state.pending.get? transfer.id = some pending)
      (terminal : pending.terminal = some (.ok body))

/-- The digest of the body is the one declared, if one is. -/
def Matches (sha256Hex : Bytes → String) (transfer : TransferRef)
    (body : Bytes) : Prop :=
  ∀ want, transfer.sha256 = some want →
    eqIgnoreAsciiCase (sha256Hex body) want = true

theorem checked_of_matches (h : Matches sha256Hex transfer body)
    (transferId : Uuid) :
    checked sha256Hex transferId transfer.sha256 body = .ok body := by
  cases hsha : transfer.sha256 with
  | none => rfl
  | some want => simp [checked, h want hsha]

/-- The waiting collect was handed the body. -/
def Handed (transfer : TransferRef) (body : Bytes) (waiter : Option Call)
    (answers : List Answer) : Prop :=
  ∃ call, waiter = some call ∧ ⟨call, transfer.id, .ok body⟩ ∈ answers

/-- The next bytes bring the transfer on, or complete it. -/
theorem ingest_progress (h : Progress transfer body state sent waiter)
    (hmatches : Matches sha256Hex transfer body)
    (hlength : body.length = transfer.totalSize.toNat) {bytes : Bytes}
    (hbody : sent ++ bytes ++ rest = body) :
    let reply := ingest sha256Hex state transfer.id sent.length.toUInt32 bytes
    Progress transfer body reply.1 (sent ++ bytes) waiter ∨
      Handed transfer body waiter reply.2.1 := by
  cases h with
  | complete pending hall hidle hheld hterminal =>
      left
      have hempty : bytes = [] := by
        have hlen := congrArg List.length hbody
        rw [hall] at hlen
        simp only [List.length_append] at hlen
        exact List.length_eq_zero_iff.mp (by omega)
      simp only [ingest, hheld, hterminal, Option.isSome_some, ↓reduceIte,
        hempty, List.append_nil]
      exact Progress.complete pending hall hidle hheld hterminal
  | receiving lastAcked hshort hheld =>
      have hlen := congrArg List.length hbody
      rw [hlength, List.length_append, List.length_append] at hlen
      have hoffset : sent.length.toUInt32.toNat = sent.length :=
        toNat_toUInt32 hshort.le
      rcases ingest_cases sha256Hex hheld rfl hshort sent.length.toUInt32
        bytes with ⟨hwrong, _⟩ | ⟨_, hfull, emptied, hemptied, hs⟩ |
          ⟨_, hlt, received, acked, _, hs⟩
      · simp only [List.length_append] at hwrong
        omega
      · have hrest : sent ++ bytes = body := by
          simp only [List.length_append] at hfull
          have hnil : rest = [] := List.length_eq_zero_iff.mp (by omega)
          rw [← hbody, hnil, List.append_nil]
        have hemptiedGet : emptied.pending.get? transfer.id = some
            ⟨transfer.totalSize, transfer.sha256, [], lastAcked, waiter,
              none⟩ := by
          rw [hemptied]
          exact Table.get?_put_self _ _ _
        rw [hs, hrest, checked_of_matches hmatches]
        rcases settle_cases hemptiedGet rfl (.ok body) with
          ⟨hidle, hsettled⟩ | ⟨call, hwaits, hsettled⟩
        · left
          rw [hsettled]
          exact Progress.complete _ rfl hidle (Table.get?_put_self _ _ _) rfl
        · right
          rw [hsettled]
          exact ⟨call, hwaits, List.mem_singleton_self _⟩
      · left
        rw [hs]
        exact Progress.receiving acked hlt (Table.get?_put_self _ _ _)

theorem replay_progress {chunks : List Bytes}
    (h : Progress transfer body state sent none)
    (hmatches : Matches sha256Hex transfer body)
    (hlength : body.length = transfer.totalSize.toNat)
    (hbody : sent ++ chunks.flatten ++ rest = body) :
    Progress transfer body
      (replay sha256Hex transfer.id state (placed sent.length chunks)).1
      (sent ++ chunks.flatten) none := by
  induction chunks generalizing state sent with
  | nil => simpa [placed, replay] using h
  | cons bytes later ih =>
      have hnext : sent ++ bytes ++ (later.flatten ++ rest) = body := by
        simpa using hbody
      have htaken := ingest_progress h hmatches hlength hnext
      simp only [placed, replay]
      split
      case isTrue hdone =>
        cases h with
        | receiving lastAcked hshort hheld => simp [hheld] at hdone
        | complete pending hall hidle hheld hterminal =>
            refine Progress.complete pending ?_ rfl hheld hterminal
            have hlen := congrArg List.length hbody
            rw [hall] at hlen ⊢
            simp only [List.length_append] at hlen
            have hnil : (bytes :: later).flatten = [] :=
              List.length_eq_zero_iff.mp (by omega)
            rw [hnil, List.append_nil]
      case isFalse =>
        rcases htaken with hon | ⟨call, hwaits, _⟩
        · have hgoal := ih hon (by simpa using hbody)
          simpa [List.length_append] using hgoal
        · exact absurd hwaits (Option.some_ne_none call).symm

/-- A later label that concerns other transfers leaves the progress. -/
theorem Progress.elsewhere {op : Op}
    (h : Progress transfer body state sent waiter)
    (helse : op.concerns transfer.id = false) (now : Nat) :
    Progress transfer body (state.apply sha256Hex now op).state sent waiter := by
  have hget : (state.apply sha256Hex now op).state.pending.get? transfer.id =
      state.pending.get? transfer.id := (apply_elsewhere helse now).1
  cases h with
  | receiving lastAcked hshort hheld =>
      exact Progress.receiving lastAcked hshort (hget.trans hheld)
  | complete pending hall hidle hheld hterminal =>
      exact Progress.complete pending hall hidle (hget.trans hheld) hterminal

theorem Progress.evictExpired (h : Progress transfer body state sent waiter)
    (now : Nat) :
    Progress transfer body (evictExpired now state) sent waiter := by
  cases h with
  | receiving lastAcked hshort hheld =>
      exact Progress.receiving lastAcked hshort hheld
  | complete pending hall hidle hheld hterminal =>
      exact Progress.complete pending hall hidle hheld hterminal

theorem Progress.registered (h : Progress transfer body state sent waiter) :
    ∃ pending, state.pending.get? transfer.id = some pending := by
  cases h with
  | receiving lastAcked hshort hheld => exact ⟨_, hheld⟩
  | complete pending hall hidle hheld hterminal => exact ⟨_, hheld⟩

/-- The fragments of a registered transfer, among whatever else happens, bring
it to their end, or hand it over. -/
theorem run_progress {labels : List (Nat × Op)} {chunks : List Bytes}
    (h : Progress transfer body state sent waiter)
    (hmatches : Matches sha256Hex transfer body)
    (hlength : body.length = transfer.totalSize.toNat)
    (hops : opsOf transfer.id labels =
      fragmentsFrom transfer.id sent.length chunks)
    (hbody : sent ++ chunks.flatten ++ rest = body) :
    Progress transfer body (state.run sha256Hex labels) (sent ++ chunks.flatten)
        waiter ∨
      Handed transfer body waiter (state.answers sha256Hex labels) := by
  induction labels generalizing state sent chunks with
  | nil =>
      cases chunks with
      | nil => exact Or.inl (by simpa [State.run] using h)
      | cons bytes later => simp [opsOf, fragmentsFrom, placed] at hops
  | cons label labels ih =>
      cases helse : label.2.concerns transfer.id with
      | false =>
          simp only [opsOf, List.map_cons, helse, Bool.false_eq_true,
            not_false_eq_true, List.filter_cons_of_neg] at hops
          rcases ih (h.elsewhere helse label.1) hops hbody with hon | hanswered
          · exact Or.inl hon
          · obtain ⟨call, hwaits, hmem⟩ := hanswered
            exact Or.inr ⟨call, hwaits, List.mem_append_right _ hmem⟩
      | true =>
          simp only [opsOf, List.map_cons, helse, List.filter_cons_of_pos]
            at hops
          cases chunks with
          | nil => simp [fragmentsFrom, placed] at hops
          | cons bytes later =>
              obtain ⟨hop, hrest⟩ := List.cons.inj hops
              have hnext : sent ++ bytes ++ (later.flatten ++ rest) = body := by
                simpa using hbody
              have hevicted := h.evictExpired label.1
              obtain ⟨pending, hget⟩ := hevicted.registered
              have happly : state.apply sha256Hex label.1 label.2 =
                  let reply := ingest sha256Hex (evictExpired label.1 state)
                    transfer.id sent.length.toUInt32 bytes
                  ⟨reply.1, reply.2.1, reply.2.2.toList.map fun received =>
                    ⟨transfer.id, received⟩⟩ := by
                rw [hop]
                exact onFragment_registered hget
              simp only [State.run, State.answers, happly]
              rcases ingest_progress hevicted hmatches hlength hnext with
                hon | ⟨call, hwaits, hmem⟩
              · rw [← List.length_append] at hrest
                have hgoal := ih hon hrest (by simpa using hbody)
                rcases hgoal with hon | ⟨call, hwaits, hmem⟩
                · exact Or.inl (by simpa using hon)
                · exact Or.inr ⟨call, hwaits, List.mem_append_right _ hmem⟩
              · exact Or.inr ⟨call, hwaits, List.mem_append_left _ hmem⟩

/-- A collect is answered at once, or waits. -/
theorem collect_progress (h : Progress transfer body state sent none)
    (call : Call) :
    ⟨call, transfer.id, .ok body⟩ ∈ (state.collect call transfer.id).answers ∨
      Progress transfer body (state.collect call transfer.id).state sent
        (some call) := by
  cases h with
  | receiving lastAcked hshort hheld =>
      right
      simp only [State.collect, hheld]
      exact Progress.receiving lastAcked hshort (Table.get?_put_self _ _ _)
  | complete pending hall hidle hheld hterminal =>
      left
      simp only [State.collect, hheld, hterminal]
      exact List.mem_singleton_self _

/-- A collect that waits for a whole body has been handed it. -/
theorem Progress.not_whole (hlength : body.length = transfer.totalSize.toNat)
    {call : Call} : ¬ Progress transfer body state body (some call) := by
  intro h
  cases h with
  | receiving lastAcked hshort hheld => omega
  | complete pending hall hidle hheld hterminal =>
      exact absurd hidle (Option.some_ne_none call)

end Stages

section Awaiting

variable {sha256Hex : Bytes → String} {state : State} {transfer : TransferRef}
  {transferId : Uuid} {body : Bytes} {held : List (UInt32 × Bytes)}

/-- The fragments of a transfer that is not yet registered are all held. -/
structure Awaiting (transferId : Uuid) (state : State)
    (held : List (UInt32 × Bytes)) : Prop where
  unregistered : state.pending.get? transferId = none
  held : state.heldFor transferId = held

theorem Awaiting.hold (h : Awaiting transferId state held) {now : Nat}
    {piece : UInt32 × Bytes}
    (hlive : ∀ kept, state.buffer.get? transferId = some kept →
      kept.expiresAt > now)
    (hroom : (evictExpired now state).bufferedBytes + piece.2.length ≤
      PREREGISTRATION_BUDGET_BYTES) :
    Awaiting transferId
      (state.onFragment sha256Hex now ⟨transferId, piece.1, piece.2⟩).state
      (held ++ [piece]) := by
  have hget : (evictExpired now state).pending.get? transferId = none :=
    h.unregistered
  have hroom' : ¬ (evictExpired now state).bufferedBytes + piece.2.length >
      PREREGISTRATION_BUDGET_BYTES := by omega
  have hheld := h.held
  rw [onFragment_unregistered hget]
  simp only [holdUnregistered, hroom', ↓reduceIte]
  constructor
  · exact h.unregistered
  · rw [State.heldFor] at hheld ⊢
    rw [Table.get?_put_self, evictExpired_get? hlive]
    cases hkept : state.buffer.get? transferId with
    | none =>
        rw [hkept] at hheld
        rw [← hheld]
        rfl
    | some kept =>
        rw [hkept] at hheld
        rw [← hheld]
        rfl

/-- Until it is registered a transfer holds what came of it, whatever else
happens, as long as that fits. -/
theorem run_awaiting {labels later : List (Nat × Op)} {start : Nat}
    {chunks : List Bytes} (h : Awaiting transferId state held)
    (hops : opsOf transferId labels = fragmentsFrom transferId start chunks)
    (hfits : Fits sha256Hex transferId state (labels ++ later)) :
    Awaiting transferId (state.run sha256Hex labels)
        (held ++ placed start chunks) ∧
      Fits sha256Hex transferId (state.run sha256Hex labels) later := by
  induction labels generalizing state held start chunks with
  | nil =>
      cases chunks with
      | nil => simpa [State.run, placed] using ⟨h, hfits⟩
      | cons bytes rest => simp [opsOf, fragmentsFrom, placed] at hops
  | cons label labels ih =>
      obtain ⟨hlive, hroom, hfits⟩ := hfits
      cases helse : label.2.concerns transferId with
      | false =>
          simp only [opsOf, List.map_cons, helse, Bool.false_eq_true,
            not_false_eq_true, List.filter_cons_of_neg] at hops
          refine ih ⟨?_, ?_⟩ hops hfits
          · rw [(apply_elsewhere helse label.1).1]
            exact h.unregistered
          · rw [State.heldFor, apply_heldFor helse hlive]
            exact h.held
      | true =>
          simp only [opsOf, List.map_cons, helse, List.filter_cons_of_pos]
            at hops
          cases chunks with
          | nil => simp [fragmentsFrom, placed] at hops
          | cons bytes rest =>
              obtain ⟨hop, hrest⟩ := List.cons.inj hops
              have hnext : Awaiting transferId
                  (state.apply sha256Hex label.1 label.2).state
                  (held ++ [(start.toUInt32, bytes)]) := by
                rw [hop]
                apply h.hold (hlive (by simp [hop, Op.evicts]))
                exact hroom _ hop rfl
              have hgoal := ih hnext hrest hfits
              simpa [placed, State.run] using hgoal

/-- A registration takes up what is held. -/
theorem register_progress {chunks : List Bytes} {rest : Bytes} {now : Nat}
    (h : Awaiting transfer.id state (placed 0 chunks))
    (hlive : ∀ kept, state.buffer.get? transfer.id = some kept →
      kept.expiresAt > now)
    (hmatches : Matches sha256Hex transfer body)
    (hlength : body.length = transfer.totalSize.toNat)
    (hcap : body.length ≤ MAX_TRANSFER_BYTES)
    (hbody : chunks.flatten ++ rest = body) :
    Progress transfer body (state.register sha256Hex now transfer).state
      chunks.flatten none := by
  have hget : (evictExpired now state).pending.get? transfer.id = none :=
    h.unregistered
  by_cases hzero : transfer.totalSize = 0
  · obtain ⟨outcome, houtcome, hreply⟩ :=
      register_settled sha256Hex hget (Or.inl hzero)
    have hempty : body = [] := by
      apply List.length_eq_zero_iff.mp
      rw [hlength, hzero]
      rfl
    have hchunks : chunks.flatten = [] := by
      rw [hempty] at hbody
      exact (List.append_eq_nil_iff.mp hbody).1
    rw [hreply]
    refine Progress.complete _ (by rw [hchunks, hempty]) rfl
      (Table.get?_put_self _ _ _) ?_
    rcases houtcome with ⟨_, rfl⟩ | ⟨hnonzero, _⟩
    · rw [hempty]
    · exact absurd hzero hnonzero
  · obtain ⟨opened, hpending, _, _, hreply⟩ :=
      register_opening sha256Hex hget hzero (by omega)
    have hheld : (((evictExpired now state).buffer.get? transfer.id).map
        Buffered.fragments).getD [] = placed 0 chunks := by
      rw [evictExpired_get? hlive]
      exact h.held
    rw [hreply, hheld]
    have hopened : Progress transfer body opened [] none := by
      apply Progress.receiving 0
      · apply Nat.pos_of_ne_zero
        intro hnat
        exact hzero (UInt32.toNat_inj.mp hnat)
      · rw [hpending]
        exact Table.get?_put_self _ _ _
    simpa using replay_progress hopened hmatches hlength (by simpa using hbody)

/-- A body whose fragments come in order is collected, wherever in the stream it
is registered and its collect comes, and whatever else happens in between, if
its first fragments fit the buffer. -/
theorem stream_collected {before between after : List (Nat × Op)}
    {early mid late : List Bytes} {now later : Nat} {call : Call}
    (hpending : state.pending.get? transfer.id = none)
    (hbuffer : state.buffer.get? transfer.id = none)
    (hearly : opsOf transfer.id before = fragmentsFrom transfer.id 0 early)
    (hmid : opsOf transfer.id between =
      fragmentsFrom transfer.id early.flatten.length mid)
    (hlate : opsOf transfer.id after =
      fragmentsFrom transfer.id (early ++ mid).flatten.length late)
    (hfits : Fits sha256Hex transfer.id state
      (before ++ [(now, .register transfer)]))
    (hmatches : Matches sha256Hex transfer (early ++ mid ++ late).flatten)
    (hlength : (early ++ mid ++ late).flatten.length = transfer.totalSize.toNat)
    (hcap : (early ++ mid ++ late).flatten.length ≤ MAX_TRANSFER_BYTES) :
    ⟨call, transfer.id, .ok (early ++ mid ++ late).flatten⟩ ∈
      state.answers sha256Hex (before ++ (now, .register transfer) ::
        (between ++ (later, .collect call transfer.id) :: after)) := by
  have hstart : Awaiting transfer.id state [] := by
    refine ⟨hpending, ?_⟩
    rw [State.heldFor, hbuffer]
    rfl
  obtain ⟨hheld, hlive, _⟩ := run_awaiting hstart hearly hfits
  have hregistered : Progress transfer (early ++ mid ++ late).flatten _
      early.flatten none :=
    register_progress hheld (hlive rfl) hmatches hlength hcap
      (show early.flatten ++ (mid ++ late).flatten = _ by simp)
  rw [State.answers_append]
  apply List.mem_append_right
  apply List.mem_append_right
  rw [State.answers_append]
  apply List.mem_append_right
  rcases run_progress hregistered hmatches hlength hmid
    (show early.flatten ++ mid.flatten ++ late.flatten = _ by simp) with
    hon | ⟨_, habsurd, _⟩
  case inr => exact absurd habsurd (Option.some_ne_none _).symm
  rw [← List.flatten_append] at hon
  rcases collect_progress hon call with hanswered | hwaiting
  · exact List.mem_append_left _ hanswered
  · apply List.mem_append_right
    rcases run_progress hwaiting hmatches hlength hlate
      (show (early ++ mid).flatten ++ late.flatten ++ [] = _ by simp) with
      hon | ⟨_, hcall, hmem⟩
    · rw [← List.flatten_append] at hon
      exact absurd hon (Progress.not_whole hlength)
    · rw [← Option.some.inj hcall] at hmem
      exact hmem

end Awaiting

/-- What collect hands over is whole, declared and hashed; acks rise to the
total; a failure stands until the transfer is taken up anew; and what comes in
order, within the cap and the buffer, is collected. -/
theorem receiver_integrity (sha256Hex : Bytes → String) :
    (∀ (labels : List (Nat × Op)) (label : Nat × Op),
      let world := World.init.run sha256Hex labels
      let next := world.step sha256Hex label
      ∀ answer ∈ (world.state.apply sha256Hex label.1 label.2).answers,
        ∀ body, answer.outcome = .ok body → ∃ transfer,
          Delivered sha256Hex (historyOf next.log answer.transferId) transfer
            body) ∧
    (∀ (labels : List (Nat × Op)) (transferId : Uuid),
      Acked (historyOf (World.init.run sha256Hex labels).log transferId)) ∧
    (∀ (transferId : Uuid) (state next : State) (labels : List (Nat × Op))
        (label : Nat × Op),
      Closed transferId state →
      Run (Unopening sha256Hex transferId) state labels next →
      label.2.opens transferId next = false →
        Bodiless transferId
          (next.apply sha256Hex label.1 label.2).answers) ∧
    (∀ (state : State) (transfer : TransferRef)
        (before between after : List (Nat × Op)) (early mid late : List Bytes)
        (now later : Nat) (call : Call),
      state.pending.get? transfer.id = none →
      state.buffer.get? transfer.id = none →
      opsOf transfer.id before = fragmentsFrom transfer.id 0 early →
      opsOf transfer.id between =
        fragmentsFrom transfer.id early.flatten.length mid →
      opsOf transfer.id after =
        fragmentsFrom transfer.id (early ++ mid).flatten.length late →
      Fits sha256Hex transfer.id state
        (before ++ [(now, .register transfer)]) →
      Matches sha256Hex transfer (early ++ mid ++ late).flatten →
      (early ++ mid ++ late).flatten.length = transfer.totalSize.toNat →
      (early ++ mid ++ late).flatten.length ≤ MAX_TRANSFER_BYTES →
        ⟨call, transfer.id, .ok (early ++ mid ++ late).flatten⟩ ∈
          state.answers sha256Hex (before ++ (now, .register transfer) ::
            (between ++ (later, .collect call transfer.id) :: after))) := by
  refine ⟨?_, ?_, ?_, ?_⟩
  · intro labels label world next answer hanswer body hbody
    have hverdict := (step_sound (run_sound sha256Hex labels) label).2 answer
      hanswer
    rw [hbody] at hverdict
    exact hverdict
  · intro labels transferId
    exact (run_sound sha256Hex labels).kept.acked transferId
  · intro transferId state next labels label hclosed hrun hopens
    exact failure_stands hclosed hrun hopens
  · intro state transfer before between after early mid late now later call
      hpending hbuffer hearly hmid hlate hfits hmatches hlength hcap
    exact stream_collected hpending hbuffer hearly hmid hlate hfits hmatches
      hlength hcap

/-- The digests of the empty body and of two bytes. -/
def twoDigests (body : Bytes) : String :=
  if body = [1, 2] then
    "a12871fee210fb8619291eaea194581cbd2531e4b23759d225f6806923f63222"
  else "e3b0c44298fc1c149afbf4c8996fb92427ae41e4649b934ca495991b7852b855"

def twoBytes : TransferRef :=
  ⟨1, 2,
    some "a12871fee210fb8619291eaea194581cbd2531e4b23759d225f6806923f63222"⟩

theorem receiver_integrity_two_bytes :
    (∃ transfer, Delivered twoDigests
      (historyOf ((World.init.run twoDigests [(0, .register twoBytes),
        (1, .fragment ⟨1, 0, [1, 2]⟩)]).step twoDigests
          (2, .collect 0 1)).log 1) transfer [1, 2]) ∧
    Bodiless 1 ((State.init.onFragment twoDigests 0 ⟨1, 0, [1]⟩).state.apply
      twoDigests 1 (.collect 0 1)).answers ∧
    ⟨0, 1, .ok [1, 2]⟩ ∈ State.init.answers twoDigests
      [(0, .fragment ⟨1, 0, [1]⟩), (1, .register twoBytes),
        (2, .collect 0 1), (3, .fragment ⟨1, 1, [2]⟩)] := by
  obtain ⟨hdelivered, _, hfailed, hstream⟩ := receiver_integrity twoDigests
  refine ⟨?_, ?_, ?_⟩
  · exact hdelivered [(0, .register twoBytes), (1, .fragment ⟨1, 0, [1, 2]⟩)]
      (2, .collect 0 1) ⟨0, 1, .ok [1, 2]⟩ (List.mem_singleton.mpr rfl) [1, 2]
      rfl
  · refine hfailed 1 State.init _ [(0, .fragment ⟨1, 0, [1]⟩)]
      (1, .collect 0 1) ?_ (Run.cons ⟨rfl, rfl⟩ (Run.nil _)) rfl
    intro pending hpending
    exact absurd hpending (Option.some_ne_none _).symm
  · refine hstream State.init twoBytes [(0, .fragment ⟨1, 0, [1]⟩)] []
      [(3, .fragment ⟨1, 1, [2]⟩)] [[1]] [] [[2]] 1 2 0 rfl rfl rfl rfl rfl
      ?_ ?_ rfl (by decide)
    · refine ⟨?_, ?_, ?_, ?_, trivial⟩
      · intro _ held hheld
        exact absurd hheld (Option.some_ne_none _).symm
      · rintro piece hpiece _
        cases hpiece
        decide
      · intro _ held hheld
        cases hheld
        decide
      · rintro piece hpiece _
        exact absurd hpiece (by simp)
    · rintro want hwant
      cases hwant
      decide

/-- A transfer over the cap is refused however its fragments come, and an empty
one is collected whatever digest is declared. -/
theorem oversize_refused_empty_unhashed :
    State.init.answers twoDigests
      [(0, .register ⟨1, 1048577, none⟩),
        (0, .fragment ⟨1, 0, List.replicate 1048577 0⟩), (0, .collect 0 1)] =
      [⟨0, 1, .error (.tooLarge 1 1048577)⟩] ∧
    State.init.answers twoDigests
      [(0, .register ⟨1, 0, some "00"⟩), (0, .collect 0 1)] =
      [⟨0, 1, .ok []⟩] ∧
    eqIgnoreAsciiCase (twoDigests []) "00" = false := by
  refine ⟨rfl, rfl, ?_⟩
  decide

end Delivery

end Bridgething
