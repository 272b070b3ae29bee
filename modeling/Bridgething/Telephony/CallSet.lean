/-
When the clients know the calls that are held, over a run of operations and
broadcasts.  A call the phone names without a status, one that comes from the
companion already over or without a word to the clients, and one that is ended
though it is not held, each break it.
-/
import Bridgething.Telephony.Announcements

namespace Bridgething

namespace Telephony

open Roster

namespace Inner

/-- The calls held are those told of: under their ids, none of them over, and
all noted as announced. -/
structure Told (inner : Inner) (told : List String) : Prop where
  keys : inner.calls.keys.Nodup
  own : ∀ callId call, inner.calls.get? callId = some call →
    call.callId = callId
  live : ∀ callId call, inner.calls.get? callId = some call →
    call.status ≠ .disconnected
  announced : ∀ callId,
    callId ∈ inner.announced ↔ callId ∈ inner.calls.keys
  companion : inner.companionCalls.Nodup
  told : ∀ callId, callId ∈ told ↔ callId ∈ inner.calls.keys

variable {inner : Inner} {told : List String}

theorem Told.companion_free (h : inner.Told told) (companion : Option Address)
    {companionCalls : List String} (hnodup : companionCalls.Nodup) :
    Told { inner with
      companion := companion
      companionCalls := companionCalls } told :=
  { h with companion := hnodup }

theorem Told.communications_free (h : inner.Told told)
    (communications : CommunicationsState) :
    Told { inner with communications := communications } told :=
  { h with }

theorem Told.reorder (h : inner.Told told) {calls : Table String PhoneCall}
    {announced companionCalls : List String}
    (hcalls : calls.Perm inner.calls)
    (hannounced : announced.Perm inner.announced)
    (hcompanion : companionCalls.Perm inner.companionCalls) :
    Told { inner with
      calls := calls
      announced := announced
      companionCalls := companionCalls } told := by
  have hkeys : calls.keys.Perm inner.calls.keys := hcalls.map Prod.fst
  have hget := Table.get?_perm hcalls h.keys
  constructor
  · exact hkeys.nodup_iff.mpr h.keys
  · intro callId call hcall
    exact h.own callId call (hget callId ▸ hcall)
  · intro callId call hcall
    exact h.live callId call (hget callId ▸ hcall)
  · intro callId
    rw [hannounced.mem_iff, h.announced callId]
    exact hkeys.mem_iff.symm
  · exact hcompanion.nodup_iff.mpr h.companion
  · intro callId
    rw [h.told callId]
    exact hkeys.mem_iff.symm

/-- A call written under its id, while it is not over. -/
theorem Told.put (h : inner.Told told) {callId : String} {call : PhoneCall}
    {announced told' companionCalls : List String}
    (hown : call.callId = callId) (hlive : call.status ≠ .disconnected)
    (hannounced : ∀ other,
      other ∈ announced ↔ other = callId ∨ other ∈ inner.announced)
    (htold : ∀ other, other ∈ told' ↔ other = callId ∨ other ∈ told)
    (hcompanion : companionCalls.Nodup) :
    Told { inner with
      calls := inner.calls.put callId call
      announced := announced
      companionCalls := companionCalls } told' := by
  constructor
  · exact Table.nodup_keys_put h.keys callId call
  · intro other found hfound
    rcases Table.get?_put_cases hfound with ⟨heq, hcall⟩ | ⟨-, hget⟩
    · rw [heq, hcall]
      exact hown
    · exact h.own other found hget
  · intro other found hfound
    rcases Table.get?_put_cases hfound with ⟨-, hcall⟩ | ⟨-, hget⟩
    · rw [hcall]
      exact hlive
    · exact h.live other found hget
  · intro other
    rw [hannounced other, h.announced other]
    exact Table.mem_keys_put.symm
  · exact hcompanion
  · intro other
    rw [htold other, h.told other]
    exact Table.mem_keys_put.symm

theorem dropCalls_keys (inner : Inner) (callIds : List String)
    (callId : String) :
    callId ∈ (inner.dropCalls callIds).calls.keys ↔
      callId ∈ inner.calls.keys ∧ callId ∉ callIds := by
  induction callIds generalizing inner with
  | nil => simp [dropCalls]
  | cons other callIds ih =>
      have hrest := ih (inner.dropCall other)
      rw [dropCalls, List.foldl_cons]
      rw [dropCalls] at hrest
      rw [hrest, dropCall, Table.mem_keys_remove, List.mem_cons, not_or,
        and_assoc]

theorem dropCalls_announced (inner : Inner) (callIds : List String)
    (callId : String) :
    callId ∈ (inner.dropCalls callIds).announced ↔
      callId ∈ inner.announced ∧ callId ∉ callIds := by
  induction callIds generalizing inner with
  | nil => simp [dropCalls]
  | cons other callIds ih =>
      have hrest := ih (inner.dropCall other)
      rw [dropCalls, List.foldl_cons]
      rw [dropCalls] at hrest
      rw [hrest, dropCall]
      simp [and_assoc]

theorem get?_dropCalls {inner : Inner} {callIds : List String}
    {callId : String} {call : PhoneCall}
    (h : (inner.dropCalls callIds).calls.get? callId = some call) :
    inner.calls.get? callId = some call := by
  induction callIds generalizing inner with
  | nil => exact h
  | cons other callIds ih => exact (Table.get?_of_remove (ih h)).2

theorem dropCalls_keys_nodup (h : inner.calls.keys.Nodup)
    (callIds : List String) : (inner.dropCalls callIds).calls.keys.Nodup := by
  induction callIds generalizing inner with
  | nil => exact h
  | cons other callIds ih => exact ih (Table.nodup_keys_remove h other)

@[simp] theorem dropCalls_companionCalls (inner : Inner)
    (callIds : List String) :
    (inner.dropCalls callIds).companionCalls = inner.companionCalls := by
  induction callIds generalizing inner with
  | nil => rfl
  | cons other callIds ih => exact ih _

/-- Calls dropped and told to have ended. -/
theorem Told.drop (h : inner.Told told) (callIds : List String)
    {told' : List String}
    (htold : ∀ callId, callId ∈ told' ↔ callId ∈ told ∧ callId ∉ callIds) :
    (inner.dropCalls callIds).Told told' := by
  constructor
  · exact dropCalls_keys_nodup h.keys callIds
  · exact fun callId call hcall => h.own callId call (get?_dropCalls hcall)
  · exact fun callId call hcall => h.live callId call (get?_dropCalls hcall)
  · intro callId
    rw [dropCalls_announced, dropCalls_keys, h.announced callId]
  · rw [dropCalls_companionCalls]
    exact h.companion
  · intro callId
    rw [htold callId, dropCalls_keys, h.told callId]

/-! ### What an operation must find -/

/-- The calls of the companion before are held when another takes its place. -/
def OwnedHeld (inner : Inner) (addr : Address) : Prop :=
  inner.companion ≠ some addr →
    ∀ callId ∈ inner.companionCalls, callId ∈ inner.calls.keys

/-- The calls a snapshot leaves: of two with one id the later. -/
def Lasting (activeCalls : List PhoneCall) (call : PhoneCall) : Prop :=
  ∃ before after, activeCalls = before ++ call :: after ∧
    ∀ later ∈ after, later.callId ≠ call.callId

/-- An operation that starts what it brings in and ends what is held.  A call
the phone is the first to name comes with a status; one a companion sends is
not over, and is held already unless it is sent as started; and the calls that
are ended, by name or with their companion, are held. -/
def Meets (inner : Inner) : Op → Prop
  | .iap2CallState update =>
      ∀ callId, update.callUuid = some callId → update.status = none →
        callId ∈ inner.calls.keys
  | .iap2Communications _ => True
  | .companionSnapshot _ activeCalls =>
      (∀ callId ∈ inner.companionCalls, callId ∈ inner.calls.keys) ∧
        (∀ call ∈ activeCalls, call.callId ∈ inner.calls.keys) ∧
          ∀ call, Lasting activeCalls call → call.status ≠ .disconnected
  | .companionCallStarted addr call =>
      inner.OwnedHeld addr ∧ call.status ≠ .disconnected
  | .companionCallUpdated addr call =>
      inner.OwnedHeld addr ∧ call.status ≠ .disconnected ∧
        call.callId ∈ inner.calls.keys ∧
          (inner.companion ≠ some addr → call.callId ∉ inner.companionCalls)
  | .companionCallEnded callId _ => callId ∈ inner.calls.keys
  | .companionCommunications addr _ => inner.OwnedHeld addr
  | .companionLost addr =>
      inner.companion = some addr →
        ∀ callId ∈ inner.companionCalls, callId ∈ inner.calls.keys

/-- What an operation leaves and says, to clients told of some calls. -/
structure Answers (told : List String) (result : Inner × List Outgoing) :
    Prop where
  fair : Fair told (result.2.filterMap Outgoing.turn)
  told : result.1.Told
    (after told (result.2.filterMap Outgoing.turn))

/-- An operation that starts and ends no call. -/
theorem Told.answers (h : inner.Told told) {outs : List Outgoing}
    (hnone : ∀ out ∈ outs, out.turn = none) :
    Answers told (inner, outs) := by
  have hturns : outs.filterMap Outgoing.turn = [] :=
    List.filterMap_eq_nil_iff.mpr hnone
  constructor
  · rw [hturns]
    exact trivial
  · rw [hturns]
    exact h

theorem turns_endCalls (callIds : List String) :
    (endCalls callIds).filterMap Outgoing.turn =
      callIds.map Turn.leave := by
  simp [endCalls, Function.comp_def, Outgoing.turn]

/-- More said after an answer, of what is left then. -/
theorem Answers.append {held : Inner} {outs more : List Outgoing}
    {result : Inner}
    (h : Answers told (held, outs))
    (hmore : Answers (after told (outs.filterMap Outgoing.turn))
      (result, more)) :
    Answers told (result, outs ++ more) := by
  constructor
  · rw [List.filterMap_append, fair_append]
    exact ⟨h.fair, hmore.fair⟩
  · rw [List.filterMap_append, after_append]
    exact hmore.told

/-- Held calls dropped and ended. -/
theorem Told.endCalls (h : inner.Told told) {callIds : List String}
    (hnodup : callIds.Nodup)
    (hheld : ∀ callId ∈ callIds, callId ∈ inner.calls.keys) :
    Answers told (inner.dropCalls callIds, endCalls callIds) := by
  constructor
  · rw [turns_endCalls]
    exact fair_leave hnodup fun callId hmem =>
      (h.told callId).mpr (hheld callId hmem)
  · rw [turns_endCalls]
    exact h.drop callIds fun callId => mem_after_leave callIds

theorem Told.noteCompanion (h : inner.Told told) {addr : Address}
    (howned : inner.OwnedHeld addr) :
    Answers told
      ((inner.noteCompanion addr).1,
        Telephony.endCalls (inner.noteCompanion addr).2) := by
  unfold Inner.noteCompanion
  split
  · exact h.answers (by simp [Telephony.endCalls])
  · next hother =>
      have hfree := h.companion_free (some addr) List.nodup_nil
      exact hfree.endCalls h.companion (howned hother)

/-- What a companion's snapshot makes of the calls, one after the other. -/
theorem insertCompanionCalls_keys (activeCalls : List PhoneCall)
    (inner : Inner) (callId : String) :
    callId ∈ (activeCalls.foldl insertCompanionCall inner).calls.keys ↔
      callId ∈ inner.calls.keys ∨
        ∃ call ∈ activeCalls, call.callId = callId := by
  induction activeCalls generalizing inner with
  | nil => simp
  | cons call activeCalls ih =>
      rw [List.foldl_cons, ih, insertCompanionCall, Table.mem_keys_put]
      simp only [List.exists_mem_cons_iff]
      grind

theorem insertCompanionCalls_announced (activeCalls : List PhoneCall)
    (inner : Inner) (callId : String) :
    callId ∈ (activeCalls.foldl insertCompanionCall inner).announced ↔
      callId ∈ inner.announced ∨
        ∃ call ∈ activeCalls, call.callId = callId := by
  induction activeCalls generalizing inner with
  | nil => simp
  | cons call activeCalls ih =>
      rw [List.foldl_cons, ih, insertCompanionCall, List.mem_insert_iff]
      simp only [List.exists_mem_cons_iff]
      grind

theorem insertCompanionCalls_nodup (activeCalls : List PhoneCall)
    {inner : Inner} (hkeys : inner.calls.keys.Nodup)
    (hcompanion : inner.companionCalls.Nodup) :
    (activeCalls.foldl insertCompanionCall inner).calls.keys.Nodup ∧
      (activeCalls.foldl insertCompanionCall inner).companionCalls.Nodup := by
  induction activeCalls generalizing inner with
  | nil => exact ⟨hkeys, hcompanion⟩
  | cons call activeCalls ih =>
      exact ih (Table.nodup_keys_put hkeys call.callId call)
        hcompanion.insert

/-- A call found after a snapshot is one it leaves, under its id, or was there
and is not in the snapshot. -/
theorem get?_insertCompanionCalls {activeCalls : List PhoneCall}
    {inner : Inner} {callId : String} {call : PhoneCall}
    (h : (activeCalls.foldl insertCompanionCall inner).calls.get? callId =
      some call) :
    (call.callId = callId ∧ Lasting activeCalls call) ∨
      (inner.calls.get? callId = some call ∧
        ∀ other ∈ activeCalls, other.callId ≠ callId) := by
  induction activeCalls generalizing inner with
  | nil => exact Or.inr ⟨h, fun _ hmem => absurd hmem List.not_mem_nil⟩
  | cons first activeCalls ih =>
      rcases ih h with ⟨hown, before, later, rfl, hlast⟩ | ⟨hheld, hnone⟩
      · exact Or.inl ⟨hown, first :: before, later, rfl, hlast⟩
      · rcases Table.get?_put_cases hheld with ⟨rfl, rfl⟩ | ⟨hne, hget⟩
        · exact Or.inl ⟨rfl, [], activeCalls, rfl, hnone⟩
        · refine Or.inr ⟨hget, fun other hother => ?_⟩
          rcases List.mem_cons.mp hother with rfl | hrest
          · exact Ne.symm hne
          · exact hnone other hrest

/-- A snapshot drops every call of the companion, whoever sends it. -/
theorem noteCompanion_dropped (inner : Inner) (addr : Address) :
    (inner.noteCompanion addr).2 ++
      (inner.noteCompanion addr).1.companionCalls = inner.companionCalls := by
  unfold noteCompanion
  split
  · exact List.nil_append _
  · simp

theorem Told.emptied (h : inner.Told told) (addr : Address) :
    (dropCalls { (inner.noteCompanion addr).1 with companionCalls := [] }
      inner.companionCalls).Told
      (told.filter (· ∉ inner.companionCalls)) := by
  have hnoted : ∃ told', (inner.noteCompanion addr).1.Told told' ∧
      ∀ callId, callId ∉ inner.companionCalls →
        (callId ∈ told' ↔ callId ∈ told) := by
    unfold Inner.noteCompanion
    split
    · exact ⟨told, h, fun _ _ => Iff.rfl⟩
    · have hfree := h.companion_free (some addr) List.nodup_nil
      refine ⟨told.filter (· ∉ inner.companionCalls),
        hfree.drop inner.companionCalls (by simp), ?_⟩
      intro callId hnot
      simp [hnot]
  obtain ⟨told', hkept, hsame⟩ := hnoted
  have hfree := hkept.companion_free (inner.noteCompanion addr).1.companion
    List.nodup_nil
  refine hfree.drop inner.companionCalls fun callId => ?_
  by_cases hmem : callId ∈ inner.companionCalls
  · simp [hmem]
  · simp [hmem, hsame callId hmem]

theorem Told.applyCompanionSnapshot (h : inner.Told told) {addr : Address}
    {activeCalls : List PhoneCall}
    (hmeets : inner.Meets (.companionSnapshot addr activeCalls)) :
    Answers told (applyCompanionSnapshot inner addr activeCalls) := by
  obtain ⟨howned, hknown, hlive⟩ := hmeets
  have hempty := h.emptied addr
  unfold Telephony.applyCompanionSnapshot
  dsimp only
  rw [noteCompanion_dropped]
  generalize hheld : activeCalls.foldl insertCompanionCall
    (dropCalls { (inner.noteCompanion addr).1 with companionCalls := [] }
      inner.companionCalls) = held
  have hkeys : ∀ callId, callId ∈ held.calls.keys ↔
      callId ∈ inner.calls.keys ∧ callId ∉ inner.companionCalls ∨
        ∃ call ∈ activeCalls, call.callId = callId := by
    intro callId
    rw [← hheld, insertCompanionCalls_keys, ← hempty.told callId,
      ← h.told callId]
    simp
  have hnodup := insertCompanionCalls_nodup activeCalls hempty.keys
    hempty.companion
  rw [hheld] at hnodup
  constructor
  · rw [turns_endCalls]
    apply fair_leave (h.companion.filter _)
    intro callId hmem
    exact (h.told callId).mpr (howned callId (List.mem_filter.mp hmem).1)
  · constructor
    · exact hnodup.1
    · intro callId call hcall
      rw [← hheld] at hcall
      rcases get?_insertCompanionCalls hcall with ⟨hown, -⟩ | ⟨hget, -⟩
      · exact hown
      · exact hempty.own callId call hget
    · intro callId call hcall
      rw [← hheld] at hcall
      rcases get?_insertCompanionCalls hcall with ⟨-, hlast⟩ | ⟨hget, -⟩
      · exact hlive call hlast
      · exact hempty.live callId call hget
    · intro callId
      rw [← hheld, insertCompanionCalls_announced, insertCompanionCalls_keys,
        hempty.announced callId]
    · exact hnodup.2
    · intro callId
      have hended : callId ∈ inner.companionCalls.filter
          (fun callId => callId ∉ held.calls.keys) ↔
          callId ∈ inner.companionCalls ∧ callId ∉ held.calls.keys := by
        simp
      rw [turns_endCalls, mem_after_leave, h.told callId, hended]
      constructor
      · rintro ⟨hin, hnot⟩
        by_contra hout
        have hother : callId ∉ inner.companionCalls := fun hown =>
          hnot ⟨hown, hout⟩
        exact hout ((hkeys callId).mpr (Or.inl ⟨hin, hother⟩))
      · intro hin
        refine ⟨?_, fun hout => hout.2 hin⟩
        rcases (hkeys callId).mp hin with ⟨hbefore, -⟩ | ⟨call, hcall, rfl⟩
        · exact hbefore
        · exact hknown call hcall

/-- A call put in by a companion, and what is told of it. -/
theorem Told.insertCompanionCall (h : inner.Told told) {call : PhoneCall}
    (hlive : call.status ≠ .disconnected) {told' : List String}
    (htold : ∀ other, other ∈ told' ↔ other = call.callId ∨ other ∈ told) :
    (inner.insertCompanionCall call).Told told' := by
  apply h.put rfl hlive _ htold h.companion.insert
  intro other
  exact List.mem_insert_iff

theorem mem_after_started {call : PhoneCall} {callId : String}
    (hown : call.callId = callId) (told : List String) (other : String) :
    other ∈ after told ([.callStarted call].filterMap Outgoing.turn) ↔
      other = callId ∨ other ∈ told := by
  rw [← hown]
  exact List.mem_insert_iff

theorem Told.applyCompanionCallStarted (h : inner.Told told)
    {addr : Address} {call : PhoneCall}
    (hmeets : inner.Meets (.companionCallStarted addr call)) :
    Answers told (applyCompanionCallStarted inner addr call) := by
  have hnoted := h.noteCompanion hmeets.1
  apply hnoted.append
  refine ⟨⟨fun hleaves => absurd hleaves (by simp [Turn.leaves]), trivial⟩, ?_⟩
  exact hnoted.told.insertCompanionCall hmeets.2 (mem_after_started rfl _)

theorem Told.applyCompanionCallUpdated (h : inner.Told told)
    {addr : Address} {call : PhoneCall}
    (hmeets : inner.Meets (.companionCallUpdated addr call)) :
    Answers told (applyCompanionCallUpdated inner addr call) := by
  obtain ⟨howned, hlive, hknown, hother⟩ := hmeets
  have hnoted := h.noteCompanion howned
  have hstill : call.callId ∈ after told
      ((Telephony.endCalls (inner.noteCompanion addr).2).filterMap
        Outgoing.turn) := by
    rw [turns_endCalls, mem_after_leave]
    refine ⟨(h.told call.callId).mpr hknown, ?_⟩
    unfold Inner.noteCompanion
    split
    · exact List.not_mem_nil
    · next hne => exact hother hne
  apply hnoted.append
  refine ⟨trivial, ?_⟩
  apply hnoted.told.insertCompanionCall hlive
  intro other
  constructor
  · exact Or.inr
  · rintro (rfl | hmem)
    · exact hstill
    · exact hmem

theorem Told.applyCompanionCallEnded (h : inner.Told told)
    {callId : String} (reason : CallEndReason)
    (hheld : callId ∈ inner.calls.keys) :
    Answers told (applyCompanionCallEnded inner callId reason) := by
  have hfree := h.companion_free inner.companion
    (h.companion.filter (· ≠ callId))
  refine ⟨⟨fun _ => (h.told callId).mpr hheld, trivial⟩, ?_⟩
  apply hfree.drop [callId]
  intro other
  exact mem_after_leave [callId]

theorem Told.clearCompanion (h : inner.Told told) {addr : Address}
    (hmeets : inner.Meets (.companionLost addr)) :
    Answers told (clearCompanion inner addr) := by
  unfold Telephony.clearCompanion
  split
  · exact h.answers (by simp)
  · next howner =>
      have hfree := h.companion_free none List.nodup_nil
      exact hfree.endCalls h.companion (hmeets (not_not.mp howner))

theorem Told.applyCompanionCommunications (h : inner.Told told)
    {addr : Address} (state : CommunicationsState)
    (howned : inner.OwnedHeld addr) :
    Answers told (applyCompanionCommunications inner addr state) := by
  have hnoted := h.noteCompanion howned
  apply hnoted.append
  apply (hnoted.told.communications_free state).answers
  simp [Outgoing.turn]

/-- An update is about the call it names, or one that is held. -/
theorem Told.target (h : inner.Told told) {update : Iap2CallStateUpdate}
    {callId : String} (htarget : inner.target update = some callId) :
    update.callUuid = some callId ∨ callId ∈ inner.calls.keys := by
  unfold Inner.target at htarget
  split at htarget
  · next hnamed => exact Or.inl (hnamed.trans htarget)
  · right
    split at htarget
    · next key existing hcalls =>
        split at htarget
        · have hget : inner.calls.get? key = some existing := by
            simp [hcalls, Table.get?]
          have hown := h.own key existing hget
          rw [← Option.some.inj htarget, hown, hcalls]
          simp [Table.keys]
        · cases htarget
    · cases htarget

/-- The entry an update is merged into, if it leaves a call that goes on. -/
theorem Told.merged_live (h : inner.Told told) {callId : String}
    {update : Iap2CallStateUpdate}
    (hgoes : update.status.map decodeStatus ≠ some .disconnected)
    (hknown : update.status = none → callId ∈ inner.calls.keys) :
    (((inner.calls.get? callId).getD (PhoneCall.fresh callId)).merge
      update).status ≠ .disconnected := by
  cases hstatus : update.status with
  | some status => simpa [PhoneCall.merge, hstatus] using hgoes
  | none =>
      cases hget : inner.calls.get? callId with
      | none =>
          exact absurd (hknown hstatus) (Table.get?_eq_none.mp hget)
      | some entry =>
          simpa [PhoneCall.merge, hstatus] using h.live callId entry hget

theorem Told.merged_own (h : inner.Told told) (callId : String)
    (update : Iap2CallStateUpdate) :
    (((inner.calls.get? callId).getD (PhoneCall.fresh callId)).merge
      update).callId = callId := by
  rw [PhoneCall.merge_callId]
  cases hget : inner.calls.get? callId with
  | none => rfl
  | some entry => exact h.own callId entry hget

/-- A call the phone ends is dropped; the clients are told if they knew it. -/
theorem Told.disconnected (h : inner.Told told) (callId : String)
    (call : PhoneCall) (reason : CallEndReason) (survivor : Option PhoneCall) :
    Answers told
      (dropCall { inner with calls := inner.calls.put callId call } callId,
        if callId ∈ inner.announced then
          .callEnded callId reason ::
            survivor.toList.map Outgoing.callUpdated
        else []) := by
  have hdrop : dropCall { inner with calls := inner.calls.put callId call }
      callId = inner.dropCalls [callId] := by
    simp [dropCall, dropCalls]
  have hnone : (survivor.toList.map Outgoing.callUpdated).filterMap
      Outgoing.turn = [] := by
    rw [List.filterMap_eq_nil_iff]
    intro out hout
    obtain ⟨call, -, rfl⟩ := List.mem_map.mp hout
    rfl
  rw [hdrop]
  by_cases hheld : callId ∈ inner.announced
  · rw [if_pos hheld]
    have hturns : (Outgoing.callEnded callId reason ::
        survivor.toList.map Outgoing.callUpdated).filterMap Outgoing.turn =
        [.leave callId] := by
      rw [List.filterMap_cons_some (f := Outgoing.turn) rfl, hnone]
    constructor
    · rw [hturns]
      refine ⟨fun _ => ?_, trivial⟩
      exact (h.told callId).mpr ((h.announced callId).mp hheld)
    · rw [hturns]
      exact h.drop [callId] fun other => mem_after_leave [callId]
  · rw [if_neg hheld]
    refine ⟨trivial, h.drop [callId] fun other => ?_⟩
    have hnot : callId ∉ told := by
      rw [h.told callId, ← h.announced callId]
      exact hheld
    constructor
    · intro hmem
      refine ⟨hmem, fun hin => ?_⟩
      rw [List.mem_singleton.mp hin] at hmem
      exact hnot hmem
    · exact And.left

theorem Told.planIap2CallState (h : inner.Told told)
    {update : Iap2CallStateUpdate}
    (hmeets : inner.Meets (.iap2CallState update)) :
    Answers told (planIap2CallState inner update) := by
  unfold Telephony.planIap2CallState
  split
  · exact h.answers (by simp)
  · next callId htarget =>
      have hknown : update.status = none → callId ∈ inner.calls.keys :=
        fun hnone => (h.target htarget).elim
          (fun hnamed => hmeets callId hnamed hnone) id
      have hown := h.merged_own callId update
      dsimp only
      split
      · have hended := h.disconnected callId
        split
        · next hheld =>
            simpa [hheld] using hended _ _ _
        · next hnot =>
            simpa [hnot] using hended _ .remote none
      · next hgoes =>
          have hlive := h.merged_live hgoes hknown
          split
          · next hheld =>
              have hin : callId ∈ inner.calls.keys :=
                (h.announced callId).mp hheld
              refine ⟨trivial, h.put hown hlive ?_ ?_ h.companion⟩
              · intro other
                constructor
                · exact Or.inr
                · rintro (rfl | hmem)
                  · exact hheld
                  · exact hmem
              · intro other
                constructor
                · exact Or.inr
                · rintro (rfl | hmem)
                  · exact (h.told _).mpr hin
                  · exact hmem
          · refine ⟨⟨fun hleaves => absurd hleaves (by simp [Turn.leaves]),
              trivial⟩, h.put hown hlive ?_ ?_ h.companion⟩
            · intro other
              exact List.mem_insert_iff
            · exact mem_after_started hown told

/-- Whatever operation finds what it must leaves the clients told. -/
theorem Told.apply (h : inner.Told told) {op : Op} (hmeets : inner.Meets op) :
    Answers told (inner.apply op) := by
  cases op with
  | iap2CallState update => exact h.planIap2CallState hmeets
  | iap2Communications update =>
      apply (h.communications_free _).answers
      simp [Outgoing.turn]
  | companionSnapshot addr activeCalls =>
      exact h.applyCompanionSnapshot hmeets
  | companionCallStarted addr call =>
      exact h.applyCompanionCallStarted hmeets
  | companionCallUpdated addr call =>
      exact h.applyCompanionCallUpdated hmeets
  | companionCallEnded callId reason =>
      exact h.applyCompanionCallEnded reason hmeets
  | companionCommunications addr state =>
      exact h.applyCompanionCommunications state hmeets
  | companionLost addr => exact h.clearCompanion hmeets

/-- The snapshot lists the calls under the ids they are held by. -/
theorem Told.mem_snapshot (h : inner.Told told) (callId : String) :
    callId ∈ inner.snapshot.map PhoneCall.callId ↔ callId ∈ told := by
  have hids : inner.snapshot.map PhoneCall.callId = inner.calls.keys := by
    unfold snapshot Table.values Table.keys
    rw [List.map_map]
    apply List.map_congr_left
    intro entry hentry
    exact h.own entry.1 entry.2 (Table.get?_of_mem h.keys hentry)
  rw [hids, h.told callId]

end Inner

namespace World

/-- A step that finds what it must, and broadcasts in time. -/
def Meets (w : World) : Move → Prop
  | .op op => w.inner.Meets op
  | .broadcast task delivered =>
      ∀ before out rest later, before.length = task →
        w.sending = before ++ (out :: rest) :: later →
          Timely before out rest delivered
  | .reorder => True

/-- All turns were fair, and they told of the calls that are held. -/
structure Truthful (w : World) : Prop where
  fair : Fair [] w.turns
  told : w.inner.Told (after [] w.turns)

theorem Truthful.start : Truthful {} where
  fair := trivial
  told := by
    constructor <;> simp [turns, Table.keys]

theorem Truthful.step {w w' : World} {move : Move} (h : w.Truthful)
    (hstep : Step w move w') (hmeets : w.Meets move) : w'.Truthful := by
  cases hstep with
  | op op =>
      have hanswers := h.told.apply hmeets
      constructor
      · rw [turns_op, fair_append]
        exact ⟨h.fair, hanswers.fair⟩
      · rw [turns_op, after_append]
        exact hanswers.told
  | broadcast before later out rest delivered hsending =>
      have hsame := turns_broadcast hsending
        (hmeets before out rest later rfl hsending)
      constructor
      · exact hsame.fair.mpr h.fair
      · exact { h.told with
          told := fun callId => hsame.mem_after.trans (h.told.told callId) }
  | reorder calls announced companionCalls hcalls hannounced hcompanion =>
      exact ⟨h.fair, h.told.reorder hcalls hannounced hcompanion⟩

theorem Truthful.callSet {w : World} (h : w.Truthful) : w.CallSet where
  ids := by
    intro callId hquiet
    rw [mem_announced_of_quiet hquiet]
    exact h.told.mem_snapshot callId
  live := by
    intro call hcall
    obtain ⟨callId, hget⟩ := (Table.mem_values h.told.keys).mp hcall
    exact h.told.live callId call hget
  ends := by
    intro before callId reason later hlog
    have hfair := (fair_append.mp h.fair).1
    rw [hlog, List.filterMap_append, fair_append] at hfair
    exact hfair.2.1 rfl

/-- In a run whose steps find what they must, the clients know the calls that
are held. -/
theorem run_callSet {moves : List Move} {w : World}
    (hrun : Transition.Run
      (fun s move t => Step s move t ∧ s.Meets move) {} moves w) :
    w.CallSet :=
  (hrun.invariant (fun h hstep => Truthful.step h hstep.1 hstep.2)
    Truthful.start).callSet

/-- A broadcast that is delivered, of an operation before which all others are
through with theirs. -/
theorem meets_broadcast {w : World} {task : Nat}
    (h : ∀ queue ∈ w.sending.take task, queue = []) :
    w.Meets (.broadcast task true) := by
  intro before out rest later hlength hsending
  refine ⟨?_, fun hfailed => absurd hfailed Bool.noConfusion⟩
  intro queue hqueue other hother
  have htake : w.sending.take task = before := by
    rw [hsending, ← hlength, List.take_left]
  rw [h queue (htake ▸ hqueue)] at hother
  exact absurd hother List.not_mem_nil

/-- A ringing call is announced and, when the phone ends it, taken back. -/
theorem run_callSet_ringing :
    ∃ w : World, w.CallSet ∧ w.log.length = 2 ∧ w.inner.snapshot = [] := by
  have hrun := run_callSet
    (.cons ⟨Step.op {}
        (.iap2CallState { callUuid := some "c1", status := some 2 }),
      fun _ _ hnone => absurd hnone (by decide)⟩
    (.cons ⟨Step.broadcast _ [] [] _ [] true rfl, meets_broadcast (by simp)⟩
    (.cons ⟨Step.op _
        (.iap2CallState { callUuid := some "c1", status := some 0 }),
      fun _ _ hnone => absurd hnone (by decide)⟩
    (.cons ⟨Step.broadcast _ [[]] [] _ [] true rfl,
      meets_broadcast (by simp)⟩ (.nil _)))))
  exact ⟨_, hrun, by decide, by decide⟩

/-- A call that the phone names without its status is held as one that is
over, and no client hears of it. -/
theorem callSet_fails : ¬ ∀ (moves : List Move) (w : World),
    Transition.Run Step {} moves w → w.CallSet := by
  intro hall
  have hstep := Step.op {} (.iap2CallState { callUuid := some "c1" })
  have hset := hall _ _ (.cons hstep (.nil _))
  exact hset.live (PhoneCall.fresh "c1") (by decide) rfl

end World

end Telephony

end Bridgething
