/-
What clients hear of the calls.  An operation lets go of the lock before it
broadcasts, so that what several have to say may go out in any order; and a
broadcast that fails for a client ends what its operation still had to say.
-/
import Bridgething.Lib.Roster
import Bridgething.Lib.Transition
import Bridgething.Telephony.State

namespace Bridgething

namespace Telephony

open Roster

/-- A message as it was broadcast. -/
inductive PhoneMsg
  | callStarted (call : PhoneCall)
  | callUpdated (call : PhoneCall)
  | callEnded (callId : String) (reason : CallEndReason)
  | communicationsChanged (state : CommunicationsState)
deriving DecidableEq

def Outgoing.said (inner : Inner) : Outgoing → PhoneMsg
  | .callStarted call => .callStarted call
  | .callUpdated call => .callUpdated call
  | .callEnded callId reason => .callEnded callId reason
  | .communications => .communicationsChanged inner.communications

/-- A start announces a call, an end takes it back. -/
def PhoneMsg.turn : PhoneMsg → Option (Turn String)
  | .callStarted call => some (.enter call.callId)
  | .callEnded callId _ => some (.leave callId)
  | .callUpdated _ => none
  | .communicationsChanged _ => none

def Outgoing.turn : Outgoing → Option (Turn String)
  | .callStarted call => some (.enter call.callId)
  | .callEnded callId _ => some (.leave callId)
  | .callUpdated _ => none
  | .communications => none

@[simp] theorem Outgoing.turn_said (inner : Inner) (out : Outgoing) :
    (out.said inner).turn = out.turn := by
  cases out <;> rfl

/-- The manager with what its operations have still to broadcast, one list for
each in the order they had the lock, and all that was broadcast. -/
structure World where
  inner : Inner := {}
  sending : List (List Outgoing) := []
  log : List PhoneMsg := []

/-- The ids announced to the clients and not since ended. -/
def announced (log : List PhoneMsg) : List String :=
  after [] (log.filterMap PhoneMsg.turn)

inductive Move
  | op (op : Op)
  | broadcast (task : Nat) (delivered : Bool)
  | reorder

/-- An operation has the lock; an operation broadcasts its next message, and
breaks off if that fails; a hash table changes its order of iteration. -/
inductive Step : World → Move → World → Prop
  | op (w : World) (op : Op) :
      Step w (.op op)
        { w with
          inner := (w.inner.apply op).1
          sending := w.sending ++ [(w.inner.apply op).2] }
  | broadcast (w : World) (before after : List (List Outgoing))
      (out : Outgoing) (rest : List Outgoing) (delivered : Bool)
      (hsending : w.sending = before ++ (out :: rest) :: after) :
      Step w (.broadcast before.length delivered)
        { w with
          sending := before ++ (if delivered then rest else []) :: after
          log := w.log ++ [out.said w.inner] }
  | reorder (w : World) (calls : Table String PhoneCall)
      (announced companionCalls : List String)
      (hcalls : calls.Perm w.inner.calls)
      (hannounced : announced.Perm w.inner.announced)
      (hcompanion : companionCalls.Perm w.inner.companionCalls) :
      Step w .reorder
        { w with
          inner := { w.inner with
            calls := calls
            announced := announced
            companionCalls := companionCalls } }

namespace World

/-- No operation has still to say that the call started or ended. -/
def Quiet (w : World) (callId : String) : Prop :=
  ∀ queue ∈ w.sending, ∀ out ∈ queue, ∀ turn,
    out.turn = some turn → turn.key ≠ callId

/-- The snapshot lists exactly the calls the clients were told of, and none
that is over; and only such calls were ended. -/
structure CallSet (w : World) : Prop where
  ids : ∀ callId, w.Quiet callId →
    (callId ∈ w.inner.snapshot.map PhoneCall.callId ↔
      callId ∈ announced w.log)
  live : ∀ call ∈ w.inner.snapshot, call.status ≠ .disconnected
  ends : ∀ before callId reason after,
    w.log = before ++ .callEnded callId reason :: after →
      callId ∈ announced before

/-- The turns told and still to be told, each operation's after those of the
operations before it. -/
def turns (w : World) : List (Turn String) :=
  w.log.filterMap PhoneMsg.turn ++
    w.sending.flatten.filterMap Outgoing.turn

theorem turns_op (w : World) (op : Op) :
    turns { w with
      inner := (w.inner.apply op).1
      sending := w.sending ++ [(w.inner.apply op).2] } =
      w.turns ++ (w.inner.apply op).2.filterMap Outgoing.turn := by
  simp [turns]

/-- For a call that no operation has still to speak of, what was told is all
there is. -/
theorem mem_announced_of_quiet {w : World} {callId : String}
    (h : w.Quiet callId) :
    callId ∈ announced w.log ↔ callId ∈ after [] w.turns := by
  have hnone : ((w.sending.flatten.filterMap Outgoing.turn).filter
      fun turn => turn.key = callId) = [] := by
    rw [List.filter_eq_nil_iff]
    intro turn hturn
    obtain ⟨out, hout, heq⟩ := List.mem_filterMap.mp hturn
    obtain ⟨queue, hqueue, hmem⟩ := List.mem_flatten.mp hout
    simpa using h queue hqueue out hmem turn heq
  rw [turns, after_append, mem_after_filter (List.filterMap _ _), hnone]
  rfl

/-- What may be broadcast so that nothing is told out of order: a message that
no earlier operation precedes about the same call, and one that fails only if
no start or end is left after it. -/
def Timely (before : List (List Outgoing)) (out : Outgoing)
    (rest : List Outgoing) (delivered : Bool) : Prop :=
  (∀ queue ∈ before, ∀ other ∈ queue, ∀ earlier turn,
      other.turn = some earlier → out.turn = some turn →
        earlier.key ≠ turn.key) ∧
    (delivered = false → ∀ other ∈ rest, other.turn = none)

theorem filterMap_rest {rest : List Outgoing} {delivered : Bool}
    (h : delivered = false → ∀ other ∈ rest, other.turn = none) :
    (if delivered then rest else []).filterMap Outgoing.turn =
      rest.filterMap Outgoing.turn := by
  cases delivered with
  | true => rfl
  | false => exact (List.filterMap_eq_nil_iff.mpr (h rfl)).symm

/-- A timely broadcast keeps the turns about each call in their order. -/
theorem turns_broadcast {w : World} {before later : List (List Outgoing)}
    {out : Outgoing} {rest : List Outgoing} {delivered : Bool}
    (hsending : w.sending = before ++ (out :: rest) :: later)
    (h : Timely before out rest delivered) :
    Same
      (turns { w with
        sending := before ++ (if delivered then rest else []) :: later
        log := w.log ++ [out.said w.inner] })
      w.turns := by
  have hrest := filterMap_rest h.2
  unfold turns
  rw [hsending]
  simp only [List.filterMap_append, List.flatten_append, List.flatten_cons,
    hrest]
  cases hturn : out.turn with
  | none =>
      have hsaid : [out.said w.inner].filterMap PhoneMsg.turn = [] := by
        simp [hturn]
      have hout : (out :: rest).filterMap Outgoing.turn =
          rest.filterMap Outgoing.turn := by
        simp [hturn]
      rw [hsaid, hout, List.append_nil]
      exact fun _ => rfl
  | some turn =>
      have hsaid : [out.said w.inner].filterMap PhoneMsg.turn = [turn] := by
        simp [hturn]
      have hout : (out :: rest).filterMap Outgoing.turn =
          turn :: rest.filterMap Outgoing.turn := by
        simp [hturn]
      have hfirst : ∀ earlier ∈ before.flatten.filterMap Outgoing.turn,
          earlier.key ≠ turn.key := by
        intro earlier hearlier
        obtain ⟨other, hother, heq⟩ := List.mem_filterMap.mp hearlier
        obtain ⟨queue, hqueue, hmem⟩ := List.mem_flatten.mp hother
        exact h.1 queue hqueue other hmem earlier turn heq hturn
      have hforward := same_forward (w.log.filterMap PhoneMsg.turn) hfirst
        (rest.filterMap Outgoing.turn ++
          later.flatten.filterMap Outgoing.turn)
      rw [hsaid, hout]
      simpa using hforward

end World

end Telephony

end Bridgething
