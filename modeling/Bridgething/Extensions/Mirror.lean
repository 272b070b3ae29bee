/-
What a child knows of its devices, from the messages written to it, and what the
supervisor holds of them.
-/
import Bridgething.Extensions.Supervisor

namespace Bridgething

namespace Extensions

structure Known where
  name : String
  settings : Settings
  active : Bool

/-- What a child knows of each device. -/
abbrev View := String → Option Known

namespace View

def put (view : View) (device : String) (known : Option Known) : View :=
  fun other => if other = device then known else view other

def see (view : View) : HostMessage → View
  | .hello _ _ _ _ => fun _ => none
  | .deviceConnected device name config active =>
      view.put device (some ⟨name, config, active⟩)
  | .deviceDisconnected device => view.put device none
  | .deviceActive device active =>
      view.put device ((view device).map fun known =>
        { known with active := active })
  | .configChanged device key value =>
      view.put device ((view device).map fun known =>
        { known with settings := Supervisor.changed known.settings key value })
  | .stop => view

end View

/-- What the messages written since the hello tell. -/
def Pipe.view (pipe : Pipe) : View :=
  pipe.written.foldl View.see fun _ => none

theorem Pipe.view_write (pipe : Pipe) (message : HostMessage) :
    ({ pipe with written := pipe.written ++ [message] } : Pipe).view =
      pipe.view.see message := by
  simp [Pipe.view, List.foldl_append]

/-- What is held of a device for a webapp. -/
def heldOf (devices : OrderedMap String Device) (device : String)
    (webapp : Uuid) : Known :=
  let held := (devices.get? device).getD {}
  ⟨held.name, held.settings webapp, held.active = some webapp⟩

def Known.message (known : Known) (device : String) : HostMessage :=
  .deviceConnected device known.name known.settings known.active

theorem Known.eq_of_message {known other : Known} {device : String}
    (h : known.message device = other.message device) : known = other := by
  obtain ⟨name, settings, active⟩ := known
  obtain ⟨name', settings', active'⟩ := other
  obtain ⟨-, rfl, rfl, rfl⟩ := HostMessage.deviceConnected.inj h
  rfl

/-! ### One child -/

/-- A child is announced the devices that it knows of, and knows each under the
name it was announced with: only an announcement tells a name. -/
structure Heard (child : Child) (view : View) : Prop where
  known : ∀ device, (child.announced.get? device).isSome ↔
    (view device).isSome
  named : ∀ device message, child.announced.get? device = some message →
    ∃ last now, message = Known.message last device ∧
      view device = some now ∧ now.name = last.name

/-- What a child knows of its devices is what is held of them. -/
def Mirrors (devices : OrderedMap String Device) (webapp : Uuid)
    (view : View) : Prop :=
  ∀ device known, view device = some known →
    known = heldOf devices device webapp

theorem heard_greeted (child : Child) (hnone : child.announced = .empty) :
    Heard child fun _ => none := by
  refine ⟨fun device => ?_, fun device message h => ?_⟩
  · rw [hnone]
    rfl
  · rw [hnone] at h
    exact nomatch h

theorem Child.write_stdin {child : Child} {pipe : Pipe}
    (h : child.stdin = some pipe) (message : HostMessage) :
    (child.write message).stdin =
      some { pipe with written := pipe.written ++ [message] } := by
  rw [Child.write, h]
  rfl

/-- What a child knows after an announcement, and that it is announced it. -/
theorem Child.announce_heard {child : Child} {pipe : Pipe}
    (hpipe : child.stdin = some pipe) (h : Heard child pipe.view)
    (device : String) (known : Known) :
    ∃ next : Pipe,
      (child.announce device (known.message device)).stdin = some next ∧
        Heard (child.announce device (known.message device)) next.view ∧
        next.view = if child.announced.get? device =
            some (known.message device) then pipe.view
          else pipe.view.put device (some known) := by
  unfold Child.announce
  split
  · exact ⟨pipe, hpipe, h, rfl⟩
  · refine ⟨_, Child.write_stdin hpipe _, ?_, Pipe.view_write pipe _⟩
    rw [Pipe.view_write]
    refine ⟨fun other => ?_, fun other message hother => ?_⟩
    · change ((child.announced.put device _).get? other).isSome ↔
        (pipe.view.put device (some known) other).isSome
      rw [OrderedMap.get?_put, View.put]
      split
      · exact Iff.rfl
      · exact h.known other
    · change (child.announced.put device _).get? other = _ at hother
      rw [OrderedMap.get?_put] at hother
      change ∃ last now, message = Known.message last other ∧
        pipe.view.put device (some known) other = some now ∧
          now.name = last.name
      rw [View.put]
      split at hother
      · next heq =>
          subst heq
          rw [if_pos rfl]
          exact ⟨known, known, (Option.some.inj hother).symm, rfl, rfl⟩
      · next hne =>
          rw [if_neg hne]
          exact h.named other message hother

theorem Child.announce_announce (child : Child) (device : String)
    (message : HostMessage) :
    (child.announce device message).announce device message =
      child.announce device message := by
  have hself : (child.announce device message).announced.get? device =
      some message := by
    unfold Child.announce
    split
    · next h => exact h
    · exact (OrderedMap.get?_put _ _ _ _).trans (if_pos rfl)
  rw [Child.announce, if_pos hself]

/-- A child that is not announced a device hears nothing of it. -/
theorem Child.tell_heard {child : Child} {pipe : Pipe}
    (hpipe : child.stdin = some pipe) (h : Heard child pipe.view)
    (device : String) {message : HostMessage} {told : Known → Known}
    (hmessage : ∀ view : View, view.see message =
      view.put device ((view device).map told))
    (hname : ∀ known, (told known).name = known.name) :
    ∃ next : Pipe, (child.tell device message).stdin = some next ∧
      Heard (child.tell device message) next.view ∧
      next.view = pipe.view.put device ((pipe.view device).map told) := by
  unfold Child.tell
  split
  · refine ⟨_, Child.write_stdin hpipe _, ?_, ?_⟩
    · rw [Pipe.view_write, hmessage]
      refine ⟨fun other => ?_, fun other last hother => ?_⟩
      · change (child.announced.get? other).isSome ↔ _
        rw [h.known other, View.put]
        split
        · next heq => rw [heq, Option.isSome_map]
        · exact Iff.rfl
      · obtain ⟨known, now, hlast, hnow, hsame⟩ := h.named other last hother
        rw [View.put]
        split
        · next heq =>
            rw [← heq, hnow]
            exact ⟨known, told now, hlast, rfl, (hname now).trans hsame⟩
        · exact ⟨known, now, hlast, hnow, hsame⟩
    · rw [Pipe.view_write, hmessage]
  · next hnone =>
      refine ⟨pipe, hpipe, h, ?_⟩
      have hview : pipe.view device = none := by
        rw [h.known device] at hnone
        exact Option.not_isSome_iff_eq_none.mp hnone
      funext other
      rw [View.put]
      split
      · next heq => rw [heq, hview, Option.map_none]
      · rfl

theorem Child.disconnect_heard {child : Child} {pipe : Pipe}
    (hpipe : child.stdin = some pipe) (h : Heard child pipe.view)
    (device : String) :
    ∃ next : Pipe, (child.disconnect device).stdin = some next ∧
      Heard (child.disconnect device) next.view ∧
      next.view = pipe.view.put device none := by
  unfold Child.disconnect
  split
  · next hnone =>
      refine ⟨pipe, hpipe, h, ?_⟩
      have hview : pipe.view device = none := by
        have hknown := h.known device
        rw [Option.isNone_iff_eq_none.mp hnone] at hknown
        exact Option.not_isSome_iff_eq_none.mp
          fun hsome => Bool.false_ne_true (hknown.mpr hsome)
      funext other
      rw [View.put]
      split
      · next heq => rw [heq, hview]
      · rfl
  · refine ⟨_, Child.write_stdin hpipe _, ?_, Pipe.view_write pipe _⟩
    rw [Pipe.view_write]
    refine ⟨fun other => ?_, fun other last hother => ?_⟩
    · change ((child.announced.remove device).get? other).isSome ↔
        (pipe.view.put device none other).isSome
      rw [OrderedMap.get?_remove, View.put]
      split
      · exact Iff.rfl
      · exact h.known other
    · change (child.announced.remove device).get? other = _ at hother
      rw [OrderedMap.get?_remove] at hother
      change ∃ known now, last = Known.message known other ∧
        pipe.view.put device none other = some now ∧ now.name = known.name
      rw [View.put]
      split at hother
      · exact nomatch hother
      · next hne =>
          rw [if_neg hne]
          exact h.named other last hother

theorem Child.disconnect_disconnect (child : Child) (device : String) :
    (child.disconnect device).disconnect device = child.disconnect device := by
  have hnone : ((child.disconnect device).announced.get? device).isNone := by
    unfold Child.disconnect
    split
    · next h => exact h
    · change ((child.announced.remove device).get? device).isNone
      rw [OrderedMap.get?_remove, if_pos rfl]
      rfl
  rw [Child.disconnect, if_pos hnone]

end Extensions

end Bridgething
