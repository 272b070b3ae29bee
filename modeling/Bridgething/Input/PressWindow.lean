/-
Presses of the launcher key counted over a span: the window that is pruned as
presses come fires when enough of them fall within the span.
-/
import Mathlib

namespace Bridgething

namespace Input

def KEY_DOWN : Int := 1

inductive Key
  | launcher
  | other
deriving Repr, DecidableEq

/-- A button event, its time counted from any moment before the first. -/
structure KeyEvent where
  key : Key
  value : Int
  time : Nat
deriving Repr, DecidableEq

structure PressWindow where
  needed : Nat
  span : Nat
  presses : List Nat
deriving Repr, DecidableEq

namespace PressWindow

def new (needed span : Nat) : PressWindow := ⟨needed, span, []⟩

/-- The window after a key event, and whether it fires. -/
def key (window : PressWindow) (event : KeyEvent) : PressWindow × Bool :=
  if event.value ≠ KEY_DOWN then (window, false)
  else if event.key = .other then ({ window with presses := [] }, false)
  else
    let presses := window.presses.dropWhile
      (fun first => event.time - first > window.span) ++ [event.time]
    if presses.length < window.needed then
      ({ window with presses := presses }, false)
    else ({ window with presses := [] }, true)

def after (window : PressWindow) (events : List KeyEvent) : PressWindow :=
  events.foldl (fun window event => (window.key event).1) window

/-- The window fires at the event of that index. -/
def fires (window : PressWindow) (events : List KeyEvent) (index : Nat) :
    Bool :=
  events[index]?.any fun event =>
    ((window.after (events.take index)).key event).2

end PressWindow

/-! ### The window as it is meant -/

def KeyEvent.presses (event : KeyEvent) (key : Key) : Bool :=
  event.key = key && event.value = KEY_DOWN

section Counting

variable (window : PressWindow) (events : List KeyEvent)

/-- The event of that index starts the count anew for those after it. -/
def resets (index : Nat) : Bool :=
  window.fires events index || events[index]?.any (·.presses .other)

/-- The times of the launcher presses before an index, since the last firing or
press of another key. -/
def pending (index : Nat) : List Nat :=
  (List.range index).filterMap fun before =>
    if ∀ between < index, before ≤ between →
      resets window events between = false
    then (events[before]?.filter (·.presses .launcher)).map (·.time)
    else none

end Counting

section Windows

variable {window : PressWindow} {events : List KeyEvent} {index : Nat}
  {event : KeyEvent}

theorem pending_succ (hevent : events[index]? = some event) :
    pending window events (index + 1) =
      if resets window events index then []
      else pending window events index ++
        if event.presses .launcher then [event.time] else [] := by
  cases hresets : resets window events index with
  | true =>
      apply List.filterMap_eq_nil_iff.mpr
      intro before hbefore
      apply if_neg
      intro hnone
      have hle := Nat.lt_succ_iff.mp (List.mem_range.mp hbefore)
      rw [hnone index (Nat.lt_succ_self index) hle] at hresets
      contradiction
  | false =>
      have hsame : ∀ before, (∀ between < index + 1, before ≤ between →
            resets window events between = false) ↔
          ∀ between < index, before ≤ between →
            resets window events between = false := by
        intro before
        constructor
        · exact fun h between hlt => h between (Nat.lt_succ_of_lt hlt)
        · intro h between hlt hle
          rcases Nat.lt_succ_iff_lt_or_eq.mp hlt with hlt | rfl
          · exact h between hlt hle
          · exact hresets
      have hlast : ∀ between < index, index ≤ between →
          resets window events between = false :=
        fun between hlt hle => absurd hlt (Nat.not_lt.mpr hle)
      simp only [pending, hsame, List.range_succ, List.filterMap_append,
        Bool.false_eq_true, ↓reduceIte]
      congr 1
      rw [List.filterMap_cons, if_pos hlast, hevent]
      cases hpress : event.presses .launcher <;> simp [Option.filter, hpress]

/-- What is counted are times of events that came. -/
theorem pending_sublist (hle : index ≤ events.length) :
    (pending window events index).Sublist
      ((events.take index).map KeyEvent.time) := by
  induction index with
  | zero => exact List.nil_sublist _
  | succ index ih =>
      have hevent := List.getElem?_eq_getElem hle
      have htake : events.take (index + 1) =
          events.take index ++ [events[index]] :=
        List.take_succ_eq_append_getElem hle
      rw [pending_succ hevent, htake, List.map_append]
      split
      · exact List.nil_sublist _
      · refine (ih (Nat.le_of_succ_le hle)).append ?_
        split
        · exact List.Sublist.refl _
        · exact List.nil_sublist _

theorem after_succ (hevent : events[index]? = some event) :
    window.after (events.take (index + 1)) =
      ((window.after (events.take index)).key event).1 := by
  rw [PressWindow.after, List.take_add_one, hevent, List.foldl_append]
  rfl

theorem fires_eq (hevent : events[index]? = some event) :
    window.fires events index =
      ((window.after (events.take index)).key event).2 := by
  rw [PressWindow.fires, hevent, Option.any_some]

/-- Of times in order, the old ones are in front. -/
theorem dropWhile_old {times : List Nat} (horder : times.Pairwise (· ≤ ·))
    (now span : Nat) :
    times.dropWhile (fun first => now - first > span) =
      times.filter fun first => now - first ≤ span := by
  induction times with
  | nil => rfl
  | cons first rest ih =>
      obtain ⟨hfirst, hrest⟩ := List.pairwise_cons.mp horder
      by_cases hold : now - first > span
      · rw [List.dropWhile_cons_of_pos (by simpa only [decide_eq_true_eq]),
          List.filter_cons_of_neg (by simpa only [decide_eq_true_eq, not_le]),
          ih hrest]
      · rw [List.dropWhile_cons_of_neg (by simpa only [decide_eq_true_eq])]
        symm
        apply List.filter_eq_self.mpr
        intro later hlater
        have hle : first ≤ later := by
          rcases List.mem_cons.mp hlater with rfl | hmem
          · exact Nat.le_refl _
          · exact hfirst later hmem
        simp only [decide_eq_true_eq]
        omega

end Windows

section Running

variable {window current : PressWindow} {events : List KeyEvent} {index : Nat}
  {event : KeyEvent}

theorem key_idle (h : event.value ≠ KEY_DOWN) :
    window.key event = (window, false) := by
  rw [PressWindow.key, if_pos h]

theorem key_other (hdown : event.value = KEY_DOWN) (hkey : event.key = .other) :
    window.key event = ({ window with presses := [] }, false) := by
  rw [PressWindow.key, if_neg (not_not.mpr hdown), if_pos hkey]

theorem key_launcher (hdown : event.value = KEY_DOWN)
    (hkey : event.key = .launcher) :
    (window.key event).2 = decide (window.needed ≤
        (window.presses.dropWhile
          (fun first => event.time - first > window.span)).length + 1) ∧
      (window.key event).1 = { window with
        presses := if (window.key event).2 then [] else
          window.presses.dropWhile
            (fun first => event.time - first > window.span) ++
              [event.time] } := by
  have hother : event.key ≠ .other := by simp [hkey]
  rw [PressWindow.key, if_neg (not_not.mpr hdown), if_neg hother]
  simp only [List.length_append, List.length_singleton]
  split
  · next hfew => simpa using hfew
  · next henough => simpa using henough

/-- What the window holds is what is counted, less some that are too old. -/
structure Follows (window : PressWindow) (events : List KeyEvent) (index : Nat)
    (current : PressWindow) : Prop where
  needed : current.needed = window.needed
  span : current.span = window.span
  pruned : ∃ pruned,
    pending window events index = pruned ++ current.presses ∧
    ∀ old ∈ pruned, ∃ seen ∈ events.take index, seen.time - old > window.span

/-- What was pruned counts for no later press. -/
theorem Follows.kept (h : Follows window events index current)
    (hsorted : events.Pairwise fun first later => first.time ≤ later.time)
    (hevent : events[index]? = some event) :
    current.presses.dropWhile (fun first => event.time - first > current.span) =
      (pending window events index).filter
        fun first => event.time - first ≤ window.span := by
  obtain ⟨hlt, hget⟩ := List.getElem?_eq_some_iff.mp hevent
  obtain ⟨pruned, hpending, hold⟩ := h.pruned
  have hordered : (pending window events index).Pairwise (· ≤ ·) := by
    refine List.Pairwise.sublist (pending_sublist (Nat.le_of_lt hlt)) ?_
    exact List.pairwise_map.mpr (hsorted.sublist (List.take_sublist _ _))
  rw [hpending] at hordered ⊢
  rw [h.span, dropWhile_old (List.pairwise_append.mp hordered).2.1,
    List.filter_append]
  have hnone : pruned.filter (fun first => event.time - first ≤ window.span) =
      [] := by
    apply List.filter_eq_nil_iff.mpr
    intro old hmem
    obtain ⟨seen, hseen, hgap⟩ := hold old hmem
    have hle : seen.time ≤ event.time := by
      obtain ⟨before, hbefore, rfl⟩ := List.getElem_of_mem hseen
      rw [List.length_take] at hbefore
      rw [List.getElem_take, ← hget]
      exact List.pairwise_iff_getElem.mp hsorted _ _ _ _
        (Nat.lt_of_lt_of_le hbefore (Nat.min_le_left _ _))
    simp only [decide_eq_true_eq]
    omega
  rw [hnone, List.nil_append]

theorem presses_launcher :
    event.presses .launcher = true ↔
      event.key = .launcher ∧ event.value = KEY_DOWN := by
  simp [KeyEvent.presses]

theorem presses_other :
    event.presses .other = true ↔
      event.key = .other ∧ event.value = KEY_DOWN := by
  simp [KeyEvent.presses]

/-- The window fires on a launcher press that makes enough of them. -/
theorem Follows.fires_when (h : Follows window events index current)
    (hsorted : events.Pairwise fun first later => first.time ≤ later.time)
    (hevent : events[index]? = some event) :
    (current.key event).2 = true ↔ event.presses .launcher ∧
      window.needed ≤ (pending window events index).countP
        (fun first => event.time - first ≤ window.span) + 1 := by
  rw [presses_launcher]
  by_cases hdown : event.value = KEY_DOWN
  · cases hkey : event.key with
    | other => simp [key_other hdown hkey]
    | launcher =>
        rw [(key_launcher hdown hkey).1, h.kept hsorted hevent, h.needed,
          List.countP_eq_length_filter]
        simp [hdown]
  · simp [key_idle hdown, hdown]

theorem Follows.step (h : Follows window events index current)
    (hevent : events[index]? = some event)
    (hcurrent : current = window.after (events.take index)) :
    Follows window events (index + 1) (current.key event).1 := by
  have hfires : window.fires events index = (current.key event).2 := by
    rw [fires_eq hevent, hcurrent]
  have hresets : resets window events index =
      ((current.key event).2 || event.presses .other) := by
    rw [resets, hfires, hevent, Option.any_some]
  have hpending := @pending_succ window events index event hevent
  rw [hresets] at hpending
  obtain ⟨pruned, hcounted, hold⟩ := h.pruned
  have htake : events.take (index + 1) = events.take index ++ [event] := by
    rw [List.take_add_one, hevent, Option.toList_some]
  have hlater : ∀ old ∈ pruned,
      ∃ seen ∈ events.take (index + 1), seen.time - old > window.span := by
    intro old hmem
    obtain ⟨seen, hseen, hgap⟩ := hold old hmem
    exact ⟨seen, htake ▸ List.mem_append_left _ hseen, hgap⟩
  by_cases hdown : event.value = KEY_DOWN
  · cases hkey : event.key with
    | other =>
        have hother := presses_other.mpr ⟨hkey, hdown⟩
        simp only [hother, Bool.or_true, ↓reduceIte] at hpending
        rw [key_other hdown hkey]
        exact ⟨h.needed, h.span, [], hpending, by simp⟩
    | launcher =>
        have hpress := presses_launcher.mpr ⟨hkey, hdown⟩
        have hother : event.presses .other = false := by
          simp [KeyEvent.presses, hkey]
        simp only [hother, Bool.or_false, hpress, ↓reduceIte] at hpending
        rw [(key_launcher hdown hkey).2]
        refine ⟨h.needed, h.span, ?_⟩
        cases hfired : (current.key event).2 with
        | true =>
            rw [hfired] at hpending
            exact ⟨[], hpending, by simp⟩
        | false =>
            rw [hfired] at hpending
            let old : Nat → Bool := fun first =>
              event.time - first > current.span
            refine ⟨pruned ++ current.presses.takeWhile old, ?_, ?_⟩
            · simp only [Bool.false_eq_true, ↓reduceIte] at hpending ⊢
              rw [hpending, hcounted, List.append_assoc, List.append_assoc,
                ← List.append_assoc (List.takeWhile old _),
                List.takeWhile_append_dropWhile]
            · intro first hmem
              rcases List.mem_append.mp hmem with hmem | hmem
              · exact hlater first hmem
              · have hgap := List.mem_takeWhile_imp hmem
                rw [decide_eq_true_eq, h.span] at hgap
                exact ⟨event, htake ▸ List.mem_append_right _
                  (List.mem_singleton_self event), hgap⟩
  · have hpress : ∀ key, event.presses key = false := by
      intro key
      simp [KeyEvent.presses, hdown]
    rw [key_idle hdown] at hpending ⊢
    simp only [hpress, Bool.or_false, Bool.false_eq_true, ↓reduceIte,
      List.append_nil] at hpending
    exact ⟨h.needed, h.span, pruned, hpending.trans hcounted, hlater⟩

theorem follows_after (needed span : Nat)
    (hle : index ≤ events.length) :
    Follows (.new needed span) events index
      ((PressWindow.new needed span).after (events.take index)) := by
  induction index with
  | zero => exact ⟨rfl, rfl, [], rfl, by simp⟩
  | succ index ih =>
      have hevent := List.getElem?_eq_getElem hle
      rw [after_succ hevent]
      exact (ih (Nat.le_of_succ_le hle)).step hevent rfl

/-- Over events in order of time, a window fires at an event if and only if it
is a press of the launcher, and enough such presses since the last firing or
press of another key, this one among them, are within the span that ends at
it. -/
theorem fires_iff (needed span : Nat) {events : List KeyEvent}
    (hsorted : events.Pairwise fun first later => first.time ≤ later.time)
    {index : Nat} {event : KeyEvent} (hevent : events[index]? = some event) :
    (PressWindow.new needed span).fires events index = true ↔
      event.presses .launcher ∧
        needed ≤ (pending (.new needed span) events index).countP
          (fun first => event.time - first ≤ span) + 1 := by
  rw [fires_eq hevent]
  have hlt := (List.getElem?_eq_some_iff.mp hevent).1
  exact (follows_after needed span (Nat.le_of_lt hlt)).fires_when hsorted
    hevent

/-- The second press comes 250 ms after the first, within the span. -/
theorem fires_iff_twoPresses :
    (PressWindow.new 2 400).fires
        [⟨.launcher, KEY_DOWN, 0⟩, ⟨.launcher, 0, 60⟩,
          ⟨.launcher, KEY_DOWN, 250⟩] 2 = true ↔
      (KeyEvent.mk .launcher KEY_DOWN 250).presses .launcher ∧
        2 ≤ (pending (.new 2 400) [⟨.launcher, KEY_DOWN, 0⟩,
          ⟨.launcher, 0, 60⟩, ⟨.launcher, KEY_DOWN, 250⟩] 2).countP
            (fun first => 250 - first ≤ 400) + 1 :=
  fires_iff 2 400 (by decide) rfl

end Running

end Input

end Bridgething
