/-
Flow control by acknowledged offsets.  The receiver acknowledges where a piece
ends unless that is within an interval of its last ack; a sender with everything
delivered and acknowledged is then within an interval of what it knows acked.
-/
import Bridgething.Lib.Transition

namespace Credit

open Transition

/-- `sent` is where the last piece ends, `acked` what the sender knows of,
`marked` the last ack of the receiver.  Pieces on their way stand with their
ends. -/
structure State where
  sent : Nat
  acked : Nat
  inFlight : List Nat
  marked : Nat
  acks : List Nat
deriving Repr, DecidableEq

inductive Label
  | send (upto : Nat)
  | take (upto : Nat)
  | note (upto : Nat)
deriving Repr, DecidableEq

/-- The steps of both sides, over a link that may reorder. -/
inductive Step (interval : Nat) : State → Label → State → Prop
  | send {s : State} (upto : Nat) :
      Step interval s (.send upto)
        { s with sent := upto, inFlight := s.inFlight ++ [upto] }
  | quiet {s : State} (upto : Nat) (hflight : upto ∈ s.inFlight)
      (hnear : upto < s.marked + interval) :
      Step interval s (.take upto)
        { s with inFlight := s.inFlight.erase upto }
  | ack {s : State} (upto : Nat) (hflight : upto ∈ s.inFlight)
      (hrise : s.marked ≤ upto) :
      Step interval s (.take upto)
        { s with
          inFlight := s.inFlight.erase upto
          marked := upto
          acks := s.acks ++ [upto] }
  | note {s : State} (upto : Nat) (hflight : upto ∈ s.acks) :
      Step interval s (.note upto)
        { s with acked := max s.acked upto, acks := s.acks.erase upto }

/-- The end of the last piece is acked, on its way, or near the last ack; and
the last ack is known, or on its way back. -/
structure Inv (interval : Nat) (s : State) : Prop where
  sent : s.sent ≤ s.acked ∨ s.sent ∈ s.inFlight ∨ s.sent < s.marked + interval
  marked : s.marked ≤ s.acked ∨ s.marked ∈ s.acks

variable {interval : Nat} {s t : State} {label : Label}

theorem Inv.step (hinterval : 0 < interval) (h : Inv interval s)
    (hstep : Step interval s label t) : Inv interval t := by
  cases hstep with
  | send upto =>
      constructor
      · right; left
        exact List.mem_append_right _ (List.mem_singleton_self _)
      · exact h.marked
  | quiet upto hflight hnear =>
      constructor
      · rcases h.sent with hacked | hflying | hclose
        · exact Or.inl hacked
        · by_cases hlast : s.sent = upto
          · right; right
            rw [← hlast] at hnear
            exact hnear
          · right; left
            exact (List.mem_erase_of_ne hlast).mpr hflying
        · exact Or.inr (Or.inr hclose)
      · exact h.marked
  | ack upto hflight hrise =>
      constructor
      · rcases h.sent with hacked | hflying | hclose
        · exact Or.inl hacked
        · by_cases hlast : s.sent = upto
          · right; right
            simp only [hlast]
            omega
          · right; left
            exact (List.mem_erase_of_ne hlast).mpr hflying
        · right; right
          simp only
          omega
      · right
        exact List.mem_append_right _ (List.mem_singleton_self _)
  | note upto hflight =>
      constructor
      · rcases h.sent with hacked | hrest
        · exact Or.inl (Nat.le_trans hacked (Nat.le_max_left _ _))
        · exact Or.inr hrest
      · rcases h.marked with hacked | hback
        · exact Or.inl (Nat.le_trans hacked (Nat.le_max_left _ _))
        · by_cases hlast : s.marked = upto
          · left
            rw [hlast]
            exact Nat.le_max_right _ _
          · right
            exact (List.mem_erase_of_ne hlast).mpr hback

/-- With everything delivered and noted, less than an interval is unacked. -/
theorem Inv.settled (hinterval : 0 < interval) (h : Inv interval s)
    (hflight : s.inFlight = []) (hacks : s.acks = []) :
    s.sent < s.acked + interval := by
  have hmarked : s.marked ≤ s.acked := by
    rcases h.marked with hle | hback
    · exact hle
    · rw [hacks] at hback
      exact absurd hback List.not_mem_nil
  rcases h.sent with hacked | hflying | hclose
  · omega
  · rw [hflight] at hflying
    exact absurd hflying List.not_mem_nil
  · omega

end Credit
