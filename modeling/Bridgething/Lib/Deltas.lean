/-
Flow control by consumed amounts.  A receiver counts what it has written and
not yet acknowledged, and acknowledges the count when it reaches an interval or
earlier; a sender adds up what it is told.
-/
import Mathlib

namespace Deltas

/-- `pieces` are on their way or wait to be written, in order; `acks` are on
their way back. -/
structure State where
  sent : Nat
  pieces : List Nat
  written : Nat
  unacked : Nat
  acks : List Nat
  acked : Nat
deriving Repr, DecidableEq

def State.empty : State := ⟨0, [], 0, 0, [], 0⟩

inductive Step (interval : Nat) : State → State → Prop
  | send {s : State} (size : Nat) :
      Step interval s
        { s with sent := s.sent + size, pieces := s.pieces ++ [size] }
  | quiet {s : State} {size : Nat} {rest : List Nat}
      (hpieces : s.pieces = size :: rest)
      (hnear : s.unacked + size < interval) :
      Step interval s
        { s with
          pieces := rest
          written := s.written + size
          unacked := s.unacked + size }
  | ack {s : State} {size : Nat} {rest : List Nat}
      (hpieces : s.pieces = size :: rest) :
      Step interval s
        { s with
          pieces := rest
          written := s.written + size
          unacked := 0
          acks := s.acks ++ [s.unacked + size] }
  | flush {s : State} :
      Step interval s { s with unacked := 0, acks := s.acks ++ [s.unacked] }
  | note {s : State} {amount : Nat} (hack : amount ∈ s.acks) :
      Step interval s
        { s with acks := s.acks.erase amount, acked := s.acked + amount }

/-- All that was sent is written or on its way, all that was written is
acknowledged once or counted. -/
structure Inv (interval : Nat) (s : State) : Prop where
  sent : s.sent = s.written + s.pieces.sum
  written : s.written = s.acked + s.acks.sum + s.unacked
  near : s.unacked < interval

variable {interval : Nat} {s t : State}

theorem Inv.empty (hinterval : 0 < interval) : Inv interval State.empty :=
  ⟨rfl, rfl, hinterval⟩

theorem Inv.step (h : Inv interval s) (hstep : Step interval s t) :
    Inv interval t := by
  have hsent := h.sent
  have hwritten := h.written
  have hnear := h.near
  cases hstep with
  | send size =>
      constructor
      · simp only [List.sum_append, List.sum_singleton]
        omega
      · exact hwritten
      · exact hnear
  | quiet hpieces hclose =>
      rw [hpieces, List.sum_cons] at hsent
      constructor
      · simp only
        omega
      · simp only
        omega
      · exact hclose
  | ack hpieces =>
      rw [hpieces, List.sum_cons] at hsent
      constructor
      · simp only
        omega
      · simp only [List.sum_append, List.sum_singleton]
        omega
      · simp only
        omega
  | flush =>
      constructor
      · exact hsent
      · simp only [List.sum_append, List.sum_singleton]
        omega
      · simp only
        omega
  | note hack =>
      have hsum := (List.perm_cons_erase hack).sum_eq
      rw [List.sum_cons] at hsum
      constructor
      · exact hsent
      · simp only
        omega
      · exact hnear

/-- With all written and every ack noted, less than an interval is unacked. -/
theorem Inv.settled (h : Inv interval s) (hpieces : s.pieces = [])
    (hacks : s.acks = []) : s.sent < s.acked + interval := by
  have hsent := h.sent
  have hwritten := h.written
  have hnear := h.near
  rw [hpieces, List.sum_nil] at hsent
  rw [hacks, List.sum_nil] at hwritten
  omega

end Deltas
