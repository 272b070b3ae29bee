/-
No transfer is larger than the budget it was begun under, whatever the actor is
asked to do and whatever fails.
-/
import Bridgething.Transfer.Holdings

namespace Bridgething

namespace Chunked

/-- Whatever joins is no larger than the budget. -/
def sized : Guards where
  enters := fun held _ size => size ≤ held.budget
  marks := fun _ => True

structure Holding.Sized (safeFilename : String → String) (held : Holding) :
    Prop where
  sound : held.Sound safeFilename
  sized : ∀ {id transfer}, held.transfers.get? id = some transfer →
    transfer.expectedSize ≤ held.budget

section

variable {safeFilename : String → String} {sha256Hex : Bytes → String}
variable {env : Env} {node : Node} {event : Event}

theorem Move.sized {held next : Holding}
    (hsafe : Function.Injective safeFilename)
    (hmove : Move safeFilename env Chunked.sized held next)
    (h : held.Sized safeFilename) : next.Sized safeFilename where
  sound := hmove.sound hsafe h.sound
  sized := by
    intro id new hget
    rw [hmove.budget_eq]
    cases hmove.came hget with
    | entered habsent hplace hempty hfresh hfile hvacant hlink henters =>
        exact henters
    | kept hold hsize =>
        rw [hsize]
        exact h.sized hold

theorem Moves.sized {held next : Holding}
    (hsafe : Function.Injective safeFilename)
    (hmoves : Moves safeFilename env Chunked.sized held next)
    (h : held.Sized safeFilename) : next.Sized safeFilename := by
  induction hmoves with
  | refl => exact h
  | tail _ hmove ih => exact hmove.sized hsafe ih

theorem Holding.Sized.fresh (safeFilename : String → String) (dir : Path)
    (budget : Nat) {disk : Disk} (hdisk : disk.Sound) :
    (Node.fresh dir budget disk).holding.Sized safeFilename := by
  refine ⟨Holding.Sound.fresh safeFilename dir budget hdisk, ?_⟩
  simp [Node.fresh, Node.holding]

theorem Holding.Sized.small (hbudget : node.actor.budget < U64_MAX)
    (h : node.holding.Sized safeFilename) (id : String) (transfer : Transfer)
    (hget : node.actor.transfers.get? id = some transfer) :
    transfer.expectedSize < U64_MAX := by
  have hle : transfer.expectedSize ≤ node.actor.budget := h.sized hget
  exact Nat.lt_of_le_of_lt hle hbudget

/-- What is to be begun fresh has passed the actor's own check of its size. -/
theorem Node.size_le_of_fresh {id : String} {size : Nat}
    {sha256 : Option String}
    (h : (node.beginFastPath env id size sha256).2 = .fresh) :
    size ≤ node.actor.budget := by
  by_contra hlarge
  have hreject : node.beginFastPath env id size sha256 =
      (node, .reject (.tooLarge id size)) := if_pos (Nat.not_le.mp hlarge)
  rw [hreject] at h
  contradiction

theorem Holding.Sized.admits (h : node.holding.Sized safeFilename) :
    node.Admits safeFilename sha256Hex env Chunked.sized event where
  begins := by
    intro id size sha256 ack _ hfresh _ _ disk
    have hmoves : Moves safeFilename env Guards.closed node.holding
        (node.makeRoom env size).holding := node.makeRoom_moves size
    have hle := Node.size_le_of_fresh hfresh
    exact hle.trans (Nat.le_of_eq hmoves.budget_eq.symm)
  restarts := by
    intro index room id transfer _ hget _ hmoves _ disk
    have hle : transfer.expectedSize ≤ node.actor.budget := h.sized hget
    exact hle.trans (Nat.le_of_eq hmoves.budget_eq.symm)
  completes := fun _ _ => trivial
  verifies := fun _ _ => trivial

theorem Holding.Sized.turn_moves (hbudget : node.actor.budget < U64_MAX)
    (h : node.holding.Sized safeFilename) :
    Moves safeFilename env Chunked.sized node.holding
      (node.turn safeFilename sha256Hex env event).holding :=
  Node.turn_moves (h.small hbudget) h.admits

end

end Chunked

end Bridgething
