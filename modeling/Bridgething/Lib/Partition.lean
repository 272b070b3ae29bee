/-
The search for the place where a test that holds at first begins to fail.
-/
import Mathlib

namespace Partition

universe u

/-- The search between two places, by halves. -/
def search (test : ℕ → Bool) (low high : ℕ) : ℕ :=
  if low < high then
    if test (low + (high - low) / 2) then
      search test (low + (high - low) / 2 + 1) high
    else search test low (low + (high - low) / 2)
  else low
termination_by high - low

theorem search_eq {test : ℕ → Bool} {low high place : ℕ}
    (hlow : low ≤ place) (hhigh : place ≤ high)
    (hbefore : ∀ i < place, test i = true)
    (hafter : ∀ i, place ≤ i → i < high → test i = false) :
    search test low high = place := by
  fun_induction search test low high with
  | case1 low high hless htest ih =>
      refine ih ?_ hhigh hafter
      by_contra hpast
      have hfails := hafter (low + (high - low) / 2) (by omega) (by omega)
      exact Bool.false_ne_true (hfails.symm.trans htest)
  | case2 low high hless htest ih =>
      refine ih hlow ?_ fun i hi hless => hafter i hi (by omega)
      by_contra hpast
      exact htest (hbefore _ (by omega))
  | case3 low high hdone => omega

/-- The place in a list from which on a test fails. -/
def partitionPoint {α : Type u} (test : α → Bool) (l : List α) : ℕ :=
  search (fun i => l[i]?.all test) 0 l.length

theorem partitionPoint_append {α : Type u} {test : α → Bool}
    {front back : List α} (hfront : ∀ value ∈ front, test value = true)
    (hback : ∀ value ∈ back, test value = false) :
    partitionPoint test (front ++ back) = front.length := by
  refine search_eq (Nat.zero_le _) ?_ (fun i hi => ?_) fun i hi hless => ?_
  · rw [List.length_append]
    exact Nat.le_add_right _ _
  · rw [List.getElem?_append_left hi, List.getElem?_eq_getElem hi]
    exact hfront _ (List.getElem_mem hi)
  · rw [List.length_append] at hless
    have hplace : i - front.length < back.length := by omega
    rw [List.getElem?_append_right hi, List.getElem?_eq_getElem hplace]
    exact hback _ (List.getElem_mem hplace)

end Partition
