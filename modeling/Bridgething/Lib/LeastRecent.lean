/-
Least-recently-used orders: keys with their sizes, from the coldest to the
hottest, and the uses that such an order reflects.
-/
import Bridgething.Lib.Ranking

namespace LeastRecent

open Ranking

universe u

variable {κ : Type u}

/-- Keys with their sizes, the least recently used first. -/
abbrev Order (κ : Type u) := List (κ × Nat)

namespace Order

def keys (order : Order κ) : List κ := order.map Prod.fst

def held (order : Order κ) : Nat := (order.map Prod.snd).sum

section

variable [DecidableEq κ]

def forget (order : Order κ) (key : κ) : Order κ :=
  order.filter fun entry => entry.1 ≠ key

/-- A key that is used becomes the hottest. -/
def touch (order : Order κ) (key : κ) (size : Nat) : Order κ :=
  order.forget key ++ [(key, size)]

end

/-- What has to go before the rest is within the budget: the coldest. -/
def spill (budget : Nat) (order : Order κ) : Order κ :=
  enough Prod.snd (order.held - budget) order

/-- What stays. -/
def trim (budget : Nat) (order : Order κ) : Order κ :=
  order.drop (order.spill budget).length

theorem held_cons (entry : κ × Nat) (rest : Order κ) :
    held (entry :: rest) = entry.2 + held rest := by
  simp [held]

theorem spill_append_trim (budget : Nat) (order : Order κ) :
    order.spill budget ++ order.trim budget = order := by
  have hfront : order.spill budget <+: order := enough_front Prod.snd _ order
  exact List.prefix_append_drop hfront |>.symm

theorem spill_of_le {budget : Nat} {order : Order κ}
    (h : order.held ≤ budget) : order.spill budget = [] := by
  rw [spill, Nat.sub_eq_zero_of_le h, enough_zero]

theorem trim_of_le {budget : Nat} {order : Order κ}
    (h : order.held ≤ budget) : order.trim budget = order := by
  rw [trim, spill_of_le h]
  rfl

theorem spill_cons {budget : Nat} {entry : κ × Nat} {rest : Order κ}
    (h : budget < held (entry :: rest)) :
    spill budget (entry :: rest) = entry :: spill budget rest := by
  have hneed :
      held (entry :: rest) - budget - entry.2 = held rest - budget := by
    rw [held_cons]
    omega
  rw [spill, enough_cons _ _ _ (Nat.sub_pos_of_lt h), hneed]
  rfl

theorem trim_cons {budget : Nat} {entry : κ × Nat} {rest : Order κ}
    (h : budget < held (entry :: rest)) :
    trim budget (entry :: rest) = trim budget rest := by
  rw [trim, spill_cons h]
  rfl

theorem held_trim_le (budget : Nat) (order : Order κ) :
    (order.trim budget).held ≤ budget := by
  induction order with
  | nil => exact Nat.zero_le budget
  | cons entry rest ih =>
      rcases Nat.lt_or_ge budget (held (entry :: rest)) with hover | hwithin
      · rw [trim_cons hover]
        exact ih
      · rw [trim_of_le hwithin]
        exact hwithin

theorem keys_spill_append_trim (budget : Nat) (order : Order κ) :
    (order.spill budget).keys ++ (order.trim budget).keys = order.keys := by
  have hsplit := congrArg keys (spill_append_trim budget order)
  rwa [keys, List.map_append] at hsplit

end Order

/-! ### The uses behind an order -/

/-- The last use of one key is before that of another. -/
def Older (uses : List κ) (cold hot : κ) : Prop :=
  ∃ earlier later, uses = earlier ++ cold :: later ∧ cold ∉ later ∧ hot ∈ later

/-- Keys from the coldest to the hottest. -/
def Ranked (uses keys : List κ) : Prop := keys.Pairwise (Older uses)

variable {uses keys : List κ} {cold hot key : κ}

theorem Older.snoc (h : Older uses cold hot) (hne : cold ≠ key) :
    Older (uses ++ [key]) cold hot := by
  obtain ⟨earlier, later, huses, hcold, hhot⟩ := h
  refine ⟨earlier, later ++ [key], by simp [huses], ?_, by simp [hhot]⟩
  simp [hcold, hne]

/-- What has been used is colder than what is used now. -/
theorem older_snoc (hmem : cold ∈ uses) (hne : cold ≠ key) :
    Older (uses ++ [key]) cold key := by
  obtain ⟨later, earlier, hsplit, hcold⟩ :=
    List.eq_append_cons_of_mem (List.mem_reverse.mpr hmem)
  refine ⟨earlier.reverse, later.reverse ++ [key], ?_, ?_, by simp⟩
  · rw [← List.reverse_reverse uses, hsplit]
    simp
  · simp [hcold, hne]

theorem older_total (hcold : cold ∈ uses) (hhot : hot ∈ uses)
    (hne : cold ≠ hot) : Older uses cold hot ∨ Older uses hot cold := by
  induction uses using List.reverseRecOn with
  | nil => simp at hcold
  | append_singleton uses key ih =>
      rcases List.mem_append.mp hcold with hbefore | hlast
      · rcases List.mem_append.mp hhot with hother | hother
        · by_cases hcoldest : cold = key
          · subst hcoldest
            exact Or.inr (older_snoc hother hne.symm)
          · by_cases hhottest : hot = key
            · subst hhottest
              exact Or.inl (older_snoc hbefore hne)
            · exact (ih hbefore hother).imp (fun h => h.snoc hcoldest)
                fun h => h.snoc hhottest
        · rw [List.mem_singleton.mp hother] at hne ⊢
          exact Or.inl (older_snoc hbefore hne)
      · rw [List.mem_singleton.mp hlast] at hne ⊢
        have hbefore : hot ∈ uses := by
          rcases List.mem_append.mp hhot with hold | hnew
          · exact hold
          · exact absurd (List.mem_singleton.mp hnew).symm hne
        exact Or.inr (older_snoc hbefore hne.symm)

theorem Ranked.filter (h : Ranked uses keys) (keep : κ → Bool) :
    Ranked uses (keys.filter keep) :=
  List.Pairwise.filter keep h

/-- Using a key and making it the hottest keeps the order. -/
theorem Ranked.touch [DecidableEq κ] (h : Ranked uses keys)
    (hused : ∀ other ∈ keys, other ∈ uses) (key : κ) :
    Ranked (uses ++ [key])
      ((keys.filter fun other => other ≠ key) ++ [key]) := by
  have hne : ∀ other ∈ keys.filter (fun other => decide (other ≠ key)),
      other ≠ key := by
    intro other hother
    simpa using (List.mem_filter.mp hother).2
  refine List.pairwise_append.mpr ⟨?_, List.pairwise_singleton _ _, ?_⟩
  · refine (h.filter _).imp_of_mem ?_
    intro cold hot hcold _ hold
    exact hold.snoc (hne cold hcold)
  · intro cold hcold hot hhot
    rw [List.mem_singleton.mp hhot]
    exact older_snoc (hused cold (List.mem_filter.mp hcold).1) (hne cold hcold)

end LeastRecent
