/-
Ranked lists: a stable sort keeps its order when entries are dropped, its first
entry is the first of the least, what is taken from its front until there is
enough, and the greatest entry, which is the same in any order.
-/
import Mathlib

namespace Ranking

universe u

variable {α : Type u}

/-! ### Stable sorts -/

section

variable {le : α → α → Bool}

/-- A split at an entry: what sorts before it, and what it sorts before. -/
theorem split_unique {entry : α} {before after front back : List α}
    (hbefore : ∀ other ∈ before, le entry other = false)
    (hafter : ∀ other ∈ after, le entry other = true)
    (hfront : ∀ other ∈ front, le entry other = false)
    (hback : ∀ other ∈ back, le entry other = true)
    (hsame : before ++ after = front ++ back) :
    before = front ∧ after = back := by
  induction before generalizing front with
  | nil =>
      cases front with
      | nil => exact ⟨rfl, hsame⟩
      | cons other rest =>
          have hmem : other ∈ after := by
            rw [List.nil_append] at hsame
            rw [hsame]
            exact List.mem_cons_self
          have hless := hfront other List.mem_cons_self
          rw [hafter other hmem] at hless
          contradiction
  | cons first rest ih =>
      have hfirst := hbefore first List.mem_cons_self
      cases front with
      | nil =>
          have hmem : first ∈ back := by
            rw [List.nil_append] at hsame
            rw [← hsame]
            exact List.mem_cons_self
          rw [hback first hmem] at hfirst
          contradiction
      | cons other others =>
          obtain ⟨rfl, hrest⟩ := List.cons.inj hsame
          obtain ⟨rfl, hlast⟩ := ih
            (fun member hmem => hbefore member (List.mem_cons_of_mem _ hmem))
            (fun member hmem => hfront member (List.mem_cons_of_mem _ hmem))
            hrest
          exact ⟨rfl, hlast⟩

variable (trans : ∀ a b c, le a b = true → le b c = true → le a c = true)
  (total : ∀ a b, (le a b || le b a) = true)

include trans total

/-- Where a stable sort puts one more entry that comes first. -/
theorem mergeSort_cons_split (entry : α) (entries : List α) :
    ∃ before after,
      (entry :: entries).mergeSort le = before ++ entry :: after ∧
      entries.mergeSort le = before ++ after ∧
      (∀ other ∈ before, le entry other = false) ∧
      ∀ other ∈ after, le entry other = true := by
  obtain ⟨before, after, hcons, hrest, hbefore⟩ :=
    List.mergeSort_cons trans total entry entries
  have hsorted := List.pairwise_mergeSort trans total (entry :: entries)
  rw [hcons] at hsorted
  have htail := (List.pairwise_append.mp hsorted).2.1
  refine ⟨before, after, hcons, hrest, fun other hmem => ?_,
    (List.pairwise_cons.mp htail).1⟩
  simpa using hbefore other hmem

/-- To drop entries and to sort is the same as to sort and to drop them. -/
theorem mergeSort_filter (keep : α → Bool) (entries : List α) :
    (entries.filter keep).mergeSort le =
      (entries.mergeSort le).filter keep := by
  induction entries with
  | nil => simp
  | cons entry rest ih =>
      obtain ⟨before, after, hcons, hrest, hbefore, hafter⟩ :=
        mergeSort_cons_split trans total entry rest
      rw [hrest, List.filter_append] at ih
      rw [hcons, List.filter_append]
      cases hkeep : keep entry with
      | false =>
          rw [List.filter_cons_of_neg (by simp [hkeep]), ih,
            List.filter_cons_of_neg (by simp [hkeep])]
      | true =>
          rw [List.filter_cons_of_pos hkeep, List.filter_cons_of_pos hkeep]
          obtain ⟨front, back, hput, hkept, hfront, hback⟩ :=
            mergeSort_cons_split trans total entry (rest.filter keep)
          rw [ih] at hkept
          obtain ⟨hsame, hlast⟩ := split_unique
            (fun other hmem => hbefore other (List.mem_filter.mp hmem).1)
            (fun other hmem => hafter other (List.mem_filter.mp hmem).1)
            hfront hback hkept
          rw [hput, hsame, hlast]

/-- The first entry is the one put in first of those that nothing sorts
before. -/
theorem head?_mergeSort_cons (entry : α) (entries : List α) :
    ((entry :: entries).mergeSort le).head? =
      match (entries.mergeSort le).head? with
      | none => some entry
      | some best => if le entry best then some entry else some best := by
  obtain ⟨before, after, hcons, hrest, hbefore, hafter⟩ :=
    mergeSort_cons_split trans total entry entries
  rw [hcons, hrest]
  cases before with
  | nil =>
      cases after with
      | nil => rfl
      | cons best others =>
          have hle := hafter best List.mem_cons_self
          simp [hle]
  | cons best others =>
      have hgreater := hbefore best List.mem_cons_self
      simp [hgreater]

end

/-! ### Enough from the front -/

/-- The entries at the front whose sizes come to what is needed, and no more of
them; all of them where they do not come to it. -/
def enough (size : α → Nat) : Nat → List α → List α
  | _, [] => []
  | need, entry :: rest =>
      if need = 0 then [] else entry :: enough size (need - size entry) rest

@[simp] theorem enough_nil (size : α → Nat) (need : Nat) :
    enough size need [] = [] := by
  cases need <;> rfl

@[simp] theorem enough_zero (size : α → Nat) (entries : List α) :
    enough size 0 entries = [] := by
  cases entries <;> rfl

theorem enough_cons {need : Nat} (size : α → Nat) (entry : α)
    (rest : List α) (hneed : 0 < need) :
    enough size need (entry :: rest) =
      entry :: enough size (need - size entry) rest := by
  rw [enough, if_neg (Nat.ne_of_gt hneed)]

theorem enough_front (size : α → Nat) (need : Nat) (entries : List α) :
    enough size need entries <+: entries := by
  induction entries generalizing need with
  | nil => simp
  | cons entry rest ih =>
      rcases Nat.eq_zero_or_pos need with rfl | hneed
      · simp
      · rw [enough_cons size entry rest hneed]
        exact List.cons_prefix_cons.mpr ⟨rfl, ih _⟩

/-- There is enough, or there is nothing left. -/
theorem enough_covers (size : α → Nat) (need : Nat) (entries : List α) :
    need ≤ ((enough size need entries).map size).sum ∨
      enough size need entries = entries := by
  induction entries generalizing need with
  | nil => simp
  | cons entry rest ih =>
      rcases Nat.eq_zero_or_pos need with rfl | hneed
      · simp
      · rw [enough_cons size entry rest hneed, List.map_cons, List.sum_cons]
        rcases ih (need - size entry) with hle | hall
        · left
          omega
        · exact Or.inr (congrArg _ hall)

/-! ### The greatest entry -/

def greater (cmp : α → α → Ordering) (best entry : α) : α :=
  if cmp best entry = .gt then best else entry

/-- The greatest entry; of equal ones, the last. -/
def maxBy (cmp : α → α → Ordering) : List α → Option α
  | [] => none
  | first :: rest => some (rest.foldl (greater cmp) first)

theorem foldl_greater_mem (cmp : α → α → Ordering) (first : α)
    (rest : List α) : rest.foldl (greater cmp) first ∈ first :: rest := by
  induction rest generalizing first with
  | nil => exact List.mem_singleton.mpr rfl
  | cons entry rest ih =>
      rw [List.foldl_cons]
      rcases List.mem_cons.mp (ih (greater cmp first entry)) with heq | hmem
      · rw [heq, greater]
        split <;> simp
      · exact List.mem_cons_of_mem _ (List.mem_cons_of_mem _ hmem)

theorem mem_of_maxBy {cmp : α → α → Ordering} {entries : List α} {best : α}
    (h : maxBy cmp entries = some best) : best ∈ entries := by
  cases entries with
  | nil => cases h
  | cons first rest =>
      cases h
      exact foldl_greater_mem cmp first rest

section

variable {cmp : α → α → Ordering} [Std.TransCmp cmp]

theorem le_greater_left (best entry : α) :
    (cmp best (greater cmp best entry)).isLE := by
  rw [greater]
  split
  · exact Std.ReflCmp.isLE_rfl
  · next hnot => exact Ordering.isLE_iff_ne_gt.mpr hnot

theorem le_greater_right (best entry : α) :
    (cmp entry (greater cmp best entry)).isLE := by
  rw [greater]
  split
  · next hgt =>
      exact Ordering.isLE_of_eq_lt (Std.OrientedCmp.lt_of_gt hgt)
  · exact Std.ReflCmp.isLE_rfl

theorem le_foldl_greater (first : α) (rest : List α) :
    ∀ entry ∈ first :: rest,
      (cmp entry (rest.foldl (greater cmp) first)).isLE := by
  induction rest generalizing first with
  | nil =>
      intro entry hmem
      rw [List.mem_singleton.mp hmem]
      exact Std.ReflCmp.isLE_rfl
  | cons next rest ih =>
      intro entry hmem
      rw [List.foldl_cons]
      have hhead := ih (greater cmp first next) _ List.mem_cons_self
      rcases List.mem_cons.mp hmem with rfl | hmem
      · exact Std.TransCmp.isLE_trans (le_greater_left entry next) hhead
      rcases List.mem_cons.mp hmem with rfl | hmem
      · exact Std.TransCmp.isLE_trans (le_greater_right first entry) hhead
      · exact ih (greater cmp first next) entry
          (List.mem_cons_of_mem _ hmem)

theorem le_of_maxBy {entries : List α} {best : α}
    (h : maxBy cmp entries = some best) {entry : α}
    (hmem : entry ∈ entries) : (cmp entry best).isLE := by
  cases entries with
  | nil => cases h
  | cons first rest =>
      cases h
      exact le_foldl_greater first rest entry hmem

/-- Where no two entries are equal, the order they stand in does not matter. -/
theorem maxBy_perm {entries others : List α} (hperm : entries.Perm others)
    (hdistinct : ∀ a ∈ entries, ∀ b ∈ entries, cmp a b = .eq → a = b) :
    maxBy cmp entries = maxBy cmp others := by
  cases hleft : maxBy cmp entries with
  | none =>
      cases entries with
      | nil => rw [List.nil_perm.mp hperm, maxBy]
      | cons first rest => cases hleft
  | some best =>
      cases hright : maxBy cmp others with
      | none =>
          cases others with
          | nil =>
              rw [List.perm_nil.mp hperm] at hleft
              cases hleft
          | cons first rest => cases hright
      | some other =>
          have hbest := mem_of_maxBy hleft
          have hother := hperm.mem_iff.mpr (mem_of_maxBy hright)
          have hle := le_of_maxBy hleft hother
          have hge := le_of_maxBy hright (hperm.mem_iff.mp hbest)
          rw [hdistinct best hbest other hother
            (Std.OrientedCmp.isLE_antisymm hge hle)]

end

end Ranking
