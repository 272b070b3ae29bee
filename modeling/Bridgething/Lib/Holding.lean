/-
Marks that say which keys are held, by holders that come and go: every mark is
one of a holder's, and no two holders have the same key.
-/
import Bridgething.Lib.Table

namespace Holding

universe u v w

variable {ι : Type u} {κ : Type v} {τ : Type w} [DecidableEq ι] [DecidableEq κ]
  {holds : τ → Option κ} {holders next : Table ι τ} {marks : Finset κ}

structure Exclusive (holds : τ → Option κ) (holders : Table ι τ)
    (marks : Finset κ) : Prop where
  marked : ∀ {id key}, (holders.get? id).bind holds = some key → key ∈ marks
  alone : ∀ {id other key}, (holders.get? id).bind holds = some key →
    (holders.get? other).bind holds = some key → id = other
  held : ∀ {key}, key ∈ marks →
    ∃ id, (holders.get? id).bind holds = some key

omit [DecidableEq κ] in
theorem Exclusive.empty (holds : τ → Option κ) :
    Exclusive holds ([] : Table ι τ) ∅ where
  marked h := absurd h (by simp)
  alone h := absurd h (by simp)
  held h := absurd h (Finset.notMem_empty _)

omit [DecidableEq κ] in
/-- What is held is the same. -/
theorem Exclusive.congr (h : Exclusive holds holders marks)
    (hsame : ∀ id, (next.get? id).bind holds = (holders.get? id).bind holds) :
    Exclusive holds next marks where
  marked {id key} hid := h.marked ((hsame id).symm.trans hid)
  alone {id other key} hid hother :=
    h.alone ((hsame id).symm.trans hid) ((hsame other).symm.trans hother)
  held {key} hkey := by
    obtain ⟨id, hid⟩ := h.held hkey
    exact ⟨id, (hsame id).trans hid⟩

/-- A holder of nothing takes a key that is not marked. -/
theorem Exclusive.take (h : Exclusive holds holders marks) {id : ι} {key : κ}
    (hothers : ∀ other, other ≠ id →
      (next.get? other).bind holds = (holders.get? other).bind holds)
    (hbefore : (holders.get? id).bind holds = none) (hfree : key ∉ marks)
    (hafter : (next.get? id).bind holds = some key) :
    Exclusive holds next (insert key marks) := by
  have hold : ∀ {other held}, other ≠ id →
      (next.get? other).bind holds = some held →
        (holders.get? other).bind holds = some held := fun hne hheld =>
    (hothers _ hne).symm.trans hheld
  have hmine : ∀ {held}, (next.get? id).bind holds = some held →
      held = key := fun hheld => Option.some.inj (hheld.symm.trans hafter)
  constructor
  · intro other held hheld
    by_cases hsame : other = id
    · rw [hsame] at hheld
      rw [hmine hheld]
      exact Finset.mem_insert_self _ _
    · exact Finset.mem_insert_of_mem (h.marked (hold hsame hheld))
  · intro left right held hleft hright
    by_cases hl : left = id
    · by_cases hr : right = id
      · rw [hl, hr]
      · rw [hl] at hleft
        rw [hmine hleft] at hright
        exact absurd (h.marked (hold hr hright)) hfree
    · by_cases hr : right = id
      · rw [hr] at hright
        rw [hmine hright] at hleft
        exact absurd (h.marked (hold hl hleft)) hfree
      · exact h.alone (hold hl hleft) (hold hr hright)
  · intro held hheld
    rcases Finset.mem_insert.mp hheld with rfl | hmem
    · exact ⟨id, hafter⟩
    · obtain ⟨other, hother⟩ := h.held hmem
      have hne : other ≠ id := by
        rintro rfl
        rw [hbefore] at hother
        contradiction
      exact ⟨other, (hothers other hne).trans hother⟩

/-- A holder gives its key back, and its mark with it. -/
theorem Exclusive.giveBack (h : Exclusive holds holders marks) {id : ι}
    {key : κ}
    (hothers : ∀ other, other ≠ id →
      (next.get? other).bind holds = (holders.get? other).bind holds)
    (hbefore : (holders.get? id).bind holds = some key)
    (hafter : (next.get? id).bind holds = none) :
    Exclusive holds next (marks.erase key) := by
  have hne : ∀ {other held}, (next.get? other).bind holds = some held →
      other ≠ id := by
    rintro other held hheld rfl
    rw [hafter] at hheld
    contradiction
  have hold : ∀ {other held}, (next.get? other).bind holds = some held →
      (holders.get? other).bind holds = some held := fun hheld =>
    (hothers _ (hne hheld)).symm.trans hheld
  constructor
  · intro other held hheld
    refine Finset.mem_erase.mpr ⟨?_, h.marked (hold hheld)⟩
    rintro rfl
    exact hne hheld (h.alone (hold hheld) hbefore)
  · intro left right held hleft hright
    exact h.alone (hold hleft) (hold hright)
  · intro held hheld
    obtain ⟨hdiffers, hmem⟩ := Finset.mem_erase.mp hheld
    obtain ⟨other, hother⟩ := h.held hmem
    have hne : other ≠ id := by
      rintro rfl
      exact hdiffers (Option.some.inj (hother.symm.trans hbefore))
    exact ⟨other, (hothers other hne).trans hother⟩

omit [DecidableEq κ] in
/-- A holder that goes without giving back leaves a mark of nobody. -/
theorem Exclusive.leaked (h : Exclusive holds holders marks) {id : ι}
    {key : κ} (hbefore : (holders.get? id).bind holds = some key) :
    ¬ Exclusive holds (holders.remove id) marks := by
  intro hafter
  obtain ⟨other, hother⟩ := hafter.held (h.marked hbefore)
  by_cases hsame : other = id
  · rw [hsame, Table.get?_remove_self] at hother
    contradiction
  · rw [Table.get?_remove_of_ne _ hsame] at hother
    exact hsame (h.alone hother hbefore)

end Holding
