/-
Places in a list that grows at its end, and what is dropped from its front.
-/
import Mathlib

namespace Sequence

universe u v

/-- What is dropped while a test holds, when it is known how long it does. -/
theorem dropWhile_eq_drop {α : Type u} {p : α → Bool} {l : List α} {count : Nat}
    (hbefore : ∀ place value, place < count → l[place]? = some value →
      p value = true)
    (hafter : ∀ value, l[count]? = some value → p value = false) :
    l.dropWhile p = l.drop count := by
  induction l generalizing count with
  | nil => rw [List.dropWhile_nil, List.drop_nil]
  | cons head tail ih =>
      cases count with
      | zero =>
          rw [List.drop_zero, List.dropWhile_cons_of_neg]
          simp [hafter head rfl]
      | succ count =>
          rw [List.drop_succ_cons, List.dropWhile_cons_of_pos
            (hbefore 0 head (Nat.succ_pos count) rfl)]
          refine ih (fun place value hplace hvalue => ?_) fun value hvalue => ?_
          · exact hbefore (place + 1) value (Nat.succ_lt_succ hplace) hvalue
          · exact hafter value hvalue

theorem getElem?_concat {α : Type u} {l : List α} {last value : α} {place : Nat}
    (h : (l ++ [last])[place]? = some value) :
    l[place]? = some value ∨ place = l.length ∧ value = last := by
  rw [List.getElem?_append] at h
  split at h
  · exact Or.inl h
  · obtain ⟨hzero, hvalue⟩ := List.getElem?_eq_some_iff.mp h
    rw [List.length_singleton] at hzero
    refine Or.inr ⟨by omega, ?_⟩
    rw [← hvalue, List.getElem_singleton]

/-- In a list without two entries of one key, an entry is all there is of its
key. -/
theorem filter_key {κ : Type u} {ν : Type v} [DecidableEq κ]
    {entries : List (κ × ν)} (h : (entries.map Prod.fst).Nodup) {entry : κ × ν}
    (hentry : entry ∈ entries) :
    entries.filter (fun other => other.1 = entry.1) = [entry] := by
  induction entries with
  | nil => nomatch hentry
  | cons head tail ih =>
      rw [List.map_cons, List.nodup_cons] at h
      by_cases hkey : head.1 = entry.1
      · have hnone : tail.filter (fun other => other.1 = entry.1) = [] := by
          refine List.filter_eq_nil_iff.mpr fun other hother => ?_
          have hne : other.1 ≠ entry.1 := fun hsame =>
            h.1 (List.mem_map.mpr ⟨other, hother, hsame.trans hkey.symm⟩)
          simpa using hne
        rw [List.filter_cons_of_pos (by simpa using hkey), hnone]
        rcases List.mem_cons.mp hentry with rfl | htail
        · rfl
        · exact absurd (List.mem_map_of_mem htail) (hkey ▸ h.1)
      · rw [List.filter_cons_of_neg (by simpa using hkey)]
        rcases List.mem_cons.mp hentry with rfl | htail
        · exact absurd rfl hkey
        · exact ih h.2 htail

end Sequence
