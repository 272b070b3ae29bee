/-
Texts made of fields, each ended by a separator that no field holds.
-/
import Mathlib

universe u

namespace Delimited

variable {α : Type u} {sep : α}

/-- The fields one after the other, each with the separator behind it. -/
def ended (sep : α) (fields : List (List α)) : List α :=
  fields.flatMap fun field => field ++ [sep]

theorem ended_cons (sep : α) (field : List α) (fields : List (List α)) :
    ended sep (field :: fields) = field ++ sep :: ended sep fields := by
  simp [ended]

/-- Where the separator comes first, the field before it is known. -/
theorem field_prefix_iff {left right more rest : List α}
    (hleft : sep ∉ left) (hright : sep ∉ right) :
    left ++ sep :: more <+: right ++ sep :: rest ↔
      left = right ∧ more <+: rest := by
  induction left generalizing right with
  | nil =>
      cases right with
      | nil => simp [List.cons_prefix_cons]
      | cons head tail =>
          rw [List.mem_cons, not_or] at hright
          simp [List.cons_prefix_cons, hright.1]
  | cons first before ih =>
      rw [List.mem_cons, not_or] at hleft
      cases right with
      | nil => simp [List.cons_prefix_cons, Ne.symm hleft.1]
      | cons head tail =>
          rw [List.mem_cons, not_or] at hright
          simp [List.cons_prefix_cons, ih hleft.2 hright.2, and_assoc]

/-- No more fields than there are begin a text exactly if they are its first. -/
theorem ended_prefix_iff {fields more : List (List α)} {rest : List α}
    (hfields : ∀ field ∈ fields, sep ∉ field)
    (hmore : ∀ field ∈ more, sep ∉ field)
    (hlength : fields.length ≤ more.length) :
    ended sep fields <+: ended sep more ++ rest ↔ fields <+: more := by
  induction fields generalizing more with
  | nil => simp [ended]
  | cons field tail ih =>
      cases more with
      | nil => contradiction
      | cons other others =>
          have hfield := hfields field List.mem_cons_self
          have hother := hmore other List.mem_cons_self
          have hrest := ih (fun f hf => hfields f (List.mem_cons_of_mem _ hf))
            (fun f hf => hmore f (List.mem_cons_of_mem _ hf))
            (Nat.le_of_succ_le_succ hlength)
          rw [ended_cons, ended_cons, List.append_assoc, List.cons_append,
            field_prefix_iff hfield hother, hrest, List.cons_prefix_cons]

end Delimited
