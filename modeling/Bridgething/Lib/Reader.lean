/-
Readers of items from the front of a buffer that grows at its end.  The loop
that reads them ends for good at the first error.
-/
import Mathlib

universe u v w

/-- What the front of a buffer tells: nothing yet, an error, or an item and how
many symbols it takes. -/
structure Reader (β : Type u) (ε : Type v) (ι : Type w) where
  look : List β → Option (Except ε (Nat × ι))
  look_size : ∀ {s : List β} {size : Nat} {item : ι},
    look s = some (.ok (size, item)) → 0 < size ∧ size ≤ s.length
  look_append : ∀ {s : List β} {seen : Except ε (Nat × ι)} (t : List β),
    look s = some seen → look (s ++ t) = some seen

namespace Reader

variable {β : Type u} {ε : Type v} {ι : Type w} (R : Reader β ε ι)

/-- The items that are there, and what is left of the buffer or the error. -/
def drain (s : List β) : List ι × Except ε (List β) :=
  match _h : R.look s with
  | none => ([], .ok s)
  | some (.error error) => ([], .error error)
  | some (.ok (size, item)) =>
      let after := drain (s.drop size)
      (item :: after.1, after.2)
termination_by s.length
decreasing_by
  have hsize := R.look_size _h
  simp only [List.length_drop]
  omega

/-- Append chunk after chunk to what is left, and drain after each. -/
def feed (s : List β) : List (List β) → List ι × Except ε (List β)
  | [] => ([], .ok s)
  | chunk :: chunks =>
      match R.drain (s ++ chunk) with
      | (items, .error error) => (items, .error error)
      | (items, .ok rest) =>
          let after := feed rest chunks
          (items ++ after.1, after.2)

theorem drain_none {s : List β} (h : R.look s = none) :
    R.drain s = ([], .ok s) := by
  rw [drain]
  split <;> simp_all

theorem drain_error {s : List β} {error : ε}
    (h : R.look s = some (.error error)) : R.drain s = ([], .error error) := by
  rw [drain]
  split <;> simp_all

theorem drain_item {s : List β} {size : Nat} {item : ι}
    (h : R.look s = some (.ok (size, item))) :
    R.drain s =
      (item :: (R.drain (s.drop size)).1, (R.drain (s.drop size)).2) := by
  rw [drain]
  split <;> simp_all

/-- What is left has no item and no error in front. -/
theorem look_rest {s rest : List β} (h : (R.drain s).2 = .ok rest) :
    R.look rest = none := by
  induction hlength : s.length using Nat.strongRecOn generalizing s with
  | ind length ih =>
      subst hlength
      rcases hlook : R.look s with _ | error | ⟨size, item⟩
      · rw [R.drain_none hlook] at h
        rwa [← Except.ok.inj h]
      · rw [R.drain_error hlook] at h
        contradiction
      · rw [R.drain_item hlook] at h
        have hsize := R.look_size hlook
        refine ih _ ?_ h rfl
        rw [List.length_drop]
        omega

/-- Whatever comes later, what is drained early is drained first, and an error
stays. -/
theorem drain_append (s t : List β) :
    R.drain (s ++ t) =
      match R.drain s with
      | (items, .error error) => (items, .error error)
      | (items, .ok rest) =>
          (items ++ (R.drain (rest ++ t)).1, (R.drain (rest ++ t)).2) := by
  induction hlength : s.length using Nat.strongRecOn generalizing s with
  | ind length ih =>
      subst hlength
      rcases hlook : R.look s with _ | error | ⟨size, item⟩
      · rw [R.drain_none hlook]
        rfl
      · rw [R.drain_error hlook, R.drain_error (R.look_append t hlook)]
      · have hsize := R.look_size hlook
        have hdrop : (s ++ t).drop size = s.drop size ++ t :=
          List.drop_append_of_le_length hsize.2
        have hshort : (s.drop size).length < s.length := by
          rw [List.length_drop]
          omega
        rw [R.drain_item hlook, R.drain_item (R.look_append t hlook), hdrop,
          ih _ hshort (s.drop size) rfl]
        rcases R.drain (s.drop size) with ⟨items, error | rest⟩ <;> rfl

/-- However a stream is cut, it is read the same. -/
theorem feed_eq_drain {s : List β} (h : R.look s = none)
    (chunks : List (List β)) :
    R.feed s chunks = R.drain (s ++ chunks.flatten) := by
  induction chunks generalizing s with
  | nil => rw [feed, List.flatten_nil, List.append_nil, R.drain_none h]
  | cons chunk chunks ih =>
      rw [feed, List.flatten_cons, ← List.append_assoc,
        R.drain_append (s ++ chunk)]
      rcases hdrained : R.drain (s ++ chunk) with ⟨items, error | rest⟩
      · rfl
      · have hrest : R.look rest = none := R.look_rest (by rw [hdrained])
        simp only [ih hrest]

end Reader
