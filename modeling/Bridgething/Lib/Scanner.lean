/-
Decoders that look at the front of their input and step over some of it, with an
item or without one, until there is not enough to tell.
-/
import Mathlib

universe u v

/-- What the front of an input tells: nothing yet, or how many symbols to step
over and which item they are, if any. -/
structure Scanner (β : Type u) (ι : Type v) where
  look : List β → Option (Nat × Option ι)
  look_size : ∀ {s : List β} {size : Nat} {item : Option ι},
    look s = some (size, item) → 0 < size ∧ size ≤ s.length
  look_append : ∀ {s : List β} {seen : Nat × Option ι} (t : List β),
    look s = some seen → look (s ++ t) = some seen

namespace Scanner

variable {β : Type u} {ι : Type v} (S : Scanner β ι)

/-- Step over the input up to the first item. -/
def decode (s : List β) : Option ι × List β :=
  match _h : S.look s with
  | none => (none, s)
  | some (size, some item) => (some item, s.drop size)
  | some (size, none) => decode (s.drop size)
termination_by s.length
decreasing_by
  have hsize := S.look_size _h
  simp only [List.length_drop]
  omega

theorem decode_stop {s : List β} (h : S.look s = none) :
    S.decode s = (none, s) := by
  rw [decode]
  split <;> simp_all

theorem decode_item {s : List β} {size : Nat} {item : ι}
    (h : S.look s = some (size, some item)) :
    S.decode s = (some item, s.drop size) := by
  rw [decode]
  split <;> simp_all

theorem decode_step {s : List β} {size : Nat}
    (h : S.look s = some (size, none)) :
    S.decode s = S.decode (s.drop size) := by
  rw [decode]
  split <;> simp_all

theorem length_drop_lt {s : List β} {size : Nat} {item : Option ι}
    (h : S.look s = some (size, item)) : (s.drop size).length < s.length := by
  have hsize := S.look_size h
  rw [List.length_drop]
  omega

theorem decode_length {s rest : List β} {item : ι}
    (h : S.decode s = (some item, rest)) : rest.length < s.length := by
  induction hlength : s.length using Nat.strongRecOn generalizing s with
  | ind length ih =>
      subst hlength
      rcases hlook : S.look s with _ | ⟨size, _ | found⟩
      · rw [S.decode_stop hlook] at h
        simp at h
      · rw [S.decode_step hlook] at h
        have hshort := S.length_drop_lt hlook
        exact (ih _ hshort h rfl).trans hshort
      · rw [S.decode_item hlook, Prod.mk.injEq] at h
        rw [← h.2]
        exact S.length_drop_lt hlook

/-- Decode until there is nothing more. -/
def drain (s : List β) : List ι × List β :=
  match _h : S.decode s with
  | (none, rest) => ([], rest)
  | (some item, rest) =>
      let after := drain rest
      (item :: after.1, after.2)
termination_by s.length
decreasing_by exact S.decode_length _h

/-- Append chunk after chunk to what is left, and drain after each. -/
def feed (s : List β) : List (List β) → List ι × List β
  | [] => ([], s)
  | chunk :: chunks =>
      let drained := S.drain (s ++ chunk)
      let after := feed drained.2 chunks
      (drained.1 ++ after.1, after.2)

theorem drain_of_none {s rest : List β} (h : S.decode s = (none, rest)) :
    S.drain s = ([], rest) := by
  rw [drain]
  split <;> simp_all

theorem drain_of_some {s rest : List β} {item : ι}
    (h : S.decode s = (some item, rest)) :
    S.drain s = (item :: (S.drain rest).1, (S.drain rest).2) := by
  rw [drain]
  split <;> simp_all

theorem drain_stop {s : List β} (h : S.look s = none) :
    S.drain s = ([], s) :=
  S.drain_of_none (S.decode_stop h)

theorem drain_item {s : List β} {size : Nat} {item : ι}
    (h : S.look s = some (size, some item)) :
    S.drain s = (item :: (S.drain (s.drop size)).1,
      (S.drain (s.drop size)).2) :=
  S.drain_of_some (S.decode_item h)

theorem drain_step {s : List β} {size : Nat}
    (h : S.look s = some (size, none)) :
    S.drain s = S.drain (s.drop size) := by
  have hdecode := S.decode_step h
  rcases hnext : S.decode (s.drop size) with ⟨_ | item, rest⟩
  · rw [S.drain_of_none hnext, S.drain_of_none (hdecode.trans hnext)]
  · rw [S.drain_of_some hnext, S.drain_of_some (hdecode.trans hnext)]

/-- Whatever comes later, what is drained early is drained first. -/
theorem drain_append (s t : List β) :
    S.drain (s ++ t) =
      ((S.drain s).1 ++ (S.drain ((S.drain s).2 ++ t)).1,
        (S.drain ((S.drain s).2 ++ t)).2) := by
  induction hlength : s.length using Nat.strongRecOn generalizing s with
  | ind length ih =>
      subst hlength
      rcases hlook : S.look s with _ | ⟨size, item⟩
      · rw [S.drain_stop hlook]
        rfl
      · have hgrown := S.look_append t hlook
        have hdrop : (s ++ t).drop size = s.drop size ++ t :=
          List.drop_append_of_le_length (S.look_size hlook).2
        have hrest := ih _ (S.length_drop_lt hlook) (s.drop size) rfl
        cases item with
        | none =>
            rw [S.drain_step hlook, S.drain_step hgrown, hdrop, hrest]
        | some item =>
            rw [S.drain_item hlook, S.drain_item hgrown, hdrop, hrest]
            rfl

/-- What is left has nothing more in it. -/
theorem drain_rest (s : List β) : S.drain (S.drain s).2 = ([], (S.drain s).2) := by
  induction hlength : s.length using Nat.strongRecOn generalizing s with
  | ind length ih =>
      subst hlength
      rcases hlook : S.look s with _ | ⟨size, item⟩
      · rw [S.drain_stop hlook]
        exact S.drain_stop hlook
      · have hrest := ih _ (S.length_drop_lt hlook) (s.drop size) rfl
        cases item with
        | none => rwa [S.drain_step hlook]
        | some item => rwa [S.drain_item hlook]

/-- However a stream is cut, it is decoded the same. -/
theorem feed_eq_drain {s : List β} (h : S.drain s = ([], s))
    (chunks : List (List β)) :
    S.feed s chunks = S.drain (s ++ chunks.flatten) := by
  induction chunks generalizing s with
  | nil => rw [feed, List.flatten_nil, List.append_nil, h]
  | cons chunk chunks ih =>
      rw [feed, ih (S.drain_rest _), List.flatten_cons, ← List.append_assoc,
        S.drain_append (s ++ chunk)]

/-- A stretch without items is stepped over. -/
theorem drain_drop (s : List β) (count : Nat)
    (h : ∀ place < count, S.look (s.drop place) = some (1, none)) :
    S.drain s = S.drain (s.drop count) := by
  induction count generalizing s with
  | zero => rw [List.drop_zero]
  | succ count ih =>
      have hhead := h 0 (Nat.succ_pos count)
      rw [List.drop_zero] at hhead
      rw [S.drain_step hhead, ih (s.drop 1), List.drop_drop, Nat.add_comm]
      intro place hplace
      rw [List.drop_drop, Nat.add_comm]
      exact h (place + 1) (Nat.succ_lt_succ hplace)

/-- Input that nothing in it can be told of, or only single symbols, has no
items. -/
theorem drain_nil {s : List β}
    (h : ∀ place, S.look (s.drop place) = none ∨
      S.look (s.drop place) = some (1, none)) : (S.drain s).1 = [] := by
  induction hlength : s.length generalizing s with
  | zero =>
      rcases h 0 with hstop | hstep
      · rw [List.drop_zero] at hstop
        rw [S.drain_stop hstop]
      · have hsize := (S.look_size hstep).2
        rw [List.drop_zero, hlength] at hsize
        omega
  | succ length ih =>
      rcases h 0 with hstop | hstep
      · rw [List.drop_zero] at hstop
        rw [S.drain_stop hstop]
      · rw [List.drop_zero] at hstep
        rw [S.drain_step hstep]
        refine ih (fun place => ?_) (by rw [List.length_drop, hlength]; rfl)
        rw [List.drop_drop]
        exact h _

end Scanner
