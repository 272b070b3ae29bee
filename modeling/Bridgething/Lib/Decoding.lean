/-
Decoders that read a value from the front of a list and leave the rest: which
codes they read, put together as the decoders are.
-/
import Mathlib

/-- A decoder of lists, which fails or leaves what it has not read. -/
abbrev Decode (β : Type) (ε : Type) := StateT (List β) (Except ε)

namespace Decode

variable {β ε α γ : Type}

/-- Just so many symbols. -/
def exactly (short : ε) (count : Nat) : Decode β ε (List β) := fun input =>
  if count ≤ input.length then
    .ok (input.take count, input.drop count)
  else .error short

def fail (error : ε) : Decode β ε α := fun _ => .error error

/-- One turn after another, each with what the one before it came to. -/
def turns (turn : α → Decode β ε α) : Nat → α → Decode β ε α
  | 0, acc => pure acc
  | count + 1, acc => do
      let next ← turn acc
      turns turn count next

/-- Go past so many symbols, which need not be there. -/
def seek (count : Nat) : Decode β ε Unit := fun input =>
  .ok ((), input.drop count)

/-- Read of so many symbols, and stay where they begin. -/
def within (count : Nat) (decoder : Decode β ε α) : Decode β ε α :=
  fun input =>
    match decoder (input.take count) with
    | .ok (value, _) => .ok (value, input)
    | .error error => .error error

/-- Whatever stands behind the code, it is read as the value and no more. -/
def Reads (decoder : Decode β ε α) (code : List β) (value : α) : Prop :=
  ∀ rest, decoder (code ++ rest) = .ok (value, rest)

theorem exactly_short {short : ε} {count : Nat} {input : List β}
    (h : input.length < count) : exactly short count input = .error short :=
  if_neg (Nat.not_le.mpr h)

theorem exactly_ok {short : ε} {count : Nat} {input : List β}
    (h : count ≤ input.length) :
    exactly short count input = .ok (input.take count, input.drop count) :=
  if_pos h

theorem of_exactly {short : ε} {count : Nat} {input found rest : List β}
    (h : exactly short count input = .ok (found, rest)) :
    count ≤ input.length ∧ found = input.take count ∧
      rest = input.drop count := by
  rw [exactly] at h
  split at h
  · next hle =>
      obtain ⟨rfl, rfl⟩ := Prod.mk.inj (Except.ok.inj h)
      exact ⟨hle, rfl, rfl⟩
  · cases h

theorem bind_ok {decoder : Decode β ε α} {next : α → Decode β ε γ}
    {input rest : List β} {value : α}
    (h : decoder input = .ok (value, rest)) :
    (decoder >>= next) input = next value rest := by
  simp only [bind, StateT.bind, Except.bind, h]

theorem bind_error {decoder : Decode β ε α} {next : α → Decode β ε γ}
    {input : List β} {error : ε} (h : decoder input = .error error) :
    (decoder >>= next) input = .error error := by
  simp only [bind, StateT.bind, Except.bind, h]

theorem of_bind {decoder : Decode β ε α} {next : α → Decode β ε γ}
    {input rest : List β} {result : γ}
    (h : (decoder >>= next) input = .ok (result, rest)) :
    ∃ value mid, decoder input = .ok (value, mid) ∧
      next value mid = .ok (result, rest) := by
  rcases hread : decoder input with error | ⟨value, mid⟩
  · rw [bind_error hread] at h
    cases h
  · rw [bind_ok hread] at h
    exact ⟨value, mid, rfl, h⟩

theorem within_ok {decoder : Decode β ε α} {count : Nat}
    {input rest : List β} {value : α}
    (h : decoder (input.take count) = .ok (value, rest)) :
    within count decoder input = .ok (value, input) := by
  rw [within, h]

theorem of_within {decoder : Decode β ε α} {count : Nat}
    {input rest : List β} {value : α}
    (h : within count decoder input = .ok (value, rest)) : rest = input := by
  rw [within] at h
  split at h
  · exact (Prod.mk.inj (Except.ok.inj h)).2.symm
  · cases h

/-! ### What is left is no longer -/

def Shrinks (decoder : Decode β ε α) : Prop :=
  ∀ input value rest, decoder input = .ok (value, rest) →
    rest.length ≤ input.length

namespace Shrinks

theorem pure (value : α) : Shrinks (pure value : Decode β ε α) := by
  intro input found rest h
  obtain ⟨-, rfl⟩ := Prod.mk.inj (Except.ok.inj h)
  exact Nat.le_refl _

theorem fail (error : ε) : Shrinks (fail error : Decode β ε α) := by
  intro input value rest h
  cases h

theorem exactly (short : ε) (count : Nat) :
    Shrinks (exactly short count : Decode β ε (List β)) := by
  intro input found rest h
  obtain ⟨-, -, rfl⟩ := of_exactly h
  exact (List.drop_sublist count input).length_le

theorem seek (count : Nat) : Shrinks (seek count : Decode β ε Unit) := by
  intro input value rest h
  obtain ⟨-, rfl⟩ := Prod.mk.inj (Except.ok.inj h)
  exact (List.drop_sublist count input).length_le

theorem within (count : Nat) (decoder : Decode β ε α) :
    Shrinks (within count decoder) := by
  intro input value rest h
  rw [of_within h]

theorem bind {decoder : Decode β ε α} {next : α → Decode β ε γ}
    (h : Shrinks decoder) (hnext : ∀ value, Shrinks (next value)) :
    Shrinks (decoder >>= next) := by
  intro input result rest hread
  obtain ⟨value, mid, hfirst, hsecond⟩ := of_bind hread
  exact (hnext value mid result rest hsecond).trans
    (h input value mid hfirst)

end Shrinks

/-! ### Codes -/

namespace Reads

theorem pure (value : α) : Reads (pure value : Decode β ε α) [] value :=
  fun _ => rfl

theorem exactly (short : ε) (code : List β) :
    Reads (exactly short code.length) code code := by
  intro rest
  rw [exactly_ok (by simp), List.take_left, List.drop_left]

theorem bind {decoder : Decode β ε α} {next : α → Decode β ε γ}
    {code behind : List β} {value : α} {result : γ}
    (h : Reads decoder code value) (hnext : Reads (next value) behind result) :
    Reads (decoder >>= next) (code ++ behind) result := by
  intro rest
  rw [List.append_assoc, bind_ok (h (behind ++ rest)), hnext rest]

/-- A last step that reads nothing. -/
theorem map {decoder : Decode β ε α} {next : α → Decode β ε γ}
    {code : List β} {value : α} {result : γ} (h : Reads decoder code value)
    (hnext : Reads (next value) [] result) :
    Reads (decoder >>= next) code result := by
  rw [← List.append_nil code]
  exact h.bind hnext

theorem turns {turn : α → Decode β ε α} {ι : Type} {code : ι → List β}
    {add : α → ι → α}
    (h : ∀ item acc, Reads (turn acc) (code item) (add acc item))
    (items : List ι) (acc : α) :
    Reads (turns turn items.length acc) (items.flatMap code)
      (items.foldl add acc) := by
  induction items generalizing acc with
  | nil => exact Reads.pure acc
  | cons item items ih => exact (h item acc).bind (ih (add acc item))

end Reads

end Decode
