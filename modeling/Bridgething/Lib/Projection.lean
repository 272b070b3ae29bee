/-
Runs of a system that answers each input with outputs, and the part of it that
some of the inputs alone move: to that part a run is one of those inputs.
-/
import Mathlib

namespace Projection

universe u v w

variable {σ τ : Type u} {ι : Type v} {ε : Type w}

/-- The state after inputs, and all outputs on the way. -/
def run (step : σ → ι → σ × List ε) (s : σ) : List ι → σ × List ε
  | [] => (s, [])
  | input :: inputs =>
      let next := step s input
      let rest := run step next.1 inputs
      (rest.1, next.2 ++ rest.2)

theorem run_append (step : σ → ι → σ × List ε) (s : σ)
    (inputs more : List ι) :
    run step s (inputs ++ more) =
      ((run step (run step s inputs).1 more).1,
        (run step s inputs).2 ++ (run step (run step s inputs).1 more).2) := by
  induction inputs generalizing s with
  | nil => rfl
  | cons input inputs ih =>
      simp only [List.cons_append, run, ih, List.append_assoc]

theorem run_concat (step : σ → ι → σ × List ε) (s : σ) (inputs : List ι)
    (last : ι) :
    run step s (inputs ++ [last]) =
      ((step (run step s inputs).1 last).1,
        (run step s inputs).2 ++ (step (run step s inputs).1 last).2) := by
  rw [run_append, run, run, List.append_nil]

/-- A part of a system: inputs that are `mine` move it as they move a system of
its own and put out what that does, other inputs leave it alone. -/
structure Part (step : σ → ι → σ × List ε) (alone : τ → ι → τ × List ε)
    (view : σ → τ) (mine : ι → Bool) (ours : ε → Bool) : Prop where
  moves : ∀ s input, mine input = true →
    view (step s input).1 = (alone (view s) input).1 ∧
      (step s input).2.filter ours = (alone (view s) input).2
  stays : ∀ s input, mine input = false →
    view (step s input).1 = view s ∧ (step s input).2.filter ours = []

theorem Part.run {step : σ → ι → σ × List ε} {alone : τ → ι → τ × List ε}
    {view : σ → τ} {mine : ι → Bool} {ours : ε → Bool}
    (h : Part step alone view mine ours) (s : σ) (inputs : List ι) :
    view (run step s inputs).1 =
        (Projection.run alone (view s) (inputs.filter mine)).1 ∧
      (Projection.run step s inputs).2.filter ours =
        (Projection.run alone (view s) (inputs.filter mine)).2 := by
  induction inputs generalizing s with
  | nil => exact ⟨rfl, rfl⟩
  | cons input inputs ih =>
      obtain ⟨hview, hout⟩ := ih (step s input).1
      rw [Projection.run, List.filter_append, hout, hview]
      cases hmine : mine input with
      | true =>
          obtain ⟨hmoved, hput⟩ := h.moves s input hmine
          rw [List.filter_cons_of_pos hmine, Projection.run, hput, hmoved]
          exact ⟨rfl, rfl⟩
      | false =>
          obtain ⟨hsame, hnone⟩ := h.stays s input hmine
          rw [List.filter_cons_of_neg (by simp [hmine]), hsame, hnone]
          exact ⟨rfl, List.nil_append _⟩

end Projection
