/-
Labelled transition relations and their runs: what one step keeps, a run keeps;
and what every tick brings nearer, enough ticks bring about.
-/
import Mathlib

namespace Transition

universe u v

variable {σ : Type u} {α : Type v}

/-- The runs of a labelled step relation. -/
inductive Run (step : σ → α → σ → Prop) : σ → List α → σ → Prop
  | nil (s : σ) : Run step s [] s
  | cons {s t u : σ} {label : α} {labels : List α} :
      step s label t → Run step t labels u → Run step s (label :: labels) u

variable {step : σ → α → σ → Prop}

/-- An invariant of the steps is one of the runs. -/
theorem Run.invariant {Inv : σ → Prop} {s t : σ} {labels : List α}
    (hrun : Run step s labels t)
    (hstep : ∀ {s t label}, Inv s → step s label t → Inv t)
    (hinv : Inv s) : Inv t := by
  induction hrun with
  | nil s => exact hinv
  | cons hfirst _ ih => exact ih (hstep hinv hfirst)

theorem Run.append {s t u : σ} {labels more : List α}
    (hfirst : Run step s labels t) (hrest : Run step t more u) :
    Run step s (labels ++ more) u := by
  induction hfirst with
  | nil s => exact hrest
  | cons hstep _ ih => exact Run.cons hstep (ih hrest)

/-- Steps of one relation that are steps of another make runs of it. -/
theorem Run.mono {other : σ → α → σ → Prop} {s t : σ} {labels : List α}
    (hrun : Run step s labels t)
    (hstep : ∀ {s t label}, step s label t → other s label t) :
    Run other s labels t := by
  induction hrun with
  | nil s => exact Run.nil s
  | cons hfirst _ ih => exact Run.cons (hstep hfirst) ih

/-- A total step function, run over its labels.  What every label of the list
satisfies may be used at each step. -/
theorem Run.foldl (apply : σ → α → σ) (Ok : α → Prop) (s : σ)
    (labels : List α) (hok : ∀ label ∈ labels, Ok label) :
    Run (fun s label t => Ok label ∧ t = apply s label) s labels
      (labels.foldl apply s) := by
  induction labels generalizing s with
  | nil => exact Run.nil s
  | cons label rest ih =>
      refine Run.cons ⟨hok label List.mem_cons_self, rfl⟩ ?_
      exact ih _ fun other hother => hok other (List.mem_cons_of_mem _ hother)

theorem Run.eq_foldl {apply : σ → α → σ} {Ok : α → Prop} {s t : σ}
    {labels : List α}
    (hrun : Run (fun s label t => Ok label ∧ t = apply s label) s labels t) :
    t = labels.foldl apply s := by
  induction hrun with
  | nil s => rfl
  | cons hfirst _ ih =>
      rw [ih, List.foldl_cons, hfirst.2]

/-- The state after a number of labels. -/
def reached (apply : σ → α → σ) (start : σ) (labels : List α) (count : Nat) :
    σ :=
  (labels.take count).foldl apply start

@[simp] theorem reached_zero (apply : σ → α → σ) (start : σ)
    (labels : List α) : reached apply start labels 0 = start := rfl

theorem reached_succ {apply : σ → α → σ} {start : σ} {labels : List α}
    {count : Nat} {label : α} (h : labels[count]? = some label) :
    reached apply start labels (count + 1) =
      apply (reached apply start labels count) label := by
  rw [reached, List.take_add_one, h, List.foldl_append]
  rfl

/-- What every label keeps that is `Ok` where it comes holds after labels that
are. -/
theorem reached_invariant {apply : σ → α → σ} {Inv : σ → Prop}
    {Ok : σ → α → Prop} {start : σ} (hstart : Inv start)
    (hkeep : ∀ {s label}, Inv s → Ok s label → Inv (apply s label))
    {labels : List α} {count : Nat}
    (hok : ∀ before < count, ∀ label, labels[before]? = some label →
      Ok (reached apply start labels before) label) :
    Inv (reached apply start labels count) := by
  induction count with
  | zero => exact hstart
  | succ count ih =>
      have hbefore := ih fun before hlt => hok before (Nat.lt_succ_of_lt hlt)
      cases hlabel : labels[count]? with
      | none =>
          rw [reached, List.take_add_one, hlabel]
          simpa [reached] using hbefore
      | some label =>
          rw [reached_succ hlabel]
          exact hkeep hbefore (hok count (Nat.lt_succ_self _) label hlabel)

/-- What every label keeps holds all along. -/
theorem reached_always {apply : σ → α → σ} (Inv : σ → Prop) {start : σ}
    (hstart : Inv start) (hkeep : ∀ {s} label, Inv s → Inv (apply s label))
    (labels : List α) (count : Nat) :
    Inv (reached apply start labels count) := by
  unfold reached
  generalize labels.take count = taken
  induction taken generalizing start with
  | nil => exact hstart
  | cons label rest ih => exact ih (hkeep label hstart)

/-- Suppose that a step that is `Ok` keeps an invariant which gives a property,
and that a step that is not breaks the property.  Then the property holds all
along if and only if every step is `Ok`. -/
theorem reached_iff {apply : σ → α → σ} {Inv Holds : σ → Prop}
    {Ok : σ → α → Prop} {start : σ} (hstart : Inv start)
    (hholds : ∀ {s}, Inv s → Holds s)
    (hkeep : ∀ {s label}, Inv s → Ok s label → Inv (apply s label))
    (hbreak : ∀ {s label}, Inv s → ¬ Ok s label → ¬ Holds (apply s label))
    (labels : List α) :
    (∀ count ≤ labels.length, Holds (reached apply start labels count)) ↔
      ∀ count label, labels[count]? = some label →
        Ok (reached apply start labels count) label := by
  constructor
  · intro hall count
    induction count using Nat.strong_induction_on with
    | h count ih =>
        intro label hlabel
        have hinv : Inv (reached apply start labels count) :=
          reached_invariant hstart hkeep ih
        have hlt := (List.getElem?_eq_some_iff.mp hlabel).1
        by_contra hnot
        have hnext := hall (count + 1) hlt
        rw [reached_succ hlabel] at hnext
        exact hbreak hinv hnot hnext
  · intro hok count _
    exact hholds (reached_invariant hstart hkeep fun before _ => hok before)

/-- Suppose that from `Due (n + 1)` a tick either finds the goal or leaves
`Due n`, and that no other step undoes `Due n`.  Then among the first `n` ticks
of any run one finds the goal, whatever happens between the ticks. -/
theorem Run.countdown (tick : α → Bool) (Goal : σ → Prop)
    (Due : Nat → σ → Prop) {s t : σ} {labels : List α}
    (hrun : Run step s labels t)
    (hzero : ∀ {s}, ¬ Due 0 s)
    (hother : ∀ {n s t label}, tick label = false → Due n s →
      step s label t → Due n t)
    (htick : ∀ {n s t label}, tick label = true → Due (n + 1) s →
      step s label t → Goal s ∨ Due n t)
    {n : Nat} (hdue : Due n s) (hcount : n ≤ labels.countP tick) :
    ∃ before label after mid, labels = before ++ label :: after ∧
      tick label = true ∧ before.countP tick < n ∧
      Run step s before mid ∧ Goal mid := by
  induction hrun generalizing n with
  | nil s =>
      rw [List.countP_nil, Nat.le_zero] at hcount
      rw [hcount] at hdue
      exact absurd hdue hzero
  | @cons s t u label labels hfirst hrest ih =>
      cases hlabel : tick label with
      | false =>
          rw [List.countP_cons_of_neg (by simp [hlabel])] at hcount
          obtain ⟨before, found, after, mid, rfl, hfound, hbefore, hrun, hgoal⟩ :=
            ih (hother hlabel hdue hfirst) hcount
          refine ⟨label :: before, found, after, mid, rfl, hfound, ?_,
            Run.cons hfirst hrun, hgoal⟩
          rwa [List.countP_cons_of_neg (by simp [hlabel])]
      | true =>
          rw [List.countP_cons_of_pos hlabel] at hcount
          cases n with
          | zero => exact absurd hdue hzero
          | succ n =>
              rcases htick hlabel hdue hfirst with hgoal | hnext
              · exact ⟨[], label, labels, s, rfl, hlabel, Nat.succ_pos n,
                  Run.nil s, hgoal⟩
              · obtain ⟨before, found, after, mid, rfl, hfound, hbefore, hrun,
                  hgoal⟩ := ih hnext (Nat.le_of_succ_le_succ hcount)
                refine ⟨label :: before, found, after, mid, rfl, hfound, ?_,
                  Run.cons hfirst hrun, hgoal⟩
                rw [List.countP_cons_of_pos hlabel]
                exact Nat.succ_lt_succ hbefore

end Transition
