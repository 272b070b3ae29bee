/-
Calls that overlap on one state: each takes its steps one at a time, in any
order.  What the state lacks, a call that is under way may still owe it.
-/
import Bridgething.Lib.Transition

namespace Overlap

universe u v w x

variable {σ : Type u} {φ : Type v} {κ : Type w} {α : Type x}

/-- A state, and how far each of the calls on it is. -/
structure Calls (σ : Type u) (φ : Type v) where
  state : σ
  phases : List φ
deriving DecidableEq

/-- A call begins, or one goes on. -/
inductive Event (κ : Type w) (α : Type x)
  | start (call : κ)
  | step (call : Nat) (answer : α)

/-- How a call begins, when it has to wait, and what a step of it does. -/
structure Program (σ : Type u) (φ : Type v) (κ : Type w) (α : Type x) where
  begun : κ → φ
  waits : Calls σ φ → φ → Bool
  advance : σ → α → φ → σ × φ

namespace Calls

/-- This is so of another call. -/
def Others (calls : Calls σ φ) (call : Nat) (P : φ → Prop) : Prop :=
  ∃ other phase, other ≠ call ∧ calls.phases[other]? = some phase ∧ P phase

variable {calls : Calls σ φ} {call : Nat} {phase : φ}

/-- Whoever satisfies something is the call itself or another. -/
theorem exists_iff (h : calls.phases[call]? = some phase) (P : φ → Prop) :
    (∃ phase ∈ calls.phases, P phase) ↔ P phase ∨ calls.Others call P := by
  constructor
  · rintro ⟨found, hfound, hp⟩
    obtain ⟨other, hother⟩ := List.mem_iff_getElem?.mp hfound
    by_cases hsame : other = call
    · rw [hsame, h, Option.some.injEq] at hother
      rw [hother]
      exact Or.inl hp
    · exact Or.inr ⟨other, found, hsame, hother, hp⟩
  · rintro (hp | ⟨other, found, -, hother, hp⟩)
    · exact ⟨phase, List.mem_of_getElem? h, hp⟩
    · exact ⟨found, List.mem_of_getElem? hother, hp⟩

/-- A step of a call is nothing to the others. -/
theorem others_set (state : σ) (next : φ) (P : φ → Prop) :
    Others ⟨state, calls.phases.set call next⟩ call P ↔
      calls.Others call P := by
  apply exists_congr
  intro other
  apply exists_congr
  intro found
  apply and_congr_right
  intro hne
  rw [List.getElem?_set_ne (Ne.symm hne)]

theorem Others.mono {P Q : φ → Prop} (h : calls.Others call P)
    (himp : ∀ phase, P phase → Q phase) : calls.Others call Q := by
  obtain ⟨other, found, hne, hfound, hp⟩ := h
  exact ⟨other, found, hne, hfound, himp found hp⟩

theorem getElem?_set_cases {next found : φ} {other : Nat}
    (h : (calls.phases.set call next)[other]? = some found) :
    (other = call ∧ found = next) ∨
      (other ≠ call ∧ calls.phases[other]? = some found) := by
  by_cases hsame : other = call
  · subst hsame
    rw [List.getElem?_set_self'] at h
    cases hold : calls.phases[other]? with
    | none =>
        rw [hold] at h
        contradiction
    | some old =>
        rw [hold] at h
        exact Or.inl ⟨rfl, (Option.some.inj h).symm⟩
  · rw [List.getElem?_set_ne (Ne.symm hsame)] at h
    exact Or.inr ⟨hsame, h⟩

end Calls

namespace Program

variable (program : Program σ φ κ α)

def apply (calls : Calls σ φ) : Event κ α → Calls σ φ
  | .start call =>
      { calls with phases := calls.phases ++ [program.begun call] }
  | .step call answer =>
      match calls.phases[call]? with
      | none => calls
      | some phase =>
          if program.waits calls phase then calls
          else
            ⟨(program.advance calls.state answer phase).1,
              calls.phases.set call
                (program.advance calls.state answer phase).2⟩

/-- The calls after a number of events. -/
abbrev reached (state : σ) (events : List (Event κ α)) (count : Nat) :
    Calls σ φ :=
  Transition.reached program.apply ⟨state, []⟩ events count

/-- What holds of the step that an event is, where it is one. -/
def Meets (Ok : Calls σ φ → Nat → α → φ → Prop) (calls : Calls σ φ) :
    Event κ α → Prop
  | .start _ => True
  | .step call answer => ∀ phase, calls.phases[call]? = some phase →
      program.waits calls phase = false → Ok calls call answer phase

variable {program}

/-- What the beginning of a call keeps, and a step of a call, an event keeps. -/
theorem keeps {Inv : Calls σ φ → Prop} {Ok : Calls σ φ → Nat → α → φ → Prop}
    (hstart : ∀ {calls} call, Inv calls →
      Inv { calls with phases := calls.phases ++ [program.begun call] })
    (hstep : ∀ {calls call answer phase}, Inv calls →
      calls.phases[call]? = some phase → program.waits calls phase = false →
      Ok calls call answer phase →
      Inv ⟨(program.advance calls.state answer phase).1,
        calls.phases.set call (program.advance calls.state answer phase).2⟩)
    {calls : Calls σ φ} {event : Event κ α} (hinv : Inv calls)
    (hmeets : program.Meets Ok calls event) :
    Inv (program.apply calls event) := by
  cases event with
  | start call => exact hstart call hinv
  | step call answer =>
      cases hphase : calls.phases[call]? with
      | none =>
          simp only [apply, hphase]
          exact hinv
      | some phase =>
          cases hwaits : program.waits calls phase with
          | true =>
              simp only [apply, hphase, hwaits, if_true]
              exact hinv
          | false =>
              simp only [apply, hphase, hwaits, Bool.false_eq_true, if_false]
              exact hstep hinv hphase hwaits (hmeets phase hphase hwaits)

/-- What holds of a state without calls, and events keep, holds all along. -/
theorem reached_keeps {Inv : Calls σ φ → Prop}
    {Ok : Calls σ φ → Nat → α → φ → Prop} {state : σ}
    (hempty : Inv ⟨state, []⟩)
    (hstart : ∀ {calls} call, Inv calls →
      Inv { calls with phases := calls.phases ++ [program.begun call] })
    (hstep : ∀ {calls call answer phase}, Inv calls →
      calls.phases[call]? = some phase → program.waits calls phase = false →
      Ok calls call answer phase →
      Inv ⟨(program.advance calls.state answer phase).1,
        calls.phases.set call (program.advance calls.state answer phase).2⟩)
    {events : List (Event κ α)} {count : Nat}
    (hok : ∀ before < count, ∀ event, events[before]? = some event →
      program.Meets Ok (program.reached state events before) event) :
    Inv (program.reached state events count) :=
  Transition.reached_invariant hempty
    (fun hinv hmeets => keeps hstart hstep hinv hmeets) hok

end Program

/-! ### Locks -/

/-- The phases whose step takes the lock, and those that have it already. -/
structure Lock (φ : Type v) where
  takes : φ → Bool
  holds : φ → Bool

namespace Lock

variable (lock : Lock φ)

/-- Who would take the lock waits while another has it. -/
def waits (calls : Calls σ φ) (phase : φ) : Bool :=
  lock.takes phase && calls.phases.any lock.holds

/-- At most one call has the lock. -/
def Exclusive (calls : Calls σ φ) : Prop :=
  ∀ (first second : Nat) (one another : φ), calls.phases[first]? = some one →
    calls.phases[second]? = some another → lock.holds one = true →
    lock.holds another = true → first = second

variable {lock} {calls : Calls σ φ}

theorem exclusive_nil (state : σ) :
    lock.Exclusive (⟨state, []⟩ : Calls σ φ) := by
  intro first second one another hone
  simp at hone

theorem Exclusive.start (h : lock.Exclusive calls) {phase : φ}
    (hfree : lock.holds phase = false) :
    lock.Exclusive { calls with phases := calls.phases ++ [phase] } := by
  have hold : ∀ {other : Nat} {found : φ},
      (calls.phases ++ [phase])[other]? = some found →
        lock.holds found = true → calls.phases[other]? = some found := by
    intro other found hfound hholds
    rw [List.getElem?_append] at hfound
    split at hfound
    · exact hfound
    · have hsame := List.mem_singleton.mp (List.mem_of_getElem? hfound)
      rw [hsame, hfree] at hholds
      contradiction
  intro first second one another hone hanother hholds hother
  exact h first second one another (hold hone hholds) (hold hanother hother)
    hholds hother

/-- While a call goes on that takes the lock or has it, no other has it. -/
theorem Exclusive.alone (h : lock.Exclusive calls) {call other : Nat}
    {phase found : φ} (hphase : calls.phases[call]? = some phase)
    (hwaits : lock.waits calls phase = false)
    (hlocked : lock.takes phase = true ∨ lock.holds phase = true)
    (hother : other ≠ call) (hfound : calls.phases[other]? = some found) :
    lock.holds found = false := by
  by_contra hholds
  rw [Bool.not_eq_false] at hholds
  rcases hlocked with htakes | hhas
  · have hany : calls.phases.any lock.holds = true :=
      List.any_eq_true.mpr ⟨found, List.mem_of_getElem? hfound, hholds⟩
    rw [waits, htakes, hany] at hwaits
    contradiction
  · exact hother (h other call found phase hfound hphase hholds hhas)

/-- Who has the lock after a step has taken it there or had it before. -/
theorem Exclusive.step (h : lock.Exclusive calls) {call : Nat}
    {phase next : φ} {state : σ}
    (hphase : calls.phases[call]? = some phase)
    (hwaits : lock.waits calls phase = false)
    (hnext : lock.holds next = true →
      lock.takes phase = true ∨ lock.holds phase = true) :
    lock.Exclusive ⟨state, calls.phases.set call next⟩ := by
  intro first second one another hone hanother hholds hother
  rcases Calls.getElem?_set_cases hone with ⟨rfl, rfl⟩ | ⟨hfirst, hold⟩
  · rcases Calls.getElem?_set_cases hanother with
      ⟨rfl, rfl⟩ | ⟨hsecond, hlast⟩
    · rfl
    · rw [h.alone hphase hwaits (hnext hholds) hsecond hlast] at hother
      contradiction
  · rcases Calls.getElem?_set_cases hanother with ⟨rfl, rfl⟩ | ⟨-, hlast⟩
    · rw [h.alone hphase hwaits (hnext hother) hfirst hold] at hholds
      contradiction
    · exact h first second one another hold hlast hholds hother

end Lock

/-! ### Debts -/

/-- What a state is to be, and which calls are still to see to it. -/
structure Debt (σ : Type u) (φ : Type v) where
  Paid : σ → Prop
  Owes : σ → φ → Prop

namespace Debt

variable (debt : Debt σ φ)

/-- The state is as it is to be, or a call owes it that. -/
def Covered (calls : Calls σ φ) : Prop :=
  debt.Paid calls.state ∨ ∃ phase ∈ calls.phases, debt.Owes calls.state phase

variable {debt} {calls : Calls σ φ}

theorem Covered.start (h : debt.Covered calls) (phase : φ) :
    debt.Covered { calls with phases := calls.phases ++ [phase] } := by
  rcases h with hpaid | ⟨found, hfound, howes⟩
  · exact Or.inl hpaid
  · exact Or.inr ⟨found, List.mem_append_left _ hfound, howes⟩

theorem covered_iff {call : Nat} {phase : φ}
    (h : calls.phases[call]? = some phase) :
    debt.Covered calls ↔ debt.Paid calls.state ∨
      debt.Owes calls.state phase ∨
      calls.Others call (debt.Owes calls.state) := by
  rw [Covered, Calls.exists_iff h]

theorem covered_set_iff {call : Nat} {phase next : φ} {state : σ}
    (h : calls.phases[call]? = some phase) :
    debt.Covered ⟨state, calls.phases.set call next⟩ ↔ debt.Paid state ∨
      debt.Owes state next ∨ calls.Others call (debt.Owes state) := by
  have hset : (calls.phases.set call next)[call]? = some next :=
    List.getElem?_set_self (List.getElem?_eq_some_iff.mp h).1
  have hiff := @covered_iff σ φ debt ⟨state, calls.phases.set call next⟩ call
    next hset
  rw [hiff, Calls.others_set]

/-- A step that leaves the debt, and what the others owe, leaves it covered. -/
theorem Covered.step {call : Nat} {phase next : φ} {state : σ}
    (hcovered : debt.Covered calls)
    (h : calls.phases[call]? = some phase)
    (hpaid : debt.Paid calls.state → debt.Paid state)
    (howes : debt.Owes calls.state phase → debt.Owes state next)
    (hothers : ∀ other, debt.Owes calls.state other → debt.Owes state other) :
    debt.Covered ⟨state, calls.phases.set call next⟩ := by
  rw [covered_set_iff h]
  rcases (covered_iff h).mp hcovered with hbefore | hbefore | hbefore
  · exact Or.inl (hpaid hbefore)
  · exact Or.inr (Or.inl (howes hbefore))
  · exact Or.inr (Or.inr (hbefore.mono hothers))

end Debt

end Overlap
