/-
A set kept by turns, each of which brings a key in or takes one out: what is in
it, whether only keys that were in it were taken out, and why neither depends
on the order of turns about different keys.
-/
import Mathlib

namespace Roster

universe u

variable {κ : Type u} [DecidableEq κ]

inductive Turn (κ : Type u)
  | enter (key : κ)
  | leave (key : κ)
deriving DecidableEq, Repr

omit [DecidableEq κ] in
def Turn.key : Turn κ → κ
  | .enter key => key
  | .leave key => key

omit [DecidableEq κ] in
def Turn.leaves : Turn κ → Bool
  | .enter _ => false
  | .leave _ => true

def Turn.take (members : List κ) : Turn κ → List κ
  | .enter key => members.insert key
  | .leave key => members.filter (· ≠ key)

/-- Who is in after turns. -/
def after (members : List κ) (turns : List (Turn κ)) : List κ :=
  turns.foldl Turn.take members

/-- Every key that is taken out was in. -/
def Fair (members : List κ) : List (Turn κ) → Prop
  | [] => True
  | turn :: turns =>
      (turn.leaves = true → turn.key ∈ members) ∧
        Fair (turn.take members) turns

@[simp] theorem after_nil (members : List κ) : after members [] = members :=
  rfl

theorem after_cons (members : List κ) (turn : Turn κ)
    (turns : List (Turn κ)) :
    after members (turn :: turns) = after (turn.take members) turns := rfl

theorem after_append (members : List κ) (turns more : List (Turn κ)) :
    after members (turns ++ more) = after (after members turns) more :=
  List.foldl_append

theorem fair_append {members : List κ} {turns more : List (Turn κ)} :
    Fair members (turns ++ more) ↔
      Fair members turns ∧ Fair (after members turns) more := by
  induction turns generalizing members with
  | nil => exact (iff_of_eq (true_and _)).symm
  | cons turn turns ih =>
      rw [List.cons_append, Fair, Fair, ih, and_assoc]
      rfl

/-- A turn changes nothing about other keys. -/
theorem mem_take_of_ne {members : List κ} {turn : Turn κ} {key : κ}
    (h : turn.key ≠ key) : key ∈ turn.take members ↔ key ∈ members := by
  cases turn with
  | enter other =>
      have hne : key ≠ other := Ne.symm h
      simp [Turn.take, hne]
  | leave other =>
      have hne : key ≠ other := Ne.symm h
      simp [Turn.take, hne]

theorem mem_take_congr {members others : List κ} (turn : Turn κ) {key : κ}
    (h : key ∈ members ↔ key ∈ others) :
    key ∈ turn.take members ↔ key ∈ turn.take others := by
  cases turn with
  | enter other => simp [Turn.take, h]
  | leave other => simp [Turn.take, h]

theorem mem_after_congr {members others : List κ} {key : κ}
    (h : key ∈ members ↔ key ∈ others) (turns : List (Turn κ)) :
    key ∈ after members turns ↔ key ∈ after others turns := by
  induction turns generalizing members others with
  | nil => exact h
  | cons turn turns ih => exact ih (mem_take_congr turn h)

theorem fair_congr {members others : List κ} {turns : List (Turn κ)}
    (h : ∀ turn ∈ turns, turn.key ∈ members ↔ turn.key ∈ others) :
    Fair members turns ↔ Fair others turns := by
  induction turns generalizing members others with
  | nil => exact Iff.rfl
  | cons turn turns ih =>
      have hhead := h turn List.mem_cons_self
      have htail : ∀ other ∈ turns, other.key ∈ turn.take members ↔
          other.key ∈ turn.take others := fun other hother =>
        mem_take_congr turn (h other (List.mem_cons_of_mem _ hother))
      rw [Fair, Fair, hhead, ih htail]

/-- Whether a key is in depends on the turns about it alone. -/
theorem mem_after_filter {members : List κ} {key : κ}
    (turns : List (Turn κ)) :
    key ∈ after members turns ↔
      key ∈ after members (turns.filter fun turn => turn.key = key) := by
  induction turns generalizing members with
  | nil => exact Iff.rfl
  | cons turn turns ih =>
      by_cases hkey : turn.key = key
      · rw [List.filter_cons_of_pos (by simpa using hkey), after_cons,
          after_cons]
        exact ih
      · rw [List.filter_cons_of_neg (by simpa using hkey), after_cons, ih]
        exact mem_after_congr (mem_take_of_ne hkey) _

/-- Turns are fair if those about each key are. -/
theorem fair_iff_filter {members : List κ} {turns : List (Turn κ)} :
    Fair members turns ↔
      ∀ key, Fair members (turns.filter fun turn => turn.key = key) := by
  induction turns generalizing members with
  | nil => exact ⟨fun h _ => h, fun _ => trivial⟩
  | cons turn turns ih =>
      have hother : ∀ {key}, turn.key ≠ key →
          (Fair (turn.take members) (turns.filter fun t => t.key = key) ↔
            Fair members (turns.filter fun t => t.key = key)) := by
        intro key hkey
        apply fair_congr
        intro other hmem
        have heq : other.key = key := by
          simpa using (List.mem_filter.mp hmem).2
        rw [heq]
        exact mem_take_of_ne hkey
      rw [Fair, ih]
      constructor
      · rintro ⟨hhead, hrest⟩ key
        by_cases hkey : turn.key = key
        · rw [List.filter_cons_of_pos (by simpa using hkey)]
          exact ⟨hhead, hrest key⟩
        · rw [List.filter_cons_of_neg (by simpa using hkey)]
          exact (hother hkey).mp (hrest key)
      · intro h
        have hown := h turn.key
        rw [List.filter_cons_of_pos (by simp), Fair] at hown
        refine ⟨hown.1, fun key => ?_⟩
        by_cases hkey : turn.key = key
        · rw [← hkey]
          exact hown.2
        · have hkept := h key
          rw [List.filter_cons_of_neg (by simpa using hkey)] at hkept
          exact (hother hkey).mpr hkept

/-- The same turns about each key, in the same order. -/
def Same (turns others : List (Turn κ)) : Prop :=
  ∀ key, (turns.filter fun turn => turn.key = key) =
    others.filter fun turn => turn.key = key

theorem Same.mem_after {turns others : List (Turn κ)}
    (h : Same turns others) {members : List κ} {key : κ} :
    key ∈ after members turns ↔ key ∈ after members others := by
  rw [mem_after_filter turns, h key, ← mem_after_filter others]

theorem Same.fair {turns others : List (Turn κ)} (h : Same turns others)
    {members : List κ} : Fair members turns ↔ Fair members others := by
  rw [fair_iff_filter, fair_iff_filter]
  exact forall_congr' fun key => by rw [h key]

/-- A turn may be taken before those that are not about its key. -/
theorem same_forward (taken : List (Turn κ)) {first : List (Turn κ)}
    {turn : Turn κ} (h : ∀ other ∈ first, other.key ≠ turn.key)
    (rest : List (Turn κ)) :
    Same (taken ++ turn :: (first ++ rest))
      (taken ++ (first ++ turn :: rest)) := by
  intro key
  by_cases hkey : turn.key = key
  · have hnone : (first.filter fun other => other.key = key) = [] := by
      rw [List.filter_eq_nil_iff]
      intro other hmem
      simpa [← hkey] using h other hmem
    simp [List.filter_append, hkey, hnone]
  · simp [List.filter_append, List.filter_cons_of_neg, hkey]

theorem mem_after_leave {members : List κ} {key : κ} (keys : List κ) :
    key ∈ after members (keys.map Turn.leave) ↔
      key ∈ members ∧ key ∉ keys := by
  induction keys generalizing members with
  | nil => simp
  | cons other keys ih =>
      rw [List.map_cons, after_cons, ih]
      simp only [Turn.take, ne_eq, decide_not, List.mem_filter,
        Bool.not_eq_eq_eq_not, Bool.not_true, decide_eq_false_iff_not,
        List.mem_cons, not_or, and_assoc]

theorem fair_leave {members keys : List κ} (hnodup : keys.Nodup)
    (h : ∀ key ∈ keys, key ∈ members) :
    Fair members (keys.map Turn.leave) := by
  induction keys generalizing members with
  | nil => trivial
  | cons key keys ih =>
      obtain ⟨hnot, hrest⟩ := List.nodup_cons.mp hnodup
      refine ⟨fun _ => h key List.mem_cons_self, ih hrest ?_⟩
      intro other hother
      have hne : (Turn.leave key).key ≠ other := by
        rintro rfl
        exact hnot hother
      exact (mem_take_of_ne hne).mpr (h other (List.mem_cons_of_mem _ hother))

end Roster
