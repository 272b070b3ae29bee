/-
The version stamped beside a wake word model, and the order of two versions.
-/
import Bridgething.Lib.Text

namespace Bridgething

namespace Ota

open Text (trim parseUnsigned)

def U64_MAX : Nat := 2 ^ 64 - 1

/-- What is written beside a model for the version it was pushed with. -/
def stampText (version : List Char) : List Char := version ++ ['\n']

/-- A stamp that is blank says nothing. -/
def readStamp (stamp : List Char) : Option (List Char) :=
  if trim stamp = [] then none else some (trim stamp)

def parseVersion (text : List Char) : Option (List Nat) :=
  (text.splitOn '.').mapM (parseUnsigned U64_MAX)

/-- The first places of two versions in order; a place that a version does not
have counts for zero. -/
def firstPlaces (a b : List Nat) (width : Nat) : Ordering :=
  ((List.range width).map fun i => (a.getD i 0, b.getD i 0)).foldl
    (fun found place => found.then (compare place.1 place.2)) .eq

/-- Two dotted numeric versions in order; there is none where either is not
numeric. -/
def versionCmp (a b : List Char) : Option Ordering := do
  let a ← parseVersion a
  let b ← parseVersion b
  return firstPlaces a b (max a.length b.length)

/-- The first place in which two versions differ is greater in the one. -/
def Above (a b : List Nat) : Prop :=
  ∃ i, (∀ j < i, a.getD j 0 = b.getD j 0) ∧ b.getD i 0 < a.getD i 0

/-- Both versions are numeric, and the one is strictly newer. -/
def Newer (a b : List Char) : Prop :=
  ∃ left right, parseVersion a = some left ∧ parseVersion b = some right ∧
    Above left right

theorem firstPlaces_succ (a b : List Nat) (width : Nat) :
    firstPlaces a b (width + 1) =
      (firstPlaces a b width).then
        (compare (a.getD width 0) (b.getD width 0)) := by
  simp only [firstPlaces, List.range_succ, List.map_append, List.map_cons,
    List.map_nil, List.foldl_append, List.foldl_cons, List.foldl_nil]

theorem firstPlaces_eq (a b : List Nat) (width : Nat) :
    firstPlaces a b width = .eq ↔
      ∀ j < width, a.getD j 0 = b.getD j 0 := by
  induction width with
  | zero => exact ⟨fun _ _ hj => absurd hj (Nat.not_lt_zero _), fun _ => rfl⟩
  | succ width ih =>
      rw [firstPlaces_succ, Ordering.then_eq_eq, ih, Nat.compare_eq_eq]
      constructor
      · rintro ⟨hbefore, hlast⟩ j hj
        rcases Nat.lt_succ_iff_lt_or_eq.mp hj with hlt | rfl
        · exact hbefore j hlt
        · exact hlast
      · intro hall
        exact ⟨fun j hj => hall j (Nat.lt_succ_of_lt hj),
          hall width (Nat.lt_succ_self _)⟩

theorem firstPlaces_gt (a b : List Nat) (width : Nat) :
    firstPlaces a b width = .gt ↔
      ∃ i < width, (∀ j < i, a.getD j 0 = b.getD j 0) ∧
        b.getD i 0 < a.getD i 0 := by
  induction width with
  | zero =>
      constructor
      · intro h
        exact nomatch h
      · rintro ⟨i, hi, -⟩
        exact absurd hi (Nat.not_lt_zero _)
  | succ width ih =>
      rw [firstPlaces_succ, Ordering.then_eq_gt, ih, firstPlaces_eq,
        Nat.compare_eq_gt]
      constructor
      · rintro (⟨i, hi, hbefore⟩ | ⟨hbefore, hlast⟩)
        · exact ⟨i, Nat.lt_succ_of_lt hi, hbefore⟩
        · exact ⟨width, Nat.lt_succ_self _, hbefore, hlast⟩
      · rintro ⟨i, hi, hbefore, hgt⟩
        rcases Nat.lt_succ_iff_lt_or_eq.mp hi with hlt | rfl
        · exact Or.inl ⟨i, hlt, hbefore, hgt⟩
        · exact Or.inr ⟨hbefore, hgt⟩

/-- A version comes out as the greater exactly when it is strictly newer. -/
theorem versionCmp_gt_iff (a b : List Char) :
    versionCmp a b = some .gt ↔ Newer a b := by
  have hplaces : ∀ left right : List Nat,
      firstPlaces left right (max left.length right.length) = .gt ↔
        Above left right := by
    intro left right
    rw [firstPlaces_gt]
    constructor
    · rintro ⟨i, -, habove⟩
      exact ⟨i, habove⟩
    · rintro ⟨i, hbefore, hgt⟩
      have hhas : i < left.length := by
        by_contra hpast
        rw [List.getD_eq_default _ _ (Nat.le_of_not_lt hpast)] at hgt
        exact Nat.not_lt_zero _ hgt
      exact ⟨i, Nat.lt_of_lt_of_le hhas (Nat.le_max_left _ _), hbefore, hgt⟩
  rw [versionCmp, Newer]
  cases ha : parseVersion a with
  | none => simp
  | some left =>
      cases hb : parseVersion b with
      | none => simp
      | some right =>
          simpa using hplaces left right

end Ota

end Bridgething
