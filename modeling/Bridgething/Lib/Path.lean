/-
Paths of a file system: a text is followed from a directory, component by
component, and may lead out of it.
-/
import Mathlib

namespace FilePaths

/-- The names on the way from the top to a place. -/
abbrev Path := List String

inductive Component
  | curDir
  | parentDir
  | normal (name : String)
deriving Repr, DecidableEq

/-- What stands between the slashes of a text. -/
def components (text : String) : List Component :=
  (text.toList.splitOn '/').filterMap fun part =>
    if part = [] then none
    else if part = ['.'] then some .curDir
    else if part = ['.', '.'] then some .parentDir
    else some (.normal (String.ofList part))

def isAbsolute (text : String) : Bool := text.toList.head? = some '/'

def enter (place : Path) : Component → Path
  | .curDir => place
  | .parentDir => place.dropLast
  | .normal name => place ++ [name]

/-- Each component is looked up in a directory. -/
def walk (isDir : Path → Bool) (place : Path) :
    List Component → Option Path
  | [] => some place
  | component :: rest =>
      if isDir place then walk isDir (enter place component) rest else none

/-- Where a text is followed from: a directory, or the top. -/
def origin (base : Path) (text : String) : Path :=
  if isAbsolute text then [] else base

/-- The place of a text, where the directories on the way are there. -/
def follow (isDir : Path → Bool) (base : Path) (text : String) : Option Path :=
  walk isDir (origin base text) (components text)

/-- The place that a text is the path of, whatever is there. -/
def leadsTo (base : Path) (text : String) : Path :=
  (components text).foldl enter (origin base text)

/-- Strictly inside a directory. -/
def Inside (root path : Path) : Prop := root <+: path ∧ path ≠ root

instance (root path : Path) : Decidable (Inside root path) :=
  inferInstanceAs (Decidable (_ ∧ _))

theorem walk_eq_some {isDir : Path → Bool} {place found : Path}
    {parts : List Component} (h : walk isDir place parts = some found) :
    parts.foldl enter place = found := by
  induction parts generalizing place with
  | nil => exact Option.some.inj h
  | cons part rest ih =>
      rw [walk, Option.ite_none_right_eq_some] at h
      exact ih h.2

theorem walk_of_all (place : Path) (parts : List Component) :
    walk (fun _ => true) place parts = some (parts.foldl enter place) := by
  induction parts generalizing place with
  | nil => rfl
  | cons part rest ih => exact ih (enter place part)

theorem follow_eq_some {isDir : Path → Bool} {base found : Path}
    {text : String} (h : follow isDir base text = some found) :
    leadsTo base text = found :=
  walk_eq_some h

theorem follow_of_all (base : Path) (text : String) :
    follow (fun _ => true) base text = some (leadsTo base text) :=
  walk_of_all _ _

theorem Inside.append {root path : Path} (h : Inside root path) (more : Path) :
    Inside root (path ++ more) := by
  obtain ⟨⟨rest, rfl⟩, hne⟩ := h
  refine ⟨⟨rest ++ more, (List.append_assoc _ _ _).symm⟩, fun hsame => hne ?_⟩
  rw [List.append_assoc] at hsame
  have hnil := List.append_eq_nil_iff.mp (List.append_right_eq_self.mp hsame)
  rw [hnil.1, List.append_nil]

/-- The directory that a place inside stands in is the root or inside. -/
theorem Inside.parent {root path : Path} (h : Inside root path) :
    root <+: path.dropLast := by
  obtain ⟨⟨below, hbelow⟩, hne⟩ := h
  have hsome : below ≠ [] := by
    rintro rfl
    exact hne (by rw [← hbelow, List.append_nil])
  rw [← hbelow, List.dropLast_append_of_ne_nil hsome]
  exact List.prefix_append _ _

theorem inside_child (root : Path) (name : String) :
    Inside root (root ++ [name]) :=
  ⟨List.prefix_append _ _, by simp⟩

/-- What lies on the way down from the root is inside, or is on the way to the
root. -/
theorem inside_of_prefix {root path before : Path} (h : root <+: path)
    (hbefore : before <+: path) (hfar : ¬ before <+: root) :
    Inside root before := by
  rcases List.prefix_or_prefix_of_prefix h hbefore with hroot | hshort
  · exact ⟨hroot, fun hsame => hfar (hsame ▸ List.prefix_refl _)⟩
  · exact absurd hshort hfar

end FilePaths
