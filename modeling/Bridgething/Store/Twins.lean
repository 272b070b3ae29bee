/-
Where the updater and the listing of the store offer the same updates.
-/
import Bridgething.Store.Updates

namespace Bridgething

namespace Store

/-- An update by what it is about: the webapp, the version that is installed,
the release to go on to, and the source. -/
structure Offer where
  app : Option Uuid
  installedVersion : String
  target : AppVersion
  sourceUrl : String
deriving DecidableEq

/-- The versions that are compared, from the newest release on to the first one
that suits the device, compare the same. -/
def Walked (libVersion installed : String) : List AppVersion → Prop
  | [] => True
  | version :: rest =>
      satisfies libVersion version.minLibbridgethingVersion =
          Resolve.satisfies libVersion version.minLibbridgethingVersion ∧
        if satisfies libVersion version.minLibbridgethingVersion then
          isUpgrade version.version installed =
            Resolve.isUpgrade version.version installed
        else Walked libVersion installed rest

def readDigit (c : Char) : Option (Fin 16) :=
  (List.finRange 16).find? fun nibble => hexDigit nibble = c

variable {crates : Crates} {engine : Resolve.Engine}

/-- The release that is taken, if it is one to go on to. -/
theorem Walked.taken {libVersion installed : String}
    {versions : List AppVersion} (h : Walked libVersion installed versions) :
    ((versions.find? fun version =>
        satisfies libVersion version.minLibbridgethingVersion).filter
          fun version => isUpgrade version.version installed) =
      (versions.find? fun version =>
        Resolve.satisfies libVersion version.minLibbridgethingVersion).filter
          fun version => Resolve.isUpgrade version.version installed := by
  induction versions with
  | nil =>
      rw [List.find?_nil, List.find?_nil, Option.filter_none,
        Option.filter_none]
  | cons version rest ih =>
      obtain ⟨hsame, hrest⟩ := h
      cases hsuits : satisfies libVersion version.minLibbridgethingVersion with
      | true =>
          rw [hsuits, if_pos rfl] at hrest
          simp only [List.find?_cons, ← hsame, hsuits]
          rw [Option.filter_some, Option.filter_some, hrest]
      | false =>
          rw [hsuits, if_neg Bool.false_ne_true] at hrest
          simp only [List.find?_cons, ← hsame, hsuits]
          exact ih hrest

/-- What is owed to a webapp whose source and entry are at hand. -/
def owed (app : AppEntry) (installed sourceUrl : String) (id : Option Uuid)
    (taken : Option AppVersion) : Option Offer :=
  if app.declaresExtension then none
  else taken.map fun target => ⟨id, installed, target, sourceUrl⟩

end Store

end Bridgething
