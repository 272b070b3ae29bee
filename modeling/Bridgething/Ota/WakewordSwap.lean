/-
Putting a pushed wake word model in place: it is copied beside the model that is
live and verified, the live one is rotated out, the copy is renamed to where the
model is, and its version is stamped beside it.
-/
import Bridgething.Ota.WakewordVersion

namespace Bridgething

namespace Ota

namespace Wakeword

universe u

variable {α : Type u}

/-- The files of a model: it, the one before it, the copy that comes in, and the
stamp. -/
structure Files (α : Type u) where
  dest : Option α
  previous : Option α
  incoming : Option α := none
  stamp : Option (List Char)

inductive ApplyError
  | noTarget
  | io (step source : String)
  | unusable (reason : String)
deriving Repr, DecidableEq

inductive Outcome
  | applied
  | refused (error : ApplyError)
  | crashed
deriving Repr, DecidableEq

/-- The steps of `apply` on the file system. -/
inductive Step
  | mkdir
  | copy
  | verify
  | existsDest
  | removePrevious
  | rotate
  | promote
  | existsPrevious
  | restore
  | removeIncoming
  | truncate
  | write
  | removeStamp
deriving Repr, DecidableEq

/-- One step goes wrong: it fails, or there is a crash before its effect.  A
write that is cut short has written some characters. -/
structure Fault where
  step : Step
  crash : Bool
  wrote : Nat := 0
  source : String := ""
deriving Repr, DecidableEq

/-- A step, with what follows it where it fails and where it succeeds. -/
def attempt (fault : Option Fault) (step : Step) (files : Files α)
    (failed next : Files α × Outcome) : Files α × Outcome :=
  match fault with
  | none => next
  | some fault =>
      if fault.step = step then
        if fault.crash then (files, .crashed) else failed
      else next

def sourceOf (fault : Option Fault) : String := fault.elim "" Fault.source

/-- A removal that fails leaves what it was to remove. -/
def discard (fault : Option Fault) (error : ApplyError) (files : Files α) :
    Files α × Outcome :=
  attempt fault .removeIncoming files (files, .refused error)
    ({ files with incoming := none }, .refused error)

def unstamp (fault : Option Fault) (files : Files α) : Files α × Outcome :=
  attempt fault .removeStamp files (files, .applied)
    ({ files with stamp := none }, .applied)

/-- The stamp of an unversioned push is removed, and so is one that cannot be
written. -/
def writeStamp (fault : Option Fault) (version : Option (List Char))
    (files : Files α) : Files α × Outcome :=
  match version with
  | none => unstamp fault files
  | some version =>
      let cut := (stampText version).take (fault.elim 0 Fault.wrote)
      attempt fault .truncate files (unstamp fault files)
        (attempt fault .write { files with stamp := some cut }
          (unstamp fault { files with stamp := some cut })
          ({ files with stamp := some (stampText version) }, .applied))

/-- What `apply` does once the copy cannot be renamed. -/
def putBack (fault : Option Fault) (error : ApplyError) (files : Files α) :
    Files α × Outcome :=
  attempt fault .existsPrevious files (discard fault error files)
    (if files.previous.isSome then
      attempt fault .restore files (discard fault error files)
        (discard fault error
          { files with dest := files.previous, previous := none })
    else discard fault error files)

def promote (fault : Option Fault) (version : Option (List Char))
    (files : Files α) : Files α × Outcome :=
  attempt fault .promote files
    (putBack fault (.io "promote incoming" (sourceOf fault)) files)
    (writeStamp fault version
      { files with dest := files.incoming, incoming := none })

/-- The rename takes the place of a previous model that is still there. -/
def rotate (fault : Option Fault) (version : Option (List Char))
    (files : Files α) : Files α × Outcome :=
  attempt fault .rotate files
    (files, .refused (.io "rotate current" (sourceOf fault)))
    (promote fault version { files with previous := files.dest, dest := none })

def swap (fault : Option Fault) (version : Option (List Char))
    (files : Files α) : Files α × Outcome :=
  attempt fault .existsDest files (promote fault version files)
    (if files.dest.isSome then
      attempt fault .removePrevious files (rotate fault version files)
        (rotate fault version { files with previous := none })
    else promote fault version files)

/-- What a copy that failed has left of itself is no model of anyone's. -/
def apply (fault : Option Fault) (verify : α → Except String Unit)
    (hasParent : Bool) (payload : α) (version : Option (List Char))
    (files : Files α) : Files α × Outcome :=
  if hasParent = false then (files, .refused .noTarget)
  else
    attempt fault .mkdir files
      (files, .refused (.io "mkdir model dir" (sourceOf fault)))
      (attempt fault .copy files
        (discard fault (.io "copy payload" (sourceOf fault)) files)
        (let files := { files with incoming := some payload }
        attempt fault .verify files
          (discard fault (.unusable (sourceOf fault)) files)
          (match verify payload with
          | .error reason => discard fault (.unusable reason) files
          | .ok () => swap fault version files)))

/-! ### Retiring -/

def stampOf (files : Files α) : Option (List Char) :=
  if files.dest.isSome then files.stamp.bind readStamp else none

/-- Either of the two removals may fail. -/
def retireIfSuperseded (removes : Bool × Bool) (live floor : Files α) :
    Files α :=
  match stampOf live, stampOf floor with
  | some liveVersion, some floorVersion =>
      if versionCmp floorVersion liveVersion = some .gt then
        { live with
          dest := if removes.1 then none else live.dest
          stamp := if removes.2 then none else live.stamp }
      else live
  | _, _ => live

/-- A live model goes only where the floor's version is strictly newer than the
one stamped beside it. -/
theorem retireIfSuperseded_newer {removes : Bool × Bool} {live floor : Files α}
    (hlive : live.dest.isSome)
    (hgone : (retireIfSuperseded removes live floor).dest = none) :
    ∃ liveVersion floorVersion, live.stamp.bind readStamp = some liveVersion ∧
      stampOf floor = some floorVersion ∧
      Newer floorVersion liveVersion := by
  unfold retireIfSuperseded at hgone
  split at hgone
  · next liveVersion floorVersion hstamp hfloor =>
      split at hgone
      · next hgt =>
          rw [stampOf, if_pos hlive] at hstamp
          exact ⟨liveVersion, floorVersion, hstamp, hfloor,
            (versionCmp_gt_iff _ _).mp hgt⟩
      · rw [hgone] at hlive
        exact nomatch hlive
  · rw [hgone] at hlive
    exact nomatch hlive

end Wakeword

end Ota

end Bridgething
