/-
The staged pieces of an update and the renames that put a batch of them in place:
what is current becomes previous, and what is incoming becomes current.
-/
import Bridgething.Ota.RunStore

namespace Bridgething

namespace Ota

/-- What a piece replaces: the daemon's binary, or the directory of a built-in
webapp. -/
inductive Target
  | daemon
  | webapp (name : String)
deriving Repr, DecidableEq

inductive Role
  | incoming
  | current
  | previous
deriving Repr, DecidableEq

/-- The paths that a target is staged, kept and rolled back under. -/
structure Path where
  target : Target
  role : Role
deriving Repr, DecidableEq

structure StagedPiece where
  kind : OtaKind
  updateId : String
  paths : Option Target
deriving Repr, DecidableEq

abbrev Content := List UInt8

/-- What is there under each path. -/
abbrev Disk := Path → Option Content

/-- The two renames of a commit. -/
inductive Rename
  | rotate
  | promote
deriving Repr, DecidableEq

namespace Disk

def incoming (disk : Disk) (target : Target) : Option Content :=
  disk ⟨target, .incoming⟩

def current (disk : Disk) (target : Target) : Option Content :=
  disk ⟨target, .current⟩

def previous (disk : Disk) (target : Target) : Option Content :=
  disk ⟨target, .previous⟩

def write (disk : Disk) (path : Path) (content : Option Content) : Disk :=
  fun other => if other = path then content else disk other

/-- A rename fails for want of a source, or for a reason of the file system's. -/
def rename (disk : Disk) (source dest : Path) (fails : Bool) : Option Disk :=
  if fails then none
  else
    match disk source with
    | none => none
    | some content => some ((disk.write source none).write dest (some content))

/-- The second rename of a commit. -/
def promote (disk : Disk) (target : Target) (fails : Bool) :
    Except Disk Disk :=
  match disk.rename ⟨target, .incoming⟩ ⟨target, .current⟩ fails with
  | none => .error disk
  | some disk => .ok disk

/-- A commit that fails leaves the disk as far as it got. -/
def commit (disk : Disk) (piece : StagedPiece) (fails : Rename → Bool) :
    Except Disk Disk :=
  match piece.paths with
  | none => .ok disk
  | some target =>
      if (disk.current target).isSome then
        match disk.rename ⟨target, .current⟩ ⟨target, .previous⟩
            (fails .rotate) with
        | none => .error disk
        | some disk => disk.promote target (fails .promote)
      else disk.promote target (fails .promote)

/-- The renames of a rollback succeed. -/
def move (disk : Disk) (source dest : Path) : Disk :=
  match disk.rename source dest false with
  | none => disk
  | some disk => disk

def rollback (disk : Disk) (piece : StagedPiece) : Disk :=
  match piece.paths with
  | none => disk
  | some target =>
      let disk := disk.move ⟨target, .current⟩ ⟨target, .incoming⟩
      disk.move ⟨target, .previous⟩ ⟨target, .current⟩

def discard (disk : Disk) (piece : StagedPiece) : Disk :=
  match piece.paths with
  | none => disk
  | some target => disk.write ⟨target, .incoming⟩ none

/-- The commits of a batch, after those that are done. -/
def commitBatch (disk : Disk) (fails : Nat → Rename → Bool)
    (done : List StagedPiece) : List StagedPiece → Except Disk Disk
  | [] => .ok disk
  | piece :: rest =>
      match disk.commit piece (fails done.length) with
      | .ok disk => disk.commitBatch fails (done ++ [piece]) rest
      | .error disk => .error (done.reverse.foldl rollback disk)

def activate (disk : Disk) (fails : Nat → Rename → Bool)
    (batch : List StagedPiece) : Except Disk Disk :=
  match disk.commitBatch fails [] batch with
  | .ok disk => .ok disk
  | .error disk => .error (batch.foldl discard disk)

end Disk

def rank : OtaKind → Nat
  | .builtinWebapp => 0
  | .daemon => 1
  | .image | .installedWebapp | .wakewordModel => 2

/-- The order a batch is committed in; pieces of one rank keep theirs. -/
def commitOrder (staged : List StagedPiece) : List StagedPiece :=
  staged.insertionSort fun left right => rank left.kind ≤ rank right.kind

namespace Disk

@[simp] theorem write_self (disk : Disk) (path : Path)
    (content : Option Content) : disk.write path content path = content :=
  if_pos rfl

theorem write_of_ne (disk : Disk) {path other : Path}
    (content : Option Content) (h : other ≠ path) :
    disk.write path content other = disk other :=
  if_neg h

/-- Two disks are the same but under the paths of a target. -/
def SameBut (disk next : Disk) (target : Target) : Prop :=
  ∀ path : Path, path.target ≠ target → next path = disk path

theorem SameBut.refl (disk : Disk) (target : Target) :
    disk.SameBut disk target := fun _ _ => rfl

theorem SameBut.trans {disk mid next : Disk} {target : Target}
    (hfirst : disk.SameBut mid target) (hrest : mid.SameBut next target) :
    disk.SameBut next target :=
  fun path hne => (hrest path hne).trans (hfirst path hne)

theorem sameBut_write (disk : Disk) (path : Path) (content : Option Content) :
    disk.SameBut (disk.write path content) path.target :=
  fun _ hne => write_of_ne _ _ fun hsame => hne (congrArg Path.target hsame)

theorem rename_eq_some {disk next : Disk} {source dest : Path} {fails : Bool}
    (h : disk.rename source dest fails = some next) :
    fails = false ∧ ∃ content, disk source = some content ∧
      next = (disk.write source none).write dest (some content) := by
  unfold rename at h
  cases fails with
  | true => simp at h
  | false =>
      cases hsource : disk source with
      | none => simp [hsource] at h
      | some content =>
          simp only [hsource, Bool.false_eq_true, ↓reduceIte,
            Option.some.injEq] at h
          exact ⟨rfl, content, rfl, h.symm⟩

theorem rename_eq_none {disk : Disk} {source dest : Path} {fails : Bool} :
    disk.rename source dest fails = none ↔
      fails = true ∨ disk source = none := by
  unfold rename
  cases fails with
  | true => simp
  | false => cases hsource : disk source <;> simp

theorem sameBut_rename {disk next : Disk} {target : Target}
    {source dest : Role} {fails : Bool}
    (h : disk.rename ⟨target, source⟩ ⟨target, dest⟩ fails = some next) :
    disk.SameBut next target := by
  obtain ⟨-, content, -, rfl⟩ := rename_eq_some h
  exact (sameBut_write disk ⟨target, source⟩ none).trans
    (sameBut_write _ ⟨target, dest⟩ _)

theorem sameBut_move (disk : Disk) (target : Target) (source dest : Role) :
    disk.SameBut (disk.move ⟨target, source⟩ ⟨target, dest⟩) target := by
  unfold move
  cases hrename : disk.rename ⟨target, source⟩ ⟨target, dest⟩ false with
  | none => exact SameBut.refl disk target
  | some next => exact sameBut_rename hrename

/-- A move leaves its source empty, and its destination with what was there, if
anything was. -/
theorem move_source (disk : Disk) {source dest : Path} (hne : source ≠ dest) :
    disk.move source dest source = none := by
  unfold move
  cases hrename : disk.rename source dest false with
  | none => simpa [rename_eq_none] using hrename
  | some next =>
      obtain ⟨-, content, -, rfl⟩ := rename_eq_some hrename
      simp [write_of_ne _ _ hne]

theorem move_dest (disk : Disk) (source dest : Path) :
    disk.move source dest dest = (disk source).or (disk dest) := by
  unfold move
  cases hrename : disk.rename source dest false with
  | none =>
      have hnone : disk source = none := by
        simpa [rename_eq_none] using hrename
      simp [hnone]
  | some next =>
      obtain ⟨-, content, hsource, rfl⟩ := rename_eq_some hrename
      simp [hsource]

theorem move_other (disk : Disk) {source dest other : Path}
    (hsource : other ≠ source) (hdest : other ≠ dest) :
    disk.move source dest other = disk other := by
  unfold move
  cases hrename : disk.rename source dest false with
  | none => rfl
  | some next =>
      obtain ⟨-, content, -, rfl⟩ := rename_eq_some hrename
      simp only [write_of_ne _ _ hdest, write_of_ne _ _ hsource]

/-- A rollback puts what is previous in place of what is current. -/
theorem rollback_current {disk : Disk} {piece : StagedPiece} {target : Target}
    (h : piece.paths = some target) :
    (disk.rollback piece).current target = disk.previous target := by
  unfold rollback current previous
  simp only [h]
  rw [move_dest, move_source _ (by simp), move_other _ (by simp) (by simp),
    Option.or_none]

theorem rollback_other {disk : Disk} {piece : StagedPiece} {path : Path}
    (h : piece.paths ≠ some path.target) : disk.rollback piece path = disk path := by
  unfold rollback
  cases hpaths : piece.paths with
  | none => rfl
  | some target =>
      have hne : path.target ≠ target := by
        rintro rfl
        exact h hpaths
      exact ((sameBut_move disk target _ _).trans
        (sameBut_move _ target _ _)) path hne

theorem discard_current (disk : Disk) (piece : StagedPiece) (target : Target) :
    (disk.discard piece).current target = disk.current target := by
  unfold discard current
  cases piece.paths with
  | none => rfl
  | some other => exact write_of_ne _ _ (by simp)

end Disk

end Ota

end Bridgething
