/-
When activating a batch fails: what its rollback restores, and what it does not.
-/
import Bridgething.Ota.Manager

namespace Bridgething

namespace Ota

/-- The targets of pieces that have any. -/
def targets (pieces : List StagedPiece) : List Target :=
  pieces.filterMap StagedPiece.paths

theorem mem_targets {pieces : List StagedPiece} {target : Target} :
    target ∈ targets pieces ↔
      ∃ piece ∈ pieces, piece.paths = some target :=
  List.mem_filterMap

namespace Disk

/-! ### One commit -/

/-- A piece whose commit goes through, after the pieces before it: no other took
its staged content, and no rename that it needs fails. -/
def Ready (disk : Disk) (before : List StagedPiece) (fails : Rename → Bool)
    (piece : StagedPiece) : Prop :=
  ∀ target, piece.paths = some target → target ∉ targets before ∧
    (disk.incoming target).isSome ∧ fails .promote = false ∧
    ((disk.current target).isSome → fails .rotate = false)

/-- A commit that gets as far as moving away what is current, after the pieces
before it. -/
def Rotates (disk : Disk) (before : List StagedPiece) (fails : Rename → Bool)
    (piece : StagedPiece) (target : Target) : Prop :=
  piece.paths = some target ∧ fails .rotate = false ∧
    (target ∈ targets before ∨ (disk.current target).isSome)

/-- How a disk stands after the commits of pieces, against how it was. -/
structure Committed (start disk : Disk) (done : List StagedPiece) : Prop where
  nodup : (targets done).Nodup
  other : ∀ path : Path, path.target ∉ targets done → disk path = start path
  staged : ∀ target ∈ targets done, (start.incoming target).isSome
  incoming : ∀ target ∈ targets done, disk.incoming target = none
  current : ∀ target ∈ targets done, disk.current target = start.incoming target
  previous : ∀ target ∈ targets done,
    disk.previous target = (start.current target).or (start.previous target)

theorem Committed.nil (disk : Disk) : disk.Committed disk [] := by
  constructor
  · exact List.nodup_nil
  · exact fun _ _ => rfl
  · exact fun _ hmem => absurd hmem List.not_mem_nil
  · exact fun _ hmem => absurd hmem List.not_mem_nil
  · exact fun _ hmem => absurd hmem List.not_mem_nil
  · exact fun _ hmem => absurd hmem List.not_mem_nil

/-- A promotion takes the staged content, or leaves the disk. -/
theorem promote_cases (disk : Disk) (target : Target) (fails : Bool) :
    ((fails = true ∨ disk.incoming target = none) ∧
        disk.promote target fails = .error disk) ∨
      ∃ content next, fails = false ∧ disk.incoming target = some content ∧
        disk.promote target fails = .ok next ∧ disk.SameBut next target ∧
        next.incoming target = none ∧ next.current target = some content ∧
        next.previous target = disk.previous target := by
  unfold promote
  cases hrename : disk.rename ⟨target, .incoming⟩ ⟨target, .current⟩ fails with
  | none => exact Or.inl ⟨rename_eq_none.mp hrename, rfl⟩
  | some next =>
      obtain ⟨hfails, content, hcontent, hnext⟩ := rename_eq_some hrename
      refine Or.inr ⟨content, next, hfails, hcontent, rfl,
        sameBut_rename hrename, ?_, ?_, ?_⟩
      · rw [hnext, Disk.incoming, write_of_ne _ _ (by simp), write_self]
      · rw [hnext, Disk.current, write_self]
      · rw [hnext, Disk.previous, write_of_ne _ _ (by simp),
          write_of_ne _ _ (by simp)]
        rfl

/-- A disk whose current content was moved away. -/
structure Rotated (disk next : Disk) (target : Target) : Prop where
  other : disk.SameBut next target
  current : next.current target = none
  incoming : next.incoming target = disk.incoming target
  previous : next.previous target = disk.current target

/-- What a commit comes to: it goes through, it leaves the disk, or it leaves the
current content moved away. -/
theorem commit_cases (disk : Disk) {piece : StagedPiece} {target : Target}
    (hpaths : piece.paths = some target) (fails : Rename → Bool) :
    (∃ next, (disk.incoming target).isSome ∧ fails .promote = false ∧
        ((disk.current target).isSome → fails .rotate = false) ∧
        disk.commit piece fails = .ok next ∧ disk.SameBut next target ∧
        next.incoming target = none ∧
        next.current target = disk.incoming target ∧
        next.previous target =
          (disk.current target).or (disk.previous target)) ∨
      (((disk.current target).isSome ∧ fails .rotate = true ∨
          disk.current target = none ∧
            (fails .promote = true ∨ disk.incoming target = none)) ∧
        disk.commit piece fails = .error disk) ∨
      ∃ next, ((disk.current target).isSome ∧ fails .rotate = false ∧
          (fails .promote = true ∨ disk.incoming target = none)) ∧
        disk.commit piece fails = .error next ∧ disk.Rotated next target := by
  unfold commit
  simp only [hpaths]
  cases hcurrent : disk.current target with
  | none =>
      simp only [Option.isSome_none, Bool.false_eq_true, ↓reduceIte]
      rcases disk.promote_cases target (fails .promote) with
        ⟨hstuck, hresult⟩ | ⟨content, next, hfails, hcontent, hresult, hother,
          hincoming, hnow, hprevious⟩
      · exact Or.inr (Or.inl ⟨Or.inr ⟨trivial, hstuck⟩, hresult⟩)
      · exact Or.inl ⟨next, by simp [hcontent], hfails, by simp, hresult,
          hother, hincoming, hnow.trans hcontent.symm, by simp [hprevious]⟩
  | some old =>
      simp only [Option.isSome_some, ↓reduceIte]
      cases hrename : disk.rename ⟨target, .current⟩ ⟨target, .previous⟩
          (fails .rotate) with
      | none =>
          have hrotate : fails .rotate = true := by
            rcases rename_eq_none.mp hrename with hrotate | hnone
            · exact hrotate
            · exact absurd (hcurrent.symm.trans hnone) (by simp)
          exact Or.inr (Or.inl ⟨Or.inl ⟨trivial, hrotate⟩, rfl⟩)
      | some mid =>
          obtain ⟨hrotate, found, hfound, hmid⟩ := rename_eq_some hrename
          obtain rfl : old = found :=
            Option.some.inj (hcurrent.symm.trans hfound)
          have hrotated : disk.Rotated mid target := by
            constructor
            · exact sameBut_rename hrename
            · rw [hmid, Disk.current, write_of_ne _ _ (by simp), write_self]
            · rw [hmid, Disk.incoming, write_of_ne _ _ (by simp),
                write_of_ne _ _ (by simp)]
              rfl
            · rw [hmid, Disk.previous, write_self, hcurrent]
          rcases mid.promote_cases target (fails .promote) with
            ⟨hstuck, hresult⟩ | ⟨content, next, hfails, hcontent, hresult,
              hother, hincoming, hnow, hprevious⟩
          · rw [hrotated.incoming] at hstuck
            exact Or.inr (Or.inr ⟨mid, ⟨trivial, hrotate, hstuck⟩, hresult,
              hrotated⟩)
          · rw [hrotated.incoming] at hcontent
            refine Or.inl ⟨next, by simp [hcontent], hfails, fun _ => hrotate,
              hresult, hrotated.other.trans hother, hincoming,
              hnow.trans hcontent.symm, ?_⟩
            rw [hprevious, hrotated.previous, hcurrent, Option.some_or]

/-! ### The commits of a batch -/

@[simp] theorem targets_append (left right : List StagedPiece) :
    targets (left ++ right) = targets left ++ targets right :=
  List.filterMap_append

theorem targets_singleton {piece : StagedPiece} {target : Target}
    (h : piece.paths = some target) : targets [piece] = [target] := by
  simp [targets, h]

theorem targets_pathless {piece : StagedPiece} (h : piece.paths = none) :
    targets [piece] = [] := by
  simp [targets, h]

/-- A target that no commit was for is as it was. -/
theorem Committed.untouched {start disk : Disk} {done : List StagedPiece}
    (h : start.Committed disk done) {target : Target}
    (hnot : target ∉ targets done) :
    disk.incoming target = start.incoming target ∧
      disk.current target = start.current target ∧
      disk.previous target = start.previous target :=
  ⟨h.other _ hnot, h.other _ hnot, h.other _ hnot⟩

/-- A piece that is ready is committed. -/
theorem Committed.commit_ready {start disk : Disk} {done : List StagedPiece}
    (h : start.Committed disk done) {piece : StagedPiece}
    {fails : Rename → Bool} (hready : start.Ready done fails piece) :
    ∃ next, disk.commit piece fails = .ok next ∧
      start.Committed next (done ++ [piece]) := by
  cases hpaths : piece.paths with
  | none =>
      refine ⟨disk, by simp [commit, hpaths], ?_⟩
      have hsame : targets (done ++ [piece]) = targets done := by
        rw [targets_append, targets_pathless hpaths, List.append_nil]
      constructor <;> rw [hsame]
      · exact h.nodup
      · exact h.other
      · exact h.staged
      · exact h.incoming
      · exact h.current
      · exact h.previous
  | some target =>
      obtain ⟨hnot, hincoming, hpromote, hrotate⟩ := hready target hpaths
      obtain ⟨hin, hcur, hprev⟩ := h.untouched hnot
      rcases disk.commit_cases hpaths fails with
        ⟨next, -, -, -, hresult, hother, hnone, hnow, hbefore⟩ |
        ⟨hstuck, -⟩ | ⟨next, ⟨-, -, hstuck⟩, -, -⟩
      · have hsame : targets (done ++ [piece]) = targets done ++ [target] := by
          rw [targets_append, targets_singleton hpaths]
        have hold : ∀ role, ∀ old ∈ targets done,
            next ⟨old, role⟩ = disk ⟨old, role⟩ := by
          intro role old hold
          refine hother _ ?_
          rintro rfl
          exact hnot hold
        refine ⟨next, hresult, ?_⟩
        constructor <;> rw [hsame]
        · exact List.nodup_append.mpr ⟨h.nodup, List.nodup_singleton target,
            fun left hleft right hright => by
              rw [List.mem_singleton.mp hright]
              rintro rfl
              exact hnot hleft⟩
        · intro path hpath
          rw [List.mem_append, not_or, List.mem_singleton] at hpath
          exact (hother path hpath.2).trans (h.other path hpath.1)
        · intro other hmem
          rcases List.mem_append.mp hmem with hmem | hmem
          · exact h.staged other hmem
          · rw [List.mem_singleton.mp hmem]
            exact hincoming
        · intro other hmem
          rcases List.mem_append.mp hmem with hmem | hmem
          · exact (hold _ other hmem).trans (h.incoming other hmem)
          · rw [List.mem_singleton.mp hmem]
            exact hnone
        · intro other hmem
          rcases List.mem_append.mp hmem with hmem | hmem
          · exact (hold _ other hmem).trans (h.current other hmem)
          · rw [List.mem_singleton.mp hmem]
            exact hnow.trans hin
        · intro other hmem
          rcases List.mem_append.mp hmem with hmem | hmem
          · exact (hold _ other hmem).trans (h.previous other hmem)
          · rw [List.mem_singleton.mp hmem, hbefore, hcur, hprev]
      · rw [hin, hcur] at hstuck
        rcases hstuck with ⟨hsome, hfails⟩ | ⟨-, hfails | hnone⟩
        · rw [hrotate hsome] at hfails
          contradiction
        · rw [hpromote] at hfails
          contradiction
        · rw [hnone] at hincoming
          contradiction
      · rw [hin] at hstuck
        rcases hstuck with hfails | hnone
        · rw [hpromote] at hfails
          contradiction
        · rw [hnone] at hincoming
          contradiction

/-- One that is not leaves the disk as it finds it, or with the current content of
its target moved away. -/
theorem Committed.commit_unready {start disk : Disk} {done : List StagedPiece}
    (h : start.Committed disk done) {piece : StagedPiece}
    {fails : Rename → Bool} (hready : ¬ start.Ready done fails piece) :
    ∃ target next, piece.paths = some target ∧
      disk.commit piece fails = .error next ∧
      ((next = disk ∧ ¬ start.Rotates done fails piece target) ∨
        (disk.Rotated next target ∧
          start.Rotates done fails piece target)) := by
  cases hpaths : piece.paths with
  | none => exact absurd (fun target htarget => by simp [hpaths] at htarget) hready
  | some target =>
      refine ⟨target, ?_⟩
      rcases disk.commit_cases hpaths fails with
        ⟨next, hincoming, hpromote, hrotate, -, -, -, -, -⟩ |
        ⟨hstuck, hresult⟩ | ⟨next, ⟨hsome, hrotate, -⟩, hresult, hrotated⟩
      · have hnot : target ∉ targets done := by
          intro hmem
          rw [h.incoming target hmem] at hincoming
          contradiction
        obtain ⟨hin, hcur, -⟩ := h.untouched hnot
        rw [hin] at hincoming
        rw [hcur] at hrotate
        refine absurd (fun other hother => ?_) hready
        obtain rfl : target = other := Option.some.inj (hpaths.symm.trans hother)
        exact ⟨hnot, hincoming, hpromote, hrotate⟩
      · refine ⟨disk, rfl, hresult, Or.inl ⟨rfl, ?_⟩⟩
        rintro ⟨-, hrotate, htaken⟩
        rcases hstuck with ⟨-, hfails⟩ | ⟨hnone, -⟩
        · rw [hrotate] at hfails
          contradiction
        · by_cases hmem : target ∈ targets done
          · have hstaged := h.staged target hmem
            rw [← h.current target hmem, hnone] at hstaged
            contradiction
          · have hsome := htaken.resolve_left hmem
            rw [← (h.untouched hmem).2.1, hnone] at hsome
            contradiction
      · refine ⟨next, rfl, hresult, Or.inr ⟨hrotated, hpaths, hrotate, ?_⟩⟩
        by_cases hmem : target ∈ targets done
        · exact Or.inl hmem
        · rw [(h.untouched hmem).2.1] at hsome
          exact Or.inr hsome

/-- Every piece of a list is ready after those before it. -/
def AllReady (disk : Disk) (fails : Nat → Rename → Bool)
    (pieces : List StagedPiece) : Prop :=
  ∀ before piece after, pieces = before ++ piece :: after →
    disk.Ready before (fails before.length) piece

theorem AllReady.of_append {disk : Disk} {fails : Nat → Rename → Bool}
    {left right : List StagedPiece} (h : disk.AllReady fails (left ++ right)) :
    disk.AllReady fails left := by
  rintro before piece after rfl
  exact h before piece (after ++ right) (by simp)

/-- A batch is ready all through, or there is a first piece that is not. -/
theorem allReady_or_first (disk : Disk) (fails : Nat → Rename → Bool)
    (pieces : List StagedPiece) : disk.AllReady fails pieces ∨
      ∃ before piece after, pieces = before ++ piece :: after ∧
        disk.AllReady fails before ∧
        ¬ disk.Ready before (fails before.length) piece := by
  induction pieces using List.reverseRecOn with
  | nil =>
      refine Or.inl fun before piece after h => ?_
      simp at h
  | append_singleton pieces last ih =>
      rcases ih with hall | ⟨before, piece, after, rfl, hbefore, hnot⟩
      · by_cases hready : disk.Ready pieces (fails pieces.length) last
        · refine Or.inl fun before piece after h => ?_
          rcases List.eq_nil_or_concat after with rfl | ⟨after, final, rfl⟩
          · obtain ⟨rfl, hlast⟩ := List.append_inj' h rfl
            obtain rfl : last = piece := by simpa using hlast
            exact hready
          · have hinit : pieces ++ [last] =
                (before ++ piece :: after) ++ [final] := by
              rw [h]
              simp
            exact hall before piece after (List.append_inj' hinit rfl).1
        · exact Or.inr ⟨pieces, last, [], rfl, hall, hready⟩
      · exact Or.inr ⟨before, piece, after ++ [last], by simp, hbefore, hnot⟩

/-- Pieces that are ready are committed one after the other. -/
theorem commitBatch_ready {disk : Disk} {fails : Nat → Rename → Bool}
    {before : List StagedPiece} (h : disk.AllReady fails before)
    (rest : List StagedPiece) : ∃ mid, disk.Committed mid before ∧
      disk.commitBatch fails [] (before ++ rest) =
        mid.commitBatch fails before rest := by
  induction before using List.reverseRecOn generalizing rest with
  | nil => exact ⟨disk, Committed.nil disk, rfl⟩
  | append_singleton before last ih =>
      obtain ⟨mid, hmid, hbatch⟩ := ih h.of_append (last :: rest)
      obtain ⟨next, hresult, hnext⟩ :=
        hmid.commit_ready (h before last [] rfl)
      refine ⟨next, hnext, ?_⟩
      rw [List.append_assoc, List.singleton_append, hbatch, commitBatch,
        hresult]

/-- Rolling back pieces of different targets puts what is previous in place of
what is current, for their targets. -/
theorem rollback_all {pieces : List StagedPiece} (h : (targets pieces).Nodup)
    (disk : Disk) (target : Target) :
    (pieces.foldl rollback disk).current target =
      if target ∈ targets pieces then disk.previous target
      else disk.current target := by
  induction pieces generalizing disk with
  | nil => rfl
  | cons piece rest ih =>
      have hsplit : targets (piece :: rest) = targets [piece] ++ targets rest :=
        targets_append [piece] rest
      rw [hsplit] at h ⊢
      rw [List.foldl_cons, ih (List.nodup_append.mp h).2.1]
      by_cases hpaths : piece.paths = some target
      · have hrest : target ∉ targets rest := by
          intro hmem
          rw [targets_singleton hpaths] at h
          exact (List.nodup_append.mp h).2.2 target
            (List.mem_singleton_self target) target hmem rfl
        simp [hrest, targets_singleton hpaths, rollback_current hpaths]
      · have hother : target ∉ targets [piece] := by
          simpa [mem_targets] using hpaths
        have hcurrent : (disk.rollback piece).current target =
            disk.current target := rollback_other hpaths
        have hprevious : (disk.rollback piece).previous target =
            disk.previous target := rollback_other hpaths
        simp [hother, hcurrent, hprevious]

theorem discard_all (pieces : List StagedPiece) (disk : Disk)
    (target : Target) :
    (pieces.foldl discard disk).current target = disk.current target := by
  induction pieces generalizing disk with
  | nil => rfl
  | cons piece rest ih =>
      rw [List.foldl_cons, ih, discard_current]

/-! ### A batch that fails -/

/-- What a target holds after the batch failed at a piece. -/
structure Unwound (start final : Disk) (before : List StagedPiece)
    (fails : Rename → Bool) (piece : StagedPiece) : Prop where
  taken : ∀ {target}, start.Rotates before fails piece target →
    target ∈ targets before → final.current target = start.incoming target
  lost : ∀ {target}, start.Rotates before fails piece target →
    target ∉ targets before → final.current target = none
  undone : ∀ {target}, ¬ start.Rotates before fails piece target →
    target ∈ targets before → final.current target =
      (start.current target).or (start.previous target)
  kept : ∀ {target}, ¬ start.Rotates before fails piece target →
    target ∉ targets before → final.current target = start.current target

/-- The rollback after a commit that failed. -/
theorem Committed.unwound {start mid next : Disk} {before : List StagedPiece}
    (h : start.Committed mid before) {fails : Rename → Bool}
    {piece : StagedPiece} {target : Target}
    (hnext : (next = mid ∧ ¬ start.Rotates before fails piece target) ∨
      (mid.Rotated next target ∧ start.Rotates before fails piece target))
    (hpaths : piece.paths = some target) (batch : List StagedPiece) :
    start.Unwound
      (batch.foldl discard (before.reverse.foldl rollback next)) before fails
      piece := by
  have hfinal : ∀ other,
      (batch.foldl discard (before.reverse.foldl rollback next)).current other =
        if other ∈ targets before then next.previous other
        else next.current other := by
    intro other
    have hreverse : targets before.reverse = (targets before).reverse :=
      List.filterMap_reverse
    rw [discard_all, rollback_all (by simpa [hreverse] using h.nodup)]
    simp [hreverse]
  have honly : ∀ {other}, start.Rotates before fails piece other →
      other = target := fun hrotates =>
    Option.some.inj (hrotates.1.symm.trans hpaths)
  have hsame : ∀ {other role}, ¬ start.Rotates before fails piece other →
      next ⟨other, role⟩ = mid ⟨other, role⟩ := by
    intro other role hnot
    rcases hnext with ⟨rfl, -⟩ | ⟨hrotated, hrotates⟩
    · rfl
    · refine hrotated.other _ ?_
      rintro rfl
      exact hnot hrotates
  have hmoved : ∀ {other}, start.Rotates before fails piece other →
      mid.Rotated next other := by
    intro other hrotates
    rcases hnext with ⟨-, hnot⟩ | ⟨hrotated, -⟩
    · exact absurd (honly hrotates ▸ hrotates) hnot
    · exact honly hrotates ▸ hrotated
  constructor
  · intro other hrotates hmem
    rw [hfinal, if_pos hmem, (hmoved hrotates).previous, h.current other hmem]
  · intro other hrotates hmem
    rw [hfinal, if_neg hmem, (hmoved hrotates).current]
  · intro other hrotates hmem
    rw [hfinal, if_pos hmem]
    exact (hsame hrotates).trans (h.previous other hmem)
  · intro other hrotates hmem
    rw [hfinal, if_neg hmem]
    exact (hsame hrotates).trans (h.untouched hmem).2.1

/-- A batch fails at its first piece that is not ready. -/
theorem activate_first (disk : Disk) {fails : Nat → Rename → Bool}
    {before : List StagedPiece} {piece : StagedPiece} (after : List StagedPiece)
    (hbefore : disk.AllReady fails before)
    (hready : ¬ disk.Ready before (fails before.length) piece) :
    ∃ final, disk.activate fails (before ++ piece :: after) = .error final ∧
      disk.Unwound final before (fails before.length) piece := by
  obtain ⟨mid, hmid, hbatch⟩ := commitBatch_ready hbefore (piece :: after)
  obtain ⟨target, next, hpaths, hresult, hnext⟩ := hmid.commit_unready hready
  refine ⟨_, ?_, hmid.unwound hnext hpaths (before ++ piece :: after)⟩
  rw [activate, hbatch, commitBatch, hresult]

theorem activate_ready {disk : Disk} {fails : Nat → Rename → Bool}
    {batch : List StagedPiece} (h : disk.AllReady fails batch) :
    ∃ final, disk.activate fails batch = .ok final := by
  obtain ⟨mid, -, hbatch⟩ := commitBatch_ready h []
  rw [List.append_nil] at hbatch
  exact ⟨mid, by rw [activate, hbatch, commitBatch]⟩

/-- The first piece of a batch that is not ready fails before its current content
is moved away, and no piece before it had an older generation behind an empty
current path.  Only a second piece for the same target may have moved what the
first one put in place, when that is what was there before. -/
def Restorable (disk : Disk) (fails : Nat → Rename → Bool)
    (batch : List StagedPiece) : Prop :=
  ∀ before piece after, batch = before ++ piece :: after →
    disk.AllReady fails before →
    ¬ disk.Ready before (fails before.length) piece →
    ∀ target,
      (disk.Rotates before (fails before.length) piece target →
        target ∈ targets before ∧
          disk.current target = disk.incoming target) ∧
      (¬ disk.Rotates before (fails before.length) piece target →
        target ∈ targets before → disk.current target = none →
          disk.previous target = none)

theorem Unwound.restored_iff {start final : Disk} {before : List StagedPiece}
    {fails : Rename → Bool} {piece : StagedPiece}
    (h : start.Unwound final before fails piece) (target : Target) :
    final.current target = start.current target ↔
      (start.Rotates before fails piece target → target ∈ targets before ∧
        start.current target = start.incoming target) ∧
      (¬ start.Rotates before fails piece target →
        target ∈ targets before → start.current target = none →
          start.previous target = none) := by
  by_cases hrotates : start.Rotates before fails piece target <;>
    by_cases hmem : target ∈ targets before
  · simp only [h.taken hrotates hmem, hrotates, hmem, true_and, forall_const,
      not_true_eq_false, false_implies, and_true]
    exact eq_comm
  · have hsome := hrotates.2.2.resolve_left hmem
    simp only [h.lost hrotates hmem, hrotates, hmem, false_and, forall_const,
      iff_false]
    intro hnone
    rw [← hnone] at hsome
    contradiction
  · simp only [h.undone hrotates hmem, hrotates, hmem, false_implies, true_and,
      not_false_eq_true, forall_const]
    cases hcurrent : start.current target <;> simp
  · simp [h.kept hrotates hmem, hrotates, hmem]

/-- The disk after a batch failed holds what it held under every current path of
the batch if and only if the batch is restorable. -/
theorem restored_iff_restorable {disk final : Disk}
    {fails : Nat → Rename → Bool} {batch before after : List StagedPiece}
    {piece : StagedPiece} (herror : disk.activate fails batch = .error final)
    (hbatch : batch = before ++ piece :: after)
    (hbefore : disk.AllReady fails before)
    (hready : ¬ disk.Ready before (fails before.length) piece)
    (hunwound : disk.Unwound final before (fails before.length) piece) :
    (∀ target ∈ targets batch, final.current target = disk.current target) ↔
      disk.Restorable fails batch := by
  constructor
  · -- Whatever first piece is looked at, the disk is the same in the end.
    intro hrestored first one rest hsplit hfirst hone target
    obtain ⟨other, hother, hfrom⟩ := disk.activate_first rest hfirst hone
    rw [← hsplit, herror] at hother
    obtain rfl : final = other := Except.error.inj hother
    have hiff := hfrom.restored_iff target
    rw [hsplit, targets_append] at hrestored
    constructor
    · intro hrotates
      have hmem : target ∈ targets first ++ targets (one :: rest) :=
        List.mem_append_right _ (mem_targets.mpr
          ⟨one, List.mem_cons_self, hrotates.1⟩)
      exact (hiff.mp (hrestored target hmem)).1 hrotates
    · intro hrotates hmem
      exact (hiff.mp (hrestored target (List.mem_append_left _ hmem))).2
        hrotates hmem
  · intro hrestorable target _
    exact (hunwound.restored_iff target).mpr
      (hrestorable before piece after hbatch hbefore hready target)

end Disk

namespace OtaActor

/-- When the activation is answered with a failure, every staged piece's current
path holds what it held before. -/
def Restores (actor : OtaActor) (expected : List String)
    (fails : Nat → Rename → Bool) : Prop :=
  (actor.handleActivate expected fails).1.isSome →
    ∀ piece ∈ actor.staged, ∀ target, piece.paths = some target →
      (actor.handleActivate expected fails).2.disk.current target =
        actor.disk.current target

/-- Either the activation is refused, and the disk is as it was; or the batch is
tried. -/
theorem handleActivate_cases (actor : OtaActor) (expected : List String)
    (fails : Nat → Rename → Bool) :
    ((actor.state ≠ .idle ∨ actor.staged = [] ∨
        sameUpdates actor.staged expected = false) ∧
      (actor.handleActivate expected fails).2.disk = actor.disk) ∨
    ((actor.state = .idle ∧ actor.staged ≠ [] ∧
        sameUpdates actor.staged expected = true) ∧
      ((∃ final, actor.disk.activate fails (commitOrder actor.staged) =
          .error final ∧
        (actor.handleActivate expected fails).1.isSome ∧
        (actor.handleActivate expected fails).2.disk = final) ∨
      (∃ final, actor.disk.activate fails (commitOrder actor.staged) =
          .ok final ∧
        (actor.handleActivate expected fails).1 = none))) := by
  unfold handleActivate
  by_cases hstate : actor.state = .idle
  · by_cases hbatch : actor.staged = [] ∨
        sameUpdates actor.staged expected = false
    · exact Or.inl ⟨Or.inr hbatch, by simp [hstate, hbatch, emitError, emit]⟩
    · have hmatch := not_or.mp hbatch
      rw [Bool.not_eq_false] at hmatch
      refine Or.inr ⟨⟨hstate, hmatch⟩, ?_⟩
      simp only [hstate, ne_eq, not_true_eq_false, hbatch, ↓reduceIte]
      cases hresult : actor.disk.activate fails (commitOrder actor.staged) with
      | error final => exact Or.inl ⟨final, rfl, rfl, rfl⟩
      | ok final => exact Or.inr ⟨final, rfl, rfl⟩
  · exact Or.inl ⟨Or.inl hstate, by simp [hstate, emitError, emit]⟩

theorem mem_targets_commitOrder {staged : List StagedPiece} {target : Target} :
    target ∈ targets (commitOrder staged) ↔
      ∃ piece ∈ staged, piece.paths = some target := by
  simp [mem_targets, commitOrder, List.mem_insertionSort]

theorem restores_iff_current (actor : OtaActor) {expected : List String}
    {fails : Nat → Rename → Bool} {final : Disk}
    (hsome : (actor.handleActivate expected fails).1.isSome)
    (hdisk : (actor.handleActivate expected fails).2.disk = final) :
    actor.Restores expected fails ↔
      ∀ target ∈ targets (commitOrder actor.staged),
        final.current target = actor.disk.current target := by
  unfold Restores
  rw [hdisk]
  constructor
  · intro h target hmem
    obtain ⟨piece, hpiece, hpaths⟩ := mem_targets_commitOrder.mp hmem
    exact h hsome piece hpiece target hpaths
  · intro h _ piece hpiece target hpaths
    exact h target (mem_targets_commitOrder.mpr ⟨piece, hpiece, hpaths⟩)

/-- A failed activation restores what was current if and only if its batch is
restorable. -/
theorem restores_iff_restorable (actor : OtaActor) (expected : List String)
    (fails : Nat → Rename → Bool) :
    actor.Restores expected fails ↔
      (actor.state = .idle → sameUpdates actor.staged expected = true →
        actor.disk.Restorable fails (commitOrder actor.staged)) := by
  rcases actor.handleActivate_cases expected fails with
    ⟨hrefused, hdisk⟩ | ⟨⟨hidle, hnonempty, hsame⟩, htried⟩
  · refine iff_of_true (fun _ _ _ _ _ => by rw [hdisk]) ?_
    intro hidle hsame before piece after hbatch
    rcases hrefused with hstate | hempty | hother
    · exact absurd hidle hstate
    · rw [hempty] at hbatch
      simp [commitOrder] at hbatch
    · rw [hsame] at hother
      contradiction
  · have hrestored : actor.Restores expected fails ↔
        actor.disk.Restorable fails (commitOrder actor.staged) := by
      rcases actor.disk.allReady_or_first fails (commitOrder actor.staged) with
        hall | ⟨before, piece, after, hbatch, hbefore, hready⟩
      · obtain ⟨final, hok⟩ := Disk.activate_ready hall
        refine iff_of_true ?_ fun before piece after hbatch _ hready =>
          absurd (hall before piece after hbatch) hready
        rcases htried with ⟨other, herror, -⟩ | ⟨-, -, hnone⟩
        · rw [hok] at herror
          contradiction
        · exact fun hsome => absurd hsome (by simp [hnone])
      · obtain ⟨final, herror, hunwound⟩ :=
          actor.disk.activate_first after hbefore hready
        rw [← hbatch] at herror
        rcases htried with ⟨other, hother, hsome, hdisk⟩ | ⟨other, hok, -⟩
        · obtain rfl : final = other := by
            rw [herror] at hother
            exact Except.error.inj hother
          exact (actor.restores_iff_current hsome hdisk).trans
            (Disk.restored_iff_restorable herror hbatch hbefore hready hunwound)
        · rw [herror] at hok
          contradiction
    simp [hrestored, hidle, hsame]

/-- A daemon that is staged over one that runs. -/
def stagedDaemon : OtaActor :=
  { spawn [] fun path =>
      if path = ⟨.daemon, .current⟩ then some [1]
      else if path = ⟨.daemon, .incoming⟩ then some [2]
      else none with
    staged := [⟨.daemon, "daemon-2", some .daemon⟩] }

/-- The rename that would put the staged daemon in place fails, and the current
one stays moved away. -/
theorem stagedDaemon_lost :
    ¬ (∀ (actor : OtaActor) (expected : List String)
        (fails : Nat → Rename → Bool), actor.Restores expected fails) ∧
      stagedDaemon.disk.current .daemon = some [1] ∧
      (stagedDaemon.handleActivate ["daemon-2"]
        fun _ rename => rename = .promote).1.isSome ∧
      (stagedDaemon.handleActivate ["daemon-2"]
        fun _ rename => rename = .promote).2.disk.current .daemon = none := by
  refine ⟨fun hall => ?_, rfl, rfl, rfl⟩
  have hrestored := hall stagedDaemon ["daemon-2"]
    (fun _ rename => rename = .promote) rfl ⟨.daemon, "daemon-2", some .daemon⟩
    List.mem_cons_self .daemon rfl
  have hcurrent : (stagedDaemon.handleActivate ["daemon-2"]
      fun _ rename => rename = .promote).2.disk.current .daemon = none := rfl
  rw [hcurrent] at hrestored
  exact absurd hrestored (by decide)

end OtaActor

end Ota

end Bridgething
