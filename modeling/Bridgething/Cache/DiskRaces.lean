/-
Calls of the cache on disk that overlap: the steps that each takes on the
filesystem and on the index, in any interleaving.
-/
import Bridgething.Cache.DiskRuns

namespace Bridgething

namespace Cache

namespace Disk

/-- How far a call is: what it does next. -/
inductive Phase
  /-- A store asks whether the root is there. -/
  | storing (rel : Rel) (body : Bytes)
  /-- It drops the index since there is no root. -/
  | resetting (rel : Rel) (body : Bytes)
  /-- It makes the directory. -/
  | making (rel : Rel) (body : Bytes)
  /-- It writes a file of its own and renames it to its place. -/
  | landing (rel : Rel) (body : Bytes)
  /-- It takes the lock and records the file. -/
  | recording (rel : Rel) (bytes : Nat)
  /-- It has the lock and asks whether the budget is exceeded. -/
  | trimming
  /-- It has the lock and deletes what it has just forgotten. -/
  | dropping (rel : Rel)
  /-- A load reads the file. -/
  | loading (rel : Rel)
  /-- It sets the time of the file. -/
  | stamping (rel : Rel) (bytes : Nat)
  /-- It records that the file was used. -/
  | touching (rel : Rel) (bytes : Nat)
  /-- It has found no file and forgets it. -/
  | missing (rel : Rel)
  /-- An entry is forgotten that is to be deleted. -/
  | discarding (rel : Rel)
  | removing (rel : Rel)
  /-- A scope is forgotten. -/
  | purging (dir : Rel)
  /-- Its directory is listed. -/
  | listing (dir : Rel)
  /-- What was listed is deleted, and the directory at last. -/
  | clearing (dir : Rel) (left : List Rel)
  | finished
deriving DecidableEq

/-- What the filesystem answers: whether a call on it succeeds, what a directory
lists, and the time. -/
structure Answer where
  succeeds : Bool := true
  listing : List Rel := []
  now : Nat := 0

namespace Phase

/-- The phases that have the lock from an earlier step on. -/
def holds : Phase → Bool
  | trimming | dropping _ => true
  | _ => false

/-- The phases whose step takes the lock. -/
def locks : Phase → Bool
  | resetting _ _ | recording _ _ | touching _ _ | missing _ | discarding _
  | purging _ => true
  | _ => false

/-- One step of a call. -/
def advance (cache : DiskCache) (answer : Answer) : Phase → DiskCache × Phase
  | storing rel body =>
      if cache.root.present then (cache, making rel body)
      else (cache, resetting rel body)
  | resetting rel body => ({ cache with index := Index.empty }, making rel body)
  | making rel body =>
      if answer.succeeds then
        ({ cache with root := { cache.root with present := true } },
          landing rel body)
      else (cache, finished)
  | landing rel body =>
      if answer.succeeds then
        ({ cache with
            root := cache.root.write rel ⟨MAGIC ++ body, answer.now⟩ },
          recording rel (MAGIC.length + body.length))
      else (cache, finished)
  | recording rel bytes =>
      ({ cache with index := cache.index.touch rel bytes }, trimming)
  | trimming =>
      if cache.budget < cache.index.held then
        match cache.index.oldest with
        | none => (cache, finished)
        | some rel =>
            ({ cache with index := cache.index.forget rel }, dropping rel)
      else (cache, finished)
  | dropping rel => ({ cache with root := cache.root.remove rel }, trimming)
  | loading rel =>
      match cache.root.files rel with
      | none => (cache, missing rel)
      | some file =>
          if MAGIC.isPrefixOf file.raw then
            (cache, stamping rel file.raw.length)
          else (cache, discarding rel)
  | stamping rel bytes =>
      match cache.root.files rel with
      | none => (cache, touching rel bytes)
      | some file =>
          ({ cache with
              root := cache.root.write rel
                { file with modified := answer.now } },
            touching rel bytes)
  | touching rel bytes =>
      ({ cache with index := cache.index.touch rel bytes }, finished)
  | missing rel =>
      ({ cache with index := cache.index.forget rel }, finished)
  | discarding rel =>
      ({ cache with index := cache.index.forget rel }, removing rel)
  | removing rel => ({ cache with root := cache.root.remove rel }, finished)
  | purging dir =>
      let doomed := cache.index.entries.keys.filter fun rel =>
        dir.isPrefixOf rel
      ({ cache with index := doomed.foldl Index.forget cache.index },
        listing dir)
  | listing dir => (cache, clearing dir answer.listing)
  | clearing dir (rel :: left) =>
      ({ cache with root := cache.root.remove rel }, clearing dir left)
  | clearing dir [] =>
      if answer.succeeds then
        ({ cache with
            root := { cache.root with
              present := cache.root.present && !dir.isEmpty } }, finished)
      else (cache, finished)
  | finished => (cache, finished)

end Phase

inductive Call
  | store (scope key : String) (body : Bytes)
  | load (scope key : String)
  | evict (scope key : String)
  | purge (scope : String)

/-- Where a call begins: a store that is too large is over at once. -/
def Call.begun (sha256 : Bytes → Bytes) (budget : Nat) : Call → Phase
  | store scope key body =>
      if budget < MAGIC.length + body.length then .finished
      else .storing (relative sha256 scope key) body
  | load scope key => .loading (relative sha256 scope key)
  | evict scope key => .discarding (relative sha256 scope key)
  | purge scope => .purging (scopePath scope)

/-- A cache with the calls on it. -/
structure Calls where
  cache : DiskCache
  phases : List Phase

/-- A call begins, or one goes on. -/
inductive Event
  | start (call : Call)
  | step (call : Nat) (answer : Answer)

namespace Calls

/-- A call waits where another has the lock. -/
def waits (calls : Calls) (phase : Phase) : Bool :=
  phase.locks && calls.phases.any Phase.holds

def apply (sha256 : Bytes → Bytes) (calls : Calls) : Event → Calls
  | .start call =>
      { calls with
        phases := calls.phases ++ [call.begun sha256 calls.cache.budget] }
  | .step call answer =>
      match calls.phases[call]? with
      | none => calls
      | some phase =>
          if calls.waits phase then calls
          else
            let done := phase.advance calls.cache answer
            ⟨done.1, calls.phases.set call done.2⟩

end Calls

/-- The size of a file, of writes in progress none. -/
def sizeOnDisk (root : Root) (rel : Rel) : Option Nat :=
  if isTemp rel then none
  else (root.files rel).map fun file => file.raw.length

/-- The index has the files on disk with their sizes, and what they come to. -/
structure Accounted (cache : DiskCache) : Prop where
  sound : cache.index.Sound
  exact : ∀ rel, (cache.index.entries.get? rel).map Slot.bytes =
    sizeOnDisk cache.root rel

namespace Phase

/-- The call is still to tell the index of the file. -/
def tells (rel : Rel) : Phase → Prop
  | loading path | stamping path _ | touching path _ | missing path
  | discarding path | recording path _ => path = rel
  | purging dir => dir <+: rel
  | _ => False

/-- The call is still to delete the file. -/
def removes (rel : Rel) : Phase → Prop
  | dropping path | removing path => path = rel
  | listing dir => dir <+: rel
  | clearing _ left => rel ∈ left
  | _ => False

/-- What the index is told of a file is so, or others are still to tell it; and
what is deleted is not in the index, or others are still to tell it. -/
def Meets (cache : DiskCache) (tells removes : Rel → Prop) : Phase → Prop
  | recording rel bytes | touching rel bytes =>
      sizeOnDisk cache.root rel = some bytes ∨ tells rel
  | missing rel => sizeOnDisk cache.root rel = none ∨ tells rel ∨ removes rel
  | resetting _ _ =>
      ∀ rel, cache.index.entries.get? rel ≠ none →
        sizeOnDisk cache.root rel = none ∨ tells rel ∨ removes rel
  | removing rel | clearing _ (rel :: _) =>
      sizeOnDisk cache.root rel = none ∨
        cache.index.entries.get? rel = none ∨ tells rel
  | _ => True

/-- A directory lists the files below it, all of them. -/
def Possible (cache : DiskCache) (answer : Answer) : Phase → Prop
  | listing dir =>
      (∀ rel file, cache.root.files rel = some file → dir <+: rel →
        rel ∈ answer.listing) ∧ ∀ rel ∈ answer.listing, dir <+: rel
  | _ => True

end Phase

/-- This is so of another call. -/
def Calls.Others (calls : Calls) (call : Nat) (P : Phase → Prop) : Prop :=
  ∃ other phase, other ≠ call ∧ calls.phases[other]? = some phase ∧ P phase

/-- A file is as the index has it, or there is one still to tell the index of
it, or the index has it no more and there is one still to delete it. -/
def Cover (cache : DiskCache) (rel : Rel) (tells removes : Prop) : Prop :=
  (cache.index.entries.get? rel).map Slot.bytes = sizeOnDisk cache.root rel ∨
    tells ∨ cache.index.entries.get? rel = none ∧ removes

/-- An invariant of the steps. -/
structure Covered (calls : Calls) : Prop where
  sound : calls.cache.index.Sound
  cover : ∀ rel, Cover calls.cache rel
    (∃ phase ∈ calls.phases, phase.tells rel)
    (∃ phase ∈ calls.phases, phase.removes rel)
  single : ∀ (first second : Nat) (one another : Phase),
    calls.phases[first]? = some one → calls.phases[second]? = some another →
    one.holds → another.holds → first = second
  dropped : ∀ (call : Nat) (rel : Rel),
    calls.phases[call]? = some (Phase.dropping rel) →
    calls.cache.index.entries.get? rel = none

/-! ### What a step leaves alone -/

theorem sizeOnDisk_write (root : Root) (rel other : Rel) (file : File) :
    sizeOnDisk (root.write rel file) other =
      if other = rel ∧ isTemp other = false then some file.raw.length
      else sizeOnDisk root other := by
  rw [sizeOnDisk, sizeOnDisk, Root.files_write]
  cases htemp : isTemp other with
  | true => simp
  | false =>
      by_cases hsame : other = rel
      · simp [hsame]
      · simp [hsame]

theorem sizeOnDisk_remove (root : Root) (rel other : Rel) :
    sizeOnDisk (root.remove rel) other =
      if other = rel then none else sizeOnDisk root other := by
  rw [sizeOnDisk, sizeOnDisk, Root.files_remove]
  by_cases hsame : other = rel
  · simp [hsame]
  · simp [hsame]

/-- Only who takes the lock, or has it, changes the index. -/
theorem Phase.advance_index {phase : Phase} (cache : DiskCache)
    (answer : Answer) (hlocks : phase.locks = false)
    (hholds : phase.holds = false) :
    (phase.advance cache answer).1.index = cache.index := by
  cases phase with
  | resetting => contradiction
  | recording => contradiction
  | touching => contradiction
  | missing => contradiction
  | discarding => contradiction
  | purging => contradiction
  | trimming => contradiction
  | dropping => contradiction
  | clearing dir left =>
      cases left with
      | nil =>
          simp only [advance]
          split <;> rfl
      | cons rel left => rfl
  | loading rel =>
      simp only [advance]
      split
      · rfl
      · split <;> rfl
  | storing | making | landing | stamping =>
      simp only [advance]
      split <;> rfl
  | removing | listing | finished => rfl

/-- Who has the lock took it. -/
theorem Phase.holds_advance {phase : Phase} (cache : DiskCache)
    (answer : Answer) (h : (phase.advance cache answer).2.holds) :
    phase.locks ∨ phase.holds := by
  cases phase with
  | recording => exact Or.inl rfl
  | trimming => exact Or.inr rfl
  | dropping => exact Or.inr rfl
  | clearing dir left =>
      cases left with
      | nil =>
          simp only [advance] at h
          split at h <;> contradiction
      | cons rel left => contradiction
  | loading rel =>
      simp only [advance] at h
      split at h
      · contradiction
      · split at h <;> contradiction
  | storing | making | landing | stamping =>
      simp only [advance] at h
      split at h <;> contradiction
  | resetting | touching | missing | discarding | removing | purging
  | listing | finished => contradiction

section

variable {cache : DiskCache} {answer : Answer} {rel path : Rel}
  {told removed : Prop}

theorem cover_mono {before after : DiskCache}
    (hentry : after.index.entries.get? rel = before.index.entries.get? rel)
    (hsize : sizeOnDisk after.root rel = sizeOnDisk before.root rel)
    (h : Cover before rel told removed) {tells removes : Prop}
    (htells : told → tells) (hremoves : removed → removes) :
    Cover after rel tells removes := by
  rw [Cover, hentry, hsize]
  exact h.imp_right fun h => h.imp htells fun h => ⟨h.1, hremoves h.2⟩

/-- What is told of a file ends what was to be told. -/
theorem cover_touch {bytes : Nat}
    (h : Cover cache rel (path = rel ∨ told) removed)
    (hmeets : path = rel → sizeOnDisk cache.root rel = some bytes ∨ told) :
    Cover { cache with index := cache.index.touch path bytes } rel told
      removed := by
  by_cases hsame : path = rel
  · rcases hmeets hsame with hsize | htold
    · left
      rw [Index.get?_touch, if_pos hsame.symm, hsize]
      rfl
    · exact Or.inr (Or.inl htold)
  · rw [Cover, Index.get?_touch, if_neg (Ne.symm hsame)]
    simpa [Cover, hsame] using h

theorem cover_forget (h : Cover cache rel (path = rel ∨ told) removed)
    (hmeets : path = rel →
      sizeOnDisk cache.root rel = none ∨ told ∨ removed) :
    Cover { cache with index := cache.index.forget path } rel told
      removed := by
  by_cases hsame : path = rel
  · have hnone : (cache.index.forget path).entries.get? rel = none := by
      rw [Index.get?_forget, if_pos hsame.symm]
    rcases hmeets hsame with hsize | htold | hremoved
    · left
      rw [hnone, hsize]
      rfl
    · exact Or.inr (Or.inl htold)
    · exact Or.inr (Or.inr ⟨hnone, hremoved⟩)
  · rw [Cover, Index.get?_forget, if_neg (Ne.symm hsame)]
    simpa [Cover, hsame] using h

/-- What is forgotten before it is deleted is to be deleted. -/
theorem cover_discard (h : Cover cache rel (path = rel ∨ told) removed) :
    Cover { cache with index := cache.index.forget path } rel told
      (path = rel ∨ removed) :=
  cover_forget (cover_mono rfl rfl h id Or.inr) fun hsame =>
    Or.inr (Or.inr (Or.inl hsame))

theorem cover_remove (h : Cover cache rel told (path = rel ∨ removed))
    (hmeets : path = rel → sizeOnDisk cache.root rel = none ∨
      cache.index.entries.get? rel = none ∨ told) :
    Cover { cache with root := cache.root.remove path } rel told removed := by
  by_cases hsame : path = rel
  · rw [Cover, sizeOnDisk_remove, if_pos hsame.symm]
    rcases h with hexact | htold | ⟨hnone, -⟩
    · rcases hmeets hsame with hsize | hnone | htold
      · left
        rw [hexact, hsize]
      · left
        rw [hnone]
        rfl
      · exact Or.inr (Or.inl htold)
    · exact Or.inr (Or.inl htold)
    · left
      rw [hnone]
      rfl
  · rw [Cover, sizeOnDisk_remove, if_neg (Ne.symm hsame)]
    simpa [Cover, hsame] using h

variable {tells removes : Rel → Prop}

theorem Phase.cover_advance {phase : Phase}
    (hdropped : ∀ path, phase = dropping path →
      cache.index.entries.get? path = none)
    (hpossible : phase.Possible cache answer)
    (hmeets : phase.Meets cache tells removes)
    (h : Cover cache rel (phase.tells rel ∨ tells rel)
      (phase.removes rel ∨ removes rel)) :
    Cover (phase.advance cache answer).1 rel
      ((phase.advance cache answer).2.tells rel ∨ tells rel)
      ((phase.advance cache answer).2.removes rel ∨ removes rel) := by
  cases phase with
  | storing path body =>
      simp only [advance]
      split <;> exact h
  | resetting path body =>
      have hbefore : Cover cache rel (tells rel) (removes rel) := by
        simpa [Phase.tells, Phase.removes] using h
      have hempty : Index.empty.entries.get? rel = none := rfl
      by_cases hentry : cache.index.entries.get? rel = none
      · refine cover_mono ?_ ?_ hbefore Or.inr Or.inr
        · rw [hentry]
          exact hempty
        · rfl
      · rcases hmeets rel hentry with hsize | htells | hremoves
        · exact Or.inl hsize.symm
        · exact Or.inr (Or.inl (Or.inr htells))
        · exact Or.inr (Or.inr ⟨hempty, Or.inr hremoves⟩)
  | making path body =>
      simp only [advance]
      split <;> exact h
  | landing path body =>
      have hbefore : Cover cache rel (tells rel) (removes rel) := by
        simpa [Phase.tells, Phase.removes] using h
      simp only [advance]
      split
      · by_cases hsame : path = rel
        · exact Or.inr (Or.inl (Or.inl hsame))
        · refine cover_mono ?_ ?_ hbefore Or.inr Or.inr
          · rfl
          · rw [sizeOnDisk_write, if_neg fun hboth => hsame hboth.1.symm]
      · exact h
  | recording path bytes =>
      have hbefore : Cover cache rel (path = rel ∨ tells rel)
          (removes rel) := by
        simpa [Phase.tells, Phase.removes] using h
      exact cover_mono rfl rfl
        (cover_touch hbefore fun hsame => hsame ▸ hmeets) Or.inr Or.inr
  | trimming =>
      have hbefore : Cover cache rel (tells rel) (removes rel) := by
        simpa [Phase.tells, Phase.removes] using h
      simp only [advance]
      split
      · split
        · exact h
        · rename_i path _
          have hdiscard : Cover cache rel (path = rel ∨ tells rel)
            (removes rel) := cover_mono rfl rfl hbefore Or.inr id
          exact cover_mono rfl rfl (cover_discard hdiscard) Or.inr id
      · exact h
  | dropping path =>
      have hbefore : Cover cache rel (tells rel)
          (path = rel ∨ removes rel) := by
        simpa [Phase.tells, Phase.removes] using h
      have hforgotten := hdropped path rfl
      exact cover_mono rfl rfl
        (cover_remove hbefore fun hsame => Or.inr (Or.inl (hsame ▸ hforgotten)))
        Or.inr Or.inr
  | loading path =>
      simp only [advance]
      split
      · exact h
      · split <;> exact h
  | stamping path bytes =>
      simp only [advance]
      split
      · exact h
      · rename_i file hfile
        refine cover_mono ?_ ?_ h id id
        · rfl
        · rw [sizeOnDisk_write]
          split
          · rename_i hboth
            obtain ⟨rfl, htemp⟩ := hboth
            simp [sizeOnDisk, htemp, hfile]
          · rfl
  | touching path bytes =>
      have hbefore : Cover cache rel (path = rel ∨ tells rel)
          (removes rel) := by
        simpa [Phase.tells, Phase.removes] using h
      exact cover_mono rfl rfl
        (cover_touch hbefore fun hsame => hsame ▸ hmeets) Or.inr Or.inr
  | missing path =>
      have hbefore : Cover cache rel (path = rel ∨ tells rel)
          (removes rel) := by
        simpa [Phase.tells, Phase.removes] using h
      exact cover_mono rfl rfl
        (cover_forget hbefore fun hsame => hsame ▸ hmeets) Or.inr Or.inr
  | discarding path =>
      have hbefore : Cover cache rel (path = rel ∨ tells rel)
          (removes rel) := by
        simpa [Phase.tells, Phase.removes] using h
      exact cover_mono rfl rfl (cover_discard hbefore) Or.inr id
  | removing path =>
      have hbefore : Cover cache rel (tells rel)
          (path = rel ∨ removes rel) := by
        simpa [Phase.tells, Phase.removes] using h
      exact cover_mono rfl rfl
        (cover_remove hbefore fun hsame => hsame ▸ hmeets) Or.inr Or.inr
  | purging dir =>
      have hbefore : Cover cache rel (dir <+: rel ∨ tells rel)
          (removes rel) := by
        simpa [Phase.tells, Phase.removes] using h
      have hget := Index.get?_foldl_forget cache.index
        (cache.index.entries.keys.filter fun rel => dir.isPrefixOf rel) rel
      by_cases hprefix : dir <+: rel
      · right
        right
        refine ⟨?_, Or.inl hprefix⟩
        simp only [advance, hget, List.mem_filter, List.isPrefixOf_iff_prefix]
        by_cases hkey : rel ∈ cache.index.entries.keys
        · rw [if_pos ⟨hkey, hprefix⟩]
        · rw [if_neg fun hboth => hkey hboth.1]
          exact Table.get?_eq_none.mpr hkey
      · have hother : Cover cache rel (tells rel) (removes rel) := by
          simpa [Cover, hprefix] using hbefore
        refine cover_mono ?_ ?_ hother Or.inr Or.inr
        · simp only [advance, hget, List.mem_filter,
            List.isPrefixOf_iff_prefix]
          rw [if_neg fun hboth => hprefix hboth.2]
        · rfl
  | listing dir =>
      have hbefore : Cover cache rel (tells rel)
          (dir <+: rel ∨ removes rel) := by
        simpa [Phase.tells, Phase.removes] using h
      rcases hbefore with hexact | htells | ⟨hnone, hprefix | hremoves⟩
      · exact Or.inl hexact
      · exact Or.inr (Or.inl (Or.inr htells))
      · cases hfile : cache.root.files rel with
        | none =>
            left
            simp only [advance, hnone, sizeOnDisk, hfile]
            split <;> rfl
        | some file =>
            exact Or.inr (Or.inr
              ⟨hnone, Or.inl (hpossible.1 rel file hfile hprefix)⟩)
      · exact Or.inr (Or.inr ⟨hnone, Or.inr hremoves⟩)
  | clearing dir left =>
      cases left with
      | nil =>
          have hbefore : Cover cache rel (tells rel) (removes rel) := by
            simpa [Phase.tells, Phase.removes] using h
          simp only [advance]
          split <;> exact cover_mono rfl rfl hbefore Or.inr Or.inr
      | cons path left =>
          have hbefore : Cover cache rel (tells rel)
              (path = rel ∨ rel ∈ left ∨ removes rel) := by
            simpa [Phase.tells, Phase.removes, or_assoc, eq_comm] using h
          exact cover_mono rfl rfl
            (cover_remove hbefore fun hsame => hsame ▸ hmeets) Or.inr id
  | finished => exact h

end

theorem Phase.sound_advance {phase : Phase} {cache : DiskCache}
    (answer : Answer) (h : cache.index.Sound) :
    (phase.advance cache answer).1.index.Sound := by
  cases phase with
  | resetting => exact Index.sound_empty
  | recording rel bytes => exact h.sound_touch rel bytes
  | touching rel bytes => exact h.sound_touch rel bytes
  | missing rel => exact h.sound_forget rel
  | discarding rel => exact h.sound_forget rel
  | purging dir => exact h.sound_foldl_forget _
  | trimming =>
      simp only [advance]
      split
      · split
        · exact h
        · exact h.sound_forget _
      · exact h
  | dropping rel => exact h
  | storing | making | landing | loading | stamping | removing | listing
  | clearing | finished =>
      rw [advance_index cache answer rfl rfl]
      exact h

/-- What is to be deleted under the lock is forgotten. -/
theorem Phase.dropping_advance {phase : Phase} {cache : DiskCache}
    {answer : Answer} {rel : Rel}
    (h : (phase.advance cache answer).2 = dropping rel) :
    (phase.advance cache answer).1.index.entries.get? rel = none := by
  have hholds := phase.holds_advance cache answer (by rw [h]; rfl)
  cases phase with
  | trimming =>
      simp only [advance] at h ⊢
      by_cases hover : cache.budget < cache.index.held
      · simp only [hover, if_true] at h ⊢
        cases holdest : cache.index.oldest with
        | none =>
            rw [holdest] at h
            contradiction
        | some path =>
            rw [holdest] at h
            obtain rfl := Phase.dropping.inj h
            simp only
            rw [Index.get?_forget, if_pos rfl]
      · rw [if_neg hover] at h
        contradiction
  | resetting | recording | touching | missing | discarding | purging
  | dropping => contradiction
  | storing | making | landing | loading | stamping | removing | listing
  | clearing | finished => simp [locks, holds] at hholds

/-! ### Of all the calls -/

namespace Calls

variable {calls : Calls} {call : Nat} {phase : Phase}

/-- Who satisfies something is the call itself or another. -/
theorem exists_iff (h : calls.phases[call]? = some phase) (P : Phase → Prop) :
    (∃ phase ∈ calls.phases, P phase) ↔ P phase ∨ calls.Others call P := by
  constructor
  · rintro ⟨found, hfound, hp⟩
    obtain ⟨other, hother⟩ := List.mem_iff_getElem?.mp hfound
    by_cases hsame : other = call
    · rw [hsame, h, Option.some.injEq] at hother
      rw [hother]
      exact Or.inl hp
    · exact Or.inr ⟨other, found, hsame, hother, hp⟩
  · rintro (hp | ⟨other, found, -, hother, hp⟩)
    · exact ⟨phase, List.mem_of_getElem? h, hp⟩
    · exact ⟨found, List.mem_of_getElem? hother, hp⟩

/-- A step of a call is nothing to the others. -/
theorem others_set (cache : DiskCache) (next : Phase) (P : Phase → Prop) :
    Others ⟨cache, calls.phases.set call next⟩ call P ↔
      calls.Others call P := by
  apply exists_congr
  intro other
  apply exists_congr
  intro found
  apply and_congr_right
  intro hne
  rw [List.getElem?_set_ne (Ne.symm hne)]

theorem getElem?_set_cases {next found : Phase} {other : Nat}
    (h : (calls.phases.set call next)[other]? = some found) :
    (other = call ∧ found = next) ∨
      (other ≠ call ∧ calls.phases[other]? = some found) := by
  by_cases hsame : other = call
  · subst hsame
    rw [List.getElem?_set_self' ] at h
    cases hold : calls.phases[other]? with
    | none =>
        rw [hold] at h
        contradiction
    | some old =>
        rw [hold] at h
        exact Or.inl ⟨rfl, (Option.some.inj h).symm⟩
  · rw [List.getElem?_set_ne (Ne.symm hsame)] at h
    exact Or.inr ⟨hsame, h⟩

end Calls

namespace Covered

variable {calls : Calls} (h : Covered calls)

include h

/-- While a call goes on that takes the lock or has it, no other has it. -/
theorem alone {call other : Nat} {phase found : Phase}
    (hphase : calls.phases[call]? = some phase)
    (hwaits : calls.waits phase = false) (hother : other ≠ call)
    (hfound : calls.phases[other]? = some found) (hholds : found.holds = true) :
    phase.locks = false ∧ phase.holds = false := by
  constructor
  · by_contra hlocks
    rw [Bool.not_eq_false] at hlocks
    have hany : calls.phases.any Phase.holds = true :=
      List.any_eq_true.mpr ⟨found, List.mem_of_getElem? hfound, hholds⟩
    rw [Calls.waits, hlocks, hany] at hwaits
    contradiction
  · by_contra hphaseholds
    rw [Bool.not_eq_false] at hphaseholds
    exact hother
      (h.single other call found phase hfound hphase hholds hphaseholds)

theorem step {call : Nat} {phase : Phase} (answer : Answer)
    (hphase : calls.phases[call]? = some phase)
    (hwaits : calls.waits phase = false)
    (hpossible : phase.Possible calls.cache answer)
    (hmeets : phase.Meets calls.cache
      (fun rel => calls.Others call (Phase.tells rel))
      (fun rel => calls.Others call (Phase.removes rel))) :
    Covered ⟨(phase.advance calls.cache answer).1,
      calls.phases.set call (phase.advance calls.cache answer).2⟩ := by
  have hset : (calls.phases.set call
      (phase.advance calls.cache answer).2)[call]? =
      some (phase.advance calls.cache answer).2 :=
    List.getElem?_set_self (List.getElem?_eq_some_iff.mp hphase).1
  have hnew : (phase.advance calls.cache answer).2.holds = true →
      ∀ other found, other ≠ call → calls.phases[other]? = some found →
        found.holds = false := by
    intro hholds other found hne hfound
    by_contra hother
    rw [Bool.not_eq_false] at hother
    obtain ⟨hlocks, hfree⟩ := h.alone hphase hwaits hne hfound hother
    rcases phase.holds_advance calls.cache answer hholds with htakes | hhas
    · rw [hlocks] at htakes
      contradiction
    · rw [hfree] at hhas
      contradiction
  refine ⟨Phase.sound_advance answer h.sound, ?_, ?_, ?_⟩
  · intro rel
    have hbefore := h.cover rel
    rw [Calls.exists_iff hphase, Calls.exists_iff hphase] at hbefore
    rw [Calls.exists_iff hset, Calls.exists_iff hset, Calls.others_set,
      Calls.others_set]
    refine Phase.cover_advance ?_ hpossible hmeets hbefore
    rintro path rfl
    exact h.dropped call path hphase
  · intro first second one another hone hanother hholds hother
    rcases Calls.getElem?_set_cases hone with ⟨rfl, rfl⟩ | ⟨hfirst, hold⟩
    · rcases Calls.getElem?_set_cases hanother with
        ⟨rfl, rfl⟩ | ⟨hsecond, hlast⟩
      · rfl
      · rw [hnew hholds second another hsecond hlast] at hother
        contradiction
    · rcases Calls.getElem?_set_cases hanother with ⟨rfl, rfl⟩ | ⟨-, hlast⟩
      · rw [hnew hother first one hfirst hold] at hholds
        contradiction
      · exact h.single first second one another hold hlast hholds hother
  · intro other rel hdropping
    rcases Calls.getElem?_set_cases hdropping with ⟨-, hsame⟩ | ⟨hne, hold⟩
    · exact Phase.dropping_advance hsame.symm
    · obtain ⟨hlocks, hholds⟩ := h.alone hphase hwaits hne hold rfl
      rw [Phase.advance_index calls.cache answer hlocks hholds]
      exact h.dropped other rel hold

theorem start (sha256 : Bytes → Bytes) (call : Call) :
    Covered (calls.apply sha256 (.start call)) := by
  have hfree : (call.begun sha256 calls.cache.budget).holds = false := by
    cases call with
    | store scope key body =>
        simp only [Call.begun]
        split <;> rfl
    | load | evict | purge => rfl
  have hold : ∀ {other : Nat} {found : Phase},
      (calls.apply sha256 (.start call)).phases[other]? = some found →
        found.holds = true → calls.phases[other]? = some found := by
    intro other found hfound hholds
    simp only [Calls.apply, List.getElem?_append] at hfound
    split at hfound
    · exact hfound
    · have hsame := List.mem_singleton.mp (List.mem_of_getElem? hfound)
      rw [hsame, hfree] at hholds
      contradiction
  refine ⟨h.sound, ?_, ?_, ?_⟩
  · intro rel
    refine cover_mono rfl rfl (h.cover rel) ?_ ?_
    · rintro ⟨phase, hphase, htells⟩
      exact ⟨phase, List.mem_append_left _ hphase, htells⟩
    · rintro ⟨phase, hphase, hremoves⟩
      exact ⟨phase, List.mem_append_left _ hphase, hremoves⟩
  · intro first second one another hone hanother hholds hother
    exact h.single first second one another (hold hone hholds)
      (hold hanother hother) hholds hother
  · intro other rel hdropping
    exact h.dropped other rel (hold hdropping rfl)

end Covered

/-- What the filesystem gives the next event. -/
def Event.Possible (calls : Calls) : Event → Prop
  | start _ => True
  | step call answer => ∀ phase, calls.phases[call]? = some phase →
      phase.Possible calls.cache answer

/-- A step that is not kept waiting tells the index what is so, or what others
are still to tell it, and deletes what the index has no more. -/
def Event.Meets (calls : Calls) : Event → Prop
  | start _ => True
  | step call _ => ∀ phase, calls.phases[call]? = some phase →
      calls.waits phase = false →
      phase.Meets calls.cache
        (fun rel => calls.Others call (Phase.tells rel))
        (fun rel => calls.Others call (Phase.removes rel))

def Calls.Finished (calls : Calls) : Prop :=
  ∀ phase ∈ calls.phases, phase = .finished

theorem Covered.begin {cache : DiskCache} (h : Accounted cache) :
    Covered ⟨cache, []⟩ where
  sound := h.sound
  cover rel := Or.inl (h.exact rel)
  single _ _ _ _ hone := by simp at hone
  dropped _ _ hdropping := by simp at hdropping

theorem Covered.apply {calls : Calls} (h : Covered calls)
    (sha256 : Bytes → Bytes) {event : Event} (hpossible : event.Possible calls)
    (hmeets : event.Meets calls) : Covered (calls.apply sha256 event) := by
  cases event with
  | start call => exact h.start sha256 call
  | step call answer =>
      cases hphase : calls.phases[call]? with
      | none =>
          simp only [Calls.apply, hphase]
          exact h
      | some phase =>
          cases hwaits : calls.waits phase with
          | true =>
              simp only [Calls.apply, hphase, hwaits, if_true]
              exact h
          | false =>
              simp only [Calls.apply, hphase, hwaits, Bool.false_eq_true,
                if_false]
              exact h.step answer hphase hwaits (hpossible phase hphase)
                (hmeets phase hphase hwaits)

/-- When all calls are over, the books are in order. -/
theorem Covered.accounted {calls : Calls} (h : Covered calls)
    (hfinished : calls.Finished) : Accounted calls.cache := by
  refine ⟨h.sound, fun rel => ?_⟩
  rcases h.cover rel with hexact | ⟨phase, hphase, htells⟩ |
    ⟨-, phase, hphase, hremoves⟩
  · exact hexact
  · rw [hfinished phase hphase] at htells
    contradiction
  · rw [hfinished phase hphase] at hremoves
    contradiction

/-- A store from its beginning to its end. -/
def stored : List Event :=
  [.start (.store "s" "k" [1]), .step 0 {}, .step 0 {}, .step 0 {}, .step 0 {},
    .step 0 {}, .step 0 {}]

end Disk

end Cache

end Bridgething
