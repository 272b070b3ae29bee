/-
What the service does between two waits leaves alone: who waits for what, the
links, and of the runs all that is settled when they are planned.
-/
import Bridgething.Ota.Driving
import Bridgething.Ota.Followed

namespace Bridgething

namespace Ota

open Service

/-! ### The store -/

/-- Runs only follow, and whatever is known of them stays so. -/
structure Stays (Fresh : String → Prop) (Wins : RunKey → Prop)
    (store next : OtaRunStore) : Prop where
  follow : Follow Fresh Wins store next
  kept : ∀ ghost, Kept False ghost store → Kept False ghost next

section Stays

variable {Fresh : String → Prop} {Wins : RunKey → Prop}

theorem Stays.refl {store : OtaRunStore} (h : store.runs.keys.Nodup) :
    Stays Fresh Wins store store :=
  ⟨Follow.refl h, fun _ => id⟩

theorem Stays.trans {store mid next : OtaRunStore}
    (h : Stays Fresh Wins store mid) (hrest : Stays Fresh Wins mid next) :
    Stays Fresh Wins store next :=
  ⟨h.follow.trans hrest.follow, fun ghost hkept =>
    hrest.kept ghost (h.kept ghost hkept)⟩

variable (store : OtaRunStore) (hnodup : store.runs.keys.Nodup)
  (deviceId : String) (now : Nat)

include hnodup

theorem stays_interrupt :
    Stays Fresh Wins store (store.interrupt deviceId now).2 :=
  ⟨follow_interrupt store hnodup deviceId now, fun _ hkept =>
    hkept.interrupt deviceId now⟩

theorem stays_annotate (label : WebappLabel) (change : OtaStoreChange) :
    Stays Fresh Wins store (OtaService.annotate now label store change) := by
  unfold OtaService.annotate
  split
  · split
    · exact Stays.refl hnodup
    · exact ⟨follow_annotateWebapp store hnodup _ now _ _, fun _ hkept =>
        hkept.annotateWebapp _ _ _ now⟩
  · exact Stays.refl hnodup

theorem stays_clearAvailable :
    Stays Fresh Wins store (store.clearAvailable deviceId) :=
  ⟨Follow.of_runs hnodup rfl rfl, fun _ hkept =>
    hkept.of_runs hkept.memory rfl⟩

theorem stays_takeResume :
    Stays Fresh Wins store (store.takeResume deviceId now).2 := by
  refine ⟨follow_takeResume store hnodup deviceId now, fun ghost hkept => ?_⟩
  rcases takeResume_cases store deviceId now with
    hnone | ⟨run, hrun, hresumable, htake⟩
  · rw [hnone]
    exact hkept
  · have hsound := (hkept.memory.sound _ _ hrun).2
    rw [htake]
    apply Tidy.persist
    refine hkept.memory.change hrun rfl rfl ?_
      fun _ _ => Ghost.Agrees.refl ghost _
    exact Sound.of_closed (hsound.closed hresumable) rfl hsound.observed
      hsound.known

end Stays

/-- The store is that of some history which has drawn as many ids. -/
def Storied (uuid : Nat → String) (store : OtaRunStore) (minted : Nat) :
    Prop :=
  ∃ world : World, world.store = store ∧ world.minted = minted ∧
    Inv False uuid world

section Storied

variable {uuid : Nat → String} {store : OtaRunStore} {minted : Nat}

theorem Storied.stays (h : Storied uuid store minted) {next : OtaRunStore}
    (hkept : ∀ ghost, Kept False ghost store → Kept False ghost next) :
    Storied uuid next minted := by
  obtain ⟨world, rfl, rfl, hinv⟩ := h
  exact ⟨World.observe { world with store := next }, rfl, rfl,
    hinv.of_same_ghost (hkept _ hinv.kept)⟩

theorem Storied.ingest (h : Storied uuid store minted)
    (huuid : Function.Injective uuid) (event : OtaPollEvent)
    (identity : Option String) (now : Nat) :
    Storied uuid (store.ingest event identity now (uuid minted)).2
      (minted + 1) := by
  obtain ⟨world, rfl, rfl, hinv⟩ := h
  exact ⟨_, rfl, rfl, hinv.ingest huuid event identity now False.elim⟩

theorem Storied.reload (h : Storied uuid store minted) :
    Storied uuid (.new store.file) minted := by
  obtain ⟨world, rfl, rfl, hinv⟩ := h
  exact ⟨World.observe { world with store := .new world.store.file }, rfl, rfl,
    hinv.of_same_ghost hinv.kept.reload⟩

theorem storied_fresh (uuid : Nat → String) (dataDir : Bool) :
    Storied uuid (.new (if dataDir then some none else none)) 0 :=
  ⟨World.fresh dataDir, rfl, rfl, inv_fresh False uuid dataDir⟩

theorem Storied.tidy (h : Storied uuid store minted) :
    ∃ ghost : Ghost, ghost.known = {id | ∃ drawn < minted, uuid drawn = id} ∧
      Kept False ghost store := by
  obtain ⟨world, rfl, rfl, hinv⟩ := h
  exact ⟨_, rfl, hinv.kept⟩

theorem Storied.nodup (h : Storied uuid store minted) :
    store.runs.keys.Nodup := by
  obtain ⟨ghost, -, hkept⟩ := h.tidy
  exact hkept.memory.nodup

theorem Storied.closed (h : Storied uuid store minted) {key : RunKey}
    {run : OtaRun} (hget : store.runs.get? key = some run)
    (hresumable : run.resumable = true) : run.outcome.isSome := by
  obtain ⟨ghost, -, hkept⟩ := h.tidy
  exact (hkept.memory.sound key run hget).2.closed hresumable

theorem Storied.key (h : Storied uuid store minted) {key : RunKey}
    {run : OtaRun} (hget : store.runs.get? key = some run) :
    run.key = key := by
  obtain ⟨ghost, -, hkept⟩ := h.tidy
  exact (hkept.memory.sound key run hget).1

theorem Storied.drawn (h : Storied uuid store minted) {key : RunKey}
    {run : OtaRun} (hget : store.runs.get? key = some run) :
    ∃ drawn < minted, uuid drawn = run.runId := by
  obtain ⟨ghost, hknown, hkept⟩ := h.tidy
  have hmem := (hkept.memory.sound key run hget).2.known
  rw [hknown] at hmem
  exact hmem

theorem Storied.unique (h : Storied uuid store minted) {key other : RunKey}
    {run rival : OtaRun} (hget : store.runs.get? key = some run)
    (hrival : store.runs.get? other = some rival)
    (hid : run.runId = rival.runId) : key = other := by
  obtain ⟨ghost, -, hkept⟩ := h.tidy
  exact hkept.memory.unique key other run rival hget hrival hid

theorem Storied.written (h : Storied uuid store minted) {held : PersistedRuns}
    (hfile : store.file = some (some held)) :
    ∃ ghost : Ghost, ghost.known = {id | ∃ drawn < minted, uuid drawn = id} ∧
      Tidy False ghost held.table := by
  obtain ⟨ghost, hknown, hkept⟩ := h.tidy
  exact ⟨ghost, hknown, hkept.disk held hfile⟩

theorem Storied.written_drawn (h : Storied uuid store minted)
    {held : PersistedRuns} (hfile : store.file = some (some held))
    {run : OtaRun} (hmem : run ∈ held.runs) :
    ∃ drawn < minted, uuid drawn = run.runId := by
  obtain ⟨ghost, hknown, htidy⟩ := h.written hfile
  have hentry : (run.key, run) ∈ held.table := List.mem_map.mpr ⟨run, hmem, rfl⟩
  have hdrawn := (htidy.sound _ _
    (Table.get?_of_mem htidy.nodup hentry)).2.known
  rw [hknown] at hdrawn
  exact hdrawn

/-- A run that is loaded is one of the file's. -/
theorem Storied.loaded (h : Storied uuid store minted) {key : RunKey}
    {run : OtaRun}
    (hget : (OtaRunStore.new store.file).runs.get? key = some run) :
    ∃ held, store.file = some (some held) ∧
      ∃ old ∈ held.runs, run = reloaded old ∧ key = old.key := by
  cases hfile : store.file with
  | none =>
      rw [hfile] at hget
      contradiction
  | some content =>
      cases content with
      | none =>
          rw [hfile] at hget
          contradiction
      | some held =>
          obtain ⟨ghost, -, htidy⟩ := h.written hfile
          rw [hfile, OtaRunStore.new] at hget
          simp only [load_eq htidy.nodup] at hget
          split at hget
          · contradiction
          · rw [Table.get?_map held.table fun _ run => reloaded run,
              Option.map_eq_some_iff] at hget
            obtain ⟨old, hold, rfl⟩ := hget
            obtain ⟨kept, hmem, hsame⟩ :=
              List.mem_map.mp (Table.mem_of_get? hold)
            obtain ⟨rfl, rfl⟩ := Prod.mk.inj hsame
            exact ⟨held, rfl, kept, hmem, rfl, rfl⟩

end Storied

/-! ### What holds of every run -/

/-- Of those that are held and of those that are written. -/
structure AllRuns (P : OtaRun → Prop) (store : OtaRunStore) : Prop where
  held : ∀ key run, store.runs.get? key = some run → P run
  written : ∀ content, store.file = some (some content) →
    ∀ run ∈ content.runs, P run

section AllRuns

variable {P Q : OtaRun → Prop} {store next : OtaRunStore}

theorem AllRuns.imp (h : AllRuns P store) (himp : ∀ run, P run → Q run) :
    AllRuns Q store :=
  ⟨fun key run hget => himp run (h.held key run hget),
    fun content hfile run hmem => himp run (h.written content hfile run hmem)⟩

theorem AllRuns.follow {Fresh : String → Prop} {Wins : RunKey → Prop}
    (h : AllRuns P store) (hfollow : Follow Fresh Wins store next)
    (hcomes : ∀ key run, Comes Fresh Wins store key run → P run) :
    AllRuns P next where
  held key run hget := hcomes key run (hfollow.runs key run hget)
  written content hfile run hmem := by
    rcases hfollow.file with hsame | ⟨written, hwritten, hruns⟩
    · exact h.written content (hsame ▸ hfile) run hmem
    · rw [hwritten, Option.some.injEq, Option.some.injEq] at hfile
      obtain ⟨key, hcome⟩ := hruns run (hfile ▸ hmem)
      exact hcomes key run hcome

theorem AllRuns.put (h : AllRuns P store) {key : RunKey} {run : OtaRun}
    (hrun : P run) :
    AllRuns P { store with runs := store.runs.put key run } where
  held other found hget := by
    rcases Table.get?_put_cases hget with ⟨-, hsame⟩ | ⟨-, hold⟩
    · exact hsame ▸ hrun
    · exact h.held other found hold
  written := h.written

/-- What a reload leaves true of a run. -/
theorem AllRuns.reload {uuid : Nat → String} {minted : Nat}
    (h : AllRuns P store) (hstoried : Storied uuid store minted)
    (hreloaded : ∀ run, P run → P (reloaded run)) :
    AllRuns P (.new store.file) where
  held key run hget := by
    obtain ⟨content, hfile, old, hmem, rfl, -⟩ := hstoried.loaded hget
    exact hreloaded old (h.written content hfile old hmem)
  written content hfile run hmem := h.written content hfile run hmem

end AllRuns

end Ota

end Bridgething
