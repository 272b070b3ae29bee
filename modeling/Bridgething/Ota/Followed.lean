/-
What becomes of the runs of a store: only a plan opens one, a success comes only
where an update is told of, and whose a run is and what it aims at stays.
-/
import Bridgething.Ota.Callers
import Bridgething.Ota.ResumeOnce

namespace Bridgething

namespace Ota

/-- The version that a run is to bring its device to. -/
def OtaRun.target (run : OtaRun) : Option String :=
  match run.kind with
  | .image => run.imageVersion
  | _ => run.daemonVersion

/-- The same run at a later time. -/
structure Follows (run later : OtaRun) : Prop where
  runId : later.runId = run.runId
  deviceId : later.deviceId = run.deviceId
  kind : later.kind = run.kind
  imageVersion : later.imageVersion = run.imageVersion
  daemonVersion : later.daemonVersion = run.daemonVersion
  closed : run.outcome.isSome → later.outcome.isSome

namespace Follows

theorem refl (run : OtaRun) : Follows run run :=
  ⟨rfl, rfl, rfl, rfl, rfl, id⟩

theorem trans {run mid later : OtaRun} (h : Follows run mid)
    (hrest : Follows mid later) : Follows run later where
  runId := hrest.runId.trans h.runId
  deviceId := hrest.deviceId.trans h.deviceId
  kind := hrest.kind.trans h.kind
  imageVersion := hrest.imageVersion.trans h.imageVersion
  daemonVersion := hrest.daemonVersion.trans h.daemonVersion
  closed hclosed := hrest.closed (h.closed hclosed)

theorem target {run later : OtaRun} (h : Follows run later) :
    later.target = run.target := by
  unfold OtaRun.target
  rw [h.kind, h.imageVersion, h.daemonVersion]

/-- A run that is open was so before. -/
theorem opened {run later : OtaRun} (h : Follows run later)
    (hopen : later.outcome = none) : run.outcome = none := by
  by_contra hclosed
  have hlater := h.closed (Option.isSome_iff_ne_none.mpr hclosed)
  rw [hopen] at hlater
  contradiction

end Follows

theorem follows_strand (run : OtaRun) : Follows run (strand run) := by
  unfold strand
  split
  · exact Follows.refl run
  · exact ⟨rfl, rfl, rfl, rfl, rfl, fun _ => rfl⟩

theorem strand_lost {run : OtaRun}
    (h : (strand run).outcome = some .succeeded) :
    run.outcome = some .succeeded := by
  unfold strand at h
  split at h
  · exact h
  · cases h

theorem follows_reloaded (run : OtaRun) : Follows run (reloaded run) := by
  have hrate : Follows run { run with ratePerSec := none } :=
    ⟨rfl, rfl, rfl, rfl, rfl, id⟩
  exact hrate.trans (follows_strand _)

theorem reloaded_lost {run : OtaRun}
    (h : (reloaded run).outcome = some .succeeded) :
    run.outcome = some .succeeded := by
  have hrate : ({ run with ratePerSec := none } : OtaRun).outcome =
      some .succeeded := strand_lost h
  exact hrate

theorem follows_applySnapshot (snapshot : OtaPhaseSnapshot) (run : OtaRun) :
    Follows run (applySnapshot snapshot run) ∧
      (applySnapshot snapshot run).outcome = run.outcome := by
  cases snapshot <;> exact ⟨⟨rfl, rfl, rfl, rfl, rfl, id⟩, rfl⟩

theorem follows_progressRun (run : OtaRun) (stepId : Nat)
    (snapshot : OtaPhaseSnapshot) (now : Nat) :
    Follows run (progressRun run stepId snapshot now) ∧
      (progressRun run stepId snapshot now).outcome = run.outcome := by
  have hmoved : ∀ stepped : OtaRun,
      Follows run stepped ∧ stepped.outcome = run.outcome →
      Follows run (if (applySnapshot snapshot stepped).phase ≠ run.phase
        then { applySnapshot snapshot stepped with phaseStartedAtMs := now }
        else applySnapshot snapshot stepped) ∧
      (if (applySnapshot snapshot stepped).phase ≠ run.phase
        then { applySnapshot snapshot stepped with phaseStartedAtMs := now }
        else applySnapshot snapshot stepped).outcome = run.outcome := by
    rintro stepped ⟨hstepped, houtcome⟩
    obtain ⟨happlied, hsame⟩ := follows_applySnapshot snapshot stepped
    have hfollows := hstepped.trans happlied
    split
    · exact ⟨⟨hfollows.runId, hfollows.deviceId, hfollows.kind,
        hfollows.imageVersion, hfollows.daemonVersion, hfollows.closed⟩,
        hsame.trans houtcome⟩
    · exact ⟨hfollows, hsame.trans houtcome⟩
  unfold progressRun
  apply hmoved
  split
  · exact ⟨⟨rfl, rfl, rfl, rfl, rfl, id⟩, rfl⟩
  · exact ⟨Follows.refl run, rfl⟩

theorem follows_updatedRun (run : OtaRun) (version : String) :
    Follows run (updatedRun run version) :=
  ⟨rfl, rfl, rfl, rfl, rfl, fun _ => rfl⟩

theorem follows_closedRun (run : OtaRun) (reason : String) :
    Follows run (closedRun run reason) :=
  ⟨rfl, rfl, rfl, rfl, rfl, fun _ => rfl⟩

theorem closedRun_lost (run : OtaRun) (reason : String) :
    (closedRun run reason).outcome ≠ some .succeeded := by
  simp only [closedRun]
  split_ifs <;> exact fun h => by cases h

/-- Where the run under a key comes from: it follows the one that was there, or
a failure opened and closed it where there was none.  `Fresh` are the ids that
are drawn, and `Wins` the keys for which an update is told of. -/
inductive Comes (Fresh : String → Prop) (Wins : RunKey → Prop)
    (store : OtaRunStore) (key : RunKey) (run : OtaRun) : Prop
  | follows (old : OtaRun) (hget : store.runs.get? key = some old)
      (hfollows : Follows old run)
      (hwon : run.outcome = some .succeeded →
        old.outcome = some .succeeded ∨ Wins key)
  | failed (hnone : store.runs.get? key = none) (hfresh : Fresh run.runId)
      (hclosed : run.outcome.isSome)
      (hlost : run.outcome = some .succeeded → Wins key)

/-- No run is opened, and none is lost. -/
structure Follow (Fresh : String → Prop) (Wins : RunKey → Prop)
    (store next : OtaRunStore) : Prop where
  nodup : next.runs.keys.Nodup
  held : ∀ key, (store.runs.get? key).isSome → (next.runs.get? key).isSome
  runs : ∀ key run, next.runs.get? key = some run →
    Comes Fresh Wins store key run
  file : next.file = store.file ∨ ∃ written, next.file = some (some written) ∧
    ∀ run ∈ written.runs, ∃ key, Comes Fresh Wins store key run

section Follow

variable {Fresh Other : String → Prop} {Wins Others : RunKey → Prop}
  {store mid next : OtaRunStore}

theorem Comes.mono {key : RunKey} {run : OtaRun}
    (h : Comes Fresh Wins store key run) (hfresh : ∀ id, Fresh id → Other id)
    (hwins : ∀ key, Wins key → Others key) :
    Comes Other Others store key run := by
  cases h with
  | follows old hget hfollows hwon =>
      exact .follows old hget hfollows fun h => (hwon h).imp_right (hwins key)
  | failed hnone hid hclosed hlost =>
      exact .failed hnone (hfresh _ hid) hclosed fun h => hwins key (hlost h)

theorem Comes.of_get? {key : RunKey} {run : OtaRun}
    (h : store.runs.get? key = some run) : Comes Fresh Wins store key run :=
  .follows run h (Follows.refl run) Or.inl

/-- An open run was there, and open. -/
theorem Comes.opened {key : RunKey} {run : OtaRun}
    (h : Comes Fresh Wins store key run) (hopen : run.outcome = none) :
    ∃ old, store.runs.get? key = some old ∧ Follows old run ∧
      old.outcome = none := by
  cases h with
  | follows old hget hfollows _ =>
      exact ⟨old, hget, hfollows, hfollows.opened hopen⟩
  | failed _ _ hclosed =>
      rw [hopen] at hclosed
      contradiction

theorem Comes.trans {key : RunKey} {run : OtaRun}
    (h : Comes Fresh Wins mid key run)
    (hbefore : ∀ old, mid.runs.get? key = some old →
      Comes Fresh Wins store key old)
    (hheld : (store.runs.get? key).isSome → (mid.runs.get? key).isSome) :
    Comes Fresh Wins store key run := by
  cases h with
  | follows old hget hfollows hwon =>
      cases hbefore old hget with
      | follows first hfirst hold holdWon =>
          refine .follows first hfirst (hold.trans hfollows) fun h => ?_
          exact (hwon h).elim holdWon Or.inr
      | failed hnone hfresh hclosed hlost =>
          refine .failed hnone (hfollows.runId ▸ hfresh)
            (hfollows.closed hclosed) fun h => ?_
          exact (hwon h).elim hlost id
  | failed hnone hfresh hclosed hlost =>
      refine .failed ?_ hfresh hclosed hlost
      by_contra hsome
      have hmid := hheld (Option.isSome_iff_ne_none.mpr hsome)
      rw [hnone] at hmid
      contradiction

/-- A run that is held is still, at a later time. -/
theorem Follow.holds (h : Follow Fresh Wins store next) {key : RunKey}
    {run : OtaRun} (hget : store.runs.get? key = some run) :
    ∃ later, next.runs.get? key = some later ∧ Follows run later := by
  obtain ⟨later, hlater⟩ := Option.isSome_iff_exists.mp
    (h.held key (Option.isSome_iff_exists.mpr ⟨run, hget⟩))
  refine ⟨later, hlater, ?_⟩
  cases h.runs key later hlater with
  | follows old hold hfollows _ =>
      rw [hget, Option.some.injEq] at hold
      exact hold ▸ hfollows
  | failed hnone =>
      rw [hget] at hnone
      contradiction

/-- What is closed under a key stays so. -/
theorem Follow.closed (h : Follow Fresh Wins store next) {key : RunKey}
    (hall : ∀ run, store.runs.get? key = some run → run.outcome.isSome)
    {run : OtaRun} (hget : next.runs.get? key = some run) :
    run.outcome.isSome := by
  cases h.runs key run hget with
  | follows old hold hfollows _ => exact hfollows.closed (hall old hold)
  | failed _ _ hclosed => exact hclosed

theorem Follow.of_runs (hnodup : store.runs.keys.Nodup)
    (hruns : next.runs = store.runs) (hfile : next.file = store.file) :
    Follow Fresh Wins store next where
  nodup := hruns ▸ hnodup
  held _ h := hruns ▸ h
  runs _ _ h := Comes.of_get? (hruns ▸ h)
  file := Or.inl hfile

theorem Follow.refl (hnodup : store.runs.keys.Nodup) :
    Follow Fresh Wins store store :=
  Follow.of_runs hnodup rfl rfl

theorem Follow.mono (h : Follow Fresh Wins store next)
    (hfresh : ∀ id, Fresh id → Other id)
    (hwins : ∀ key, Wins key → Others key) :
    Follow Other Others store next where
  nodup := h.nodup
  held := h.held
  runs key run hget := (h.runs key run hget).mono hfresh hwins
  file := h.file.imp_right fun ⟨written, hfile, hcomes⟩ =>
    ⟨written, hfile, fun run hmem =>
      (hcomes run hmem).imp fun _ hcome => hcome.mono hfresh hwins⟩

theorem Follow.trans (h : Follow Fresh Wins store mid)
    (hrest : Follow Fresh Wins mid next) : Follow Fresh Wins store next where
  nodup := hrest.nodup
  held key hheld := hrest.held key (h.held key hheld)
  runs key run hget :=
    (hrest.runs key run hget).trans (h.runs key) (h.held key)
  file := by
    rcases hrest.file with hsame | ⟨written, hfile, hcomes⟩
    · rw [hsame]
      exact h.file
    · refine Or.inr ⟨written, hfile, fun run hmem => ?_⟩
      obtain ⟨key, hcome⟩ := hcomes run hmem
      exact ⟨key, hcome.trans (h.runs key) (h.held key)⟩

/-- The run under a key is another from now on. -/
theorem Follow.put (hnodup : store.runs.keys.Nodup) {key : RunKey}
    {run : OtaRun} (h : Comes Fresh Wins store key run) :
    Follow Fresh Wins store
      { store with runs := store.runs.put key run } where
  nodup := Table.nodup_keys_put hnodup key run
  held other hheld := by
    by_cases hkey : other = key
    · rw [hkey, Table.get?_put_self]
      rfl
    · rwa [Table.get?_put_of_ne _ _ hkey]
  runs other found hget := by
    by_cases hkey : other = key
    · subst hkey
      rw [Table.get?_put_self, Option.some.injEq] at hget
      rw [← hget]
      exact h
    · rw [Table.get?_put_of_ne _ _ hkey] at hget
      exact Comes.of_get? hget
  file := Or.inl rfl

/-- A run is changed where it stands. -/
theorem Follow.change (hnodup : store.runs.keys.Nodup) {key : RunKey}
    {old run : OtaRun} (hget : store.runs.get? key = some old)
    (hfollows : Follows old run)
    (hwon : run.outcome = some .succeeded → old.outcome = some .succeeded) :
    Follow Fresh Wins store { store with runs := store.runs.put key run } :=
  Follow.put hnodup (.follows old hget hfollows fun h => Or.inl (hwon h))

theorem follow_persist (hnodup : store.runs.keys.Nodup) (now : Nat) :
    Follow Fresh Wins store (store.persist now) := by
  unfold OtaRunStore.persist
  split
  · exact Follow.refl hnodup
  · refine ⟨hnodup, fun _ => id, fun _ _ h => Comes.of_get? h, Or.inr ?_⟩
    refine ⟨⟨SCHEMA_VERSION, store.runs.values⟩, rfl, fun run hmem => ?_⟩
    obtain ⟨key, hget⟩ := (Table.mem_values hnodup).mp hmem
    exact ⟨key, Comes.of_get? hget⟩

theorem Follow.persist (h : Follow Fresh Wins store next) (now : Nat) :
    Follow Fresh Wins store (next.persist now) :=
  h.trans (follow_persist h.nodup now)

end Follow

/-- The event opens a run. -/
def OtaPollEvent.plans : OtaPollEvent → Bool
  | .planned _ _ _ _ _ _ _ _ => true
  | _ => false

/-- The keys for which the event tells of an update. -/
def OtaPollEvent.Wins : OtaPollEvent → RunKey → Prop
  | .updated deviceId kind _, key => key = (deviceId, .of kind)
  | _, _ => False

section Ingest

variable {Fresh : String → Prop} {Wins : RunKey → Prop} {store : OtaRunStore}
  (now : Nat) {fresh : String}

theorem follow_reduce (hnodup : store.runs.keys.Nodup) {event : OtaPollEvent}
    (h : event.plans = false) (hfresh : Fresh fresh) :
    Follow Fresh event.Wins store (store.reduce event now fresh).2 := by
  cases event with
  | manifestPolled checkedAt => exact Follow.of_runs hnodup rfl rfl
  | manifestPollFailed reason => exact Follow.of_runs hnodup rfl rfl
  | updateAvailable deviceId release daemonVersion imageVersion =>
      exact Follow.of_runs hnodup rfl rfl
  | planned deviceId kind release daemonVersion imageVersion channel rootUrl
      steps => contradiction
  | progress deviceId kind stepId snapshot =>
      simp only [OtaRunStore.reduce]
      cases hrun : store.run deviceId (.of kind) with
      | none => exact Follow.refl hnodup
      | some run =>
          obtain ⟨hfollows, hsame⟩ :=
            follows_progressRun run stepId snapshot now
          exact Follow.change hnodup hrun hfollows fun h => hsame ▸ h
  | updated deviceId kind version =>
      simp only [OtaRunStore.reduce]
      cases hrun : store.run deviceId (.of kind) with
      | none => exact Follow.refl hnodup
      | some run =>
          have hput : Follow Fresh
              (OtaPollEvent.updated deviceId kind version).Wins store
              { store with
                runs := store.runs.put (deviceId, .of kind)
                  (updatedRun run version) } :=
            Follow.put hnodup (.follows run hrun
              (follows_updatedRun run version) fun _ => Or.inr rfl)
          cases hlane : OtaLane.of kind with
          | webapp =>
              rw [hlane] at hput
              exact hput
          | firmware =>
              rw [hlane] at hput
              exact hput.trans (Follow.of_runs hput.nodup rfl rfl)
  | failed deviceId kind reason =>
      simp only [OtaRunStore.reduce]
      cases hrun : store.run deviceId (.of kind) with
      | none =>
          refine Follow.put hnodup (.failed hrun hfresh rfl fun h => ?_)
          exact absurd h (closedRun_lost _ reason)
      | some run =>
          simp only [Option.getD_some]
          split
          · exact Follow.change hnodup hrun (Follows.refl run) id
          · refine Follow.change hnodup hrun (follows_closedRun run reason) ?_
            exact fun h => absurd h (closedRun_lost run reason)

/-- An update that is told of leaves no run open under its key. -/
theorem closed_reduce_updated (deviceId : String) (kind : OtaKind)
    (version : String) (run : OtaRun)
    (h : (store.reduce (.updated deviceId kind version) now fresh).2.runs.get?
      (deviceId, .of kind) = some run) : run.outcome.isSome := by
  simp only [OtaRunStore.reduce] at h
  cases hrun : store.run deviceId (.of kind) with
  | none =>
      simp only [hrun] at h
      rw [OtaRunStore.run, h] at hrun
      contradiction
  | some old =>
      simp only [hrun] at h
      cases hlane : OtaLane.of kind with
      | webapp =>
          simp only [hlane, Table.get?_put_self, Option.some.injEq] at h
          rw [← h]
          rfl
      | firmware =>
          simp only [hlane, Table.get?_put_self, Option.some.injEq] at h
          rw [← h]
          rfl

/-- Nor does a failure, when no open run can be resumed. -/
theorem closed_reduce_failed {deviceId : String} {kind : OtaKind}
    (reason : String)
    (hclosed : ∀ run, store.run deviceId (.of kind) = some run →
      run.resumable = true → run.outcome.isSome) (run : OtaRun)
    (h : (store.reduce (.failed deviceId kind reason) now fresh).2.runs.get?
      (deviceId, .of kind) = some run) : run.outcome.isSome := by
  simp only [OtaRunStore.reduce] at h
  cases hrun : store.run deviceId (.of kind) with
  | none =>
      simp only [hrun, Option.getD_none] at h
      rw [if_neg (by exact Bool.false_ne_true), Table.get?_put_self,
        Option.some.injEq] at h
      rw [← h]
      rfl
  | some old =>
      simp only [hrun, Option.getD_some] at h
      split at h
      · rename_i hresumable
        rw [Table.get?_put_self, Option.some.injEq] at h
        rw [← h]
        exact hclosed old hrun hresumable
      · rw [Table.get?_put_self, Option.some.injEq] at h
        rw [← h]
        rfl

theorem follow_stampIdentity (identity : String)
    (done : List OtaStoreChange × Bool × OtaRunStore)
    (hnodup : done.2.2.runs.keys.Nodup) (change : OtaStoreChange) :
    Follow Fresh Wins done.2.2
      (OtaRunStore.stampIdentity identity done change).2.2 := by
  unfold OtaRunStore.stampIdentity
  split
  · split
    · exact Follow.refl hnodup
    · dsimp only
      split
      · exact Follow.refl hnodup
      · rename_i hget
        exact Follow.change hnodup hget ⟨rfl, rfl, rfl, rfl, rfl, id⟩ id
  · exact Follow.refl hnodup

/-- What comes after an event is reduced changes nothing more. -/
theorem follow_ingest (event : OtaPollEvent) (identity : Option String)
    (hnodup : (store.reduce event now fresh).2.runs.keys.Nodup) :
    Follow Fresh Wins (store.reduce event now fresh).2
      (store.ingest event identity now fresh).2 := by
  have hinner : Follow Fresh Wins (store.reduce event now fresh).2
      (store.ingestInner event now fresh).2 := by
    simp only [OtaRunStore.ingestInner]
    split
    · exact Follow.refl hnodup
    · split
      · exact Follow.refl hnodup
      · exact follow_persist hnodup now
  have hstamps : ∀ (identity : String) (changes : List OtaStoreChange)
      (done : List OtaStoreChange × Bool × OtaRunStore),
      done.2.2.runs.keys.Nodup →
      Follow Fresh Wins done.2.2
        (changes.foldl (OtaRunStore.stampIdentity identity) done).2.2 := by
    intro identity changes
    induction changes with
    | nil => exact fun done hdone => Follow.refl hdone
    | cons change rest ih =>
        intro done hdone
        have hstamped : Follow Fresh Wins _ _ :=
          follow_stampIdentity identity done hdone change
        exact hstamped.trans (ih _ hstamped.nodup)
  simp only [OtaRunStore.ingest]
  cases identity with
  | none => exact hinner
  | some identity =>
      have hstamped := hinner.trans (hstamps identity
        (store.ingestInner event now fresh).1
        ([], false, (store.ingestInner event now fresh).2) hinner.nodup)
      dsimp only
      split
      · exact hstamped.persist now
      · exact hstamped

end Ingest

section Operations

variable {Fresh : String → Prop} {Wins : RunKey → Prop}
  (store : OtaRunStore) (hnodup : store.runs.keys.Nodup) (deviceId : String)
  (now : Nat)

theorem follow_interruptLane (done : List OtaRun × OtaRunStore)
    (hdone : done.2.runs.keys.Nodup) (lane : OtaLane) :
    Follow Fresh Wins done.2
      (OtaRunStore.interruptLane deviceId done lane).2 := by
  simp only [OtaRunStore.interruptLane]
  cases hrun : done.2.run deviceId lane with
  | none => exact Follow.refl hdone
  | some run =>
      dsimp only
      split
      · exact Follow.refl hdone
      · exact Follow.change hdone hrun (follows_strand run) strand_lost

include hnodup

theorem follow_interrupt :
    Follow Fresh Wins store (store.interrupt deviceId now).2 := by
  have hfirmware : Follow Fresh Wins store
      (OtaRunStore.interruptLane deviceId ([], store) .firmware).2 :=
    follow_interruptLane deviceId ([], store) hnodup .firmware
  have hlanes : Follow Fresh Wins store
      (OtaLane.ALL.foldl (OtaRunStore.interruptLane deviceId) ([], store)).2 :=
    hfirmware.trans
      (follow_interruptLane deviceId _ hfirmware.nodup .webapp)
  simp only [OtaRunStore.interrupt]
  split
  · exact hlanes
  · exact hlanes.persist now

theorem follow_takeResume :
    Follow Fresh Wins store (store.takeResume deviceId now).2 := by
  rcases takeResume_cases store deviceId now with hnone | ⟨run, hrun, -, htake⟩
  · rw [hnone]
    exact Follow.refl hnodup
  · rw [htake]
    apply Follow.persist
    exact Follow.change hnodup hrun ⟨rfl, rfl, rfl, rfl, rfl, id⟩ id

theorem follow_annotateWebapp (webappId webappName : Option String) :
    Follow Fresh Wins store
      (store.annotateWebapp deviceId webappId webappName now).2 := by
  simp only [OtaRunStore.annotateWebapp]
  cases hrun : store.run deviceId .webapp with
  | none => exact Follow.refl hnodup
  | some run =>
      apply Follow.persist
      exact Follow.change hnodup hrun ⟨rfl, rfl, rfl, rfl, rfl, id⟩ id

end Operations

end Ota

end Bridgething
