/-
A resume is handed over at most once, across any number of restarts.  It is
never one of a run that reached the device, as long as no late progress moves a
resumable run there, or an unfinished run back.
-/
import Bridgething.Lib.Transition
import Bridgething.Ota.RunStore

namespace Bridgething

namespace Ota

open Transition

/-- The run has asked the device to go away, or has succeeded. -/
def OtaRun.hasLanded (run : OtaRun) : Bool :=
  run.phase.isHandedToDevice ∨ run.outcome = some .succeeded

/-- A resume that `take_resume` answered, and whether its run had landed. -/
structure Handover where
  runId : String
  landed : Bool
deriving Repr, DecidableEq

/-- A store with the history of its processes: how many ids were drawn, what
was handed over, and which runs have ever landed. -/
structure World where
  store : OtaRunStore
  minted : Nat
  handed : List Handover
  landed : List String
deriving Repr

inductive Op
  | ingest (event : OtaPollEvent) (identity : Option String) (now : Nat)
  | interrupt (deviceId : String) (now : Nat)
  | takeResume (deviceId : String) (now : Nat)
  | dismiss (deviceId : String) (lane : OtaLane) (now : Nat)
  | annotateWebapp (deviceId : String) (webappId webappName : Option String)
      (now : Nat)
  | restart
deriving Repr

def landedIds (runs : Table RunKey OtaRun) : List String :=
  (runs.values.filter OtaRun.hasLanded).map OtaRun.runId

def World.observe (world : World) : World :=
  { world with landed := world.landed ++ landedIds world.store.runs }

def World.handOver (world : World) (deviceId : String) (now : Nat) : World :=
  match world.store.takeResume deviceId now,
      world.store.run deviceId .firmware with
  | (some _, store), some run =>
      { world with
        store := store
        handed := world.handed ++
          [⟨run.runId, run.runId ∈ world.landed⟩] }
  | (_, store), _ => { world with store := store }

/-- One operation; `uuid n` is the id drawn `n`-th. -/
def World.step (uuid : Nat → String) (world : World) (op : Op) : World :=
  World.observe <| match op with
    | .ingest event identity now =>
        let (_, store) :=
          world.store.ingest event identity now (uuid world.minted)
        { world with store := store, minted := world.minted + 1 }
    | .interrupt deviceId now =>
        { world with store := (world.store.interrupt deviceId now).2 }
    | .takeResume deviceId now => world.handOver deviceId now
    | .dismiss deviceId lane now =>
        { world with store := (world.store.dismiss deviceId lane now).2 }
    | .annotateWebapp deviceId webappId webappName now =>
        { world with
          store := (world.store.annotateWebapp deviceId webappId webappName
            now).2 }
    | .restart => { world with store := .new world.store.file }

/-- Nothing persisted yet, with or without a data directory. -/
def World.fresh (dataDir : Bool) : World where
  store := .new (if dataDir then some none else none)
  minted := 0
  handed := []
  landed := []

/-- The progress neither moves a resumable run to the device, nor an unfinished
one that could be resumed back from it. -/
def Op.KeepsOrder (store : OtaRunStore) : Op → Prop
  | .ingest (.progress deviceId kind _ snapshot) _ _ =>
      ∀ run, store.run deviceId (.of kind) = some run →
        OtaLane.of kind = .firmware → (resumeOf run).isSome →
          (run.resumable = true →
            (applySnapshot snapshot run).phase.isHandedToDevice = false) ∧
          (run.outcome = none → run.phase.isHandedToDevice = true →
            (applySnapshot snapshot run).phase.isHandedToDevice = true)
  | _ => True

/-- What a run's history knows. -/
structure Ghost where
  handed : Set String
  landed : Set String
  known : Set String

/-- What history leaves of one run.  `Ordered` is what the order of progress
owes; without it only the handing over is guarded. -/
structure Sound (Ordered : Prop) (ghost : Ghost) (run : OtaRun) : Prop where
  closed : run.resumable = true → run.outcome.isSome
  handed : run.runId ∈ ghost.handed →
    run.outcome.isSome ∧ run.resumable = false
  kept : Ordered → run.runId ∈ ghost.landed → run.lane = .firmware →
    (resumeOf run).isSome → run.resumable = false ∧
      (run.outcome = none → run.phase.isHandedToDevice = true)
  observed : run.hasLanded = true → run.runId ∈ ghost.landed
  known : run.runId ∈ ghost.known

/-- A table whose runs stand under their own keys, each under its own id. -/
structure Tidy (Ordered : Prop) (ghost : Ghost) (runs : Table RunKey OtaRun) :
    Prop where
  nodup : runs.keys.Nodup
  sound : ∀ key run, runs.get? key = some run →
    run.key = key ∧ Sound Ordered ghost run
  unique : ∀ key other run rival, runs.get? key = some run →
    runs.get? other = some rival → run.runId = rival.runId → key = other

/-- The runs of the file under their keys. -/
def PersistedRuns.table (held : PersistedRuns) : Table RunKey OtaRun :=
  held.runs.map fun run => (run.key, run)

structure Kept (Ordered : Prop) (ghost : Ghost) (store : OtaRunStore) :
    Prop where
  memory : Tidy Ordered ghost store.runs
  disk : ∀ held, store.file = some (some held) →
    Tidy Ordered ghost held.table

section Runs

variable {Ordered : Prop} {ghost next : Ghost} {run : OtaRun}

/-- Later ghosts that say nothing new of a run. -/
structure Ghost.Agrees (ghost next : Ghost) (runId : String) : Prop where
  handed : runId ∈ next.handed → runId ∈ ghost.handed
  landed : runId ∈ next.landed → runId ∈ ghost.landed
  grows : ghost.landed ⊆ next.landed
  known : ghost.known ⊆ next.known

theorem Sound.agrees (h : Sound Ordered ghost run)
    (hsame : ghost.Agrees next run.runId) : Sound Ordered next run where
  closed := h.closed
  handed hmem := h.handed (hsame.handed hmem)
  kept hordered hmem := h.kept hordered (hsame.landed hmem)
  observed hlanded := hsame.grows (h.observed hlanded)
  known := hsame.known h.known

/-- A closed run that cannot be resumed owes nothing. -/
theorem Sound.of_closed (hclosed : run.outcome.isSome)
    (hresumable : run.resumable = false)
    (hobserved : run.hasLanded = true → run.runId ∈ ghost.landed)
    (hknown : run.runId ∈ ghost.known) : Sound Ordered ghost run where
  closed _ := hclosed
  handed _ := ⟨hclosed, hresumable⟩
  kept _ _ _ _ := by
    refine ⟨hresumable, fun hnone => ?_⟩
    rw [hnone] at hclosed
    exact absurd hclosed (by decide)
  observed := hobserved
  known := hknown

/-- A run just opened owes nothing: nobody knows its id. -/
theorem Sound.of_opened (houtcome : run.outcome = none)
    (hresumable : run.resumable = false)
    (hphase : run.phase.isHandedToDevice = false)
    (hhanded : run.runId ∉ ghost.handed) (hlanded : run.runId ∉ ghost.landed)
    (hknown : run.runId ∈ ghost.known) : Sound Ordered ghost run where
  closed h := by
    rw [hresumable] at h
    exact absurd h (by decide)
  handed hmem := absurd hmem hhanded
  kept _ hmem := absurd hmem hlanded
  observed h := by
    simp [OtaRun.hasLanded, hphase, houtcome] at h
  known := hknown

theorem Sound.strand (h : Sound Ordered ghost run) :
    Sound Ordered ghost (Ota.strand run) := by
  by_cases hskip : run.outcome.isSome ∨ run.phase.isHandedToDevice
  · rw [Ota.strand, if_pos hskip]
    exact h
  · rw [Ota.strand, if_neg hskip]
    rw [not_or] at hskip
    have hopen : run.outcome = none := Option.not_isSome_iff_eq_none.mp hskip.1
    refine ⟨fun _ => rfl, fun hmem => ?_, fun hordered hmem hlane hresume => ?_,
      fun hlanded => ?_, h.known⟩
    · exact absurd (h.handed hmem).1 hskip.1
    · exact absurd ((h.kept hordered hmem hlane hresume).2 hopen) hskip.2
    · exact absurd hlanded (by simp [OtaRun.hasLanded,
        OtaRunPhase.isHandedToDevice])

/-- Fields the history does not look at. -/
theorem Sound.of_same (h : Sound Ordered ghost run) {other : OtaRun}
    (hrunId : other.runId = run.runId) (hkind : other.kind = run.kind)
    (hphase : other.phase = run.phase) (houtcome : other.outcome = run.outcome)
    (hresumable : other.resumable = run.resumable)
    (hresume : resumeOf other = resumeOf run) :
    Sound Ordered ghost other where
  closed := by
    rw [hresumable, houtcome]
    exact h.closed
  handed := by
    rw [hrunId, houtcome, hresumable]
    exact h.handed
  kept := by
    rw [hrunId, OtaRun.lane, hkind, hresume, hresumable, houtcome, hphase]
    exact h.kept
  observed := by
    rw [OtaRun.hasLanded, hphase, houtcome, hrunId]
    exact h.observed
  known := by
    rw [hrunId]
    exact h.known

end Runs

section Tables

variable {Ordered : Prop} {ghost next : Ghost}
  {runs : Table RunKey OtaRun}

/-- The history after what a table shows is written into it. -/
def Ghost.observe (ghost : Ghost) (runs : Table RunKey OtaRun) : Ghost :=
  { ghost with landed := ghost.landed ∪ {id | id ∈ landedIds runs} }

theorem Tidy.mem_landedIds (h : Tidy Ordered ghost runs) {id : String} :
    id ∈ landedIds runs ↔
      ∃ key run, runs.get? key = some run ∧ run.hasLanded = true ∧
        run.runId = id := by
  simp only [landedIds, List.mem_map, List.mem_filter,
    Table.mem_values h.nodup]
  constructor
  · rintro ⟨run, ⟨⟨key, hget⟩, hlanded⟩, hid⟩
    exact ⟨key, run, hget, hlanded, hid⟩
  · rintro ⟨key, run, hget, hlanded, hid⟩
    exact ⟨run, ⟨⟨key, hget⟩, hlanded⟩, hid⟩

theorem Tidy.observe_eq_self (h : Tidy Ordered ghost runs) :
    ghost.observe runs = ghost := by
  have hsub : {id | id ∈ landedIds runs} ⊆ ghost.landed := by
    intro id hid
    obtain ⟨key, run, hget, hlanded, rfl⟩ := h.mem_landedIds.mp hid
    exact (h.sound key run hget).2.observed hlanded
  rw [Ghost.observe, Set.union_eq_self_of_subset_right hsub]

theorem Tidy.put (h : Tidy Ordered ghost runs) (run : OtaRun)
    (hsound : Sound Ordered next run)
    (hothers : ∀ other rival, other ≠ run.key →
      runs.get? other = some rival → rival.runId ≠ run.runId ∧
        ghost.Agrees next rival.runId) :
    Tidy Ordered next (runs.put run.key run) where
  nodup := Table.nodup_keys_put h.nodup _ _
  sound key found hget := by
    by_cases hkey : key = run.key
    · rw [hkey, Table.get?_put_self, Option.some.injEq] at hget
      rw [← hget]
      exact ⟨hkey.symm, hsound⟩
    · rw [Table.get?_put_of_ne _ _ hkey] at hget
      have hfound := h.sound key found hget
      exact ⟨hfound.1, hfound.2.agrees (hothers key found hkey hget).2⟩
  unique key other found rival hget hrival hid := by
    by_cases hkey : key = run.key
    · by_cases hother : other = run.key
      · rw [hkey, hother]
      · rw [hkey, Table.get?_put_self, Option.some.injEq] at hget
        rw [Table.get?_put_of_ne _ _ hother] at hrival
        rw [← hget] at hid
        exact absurd hid.symm (hothers other rival hother hrival).1
    · rw [Table.get?_put_of_ne _ _ hkey] at hget
      by_cases hother : other = run.key
      · rw [hother, Table.get?_put_self, Option.some.injEq] at hrival
        rw [← hrival] at hid
        exact absurd hid (hothers key found hkey hget).1
      · rw [Table.get?_put_of_ne _ _ hother] at hrival
        exact h.unique key other found rival hget hrival hid

/-- Changing a run where it stands. -/
theorem Tidy.change (h : Tidy Ordered ghost runs) {key : RunKey}
    {old run : OtaRun} (hget : runs.get? key = some old)
    (hkey : run.key = old.key) (hid : run.runId = old.runId)
    (hsound : Sound Ordered next run)
    (hagrees : ∀ id, id ≠ run.runId → ghost.Agrees next id) :
    Tidy Ordered next (runs.put key run) := by
  have hheld : run.key = key := hkey.trans (h.sound key old hget).1
  rw [← hheld]
  apply h.put run hsound
  intro other rival hother hrival
  have hdiffers : rival.runId ≠ run.runId := by
    intro hsame
    have := h.unique other key rival old hrival hget (hsame.trans hid)
    exact hother (this.trans hheld.symm)
  exact ⟨hdiffers, hagrees _ hdiffers⟩

theorem Ghost.Agrees.refl (ghost : Ghost) (id : String) :
    ghost.Agrees ghost id :=
  ⟨fun h => h, fun h => h, fun _ h => h, fun _ h => h⟩

theorem Tidy.agrees (h : Tidy Ordered ghost runs)
    (hagrees : ∀ id ∈ ghost.known, ghost.Agrees next id) :
    Tidy Ordered next runs where
  nodup := h.nodup
  sound key run hget := by
    have hrun := h.sound key run hget
    exact ⟨hrun.1, hrun.2.agrees (hagrees _ hrun.2.known)⟩
  unique := h.unique

theorem Tidy.remove (h : Tidy Ordered ghost runs) (key : RunKey) :
    Tidy Ordered ghost (runs.remove key) := by
  have hget : ∀ other run, (runs.remove key).get? other = some run →
      runs.get? other = some run := by
    intro other run hget
    by_cases hsame : other = key
    · rw [hsame, Table.get?_remove_self] at hget
      exact absurd hget (by simp)
    · rwa [Table.get?_remove_of_ne runs hsame] at hget
  refine ⟨Table.nodup_keys_remove h.nodup key, ?_, ?_⟩
  · intro other run hfound
    exact h.sound other run (hget other run hfound)
  · intro left right run rival hleft hright
    exact h.unique left right run rival (hget _ _ hleft) (hget _ _ hright)

/-- The runs written out and keyed again are the table. -/
theorem Tidy.table_values (h : Tidy Ordered ghost runs) (version : Nat) :
    (PersistedRuns.mk version runs.values).table = runs := by
  simp only [PersistedRuns.table, Table.values, List.map_map]
  refine (List.map_congr_left ?_).trans (List.map_id runs)
  rintro ⟨key, run⟩ hmem
  have hkey := (h.sound key run (Table.get?_of_mem h.nodup hmem)).1
  simp [hkey]

theorem Tidy.persist {store : OtaRunStore}
    (h : Tidy Ordered ghost store.runs) (now : Nat) :
    Kept Ordered ghost (store.persist now) := by
  unfold OtaRunStore.persist
  cases hfile : store.file with
  | none => exact ⟨h, fun held hheld => by simp [hfile] at hheld⟩
  | some content =>
      refine ⟨h, fun held hheld => ?_⟩
      simp only [Option.some.injEq] at hheld
      rw [← hheld, h.table_values]
      exact h

theorem persist_runs (store : OtaRunStore) (now : Nat) :
    (store.persist now).runs = store.runs := by
  unfold OtaRunStore.persist
  cases store.file <;> rfl

theorem reloaded_key (run : OtaRun) : (reloaded run).key = run.key := by
  unfold reloaded strand
  split <;> rfl

theorem reloaded_runId (run : OtaRun) : (reloaded run).runId = run.runId := by
  unfold reloaded strand
  split <;> rfl

theorem Sound.reloaded {run : OtaRun} (h : Sound Ordered ghost run) :
    Sound Ordered ghost (Ota.reloaded run) := by
  have hrate : Sound Ordered ghost { run with ratePerSec := none } :=
    h.of_same rfl rfl rfl rfl rfl rfl
  exact hrate.strand

theorem load_eq {held : PersistedRuns} (h : held.table.keys.Nodup) :
    load (some held) = if held.version ≠ SCHEMA_VERSION then []
      else held.table.map fun entry => (entry.1, reloaded entry.2) := by
  have hfold : held.runs.foldl (fun runs run =>
      Table.put runs (reloaded run).key (reloaded run)) [] =
      (held.table.map fun entry => (entry.1, reloaded entry.2)).foldl
        (fun runs entry => Table.put runs entry.1 entry.2) [] := by
    rw [PersistedRuns.table, List.map_map, List.foldl_map]
    simp only [Function.comp_apply, reloaded_key]
  have hkeys : Table.keys ([] ++ held.table.map fun entry =>
      (entry.1, reloaded entry.2)) = held.table.keys :=
    Table.keys_map held.table fun _ run => reloaded run
  simp only [load, hfold]
  rw [Table.foldl_put _ _ (hkeys ▸ h), List.nil_append]

/-- A restart loads what the file says, stranded. -/
theorem Kept.reload {store : OtaRunStore} (h : Kept Ordered ghost store) :
    Kept Ordered ghost (.new store.file) := by
  have hempty : Tidy Ordered ghost [] :=
    ⟨List.nodup_nil, fun _ _ hget => by simp at hget,
      fun _ _ _ _ hget => by simp at hget⟩
  refine ⟨?_, h.disk⟩
  unfold OtaRunStore.new
  cases hfile : store.file with
  | none => exact hempty
  | some content =>
      cases content with
      | none => exact hempty
      | some held =>
          have hdisk := h.disk held hfile
          simp only [load_eq hdisk.nodup]
          split
          · exact hempty
          · have hget := Table.get?_map held.table fun _ run => reloaded run
            refine ⟨?_, ?_, ?_⟩
            · rw [Table.keys_map held.table fun _ run => reloaded run]
              exact hdisk.nodup
            · intro key run hfound
              rw [hget key, Option.map_eq_some_iff] at hfound
              obtain ⟨old, hold, rfl⟩ := hfound
              have hsound := hdisk.sound key old hold
              rw [reloaded_key]
              exact ⟨hsound.1, hsound.2.reloaded⟩
            · intro key other run rival hrun hrival hid
              rw [hget, Option.map_eq_some_iff] at hrun hrival
              obtain ⟨left, hleft, rfl⟩ := hrun
              obtain ⟨right, hright, rfl⟩ := hrival
              rw [reloaded_runId, reloaded_runId] at hid
              exact hdisk.unique key other left right hleft hright hid

end Tables

section Steps

variable {Ordered : Prop} {ghost next : Ghost}
  {runs : Table RunKey OtaRun} {run : OtaRun}

/-- The history after a run is seen as it now is. -/
def Ghost.land (ghost : Ghost) (run : OtaRun) : Ghost :=
  { ghost with
    landed := ghost.landed ∪
      {id | run.hasLanded = true ∧ id = run.runId} }

theorem Ghost.land_agrees (ghost : Ghost) (run : OtaRun) {id : String}
    (hother : id ≠ run.runId) : ghost.Agrees (ghost.land run) id where
  handed h := h
  landed h := by
    rcases h with hold | ⟨_, hself⟩
    · exact hold
    · exact absurd hself hother
  grows := Set.subset_union_left
  known := Set.Subset.rfl

theorem Ghost.observe_eq_land {key : RunKey}
    (h : Tidy Ordered (ghost.land run) runs)
    (hget : runs.get? key = some run) :
    ghost.observe runs = ghost.land run := by
  have hlanded : ghost.landed ∪ {id | id ∈ landedIds runs} =
      ghost.landed ∪ {id | run.hasLanded = true ∧ id = run.runId} := by
    apply Set.Subset.antisymm
    · apply Set.union_subset Set.subset_union_left
      intro id hid
      obtain ⟨other, rival, hrival, hlanded, rfl⟩ := h.mem_landedIds.mp hid
      exact (h.sound other rival hrival).2.observed hlanded
    · apply Set.union_subset_union_right
      rintro id ⟨hlanded, rfl⟩
      exact h.mem_landedIds.mpr ⟨key, run, hget, hlanded, rfl⟩
  simp only [Ghost.observe, Ghost.land, hlanded]

/-- Changing a run where it stands, and seeing whether it has landed. -/
theorem Tidy.land (h : Tidy Ordered ghost runs) {key : RunKey}
    {old : OtaRun} (hget : runs.get? key = some old)
    (hkey : run.key = old.key) (hid : run.runId = old.runId)
    (hsound : Sound Ordered (ghost.land run) run) :
    Tidy Ordered (ghost.observe (runs.put key run)) (runs.put key run) := by
  have htidy : Tidy Ordered (ghost.land run) (runs.put key run) :=
    h.change hget hkey hid hsound fun _ hother =>
      ghost.land_agrees run hother
  rw [Ghost.observe_eq_land htidy (Table.get?_put_self runs key run)]
  exact htidy

/-- The run is the same to its history, up to the phase. -/
structure SameButPhase (run other : OtaRun) : Prop where
  runId : other.runId = run.runId
  key : other.key = run.key
  outcome : other.outcome = run.outcome
  resumable : other.resumable = run.resumable
  resume : resumeOf other = resumeOf run

theorem applySnapshot_same (snapshot : OtaPhaseSnapshot) (run : OtaRun) :
    SameButPhase run (applySnapshot snapshot run) := by
  cases snapshot <;> exact ⟨rfl, rfl, rfl, rfl, rfl⟩

/-- The phase of a snapshot is its own. -/
theorem applySnapshot_phase (snapshot : OtaPhaseSnapshot)
    (run other : OtaRun) :
    (applySnapshot snapshot other).phase =
      (applySnapshot snapshot run).phase := by
  cases snapshot <;> rfl

theorem progressRun_same (run : OtaRun) (stepId : Nat)
    (snapshot : OtaPhaseSnapshot) (now : Nat) :
    SameButPhase run (progressRun run stepId snapshot now) ∧
      (progressRun run stepId snapshot now).phase =
        (applySnapshot snapshot run).phase := by
  have hstamp : ∀ stepped : OtaRun, SameButPhase run stepped →
      SameButPhase run (if (applySnapshot snapshot stepped).phase ≠ run.phase
        then { applySnapshot snapshot stepped with phaseStartedAtMs := now }
        else applySnapshot snapshot stepped) ∧
      (if (applySnapshot snapshot stepped).phase ≠ run.phase
        then { applySnapshot snapshot stepped with phaseStartedAtMs := now }
        else applySnapshot snapshot stepped).phase =
          (applySnapshot snapshot run).phase := by
    intro stepped hstepped
    have hsame := applySnapshot_same snapshot stepped
    have hphase := applySnapshot_phase snapshot run stepped
    have hmoved : SameButPhase run (applySnapshot snapshot stepped) :=
      ⟨hsame.runId.trans hstepped.runId, hsame.key.trans hstepped.key,
        hsame.outcome.trans hstepped.outcome,
        hsame.resumable.trans hstepped.resumable,
        hsame.resume.trans hstepped.resume⟩
    split
    · exact ⟨⟨hmoved.runId, hmoved.key, hmoved.outcome, hmoved.resumable,
        hmoved.resume⟩, hphase⟩
    · exact ⟨hmoved, hphase⟩
  unfold progressRun
  apply hstamp
  split <;> exact ⟨rfl, rfl, rfl, rfl, rfl⟩

/-- Progress keeps the order, or nothing is owed to it. -/
theorem Sound.progress (h : Sound Ordered ghost run) (stepId : Nat)
    (snapshot : OtaPhaseSnapshot) (now : Nat)
    (horder : Ordered → run.lane = .firmware → (resumeOf run).isSome →
      (run.resumable = true →
        (applySnapshot snapshot run).phase.isHandedToDevice = false) ∧
      (run.outcome = none → run.phase.isHandedToDevice = true →
        (applySnapshot snapshot run).phase.isHandedToDevice = true)) :
    Sound Ordered (ghost.land (progressRun run stepId snapshot now))
      (progressRun run stepId snapshot now) := by
  obtain ⟨⟨hid, hkey, houtcome, hresumable, hresume⟩, hphase⟩ :=
    progressRun_same run stepId snapshot now
  have hlane : (progressRun run stepId snapshot now).lane = run.lane :=
    congrArg Prod.snd hkey
  constructor
  · rw [hresumable, houtcome]
    exact h.closed
  · rw [hid, houtcome, hresumable]
    exact h.handed
  · intro hordered hmem hfirmware hsome
    rw [hlane] at hfirmware
    rw [hresume] at hsome
    obtain ⟨hto, hback⟩ := horder hordered hfirmware hsome
    rw [hresumable, houtcome, hphase]
    rcases hmem with hold | ⟨hlanded, _⟩
    · rw [hid] at hold
      obtain ⟨hclosed, hheld⟩ := h.kept hordered hold hfirmware hsome
      exact ⟨hclosed, fun hopen => hback hopen (hheld hopen)⟩
    · simp only [OtaRun.hasLanded, hphase, houtcome, Bool.decide_or,
        Bool.decide_eq_true, Bool.or_eq_true, decide_eq_true_eq] at hlanded
      rcases hlanded with hdevice | hsucceeded
      · refine ⟨?_, fun _ => hdevice⟩
        by_contra hresumed
        rw [Bool.not_eq_false] at hresumed
        rw [hto hresumed] at hdevice
        exact absurd hdevice (by decide)
      · have hold : run.runId ∈ ghost.landed :=
          h.observed (by simp [OtaRun.hasLanded, hsucceeded])
        obtain ⟨hclosed, hheld⟩ := h.kept hordered hold hfirmware hsome
        exact ⟨hclosed, fun hopen => hback hopen (hheld hopen)⟩
  · intro hlanded
    exact Or.inr ⟨hlanded, rfl⟩
  · rw [hid]
    exact h.known

theorem Sound.updated (h : Sound Ordered ghost run) (version : String) :
    Sound Ordered (ghost.land (updatedRun run version))
      (updatedRun run version) := by
  apply Sound.of_closed
  · rfl
  · rfl
  · exact fun hlanded => Or.inr ⟨hlanded, rfl⟩
  · exact h.known

theorem closedRun_not_landed (run : OtaRun) (reason : String) :
    (closedRun run reason).hasLanded = false := by
  simp only [closedRun, OtaRun.hasLanded, OtaRunPhase.isHandedToDevice]
  split_ifs <;> rfl

/-- A run closed by a failure, which the store only does to one that is not
resumable. -/
theorem Sound.closedRun (hknown : run.runId ∈ ghost.known)
    (hresumable : run.resumable = false) (reason : String) :
    Sound Ordered ghost (Ota.closedRun run reason) := by
  apply Sound.of_closed
  · rfl
  · exact hresumable
  · intro hlanded
    rw [closedRun_not_landed] at hlanded
    exact absurd hlanded (by decide)
  · exact hknown

end Steps

section Operations

variable {Ordered : Prop} {ghost : Ghost} {store : OtaRunStore}

theorem Kept.of_runs (h : Kept Ordered ghost store) {other : OtaRunStore}
    (hruns : Tidy Ordered ghost other.runs) (hfile : other.file = store.file) :
    Kept Ordered ghost other :=
  ⟨hruns, fun held hheld => h.disk held (hfile ▸ hheld)⟩

/-- What a store shows of its runs decides who has landed. -/
theorem landedIds_eq (store : OtaRunStore) :
    landedIds store.runs = (store.identities.filter fun shown =>
      decide (shown.2.1.isHandedToDevice ∨
        shown.2.2.1 = some .succeeded)).map Prod.fst := by
  rw [OtaRunStore.identities, List.filter_map, List.map_map]
  rfl

theorem landedIds_congr {other : OtaRunStore}
    (h : other.identities = store.identities) :
    landedIds other.runs = landedIds store.runs := by
  rw [landedIds_eq, landedIds_eq, h]

section Reduce

variable (event : OtaPollEvent) (now : Nat) (fresh : String)

theorem reduce_file : (store.reduce event now fresh).2.file = store.file := by
  cases event with
  | manifestPolled checkedAt => rfl
  | manifestPollFailed reason => rfl
  | updateAvailable deviceId release daemonVersion imageVersion => rfl
  | planned deviceId kind release daemonVersion imageVersion channel rootUrl
      steps => rfl
  | progress deviceId kind stepId snapshot =>
      simp only [OtaRunStore.reduce]
      cases store.run deviceId (.of kind) <;> rfl
  | updated deviceId kind version =>
      simp only [OtaRunStore.reduce]
      cases store.run deviceId (.of kind) with
      | none => rfl
      | some run => cases OtaLane.of kind <;> rfl
  | failed deviceId kind reason =>
      simp only [OtaRunStore.reduce]
      split <;> rfl

/-- Without a change of a run there is none in the table. -/
theorem reduce_runs (h : (store.reduce event now fresh).1.any
    OtaStoreChange.isRun = false) :
    (store.reduce event now fresh).2.runs = store.runs := by
  cases event with
  | manifestPolled checkedAt => rfl
  | manifestPollFailed reason => rfl
  | updateAvailable deviceId release daemonVersion imageVersion => rfl
  | planned deviceId kind release daemonVersion imageVersion channel rootUrl
      steps => exact absurd h (by simp [OtaRunStore.reduce,
        OtaStoreChange.isRun])
  | progress deviceId kind stepId snapshot =>
      simp only [OtaRunStore.reduce] at h ⊢
      cases hrun : store.run deviceId (.of kind) with
      | none => rfl
      | some run => exact absurd h (by simp [hrun, OtaStoreChange.isRun])
  | updated deviceId kind version =>
      simp only [OtaRunStore.reduce] at h ⊢
      cases hrun : store.run deviceId (.of kind) with
      | none => rfl
      | some run =>
          rw [hrun] at h
          cases hlane : OtaLane.of kind <;>
            exact absurd h (by simp [hlane, OtaStoreChange.isRun])
  | failed deviceId kind reason =>
      simp only [OtaRunStore.reduce] at h ⊢
      cases hrun : store.run deviceId (.of kind) with
      | none => exact absurd h (by simp [hrun, failedRun,
          OtaStoreChange.isRun])
      | some run =>
          simp only [hrun, Option.getD_some] at h ⊢
          split
          · exact Table.put_get? hrun
          · exact absurd h (by simp_all [OtaStoreChange.isRun])

/-- One event keeps the table in order, its landings written down. -/
theorem reduce_tidy (h : Tidy Ordered ghost store.runs)
    (hknown : fresh ∈ ghost.known) (hhanded : fresh ∉ ghost.handed)
    (hlanded : fresh ∉ ghost.landed)
    (hheld : ∀ key run, store.runs.get? key = some run → run.runId ≠ fresh)
    (horder : Ordered →
      (Op.ingest event none now).KeepsOrder store) :
    Tidy Ordered (ghost.observe (store.reduce event now fresh).2.runs)
      (store.reduce event now fresh).2.runs := by
  have hstill : Tidy Ordered (ghost.observe store.runs) store.runs := by
    rw [h.observe_eq_self]
    exact h
  have hopened : ∀ run : OtaRun, run.runId = fresh →
      Sound Ordered ghost run →
      Tidy Ordered (ghost.observe (store.runs.put run.key run))
        (store.runs.put run.key run) := by
    intro run hid hsound
    have hput : Tidy Ordered ghost (store.runs.put run.key run) := by
      apply h.put run hsound
      intro other rival _ hget
      exact ⟨hid ▸ hheld other rival hget, Ghost.Agrees.refl ghost _⟩
    rw [hput.observe_eq_self]
    exact hput
  cases event with
  | manifestPolled checkedAt => exact hstill
  | manifestPollFailed reason => exact hstill
  | updateAvailable deviceId release daemonVersion imageVersion =>
      exact hstill
  | planned deviceId kind release daemonVersion imageVersion channel rootUrl
      steps =>
      apply hopened (plannedRun fresh deviceId kind release daemonVersion
        imageVersion channel rootUrl steps now) rfl
      exact Sound.of_opened rfl rfl rfl hhanded hlanded hknown
  | progress deviceId kind stepId snapshot =>
      simp only [OtaRunStore.reduce]
      cases hrun : store.run deviceId (.of kind) with
      | none => exact hstill
      | some run =>
          obtain ⟨hkey, hsound⟩ := h.sound _ _ hrun
          have hsame := (progressRun_same run stepId snapshot now).1
          apply h.land hrun hsame.key hsame.runId
          apply hsound.progress
          intro hordered hlane hresume
          have hfirmware : OtaLane.of kind = .firmware :=
            (congrArg Prod.snd hkey).symm.trans hlane
          exact horder hordered run hrun hfirmware hresume
  | updated deviceId kind version =>
      simp only [OtaRunStore.reduce]
      cases hrun : store.run deviceId (.of kind) with
      | none => exact hstill
      | some run =>
          have hsound := (h.sound _ _ hrun).2.updated version
          have hput : Tidy Ordered
              (ghost.observe (store.runs.put (deviceId, .of kind)
                (updatedRun run version)))
              (store.runs.put (deviceId, .of kind) (updatedRun run version)) :=
            h.land hrun rfl rfl hsound
          cases hlane : OtaLane.of kind <;> rw [hlane] at hput <;> exact hput
  | failed deviceId kind reason =>
      simp only [OtaRunStore.reduce]
      cases hrun : store.run deviceId (.of kind) with
      | none =>
          apply hopened (closedRun (failedRun fresh deviceId kind now) reason)
            rfl
          exact Sound.closedRun hknown rfl reason
      | some run =>
          have hsound := (h.sound _ _ hrun).2
          simp only [Option.getD_some]
          split
          · rw [Table.put_get? hrun]
            exact hstill
          · have hput : Tidy Ordered ghost
                (store.runs.put (deviceId, .of kind) (closedRun run reason)) :=
              h.change hrun rfl rfl
                (Sound.closedRun hsound.known (by simp_all) reason)
                fun _ _ => Ghost.Agrees.refl ghost _
            rw [hput.observe_eq_self]
            exact hput

end Reduce

theorem Kept.ingestInner (h : Kept Ordered ghost store)
    (event : OtaPollEvent) (now : Nat) (fresh : String)
    (htidy : Tidy Ordered
      (ghost.observe (store.reduce event now fresh).2.runs)
      (store.reduce event now fresh).2.runs) :
    Kept Ordered
      (ghost.observe (store.ingestInner event now fresh).2.runs)
      (store.ingestInner event now fresh).2 := by
  have hfile := @reduce_file store event now fresh
  have hquiet : landedIds (store.reduce event now fresh).2.runs =
      landedIds store.runs → Kept Ordered
        (ghost.observe (store.reduce event now fresh).2.runs)
        (store.reduce event now fresh).2 := by
    intro hlanded
    have hghost : ghost.observe (store.reduce event now fresh).2.runs =
        ghost := by
      rw [Ghost.observe, hlanded]
      exact h.memory.observe_eq_self
    rw [hghost] at htidy ⊢
    exact h.of_runs htidy hfile
  simp only [OtaRunStore.ingestInner]
  split
  · rename_i hnone
    apply hquiet
    rw [reduce_runs event now fresh (by simpa using hnone)]
  · split
    · rename_i hcounters
      apply hquiet
      exact landedIds_congr (of_decide_eq_true hcounters.1).symm
    · rw [persist_runs]
      exact htidy.persist now

theorem put_identities {key : RunKey} {old run : OtaRun}
    (hget : store.runs.get? key = some old) (hid : run.runId = old.runId)
    (hphase : run.phase = old.phase) (houtcome : run.outcome = old.outcome)
    (hresumable : run.resumable = old.resumable) :
    OtaRunStore.identities { store with runs := store.runs.put key run } =
      store.identities := by
  apply Table.map_values_put _ hget
  rw [hid, hphase, houtcome, hresumable]

/-- Stamping an identity changes nothing the history looks at. -/
theorem stampIdentity_tidy (identity : String)
    (changes : List OtaStoreChange)
    (done : List OtaStoreChange × Bool × OtaRunStore)
    (h : Tidy Ordered ghost done.2.2.runs) :
    Tidy Ordered ghost (changes.foldl (OtaRunStore.stampIdentity identity)
        done).2.2.runs ∧
      (changes.foldl (OtaRunStore.stampIdentity identity)
        done).2.2.identities = done.2.2.identities ∧
      (changes.foldl (OtaRunStore.stampIdentity identity)
        done).2.2.file = done.2.2.file := by
  induction changes generalizing done with
  | nil => exact ⟨h, rfl, rfl⟩
  | cons change rest ih =>
      have hstep : Tidy Ordered ghost
            (OtaRunStore.stampIdentity identity done change).2.2.runs ∧
          (OtaRunStore.stampIdentity identity done change).2.2.identities =
            done.2.2.identities ∧
          (OtaRunStore.stampIdentity identity done change).2.2.file =
            done.2.2.file := by
        cases change with
        | available available => exact ⟨h, rfl, rfl⟩
        | poll status => exact ⟨h, rfl, rfl⟩
        | run run =>
            simp only [OtaRunStore.stampIdentity]
            split
            · exact ⟨h, rfl, rfl⟩
            · cases hget : done.2.2.runs.get? run.key with
              | none => exact ⟨h, rfl, rfl⟩
              | some held =>
                  have hsound := (h.sound _ _ hget).2
                  refine ⟨?_, ?_, rfl⟩
                  · exact h.change hget rfl rfl
                      (hsound.of_same rfl rfl rfl rfl rfl rfl)
                      fun _ _ => Ghost.Agrees.refl ghost _
                  · exact put_identities hget rfl rfl rfl rfl
      obtain ⟨htidy, hidentities, hfile⟩ := ih _ hstep.1
      exact ⟨htidy, hidentities.trans hstep.2.1, hfile.trans hstep.2.2⟩

theorem Kept.ingest (h : Kept Ordered ghost store) (event : OtaPollEvent)
    (identity : Option String) (now : Nat) (fresh : String)
    (htidy : Tidy Ordered
      (ghost.observe (store.reduce event now fresh).2.runs)
      (store.reduce event now fresh).2.runs) :
    Kept Ordered
      (ghost.observe (store.ingest event identity now fresh).2.runs)
      (store.ingest event identity now fresh).2 := by
  have hinner := h.ingestInner event now fresh htidy
  cases identity with
  | none => exact hinner
  | some identity =>
      obtain ⟨hstamped, hidentities, hfile⟩ := stampIdentity_tidy identity
        (store.ingestInner event now fresh).1
        ([], false, (store.ingestInner event now fresh).2) hinner.memory
      have hghost := landedIds_congr hidentities
      simp only [OtaRunStore.ingest]
      split
      · rw [persist_runs, Ghost.observe, hghost]
        exact hstamped.persist now
      · rw [Ghost.observe, hghost]
        exact hinner.of_runs hstamped hfile

theorem Kept.interrupt (h : Kept Ordered ghost store) (deviceId : String)
    (now : Nat) : Kept Ordered ghost (store.interrupt deviceId now).2 := by
  have hloop : ∀ (lanes : List OtaLane) (done : List OtaRun × OtaRunStore),
      Kept Ordered ghost done.2 → Kept Ordered ghost
        (lanes.foldl (OtaRunStore.interruptLane deviceId) done).2 := by
    intro lanes
    induction lanes with
    | nil => exact fun done hdone => hdone
    | cons lane rest ih =>
        intro done hdone
        apply ih
        simp only [OtaRunStore.interruptLane]
        cases hrun : done.2.run deviceId lane with
        | none => exact hdone
        | some run =>
            simp only
            split
            · exact hdone
            · have hsound := (hdone.memory.sound _ _ hrun).2.strand
              have hsame : (strand run).key = run.key ∧
                  (strand run).runId = run.runId := by
                unfold strand
                split <;> exact ⟨rfl, rfl⟩
              have hput := hdone.memory.change hrun hsame.1 hsame.2 hsound
                fun _ _ => Ghost.Agrees.refl ghost _
              exact ⟨hput, hdone.disk⟩
  have hdone := hloop OtaLane.ALL ([], store) h
  simp only [OtaRunStore.interrupt]
  split
  · exact hdone
  · exact hdone.memory.persist now

theorem Kept.dismiss (h : Kept Ordered ghost store) (deviceId : String)
    (lane : OtaLane) (now : Nat) :
    Kept Ordered ghost (store.dismiss deviceId lane now).2 := by
  simp only [OtaRunStore.dismiss]
  split
  · exact h
  · split
    · exact h
    · apply Tidy.persist
      exact h.memory.remove (deviceId, lane)

theorem Kept.annotateWebapp (h : Kept Ordered ghost store)
    (deviceId : String) (webappId webappName : Option String) (now : Nat) :
    Kept Ordered ghost
      (store.annotateWebapp deviceId webappId webappName now).2 := by
  simp only [OtaRunStore.annotateWebapp]
  cases hrun : store.run deviceId .webapp with
  | none => exact h
  | some run =>
      have hsound := (h.memory.sound _ _ hrun).2
      apply Tidy.persist
      exact h.memory.change hrun rfl rfl
        (hsound.of_same rfl rfl rfl rfl rfl rfl)
        fun _ _ => Ghost.Agrees.refl ghost _

end Operations

section Histories

variable {Ordered : Prop} {uuid : Nat → String} {world : World}

def World.ghost (uuid : Nat → String) (world : World) : Ghost where
  handed := {id | id ∈ world.handed.map Handover.runId}
  landed := {id | id ∈ world.landed}
  known := {id | ∃ drawn < world.minted, uuid drawn = id}

/-- The invariant of a history. -/
structure Inv (Ordered : Prop) (uuid : Nat → String) (world : World) :
    Prop where
  kept : Kept Ordered (world.ghost uuid) world.store
  handed : (world.ghost uuid).handed ⊆ (world.ghost uuid).known
  landed : (world.ghost uuid).landed ⊆ (world.ghost uuid).known
  once : (world.handed.map Handover.runId).Nodup
  clean : Ordered → ∀ handover ∈ world.handed, handover.landed = false

theorem World.ghost_observe (uuid : Nat → String) (world : World) :
    world.observe.ghost uuid = (world.ghost uuid).observe world.store.runs := by
  simp only [World.ghost, World.observe, Ghost.observe, Ghost.mk.injEq,
    true_and, and_true]
  ext id
  simp

theorem Kept.landed_known {ghost : Ghost} {store : OtaRunStore}
    (h : Kept Ordered (ghost.observe store.runs) store)
    (hlanded : ghost.landed ⊆ ghost.known) :
    (ghost.observe store.runs).landed ⊆ ghost.known := by
  rintro id (hold | hnew)
  · exact hlanded hold
  · obtain ⟨key, run, hget, _, rfl⟩ := h.memory.mem_landedIds.mp hnew
    exact (h.memory.sound key run hget).2.known

/-- An operation that hands nothing over keeps the invariant, once its store is
kept under what it shows. -/
theorem Inv.of_kept (h : Inv Ordered uuid world) (next : World)
    (hhanded : next.handed = world.handed)
    (hlanded : next.landed = world.landed)
    (hminted : world.minted ≤ next.minted)
    (hkept : Kept Ordered ((next.ghost uuid).observe next.store.runs)
      next.store) : Inv Ordered uuid next.observe := by
  have hknown : (world.ghost uuid).known ⊆ (next.ghost uuid).known := by
    rintro id ⟨drawn, hdrawn, rfl⟩
    exact ⟨drawn, Nat.lt_of_lt_of_le hdrawn hminted, rfl⟩
  have hbefore : (next.ghost uuid).landed ⊆ (next.ghost uuid).known := by
    intro id hid
    exact hknown (h.landed (by simpa [World.ghost, hlanded] using hid))
  refine ⟨?_, ?_, ?_, ?_, ?_⟩
  · rw [World.ghost_observe]
    exact hkept
  · rw [World.ghost_observe]
    intro id hid
    exact hknown (h.handed (by
      simpa [World.ghost, Ghost.observe, hhanded] using hid))
  · rw [World.ghost_observe]
    exact hkept.landed_known hbefore
  · simpa [World.observe, hhanded] using h.once
  · simpa [World.observe, hhanded] using h.clean

theorem Inv.of_same_ghost (h : Inv Ordered uuid world) {store : OtaRunStore}
    (hkept : Kept Ordered (world.ghost uuid) store) :
    Inv Ordered uuid (World.observe { world with store := store }) := by
  apply h.of_kept { world with store := store } rfl rfl (Nat.le_refl _)
  have hghost := hkept.memory.observe_eq_self
  exact hghost.symm ▸ hkept

theorem Inv.ingest (h : Inv Ordered uuid world)
    (huuid : Function.Injective uuid) (event : OtaPollEvent)
    (identity : Option String) (now : Nat)
    (horder : Ordered →
      (Op.ingest event identity now).KeepsOrder world.store) :
    Inv Ordered uuid
      (world.step uuid (.ingest event identity now)) := by
  have hfresh : uuid world.minted ∉ (world.ghost uuid).known := by
    rintro ⟨drawn, hdrawn, hsame⟩
    exact Nat.ne_of_lt hdrawn (huuid hsame)
  have hagrees : ∀ id ∈ (world.ghost uuid).known,
      (world.ghost uuid).Agrees
        (World.ghost uuid { world with minted := world.minted + 1 }) id := by
    intro id _
    refine ⟨fun h => h, fun h => h, fun _ h => h, ?_⟩
    rintro other ⟨drawn, hdrawn, hother⟩
    exact ⟨drawn, Nat.lt_succ_of_lt hdrawn, hother⟩
  have hkept : Kept Ordered
      (World.ghost uuid { world with minted := world.minted + 1 })
      world.store :=
    ⟨h.kept.memory.agrees hagrees,
      fun held hheld => (h.kept.disk held hheld).agrees hagrees⟩
  have hreduced := reduce_tidy event now (uuid world.minted) hkept.memory
    ⟨world.minted, Nat.lt_succ_self _, rfl⟩
    (fun hmem => hfresh (h.handed hmem)) (fun hmem => hfresh (h.landed hmem))
    (by
      intro key run hget hsame
      apply hfresh
      rw [← hsame]
      exact (h.kept.memory.sound key run hget).2.known)
    (by
      intro hordered
      cases event <;> exact horder hordered)
  apply h.of_kept { world with
    store := (world.store.ingest event identity now (uuid world.minted)).2
    minted := world.minted + 1 } rfl rfl (Nat.le_succ _)
  exact hkept.ingest event identity now (uuid world.minted) hreduced

theorem takeResume_cases (store : OtaRunStore) (deviceId : String)
    (now : Nat) :
    store.takeResume deviceId now = (none, store) ∨
      ∃ run, store.run deviceId .firmware = some run ∧
        run.resumable = true ∧
        store.takeResume deviceId now =
          (resumeOf run, OtaRunStore.persist { store with
            runs := store.runs.put (deviceId, .firmware)
              { run with resumable := false } } now) := by
  simp only [OtaRunStore.takeResume]
  cases hrun : store.run deviceId .firmware with
  | none => exact Or.inl rfl
  | some run =>
      by_cases hresumable : run.resumable = true
      · refine Or.inr ⟨run, rfl, hresumable, ?_⟩
        simp only [hresumable, not_true_eq_false, ↓reduceIte]
        rfl
      · exact Or.inl (by simp [hresumable])

/-- A resume taken is the run's first, and clears its marker for good. -/
theorem Inv.takeResume (h : Inv Ordered uuid world) (deviceId : String)
    (now : Nat) :
    Inv Ordered uuid (world.step uuid (.takeResume deviceId now)) := by
  simp only [World.step, World.handOver]
  rcases takeResume_cases world.store deviceId now with
    hnone | ⟨run, hrun, hresumable, htake⟩
  · rw [hnone]
    exact h.of_same_ghost h.kept
  rw [htake, hrun]
  obtain ⟨hkey, hsound⟩ := h.kept.memory.sound _ _ hrun
  have hclosed := hsound.closed hresumable
  cases hresume : resumeOf run with
  | none =>
      apply h.of_same_ghost
      apply Tidy.persist
      refine h.kept.memory.change hrun rfl rfl ?_
        fun _ _ => Ghost.Agrees.refl _ _
      exact Sound.of_closed hclosed rfl hsound.observed hsound.known
  | some resume =>
      have hfirst : run.runId ∉ world.handed.map Handover.runId := by
        intro hmem
        have := (hsound.handed hmem).2
        rw [hresumable] at this
        exact absurd this (by decide)
      have hghost : ∀ handover : Handover, handover.runId = run.runId →
          ∀ store : OtaRunStore,
            World.ghost uuid { world with
              store := store
              handed := world.handed ++ [handover] } =
            { world.ghost uuid with
              handed := (world.ghost uuid).handed ∪ {run.runId} } := by
        intro handover hid store
        simp only [World.ghost, Ghost.mk.injEq, and_true]
        ext id
        simp [hid, or_comm]
      have hkept : Kept Ordered
          { world.ghost uuid with
            handed := (world.ghost uuid).handed ∪ {run.runId} }
          (OtaRunStore.persist { world.store with
            runs := world.store.runs.put (deviceId, .firmware)
              { run with resumable := false } } now) := by
        apply Tidy.persist
        refine h.kept.memory.change hrun rfl rfl ?_ ?_
        · exact Sound.of_closed hclosed rfl hsound.observed hsound.known
        · intro id hother
          refine ⟨fun hmem => ?_, fun hmem => hmem, fun _ hmem => hmem,
            fun _ hmem => hmem⟩
          rcases hmem with hold | hself
          · exact hold
          · exact absurd hself hother
      have hlanded := hkept.memory.observe_eq_self
      refine ⟨?_, ?_, ?_, ?_, ?_⟩
      · rw [World.ghost_observe, hghost _ rfl, hlanded]
        exact hkept
      · rw [World.ghost_observe, hghost _ rfl, hlanded]
        rintro id (hold | rfl)
        · exact h.handed hold
        · exact hsound.known
      · rw [World.ghost_observe, hghost _ rfl, hlanded]
        exact h.landed
      · simp only [World.observe, List.map_append, List.map_cons,
          List.map_nil]
        refine List.nodup_append.mpr ⟨h.once, List.nodup_singleton _, ?_⟩
        intro left hleft right hright
        rw [List.mem_singleton.mp hright]
        rintro rfl
        exact hfirst hleft
      · intro hordered handover hmem
        rcases List.mem_append.mp hmem with hold | hnew
        · exact h.clean hordered handover hold
        · rw [List.mem_singleton.mp hnew]
          apply decide_eq_false
          intro hlanded
          have hlane : run.lane = .firmware := congrArg Prod.snd hkey
          have := (hsound.kept hordered hlanded hlane
            (by rw [hresume]; rfl)).1
          rw [hresumable] at this
          exact absurd this (by decide)

theorem Inv.step (h : Inv Ordered uuid world)
    (huuid : Function.Injective uuid) (op : Op)
    (horder : Ordered → op.KeepsOrder world.store) :
    Inv Ordered uuid (world.step uuid op) := by
  cases op with
  | ingest event identity now => exact h.ingest huuid event identity now horder
  | interrupt deviceId now =>
      exact h.of_same_ghost (h.kept.interrupt deviceId now)
  | takeResume deviceId now => exact h.takeResume deviceId now
  | dismiss deviceId lane now =>
      exact h.of_same_ghost (h.kept.dismiss deviceId lane now)
  | annotateWebapp deviceId webappId webappName now =>
      exact h.of_same_ghost
        (h.kept.annotateWebapp deviceId webappId webappName now)
  | restart => exact h.of_same_ghost h.kept.reload

theorem inv_fresh (Ordered : Prop) (uuid : Nat → String) (dataDir : Bool) :
    Inv Ordered uuid (World.fresh dataDir) := by
  have hempty : Tidy Ordered ((World.fresh dataDir).ghost uuid) [] :=
    ⟨List.nodup_nil, fun _ _ hget => by simp at hget,
      fun _ _ _ _ hget => by simp at hget⟩
  refine ⟨?_, ?_, ?_, List.nodup_nil, fun _ _ hmem => by
    simp [World.fresh] at hmem⟩
  · cases dataDir with
    | false => exact ⟨hempty, fun _ hheld => by
        simp [World.fresh, OtaRunStore.new] at hheld⟩
    | true => exact ⟨hempty, fun _ hheld => by
        simp [World.fresh, OtaRunStore.new] at hheld⟩
  · intro id hid
    simp [World.ghost, World.fresh] at hid
  · intro id hid
    simp [World.ghost, World.fresh] at hid

/-- One operation of a history in which progress keeps its order. -/
def World.OrderedStep (uuid : Nat → String) (world : World) (op : Op)
    (next : World) : Prop :=
  op.KeepsOrder world.store ∧ next = world.step uuid op

/-- In every history of a store and its restarts, no run's resume is handed
over twice; and in every history whose progress keeps its order, none is handed
over whose run had landed. -/
theorem resume_once (uuid : Nat → String) (huuid : Function.Injective uuid)
    (dataDir : Bool) :
    (∀ ops : List Op,
      ((ops.foldl (World.step uuid) (World.fresh dataDir)).handed.map
        Handover.runId).Nodup) ∧
    (∀ (ops : List Op) (world : World),
      Run (World.OrderedStep uuid) (World.fresh dataDir) ops world →
        ∀ handover ∈ world.handed, handover.landed = false) := by
  constructor
  · intro ops
    have hrun := Run.foldl (World.step uuid) (fun _ => True)
      (World.fresh dataDir) ops (fun _ _ => trivial)
    have hinv : Inv False uuid
        (ops.foldl (World.step uuid) (World.fresh dataDir)) := by
      apply hrun.invariant _ (inv_fresh False uuid dataDir)
      rintro world next op hinv ⟨_, rfl⟩
      exact hinv.step huuid op False.elim
    exact hinv.once
  · intro ops world hrun
    have hinv : Inv True uuid world := by
      apply hrun.invariant _ (inv_fresh True uuid dataDir)
      rintro world next op hinv ⟨horder, rfl⟩
      exact hinv.step huuid op fun _ => horder
    exact hinv.clean trivial

/-- Ids of growing length, all different. -/
def unaryId (drawn : Nat) : String :=
  String.ofList (List.replicate drawn 'u')

theorem unaryId_injective : Function.Injective unaryId := by
  intro left right hsame
  have hlength := congrArg String.length hsame
  simpa [unaryId] using hlength

def plannedDaemon : OtaPollEvent :=
  .planned "AA:BB" .daemon "0.9.1" "0.9.1" "" "stable" "https://ota.test" []

/-- An interrupted run is handed over after a restart, for the first time. -/
theorem resume_once_interrupted :
    ([Op.ingest plannedDaemon none 0, .restart, .takeResume "AA:BB" 1,
        .restart, .takeResume "AA:BB" 2].foldl (World.step unaryId)
          (World.fresh true)).handed.all (fun handover => !handover.landed) =
      true := by
  have hrun : Run (World.OrderedStep unaryId) (World.fresh true)
      [Op.ingest plannedDaemon none 0, .restart, .takeResume "AA:BB" 1,
        .restart, .takeResume "AA:BB" 2] _ :=
    .cons ⟨trivial, rfl⟩ (.cons ⟨trivial, rfl⟩ (.cons ⟨trivial, rfl⟩
      (.cons ⟨trivial, rfl⟩ (.cons ⟨trivial, rfl⟩ (.nil _)))))
  have hclean := (resume_once unaryId unaryId_injective true).2 _ _ hrun
  rw [List.all_eq_true]
  intro handover hmem
  rw [hclean handover hmem]
  rfl

/-- A late progress of the drive moves the interrupted run to its reboot, and
its resume is handed over all the same. -/
theorem resume_after_reboot :
    ∃ handover ∈ ([Op.ingest plannedDaemon none 0, .interrupt "AA:BB" 1,
        .ingest (.progress "AA:BB" .daemon 0 (.applying .reboot 100)) none 2,
        .takeResume "AA:BB" 3].foldl
          (World.step unaryId) (World.fresh true)).handed,
      handover.landed = true :=
  ⟨⟨unaryId 0, true⟩, by decide, rfl⟩

end Histories

end Ota

end Bridgething
