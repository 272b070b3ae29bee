/-
A run without an outcome is somebody's: of who drives its device, or of the
restart that is awaited.
-/
import Bridgething.Ota.Verdicts

namespace Bridgething

namespace Ota

open Service OtaService Hearing

namespace OtaService

/-- Of a device that nobody updates, only the run whose restart is awaited has
no outcome. -/
def Accounted (service : OtaService) : Prop :=
  ∀ deviceId, deviceId ∉ service.inFlight → ∀ lane run,
    service.store.run deviceId lane = some run → run.outcome = none →
      ∃ target, service.restarts.get? deviceId = some target ∧
        target.runId = run.runId

/-- A process starts over a file of which, once it is loaded, no run is open but
those whose restart it awaits. -/
def Reopens (service : OtaService) : Nat × Action → Prop
  | (_, .relaunch) => ∀ key run,
      (OtaRunStore.new service.store.file).runs.get? key = some run →
        run.outcome = none → (RestartTarget.awaitedBy run).isSome
  | _ => True

structure Accounts (uuid : Nat → String) (service : OtaService) : Prop where
  storied : Storied uuid service.store service.minted
  accounted : service.Accounted

section Accounting

variable {uuid : Nat → String} {service next : OtaService}

theorem Accounts.same (h : service.Accounts uuid)
    (hstore : next.store = service.store)
    (hinFlight : next.inFlight = service.inFlight)
    (hrestarts : next.restarts = service.restarts)
    (hminted : next.minted = service.minted) : next.Accounts uuid where
  storied := hstore ▸ hminted ▸ h.storied
  accounted := by
    unfold Accounted
    rw [hinFlight, hrestarts, hstore]
    exact h.accounted

theorem Accounts.leads (h : service.Accounts uuid) {Wins : RunKey → Prop}
    (hleads : service.Leads uuid Wins next) : next.Accounts uuid where
  storied := hleads.storied
  accounted deviceId hfree lane run hrun hopen := by
    rw [hleads.quiet.inFlight] at hfree
    rw [hleads.quiet.restarts]
    obtain ⟨old, hold, hfollows, holdOpen⟩ :=
      (hleads.follow.runs _ run hrun).opened hopen
    rw [hfollows.runId]
    exact h.accounted deviceId hfree lane old hold holdOpen

section Steps

variable (huuid : Function.Injective uuid) (now : Nat) {deviceId : String}

include huuid

/-- The device of an update that begins is in flight. -/
theorem Accounts.begins (h : service.Accounts uuid) {id : Nat}
    {planned : OtaPollEvent} {work : Work} (after : After)
    (hbegins : work.Begins deviceId planned) :
    (service.beginRun uuid now id deviceId planned work after).Accounts
      uuid := by
  obtain ⟨opened, -, -, -, -, hstoried, hfollow⟩ :=
    begun huuid h.storied hbegins after
  refine ⟨hstoried, fun device hfree lane run hrun hopen => ?_⟩
  have hne : device ≠ deviceId := fun hsame =>
    hfree (hsame ▸ Finset.mem_insert_self _ _)
  obtain ⟨old, hold, hfollows, holdOpen⟩ :=
    (hfollow.runs _ run hrun).opened hopen
  rw [Table.get?_put_of_ne _ _ fun hsame => hne (congrArg Prod.fst hsame)]
    at hold
  rw [hfollows.runId]
  exact h.accounted device
    (fun hmem => hfree (Finset.mem_insert_of_mem hmem)) lane old hold holdOpen

theorem Accounts.advance (h : service.Accounts uuid) {id : Nat}
    (hadvance : Advance uuid service id next) : next.Accounts uuid := by
  cases hadvance with
  | rests hleads => exact h.leads hleads
  | waits mid caller hleads _ hnext =>
      exact hnext ▸ (h.leads hleads).same rfl rfl rfl rfl
  | leaves mid hleads hnext =>
      exact hnext ▸ (h.leads hleads).same rfl rfl rfl rfl
  | begins mid now deviceId planned work after hleads _ _ hbegins hnext =>
      exact hnext ▸ (h.leads hleads).begins huuid now after hbegins

/-- A drive ends while its device is in flight. -/
theorem Accounts.reports (h : service.Accounts uuid)
    (hin : deviceId ∈ service.inFlight) (work : Work) (terminal : Terminal)
    (installed : Option String) :
    (service.report uuid now deviceId work terminal installed).Accounts
      uuid := by
  have hawaits : ∀ target,
      (service.awaitRestart uuid now deviceId target).Accounts uuid := by
    intro target
    unfold awaitRestart
    dsimp only
    split
    · exact h.leads (leads_settleRestart huuid now h.storied deviceId target _)
    · refine ⟨h.storied, fun device hfree lane run hrun hopen => ?_⟩
      obtain ⟨asked, hget, hid⟩ := h.accounted device hfree lane run hrun hopen
      refine ⟨asked, (Table.get?_put_of_ne _ _ ?_).trans hget, hid⟩
      rintro rfl
      exact hfree hin
  have hconcluded : ∀ pieces landed, (service.conclude uuid now deviceId
      work.kind pieces landed).2.Accounts uuid := by
    intro pieces landed
    unfold conclude
    dsimp only
    split
    · exact h.leads (leads_fail huuid now h.storied _ _ _)
    · split
      · exact hawaits _
      · exact h.leads (leads_succeed huuid now h.storied deviceId pieces)
  unfold report
  dsimp only
  split
  · exact hconcluded _ _
  · split
    · exact hconcluded _ _
    · exact (hconcluded _ _).leads
        (leads_noteAutoPushResult now (hconcluded _ _).storied deviceId _)

/-- Whatever of its runs was told of nothing and waits for nothing, fails. -/
theorem Accounts.fails (h : service.Accounts uuid)
    (hstore : next.store = service.store)
    (hinFlight : next.inFlight = service.inFlight.erase deviceId)
    (hrestarts : next.restarts = service.restarts)
    (hminted : next.minted = service.minted) :
    ((next.abandoned deviceId).foldl (fun service kind =>
      service.fail uuid now deviceId kind ABANDONED_REASON) next).Accounts
        uuid := by
  have hstoried : Storied uuid next.store next.minted :=
    hstore ▸ hminted ▸ h.storied
  have hleads := leads_fails huuid now hstoried deviceId ABANDONED_REASON
    (next.abandoned deviceId)
  refine ⟨hleads.storied, fun device hfree lane run hrun hopen => ?_⟩
  obtain ⟨old, hold, hfollows, holdOpen⟩ :=
    (hleads.follow.runs _ run hrun).opened hopen
  rw [hleads.quiet.inFlight, hinFlight] at hfree
  rw [hleads.quiet.restarts, hfollows.runId]
  by_cases hdevice : device = deviceId
  · by_contra hnone
    subst hdevice
    have hlane : OtaLane.of old.kind = lane :=
      congrArg Prod.snd (hstoried.key hold)
    have hkind : old.kind ∈ next.abandoned device := by
      refine List.mem_map.mpr ⟨old, List.mem_filter.mpr
        ⟨List.mem_filterMap.mpr ⟨lane, by cases lane <;> decide, hold⟩, ?_⟩,
        rfl⟩
      simp only [holdOpen, Option.isNone_none, Bool.true_and,
        decide_eq_true_eq]
      intro hsame
      obtain ⟨target, hget, hid⟩ := Option.map_eq_some_iff.mp hsame.symm
      exact hnone ⟨target, hget, hid⟩
    rw [← hlane] at hrun
    have hclosed := closed_fails huuid now hstoried hkind hrun
    rw [hopen] at hclosed
    contradiction
  · rw [hrestarts]
    exact h.accounted device
      (fun hmem => hfree (Finset.mem_erase.mpr ⟨hdevice, hmem⟩)) lane old
      (hstore ▸ hold) holdOpen

/-- The device comes back, and the run whose restart was awaited is closed. -/
theorem Accounts.settles (h : service.Accounts uuid) {target : RestartTarget}
    (hget : service.restarts.get? deviceId = some target)
    (htold : ∃ piece ∈ target.pieces,
      OtaLane.of piece.1 = OtaLane.of target.kind)
    (hlane : ∀ lane run, service.store.run deviceId lane = some run →
      run.runId = target.runId → lane = .of target.kind)
    (hstore : next.store = service.store)
    (hinFlight : next.inFlight = service.inFlight)
    (hrestarts : next.restarts = service.restarts.remove deviceId)
    (hminted : next.minted = service.minted) (announced : BridgeThingMeta) :
    (next.settleRestart uuid now deviceId target announced).Accounts uuid := by
  have hstoried : Storied uuid next.store next.minted :=
    hstore ▸ hminted ▸ h.storied
  have hleads := leads_settleRestart huuid now hstoried deviceId target
    announced
  refine ⟨hleads.storied, fun device hfree lane run hrun hopen => ?_⟩
  obtain ⟨old, hold, hfollows, holdOpen⟩ :=
    (hleads.follow.runs _ run hrun).opened hopen
  rw [hleads.quiet.inFlight, hinFlight] at hfree
  rw [hleads.quiet.restarts, hrestarts, hfollows.runId]
  obtain ⟨asked, hasked, hid⟩ :=
    h.accounted device hfree lane old (hstore ▸ hold) holdOpen
  by_cases hdevice : device = deviceId
  · subst hdevice
    rw [hget, Option.some.injEq] at hasked
    subst hasked
    obtain rfl := hlane lane old (hstore ▸ hold) hid.symm
    have hclosed := closed_settleRestart huuid now hstoried
      ⟨old, hold, hid.symm⟩ htold announced hrun
    rw [hopen] at hclosed
    contradiction
  · exact ⟨asked, (Table.get?_remove_of_ne _ hdevice).trans hasked, hid⟩

theorem Accounts.finishes (h : service.Accounts uuid)
    (hin : deviceId ∈ service.inFlight) (id : Nat) (work : Work) (after : After)
    (terminal : Terminal) (installed : Option String) :
    (service.finish uuid now id deviceId work after terminal
      installed).Accounts uuid := by
  have hunlabelled : ∀ {ended : OtaService}, ended.Accounts uuid →
      (ended.unlabel deviceId work.kind).Accounts uuid := by
    intro ended hended
    apply hended.same
    all_goals
      unfold unlabel
      split <;> rfl
  have hended : ((service.report uuid now deviceId work terminal
      installed).endInFlight uuid now deviceId).Accounts uuid :=
    (h.reports huuid now hin work terminal installed).fails huuid now rfl rfl
      rfl rfl
  exact (hunlabelled hended).advance huuid
    (advance_goOn (hunlabelled hended).storied after)

/-- A caller whose device is in flight goes on. -/
theorem Accounts.drivesOn (h : service.Accounts uuid)
    (hin : deviceId ∈ service.inFlight) (id : Nat) (work : Work) (after : After)
    (answer : Answer) :
    (service.resume uuid now id (.driving deviceId work after)
      answer).Accounts uuid := by
  cases answer with
  | opened =>
      simp only [resume, openLink]
      split
      · exact h
      · exact h.same rfl rfl rfl rfl
  | told snapshot =>
      have hplans : ∀ stepId, (OtaPollEvent.progress deviceId work.kind stepId
          snapshot).plans = false := fun _ => rfl
      simp only [resume, progress]
      exact (h.leads (leads_emit huuid now h.storied (hplans _))).same rfl rfl
        rfl rfl
  | lost => exact h.leads (leads_interruptRun now h.storied deviceId)
  | ended terminal installed =>
      cases terminal with
      | failed reason => exact h.finishes huuid now hin id work after _ _
      | _ =>
          simp only [resume]
          split
          · exact h
          · exact h.finishes huuid now hin id work after _ _
  | _ => exact h

/-- A restart that is announced is that of a run that the device has. -/
theorem Accounts.recordsMeta (h : service.Accounts uuid)
    (hawaits : ∀ target, service.restarts.get? deviceId = some target →
      ∃ hearing : Hearing, hearing.service = service ∧
        hearing.Awaits uuid deviceId target) (announced : BridgeThingMeta) :
    (service.recordMeta uuid now deviceId announced).Accounts uuid := by
  have hstore : (service.identify deviceId announced).store = service.store ∧
      (service.identify deviceId announced).minted = service.minted := by
    unfold identify
    split <;> exact ⟨rfl, rfl⟩
  have hquiet := quiet_identify service deviceId announced
  have hknown := h.same hstore.1 hquiet.inFlight hquiet.restarts hstore.2
  unfold recordMeta
  dsimp only
  split
  · exact hknown
  · unfold recordOn
    dsimp only
    split
    · exact hknown.same rfl rfl rfl rfl
    · rename_i target hget
      split
      · rw [hquiet.restarts] at hget
        obtain ⟨hearing, rfl, hawaited⟩ := hawaits target hget
        obtain ⟨piece, hmem⟩ := List.exists_mem_of_ne_nil _ hawaited.told
        refine (h.settles huuid now hget ⟨piece, hmem, ?_⟩ ?_ ?_ ?_ ?_ ?_
          announced).same rfl rfl rfl rfl
        · rw [hawaited.firm piece hmem, lane_of_restarts hawaited.restarts]
        · intro lane run hrun hid
          exact congrArg Prod.snd (hawaited.run _ run hrun hid).1
        · exact hstore.1
        · exact hquiet.inFlight
        · exact congrArg (Table.remove · deviceId) hquiet.restarts
        · exact hstore.2
      · exact hknown.same rfl rfl rfl rfl

end Steps

/-- A restart that is awaited from the start is that of a run that is loaded. -/
theorem loaded_of_restarts {file : Option (Option PersistedRuns)}
    (hnodup : (OtaRunStore.new file).runs.keys.Nodup) {deviceId : String}
    {target : RestartTarget}
    (hget : (OtaService.new file).restarts.get? deviceId = some target) :
    ∃ key run, (OtaRunStore.new file).runs.get? key = some run ∧
      RestartTarget.awaitedBy run = some (deviceId, target) := by
  rcases Table.get?_foldl_put hget with hmem | hnone
  · obtain ⟨run, hrun, hawaited⟩ := List.mem_filterMap.mp hmem
    obtain ⟨key, hheld⟩ := (Table.mem_values hnodup).mp hrun
    exact ⟨key, run, hheld, hawaited⟩
  · contradiction

theorem Accounts.relaunches (h : service.Accounts uuid)
    (hopens : ∀ key run,
      (OtaRunStore.new service.store.file).runs.get? key = some run →
        run.outcome = none → (RestartTarget.awaitedBy run).isSome) :
    Accounts uuid { OtaService.new service.store.file with
      minted := service.minted } := by
  have hreload := h.storied.reload
  refine ⟨hreload, fun deviceId _ lane run hrun hopen => ?_⟩
  obtain ⟨⟨device, asked⟩, hawaited⟩ :=
    Option.isSome_iff_exists.mp (hopens _ run hrun hopen)
  obtain ⟨rfl, hrestarts, -⟩ := awaitedBy_eq_some hawaited
  have hkey : (run.deviceId, OtaLane.of run.kind) = (deviceId, lane) :=
    hreload.key hrun
  obtain ⟨rfl, rfl⟩ := Prod.mk.inj hkey
  have hentry := List.mem_filterMap.mpr ⟨run,
    (Table.mem_values hreload.nodup).mpr ⟨_, hrun⟩, hawaited⟩
  have hsome : ((OtaService.new service.store.file).restarts.get?
      run.deviceId).isSome :=
    Table.isSome_foldl_put (Or.inl (List.mem_map.mpr ⟨_, hentry, rfl⟩))
  obtain ⟨target, hget⟩ := Option.isSome_iff_exists.mp hsome
  refine ⟨target, hget, ?_⟩
  obtain ⟨key, other, hheld, hother⟩ := loaded_of_restarts hreload.nodup hget
  obtain ⟨hdevice, hfirm, -, htarget⟩ := awaitedBy_eq_some hother
  -- one lane restarts a device, so that there is one such run
  have hsame : key = (run.deviceId, .of run.kind) := by
    rw [← hreload.key hheld, lane_of_restarts hrestarts, ← hdevice,
      ← lane_of_restarts hfirm]
    rfl
  subst hsame
  have hrun : (OtaRunStore.new service.store.file).runs.get?
    (run.deviceId, .of run.kind) = some run := hrun
  rw [hrun, Option.some.injEq] at hheld
  rw [htarget, hheld]

theorem Accounts.step {hearing : Hearing}
    (h : hearing.service.Accounts uuid)
    (hinv : Hearing.Inv uuid (drivers hearing.service) hearing)
    (huuid : Function.Injective uuid) {action : Nat × Action}
    (hopens : hearing.service.Reopens action) :
    (hearing.service.step uuid action).Accounts uuid := by
  obtain ⟨now, action⟩ := action
  have hspawned : Accounts uuid { hearing.service with
    spawned := hearing.service.spawned + 1 } := h.same rfl rfl rfl rfl
  cases action with
  | poll config =>
      exact hspawned.advance huuid (advance_waits hspawned.storied rfl)
  | apply deviceId channel version rootUrl =>
      exact hspawned.advance huuid
        (advance_applyVersion huuid hspawned.storied _ _ _ _)
  | install deviceId install =>
      exact hspawned.advance huuid
        (advance_takeTurn hspawned.storied _ _ _)
  | resume id answer =>
      simp only [OtaService.step]
      cases hget : hearing.service.callers.get? id with
      | none => exact h
      | some caller =>
          cases hdrives : caller.drives with
          | none =>
              exact h.advance huuid
                (advance_resume huuid h.storied hdrives answer)
          | some deviceId =>
              cases caller with
              | driving deviceId work after =>
                  obtain ⟨runId, hdriven⟩ :=
                    hinv.drives id deviceId work ⟨after, hget⟩
                  exact h.drivesOn huuid now hdriven.marked id work after answer
              | _ => contradiction
  | drop id => exact h.same rfl rfl rfl rfl
  | adopt deviceId =>
      simp only [OtaService.step, adopt]
      split
      · exact h.same rfl rfl rfl rfl
      · exact h.same rfl rfl rfl rfl
  | release deviceId =>
      simp only [OtaService.step, release]
      split
      · exact h
      · apply Accounts.leads _ (leads_interruptRun now _ deviceId)
        · exact h.same rfl rfl rfl rfl
        · exact h.storied
  | announce deviceId announced =>
      exact h.recordsMeta huuid now
        (fun target hget => ⟨hearing, rfl, hinv.awaits deviceId target hget⟩)
        announced
  | relaunch => exact h.relaunches hopens

end Accounting

/-- In every run of the service with its relaunches, a run without an outcome is
one of a device in flight or the one whose restart is awaited, exactly if no
relaunch loads an open run that waits for no restart. -/
theorem accounted_iff_reopens (uuid : Nat → String)
    (huuid : Function.Injective uuid) (dataDir : Bool)
    (actions : List (Nat × Action)) :
    let start := (fresh dataDir).service
    (∀ count ≤ actions.length, (Transition.reached (OtaService.step uuid) start
      actions count).Accounted) ↔
      ∀ count action, actions[count]? = some action →
        (Transition.reached (OtaService.step uuid) start actions count).Reopens
          action := by
  dsimp only
  apply @Transition.reached_iff _ _ (OtaService.step uuid)
    (fun service => ∃ hearing : Hearing, hearing.service = service ∧
      Hearing.Inv uuid (drivers service) hearing ∧ service.Accounts uuid)
  · refine ⟨fresh dataDir, rfl, Hearing.inv_fresh uuid dataDir,
      storied_fresh uuid dataDir, fun deviceId _ lane run hrun => ?_⟩
    cases dataDir <;> contradiction
  · rintro _ ⟨_, -, -, h⟩
    exact h.accounted
  · rintro _ action ⟨hearing, rfl, hinv, h⟩ hopens
    exact ⟨hearing.step uuid action, rfl, hinv.step huuid action,
      h.step hinv huuid hopens⟩
  · rintro service ⟨now, action⟩ ⟨-, -, -, h⟩ hnot hheld
    cases action with
    | relaunch =>
        refine hnot fun key run hget hopen => ?_
        obtain ⟨target, htarget, hid⟩ :=
          hheld key.1 (Finset.notMem_empty _) key.2 run hget hopen
        obtain ⟨other, rival, hrival, hawaited⟩ :=
          loaded_of_restarts h.storied.reload.nodup htarget
        have hsame := (awaitedBy_eq_some hawaited).2.2.2
        rw [hsame] at hid
        obtain rfl := h.storied.reload.unique hrival hget hid
        rw [hrival, Option.some.injEq] at hget
        rw [← hget, hawaited]
        rfl
    | _ => exact hnot trivial

/-- A process that ends as the device confirms its image. -/
def confirmed : List (Nat × Action) :=
  imageAsked.take 5 ++
    [(5, .resume 0 (.told (.applying .confirming 100))), (6, .relaunch)]

/-- The next process waits for no restart of it, so that its run stays open. -/
theorem accounted_iff_reopens_confirmed :
    ¬ ∀ count ≤ confirmed.length, (Transition.reached (OtaService.step unaryId)
      (fresh true).service confirmed count).Accounted := by
  intro hall
  have hopens := (accounted_iff_reopens unaryId unaryId_injective true
    confirmed).mp hall 6 (6, .relaunch) rfl
  have hawaited := hopens ("car", .firmware) _ rfl rfl
  contradiction

theorem reached_heard {uuid : Nat → String} (huuid : Function.Injective uuid)
    (dataDir : Bool) (actions : List (Nat × Action)) (count : Nat) :
    ∃ hearing : Hearing, hearing.service = Transition.reached
        (OtaService.step uuid) (fresh dataDir).service actions count ∧
      Hearing.Inv uuid (drivers hearing.service) hearing := by
  refine Transition.reached_always (fun service => ∃ hearing : Hearing,
    hearing.service = service ∧
      Hearing.Inv uuid (drivers hearing.service) hearing)
    ⟨fresh dataDir, rfl, Hearing.inv_fresh uuid dataDir⟩ ?_ actions count
  rintro _ action ⟨hearing, rfl, h⟩
  exact ⟨hearing.step uuid action, rfl, h.step huuid action⟩

/-- In every run and over every relaunch, a run is held under its device and
lane, no two are of one id, and one that can be resumed has an outcome. -/
theorem runs_unique (uuid : Nat → String) (huuid : Function.Injective uuid)
    (dataDir : Bool) (actions : List (Nat × Action)) (count : Nat) :
    let runs := (Transition.reached (OtaService.step uuid)
      (fresh dataDir).service actions count).store.runs
    ∀ key run, runs.get? key = some run →
      run.key = key ∧ (run.resumable = true → run.outcome.isSome) ∧
        ∀ other rival, runs.get? other = some rival →
          run.runId = rival.runId → key = other := by
  dsimp only
  obtain ⟨hearing, hsame, hinv⟩ := reached_heard huuid dataDir actions count
  rw [← hsame]
  intro key run hget
  exact ⟨hinv.storied.key hget, hinv.storied.closed hget,
    fun other rival => hinv.storied.unique hget⟩

theorem runs_unique_image : ∃ run, (Transition.reached (OtaService.step unaryId)
    (fresh true).service imageAsked 10).store.runs.get? ("car", .firmware) =
      some run ∧ run.key = ("car", .firmware) :=
  ⟨_, rfl, (runs_unique unaryId unaryId_injective true imageAsked 10 _ _
    rfl).1⟩

end OtaService

end Ota

end Bridgething
