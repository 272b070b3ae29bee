/-
When one update is driven per device, over every run of the service: the callers
that go on too late, and those that never go on.
-/
import Bridgething.Ota.Driving
import Bridgething.Ota.ResumeOnce

namespace Bridgething

namespace Ota

open Holding Service

namespace OtaService

variable {uuid : Nat → String} {now : Nat}

/-! ### What begins -/

/-- A device that comes to be driven is one whose restart is not awaited, or one
that is pushed to blindly. -/
theorem Moves.starts {service next : OtaService} {id : Nat}
    {Begins : String → Prop} (h : Moves service id Begins next)
    {deviceId : String} (hin : deviceId ∈ next.inFlight)
    (hbefore : deviceId ∉ service.inFlight) : Begins deviceId := by
  cases h with
  | stays _ _ hinFlight =>
      rw [hinFlight] at hin
      exact absurd hin hbefore
  | begins begun _ hbegins _ _ hinFlight =>
      rw [hinFlight] at hin
      rcases Finset.mem_insert.mp hin with rfl | hmem
      · exact hbegins
      · exact absurd hmem hbefore

theorem finish_inFlight (service : OtaService) (id : Nat) (deviceId : String)
    (work : Work) (after : After) (terminal : Terminal)
    (installed : Option String) :
    (service.finish uuid now id deviceId work after terminal
      installed).inFlight = service.inFlight.erase deviceId := by
  have hgone : ∀ ended : OtaService,
      (ended.goOn id after).inFlight = ended.inFlight := by
    intro ended
    cases @moves_goOn ended id (fun _ => False) after with
    | stays _ _ hinFlight => exact hinFlight
    | begins _ _ hfalse => exact hfalse.elim
  unfold finish
  dsimp only
  rw [hgone, (quiet_unlabel _ _ _).inFlight,
    (ended_endInFlight _ _).inFlight, (restarts_report _ _ _ _ _).inFlight]

theorem drive_inFlight (service : OtaService) (id : Nat) (deviceId : String)
    (work : Work) (after : After) (answer : Answer) :
    (service.resume uuid now id (.driving deviceId work after)
      answer).inFlight ⊆ service.inFlight := by
  have hfinish : ∀ terminal installed, (service.finish uuid now id deviceId
      work after terminal installed).inFlight ⊆ service.inFlight := by
    intro terminal installed
    rw [finish_inFlight]
    exact Finset.erase_subset _ _
  cases answer with
  | opened =>
      simp only [resume, openLink]
      split
      · exact Finset.Subset.refl _
      · exact Finset.Subset.refl _
  | ended terminal installed =>
      cases terminal with
      | failed reason => exact hfinish _ _
      | completed =>
          simp only [resume]
          split
          · exact Finset.Subset.refl _
          · exact hfinish _ _
      | staged =>
          simp only [resume]
          split
          · exact Finset.Subset.refl _
          · exact hfinish _ _
  | _ => exact Finset.Subset.refl _

theorem recordMeta_inFlight (service : OtaService) (deviceId : String)
    (announced : BridgeThingMeta) :
    (service.recordMeta uuid now deviceId announced).inFlight =
      service.inFlight := by
  have hknown := (quiet_identify service deviceId announced).inFlight
  unfold recordMeta
  dsimp only
  split
  · exact hknown
  · unfold recordOn
    dsimp only
    split
    · exact hknown
    · split
      · exact (quiet_settleRestart _ _ _ _).inFlight.trans hknown
      · exact hknown

/-- Who begins to drive a device goes on from a wait. -/
theorem Guarded.starts {service : OtaService} (h : service.Guarded)
    {action : Nat × Action} {deviceId : String}
    (hin : deviceId ∈ (service.step uuid action).inFlight)
    (hbefore : deviceId ∉ service.inFlight) :
    (service.restarts.get? deviceId).isNone ∨
      ∃ id caller answer, action.2 = .resume id answer ∧
        service.callers.get? id = some caller ∧
        service.pushes action.1 caller answer = some deviceId := by
  obtain ⟨now, action⟩ := action
  have hspawned : Guarded { service with spawned := service.spawned + 1 } :=
    ⟨h.exclusive, h.awake, fun id hid => h.fresh id (Nat.le_of_succ_le hid)⟩
  cases action with
  | poll config => exact absurd hin hbefore
  | apply device channel version rootUrl =>
      exact (Moves.starts (moves_applyVersion device channel version rootUrl :
        Moves { service with spawned := service.spawned + 1 } _
          (fun _ => False) _) hin hbefore).elim
  | install device install =>
      exact Or.inl (Moves.starts (moves_takeTurn device install .ends id :
        Moves { service with spawned := service.spawned + 1 } _
          (fun device => (service.restarts.get? device).isNone = true) _)
        hin hbefore)
  | resume id answer =>
      cases hget : service.callers.get? id with
      | none =>
          simp only [step, hget] at hin
          exact absurd hin hbefore
      | some caller =>
          simp only [step, hget] at hin
          cases hdrives : caller.drives with
          | none =>
              have hstarts := (moves_resume h hget hdrives answer).starts hin
                hbefore
              exact hstarts.imp_right fun hpushes =>
                ⟨id, caller, answer, rfl, hget, hpushes⟩
          | some device =>
              cases caller with
              | driving device work after =>
                  exact absurd (drive_inFlight _ _ _ _ _ _ hin) hbefore
              | _ => exact absurd hdrives.symm (Option.some_ne_none _)
  | drop id => exact absurd hin hbefore
  | adopt device =>
      have hsame : (service.adopt now device).inFlight =
          service.inFlight := by
        unfold adopt
        dsimp only
        split
        · rfl
        · rfl
      rw [show service.step uuid (now, .adopt device) =
        service.adopt now device from rfl, hsame] at hin
      exact absurd hin hbefore
  | release device =>
      have hsame : (service.release now device).inFlight =
          service.inFlight := by
        unfold release
        split
        · rfl
        · rfl
      rw [show service.step uuid (now, .release device) =
        service.release now device from rfl, hsame] at hin
      exact absurd hin hbefore
  | announce device announced =>
      rw [show service.step uuid (now, .announce device announced) =
        service.recordMeta uuid now device announced from rfl,
        recordMeta_inFlight] at hin
      exact absurd hin hbefore
  | relaunch => exact absurd hin (Finset.notMem_empty _)

/-- A push to a device that nobody drives begins. -/
theorem pushes_begins {service : OtaService} {id : Nat} {caller : Caller}
    {answer : Answer} {deviceId : String}
    (hpushes : service.pushes now caller answer = some deviceId)
    (hfree : deviceId ∉ service.inFlight) :
    deviceId ∈ (service.resume uuid now id caller answer).inFlight := by
  have himage : ∀ (told : OtaService) channel rootUrl latest release after,
      told.inFlight = service.inFlight →
      deviceId ∈ (told.runImageAuto uuid now id deviceId channel rootUrl latest
        release after).inFlight := by
    intro told channel rootUrl latest release after hsame
    rw [← hsame] at hfree
    unfold runImageAuto
    rw [if_neg hfree]
    exact Finset.mem_insert_self _ _
  have hbatch : ∀ (told : OtaService) channel rootUrl pieces latest after,
      told.inFlight = service.inFlight → pieces.isEmpty = false →
      deviceId ∈ (told.runBandaidBatchAuto uuid now id deviceId channel rootUrl
        pieces latest after).inFlight := by
    intro told channel rootUrl pieces latest after hsame hpieces
    rw [← hsame] at hfree
    unfold runBandaidBatchAuto
    rw [if_neg (by simp [hpieces, hfree])]
    exact Finset.mem_insert_self _ _
  cases caller with
  | drifting device announced latest release poll =>
      cases answer with
      | webapps installed =>
          obtain ⟨hneeds, hsame⟩ := Option.ite_none_right_eq_some.mp hpushes
          rw [Bool.and_eq_true] at hneeds
          obtain ⟨hneeds, hready⟩ := hneeds
          rw [Option.some.inj hsame] at hready ⊢
          simp only [needs, Bool.or_eq_true, Bool.not_eq_true'] at hneeds
          simp only [resume, push]
          rw [if_neg (by
            rintro ⟨hstays, hempty⟩
            rcases hneeds with himage | hsome
            · exact hstays himage
            · rw [hsome] at hempty
              contradiction), if_neg (not_not.mpr (by exact hready))]
          split
          · exact himage _ _ _ _ _ _ rfl
          · rename_i hstays
            exact hbatch _ _ _ _ _ _ rfl (hneeds.resolve_left hstays)
      | _ => exact absurd hpushes.symm (Option.some_ne_none _)
  | applying device channel version rootUrl composite announced =>
      cases answer with
      | manifest found checkedAt =>
          obtain ⟨hneeds, hsame⟩ := Option.ite_none_right_eq_some.mp hpushes
          rw [Option.some.inj hsame]
          simp only [needs, Bool.or_eq_true, Bool.not_eq_true'] at hneeds
          simp only [resume, applied]
          split
          · exact himage _ _ _ _ _ _ rfl
          · rename_i hstays
            exact hbatch _ _ _ _ _ _ rfl (hneeds.resolve_left hstays)
      | _ => exact absurd hpushes.symm (Option.some_ne_none _)
  | _ => exact absurd hpushes.symm (Option.some_ne_none _)

end OtaService

/-- The service with the devices that came to be driven while their restart was
awaited. -/
structure Watch where
  service : OtaService
  rushed : Finset String := ∅

namespace Watch

variable (uuid : Nat → String)

def step (watch : Watch) (action : Nat × Action) : Watch where
  service := watch.service.step uuid action
  rushed := watch.rushed ∪
    ((watch.service.step uuid action).inFlight \
      watch.service.inFlight).filter fun deviceId =>
        (watch.service.restarts.get? deviceId).isSome

/-- One caller at most drives a device, none came to while its restart was
awaited, and a device that no caller drives is not marked; an install that has
its turn and finds its device neither marked nor restarting goes on to drive
it. -/
structure Orderly (watch : Watch) : Prop where
  exclusive :
    Exclusive Caller.drives watch.service.callers watch.service.inFlight
  unrushed : watch.rushed = ∅
  proceeds : ∀ id deviceId install notified after,
    watch.service.callers.get? id =
      some (.claiming deviceId install notified after) →
    watch.service.busy deviceId = false → ∀ now,
      ((watch.service.step uuid (now, .resume id .next)).callers.get? id).bind
        Caller.drives = some deviceId

/-- No caller is dropped while it drives a device; and none that waited for the
webapps of its device, or for the manifest, goes on to push an update to it
while its restart is awaited, unless another drives it. -/
def Careful (watch : Watch) : Nat × Action → Prop
  | (_, .drop id) => (watch.service.callers.get? id).bind Caller.drives = none
  | (now, .resume id answer) => ∀ caller deviceId,
      watch.service.callers.get? id = some caller →
      watch.service.pushes now caller answer = some deviceId →
        deviceId ∈ watch.service.inFlight ∨
          (watch.service.restarts.get? deviceId).isNone
  | _ => True

structure Inv (watch : Watch) : Prop where
  guarded : watch.service.Guarded
  unrushed : watch.rushed = ∅

variable {uuid}

theorem Inv.orderly {watch : Watch} (h : watch.Inv) : watch.Orderly uuid := by
  refine ⟨h.guarded.exclusive, h.unrushed,
    fun id deviceId install notified after hget hbusy now => ?_⟩
  cases notified with
  | false =>
      have hsleeps := h.guarded.awake id deviceId (by
        rw [hget]
        rfl)
      rw [hbusy] at hsleeps
      contradiction
  | true =>
      have hfree : ¬ ((watch.service.restarts.get? deviceId).isSome ∨
          deviceId ∈ watch.service.inFlight) := by
        simp only [OtaService.busy, Bool.or_eq_false_iff,
          decide_eq_false_iff_not] at hbusy
        rw [not_or, Bool.not_eq_true]
        exact hbusy.symm
      simp only [OtaService.step, hget, OtaService.resume,
        OtaService.claimDevice]
      rw [if_neg hfree]
      exact congrArg (fun caller => Option.bind caller Caller.drives)
        (Table.get?_put_self _ _ _)

theorem guarded_step {service : OtaService} (h : service.Guarded)
    {action : Nat × Action}
    (hdrop : ∀ id, action.2 = .drop id →
      (service.callers.get? id).bind Caller.drives = none) :
    (service.step uuid action).Guarded := by
  obtain ⟨now, action⟩ := action
  have hspawned : OtaService.Guarded { service with
      spawned := service.spawned + 1 } :=
    ⟨h.exclusive, h.awake, fun id hid => h.fresh id (Nat.le_of_succ_le hid)⟩
  have hnone : (service.callers.get? service.spawned).bind Caller.drives =
      none := by
    rw [h.fresh _ (Nat.le_refl _)]
    rfl
  cases action with
  | poll config => exact h.spawn rfl rfl
  | apply deviceId channel version rootUrl =>
      exact hspawned.moves (Nat.lt_succ_self _) hnone
        (OtaService.moves_applyVersion deviceId channel version rootUrl :
          OtaService.Moves { service with spawned := service.spawned + 1 } _
            (fun _ => False) _)
  | install deviceId install =>
      exact hspawned.moves (Nat.lt_succ_self _) hnone
        (OtaService.moves_takeTurn deviceId install .ends fun _ => trivial :
          OtaService.Moves { service with spawned := service.spawned + 1 } _
            (fun _ => True) _)
  | resume id answer =>
      cases hget : service.callers.get? id with
      | none =>
          simp only [OtaService.step, hget]
          exact h
      | some caller =>
          simp only [OtaService.step, hget]
          exact h.resume hget answer
  | drop id => exact h.leave (hdrop id rfl)
  | adopt deviceId =>
      simp only [OtaService.step, OtaService.adopt]
      split
      · apply OtaService.Guarded.spawn _ rfl rfl
        exact h.of_quiet ⟨rfl, rfl, rfl, rfl⟩
      · exact h.of_quiet ⟨rfl, rfl, rfl, rfl⟩
  | release deviceId =>
      simp only [OtaService.step, OtaService.release]
      split
      · exact h
      · exact h.of_quiet ⟨rfl, rfl, rfl, rfl⟩
  | announce deviceId announced => exact h.recordMeta deviceId announced
  | relaunch =>
      exact ⟨Exclusive.empty _, fun _ _ hsleeps => absurd hsleeps.symm (Option.some_ne_none _),
        fun _ _ => rfl⟩

theorem Inv.step {watch : Watch} {action : Nat × Action} (h : watch.Inv)
    (hcareful : watch.Careful action) : (watch.step uuid action).Inv := by
  constructor
  · apply guarded_step h.guarded
    rintro id hdrop
    obtain ⟨now, action⟩ := action
    subst hdrop
    exact hcareful
  · have hnone : ((watch.service.step uuid action).inFlight \
        watch.service.inFlight).filter (fun deviceId =>
          (watch.service.restarts.get? deviceId).isSome) = ∅ := by
      apply Finset.filter_eq_empty_iff.mpr
      intro deviceId hmem
      obtain ⟨hin, hbefore⟩ := Finset.mem_sdiff.mp hmem
      rw [Bool.not_eq_true, Option.isSome_eq_false_iff]
      rcases h.guarded.starts hin hbefore with hcalm | ⟨id, caller, answer,
        haction, hget, hpushes⟩
      · exact hcalm
      · obtain ⟨now, action⟩ := action
        subst haction
        exact (hcareful caller deviceId hget hpushes).resolve_left hbefore
    show watch.rushed ∪ _ = ∅
    rw [h.unrushed, hnone]
    rfl

theorem Inv.not_orderly {watch : Watch} {action : Nat × Action}
    (h : watch.Inv) (hcareless : ¬ watch.Careful action) :
    ¬ (watch.step uuid action).Orderly uuid := by
  obtain ⟨now, action⟩ := action
  cases action with
  | drop id =>
      obtain ⟨deviceId, hdrives⟩ := Option.ne_none_iff_exists'.mp hcareless
      intro horderly
      exact h.guarded.exclusive.leaked hdrives horderly.exclusive
  | resume id answer =>
      simp only [Careful, not_forall, not_or] at hcareless
      obtain ⟨caller, deviceId, hget, hpushes, hfree, hawaited⟩ := hcareless
      intro horderly
      rw [Option.isNone_iff_eq_none, ← ne_eq,
        ← Option.isSome_iff_ne_none] at hawaited
      have hin : deviceId ∈
          (watch.service.step uuid (now, .resume id answer)).inFlight := by
        simp only [OtaService.step, hget]
        exact OtaService.pushes_begins hpushes hfree
      have hmem : deviceId ∈ (watch.step uuid (now, .resume id answer)).rushed :=
        Finset.mem_union_right _ (Finset.mem_filter.mpr
          ⟨Finset.mem_sdiff.mpr ⟨hin, hfree⟩, hawaited⟩)
      rw [horderly.unrushed] at hmem
      exact Finset.notMem_empty _ hmem
  | _ => exact absurd trivial hcareless

theorem inv_new (file : Option (Option PersistedRuns)) :
    Inv { service := .new file } where
  guarded := ⟨Exclusive.empty _, fun _ _ hsleeps => absurd hsleeps.symm (Option.some_ne_none _),
    fun _ _ => rfl⟩
  unrushed := rfl

/-- One update is driven per device, none begins amid a restart, and no mark
stays behind, if and only if no caller is dropped amid its drive and none pushes
after a wait to a device that is to restart. -/
theorem orderly_iff_careful (uuid : Nat → String)
    (file : Option (Option PersistedRuns)) (actions : List (Nat × Action)) :
    (∀ count ≤ actions.length, (Transition.reached (Watch.step uuid)
      { service := .new file } actions count).Orderly uuid) ↔
    ∀ count action, actions[count]? = some action → (Transition.reached
      (Watch.step uuid) { service := .new file } actions count).Careful action :=
  Transition.reached_iff (inv_new file) Inv.orderly Inv.step Inv.not_orderly
    actions

/-- Two calls for a version, of which the first has its manifest when the second
has updated the device, which is to restart. -/
def askedTwice : List (Nat × Action) :=
  let device : BridgeThingMeta := ⟨"serial", "1.0", "1.0", "stable", none⟩
  let asked : Action := .apply "car" "stable" "2.0+image.1.0" "https://ota.test"
  let manifest : Answer := .manifest (.error "offline") ""
  [(0, .adopt "car"), (1, .announce "car" device), (2, asked), (3, asked),
    (4, .resume 1 manifest), (5, .resume 1 .opened),
    (6, .resume 1 (.told (.applying .reboot 100))),
    (7, .resume 1 (.ended .completed none)), (8, .resume 0 manifest)]

example : "car" ∈ (Transition.reached (Watch.step unaryId)
    { service := .new none } askedTwice 9).rushed := by decide +kernel

/-- An install whose caller gives up while the bundle is sent. -/
def abandonedInstall : List (Nat × Action) :=
  [(0, .adopt "car"), (1, .install "car" ⟨none, 1024⟩), (2, .resume 0 .opened),
    (3, .drop 0)]

/-- The device stays marked, and every install after it waits. -/
theorem abandonedInstall_not_orderly :
    ¬ ∀ (uuid : Nat → String) (file : Option (Option PersistedRuns))
      (actions : List (Nat × Action)), ∀ count ≤ actions.length,
        (Transition.reached (Watch.step uuid) { service := .new file } actions
          count).Orderly uuid := by
  intro hall
  have hexclusive := (hall unaryId none abandonedInstall 4 (by decide)).exclusive
  have hmarked : "car" ∈ (Transition.reached (Watch.step unaryId)
      { service := .new none } abandonedInstall 4).service.inFlight := by
    decide +kernel
  have hnobody : (Transition.reached (Watch.step unaryId)
      { service := .new none } abandonedInstall 4).service.callers = [] :=
    List.isEmpty_iff.mp (by decide +kernel)
  obtain ⟨id, hdrives⟩ := hexclusive.held hmarked
  rw [hnobody] at hdrives
  contradiction

end Watch

end Ota

end Bridgething
