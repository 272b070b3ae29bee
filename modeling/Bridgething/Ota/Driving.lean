/-
Which caller drives which device: one at a time, none while a restart is
awaited, and no mark left behind.
-/
import Bridgething.Lib.Holding
import Bridgething.Lib.Transition
import Bridgething.Ota.Callers

namespace Bridgething

namespace Ota

open Holding Service

namespace Service

/-- The device that an install waits for, as long as nobody told it to look. -/
def Caller.sleepsFor : Caller → Option String
  | claiming deviceId _ false _ => some deviceId
  | _ => none

theorem Caller.drives_notify (caller : Caller) :
    caller.notify.drives = caller.drives := by
  cases caller <;> rfl

theorem Caller.sleepsFor_notify (caller : Caller) :
    caller.notify.sleepsFor = none := by
  cases caller <;> rfl

end Service

namespace OtaService

variable {uuid : Nat → String} {now : Nat}

/-! ### What leaves the callers and their devices alone -/

/-- Two services that differ at most in what is stored, scheduled and known of
the devices. -/
structure Quiet (service next : OtaService) : Prop where
  callers : next.callers = service.callers
  spawned : next.spawned = service.spawned
  inFlight : next.inFlight = service.inFlight
  restarts : next.restarts = service.restarts

theorem Quiet.refl (service : OtaService) : service.Quiet service :=
  ⟨rfl, rfl, rfl, rfl⟩

theorem Quiet.trans {first second third : OtaService}
    (h : first.Quiet second) (hnext : second.Quiet third) :
    first.Quiet third where
  callers := hnext.callers.trans h.callers
  spawned := hnext.spawned.trans h.spawned
  inFlight := hnext.inFlight.trans h.inFlight
  restarts := hnext.restarts.trans h.restarts

theorem quiet_emit (service : OtaService) (event : OtaPollEvent) :
    service.Quiet (service.emit uuid now event) := ⟨rfl, rfl, rfl, rfl⟩

theorem quiet_fail (service : OtaService) (deviceId : String) (kind : OtaKind)
    (reason : String) :
    service.Quiet (service.fail uuid now deviceId kind reason) :=
  ⟨rfl, rfl, rfl, rfl⟩

theorem quiet_succeed (service : OtaService) (deviceId : String)
    (pieces : List (OtaKind × String)) :
    service.Quiet (service.succeed uuid now deviceId pieces) := by
  unfold succeed
  induction pieces generalizing service with
  | nil => exact Quiet.refl service
  | cons piece rest ih => exact (quiet_emit service _).trans (ih _)

theorem quiet_fails (service : OtaService) (deviceId reason : String)
    (kinds : List OtaKind) :
    service.Quiet (kinds.foldl (fun service kind =>
      service.fail uuid now deviceId kind reason) service) := by
  induction kinds generalizing service with
  | nil => exact Quiet.refl service
  | cons kind rest ih => exact (quiet_emit service _).trans (ih _)

theorem quiet_interruptRun (service : OtaService) (deviceId : String) :
    service.Quiet (service.interruptRun now deviceId) := ⟨rfl, rfl, rfl, rfl⟩

theorem quiet_noteAutoPushResult (service : OtaService) (deviceId : String)
    (pushFailed : Bool) :
    service.Quiet (service.noteAutoPushResult now deviceId pushFailed) := by
  unfold noteAutoPushResult
  split
  · exact Quiet.refl service
  · exact ⟨rfl, rfl, rfl, rfl⟩

theorem quiet_settleRestart (service : OtaService) (deviceId : String)
    (target : RestartTarget) (announced : BridgeThingMeta) :
    service.Quiet
      (service.settleRestart uuid now deviceId target announced) := by
  have hnoted : service.Quiet (service.noteAutoPushResult now deviceId
      (target.verdict announced).isSome) :=
    quiet_noteAutoPushResult service deviceId _
  unfold settleRestart
  dsimp only
  split
  · exact hnoted
  · split
    · exact hnoted.trans (quiet_succeed _ _ _)
    · exact hnoted.trans (quiet_fail _ _ _ _)

/-- The restart of one device is awaited from now on, or no other one. -/
structure Restarts (service next : OtaService) (deviceId : String) :
    Prop where
  callers : next.callers = service.callers
  spawned : next.spawned = service.spawned
  inFlight : next.inFlight = service.inFlight
  others : ∀ other, other ≠ deviceId →
    next.restarts.get? other = service.restarts.get? other

theorem Quiet.awaits {service next : OtaService} (h : service.Quiet next)
    (deviceId : String) : service.Restarts next deviceId :=
  ⟨h.callers, h.spawned, h.inFlight, fun _ _ => by rw [h.restarts]⟩

theorem Restarts.quiet {service mid next : OtaService} {deviceId : String}
    (h : service.Restarts mid deviceId) (hquiet : mid.Quiet next) :
    service.Restarts next deviceId where
  callers := hquiet.callers.trans h.callers
  spawned := hquiet.spawned.trans h.spawned
  inFlight := hquiet.inFlight.trans h.inFlight
  others other hne := by
    rw [hquiet.restarts]
    exact h.others other hne

theorem restarts_awaitRestart (service : OtaService) (deviceId : String)
    (target : RestartTarget) :
    service.Restarts (service.awaitRestart uuid now deviceId target)
      deviceId := by
  unfold awaitRestart
  dsimp only
  split
  · exact (quiet_settleRestart service deviceId target _).awaits deviceId
  · exact ⟨rfl, rfl, rfl, fun other hne => Table.get?_put_of_ne _ _ hne⟩

theorem restarts_conclude (service : OtaService) (deviceId : String)
    (kind : OtaKind) (pieces : List (OtaKind × String)) (landed : Landed) :
    service.Restarts
      (service.conclude uuid now deviceId kind pieces landed).2 deviceId := by
  unfold conclude
  split
  · exact (quiet_fail service _ _ _).awaits deviceId
  · split
    · exact restarts_awaitRestart service deviceId _
    · exact (quiet_succeed service _ _).awaits deviceId

/-! ### What is kept -/

/-- The marks are those of the callers that drive, and an install that nobody
told to look waits for a device that is busy. -/
structure Guarded (service : OtaService) : Prop where
  exclusive : Exclusive Caller.drives service.callers service.inFlight
  awake : ∀ id deviceId, (service.callers.get? id).bind Caller.sleepsFor =
    some deviceId → service.busy deviceId = true
  fresh : ∀ id, service.spawned ≤ id → service.callers.get? id = none

theorem Guarded.of_quiet {service next : OtaService} (h : service.Guarded)
    (hquiet : service.Quiet next) : next.Guarded := by
  constructor
  · rw [hquiet.callers, hquiet.inFlight]
    exact h.exclusive
  · intro id deviceId hsleeps
    rw [hquiet.callers] at hsleeps
    have hbusy := h.awake id deviceId hsleeps
    unfold busy at hbusy ⊢
    rw [hquiet.inFlight, hquiet.restarts]
    exact hbusy
  · intro id hid
    rw [hquiet.callers]
    exact h.fresh id (hquiet.spawned ▸ hid)

theorem get?_notifyWaiters (service : OtaService) (id : Nat) :
    service.notifyWaiters.callers.get? id =
      (service.callers.get? id).map Caller.notify :=
  Table.get?_map service.callers (fun _ => Caller.notify) id

theorem drives_notifyWaiters (service : OtaService) (id : Nat) :
    (service.notifyWaiters.callers.get? id).bind Caller.drives =
      (service.callers.get? id).bind Caller.drives := by
  rw [get?_notifyWaiters]
  cases service.callers.get? id with
  | none => rfl
  | some caller => exact caller.drives_notify

theorem sleepsFor_notifyWaiters (service : OtaService) (id : Nat) :
    (service.notifyWaiters.callers.get? id).bind Caller.sleepsFor = none := by
  rw [get?_notifyWaiters]
  cases service.callers.get? id with
  | none => rfl
  | some caller => exact caller.sleepsFor_notify

/-- What a caller that drives nothing does when it goes on: it waits again, or
it begins to drive a device that nobody drives. -/
inductive Moves (service : OtaService) (id : Nat) (Begins : String → Prop)
    (next : OtaService) : Prop
  | stays (hspawned : next.spawned = service.spawned)
      (hothers : ∀ other, other ≠ id →
        next.callers.get? other = service.callers.get? other)
      (hinFlight : next.inFlight = service.inFlight)
      (hrestarts : next.restarts = service.restarts)
      (hdrives : (next.callers.get? id).bind Caller.drives = none)
      (hsleeps : ∀ deviceId,
        (next.callers.get? id).bind Caller.sleepsFor = some deviceId →
          service.busy deviceId = true)
  | begins (deviceId : String) (hfree : deviceId ∉ service.inFlight)
      (hbegins : Begins deviceId) (hspawned : next.spawned = service.spawned)
      (hothers : ∀ other, other ≠ id →
        next.callers.get? other = service.callers.get? other)
      (hinFlight : next.inFlight = insert deviceId service.inFlight)
      (hrestarts : next.restarts = service.restarts)
      (hdrives : (next.callers.get? id).bind Caller.drives = some deviceId)
      (hsleeps : (next.callers.get? id).bind Caller.sleepsFor = none)

section Moving

variable {service mid next : OtaService} {id : Nat}
  {Begins Other : String → Prop}

theorem Moves.of_quiet (hquiet : service.Quiet mid)
    (h : Moves mid id Begins next) : Moves service id Begins next := by
  have hbusy : ∀ deviceId, mid.busy deviceId = service.busy deviceId := by
    intro deviceId
    unfold busy
    rw [hquiet.inFlight, hquiet.restarts]
  cases h with
  | stays hspawned hothers hinFlight hrestarts hdrives hsleeps =>
      refine .stays (hspawned.trans hquiet.spawned) (fun other hne => ?_)
        (hinFlight.trans hquiet.inFlight) (hrestarts.trans hquiet.restarts)
        hdrives (fun deviceId hsleep => ?_)
      · rw [hothers other hne, hquiet.callers]
      · rw [← hbusy]
        exact hsleeps deviceId hsleep
  | begins deviceId hfree hbegins hspawned hothers hinFlight hrestarts hdrives
      hsleeps =>
      rw [hquiet.inFlight] at hfree hinFlight
      refine .begins deviceId hfree hbegins (hspawned.trans hquiet.spawned)
        (fun other hne => ?_) hinFlight (hrestarts.trans hquiet.restarts)
        hdrives hsleeps
      rw [hothers other hne, hquiet.callers]

theorem moves_wait (caller : Caller) (hdrives : caller.drives = none)
    (hsleeps : ∀ deviceId, caller.sleepsFor = some deviceId →
      service.busy deviceId = true) :
    Moves service id Begins (service.wait id caller) := by
  have hget : (service.wait id caller).callers.get? id = some caller :=
    Table.get?_put_self _ _ _
  refine .stays rfl (fun other hne => Table.get?_put_of_ne _ _ hne) rfl rfl
    ?_ ?_
  · rw [hget]
    exact hdrives
  · rw [hget]
    exact hsleeps

/-- A caller that waits for something else than a device. -/
theorem moves_idle {caller : Caller} (hdrives : caller.drives = none)
    (hsleeps : caller.sleepsFor = none) :
    Moves service id Begins (service.wait id caller) :=
  moves_wait caller hdrives fun deviceId hsleep => by
    rw [hsleeps] at hsleep
    contradiction

theorem moves_leave : Moves service id Begins (service.leave id) := by
  have hget : (service.leave id).callers.get? id = none :=
    Table.get?_remove_self _ _
  refine .stays rfl (fun other hne => Table.get?_remove_of_ne _ hne) rfl rfl
    ?_ ?_
  · rw [hget]
    rfl
  · intro deviceId hsleep
    rw [hget] at hsleep
    contradiction

theorem moves_goOn (after : After) :
    Moves service id Begins (service.goOn id after) := by
  cases after with
  | ends => exact moves_leave
  | polls poll => exact moves_idle rfl rfl
  | apps deviceId updates poll =>
      simp only [goOn]
      split
      · exact moves_idle rfl rfl
      · exact moves_idle rfl rfl

theorem moves_beginRun {deviceId : String} (planned : OtaPollEvent)
    (work : Work) (after : After) (hfree : deviceId ∉ service.inFlight)
    (hbegins : Begins deviceId) :
    Moves service id Begins
      (service.beginRun uuid now id deviceId planned work after) := by
  have hget : (service.beginRun uuid now id deviceId planned work
      after).callers.get? id = some (.driving deviceId work after) :=
    Table.get?_put_self _ _ _
  refine .begins deviceId hfree hbegins rfl
    (fun other hne => Table.get?_put_of_ne _ _ hne) rfl rfl ?_ ?_
  · rw [hget]
    rfl
  · rw [hget]
    rfl

theorem moves_runImageAuto {deviceId : String} (channel rootUrl : String)
    (latest : OtaCompositeVersion) (release : Option OtaManifestRelease)
    (after : After) (hbegins : Begins deviceId) :
    Moves service id Begins (service.runImageAuto uuid now id deviceId channel
      rootUrl latest release after) := by
  unfold runImageAuto
  split
  · exact moves_goOn after
  · rename_i hfree
    exact moves_beginRun _ _ _ hfree hbegins

theorem moves_runBandaidBatchAuto {deviceId : String}
    (channel rootUrl : String) {pieces : List BandaidPiece}
    (latest : OtaCompositeVersion) (after : After)
    (hbegins : pieces.isEmpty = false → Begins deviceId) :
    Moves service id Begins (service.runBandaidBatchAuto uuid now id deviceId
      channel rootUrl pieces latest after) := by
  unfold runBandaidBatchAuto
  split
  · exact moves_goOn after
  · rename_i hnot
    rw [not_or, Bool.not_eq_true] at hnot
    exact moves_beginRun _ _ _ hnot.2 (hbegins hnot.1)

theorem moves_claimDevice (deviceId : String) (install : Install)
    (after : After) (hbegins : (service.restarts.get? deviceId).isNone →
      Begins deviceId) :
    Moves service id Begins
      (service.claimDevice uuid now id deviceId install after) := by
  unfold claimDevice
  split
  · rename_i hbusy
    apply moves_wait _ rfl
    intro other hsleep
    rw [← Option.some.inj hsleep]
    unfold busy
    rw [Bool.or_eq_true, decide_eq_true_iff]
    exact hbusy.symm
  · rename_i hnot
    rw [not_or, Option.not_isSome_iff_eq_none] at hnot
    have hcalm : (service.restarts.get? deviceId).isNone := by
      rw [hnot.1]
      rfl
    cases install.label with
    | none => exact moves_beginRun _ _ _ hnot.2 (hbegins hcalm)
    | some label =>
        have hquiet : service.Quiet { service with
            webappLabels := service.webappLabels.put deviceId label } :=
          ⟨rfl, rfl, rfl, rfl⟩
        exact Moves.of_quiet hquiet
          (moves_beginRun _ _ _ hnot.2 (hbegins hcalm))

theorem moves_takeTurn (deviceId : String) (install : Install) (after : After)
    (hbegins : (service.restarts.get? deviceId).isNone → Begins deviceId) :
    Moves service id Begins
      (service.takeTurn uuid now id deviceId install after) := by
  unfold takeTurn
  split
  · exact moves_idle rfl rfl
  · exact moves_claimDevice deviceId install after hbegins

theorem moves_updateStoreApps (deviceId : String) (poll : Poll) :
    Moves service id Begins
      (service.updateStoreApps now id deviceId poll) := by
  unfold updateStoreApps
  split
  · exact moves_idle rfl rfl
  · exact moves_idle rfl rfl

/-- An update that a reconciliation or an asked-for version has for a device. -/
def needs (announced : BridgeThingMeta) (latest : OtaCompositeVersion)
    (release : Option OtaManifestRelease) (webapps : List BandaidPiece) :
    Bool :=
  (drift announced latest).image ||
    ! (batch announced latest release webapps).isEmpty

theorem moves_push (deviceId : String) (announced : BridgeThingMeta)
    (latest : OtaCompositeVersion) (release : Option OtaManifestRelease)
    (webapps : Option (List BandaidPiece)) (poll : Poll)
    (hbegins : needs announced latest release (webapps.getD []) = true →
      (poll.config.autoPush && service.autoPushReady now deviceId) = true →
        Begins deviceId) :
    Moves service id Begins (service.push uuid now id deviceId announced latest
      release webapps poll) := by
  have hquiet : ∀ event, service.Quiet (service.emit uuid now event) :=
    fun event => quiet_emit service event
  unfold push
  dsimp only
  split
  · split
    · have hcleared : service.Quiet { service with
          store := service.store.clearAvailable deviceId } :=
        ⟨rfl, rfl, rfl, rfl⟩
      exact Moves.of_quiet hcleared (moves_updateStoreApps deviceId poll)
    · exact moves_updateStoreApps deviceId poll
  · rename_i hneeds
    apply Moves.of_quiet (hquiet _)
    split
    · exact moves_updateStoreApps deviceId poll
    · rename_i hready
      rw [not_not] at hready
      split
      · rename_i himage
        apply moves_runImageAuto
        exact hbegins (by simp [needs, himage]) hready
      · apply moves_runBandaidBatchAuto
        intro hbatch
        exact hbegins (by simp [needs, hbatch]) hready

theorem moves_reconcile (deviceId : String) (announced : BridgeThingMeta)
    (latest : OtaCompositeVersion) (release : Option OtaManifestRelease)
    (poll : Poll)
    (hbegins : (service.restarts.get? deviceId).isNone → Begins deviceId) :
    Moves service id Begins (service.reconcile uuid now id deviceId announced
      latest release poll) := by
  unfold reconcile
  split
  · exact moves_idle rfl rfl
  · rename_i hbusy
    have hcalm : (service.restarts.get? deviceId).isNone := by
      simp only [busy, Bool.or_eq_true, not_or] at hbusy
      exact Option.isNone_iff_eq_none.mpr
        (Option.not_isSome_iff_eq_none.mp hbusy.2)
    split
    · exact moves_push _ _ _ _ _ _ fun _ _ => hbegins hcalm
    · split
      · exact moves_push _ _ _ _ _ _ fun _ _ => hbegins hcalm
      · exact moves_idle rfl rfl

theorem moves_pollNext (poll : Poll)
    (hbegins : ∀ deviceId, (service.restarts.get? deviceId).isNone →
      Begins deviceId) :
    Moves service id Begins (service.pollNext uuid now id poll) := by
  unfold pollNext
  split
  · exact moves_leave
  · dsimp only
    split
    · exact moves_reconcile _ _ _ _ _ (hbegins _)
    · exact moves_updateStoreApps _ _

theorem moves_discovered (config : OtaPollConfig)
    (found : Except String OtaDiscoverManifest) (checkedAt : String) :
    Moves service id Begins
      (service.discovered uuid now id config found checkedAt) := by
  unfold discovered
  dsimp only
  split
  · exact Moves.of_quiet (quiet_emit service _) (moves_idle rfl rfl)
  · exact Moves.of_quiet (quiet_emit service _) (moves_idle rfl rfl)

theorem moves_chooseNext (deviceId : String) (updates : List WebappLabel)
    (poll : Poll) :
    Moves service id Begins
      (service.chooseNext id deviceId updates poll) := by
  cases updates with
  | nil => exact moves_idle rfl rfl
  | cons label rest =>
      simp only [chooseNext]
      split
      · exact moves_idle rfl rfl
      · have hquiet : service.Quiet { service with
            storeAttempts := insert (deviceId, label.id, label.version)
              service.storeAttempts } := ⟨rfl, rfl, rfl, rfl⟩
        exact Moves.of_quiet hquiet (moves_idle rfl rfl)

theorem moves_applyVersion (deviceId channel version rootUrl : String) :
    Moves service id Begins (service.applyVersion uuid now id deviceId channel
      version rootUrl) := by
  have hfailed : ∀ reason, Moves service id Begins
      ((service.fail uuid now deviceId .image reason).leave id) := fun reason =>
    Moves.of_quiet (quiet_fail service _ _ _) moves_leave
  unfold applyVersion
  split
  · exact hfailed _
  · split
    · exact hfailed _
    · split
      · exact hfailed _
      · split
        · exact moves_leave
        · exact moves_idle rfl rfl

theorem moves_applied (deviceId channel version rootUrl : String)
    (composite : OtaCompositeVersion) (announced : BridgeThingMeta)
    (manifest : Option OtaDiscoverManifest)
    (hbegins : needs announced composite
      (manifest.bind fun manifest => manifest.releases.get? version) [] =
        true → Begins deviceId) :
    Moves service id Begins (service.applied uuid now id deviceId channel
      version rootUrl composite announced manifest) := by
  unfold applied
  dsimp only
  split
  · rename_i himage
    apply moves_runImageAuto
    exact hbegins (by simp [needs, himage])
  · apply moves_runBandaidBatchAuto
    intro hbatch
    exact hbegins (by simp [needs, hbatch])

theorem moves_resumeInterrupted (deviceId : String) (last : Bool) :
    Moves service id Begins
      (service.resumeInterrupted uuid now id deviceId last) := by
  have htaken : service.Quiet { service with
      store := (service.store.takeResume deviceId now).2 } :=
    ⟨rfl, rfl, rfl, rfl⟩
  unfold resumeInterrupted
  split
  · exact moves_leave
  · split
    · split
      · exact moves_leave
      · exact moves_idle rfl rfl
    · split
      · split
        · exact moves_leave
        · exact moves_idle rfl rfl
      · dsimp only
        split
        · exact Moves.of_quiet htaken moves_leave
        · split
          · exact Moves.of_quiet htaken moves_leave
          · exact Moves.of_quiet htaken (moves_applyVersion _ _ _ _)

end Moving

/-! ### One step -/

/-- The device to which a caller pushes an update after it has waited for what
the device or the manifest says: it has not looked at the device since. -/
def pushes (service : OtaService) (now : Nat) : Caller → Answer → Option String
  | .drifting deviceId announced latest release poll, .webapps installed =>
      let webapps := installed.bind fun installed =>
        release.map fun release => builtinWebappDrift release installed
      if needs announced latest release (webapps.getD []) &&
          (poll.config.autoPush && service.autoPushReady now deviceId) then
        some deviceId
      else none
  | .applying deviceId _ version _ composite announced, .manifest found _ =>
      let release := found.toOption.bind fun manifest =>
        manifest.releases.get? version
      if needs announced composite release [] then some deviceId else none
  | _, _ => none

/-- The device is not one whose restart is awaited, or is pushed to blindly. -/
def Starts (service : OtaService) (now : Nat) (caller : Caller)
    (answer : Answer) (deviceId : String) : Prop :=
  (service.restarts.get? deviceId).isNone ∨
    service.pushes now caller answer = some deviceId

theorem Guarded.still {service : OtaService} (h : service.Guarded) {id : Nat}
    (Begins : String → Prop)
    (hdrives : (service.callers.get? id).bind Caller.drives = none) :
    Moves service id Begins service :=
  .stays rfl (fun _ _ => rfl) rfl rfl hdrives fun deviceId hsleep =>
    h.awake id deviceId hsleep

theorem moves_resume {service : OtaService} (h : service.Guarded) {id : Nat}
    {caller : Caller} (hget : service.callers.get? id = some caller)
    (hdrives : caller.drives = none) (answer : Answer) :
    Moves service id (service.Starts now caller answer)
      (service.resume uuid now id caller answer) := by
  have hstill := h.still (service.Starts now caller answer) (by
    rw [hget]
    exact hdrives : (service.callers.get? id).bind Caller.drives = none)
  have hcalm : ∀ deviceId, (service.restarts.get? deviceId).isNone →
      service.Starts now caller answer deviceId := fun _ => Or.inl
  cases caller with
  | discovering config =>
      cases answer with
      | manifest found checkedAt =>
          exact moves_discovered config found checkedAt
      | _ => exact hstill
  | cataloguing poll =>
      cases answer with
      | catalogs read => exact moves_idle rfl rfl
      | _ => exact hstill
  | looping poll =>
      cases answer with
      | next => exact moves_pollNext poll hcalm
      | _ => exact hstill
  | drifting deviceId announced latest release poll =>
      cases answer with
      | webapps installed =>
          apply moves_push
          intro hneeds hready
          exact Or.inr (if_pos (by rw [hneeds, hready]; rfl))
      | _ => exact hstill
  | listing deviceId poll =>
      cases answer with
      | updates found =>
          cases found with
          | none => exact moves_idle rfl rfl
          | some updates => exact moves_idle rfl rfl
      | _ => exact hstill
  | choosing deviceId updates poll =>
      cases answer with
      | next => exact moves_chooseNext deviceId updates poll
      | _ => exact hstill
  | downloading deviceId label after =>
      cases answer with
      | bundle bytes =>
          cases bytes with
          | none => exact moves_goOn after
          | some bytes => exact moves_takeTurn _ _ _ (hcalm _)
      | _ => exact hstill
  | queueing deviceId install after =>
      cases answer with
      | next => exact moves_takeTurn _ _ _ (hcalm _)
      | _ => exact hstill
  | claiming deviceId install notified after =>
      cases notified with
      | false => exact hstill
      | true =>
          cases answer with
          | next => exact moves_claimDevice _ _ _ (hcalm _)
          | _ => exact hstill
  | driving deviceId work after => exact nomatch hdrives
  | applying deviceId channel version rootUrl composite announced =>
      cases answer with
      | manifest found checkedAt =>
          apply moves_applied
          intro hneeds
          exact Or.inr (if_pos hneeds)
      | _ => exact hstill
  | resuming deviceId =>
      cases answer with
      | last last => exact moves_resumeInterrupted deviceId last
      | _ => exact hstill

theorem Guarded.moves {service next : OtaService} (h : service.Guarded)
    {id : Nat} {Begins : String → Prop} (hid : id < service.spawned)
    (hdrives : (service.callers.get? id).bind Caller.drives = none)
    (hmoves : Moves service id Begins next) : next.Guarded := by
  have hfresh : next.spawned = service.spawned →
      (∀ other, other ≠ id →
        next.callers.get? other = service.callers.get? other) →
      ∀ other, next.spawned ≤ other → next.callers.get? other = none := by
    intro hspawned hothers other hle
    rw [hspawned] at hle
    rw [hothers other (by omega)]
    exact h.fresh other hle
  have hbusy : ∀ deviceId, service.inFlight ⊆ next.inFlight →
      next.restarts = service.restarts → service.busy deviceId = true →
        next.busy deviceId = true := by
    intro deviceId hsub hrestarts hbusy
    simp only [busy, Bool.or_eq_true, decide_eq_true_eq] at hbusy ⊢
    rw [hrestarts]
    exact hbusy.imp_left fun hmem => hsub hmem
  cases hmoves with
  | stays hspawned hothers hinFlight hrestarts hafter hsleeps =>
      refine ⟨?_, fun other deviceId hsleep => ?_, hfresh hspawned hothers⟩
      · rw [hinFlight]
        apply h.exclusive.congr
        intro other
        by_cases hsame : other = id
        · rw [hsame, hafter, hdrives]
        · rw [hothers other hsame]
      · apply hbusy deviceId hinFlight.ge hrestarts
        by_cases hsame : other = id
        · rw [hsame] at hsleep
          exact hsleeps deviceId hsleep
        · rw [hothers other hsame] at hsleep
          exact h.awake other deviceId hsleep
  | begins begun hfree _ hspawned hothers hinFlight hrestarts hafter hsleeps =>
      refine ⟨?_, fun other deviceId hsleep => ?_, hfresh hspawned hothers⟩
      · rw [hinFlight]
        exact h.exclusive.take (fun other hne => by rw [hothers other hne])
          hdrives hfree hafter
      · have hsub : service.inFlight ⊆ next.inFlight := by
          rw [hinFlight]
          exact Finset.subset_insert _ _
        apply hbusy deviceId hsub hrestarts
        by_cases hsame : other = id
        · rw [hsame, hsleeps] at hsleep
          contradiction
        · rw [hothers other hsame] at hsleep
          exact h.awake other deviceId hsleep

/-- A caller goes on driving its device. -/
theorem Guarded.keeps {service next : OtaService} (h : service.Guarded)
    {id : Nat} {deviceId : String} (hquiet : service.Quiet next)
    (work : Work) (after : After)
    (hdrives : (service.callers.get? id).bind Caller.drives = some deviceId) :
    (next.wait id (.driving deviceId work after)).Guarded := by
  have hnext := h.of_quiet hquiet
  have hothers : ∀ other, other ≠ id →
      (next.wait id (.driving deviceId work after)).callers.get? other =
        next.callers.get? other := fun other hne => Table.get?_put_of_ne _ _ hne
  have hget : (next.wait id (.driving deviceId work after)).callers.get? id =
      some (.driving deviceId work after) := Table.get?_put_self _ _ _
  refine ⟨hnext.exclusive.congr fun other => ?_, fun other device hsleep => ?_,
    fun other hle => ?_⟩
  · by_cases hsame : other = id
    · rw [hsame, hget, hquiet.callers, hdrives]
      rfl
    · rw [hothers other hsame]
  · by_cases hsame : other = id
    · rw [hsame, hget] at hsleep
      exact nomatch hsleep
    · rw [hothers other hsame] at hsleep
      exact hnext.awake other device hsleep
  · by_cases hsame : other = id
    · have hnone := h.fresh id (hquiet.spawned ▸ hsame ▸ hle)
      rw [hnone] at hdrives
      contradiction
    · rw [hothers other hsame]
      exact hnext.fresh other hle

/-- All are told to look again. -/
theorem Guarded.notified {service next : OtaService} (h : service.Guarded)
    {deviceId : String} (hrestarts : service.Restarts next deviceId) :
    next.notifyWaiters.Guarded := by
  refine ⟨?_, fun id device hsleep => ?_, fun id hid => ?_⟩
  · have hsame : next.notifyWaiters.inFlight = service.inFlight :=
      hrestarts.inFlight
    rw [hsame]
    apply h.exclusive.congr
    intro id
    rw [drives_notifyWaiters, hrestarts.callers]
  · rw [sleepsFor_notifyWaiters] at hsleep
    contradiction
  · rw [get?_notifyWaiters, hrestarts.callers]
    rw [h.fresh id (hrestarts.spawned ▸ hid)]
    rfl

/-- Where a caller goes on after an update. -/
theorem goOn_idle (service : OtaService) (id : Nat) (after : After) :
    ((service.goOn id after).callers.get? id).bind Caller.drives = none ∧
      ((service.goOn id after).callers.get? id).bind Caller.sleepsFor =
        none := by
  have hwait : ∀ caller : Caller, caller.drives = none →
      caller.sleepsFor = none →
      ((service.wait id caller).callers.get? id).bind Caller.drives = none ∧
        ((service.wait id caller).callers.get? id).bind Caller.sleepsFor =
          none := by
    intro caller hdrives hsleeps
    rw [show (service.wait id caller).callers.get? id = some caller from
      Table.get?_put_self _ _ _]
    exact ⟨hdrives, hsleeps⟩
  cases after with
  | ends =>
      rw [show (service.goOn id .ends).callers.get? id = none from
        Table.get?_remove_self _ _]
      exact ⟨rfl, rfl⟩
  | polls poll => exact hwait _ rfl rfl
  | apps deviceId updates poll =>
      simp only [goOn]
      split
      · exact hwait _ rfl rfl
      · exact hwait _ rfl rfl

theorem restarts_report (service : OtaService) (deviceId : String)
    (work : Work) (terminal : Terminal) (installed : Option String) :
    service.Restarts
      (service.report uuid now deviceId work terminal installed) deviceId := by
  have hconcluded : ∀ pieces, service.Restarts (service.conclude uuid now
      deviceId work.kind pieces ⟨terminal, work.link.getD 0⟩).2 deviceId :=
    fun pieces => restarts_conclude service deviceId _ pieces _
  unfold report
  dsimp only
  split
  · exact hconcluded _
  · split
    · exact hconcluded _
    · exact (hconcluded _).quiet (quiet_noteAutoPushResult _ _ _)

theorem quiet_unlabel (service : OtaService) (deviceId : String)
    (kind : OtaKind) : service.Quiet (service.unlabel deviceId kind) := by
  unfold unlabel
  split
  · exact ⟨rfl, rfl, rfl, rfl⟩
  · exact Quiet.refl service

/-- The mark is gone, and all were told. -/
structure Ended (service next : OtaService) (deviceId : String) : Prop where
  spawned : next.spawned = service.spawned
  inFlight : next.inFlight = service.inFlight.erase deviceId
  callers : ∀ id, next.callers.get? id =
    (service.callers.get? id).map Caller.notify

theorem ended_endInFlight (service : OtaService) (deviceId : String) :
    service.Ended (service.endInFlight uuid now deviceId) deviceId := by
  have hquiet : Quiet { service with
        inFlight := service.inFlight.erase deviceId
        : OtaService }.notifyWaiters
      (service.endInFlight uuid now deviceId) := quiet_fails _ deviceId _ _
  refine ⟨hquiet.spawned, hquiet.inFlight, fun id => ?_⟩
  rw [hquiet.callers]
  exact get?_notifyWaiters _ id

/-- Those that do not drive the device are told to look again. -/
theorem finish_others (service : OtaService) {id other : Nat}
    (deviceId : String) (work : Work) (after : After) (terminal : Terminal)
    (installed : Option String) (hne : other ≠ id) :
    (service.finish uuid now id deviceId work after terminal
      installed).callers.get? other =
        (service.callers.get? other).map Caller.notify := by
  have hended := (@ended_endInFlight uuid now (service.report uuid now deviceId
    work terminal installed) deviceId).callers other
  rw [(@restarts_report uuid now service deviceId work terminal
    installed).callers] at hended
  rw [← (quiet_unlabel _ deviceId work.kind).callers] at hended
  cases @moves_goOn ((OtaService.endInFlight uuid now (service.report uuid now
    deviceId work terminal installed) deviceId).unlabel deviceId work.kind) id
    (fun _ => False) after with
  | stays _ hothers => exact (hothers other hne).trans hended
  | begins _ _ hfalse => exact hfalse.elim

theorem Guarded.finish {service : OtaService} (h : service.Guarded) {id : Nat}
    {deviceId : String} (work : Work) (after : After) (terminal : Terminal)
    (installed : Option String)
    (hdrives : (service.callers.get? id).bind Caller.drives = some deviceId) :
    (service.finish uuid now id deviceId work after terminal
      installed).Guarded := by
  have hreport := @restarts_report uuid now service deviceId work terminal
    installed
  have hended := @ended_endInFlight uuid now
    (service.report uuid now deviceId work terminal installed) deviceId
  have hquiet := quiet_unlabel ((service.report uuid now deviceId work terminal
    installed).endInFlight uuid now deviceId) deviceId work.kind
  have hothers : ∀ other, other ≠ id → (service.finish uuid now id deviceId work
      after terminal installed).callers.get? other =
        (service.callers.get? other).map Caller.notify := fun other hne =>
    finish_others service deviceId work after terminal installed hne
  unfold OtaService.finish at hothers ⊢
  dsimp only at hothers ⊢
  generalize (OtaService.endInFlight uuid now (service.report uuid now deviceId
    work terminal installed) deviceId).unlabel deviceId work.kind = ended
    at hquiet hothers ⊢
  have hinFlight : (ended.goOn id after).inFlight =
      service.inFlight.erase deviceId := by
    have hsame : ended.inFlight = service.inFlight.erase deviceId := by
      rw [hquiet.inFlight, hended.inFlight, hreport.inFlight]
    cases @moves_goOn ended id (fun _ => False) after with
    | stays _ _ hinFlight => exact hinFlight.trans hsame
    | begins _ _ hfalse => exact hfalse.elim
  have hspawned : (ended.goOn id after).spawned = service.spawned := by
    have hsame : ended.spawned = service.spawned := by
      rw [hquiet.spawned, hended.spawned, hreport.spawned]
    cases @moves_goOn ended id (fun _ => False) after with
    | stays hspawned => exact hspawned.trans hsame
    | begins _ _ hfalse => exact hfalse.elim
  obtain ⟨hidle, hawake⟩ := goOn_idle ended id after
  refine ⟨?_, fun other device hsleep => ?_, fun other hle => ?_⟩
  · rw [hinFlight]
    apply h.exclusive.giveBack (fun other hne => ?_) hdrives hidle
    rw [hothers other hne]
    cases service.callers.get? other with
    | none => rfl
    | some caller => exact caller.drives_notify
  · by_cases hsame : other = id
    · rw [hsame, hawake] at hsleep
      contradiction
    · rw [hothers other hsame] at hsleep
      cases hget : service.callers.get? other with
      | none =>
          rw [hget] at hsleep
          contradiction
      | some caller =>
          rw [hget] at hsleep
          exact nomatch caller.sleepsFor_notify.symm.trans hsleep
  · rw [hspawned] at hle
    have hnone := h.fresh other hle
    have hne : other ≠ id := by
      rintro rfl
      rw [hnone] at hdrives
      contradiction
    rw [hothers other hne, hnone]
    rfl

theorem quiet_identify (service : OtaService) (deviceId : String)
    (announced : BridgeThingMeta) :
    service.Quiet (service.identify deviceId announced) := by
  unfold identify
  split
  · exact Quiet.refl service
  · exact ⟨rfl, rfl, rfl, rfl⟩

theorem Guarded.recordOn {service : OtaService} (h : service.Guarded)
    (deviceId : String) (announced : BridgeThingMeta) (link : Link) :
    (service.recordOn uuid now deviceId announced link).Guarded := by
  have hlinked : Guarded { service with
      links := service.links.put deviceId
        { link with announced := some announced } } :=
    h.of_quiet ⟨rfl, rfl, rfl, rfl⟩
  unfold OtaService.recordOn
  dsimp only
  split
  · exact hlinked
  · split
    · have hremoved : service.Restarts { service with
          links := service.links.put deviceId
            { link with announced := some announced }
          restarts := service.restarts.remove deviceId } deviceId :=
        ⟨rfl, rfl, rfl, fun other hne => Table.get?_remove_of_ne _ hne⟩
      exact h.notified (hremoved.quiet (quiet_settleRestart _ _ _ _))
    · exact hlinked

theorem Guarded.recordMeta {service : OtaService} (h : service.Guarded)
    (deviceId : String) (announced : BridgeThingMeta) :
    (service.recordMeta uuid now deviceId announced).Guarded := by
  have hknown := h.of_quiet (quiet_identify service deviceId announced)
  unfold OtaService.recordMeta
  dsimp only
  split
  · exact hknown
  · exact hknown.recordOn deviceId announced _

theorem Guarded.spawn {service : OtaService} (h : service.Guarded)
    {caller : Caller} (hdrives : caller.drives = none)
    (hsleeps : caller.sleepsFor = none) : (service.spawn caller).Guarded := by
  have hcounted : Guarded { service with spawned := service.spawned + 1 } :=
    ⟨h.exclusive, h.awake, fun id hid => h.fresh id (Nat.le_of_succ_le hid)⟩
  have hnone : (service.callers.get? service.spawned).bind Caller.drives =
      none := by
    rw [h.fresh _ (Nat.le_refl _)]
    rfl
  exact hcounted.moves (Nat.lt_succ_self _) hnone
    (@moves_idle { service with spawned := service.spawned + 1 } service.spawned
      (fun _ => True) caller hdrives hsleeps)

theorem Guarded.leave {service : OtaService} (h : service.Guarded) {id : Nat}
    (hdrives : (service.callers.get? id).bind Caller.drives = none) :
    (service.leave id).Guarded := by
  by_cases hid : id < service.spawned
  · exact h.moves hid hdrives (@moves_leave service id fun _ => True)
  · have hkeys : id ∉ service.callers.keys :=
      Table.get?_eq_none.mp (h.fresh id (Nat.le_of_not_lt hid))
    unfold OtaService.leave
    rw [Table.remove_of_not_mem hkeys]
    exact h

/-- A caller that drives goes on. -/
theorem Guarded.drive {service : OtaService} (h : service.Guarded) {id : Nat}
    {deviceId : String} {work : Work} {after : After}
    (hget : service.callers.get? id = some (.driving deviceId work after))
    (answer : Answer) :
    (service.resume uuid now id (.driving deviceId work after)
      answer).Guarded := by
  have hdrives : (service.callers.get? id).bind Caller.drives =
      some deviceId := by
    rw [hget]
    rfl
  cases answer with
  | opened =>
      simp only [resume, openLink]
      split
      · exact h
      · exact h.keeps (Quiet.refl service) _ after hdrives
  | told snapshot =>
      exact h.keeps (quiet_emit service _) _ after hdrives
  | lost => exact h.of_quiet (quiet_interruptRun service deviceId)
  | ended terminal installed =>
      have hfinish : ∀ terminal installed, (service.finish uuid now id deviceId
          work after terminal installed).Guarded := fun terminal installed =>
        h.finish work after terminal installed hdrives
      cases terminal with
      | failed reason => exact hfinish _ _
      | completed =>
          simp only [resume]
          split
          · exact h
          · exact hfinish _ _
      | staged =>
          simp only [resume]
          split
          · exact h
          · exact hfinish _ _
  | _ => exact h

theorem Guarded.resume {service : OtaService} (h : service.Guarded) {id : Nat}
    {caller : Caller} (hget : service.callers.get? id = some caller)
    (answer : Answer) :
    (service.resume uuid now id caller answer).Guarded := by
  cases hdrives : caller.drives with
  | none =>
      have hid : id < service.spawned := by
        by_contra hle
        rw [h.fresh id (Nat.le_of_not_lt hle)] at hget
        contradiction
      have hnone : (service.callers.get? id).bind Caller.drives = none := by
        rw [hget]
        exact hdrives
      exact h.moves hid hnone (moves_resume h hget hdrives answer)
  | some deviceId =>
      cases caller with
      | driving deviceId work after => exact h.drive hget answer
      | _ => exact nomatch hdrives

end OtaService

end Ota

end Bridgething
