/-
What a caller that drives nothing does when it goes on: it waits again, it
leaves, or it begins to drive a device with a run that is planned for it.
-/
import Bridgething.Ota.Leads

namespace Bridgething

namespace Ota

open Service

namespace Service

/-- The version that a work brings its device to. -/
def Work.version (work : Work) : Option String :=
  (work.pieces.find? fun piece => piece.1 = work.kind).map Prod.snd

/-- The run is of the kind of a work, and of its version where that restarts the
device. -/
structure Work.Aims (work : Work) (run : OtaRun) : Prop where
  kind : run.kind = work.kind
  target : restartsDevice work.kind = true →
    run.target = work.version ∧ work.version.isSome

theorem Work.Aims.follows {work : Work} {run later : OtaRun}
    (h : work.Aims run) (hfollows : Follows run later) : work.Aims later where
  kind := hfollows.kind.trans h.kind
  target hrestarts := by
    rw [hfollows.target]
    exact h.target hrestarts

/-- The pieces of an update are of the firmware. -/
def Firm (pieces : List (OtaKind × String)) : Prop :=
  ∀ piece ∈ pieces, OtaLane.of piece.1 = .firmware

/-- A drive as it begins: no link is open, and the run that is planned for it
aims at what it brings. -/
structure Work.Begins (work : Work) (deviceId : String)
    (planned : OtaPollEvent) : Prop where
  unopened : work.link = none
  firm : Firm work.pieces
  planned : ∃ release daemonVersion imageVersion channel rootUrl,
    planned = .planned deviceId work.kind release daemonVersion imageVersion
      channel rootUrl work.plan ∧
    ∀ runId now, work.Aims (plannedRun runId deviceId work.kind release
      daemonVersion imageVersion channel rootUrl work.plan now)

end Service

namespace OtaService

/-- The ways on of a caller that drives nothing. -/
inductive Advance (uuid : Nat → String) (service : OtaService) (id : Nat)
    (next : OtaService) : Prop
  | rests (hleads : service.Leads uuid (fun _ => False) next)
  | waits (mid : OtaService) (caller : Caller)
      (hleads : service.Leads uuid (fun _ => False) mid)
      (hdrives : caller.drives = none) (hnext : next = mid.wait id caller)
  | leaves (mid : OtaService)
      (hleads : service.Leads uuid (fun _ => False) mid)
      (hnext : next = mid.leave id)
  | begins (mid : OtaService) (now : Nat) (deviceId : String)
      (planned : OtaPollEvent) (work : Work) (after : After)
      (hleads : service.Leads uuid (fun _ => False) mid)
      (hfree : deviceId ∉ service.inFlight)
      (hcalm : (service.restarts.get? deviceId).isNone ∨
        OtaLane.of work.kind = .firmware)
      (hbegins : work.Begins deviceId planned)
      (hnext : next = mid.beginRun uuid now id deviceId planned work after)

section Advancing

variable {uuid : Nat → String} (huuid : Function.Injective uuid) {now : Nat}
  {service mid next : OtaService} {id : Nat}
  (hstoried : Storied uuid service.store service.minted)

theorem Advance.of_leads (hleads : service.Leads uuid (fun _ => False) mid)
    (h : Advance uuid mid id next) : Advance uuid service id next := by
  cases h with
  | rests hlater => exact .rests (hleads.trans hlater)
  | waits later caller hlater hdrives hnext =>
      exact .waits later caller (hleads.trans hlater) hdrives hnext
  | leaves later hlater hnext =>
      exact .leaves later (hleads.trans hlater) hnext
  | begins later now deviceId planned work after hlater hfree hcalm hbegins
      hnext =>
      rw [hleads.quiet.inFlight] at hfree
      rw [hleads.quiet.restarts] at hcalm
      exact .begins later now deviceId planned work after
        (hleads.trans hlater) hfree hcalm hbegins hnext

include hstoried

theorem advance_rests : Advance uuid service id service :=
  .rests (Leads.refl hstoried)

theorem advance_waits {caller : Caller} (hdrives : caller.drives = none) :
    Advance uuid service id (service.wait id caller) :=
  .waits service caller (Leads.refl hstoried) hdrives rfl

theorem advance_leaves : Advance uuid service id (service.leave id) :=
  .leaves service (Leads.refl hstoried) rfl

theorem advance_goOn (after : After) :
    Advance uuid service id (service.goOn id after) := by
  cases after with
  | ends => exact advance_leaves hstoried
  | polls poll => exact advance_waits hstoried rfl
  | apps deviceId updates poll =>
      simp only [goOn]
      split
      · exact advance_waits hstoried rfl
      · exact advance_waits hstoried rfl

theorem advance_beginRun {deviceId : String} {planned : OtaPollEvent}
    {work : Work} (after : After) (hfree : deviceId ∉ service.inFlight)
    (hcalm : (service.restarts.get? deviceId).isNone ∨
      OtaLane.of work.kind = .firmware)
    (hbegins : work.Begins deviceId planned) :
    Advance uuid service id
      (service.beginRun uuid now id deviceId planned work after) :=
  .begins service now deviceId planned work after (Leads.refl hstoried) hfree
    hcalm hbegins rfl

omit hstoried in
theorem unsetIfEmpty_of_ne {value : String} (h : value ≠ "") :
    unsetIfEmpty value = some value := by
  unfold unsetIfEmpty
  rw [if_neg (by simpa using h)]

theorem advance_runImageAuto (deviceId channel rootUrl : String)
    (latest : OtaCompositeVersion) (release : Option OtaManifestRelease)
    (after : After) :
    Advance uuid service id (service.runImageAuto uuid now id deviceId channel
      rootUrl latest release after) := by
  unfold runImageAuto
  split
  · exact advance_goOn hstoried after
  · rename_i hfree
    refine advance_beginRun hstoried after hfree (Or.inr rfl)
      ⟨rfl, fun piece hmem => ?_, _, _, _, _, _, rfl, fun runId now => ?_⟩
    · rw [List.mem_singleton.mp hmem]
      rfl
    · exact ⟨rfl, fun _ => ⟨unsetIfEmpty_of_ne latest.image_ne, rfl⟩⟩

omit hstoried in
/-- What a batch may hold: the daemon of the latest version, webapps that come
with the firmware and the wake word model. -/
def Batched (latest : OtaCompositeVersion) (pieces : List BandaidPiece) :
    Prop :=
  ∀ piece ∈ pieces, (piece.kind = .daemon ∧ piece.version = latest.daemon) ∨
    piece.kind = .builtinWebapp ∨ piece.kind = .wakewordModel

omit hstoried in
theorem batched_batch (announced : BridgeThingMeta)
    (latest : OtaCompositeVersion) (release : Option OtaManifestRelease)
    {webapps : List BandaidPiece}
    (h : ∀ piece ∈ webapps, piece.kind = .builtinWebapp) :
    Batched latest (batch announced latest release webapps) := by
  intro piece hmem
  simp only [batch, List.mem_append] at hmem
  rcases hmem with (hdaemon | hwebapp) | hmodel
  · split at hdaemon
    · rw [List.mem_singleton.mp hdaemon]
      exact Or.inl ⟨rfl, rfl⟩
    · contradiction
  · exact Or.inr (Or.inl (h piece hwebapp))
  · simp only [Option.mem_toList, Option.map_eq_some_iff] at hmodel
    obtain ⟨version, -, rfl⟩ := hmodel
    exact Or.inr (Or.inr rfl)

omit hstoried in
theorem builtin_of_drift {release : OtaManifestRelease}
    {installed : Table String String} :
    ∀ piece ∈ builtinWebappDrift release installed,
      piece.kind = .builtinWebapp := by
  intro piece hmem
  simp only [builtinWebappDrift, List.mem_filterMap] at hmem
  obtain ⟨slug, -, hpiece⟩ := hmem
  simp only [Option.bind_eq_bind, Option.bind_eq_some_iff,
    Option.ite_none_left_eq_some, Option.some.injEq] at hpiece
  obtain ⟨available, -, current, -, -, rfl⟩ := hpiece
  rfl

omit hstoried in
/-- A batch that is known by its daemon brings the latest one. -/
theorem find?_daemon {latest : OtaCompositeVersion}
    {pieces : List BandaidPiece} (h : Batched latest pieces)
    (hdaemon : pieces.any (fun piece => piece.kind = .daemon) = true) :
    ((pieces.map fun piece => (piece.kind, piece.version)).find? fun piece =>
      piece.1 = .daemon).map Prod.snd = some latest.daemon := by
  induction pieces with
  | nil => contradiction
  | cons piece rest ih =>
      by_cases hkind : piece.kind = .daemon
      · rcases h piece List.mem_cons_self with ⟨-, hversion⟩ | hother | hother
        · simp [hkind, hversion]
        · exact absurd (hkind.symm.trans hother) (by decide)
        · exact absurd (hkind.symm.trans hother) (by decide)
      · have hrest := ih
          (fun other hmem => h other (List.mem_cons_of_mem _ hmem))
          (by simpa [hkind] using hdaemon)
        simpa [hkind] using hrest

theorem advance_runBandaidBatchAuto (deviceId channel rootUrl : String)
    {pieces : List BandaidPiece} {latest : OtaCompositeVersion}
    (hbatched : Batched latest pieces) (after : After) :
    Advance uuid service id (service.runBandaidBatchAuto uuid now id deviceId
      channel rootUrl pieces latest after) := by
  have hkinds : ∀ piece ∈ pieces, OtaLane.of piece.kind = .firmware := by
    intro piece hmem
    rcases hbatched piece hmem with ⟨hkind, -⟩ | hkind | hkind <;>
      rw [hkind] <;> rfl
  have hhead : pieces.any (fun piece => piece.kind = .daemon) = false →
      batchKind pieces = .builtinWebapp ∨
        batchKind pieces = .wakewordModel := by
    intro hnone
    unfold batchKind
    rw [hnone]
    cases pieces with
    | nil => exact Or.inl rfl
    | cons piece rest =>
        rcases hbatched piece List.mem_cons_self with ⟨hkind, -⟩ | hkind
        · simp [hkind] at hnone
        · exact hkind
  have hdaemon : pieces.any (fun piece => piece.kind = .daemon) = true →
      batchKind pieces = .daemon := fun hsome => if_pos hsome
  unfold runBandaidBatchAuto
  split
  · exact advance_goOn hstoried after
  · rename_i hnot
    rw [not_or] at hnot
    have hfirmware : OtaLane.of (batchKind pieces) = .firmware := by
      cases hany : pieces.any fun piece => piece.kind = .daemon with
      | true => rw [hdaemon hany]; rfl
      | false => rcases hhead hany with hkind | hkind <;> rw [hkind] <;> rfl
    refine advance_beginRun hstoried after hnot.2 (Or.inr hfirmware)
      ⟨rfl, fun piece hmem => ?_, _, _, _, _, _, rfl, fun runId now =>
        ⟨rfl, fun hrestarts => ?_⟩⟩
    · obtain ⟨bandaid, hbandaid, rfl⟩ := List.mem_map.mp hmem
      exact hkinds bandaid hbandaid
    · cases hany : pieces.any fun piece => piece.kind = .daemon with
      | true =>
          have hversion := find?_daemon hbatched hany
          simp only [OtaRun.target, Work.version, plannedRun, hdaemon hany,
            hversion, unsetIfEmpty_of_ne latest.daemon_ne, Option.isSome_some,
            and_self]
      | false =>
          have hnever : restartsDevice (batchKind pieces) = false := by
            rcases hhead hany with hkind | hkind <;> rw [hkind] <;> rfl
          rw [show restartsDevice (batchKind pieces) = true from hrestarts]
            at hnever
          contradiction

theorem advance_claimDevice (deviceId : String) (install : Install)
    (after : After) :
    Advance uuid service id
      (service.claimDevice uuid now id deviceId install after) := by
  have hbegins : Work.Begins
      { kind := .installedWebapp
        pieces := []
        plan := webappPlan install.bytes }
      deviceId (.planned deviceId .installedWebapp "" "" "" "" ""
        (webappPlan install.bytes)) :=
    ⟨rfl, fun _ hmem => absurd hmem List.not_mem_nil, _, _, _, _, _, rfl,
      fun _ _ => ⟨rfl, fun hrestarts => absurd hrestarts Bool.false_ne_true⟩⟩
  unfold claimDevice
  split
  · exact advance_waits hstoried rfl
  · rename_i hnot
    rw [not_or, Option.not_isSome_iff_eq_none] at hnot
    have hcalm : (service.restarts.get? deviceId).isNone := by
      rw [hnot.1]
      rfl
    cases install.label with
    | none =>
        exact advance_beginRun hstoried after hnot.2 (Or.inl hcalm) hbegins
    | some label =>
        have hlabelled : service.Leads uuid (fun _ => False) { service with
            webappLabels := service.webappLabels.put deviceId label } :=
          Leads.of_same hstoried ⟨rfl, rfl, rfl, rfl⟩ rfl rfl rfl rfl
        exact Advance.of_leads hlabelled (advance_beginRun hlabelled.storied
          after hnot.2 (Or.inl hcalm) hbegins)

theorem advance_takeTurn (deviceId : String) (install : Install)
    (after : After) :
    Advance uuid service id
      (service.takeTurn uuid now id deviceId install after) := by
  unfold takeTurn
  split
  · exact advance_waits hstoried rfl
  · exact advance_claimDevice hstoried deviceId install after

theorem advance_updateStoreApps (deviceId : String) (poll : Poll) :
    Advance uuid service id (service.updateStoreApps now id deviceId poll) := by
  unfold updateStoreApps
  split
  · exact advance_waits hstoried rfl
  · exact advance_waits hstoried rfl

theorem advance_chooseNext (deviceId : String) (updates : List WebappLabel)
    (poll : Poll) :
    Advance uuid service id (service.chooseNext id deviceId updates poll) := by
  cases updates with
  | nil => exact advance_waits hstoried rfl
  | cons label rest =>
      simp only [chooseNext]
      split
      · exact advance_waits hstoried rfl
      · have hattempted : service.Leads uuid (fun _ => False) { service with
            storeAttempts := insert (deviceId, label.id, label.version)
              service.storeAttempts } :=
          Leads.of_same hstoried ⟨rfl, rfl, rfl, rfl⟩ rfl rfl rfl rfl
        exact Advance.of_leads hattempted
          (advance_waits hattempted.storied rfl)

theorem advance_applied (deviceId channel version rootUrl : String)
    (composite : OtaCompositeVersion) (announced : BridgeThingMeta)
    (manifest : Option OtaDiscoverManifest) :
    Advance uuid service id (service.applied uuid now id deviceId channel
      version rootUrl composite announced manifest) := by
  unfold applied
  dsimp only
  split
  · exact advance_runImageAuto hstoried deviceId channel rootUrl composite _ _
  · apply advance_runBandaidBatchAuto hstoried
    exact batched_batch announced composite _ fun _ hmem =>
      absurd hmem List.not_mem_nil

include huuid

theorem advance_push (deviceId : String) (announced : BridgeThingMeta)
    (latest : OtaCompositeVersion) (release : Option OtaManifestRelease)
    {webapps : Option (List BandaidPiece)}
    (hwebapps : ∀ piece ∈ webapps.getD [], piece.kind = .builtinWebapp)
    (poll : Poll) :
    Advance uuid service id (service.push uuid now id deviceId announced latest
      release webapps poll) := by
  have htold : ∀ release, service.Leads uuid (fun _ => False)
      (service.emit uuid now (.updateAvailable deviceId release latest.daemon
        latest.image)) := fun release =>
    leads_emit huuid now hstoried (rfl : (OtaPollEvent.updateAvailable deviceId
      release latest.daemon latest.image).plans = false)
  unfold push
  dsimp only
  split
  · split
    · have hcleared : service.Leads uuid (fun _ => False) { service with
          store := service.store.clearAvailable deviceId } :=
        Leads.of_store hstoried
          (stays_clearAvailable service.store hstoried.nodup deviceId)
      exact Advance.of_leads hcleared
        (advance_updateStoreApps hcleared.storied deviceId poll)
    · exact advance_updateStoreApps hstoried deviceId poll
  · apply Advance.of_leads (htold _)
    split
    · exact advance_updateStoreApps (htold _).storied deviceId poll
    · split
      · exact advance_runImageAuto (htold _).storied _ _ _ _ _ _
      · apply advance_runBandaidBatchAuto (htold _).storied
        exact batched_batch announced latest release hwebapps

theorem advance_reconcile (deviceId : String) (announced : BridgeThingMeta)
    (latest : OtaCompositeVersion) (release : Option OtaManifestRelease)
    (poll : Poll) :
    Advance uuid service id (service.reconcile uuid now id deviceId announced
      latest release poll) := by
  unfold reconcile
  split
  · exact advance_waits hstoried rfl
  · split
    · exact advance_push huuid hstoried _ _ _ _
        (fun _ hmem => absurd hmem List.not_mem_nil) _
    · split
      · exact advance_push huuid hstoried _ _ _ _
          (fun _ hmem => absurd hmem List.not_mem_nil) _
      · exact advance_waits hstoried rfl

theorem advance_pollNext (poll : Poll) :
    Advance uuid service id (service.pollNext uuid now id poll) := by
  unfold pollNext
  split
  · exact advance_leaves hstoried
  · dsimp only
    split
    · exact advance_reconcile huuid hstoried _ _ _ _ _
    · exact advance_updateStoreApps hstoried _ _

theorem advance_discovered (config : OtaPollConfig)
    (found : Except String OtaDiscoverManifest) (checkedAt : String) :
    Advance uuid service id
      (service.discovered uuid now id config found checkedAt) := by
  unfold discovered
  dsimp only
  cases found with
  | ok manifest =>
      have htold := leads_emit huuid now hstoried
        (rfl : (OtaPollEvent.manifestPolled checkedAt).plans = false)
      split
      · exact Advance.of_leads htold (advance_waits htold.storied rfl)
      · exact Advance.of_leads htold (advance_waits htold.storied rfl)
  | error reason =>
      have htold := leads_emit huuid now hstoried
        (rfl : (OtaPollEvent.manifestPollFailed reason).plans = false)
      split
      · exact Advance.of_leads htold (advance_waits htold.storied rfl)
      · exact Advance.of_leads htold (advance_waits htold.storied rfl)

theorem advance_applyVersion (deviceId channel version rootUrl : String) :
    Advance uuid service id (service.applyVersion uuid now id deviceId channel
      version rootUrl) := by
  have hfailed : ∀ reason, Advance uuid service id
      ((service.fail uuid now deviceId .image reason).leave id) := by
    intro reason
    have hfail := leads_fail huuid now hstoried deviceId .image reason
    exact Advance.of_leads hfail (advance_leaves hfail.storied)
  unfold applyVersion
  split
  · exact hfailed _
  · split
    · exact hfailed _
    · split
      · exact hfailed _
      · split
        · exact advance_leaves hstoried
        · exact advance_waits hstoried rfl

theorem advance_resumeInterrupted (deviceId : String) (last : Bool) :
    Advance uuid service id
      (service.resumeInterrupted uuid now id deviceId last) := by
  have htaken : service.Leads uuid (fun _ => False) { service with
      store := (service.store.takeResume deviceId now).2 } :=
    Leads.of_store hstoried
      (stays_takeResume service.store hstoried.nodup deviceId now)
  unfold resumeInterrupted
  split
  · exact advance_leaves hstoried
  · split
    · split
      · exact advance_leaves hstoried
      · exact advance_waits hstoried rfl
    · split
      · split
        · exact advance_leaves hstoried
        · exact advance_waits hstoried rfl
      · dsimp only
        split
        · exact Advance.of_leads htaken (advance_leaves htaken.storied)
        · split
          · exact Advance.of_leads htaken (advance_leaves htaken.storied)
          · exact Advance.of_leads htaken
              (advance_applyVersion huuid htaken.storied _ _ _ _)

/-- A caller that drives nothing goes on. -/
theorem advance_resume {caller : Caller} (hdrives : caller.drives = none)
    (answer : Answer) :
    Advance uuid service id (service.resume uuid now id caller answer) := by
  have hrests : Advance uuid service id service := advance_rests hstoried
  cases caller with
  | discovering config =>
      cases answer with
      | manifest found checkedAt =>
          exact advance_discovered huuid hstoried config found checkedAt
      | _ => exact hrests
  | cataloguing poll =>
      cases answer with
      | catalogs read => exact advance_waits hstoried rfl
      | _ => exact hrests
  | looping poll =>
      cases answer with
      | next => exact advance_pollNext huuid hstoried poll
      | _ => exact hrests
  | drifting deviceId announced latest release poll =>
      cases answer with
      | webapps installed =>
          apply advance_push huuid hstoried
          cases installed with
          | none => exact fun _ hmem => absurd hmem List.not_mem_nil
          | some installed =>
              cases release with
              | none => exact fun _ hmem => absurd hmem List.not_mem_nil
              | some release => exact builtin_of_drift
      | _ => exact hrests
  | listing deviceId poll =>
      cases answer with
      | updates found =>
          cases found with
          | none => exact advance_waits hstoried rfl
          | some updates => exact advance_waits hstoried rfl
      | _ => exact hrests
  | choosing deviceId updates poll =>
      cases answer with
      | next => exact advance_chooseNext hstoried deviceId updates poll
      | _ => exact hrests
  | downloading deviceId label after =>
      cases answer with
      | bundle bytes =>
          cases bytes with
          | none => exact advance_goOn hstoried after
          | some bytes => exact advance_takeTurn hstoried _ _ _
      | _ => exact hrests
  | queueing deviceId install after =>
      cases answer with
      | next => exact advance_takeTurn hstoried _ _ _
      | _ => exact hrests
  | claiming deviceId install notified after =>
      cases notified with
      | false => exact hrests
      | true =>
          cases answer with
          | next => exact advance_claimDevice hstoried _ _ _
          | _ => exact hrests
  | driving deviceId work after => exact absurd hdrives (Option.some_ne_none _)
  | applying deviceId channel version rootUrl composite announced =>
      cases answer with
      | manifest found checkedAt => exact advance_applied hstoried _ _ _ _ _ _ _
      | _ => exact hrests
  | resuming deviceId =>
      cases answer with
      | last last =>
          exact advance_resumeInterrupted huuid hstoried deviceId last
      | _ => exact hrests

/-- A drive begins with a run that nobody has heard of. -/
theorem begun {deviceId : String} {planned : OtaPollEvent} {work : Work}
    (hbegins : work.Begins deviceId planned) (after : After) :
    ∃ opened : OtaRun, opened.runId = uuid service.minted ∧
      opened.key = (deviceId, .of work.kind) ∧ work.Aims opened ∧
      opened.outcome = none ∧
      Storied uuid (service.beginRun uuid now id deviceId planned work
        after).store (service.minted + 1) ∧
      Follow (DrawnFrom uuid service.minted) (fun _ => False)
        { service.store with
          runs := service.store.runs.put (deviceId, .of work.kind) opened }
        (service.beginRun uuid now id deviceId planned work after).store := by
  obtain ⟨release, daemonVersion, imageVersion, channel, rootUrl, rfl, haims⟩ :=
    hbegins.planned
  have hmarked : Storied uuid
      { service with inFlight := insert deviceId service.inFlight
        : OtaService }.store service.minted := hstoried
  obtain ⟨hemitted, hfollow⟩ := storied_emit huuid now hmarked
    (.planned deviceId work.kind release daemonVersion imageVersion channel
      rootUrl work.plan)
  exact ⟨plannedRun (uuid service.minted) deviceId work.kind release
      daemonVersion imageVersion channel rootUrl work.plan now, rfl, rfl,
    haims _ _, rfl, hemitted, hfollow _
      (Table.nodup_keys_put hstoried.nodup _ _)⟩

end Advancing

end OtaService

end Ota

end Bridgething
