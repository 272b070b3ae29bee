/-
The update service of the companion: the links of its devices, the updates that
are driven over them and the restarts that are awaited.  Its callers are tasks
that give way to each other wherever they wait.
-/
import Bridgething.Ota.RunStore

namespace Bridgething

namespace Ota

namespace Service

def IMAGE_SWU_ASSET : String := "update.swu"

def SYSTEM_ZCK_ASSET : String := "system.img.zck"

def BOOT_ZCK_ASSET : String := "boot.vfat.zck"

def ABANDONED_REASON : String := "update ended without reporting a result"

def BACKOFF_BASE_MS : Nat := 120000

def BACKOFF_MAX_MS : Nat := 15 * 60 * 1000

def BACKOFF_SHIFT_CAP : Nat := 5

def LINK_STABILITY_MS : Nat := 120000

/-! ### What is published, and what a device says of itself -/

structure OtaCompositeVersion where
  daemon : String
  image : String
  daemon_ne : daemon ≠ ""
  image_ne : image ≠ ""

namespace OtaCompositeVersion

def parse (raw : String) : Option OtaCompositeVersion :=
  match raw.toList.dropWhile (· ≠ '+') with
  | [] => none
  | _ :: suffix =>
      match List.isPrefixOf? "image.".toList suffix with
      | none => none
      | some image =>
          let daemon := String.ofList (raw.toList.takeWhile (· ≠ '+'))
          let image := String.ofList image
          if h : daemon ≠ "" ∧ image ≠ "" then some ⟨daemon, image, h.1, h.2⟩
          else none

def composite (version : OtaCompositeVersion) : String :=
  version.daemon ++ "+image." ++ version.image

end OtaCompositeVersion

structure OtaWakeword where
  runtime : String
  model : String
  modelTrainedAgainst : Table String String := []

def OtaWakeword.trainedAgainst (wakeword : OtaWakeword) (model : String) :
    String :=
  (wakeword.modelTrainedAgainst.get? model).getD wakeword.runtime

/-- `sizes` is what the release declares of the size of an asset, by its label,
and 0 where it declares nothing. -/
structure OtaManifestRelease where
  yanked : Option String := none
  deprecated : Bool := false
  builtinWebapps : Table String String := []
  wakeword : Option OtaWakeword := none
  sizes : String → Nat := fun _ => 0

/-- `channels` is the latest version of each channel. -/
structure OtaDiscoverManifest where
  channels : Table String String
  releases : Table String OtaManifestRelease

structure BridgeThingMeta where
  serialNumber : String
  appVersion : String
  imageVersion : String
  channel : String
  wakewordModelVersion : Option String := none
deriving DecidableEq

structure Drift where
  image : Bool
  daemon : Bool

def drift (announced : BridgeThingMeta) (latest : OtaCompositeVersion) :
    Drift where
  image := announced.imageVersion ≠ latest.image
  daemon := announced.appVersion ≠ latest.daemon

def wakewordDrift (announced : BridgeThingMeta)
    (release : Option OtaManifestRelease) (daemonAfter : String) :
    Option String := do
  let wakeword ← (← release).wakeword
  let have' ← announced.wakewordModelVersion
  if have' = wakeword.model then none
  else if wakeword.trainedAgainst wakeword.model ≠ daemonAfter then none
  else some wakeword.model

def pushableRelease (manifest : OtaDiscoverManifest) (channel : String) :
    Option (OtaCompositeVersion × Option OtaManifestRelease) := do
  let newest ← manifest.channels.get? channel
  let latest ← OtaCompositeVersion.parse newest
  let release := manifest.releases.get? newest
  if release.any fun release => release.yanked.isSome || release.deprecated then
    none
  else some (latest, release)

/-! ### Plans -/

/-- A piece of a batch; `bytes` is 0 where its size is not declared. -/
structure BandaidPiece where
  kind : OtaKind
  version : String
  assetLabel : String
  bytes : Nat

def sizeOf (release : Option OtaManifestRelease) (label : String) : Nat :=
  match release with
  | some release => release.sizes label
  | none => 0

def daemonPiece (toVersion : String) (release : Option OtaManifestRelease) :
    BandaidPiece where
  kind := .daemon
  version := toVersion
  assetLabel := "daemon"
  bytes := sizeOf release "daemon"

def wakewordPiece (version : String) (release : Option OtaManifestRelease) :
    BandaidPiece where
  kind := .wakewordModel
  version := version
  assetLabel := "wake word model"
  bytes := sizeOf release "wake word model"

def builtinPiece (slug version : String)
    (release : Option OtaManifestRelease) : BandaidPiece where
  kind := .builtinWebapp
  version := version
  assetLabel := "webapp: " ++ slug
  bytes := sizeOf release ("webapp: " ++ slug)

/-- The webapps that come with the firmware. -/
def BUILTIN_WEBAPPS : List String := ["hub", "browser", "stock"]

/-- The built-in webapps of another version than the release's; `installed` is
what the device has, by slug. -/
def builtinWebappDrift (release : OtaManifestRelease)
    (installed : Table String String) : List BandaidPiece :=
  BUILTIN_WEBAPPS.filterMap fun slug => do
    let available ← release.builtinWebapps.get? slug
    let current ← installed.get? slug
    if current = available then none
    else some (builtinPiece slug available (some release))

/-- What is pushed to a device whose image stays: its daemon where that has
drifted, the webapps given and the wake word model where that has. -/
def batch (announced : BridgeThingMeta) (latest : OtaCompositeVersion)
    (release : Option OtaManifestRelease) (webapps : List BandaidPiece) :
    List BandaidPiece :=
  (if (drift announced latest).daemon then [daemonPiece latest.daemon release]
    else []) ++ webapps ++
    ((wakewordDrift announced release latest.daemon).map
      fun version => wakewordPiece version release).toList

def imagePlan (release : Option OtaManifestRelease) : List OtaPlanStep :=
  [⟨0, .download, IMAGE_SWU_ASSET, sizeOf release IMAGE_SWU_ASSET⟩,
    ⟨1, .download, SYSTEM_ZCK_ASSET, sizeOf release SYSTEM_ZCK_ASSET⟩,
    ⟨2, .download, BOOT_ZCK_ASSET, sizeOf release BOOT_ZCK_ASSET⟩,
    ⟨3, .stream, IMAGE_SWU_ASSET, sizeOf release IMAGE_SWU_ASSET⟩,
    ⟨4, .apply, "installing image", sizeOf release SYSTEM_ZCK_ASSET⟩,
    ⟨5, .reboot, "reboot", 0⟩]

def bandaidPlan (pieces : List BandaidPiece) : List OtaPlanStep :=
  let count := pieces.length
  (pieces.mapIdx fun place piece =>
      ⟨place, .download, piece.assetLabel, piece.bytes⟩) ++
    (pieces.mapIdx fun place piece =>
      ⟨count + place, .stream, piece.assetLabel, piece.bytes⟩) ++
    [⟨2 * count, .apply, "installing", 0⟩,
      ⟨2 * count + 1, .reboot, "reboot", 0⟩]

def webappPlan (bytes : Nat) : List OtaPlanStep :=
  [⟨0, .stream, "webapp", bytes⟩, ⟨1, .apply, "installing", 0⟩]

/-- What a snapshot asks of the step it belongs to. -/
def asksFor (step : OtaPlanStep) : OtaPhaseSnapshot → Bool
  | .downloading asset _ _ _ => step.kind = .download && step.label = asset
  | .streaming asset _ _ _ _ => step.kind = .stream && step.label = asset
  | .applying .reboot _ => step.kind = .reboot
  | .applying _ _ => step.kind = .apply
  | _ => false

/-- Steps are found ahead of the cursor only. -/
def routeStep (plan : List OtaPlanStep) (cursor : Nat)
    (snapshot : OtaPhaseSnapshot) : Nat :=
  match (plan.drop cursor).findIdx? fun step => asksFor step snapshot with
  | some ahead => cursor + ahead
  | none => min cursor (plan.length - 1)

/-! ### When a device is pushed to -/

structure AutoPushSchedule where
  failures : Nat := 0
  nextAtMs : Option Nat := none
  linkOpenedAtMs : Option Nat := none

namespace AutoPushSchedule

def recordFailure (schedule : AutoPushSchedule) (now : Nat) :
    AutoPushSchedule :=
  let rawMs := BACKOFF_BASE_MS <<< min schedule.failures BACKOFF_SHIFT_CAP
  { schedule with
    failures := schedule.failures + 1
    nextAtMs := some (now + min rawMs BACKOFF_MAX_MS) }

def recordSuccess (schedule : AutoPushSchedule) : AutoPushSchedule :=
  { schedule with failures := 0, nextAtMs := none }

def linkStable (schedule : AutoPushSchedule) (now : Nat) : Bool :=
  schedule.linkOpenedAtMs.any fun opened => LINK_STABILITY_MS ≤ now - opened

def ready (schedule : AutoPushSchedule) (now : Nat) : Bool :=
  schedule.linkStable now && decide (schedule.nextAtMs.getD 0 ≤ now)

end AutoPushSchedule

/-! ### What a caller waits for -/

structure WebappLabel where
  id : String
  name : String
  version : String
deriving DecidableEq

structure OtaPollConfig where
  rootUrl : String
  autoPush : Bool

/-- What a poll has still to go through; `catalogs` tells that some catalog was
read. -/
structure Poll where
  config : OtaPollConfig
  manifest : Option OtaDiscoverManifest := none
  catalogs : Bool := false
  announced : List (String × BridgeThingMeta) := []

/-- What a caller goes on with once a device is updated; `updates` are the apps
that a catalog has another version for. -/
inductive After
  | ends
  | polls (poll : Poll)
  | apps (deviceId : String) (updates : List WebappLabel) (poll : Poll)

/-- An update while it is driven: `link` is the generation of the link that it
was driven over last. -/
structure Work where
  kind : OtaKind
  pieces : List (OtaKind × String)
  plan : List OtaPlanStep
  cursor : Nat := 0
  link : Option Nat := none

structure Install where
  label : Option WebappLabel
  bytes : Nat

/-- Where a caller waits: a poll for the manifest or the catalogs, and between
two devices; a reconciliation for the webapps of its device; the store updates
of a device for its webapps and for each bundle, and between two of them; an
install for its turn and for the device; whoever drives a device for what comes
of it; an asked-for version for the manifest; an interrupted update for its
device. -/
inductive Caller
  | discovering (config : OtaPollConfig)
  | cataloguing (poll : Poll)
  | looping (poll : Poll)
  | drifting (deviceId : String) (announced : BridgeThingMeta)
      (latest : OtaCompositeVersion) (release : Option OtaManifestRelease)
      (poll : Poll)
  | listing (deviceId : String) (poll : Poll)
  | choosing (deviceId : String) (updates : List WebappLabel) (poll : Poll)
  | downloading (deviceId : String) (label : WebappLabel) (after : After)
  | queueing (deviceId : String) (install : Install) (after : After)
  | claiming (deviceId : String) (install : Install) (notified : Bool)
      (after : After)
  | driving (deviceId : String) (work : Work) (after : After)
  | applying (deviceId channel version rootUrl : String)
      (composite : OtaCompositeVersion) (announced : BridgeThingMeta)
  | resuming (deviceId : String)

namespace Caller

/-- The device that a caller drives. -/
def drives : Caller → Option String
  | driving deviceId _ _ => some deviceId
  | _ => none

/-- The device whose turn to install a caller has. -/
def hasTurn : Caller → Option String
  | claiming deviceId _ _ _ => some deviceId
  | driving deviceId work _ =>
      if work.kind = .installedWebapp then some deviceId else none
  | _ => none

def notify : Caller → Caller
  | claiming deviceId install _ after => claiming deviceId install true after
  | caller => caller

end Caller

/-! ### The service -/

structure Link where
  announced : Option BridgeThingMeta := none
  generation : Nat

structure RestartTarget where
  runId : String
  kind : OtaKind
  version : String
  pieces : List (OtaKind × String)
  askedOn : Nat

def restartsDevice : OtaKind → Bool
  | .image | .daemon => true
  | _ => false

namespace RestartTarget

/-- The restart that a reloaded run waits for. -/
def awaitedBy (run : OtaRun) : Option (String × RestartTarget) := do
  if run.outcome.isSome ∨ run.phase ≠ .reboot ∨ ¬ restartsDevice run.kind then
    none
  else
    let version ← match run.kind with
      | .image => run.imageVersion
      | _ => run.daemonVersion
    return (run.deviceId, {
      runId := run.runId
      kind := run.kind
      version := version
      pieces := [(run.kind, version)]
      askedOn := 0 })

/-- The version that came back, of what was updated. -/
def landed (kind : OtaKind) (announced : BridgeThingMeta) : String :=
  match kind with
  | .image => announced.imageVersion
  | _ => announced.appVersion

def noun : OtaKind → String
  | .image => "image "
  | _ => ""

/-- The reason of a verdict against the device. -/
def verdict (target : RestartTarget) (announced : BridgeThingMeta) :
    Option String :=
  if landed target.kind announced = target.version then none
  else some ("the device came back on " ++ noun target.kind ++
    landed target.kind announced ++ ", not " ++ target.version)

end RestartTarget

/-- What a drive ends in. -/
inductive Terminal
  | completed
  | staged
  | failed (reason : String)

structure Landed where
  terminal : Terminal
  link : Nat

end Service

open Service

/-- `minted` counts the run ids that were drawn, and `spawned` the callers. -/
structure OtaService where
  store : OtaRunStore
  identities : Table String String := []
  webappLabels : Table String WebappLabel := []
  links : Table String Link := []
  schedules : Table String AutoPushSchedule := []
  restarts : Table String RestartTarget := []
  linkGenerations : Nat := 0
  inFlight : Finset String := ∅
  storeAttempts : Finset (String × String × String) := ∅
  callers : Table Nat Caller := []
  spawned : Nat := 0
  minted : Nat := 0

end Ota

end Bridgething
