/-
What the update service does between two waits of its callers.
-/
import Bridgething.Ota.Service

namespace Bridgething

namespace Ota

open Service

/-- The device an event is about. -/
def OtaPollEvent.deviceId? : OtaPollEvent → Option String
  | .manifestPolled _ | .manifestPollFailed _ => none
  | .updateAvailable deviceId _ _ _ => some deviceId
  | .planned deviceId _ _ _ _ _ _ _ => some deviceId
  | .progress deviceId _ _ _ => some deviceId
  | .updated deviceId _ _ => some deviceId
  | .failed deviceId _ _ => some deviceId

def OtaRunStore.clearAvailable (store : OtaRunStore) (deviceId : String) :
    OtaRunStore :=
  { store with available := store.available.remove deviceId }

namespace OtaService

/-- The restarts that a store's runs wait for, as it is reloaded. -/
def awaited (runs : List OtaRun) : Table String RestartTarget :=
  (runs.filterMap RestartTarget.awaitedBy).foldl
    (fun restarts entry => restarts.put entry.1 entry.2) []

/-- The service of a new process, over what an earlier one wrote. -/
def new (file : Option (Option PersistedRuns)) : OtaService where
  store := .new file
  restarts := awaited (OtaRunStore.new file).runs.values

section Emission

variable (uuid : Nat → String) (now : Nat) (service : OtaService)

/-- A changed install is given the label of its webapp. -/
def annotate (label : WebappLabel) (store : OtaRunStore)
    (change : OtaStoreChange) : OtaRunStore :=
  match change with
  | .run run =>
      if run.kind ≠ .installedWebapp ∨ run.webappId = some label.id then store
      else (store.annotateWebapp run.deviceId (some label.id)
        (some label.name) now).2
  | _ => store

def emit (event : OtaPollEvent) : OtaService :=
  let identity := event.deviceId?.bind service.identities.get?
  let label := event.deviceId?.bind service.webappLabels.get?
  let (changes, store) :=
    service.store.ingest event identity now (uuid service.minted)
  { service with
    store := match label with
      | none => store
      | some label => changes.foldl (annotate now label) store
    minted := service.minted + 1 }

def fail (deviceId : String) (kind : OtaKind) (reason : String) : OtaService :=
  service.emit uuid now (.failed deviceId kind reason)

def succeed (deviceId : String) (pieces : List (OtaKind × String)) :
    OtaService :=
  pieces.foldl (fun service piece =>
    service.emit uuid now (.updated deviceId piece.1 piece.2)) service

def interruptRun (deviceId : String) : OtaService :=
  { service with store := (service.store.interrupt deviceId now).2 }

def noteAutoPushResult (deviceId : String) (pushFailed : Bool) : OtaService :=
  match service.schedules.get? deviceId with
  | none => service
  | some schedule =>
      { service with
        schedules := service.schedules.put deviceId
          (if pushFailed then schedule.recordFailure now
            else schedule.recordSuccess) }

def autoPushReady (deviceId : String) : Bool :=
  (service.schedules.get? deviceId).any fun schedule => schedule.ready now

/-- Those that wait for the device look again. -/
def notifyWaiters : OtaService :=
  { service with
    callers := service.callers.map fun entry => (entry.1, entry.2.notify) }

def busy (deviceId : String) : Bool :=
  decide (deviceId ∈ service.inFlight) ||
    (service.restarts.get? deviceId).isSome

def metaOf (deviceId : String) : Option BridgeThingMeta :=
  (service.links.get? deviceId).bind Link.announced

/-! ### Restarts -/

def settleRestart (deviceId : String) (target : RestartTarget)
    (announced : BridgeThingMeta) : OtaService :=
  let verdict := target.verdict announced
  let service := service.noteAutoPushResult now deviceId verdict.isSome
  let current := (service.store.run deviceId (.of target.kind)).any
    fun run => run.runId = target.runId
  if ¬ current then service
  else
    match verdict with
    | none => service.succeed uuid now deviceId target.pieces
    | some reason => service.fail uuid now deviceId target.kind reason

def identify (deviceId : String) (announced : BridgeThingMeta) : OtaService :=
  if announced.serialNumber.isEmpty then service
  else
    { service with
      identities := service.identities.put deviceId announced.serialNumber }

/-- An announcement on a link; that of a link that came after the restart was
asked for settles it. -/
def recordOn (deviceId : String) (announced : BridgeThingMeta) (link : Link) :
    OtaService :=
  let linked :=
    { service with
      links := service.links.put deviceId
        { link with announced := some announced } }
  match service.restarts.get? deviceId with
  | none => linked
  | some target =>
      if target.askedOn < link.generation then
        ({ linked with
          restarts := service.restarts.remove deviceId
          : OtaService }.settleRestart uuid now deviceId target
            announced).notifyWaiters
      else linked

def recordMeta (deviceId : String) (announced : BridgeThingMeta) :
    OtaService :=
  let known := service.identify deviceId announced
  match service.links.get? deviceId with
  | none => known
  | some link => known.recordOn uuid now deviceId announced link

def awaitRestart (deviceId : String) (target : RestartTarget) : OtaService :=
  let fresh := (service.links.get? deviceId).bind fun link =>
    if target.askedOn < link.generation then link.announced else none
  match fresh with
  | some announced =>
      service.settleRestart uuid now deviceId target announced
  | none =>
      { service with restarts := service.restarts.put deviceId target }

/-- How a drive that ended is told of; a restart has its verdict later. -/
def conclude (deviceId : String) (kind : OtaKind)
    (pieces : List (OtaKind × String)) (landed : Landed) :
    Option Bool × OtaService :=
  match landed.terminal with
  | .failed reason => (some true, service.fail uuid now deviceId kind reason)
  | _ =>
      if restartsDevice kind then
        let version := (pieces.find? fun piece => piece.1 = kind).map Prod.snd
        let run := service.store.run deviceId (.of kind)
        (none, service.awaitRestart uuid now deviceId {
          runId := (run.map OtaRun.runId).getD ""
          kind := kind
          version := version.getD ""
          pieces := pieces
          askedOn := landed.link })
      else (some false, service.succeed uuid now deviceId pieces)

/-- The runs that a device is done with and that were told of nothing. -/
def abandoned (deviceId : String) : List OtaKind :=
  let awaiting := (service.restarts.get? deviceId).map RestartTarget.runId
  let runs := OtaLane.ALL.filterMap fun lane => service.store.run deviceId lane
  (runs.filter fun run =>
    run.outcome.isNone && decide (some run.runId ≠ awaiting)).map OtaRun.kind

def endInFlight (deviceId : String) : OtaService :=
  let service :=
    { service with
      inFlight := service.inFlight.erase deviceId
      : OtaService }.notifyWaiters
  (service.abandoned deviceId).foldl (fun service kind =>
    service.fail uuid now deviceId kind ABANDONED_REASON) service

end Emission

/-! ### Callers -/

section Callers

variable (uuid : Nat → String) (now : Nat) (service : OtaService) (id : Nat)

def wait (caller : Caller) : OtaService :=
  { service with callers := service.callers.put id caller }

def leave : OtaService :=
  { service with callers := service.callers.remove id }

/-- A new caller, as far as it waits for something. -/
def spawn (caller : Caller) : OtaService :=
  { service.wait service.spawned caller with spawned := service.spawned + 1 }

/-- After an update of a device. -/
def goOn : After → OtaService
  | .ends => service.leave id
  | .polls poll => service.wait id (.looping poll)
  | .apps deviceId updates poll =>
      if (service.links.get? deviceId).isNone then
        service.wait id (.looping poll)
      else service.wait id (.choosing deviceId updates poll)

/-- The device is marked, the run is planned and the drive begins. -/
def beginRun (deviceId : String) (planned : OtaPollEvent) (work : Work)
    (after : After) : OtaService :=
  ({ service with
    inFlight := insert deviceId service.inFlight
    : OtaService }.emit uuid now planned).wait id
      (.driving deviceId work after)

def runImageAuto (deviceId channel rootUrl : String)
    (latest : OtaCompositeVersion) (release : Option OtaManifestRelease)
    (after : After) : OtaService :=
  if deviceId ∈ service.inFlight then service.goOn id after
  else
    let plan := imagePlan release
    service.beginRun uuid now id deviceId
      (.planned deviceId .image latest.composite latest.daemon latest.image
        channel rootUrl plan)
      { kind := .image, pieces := [(.image, latest.image)], plan := plan } after

/-- The kind that a batch is known by. -/
def batchKind (pieces : List BandaidPiece) : OtaKind :=
  if pieces.any fun piece => piece.kind = .daemon then .daemon
  else (pieces.head?.map BandaidPiece.kind).getD .builtinWebapp

def runBandaidBatchAuto (deviceId channel rootUrl : String)
    (pieces : List BandaidPiece) (latest : OtaCompositeVersion)
    (after : After) : OtaService :=
  if pieces.isEmpty ∨ deviceId ∈ service.inFlight then service.goOn id after
  else
    let kind := batchKind pieces
    let plan := bandaidPlan pieces
    service.beginRun uuid now id deviceId
      (.planned deviceId kind latest.composite latest.daemon latest.image
        channel rootUrl plan)
      { kind := kind
        pieces := pieces.map fun piece => (piece.kind, piece.version)
        plan := plan } after

/-- One look at the device by an install that has its turn. -/
def claimDevice (deviceId : String) (install : Install) (after : After) :
    OtaService :=
  if (service.restarts.get? deviceId).isSome ∨ deviceId ∈ service.inFlight then
    service.wait id (.claiming deviceId install false after)
  else
    let labelled :=
      match install.label with
      | none => service
      | some label =>
          { service with
            webappLabels := service.webappLabels.put deviceId label }
    let plan := webappPlan install.bytes
    labelled.beginRun uuid now id deviceId
      (.planned deviceId .installedWebapp "" "" "" "" "" plan)
      { kind := .installedWebapp, pieces := [], plan := plan } after

def turnTaken (deviceId : String) : Bool :=
  service.callers.any fun entry => entry.2.hasTurn = some deviceId

def takeTurn (deviceId : String) (install : Install) (after : After) :
    OtaService :=
  if service.turnTaken deviceId then
    service.wait id (.queueing deviceId install after)
  else service.claimDevice uuid now id deviceId install after

/-! #### Polls -/

def updateStoreApps (deviceId : String) (poll : Poll) : OtaService :=
  if ¬ poll.catalogs ∨ service.busy deviceId ∨
      ¬ service.autoPushReady now deviceId ∨
        (service.links.get? deviceId).isNone then
    service.wait id (.looping poll)
  else service.wait id (.listing deviceId poll)

/-- A reconciliation that has the webapps of its device, or cannot have them. -/
def push (deviceId : String) (announced : BridgeThingMeta)
    (latest : OtaCompositeVersion) (release : Option OtaManifestRelease)
    (webapps : Option (List BandaidPiece)) (poll : Poll) : OtaService :=
  let image := (drift announced latest).image
  let batch := batch announced latest release (webapps.getD [])
  if ¬ image ∧ batch.isEmpty then
    let service :=
      if webapps.isSome then
        { service with store := service.store.clearAvailable deviceId }
      else service
    service.updateStoreApps now id deviceId poll
  else
    let told := service.emit uuid now (.updateAvailable deviceId
      latest.composite latest.daemon latest.image)
    if ¬ (poll.config.autoPush && service.autoPushReady now deviceId) then
      told.updateStoreApps now id deviceId poll
    else if image then
      told.runImageAuto uuid now id deviceId announced.channel
        poll.config.rootUrl latest release (.polls poll)
    else
      told.runBandaidBatchAuto uuid now id deviceId announced.channel
        poll.config.rootUrl batch latest (.polls poll)

def reconcile (deviceId : String) (announced : BridgeThingMeta)
    (latest : OtaCompositeVersion) (release : Option OtaManifestRelease)
    (poll : Poll) : OtaService :=
  if service.busy deviceId then service.wait id (.looping poll)
  else if ((release.map OtaManifestRelease.builtinWebapps).getD []).isEmpty then
    service.push uuid now id deviceId announced latest release (some []) poll
  else if (service.links.get? deviceId).isNone then
    service.push uuid now id deviceId announced latest release none poll
  else
    service.wait id (.drifting deviceId announced latest release poll)

/-- The next device of a poll. -/
def pollNext (poll : Poll) : OtaService :=
  match poll.announced with
  | [] => service.leave id
  | (deviceId, announced) :: rest =>
      let poll := { poll with announced := rest }
      match poll.manifest.bind fun manifest =>
          pushableRelease manifest announced.channel with
      | some (latest, release) =>
          service.reconcile uuid now id deviceId announced latest release poll
      | none => service.updateStoreApps now id deviceId poll

def announcements : List (String × BridgeThingMeta) :=
  service.links.filterMap fun entry =>
    entry.2.announced.map fun announced => (entry.1, announced)

def discovered (config : OtaPollConfig)
    (found : Except String OtaDiscoverManifest) (checkedAt : String) :
    OtaService :=
  let told := service.emit uuid now (match found with
    | .ok _ => .manifestPolled checkedAt
    | .error reason => .manifestPollFailed reason)
  let poll : Poll := {
    config := config
    manifest := found.toOption
    announced := service.announcements }
  if config.autoPush ∧ poll.announced ≠ [] then
    told.wait id (.cataloguing poll)
  else told.wait id (.looping poll)

/-- The next app of a device for which a catalog has another version. -/
def chooseNext (deviceId : String) (updates : List WebappLabel)
    (poll : Poll) : OtaService :=
  match updates with
  | [] => service.wait id (.looping poll)
  | label :: rest =>
      let attempt := (deviceId, label.id, label.version)
      if attempt ∈ service.storeAttempts then
        service.wait id (.choosing deviceId rest poll)
      else
        { service with
          storeAttempts := insert attempt service.storeAttempts
          : OtaService }.wait id
            (.downloading deviceId label (.apps deviceId rest poll))

/-! #### Versions that are asked for -/

def applyVersion (deviceId channel version rootUrl : String) : OtaService :=
  if (service.links.get? deviceId).isNone then
    (service.fail uuid now deviceId .image "no link to the device").leave id
  else
    match OtaCompositeVersion.parse version with
    | none =>
        (service.fail uuid now deviceId .image
          ("'" ++ version ++ "' is not a composite version")).leave id
    | some composite =>
        match service.metaOf deviceId with
        | none =>
            (service.fail uuid now deviceId .image
              "device meta not yet known").leave id
        | some announced =>
            if service.busy deviceId then service.leave id
            else service.wait id
              (.applying deviceId channel version rootUrl composite announced)

def applied (deviceId channel version rootUrl : String)
    (composite : OtaCompositeVersion) (announced : BridgeThingMeta)
    (manifest : Option OtaDiscoverManifest) : OtaService :=
  let release := manifest.bind fun manifest => manifest.releases.get? version
  if (drift announced composite).image then
    service.runImageAuto uuid now id deviceId channel rootUrl composite release
      .ends
  else
    service.runBandaidBatchAuto uuid now id deviceId channel rootUrl
      (batch announced composite release []) composite .ends

/-- One look at the device of an update that its link interrupted; the last one
gives up. -/
def resumeInterrupted (deviceId : String) (last : Bool) : OtaService :=
  if (service.links.get? deviceId).isNone then service.leave id
  else
    match service.metaOf deviceId with
    | none =>
        if last then service.leave id
        else service.wait id (.resuming deviceId)
    | some announced =>
        if deviceId ∈ service.inFlight then
          if last then service.leave id
          else service.wait id (.resuming deviceId)
        else
          let held := (service.store.run deviceId .firmware).bind
            OtaRun.identity
          let (resume, store) := service.store.takeResume deviceId now
          let taken := { service with store := store }
          if held.any fun held => held != announced.serialNumber then
            taken.leave id
          else
            match resume with
            | none => taken.leave id
            | some resume =>
                taken.applyVersion uuid now id deviceId resume.channel
                  resume.version resume.rootUrl

/-! #### Drives -/

/-- A drive, or the activation of what was staged, takes the link there is. -/
def openLink (deviceId : String) (work : Work) (after : After) : OtaService :=
  match service.links.get? deviceId with
  | none => service
  | some link =>
      service.wait id
        (.driving deviceId { work with link := some link.generation } after)

/-- A tick of the device, a chunk that was sent or a download. -/
def progress (deviceId : String) (work : Work) (after : After)
    (snapshot : OtaPhaseSnapshot) : OtaService :=
  let cursor := routeStep work.plan work.cursor snapshot
  let stepId := match work.plan[cursor]? with
    | none => 0
    | some step => step.id
  (service.emit uuid now (.progress deviceId work.kind stepId snapshot)).wait id
    (.driving deviceId { work with cursor := cursor } after)

/-- How a drive ended, in the run and in the schedule. -/
def report (deviceId : String) (work : Work) (terminal : Terminal)
    (installed : Option String) : OtaService :=
  let pieces :=
    if work.kind = .installedWebapp then
      [(OtaKind.installedWebapp, installed.getD "")]
    else work.pieces
  let concluded := service.conclude uuid now deviceId work.kind pieces
    ⟨terminal, work.link.getD 0⟩
  match concluded.1 with
  | none => concluded.2
  | some pushFailed =>
      if work.kind = .installedWebapp then concluded.2
      else concluded.2.noteAutoPushResult now deviceId pushFailed

def unlabel (deviceId : String) (kind : OtaKind) : OtaService :=
  if kind = .installedWebapp then
    { service with webappLabels := service.webappLabels.remove deviceId }
  else service

/-- The drive has ended. -/
def finish (deviceId : String) (work : Work) (after : After)
    (terminal : Terminal) (installed : Option String) : OtaService :=
  let reported := service.report uuid now deviceId work terminal installed
  let ended := reported.endInFlight uuid now deviceId
  (ended.unlabel deviceId work.kind).goOn id after

end Callers

end OtaService

namespace Service

/-- What a caller has waited for.  A drive opens a link, is told of progress,
finds that the link is lost, and ends; only one that opened a link succeeds. -/
inductive Answer
  | manifest (found : Except String OtaDiscoverManifest) (checkedAt : String)
  | catalogs (read : Bool)
  | next
  | webapps (installed : Option (Table String String))
  | updates (found : Option (List WebappLabel))
  | bundle (bytes : Option Nat)
  | last (last : Bool)
  | opened
  | told (snapshot : OtaPhaseSnapshot)
  | lost
  | ended (terminal : Terminal) (installed : Option String)

/-- What happens to the service: a call, a caller that is resumed or dropped, a
link, an announcement, and the end of the process. -/
inductive Action
  | poll (config : OtaPollConfig)
  | apply (deviceId channel version rootUrl : String)
  | install (deviceId : String) (install : Install)
  | resume (id : Nat) (answer : Answer)
  | drop (id : Nat)
  | adopt (deviceId : String)
  | release (deviceId : String)
  | announce (deviceId : String) (announced : BridgeThingMeta)
  | relaunch

end Service

namespace OtaService

section Steps

variable (uuid : Nat → String) (now : Nat) (service : OtaService)

/-- A link for which an interrupted update waits resumes it. -/
def adopt (deviceId : String) : OtaService :=
  let generation := service.linkGenerations + 1
  let schedule := (service.schedules.get? deviceId).getD {}
  let adopted :=
    { service with
      links := service.links.put deviceId { generation := generation }
      linkGenerations := generation
      identities := service.identities.remove deviceId
      schedules := service.schedules.put deviceId
        { schedule with linkOpenedAtMs := some now } }
  if (service.store.run deviceId .firmware).any OtaRun.resumable then
    adopted.spawn (.resuming deviceId)
  else adopted

def release (deviceId : String) : OtaService :=
  if (service.links.get? deviceId).isNone then service
  else
    let schedules :=
      match service.schedules.get? deviceId with
      | none => service.schedules
      | some schedule =>
          if schedule.failures = 0 ∧ schedule.nextAtMs.isNone then
            service.schedules.remove deviceId
          else service.schedules.put deviceId
            { schedule with linkOpenedAtMs := none }
    { service with
      links := service.links.remove deviceId
      schedules := schedules
      : OtaService }.interruptRun now deviceId

/-- A caller goes on to where it waits next. -/
def resume (id : Nat) (caller : Caller) (answer : Answer) : OtaService :=
  match caller, answer with
  | .discovering config, .manifest found checkedAt =>
      service.discovered uuid now id config found checkedAt
  | .cataloguing poll, .catalogs read =>
      service.wait id (.looping { poll with catalogs := read })
  | .looping poll, .next => service.pollNext uuid now id poll
  | .drifting deviceId announced latest release poll, .webapps installed =>
      service.push uuid now id deviceId announced latest release
        (installed.bind fun installed =>
          release.map fun release => builtinWebappDrift release installed) poll
  | .listing _ poll, .updates none => service.wait id (.looping poll)
  | .listing deviceId poll, .updates (some updates) =>
      service.wait id (.choosing deviceId updates poll)
  | .choosing deviceId updates poll, .next =>
      service.chooseNext id deviceId updates poll
  | .downloading _ _ after, .bundle none => service.goOn id after
  | .downloading deviceId label after, .bundle (some bytes) =>
      service.takeTurn uuid now id deviceId ⟨some label, bytes⟩ after
  | .queueing deviceId install after, .next =>
      service.takeTurn uuid now id deviceId install after
  | .claiming deviceId install true after, .next =>
      service.claimDevice uuid now id deviceId install after
  | .driving deviceId work after, .opened =>
      service.openLink id deviceId work after
  | .driving deviceId work after, .told snapshot =>
      service.progress uuid now id deviceId work after snapshot
  | .driving deviceId _ _, .lost => service.interruptRun now deviceId
  | .driving deviceId work after, .ended (.failed reason) _ =>
      service.finish uuid now id deviceId work after (.failed reason) none
  | .driving deviceId work after, .ended terminal installed =>
      if work.link.isNone then service
      else service.finish uuid now id deviceId work after terminal installed
  | .applying deviceId channel version rootUrl composite announced,
      .manifest found _ =>
      service.applied uuid now id deviceId channel version rootUrl composite
        announced found.toOption
  | .resuming deviceId, .last last =>
      service.resumeInterrupted uuid now id deviceId last
  | _, _ => service

/-- An action at its time. -/
def step (service : OtaService) (action : Nat × Action) : OtaService :=
  match action with
  | (_, .poll config) => service.spawn (.discovering config)
  | (now, .apply deviceId channel version rootUrl) =>
      { service with
        spawned := service.spawned + 1
        : OtaService }.applyVersion uuid now service.spawned deviceId channel
          version rootUrl
  | (now, .install deviceId install) =>
      { service with
        spawned := service.spawned + 1
        : OtaService }.takeTurn uuid now service.spawned deviceId install .ends
  | (now, .resume id answer) =>
      match service.callers.get? id with
      | none => service
      | some caller => service.resume uuid now id caller answer
  | (_, .drop id) => service.leave id
  | (now, .adopt deviceId) => service.adopt now deviceId
  | (now, .release deviceId) => service.release now deviceId
  | (now, .announce deviceId announced) =>
      service.recordMeta uuid now deviceId announced
  | (_, .relaunch) => { new service.store.file with minted := service.minted }

end Steps

end OtaService

end Ota

end Bridgething
