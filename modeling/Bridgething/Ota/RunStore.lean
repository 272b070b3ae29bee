/-
The store of update runs: one run per device and lane, reduced from the events
of its drive, persisted on every change of identity and reloaded as interrupted.
-/
import Bridgething.Lib.Table

namespace Bridgething

namespace Ota

def CANCELLED_REASON : String := "cancelled"

def INTERRUPTED_REASON : String := "the device disconnected mid-update"

def RESUMABLE_REASON : String :=
  "the device disconnected mid-update; it will pick up where it left off"

def SCHEMA_VERSION : Nat := 1

def COUNTER_PERSIST_INTERVAL_MS : Nat := 5000

inductive OtaKind
  | image
  | daemon
  | builtinWebapp
  | installedWebapp
  | wakewordModel
deriving Repr, DecidableEq

inductive OtaPhase
  | streaming
  | verifying
  | writing
  | confirming
  | reboot
deriving Repr, DecidableEq

inductive OtaStepKind
  | download
  | stream
  | apply
  | reboot
deriving Repr, DecidableEq

structure OtaPlanStep where
  id : Nat
  kind : OtaStepKind
  label : String
  bytes : Nat
deriving Repr, DecidableEq

inductive OtaPhaseSnapshot
  | idle
  | downloading (asset : String) (received total : Nat)
      (ratePerSec : Option Float)
  | streaming (asset : String) (sent total : Nat)
      (ratePerSec etaSeconds : Option Float)
  | applying (phase : OtaPhase) (writePercent : Nat)
  | staged
  | completed
  | failed (reason : String)
deriving Repr

inductive OtaPollEvent
  | manifestPolled (checkedAt : String)
  | manifestPollFailed (reason : String)
  | updateAvailable (deviceId release daemonVersion imageVersion : String)
  | planned (deviceId : String) (kind : OtaKind)
      (release daemonVersion imageVersion channel rootUrl : String)
      (steps : List OtaPlanStep)
  | progress (deviceId : String) (kind : OtaKind) (stepId : Nat)
      (snapshot : OtaPhaseSnapshot)
  | updated (deviceId : String) (kind : OtaKind) (version : String)
  | failed (deviceId : String) (kind : OtaKind) (reason : String)
deriving Repr

inductive OtaRunOutcome
  | succeeded
  | failed
  | cancelled
deriving Repr, DecidableEq

inductive OtaLane
  | firmware
  | webapp
deriving Repr, DecidableEq

def OtaLane.ALL : List OtaLane := [.firmware, .webapp]

def OtaLane.of : OtaKind → OtaLane
  | .installedWebapp => .webapp
  | _ => .firmware

inductive OtaRunPhase
  | idle
  | downloading
  | streaming
  | verifying
  | writing
  | confirming
  | reboot
  | completed
  | failed
deriving Repr, DecidableEq

structure OtaRun where
  runId : String
  deviceId : String
  identity : Option String
  kind : OtaKind
  phase : OtaRunPhase
  steps : List OtaPlanStep
  stepId : Nat
  startedAtMs : Nat
  phaseStartedAtMs : Nat
  stageReceived : Option Nat
  stageTotal : Option Nat
  ratePerSec : Option Float
  writePercent : Option Nat
  outcome : Option OtaRunOutcome
  error : Option String
  releaseVersion : Option String
  daemonVersion : Option String
  imageVersion : Option String
  channel : Option String
  rootUrl : Option String
  resumable : Bool
  webappId : Option String
  webappName : Option String
deriving Repr

def OtaRun.lane (run : OtaRun) : OtaLane := .of run.kind

abbrev RunKey := String × OtaLane

/-- The key a run is held under. -/
def OtaRun.key (run : OtaRun) : RunKey := (run.deviceId, run.lane)

structure OtaResume where
  channel : String
  rootUrl : String
  version : String
deriving Repr, DecidableEq

structure OtaAvailable where
  deviceId : String
  releaseVersion : Option String
  daemonVersion : Option String
  imageVersion : Option String
deriving Repr, DecidableEq

structure OtaPollStatus where
  lastPolledAt : Option String
  error : Option String
deriving Repr, DecidableEq

inductive OtaStoreChange
  | run (run : OtaRun)
  | available (available : OtaAvailable)
  | poll (status : OtaPollStatus)
deriving Repr

def OtaStoreChange.isRun : OtaStoreChange → Bool
  | .run _ => true
  | _ => false

structure PersistedRuns where
  version : Nat
  runs : List OtaRun
deriving Repr

/-- `file` is absent without a data directory, and its content is absent until
the first write. -/
structure OtaRunStore where
  file : Option (Option PersistedRuns)
  wroteAtMs : Nat
  runs : Table RunKey OtaRun
  available : Table String OtaAvailable
  poll : OtaPollStatus
deriving Repr

def unsetIfEmpty (value : String) : Option String :=
  if value.isEmpty then none else some value

def resumeOf (run : OtaRun) : Option OtaResume := do
  return {
    channel := ← run.channel
    rootUrl := ← run.rootUrl
    version := ← run.releaseVersion }

/-- The run has asked the device to go away. -/
def OtaRunPhase.isHandedToDevice (phase : OtaRunPhase) : Bool :=
  phase = .reboot ∨ phase = .confirming

def strand (run : OtaRun) : OtaRun :=
  if run.outcome.isSome ∨ run.phase.isHandedToDevice then run
  else
    let resumable := (resumeOf run).isSome
    { run with
      resumable := resumable
      phase := .failed
      outcome := some .failed
      error := some
        (if resumable then RESUMABLE_REASON else INTERRUPTED_REASON) }

/-- A run as it comes back from the file: interrupted, and without its rate,
which is not written. -/
def reloaded (run : OtaRun) : OtaRun := strand { run with ratePerSec := none }

def load : Option PersistedRuns → Table RunKey OtaRun
  | none => []
  | some held =>
      if held.version ≠ SCHEMA_VERSION then []
      else held.runs.foldl (fun runs run =>
        runs.put (reloaded run).key (reloaded run)) []

def OtaRunStore.new (file : Option (Option PersistedRuns)) : OtaRunStore where
  file := file
  wroteAtMs := 0
  runs := match file with
    | none => []
    | some content => load content
  available := []
  poll := ⟨none, none⟩

def OtaRunStore.persist (store : OtaRunStore) (now : Nat) : OtaRunStore :=
  match store.file with
  | none => store
  | some _ =>
      { store with
        wroteAtMs := now
        file := some (some ⟨SCHEMA_VERSION, store.runs.values⟩) }

/-- What decides whether a change must reach the file at once. -/
def OtaRunStore.identities (store : OtaRunStore) :
    List (String × OtaRunPhase × Option OtaRunOutcome × Bool) :=
  store.runs.values.map fun run =>
    (run.runId, run.phase, run.outcome, run.resumable)

def OtaRunStore.run (store : OtaRunStore) (deviceId : String)
    (lane : OtaLane) : Option OtaRun :=
  store.runs.get? (deviceId, lane)

def OtaRunStore.dismiss (store : OtaRunStore) (deviceId : String)
    (lane : OtaLane) (now : Nat) : Option OtaRun × OtaRunStore :=
  match store.run deviceId lane with
  | none => (none, store)
  | some cleared =>
      if cleared.outcome.isNone then (none, store)
      else
        let store :=
          { store with runs := store.runs.remove (deviceId, lane) }
        (some { cleared with phase := .idle }, store.persist now)

/-- One turn of the loop of `interrupt`. -/
def OtaRunStore.interruptLane (deviceId : String)
    (done : List OtaRun × OtaRunStore) (lane : OtaLane) :
    List OtaRun × OtaRunStore :=
  match done.2.run deviceId lane with
  | none => done
  | some run =>
      if run.outcome.isSome ∨ run.phase.isHandedToDevice then done
      else
        let stranded := strand run
        (done.1 ++ [stranded],
          { done.2 with
            runs := done.2.runs.put (deviceId, lane) stranded })

def OtaRunStore.interrupt (store : OtaRunStore) (deviceId : String)
    (now : Nat) : List OtaRun × OtaRunStore :=
  let (interrupted, store) :=
    OtaLane.ALL.foldl (interruptLane deviceId) ([], store)
  if interrupted.isEmpty then (interrupted, store)
  else (interrupted, store.persist now)

def OtaRunStore.takeResume (store : OtaRunStore) (deviceId : String)
    (now : Nat) : Option OtaResume × OtaRunStore :=
  match store.run deviceId .firmware with
  | none => (none, store)
  | some run =>
      if ¬ run.resumable then (none, store)
      else
        let store :=
          { store with
            runs := store.runs.put (deviceId, .firmware)
              { run with resumable := false } }
        (resumeOf { run with resumable := false }, store.persist now)

def OtaRunStore.annotateWebapp (store : OtaRunStore) (deviceId : String)
    (webappId webappName : Option String) (now : Nat) :
    Option OtaRun × OtaRunStore :=
  match store.run deviceId .webapp with
  | none => (none, store)
  | some run =>
      let annotated :=
        { run with webappId := webappId, webappName := webappName }
      let store :=
        { store with runs := store.runs.put (deviceId, .webapp) annotated }
      (some annotated, store.persist now)

def OtaPhase.runPhase : OtaPhase → OtaRunPhase
  | .streaming => .streaming
  | .verifying => .verifying
  | .writing => .writing
  | .confirming => .confirming
  | .reboot => .reboot

def applySnapshot (snapshot : OtaPhaseSnapshot) (run : OtaRun) : OtaRun :=
  match snapshot with
  | .idle => { run with phase := .idle }
  | .downloading _ received total ratePerSec =>
      { run with
        phase := .downloading
        stageReceived := some received
        stageTotal := some total
        ratePerSec := ratePerSec
        writePercent := none }
  | .streaming _ sent total ratePerSec _ =>
      { run with
        phase := .streaming
        stageReceived := some sent
        stageTotal := some total
        ratePerSec := ratePerSec
        writePercent := none }
  | .applying phase writePercent =>
      { run with
        phase := phase.runPhase
        writePercent := some writePercent
        stageReceived := none
        stageTotal := none
        ratePerSec := none }
  | .staged =>
      { run with
        phase := .writing
        stageReceived := none
        stageTotal := none
        ratePerSec := none }
  | .completed => { run with phase := .completed }
  | .failed reason => { run with phase := .failed, error := some reason }

/-- The run an event opens, before its first progress. -/
def plannedRun (runId deviceId : String) (kind : OtaKind)
    (release daemonVersion imageVersion channel rootUrl : String)
    (steps : List OtaPlanStep) (now : Nat) : OtaRun where
  runId := runId
  deviceId := deviceId
  identity := none
  kind := kind
  phase := .idle
  steps := steps
  stepId := match steps.head? with
    | none => 0
    | some step => step.id
  startedAtMs := now
  phaseStartedAtMs := now
  stageReceived := none
  stageTotal := none
  ratePerSec := none
  writePercent := none
  outcome := none
  error := none
  releaseVersion := unsetIfEmpty release
  daemonVersion := unsetIfEmpty daemonVersion
  imageVersion := unsetIfEmpty imageVersion
  channel := unsetIfEmpty channel
  rootUrl := unsetIfEmpty rootUrl
  resumable := false
  webappId := none
  webappName := none

/-- The run a failure opens when none is held. -/
def failedRun (runId deviceId : String) (kind : OtaKind) (now : Nat) :
    OtaRun where
  runId := runId
  deviceId := deviceId
  identity := none
  kind := kind
  phase := .failed
  steps := []
  stepId := 0
  startedAtMs := now
  phaseStartedAtMs := now
  stageReceived := none
  stageTotal := none
  ratePerSec := none
  writePercent := none
  outcome := none
  error := none
  releaseVersion := none
  daemonVersion := none
  imageVersion := none
  channel := none
  rootUrl := none
  resumable := false
  webappId := none
  webappName := none

def progressRun (run : OtaRun) (stepId : Nat) (snapshot : OtaPhaseSnapshot)
    (now : Nat) : OtaRun :=
  let before := run.phase
  let stepped :=
    if run.steps.isEmpty ∨ run.steps.any (·.id = stepId) then
      { run with stepId := stepId }
    else run
  let moved := applySnapshot snapshot stepped
  if moved.phase ≠ before then { moved with phaseStartedAtMs := now }
  else moved

def updatedRun (run : OtaRun) (version : String) : OtaRun :=
  { run with
    phase := .completed
    outcome := some .succeeded
    error := none
    resumable := false
    stageReceived := none
    stageTotal := none
    ratePerSec := none
    writePercent := none
    releaseVersion :=
      if run.releaseVersion.isNone then unsetIfEmpty version
      else run.releaseVersion }

def closedRun (run : OtaRun) (reason : String) : OtaRun :=
  { run with
    phase := .failed
    outcome := some
      (if reason = CANCELLED_REASON then .cancelled else .failed)
    error := some reason
    stageReceived := none
    stageTotal := none
    ratePerSec := none }

/-- One event; `fresh` is the id a run opened here gets. -/
def OtaRunStore.reduce (store : OtaRunStore) (event : OtaPollEvent)
    (now : Nat) (fresh : String) : List OtaStoreChange × OtaRunStore :=
  match event with
  | .manifestPolled checkedAt =>
      let poll : OtaPollStatus := ⟨some checkedAt, none⟩
      ([.poll poll], { store with poll := poll })
  | .manifestPollFailed reason =>
      let poll := { store.poll with error := some reason }
      ([.poll poll], { store with poll := poll })
  | .updateAvailable deviceId release daemonVersion imageVersion =>
      let entry : OtaAvailable :=
        ⟨deviceId, some release, some daemonVersion, some imageVersion⟩
      ([.available entry],
        { store with available := store.available.put deviceId entry })
  | .planned deviceId kind release daemonVersion imageVersion channel rootUrl
      steps =>
      let run := plannedRun fresh deviceId kind release daemonVersion
        imageVersion channel rootUrl steps now
      ([.run run],
        { store with runs := store.runs.put (deviceId, .of kind) run })
  | .progress deviceId kind stepId snapshot =>
      match store.run deviceId (.of kind) with
      | none => ([], store)
      | some run =>
          let run := progressRun run stepId snapshot now
          ([.run run],
            { store with runs := store.runs.put (deviceId, .of kind) run })
  | .updated deviceId kind version =>
      match store.run deviceId (.of kind) with
      | none => ([], store)
      | some run =>
          let run := updatedRun run version
          let store :=
            { store with runs := store.runs.put (deviceId, .of kind) run }
          match OtaLane.of kind with
          | .webapp => ([.run run], store)
          | .firmware =>
              ([.run run, .available ⟨deviceId, none, none, none⟩],
                { store with available := store.available.remove deviceId })
  | .failed deviceId kind reason =>
      let run := (store.run deviceId (.of kind)).getD
        (failedRun fresh deviceId kind now)
      if run.resumable then
        ([], { store with runs := store.runs.put (deviceId, .of kind) run })
      else
        let run := closedRun run reason
        ([.run run],
          { store with runs := store.runs.put (deviceId, .of kind) run })

def OtaRunStore.ingestInner (store : OtaRunStore) (event : OtaPollEvent)
    (now : Nat) (fresh : String) : List OtaStoreChange × OtaRunStore :=
  let before := store.identities
  let (changes, reduced) := store.reduce event now fresh
  if ¬ changes.any OtaStoreChange.isRun then (changes, reduced)
  else
    let countersOnly : Bool := before = reduced.identities
    if countersOnly ∧
        now - reduced.wroteAtMs < COUNTER_PERSIST_INTERVAL_MS then
      (changes, reduced)
    else (changes, reduced.persist now)

/-- One turn of the loop that stamps the identity on the changed runs. -/
def OtaRunStore.stampIdentity (identity : String)
    (done : List OtaStoreChange × Bool × OtaRunStore)
    (change : OtaStoreChange) : List OtaStoreChange × Bool × OtaRunStore :=
  match change with
  | .run run =>
      if run.identity = some identity then
        (done.1 ++ [change], done.2)
      else
        let change :=
          OtaStoreChange.run { run with identity := some identity }
        match done.2.2.runs.get? run.key with
        | none => (done.1 ++ [change], done.2)
        | some held =>
            (done.1 ++ [change], true,
              { done.2.2 with
                runs := done.2.2.runs.put run.key
                  { held with identity := some identity } })
  | _ => (done.1 ++ [change], done.2)

def OtaRunStore.ingest (store : OtaRunStore) (event : OtaPollEvent)
    (identity : Option String) (now : Nat) (fresh : String) :
    List OtaStoreChange × OtaRunStore :=
  let (changes, store) := store.ingestInner event now fresh
  match identity with
  | none => (changes, store)
  | some identity =>
      let (stamped, moved, store) :=
        changes.foldl (stampIdentity identity) ([], false, store)
      (stamped, if moved then store.persist now else store)

end Ota

end Bridgething
