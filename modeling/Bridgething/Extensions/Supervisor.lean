/-
The supervisor of the extensions: the child process of each, what is written to
it, and the devices it is told of.
-/
import Bridgething.Lib.OrderedMap
import Bridgething.Lib.Table

namespace Bridgething

namespace Extensions

abbrev Uuid := BitVec 128

abbrev Settings := OrderedMap String String

def EXTENSION_API_VERSION : Nat := 1

structure ExtensionRecord where
  webapp : Uuid
  name : String
  version : String
  enabled : Bool
deriving Repr, DecidableEq

inductive ExtensionStatus
  | starting
  | running
  | crashed (reason : String)
  | stopped
  | runtimeMissing (reason : String)
deriving Repr, DecidableEq

inductive HostMessage
  | hello (api : Nat) (webapp : Uuid) (name version : String)
  | deviceConnected (device name : String) (config : Settings) (active : Bool)
  | deviceDisconnected (device : String)
  | deviceActive (device : String) (active : Bool)
  | configChanged (device key : String) (value : Option String)
  | stop
deriving DecidableEq

inductive Intent
  | run
  | leave
deriving Repr, DecidableEq

inductive Runtime
  | absent
  | acquiring
  | ready
  | missing (reason : String)
deriving Repr, DecidableEq

structure Device where
  name : String := ""
  config : Table Uuid Settings := []
  collected : List Uuid := []
  active : Option Uuid := none

namespace Device

def settings (held : Device) (webapp : Uuid) : Settings :=
  (held.config.get? webapp).getD .empty

def collects (held : Device) (webapp : Uuid) : Bool := webapp ∈ held.collected

/-- The settings of the named webapps are what is fresh; a name that comes again
finds none left. -/
def keepSettingsOfEveryoneBut (held : Device) :
    List Uuid → Table Uuid Settings → Device
  | [], _ => held
  | webapp :: named, fresh =>
      { held with
        config := held.config.put webapp ((fresh.get? webapp).getD .empty)
        collected := webapp :: held.collected }.keepSettingsOfEveryoneBut
        named (fresh.remove webapp)

end Device

/-- The input of a process, and what has been written to it. -/
structure Pipe where
  process : Nat
  written : List HostMessage

structure Child where
  record : ExtensionRecord
  status : ExtensionStatus := .stopped
  attempt : Nat := 0
  armed : Option Nat := none
  seq : Nat := 0
  intent : Intent := .leave
  stdin : Option Pipe := none
  kill : Option Nat := none
  failures : Nat := 0
  announced : OrderedMap String HostMessage := .empty

namespace Child

def write (child : Child) (message : HostMessage) : Child :=
  { child with
    stdin := child.stdin.map fun pipe =>
      { pipe with written := pipe.written ++ [message] } }

/-- What was announced last is not announced again. -/
def announce (child : Child) (device : String) (message : HostMessage) :
    Child :=
  if child.announced.get? device = some message then child
  else
    { child with
      announced := child.announced.put device message }.write message

def disconnect (child : Child) (device : String) : Child :=
  if (child.announced.get? device).isNone then child
  else
    { child with announced := child.announced.remove device }.write
      (.deviceDisconnected device)

/-- A child is told of a device only once it is announced. -/
def tell (child : Child) (device : String) (message : HostMessage) : Child :=
  if (child.announced.get? device).isSome then child.write message else child

/-- A stop is written to a process that may still be there. -/
def stop (child : Child) (intent : Intent) : Child :=
  match child.kill with
  | none => { child with intent := intent, armed := none, stdin := none }
  | some _ =>
      { ({ child with intent := intent, armed := none }.write .stop) with
        stdin := none }

def reap (child : Child) : Child := { child with kill := none }

end Child

/-- What the supervisor spawns that posts to it later: the tasks of a process,
and the timer of a restart. -/
inductive Poster
  | process (webapp : Uuid) (generation : Nat)
  | timer (webapp : Uuid) (generation : Nat)
deriving Repr, DecidableEq

structure Supervisor where
  runtime : Runtime := .absent
  devices : OrderedMap String Device := .empty
  children : Table Uuid Child := []
  posters : List Poster := []
  inbox : Option (List (Finset Uuid)) := none
  published : Finset Uuid := ∅

/-- What a line says.  Any other line is logged, answered or passed on, and
changes nothing that is held here. -/
inductive Spoken
  | ready
  | other
deriving Repr, DecidableEq

/-- Why a webapp's process does not come up, if it does not: its entry is not in
the bundle, or it does not spawn. -/
abbrev Spawns := Uuid → Option String

namespace Supervisor

def alter (s : Supervisor) (webapp : Uuid) (f : Child → Child) : Supervisor :=
  match s.children.get? webapp with
  | none => s
  | some child => { s with children := s.children.put webapp (f child) }

/-! ### What is published -/

def runningSet (s : Supervisor) : Finset Uuid :=
  s.children.keys.toFinset.filter fun webapp =>
    (s.children.get? webapp).any fun child => child.status = .running

def announceRunning (s : Supervisor) : Supervisor :=
  if s.runningSet = s.published then s
  else
    { s with
      published := s.runningSet
      inbox := s.inbox.map fun told => told ++ [s.runningSet] }

def mark (s : Supervisor) (webapp : Uuid) (status : ExtensionStatus) :
    Supervisor :=
  match s.children.get? webapp with
  | none => s
  | some child =>
      if child.status = status then s
      else
        (s.alter webapp fun child =>
          { child with status := status }).announceRunning

def enabledIds (s : Supervisor) : List Uuid :=
  s.children.keys.filter fun webapp =>
    (s.children.get? webapp).any fun child => child.record.enabled

/-! ### Devices -/

def connectedMessage (s : Supervisor) (device : String) (webapp : Uuid) :
    HostMessage :=
  let held := (s.devices.get? device).getD {}
  .deviceConnected device held.name (held.settings webapp)
    (held.active = some webapp)

def announceConnected (s : Supervisor) (webapp : Uuid) (device : String) :
    Supervisor :=
  if (s.devices.get? device).any fun held => held.collects webapp then
    s.alter webapp fun child =>
      child.announce device (s.connectedMessage device webapp)
  else s

def announceDevices (s : Supervisor) (webapp : Uuid) : Supervisor :=
  s.devices.keys.foldl (fun s device => s.announceConnected webapp device) s

/-- The settings by webapp; what is named by no webapp is left out. -/
def freshSettings (config : List (Option Uuid × String × String)) :
    Table Uuid Settings :=
  config.foldl (fun fresh entry =>
    match entry.1 with
    | none => fresh
    | some webapp =>
        fresh.put webapp
          (((fresh.get? webapp).getD .empty).put entry.2.1 entry.2.2)) []

/-- What is held of a device that connects. -/
def connecting (s : Supervisor) (device name : String)
    (config : List (Option Uuid × String × String)) (webapps : List Uuid) :
    Device :=
  { (s.devices.get? device).getD {} with
    name := name }.keepSettingsOfEveryoneBut webapps (freshSettings config)

def deviceConnected (s : Supervisor) (device name : String)
    (config : List (Option Uuid × String × String)) (webapps : List Uuid) :
    Supervisor :=
  webapps.foldl (fun s webapp => s.announceConnected webapp device)
    { s with
      devices := s.devices.put device
        (s.connecting device name config webapps) }

def deviceDisconnected (s : Supervisor) (device : String) : Supervisor :=
  if (s.devices.get? device).isNone then s
  else
    s.children.keys.foldl
      (fun s webapp => s.alter webapp fun child => child.disconnect device)
      { s with devices := s.devices.remove device }

def tell (s : Supervisor) (webapp : Uuid) (device : String)
    (message : HostMessage) : Supervisor :=
  s.alter webapp fun child => child.tell device message

def deviceActive (s : Supervisor) (device : String) (webapp : Uuid)
    (active : Bool) : Supervisor :=
  let held := (s.devices.get? device).getD {}
  let was : Bool := held.active = some webapp
  let next :=
    if active then { held with active := some webapp }
    else if was then { held with active := none }
    else held
  let s := { s with devices := s.devices.put device next }
  if was = active then s
  else s.tell webapp device (.deviceActive device active)

/-- A setting is put, or removed where it has no value. -/
def changed (settings : Settings) (key : String) : Option String → Settings
  | some value => settings.put key value
  | none => settings.remove key

def configChanged (s : Supervisor) (device : String) (webapp : Uuid)
    (key : String) (value : Option String) : Supervisor :=
  let held := (s.devices.get? device).getD {}
  let next :=
    { held with
      config := held.config.put webapp
        (changed (held.settings webapp) key value) }
  { s with devices := s.devices.put device next }.tell webapp device
    (.configChanged device key value)

/-! ### Processes -/

/-- The runtime is acquired beside the supervisor, and reported to it. -/
def acquire (s : Supervisor) : Supervisor :=
  match s.runtime with
  | .acquiring | .ready => s
  | .absent | .missing _ =>
      s.enabledIds.foldl (fun s webapp => s.mark webapp .starting)
        { s with runtime := .acquiring }

/-- A failure arms a restart. -/
def fail (s : Supervisor) (webapp : Uuid) (generation : Nat)
    (reason : String) : Supervisor :=
  match s.children.get? webapp with
  | none => s
  | some child =>
      if child.attempt ≠ generation then s
      else
        { s.alter webapp fun child =>
            { child with
              status := .crashed reason
              failures := min (child.failures + 1) (2 ^ 32 - 1)
              seq := child.seq + 1
              armed := some (child.seq + 1) } with
          posters := s.posters ++ [Poster.timer webapp (child.seq + 1)]
        }.announceRunning

/-- A process that came up is greeted and told of the devices. -/
def spawned (s : Supervisor) (webapp : Uuid) (child : Child) : Supervisor :=
  let process := s.posters.length
  let child :=
    { child with
      stdin := some ⟨process, []⟩
      kill := some process
      status := .starting
      announced := .empty }
  { s with
    children := s.children.put webapp
      (child.write (.hello EXTENSION_API_VERSION child.record.webapp
        child.record.name child.record.version))
    posters := s.posters ++ [Poster.process webapp child.attempt]
  }.announceDevices webapp

/-- A start with the runtime at hand. -/
def launch (s : Supervisor) (spawns : Spawns) (webapp : Uuid) : Supervisor :=
  match s.children.get? webapp with
  | none => s
  | some child =>
      if child.stdin.isSome ∨ child.record.enabled = false then s
      else
        let child :=
          { child with
            armed := none
            intent := .run
            seq := child.seq + 1
            attempt := child.seq + 1 }
        match spawns webapp with
        | some reason =>
            { s with children := s.children.put webapp child }.fail webapp
              child.attempt reason
        | none => s.spawned webapp child

def start (s : Supervisor) (spawns : Spawns) (webapp : Uuid) : Supervisor :=
  match s.runtime with
  | .ready => s.launch spawns webapp
  | .missing reason => s.mark webapp (.runtimeMissing reason)
  | .absent | .acquiring => s.acquire.mark webapp .starting

def startAll (s : Supervisor) (spawns : Spawns) : Supervisor :=
  s.enabledIds.foldl (fun s webapp => s.start spawns webapp) s

def stop (s : Supervisor) (webapp : Uuid) (intent : Intent) : Supervisor :=
  s.alter webapp fun child => child.stop intent

def reap (s : Supervisor) (webapp : Uuid) : Supervisor :=
  s.alter webapp Child.reap

def installed (s : Supervisor) (spawns : Spawns) (record : ExtensionRecord) :
    Supervisor :=
  let held :=
    match s.children.get? record.webapp with
    | some child => { child with record := record }
    | none => { record := record }
  let s := { s with children := s.children.put record.webapp held }
  let s := (s.stop record.webapp .leave).reap record.webapp
  if record.enabled then s.start spawns record.webapp
  else s.mark record.webapp .stopped

def uninstalled (s : Supervisor) (webapp : Uuid) : Supervisor :=
  let s := (s.stop webapp .leave).reap webapp
  { s with children := s.children.remove webapp }.announceRunning

/-- What is stored of the webapp is kept as it is from now on, unless nothing
is, or it cannot be kept. -/
def enabled (s : Supervisor) (spawns : Spawns) (webapp : Uuid)
    (enabled : Bool) (stored : Option ExtensionRecord) : Supervisor :=
  match stored with
  | none => s
  | some stored =>
      match s.children.get? webapp with
      | none => s
      | some child =>
          let record := { stored with enabled := enabled }
          let s :=
            { s with
              children :=
                s.children.put webapp { child with record := record } }
          if enabled then s.start spawns webapp
          else ((s.stop webapp .leave).reap webapp).mark webapp .stopped

def runtimeReady (s : Supervisor) (spawns : Spawns)
    (outcome : Except String Unit) : Supervisor :=
  match outcome with
  | .ok () => { s with runtime := .ready }.startAll spawns
  | .error reason =>
      s.enabledIds.foldl
        (fun s webapp => s.mark webapp (.runtimeMissing reason))
        { s with runtime := .missing reason }

def exited (s : Supervisor) (webapp : Uuid) (generation : Nat)
    (reason : String) : Supervisor :=
  match s.children.get? webapp with
  | none => s
  | some child =>
      if child.attempt ≠ generation then s
      else
        let s := s.alter webapp fun child =>
          { child with stdin := none, kill := none }
        if child.intent = .leave then
          (s.alter webapp fun child =>
            { child with status := .stopped }).announceRunning
        else s.fail webapp generation reason

def spoken (s : Supervisor) (webapp : Uuid) : Spoken → Supervisor
  | .ready =>
      match s.children.get? webapp with
      | none => s
      | some _ =>
          (s.alter webapp fun child =>
            { child with failures := 0, status := .running }).announceRunning
  | .other => s

def line (s : Supervisor) (webapp : Uuid) (generation : Nat)
    (said : Spoken) : Supervisor :=
  match s.children.get? webapp with
  | none => s
  | some child =>
      if child.attempt ≠ generation then s else s.spoken webapp said

def restart (s : Supervisor) (spawns : Spawns) (webapp : Uuid)
    (generation : Nat) : Supervisor :=
  match s.children.get? webapp with
  | none => s
  | some child =>
      if child.armed = some generation then
        (s.alter webapp fun child => { child with armed := none }).start spawns
          webapp
      else s

def attach (s : Supervisor) (spawns : Spawns) : Supervisor :=
  { s with
    published := s.runningSet
    inbox := some [s.runningSet] }.startAll spawns

end Supervisor

inductive Command
  | inbox
  | deviceConnected (device name : String)
      (config : List (Option Uuid × String × String)) (webapps : List Uuid)
  | deviceDisconnected (device : String)
  | deviceActive (device : String) (webapp : Uuid) (active : Bool)
  | configChanged (device : String) (webapp : Uuid) (key : String)
      (value : Option String)
  | installed (record : ExtensionRecord)
  | uninstalled (webapp : Uuid)
  | enabled (webapp : Uuid) (enabled : Bool) (stored : Option ExtensionRecord)
  | acquireRuntime
  | runtimeReady (outcome : Except String Unit)
  | line (webapp : Uuid) (generation : Nat) (said : Spoken)
  | exited (webapp : Uuid) (generation : Nat) (reason : String)
  | restart (webapp : Uuid) (generation : Nat)

namespace Supervisor

def handle (s : Supervisor) (spawns : Spawns) : Command → Supervisor
  | .inbox => s.attach spawns
  | .deviceConnected device name config webapps =>
      s.deviceConnected device name config webapps
  | .deviceDisconnected device => s.deviceDisconnected device
  | .deviceActive device webapp active => s.deviceActive device webapp active
  | .configChanged device webapp key value =>
      s.configChanged device webapp key value
  | .installed record => s.installed spawns record
  | .uninstalled webapp => s.uninstalled webapp
  | .enabled webapp enabled stored => s.enabled spawns webapp enabled stored
  | .acquireRuntime => s.acquire
  | .runtimeReady outcome => s.runtimeReady spawns outcome
  | .line webapp generation said => s.line webapp generation said
  | .exited webapp generation reason => s.exited webapp generation reason
  | .restart webapp generation => s.restart spawns webapp generation

/-- A child for each record that is stored. -/
def childrenOf (records : List ExtensionRecord) : Table Uuid Child :=
  records.foldl (fun held record =>
    Table.put held record.webapp { record := record }) []

/-- The supervisor before the first command. -/
def initial (records : List ExtensionRecord) : Supervisor :=
  let s : Supervisor := { children := childrenOf records }
  if records = [] then s else s.acquire

end Supervisor

end Extensions

end Bridgething
