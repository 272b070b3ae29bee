/-
The updates that are owed to installed webapps, as the updater finds them and as
the listing of the store does.
-/
import Bridgething.Lib.Rfc3339
import Bridgething.Lib.Table
import Bridgething.Store.Versions

namespace Bridgething

namespace Store

/-- An id, by its 32 places. -/
abbrev Uuid := { nibbles : List (Fin 16) // nibbles.length = 32 }

def hexDigit (nibble : Fin 16) : Char := Nat.digitChar nibble

/-- An id as it is sent: in small letters, with hyphens. -/
def Uuid.text (id : Uuid) : List Char :=
  let digits := id.1.map hexDigit
  digits.take 8 ++ '-' :: (digits.drop 8).take 4 ++
    '-' :: (digits.drop 12).take 4 ++ '-' :: (digits.drop 16).take 4 ++
    '-' :: digits.drop 20

def Uuid.toString (id : Uuid) : String := String.ofList id.text

structure Download where
  url : String
  size : Nat
  sha256 : String
deriving DecidableEq

structure AppVersion where
  version : String
  releasedAt : String
  download : Download
  extension : Option String
  minLibbridgethingVersion : String
deriving DecidableEq

structure AppEntry where
  id : String
  name : String
  versions : List AppVersion

structure Catalog where
  apps : List AppEntry

inductive WebappSource
  | builtin
  | installed
deriving DecidableEq

structure WebappInfo where
  id : Uuid
  source : WebappSource
  version : String
  provenance : Option String
  extension : Option String

structure CatalogUpdate where
  appId : String
  name : String
  installedVersion : String
  target : AppVersion
  sourceUrl : String

/-- The reading of ids and of times that the updater is given. -/
structure Crates where
  parseStr : String → Option Uuid
  parseFromRfc3339 : String → Option Int

def AppEntry.declaresExtension (app : AppEntry) : Bool :=
  app.versions.any fun version => version.extension.isSome

section

variable (crates : Crates)

def AppEntry.uuid (app : AppEntry) : Option Uuid := crates.parseStr app.id

def releasedAt (raw : String) : Option Int := crates.parseFromRfc3339 raw

/-- A release, its place in the list, and the instant of it. -/
structure Release where
  place : Nat
  instant : Option Int
  version : AppVersion

def compareReleases (a b : Release) : Ordering :=
  match a.instant, b.instant with
  | some left, some right =>
      (compare right left).then (compare a.place b.place)
  | some _, none => .lt
  | none, some _ => .gt
  | none, none => compare a.place b.place

def newestCompatible (app : AppEntry) (libVersion : String) :
    Option AppVersion :=
  let ordered := (app.versions.zipIdx.map fun entry =>
    (⟨entry.2, releasedAt crates entry.1.releasedAt, entry.1⟩ : Release)
      ).mergeSort fun a b => compareReleases a b ≠ .gt
  (ordered.map Release.version).find? fun version =>
    satisfies libVersion version.minLibbridgethingVersion

/-- What is owed to one webapp. -/
def update (catalogs : Table String Catalog) (libVersion : String)
    (info : WebappInfo) : Option CatalogUpdate := do
  let sourceUrl ← info.provenance
  let catalog ← catalogs.get? sourceUrl
  let app ← catalog.apps.find? fun app => app.uuid crates = some info.id
  if app.declaresExtension then none
  else
    let newest ← newestCompatible crates app libVersion
    if isUpgrade newest.version info.version then
      some ⟨app.id, app.name, info.version, newest, sourceUrl⟩
    else none

def updates (catalogs : Table String Catalog) (installed : List WebappInfo)
    (libVersion : String) : List CatalogUpdate :=
  ((installed.filter fun info =>
      info.source = .installed ∧ info.extension.isNone).filterMap
        (update crates catalogs libVersion)).mergeSort fun left right =>
    (compare left.name right.name).then (compare left.appId right.appId) ≠ .gt

end

namespace Resolve

/-- A webapp as it is sent by the device. -/
structure InstalledWebapp where
  id : String
  version : String
  source : WebappSource
  provenance : Option String

/-- What an engine makes of times that are not in the format of the language,
and how it collates. -/
structure Engine where
  others : String → Option Int
  localeCompare : String → String → Int

/-- A time in the format of the language has capitals, and a fraction of three
digits if it has one; no second of it is the 60th. -/
def Engine.dateParse (engine : Engine) (raw : String) : Option Int :=
  match Rfc3339.parse raw.toList with
  | none => engine.others raw
  | some stamp =>
      if stamp.capitals ∧ (stamp.places = 0 ∨ stamp.places = 3) then
        if stamp.moment.second < 60 then some stamp.instant else none
      else engine.others raw

/-- An id is of ASCII. -/
def toLowerCase (text : String) : String :=
  String.ofList (Text.toAsciiLowercase text.toList)

inductive ExtensionOffering
  | listed
  | omitted
deriving DecidableEq

def offersApp (app : AppEntry) (extensions : ExtensionOffering) : Bool :=
  extensions = .listed || !app.declaresExtension

def pin (out : Table String String) (info : InstalledWebapp) :
    Table String String :=
  match info.provenance with
  | none => out
  | some provenance =>
      if provenance = "" then out
      else out.put (toLowerCase info.id) provenance

def pinsFrom (installed : List InstalledWebapp) : Table String String :=
  installed.foldl pin []

section

variable (engine : Engine)

def releasedAtInstant (raw : String) : Option Int := engine.dateParse raw

def compareReleases (a b : Release) : Int :=
  match a.instant, b.instant with
  | none, none => (a.place : Int) - b.place
  | none, some _ => 1
  | some _, none => -1
  | some left, some right =>
      if left = right then (a.place : Int) - b.place else right - left

def sortNewestFirst (items : List AppVersion) : List AppVersion :=
  ((items.zipIdx.map fun entry =>
    (⟨entry.2, releasedAtInstant engine entry.1.releasedAt, entry.1⟩ : Release)
      ).mergeSort fun a b => compareReleases a b ≤ 0).map Release.version

def versionCompatible (version : AppVersion)
    (deviceLibVersion : Option String) : Bool :=
  deviceLibVersion.all fun device =>
    satisfies device version.minLibbridgethingVersion

def newestCompatible (app : AppEntry) (deviceLibVersion : Option String) :
    Option AppVersion :=
  (sortNewestFirst engine app.versions).find? fun version =>
    versionCompatible version deviceLibVersion

def update (catalogs : Table String Catalog) (pins : Table String String)
    (deviceLibVersion : Option String) (extensions : ExtensionOffering)
    (info : InstalledWebapp) : Option CatalogUpdate := do
  let id := toLowerCase info.id
  let sourceUrl ← pins.get? id
  let catalog ← catalogs.get? sourceUrl
  let app ← catalog.apps.find? fun app => toLowerCase app.id = id
  if offersApp app extensions then
    let newest ← newestCompatible engine app deviceLibVersion
    if isUpgrade newest.version info.version then
      some ⟨id, app.name, info.version, newest, sourceUrl⟩
    else none
  else none

def updates (catalogs : Table String Catalog)
    (installed : List InstalledWebapp) (deviceLibVersion : Option String)
    (extensions : ExtensionOffering) : List CatalogUpdate :=
  ((installed.filter fun info => info.source = .installed).filterMap
    (update engine catalogs (pinsFrom installed) deviceLibVersion
      extensions)).mergeSort fun a b =>
    if engine.localeCompare a.name b.name = 0 then
      engine.localeCompare a.appId b.appId ≤ 0
    else engine.localeCompare a.name b.name ≤ 0

end

end Resolve

/-- What the device sends of a webapp. -/
def WebappInfo.sent (info : WebappInfo) : Resolve.InstalledWebapp :=
  ⟨info.id.toString, info.version, info.source, info.provenance⟩

end Store

end Bridgething
