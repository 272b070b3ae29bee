/-
What the companions can do, as the clients are shown it: the tables it is drawn
from, and how it is drawn from them.
-/
import Bridgething.Lib.Text
import Bridgething.Peers.Authority

namespace Bridgething

namespace Capability

open Authority (Address Instant CompanionAuthorityScope CompanionAuthority
  AuthorityRegistry)

abbrev Uuid := Nat

structure GatewayInfo where
  address : String := ""
  name : String := ""
  osName : String := ""
  appName : String := ""
  appVersion : String := ""
  adapterVersion : String := ""
  libVersion : String := ""
  libbridgethingVersion : String := ""
deriving Repr, DecidableEq

inductive NetworkKind
  | unknown
  | wifi
  | cellular
  | ethernet
deriving Repr, DecidableEq

structure NetworkInfo where
  kind : NetworkKind := .unknown
  metered : Bool := false
deriving Repr, DecidableEq

structure SurfaceAvailability where
  geo : Bool := false
  notifications : Bool := false
  netFetch : Bool := false
  netWs : Bool := false
  audioTts : Bool := false
  lyrics : Bool := false
  playbackTargets : Bool := false
  forward : Bool := false
  voice : Bool := false
deriving Repr, DecidableEq

inductive MusicProvider
  | none
  | spotify
  | appleMusic
  | subsonic
deriving Repr, DecidableEq

structure VoiceDescriptor where
  id : String
  name : String
  locale : String
deriving Repr, DecidableEq

structure AudioCapabilities where
  earcons : List String := []
  voices : List VoiceDescriptor := []
deriving Repr, DecidableEq

structure GatewayCapabilities where
  gateway : GatewayInfo := {}
  uriSchemes : List String := []
  network : NetworkInfo := {}
  available : SurfaceAvailability := {}
  audio : AudioCapabilities := {}
  musicProvider : MusicProvider := .none
deriving Repr, DecidableEq

structure Capabilities where
  gateway : Option GatewayInfo := none
  available : SurfaceAvailability := {}
  authority : List CompanionAuthorityScope := []
  uriSchemes : List String := []
  network : NetworkInfo := {}
  audio : AudioCapabilities := {}
  musicProvider : MusicProvider := .none
deriving Repr, DecidableEq

/-! ### Schemes -/

def isValidScheme : List Char → Bool
  | [] => false
  | first :: rest =>
      first.isAlpha &&
        rest.all fun c => c.isAlphanum || c = '+' || c = '-' || c = '.'

def normalizeScheme (raw : String) : List Char :=
  Text.toAsciiLowercase ((Text.trim raw.toList).rdropWhile (· = ':'))

/-- The valid schemes, in lower case and each only once. -/
def normalizeSchemes (schemes : List String) : List String :=
  schemes.foldl
    (fun seen raw =>
      let trimmed := normalizeScheme raw
      if isValidScheme trimmed && !seen.contains (String.ofList trimmed) then
        seen ++ [String.ofList trimmed]
      else seen) []

/-! ### The tables -/

structure Announce where
  caps : GatewayCapabilities
  seq : Nat
deriving Repr, DecidableEq

abbrev Announces := Table Address Announce

/-- The order in which a map is gone through, which its hashing decides. -/
structure Iteration (κ ν : Type) where
  order : Table κ ν → Table κ ν
  perm : ∀ t, (order t).Perm t

structure Hashings where
  companions : Authority.Hashing
  scopes : Iteration CompanionAuthorityScope Instant
  announces : Iteration Address Announce

/-- What `CapabilitiesRegistry` holds, apart from what it has published. -/
structure Tables where
  announces : Announces := []
  announceSeq : Nat := 0
  extensions : Table Address (Finset Uuid) := []
  activeWebapp : Option Uuid := none
  authority : AuthorityRegistry := {}

def liveScopes (registry : AuthorityRegistry) (hashings : Hashings)
    (now : Instant) : List CompanionAuthorityScope :=
  match registry.elected hashings.companions now with
  | none => []
  | some companion =>
      ((hashings.scopes.order companion.scopes).filter fun claim =>
        Authority.isLive now claim.1 claim.2).map Prod.fst

/-- Whether a companion runs an extension of the app. -/
def runs (extensions : Table Address (Finset Uuid)) (active : Uuid) : Bool :=
  extensions.values.any fun running => active ∈ running

def forwardAvailable (tables : Tables) : Bool :=
  match tables.activeWebapp with
  | none => false
  | some active => runs tables.extensions active

/-- The addresses, those that announced last first. -/
def ranked (hashings : Hashings) (announces : Announces) : List Address :=
  ((hashings.announces.order announces).insertionSort fun a b =>
    b.2.seq ≤ a.2.seq).map Prod.fst

/-- Who is primary by authority if it has announced itself, or else who did so
last. -/
def electAddr (hashings : Hashings) (now : Instant) (announces : Announces)
    (authority : AuthorityRegistry) : Option Address :=
  ((authority.primary hashings.companions now).filter fun addr =>
      (announces.get? addr).isSome).or
    ((Ranking.maxBy (compareOn fun entry => entry.2.seq)
      (hashings.announces.order announces)).map Prod.fst)

def primaryAddr (hashings : Hashings) (now : Instant) (tables : Tables) :
    Option Address :=
  electAddr hashings now tables.announces tables.authority

/-- The schemes of the elected companion, and then of all in their rank. -/
def uriSchemes (hashings : Hashings) (announces : Announces)
    (elected : Option Address) : List String :=
  ((elected.toList ++ ranked hashings announces).flatMap fun addr =>
    match announces.get? addr with
    | none => []
    | some announce => announce.caps.uriSchemes).foldl
      (fun schemes scheme =>
        if schemes.contains scheme then schemes else schemes ++ [scheme]) []

/-- The snapshot, given what has been read of the other tables. -/
def capabilities (hashings : Hashings) (announces : Announces) (forward : Bool)
    (elected : Option Address) (authority : List CompanionAuthorityScope) :
    Capabilities :=
  match elected.bind announces.get? with
  | some announce =>
      { gateway := some announce.caps.gateway
        available :=
          { announce.caps.available with
            forward := forward
            voice := announces.values.any fun a => a.caps.available.voice }
        authority := authority
        uriSchemes := uriSchemes hashings announces elected
        network := announce.caps.network
        audio := announce.caps.audio
        musicProvider := announce.caps.musicProvider }
  | none =>
      { gateway := none
        available := { forward := forward }
        authority := authority
        uriSchemes := []
        network := {}
        audio := {}
        musicProvider := .none }

def buildSnapshot (hashings : Hashings) (now : Instant) (tables : Tables) :
    Capabilities :=
  capabilities hashings tables.announces (forwardAvailable tables)
    (primaryAddr hashings now tables)
    (liveScopes tables.authority hashings now)

/-! ### What the time does not change -/

end Capability

end Bridgething
