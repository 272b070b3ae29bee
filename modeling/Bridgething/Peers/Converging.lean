/-
Calls of the capabilities registry that overlap: each changes a table and then
draws the snapshot, stores it and broadcasts it, a lock at a time.
-/
import Bridgething.Lib.Overlap
import Bridgething.Peers.Capabilities

namespace Bridgething

namespace Capability

open Authority (Address Instant CompanionAuthorityScope)
open Overlap (Calls Debt Program)

/-- The tables with what has been published of them. -/
structure Registry where
  tables : Tables := {}
  snapshot : Capabilities := {}
  primary : Option Address := none
  updates : List Capabilities := []

/-- What the clients have been told last; before that they have the default. -/
def Registry.lastUpdate (registry : Registry) : Capabilities :=
  registry.updates.getLastD {}

inductive Call
  | setAnnounce (addr : Address) (caps : GatewayCapabilities)
  | clearCompanion (addr : Address)
  | setExtensionsRunning (addr : Address) (webapps : List Uuid)
  | setActiveWebapp (active : Option Uuid)
  | forgetExtensions (addr : Address)
  | claimAuthority (addr : Address) (scope : CompanionAuthorityScope)
      (appBundle : Option String)
  | releaseAuthority (addr : Address) (scope : CompanionAuthorityScope)

/-- How far a call is: what it does next. -/
inductive Phase
  /-- `set_announce` takes a number. -/
  | announcing (addr : Address) (caps : GatewayCapabilities)
  | inserting (addr : Address) (announce : Announce)
  /-- `clear_companion` goes through the three tables. -/
  | removing (addr : Address)
  | dropping (addr : Address)
  | leaving (addr : Address)
  | running (addr : Address) (webapps : List Uuid)
  | activating (active : Option Uuid)
  | forgetting (addr : Address)
  /-- `claim_authority` names the app and then claims. -/
  | naming (addr : Address) (scope : CompanionAuthorityScope)
      (appBundle : Option String)
  | claiming (addr : Address) (scope : CompanionAuthorityScope)
  | releasing (addr : Address) (scope : CompanionAuthorityScope)
  /-- `rebuild_and_broadcast` reads which app is active. -/
  | asking
  /-- It reads whether the app's extension runs. -/
  | forwarding (active : Uuid)
  /-- It locks the announces and elects. -/
  | electing (forward : Bool)
  /-- It reads the live scopes, the announces still locked. -/
  | scoping (forward : Bool) (elected : Option Address)
  | storing (snapshot : Capabilities)
  /-- It elects once more. -/
  | reading (snapshot : Capabilities)
  | publishing (snapshot : Capabilities) (primary : Option Address)
  | broadcasting (snapshot : Capabilities)
  | finished
deriving DecidableEq

def Call.begun : Call → Phase
  | setAnnounce addr caps =>
      .announcing addr
        { caps with uriSchemes := normalizeSchemes caps.uriSchemes }
  | clearCompanion addr => .removing addr
  | setExtensionsRunning addr webapps => .running addr webapps
  | setActiveWebapp active => .activating active
  | forgetExtensions addr => .forgetting addr
  | claimAuthority addr scope appBundle => .naming addr scope appBundle
  | releaseAuthority addr scope => .releasing addr scope

namespace Phase

/-- The announces are locked for reading from an earlier step on. -/
def readsAnnounces : Phase → Bool
  | scoping _ _ => true
  | _ => false

def writesAnnounces : Phase → Bool
  | inserting _ _ | removing _ => true
  | _ => false

/-- One step of a call, at this time. -/
def advance (hashings : Hashings) (registry : Registry) (now : Instant) :
    Phase → Registry × Phase
  | announcing addr caps =>
      ({ registry with
          tables := { registry.tables with
            announceSeq := registry.tables.announceSeq + 1 } },
        inserting addr ⟨caps, registry.tables.announceSeq⟩)
  | inserting addr announce =>
      ({ registry with
          tables := { registry.tables with
            announces := registry.tables.announces.put addr announce } },
        asking)
  | removing addr =>
      ({ registry with
          tables := { registry.tables with
            announces := registry.tables.announces.remove addr } },
        dropping addr)
  | dropping addr =>
      ({ registry with
          tables := { registry.tables with
            extensions := registry.tables.extensions.remove addr } },
        leaving addr)
  | leaving addr =>
      ({ registry with
          tables := { registry.tables with
            authority := registry.tables.authority.dropFor
              hashings.companions now addr } },
        asking)
  | running addr webapps =>
      ({ registry with
          tables := { registry.tables with
            extensions :=
              if webapps.isEmpty then registry.tables.extensions.remove addr
              else registry.tables.extensions.put addr webapps.toFinset } },
        asking)
  | activating active =>
      ({ registry with
          tables := { registry.tables with activeWebapp := active } }, asking)
  | forgetting addr =>
      if (registry.tables.extensions.get? addr).isSome then
        ({ registry with
            tables := { registry.tables with
              extensions := registry.tables.extensions.remove addr } },
          asking)
      else (registry, finished)
  | naming addr scope appBundle =>
      ({ registry with
          tables := { registry.tables with
            authority := registry.tables.authority.setCompanionAppBundle
              hashings.companions now addr appBundle } },
        claiming addr scope)
  | claiming addr scope =>
      ({ registry with
          tables := { registry.tables with
            authority := registry.tables.authority.claim
              hashings.companions now addr scope } },
        asking)
  | releasing addr scope =>
      ({ registry with
          tables := { registry.tables with
            authority := registry.tables.authority.release
              hashings.companions now addr scope } },
        asking)
  | asking =>
      match registry.tables.activeWebapp with
      | none => (registry, electing false)
      | some active => (registry, forwarding active)
  | forwarding active =>
      (registry, electing (runs registry.tables.extensions active))
  | electing forward =>
      (registry, scoping forward (primaryAddr hashings now registry.tables))
  | scoping forward elected =>
      (registry, storing (capabilities hashings registry.tables.announces
        forward elected (liveScopes registry.tables.authority hashings now)))
  | storing snapshot =>
      ({ registry with snapshot := snapshot }, reading snapshot)
  | reading snapshot =>
      (registry,
        publishing snapshot (primaryAddr hashings now registry.tables))
  | publishing snapshot primary =>
      ({ registry with primary := primary }, broadcasting snapshot)
  | broadcasting snapshot =>
      ({ registry with updates := registry.updates ++ [snapshot] }, finished)
  | finished => (registry, finished)

end Phase

/-- Who writes the announces waits for those who read them. -/
def program (hashings : Hashings) : Program Registry Phase Call Instant where
  begun := Call.begun
  waits calls phase :=
    phase.writesAnnounces && calls.phases.any Phase.readsAnnounces
  advance registry now phase := phase.advance hashings registry now

namespace Phase

/-- The call is still to change a table or to begin to read them. -/
def early : Phase → Bool
  | announcing _ _ | inserting _ _ | removing _ | dropping _ | leaving _
  | running _ _ | activating _ | naming _ _ _ | claiming _ _ | releasing _ _
  | asking => true
  | _ => false

/-- What the call has read is as the tables have it, so that in the end it
broadcasts what they give. -/
def Draws (hashings : Hashings) (tables : Tables) : Phase → Prop
  | forgetting _ | finished => False
  | forwarding active => tables.activeWebapp = some active
  | electing forward => forward = forwardAvailable tables
  | scoping forward elected => forward = forwardAvailable tables ∧
      ∀ now, elected = primaryAddr hashings now tables
  | storing snapshot | reading snapshot | publishing snapshot _
  | broadcasting snapshot =>
      ∀ now, snapshot = buildSnapshot hashings now tables
  | _ => True

/-- The call has not stored its snapshot yet. -/
def unstored : Phase → Bool
  | reading _ | publishing _ _ | broadcasting _ | finished => false
  | _ => true

/-- The call will publish who is primary by the tables. -/
def Publishes (hashings : Hashings) (tables : Tables) : Phase → Prop
  | forgetting _ | broadcasting _ | finished => False
  | publishing _ primary => ∀ now, primary = primaryAddr hashings now tables
  | _ => True

end Phase

/-- The snapshot that is stored. -/
def storedDebt (hashings : Hashings) : Debt Registry Phase where
  Paid registry := ∀ now,
    registry.snapshot = buildSnapshot hashings now registry.tables
  Owes registry phase :=
    phase.Draws hashings registry.tables ∧ phase.unstored = true

/-- The snapshot that is broadcast. -/
def updateDebt (hashings : Hashings) : Debt Registry Phase where
  Paid registry := ∀ now,
    registry.lastUpdate = buildSnapshot hashings now registry.tables
  Owes registry phase := phase.Draws hashings registry.tables

/-- The primary that is published. -/
def primaryDebt (hashings : Hashings) : Debt Registry Phase where
  Paid registry := ∀ now,
    registry.primary = primaryAddr hashings now registry.tables
  Owes registry phase := phase.Publishes hashings registry.tables

/-- What a call stores, publishes or broadcasts is what the tables give, or
another call is still to store, publish or broadcast what they give. -/
def Timely (hashings : Hashings) (calls : Calls Registry Phase) (call : Nat)
    (_ : Instant) : Phase → Prop
  | .storing snapshot =>
      (∀ now, snapshot = buildSnapshot hashings now calls.state.tables) ∨
        calls.Others call ((storedDebt hashings).Owes calls.state)
  | .publishing _ primary =>
      (∀ now, primary = primaryAddr hashings now calls.state.tables) ∨
        calls.Others call ((primaryDebt hashings).Owes calls.state)
  | .broadcasting snapshot =>
      (∀ now, snapshot = buildSnapshot hashings now calls.state.tables) ∨
        calls.Others call ((updateDebt hashings).Owes calls.state)
  | _ => True

/-! ### What a step does -/

section

variable {hashings : Hashings} {registry : Registry} {now : Instant}
  {phase : Phase}

end

/-! ### What is covered -/

section

variable {hashings : Hashings} {calls : Calls Registry Phase} {call : Nat}
  {now : Instant} {phase : Phase}

end

/-- The invariant of the steps. -/
structure Covered (hashings : Hashings) (calls : Calls Registry Phase) :
    Prop where
  stored : (storedDebt hashings).Covered calls
  update : (updateDebt hashings).Covered calls
  primary : (primaryDebt hashings).Covered calls

theorem written_perm (companions : Authority.Companions) :
    (id companions).Perm companions := .refl _

/-- Maps that are gone through in the order of their keys' first writes. -/
def Hashings.written : Hashings where
  companions := ⟨id, written_perm⟩
  scopes := ⟨id, fun _ => .refl _⟩
  announces := ⟨id, fun _ => .refl _⟩

end Capability

end Bridgething
