/-
Which companion answers for the scopes it claims: the registry elects one, and
what it publishes at a call is what it answers until the next.
-/
import Bridgething.Lib.Ranking
import Bridgething.Lib.Table

namespace Bridgething

namespace Authority

/-- Six bytes, the first of them the highest. -/
abbrev Address := Nat

/-- In nanoseconds. -/
abbrev Instant := Nat

inductive CompanionAuthorityScope
  | nowPlayingMetadata
  | nowPlayingPlayback
  | volume
deriving Repr, DecidableEq

def STALE_TIMEOUT : Nat := 5 * 10 ^ 9

def scopeHoldsIndefinitely : CompanionAuthorityScope → Bool
  | .nowPlayingMetadata | .nowPlayingPlayback | .volume => true

def isLive (now : Instant) (scope : CompanionAuthorityScope)
    (claimedAt : Instant) : Bool :=
  scopeHoldsIndefinitely scope || now - claimedAt < STALE_TIMEOUT

structure CompanionAuthority where
  scopes : Table CompanionAuthorityScope Instant := []
  appBundle : Option String := none
deriving Repr, DecidableEq

namespace CompanionAuthority

def holds (companion : CompanionAuthority) (now : Instant)
    (scope : CompanionAuthorityScope) : Bool :=
  (companion.scopes.get? scope).any (isLive now scope)

def liveClaims (companion : CompanionAuthority) (now : Instant) :
    Table CompanionAuthorityScope Instant :=
  companion.scopes.filter fun claim => isLive now claim.1 claim.2

def latestLiveClaim (companion : CompanionAuthority) (now : Instant) :
    Option Instant :=
  (companion.liveClaims now).values.max?

def holdsNowPlaying (companion : CompanionAuthority) (now : Instant) : Bool :=
  companion.holds now .nowPlayingMetadata ||
    companion.holds now .nowPlayingPlayback

end CompanionAuthority

abbrev Companions := Table Address CompanionAuthority

/-- A companion that claims something, with its latest claim. -/
structure Candidate where
  addr : Address
  companion : CompanionAuthority
  latest : Instant

def candidate (now : Instant) (entry : Address × CompanionAuthority) :
    Option Candidate :=
  (entry.2.latestLiveClaim now).map fun latest => ⟨entry.1, entry.2, latest⟩

/-- What is playing outranks the latest claim, and that the lower address. -/
def rank (now : Instant) : Candidate → Candidate → Ordering :=
  compareLex (compareOn fun held => held.companion.holdsNowPlaying now)
    (compareLex (compareOn Candidate.latest)
      fun a b => compareOn Candidate.addr b a)

def elect (companions : Companions) (now : Instant) : Option Address :=
  (Ranking.maxBy (rank now) (companions.filterMap (candidate now))).map
    Candidate.addr

/-- The order in which the map of companions is gone through, which its hashing
decides. -/
structure Hashing where
  order : Companions → Companions
  perm : ∀ companions, (order companions).Perm companions

structure NowPlayingAuthorityState where
  companionMetadata : Bool := false
  companionPlayback : Bool := false
  appBundle : Option String := none
deriving Repr, DecidableEq

structure AuthorityRegistry where
  companions : Companions := []
  nowPlaying : NowPlayingAuthorityState := {}
  primaryPublished : Option Address := none

namespace AuthorityRegistry

def primary (registry : AuthorityRegistry) (hashing : Hashing)
    (now : Instant) : Option Address :=
  elect (hashing.order registry.companions) now

def elected (registry : AuthorityRegistry) (hashing : Hashing)
    (now : Instant) : Option CompanionAuthority :=
  (registry.primary hashing now).bind registry.companions.get?

def companionAppBundle (registry : AuthorityRegistry) (hashing : Hashing)
    (now : Instant) : Option String :=
  (registry.elected hashing now).bind CompanionAuthority.appBundle

def isAuthoritative (registry : AuthorityRegistry) (hashing : Hashing)
    (now : Instant) (scope : CompanionAuthorityScope) : Bool :=
  (registry.elected hashing now).any fun companion =>
    companion.holds now scope

def publish (registry : AuthorityRegistry) (hashing : Hashing)
    (now : Instant) : AuthorityRegistry :=
  let primary := registry.elected hashing now
  { registry with
    nowPlaying :=
      { companionMetadata :=
          primary.any fun c => c.holds now .nowPlayingMetadata
        companionPlayback :=
          primary.any fun c => c.holds now .nowPlayingPlayback
        appBundle := primary.bind CompanionAuthority.appBundle }
    primaryPublished := registry.primary hashing now }

/-- The entry of a companion, made where there is none. -/
def entry (registry : AuthorityRegistry) (addr : Address) :
    CompanionAuthority :=
  (registry.companions.get? addr).getD {}

def claim (registry : AuthorityRegistry) (hashing : Hashing) (now : Instant)
    (addr : Address) (scope : CompanionAuthorityScope) : AuthorityRegistry :=
  let companion := registry.entry addr
  let claimed :=
    { companion with scopes := companion.scopes.put scope now }
  { registry with
    companions := registry.companions.put addr claimed }.publish hashing now

def release (registry : AuthorityRegistry) (hashing : Hashing)
    (now : Instant) (addr : Address) (scope : CompanionAuthorityScope) :
    AuthorityRegistry :=
  match registry.companions.get? addr with
  | some companion =>
      let released :=
        { companion with scopes := companion.scopes.remove scope }
      { registry with
        companions := registry.companions.put addr released }.publish hashing
          now
  | none => registry.publish hashing now

def dropFor (registry : AuthorityRegistry) (hashing : Hashing)
    (now : Instant) (addr : Address) : AuthorityRegistry :=
  { registry with
    companions := registry.companions.remove addr }.publish hashing now

def setCompanionAppBundle (registry : AuthorityRegistry) (hashing : Hashing)
    (now : Instant) (addr : Address) :
    Option String → AuthorityRegistry
  | some bundle =>
      let named := { registry.entry addr with appBundle := some bundle }
      { registry with
        companions := registry.companions.put addr named }.publish hashing now
  | none => registry

end AuthorityRegistry

inductive Call
  | claim (addr : Address) (scope : CompanionAuthorityScope)
  | release (addr : Address) (scope : CompanionAuthorityScope)
  | dropFor (addr : Address)
  | setCompanionAppBundle (addr : Address) (bundle : Option String)
deriving Repr, DecidableEq

def Call.make (registry : AuthorityRegistry) (hashing : Hashing)
    (now : Instant) : Call → AuthorityRegistry
  | .claim addr scope => registry.claim hashing now addr scope
  | .release addr scope => registry.release hashing now addr scope
  | .dropFor addr => registry.dropFor hashing now addr
  | .setCompanionAppBundle addr bundle =>
      registry.setCompanionAppBundle hashing now addr bundle

/-- A call, and how long after the one before it. -/
structure Event where
  elapsed : Nat
  hashing : Hashing
  call : Call

structure Run where
  now : Instant
  registry : AuthorityRegistry

def Run.step (run : Run) (event : Event) : Run where
  now := run.now + event.elapsed
  registry :=
    event.call.make run.registry event.hashing (run.now + event.elapsed)

def Run.after (start : Instant) (events : List Event) : Run :=
  events.foldl Run.step ⟨start, {}⟩

/-- What is published is what the registry answers. -/
structure Agrees (registry : AuthorityRegistry) (hashing : Hashing)
    (now : Instant) : Prop where
  primary : registry.primaryPublished = registry.primary hashing now
  metadata : registry.nowPlaying.companionMetadata =
    registry.isAuthoritative hashing now .nowPlayingMetadata
  playback : registry.nowPlaying.companionPlayback =
    registry.isAuthoritative hashing now .nowPlayingPlayback
  appBundle : registry.nowPlaying.appBundle =
    registry.companionAppBundle hashing now

/-! ### No claim goes stale -/

theorem scopeHoldsIndefinitely_eq (scope : CompanionAuthorityScope) :
    scopeHoldsIndefinitely scope = true := by
  cases scope <;> rfl

theorem isLive_eq (now : Instant) (scope : CompanionAuthorityScope)
    (claimedAt : Instant) : isLive now scope claimedAt = true := by
  rw [isLive, scopeHoldsIndefinitely_eq, Bool.true_or]

theorem isLive_later (now later : Instant) : isLive later = isLive now := by
  funext scope claimedAt
  rw [isLive_eq, isLive_eq]

theorem CompanionAuthority.holds_later (companion : CompanionAuthority)
    (now later : Instant) (scope : CompanionAuthorityScope) :
    companion.holds later scope = companion.holds now scope := by
  rw [holds, holds, isLive_later now]

theorem candidate_later (now later : Instant) :
    candidate later = candidate now := by
  funext entry
  simp only [candidate, CompanionAuthority.latestLiveClaim,
    CompanionAuthority.liveClaims, isLive_later now later]

theorem rank_later (now later : Instant) : rank later = rank now := by
  have hheld : ∀ companion : CompanionAuthority,
      companion.holdsNowPlaying later = companion.holdsNowPlaying now := by
    intro companion
    simp only [CompanionAuthority.holdsNowPlaying,
      companion.holds_later now later]
  simp only [rank, hheld]

theorem elect_later (companions : Companions) (now later : Instant) :
    elect companions later = elect companions now := by
  rw [elect, elect, candidate_later now, rank_later now]

/-! ### The order the companions are gone through -/

instance (now : Instant) : Std.TransCmp (rank now) :=
  have : Std.TransCmp fun a b : Candidate => compareOn Candidate.addr b a :=
    Std.TransCmp.opposite
  inferInstanceAs (Std.TransCmp (compareLex _ (compareLex _ _)))

theorem addr_of_rank {now : Instant} {a b : Candidate}
    (h : rank now a b = .eq) : a.addr = b.addr := by
  simp only [rank, compareLex_eq_eq, compareOn] at h
  exact (Nat.compare_eq_eq.mp h.2.2).symm

theorem mem_of_candidate {now : Instant} {companions : Companions}
    {held : Candidate} (h : held ∈ companions.filterMap (candidate now)) :
    (held.addr, held.companion) ∈ companions ∧
      held.companion.latestLiveClaim now = some held.latest := by
  obtain ⟨entry, hmem, hcandidate⟩ := List.mem_filterMap.mp h
  obtain ⟨latest, hlatest, rfl⟩ := Option.map_eq_some_iff.mp hcandidate
  exact ⟨hmem, hlatest⟩

theorem elect_perm {companions others : Companions} (now : Instant)
    (hkeys : companions.keys.Nodup) (hperm : companions.Perm others) :
    elect companions now = elect others now := by
  rw [elect, elect,
    Ranking.maxBy_perm (hperm.filterMap (candidate now))]
  intro a ha b hb heq
  obtain ⟨hleft, hlatest⟩ := mem_of_candidate ha
  obtain ⟨hright, hother⟩ := mem_of_candidate hb
  have haddr := addr_of_rank heq
  have hcompanion : a.companion = b.companion :=
    Table.eq_of_mem_of_mem hkeys hleft (haddr ▸ hright)
  rw [hcompanion, hother] at hlatest
  obtain ⟨addr, companion, latest⟩ := a
  obtain ⟨addr', companion', latest'⟩ := b
  cases haddr
  cases hcompanion
  cases hlatest
  rfl

namespace AuthorityRegistry

theorem primary_eq {registry : AuthorityRegistry}
    (hkeys : registry.companions.keys.Nodup) (hashing other : Hashing)
    (now later : Instant) :
    registry.primary other later = registry.primary hashing now := by
  have hperm := (hashing.perm registry.companions).trans
    (other.perm registry.companions).symm
  have hordered : (hashing.order registry.companions).keys.Nodup :=
    ((hashing.perm registry.companions).map Prod.fst).nodup_iff.mpr hkeys
  rw [primary, primary, elect_later _ now later, elect_perm now hordered hperm]

theorem elected_eq {registry : AuthorityRegistry}
    (hkeys : registry.companions.keys.Nodup) (hashing other : Hashing)
    (now later : Instant) :
    registry.elected other later = registry.elected hashing now := by
  rw [elected, elected, primary_eq hkeys hashing other now later]

/-! ### What a call publishes -/

/-- The invariant of the registry: nothing answers otherwise than what was
published, whenever it is asked. -/
structure Published (registry : AuthorityRegistry) : Prop where
  nodup : registry.companions.keys.Nodup
  agrees : ∀ hashing now, Agrees registry hashing now

theorem published_new : Published {} where
  nodup := List.nodup_nil
  agrees hashing now := by
    have hnone : ({} : AuthorityRegistry).primary hashing now = none := by
      have hempty : hashing.order [] = [] :=
        List.perm_nil.mp (hashing.perm [])
      rw [primary, hempty]
      rfl
    constructor <;>
      simp [isAuthoritative, companionAppBundle, elected, hnone]

theorem Published.publish {registry : AuthorityRegistry}
    (hkeys : registry.companions.keys.Nodup) (hashing : Hashing)
    (now : Instant) : Published (registry.publish hashing now) where
  nodup := hkeys
  agrees other later :=
    have hheld (scope : CompanionAuthorityScope) :
        registry.isAuthoritative other later scope =
          registry.isAuthoritative hashing now scope := by
      simp only [isAuthoritative, elected_eq hkeys hashing other now later,
        CompanionAuthority.holds_later _ now later]
    { primary := (primary_eq hkeys hashing other now later).symm
      metadata := (hheld .nowPlayingMetadata).symm
      playback := (hheld .nowPlayingPlayback).symm
      appBundle := by
        have hsame := elected_eq hkeys hashing other now later
        exact congrArg (·.bind CompanionAuthority.appBundle) hsame.symm }

theorem Published.make {registry : AuthorityRegistry}
    (h : Published registry) (hashing : Hashing) (now : Instant)
    (call : Call) : Published (call.make registry hashing now) := by
  cases call with
  | claim addr scope =>
      exact Published.publish (Table.nodup_keys_put h.nodup _ _) hashing now
  | release addr scope =>
      simp only [Call.make, release]
      split
      · exact Published.publish (Table.nodup_keys_put h.nodup _ _) hashing now
      · exact Published.publish h.nodup hashing now
  | dropFor addr =>
      exact Published.publish (Table.nodup_keys_remove h.nodup _) hashing now
  | setCompanionAppBundle addr bundle =>
      cases bundle with
      | none => exact h
      | some bundle =>
          exact Published.publish (Table.nodup_keys_put h.nodup _ _) hashing
            now

end AuthorityRegistry

theorem Run.published (start : Instant) (events : List Event) :
    (Run.after start events).registry.Published := by
  induction events using List.reverseRecOn with
  | nil => exact AuthorityRegistry.published_new
  | append_singleton events event ih =>
      rw [Run.after, List.foldl_append]
      exact ih.make event.hashing _ event.call

/-- At every moment after any calls, what is published is what the registry
answers then. -/
theorem Run.published_agrees (start : Instant) (events : List Event)
    (hashing : Hashing) (wait : Nat) :
    Agrees (Run.after start events).registry hashing
      ((Run.after start events).now + wait) :=
  (Run.published start events).agrees hashing _

end Authority

end Bridgething
