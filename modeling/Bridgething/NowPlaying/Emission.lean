/-
What an emission leaves at the device: the claims, the player, the queue and the
targets that were sent last.
-/
import Bridgething.NowPlaying.Arbiter

namespace Bridgething

namespace NowPlaying

universe u

variable {Player Queue Targets : Type u}

/-- The scopes that a source has authority over while it is heard. -/
def SourceState.warrants (state : SourceState Player Queue Targets)
    (hostOwnsVolume : Bool) : CompanionAuthorityScope → Bool
  | .volume => state.hasItem && (state.sourceOwnsVolume || hostOwnsVolume)
  | _ => state.hasItem

namespace Arbiter

/-! ### What an emission leaves alone -/

/-- Two states that differ at most in what is held and claimed. -/
structure Framed (arbiter other : Arbiter Player Queue Targets) : Prop where
  host : other.hostOwnsVolume = arbiter.hostOwnsVolume
  up : other.up = arbiter.up
  current : other.current = arbiter.current
  sources : other.sources = arbiter.sources
  snapshot : other.device.snapshot = arbiter.device.snapshot
  queue : other.device.queue = arbiter.device.queue
  targets : other.device.targets = arbiter.device.targets
  down : arbiter.up = false → other.device = arbiter.device

theorem Framed.refl (arbiter : Arbiter Player Queue Targets) :
    arbiter.Framed arbiter :=
  ⟨rfl, rfl, rfl, rfl, rfl, rfl, rfl, fun _ => rfl⟩

theorem Framed.trans {first second third : Arbiter Player Queue Targets}
    (h : first.Framed second) (hnext : second.Framed third) :
    first.Framed third where
  host := hnext.host.trans h.host
  up := hnext.up.trans h.up
  current := hnext.current.trans h.current
  sources := hnext.sources.trans h.sources
  snapshot := hnext.snapshot.trans h.snapshot
  queue := hnext.queue.trans h.queue
  targets := hnext.targets.trans h.targets
  down hdown := (hnext.down (h.up.trans hdown)).trans (h.down hdown)

theorem event_up {arbiter : Arbiter Player Queue Targets}
    (hup : arbiter.up = true) (sent : LinkEvent Player Queue Targets) :
    arbiter.event sent =
      { arbiter with device := arbiter.device.receive sent } :=
  if_pos hup

theorem event_down {arbiter : Arbiter Player Queue Targets}
    (hdown : arbiter.up = false) (sent : LinkEvent Player Queue Targets) :
    arbiter.event sent = arbiter :=
  if_neg (by simp [hdown])

theorem framed_claim_event (arbiter : Arbiter Player Queue Targets)
    (scope : CompanionAuthorityScope) (appBundle : Option String) :
    arbiter.Framed (arbiter.event (.claim scope appBundle)) := by
  unfold event
  split
  · rename_i hup
    exact ⟨rfl, rfl, rfl, rfl, rfl, rfl, rfl, fun hdown => by
      simp [hup] at hdown⟩
  · exact Framed.refl arbiter

theorem framed_release_event (arbiter : Arbiter Player Queue Targets)
    (scope : CompanionAuthorityScope) :
    arbiter.Framed (arbiter.event (.release scope)) := by
  unfold event
  split
  · rename_i hup
    exact ⟨rfl, rfl, rfl, rfl, rfl, rfl, rfl, fun hdown => by
      simp [hup] at hdown⟩
  · exact Framed.refl arbiter

theorem framed_claimScope (arbiter : Arbiter Player Queue Targets)
    (appBundle : String) (scope : CompanionAuthorityScope) :
    arbiter.Framed (arbiter.claimScope appBundle scope) := by
  have hsent := framed_claim_event arbiter scope (some appBundle)
  unfold claimScope
  split
  · dsimp only
    split
    · exact ⟨hsent.host, hsent.up, hsent.current, hsent.sources,
        hsent.snapshot, hsent.queue, hsent.targets, hsent.down⟩
    · exact hsent
  · exact Framed.refl arbiter

/-! ### Claims -/

/-- The device knows of the claims that are held, and of no other. -/
def Backed (arbiter : Arbiter Player Queue Targets) : Prop :=
  ∀ scope, arbiter.device.claims scope =
    if scope ∈ arbiter.held.scopes then arbiter.held.appBundle else none

/-- The scopes held for a bundle are claimed under it. -/
structure Claiming (arbiter : Arbiter Player Queue Targets)
    (appBundle : String) : Prop where
  up : arbiter.up = true
  held : ∀ scope ∈ arbiter.held.scopes,
    arbiter.held.appBundle = some appBundle →
      arbiter.device.claims scope = some appBundle

theorem Backed.claiming {arbiter : Arbiter Player Queue Targets}
    (h : arbiter.Backed) (hup : arbiter.up = true) (appBundle : String) :
    arbiter.Claiming appBundle where
  up := hup
  held scope hmem hbundle := by rw [h scope, if_pos hmem, hbundle]

/-- A claim that is made, or held already. -/
structure ClaimedScope (arbiter after : Arbiter Player Queue Targets)
    (appBundle : String) (scope : CompanionAuthorityScope) : Prop where
  claiming : after.Claiming appBundle
  claimed : after.device.claims scope = some appBundle
  mine : scope ∈ after.held.scopes
  claims : ∀ other, other ≠ scope →
    after.device.claims other = arbiter.device.claims other
  scopes : ∀ other, other ≠ scope →
    (other ∈ after.held.scopes ↔ other ∈ arbiter.held.scopes)

theorem Claiming.claimScope {arbiter : Arbiter Player Queue Targets}
    {appBundle : String} (h : arbiter.Claiming appBundle)
    (scope : CompanionAuthorityScope) :
    ClaimedScope arbiter (arbiter.claimScope appBundle scope) appBundle
      scope := by
  unfold Arbiter.claimScope
  by_cases hneeds : scope ∉ arbiter.held.scopes ∨
      arbiter.held.appBundle ≠ some appBundle
  · rw [if_pos hneeds, event_up h.up, if_pos h.up]
    have hother : ∀ other, other ≠ scope →
        Function.update arbiter.device.claims scope (some appBundle) other =
          arbiter.device.claims other := fun other hne =>
      Function.update_of_ne hne _ _
    have hself : Function.update arbiter.device.claims scope (some appBundle)
        scope = some appBundle := Function.update_self _ _ _
    constructor
    · constructor
      · exact h.up
      · intro other hmem hbundle
        by_cases hsame : other = scope
        · rw [hsame]
          exact hself
        · exact (hother other hsame).trans
            (h.held other (Finset.mem_of_mem_insert_of_ne hmem hsame) hbundle)
    · exact hself
    · exact Finset.mem_insert_self _ _
    · exact hother
    · intro other hne
      exact ⟨fun hmem => Finset.mem_of_mem_insert_of_ne hmem hne,
        Finset.mem_insert_of_mem⟩
  · rw [if_neg hneeds]
    rw [not_or, not_not, not_not] at hneeds
    exact ⟨h, h.held scope hneeds.1 hneeds.2, hneeds.1, fun _ _ => rfl,
      fun _ _ => Iff.rfl⟩

/-- Several scopes claimed one after the other. -/
theorem Claiming.claimAll {arbiter : Arbiter Player Queue Targets}
    {appBundle : String} (h : arbiter.Claiming appBundle)
    (want : List CompanionAuthorityScope) :
    let after := want.foldl (fun arbiter scope =>
      arbiter.claimScope appBundle scope) arbiter
    after.Claiming appBundle ∧
      ∀ scope, (scope ∈ want → after.device.claims scope = some appBundle ∧
        scope ∈ after.held.scopes) ∧
        (scope ∉ want →
          after.device.claims scope = arbiter.device.claims scope ∧
          (scope ∈ after.held.scopes ↔ scope ∈ arbiter.held.scopes)) := by
  induction want generalizing arbiter with
  | nil =>
      exact ⟨h, fun scope =>
        ⟨fun hmem => absurd hmem List.not_mem_nil, fun _ => ⟨rfl, Iff.rfl⟩⟩⟩
  | cons first rest ih =>
      have hfirst := h.claimScope first
      obtain ⟨hclaiming, hrest⟩ := ih hfirst.claiming
      refine ⟨hclaiming, fun scope => ⟨fun hmem => ?_, fun hmem => ?_⟩⟩
      · by_cases hin : scope ∈ rest
        · exact (hrest scope).1 hin
        · obtain rfl : scope = first :=
            (List.mem_cons.mp hmem).resolve_right hin
          obtain ⟨hclaims, hscopes⟩ := (hrest scope).2 hin
          exact ⟨hclaims.trans hfirst.claimed, hscopes.mpr hfirst.mine⟩
      · rw [List.mem_cons, not_or] at hmem
        obtain ⟨hclaims, hscopes⟩ := (hrest scope).2 hmem.2
        exact ⟨hclaims.trans (hfirst.claims scope hmem.1),
          hscopes.trans (hfirst.scopes scope hmem.1)⟩

theorem framed_dropVolume (arbiter : Arbiter Player Queue Targets) :
    arbiter.Framed arbiter.dropVolume := by
  unfold dropVolume
  split
  · have hsent := framed_release_event { arbiter with
      held.scopes := arbiter.held.scopes.erase .volume } .volume
    exact ⟨hsent.host, hsent.up, hsent.current, hsent.sources, hsent.snapshot,
      hsent.queue, hsent.targets, hsent.down⟩
  · exact Framed.refl arbiter

/-- What a volume that is given up leaves. -/
theorem dropVolume_claims {arbiter : Arbiter Player Queue Targets}
    (hup : arbiter.up = true)
    (hfree : .volume ∉ arbiter.held.scopes →
      arbiter.device.claims .volume = none) :
    (arbiter.dropVolume.device.claims .volume = none ∧
      .volume ∉ arbiter.dropVolume.held.scopes) ∧
    ∀ scope, scope ≠ .volume →
      arbiter.dropVolume.device.claims scope = arbiter.device.claims scope ∧
      (scope ∈ arbiter.dropVolume.held.scopes ↔
        scope ∈ arbiter.held.scopes) := by
  unfold dropVolume
  split
  · rw [event_up (by exact hup)]
    have hself : Function.update arbiter.device.claims .volume none .volume =
        none := Function.update_self _ _ _
    have hother : ∀ scope, scope ≠ .volume →
        Function.update arbiter.device.claims .volume none scope =
          arbiter.device.claims scope := fun scope hne =>
      Function.update_of_ne hne _ _
    refine ⟨⟨hself, Finset.notMem_erase _ _⟩,
      fun scope hne => ⟨hother scope hne, ?_⟩⟩
    exact ⟨Finset.mem_of_mem_erase, Finset.mem_erase_of_ne_of_mem hne⟩
  · rename_i hnot
    exact ⟨⟨hfree hnot, hnot⟩, fun _ _ => ⟨rfl, Iff.rfl⟩⟩

theorem framed_claimAll (arbiter : Arbiter Player Queue Targets)
    (appBundle : String) (want : List CompanionAuthorityScope) :
    arbiter.Framed (want.foldl (fun arbiter scope =>
      arbiter.claimScope appBundle scope) arbiter) := by
  induction want generalizing arbiter with
  | nil => exact Framed.refl arbiter
  | cons first rest ih =>
      exact (framed_claimScope arbiter appBundle first).trans (ih _)

theorem Framed.rename {arbiter kept : Arbiter Player Queue Targets}
    (h : arbiter.Framed kept) (held : Held) :
    arbiter.Framed { kept with held := held } :=
  ⟨h.host, h.up, h.current, h.sources, h.snapshot, h.queue, h.targets, h.down⟩

theorem framed_claim (arbiter : Arbiter Player Queue Targets)
    (appBundle : String) (sourceOwnsVolume : Bool) :
    arbiter.Framed (arbiter.claim appBundle sourceOwnsVolume) := by
  unfold claim
  cases sourceOwnsVolume || arbiter.hostOwnsVolume with
  | true => exact (framed_claimAll arbiter appBundle _).rename _
  | false =>
      have hall := framed_claimAll arbiter appBundle (nowPlayingScopes ++ [])
      exact (hall.trans (framed_dropVolume _)).rename _

/-- What a claim leaves at the device: the scopes of the source that is heard,
under its bundle. -/
structure Claimed (after : Arbiter Player Queue Targets)
    (appBundle : String) (volume : Bool) : Prop where
  backed : after.Backed
  claims : ∀ scope, after.device.claims scope =
    if scope ≠ .volume ∨ volume = true then some appBundle else none

theorem claimed_claim {arbiter : Arbiter Player Queue Targets}
    {appBundle : String} {sourceOwnsVolume : Bool}
    (hclaiming : arbiter.Claiming appBundle)
    (hfree : .volume ∉ arbiter.held.scopes →
      (sourceOwnsVolume || arbiter.hostOwnsVolume) = false →
        arbiter.device.claims .volume = none) :
    Claimed (arbiter.claim appBundle sourceOwnsVolume) appBundle
      (sourceOwnsVolume || arbiter.hostOwnsVolume) := by
  unfold claim
  cases hvolume : sourceOwnsVolume || arbiter.hostOwnsVolume with
  | true =>
      obtain ⟨-, hall⟩ :=
        hclaiming.claimAll (nowPlayingScopes ++ [.volume])
      have hevery : ∀ scope, scope ∈ nowPlayingScopes ++
          [CompanionAuthorityScope.volume] := by
        intro scope
        cases scope <;> decide
      have hclaims := fun scope => ((hall scope).1 (hevery scope)).1
      have hscopes := fun scope => ((hall scope).1 (hevery scope)).2
      constructor
      · intro scope
        exact (hclaims scope).trans (if_pos (hscopes scope)).symm
      · intro scope
        rw [if_pos (Or.inr rfl)]
        exact hclaims scope
  | false =>
      obtain ⟨hafter, hall⟩ := hclaiming.claimAll (nowPlayingScopes ++ [])
      have hevery : ∀ scope, scope ≠ CompanionAuthorityScope.volume →
          scope ∈ nowPlayingScopes ++ [] := by
        intro scope hne
        cases scope with
        | volume => exact absurd rfl hne
        | nowPlayingMetadata => decide
        | nowPlayingPlayback => decide
      obtain ⟨hsame, hheld⟩ := (hall .volume).2 (by decide)
      obtain ⟨⟨hnone, hnot⟩, hrest⟩ := dropVolume_claims hafter.up
        fun hfreed => hsame.trans (hfree (hheld.not.mp hfreed) hvolume)
      constructor
      · intro scope
        by_cases hscope : scope = .volume
        · rw [hscope]
          exact hnone.trans (if_neg hnot).symm
        · have hmade := (hall scope).1 (hevery scope hscope)
          have hkept := hrest scope hscope
          exact (hkept.1.trans hmade.1).trans
            (if_pos (hkept.2.mpr hmade.2)).symm
      · intro scope
        by_cases hscope : scope = .volume
        · rw [hscope, if_neg (by simp)]
          exact hnone
        · rw [if_pos (Or.inl hscope)]
          exact (hrest scope hscope).1.trans
            ((hall scope).1 (hevery scope hscope)).1

/-- The scopes that are released are claimed no longer. -/
theorem releases_claims {arbiter : Arbiter Player Queue Targets}
    (hup : arbiter.up = true) (scopes : List CompanionAuthorityScope) :
    let after := scopes.foldl (fun arbiter scope =>
      arbiter.event (.release scope)) arbiter
    after.held = arbiter.held ∧ ∀ scope, after.device.claims scope =
      if scope ∈ scopes then none else arbiter.device.claims scope := by
  induction scopes generalizing arbiter with
  | nil => exact ⟨rfl, fun scope => (if_neg List.not_mem_nil).symm⟩
  | cons first rest ih =>
      have hsent := event_up hup (.release first)
      have hnext : (arbiter.event (.release first)).up = true := by
        rw [hsent]
        exact hup
      obtain ⟨hheld, hclaims⟩ := ih hnext
      refine ⟨hheld.trans (by rw [hsent]), fun scope => ?_⟩
      refine (hclaims scope).trans ?_
      rw [hsent]
      by_cases hin : scope ∈ rest
      · rw [if_pos hin, if_pos (List.mem_cons_of_mem _ hin)]
      · rw [if_neg hin]
        by_cases hfirst : scope = first
        · rw [hfirst, if_pos List.mem_cons_self]
          exact Function.update_self _ _ _
        · rw [if_neg (by simp [hfirst, hin])]
          exact Function.update_of_ne hfirst _ _

theorem framed_releases (arbiter : Arbiter Player Queue Targets)
    (scopes : List CompanionAuthorityScope) :
    arbiter.Framed (scopes.foldl (fun arbiter scope =>
      arbiter.event (.release scope)) arbiter) := by
  induction scopes generalizing arbiter with
  | nil => exact Framed.refl arbiter
  | cons first rest ih =>
      exact (framed_release_event arbiter first).trans (ih _)

theorem framed_releaseAll (arbiter : Arbiter Player Queue Targets) :
    arbiter.Framed arbiter.releaseAll :=
  ((Framed.refl arbiter).rename {}).trans (framed_releases _ _)

theorem releaseAll_claims {arbiter : Arbiter Player Queue Targets}
    (hup : arbiter.up = true) (hbacked : arbiter.Backed) :
    arbiter.releaseAll.Backed ∧
      ∀ scope, arbiter.releaseAll.device.claims scope = none := by
  obtain ⟨hheld, hclaims⟩ := @releases_claims _ _ _
    { arbiter with held := {} } hup
    ([.nowPlayingMetadata, .nowPlayingPlayback, .volume].filter
      fun scope => scope ∈ arbiter.held.scopes)
  have hnone : ∀ scope, arbiter.releaseAll.device.claims scope = none := by
    intro scope
    refine (hclaims scope).trans ?_
    by_cases hmem : scope ∈ arbiter.held.scopes
    · rw [if_pos]
      rw [List.mem_filter]
      exact ⟨by cases scope <;> decide, decide_eq_true hmem⟩
    · rw [hbacked scope, if_neg hmem, ite_self]
  refine ⟨fun scope => ?_, hnone⟩
  have hempty : arbiter.releaseAll.held = {} := hheld
  rw [hnone scope, hempty, if_neg (Finset.notMem_empty scope)]

/-! ### What an emission leaves at the device -/

/-- After a source was sent with a queue and targets. -/
structure Sent (arbiter after : Arbiter Player Queue Targets)
    (state : SourceState Player Queue Targets) (queue : Option Queue)
    (targets : Option Targets) : Prop where
  host : after.hostOwnsVolume = arbiter.hostOwnsVolume
  up : after.up = arbiter.up
  current : after.current = arbiter.current
  sources : after.sources = arbiter.sources
  backed : after.Backed
  claims : ∀ scope, after.device.claims scope =
    if state.warrants arbiter.hostOwnsVolume scope then some state.appBundle
    else none
  snapshot : after.device.snapshot =
    (state.snapshot <|> arbiter.device.snapshot)
  queue : after.device.queue = (queue <|> arbiter.device.queue)
  targets : after.device.targets = (targets <|> arbiter.device.targets)

/-- Claims that are made for a source, or released. -/
structure Settled (arbiter after : Arbiter Player Queue Targets)
    (state : SourceState Player Queue Targets) : Prop where
  framed : arbiter.Framed after
  backed : after.Backed
  claims : ∀ scope, after.device.claims scope =
    if state.warrants arbiter.hostOwnsVolume scope then some state.appBundle
    else none

theorem settled_claim {arbiter : Arbiter Player Queue Targets}
    {state : SourceState Player Queue Targets} (hitem : state.hasItem = true)
    (hclaiming : arbiter.Claiming state.appBundle)
    (hfree : .volume ∉ arbiter.held.scopes →
      (state.sourceOwnsVolume || arbiter.hostOwnsVolume) = false →
        arbiter.device.claims .volume = none) :
    Settled arbiter (arbiter.claim state.appBundle state.sourceOwnsVolume)
      state := by
  have hclaimed := claimed_claim hclaiming hfree
  constructor
  · exact framed_claim arbiter state.appBundle state.sourceOwnsVolume
  · exact hclaimed.backed
  · intro scope
    rw [hclaimed.claims scope]
    cases scope <;> simp [SourceState.warrants, hitem]

theorem settled_release {arbiter : Arbiter Player Queue Targets}
    {state : SourceState Player Queue Targets} (hitem : state.hasItem = false)
    (hup : arbiter.up = true) (hbacked : arbiter.Backed) :
    Settled arbiter arbiter.releaseAll state := by
  obtain ⟨hafter, hnone⟩ := releaseAll_claims hup hbacked
  refine ⟨framed_releaseAll arbiter, hafter, fun scope => ?_⟩
  rw [hnone scope]
  cases scope <;> simp [SourceState.warrants, hitem]

/-- The player follows the claims. -/
theorem Settled.sendSnapshot {arbiter after : Arbiter Player Queue Targets}
    {state : SourceState Player Queue Targets} (h : Settled arbiter after state)
    (hup : arbiter.up = true) :
    Sent arbiter (after.sendSnapshot state.snapshot) state none none := by
  have hframed := h.framed
  unfold Arbiter.sendSnapshot
  cases hsnapshot : state.snapshot with
  | none =>
      constructor
      · exact hframed.host
      · exact hframed.up
      · exact hframed.current
      · exact hframed.sources
      · exact h.backed
      · exact h.claims
      · rw [hsnapshot]
        exact hframed.snapshot
      · exact hframed.queue
      · exact hframed.targets
  | some player =>
      dsimp only
      rw [event_up (by exact hframed.up.trans hup)]
      constructor
      · exact hframed.host
      · exact hframed.up
      · exact hframed.current
      · exact hframed.sources
      · exact h.backed
      · exact h.claims
      · rw [hsnapshot]
        rfl
      · exact hframed.queue
      · exact hframed.targets

theorem Sent.sendQueue {arbiter after : Arbiter Player Queue Targets}
    {state : SourceState Player Queue Targets} {queue : Option Queue}
    {targets : Option Targets} (h : Sent arbiter after state queue targets)
    (hup : arbiter.up = true) (sent : Queue) :
    Sent arbiter (after.event (.queueChanged sent)) state (some sent)
      targets := by
  rw [event_up (h.up.trans hup)]
  exact ⟨h.host, h.up, h.current, h.sources, h.backed, h.claims, h.snapshot,
    rfl, h.targets⟩

theorem Sent.sendTargets {arbiter after : Arbiter Player Queue Targets}
    {state : SourceState Player Queue Targets} {queue : Option Queue}
    {targets : Option Targets} (h : Sent arbiter after state queue targets)
    (hup : arbiter.up = true) (sent : Targets) :
    Sent arbiter (after.event (.targetsChanged sent)) state queue
      (some sent) := by
  rw [event_up (h.up.trans hup)]
  exact ⟨h.host, h.up, h.current, h.sources, h.backed, h.claims, h.snapshot,
    h.queue, rfl⟩

/-- What is sent while the link is down is lost. -/
structure Still (arbiter after : Arbiter Player Queue Targets) : Prop where
  up : after.up = arbiter.up
  current : after.current = arbiter.current
  sources : after.sources = arbiter.sources
  device : after.device = arbiter.device

theorem Framed.still {arbiter after : Arbiter Player Queue Targets}
    (h : arbiter.Framed after) (hdown : arbiter.up = false) :
    arbiter.Still after :=
  ⟨h.up, h.current, h.sources, h.down hdown⟩

theorem Still.event {arbiter after : Arbiter Player Queue Targets}
    (h : arbiter.Still after) (hdown : arbiter.up = false)
    (sent : LinkEvent Player Queue Targets) :
    arbiter.Still (after.event sent) := by
  rw [event_down (h.up.trans hdown)]
  exact h

theorem Still.sendSnapshot {arbiter after : Arbiter Player Queue Targets}
    (h : arbiter.Still after) (hdown : arbiter.up = false)
    (snapshot : Option Player) :
    arbiter.Still (after.sendSnapshot snapshot) := by
  unfold Arbiter.sendSnapshot
  cases snapshot with
  | none => exact h
  | some player =>
      have hsame : arbiter.Still { after with
          arbitrated := after.arbitrated ++ [some player] } :=
        ⟨h.up, h.current, h.sources, h.device⟩
      exact hsame.event hdown (.snapshot player)

/-- A source is sent again to a device that knows of no claim of another. -/
theorem sent_reemitSource {arbiter : Arbiter Player Queue Targets}
    {state : SourceState Player Queue Targets} (hup : arbiter.up = true)
    (hheld : arbiter.held = {})
    (hclaims : ∀ scope, arbiter.device.claims scope ≠ none →
      state.warrants arbiter.hostOwnsVolume scope = true) :
    Sent arbiter (arbiter.reemitSource state) state state.queue
      state.targets := by
  have hsettled : Settled arbiter (if state.hasItem then
      arbiter.claim state.appBundle state.sourceOwnsVolume
      else arbiter) state := by
    cases hitem : state.hasItem with
    | true =>
        apply settled_claim hitem
        · refine ⟨hup, fun scope hmem => ?_⟩
          rw [hheld] at hmem
          exact absurd hmem (Finset.notMem_empty scope)
        · intro _ hvolume
          by_contra hsome
          have hwarrants := hclaims .volume hsome
          simp [SourceState.warrants, hvolume] at hwarrants
    | false =>
        have hnone : ∀ scope, arbiter.device.claims scope = none := by
          intro scope
          by_contra hsome
          have hwarrants := hclaims scope hsome
          cases scope <;> simp [SourceState.warrants, hitem] at hwarrants
        refine ⟨Framed.refl arbiter, fun scope => ?_, fun scope => ?_⟩
        · rw [if_neg Bool.false_ne_true, hnone scope, hheld]
          exact (if_neg (Finset.notMem_empty scope)).symm
        · rw [if_neg Bool.false_ne_true, hnone scope]
          cases scope <;> simp [SourceState.warrants, hitem]
  have hplayer := hsettled.sendSnapshot hup
  unfold reemitSource
  cases hqueue : state.queue with
  | none =>
      cases htargets : state.targets with
      | none => exact hplayer
      | some targets => exact hplayer.sendTargets hup targets
  | some queue =>
      have hsent := hplayer.sendQueue hup queue
      cases htargets : state.targets with
      | none => exact hsent
      | some targets => exact hsent.sendTargets hup targets

section Emission

variable [Inhabited Queue] [Inhabited Targets]

theorem sent_emitSource {arbiter : Arbiter Player Queue Targets}
    (hup : arbiter.up = true) (hbacked : arbiter.Backed) (prev : Option String)
    (next : String) (state : SourceState Player Queue Targets) :
    Sent arbiter (arbiter.emitSource prev next state) state
      (if prev.any fun prev => prev != next then
        some (state.queue.getD default) else none)
      (if prev.any fun prev => prev != next then
        some (state.targets.getD default) else none) := by
  have hsettled : Settled arbiter (if state.hasItem then
      arbiter.claim state.appBundle state.sourceOwnsVolume
      else arbiter.releaseAll) state := by
    cases hitem : state.hasItem with
    | true =>
        exact settled_claim hitem (hbacked.claiming hup _)
          fun hnot _ => (hbacked .volume).trans (if_neg hnot)
    | false => exact settled_release hitem hup hbacked
  have hplayer := hsettled.sendSnapshot hup
  unfold emitSource
  dsimp only
  split
  · exact (hplayer.sendQueue hup _).sendTargets hup _
  · exact hplayer

theorem still_emitSource {arbiter : Arbiter Player Queue Targets}
    (hdown : arbiter.up = false) (prev : Option String) (next : String)
    (state : SourceState Player Queue Targets) :
    arbiter.Still (arbiter.emitSource prev next state) := by
  have hframed : arbiter.Framed (if state.hasItem then
      arbiter.claim state.appBundle state.sourceOwnsVolume
      else arbiter.releaseAll) := by
    split
    · exact framed_claim arbiter state.appBundle state.sourceOwnsVolume
    · exact framed_releaseAll arbiter
  have hplayer := (hframed.still hdown).sendSnapshot hdown state.snapshot
  unfold emitSource
  dsimp only
  split
  · exact (hplayer.event hdown _).event hdown _
  · exact hplayer

end Emission

end Arbiter

end NowPlaying

end Bridgething
