/-
When the device has what the current source has, over all the operations.
-/
import Bridgething.Lib.Transition
import Bridgething.NowPlaying.Emission

namespace Bridgething

namespace NowPlaying

universe u

variable {Player Queue Targets : Type u} [Inhabited Queue] [Inhabited Targets]

namespace SourceState

/-- No player of another source is shown in place of one there is not. -/
def Shows (state : SourceState Player Queue Targets)
    (device : Device Player Queue Targets) : Prop :=
  state.snapshot = none → device.snapshot = none

/-- The queue and the targets are those of the source, or empty as they are. -/
structure Lists (state : SourceState Player Queue Targets)
    (device : Device Player Queue Targets) : Prop where
  queue : device.queue.getD default = state.queue.getD default
  targets : device.targets.getD default = state.targets.getD default

/-- What a source has not is not there either. -/
structure Lacks (state : SourceState Player Queue Targets)
    (device : Device Player Queue Targets) : Prop where
  shows : state.Shows device
  queue : state.queue = none → device.queue.getD default = default
  targets : state.targets = none → device.targets.getD default = default

end SourceState

namespace Arbiter

/-- The device has what a source has, and its authority. -/
structure Mirrors (arbiter : Arbiter Player Queue Targets)
    (state : SourceState Player Queue Targets) : Prop where
  snapshot : arbiter.device.snapshot = state.snapshot
  lists : state.Lists arbiter.device
  claims : ∀ scope, arbiter.device.claims scope =
    if state.warrants arbiter.hostOwnsVolume scope then some state.appBundle
    else none

/-- The device has what the current source has. -/
def Mirrored (arbiter : Arbiter Player Queue Targets) : Prop :=
  arbiter.up = true → ∀ source state, arbiter.current = some source →
    arbiter.sources.get? source = some state → arbiter.Mirrors state

/-- Which source is heard next, and what it has. -/
def Picks (arbiter : Arbiter Player Queue Targets) (prefer next : String)
    (state : SourceState Player Queue Targets) : Prop :=
  arbiter.pickCurrent prefer = some next ∧
    arbiter.sources.get? next = some state

omit [Inhabited Queue] [Inhabited Targets] in
theorem mem_of_maxByKey {key : SourceState Player Queue Targets → UInt64}
    {sources : Table String (SourceState Player Queue Targets)}
    {prefer found : String} (h : maxByKey key sources prefer = some found) :
    found ∈ sources.keys := by
  have hties : found ∈ Table.keys (sources.filter fun entry =>
      sources.all fun other => key other.2 ≤ key entry.2) := by
    unfold maxByKey at h
    dsimp only at h
    split at h
    · rename_i hprefer
      rw [← Option.some.inj h]
      exact hprefer
    · exact List.mem_of_getLast? h
  exact (List.filter_sublist.map Prod.fst).subset hties

omit [Inhabited Queue] [Inhabited Targets] in
/-- Only a source that is there is picked. -/
theorem pickCurrent_known {arbiter : Arbiter Player Queue Targets}
    {prefer next : String} (h : arbiter.pickCurrent prefer = some next) :
    ∃ state, arbiter.Picks prefer next state := by
  have hmem : next ∈ arbiter.sources.keys := by
    unfold pickCurrent at h
    dsimp only at h
    split at h
    · rename_i startedLast hplaying
      rw [← Option.some.inj h]
      exact (List.filter_sublist.map Prod.fst).subset
        (mem_of_maxByKey hplaying)
    · split at h
      · split at h
        · rename_i held _ hitem
          rw [← Option.some.inj h]
          by_contra hnot
          rw [Table.get?_eq_none.mpr hnot] at hitem
          exact Bool.false_ne_true hitem
        · exact mem_of_maxByKey h
      · exact mem_of_maxByKey h
  cases hget : arbiter.sources.get? next with
  | none => exact absurd hmem (Table.get?_eq_none.mp hget)
  | some state => exact ⟨state, h, hget⟩

/-- A source that was sent is mirrored if and only if nothing of another is in
the place of what was not sent. -/
theorem Sent.mirrors_iff {arbiter after : Arbiter Player Queue Targets}
    {state : SourceState Player Queue Targets} {queue : Option Queue}
    {targets : Option Targets} (h : Sent arbiter after state queue targets) :
    after.Mirrors state ↔ state.Shows arbiter.device ∧
      (queue <|> arbiter.device.queue).getD default =
        state.queue.getD default ∧
      (targets <|> arbiter.device.targets).getD default =
        state.targets.getD default := by
  have hshows : after.device.snapshot = state.snapshot ↔
      state.Shows arbiter.device := by
    rw [h.snapshot, SourceState.Shows]
    cases state.snapshot with
    | none => simp
    | some player => simp
  constructor
  · intro hmirrors
    refine ⟨hshows.mp hmirrors.snapshot, ?_, ?_⟩
    · rw [← h.queue]
      exact hmirrors.lists.queue
    · rw [← h.targets]
      exact hmirrors.lists.targets
  · rintro ⟨hsnapshot, hqueue, htargets⟩
    refine ⟨hshows.mpr hsnapshot, ⟨?_, ?_⟩, fun scope => ?_⟩
    · rw [h.queue]
      exact hqueue
    · rw [h.targets]
      exact htargets
    · rw [h.claims scope, h.host]

/-! ### The states that are reached -/

structure Inv (arbiter : Arbiter Player Queue Targets) : Prop where
  known : ∀ source, arbiter.current = some source →
    (arbiter.sources.get? source).isSome
  backed : arbiter.up = true → arbiter.Backed
  idle : arbiter.up = true → arbiter.current = none →
    ∀ scope, arbiter.device.claims scope = none
  mirrored : arbiter.Mirrored
  fresh : arbiter.up = false → arbiter.device = {}

theorem Inv.init (hostOwnsVolume : Bool) :
    Inv ({ hostOwnsVolume } : Arbiter Player Queue Targets) where
  known _ h := nomatch h
  backed h := nomatch h
  idle h := nomatch h
  mirrored h := nomatch h
  fresh _ := rfl

/-- What a source that comes next has to find at the device. -/
def Suits (arbiter : Arbiter Player Queue Targets) (prefer : String) : Prop :=
  arbiter.up = true → ∀ next state, arbiter.Picks prefer next state →
    (arbiter.current ≠ some next → state.Shows arbiter.device) ∧
    (arbiter.current = none → state.Lists arbiter.device)

/-- What is known of the states before an emission: all but that the current
source may have a new player. -/
structure Ready (arbiter : Arbiter Player Queue Targets) : Prop where
  backed : arbiter.up = true → arbiter.Backed
  mirrored : arbiter.up = true → ∀ source state,
    arbiter.current = some source → arbiter.sources.get? source = some state →
      state.Shows arbiter.device ∧ state.Lists arbiter.device
  fresh : arbiter.up = false → arbiter.device = {}

/-- A source that is mirrored becomes the current one. -/
theorem Sent.inv {arbiter after : Arbiter Player Queue Targets}
    {state : SourceState Player Queue Targets} {queue : Option Queue}
    {targets : Option Targets} (h : Sent arbiter after state queue targets)
    {next : String} (hup : arbiter.up = true)
    (hcurrent : arbiter.current = some next)
    (hget : arbiter.sources.get? next = some state)
    (hmirrors : after.Mirrors state) : after.Inv := by
  have hafter : after.current = some next := h.current.trans hcurrent
  have hfound : after.sources.get? next = some state := by
    rw [h.sources]
    exact hget
  constructor
  · intro source hsource
    rw [hafter, Option.some.injEq] at hsource
    rw [← hsource, hfound]
    rfl
  · exact fun _ => h.backed
  · intro _ hnone
    rw [hafter] at hnone
    contradiction
  · intro _ source other hsource hother
    rw [hafter, Option.some.injEq] at hsource
    rw [← hsource, hfound, Option.some.injEq] at hother
    rw [← hother]
    exact hmirrors
  · intro hdown
    rw [h.up, hup] at hdown
    contradiction

/-- A source that is known becomes the current one while the link is down. -/
theorem Still.inv {arbiter after : Arbiter Player Queue Targets}
    (h : arbiter.Still after) (hdown : arbiter.up = false)
    (hknown : ∀ source, arbiter.current = some source →
      (arbiter.sources.get? source).isSome)
    (hfresh : arbiter.device = {}) : after.Inv := by
  have hafter : after.up = false := h.up.trans hdown
  constructor
  · intro source hsource
    rw [h.sources]
    exact hknown source (h.current.symm.trans hsource)
  · intro hup
    rw [hafter] at hup
    contradiction
  · intro hup
    rw [hafter] at hup
    contradiction
  · intro hup
    rw [hafter] at hup
    contradiction
  · exact fun _ => h.device.trans hfresh

theorem inv_emitNothing {arbiter : Arbiter Player Queue Targets}
    (hcurrent : arbiter.current = none)
    (hbacked : arbiter.up = true → arbiter.Backed)
    (hfresh : arbiter.up = false → arbiter.device = {}) :
    arbiter.emitNothing.Inv := by
  have hframed := framed_releaseAll arbiter
  have hafter : arbiter.releaseAll.current = none :=
    hframed.current.trans hcurrent
  constructor
  · intro source hsource
    exact nomatch hafter.symm.trans hsource
  · intro hup
    exact (releaseAll_claims (hframed.up.symm.trans hup)
      (hbacked (hframed.up.symm.trans hup))).1
  · intro hup _
    exact (releaseAll_claims (hframed.up.symm.trans hup)
      (hbacked (hframed.up.symm.trans hup))).2
  · intro _ source _ hsource
    exact nomatch hafter.symm.trans hsource
  · intro hdown
    have hbefore := hframed.up.symm.trans hdown
    exact (hframed.down hbefore).trans (hfresh hbefore)

/-- The source that comes next is mirrored if and only if the state suits it. -/
theorem Ready.mirrors_iff {arbiter : Arbiter Player Queue Targets}
    (h : arbiter.Ready) (hup : arbiter.up = true) {next : String}
    {state : SourceState Player Queue Targets}
    (hget : arbiter.sources.get? next = some state) :
    ({ arbiter with current := some next
      : Arbiter Player Queue Targets }.emitSource arbiter.current next
        state).Mirrors state ↔
    (arbiter.current ≠ some next → state.Shows arbiter.device) ∧
      (arbiter.current = none → state.Lists arbiter.device) := by
  have hsent := @sent_emitSource _ _ _ _ _
    { arbiter with current := some next } hup (h.backed hup) arbiter.current
    next state
  rw [hsent.mirrors_iff]
  cases hprev : arbiter.current with
  | none =>
      constructor
      · rintro ⟨hshows, hqueue, htargets⟩
        exact ⟨fun _ => hshows, fun _ => ⟨hqueue, htargets⟩⟩
      · rintro ⟨hshows, hlists⟩
        have hlists := hlists rfl
        exact ⟨hshows (by simp), hlists.queue, hlists.targets⟩
  | some prev =>
      by_cases hsame : prev = next
      · have hcurrent : arbiter.current = some next := by rw [hprev, hsame]
        obtain ⟨hshows, hlists⟩ := h.mirrored hup next state hcurrent hget
        rw [Option.any_some, hsame, bne_self_eq_false,
          if_neg Bool.false_ne_true, if_neg Bool.false_ne_true]
        constructor
        · exact fun _ => ⟨fun hne => absurd rfl hne, fun hnone => nomatch hnone⟩
        · exact fun _ => ⟨hshows, hlists.queue, hlists.targets⟩
      · have hdiffers : (prev != next) = true := bne_iff_ne.mpr hsame
        rw [Option.any_some, hdiffers, if_pos rfl, if_pos rfl]
        constructor
        · rintro ⟨hshows, -⟩
          exact ⟨fun _ => hshows, fun hnone => nomatch hnone⟩
        · rintro ⟨hshows, -⟩
          exact ⟨hshows fun heq => hsame (Option.some.inj heq), rfl, rfl⟩

theorem emitArbitrated_of_picks {arbiter : Arbiter Player Queue Targets}
    {prefer next : String} {state : SourceState Player Queue Targets}
    (h : arbiter.Picks prefer next state) :
    arbiter.emitArbitrated prefer =
      { arbiter with current := some next
        : Arbiter Player Queue Targets }.emitSource arbiter.current next
          state := by
  unfold emitArbitrated
  dsimp only
  rw [h.1]
  dsimp only
  rw [h.2]

theorem emitArbitrated_of_none {arbiter : Arbiter Player Queue Targets}
    {prefer : String} (h : arbiter.pickCurrent prefer = none) :
    arbiter.emitArbitrated prefer =
      { arbiter with current := none
        : Arbiter Player Queue Targets }.emitNothing := by
  unfold emitArbitrated
  dsimp only
  rw [h]

/-- An emission to which the source that comes next is suited. -/
theorem Ready.emitted {arbiter : Arbiter Player Queue Targets}
    (h : arbiter.Ready) {prefer : String} (hsuits : arbiter.Suits prefer) :
    (arbiter.emitArbitrated prefer).Inv := by
  cases hpicked : arbiter.pickCurrent prefer with
  | none =>
      rw [emitArbitrated_of_none hpicked]
      exact inv_emitNothing rfl h.backed h.fresh
  | some next =>
      obtain ⟨state, hpicks⟩ := pickCurrent_known hpicked
      rw [emitArbitrated_of_picks hpicks]
      rcases Bool.eq_false_or_eq_true arbiter.up with hup | hdown
      · have hsent := @sent_emitSource _ _ _ _ _
          { arbiter with current := some next } hup (h.backed hup)
          arbiter.current next state
        exact hsent.inv hup rfl hpicks.2
          ((h.mirrors_iff hup hpicks.2).mpr (hsuits hup next state hpicks))
      · have hstill := @still_emitSource _ _ _ _ _
          { arbiter with current := some next } hdown arbiter.current next state
        apply hstill.inv hdown
        · intro source hsource
          rw [← Option.some.inj hsource, hpicks.2]
          rfl
        · exact h.fresh hdown

section Operations

variable [HasPlayback Player]

/-- A report leaves the queue and the targets of its source. -/
theorem Inv.submitted {arbiter : Arbiter Player Queue Targets}
    (h : arbiter.Inv) (source : String) (snapshot : Player)
    (appBundle : String) (hasItem sourceOwnsVolume : Bool) :
    (arbiter.submit source snapshot appBundle hasItem
      sourceOwnsVolume).Ready := by
  refine ⟨h.backed, fun hup current state hcurrent hget => ?_, h.fresh⟩
  rcases Table.get?_put_cases hget with ⟨rfl, rfl⟩ | ⟨hne, hold⟩
  · obtain ⟨old, hold⟩ := Option.isSome_iff_exists.mp (h.known current hcurrent)
    have hlists := (h.mirrored hup current old hcurrent hold).lists
    rw [hold, Option.getD_some]
    constructor
    · intro hnone
      contradiction
    · exact ⟨hlists.queue, hlists.targets⟩
  · have hmirrors := h.mirrored hup current state hcurrent hold
    exact ⟨fun hnone => hmirrors.snapshot.trans hnone, hmirrors.lists⟩

omit [HasPlayback Player] in
/-- What is told of a source whose state changes by what is told. -/
theorem Inv.told {arbiter : Arbiter Player Queue Targets} (h : arbiter.Inv)
    {source : String} {state : SourceState Player Queue Targets}
    {sent : LinkEvent Player Queue Targets}
    (hclaims : (arbiter.device.receive sent).claims = arbiter.device.claims)
    (hmine : ∀ old, arbiter.sources.get? source = some old →
      arbiter.Mirrors old →
      { arbiter with device := arbiter.device.receive sent
        : Arbiter Player Queue Targets }.Mirrors state) :
    (if arbiter.hears source then
      { arbiter with sources := arbiter.sources.put source state
        : Arbiter Player Queue Targets }.event sent
      else
        { arbiter with sources := arbiter.sources.put source state }).Inv := by
  have hknown : ∀ current, arbiter.current = some current →
      ((arbiter.sources.put source state).get? current).isSome := by
    intro current hcurrent
    by_cases hsame : current = source
    · rw [hsame, Table.get?_put_self]
      rfl
    · rw [Table.get?_put_of_ne _ _ hsame]
      exact h.known current hcurrent
  have hkept : ∀ current other, arbiter.up = true →
      arbiter.current = some current → current ≠ source →
      (arbiter.sources.put source state).get? current = some other →
        arbiter.Mirrors other := by
    intro current other hup hcurrent hne hget
    rw [Table.get?_put_of_ne _ _ hne] at hget
    exact h.mirrored hup current other hcurrent hget
  cases hhears : arbiter.hears source with
  | false =>
      have hne : ∀ current, arbiter.current = some current →
          current ≠ source := by
        rintro current hcurrent rfl
        simp [hears, hcurrent] at hhears
      refine ⟨hknown, h.backed, h.idle, fun hup current other hcurrent hget =>
        ?_, h.fresh⟩
      have hmirrors := hkept current other hup hcurrent (hne current hcurrent)
        hget
      exact ⟨hmirrors.snapshot, hmirrors.lists, hmirrors.claims⟩
  | true =>
      rcases Bool.eq_false_or_eq_true arbiter.up with hup | hdown
      · rw [if_pos rfl, event_up (by exact hup)]
        refine ⟨hknown, fun _ scope => ?_, fun _ hnone scope => ?_,
          fun _ current other hcurrent hget => ?_, fun hdown => ?_⟩
        · exact (congrFun hclaims scope).trans (h.backed hup scope)
        · exact (congrFun hclaims scope).trans (h.idle hup hnone scope)
        · have hsame : current = source := by
            have hcurrent : arbiter.current = some current := hcurrent
            simpa [hears, hcurrent] using hhears
          subst hsame
          obtain ⟨old, hold⟩ :=
            Option.isSome_iff_exists.mp (h.known current hcurrent)
          have hnew : state = other :=
            Option.some.inj ((Table.get?_put_self _ _ _).symm.trans hget)
          rw [← hnew]
          have hmirrors := hmine old hold
            (h.mirrored hup current old hcurrent hold)
          exact ⟨hmirrors.snapshot, hmirrors.lists, hmirrors.claims⟩
        · exact nomatch hup.symm.trans hdown
      · rw [if_pos rfl, event_down (by exact hdown)]
        have hdowns : ∀ {motive : Prop}, arbiter.up = true → motive :=
          fun hup => nomatch hdown.symm.trans hup
        exact ⟨hknown, fun hup => hdowns hup, fun hup => hdowns hup,
          fun hup => hdowns hup, h.fresh⟩

theorem Inv.queue {arbiter : Arbiter Player Queue Targets} (h : arbiter.Inv)
    (source : String) (queue : Queue) (prefer : String) :
    (arbiter.handle (.queue source queue) prefer).Inv := by
  apply h.told rfl
  intro old hold hmirrors
  rw [hold, Option.getD_some]
  exact ⟨hmirrors.snapshot, ⟨rfl, hmirrors.lists.targets⟩, hmirrors.claims⟩

theorem Inv.targets {arbiter : Arbiter Player Queue Targets} (h : arbiter.Inv)
    (source : String) (targets : Targets) (prefer : String) :
    (arbiter.handle (.targets source targets) prefer).Inv := by
  apply h.told rfl
  intro old hold hmirrors
  rw [hold, Option.getD_some]
  exact ⟨hmirrors.snapshot, ⟨hmirrors.lists.queue, rfl⟩, hmirrors.claims⟩

/-- An arbiter from which the current source is withdrawn. -/
def withdrawn (arbiter : Arbiter Player Queue Targets) (source : String) :
    Arbiter Player Queue Targets :=
  { arbiter with sources := arbiter.sources.remove source, current := none }

omit [HasPlayback Player] in
theorem Inv.withdrawn {arbiter : Arbiter Player Queue Targets}
    (h : arbiter.Inv) (source : String) : (arbiter.withdrawn source).Ready where
  backed := h.backed
  mirrored _ _ _ hcurrent := nomatch hcurrent
  fresh := h.fresh

omit [HasPlayback Player] in
theorem Inv.cleared {arbiter : Arbiter Player Queue Targets} (h : arbiter.Inv)
    {source : String} (hcurrent : arbiter.current ≠ some source) :
    { arbiter with sources := arbiter.sources.remove source
      : Arbiter Player Queue Targets }.Inv := by
  have hkept : ∀ current, arbiter.current = some current →
      (arbiter.sources.remove source).get? current =
        arbiter.sources.get? current := by
    rintro current hsome
    apply Table.get?_remove_of_ne
    rintro rfl
    exact hcurrent hsome
  refine ⟨fun current hsome => ?_, h.backed, h.idle,
    fun hup current state hsome hget => ?_, h.fresh⟩
  · exact (congrArg Option.isSome (hkept current hsome)).trans
      (h.known current hsome)
  · have hmirrors := h.mirrored hup current state hsome
      ((hkept current hsome).symm.trans hget)
    exact ⟨hmirrors.snapshot, hmirrors.lists, hmirrors.claims⟩

/-- A link that is back, or a device that is to be told again. -/
def returned (arbiter : Arbiter Player Queue Targets) :
    Arbiter Player Queue Targets :=
  { arbiter with up := true, held := {} }

omit [HasPlayback Player] in
/-- A source is sent again to a device that claims no more than it warrants. -/
theorem mirrors_reemitSource {arbiter : Arbiter Player Queue Targets}
    {next : String} {state : SourceState Player Queue Targets}
    (hclaims : ∀ scope, arbiter.device.claims scope ≠ none →
      state.warrants arbiter.hostOwnsVolume scope = true) :
    ({ arbiter.returned with current := some next
      : Arbiter Player Queue Targets }.reemitSource state).Mirrors state ↔
      state.Lacks arbiter.device := by
  have hsent := @sent_reemitSource _ _ _
    { arbiter.returned with current := some next } state rfl rfl hclaims
  have horElse : ∀ {α : Type u} [Inhabited α] (own there : Option α),
      (own <|> there).getD default = own.getD default ↔
        (own = none → there.getD default = default) := by
    intro α _ own there
    cases own with
    | none => simp
    | some value => simp
  rw [hsent.mirrors_iff, horElse, horElse]
  constructor
  · rintro ⟨hshows, hqueue, htargets⟩
    exact ⟨hshows, hqueue, htargets⟩
  · intro hlacks
    exact ⟨hlacks.shows, hlacks.queue, hlacks.targets⟩

omit [HasPlayback Player] in
theorem Mirrors.lacks {arbiter : Arbiter Player Queue Targets}
    {state : SourceState Player Queue Targets} (h : arbiter.Mirrors state) :
    state.Lacks arbiter.device where
  shows hnone := h.snapshot.trans hnone
  queue hnone := by rw [h.lists.queue, hnone, Option.getD_none]
  targets hnone := by rw [h.lists.targets, hnone, Option.getD_none]

omit [HasPlayback Player] in
/-- What a device that is told again knows of claims. -/
theorem Inv.warranted {arbiter : Arbiter Player Queue Targets}
    (h : arbiter.Inv) {next : String}
    {state : SourceState Player Queue Targets}
    (hcurrent : arbiter.current = none ∨ arbiter.current = some next)
    (hget : arbiter.sources.get? next = some state)
    (scope : CompanionAuthorityScope)
    (hclaims : arbiter.device.claims scope ≠ none) :
    state.warrants arbiter.hostOwnsVolume scope = true := by
  rcases Bool.eq_false_or_eq_true arbiter.up with hup | hdown
  · rcases hcurrent with hnone | hsome
    · exact absurd (h.idle hup hnone scope) hclaims
    · by_contra hnot
      apply hclaims
      rw [(h.mirrored hup next state hsome hget).claims scope, if_neg hnot]
  · rw [h.fresh hdown] at hclaims
    exact absurd rfl hclaims

omit [Inhabited Queue] [Inhabited Targets] [HasPlayback Player] in
theorem reemitCurrent_of_some {arbiter : Arbiter Player Queue Targets}
    {prefer next : String} {state : SourceState Player Queue Targets}
    (h : (arbiter.current <|> arbiter.pickCurrent prefer) = some next)
    (hget : arbiter.sources.get? next = some state) :
    arbiter.reemitCurrent prefer =
      { arbiter with current := some next
        : Arbiter Player Queue Targets }.reemitSource state := by
  unfold reemitCurrent
  rw [h]
  dsimp only
  rw [Option.bind_some, hget]

omit [HasPlayback Player] in
/-- A source that is sent again, in place of none or of itself. -/
theorem Inv.reemitted {arbiter : Arbiter Player Queue Targets}
    (h : arbiter.Inv) {next : String}
    {state : SourceState Player Queue Targets}
    (hcurrent : arbiter.current = none ∨ arbiter.current = some next)
    (hget : arbiter.sources.get? next = some state)
    (hlacks : state.Lacks arbiter.device) :
    ({ arbiter.returned with current := some next
      : Arbiter Player Queue Targets }.reemitSource state).Inv := by
  have hclaims := h.warranted hcurrent hget
  have hsent := @sent_reemitSource _ _ _
    { arbiter.returned with current := some next } state rfl rfl hclaims
  exact hsent.inv rfl rfl hget ((mirrors_reemitSource hclaims).mpr hlacks)

omit [HasPlayback Player] in
theorem Inv.lacks_of_fresh {arbiter : Arbiter Player Queue Targets}
    (h : arbiter.Inv) (hdown : arbiter.up = false)
    (state : SourceState Player Queue Targets) :
    state.Lacks arbiter.device := by
  rw [h.fresh hdown]
  exact ⟨fun _ => rfl, fun _ => rfl, fun _ => rfl⟩

omit [HasPlayback Player] in
theorem Inv.reconnected {arbiter : Arbiter Player Queue Targets}
    (h : arbiter.Inv) {prefer : String}
    (hlacks : arbiter.current = none → ∀ next state,
      arbiter.Picks prefer next state → state.Lacks arbiter.device) :
    (arbiter.returned.reemitCurrent prefer).Inv := by
  cases hcurrent : arbiter.current with
  | some next =>
      obtain ⟨state, hget⟩ :=
        Option.isSome_iff_exists.mp (h.known next hcurrent)
      have hnext : (arbiter.returned.current <|>
          arbiter.returned.pickCurrent prefer) = some next := by
        simp [returned, hcurrent]
      rw [reemitCurrent_of_some hnext hget]
      apply h.reemitted (Or.inr hcurrent) hget
      rcases Bool.eq_false_or_eq_true arbiter.up with hup | hdown
      · exact (h.mirrored hup next state hcurrent hget).lacks
      · exact h.lacks_of_fresh hdown state
  | none =>
      have hnext : (arbiter.returned.current <|>
          arbiter.returned.pickCurrent prefer) =
            arbiter.pickCurrent prefer := by
        simp [returned, hcurrent, pickCurrent]
      cases hpicked : arbiter.pickCurrent prefer with
      | some next =>
          obtain ⟨state, hpicks⟩ := pickCurrent_known hpicked
          rw [reemitCurrent_of_some (hnext.trans hpicked) hpicks.2]
          exact h.reemitted (Or.inl hcurrent) hpicks.2
            (hlacks hcurrent next state hpicks)
      | none =>
          have hnone : ∀ scope, arbiter.device.claims scope = none := by
            intro scope
            rcases Bool.eq_false_or_eq_true arbiter.up with hup | hdown
            · exact h.idle hup hcurrent scope
            · rw [h.fresh hdown]
          have hsame : arbiter.returned.reemitCurrent prefer =
              arbiter.returned := by
            unfold reemitCurrent
            rw [hnext, hpicked]
            simp [returned, hcurrent]
          rw [hsame]
          refine ⟨fun source hsource => ?_, fun _ scope => ?_,
            fun _ _ => hnone, fun _ source _ hsource => ?_,
            fun hdown => absurd hdown.symm Bool.false_ne_true⟩
          · exact absurd (hsource.symm.trans hcurrent) (Option.some_ne_none _)
          · exact (hnone scope).trans
              (if_neg (Finset.notMem_empty scope)).symm
          · exact absurd (hsource.symm.trans hcurrent) (Option.some_ne_none _)

/-! ### Every run -/

/-- The steps that leave at the device what the next source has, or lacks: a
source that is heard where another was before may have no player only if none is
shown, and one that is heard where none was finds its queue and its targets
there, for they are not sent. -/
def Steady (arbiter : Arbiter Player Queue Targets) :
    Event Player Queue Targets → Prop
  | .op (.player source snapshot appBundle hasItem sourceOwnsVolume) prefer =>
      (arbiter.submit source snapshot appBundle hasItem
        sourceOwnsVolume).Suits prefer
  | .op (.clear source) prefer => arbiter.current = some source →
      (arbiter.withdrawn source).Suits prefer
  | .op .reconnect prefer => arbiter.current = none → ∀ next state,
      arbiter.Picks prefer next state → state.Lacks arbiter.device
  | _ => True

theorem Inv.step {arbiter : Arbiter Player Queue Targets}
    {event : Event Player Queue Targets} (h : arbiter.Inv)
    (hsteady : arbiter.Steady event) : (arbiter.step event).Inv := by
  cases event with
  | drop =>
      have hdowns : ∀ {motive : Prop}, false = true → motive :=
        fun hup => nomatch hup
      exact ⟨h.known, fun hup => hdowns hup, fun hup => hdowns hup,
        fun hup => hdowns hup, fun _ => rfl⟩
  | op op prefer =>
      cases op with
      | player source snapshot appBundle hasItem sourceOwnsVolume =>
          exact (h.submitted source snapshot appBundle hasItem
            sourceOwnsVolume).emitted hsteady
      | queue source queue => exact h.queue source queue prefer
      | targets source targets => exact h.targets source targets prefer
      | clear source =>
          show (if arbiter.current = some source then
            (arbiter.withdrawn source).emitArbitrated prefer
            else { arbiter with sources := arbiter.sources.remove source }).Inv
          by_cases hcurrent : arbiter.current = some source
          · rw [if_pos hcurrent]
            exact (h.withdrawn source).emitted (hsteady hcurrent)
          · rw [if_neg hcurrent]
            exact h.cleared hcurrent
      | reconnect => exact h.reconnected hsteady

end Operations

/-! ### A source that is withdrawn -/

/-- A player that only has a state. -/
instance : HasPlayback PlaybackState := ⟨id⟩

/-- The source that is heard then. -/
def second : SourceState PlaybackState (List String) (List String) where
  snapshot := some .paused
  appBundle := "app.second"
  hasItem := true
  seq := 2

end Arbiter

end NowPlaying

end Bridgething
