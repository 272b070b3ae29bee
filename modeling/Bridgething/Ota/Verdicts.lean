/-
An update that restarts its device succeeds on the device's own word: it has
announced the version on a link adopted after the one that the update was driven
over, in every run of the service and over every relaunch.
-/
import Bridgething.Ota.Advancing

namespace Bridgething

namespace Ota

open Service OtaService

/-- The service, with what its devices have said.  Links are numbered over all
processes: `earlier` counts those that were adopted before the last relaunch.
`driven` is the link over which the update of a run was driven last, and `heard`
holds what was announced on which link. -/
structure Hearing where
  service : OtaService
  earlier : Nat := 0
  driven : String → Nat := fun _ => 0
  heard : List (String × Nat × BridgeThingMeta) := []

namespace Hearing

/-- A drive that opens a link drives its run over it. -/
def drive (hearing : Hearing) : Action → String → Nat
  | .resume id .opened =>
      match hearing.service.callers.get? id with
      | some (.driving deviceId work _) =>
          match hearing.service.store.run deviceId (.of work.kind),
              hearing.service.links.get? deviceId with
          | some run, some link =>
              Function.update hearing.driven run.runId
                (hearing.earlier + link.generation)
          | _, _ => hearing.driven
      | _ => hearing.driven
  | _ => hearing.driven

/-- What a device says, it says on the link there is. -/
def hear (hearing : Hearing) :
    Action → List (String × Nat × BridgeThingMeta)
  | .announce deviceId announced =>
      match hearing.service.links.get? deviceId with
      | some link =>
          (deviceId, hearing.earlier + link.generation, announced) ::
            hearing.heard
      | none => hearing.heard
  | _ => hearing.heard

def step (uuid : Nat → String) (hearing : Hearing) (action : Nat × Action) :
    Hearing where
  service := hearing.service.step uuid action
  earlier :=
    match action.2 with
    | .relaunch => hearing.earlier + hearing.service.linkGenerations
    | _ => hearing.earlier
  driven := hearing.drive action.2
  heard := hearing.hear action.2

/-- Nothing persisted yet, with or without a data directory. -/
def fresh (dataDir : Bool) : Hearing where
  service := .new (if dataDir then some none else none)

/-- The device has announced the version that the run aims at, on a link after
the one that it was driven over. -/
def Confirmed (hearing : Hearing) (run : OtaRun) : Prop :=
  ∃ link announced, (run.deviceId, link, announced) ∈ hearing.heard ∧
    hearing.driven run.runId < link ∧
    run.target = some (RestartTarget.landed run.kind announced)

theorem Confirmed.follows {hearing : Hearing} {run later : OtaRun}
    (h : hearing.Confirmed run) (hfollows : Follows run later) :
    hearing.Confirmed later := by
  unfold Confirmed
  rw [hfollows.deviceId, hfollows.runId, hfollows.target, hfollows.kind]
  exact h

/-- A success that is the device's own. -/
def Vouched (hearing : Hearing) (run : OtaRun) : Prop :=
  restartsDevice run.kind = true → run.outcome = some .succeeded →
    hearing.Confirmed run

/-- An update that is driven, of a device that is marked, over the run of
`runId`. -/
structure Drives (hearing : Hearing) (deviceId : String) (work : Work)
    (runId : String) : Prop where
  marked : deviceId ∈ hearing.service.inFlight
  firm : Firm work.pieces
  held : ∃ run, hearing.service.store.run deviceId (.of work.kind) = some run ∧
    run.runId = runId ∧ work.Aims run
  driven : hearing.driven runId ≤ hearing.earlier + work.link.getD 0
  unawaited : ∀ target, hearing.service.restarts.get? deviceId = some target →
    target.runId ≠ runId
  unwon : AllRuns (fun run => run.runId = runId →
    run.outcome ≠ some .succeeded) hearing.service.store

/-- A restart that is awaited: the run it was asked for is of its kind and
version as long as it is held. -/
structure Awaits (uuid : Nat → String) (hearing : Hearing) (deviceId : String)
    (target : RestartTarget) : Prop where
  restarts : restartsDevice target.kind = true
  firm : Firm target.pieces
  told : target.pieces ≠ []
  drawn : ∃ drawn < hearing.service.minted, uuid drawn = target.runId
  run : ∀ key run, hearing.service.store.runs.get? key = some run →
    run.runId = target.runId → key = (deviceId, .of target.kind) ∧
      run.kind = target.kind ∧ run.target = some target.version
  driven : hearing.driven target.runId ≤ hearing.earlier + target.askedOn

/-- `Active` are those that drive an update. -/
structure Inv (uuid : Nat → String) (Active : Nat → String → Work → Prop)
    (hearing : Hearing) : Prop where
  storied : Storied uuid hearing.service.store hearing.service.minted
  drives : ∀ id deviceId work, Active id deviceId work →
    ∃ runId, hearing.Drives deviceId work runId
  alone : ∀ id other deviceId work rival, Active id deviceId work →
    Active other deviceId rival → id = other
  awaits : ∀ deviceId target,
    hearing.service.restarts.get? deviceId = some target →
      hearing.Awaits uuid deviceId target
  links : ∀ deviceId link, hearing.service.links.get? deviceId = some link →
    link.generation ≤ hearing.service.linkGenerations ∧
    ∀ announced, link.announced = some announced →
      (deviceId, hearing.earlier + link.generation, announced) ∈ hearing.heard
  reached : ∀ id, hearing.driven id ≤
    hearing.earlier + hearing.service.linkGenerations
  undrawn : ∀ drawn, hearing.service.minted ≤ drawn →
    hearing.driven (uuid drawn) = 0
  vouched : AllRuns hearing.Vouched hearing.service.store

/-- The callers that drive. -/
def drivers (service : OtaService) (id : Nat) (deviceId : String)
    (work : Work) : Prop :=
  ∃ after, service.callers.get? id = some (.driving deviceId work after)

section Keeping

variable {uuid : Nat → String} {Active Rest : Nat → String → Work → Prop}
  {hearing : Hearing}

theorem Inv.fewer (h : Inv uuid Active hearing)
    (hsub : ∀ id deviceId work, Rest id deviceId work →
      Active id deviceId work) : Inv uuid Rest hearing :=
  { h with
    drives := fun id deviceId work hactive =>
      h.drives id deviceId work (hsub id deviceId work hactive)
    alone := fun id other deviceId work rival hid hother =>
      h.alone id other deviceId work rival (hsub _ _ _ hid)
        (hsub _ _ _ hother) }

/-- Nothing that decides over an update is another. -/
theorem Inv.same (h : Inv uuid Active hearing) {next : OtaService}
    (hstore : next.store = hearing.service.store)
    (hinFlight : next.inFlight = hearing.service.inFlight)
    (hrestarts : next.restarts = hearing.service.restarts)
    (hlinks : next.links = hearing.service.links)
    (hgenerations : next.linkGenerations = hearing.service.linkGenerations)
    (hminted : next.minted = hearing.service.minted) :
    Inv uuid Active { hearing with service := next } where
  storied := by
    rw [hstore, hminted]
    exact h.storied
  drives id deviceId work hactive := by
    obtain ⟨runId, hdrives⟩ := h.drives id deviceId work hactive
    refine ⟨runId, hinFlight ▸ hdrives.marked, hdrives.firm,
      hstore ▸ hdrives.held, hdrives.driven, hrestarts ▸ hdrives.unawaited,
      hstore ▸ hdrives.unwon⟩
  alone := h.alone
  awaits deviceId target hget := by
    have hawaits := h.awaits deviceId target (hrestarts ▸ hget)
    exact ⟨hawaits.restarts, hawaits.firm, hawaits.told,
      hminted ▸ hawaits.drawn, hstore ▸ hawaits.run, hawaits.driven⟩
  links deviceId link hget := by
    have hlink := h.links deviceId link (hlinks ▸ hget)
    exact ⟨hgenerations ▸ hlink.1, hlink.2⟩
  reached := hgenerations ▸ h.reached
  undrawn := hminted ▸ h.undrawn
  vouched := hstore ▸ h.vouched

/-- Two that drive have two runs. -/
theorem Drives.apart (hstoried : Storied uuid hearing.service.store
      hearing.service.minted) {deviceId other : String} {work rival : Work}
    {runId otherId : String} (h : hearing.Drives deviceId work runId)
    (hother : hearing.Drives other rival otherId) (hne : deviceId ≠ other) :
    runId ≠ otherId := by
  rintro rfl
  obtain ⟨run, hget, hid, -⟩ := h.held
  obtain ⟨rivalRun, hrival, hrivalId, -⟩ := hother.held
  have hkey := hstoried.unique hget hrival (hid.trans hrivalId.symm)
  exact hne (congrArg Prod.fst hkey)

theorem Drives.unique {later : Hearing} {deviceId : String} {work : Work}
    {runId otherId : String} (h : hearing.Drives deviceId work runId)
    (hother : later.Drives deviceId work otherId)
    (hstore : later.service.store = hearing.service.store) :
    runId = otherId := by
  obtain ⟨run, hget, hid, -⟩ := h.held
  obtain ⟨rival, hrival, hrivalId, -⟩ := hother.held
  rw [hstore, hget, Option.some.injEq] at hrival
  rw [← hid, ← hrivalId, hrival]

/-- The run of a restart that is awaited is not one that is driven. -/
theorem Awaits.apart {deviceId device : String} {target : RestartTarget}
    {work : Work} {runId : String} (h : hearing.Awaits uuid deviceId target)
    (hget : hearing.service.restarts.get? deviceId = some target)
    (hdrives : hearing.Drives device work runId) : target.runId ≠ runId := by
  rintro rfl
  obtain ⟨run, hrun, hid, -⟩ := hdrives.held
  have hdevice : device = deviceId :=
    congrArg Prod.fst (h.run _ run hrun hid).1
  exact hdrives.unawaited target (hdevice ▸ hget) rfl

theorem driving_of_notify {caller : Option Caller} {deviceId : String}
    {work : Work} {after : After}
    (h : caller.map Caller.notify = some (.driving deviceId work after)) :
    caller = some (.driving deviceId work after) := by
  obtain ⟨caller, rfl, hnotified⟩ := Option.map_eq_some_iff.mp h
  cases caller with
  | claiming _ _ _ _ => cases hnotified
  | _ => exact congrArg some hnotified

/-- The service goes on to where no update is told of but those that the device
has confirmed, and none of those that are driven. -/
theorem Inv.leads (h : Inv uuid Active hearing)
    (huuid : Function.Injective uuid) {next : OtaService}
    {Wins : RunKey → Prop} (hleads : hearing.service.Leads uuid Wins next)
    (hwins : ∀ key, Wins key → ∃ run,
      hearing.service.store.runs.get? key = some run ∧
      (restartsDevice run.kind = true → hearing.Confirmed run) ∧
      ∀ id deviceId work runId, Active id deviceId work →
        hearing.Drives deviceId work runId → run.runId ≠ runId) :
    Inv uuid Active { hearing with service := next } where
  storied := hleads.storied
  drives id deviceId work hactive := by
    obtain ⟨runId, hdrives⟩ := h.drives id deviceId work hactive
    refine ⟨runId, hleads.quiet.inFlight ▸ hdrives.marked, hdrives.firm, ?_,
      hdrives.driven, hleads.quiet.restarts ▸ hdrives.unawaited, ?_⟩
    · obtain ⟨run, hget, hid, haims⟩ := hdrives.held
      obtain ⟨later, hlater, hfollows⟩ := hleads.follow.holds hget
      exact ⟨later, hlater, hfollows.runId.trans hid, haims.follows hfollows⟩
    · apply AllRuns.leads hdrives.unwon hleads
      · exact fun run later hfollows hwon hrun hid hsome =>
          hrun (hfollows.runId.symm.trans hid) (hwon hsome)
      · exact fun run hlost _ => hlost
      · intro key hkey
        obtain ⟨run, hget, -, hothers⟩ := hwins key hkey
        refine ⟨run, hget, fun later hfollows hid => ?_⟩
        exact absurd (hfollows.runId.symm.trans hid)
          (hothers id deviceId work runId hactive hdrives)
  alone := h.alone
  awaits deviceId target hget := by
    rw [hleads.quiet.restarts] at hget
    have hawaits := h.awaits deviceId target hget
    obtain ⟨drawn, hlt, hid⟩ := hawaits.drawn
    refine ⟨hawaits.restarts, hawaits.firm, hawaits.told,
      ⟨drawn, Nat.lt_of_lt_of_le hlt hleads.minted, hid⟩,
      fun key run hrun hsame => ?_, hawaits.driven⟩
    cases hleads.follow.runs key run hrun with
    | follows old hold hfollows _ =>
        obtain ⟨hkey, hkind, htarget⟩ :=
          hawaits.run key old hold (hfollows.runId.symm.trans hsame)
        exact ⟨hkey, hfollows.kind.trans hkind, hfollows.target.trans htarget⟩
    | failed _ hfresh =>
        obtain ⟨later, hle, hlater⟩ := hfresh
        have heq := huuid (hlater.trans (hsame.trans hid.symm))
        omega
  links := hleads.links ▸ hleads.linkGenerations ▸ h.links
  reached := hleads.linkGenerations ▸ h.reached
  undrawn drawn hle := h.undrawn drawn (hleads.minted.trans hle)
  vouched := by
    apply AllRuns.leads h.vouched hleads
    · intro run later hfollows hwon hrun hrestarts hsome
      exact (hrun (hfollows.kind ▸ hrestarts) (hwon hsome)).follows hfollows
    · exact fun run hlost _ hsome => absurd hsome hlost
    · intro key hkey
      obtain ⟨run, hget, hconfirmed, -⟩ := hwins key hkey
      refine ⟨run, hget, fun later hfollows hrestarts _ => ?_⟩
      exact (hconfirmed (hfollows.kind ▸ hrestarts)).follows hfollows

/-- The service goes on, and tells of no update. -/
theorem Inv.calm (h : Inv uuid Active hearing)
    (huuid : Function.Injective uuid) {next : OtaService}
    (hleads : hearing.service.Leads uuid (fun _ => False) next) :
    Inv uuid Active { hearing with service := next } :=
  h.leads huuid hleads fun _ hwins => hwins.elim

/-- An update begins to be driven. -/
theorem Inv.begins (h : Inv uuid Active hearing)
    (huuid : Function.Injective uuid) {now id : Nat} {deviceId : String}
    {planned : OtaPollEvent} {work : Work} (after : After)
    (hbegins : work.Begins deviceId planned)
    (hfree : deviceId ∉ hearing.service.inFlight)
    (hrest : ∀ other device rival, Rest other device rival →
      Active other device rival ∨
        (other = id ∧ device = deviceId ∧ rival = work)) :
    Inv uuid Rest { hearing with
      service := hearing.service.beginRun uuid now id deviceId planned work
        after } := by
  obtain ⟨opened, hopened, hkey, haims, hopen, hstoried, hfollow⟩ :=
    begun huuid h.storied hbegins after
  have hfresh : ∀ drawn < hearing.service.minted,
      uuid drawn ≠ opened.runId := by
    intro drawn hlt hsame
    exact Nat.ne_of_lt hlt (huuid (hsame.trans hopened))
  -- what holds of the opened run and of those before it, holds after
  have hall : ∀ P : OtaRun → Prop, AllRuns P hearing.service.store → P opened →
      (∀ run later, Follows run later →
        (later.outcome = some .succeeded → run.outcome = some .succeeded) →
          P run → P later) →
      (∀ run, run.outcome ≠ some .succeeded → P run) →
      AllRuns P (hearing.service.beginRun uuid now id deviceId planned work
        after).store := by
    intro P hruns hrun hfollows hfailed
    have hput : AllRuns P { hearing.service.store with
        runs := hearing.service.store.runs.put (deviceId, .of work.kind)
          opened } := hruns.put hrun
    refine hput.follow hfollow fun key run hcomes => ?_
    cases hcomes with
    | follows old hget hfollow hwon =>
        exact hfollows old run hfollow
          (fun hsome => (hwon hsome).resolve_right not_false)
          (hput.held key old hget)
    | failed _ _ _ hlost => exact hfailed run hlost
  refine ⟨hstoried, fun other device rival hactive => ?_, ?_, ?_, h.links,
    h.reached, fun drawn hle => h.undrawn drawn (Nat.le_of_succ_le hle), ?_⟩
  · rcases hrest other device rival hactive with hold | ⟨rfl, rfl, rfl⟩
    · obtain ⟨runId, hdrives⟩ := h.drives other device rival hold
      have hne : device ≠ deviceId := by
        rintro rfl
        exact hfree hdrives.marked
      obtain ⟨run, hget, hid, hrunAims⟩ := hdrives.held
      have hput : ((hearing.service.store.runs.put (deviceId, .of work.kind)
          opened).get? (device, .of rival.kind)) = some run := by
        rw [Table.get?_put_of_ne _ _ fun hsame => hne (congrArg Prod.fst hsame)]
        exact hget
      obtain ⟨drawn, hlt, hdrawn⟩ := h.storied.drawn hget
      refine ⟨runId, Finset.mem_insert_of_mem hdrives.marked, hdrives.firm, ?_,
        hdrives.driven, hdrives.unawaited, ?_⟩
      · obtain ⟨later, hlater, hfollows⟩ := hfollow.holds hput
        exact ⟨later, hlater, hfollows.runId.trans hid,
          hrunAims.follows hfollows⟩
      · apply hall _ hdrives.unwon
        · intro hsame
          exact absurd (hdrawn.trans (hid.trans hsame.symm)) (hfresh drawn hlt)
        · exact fun run later hfollows hwon hrun hid hsome =>
            hrun (hfollows.runId.symm.trans hid) (hwon hsome)
        · exact fun run hlost _ => hlost
    · obtain ⟨later, hlater, hfollows⟩ := hfollow.holds
        (Table.get?_put_self hearing.service.store.runs _ opened)
      refine ⟨opened.runId, Finset.mem_insert_self _ _, hbegins.firm,
        ⟨later, hlater, hfollows.runId, haims.follows hfollows⟩, ?_,
        fun target hget hsame => ?_, ?_⟩
      · rw [hopened, show hearing.driven (uuid hearing.service.minted) = 0 from
          h.undrawn _ (Nat.le_refl _)]
        exact Nat.zero_le _
      · obtain ⟨drawn, hlt, hdrawn⟩ := (h.awaits _ target hget).drawn
        exact hfresh drawn hlt (hdrawn.trans hsame)
      · apply hall
        · constructor
          · intro key run hget hid
            obtain ⟨drawn, hlt, hdrawn⟩ := h.storied.drawn hget
            exact absurd (hdrawn.trans hid) (hfresh drawn hlt)
          · intro content hfile run hmem hid
            obtain ⟨drawn, hlt, hdrawn⟩ := h.storied.written_drawn hfile hmem
            exact absurd (hdrawn.trans hid) (hfresh drawn hlt)
        · intro _ hsome
          rw [hopen] at hsome
          contradiction
        · exact fun run later hfollows hwon hrun hid hsome =>
            hrun (hfollows.runId.symm.trans hid) (hwon hsome)
        · exact fun run hlost _ => hlost
  · intro left right device work rival hleft hright
    have hmarked : ∀ {id work}, Active id device work → device ≠ deviceId := by
      rintro id work hactive rfl
      obtain ⟨runId, hdrives⟩ := h.drives id _ work hactive
      exact hfree hdrives.marked
    rcases hrest left device work hleft with hl | ⟨hl, hdevice, -⟩
    · rcases hrest right device rival hright with hr | ⟨-, hdevice, -⟩
      · exact h.alone left right device work rival hl hr
      · exact absurd hdevice (hmarked hl)
    · rcases hrest right device rival hright with hr | ⟨hr, -, -⟩
      · exact absurd hdevice (hmarked hr)
      · rw [hl, hr]
  · intro device target hget
    have hawaits := h.awaits device target hget
    obtain ⟨drawn, hlt, hdrawn⟩ := hawaits.drawn
    refine ⟨hawaits.restarts, hawaits.firm, hawaits.told,
      ⟨drawn, Nat.lt_succ_of_lt hlt, hdrawn⟩, fun key run hrun hid => ?_,
      hawaits.driven⟩
    cases hfollow.runs key run hrun with
    | follows old hold hfollows _ =>
        rcases Table.get?_put_cases hold with ⟨-, hsame⟩ | ⟨-, hbefore⟩
        · have hstale := hfollows.runId.symm.trans hid
          rw [hsame] at hstale
          exact absurd (hdrawn.trans hstale.symm) (hfresh drawn hlt)
        · obtain ⟨hkey, hkind, htarget⟩ :=
            hawaits.run key old hbefore (hfollows.runId.symm.trans hid)
          exact ⟨hkey, hfollows.kind.trans hkind,
            hfollows.target.trans htarget⟩
    | failed _ hlate =>
        obtain ⟨later, hle, hlater⟩ := hlate
        have heq := huuid (hlater.trans (hid.trans hdrawn.symm))
        omega
  · apply hall _ h.vouched
    · intro _ hsome
      rw [hopen] at hsome
      contradiction
    · intro run later hfollows hwon hrun hrestarts hsome
      exact (hrun (hfollows.kind ▸ hrestarts) (hwon hsome)).follows hfollows
    · exact fun run hlost _ hsome => absurd hsome hlost

/-- A caller that drives nothing goes on. -/
theorem Inv.advance (h : Inv uuid (drivers hearing.service) hearing)
    (huuid : Function.Injective uuid) {id : Nat} {next : OtaService}
    (hadvance : Advance uuid hearing.service id next) :
    Inv uuid (drivers next) { hearing with service := next } := by
  cases hadvance with
  | rests hleads =>
      refine (h.calm huuid hleads).fewer ?_
      rintro other device work ⟨after, hget⟩
      exact ⟨after, hleads.quiet.callers ▸ hget⟩
  | waits mid caller hleads hdrives hnext =>
      subst hnext
      have hmid : Inv uuid (drivers hearing.service)
          { hearing with service := mid.wait id caller } :=
        (h.calm huuid hleads).same rfl rfl rfl rfl rfl rfl
      refine hmid.fewer ?_
      rintro other device work ⟨after, hget⟩
      rcases Table.get?_put_cases hget with ⟨-, hsame⟩ | ⟨-, hold⟩
      · rw [← hsame] at hdrives
        contradiction
      · exact ⟨after, hleads.quiet.callers ▸ hold⟩
  | leaves mid hleads hnext =>
      subst hnext
      have hmid : Inv uuid (drivers hearing.service)
          { hearing with service := mid.leave id } :=
        (h.calm huuid hleads).same rfl rfl rfl rfl rfl rfl
      refine hmid.fewer ?_
      rintro other device work ⟨after, hget⟩
      exact ⟨after, hleads.quiet.callers ▸ (Table.get?_of_remove hget).2⟩
  | begins mid now deviceId planned work after hleads hfree hcalm hbegins
      hnext =>
      subst hnext
      refine (h.calm huuid hleads).begins huuid after hbegins
        (by rwa [hleads.quiet.inFlight]) ?_
      rintro other device rival ⟨later, hget⟩
      rcases Table.get?_put_cases hget with ⟨hid, hsame⟩ | ⟨-, hold⟩
      · injection hsame with hdevice hwork
        exact Or.inr ⟨hid, hdevice, hwork⟩
      · exact Or.inl ⟨later, hleads.quiet.callers ▸ hold⟩

/-- A driver goes on with another work. -/
def redriven (Active : Nat → String → Work → Prop) (id : Nat)
    (deviceId : String) (later : Work) (other : Nat) (device : String)
    (rival : Work) : Prop :=
  (other = id ∧ device = deviceId ∧ rival = later) ∨
    (other ≠ id ∧ Active other device rival)

theorem redriven_alone {id : Nat} {deviceId : String} {work later : Work}
    (halone : ∀ id other deviceId work rival, Active id deviceId work →
      Active other deviceId rival → id = other)
    (hactive : Active id deviceId work) (left right : Nat) (device : String)
    (first second : Work)
    (hleft : redriven Active id deviceId later left device first)
    (hright : redriven Active id deviceId later right device second) :
    left = right := by
  rcases hleft with ⟨rfl, rfl, -⟩ | ⟨hl, hleft⟩
  · rcases hright with ⟨hsame, -, -⟩ | ⟨hr, hright⟩
    · exact hsame.symm
    · exact halone _ _ _ _ _ hactive hright
  · rcases hright with ⟨rfl, rfl, -⟩ | ⟨hr, hright⟩
    · exact halone _ _ _ _ _ hleft hactive
    · exact halone _ _ _ _ _ hleft hright

theorem drivers_wait {service : OtaService} {id : Nat} {deviceId : String}
    {later : Work} {after : After} (other : Nat) (device : String)
    (rival : Work)
    (h : drivers (service.wait id (.driving deviceId later after)) other device
      rival) : redriven (drivers service) id deviceId later other device
        rival := by
  obtain ⟨next, hget⟩ := h
  rcases Table.get?_put_cases hget with ⟨hid, hsame⟩ | ⟨hne, hold⟩
  · injection hsame with hdevice hwork
    exact Or.inl ⟨hid, hdevice, hwork⟩
  · exact Or.inr ⟨hne, next, hold⟩

/-- A drive moves on over the link that it has. -/
theorem Inv.redrives (h : Inv uuid Active hearing) {id : Nat}
    {deviceId : String} {work later : Work}
    (hactive : Active id deviceId work) (hkind : later.kind = work.kind)
    (hpieces : later.pieces = work.pieces) (hlink : later.link = work.link) :
    Inv uuid (redriven Active id deviceId later) hearing :=
  { h with
    drives := fun other device rival hredriven => by
      rcases hredriven with ⟨-, rfl, rfl⟩ | ⟨-, hother⟩
      · obtain ⟨runId, hdrives⟩ := h.drives id _ work hactive
        obtain ⟨run, hget, hid, haims⟩ := hdrives.held
        have hversion : rival.version = work.version := by
          rw [Work.version, hkind, hpieces]
          rfl
        exact ⟨runId, {
          marked := hdrives.marked
          firm := hpieces ▸ hdrives.firm
          held := ⟨run, hkind ▸ hget, hid, haims.kind.trans hkind.symm,
            hversion ▸ hkind ▸ haims.target⟩
          driven := hlink ▸ hdrives.driven
          unawaited := hdrives.unawaited
          unwon := hdrives.unwon }⟩
      · exact h.drives other device rival hother
    alone := redriven_alone h.alone hactive }

/-- A drive opens the link there is. -/
theorem Inv.opens (h : Inv uuid Active hearing)
    (huuid : Function.Injective uuid) {id : Nat} {deviceId : String}
    {work : Work} (hactive : Active id deviceId work) {link : Link}
    (hlink : hearing.service.links.get? deviceId = some link) {run : OtaRun}
    (hrun : hearing.service.store.run deviceId (.of work.kind) = some run) :
    Inv uuid (redriven Active id deviceId
        { work with link := some link.generation })
      { hearing with
        driven := Function.update hearing.driven run.runId
          (hearing.earlier + link.generation) } := by
  obtain ⟨runId, hdrives⟩ := h.drives id deviceId work hactive
  obtain ⟨held, hheld, hid, haims⟩ := hdrives.held
  rw [hrun, Option.some.injEq] at hheld
  subst hheld hid
  obtain ⟨drawn, hlt, hdrawn⟩ := h.storied.drawn hrun
  have hother : ∀ {id}, id ≠ run.runId → Function.update hearing.driven
      run.runId (hearing.earlier + link.generation) id = hearing.driven id :=
    fun hne => Function.update_of_ne hne _ _
  have hself : Function.update hearing.driven run.runId
      (hearing.earlier + link.generation) run.runId =
        hearing.earlier + link.generation := Function.update_self _ _ _
  refine ⟨h.storied, fun other device rival hredriven => ?_,
    redriven_alone h.alone hactive, fun device target hget => ?_, h.links,
    fun id => ?_, fun later hle => ?_, ?_⟩
  · rcases hredriven with ⟨-, rfl, rfl⟩ | ⟨hne, hrival⟩
    · exact ⟨run.runId, hdrives.marked, hdrives.firm,
        ⟨run, hrun, rfl, haims.kind, haims.target⟩, hself.le,
        hdrives.unawaited, hdrives.unwon⟩
    · obtain ⟨rivalId, hrivals⟩ := h.drives other device rival hrival
      have hdevice : device ≠ deviceId := by
        rintro rfl
        exact hne (h.alone other id device rival work hrival hactive)
      have hapart := hrivals.apart h.storied hdrives hdevice
      exact ⟨rivalId, hrivals.marked, hrivals.firm, hrivals.held,
        (hother hapart).trans_le hrivals.driven, hrivals.unawaited,
        hrivals.unwon⟩
  · have hawaits := h.awaits device target hget
    have hne := hawaits.apart hget hdrives
    exact { hawaits with driven := (hother hne).trans_le hawaits.driven }
  · by_cases hsame : id = run.runId
    · rw [hsame]
      exact hself.trans_le
        (Nat.add_le_add_left (h.links deviceId link hlink).1 _)
    · exact (hother hsame).trans_le (h.reached id)
  · refine (hother fun hsame => ?_).trans (h.undrawn later hle)
    have hle : hearing.service.minted ≤ later := hle
    have heq := huuid (hdrawn.trans hsame.symm)
    omega
  · have hboth : AllRuns (fun other => hearing.Vouched other ∧
        (other.runId = run.runId → other.outcome ≠ some .succeeded))
        hearing.service.store :=
      ⟨fun key other hget => ⟨h.vouched.held key other hget,
          hdrives.unwon.held key other hget⟩,
        fun content hfile other hmem =>
          ⟨h.vouched.written content hfile other hmem,
            hdrives.unwon.written content hfile other hmem⟩⟩
    refine hboth.imp fun other ⟨hvouched, hunwon⟩ hrestarts hsome => ?_
    obtain ⟨number, announced, hmem, hlater, htarget⟩ :=
      hvouched hrestarts hsome
    refine ⟨number, announced, hmem, ?_, htarget⟩
    exact (hother fun hsame => hunwon hsame hsome).trans_lt hlater

/-- What the update of a driver tells of. -/
theorem Drives.wins (hstoried : Storied uuid hearing.service.store
      hearing.service.minted)
    {deviceId : String} {work : Work} {runId : String}
    (h : hearing.Drives deviceId work runId)
    (halone : ∀ other device rival, Active other device rival →
      device ≠ deviceId)
    (hconfirmed : ∀ run, hearing.service.store.run deviceId (.of work.kind) =
      some run → work.Aims run → restartsDevice run.kind = true →
        hearing.Confirmed run) :
    ∃ run, hearing.service.store.runs.get? (deviceId, .of work.kind) =
        some run ∧
      (restartsDevice run.kind = true → hearing.Confirmed run) ∧
      ∀ id device rival rivalId, Active id device rival →
        hearing.Drives device rival rivalId → run.runId ≠ rivalId := by
  obtain ⟨run, hget, hid, haims⟩ := h.held
  refine ⟨run, hget, hconfirmed run hget haims,
    fun id device rival rivalId hactive hrival => ?_⟩
  rw [hid]
  exact h.apart hstoried hrival (halone id device rival hactive).symm

/-- The keys that an update of the firmware tells of. -/
theorem pieces_firm {deviceId : String} {pieces : List (OtaKind × String)}
    (hfirm : Firm pieces) {key : RunKey} (h : Pieces deviceId pieces key) :
    key = (deviceId, .firmware) := by
  obtain ⟨piece, hmem, rfl⟩ := h
  rw [hfirm piece hmem]

theorem lane_of_restarts {kind : OtaKind} (h : restartsDevice kind = true) :
    OtaLane.of kind = .firmware := by
  cases kind with
  | installedWebapp => contradiction
  | _ => rfl

theorem landed_of_verdict {target : RestartTarget}
    {announced : BridgeThingMeta} (h : target.verdict announced = none) :
    RestartTarget.landed target.kind announced = target.version := by
  unfold RestartTarget.verdict at h
  by_contra hne
  rw [if_neg hne] at h
  contradiction

/-- A restart has its verdict. -/
theorem Inv.settles (h : Inv uuid Active hearing)
    (huuid : Function.Injective uuid) (now : Nat) {deviceId : String}
    {target : RestartTarget} {announced : BridgeThingMeta}
    (hrestarts : restartsDevice target.kind = true)
    (hfirm : Firm target.pieces)
    (hconfirmed : ∀ run, hearing.service.store.run deviceId
      (.of target.kind) = some run → run.runId = target.runId →
        target.verdict announced = none → hearing.Confirmed run)
    (hothers : ∀ id device rival rivalId, Active id device rival →
      hearing.Drives device rival rivalId → target.runId ≠ rivalId) :
    Inv uuid Active { hearing with
      service := hearing.service.settleRestart uuid now deviceId target
        announced } := by
  refine h.leads huuid (leads_settleRestart huuid now h.storied deviceId target
    announced) ?_
  rintro key ⟨hpieces, ⟨run, hget, hid⟩, hverdict⟩
  refine ⟨run, ?_, fun _ => hconfirmed run hget hid hverdict, ?_⟩
  · rw [pieces_firm hfirm hpieces, ← lane_of_restarts hrestarts]
    exact hget
  · rw [hid]
    exact hothers

/-- The restart of a run is awaited from now on, if the device has not come back
already. -/
theorem Inv.awaiting (h : Inv uuid Active hearing)
    (huuid : Function.Injective uuid) (now : Nat) {deviceId : String}
    {target : RestartTarget} {run : OtaRun}
    (hrestarts : restartsDevice target.kind = true)
    (hfirm : Firm target.pieces) (htold : target.pieces ≠ [])
    (hrun : hearing.service.store.run deviceId (.of target.kind) = some run)
    (hid : target.runId = run.runId) (hkind : run.kind = target.kind)
    (htarget : run.target = some target.version)
    (hdriven : hearing.driven run.runId ≤ hearing.earlier + target.askedOn)
    (halone : ∀ other device rival, Active other device rival →
      device ≠ deviceId)
    (hothers : ∀ id device rival rivalId, Active id device rival →
      hearing.Drives device rival rivalId → run.runId ≠ rivalId) :
    Inv uuid Active { hearing with
      service := hearing.service.awaitRestart uuid now deviceId target } := by
  unfold awaitRestart
  dsimp only
  cases hfresh : (hearing.service.links.get? deviceId).bind fun link =>
      if target.askedOn < link.generation then link.announced else none with
  | some announced =>
      obtain ⟨link, hlink, hannounced⟩ := Option.bind_eq_some_iff.mp hfresh
      obtain ⟨hlater, hsaid⟩ := Option.ite_none_right_eq_some.mp hannounced
      apply h.settles huuid now hrestarts hfirm
      · intro held hheld _ hverdict
        rw [hrun, Option.some.injEq] at hheld
        rw [← hheld]
        refine ⟨hearing.earlier + link.generation, announced, ?_, ?_, ?_⟩
        · have hmem := (h.links deviceId link hlink).2 announced hsaid
          rwa [show run.deviceId = deviceId from
            congrArg Prod.fst (h.storied.key hrun)]
        · omega
        · rw [htarget, hkind, landed_of_verdict hverdict]
      · rw [hid]
        exact hothers
  | none =>
      refine ⟨h.storied, fun id device work hactive => ?_, h.alone,
        fun device asked hget => ?_, h.links, h.reached, h.undrawn, h.vouched⟩
      · obtain ⟨runId, hdrives⟩ := h.drives id device work hactive
        refine ⟨runId, { hdrives with unawaited := fun asked hget => ?_ }⟩
        rw [show OtaService.restarts _ = hearing.service.restarts.put deviceId
          target from rfl, Table.get?_put_of_ne _ _
            (halone id device work hactive)] at hget
        exact hdrives.unawaited asked hget
      · rcases Table.get?_put_cases hget with ⟨rfl, rfl⟩ | ⟨-, hold⟩
        · obtain ⟨drawn, hlt, hdrawn⟩ := h.storied.drawn hrun
          refine ⟨hrestarts, hfirm, htold,
            ⟨drawn, hlt, hdrawn.trans hid.symm⟩,
            fun key held hheld hsame => ?_, hid ▸ hdriven⟩
          have hkey := h.storied.unique hheld hrun (hsame.trans hid)
          subst hkey
          rw [OtaRunStore.run] at hrun
          rw [show OtaService.store _ = hearing.service.store from rfl, hrun,
            Option.some.injEq] at hheld
          exact ⟨rfl, hheld ▸ hkind, hheld ▸ htarget⟩
        · exact { h.awaits device asked hold with }

/-- The pieces that a drive is told of when it ends. -/
structure Told (work : Work) (pieces : List (OtaKind × String)) : Prop where
  firmware : work.kind ≠ .installedWebapp → pieces = work.pieces
  webapp : work.kind = .installedWebapp →
    ∃ version, pieces = [(.installedWebapp, version)]

/-- They are told of under the key of the run. -/
theorem Told.key {work : Work} {pieces : List (OtaKind × String)}
    (h : Told work pieces) (hfirm : Firm work.pieces) {deviceId : String}
    {key : RunKey} (hkey : Pieces deviceId pieces key) :
    key = (deviceId, .of work.kind) := by
  by_cases hinstalled : work.kind = .installedWebapp
  · obtain ⟨version, rfl⟩ := h.webapp hinstalled
    obtain ⟨piece, hmem, rfl⟩ := hkey
    rw [List.mem_singleton.mp hmem, hinstalled]
  · rw [pieces_firm (h.firmware hinstalled ▸ hfirm) hkey]
    cases hkind : work.kind with
    | installedWebapp => exact absurd hkind hinstalled
    | _ => rfl

section Ending

variable (huuid : Function.Injective uuid) (now : Nat) {deviceId : String}
  {work : Work} {runId : String} {pieces : List (OtaKind × String)}

include huuid

/-- An update that restarts nothing is told of at once. -/
theorem Inv.succeeds (h : Inv uuid Active hearing)
    (hdrives : hearing.Drives deviceId work runId)
    (halone : ∀ other device rival, Active other device rival →
      device ≠ deviceId) (htold : Told work pieces)
    (hnever : restartsDevice work.kind = false) :
    Inv uuid Active { hearing with
      service := hearing.service.succeed uuid now deviceId pieces } := by
  refine h.leads huuid (leads_succeed huuid now h.storied deviceId pieces)
    fun key hkey => ?_
  rw [htold.key hdrives.firm hkey]
  apply hdrives.wins h.storied halone
  intro run _ haims hrestarts
  rw [haims.kind, hnever] at hrestarts
  contradiction

/-- One that restarts the device waits for it to come back. -/
theorem Inv.restarts (h : Inv uuid Active hearing)
    (hdrives : hearing.Drives deviceId work runId)
    (halone : ∀ other device rival, Active other device rival →
      device ≠ deviceId) (hrestarts : restartsDevice work.kind = true) :
    Inv uuid Active { hearing with
      service := hearing.service.awaitRestart uuid now deviceId {
        runId := ((hearing.service.store.run deviceId
          (.of work.kind)).map OtaRun.runId).getD ""
        kind := work.kind
        version := work.version.getD ""
        pieces := work.pieces
        askedOn := work.link.getD 0 } } := by
  obtain ⟨run, hrun, hid, haims⟩ := hdrives.held
  obtain ⟨htarget, hversion⟩ := haims.target hrestarts
  obtain ⟨version, hsome⟩ := Option.isSome_iff_exists.mp hversion
  have hpieces : work.pieces ≠ [] := by
    intro hnone
    rw [Work.version, hnone] at hsome
    contradiction
  rw [hrun]
  refine h.awaiting huuid now hrestarts hdrives.firm hpieces hrun rfl
    haims.kind ?_ (hid ▸ hdrives.driven) halone ?_
  · rw [htarget, hsome]
    rfl
  · intro id device rival rivalId hactive hrival
    rw [hid]
    exact hdrives.apart h.storied hrival (halone id device rival hactive).symm

theorem Inv.concludes (h : Inv uuid Active hearing)
    (hdrives : hearing.Drives deviceId work runId)
    (halone : ∀ other device rival, Active other device rival →
      device ≠ deviceId) (htold : Told work pieces) (terminal : Terminal) :
    Inv uuid Active { hearing with
      service := (hearing.service.conclude uuid now deviceId work.kind pieces
        ⟨terminal, work.link.getD 0⟩).2 } := by
  unfold conclude
  dsimp only
  split
  · exact h.calm huuid (leads_fail huuid now h.storied _ _ _)
  · split
    · rename_i hrestarts
      have hinstalled : work.kind ≠ .installedWebapp := by
        intro hkind
        rw [hkind] at hrestarts
        contradiction
      rw [htold.firmware hinstalled]
      exact h.restarts huuid now hdrives halone hrestarts
    · rename_i hnever
      exact h.succeeds huuid now hdrives halone htold
        (Bool.not_eq_true _ ▸ hnever)

/-- A drive ends, in the run and in the schedule. -/
theorem Inv.reports (h : Inv uuid Active hearing)
    (hdrives : hearing.Drives deviceId work runId)
    (halone : ∀ other device rival, Active other device rival →
      device ≠ deviceId) (terminal : Terminal) (installed : Option String) :
    Inv uuid Active { hearing with
      service := hearing.service.report uuid now deviceId work terminal
        installed } := by
  have htold : Told work (if work.kind = .installedWebapp then
      [(OtaKind.installedWebapp, installed.getD "")] else work.pieces) :=
    ⟨fun hkind => if_neg hkind, fun hkind => ⟨_, if_pos hkind⟩⟩
  have hinv := h.concludes huuid now hdrives halone htold terminal
  unfold report
  dsimp only
  generalize hearing.service.conclude uuid now deviceId work.kind _ _ =
    concluded at hinv ⊢
  split
  · exact hinv
  · split
    · exact hinv
    · exact hinv.calm huuid
        (leads_noteAutoPushResult now hinv.storied deviceId _)

/-- The mark of a device that nobody drives any more is taken away, and those
runs of it that were told of nothing fail. -/
theorem Inv.ends (h : Inv uuid Active hearing)
    (halone : ∀ other device rival, Active other device rival →
      device ≠ deviceId) :
    Inv uuid Active { hearing with
      service := hearing.service.endInFlight uuid now deviceId } := by
  have hunmarked : Inv uuid Active { hearing with
      service := { hearing.service with
        inFlight := hearing.service.inFlight.erase deviceId
        : OtaService }.notifyWaiters } :=
    { h with
      drives := fun id device rival hactive => by
        obtain ⟨runId, hdrives⟩ := h.drives id device rival hactive
        exact ⟨runId, { hdrives with
          marked := Finset.mem_erase.mpr
            ⟨halone id device rival hactive, hdrives.marked⟩ }⟩
      awaits := fun device target hget =>
        { h.awaits device target hget with } }
  exact hunmarked.calm huuid (leads_fails huuid now hunmarked.storied deviceId
    ABANDONED_REASON _)

theorem Inv.finishes (h : Inv uuid (drivers hearing.service) hearing) {id : Nat}
    {after : After} (hget : hearing.service.callers.get? id =
      some (.driving deviceId work after)) (terminal : Terminal)
    (installed : Option String) :
    Inv uuid (drivers (hearing.service.finish uuid now id deviceId work after
        terminal installed))
      { hearing with
        service := hearing.service.finish uuid now id deviceId work after
          terminal installed } := by
  have hactive : drivers hearing.service id deviceId work := ⟨after, hget⟩
  obtain ⟨runId, hdrives⟩ := h.drives id deviceId work hactive
  have hothers : Inv uuid (fun other device rival => other ≠ id ∧
      drivers hearing.service other device rival) hearing :=
    h.fewer fun _ _ _ hother => hother.2
  have halone : ∀ other device rival, (other ≠ id ∧
      drivers hearing.service other device rival) → device ≠ deviceId := by
    rintro other device rival ⟨hne, hrival⟩ rfl
    exact hne (h.alone other id _ rival work hrival hactive)
  have hended := (hothers.reports huuid now hdrives halone terminal
    installed).ends huuid now halone
  have hunlabelled : Inv uuid (fun other device rival => other ≠ id ∧
      drivers hearing.service other device rival) { hearing with
        service := hearing.service.finish uuid now id deviceId work after
          terminal installed } := by
    have hgone : ∀ {service : OtaService},
        Inv uuid (fun other device rival => other ≠ id ∧
          drivers hearing.service other device rival)
          { hearing with service := service } →
        Inv uuid (fun other device rival => other ≠ id ∧
          drivers hearing.service other device rival)
          { hearing with
            service :=
              (service.unlabel deviceId work.kind).goOn id after } := by
      intro service hinv
      apply hinv.same
      all_goals
        unfold unlabel
        cases after with
        | ends => split <;> rfl
        | polls poll => split <;> rfl
        | apps device updates poll =>
            simp only [goOn]
            split <;> split <;> rfl
    exact hgone hended
  refine hunlabelled.fewer ?_
  rintro other device rival ⟨later, hlater⟩
  by_cases hsame : other = id
  · subst hsame
    have hidle := (goOn_idle (((hearing.service.report uuid now deviceId work
      terminal installed).endInFlight uuid now deviceId).unlabel deviceId
        work.kind) other after).1
    rw [show ((((hearing.service.report uuid now deviceId work terminal
      installed).endInFlight uuid now deviceId).unlabel deviceId
        work.kind).goOn other after).callers.get? other = _ from hlater]
      at hidle
    contradiction
  · rw [finish_others _ _ _ _ _ _ hsame] at hlater
    exact ⟨hsame, later, driving_of_notify hlater⟩

/-- A caller that drives goes on. -/
theorem Inv.drivesOn (h : Inv uuid (drivers hearing.service) hearing) {id : Nat}
    {after : After} (hget : hearing.service.callers.get? id =
      some (.driving deviceId work after)) (answer : Answer) :
    let next := hearing.service.resume uuid now id
      (.driving deviceId work after) answer
    Inv uuid (drivers next) { hearing with
      service := next
      driven := hearing.drive (.resume id answer) } := by
  have hactive : drivers hearing.service id deviceId work := ⟨after, hget⟩
  cases answer with
  | opened =>
      obtain ⟨runId, hdrives⟩ := h.drives id deviceId work hactive
      obtain ⟨run, hrun, -⟩ := hdrives.held
      cases hlink : hearing.service.links.get? deviceId with
      | none =>
          simp only [resume, openLink, Hearing.drive, hget, hrun, hlink]
          exact h
      | some link =>
          simp only [resume, openLink, Hearing.drive, hget, hrun, hlink]
          have hopened : Inv uuid (redriven (drivers hearing.service) id
              deviceId { work with link := some link.generation }) _ :=
            (h.opens huuid hactive hlink hrun).same
              (rfl : (hearing.service.wait id (.driving deviceId
                { work with link := some link.generation } after)).store = _)
              rfl rfl rfl rfl rfl
          exact hopened.fewer drivers_wait
  | told snapshot =>
      have htold : ∀ stepId, Inv uuid (redriven (drivers hearing.service) id
          deviceId
          { work with cursor := routeStep work.plan work.cursor snapshot })
          { hearing with
            service := hearing.service.emit uuid now
              (.progress deviceId work.kind stepId snapshot) } := by
        intro stepId
        have hled := h.calm huuid (leads_emit huuid now h.storied
          (rfl : (OtaPollEvent.progress deviceId work.kind stepId
            snapshot).plans = false))
        exact hled.redrives hactive rfl rfl rfl
      have hredriven := (htold _).same
        (rfl : (hearing.service.progress uuid now id deviceId work after
          snapshot).store = _) rfl rfl rfl rfl rfl
      exact hredriven.fewer drivers_wait
  | lost =>
      exact (h.calm huuid (leads_interruptRun now h.storied deviceId)).fewer
        fun _ _ _ hdrives => hdrives
  | ended terminal installed =>
      cases terminal with
      | failed reason => exact h.finishes huuid now hget _ _
      | completed =>
          simp only [resume]
          split
          · exact h
          · exact h.finishes huuid now hget _ _
      | staged =>
          simp only [resume]
          split
          · exact h
          · exact h.finishes huuid now hget _ _
  | _ => exact h

end Ending

section Links

variable (huuid : Function.Injective uuid) (now : Nat) (deviceId : String)

/-- A device is heard on its link. -/
theorem Inv.hears (h : Inv uuid Active hearing) {link : Link}
    (hlink : hearing.service.links.get? deviceId = some link)
    (announced : BridgeThingMeta) :
    Inv uuid Active { hearing with
      service := { hearing.service with
        links := hearing.service.links.put deviceId
          { link with announced := some announced } }
      heard := (deviceId, hearing.earlier + link.generation, announced) ::
        hearing.heard } :=
  { h with
    drives := fun id device work hactive => by
      obtain ⟨runId, hdrives⟩ := h.drives id device work hactive
      exact ⟨runId, { hdrives with }⟩
    awaits := fun device target hget => { h.awaits device target hget with }
    links := fun device held hget => by
      rcases Table.get?_put_cases hget with ⟨rfl, rfl⟩ | ⟨-, hold⟩
      · refine ⟨(h.links device link hlink).1, fun said hsaid => ?_⟩
        rw [← Option.some.inj hsaid]
        exact List.mem_cons_self
      · obtain ⟨hle, hheard⟩ := h.links device held hold
        exact ⟨hle, fun said hsaid =>
          List.mem_cons_of_mem _ (hheard said hsaid)⟩
    vouched := h.vouched.imp fun run hvouched hrestarts hsome => by
      obtain ⟨number, said, hmem, hlater⟩ := hvouched hrestarts hsome
      exact ⟨number, said, List.mem_cons_of_mem _ hmem, hlater⟩ }

theorem Inv.unawaits (h : Inv uuid Active hearing) :
    Inv uuid Active { hearing with
      service := { hearing.service with
        restarts := hearing.service.restarts.remove deviceId } } :=
  { h with
    drives := fun id device work hactive => by
      obtain ⟨runId, hdrives⟩ := h.drives id device work hactive
      exact ⟨runId, { hdrives with
        unawaited := fun target hget =>
          hdrives.unawaited target (Table.get?_of_remove hget).2 }⟩
    awaits := fun device target hget =>
      { h.awaits device target (Table.get?_of_remove hget).2 with } }

include huuid

/-- A restart is settled by what the device says on a later link. -/
theorem Inv.recordsOn (h : Inv uuid (drivers hearing.service) hearing)
    {link : Link} (hlink : hearing.service.links.get? deviceId = some link)
    (announced : BridgeThingMeta) :
    let next := hearing.service.recordOn uuid now deviceId announced link
    Inv uuid (drivers next) { hearing with
      service := next
      heard := (deviceId, hearing.earlier + link.generation, announced) ::
        hearing.heard } := by
  have hheard := h.hears deviceId hlink announced
  unfold recordOn
  dsimp only
  cases hget : hearing.service.restarts.get? deviceId with
  | none => exact hheard
  | some target =>
      dsimp only
      split
      · rename_i hlater
        have hawaits := h.awaits deviceId target hget
        have hsettled : Inv uuid (drivers hearing.service) { hearing with
            service := { hearing.service with
              links := hearing.service.links.put deviceId
                { link with announced := some announced }
              restarts := hearing.service.restarts.remove deviceId
              : OtaService }.settleRestart uuid now deviceId target announced
            heard := (deviceId, hearing.earlier + link.generation, announced) ::
              hearing.heard } := by
          apply (hheard.unawaits deviceId).settles huuid now hawaits.restarts
            hawaits.firm
          · intro run hrun hid hverdict
            obtain ⟨-, hkind, htarget⟩ := hawaits.run _ run hrun hid
            refine ⟨hearing.earlier + link.generation, announced, ?_, ?_, ?_⟩
            · rw [show run.deviceId = deviceId from
                congrArg Prod.fst (h.storied.key hrun)]
              exact List.mem_cons_self
            · have hdriven := hawaits.driven
              rw [← hid] at hdriven
              exact Nat.lt_of_le_of_lt hdriven (by omega)
            · rw [htarget, hkind, landed_of_verdict hverdict]
          · intro id device rival rivalId hactive hrival
            obtain ⟨runId, hdrives⟩ := h.drives id device rival hactive
            rw [← hdrives.unique hrival rfl]
            exact hawaits.apart hget hdrives
        have hnotified : Inv uuid (drivers hearing.service) { hearing with
            service := ({ hearing.service with
              links := hearing.service.links.put deviceId
                { link with announced := some announced }
              restarts := hearing.service.restarts.remove deviceId
              : OtaService }.settleRestart uuid now deviceId target
                announced).notifyWaiters
            heard := (deviceId, hearing.earlier + link.generation, announced) ::
              hearing.heard } := hsettled.same rfl rfl rfl rfl rfl rfl
        refine hnotified.fewer ?_
        rintro id device work ⟨after, hcaller⟩
        rw [get?_notifyWaiters, (quiet_settleRestart _ _ _ _).callers]
          at hcaller
        exact ⟨after, driving_of_notify hcaller⟩
      · exact hheard

theorem Inv.recordsMeta (h : Inv uuid (drivers hearing.service) hearing)
    (announced : BridgeThingMeta) :
    let next := hearing.service.recordMeta uuid now deviceId announced
    Inv uuid (drivers next) { hearing with
      service := next
      heard := hearing.hear (.announce deviceId announced) } := by
  have hknown : Inv uuid
      (drivers (hearing.service.identify deviceId announced))
      { hearing with
        service := hearing.service.identify deviceId announced } := by
    unfold identify
    split
    · exact h
    · exact h.same rfl rfl rfl rfl rfl rfl
  have hlinks : (hearing.service.identify deviceId announced).links =
      hearing.service.links := by
    unfold identify
    split <;> rfl
  unfold recordMeta hear
  dsimp only
  cases hlink : hearing.service.links.get? deviceId with
  | none => exact hknown
  | some link =>
      rw [← hlinks] at hlink
      exact @Inv.recordsOn uuid { hearing with
        service := hearing.service.identify deviceId announced } huuid now
          deviceId hknown link hlink announced

omit huuid in
theorem Inv.adopts (h : Inv uuid (drivers hearing.service) hearing) :
    let next := hearing.service.adopt now deviceId
    Inv uuid (drivers next) { hearing with service := next } := by
  have hadopted : ∀ {next : OtaService},
      next.store = hearing.service.store →
      next.inFlight = hearing.service.inFlight →
      next.restarts = hearing.service.restarts →
      next.links = hearing.service.links.put deviceId
        { generation := hearing.service.linkGenerations + 1 } →
      next.linkGenerations = hearing.service.linkGenerations + 1 →
      next.minted = hearing.service.minted →
      Inv uuid (drivers hearing.service) { hearing with service := next } := by
    intro next hstore hinFlight hrestarts hlinks hgenerations hminted
    have hlinked : Inv uuid (drivers hearing.service) { hearing with
        service := { hearing.service with
          links := hearing.service.links.put deviceId
            { generation := hearing.service.linkGenerations + 1 }
          linkGenerations := hearing.service.linkGenerations + 1 } } :=
      { h with
        drives := fun id device work hactive => by
          obtain ⟨runId, hdrives⟩ := h.drives id device work hactive
          exact ⟨runId, { hdrives with }⟩
        awaits := fun device target hget =>
          { h.awaits device target hget with }
        links := fun device held hget => by
          rcases Table.get?_put_cases hget with ⟨rfl, rfl⟩ | ⟨-, hold⟩
          · exact ⟨Nat.le_refl _, fun said hsaid => by contradiction⟩
          · obtain ⟨hle, hheard⟩ := h.links device held hold
            exact ⟨Nat.le_succ_of_le hle, hheard⟩
        reached := fun id => Nat.le_succ_of_le (h.reached id) }
    exact hlinked.same hstore hinFlight hrestarts hlinks hgenerations hminted
  unfold adopt
  dsimp only
  split
  · have hspawned : Inv uuid (drivers hearing.service) { hearing with
        service := OtaService.spawn { hearing.service with
          links := hearing.service.links.put deviceId
            { generation := hearing.service.linkGenerations + 1 }
          linkGenerations := hearing.service.linkGenerations + 1
          identities := hearing.service.identities.remove deviceId
          schedules := hearing.service.schedules.put deviceId
            { (hearing.service.schedules.get? deviceId).getD {} with
              linkOpenedAtMs := some now } } (.resuming deviceId) } :=
      hadopted rfl rfl rfl rfl rfl rfl
    refine hspawned.fewer ?_
    rintro id device work ⟨after, hget⟩
    rcases Table.get?_put_cases hget with ⟨-, hsame⟩ | ⟨-, hold⟩
    · contradiction
    · exact ⟨after, hold⟩
  · exact hadopted rfl rfl rfl rfl rfl rfl

omit huuid in
theorem Inv.releases (h : Inv uuid (drivers hearing.service) hearing)
    (huuid : Function.Injective uuid) :
    let next := hearing.service.release now deviceId
    Inv uuid (drivers next) { hearing with service := next } := by
  unfold release
  dsimp only
  split
  · exact h
  · have hunlinked : ∀ schedules, Inv uuid (drivers hearing.service)
        { hearing with
          service := { hearing.service with
            links := hearing.service.links.remove deviceId
            schedules := schedules } } := fun schedules =>
      { h with
        drives := fun id device work hactive => by
          obtain ⟨runId, hdrives⟩ := h.drives id device work hactive
          exact ⟨runId, { hdrives with }⟩
        awaits := fun device target hget =>
          { h.awaits device target hget with }
        links := fun device held hget =>
          h.links device held (Table.get?_of_remove hget).2 }
    exact (hunlinked _).calm huuid
      (leads_interruptRun now (hunlinked _).storied deviceId)

end Links

/-! ### Relaunches -/

/-- A reloaded run that waits for its device to come back. -/
theorem awaitedBy_eq_some {run : OtaRun} {deviceId : String}
    {target : RestartTarget}
    (h : RestartTarget.awaitedBy run = some (deviceId, target)) :
    run.deviceId = deviceId ∧ restartsDevice run.kind = true ∧
      run.target = some target.version ∧ target = {
        runId := run.runId
        kind := run.kind
        version := target.version
        pieces := [(run.kind, target.version)]
        askedOn := 0 } := by
  unfold RestartTarget.awaitedBy at h
  split at h
  · contradiction
  · rename_i hwaits
    simp only [not_or, not_not] at hwaits
    have hpaired : ∀ version : Option String, run.target = version →
        (version.bind fun version => some (run.deviceId,
          ({ runId := run.runId
             kind := run.kind
             version := version
             pieces := [(run.kind, version)]
             askedOn := 0 } : RestartTarget))) = some (deviceId, target) →
        run.deviceId = deviceId ∧ restartsDevice run.kind = true ∧
          run.target = some target.version ∧ target = {
            runId := run.runId
            kind := run.kind
            version := target.version
            pieces := [(run.kind, target.version)]
            askedOn := 0 } := by
      intro version htarget hbind
      obtain ⟨found, rfl, hpair⟩ := Option.bind_eq_some_iff.mp hbind
      obtain ⟨rfl, rfl⟩ := Prod.mk.inj (Option.some.inj hpair)
      exact ⟨rfl, hwaits.2.2, htarget, rfl⟩
    apply hpaired run.target rfl
    unfold OtaRun.target
    cases hkind : run.kind with
    | image =>
        rw [hkind] at h
        exact h
    | _ =>
        rw [hkind] at h
        exact h

theorem Inv.relaunches (h : Inv uuid Active hearing) :
    let next := { OtaService.new hearing.service.store.file with
      minted := hearing.service.minted }
    Inv uuid (drivers next) { hearing with
      service := next
      earlier := hearing.earlier + hearing.service.linkGenerations } where
  storied := h.storied.reload
  drives id deviceId work hactive := by
    obtain ⟨after, hget⟩ := hactive
    contradiction
  alone id other deviceId work rival hactive := by
    obtain ⟨after, hget⟩ := hactive
    contradiction
  awaits deviceId target hget := by
    rcases Table.get?_foldl_put hget with hmem | hnone
    · obtain ⟨run, hrun, hawaited⟩ := List.mem_filterMap.mp hmem
      obtain ⟨key, hheld⟩ :=
        (Table.mem_values h.storied.reload.nodup).mp hrun
      obtain ⟨hdevice, hrestarts, hversion, htarget⟩ :=
        awaitedBy_eq_some hawaited
      rw [htarget]
      refine ⟨hrestarts, fun piece hpiece => ?_, List.cons_ne_nil _ _,
        h.storied.reload.drawn hheld, fun other rival hrival hid => ?_,
        h.reached _⟩
      · rw [List.mem_singleton.mp hpiece]
        exact lane_of_restarts hrestarts
      · obtain rfl := h.storied.reload.unique hrival hheld hid
        rw [show ((OtaRunStore.new _).runs.get? other) = some rival from hrival,
          Option.some.injEq] at hheld
        subst hheld
        refine ⟨?_, rfl, hversion⟩
        rw [← h.storied.reload.key hrival, ← hdevice]
        rfl
    · contradiction
  links deviceId link hget := by contradiction
  reached id := h.reached id
  undrawn := h.undrawn
  vouched := h.vouched.reload h.storied fun run hvouched hrestarts hsome => by
    have hfollows := follows_reloaded run
    have hwon : run.outcome = some .succeeded := reloaded_lost hsome
    exact (hvouched (hfollows.kind ▸ hrestarts) hwon).follows hfollows

theorem inv_fresh (uuid : Nat → String) (dataDir : Bool) :
    Inv uuid (drivers (fresh dataDir).service) (fresh dataDir) where
  storied := storied_fresh uuid dataDir
  drives id deviceId work hactive := by
    obtain ⟨after, hget⟩ := hactive
    contradiction
  alone id other deviceId work rival hactive := by
    obtain ⟨after, hget⟩ := hactive
    contradiction
  awaits deviceId target hget := by cases dataDir <;> contradiction
  links deviceId link hget := by contradiction
  reached id := Nat.zero_le _
  undrawn drawn _ := rfl
  vouched := by
    constructor
    · intro key run hget
      cases dataDir <;> contradiction
    · intro content hfile
      cases dataDir <;> cases hfile

theorem Inv.step (h : Inv uuid (drivers hearing.service) hearing)
    (huuid : Function.Injective uuid) (action : Nat × Action) :
    Inv uuid (drivers (hearing.step uuid action).service)
      (hearing.step uuid action) := by
  obtain ⟨now, action⟩ := action
  have hspawned : ∀ {id next}, Advance uuid { hearing.service with
      spawned := hearing.service.spawned + 1 } id next →
        Inv uuid (drivers next) { hearing with service := next } := by
    intro id next hadvance
    have hinv : Inv uuid (drivers hearing.service) { hearing with
        service := { hearing.service with
          spawned := hearing.service.spawned + 1 } } :=
      h.same rfl rfl rfl rfl rfl rfl
    exact @Inv.advance uuid { hearing with
      service := { hearing.service with
        spawned := hearing.service.spawned + 1 } } hinv huuid id next hadvance
  have hstoried : Storied uuid { hearing.service with
      spawned := hearing.service.spawned + 1 : OtaService }.store
        hearing.service.minted := h.storied
  cases action with
  | poll config => exact hspawned (advance_waits hstoried rfl)
  | apply deviceId channel version rootUrl =>
      exact hspawned (advance_applyVersion huuid hstoried _ _ _ _)
  | install deviceId install =>
      exact hspawned (advance_takeTurn hstoried _ _ _)
  | resume id answer =>
      cases hget : hearing.service.callers.get? id with
      | none =>
          have hdriven : hearing.drive (.resume id answer) =
              hearing.driven := by
            cases answer with
            | opened => simp only [Hearing.drive, hget]
            | _ => rfl
          simp only [Hearing.step, OtaService.step, hget, hdriven]
          exact h
      | some caller =>
          cases hdrives : caller.drives with
          | none =>
              have hdriven : hearing.drive (.resume id answer) =
                  hearing.driven := by
                cases answer with
                | opened =>
                    simp only [Hearing.drive, hget]
                    cases caller with
                    | driving _ _ _ => contradiction
                    | _ => rfl
                | _ => rfl
              simp only [Hearing.step, OtaService.step, hget, hdriven]
              exact h.advance huuid
                (advance_resume huuid h.storied hdrives answer)
          | some deviceId =>
              cases caller with
              | driving deviceId work after =>
                  simp only [Hearing.step, OtaService.step, hget]
                  exact h.drivesOn huuid now hget answer
              | _ => contradiction
  | drop id => exact h.advance huuid (advance_leaves h.storied)
  | adopt deviceId => exact h.adopts now deviceId
  | release deviceId => exact h.releases now deviceId huuid
  | announce deviceId announced =>
      exact h.recordsMeta huuid now deviceId announced
  | relaunch => exact h.relaunches

end Keeping

/-- What a device says of a restart whose run was replaced leaves every run. -/
theorem recordMeta_replaced {uuid : Nat → String} {now : Nat}
    {service : OtaService} {deviceId : String} {target : RestartTarget}
    (hget : service.restarts.get? deviceId = some target)
    (hreplaced : ∀ run, service.store.run deviceId (.of target.kind) =
      some run → run.runId ≠ target.runId) (announced : BridgeThingMeta) :
    (service.recordMeta uuid now deviceId announced).store = service.store := by
  have hstore : (service.identify deviceId announced).store =
      service.store := by
    unfold identify
    split <;> rfl
  have hrestarts := (quiet_identify service deviceId announced).restarts
  unfold recordMeta
  dsimp only
  split
  · exact hstore
  · unfold recordOn
    simp only [hrestarts, hget]
    split
    · refine (settleRestart_replaced now ?_ announced).trans hstore
      rintro ⟨run, hrun, hid⟩
      rw [show OtaService.store _ = service.store from hstore] at hrun
      exact hreplaced run hrun hid
    · exact hstore

/-- In every run of the service and its relaunches, an update of the image or of
the daemon has succeeded only where its device has announced the version that it
was for, on a link adopted after the one that it was driven over; and what a
device says of a restart whose run was replaced since leaves every run as it
is. -/
theorem verdicts_own (uuid : Nat → String) (huuid : Function.Injective uuid)
    (dataDir : Bool) (actions : List (Nat × Action)) (count : Nat) :
    let hearing := Transition.reached (step uuid) (fresh dataDir) actions count
    (∀ key run, hearing.service.store.runs.get? key = some run →
      run.kind = .image ∨ run.kind = .daemon →
        run.outcome = some .succeeded → hearing.Confirmed run) ∧
    ∀ now deviceId announced target,
      hearing.service.restarts.get? deviceId = some target →
        (∀ run, hearing.service.store.run deviceId (.of target.kind) =
          some run → run.runId ≠ target.runId) →
        (hearing.service.step uuid (now, .announce deviceId announced)).store =
          hearing.service.store := by
  have hinv := Transition.reached_always
    (fun hearing : Hearing => Inv uuid (drivers hearing.service) hearing)
    (inv_fresh uuid dataDir) (fun action h => h.step huuid action) actions count
  refine ⟨fun key run hget hkind hsome => ?_,
    fun now deviceId announced target hget hreplaced => ?_⟩
  · apply hinv.vouched.held key run hget _ hsome
    rcases hkind with hkind | hkind <;> rw [hkind] <;> rfl
  · exact recordMeta_replaced hget hreplaced announced

/-- An image that is asked for, and that the device comes back on. -/
def imageAsked : List (Nat × Action) :=
  let before : BridgeThingMeta := ⟨"serial", "1.0", "1.0", "stable", none⟩
  [(0, .adopt "car"), (1, .announce "car" before),
    (2, .apply "car" "stable" "1.0+image.2.0" "https://ota.test"),
    (3, .resume 0 (.manifest (.error "offline") "")), (4, .resume 0 .opened),
    (5, .resume 0 (.told (.applying .reboot 100))),
    (6, .resume 0 (.ended .completed none)), (7, .release "car"),
    (8, .adopt "car"),
    (9, .announce "car" { before with imageVersion := "2.0" })]

/-- Its success is the device's own. -/
theorem verdicts_own_image :
    ∃ run, (Transition.reached (step unaryId) (fresh true) imageAsked
        10).service.store.run "car" .firmware = some run ∧
      run.outcome = some .succeeded ∧
      (Transition.reached (step unaryId) (fresh true) imageAsked 10).Confirmed
        run := by
  have hsucceeded : ((Transition.reached (step unaryId) (fresh true) imageAsked
      10).service.store.run "car" .firmware).any (fun run =>
        decide (run.kind = .image ∧ run.outcome = some .succeeded)) = true := by
    decide +kernel
  obtain ⟨run, hget, hrun⟩ := (Option.any_eq_true _ _).mp hsucceeded
  obtain ⟨hkind, hsome⟩ := of_decide_eq_true hrun
  exact ⟨run, hget, hsome, (verdicts_own unaryId unaryId_injective true
    imageAsked 10).1 _ run hget (Or.inl hkind) hsome⟩

end Hearing

end Ota

end Bridgething
