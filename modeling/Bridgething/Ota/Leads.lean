/-
What the service does between two waits of a caller leaves alone: who waits for
what, the links, and of the runs all that is settled when they are planned.
-/
import Bridgething.Ota.Storied

namespace Bridgething

namespace Ota

open Service

namespace OtaService

/-- The ids that are drawn from now on. -/
def DrawnFrom (uuid : Nat → String) (minted : Nat) (id : String) : Prop :=
  ∃ drawn, minted ≤ drawn ∧ uuid drawn = id

/-- Runs follow, and nothing else that decides over an update changes.  `Wins`
are the keys for which an update is told of. -/
structure Leads (uuid : Nat → String) (Wins : RunKey → Prop)
    (service next : OtaService) : Prop where
  quiet : service.Quiet next
  links : next.links = service.links
  linkGenerations : next.linkGenerations = service.linkGenerations
  minted : service.minted ≤ next.minted
  storied : Storied uuid next.store next.minted
  follow : Follow (DrawnFrom uuid service.minted) Wins service.store next.store

section Leads

variable {uuid : Nat → String} {Wins Others : RunKey → Prop}
  {service mid next : OtaService}

theorem Leads.trans (h : service.Leads uuid Wins mid)
    (hrest : mid.Leads uuid Wins next) : service.Leads uuid Wins next where
  quiet := h.quiet.trans hrest.quiet
  links := hrest.links.trans h.links
  linkGenerations := hrest.linkGenerations.trans h.linkGenerations
  minted := h.minted.trans hrest.minted
  storied := hrest.storied
  follow := h.follow.trans (hrest.follow.mono
    (fun _ ⟨drawn, hle, hid⟩ => ⟨drawn, h.minted.trans hle, hid⟩)
    fun _ => id)

theorem Leads.mono (h : service.Leads uuid Wins next)
    (hwins : ∀ key, Wins key → Others key) :
    service.Leads uuid Others next :=
  ⟨h.quiet, h.links, h.linkGenerations, h.minted, h.storied,
    h.follow.mono (fun _ => id) hwins⟩

/-- Only the store changes, and draws no id. -/
theorem Leads.of_store (hstoried : Storied uuid service.store service.minted)
    {store : OtaRunStore} (hstays : Stays (DrawnFrom uuid service.minted) Wins
      service.store store) :
    service.Leads uuid Wins { service with store := store } where
  quiet := ⟨rfl, rfl, rfl, rfl⟩
  links := rfl
  linkGenerations := rfl
  minted := Nat.le_refl _
  storied := hstoried.stays hstays.kept
  follow := hstays.follow

/-- What decides over an update is the same. -/
theorem Leads.of_same (hstoried : Storied uuid service.store service.minted)
    (hquiet : service.Quiet next) (hstore : next.store = service.store)
    (hlinks : next.links = service.links)
    (hgenerations : next.linkGenerations = service.linkGenerations)
    (hminted : next.minted = service.minted) :
    service.Leads uuid Wins next where
  quiet := hquiet
  links := hlinks
  linkGenerations := hgenerations
  minted := hminted.ge
  storied := hstore ▸ hminted ▸ hstoried
  follow := by
    rw [hstore]
    exact Follow.refl hstoried.nodup

theorem Leads.refl (hstoried : Storied uuid service.store service.minted) :
    service.Leads uuid Wins service :=
  Leads.of_same hstoried (Quiet.refl service) rfl rfl rfl rfl

end Leads

section Emission

variable {uuid : Nat → String} (huuid : Function.Injective uuid) (now : Nat)
  {service : OtaService} (hstoried : Storied uuid service.store service.minted)

/-- The store once the labels are on the changed installs. -/
theorem stays_labelled {Fresh : String → Prop} {Wins : RunKey → Prop}
    (label : Option WebappLabel) (changes : List OtaStoreChange)
    {store : OtaRunStore} (hnodup : store.runs.keys.Nodup) :
    Stays Fresh Wins store (match label with
      | none => store
      | some label => changes.foldl (annotate now label) store) := by
  cases label with
  | none => exact Stays.refl hnodup
  | some label =>
      dsimp only
      induction changes generalizing store with
      | nil => exact Stays.refl hnodup
      | cons change rest ih =>
          have hfirst : Stays Fresh Wins store (annotate now label store
            change) := stays_annotate store hnodup now label change
          exact hfirst.trans (ih hfirst.follow.nodup)

include huuid hstoried

/-- Whatever the event, the runs follow those that it leaves. -/
theorem storied_emit (event : OtaPollEvent) :
    Storied uuid (service.emit uuid now event).store
        (service.emit uuid now event).minted ∧
      ∀ Wins, (service.store.reduce event now
        (uuid service.minted)).2.runs.keys.Nodup →
        Follow (DrawnFrom uuid service.minted) Wins
          (service.store.reduce event now (uuid service.minted)).2
          (service.emit uuid now event).store := by
  have hingested := hstoried.ingest huuid event
    (event.deviceId?.bind service.identities.get?) now
  have hlabelled : ∀ Wins, Stays (DrawnFrom uuid service.minted) Wins
      (service.store.ingest event
        (event.deviceId?.bind service.identities.get?) now
        (uuid service.minted)).2 (service.emit uuid now event).store :=
    fun Wins => stays_labelled now _ _ hingested.nodup
  refine ⟨hingested.stays (hlabelled fun _ => False).kept,
    fun Wins hnodup => ?_⟩
  exact (follow_ingest now event _ hnodup).trans (hlabelled Wins).follow

theorem leads_emit {event : OtaPollEvent} (h : event.plans = false) :
    service.Leads uuid event.Wins (service.emit uuid now event) := by
  obtain ⟨hemitted, hfollow⟩ := storied_emit huuid now hstoried event
  have hreduced : Follow (DrawnFrom uuid service.minted) event.Wins _ _ :=
    follow_reduce now hstoried.nodup h
      (⟨service.minted, Nat.le_refl _, rfl⟩ :
        DrawnFrom uuid service.minted (uuid service.minted))
  exact ⟨quiet_emit service event, rfl, rfl, Nat.le_succ _, hemitted,
    hreduced.trans (hfollow _ hreduced.nodup)⟩

theorem leads_emits {α : Type} (event : α → OtaPollEvent)
    (hplans : ∀ entry, (event entry).plans = false) {Wins : RunKey → Prop}
    {entries : List α}
    (hwins : ∀ entry ∈ entries, ∀ key, (event entry).Wins key → Wins key) :
    service.Leads uuid Wins (entries.foldl (fun service entry =>
      service.emit uuid now (event entry)) service) := by
  induction entries generalizing service with
  | nil => exact Leads.refl hstoried
  | cons entry rest ih =>
      have hfirst := leads_emit huuid now hstoried (hplans entry)
      have hrest := ih hfirst.storied fun other hmem =>
        hwins other (List.mem_cons_of_mem _ hmem)
      exact (hfirst.mono (hwins entry List.mem_cons_self)).trans hrest

/-- What closes the run of an entry as it is told of, has it closed in the
end. -/
theorem closed_emits {α : Type} (event : α → OtaPollEvent) (key : α → RunKey)
    (hplans : ∀ entry, (event entry).plans = false)
    (hcloses : ∀ service : OtaService,
      Storied uuid service.store service.minted → ∀ entry run,
        (service.emit uuid now (event entry)).store.runs.get? (key entry) =
          some run → run.outcome.isSome)
    {entries : List α} {entry : α} (hmem : entry ∈ entries) {run : OtaRun}
    (hget : (entries.foldl (fun service entry =>
      service.emit uuid now (event entry)) service).store.runs.get?
        (key entry) = some run) : run.outcome.isSome := by
  obtain ⟨front, back, rfl⟩ := List.append_of_mem hmem
  rw [List.foldl_append] at hget
  have hfront := @leads_emits uuid huuid now service hstoried α event hplans
    (fun _ => True) front fun _ _ _ _ => trivial
  have hfirst := leads_emit huuid now hfront.storied (hplans entry)
  have hback := @leads_emits uuid huuid now _ hfirst.storied α event hplans
    (fun _ => True) back fun _ _ _ _ => trivial
  exact hback.follow.closed (hcloses _ hfront.storied entry) hget

/-- An event that leaves no run open in the store leaves none in the service. -/
theorem closed_emit {event : OtaPollEvent} {key : RunKey}
    (hplans : event.plans = false)
    (hcloses : ∀ run, (service.store.reduce event now
      (uuid service.minted)).2.runs.get? key = some run → run.outcome.isSome)
    {run : OtaRun}
    (hget : (service.emit uuid now event).store.runs.get? key = some run) :
    run.outcome.isSome := by
  have hreduced : Follow (DrawnFrom uuid service.minted) event.Wins _ _ :=
    follow_reduce now hstoried.nodup hplans
      (⟨service.minted, Nat.le_refl _, rfl⟩ :
        DrawnFrom uuid service.minted (uuid service.minted))
  have hfollow := (storied_emit huuid now hstoried event).2 (fun _ => True)
    hreduced.nodup
  exact hfollow.closed hcloses hget

theorem closed_fail (deviceId : String) (kind : OtaKind) (reason : String)
    {run : OtaRun} (hget : (service.fail uuid now deviceId kind
      reason).store.run deviceId (.of kind) = some run) :
    run.outcome.isSome :=
  closed_emit huuid now hstoried
    (rfl : (OtaPollEvent.failed deviceId kind reason).plans = false)
    (closed_reduce_failed now reason fun _ hrun hresumable =>
      hstoried.closed hrun hresumable) hget

theorem closed_succeed (deviceId : String) {pieces : List (OtaKind × String)}
    {piece : OtaKind × String} (hmem : piece ∈ pieces) {run : OtaRun}
    (hget : (service.succeed uuid now deviceId pieces).store.run deviceId
      (.of piece.1) = some run) : run.outcome.isSome := by
  refine closed_emits huuid now hstoried
    (fun piece : OtaKind × String => .updated deviceId piece.1 piece.2)
    (fun piece => (deviceId, .of piece.1)) (fun _ => rfl)
    (fun service hstoried piece run hrun => ?_) hmem hget
  exact closed_emit huuid now hstoried
    (rfl : (OtaPollEvent.updated deviceId piece.1 piece.2).plans = false)
    (closed_reduce_updated now deviceId piece.1 piece.2) hrun

theorem closed_fails {deviceId reason : String} {kinds : List OtaKind}
    {kind : OtaKind} (hmem : kind ∈ kinds) {run : OtaRun}
    (hget : (kinds.foldl (fun service kind =>
      service.fail uuid now deviceId kind reason) service).store.run deviceId
        (.of kind) = some run) : run.outcome.isSome :=
  closed_emits huuid now hstoried (fun kind => .failed deviceId kind reason)
    (fun kind => (deviceId, .of kind)) (fun _ => rfl)
    (fun _ hstoried kind _ hrun =>
      closed_fail huuid now hstoried deviceId kind reason hrun) hmem hget

theorem leads_fail (deviceId : String) (kind : OtaKind) (reason : String) :
    service.Leads uuid (fun _ => False)
      (service.fail uuid now deviceId kind reason) :=
  leads_emit huuid now hstoried
    (rfl : (OtaPollEvent.failed deviceId kind reason).plans = false)

/-- The keys of the pieces of a device. -/
def Pieces (deviceId : String) (pieces : List (OtaKind × String))
    (key : RunKey) : Prop :=
  ∃ piece ∈ pieces, key = (deviceId, .of piece.1)

theorem leads_succeed (deviceId : String) (pieces : List (OtaKind × String)) :
    service.Leads uuid (Pieces deviceId pieces)
      (service.succeed uuid now deviceId pieces) :=
  leads_emits huuid now hstoried
    (fun piece : OtaKind × String => .updated deviceId piece.1 piece.2)
    (fun _ => rfl) fun piece hmem _ hkey => ⟨piece, hmem, hkey⟩

theorem leads_fails (deviceId reason : String) (kinds : List OtaKind) :
    service.Leads uuid (fun _ => False) (kinds.foldl (fun service kind =>
      service.fail uuid now deviceId kind reason) service) :=
  leads_emits huuid now hstoried (fun kind => .failed deviceId kind reason)
    (fun _ => rfl) fun _ _ _ => False.elim

omit huuid in
theorem leads_interruptRun (deviceId : String) :
    service.Leads uuid (fun _ => False) (service.interruptRun now deviceId) :=
  Leads.of_store hstoried
    (stays_interrupt service.store hstoried.nodup deviceId now)

omit huuid in
theorem leads_noteAutoPushResult (deviceId : String) (pushFailed : Bool) :
    service.Leads uuid (fun _ => False)
      (service.noteAutoPushResult now deviceId pushFailed) := by
  have hquiet := @quiet_noteAutoPushResult now service deviceId pushFailed
  apply Leads.of_same hstoried hquiet
  all_goals
    unfold noteAutoPushResult
    split <;> rfl

omit huuid hstoried in
theorem store_noteAutoPushResult (deviceId : String) (pushFailed : Bool) :
    (service.noteAutoPushResult now deviceId pushFailed).store =
      service.store := by
  unfold noteAutoPushResult
  split <;> rfl

/-- The run that a restart is awaited for is still the one of its lane. -/
def Current (service : OtaService) (deviceId : String)
    (target : RestartTarget) : Prop :=
  ∃ run, service.store.run deviceId (.of target.kind) = some run ∧
    run.runId = target.runId

omit huuid hstoried in
theorem settleRestart_cases (deviceId : String) (target : RestartTarget)
    (announced : BridgeThingMeta) :
    let noted := service.noteAutoPushResult now deviceId
      (target.verdict announced).isSome
    (¬ service.Current deviceId target ∧
      service.settleRestart uuid now deviceId target announced = noted) ∨
    (service.Current deviceId target ∧ target.verdict announced = none ∧
      service.settleRestart uuid now deviceId target announced =
        noted.succeed uuid now deviceId target.pieces) ∨
    (service.Current deviceId target ∧ ∃ reason,
      service.settleRestart uuid now deviceId target announced =
        noted.fail uuid now deviceId target.kind reason) := by
  dsimp only
  have hcurrent : ((service.noteAutoPushResult now deviceId
      (target.verdict announced).isSome).store.run deviceId
        (.of target.kind)).any (fun run => run.runId = target.runId) = true ↔
      service.Current deviceId target := by
    rw [store_noteAutoPushResult, Option.any_eq_true]
    simp only [decide_eq_true_eq]
    rfl
  by_cases h : service.Current deviceId target
  · have hany := hcurrent.mpr h
    unfold settleRestart
    dsimp only
    rw [if_neg (not_not.mpr hany)]
    cases hverdict : target.verdict announced with
    | none => exact Or.inr (Or.inl ⟨h, rfl, rfl⟩)
    | some reason => exact Or.inr (Or.inr ⟨h, reason, rfl⟩)
  · refine Or.inl ⟨h, ?_⟩
    unfold settleRestart
    dsimp only
    rw [if_pos (mt hcurrent.mp h)]

omit huuid hstoried in
/-- The verdict of a run that was replaced is no run's. -/
theorem settleRestart_replaced {deviceId : String} {target : RestartTarget}
    (h : ¬ service.Current deviceId target) (announced : BridgeThingMeta) :
    (service.settleRestart uuid now deviceId target announced).store =
      service.store := by
  rcases @settleRestart_cases uuid now service deviceId target announced with
    ⟨-, hsettled⟩ | ⟨hcurrent, -⟩ | ⟨hcurrent, -⟩
  · rw [hsettled, store_noteAutoPushResult]
  · exact absurd hcurrent h
  · exact absurd hcurrent h

/-- The verdict of a run that is held closes it. -/
theorem closed_settleRestart {deviceId : String} {target : RestartTarget}
    (hcurrent : service.Current deviceId target)
    (htold : ∃ piece ∈ target.pieces,
      OtaLane.of piece.1 = OtaLane.of target.kind)
    (announced : BridgeThingMeta) {run : OtaRun}
    (hget : (service.settleRestart uuid now deviceId target
      announced).store.run deviceId (.of target.kind) = some run) :
    run.outcome.isSome := by
  have hnoted := leads_noteAutoPushResult now hstoried deviceId
    (target.verdict announced).isSome
  rcases @settleRestart_cases uuid now service deviceId target announced with
    ⟨hnot, -⟩ | ⟨-, -, hsettled⟩ | ⟨-, reason, hsettled⟩
  · exact absurd hcurrent hnot
  · obtain ⟨piece, hmem, hlane⟩ := htold
    rw [hsettled, ← hlane] at hget
    exact closed_succeed huuid now hnoted.storied deviceId hmem hget
  · rw [hsettled] at hget
    exact closed_fail huuid now hnoted.storied deviceId _ reason hget

theorem leads_settleRestart (deviceId : String) (target : RestartTarget)
    (announced : BridgeThingMeta) :
    service.Leads uuid (fun key => Pieces deviceId target.pieces key ∧
        service.Current deviceId target ∧ target.verdict announced = none)
      (service.settleRestart uuid now deviceId target announced) := by
  have hnoted := leads_noteAutoPushResult now hstoried deviceId
    (target.verdict announced).isSome
  rcases @settleRestart_cases uuid now service deviceId target announced with
    ⟨-, hsettled⟩ | ⟨hcurrent, hverdict, hsettled⟩ | ⟨-, reason, hsettled⟩
  · rw [hsettled]
    exact hnoted.mono fun _ => False.elim
  · rw [hsettled]
    exact (hnoted.mono fun _ => False.elim).trans
      ((leads_succeed huuid now hnoted.storied deviceId _).mono
        fun _ hkey => ⟨hkey, hcurrent, hverdict⟩)
  · rw [hsettled]
    exact (hnoted.mono fun _ => False.elim).trans
      ((leads_fail huuid now hnoted.storied deviceId _ reason).mono
        fun _ => False.elim)

end Emission

end OtaService

/-- What is known of a run as the store moves on, wherever it can win. -/
theorem AllRuns.leads {uuid : Nat → String} {service next : OtaService}
    {Wins : RunKey → Prop} {P : OtaRun → Prop}
    (h : AllRuns P service.store) (hleads : service.Leads uuid Wins next)
    (hfollows : ∀ run later, Follows run later →
      (later.outcome = some .succeeded → run.outcome = some .succeeded) →
        P run → P later)
    (hfailed : ∀ run, run.outcome ≠ some .succeeded → P run)
    (hwins : ∀ key, Wins key → ∃ run, service.store.runs.get? key = some run ∧
      ∀ later, Follows run later → P later) :
    AllRuns P next.store := by
  refine h.follow hleads.follow fun key run hcomes => ?_
  cases hcomes with
  | follows old hget hfollow hwon =>
      by_cases hkey : Wins key
      · obtain ⟨held, hheld, hall⟩ := hwins key hkey
        rw [hget, Option.some.injEq] at hheld
        exact hall run (hheld ▸ hfollow)
      · exact hfollows old run hfollow
          (fun hsome => (hwon hsome).resolve_right hkey) (h.held key old hget)
  | failed hnone _ _ hlost =>
      apply hfailed
      intro hsome
      obtain ⟨held, hheld, -⟩ := hwins key (hlost hsome)
      rw [hnone] at hheld
      contradiction

end Ota

end Bridgething
