/-
The failure of an install whose companion went away: when the watchers that report
it tell the truth.
-/
import Bridgething.Ota.Manager
import Bridgething.Lib.Transition

namespace Bridgething

namespace Ota

/-- The orchestrator with the updates during whose image write the link of the
pinned peer dropped. -/
structure Record where
  actor : OtaActor
  dropped : List (String × Address)

namespace Record

def new (linked : List Address) (disk : Disk) : Record :=
  ⟨.spawn linked disk, []⟩

/-- The image write in progress whose peer's link drops with a new snapshot. -/
def drops (actor : OtaActor) (linked : List Address) :
    List (String × Address) :=
  match actor.task with
  | some ⟨_, .image, updateId, some peer, _⟩ =>
      if peer ∈ actor.linked ∧ peer ∉ linked then [(updateId, peer)] else []
  | _ => []

def step (record : Record) (event : Event) : Record where
  actor := record.actor.step event
  dropped :=
    match event with
    | .setLinked linked => drops record.actor linked ++ record.dropped
    | _ => record.dropped

/-- A failure that is held or was emitted for an update is of one whose peer's
link dropped while its image was written. -/
structure Truthful (record : Record) : Prop where
  held : ∀ {failure}, record.actor.unsentFailure = some failure →
    (failure.updateId, failure.peer) ∈ record.dropped
  emitted : ∀ {code msg updateId replayed},
    .error ⟨code, msg, some updateId, replayed⟩ ∈ record.actor.events →
      ∃ peer, (updateId, peer) ∈ record.dropped

/-- A snapshot without a watcher's peer comes only when the link dropped, now or
before, while the image of the watcher's update was written. -/
def Fair (record : Record) (event : Event) : Prop :=
  ∀ linked, event = .setLinked linked →
    ∀ watcher ∈ record.actor.watchers, watcher.peer ∉ linked →
      (watcher.updateId, watcher.peer) ∈
        drops record.actor linked ++ record.dropped

end Record

namespace OtaActor

/-- A step by which no failure is posted, held or emitted, and no watcher falls
behind. -/
structure Calm (actor next : OtaActor) : Prop where
  linked : next.linked = actor.linked
  snapshot : next.snapshot = actor.snapshot
  posted : ∀ {failure}, .holdFailure failure ∈ next.posted →
    .holdFailure failure ∈ actor.posted
  held : ∀ {failure}, next.unsentFailure = some failure →
    actor.unsentFailure = some failure
  emitted : ∀ {code msg updateId replayed},
    .error ⟨code, msg, some updateId, replayed⟩ ∈ next.events →
      .error ⟨code, msg, some updateId, replayed⟩ ∈ actor.events
  watchers : ∀ {watcher}, watcher ∈ next.watchers →
    watcher ∈ actor.watchers ∨ watcher.seen = actor.snapshot

theorem Calm.refl (actor : OtaActor) : actor.Calm actor :=
  ⟨rfl, rfl, id, id, id, Or.inl⟩

theorem Calm.trans {actor mid next : OtaActor} (hfirst : actor.Calm mid)
    (hrest : mid.Calm next) : actor.Calm next := by
  constructor
  · exact hrest.linked.trans hfirst.linked
  · exact hrest.snapshot.trans hfirst.snapshot
  · exact fun hin => hfirst.posted (hrest.posted hin)
  · exact fun hin => hfirst.held (hrest.held hin)
  · exact fun hin => hfirst.emitted (hrest.emitted hin)
  · intro watcher hin
    rcases hrest.watchers hin with hmid | hseen
    · exact hfirst.watchers hmid
    · exact Or.inr (hseen.trans hfirst.snapshot)

theorem calm_spawnWrite (actor : OtaActor) (kind : OtaKind)
    (updateId : String) (peer : Option Address) :
    actor.Calm (actor.spawnWrite kind updateId peer) := by
  unfold spawnWrite
  simp only
  split
  · refine ⟨rfl, rfl, id, id, id, ?_⟩
    intro watcher hin
    rcases List.mem_append.mp hin with hold | hnew
    · exact Or.inl hold
    · exact Or.inr (by rw [List.mem_singleton.mp hnew])
  · exact ⟨rfl, rfl, id, id, id, Or.inl⟩

theorem calm_emitError (actor : OtaActor) (code : OtaErrorCode) (msg : String) :
    actor.Calm (actor.emitError code msg) := by
  refine ⟨rfl, rfl, id, id, ?_, Or.inl⟩
  intro code msg updateId replayed hin
  rcases List.mem_append.mp hin with hold | hnew
  · exact hold
  · exact absurd (List.mem_singleton.mp hnew) (by simp)

theorem calm_handleBegin (actor : OtaActor) (req : OtaBegin)
    (peer : Option Address) (outcome : BeginOutcome) (hasTarget : Bool) :
    actor.Calm (actor.handleBegin req peer outcome hasTarget).2 := by
  have hdismissed : actor.Calm (actor.dismissFailure peer) := by
    rcases actor.dismissFailure_eq peer with hsame | hcleared
    · rw [hsame]
      exact Calm.refl actor
    · rw [hcleared]
      exact ⟨rfl, rfl, id, fun h => absurd h (by simp), id, Or.inl⟩
  rcases actor.handleBegin_cases req peer outcome hasTarget with
    hrefused | ⟨next, hrelease, hnext⟩
  · exact hrefused ▸ hdismissed
  · have hreleased : actor.Calm next := by
      rcases release_cases hrelease with rfl | rfl
      · exact hdismissed
      · exact hdismissed.trans ⟨rfl, rfl, id, id, id, Or.inl⟩
    have hstopped : actor.Calm next.stopStreaming := by
      rcases next.stopStreaming_eq with hsame | hidle
      · rwa [hsame]
      · rw [hidle]
        exact hreleased.trans ⟨rfl, rfl, id, id, id, Or.inl⟩
    rcases hnext with hsame | hstop | haccept
    · exact hsame ▸ hreleased
    · exact hstop ▸ hstopped
    · rw [haccept]
      rcases next.stopStreaming.accept_cases req peer outcome with
        hsame | hwrite | hstream
      · rwa [hsame]
      · rw [hwrite]
        exact hstopped.trans (calm_spawnWrite _ _ _ _)
      · rw [hstream]
        exact hstopped.trans ⟨rfl, rfl, id, id, id, Or.inl⟩

theorem calm_handleAbandon (actor : OtaActor) (updateId : String) :
    actor.Calm (actor.handleAbandon updateId) := by
  have hremoved : actor.Calm (actor.removeStaged updateId) := by
    unfold removeStaged
    split
    · exact ⟨rfl, rfl, id, id, id, Or.inl⟩
    · exact Calm.refl actor
  unfold handleAbandon
  simp only
  split
  · split
    · exact hremoved.trans ⟨rfl, rfl, id, id, id, Or.inl⟩
    · exact hremoved
  · exact hremoved

theorem calm_handleActivate (actor : OtaActor) (expected : List String)
    (fails : Nat → Rename → Bool) :
    actor.Calm (actor.handleActivate expected fails).2 := by
  unfold handleActivate
  simp only
  split
  · exact calm_emitError _ _ _
  · split
    · exact calm_emitError _ _ _
    · cases actor.disk.activate fails (commitOrder actor.staged) with
      | error disk =>
          have hdisk : actor.Calm { actor with
              staged := []
              stagedPeer := none
              disk := disk } := ⟨rfl, rfl, id, id, id, Or.inl⟩
          exact hdisk.trans (calm_emitError _ _ _)
      | ok disk =>
          refine ⟨rfl, rfl, id, id, ?_, Or.inl⟩
          intro code msg updateId replayed hin
          rcases List.mem_append.mp hin with hold | hnew
          · exact hold
          · obtain ⟨piece, -, hpiece⟩ := List.mem_map.mp hnew
            contradiction

theorem calm_handleFragment (actor : OtaActor) (outcome : ChunkOutcome) :
    actor.Calm (actor.handleFragment outcome) := by
  unfold handleFragment
  split
  · cases outcome with
    | «continue» => exact Calm.refl actor
    | completed => exact calm_spawnWrite _ _ _ _
    | failed code error =>
        exact (actor.calm_emitError code s!"ota fragment: {error}").trans
          ⟨rfl, rfl, id, id, id, Or.inl⟩
  · exact Calm.refl actor

theorem calm_handleCancel (actor : OtaActor) :
    actor.Calm actor.handleCancel := by
  unfold handleCancel
  split
  · exact Calm.refl actor
  · exact ⟨rfl, rfl, id, id, id, Or.inl⟩
  · split
    · exact ⟨rfl, rfl, id, id, id, Or.inl⟩
    · exact Calm.refl actor

theorem calm_peerLost (actor : OtaActor) : actor.Calm actor.peerLost := by
  unfold peerLost
  split
  · split
    · simp only
      split
      · exact ⟨rfl, rfl, id, id, id, Or.inl⟩
      · exact ⟨rfl, rfl, id, id, id, Or.inl⟩
    · exact Calm.refl actor
  · exact Calm.refl actor

theorem calm_post (actor : OtaActor) {command : Command}
    (h : ∀ failure, command ≠ .holdFailure failure) :
    actor.Calm (actor.post command) := by
  refine ⟨rfl, rfl, ?_, id, id, Or.inl⟩
  intro failure hin
  rcases List.mem_append.mp hin with hold | hnew
  · exact hold
  · exact absurd (List.mem_singleton.mp hnew).symm (h failure)

theorem calm_finish (actor : OtaActor) (outcome : Outcome) :
    actor.Calm (actor.finish outcome) := by
  unfold finish
  cases actor.task with
  | none => exact Calm.refl actor
  | some task =>
      have hcleared : ∀ disk, actor.Calm { actor with
          task := none
          disk := disk } := fun disk => ⟨rfl, rfl, id, id, id, Or.inl⟩
      have hdone : actor.Calm { actor with task := none } :=
        hcleared actor.disk
      simp only
      split
      · exact (hcleared _).trans (calm_post _ fun _ => Command.noConfusion)
      · exact (hcleared _).trans (calm_post _ fun _ => Command.noConfusion)
      · refine (hdone.trans ?_).trans (calm_post _ fun _ => Command.noConfusion)
        refine ⟨rfl, rfl, id, id, ?_, Or.inl⟩
        intro code msg updateId replayed hin
        rcases List.mem_append.mp hin with hold | hnew
        · exact hold
        · exact absurd (List.mem_singleton.mp hnew) (by simp)
      · exact (hdone.trans (calm_emitError _ _ _)).trans
          (calm_post _ fun _ => Command.noConfusion)
      · exact ⟨rfl, rfl, id, id, id, Or.inl⟩

theorem calm_stopStreaming (actor : OtaActor) :
    actor.Calm actor.stopStreaming := by
  rcases actor.stopStreaming_eq with hsame | hidle
  · rw [hsame]
    exact Calm.refl actor
  · rw [hidle]
    exact ⟨rfl, rfl, id, id, id, Or.inl⟩

/-! ### Steps by which failures come about -/

theorem calm_receive_other {actor : OtaActor} {index : Nat}
    (h : ∀ failure, actor.posted[index]? ≠ some (.holdFailure failure)) :
    actor.Calm (actor.receive index) := by
  unfold receive
  cases hget : actor.posted[index]? with
  | none => exact Calm.refl actor
  | some command =>
      have herased : actor.Calm { actor with
          posted := actor.posted.eraseIdx index } :=
        ⟨rfl, rfl, List.mem_of_mem_eraseIdx, id, id, Or.inl⟩
      cases command with
      | holdFailure failure => exact absurd hget (h failure)
      | writeFinished =>
          exact herased.trans ⟨rfl, rfl, id, id, id, Or.inl⟩
      | stageFinished result peer =>
          cases result with
          | ok piece => exact herased.trans ⟨rfl, rfl, id, id, id, Or.inl⟩
          | error error =>
              have hidle : actor.Calm { actor with
                  posted := actor.posted.eraseIdx index
                  state := .idle } :=
                herased.trans ⟨rfl, rfl, id, id, id, Or.inl⟩
              exact hidle.trans (calm_emitError _ _ _)

theorem receive_holdFailure {actor : OtaActor} {index : Nat}
    {failure : UnsentFailure}
    (h : actor.posted[index]? = some (.holdFailure failure)) :
    actor.receive index =
      { actor with
        posted := actor.posted.eraseIdx index
        events := actor.events ++
          [.error ⟨failure.code, failure.msg, some failure.updateId, false⟩]
        unsentFailure := some failure } := by
  simp [receive, h, handleCommand, holdFailure, emit]

theorem failurePeerBack_cases (actor : OtaActor) :
    actor.Calm actor.failurePeerBack ∨ ∃ held,
      actor.unsentFailure = some held ∧
        actor.failurePeerBack =
          { actor with
            failureSeen := actor.snapshot
            events := actor.events ++
              [.error ⟨held.code, held.msg, some held.updateId, true⟩]
            unsentFailure := none } := by
  unfold failurePeerBack
  split
  · rename_i held hheld
    split
    · simp only
      split
      · exact Or.inr ⟨held, hheld, rfl⟩
      · exact Or.inl ⟨rfl, rfl, id, id, id, Or.inl⟩
    · exact Or.inl (Calm.refl actor)
  · exact Or.inl (Calm.refl actor)

/-- A watcher that wakes looks on, or finds its peer gone and reports it. -/
theorem wake_cases (actor : OtaActor) (index : Nat) :
    actor.Calm (actor.wake index) ∨ ∃ watcher,
      actor.watchers[index]? = some watcher ∧
        watcher.seen < actor.snapshot ∧ watcher.peer ∉ actor.linked ∧
        (actor.wake index).posted = actor.posted ++ [.holdFailure
          ⟨watcher.peer, watcher.updateId, .internal, DISCONNECTED⟩] ∧
        (actor.wake index).watchers = actor.watchers.eraseIdx index ∧
        (actor.wake index).events = actor.events ∧
        (actor.wake index).unsentFailure = actor.unsentFailure ∧
        (actor.wake index).linked = actor.linked ∧
        (actor.wake index).snapshot = actor.snapshot := by
  unfold wake
  split
  · rename_i watcher hwatcher
    split
    · rename_i hseen
      split
      · refine Or.inl ⟨rfl, rfl, id, id, id, ?_⟩
        intro other hin
        rcases List.mem_or_eq_of_mem_set hin with hold | rfl
        · exact Or.inl hold
        · exact Or.inr rfl
      · rename_i hgone
        exact Or.inr ⟨watcher, hwatcher, hseen,
          by simpa [companionLinked] using hgone, rfl, rfl, rfl, rfl, rfl, rfl⟩
    · exact Or.inl (Calm.refl actor)
  · exact Or.inl (Calm.refl actor)

end OtaActor

namespace Record

/-- The invariant: besides what was told, what is about to be is true, be it posted
or for a watcher to find out. -/
structure Inv (record : Record) : Prop where
  truthful : record.Truthful
  posted : ∀ {failure}, .holdFailure failure ∈ record.actor.posted →
    (failure.updateId, failure.peer) ∈ record.dropped
  seen : ∀ {watcher}, watcher ∈ record.actor.watchers →
    watcher.seen ≤ record.actor.snapshot
  watching : ∀ {watcher}, watcher ∈ record.actor.watchers →
    watcher.seen < record.actor.snapshot →
    watcher.peer ∉ record.actor.linked →
      (watcher.updateId, watcher.peer) ∈ record.dropped

theorem Inv.calm {record : Record} (h : record.Inv) {next : OtaActor}
    (hcalm : record.actor.Calm next) : Inv ⟨next, record.dropped⟩ := by
  constructor
  · exact ⟨fun hheld => h.truthful.held (hcalm.held hheld),
      fun hin => h.truthful.emitted (hcalm.emitted hin)⟩
  · exact fun hin => h.posted (hcalm.posted hin)
  · intro watcher hin
    show watcher.seen ≤ next.snapshot
    rw [hcalm.snapshot]
    rcases hcalm.watchers hin with hold | hseen
    · exact h.seen hold
    · exact Nat.le_of_eq hseen
  · intro watcher hin hseen hgone
    have hseen : watcher.seen < next.snapshot := hseen
    have hgone : watcher.peer ∉ next.linked := hgone
    rw [hcalm.snapshot] at hseen
    rw [hcalm.linked] at hgone
    rcases hcalm.watchers hin with hold | hsame
    · exact h.watching hold hseen hgone
    · exact absurd hsame (Nat.ne_of_lt hseen)

theorem Inv.receive {record : Record} (h : record.Inv) (index : Nat) :
    Inv ⟨record.actor.receive index, record.dropped⟩ := by
  by_cases hhold : ∃ failure,
      record.actor.posted[index]? = some (.holdFailure failure)
  · obtain ⟨failure, hget⟩ := hhold
    have hdropped := h.posted (List.mem_of_getElem? hget)
    rw [OtaActor.receive_holdFailure hget]
    constructor
    · constructor
      · rintro other ⟨⟩
        exact hdropped
      · intro code msg updateId replayed hin
        rcases List.mem_append.mp hin with hold | hnew
        · exact h.truthful.emitted hold
        · obtain ⟨-, -, rfl, -⟩ := by simpa using hnew
          exact ⟨_, hdropped⟩
    · exact fun hin => h.posted (List.mem_of_mem_eraseIdx hin)
    · exact h.seen
    · exact h.watching
  · exact h.calm (OtaActor.calm_receive_other fun failure hget =>
      hhold ⟨failure, hget⟩)

theorem Inv.failurePeerBack {record : Record} (h : record.Inv) :
    Inv ⟨record.actor.failurePeerBack, record.dropped⟩ := by
  rcases record.actor.failurePeerBack_cases with hcalm | ⟨held, hheld, hnext⟩
  · exact h.calm hcalm
  · rw [hnext]
    constructor
    · constructor
      · exact fun hnone => absurd hnone (by simp)
      · intro code msg updateId replayed hin
        rcases List.mem_append.mp hin with hold | hnew
        · exact h.truthful.emitted hold
        · obtain ⟨-, -, rfl, -⟩ := by simpa using hnew
          exact ⟨_, h.truthful.held hheld⟩
    · exact h.posted
    · exact h.seen
    · exact h.watching

theorem Inv.wake {record : Record} (h : record.Inv) (index : Nat) :
    Inv ⟨record.actor.wake index, record.dropped⟩ := by
  rcases record.actor.wake_cases index with
    hcalm | ⟨watcher, hget, hseen, hgone, hposted, hwatchers, hevents, hheld,
      hlinked, hsnapshot⟩
  · exact h.calm hcalm
  · have hdropped := h.watching (List.mem_of_getElem? hget) hseen hgone
    constructor
    · constructor
      · intro failure hfailure
        exact h.truthful.held (hheld.symm.trans hfailure)
      · intro code msg updateId replayed hin
        exact h.truthful.emitted (hevents ▸ hin)
    · intro failure hin
      have hin : .holdFailure failure ∈ (record.actor.wake index).posted := hin
      rw [hposted] at hin
      rcases List.mem_append.mp hin with hold | hnew
      · exact h.posted hold
      · obtain rfl := Command.holdFailure.inj (List.mem_singleton.mp hnew)
        exact hdropped
    · intro other hin
      have hin : other ∈ (record.actor.wake index).watchers := hin
      rw [hwatchers] at hin
      exact (h.seen (List.mem_of_mem_eraseIdx hin)).trans_eq hsnapshot.symm
    · intro other hin hbehind hother
      have hin : other ∈ (record.actor.wake index).watchers := hin
      rw [hwatchers] at hin
      exact h.watching (List.mem_of_mem_eraseIdx hin)
        (hbehind.trans_eq hsnapshot) (hlinked ▸ hother)

theorem Inv.setLinked {record : Record} (h : record.Inv)
    {linked : List Address} (hfair : record.Fair (.setLinked linked)) :
    (record.step (.setLinked linked)).Inv := by
  have hmore : ∀ {entry}, entry ∈ record.dropped →
      entry ∈ drops record.actor linked ++ record.dropped :=
    fun hin => List.mem_append_right _ hin
  constructor
  · constructor
    · exact fun hheld => hmore (h.truthful.held hheld)
    · intro code msg updateId replayed hin
      obtain ⟨peer, hpeer⟩ := h.truthful.emitted hin
      exact ⟨peer, hmore hpeer⟩
  · exact fun hin => hmore (h.posted hin)
  · exact fun hin => (h.seen hin).trans (Nat.le_succ _)
  · exact fun hin _ hgone => hfair linked rfl _ hin hgone

theorem Inv.step {record : Record} {event : Event} (h : record.Inv)
    (hfair : record.Fair event) : (record.step event).Inv := by
  cases event with
  | «begin» req peer outcome hasTarget =>
      exact h.calm (OtaActor.calm_handleBegin _ _ _ _ _)
  | abandon updateId => exact h.calm (OtaActor.calm_handleAbandon _ _)
  | activate expected fails =>
      exact h.calm (OtaActor.calm_handleActivate _ _ _)
  | cancel => exact h.calm (OtaActor.calm_handleCancel _)
  | receive index => exact h.receive index
  | fragment outcome => exact h.calm (OtaActor.calm_handleFragment _ _)
  | streamEnds => exact h.calm (OtaActor.calm_stopStreaming _)
  | peerLost => exact h.calm (OtaActor.calm_peerLost _)
  | failurePeerBack => exact h.failurePeerBack
  | setLinked linked => exact h.setLinked hfair
  | wake watcher => exact h.wake watcher
  | finish outcome => exact h.calm (OtaActor.calm_finish _ _)

theorem inv_new (linked : List Address) (disk : Disk) :
    (new linked disk).Inv := by
  constructor
  · exact ⟨fun hheld => absurd hheld (by simp [new, OtaActor.spawn]),
      fun hin => absurd hin List.not_mem_nil⟩
  · exact fun hin => absurd hin List.not_mem_nil
  · exact fun hin => absurd hin List.not_mem_nil
  · exact fun hin => absurd hin List.not_mem_nil

/-! ### Runs -/

/-- A watcher wakes, or what was posted is received. -/
def internal : Event → Bool
  | .wake _ | .receive _ => true
  | _ => false

theorem Inv.foldl {record : Record} (h : record.Inv) {more : List Event}
    (hmore : ∀ event ∈ more, internal event = true) :
    (more.foldl Record.step record).Inv := by
  induction more generalizing record with
  | nil => exact h
  | cons event rest ih =>
      refine ih (h.step ?_) fun other hother =>
        hmore other (List.mem_cons_of_mem _ hother)
      rintro linked rfl
      exact absurd (hmore _ List.mem_cons_self) (by simp [internal])

theorem handleCommand_posted (actor : OtaActor) (command : Command) :
    (actor.handleCommand command).posted = actor.posted := by
  cases command with
  | holdFailure failure => rfl
  | writeFinished => rfl
  | stageFinished result peer =>
      cases result with
      | ok piece => rfl
      | error error => rfl

/-- Once all that was posted is received, the failure posted last is held. -/
theorem drain {record : Record} {before : List Command}
    {failure : UnsentFailure}
    (h : record.actor.posted = before ++ [.holdFailure failure]) :
    ((List.replicate (before.length + 1) (Event.receive 0)).foldl step
        record).actor.unsentFailure = some failure ∧
      ((List.replicate (before.length + 1) (Event.receive 0)).foldl step
        record).dropped = record.dropped := by
  induction before generalizing record with
  | nil =>
      have hget : record.actor.posted[0]? = some (.holdFailure failure) := by
        simp [h]
      simp [step, OtaActor.step, OtaActor.receive_holdFailure hget]
  | cons command rest ih =>
      have hnext : (record.step (.receive 0)).actor.posted =
          rest ++ [.holdFailure failure] := by
        simp [step, OtaActor.step, OtaActor.receive, h, handleCommand_posted]
      have hdropped : (record.step (.receive 0)).dropped = record.dropped := rfl
      rw [List.length_cons, List.replicate_succ, List.foldl_cons, ← hdropped]
      exact ih hnext

end Record

end Ota

end Bridgething
