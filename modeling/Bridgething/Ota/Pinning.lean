/-
The peer that the orchestrator is pinned to: who began what is staged, how many
writes there are at a time, and what becomes of a begin from another peer.
-/
import Bridgething.Ota.Abandon

namespace Bridgething

namespace Ota

/-- An update, with the peer that it came from. -/
abbrev Owner := String × Option Address

/-- The update that is streaming or being written. -/
def OtaState.driven : OtaState → Option Owner
  | .idle => none
  | .streaming _ updateId peer _ => some (updateId, peer)
  | .writing _ updateId peer => some (updateId, peer)

def OtaState.written : OtaState → Option Owner
  | .writing _ updateId peer => some (updateId, peer)
  | _ => none

def Task.owner (task : Task) : Owner := (task.updateId, task.peer)

/-- The write that a command tells the end of is over. -/
def Command.completes : Command → Bool
  | .holdFailure _ => false
  | .writeFinished => true
  | .stageFinished _ _ => true

def OtaActor.completions (actor : OtaActor) : List Command :=
  actor.posted.filter Command.completes

/-- The companion of the peer, if it is one, is not linked any more. -/
def OtaActor.Gone (actor : OtaActor) (pinned : Option Address) : Prop :=
  ∀ peer, pinned = some peer → actor.companionLinked peer = false

/-- The orchestrator with the begins that it accepted, the newest first, and the
number of writes whose end it was told. -/
structure Journal where
  actor : OtaActor
  begun : List Owner
  settled : Nat

namespace Journal

def new (linked : List Address) (disk : Disk) : Journal :=
  ⟨.spawn linked disk, [], 0⟩

def accepts (actor : OtaActor) : Event → List Owner
  | .begin req peer outcome hasTarget =>
      match (actor.handleBegin req peer outcome hasTarget).1 with
      | .ok _ => [(req.updateId, peer)]
      | .error _ => []
  | _ => []

def settles (actor : OtaActor) : Event → Nat
  | .receive index =>
      (actor.posted[index]?.filter Command.completes).toList.length
  | _ => 0

def step (journal : Journal) (event : Event) : Journal where
  actor := journal.actor.step event
  begun := accepts journal.actor event ++ journal.begun
  settled := journal.settled + settles journal.actor event

def run (linked : List Address) (disk : Disk) (events : List Event) : Journal :=
  events.foldl step (new linked disk)

end Journal

/-- The peer of the last begin for an update. -/
def begunBy (begun : List Owner) (updateId : String) :
    Option (Option Address) :=
  (begun.find? fun owner => owner.1 = updateId).map Prod.snd

/-- What pinning an orchestrator to a peer is for. -/
structure Pinned (journal : Journal) : Prop where
  staged : ∀ {piece}, piece ∈ journal.actor.staged → ∃ peer,
    journal.actor.pinned = some peer ∧
      begunBy journal.begun piece.updateId = some peer
  single : journal.actor.writes ≤ journal.settled + 1
  refused : ∀ {pinned peer} req outcome hasTarget,
    journal.actor.pinned = some pinned → pinned ≠ peer →
    ¬ (journal.actor.state = .idle ∧ journal.actor.Gone pinned) → ∃ reason,
      journal.actor.handleBegin req peer outcome hasTarget =
        (.error reason, journal.actor.dismissFailure peer)
  discarded : ∀ {pinned peer} req outcome hasTarget,
    journal.actor.pinned = some pinned → pinned ≠ peer →
    journal.actor.state = .idle → journal.actor.Gone pinned →
      journal.actor.handleBegin req peer outcome hasTarget =
          journal.actor.discardStaged.handleBegin req peer outcome hasTarget ∧
        (journal.actor.handleBegin req peer outcome hasTarget).2.staged = []

namespace OtaActor

/-- The completion of a write, as its task posts it. -/
def Ends (owner : Owner) : Command → Prop
  | .holdFailure _ => False
  | .writeFinished => True
  | .stageFinished result peer =>
      peer = owner.2 ∧ ∀ piece, result = .ok piece → piece.updateId = owner.1

/-- While the orchestrator is writing there is one task, or the completion that
it left; else there is neither. -/
inductive Flight (actor : OtaActor) : Prop
  | resting (htask : actor.task.map Task.owner = none)
      (hposted : actor.completions = []) (hstate : actor.state.written = none)
  | working {owner : Owner} (htask : actor.task.map Task.owner = some owner)
      (hposted : actor.completions = [])
      (hstate : actor.state.written = some owner)
  | done {owner : Owner} {command : Command}
      (htask : actor.task.map Task.owner = none)
      (hposted : actor.completions = [command]) (hends : Ends owner command)
      (hstate : actor.state.written = some owner)

/-- A step by which no write starts or is told to be over, and nothing is
staged. -/
structure Quiet (actor next : OtaActor) : Prop where
  state : next.state = actor.state ∨
    next.state = .idle ∧ actor.state.written = none
  staged : ∀ {piece}, piece ∈ next.staged →
    piece ∈ actor.staged ∧ next.stagedPeer = actor.stagedPeer
  task : next.task.map Task.owner = actor.task.map Task.owner
  completions : next.completions = actor.completions
  writes : next.writes = actor.writes

theorem Quiet.refl (actor : OtaActor) : actor.Quiet actor :=
  ⟨Or.inl rfl, fun hin => ⟨hin, rfl⟩, rfl, rfl, rfl⟩

theorem Quiet.trans {actor mid next : OtaActor} (hfirst : actor.Quiet mid)
    (hrest : mid.Quiet next) : actor.Quiet next := by
  constructor
  · rcases hrest.state with hsame | ⟨hidle, hwritten⟩
    · rw [hsame]
      exact hfirst.state
    · refine Or.inr ⟨hidle, ?_⟩
      rcases hfirst.state with hsame | ⟨-, hnone⟩
      · exact hsame ▸ hwritten
      · exact hnone
  · intro piece hin
    obtain ⟨hmid, hpeer⟩ := hrest.staged hin
    obtain ⟨hold, hsame⟩ := hfirst.staged hmid
    exact ⟨hold, hpeer.trans hsame⟩
  · exact hrest.task.trans hfirst.task
  · exact hrest.completions.trans hfirst.completions
  · exact hrest.writes.trans hfirst.writes

/-- Nothing but the state changes, which becomes idle. -/
theorem quiet_idle {actor : OtaActor} (h : actor.state.written = none) :
    actor.Quiet { actor with state := .idle } :=
  ⟨Or.inr ⟨rfl, h⟩, fun hin => ⟨hin, rfl⟩, rfl, rfl, rfl⟩

theorem quiet_discardStaged (actor : OtaActor) :
    actor.Quiet actor.discardStaged :=
  ⟨Or.inl rfl, fun hin => absurd hin List.not_mem_nil, rfl, rfl, rfl⟩

theorem quiet_dismissFailure (actor : OtaActor) (peer : Option Address) :
    actor.Quiet (actor.dismissFailure peer) := by
  rcases actor.dismissFailure_eq peer with hsame | hcleared
  · rw [hsame]
    exact Quiet.refl actor
  · rw [hcleared]
    exact ⟨Or.inl rfl, fun hin => ⟨hin, rfl⟩, rfl, rfl, rfl⟩

theorem quiet_release {actor next : OtaActor} {peer : Option Address}
    (h : actor.release peer = some next) : actor.Quiet next := by
  rcases release_cases h with rfl | rfl
  · exact Quiet.refl _
  · exact quiet_discardStaged actor

theorem quiet_stopStreaming (actor : OtaActor) :
    actor.Quiet actor.stopStreaming := by
  cases hstate : actor.state with
  | idle =>
      simp only [stopStreaming, hstate]
      exact Quiet.refl actor
  | streaming kind updateId peer patch =>
      simp only [stopStreaming, hstate]
      exact quiet_idle (by rw [hstate]; rfl)
  | writing kind updateId peer =>
      simp only [stopStreaming, hstate]
      exact Quiet.refl actor

theorem stopStreaming_state {actor : OtaActor}
    (h : actor.state.written = none) : actor.stopStreaming.state = .idle := by
  cases hstate : actor.state with
  | idle => simp only [stopStreaming, hstate]
  | streaming kind updateId peer patch => simp only [stopStreaming, hstate]
  | writing kind updateId peer =>
      rw [hstate] at h
      contradiction

theorem quiet_emit {actor next : OtaActor} (h : actor.Quiet next)
    (event : OtaEvent) : actor.Quiet (next.emit event) :=
  ⟨h.state, h.staged, h.task, h.completions, h.writes⟩

theorem quiet_removeStaged (actor : OtaActor) (updateId : String) :
    actor.Quiet (actor.removeStaged updateId) := by
  simp only [removeStaged]
  split
  · refine ⟨Or.inl rfl, fun hin => ⟨List.mem_of_mem_eraseP hin, ?_⟩, rfl, rfl,
      rfl⟩
    exact if_neg (List.ne_nil_of_mem hin)
  · exact Quiet.refl actor

theorem written_of_streaming {state : OtaState} {kind : OtaKind}
    {updateId : String} {peer : Option Address} {patch : Option String}
    (h : state = .streaming kind updateId peer patch) : state.written = none :=
  h ▸ rfl

theorem quiet_handleAbandon (actor : OtaActor) (updateId : String) :
    actor.Quiet (actor.handleAbandon updateId) := by
  have hremoved := actor.quiet_removeStaged updateId
  simp only [handleAbandon]
  split
  · next hstreaming =>
      split
      · exact hremoved.trans (quiet_idle (written_of_streaming hstreaming))
      · exact hremoved
  · exact hremoved

theorem quiet_handleActivate (actor : OtaActor) (expected : List String)
    (fails : Nat → Rename → Bool) :
    actor.Quiet (actor.handleActivate expected fails).2 := by
  have hgone : ∀ {piece : StagedPiece} {P : Prop}, piece ∈ [] → P :=
    fun hin => absurd hin List.not_mem_nil
  simp only [handleActivate]
  split
  · exact quiet_emit (Quiet.refl actor) _
  · split
    · exact quiet_emit (Quiet.refl actor) _
    · cases actor.disk.activate fails (commitOrder actor.staged) with
      | error disk => exact ⟨Or.inl rfl, hgone, rfl, rfl, rfl⟩
      | ok disk => exact ⟨Or.inl rfl, hgone, rfl, rfl, rfl⟩

/-- A task that is told to stop is the same task. -/
theorem quiet_cancel {actor next : OtaActor} (h : actor.Quiet next)
    (write : Task → Bool) :
    actor.Quiet { next with
      task := next.task.map fun task =>
        if write task then { task with cancel := true } else task } := by
  refine ⟨h.state, h.staged, ?_, h.completions, h.writes⟩
  rw [← h.task, Option.map_map]
  congr 1
  funext task
  simp only [Function.comp]
  split <;> rfl

theorem quiet_handleCancel (actor : OtaActor) :
    actor.Quiet actor.handleCancel := by
  simp only [handleCancel]
  split
  · exact Quiet.refl actor
  · next hstreaming => exact quiet_idle (written_of_streaming hstreaming)
  · split
    · exact quiet_cancel (Quiet.refl actor) fun _ => true
    · exact Quiet.refl actor

theorem quiet_peerLost (actor : OtaActor) : actor.Quiet actor.peerLost := by
  simp only [peerLost]
  split
  · next hstreaming =>
      have hseen : actor.Quiet { actor with peerSeen := actor.snapshot } :=
        ⟨Or.inl rfl, fun hin => ⟨hin, rfl⟩, rfl, rfl, rfl⟩
      split
      · split
        · exact hseen
        · exact hseen.trans (quiet_idle (written_of_streaming hstreaming))
      · exact Quiet.refl actor
  · exact Quiet.refl actor

theorem quiet_failurePeerBack (actor : OtaActor) :
    actor.Quiet actor.failurePeerBack := by
  simp only [failurePeerBack]
  split
  · split
    · split <;> exact ⟨Or.inl rfl, fun hin => ⟨hin, rfl⟩, rfl, rfl, rfl⟩
    · exact Quiet.refl actor
  · exact Quiet.refl actor

/-- A report of a watcher is no completion. -/
theorem quiet_holdFailure (actor : OtaActor) (failure : UnsentFailure) :
    actor.Quiet (actor.post (.holdFailure failure)) := by
  refine ⟨Or.inl rfl, fun hin => ⟨hin, rfl⟩, rfl, ?_, rfl⟩
  simp [completions, post, Command.completes]

theorem quiet_wake (actor : OtaActor) (index : Nat) :
    actor.Quiet (actor.wake index) := by
  simp only [wake]
  split
  · next watcher _ =>
      split
      · split
        · exact ⟨Or.inl rfl, fun hin => ⟨hin, rfl⟩, rfl, rfl, rfl⟩
        · have hposted := actor.quiet_holdFailure
            ⟨watcher.peer, watcher.updateId, .internal, DISCONNECTED⟩
          have hcancelled := quiet_cancel hposted fun task =>
            task.write = watcher.write
          simp only [decide_eq_true_eq] at hcancelled
          exact ⟨hcancelled.state, hcancelled.staged, hcancelled.task,
            hcancelled.completions, hcancelled.writes⟩
      · exact Quiet.refl actor
  · exact Quiet.refl actor

/-! ### Begins -/

theorem accept_error {actor : OtaActor} {req : OtaBegin}
    {peer : Option Address} {outcome : BeginOutcome} {reason : String}
    (h : (actor.accept req peer outcome).1 = .error reason) :
    (actor.accept req peer outcome).2 = actor := by
  simp only [accept] at h ⊢
  split at h
  · contradiction
  · next hnew =>
      rw [if_neg hnew]
      cases outcome with
      | alreadyComplete => contradiction
      | resume offset => contradiction
      | failed error => rfl

/-- A begin that is refused starts nothing; one that is accepted finds no write
in progress, and a peer that the orchestrator is not pinned against. -/
theorem handleBegin_spec (actor : OtaActor) (req : OtaBegin)
    (peer : Option Address) (outcome : BeginOutcome) (hasTarget : Bool) :
    (∃ reason, (actor.handleBegin req peer outcome hasTarget).1 =
        .error reason ∧
      actor.Quiet (actor.handleBegin req peer outcome hasTarget).2) ∨
    ∃ size released, actor.state.written = none ∧
      (actor.dismissFailure peer).release peer = some released ∧
      (actor.handleBegin req peer outcome hasTarget).1 = .ok size ∧
      (actor.handleBegin req peer outcome hasTarget).2 =
        (released.stopStreaming.accept req peer outcome).2 := by
  have hdismissed := actor.quiet_dismissFailure peer
  have hstate : (actor.dismissFailure peer).state = actor.state := by
    rcases actor.dismissFailure_eq peer with hsame | hcleared
    · rw [hsame]
    · rw [hcleared]
  simp only [handleBegin]
  split
  · exact Or.inl ⟨_, rfl, hdismissed⟩
  · next hother =>
      have hwritten : actor.state.written = none := by
        rw [← hstate]
        cases hcase : (actor.dismissFailure peer).state with
        | idle => rfl
        | streaming kind updateId peer patch => rfl
        | writing kind updateId peer => exact absurd hcase (hother _ _ _)
      cases hrelease : (actor.dismissFailure peer).release peer with
      | none => exact Or.inl ⟨_, rfl, hdismissed⟩
      | some released =>
          have hreleased := hdismissed.trans (quiet_release hrelease)
          have hstopped := hreleased.trans released.quiet_stopStreaming
          simp only [beginReleased]
          split
          · exact Or.inl ⟨_, rfl, hreleased⟩
          · cases objection req hasTarget with
            | some reason => exact Or.inl ⟨_, rfl, hstopped⟩
            | none =>
                cases hanswer :
                    (released.stopStreaming.accept req peer outcome).1 with
                | ok size =>
                    exact Or.inr ⟨size, released, hwritten, rfl, rfl, rfl⟩
                | error reason =>
                    refine Or.inl ⟨reason, rfl, ?_⟩
                    rwa [accept_error hanswer]

/-! ### Writes -/

/-- What starting a write leaves for those who follow its end. -/
theorem spawnWrite_started (actor : OtaActor) (kind : OtaKind)
    (updateId : String) (peer : Option Address) :
    (actor.spawnWrite kind updateId peer).stagedPeer = actor.stagedPeer ∧
      (actor.spawnWrite kind updateId peer).writes = actor.writes + 1 := by
  simp only [spawnWrite]
  split <;> exact ⟨rfl, rfl⟩

/-- A task posts the completion of its own write. -/
theorem finish_ends (actor : OtaActor) (outcome : Outcome) :
    actor.finish outcome = actor ∨ ∃ task command,
      actor.task = some task ∧ Ends task.owner command ∧
        (actor.finish outcome).state = actor.state ∧
        (actor.finish outcome).staged = actor.staged ∧
        (actor.finish outcome).stagedPeer = actor.stagedPeer ∧
        (actor.finish outcome).task = none ∧
        (actor.finish outcome).writes = actor.writes ∧
        (actor.finish outcome).posted = actor.posted ++ [command] := by
  cases htask : actor.task with
  | none => exact Or.inl (by simp only [finish, htask])
  | some task =>
      simp only [finish, htask]
      split
      · refine Or.inr ⟨task, _, rfl, ?_, rfl, rfl, rfl, rfl, rfl, rfl⟩
        exact ⟨rfl, fun piece hpiece => Except.ok.inj hpiece ▸ rfl⟩
      · refine Or.inr ⟨task, _, rfl, ?_, rfl, rfl, rfl, rfl, rfl, rfl⟩
        exact ⟨rfl, fun piece hpiece => nomatch hpiece⟩
      · refine Or.inr ⟨task, .writeFinished, rfl, trivial, ?_⟩
        exact ⟨rfl, rfl, rfl, rfl, rfl, rfl⟩
      · refine Or.inr ⟨task, .writeFinished, rfl, trivial, ?_⟩
        exact ⟨rfl, rfl, rfl, rfl, rfl, rfl⟩
      · exact Or.inl (by rw [← htask])

theorem completes_of_ends {owner : Owner} {command : Command}
    (h : Ends owner command) : command.completes = true := by
  cases command with
  | holdFailure failure => contradiction
  | writeFinished => rfl
  | stageFinished result peer => rfl

theorem split_at {α : Type} {items : List α} {index : Nat} {item : α}
    (h : items[index]? = some item) : ∃ before after,
      items = before ++ item :: after ∧
        items.eraseIdx index = before ++ after := by
  obtain ⟨hlt, rfl⟩ := List.getElem?_eq_some_iff.mp h
  refine ⟨items.take index, items.drop (index + 1), ?_,
    List.eraseIdx_eq_take_drop_succ items index⟩
  rw [← List.drop_eq_getElem_cons hlt, List.take_append_drop]

/-- Where a command is on its way that completes a write, it is the one that the
write left. -/
theorem Flight.received {actor : OtaActor} (h : actor.Flight) {index : Nat}
    {command : Command} (hget : actor.posted[index]? = some command)
    (hcompletes : command.completes = true) : ∃ owner,
      actor.task.map Task.owner = none ∧ Ends owner command ∧
        actor.state.written = some owner ∧
        (actor.posted.eraseIdx index).filter Command.completes = [] := by
  have hin : command ∈ actor.completions :=
    List.mem_filter.mpr ⟨List.mem_of_getElem? hget, hcompletes⟩
  cases h with
  | resting htask hposted hstate =>
      rw [hposted] at hin
      contradiction
  | working htask hposted hstate =>
      rw [hposted] at hin
      contradiction
  | done htask hposted hends hstate =>
      rename_i owner only
      rw [hposted, List.mem_singleton] at hin
      subst hin
      refine ⟨owner, htask, hends, hstate, ?_⟩
      obtain ⟨before, after, hsplit, herase⟩ := split_at hget
      rw [completions, hsplit, List.filter_append,
        List.filter_cons_of_pos hcompletes] at hposted
      rw [herase, List.filter_append]
      rcases List.append_eq_singleton_iff.mp hposted with
        ⟨hbefore, hrest⟩ | ⟨-, hnone⟩
      · rw [hbefore, (List.cons.inj hrest).2, List.append_nil]
      · contradiction

theorem driven_of_written {state : OtaState} {owner : Owner}
    (h : state.written = some owner) : state.driven = some owner := by
  cases state with
  | idle => contradiction
  | streaming kind updateId peer patch => contradiction
  | writing kind updateId peer => exact h

theorem pinnedPeer_eq (state : OtaState) :
    state.pinnedPeer = state.driven.map Prod.snd := by
  cases state <;> rfl

/-- A peer that the orchestrator is taken over by is the one that the batch it
keeps came from. -/
theorem release_peer {actor next : OtaActor} {peer : Option Address}
    (hagree : actor.staged ≠ [] → ∀ owner, actor.state.driven = some owner →
      owner.2 = actor.stagedPeer)
    (h : actor.release peer = some next) (hstaged : next.staged ≠ []) :
    next.stagedPeer = peer := by
  simp only [release] at h
  split at h
  · next held hpinned =>
      split at h
      · split at h
        · rw [← Option.some.inj h] at hstaged
          exact absurd rfl hstaged
        · contradiction
      · next hsame =>
          rw [← Option.some.inj h] at hstaged ⊢
          rw [← not_not.mp hsame]
          simp only [pinned, pinnedPeer_eq] at hpinned
          cases hdriven : actor.state.driven with
          | none =>
              simp only [hdriven, Option.map_none, if_pos hstaged] at hpinned
              exact Option.some.inj hpinned
          | some owner =>
              simp only [hdriven, Option.map_some] at hpinned
              rw [← Option.some.inj hpinned]
              exact (hagree hstaged owner hdriven).symm
  · next hnone =>
      simp only [pinned, pinnedPeer_eq] at hnone
      cases hdriven : actor.state.driven with
      | none =>
          rw [← Option.some.inj h] at hstaged
          simp [hdriven, hstaged] at hnone
      | some owner => simp [hdriven] at hnone

end OtaActor

namespace Journal

/-- What holds of every orchestrator and its journal. -/
structure Inv (journal : Journal) : Prop where
  flight : journal.actor.Flight
  count : journal.actor.writes =
    journal.settled + journal.actor.state.written.toList.length
  driven : ∀ {owner}, journal.actor.state.driven = some owner →
    begunBy journal.begun owner.1 = some owner.2
  staged : ∀ {piece}, piece ∈ journal.actor.staged →
    begunBy journal.begun piece.updateId = some journal.actor.stagedPeer
  agree : journal.actor.staged ≠ [] → ∀ owner,
    journal.actor.state.driven = some owner →
      owner.2 = journal.actor.stagedPeer

theorem inv_new (linked : List Address) (disk : Disk) :
    (new linked disk).Inv := by
  constructor
  · exact .resting rfl rfl rfl
  · rfl
  · exact fun h => nomatch h
  · exact fun h => absurd h List.not_mem_nil
  · exact fun _ _ h => nomatch h

theorem Inv.quiet {journal : Journal} (h : journal.Inv) {next : OtaActor}
    (hquiet : journal.actor.Quiet next) :
    ({ journal with actor := next } : Journal).Inv := by
  have hwritten : next.state.written = journal.actor.state.written := by
    rcases hquiet.state with hsame | ⟨hidle, hnone⟩
    · rw [hsame]
    · rw [hidle, hnone]
      rfl
  have hdriven : ∀ {owner}, next.state.driven = some owner →
      journal.actor.state.driven = some owner := by
    intro owner howner
    rcases hquiet.state with hsame | ⟨hidle, -⟩
    · exact hsame ▸ howner
    · rw [hidle] at howner
      contradiction
  constructor
  · cases h.flight with
    | resting htask hposted hstate =>
        exact .resting (hquiet.task.trans htask)
          (hquiet.completions.trans hposted) (hwritten.trans hstate)
    | working htask hposted hstate =>
        exact .working (hquiet.task.trans htask)
          (hquiet.completions.trans hposted) (hwritten.trans hstate)
    | done htask hposted hends hstate =>
        exact .done (hquiet.task.trans htask)
          (hquiet.completions.trans hposted) hends (hwritten.trans hstate)
  · rw [hwritten, hquiet.writes]
    exact h.count
  · exact fun howner => h.driven (hdriven howner)
  · intro piece hin
    obtain ⟨hold, hpeer⟩ := hquiet.staged hin
    rw [hpeer]
    exact h.staged hold
  · intro hsome owner howner
    obtain ⟨piece, hin⟩ := List.exists_mem_of_ne_nil _ hsome
    obtain ⟨hold, hpeer⟩ := hquiet.staged hin
    rw [hpeer]
    exact h.agree (List.ne_nil_of_mem hold) owner (hdriven howner)

/-- An idle orchestrator accepts a begin of the peer whose batch it holds, if
any. -/
theorem Inv.begins {journal : Journal} (h : journal.Inv)
    (hidle : journal.actor.state = .idle) (updateId : String)
    {peer : Option Address}
    (hpeer : journal.actor.staged ≠ [] → journal.actor.stagedPeer = peer) :
    ({ journal with begun := (updateId, peer) :: journal.begun } :
      Journal).Inv := by
  constructor
  · exact h.flight
  · exact h.count
  · intro owner howner
    rw [hidle] at howner
    contradiction
  · intro piece hin
    simp only [begunBy, List.find?_cons]
    split
    · exact congrArg some (hpeer (List.ne_nil_of_mem hin)).symm
    · exact h.staged hin
  · exact h.agree

theorem Inv.streams {journal : Journal} (h : journal.Inv)
    (hidle : journal.actor.state = .idle) {kind : OtaKind} {updateId : String}
    {peer : Option Address} {patch : Option String}
    (hpeer : journal.actor.staged ≠ [] → journal.actor.stagedPeer = peer)
    (hbegun : begunBy journal.begun updateId = some peer) :
    ({ journal with
      actor.state := .streaming kind updateId peer patch } : Journal).Inv := by
  have hwritten : journal.actor.state.written = none := by
    rw [hidle]
    rfl
  have hcount := h.count
  constructor
  · cases h.flight with
    | resting htask hposted _ => exact .resting htask hposted rfl
    | working _ _ hstate => simp [hwritten] at hstate
    | done _ _ _ hstate => simp [hwritten] at hstate
  · rwa [hwritten] at hcount
  · intro owner howner
    rw [← Option.some.inj howner]
    exact hbegun
  · exact h.staged
  · intro hsome owner howner
    rw [← Option.some.inj howner]
    exact (hpeer hsome).symm

/-- A write starts where none is in progress. -/
theorem Inv.writes {journal : Journal} (h : journal.Inv)
    (hresting : journal.actor.state.written = none) {kind : OtaKind}
    {updateId : String} {peer : Option Address}
    (hpeer : journal.actor.staged ≠ [] → journal.actor.stagedPeer = peer)
    (hbegun : begunBy journal.begun updateId = some peer) :
    ({ journal with actor := journal.actor.spawnWrite kind updateId peer } :
      Journal).Inv := by
  obtain ⟨hstate, hstaged, hposted, -, -, htask⟩ :=
    journal.actor.spawnWrite_frame kind updateId peer
  obtain ⟨hstagedPeer, hwrites⟩ :=
    journal.actor.spawnWrite_started kind updateId peer
  have hcount := h.count
  rw [hresting] at hcount
  constructor
  · have hnone : journal.actor.completions = [] := by
      cases h.flight with
      | resting _ hposted _ => exact hposted
      | working _ hposted _ => exact hposted
      | done _ _ _ hstate => simp [hresting] at hstate
    have howner : (journal.actor.spawnWrite kind updateId peer).task.map
        Task.owner = some (updateId, peer) := by
      rw [htask]
      rfl
    refine .working howner ?_ ?_
    · rw [OtaActor.completions, hposted]
      exact hnone
    · rw [hstate]
      rfl
  · rw [hwrites, hstate, hcount]
    rfl
  · intro owner howner
    rw [hstate] at howner
    rw [← Option.some.inj howner]
    exact hbegun
  · intro piece hin
    rw [hstagedPeer]
    exact h.staged (hstaged ▸ hin)
  · intro hsome owner howner
    rw [hstate] at howner
    rw [hstagedPeer, ← Option.some.inj howner]
    exact (hpeer (hstaged ▸ hsome)).symm

theorem Inv.finish {journal : Journal} (h : journal.Inv) (outcome : Outcome) :
    ({ journal with actor := journal.actor.finish outcome } : Journal).Inv := by
  rcases journal.actor.finish_ends outcome with hsame |
    ⟨task, command, htask, hends, hstate, hstaged, hpeer, hnone, hwrites,
      hposted⟩
  · rwa [hsame]
  · have hflight : journal.actor.completions = [] ∧
        journal.actor.state.written = some task.owner := by
      cases h.flight with
      | resting htask' _ _ => simp [htask] at htask'
      | working htask' hposted hstate =>
          rw [htask] at htask'
          exact ⟨hposted, Option.some.inj htask' ▸ hstate⟩
      | done htask' _ _ _ => simp [htask] at htask'
    constructor
    · refine .done ?_ ?_ hends ?_
      · rw [hnone]
        rfl
      · rw [OtaActor.completions, hposted, List.filter_append,
          List.filter_cons_of_pos (OtaActor.completes_of_ends hends)]
        exact congrArg (· ++ [command]) hflight.1
      · rw [hstate]
        exact hflight.2
    · rw [hwrites, hstate]
      exact h.count
    · rw [hstate]
      exact h.driven
    · rw [hstaged, hpeer]
      exact h.staged
    · rw [hstaged, hstate, hpeer]
      exact h.agree

/-- The orchestrator is told that the write it waits for is over. -/
theorem Inv.over {journal : Journal} (h : journal.Inv) {next : OtaActor}
    (hwritten : journal.actor.state.written.isSome = true)
    (hidle : next.state = .idle) (htask : next.task.map Task.owner = none)
    (hposted : next.completions = [])
    (hwrites : next.writes = journal.actor.writes)
    (hstaged : ∀ {piece}, piece ∈ next.staged →
      begunBy journal.begun piece.updateId = some next.stagedPeer) :
    (Journal.mk next journal.begun (journal.settled + 1)).Inv := by
  obtain ⟨owner, howner⟩ := Option.isSome_iff_exists.mp hwritten
  have hcount := h.count
  rw [howner] at hcount
  constructor
  · refine .resting htask hposted ?_
    rw [hidle]
    rfl
  · rw [hwrites, hidle, hcount]
    rfl
  · intro other hother
    rw [hidle] at hother
    contradiction
  · exact hstaged
  · intro _ other hother
    rw [hidle] at hother
    contradiction

/-- A piece whose stage is over joins the batch of the peer it came from. -/
theorem Inv.joins {journal : Journal} (h : journal.Inv)
    {piece : StagedPiece} {peer : Option Address}
    (hdriven : journal.actor.state.driven = some (piece.updateId, peer))
    {held : StagedPiece}
    (hin : held ∈ (journal.actor.staged.filter fun held =>
      held.updateId ≠ piece.updateId) ++ [piece]) :
    begunBy journal.begun held.updateId = some peer := by
  rcases List.mem_append.mp hin with hold | hnew
  · have hmem := List.mem_of_mem_filter hold
    rw [h.staged hmem]
    exact congrArg some (h.agree (List.ne_nil_of_mem hmem) _ hdriven).symm
  · rw [List.mem_singleton.mp hnew]
    exact h.driven hdriven

theorem Inv.completes {journal : Journal} (h : journal.Inv) {index : Nat}
    {command : Command} (hget : journal.actor.posted[index]? = some command)
    (hcompletes : command.completes = true) :
    (journal.step (.receive index)).Inv := by
  obtain ⟨owner, htask, hends, hwritten, hposted⟩ :=
    h.flight.received hget hcompletes
  have hsome : journal.actor.state.written.isSome = true := by
    rw [hwritten]
    rfl
  have hsame : ∀ {piece}, piece ∈ journal.actor.staged →
      begunBy journal.begun piece.updateId = some journal.actor.stagedPeer :=
    h.staged
  have hsettles : settles journal.actor (.receive index) = 1 := by
    simp [settles, hget, hcompletes]
  simp only [step, accepts, List.nil_append, hsettles, OtaActor.step,
    OtaActor.receive, hget]
  cases command with
  | holdFailure failure => contradiction
  | writeFinished => exact h.over hsome rfl htask hposted rfl hsame
  | stageFinished result peer =>
      cases result with
      | error error => exact h.over hsome rfl htask hposted rfl hsame
      | ok piece =>
          obtain ⟨hpeer, hid⟩ := hends
          have howner : owner = (piece.updateId, peer) :=
            Prod.ext (hid piece rfl).symm hpeer.symm
          have hdriven := OtaActor.driven_of_written hwritten
          rw [howner] at hdriven
          exact h.over hsome rfl htask hposted rfl fun hin =>
            h.joins hdriven hin

theorem Inv.receive {journal : Journal} (h : journal.Inv) (index : Nat) :
    (journal.step (.receive index)).Inv := by
  cases hget : journal.actor.posted[index]? with
  | none =>
      simp only [step, accepts, settles, hget, OtaActor.step, OtaActor.receive]
      exact h
  | some command =>
      cases hcompletes : command.completes with
      | true => exact h.completes hget hcompletes
      | false =>
          have hnone : settles journal.actor (.receive index) = 0 := by
            simp [settles, hget, hcompletes]
          simp only [step, accepts, List.nil_append, hnone]
          refine h.quiet ?_
          cases command with
          | writeFinished => contradiction
          | stageFinished result peer => contradiction
          | holdFailure failure =>
              simp only [OtaActor.step, OtaActor.receive, hget]
              refine ⟨Or.inl rfl, fun hin => ⟨hin, rfl⟩, rfl, ?_, rfl⟩
              obtain ⟨before, after, hsplit, herase⟩ := OtaActor.split_at hget
              show (journal.actor.posted.eraseIdx index).filter _ = _
              rw [OtaActor.completions, herase, hsplit, List.filter_append,
                List.filter_append,
                List.filter_cons_of_neg (by simp [hcompletes])]

theorem Inv.handleBegin {journal : Journal} (h : journal.Inv) (req : OtaBegin)
    (peer : Option Address) (outcome : BeginOutcome) (hasTarget : Bool) :
    (journal.step (.begin req peer outcome hasTarget)).Inv := by
  simp only [step, settles, Nat.add_zero, accepts, OtaActor.step]
  rcases journal.actor.handleBegin_spec req peer outcome hasTarget with
    ⟨reason, hanswer, hquiet⟩ |
    ⟨size, released, hwritten, hrelease, hanswer, hnext⟩
  · rw [hanswer]
    exact h.quiet hquiet
  · rw [hanswer, hnext]
    have hdismissed := journal.actor.quiet_dismissFailure peer
    have hreleased := hdismissed.trans (OtaActor.quiet_release hrelease)
    have hstopped := hreleased.trans released.quiet_stopStreaming
    have hpeer : released.stopStreaming.staged ≠ [] →
        released.stopStreaming.stagedPeer = peer := by
      intro hsome
      obtain ⟨piece, hin⟩ := List.exists_mem_of_ne_nil _ hsome
      obtain ⟨hkept, hsame⟩ := released.quiet_stopStreaming.staged hin
      rw [hsame]
      exact OtaActor.release_peer (h.quiet hdismissed).agree hrelease
        (List.ne_nil_of_mem hkept)
    have hidle : released.stopStreaming.state = .idle := by
      refine OtaActor.stopStreaming_state ?_
      rcases hreleased.state with hsame | ⟨hidle, -⟩
      · rw [hsame]
        exact hwritten
      · rw [hidle]
        rfl
    have hbegins := (h.quiet hstopped).begins hidle req.updateId hpeer
    have hlast : begunBy ((req.updateId, peer) :: journal.begun) req.updateId =
        some peer := by
      simp [begunBy]
    rcases released.stopStreaming.accept_cases req peer outcome with
      hsame | hwrite | hstream
    · rw [hsame]
      exact hbegins
    · rw [hwrite]
      refine hbegins.writes ?_ hpeer hlast
      rw [hidle]
      rfl
    · rw [hstream]
      exact hbegins.streams hidle hpeer hlast

theorem Inv.handleFragment {journal : Journal} (h : journal.Inv)
    (outcome : ChunkOutcome) :
    ({ journal with actor := journal.actor.handleFragment outcome } :
      Journal).Inv := by
  simp only [OtaActor.handleFragment]
  split
  · next kind updateId peer patch hstreaming =>
      have hwritten := OtaActor.written_of_streaming hstreaming
      have hdriven : journal.actor.state.driven = some (updateId, peer) := by
        rw [hstreaming]
        rfl
      cases outcome with
      | «continue» => exact h
      | completed =>
          exact h.writes hwritten
            (fun hsome => (h.agree hsome _ hdriven).symm) (h.driven hdriven)
      | failed code error =>
          exact h.quiet ((OtaActor.quiet_idle hwritten).trans
            ⟨Or.inl rfl, fun hin => ⟨hin, rfl⟩, rfl, rfl, rfl⟩)
  · exact h

theorem Inv.step {journal : Journal} (h : journal.Inv) (event : Event) :
    (journal.step event).Inv := by
  have hquiet : ∀ {next}, journal.actor.Quiet next →
      ({ journal with actor := next } : Journal).Inv := h.quiet
  cases event with
  | «begin» req peer outcome hasTarget =>
      exact h.handleBegin req peer outcome hasTarget
  | abandon updateId =>
      exact hquiet (journal.actor.quiet_handleAbandon updateId)
  | activate expected fails =>
      exact hquiet (journal.actor.quiet_handleActivate expected fails)
  | cancel => exact hquiet journal.actor.quiet_handleCancel
  | receive index => exact h.receive index
  | fragment outcome => exact h.handleFragment outcome
  | streamEnds => exact hquiet journal.actor.quiet_stopStreaming
  | peerLost => exact hquiet journal.actor.quiet_peerLost
  | failurePeerBack => exact hquiet journal.actor.quiet_failurePeerBack
  | setLinked linked =>
      exact hquiet ⟨Or.inl rfl, fun hin => ⟨hin, rfl⟩, rfl, rfl, rfl⟩
  | wake watcher => exact hquiet (journal.actor.quiet_wake watcher)
  | finish outcome => exact h.finish outcome

theorem inv_run (linked : List Address) (disk : Disk) (events : List Event) :
    (run linked disk events).Inv := by
  have hkeep : ∀ {journal : Journal}, journal.Inv →
      (events.foldl Journal.step journal).Inv := by
    intro journal h
    induction events generalizing journal with
    | nil => exact h
    | cons event rest ih => exact ih (h.step event)
  exact hkeep (inv_new linked disk)

end Journal

/-! ### Begins of other peers -/

namespace OtaActor

theorem pinned_of_staged {actor : OtaActor} (hsome : actor.staged ≠ [])
    (hagree : ∀ owner, actor.state.driven = some owner →
      owner.2 = actor.stagedPeer) : actor.pinned = some actor.stagedPeer := by
  simp only [pinned, pinnedPeer_eq]
  cases hdriven : actor.state.driven with
  | none => exact if_pos hsome
  | some owner => exact congrArg some (hagree owner hdriven)

/-- The failure that a begin dismisses has no part in whom the orchestrator is
pinned to. -/
theorem dismissFailure_frame (actor : OtaActor) (peer : Option Address) :
    (actor.dismissFailure peer).state = actor.state ∧
      (actor.dismissFailure peer).pinned = actor.pinned ∧
      (∀ pinned, (actor.dismissFailure peer).orphaned pinned =
        actor.orphaned pinned) ∧
      (actor.dismissFailure peer).discardStaged =
        actor.discardStaged.dismissFailure peer := by
  simp only [dismissFailure, discardStaged]
  split
  · split <;> exact ⟨rfl, rfl, fun _ => rfl, rfl⟩
  · exact ⟨rfl, rfl, fun _ => rfl, rfl⟩

theorem orphaned_iff {actor : OtaActor} {pinned : Option Address}
    (h : actor.pinned = some pinned) :
    actor.orphaned pinned = true ↔
      actor.state = .idle ∧ actor.Gone pinned := by
  have hgone : (pinned.all fun peer => !actor.companionLinked peer) = true ↔
      actor.Gone pinned := by
    cases pinned <;> simp [Gone]
  cases hstate : actor.state with
  | idle =>
      have hsome : actor.staged ≠ [] := by
        intro hnone
        simp [OtaActor.pinned, hstate, hnone, OtaState.pinnedPeer] at h
      simp [orphaned, hstate, hsome, OtaState.pinnedPeer, hgone]
  | streaming kind updateId peer patch =>
      simp [orphaned, hstate, OtaState.pinnedPeer]
  | writing kind updateId peer =>
      simp [orphaned, hstate, OtaState.pinnedPeer]

theorem handleBegin_refused {actor : OtaActor} {pinned peer : Option Address}
    (req : OtaBegin) (outcome : BeginOutcome) (hasTarget : Bool)
    (hpinned : actor.pinned = some pinned) (hother : pinned ≠ peer)
    (hheld : ¬ (actor.state = .idle ∧ actor.Gone pinned)) :
    ∃ reason, actor.handleBegin req peer outcome hasTarget =
      (.error reason, actor.dismissFailure peer) := by
  obtain ⟨-, hsame, horphaned, -⟩ := actor.dismissFailure_frame peer
  have hrelease : (actor.dismissFailure peer).release peer = none := by
    have hnot : actor.orphaned pinned = false :=
      Bool.eq_false_iff.mpr fun h => hheld ((orphaned_iff hpinned).mp h)
    simp [release, hsame, hpinned, hother, horphaned, hnot]
  simp only [handleBegin]
  split
  · exact ⟨_, rfl⟩
  · simp only [hrelease]
    exact ⟨_, rfl⟩

/-- A batch whose companion is gone is discarded first. -/
theorem handleBegin_discarded {actor : OtaActor} {pinned peer : Option Address}
    (req : OtaBegin) (outcome : BeginOutcome) (hasTarget : Bool)
    (hpinned : actor.pinned = some pinned) (hother : pinned ≠ peer)
    (hidle : actor.state = .idle) (hgone : actor.Gone pinned) :
    actor.handleBegin req peer outcome hasTarget =
      actor.discardStaged.handleBegin req peer outcome hasTarget := by
  obtain ⟨hstate, hsame, horphaned, hdiscard⟩ :=
    actor.dismissFailure_frame peer
  have horphan := (orphaned_iff hpinned).mpr ⟨hidle, hgone⟩
  have hrelease : (actor.dismissFailure peer).release peer =
      some (actor.dismissFailure peer).discardStaged := by
    simp [release, hsame, hpinned, hother, horphaned, horphan]
  have hfree : (actor.dismissFailure peer).discardStaged.release peer =
      some (actor.dismissFailure peer).discardStaged := by
    simp [release, OtaActor.pinned, discardStaged, hstate, hidle,
      OtaState.pinnedPeer]
  have hdiscarded : (actor.dismissFailure peer).discardStaged.state = .idle :=
    hstate.trans hidle
  simp only [handleBegin, ← hdiscard, hdiscarded, hstate, hidle, hrelease,
    hfree]

end OtaActor

theorem pinned_all_along (linked : List Address) (disk : Disk)
    (events : List Event) : Pinned (Journal.run linked disk events) := by
  have h := Journal.inv_run linked disk events
  generalize Journal.run linked disk events = journal at h ⊢
  constructor
  · intro piece hin
    have hsome := List.ne_nil_of_mem hin
    exact ⟨_, OtaActor.pinned_of_staged hsome (h.agree hsome), h.staged hin⟩
  · rw [h.count]
    exact Nat.add_le_add_left Option.length_toList_le _
  · intro pinned peer req outcome hasTarget
    exact OtaActor.handleBegin_refused req outcome hasTarget
  · intro pinned peer req outcome hasTarget hpinned hother hidle hgone
    have hsame := OtaActor.handleBegin_discarded req outcome hasTarget hpinned
      hother hidle hgone
    refine ⟨hsame, ?_⟩
    rw [hsame]
    exact List.eq_nil_of_sublist_nil
      (journal.actor.discardStaged.handleBegin_staged req peer outcome
        hasTarget)

end Ota

end Bridgething
