/-
Abandoned updates: they leave the staged batch, and come back only with a stage
that was under way.
-/
import Bridgething.Ota.Manager
import Bridgething.Lib.Transition

namespace Bridgething

namespace Ota

namespace OtaActor

/-- The orchestrator takes its staged batch to commit it. -/
def takes (actor : OtaActor) (expected : List String) : Bool :=
  actor.state = .idle && actor.staged ≠ [] &&
    sameUpdates actor.staged expected

/-- A stage of the update is under way, or done and not received yet. -/
def Staging (actor : OtaActor) (updateId : String) : Prop :=
  (∃ task, actor.task = some task ∧ task.kind.stages = true ∧
      task.updateId = updateId) ∨
    ∃ piece peer, .stageFinished (.ok piece) peer ∈ actor.posted ∧
      piece.updateId = updateId

/-- A stage is received, and it is done. -/
def Receives (actor : OtaActor) (event : Event) (piece : StagedPiece) : Prop :=
  ∃ index peer, event = .receive index ∧
    actor.posted[index]? = some (.stageFinished (.ok piece) peer)

/-- There is nothing of an update that could be staged without another begin. -/
structure Absent (actor : OtaActor) (updateId : String) : Prop where
  staged : ∀ {piece}, piece ∈ actor.staged → piece.updateId ≠ updateId
  task : ∀ {task}, actor.task = some task → task.kind.stages = true →
    task.updateId ≠ updateId
  posted : ∀ {piece peer}, .stageFinished (.ok piece) peer ∈ actor.posted →
    piece.updateId ≠ updateId
  state : ∀ {kind peer patch},
    actor.state ≠ .streaming kind updateId peer patch

variable {updateId : String}

/-- The task is one that there was, for all that a stage of it could leave. -/
def TaskFrom (actor next : OtaActor) : Prop :=
  ∀ {task}, next.task = some task → ∃ old, actor.task = some old ∧
    old.kind = task.kind ∧ old.updateId = task.updateId

theorem taskFrom_same {actor next : OtaActor} (h : next.task = actor.task) :
    actor.TaskFrom next :=
  fun hget => ⟨_, h ▸ hget, rfl, rfl⟩

theorem taskFrom_map {actor next : OtaActor} (change : Task → Task)
    (h : next.task = actor.task.map change)
    (hchange : ∀ task, task.kind = (change task).kind ∧
      task.updateId = (change task).updateId) : actor.TaskFrom next := by
  intro task hget
  rw [h] at hget
  obtain ⟨old, hold, rfl⟩ := Option.map_eq_some_iff.mp hget
  exact ⟨old, hold, hchange old⟩

/-- Less of what there was leaves an update absent. -/
theorem Absent.mono {actor next : OtaActor} (h : actor.Absent updateId)
    (hstaged : ∀ {piece}, piece ∈ next.staged → piece ∈ actor.staged)
    (htask : actor.TaskFrom next)
    (hposted : ∀ {piece peer}, .stageFinished (.ok piece) peer ∈ next.posted →
      .stageFinished (.ok piece) peer ∈ actor.posted)
    (hstate : next.state = actor.state ∨ next.state = .idle) :
    next.Absent updateId := by
  constructor
  · exact fun hin => h.staged (hstaged hin)
  · intro task hget hstages
    obtain ⟨old, hold, hkind, hid⟩ := htask hget
    rw [← hid]
    exact h.task hold (hkind ▸ hstages)
  · exact fun hin => h.posted (hposted hin)
  · intro kind peer patch hstreaming
    rcases hstate with hsame | hidle
    · exact h.state (hsame.symm.trans hstreaming)
    · rw [hidle] at hstreaming
      contradiction

theorem Absent.same {actor next : OtaActor} (h : actor.Absent updateId)
    (hstaged : next.staged = actor.staged) (htask : next.task = actor.task)
    (hposted : next.posted = actor.posted)
    (hstate : next.state = actor.state ∨ next.state = .idle) :
    next.Absent updateId :=
  h.mono (fun hin => hstaged ▸ hin) (taskFrom_same htask) (fun hin => hposted ▸ hin)
    hstate

theorem Absent.spawnWrite {actor : OtaActor} (h : actor.Absent updateId)
    (kind : OtaKind) {other : String} (peer : Option Address)
    (hother : other ≠ updateId) :
    (actor.spawnWrite kind other peer).Absent updateId := by
  obtain ⟨hstate, hstaged, hposted, -, -, htask⟩ :=
    actor.spawnWrite_frame kind other peer
  constructor
  · exact fun hin => h.staged (hstaged ▸ hin)
  · intro task hget _
    rw [htask, Option.some.injEq] at hget
    rw [← hget]
    exact hother
  · exact fun hin => h.posted (hposted ▸ hin)
  · intro kind peer patch
    rw [hstate]
    exact OtaState.noConfusion

theorem Absent.dismissFailure {actor : OtaActor} (h : actor.Absent updateId)
    (peer : Option Address) : (actor.dismissFailure peer).Absent updateId := by
  rcases actor.dismissFailure_eq peer with hsame | hcleared
  · rwa [hsame]
  · rw [hcleared]
    exact h.same rfl rfl rfl (Or.inl rfl)

theorem Absent.stopStreaming {actor : OtaActor} (h : actor.Absent updateId) :
    actor.stopStreaming.Absent updateId := by
  rcases actor.stopStreaming_eq with hsame | hidle
  · rwa [hsame]
  · rw [hidle]
    exact h.same rfl rfl rfl (Or.inr rfl)

theorem Absent.handleBegin {actor : OtaActor} (h : actor.Absent updateId)
    {req : OtaBegin} (peer : Option Address) (outcome : BeginOutcome)
    (hasTarget : Bool) (hother : req.updateId ≠ updateId) :
    (actor.handleBegin req peer outcome hasTarget).2.Absent updateId := by
  have hdismissed := h.dismissFailure peer
  rcases actor.handleBegin_cases req peer outcome hasTarget with
    hrefused | ⟨next, hrelease, hnext⟩
  · rwa [hrefused]
  · have hreleased : next.Absent updateId := by
      rcases release_cases hrelease with rfl | rfl
      · exact hdismissed
      · exact hdismissed.mono (fun hin => absurd hin List.not_mem_nil)
          (taskFrom_same rfl) id (Or.inl rfl)
    have hstopped := hreleased.stopStreaming
    rcases hnext with hsame | hstop | haccept
    · rwa [hsame]
    · rwa [hstop]
    · rw [haccept]
      rcases next.stopStreaming.accept_cases req peer outcome with
        hsame | hwrite | hstream
      · rwa [hsame]
      · rw [hwrite]
        exact hstopped.spawnWrite req.kind peer hother
      · rw [hstream]
        refine ⟨hstopped.staged, hstopped.task, hstopped.posted, ?_⟩
        intro kind peer patch hsame
        simp only [OtaState.streaming.injEq] at hsame
        exact hother hsame.2.1

/-- What a piece's removal leaves is of the batch. -/
theorem removeStaged_sublist (actor : OtaActor) (other : String) :
    (actor.removeStaged other).staged.Sublist actor.staged := by
  unfold removeStaged
  split
  · exact List.eraseP_sublist
  · exact List.Sublist.refl _

theorem removeStaged_frame (actor : OtaActor) (other : String) :
    (actor.removeStaged other).state = actor.state ∧
      (actor.removeStaged other).task = actor.task ∧
      (actor.removeStaged other).posted = actor.posted := by
  unfold removeStaged
  split <;> exact ⟨rfl, rfl, rfl⟩

/-- An abandon leaves the batch without the piece, and stops its stream. -/
theorem handleAbandon_frame (actor : OtaActor) (other : String) :
    (actor.handleAbandon other).staged = (actor.removeStaged other).staged ∧
      (actor.handleAbandon other).task = actor.task ∧
      (actor.handleAbandon other).posted = actor.posted ∧
      ((actor.handleAbandon other).state = .idle ∨
        (actor.handleAbandon other).state = actor.state ∧
          ∀ kind peer patch, actor.state ≠ .streaming kind other peer patch) := by
  obtain ⟨hstate, htask, hposted⟩ := actor.removeStaged_frame other
  unfold handleAbandon
  simp only
  split
  · rename_i kind streaming peer patch hstreaming
    split
    · exact ⟨rfl, htask, hposted, Or.inl rfl⟩
    · rename_i hne
      refine ⟨rfl, htask, hposted, Or.inr ⟨hstate, ?_⟩⟩
      intro kind peer patch hsame
      rw [hstate, hsame] at hstreaming
      simp only [OtaState.streaming.injEq] at hstreaming
      exact hne hstreaming.2.1.symm
  · rename_i hother
    refine ⟨rfl, htask, hposted, Or.inr ⟨hstate, ?_⟩⟩
    intro kind peer patch hsame
    exact hother kind other peer patch (hstate.trans hsame)

theorem Absent.handleAbandon {actor : OtaActor} (h : actor.Absent updateId)
    (other : String) : (actor.handleAbandon other).Absent updateId := by
  obtain ⟨hstaged, htask, hposted, hstate⟩ := actor.handleAbandon_frame other
  refine h.mono ?_ (taskFrom_same htask) (fun hin => hposted ▸ hin) ?_
  · rw [hstaged]
    exact fun hin => (actor.removeStaged_sublist other).subset hin
  · rcases hstate with hidle | ⟨hsame, -⟩
    · exact Or.inr hidle
    · exact Or.inl hsame

theorem handleActivate_frame (actor : OtaActor) (expected : List String)
    (fails : Nat → Rename → Bool) :
    (actor.handleActivate expected fails).2.state = actor.state ∧
      (actor.handleActivate expected fails).2.task = actor.task ∧
      (actor.handleActivate expected fails).2.posted = actor.posted ∧
      ((actor.handleActivate expected fails).2.staged = actor.staged ∨
        (actor.handleActivate expected fails).2.staged = []) := by
  unfold handleActivate
  simp only
  split
  · exact ⟨rfl, rfl, rfl, Or.inl rfl⟩
  · split
    · exact ⟨rfl, rfl, rfl, Or.inl rfl⟩
    · cases actor.disk.activate fails (commitOrder actor.staged) with
      | error disk => exact ⟨rfl, rfl, rfl, Or.inr rfl⟩
      | ok disk => exact ⟨rfl, rfl, rfl, Or.inr rfl⟩

theorem Absent.handleActivate {actor : OtaActor} (h : actor.Absent updateId)
    (expected : List String) (fails : Nat → Rename → Bool) :
    (actor.handleActivate expected fails).2.Absent updateId := by
  obtain ⟨hstate, htask, hposted, hstaged⟩ :=
    actor.handleActivate_frame expected fails
  refine h.mono ?_ (taskFrom_same htask) (fun hin => hposted ▸ hin) (Or.inl hstate)
  intro piece hin
  rcases hstaged with hsame | hnone
  · exact hsame ▸ hin
  · rw [hnone] at hin
    contradiction

theorem Absent.receive {actor : OtaActor} (h : actor.Absent updateId)
    (index : Nat) : (actor.receive index).Absent updateId := by
  have herase : ∀ {command}, command ∈ actor.posted.eraseIdx index →
      command ∈ actor.posted := fun hin => List.mem_of_mem_eraseIdx hin
  unfold OtaActor.receive
  cases hget : actor.posted[index]? with
  | none => exact h
  | some command =>
      cases command with
      | holdFailure failure =>
          exact h.mono id (taskFrom_same rfl) herase (Or.inl rfl)
      | writeFinished => exact h.mono id (taskFrom_same rfl) herase (Or.inr rfl)
      | stageFinished result peer =>
          cases result with
          | error error => exact h.mono id (taskFrom_same rfl) herase (Or.inr rfl)
          | ok piece =>
              have hpiece := h.posted (List.mem_of_getElem? hget)
              constructor
              · intro other hother
                rcases List.mem_append.mp hother with hold | hnew
                · exact h.staged (List.mem_filter.mp hold).1
                · rw [List.mem_singleton.mp hnew]
                  exact hpiece
              · exact h.task
              · exact fun hin => h.posted (herase hin)
              · exact OtaState.noConfusion

theorem Absent.handleFragment {actor : OtaActor} (h : actor.Absent updateId)
    (outcome : ChunkOutcome) :
    (actor.handleFragment outcome).Absent updateId := by
  unfold OtaActor.handleFragment
  cases hstate : actor.state with
  | idle => exact h
  | writing kind other peer => exact h
  | streaming kind other peer patch =>
      cases outcome with
      | «continue» => exact h
      | completed =>
          refine h.spawnWrite kind peer ?_
          rintro rfl
          exact h.state hstate
      | failed code error => exact h.same rfl rfl rfl (Or.inr rfl)

theorem Absent.handleCancel {actor : OtaActor} (h : actor.Absent updateId) :
    actor.handleCancel.Absent updateId := by
  unfold OtaActor.handleCancel
  split
  · exact h
  · exact h.same rfl rfl rfl (Or.inr rfl)
  · split
    · exact h.mono id
        (taskFrom_map (fun task => { task with cancel := true }) rfl
          fun _ => ⟨rfl, rfl⟩) id (Or.inl rfl)
    · exact h

theorem Absent.peerLost {actor : OtaActor} (h : actor.Absent updateId) :
    actor.peerLost.Absent updateId := by
  unfold OtaActor.peerLost
  split
  · split
    · simp only
      split
      · exact h.same rfl rfl rfl (Or.inl rfl)
      · exact h.same rfl rfl rfl (Or.inr rfl)
    · exact h
  · exact h

theorem Absent.failurePeerBack {actor : OtaActor} (h : actor.Absent updateId) :
    actor.failurePeerBack.Absent updateId := by
  unfold OtaActor.failurePeerBack
  split
  · split
    · simp only
      split
      · exact h.same rfl rfl rfl (Or.inl rfl)
      · exact h.same rfl rfl rfl (Or.inl rfl)
    · exact h
  · exact h

theorem Absent.wake {actor : OtaActor} (h : actor.Absent updateId)
    (index : Nat) : (actor.wake index).Absent updateId := by
  unfold OtaActor.wake
  split
  · rename_i watcher hget
    split
    · split
      · exact h.same rfl rfl rfl (Or.inl rfl)
      · refine h.mono id (taskFrom_map _ rfl ?_) ?_ (Or.inl rfl)
        · intro task
          split <;> exact ⟨rfl, rfl⟩
        · intro piece peer hin
          rcases List.mem_append.mp hin with hold | hnew
          · exact hold
          · exact absurd (List.mem_singleton.mp hnew) (by simp)
    · exact h
  · exact h

/-- What the end of a task posts: a piece only of a task that stages. -/
theorem finish_cases (actor : OtaActor) (outcome : Outcome) :
    actor.finish outcome = actor ∨ ∃ task command,
      actor.task = some task ∧
        (actor.finish outcome).state = actor.state ∧
        (actor.finish outcome).staged = actor.staged ∧
        (actor.finish outcome).task = none ∧
        (actor.finish outcome).posted = actor.posted ++ [command] ∧
        ∀ piece peer, command = .stageFinished (.ok piece) peer →
          task.kind.stages = true ∧ piece.updateId = task.updateId := by
  unfold finish
  cases htask : actor.task with
  | none => exact Or.inl rfl
  | some task =>
      simp only
      split
      · rename_i hstages
        refine Or.inr ⟨task, _, rfl, rfl, rfl, rfl, rfl, ?_⟩
        rintro piece peer ⟨⟩
        exact ⟨hstages, rfl⟩
      · exact Or.inr ⟨task, _, rfl, rfl, rfl, rfl, rfl, by simp⟩
      · exact Or.inr ⟨task, _, rfl, rfl, rfl, rfl, rfl, by simp⟩
      · exact Or.inr ⟨task, _, rfl, rfl, rfl, rfl, rfl, by simp⟩
      · exact Or.inl (by rw [← htask])

theorem Absent.finish {actor : OtaActor} (h : actor.Absent updateId)
    (outcome : Outcome) : (actor.finish outcome).Absent updateId := by
  rcases actor.finish_cases outcome with
    hsame | ⟨task, command, htask, hstate, hstaged, hnone, hposted, hpiece⟩
  · rwa [hsame]
  · constructor
    · exact fun hin => h.staged (hstaged ▸ hin)
    · intro other hother
      rw [hnone] at hother
      contradiction
    · intro piece peer hin
      rw [hposted] at hin
      rcases List.mem_append.mp hin with hold | hnew
      · exact h.posted hold
      · obtain ⟨hstages, hid⟩ :=
          hpiece piece peer (List.mem_singleton.mp hnew).symm
        rw [hid]
        exact h.task htask hstages
    · intro kind peer patch
      rw [hstate]
      exact h.state

/-- An update that is absent stays so until a begin for it. -/
theorem Absent.step {actor : OtaActor} {event : Event}
    (h : actor.Absent updateId)
    (hbegin : ∀ req peer outcome hasTarget,
      event = .begin req peer outcome hasTarget → req.updateId ≠ updateId) :
    (actor.step event).Absent updateId := by
  cases event with
  | «begin» req peer outcome hasTarget =>
      exact h.handleBegin peer outcome hasTarget
        (hbegin req peer outcome hasTarget rfl)
  | abandon other => exact h.handleAbandon other
  | activate expected fails => exact h.handleActivate expected fails
  | cancel => exact h.handleCancel
  | receive index => exact h.receive index
  | fragment outcome => exact h.handleFragment outcome
  | streamEnds => exact h.stopStreaming
  | peerLost => exact h.peerLost
  | failurePeerBack => exact h.failurePeerBack
  | setLinked linked => exact h.same rfl rfl rfl (Or.inl rfl)
  | wake watcher => exact h.wake watcher
  | finish outcome => exact h.finish outcome

/-! ### The staged batch -/

theorem handleBegin_staged (actor : OtaActor) (req : OtaBegin)
    (peer : Option Address) (outcome : BeginOutcome) (hasTarget : Bool) :
    (actor.handleBegin req peer outcome hasTarget).2.staged.Sublist
      actor.staged := by
  have hdismissed : (actor.dismissFailure peer).staged = actor.staged := by
    rcases actor.dismissFailure_eq peer with hsame | hcleared
    · rw [hsame]
    · rw [hcleared]
  rcases actor.handleBegin_cases req peer outcome hasTarget with
    hrefused | ⟨next, hrelease, hnext⟩
  · rw [hrefused, hdismissed]
  · have hreleased : next.staged.Sublist actor.staged := by
      rcases release_cases hrelease with rfl | rfl
      · rw [hdismissed]
      · exact List.nil_sublist _
    have hstopped : next.stopStreaming.staged = next.staged := by
      rcases next.stopStreaming_eq with hsame | hidle
      · rw [hsame]
      · rw [hidle]
    rcases hnext with hsame | hstop | haccept
    · rwa [hsame]
    · rwa [hstop, hstopped]
    · rw [haccept]
      rcases next.stopStreaming.accept_cases req peer outcome with
        hsame | hwrite | hstream
      · rwa [hsame, hstopped]
      · rw [hwrite, (next.stopStreaming.spawnWrite_frame _ _ _).2.1, hstopped]
        exact hreleased
      · rw [hstream]
        exact hstopped ▸ hreleased

/-- A stage that is received done joins the batch, in place of an earlier one of
its update. -/
theorem receives_staged {actor : OtaActor} {event : Event} {piece : StagedPiece}
    (h : actor.Receives event piece) :
    (actor.step event).staged =
      (actor.staged.filter fun held => held.updateId ≠ piece.updateId) ++
        [piece] := by
  obtain ⟨index, peer, rfl, hget⟩ := h
  simp [OtaActor.step, OtaActor.receive, hget, handleCommand,
    handleStageFinished]

theorem handleFragment_staged (actor : OtaActor) (outcome : ChunkOutcome) :
    (actor.handleFragment outcome).staged = actor.staged := by
  unfold handleFragment
  split
  · cases outcome with
    | «continue» => rfl
    | completed => exact (actor.spawnWrite_frame _ _ _).2.1
    | failed code error => rfl
  · rfl

theorem handleCancel_staged (actor : OtaActor) :
    actor.handleCancel.staged = actor.staged := by
  unfold handleCancel
  split
  · rfl
  · rfl
  · split <;> rfl

theorem peerLost_staged (actor : OtaActor) :
    actor.peerLost.staged = actor.staged := by
  unfold peerLost
  split
  · split
    · simp only
      split <;> rfl
    · rfl
  · rfl

theorem failurePeerBack_staged (actor : OtaActor) :
    actor.failurePeerBack.staged = actor.staged := by
  unfold failurePeerBack
  split
  · split
    · simp only
      split <;> rfl
    · rfl
  · rfl

theorem wake_staged (actor : OtaActor) (index : Nat) :
    (actor.wake index).staged = actor.staged := by
  unfold wake
  split
  · split
    · split <;> rfl
    · rfl
  · rfl

/-- No other step puts anything in the batch. -/
theorem step_staged (actor : OtaActor) (event : Event) :
    (∃ piece, actor.Receives event piece) ∨
      (actor.step event).staged.Sublist actor.staged := by
  cases event with
  | «begin» req peer outcome hasTarget =>
      exact Or.inr (actor.handleBegin_staged req peer outcome hasTarget)
  | abandon other =>
      refine Or.inr ?_
      rw [OtaActor.step, (actor.handleAbandon_frame other).1]
      exact actor.removeStaged_sublist other
  | activate expected fails =>
      refine Or.inr ?_
      obtain ⟨-, -, -, hstaged⟩ := actor.handleActivate_frame expected fails
      rcases hstaged with hsame | hnone
      · exact hsame ▸ List.Sublist.refl _
      · exact hnone ▸ List.nil_sublist _
  | cancel => exact Or.inr (actor.handleCancel_staged ▸ List.Sublist.refl _)
  | receive index =>
      cases hget : actor.posted[index]? with
      | none =>
          simp only [OtaActor.step, OtaActor.receive, hget]
          exact Or.inr (List.Sublist.refl _)
      | some command =>
          cases command with
          | stageFinished result peer =>
              cases result with
              | ok piece => exact Or.inl ⟨piece, index, peer, rfl, hget⟩
              | error error =>
                  simp only [OtaActor.step, OtaActor.receive, hget]
                  exact Or.inr (List.Sublist.refl _)
          | holdFailure failure =>
              simp only [OtaActor.step, OtaActor.receive, hget]
              exact Or.inr (List.Sublist.refl _)
          | writeFinished =>
              simp only [OtaActor.step, OtaActor.receive, hget]
              exact Or.inr (List.Sublist.refl _)
  | fragment outcome =>
      exact Or.inr (actor.handleFragment_staged outcome ▸ List.Sublist.refl _)
  | streamEnds =>
      refine Or.inr ?_
      rcases actor.stopStreaming_eq with hsame | hidle
      · rw [OtaActor.step, hsame]
      · rw [OtaActor.step, hidle]
  | peerLost => exact Or.inr (actor.peerLost_staged ▸ List.Sublist.refl _)
  | failurePeerBack =>
      exact Or.inr (actor.failurePeerBack_staged ▸ List.Sublist.refl _)
  | setLinked linked => exact Or.inr (List.Sublist.refl _)
  | wake watcher =>
      exact Or.inr (actor.wake_staged watcher ▸ List.Sublist.refl _)
  | finish outcome =>
      refine Or.inr ?_
      rcases actor.finish_cases outcome with
        hsame | ⟨task, command, -, -, hstaged, -⟩
      · rw [OtaActor.step, hsame]
      · rw [OtaActor.step, hstaged]

/-- Of each update there is one piece in the batch. -/
def OneEach (actor : OtaActor) : Prop :=
  (actor.staged.map StagedPiece.updateId).Nodup

theorem OneEach.step {actor : OtaActor} (h : actor.OneEach) (event : Event) :
    (actor.step event).OneEach := by
  rcases actor.step_staged event with ⟨piece, hreceives⟩ | hsub
  · unfold OneEach
    rw [receives_staged hreceives, List.map_append]
    refine List.nodup_append.mpr ⟨?_, List.nodup_singleton _, ?_⟩
    · exact h.sublist (List.filter_sublist.map _)
    · intro left hleft right hright
      obtain ⟨held, hheld, rfl⟩ := List.mem_map.mp hleft
      rw [List.mem_singleton.mp hright]
      simpa using (List.mem_filter.mp hheld).2
  · exact h.sublist (hsub.map _)

theorem OneEach.removeStaged {actor : OtaActor} (h : actor.OneEach)
    (updateId : String) {piece : StagedPiece}
    (hin : piece ∈ (actor.removeStaged updateId).staged) :
    piece.updateId ≠ updateId := by
  rintro rfl
  unfold OtaActor.removeStaged at hin
  split at hin
  · have hin : piece ∈ actor.staged.eraseP
        fun held => held.updateId = piece.updateId := hin
    have herase : (actor.staged.map StagedPiece.updateId).erase piece.updateId =
        (actor.staged.eraseP fun held =>
          held.updateId = piece.updateId).map StagedPiece.updateId := by
      rw [List.erase_eq_eraseP, List.eraseP_map]
      congr 2
      funext held
      by_cases hsame : held.updateId = piece.updateId
      · simp [hsame]
      · simp [hsame, Ne.symm hsame]
    have hleft : piece.updateId ∉
        (actor.staged.map StagedPiece.updateId).erase piece.updateId :=
      h.not_mem_erase
    rw [herase] at hleft
    exact hleft (List.mem_map.mpr ⟨piece, hin, rfl⟩)
  · rename_i hnone
    exact absurd (List.find?_eq_none.mp hnone piece hin) (by simp)

/-- Nothing is left of an update that is abandoned while no stage of it is under
way. -/
theorem OneEach.absent {actor : OtaActor} (h : actor.OneEach)
    {updateId : String} (hquiet : ¬ actor.Staging updateId) :
    (actor.handleAbandon updateId).Absent updateId := by
  obtain ⟨hstaged, htask, hposted, hstate⟩ :=
    actor.handleAbandon_frame updateId
  simp only [Staging, not_or, not_exists, not_and] at hquiet
  constructor
  · exact fun hin => h.removeStaged updateId (hstaged ▸ hin)
  · intro task hget hstages
    exact hquiet.1 task (htask ▸ hget) hstages
  · intro piece peer hin
    exact hquiet.2 piece peer (hposted ▸ hin)
  · intro kind peer patch hstreaming
    rcases hstate with hidle | ⟨hsame, hother⟩
    · rw [hidle] at hstreaming
      contradiction
    · exact hother kind peer patch (hsame.symm.trans hstreaming)

end OtaActor

/-! ### Runs -/

/-- The orchestrator with the updates that were abandoned and not begun since, and
those of them that an activation committed all the same. -/
structure Ledger where
  actor : OtaActor
  abandoned : List String
  broken : List String

namespace Ledger

def new (linked : List Address) (disk : Disk) : Ledger :=
  ⟨.spawn linked disk, [], []⟩

def note (abandoned : List String) : Event → List String
  | .abandon updateId => updateId :: abandoned
  | .begin req _ _ _ => abandoned.filter (· ≠ req.updateId)
  | _ => abandoned

/-- The abandoned updates that an event commits. -/
def breaks (ledger : Ledger) : Event → List String
  | .activate expected _ =>
      if ledger.actor.takes expected then
        (ledger.actor.staged.map StagedPiece.updateId).filter
          ledger.abandoned.contains
      else []
  | _ => []

def step (ledger : Ledger) (event : Event) : Ledger where
  actor := ledger.actor.step event
  abandoned := note ledger.abandoned event
  broken := ledger.broken ++ ledger.breaks event

/-- No abandoned update is staged, and none was committed. -/
structure Kept (ledger : Ledger) : Prop where
  staged : ∀ {piece}, piece ∈ ledger.actor.staged →
    piece.updateId ∉ ledger.abandoned
  broken : ledger.broken = []

/-- No stage of an abandoned update is received done. -/
def Silent (ledger : Ledger) (event : Event) : Prop :=
  ∀ piece, ledger.actor.Receives event piece →
    piece.updateId ∉ ledger.abandoned

/-- What is kept breaks nothing when the batch is committed. -/
theorem Kept.breaks {ledger : Ledger} (h : ledger.Kept) (event : Event) :
    ledger.breaks event = [] := by
  cases event with
  | activate expected fails =>
      simp only [Ledger.breaks]
      split
      · apply List.filter_eq_nil_iff.mpr
        intro updateId hin
        obtain ⟨piece, hpiece, rfl⟩ := List.mem_map.mp hin
        simpa using h.staged hpiece
      · rfl
  | _ => rfl

theorem mem_note {abandoned : List String} {event : Event} {updateId : String}
    (h : updateId ∈ note abandoned event) :
    event = .abandon updateId ∨ updateId ∈ abandoned ∧
      ∀ req peer outcome hasTarget,
        event = .begin req peer outcome hasTarget →
          req.updateId ≠ updateId := by
  cases event with
  | abandon other =>
      rcases List.mem_cons.mp h with rfl | hold
      · exact Or.inl rfl
      · exact Or.inr ⟨hold, fun _ _ _ _ => Event.noConfusion⟩
  | «begin» req peer outcome hasTarget =>
      obtain ⟨hold, hne⟩ := List.mem_filter.mp h
      refine Or.inr ⟨hold, ?_⟩
      rintro _ _ _ _ ⟨⟩ rfl
      simp at hne
  | _ => exact Or.inr ⟨h, fun _ _ _ _ => Event.noConfusion⟩

/-- The invariant: what is kept, with one piece for each update. -/
structure Steady (ledger : Ledger) : Prop where
  one : ledger.actor.OneEach
  kept : ledger.Kept

theorem Steady.step {ledger : Ledger} {event : Event} (h : ledger.Steady)
    (hsilent : ledger.Silent event) : (ledger.step event).Steady := by
  obtain ⟨hone, hkept⟩ := h
  refine ⟨hone.step event, ?_, ?_⟩
  · intro piece hin hnoted
    have hin : piece ∈ (ledger.actor.step event).staged := hin
    rcases mem_note hnoted with rfl | ⟨hold, -⟩
    · rw [OtaActor.step, (ledger.actor.handleAbandon_frame _).1] at hin
      exact hone.removeStaged _ hin rfl
    · rcases ledger.actor.step_staged event with ⟨found, hreceives⟩ | hsub
      · rw [OtaActor.receives_staged hreceives] at hin
        rcases List.mem_append.mp hin with hheld | hnew
        · exact hkept.staged (List.mem_filter.mp hheld).1 hold
        · rw [List.mem_singleton.mp hnew] at hold
          exact hsilent found hreceives hold
      · exact hkept.staged (hsub.subset hin) hold
  · simp [Ledger.step, hkept.broken, hkept.breaks event]

/-- The stage of an abandoned update that is received done puts it in the batch. -/
theorem staged_of_not_silent {ledger : Ledger} {event : Event}
    (h : ¬ ledger.Silent event) : ¬ (ledger.step event).Kept := by
  simp only [Silent, not_forall, not_not] at h
  obtain ⟨piece, hreceives, hin⟩ := h
  intro hkept
  have hstaged : piece ∈ (ledger.step event).actor.staged := by
    simp only [step, OtaActor.receives_staged hreceives, List.mem_append,
      List.mem_singleton, or_true]
  obtain ⟨index, peer, rfl, -⟩ := hreceives
  exact hkept.staged hstaged hin

theorem steady_new (linked : List Address) (disk : Disk) :
    (new linked disk).Steady :=
  ⟨List.nodup_nil, fun hin => absurd hin List.not_mem_nil, rfl⟩

/-- No update is abandoned while a stage of it is under way. -/
def Quiet (ledger : Ledger) (event : Event) : Prop :=
  ∀ updateId, event = .abandon updateId →
    ¬ ledger.actor.Staging updateId

/-- Every abandoned update is absent, when none was abandoned amid its stage. -/
structure Gone (ledger : Ledger) : Prop where
  one : ledger.actor.OneEach
  absent : ∀ {updateId}, updateId ∈ ledger.abandoned →
    ledger.actor.Absent updateId

theorem Gone.step {ledger : Ledger} {event : Event} (h : ledger.Gone)
    (hquiet : ledger.Quiet event) : (ledger.step event).Gone := by
  refine ⟨h.one.step event, ?_⟩
  intro updateId hnoted
  rcases mem_note hnoted with rfl | ⟨hold, hbegin⟩
  · exact h.one.absent (hquiet updateId rfl)
  · exact (h.absent hold).step hbegin

theorem Gone.silent {ledger : Ledger} (h : ledger.Gone) (event : Event) :
    ledger.Silent event := by
  rintro piece ⟨index, peer, -, hget⟩ hin
  exact (h.absent hin).posted (List.mem_of_getElem? hget) rfl

/-- An abandoned update stays out of the batch, and out of what is activated, until
it is begun again, if and only if no stage of it is received done meanwhile; and
none is, when no update is abandoned while a stage of it is under way. -/
theorem kept_iff_silent (linked : List Address) (disk : Disk)
    (events : List Event) :
    ((∀ count ≤ events.length, (Transition.reached step (new linked disk)
        events count).Kept) ↔
      ∀ count event, events[count]? = some event →
        (Transition.reached step (new linked disk) events count).Silent event) ∧
    ((∀ count event, events[count]? = some event →
        (Transition.reached step (new linked disk) events count).Quiet event) →
      ∀ count ≤ events.length, (Transition.reached step (new linked disk)
        events count).Kept) := by
  have hiff : (∀ count ≤ events.length, (Transition.reached step
      (new linked disk) events count).Kept) ↔
      ∀ count event, events[count]? = some event →
        (Transition.reached step (new linked disk) events count).Silent
          event :=
    Transition.reached_iff (steady_new linked disk) Steady.kept Steady.step
      (fun _ => staged_of_not_silent) events
  refine ⟨hiff, fun hquiet => hiff.mpr fun count event _ => ?_⟩
  have hgone : (new linked disk).Gone :=
    ⟨List.nodup_nil, fun hin => absurd hin List.not_mem_nil⟩
  have hreached : (Transition.reached step (new linked disk) events
      count).Gone :=
    Transition.reached_invariant hgone Gone.step fun before _ => hquiet before
  exact hreached.silent event

/-- A daemon update that is abandoned while it is being staged. -/
def abandonedAmidStage : List Event :=
  [.begin ⟨.daemon, "daemon-2", ⟨1, 8, some "00"⟩, none, none, none⟩ (some 5)
      .alreadyComplete true,
    .abandon "daemon-2", .finish (.staged none []), .receive 0,
    .activate ["daemon-2"] fun _ _ => false]

/-- It is staged all the same, and the activation commits it. -/
theorem abandonedAmidStage_commits :
    ¬ (∀ count ≤ abandonedAmidStage.length, (Transition.reached step
        (new [5] fun _ => none) abandonedAmidStage count).Kept) ∧
      (Transition.reached step (new [5] fun _ => none) abandonedAmidStage
        5).broken = ["daemon-2"] := by
  have hbroken : (Transition.reached step (new [5] fun _ => none)
      abandonedAmidStage 5).broken = ["daemon-2"] := by
    decide
  refine ⟨fun hkept => ?_, hbroken⟩
  have hnone := (hkept 5 (by decide)).broken
  rw [hbroken] at hnone
  contradiction

end Ledger

end Ota

end Bridgething
