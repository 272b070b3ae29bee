/-
The account of the turns: each is open, resolving, claimed or ended, is reported
as listening once and as ended once.
-/
import Bridgething.Lib.Transition
import Bridgething.Mic.Manager

namespace Bridgething

namespace Mic

def VoicePhase.terminal : VoicePhase → Bool
  | .done => true
  | .failed => true
  | .idle => true
  | .listening => false
  | .thinking => false

namespace Outgoing

/-- The report that a turn listens. -/
def listens (streamId : Uuid) : Outgoing → Bool
  | .activity report =>
      report.phase == .listening && report.streamId == some streamId
  | _ => false

/-- The report that a turn ended. -/
def ends (streamId : Uuid) : Outgoing → Bool
  | .activity report =>
      report.phase.terminal && report.streamId == some streamId
  | _ => false

def state? : Outgoing → Option VoiceState
  | .stateChanged state => some state
  | _ => none

end Outgoing

namespace MicManager

def listened (manager : MicManager) (streamId : Uuid) : Nat :=
  manager.sent.countP (Outgoing.listens streamId)

def ended (manager : MicManager) (streamId : Uuid) : Nat :=
  manager.sent.countP (Outgoing.ends streamId)

def claimed (manager : MicManager) (streamId : Uuid) : Nat :=
  manager.claims.countP fun activity => activity.streamId == some streamId

/-- Whether a place holds a turn, as a number. -/
def held (place : Option Turn) (streamId : Uuid) : Nat :=
  if place.map Turn.streamId = some streamId then 1 else 0

/-- The state that was published last. -/
def published (manager : MicManager) : VoiceState :=
  (manager.sent.filterMap Outgoing.state?).getLast?.getD {}

/-- What the phase is when no claim is unfinished. -/
def expected (manager : MicManager) : VoicePhase :=
  if manager.turn.isSome then .listening
  else if manager.resolving.isSome then .thinking
  else .idle

/-! ### What is sent -/

@[simp] theorem listened_send (manager : MicManager) (outgoing : Outgoing)
    (streamId : Uuid) : (manager.send outgoing).listened streamId =
      manager.listened streamId +
        if outgoing.listens streamId then 1 else 0 := by
  simp [listened, send, List.countP_cons]

@[simp] theorem ended_send (manager : MicManager) (outgoing : Outgoing)
    (streamId : Uuid) : (manager.send outgoing).ended streamId =
      manager.ended streamId + if outgoing.ends streamId then 1 else 0 := by
  simp [ended, send, List.countP_cons]

@[simp] theorem send_turn (manager : MicManager) (outgoing : Outgoing) :
    (manager.send outgoing).turn = manager.turn := rfl

@[simp] theorem send_resolving (manager : MicManager) (outgoing : Outgoing) :
    (manager.send outgoing).resolving = manager.resolving := rfl

@[simp] theorem send_claimed (manager : MicManager) (outgoing : Outgoing)
    (streamId : Uuid) :
    (manager.send outgoing).claimed streamId = manager.claimed streamId := rfl

@[simp] theorem send_issued (manager : MicManager) (outgoing : Outgoing) :
    (manager.send outgoing).issued = manager.issued := rfl

@[simp] theorem published_activity (manager : MicManager)
    (activity : VoiceActivity) :
    (manager.broadcastActivity activity).published = manager.published := by
  simp [published, broadcastActivity, send, Outgoing.state?]

@[simp] theorem published_state (manager : MicManager) :
    manager.broadcastState.published = manager.snapshot := by
  simp [published, broadcastState, send, Outgoing.state?]

/-! ### The account -/

/-- Every turn that was opened is in one place or was reported as ended once,
and was reported as listening once. -/
structure Accounted (manager : MicManager) : Prop where
  placed : ∀ streamId, held manager.turn streamId +
    held manager.resolving streamId + manager.claimed streamId +
    manager.ended streamId = if streamId < manager.issued then 1 else 0
  listened : ∀ streamId, manager.listened streamId =
    if streamId < manager.issued then 1 else 0
  answers : ∀ activity ∈ manager.claims, activity.phase = .done

/-- Two states with the same account. -/
structure SameAccount (manager other : MicManager) : Prop where
  turn : other.turn = manager.turn
  resolving : other.resolving = manager.resolving
  claims : other.claims = manager.claims
  issued : other.issued = manager.issued
  listened : ∀ streamId, other.listened streamId = manager.listened streamId
  ended : ∀ streamId, other.ended streamId = manager.ended streamId

theorem SameAccount.accounted {manager other : MicManager}
    (hsame : manager.SameAccount other) (h : manager.Accounted) :
    other.Accounted := by
  constructor
  · intro streamId
    rw [hsame.turn, hsame.resolving, hsame.issued, hsame.ended, claimed,
      hsame.claims]
    exact h.placed streamId
  · intro streamId
    rw [hsame.listened, hsame.issued]
    exact h.listened streamId
  · rw [hsame.claims]
    exact h.answers

theorem same_broadcastState (manager : MicManager) :
    manager.SameAccount manager.broadcastState :=
  ⟨rfl, rfl, rfl, rfl, fun _ => by simp [broadcastState, Outgoing.listens],
    fun _ => by simp [broadcastState, Outgoing.ends]⟩

theorem same_settle (manager : MicManager) :
    manager.SameAccount manager.settle :=
  ⟨rfl, rfl, rfl, rfl, fun _ => rfl, fun _ => rfl⟩

theorem same_closeStream (manager : MicManager) (reason : VoiceCloseReason) :
    manager.SameAccount (manager.closeStream reason) := by
  unfold closeStream
  split
  · exact ⟨rfl, rfl, rfl, rfl, fun _ => rfl, fun _ => rfl⟩
  · refine ⟨rfl, rfl, rfl, rfl, fun _ => ?_, fun _ => ?_⟩
    · rw [listened_send]
      rfl
    · rw [ended_send]
      rfl

theorem ends_activity (turn : Turn) (phase : VoicePhase) (streamId : Uuid) :
    (Outgoing.activity (turn.activity phase)).ends streamId =
      (phase.terminal && some turn.streamId == some streamId) := rfl

theorem listens_activity (turn : Turn) (phase : VoicePhase)
    (streamId : Uuid) :
    (Outgoing.activity (turn.activity phase)).listens streamId =
      (phase == .listening && some turn.streamId == some streamId) := rfl

theorem held_some (turn : Turn) (streamId : Uuid) :
    held (some turn) streamId =
      if some turn.streamId = some streamId then 1 else 0 := rfl

theorem held_none (streamId : Uuid) : held none streamId = 0 := rfl

/-- A report that a turn ended, or only goes on. -/
theorem accounted_report {manager : MicManager} {report : VoiceActivity}
    {turn : Turn} (hid : report.streamId = some turn.streamId)
    (hphase : report.phase.terminal = true)
    (hplaced : ∀ streamId, held manager.turn streamId +
      held manager.resolving streamId + manager.claimed streamId +
      manager.ended streamId + held (some turn) streamId =
      if streamId < manager.issued then 1 else 0)
    (hlistened : ∀ streamId, manager.listened streamId =
      if streamId < manager.issued then 1 else 0)
    (hanswers : ∀ activity ∈ manager.claims, activity.phase = .done) :
    (manager.broadcastActivity report).Accounted := by
  constructor
  · intro streamId
    have hsum := hplaced streamId
    have hends : (Outgoing.activity report).ends streamId =
        (some turn.streamId == some streamId) := by
      rw [Outgoing.ends, hphase, hid, Bool.true_and]
    rw [held_some] at hsum
    rw [broadcastActivity, ended_send, hends, send_turn, send_resolving,
      send_claimed, send_issued]
    simpa only [beq_iff_eq, Nat.add_assoc] using hsum
  · intro streamId
    have hlistens : (Outgoing.activity report).listens streamId = false := by
      rw [Outgoing.listens]
      cases hat : report.phase <;> simp_all [VoicePhase.terminal]
    rw [broadcastActivity, listened_send, hlistens]
    exact hlistened streamId
  · exact hanswers

/-- One more id is issued. -/
theorem issued_succ (issued streamId : Nat) :
    (if streamId < issued + 1 then 1 else 0) =
      (if streamId < issued then 1 else 0) +
        if some issued = some streamId then 1 else 0 := by
  simp only [Option.some.injEq]
  by_cases hid : issued = streamId
  · simp [hid]
  · have hiff : streamId < issued + 1 ↔ streamId < issued := by omega
    simp [hid, hiff]

theorem Accounted.openTurn {manager : MicManager} (h : manager.Accounted)
    (hturn : manager.turn = none) (listener : Peers.Address)
    (reason : VoiceCaptureReason) (score : Option Score) :
    (manager.openTurn listener reason score).Accounted := by
  apply (same_broadcastState _).accounted
  constructor
  · intro streamId
    have hsum := h.placed streamId
    rw [hturn, held_none] at hsum
    rw [broadcastActivity, ended_send, ended_send, ends_activity]
    show (if some manager.issued = some streamId then 1 else 0) +
      held manager.resolving streamId + manager.claimed streamId +
      (manager.ended streamId + 0 + 0) =
        if streamId < manager.issued + 1 then 1 else 0
    rw [issued_succ, ← hsum]
    omega
  · intro streamId
    rw [broadcastActivity, listened_send, listened_send, listens_activity]
    show manager.listened streamId + 0 +
      (if (some manager.issued == some streamId) = true then 1 else 0) =
        if streamId < manager.issued + 1 then 1 else 0
    rw [issued_succ, h.listened streamId, Nat.add_zero]
    simp only [beq_iff_eq]
  · exact h.answers

theorem terminal_of_settled {reason : VoiceCloseReason}
    (h : settledPhase reason ≠ .thinking) :
    (settledPhase reason).terminal = true := by
  cases reason
  · exact absurd rfl h
  all_goals rfl

/-- A turn goes on to be resolved, and the one before it, if any, is not. -/
theorem Accounted.resolve {manager : MicManager} (h : manager.Accounted)
    {turn : Turn} (hturn : manager.turn = some turn) {next : MicManager}
    (hnext : { manager with
      turn := none, resolving := some turn : MicManager }.SameAccount next) :
    ((manager.resolving.elim next fun prior =>
      next.broadcastActivity (prior.activity .idle)).broadcastActivity
        (turn.activity .thinking)).Accounted := by
  have hbefore : (manager.resolving.elim next fun prior =>
      next.broadcastActivity (prior.activity .idle)).Accounted := by
    cases hresolving : manager.resolving with
    | none =>
        apply hnext.accounted
        refine ⟨fun streamId => ?_, h.listened, h.answers⟩
        have hsum := h.placed streamId
        rw [hturn, hresolving, held_none] at hsum
        show held none streamId + held (some turn) streamId +
          manager.claimed streamId + manager.ended streamId = _
        rw [held_none, ← hsum]
        omega
    | some prior =>
        apply accounted_report rfl rfl
        · intro streamId
          have hsum := h.placed streamId
          rw [hturn, hresolving] at hsum
          rw [hnext.turn, hnext.resolving, hnext.issued, hnext.ended, claimed,
            hnext.claims]
          show held none streamId + held (some turn) streamId +
            manager.claimed streamId + manager.ended streamId +
              held (some prior) streamId = _
          rw [held_none, ← hsum]
          omega
        · intro streamId
          rw [hnext.listened, hnext.issued]
          exact h.listened streamId
        · rw [hnext.claims]
          exact h.answers
  constructor
  · intro streamId
    rw [broadcastActivity, ended_send, ends_activity]
    exact hbefore.placed streamId
  · intro streamId
    rw [broadcastActivity, listened_send, listens_activity]
    exact hbefore.listened streamId
  · exact hbefore.answers

/-- An open turn is reported as ended. -/
theorem Accounted.drop {manager : MicManager} (h : manager.Accounted)
    {turn : Turn} (hturn : manager.turn = some turn) {next : MicManager}
    (hnext : { manager with turn := none : MicManager }.SameAccount next)
    {report : VoiceActivity} (hid : report.streamId = some turn.streamId)
    (hphase : report.phase.terminal = true) :
    (next.broadcastActivity report).Accounted := by
  apply accounted_report hid hphase
  · intro streamId
    have hsum := h.placed streamId
    rw [hturn] at hsum
    rw [hnext.turn, hnext.resolving, hnext.issued, hnext.ended, claimed,
      hnext.claims]
    show held none streamId + held manager.resolving streamId +
      manager.claimed streamId + manager.ended streamId +
        held (some turn) streamId = _
    rw [held_none, ← hsum]
    omega
  · intro streamId
    rw [hnext.listened, hnext.issued]
    exact h.listened streamId
  · rw [hnext.claims]
    exact h.answers

/-- A resolving turn is reported as ended. -/
theorem Accounted.expire {manager : MicManager} (h : manager.Accounted)
    {turn : Turn} (hturn : manager.resolving = some turn)
    {report : VoiceActivity} (hid : report.streamId = some turn.streamId)
    (hphase : report.phase.terminal = true) :
    ({ manager with resolving := none : MicManager }.settle.broadcastActivity
      report).broadcastState.Accounted := by
  apply (same_broadcastState _).accounted
  apply accounted_report hid hphase
  · intro streamId
    have hsum := h.placed streamId
    rw [hturn] at hsum
    show held manager.turn streamId + held none streamId +
      manager.claimed streamId + manager.ended streamId +
        held (some turn) streamId = _
    rw [held_none]
    show _ = if streamId < manager.issued then 1 else 0
    rw [← hsum]
    omega
  · exact h.listened
  · exact h.answers

theorem SameAccount.trans {first second third : MicManager}
    (h : first.SameAccount second) (hnext : second.SameAccount third) :
    first.SameAccount third where
  turn := hnext.turn.trans h.turn
  resolving := hnext.resolving.trans h.resolving
  claims := hnext.claims.trans h.claims
  issued := hnext.issued.trans h.issued
  listened streamId := (hnext.listened streamId).trans (h.listened streamId)
  ended streamId := (hnext.ended streamId).trans (h.ended streamId)

/-- The report that a close may carry instead of its own. -/
def Ended (manager : MicManager) (reason : VoiceCloseReason)
    (ended : Option VoiceActivity) : Prop :=
  ∀ report, ended = some report → reason = .error ∧
    ∃ turn, manager.turn = some turn ∧ report = turn.listenerLost

theorem Accounted.stopStream {manager : MicManager} (h : manager.Accounted)
    {reason : VoiceCloseReason} {ended : Option VoiceActivity}
    (hended : manager.Ended reason ended) :
    (manager.stopStream reason ended).Accounted := by
  unfold MicManager.stopStream
  cases hturn : manager.turn with
  | none => exact h
  | some turn =>
      dsimp only
      apply (same_broadcastState _).accounted
      by_cases hnext : settledPhase reason = .thinking
      · have hnone : ended = none := by
          cases ended with
          | none => rfl
          | some report =>
              obtain ⟨rfl, -⟩ := hended report rfl
              exact absurd hnext (by decide)
        simp only [hnext, hnone, ↓reduceIte, Option.getD_none]
        exact h.resolve hturn
          ((same_settle _).trans (same_closeStream _ reason))
      · simp only [hnext, ↓reduceIte, Option.elim_none]
        have hsame := (same_settle { manager with
          turn := none : MicManager }).trans (same_closeStream _ reason)
        cases ended with
        | none => exact h.drop hturn hsame rfl (terminal_of_settled hnext)
        | some report =>
            obtain ⟨-, lost, hlost, rfl⟩ := hended report rfl
            rw [hturn, Option.some.injEq] at hlost
            subst hlost
            exact h.drop hturn hsame rfl rfl

theorem Accounted.claim {manager : MicManager} (h : manager.Accounted)
    (streamId : Uuid) : (manager.claim streamId).1.Accounted := by
  unfold MicManager.claim
  cases hresolving : manager.resolving with
  | none => exact h
  | some turn =>
      dsimp only
      split
      · refine ⟨fun other => ?_, h.listened, ?_⟩
        · have hsum := h.placed other
          rw [hresolving, held_some] at hsum
          show held manager.turn other + held none other +
            (manager.claims ++ [turn.activity .done]).countP _ +
              manager.ended other = if other < manager.issued then 1 else 0
          have hclaimed : (manager.claims ++ [turn.activity .done]).countP
              (fun activity => activity.streamId == some other) =
              manager.claimed other +
                if some turn.streamId = some other then 1 else 0 := by
            simp [claimed, List.countP_cons, Turn.activity]
          rw [held_none, hclaimed, ← hsum]
          omega
        · intro activity hmem
          rcases List.mem_append.mp hmem with hold | hnew
          · exact h.answers activity hold
          · rw [List.mem_singleton.mp hnew]
            rfl
      · exact h

theorem outcome_kept {claimed : VoiceActivity} (h : claimed.phase = .done)
    (error : Option VoiceActivityError) :
    (outcome claimed error).streamId = claimed.streamId ∧
      (outcome claimed error).phase.terminal = true ∧
      (outcome claimed error).phase ≠ .listening := by
  cases error with
  | none => simp [outcome, h, VoicePhase.terminal]
  | some error => simp [outcome, VoicePhase.terminal]

/-- A claim that is finished is reported as ended. -/
theorem Accounted.finish {manager : MicManager} (h : manager.Accounted)
    {place : Nat} {activity : VoiceActivity}
    (hplace : manager.claims[place]? = some activity)
    (error : Option VoiceActivityError) :
    ({ manager with
      claims := manager.claims.eraseIdx place : MicManager }.finish
      (outcome activity error)).Accounted := by
  obtain ⟨hid, hterminal, hlistening⟩ := outcome_kept
    (h.answers activity (List.mem_of_getElem? hplace)) error
  apply (same_broadcastState _).accounted
  constructor
  · intro streamId
    have hends : (Outgoing.activity (outcome activity error)).ends streamId =
        (activity.streamId == some streamId) := by
      rw [Outgoing.ends, hterminal, hid, Bool.true_and]
    have hclaimed : (manager.claims.eraseIdx place).countP
        (fun activity => activity.streamId == some streamId) +
        (if (activity.streamId == some streamId) = true then 1 else 0) =
        manager.claimed streamId := by
      obtain ⟨hlt, hat⟩ := List.getElem?_eq_some_iff.mp hplace
      have hperm := List.getElem_cons_eraseIdx_perm hlt
      rw [hat] at hperm
      rw [claimed, ← hperm.countP_eq, List.countP_cons]
    rw [broadcastActivity, ended_send, hends]
    show held manager.turn streamId + held manager.resolving streamId +
      (manager.claims.eraseIdx place).countP _ +
        (manager.ended streamId + _) =
        if streamId < manager.issued then 1 else 0
    rw [← h.placed streamId, ← hclaimed]
    omega
  · intro streamId
    have hlistens : (Outgoing.activity (outcome activity error)).listens
        streamId = false := by
      rw [Outgoing.listens, beq_eq_false_iff_ne.mpr hlistening, Bool.false_and]
    rw [broadcastActivity, listened_send, hlistens]
    exact h.listened streamId
  · intro other hother
    exact h.answers other (List.mem_of_mem_eraseIdx hother)

/-! ### What the loop keeps -/

/-- What holds between two turns of the loop. -/
structure Inv (manager : MicManager) : Prop where
  account : manager.Accounted
  stream : manager.stream = manager.turn
  phase : manager.phase = manager.expected ∨ (manager.phase = .thinking ∧
    manager.expected = .idle ∧ manager.claims ≠ [])
  published : manager.published = manager.snapshot
  granted : manager.granted.Nodup
  past : ∀ streamId ∈ manager.granted, streamId < manager.issued ∧
    held manager.turn streamId = 0 ∧ held manager.resolving streamId = 0

theorem inv_new : MicManager.new.Inv where
  account := ⟨fun _ => rfl, fun _ => rfl, fun _ hmem => absurd hmem (by
    simp [new])⟩
  stream := rfl
  phase := Or.inl rfl
  published := rfl
  granted := List.nodup_nil
  past _ hmem := absurd hmem (by simp [new])

theorem Inv.openTurn {manager : MicManager} (h : manager.Inv)
    (hturn : manager.turn = none) (listener : Peers.Address)
    (reason : VoiceCaptureReason) (score : Option Score) :
    (manager.openTurn listener reason score).Inv where
  account := h.account.openTurn hturn listener reason score
  stream := rfl
  phase := Or.inl rfl
  published := published_state _
  granted := h.granted
  past streamId hmem := by
    obtain ⟨hlt, -, hresolving⟩ := h.past streamId hmem
    refine ⟨Nat.lt_succ_of_lt hlt, ?_, hresolving⟩
    show (if some manager.issued = some streamId then 1 else 0) = 0
    rw [if_neg]
    rw [Option.some.injEq]
    exact (Nat.ne_of_lt hlt).symm

/-- A report of no turn changes nothing. -/
theorem Inv.refuse {manager : MicManager} (h : manager.Inv)
    {report : VoiceActivity} (hid : report.streamId = none) :
    (manager.broadcastActivity report).Inv where
  account := by
    have hsame : manager.SameAccount (manager.broadcastActivity report) :=
      ⟨rfl, rfl, rfl, rfl,
        fun _ => by simp [broadcastActivity, Outgoing.listens, hid],
        fun _ => by simp [broadcastActivity, Outgoing.ends, hid]⟩
    exact hsame.accounted h.account
  stream := h.stream
  phase := h.phase
  published := (published_activity manager report).trans h.published
  granted := h.granted
  past := h.past

theorem Inv.startStream {manager : MicManager} (h : manager.Inv) (opens : Bool)
    (listener : Option Peers.Address) (reason : VoiceCaptureReason)
    (score : Option Score) :
    (manager.startStream opens listener reason score).1.Inv := by
  have hcapture : { manager with
      capture := manager.capture || opens : MicManager }.Inv :=
    ⟨⟨h.account.placed, h.account.listened, h.account.answers⟩, h.stream,
      h.phase, h.published, h.granted, h.past⟩
  unfold MicManager.startStream
  split
  · exact h
  · cases hturn : manager.turn with
    | some turn => exact h
    | none =>
        dsimp only
        rw [hturn] at hcapture
        split
        · cases listener with
          | some listener => exact hcapture.openTurn rfl listener reason score
          | none => exact hcapture.refuse rfl
        · exact hcapture

/-- What a close leaves of the places. -/
structure Stopped (manager after : MicManager) (reason : VoiceCloseReason)
    (closed : Turn) : Prop where
  turn : after.turn = none
  stream : after.stream = none
  resolving : after.resolving =
    if settledPhase reason = .thinking then some closed
    else manager.resolving
  claims : after.claims = manager.claims
  issued : after.issued = manager.issued
  granted : after.granted = manager.granted
  phase : after.phase = after.expected
  published : after.published = after.snapshot

theorem stopped {manager : MicManager} {turn : Turn}
    (hturn : manager.turn = some turn) (hstream : manager.stream = some turn)
    (reason : VoiceCloseReason) (ended : Option VoiceActivity) :
    Stopped manager (manager.stopStream reason ended) reason turn := by
  unfold stopStream
  rw [hturn]
  dsimp only
  cases hsuperseded :
      if settledPhase reason = .thinking then manager.resolving else none with
  | none =>
      simp only [closeStream, settle, hstream, Option.elim_none]
      exact ⟨rfl, rfl, rfl, rfl, rfl, rfl, rfl, published_state _⟩
  | some prior =>
      simp only [closeStream, settle, hstream, Option.elim_some]
      exact ⟨rfl, rfl, rfl, rfl, rfl, rfl, rfl, published_state _⟩

/-- The close of an open turn settles and publishes what the loop keeps. -/
theorem inv_stopped {manager : MicManager} {turn : Turn}
    (haccount : manager.Accounted) (hturn : manager.turn = some turn)
    (hstream : manager.stream = some turn) (hgranted : manager.granted.Nodup)
    (hpast : ∀ streamId ∈ manager.granted, streamId < manager.issued ∧
      held manager.turn streamId = 0 ∧ held manager.resolving streamId = 0)
    {reason : VoiceCloseReason} {ended : Option VoiceActivity}
    (hended : manager.Ended reason ended) :
    (manager.stopStream reason ended).Inv := by
  have hstopped := stopped hturn hstream reason ended
  constructor
  · exact haccount.stopStream hended
  · exact hstopped.stream.trans hstopped.turn.symm
  · exact Or.inl hstopped.phase
  · exact hstopped.published
  · rw [hstopped.granted]
    exact hgranted
  · intro streamId hmem
    rw [hstopped.granted] at hmem
    obtain ⟨hlt, hopen, hresolving⟩ := hpast streamId hmem
    rw [hstopped.issued, hstopped.turn, hstopped.resolving]
    refine ⟨hlt, held_none streamId, ?_⟩
    split
    · exact hturn ▸ hopen
    · exact hresolving

theorem Inv.stopStream {manager : MicManager} (h : manager.Inv)
    {reason : VoiceCloseReason} {ended : Option VoiceActivity}
    (hended : manager.Ended reason ended) :
    (manager.stopStream reason ended).Inv := by
  cases hturn : manager.turn with
  | none =>
      have hsame : manager.stopStream reason ended = manager := by
        rw [MicManager.stopStream, hturn]
      rw [hsame]
      exact h
  | some turn =>
      exact inv_stopped h.account hturn (h.stream.trans hturn) h.granted h.past
        hended

theorem Inv.claim {manager : MicManager} (h : manager.Inv) (streamId : Uuid) :
    (manager.claim streamId).1.Inv := by
  have haccount := h.account.claim streamId
  unfold MicManager.claim at haccount ⊢
  cases hresolving : manager.resolving with
  | none => exact h
  | some turn =>
      rw [hresolving] at haccount
      dsimp only at haccount ⊢
      by_cases hid : turn.streamId = streamId
      · rw [if_pos hid] at haccount ⊢
        have hheld : held manager.resolving streamId = 1 := by
          rw [hresolving, held_some, hid, if_pos rfl]
        have hsum := h.account.placed streamId
        rw [hheld] at hsum
        have hlt : streamId < manager.issued := by
          by_contra hge
          rw [if_neg hge] at hsum
          omega
        rw [if_pos hlt] at hsum
        constructor
        · exact haccount
        · exact h.stream
        · show manager.phase = expected _ ∨ (manager.phase = .thinking ∧ _)
          cases hturn : manager.turn with
          | some opened =>
              refine Or.inl ?_
              rcases h.phase with hphase | ⟨-, hidle, -⟩
              · rw [hphase]
                simp [expected, hturn]
              · simp [expected, hturn] at hidle
          | none =>
              refine Or.inr ⟨?_, by simp [expected], by simp⟩
              rcases h.phase with hphase | ⟨-, hidle, -⟩
              · rw [hphase]
                simp [expected, hturn, hresolving]
              · simp [expected, hturn, hresolving] at hidle
        · exact h.published
        · refine List.nodup_cons.mpr ⟨fun hmem => ?_, h.granted⟩
          rw [(h.past streamId hmem).2.2] at hheld
          contradiction
        · intro other hother
          rcases List.mem_cons.mp hother with rfl | hold
          · exact ⟨hlt, by show held manager.turn _ = 0; omega, rfl⟩
          · obtain ⟨hissued, hopen, -⟩ := h.past other hold
            exact ⟨hissued, hopen, rfl⟩
      · rw [if_neg hid]
        exact h

theorem Inv.finish {manager : MicManager} (h : manager.Inv) {place : Nat}
    {activity : VoiceActivity} (hplace : manager.claims[place]? = some activity)
    (error : Option VoiceActivityError) :
    ({ manager with
      claims := manager.claims.eraseIdx place : MicManager }.finish
      (outcome activity error)).Inv :=
  ⟨h.account.finish hplace error, h.stream, Or.inl rfl, published_state _,
    h.granted, h.past⟩

theorem Inv.expire {manager : MicManager} (h : manager.Inv) {turn : Turn}
    (hturn : manager.resolving = some turn) {report : VoiceActivity}
    (hid : report.streamId = some turn.streamId)
    (hphase : report.phase.terminal = true) :
    ({ manager with resolving := none : MicManager }.settle.broadcastActivity
      report).broadcastState.Inv :=
  ⟨h.account.expire hturn hid hphase, h.stream, Or.inl rfl, published_state _,
    h.granted, fun streamId hmem =>
      ⟨(h.past streamId hmem).1, (h.past streamId hmem).2.1, rfl⟩⟩

theorem ended_none (manager : MicManager) (reason : VoiceCloseReason) :
    manager.Ended reason none := fun _ hreport => absurd hreport (by simp)

/-- Muting and unmuting change nothing but the flag and the microphone, and it
is published. -/
theorem Inv.flag {manager : MicManager} (h : manager.Inv)
    (muted capture : Bool) :
    { manager with
      muted := muted, capture := capture : MicManager }.broadcastState.Inv :=
  ⟨(same_broadcastState _).accounted
    ⟨h.account.placed, h.account.listened, h.account.answers⟩, h.stream,
    h.phase, published_state _, h.granted, h.past⟩

theorem Inv.mute {manager : MicManager} (h : manager.Inv) (preserve : Bool) :
    (manager.mute preserve).Inv := by
  unfold MicManager.mute
  dsimp only
  split
  · rename_i hopen
    rw [Bool.and_eq_true, Option.isSome_iff_exists] at hopen
    obtain ⟨⟨turn, hturn⟩, -⟩ := hopen
    exact @inv_stopped { manager with muted := true, capture := false } turn
      ⟨h.account.placed, h.account.listened, h.account.answers⟩
      hturn (h.stream.trans hturn) h.granted h.past _ _ (ended_none _ _)
  · exact h.flag true false

theorem Inv.dropLostListener {manager : MicManager} (h : manager.Inv)
    (peers : Table Peers.Address Peers.Peer) :
    (manager.dropLostListener peers).Inv := by
  have hopen : (manager.dropOpen peers).Inv := by
    unfold dropOpen
    split
    · rename_i turn hturn
      obtain ⟨hsome, -⟩ := Option.filter_eq_some_iff.mp hturn
      apply h.stopStream
      intro report hreport
      rw [Option.some.injEq] at hreport
      exact ⟨rfl, turn, hsome, hreport.symm⟩
    · exact h
  unfold MicManager.dropLostListener dropResolving
  split
  · rename_i turn hturn
    obtain ⟨hsome, -⟩ := Option.filter_eq_some_iff.mp hturn
    exact hopen.expire hsome rfl rfl
  · exact hopen

theorem Inv.step {manager : MicManager} (h : manager.Inv) (event : MicEvent) :
    (manager.step event).Inv := by
  cases event with
  | start reason opens listener =>
      exact h.startStream opens listener reason none
  | claim streamId => exact h.claim streamId
  | finish place error =>
      simp only [MicManager.step]
      split
      · rename_i activity hplace
        exact h.finish hplace error
      · exact h
  | reloadWakeWord => exact h
  | stop reason => exact h.stopStream (ended_none manager reason)
  | mute preserve => exact h.mute preserve
  | unmute opens => exact h.flag false _
  | frame ended forwarded =>
      simp only [MicManager.step, onFrame]
      split
      · exact h
      · split
        · split
          · exact h.stopStream (ended_none manager _)
          · exact h
        · exact h.stopStream (ended_none manager _)
  | wakeWord score opens listener =>
      simp only [MicManager.step, onWakeWord]
      split
      · exact h
      · exact h
      · exact h.startStream opens listener _ _
  | pastCap =>
      simp only [MicManager.step, onPastCap]
      split
      · exact h
      · exact h.stopStream (ended_none manager _)
  | pastDeadline =>
      simp only [MicManager.step, onPastDeadline]
      split
      · exact h
      · rename_i turn hturn
        exact h.expire hturn rfl rfl
  | peersChanged peers => exact h.dropLostListener peers

/-! ### Turns and their reports -/

/-- Whether a turn is open, resolving, or claimed and not finished. -/
def live (manager : MicManager) (streamId : Uuid) : Bool :=
  manager.turn.map Turn.streamId == some streamId ||
    manager.resolving.map Turn.streamId == some streamId ||
    manager.claims.any fun activity => activity.streamId == some streamId

/-- The turns and what is told of them. -/
structure Told (manager : MicManager) : Prop where
  /-- A turn is in one place at a time. -/
  apart : ∀ streamId, held manager.turn streamId +
    held manager.resolving streamId + manager.claimed streamId ≤ 1
  listened : ∀ streamId < manager.issued, manager.listened streamId = 1
  endedOnce : ∀ streamId, manager.ended streamId ≤ 1
  ended : ∀ streamId < manager.issued, manager.live streamId = false →
    manager.ended streamId = 1
  /-- Claims are granted once a turn, and to the turn that resolves. -/
  granted : manager.granted.Nodup
  claims : ∀ streamId activity,
    (manager.claim streamId).2 = .ok activity →
    manager.resolving.map Turn.streamId = some streamId ∧
      (manager.claim streamId).1.granted = streamId :: manager.granted
  phase : manager.claims = [] → manager.phase = manager.expected ∧
    manager.published.phase = manager.expected

theorem Inv.told {manager : MicManager} (h : manager.Inv) : manager.Told := by
  have hsum := h.account.placed
  constructor
  · intro streamId
    have hplaced := hsum streamId
    split at hplaced <;> omega
  · intro streamId hlt
    rw [h.account.listened streamId, if_pos hlt]
  · intro streamId
    have hplaced := hsum streamId
    split at hplaced <;> omega
  · intro streamId hlt hlive
    have hplaced := hsum streamId
    rw [if_pos hlt] at hplaced
    simp only [live, Bool.or_eq_false_iff, beq_eq_false_iff_ne] at hlive
    obtain ⟨⟨hopen, hresolving⟩, hclaims⟩ := hlive
    have hclaimed : manager.claimed streamId = 0 := by
      rw [claimed, List.countP_eq_zero]
      intro activity hmem
      rw [List.any_eq_false] at hclaims
      exact hclaims activity hmem
    rw [held, if_neg hopen, held, if_neg hresolving, hclaimed] at hplaced
    omega
  · exact h.granted
  · intro streamId activity hok
    unfold MicManager.claim at hok ⊢
    cases hresolving : manager.resolving with
    | none =>
        rw [hresolving] at hok
        simp at hok
    | some turn =>
        rw [hresolving] at hok
        dsimp only at hok ⊢
        by_cases hid : turn.streamId = streamId
        · rw [if_pos hid]
          exact ⟨congrArg some hid, rfl⟩
        · rw [if_neg hid] at hok
          simp at hok
  · intro hnone
    have hphase := h.phase.resolve_right fun hunsettled =>
      hunsettled.2.2 hnone
    refine ⟨hphase, ?_⟩
    rw [h.published]
    exact hphase

/-- In every run of the loop, each turn that was opened is reported as listening
once, and as ended once when it is no longer open, resolving or claimed. -/
theorem every_turn_told (events : List MicEvent) :
    (events.foldl MicManager.step MicManager.new).Told := by
  have hinv := Transition.reached_always Inv inv_new
    (fun event h => h.step event) events events.length
  rw [Transition.reached, List.take_length] at hinv
  exact hinv.told

end MicManager

end Mic

end Bridgething
