/-
Settled runs of the store: a run whose outcome is set is in that outcome's
phase, and stays there unless a late event is taken for it.
-/
import Bridgething.Ota.ResumeOnce

namespace Bridgething

namespace Ota

/-- The phase that a run ends in. -/
def OtaRunOutcome.phase : OtaRunOutcome → OtaRunPhase
  | .succeeded => .completed
  | .failed => .failed
  | .cancelled => .failed

/-- The outcome that a reason stands for. -/
def OtaRunOutcome.ofReason (reason : String) : OtaRunOutcome :=
  if reason = CANCELLED_REASON then .cancelled else .failed

/-- The phase that a snapshot reports. -/
def OtaPhaseSnapshot.phase : OtaPhaseSnapshot → OtaRunPhase
  | .idle => .idle
  | .downloading _ _ _ _ => .downloading
  | .streaming _ _ _ _ _ => .streaming
  | .applying phase _ => phase.runPhase
  | .staged => .writing
  | .completed => .completed
  | .failed _ => .failed

/-- What of a run its settling is about. -/
structure Standing where
  runId : String
  outcome : Option OtaRunOutcome
  phase : OtaRunPhase
deriving Repr, DecidableEq

def OtaRun.standing (run : OtaRun) : Standing :=
  ⟨run.runId, run.outcome, run.phase⟩

def OtaRunStore.standing (store : OtaRunStore) (key : RunKey) :
    Option Standing :=
  (store.runs.get? key).map OtaRun.standing

/-- The run under a key has its outcome, and is in the phase of it. -/
def Settled (store : OtaRunStore) (key : RunKey) (runId : String)
    (outcome : OtaRunOutcome) : Prop :=
  store.standing key = some ⟨runId, some outcome, outcome.phase⟩

instance (store : OtaRunStore) (key : RunKey) (runId : String)
    (outcome : OtaRunOutcome) : Decidable (Settled store key runId outcome) :=
  inferInstanceAs (Decidable (_ = _))

/-- A call that changes the store; `fresh` is the id a run opened by it gets. -/
inductive StoreCall
  | ingest (event : OtaPollEvent) (identity : Option String) (now : Nat)
      (fresh : String)
  | interrupt (deviceId : String) (now : Nat)
  | takeResume (deviceId : String) (now : Nat)
  | dismiss (deviceId : String) (lane : OtaLane) (now : Nat)
  | annotateWebapp (deviceId : String) (webappId webappName : Option String)
      (now : Nat)
deriving Repr

namespace StoreCall

def apply (store : OtaRunStore) : StoreCall → OtaRunStore
  | .ingest event identity now fresh =>
      (store.ingest event identity now fresh).2
  | .interrupt deviceId now => (store.interrupt deviceId now).2
  | .takeResume deviceId now => (store.takeResume deviceId now).2
  | .dismiss deviceId lane now => (store.dismiss deviceId lane now).2
  | .annotateWebapp deviceId webappId webappName now =>
      (store.annotateWebapp deviceId webappId webappName now).2

/-- The call is not for the run under the key, but in its place: it plans
another there, or clears it away. -/
def Replaces (key : RunKey) : StoreCall → Prop
  | .ingest (.planned deviceId kind _ _ _ _ _ _) _ _ _ =>
      key = (deviceId, .of kind)
  | .dismiss deviceId lane _ => key = (deviceId, lane)
  | _ => False

/-- The call says of a settled run only what has settled it: progress is in the
phase that the run ended in, a success is of a run that succeeded, and a failure
of one that failed in the same way, or is kept for its resume. -/
def Respects (store : OtaRunStore) : StoreCall → Prop
  | .ingest (.progress deviceId kind _ snapshot) _ _ _ =>
      ∀ runId outcome, Settled store (deviceId, .of kind) runId outcome →
        snapshot.phase = outcome.phase
  | .ingest (.updated deviceId kind _) _ _ _ =>
      ∀ runId outcome, Settled store (deviceId, .of kind) runId outcome →
        outcome = .succeeded
  | .ingest (.failed deviceId kind reason) _ _ _ =>
      ∀ run outcome, store.run deviceId (.of kind) = some run →
        run.outcome = some outcome → run.phase = outcome.phase →
        run.resumable = true ∨ outcome = .ofReason reason
  | _ => True

end StoreCall

/-! ### Standings -/

section

variable {store : OtaRunStore} {key other : RunKey}

theorem standing_eq_some {standing : Standing} :
    store.standing key = some standing ↔
      ∃ run, store.runs.get? key = some run ∧ run.standing = standing :=
  Option.map_eq_some_iff

theorem standing_congr {next : OtaRunStore} (h : next.runs = store.runs) :
    next.standing = store.standing := by
  funext key
  simp only [OtaRunStore.standing, h]

@[simp] theorem standing_persist (store : OtaRunStore) (now : Nat) :
    (store.persist now).standing = store.standing :=
  standing_congr (persist_runs store now)

theorem standing_put_self (run : OtaRun) :
    OtaRunStore.standing { store with runs := store.runs.put key run } key =
      some run.standing := by
  simp [OtaRunStore.standing]

theorem standing_put_of_ne (run : OtaRun) (h : other ≠ key) :
    OtaRunStore.standing { store with runs := store.runs.put key run } other =
      store.standing other := by
  simp only [OtaRunStore.standing, Table.get?_put_of_ne _ _ h]

/-- A run that is changed where it stands, and not in its standing. -/
theorem standing_put_same {old run : OtaRun}
    (hget : store.runs.get? key = some old)
    (hsame : run.standing = old.standing) :
    OtaRunStore.standing { store with runs := store.runs.put key run } =
      store.standing := by
  funext other
  by_cases hkey : other = key
  · subst hkey
    rw [standing_put_self, hsame, OtaRunStore.standing, hget, Option.map_some]
  · exact standing_put_of_ne run hkey

theorem standing_stampIdentity (identity : String)
    (done : List OtaStoreChange × Bool × OtaRunStore)
    (change : OtaStoreChange) :
    (OtaRunStore.stampIdentity identity done change).2.2.standing =
      done.2.2.standing := by
  simp only [OtaRunStore.stampIdentity]
  split
  · split
    · rfl
    · split
      · rfl
      · rename_i hget
        exact standing_put_same hget rfl
  · rfl

theorem standing_stamps (identity : String) (changes : List OtaStoreChange)
    (done : List OtaStoreChange × Bool × OtaRunStore) :
    (changes.foldl (OtaRunStore.stampIdentity identity) done).2.2.standing =
      done.2.2.standing := by
  induction changes generalizing done with
  | nil => rfl
  | cons change rest ih =>
      rw [List.foldl_cons, ih, standing_stampIdentity]

/-- What an event does to the standings is what its reduction does. -/
theorem standing_ingest (event : OtaPollEvent) (identity : Option String)
    (now : Nat) (fresh : String) :
    (store.ingest event identity now fresh).2.standing =
      (store.reduce event now fresh).2.standing := by
  have hinner : (store.ingestInner event now fresh).2.standing =
      (store.reduce event now fresh).2.standing := by
    simp only [OtaRunStore.ingestInner]
    split
    · rfl
    · split
      · rfl
      · exact standing_persist _ now
  cases identity with
  | none => exact hinner
  | some identity =>
      have hstamped := standing_stamps identity
        (store.ingestInner event now fresh).1
        ([], false, (store.ingestInner event now fresh).2)
      simp only [OtaRunStore.ingest]
      split
      · rw [standing_persist, hstamped, hinner]
      · rw [hstamped, hinner]

theorem standing_takeResume (store : OtaRunStore) (deviceId : String)
    (now : Nat) :
    (store.takeResume deviceId now).2.standing = store.standing := by
  rcases takeResume_cases store deviceId now with hnone | ⟨run, hrun, -, htake⟩
  · rw [hnone]
  · rw [htake, standing_persist]
    exact standing_put_same hrun rfl

theorem standing_annotateWebapp (store : OtaRunStore) (deviceId : String)
    (webappId webappName : Option String) (now : Nat) :
    (store.annotateWebapp deviceId webappId webappName now).2.standing =
      store.standing := by
  simp only [OtaRunStore.annotateWebapp]
  cases hrun : store.run deviceId .webapp with
  | none => rfl
  | some run =>
      show (OtaRunStore.persist _ now).standing = _
      rw [standing_persist]
      exact standing_put_same hrun rfl

end

/-! ### Events -/

theorem progressRun_standing (run : OtaRun) (stepId : Nat)
    (snapshot : OtaPhaseSnapshot) (now : Nat) :
    (progressRun run stepId snapshot now).standing =
      ⟨run.runId, run.outcome, snapshot.phase⟩ := by
  obtain ⟨hsame, hphase⟩ := progressRun_same run stepId snapshot now
  have hown : (applySnapshot snapshot run).phase = snapshot.phase := by
    cases snapshot <;> rfl
  rw [OtaRun.standing, hsame.runId, hsame.outcome, hphase, hown]

theorem closedRun_standing (run : OtaRun) (reason : String) :
    (closedRun run reason).standing =
      ⟨run.runId, some (.ofReason reason), .failed⟩ := rfl

theorem updatedRun_standing (run : OtaRun) (version : String) :
    (updatedRun run version).standing =
      ⟨run.runId, some .succeeded, .completed⟩ := rfl

theorem standing_reduce_updated {store : OtaRunStore} {deviceId : String}
    {kind : OtaKind} {run : OtaRun} {version : String} {now : Nat}
    {fresh : String} (hrun : store.run deviceId (.of kind) = some run) :
    (store.reduce (.updated deviceId kind version) now fresh).2.standing =
      OtaRunStore.standing { store with
        runs := store.runs.put (deviceId, .of kind)
          (updatedRun run version) } := by
  simp only [OtaRunStore.reduce, hrun]
  cases OtaLane.of kind with
  | webapp => rfl
  | firmware => exact standing_congr rfl

/-- A run is put under a key, which leaves a settled run as it is if it is put
elsewhere or stands the same. -/
theorem Settled.put {store : OtaRunStore} {key other : RunKey}
    {runId : String} {outcome : OtaRunOutcome} {run : OtaRun}
    (h : Settled store key runId outcome)
    (hself : key = other →
      run.standing = ⟨runId, some outcome, outcome.phase⟩) :
    Settled { store with runs := store.runs.put other run } key runId
      outcome := by
  by_cases hkey : key = other
  · have hrun := hself hkey
    subst hkey
    exact (standing_put_self run).trans (congrArg some hrun)
  · exact (standing_put_of_ne run hkey).trans h

theorem Settled.congr {store next : OtaRunStore} {key : RunKey}
    {runId : String} {outcome : OtaRunOutcome}
    (h : Settled store key runId outcome)
    (hsame : next.standing = store.standing) :
    Settled next key runId outcome :=
  (congrFun hsame key).trans h

/-- A settled run under a key is the one found there. -/
theorem Settled.standing_eq {store : OtaRunStore} {deviceId runId : String}
    {lane : OtaLane} {outcome : OtaRunOutcome} {run : OtaRun}
    (h : Settled store (deviceId, lane) runId outcome)
    (hrun : store.run deviceId lane = some run) :
    run.standing = ⟨runId, some outcome, outcome.phase⟩ := by
  obtain ⟨found, hget, hstanding⟩ := standing_eq_some.mp h
  rw [OtaRunStore.run, hget] at hrun
  rw [← Option.some.inj hrun, hstanding]

theorem settled_of_run {store : OtaRunStore} {deviceId : String}
    {lane : OtaLane} {outcome : OtaRunOutcome} {run : OtaRun}
    (hrun : store.run deviceId lane = some run)
    (houtcome : run.outcome = some outcome)
    (hphase : run.phase = outcome.phase) :
    Settled store (deviceId, lane) run.runId outcome :=
  standing_eq_some.mpr ⟨run, hrun, by
    rw [OtaRun.standing, houtcome, hphase]⟩

section

variable {store : OtaRunStore} {key : RunKey} {runId : String}
  {outcome : OtaRunOutcome} {identity : Option String} {now : Nat}
  {fresh : String}

/-- An event that says of a settled run what has settled it leaves it so. -/
theorem Settled.reduce {event : OtaPollEvent}
    (h : Settled store key runId outcome)
    (hrespects : (StoreCall.ingest event identity now fresh).Respects store)
    (hstays : ¬ (StoreCall.ingest event identity now fresh).Replaces key) :
    Settled (store.reduce event now fresh).2 key runId outcome := by
  cases event with
  | manifestPolled checkedAt => exact h.congr (standing_congr rfl)
  | manifestPollFailed reason => exact h.congr (standing_congr rfl)
  | updateAvailable deviceId release daemonVersion imageVersion =>
      exact h.congr (standing_congr rfl)
  | planned deviceId kind release daemonVersion imageVersion channel rootUrl
      steps => exact h.put fun hkey => absurd hkey hstays
  | progress deviceId kind stepId snapshot =>
      simp only [OtaRunStore.reduce]
      cases hrun : store.run deviceId (.of kind) with
      | none => exact h
      | some run =>
          apply h.put
          rintro rfl
          have hstanding := h.standing_eq hrun
          have hid : run.runId = runId := congrArg Standing.runId hstanding
          have hown : run.outcome = some outcome :=
            congrArg Standing.outcome hstanding
          rw [progressRun_standing, hid, hown, hrespects runId outcome h]
  | updated deviceId kind version =>
      cases hrun : store.run deviceId (.of kind) with
      | none =>
          simp only [OtaRunStore.reduce, hrun]
          exact h
      | some run =>
          refine Settled.congr (h.put ?_) (standing_reduce_updated hrun)
          rintro rfl
          have hid : run.runId = runId :=
            congrArg Standing.runId (h.standing_eq hrun)
          rw [updatedRun_standing, hid, hrespects runId outcome h]
          rfl
  | failed deviceId kind reason =>
      simp only [OtaRunStore.reduce]
      split
      · apply h.put
        rintro rfl
        obtain ⟨run, hrun, hstanding⟩ := standing_eq_some.mp h
        rw [OtaRunStore.run, hrun]
        exact hstanding
      · rename_i hnot
        apply h.put
        rintro rfl
        obtain ⟨run, hrun, hstanding⟩ := standing_eq_some.mp h
        have hrun : store.run deviceId (.of kind) = some run := hrun
        rw [hrun, Option.getD_some] at hnot
        have hreason := (hrespects run outcome hrun
          (congrArg Standing.outcome hstanding)
          (congrArg Standing.phase hstanding)).resolve_left hnot
        have hid : run.runId = runId := congrArg Standing.runId hstanding
        have hphase : (OtaRunOutcome.ofReason reason).phase = .failed := by
          simp only [OtaRunOutcome.ofReason]
          split <;> rfl
        rw [hrun, Option.getD_some, closedRun_standing, hreason, hphase, hid]

/-- An event of another kind moves a settled run. -/
theorem respects_of_reduce {event : OtaPollEvent}
    (h : ∀ key runId outcome, Settled store key runId outcome →
      ¬ (StoreCall.ingest event identity now fresh).Replaces key →
      Settled (store.reduce event now fresh).2 key runId outcome) :
    (StoreCall.ingest event identity now fresh).Respects store := by
  cases event with
  | manifestPolled checkedAt => trivial
  | manifestPollFailed reason => trivial
  | updateAvailable deviceId release daemonVersion imageVersion => trivial
  | planned deviceId kind release daemonVersion imageVersion channel rootUrl
      steps => trivial
  | progress deviceId kind stepId snapshot =>
      intro runId outcome hsettled
      have hnext := h _ _ _ hsettled fun hreplaces => hreplaces
      obtain ⟨run, hrun, -⟩ := standing_eq_some.mp hsettled
      have hrun : store.run deviceId (.of kind) = some run := hrun
      simp only [OtaRunStore.reduce, hrun] at hnext
      rw [Settled, standing_put_self, progressRun_standing] at hnext
      exact congrArg Standing.phase (Option.some.inj hnext)
  | updated deviceId kind version =>
      intro runId outcome hsettled
      have hnext := h _ _ _ hsettled fun hreplaces => hreplaces
      obtain ⟨run, hrun, -⟩ := standing_eq_some.mp hsettled
      have hrun : store.run deviceId (.of kind) = some run := hrun
      rw [Settled, standing_reduce_updated hrun, standing_put_self] at hnext
      exact (Option.some.inj
        (congrArg Standing.outcome (Option.some.inj hnext))).symm
  | failed deviceId kind reason =>
      intro run outcome hrun houtcome hphase
      have hnext := h _ _ _ (settled_of_run hrun houtcome hphase)
        fun hreplaces => hreplaces
      simp only [OtaRunStore.reduce, hrun, Option.getD_some] at hnext
      by_cases hresumable : run.resumable = true
      · exact Or.inl hresumable
      · rw [if_neg hresumable, Settled, standing_put_self, closedRun_standing]
          at hnext
        exact Or.inr (Option.some.inj
          (congrArg Standing.outcome (Option.some.inj hnext))).symm

/-! ### Calls -/

theorem Settled.interruptLane {deviceId : String}
    {done : List OtaRun × OtaRunStore}
    (h : Settled done.2 key runId outcome) (lane : OtaLane) :
    Settled (OtaRunStore.interruptLane deviceId done lane).2 key runId
      outcome := by
  simp only [OtaRunStore.interruptLane]
  cases hrun : done.2.run deviceId lane with
  | none => exact h
  | some run =>
      dsimp only
      split
      · exact h
      · rename_i hopen
        apply h.put
        rintro rfl
        have hown : run.outcome = some outcome :=
          congrArg Standing.outcome (h.standing_eq hrun)
        simp [hown] at hopen

theorem Settled.interrupt (h : Settled store key runId outcome)
    (deviceId : String) (now : Nat) :
    Settled (store.interrupt deviceId now).2 key runId outcome := by
  have hfirst : Settled (OtaRunStore.interruptLane deviceId ([], store)
      .firmware).2 key runId outcome := Settled.interruptLane h .firmware
  have hlanes : Settled (OtaLane.ALL.foldl
      (OtaRunStore.interruptLane deviceId) ([], store)).2 key runId outcome :=
    Settled.interruptLane hfirst .webapp
  simp only [OtaRunStore.interrupt]
  split
  · exact hlanes
  · exact hlanes.congr (standing_persist _ now)

theorem Settled.dismiss (h : Settled store key runId outcome)
    {deviceId : String} {lane : OtaLane} (now : Nat)
    (hother : key ≠ (deviceId, lane)) :
    Settled (store.dismiss deviceId lane now).2 key runId outcome := by
  simp only [OtaRunStore.dismiss]
  split
  · exact h
  · split
    · exact h
    · refine Settled.congr ?_ (standing_persist _ now)
      rw [Settled, OtaRunStore.standing, Table.get?_remove_of_ne _ hother]
      exact h

/-- A call that respects what is settled leaves it so. -/
theorem Settled.apply (h : Settled store key runId outcome) {call : StoreCall}
    (hrespects : call.Respects store) (hstays : ¬ call.Replaces key) :
    Settled (call.apply store) key runId outcome := by
  cases call with
  | ingest event identity now fresh =>
      exact (h.reduce hrespects hstays).congr
        (standing_ingest event identity now fresh)
  | interrupt deviceId now => exact h.interrupt deviceId now
  | takeResume deviceId now =>
      exact h.congr (standing_takeResume store deviceId now)
  | dismiss deviceId lane now => exact h.dismiss now hstays
  | annotateWebapp deviceId webappId webappName now =>
      exact h.congr
        (standing_annotateWebapp store deviceId webappId webappName now)

/-- A call that leaves all that is settled so respects it. -/
theorem respects_of_apply {call : StoreCall}
    (h : ∀ key runId outcome, Settled store key runId outcome →
      ¬ call.Replaces key → Settled (call.apply store) key runId outcome) :
    call.Respects store := by
  cases call with
  | ingest event identity now fresh =>
      refine respects_of_reduce fun key runId outcome hsettled hstays => ?_
      exact (h key runId outcome hsettled hstays).congr
        (standing_ingest event identity now fresh).symm
  | interrupt => trivial
  | takeResume => trivial
  | dismiss => trivial
  | annotateWebapp => trivial

end

/-! ### How a run is settled -/

/-- The run under a key has an outcome only if it had one, or is in the phase
of it. -/
def SettlesAt (store next : OtaRunStore) (key : RunKey) : Prop :=
  ∀ runId outcome phase, next.standing key = some ⟨runId, some outcome, phase⟩ →
    phase = outcome.phase ∨
      ∃ before old, store.standing key = some ⟨runId, some before, old⟩

theorem SettlesAt.of_standing {store next : OtaRunStore} {key : RunKey}
    (h : next.standing key = store.standing key) : SettlesAt store next key :=
  fun _ outcome phase hnext => Or.inr ⟨outcome, phase, h ▸ hnext⟩

section

variable {store : OtaRunStore} {key : RunKey}

theorem SettlesAt.congr {next other : OtaRunStore}
    (h : SettlesAt store next key) (hsame : other.standing = next.standing) :
    SettlesAt store other key :=
  fun runId outcome phase hnext =>
    h runId outcome phase ((congrFun hsame key).symm.trans hnext)

theorem SettlesAt.put {other : RunKey} {run : OtaRun}
    (h : key = other → ∀ outcome, run.outcome = some outcome →
      run.phase = outcome.phase ∨ ∃ before old,
        store.standing key = some ⟨run.runId, some before, old⟩) :
    SettlesAt store { store with runs := store.runs.put other run } key := by
  by_cases hkey : key = other
  · subst hkey
    intro runId outcome phase hnext
    rw [standing_put_self] at hnext
    have hstanding := Option.some.inj hnext
    have hid : run.runId = runId := congrArg Standing.runId hstanding
    have hphase : run.phase = phase := congrArg Standing.phase hstanding
    rw [← hphase, ← hid]
    exact h rfl outcome (congrArg Standing.outcome hstanding)
  · exact SettlesAt.of_standing (standing_put_of_ne run hkey)

/-- A run is found under the key, with an outcome. -/
theorem standing_of_run {deviceId : String} {lane : OtaLane} {run : OtaRun}
    {outcome : OtaRunOutcome} (hrun : store.run deviceId lane = some run)
    (houtcome : run.outcome = some outcome) :
    store.standing (deviceId, lane) =
      some ⟨run.runId, some outcome, run.phase⟩ :=
  standing_eq_some.mpr ⟨run, hrun, by rw [OtaRun.standing, houtcome]⟩

theorem ofReason_phase (reason : String) :
    (OtaRunOutcome.ofReason reason).phase = .failed := by
  simp only [OtaRunOutcome.ofReason]
  split <;> rfl

theorem settlesAt_reduce (event : OtaPollEvent) (now : Nat) (fresh : String) :
    SettlesAt store (store.reduce event now fresh).2 key := by
  cases event with
  | manifestPolled checkedAt => exact SettlesAt.of_standing rfl
  | manifestPollFailed reason => exact SettlesAt.of_standing rfl
  | updateAvailable deviceId release daemonVersion imageVersion =>
      exact SettlesAt.of_standing rfl
  | planned deviceId kind release daemonVersion imageVersion channel rootUrl
      steps => exact SettlesAt.put fun _ outcome houtcome => nomatch houtcome
  | progress deviceId kind stepId snapshot =>
      simp only [OtaRunStore.reduce]
      cases hrun : store.run deviceId (.of kind) with
      | none => exact SettlesAt.of_standing rfl
      | some run =>
          apply SettlesAt.put
          rintro rfl outcome houtcome
          obtain ⟨hsame, -⟩ := progressRun_same run stepId snapshot now
          rw [hsame.runId]
          exact Or.inr ⟨outcome, run.phase,
            standing_of_run hrun (hsame.outcome.symm.trans houtcome)⟩
  | updated deviceId kind version =>
      cases hrun : store.run deviceId (.of kind) with
      | none =>
          simp only [OtaRunStore.reduce, hrun]
          exact SettlesAt.of_standing rfl
      | some run =>
          refine SettlesAt.congr (SettlesAt.put ?_)
            (standing_reduce_updated hrun)
          intro _ outcome houtcome
          rw [← Option.some.inj houtcome]
          exact Or.inl rfl
  | failed deviceId kind reason =>
      simp only [OtaRunStore.reduce]
      split
      · rename_i hresumable
        apply SettlesAt.put
        rintro rfl outcome houtcome
        cases hrun : store.run deviceId (.of kind) with
        | none =>
            rw [hrun] at hresumable
            contradiction
        | some run =>
            rw [hrun] at houtcome
            exact Or.inr ⟨outcome, run.phase, standing_of_run hrun houtcome⟩
      · apply SettlesAt.put
        intro _ outcome houtcome
        have hown : OtaRunOutcome.ofReason reason = outcome :=
          Option.some.inj houtcome
        rw [← hown, ofReason_phase]
        exact Or.inl rfl

theorem standing_interruptLane_of_ne {deviceId : String}
    {done : List OtaRun × OtaRunStore} {lane : OtaLane}
    (h : key ≠ (deviceId, lane)) :
    (OtaRunStore.interruptLane deviceId done lane).2.standing key =
      done.2.standing key := by
  simp only [OtaRunStore.interruptLane]
  split
  · rfl
  · split
    · rfl
    · exact standing_put_of_ne _ h

theorem settlesAt_interruptLane (deviceId : String)
    (done : List OtaRun × OtaRunStore) (lane : OtaLane) :
    SettlesAt done.2 (OtaRunStore.interruptLane deviceId done lane).2 key := by
  simp only [OtaRunStore.interruptLane]
  split
  · exact SettlesAt.of_standing rfl
  · split
    · exact SettlesAt.of_standing rfl
    · rename_i run _ hopen
      apply SettlesAt.put
      intro _ outcome houtcome
      rw [strand, if_neg hopen] at houtcome ⊢
      rw [← Option.some.inj houtcome]
      exact Or.inl rfl

theorem settlesAt_interrupt (deviceId : String) (now : Nat) :
    SettlesAt store (store.interrupt deviceId now).2 key := by
  have hlanes : SettlesAt store (OtaLane.ALL.foldl
      (OtaRunStore.interruptLane deviceId) ([], store)).2 key := by
    show SettlesAt store (OtaRunStore.interruptLane deviceId
      (OtaRunStore.interruptLane deviceId ([], store) .firmware)
        .webapp).2 key
    by_cases hkey : key = (deviceId, .webapp)
    · have hfirst : (OtaRunStore.interruptLane deviceId ([], store)
          .firmware).2.standing key = store.standing key :=
        standing_interruptLane_of_ne (by simp [hkey])
      have hsecond := @settlesAt_interruptLane key deviceId
        (OtaRunStore.interruptLane deviceId ([], store) .firmware) .webapp
      intro runId outcome phase hnext
      rw [← hfirst]
      exact hsecond runId outcome phase hnext
    · have hfirst := @settlesAt_interruptLane key deviceId ([], store) .firmware
      intro runId outcome phase hnext
      rw [standing_interruptLane_of_ne hkey] at hnext
      exact hfirst runId outcome phase hnext
  simp only [OtaRunStore.interrupt]
  split
  · exact hlanes
  · exact hlanes.congr (standing_persist _ now)

/-- Where a call sets an outcome, it brings the run into the phase of it. -/
theorem settlesAt_apply (call : StoreCall) :
    SettlesAt store (call.apply store) key := by
  cases call with
  | ingest event identity now fresh =>
      exact (settlesAt_reduce event now fresh).congr
        (standing_ingest event identity now fresh)
  | interrupt deviceId now => exact settlesAt_interrupt deviceId now
  | takeResume deviceId now =>
      exact SettlesAt.of_standing
        (congrFun (standing_takeResume store deviceId now) key)
  | dismiss deviceId lane now =>
      simp only [StoreCall.apply, OtaRunStore.dismiss]
      split
      · exact SettlesAt.of_standing rfl
      · split
        · exact SettlesAt.of_standing rfl
        · refine SettlesAt.congr ?_ (standing_persist _ now)
          by_cases hkey : key = (deviceId, lane)
          · subst hkey
            intro runId outcome phase hnext
            simp [OtaRunStore.standing, Table.get?_remove_self] at hnext
          · apply SettlesAt.of_standing
            simp only [OtaRunStore.standing, Table.get?_remove_of_ne _ hkey]
  | annotateWebapp deviceId webappId webappName now =>
      exact SettlesAt.of_standing (congrFun
        (standing_annotateWebapp store deviceId webappId webappName now) key)

end

/-! ### Runs of calls -/

/-- A call that sets a run's outcome brings it into the phase of that outcome;
and a run that is settled stays so, through all later calls that do not replace
it, if and only if every call respects what is settled where it comes. -/
theorem settled_iff_respects (store : OtaRunStore) (calls : List StoreCall) :
    (∀ count key, SettlesAt
        (Transition.reached StoreCall.apply store calls count)
        (Transition.reached StoreCall.apply store calls (count + 1)) key) ∧
      ((∀ first last key runId outcome, first ≤ last → last ≤ calls.length →
          Settled (Transition.reached StoreCall.apply store calls first) key
            runId outcome →
          (∀ count (call : StoreCall), first ≤ count → count < last →
            calls[count]? = some call → ¬ call.Replaces key) →
          Settled (Transition.reached StoreCall.apply store calls last) key
            runId outcome) ↔
        ∀ count (call : StoreCall), calls[count]? = some call → call.Respects
          (Transition.reached StoreCall.apply store calls count)) := by
  refine ⟨fun count key => ?_, fun h count call hcall => ?_,
    fun h first last key runId outcome hle hlast hsettled hstays => ?_⟩
  · cases hcall : calls[count]? with
    | none =>
        apply SettlesAt.of_standing
        rw [Transition.reached, Transition.reached, List.take_add_one, hcall]
        simp
    | some call =>
        rw [Transition.reached_succ hcall]
        exact settlesAt_apply call
  · have hlt := (List.getElem?_eq_some_iff.mp hcall).1
    apply respects_of_apply
    intro key runId outcome hsettled hstays
    have hnext := h count (count + 1) key runId outcome (Nat.le_succ _) hlt
      hsettled fun other found hle hless hfound => by
        obtain rfl : other = count := by omega
        rw [hcall] at hfound
        exact Option.some.inj hfound ▸ hstays
    rwa [Transition.reached_succ hcall] at hnext
  · induction last, hle using Nat.le_induction with
    | base => exact hsettled
    | succ last hle ih =>
        have hbefore := ih (Nat.le_of_succ_le hlast)
          fun count call hfirst hless => hstays count call hfirst (by omega)
        obtain ⟨call, hcall⟩ : ∃ call, calls[last]? = some call :=
          ⟨_, List.getElem?_eq_getElem (by omega)⟩
        rw [Transition.reached_succ hcall]
        exact hbefore.apply (h last call hcall)
          (hstays last call hle (Nat.lt_succ_self _) hcall)

/-- A plan, its failure, and a progress event that was under way. -/
def lateProgress : List StoreCall :=
  [.ingest plannedDaemon none 0 "a",
    .ingest (.failed "AA:BB" .daemon "lost") none 1 "b",
    .ingest (.progress "AA:BB" .daemon 0 (.applying .streaming 10)) none 2 "c"]

/-- The run has failed, and shows as streaming. -/
theorem late_progress_unsettles :
    ¬ ∀ first last key runId outcome,
      first ≤ last → last ≤ lateProgress.length →
      Settled (Transition.reached StoreCall.apply (.new none) lateProgress
        first) key runId outcome →
      (∀ count (call : StoreCall), first ≤ count → count < last →
        lateProgress[count]? = some call → ¬ call.Replaces key) →
      Settled (Transition.reached StoreCall.apply (.new none) lateProgress
        last) key runId outcome := by
  intro h
  have hstill := h 2 3 ("AA:BB", .firmware) "a" .failed (by decide) (by decide)
    (by decide) fun count call hle hless hcall => by
      obtain rfl : count = 2 := by omega
      rw [← Option.some.inj hcall]
      exact fun hreplaces => hreplaces
  revert hstill
  decide

end Ota

end Bridgething
