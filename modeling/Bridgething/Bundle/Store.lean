/-
The bundle store's install runs: one at a time, under a handle that ensuring,
disabling and the runs' own completions set and clear.
-/
import Bridgething.Lib.Transition

namespace Bridgething

namespace Bundle

/-- The runs are told apart by the order they began in. -/
abbrev RunId := Nat

/-- A run works, has cleared the handle, or has told those who wait for it. -/
inductive Phase
  | running
  | cleared
  | done
deriving Repr, DecidableEq

structure Run where
  forced : Bool
  cancel : Bool
  phase : Phase
deriving Repr, DecidableEq

structure RunHandle where
  run : RunId
  forced : Bool
deriving Repr, DecidableEq

/-- A caller of `ensure` is about to take the lock, waits for a run, or has
returned. -/
inductive Stage
  | locking
  | waiting (run : RunId) (settles : Bool)
  | returned
deriving Repr, DecidableEq

structure Caller where
  forced : Bool
  waited : Bool
  stage : Stage
deriving Repr, DecidableEq

/-- The store with the runs it began, those who called `ensure`, and the runs
that disabling it has taken away. -/
structure BundleStore where
  enabled : Bool
  run : Option RunHandle
  runs : List Run
  callers : List Caller
  taken : List RunId
deriving Repr, DecidableEq

inductive Event
  | ensure
  | downloadNow
  | lock (caller : Nat)
  | wake (caller : Nat)
  | setEnabled (value : Bool)
  | cancel (run : RunId)
  | complete (run : RunId)
  | announce (run : RunId)
deriving Repr, DecidableEq

namespace BundleStore

def new (enabled : Bool) : BundleStore := ⟨enabled, none, [], [], []⟩

def call (store : BundleStore) (forced : Bool) : BundleStore :=
  { store with callers := store.callers ++ [⟨forced, false, .locking⟩] }

def setStage (store : BundleStore) (index : Nat) (caller : Caller)
    (stage : Stage) : BundleStore :=
  { store with
    callers := store.callers.set index { caller with stage := stage } }

def beginRun (store : BundleStore) (forced : Bool) : BundleStore × RunHandle :=
  let handle : RunHandle := ⟨store.runs.length, forced⟩
  ({ store with
      run := some handle
      runs := store.runs ++ [⟨forced, false, .running⟩] }, handle)

/-- What a caller of `ensure` does under the lock. -/
def lockSection (store : BundleStore) (index : Nat) (caller : Caller) :
    BundleStore :=
  if ¬ store.enabled then store.setStage index caller .returned
  else
    match store.run with
    | some existing =>
        if caller.forced ∧ ¬ existing.forced ∧ ¬ caller.waited then
          store.setStage index caller (.waiting existing.run false)
        else store.setStage index caller (.waiting existing.run true)
    | none =>
        let (store, handle) := store.beginRun caller.forced
        store.setStage index caller (.waiting handle.run true)

def lock (store : BundleStore) (index : Nat) : BundleStore :=
  match store.callers[index]? with
  | some ⟨forced, waited, .locking⟩ =>
      store.lockSection index ⟨forced, waited, .locking⟩
  | _ => store

def isDone (store : BundleStore) (run : RunId) : Bool :=
  (store.runs[run]?).any fun held => held.phase = .done

def wake (store : BundleStore) (index : Nat) : BundleStore :=
  match store.callers[index]? with
  | some ⟨forced, waited, .waiting run settles⟩ =>
      if store.isDone run then
        if settles then
          store.setStage index ⟨forced, waited, .waiting run settles⟩ .returned
        else
          store.setStage index ⟨forced, true, .waiting run settles⟩ .locking
      else store
  | _ => store

/-- The flag of a run that is taken is set by a later step of the same call. -/
def setEnabled (store : BundleStore) (value : Bool) : BundleStore :=
  if store.enabled = value then store
  else
    let store := { store with enabled := value }
    if value then store.call false
    else
      match store.run with
      | some handle =>
          { store with run := none, taken := store.taken ++ [handle.run] }
      | none => store

def cancel (store : BundleStore) (run : RunId) : BundleStore :=
  if run ∈ store.taken then
    { store with
      runs := store.runs.modify run fun held => { held with cancel := true } }
  else store

def setPhase (store : BundleStore) (run : RunId) (phase : Phase) :
    BundleStore :=
  { store with
    runs := store.runs.modify run fun held => { held with phase := phase } }

/-- However its attempt went, a run that is over clears the handle. -/
def complete (store : BundleStore) (run : RunId) : BundleStore :=
  if (store.runs[run]?).any fun held => held.phase = .running then
    { store.setPhase run .cleared with run := none }
  else store

def announce (store : BundleStore) (run : RunId) : BundleStore :=
  if (store.runs[run]?).any fun held => held.phase = .cleared then
    store.setPhase run .done
  else store

def step (store : BundleStore) : Event → BundleStore
  | .ensure => store.call false
  | .downloadNow => store.call true
  | .lock caller => store.lock caller
  | .wake caller => store.wake caller
  | .setEnabled value => store.setEnabled value
  | .cancel run => store.cancel run
  | .complete run => store.complete run
  | .announce run => store.announce run

/-- The run has not cleared the handle yet. -/
def Active (store : BundleStore) (run : RunId) : Prop :=
  ∃ held, store.runs[run]? = some held ∧ held.phase = .running

/-- At most one run is active, and the handle is there exactly while an active
run was not taken away. -/
structure Single (store : BundleStore) : Prop where
  one : ∀ {left right}, store.Active left → store.Active right → left = right
  handle : store.run.isSome ↔ ∃ run, store.Active run ∧ run ∉ store.taken

/-- A caller that is about to begin a run: the store is enabled, and its handle
is free. -/
def Begins (store : BundleStore) (event : Event) : Prop :=
  ∃ index forced waited, event = .lock index ∧
    store.callers[index]? = some ⟨forced, waited, .locking⟩ ∧
    store.enabled ∧ store.run = none

/-- No run begins while one that was taken away is still active. -/
def Clear (store : BundleStore) (event : Event) : Prop :=
  store.Begins event → ∀ run ∈ store.taken, ¬ store.Active run

/-- The invariant: a handle is that of an active run, and every other active run
was taken away. -/
structure Held (store : BundleStore) : Prop where
  one : ∀ {left right}, store.Active left → store.Active right → left = right
  live : ∀ {handle}, store.run = some handle →
    store.Active handle.run ∧ handle.run ∉ store.taken
  known : ∀ {run}, store.Active run → run ∉ store.taken → store.run.isSome
  old : ∀ {run}, run ∈ store.taken → run < store.runs.length

theorem Held.single {store : BundleStore} (h : store.Held) : store.Single := by
  refine ⟨h.one, ?_⟩
  constructor
  · intro hsome
    obtain ⟨handle, hhandle⟩ := Option.isSome_iff_exists.mp hsome
    exact ⟨handle.run, h.live hhandle⟩
  · rintro ⟨run, hactive, hkept⟩
    exact h.known hactive hkept

/-- A step that leaves the runs' phases and the handle alone keeps what holds of
them. -/
theorem Held.same {store next : BundleStore} (h : store.Held)
    (hruns : next.runs.map Run.phase = store.runs.map Run.phase)
    (hrun : next.run = store.run) (htaken : next.taken = store.taken) :
    next.Held := by
  have hactive : ∀ {run}, next.Active run ↔ store.Active run := by
    intro run
    have hphase := congrArg (·[run]?) hruns
    simp only [List.getElem?_map] at hphase
    unfold Active
    cases hnext : next.runs[run]? <;> cases hheld : store.runs[run]? <;>
      simp [hnext, hheld] at hphase ⊢
    rw [hphase]
  have hlength : next.runs.length = store.runs.length := by
    simpa using congrArg List.length hruns
  constructor
  · exact fun hleft hright => h.one (hactive.mp hleft) (hactive.mp hright)
  · rw [hrun, htaken]
    exact fun hhandle => ⟨hactive.mpr (h.live hhandle).1, (h.live hhandle).2⟩
  · rw [hrun, htaken]
    exact fun hrun => h.known (hactive.mp hrun)
  · rw [htaken, hlength]
    exact h.old

theorem Held.setStage {store : BundleStore} (h : store.Held) (index : Nat)
    (caller : Caller) (stage : Stage) :
    (store.setStage index caller stage).Held :=
  h.same rfl rfl rfl

/-- A new run is active beside those that were. -/
theorem active_beginRun {store : BundleStore} {forced : Bool} {run : RunId} :
    (store.beginRun forced).1.Active run ↔
      run = store.runs.length ∨ store.Active run := by
  unfold Active beginRun
  simp only
  by_cases hlt : run < store.runs.length
  · rw [List.getElem?_append_left hlt]
    constructor
    · exact Or.inr
    · rintro (rfl | hactive)
      · exact absurd hlt (Nat.lt_irrefl _)
      · exact hactive
  · rw [List.getElem?_append_right (Nat.not_lt.mp hlt)]
    have hnone : store.runs[run]? = none :=
      List.getElem?_eq_none (Nat.not_lt.mp hlt)
    by_cases hsame : run = store.runs.length
    · simp [hsame]
    · have hpast : run - store.runs.length ≠ 0 :=
        Nat.sub_ne_zero_of_lt (Nat.lt_of_le_of_ne (Nat.not_lt.mp hlt)
          (Ne.symm hsame))
      simp [hsame, hnone, hpast]

theorem Held.beginRun {store : BundleStore} (h : store.Held) (forced : Bool)
    (hclear : ∀ run, ¬ store.Active run) : (store.beginRun forced).1.Held := by
  have honly : ∀ {run}, (store.beginRun forced).1.Active run →
      run = store.runs.length := by
    intro run hactive
    exact (active_beginRun.mp hactive).resolve_right (hclear run)
  constructor
  · intro left right hleft hright
    exact (honly hleft).trans (honly hright).symm
  · rintro handle ⟨⟩
    refine ⟨active_beginRun.mpr (Or.inl rfl), fun htaken => ?_⟩
    exact absurd (h.old htaken) (Nat.lt_irrefl _)
  · exact fun _ _ => rfl
  · intro run htaken
    simp only [BundleStore.beginRun, List.length_append]
    exact Nat.lt_succ_of_lt (h.old htaken)

/-- A run ends, and the others are as they were. -/
theorem active_setPhase {store : BundleStore} {run other : RunId}
    {phase : Phase} (hphase : phase ≠ .running) :
    (store.setPhase run phase).Active other ↔
      other ≠ run ∧ store.Active other := by
  unfold Active setPhase
  simp only [List.getElem?_modify]
  by_cases hsame : run = other
  · cases hheld : store.runs[other]? <;> simp [hsame, hphase]
  · cases hheld : store.runs[other]? <;> simp [hsame, Ne.symm hsame]

theorem length_setPhase (store : BundleStore) (run : RunId) (phase : Phase) :
    (store.setPhase run phase).runs.length = store.runs.length := by
  simp [setPhase]

theorem active_of_any {store : BundleStore} {run : RunId}
    (h : (store.runs[run]?).any fun held => held.phase = .running) :
    store.Active run := by
  obtain ⟨held, hheld, hphase⟩ := Option.any_eq_true _ _ |>.mp h
  exact ⟨held, hheld, by simpa using hphase⟩

theorem Held.complete {store : BundleStore} (h : store.Held) (run : RunId) :
    (store.complete run).Held := by
  unfold BundleStore.complete
  split
  · rename_i hrunning
    have hactive := active_of_any hrunning
    have hnone : ∀ {other}, ¬ (store.setPhase run .cleared).Active other := by
      intro other hother
      obtain ⟨hne, hbefore⟩ := (active_setPhase (by simp)).mp hother
      exact hne (h.one hbefore hactive)
    constructor
    · exact fun hleft => absurd hleft hnone
    · exact fun hhandle => absurd hhandle (by simp)
    · exact fun hother => absurd hother hnone
    · intro other htaken
      exact (length_setPhase store run .cleared).symm ▸ h.old htaken
  · exact h

theorem Held.announce {store : BundleStore} (h : store.Held) (run : RunId) :
    (store.announce run).Held := by
  unfold BundleStore.announce
  split
  · rename_i hcleared
    have hsame : ∀ {other}, (store.setPhase run .done).Active other ↔
        store.Active other := by
      intro other
      rw [active_setPhase (by simp)]
      refine ⟨And.right, fun hactive => ⟨?_, hactive⟩⟩
      rintro rfl
      obtain ⟨held, hheld, hphase⟩ := hactive
      simp [hheld, hphase] at hcleared
    constructor
    · exact fun hleft hright => h.one (hsame.mp hleft) (hsame.mp hright)
    · exact fun hhandle =>
        ⟨hsame.mpr (h.live hhandle).1, (h.live hhandle).2⟩
    · exact fun hother => h.known (hsame.mp hother)
    · intro other htaken
      exact (length_setPhase store run .done).symm ▸ h.old htaken
  · exact h

/-- Disabling takes the handle of the one run that is active. -/
theorem Held.setEnabled {store : BundleStore} (h : store.Held) (value : Bool) :
    (store.setEnabled value).Held := by
  unfold BundleStore.setEnabled
  split
  · exact h
  · cases value with
    | true => exact h.same rfl rfl rfl
    | false =>
        simp only [Bool.false_eq_true, ↓reduceIte]
        cases hrun : store.run with
        | none => exact h.same rfl hrun.symm rfl
        | some handle =>
            obtain ⟨hactive, -⟩ := h.live hrun
            constructor
            · exact h.one
            · exact fun hhandle => absurd hhandle (by simp)
            · intro run hother hkept
              have hsame := h.one hother hactive
              exact absurd (List.mem_append_right _
                (List.mem_singleton.mpr hsame)) hkept
            · intro run htaken
              rcases List.mem_append.mp htaken with hold | hnew
              · exact h.old hold
              · obtain ⟨held, hheld, -⟩ := hactive
                rw [List.mem_singleton.mp hnew]
                exact (List.getElem?_eq_some_iff.mp hheld).1

theorem Held.cancel {store : BundleStore} (h : store.Held) (run : RunId) :
    (store.cancel run).Held := by
  unfold BundleStore.cancel
  split
  · refine h.same ?_ rfl rfl
    apply List.ext_getElem?
    intro index
    simp only [List.getElem?_map, List.getElem?_modify]
    cases hheld : store.runs[index]? with
    | none => rfl
    | some held =>
        by_cases hsame : run = index <;> simp [hsame]
  · exact h

theorem Held.wake {store : BundleStore} (h : store.Held) (index : Nat) :
    (store.wake index).Held := by
  unfold BundleStore.wake
  split
  · split
    · split
      · exact h.setStage _ _ _
      · exact h.setStage _ _ _
    · exact h
  · exact h

/-- With the handle free, an active run was taken away. -/
theorem Held.taken_of_free {store : BundleStore} (h : store.Held) {run : RunId}
    (hfree : store.run = none) (hactive : store.Active run) :
    run ∈ store.taken := by
  by_contra hkept
  have hsome := h.known hactive hkept
  rw [hfree] at hsome
  exact absurd hsome (by simp)

theorem Held.lock {store : BundleStore} {index : Nat} (h : store.Held)
    (hclear : store.Clear (.lock index)) : (store.lock index).Held := by
  unfold BundleStore.lock
  split
  · rename_i forced waited hcaller
    unfold lockSection
    by_cases henabled : store.enabled
    · simp only [henabled, not_true_eq_false, ↓reduceIte]
      cases hrun : store.run with
      | some existing =>
          simp only
          split <;> exact h.setStage _ _ _
      | none =>
          have htaken := hclear ⟨index, forced, waited, rfl, hcaller, henabled,
            hrun⟩
          have hnone : ∀ run, ¬ store.Active run := fun run hactive =>
            htaken run (h.taken_of_free hrun hactive) hactive
          exact (h.beginRun forced hnone).setStage _ _ _
    · simp only [henabled, Bool.false_eq_true, not_false_eq_true, ↓reduceIte]
      exact h.setStage _ _ _
  · exact h

theorem Held.step {store : BundleStore} {event : Event} (h : store.Held)
    (hclear : store.Clear event) : (store.step event).Held := by
  cases event with
  | ensure => exact h.same rfl rfl rfl
  | downloadNow => exact h.same rfl rfl rfl
  | lock caller => exact h.lock hclear
  | wake caller => exact h.wake caller
  | setEnabled value => exact h.setEnabled value
  | cancel run => exact h.cancel run
  | complete run => exact h.complete run
  | announce run => exact h.announce run

/-- A run that begins beside another makes two. -/
theorem Held.step_double {store : BundleStore} {event : Event} (_ : store.Held)
    (hclear : ¬ store.Clear event) : ¬ (store.step event).Single := by
  simp only [Clear, not_forall, not_not] at hclear
  obtain ⟨⟨index, forced, waited, rfl, hcaller, henabled, hrun⟩, run, -,
    hactive⟩ := hclear
  intro hsingle
  have hnew : (store.step (.lock index)).Active store.runs.length := by
    simp only [BundleStore.step, BundleStore.lock, hcaller, lockSection,
      henabled, not_true_eq_false, ↓reduceIte, hrun]
    exact active_beginRun.mpr (Or.inl rfl)
  have hold : (store.step (.lock index)).Active run := by
    simp only [BundleStore.step, BundleStore.lock, hcaller, lockSection,
      henabled, not_true_eq_false, ↓reduceIte, hrun]
    exact active_beginRun.mpr (Or.inr hactive)
  obtain ⟨held, hheld, -⟩ := hactive
  have hlt := (List.getElem?_eq_some_iff.mp hheld).1
  exact absurd (hsingle.one hold hnew) (Nat.ne_of_lt hlt)

theorem held_new (enabled : Bool) : (BundleStore.new enabled).Held := by
  constructor
  · rintro left right ⟨held, hheld, -⟩
    simp [BundleStore.new] at hheld
  · rintro handle ⟨⟩
  · rintro run ⟨held, hheld, -⟩
    simp [BundleStore.new] at hheld
  · intro run htaken
    simp [BundleStore.new] at htaken

/-- The store runs one install at a time all along if and only if no run begins
while one that was taken away is still active. -/
theorem single_iff_clear (enabled : Bool) (events : List Event) :
    (∀ count ≤ events.length, (Transition.reached step
      (BundleStore.new enabled) events count).Single) ↔
    ∀ count event, events[count]? = some event → (Transition.reached step
      (BundleStore.new enabled) events count).Clear event :=
  Transition.reached_iff (held_new enabled) Held.single Held.step
    Held.step_double events

/-- Disabled and enabled again while its run is active, the store begins another;
then the first one clears the handle of the second. -/
def reenabled : List Event :=
  [.ensure, .lock 0, .setEnabled false, .setEnabled true, .lock 1, .complete 0]

theorem reenabled_doubles :
    ¬ (∀ count ≤ reenabled.length, (Transition.reached step
        (BundleStore.new true) reenabled count).Single) ∧
      (Transition.reached step (BundleStore.new true) reenabled 6).run = none ∧
      ¬ (Transition.reached step (BundleStore.new true) reenabled 6).Single := by
  refine ⟨fun hsingle => ?_, rfl, fun hsingle => ?_⟩
  · have hfirst : (Transition.reached step (BundleStore.new true) reenabled
        5).Active 0 := ⟨⟨false, false, .running⟩, rfl, rfl⟩
    have hsecond : (Transition.reached step (BundleStore.new true) reenabled
        5).Active 1 := ⟨⟨false, false, .running⟩, rfl, rfl⟩
    exact absurd ((hsingle 5 (by decide)).one hfirst hsecond) (by decide)
  · have hhandle := hsingle.handle.mpr
      ⟨1, ⟨⟨false, false, .running⟩, rfl, rfl⟩, by decide⟩
    exact absurd hhandle (by decide)

end BundleStore

end Bundle

end Bridgething
