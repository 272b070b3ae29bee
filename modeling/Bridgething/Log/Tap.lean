/-
The log tap: its subscriptions, and the level of the filter, which is tuned to
the most verbose that they ask for.
-/
import Bridgething.Lib.Overlap
import Bridgething.Lib.Table

namespace Bridgething

namespace LogTap

open Overlap (Calls Lock Program)

inductive LogLevel
  | trace
  | debug
  | info
  | warn
  | error
deriving Repr, DecidableEq

/-- The more verbose a level, the lower it is. -/
def LogLevel.rank : LogLevel → Nat
  | trace => 0
  | debug => 1
  | info => 2
  | warn => 3
  | error => 4

theorem LogLevel.rank_injective : Function.Injective LogLevel.rank := by
  rintro (_ | _ | _ | _ | _) (_ | _ | _ | _ | _) h <;> trivial

instance : LinearOrder LogLevel :=
  LinearOrder.lift' LogLevel.rank LogLevel.rank_injective

abbrev Uuid := Nat

abbrev SocketAddr := Nat

abbrev Address := Nat

inductive LogOwner
  | client (addr : SocketAddr)
  | gateway (addr : Option Address)
deriving Repr, DecidableEq

structure SubscriberEntry where
  owner : LogOwner
  verbosity : Option LogLevel
deriving Repr, DecidableEq

abbrev Subscribers := Table Uuid SubscriberEntry

/-- The subscriptions, the level noted as applied, and the filter that is bound,
if one is, by the level last applied to it. -/
structure LogTapInner where
  subscribers : Subscribers := []
  applied : Option LogLevel := none
  filter : Option (Option LogLevel) := none
deriving DecidableEq

namespace LogTapInner

def wantedVerbosity (tap : LogTapInner) : Option LogLevel :=
  (tap.subscribers.values.filterMap SubscriberEntry.verbosity).min?

/-- What `retune` does once it has read what is wanted. -/
def tune (tap : LogTapInner) (wanted : Option LogLevel) : LogTapInner :=
  if tap.applied = wanted then tap
  else
    { tap with
      applied := wanted
      filter := tap.filter.map fun _ => wanted }

/-- What `bind_verbosity` does then.  The filter it binds is a new one, to which
nothing has been applied. -/
def install (tap : LogTapInner) (wanted : Option LogLevel) : LogTapInner :=
  { tap with
    applied := wanted
    filter := some (if wanted.isSome then wanted else none) }

/-- Takes a subscription out, and says whether it was there. -/
def remove (tap : LogTapInner) (token : Uuid) : LogTapInner × Bool :=
  ({ tap with subscribers := tap.subscribers.remove token },
    (tap.subscribers.get? token).isSome)

end LogTapInner

inductive Call
  | subscribe (owner : LogOwner) (token : Uuid) (verbosity : Option LogLevel)
  | setVerbosity (owner : LogOwner) (token : Uuid)
      (verbosity : Option LogLevel)
  | unsubscribe (token : Uuid)
  | drainForOwner (owner : LogOwner)
  | bindVerbosity
  /-- The sink of a subscription has died, and its task forgets it. -/
  | forget (token : Uuid)

/-- How far a call is: what it does next. -/
inductive Phase
  | inserting (token : Uuid) (entry : SubscriberEntry)
  | setting (owner : LogOwner) (token : Uuid) (verbosity : Option LogLevel)
  | removing (token : Uuid)
  | draining (owner : LogOwner)
  /-- `retune` takes the lock of the tuning. -/
  | retuning
  /-- It has the lock and reads what is wanted. -/
  | wanting
  | tuning (wanted : Option LogLevel)
  /-- `bind_verbosity` takes the lock of the tuning. -/
  | binding
  | polling
  | installing (wanted : Option LogLevel)
  | finished
deriving DecidableEq

def Call.begun : Call → Phase
  | subscribe owner token verbosity => .inserting token ⟨owner, verbosity⟩
  | setVerbosity owner token verbosity => .setting owner token verbosity
  | unsubscribe token | forget token => .removing token
  | drainForOwner owner => .draining owner
  | bindVerbosity => .binding

namespace Phase

/-- One step of a call. -/
def advance (tap : LogTapInner) : Phase → LogTapInner × Phase
  | inserting token entry =>
      ({ tap with subscribers := tap.subscribers.put token entry }, retuning)
  | setting owner token verbosity =>
      match (tap.subscribers.get? token).filter (·.owner = owner) with
      | some entry =>
          ({ tap with
              subscribers := tap.subscribers.put token
                { entry with verbosity := verbosity } }, retuning)
      | none => (tap, finished)
  | removing token =>
      if (tap.remove token).2 then ((tap.remove token).1, retuning)
      else (tap, finished)
  | draining owner =>
      ({ tap with
          subscribers := tap.subscribers.filter fun entry =>
            entry.2.owner ≠ owner }, retuning)
  | retuning => (tap, wanting)
  | wanting => (tap, tuning tap.wantedVerbosity)
  | tuning wanted => (tap.tune wanted, finished)
  | binding => (tap, polling)
  | polling => (tap, installing tap.wantedVerbosity)
  | installing wanted => (tap.install wanted, finished)
  | finished => (tap, finished)

/-- The call is still to read what is wanted. -/
def pending : Phase → Bool
  | retuning | wanting | binding | polling => true
  | _ => false

/-- What the call has read as wanted and is to apply. -/
def carried : Phase → Option (Option LogLevel)
  | tuning wanted | installing wanted => some wanted
  | _ => none

end Phase

/-- The lock of the tuning. -/
def tuningLock : Lock Phase where
  takes
    | .retuning | .binding => true
    | _ => false
  holds
    | .wanting | .polling | .tuning _ | .installing _ => true
    | _ => false

def program : Program LogTapInner Phase Call Unit where
  begun := Call.begun
  waits := tuningLock.waits
  advance tap _ phase := phase.advance tap

/-- A level that a live subscription asks for and none more verbose; or none
asks for any. -/
def MostVerbose (subscribers : Subscribers) : Option LogLevel → Prop
  | none => ∀ token entry, subscribers.get? token = some entry →
      entry.verbosity = none
  | some level =>
      (∃ token entry, subscribers.get? token = some entry ∧
        entry.verbosity = some level) ∧
      ∀ token entry other, subscribers.get? token = some entry →
        entry.verbosity = some other → level ≤ other

/-- The level noted as applied is the most verbose that is asked for, and it was
the last applied to the filter. -/
structure Tuned (tap : LogTapInner) : Prop where
  applied : MostVerbose tap.subscribers tap.applied
  filter : ∀ level, tap.filter = some level →
    MostVerbose tap.subscribers level

/-! ### What is wanted -/

theorem mostVerbose_wanted {tap : LogTapInner}
    (hkeys : tap.subscribers.keys.Nodup) :
    MostVerbose tap.subscribers tap.wantedVerbosity := by
  have hmem : ∀ level,
      level ∈ tap.subscribers.values.filterMap SubscriberEntry.verbosity ↔
        ∃ token entry, tap.subscribers.get? token = some entry ∧
          entry.verbosity = some level := by
    intro level
    rw [List.mem_filterMap]
    constructor
    · rintro ⟨entry, hentry, hlevel⟩
      obtain ⟨token, hget⟩ := (Table.mem_values hkeys).mp hentry
      exact ⟨token, entry, hget, hlevel⟩
    · rintro ⟨token, entry, hget, hlevel⟩
      exact ⟨entry, (Table.mem_values hkeys).mpr ⟨token, hget⟩, hlevel⟩
  cases hwanted : tap.wantedVerbosity with
  | none =>
      have hnil := List.min?_eq_none_iff.mp hwanted
      intro token entry hget
      by_contra hsome
      obtain ⟨level, hlevel⟩ := Option.ne_none_iff_exists'.mp hsome
      have hin := (hmem level).mpr ⟨token, entry, hget, hlevel⟩
      rw [hnil] at hin
      contradiction
  | some level =>
      obtain ⟨hin, hleast⟩ := List.min?_eq_some_iff.mp hwanted
      refine ⟨(hmem level).mp hin, ?_⟩
      intro token entry other hget hother
      exact hleast other ((hmem other).mpr ⟨token, entry, hget, hother⟩)

/-- Who is not the owner of a subscription does not set its verbosity. -/
theorem Phase.advance_setting_of_ne {tap : LogTapInner} {owner : LogOwner}
    {token : Uuid} {verbosity : Option LogLevel}
    (h : ∀ entry, tap.subscribers.get? token = some entry →
      entry.owner ≠ owner) :
    (setting owner token verbosity).advance tap = (tap, finished) := by
  have hnone : (tap.subscribers.get? token).filter (·.owner = owner) =
      none := by
    rw [Option.filter_eq_none_iff]
    intro entry hget
    simpa using h entry hget
  simp only [advance, hnone]

/-! ### The invariant -/

/-- No call is still to read what is wanted, those that have read it have read
what is wanted now, and it is applied unless there is such a call. -/
structure Current (calls : Calls LogTapInner Phase) : Prop where
  carried : ∀ (call : Nat) (phase : Phase) (wanted : Option LogLevel),
    calls.phases[call]? = some phase → phase.carried = some wanted →
      wanted = calls.state.wantedVerbosity
  applied : calls.state.applied = calls.state.wantedVerbosity ∨
    ∃ phase ∈ calls.phases, phase.carried.isSome = true

structure Sound (calls : Calls LogTapInner Phase) : Prop where
  nodup : calls.state.subscribers.keys.Nodup
  filter : ∀ level, calls.state.filter = some level →
    level = calls.state.applied
  exclusive : tuningLock.Exclusive calls
  tuned : (∃ phase ∈ calls.phases, phase.pending = true) ∨ Current calls

/-- What a step does: it changes the subscriptions and goes on to retune, or is
over; it goes on to read what is wanted; it reads it; or it applies it. -/
inductive Phase.Steps (tap : LogTapInner) (phase : Phase) :
    LogTapInner → Phase → Prop
  | change (subscribers : Subscribers)
      (hkeys : tap.subscribers.keys.Nodup → subscribers.keys.Nodup) :
      Steps tap phase { tap with subscribers := subscribers } retuning
  | nothing (hcarried : phase.carried = none)
      (hpending : phase.pending = false) : Steps tap phase tap finished
  | lock (next : Phase) (hpending : next.pending = true) :
      Steps tap phase tap next
  | read (next : Phase) (hholds : tuningLock.holds phase = true)
      (hcarried : next.carried = some tap.wantedVerbosity) :
      Steps tap phase tap next
  | apply (wanted : Option LogLevel) (after : LogTapInner)
      (hcarried : phase.carried = some wanted)
      (hpending : phase.pending = false)
      (hsubscribers : after.subscribers = tap.subscribers)
      (happlied : after.applied = wanted)
      (hfilter : (∀ level, tap.filter = some level → level = tap.applied) →
        ∀ level, after.filter = some level → level = wanted) :
      Steps tap phase after finished

theorem LogTapInner.applied_tune (tap : LogTapInner)
    (wanted : Option LogLevel) : (tap.tune wanted).applied = wanted := by
  rw [tune]
  split
  · assumption
  · rfl

theorem LogTapInner.filter_tune {tap : LogTapInner}
    (wanted : Option LogLevel)
    (h : ∀ level, tap.filter = some level → level = tap.applied) :
    ∀ level, (tap.tune wanted).filter = some level → level = wanted := by
  intro level hlevel
  rw [tune] at hlevel
  split at hlevel
  · next hsame =>
      rw [← hsame]
      exact h level hlevel
  · obtain ⟨old, -, hold⟩ := Option.map_eq_some_iff.mp hlevel
    exact hold.symm

theorem Phase.advance_steps (tap : LogTapInner) (phase : Phase) :
    phase.Steps tap (phase.advance tap).1 (phase.advance tap).2 := by
  cases phase with
  | inserting token entry =>
      exact .change _ fun h => Table.nodup_keys_put h _ _
  | setting owner token verbosity =>
      simp only [advance]
      split
      · exact .change _ fun h => Table.nodup_keys_put h _ _
      · exact .nothing rfl rfl
  | removing token =>
      simp only [advance]
      split
      · exact .change _ fun h => Table.nodup_keys_remove h _
      · exact .nothing rfl rfl
  | draining owner =>
      exact .change _ fun h => h.sublist (List.filter_sublist.map Prod.fst)
  | retuning => exact .lock _ rfl
  | wanting => exact .read _ rfl rfl
  | tuning wanted =>
      have hsubscribers : (tap.tune wanted).subscribers = tap.subscribers := by
        rw [LogTapInner.tune]
        split <;> rfl
      exact .apply wanted _ rfl rfl hsubscribers (tap.applied_tune wanted)
        fun h => LogTapInner.filter_tune wanted h
  | binding => exact .lock _ rfl
  | polling => exact .read _ rfl rfl
  | installing wanted =>
      refine .apply wanted _ rfl rfl rfl rfl fun _ level hlevel => ?_
      rw [← Option.some.inj hlevel]
      cases wanted <;> rfl
  | finished => exact .nothing rfl rfl

theorem Phase.holds_of_carried {phase : Phase} {wanted : Option LogLevel}
    (h : phase.carried = some wanted) : tuningLock.holds phase = true := by
  cases phase <;> first | rfl | contradiction

theorem Phase.holds_advance (tap : LogTapInner) {phase : Phase}
    (h : tuningLock.holds (phase.advance tap).2 = true) :
    tuningLock.takes phase = true ∨ tuningLock.holds phase = true := by
  cases phase with
  | retuning | binding => exact Or.inl rfl
  | wanting | polling | tuning | installing => exact Or.inr rfl
  | setting owner token verbosity =>
      simp only [advance] at h
      split at h <;> contradiction
  | removing token =>
      simp only [advance] at h
      split at h <;> contradiction
  | inserting | draining | finished => contradiction

section

variable {calls : Calls LogTapInner Phase} {call : Nat} {phase next : Phase}
  {after : LogTapInner}

theorem pending_self (hphase : calls.phases[call]? = some phase)
    (hpending : next.pending = true) :
    ∃ phase ∈ calls.phases.set call next, phase.pending = true :=
  ⟨next, List.mem_set (List.getElem?_eq_some_iff.mp hphase).1 _, hpending⟩

/-- Another call that satisfies something does so after the step. -/
theorem exists_set {P : Phase → Prop}
    (hphase : calls.phases[call]? = some phase) (hnot : ¬ P phase)
    (h : ∃ phase ∈ calls.phases, P phase) :
    ∃ phase ∈ calls.phases.set call next, P phase := by
  obtain ⟨other, found, hne, hfound, hp⟩ :=
    ((Calls.exists_iff hphase P).mp h).resolve_left hnot
  have hset : (calls.phases.set call next)[other]? = some found := by
    rw [List.getElem?_set_ne (Ne.symm hne), hfound]
  exact ⟨found, List.mem_of_getElem? hset, hp⟩

/-- Who has read what is wanted is the only one, as it has the lock. -/
theorem Current.read (hphase : calls.phases[call]? = some phase)
    (hwaits : tuningLock.waits calls phase = false)
    (hexclusive : tuningLock.Exclusive calls)
    (hholds : tuningLock.holds phase = true)
    (hcarried : next.carried = some calls.state.wantedVerbosity) :
    Current ⟨calls.state, calls.phases.set call next⟩ where
  carried := by
    intro other found wanted hfound hwanted
    rcases Calls.getElem?_set_cases hfound with ⟨-, rfl⟩ | ⟨hne, hold⟩
    · rw [hcarried] at hwanted
      exact (Option.some.inj hwanted).symm
    · have hfree := hexclusive.alone hphase hwaits (Or.inr hholds) hne hold
      rw [Phase.holds_of_carried hwanted] at hfree
      contradiction
  applied := by
    refine Or.inr ⟨next, ?_, by rw [hcarried]; rfl⟩
    exact List.mem_set (List.getElem?_eq_some_iff.mp hphase).1 _

theorem Current.nothing (h : Current calls)
    (hphase : calls.phases[call]? = some phase)
    (hcarried : phase.carried = none) :
    Current ⟨calls.state, calls.phases.set call .finished⟩ where
  carried := by
    intro other found wanted hfound hwanted
    rcases Calls.getElem?_set_cases hfound with ⟨-, rfl⟩ | ⟨-, hold⟩
    · contradiction
    · exact h.carried other found wanted hold hwanted
  applied := by
    refine h.applied.imp_right fun hsome => exists_set hphase ?_ hsome
    rw [hcarried]
    exact Bool.false_ne_true

theorem Current.apply (h : Current calls)
    (hphase : calls.phases[call]? = some phase)
    (hwaits : tuningLock.waits calls phase = false)
    (hexclusive : tuningLock.Exclusive calls) {wanted : Option LogLevel}
    (hcarried : phase.carried = some wanted)
    (hsubscribers : after.subscribers = calls.state.subscribers)
    (happlied : after.applied = wanted) :
    Current ⟨after, calls.phases.set call .finished⟩ where
  carried := by
    intro other found level hfound hlevel
    rcases Calls.getElem?_set_cases hfound with ⟨-, rfl⟩ | ⟨hne, hold⟩
    · contradiction
    · have hfree := hexclusive.alone hphase hwaits
        (Or.inr (Phase.holds_of_carried hcarried)) hne hold
      rw [Phase.holds_of_carried hlevel] at hfree
      contradiction
  applied := by
    left
    rw [happlied, LogTapInner.wantedVerbosity, hsubscribers]
    exact h.carried call phase wanted hphase hcarried

theorem tuned_step (h : Sound calls)
    (hphase : calls.phases[call]? = some phase)
    (hwaits : tuningLock.waits calls phase = false)
    (hsteps : phase.Steps calls.state after next) :
    (∃ phase ∈ calls.phases.set call next, phase.pending = true) ∨
      Current ⟨after, calls.phases.set call next⟩ := by
  cases hsteps with
  | change => exact Or.inl (pending_self hphase rfl)
  | lock _ hpending => exact Or.inl (pending_self hphase hpending)
  | read _ hholds hcarried =>
      exact Or.inr (Current.read hphase hwaits h.exclusive hholds hcarried)
  | nothing hcarried hpending =>
      rcases h.tuned with hothers | hcurrent
      · left
        exact exists_set hphase (by simp [hpending]) hothers
      · exact Or.inr (hcurrent.nothing hphase hcarried)
  | apply wanted _ hcarried hpending hsubscribers happlied _ =>
      rcases h.tuned with hothers | hcurrent
      · left
        exact exists_set hphase (by simp [hpending]) hothers
      · exact Or.inr (hcurrent.apply hphase hwaits h.exclusive hcarried
          hsubscribers happlied)

theorem Phase.Steps.nodup {tap : LogTapInner}
    (h : phase.Steps tap after next) (hkeys : tap.subscribers.keys.Nodup) :
    after.subscribers.keys.Nodup := by
  cases h with
  | change subscribers hchange => exact hchange hkeys
  | nothing | lock | read => exact hkeys
  | apply wanted _ _ _ hsubscribers _ _ =>
      rw [hsubscribers]
      exact hkeys

theorem Phase.Steps.filter {tap : LogTapInner}
    (h : phase.Steps tap after next)
    (hfilter : ∀ level, tap.filter = some level → level = tap.applied) :
    ∀ level, after.filter = some level → level = after.applied := by
  cases h with
  | change | nothing | lock | read => exact hfilter
  | apply wanted _ _ _ _ happlied happly =>
      rw [happlied]
      exact happly hfilter

theorem Sound.step (h : Sound calls)
    (hphase : calls.phases[call]? = some phase)
    (hwaits : tuningLock.waits calls phase = false) :
    Sound ⟨(phase.advance calls.state).1,
      calls.phases.set call (phase.advance calls.state).2⟩ :=
  have hsteps := phase.advance_steps calls.state
  { nodup := hsteps.nodup h.nodup
    filter := hsteps.filter h.filter
    exclusive := h.exclusive.step hphase hwaits
      (Phase.holds_advance calls.state)
    tuned := tuned_step h hphase hwaits hsteps }

theorem Sound.start (h : Sound calls) (call : Call) :
    Sound { calls with phases := calls.phases ++ [call.begun] } where
  nodup := h.nodup
  filter := h.filter
  exclusive := h.exclusive.start (by cases call <;> rfl)
  tuned := by
    have hcarried : call.begun.carried = none := by cases call <;> rfl
    rcases h.tuned with ⟨found, hfound, hpending⟩ | hcurrent
    · exact Or.inl ⟨found, List.mem_append_left _ hfound, hpending⟩
    · refine Or.inr ⟨?_, ?_⟩
      · intro other found wanted hfound hwanted
        simp only [List.getElem?_append] at hfound
        split at hfound
        · exact hcurrent.carried other found wanted hfound hwanted
        · rw [List.mem_singleton.mp (List.mem_of_getElem? hfound),
            hcarried] at hwanted
          contradiction
      · refine hcurrent.applied.imp_right ?_
        rintro ⟨found, hfound, hsome⟩
        exact ⟨found, List.mem_append_left _ hfound, hsome⟩

theorem Sound.tapTuned (h : Sound calls)
    (hfinished : ∀ phase ∈ calls.phases, phase = .finished) :
    Tuned calls.state := by
  have happlied : calls.state.applied = calls.state.wantedVerbosity := by
    rcases h.tuned with ⟨phase, hphase, hpending⟩ | hcurrent
    · rw [hfinished phase hphase] at hpending
      contradiction
    · refine hcurrent.applied.resolve_right ?_
      rintro ⟨phase, hphase, hsome⟩
      rw [hfinished phase hphase] at hsome
      contradiction
  have hmost := mostVerbose_wanted h.nodup
  rw [← happlied] at hmost
  refine ⟨hmost, fun level hlevel => ?_⟩
  rw [h.filter level hlevel]
  exact hmost

end

theorem sound_reached (events : List (Overlap.Event Call Unit))
    (count : Nat) : Sound (program.reached {} events count) := by
  refine @Program.reached_keeps LogTapInner Phase Call Unit program Sound
    (fun _ _ _ _ => True) {} ?_ ?_ ?_ events count ?_
  · exact ⟨List.nodup_nil, by simp, Lock.exclusive_nil _,
      Or.inr ⟨by simp, Or.inl rfl⟩⟩
  · exact fun call h => h.start call
  · exact fun h hphase hwaits _ => h.step hphase hwaits
  · intro before _ event _
    cases event with
    | start => trivial
    | step => exact fun _ _ _ => trivial

/-- In any interleaving, the filter is at the most verbose level that a live
subscription asks for whenever no call is under way; and who does not own a
subscription does not set its verbosity. -/
theorem run_tuned (events : List (Overlap.Event Call Unit)) (count : Nat) :
    ((∀ phase ∈ (program.reached {} events count).phases,
        phase = .finished) →
      Tuned (program.reached {} events count).state) ∧
    ∀ (call : Nat) (owner : LogOwner) (token : Uuid)
      (verbosity : Option LogLevel),
      (program.reached {} events count).phases[call]? =
        some (.setting owner token verbosity) →
      (∀ entry, (program.reached {} events count).state.subscribers.get?
        token = some entry → entry.owner ≠ owner) →
      program.apply (program.reached {} events count) (.step call ()) =
        ⟨(program.reached {} events count).state,
          (program.reached {} events count).phases.set call .finished⟩ := by
  refine ⟨(sound_reached events count).tapTuned, ?_⟩
  intro call owner token verbosity hphase howner
  have hadvance := @Phase.advance_setting_of_ne _ owner token verbosity howner
  have hfree : program.waits (program.reached {} events count)
      (.setting owner token verbosity) = false := rfl
  rw [Program.apply, hphase]
  simp only [hfree, Bool.false_eq_true, if_false]
  change Calls.mk (Phase.advance _ _).1 (List.set _ _ (Phase.advance _ _).2) = _
  rw [hadvance]

end LogTap

end Bridgething
