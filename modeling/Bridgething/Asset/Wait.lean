/-
Fetches of assets that are coalesced: who asks for an asset that is being
fetched waits for that fetch, and who asks for one that was just not found is
told so.
-/
import Bridgething.Lib.Overlap
import Bridgething.Lib.Table

namespace Bridgething

namespace AssetWait

open Overlap (Calls Program)

variable {α : Type}

/-- In nanoseconds. -/
abbrev Instant := Nat

def NEGATIVE_CACHE_TTL : Nat := 5 * 10 ^ 9

inductive FetchOutcome (α : Type)
  | got (asset : α)
  | notFound
deriving Repr, DecidableEq

/-- A broadcast channel, by its number. -/
abbrev Channel := Nat

/-- When an asset was not found, and when the fetch began that did not find it,
of which the code keeps nothing. -/
structure Negative where
  recorded : Instant
  began : Nat
deriving Repr, DecidableEq

/-- The two maps and what has been sent on the channels.  The clock tells which
came first of the beginnings of fetches and the invalidations; the code has
neither it nor the invalidations. -/
structure Inner (α : Type) where
  inflight : Table String Channel := []
  channels : Nat := 0
  sent : Table Channel (FetchOutcome α) := []
  negative : Table String Negative := []
  clock : Nat := 0
  invalidated : Table String Nat := []
deriving DecidableEq

inductive Call
  | fetchOrWait (id : String)
  | invalidate (id : String)

/-- How far a call is: what it does next. -/
inductive Phase (α : Type)
  /-- It looks whether the asset was just not found. -/
  | checking (id : String)
  /-- It joins a fetch, or enters its own. -/
  | joining (id : String)
  /-- It has joined a fetch. -/
  | waiting (id : String) (channel : Channel)
  | fetching (id : String) (channel : Channel) (began : Nat)
  /-- Its fetch has returned. -/
  | returning (id : String) (channel : Channel) (began : Nat)
      (outcome : FetchOutcome α)
  /-- It records that the asset was not found. -/
  | recording (id : String) (began : Nat)
  | answered (outcome : FetchOutcome α)
  | invalidating (id : String)
  /-- It has invalidated, or its caller was dropped. -/
  | gone
deriving DecidableEq

def Call.begun : Call → Phase α
  | fetchOrWait id => .checking id
  | invalidate id => .invalidating id

/-- The caller is dropped, or the call goes on: at this time, and with this
outcome if its fetch runs. -/
inductive Answer (α : Type)
  | dropped
  | goes (now : Instant) (outcome : FetchOutcome α)

namespace Phase

/-- A call that has been answered has no caller to be dropped. -/
def drop : Phase α → Phase α
  | answered outcome => answered outcome
  | _ => gone

/-- One step of a call. -/
def proceed (inner : Inner α) (now : Instant) (outcome : FetchOutcome α) :
    Phase α → Inner α × Phase α
  | checking id =>
      match inner.negative.get? id with
      | some entry =>
          if now - entry.recorded < NEGATIVE_CACHE_TTL then
            (inner, answered .notFound)
          else
            ({ inner with negative := inner.negative.remove id }, joining id)
      | none => (inner, joining id)
  | joining id =>
      match inner.inflight.get? id with
      | some channel => (inner, waiting id channel)
      | none =>
          ({ inner with
              inflight := inner.inflight.put id inner.channels
              channels := inner.channels + 1
              clock := inner.clock + 1 },
            fetching id inner.channels inner.clock)
  | waiting id channel =>
      match inner.sent.get? channel with
      | some outcome => (inner, answered outcome)
      | none =>
          -- the sender lives as long as it is in the map
          if channel ∈ inner.inflight.values then (inner, waiting id channel)
          else (inner, answered .notFound)
  | fetching id channel began => (inner, returning id channel began outcome)
  | returning id _ began outcome =>
      let sent :=
        match inner.inflight.get? id with
        | some channel =>
            { inner with
              inflight := inner.inflight.remove id
              sent := inner.sent.put channel outcome }
        | none => inner
      match outcome with
      | .notFound => (sent, recording id began)
      | .got asset => (sent, answered (.got asset))
  | recording id began =>
      ({ inner with negative := inner.negative.put id ⟨now, began⟩ },
        answered .notFound)
  | answered outcome => (inner, answered outcome)
  | invalidating id =>
      ({ inner with
          negative := inner.negative.remove id
          clock := inner.clock + 1
          invalidated := inner.invalidated.put id inner.clock }, gone)
  | gone => (inner, gone)

def advance (inner : Inner α) : Answer α → Phase α → Inner α × Phase α
  | .dropped, phase => (inner, phase.drop)
  | .goes now outcome, phase => phase.proceed inner now outcome

/-- The call has entered the fetch that the channel is of. -/
def Leads (id : String) (channel : Channel) : Phase α → Prop
  | fetching held own _ | returning held own _ _ =>
      held = id ∧ own = channel
  | _ => False

end Phase

/-- Each lock is held for one step only, so no call is kept waiting. -/
def program : Program (Inner α) (Phase α) Call (Answer α) where
  begun := Call.begun
  waits _ _ := false
  advance inner answer phase := phase.advance inner answer

/-- No two fetch the same asset; whoever waits for a fetch that no call leads
any more is answered at its next step; and an asset is held as not found only on
account of a fetch that began after the last invalidation. -/
structure Coalesced (calls : Calls (Inner α) (Phase α)) : Prop where
  single : ∀ (first second : Nat) (id : String) (one another : Channel)
    (began later : Nat),
    calls.phases[first]? = some (.fetching id one began) →
    calls.phases[second]? = some (.fetching id another later) →
    first = second
  answered : ∀ (id : String) (channel : Channel),
    Phase.waiting id channel ∈ calls.phases →
    (∃ phase ∈ calls.phases, phase.Leads id channel) ∨
      ∃ outcome, ∀ now ended,
        (Phase.waiting id channel).proceed calls.state now ended =
          (calls.state, .answered outcome)
  fresh : ∀ (id : String) (entry : Negative) (last : Nat),
    calls.state.negative.get? id = some entry →
    calls.state.invalidated.get? id = some last → last ≤ entry.began

/-- The caller of a fetch is not dropped before the outcome is sent; and what
was not found is recorded only if it was not invalidated since the fetch
began. -/
def Orderly (calls : Calls (Inner α) (Phase α)) (_ : Nat) :
    Answer α → Phase α → Prop
  | .dropped, .fetching _ _ _ | .dropped, .returning _ _ _ _ => False
  | .goes _ _, .recording id began => ∀ last,
      calls.state.invalidated.get? id = some last → last ≤ began
  | _, _ => True

/-! ### The fetches that are under way -/

/-- The map has the fetches that are under way, each with the channel of the
call that leads it, and whoever waits does so for one of them or for what has
been sent. -/
structure Flights (calls : Calls (Inner α) (Phase α)) : Prop where
  below : ∀ (id : String) (channel : Channel),
    calls.state.inflight.get? id = some channel →
    channel < calls.state.channels
  leads : ∀ (call : Nat) (phase : Phase α) (id : String) (channel : Channel),
    calls.phases[call]? = some phase → phase.Leads id channel →
    calls.state.inflight.get? id = some channel
  single : ∀ (first second : Nat) (one another : Phase α) (id : String)
    (channel : Channel), calls.phases[first]? = some one →
    calls.phases[second]? = some another → one.Leads id channel →
    another.Leads id channel → first = second
  led : ∀ (id : String) (channel : Channel),
    calls.state.inflight.get? id = some channel →
    ∃ phase ∈ calls.phases, phase.Leads id channel
  served : ∀ (call : Nat) (id : String) (channel : Channel),
    calls.phases[call]? = some (.waiting id channel) →
    calls.state.inflight.get? id = some channel ∨
      (calls.state.sent.get? channel).isSome = true

namespace Flights

variable {calls : Calls (Inner α) (Phase α)} {call : Nat}
  {phase next : Phase α} {after : Inner α}

/-- A step that leaves the map alone, and who leads. -/
theorem same (h : Flights calls) (hphase : calls.phases[call]? = some phase)
    (hinflight : after.inflight = calls.state.inflight)
    (hchannels : after.channels = calls.state.channels)
    (hsent : after.sent = calls.state.sent)
    (hleads : ∀ id channel, next.Leads id channel ↔ phase.Leads id channel)
    (hwaiting : ∀ id channel, next = .waiting id channel →
      calls.state.inflight.get? id = some channel ∨
        (calls.state.sent.get? channel).isSome = true) :
    Flights ⟨after, calls.phases.set call next⟩ := by
  have hback : ∀ {other : Nat} {found : Phase α} {id : String}
      {channel : Channel},
      (calls.phases.set call next)[other]? = some found →
      found.Leads id channel → ∃ before, calls.phases[other]? = some before ∧
        before.Leads id channel := by
    intro other found id channel hfound hlead
    rcases Calls.getElem?_set_cases hfound with ⟨rfl, rfl⟩ | ⟨-, hold⟩
    · exact ⟨phase, hphase, (hleads id channel).mp hlead⟩
    · exact ⟨found, hold, hlead⟩
  refine ⟨?_, ?_, ?_, ?_, ?_⟩
  · intro id channel hget
    rw [hinflight] at hget
    rw [hchannels]
    exact h.below id channel hget
  · intro other found id channel hfound hlead
    obtain ⟨before, hbefore, hled⟩ := hback hfound hlead
    rw [hinflight]
    exact h.leads other before id channel hbefore hled
  · intro first second one another id channel hone hanother hlead hother
    obtain ⟨left, hleft, hleftled⟩ := hback hone hlead
    obtain ⟨right, hright, hrightled⟩ := hback hanother hother
    exact h.single first second left right id channel hleft hright hleftled
      hrightled
  · intro id channel hget
    rw [hinflight] at hget
    have hled := h.led id channel hget
    have hset : (calls.phases.set call next)[call]? = some next :=
      List.getElem?_set_self (List.getElem?_eq_some_iff.mp hphase).1
    rw [Calls.exists_iff hphase, ← hleads] at hled
    refine (@Calls.exists_iff _ _ ⟨after, calls.phases.set call next⟩ call next
      hset _).mpr ?_
    exact hled.imp_right (Calls.others_set after next _).mpr
  · intro other id channel hfound
    rw [hinflight, hsent]
    rcases Calls.getElem?_set_cases hfound with ⟨-, hsame⟩ | ⟨-, hold⟩
    · exact hwaiting id channel hsame.symm
    · exact h.served other id channel hold

/-- A call enters its fetch under a channel that is new. -/
theorem enter (h : Flights calls) {id : String} {began : Nat}
    (hphase : calls.phases[call]? = some (.joining id))
    (hnone : calls.state.inflight.get? id = none)
    (hinflight : after.inflight =
      calls.state.inflight.put id calls.state.channels)
    (hchannels : after.channels = calls.state.channels + 1)
    (hsent : after.sent = calls.state.sent) :
    Flights ⟨after, calls.phases.set call
      (.fetching id calls.state.channels began)⟩ := by
  have hkept : ∀ {other : String} {channel : Channel},
      calls.state.inflight.get? other = some channel →
      after.inflight.get? other = some channel := by
    intro other channel hget
    have hne : other ≠ id := by
      rintro rfl
      rw [hnone] at hget
      contradiction
    rw [hinflight, Table.get?_put_of_ne _ _ hne, hget]
  have hown : after.inflight.get? id = some calls.state.channels := by
    rw [hinflight, Table.get?_put_self]
  have hfresh : ∀ {other : Nat} {found : Phase α} {asset : String}
      {channel : Channel}, calls.phases[other]? = some found →
      found.Leads asset channel → channel < calls.state.channels := by
    intro other found asset channel hfound hlead
    exact h.below asset channel (h.leads other found asset channel hfound hlead)
  refine ⟨?_, ?_, ?_, ?_, ?_⟩
  · intro other channel hget
    rw [hchannels]
    by_cases hsame : other = id
    · rw [hsame, hown, Option.some.injEq] at hget
      rw [← hget]
      exact Nat.lt_succ_self _
    · rw [hinflight, Table.get?_put_of_ne _ _ hsame] at hget
      exact Nat.lt_succ_of_lt (h.below other channel hget)
  · intro other found asset channel hfound hlead
    rcases Calls.getElem?_set_cases hfound with ⟨-, rfl⟩ | ⟨-, hold⟩
    · obtain ⟨rfl, rfl⟩ := hlead
      exact hown
    · exact hkept (h.leads other found asset channel hold hlead)
  · intro first second one another asset channel hone hanother hlead hother
    rcases Calls.getElem?_set_cases hone with ⟨rfl, rfl⟩ | ⟨-, hold⟩
    · rcases Calls.getElem?_set_cases hanother with ⟨rfl, -⟩ | ⟨-, hlast⟩
      · rfl
      · have hlt := hfresh hlast hother
        rw [← hlead.2] at hlt
        exact absurd hlt (Nat.lt_irrefl _)
    · rcases Calls.getElem?_set_cases hanother with ⟨-, rfl⟩ | ⟨-, hlast⟩
      · have hlt := hfresh hold hlead
        rw [← hother.2] at hlt
        exact absurd hlt (Nat.lt_irrefl _)
      · exact h.single first second one another asset channel hold hlast hlead
          hother
  · intro other channel hget
    by_cases hsame : other = id
    · rw [hsame, hown, Option.some.injEq] at hget
      refine ⟨_, List.mem_set (List.getElem?_eq_some_iff.mp hphase).1 _, ?_⟩
      exact ⟨hsame.symm, hget⟩
    · rw [hinflight, Table.get?_put_of_ne _ _ hsame] at hget
      obtain ⟨index, found, hne, hfound, hlead⟩ :=
        ((Calls.exists_iff hphase _).mp (h.led other channel hget)).resolve_left
          fun hlead => hlead
      have hset : (calls.phases.set call
          (.fetching id calls.state.channels began))[index]? = some found := by
        rw [List.getElem?_set_ne (Ne.symm hne), hfound]
      exact ⟨found, List.mem_of_getElem? hset, hlead⟩
  · intro other asset channel hfound
    rcases Calls.getElem?_set_cases hfound with ⟨-, hsame⟩ | ⟨-, hold⟩
    · contradiction
    · rw [hsent]
      exact (h.served other asset channel hold).imp_left hkept

/-- The outcome of a fetch is sent to those who wait for it. -/
theorem send (h : Flights calls) {id : String} {channel : Channel}
    {began : Nat} {outcome : FetchOutcome α}
    (hphase : calls.phases[call]? =
      some (.returning id channel began outcome))
    (hinflight : after.inflight = calls.state.inflight.remove id)
    (hchannels : after.channels = calls.state.channels)
    (hsent : after.sent = calls.state.sent.put channel outcome)
    (hleads : ∀ asset other, ¬ next.Leads asset other)
    (hwaiting : ∀ asset other, next ≠ .waiting asset other) :
    Flights ⟨after, calls.phases.set call next⟩ := by
  have hown : calls.state.inflight.get? id = some channel :=
    h.leads call _ id channel hphase ⟨rfl, rfl⟩
  have hkept : ∀ {asset : String} {other : Channel},
      after.inflight.get? asset = some other →
      asset ≠ id ∧ calls.state.inflight.get? asset = some other := by
    intro asset other hget
    have hne : asset ≠ id := by
      rintro rfl
      rw [hinflight, Table.get?_remove_self] at hget
      contradiction
    rw [hinflight, Table.get?_remove_of_ne _ hne] at hget
    exact ⟨hne, hget⟩
  refine ⟨?_, ?_, ?_, ?_, ?_⟩
  · intro asset other hget
    rw [hchannels]
    exact h.below asset other (hkept hget).2
  · intro index found asset other hfound hlead
    rcases Calls.getElem?_set_cases hfound with ⟨-, rfl⟩ | ⟨hne, hold⟩
    · exact absurd hlead (hleads asset other)
    · have hget := h.leads index found asset other hold hlead
      have hother : asset ≠ id := by
        rintro rfl
        rw [hown, Option.some.injEq] at hget
        subst hget
        exact hne (h.single index call found _ asset channel hold hphase hlead
          ⟨rfl, rfl⟩)
      rw [hinflight, Table.get?_remove_of_ne _ hother, hget]
  · intro first second one another asset other hone hanother hlead hboth
    rcases Calls.getElem?_set_cases hone with ⟨-, rfl⟩ | ⟨-, hold⟩
    · exact absurd hlead (hleads asset other)
    · rcases Calls.getElem?_set_cases hanother with ⟨-, rfl⟩ | ⟨-, hlast⟩
      · exact absurd hboth (hleads asset other)
      · exact h.single first second one another asset other hold hlast hlead
          hboth
  · intro asset other hget
    obtain ⟨hne, hbefore⟩ := hkept hget
    obtain ⟨index, found, hindex, hfound, hlead⟩ :=
      ((Calls.exists_iff hphase _).mp (h.led asset other hbefore)).resolve_left
        fun hlead => hne hlead.1.symm
    have hset : (calls.phases.set call next)[index]? = some found := by
      rw [List.getElem?_set_ne (Ne.symm hindex), hfound]
    exact ⟨found, List.mem_of_getElem? hset, hlead⟩
  · intro index asset other hfound
    rw [hinflight, hsent]
    rcases Calls.getElem?_set_cases hfound with ⟨-, hsame⟩ | ⟨-, hold⟩
    · exact absurd hsame.symm (hwaiting asset other)
    · by_cases hsame : other = channel
      · right
        rw [hsame, Table.get?_put_self]
        rfl
      · rw [Table.get?_put_of_ne _ _ hsame]
        refine (h.served index asset other hold).imp_left fun hget => ?_
        have hne : asset ≠ id := by
          rintro rfl
          rw [hown, Option.some.injEq] at hget
          exact hsame hget.symm
        rw [Table.get?_remove_of_ne _ hne, hget]

end Flights

/-- What is held as not found was not invalidated since its fetch began. -/
def Fresh (inner : Inner α) : Prop :=
  ∀ (id : String) (entry : Negative) (last : Nat),
    inner.negative.get? id = some entry →
    inner.invalidated.get? id = some last → last ≤ entry.began

theorem Fresh.forget {inner : Inner α} (h : Fresh inner) (id : String) :
    Fresh { inner with negative := inner.negative.remove id } := by
  intro other entry last hentry hlast
  by_cases hsame : other = id
  · simp only [hsame, Table.get?_remove_self] at hentry
    contradiction
  · simp only [Table.get?_remove_of_ne _ hsame] at hentry
    exact h other entry last hentry hlast

/-- The invariant of the steps. -/
structure Sound (calls : Calls (Inner α) (Phase α)) : Prop where
  flights : Flights calls
  fresh : Fresh calls.state

section

variable {calls : Calls (Inner α) (Phase α)} {call : Nat} {phase : Phase α}

/-- A caller that is dropped and leads no fetch leaves all as it is. -/
theorem Sound.drop (h : Sound calls)
    (hphase : calls.phases[call]? = some phase)
    (hleads : ∀ id channel, ¬ phase.Leads id channel) :
    Sound ⟨calls.state, calls.phases.set call phase.drop⟩ := by
  have hdropped : ∀ id channel, ¬ phase.drop.Leads id channel := by
    intro id channel hlead
    cases phase <;> exact hlead
  refine ⟨h.flights.same hphase rfl rfl rfl ?_ ?_, h.fresh⟩
  · intro id channel
    exact iff_of_false (hdropped id channel) (hleads id channel)
  · intro id channel hwaiting
    cases phase <;> contradiction

theorem Sound.proceed (h : Sound calls) (now : Instant)
    (outcome : FetchOutcome α) (hphase : calls.phases[call]? = some phase)
    (horderly : Orderly calls call (.goes now outcome) phase) :
    Sound ⟨(phase.proceed calls.state now outcome).1,
      calls.phases.set call (phase.proceed calls.state now outcome).2⟩ := by
  cases phase with
  | checking id =>
      have hsame : ∀ {after : Inner α} {next : Phase α},
          after.inflight = calls.state.inflight →
          after.channels = calls.state.channels →
          after.sent = calls.state.sent →
          (∀ asset channel, ¬ next.Leads asset channel) →
          (∀ asset channel, next ≠ .waiting asset channel) →
          Flights ⟨after, calls.phases.set call next⟩ := by
        intro after next hinflight hchannels hsent hleads hwaiting
        refine h.flights.same hphase hinflight hchannels hsent ?_ ?_
        · intro asset channel
          exact iff_of_false (hleads asset channel) fun hlead => hlead
        · intro asset channel hnext
          exact absurd hnext (hwaiting asset channel)
      simp only [Phase.proceed]
      split
      · split
        · exact ⟨hsame rfl rfl rfl (fun _ _ hlead => hlead) (by simp), h.fresh⟩
        · exact ⟨hsame rfl rfl rfl (fun _ _ hlead => hlead) (by simp),
            h.fresh.forget id⟩
      · exact ⟨hsame rfl rfl rfl (fun _ _ hlead => hlead) (by simp), h.fresh⟩
  | joining id =>
      cases hget : calls.state.inflight.get? id with
      | some channel =>
          simp only [Phase.proceed, hget]
          refine ⟨h.flights.same hphase rfl rfl rfl ?_ ?_, h.fresh⟩
          · exact fun _ _ => Iff.rfl
          · rintro asset other hnext
            obtain ⟨rfl, rfl⟩ := Phase.waiting.inj hnext
            exact Or.inl hget
      | none =>
          simp only [Phase.proceed, hget]
          exact ⟨h.flights.enter hphase hget rfl rfl rfl, h.fresh⟩
  | waiting id channel =>
      have hanswered : ∀ outcome, Flights ⟨calls.state,
          calls.phases.set call (.answered outcome)⟩ := by
        intro outcome
        refine h.flights.same hphase rfl rfl rfl (fun _ _ => Iff.rfl) ?_
        simp
      simp only [Phase.proceed]
      split
      · exact ⟨hanswered _, h.fresh⟩
      · split
        · refine ⟨h.flights.same hphase rfl rfl rfl (fun _ _ => Iff.rfl) ?_,
            h.fresh⟩
          intro asset other hnext
          obtain ⟨rfl, rfl⟩ := Phase.waiting.inj hnext
          exact h.flights.served call id channel hphase
        · exact ⟨hanswered _, h.fresh⟩
  | fetching id channel began =>
      refine ⟨h.flights.same hphase rfl rfl rfl (fun _ _ => Iff.rfl) ?_,
        h.fresh⟩
      simp [Phase.proceed]
  | returning id channel began outcome =>
      have hget : calls.state.inflight.get? id = some channel :=
        h.flights.leads call _ id channel hphase ⟨rfl, rfl⟩
      simp only [Phase.proceed, hget]
      cases outcome with
      | notFound =>
          exact ⟨h.flights.send hphase rfl rfl rfl (fun _ _ hlead => hlead)
            (by simp), h.fresh⟩
      | got asset =>
          exact ⟨h.flights.send hphase rfl rfl rfl (fun _ _ hlead => hlead)
            (by simp), h.fresh⟩
  | recording id began =>
      refine ⟨h.flights.same hphase rfl rfl rfl (fun _ _ => Iff.rfl)
        (by simp [Phase.proceed]), ?_⟩
      intro other entry last hentry hlast
      by_cases hsame : other = id
      · simp only [Phase.proceed, hsame, Table.get?_put_self,
          Option.some.injEq] at hentry
        rw [← hentry]
        rw [hsame] at hlast
        exact horderly last hlast
      · simp only [Phase.proceed, Table.get?_put_of_ne _ _ hsame] at hentry
        exact h.fresh other entry last hentry hlast
  | answered outcome =>
      exact ⟨h.flights.same hphase rfl rfl rfl (fun _ _ => Iff.rfl)
        (by simp [Phase.proceed]), h.fresh⟩
  | invalidating id =>
      refine ⟨h.flights.same hphase rfl rfl rfl (fun _ _ => Iff.rfl)
        (by simp [Phase.proceed]), ?_⟩
      intro other entry last hentry hlast
      by_cases hsame : other = id
      · simp only [Phase.proceed, hsame, Table.get?_remove_self] at hentry
        contradiction
      · simp only [Phase.proceed, Table.get?_remove_of_ne _ hsame,
          Table.get?_put_of_ne _ _ hsame] at hentry hlast
        exact h.fresh other entry last hentry hlast
  | gone =>
      exact ⟨h.flights.same hphase rfl rfl rfl (fun _ _ => Iff.rfl)
        (by simp [Phase.proceed]), h.fresh⟩

theorem Sound.advance (h : Sound calls) {answer : Answer α}
    (hphase : calls.phases[call]? = some phase)
    (horderly : Orderly calls call answer phase) :
    Sound ⟨(phase.advance calls.state answer).1,
      calls.phases.set call (phase.advance calls.state answer).2⟩ := by
  cases answer with
  | goes now outcome => exact h.proceed now outcome hphase horderly
  | dropped =>
      refine h.drop hphase ?_
      intro id channel hlead
      cases phase <;> first | exact horderly | exact hlead

theorem Sound.start (h : Sound calls) (call : Call) :
    Sound { calls with phases := calls.phases ++ [call.begun] } := by
  have hold : ∀ {other : Nat} {found : Phase α},
      (calls.phases ++ [call.begun])[other]? = some found →
      calls.phases[other]? = some found ∨ found = call.begun := by
    intro other found hfound
    rw [List.getElem?_append] at hfound
    split at hfound
    · exact Or.inl hfound
    · exact Or.inr (List.mem_singleton.mp (List.mem_of_getElem? hfound))
  have hleads : ∀ id channel, ¬ (call.begun : Phase α).Leads id channel := by
    intro id channel hlead
    cases call <;> exact hlead
  refine ⟨⟨h.flights.below, ?_, ?_, ?_, ?_⟩, h.fresh⟩
  · intro other found id channel hfound hlead
    rcases hold hfound with hbefore | rfl
    · exact h.flights.leads other found id channel hbefore hlead
    · exact absurd hlead (hleads id channel)
  · intro first second one another id channel hone hanother hlead hother
    rcases hold hone with hbefore | rfl
    · rcases hold hanother with hlast | rfl
      · exact h.flights.single first second one another id channel hbefore
          hlast hlead hother
      · exact absurd hother (hleads id channel)
    · exact absurd hlead (hleads id channel)
  · intro id channel hget
    obtain ⟨found, hfound, hlead⟩ := h.flights.led id channel hget
    exact ⟨found, List.mem_append_left _ hfound, hlead⟩
  · intro other id channel hfound
    rcases hold hfound with hbefore | hsame
    · exact h.flights.served other id channel hbefore
    · cases call <;> contradiction

theorem Sound.coalesced (h : Sound calls) : Coalesced calls where
  single := by
    intro first second id one another began later hone hanother
    have hleft := h.flights.leads first _ id one hone ⟨rfl, rfl⟩
    have hright := h.flights.leads second _ id another hanother ⟨rfl, rfl⟩
    rw [hleft, Option.some.injEq] at hright
    exact h.flights.single first second _ _ id one hone hanother ⟨rfl, rfl⟩
      ⟨rfl, hright.symm⟩
  answered := by
    intro id channel hwaiting
    obtain ⟨call, hcall⟩ := List.mem_iff_getElem?.mp hwaiting
    rcases h.flights.served call id channel hcall with hget | hsent
    · exact Or.inl (h.flights.led id channel hget)
    · obtain ⟨outcome, houtcome⟩ := Option.isSome_iff_exists.mp hsent
      refine Or.inr ⟨outcome, fun now ended => ?_⟩
      simp only [Phase.proceed, houtcome]
  fresh := h.fresh

end

/-- In any interleaving of orderly steps, fetches are coalesced at every
moment. -/
theorem run_coalesced (events : List (Overlap.Event Call (Answer α)))
    (horderly : ∀ (count : Nat) (event : Overlap.Event Call (Answer α)),
      events[count]? = some event →
        program.Meets Orderly (program.reached {} events count) event)
    (count : Nat) : Coalesced (program.reached {} events count) := by
  refine Sound.coalesced ?_
  refine Program.reached_keeps ⟨⟨?_, ?_, ?_, ?_, ?_⟩, ?_⟩
    (fun call h => h.start call) (fun h hphase _ horderly =>
      h.advance hphase horderly) fun before _ => horderly before
  · simp
  · simp
  · simp
  · simp
  · simp
  · intro id entry last hentry
    simp at hentry

/-- A call goes on, and its fetch, if it runs one, finds nothing. -/
def goes (call : Nat) : Overlap.Event Call (Answer Nat) :=
  .step call (.goes 0 .notFound)

/-- A call joins the fetch of another. -/
def joined : List (Overlap.Event Call (Answer Nat)) :=
  [.start (.fetchOrWait "a"), goes 0, goes 0, .start (.fetchOrWait "a"),
    goes 1, goes 1, goes 0, goes 0, goes 0, goes 1]

/-- Where nothing was invalidated, a call that goes on is orderly. -/
theorem orderly_goes {calls : Calls (Inner α) (Phase α)} {call : Nat}
    {now : Instant} {outcome : FetchOutcome α} {phase : Phase α}
    (h : calls.state.invalidated = []) :
    Orderly calls call (.goes now outcome) phase := by
  cases phase with
  | recording id began =>
      intro last hlast
      rw [h] at hlast
      contradiction
  | _ => trivial

theorem orderly_joined : ∀ (count : Nat)
    (event : Overlap.Event Call (Answer Nat)), joined[count]? = some event →
      program.Meets Orderly (program.reached {} joined count) event := by
  intro count event hevent
  have hlt : count < 10 := (List.getElem?_eq_some_iff.mp hevent).1
  have hnone : ∀ count < 10,
      (program.reached {} joined count).state.invalidated = [] := by
    decide +kernel
  have hgoes : event = .start (.fetchOrWait "a") ∨ event = goes 0 ∨
      event = goes 1 := by
    have hmem := List.mem_of_getElem? hevent
    simp only [joined, List.mem_cons, List.not_mem_nil, or_false] at hmem
    tauto
  rcases hgoes with rfl | rfl | rfl
  · trivial
  · exact fun phase _ _ => orderly_goes (hnone count hlt)
  · exact fun phase _ _ => orderly_goes (hnone count hlt)

theorem run_coalesced_joined :
    Coalesced (program.reached {} joined 10) :=
  run_coalesced joined orderly_joined 10

/-- The caller of a fetch is dropped, and another call joins that fetch. -/
def deserted : List (Overlap.Event Call (Answer Nat)) :=
  [.start (.fetchOrWait "a"), goes 0, goes 0, .step 0 .dropped,
    .start (.fetchOrWait "a"), goes 1, goes 1]

/-- A fetch begins, an invalidation is made, and then the fetch finds
nothing. -/
def belated : List (Overlap.Event Call (Answer Nat)) :=
  [.start (.fetchOrWait "a"), goes 0, goes 0, .start (.invalidate "a"), goes 1,
    goes 0, goes 0, goes 0, .start (.fetchOrWait "a"), goes 2]

/-- The call that joined waits for ever, and so does any that joins it; and the
call that comes after the invalidation is told that the asset was not found. -/
theorem deserted_hangs_belated_hides :
    (program.reached {} deserted 7).phases = [.gone, .waiting "a" 0] ∧
      (∀ now outcome, (Phase.waiting "a" 0).proceed
        (program.reached {} deserted 7).state now outcome =
          ((program.reached {} deserted 7).state, .waiting "a" 0)) ∧
      (program.reached {} belated 10).phases =
        [.answered .notFound, .gone, .answered .notFound] ∧
      ¬ Coalesced (program.reached {} deserted 7) ∧
      ¬ Coalesced (program.reached {} belated 10) := by
  have hphases : (program.reached {} deserted 7).phases =
      [.gone, .waiting "a" 0] := by decide +kernel
  have hwaits : ∀ now outcome, (Phase.waiting "a" 0).proceed
      (program.reached {} deserted 7).state now outcome =
        ((program.reached {} deserted 7).state, .waiting "a" 0) := by
    have hsent : (program.reached {} deserted 7).state.sent.get? 0 =
        none := by decide +kernel
    have hmem : 0 ∈ (program.reached {} deserted 7).state.inflight.values := by
      decide +kernel
    intro now outcome
    simp only [Phase.proceed, hsent, hmem, if_true]
  refine ⟨hphases, hwaits, by decide +kernel, ?_, ?_⟩
  · intro hcoalesced
    have hmem : Phase.waiting "a" 0 ∈
        (program.reached {} deserted 7).phases := by
      rw [hphases]
      simp
    rcases hcoalesced.answered "a" 0 hmem with ⟨phase, hphase, hlead⟩ |
      ⟨outcome, hanswered⟩
    · rw [hphases] at hphase
      simp only [List.mem_cons, List.not_mem_nil, or_false] at hphase
      rcases hphase with rfl | rfl <;> exact hlead
    · have hsame := (hwaits 0 .notFound).symm.trans (hanswered 0 .notFound)
      exact absurd (congrArg Prod.snd hsame) (by simp)
  · intro hcoalesced
    have hle := hcoalesced.fresh "a" ⟨0, 0⟩ 1 (by decide +kernel)
      (by decide +kernel)
    contradiction

end AssetWait

end Bridgething
