/-
Who hears of a refresh: one runs for a slot at a time, and it is announced
exactly when it replaced what a caller was served in its place.
-/
import Bridgething.Cache.Response
import Bridgething.Lib.Sequence
import Bridgething.Lib.Transition

namespace Bridgething

namespace Cache

open Sequence

universe u v

variable {T : Type u} {E : Type v}

def Handoff.isWaiting : Handoff T E → Bool
  | .waiting => true
  | _ => false

def Handoff.isAbandoned : Handoff T E → Bool
  | .abandoned => true
  | _ => false

def Handoff.isDone : Handoff T E → Bool
  | .done _ => true
  | _ => false

namespace Refresh

/-- Its slot is taken. -/
def running (refresh : Refresh T E) : Bool :=
  match refresh.phase with
  | .fetching => true
  | .storing _ _ => true
  | .leaving _ _ => true
  | _ => false

/-- What its task has still to do after the store has what it fetched. -/
def finish (refresh : Refresh T E) : Refresh T E :=
  refresh.leave.hand.announce

/-- Somebody is already known to be served what it replaces. -/
def heeds (refresh : Refresh T E) : Bool :=
  refresh.staleServed || refresh.handoff.isAbandoned

/-- It put something else in the store than it started from. -/
def Differs (refresh : Refresh T E) : Prop :=
  ∃ bytes, refresh.landed = some bytes ∧ bytes ≠ refresh.staleBytes

/-- Before the handoff, the marks tell whether somebody was served. -/
def Open (refresh : Refresh T E) : Prop :=
  refresh.handoff.isDone = false ∧
    (refresh.heeds = true ↔ refresh.served ≠ [])

/-- What a refresh knows of those it has to tell, at each point. -/
def Told (refresh : Refresh T E) : Prop :=
  (∀ bytes ∈ refresh.served, bytes = refresh.staleBytes) ∧
    match refresh.phase with
    | .fetching => refresh.landed = none ∧ refresh.Open
    | .storing _ _ => refresh.landed = none ∧ refresh.Open
    | .leaving _ differs => (differs = true ↔ refresh.Differs) ∧ refresh.Open
    | .handing _ differs => (differs = true ↔ refresh.Differs) ∧ refresh.Open
    | .announcing differs abandoned => (differs = true ↔ refresh.Differs) ∧
        refresh.handoff.isWaiting = false ∧
        ((abandoned || refresh.staleServed) = true ↔ refresh.served ≠ [])
    | .finished changed => refresh.handoff.isWaiting = false ∧
        (changed = true ↔ refresh.Differs ∧ refresh.served ≠ [])

theorem told_new (slot : Slot) (bytes : Bytes) :
    (new slot bytes : Refresh T E).Told := by
  simp [Told, new, Open, heeds, Handoff.isDone, Handoff.isAbandoned]

theorem Told.land {refresh : Refresh T E} (h : refresh.Told)
    (encode : T → Option Bytes) (result : Except E T) :
    (refresh.land encode result).Told := by
  obtain ⟨hserved, hphase⟩ := h
  unfold Refresh.land
  cases hat : refresh.phase with
  | fetching =>
      rw [hat] at hphase
      have hleaving : { refresh with
          phase := .leaving result false : Refresh T E }.Told := by
        refine ⟨hserved, ?_, hphase.2⟩
        simp [Differs, hphase.1]
      cases result with
      | error failure => exact hleaving
      | ok fresh =>
          dsimp only
          cases encode fresh with
          | none => exact hleaving
          | some bytes => exact ⟨hserved, hphase⟩
  | _ => exact ⟨hserved, hphase⟩

theorem Told.store {refresh : Refresh T E} (h : refresh.Told) :
    refresh.store.Told := by
  obtain ⟨hserved, hphase⟩ := h
  unfold Refresh.store
  cases hat : refresh.phase with
  | storing fresh bytes =>
      rw [hat] at hphase
      refine ⟨hserved, ?_, hphase.2⟩
      simp [Differs]
  | _ => exact ⟨hserved, hphase⟩

theorem Told.leave {refresh : Refresh T E} (h : refresh.Told) :
    refresh.leave.Told := by
  obtain ⟨hserved, hphase⟩ := h
  unfold Refresh.leave
  cases hat : refresh.phase with
  | leaving fresh differs =>
      rw [hat] at hphase
      exact ⟨hserved, hphase⟩
  | _ => exact ⟨hserved, hphase⟩

theorem Told.hand {refresh : Refresh T E} (h : refresh.Told) :
    refresh.hand.Told := by
  obtain ⟨hserved, hphase⟩ := h
  unfold Refresh.hand
  cases hat : refresh.phase with
  | handing fresh differs =>
      rw [hat] at hphase
      obtain ⟨hdiffers, hdone, hmarks⟩ := hphase
      rw [heeds] at hmarks
      dsimp only
      cases hhandoff : refresh.handoff with
      | waiting =>
          rw [hhandoff] at hmarks
          refine ⟨hserved, hdiffers, rfl, ?_⟩
          simpa [Handoff.isAbandoned] using hmarks
      | abandoned =>
          rw [hhandoff] at hmarks
          refine ⟨hserved, hdiffers, rfl, ?_⟩
          simpa [Handoff.isAbandoned] using hmarks
      | done result =>
          rw [hhandoff] at hdone
          exact absurd hdone (by simp [Handoff.isDone])
  | _ => exact ⟨hserved, hphase⟩

theorem Told.announce {refresh : Refresh T E} (h : refresh.Told) :
    refresh.announce.Told := by
  obtain ⟨hserved, hphase⟩ := h
  unfold Refresh.announce
  cases hat : refresh.phase with
  | announcing differs abandoned =>
      rw [hat] at hphase
      obtain ⟨hdiffers, hhandoff, hmarks⟩ := hphase
      refine ⟨hserved, hhandoff, ?_⟩
      rw [Bool.and_eq_true, hdiffers, hmarks]
      rfl
  | _ => exact ⟨hserved, hphase⟩

/-- Its caller, if it gives up before the handoff, is served what the refresh
started from. -/
theorem Told.abandon {refresh : Refresh T E} (h : refresh.Told) :
    refresh.abandon.Told := by
  obtain ⟨hserved, hphase⟩ := h
  unfold Refresh.abandon
  cases hhandoff : refresh.handoff with
  | waiting =>
      have hstale : ∀ bytes ∈ refresh.served ++ [refresh.staleBytes],
          bytes = refresh.staleBytes := by
        intro bytes hbytes
        rcases List.mem_append.mp hbytes with hold | hnew
        · exact hserved bytes hold
        · exact List.mem_singleton.mp hnew
      refine ⟨hstale, ?_⟩
      cases hat : refresh.phase with
      | announcing differs abandoned =>
          rw [hat] at hphase
          rw [hhandoff] at hphase
          exact absurd hphase.2.1 (by simp [Handoff.isWaiting])
      | finished changed =>
          rw [hat] at hphase
          rw [hhandoff] at hphase
          exact absurd hphase.1 (by simp [Handoff.isWaiting])
      | _ =>
          rw [hat] at hphase
          exact ⟨hphase.1, rfl, by simp [heeds, Handoff.isAbandoned]⟩
  | abandoned =>
      have hsame : { refresh with handoff := .abandoned } = refresh := by
        rw [← hhandoff]
      dsimp only
      rw [hsame]
      exact ⟨hserved, hphase⟩
  | done result =>
      refine ⟨hserved, ?_⟩
      cases hat : refresh.phase with
      | announcing differs abandoned =>
          rw [hat] at hphase
          exact ⟨hphase.1, rfl, hphase.2.2⟩
      | finished changed =>
          rw [hat] at hphase
          exact ⟨rfl, hphase.2⟩
      | _ =>
          rw [hat, Open, hhandoff] at hphase
          exact absurd hphase.2.1 (by simp [Handoff.isDone])

/-- A caller joins, or is served offline what the refresh started from when
somebody is known to be. -/
theorem Told.serve {refresh : Refresh T E} (h : refresh.Told)
    (hrunning : refresh.running = true) {online : Bool}
    (honline : online = true ∨ refresh.heeds = true) :
    (refresh.serve online refresh.staleBytes).Told := by
  obtain ⟨hserved, hphase⟩ := h
  have hopen : refresh.Open →
      (refresh.serve online refresh.staleBytes).Open := by
    rintro ⟨hdone, -⟩
    refine ⟨hdone, ?_⟩
    rcases honline with rfl | hheeds
    · simp [heeds, Refresh.serve]
    · rw [heeds, Bool.or_eq_true] at hheeds
      rcases hheeds with hserved | habandoned
      · simp [heeds, Refresh.serve, hserved]
      · simp [heeds, Refresh.serve, habandoned]
  refine ⟨?_, ?_⟩
  · intro bytes hbytes
    rcases List.mem_append.mp hbytes with hold | hnew
    · exact hserved bytes hold
    · exact List.mem_singleton.mp hnew
  · have hsame : (refresh.serve online refresh.staleBytes).phase =
        refresh.phase := rfl
    rw [hsame]
    cases hat : refresh.phase with
    | fetching =>
        rw [hat] at hphase
        exact ⟨hphase.1, hopen hphase.2⟩
    | storing fresh bytes =>
        rw [hat] at hphase
        exact ⟨hphase.1, hopen hphase.2⟩
    | leaving fresh differs =>
        rw [hat] at hphase
        exact ⟨hphase.1, hopen hphase.2⟩
    | _ => simp [running, hat] at hrunning

/-! ### What those told were served -/

/-- Somebody was served in its place what it then replaced by something else. -/
def Replaced (refresh : Refresh T E) : Prop :=
  ∃ bytes served, refresh.landed = some bytes ∧ served ∈ refresh.served ∧
    served ≠ bytes

theorem Told.replaced_iff {refresh : Refresh T E} (h : refresh.Told) :
    refresh.Replaced ↔ refresh.Differs ∧ refresh.served ≠ [] := by
  constructor
  · rintro ⟨bytes, served, hlanded, hserved, hne⟩
    have hstale := h.1 served hserved
    exact ⟨⟨bytes, hlanded, fun hsame => hne (hstale.trans hsame.symm)⟩,
      List.ne_nil_of_mem hserved⟩
  · rintro ⟨⟨bytes, hlanded, hne⟩, hserved⟩
    obtain ⟨served, hmem⟩ := List.exists_mem_of_ne_nil _ hserved
    exact ⟨bytes, served, hlanded, hmem, fun hsame =>
      hne (hsame.symm.trans (h.1 served hmem))⟩

theorem finish_kept (refresh : Refresh T E) :
    refresh.finish.served = refresh.served ∧
      refresh.finish.landed = refresh.landed ∧
      refresh.finish.staleBytes = refresh.staleBytes := by
  have hleave : ∀ refresh : Refresh T E,
      refresh.leave.served = refresh.served ∧
        refresh.leave.landed = refresh.landed ∧
        refresh.leave.staleBytes = refresh.staleBytes := by
    intro refresh
    unfold leave
    split <;> exact ⟨rfl, rfl, rfl⟩
  have hhand : ∀ refresh : Refresh T E, refresh.hand.served = refresh.served ∧
      refresh.hand.landed = refresh.landed ∧
      refresh.hand.staleBytes = refresh.staleBytes := by
    intro refresh
    unfold hand
    repeat' split
    all_goals exact ⟨rfl, rfl, rfl⟩
  have hannounce : ∀ refresh : Refresh T E,
      refresh.announce.served = refresh.served ∧
        refresh.announce.landed = refresh.landed ∧
        refresh.announce.staleBytes = refresh.staleBytes := by
    intro refresh
    unfold announce
    split <;> exact ⟨rfl, rfl, rfl⟩
  obtain ⟨hserved, hlanded, hstale⟩ := hleave refresh
  obtain ⟨hserved', hlanded', hstale'⟩ := hhand refresh.leave
  obtain ⟨hserved'', hlanded'', hstale''⟩ := hannounce refresh.leave.hand
  exact ⟨hserved''.trans (hserved'.trans hserved),
    hlanded''.trans (hlanded'.trans hlanded),
    hstale''.trans (hstale'.trans hstale)⟩

/-- After the fetch, the task runs to its end. -/
theorem finish_finished {refresh : Refresh T E} (h : refresh.Told)
    (hlanded : refresh.landed.isSome) :
    ∃ changed, refresh.finish.phase = .finished changed := by
  have hphase := h.2
  have hhanded : ∀ refresh : Refresh T E, ∀ fresh differs,
      refresh.phase = .handing fresh differs →
      ∃ changed, refresh.hand.announce.phase = .finished changed := by
    intro refresh fresh differs hat
    unfold hand
    rw [hat]
    dsimp only
    split <;> exact ⟨_, rfl⟩
  cases hat : refresh.phase with
  | fetching =>
      rw [hat] at hphase
      simp [hphase.1] at hlanded
  | storing fresh bytes =>
      rw [hat] at hphase
      simp [hphase.1] at hlanded
  | leaving fresh differs =>
      exact hhanded _ fresh differs (by simp [leave, hat])
  | handing fresh differs =>
      have hleave : refresh.leave = refresh := by simp [leave, hat]
      rw [finish, hleave]
      exact hhanded _ fresh differs hat
  | announcing differs abandoned =>
      have hhand : refresh.leave.hand = refresh := by simp [leave, hand, hat]
      rw [finish, hhand]
      simp [announce, hat]
  | finished changed =>
      exact ⟨changed, by simp [finish, leave, hand, announce, hat]⟩

/-- The task announces what it did exactly when it replaced what was served. -/
theorem Told.announces_iff {refresh : Refresh T E} (h : refresh.Told) :
    refresh.finish.phase = .finished true ↔ refresh.Replaced := by
  obtain ⟨hserved, hlanded, hstale⟩ := finish_kept refresh
  have hfinish : refresh.finish.Told := h.leave.hand.announce
  have hiff : ∀ changed, refresh.finish.phase = .finished changed →
      (changed = true ↔ refresh.Replaced) := by
    intro changed hat
    have hphase := hfinish.2
    rw [hat] at hphase
    rw [hphase.2, h.replaced_iff, Differs, Differs, hserved, hlanded, hstale]
  constructor
  · exact fun hat => (hiff true hat).mp rfl
  · intro hreplaced
    have hsome : refresh.landed.isSome := by
      obtain ⟨bytes, _, hsome, -⟩ := hreplaced
      rw [hsome]
      rfl
    obtain ⟨changed, hat⟩ := finish_finished h hsome
    rw [hat, (hiff changed hat).mpr hreplaced]

end Refresh

namespace ResponseCache

/-- One refresh runs for a slot at a time, and each is announced, when its task
has run to its end, exactly if it replaced what a caller was served by something
else. -/
structure Sound (cache : ResponseCache T E) : Prop where
  single : ∀ {first second : Nat} {left right : Refresh T E},
    cache.refreshes[first]? = some left → left.running = true →
    cache.refreshes[second]? = some right → right.running = true →
    left.slot = right.slot → first = second
  heard : ∀ refresh ∈ cache.refreshes,
    refresh.finish.phase = .finished true ↔ refresh.Replaced

/-- The refresh that runs for a slot. -/
def refreshOf (cache : ResponseCache T E) (slot : Slot) :
    Option (Refresh T E) :=
  (cache.refreshing.get? slot).bind fun running => cache.refreshes[running]?

/-- Whoever is served while a refresh of its slot runs is served what that
refresh started from; and offline only when the refresh already knows of another
that is. -/
def prompt (cache : ResponseCache T E) : Event T E → Bool
  | .serve caller online =>
      match cache.callers[caller]? with
      | some (.found slot _ bytes) => (cache.refreshOf slot).all fun refresh =>
          bytes == refresh.staleBytes && (online || refresh.heeds)
      | _ => true
  | _ => true

structure Inv (cache : ResponseCache T E) : Prop where
  registered : ∀ {place : Nat} {refresh : Refresh T E},
    cache.refreshes[place]? = some refresh → refresh.running = true →
    cache.refreshing.get? refresh.slot = some place
  live : ∀ {slot place}, cache.refreshing.get? slot = some place →
    ∃ refresh, cache.refreshes[place]? = some refresh ∧
      refresh.slot = slot ∧ refresh.running = true
  told : ∀ {place : Nat} {refresh : Refresh T E},
    cache.refreshes[place]? = some refresh → refresh.Told

theorem inv_new (disk : Table (String × String) Bytes) :
    (new disk : ResponseCache T E).Inv where
  registered hplace := absurd hplace (by simp [new])
  live hslot := absurd hslot (by simp [new])
  told hplace := absurd hplace (by simp [new])

theorem Inv.sound {cache : ResponseCache T E} (h : cache.Inv) :
    cache.Sound where
  single hleft hrunning hright hother hslot := by
    have hfirst := h.registered hleft hrunning
    rw [hslot, h.registered hright hother, Option.some.injEq] at hfirst
    exact hfirst.symm
  heard refresh hmem := by
    obtain ⟨place, hplace⟩ := List.mem_iff_getElem?.mp hmem
    exact (h.told hplace).announces_iff

/-! ### Steps -/

/-- The invariant is about the refreshes alone. -/
theorem Inv.same {cache after : ResponseCache T E} (h : cache.Inv)
    (hrefreshing : after.refreshing = cache.refreshing)
    (hrefreshes : after.refreshes = cache.refreshes) : after.Inv := by
  constructor
  · rw [hrefreshing, hrefreshes]
    exact h.registered
  · rw [hrefreshing, hrefreshes]
    exact h.live
  · rw [hrefreshes]
    exact h.told

theorem setRefresh_self {cache : ResponseCache T E} {place : Nat}
    {refresh : Refresh T E} (h : cache.refreshes[place]? = some refresh)
    (change : Refresh T E → Refresh T E) :
    (cache.setRefresh place change).refreshes[place]? =
      some (change refresh) := by
  simp [setRefresh, h]

theorem setRefresh_of_ne (cache : ResponseCache T E) {place other : Nat}
    (h : place ≠ other) (change : Refresh T E → Refresh T E) :
    (cache.setRefresh place change).refreshes[other]? =
      cache.refreshes[other]? := by
  simp [setRefresh, h]

/-- Where a refresh is found after a change, it was found before. -/
theorem setRefresh_cases {cache : ResponseCache T E} {place other : Nat}
    {change : Refresh T E → Refresh T E} {found : Refresh T E}
    (h : (cache.setRefresh place change).refreshes[other]? = some found) :
    (place = other ∧ ∃ before, cache.refreshes[other]? = some before ∧
      found = change before) ∨
    (place ≠ other ∧ cache.refreshes[other]? = some found) := by
  by_cases hplace : place = other
  · subst hplace
    cases hbefore : cache.refreshes[place]? with
    | none => simp [setRefresh, hbefore] at h
    | some before =>
        rw [setRefresh_self hbefore, Option.some.injEq] at h
        exact Or.inl ⟨rfl, before, rfl, h.symm⟩
  · rw [setRefresh_of_ne _ hplace] at h
    exact Or.inr ⟨hplace, h⟩

/-- A change of a refresh that keeps it where it is. -/
theorem Inv.change {cache : ResponseCache T E} (h : cache.Inv) (place : Nat)
    {change : Refresh T E → Refresh T E}
    (hslot : ∀ refresh, (change refresh).slot = refresh.slot)
    (hkeep : ∀ refresh, cache.refreshes[place]? = some refresh →
      (change refresh).running = refresh.running ∧ (change refresh).Told) :
    (cache.setRefresh place change).Inv := by
  constructor
  · intro other found hother hrunning
    rcases setRefresh_cases hother with ⟨rfl, before, hbefore, rfl⟩ | ⟨-, hold⟩
    · rw [(hkeep before hbefore).1] at hrunning
      rw [hslot]
      exact h.registered hbefore hrunning
    · exact h.registered hold hrunning
  · intro slot other hother
    obtain ⟨refresh, hrefresh, hsame, hrunning⟩ := h.live hother
    by_cases hplace : place = other
    · subst hplace
      exact ⟨change refresh, setRefresh_self hrefresh change,
        (hslot refresh).trans hsame, (hkeep refresh hrefresh).1.trans hrunning⟩
    · exact ⟨refresh, (setRefresh_of_ne cache hplace change).trans hrefresh,
        hsame, hrunning⟩
  · intro other found hother
    rcases setRefresh_cases hother with ⟨rfl, before, hbefore, rfl⟩ | ⟨-, hold⟩
    · exact (hkeep before hbefore).2
    · exact h.told hold

theorem Inv.setCaller {cache : ResponseCache T E} (h : cache.Inv)
    (caller : Nat) (state : Caller T E) : (cache.setCaller caller state).Inv :=
  h.same rfl rfl

/-- A refresh that its slot does not have yet. -/
theorem Inv.start {cache : ResponseCache T E} (h : cache.Inv) {slot : Slot}
    (hfree : cache.refreshing.get? slot = none) (bytes : Bytes) :
    { cache with
      refreshing := cache.refreshing.put slot cache.refreshes.length
      refreshes := cache.refreshes ++ [.new slot bytes]
      : ResponseCache T E }.Inv := by
  constructor
  · intro place refresh hplace hrunning
    rcases getElem?_concat hplace with hold | ⟨rfl, rfl⟩
    · have hat := h.registered hold hrunning
      have hne : refresh.slot ≠ slot := by
        rintro rfl
        rw [hfree] at hat
        contradiction
      exact (Table.get?_put_of_ne _ _ hne).trans hat
    · exact Table.get?_put_self _ _ _
  · intro other place hplace
    rcases Table.get?_put_cases hplace with ⟨rfl, rfl⟩ | ⟨-, hold⟩
    · exact ⟨.new other bytes, List.getElem?_concat_length, rfl, rfl⟩
    · obtain ⟨refresh, hrefresh, hrest⟩ := h.live hold
      have hlt := (List.getElem?_eq_some_iff.mp hrefresh).1
      exact ⟨refresh, (List.getElem?_append_left hlt).trans hrefresh, hrest⟩
  · intro place refresh hplace
    rcases getElem?_concat hplace with hold | ⟨-, rfl⟩
    · exact h.told hold
    · exact Refresh.told_new slot bytes

/-- A refresh that leaves its slot. -/
theorem Inv.leave {cache : ResponseCache T E} (h : cache.Inv) {place : Nat}
    {refresh : Refresh T E} (hplace : cache.refreshes[place]? = some refresh)
    (hrunning : refresh.running = true)
    (hleft : refresh.leave.running = false) :
    ({ cache with
      refreshing := cache.refreshing.remove refresh.slot
      : ResponseCache T E }.setRefresh place Refresh.leave).Inv := by
  have hmine := h.registered hplace hrunning
  constructor
  · intro other found hother hfound
    rcases setRefresh_cases hother with ⟨rfl, before, hbefore, rfl⟩ |
      ⟨hne, hold⟩
    · rw [hplace, Option.some.injEq] at hbefore
      rw [← hbefore, hleft] at hfound
      contradiction
    · have hat := h.registered hold hfound
      have hslot : found.slot ≠ refresh.slot := by
        intro hsame
        rw [hsame, hmine, Option.some.injEq] at hat
        exact hne hat
      exact (Table.get?_remove_of_ne _ hslot).trans hat
  · intro slot other hother
    obtain ⟨hne, hold⟩ := Table.get?_of_remove hother
    obtain ⟨found, hfound, hsame, hrest⟩ := h.live hold
    have hplaces : place ≠ other := by
      rintro rfl
      rw [hplace, Option.some.injEq] at hfound
      rw [← hfound] at hsame
      exact hne hsame.symm
    exact ⟨found, (setRefresh_of_ne _ hplaces _).trans hfound, hsame, hrest⟩
  · intro other found hother
    rcases setRefresh_cases hother with ⟨rfl, before, hbefore, rfl⟩ | ⟨-, hold⟩
    · exact (h.told hbefore).leave
    · exact h.told hold

variable {digest : String → String} {encode : T → Option Bytes}
  {decode : Bytes → Option T}

theorem Inv.serve {cache : ResponseCache T E} (h : cache.Inv) {caller : Nat}
    {slot : Slot} {stale : T} {bytes : Bytes} {online : Bool}
    (hprompt : ∀ refresh, cache.refreshOf slot = some refresh →
      bytes = refresh.staleBytes ∧ (online = true ∨ refresh.heeds = true)) :
    (cache.serve caller slot stale bytes online).Inv := by
  unfold ResponseCache.serve
  cases hrunning : cache.refreshing.get? slot with
  | none =>
      dsimp only
      split
      · exact (h.start hrunning bytes).setCaller caller _
      · exact h.setCaller caller _
  | some running =>
      obtain ⟨found, hfound, -, hlive⟩ := h.live hrunning
      dsimp only
      apply Inv.setCaller
      refine h.change running (fun _ => rfl) fun refresh hrefresh => ?_
      obtain ⟨rfl, honline⟩ := hprompt refresh
        (by rw [refreshOf, hrunning, Option.bind_some, hrefresh])
      rw [hfound, Option.some.injEq] at hrefresh
      exact ⟨rfl, (h.told (hrefresh ▸ hfound)).serve (hrefresh ▸ hlive) honline⟩

theorem abandon_kept (refresh : Refresh T E) :
    refresh.abandon.slot = refresh.slot ∧
      refresh.abandon.running = refresh.running := by
  unfold Refresh.abandon Refresh.running
  split <;> exact ⟨rfl, rfl⟩

theorem land_kept (refresh : Refresh T E) (result : Except E T) :
    (refresh.land encode result).slot = refresh.slot ∧
      (refresh.land encode result).running = refresh.running := by
  unfold Refresh.land
  cases hat : refresh.phase with
  | fetching =>
      cases result with
      | error failure => simp [Refresh.running, hat]
      | ok fresh =>
          cases hbytes : encode fresh <;> simp [Refresh.running, hat, hbytes]
  | _ => exact ⟨rfl, rfl⟩

theorem store_kept (refresh : Refresh T E) :
    refresh.store.slot = refresh.slot ∧
      refresh.store.running = refresh.running := by
  unfold Refresh.store
  cases hat : refresh.phase with
  | storing fresh bytes => simp [Refresh.running, hat]
  | _ => exact ⟨rfl, rfl⟩

theorem hand_kept (refresh : Refresh T E) :
    refresh.hand.slot = refresh.slot ∧
      refresh.hand.running = refresh.running := by
  unfold Refresh.hand
  cases hat : refresh.phase with
  | handing fresh differs =>
      dsimp only
      split <;> simp [Refresh.running, hat]
  | _ => exact ⟨rfl, rfl⟩

theorem announce_kept (refresh : Refresh T E) :
    refresh.announce.slot = refresh.slot ∧
      refresh.announce.running = refresh.running := by
  unfold Refresh.announce
  cases hat : refresh.phase with
  | announcing differs abandoned => simp [Refresh.running, hat]
  | _ => exact ⟨rfl, rfl⟩

theorem Inv.write {cache : ResponseCache T E} (h : cache.Inv) (slot : Slot)
    (bytes : Option Bytes) (kept : Bool) :
    (cache.write digest slot bytes kept).Inv := by
  unfold ResponseCache.write
  cases bytes with
  | none => exact h
  | some bytes =>
      dsimp only
      split
      · exact h.same rfl rfl
      · exact h

theorem Inv.step {cache : ResponseCache T E} {event : Event T E} (h : cache.Inv)
    (hprompt : cache.prompt event = true) :
    (cache.step digest encode decode event).Inv := by
  cases event with
  | call scope key => exact h.same rfl rfl
  | read caller =>
      simp only [ResponseCache.step]
      split
      · unfold ResponseCache.read
        split
        · exact h.setCaller caller _
        · split
          · exact h.setCaller caller _
          · exact h.same rfl rfl
      · exact h
  | fetched caller result =>
      simp only [ResponseCache.step]
      split
      · exact h.setCaller caller _
      · unfold ResponseCache.fetched
        split
        · exact h.setCaller caller _
        · split <;> exact h.setCaller caller _
      · exact h
  | put caller kept =>
      simp only [ResponseCache.step]
      split
      · exact (h.write _ _ _).setCaller caller _
      · exact h
  | serve caller online =>
      simp only [ResponseCache.step]
      split
      · rename_i slot stale bytes hcaller
        simp only [prompt, hcaller] at hprompt
        refine h.serve fun refresh hrefresh => ?_
        simpa [hrefresh] using hprompt
      · exact h
  | wake caller =>
      simp only [ResponseCache.step]
      split
      · rename_i running stale hcaller
        split
        · refine (h.change running (fun refresh => (abandon_kept refresh).1)
            fun refresh hrefresh => ?_).setCaller caller _
          exact ⟨(abandon_kept refresh).2, (h.told hrefresh).abandon⟩
        · exact h
      · exact h
  | land running result =>
      refine h.change running (fun refresh => (land_kept refresh result).1)
        fun refresh hrefresh => ?_
      exact ⟨(land_kept refresh result).2, (h.told hrefresh).land encode result⟩
  | store running kept =>
      simp only [ResponseCache.step]
      split
      · split
        · refine (h.write _ _ kept).change running
            (fun refresh => (store_kept refresh).1) fun refresh hrefresh => ?_
          exact ⟨(store_kept refresh).2,
            ((h.write _ _ kept).told hrefresh).store⟩
        · exact h
      · exact h
  | leave running =>
      simp only [ResponseCache.step]
      split
      · rename_i refresh hrefresh
        split
        · rename_i fresh differs hat
          exact h.leave hrefresh (by simp [Refresh.running, hat])
            (by simp [Refresh.leave, Refresh.running, hat])
        · exact h
      · exact h
  | hand running =>
      refine h.change running (fun refresh => (hand_kept refresh).1)
        fun refresh hrefresh => ?_
      exact ⟨(hand_kept refresh).2, (h.told hrefresh).hand⟩
  | announce running =>
      refine h.change running (fun refresh => (announce_kept refresh).1)
        fun refresh hrefresh => ?_
      exact ⟨(announce_kept refresh).2, (h.told hrefresh).announce⟩
  | lose path => exact h.same rfl rfl

/-- In a run where whoever is served while a refresh runs is served what it
started from, and offline only beside another, one refresh runs for a slot at a
time and those are announced that replaced what was served. -/
theorem sound_of_prompt (digest : String → String) (encode : T → Option Bytes)
    (decode : Bytes → Option T) (disk : Table (String × String) Bytes)
    (events : List (Event T E))
    (hprompt : ∀ count event, events[count]? = some event →
      (Transition.reached (step digest encode decode) (new disk) events
        count).prompt event = true) (count : Nat) :
    (Transition.reached (step digest encode decode) (new disk) events
      count).Sound :=
  (@Transition.reached_invariant _ _ _ Inv
    (fun cache event => cache.prompt event = true) _ (inv_new disk)
    (fun h => h.step) _ _ fun before _ => hprompt before).sound

/-- Two calls for an entry on the disk; the refresh the first one starts lands
with something else. -/
def twoCalls (secondOnline : Bool) : List (Event Bytes Unit) :=
  [.call "scope" (some "\"key\""), .read 0, .serve 0 true,
    .call "scope" (some "\"key\""), .read 1, .serve 1 secondOnline,
    .land 0 (.ok [1]), .store 0 true, .leave 0, .hand 0, .announce 0, .wake 0]

theorem sound_of_prompt_joined :
    (Transition.reached (step id some some)
      (new [(("scope", "\"key\""), [0])]) (twoCalls true) 12).Sound := by
  apply sound_of_prompt
  intro count event hevent
  have hall : ∀ count < 12, ((twoCalls true)[count]?).all fun event =>
      (Transition.reached (step id some some)
        (new [(("scope", "\"key\""), [0])]) (twoCalls true) count).prompt
        event := by
    decide +kernel
  have hlt := (List.getElem?_eq_some_iff.mp hevent).1
  have hprompt := hall count hlt
  rwa [hevent, Option.all_some] at hprompt

/-- A caller that went offline during the refresh does not hear of it. -/
theorem offline_unsound : ¬ ∀ events : List (Event Bytes Unit), ∀ count,
    (Transition.reached (step id some some)
      (new [(("scope", "\"key\""), [0])]) events count).Sound := by
  intro hall
  have hrefreshes : (Transition.reached (step id some some)
      (new [(("scope", "\"key\""), [0])]) (twoCalls false) 12).refreshes =
      [{ slot := ("scope", "\"key\"")
         staleBytes := [0]
         staleServed := false
         handoff := .abandoned
         phase := .finished false
         served := [[0]]
         landed := some [1] }] := by
    rfl
  have hheard := (hall (twoCalls false) 12).heard
  rw [hrefreshes] at hheard
  have hquiet := (hheard _ List.mem_cons_self).mpr
    ⟨[1], [0], rfl, List.mem_cons_self, by decide⟩
  simp [Refresh.finish, Refresh.leave, Refresh.hand, Refresh.announce] at hquiet

end ResponseCache

end Cache

end Bridgething
