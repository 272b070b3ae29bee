/-
What each command leaves of the generations and of what is published.
-/
import Bridgething.Extensions.Interleaving

namespace Bridgething

namespace Extensions

variable {past after : History} {posters : List Poster} {s : Supervisor}
  {webapp : Uuid} {child : Child} {p : Nat}

/-! ### What is noted -/

/-- What is noted of others changes nothing for a child. -/
theorem ChildSane.agree (h : ChildSane past posters webapp child)
    (hborn : after.born webapp = past.born webapp)
    (hstopped : child.armed = none ∨
      after.stopped webapp = past.stopped webapp)
    (hgone : ∀ p, child.process = some p → after.gone p = past.gone p)
    (hready : ∀ p, past.ready p = true → after.ready p = true) :
    ChildSane after posters webapp child := by
  refine ⟨fun p hp => ?_, h.attempt, fun p n hle => ?_, fun n hn => ?_⟩
  · have hlive := h.process p hp
    exact ⟨hlive.posted, hborn ▸ hlive.born, hlive.last, hlive.run,
      hlive.enabled, (hgone p hp).trans hlive.gone,
      fun hrunning => hready p (hlive.ready hrunning)⟩
  · exact h.numbered p n (hborn ▸ hle)
  · obtain ⟨hlast, p, hposted, hbefore, hstop⟩ := h.armed n hn
    refine ⟨hlast, p, hposted, hborn ▸ hbefore, ?_⟩
    rcases hstopped with hnone | hsame
    · exact nomatch hnone.symm.trans hn
    · exact hsame ▸ hstop

namespace Sane

/-- A child that comes to be has no number yet. -/
theorem bear (h : Sane past s) (hnone : s.children.get? webapp = none) :
    Sane (past.bear webapp s.posters.length) s := by
  have hsame : ∀ other, other ≠ webapp →
      (past.bear webapp s.posters.length).born other = past.born other :=
    fun other hne => Function.update_of_ne hne _ _
  have hself : (past.bear webapp s.posters.length).born webapp =
      s.posters.length := Function.update_self _ _ _
  refine ⟨fun other found hfound => ?_, fun other p q n hp hq hpn hqn => ?_,
    h.seen, fun other => ⟨?_, (h.bounds other).2⟩⟩
  · have hne : other ≠ webapp := by
      rintro rfl
      exact nomatch hnone.symm.trans hfound
    exact (h.child other found hfound).agree (hsame other hne)
      (Or.inr rfl) (fun _ _ => rfl) fun _ => id
  · by_cases heq : other = webapp
    · subst heq
      rw [hself] at hp
      exact absurd (numberAt_lt hpn) (Nat.not_lt_of_le hp)
    · rw [hsame other heq] at hp hq
      exact h.unique other p q n hp hq hpn hqn
  · by_cases heq : other = webapp
    · rw [heq, hself]
    · rw [hsame other heq]
      exact (h.bounds other).1

/-- A stop is noted where no restart is armed any more. -/
theorem halt (h : Sane past s) (harmed : ∀ child,
    s.children.get? webapp = some child → child.armed = none) :
    Sane (past.halt webapp s.posters.length) s := by
  have hsame : ∀ other, other ≠ webapp →
      (past.halt webapp s.posters.length).stopped other =
        past.stopped other :=
    fun other hne => Function.update_of_ne hne _ _
  refine { h with
    child := fun other found hfound => ?_
    bounds := fun other => ⟨(h.bounds other).1, ?_⟩ }
  · refine (h.child other found hfound).agree rfl ?_ (fun _ _ => rfl)
      fun _ => id
    by_cases heq : other = webapp
    · exact Or.inl (harmed found (heq ▸ hfound))
    · exact Or.inr (hsame other heq)
  · by_cases heq : other = webapp
    · rw [heq]
      exact (Function.update_self _ _ _).le
    · rw [hsame other heq]
      exact (h.bounds other).2

theorem hear (h : Sane past s) (hp : p < s.posters.length) :
    Sane (past.hear p) s := by
  have hready : ∀ q, past.ready q = true →
      (past.hear p).ready q = true := by
    intro q hq
    by_cases heq : q = p
    · rw [heq]
      exact Function.update_self _ _ _
    · exact (Function.update_of_ne heq _ _).trans hq
  refine { h with
    child := fun other found hfound => ?_
    seen := fun q hq => ?_ }
  · exact (h.child other found hfound).agree rfl (Or.inr rfl)
      (fun _ _ => rfl) hready
  · by_cases heq : q = p
    · rwa [heq]
    · refine h.seen q (hq.imp (fun hheard => ?_) id)
      exact (Function.update_of_ne heq _ _).symm.trans hheard

/-- An exit is noted where no child writes to the process any more. -/
theorem lose (h : Sane past s) (hp : p < s.posters.length)
    (hfree : ∀ webapp child, s.children.get? webapp = some child →
      child.process ≠ some p) : Sane (past.lose p) s := by
  refine { h with
    child := fun other found hfound => ?_
    seen := fun q hq => ?_ }
  · refine (h.child other found hfound).agree rfl (Or.inr rfl)
      (fun q hq => ?_) fun _ => id
    refine Function.update_of_ne ?_ _ _
    rintro rfl
    exact hfree other found hfound hq
  · by_cases heq : q = p
    · rwa [heq]
    · refine h.seen q (hq.imp id fun hlost => ?_)
      exact (Function.update_of_ne heq _ _).symm.trans hlost

/-- A child writes to its own process alone. -/
theorem process_ne (h : Sane past s) {generation : Nat}
    (hposted : s.posters[p]? = some (.process webapp generation))
    (hother : ∀ child, s.children.get? webapp = some child →
      child.attempt ≠ generation ∨ child.process = none) :
    ∀ other found, s.children.get? other = some found →
      found.process ≠ some p := by
  intro other found hfound hp
  have hlive := (h.child other found hfound).process p hp
  have heq := hposted.symm.trans hlive.posted
  simp only [Option.some.injEq, Poster.process.injEq] at heq
  obtain ⟨rfl, rfl⟩ := heq
  rcases hother found hfound with hne | hnone
  · exact hne rfl
  · exact nomatch hnone.symm.trans hp

end Sane

/-! ### A stop -/

/-- A child as a stop and a reap leave it. -/
def Child.halted (child : Child) : Child :=
  { child with intent := .leave, armed := none, stdin := none, kill := none }

theorem Child.reap_stop (child : Child) :
    (child.stop .leave).reap = child.halted := by
  unfold Child.stop
  split
  · rfl
  · rfl

namespace Supervisor

theorem alter_put {f : Child → Child} :
    { s with children := s.children.put webapp child }.alter webapp f =
      { s with children := s.children.put webapp (f child) } := by
  rw [alter_eq (Table.get?_put_self _ _ _), Table.put_put]

theorem reap_stop (s : Supervisor) (webapp : Uuid) :
    (s.stop webapp .leave).reap webapp = s.alter webapp Child.halted := by
  cases hchild : s.children.get? webapp with
  | none =>
      rw [stop, reap, alter_of_none hchild, alter_of_none hchild,
        alter_of_none hchild]
  | some child =>
      rw [stop, reap, alter_eq hchild, alter_put, alter_eq hchild,
        Child.reap_stop]

/-- The child that is put is said to run where the one before was. -/
theorem runningSet_put
    (h : child.status = .running ↔ webapp ∈ s.runningSet) :
    ({ s with children := s.children.put webapp child } : Supervisor).runningSet
      = s.runningSet := by
  ext other
  by_cases heq : other = webapp
  · subst heq
    rw [← h, mem_runningSet]
    dsimp only
    rw [Table.get?_put_self]
    constructor
    · rintro ⟨found, hfound, hrunning⟩
      exact Option.some.inj hfound ▸ hrunning
    · exact fun hrunning => ⟨child, rfl, hrunning⟩
  · rw [mem_runningSet, mem_runningSet]
    dsimp only
    rw [Table.get?_put_of_ne _ _ heq]

/-- A stopped child has no process and no restart, and is the one that may still
be published. -/
theorem halted_fine (h : Sane past s) (hs : Settled s none)
    (hattempt : child.attempt ≤ child.seq)
    (hnumbered : ∀ p n, past.born webapp ≤ p →
      numberAt s.posters webapp p = some n → n ≤ child.seq)
    (hrunning : child.status = .running ↔ webapp ∈ s.runningSet) :
    Sane (past.halt webapp s.posters.length)
        { s with children := s.children.put webapp child.halted } ∧
      Settled { s with children := s.children.put webapp child.halted }
        (some webapp) := by
  have hchild : ChildSane past s.posters webapp child.halted :=
    ⟨fun _ hp => (nomatch hp), hattempt, hnumbered, fun _ hn => (nomatch hn)⟩
  have hsane : Sane past
      { s with children := s.children.put webapp child.halted } :=
    h.put hchild rfl rfl
  refine ⟨hsane.halt fun found hfound => ?_, ?_,
    fun other found hne hfound => ?_⟩
  · dsimp only at hfound
    rw [Table.get?_put_self] at hfound
    rw [← Option.some.inj hfound]
    rfl
  · refine hs.published.trans (runningSet_put ?_).symm
    exact hrunning
  · rcases Table.get?_put_cases hfound with ⟨heq, -⟩ | ⟨-, hold⟩
    · exact absurd (congrArg some heq) hne
    · exact hs.open_ other found (fun heq => nomatch heq) hold

theorem mem_runningSet_of_get? (h : s.children.get? webapp = some child) :
    child.status = .running ↔ webapp ∈ s.runningSet := by
  rw [mem_runningSet, h]
  constructor
  · exact fun hrunning => ⟨child, rfl, hrunning⟩
  · rintro ⟨found, hfound, hrunning⟩
    exact Option.some.inj hfound ▸ hrunning

/-! ### Commands from outside -/

/-- What is installed is stopped, and started again if it is to run. -/
theorem installed_fine {spawns : Spawns} {record : ExtensionRecord}
    (h : Sane past s) (hs : Settled s none)
    (horderly : record.enabled = true → s.runtime = .ready →
      record.webapp ∈ s.published → spawns record.webapp ≠ none)
    (houtside : (Command.installed record).outside = true) :
    Sane (past.note s (.told (.installed record) houtside))
        (s.installed spawns record) ∧
      Settled (s.installed spawns record) none := by
  have hgo : ∀ {before : History} {held : Child},
      Sane before { s with
        children := s.children.put record.webapp held.halted } →
      Settled { s with
        children := s.children.put record.webapp held.halted }
        (some record.webapp) →
      held.record = record →
      (held.status = .running ↔ record.webapp ∈ s.runningSet) →
      ∀ next, next = (if record.enabled then
          ({ s with children := s.children.put record.webapp held.halted } :
            Supervisor).start spawns record.webapp
        else ({ s with
            children := s.children.put record.webapp held.halted } :
          Supervisor).mark record.webapp .stopped) →
        Sane before next ∧ Settled next none := by
    intro before held hsane hsettled hrecord hrunning next hnext
    subst hnext
    split
    · next henabled =>
        refine start_fine hsane hsettled ⟨Or.inr rfl, fun _ => ?_⟩
        refine ⟨held.halted, Table.get?_put_self _ _ _, rfl, ?_, ?_⟩
        · exact (congrArg ExtensionRecord.enabled hrecord).trans henabled
        · intro hready hstatus
          refine horderly henabled hready ?_
          rw [hs.published]
          exact hrunning.mp hstatus
    · obtain ⟨hsane, -, hnone⟩ := mark_fine hsane hsettled
        (fun heq => nomatch heq : ExtensionStatus.stopped ≠ .running)
        record.webapp
      exact ⟨hsane, hnone rfl⟩
  cases hchild : s.children.get? record.webapp with
  | none =>
      have hborn := h.bear hchild
      have hstatus : ExtensionStatus.stopped = .running ↔
          record.webapp ∈ s.runningSet := by
        refine iff_of_false (fun heq => nomatch heq) fun hmem => ?_
        obtain ⟨found, hfound, -⟩ := mem_runningSet.mp hmem
        exact nomatch hchild.symm.trans hfound
      obtain ⟨hsane, hsettled⟩ := @halted_fine _ s record.webapp
        { record := record } hborn hs (Nat.le_refl _)
        (fun p n hle hn => by
          have hself : (past.bear record.webapp s.posters.length).born
              record.webapp = s.posters.length := Function.update_self _ _ _
          rw [hself] at hle
          exact absurd (numberAt_lt hn) (Nat.not_lt_of_le hle)) hstatus
      have hnote : past.note s (.told (.installed record) houtside) =
          (past.bear record.webapp s.posters.length).halt record.webapp
            s.posters.length := by
        rw [History.note, hchild]
      rw [hnote]
      refine hgo hsane hsettled rfl hstatus _ ?_
      rw [installed, hchild]
      dsimp only
      rw [reap_stop, alter_put]
  | some child =>
      have hold := h.child _ child hchild
      have hstatus := mem_runningSet_of_get? hchild
      obtain ⟨hsane, hsettled⟩ := @halted_fine _ s record.webapp
        { child with record := record } h hs hold.attempt hold.numbered
        hstatus
      have hnote : past.note s (.told (.installed record) houtside) =
          past.halt record.webapp s.posters.length := by
        rw [History.note, hchild]
      rw [hnote]
      refine hgo hsane hsettled rfl hstatus _ ?_
      rw [installed, hchild]
      dsimp only
      rw [reap_stop, alter_put]

/-- What is left of an uninstalled webapp is what is held of the others. -/
theorem children_uninstalled (s : Supervisor) (webapp : Uuid) :
    (s.uninstalled webapp).children = (s.children.remove webapp) ∧
      (s.uninstalled webapp).posters = s.posters := by
  unfold uninstalled
  dsimp only
  rw [announceRunning_children, announceRunning_posters, reap_stop]
  cases hchild : s.children.get? webapp with
  | none =>
      rw [alter_of_none hchild]
      exact ⟨rfl, rfl⟩
  | some child =>
      rw [alter_eq hchild]
      exact ⟨Table.remove_put _ _ _, rfl⟩

theorem uninstalled_fine (h : Sane past s) (hs : Settled s none)
    (webapp : Uuid) :
    Sane (past.halt webapp s.posters.length) (s.uninstalled webapp) ∧
      Settled (s.uninstalled webapp) none := by
  obtain ⟨hchildren, hposters⟩ := children_uninstalled s webapp
  have hsane : Sane past (s.uninstalled webapp) := by
    refine ⟨fun other found hfound => ?_, ?_, ?_, ?_⟩
    · rw [hchildren] at hfound
      rw [hposters]
      exact h.child other found (Table.get?_of_remove hfound).2
    · rw [hposters]
      exact h.unique
    · rw [hposters]
      exact h.seen
    · rw [hposters]
      exact h.bounds
  refine ⟨?_, settled_announceRunning fun other found _ hfound hrunning => ?_⟩
  · rw [← hposters]
    refine hsane.halt fun found hfound => ?_
    rw [hchildren, Table.get?_remove_self] at hfound
    exact nomatch hfound
  · rw [← announceRunning_children] at hfound
    change (s.uninstalled webapp).children.get? other = some found at hfound
    rw [hchildren] at hfound
    exact hs.open_ other found (fun heq => nomatch heq)
      (Table.get?_of_remove hfound).2 hrunning

/-- The same children, but for what is held of one. -/
theorem put_fine (h : Sane past s) (hs : Settled s none)
    (hold : s.children.get? webapp = some child) {held : Child}
    (hsane : ChildSane past s.posters webapp held)
    (hstatus : held.status = child.status)
    (hprocess : held.process = child.process) :
    Sane past { s with children := s.children.put webapp held } ∧
      Settled { s with children := s.children.put webapp held } none := by
  have hrunning := mem_runningSet_of_get? hold
  refine ⟨h.put hsane rfl rfl, hs.published.trans (runningSet_put ?_).symm,
    fun other found hne hfound hstate => ?_⟩
  · rw [hstatus]
    exact hrunning
  · rcases Table.get?_put_cases hfound with ⟨rfl, rfl⟩ | ⟨-, hbefore⟩
    · rw [hprocess]
      exact hs.open_ other child hne hold (hstatus.symm.trans hstate)
    · exact hs.open_ other found hne hbefore hstate

theorem enabled_fine {spawns : Spawns} {stored : Option ExtensionRecord}
    {enabled : Bool} (h : Sane past s) (hs : Settled s none)
    (houtside : (Command.enabled webapp enabled stored).outside = true) :
    Sane (past.note s (.told (.enabled webapp enabled stored) houtside))
        (s.enabled spawns webapp enabled stored) ∧
      Settled (s.enabled spawns webapp enabled stored) none := by
  cases stored with
  | none => cases enabled <;> exact ⟨h, hs⟩
  | some stored =>
      unfold Supervisor.enabled
      dsimp only
      cases hchild : s.children.get? webapp with
      | none =>
          dsimp only
          refine ⟨?_, hs⟩
          cases enabled with
          | true => exact h
          | false =>
              exact h.halt fun found hfound =>
                nomatch hchild.symm.trans hfound
      | some child =>
          have hold := h.child webapp child hchild
          dsimp only
          cases enabled with
          | true =>
              have hsane : ChildSane past s.posters webapp
                  { child with record := { stored with enabled := true } } :=
                ⟨fun p hp => { hold.process p hp with enabled := rfl },
                  hold.attempt, hold.numbered, hold.armed⟩
              obtain ⟨hput, hsettled⟩ := put_fine h hs hchild hsane rfl rfl
              exact start_fine hput hsettled (.none _ spawns webapp)
          | false =>
              have hstatus := mem_runningSet_of_get? hchild
              obtain ⟨hsane, hsettled⟩ := @halted_fine _ s webapp
                { child with record := { stored with enabled := false } } h hs
                hold.attempt hold.numbered hstatus
              obtain ⟨hsane, -, hnone⟩ := mark_fine hsane hsettled
                (fun heq => nomatch heq : ExtensionStatus.stopped ≠ .running)
                webapp
              rw [if_neg Bool.false_ne_true, reap_stop, alter_put]
              exact ⟨hsane, hnone rfl⟩

theorem runtimeReady_fine (h : Sane past s) (hs : Settled s none)
    (spawns : Spawns) (outcome : Except String Unit) :
    Sane past (s.runtimeReady spawns outcome) ∧
      Settled (s.runtimeReady spawns outcome) none := by
  unfold runtimeReady
  split
  · exact @startAll_fine past { s with runtime := .ready }
      (h.same rfl rfl) (Settled.same hs rfl rfl) spawns
  · next reason =>
      exact @marks_fine past { s with runtime := .missing reason } none
        (h.same rfl rfl) (Settled.same hs rfl rfl) (.runtimeMissing reason)
        (fun heq => nomatch heq) s.enabledIds

theorem attach_fine (h : Sane past s) (hs : Settled s none)
    (spawns : Spawns) :
    Sane past (s.attach spawns) ∧ Settled (s.attach spawns) none :=
  @startAll_fine past
    { s with published := s.runningSet, inbox := some [s.runningSet] }
    (h.same rfl rfl)
    ⟨rfl, fun webapp child hne hchild => hs.open_ webapp child hne hchild⟩
    spawns

/-! ### What is posted -/

/-- A process that is written to is ready, or something that is said to run is
said to run again. -/
theorem line_fine {generation : Nat} (h : Sane past s) (hs : Settled s none)
    (hposted : s.posters[p]? = some (.process webapp generation))
    (horderly : ∀ child, s.children.get? webapp = some child →
      child.attempt = generation →
        child.process = some p ∨ child.status = .running) :
    Sane (past.hear p) (s.line webapp generation .ready) ∧
      Settled (s.line webapp generation .ready) none := by
  have hp : p < s.posters.length := (List.getElem?_eq_some_iff.mp hposted).1
  have hheard := h.hear hp
  unfold line
  split
  · exact ⟨hheard, hs⟩
  · next child hchild =>
      split
      · exact ⟨hheard, hs⟩
      · next hattempt =>
          have hold := hheard.child webapp child hchild
          have hknown := horderly child hchild (not_not.mp hattempt)
          have hready : ∀ q, child.process = some q →
              (past.hear p).ready q = true := by
            intro q hq
            rcases hknown with hprocess | hstatus
            · rw [Option.some.inj (hq.symm.trans hprocess)]
              exact Function.update_self _ _ _
            · exact (hold.process q hq).ready hstatus
          have hprocess : child.process.isSome := by
            rcases hknown with hprocess | hstatus
            · rw [hprocess]
              rfl
            · exact hs.open_ webapp child (fun heq => nomatch heq) hchild
                hstatus
          have hsane : ChildSane (past.hear p) s.posters webapp
              { child with failures := 0, status := .running } :=
            ⟨fun q hq =>
              { hold.process q hq with ready := fun _ => hready q hq },
              hold.attempt, hold.numbered, hold.armed⟩
          unfold spoken
          dsimp only
          rw [hchild]
          dsimp only
          rw [alter_eq hchild]
          have hput : Sane (past.hear p) { s with
              children := s.children.put webapp
                { child with failures := 0, status := .running } } :=
            hheard.put hsane rfl rfl
          refine ⟨hput.same (announceRunning_children _)
            (announceRunning_posters _),
            settled_announceRunning fun other found hne hfound hstate => ?_⟩
          rcases Table.get?_put_cases hfound with ⟨-, rfl⟩ | ⟨-, hbefore⟩
          · exact hprocess
          · exact hs.open_ other found hne hbefore hstate

theorem exited_fine {generation : Nat} (h : Sane past s)
    (hs : Settled s none)
    (hposted : s.posters[p]? = some (.process webapp generation))
    (reason : String) :
    Sane (past.lose p) (s.exited webapp generation reason) ∧
      Settled (s.exited webapp generation reason) none := by
  have hp : p < s.posters.length := (List.getElem?_eq_some_iff.mp hposted).1
  unfold exited
  split
  · next hnone =>
      refine ⟨h.lose hp (h.process_ne hposted fun found hfound => ?_), hs⟩
      exact nomatch hnone.symm.trans hfound
  · next child hchild =>
      split
      · next hattempt =>
          refine ⟨h.lose hp (h.process_ne hposted fun found hfound => ?_), hs⟩
          rw [hchild] at hfound
          exact Or.inl (Option.some.inj hfound ▸ hattempt)
      · next hattempt =>
          have hold := h.child webapp child hchild
          have hsane : ∀ status, ChildSane past s.posters webapp { child with
              stdin := none, kill := none, status := status } := fun _ =>
            ⟨fun _ hq => (nomatch hq), hold.attempt, hold.numbered,
              hold.armed⟩
          have hlost : ∀ status, Sane (past.lose p) { s with
              children := s.children.put webapp { child with
                stdin := none, kill := none, status := status } } := by
            intro status
            have hput : Sane past { s with
                children := s.children.put webapp { child with
                  stdin := none, kill := none, status := status } } :=
              h.put (hsane status) rfl rfl
            refine hput.lose hp (hput.process_ne hposted fun found hfound => ?_)
            dsimp only at hfound
            rw [Table.get?_put_self] at hfound
            rw [← Option.some.inj hfound]
            exact Or.inr rfl
          have hopen : ∀ other found, other ≠ webapp →
              (s.children.put webapp { child with
                stdin := none, kill := none }).get? other = some found →
              found.status = .running → found.process.isSome := by
            intro other found hne hfound
            rw [Table.get?_put_of_ne _ _ hne] at hfound
            exact hs.open_ other found (fun heq => nomatch heq) hfound
          dsimp only
          rw [alter_eq hchild]
          split
          · rw [alter_put]
            refine ⟨(hlost .stopped).same (announceRunning_children _)
              (announceRunning_posters _),
              settled_announceRunning fun other found hne hfound hstate => ?_⟩
            rcases Table.get?_put_cases hfound with ⟨-, rfl⟩ | ⟨-, hbefore⟩
            · exact nomatch hstate
            · exact hs.open_ other found hne hbefore hstate
          · rw [← not_not.mp hattempt]
            have hget := Table.get?_put_self s.children webapp { child with
              stdin := none, kill := none }
            exact @fail_fine (past.lose p) { s with children := _ } webapp _
              (hlost child.status) hopen hget reason

theorem restart_fine {generation : Nat} (h : Sane past s)
    (hs : Settled s none) (spawns : Spawns) :
    Sane past (s.restart spawns webapp generation) ∧
      Settled (s.restart spawns webapp generation) none := by
  unfold restart
  split
  · exact ⟨h, hs⟩
  · next child hchild =>
      split
      · have hold := h.child webapp child hchild
        have hsane : ChildSane past s.posters webapp
            { child with armed := none } :=
          ⟨fun q hq => { hold.process q hq with }, hold.attempt, hold.numbered,
            fun _ hn => (nomatch hn)⟩
        obtain ⟨hput, hsettled⟩ := put_fine h hs hchild hsane rfl rfl
        rw [alter_eq hchild]
        exact start_fine hput hsettled (.none _ spawns webapp)
      · exact ⟨h, hs⟩

end Supervisor

end Extensions

end Bridgething
