/-
What the operations of the supervisor leave of the generations and of what is
published.
-/
import Bridgething.Extensions.Generations

namespace Bridgething

namespace Extensions

namespace Supervisor

variable {past : History} {s next : Supervisor} {webapp : Uuid}
  {child : Child} {loose : Option Uuid}

theorem mem_runningSet :
    webapp ∈ s.runningSet ↔
      ∃ child, s.children.get? webapp = some child ∧
        child.status = .running := by
  unfold runningSet
  rw [Finset.mem_filter, List.mem_toFinset]
  constructor
  · rintro ⟨-, hany⟩
    obtain ⟨child, hchild, hstatus⟩ := (Option.any_eq_true _ _).mp hany
    exact ⟨child, hchild, of_decide_eq_true hstatus⟩
  · rintro ⟨child, hchild, hstatus⟩
    refine ⟨List.mem_map.mpr ⟨_, Table.mem_of_get? hchild, rfl⟩, ?_⟩
    rw [hchild]
    exact decide_eq_true hstatus

theorem alter_eq {f : Child → Child}
    (h : s.children.get? webapp = some child) :
    s.alter webapp f =
      { s with children := s.children.put webapp (f child) } := by
  rw [alter, h]

theorem alter_of_none {f : Child → Child}
    (h : s.children.get? webapp = none) : s.alter webapp f = s := by
  rw [alter, h]

theorem announceRunning_children (s : Supervisor) :
    s.announceRunning.children = s.children := by
  unfold announceRunning
  split
  · rfl
  · rfl

theorem announceRunning_posters (s : Supervisor) :
    s.announceRunning.posters = s.posters := by
  unfold announceRunning
  split
  · rfl
  · rfl

theorem runningSet_congr (h : next.children = s.children) :
    next.runningSet = s.runningSet := by
  rw [runningSet, h]
  rfl

/-- What is published right after an announcement is what runs. -/
theorem settled_announceRunning
    (h : ∀ webapp child, some webapp ≠ loose →
      s.children.get? webapp = some child → child.status = .running →
        child.process.isSome) : Settled s.announceRunning loose := by
  refine ⟨?_, ?_⟩
  · rw [runningSet_congr s.announceRunning_children]
    unfold announceRunning
    split
    · next h => exact h.symm
    · rfl
  · rw [announceRunning_children]
    exact h

/-! ### Operations on what is told -/

/-- The children differ in what they were told alone. -/
structure SameCore (s next : Supervisor) : Prop where
  posters : next.posters = s.posters
  published : next.published = s.published
  core : ∀ webapp, (next.children.get? webapp).map Child.core =
    (s.children.get? webapp).map Child.core

namespace SameCore

theorem refl (s : Supervisor) : SameCore s s := ⟨rfl, rfl, fun _ => rfl⟩

theorem devices (s : Supervisor) (devices : OrderedMap String Device) :
    SameCore s { s with devices := devices } := ⟨rfl, rfl, fun _ => rfl⟩

theorem trans {last : Supervisor} (h : SameCore s next)
    (hlast : SameCore next last) : SameCore s last :=
  ⟨hlast.posters.trans h.posters, hlast.published.trans h.published,
    fun webapp => (hlast.core webapp).trans (h.core webapp)⟩

theorem foldl {ι : Type} {f : Supervisor → ι → Supervisor}
    (h : ∀ s i, SameCore s (f s i)) (is : List ι) (s : Supervisor) :
    SameCore s (is.foldl f s) := by
  induction is generalizing s with
  | nil => exact refl s
  | cons i is ih => exact (h s i).trans (ih (f s i))

theorem alter {f : Child → Child} (h : ∀ child, (f child).core = child.core)
    (s : Supervisor) (webapp : Uuid) : SameCore s (s.alter webapp f) := by
  cases hchild : s.children.get? webapp with
  | none =>
      rw [alter_of_none hchild]
      exact refl s
  | some child =>
      rw [alter_eq hchild]
      refine ⟨rfl, rfl, fun other => ?_⟩
      by_cases heq : other = webapp
      · rw [heq, hchild]
        dsimp only
        rw [Table.get?_put_self]
        exact congrArg some (h child)
      · dsimp only
        rw [Table.get?_put_of_ne _ _ heq]

theorem back (h : SameCore s next) {found : Child}
    (hfound : next.children.get? webapp = some found) :
    ∃ old, s.children.get? webapp = some old ∧ found.core = old.core := by
  have hcore := h.core webapp
  rw [hfound, Option.map_some] at hcore
  obtain ⟨old, hold, heq⟩ := Option.map_eq_some_iff.mp hcore.symm
  exact ⟨old, hold, heq.symm⟩

theorem sane (h : SameCore s next) (hs : Sane past s) : Sane past next := by
  refine ⟨fun webapp found hfound => ?_, ?_, ?_, ?_⟩
  · obtain ⟨old, hold, hcore⟩ := h.back hfound
    rw [h.posters]
    exact (hs.child webapp old hold).congr hcore
  · rw [h.posters]
    exact hs.unique
  · rw [h.posters]
    exact hs.seen
  · rw [h.posters]
    exact hs.bounds

theorem symm (h : SameCore s next) : SameCore next s :=
  ⟨h.posters.symm, h.published.symm, fun webapp => (h.core webapp).symm⟩

theorem status (h : SameCore s next) {found : Child}
    (hfound : next.children.get? webapp = some found) :
    ∃ old, s.children.get? webapp = some old ∧
      found.status = old.status ∧ found.process = old.process := by
  obtain ⟨old, hold, hcore⟩ := h.back hfound
  simp only [Child.core, Prod.mk.injEq] at hcore
  exact ⟨old, hold, hcore.2.1, hcore.2.2.2.2.2.2.1⟩

theorem settled (h : SameCore s next) (hs : Settled s loose) :
    Settled next loose := by
  refine ⟨?_, fun webapp found hne hfound hstatus => ?_⟩
  · rw [h.published, hs.published]
    ext webapp
    rw [mem_runningSet, mem_runningSet]
    constructor
    · rintro ⟨old, hold, hstatus⟩
      obtain ⟨found, hfound, hsame, -⟩ := h.symm.status hold
      exact ⟨found, hfound, hsame ▸ hstatus⟩
    · rintro ⟨found, hfound, hstatus⟩
      obtain ⟨old, hold, hsame, -⟩ := h.status hfound
      exact ⟨old, hold, hsame ▸ hstatus⟩
  · obtain ⟨old, hold, hsame, hprocess⟩ := h.status hfound
    rw [hprocess]
    exact hs.open_ webapp old hne hold (hsame ▸ hstatus)

end SameCore

theorem Child.core_write (child : Child) (message : HostMessage) :
    (child.write message).core = child.core := by
  unfold Extensions.Child.write Child.core Child.process
  cases child.stdin with
  | none => rfl
  | some pipe => rfl

theorem core_announce (child : Child) (device : String)
    (message : HostMessage) :
    (child.announce device message).core = child.core := by
  unfold Extensions.Child.announce
  split
  · rfl
  · exact Child.core_write _ message

theorem core_tell (child : Child) (device : String) (message : HostMessage) :
    (child.tell device message).core = child.core := by
  unfold Extensions.Child.tell
  split
  · exact Child.core_write _ message
  · rfl

theorem core_disconnect (child : Child) (device : String) :
    (child.disconnect device).core = child.core := by
  unfold Extensions.Child.disconnect
  split
  · rfl
  · exact Child.core_write _ _

theorem sameCore_announceConnected (s : Supervisor) (webapp : Uuid)
    (device : String) : SameCore s (s.announceConnected webapp device) := by
  unfold announceConnected
  split
  · exact .alter (fun child => core_announce child device _) s webapp
  · exact .refl s

theorem sameCore_announceDevices (s : Supervisor) (webapp : Uuid) :
    SameCore s (s.announceDevices webapp) :=
  .foldl (fun s device => sameCore_announceConnected s webapp device) _ s

theorem sameCore_deviceConnected (s : Supervisor) (device name : String)
    (config : List (Option Uuid × String × String)) (webapps : List Uuid) :
    SameCore s (s.deviceConnected device name config webapps) :=
  (SameCore.devices s _).trans (.foldl
    (fun s webapp => sameCore_announceConnected s webapp device) webapps _)

theorem sameCore_deviceDisconnected (s : Supervisor) (device : String) :
    SameCore s (s.deviceDisconnected device) := by
  unfold deviceDisconnected
  split
  · exact .refl s
  · exact (SameCore.devices s _).trans (.foldl (fun s webapp =>
      .alter (fun child => core_disconnect child device) s webapp) _ _)

theorem sameCore_tell (s : Supervisor) (webapp : Uuid) (device : String)
    (message : HostMessage) : SameCore s (s.tell webapp device message) :=
  .alter (fun child => core_tell child device message) s webapp

theorem sameCore_deviceActive (s : Supervisor) (device : String)
    (webapp : Uuid) (active : Bool) :
    SameCore s (s.deviceActive device webapp active) := by
  unfold deviceActive
  dsimp only
  split
  · exact .devices s _
  · exact (SameCore.devices s _).trans (sameCore_tell _ _ _ _)

theorem sameCore_configChanged (s : Supervisor) (device : String)
    (webapp : Uuid) (key : String) (value : Option String) :
    SameCore s (s.configChanged device webapp key value) := by
  unfold configChanged
  exact (SameCore.devices s _).trans (sameCore_tell _ _ _ _)

/-! ### Operations on processes -/

/-- A status other than running. -/
theorem mark_fine (h : Sane past s) (hs : Settled s loose)
    {status : ExtensionStatus} (hne : status ≠ .running) (webapp : Uuid) :
    Sane past (s.mark webapp status) ∧
      Settled (s.mark webapp status) loose ∧
      (loose = some webapp → Settled (s.mark webapp status) none) := by
  unfold mark
  split
  · next hnone =>
      refine ⟨h, hs, ?_⟩
      rintro rfl
      refine ⟨hs.published, fun other found _ hfound => ?_⟩
      refine hs.open_ other found (fun heq => ?_) hfound
      rw [Option.some.inj heq, hnone] at hfound
      exact nomatch hfound
  · next child hchild =>
      split
      · next hsame =>
          refine ⟨h, hs, ?_⟩
          rintro rfl
          refine ⟨hs.published, fun other found _ hfound hrunning => ?_⟩
          refine hs.open_ other found (fun heq => ?_) hfound hrunning
          rw [Option.some.inj heq, hchild] at hfound
          rw [← Option.some.inj hfound, hsame] at hrunning
          exact hne hrunning
      · rw [alter_eq hchild]
        have hopen : ∀ other found, some other ≠ loose ∨ other = webapp →
            (s.children.put webapp
              { child with status := status }).get? other = some found →
            found.status = .running → found.process.isSome := by
          intro other found hother hfound hrunning
          rcases Table.get?_put_cases hfound with ⟨-, rfl⟩ | ⟨hwebapp, hold⟩
          · exact absurd hrunning hne
          · exact hs.open_ other found (hother.resolve_right hwebapp) hold
              hrunning
        have hsane : Sane past { s with
            children :=
              s.children.put webapp { child with status := status } } :=
          h.put ((h.child webapp child hchild).status hne) rfl rfl
        refine ⟨hsane.same (announceRunning_children _)
          (announceRunning_posters _), ?_, ?_⟩
        · exact settled_announceRunning fun other found hother =>
            hopen other found (Or.inl hother)
        · rintro rfl
          refine settled_announceRunning fun other found _ => ?_
          refine hopen other found ?_
          by_cases heq : other = webapp
          · exact Or.inr heq
          · exact Or.inl fun hsome => heq (Option.some.inj hsome)

theorem marks_fine (h : Sane past s) (hs : Settled s loose)
    {status : ExtensionStatus} (hne : status ≠ .running)
    (webapps : List Uuid) :
    Sane past (webapps.foldl (fun s webapp => s.mark webapp status) s) ∧
      Settled (webapps.foldl (fun s webapp => s.mark webapp status) s)
        loose := by
  induction webapps generalizing s with
  | nil => exact ⟨h, hs⟩
  | cons webapp webapps ih =>
      obtain ⟨hsane, hsettled, -⟩ := mark_fine h hs hne webapp
      exact ih hsane hsettled

theorem Settled.same (hs : Settled s loose)
    (hchildren : next.children = s.children)
    (hpublished : next.published = s.published) : Settled next loose := by
  refine ⟨?_, ?_⟩
  · rw [hpublished, runningSet_congr hchildren]
    exact hs.published
  · rw [hchildren]
    exact hs.open_

theorem acquire_fine (h : Sane past s) (hs : Settled s loose) :
    Sane past s.acquire ∧ Settled s.acquire loose := by
  have hmarks := @marks_fine past { s with runtime := .acquiring } loose
    (h.same rfl rfl) (Settled.same hs rfl rfl) .starting (fun h => nomatch h)
    s.enabledIds
  unfold acquire
  split
  · exact ⟨h, hs⟩
  · exact ⟨h, hs⟩
  · exact hmarks
  · exact hmarks

/-- A restart is armed under a number that is new. -/
theorem fail_fine (h : Sane past s)
    (hopen : ∀ other found, other ≠ webapp →
      s.children.get? other = some found → found.status = .running →
        found.process.isSome)
    (hchild : s.children.get? webapp = some child) (reason : String) :
    Sane past (s.fail webapp child.attempt reason) ∧
      Settled (s.fail webapp child.attempt reason) none := by
  have hold := h.child webapp child hchild
  have hsane : ChildSane past
      (s.posters ++ [.timer webapp (child.seq + 1)]) webapp
      { child with
        status := .crashed reason
        failures := min (child.failures + 1) (2 ^ 32 - 1)
        seq := child.seq + 1
        armed := some (child.seq + 1) } := by
    refine ⟨fun p hp => ?_, Nat.le_succ_of_le hold.attempt,
      fun p n hborn hn => ?_, fun n hn => ?_⟩
    · have hlive := @Live.push _ _ _ _ _ (hold.process p hp)
        (.timer webapp (child.seq + 1)) fun _ heq => nomatch heq
      exact { hlive with ready := fun hrunning => nomatch hrunning }
    · rcases numberAt_push hn with hbefore | ⟨-, hnew⟩
      · exact Nat.le_succ_of_le (hold.numbered p n hborn hbefore)
      · rw [Poster.of, if_pos rfl] at hnew
        exact (Option.some.inj hnew).ge
    · rw [← Option.some.inj hn]
      exact ⟨rfl, s.posters.length, getElem?_push_self _,
        (h.bounds webapp).1, (h.bounds webapp).2⟩
  have hnumber : (Poster.timer webapp (child.seq + 1)).of webapp =
      some (child.seq + 1) := if_pos rfl
  unfold fail
  rw [hchild]
  dsimp only
  rw [if_neg (not_not.mpr rfl), alter_eq hchild]
  refine ⟨?_, settled_announceRunning fun other found _ hfound hrunning => ?_⟩
  · refine Sane.same ?_ (announceRunning_children _)
      (announceRunning_posters _)
    exact h.push hchild hnumber (Nat.lt_succ_self _) hsane rfl rfl
  · rcases Table.get?_put_cases hfound with ⟨-, rfl⟩ | ⟨hne, hbefore⟩
    · exact nomatch hrunning
    · exact hopen other found hne hbefore hrunning

/-- A child whose process comes up writes to it, and its number is new. -/
theorem spawned_fine (h : Sane past s) (hpublished : s.published = s.runningSet)
    (hopen : ∀ other found, other ≠ webapp →
      s.children.get? other = some found → found.status = .running →
        found.process.isSome)
    {old : Child} (hold : s.children.get? webapp = some old)
    (hstatus : old.status ≠ .running) (hnew : old.seq < child.attempt)
    (hseq : child.seq = child.attempt) (harmed : child.armed = none)
    (hrun : child.intent = .run) (henabled : child.record.enabled = true) :
    Sane past (s.spawned webapp child) ∧
      Settled (s.spawned webapp child) none := by
  unfold spawned
  refine ⟨(sameCore_announceDevices _ webapp).sane ?_,
    (sameCore_announceDevices _ webapp).settled ?_⟩
  · have hnumber : (Poster.process webapp child.attempt).of webapp =
        some child.attempt := if_pos rfl
    refine h.push hold hnumber hnew ?_ rfl rfl
    have hbefore := h.child webapp old hold
    refine ⟨fun p hp => ?_, hseq.ge, fun p n hborn hn => ?_, fun n hn => ?_⟩
    · obtain rfl : s.posters.length = p := Option.some.inj hp
      refine ⟨getElem?_push_self _, (h.bounds webapp).1,
        fun later generation hlater heq => ?_, hrun, henabled, ?_,
        fun hrunning => nomatch hrunning⟩
      · rw [List.getElem?_eq_none (by simp; omega)] at heq
        exact nomatch heq
      · by_contra hgone
        have hlt := h.seen s.posters.length
          (Or.inr (Bool.eq_true_of_not_eq_false hgone))
        exact Nat.lt_irrefl _ hlt
    · change n ≤ child.seq
      rcases numberAt_push hn with hheld | ⟨-, hlast⟩
      · have hle := hbefore.numbered p n hborn hheld
        omega
      · rw [hnumber] at hlast
        exact (Option.some.inj hlast).symm.le.trans hseq.ge
    · change child.armed = some n at hn
      rw [harmed] at hn
      exact nomatch hn
  · refine ⟨?_, fun other found _ hfound hrunning => ?_⟩
    · refine hpublished.trans ?_
      ext other
      rw [mem_runningSet, mem_runningSet]
      by_cases heq : other = webapp
      · subst heq
        refine iff_of_false ?_ ?_
        · rintro ⟨found, hfound, hrunning⟩
          rw [hold] at hfound
          rw [← Option.some.inj hfound] at hrunning
          exact hstatus hrunning
        · rintro ⟨found, hfound, hrunning⟩
          dsimp only at hfound
          rw [Table.get?_put_self] at hfound
          rw [← Option.some.inj hfound] at hrunning
          exact nomatch hrunning
      · dsimp only
        rw [Table.get?_put_of_ne _ _ heq]
    · rcases Table.get?_put_cases hfound with ⟨-, rfl⟩ | ⟨hne, hbefore⟩
      · exact nomatch hrunning
      · exact hopen other found hne hbefore hrunning

/-- A webapp that is being stopped, if there is one, is the one that is started
again, and its process does not come up while it is still published. -/
structure Restarts (s : Supervisor) (spawns : Spawns) (loose : Option Uuid)
    (webapp : Uuid) : Prop where
  only : loose = none ∨ loose = some webapp
  loose : loose = some webapp →
    ∃ child, s.children.get? webapp = some child ∧ child.stdin = none ∧
      child.record.enabled = true ∧
      (s.runtime = .ready → child.status = .running → spawns webapp ≠ none)

theorem Restarts.none (s : Supervisor) (spawns : Spawns) (webapp : Uuid) :
    Restarts s spawns none webapp :=
  ⟨Or.inl rfl, fun h => nomatch h⟩

theorem launch_fine (h : Sane past s) (hs : Settled s loose)
    {spawns : Spawns} (hrestarts : Restarts s spawns loose webapp)
    (hready : s.runtime = .ready) :
    Sane past (s.launch spawns webapp) ∧
      Settled (s.launch spawns webapp) none := by
  have hopen : ∀ other found, other ≠ webapp →
      s.children.get? other = some found → found.status = .running →
        found.process.isSome := by
    intro other found hne
    refine hs.open_ other found fun heq => ?_
    rcases hrestarts.only with hnone | hsome
    · exact nomatch heq.trans hnone
    · exact hne (Option.some.inj (heq.trans hsome))
  have hkept : loose = none → Settled s none := fun hnone => hnone ▸ hs
  unfold launch
  split
  · next hnone =>
      refine ⟨h, hkept (hrestarts.only.resolve_right fun hsome => ?_)⟩
      obtain ⟨child, hchild, -⟩ := hrestarts.loose hsome
      exact nomatch hnone.symm.trans hchild
  · next child hchild =>
      split
      · next hstays =>
          refine ⟨h, hkept (hrestarts.only.resolve_right fun hsome => ?_)⟩
          obtain ⟨found, hfound, hstdin, henabled, -⟩ := hrestarts.loose hsome
          obtain rfl : child = found :=
            Option.some.inj (hchild.symm.trans hfound)
          rcases hstays with hpipe | hdisabled
          · rw [hstdin] at hpipe
            exact nomatch hpipe
          · exact nomatch henabled.symm.trans hdisabled
      · next hgoes =>
          obtain ⟨hpipe, hdisabled⟩ := not_or.mp hgoes
          have hstdin : child.stdin = none :=
            Option.not_isSome_iff_eq_none.mp hpipe
          have hbefore := h.child webapp child hchild
          dsimp only
          split
          · next reason hreason =>
              have hsane : ChildSane past s.posters webapp { child with
                  armed := none, intent := .run
                  seq := child.seq + 1, attempt := child.seq + 1 } := by
                refine ⟨fun p hp => ?_, Nat.le_refl _, fun p n hborn hn =>
                  Nat.le_succ_of_le (hbefore.numbered p n hborn hn),
                  fun n hn => nomatch hn⟩
                rw [Child.process, hstdin] at hp
                exact nomatch hp
              have hget := Table.get?_put_self s.children webapp { child with
                armed := none, intent := .run
                seq := child.seq + 1, attempt := child.seq + 1 }
              refine @fail_fine past { s with children := _ } webapp _
                (h.put hsane rfl rfl) ?_ hget reason
              intro other found hne hfound
              dsimp only at hfound
              rw [Table.get?_put_of_ne _ _ hne] at hfound
              exact hopen other found hne hfound
          · next hspawns =>
              refine spawned_fine h hs.published hopen hchild ?_
                (Nat.lt_succ_self _) rfl rfl rfl
                (Bool.eq_true_of_not_eq_false hdisabled)
              intro hrunning
              rcases hrestarts.only with hnone | hsome
              · have hprocess := hs.open_ webapp child
                  (fun heq => nomatch heq.trans hnone) hchild hrunning
                rw [Child.process, hstdin] at hprocess
                exact nomatch hprocess
              · obtain ⟨found, hfound, -, -, hfails⟩ := hrestarts.loose hsome
                obtain rfl : child = found :=
                  Option.some.inj (hchild.symm.trans hfound)
                exact hfails hready hrunning hspawns

theorem start_fine (h : Sane past s) (hs : Settled s loose)
    {spawns : Spawns} (hrestarts : Restarts s spawns loose webapp) :
    Sane past (s.start spawns webapp) ∧
      Settled (s.start spawns webapp) none := by
  have hmarked : ∀ {t : Supervisor} {status : ExtensionStatus},
      Sane past t → Settled t loose → status ≠ .running →
        Sane past (t.mark webapp status) ∧
          Settled (t.mark webapp status) none := by
    intro t status ht hts hne
    obtain ⟨hsane, hkept, hnone⟩ := mark_fine ht hts hne webapp
    refine ⟨hsane, ?_⟩
    rcases hrestarts.only with hloose | hloose
    · exact hloose ▸ hkept
    · exact hnone hloose
  unfold start
  split
  · next hready => exact launch_fine h hs hrestarts hready
  · exact hmarked h hs fun heq => nomatch heq
  · exact hmarked (acquire_fine h hs).1 (acquire_fine h hs).2
      fun heq => nomatch heq
  · exact hmarked (acquire_fine h hs).1 (acquire_fine h hs).2
      fun heq => nomatch heq

theorem startAll_fine (h : Sane past s) (hs : Settled s none)
    (spawns : Spawns) :
    Sane past (s.startAll spawns) ∧ Settled (s.startAll spawns) none := by
  unfold startAll
  generalize s.enabledIds = webapps
  induction webapps generalizing s with
  | nil => exact ⟨h, hs⟩
  | cons webapp webapps ih =>
      obtain ⟨hsane, hsettled⟩ := start_fine h hs (.none s spawns webapp)
      exact ih hsane hsettled

end Supervisor

end Extensions

end Bridgething
