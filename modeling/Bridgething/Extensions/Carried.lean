/-
What the commands that are not about devices leave of what the children know: a
child that runs on knows what it knew, and a child that comes up is told of the
devices that are held.
-/
import Bridgething.Extensions.Mirror

namespace Bridgething

namespace Extensions

namespace Supervisor

/-- What the children were announced is what they know of. -/
def Sound (s : Supervisor) : Prop :=
  ∀ webapp child pipe, s.children.get? webapp = some child →
    child.stdin = some pipe → Heard child pipe.view

/-- Every running child knows of its devices what is held of them for its
webapp. -/
def Mirrored (s : Supervisor) : Prop :=
  ∀ webapp child pipe, s.children.get? webapp = some child →
    child.stdin = some pipe → Mirrors s.devices webapp pipe.view

/-- A child that knows what is held, if it runs. -/
def Told (devices : OrderedMap String Device) (webapp : Uuid)
    (child : Child) : Prop :=
  ∀ pipe, child.stdin = some pipe →
    Heard child pipe.view ∧ Mirrors devices webapp pipe.view

/-- The devices are the same, and each child is told what is held or was there
before, as far as it has an input. -/
structure Carries (s next : Supervisor) : Prop where
  devices : next.devices = s.devices
  children : ∀ webapp child, next.children.get? webapp = some child →
    Told s.devices webapp child ∨
      ∃ old, s.children.get? webapp = some old ∧
        child.announced = old.announced ∧
        (child.stdin = none ∨ child.stdin = old.stdin)

theorem told_of_stdin_none {devices : OrderedMap String Device}
    {webapp : Uuid} {child : Child} (h : child.stdin = none) :
    Told devices webapp child := by
  intro pipe hpipe
  rw [h] at hpipe
  exact nomatch hpipe

theorem told_of_stdin_eq {devices : OrderedMap String Device} {webapp : Uuid}
    {child old : Child} (h : Told devices webapp old)
    (hannounced : child.announced = old.announced)
    (hstdin : child.stdin = none ∨ child.stdin = old.stdin) :
    Told devices webapp child := by
  intro pipe hpipe
  rcases hstdin with hnone | hsame
  · rw [hnone] at hpipe
    exact nomatch hpipe
  · obtain ⟨hheard, hmirrors⟩ := h pipe (hsame ▸ hpipe)
    refine ⟨⟨fun device => ?_, fun device message hmessage => ?_⟩, hmirrors⟩
    · rw [hannounced]
      exact hheard.known device
    · exact hheard.named device message (hannounced ▸ hmessage)

namespace Carries

variable {s next last : Supervisor}

theorem refl (s : Supervisor) : Carries s s :=
  ⟨rfl, fun _ child h => Or.inr ⟨child, h, rfl, Or.inr rfl⟩⟩

theorem trans (h : Carries s next) (hlast : Carries next last) :
    Carries s last := by
  refine ⟨hlast.devices.trans h.devices, fun webapp child hchild => ?_⟩
  rcases hlast.children webapp child hchild with
    htold | ⟨middle, hmiddle, hannounced, hstdin⟩
  · rw [h.devices] at htold
    exact Or.inl htold
  · rcases h.children webapp middle hmiddle with
      htold | ⟨old, hold, hannounced', hstdin'⟩
    · exact Or.inl (told_of_stdin_eq htold hannounced hstdin)
    · refine Or.inr ⟨old, hold, hannounced.trans hannounced', ?_⟩
      rcases hstdin with hnone | hsame
      · exact Or.inl hnone
      · rcases hstdin' with hnone | hsame'
        · exact Or.inl (hsame.trans hnone)
        · exact Or.inr (hsame.trans hsame')

/-- Neither the devices nor the children are touched. -/
theorem same (hdevices : next.devices = s.devices)
    (hchildren : next.children = s.children) : Carries s next :=
  ⟨hdevices, fun _ child h =>
    Or.inr ⟨child, hchildren ▸ h, rfl, Or.inr rfl⟩⟩

theorem foldl {ι : Type} {f : Supervisor → ι → Supervisor}
    (h : ∀ s i, Carries s (f s i)) (is : List ι) (s : Supervisor) :
    Carries s (is.foldl f s) := by
  induction is generalizing s with
  | nil => exact refl s
  | cons i is ih => exact (h s i).trans (ih (f s i))

/-- A child is put that is told what is held, or that was there before. -/
theorem put {webapp : Uuid} {child : Child}
    (h : Told s.devices webapp child ∨
      ∃ old, s.children.get? webapp = some old ∧
        child.announced = old.announced ∧
        (child.stdin = none ∨ child.stdin = old.stdin)) :
    Carries s { s with children := s.children.put webapp child } := by
  refine ⟨rfl, fun other found hfound => ?_⟩
  rcases Table.get?_put_cases hfound with ⟨rfl, rfl⟩ | ⟨-, hold⟩
  · exact h
  · exact Or.inr ⟨found, hold, rfl, Or.inr rfl⟩

theorem alter {f : Child → Child}
    (h : ∀ child, (f child).announced = child.announced ∧
      ((f child).stdin = none ∨ (f child).stdin = child.stdin))
    (s : Supervisor) (webapp : Uuid) : Carries s (s.alter webapp f) := by
  unfold Supervisor.alter
  split
  · exact refl s
  · next child hchild =>
      exact put (Or.inr ⟨child, hchild, h child⟩)

theorem announceRunning (s : Supervisor) :
    Carries s s.announceRunning := by
  unfold Supervisor.announceRunning
  split
  · exact refl s
  · exact same rfl rfl

theorem mark (s : Supervisor) (webapp : Uuid) (status : ExtensionStatus) :
    Carries s (s.mark webapp status) := by
  unfold Supervisor.mark
  split
  · exact refl s
  · split
    · exact refl s
    · refine trans ?_ (announceRunning _)
      refine alter ?_ s webapp
      exact fun _ => ⟨rfl, Or.inr rfl⟩

/-- Every child gets a status in turn. -/
theorem marks (s : Supervisor) (status : ExtensionStatus)
    (webapps : List Uuid) :
    Carries s (webapps.foldl (fun s webapp => s.mark webapp status) s) :=
  foldl (fun s webapp => mark s webapp status) webapps s

theorem acquire (s : Supervisor) : Carries s s.acquire := by
  have hmarks : Carries s (s.enabledIds.foldl
      (fun s webapp => s.mark webapp .starting)
      { s with runtime := .acquiring }) := by
    refine trans ?_ (marks _ _ _)
    exact same rfl rfl
  unfold Supervisor.acquire
  split
  · exact refl s
  · exact refl s
  · exact hmarks
  · exact hmarks

theorem fail (s : Supervisor) (webapp : Uuid) (generation : Nat)
    (reason : String) : Carries s (s.fail webapp generation reason) := by
  unfold Supervisor.fail
  split
  · exact refl s
  · split
    · exact refl s
    · have hcrashed : Carries s (s.alter webapp fun child =>
          { child with
            status := .crashed reason
            failures := min (child.failures + 1) (2 ^ 32 - 1)
            seq := child.seq + 1
            armed := some (child.seq + 1) }) := by
        refine alter ?_ s webapp
        exact fun _ => ⟨rfl, Or.inr rfl⟩
      refine trans (hcrashed.trans ?_) (announceRunning _)
      exact same rfl rfl

end Carries

/-! ### Starting -/

theorem announceConnected_devices (s : Supervisor) (webapp : Uuid)
    (device : String) :
    (s.announceConnected webapp device).devices = s.devices := by
  unfold announceConnected alter
  split
  · split
    · rfl
    · rfl
  · rfl

/-- A child that is told what is held stays so as it is told of a device. -/
theorem told_announce {devices : OrderedMap String Device} {webapp : Uuid}
    {child : Child} (h : Told devices webapp child) (device : String) :
    Told devices webapp (child.announce device
      ((heldOf devices device webapp).message device)) := by
  intro next hnext
  cases hpipe : child.stdin with
  | none =>
      unfold Child.announce at hnext
      split at hnext
      · rw [hpipe] at hnext
        cases hnext
      · rw [Child.write, hpipe] at hnext
        cases hnext
  | some pipe =>
      obtain ⟨hheard, hmirrors⟩ := h pipe hpipe
      obtain ⟨found, hfound, hkept, hview⟩ := Child.announce_heard hpipe hheard
        device (heldOf devices device webapp)
      obtain rfl : found = next := Option.some.inj (hfound.symm.trans hnext)
      refine ⟨hkept, fun other known hknown => ?_⟩
      rw [hview] at hknown
      split at hknown
      · exact hmirrors other known hknown
      · rw [View.put] at hknown
        split at hknown
        · next heq => rw [heq, Option.some.inj hknown]
        · exact hmirrors other known hknown

theorem carries_announceConnected {s : Supervisor} {webapp : Uuid}
    (h : ∀ child, s.children.get? webapp = some child →
      Told s.devices webapp child) (device : String) :
    Carries s (s.announceConnected webapp device) ∧
      ∀ child, (s.announceConnected webapp device).children.get? webapp =
        some child → Told s.devices webapp child := by
  unfold announceConnected
  split
  · unfold alter
    split
    · next hnone =>
        exact ⟨.refl s, h⟩
    · next child hchild =>
        have htold := told_announce (h child hchild) device
        refine ⟨.put (Or.inl htold), fun found hfound => ?_⟩
        change (s.children.put webapp _).get? webapp = some found at hfound
        rw [Table.get?_put_self] at hfound
        rw [← Option.some.inj hfound]
        exact htold
  · exact ⟨.refl s, h⟩

theorem carries_announceDevices {s : Supervisor} {webapp : Uuid}
    (h : ∀ child, s.children.get? webapp = some child →
      Told s.devices webapp child) (devices : List String) :
    Carries s (devices.foldl
      (fun s device => s.announceConnected webapp device) s) := by
  induction devices generalizing s with
  | nil => exact .refl s
  | cons device devices ih =>
      obtain ⟨hcarries, htold⟩ := carries_announceConnected h device
      refine hcarries.trans (ih fun child hchild => ?_)
      rw [announceConnected_devices]
      exact htold child hchild

namespace Carries

theorem spawned (s : Supervisor) (webapp : Uuid) (child : Child) :
    Carries s (s.spawned webapp child) := by
  have htold : ∀ message process, message = HostMessage.hello
      EXTENSION_API_VERSION child.record.webapp child.record.name
        child.record.version →
      Told s.devices webapp ({ child with
        stdin := some ⟨process, []⟩, kill := some process
        status := .starting, announced := .empty }.write message) := by
    rintro message process rfl pipe hpipe
    rw [Child.write_stdin rfl] at hpipe
    rw [← Option.some.inj hpipe]
    exact ⟨heard_greeted _ rfl, fun _ _ hknown => nomatch hknown⟩
  have hput := put (Or.inl (htold _ s.posters.length rfl))
  unfold Supervisor.spawned
  dsimp only
  refine trans (trans hput ?_) (carries_announceDevices ?_ _)
  · exact same rfl rfl
  · intro found hfound
    change (s.children.put webapp _).get? webapp = some found at hfound
    rw [Table.get?_put_self] at hfound
    rw [← Option.some.inj hfound]
    exact htold _ _ rfl

theorem launch (s : Supervisor) (spawns : Spawns) (webapp : Uuid) :
    Carries s (s.launch spawns webapp) := by
  unfold Supervisor.launch
  split
  · exact refl s
  · next child hchild =>
      split
      · exact refl s
      · dsimp only
        split
        · refine trans ?_ (fail _ webapp _ _)
          exact put (Or.inr ⟨child, hchild, rfl, Or.inr rfl⟩)
        · exact spawned s webapp _

theorem start (s : Supervisor) (spawns : Spawns) (webapp : Uuid) :
    Carries s (s.start spawns webapp) := by
  unfold Supervisor.start
  split
  · exact launch s spawns webapp
  · exact mark s webapp _
  · exact (acquire s).trans (mark _ webapp _)
  · exact (acquire s).trans (mark _ webapp _)

theorem startAll (s : Supervisor) (spawns : Spawns) :
    Carries s (s.startAll spawns) :=
  foldl (fun s webapp => start s spawns webapp) _ s

theorem stop (s : Supervisor) (webapp : Uuid) (intent : Intent) :
    Carries s (s.stop webapp intent) := by
  refine alter (fun child => ?_) s webapp
  unfold Child.stop
  split
  · exact ⟨rfl, Or.inl rfl⟩
  · exact ⟨rfl, Or.inl rfl⟩

theorem stopped (s : Supervisor) (webapp : Uuid) :
    Carries s ((s.stop webapp .leave).reap webapp) := by
  refine (stop s webapp .leave).trans ?_
  refine alter ?_ _ webapp
  exact fun _ => ⟨rfl, Or.inr rfl⟩

theorem installed (s : Supervisor) (spawns : Spawns)
    (record : ExtensionRecord) : Carries s (s.installed spawns record) := by
  have hgo : ∀ t : Supervisor, Carries s t →
      Carries s (if record.enabled then
          ((t.stop record.webapp .leave).reap record.webapp).start spawns
            record.webapp
        else ((t.stop record.webapp .leave).reap record.webapp).mark
          record.webapp .stopped) := by
    intro t ht
    split
    · exact (ht.trans (stopped _ record.webapp)).trans
        (start _ spawns record.webapp)
    · exact (ht.trans (stopped _ record.webapp)).trans
        (mark _ record.webapp _)
  unfold Supervisor.installed
  cases hchild : s.children.get? record.webapp with
  | none =>
      exact hgo { s with
        children := s.children.put record.webapp { record := record } }
        (put (Or.inl (told_of_stdin_none rfl)))
  | some child =>
      exact hgo { s with
        children := s.children.put record.webapp
          { child with record := record } }
        (put (Or.inr ⟨child, hchild, rfl, Or.inr rfl⟩))

theorem uninstalled (s : Supervisor) (webapp : Uuid) :
    Carries s (s.uninstalled webapp) := by
  have hremove : Carries ((s.stop webapp .leave).reap webapp)
      { (s.stop webapp .leave).reap webapp with
        children := ((s.stop webapp .leave).reap webapp).children.remove
          webapp } :=
    ⟨rfl, fun other child hchild =>
      Or.inr ⟨child, (Table.get?_of_remove hchild).2, rfl, Or.inr rfl⟩⟩
  exact ((stopped s webapp).trans hremove).trans (announceRunning _)

theorem enabled (s : Supervisor) (spawns : Spawns) (webapp : Uuid)
    (enabled : Bool) (stored : Option ExtensionRecord) :
    Carries s (s.enabled spawns webapp enabled stored) := by
  unfold Supervisor.enabled
  split
  · exact refl s
  · split
    · exact refl s
    · next child hchild =>
        have hput : ∀ record, Carries s { s with
            children := s.children.put webapp
              { child with record := record } } := fun record =>
          put (Or.inr ⟨child, hchild, rfl, Or.inr rfl⟩)
        dsimp only
        split
        · exact (hput _).trans (start _ spawns webapp)
        · exact ((hput _).trans (stopped _ webapp)).trans (mark _ webapp _)

theorem runtimeReady (s : Supervisor) (spawns : Spawns)
    (outcome : Except String Unit) :
    Carries s (s.runtimeReady spawns outcome) := by
  cases outcome with
  | ok _ =>
      unfold Supervisor.runtimeReady
      refine trans ?_ (startAll _ spawns)
      exact same rfl rfl
  | error reason =>
      unfold Supervisor.runtimeReady
      refine trans ?_ (marks _ _ _)
      exact same rfl rfl

theorem exited (s : Supervisor) (webapp : Uuid) (generation : Nat)
    (reason : String) : Carries s (s.exited webapp generation reason) := by
  unfold Supervisor.exited
  split
  · exact refl s
  · split
    · exact refl s
    · dsimp only
      have hgone : Carries s (s.alter webapp fun child =>
          { child with stdin := none, kill := none }) := by
        refine alter ?_ s webapp
        exact fun _ => ⟨rfl, Or.inl rfl⟩
      split
      · refine trans (hgone.trans ?_) (announceRunning _)
        refine alter ?_ _ webapp
        exact fun _ => ⟨rfl, Or.inr rfl⟩
      · exact hgone.trans (fail _ webapp generation reason)

theorem line (s : Supervisor) (webapp : Uuid) (generation : Nat)
    (said : Spoken) : Carries s (s.line webapp generation said) := by
  unfold Supervisor.line
  split
  · exact refl s
  · split
    · exact refl s
    · cases said with
      | other => exact refl s
      | ready =>
          rw [Supervisor.spoken]
          split
          · exact refl s
          · refine trans ?_ (announceRunning _)
            refine alter ?_ s webapp
            exact fun _ => ⟨rfl, Or.inr rfl⟩

theorem restart (s : Supervisor) (spawns : Spawns) (webapp : Uuid)
    (generation : Nat) :
    Carries s (s.restart spawns webapp generation) := by
  unfold Supervisor.restart
  split
  · exact refl s
  · split
    · refine trans ?_ (start _ spawns webapp)
      refine alter ?_ s webapp
      exact fun _ => ⟨rfl, Or.inr rfl⟩
    · exact refl s

end Carries

end Supervisor

end Extensions

end Bridgething
