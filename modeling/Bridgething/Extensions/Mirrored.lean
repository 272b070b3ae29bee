/-
When every child knows of its devices what the supervisor holds, over a run of
commands.  An announcement that repeats the last one is not written, though
settings may have been told in between; and what is told of one webapp may
change what is held for another.
-/
import Bridgething.Extensions.Carried

namespace Bridgething

namespace Extensions

namespace Device

theorem keepSettings_name (held : Device) (named : List Uuid)
    (fresh : Table Uuid Settings) :
    (held.keepSettingsOfEveryoneBut named fresh).name = held.name := by
  induction named generalizing held fresh with
  | nil => rfl
  | cons webapp named ih => exact ih _ _

theorem keepSettings_active (held : Device) (named : List Uuid)
    (fresh : Table Uuid Settings) :
    (held.keepSettingsOfEveryoneBut named fresh).active = held.active := by
  induction named generalizing held fresh with
  | nil => rfl
  | cons webapp named ih => exact ih _ _

theorem settings_put (held : Device) (webapp other : Uuid)
    (settings : Settings) (collected : List Uuid) :
    { held with
      config := held.config.put webapp settings
      collected := collected }.settings other =
      if other = webapp then settings else held.settings other := by
  unfold Device.settings
  dsimp only
  split
  · next heq =>
      rw [heq, Table.get?_put_self]
      rfl
  · next hne => rw [Table.get?_put_of_ne _ _ hne]

/-- A webapp that is not named keeps its settings. -/
theorem keepSettings_settings (held : Device) {named : List Uuid}
    {webapp : Uuid} (h : webapp ∉ named) (fresh : Table Uuid Settings) :
    (held.keepSettingsOfEveryoneBut named fresh).settings webapp =
      held.settings webapp := by
  induction named generalizing held fresh with
  | nil => rfl
  | cons other named ih =>
      have hne : webapp ≠ other := List.ne_of_not_mem_cons h
      have hrest : webapp ∉ named := List.not_mem_of_not_mem_cons h
      rw [keepSettingsOfEveryoneBut, ih _ hrest, settings_put, if_neg hne]

theorem mem_collected (held : Device) {named : List Uuid} {webapp : Uuid}
    (h : webapp ∈ named ∨ webapp ∈ held.collected)
    (fresh : Table Uuid Settings) :
    webapp ∈ (held.keepSettingsOfEveryoneBut named fresh).collected := by
  induction named generalizing held fresh with
  | nil => exact h.resolve_left List.not_mem_nil
  | cons other named ih =>
      refine ih _ ?_ _
      rcases h with hin | hheld
      · rcases List.mem_cons.mp hin with rfl | hrest
        · exact Or.inr List.mem_cons_self
        · exact Or.inl hrest
      · exact Or.inr (List.mem_cons_of_mem _ hheld)

end Device

namespace Supervisor

/-- Children changed in turn, where to change one again changes nothing. -/
theorem get?_foldl_alter {F : Uuid → Child → Child}
    (hagain : ∀ webapp child, F webapp (F webapp child) = F webapp child)
    (webapps : List Uuid) (s : Supervisor) (webapp : Uuid) :
    (webapps.foldl (fun s other => s.alter other (F other))
        s).children.get? webapp =
      if webapp ∈ webapps then (s.children.get? webapp).map (F webapp)
      else s.children.get? webapp := by
  induction webapps generalizing s with
  | nil => rfl
  | cons other webapps ih =>
      have hone : (s.alter other (F other)).children.get? webapp =
          if webapp = other then (s.children.get? webapp).map (F webapp)
          else s.children.get? webapp := by
        unfold alter
        split
        · next hnone =>
            split
            · next heq => rw [heq, hnone]; rfl
            · rfl
        · next child hchild =>
            split
            · next heq =>
                rw [heq, hchild]
                exact Table.get?_put_self _ _ _
            · next hne => exact Table.get?_put_of_ne _ _ hne
      rw [List.foldl_cons, ih, hone]
      by_cases heq : webapp = other
      · subst heq
        have hmap : (Option.map (F webapp) (s.children.get? webapp)).map
            (F webapp) = (s.children.get? webapp).map (F webapp) := by
          cases s.children.get? webapp with
          | none => rfl
          | some child => exact congrArg some (hagain webapp child)
        simp [hmap]
      · simp [heq]

theorem devices_foldl_alter (F : Uuid → Child → Child)
    (webapps : List Uuid) (s : Supervisor) :
    (webapps.foldl (fun s other => s.alter other (F other)) s).devices =
      s.devices := by
  induction webapps generalizing s with
  | nil => rfl
  | cons other webapps ih =>
      rw [List.foldl_cons, ih, alter]
      split
      · rfl
      · rfl

/-- What an announcement does to a child, if its webapp was collected. -/
def announced (devices : OrderedMap String Device) (device : String)
    (webapp : Uuid) (child : Child) : Child :=
  if (devices.get? device).any fun held => held.collects webapp then
    child.announce device ((heldOf devices device webapp).message device)
  else child

theorem announceConnected_eq (s : Supervisor) (webapp : Uuid)
    (device : String) :
    s.announceConnected webapp device =
      s.alter webapp (announced s.devices device webapp) := by
  unfold announceConnected announced alter
  split
  · rfl
  · split
    · rfl
    · next child hchild => rw [Table.put_get? hchild]

theorem announceAll_eq (device : String) (webapps : List Uuid)
    (s : Supervisor) :
    webapps.foldl (fun s webapp => s.announceConnected webapp device) s =
      webapps.foldl (fun t webapp =>
        t.alter webapp (announced s.devices device webapp)) s := by
  induction webapps generalizing s with
  | nil => rfl
  | cons webapp webapps ih =>
      rw [List.foldl_cons, List.foldl_cons, ih, announceConnected_devices,
        announceConnected_eq]

theorem announced_announced (devices : OrderedMap String Device)
    (device : String) (webapp : Uuid) (child : Child) :
    announced devices device webapp (announced devices device webapp child) =
      announced devices device webapp child := by
  unfold announced
  split
  · exact child.announce_announce device _
  · rfl

/-! ### Device commands -/

theorem heldOf_put (devices : OrderedMap String Device)
    (device other : String) (next : Device) (webapp : Uuid) :
    heldOf (devices.put device next) other webapp =
      if other = device then
        ⟨next.name, next.settings webapp, next.active = some webapp⟩
      else heldOf devices other webapp := by
  unfold heldOf
  rw [OrderedMap.get?_put]
  split
  · rfl
  · rfl

/-- Every child becomes what a command makes of it; a child that runs is sound,
and knows what is held then just where a condition on it holds. -/
theorem mirrored_iff {s next : Supervisor} {F : Uuid → Child → Child}
    {C : Uuid → Child → Prop}
    (hchildren : ∀ webapp, next.children.get? webapp =
      (s.children.get? webapp).map (F webapp))
    (hnone : ∀ webapp child, child.stdin = none →
      (F webapp child).stdin = none)
    (hstep : ∀ webapp child pipe, s.children.get? webapp = some child →
      child.stdin = some pipe →
      ∃ after : Pipe, (F webapp child).stdin = some after ∧
        Heard (F webapp child) after.view ∧
        (Mirrors next.devices webapp after.view ↔ C webapp child)) :
    next.Sound ∧ (next.Mirrored ↔
      ∀ webapp child pipe, s.children.get? webapp = some child →
        child.stdin = some pipe → C webapp child) := by
  have hback : ∀ webapp child pipe, next.children.get? webapp = some child →
      child.stdin = some pipe →
      ∃ old before, s.children.get? webapp = some old ∧
        old.stdin = some before ∧ F webapp old = child := by
    intro webapp child pipe hchild hpipe
    rw [hchildren] at hchild
    obtain ⟨old, hold, rfl⟩ := Option.map_eq_some_iff.mp hchild
    cases hbefore : old.stdin with
    | none =>
        rw [hnone webapp old hbefore] at hpipe
        exact nomatch hpipe
    | some before => exact ⟨old, before, hold, hbefore, rfl⟩
  refine ⟨?_, ?_⟩
  · intro webapp child pipe hchild hpipe
    obtain ⟨old, before, hold, hbefore, rfl⟩ := hback _ _ _ hchild hpipe
    obtain ⟨after, hafter, hheard, -⟩ := hstep webapp old before hold hbefore
    obtain rfl : after = pipe := Option.some.inj (hafter.symm.trans hpipe)
    exact hheard
  · constructor
    · intro h webapp old before hold hbefore
      obtain ⟨after, hafter, -, hiff⟩ := hstep webapp old before hold hbefore
      refine hiff.mp (h webapp (F webapp old) after ?_ hafter)
      rw [hchildren, hold]
      rfl
    · intro h webapp child pipe hchild hpipe
      obtain ⟨old, before, hold, hbefore, rfl⟩ := hback _ _ _ hchild hpipe
      obtain ⟨after, hafter, -, hiff⟩ := hstep webapp old before hold hbefore
      obtain rfl : after = pipe := Option.some.inj (hafter.symm.trans hpipe)
      exact hiff.mpr (h webapp old before hold hbefore)

theorem announce_stdin_none {child : Child} (h : child.stdin = none)
    (device : String) (message : HostMessage) :
    (child.announce device message).stdin = none := by
  unfold Child.announce
  split
  · exact h
  · rw [Child.write, h]
    rfl

theorem tell_stdin_none {child : Child} (h : child.stdin = none)
    (device : String) (message : HostMessage) :
    (child.tell device message).stdin = none := by
  unfold Child.tell
  split
  · rw [Child.write, h]
    rfl
  · exact h

theorem disconnect_stdin_none {child : Child} (h : child.stdin = none)
    (device : String) : (child.disconnect device).stdin = none := by
  unfold Child.disconnect
  split
  · exact h
  · rw [Child.write, h]
    rfl

theorem collected_connecting (s : Supervisor) {device : String}
    (name : String) (config : List (Option Uuid × String × String))
    {webapps : List Uuid} {webapp : Uuid} (h : webapp ∈ webapps) :
    ((s.devices.put device
      (s.connecting device name config webapps)).get? device).any
        (fun held => held.collects webapp) = true := by
  rw [OrderedMap.get?_put, if_pos rfl, Option.any_some]
  exact decide_eq_true (Device.mem_collected _ (Or.inl h) _)

/-- A device connects: those that it names are announced it, and the others hear
nothing. -/
theorem deviceConnected_children (s : Supervisor) (device name : String)
    (config : List (Option Uuid × String × String)) (webapps : List Uuid)
    (webapp : Uuid) :
    (s.deviceConnected device name config webapps).children.get? webapp =
      (s.children.get? webapp).map fun child =>
        if webapp ∈ webapps then
          child.announce device ((heldOf (s.devices.put device
            (s.connecting device name config webapps)) device
              webapp).message device)
        else child := by
  unfold deviceConnected
  rw [announceAll_eq]
  refine (get?_foldl_alter (fun webapp child =>
    announced_announced _ device webapp child) webapps _ webapp).trans ?_
  dsimp only
  split
  · next hin =>
      congr 1
      funext child
      rw [announced, if_pos (s.collected_connecting name config hin)]
  · exact Option.map_id'.symm ▸ rfl

theorem deviceConnected_devices (s : Supervisor) (device name : String)
    (config : List (Option Uuid × String × String)) (webapps : List Uuid) :
    (s.deviceConnected device name config webapps).devices =
      s.devices.put device (s.connecting device name config webapps) := by
  unfold deviceConnected
  rw [announceAll_eq, devices_foldl_alter]

theorem heldOf_connecting (s : Supervisor) (device name : String)
    (config : List (Option Uuid × String × String)) (webapps : List Uuid)
    (webapp : Uuid) :
    heldOf (s.devices.put device
        (s.connecting device name config webapps)) device webapp =
      ⟨name, (s.connecting device name config webapps).settings webapp,
        (heldOf s.devices device webapp).active⟩ := by
  rw [heldOf_put, if_pos rfl, connecting, Device.keepSettings_name,
    Device.keepSettings_active]
  rfl

/-- What has to hold of a child as a device connects: one that is announced
nothing new has the settings already, and one that is not named has the name. -/
def Connects (s : Supervisor) (device name : String)
    (config : List (Option Uuid × String × String)) (webapps : List Uuid)
    (webapp : Uuid) (child : Child) : Prop :=
  (webapp ∈ webapps →
    child.announced.get? device = some ((heldOf (s.devices.put device
        (s.connecting device name config webapps)) device
          webapp).message device) →
      (heldOf s.devices device webapp).settings =
        (s.connecting device name config webapps).settings webapp) ∧
  (webapp ∉ webapps → (child.announced.get? device).isSome →
    name = (heldOf s.devices device webapp).name)

theorem connects_named {s : Supervisor} {device name : String}
    {config : List (Option Uuid × String × String)} {webapps : List Uuid}
    {webapp : Uuid} (hin : webapp ∈ webapps) {child : Child} :
    s.Connects device name config webapps webapp child ↔
      (child.announced.get? device = some ((heldOf (s.devices.put device
          (s.connecting device name config webapps)) device
            webapp).message device) →
        (heldOf s.devices device webapp).settings =
          (s.connecting device name config webapps).settings webapp) :=
  ⟨fun h => h.1 hin, fun h => ⟨fun _ => h, fun hout => absurd hin hout⟩⟩

theorem connects_unnamed {s : Supervisor} {device name : String}
    {config : List (Option Uuid × String × String)} {webapps : List Uuid}
    {webapp : Uuid} (hout : webapp ∉ webapps) {child : Child} :
    s.Connects device name config webapps webapp child ↔
      ((child.announced.get? device).isSome →
        name = (heldOf s.devices device webapp).name) :=
  ⟨fun h => h.2 hout, fun h => ⟨fun hin => absurd hin hout, fun _ => h⟩⟩

theorem mirrors_named {s : Supervisor} {device name : String}
    {config : List (Option Uuid × String × String)} {webapps : List Uuid}
    {webapp : Uuid} (hin : webapp ∈ webapps) {child : Child} {pipe : Pipe}
    (hpipe : child.stdin = some pipe) (hheard : Heard child pipe.view)
    (hmirrors : Mirrors s.devices webapp pipe.view) :
    ∃ after : Pipe,
      (child.announce device ((heldOf (s.devices.put device
        (s.connecting device name config webapps)) device
          webapp).message device)).stdin = some after ∧
      Heard (child.announce device ((heldOf (s.devices.put device
        (s.connecting device name config webapps)) device
          webapp).message device)) after.view ∧
      (Mirrors (s.devices.put device
        (s.connecting device name config webapps)) webapp after.view ↔
        s.Connects device name config webapps webapp child) := by
  obtain ⟨after, hafter, hkept, hview⟩ := Child.announce_heard hpipe hheard
    device (heldOf (s.devices.put device
      (s.connecting device name config webapps)) device webapp)
  refine ⟨after, hafter, hkept, ?_⟩
  rw [hview, connects_named hin]
  split
  · next hsame =>
      obtain ⟨last, now, hlast, hnow, hname⟩ := hheard.named device _ hsame
      have hheld := Known.eq_of_message hlast
      have hknown := hmirrors device now hnow
      constructor
      · intro h _
        have hagain := h device now hnow
        rw [hknown, heldOf_connecting] at hagain
        exact congrArg Known.settings hagain
      · intro h other known hother
        have hold := hmirrors other known hother
        by_cases heq : other = device
        · subst heq
          have hsettings := h hsame
          obtain rfl : now = known := Option.some.inj (hnow.symm.trans hother)
          rw [heldOf_connecting, ← hsettings]
          rw [← hheld, heldOf_connecting] at hname
          rw [hold] at hname ⊢
          exact congrArg (fun name : String =>
            (⟨name, _, _⟩ : Known)) hname
        · rw [heldOf_put, if_neg heq]
          exact hold
  · next hnew =>
      refine ⟨fun _ hsame => absurd hsame hnew, fun _ other known hother => ?_⟩
      rw [View.put] at hother
      split at hother
      · next heq => rw [heq, Option.some.inj hother]
      · next hne =>
          rw [heldOf_put, if_neg hne]
          exact hmirrors other known hother

theorem mirrors_unnamed {s : Supervisor} {device name : String}
    {config : List (Option Uuid × String × String)} {webapps : List Uuid}
    {webapp : Uuid} (hout : webapp ∉ webapps) {child : Child} {pipe : Pipe}
    (hheard : Heard child pipe.view)
    (hmirrors : Mirrors s.devices webapp pipe.view) :
    Mirrors (s.devices.put device
        (s.connecting device name config webapps)) webapp pipe.view ↔
      s.Connects device name config webapps webapp child := by
  have hheld : heldOf (s.devices.put device
      (s.connecting device name config webapps)) device webapp =
      { heldOf s.devices device webapp with name := name } := by
    rw [heldOf_connecting, connecting, Device.keepSettings_settings _ hout]
    rfl
  rw [connects_unnamed hout, hheard.known device]
  constructor
  · intro h hsome
    obtain ⟨known, hknown⟩ := Option.isSome_iff_exists.mp hsome
    have hold := hmirrors device known hknown
    have hnew := h device known hknown
    rw [hheld, hold] at hnew
    exact (congrArg Known.name hnew).symm
  · intro h other known hother
    have hold := hmirrors other known hother
    by_cases heq : other = device
    · subst heq
      rw [hheld, h (Option.isSome_iff_exists.mpr ⟨known, hother⟩)]
      exact hold
    · rw [heldOf_put, if_neg heq]
      exact hold

theorem deviceConnected_mirrored {s : Supervisor} (hs : s.Sound)
    (hm : s.Mirrored) (device name : String)
    (config : List (Option Uuid × String × String)) (webapps : List Uuid) :
    (s.deviceConnected device name config webapps).Sound ∧
      ((s.deviceConnected device name config webapps).Mirrored ↔
        ∀ webapp child pipe, s.children.get? webapp = some child →
          child.stdin = some pipe →
            s.Connects device name config webapps webapp child) := by
  refine mirrored_iff
    (s.deviceConnected_children device name config webapps) ?_ ?_
  · intro webapp child hnone
    split
    · exact announce_stdin_none hnone device _
    · exact hnone
  · intro webapp child pipe hchild hpipe
    rw [deviceConnected_devices]
    have hheard := hs webapp child pipe hchild hpipe
    have hmirrors := hm webapp child pipe hchild hpipe
    split
    · next hin => exact mirrors_named hin hpipe hheard hmirrors
    · next hout =>
        exact ⟨pipe, hpipe, hheard, mirrors_unnamed hout hheard hmirrors⟩

theorem deviceDisconnected_mirrored {s : Supervisor} (hs : s.Sound)
    (hm : s.Mirrored) (device : String) :
    (s.deviceDisconnected device).Sound ∧
      (s.deviceDisconnected device).Mirrored := by
  unfold deviceDisconnected
  split
  · exact ⟨hs, hm⟩
  have hdevices := devices_foldl_alter
    (fun _ child => child.disconnect device) s.children.keys
    { s with devices := s.devices.remove device }
  have hchildren : ∀ webapp,
      (s.children.keys.foldl
        (fun (s : Supervisor) webapp =>
          s.alter webapp fun child => child.disconnect device)
        { s with devices := s.devices.remove device }).children.get? webapp =
      (s.children.get? webapp).map fun child => child.disconnect device := by
    intro webapp
    refine (@get?_foldl_alter (fun _ child => child.disconnect device)
      (fun _ child => child.disconnect_disconnect device) _ _ webapp).trans ?_
    dsimp only
    split
    · rfl
    · next hnone =>
        rw [Table.get?_eq_none.mpr hnone]
        rfl
  have hboth := @mirrored_iff s _ (fun _ child => child.disconnect device)
    (fun _ _ => True) hchildren
    (fun _ _ hnone => disconnect_stdin_none hnone device) ?_
  · exact ⟨hboth.1, hboth.2.mpr fun _ _ _ _ _ => trivial⟩
  intro webapp child pipe hchild hpipe
  obtain ⟨after, hafter, hkept, hview⟩ :=
    Child.disconnect_heard hpipe (hs webapp child pipe hchild hpipe) device
  refine ⟨after, hafter, hkept, iff_of_true ?_ trivial⟩
  intro other known hknown
  rw [hview, View.put] at hknown
  split at hknown
  · cases hknown
  · next hne =>
      rw [hdevices, heldOf, OrderedMap.get?_remove, if_neg hne]
      exact hm webapp child pipe hchild hpipe other known hknown

/-- What a telling makes of the children. -/
theorem get?_tell (s : Supervisor) (webapp : Uuid) (device : String)
    (message : HostMessage) (other : Uuid) :
    (s.tell webapp device message).children.get? other =
      (s.children.get? other).map fun child =>
        if other = webapp then child.tell device message else child := by
  unfold tell alter
  split
  · next hnone =>
      by_cases heq : other = webapp
      · rw [heq, hnone]
        rfl
      · simp [heq]
  · next child hchild =>
      by_cases heq : other = webapp
      · subst heq
        rw [hchild]
        simp [Table.get?_put_self]
      · simp [heq, Table.get?_put_of_ne]

theorem tell_devices (s : Supervisor) (webapp : Uuid) (device : String)
    (message : HostMessage) :
    (s.tell webapp device message).devices = s.devices := by
  unfold tell alter
  split
  · rfl
  · rfl

/-- A change that is told to the child of its webapp: the others know what is
held after it just where a condition on them holds. -/
theorem told_mirrored {s : Supervisor} (hs : s.Sound) (hm : s.Mirrored)
    {device : String} {next : Device} {webapp : Uuid} {message : HostMessage}
    {told : Known → Known} {C : Uuid → Child → Prop}
    (hmessage : ∀ view : View, view.see message =
      view.put device ((view device).map told))
    (hname : ∀ known, (told known).name = known.name)
    (hheld : heldOf (s.devices.put device next) device webapp =
      told (heldOf s.devices device webapp))
    (hself : ∀ child, C webapp child)
    (hothers : ∀ other child pipe, other ≠ webapp →
      s.children.get? other = some child → child.stdin = some pipe →
      (Mirrors (s.devices.put device next) other pipe.view ↔
        C other child)) :
    ({ s with devices := s.devices.put device next }.tell webapp device
        message).Sound ∧
      (({ s with devices := s.devices.put device next }.tell webapp device
          message).Mirrored ↔
        ∀ other child pipe, s.children.get? other = some child →
          child.stdin = some pipe → C other child) := by
  refine @mirrored_iff s _ (fun other child =>
    if other = webapp then child.tell device message else child) C
    (get?_tell _ webapp device message) ?_ ?_
  · intro other child hnone
    split
    · exact tell_stdin_none hnone device message
    · exact hnone
  · intro other child pipe hchild hpipe
    rw [tell_devices]
    have hheard := hs other child pipe hchild hpipe
    have hmirrors := hm other child pipe hchild hpipe
    by_cases heq : other = webapp
    · subst heq
      obtain ⟨after, hafter, hkept, hview⟩ :=
        Child.tell_heard hpipe hheard device hmessage hname
      rw [if_pos rfl]
      refine ⟨after, hafter, hkept, iff_of_true ?_ (hself child)⟩
      intro named known hknown
      rw [hview, View.put] at hknown
      split at hknown
      · next hsame =>
          obtain ⟨before, hbefore, rfl⟩ := Option.map_eq_some_iff.mp hknown
          rw [hsame, hheld, hmirrors device before hbefore]
      · next hne =>
          rw [heldOf_put, if_neg hne]
          exact hmirrors named known hknown
    · rw [if_neg heq]
      exact ⟨pipe, hpipe, hheard, hothers other child pipe heq hchild hpipe⟩

theorem configChanged_mirrored {s : Supervisor} (hs : s.Sound)
    (hm : s.Mirrored) (device : String) (webapp : Uuid) (key : String)
    (value : Option String) :
    (s.configChanged device webapp key value).Sound ∧
      (s.configChanged device webapp key value).Mirrored := by
  unfold configChanged
  dsimp only
  have hsettings : ∀ (held : Device) (other : Uuid) (settings : Settings),
      { held with config := held.config.put webapp settings }.settings other =
        if other = webapp then settings else held.settings other :=
    fun held other settings =>
      held.settings_put webapp other settings held.collected
  have hboth := @told_mirrored s hs hm device
    { (s.devices.get? device).getD {} with
      config := ((s.devices.get? device).getD {}).config.put webapp
        (changed (((s.devices.get? device).getD {}).settings webapp) key
          value) } webapp
    (.configChanged device key value)
    (fun known => { known with settings := changed known.settings key value })
    (fun _ _ => True) (fun _ => rfl) (fun _ => rfl) ?_ (fun _ => trivial) ?_
  · exact ⟨hboth.1, hboth.2.mpr fun _ _ _ _ _ => trivial⟩
  · rw [heldOf_put, if_pos rfl, hsettings, if_pos rfl]
    rfl
  · intro other child pipe hne hchild hpipe
    refine iff_of_true (fun named known hknown => ?_) trivial
    have hold := hm other child pipe hchild hpipe named known hknown
    rw [hold]
    by_cases heq : named = device
    · subst heq
      rw [heldOf_put, if_pos rfl, hsettings, if_neg hne]
      rfl
    · rw [heldOf_put, if_neg heq]

/-- What has to hold of a child as a webapp becomes active on a device: another
one that knows of the device is not the one that is active there. -/
def Activates (s : Supervisor) (device : String) (webapp : Uuid)
    (active : Bool) (other : Uuid) (child : Child) : Prop :=
  active = true → other ≠ webapp → (child.announced.get? device).isSome →
    (heldOf s.devices device other).active = false

theorem deviceActive_same {s : Supervisor} (hs : s.Sound) (hm : s.Mirrored)
    {device : String} {next : Device}
    (hheld : ∀ webapp, heldOf (s.devices.put device next) device webapp =
      heldOf s.devices device webapp) :
    ({ s with devices := s.devices.put device next } : Supervisor).Sound ∧
      ({ s with devices := s.devices.put device next } :
        Supervisor).Mirrored := by
  refine ⟨hs, fun webapp child pipe hchild hpipe other known hknown => ?_⟩
  have hold := hm webapp child pipe hchild hpipe other known hknown
  by_cases heq : other = device
  · subst heq
    exact hold.trans (hheld webapp).symm
  · change known = heldOf (s.devices.put device next) other webapp
    rw [heldOf_put, if_neg heq]
    exact hold

/-- A child whose webapp loses the place, or never had it. -/
theorem mirrors_inactive {s : Supervisor} {device : String} {next : Device}
    {other : Uuid} {child : Child} {pipe : Pipe}
    (hheard : Heard child pipe.view)
    (hmirrors : Mirrors s.devices other pipe.view)
    (hheld : heldOf (s.devices.put device next) device other =
      { heldOf s.devices device other with active := false }) :
    Mirrors (s.devices.put device next) other pipe.view ↔
      ((child.announced.get? device).isSome →
        (heldOf s.devices device other).active = false) := by
  rw [hheard.known device]
  constructor
  · intro h hsome
    obtain ⟨known, hknown⟩ := Option.isSome_iff_exists.mp hsome
    have hold := hmirrors device known hknown
    have hnew := h device known hknown
    rw [hold, hheld] at hnew
    exact congrArg Known.active hnew
  · intro h named known hknown
    have hold := hmirrors named known hknown
    by_cases heq : named = device
    · subst heq
      have hinactive := h (Option.isSome_iff_exists.mpr ⟨known, hknown⟩)
      rw [hheld, hold, ← hinactive]
    · rw [heldOf_put, if_neg heq]
      exact hold

theorem deviceActive_mirrored {s : Supervisor} (hs : s.Sound)
    (hm : s.Mirrored) (device : String) (webapp : Uuid) (active : Bool) :
    (s.deviceActive device webapp active).Sound ∧
      ((s.deviceActive device webapp active).Mirrored ↔
        ∀ other child pipe, s.children.get? other = some child →
          child.stdin = some pipe →
            s.Activates device webapp active other child) := by
  have hactive : ∀ other, (heldOf s.devices device other).active =
      decide (((s.devices.get? device).getD {}).active = some other) :=
    fun _ => rfl
  unfold deviceActive
  dsimp only
  split
  · next hwas =>
      have hsame := @deviceActive_same s hs hm device
        (if active then
          { (s.devices.get? device).getD {} with active := some webapp }
        else if decide (((s.devices.get? device).getD {}).active =
            some webapp) then
          { (s.devices.get? device).getD {} with active := none }
        else (s.devices.get? device).getD {}) ?_
      · refine ⟨hsame.1, iff_of_true hsame.2 ?_⟩
        intro other child pipe _ _ htrue hne _
        rw [hactive, decide_eq_false_iff_not]
        rw [htrue, decide_eq_true_eq] at hwas
        rw [hwas]
        exact fun h => hne (Option.some.inj h).symm
      · intro other
        rw [heldOf_put, if_pos rfl]
        cases active with
        | true =>
            rw [decide_eq_true_eq] at hwas
            simp only [if_true, heldOf, hwas]
            rfl
        | false =>
            simp only [hwas, Bool.false_eq_true, if_false]
            rfl
  · next hwas =>
      refine @told_mirrored s hs hm device _ webapp _
        (fun known => { known with active := active }) _ (fun _ => rfl)
        (fun _ => rfl) ?_ ?_ ?_
      · rw [heldOf_put, if_pos rfl]
        cases active with
        | true => simp [heldOf, Device.settings]
        | false =>
            have hheld : ((s.devices.get? device).getD {}).active =
                some webapp := by simpa using hwas
            simp [heldOf, Device.settings, hheld]
      · exact fun _ _ hne => absurd rfl hne
      · intro other child pipe hne hchild hpipe
        have hheard := hs other child pipe hchild hpipe
        have hmirrors := hm other child pipe hchild hpipe
        cases active with
        | true =>
            refine (mirrors_inactive hheard hmirrors ?_).trans
              ⟨fun h _ _ => h, fun h => h rfl hne⟩
            rw [heldOf_put, if_pos rfl]
            simp [heldOf, Device.settings, Ne.symm hne]
        | false =>
            have hactive' : ((s.devices.get? device).getD {}).active =
                some webapp := by simpa using hwas
            have hfalse : (heldOf s.devices device other).active = false := by
              rw [hactive, hactive', decide_eq_false_iff_not]
              exact fun h => hne (Option.some.inj h).symm
            refine (mirrors_inactive hheard hmirrors ?_).trans
              (iff_of_true (fun _ => hfalse) fun h => absurd h (by decide))
            rw [heldOf_put, if_pos rfl]
            simp [heldOf, Device.settings, hactive']

/-! ### Runs -/

theorem Carries.sound {s next : Supervisor} (h : Carries s next)
    (hs : s.Sound) : next.Sound := by
  intro webapp child pipe hchild hpipe
  rcases h.children webapp child hchild with
    htold | ⟨old, hold, hannounced, hnone | hsame⟩
  · exact (htold pipe hpipe).1
  · exact nomatch hnone.symm.trans hpipe
  · have hheard := hs webapp old pipe hold (hsame ▸ hpipe)
    exact ⟨fun device => hannounced ▸ hheard.known device,
      fun device message hmessage =>
        hheard.named device message (hannounced ▸ hmessage)⟩

theorem Carries.mirrored {s next : Supervisor} (h : Carries s next)
    (hm : s.Mirrored) : next.Mirrored := by
  intro webapp child pipe hchild hpipe
  rw [h.devices]
  rcases h.children webapp child hchild with
    htold | ⟨old, hold, hannounced, hnone | hsame⟩
  · exact (htold pipe hpipe).2
  · exact nomatch hnone.symm.trans hpipe
  · exact hm webapp old pipe hold (hsame ▸ hpipe)

/-- When a command leaves every child knowing what is held. -/
def Tells (s : Supervisor) (command : Command) : Prop :=
  ∀ webapp child pipe, s.children.get? webapp = some child →
    child.stdin = some pipe →
    match command with
    | .deviceConnected device name config webapps =>
        s.Connects device name config webapps webapp child
    | .deviceActive device target active =>
        s.Activates device target active webapp child
    | _ => True

theorem handle_mirrored {s : Supervisor} (hs : s.Sound) (hm : s.Mirrored)
    (spawns : Spawns) (command : Command) :
    (s.handle spawns command).Sound ∧
      ((s.handle spawns command).Mirrored ↔ s.Tells command) := by
  have hquiet : ∀ {next : Supervisor}, next.Sound ∧ next.Mirrored →
      next.Sound ∧ (next.Mirrored ↔ ∀ webapp child pipe,
        s.children.get? webapp = some child → child.stdin = some pipe →
          True) := fun h =>
    ⟨h.1, iff_of_true h.2 fun _ _ _ _ _ => trivial⟩
  have hcarries : ∀ {next : Supervisor}, Carries s next →
      next.Sound ∧ (next.Mirrored ↔ ∀ webapp child pipe,
        s.children.get? webapp = some child → child.stdin = some pipe →
          True) := fun h =>
    hquiet ⟨h.sound hs, h.mirrored hm⟩
  cases command with
  | inbox =>
      refine hcarries (Carries.trans ?_ (Carries.startAll _ spawns))
      exact .same rfl rfl
  | deviceConnected device name config webapps =>
      exact deviceConnected_mirrored hs hm device name config webapps
  | deviceDisconnected device =>
      exact hquiet (deviceDisconnected_mirrored hs hm device)
  | deviceActive device webapp active =>
      exact deviceActive_mirrored hs hm device webapp active
  | configChanged device webapp key value =>
      exact hquiet (configChanged_mirrored hs hm device webapp key value)
  | installed record => exact hcarries (.installed s spawns record)
  | uninstalled webapp => exact hcarries (.uninstalled s webapp)
  | enabled webapp enabled stored =>
      exact hcarries (.enabled s spawns webapp enabled stored)
  | acquireRuntime => exact hcarries (.acquire s)
  | runtimeReady outcome => exact hcarries (.runtimeReady s spawns outcome)
  | line webapp generation said =>
      exact hcarries (.line s webapp generation said)
  | exited webapp generation reason =>
      exact hcarries (.exited s webapp generation reason)
  | restart webapp generation =>
      exact hcarries (.restart s spawns webapp generation)

/-- The commands that are handled one after another, each with what the
processes it starts come to. -/
def run (s : Supervisor) (commands : List (Command × Spawns)) : Supervisor :=
  commands.foldl (fun s command => s.handle command.2 command.1) s

theorem run_take_succ (s : Supervisor) {commands : List (Command × Spawns)}
    {n : Nat} (h : n < commands.length) :
    s.run (commands.take (n + 1)) =
      (s.run (commands.take n)).handle (commands[n]).2 (commands[n]).1 := by
  rw [run, List.take_succ_eq_append_getElem h, List.foldl_append]
  rfl

theorem stdin_records (records : List ExtensionRecord)
    {held : Table Uuid Child}
    (h : ∀ webapp child, held.get? webapp = some child → child.stdin = none)
    {webapp : Uuid} {child : Child}
    (hchild : (records.foldl (fun held record =>
      Table.put held record.webapp { record := record })
        held).get? webapp = some child) : child.stdin = none := by
  induction records generalizing held with
  | nil => exact h webapp child hchild
  | cons record records ih =>
      refine ih (fun other found hfound => ?_) hchild
      rcases Table.get?_put_cases hfound with ⟨-, rfl⟩ | ⟨-, hold⟩
      · rfl
      · exact h other found hold

theorem initial_mirrored (records : List ExtensionRecord) :
    (initial records).Sound ∧ (initial records).Mirrored := by
  have hnone := @stdin_records records [] (fun _ _ h => nomatch h)
  have hsound : Supervisor.Sound { children := childrenOf records } :=
    fun _ _ _ hchild hpipe => nomatch (hnone hchild).symm.trans hpipe
  have hmirrored : Supervisor.Mirrored { children := childrenOf records } :=
    fun _ _ _ hchild hpipe => nomatch (hnone hchild).symm.trans hpipe
  unfold initial
  dsimp only
  split
  · exact ⟨hsound, hmirrored⟩
  · exact ⟨(Carries.acquire _).sound hsound,
      (Carries.acquire _).mirrored hmirrored⟩

/-- At every point of a run every child knows what is held, if and only if every
command of it tells so much. -/
theorem run_mirrored_iff (records : List ExtensionRecord)
    (commands : List (Command × Spawns)) :
    (∀ n ≤ commands.length,
        ((initial records).run (commands.take n)).Mirrored) ↔
      ∀ n (h : n < commands.length),
        ((initial records).run (commands.take n)).Tells (commands[n]).1 := by
  constructor
  · intro hall
    have hsound : ∀ n ≤ commands.length,
        ((initial records).run (commands.take n)).Sound := by
      intro n hn
      induction n with
      | zero => exact (initial_mirrored records).1
      | succ n ih =>
          have hless : n < commands.length := hn
          rw [run_take_succ _ hless]
          exact (handle_mirrored (ih hless.le) (hall n hless.le) _ _).1
    intro n hn
    refine (handle_mirrored (hsound n hn.le) (hall n hn.le)
      (commands[n]).2 _).2.mp ?_
    rw [← run_take_succ _ hn]
    exact hall (n + 1) hn
  · intro htells
    have hboth : ∀ n ≤ commands.length,
        ((initial records).run (commands.take n)).Sound ∧
          ((initial records).run (commands.take n)).Mirrored := by
      intro n hn
      induction n with
      | zero => exact initial_mirrored records
      | succ n ih =>
          have hless : n < commands.length := hn
          obtain ⟨hs, hm⟩ := ih hless.le
          rw [run_take_succ _ hless]
          obtain ⟨hsound, hiff⟩ := handle_mirrored hs hm (commands[n]).2 _
          exact ⟨hsound, hiff.mpr (htells n hless)⟩
    exact fun n hn => (hboth n hn).2

def weather : ExtensionRecord := ⟨1, "weather", "1.0.0", true⟩

/-- A device connects with a setting, which is changed, and is back to what it
was when the device connects again. -/
def reconnects : List (Command × Spawns) :=
  [(.runtimeReady (.ok ()), fun _ => none),
    (.deviceConnected "d" "Car" [(some 1, "k", "a")] [1], fun _ => none),
    (.configChanged "d" 1 "k" (some "b"), fun _ => none),
    (.deviceConnected "d" "Car" [(some 1, "k", "a")] [1], fun _ => none)]

theorem reconnects_stale :
    ¬ ((initial [weather]).run reconnects).Mirrored := by
  intro h
  have hstale : (((initial [weather]).run reconnects).children.get? 1).any
      (fun child => child.stdin.any fun pipe => (pipe.view "d").any
        fun known => known.settings.get? "k" = some "b") = true := by
    decide +kernel
  have hheld : (heldOf ((initial [weather]).run reconnects).devices "d"
      1).settings.get? "k" = some "a" := by
    decide +kernel
  obtain ⟨child, hchild, hstale⟩ := (Option.any_eq_true _ _).mp hstale
  obtain ⟨pipe, hpipe, hstale⟩ := (Option.any_eq_true _ _).mp hstale
  obtain ⟨known, hknown, hstale⟩ := (Option.any_eq_true _ _).mp hstale
  rw [h 1 child pipe hchild hpipe "d" known hknown, hheld] at hstale
  exact absurd hstale (by decide +kernel)

end Supervisor

end Extensions

end Bridgething
