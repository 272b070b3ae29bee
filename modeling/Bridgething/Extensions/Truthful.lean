/-
A supervisor publishes the truth in every run that is orderly.
-/
import Bridgething.Extensions.Handled

namespace Bridgething

namespace Extensions

namespace World

variable {w : World}

structure Sound (w : World) : Prop where
  sane : Sane w.past w.supervisor
  settled : Settled w.supervisor none

/-- Of what posts for a webapp's child, one at most has a number. -/
theorem timer_unique {past : History} {s : Supervisor} (h : Sane past s)
    {webapp : Uuid} {p q n : Nat}
    (hp : s.posters[p]? = some (.timer webapp n))
    (hbornp : past.born webapp ≤ p)
    (hq : s.posters[q]? = some (.timer webapp n))
    (hbornq : past.born webapp ≤ q) : q = p := by
  refine h.unique webapp q p n hbornq hbornp ?_ ?_
  · rw [numberAt, hq]
    exact if_pos rfl
  · rw [numberAt, hp]
    exact if_pos rfl

theorem Sound.truthful (h : w.Sound) : w.Truthful := by
  refine ⟨fun webapp hmem => ?_, fun webapp child n hchild harmed => ?_⟩
  · rw [h.settled.published] at hmem
    obtain ⟨child, hchild, hstatus⟩ := Supervisor.mem_runningSet.mp hmem
    have hopen := h.settled.open_ webapp child (fun heq => nomatch heq)
      hchild hstatus
    obtain ⟨p, hp⟩ := Option.isSome_iff_exists.mp hopen
    have hlive := (h.sane.child webapp child hchild).process p hp
    exact ⟨child, p, hchild, hlive.enabled, hlive.run,
      ⟨hlive.posted, hlive.last⟩, hlive.ready hstatus, hlive.gone⟩
  · obtain ⟨-, p, hp, hborn, hstopped⟩ :=
      (h.sane.child webapp child hchild).armed n harmed
    refine ⟨p, hborn, hstopped, fun q hbornq => ⟨fun hq => ?_, ?_⟩⟩
    · exact timer_unique h.sane hp hborn hq hbornq
    · rintro rfl
      exact hp

/-! ### One turn -/

theorem Sound.same (h : w.Sound) {next : Supervisor}
    (hnext : Supervisor.SameCore w.supervisor next) :
    Sound ⟨next, w.past⟩ :=
  ⟨hnext.sane h.sane, hnext.settled h.settled⟩

theorem Sound.told (h : w.Sound) {command : Command}
    {houtside : command.outside = true} {spawns : Spawns}
    (horderly : w.OrderlyTurn ⟨.told command houtside, spawns⟩) :
    (w.step ⟨.told command houtside, spawns⟩).Sound := by
  cases command with
  | inbox =>
      obtain ⟨hsane, hsettled⟩ :=
        Supervisor.attach_fine h.sane h.settled spawns
      exact ⟨hsane, hsettled⟩
  | deviceConnected device name config webapps =>
      exact h.same
        (Supervisor.sameCore_deviceConnected _ device name config webapps)
  | deviceDisconnected device =>
      exact h.same (Supervisor.sameCore_deviceDisconnected _ device)
  | deviceActive device webapp active =>
      exact h.same (Supervisor.sameCore_deviceActive _ device webapp active)
  | configChanged device webapp key value =>
      exact h.same
        (Supervisor.sameCore_configChanged _ device webapp key value)
  | installed record =>
      obtain ⟨hsane, hsettled⟩ :=
        Supervisor.installed_fine h.sane h.settled horderly houtside
      exact ⟨hsane, hsettled⟩
  | uninstalled webapp =>
      obtain ⟨hsane, hsettled⟩ :=
        Supervisor.uninstalled_fine h.sane h.settled webapp
      exact ⟨hsane, hsettled⟩
  | enabled webapp enabled stored =>
      obtain ⟨hsane, hsettled⟩ := @Supervisor.enabled_fine w.past w.supervisor
        webapp spawns stored enabled h.sane h.settled houtside
      exact ⟨hsane, hsettled⟩
  | acquireRuntime =>
      obtain ⟨hsane, hsettled⟩ := Supervisor.acquire_fine h.sane h.settled
      exact ⟨hsane, hsettled⟩
  | runtimeReady outcome =>
      obtain ⟨hsane, hsettled⟩ :=
        Supervisor.runtimeReady_fine h.sane h.settled spawns outcome
      exact ⟨hsane, hsettled⟩
  | line webapp generation said => exact nomatch houtside
  | exited webapp generation reason => exact nomatch houtside
  | restart webapp generation => exact nomatch houtside

theorem step_of_none {turn : Turn}
    (h : turn.event.command w.supervisor.posters = none) :
    w.step turn = w := by
  rw [step, h]

theorem step_of_some {turn : Turn} {command : Command}
    (h : turn.event.command w.supervisor.posters = some command) :
    w.step turn = ⟨w.supervisor.handle turn.spawns command,
      w.past.note w.supervisor turn.event⟩ := by
  rw [step, h]

/-- What is posted is posted by a process or a timer. -/
theorem posted_said {posters : List Poster} {p : Nat} {spoken : Spoken}
    {command : Command}
    (h : (Event.said p spoken).command posters = some command) :
    ∃ webapp generation, posters[p]? = some (.process webapp generation) ∧
      command = .line webapp generation spoken := by
  simp only [Event.command] at h
  split at h
  · next webapp generation hposted =>
      exact ⟨webapp, generation, hposted, (Option.some.inj h).symm⟩
  · cases h

theorem posted_gone {posters : List Poster} {p : Nat} {reason : String}
    {command : Command}
    (h : (Event.gone p reason).command posters = some command) :
    ∃ webapp generation, posters[p]? = some (.process webapp generation) ∧
      command = .exited webapp generation reason := by
  simp only [Event.command] at h
  split at h
  · next webapp generation hposted =>
      exact ⟨webapp, generation, hposted, (Option.some.inj h).symm⟩
  · cases h

theorem posted_due {posters : List Poster} {p : Nat} {command : Command}
    (h : (Event.due p).command posters = some command) :
    ∃ webapp generation, posters[p]? = some (.timer webapp generation) ∧
      command = .restart webapp generation := by
  simp only [Event.command] at h
  split at h
  · next webapp generation hposted =>
      exact ⟨webapp, generation, hposted, (Option.some.inj h).symm⟩
  · cases h

/-- An orderly turn keeps what holds of the generations. -/
theorem Sound.step (h : w.Sound) {turn : Turn}
    (horderly : w.OrderlyTurn turn) : (w.step turn).Sound := by
  obtain ⟨event, spawns⟩ := turn
  cases hcommand : event.command w.supervisor.posters with
  | none =>
      rw [step_of_none hcommand]
      exact h
  | some command =>
      cases event with
      | told told houtside => exact h.told horderly
      | said p spoken =>
          obtain ⟨webapp, generation, hposted, rfl⟩ := posted_said hcommand
          rw [step_of_some hcommand]
          cases spoken with
          | ready =>
              obtain ⟨hsane, hsettled⟩ := Supervisor.line_fine h.sane h.settled
                hposted fun child => horderly webapp generation child hposted
              exact ⟨hsane, hsettled⟩
          | other =>
              have hsame : w.supervisor.line webapp generation .other =
                  w.supervisor := by
                unfold Supervisor.line
                split
                · rfl
                · split
                  · rfl
                  · rfl
              change Sound ⟨w.supervisor.line webapp generation .other, w.past⟩
              rw [hsame]
              exact h
      | gone p reason =>
          obtain ⟨webapp, generation, hposted, rfl⟩ := posted_gone hcommand
          rw [step_of_some hcommand]
          obtain ⟨hsane, hsettled⟩ :=
            Supervisor.exited_fine h.sane h.settled hposted reason
          exact ⟨hsane, hsettled⟩
      | due p =>
          obtain ⟨webapp, generation, hposted, rfl⟩ := posted_due hcommand
          rw [step_of_some hcommand]
          obtain ⟨hsane, hsettled⟩ := @Supervisor.restart_fine _ _ webapp
            generation h.sane h.settled spawns
          exact ⟨hsane, hsettled⟩

theorem sameHandles_of_eq {next : World}
    (h : next.supervisor = w.supervisor) : w.SameHandles next := by
  intro webapp
  rw [h]

/-- A line of an older generation comes where the child is said to run. -/
theorem Sound.stale_line (h : w.Sound) {p generation : Nat} {webapp : Uuid}
    {child : Child} {past : History}
    (hchild : w.supervisor.children.get? webapp = some child)
    (hborn : p < w.past.born webapp)
    (horderly : child.process = some p ∨ child.status = .running) :
    w.SameHandles ⟨w.supervisor.line webapp generation .ready, past⟩ := by
  intro other
  have hstatus : child.status = .running := by
    refine horderly.resolve_left fun hprocess => ?_
    have hlive := (h.sane.child webapp child hchild).process p hprocess
    exact Nat.not_lt_of_le hlive.born hborn
  unfold Supervisor.line
  dsimp only
  rw [hchild]
  dsimp only
  split
  · rfl
  · unfold Supervisor.spoken
    dsimp only
    rw [hchild]
    dsimp only
    rw [Supervisor.announceRunning_children, Supervisor.alter_eq hchild]
    by_cases heq : other = webapp
    · rw [heq, hchild]
      dsimp only
      rw [Table.get?_put_self, Option.map_some, Option.map_some,
        Child.handles, Child.handles, hstatus]
    · dsimp only
      rw [Table.get?_put_of_ne _ _ heq]

/-- What is stale changes nothing that is held of a process. -/
theorem Sound.stale (h : w.Sound) {turn : Turn}
    (horderly : w.OrderlyTurn turn) (hstale : w.Stale turn.event) :
    w.SameHandles (w.step turn) := by
  obtain ⟨event, spawns⟩ := turn
  cases hcommand : event.command w.supervisor.posters with
  | none =>
      exact sameHandles_of_eq (congrArg supervisor (step_of_none hcommand))
  | some command =>
      rw [step_of_some hcommand]
      cases event with
      | told told houtside => exact hstale.elim
      | said p spoken =>
          obtain ⟨webapp, generation, hposted, rfl⟩ := posted_said hcommand
          obtain ⟨_, _, hheld, hold⟩ := hstale
          have heq := hposted.symm.trans hheld
          simp only [Option.some.injEq, Poster.process.injEq] at heq
          obtain ⟨rfl, rfl⟩ := heq
          cases hchild : w.supervisor.children.get? webapp with
          | none =>
              refine sameHandles_of_eq ?_
              change w.supervisor.line webapp generation spoken = _
              rw [Supervisor.line, hchild]
          | some child =>
              by_cases hattempt : child.attempt = generation
              · have hborn := hold.resolve_right fun hless =>
                  Nat.lt_irrefl _ (hattempt ▸ hless child hchild)
                cases spoken with
                | ready =>
                    exact h.stale_line hchild hborn
                      (horderly webapp generation child hposted hchild
                        hattempt)
                | other =>
                    refine sameHandles_of_eq ?_
                    change w.supervisor.line webapp generation .other = _
                    rw [Supervisor.line, hchild]
                    exact if_neg (not_not.mpr hattempt)
              · refine sameHandles_of_eq ?_
                change w.supervisor.line webapp generation spoken = _
                rw [Supervisor.line, hchild]
                exact if_pos hattempt
      | gone p reason =>
          obtain ⟨webapp, generation, hposted, rfl⟩ := posted_gone hcommand
          obtain ⟨_, _, hheld, hold⟩ := hstale
          have heq := hposted.symm.trans hheld
          simp only [Option.some.injEq, Poster.process.injEq] at heq
          obtain ⟨rfl, rfl⟩ := heq
          refine sameHandles_of_eq ?_
          change w.supervisor.exited webapp generation reason = _
          cases hchild : w.supervisor.children.get? webapp with
          | none => rw [Supervisor.exited, hchild]
          | some child =>
              rw [Supervisor.exited, hchild]
              refine if_pos fun hattempt => ?_
              have hborn := horderly webapp generation child hposted hchild
                hattempt
              rcases hold with hbefore | hless
              · exact Nat.not_lt_of_le hborn hbefore
              · exact Nat.lt_irrefl _ (hattempt ▸ hless child hchild)
      | due p =>
          obtain ⟨webapp, generation, hposted, rfl⟩ := posted_due hcommand
          obtain ⟨_, _, hheld, hold⟩ := hstale
          have heq := hposted.symm.trans hheld
          simp only [Option.some.injEq, Poster.timer.injEq] at heq
          obtain ⟨rfl, rfl⟩ := heq
          refine sameHandles_of_eq ?_
          change w.supervisor.restart spawns webapp generation = _
          cases hchild : w.supervisor.children.get? webapp with
          | none => rw [Supervisor.restart, hchild]
          | some child =>
              rw [Supervisor.restart, hchild]
              refine if_neg fun harmed => ?_
              have hborn := horderly webapp generation child hposted hchild
                harmed
              obtain ⟨hlast, q, hq, hbornq, hstopped⟩ :=
                (h.sane.child webapp child hchild).armed generation harmed
              obtain rfl := timer_unique h.sane hposted hborn hq hbornq
              rcases hold with hbefore | hbefore | hless
              · exact Nat.not_lt_of_le hborn hbefore
              · exact Nat.not_lt_of_le hstopped hbefore
              · exact Nat.lt_irrefl _ (hlast ▸ hless child hchild)

/-! ### A run -/

/-- A child of a supervisor that has handled nothing is as it came to be. -/
theorem get?_records (records : List ExtensionRecord) {held : Table Uuid Child}
    (h : ∀ webapp child, held.get? webapp = some child →
      ∃ record, child = { record := record })
    {webapp : Uuid} {child : Child}
    (hchild : (records.foldl (fun held record =>
      Table.put held record.webapp { record := record })
        held).get? webapp = some child) :
    ∃ record, child = { record := record } := by
  induction records generalizing held with
  | nil => exact h webapp child hchild
  | cons record records ih =>
      refine ih (fun other found hfound => ?_) hchild
      rcases Table.get?_put_cases hfound with ⟨-, rfl⟩ | ⟨-, hold⟩
      · exact ⟨record, rfl⟩
      · exact h other found hold

theorem sound_initial (records : List ExtensionRecord) :
    (initial records).Sound := by
  have hnew : ∀ webapp child,
      (Supervisor.childrenOf records).get? webapp = some child →
        ∃ record, child = { record := record } :=
    fun webapp child =>
      @get?_records records [] (fun _ _ h => nomatch h) webapp child
  have hsane : Sane {} { children := Supervisor.childrenOf records } := by
    refine ⟨fun webapp child hchild => ?_, fun webapp p q n _ _ hp => ?_,
      fun p hp => ?_, fun webapp => ⟨Nat.le_refl _, Nat.le_refl _⟩⟩
    · obtain ⟨record, rfl⟩ := hnew webapp child hchild
      exact ⟨fun _ hp => (nomatch hp), Nat.le_refl _,
        fun p n _ hn => absurd (numberAt_lt hn) (Nat.not_lt_zero p),
        fun _ hn => (nomatch hn)⟩
    · exact absurd (numberAt_lt hp) (Nat.not_lt_zero p)
    · rcases hp with hready | hgone
      · exact nomatch hready
      · exact nomatch hgone
  have hsettled : Settled { children := Supervisor.childrenOf records }
      none := by
    refine ⟨?_, fun webapp child _ hchild hstatus => ?_⟩
    · symm
      refine Finset.eq_empty_of_forall_notMem fun webapp hmem => ?_
      obtain ⟨child, hchild, hstatus⟩ := Supervisor.mem_runningSet.mp hmem
      obtain ⟨record, rfl⟩ := hnew webapp child hchild
      exact nomatch hstatus
    · obtain ⟨record, rfl⟩ := hnew webapp child hchild
      exact nomatch hstatus
  unfold initial Supervisor.initial
  dsimp only
  split
  · exact ⟨hsane, hsettled⟩
  · obtain ⟨hsane, hsettled⟩ := Supervisor.acquire_fine hsane hsettled
    exact ⟨hsane, hsettled⟩

theorem Sound.honest (h : w.Sound) {turns : List Turn}
    (horderly : w.Orderly turns) : w.Honest turns := by
  induction turns generalizing w with
  | nil => exact h.truthful
  | cons turn turns ih =>
      exact ⟨h.truthful, h.stale horderly.1,
        ih (h.step horderly.1) horderly.2⟩

/-- In every orderly run the supervisor publishes the truth, and nothing that is
stale changes what it holds of a process. -/
theorem run_honest (records : List ExtensionRecord) (turns : List Turn)
    (h : (initial records).Orderly turns) : (initial records).Honest turns :=
  (sound_initial records).honest h

def comesUp : List Turn :=
  [⟨.told (.runtimeReady (.ok ())) rfl, fun _ => none⟩,
    ⟨.said 0 .ready, fun _ => none⟩,
    ⟨.gone 0 "killed", fun _ => none⟩]

theorem run_honest_comesUp :
    (initial [Supervisor.weather]).Honest comesUp := by
  refine run_honest _ _ ⟨trivial, ?_, ?_, trivial⟩
  · intro webapp generation child hposted hchild hattempt
    refine Or.inl ?_
    have hlast : ((initial [Supervisor.weather]).step
        ⟨.told (.runtimeReady (.ok ())) rfl, fun _ => none⟩).supervisor.posters
          = [.process 1 1] := by
      decide +kernel
    have hprocess : (((initial [Supervisor.weather]).step
        ⟨.told (.runtimeReady (.ok ())) rfl,
          fun _ => none⟩).supervisor.children.get? 1).map Child.process =
            some (some 0) := by
      decide +kernel
    rw [hlast] at hposted
    cases Option.some.inj hposted
    rw [hchild] at hprocess
    exact Option.some.inj hprocess
  · intro webapp generation child _ _ _
    exact Nat.zero_le 0

/-- A process says that it is ready as it is stopped. -/
def stopsReady : List Turn :=
  [⟨.told (.runtimeReady (.ok ())) rfl, fun _ => none⟩,
    ⟨.told (.enabled 1 false (some Supervisor.weather)) rfl, fun _ => none⟩,
    ⟨.said 0 .ready, fun _ => none⟩]

theorem stopsReady_published :
    ¬ ∀ records turns, (initial records).Honest turns := by
  intro h
  obtain ⟨-, -, -, -, -, -, htruthful⟩ := h [Supervisor.weather] stopsReady
  have hpublished : (1 : Uuid) ∈ (stopsReady.foldl step
      (initial [Supervisor.weather])).supervisor.published := by
    decide +kernel
  have hdisabled :
      ((stopsReady.foldl step
        (initial [Supervisor.weather])).supervisor.children.get? 1).all
          fun child => child.record.enabled = false := by
    decide +kernel
  obtain ⟨child, p, hchild, henabled, -⟩ := htruthful.running 1 hpublished
  change (stopsReady.foldl step
    (initial [Supervisor.weather])).supervisor.children.get? 1 = _ at hchild
  rw [hchild] at hdisabled
  exact absurd (of_decide_eq_true hdisabled) (by rw [henabled]; decide)

end World

end Extensions

end Bridgething
