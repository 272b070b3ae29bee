/-
What the log store keeps over whole runs: the live launch, the segments that hold
an error, few others, and each line of those kept where it was written.
-/
import Bridgething.Log.Pruning

namespace Bridgething

namespace LogStore

/-- A segment with an Error or Fatal line in its text. -/
def Segment.HoldsError (segment : Segment) : Prop :=
  ∃ line ∈ segment.body.splitOn '\n', errorLine line = true

/-- No part of what is written is an error line, unless the store is told so. -/
def Entry.Evident (entry : Entry) : Prop :=
  ∀ line ∈ entry.line.splitOn '\n', errorLine line = true → entry.pins = true

def Event.entries (offset : ℤ) : Event → List Entry
  | .record call => call.entries offset
  | .write line => [⟨line, errorLine line⟩]
  | _ => []

section Lines

theorem splitOn_textOf_cons (entry : Entry) (entries : List Entry) :
    (textOf (entry :: entries)).splitOn '\n'
      = entry.line.splitOn '\n' ++ (textOf entries).splitOn '\n' := by
  rw [textOf, List.flatMap_cons, List.append_assoc, List.singleton_append]
  exact List.splitOnP_append_cons _ _ (by simp)

/-- An error in the text of a segment is from an entry that was told to be one. -/
theorem error_of_textOf {entries : List Entry}
    (hevident : ∀ entry ∈ entries, entry.Evident) {line : List Char}
    (hline : line ∈ (textOf entries).splitOn '\n')
    (herror : errorLine line = true) : ∃ entry ∈ entries, entry.pins = true := by
  induction entries with
  | nil =>
      have hempty : line = [] := by simpa [textOf] using hline
      subst hempty
      exact absurd herror (by decide)
  | cons entry entries ih =>
      rw [splitOn_textOf_cons, List.mem_append] at hline
      rcases hline with hhere | hlater
      · exact ⟨entry, List.mem_cons_self,
          hevident entry List.mem_cons_self line hhere herror⟩
      · obtain ⟨other, hother, hpins⟩ := ih (fun other hother =>
          hevident other (List.mem_cons_of_mem _ hother)) hlater
        exact ⟨other, List.mem_cons_of_mem _ hother, hpins⟩

/-- What is written with no newline in it is told for what it is. -/
theorem evident_of_line {entry : Entry} (hline : '\n' ∉ entry.line)
    (hpins : entry.pins = errorLine entry.line) : entry.Evident := by
  intro line hmem herror
  have hwhole : entry.line.splitOn '\n' = [entry.line] := by
    apply List.splitOnP_eq_singleton
    intro c hc
    simpa using fun h : c = '\n' => hline (h ▸ hc)
  rw [hwhole, List.mem_singleton] at hmem
  rwa [hpins, ← hmem]

end Lines

section Batches

variable {written : List (List Entry)} {segments : List Segment}
  {sink : Option Sink}

/-- A pinned segment that is still there, with no more than lines added to it. -/
def Segment.Grown (segment grown : Segment) : Prop :=
  grown.index = segment.index ∧ grown.pinned = true ∧
    segment.body <+: grown.body

theorem Segment.Grown.trans {first second third : Segment}
    (h : first.Grown second) (h' : second.Grown third) : first.Grown third :=
  ⟨h'.1.trans h.1, h'.2.1, h.2.2.trans h'.2.2⟩

theorem opened_grown (h : Chronicle written segments sink) {segment : Segment}
    (hsegment : segment ∈ segments) (hpinned : segment.pinned = true)
    (limits : Limits) :
    ∃ grown ∈ openSegments limits segments, segment.Grown grown := by
  have hkept := @pruneSegments_keeps limits (openTarget limits segments) _
    h.ordered _ hsegment (Or.inl hpinned)
  refine ⟨segment, ?_, rfl, hpinned, List.prefix_rfl⟩
  rw [openSegments, createSegment]
  split
  · exact hkept
  · exact List.mem_append_left _ hkept

theorem appended_grown {segment : Segment} (hsegment : segment ∈ segments)
    (hpinned : segment.pinned = true) (index : ℕ) (line : List Char) :
    ∃ grown ∈ appendLine index line segments, segment.Grown grown := by
  refine ⟨_, List.mem_map_of_mem hsegment, ?_⟩
  split
  · exact ⟨rfl, hpinned, by simp [List.append_assoc]⟩
  · exact ⟨rfl, hpinned, List.prefix_rfl⟩

theorem pinned_grown {segment : Segment} (hsegment : segment ∈ segments)
    (hpinned : segment.pinned = true) (active : Sink) :
    ∃ grown ∈ pinSegment active segments, segment.Grown grown := by
  unfold pinSegment
  split
  · exact ⟨segment, hsegment, rfl, hpinned, List.prefix_rfl⟩
  · refine ⟨_, List.mem_map_of_mem hsegment, ?_⟩
    split
    · exact ⟨rfl, rfl, List.prefix_rfl⟩
    · exact ⟨rfl, hpinned, List.prefix_rfl⟩

theorem rolled_grown {segment : Segment} (hsegment : segment ∈ segments)
    (hpinned : segment.pinned = true) (active : Sink) :
    ∃ grown ∈ (if active.sawError then pinSegment active segments else segments),
      segment.Grown grown := by
  split
  · exact pinned_grown hsegment hpinned active
  · exact ⟨segment, hsegment, rfl, hpinned, List.prefix_rfl⟩

theorem settled_grown {segment : Segment} (hsegment : segment ∈ segments)
    (hpinned : segment.pinned = true) (sink : Option Sink) :
    ∃ grown ∈ (settleBatch (segments, sink)).1, segment.Grown grown := by
  cases sink with
  | none => exact ⟨segment, hsegment, rfl, hpinned, List.prefix_rfl⟩
  | some active =>
      by_cases hsaw : active.sawError = true
      · rw [settleBatch, if_pos hsaw]
        exact pinned_grown hsegment hpinned active
      · rw [settleBatch, if_neg hsaw]
        exact ⟨segment, hsegment, rfl, hpinned, List.prefix_rfl⟩

/-- A batch leaves every pinned segment where it is. -/
theorem Chronicle.wroteBatch_grown (limits : Limits) (batch : List Entry)
    {written : List (List Entry)} {segments : List Segment} {sink : Option Sink}
    (h : Chronicle written segments sink) {segment : Segment}
    (hsegment : segment ∈ segments) (hpinned : segment.pinned = true) :
    ∃ grown ∈ (writeBatch limits batch (segments, sink)).1,
      segment.Grown grown := by
  induction batch generalizing written segments sink segment with
  | nil => exact ⟨segment, hsegment, rfl, hpinned, List.prefix_rfl⟩
  | cons entry rest ih =>
      obtain ⟨ready, -, hready⟩ := h.ready limits
      obtain ⟨first, hfirst, hgrown⟩ : ∃ grown ∈
          (if sink.isNone then openSegments limits segments else segments),
          segment.Grown grown := by
        split
        · exact opened_grown h hsegment hpinned limits
        · exact ⟨segment, hsegment, rfl, hpinned, List.prefix_rfl⟩
      obtain ⟨wrote, -, hwrote⟩ := hready.wrote entry
      obtain ⟨second, hsecond, hgrown'⟩ := appended_grown hfirst hgrown.2.1
        (sink.getD (Sink.opened limits segments)).index entry.line
      have hboth := hgrown.trans hgrown'
      unfold writeBatch
      dsimp only
      split
      · obtain ⟨third, hthird, hgrown''⟩ := rolled_grown hsecond hboth.2.1
          ((sink.getD (Sink.opened limits segments)).write entry)
        obtain ⟨final, hfinal, hlast⟩ :=
          ih hwrote.rolled hthird hgrown''.2.1
        exact ⟨final, hfinal, (hboth.trans hgrown'').trans hlast⟩
      · obtain ⟨final, hfinal, hlast⟩ := ih hwrote hsecond hboth.2.1
        exact ⟨final, hfinal, hboth.trans hlast⟩

/-- The directory as it is right after each time that a batch opens a segment. -/
def opened (limits : Limits) :
    List Entry → List Segment × Option Sink → List (List Segment)
  | [], _ => []
  | entry :: rest, held =>
      (if held.2.isNone then [openSegments limits held.1] else [])
        ++ opened limits rest (writeBatch limits [entry] held)

theorem opened_few (limits : Limits) (hlimit : 1 ≤ limits.segmentsPerLaunch)
    (batch : List Entry) {written : List (List Entry)} {segments : List Segment}
    {sink : Option Sink} (h : Chronicle written segments sink) :
    ∀ after ∈ opened limits batch (segments, sink),
      (unpinned after).length ≤ limits.segmentsPerLaunch := by
  induction batch generalizing written segments sink with
  | nil => simp [opened]
  | cons entry rest ih =>
      intro after hafter
      rw [opened, List.mem_append] at hafter
      rcases hafter with hhere | hlater
      · split at hhere
        · rw [List.mem_singleton.mp hhere]
          exact h.unpinned_opened hlimit
        · simp at hhere
      · obtain ⟨next, -, hnext⟩ := h.wroteBatch limits [entry]
        exact ih hnext after hlater

end Batches

section Invariant

def sinkOf (state : State) (id : ℕ) : Option Sink :=
  if state.store.launch = some id then state.store.liveSink else none

def pendingOf (state : State) (id : ℕ) : List Entry :=
  if state.store.launch = some id then state.store.queue.pending else []

theorem sinkOf_eq_none {state : State} {id : ℕ}
    (hsink : state.store.sink = none) : sinkOf state id = none := by
  simp [sinkOf, Store.liveSink, hsink]

theorem pendingOf_eq_nil {state : State} {id : ℕ}
    (hpending : state.store.queue.pending = []) : pendingOf state id = [] := by
  simp [pendingOf, hpending]

/-- After an installation a launch is one that was there before, or empty. -/
theorem findLaunch_created {limits : Limits} {millis id : ℕ} {root : List Launch}
    {dir : Launch}
    (hdir : findLaunch id (pruneLaunches limits (createLaunch millis root))
      = some dir) :
    findLaunch id root = some dir ∨ dir.segments = [] := by
  obtain ⟨kept, hkept⟩ := pruneLaunches_eq limits (createLaunch millis root)
  rw [hkept, findLaunch_filter] at hdir
  split at hdir
  · unfold createLaunch at hdir
    split at hdir
    · exact Or.inl hdir
    · simp only [findLaunch, List.find?_append] at hdir ⊢
      rcases Option.or_eq_some_iff.mp hdir with hold | ⟨-, hnew⟩
      · exact Or.inl hold
      · have hmem := List.mem_of_find?_eq_some hnew
        rw [List.mem_singleton.mp hmem]
        exact Or.inr rfl
  · cases hdir

/-- Of the entries pushed, some are pending behind those before them. -/
theorem foldl_push_sublist (limits : Limits) (entries : List Entry)
    (queue : Queue) :
    ∃ more : List Entry, more.Sublist entries ∧
      (entries.foldl (push limits) queue).pending = queue.pending ++ more ∧
      (entries.foldl (push limits) queue).running = queue.running ∧
      (entries.foldl (push limits) queue).generation = queue.generation := by
  induction entries generalizing queue with
  | nil => exact ⟨[], List.Sublist.refl _, by simp, rfl, rfl⟩
  | cons entry entries ih =>
      obtain ⟨more, hmore, hpending, hrunning, hgeneration⟩ :=
        ih (push limits queue entry)
      rw [List.foldl_cons]
      by_cases hfull : limits.queueCapacity ≤ queue.pending.length
      · simp only [push, hfull, if_true] at hpending hrunning hgeneration ⊢
        exact ⟨more, hmore.cons _, hpending, hrunning, hgeneration⟩
      · simp only [push, hfull, if_false] at hpending hrunning hgeneration ⊢
        exact ⟨entry :: more, hmore.cons_cons _, by simpa using hpending, hrunning,
          hgeneration⟩

/-- What holds of the disk and the store after any events: each launch has the
lines that were recorded in it, but for some, in their order. -/
structure Sound (recorded : ℕ → List Entry) (state : State) : Prop where
  distinct : Distinct state.root
  running : state.store.queue.running = state.store.launch.isSome
  idle : state.store.launch = none →
    state.store.sink = none ∧ state.store.queue.pending = []
  generations : state.store.generation ≤ state.store.queue.generation
  evident : ∀ entry ∈ state.store.queue.pending, entry.Evident
  kept : ∀ id dir, findLaunch id state.root = some dir → ∃ written,
    Settled written dir.segments (sinkOf state id) ∧
      (written.flatten ++ pendingOf state id).Sublist (recorded id) ∧
      ∀ entry ∈ written.flatten, entry.Evident

namespace Sound

variable {recorded : ℕ → List Entry} {state : State}

theorem initial (limits : Limits) (recorded : ℕ → List Entry) :
    Sound recorded { store := { limits := limits } } where
  distinct := List.nodup_nil
  running := rfl
  idle := fun _ => ⟨rfl, rfl⟩
  generations := le_rfl
  evident := by simp
  kept := by simp [findLaunch]

theorem renew (h : Sound recorded state) (limits : Limits) :
    Sound recorded (renew limits state) where
  distinct := h.distinct
  running := rfl
  idle := fun _ => ⟨rfl, rfl⟩
  generations := le_rfl
  evident := by simp [LogStore.renew]
  kept := by
    intro id dir hdir
    obtain ⟨written, hsettled, hlines, hevident⟩ := h.kept id dir hdir
    refine ⟨written, by simpa [sinkOf, LogStore.renew] using hsettled.closed, ?_,
      hevident⟩
    have hwritten := (List.sublist_append_left written.flatten _).trans hlines
    simpa [pendingOf, LogStore.renew] using hwritten

theorem install (h : Sound recorded state) (now : Instant) :
    Sound recorded (install now state) := by
  by_cases hfresh : state.store.launch = none
  · obtain ⟨hsink, hpending⟩ := h.idle hfresh
    have hroot : (LogStore.install now state).root = pruneLaunches
        state.store.limits (createLaunch now.millis state.root) := by
      simp [LogStore.install, hfresh]
    have hsink' : (LogStore.install now state).store.sink = none := by
      simpa [LogStore.install, hfresh] using hsink
    have hpending' : (LogStore.install now state).store.queue.pending = [] := by
      simpa [LogStore.install, hfresh] using hpending
    refine ⟨?_, by simp [LogStore.install, hfresh],
      by simp [LogStore.install, hfresh],
      by simpa [LogStore.install, hfresh] using h.generations,
      by simp [hpending'], fun id dir hdir => ?_⟩
    · rw [hroot]
      exact (h.distinct.createLaunch _).filter _
    · rw [sinkOf_eq_none hsink', pendingOf_eq_nil hpending']
      rw [hroot] at hdir
      rcases findLaunch_created hdir with hold | hnew
      · obtain ⟨written, hsettled, hlines, hevident⟩ := h.kept id dir hold
        rw [pendingOf_eq_nil hpending] at hlines
        exact ⟨written, hsettled.closed, hlines, hevident⟩
      · rw [hnew]
        exact ⟨[], Settled.empty, by simp, by simp⟩
  · have hsome : state.store.launch.isSome = true :=
      Option.isSome_iff_ne_none.mpr hfresh
    rw [LogStore.install, if_pos hsome]
    exact h

theorem enqueue (h : Sound recorded state) {entries : List Entry}
    (hevident : ∀ entry ∈ entries, entry.Evident) :
    Sound (fun id => recorded id
      ++ if state.store.launch = some id then entries else [])
      (enqueue entries state) := by
  unfold LogStore.enqueue
  split
  · rename_i hrun
    obtain ⟨more, hmore, hpending, hrunning, hgeneration⟩ :=
      foldl_push_sublist state.store.limits entries state.store.queue
    refine ⟨h.distinct, hrunning.trans h.running, fun hnone => ?_,
      h.generations.trans hgeneration.ge, ?_, fun id dir hdir => ?_⟩
    · have hlaunch : state.store.launch = none := hnone
      rw [h.running, hlaunch] at hrun
      cases hrun
    · intro entry hentry
      dsimp only at hentry
      rw [hpending, List.mem_append] at hentry
      rcases hentry with hold | hnew
      · exact h.evident entry hold
      · exact hevident entry (hmore.subset hnew)
    · obtain ⟨written, hsettled, hlines, hwritten⟩ := h.kept id dir hdir
      refine ⟨written, ?_, ?_, hwritten⟩
      · simpa [sinkOf, Store.liveSink, hgeneration] using hsettled
      · unfold pendingOf at hlines ⊢
        dsimp only
        split
        · rename_i hlive
          rw [if_pos hlive] at hlines
          rw [hpending, ← List.append_assoc]
          exact hlines.append hmore
        · rename_i hlive
          rw [if_neg hlive] at hlines
          simpa using hlines
  · rename_i hidle
    have hnone : state.store.launch = none := by
      simpa [h.running] using hidle
    simpa [hnone] using h

theorem drain (h : Sound recorded state) : Sound recorded (drain state) := by
  by_cases hnone : state.store.launch = none
  · have hsame : LogStore.drain state = state := by
      simp [LogStore.drain, hnone]
    rw [hsame]
    exact h
  · obtain ⟨live, hlive⟩ := Option.ne_none_iff_exists'.mp hnone
    have hlaunch := (drain_launch state).trans hlive
    have hpending := (drain_queue state).2.2 (by simp [hlive])
    refine ⟨h.distinct.drain, ?_, by simp [hlaunch],
      drain_generations h.generations, by simp [hpending], fun id dir hdir => ?_⟩
    · rw [(drain_queue state).1, h.running, hlive, hlaunch]
    · rw [pendingOf_eq_nil hpending]
      by_cases hid : live = id
      · subst hid
        have hbefore : findLaunch live state.root ≠ none := by
          intro hmissing
          rw [drain_missing hlive hmissing] at hdir
          cases hdir
        obtain ⟨old, hold⟩ := Option.ne_none_iff_exists'.mp hbefore
        obtain ⟨written, hsettled, hlines, hwritten⟩ := h.kept live old hold
        rw [sinkOf, if_pos hlive] at hsettled
        rw [pendingOf, if_pos hlive] at hlines
        obtain ⟨dir', written', hdir', hsettled', hflat⟩ :=
          drain_live hlive hold hsettled
        rw [hdir', Option.some.injEq] at hdir
        subst hdir
        refine ⟨written', by rwa [sinkOf, if_pos hlaunch], ?_, ?_⟩
        · rw [hflat, List.append_nil]
          exact hlines
        · intro entry hentry
          rw [hflat, List.mem_append] at hentry
          rcases hentry with hthen | hnow
          · exact hwritten entry hthen
          · exact h.evident entry hnow
      · have hother : state.store.launch ≠ some id := by simpa [hlive] using hid
        rw [findLaunch_drain hother] at hdir
        obtain ⟨written, hsettled, hlines, hwritten⟩ := h.kept id dir hdir
        refine ⟨written, ?_, ?_, hwritten⟩
        · rw [sinkOf, if_neg hother] at hsettled
          rw [sinkOf, drain_launch, if_neg hother]
          exact hsettled
        · rw [pendingOf, if_neg hother] at hlines
          exact hlines

/-- The live launch emptied, with its sink to be opened anew. -/
theorem reopened (h : Sound recorded state) {live : ℕ}
    (hlive : state.store.launch = some live)
    (hpending : state.store.queue.pending = []) :
    Sound recorded (reopened live state) := by
  have hpending' : (LogStore.reopened live state).store.queue.pending = [] :=
    hpending
  have hsink : (LogStore.reopened live state).store.liveSink = none := by
    have hnew : state.store.queue.generation + 1 ≠ state.store.generation := by
      have := h.generations
      omega
    simp [Store.liveSink, LogStore.reopened, hnew]
  refine ⟨h.distinct.reopened live, h.running, by
      simp [LogStore.reopened, hlive], h.generations.trans (Nat.le_succ _),
    h.evident, fun id dir hdir => ?_⟩
  by_cases hid : id = live
  · subst hid
    simp only [LogStore.reopened] at hdir
    rw [findLaunch_updateLaunch, if_pos rfl, Option.map_eq_some_iff] at hdir
    obtain ⟨old, -, rfl⟩ := hdir
    refine ⟨[], ?_, ?_, by simp⟩
    · rw [sinkOf, hsink, ite_self]
      exact Settled.empty
    · rw [pendingOf_eq_nil hpending']
      simp
  · rw [findLaunch_reopened hid] at hdir
    obtain ⟨written, hsettled, hlines, hwritten⟩ := h.kept id dir hdir
    refine ⟨written, ?_, ?_, hwritten⟩
    · rw [sinkOf, hsink, ite_self]
      exact hsettled.closed
    · rw [pendingOf_eq_nil hpending']
      rwa [pendingOf_eq_nil hpending] at hlines

/-- Launches other than the live one may be removed as a whole. -/
theorem removed (h : Sound recorded state) (kept : ℕ → Bool) :
    Sound recorded
      { state with root := state.root.filter fun dir => kept dir.millis } := by
  refine ⟨h.distinct.filter _, h.running, h.idle, h.generations, h.evident,
    fun id dir hdir => ?_⟩
  rw [findLaunch_filter] at hdir
  split at hdir
  · exact h.kept id dir hdir
  · cases hdir

theorem delete (h : Sound recorded state) (id : ℕ) :
    Sound recorded (delete id state) := by
  unfold LogStore.delete
  split
  · exact h
  · rename_i live hlive
    split
    · have hpending := (drain_queue state).2.2 (by simp [hlive])
      have hlive' := (drain_launch state).trans hlive
      dsimp only
      split
      · exact h.drain.reopened hlive' hpending
      · exact h.drain.removed fun millis => decide (millis ≠ id)
    · exact h

theorem clear (h : Sound recorded state) : Sound recorded (clear state) := by
  unfold LogStore.clear
  split
  · exact h
  · rename_i live hlive
    have hpending := (drain_queue state).2.2 (by simp [hlive])
    have hlive' := (drain_launch state).trans hlive
    have hreopened := h.drain.reopened hlive' hpending
    obtain ⟨hdistinct, hrunning, hidle, hgenerations, hevident, hkept⟩ :=
      hreopened.removed fun millis => decide (millis = live)
    exact ⟨hdistinct, hrunning, hidle, hgenerations, hevident, hkept⟩

theorem apply (h : Sound recorded state) {offset : ℤ} {event : Event}
    (hevident : ∀ entry ∈ event.entries offset, entry.Evident) :
    Sound (fun id => recorded id
      ++ if state.store.launch = some id then event.entries offset else [])
      (apply offset state event) := by
  cases event with
  | record call => exact h.enqueue hevident
  | write line => exact h.enqueue hevident
  | renew limits => simpa [Event.entries, LogStore.apply] using h.renew limits
  | install now => simpa [Event.entries, LogStore.apply] using h.install now
  | drain => simpa [Event.entries, LogStore.apply] using h.drain
  | delete id => simpa [Event.entries, LogStore.apply] using h.delete id
  | clear => simpa [Event.entries, LogStore.apply] using h.clear

end Sound

/-- The entries recorded in a launch over a run, in order. -/
def recordedIn (offset : ℤ) (id : ℕ) : State → List Event → List Entry
  | _, [] => []
  | state, event :: events =>
      (if state.store.launch = some id then event.entries offset else [])
        ++ recordedIn offset id (apply offset state event) events

theorem Sound.run {offset : ℤ} {recorded : ℕ → List Entry} {state : State}
    (h : Sound recorded state) {events : List Event}
    (hevident : ∀ event ∈ events, ∀ entry ∈ event.entries offset,
      entry.Evident) :
    Sound (fun id => recorded id ++ recordedIn offset id state events)
      (run offset state events) := by
  induction events generalizing recorded state with
  | nil => simpa [recordedIn, LogStore.run] using h
  | cons event events ih =>
      have hstep := h.apply (hevident event List.mem_cons_self)
      have hrest := ih hstep fun other hother =>
        hevident other (List.mem_cons_of_mem _ hother)
      simpa [recordedIn, LogStore.run, List.append_assoc] using hrest

end Invariant

section Steps

/-- An installation leaves its own launch: few enough unpinned launches come after
it by name, or, where there was one of its name with an error, it and the pinned
ones after it are small enough. -/
def LiveKept (limits : Limits) (now : ℕ) (root : List Launch) : Prop :=
  ∀ dir ∈ createLaunch now root, dir.millis = now →
    if dir.pinnedSegments = [] then
      (laterUnpinned dir.name (createLaunch now root)).length < limits.launches
    else ((laterPinned dir.name (createLaunch now root)).map
      Launch.pinnedBytes).sum ≤ limits.pinnedBytesLimit

/-- The pinned launches are small enough together, or their names are in the order
of their times. -/
def NamedInOrder (limits : Limits) (root : List Launch) : Prop :=
  ((pinnedLaunches root).map Launch.pinnedBytes).sum ≤ limits.pinnedBytesLimit ∨
    ∀ left ∈ pinnedLaunches root, ∀ right ∈ pinnedLaunches root,
      left.millis < right.millis → left.name ≤ right.name

/-- The condition on one event, in the state before it. -/
def Orderly (offset : ℤ) (state : State) : Event → Prop
  | .renew _ => True
  | .install now => state.store.launch = none →
      LiveKept state.store.limits now.millis state.root ∧
        NamedInOrder state.store.limits (createLaunch now.millis state.root)
  | .record call => ∀ entry ∈ call.entries offset, entry.Evident
  | .write line => Entry.Evident ⟨line, errorLine line⟩
  | .drain | .delete _ | .clear => state.store.queue.pending = [] ∨
      1 ≤ state.store.limits.segmentsPerLaunch

def OrderlyRun (offset : ℤ) : State → List Event → Prop
  | _, [] => True
  | state, event :: events => Orderly offset state event ∧
      OrderlyRun offset (apply offset state event) events

/-- Whether an event has the writer write what is pending. -/
def flushes (state : State) : Event → Bool
  | .drain | .clear => true
  | .delete id => state.root.any fun launch => launch.millis = id
  | _ => false

/-- The live directory right after each time that an event opens a segment. -/
def opens (state : State) (event : Event) : List (List Segment) :=
  if flushes state event then
    ((state.store.launch.bind fun live => findLaunch live state.root).map
      fun dir => opened state.store.limits state.store.queue.pending
        (dir.segments, state.store.liveSink)).getD []
  else []

/-- A launch given up for the pinned bytes: it and the pinned ones that began after
it are too many, and those that began before it are gone with it. -/
def ShedForBytes (limits : Limits) (root after : List Launch) (dir : Launch) :
    Prop :=
  limits.pinnedBytesLimit
      < ((youngerPinned dir.millis root).map Launch.pinnedBytes).sum ∧
    ∀ other ∈ root, other.pinnedSegments ≠ [] → other.millis < dir.millis →
      other ∉ after

/-- What an event does to the disk. -/
structure Retains (offset : ℤ) (recorded : ℕ → List Entry) (state : State)
    (event : Event) : Prop where
  live : ∀ now, event = .install now → state.store.launch = none →
    ∃ dir ∈ (apply offset state event).root, dir.millis = now.millis
  errors : ∀ dir ∈ state.root, ∀ segment ∈ dir.segments, segment.HoldsError →
    (∃ dir' ∈ (apply offset state event).root, dir'.millis = dir.millis ∧
      ∃ segment' ∈ dir'.segments, segment'.index = segment.index ∧
        segment.body <+: segment'.body) ∨
    event = .delete dir.millis ∨ event = .clear ∨
    ∃ now, event = .install now ∧ ShedForBytes state.store.limits
      (createLaunch now.millis state.root) (apply offset state event).root dir
  few : ∀ after ∈ opens state event,
    (unpinned after).length ≤ state.store.limits.segmentsPerLaunch
  intact : ∀ dir ∈ (apply offset state event).root,
    ∃ written : List (List Entry),
    written.flatten.Sublist (recorded dir.millis) ∧
      dir.segments.Pairwise (fun left right => left.index < right.index) ∧
      ∀ segment ∈ dir.segments, ∃ entries,
        written[segment.index]? = some entries ∧ segment.body = textOf entries

variable {offset : ℤ} {recorded : ℕ → List Entry} {state : State} {event : Event}

theorem Orderly.evident (h : Orderly offset state event) :
    ∀ entry ∈ event.entries offset, entry.Evident := by
  cases event with
  | record call => exact h
  | write line =>
      have hline : Entry.Evident ⟨line, errorLine line⟩ := h
      simpa [Event.entries] using hline
  | _ => simp [Event.entries]

/-- A segment with an error in it is pinned. -/
theorem Sound.error_pinned (h : Sound recorded state) {dir : Launch}
    (hdir : dir ∈ state.root) {segment : Segment}
    (hsegment : segment ∈ dir.segments) (herror : segment.HoldsError) :
    segment.pinned = true := by
  have hfound := (findLaunch_eq_some h.distinct).mpr ⟨hdir, rfl⟩
  obtain ⟨written, hsettled, -, hevident⟩ := h.kept _ dir hfound
  obtain ⟨entries, hentries, hbody, -⟩ := hsettled.whole segment hsegment
  obtain ⟨line, hline, hreads⟩ := herror
  rw [hbody] at hline
  have hmem : entries ∈ written := List.mem_of_getElem? hentries
  exact hsettled.error_pinned hsegment hentries (error_of_textOf
    (fun entry hentry => hevident entry
      (List.mem_flatten.mpr ⟨entries, hmem, hentry⟩)) hline hreads)

/-- A batch leaves every pinned segment of every launch where it is. -/
theorem Sound.drain_grown (h : Sound recorded state) {dir : Launch}
    (hdir : dir ∈ state.root) {segment : Segment}
    (hsegment : segment ∈ dir.segments) (hpinned : segment.pinned = true) :
    ∃ dir', findLaunch dir.millis (LogStore.drain state).root = some dir' ∧
      ∃ grown ∈ dir'.segments, segment.Grown grown := by
  have hfound := (findLaunch_eq_some h.distinct).mpr ⟨hdir, rfl⟩
  have hsame : segment.Grown segment := ⟨rfl, hpinned, List.prefix_rfl⟩
  by_cases hlive : state.store.launch = some dir.millis
  · by_cases hpending : state.store.queue.pending = []
    · have hquiet : LogStore.drain state = state := by
        simp [LogStore.drain, hlive, hpending]
      rw [hquiet]
      exact ⟨dir, hfound, segment, hsegment, hsame⟩
    · obtain ⟨written, hsettled, -, -⟩ := h.kept _ dir hfound
      rw [sinkOf, if_pos hlive] at hsettled
      obtain ⟨wrote, hwrote, hfirst⟩ := hsettled.wroteBatch_grown
        state.store.limits state.store.queue.pending hsegment hpinned
      obtain ⟨grown, hgrown, hsecond⟩ := settled_grown hwrote hfirst.2.1
        (writeBatch state.store.limits state.store.queue.pending
          (dir.segments, state.store.liveSink)).2
      refine ⟨{ dir with segments := (drained state dir).1 }, ?_, grown, hgrown,
        hfirst.trans hsecond⟩
      rw [drain_eq hlive hfound hpending, findLaunch_updateLaunch, if_pos rfl,
        hfound]
      rfl
  · rw [findLaunch_drain hlive, hfound]
    exact ⟨dir, rfl, segment, hsegment, hsame⟩

theorem oldestPinned_eq_nil {limits : Limits} {root : List Launch}
    (hsmall : ((pinnedLaunches root).map Launch.pinnedBytes).sum
      ≤ limits.pinnedBytesLimit) : oldestPinned limits root = [] := by
  unfold oldestPinned
  cases hpinned : pinnedLaunches root with
  | nil => rfl
  | cons dir dirs =>
      rw [hpinned] at hsmall
      rw [shedPinned, if_pos hsmall]

/-- What is shed for the pinned bytes is the oldest, where names are in order. -/
theorem shedForBytes {limits : Limits} {root : List Launch}
    (hdistinct : Distinct root) (hnamed : NamedInOrder limits root)
    {dir : Launch} (hdir : dir ∈ root) (hshed : dir ∈ oldestPinned limits root) :
    ShedForBytes limits root (pruneLaunches limits root) dir := by
  rcases hnamed with hsmall | hordered
  · rw [oldestPinned_eq_nil hsmall] at hshed
    cases hshed
  · have hpinned := pinned_of_mem_oldestPinned hshed
    have hmem : ∀ {launch : Launch}, launch ∈ root →
        launch.pinnedSegments ≠ [] → launch ∈ pinnedLaunches root :=
      fun hin hpins => List.mem_filter.mpr
        ⟨List.mem_mergeSort.mpr hin, decide_eq_true hpins⟩
    obtain ⟨habove, holder⟩ := pinned_shed hdistinct hshed
    have hyounger : youngerPinned dir.millis root = laterPinned dir.name root := by
      refine List.filter_congr fun other hother => ?_
      rw [decide_eq_decide, and_congr_right_iff]
      intro hpins
      constructor
      · intro hmillis
        rcases hmillis.lt_or_eq with hlt | heq
        · exact hordered dir (hmem hdir hpinned) other (hmem hother hpins) hlt
        · exact (congrArg (Nat.toDigits 10) heq).le
      · intro hname
        by_contra hlt
        rw [not_le] at hlt
        have hback := hordered other (hmem hother hpins) dir
          (hmem hdir hpinned) hlt
        exact hlt.ne (name_injective (le_antisymm hback hname))
    refine ⟨by rwa [hyounger], fun other hother hpins hlt => ?_⟩
    rw [mem_pruneLaunches hdistinct]
    rintro ⟨-, -, hkept⟩
    have hname := hordered other (hmem hother hpins) dir (hmem hdir hpinned) hlt
    refine hkept (holder other hother hpins (lt_of_le_of_ne hname fun hsame => ?_))
    exact hlt.ne (name_injective hsame)

theorem mem_createLaunch {millis : ℕ} {root : List Launch} {dir : Launch}
    (hdir : dir ∈ root) : dir ∈ createLaunch millis root := by
  unfold createLaunch
  split
  · exact hdir
  · exact List.mem_append_left _ hdir

theorem exists_createLaunch (millis : ℕ) (root : List Launch) :
    ∃ dir ∈ createLaunch millis root, dir.millis = millis := by
  unfold createLaunch
  split
  · rename_i hthere
    simpa using hthere
  · exact ⟨⟨millis, []⟩, by simp, rfl⟩

/-- The launch just made live is there after its installation. -/
theorem live_kept {limits : Limits} {now : ℕ} {root : List Launch}
    (hdistinct : Distinct root) (hlive : LiveKept limits now root) :
    ∃ dir ∈ pruneLaunches limits (createLaunch now root), dir.millis = now := by
  obtain ⟨dir, hdir, hmillis⟩ := exists_createLaunch now root
  have hcreated := hdistinct.createLaunch now
  have hroom := hlive dir hdir hmillis
  refine ⟨dir, ?_, hmillis⟩
  split at hroom
  · rename_i hunpinned
    exact (unpinned_kept_iff hcreated hdir hunpinned).mpr hroom
  · rename_i hpinned
    rw [mem_pruneLaunches hcreated]
    refine ⟨hdir, fun holdest =>
      hpinned (unpinned_of_mem_oldestUnpinned holdest), fun hshed => ?_⟩
    exact hroom.not_gt (pinned_shed hcreated hshed).1

/-- The evidence of an error stays where it is, but for what may remove it. -/
theorem errors_kept (h : Sound recorded state) (horderly : Orderly offset state event)
    {dir : Launch} (hdir : dir ∈ state.root) {segment : Segment}
    (hsegment : segment ∈ dir.segments) (herror : segment.HoldsError) :
    (∃ dir' ∈ (LogStore.apply offset state event).root,
      dir'.millis = dir.millis ∧ ∃ segment' ∈ dir'.segments,
        segment'.index = segment.index ∧ segment.body <+: segment'.body) ∨
    event = .delete dir.millis ∨ event = .clear ∨
    ∃ now, event = .install now ∧ ShedForBytes state.store.limits
      (createLaunch now.millis state.root)
      (LogStore.apply offset state event).root dir := by
  have hpinned := h.error_pinned hdir hsegment herror
  obtain ⟨drained, hdrained, grown, hgrown, hindex, -, hbody⟩ :=
    h.drain_grown hdir hsegment hpinned
  obtain ⟨hmem, hmillis⟩ := (findLaunch_eq_some h.distinct.drain).mp hdrained
  have hsame : ∃ dir' ∈ state.root, dir'.millis = dir.millis ∧
      ∃ segment' ∈ dir'.segments, segment'.index = segment.index ∧
        segment.body <+: segment'.body :=
    ⟨dir, hdir, rfl, segment, hsegment, rfl, List.prefix_rfl⟩
  cases event with
  | renew limits => exact Or.inl hsame
  | record call =>
      left
      rwa [LogStore.apply, record, enqueue_root]
  | write line =>
      left
      rwa [LogStore.apply, write, enqueue_root]
  | drain => exact Or.inl ⟨drained, hmem, hmillis, grown, hgrown, hindex, hbody⟩
  | clear => exact Or.inr (Or.inr (Or.inl rfl))
  | delete id =>
      by_cases hid : id = dir.millis
      · exact Or.inr (Or.inl (by rw [hid]))
      · left
        simp only [LogStore.apply, LogStore.delete]
        split
        · exact hsame
        · rename_i live hlive
          split
          · split
            · rename_i hhere
              have hfound : findLaunch dir.millis (reopened live
                  (drain state)).root = some drained := by
                rw [findLaunch_reopened (by rw [← hhere]; exact Ne.symm hid),
                  hdrained]
              obtain ⟨hleft, hname⟩ := (findLaunch_eq_some
                (h.distinct.drain.reopened live)).mp hfound
              exact ⟨drained, hleft, hname, grown, hgrown, hindex, hbody⟩
            · refine ⟨drained, List.mem_filter.mpr ⟨hmem, ?_⟩, hmillis, grown,
                hgrown, hindex, hbody⟩
              exact decide_eq_true (by rw [hmillis]; exact Ne.symm hid)
          · exact hsame
  | install now =>
      by_cases hfresh : state.store.launch = none
      · have hroot : (LogStore.apply offset state (.install now)).root
            = pruneLaunches state.store.limits
              (createLaunch now.millis state.root) := by
          simp [LogStore.apply, LogStore.install, hfresh]
        have hcreated := h.distinct.createLaunch now.millis
        have hin : dir ∈ createLaunch now.millis state.root :=
          mem_createLaunch hdir
        have hmarked : dir.pinnedSegments ≠ [] := List.ne_nil_of_mem
          (List.mem_filter.mpr ⟨mem_sortedSegments.mpr hsegment, hpinned⟩)
        rw [hroot]
        by_cases hkept : dir ∈ pruneLaunches state.store.limits
            (createLaunch now.millis state.root)
        · exact Or.inl ⟨dir, hkept, rfl, segment, hsegment, rfl,
            List.prefix_rfl⟩
        · rw [mem_pruneLaunches hcreated, not_and, not_and, not_not] at hkept
          have hshed := hkept hin fun holdest =>
            hmarked (unpinned_of_mem_oldestUnpinned holdest)
          exact Or.inr (Or.inr (Or.inr ⟨now, rfl,
            shedForBytes hcreated (horderly hfresh).2 hin hshed⟩))
      · left
        have hsome : state.store.launch.isSome = true :=
          Option.isSome_iff_ne_none.mpr hfresh
        rw [LogStore.apply, LogStore.install, if_pos hsome]
        exact hsame

theorem opens_few (h : Sound recorded state) (horderly : Orderly offset state event) :
    ∀ after ∈ opens state event,
      (unpinned after).length ≤ state.store.limits.segmentsPerLaunch := by
  intro after hafter
  unfold opens at hafter
  split at hafter
  · rename_i hflushes
    have hlimit : state.store.queue.pending = [] ∨
        1 ≤ state.store.limits.segmentsPerLaunch := by
      cases event with
      | drain => exact horderly
      | delete id => exact horderly
      | clear => exact horderly
      | _ => simp [flushes] at hflushes
    cases hdir : state.store.launch.bind fun live =>
        findLaunch live state.root with
    | none => simp [hdir] at hafter
    | some dir =>
        obtain ⟨live, hlive, hfound⟩ := Option.bind_eq_some_iff.mp hdir
        obtain ⟨written, hsettled, -, -⟩ := h.kept live dir hfound
        rw [sinkOf, if_pos hlive] at hsettled
        rw [hdir, Option.map_some, Option.getD_some] at hafter
        rcases hlimit with hnothing | hlimit
        · simp [hnothing, opened] at hafter
        · exact opened_few _ hlimit _ hsettled.toChronicle after hafter
  · simp at hafter

theorem Sound.retains (h : Sound recorded state)
    (horderly : Orderly offset state event) :
    Retains offset (fun id => recorded id
      ++ if state.store.launch = some id then event.entries offset else [])
      state event where
  live := by
    rintro now rfl hfresh
    have hroot : (LogStore.apply offset state (.install now)).root
        = pruneLaunches state.store.limits
          (createLaunch now.millis state.root) := by
      simp [LogStore.apply, LogStore.install, hfresh]
    rw [hroot]
    exact live_kept h.distinct (horderly hfresh).1
  errors := fun _ hdir _ hsegment herror =>
    errors_kept h horderly hdir hsegment herror
  few := opens_few h horderly
  intact := by
    intro dir hdir
    have hnext := h.apply horderly.evident
    have hfound := (findLaunch_eq_some hnext.distinct).mpr ⟨hdir, rfl⟩
    obtain ⟨written, hsettled, hlines, -⟩ := hnext.kept _ dir hfound
    refine ⟨written, (List.sublist_append_left _ _).trans hlines,
      hsettled.ordered, fun segment hsegment => ?_⟩
    obtain ⟨entries, hentries, hbody, -⟩ := hsettled.whole segment hsegment
    exact ⟨entries, hentries, hbody⟩

theorem OrderlyRun.split {events : List Event} {state : State}
    (h : OrderlyRun offset state (events ++ [event])) :
    (∀ earlier ∈ events, ∀ entry ∈ earlier.entries offset, entry.Evident) ∧
      Orderly offset (LogStore.run offset state events) event := by
  induction events generalizing state with
  | nil => exact ⟨by simp, h.1⟩
  | cons first events ih =>
      obtain ⟨hfirst, hrest⟩ := h
      obtain ⟨hevident, hlast⟩ := ih hrest
      refine ⟨fun earlier hearlier => ?_, hlast⟩
      rcases List.mem_cons.mp hearlier with rfl | hlater
      · exact hfirst.evident
      · exact hevident earlier hlater

end Steps

/-- The disk before any store. -/
def bare : State := { store := { limits := {} } }

/-- In a run whose events all meet the condition, each event leaves the live launch,
the evidence of errors, few other segments, and each line in its place. -/
theorem run_retains {offset : ℤ} {events : List Event} {event : Event}
    (h : OrderlyRun offset bare (events ++ [event])) :
    Retains offset
      (fun id => recordedIn offset id bare events
        ++ if (run offset bare events).store.launch = some id then
          event.entries offset else [])
      (run offset bare events) event := by
  obtain ⟨hevident, horderly⟩ := h.split
  have hsound := (Sound.initial {} fun _ => []).run hevident
  exact hsound.retains horderly

theorem second_inRange (n : ℕ) (h : n ≤ 10) : 1000 * n ≤ MAX_MILLIS := by
  norm_num [MAX_MILLIS]
  omega

def second (n : ℕ) (h : n ≤ 10) : Instant := ⟨1000 * n, second_inRange n h⟩

/-- Three launches, and a new store whose clock has gone back behind them. -/
def clockedBack : List Event :=
  [.install (second 2 (by decide)), .renew {},
    .install (second 3 (by decide)), .renew {},
    .install (second 4 (by decide)), .renew {}]

/-- Launches without segments, as few as the limit and in order, all stay. -/
theorem pruneLaunches_few {limits : Limits} {root : List Launch}
    (hempty : ∀ dir ∈ root, dir.segments = [])
    (hsorted : root.Pairwise fun left right => left.name ≤ right.name)
    (hfew : root.length ≤ limits.launches) :
    pruneLaunches limits root = root := by
  have hpinned : ∀ dir ∈ root, dir.pinnedSegments = [] := by
    intro dir hdir
    simp [Launch.pinnedSegments, sortedSegments, hempty dir hdir]
  have hnone : root.filter (fun dir => decide (dir.pinnedSegments ≠ [])) = [] :=
    List.filter_eq_nil_iff.mpr fun dir hdir => by simpa using hpinned dir hdir
  have hall : root.filter (fun dir => decide (dir.pinnedSegments = [])) = root :=
    List.filter_eq_self.mpr fun dir hdir => by simpa using hpinned dir hdir
  have hexcess : root.length - limits.launches = 0 := by omega
  simp only [pruneLaunches, launchDirs_of_sorted hsorted, hnone, hall, hexcess,
    List.take_zero, shedPinned, List.append_nil, removeLaunches, List.map_nil]
  simp

theorem clockedBack_root :
    (run 0 bare clockedBack).root = [⟨2000, []⟩, ⟨3000, []⟩, ⟨4000, []⟩] ∧
      (run 0 bare clockedBack).store = { limits := {} } := by
  have hone : pruneLaunches {} [⟨2000, []⟩] = [⟨2000, []⟩] :=
    pruneLaunches_few (by simp) (by simp) (by simp)
  have htwo : pruneLaunches {} [⟨2000, []⟩, ⟨3000, []⟩]
      = [⟨2000, []⟩, ⟨3000, []⟩] :=
    pruneLaunches_few (by simp) (by
      simp only [List.pairwise_cons, List.mem_singleton, forall_eq]
      decide) (by simp)
  have hthree : pruneLaunches {} [⟨2000, []⟩, ⟨3000, []⟩, ⟨4000, []⟩]
      = [⟨2000, []⟩, ⟨3000, []⟩, ⟨4000, []⟩] :=
    pruneLaunches_few (by simp) (by
      simp [Launch.name]
      decide) (by simp)
  simp [clockedBack, run, apply, install, renew, bare, createLaunch, second, hone,
    htwo, hthree]

/-- The launch just made live is removed: its name comes before the other three. -/
theorem clockedBack_removed : ¬ Retains 0
    (fun id => recordedIn 0 id bare clockedBack
      ++ if (run 0 bare clockedBack).store.launch = some id then
        (Event.install (second 1 (by decide))).entries 0 else [])
    (run 0 bare clockedBack) (.install (second 1 (by decide))) := by
  obtain ⟨hroot, hstore⟩ := clockedBack_root
  intro h
  obtain ⟨dir, hdir, hmillis⟩ := h.live _ rfl (by rw [hstore])
  have hprune : (apply 0 (run 0 bare clockedBack)
      (.install (second 1 (by decide)))).root
        = pruneLaunches {} [⟨2000, []⟩, ⟨3000, []⟩, ⟨4000, []⟩, ⟨1000, []⟩] := by
    simp [apply, install, hstore, hroot, createLaunch, second]
  rw [hprune] at hdir
  have hdistinct : Distinct
      [⟨2000, []⟩, ⟨3000, []⟩, ⟨4000, []⟩, ⟨1000, []⟩] := by
    simp [Distinct]
  have hin := ((mem_pruneLaunches hdistinct).mp hdir).1
  have hlast : dir = ⟨1000, []⟩ := by
    simp only [second] at hmillis
    simp only [List.mem_cons, List.not_mem_nil, or_false] at hin
    rcases hin with rfl | rfl | rfl | rfl <;> simp at hmillis ⊢
  subst hlast
  have hfew := (unpinned_kept_iff hdistinct hin (by
    simp [Launch.pinnedSegments, sortedSegments])).mp hdir
  have hlater : (laterUnpinned (Nat.toDigits 10 1000)
      [⟨2000, []⟩, ⟨3000, []⟩, ⟨4000, []⟩, ⟨1000, []⟩]).length = 3 := by
    have hnames : ∀ n ∈ [2000, 3000, 4000],
        Nat.toDigits 10 1000 < Nat.toDigits 10 n := by decide
    simp only [List.mem_cons, List.not_mem_nil, or_false, forall_eq_or_imp,
      forall_eq] at hnames
    simp [laterUnpinned, Launch.pinnedSegments, sortedSegments, Launch.name,
      hnames]
  exact absurd hfew (by rw [Launch.name, hlater]; decide)

/-- A first launch, and a line written in it, keep what they should. -/
theorem run_retains_written : Retains 0
    (fun id => recordedIn 0 id bare
        [.install (second 1 (by decide)), .write ['x']]
      ++ if (run 0 bare
          [.install (second 1 (by decide)), .write ['x']]).store.launch
            = some id then
        Event.drain.entries 0 else [])
    (run 0 bare [.install (second 1 (by decide)), .write ['x']]) .drain := by
  apply run_retains
  refine ⟨fun _ => ⟨?_, Or.inl ?_⟩, ?_, Or.inr ?_, trivial⟩
  · intro dir hdir _
    have hnew : dir = ⟨1000, []⟩ := by
      simpa [bare, createLaunch, second] using hdir
    subst hnew
    simp [Launch.pinnedSegments, sortedSegments, laterUnpinned, createLaunch,
      bare, second]
  · simp [bare, createLaunch, second, pinnedLaunches, launchDirs,
      Launch.pinnedSegments, sortedSegments]
  · exact evident_of_line (by decide) rfl
  · simp [apply, install, bare, write, enqueue]

end LogStore

end Bridgething
