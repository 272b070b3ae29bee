/-
What the segments of a launch hold: each of those kept is whole, in the order of
the lines that were written, and one with an error in it is pinned.
-/
import Bridgething.Log.Store

namespace Bridgething

namespace LogStore

/-- The bytes of a segment that these entries were written to. -/
def textOf (entries : List Entry) : List Char :=
  entries.flatMap fun entry => entry.line ++ ['\n']

section Sorting

theorem sortedSegments_of_ordered {segments : List Segment}
    (hordered : segments.Pairwise fun left right => left.index < right.index) :
    sortedSegments segments = segments := by
  apply List.mergeSort_of_pairwise
  exact hordered.imp fun hlt => decide_eq_true hlt.le

theorem mem_sortedSegments {segments : List Segment} {segment : Segment} :
    segment ∈ sortedSegments segments ↔ segment ∈ segments :=
  (List.mergeSort_perm _ _).mem_iff

theorem index_injective {segments : List Segment}
    (hordered : segments.Pairwise fun left right => left.index < right.index)
    {left right : Segment} (hleft : left ∈ segments) (hright : right ∈ segments)
    (hindex : left.index = right.index) : left = right := by
  have hdistinct : (segments.map Segment.index).Nodup :=
    List.pairwise_map.mpr (hordered.imp fun hlt => hlt.ne)
  exact List.inj_on_of_nodup_map hdistinct hleft hright hindex

end Sorting

section Pruning

/-- What pruning keeps: all but some unpinned segments, and the one to be opened
always. -/
theorem pruneSegments_keeps {limits : Limits} {target : ℕ}
    {segments : List Segment}
    (hordered : segments.Pairwise fun left right => left.index < right.index)
    {segment : Segment} (hsegment : segment ∈ segments)
    (hkept : segment.pinned = true ∨ segment.index = target) :
    segment ∈ pruneSegments limits target segments := by
  unfold pruneSegments
  refine List.mem_filter.mpr ⟨hsegment, decide_eq_true ?_⟩
  intro hdoomed
  obtain ⟨other, hother, hindex⟩ := List.mem_map.mp hdoomed
  obtain ⟨htaken, hne⟩ := List.mem_filter.mp hother
  obtain ⟨hall, hunpinned⟩ := List.mem_filter.mp (List.mem_of_mem_take htaken)
  have hne : other.index ≠ target := by simpa using hne
  rcases hkept with hpinned | htarget
  · have hin : other ∈ segments := by
      rw [mem_sortedSegments, createSegment] at hall
      split at hall
      · exact hall
      · rcases List.mem_append.mp hall with hin | hnew
        · exact hin
        · rw [List.mem_singleton.mp hnew] at hne
          contradiction
    have hsame := index_injective hordered hin hsegment hindex
    simp [hsame, hpinned] at hunpinned
  · exact hne (hindex.trans htarget)

theorem pruneSegments_sublist (limits : Limits) (target : ℕ)
    (segments : List Segment) :
    (pruneSegments limits target segments).Sublist segments :=
  List.filter_sublist

theorem hasSegment_iff {index : ℕ} {segments : List Segment} :
    hasSegment index segments = true ↔
      ∃ segment ∈ segments, segment.index = index := by
  simp [hasSegment]

end Pruning

/-- What has been written to the segments of a launch, one after the other, and
which of it is left: a segment kept is whole, the newest is kept and is the one
that is open, and an error is in a pinned segment once its sink has settled. -/
structure Chronicle (written : List (List Entry)) (segments : List Segment)
    (sink : Option Sink) : Prop where
  ordered : segments.Pairwise fun left right => left.index < right.index
  whole : ∀ segment ∈ segments, ∃ entries,
    written[segment.index]? = some entries ∧ segment.body = textOf entries ∧
      ((∃ entry ∈ entries, entry.pins = true) → segment.pinned = true ∨
        ∃ active, sink = some active ∧ active.index = segment.index ∧
          active.sawError = true)
  newest : written ≠ [] → ∃ segment ∈ segments,
    segment.index + 1 = written.length
  current : ∀ active, sink = some active → active.index + 1 = written.length
  marked : ∀ active, sink = some active → active.pinned = true →
    ∀ segment ∈ segments, segment.index = active.index → segment.pinned = true

namespace Chronicle

variable {written : List (List Entry)} {segments : List Segment}
  {sink : Option Sink}

theorem index_lt (h : Chronicle written segments sink) {segment : Segment}
    (hsegment : segment ∈ segments) : segment.index < written.length := by
  obtain ⟨entries, hentries, -⟩ := h.whole segment hsegment
  exact (List.getElem?_eq_some_iff.mp hentries).1

theorem empty : Chronicle [] [] none where
  ordered := List.Pairwise.nil
  whole := by simp
  newest := by simp
  current := by simp
  marked := by simp

/-- The segment to be opened is the newest, or one with the next number. -/
theorem openTarget_cases (h : Chronicle written segments sink)
    (limits : Limits) :
    (∃ segment ∈ segments, segment.index = openTarget limits segments ∧
      segment.index + 1 = written.length) ∨
    openTarget limits segments = written.length := by
  unfold openTarget
  rw [sortedSegments_of_ordered h.ordered]
  cases hlast : segments.getLast? with
  | none =>
      rw [List.getLast?_eq_none_iff] at hlast
      by_cases hwritten : written = []
      · simp [hwritten]
      · obtain ⟨segment, hsegment, -⟩ := h.newest hwritten
        simp [hlast] at hsegment
  | some newest =>
      have hmem : newest ∈ segments := List.mem_of_getLast? hlast
      have hlt := h.index_lt hmem
      have hlength : newest.index + 1 = written.length := by
        obtain ⟨segment, hsegment, hindex⟩ :=
          h.newest (List.ne_nil_of_length_pos (by omega))
        obtain ⟨front, hfront⟩ := List.getLast?_eq_some_iff.mp hlast
        have hordered := h.ordered
        rw [hfront, List.pairwise_append] at hordered
        rw [hfront, List.mem_append, List.mem_singleton] at hsegment
        rcases hsegment with hsegment | rfl
        · have := hordered.2.2 segment hsegment newest (by simp)
          omega
        · exact hindex
      by_cases hroom : newest.fileSize < limits.segmentBytes
      · simp only [hroom, if_true]
        exact Or.inl ⟨newest, hmem, rfl, hlength⟩
      · simp only [hroom, if_false]
        exact Or.inr hlength

/-- Opening a segment begins a new one or goes on with the newest. -/
theorem opened (h : Chronicle written segments none) (limits : Limits) :
    ∃ written', written'.flatten = written.flatten ∧
      Chronicle written' (openSegments limits segments)
        (some (Sink.opened limits segments)) := by
  have hsub := pruneSegments_sublist limits (openTarget limits segments) segments
  have hordered := h.ordered.sublist hsub
  have hwhole : ∀ segment ∈ pruneSegments limits (openTarget limits segments)
      segments, ∃ entries, written[segment.index]? = some entries ∧
        segment.body = textOf entries ∧
        ((∃ entry ∈ entries, entry.pins = true) → segment.pinned = true) := by
    intro segment hsegment
    obtain ⟨entries, hentries, hbody, hpins⟩ :=
      h.whole segment (hsub.subset hsegment)
    exact ⟨entries, hentries, hbody, by simpa using hpins⟩
  rcases h.openTarget_cases limits with ⟨newest, hnewest, htarget, hlength⟩ | hnext
  · have hkept := @pruneSegments_keeps limits _ _ h.ordered _ hnewest
      (Or.inr htarget)
    have hopen : openSegments limits segments
        = pruneSegments limits (openTarget limits segments) segments := by
      rw [openSegments, createSegment, if_pos]
      exact hasSegment_iff.mpr ⟨newest, hkept, htarget⟩
    refine ⟨written, rfl, ?_⟩
    rw [hopen]
    exact
      { ordered := hordered
        whole := fun segment hsegment => by
          obtain ⟨entries, hentries, hbody, hpins⟩ := hwhole segment hsegment
          exact ⟨entries, hentries, hbody, fun herror => Or.inl (hpins herror)⟩
        newest := fun _ => ⟨newest, hkept, hlength⟩
        current := by
          simp only [Option.some.injEq, forall_eq', Sink.opened]
          omega
        marked := by simp [Sink.opened] }
  · have hbelow : ∀ segment ∈ pruneSegments limits (openTarget limits segments)
        segments, segment.index < openTarget limits segments := by
      intro segment hsegment
      rw [hnext]
      exact h.index_lt (hsub.subset hsegment)
    have hopen : openSegments limits segments
        = pruneSegments limits (openTarget limits segments) segments
          ++ [⟨openTarget limits segments, [], false⟩] := by
      rw [openSegments, createSegment, if_neg]
      intro hhas
      obtain ⟨segment, hsegment, hindex⟩ := hasSegment_iff.mp hhas
      exact absurd hindex (hbelow segment hsegment).ne
    refine ⟨written ++ [[]], by simp, ?_⟩
    rw [hopen]
    exact
      { ordered := by
          rw [List.pairwise_append]
          exact ⟨hordered, List.pairwise_singleton _ _, by simpa using hbelow⟩
        whole := by
          intro segment hsegment
          rw [List.mem_append, List.mem_singleton] at hsegment
          rcases hsegment with hold | rfl
          · obtain ⟨entries, hentries, hbody, hpins⟩ := hwhole segment hold
            have hlt := (List.getElem?_eq_some_iff.mp hentries).1
            exact ⟨entries, by rwa [List.getElem?_append_left hlt], hbody,
              fun herror => Or.inl (hpins herror)⟩
          · exact ⟨[], by simp [hnext], by simp [textOf], by simp⟩
        newest := fun _ => ⟨⟨openTarget limits segments, [], false⟩, by simp,
          by simp [hnext]⟩
        current := by simp [Sink.opened, hnext]
        marked := by simp [Sink.opened] }

/-- An error of the open sink's launch is in a pinned segment, or in the open one
with its sink aware of it. -/
theorem error_held {active : Sink} (h : Chronicle written segments (some active))
    {segment : Segment} (hsegment : segment ∈ segments) :
    ∃ entries, written[segment.index]? = some entries ∧
      segment.body = textOf entries ∧
      ((∃ entry ∈ entries, entry.pins = true) → segment.pinned = true ∨
        active.index = segment.index ∧ active.sawError = true) := by
  simpa using h.whole segment hsegment

/-- One line more in the open segment. -/
theorem wrote {active : Sink} (h : Chronicle written segments (some active))
    (entry : Entry) :
    ∃ written', written'.flatten = written.flatten ++ [entry] ∧
      Chronicle written' (appendLine active.index entry.line segments)
        (some (active.write entry)) := by
  have hcurrent := h.current active rfl
  obtain ⟨front, last, rfl⟩ : ∃ front last, written = front ++ [last] :=
    List.eq_nil_or_concat written |>.resolve_left
      (List.ne_nil_of_length_pos (by omega)) |>.elim fun front hfront =>
        hfront.elim fun last heq => ⟨front, last, by simpa using heq⟩
  have hindex : active.index = front.length := by simpa using hcurrent
  refine ⟨front ++ [last ++ [entry]], by simp, ?_⟩
  exact
    { ordered := by
        refine List.pairwise_map.mpr (h.ordered.imp fun hlt => ?_)
        simpa [apply_ite Segment.index] using hlt
      whole := by
        intro segment hsegment
        obtain ⟨before, hbefore, rfl⟩ := List.mem_map.mp hsegment
        obtain ⟨entries, hentries, hbody, hpins⟩ := h.error_held hbefore
        by_cases hhere : before.index = active.index
        · have hlast : entries = last := by
            simpa [hhere, hindex] using hentries.symm
          subst hlast
          refine ⟨entries ++ [entry], by simp [hhere, hindex], ?_, ?_⟩
          · simp [hhere, hbody, textOf]
          · rintro ⟨error, herror, hpin⟩
            rw [if_pos hhere]
            rcases List.mem_append.mp herror with hold | hnew
            · rcases hpins ⟨error, hold, hpin⟩ with hpinned | ⟨-, hsaw⟩
              · exact Or.inl hpinned
              · exact Or.inr ⟨_, rfl, hhere.symm, by simp [Sink.write, hsaw]⟩
            · rw [List.mem_singleton] at hnew
              subst hnew
              by_cases hmark : active.pinned = true
              · exact Or.inl (h.marked active rfl hmark before hbefore hhere)
              · exact Or.inr ⟨_, rfl, hhere.symm, by
                  simp [Sink.write, hmark, hpin]⟩
        · have hlt : before.index < front.length := by
            have := h.index_lt hbefore
            simp only [List.length_append, List.length_singleton] at this
            omega
          rw [if_neg hhere]
          refine ⟨entries, ?_, hbody, ?_⟩
          · rwa [List.getElem?_append_left hlt] at hentries ⊢
          · intro herror
            rcases hpins herror with hpinned | ⟨hsame, -⟩
            · exact Or.inl hpinned
            · exact absurd hsame.symm hhere
      newest := by
        intro _
        obtain ⟨segment, hsegment, hlength⟩ := h.newest (by simp)
        exact ⟨_, List.mem_map_of_mem hsegment, by
          simpa [apply_ite Segment.index] using hlength⟩
      current := by
        simp [Sink.write, hindex]
      marked := by
        intro other hother hmark segment hsegment hhere
        cases hother
        obtain ⟨before, hbefore, rfl⟩ := List.mem_map.mp hsegment
        have hbeforeIndex : before.index = active.index := by
          simpa [apply_ite Segment.index, Sink.write] using hhere
        have := h.marked active rfl hmark before hbefore hbeforeIndex
        simpa [hbeforeIndex] using this }

/-- The marker is written: the error in the open segment is in a pinned one. -/
theorem pinned {active : Sink} (h : Chronicle written segments (some active)) :
    Chronicle written (pinSegment active segments) (some active.pin) := by
  have hindexes : ∀ before : Segment,
      (if before.index = active.index then { before with pinned := true }
        else before).index = before.index := by
    intro before
    split <;> rfl
  by_cases hmark : active.pinned = true
  · have hsame : pinSegment active segments = segments := if_pos hmark
    rw [hsame]
    exact
      { ordered := h.ordered
        whole := by
          intro segment hsegment
          obtain ⟨entries, hentries, hbody, hpins⟩ := h.error_held hsegment
          refine ⟨entries, hentries, hbody, fun herror => Or.inl ?_⟩
          rcases hpins herror with hpinned | ⟨hhere, -⟩
          · exact hpinned
          · exact h.marked active rfl hmark segment hsegment hhere.symm
        newest := h.newest
        current := by simpa [Sink.pin] using h.current
        marked := by
          intro other hother _ segment hsegment hhere
          cases hother
          exact h.marked active rfl hmark segment hsegment hhere }
  · have hpin : pinSegment active segments = updateSegment active.index
        (fun segment => { segment with pinned := true }) segments :=
      if_neg hmark
    rw [hpin]
    exact
      { ordered := by
          refine List.pairwise_map.mpr (h.ordered.imp fun hlt => ?_)
          simpa [hindexes] using hlt
        whole := by
          intro segment hsegment
          obtain ⟨before, hbefore, rfl⟩ := List.mem_map.mp hsegment
          obtain ⟨entries, hentries, hbody, hpins⟩ := h.error_held hbefore
          refine ⟨entries, by rwa [hindexes], ?_, fun herror => Or.inl ?_⟩
          · split <;> exact hbody
          · by_cases hhere : before.index = active.index
            · simp [hhere]
            · rcases hpins herror with hpinned | ⟨hsame, -⟩
              · simpa [hhere] using hpinned
              · exact absurd hsame.symm hhere
        newest := by
          intro hwritten
          obtain ⟨segment, hsegment, hlength⟩ := h.newest hwritten
          exact ⟨_, List.mem_map_of_mem hsegment, by rwa [hindexes]⟩
        current := by simpa [Sink.pin] using h.current
        marked := by
          intro other hother _ segment hsegment hhere
          cases hother
          obtain ⟨before, -, rfl⟩ := List.mem_map.mp hsegment
          rw [hindexes] at hhere
          simp [show before.index = active.index from hhere] }

/-- A sink that has seen no error since its last marker may be let go. -/
theorem closed {active : Sink} (h : Chronicle written segments (some active))
    (hsettled : active.sawError = false) : Chronicle written segments none where
  ordered := h.ordered
  whole := by
    intro segment hsegment
    obtain ⟨entries, hentries, hbody, hpins⟩ := h.error_held hsegment
    refine ⟨entries, hentries, hbody, fun herror => Or.inl ?_⟩
    rcases hpins herror with hpinned | ⟨-, hsaw⟩
    · exact hpinned
    · simp [hsettled] at hsaw
  newest := h.newest
  current := by simp
  marked := by simp

/-- A segment that is full is left, with its marker if it has an error. -/
theorem rolled {active : Sink} (h : Chronicle written segments (some active)) :
    Chronicle written
      (if active.sawError then pinSegment active segments else segments)
      none := by
  split
  · exact h.pinned.closed rfl
  · rename_i hsaw
    exact h.closed (by simpa using hsaw)

/-- A segment is open to be written to, opened for it or open before. -/
theorem ready (h : Chronicle written segments sink) (limits : Limits) :
    ∃ written', written'.flatten = written.flatten ∧ Chronicle written'
      (if sink.isNone then openSegments limits segments else segments)
      (some (sink.getD (Sink.opened limits segments))) := by
  cases sink with
  | none => exact h.opened limits
  | some active => exact ⟨written, rfl, h⟩

/-- The lines of a batch are written one after the other. -/
theorem wroteBatch (limits : Limits) (batch : List Entry) {written : List (List Entry)}
    {segments : List Segment} {sink : Option Sink}
    (h : Chronicle written segments sink) :
    ∃ written', written'.flatten = written.flatten ++ batch ∧
      Chronicle written' (writeBatch limits batch (segments, sink)).1
        (writeBatch limits batch (segments, sink)).2 := by
  induction batch generalizing written segments sink with
  | nil => exact ⟨written, by simp, h⟩
  | cons entry rest ih =>
      obtain ⟨opened, hopened, hactive⟩ := h.ready limits
      obtain ⟨written', hflat, hwrote⟩ := hactive.wrote entry
      rw [hopened] at hflat
      unfold writeBatch
      dsimp only
      split
      · obtain ⟨final, hfinal, hchronicle⟩ := ih hwrote.rolled
        exact ⟨final, by rw [hfinal, hflat]; simp, hchronicle⟩
      · obtain ⟨final, hfinal, hchronicle⟩ := ih hwrote
        exact ⟨final, by rw [hfinal, hflat]; simp, hchronicle⟩

end Chronicle

/-- A launch between two batches: no error waits for its marker. -/
structure Settled (written : List (List Entry)) (segments : List Segment)
    (sink : Option Sink) : Prop extends Chronicle written segments sink where
  quiet : ∀ active, sink = some active → active.sawError = false

/-- At the end of a batch the marker of an error is written. -/
theorem Chronicle.settle {written : List (List Entry)} {segments : List Segment}
    {sink : Option Sink} (h : Chronicle written segments sink) :
    Settled written (settleBatch (segments, sink)).1
      (settleBatch (segments, sink)).2 := by
  cases sink with
  | none => exact ⟨h, by simp [settleBatch]⟩
  | some active =>
      by_cases hsaw : active.sawError = true
      · rw [settleBatch, if_pos hsaw]
        exact ⟨h.pinned, by simp [Sink.pin]⟩
      · rw [settleBatch, if_neg hsaw]
        exact ⟨h, by simpa using hsaw⟩

namespace Settled

variable {written : List (List Entry)} {segments : List Segment}
  {sink : Option Sink}

theorem empty : Settled [] [] none := ⟨Chronicle.empty, by simp⟩

/-- The sink may be let go at any time. -/
theorem closed (h : Settled written segments sink) :
    Settled written segments none := by
  cases sink with
  | none => exact h
  | some active =>
      exact ⟨h.toChronicle.closed (h.quiet active rfl), by simp⟩

/-- An error in a kept segment has pinned it. -/
theorem error_pinned (h : Settled written segments sink) {segment : Segment}
    (hsegment : segment ∈ segments) {entries : List Entry}
    (hentries : written[segment.index]? = some entries)
    (herror : ∃ entry ∈ entries, entry.pins = true) :
    segment.pinned = true := by
  obtain ⟨held, hheld, -, hpins⟩ := h.closed.whole segment hsegment
  rw [hentries, Option.some.injEq] at hheld
  simpa using hpins (hheld ▸ herror)

theorem wroteBatch (h : Settled written segments sink) (limits : Limits)
    (batch : List Entry) :
    ∃ written', written'.flatten = written.flatten ++ batch ∧
      Settled written'
        (settleBatch (writeBatch limits batch (segments, sink))).1
        (settleBatch (writeBatch limits batch (segments, sink))).2 := by
  obtain ⟨written', hflat, hwrote⟩ := h.toChronicle.wroteBatch limits batch
  exact ⟨written', hflat, hwrote.settle⟩

end Settled

section Draining

/-- The sink that the writer goes on with: none, if it is told to open anew. -/
def Store.liveSink (store : Store) : Option Sink :=
  if store.queue.generation ≠ store.generation then none else store.sink

def findLaunch (id : ℕ) (root : List Launch) : Option Launch :=
  root.find? fun launch => launch.millis = id

theorem findLaunch_updateLaunch (id other : ℕ)
    (update : List Segment → List Segment) (root : List Launch) :
    findLaunch id (updateLaunch other update root) =
      if id = other then
        (findLaunch id root).map fun launch =>
          { launch with segments := update launch.segments }
      else findLaunch id root := by
  induction root with
  | nil => simp [findLaunch, updateLaunch]
  | cons launch root ih =>
      simp only [findLaunch, updateLaunch, List.map_cons, List.find?_cons] at ih ⊢
      by_cases hhere : launch.millis = other <;>
        by_cases hid : launch.millis = id <;>
        by_cases hother : id = other <;> simp_all

theorem findLaunch_filter (id : ℕ) (kept : ℕ → Bool) (root : List Launch) :
    findLaunch id (root.filter fun launch => kept launch.millis) =
      if kept id then findLaunch id root else none := by
  induction root with
  | nil => simp [findLaunch]
  | cons launch root ih =>
      simp only [findLaunch, List.filter_cons, List.find?_cons] at ih ⊢
      by_cases hid : launch.millis = id <;>
        by_cases hkept : kept launch.millis = true <;> simp_all

theorem findLaunch_filter_cases (id : ℕ) (kept : ℕ → Bool) (root : List Launch) :
    findLaunch id (root.filter fun launch => kept launch.millis)
        = findLaunch id root ∨
      findLaunch id (root.filter fun launch => kept launch.millis) = none := by
  rw [findLaunch_filter]
  split
  · exact Or.inl rfl
  · exact Or.inr rfl

/-- What the live launch holds once all that is pending is written. -/
def drained (state : State) (dir : Launch) : List Segment × Option Sink :=
  settleBatch (writeBatch state.store.limits state.store.queue.pending
    (dir.segments, state.store.liveSink))

theorem drain_eq {state : State} {id : ℕ} {dir : Launch}
    (hlive : state.store.launch = some id)
    (hdir : findLaunch id state.root = some dir)
    (hpending : state.store.queue.pending ≠ []) :
    drain state =
      { root := updateLaunch id (fun _ => (drained state dir).1) state.root
        store :=
          { state.store with
            queue := { state.store.queue with pending := [] }
            generation := state.store.queue.generation
            sink := (drained state dir).2 } } := by
  have hfound : (state.root.find? fun launch => launch.millis = id)
      = some dir := hdir
  simp only [drain, hlive, hpending, if_false, hfound, drained, Store.liveSink]

/-- A batch is written behind what the live launch holds, and nowhere else. -/
theorem drain_live {state : State} {id : ℕ} {dir : Launch}
    {written : List (List Entry)} (hlive : state.store.launch = some id)
    (hdir : findLaunch id state.root = some dir)
    (hsettled : Settled written dir.segments state.store.liveSink) :
    ∃ dir' written', findLaunch id (drain state).root = some dir' ∧
      Settled written' dir'.segments (drain state).store.liveSink ∧
      written'.flatten = written.flatten ++ state.store.queue.pending := by
  by_cases hpending : state.store.queue.pending = []
  · have hsame : drain state = state := by simp [drain, hlive, hpending]
    rw [hsame]
    exact ⟨dir, written, hdir, hsettled, by simp [hpending]⟩
  · obtain ⟨written', hflat, hwrote⟩ := hsettled.wroteBatch state.store.limits
      state.store.queue.pending
    refine ⟨{ dir with segments := (drained state dir).1 }, written', ?_, ?_,
      hflat⟩
    · rw [drain_eq hlive hdir hpending, findLaunch_updateLaunch, if_pos rfl, hdir]
      rfl
    · rw [drain_eq hlive hdir hpending]
      simpa [Store.liveSink, drained] using hwrote

/-- Where its directory is gone, the writer leaves the disk as it is. -/
theorem drain_missing {state : State} {id : ℕ}
    (hlive : state.store.launch = some id)
    (hmissing : findLaunch id state.root = none) :
    findLaunch id (drain state).root = none := by
  have hfound : (state.root.find? fun launch => launch.millis = id) = none :=
    hmissing
  by_cases hpending : state.store.queue.pending = []
  · simpa [drain, hlive, hpending] using hmissing
  · simpa [drain, hlive, hpending, hfound] using hmissing

theorem drain_queue (state : State) :
    (drain state).store.queue.running = state.store.queue.running ∧
      (drain state).store.queue.dropped = state.store.queue.dropped ∧
      (state.store.launch.isSome → (drain state).store.queue.pending = []) := by
  unfold drain
  split
  · rename_i hlaunch
    simp [hlaunch]
  · split
    · rename_i hempty
      simp [hempty]
    · dsimp only
      split <;> simp

theorem drain_generations {state : State}
    (h : state.store.generation ≤ state.store.queue.generation) :
    (drain state).store.generation ≤ (drain state).store.queue.generation := by
  unfold drain
  split
  · exact h
  · split
    · exact h
    · dsimp only
      split <;> exact le_rfl

end Draining

section Elsewhere

/-- Launches of another name are left alone by a batch, or by opening anew. -/
theorem findLaunch_drain {state : State} {id : ℕ}
    (hlive : state.store.launch ≠ some id) :
    findLaunch id (drain state).root = findLaunch id state.root := by
  unfold drain
  split
  · rfl
  · rename_i live hlaunch
    have hne : id ≠ live := fun h => hlive (by rw [hlaunch, h])
    split
    · rfl
    · dsimp only
      split
      · rfl
      · rw [findLaunch_updateLaunch, if_neg hne]

theorem drain_launch (state : State) :
    (drain state).store.launch = state.store.launch := by
  unfold drain
  split
  · rfl
  · split
    · rfl
    · dsimp only
      split <;> rfl

theorem findLaunch_reopened {state : State} {id live : ℕ} (hne : id ≠ live) :
    findLaunch id (reopened live state).root = findLaunch id state.root := by
  simp only [reopened]
  rw [findLaunch_updateLaunch, if_neg hne]

theorem findLaunch_createLaunch {id millis : ℕ} (hne : id ≠ millis)
    (root : List Launch) :
    findLaunch id (createLaunch millis root) = findLaunch id root := by
  unfold createLaunch
  split
  · rfl
  · cases hfound : findLaunch id root with
    | none =>
        simp only [findLaunch] at hfound ⊢
        simp [List.find?_append, hfound, Ne.symm hne]
    | some dir =>
        simp only [findLaunch] at hfound ⊢
        simp [List.find?_append, hfound]

/-- Pruning takes whole launches away, by their names. -/
theorem pruneLaunches_eq (limits : Limits) (root : List Launch) :
    ∃ kept : ℕ → Bool, pruneLaunches limits root
      = root.filter fun launch => kept launch.millis :=
  ⟨fun millis => decide (millis ∉ _), rfl⟩

theorem enqueue_root (entries : List Entry) (state : State) :
    (enqueue entries state).root = state.root := by
  unfold enqueue
  split <;> rfl

theorem enqueue_launch (entries : List Entry) (state : State) :
    (enqueue entries state).store.launch = state.store.launch := by
  unfold enqueue
  split <;> rfl

/-- A launch that is not live stays as it is, or goes as a whole. -/
theorem apply_elsewhere {offset : ℤ} {state : State} {id : ℕ} {event : Event}
    (hlive : state.store.launch ≠ some id)
    (hevent : ∀ now, event = .install now → now.millis ≠ id) :
    (apply offset state event).store.launch ≠ some id ∧
      (findLaunch id (apply offset state event).root = findLaunch id state.root ∨
        findLaunch id (apply offset state event).root = none) := by
  cases event with
  | renew limits => exact ⟨by simp [apply, renew], Or.inl rfl⟩
  | install now =>
      have hne := hevent now rfl
      simp only [apply, install]
      split
      · exact ⟨hlive, Or.inl rfl⟩
      · obtain ⟨kept, hkept⟩ := pruneLaunches_eq state.store.limits
          (createLaunch now.millis state.root)
        refine ⟨by simpa using hne, ?_⟩
        have hcases := findLaunch_filter_cases id kept
          (createLaunch now.millis state.root)
        rwa [← hkept, findLaunch_createLaunch (Ne.symm hne)] at hcases
  | record call =>
      exact ⟨by rwa [apply, record, enqueue_launch],
        Or.inl (by rw [apply, record, enqueue_root])⟩
  | write line =>
      exact ⟨by rwa [apply, write, enqueue_launch],
        Or.inl (by rw [apply, write, enqueue_root])⟩
  | drain =>
      exact ⟨by rwa [apply, drain_launch], Or.inl (findLaunch_drain hlive)⟩
  | delete other =>
      simp only [apply, delete]
      split
      · exact ⟨hlive, Or.inl rfl⟩
      · rename_i live hlaunch
        have hne : id ≠ live := fun h => hlive (by rw [hlaunch, h])
        split
        · split
          · refine ⟨?_, Or.inl ?_⟩
            · simpa [reopened, drain_launch] using hlive
            · rw [findLaunch_reopened hne, findLaunch_drain hlive]
          · refine ⟨by simpa [drain_launch] using hlive, ?_⟩
            have hkept := findLaunch_filter_cases id
              (fun millis => decide (millis ≠ other)) (drain state).root
            rwa [findLaunch_drain hlive] at hkept
        · exact ⟨hlive, Or.inl rfl⟩
  | clear =>
      simp only [apply, clear]
      split
      · exact ⟨hlive, Or.inl rfl⟩
      · rename_i live hlaunch
        have hne : id ≠ live := fun h => hlive (by rw [hlaunch, h])
        refine ⟨by simpa [reopened, drain_launch] using hlive, ?_⟩
        have hkept := findLaunch_filter_cases id
          (fun millis => decide (millis = live)) (reopened live (drain state)).root
        rwa [findLaunch_reopened hne, findLaunch_drain hlive] at hkept

/-- A launch that is over is left as it was for as long as it is there. -/
theorem run_elsewhere {offset : ℤ} {id : ℕ} {events : List Event} {state : State}
    (hlive : state.store.launch ≠ some id)
    (hevents : ∀ event ∈ events, ∀ now, event = .install now → now.millis ≠ id) :
    (run offset state events).store.launch ≠ some id ∧
      (findLaunch id (run offset state events).root = findLaunch id state.root ∨
        findLaunch id (run offset state events).root = none) := by
  induction events generalizing state with
  | nil => exact ⟨hlive, Or.inl rfl⟩
  | cons event events ih =>
      obtain ⟨hlive', hstep⟩ := @apply_elsewhere offset state id event hlive
        (hevents event List.mem_cons_self)
      obtain ⟨hend, hrun⟩ := ih hlive' fun other hother =>
        hevents other (List.mem_cons_of_mem _ hother)
      refine ⟨hend, ?_⟩
      rcases hrun with hsame | hgone
      · rcases hstep with hkept | hremoved
        · exact Or.inl (hsame.trans hkept)
        · exact Or.inr (hsame.trans hremoved)
      · exact Or.inr hgone

end Elsewhere

section Names

/-- No two launches have the same name. -/
def Distinct (root : List Launch) : Prop := (root.map Launch.millis).Nodup

theorem Distinct.filter {root : List Launch} (h : Distinct root)
    (kept : Launch → Bool) : Distinct (root.filter kept) :=
  List.Nodup.sublist (List.filter_sublist.map Launch.millis) h

theorem Distinct.updateLaunch {root : List Launch} (h : Distinct root) (millis : ℕ)
    (update : List Segment → List Segment) :
    Distinct (updateLaunch millis update root) := by
  have hsame : (LogStore.updateLaunch millis update root).map Launch.millis
      = root.map Launch.millis := by
    simp [LogStore.updateLaunch, apply_ite Launch.millis]
  rw [Distinct, hsame]
  exact h

theorem Distinct.createLaunch {root : List Launch} (h : Distinct root)
    (millis : ℕ) : Distinct (createLaunch millis root) := by
  unfold LogStore.createLaunch
  split
  · exact h
  · rename_i hnew
    rw [Distinct, List.map_append, List.nodup_append]
    refine ⟨h, List.nodup_singleton _, ?_⟩
    simpa using hnew

theorem Distinct.drain {state : State} (h : Distinct state.root) :
    Distinct (drain state).root := by
  unfold LogStore.drain
  split
  · exact h
  · rename_i live hlive
    split
    · exact h
    · dsimp only
      split
      · exact h
      · rename_i dir hdir
        exact h.updateLaunch live fun _ => (drained state dir).1

theorem Distinct.reopened {state : State} (h : Distinct state.root) (live : ℕ) :
    Distinct (reopened live state).root :=
  h.updateLaunch live fun _ => []

theorem Distinct.apply {offset : ℤ} {state : State} (h : Distinct state.root)
    (event : Event) : Distinct (apply offset state event).root := by
  cases event with
  | renew limits => exact h
  | install now =>
      simp only [LogStore.apply, install]
      split
      · exact h
      · exact (h.createLaunch _).filter _
  | record call => rwa [LogStore.apply, record, enqueue_root]
  | write line => rwa [LogStore.apply, write, enqueue_root]
  | drain => exact h.drain
  | delete id =>
      simp only [LogStore.apply, delete]
      split
      · exact h
      · split
        · split
          · exact h.drain.reopened _
          · show Distinct (List.filter _ _)
            exact h.drain.filter _
        · exact h
  | clear =>
      simp only [LogStore.apply, clear]
      split
      · exact h
      · show Distinct (List.filter _ _)
        exact (h.drain.reopened _).filter _

theorem Distinct.run {offset : ℤ} {state : State} (h : Distinct state.root)
    (events : List Event) : Distinct (run offset state events).root := by
  induction events generalizing state with
  | nil => exact h
  | cons event events ih => exact ih (h.apply event)

/-- The one launch of a name that is there. -/
theorem findLaunch_eq_some {root : List Launch} (h : Distinct root) {id : ℕ}
    {dir : Launch} :
    findLaunch id root = some dir ↔ dir ∈ root ∧ dir.millis = id := by
  constructor
  · intro hfound
    exact ⟨List.mem_of_find?_eq_some hfound, by
      simpa using List.find?_some hfound⟩
  · rintro ⟨hmem, hid⟩
    cases hfound : findLaunch id root with
    | none => simpa [hid] using List.find?_eq_none.mp hfound dir hmem
    | some other =>
        have hother : other ∈ root := List.mem_of_find?_eq_some hfound
        have hsame : other.millis = id := by simpa using List.find?_some hfound
        rw [List.inj_on_of_nodup_map h hother hmem (hsame.trans hid.symm)]

end Names

end LogStore

end Bridgething
