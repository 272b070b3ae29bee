/-
The log read back: the tail of one launch, its lines dated in the calendar year
that the launch began in.
-/
import Bridgething.Log.Chronicle

namespace Bridgething

namespace LogStore

open Text (lines dropReturn)

section Reading

def archiveDirs (id : ℕ) (state : State) : List Launch :=
  if state.store.launch.isNone then []
  else (launchDirs state.root).filter fun dir => dir.millis = id

/-- One raw line more, the oldest one given up where there are enough. -/
def readLine (offset thisYear : ℤ) (year : Option ℤ) (limit : ℕ)
    (held : List LogLine × ℕ) (raw : List Char) : List LogLine × ℕ :=
  let kept := if held.1.length = limit then held.1.tail else held.1
  let line := projectLine offset thisYear raw year held.2
  (kept ++ [line.1], line.2)

def read (offset thisYear : ℤ) (id limit : ℕ) (state : State) : List LogLine :=
  if limit = 0 then []
  else
    let flushed := drain state
    let started := if id ≤ MAX_MILLIS then some id else none
    let raws := (archiveDirs id flushed).flatMap fun dir =>
      (sortedSegments dir.segments).flatMap fun segment => lines segment.body
    (raws.foldl (readLine offset thisYear (started.map (yearAt offset)) limit)
      ([], started.getD 0)).1

end Reading

/-- The lines of a message, as they are to be read. -/
def Call.lines (call : Call) : List LogLine :=
  (call.message.splitOn '\n').map fun part =>
    ⟨call.now.millis, call.level, call.label, dropReturn part⟩

def Event.calls : Event → List Call
  | .record call => [call]
  | _ => []

/-- A launch as it may come about: what happened before it, its store, its start,
the calls within it and the batches of its writer, and what came after it. -/
structure Session where
  before : List Event
  limits : Limits
  now : Instant
  within : List Event
  later : List Event

namespace Session

def calls (session : Session) : List Call := session.within.flatMap Event.calls

/-- The message lines of the launch, in order. -/
def messages (session : Session) : List LogLine :=
  session.calls.flatMap Call.lines

def entries (offset : ℤ) (session : Session) : List Entry :=
  session.calls.flatMap (Call.entries offset)

def found (offset : ℤ) (session : Session) : State :=
  run offset { store := { limits := {} } } session.before

def begun (offset : ℤ) (session : Session) : State :=
  run offset (session.found offset)
    [.renew session.limits, .install session.now]

/-- The launch with all its lines written, as a read would have them. -/
def ended (offset : ℤ) (session : Session) : State :=
  drain (run offset (session.begun offset) session.within)

def final (offset : ℤ) (session : Session) : State :=
  run offset (session.ended offset) session.later

theorem final_of_later_nil {offset : ℤ} {session : Session}
    (hlater : session.later = []) :
    session.final offset = session.ended offset := by
  rw [final, hlater]
  rfl

/-- A launch of its own name, whose calls have plain labels, of which nothing is
dropped or rotated out, read by its own store or by a later one. -/
structure Whole (offset : ℤ) (session : Session) : Prop where
  fresh : ∀ dir ∈ (session.found offset).root,
    dir.millis ≠ session.now.millis
  recorded : ∀ event ∈ session.within, event = .drain ∨
    ∃ call, event = .record call ∧ PlainLabel call.label
  accepted : (session.ended offset).store.queue.dropped = 0
  kept : ∃ dir ∈ (session.final offset).root,
    dir.millis = session.now.millis ∧
      dir.segments.map Segment.index = List.range dir.segments.length
  later : session.later = [] ∨
    (∃ limits rest, session.later = .renew limits :: rest) ∧
      ∀ event ∈ session.later, ∀ now, event = .install now →
        now.millis ≠ session.now.millis
  reader : (session.final offset).store.launch.isSome

end Session

/-- Lines are dated right in the year that the launch began in, while it has four
digits; after that, only those of its first millisecond. -/
def Dated (offset : ℤ) (started now : ℕ) : Prop :=
  (yearAt offset started ≤ 9999 ∧ yearAt offset now = yearAt offset started) ∨
    (9999 < yearAt offset started ∧ now = started)

instance (offset : ℤ) (started now : ℕ) : Decidable (Dated offset started now) :=
  inferInstanceAs (Decidable (_ ∧ _ ∨ _ ∧ _))

section Projecting

/-- All lines of an archive projected, the time carried from one to the next. -/
def projectLines (offset thisYear : ℤ) (year : Option ℤ) :
    ℕ → List (List Char) → List LogLine
  | _, [] => []
  | carried, raw :: raws =>
      (projectLine offset thisYear raw year carried).1
        :: projectLines offset thisYear year
          (projectLine offset thisYear raw year carried).2 raws

/-- The loop keeps the last of the lines. -/
theorem foldl_readLine {offset thisYear : ℤ} {year : Option ℤ} {limit : ℕ}
    (hlimit : limit ≠ 0) (raws : List (List Char)) (before : List LogLine)
    (carried : ℕ) :
    (raws.foldl (readLine offset thisYear year limit)
        (before.rtake limit, carried)).1
      = (before ++ projectLines offset thisYear year carried raws).rtake
        limit := by
  induction raws generalizing before carried with
  | nil => simp [projectLines]
  | cons raw raws ih =>
      have hstep : readLine offset thisYear year limit
          (before.rtake limit, carried) raw
          = ((before ++ [(projectLine offset thisYear raw year carried).1]).rtake
              limit,
            (projectLine offset thisYear raw year carried).2) := by
        simp only [readLine, List.rtake, List.length_append,
          List.length_singleton, List.length_drop]
        split
        · rename_i hfull
          rw [List.tail_drop, List.drop_append_of_le_length (by omega)]
          congr 3
          omega
        · rename_i hroom
          have hbefore : before.length - limit = 0 := by omega
          have hafter : before.length + 1 - limit = 0 := by omega
          rw [hbefore, hafter, List.drop_zero, List.drop_zero]
      rw [List.foldl_cons, hstep, ih, projectLines, List.append_assoc,
        List.singleton_append]

/-- The time carried on stays one that is dated right, and a line's own time is
given back exactly if it is such a one. -/
theorem stamped_dated {offset thisYear : ℤ} {started now carried : ℕ}
    (hcarried : Dated offset started carried) :
    Dated offset started ((stampMillis offset thisYear (stamp offset now)
        (some (yearAt offset started))).getD carried) ∧
      ((stampMillis offset thisYear (stamp offset now)
          (some (yearAt offset started))).getD carried = now ↔
        Dated offset started now) := by
  have hown : yearAt offset started ≤ 9999 →
      yearAt offset now = yearAt offset started →
      stampMillis offset thisYear (stamp offset now)
        (some (yearAt offset started)) = some now := by
    intro hyear hsame
    rw [← hsame] at hyear ⊢
    exact stampMillis_own offset now thisYear hyear
  cases hstamp : stampMillis offset thisYear (stamp offset now)
      (some (yearAt offset started)) with
  | some ts =>
      obtain ⟨hyear, hts⟩ := stampMillis_year offset now hstamp
      refine ⟨Or.inl ⟨hyear, hts⟩, ?_⟩
      constructor
      · rintro rfl
        exact Or.inl ⟨hyear, hts⟩
      · rintro (⟨-, hsame⟩ | ⟨hlate, -⟩)
        · rw [hown hyear hsame, Option.some.injEq] at hstamp
          exact hstamp.symm
        · exact absurd hyear hlate.not_ge
  | none =>
      refine ⟨hcarried, ?_⟩
      constructor
      · rintro rfl
        exact hcarried
      · rintro (⟨hyear, hsame⟩ | ⟨hlate, rfl⟩)
        · rw [hown hyear hsame] at hstamp
          cases hstamp
        · rcases hcarried with ⟨hyear, -⟩ | ⟨-, hstarted⟩
          · exact absurd hyear hlate.not_ge
          · exact hstarted

/-- One line of one call: what was written, and how it is to be read. -/
def pieces (calls : List Call) : List (Call × List Char) :=
  calls.flatMap fun call => (call.message.splitOn '\n').map (Prod.mk call)

def pieceEntry (offset : ℤ) (piece : Call × List Char) : Entry :=
  ⟨linePrefix offset piece.1.now.millis piece.1.pid piece.1.thread piece.1.level
    piece.1.label ++ piece.2, piece.1.level.pins⟩

def pieceLine (piece : Call × List Char) : LogLine :=
  ⟨piece.1.now.millis, piece.1.level, piece.1.label, dropReturn piece.2⟩

theorem entries_eq (offset : ℤ) (calls : List Call) :
    calls.flatMap (Call.entries offset)
      = (pieces calls).map (pieceEntry offset) := by
  simp only [pieces, List.map_flatMap, List.map_map]
  rfl

theorem lines_eq (calls : List Call) :
    calls.flatMap Call.lines = (pieces calls).map pieceLine := by
  simp only [pieces, List.map_flatMap, List.map_map]
  rfl

/-- Each line read back is the one recorded exactly if that is dated right. -/
theorem projectLines_recorded {offset thisYear : ℤ} {started carried : ℕ}
    {recorded : List (Call × List Char)}
    (hlabels : ∀ piece ∈ recorded, PlainLabel piece.1.label)
    (hcarried : Dated offset started carried) :
    List.Forall₂
      (fun got want => got = want ↔ Dated offset started want.tsUnixMs)
      (projectLines offset thisYear (some (yearAt offset started)) carried
        (recorded.map fun piece => dropReturn (pieceEntry offset piece).line))
      (recorded.map pieceLine) := by
  induction recorded generalizing carried with
  | nil => exact List.Forall₂.nil
  | cons piece recorded ih =>
      obtain ⟨hnext, hsame⟩ := @stamped_dated offset thisYear started
        piece.1.now.millis carried hcarried
      have hpiece := projectLine_written offset piece.1.now.millis piece.1.pid
        piece.1.thread piece.1.level (hlabels piece List.mem_cons_self) piece.2
        thisYear (some (yearAt offset started)) carried
      rw [List.map_cons, List.map_cons, projectLines, pieceEntry, hpiece]
      refine List.Forall₂.cons ?_ (ih (fun other hother =>
        hlabels other (List.mem_cons_of_mem _ hother)) hnext)
      simpa [pieceLine] using hsame

/-- Two lists that agree at each place exactly if a condition holds there. -/
theorem eq_iff_of_forall₂ {got want : List LogLine} {right : LogLine → Prop}
    (h : List.Forall₂ (fun g w => g = w ↔ right w) got want) :
    got = want ↔ ∀ line ∈ want, right line := by
  induction h with
  | nil => simp
  | cons hhead _ ih => rw [List.cons.injEq, hhead, ih, List.forall_mem_cons]

theorem rtake_forall₂ {R : LogLine → LogLine → Prop} {got want : List LogLine}
    (h : List.Forall₂ R got want) (limit : ℕ) :
    List.Forall₂ R (got.rtake limit) (want.rtake limit) := by
  rw [List.rtake, List.rtake, h.length_eq]
  exact List.forall₂_drop _ h

end Projecting

section Archive

/-- The kept segments of a launch of which nothing is gone give back its lines. -/
theorem Settled.lines_kept {written : List (List Entry)} {segments : List Segment}
    {sink : Option Sink} (h : Settled written segments sink)
    (hkept : segments.map Segment.index = List.range segments.length)
    (hlines : ∀ entry ∈ written.flatten, '\n' ∉ entry.line) :
    ((sortedSegments segments).flatMap fun segment => lines segment.body)
      = written.flatten.map fun entry => dropReturn entry.line := by
  have hindex : ∀ i (hi : i < segments.length), (segments.get ⟨i, hi⟩).index = i := by
    intro i hi
    have hat := congrArg (fun indexes => indexes[i]?) hkept
    simpa [hi] using hat
  have hlength : segments.length = written.length := by
    apply Nat.le_antisymm
    · by_contra hlt
      have hin : written.length < segments.length := by omega
      have := h.index_lt (List.get_mem segments ⟨written.length, hin⟩)
      rw [hindex] at this
      omega
    · by_cases hwritten : written = []
      · simp [hwritten]
      · obtain ⟨segment, hsegment, hlast⟩ := h.newest hwritten
        obtain ⟨i, hi⟩ := List.get_of_mem hsegment
        have := hindex i i.2
        rw [hi] at this
        omega
  have hbodies : segments.map Segment.body = written.map textOf := by
    apply List.ext_getElem (by simpa using hlength)
    intro i hi hi'
    rw [List.length_map] at hi hi'
    obtain ⟨entries, hentries, hbody, -⟩ :=
      h.whole (segments.get ⟨i, hi⟩) (List.get_mem segments ⟨i, hi⟩)
    rw [hindex, List.getElem?_eq_getElem hi', Option.some.injEq] at hentries
    simpa [hentries] using hbody
  have htext : ∀ entries ∈ written, lines (textOf entries)
      = entries.map fun entry => dropReturn entry.line := by
    intro entries hentries
    have hwritten := @Text.lines_written (entries.map Entry.line) (by
      intro line hline
      obtain ⟨entry, hentry, rfl⟩ := List.mem_map.mp hline
      exact hlines entry (List.mem_flatten.mpr ⟨entries, hentries, hentry⟩))
    simpa [textOf, List.flatMap_map, Function.comp_def] using hwritten
  rw [sortedSegments_of_ordered h.ordered, ← List.flatMap_map, hbodies,
    List.flatMap_map, List.map_flatten, ← List.flatMap_def]
  exact List.flatMap_congr htext

theorem archiveDirs_eq {state : State} {id : ℕ} {dir : Launch}
    (hreader : state.store.launch.isSome) (hdistinct : Distinct state.root)
    (hdir : findLaunch id state.root = some dir) :
    archiveDirs id state = [dir] := by
  have hnone : state.store.launch.isNone = false := by
    simpa using hreader
  have hperm : (launchDirs state.root).Perm state.root := List.mergeSort_perm _ _
  obtain ⟨hmem, hid⟩ := (findLaunch_eq_some hdistinct).mp hdir
  have honly : state.root.filter (fun other => other.millis = id) = [dir] := by
    apply List.perm_singleton.mp
    rw [List.perm_ext_iff_of_nodup
      ((List.Nodup.of_map _ hdistinct).filter _) (List.nodup_singleton _)]
    intro other
    rw [List.mem_filter, List.mem_singleton, decide_eq_true_iff]
    constructor
    · rintro ⟨hother, hsame⟩
      exact List.inj_on_of_nodup_map hdistinct hother hmem (hsame.trans hid.symm)
    · rintro rfl
      exact ⟨hmem, hid⟩
  rw [archiveDirs, hnone]
  simp only [Bool.false_eq_true, if_false]
  have hfiltered := hperm.filter fun other => decide (other.millis = id)
  rw [honly] at hfiltered
  exact List.perm_singleton.mp hfiltered

end Archive

section Writing

/-- The live launch while its lines are recorded: as long as none was dropped, all
of them are in its segments or pending. -/
structure Writing (id : ℕ) (entries : List Entry) (state : State) : Prop where
  live : state.store.launch = some id
  running : state.store.queue.running = true
  held : ∀ dir, findLaunch id state.root = some dir →
    ∃ written, Settled written dir.segments state.store.liveSink ∧
      (state.store.queue.dropped = 0 →
        written.flatten ++ state.store.queue.pending = entries)

/-- Entries are pushed in order, or some are counted as dropped. -/
theorem foldl_push (limits : Limits) (entries : List Entry) (queue : Queue) :
    (entries.foldl (push limits) queue).running = queue.running ∧
      (entries.foldl (push limits) queue).generation = queue.generation ∧
      ((entries.foldl (push limits) queue).dropped = 0 → queue.dropped = 0 ∧
        (entries.foldl (push limits) queue).pending
          = queue.pending ++ entries) := by
  induction entries generalizing queue with
  | nil => simp
  | cons entry entries ih =>
      obtain ⟨hrunning, hgeneration, hdropped⟩ := ih (push limits queue entry)
      rw [List.foldl_cons]
      by_cases hfull : limits.queueCapacity ≤ queue.pending.length
      · simp only [push, hfull, if_true] at hrunning hgeneration hdropped ⊢
        refine ⟨hrunning, hgeneration, fun hzero => ?_⟩
        have := (hdropped hzero).1
        omega
      · simp only [push, hfull, if_false] at hrunning hgeneration hdropped ⊢
        exact ⟨hrunning, hgeneration, fun hzero => by
          simpa using hdropped hzero⟩

theorem Writing.enqueue {id : ℕ} {entries : List Entry} {state : State}
    (h : Writing id entries state) (more : List Entry) :
    Writing id (entries ++ more) (enqueue more state) := by
  obtain ⟨hrunning, hgeneration, hpushed⟩ :=
    foldl_push state.store.limits more state.store.queue
  have hstate : LogStore.enqueue more state =
      { state with
        store :=
          { state.store with
            queue := more.foldl (push state.store.limits)
              state.store.queue } } :=
    if_pos h.running
  rw [hstate]
  refine ⟨h.live, hrunning.trans h.running, fun dir hdir => ?_⟩
  obtain ⟨written, hsettled, hall⟩ := h.held dir hdir
  refine ⟨written, ?_, fun hzero => ?_⟩
  · simpa [Store.liveSink, hgeneration] using hsettled
  · obtain ⟨hbefore, hpending⟩ := hpushed hzero
    dsimp only
    rw [hpending, ← List.append_assoc, hall hbefore]

theorem Writing.drain {id : ℕ} {entries : List Entry} {state : State}
    (h : Writing id entries state) : Writing id entries (drain state) := by
  obtain ⟨hrunning, hdropped, hpending⟩ := drain_queue state
  refine ⟨(drain_launch state).trans h.live, hrunning.trans h.running,
    fun dir hdir => ?_⟩
  cases hbefore : findLaunch id state.root with
  | none =>
      rw [drain_missing h.live hbefore] at hdir
      cases hdir
  | some old =>
      obtain ⟨written, hsettled, hall⟩ := h.held old hbefore
      obtain ⟨dir', written', hdir', hsettled', hflat⟩ :=
        drain_live h.live hbefore hsettled
      rw [hdir', Option.some.injEq] at hdir
      subst hdir
      refine ⟨written', hsettled', fun hzero => ?_⟩
      rw [hflat, hpending (by simp [h.live]), List.append_nil]
      exact hall (hdropped.symm.trans hzero)

/-- The run lemma of a launch's own calls and batches. -/
theorem Writing.run {offset : ℤ} {id : ℕ} {within : List Event}
    {entries : List Entry} {state : State} (h : Writing id entries state)
    (hwithin : ∀ event ∈ within, event = .drain ∨
      ∃ call, event = .record call ∧ PlainLabel call.label) :
    Writing id
      (entries ++ (within.flatMap Event.calls).flatMap (Call.entries offset))
      (run offset state within) := by
  induction within generalizing entries state with
  | nil => simpa [LogStore.run] using h
  | cons event within ih =>
      have hrest := fun other hother =>
        hwithin other (List.mem_cons_of_mem event hother)
      rcases hwithin event List.mem_cons_self with rfl | ⟨call, rfl, -⟩
      · have hbatch := ih h.drain hrest
        simpa [Event.calls, LogStore.run, LogStore.apply] using hbatch
      · have hcall := ih (h.enqueue (call.entries offset)) hrest
        simpa [Event.calls, LogStore.run, LogStore.apply, record] using hcall

/-- A launch of a new name begins with nothing. -/
theorem writing_begun {offset : ℤ} {session : Session}
    (hfresh : ∀ dir ∈ (session.found offset).root,
      dir.millis ≠ session.now.millis) :
    Writing session.now.millis [] (session.begun offset) := by
  refine ⟨rfl, rfl, fun dir hdir => ?_⟩
  have hnew : createLaunch session.now.millis (session.found offset).root
      = (session.found offset).root ++ [⟨session.now.millis, []⟩] := by
    rw [createLaunch, if_neg]
    simpa using hfresh
  have hcreated : findLaunch session.now.millis
      (createLaunch session.now.millis (session.found offset).root)
        = some ⟨session.now.millis, []⟩ := by
    have hnone : findLaunch session.now.millis (session.found offset).root
        = none := by
      simpa [findLaunch] using hfresh
    rw [hnew]
    simp only [findLaunch] at hnone ⊢
    simp [List.find?_append, hnone]
  obtain ⟨kept, hkept⟩ := pruneLaunches_eq session.limits
    (createLaunch session.now.millis (session.found offset).root)
  have hroot : (session.begun offset).root
      = pruneLaunches session.limits
        (createLaunch session.now.millis (session.found offset).root) := rfl
  rw [hroot, hkept, findLaunch_filter, hcreated] at hdir
  split at hdir
  · cases hdir
    exact ⟨[], Settled.empty, fun _ => rfl⟩
  · cases hdir

end Writing

namespace Session.Whole

variable {offset : ℤ} {session : Session}

theorem distinct_final (session : Session) :
    Distinct (session.final offset).root := by
  have hempty : Distinct (State.root { store := { limits := {} } }) :=
    List.nodup_nil
  exact (((hempty.run session.before).run _).run session.within).drain.run _

theorem plain (h : session.Whole offset) : ∀ call ∈ session.calls,
    PlainLabel call.label := by
  intro call hcall
  obtain ⟨event, hevent, hmem⟩ := List.mem_flatMap.mp hcall
  rcases h.recorded event hevent with rfl | ⟨other, rfl, hlabel⟩
  · simp [Event.calls] at hmem
  · rw [Event.calls, List.mem_singleton] at hmem
    exact hmem ▸ hlabel

theorem writing (h : session.Whole offset) :
    Writing session.now.millis (session.entries offset)
      (session.ended offset) := by
  simpa [entries, calls, ended] using
    ((writing_begun h.fresh).run h.recorded).drain

/-- What is read is what the launch left when it ended. -/
theorem found_final (h : session.Whole offset) :
    ∃ dir, findLaunch session.now.millis (session.ended offset).root = some dir ∧
      findLaunch session.now.millis (drain (session.final offset)).root
        = some dir ∧
      dir.segments.map Segment.index = List.range dir.segments.length := by
  obtain ⟨dir, hmem, hid, hindexes⟩ := h.kept
  have hfinal := (findLaunch_eq_some (distinct_final session)).mpr ⟨hmem, hid⟩
  rcases h.later with hnone | ⟨⟨limits, rest, hlater⟩, hinstalls⟩
  · have hsame : session.final offset = session.ended offset :=
      final_of_later_nil hnone
    have hpending := (drain_queue (run offset (session.begun offset)
      session.within)).2.2
    have hlive := h.writing.live
    have hquiet : drain (session.ended offset) = session.ended offset := by
      have hdone : (session.ended offset).store.queue.pending = [] :=
        hpending (by
          rw [ended, drain_launch] at hlive
          simp [hlive])
      simp [drain, hlive, hdone]
    rw [hsame] at hfinal
    exact ⟨dir, hfinal, by rw [hsame, hquiet, hfinal], hindexes⟩
  · have hrun := @run_elsewhere offset session.now.millis rest
      (renew limits (session.ended offset)) (by simp [renew])
      fun event hevent => hinstalls event (by
        rw [hlater]
        exact List.mem_cons_of_mem _ hevent)
    have hstate : session.final offset
        = run offset (renew limits (session.ended offset)) rest := by
      rw [final, hlater]
      rfl
    rw [← hstate] at hrun
    obtain ⟨hlive, hsame | hgone⟩ := hrun
    · rw [hfinal] at hsame
      exact ⟨dir, hsame.symm, by rw [findLaunch_drain hlive, hfinal], hindexes⟩
    · rw [hfinal] at hgone
      cases hgone

/-- No line that was recorded has a newline in it. -/
theorem newline_not_mem (h : session.Whole offset) :
    ∀ entry ∈ session.entries offset, '\n' ∉ entry.line := by
  intro entry hentry
  rw [entries, entries_eq] at hentry
  obtain ⟨piece, hpiece, rfl⟩ := List.mem_map.mp hentry
  obtain ⟨call, hcall, hpart⟩ := List.mem_flatMap.mp hpiece
  obtain ⟨part, hsplit, rfl⟩ := List.mem_map.mp hpart
  have hlabel := h.plain call hcall
  rw [pieceEntry, List.mem_append, not_or]
  exact ⟨newline_not_mem_linePrefix _ _ _ _ _ hlabel.noNewline,
    Text.not_mem_of_mem_splitOn hsplit⟩

/-- The lines of the archive give back the messages, each of them exactly if it
is dated right. -/
theorem read_eq (h : session.Whole offset) (thisYear : ℤ) (limit : ℕ) :
    read offset thisYear session.now.millis limit (session.final offset)
      = (projectLines offset thisYear
          (some (yearAt offset session.now.millis)) session.now.millis
          ((session.entries offset).map fun entry =>
            dropReturn entry.line)).rtake limit := by
  by_cases hlimit : limit = 0
  · simp [read, hlimit]
  · obtain ⟨dir, hended, hdrained, hindexes⟩ := h.found_final
    obtain ⟨written, hsettled, hall⟩ := h.writing.held dir hended
    have hdone : (session.ended offset).store.queue.pending = [] := by
      have hlive := h.writing.live
      rw [ended, drain_launch] at hlive
      exact (drain_queue _).2.2 (by simp [hlive])
    have hflat : written.flatten = session.entries offset := by
      simpa [hdone] using hall h.accepted
    have hlines := hsettled.lines_kept hindexes (by
      rw [hflat]
      exact h.newline_not_mem)
    have hdirs := archiveDirs_eq (by rw [drain_launch]; exact h.reader)
      (distinct_final session).drain hdrained
    have hloop := @foldl_readLine offset thisYear
      (some (yearAt offset session.now.millis)) limit hlimit
      ((session.entries offset).map fun entry => dropReturn entry.line) []
      session.now.millis
    rw [List.rtake_nil, List.nil_append] at hloop
    rw [← hloop, read, if_neg hlimit]
    simp only [hdirs, List.flatMap_cons, List.flatMap_nil, List.append_nil, hlines,
      hflat, session.now.inRange, if_true, Option.map_some, Option.getD_some]

theorem read_iff_dated (h : session.Whole offset) (thisYear : ℤ) (limit : ℕ) :
    read offset thisYear session.now.millis limit (session.final offset)
        = session.messages.rtake limit ↔
      ∀ line ∈ session.messages.rtake limit,
        Dated offset session.now.millis line.tsUnixMs := by
  have hstarted : Dated offset session.now.millis session.now.millis := by
    rcases le_or_gt (yearAt offset session.now.millis) 9999 with hyear | hlate
    · exact Or.inl ⟨hyear, rfl⟩
    · exact Or.inr ⟨hlate, rfl⟩
  have hlabels : ∀ piece ∈ pieces session.calls, PlainLabel piece.1.label := by
    intro piece hpiece
    obtain ⟨call, hcall, hpart⟩ := List.mem_flatMap.mp hpiece
    obtain ⟨part, -, rfl⟩ := List.mem_map.mp hpart
    exact h.plain call hcall
  have hpieces := @projectLines_recorded offset thisYear session.now.millis _ _
    hlabels hstarted
  have hraws : (session.entries offset).map (fun entry => dropReturn entry.line)
      = (pieces session.calls).map fun piece =>
          dropReturn (pieceEntry offset piece).line := by
    rw [entries, entries_eq, List.map_map]
    rfl
  rw [h.read_eq, hraws, messages, lines_eq]
  exact eq_iff_of_forall₂ (rtake_forall₂ hpieces limit)

end Session.Whole

/-- Read back, the last lines of a launch are those that were recorded, exactly if
each of them was recorded in the calendar year that the launch began in. -/
theorem read_back_iff {offset : ℤ} {session : Session}
    (h : session.Whole offset) (thisYear : ℤ) (limit : ℕ) :
    read offset thisYear session.now.millis limit (session.final offset)
        = session.messages.rtake limit ↔
      ∀ line ∈ session.messages.rtake limit,
        Dated offset session.now.millis line.tsUnixMs :=
  h.read_iff_dated thisYear limit

/-- Half a second before the year 2024. -/
def newYearsEve : Instant := ⟨1704067199500, by norm_num [MAX_MILLIS]⟩

/-- Half a second after its beginning. -/
def newYearsDay : Instant := ⟨1704067200500, by norm_num [MAX_MILLIS]⟩

/-- A launch of the year's last half second, and one line recorded in it. -/
def newYear (recorded : Instant) : Session where
  before := []
  limits := {}
  now := newYearsEve
  within := [.record ⟨recorded, 1, 1, .info, ['a'], ['b']⟩]
  later := []

theorem indexes_first (limits : Limits) (entry : Entry) :
    ((settleBatch (writeBatch limits [entry] ([], none))).1).map Segment.index
      = [0] := by
  have happend : ∀ index line segments,
      (appendLine index line segments).map Segment.index
        = segments.map Segment.index := by
    intro index line segments
    simp [appendLine, updateSegment, apply_ite Segment.index]
  have hpin : ∀ sink segments, (pinSegment sink segments).map Segment.index
      = segments.map Segment.index := by
    intro sink segments
    unfold pinSegment
    split
    · rfl
    · simp [updateSegment, apply_ite Segment.index]
  have hopen : (openSegments limits []).map Segment.index = [0] := by
    simp [openSegments, openTarget, pruneSegments, sortedSegments,
      createSegment, hasSegment]
  simp only [writeBatch, Option.isNone_none, if_true]
  split
  · split <;> simp [settleBatch, happend, hpin, hopen]
  · unfold settleBatch
    dsimp only
    split <;> simp [happend, hpin, hopen]

theorem indexes_range {segments : List Segment}
    (hindexes : segments.map Segment.index = [0]) :
    segments.map Segment.index = List.range segments.length := by
  have hlength := congrArg List.length hindexes
  rw [List.length_map] at hlength
  rw [hindexes, hlength]
  rfl

/-- The first line of a launch is in its first segment. -/
theorem kept_first {state : State} {millis : ℕ} {entry : Entry}
    (hroot : state.root = [⟨millis, []⟩])
    (hlive : state.store.launch = some millis)
    (hpending : state.store.queue.pending = [entry])
    (hsink : state.store.liveSink = none) :
    ∃ dir ∈ (drain state).root, dir.millis = millis ∧
      dir.segments.map Segment.index = List.range dir.segments.length := by
  have hfound : findLaunch millis state.root = some ⟨millis, []⟩ := by
    simp [hroot, findLaunch]
  have hindexes : (drained state ⟨millis, []⟩).1.map Segment.index = [0] := by
    rw [drained, hpending, hsink]
    exact indexes_first _ _
  have hdrain : (drain state).root
      = [⟨millis, (drained state ⟨millis, []⟩).1⟩] := by
    rw [drain_eq hlive hfound (by simp [hpending]), hroot]
    simp [updateLaunch]
  rw [hdrain]
  exact ⟨_, List.mem_singleton.mpr rfl, rfl, indexes_range hindexes⟩

/-- The launch before its one line is written. -/
theorem newYear_recorded (recorded : Instant) :
    (run 0 ((newYear recorded).begun 0) (newYear recorded).within).root
        = [⟨newYearsEve.millis, []⟩] ∧
      (run 0 ((newYear recorded).begun 0) (newYear recorded).within).store
        = { limits := {}, launch := some newYearsEve.millis,
            queue :=
              { running := true
                pending := [⟨linePrefix 0 recorded.millis 1 1 .info ['a']
                  ++ ['b'], false⟩] } } := by
  constructor
  · simp [newYear, Session.begun, Session.found, run, apply, renew, install,
      record, enqueue, createLaunch, pruneLaunches, launchDirs,
      Launch.pinnedSegments, sortedSegments, shedPinned, removeLaunches]
  · simp [newYear, Session.begun, Session.found, run, apply, renew, install,
      record, enqueue, Call.entries, List.splitOn,
      List.splitOnP_cons_eq_if_modifyHead, push, Level.pins]

theorem newYear_whole (recorded : Instant) : (newYear recorded).Whole 0 where
  fresh := by simp [newYear, Session.found, run]
  recorded := by
    intro event hevent
    have hlabel : PlainLabel ['a'] :=
      ⟨by decide, fun h => absurd h.length_le (by decide), by
        simp [Text.isWhitespace]⟩
    simp only [newYear, List.mem_singleton] at hevent
    exact Or.inr ⟨_, hevent, hlabel⟩
  accepted := by
    rw [Session.ended, (drain_queue _).2.1, (newYear_recorded recorded).2]
  kept := by
    obtain ⟨hroot, hstore⟩ := newYear_recorded recorded
    rw [Session.final_of_later_nil rfl, Session.ended]
    have hlive := congrArg Store.launch hstore
    have hpending := congrArg (fun store => store.queue.pending) hstore
    have hsink := congrArg Store.liveSink hstore
    exact kept_first hroot hlive hpending hsink
  later := Or.inl rfl
  reader := by
    rw [Session.final_of_later_nil rfl, Session.ended, drain_launch,
      (newYear_recorded recorded).2]
    rfl

/-- A line of the new year is read back as a year too old. -/
theorem newYear_misdated : (newYear newYearsDay).Whole 0 ∧
    read 0 2024 newYearsEve.millis 1 ((newYear newYearsDay).final 0)
      ≠ (newYear newYearsDay).messages.rtake 1 := by
  refine ⟨newYear_whole _, fun hread => ?_⟩
  have hdated := ((newYear_whole newYearsDay).read_iff_dated 2024 1).mp hread
    ⟨newYearsDay.millis, .info, ['a'], ['b']⟩ (by
      simp [newYear, Session.messages, Session.calls, Event.calls, Call.lines,
        List.splitOn, List.splitOnP_cons_eq_if_modifyHead, List.rtake,
        Text.dropReturn])
  have hnot : ¬ Dated 0 newYearsEve.millis newYearsDay.millis := by
    decide +kernel
  exact hnot hdated

/-- A line of the launch's own year is read back as it was recorded. -/
theorem read_back_iff_oldYear :
    read 0 2024 newYearsEve.millis 1 ((newYear newYearsEve).final 0)
      = (newYear newYearsEve).messages.rtake 1 :=
  (read_back_iff (newYear_whole newYearsEve) 2024 1).mpr (by
    simp [newYear, Session.messages, Session.calls, Event.calls, Call.lines,
      List.splitOn, List.splitOnP_cons_eq_if_modifyHead, List.rtake]
    decide +kernel)

end LogStore

end Bridgething
