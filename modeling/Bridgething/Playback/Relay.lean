/-
The feed between a fetched stream and the players it is served to: a window over
the last bytes that were accepted, read by any number of cursors.
-/
import Bridgething.Playback.Icy

namespace Bridgething

namespace Playback

def WINDOW : Nat := 256 * 1024

def PRIME : Nat := 32 * 1024

def SERVE_CHUNK : Nat := 16 * 1024

structure FeedState where
  buf : Bytes
  base : Nat
  finished : Option (Except String Unit)
  closed : Bool

inductive Served
  | bytes (bytes : Bytes)
  | ended
  | gone
  | wait
deriving Repr, DecidableEq

namespace FeedState

def new : FeedState := ⟨[], 0, none, false⟩

def push (state : FeedState) (bytes : Bytes) : FeedState :=
  if state.closed ∨ state.finished.isSome then state
  else
    let buf := state.buf ++ bytes
    if buf.length > WINDOW then
      let drop := buf.length - WINDOW
      { state with buf := buf.drop drop, base := state.base + drop }
    else { state with buf := buf }

def finish (state : FeedState) (outcome : Except String Unit) : FeedState :=
  if state.closed ∨ state.finished.isSome then state
  else { state with finished := some outcome }

def close (state : FeedState) : FeedState := { state with closed := true }

def edgeCursor (state : FeedState) : Nat :=
  state.base + state.buf.length - min state.buf.length PRIME

/-- What a reader is served, and its cursor after it. -/
def readFrom (state : FeedState) (cursor : Nat) : Nat × Served :=
  if state.closed then (cursor, .gone)
  else
    let cursor := if cursor < state.base then state.base else cursor
    let offset := cursor - state.base
    let available := state.buf.length - offset
    if available > 0 then
      let take := min available SERVE_CHUNK
      (cursor + take, .bytes ((state.buf.drop offset).take take))
    else
      match state.finished with
      | some (.ok ()) => (cursor, .ended)
      | some (.error _) => (cursor, .gone)
      | none => (cursor, .wait)

end FeedState

/-- A player's connection: where it started, where it is and what it was
served. -/
structure Reader where
  start : Nat
  cursor : Nat
  received : Bytes
deriving Repr, DecidableEq

structure World where
  feed : FeedState
  readers : List Reader

inductive Event
  | push (bytes : Bytes)
  | finish (outcome : Except String Unit)
  | close
  | connect
  | read (reader : Nat)

def Reader.take (reader : Reader) (feed : FeedState) : Reader :=
  match feed.readFrom reader.cursor with
  | (cursor, .bytes bytes) =>
      { reader with cursor := cursor, received := reader.received ++ bytes }
  | (cursor, _) => { reader with cursor := cursor }

namespace World

def init : World := ⟨FeedState.new, []⟩

def apply (world : World) : Event → World
  | .push bytes => { world with feed := world.feed.push bytes }
  | .finish outcome => { world with feed := world.feed.finish outcome }
  | .close => { world with feed := world.feed.close }
  | .connect =>
      let cursor := world.feed.edgeCursor
      { world with readers := world.readers ++ [⟨cursor, cursor, []⟩] }
  | .read reader =>
      { world with
        readers := world.readers.modify reader (·.take world.feed) }

def run (events : List Event) : World := events.foldl apply init

end World

/-! ### What was accepted -/

def Event.bytes : Event → Bytes
  | .push bytes => bytes
  | _ => []

def Event.ends : Event → Bool
  | .finish _ => true
  | .close => true
  | _ => false

def Event.outcome : Event → Option (Except String Unit)
  | .finish outcome => some outcome
  | _ => none

/-- The bytes pushed before the feed was finished or closed. -/
def accepted (events : List Event) : Bytes :=
  (events.takeWhile fun event => ¬ event.ends).flatMap Event.bytes

/-- How the feed was finished, if it was, and before it was closed. -/
def finished (events : List Event) : Option (Except String Unit) :=
  (events.find? Event.ends).bind Event.outcome

/-- The reader is behind by no more than the window at any time. -/
def KeepsUp (events : List Event) (reader : Nat) : Prop :=
  ∀ count, ∀ found ∈ (World.run (events.take count)).readers[reader]?,
    (accepted (events.take count)).length ≤ found.cursor + WINDOW

section Histories

variable {events : List Event} {event : Event}

theorem accepted_concat (events : List Event) (event : Event) :
    accepted (events ++ [event]) =
      accepted events ++ if events.any Event.ends then [] else event.bytes := by
  have hlast : (([event].takeWhile fun event => ¬ event.ends).flatMap
      Event.bytes) = event.bytes := by
    cases event <;> simp [Event.ends, Event.bytes]
  cases hany : events.any Event.ends with
  | true =>
      obtain ⟨ending, hmem, hends⟩ := List.any_eq_true.mp hany
      have hshort : ¬ (events.takeWhile fun event => ¬ event.ends).length =
          events.length := by
        intro hall
        have heq := (List.takeWhile_prefix _).eq_of_length hall
        have hnot := List.mem_takeWhile_imp (heq ▸ hmem)
        simp [hends] at hnot
      rw [accepted, List.takeWhile_append, if_neg hshort]
      simp [accepted]
  | false =>
      have hall : events.takeWhile (fun event => ¬ event.ends) = events := by
        apply List.takeWhile_eq_self_iff.mpr
        intro other hmem
        have hnot := List.any_eq_false.mp hany other hmem
        simpa using hnot
      rw [accepted, List.takeWhile_append, if_pos (by rw [hall]),
        List.flatMap_append, hlast, accepted, hall]
      rfl

theorem finished_concat (events : List Event) (event : Event) :
    finished (events ++ [event]) =
      if events.any Event.ends then finished events else event.outcome := by
  rw [finished, List.find?_append]
  cases hany : events.any Event.ends with
  | true =>
      obtain ⟨ending, hmem, hends⟩ := List.any_eq_true.mp hany
      obtain ⟨first, hfirst⟩ := Option.isSome_iff_exists.mp
        (List.find?_isSome.mpr ⟨ending, hmem, hends⟩)
      simp [finished, hfirst]
  | false =>
      have hnone : events.find? Event.ends = none := by
        apply List.find?_eq_none.mpr
        exact List.any_eq_false.mp hany
      rw [hnone, Option.none_or]
      cases event <;> simp [Event.ends, Event.outcome]

theorem run_concat (events : List Event) (event : Event) :
    World.run (events ++ [event]) = (World.run events).apply event := by
  rw [World.run, List.foldl_append]
  rfl

/-- What the feed is after events. -/
structure Feeds (events : List Event) (feed : FeedState) : Prop where
  base : feed.base = (accepted events).length - WINDOW
  buf : feed.buf = (accepted events).drop feed.base
  finished : feed.finished = Playback.finished events
  stopped : (feed.closed || feed.finished.isSome) = events.any Event.ends

theorem Feeds.init : Feeds [] FeedState.new := ⟨rfl, rfl, rfl, rfl⟩

theorem Feeds.size {feed : FeedState} (h : Feeds events feed) :
    feed.base + feed.buf.length = (accepted events).length := by
  rw [h.buf, List.length_drop, h.base]
  omega

/-- An event that the feed has no part in. -/
theorem Feeds.idle {feed : FeedState} (h : Feeds events feed)
    (hbytes : event.bytes = []) (hends : event.ends = false)
    (houtcome : event.outcome = none) : Feeds (events ++ [event]) feed := by
  have haccepted : accepted (events ++ [event]) = accepted events := by
    simp [accepted_concat, hbytes]
  refine ⟨haccepted ▸ h.base, haccepted ▸ h.buf, ?_, ?_⟩
  · rw [finished_concat, h.finished, houtcome]
    cases hany : events.any Event.ends with
    | true => rfl
    | false =>
        have hover := h.stopped
        rw [hany, Bool.or_eq_false_iff, h.finished] at hover
        simpa using hover.2
  · rw [h.stopped, List.any_append]
    simp [hends]

theorem Feeds.push {feed : FeedState} (h : Feeds events feed) (bytes : Bytes) :
    Feeds (events ++ [.push bytes]) (feed.push bytes) := by
  have hover := h.stopped
  have hsize := h.size
  rw [FeedState.push]
  split
  · next hstopped =>
      have hany : events.any Event.ends = true := by
        rw [← hover]
        simpa using hstopped
      have haccepted : accepted (events ++ [.push bytes]) =
          accepted events := by
        simp [accepted_concat, hany]
      exact ⟨haccepted ▸ h.base, haccepted ▸ h.buf,
        by simp [finished_concat, hany, h.finished],
        by simp [hover, List.any_append, Event.ends]⟩
  · next hopen =>
      have hany : events.any Event.ends = false := by
        rw [← hover]
        simpa using hopen
      have haccepted : accepted (events ++ [.push bytes]) =
          accepted events ++ bytes := by
        simp [accepted_concat, hany, Event.bytes]
      have hfinished : feed.finished =
          Playback.finished (events ++ [.push bytes]) := by
        rw [finished_concat, hany]
        simp only [Bool.false_eq_true, ↓reduceIte, Event.outcome]
        simpa using (not_or.mp hopen).2
      have hany' : (feed.closed || feed.finished.isSome) =
          (events ++ [Event.push bytes]).any Event.ends := by
        rw [hover, List.any_append]
        simp [Event.ends]
      have hbase := h.base
      have hle : feed.base ≤ (accepted events).length := by omega
      have hjoin : (accepted events ++ bytes).drop feed.base =
          feed.buf ++ bytes := by
        rw [List.drop_append_of_le_length hle, ← h.buf]
      have hlength : (accepted events ++ bytes).length =
          feed.base + (feed.buf ++ bytes).length := by
        rw [List.length_append, List.length_append]
        omega
      have hsum : (feed.buf ++ bytes).length = feed.buf.length + bytes.length :=
        List.length_append
      dsimp only
      split
      · next hmore =>
          refine ⟨?_, ?_, hfinished, hany'⟩
          · rw [haccepted]
            dsimp only
            omega
          · rw [haccepted]
            dsimp only
            rw [← List.drop_drop, hjoin]
      · next hfew =>
          refine ⟨?_, ?_, hfinished, hany'⟩
          · rw [haccepted]
            dsimp only
            omega
          · rw [haccepted]
            exact hjoin.symm

/-- The feed is finished or closed, and its bytes stay as they are. -/
theorem Feeds.ended {feed next : FeedState} (h : Feeds events feed)
    (hbase : next.base = feed.base) (hbuf : next.buf = feed.buf)
    (hbytes : event.bytes = []) (hends : event.ends = true)
    (hfinished : next.finished =
      if events.any Event.ends then feed.finished else event.outcome)
    (hstopped : (next.closed || next.finished.isSome) = true) :
    Feeds (events ++ [event]) next := by
  have haccepted : accepted (events ++ [event]) = accepted events := by
    simp [accepted_concat, hbytes]
  refine ⟨?_, ?_, ?_, ?_⟩
  · rw [haccepted, hbase, h.base]
  · rw [haccepted, hbase, hbuf, h.buf]
  · rw [finished_concat, hfinished, h.finished]
  · simp [hstopped, List.any_append, hends]

theorem Feeds.finish {feed : FeedState} (h : Feeds events feed)
    (outcome : Except String Unit) :
    Feeds (events ++ [.finish outcome]) (feed.finish outcome) := by
  have hover := h.stopped
  rw [FeedState.finish]
  split
  · next hstopped =>
      have hany : events.any Event.ends = true := by
        rw [← hover]
        simpa using hstopped
      refine h.ended rfl rfl rfl rfl ?_ ?_
      · simp [hany]
      · rw [hover, hany]
  · next hopen =>
      have hany : events.any Event.ends = false := by
        rw [← hover]
        simpa using hopen
      exact h.ended rfl rfl rfl rfl (by simp [hany, Event.outcome]) (by simp)

theorem Feeds.close {feed : FeedState} (h : Feeds events feed) :
    Feeds (events ++ [.close]) feed.close := by
  refine h.ended rfl rfl rfl rfl ?_ (by simp [FeedState.close])
  cases hany : events.any Event.ends with
  | true => simp [FeedState.close]
  | false =>
      have hover := h.stopped
      rw [hany, Bool.or_eq_false_iff] at hover
      simpa [FeedState.close, Event.outcome] using hover.2

end Histories

/-! ### What a reader is served -/

section Reads

variable {events : List Event} {feed : FeedState} {cursor : Nat}

/-- A closed feed serves nothing.  Another serves from the cursor or the oldest
byte that is held, whichever is further on, if there is any byte there. -/
theorem readFrom_cases (feed : FeedState) (cursor : Nat) :
    (feed.closed = true ∧ feed.readFrom cursor = (cursor, .gone)) ∨
    feed.closed = false ∧
      ((∃ take, 0 < take ∧
          max cursor feed.base + take ≤ feed.base + feed.buf.length ∧
          feed.readFrom cursor = (max cursor feed.base + take, .bytes
            ((feed.buf.drop (max cursor feed.base - feed.base)).take take))) ∨
        feed.base + feed.buf.length ≤ max cursor feed.base ∧
          ∃ answer, (∀ bytes, answer ≠ .bytes bytes) ∧
            (answer = .ended → feed.finished = some (.ok ())) ∧
            feed.readFrom cursor = (max cursor feed.base, answer)) := by
  cases hclosed : feed.closed with
  | true => exact .inl ⟨rfl, by rw [FeedState.readFrom, if_pos hclosed]⟩
  | false =>
      right
      refine ⟨rfl, ?_⟩
      have hstart : (if cursor < feed.base then feed.base else cursor) =
          max cursor feed.base := by
        split <;> omega
      simp only [FeedState.readFrom, hclosed, Bool.false_eq_true, ↓reduceIte,
        hstart]
      split
      · next havailable =>
          left
          refine ⟨_, ?_, ?_, rfl⟩
          · have hchunk : 0 < SERVE_CHUNK := by decide
            omega
          · omega
      · next hnone =>
          right
          refine ⟨by omega, ?_⟩
          split
          · next hok => exact ⟨.ended, by simp, fun _ => hok, rfl⟩
          · exact ⟨.gone, by simp, by simp, rfl⟩
          · exact ⟨.wait, by simp, by simp, rfl⟩

/-- What is held from a place on is what was accepted from there on. -/
theorem Feeds.drop (h : Feeds events feed) {start : Nat}
    (hle : feed.base ≤ start) :
    feed.buf.drop (start - feed.base) = (accepted events).drop start := by
  rw [h.buf, List.drop_drop, Nat.add_sub_cancel' hle]

/-- A reader is within what was accepted. -/
structure Within (events : List Event) (reader : Reader) : Prop where
  start : reader.start ≤ reader.cursor
  cursor : reader.cursor ≤ (accepted events).length

/-- The reader was served the accepted bytes from its start to its cursor. -/
def Gapless (events : List Event) (reader : Reader) : Prop :=
  reader.received =
    ((accepted events).drop reader.start).take (reader.cursor - reader.start)

variable {reader : Reader}

theorem accepted_isPrefix (events : List Event) (event : Event) :
    accepted events <+: accepted (events ++ [event]) := by
  rw [accepted_concat]
  exact List.prefix_append _ _

theorem Within.mono (h : Within events reader) (event : Event) :
    Within (events ++ [event]) reader :=
  ⟨h.start, h.cursor.trans (accepted_isPrefix events event).length_le⟩

theorem Gapless.mono (h : Gapless events reader)
    (hwithin : Within events reader) (event : Event) : Gapless (events ++ [event]) reader := by
  have hstart := hwithin.start
  have hcursor := hwithin.cursor
  rw [Gapless, h, accepted_concat, List.drop_append_of_le_length (by omega),
    List.take_append_of_le_length]
  rw [List.length_drop]
  omega

theorem Within.take (h : Within events reader) (hfeeds : Feeds events feed) :
    Within events (reader.take feed) := by
  have hsize := hfeeds.size
  have hbase := hfeeds.base
  have hstart := h.start
  have hcursor := h.cursor
  rcases readFrom_cases feed reader.cursor with ⟨_, hread⟩ | ⟨_, ⟨take, hpos,
    hle, hread⟩ | ⟨hend, answer, hbytes, hended, hread⟩⟩
  · rw [Reader.take, hread]
    exact h
  · rw [Reader.take, hread]
    exact ⟨by dsimp only; omega, by dsimp only; omega⟩
  · rw [Reader.take, hread]
    have hnext : Within events
        { reader with cursor := max reader.cursor feed.base } :=
      ⟨by dsimp only; omega, by dsimp only; omega⟩
    cases answer with
    | bytes bytes => exact absurd rfl (hbytes bytes)
    | ended => exact hnext
    | gone => exact hnext
    | wait => exact hnext

/-- A reader that the window has not left behind skips nothing. -/
theorem Gapless.take (h : Gapless events reader)
    (hwithin : Within events reader) (hfeeds : Feeds events feed)
    (hkeeps : (accepted events).length ≤ reader.cursor + WINDOW) :
    Gapless events (reader.take feed) := by
  have hbase := hfeeds.base
  have hsize := hfeeds.size
  have hstart := hwithin.start
  have hmax : max reader.cursor feed.base = reader.cursor := by omega
  rcases readFrom_cases feed reader.cursor with ⟨_, hread⟩ | ⟨_, ⟨take, hpos,
    hle, hread⟩ | ⟨hend, answer, hbytes, hended, hread⟩⟩
  · rw [Reader.take, hread]
    exact h
  · rw [hfeeds.drop (Nat.le_max_right _ _), hmax] at hread
    have hsplit : reader.cursor + take - reader.start =
        (reader.cursor - reader.start) + take := by omega
    have hdrop : reader.start + (reader.cursor - reader.start) =
        reader.cursor := by omega
    rw [Reader.take, hread, Gapless]
    dsimp only
    rw [h, hsplit, List.take_add, List.drop_drop, hdrop]
  · rw [hmax] at hread
    rw [Reader.take, hread]
    cases answer with
    | bytes bytes => exact absurd rfl (hbytes bytes)
    | ended => exact h
    | gone => exact h
    | wait => exact h

end Reads

section Runs

variable {events : List Event} {event : Event} {index : Nat} {reader : Reader}

theorem KeepsUp.init (h : KeepsUp (events ++ [event]) index) :
    KeepsUp events index := by
  intro count found hfound
  have htake : (events ++ [event]).take (min count events.length) =
      events.take count := by
    rw [List.take_append_of_le_length (Nat.min_le_right _ _), ← List.take_take,
      List.take_length]
  have hkeeps := h (min count events.length)
  rw [htake] at hkeeps
  exact hkeeps found hfound

theorem KeepsUp.last (h : KeepsUp events index)
    (hreader : (World.run events).readers[index]? = some reader) :
    (accepted events).length ≤ reader.cursor + WINDOW := by
  have hkeeps := h events.length
  rw [List.take_length] at hkeeps
  exact hkeeps reader hreader

end Runs

end Playback

end Bridgething
