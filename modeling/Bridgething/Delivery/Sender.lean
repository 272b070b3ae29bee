/-
The sender of a transfer: the ranges of a source as one stream of fragments,
each admitted by the window of the acks that came back.
-/
import Bridgething.Lib.Table
import Bridgething.Gateway.Transfer

namespace Bridgething

namespace Delivery

open Gateway

def ACK_INTERVAL_BYTES : Nat := 16 * 1024

def MIN_WINDOW_BYTES : Nat := 4 * ACK_INTERVAL_BYTES

def MAX_WINDOW_BYTES : Nat := 16 * ACK_INTERVAL_BYTES

/-- The received bytes of each open transfer. -/
abbrev AckWindow := Table Uuid Nat

namespace AckWindow

def openAt (acks : AckWindow) (transferId : Uuid) (resumeFrom : Nat) :
    AckWindow :=
  acks.put transferId (max ((acks.get? transferId).getD 0) resumeFrom)

def note (acks : AckWindow) (transferId : Uuid) (received : Nat) : AckWindow :=
  match acks.get? transferId with
  | none => acks
  | some entry => acks.put transferId (max entry received)

def receivedBytes (acks : AckWindow) (transferId : Uuid) : Nat :=
  (acks.get? transferId).getD 0

def finish (acks : AckWindow) (transferId : Uuid) : AckWindow :=
  acks.remove transferId

/-- The condition that `await_window` waits for; the sum saturates. -/
def admits (acks : AckWindow) (transferId : Uuid) (offset window : Nat) : Bool :=
  offset < min (acks.receivedBytes transferId + window) (2 ^ 64 - 1)

end AckWindow

structure SourceRange where
  start : Nat
  length : Nat
deriving Repr, DecidableEq

inductive SendError
  | stalled (transferId : Uuid) (offset : Nat)
  | unexpectedEof (offset total : Nat)
  | offsetOverflow (offset : Nat)
  | sinkClosed (offset : Nat)
  | source (offset : Nat) (reason : String)
deriving Repr, DecidableEq

structure FragmentStream where
  transferId : Uuid
  ranges : List SourceRange
  resumeFrom : Nat
  fragmentBytes : Nat
deriving Repr, DecidableEq

def totalLength (ranges : List SourceRange) : Nat :=
  (ranges.map SourceRange.length).sum

def FragmentStream.total (stream : FragmentStream) : Nat :=
  totalLength stream.ranges

/-- Where the loops over the ranges stand; the current range comes first. -/
structure Walk where
  ranges : List SourceRange
  rangeStart : Nat
  streamOffset : Nat
  pushed : Nat
deriving Repr, DecidableEq

/-- Goes on to the range that holds the stream offset. -/
def skipRanges (streamOffset : Nat) :
    List SourceRange → Nat → List SourceRange × Nat
  | [], rangeStart => ([], rangeStart)
  | range :: rest, rangeStart =>
      if streamOffset < rangeStart + range.length then
        (range :: rest, rangeStart)
      else skipRanges streamOffset rest (rangeStart + range.length)

inductive Stage
  | head (walk : Walk)
  | awaiting (walk : Walk) (window : Nat)
  | admitted (walk : Walk) (window : Nat)
  | done (outcome : Except SendError Nat)

/-- The head of the inner loop, or the end when every range is behind. -/
def enter (ranges : List SourceRange) (rangeStart streamOffset pushed : Nat) :
    Stage :=
  match skipRanges streamOffset ranges rangeStart with
  | ([], _) => .done (.ok pushed)
  | (ranges, rangeStart) => .head ⟨ranges, rangeStart, streamOffset, pushed⟩

def FragmentStream.start (stream : FragmentStream) : Stage :=
  enter stream.ranges 0 stream.resumeFrom 0

/-- How much of the current range is asked of the source. -/
def FragmentStream.want (stream : FragmentStream) (walk : Walk) : Nat :=
  let rangeEnd := walk.rangeStart + ((walk.ranges.head?.map
    SourceRange.length).getD 0)
  min stream.fragmentBytes (rangeEnd - walk.streamOffset)

/-- Where in the source that is. -/
def FragmentStream.sourceOffset (walk : Walk) : Nat :=
  (walk.ranges.head?.map SourceRange.start).getD 0 +
    (walk.streamOffset - walk.rangeStart)

/-- One admitted turn of the loop, on what the source reads and whether the link
takes the fragment. -/
def FragmentStream.push (stream : FragmentStream) (walk : Walk)
    (read : Except String Bytes) (linkOpen : Bool) :
    Stage × Option TransferFragment :=
  if walk.streamOffset ≥ 2 ^ 32 then
    (.done (.error (.offsetOverflow walk.streamOffset)), none)
  else match read with
    | .error reason =>
        (.done (.error (.source walk.streamOffset reason)), none)
    | .ok bytes =>
        if bytes = [] then
          (.done (.error (.unexpectedEof walk.streamOffset stream.total)), none)
        else if ¬ linkOpen then
          (.done (.error (.sinkClosed walk.streamOffset)), none)
        else
          (enter walk.ranges walk.rangeStart (walk.streamOffset + bytes.length)
              (walk.pushed + bytes.length),
            some ⟨stream.transferId, walk.streamOffset.toUInt32, bytes⟩)

section Walking

variable {ranges : List SourceRange} {rangeStart streamOffset pushed : Nat}
  {walk : Walk} {stream : FragmentStream}

/-- The walk stands inside its first range, and has `total` ahead in all. -/
structure Walk.Inside (walk : Walk) (total : Nat) : Prop where
  current : ∃ range rest, walk.ranges = range :: rest ∧
    walk.streamOffset < walk.rangeStart + range.length
  total : walk.rangeStart + totalLength walk.ranges = total

theorem skipRanges_total (streamOffset : Nat) (ranges : List SourceRange)
    (rangeStart : Nat) :
    (skipRanges streamOffset ranges rangeStart).2 +
        totalLength (skipRanges streamOffset ranges rangeStart).1 =
      rangeStart + totalLength ranges := by
  induction ranges generalizing rangeStart with
  | nil => rfl
  | cons range rest ih =>
      simp only [skipRanges]
      split
      · rfl
      · rw [ih]
        simp only [totalLength, List.map_cons, List.sum_cons]
        omega

theorem skipRanges_current {range : SourceRange} {rest : List SourceRange}
    (h : (skipRanges streamOffset ranges rangeStart).1 = range :: rest) :
    streamOffset <
      (skipRanges streamOffset ranges rangeStart).2 + range.length := by
  induction ranges generalizing rangeStart with
  | nil => exact absurd h (List.cons_ne_nil _ _).symm
  | cons head tail ih =>
      simp only [skipRanges] at h ⊢
      split at h
      case isTrue hinside =>
        rw [if_pos hinside]
        rw [(List.cons.inj h).1] at hinside
        exact hinside
      case isFalse hbehind =>
        rw [if_neg hbehind]
        exact ih h

/-- A turn begins inside a range, or there is none left. -/
theorem enter_cases (ranges : List SourceRange)
    (rangeStart streamOffset pushed : Nat) :
    enter ranges rangeStart streamOffset pushed = .done (.ok pushed) ∨
    ∃ walk : Walk, enter ranges rangeStart streamOffset pushed = .head walk ∧
      walk.streamOffset = streamOffset ∧ walk.pushed = pushed ∧
      walk.Inside (rangeStart + totalLength ranges) := by
  have htotal := skipRanges_total streamOffset ranges rangeStart
  cases hskip : skipRanges streamOffset ranges rangeStart with
  | mk left start =>
      cases left with
      | nil =>
          left
          simp only [enter, hskip]
      | cons range rest =>
          right
          rw [hskip] at htotal
          have hcurrent := skipRanges_current
            (show (skipRanges streamOffset ranges rangeStart).1 = range :: rest
              by rw [hskip])
          rw [hskip] at hcurrent
          refine ⟨⟨range :: rest, start, streamOffset, pushed⟩, ?_, rfl, rfl,
            ⟨range, rest, rfl, hcurrent⟩, htotal⟩
          simp only [enter, hskip]

/-- What is asked of the source ends inside the stream. -/
theorem Walk.Inside.want_le {total : Nat} (h : walk.Inside total) :
    walk.streamOffset + stream.want walk ≤ total := by
  obtain ⟨range, rest, hranges, hinside⟩ := h.current
  have htotal := h.total
  simp only [FragmentStream.want, hranges, List.head?_cons, Option.map_some,
    Option.getD_some, totalLength, List.map_cons, List.sum_cons] at htotal ⊢
  omega

end Walking

end Delivery

end Bridgething
