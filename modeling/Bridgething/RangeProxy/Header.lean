/-
The `Range` header: the ranges it names, or the offset a body goes on from.
-/
import Bridgething.Lib.Text
import Bridgething.RangeProxy.Index

namespace Bridgething

namespace RangeProxy

open Text (trim parseUnsigned parseUnsigned_le)

structure RangeSpec where
  start : Nat
  length : Nat
deriving Repr, DecidableEq

structure RangePart where
  start : Nat
  length : Nat
deriving Repr, DecidableEq

inductive Parsed
  | fresh (ranges : List RangeSpec)
  | resume (offset : Nat)
deriving Repr, DecidableEq

def U64_MAX : Nat := 2 ^ 64 - 1

/-- What stands before the first mark of a text, and what stands behind it. -/
def splitOnce (mark : Char) (text : List Char) :
    Option (List Char × List Char) :=
  if mark ∈ text then
    some (text.takeWhile (· ≠ mark), (text.dropWhile (· ≠ mark)).tail)
  else none

/-- The range from a first byte to a last. -/
def rangeBetween (start stop : Nat) : Except String RangeSpec :=
  if stop < start then .error "range end < start"
  else if stop - start + 1 ≤ U32_MAX then .ok ⟨start, stop - start + 1⟩
  else .error "range length overflow"

/-- One of the pieces between the commas. -/
def parsePiece (piece : List Char) : Except String RangeSpec :=
  match splitOnce '-' (trim piece) with
  | none => .error "range piece missing '-'"
  | some (start, stop) =>
      if trim start = [] ∨ trim stop = [] then
        .error "only fully-bounded ranges 'a-b' are supported"
      else
        match parseUnsigned U32_MAX (trim start) with
        | none => .error "range start parse failed"
        | some start =>
            match parseUnsigned U32_MAX (trim stop) with
            | none => .error "range end parse failed"
            | some stop => rangeBetween start stop

/-- The text before the mark of an open range, `N-` with nothing behind. -/
def openStart (payload : List Char) : Option (List Char) :=
  (splitOnce '-' (trim payload)).bind fun sides =>
    if trim sides.2 = [] ∧ ',' ∉ payload then some (trim sides.1) else none

def parseRangeHeader (headerValue : List Char) : Except String Parsed :=
  let trimmed := trim headerValue
  if trimmed.take 6 ≠ "bytes=".toList then
    .error "Range must start with bytes="
  else
    let payload := trimmed.drop 6
    match openStart payload with
    | some start =>
        if start = [] then
          .error "suffix ranges 'bytes=-N' are not supported"
        else
          match parseUnsigned U64_MAX start with
          | none => .error "resume offset parse failed"
          | some offset => .ok (.resume offset)
    | none =>
        match (payload.splitOn ',').mapM parsePiece with
        | .error reason => .error reason
        | .ok ranges =>
            if ranges = [] then .error "Range header parsed to 0 ranges"
            else .ok (.fresh ranges)

/-! ### What is accepted -/

/-- A range is checked for its length alone: its end may be one past the last
offset. -/
theorem rangeBetween_bounds {start stop : Nat} (hstop : stop ≤ U32_MAX)
    {range : RangeSpec} (h : rangeBetween start stop = .ok range) :
    0 < range.length ∧ range.length ≤ U32_MAX ∧
      range.start + range.length ≤ U32_MAX + 1 := by
  unfold rangeBetween at h
  split at h
  · exact nomatch h
  · split at h
    · next hlength =>
        rw [← Except.ok.inj h]
        exact ⟨Nat.succ_pos _, hlength, by dsimp only; omega⟩
    · exact nomatch h

theorem parsePiece_bounds {piece : List Char} {range : RangeSpec}
    (h : parsePiece piece = .ok range) :
    0 < range.length ∧ range.length ≤ U32_MAX ∧
      range.start + range.length ≤ U32_MAX + 1 := by
  unfold parsePiece at h
  split at h
  · exact nomatch h
  · split at h
    · exact nomatch h
    · split at h
      · exact nomatch h
      · split at h
        · exact nomatch h
        · next stop hstop =>
            exact rangeBetween_bounds (parseUnsigned_le hstop) h

theorem mem_of_mapM_ok {α β ε : Type} {f : α → Except ε β} {xs : List α}
    {ys : List β} (h : xs.mapM f = .ok ys) {y : β} (hy : y ∈ ys) :
    ∃ x ∈ xs, f x = .ok y := by
  induction xs generalizing ys with
  | nil =>
      rw [List.mapM_nil] at h
      rw [← Except.ok.inj h] at hy
      exact nomatch hy
  | cons x xs ih =>
      rw [List.mapM_cons] at h
      cases hx : f x with
      | error e =>
          rw [hx] at h
          exact nomatch h
      | ok first =>
          rw [hx] at h
          cases hrest : xs.mapM f with
          | error e =>
              rw [hrest] at h
              exact nomatch h
          | ok rest =>
              rw [hrest] at h
              rw [← Except.ok.inj h] at hy
              rcases List.mem_cons.mp hy with rfl | hin
              · exact ⟨x, List.mem_cons_self, hx⟩
              · obtain ⟨other, hother, heq⟩ := ih hrest hin
                exact ⟨other, List.mem_cons_of_mem _ hother, heq⟩

theorem parseRangeHeader_fresh {headerValue : List Char}
    {ranges : List RangeSpec}
    (h : parseRangeHeader headerValue = .ok (.fresh ranges)) :
    ranges ≠ [] ∧ ∀ range ∈ ranges, 0 < range.length ∧
      range.length ≤ U32_MAX ∧
      range.start + range.length ≤ U32_MAX + 1 := by
  unfold parseRangeHeader at h
  dsimp only at h
  split at h
  · exact nomatch h
  · split at h
    · split at h
      · exact nomatch h
      · split at h
        · exact nomatch h
        · exact nomatch h
    · split at h
      · exact nomatch h
      · next found hpieces =>
          split at h
          · exact nomatch h
          · next hsome =>
              have heq : found = ranges := Parsed.fresh.inj (Except.ok.inj h)
              subst heq
              refine ⟨hsome, fun range hin => ?_⟩
              obtain ⟨piece, -, hpiece⟩ := mem_of_mapM_ok hpieces hin
              exact parsePiece_bounds hpiece

end RangeProxy

end Bridgething
