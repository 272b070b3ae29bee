/-
The bytes of a handle that is held in memory, in the segments in which they were
appended, and a read of them at an offset.
-/
import Bridgething.Lib.Partition

namespace Bridgething

namespace Handles

/-- Where each segment ends, from where the first one starts. -/
def endsFrom : Nat → List (List UInt8) → List Nat
  | _, [] => []
  | start, chunk :: chunks =>
      (start + chunk.length) :: endsFrom (start + chunk.length) chunks

/-- All of it is in memory, so that no end is past what 64 bits hold. -/
structure Segments where
  chunks : List (List UInt8) := []
  ends : List Nat := []
  counted : ends = endsFrom 0 chunks := by rfl

theorem endsFrom_append (start : Nat) (front back : List (List UInt8)) :
    endsFrom start (front ++ back) =
      endsFrom start front ++ endsFrom (start + front.flatten.length) back := by
  induction front generalizing start with
  | nil => rfl
  | cons chunk front ih =>
      rw [List.cons_append, endsFrom, endsFrom, ih, List.cons_append,
        List.flatten_cons, List.length_append, Nat.add_assoc]

theorem length_endsFrom (start : Nat) (chunks : List (List UInt8)) :
    (endsFrom start chunks).length = chunks.length := by
  induction chunks generalizing start with
  | nil => rfl
  | cons chunk chunks ih =>
      rw [endsFrom, List.length_cons, List.length_cons, ih]

theorem getLast?_endsFrom (start : Nat) (chunks : List (List UInt8)) :
    (endsFrom start chunks).getLast?.getD start =
      start + chunks.flatten.length := by
  induction chunks generalizing start with
  | nil => rfl
  | cons chunk chunks ih =>
      rw [endsFrom, List.getLast?_cons, Option.getD_some, ih,
        List.flatten_cons, List.length_append, Nat.add_assoc]

namespace Segments

def len (s : Segments) : Nat := s.ends.getLast?.getD 0

theorem len_eq (s : Segments) : s.len = s.chunks.flatten.length := by
  rw [len, s.counted, getLast?_endsFrom, Nat.zero_add]

/-- Nothing is held of an empty segment. -/
def push (s : Segments) (bytes : List UInt8) : Segments :=
  if bytes = [] then s
  else
    { chunks := s.chunks ++ [bytes]
      ends := s.ends ++ [s.len + bytes.length]
      counted := by
        rw [endsFrom_append, ← s.counted, ← s.len_eq, Nat.zero_add]
        rfl }

/-- What is copied into a buffer at a place. -/
def copyInto (buf : List UInt8) (place : Nat) (bytes : List UInt8) :
    List UInt8 :=
  buf.take place ++ bytes ++ buf.drop (place + bytes.length)

/-- The bytes from a place on, unless it is past the end. -/
def sliceFrom (chunk : List UInt8) (place : Nat) : Option (List UInt8) :=
  if place ≤ chunk.length then some (chunk.drop place) else none

/-- The difference, unless it is negative. -/
def sub? (m n : Nat) : Option Nat := if n ≤ m then some (m - n) else none

/-- The loop of a read, with what it has filled of the buffer.  A place out of
bounds, or an offset before the segment, stops the program. -/
def fill (s : Segments) (place offset filled : Nat) (buf : List UInt8) :
    Option (Nat × List UInt8) :=
  if filled < buf.length ∧ place < s.chunks.length then do
    let chunk ← s.chunks[place]?
    let last ← s.ends[place]?
    let start ← sub? last chunk.length
    let within ← (sub? offset start).bind (sliceFrom chunk)
    let take := min within.length (buf.length - filled)
    s.fill (place + 1) (offset + take) (filled + take)
      (copyInto buf filled (within.take take))
  else some (filled, buf)
termination_by s.chunks.length - place

/-- How many bytes are read, and the buffer they are read into. -/
def readAt (s : Segments) (offset : Nat) (buf : List UInt8) :
    Option (Nat × List UInt8) :=
  s.fill (Partition.partitionPoint (fun last => last ≤ offset) s.ends) offset 0
    buf

/-! ### Where a read begins -/

/-- An offset lies in the first of the segments that are left, or past the end
of all. -/
theorem exists_split (chunks : List (List UInt8)) (offset : Nat) :
    ∃ front rest, chunks = front ++ rest ∧ front.flatten.length ≤ offset ∧
      ∀ chunk ∈ rest.head?, offset < front.flatten.length + chunk.length := by
  induction chunks generalizing offset with
  | nil => exact ⟨[], [], rfl, Nat.zero_le _, fun _ h => nomatch h⟩
  | cons chunk chunks ih =>
      by_cases hwhole : chunk.length ≤ offset
      · obtain ⟨front, rest, hchunks, hbefore, hin⟩ :=
          ih (offset - chunk.length)
        refine ⟨chunk :: front, rest, ?_, ?_, fun first hfirst => ?_⟩
        · rw [hchunks, List.cons_append]
        · rw [List.flatten_cons, List.length_append]
          omega
        · have hless := hin first hfirst
          rw [List.flatten_cons, List.length_append]
          omega
      · refine ⟨[], chunk :: chunks, rfl, Nat.zero_le _, fun first hfirst => ?_⟩
        obtain rfl := Option.some.inj hfirst
        rw [List.flatten_nil, List.length_nil, Nat.zero_add]
        exact Nat.lt_of_not_le hwhole

theorem endsFrom_le {start last : Nat} {chunks : List (List UInt8)}
    (h : last ∈ endsFrom start chunks) :
    last ≤ start + chunks.flatten.length := by
  induction chunks generalizing start with
  | nil => exact nomatch h
  | cons chunk chunks ih =>
      rw [List.flatten_cons, List.length_append]
      rcases List.mem_cons.mp h with rfl | hrest
      · omega
      · have hle := ih hrest
        omega

theorem le_endsFrom {start last : Nat} {chunk : List UInt8}
    {chunks : List (List UInt8)}
    (h : last ∈ endsFrom start (chunk :: chunks)) :
    start + chunk.length ≤ last := by
  induction chunks generalizing start chunk with
  | nil =>
      rw [endsFrom, endsFrom, List.mem_singleton] at h
      exact h.ge
  | cons next chunks ih =>
      rcases List.mem_cons.mp h with rfl | hrest
      · exact Nat.le_refl _
      · have hle := ih hrest
        omega

theorem partitionPoint_ends (s : Segments) {front rest : List (List UInt8)}
    {offset : Nat} (hchunks : s.chunks = front ++ rest)
    (hbefore : front.flatten.length ≤ offset)
    (hin : ∀ chunk ∈ rest.head?,
      offset < front.flatten.length + chunk.length) :
    Partition.partitionPoint (fun last => last ≤ offset) s.ends =
      front.length := by
  rw [s.counted, hchunks, endsFrom_append, Nat.zero_add,
    Partition.partitionPoint_append, length_endsFrom]
  · intro last hlast
    have hle := endsFrom_le hlast
    exact decide_eq_true (by omega)
  · intro last hlast
    cases rest with
    | nil => exact nomatch hlast
    | cons chunk rest =>
        have hless := hin chunk rfl
        have hle := le_endsFrom hlast
        exact decide_eq_false (by omega)

/-! ### What a read fills -/

theorem copyInto_append (filled free bytes : List UInt8) :
    copyInto (filled ++ free) filled.length bytes =
      filled ++ bytes ++ free.drop bytes.length := by
  rw [copyInto, List.take_left, List.drop_append,
    List.drop_eq_nil_of_le (Nat.le_add_right _ _), List.nil_append,
    Nat.add_sub_cancel_left]

theorem fill_of_done (s : Segments) {place offset filled : Nat}
    {buf : List UInt8}
    (h : buf.length ≤ filled ∨ s.chunks.length ≤ place) :
    s.fill place offset filled buf = some (filled, buf) := by
  rw [fill, if_neg]
  rintro ⟨hfree, hleft⟩
  rcases h with hfull | hend
  · exact Nat.not_lt_of_le hfull hfree
  · exact Nat.not_lt_of_le hend hleft

/-- One turn of the loop copies what the buffer has room for from the segment
that the offset lies in. -/
theorem fill_cons (s : Segments) {front rest : List (List UInt8)}
    {chunk : List UInt8} (hchunks : s.chunks = front ++ chunk :: rest)
    {within filled : Nat} (hwithin : within ≤ chunk.length)
    {buf : List UInt8} (hfree : filled < buf.length) :
    s.fill front.length (front.flatten.length + within) filled buf =
      s.fill (front.length + 1)
        (front.flatten.length + within +
          min (chunk.length - within) (buf.length - filled))
        (filled + min (chunk.length - within) (buf.length - filled))
        (copyInto buf filled ((chunk.drop within).take
          (min (chunk.length - within) (buf.length - filled)))) := by
  have hplace : front.length < s.chunks.length := by
    rw [hchunks, List.length_append, List.length_cons]
    omega
  have hchunk : s.chunks[front.length]? = some chunk := by
    rw [hchunks, List.getElem?_append_right (Nat.le_refl _), Nat.sub_self]
    rfl
  have hlast : s.ends[front.length]? =
      some (front.flatten.length + chunk.length) := by
    rw [s.counted, hchunks, endsFrom_append, Nat.zero_add,
      List.getElem?_append_right (length_endsFrom 0 front).le,
      length_endsFrom, Nat.sub_self]
    rfl
  have hstart : sub? (front.flatten.length + chunk.length) chunk.length =
      some front.flatten.length := by
    rw [sub?, if_pos (Nat.le_add_left _ _), Nat.add_sub_cancel]
  have hslice : (sub? (front.flatten.length + within)
      front.flatten.length).bind (sliceFrom chunk) =
        some (chunk.drop within) := by
    rw [sub?, if_pos (Nat.le_add_right _ _), Nat.add_sub_cancel_left,
      Option.bind_some, sliceFrom, if_pos hwithin]
  rw [fill, if_pos ⟨hfree, hplace⟩]
  simp only [hchunk, hlast, hstart, hslice, Option.bind_eq_bind,
    Option.bind_some, List.length_drop]

/-- What is left to read is copied behind what is filled, as far as the buffer
has room. -/
theorem fill_eq (s : Segments) {front rest : List (List UInt8)}
    (hchunks : s.chunks = front ++ rest) {within : Nat}
    (hwithin : ∀ chunk ∈ rest.head?, within ≤ chunk.length)
    (filled free : List UInt8) :
    s.fill front.length (front.flatten.length + within) filled.length
        (filled ++ free) =
      some (filled.length +
          ((rest.flatten.drop within).take free.length).length,
        filled ++ (rest.flatten.drop within).take free.length ++
          free.drop ((rest.flatten.drop within).take free.length).length) := by
  induction rest generalizing front within filled free with
  | nil =>
      rw [fill_of_done]
      · simp
      · right
        rw [hchunks, List.append_nil]
  | cons chunk rest ih =>
      by_cases hroom : filled.length < (filled ++ free).length
      · have hfits := hwithin chunk rfl
        rw [fill_cons s hchunks hfits hroom, List.length_append,
          Nat.add_sub_cancel_left]
        rcases Nat.lt_or_ge free.length (chunk.length - within) with
            hpart | hwhole
        · -- the buffer is full
          rw [Nat.min_eq_right hpart.le, copyInto_append]
          have hlength : ((chunk.drop within).take free.length).length =
              free.length := by
            rw [List.length_take, List.length_drop]
            omega
          have hwanted : ((chunk :: rest).flatten.drop within).take
              free.length = (chunk.drop within).take free.length := by
            rw [List.flatten_cons, List.drop_append_of_le_length hfits,
              List.take_append_of_le_length]
            rw [List.length_drop]
            omega
          rw [hwanted, fill_of_done]
          · rw [hlength]
          · left
            simp [hlength]
        · -- the rest of the segment is copied, and the next one is begun
          have hnext : s.chunks = (front ++ [chunk]) ++ rest := by
            rw [hchunks, List.append_assoc, List.singleton_append]
          have hlength : (chunk.drop within).length = chunk.length - within :=
            List.length_drop
          have hstep := ih hnext (fun _ _ => Nat.zero_le _)
            (filled ++ chunk.drop within)
            (free.drop (chunk.drop within).length)
          have hwanted : ((chunk :: rest).flatten.drop within).take
              free.length = chunk.drop within ++ (rest.flatten.drop 0).take
                (free.drop (chunk.drop within).length).length := by
            rw [List.flatten_cons, List.drop_append_of_le_length hfits,
              List.take_append, List.take_of_length_le (by omega),
              List.drop_zero, hlength, List.length_drop]
          have hplace : (front ++ [chunk]).length = front.length + 1 := by
            rw [List.length_append, List.length_singleton]
          have hoffset : (front ++ [chunk]).flatten.length + 0 =
              front.flatten.length + within + (chunk.length - within) := by
            rw [List.flatten_append, List.length_append,
              List.flatten_singleton]
            omega
          rw [Nat.min_eq_left hwhole,
            List.take_of_length_le (Nat.le_of_eq hlength), copyInto_append,
            hwanted, ← hoffset, ← hplace, ← hlength, ← List.length_append,
            hstep]
          simp only [List.length_append, List.append_assoc, List.drop_drop,
            Nat.add_assoc]
      · have hempty : free = [] := by
          rw [List.length_append] at hroom
          exact List.length_eq_zero_iff.mp (by omega)
        rw [fill_of_done _ (Or.inl (Nat.le_of_not_lt hroom)), hempty]
        simp

/-- A read never stops the program, and fills the buffer from its start with
what is held from the offset on. -/
theorem readAt_eq (s : Segments) (offset : Nat) (buf : List UInt8) :
    s.readAt offset buf =
      some (((s.chunks.flatten.drop offset).take buf.length).length,
        (s.chunks.flatten.drop offset).take buf.length ++
          buf.drop ((s.chunks.flatten.drop offset).take buf.length).length)
    := by
  obtain ⟨front, rest, hchunks, hbefore, hin⟩ := exists_split s.chunks offset
  have hfits : ∀ chunk ∈ rest.head?,
      offset - front.flatten.length ≤ chunk.length := by
    intro chunk hchunk
    have hless := hin chunk hchunk
    omega
  have hfill := s.fill_eq hchunks hfits [] buf
  rw [List.nil_append, List.length_nil, Nat.add_sub_cancel' hbefore,
    Nat.zero_add, List.nil_append] at hfill
  rw [readAt, s.partitionPoint_ends hchunks hbefore hin, hfill, hchunks,
    List.flatten_append, List.drop_append, List.drop_eq_nil_of_le hbefore,
    List.nil_append]

/-! ### What was appended -/

theorem flatten_push (s : Segments) (bytes : List UInt8) :
    (s.push bytes).chunks.flatten = s.chunks.flatten ++ bytes := by
  unfold push
  split
  · next hempty => rw [hempty, List.append_nil]
  · rw [List.flatten_append, List.flatten_singleton]

theorem flatten_pushes (s : Segments) (appended : List (List UInt8)) :
    (appended.foldl push s).chunks.flatten =
      s.chunks.flatten ++ appended.flatten := by
  induction appended generalizing s with
  | nil => rw [List.foldl_nil, List.flatten_nil, List.append_nil]
  | cons bytes appended ih =>
      rw [List.foldl_cons, ih, flatten_push, List.flatten_cons,
        List.append_assoc]

/-- A read of what was appended, in segments of any lengths, is a read of all of
it in one piece. -/
theorem readAt_pushes (appended : List (List UInt8)) (offset : Nat)
    (buf : List UInt8) :
    (appended.foldl push {}).readAt offset buf =
      some (min buf.length (appended.flatten.length - offset),
        (appended.flatten.drop offset).take buf.length ++
          buf.drop (min buf.length (appended.flatten.length - offset))) := by
  rw [readAt_eq, flatten_pushes, List.length_take, List.length_drop]
  rfl

end Segments

end Handles

end Bridgething
