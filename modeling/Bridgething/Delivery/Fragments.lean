/-
The body that a fragment stream sends: the ranges of its source one after the
other, cut wherever a range, a fragment or a read ends, and taken up at any
offset.
-/
import Bridgething.Delivery.Sender

namespace Bridgething

namespace Delivery

open Gateway

/-- What one turn of the loop meets: whether the window admits it in time, how
many bytes the source has ready or why it fails, and whether the link is
open. -/
structure Turn where
  admitted : Bool
  ready : Except String Nat
  linkOpen : Bool

/-- A read may come short of what is wanted, and of the source's end. -/
def readAt (source : Bytes) (offset want ready : Nat) : Bytes :=
  (source.drop offset).take (min want ready)

def FragmentStream.turn (stream : FragmentStream) (source : Bytes) (walk : Walk)
    (turn : Turn) : Stage × Option TransferFragment :=
  if turn.admitted then
    stream.push walk
      (turn.ready.map
        (readAt source (FragmentStream.sourceOffset walk) (stream.want walk)))
      turn.linkOpen
  else (.done (.error (.stalled stream.transferId walk.streamOffset)), none)

/-- The loop over as many turns as there are, and what it sends in them. -/
def FragmentStream.turns (stream : FragmentStream) (source : Bytes) :
    Stage → List Turn → Stage × List TransferFragment
  | .head walk, turn :: rest =>
      let (stage, fragment) := stream.turn source walk turn
      let (last, sent) := stream.turns source stage rest
      (last, fragment.toList ++ sent)
  | stage, _ => (stage, [])

/-- The ranges of a source, one after the other. -/
def streamBytes (source : Bytes) (ranges : List SourceRange) : Bytes :=
  ranges.flatMap fun range => (source.drop range.start).take range.length

/-- From one end of the fragment to the other in one range of the stream. -/
def InOneRange (ranges : List SourceRange) (fragment : TransferFragment) :
    Prop :=
  ∃ before range after, ranges = before ++ range :: after ∧
    totalLength before ≤ fragment.offset.toNat ∧
    fragment.offset.toNat + fragment.bytes.length ≤
      totalLength before + range.length

/-- Fragments that go from one offset of the stream to another. -/
inductive Tiles (stream : FragmentStream) :
    Nat → List TransferFragment → Nat → Prop
  | nil (offset : Nat) : Tiles stream offset [] offset
  | cons {offset upto : Nat} {fragment : TransferFragment}
      {rest : List TransferFragment}
      (hid : fragment.transferId = stream.transferId)
      (hoffset : fragment.offset.toNat = offset)
      (hsome : fragment.bytes ≠ [])
      (hfits : fragment.bytes.length ≤ stream.fragmentBytes)
      (hinside : InOneRange stream.ranges fragment)
      (hrest : Tiles stream (offset + fragment.bytes.length) rest upto) :
      Tiles stream offset (fragment :: rest) upto

/-- The window admits it, the source has something and the link is open. -/
def Turn.Works (turn : Turn) : Prop :=
  turn.admitted = true ∧ turn.linkOpen = true ∧
    ∃ ready, turn.ready = .ok ready ∧ 0 < ready

def Stage.outcome : Stage → Option (Except SendError Nat)
  | .done outcome => some outcome
  | _ => none

/-- What is sent from one offset to another, with `pushed` bytes sent before. -/
structure Sends (stream : FragmentStream) (source : Bytes) (offset pushed : Nat)
    (turns : List Turn) (stage : Stage) (sent : List TransferFragment)
    (upto : Nat) : Prop where
  tiles : Tiles stream offset sent upto
  body : (streamBytes source stream.ranges).drop offset =
    sent.flatMap TransferFragment.bytes ++
      (streamBytes source stream.ranges).drop upto
  whole : ∀ count, stage.outcome = some (.ok count) →
    (streamBytes source stream.ranges).drop upto = [] ∧
      count = pushed + (stream.total - offset)
  refused : ∀ place, stage.outcome = some (.error (.offsetOverflow place)) →
    place = upto ∧ 2 ^ 32 ≤ place
  ends : (∀ turn ∈ turns, turn.Works) → 0 < stream.fragmentBytes →
    stream.total ≤ 2 ^ 32 → stream.total - offset ≤ turns.length →
    ∃ count, stage.outcome = some (.ok count)

section

variable {source : Bytes} {ranges before : List SourceRange}
variable {stream : FragmentStream} {walk : Walk}

@[simp] theorem totalLength_nil : totalLength [] = 0 := rfl

@[simp] theorem totalLength_cons (range : SourceRange)
    (rest : List SourceRange) :
    totalLength (range :: rest) = range.length + totalLength rest := by
  simp [totalLength]

@[simp] theorem totalLength_append (left right : List SourceRange) :
    totalLength (left ++ right) = totalLength left + totalLength right := by
  simp [totalLength]

/-- Ranges that lie in the source. -/
def Within (source : Bytes) (ranges : List SourceRange) : Prop :=
  ∀ range ∈ ranges, range.start + range.length ≤ source.length

theorem streamBytes_length (h : Within source ranges) :
    (streamBytes source ranges).length = totalLength ranges := by
  induction ranges with
  | nil => rfl
  | cons range rest ih =>
      have hrange := h range List.mem_cons_self
      have hrest := ih fun other hother =>
        h other (List.mem_cons_of_mem _ hother)
      simp only [streamBytes, List.flatMap_cons, List.length_append,
        List.length_take, List.length_drop, totalLength_cons] at hrest ⊢
      omega

/-- A walk that has come through the ranges before its own. -/
structure Walk.Stands (walk : Walk) (ranges : List SourceRange) : Prop where
  split : ∃ before range rest, ranges = before ++ range :: rest ∧
    walk.ranges = range :: rest ∧ walk.rangeStart = totalLength before ∧
    walk.rangeStart ≤ walk.streamOffset ∧
    walk.streamOffset < walk.rangeStart + range.length

/-- From some point of the ranges the stream goes on inside one of those that
are left, or they are all behind it. -/
theorem enter_stands (before rest : List SourceRange)
    (streamOffset pushed : Nat) (hranges : ranges = before ++ rest)
    (hbehind : totalLength before ≤ streamOffset) :
    (enter rest (totalLength before) streamOffset pushed = .done (.ok pushed) ∧
      totalLength ranges ≤ streamOffset) ∨
    ∃ walk, enter rest (totalLength before) streamOffset pushed = .head walk ∧
      walk.streamOffset = streamOffset ∧ walk.pushed = pushed ∧
      walk.Stands ranges := by
  induction rest generalizing before with
  | nil =>
      rw [List.append_nil] at hranges
      exact Or.inl ⟨rfl, hranges ▸ hbehind⟩
  | cons range rest ih =>
      by_cases hinside : streamOffset < totalLength before + range.length
      · refine Or.inr
          ⟨⟨range :: rest, totalLength before, streamOffset, pushed⟩, ?_, rfl,
            rfl, ⟨before, range, rest, hranges, rfl, rfl, hbehind, hinside⟩⟩
        simp [enter, skipRanges, hinside]
      · have hsplit : ranges = (before ++ [range]) ++ rest := by
          rw [hranges, List.append_assoc]
          rfl
        have hpassed : totalLength (before ++ [range]) =
            totalLength before + range.length := by simp
        have hrest := ih (before ++ [range]) hsplit (by omega)
        have hskip : enter (range :: rest) (totalLength before) streamOffset
            pushed =
              enter rest (totalLength (before ++ [range])) streamOffset
                pushed := by
          simp [enter, skipRanges, hinside]
        rw [hskip]
        exact hrest

/-- The stream from a walk's offset on begins in the walk's own range. -/
theorem streamBytes_drop {range : SourceRange} {rest : List SourceRange}
    {offset : Nat} (hwithin : Within source (before ++ range :: rest))
    (hbehind : totalLength before ≤ offset)
    (hinside : offset ≤ totalLength before + range.length) :
    (streamBytes source (before ++ range :: rest)).drop offset =
      (source.drop (range.start + (offset - totalLength before))).take
          (totalLength before + range.length - offset) ++
        streamBytes source rest := by
  have hfirst : (streamBytes source before).length = totalLength before :=
    streamBytes_length fun other hother =>
      hwithin other (List.mem_append_left _ hother)
  have hrange := hwithin range (List.mem_append_right _ List.mem_cons_self)
  have hslice : ((source.drop range.start).take range.length).length =
      range.length := by
    rw [List.length_take, List.length_drop]
    omega
  have hsplit : streamBytes source (before ++ range :: rest) =
      streamBytes source before ++
        ((source.drop range.start).take range.length ++
          streamBytes source rest) := by
    simp [streamBytes]
  rw [hsplit, List.drop_append, hfirst,
    List.drop_eq_nil_of_le (by omega : _ ≤ offset), List.nil_append,
    List.drop_append, hslice, List.drop_take, List.drop_drop]
  have hnone : offset - totalLength before - range.length = 0 := by omega
  have hleft : range.length - (offset - totalLength before) =
      totalLength before + range.length - offset := by omega
  rw [hnone, hleft, List.drop_zero]

/-- What a walk reads: the next bytes of the stream, and no more than its range
and a fragment hold. -/
theorem Walk.Stands.read (h : walk.Stands stream.ranges)
    (hwithin : Within source stream.ranges) (ready : Nat) :
    ∃ bytes, readAt source (FragmentStream.sourceOffset walk)
        (stream.want walk) ready = bytes ∧
      (streamBytes source stream.ranges).drop walk.streamOffset =
        bytes ++ (streamBytes source stream.ranges).drop
          (walk.streamOffset + bytes.length) ∧
      bytes.length ≤ stream.fragmentBytes ∧
      (0 < stream.fragmentBytes → 0 < ready → bytes ≠ []) ∧
      ∃ before range rest, stream.ranges = before ++ range :: rest ∧
        walk.ranges = range :: rest ∧ walk.rangeStart = totalLength before ∧
        totalLength before ≤ walk.streamOffset ∧
        walk.streamOffset + bytes.length ≤
          totalLength before + range.length := by
  obtain ⟨before, range, rest, hranges, hwalk, hstart, hbehind, hinside⟩ :=
    h.split
  have hrange := hwithin range
    (hranges ▸ List.mem_append_right _ List.mem_cons_self)
  rw [hstart] at hbehind hinside
  have hdrop := streamBytes_drop (hranges ▸ hwithin) hbehind hinside.le
  have hoffset : FragmentStream.sourceOffset walk =
      range.start + (walk.streamOffset - totalLength before) := by
    simp [FragmentStream.sourceOffset, hwalk, hstart]
  have hwant : stream.want walk = min stream.fragmentBytes
      (totalLength before + range.length - walk.streamOffset) := by
    simp [FragmentStream.want, hwalk, hstart]
  let bytes := readAt source (FragmentStream.sourceOffset walk)
    (stream.want walk) ready
  have hlength : bytes.length = min (stream.want walk) ready := by
    simp only [bytes, readAt, List.length_take, List.length_drop, hoffset]
    omega
  have hprefix : bytes <+: (streamBytes source stream.ranges).drop
      walk.streamOffset := by
    rw [hranges, hdrop]
    refine List.IsPrefix.trans ?_ (List.prefix_append _ _)
    simp only [bytes, readAt, hoffset]
    apply List.take_prefix_take_left
    omega
  refine ⟨bytes, rfl, ?_, by omega, ?_, before, range, rest, hranges, hwalk,
    hstart, hbehind, by omega⟩
  · obtain ⟨more, hmore⟩ := hprefix
    have hafter := congrArg (List.drop bytes.length) hmore
    rw [List.drop_left, List.drop_drop] at hafter
    rw [← hafter]
    exact hmore.symm
  · intro hpositive hready hnil
    rw [hnil, List.length_nil] at hlength
    omega

/-- A turn ends the stream with an error, or sends what it reads and goes on. -/
theorem Walk.Stands.turn (h : walk.Stands stream.ranges)
    (hwithin : Within source stream.ranges) (turn : Turn) :
    (∃ error, stream.turn source walk turn = (.done (.error error), none) ∧
      (∀ place, error = .offsetOverflow place →
        place = walk.streamOffset ∧ 2 ^ 32 ≤ place) ∧
      (turn.Works → 0 < stream.fragmentBytes → 2 ^ 32 ≤ walk.streamOffset)) ∨
    ∃ stage fragment, stream.turn source walk turn = (stage, some fragment) ∧
      fragment.transferId = stream.transferId ∧
      fragment.offset.toNat = walk.streamOffset ∧ fragment.bytes ≠ [] ∧
      fragment.bytes.length ≤ stream.fragmentBytes ∧
      InOneRange stream.ranges fragment ∧
      (streamBytes source stream.ranges).drop walk.streamOffset =
        fragment.bytes ++ (streamBytes source stream.ranges).drop
          (walk.streamOffset + fragment.bytes.length) ∧
      walk.streamOffset + fragment.bytes.length ≤ stream.total ∧
      ((stage = .done (.ok (walk.pushed + fragment.bytes.length)) ∧
          stream.total ≤ walk.streamOffset + fragment.bytes.length) ∨
        ∃ next, stage = .head next ∧
          next.streamOffset = walk.streamOffset + fragment.bytes.length ∧
          next.pushed = walk.pushed + fragment.bytes.length ∧
          next.Stands stream.ranges) := by
  unfold FragmentStream.turn
  by_cases hadmitted : turn.admitted
  · rw [if_pos hadmitted]
    unfold FragmentStream.push
    by_cases hlarge : walk.streamOffset ≥ 2 ^ 32
    · rw [if_pos hlarge]
      refine Or.inl ⟨_, rfl, ?_, fun _ _ => hlarge⟩
      rintro place ⟨⟩
      exact ⟨rfl, hlarge⟩
    · rw [if_neg hlarge]
      cases hready : turn.ready with
      | error reason =>
          refine Or.inl ⟨_, rfl, fun _ => (nomatch ·), ?_⟩
          rintro ⟨-, -, ready, hok, -⟩
          rw [hready] at hok
          contradiction
      | ok ready =>
          obtain ⟨bytes, hread, hbody, hfits, hsome, before, range, rest,
            hranges, hwalk, hstart, hbehind, hinside⟩ := h.read hwithin ready
          simp only [Except.map, hread]
          by_cases hnil : bytes = []
          · rw [if_pos hnil]
            refine Or.inl ⟨_, rfl, fun _ => (nomatch ·), ?_⟩
            rintro ⟨-, -, got, hok, hpositive⟩ hfragment
            rw [hready, Except.ok.injEq] at hok
            exact absurd hnil (hsome hfragment (hok ▸ hpositive))
          · rw [if_neg hnil]
            by_cases hopen : turn.linkOpen
            · rw [if_neg (not_not_intro hopen)]
              have hplace : walk.streamOffset.toUInt32.toNat =
                  walk.streamOffset := Nat.mod_eq_of_lt (Nat.not_le.mp hlarge)
              have hentered := enter_stands before (range :: rest)
                (walk.streamOffset + bytes.length) (walk.pushed + bytes.length)
                hranges (by omega)
              rw [← hstart, ← hwalk] at hentered
              have htotal : stream.total = totalLength before +
                  (range.length + totalLength rest) := by
                simp [FragmentStream.total, hranges]
              refine Or.inr ⟨_, _, rfl, rfl, hplace, hnil, hfits, ?_, hbody,
                by simp only; omega, hentered⟩
              refine ⟨before, range, rest, hranges, ?_, ?_⟩
              · rw [hplace]
                exact hbehind
              · rw [hplace]
                exact hinside
            · rw [if_pos hopen]
              refine Or.inl ⟨_, rfl, fun _ => (nomatch ·), ?_⟩
              rintro ⟨-, hworks, -⟩
              exact absurd hworks hopen
  · rw [if_neg hadmitted]
    refine Or.inl ⟨_, rfl, fun _ => (nomatch ·), ?_⟩
    rintro ⟨hworks, -⟩
    exact absurd hworks hadmitted

theorem FragmentStream.turns_done (outcome : Except SendError Nat)
    (turns : List Turn) :
    stream.turns source (.done outcome) turns = (.done outcome, []) := by
  cases turns <;> rfl

theorem Walk.Stands.offset_lt (h : walk.Stands stream.ranges) :
    walk.streamOffset < stream.total := by
  obtain ⟨before, range, rest, hranges, -, hstart, -, hinside⟩ := h.split
  simp only [FragmentStream.total, hranges, totalLength_append,
    totalLength_cons]
  omega

/-- Over any turns, a walk sends the stream from its offset on. -/
theorem Walk.Stands.sends (hwithin : Within source stream.ranges)
    (turns : List Turn) (h : walk.Stands stream.ranges) :
    ∃ upto, Sends stream source walk.streamOffset walk.pushed turns
      (stream.turns source (.head walk) turns).1
      (stream.turns source (.head walk) turns).2 upto := by
  induction turns generalizing walk with
  | nil =>
      have hahead := h.offset_lt
      refine ⟨walk.streamOffset, Tiles.nil _, rfl, fun _ => (nomatch ·),
        fun _ => (nomatch ·), ?_⟩
      intro _ _ _ hlength
      rw [List.length_nil] at hlength
      omega
  | cons turn rest ih =>
      have hahead := h.offset_lt
      rcases h.turn hwithin turn with ⟨error, heq, hrefused, hworks⟩ |
        ⟨stage, fragment, heq, hid, hoffset, hsome, hfits, hinside, hbody,
          hupto, hnext⟩
      · simp only [FragmentStream.turns, heq, FragmentStream.turns_done]
        refine ⟨walk.streamOffset, Tiles.nil _, rfl, fun _ => (nomatch ·), ?_,
          ?_⟩
        · intro place hplace
          exact hrefused place (Except.error.inj (Option.some.inj hplace))
        · intro hall hpositive htotal _
          have hlarge := hworks (hall turn List.mem_cons_self) hpositive
          omega
      · have hlength : 0 < fragment.bytes.length :=
          List.length_pos_iff.mpr hsome
        rcases hnext with ⟨rfl, hlast⟩ |
          ⟨next, rfl, hnextOffset, hpushed, hstands⟩
        · simp only [FragmentStream.turns, heq, FragmentStream.turns_done]
          have hall : (streamBytes source stream.ranges).drop
              (walk.streamOffset + fragment.bytes.length) = [] := by
            apply List.drop_eq_nil_of_le
            rw [streamBytes_length hwithin]
            exact hlast
          refine ⟨walk.streamOffset + fragment.bytes.length,
            Tiles.cons hid hoffset hsome hfits hinside (Tiles.nil _), ?_, ?_,
            fun _ => (nomatch ·), fun _ _ _ _ => ⟨_, rfl⟩⟩
          · simpa using hbody
          · intro count hcount
            refine ⟨hall, ?_⟩
            obtain rfl := Except.ok.inj (Option.some.inj hcount)
            omega
        · obtain ⟨upto, hsends⟩ := ih hstands
          rw [hnextOffset, hpushed] at hsends
          simp only [FragmentStream.turns, heq]
          refine ⟨upto,
            Tiles.cons hid hoffset hsome hfits hinside hsends.tiles, ?_, ?_,
            hsends.refused, ?_⟩
          · rw [hbody, hsends.body]
            simp
          · intro count hcount
            obtain ⟨hnone, hsum⟩ := hsends.whole count hcount
            exact ⟨hnone, by omega⟩
          · intro hall hpositive htotal hlong
            rw [List.length_cons] at hlong
            exact hsends.ends
              (fun other hother => hall other (List.mem_cons_of_mem _ hother))
              hpositive htotal (by omega)

end

/-- Whatever the ranges, the offset to resume from, the reads and the window:
what is sent tiles the stream from that offset on, a whole run has sent all of
it and counts it, and an offset too large for the wire is refused there, with
nothing sent at it.  A run all of whose turns work is whole. -/
theorem fragments_tile (stream : FragmentStream) (source : Bytes)
    (hwithin : Within source stream.ranges) (turns : List Turn) :
    (∃ upto, Sends stream source stream.resumeFrom 0 turns
      (stream.turns source stream.start turns).1
      (stream.turns source stream.start turns).2 upto) ∧
    ∀ (walk : Walk) (turn : Turn), turn.admitted → 2 ^ 32 ≤ walk.streamOffset →
      stream.turn source walk turn =
        (.done (.error (.offsetOverflow walk.streamOffset)), none) := by
  constructor
  · have hstart := enter_stands [] stream.ranges stream.resumeFrom 0 rfl
      (Nat.zero_le _)
    rcases hstart with ⟨hdone, hbehind⟩ |
      ⟨walk, hhead, hoffset, hpushed, hstands⟩
    · have hstarted : stream.start = .done (.ok 0) := hdone
      rw [hstarted, FragmentStream.turns_done]
      have hnone : (streamBytes source stream.ranges).drop stream.resumeFrom =
          [] := by
        apply List.drop_eq_nil_of_le
        rw [streamBytes_length hwithin]
        exact hbehind
      refine ⟨stream.resumeFrom, Tiles.nil _, rfl, ?_, fun _ => (nomatch ·),
        fun _ _ _ _ => ⟨_, rfl⟩⟩
      intro count hcount
      obtain rfl := Except.ok.inj (Option.some.inj hcount)
      have htotal : stream.total ≤ stream.resumeFrom := hbehind
      exact ⟨hnone, by omega⟩
    · have hstarted : stream.start = .head walk := hhead
      obtain ⟨upto, hsends⟩ := hstands.sends hwithin turns
      rw [hoffset, hpushed] at hsends
      rw [hstarted]
      exact ⟨upto, hsends⟩
  · intro walk turn hadmitted hlarge
    unfold FragmentStream.turn FragmentStream.push
    rw [if_pos hadmitted, if_pos hlarge]

/-- Two ranges of a source, read a byte short, and taken up inside the first. -/
theorem fragments_tile_short :
    ∃ upto, Sends ⟨0, [⟨4, 3⟩, ⟨0, 2⟩], 1, 2⟩ [0, 1, 2, 3, 4, 5, 6] 1 0
      (List.replicate 4 ⟨true, .ok 1, true⟩) (.done (.ok 4))
      [⟨0, 1, [5]⟩, ⟨0, 2, [6]⟩, ⟨0, 3, [0]⟩, ⟨0, 4, [1]⟩] upto :=
  (fragments_tile ⟨0, [⟨4, 3⟩, ⟨0, 2⟩], 1, 2⟩ [0, 1, 2, 3, 4, 5, 6]
    (by simp [Within]) (List.replicate 4 ⟨true, .ok 1, true⟩)).1

end Delivery

end Bridgething
