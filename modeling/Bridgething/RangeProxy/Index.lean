/-
The index of the range cache: which bytes of an asset lie where in its log.  A
later insert takes the place of the bytes it covers.
-/
import Bridgething.Lib.OrderedMap

namespace Bridgething

namespace RangeProxy

def U32_MAX : Nat := 2 ^ 32 - 1

/-- The bytes of the log that a span stands for, from the offset it is held
under. -/
structure Span where
  logOff : Nat
  len : Nat
deriving Repr, DecidableEq

abbrev Spans := OrderedMap Nat Span

structure CacheIndex where
  spans : Spans := .empty

inductive CacheSeg
  | cached (logOff len : Nat)
  | missing (zckStart len : Nat)
deriving Repr, DecidableEq

/-- What is left of a span after `stop` goes back under `stop`. -/
def keepTail (spans : Spans) (key : Nat) (span : Span) (stop : Nat) : Spans :=
  if key + span.len > stop then
    spans.put stop ⟨span.logOff + (stop - key), key + span.len - stop⟩
  else spans

/-- The span that reaches over the start of a range loses what lies in it. -/
def clipHead (spans : Spans) (start stop : Nat) : Spans :=
  match spans.floor? start with
  | none => spans
  | some (headStart, head) =>
      if headStart + head.len > start then
        let rest := spans.remove headStart
        let kept :=
          if headStart < start then
            rest.put headStart { head with len := start - headStart }
          else rest
        keepTail kept headStart head stop
      else spans

/-- A span that starts in a range loses what lies in it. -/
def clipOverlap (stop : Nat) (spans : Spans) (key : Nat) : Spans :=
  match spans.get? key with
  | none => spans
  | some span => keepTail (spans.remove key) key span stop

def CacheIndex.insert (index : CacheIndex) (zckStart logOff len : Nat) :
    CacheIndex :=
  let stop := zckStart + len
  if len = 0 ∨ stop > U32_MAX then index
  else
    let clipped := clipHead index.spans zckStart stop
    let cleared :=
      (clipped.keysWithin zckStart stop).foldl (clipOverlap stop) clipped
    ⟨cleared.put zckStart ⟨logOff, len⟩⟩

/-- The span that holds a byte. -/
def CacheIndex.hit (index : CacheIndex) (pos : Nat) : Option (Nat × Span) :=
  (index.spans.floor? (pos % 2 ^ 32)).filter fun entry =>
    entry.1 + entry.2.len > pos

/-- Where the gap at a byte ends. -/
def CacheIndex.gapEnd (index : CacheIndex) (pos stop : Nat) : Nat :=
  min (((index.spans.above? (pos % 2 ^ 32)).map Prod.fst).getD stop) stop

/-- The loop of `segments`; every turn goes on by a byte at least. -/
def CacheIndex.segmentsFrom (index : CacheIndex) (stop : Nat) :
    Nat → Nat → List CacheSeg
  | 0, _ => []
  | fuel + 1, pos =>
      if pos < stop then
        match index.hit pos with
        | some (key, span) =>
            let within := pos - key
            let take := min (span.len - within) (stop - pos)
            .cached (span.logOff + within) take ::
              index.segmentsFrom stop fuel (pos + take)
        | none =>
            let next := index.gapEnd pos stop
            .missing (pos % 2 ^ 32) (next - pos) ::
              index.segmentsFrom stop fuel next
      else []

def CacheIndex.segments (index : CacheIndex) (zckStart len : Nat) :
    List CacheSeg :=
  index.segmentsFrom (zckStart + len) len zckStart

/-! ### What the index stands for -/

structure Insert where
  zckStart : Nat
  logOff : Nat
  len : Nat
deriving Repr, DecidableEq

namespace Insert

def covers (insert : Insert) (byte : Nat) : Bool :=
  insert.zckStart ≤ byte ∧ byte < insert.zckStart + insert.len

/-- Where the log has a byte that the insert covers. -/
def position (insert : Insert) (byte : Nat) : Nat :=
  insert.logOff + (byte - insert.zckStart)

/-- The insert ends before the last offset. -/
def fits (insert : Insert) : Bool :=
  insert.zckStart + insert.len ≤ U32_MAX

end Insert

/-- Where the log has a byte, after the latest of the inserts that cover it. -/
def assigned (inserts : List Insert) (byte : Nat) : Option Nat :=
  (inserts.reverse.find? fun insert => insert.covers byte).map
    fun insert => insert.position byte

def CacheIndex.of (inserts : List Insert) : CacheIndex :=
  inserts.foldl (fun index insert =>
    index.insert insert.zckStart insert.logOff insert.len) {}

/-- Segments that tile the bytes from a place to the end of a range: the cached
ones by where the map has each byte, the missing ones as far as it has none. -/
inductive Tiles (map : Nat → Option Nat) (start stop : Nat) :
    Nat → List CacheSeg → Prop
  | nil : Tiles map start stop stop []
  | cached {pos logOff len : Nat} {rest : List CacheSeg} (hlen : 0 < len)
      (hstop : pos + len ≤ stop)
      (hheld : ∀ ahead < len, map (pos + ahead) = some (logOff + ahead))
      (hrest : Tiles map start stop (pos + len) rest) :
      Tiles map start stop pos (.cached logOff len :: rest)
  | missing {pos len : Nat} {rest : List CacheSeg} (hlen : 0 < len)
      (hstop : pos + len ≤ stop)
      (hnone : ∀ ahead < len, map (pos + ahead) = none)
      (hbefore : pos = start ∨ (map (pos - 1)).isSome)
      (hafter : pos + len = stop ∨ (map (pos + len)).isSome)
      (hrest : Tiles map start stop (pos + len) rest) :
      Tiles map start stop pos (.missing pos len :: rest)

/-- The spans are neither empty nor overlapping. -/
structure Disjoint (spans : Spans) : Prop where
  nonempty : ∀ key span, spans.get? key = some span → 0 < span.len
  bounded : ∀ key span, spans.get? key = some span →
    key + span.len ≤ U32_MAX
  apart : ∀ key other span rival, spans.get? key = some span →
    spans.get? other = some rival → key < other → key + span.len ≤ other

/-- A span has a byte at a place of the log. -/
def Holds (spans : Spans) (byte position : Nat) : Prop :=
  ∃ key span, spans.get? key = some span ∧ key ≤ byte ∧
    byte < key + span.len ∧ position = span.logOff + (byte - key)

theorem disjoint_empty : Disjoint .empty :=
  ⟨fun _ _ h => (nomatch h), fun _ _ h => (nomatch h),
    fun _ _ _ _ h => (nomatch h)⟩

theorem not_holds_empty (byte position : Nat) :
    ¬ Holds .empty byte position := by
  rintro ⟨key, span, hget, -⟩
  exact nomatch hget

namespace Disjoint

variable {spans : Spans}

/-- The span of a byte is the only one. -/
theorem key_eq (h : Disjoint spans) {key other : Nat} {span rival : Span}
    {byte : Nat} (hget : spans.get? key = some span)
    (hrival : spans.get? other = some rival) (hle : key ≤ byte)
    (hlt : byte < key + span.len) (hother : other ≤ byte)
    (hbyte : byte < other + rival.len) : key = other := by
  rcases Nat.lt_trichotomy key other with hbefore | hsame | hafter
  · have hapart := h.apart key other span rival hget hrival hbefore
    omega
  · exact hsame
  · have hapart := h.apart other key rival span hrival hget hafter
    omega

/-- A span goes where no byte is held. -/
theorem put (h : Disjoint spans) (start logOff : Nat) {len : Nat}
    (hlen : 0 < len) (hstop : start + len ≤ U32_MAX)
    (hfree : ∀ byte position, Holds spans byte position →
      byte < start ∨ start + len ≤ byte) :
    Disjoint (spans.put start ⟨logOff, len⟩) ∧
      ∀ byte position, Holds (spans.put start ⟨logOff, len⟩) byte position ↔
        (start ≤ byte ∧ byte < start + len ∧
          position = logOff + (byte - start)) ∨ Holds spans byte position := by
  have hentry : ∀ key span, spans.get? key = some span →
      key + span.len ≤ start ∨ start + len ≤ key := by
    intro key span hget
    have hpos := h.nonempty key span hget
    have hfirst := hfree key _ ⟨key, span, hget, Nat.le_refl _, by omega, rfl⟩
    by_cases hbefore : key < start
    · by_contra hover
      have hmid := hfree start _ ⟨key, span, hget, by omega, by omega, rfl⟩
      omega
    · omega
  have hget : ∀ key span, (spans.put start ⟨logOff, len⟩).get? key =
      some span ↔ (key = start ∧ span = ⟨logOff, len⟩) ∨
        (key ≠ start ∧ spans.get? key = some span) := by
    intro key span
    rw [OrderedMap.get?_put]
    split
    · rename_i hsame
      simp [hsame, eq_comm]
    · rename_i hne
      simp [hne]
  refine ⟨⟨?_, ?_, ?_⟩, ?_⟩
  · intro key span hfound
    rcases (hget key span).mp hfound with ⟨-, rfl⟩ | ⟨-, hold⟩
    · exact hlen
    · exact h.nonempty key span hold
  · intro key span hfound
    rcases (hget key span).mp hfound with ⟨rfl, rfl⟩ | ⟨-, hold⟩
    · exact hstop
    · exact h.bounded key span hold
  · intro key other span rival hfound hrival hlt
    rcases (hget key span).mp hfound with ⟨rfl, rfl⟩ | ⟨-, hold⟩
    · rcases (hget other rival).mp hrival with ⟨rfl, rfl⟩ | ⟨-, hother⟩
      · exact absurd hlt (Nat.lt_irrefl _)
      · have hside := hentry other rival hother
        have hpos := h.nonempty other rival hother
        show key + len ≤ other
        omega
    · rcases (hget other rival).mp hrival with ⟨rfl, rfl⟩ | ⟨-, hother⟩
      · have hside := hentry key span hold
        omega
      · exact h.apart key other span rival hold hother hlt
  · intro byte position
    constructor
    · rintro ⟨key, span, hfound, hle, hlt, rfl⟩
      rcases (hget key span).mp hfound with ⟨rfl, rfl⟩ | ⟨-, hold⟩
      · exact Or.inl ⟨hle, hlt, rfl⟩
      · exact Or.inr ⟨key, span, hold, hle, hlt, rfl⟩
    · rintro (⟨hle, hlt, rfl⟩ | ⟨key, span, hold, hle, hlt, rfl⟩)
      · exact ⟨start, ⟨logOff, len⟩, (hget _ _).mpr (Or.inl ⟨rfl, rfl⟩), hle,
          hlt, rfl⟩
      · have hside := hfree byte _ ⟨key, span, hold, hle, hlt, rfl⟩
        refine ⟨key, span, (hget _ _).mpr (Or.inr ⟨?_, hold⟩), hle, hlt, rfl⟩
        rintro rfl
        have hside := hentry key span hold
        omega

/-- A span is taken away. -/
theorem remove (h : Disjoint spans) {key : Nat} {span : Span}
    (hget : spans.get? key = some span) :
    Disjoint (spans.remove key) ∧
      ∀ byte position, Holds (spans.remove key) byte position ↔
        Holds spans byte position ∧ (byte < key ∨ key + span.len ≤ byte) := by
  have hkept : ∀ other rival, (spans.remove key).get? other = some rival ↔
      other ≠ key ∧ spans.get? other = some rival := by
    intro other rival
    rw [OrderedMap.get?_remove]
    split
    · rename_i hsame
      simp [hsame]
    · rename_i hne
      simp [hne]
  refine ⟨⟨?_, ?_, ?_⟩, ?_⟩
  · intro other rival hrival
    exact h.nonempty other rival ((hkept _ _).mp hrival).2
  · intro other rival hrival
    exact h.bounded other rival ((hkept _ _).mp hrival).2
  · intro left right first second hfirst hsecond hlt
    exact h.apart left right first second ((hkept _ _).mp hfirst).2
      ((hkept _ _).mp hsecond).2 hlt
  · intro byte position
    constructor
    · rintro ⟨other, rival, hrival, hle, hlt, rfl⟩
      obtain ⟨hne, hold⟩ := (hkept _ _).mp hrival
      refine ⟨⟨other, rival, hold, hle, hlt, rfl⟩, ?_⟩
      by_contra hover
      exact hne (h.key_eq hold hget hle hlt (by omega) (by omega))
    · rintro ⟨⟨other, rival, hold, hle, hlt, rfl⟩, hside⟩
      refine ⟨other, rival, (hkept _ _).mpr ⟨?_, hold⟩, hle, hlt, rfl⟩
      rintro rfl
      rw [hget] at hold
      obtain rfl := Option.some.inj hold
      omega

end Disjoint

end RangeProxy

end Bridgething
