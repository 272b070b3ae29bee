/-
The index refines the map of the latest inserts: what an insert does to the
bytes that the spans hold, and what a lookup tiles.
-/
import Bridgething.RangeProxy.Index

namespace Bridgething

namespace RangeProxy

/-! ### One insert -/

section Clip

variable {spans : Spans} {start stop : Nat}

theorem Disjoint.keepTail (h : Disjoint spans) {key : Nat} (span : Span)
    (hkey : key ≤ stop) (hbound : key + span.len ≤ U32_MAX)
    (hfree : ∀ byte position, Holds spans byte position →
      byte < stop ∨ key + span.len ≤ byte) :
    Disjoint (RangeProxy.keepTail spans key span stop) ∧
      ∀ byte position,
        Holds (RangeProxy.keepTail spans key span stop) byte position ↔
          (stop ≤ byte ∧ byte < key + span.len ∧
            position = span.logOff + (byte - key)) ∨
          Holds spans byte position := by
  unfold RangeProxy.keepTail
  split
  · rename_i hover
    obtain ⟨hdisjoint, hholds⟩ := h.put stop
      (span.logOff + (stop - key)) (by omega : 0 < key + span.len - stop)
      (by omega) (fun byte position hheld => by
        have hside := hfree byte position hheld
        omega)
    refine ⟨hdisjoint, fun byte position => (hholds byte position).trans ?_⟩
    constructor
    · rintro (⟨hle, hlt, rfl⟩ | hheld)
      · exact Or.inl ⟨hle, by omega, by omega⟩
      · exact Or.inr hheld
    · rintro (⟨hle, hlt, rfl⟩ | hheld)
      · exact Or.inl ⟨hle, by omega, by omega⟩
      · exact Or.inr hheld
  · refine ⟨h, fun byte position => ⟨Or.inr, ?_⟩⟩
    rintro (⟨hle, hlt, -⟩ | hheld)
    · omega
    · exact hheld

/-- The bytes of one span that lie in the range are no longer held. -/
theorem Disjoint.clip (h : Disjoint spans) (start : Nat) {key : Nat}
    {span : Span} (hget : spans.get? key = some span) (hrange : start ≤ stop)
    (hstop : key ≤ stop) (hstart : start < key + span.len) (kept : Spans)
    (hkept : kept = if key < start then
      (spans.remove key).put key { span with len := start - key }
      else spans.remove key) :
    Disjoint (RangeProxy.keepTail kept key span stop) ∧
      ∀ byte position,
        Holds (RangeProxy.keepTail kept key span stop) byte position ↔
          Holds spans byte position ∧ (byte < start ∨ stop ≤ byte ∨
            byte < key ∨ key + span.len ≤ byte) := by
  have hbound := h.bounded key span hget
  obtain ⟨hremoved, hrest⟩ := h.remove hget
  have hself : ∀ byte position, key ≤ byte → byte < key + span.len →
      (Holds spans byte position ↔ position = span.logOff + (byte - key)) := by
    intro byte position hle hlt
    constructor
    · rintro ⟨other, rival, hrival, hother, hbyte, rfl⟩
      obtain rfl := h.key_eq hget hrival hle hlt hother hbyte
      rw [hget] at hrival
      rw [Option.some.inj hrival]
    · rintro rfl
      exact ⟨key, span, hget, hle, hlt, rfl⟩
  have hhead : Disjoint kept ∧ ∀ byte position, Holds kept byte position ↔
      Holds spans byte position ∧
        (byte < start ∨ byte < key ∨ key + span.len ≤ byte) := by
    rw [hkept]
    split
    · rename_i hlt
      obtain ⟨hput, hheld⟩ := hremoved.put key span.logOff
        (by omega : 0 < start - key) (by omega) (fun byte position hheld => by
          have hside := ((hrest byte position).mp hheld).2
          omega)
      refine ⟨hput, fun byte position => (hheld byte position).trans ?_⟩
      rw [hrest]
      constructor
      · rintro (⟨hle, hbyte, hposition⟩ | ⟨hold, hside⟩)
        · exact ⟨(hself byte position hle (by omega)).mpr hposition,
            Or.inl (by omega)⟩
        · exact ⟨hold, Or.inr hside⟩
      · rintro ⟨hold, hside⟩
        by_cases hwithin : key ≤ byte ∧ byte < key + span.len
        · exact Or.inl ⟨hwithin.1, by omega,
            (hself byte position hwithin.1 hwithin.2).mp hold⟩
        · exact Or.inr ⟨hold, by omega⟩
    · rename_i hnot
      refine ⟨hremoved, fun byte position => (hrest byte position).trans ?_⟩
      constructor
      · rintro ⟨hold, hside⟩
        exact ⟨hold, Or.inr hside⟩
      · rintro ⟨hold, hside⟩
        exact ⟨hold, by omega⟩
  obtain ⟨htail, hheld⟩ := hhead.1.keepTail span hstop hbound
    (fun byte position hheld => by
      have hside := ((hhead.2 byte position).mp hheld).2
      by_contra hover
      omega)
  refine ⟨htail, fun byte position => (hheld byte position).trans ?_⟩
  rw [hhead.2]
  constructor
  · rintro (⟨hle, hlt, hposition⟩ | ⟨hold, hside⟩)
    · exact ⟨(hself byte position (by omega) hlt).mpr hposition,
        Or.inr (Or.inl hle)⟩
    · exact ⟨hold, by omega⟩
  · rintro ⟨hold, hside⟩
    by_cases hafter : stop ≤ byte ∧ byte < key + span.len
    · exact Or.inl ⟨hafter.1, hafter.2,
        (hself byte position (by omega) hafter.2).mp hold⟩
    · exact Or.inr ⟨hold, by omega⟩

theorem clipHead_spec (h : Disjoint spans) (hrange : start < stop) :
    Disjoint (clipHead spans start stop) ∧
      (∀ key span, (clipHead spans start stop).get? key = some span →
        key < start → key + span.len ≤ start) ∧
      ∀ byte, byte < start ∨ stop ≤ byte → ∀ position,
        Holds (clipHead spans start stop) byte position ↔
          Holds spans byte position := by
  unfold clipHead
  split
  · rename_i hnone
    refine ⟨h, fun key span hget hlt => ?_, fun _ _ _ => Iff.rfl⟩
    have hafter := OrderedMap.floor?_eq_none hnone hget
    exact absurd hlt hafter.asymm
  · rename_i headStart head hfloor
    obtain ⟨hget, hle, hlast⟩ := OrderedMap.floor?_eq_some hfloor
    dsimp only at hget hle hlast
    split
    · rename_i hover
      obtain ⟨hclipped, hholds⟩ := h.clip start hget hrange.le
        (Nat.le_of_lt (Nat.lt_of_le_of_lt hle hrange)) hover _ rfl
      refine ⟨hclipped, ?_, fun byte hside position => ?_⟩
      · intro key span hfound hlt
        by_contra hreach
        have hheld : Holds _ start (span.logOff + (start - key)) :=
          ⟨key, span, hfound, hlt.le, by omega, rfl⟩
        have hside := ((hholds _ _).mp hheld).2
        omega
      · rw [hholds]
        constructor
        · exact fun hheld => hheld.1
        · exact fun hheld => ⟨hheld, by omega⟩
    · rename_i hshort
      refine ⟨h, fun key span hfound hlt => ?_, fun _ _ _ => Iff.rfl⟩
      have hbefore := hlast key span hfound hlt.le
      rcases hbefore.eq_or_lt with hsame | hearlier
      · have hsame : key = headStart := hsame
        subst hsame
        rw [hget] at hfound
        obtain rfl := Option.some.inj hfound
        exact Nat.not_lt.mp hshort
      · exact (h.apart key headStart span head hfound hget hearlier).trans hle

theorem get?_clipOverlap {key other : Nat} (hne : other ≠ key)
    (hstop : other ≠ stop) :
    (clipOverlap stop spans key).get? other = spans.get? other := by
  unfold clipOverlap
  split
  · rfl
  · unfold keepTail
    split
    · rw [OrderedMap.get?_put, if_neg hstop, OrderedMap.get?_remove, if_neg hne]
    · rw [OrderedMap.get?_remove, if_neg hne]

theorem clipOverlap_spec (h : Disjoint spans) {key : Nat} (hkey : key < stop) :
    Disjoint (clipOverlap stop spans key) ∧
      ∀ byte position, Holds (clipOverlap stop spans key) byte position ↔
        Holds spans byte position ∧ (stop ≤ byte ∨
          ∀ span, spans.get? key = some span →
            byte < key ∨ key + span.len ≤ byte) := by
  unfold clipOverlap
  split
  · rename_i hnone
    refine ⟨h, fun byte position => ⟨fun hheld => ⟨hheld, Or.inr ?_⟩, And.left⟩⟩
    intro span hget
    rw [hnone] at hget
    contradiction
  · rename_i span hget
    obtain ⟨hclipped, hholds⟩ := h.clip key hget hkey.le hkey.le
      (Nat.lt_add_of_pos_right (h.nonempty key span hget)) (spans.remove key)
      (if_neg (Nat.lt_irrefl key)).symm
    refine ⟨hclipped, fun byte position => (hholds byte position).trans ?_⟩
    have hspan : (∀ other, spans.get? key = some other →
        byte < key ∨ key + other.len ≤ byte) ↔
          byte < key ∨ key + span.len ≤ byte := by
      constructor
      · exact fun hall => hall span hget
      · rintro hside other hother
        rw [hget] at hother
        rwa [← Option.some.inj hother]
    rw [hspan]
    constructor
    · exact fun hheld => ⟨hheld.1, by omega⟩
    · exact fun hheld => ⟨hheld.1, by omega⟩

theorem clipOverlaps_spec (keys : List Nat) (h : Disjoint spans)
    (hkeys : ∀ key ∈ keys, key < stop) :
    Disjoint (keys.foldl (clipOverlap stop) spans) ∧
      ∀ byte position,
        Holds (keys.foldl (clipOverlap stop) spans) byte position ↔
          Holds spans byte position ∧ (stop ≤ byte ∨ ∀ key ∈ keys, ∀ span,
            spans.get? key = some span →
              byte < key ∨ key + span.len ≤ byte) := by
  induction keys generalizing spans with
  | nil => exact ⟨h, fun byte position => by simp⟩
  | cons key rest ih =>
      have hkey := hkeys key List.mem_cons_self
      obtain ⟨hfirst, hholds⟩ := clipOverlap_spec h hkey
      obtain ⟨hdisjoint, hrest⟩ := ih hfirst fun other hother =>
        hkeys other (List.mem_cons_of_mem _ hother)
      refine ⟨hdisjoint, fun byte position => (hrest byte position).trans ?_⟩
      rw [hholds]
      constructor
      · rintro ⟨⟨hheld, hself⟩, hothers⟩
        refine ⟨hheld, ?_⟩
        by_cases hafter : stop ≤ byte
        · exact Or.inl hafter
        · refine Or.inr fun other hother span hget => ?_
          by_cases hsame : other = key
          · subst hsame
            exact (hself.resolve_left hafter) span hget
          · have hmem := (List.mem_cons.mp hother).resolve_left hsame
            have hlt := hkeys other hother
            exact (hothers.resolve_left hafter) other hmem span
              ((get?_clipOverlap hsame hlt.ne).trans hget)
      · rintro ⟨hheld, hall⟩
        by_cases hafter : stop ≤ byte
        · exact ⟨⟨hheld, Or.inl hafter⟩, Or.inl hafter⟩
        · have hall := hall.resolve_left hafter
          refine ⟨⟨hheld, Or.inr (hall key List.mem_cons_self)⟩,
            Or.inr fun other hother span hget => ?_⟩
          by_cases hsame : other = key
          · subst hsame
            have hgone : (clipOverlap stop spans other).get? other = none := by
              unfold clipOverlap
              split
              · assumption
              · unfold RangeProxy.keepTail
                split
                · rw [OrderedMap.get?_put, if_neg hkey.ne,
                    OrderedMap.get?_remove, if_pos rfl]
                · rw [OrderedMap.get?_remove, if_pos rfl]
            rw [hgone] at hget
            contradiction
          · have hlt := hkeys other (List.mem_cons_of_mem _ hother)
            rw [get?_clipOverlap hsame hlt.ne] at hget
            exact hall other (List.mem_cons_of_mem _ hother) span hget

/-- An insert takes the bytes that it covers, and no others. -/
theorem CacheIndex.insert_spec {index : CacheIndex} (h : Disjoint index.spans)
    (insert : Insert) (hfits : insert.fits = true) :
    Disjoint (index.insert insert.zckStart insert.logOff insert.len).spans ∧
      ∀ byte position,
        Holds (index.insert insert.zckStart insert.logOff insert.len).spans byte
          position ↔
        if insert.covers byte then position = insert.position byte
        else Holds index.spans byte position := by
  obtain ⟨zckStart, logOff, len⟩ := insert
  have hfits : zckStart + len ≤ U32_MAX := by simpa [Insert.fits] using hfits
  by_cases hlen : len = 0
  · simp only [CacheIndex.insert, hlen, true_or, if_true]
    refine ⟨h, fun byte position => ?_⟩
    rw [if_neg]
    simp [Insert.covers]
  simp only [CacheIndex.insert, hlen, Nat.not_lt.mpr hfits, or_self,
    if_false]
  obtain ⟨hclipped, hbefore, hsame⟩ :=
    clipHead_spec h (by omega : zckStart < zckStart + len)
  obtain ⟨hcleared, hholds⟩ := clipOverlaps_spec
    ((clipHead index.spans zckStart (zckStart + len)).keysWithin zckStart
      (zckStart + len)) hclipped fun key hkey =>
        (OrderedMap.mem_keysWithin.mp hkey).2.2
  have hoverlaps : ∀ byte position, byte < zckStart ∨ zckStart + len ≤ byte →
      Holds (clipHead index.spans zckStart (zckStart + len)) byte position →
      ∀ key ∈ (clipHead index.spans zckStart (zckStart + len)).keysWithin
        zckStart (zckStart + len), byte < zckStart → byte < key := by
    intro byte position _ _ key hkey hlt
    exact hlt.trans_le (OrderedMap.mem_keysWithin.mp hkey).2.1
  have hfree : ∀ byte position, Holds
      (((clipHead index.spans zckStart (zckStart + len)).keysWithin zckStart
        (zckStart + len)).foldl (clipOverlap (zckStart + len))
          (clipHead index.spans zckStart (zckStart + len))) byte position →
      byte < zckStart ∨ zckStart + len ≤ byte := by
    intro byte position hheld
    obtain ⟨⟨key, span, hget, hle, hlt, -⟩, hside⟩ := (hholds _ _).mp hheld
    by_contra hwithin
    have hside := hside.resolve_left (by omega)
    by_cases hkey : key < zckStart
    · have hends := hbefore key span hget hkey
      omega
    · have hlast : key < zckStart + len := by omega
      have hmem := OrderedMap.mem_keysWithin.mpr
        ⟨⟨span, hget⟩, Nat.not_lt.mp hkey, hlast⟩
      have hgone := hside key hmem span hget
      omega
  obtain ⟨hput, hfinal⟩ := hcleared.put zckStart logOff
    (Nat.pos_of_ne_zero hlen) hfits hfree
  refine ⟨hput, fun byte position => (hfinal byte position).trans ?_⟩
  by_cases hcovers : zckStart ≤ byte ∧ byte < zckStart + len
  · rw [if_pos (by simpa [Insert.covers] using hcovers)]
    constructor
    · rintro (⟨-, -, hposition⟩ | hheld)
      · exact hposition
      · have hside := hfree byte position hheld
        omega
    · exact fun hposition => Or.inl ⟨hcovers.1, hcovers.2, hposition⟩
  · rw [if_neg (by simpa [Insert.covers] using hcovers)]
    have hside : byte < zckStart ∨ zckStart + len ≤ byte := by omega
    rw [← hsame byte hside position]
    constructor
    · rintro (⟨hle, hlt, -⟩ | hheld)
      · exact absurd ⟨hle, hlt⟩ hcovers
      · exact ((hholds _ _).mp hheld).1
    · intro hheld
      refine Or.inr ((hholds _ _).mpr ⟨hheld, ?_⟩)
      rcases hside with hlt | hafter
      · exact Or.inr fun key hkey span _ =>
          Or.inl (hoverlaps byte position (Or.inl hlt) hheld key hkey hlt)
      · exact Or.inl hafter

end Clip

/-! ### All inserts, and lookups -/

theorem assigned_concat (inserts : List Insert) (last : Insert) (byte : Nat) :
    assigned (inserts ++ [last]) byte =
      if last.covers byte then some (last.position byte)
      else assigned inserts byte := by
  simp only [assigned, List.reverse_append, List.reverse_cons, List.reverse_nil,
    List.nil_append, List.singleton_append, List.find?_cons]
  cases last.covers byte <;> rfl

/-- The index holds every byte where the map has it. -/
structure CacheIndex.Refines (index : CacheIndex) (map : Nat → Option Nat) :
    Prop where
  disjoint : Disjoint index.spans
  holds : ∀ byte position,
    Holds index.spans byte position ↔ map byte = some position

theorem CacheIndex.of_concat (inserts : List Insert) (last : Insert) :
    CacheIndex.of (inserts ++ [last]) =
      (CacheIndex.of inserts).insert last.zckStart last.logOff last.len := by
  rw [CacheIndex.of, List.foldl_append]
  rfl

/-- What is inserted is held where its latest insert has it, apart from inserts
that reach too far. -/
theorem CacheIndex.refines_of (inserts : List Insert) :
    (CacheIndex.of inserts).Refines
      (assigned (inserts.filter Insert.fits)) := by
  induction inserts using List.reverseRecOn with
  | nil =>
      refine ⟨disjoint_empty, fun byte position => ?_⟩
      simp [CacheIndex.of, assigned, not_holds_empty]
  | append_singleton inserts last ih =>
      rw [CacheIndex.of_concat, List.filter_append]
      cases hfits : last.fits with
      | true =>
          obtain ⟨hdisjoint, hholds⟩ := CacheIndex.insert_spec ih.disjoint last
            hfits
          refine ⟨hdisjoint, fun byte position =>
            (hholds byte position).trans ?_⟩
          rw [List.filter_cons_of_pos hfits, List.filter_nil, assigned_concat]
          split
          · rw [Option.some.injEq, eq_comm]
          · exact ih.holds byte position
      | false =>
          have hskip : (CacheIndex.of inserts).insert last.zckStart last.logOff
              last.len = CacheIndex.of inserts := by
            have hover : ¬ last.zckStart + last.len ≤ U32_MAX := by
              simpa [Insert.fits] using hfits
            rw [CacheIndex.insert, if_pos (Or.inr (Nat.not_le.mp hover))]
          rw [hskip, List.filter_cons_of_neg (by simp [hfits]), List.filter_nil,
            List.append_nil]
          exact ih

section Lookup

variable {index : CacheIndex} {map : Nat → Option Nat}

theorem CacheIndex.hit_eq_some (h : index.Refines map) {pos key : Nat}
    {span : Span} (hpos : pos < 2 ^ 32)
    (hhit : index.hit pos = some (key, span)) :
    key ≤ pos ∧ pos < key + span.len ∧ key + span.len ≤ U32_MAX ∧
      ∀ byte, key ≤ byte → byte < key + span.len →
        map byte = some (span.logOff + (byte - key)) := by
  rw [CacheIndex.hit, Nat.mod_eq_of_lt hpos, Option.filter_eq_some_iff] at hhit
  obtain ⟨hfloor, hlt⟩ := hhit
  obtain ⟨hget, hle, -⟩ := OrderedMap.floor?_eq_some hfloor
  refine ⟨hle, by simpa using hlt, h.disjoint.bounded key span hget, ?_⟩
  intro byte hfirst hlast
  exact (h.holds byte _).mp ⟨key, span, hget, hfirst, hlast, rfl⟩

/-- Where no span is hit there is a gap, up to the next span. -/
theorem CacheIndex.hit_eq_none (h : index.Refines map) {pos stop : Nat}
    (hpos : pos < 2 ^ 32) (hstop : pos < stop) (hhit : index.hit pos = none) :
    pos < index.gapEnd pos stop ∧ index.gapEnd pos stop ≤ stop ∧
      (∀ byte, pos ≤ byte → byte < index.gapEnd pos stop → map byte = none) ∧
      (index.gapEnd pos stop = stop ∨ index.gapEnd pos stop < 2 ^ 32 ∧
        (map (index.gapEnd pos stop)).isSome) := by
  have hends : ∀ key span, index.spans.get? key = some span → key ≤ pos →
      key + span.len ≤ pos := by
    intro key span hget hle
    cases hfloor : index.spans.floor? pos with
    | none =>
        have hafter := OrderedMap.floor?_eq_none hfloor hget
        omega
    | some entry =>
        obtain ⟨last, held⟩ := entry
        obtain ⟨hlast, -, hgreatest⟩ := OrderedMap.floor?_eq_some hfloor
        dsimp only at hlast hgreatest
        have hshort : last + held.len ≤ pos := by
          rw [CacheIndex.hit, Nat.mod_eq_of_lt hpos, hfloor] at hhit
          simpa [Option.filter] using hhit
        rcases (hgreatest key span hget hle).eq_or_lt with rfl | hbefore
        · rw [hlast] at hget
          rwa [← Option.some.inj hget]
        · have hapart := h.disjoint.apart key last span held hget hlast hbefore
          omega
  have hgap : ∀ byte, pos ≤ byte → (∀ key span,
      index.spans.get? key = some span → pos < key → byte < key) →
      map byte = none := by
    intro byte hle hbefore
    rw [Option.eq_none_iff_forall_ne_some]
    intro position hmap
    obtain ⟨key, span, hget, hfirst, hlast, -⟩ :=
      (h.holds byte position).mpr hmap
    by_cases hkey : key ≤ pos
    · have hend := hends key span hget hkey
      omega
    · have hlater := hbefore key span hget (Nat.not_le.mp hkey)
      omega
  rw [CacheIndex.gapEnd, Nat.mod_eq_of_lt hpos]
  cases habove : index.spans.above? pos with
  | none =>
      refine ⟨by simpa using hstop, by simp, fun byte hle _ => ?_, by simp⟩
      apply hgap byte hle
      intro key span hget hlt
      have hnone := OrderedMap.above?_eq_none habove hget
      omega
  | some entry =>
      obtain ⟨next, held⟩ := entry
      obtain ⟨hget, hafter, hfirst⟩ := OrderedMap.above?_eq_some habove
      dsimp only at hget hafter hfirst
      simp only [Option.map_some, Option.getD_some]
      refine ⟨by omega, Nat.min_le_right _ _, fun byte hle hlt => ?_, ?_⟩
      · apply hgap byte hle
        intro key span hkey hlater
        have hnext := hfirst key span hkey hlater
        omega
      · by_cases hnext : stop ≤ next
        · exact Or.inl (Nat.min_eq_right hnext)
        · rw [Nat.min_eq_left (Nat.le_of_not_le hnext)]
          have hpositive := h.disjoint.nonempty next held hget
          have hbound := h.disjoint.bounded next held hget
          have hmap := (h.holds next (held.logOff + (next - next))).mp
            ⟨next, held, hget, Nat.le_refl _, by omega, rfl⟩
          refine Or.inr ⟨?_, by rw [hmap]; rfl⟩
          unfold U32_MAX at hbound
          omega

/-- The loop tiles what is left of the range; the byte before, or the next, is
held, unless it is at an end. -/
theorem CacheIndex.segmentsFrom_tiles (h : index.Refines map) {start stop : Nat}
    {fuel pos : Nat} (hfuel : stop ≤ pos + fuel) (hpos : pos ≤ stop)
    (hwide : pos < 2 ^ 32 ∨ pos = stop)
    (hbefore : pos = start ∨ (map (pos - 1)).isSome ∨ pos = stop ∨
      (map pos).isSome) :
    Tiles map start stop pos (index.segmentsFrom stop fuel pos) := by
  induction fuel generalizing pos with
  | zero =>
      have hend : pos = stop := by omega
      rw [hend]
      exact Tiles.nil
  | succ fuel ih =>
      unfold CacheIndex.segmentsFrom
      split
      · rename_i hlt
        have hsmall : pos < 2 ^ 32 := hwide.resolve_right hlt.ne
        split
        · rename_i key span hhit
          obtain ⟨hle, hover, hbound, hheld⟩ :=
            CacheIndex.hit_eq_some h hsmall hhit
          have hbytes : ∀ ahead < min (span.len - (pos - key)) (stop - pos),
              map (pos + ahead) =
                some (span.logOff + (pos - key) + ahead) := by
            intro ahead hahead
            have hbyte := hheld (pos + ahead) (by omega) (by omega)
            rw [hbyte]
            congr 1
            omega
          refine Tiles.cached (by omega) (by omega) hbytes ?_
          apply ih (by omega) (by omega)
          · left
            unfold U32_MAX at hbound
            omega
          · right
            left
            have hlast := hbytes
              (min (span.len - (pos - key)) (stop - pos) - 1) (by omega)
            rw [show pos + min (span.len - (pos - key)) (stop - pos) - 1 =
              pos + (min (span.len - (pos - key)) (stop - pos) - 1) by omega,
              hlast]
            rfl
        · rename_i hhit
          obtain ⟨hmore, hle, hnone, hafter⟩ :=
            CacheIndex.hit_eq_none h hsmall hlt hhit
          have hgap : map pos = none := hnone pos (Nat.le_refl _) hmore
          have hend : pos + (index.gapEnd pos stop - pos) =
              index.gapEnd pos stop := by omega
          rw [Nat.mod_eq_of_lt hsmall]
          refine Tiles.missing (by omega) (by omega) ?_ ?_ ?_ ?_
          · intro ahead hahead
            exact hnone _ (Nat.le_add_right _ _) (by omega)
          · rcases hbefore with hstart | hheld | hlast | hself
            · exact Or.inl hstart
            · exact Or.inr hheld
            · exact absurd hlast hlt.ne
            · rw [hgap] at hself
              contradiction
          · rw [hend]
            exact hafter.imp_right And.right
          · rw [hend]
            apply ih (by omega) hle
            · exact hafter.symm.imp_left And.left
            · rcases hafter with hstop | ⟨-, hheld⟩
              · exact Or.inr (Or.inr (Or.inl hstop))
              · exact Or.inr (Or.inr (Or.inr hheld))
      · have hend : pos = stop := by omega
        rw [hend]
        exact Tiles.nil

end Lookup

/-- After any inserts the spans are disjoint and not empty, and every lookup
tiles its range by the latest insert that covers each byte; an insert that ends
after the last offset is none. -/
theorem segments_tile (inserts : List Insert) (zckStart len : UInt32) :
    Disjoint (CacheIndex.of inserts).spans ∧
      Tiles (assigned (inserts.filter Insert.fits)) zckStart.toNat
        (zckStart.toNat + len.toNat) zckStart.toNat
        ((CacheIndex.of inserts).segments zckStart.toNat len.toNat) := by
  have hrefines := CacheIndex.refines_of inserts
  refine ⟨hrefines.disjoint, ?_⟩
  apply CacheIndex.segmentsFrom_tiles hrefines (Nat.le_refl _)
    (Nat.le_add_right _ _)
  · exact Or.inl zckStart.toNat_lt
  · exact Or.inl rfl

/-- The newest bytes are those of the second insert. -/
example : (CacheIndex.of [⟨0, 8, 10⟩, ⟨4, 26, 4⟩]).segments 0 10 =
    [.cached 8 4, .cached 26 4, .cached 16 2] := by decide

/-- The last byte that an offset can name is not held, whatever is inserted. -/
theorem lastByte_untiled :
    ¬ ∀ (inserts : List Insert) (zckStart len : UInt32),
      Tiles (assigned inserts) zckStart.toNat (zckStart.toNat + len.toNat)
        zckStart.toNat
        ((CacheIndex.of inserts).segments zckStart.toNat len.toNat) := by
  intro hall
  have htiles := hall [⟨U32_MAX, 8, 1⟩] 4294967295 1
  have hsegments : (CacheIndex.of [⟨U32_MAX, 8, 1⟩]).segments
      (4294967295 : UInt32).toNat (1 : UInt32).toNat =
        [.missing 4294967295 1] := by decide
  rw [hsegments] at htiles
  cases htiles with
  | missing _ _ hnone =>
      have hbyte := hnone 0 Nat.zero_lt_one
      exact absurd hbyte (by decide)

end RangeProxy

end Bridgething
