/-
The body of an answer to a range request: the parts with their headers, and the
plan that takes each byte from the cache or from the companion.  Arithmetic on
offsets is checked: none is where it leaves 32 bits.
-/
import Bridgething.RangeProxy.Header

namespace Bridgething

namespace RangeProxy

def add32 (a b : Nat) : Option Nat :=
  if a + b ≤ U32_MAX then some (a + b) else none

def sub32 (a b : Nat) : Option Nat :=
  if b ≤ a then some (a - b) else none

def MULTIPART_BOUNDARY : String := "bridgething-ota-range-boundary"

/-- The header names the last byte, so one is taken off the end. -/
def multipartPartHeader (part : RangePart) (total : Nat) :
    Option (List Char) := do
  let stop ← add32 part.start part.length
  let last ← sub32 stop 1
  return (s!"\r\n--{MULTIPART_BOUNDARY}\r\n" ++
    "Content-Type: application/octet-stream\r\n" ++
    s!"Content-Range: bytes {part.start}-{last}/{total}\r\n\r\n").toList

def multipartClosing : List Char :=
  s!"\r\n--{MULTIPART_BOUNDARY}--\r\n".toList

/-- The characters of a text are its bytes: it is ASCII. -/
inductive Seg
  | lit (text : List Char)
  | data (zckStart len : Nat)

def Seg.len : Seg → Nat
  | .lit text => text.length
  | .data _ len => len

structure BodyLayout where
  segs : List Seg
  totalBody : Nat
  single : Option RangePart

def BodyLayout.isMultipart (layout : BodyLayout) : Bool :=
  layout.single.isNone

def partSegs (total : Nat) (part : RangePart) : Option (List Seg) :=
  (multipartPartHeader part total).map fun header =>
    [.lit header, .data part.start part.length]

def build (parts : List RangePart) (total : Nat) : Option BodyLayout :=
  match parts with
  | [part] => some ⟨[.data part.start part.length], part.length, some part⟩
  | parts => (parts.mapM (partSegs total)).map fun segs =>
      let segs := segs.flatten ++ [.lit multipartClosing]
      ⟨segs, (segs.map Seg.len).sum, none⟩

inductive EmitStep
  | lit (text : List Char)
  | cached (logOff len : Nat)
  | fetch (len : Nat)

structure EmitPlan where
  steps : List EmitStep := []
  companionRanges : List RangeSpec := []
  companionBytes : Nat := 0
  cachedBytes : Nat := 0

namespace EmitPlan

def piece (plan : EmitPlan) : CacheSeg → EmitPlan
  | .cached logOff len =>
      { plan with
        steps := plan.steps ++ [.cached logOff len]
        cachedBytes := plan.cachedBytes + len }
  | .missing zckStart len =>
      { plan with
        steps := plan.steps ++ [.fetch len]
        companionRanges := plan.companionRanges ++ [⟨zckStart, len⟩]
        companionBytes := plan.companionBytes + len }

/-- What a segment adds, less the bytes of it that are skipped. -/
def seg (index : CacheIndex) (skip : Nat) (plan : EmitPlan) :
    Seg → Option EmitPlan
  | .lit text =>
      let tail := text.drop skip
      if tail = [] then some plan
      else some { plan with steps := plan.steps ++ [.lit tail] }
  | .data zckStart len => do
      let start ← add32 zckStart (skip % 2 ^ 32)
      return (index.segments start ((len - skip) % 2 ^ 32)).foldl piece plan

end EmitPlan

/-- The loop of `plan_from` over the segments, from an offset of the body. -/
def planSegs (start : Nat) (index : CacheIndex) (offset : Nat)
    (plan : EmitPlan) : List Seg → Option EmitPlan
  | [] => some plan
  | seg :: segs =>
      if offset + seg.len ≤ start then
        planSegs start index (offset + seg.len) plan segs
      else
        (plan.seg index (start - offset) seg).bind fun plan =>
          planSegs start index (offset + seg.len) plan segs

/-- Where the offset is past the end of the body there is no plan. -/
def planFrom (layout : BodyLayout) (start : Nat) (index : CacheIndex) :
    Option (Option EmitPlan) :=
  if start > layout.totalBody then some none
  else (planSegs start index 0 {} layout.segs).map some

/-! ### Checked arithmetic -/

theorem add32_eq_some {a b : Nat} (h : a + b ≤ U32_MAX) :
    add32 a b = some (a + b) := if_pos h

theorem add32_eq_none {a b : Nat} (h : U32_MAX < a + b) : add32 a b = none :=
  if_neg (by omega)

theorem sub32_eq_some {a b : Nat} (h : b ≤ a) : sub32 a b = some (a - b) :=
  if_pos h

/-- The part starts in bounds and has a byte, and it ends one past the last
offset at most. -/
structure RangePart.Sound (part : RangePart) : Prop where
  nonempty : 0 < part.length
  length_le : part.length ≤ U32_MAX
  stop_le : part.start + part.length ≤ U32_MAX + 1

/-- The end of the part is an offset itself. -/
def RangePart.Ends (part : RangePart) : Prop :=
  part.start + part.length ≤ U32_MAX

instance (part : RangePart) : Decidable part.Ends :=
  inferInstanceAs (Decidable (_ ≤ _))

theorem multipartPartHeader_isSome {part : RangePart} (hsound : part.Sound)
    (total : Nat) :
    (multipartPartHeader part total).isSome ↔ part.Ends := by
  have hpos := hsound.nonempty
  constructor
  · intro h
    by_contra hends
    have hover : U32_MAX < part.start + part.length := Nat.lt_of_not_le hends
    rw [multipartPartHeader, add32_eq_none hover] at h
    exact Bool.false_ne_true h
  · intro hends
    rw [multipartPartHeader, add32_eq_some hends]
    dsimp only [bind, Option.bind]
    rw [sub32_eq_some (by omega)]
    rfl

theorem build_single (part : RangePart) (total : Nat) :
    build [part] total =
      some ⟨[.data part.start part.length], part.length, some part⟩ := rfl

/-- Data that is not empty and ends at a bound at the latest. -/
def Within (bound : Nat) : Seg → Prop
  | .lit _ => True
  | .data zckStart len => 0 < len ∧ zckStart + len ≤ bound

theorem mapM_partSegs {parts : List RangePart}
    (hsound : ∀ part ∈ parts, part.Sound) (total : Nat) :
    (parts.mapM (partSegs total)).isSome ↔ ∀ part ∈ parts, part.Ends := by
  induction parts with
  | nil => simp
  | cons part parts ih =>
      have hfirst := multipartPartHeader_isSome
        (hsound part List.mem_cons_self) total
      have hrest := ih fun other hin =>
        hsound other (List.mem_cons_of_mem _ hin)
      rw [List.forall_mem_cons, ← hfirst, ← hrest, List.mapM_cons, partSegs]
      cases multipartPartHeader part total with
      | none => simp
      | some header =>
          cases parts.mapM (partSegs total) <;> simp

theorem within_mapM_partSegs {parts : List RangePart} {total bound : Nat}
    (hends : ∀ part ∈ parts, 0 < part.length ∧
      part.start + part.length ≤ bound)
    {segs : List (List Seg)}
    (h : parts.mapM (partSegs total) = some segs) :
    ∀ seg ∈ segs.flatten, Within bound seg := by
  induction parts generalizing segs with
  | nil =>
      rw [List.mapM_nil] at h
      rw [← Option.some.inj h]
      exact fun _ hin => nomatch hin
  | cons part parts ih =>
      rw [List.mapM_cons, partSegs] at h
      cases hheader : multipartPartHeader part total with
      | none => simp [hheader] at h
      | some header =>
          cases hmore : parts.mapM (partSegs total) with
          | none => simp [hheader, hmore] at h
          | some more =>
              simp only [hheader, hmore, Option.map_some, Option.bind_eq_bind,
                Option.bind_some, Option.pure_def, Option.some.injEq] at h
              subst h
              have hrest := ih (fun other hin =>
                hends other (List.mem_cons_of_mem _ hin)) hmore
              intro seg hin
              simp only [List.flatten_cons, List.cons_append,
                List.nil_append, List.mem_cons] at hin
              rcases hin with rfl | rfl | hin
              · trivial
              · exact hends part List.mem_cons_self
              · exact hrest seg hin

/-- The segments of a body stay where its parts do. -/
theorem within_build {parts : List RangePart} {total bound : Nat}
    (hends : ∀ part ∈ parts, 0 < part.length ∧
      part.start + part.length ≤ bound)
    {layout : BodyLayout} (h : build parts total = some layout) :
    ∀ seg ∈ layout.segs, Within bound seg := by
  unfold build at h
  split at h
  · next part =>
      rw [← Option.some.inj h]
      intro seg hin
      rw [List.mem_singleton.mp hin]
      exact hends part List.mem_cons_self
  · cases hsegs : parts.mapM (partSegs total) with
    | none =>
        rw [hsegs] at h
        exact nomatch h
    | some segs =>
        rw [hsegs] at h
        rw [← Option.some.inj h]
        intro seg hin
        rcases List.mem_append.mp hin with hin | hin
        · exact within_mapM_partSegs hends hsegs seg hin
        · rw [List.mem_singleton.mp hin]
          trivial

/-! ### Plans -/

/-- The gaps of a range lie in it, whatever the index holds. -/
theorem segmentsFrom_missing {index : CacheIndex} {stop : Nat} {fuel pos : Nat}
    {zckStart len : Nat}
    (h : CacheSeg.missing zckStart len ∈ index.segmentsFrom stop fuel pos) :
    zckStart + len ≤ stop := by
  induction fuel generalizing pos with
  | zero => exact nomatch h
  | succ fuel ih =>
      rw [CacheIndex.segmentsFrom] at h
      split at h
      · next hpos =>
          split at h
          · rcases List.mem_cons.mp h with heq | hin
            · exact nomatch heq
            · exact ih hin
          · rcases List.mem_cons.mp h with heq | hin
            · have hgap : index.gapEnd pos stop ≤ stop := Nat.min_le_right _ _
              have hmod := Nat.mod_le pos (2 ^ 32)
              obtain ⟨rfl, rfl⟩ := CacheSeg.missing.inj heq
              omega
            · exact ih hin
      · exact nomatch h

theorem segments_missing {index : CacheIndex} {start count zckStart len : Nat}
    (h : CacheSeg.missing zckStart len ∈ index.segments start count) :
    zckStart + len ≤ start + count :=
  segmentsFrom_missing h

/-- With nothing cached a range is one gap. -/
theorem segments_empty {start count : Nat} (hstart : start ≤ U32_MAX)
    (hcount : 0 < count) :
    ({} : CacheIndex).segments start count = [.missing start count] := by
  obtain ⟨more, rfl⟩ := Nat.exists_eq_add_of_lt hcount
  have hmod : start % 2 ^ 32 = start :=
    Nat.mod_eq_of_lt (by unfold U32_MAX at hstart; omega)
  rw [CacheIndex.segments, Nat.zero_add, CacheIndex.segmentsFrom,
    if_pos (by omega)]
  have hhit : ({} : CacheIndex).hit start = none := rfl
  have hgap : ({} : CacheIndex).gapEnd start (start + (more + 1)) =
      start + (more + 1) := Nat.min_self _
  rw [hhit]
  dsimp only
  rw [hgap, hmod, Nat.add_sub_cancel_left]
  have hrest : ({} : CacheIndex).segmentsFrom (start + (more + 1)) more
      (start + (more + 1)) = [] := by
    cases more with
    | zero => rfl
    | succ more => exact if_neg (Nat.lt_irrefl _)
  rw [hrest]

/-- The ranges that are asked of the companion end at a bound at the latest. -/
def EmitPlan.Within (bound : Nat) (plan : EmitPlan) : Prop :=
  ∀ range ∈ plan.companionRanges, range.start + range.length ≤ bound

theorem EmitPlan.Within.foldl_piece {bound : Nat} {segs : List CacheSeg}
    (hsegs : ∀ zckStart len, CacheSeg.missing zckStart len ∈ segs →
      zckStart + len ≤ bound)
    {plan : EmitPlan} (h : plan.Within bound) :
    (segs.foldl EmitPlan.piece plan).Within bound := by
  induction segs generalizing plan with
  | nil => exact h
  | cons seg segs ih =>
      refine ih (fun zckStart len hin =>
        hsegs zckStart len (List.mem_cons_of_mem _ hin)) ?_
      cases seg with
      | cached logOff len => exact h
      | missing zckStart len =>
          intro range hin
          rcases List.mem_append.mp hin with hin | hin
          · exact h range hin
          · rw [List.mem_singleton.mp hin]
            exact hsegs zckStart len List.mem_cons_self

/-- A segment adds its part of the plan without leaving 32 bits: what is skipped
of it is less than all of it. -/
theorem EmitPlan.Within.seg {bound : Nat} (hbound : bound ≤ U32_MAX + 1)
    {plan : EmitPlan} (h : plan.Within bound) (index : CacheIndex) {seg : Seg}
    (hseg : RangeProxy.Within bound seg) {skip : Nat}
    (hskip : skip = 0 ∨ skip < seg.len) :
    ∃ next, plan.seg index skip seg = some next ∧ next.Within bound := by
  cases seg with
  | lit text =>
      rw [EmitPlan.seg]
      split
      · exact ⟨plan, rfl, h⟩
      · exact ⟨_, rfl, h⟩
  | data zckStart len =>
      have hmod := Nat.mod_le skip (2 ^ 32)
      obtain ⟨hpos, hless⟩ := hseg
      have hlt : skip < len := hskip.elim (fun hzero => hzero ▸ hpos) id
      have hadd : add32 zckStart (skip % 2 ^ 32) =
          some (zckStart + skip % 2 ^ 32) := add32_eq_some (by omega)
      rw [EmitPlan.seg, hadd]
      refine ⟨_, rfl, h.foldl_piece fun first count hin => ?_⟩
      have hgap := segments_missing hin
      have hrest := Nat.mod_le (len - skip) (2 ^ 32)
      omega

theorem planSegs_within {bound : Nat} (hbound : bound ≤ U32_MAX + 1)
    (start : Nat) (index : CacheIndex) {segs : List Seg}
    (hsegs : ∀ seg ∈ segs, Within bound seg) {offset : Nat} {plan : EmitPlan}
    (h : plan.Within bound) :
    ∃ whole, planSegs start index offset plan segs = some whole ∧
      whole.Within bound := by
  induction segs generalizing offset plan with
  | nil => exact ⟨plan, rfl, h⟩
  | cons seg segs ih =>
      have hrest := fun other hin => hsegs other (List.mem_cons_of_mem _ hin)
      rw [planSegs]
      split
      · exact ih hrest h
      · next hbehind =>
          have hskip : start - offset = 0 ∨ start - offset < seg.len := by
            omega
          obtain ⟨next, hnext, hwithin⟩ := h.seg hbound index
            (hsegs seg List.mem_cons_self) hskip
          rw [hnext]
          exact ih hrest hwithin

/-- Laying out a body never leaves 32 bits once its segments are there. -/
theorem planFrom_within {bound : Nat} (hbound : bound ≤ U32_MAX + 1)
    {layout : BodyLayout} (hsegs : ∀ seg ∈ layout.segs, Within bound seg)
    (start : Nat) (index : CacheIndex) :
    ∃ found, planFrom layout start index = some found ∧
      ∀ plan ∈ found, plan.Within bound := by
  unfold planFrom
  split
  · exact ⟨none, rfl, fun _ hin => nomatch hin⟩
  · have hnone : ({} : EmitPlan).Within bound := fun _ hin => nomatch hin
    obtain ⟨whole, hwhole, hwithin⟩ := @planSegs_within bound hbound start index
      layout.segs hsegs 0 {} hnone
    rw [hwhole]
    refine ⟨some whole, rfl, fun plan hin => ?_⟩
    rw [← Option.some.inj hin]
    exact hwithin

end RangeProxy

end Bridgething
