/-
When the offsets of a range request stay in 32 bits.  The header is checked for
the length of a range and not for its end, which may be one past the last
offset.
-/
import Bridgething.RangeProxy.Server

namespace Bridgething

namespace RangeProxy

theorem Ranges.sound (ranges : Ranges) :
    ranges.parts ≠ [] ∧ ∀ part ∈ ranges.parts, part.Sound := by
  obtain ⟨headerValue, named, haccepted, hparts⟩ := ranges.accepted
  obtain ⟨hsome, hbounds⟩ := parseRangeHeader_fresh haccepted
  rw [hparts]
  refine ⟨fun hnil => hsome (List.map_eq_nil_iff.mp hnil), fun part hin => ?_⟩
  obtain ⟨range, hrange, rfl⟩ := List.mem_map.mp hin
  obtain ⟨hpos, hlength, hstop⟩ := hbounds range hrange
  exact ⟨hpos, hlength, hstop⟩

/-! ### Writing -/

def FetchWriter.Fits (writer : FetchWriter) : Prop :=
  ∀ gap ∈ writer.gaps, gap.start + gap.length ≤ U32_MAX

/-- A write that stays in its gap moves the start of the gap on to its end at
the most. -/
theorem FetchWriter.Fits.written {writer : FetchWriter} {gap : RangeSpec}
    {gaps : List RangeSpec} (hgap : gap.start + gap.length ≤ U32_MAX)
    (hgaps : ∀ other ∈ gaps, other.start + other.length ≤ U32_MAX)
    (log : AssetLog) (logOff : Nat) {take : Nat} (htake : take ≤ gap.length) :
    ∃ next, writer.written log gap gaps logOff take = some next ∧
      next.Fits := by
  have hmod := Nat.mod_le take (2 ^ 32)
  have hadd : add32 gap.start (take % 2 ^ 32) =
      some (gap.start + take % 2 ^ 32) := add32_eq_some (by omega)
  have hsub : sub32 gap.length (take % 2 ^ 32) =
      some (gap.length - take % 2 ^ 32) := sub32_eq_some (by omega)
  rw [FetchWriter.written, hadd, hsub]
  refine ⟨_, rfl, ?_⟩
  intro other hin
  dsimp only at hin
  split at hin
  · exact hgaps other hin
  · rcases List.mem_cons.mp hin with rfl | hin
    · dsimp only
      omega
    · exact hgaps other hin

theorem FetchWriter.Fits.appendFrom (disk : Disk) {fuel : Nat}
    {writer : FetchWriter} (h : writer.Fits) (rest : List UInt8) :
    ∃ result, writer.appendFrom disk fuel rest = some result ∧
      result.2.Fits := by
  induction fuel generalizing writer rest with
  | zero => exact ⟨_, rfl, h⟩
  | succ fuel ih =>
      rw [FetchWriter.appendFrom]
      split
      · exact ⟨_, rfl, h⟩
      · split
        · exact ⟨_, rfl, h⟩
        · next gap gaps hgaps =>
            have hfits := h
            rw [FetchWriter.Fits, hgaps, List.forall_mem_cons] at hfits
            dsimp only
            split
            · exact ⟨_, rfl, h⟩
            · next logOff log happend =>
                obtain ⟨next, hnext, hkept⟩ :=
                  @FetchWriter.Fits.written writer gap gaps hfits.1 hfits.2
                    log logOff _ (Nat.min_le_right rest.length gap.length)
                rw [hnext]
                exact ih hkept _

theorem FetchWriter.Fits.append {writer : FetchWriter} (h : writer.Fits)
    (disk : Disk) (bytes : List UInt8) :
    ∃ result, writer.append disk bytes = some result ∧ result.2.Fits :=
  h.appendFrom disk bytes

theorem FetchWriter.Fits.ingestPump (disk : Disk) (expected : Nat)
    {events : List Received} {writer : FetchWriter} (h : writer.Fits)
    (received : Nat) :
    (ingestPump disk expected writer received events).isSome := by
  induction events generalizing writer received with
  | nil => rfl
  | cons event events ih =>
      cases event with
      | timeout => rfl
      | closed => rfl
      | abandon reason => rfl
      | fragment offset bytes =>
          rw [RangeProxy.ingestPump]
          split
          · rfl
          · split
            · rfl
            · obtain ⟨⟨outcome, next⟩, hnext, hfits⟩ := h.append disk bytes
              rw [hnext]
              cases outcome with
              | error error => rfl
              | ok _ =>
                  dsimp only [Option.bind]
                  split
                  · rfl
                  · exact ih hfits _

/-! ### Answering -/

/-- A body and a plan of it that go out without leaving 32 bits. -/
structure Laid (start : Nat) (layout : BodyLayout) (plan : EmitPlan) :
    Prop where
  start_le : start ≤ layout.totalBody
  single : ∀ part ∈ layout.single,
    part.Ends ∧ 0 < part.length ∧ layout.totalBody = part.length
  within : plan.Within U32_MAX

theorem build_of_ends {parts : List RangePart}
    (hsound : ∀ part ∈ parts, part.Sound) (hends : ∀ part ∈ parts, part.Ends)
    (total : Nat) :
    ∃ layout, build parts total = some layout ∧
      ∀ part ∈ layout.single,
        part.Ends ∧ 0 < part.length ∧ layout.totalBody = part.length := by
  unfold build
  split
  · next part =>
      refine ⟨_, rfl, fun other hin => ?_⟩
      rw [← Option.some.inj hin]
      exact ⟨hends part List.mem_cons_self,
        (hsound part List.mem_cons_self).nonempty, rfl⟩
  · have hheaders := (mapM_partSegs hsound total).mpr hends
    obtain ⟨segs, hsegs⟩ := Option.isSome_iff_exists.mp hheaders
    rw [hsegs]
    exact ⟨_, rfl, fun _ hin => nomatch hin⟩

theorem laid_of_ends {parts : List RangePart}
    (hsound : ∀ part ∈ parts, part.Sound) (hends : ∀ part ∈ parts, part.Ends)
    (total start : Nat) (index : CacheIndex) :
    ∃ layout found, build parts total = some layout ∧
      planFrom layout start index = some found ∧
      ∀ plan ∈ found, Laid start layout plan := by
  obtain ⟨layout, hbuild, hsingle⟩ := build_of_ends hsound hends total
  have hsegs := within_build
    (fun part hin => ⟨(hsound part hin).nonempty, hends part hin⟩) hbuild
  obtain ⟨found, hfound, hwithin⟩ :=
    planFrom_within (Nat.le_succ U32_MAX) hsegs start index
  refine ⟨layout, found, hbuild, hfound, fun plan hin => ?_⟩
  refine ⟨?_, hsingle, hwithin plan hin⟩
  by_contra hpast
  rw [planFrom, if_pos (Nat.lt_of_not_le hpast)] at hfound
  rw [← Option.some.inj hfound] at hin
  exact nomatch hin

theorem Laid.partialContent {start : Nat} {layout : BodyLayout}
    {plan : EmitPlan} (h : Laid start layout plan) (total bodyRemaining : Nat) :
    (partialContent ⟨layout.single, start, total, bodyRemaining⟩
      plan.steps).isSome := by
  unfold RangeProxy.partialContent buildHeaders
  cases hsingle : layout.single with
  | none => rfl
  | some part =>
      obtain ⟨hends, hpos, hbody⟩ := h.single part hsingle
      have hstop : part.start + part.length ≤ U32_MAX := hends
      have hmod := Nat.mod_le start (2 ^ 32)
      have hstart := h.start_le
      have hfirst : add32 part.start (start % 2 ^ 32) =
          some (part.start + start % 2 ^ 32) := add32_eq_some (by omega)
      have hlast : sub32 (part.start + part.length) 1 =
          some (part.start + part.length - 1) := sub32_eq_some (by omega)
      dsimp only
      rw [hfirst, add32_eq_some hstop]
      dsimp only [bind, Option.bind]
      rw [hlast]
      rfl

theorem Laid.finishResponse {start : Nat} {layout : BodyLayout}
    {plan : EmitPlan} (h : Laid start layout plan) (outside : Outside)
    (requestId : Nat) (log : AssetLog) (total bodyRemaining : Nat)
    (body : TransferBody) (remembered : Option (Ranges × Nat)) :
    (finishResponse outside requestId log plan
      ⟨layout.single, start, total, bodyRemaining⟩ body remembered).isSome := by
  have hwriter : ({ log := log, gaps := plan.companionRanges } :
      FetchWriter).Fits := h.within
  obtain ⟨response, hresponse⟩ :=
    Option.isSome_iff_exists.mp (h.partialContent total bodyRemaining)
  cases body with
  | inline bytes =>
      rw [RangeProxy.finishResponse]
      dsimp only
      split
      · rfl
      · obtain ⟨⟨outcome, writer⟩, happend, -⟩ :=
          hwriter.append outside.disk bytes
        rw [happend]
        cases outcome with
        | error error => rfl
        | ok _ =>
            rw [hresponse]
            rfl
  | stream id totalSize =>
      rw [RangeProxy.finishResponse]
      split
      · rfl
      · split
        · rfl
        · obtain ⟨writer, hpump⟩ := Option.isSome_iff_exists.mp
            (@FetchWriter.Fits.ingestPump outside.disk plan.companionBytes
              outside.events _ hwriter 0)
          rw [hpump, hresponse]
          rfl

theorem relaid_of_ends {parts : List RangePart}
    (hsound : ∀ part ∈ parts, part.Sound) (hends : ∀ part ∈ parts, part.Ends)
    {start : Nat} {layout : BodyLayout} {plan : EmitPlan}
    (h : Laid start layout plan) (knownTotal : Option Nat) (total : Nat)
    (index : CacheIndex) :
    ∃ again, relaid parts knownTotal total start index layout plan =
        some again ∧
      ∀ both ∈ again, Laid start both.1 both.2 := by
  unfold relaid
  split
  · refine ⟨_, rfl, fun both hin => ?_⟩
    rw [← Option.some.inj hin]
    exact h
  · obtain ⟨other, found, hbuild, hfound, hlaid⟩ :=
      laid_of_ends hsound hends total start index
    rw [hbuild, Option.bind_some, hfound]
    refine ⟨_, rfl, fun both hin => ?_⟩
    obtain ⟨replanned, hreplanned, rfl⟩ := Option.map_eq_some_iff.mp hin
    exact hlaid replanned (Option.filter_eq_some_iff.mp hreplanned).1

theorem serveGaps_of_ends (outside : Outside) (requestId : Nat)
    (log : AssetLog) {ranges : Ranges}
    (hends : ∀ part ∈ ranges.parts, part.Ends) (knownTotal : Option Nat)
    (remembered : Option (Ranges × Nat)) {start : Nat} {layout : BodyLayout}
    {plan : EmitPlan} (h : Laid start layout plan) :
    (serveGaps outside requestId log ranges knownTotal start remembered layout
      plan).isSome := by
  rw [serveGaps]
  split
  · rfl
  · next reply hreply =>
      split
      · rfl
      · obtain ⟨again, hagain, hlaid⟩ := relaid_of_ends ranges.sound.2 hends h
          knownTotal reply.totalSize log.index
        rw [hagain]
        cases again with
        | none => rfl
        | some both =>
            exact (hlaid both rfl).finishResponse outside requestId log _ _ _ _

theorem serve_of_ends (outside : Outside) (requestId : Nat) (log : AssetLog)
    {ranges : Ranges} (hends : ∀ part ∈ ranges.parts, part.Ends)
    (knownTotal : Option Nat) (start : Nat)
    (remembered : Option (Ranges × Nat)) :
    (serve outside requestId log ranges knownTotal start
      remembered).isSome := by
  obtain ⟨layout, found, hbuild, hfound, hlaid⟩ :=
    laid_of_ends ranges.sound.2 hends (knownTotal.getD 0) start log.index
  rw [serve, hbuild, Option.bind_some, hfound, Option.bind_some]
  cases found with
  | none => rfl
  | some plan =>
      have hplan := hlaid plan rfl
      dsimp only
      split
      · split
        · rfl
        · next total =>
            rw [Option.isSome_map]
            exact hplan.partialContent total _
      · exact serveGaps_of_ends outside requestId log hends knownTotal
          remembered hplan

/-! ### Leaving 32 bits -/

theorem build_overflows {parts : List RangePart}
    (hsound : ∀ part ∈ parts, part.Sound) (hover : ¬ ∀ part ∈ parts, part.Ends)
    (hmany : ∀ part, parts ≠ [part]) (total : Nat) :
    build parts total = none := by
  have hheaders := (mapM_partSegs hsound total).not.mpr hover
  rw [Option.not_isSome_iff_eq_none] at hheaders
  unfold build
  split
  · next part => exact absurd rfl (hmany part)
  · rw [hheaders]
    rfl

theorem partialContent_overflows {part : RangePart} (hover : ¬ part.Ends)
    (start total bodyRemaining : Nat) (steps : List EmitStep) :
    partialContent ⟨some part, start, total, bodyRemaining⟩ steps = none := by
  have hstop : add32 part.start part.length = none :=
    add32_eq_none (Nat.lt_of_not_le hover)
  unfold partialContent buildHeaders
  dsimp only
  cases hfirst : add32 part.start (start % 2 ^ 32) with
  | none => rfl
  | some first =>
      rw [hstop]
      rfl

/-- The log of a file that has no record yet. -/
theorem open_nil_index : (AssetLog.open []).index = {} := by
  rw [AssetLog.open, scanFrom]
  rfl

/-- What is left of a single part is one gap where nothing is cached. -/
theorem planFrom_single {part : RangePart} (hsound : part.Sound) {start : Nat}
    (hstart : start ≤ part.length) :
    ∃ plan, planFrom ⟨[.data part.start part.length], part.length, some part⟩
        start {} = some (some plan) ∧
      (start < part.length → plan.companionRanges ≠ []) := by
  have hlength := hsound.length_le
  have hstop := hsound.stop_le
  have hmax : U32_MAX = 2 ^ 32 - 1 := rfl
  rw [planFrom, if_neg (Nat.not_lt.mpr hstart), planSegs]
  split
  · next hall =>
      have hall' : 0 + part.length ≤ start := hall
      exact ⟨{}, rfl, fun hless => by omega⟩
  · next hsome =>
      have hless : start < part.length := by
        have hsome' : ¬ 0 + part.length ≤ start := hsome
        omega
      have hadd : add32 part.start (start % 2 ^ 32) =
          some (part.start + start % 2 ^ 32) := by
        have hmod := Nat.mod_le start (2 ^ 32)
        exact add32_eq_some (by omega)
      have hrest : (part.length - start) % 2 ^ 32 = part.length - start :=
        Nat.mod_eq_of_lt (by omega)
      have hskip : start % 2 ^ 32 = start := Nat.mod_eq_of_lt (by omega)
      have hgap := @segments_empty (part.start + start) (part.length - start)
        (by omega) (by omega)
      rw [EmitPlan.seg, Nat.sub_zero, hadd, hrest, hskip]
      dsimp only [bind, Option.bind]
      rw [hgap]
      exact ⟨_, rfl, fun _ => List.cons_ne_nil _ _⟩

/-- A part that ends one past the last offset leaves 32 bits, with a companion
that answers as it should. -/
theorem serve_overflows {ranges : Ranges} {knownTotal : Option Nat}
    {start : Nat} (hover : ¬ ∀ part ∈ ranges.parts, part.Ends)
    (hstart : ∀ part, ranges.parts = [part] → start ≤ part.length)
    (hknown : knownTotal = none → start = 0) (requestId : Nat)
    (remembered : Option (Ranges × Nat)) :
    ∃ outside, serve outside requestId (.open []) ranges knownTotal start
      remembered = none := by
  obtain ⟨-, hsound⟩ := ranges.sound
  by_cases hsingle : ∃ part, ranges.parts = [part]
  · obtain ⟨part, hpart⟩ := hsingle
    have hin : part ∈ ranges.parts := by
      rw [hpart]
      exact List.mem_singleton_self part
    have hends : ¬ part.Ends := by
      intro hends
      refine hover fun other hother => ?_
      rw [hpart] at hother
      rw [List.mem_singleton.mp hother]
      exact hends
    obtain ⟨plan, hplan, hasks⟩ :=
      planFrom_single (hsound part hin) (hstart part hpart)
    refine ⟨⟨fun _ => .ok ⟨0, [part], .stream requestId plan.companionBytes⟩,
      [], fun _ _ => none⟩, ?_⟩
    rw [serve, hpart, build_single, Option.bind_some, open_nil_index, hplan,
      Option.bind_some]
    dsimp only
    split
    · next hnothing =>
        cases knownTotal with
        | none =>
            have hpos := (hsound part hin).nonempty
            exact absurd hnothing (hasks (hknown rfl ▸ hpos))
        | some total =>
            dsimp only
            rw [partialContent_overflows hends]
            rfl
    · have hsame : relaid ranges.parts knownTotal 0 start {}
          ⟨[.data part.start part.length], part.length, some part⟩ plan =
          some (some (⟨[.data part.start part.length], part.length, some part⟩,
            plan)) := by
        unfold relaid
        split
        · rfl
        · rw [hpart, build_single, Option.bind_some, hplan]
          simp
      rw [serveGaps]
      dsimp only [requestCompanion]
      rw [if_neg (List.cons_ne_nil _ _), open_nil_index, hsame,
        Option.bind_some]
      dsimp only
      rw [finishResponse]
      simp only [ne_eq, not_true_eq_false, if_false]
      rw [ingestPump, Option.bind_some, partialContent_overflows hends]
      rfl
  · have hbuild := build_overflows hsound hover
      (fun part hpart => hsingle ⟨part, hpart⟩) (knownTotal.getD 0)
    refine ⟨⟨fun _ => .error .wire, [], fun _ _ => none⟩, ?_⟩
    rw [serve, hbuild]
    rfl

/-! ### Requests -/

theorem handleRange_accepted (outside : Outside) (requestId : Nat)
    (log : AssetLog) (remembered : Option (Ranges × Nat))
    {headerValue : List Char} {parsed : Parsed}
    (accepted : parseRangeHeader headerValue = .ok parsed) :
    handleRange outside requestId (.ok log) remembered (some headerValue) =
      serveParsed outside requestId log remembered headerValue parsed
        accepted := by
  rw [handleRange]
  split
  · next reason hreason =>
      rw [hreason] at accepted
      exact nomatch accepted
  · next found hfound =>
      have heq : found = parsed := Except.ok.inj (hfound.symm.trans accepted)
      subst heq
      rfl

theorem handleRange_refused (outside : Outside) (requestId : Nat)
    (error : BeginRangeError) (remembered : Option (Ranges × Nat))
    (headerValue : List Char) :
    (handleRange outside requestId (.error error) remembered
      (some headerValue)).isSome := by
  rw [handleRange]
  split
  · rfl
  · rfl

/-- Each part that a request is answered with ends at an offset; where it goes
on with a single part, it may go on past the end of it. -/
def Parsed.Fits (remembered : Option Ranges) : Parsed → Prop
  | .fresh ranges =>
      ∀ range ∈ ranges, range.start + range.length ≤ U32_MAX
  | .resume offset => ∀ ranges ∈ remembered,
      (∀ part ∈ ranges.parts, part.Ends) ∨
        ∃ part, ranges.parts = [part] ∧ part.length < offset

/-- A body that goes on past its end is refused before its headers are there. -/
theorem serve_past (outside : Outside) (requestId : Nat) (log : AssetLog)
    {ranges : Ranges} {part : RangePart} (hpart : ranges.parts = [part])
    (knownTotal : Option Nat) {start : Nat} (hpast : part.length < start)
    (remembered : Option (Ranges × Nat)) :
    (serve outside requestId log ranges knownTotal start
      remembered).isSome := by
  rw [serve, hpart, build_single, Option.bind_some, planFrom, if_pos hpast]
  rfl

/-- A request never leaves 32 bits, whatever the size of the asset, what is
cached, and what the companion and the disk do, if and only if its parts end at
offsets. -/
theorem handleRange_isSome_iff {headerValue : List Char} {parsed : Parsed}
    (accepted : parseRangeHeader headerValue = .ok parsed)
    (remembered : Option Ranges) :
    (∀ (outside : Outside) (requestId total : Nat)
        (begun : Except BeginRangeError AssetLog),
      (handleRange outside requestId begun (remembered.map (·, total))
        (some headerValue)).isSome) ↔
      parsed.Fits remembered := by
  constructor
  · intro hall
    by_contra hover
    have hnone : ∀ outside, serveParsed outside 0 (.open [])
        (remembered.map (·, 0)) headerValue parsed accepted ≠ none := by
      intro outside hnone
      have hsome := hall outside 0 0 (.ok (.open []))
      rw [handleRange_accepted _ _ _ _ accepted, hnone] at hsome
      exact Bool.false_ne_true hsome
    cases parsed with
    | fresh named =>
        have hparts : ¬ ∀ part ∈ named.map fun range : RangeSpec =>
            (⟨range.start, range.length⟩ : RangePart), part.Ends :=
          fun hends => hover fun range hin =>
            hends ⟨range.start, range.length⟩ (List.mem_map_of_mem hin)
        obtain ⟨outside, hserve⟩ := @serve_overflows
          ⟨_, headerValue, named, accepted, rfl⟩
          ((remembered.map (·, 0)).map Prod.snd) 0 hparts
          (fun _ _ => Nat.zero_le _) (fun _ => rfl) 0 (remembered.map (·, 0))
        exact hnone outside hserve
    | resume offset =>
        cases remembered with
        | none => exact hover fun _ hin => nomatch hin
        | some ranges =>
            have hends : ¬ ∀ part ∈ ranges.parts, part.Ends := by
              intro hends
              refine hover fun other hin => ?_
              rw [← Option.some.inj hin]
              exact Or.inl hends
            have hstart : ∀ part, ranges.parts = [part] →
                offset ≤ part.length := by
              intro part hpart
              by_contra hpast
              refine hover fun other hin => ?_
              rw [← Option.some.inj hin]
              exact Or.inr ⟨part, hpart, Nat.lt_of_not_le hpast⟩
            obtain ⟨outside, hserve⟩ := @serve_overflows ranges (some 0) offset
              hends hstart (fun h => nomatch h) 0 (some (ranges, 0))
            exact hnone outside hserve
  · intro hfits outside requestId total begun
    cases begun with
    | error error => exact handleRange_refused _ _ _ _ _
    | ok log =>
        rw [handleRange_accepted _ _ _ _ accepted]
        cases parsed with
        | fresh named =>
            refine serve_of_ends _ _ _ (fun part hin => ?_) _ _ _
            obtain ⟨range, hrange, rfl⟩ := List.mem_map.mp hin
            exact hfits range hrange
        | resume offset =>
            cases remembered with
            | none => rfl
            | some ranges =>
                rcases hfits ranges rfl with hends | ⟨part, hpart, hpast⟩
                · exact serve_of_ends _ _ _ hends _ _ _
                · exact serve_past _ _ _ hpart _ hpast _

theorem handleRange_isSome_firstBytes :
    (handleRange ⟨fun _ => .error .wire, [], fun _ _ => none⟩ 0
      (.ok (.open [])) none (some "bytes=0-9".toList)).isSome = true := by
  refine (@handleRange_isSome_iff "bytes=0-9".toList (.fresh [⟨0, 10⟩])
    (by decide +kernel) none).mpr (fun range hin => ?_) _ 0 0 _
  rw [List.mem_singleton.mp hin]
  decide

/-- The last byte that an offset can name, in the second of two parts: the
header is accepted, and its part header cannot be written. -/
theorem handleRange_lastByte :
    parseRangeHeader "bytes=0-0,4294967295-4294967295".toList =
        .ok (.fresh [⟨0, 1⟩, ⟨4294967295, 1⟩]) ∧
      (handleRange ⟨fun _ => .error .wire, [], fun _ _ => none⟩ 0
        (.ok (.open [])) none
        (some "bytes=0-0,4294967295-4294967295".toList)).isNone := by
  decide +kernel

end RangeProxy

end Bridgething
