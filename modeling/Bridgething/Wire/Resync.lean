/-
The decoder against the stream: whatever the cuts, the items are those of a
grammar that looks for the next magic, checks the header behind it and takes
the body it declares.
-/
import Mathlib
import Bridgething.Wire.Endec

namespace Bridgething

namespace Wire

open Framing

variable {Msg Err Probe : Type}

/-- A complete header the decoder accepts stands at the front. -/
structure HeaderAccepted (src : List UInt8) : Prop where
  long : HEADER_LEN ≤ src.length
  magic : headerMagic src = MAGIC
  version : headerVersion src = VERSION
  length : headerLength src ≤ MAX_FRAME_LEN

/-- The item a body becomes: its frame, or the failure to read it. -/
def outcome (lib : BodyLib Msg Err Probe) (state : EndecState)
    (body : List UInt8) : DecodedFrame Msg Err Probe :=
  match decodeBody lib state body with
  | .ok frame => .frame frame
  | .error error => .failed error

/-- Neither decompression nor deserialisation ends a stream. -/
theorem decodeBody_isRecoverable (lib : BodyLib Msg Err Probe)
    {state : EndecState} {body : List UInt8} {error : EndecError Err Probe}
    (h : decodeBody lib state body = .error error) :
    error.isRecoverable = true := by
  unfold decodeBody at h
  cases hpayload : decompressBody lib state.compression body with
  | error failure =>
      simp only [hpayload, bind, Except.bind, Except.error.injEq] at h
      subst h
      unfold decompressBody at hpayload
      grind [EndecError.isRecoverable]
  | ok payload =>
      simp only [hpayload, bind, Except.bind] at h
      cases hmsg : deserializePayload lib state.encoding payload with
      | error failure =>
          simp only [hmsg, Except.error.injEq] at h
          subst h
          unfold deserializePayload at hmsg
          grind [EndecError.isRecoverable]
      | ok msg => simp [hmsg, pure, Except.pure] at h

section Front

variable {src : List UInt8}

theorem headerMagic_append (more : List UInt8) (h : 2 ≤ src.length) :
    headerMagic (src ++ more) = headerMagic src := by
  simp only [headerMagic]
  rw [List.getD_append _ _ _ _ (by omega), List.getD_append _ _ _ _ (by omega)]

theorem headerVersion_append (more : List UInt8)
    (h : HEADER_LEN ≤ src.length) :
    headerVersion (src ++ more) = headerVersion src := by
  have hlong : 2 < src.length := Nat.lt_of_lt_of_le (by decide) h
  simp only [headerVersion]
  rw [List.getD_append _ _ _ _ hlong]

theorem headerLength_append (more : List UInt8)
    (h : HEADER_LEN ≤ src.length) :
    headerLength (src ++ more) = headerLength src := by
  have hlong : 16 ≤ src.length := h
  simp only [headerLength]
  rw [List.drop_append_of_le_length (by omega),
    List.take_append_of_le_length (by rw [List.length_drop]; omega)]

theorem parsedHeader_append (more : List UInt8)
    (h : HEADER_LEN ≤ src.length) :
    parsedHeader (src ++ more) = parsedHeader src := by
  have hlong : 16 ≤ src.length := h
  simp only [parsedHeader, headerLength_append more h]
  rw [List.getD_append _ _ _ _ (by omega), List.getD_append _ _ _ _ (by omega),
    List.getD_append _ _ _ _ (by omega)]

theorem HeaderAccepted.append (more : List UInt8) (h : HeaderAccepted src) :
    HeaderAccepted (src ++ more) where
  long := by
    have := h.long
    simp only [List.length_append]
    omega
  magic := by
    rw [headerMagic_append more (Nat.le_trans (by decide) h.long)]
    exact h.magic
  version := by rw [headerVersion_append more h.long]; exact h.version
  length := by rw [headerLength_append more h.long]; exact h.length

end Front

/-- One look at the front of the unread bytes. -/
def lookFrame (lib : BodyLib Msg Err Probe) (src : List UInt8) :
    Look (DecodedFrame Msg Err Probe) :=
  if src.length < 2 then .more
  else if headerMagic src ≠ MAGIC then .skip
  else if src.length < HEADER_LEN then .more
  else if headerVersion src ≠ VERSION ∨ MAX_FRAME_LEN < headerLength src then
    .skip
  else if src.length < HEADER_LEN + headerLength src then .more
  else .take (HEADER_LEN + headerLength src)
    (outcome lib (parsedHeader src)
      ((src.drop HEADER_LEN).take (headerLength src)))

theorem lookFrame_short (lib : BodyLib Msg Err Probe) {src : List UInt8}
    (h : src.length < 2) : lookFrame lib src = .more := by
  simp [lookFrame, h]

theorem lookFrame_skip (lib : BodyLib Msg Err Probe) {src : List UInt8}
    (hlong : 2 ≤ src.length) (h : headerMagic src ≠ MAGIC) :
    lookFrame lib src = .skip := by
  simp [lookFrame, Nat.not_lt.mpr hlong, h]

theorem lookFrame_rejected (lib : BodyLib Msg Err Probe) {src : List UInt8}
    (hlong : HEADER_LEN ≤ src.length)
    (h : headerVersion src ≠ VERSION ∨ MAX_FRAME_LEN < headerLength src) :
    lookFrame lib src = .skip := by
  have htwo : 2 ≤ src.length := Nat.le_trans (by decide) hlong
  simp only [lookFrame, Nat.not_lt.mpr hlong, Nat.not_lt.mpr htwo, ↓reduceIte,
    if_pos h, ite_self]

theorem lookFrame_waiting (lib : BodyLib Msg Err Probe) {src : List UInt8}
    (h : HeaderAccepted src)
    (hbody : src.length < HEADER_LEN + headerLength src) :
    lookFrame lib src = .more := by
  have htwo : 2 ≤ src.length := Nat.le_trans (by decide) h.long
  simp [lookFrame, Nat.not_lt.mpr h.long, Nat.not_lt.mpr htwo, h.magic,
    h.version, Nat.not_lt.mpr h.length, hbody]

theorem lookFrame_take (lib : BodyLib Msg Err Probe) {src : List UInt8}
    (h : HeaderAccepted src)
    (hbody : HEADER_LEN + headerLength src ≤ src.length) :
    lookFrame lib src = .take (HEADER_LEN + headerLength src)
      (outcome lib (parsedHeader src)
        ((src.drop HEADER_LEN).take (headerLength src))) := by
  have htwo : 2 ≤ src.length := Nat.le_trans (by decide) h.long
  simp [lookFrame, Nat.not_lt.mpr h.long, Nat.not_lt.mpr htwo, h.magic,
    h.version, Nat.not_lt.mpr h.length, Nat.not_lt.mpr hbody]

/-- The ways one look can go. -/
theorem lookFrame_cases (lib : BodyLib Msg Err Probe) (src : List UInt8) :
    lookFrame lib src = .more ∨
      (2 ≤ src.length ∧ headerMagic src ≠ MAGIC) ∨
      (HEADER_LEN ≤ src.length ∧
        (headerVersion src ≠ VERSION ∨ MAX_FRAME_LEN < headerLength src)) ∨
      (HeaderAccepted src ∧ HEADER_LEN + headerLength src ≤ src.length) := by
  by_cases htwo : src.length < 2
  · exact Or.inl (lookFrame_short lib htwo)
  by_cases hmagic : headerMagic src = MAGIC
  · by_cases hlong : src.length < HEADER_LEN
    · exact Or.inl (by simp [lookFrame, htwo, hmagic, hlong])
    by_cases hbad : headerVersion src ≠ VERSION ∨
        MAX_FRAME_LEN < headerLength src
    · exact Or.inr (Or.inr (Or.inl ⟨Nat.le_of_not_lt hlong, hbad⟩))
    · simp only [not_or, not_not, Nat.not_lt] at hbad
      have haccepted : HeaderAccepted src :=
        ⟨Nat.le_of_not_lt hlong, hmagic, hbad.1, hbad.2⟩
      by_cases hbody : src.length < HEADER_LEN + headerLength src
      · exact Or.inl (lookFrame_waiting lib haccepted hbody)
      · exact Or.inr (Or.inr (Or.inr ⟨haccepted, Nat.le_of_not_lt hbody⟩))
  · exact Or.inr (Or.inl ⟨Nat.le_of_not_lt htwo, hmagic⟩)

theorem lookFrame_append (lib : BodyLib Msg Err Probe)
    (src more : List UInt8) (h : lookFrame lib src ≠ .more) :
    lookFrame lib (src ++ more) = lookFrame lib src := by
  have hgrow : src.length ≤ (src ++ more).length := by simp
  rcases lookFrame_cases lib src with hmore | ⟨htwo, hmagic⟩ |
    ⟨hlong, hbad⟩ | ⟨haccepted, hbody⟩
  · exact absurd hmore h
  · rw [lookFrame_skip lib htwo hmagic]
    apply lookFrame_skip lib (by omega)
    rwa [headerMagic_append more htwo]
  · rw [lookFrame_rejected lib hlong hbad]
    apply lookFrame_rejected lib (by omega)
    rwa [headerVersion_append more hlong, headerLength_append more hlong]
  · have hlength := headerLength_append more haccepted.long
    rw [lookFrame_take lib haccepted hbody,
      lookFrame_take lib (haccepted.append more) (by omega), hlength,
      parsedHeader_append more haccepted.long,
      List.drop_append_of_le_length haccepted.long,
      List.take_append_of_le_length (by rw [List.length_drop]; omega)]

/-- The framing of the wire, read off the complete stream. -/
def wireGrammar (lib : BodyLib Msg Err Probe) :
    Grammar UInt8 (DecodedFrame Msg Err Probe) where
  look := lookFrame lib
  look_nil := rfl
  look_size := by
    intro src size item h
    rcases lookFrame_cases lib src with hmore | ⟨htwo, hmagic⟩ |
      ⟨hlong, hbad⟩ | ⟨haccepted, hbody⟩
    · simp [hmore] at h
    · simp [lookFrame_skip lib htwo hmagic] at h
    · simp [lookFrame_rejected lib hlong hbad] at h
    · rw [lookFrame_take lib haccepted hbody] at h
      simp only [Look.take.injEq] at h
      rw [← h.1]
      exact ⟨Nat.add_pos_left (by decide) _, hbody⟩
  look_append := lookFrame_append lib

section Parse

variable (lib : BodyLib Msg Err Probe) {src : List UInt8}

theorem wireParse_more (h : lookFrame lib src = .more) :
    (wireGrammar lib).parse src = [] :=
  (wireGrammar lib).parse_more h

theorem wireParse_skip (h : lookFrame lib src = .skip) :
    (wireGrammar lib).parse src = (wireGrammar lib).parse (src.drop 1) :=
  (wireGrammar lib).parse_skip h

theorem wireParse_take {size : Nat} {item : DecodedFrame Msg Err Probe}
    (h : lookFrame lib src = .take size item) :
    (wireGrammar lib).parse src =
      item :: (wireGrammar lib).parse (src.drop size) :=
  (wireGrammar lib).parse_take h

end Parse

section Scan

variable (lib : BodyLib Msg Err Probe)

/-- No frame starts before the position a magic scan stops at. -/
theorem lookFrame_skip_of_magicPosition {src : List UInt8} {pos : Nat}
    (h : magicPosition src = some pos) (more : List UInt8) :
    ∀ before < pos, lookFrame lib ((src ++ more).drop before) = .skip := by
  induction src generalizing pos with
  | nil => simp [magicPosition] at h
  | cons first tail ih =>
      cases tail with
      | nil => simp [magicPosition] at h
      | cons second rest =>
          intro before hbefore
          by_cases hmagic : (first, second) = MAGIC
          · simp only [magicPosition, hmagic, ↓reduceIte,
              Option.some.injEq] at h
            omega
          · simp only [magicPosition, hmagic, ↓reduceIte,
              Option.map_eq_some_iff] at h
            obtain ⟨next, hnext, rfl⟩ := h
            cases before with
            | zero =>
                apply lookFrame_skip lib
                · simp
                · simpa [headerMagic] using hmagic
            | succ before =>
                simpa using ih hnext before (by omega)

theorem lookFrame_skip_of_magicPosition_none {src : List UInt8}
    (h : magicPosition src = none) (more : List UInt8) :
    ∀ before < src.length - 1,
      lookFrame lib ((src ++ more).drop before) = .skip := by
  induction src with
  | nil => simp
  | cons first tail ih =>
      cases tail with
      | nil => simp
      | cons second rest =>
          intro before hbefore
          by_cases hmagic : (first, second) = MAGIC
          · simp [magicPosition, hmagic] at h
          · simp only [magicPosition, hmagic, ↓reduceIte,
              Option.map_eq_none_iff] at h
            cases before with
            | zero =>
                apply lookFrame_skip lib
                · simp
                · simpa [headerMagic] using hmagic
            | succ before =>
                simp only [List.length_cons] at hbefore
                simpa using ih h before (by simp; omega)

/-- A resync forgets nothing a later byte could turn into a frame. -/
theorem parse_resyncToMagic (src more : List UInt8) :
    (wireGrammar lib).parse (src ++ more) =
      (wireGrammar lib).parse ((resyncToMagic src).2 ++ more) := by
  unfold resyncToMagic
  cases hpos : magicPosition src with
  | some pos =>
      have hlt := magicPosition_lt hpos
      rw [(wireGrammar lib).parse_drop_of_skips pos _
        (lookFrame_skip_of_magicPosition lib hpos more)]
      rw [List.drop_append_of_le_length (by omega)]
  | none =>
      rw [(wireGrammar lib).parse_drop_of_skips (src.length - 1) _
        (lookFrame_skip_of_magicPosition_none lib hpos more)]
      rw [List.drop_append_of_le_length (Nat.sub_le _ _)]

/-- A resync that finds no magic leaves at most one byte. -/
theorem resyncToMagic_length_of_false {src : List UInt8}
    (h : (resyncToMagic src).1 = false) :
    (resyncToMagic src).2.length < 2 := by
  unfold resyncToMagic at h ⊢
  cases hpos : magicPosition src with
  | some pos => simp [hpos] at h
  | none =>
      simp only [List.length_drop]
      omega

end Scan

/-- A header kept in the state is the one still standing in the buffer. -/
def Coherent (state : Option EndecState) (src : List UInt8) : Prop :=
  ∀ held, state = some held → held.headerParsed = true →
    HeaderAccepted src ∧ held = parsedHeader src

theorem coherent_none (src : List UInt8) : Coherent none src := by
  intro held hheld
  exact absurd hheld (by simp)

theorem coherent_of_headerParsed_eq_false {held : EndecState}
    (h : held.headerParsed = false) (src : List UInt8) :
    Coherent (some held) src := by
  intro other hother hparsed
  rw [Option.some.injEq] at hother
  rw [← hother, h] at hparsed
  exact absurd hparsed (by decide)

theorem HeaderAccepted.coherent {src : List UInt8} (h : HeaderAccepted src) :
    Coherent (some (parsedHeader src)) src := by
  intro held hheld _
  rw [Option.some.injEq] at hheld
  exact ⟨h, hheld.symm⟩

theorem Coherent.append {state : Option EndecState} {src : List UInt8}
    (h : Coherent state src) (more : List UInt8) :
    Coherent state (src ++ more) := by
  intro held hheld hparsed
  obtain ⟨haccepted, heq⟩ := h held hheld hparsed
  exact ⟨haccepted.append more, by
    rw [parsedHeader_append more haccepted.long]
    exact heq⟩

/-- A parsed header in a coherent state is the header at the front. -/
theorem Coherent.getD {state : Option EndecState} {src : List UInt8}
    (h : Coherent state src)
    (hparsed : (state.getD default).headerParsed = true) :
    HeaderAccepted src ∧ state.getD default = parsedHeader src := by
  cases state with
  | none => exact absurd hparsed (by decide)
  | some held => exact h held rfl hparsed

/-- What an answer says about the bytes it was given: either the next item of
the stream, or that there is none yet. -/
structure Reading (lib : BodyLib Msg Err Probe) (src : List UInt8)
    (found : Option (DecodedFrame Msg Err Probe))
    (next : Option EndecState × List UInt8) : Prop where
  coherent : Coherent next.1 next.2
  parse : ∀ more, (wireGrammar lib).parse (src ++ more) =
    found.toList ++ (wireGrammar lib).parse (next.2 ++ more)
  idle : found = none → (wireGrammar lib).parse src = []
  shrinks : found ≠ none → next.2.length < src.length

/-- What the answer of the inner loop shows as an item. -/
def itemOf : Except (EndecError Err Probe) (Option (PrioritizedFrame Msg)) →
    Option (DecodedFrame Msg Err Probe)
  | .ok none => none
  | .ok (some frame) => some (.frame frame)
  | .error error => some (.failed error)

section Loop

variable (lib : BodyLib Msg Err Probe)

theorem reading_awaitBody {src : List UInt8} (h : HeaderAccepted src)
    {answer : Answer (PrioritizedFrame Msg) Err Probe}
    (hawait : awaitBody lib (parsedHeader src) src = .done answer) :
    Reading lib src (itemOf answer.1) answer.2 := by
  unfold awaitBody at hawait
  by_cases hbody : src.length < (parsedHeader src).totalLength
  · rw [if_pos hbody, Iteration.done.injEq] at hawait
    subst hawait
    refine ⟨h.coherent, fun more => rfl, fun _ => ?_, fun hne => ?_⟩
    · exact wireParse_more lib (lookFrame_waiting lib h hbody)
    · exact absurd rfl hne
  · rw [if_neg hbody, Iteration.done.injEq] at hawait
    subst hawait
    have hlook := lookFrame_take lib h (Nat.le_of_not_lt hbody)
    have hitem : itemOf (finishFrame lib (parsedHeader src) src).1 =
        some (outcome lib (parsedHeader src)
          ((src.drop HEADER_LEN).take (headerLength src))) := by
      simp only [finishFrame, outcome, parsedHeader]
      split <;> simp_all [itemOf, Except.map]
    refine ⟨coherent_none _, fun more => ?_, fun hnone => ?_, fun _ => ?_⟩
    · rw [hitem, (wireGrammar lib).parse_take_append hlook more]
      simp [finishFrame, parsedHeader]
    · rw [hitem] at hnone
      exact absurd hnone (by simp)
    · have := h.long
      simp only [finishFrame, List.length_drop, HEADER_LEN] at this ⊢
      omega

/-- A rejected stretch changes nothing but the place the scan goes on from. -/
theorem Reading.of_resync {start src : List UInt8}
    (hstart : ∀ more, (wireGrammar lib).parse (start ++ more) =
      (wireGrammar lib).parse (src ++ more))
    {next : Option EndecState × List UInt8}
    (hnext : next = (none, (resyncToMagic src).2))
    (hstop : (resyncToMagic src).1 = false) :
    Reading lib start none next := by
  subst hnext
  have hparse : ∀ more, (wireGrammar lib).parse (start ++ more) =
      (wireGrammar lib).parse ((resyncToMagic src).2 ++ more) := by
    intro more
    rw [hstart more, parse_resyncToMagic lib src more]
  refine ⟨coherent_none _, hparse, fun _ => ?_, fun hne => absurd rfl hne⟩
  have hempty := hparse []
  simp only [List.append_nil] at hempty
  rw [hempty]
  exact wireParse_more lib
    (lookFrame_short lib (resyncToMagic_length_of_false hstop))

theorem resyncOrWait_cases (src : List UInt8) :
    (@resyncOrWait Msg Err Probe src = .again (resyncToMagic src).2) ∨
      ((resyncToMagic src).1 = false ∧
        @resyncOrWait Msg Err Probe src =
          .done (.ok none, none, (resyncToMagic src).2)) := by
  unfold resyncOrWait
  rcases resyncToMagic src with ⟨found, rest⟩
  cases found with
  | true => exact Or.inl rfl
  | false => exact Or.inr ⟨rfl, rfl⟩

/-- A rejected header at the front starts no frame. -/
theorem parse_drop_one_of_rejected {src : List UInt8}
    (hlong : HEADER_LEN ≤ src.length)
    (hbad : headerVersion src ≠ VERSION ∨ MAX_FRAME_LEN < headerLength src)
    (more : List UInt8) :
    (wireGrammar lib).parse (src ++ more) =
      (wireGrammar lib).parse (src.drop 1 ++ more) := by
  have hlook := lookFrame_rejected lib hlong hbad
  have hgrown : lookFrame lib (src ++ more) = .skip := by
    rw [lookFrame_append lib src more (by simp [hlook]), hlook]
  rw [wireParse_skip lib hgrown,
    List.drop_append_of_le_length (Nat.le_trans (by decide) hlong)]

/-- Less than a header holds no frame. -/
theorem parse_of_length_lt {src : List UInt8} (h : src.length < HEADER_LEN) :
    (wireGrammar lib).parse src = [] := by
  induction hlength : src.length generalizing src with
  | zero =>
      rw [List.length_eq_zero_iff.mp hlength]
      exact Grammar.parse_nil _
  | succ n ih =>
      rcases lookFrame_cases lib src with hmore | ⟨htwo, hmagic⟩ |
        ⟨hlong, _⟩ | ⟨haccepted, _⟩
      · exact wireParse_more lib hmore
      · rw [wireParse_skip lib (lookFrame_skip lib htwo hmagic)]
        apply ih <;> rw [List.length_drop] <;> omega
      · exact absurd hlong (Nat.not_le.mpr h)
      · exact absurd haccepted.long (Nat.not_le.mpr h)

theorem awaitBody_isRecoverable {held : EndecState} {src : List UInt8}
    {answer : Answer (PrioritizedFrame Msg) Err Probe}
    (h : awaitBody lib held src = .done answer) {error : EndecError Err Probe}
    (herror : answer.1 = .error error) : error.isRecoverable = true := by
  unfold awaitBody at h
  split at h
  · rw [Iteration.done.injEq] at h
    rw [← h] at herror
    exact absurd herror (by simp)
  · rw [Iteration.done.injEq] at h
    rw [← h] at herror
    simp only [finishFrame] at herror
    cases hbody : decodeBody lib held ((src.drop HEADER_LEN).take held.length) with
    | ok frame => simp [hbody, Except.map] at herror
    | error failure =>
        simp only [hbody, Except.map, Except.error.injEq] at herror
        exact herror ▸ decodeBody_isRecoverable lib hbody

theorem iterate_done_isRecoverable {state : Option EndecState}
    {src : List UInt8} {answer : Answer (PrioritizedFrame Msg) Err Probe}
    (h : iterate lib state src = .done answer) {error : EndecError Err Probe}
    (herror : answer.1 = .error error) : error.isRecoverable = true := by
  have hcase := iterate_case lib state src
  rw [h] at hcase
  generalize hit : Iteration.done answer = iteration at hcase
  cases hcase with
  | empty hempty =>
      rw [Iteration.done.injEq] at hit
      exact absurd herror (by simp [hit])
  | parsed hsome hparsed => exact awaitBody_isRecoverable lib hit.symm herror
  | short hparsed hshort =>
      rw [Iteration.done.injEq] at hit
      exact absurd herror (by simp [hit])
  | badMagic hlong hmagic =>
      exact absurd herror (by simp [resyncOrWait_eq_done hit.symm])
  | badHeader hlong hmagic hbad =>
      exact absurd herror (by simp [resyncOrWait_eq_done hit.symm])
  | accepted hlong hmagic hversion hlength =>
      exact awaitBody_isRecoverable lib hit.symm herror

/-- One iteration either answers as the stream does, or goes on with bytes
that mean the same. -/
theorem iterate_reading {state : Option EndecState} {src : List UInt8}
    (hinv : Coherent state src) :
    (∃ answer, iterate lib state src = .done answer ∧
        Reading lib src (itemOf answer.1) answer.2) ∨
      (∃ next, iterate lib state src = .again next ∧
        ∀ more, (wireGrammar lib).parse (src ++ more) =
          (wireGrammar lib).parse (next ++ more)) := by
  have hresync : ∀ {start : List UInt8},
      (∀ more, (wireGrammar lib).parse (src ++ more) =
        (wireGrammar lib).parse (start ++ more)) →
      (∃ answer, @resyncOrWait Msg Err Probe start = .done answer ∧
          Reading lib src (itemOf answer.1) answer.2) ∨
        (∃ next, @resyncOrWait Msg Err Probe start = .again next ∧
          ∀ more, (wireGrammar lib).parse (src ++ more) =
            (wireGrammar lib).parse (next ++ more)) := by
    intro start hstart
    rcases @resyncOrWait_cases Msg Err Probe start with hagain | ⟨hstop, hdone⟩
    · refine Or.inr ⟨_, hagain, fun more => ?_⟩
      rw [hstart more, parse_resyncToMagic lib start more]
    · exact Or.inl ⟨_, hdone, Reading.of_resync lib hstart rfl hstop⟩
  have hawait : ∀ {held : EndecState}, HeaderAccepted src →
      held = parsedHeader src →
      ∃ answer, awaitBody lib held src = .done answer ∧
        Reading lib src (itemOf answer.1) answer.2 := by
    intro held haccepted hheld
    subst hheld
    cases hdone : awaitBody lib (parsedHeader src) src with
    | done answer => exact ⟨answer, rfl, reading_awaitBody lib haccepted hdone⟩
    | again next => exact absurd hdone (awaitBody_ne_again _ _ _ _)
  have hcase := iterate_case lib state src
  generalize iterate lib state src = iteration at hcase
  cases hcase with
  | empty hempty =>
      subst hempty
      exact Or.inl ⟨_, rfl, hinv, fun more => rfl, fun _ => by simp,
        fun hne => absurd rfl hne⟩
  | parsed hsome hparsed =>
      obtain ⟨haccepted, hheld⟩ := hinv.getD hparsed
      exact Or.inl (hawait haccepted hheld)
  | short hparsed hshort =>
      refine Or.inl ⟨_, rfl, coherent_of_headerParsed_eq_false hparsed src,
        fun more => rfl, fun _ => parse_of_length_lt lib hshort,
        fun hne => absurd rfl hne⟩
  | badMagic hlong hmagic => exact hresync (fun more => rfl)
  | badHeader hlong hmagic hbad =>
      exact hresync (parse_drop_one_of_rejected lib hlong hbad)
  | accepted hlong hmagic hversion hlength =>
      exact Or.inl (hawait ⟨hlong, hmagic, hversion, hlength⟩ rfl)

theorem reading_decodeBuf (state : Option EndecState) (src : List UInt8)
    (hinv : Coherent state src) :
    Reading lib src (itemOf (decodeBuf lib state src).1)
      (decodeBuf lib state src).2 := by
  induction hlength : src.length using Nat.strongRecOn
    generalizing state src with
  | ind length ih =>
      subst hlength
      rcases iterate_reading lib hinv with ⟨answer, hdone, hreading⟩ |
        ⟨next, hagain, hparse⟩
      · rw [decodeBuf_done lib hdone]
        exact hreading
      · have hlt := iterate_again_length lib hagain
        have hrest := ih next.length hlt none next (coherent_none next) rfl
        rw [decodeBuf_again lib hagain]
        refine ⟨hrest.coherent, fun more => ?_, fun hnone => ?_,
          fun hsome => Nat.lt_trans (hrest.shrinks hsome) hlt⟩
        · rw [hparse more, hrest.parse more]
        · have hsame := hparse []
          simp only [List.append_nil] at hsame
          rw [hsame, hrest.idle hnone]

/-- Errors come out of a body only, so they are all recoverable. -/
theorem decodeBuf_isRecoverable (state : Option EndecState) (src : List UInt8)
    {error : EndecError Err Probe}
    (h : (decodeBuf lib state src).1 = .error error) :
    error.isRecoverable = true := by
  induction hlength : src.length using Nat.strongRecOn
    generalizing state src with
  | ind length ih =>
      subst hlength
      cases hit : iterate lib state src with
      | done answer =>
          rw [decodeBuf_done lib hit] at h
          exact iterate_done_isRecoverable lib hit h
      | again next =>
          rw [decodeBuf_again lib hit] at h
          exact ih next.length (iterate_again_length lib hit) none next h rfl

/-- No call of the decoder ends the stream: it answers with an item or asks for
more bytes. -/
theorem decodeItem_eq (state : Option EndecState) (src : List UInt8) :
    decodeItem lib state src =
      (.ok (itemOf (decodeBuf lib state src).1),
        (decodeBuf lib state src).2) := by
  unfold decodeItem
  rcases hdecoded : decodeBuf lib state src with ⟨found, next⟩
  cases found with
  | ok found => cases found <;> rfl
  | error error =>
      have hrecoverable : error.isRecoverable = true :=
        decodeBuf_isRecoverable lib state src (by rw [hdecoded])
      simp [hrecoverable, itemOf]

end Loop

/-- The codec as a pull decoder.  `decodeItem_eq` says that it never errs. -/
def wireDecoder (lib : BodyLib Msg Err Probe) :
    Decoder (Option EndecState) UInt8 (DecodedFrame Msg Err Probe) where
  pull state src :=
    match decodeItem lib state src with
    | (.ok found, next) => (found, next)
    | (.error _, next) => (none, next)
  shrinks := by
    intro state src item next h
    rw [decodeItem_eq] at h
    simp only [Prod.mk.injEq] at h
    rcases decodeBuf_length lib state src with hnone | hshrinks
    · rw [hnone] at h
      exact absurd h.1 (by simp [itemOf])
    · rw [← h.2]
      exact hshrinks

theorem wireDecoder_pull (lib : BodyLib Msg Err Probe)
    (state : Option EndecState) (src : List UInt8) :
    (wireDecoder lib).pull state src =
      (itemOf (decodeBuf lib state src).1, (decodeBuf lib state src).2) := by
  simp only [wireDecoder, decodeItem_eq]

theorem wireDecoder_reads (lib : BodyLib Msg Err Probe) :
    (wireDecoder lib).Reads (wireGrammar lib) Coherent where
  grow more h := h.append more
  item := by
    intro state src item next hinv hpull
    have hreading := reading_decodeBuf lib state src hinv
    rw [wireDecoder_pull, Prod.mk.injEq] at hpull
    rw [hpull.1, hpull.2] at hreading
    exact ⟨hreading.coherent, hreading.parse⟩
  idle := by
    intro state src next hinv hpull
    have hreading := reading_decodeBuf lib state src hinv
    rw [wireDecoder_pull, Prod.mk.injEq] at hpull
    rw [hpull.1, hpull.2] at hreading
    exact ⟨hreading.coherent, hreading.idle rfl, hreading.parse⟩

/-- The items of a fresh decoder after the last of some chunks. -/
def decodedItems (lib : BodyLib Msg Err Probe) (chunks : List (List UInt8)) :
    List (DecodedFrame Msg Err Probe) :=
  ((wireDecoder lib).feed none [] chunks).1

theorem decodedItems_eq_parse (lib : BodyLib Msg Err Probe)
    (chunks : List (List UInt8)) :
    decodedItems lib chunks = (wireGrammar lib).parse chunks.flatten := by
  simpa [decodedItems] using (wireDecoder_reads lib).feed none [] chunks
    (coherent_none []) (Grammar.parse_nil _)

/-- A frame with the magic and the version of the wire whose declared length is
under the cap.  Every other header byte is free. -/
structure WireFrame where
  compression : UInt8
  encoding : UInt8
  priority : UInt8
  reserved : UInt8 × UInt8
  body : List UInt8
  fits : body.length ≤ MAX_FRAME_LEN

def WireFrame.header (frame : WireFrame) : List UInt8 :=
  [MAGIC.1, MAGIC.2, VERSION, frame.compression, frame.encoding,
    frame.priority, frame.reserved.1, frame.reserved.2] ++
    toBeBytes 8 frame.body.length

def WireFrame.bytes (frame : WireFrame) : List UInt8 :=
  frame.header ++ frame.body

/-- What the decoder makes of a frame's header. -/
def WireFrame.state (frame : WireFrame) : EndecState where
  compression := Compression.fromByte frame.compression
  encoding := Encoding.fromByte frame.encoding
  priority := Priority.fromByte frame.priority
  length := frame.body.length
  headerParsed := true
  totalLength := HEADER_LEN + frame.body.length

def WireFrame.outcome (lib : BodyLib Msg Err Probe) (frame : WireFrame) :
    DecodedFrame Msg Err Probe :=
  Wire.outcome lib frame.state frame.body

/-- A run of bytes between frames, with the magic nowhere in it. -/
structure Junk where
  bytes : List UInt8
  noMagic : ¬ [MAGIC.1, MAGIC.2] <:+: bytes

/-- Frames with junk before the first and after each. -/
def wireStream (lead : Junk) (parts : List (WireFrame × Junk)) : List UInt8 :=
  lead.bytes ++ (parts.map fun part => part.1.bytes ++ part.2.bytes).flatten

section Stream

variable (lib : BodyLib Msg Err Probe)

theorem WireFrame.headerLength_bytes_append (frame : WireFrame)
    (more : List UInt8) :
    headerLength (frame.bytes ++ more) = frame.body.length := by
  have hcap : frame.body.length < 256 ^ 8 :=
    Nat.lt_of_le_of_lt frame.fits (by decide)
  have hfield : ((frame.bytes ++ more).drop 8).take 8 =
      toBeBytes 8 frame.body.length := by
    simp [bytes, header, List.append_assoc]
  rw [headerLength, hfield, fromBeBytes_toBeBytes hcap]

theorem WireFrame.length_bytes (frame : WireFrame) :
    frame.bytes.length = HEADER_LEN + frame.body.length := by
  simp only [bytes, header, List.length_append, List.length_cons,
    List.length_nil, toBeBytes_length, HEADER_LEN]

theorem WireFrame.parsedHeader_bytes_append (frame : WireFrame)
    (more : List UInt8) :
    parsedHeader (frame.bytes ++ more) = frame.state := by
  simp only [parsedHeader, frame.headerLength_bytes_append more]
  rfl

theorem WireFrame.headerAccepted (frame : WireFrame) (more : List UInt8) :
    HeaderAccepted (frame.bytes ++ more) where
  long := by
    rw [List.length_append, frame.length_bytes, Nat.add_assoc]
    exact Nat.le_add_right _ _
  magic := rfl
  version := rfl
  length := by
    rw [frame.headerLength_bytes_append more]
    exact frame.fits

theorem WireFrame.body_bytes_append (frame : WireFrame) (more : List UInt8) :
    ((frame.bytes ++ more).drop HEADER_LEN).take frame.body.length =
      frame.body := by
  have hheader : frame.header.length = HEADER_LEN := by
    simp [header, HEADER_LEN]
  rw [bytes, List.append_assoc, List.drop_left' hheader,
    List.take_left' rfl]

/-- A complete frame at the front is the next item, and the stream goes on
behind it. -/
theorem WireFrame.parse_bytes_append (frame : WireFrame) (more : List UInt8) :
    (wireGrammar lib).parse (frame.bytes ++ more) =
      frame.outcome lib :: (wireGrammar lib).parse more := by
  have hsize := frame.length_bytes
  have hlength := frame.headerLength_bytes_append more
  have hlook := lookFrame_take lib (frame.headerAccepted more) (by
    rw [hlength, List.length_append, hsize]
    exact Nat.le_add_right _ _)
  rw [hlength, frame.parsedHeader_bytes_append more,
    frame.body_bytes_append more] at hlook
  rw [wireParse_take lib hlook, List.drop_left' hsize]
  rfl

/-- A run without the magic leaves no trace, unless what follows completes a
magic with its last byte. -/
theorem parse_junk_append (bytes more : List UInt8)
    (hnoMagic : ¬ [MAGIC.1, MAGIC.2] <:+: bytes)
    (hmore : more.head? ≠ some MAGIC.2) :
    (wireGrammar lib).parse (bytes ++ more) =
      (wireGrammar lib).parse more := by
  induction bytes with
  | nil => rfl
  | cons first rest ih =>
      have hrest : ¬ [MAGIC.1, MAGIC.2] <:+: rest :=
        fun hinside => hnoMagic (hinside.trans (List.suffix_cons _ _).isInfix)
      rw [← ih hrest]
      cases hbehind : rest ++ more with
      | nil =>
          have hlook : lookFrame lib [first] = .more :=
            lookFrame_short lib (by simp)
          rw [List.cons_append, hbehind, Grammar.parse_nil,
            wireParse_more lib hlook]
      | cons second others =>
          have hmagic : (first, second) ≠ MAGIC := by
            intro hfound
            rw [← Prod.eta MAGIC, Prod.mk.injEq] at hfound
            cases rest with
            | nil =>
                rw [List.nil_append] at hbehind
                exact hmore (by rw [hbehind, ← hfound.2]; rfl)
            | cons next tail =>
                simp only [List.cons_append, List.cons.injEq] at hbehind
                apply hnoMagic
                rw [← hfound.1, ← hfound.2, ← hbehind.1]
                exact ⟨[], tail, rfl⟩
          have hlook : lookFrame lib (first :: second :: others) = .skip :=
            lookFrame_skip lib (by simp) hmagic
          rw [List.cons_append, hbehind]
          exact wireParse_skip lib hlook

theorem head?_parts_ne (parts : List (WireFrame × Junk)) :
    ((parts.map fun part => part.1.bytes ++ part.2.bytes).flatten).head? ≠
      some MAGIC.2 := by
  cases parts with
  | nil => simp
  | cons part rest =>
      intro hhead
      exact absurd (Option.some.inj hhead) (by decide)

/-- Junk is skipped and every frame gives the outcome of its body. -/
theorem parse_wireStream (lead : Junk) (parts : List (WireFrame × Junk)) :
    (wireGrammar lib).parse (wireStream lead parts) =
      parts.map fun part => part.1.outcome lib := by
  rw [wireStream, parse_junk_append lib _ _ lead.noMagic
    (head?_parts_ne parts)]
  induction parts with
  | nil => simp
  | cons part rest ih =>
      simp only [List.map_cons, List.flatten_cons, List.append_assoc]
      rw [part.1.parse_bytes_append lib, parse_junk_append lib _ _
        part.2.noMagic (head?_parts_ne rest), ih]

/-- However a stream is cut, the decoder gives the items it gives for the
stream in one chunk; and for frames separated by junk these are the outcomes of
the frames' bodies, in order. -/
theorem decodedItems_resynchronise :
    (∀ chunks : List (List UInt8),
      decodedItems lib chunks = decodedItems lib [chunks.flatten]) ∧
    (∀ (lead : Junk) (parts : List (WireFrame × Junk))
      (chunks : List (List UInt8)),
      chunks.flatten = wireStream lead parts →
        decodedItems lib chunks =
          parts.map fun part => part.1.outcome lib) := by
  constructor
  · intro chunks
    rw [decodedItems_eq_parse, decodedItems_eq_parse, List.flatten_singleton]
  · intro lead parts chunks hcut
    rw [decodedItems_eq_parse, hcut, parse_wireStream]

/-- Two frames behind a broken magic, cut inside the first frame's magic: the
one whose body does not read is an item too. -/
theorem decodedItems_resynchronise_binLib :
    decodedItems binLib
      [[0xde, 0x00, 0xde],
        [0xad, 2, 0, 0, 1, 0, 0, 0, 0, 0, 0, 0, 0, 0, 3, 0xc4, 1, 7, 0xad,
          0xde, 0xad, 2, 0, 0, 2, 9, 9, 0, 0, 0, 0, 0, 0, 0, 1, 0xde]] =
      [.frame ⟨.bulk, .auto, [7]⟩, .failed (.typedDecode (.rmp ()) ())] := by
  rw [(decodedItems_resynchronise binLib).2 ⟨[0xde, 0x00], by decide⟩
    [(⟨0, 0, 1, (0, 0), [0xc4, 1, 7], by decide⟩, ⟨[0xad], by decide⟩),
      (⟨0, 0, 2, (9, 9), [0xde], by decide⟩, ⟨[], by decide⟩)] _
    (by decide)]
  rfl

end Stream

end Wire

end Bridgething
