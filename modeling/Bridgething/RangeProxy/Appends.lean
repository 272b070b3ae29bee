/-
Appends to one log at the same time.  Each writes its record while it holds the
lock of the file, and tells the index only afterwards.
-/
import Bridgething.Lib.Transition
import Bridgething.RangeProxy.Log

namespace Bridgething

namespace RangeProxy

open RecordLog

/-! ### Indices that hold the same bytes -/

/-- A span starts only where the log does not go on. -/
def Broken (spans : Spans) : Prop :=
  ∀ key span, spans.get? (key + 1) = some span →
    ∀ position, Holds spans key position → position + 1 ≠ span.logOff

theorem Disjoint.holds_unique {spans : Spans} (h : Disjoint spans)
    {byte left right : Nat} (hleft : Holds spans byte left)
    (hright : Holds spans byte right) : left = right := by
  obtain ⟨key, span, hget, hle, hlt, rfl⟩ := hleft
  obtain ⟨other, rival, hrival, hother, hbyte, rfl⟩ := hright
  obtain rfl := h.key_eq hget hrival hle hlt hother hbyte
  rw [hget] at hrival
  rw [Option.some.inj hrival]

theorem Disjoint.holds_key {spans : Spans} (h : Disjoint spans) {key : Nat}
    {span : Span} (hget : spans.get? key = some span) :
    Holds spans key span.logOff := by
  have hpos := h.nonempty key span hget
  exact ⟨key, span, hget, Nat.le_refl _, by omega, by omega⟩

theorem key_keepTail {spans : Spans} {key stop other : Nat} {span found : Span}
    (h : (keepTail spans key span stop).get? other = some found) :
    other = stop ∨ spans.get? other = some found := by
  unfold keepTail at h
  split at h
  · rw [OrderedMap.get?_put] at h
    split at h
    · exact Or.inl ‹_›
    · exact Or.inr h
  · exact Or.inr h

theorem key_clipHead {spans : Spans} {start stop key : Nat} {found : Span}
    (h : (clipHead spans start stop).get? key = some found) :
    key = stop ∨ ∃ old, spans.get? key = some old := by
  unfold clipHead at h
  split at h
  · exact Or.inr ⟨found, h⟩
  · rename_i headStart head hfloor
    obtain ⟨hget, -⟩ := OrderedMap.floor?_eq_some hfloor
    have hremoved : ∀ other, (spans.remove headStart).get? key = some other →
        spans.get? key = some other := by
      intro other hother
      rw [OrderedMap.get?_remove] at hother
      split at hother
      · contradiction
      · exact hother
    split at h
    · rcases key_keepTail h with hstop | hkept
      · exact Or.inl hstop
      · split at hkept
        · rw [OrderedMap.get?_put] at hkept
          split at hkept
          · rename_i hsame
            exact Or.inr ⟨head, hsame ▸ hget⟩
          · exact Or.inr ⟨found, hremoved found hkept⟩
        · exact Or.inr ⟨found, hremoved found hkept⟩
    · exact Or.inr ⟨found, h⟩

theorem key_clipOverlaps {spans : Spans} {stop key : Nat} {keys : List Nat}
    {found : Span}
    (h : (keys.foldl (clipOverlap stop) spans).get? key = some found) :
    key = stop ∨ ∃ old, spans.get? key = some old := by
  induction keys generalizing spans with
  | nil => exact Or.inr ⟨found, h⟩
  | cons first rest ih =>
      rcases ih h with hstop | ⟨old, hold⟩
      · exact Or.inl hstop
      · unfold clipOverlap at hold
        split at hold
        · exact Or.inr ⟨old, hold⟩
        · rcases key_keepTail hold with hstop | hkept
          · exact Or.inl hstop
          · rw [OrderedMap.get?_remove] at hkept
            split at hkept
            · contradiction
            · exact Or.inr ⟨old, hkept⟩

/-- After an insert a span starts where the insert does, where it ends, or where
one started before. -/
theorem key_insert {index : CacheIndex} {zckStart logOff len key : Nat}
    {found : Span}
    (h : (index.insert zckStart logOff len).spans.get? key = some found) :
    key = zckStart ∨ key = zckStart + len ∨
      ∃ old, index.spans.get? key = some old := by
  unfold CacheIndex.insert at h
  dsimp only at h
  split at h
  · exact Or.inr (Or.inr ⟨found, h⟩)
  · dsimp only at h
    rw [OrderedMap.get?_put] at h
    split at h
    · exact Or.inl ‹_›
    · rcases key_clipOverlaps h with hstop | ⟨old, hold⟩
      · exact Or.inr (Or.inl hstop)
      · exact Or.inr (key_clipHead hold)

/-- What an insert adds lies elsewhere in the log, and does not go on from what
is held. -/
theorem Broken.insert {index : CacheIndex} (h : Broken index.spans)
    (hdisjoint : Disjoint index.spans) {insert : Insert}
    (hfits : insert.fits = true)
    (hapart : ∀ byte position, Holds index.spans byte position →
      position + 1 < insert.logOff ∨ insert.logOff + insert.len < position) :
    Broken (index.insert insert.zckStart insert.logOff insert.len).spans := by
  obtain ⟨hnext, hholds⟩ := CacheIndex.insert_spec hdisjoint insert hfits
  intro key span hget position hheld
  have hfirst := (hholds _ _).mp (hnext.holds_key hget)
  have hbefore := (hholds _ _).mp hheld
  by_cases hself : insert.covers (key + 1) = true
  · rw [if_pos hself] at hfirst
    by_cases hlast : insert.covers key = true
    · have hkey := key_insert hget
      obtain ⟨zckStart, logOff, len⟩ := insert
      simp only [Insert.covers, decide_eq_true_eq] at hself hlast
      have hstart : ∃ span, (index.insert zckStart logOff len).spans.get?
          zckStart = some span ∧ span.len = len := by
        have hfits : zckStart + len ≤ U32_MAX := by
          simpa [Insert.fits] using hfits
        simp only [CacheIndex.insert]
        rw [if_neg (by omega)]
        exact ⟨_, by rw [OrderedMap.get?_put, if_pos rfl], rfl⟩
      obtain ⟨own, hown, hlen⟩ := hstart
      have hends := hnext.apart zckStart (key + 1) own span hown hget (by omega)
      omega
    · rw [if_neg hlast] at hbefore
      have hside := hapart key position hbefore
      simp only [Insert.covers, decide_eq_true_eq] at hself hlast
      have hstart : key + 1 = insert.zckStart := by omega
      rw [hfirst, Insert.position, hstart, Nat.sub_self, Nat.add_zero]
      omega
  · rw [if_neg hself] at hfirst
    by_cases hlast : insert.covers key = true
    · rw [if_pos hlast] at hbefore
      have hside := hapart (key + 1) span.logOff hfirst
      simp only [Insert.covers, decide_eq_true_eq] at hself hlast
      rw [hbefore, Insert.position]
      omega
    · rw [if_neg hlast] at hbefore
      have hold : ∃ old, index.spans.get? (key + 1) = some old := by
        rcases key_insert hget with hstart | hstop | hold
        · simp only [Insert.covers, decide_eq_true_eq] at hself hlast
          by_cases hempty : insert.len = 0
          · rw [CacheIndex.insert, if_pos (Or.inl hempty)] at hget
            exact ⟨span, hget⟩
          · omega
        · simp only [Insert.covers, decide_eq_true_eq] at hself hlast
          by_cases hempty : insert.len = 0
          · rw [CacheIndex.insert, if_pos (Or.inl hempty)] at hget
            exact ⟨span, hget⟩
          · omega
        · exact hold
      obtain ⟨old, hold⟩ := hold
      have hsame := hdisjoint.holds_unique hfirst (hdisjoint.holds_key hold)
      rw [hsame]
      exact h key old hold position hbefore

/-- Two such indices that hold the same bytes are the same. -/
theorem Broken.eq {left right : Spans} (hleft : Broken left)
    (hright : Broken right) (hdleft : Disjoint left) (hdright : Disjoint right)
    (hholds : ∀ byte position, Holds left byte position ↔
      Holds right byte position) : left = right := by
  have hhalf : ∀ {one other : Spans}, Broken one → Broken other →
      Disjoint one → Disjoint other →
      (∀ byte position, Holds one byte position ↔ Holds other byte position) →
      ∀ key span, one.get? key = some span → ∃ rival,
        other.get? key = some rival ∧ rival.logOff = span.logOff ∧
          rival.len ≤ span.len := by
    intro one other hone hother hdone hdother hsame key span hget
    obtain ⟨start, rival, hrival, hle, hlt, hposition⟩ :=
      (hsame key span.logOff).mp (hdone.holds_key hget)
    have hstart : start = key := by
      by_contra hne
      obtain ⟨before, rfl⟩ : ∃ before, key = before + 1 :=
        ⟨key - 1, by omega⟩
      have hprevious : Holds other before (rival.logOff + (before - start)) :=
        ⟨start, rival, hrival, by omega, by omega, rfl⟩
      have hbroken := hone before span hget _ ((hsame _ _).mpr hprevious)
      omega
    subst hstart
    refine ⟨rival, hrival, by omega, ?_⟩
    by_contra hlonger
    have hheld : Holds other (start + span.len) (rival.logOff + span.len) :=
      ⟨start, rival, hrival, by omega, by omega, by omega⟩
    obtain ⟨next, after, hafter, hfirst, hlast, hnext⟩ := (hsame _ _).mpr hheld
    have hpos := hdone.nonempty start span hget
    have hkey : next = start + span.len := by
      rcases Nat.lt_trichotomy start next with hless | rfl | hmore
      · have hends := hdone.apart start next span after hget hafter hless
        omega
      · rw [hget] at hafter
        obtain rfl := Option.some.inj hafter
        omega
      · have hends := hdone.apart next start after span hafter hget hmore
        omega
    obtain ⟨before, hbefore⟩ : ∃ before, start + span.len = before + 1 :=
      ⟨start + span.len - 1, by omega⟩
    rw [hkey, hbefore] at hafter
    have hbroken := hone before after hafter (span.logOff + (before - start))
      ⟨start, span, hget, by omega, by omega, rfl⟩
    omega
  ext key span
  constructor
  · intro hget
    obtain ⟨rival, hrival, hposition, hle⟩ :=
      hhalf hleft hright hdleft hdright hholds key span hget
    obtain ⟨again, hagain, -, hge⟩ := hhalf hright hleft hdright hdleft
      (fun byte position => (hholds byte position).symm) key rival hrival
    rw [hget] at hagain
    obtain rfl := Option.some.inj hagain
    have hlen := Nat.le_antisymm hle hge
    obtain ⟨rivalOff, rivalLen⟩ := rival
    obtain ⟨spanOff, spanLen⟩ := span
    dsimp only at hposition hlen
    rw [hrival, hposition, hlen]
  · intro hget
    obtain ⟨rival, hrival, hposition, hle⟩ := hhalf hright hleft hdright hdleft
      (fun byte position => (hholds byte position).symm) key span hget
    obtain ⟨again, hagain, -, hge⟩ :=
      hhalf hleft hright hdleft hdright hholds key rival hrival
    rw [hget] at hagain
    obtain rfl := Option.some.inj hagain
    have hlen := Nat.le_antisymm hle hge
    obtain ⟨rivalOff, rivalLen⟩ := rival
    obtain ⟨spanOff, spanLen⟩ := span
    dsimp only at hposition hlen
    rw [hrival, hposition, hlen]

/-- Two inserts of which neither goes on in the log where the other ends. -/
def Insert.Apart (insert other : Insert) : Prop :=
  insert.logOff + insert.len < other.logOff ∨
    other.logOff + other.len < insert.logOff

theorem Insert.Apart.symm {insert other : Insert} (h : insert.Apart other) :
    other.Apart insert := Or.symm h

/-- A record that a call has written, and where. -/
structure Written where
  call : Nat
  record : Record
  at' : Nat

namespace Written

def insert (written : Written) : Insert := written.record.insertAt written.at'

/-- The call has a byte of the asset that the index may hold. -/
def covers (written : Written) (byte : Nat) : Bool :=
  written.insert.fits && written.insert.covers byte

end Written

/-- How far an `append` has come: it waits for the lock of the file, it has
written its record, or it has ended. -/
inductive Stage
  | waiting
  | written (written : Written)
  | done

/-- A log with the calls on it, and the order in which they wrote to the file
and told the index. -/
structure Appends where
  log : AssetLog
  stages : List Stage
  wrote : List Written := []
  noted : List Written := []

/-- A call goes on: under the lock of the file, or with the index. -/
inductive Move
  | write (call : Nat)
  | note (call : Nat)

namespace Appends

/-- All of some calls begin on a log that has been opened. -/
def begun (file : List UInt8) (calls : List (UInt32 × List UInt8)) :
    Appends where
  log := .open file
  stages := calls.map fun _ => .waiting

/-- A call that is refused ends at once. -/
def writes (appends : Appends) (call : Nat)
    (request : UInt32 × List UInt8) : Appends :=
  match Record.checked request.1 request.2 with
  | .error _ => { appends with stages := appends.stages.set call .done }
  | .ok record =>
      let written : Written := ⟨call, record, appends.log.endAt⟩
      { appends with
        log := appends.log.write record
        stages := appends.stages.set call (.written written)
        wrote := appends.wrote ++ [written] }

def notes (appends : Appends) (call : Nat) (written : Written) : Appends :=
  { appends with
    log := appends.log.note written.record written.at'
    stages := appends.stages.set call .done
    noted := appends.noted ++ [written] }

def step (calls : List (UInt32 × List UInt8)) (appends : Appends) :
    Move → Appends
  | .write call =>
      match calls[call]?, appends.stages[call]? with
      | some request, some .waiting => appends.writes call request
      | _, _ => appends
  | .note call =>
      match appends.stages[call]? with
      | some (.written written) => appends.notes call written
      | _ => appends

/-- All calls have ended. -/
def Finished (appends : Appends) : Prop :=
  ∀ (call : Nat) (stage : Stage), appends.stages[call]? = some stage →
    stage = .done

/-- The last of some calls to cover a byte. -/
def latest (order : List Written) (byte : Nat) : Option Written :=
  order.reverse.find? fun written => written.covers byte

/-- The invariant of the calls on a log that had some records. -/
structure Inv (records : List Record) (appends : Appends) : Prop where
  file : appends.log.file = recordFormat.encodeAll
    (records ++ appends.wrote.map Written.record)
  endAt : appends.log.endAt = appends.log.file.length
  placed : placed 0 (records ++ appends.wrote.map Written.record) =
    RangeProxy.placed 0 records ++ appends.wrote.map Written.insert
  index : appends.log.index =
    .of (RangeProxy.placed 0 records ++ appends.noted.map Written.insert)
  waiting : ∀ call, appends.stages[call]? = some .waiting →
    ∀ written ∈ appends.wrote, written.call ≠ call
  written : ∀ call written, appends.stages[call]? = some (.written written) →
    written.call = call ∧ written ∈ appends.wrote ∧ written ∉ appends.noted
  pending : ∀ written ∈ appends.wrote, written ∈ appends.noted ∨
    appends.stages[written.call]? = some (.written written)
  noted : ∀ written ∈ appends.noted, written ∈ appends.wrote
  wroteOnce : (appends.wrote.map Written.call).Nodup
  notedOnce : appends.noted.Nodup

variable {records : List Record} {appends : Appends}

theorem Inv.writes (h : Inv records appends) {call : Nat}
    (request : UInt32 × List UInt8)
    (hwaits : appends.stages[call]? = some .waiting) :
    Inv records (appends.writes call request) := by
  have hother : ∀ {stage : Stage} {other : Nat} {found : Stage},
      (appends.stages.set call stage)[other]? = some found →
      (other = call ∧ found = stage) ∨
        (other ≠ call ∧ appends.stages[other]? = some found) := by
    intro stage other found hfound
    by_cases hsame : other = call
    · subst hsame
      have hlt := (List.getElem?_eq_some_iff.mp hwaits).1
      rw [List.getElem?_set_self hlt] at hfound
      exact Or.inl ⟨rfl, (Option.some.inj hfound).symm⟩
    · rw [List.getElem?_set_ne (Ne.symm hsame)] at hfound
      exact Or.inr ⟨hsame, hfound⟩
  have hkept : ∀ (stage : Stage) (other : Nat), other ≠ call →
      (appends.stages.set call stage)[other]? = appends.stages[other]? :=
    fun stage other hne => List.getElem?_set_ne (Ne.symm hne)
  unfold Appends.writes
  cases Record.checked request.1 request.2 with
  | error error =>
      refine ⟨h.file, h.endAt, h.placed, h.index, ?_, ?_, ?_, h.noted,
        h.wroteOnce, h.notedOnce⟩
      · intro other hfound
        rcases hother hfound with ⟨-, hdone⟩ | ⟨-, hold⟩
        · contradiction
        · exact h.waiting other hold
      · intro other written hfound
        rcases hother hfound with ⟨-, hdone⟩ | ⟨-, hold⟩
        · contradiction
        · exact h.written other written hold
      · intro written hmem
        refine (h.pending written hmem).imp_right fun hstage => ?_
        exact (hkept _ _ (h.waiting call hwaits written hmem)).trans hstage
  | ok record =>
      have hend : appends.log.endAt = (recordFormat.encodeAll
          (records ++ appends.wrote.map Written.record)).length := by
        rw [h.endAt, h.file]
      have hfile : writeAllAt appends.log.file record.encode
          appends.log.endAt = appends.log.file ++ record.encode := by
        rw [h.endAt]
        exact writeAllAt_length _ _
      have hfresh : ∀ written ∈ appends.wrote, written.call ≠ call :=
        h.waiting call hwaits
      refine ⟨?_, ?_, ?_, h.index, ?_, ?_, ?_, ?_, ?_, h.notedOnce⟩
      · show writeAllAt _ _ _ = _
        rw [hfile, h.file, List.map_append, ← List.append_assoc,
          Format.encodeAll_append (records ++ _), List.map_singleton,
          Format.encodeAll_cons, Format.encodeAll_nil, List.append_nil]
        rfl
      · show appends.log.endAt + record.encode.length =
          (writeAllAt _ _ _).length
        rw [hfile, List.length_append, h.endAt]
      · rw [List.map_append, List.map_append, ← List.append_assoc,
          placed_append, h.placed, List.append_assoc, Nat.zero_add, ← hend]
        rfl
      · intro other hfound written hmem
        rcases hother hfound with ⟨-, hself⟩ | ⟨hne, hold⟩
        · contradiction
        · rcases List.mem_append.mp hmem with hbefore | hlast
          · exact h.waiting other hold written hbefore
          · rw [List.mem_singleton.mp hlast]
            exact Ne.symm hne
      · intro other written hfound
        rcases hother hfound with ⟨rfl, hself⟩ | ⟨-, hold⟩
        · obtain rfl := Stage.written.inj hself
          refine ⟨rfl, List.mem_append_right _ List.mem_cons_self,
            fun hmem => ?_⟩
          exact hfresh _ (h.noted _ hmem) rfl
        · obtain ⟨hcall, hmem, hnot⟩ := h.written other written hold
          exact ⟨hcall, List.mem_append_left _ hmem, hnot⟩
      · intro written hmem
        rcases List.mem_append.mp hmem with hbefore | hlast
        · refine (h.pending written hbefore).imp_right fun hstage => ?_
          exact (hkept _ _ (hfresh written hbefore)).trans hstage
        · rw [List.mem_singleton.mp hlast]
          have hlt := (List.getElem?_eq_some_iff.mp hwaits).1
          exact Or.inr (List.getElem?_set_self hlt)
      · exact fun written hmem => List.mem_append_left _ (h.noted written hmem)
      · rw [List.map_append]
        refine List.nodup_append.mpr ⟨h.wroteOnce, List.nodup_singleton _, ?_⟩
        intro left hleft right hright
        obtain ⟨written, hmem, rfl⟩ := List.mem_map.mp hleft
        rw [List.mem_singleton.mp hright]
        exact hfresh written hmem

theorem Inv.notes (h : Inv records appends) {call : Nat} {written : Written}
    (hstage : appends.stages[call]? = some (.written written)) :
    Inv records (appends.notes call written) := by
  obtain ⟨hcall, hwrote, hnot⟩ := h.written call written hstage
  have hlt := (List.getElem?_eq_some_iff.mp hstage).1
  have hother : ∀ {other : Nat} {found : Stage},
      (appends.stages.set call .done)[other]? = some found →
      found = .done ∨ (other ≠ call ∧ appends.stages[other]? = some found) := by
    intro other found hfound
    by_cases hsame : other = call
    · subst hsame
      rw [List.getElem?_set_self hlt] at hfound
      exact Or.inl (Option.some.inj hfound).symm
    · rw [List.getElem?_set_ne (Ne.symm hsame)] at hfound
      exact Or.inr ⟨hsame, hfound⟩
  refine ⟨h.file, h.endAt, h.placed, ?_, ?_, ?_, ?_, ?_, h.wroteOnce, ?_⟩
  · show appends.log.index.insert _ _ _ = _
    rw [h.index, Appends.notes, List.map_append, ← List.append_assoc]
    exact (CacheIndex.of_concat _ written.insert).symm
  · intro other hfound
    rcases hother hfound with hdone | ⟨-, hold⟩
    · contradiction
    · exact h.waiting other hold
  · intro other found hfound
    rcases hother hfound with hdone | ⟨hne, hold⟩
    · contradiction
    · obtain ⟨hself, hmem, habsent⟩ := h.written other found hold
      refine ⟨hself, hmem, fun hin => ?_⟩
      rcases List.mem_append.mp hin with hbefore | hlast
      · exact habsent hbefore
      · rw [List.mem_singleton.mp hlast, hcall] at hself
        exact hne hself.symm
  · intro other hmem
    rcases h.pending other hmem with hin | hpending
    · exact Or.inl (List.mem_append_left _ hin)
    · by_cases hsame : other.call = call
      · rw [hsame, hstage] at hpending
        have hself := Stage.written.inj (Option.some.inj hpending)
        exact Or.inl (List.mem_append_right _
          (List.mem_singleton.mpr hself.symm))
      · exact Or.inr ((List.getElem?_set_ne (Ne.symm hsame)).trans hpending)
  · intro other hmem
    rcases List.mem_append.mp hmem with hbefore | hlast
    · exact h.noted other hbefore
    · rwa [List.mem_singleton.mp hlast]
  · refine List.nodup_append.mpr ⟨h.notedOnce, List.nodup_singleton _, ?_⟩
    intro left hleft right hright hsame
    rw [List.mem_singleton.mp hright] at hsame
    exact hnot (hsame ▸ hleft)

theorem Inv.step (h : Inv records appends)
    (calls : List (UInt32 × List UInt8)) (move : Move) :
    Inv records (appends.step calls move) := by
  cases move with
  | write call =>
      simp only [Appends.step]
      split
      · exact h.writes _ ‹_›
      · exact h
  | note call =>
      simp only [Appends.step]
      split
      · exact h.notes ‹_›
      · exact h

end Appends

end RangeProxy

end Bridgething
