/-
What one fault leaves of a wake word model and its stamp.  The stamp is written
after the model is in place, and read later to retire the model: between the two
it still says what was there before.
-/
import Bridgething.Ota.WakewordSwap

namespace Bridgething

namespace Ota

namespace Wakeword

universe u

variable {α : Type u}

/-- A stamp that reads as anything names the model that is there. -/
def Named (Names : List Char → α → Prop) (stamp : Option (List Char))
    (model : Option α) : Prop :=
  ∀ name, stamp.bind readStamp = some name →
    ∃ found, model = some found ∧ Names name found

/-- What holds of the files once a push has ended or crashed. -/
structure Kept (Names : List Char → α → Prop)
    (verify : α → Except String Unit) (payload : α) (before after : Files α)
    (outcome : Outcome) : Prop where
  model : ∀ found, after.dest = some found →
    before.dest = some found ∨ found = payload ∧ verify payload = .ok ()
  held : before.dest.isSome → outcome ≠ .crashed → after.dest.isSome
  stamp : Named Names after.stamp after.dest
  retired : ∀ removes floor found, after.dest = some found →
    (retireIfSuperseded removes after floor).dest = none →
    ∃ name version, Names name found ∧ stampOf floor = some version ∧
      Newer version name

/-- The faults that a push ends on before it turns to what is there. -/
def early (fault : Option Fault) : Bool :=
  fault.any fun fault => fault.step ∈ [.mkdir, .copy, .verify]

/-- When a fault leaves the stamp consistent, once the copy is verified. -/
def SwapSafe (Names : List Char → α → Prop) (payload : α)
    (version : Option (List Char)) (files : Files α) (fault : Fault) : Prop :=
  match fault.step, fault.crash with
  | .existsDest, true => Named Names files.stamp files.dest
  | .removePrevious, true | .rotate, _ =>
      files.dest.isSome → Named Names files.stamp files.dest
  | .promote, true => Named Names files.stamp none
  | .promote, false => Named Names files.stamp (files.dest.or files.previous) ∧
      (files.dest = none → ∀ found ∈ files.previous, found = payload)
  | .truncate, true => version.isSome →
      Named Names files.stamp (some payload)
  | .write, true => ∀ text, version = some text →
      Named Names (some ((stampText text).take fault.wrote)) (some payload)
  | .removeStamp, _ => version = none →
      Named Names files.stamp (some payload)
  | _, _ => True

/-- When a push keeps the model and its stamp consistent: where it stops before
it turns to the model that is there, the stamp has to name that model, and later
it has to name the model that the fault leaves in place. -/
def Safe (Names : List Char → α → Prop) (verify : α → Except String Unit)
    (hasParent : Bool) (payload : α) (version : Option (List Char))
    (files : Files α) (fault : Option Fault) : Prop :=
  if hasParent = false ∨ verify payload ≠ .ok () ∨ early fault then
    Named Names files.stamp files.dest
  else ∀ found ∈ fault, SwapSafe Names payload version files found

section

variable {Names : List Char → α → Prop} {verify : α → Except String Unit}
  {payload : α} {version : Option (List Char)} {before after : Files α}
  {outcome : Outcome} {fault : Option Fault}

theorem named_none (model : Option α) : Named Names none model :=
  fun _ h => nomatch h

/-- A model is retired for its own version once the stamp names it. -/
theorem Named.retired (h : Named Names after.stamp after.dest)
    {removes : Bool × Bool} {floor : Files α} {found : α}
    (hlive : after.dest = some found)
    (hgone : (retireIfSuperseded removes after floor).dest = none) :
    ∃ name version, Names name found ∧ stampOf floor = some version ∧
      Newer version name := by
  have hsome : after.dest.isSome := by
    rw [hlive]
    rfl
  obtain ⟨name, version, hname, hversion, hnewer⟩ :=
    retireIfSuperseded_newer hsome hgone
  obtain ⟨other, hother, hnames⟩ := h name hname
  have heq : found = other := Option.some.inj (hlive.symm.trans hother)
  exact ⟨name, version, heq ▸ hnames, hversion, hnewer⟩

theorem kept_unchanged (hdest : after.dest = before.dest)
    (hstamp : after.stamp = before.stamp) :
    Kept Names verify payload before after outcome ↔
      Named Names before.stamp before.dest := by
  constructor
  · intro h
    rw [← hdest, ← hstamp]
    exact h.stamp
  · intro h
    rw [← hdest, ← hstamp] at h
    refine ⟨fun found hfound => ?_, fun hsome _ => ?_, h,
      fun _ _ _ hlive hgone => h.retired hlive hgone⟩
    · exact Or.inl (hdest ▸ hfound)
    · rw [hdest]
      exact hsome

theorem kept_promoted (hverify : verify payload = .ok ())
    (hdest : after.dest = some payload) :
    Kept Names verify payload before after outcome ↔
      Named Names after.stamp (some payload) := by
  constructor
  · intro h
    rw [← hdest]
    exact h.stamp
  · intro h
    rw [← hdest] at h
    refine ⟨fun found hfound => ?_, fun _ _ => ?_, h,
      fun _ _ _ hlive hgone => h.retired hlive hgone⟩
    · exact Or.inr ⟨Option.some.inj (hfound.symm.trans hdest), hverify⟩
    · rw [hdest]
      rfl

theorem kept_lost (hdest : after.dest = none)
    (hstamp : after.stamp = before.stamp)
    (hheld : before.dest.isSome → outcome = .crashed) :
    Kept Names verify payload before after outcome ↔
      Named Names before.stamp none := by
  constructor
  · intro h
    rw [← hdest, ← hstamp]
    exact h.stamp
  · intro h
    rw [← hdest, ← hstamp] at h
    refine ⟨fun found hfound => ?_, fun hsome hended => ?_, h,
      fun _ _ _ hlive hgone => h.retired hlive hgone⟩
    · rw [hdest] at hfound
      exact nomatch hfound
    · exact absurd (hheld hsome) hended

/-! ### Stages -/

/-- What holds of a crash, of a failure and of what follows holds of a step. -/
theorem attempt_rule {P : Files α × Outcome → Prop} {step : Step}
    {files : Files α} {failed next : Files α × Outcome}
    (hcrash : P (files, .crashed)) (hfailed : P failed) (hnext : P next) :
    P (attempt fault step files failed next) := by
  unfold attempt
  split
  · exact hnext
  · split
    · split
      · exact hcrash
      · exact hfailed
    · exact hnext

/-- The model and the stamp are what they were. -/
def SameModel (files : Files α) (run : Files α × Outcome) : Prop :=
  run.1.dest = files.dest ∧ run.1.stamp = files.stamp

theorem discard_same (error : ApplyError) (files : Files α) :
    SameModel files (discard fault error files) :=
  attempt_rule ⟨rfl, rfl⟩ ⟨rfl, rfl⟩ ⟨rfl, rfl⟩

/-- A step that is the fault's has no next. -/
theorem attempt_at_rule {P : Files α × Outcome → Prop} {step : Step}
    {crash : Bool} {wrote : Nat} {source : String} {files : Files α}
    {failed next : Files α × Outcome} (hcrash : P (files, .crashed))
    (hfailed : P failed) :
    P (attempt (some ⟨step, crash, wrote, source⟩) step files failed next) := by
  rw [attempt]
  dsimp only
  rw [if_pos rfl]
  cases crash with
  | true => exact hcrash
  | false => exact hfailed

/-- A step that is not the fault's goes well. -/
theorem attempt_next {step : Step} (h : ∀ found ∈ fault, found.step ≠ step)
    (files : Files α) (failed next : Files α × Outcome) :
    attempt fault step files failed next = next := by
  cases fault with
  | none => rfl
  | some found => exact if_neg (h found rfl)

/-- What the stamp of a push reads as names the model that is pushed. -/
def Pushed (Names : List Char → α → Prop) (payload : α)
    (version : Option (List Char)) : Prop :=
  ∀ text, version = some text →
    ∀ name, readStamp (stampText text) = some name → Names name payload

theorem Pushed.named (h : Pushed Names payload version) {text : List Char}
    (hversion : version = some text) :
    Named Names (some (stampText text)) (some payload) :=
  fun name hname => ⟨payload, rfl, h text hversion name hname⟩

theorem unstamp_dest (files : Files α) :
    (unstamp fault files).1.dest = files.dest :=
  @attempt_rule _ _ (fun run => run.1.dest = files.dest) _ _ _ _ rfl rfl rfl

theorem writeStamp_dest (files : Files α) :
    (writeStamp fault version files).1.dest = files.dest := by
  cases version with
  | none => exact unstamp_dest files
  | some text =>
      have hwrite := @attempt_rule _ fault
        (fun run => run.1.dest = files.dest) .write
      exact @attempt_rule _ fault (fun run => run.1.dest = files.dest)
        .truncate _ _ _ rfl (unstamp_dest files)
        (hwrite rfl (unstamp_dest _) rfl)

/-- A push whose stamp is written or removed as it should be. -/
theorem writeStamp_named (hpushed : Pushed Names payload version)
    (hpast : ∀ found ∈ fault,
      found.step ∉ [Step.truncate, .write, .removeStamp])
    (now : Files α) :
    Named Names (writeStamp fault version now).1.stamp (some payload) := by
  have hgoes : ∀ step ∈ [Step.truncate, .write, .removeStamp],
      ∀ found ∈ fault, found.step ≠ step :=
    fun step hstep found hfound heq => hpast found hfound (heq ▸ hstep)
  cases hversion : version with
  | none =>
      rw [writeStamp, unstamp, attempt_next (hgoes .removeStamp (by simp))]
      exact named_none _
  | some text =>
      rw [writeStamp]
      rw [attempt_next (hgoes .truncate (by simp)),
        attempt_next (hgoes .write (by simp))]
      exact hpushed.named hversion

/-- Once the model is in place it is the stamp that a fault may leave behind. -/
theorem writeStamp_kept (hverify : verify payload = .ok ())
    (hpushed : Pushed Names payload version) {now : Files α}
    (hnow : now.dest = some payload) (hstamp : now.stamp = before.stamp)
    (hlate : ∀ found ∈ fault,
      found.step ∈ [Step.truncate, .write, .removeStamp] ∨
        SwapSafe Names payload version before found) :
    Kept Names verify payload before (writeStamp fault version now).1
        (writeStamp fault version now).2 ↔
      ∀ found ∈ fault, SwapSafe Names payload version before found := by
  rw [kept_promoted hverify ((writeStamp_dest now).trans hnow)]
  by_cases hpast : ∀ found ∈ fault,
      found.step ∉ [Step.truncate, .write, .removeStamp]
  · refine ⟨fun _ found hfound => ?_,
      fun _ => writeStamp_named hpushed hpast now⟩
    exact (hlate found hfound).resolve_left (hpast found hfound)
  · cases fault with
    | none => exact absurd (fun _ h => nomatch h) hpast
    | some found =>
        obtain ⟨step, crash, wrote, source⟩ := found
        have hone : (∀ found ∈ some (Fault.mk step crash wrote source),
            SwapSafe Names payload version before found) ↔
            SwapSafe Names payload version before
              ⟨step, crash, wrote, source⟩ :=
          ⟨fun h => h _ rfl, fun h found hfound =>
            Option.some.inj hfound ▸ h⟩
        rw [hone]
        cases step with
        | truncate =>
            cases crash <;> cases version <;>
              simp [writeStamp, unstamp, attempt, SwapSafe, named_none, hstamp]
        | write =>
            cases crash <;> cases version <;>
              simp [writeStamp, unstamp, attempt, SwapSafe, named_none]
        | removeStamp =>
            cases hversion : version with
            | none =>
                cases crash <;>
                  simp [writeStamp, unstamp, attempt, SwapSafe, hstamp]
            | some text =>
                have hnamed := hpushed.named hversion
                simp [writeStamp, attempt, SwapSafe, hnamed]
        | _ => simp at hpast

/-- The faults at a step, for what is said of every fault. -/
theorem forall_fault {P : Fault → Prop} (found : Fault) :
    (∀ other ∈ some found, P other) ↔ P found :=
  ⟨fun h => h found rfl, fun h _ hother => Option.some.inj hother ▸ h⟩

/-- A copy that cannot be renamed: what was rotated out goes back, or what was
left from before. -/
theorem putBack_kept (hverify : verify payload = .ok ()) {now : Files α}
    (hdest : now.dest = none)
    (hprevious : now.previous = before.dest.or before.previous)
    (hstamp : now.stamp = before.stamp) {found : Fault}
    (hfound : found.step = .promote ∧ found.crash = false)
    (error : ApplyError) :
    Kept Names verify payload before (putBack (some found) error now).1
        (putBack (some found) error now).2 ↔
      SwapSafe Names payload version before found := by
  obtain ⟨step, crash, wrote, source⟩ := found
  obtain ⟨rfl, rfl⟩ := hfound
  cases hback : now.previous with
  | none =>
      have hrun : putBack (some ⟨.promote, false, wrote, source⟩) error now =
          ({ now with incoming := none }, .refused error) := by
        simp [putBack, discard, attempt, hback]
      obtain ⟨hnodest, hnoprevious⟩ :=
        Option.or_eq_none_iff.mp (hprevious.symm.trans hback)
      have hheld : before.dest.isSome →
          Outcome.refused error = .crashed := by
        rw [hnodest]
        exact fun hsome => nomatch hsome
      have hkept := @kept_lost α Names verify payload before
        { now with incoming := none } _ hdest hstamp hheld
      rw [hrun]
      refine hkept.trans ?_
      simp [SwapSafe, hnodest, hnoprevious]
  | some model =>
      have hrun : putBack (some ⟨.promote, false, wrote, source⟩) error now =
          ({ now with
              dest := some model, previous := none, incoming := none },
            .refused error) := by
        simp [putBack, discard, attempt, hback]
      rw [hrun]
      cases hbefore : before.dest with
      | some live =>
          rw [hback, hbefore] at hprevious
          have hkept := @kept_unchanged α Names verify payload before
            { now with dest := some model, previous := none, incoming := none }
            (.refused error) (hprevious.trans hbefore.symm) hstamp
          refine hkept.trans ?_
          simp [SwapSafe, hbefore]
      | none =>
          have hleft : before.previous = some model := by
            rw [hback, hbefore] at hprevious
            exact hprevious.symm
          constructor
          · intro h
            have hpayload : model = payload := by
              rcases h.model model rfl with hlive | ⟨heq, -⟩
              · exact nomatch hbefore.symm.trans hlive
              · exact heq
            have hnamed := h.stamp
            rw [hstamp] at hnamed
            simpa [SwapSafe, hbefore, hleft, hpayload] using hnamed
          · intro h
            obtain ⟨hnamed, hpayload⟩ := h
            have heq : model = payload := hpayload hbefore model hleft
            refine (kept_promoted hverify (congrArg some heq)).mpr ?_
            rw [hstamp]
            simpa [hbefore, hleft, heq] using hnamed

/-- The copy is renamed to where the model was.  Where it cannot be, the one
that was rotated out goes back, or one that was left from before. -/
theorem promote_kept (hverify : verify payload = .ok ())
    (hpushed : Pushed Names payload version) {now : Files α}
    (hcopy : now.incoming = some payload) (hstamp : now.stamp = before.stamp)
    (hrotated : now.dest = none ∧
        now.previous = before.dest.or before.previous ∨
      ∀ found ∈ fault, found.step ≠ .promote)
    (hlate : ∀ found ∈ fault,
      found.step ∈ [Step.promote, .truncate, .write, .removeStamp] ∨
        SwapSafe Names payload version before found) :
    Kept Names verify payload before (promote fault version now).1
        (promote fault version now).2 ↔
      ∀ found ∈ fault, SwapSafe Names payload version before found := by
  by_cases hgoes : ∀ found ∈ fault, found.step ≠ .promote
  · rw [promote, attempt_next hgoes]
    refine writeStamp_kept hverify hpushed hcopy hstamp fun found hfound => ?_
    refine (hlate found hfound).imp_left fun hstep => ?_
    exact (List.mem_cons.mp hstep).resolve_left (hgoes found hfound)
  · obtain ⟨hdest, hprevious⟩ := hrotated.resolve_right hgoes
    cases fault with
    | none => exact absurd (fun _ h => nomatch h) hgoes
    | some found =>
        rw [forall_fault] at hgoes ⊢
        obtain ⟨step, crash, wrote, source⟩ := found
        obtain rfl : step = .promote := not_not.mp hgoes
        cases crash with
        | true => exact kept_lost hdest hstamp fun _ => rfl
        | false =>
            exact @putBack_kept _ _ _ _ _ _ hverify now hdest hprevious hstamp
              ⟨.promote, false, wrote, source⟩ ⟨rfl, rfl⟩ _

/-- The model that is live is rotated out, and the copy promoted. -/
theorem rotate_kept (hverify : verify payload = .ok ())
    (hpushed : Pushed Names payload version) {now : Files α}
    (hcopy : now.incoming = some payload) (hdest : now.dest = before.dest)
    (hlive : before.dest.isSome) (hstamp : now.stamp = before.stamp)
    (hlate : ∀ found ∈ fault,
      found.step ∈ [Step.rotate, .promote, .truncate, .write, .removeStamp] ∨
        SwapSafe Names payload version before found) :
    Kept Names verify payload before (rotate fault version now).1
        (rotate fault version now).2 ↔
      ∀ found ∈ fault, SwapSafe Names payload version before found := by
  by_cases hgoes : ∀ found ∈ fault, found.step ≠ .rotate
  · rw [rotate, attempt_next hgoes]
    have hprevious : now.dest = before.dest.or before.previous := by
      rw [hdest, Option.or_of_isSome hlive]
    refine promote_kept hverify hpushed hcopy hstamp
      (Or.inl ⟨rfl, hprevious⟩) fun found hfound => ?_
    refine (hlate found hfound).imp_left fun hstep => ?_
    exact (List.mem_cons.mp hstep).resolve_left (hgoes found hfound)
  · cases fault with
    | none => exact absurd (fun _ h => nomatch h) hgoes
    | some found =>
        rw [forall_fault] at hgoes ⊢
        obtain ⟨step, crash, wrote, source⟩ := found
        obtain rfl : step = .rotate := not_not.mp hgoes
        have hsafe : SwapSafe Names payload version before
            ⟨.rotate, crash, wrote, source⟩ ↔
            Named Names before.stamp before.dest := by
          simp [SwapSafe, hlive]
        rw [hsafe]
        cases crash with
        | true => exact kept_unchanged hdest hstamp
        | false => exact kept_unchanged hdest hstamp

/-- Nothing is there to rotate out, or it is taken for nothing. -/
theorem promote_kept_unrotated (hverify : verify payload = .ok ())
    (hpushed : Pushed Names payload version) {now : Files α}
    (hcopy : now.incoming = some payload) (hdest : now.dest = before.dest)
    (hprevious : now.previous = before.previous)
    (hstamp : now.stamp = before.stamp)
    (hnone : before.dest = none ∨ ∀ found ∈ fault, found.step ≠ .promote)
    (hlate : ∀ found ∈ fault,
      found.step ∈ [Step.promote, .truncate, .write, .removeStamp] ∨
        SwapSafe Names payload version before found) :
    Kept Names verify payload before (promote fault version now).1
        (promote fault version now).2 ↔
      ∀ found ∈ fault, SwapSafe Names payload version before found := by
  refine promote_kept hverify hpushed hcopy hstamp
    (hnone.imp_left fun hempty => ⟨hdest.trans hempty, ?_⟩) hlate
  rw [hprevious, hempty, Option.none_or]

/-- A fault at one step, or nowhere in it. -/
theorem fault_at (fault : Option Fault) (step : Step) :
    (∀ found ∈ fault, found.step ≠ step) ∨
      ∃ crash wrote source, fault = some ⟨step, crash, wrote, source⟩ := by
  cases fault with
  | none => exact Or.inl fun _ h => nomatch h
  | some found =>
      by_cases heq : found.step = step
      · obtain ⟨other, crash, wrote, source⟩ := found
        obtain rfl : other = step := heq
        exact Or.inr ⟨crash, wrote, source, rfl⟩
      · exact Or.inl ((forall_fault found).mpr heq)

theorem swap_kept_live (hverify : verify payload = .ok ())
    (hpushed : Pushed Names payload version) {now : Files α}
    (hcopy : now.incoming = some payload) (hdest : now.dest = before.dest)
    (hlive : before.dest.isSome) (hstamp : now.stamp = before.stamp)
    (hgoes : ∀ found ∈ fault, found.step ≠ .existsDest) :
    Kept Names verify payload before (swap fault version now).1
        (swap fault version now).2 ↔
      ∀ found ∈ fault, SwapSafe Names payload version before found := by
  rw [swap, attempt_next hgoes, if_pos (hdest ▸ hlive)]
  rcases fault_at fault .removePrevious with
    hremoves | ⟨crash, wrote, source, rfl⟩
  · rw [attempt_next hremoves]
    refine @rotate_kept _ _ _ _ _ _ _ hverify hpushed
      { now with previous := none } hcopy hdest hlive hstamp
      fun found hfound => ?_
    have hdoes := hgoes found hfound
    have hdoes' := hremoves found hfound
    obtain ⟨step, crash, wrote, source⟩ := found
    cases step <;> simp_all [SwapSafe]
  · rw [forall_fault]
    cases crash with
    | true =>
        have hsafe : SwapSafe Names payload version before
            ⟨.removePrevious, true, wrote, source⟩ ↔
            Named Names before.stamp before.dest := by
          simp [SwapSafe, hlive]
        rw [hsafe]
        exact kept_unchanged hdest hstamp
    | false =>
        have hlate : ∀ found ∈
              some (Fault.mk .removePrevious false wrote source),
            found.step ∈
                [Step.rotate, .promote, .truncate, .write, .removeStamp] ∨
              SwapSafe Names payload version before found :=
          (forall_fault _).mpr (Or.inr trivial)
        have hkept := rotate_kept hverify hpushed hcopy hdest hlive hstamp hlate
        rw [forall_fault] at hkept
        exact hkept

theorem swap_kept_empty (hverify : verify payload = .ok ())
    (hpushed : Pushed Names payload version) {now : Files α}
    (hcopy : now.incoming = some payload) (hdest : now.dest = before.dest)
    (hprevious : now.previous = before.previous)
    (hempty : before.dest = none) (hstamp : now.stamp = before.stamp)
    (hgoes : ∀ found ∈ fault, found.step ≠ .existsDest) :
    Kept Names verify payload before (swap fault version now).1
        (swap fault version now).2 ↔
      ∀ found ∈ fault, SwapSafe Names payload version before found := by
  have hnone : ¬ now.dest.isSome = true := by
    rw [hdest, hempty]
    exact Bool.false_ne_true
  rw [swap, attempt_next hgoes, if_neg hnone]
  refine promote_kept_unrotated hverify hpushed hcopy hdest hprevious hstamp
    (Or.inl hempty) fun found hfound => ?_
  have hdoes := hgoes found hfound
  obtain ⟨step, crash, wrote, source⟩ := found
  cases step <;> cases crash <;> simp_all [SwapSafe]

/-- A verified copy takes the place of the model; the condition is on the state
that the fault finds. -/
theorem swap_kept (hverify : verify payload = .ok ())
    (hpushed : Pushed Names payload version) {now : Files α}
    (hcopy : now.incoming = some payload) (hdest : now.dest = before.dest)
    (hprevious : now.previous = before.previous)
    (hstamp : now.stamp = before.stamp) :
    Kept Names verify payload before (swap fault version now).1
        (swap fault version now).2 ↔
      ∀ found ∈ fault, SwapSafe Names payload version before found := by
  rcases fault_at fault .existsDest with hgoes | ⟨crash, wrote, source, rfl⟩
  · cases hbefore : before.dest with
    | none =>
        exact swap_kept_empty hverify hpushed hcopy hdest hprevious hbefore
          hstamp hgoes
    | some live =>
        exact swap_kept_live hverify hpushed hcopy hdest (by rw [hbefore]; rfl)
          hstamp hgoes
  · cases crash with
    | true =>
        rw [forall_fault]
        exact kept_unchanged hdest hstamp
    | false =>
        have hstep : ∀ found ∈ some (Fault.mk .existsDest false wrote source),
            found.step ≠ .promote :=
          (forall_fault _).mpr fun h => nomatch h
        have hlate : ∀ found ∈ some (Fault.mk .existsDest false wrote source),
            found.step ∈ [Step.promote, .truncate, .write, .removeStamp] ∨
              SwapSafe Names payload version before found :=
          (forall_fault _).mpr (Or.inr trivial)
        exact promote_kept_unrotated hverify hpushed hcopy hdest hprevious
          hstamp (Or.inr hstep) hlate

/-! ### Pushes -/

theorem early_at (h : early fault = true) :
    ∃ found ∈ fault, found.step ∈ [Step.mkdir, .copy, .verify] := by
  cases fault with
  | none => exact nomatch h
  | some found => exact ⟨found, rfl, of_decide_eq_true h⟩

/-- A push that is not stopped goes on to the swap. -/
theorem apply_goes {hasParent : Bool} (files : Files α)
    (hparent : hasParent = true) (hverify : verify payload = .ok ())
    (hearly : early fault = false) :
    apply fault verify hasParent payload version files =
      swap fault version { files with incoming := some payload } := by
  have hgoes : ∀ step ∈ [Step.mkdir, .copy, .verify], ∀ found ∈ fault,
      found.step ≠ step := by
    intro step hstep found hfound heq
    rw [Option.mem_def] at hfound
    rw [hfound] at hearly
    exact of_decide_eq_false hearly (heq ▸ hstep)
  rw [apply, if_neg (by simp [hparent])]
  rw [attempt_next (hgoes .mkdir (by simp)),
    attempt_next (hgoes .copy (by simp))]
  dsimp only
  rw [attempt_next (hgoes .verify (by simp)), hverify]

/-- A push that stops before the swap leaves the model and the stamp. -/
theorem apply_stopped {hasParent : Bool} (files : Files α)
    (hstops : hasParent = false ∨ verify payload ≠ .ok () ∨ early fault) :
    SameModel files (apply fault verify hasParent payload version files) := by
  by_cases hparent : hasParent = false
  · rw [apply, if_pos hparent]
    exact ⟨rfl, rfl⟩
  rw [apply, if_neg hparent]
  rcases fault_at fault .mkdir with hmkdir | ⟨crash, wrote, source, rfl⟩
  · rw [attempt_next hmkdir]
    rcases fault_at fault .copy with hcopy | ⟨crash, wrote, source, rfl⟩
    · rw [attempt_next hcopy]
      rcases fault_at fault .verify with hload | ⟨crash, wrote, source, rfl⟩
      · rw [attempt_next hload]
        cases hverify : verify payload with
        | error reason =>
            exact discard_same (.unusable reason)
              { files with incoming := some payload }
        | ok _ =>
            rcases hstops with h | h | h
            · exact absurd h hparent
            · exact absurd hverify h
            · obtain ⟨found, hfound, hstep⟩ := early_at h
              have hnot := hmkdir found hfound
              have hnot' := hcopy found hfound
              have hnot'' := hload found hfound
              simp_all
      · exact attempt_at_rule ⟨rfl, rfl⟩
          (discard_same _ { files with incoming := some payload })
    · exact attempt_at_rule ⟨rfl, rfl⟩ (discard_same _ files)
  · exact attempt_at_rule ⟨rfl, rfl⟩ ⟨rfl, rfl⟩

/-- A push, with one fault at the most, keeps the model and its stamp consistent
if and only if the state that the fault finds is safe. -/
theorem apply_kept_iff (hpushed : Pushed Names payload version)
    (hasParent : Bool) (files : Files α) (fault : Option Fault) :
    Kept Names verify payload files
        (apply fault verify hasParent payload version files).1
        (apply fault verify hasParent payload version files).2 ↔
      Safe Names verify hasParent payload version files fault := by
  unfold Safe
  split
  · next hstops =>
      obtain ⟨hdest, hstamp⟩ := @apply_stopped _ _ _ version _ _ files hstops
      exact kept_unchanged hdest hstamp
  · next hgoes =>
      have hparent : hasParent = true := by
        cases hasParent with
        | false => exact absurd (Or.inl rfl) hgoes
        | true => rfl
      have hverify : verify payload = .ok () := by
        by_contra hne
        exact hgoes (Or.inr (Or.inl hne))
      have hearly : early fault = false := by
        by_contra hne
        exact hgoes (Or.inr (Or.inr (Bool.eq_true_of_not_eq_false hne)))
      rw [apply_goes files hparent hverify hearly]
      exact swap_kept hverify hpushed rfl rfl rfl rfl

end

/-- Model 1 is version 1.0.0, and model 2 is 1.1.0. -/
def twoModels (name : List Char) (model : Nat) : Prop :=
  name = "1.0.0".toList ∧ model = 1 ∨ name = "1.1.0".toList ∧ model = 2

instance (name : List Char) (model : Nat) :
    Decidable (twoModels name model) :=
  inferInstanceAs (Decidable (_ ∨ _))

theorem pushed_twoModels : Pushed twoModels 2 (some "1.1.0".toList) := by
  intro text htext name hname
  rw [← Option.some.inj htext] at hname
  have hread : readStamp (stampText "1.1.0".toList) =
      some "1.1.0".toList := by decide +kernel
  rw [hread] at hname
  exact Or.inr ⟨(Option.some.inj hname).symm, rfl⟩

theorem apply_kept_iff_twoModels :
    Kept twoModels (fun _ => .ok ()) 2
        ⟨some 1, none, none, some "1.0.0\n".toList⟩
        (apply none (fun _ => .ok ()) true 2 (some "1.1.0".toList)
          ⟨some 1, none, none, some "1.0.0\n".toList⟩).1
        (apply none (fun _ => .ok ()) true 2 (some "1.1.0".toList)
          ⟨some 1, none, none, some "1.0.0\n".toList⟩).2 ↔
      Safe twoModels (fun _ => .ok ()) true 2 (some "1.1.0".toList)
        ⟨some 1, none, none, some "1.0.0\n".toList⟩ none :=
  apply_kept_iff pushed_twoModels true _ none

/-- A crash once 1.1.0 is in place and before its stamp is written: the stamp
still says 1.0.0, and a floor at 1.0.5 then retires the newer model. -/
theorem apply_crash_unstamped :
    (apply (some ⟨.truncate, true, 0, ""⟩) (fun _ => .ok ()) true 2
        (some "1.1.0".toList)
        ⟨some 1, none, none, some "1.0.0\n".toList⟩).1 =
      ⟨some 2, some 1, none, some "1.0.0\n".toList⟩ ∧
    ¬ Named twoModels (some "1.0.0\n".toList) (some 2) ∧
    (retireIfSuperseded (true, true)
        ⟨some 2, some 1, none, some "1.0.0\n".toList⟩
        ⟨some 3, none, none, some "1.0.5\n".toList⟩).dest = none ∧
    ¬ Newer "1.0.5".toList "1.1.0".toList := by
  refine ⟨by rfl, fun h => ?_, by decide +kernel, fun h => ?_⟩
  · have hread : (some "1.0.0\n".toList).bind readStamp =
        some "1.0.0".toList := by decide +kernel
    obtain ⟨model, hmodel, hnames⟩ := h _ hread
    rw [← Option.some.inj hmodel] at hnames
    exact absurd hnames (by decide)
  · have hcmp : versionCmp "1.0.5".toList "1.1.0".toList = some .lt := by
      decide +kernel
    rw [← versionCmp_gt_iff, hcmp] at h
    exact nomatch h

end Wakeword

end Ota

end Bridgething
