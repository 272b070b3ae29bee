/-
The generations of a webapp's processes and restarts: what posts to the
supervisor, under which number, and what holds of the numbers that a child
keeps.
-/
import Bridgething.Extensions.Mirrored

namespace Bridgething

namespace Extensions

/-- The number under which something posts for a webapp. -/
def Poster.of (poster : Poster) (webapp : Uuid) : Option Nat :=
  match poster with
  | .process other generation | .timer other generation =>
      if other = webapp then some generation else none

/-- What posts at a place for a webapp, by its number. -/
def numberAt (posters : List Poster) (webapp : Uuid) (p : Nat) : Option Nat :=
  posters[p]?.bind fun poster => poster.of webapp

/-- What the supervisor keeps no record of: how many posters there were as a
webapp's child came to be and as it was stopped last, the processes that were
heard to be ready, and those that were reported to have exited. -/
structure History where
  born : Uuid → Nat := fun _ => 0
  stopped : Uuid → Nat := fun _ => 0
  ready : Nat → Bool := fun _ => false
  gone : Nat → Bool := fun _ => false

/-- The process that a child writes to. -/
def Child.process (child : Child) : Option Nat := child.stdin.map Pipe.process

/-- The fields of a child but for what it is told. -/
def Child.core (child : Child) :=
  (child.record, child.status, child.attempt, child.armed, child.seq,
    child.intent, child.process, child.kill)

/-- A process that a child writes to is the one of its generation, was told to
run and has not exited; it is ready where the child is said to run. -/
structure Live (past : History) (posters : List Poster) (webapp : Uuid)
    (child : Child) (p : Nat) : Prop where
  posted : posters[p]? = some (.process webapp child.attempt)
  born : past.born webapp ≤ p
  last : ∀ later generation, p < later →
    posters[later]? ≠ some (.process webapp generation)
  run : child.intent = .run
  enabled : child.record.enabled = true
  gone : past.gone p = false
  ready : child.status = .running → past.ready p = true

structure ChildSane (past : History) (posters : List Poster) (webapp : Uuid)
    (child : Child) : Prop where
  process : ∀ p, child.process = some p → Live past posters webapp child p
  attempt : child.attempt ≤ child.seq
  numbered : ∀ p n, past.born webapp ≤ p →
    numberAt posters webapp p = some n → n ≤ child.seq
  armed : ∀ n, child.armed = some n → n = child.seq ∧ ∃ p,
    posters[p]? = some (.timer webapp n) ∧ past.born webapp ≤ p ∧
      past.stopped webapp ≤ p

structure Sane (past : History) (s : Supervisor) : Prop where
  child : ∀ webapp child, s.children.get? webapp = some child →
    ChildSane past s.posters webapp child
  unique : ∀ webapp p q n, past.born webapp ≤ p → past.born webapp ≤ q →
    numberAt s.posters webapp p = some n →
    numberAt s.posters webapp q = some n → p = q
  seen : ∀ p, past.ready p = true ∨ past.gone p = true → p < s.posters.length
  bounds : ∀ webapp, past.born webapp ≤ s.posters.length ∧
    past.stopped webapp ≤ s.posters.length

/-- What is published is what runs, and what runs can be written to, but for the
one webapp that is being stopped. -/
structure Settled (s : Supervisor) (loose : Option Uuid) : Prop where
  published : s.published = s.runningSet
  open_ : ∀ webapp child, some webapp ≠ loose →
    s.children.get? webapp = some child → child.status = .running →
      child.process.isSome

section

variable {past : History} {posters : List Poster} {webapp : Uuid}
  {child other : Child}

theorem ChildSane.congr (h : ChildSane past posters webapp child)
    (hcore : other.core = child.core) :
    ChildSane past posters webapp other := by
  simp only [Child.core, Prod.mk.injEq] at hcore
  obtain ⟨hrecord, hstatus, hattempt, harmed, hseq, hintent, hprocess, -⟩ :=
    hcore
  refine ⟨fun p hp => ?_, ?_, ?_, ?_⟩
  · have hlive := h.process p (hprocess ▸ hp)
    exact ⟨hattempt ▸ hlive.posted, hlive.born, hlive.last,
      hintent ▸ hlive.run, hrecord ▸ hlive.enabled, hlive.gone,
      hstatus ▸ hlive.ready⟩
  · rw [hattempt, hseq]
    exact h.attempt
  · rw [hseq]
    exact h.numbered
  · rw [harmed, hseq]
    exact h.armed

/-- Another status than running asks for nothing. -/
theorem ChildSane.status (h : ChildSane past posters webapp child)
    {status : ExtensionStatus} (hstatus : status ≠ .running) :
    ChildSane past posters webapp { child with status := status } :=
  ⟨fun p hp =>
    { h.process p hp with ready := fun hrunning => absurd hrunning hstatus },
    h.attempt, h.numbered, h.armed⟩

theorem numberAt_lt {p n : Nat} (h : numberAt posters webapp p = some n) :
    p < posters.length := by
  by_contra hpast
  rw [numberAt, List.getElem?_eq_none (Nat.le_of_not_lt hpast)] at h
  exact nomatch h

theorem getElem?_push_lt (last : Poster) {p : Nat} (h : p < posters.length) :
    (posters ++ [last])[p]? = posters[p]? :=
  List.getElem?_append_left h

theorem getElem?_push_self (last : Poster) :
    (posters ++ [last])[posters.length]? = some last := by
  simp

theorem numberAt_push {last : Poster} {p n : Nat}
    (h : numberAt (posters ++ [last]) webapp p = some n) :
    numberAt posters webapp p = some n ∨
      p = posters.length ∧ last.of webapp = some n := by
  have hlt := numberAt_lt h
  rw [List.length_append, List.length_singleton] at hlt
  rcases Nat.lt_succ_iff_lt_or_eq.mp hlt with hold | rfl
  · left
    rw [numberAt, getElem?_push_lt last hold] at h
    exact h
  · right
    rw [numberAt, getElem?_push_self] at h
    exact ⟨rfl, h⟩

/-- A process stays the last of its webapp as something else comes to post. -/
theorem Live.push {p : Nat} (h : Live past posters webapp child p)
    {last : Poster} (hlast : ∀ generation, last ≠ .process webapp generation) :
    Live past (posters ++ [last]) webapp child p := by
  have hp : p < posters.length := by
    by_contra hpast
    have hnone := List.getElem?_eq_none (Nat.le_of_not_lt hpast)
    exact nomatch hnone.symm.trans h.posted
  refine { h with posted := ?_, last := fun later generation hlater heq => ?_ }
  · rw [getElem?_push_lt last hp]
    exact h.posted
  · rcases Nat.lt_trichotomy later posters.length with hlt | rfl | hgt
    · rw [getElem?_push_lt last hlt] at heq
      exact h.last later generation hlater heq
    · rw [getElem?_push_self] at heq
      exact hlast generation (Option.some.inj heq)
    · rw [List.getElem?_eq_none (by simp; omega)] at heq
      exact nomatch heq

theorem Poster.of_eq_none {last : Poster} (h : last.of webapp = none)
    (generation : Nat) : last ≠ .process webapp generation := by
  rintro rfl
  simp [Poster.of] at h

/-- Nothing changes for a child as something comes to post for another. -/
theorem ChildSane.push (h : ChildSane past posters webapp child)
    {last : Poster} (hlast : last.of webapp = none) :
    ChildSane past (posters ++ [last]) webapp child := by
  refine ⟨fun p hp => (h.process p hp).push (Poster.of_eq_none hlast),
    h.attempt, fun p n hborn hn => ?_, fun n harmed => ?_⟩
  · rcases numberAt_push hn with hold | ⟨-, hnew⟩
    · exact h.numbered p n hborn hold
    · rw [hlast] at hnew
      exact nomatch hnew
  · obtain ⟨hlast, p, hp, hborn, hstopped⟩ := h.armed n harmed
    refine ⟨hlast, p, ?_, hborn, hstopped⟩
    have hlt : p < posters.length := by
      by_contra hpast
      have hnone := List.getElem?_eq_none (Nat.le_of_not_lt hpast)
      exact nomatch hnone.symm.trans hp
    rw [getElem?_push_lt last hlt]
    exact hp

end

namespace Sane

variable {past : History} {s next : Supervisor} {webapp : Uuid} {child : Child}

theorem same (h : Sane past s) (hchildren : next.children = s.children)
    (hposters : next.posters = s.posters) : Sane past next := by
  refine ⟨?_, ?_, ?_, ?_⟩
  · rw [hchildren, hposters]
    exact h.child
  · rw [hposters]
    exact h.unique
  · rw [hposters]
    exact h.seen
  · rw [hposters]
    exact h.bounds

theorem put (h : Sane past s)
    (hchild : ChildSane past s.posters webapp child)
    (hchildren : next.children = s.children.put webapp child)
    (hposters : next.posters = s.posters) : Sane past next := by
  refine { (h.same rfl rfl : Sane past s) with
    child := fun other found hfound => ?_
    unique := ?_, seen := ?_, bounds := ?_ }
  · rw [hchildren] at hfound
    rw [hposters]
    rcases Table.get?_put_cases hfound with ⟨rfl, rfl⟩ | ⟨-, hold⟩
    · exact hchild
    · exact h.child other found hold
  · rw [hposters]
    exact h.unique
  · rw [hposters]
    exact h.seen
  · rw [hposters]
    exact h.bounds

/-- Something comes to post for a child under a number that is new. -/
theorem push (h : Sane past s) {old : Child}
    (hold : s.children.get? webapp = some old) {last : Poster} {n : Nat}
    (hlast : last.of webapp = some n) (hnew : old.seq < n)
    (hchild : ChildSane past (s.posters ++ [last]) webapp child)
    (hchildren : next.children = s.children.put webapp child)
    (hposters : next.posters = s.posters ++ [last]) : Sane past next := by
  have hothers : ∀ other, other ≠ webapp → last.of other = none := by
    intro other hne
    cases last <;>
      · simp only [Poster.of, Option.ite_none_right_eq_some] at hlast ⊢
        rw [if_neg fun heq => hne (heq.symm.trans hlast.1)]
  have hfresh : ∀ p, past.born webapp ≤ p →
      numberAt s.posters webapp p ≠ some n := by
    intro p hborn hp
    exact absurd ((h.child webapp old hold).numbered p n hborn hp)
      (Nat.not_le_of_lt hnew)
  refine ⟨fun other found hfound => ?_, fun other p q m hp hq hpn hqn => ?_,
    fun p hp => ?_, fun other => ?_⟩
  · rw [hchildren] at hfound
    rw [hposters]
    rcases Table.get?_put_cases hfound with ⟨rfl, rfl⟩ | ⟨hne, hold⟩
    · exact hchild
    · exact (h.child other found hold).push (hothers other hne)
  · rw [hposters] at hpn hqn
    have hnone : ∀ place, past.born other ≤ place →
        numberAt s.posters other place = some m →
        last.of other ≠ some m := by
      intro place hplace hheld hm
      by_cases heq : other = webapp
      · subst heq
        obtain rfl : n = m := Option.some.inj (hlast.symm.trans hm)
        exact hfresh place hplace hheld
      · exact nomatch (hothers other heq).symm.trans hm
    rcases numberAt_push hpn with hpold | ⟨hplast, hpnew⟩
    · rcases numberAt_push hqn with hqold | ⟨hqlast, hqnew⟩
      · exact h.unique other p q m hp hq hpold hqold
      · exact absurd hqnew (hnone p hp hpold)
    · rcases numberAt_push hqn with hqold | ⟨hqlast, hqnew⟩
      · exact absurd hpnew (hnone q hq hqold)
      · exact hplast.trans hqlast.symm
  · rw [hposters, List.length_append]
    exact Nat.lt_of_lt_of_le (h.seen p hp) (Nat.le_add_right _ _)
  · rw [hposters, List.length_append]
    obtain ⟨hborn, hstopped⟩ := h.bounds other
    exact ⟨Nat.le_trans hborn (Nat.le_add_right _ _),
      Nat.le_trans hstopped (Nat.le_add_right _ _)⟩

end Sane

end Extensions

end Bridgething
