/-
No lane starves: once its credit covers its head, a lane is served within five
batches, whatever is pushed between them.
-/
import Mathlib
import Bridgething.Lib.Transition
import Bridgething.Sched.Conservation

namespace Bridgething

namespace Sched

open Wire (Priority)

open LaneItem (len)

open Transition

variable {T : Type} [LaneItem T]

def Op.Positive : Op T → Prop
  | .push _ item => 0 < len item
  | .nextBatch => True

def Op.isBatch : Op T → Bool
  | .push _ _ => false
  | .nextBatch => true

/-- The next batch takes this item off the lane, before any other of it. -/
def Emits (sched : LaneScheduler T) (priority : Priority) (item : T) : Prop :=
  ∃ batch next tagged rest, sched.nextBatch = some (batch, next) ∧
    batch.items = tagged.map Prod.snd ∧
    (∀ other, (sched.lanes other).queue =
      onLane other tagged ++ (next.lanes other).queue) ∧
    onLane priority tagged = item :: rest

/-- The lane is not owed, and no push to its end makes it so. -/
def Lane.Quiet (lane : Lane T) : Prop :=
  lane.credit = 0 ∨
    ∃ head, lane.queue.head? = some head ∧ lane.credit < len head

/-- What bounds the batches an owed lane still waits: at each of them a lane
before it is served, which takes that lane's credit away. -/
def Turn (max : Nat) (lanes : Lanes T) : Priority → Nat → Prop
  | .normal, 1 => True
  | .bulk, 2 => True
  | .bulk, 1 => (lanes .normal).Quiet
  | .background, 5 => True
  | .background, 4 => (lanes .normal).credit = 0
  | .background, 3 => (lanes .bulk).credit = 0
  | .background, 2 => (lanes .normal).credit = 0 ∧
      (lanes .bulk).credit ≤ allowance max (LANE_RESERVE .bulk)
  | .background, 1 => (lanes .normal).Quiet ∧ (lanes .bulk).Quiet
  | _, _ => False

/-- The item heads its lane, in a scheduler of positive items and room for the
first two shares together. -/
structure Waiting (max : Nat) (priority : Priority) (head : T)
    (sched : LaneScheduler T) : Prop where
  cap : sched.maxBatchBytes = max
  large : 100 ≤ max
  queue : (sched.lanes priority).queue.head? = some head
  positive : ∀ other, ∀ item ∈ (sched.lanes other).queue, 0 < len item

/-- `count` more batches are enough: first until the credit covers the head,
then until the lanes before it have had their turn. -/
def Due (max : Nat) (priority : Priority) (head : T) (count : Nat)
    (progress : Progress T) : Prop :=
  Waiting max priority head progress.sched ∧
    ((∃ more, count = more + 5 ∧ len head ≤
        (progress.sched.lanes priority).credit +
          more * allowance max (LANE_RESERVE priority)) ∨
      (len head ≤ (progress.sched.lanes priority).credit ∧
        ∃ turns ≤ count, Turn max progress.sched.lanes priority turns))

theorem Lane.Quiet.not_owes {lane : Lane T} (h : lane.Quiet)
    (hpositive : ∀ item ∈ lane.queue, 0 < len item) : ¬ lane.Owes := by
  rintro ⟨length, hlength, hcredit⟩
  obtain ⟨head, hhead, rfl⟩ := Option.map_eq_some_iff.mp hlength
  rcases h with hzero | ⟨other, hother, hless⟩
  · have := hpositive head (List.mem_of_mem_head? hhead)
    omega
  · rw [hhead, Option.some.injEq] at hother
    subst hother
    exact absurd hcredit (Nat.not_le.mpr hless)

theorem Lane.quiet_of_credit {lane : Lane T} (h : lane.credit = 0) :
    lane.Quiet := Or.inl h

/-- The first two shares fit one batch together. -/
theorem allowance_add_le {max : Nat} (h : 100 ≤ max) :
    allowance max (LANE_RESERVE .normal) +
      allowance max (LANE_RESERVE .bulk) ≤ max := by
  have hshare : ∀ share ≥ 1, allowance max share ≤ max * share / 100 := by
    intro share hpos
    have hone : 1 ≤ max * share / 100 := by
      rw [Nat.le_div_iff_mul_le (by decide)]
      calc 1 * 100 ≤ share * max := Nat.mul_le_mul hpos h
        _ = max * share := Nat.mul_comm share max
    have hcapped : saturatingMul max share / 100 ≤ max * share / 100 :=
      Nat.div_le_div_right (Nat.min_le_left _ _)
    exact Nat.max_le.mpr ⟨hcapped, hone⟩
  have hnormal := hshare 70 (by decide)
  have hbulk := hshare 20 (by decide)
  simp only [LANE_RESERVE]
  omega

section Push

variable {max : Nat} {priority : Priority} {head : T}

theorem head?_push (sched : LaneScheduler T) (other lane : Priority)
    (item first : T) (h : (sched.lanes lane).queue.head? = some first) :
    ((sched.push other item).lanes lane).queue.head? = some first := by
  by_cases hsame : lane = other
  · subst hsame
    simp [LaneScheduler.push, Lane.push, List.head?_append, h]
  · simpa [LaneScheduler.push, hsame] using h

theorem credit_push (sched : LaneScheduler T) (other lane : Priority)
    (item : T) : ((sched.push other item).lanes lane).credit =
      (sched.lanes lane).credit := by
  by_cases hsame : lane = other
  · subst hsame
    simp [LaneScheduler.push, Lane.push]
  · simp [LaneScheduler.push, hsame]

theorem Lane.Quiet.push {sched : LaneScheduler T} {lane : Priority}
    (h : (sched.lanes lane).Quiet) (other : Priority) (item : T) :
    ((sched.push other item).lanes lane).Quiet := by
  rcases h with hzero | ⟨first, hfirst, hless⟩
  · exact Or.inl (by rw [credit_push, hzero])
  · refine Or.inr ⟨first, head?_push sched other lane item first hfirst, ?_⟩
    rwa [credit_push]

theorem Turn.push {sched : LaneScheduler T} {turns : Nat}
    (h : Turn max sched.lanes priority turns) (other : Priority) (item : T) :
    Turn max (sched.push other item).lanes priority turns := by
  unfold Turn at h ⊢
  split at h
  · trivial
  · trivial
  · exact h.push other item
  · trivial
  · simpa only [credit_push] using h
  · simpa only [credit_push] using h
  · simpa only [credit_push] using h
  · exact ⟨h.1.push other item, h.2.push other item⟩
  · exact h.elim

theorem Waiting.push {sched : LaneScheduler T}
    (h : Waiting max priority head sched) (other : Priority) {item : T}
    (hitem : 0 < len item) :
    Waiting max priority head (sched.push other item) where
  cap := h.cap
  large := h.large
  queue := head?_push sched other priority item head h.queue
  positive lane queued hqueued := by
    by_cases hsame : lane = other
    · subst hsame
      simp only [LaneScheduler.push, Function.update_self, Lane.push,
        List.mem_append, List.mem_singleton] at hqueued
      rcases hqueued with hold | rfl
      · exact h.positive lane queued hold
      · exact hitem
    · simp only [LaneScheduler.push, Function.update_of_ne hsame] at hqueued
      exact h.positive lane queued hqueued

theorem Due.push {count : Nat} {progress : Progress T}
    (h : Due max priority head count progress) (other : Priority) {item : T}
    (hitem : 0 < len item) :
    Due max priority head count (progress.apply (.push other item)) := by
  refine ⟨h.1.push other hitem, ?_⟩
  rcases h.2 with ⟨more, hcount, hcredit⟩ | ⟨hcredit, turns, hle, hturn⟩
  · refine Or.inl ⟨more, hcount, ?_⟩
    simpa only [Progress.apply, credit_push] using hcredit
  · refine Or.inr ⟨?_, turns, hle, hturn.push other item⟩
    simpa only [Progress.apply, credit_push] using hcredit

end Push

section Batch

variable {max : Nat} {priority : Priority} {head : T}
  {sched next : LaneScheduler T} {batch : Batch T} {origin : Priority}
  {seed : T} {others : List (Priority × T)}

theorem Served.emits (hserved : Served sched next batch origin seed others)
    (hbatch : sched.nextBatch = some (batch, next))
    (hhead : (sched.lanes priority).queue.head? = some head)
    (hsome : onLane priority ((origin, seed) :: others) ≠ []) :
    Emits sched priority head := by
  obtain ⟨item, rest, htaken⟩ := List.exists_cons_of_ne_nil hsome
  have hqueue := hserved.queue priority
  rw [htaken, List.cons_append] at hqueue
  rw [hqueue, List.head?_cons, Option.some.injEq] at hhead
  subst hhead
  exact ⟨batch, next, (origin, seed) :: others, rest, hbatch, hserved.items,
    hserved.queue, htaken⟩

/-- A lane the batch left out keeps its queue and gains credit. -/
theorem Served.skipped (hserved : Served sched next batch origin seed others)
    {first : T} (hfirst : (sched.lanes priority).queue.head? = some first)
    (hnone : onLane priority ((origin, seed) :: others) = []) :
    (next.lanes priority).queue = (sched.lanes priority).queue ∧
      (next.lanes priority).credit =
        saturatingAdd (sched.lanes priority).credit
          (allowance sched.maxBatchBytes (LANE_RESERVE priority)) := by
  have hqueue : (next.lanes priority).queue =
      (sched.lanes priority).queue := by
    rw [hserved.queue priority, hnone, List.nil_append]
  refine ⟨hqueue, ?_⟩
  rw [hserved.credit priority, if_neg]
  rw [hqueue]
  rintro (hless | hempty)
  · exact Nat.lt_irrefl _ hless
  · rw [hempty] at hfirst
    exact absurd hfirst (by simp)

/-- Being served takes a lane's credit away. -/
theorem Served.credit_eq_zero
    (hserved : Served sched next batch origin seed others)
    (hsome : onLane priority ((origin, seed) :: others) ≠ []) :
    (next.lanes priority).credit = 0 := by
  have hpos := List.length_pos_iff.mpr hsome
  rw [hserved.credit priority, if_pos]
  apply Or.inl
  rw [hserved.queue priority, List.length_append]
  omega

/-- After any batch a lane has no credit, or it was left out with a head. -/
theorem Served.credit_cases
    (hserved : Served sched next batch origin seed others)
    (lane : Priority) :
    (next.lanes lane).credit = 0 ∨
      ((next.lanes lane).queue = (sched.lanes lane).queue ∧
        (next.lanes lane).credit = saturatingAdd (sched.lanes lane).credit
          (allowance sched.maxBatchBytes (LANE_RESERVE lane))) := by
  cases htaken : onLane lane ((origin, seed) :: others) with
  | cons item rest =>
      exact Or.inl (hserved.credit_eq_zero (by simp [htaken]))
  | nil =>
      cases hqueue : (sched.lanes lane).queue with
      | nil =>
          apply Or.inl
          rw [hserved.credit lane, if_pos]
          have hempty := hserved.queue lane
          rw [htaken, hqueue] at hempty
          exact Or.inr hempty.symm
      | cons first rest =>
          have hhead : (sched.lanes lane).queue.head? = some first := by
            rw [hqueue, List.head?_cons]
          have hskipped := hserved.skipped hhead htaken
          rw [hqueue] at hskipped
          exact Or.inr hskipped

theorem Served.origin_credit
    (hserved : Served sched next batch origin seed others) :
    (next.lanes origin).credit = 0 :=
  hserved.credit_eq_zero (by simp [onLane_cons_self])

theorem Served.credit_le
    (hserved : Served sched next batch origin seed others)
    (lane : Priority) :
    (next.lanes lane).credit ≤ (sched.lanes lane).credit +
      allowance sched.maxBatchBytes (LANE_RESERVE lane) := by
  rcases hserved.credit_cases lane with hzero | ⟨_, hcredit⟩
  · rw [hzero]
    exact Nat.zero_le _
  · rw [hcredit]
    exact Nat.min_le_left _ _

theorem Served.waiting (hserved : Served sched next batch origin seed others)
    (hwaiting : Waiting max priority head sched)
    (hnone : onLane priority ((origin, seed) :: others) = []) :
    Waiting max priority head next where
  cap := hserved.cap.trans hwaiting.cap
  large := hwaiting.large
  queue := by
    rw [(hserved.skipped hwaiting.queue hnone).1]
    exact hwaiting.queue
  positive lane item hitem := by
    apply hwaiting.positive lane item
    rw [hserved.queue lane]
    exact List.mem_append_right _ hitem

/-- The first lane gets its share of a batch another lane seeds: it is left out
only when its head exceeds the share, or the room behind the seed. -/
theorem LaneScheduler.nextBatch_share
    (hbatch : sched.nextBatch = some (batch, next)) {owed : Priority}
    (howed : sched.owed = some owed) (hother : owed ≠ .normal)
    (hsame : (next.lanes .normal).queue = (sched.lanes .normal).queue)
    {first : T} (hfirst : (sched.lanes .normal).queue.head? = some first) :
    ∃ seed, (sched.lanes owed).queue.head? = some seed ∧
      min (saturatingAdd (len seed)
        (allowance sched.maxBatchBytes (LANE_RESERVE .normal)))
        sched.maxBatchBytes < len seed + len first := by
  obtain ⟨seed, lane, hpop, hpopped⟩ := popFirst_owed howed
  simp only [LaneScheduler.nextBatch, howed, Option.getD_some, hpopped,
    Option.some.injEq, Prod.mk.injEq] at hbatch
  obtain ⟨rfl, rfl⟩ := hbatch
  refine ⟨seed, by rw [(Lane.pop_eq_some hpop).1, List.head?_cons], ?_⟩
  generalize hceiling : min (saturatingAdd (len seed)
    (allowance sched.maxBatchBytes (LANE_RESERVE .normal)))
    sched.maxBatchBytes = ceiling
  obtain ⟨taken, hfilled⟩ := (sched.lanes .normal).fill_filled
    ⟨[seed], len seed⟩ ceiling
  generalize hstart : fillLane .normal ceiling
    (Function.update sched.lanes owed lane, (⟨[seed], len seed⟩ : Batch T)) =
    start
  have hlane : start.1 .normal = ((sched.lanes .normal).fill
      ⟨[seed], len seed⟩ ceiling).1 := by
    rw [← hstart]
    simp [fillLane, Ne.symm hother]
  obtain ⟨shares, hshares⟩ := foldl_fillLane_moves
    (fun filling priority => min (saturatingAdd filling.2.bytes
      (allowance sched.maxBatchBytes (LANE_RESERVE priority)))
      sched.maxBatchBytes)
    (fun _ _ => Nat.min_le_right _ _) [.bulk, .background] start
  have hfold : fillShares sched.maxBatchBytes
      (Function.update sched.lanes owed lane, ⟨[seed], len seed⟩) =
      [Priority.bulk, .background].foldl (fun filling priority =>
        fillLane priority (min (saturatingAdd filling.2.bytes
          (allowance sched.maxBatchBytes (LANE_RESERVE priority)))
          sched.maxBatchBytes) filling) start := by
    rw [← hstart, ← hceiling]
    rfl
  rw [← hfold] at hshares
  obtain ⟨rest, hrest⟩ := fillRest_moves sched.maxBatchBytes
    (fillShares sched.maxBatchBytes
      (Function.update sched.lanes owed lane, ⟨[seed], len seed⟩))
  have hqueue := (hshares.trans hrest).queue .normal
  have hlength := congrArg List.length hfilled.queue
  rw [← hlane, hqueue] at hlength
  simp only [settle] at hsame
  rw [hsame] at hlength hqueue
  simp only [List.length_append] at hlength
  have hnothing : taken = [] := List.length_eq_zero_iff.mp (by omega)
  have hfull := hfilled.full first (by
    have := hfilled.queue
    rw [hnothing, List.nil_append] at this
    rw [← this, hfirst])
  have hbytes := hfilled.bytes
  rw [hnothing, totalLen_nil, Nat.add_zero] at hbytes
  rwa [hbytes] at hfull

theorem LaneScheduler.owed_eq (sched : LaneScheduler T) :
    sched.owed =
      if (sched.lanes .normal).Owes then some .normal
      else if (sched.lanes .bulk).Owes then some .bulk
      else if (sched.lanes .background).Owes then some .background
      else none := by
  simp only [LaneScheduler.owed, LANES, List.find?_cons, List.find?_nil]
  repeat' split <;> simp_all

/-- When a lane has credit for its head, the lane that is owed is that one or
one before it. -/
theorem LaneScheduler.owed_of_owes (howes : (sched.lanes priority).Owes) :
    ∃ owed, sched.owed = some owed ∧ (sched.lanes owed).Owes ∧
      laneIndex owed ≤ laneIndex priority := by
  rw [sched.owed_eq]
  by_cases hnormal : (sched.lanes .normal).Owes
  · exact ⟨.normal, by rw [if_pos hnormal], hnormal, Nat.zero_le _⟩
  rw [if_neg hnormal]
  by_cases hbulk : (sched.lanes .bulk).Owes
  · refine ⟨.bulk, by rw [if_pos hbulk], hbulk, ?_⟩
    cases priority with
    | normal => exact absurd howes hnormal
    | bulk => exact Nat.le_refl 1
    | background => exact Nat.le_succ 1
  rw [if_neg hbulk]
  cases priority with
  | normal => exact absurd howes hnormal
  | bulk => exact absurd howes hbulk
  | background =>
      exact ⟨.background, by rw [if_pos howes], howes, Nat.le_refl 2⟩

/-- The first lane left out of a batch the bulk lane seeds within its share
stays quiet. -/
theorem Served.normal_quiet
    (hserved : Served sched next batch origin seed others)
    (hbatch : sched.nextBatch = some (batch, next))
    (hlarge : 100 ≤ sched.maxBatchBytes)
    (howed : sched.owed = some .bulk)
    (hcredit : (sched.lanes .normal).credit = 0)
    (hbulk : (sched.lanes .bulk).credit ≤
      allowance sched.maxBatchBytes (LANE_RESERVE .bulk)) :
    (next.lanes .normal).Quiet := by
  rcases hserved.credit_cases .normal with hzero | ⟨hsame, hgained⟩
  · exact Lane.quiet_of_credit hzero
  cases hhead : (sched.lanes .normal).queue.head? with
  | none =>
      apply Lane.quiet_of_credit
      rw [hserved.credit .normal, if_pos]
      rw [hsame]
      exact Or.inr (List.head?_eq_none_iff.mp hhead)
  | some first =>
      obtain ⟨item, hitem, hroom⟩ :=
        LaneScheduler.nextBatch_share hbatch howed (by simp) hsame hhead
      obtain ⟨length, hlength, hcovered⟩ := sched.owed_owes howed
      rw [Lane.headLen, hitem, Option.map_some, Option.some.injEq] at hlength
      have hshares := allowance_add_le hlarge
      have hfits := sched.fits
      refine Or.inr ⟨first, by rw [hsame, hhead], ?_⟩
      rw [hgained, hcredit]
      simp only [saturatingAdd] at hroom ⊢
      omega

/-- While a lane is owed and waits, each batch takes a turn off its wait. -/
theorem Turn.step (hserved : Served sched next batch origin seed others)
    (hbatch : sched.nextBatch = some (batch, next))
    (hwaiting : Waiting max priority head sched)
    (howes : (sched.lanes priority).Owes)
    (hnone : onLane priority ((origin, seed) :: others) = []) {turns : Nat}
    (hturn : Turn max sched.lanes priority (turns + 1)) :
    ∃ left ≤ turns, Turn max next.lanes priority left := by
  obtain ⟨owed, howed, howner, hbefore⟩ := sched.owed_of_owes howes
  have horigin := hserved.owed owed howed
  have hdiffers : owed ≠ priority := by
    intro hsame
    rw [horigin, hsame, onLane_cons_self] at hnone
    exact absurd hnone (by simp)
  have hspent : (next.lanes owed).credit = 0 := by
    rw [← horigin]
    exact hserved.origin_credit
  have hquiet : ¬ (sched.lanes owed).Quiet :=
    fun h => h.not_owes (hwaiting.positive owed) howner
  cases priority with
  | normal => cases owed <;> simp_all [laneIndex]
  | bulk =>
      have hnormal : owed = .normal := by
        cases owed <;> simp_all [laneIndex]
      subst hnormal
      rcases turns with _ | _ | turns
      · exact absurd hturn hquiet
      · exact ⟨1, Nat.le_refl 1, Lane.quiet_of_credit hspent⟩
      · exact hturn.elim
  | background =>
      have hcap := hwaiting.cap
      have hlarge : 100 ≤ sched.maxBatchBytes := hcap ▸ hwaiting.large
      cases owed with
      | background => exact absurd rfl hdiffers
      | normal =>
          rcases turns with _ | _ | _ | _ | _ | turns
          · exact absurd hturn.1 hquiet
          · exact absurd (Lane.quiet_of_credit hturn.1) hquiet
          · have hgained := hserved.credit_le .bulk
            rw [show (sched.lanes .bulk).credit = 0 from hturn, Nat.zero_add,
              hcap] at hgained
            exact ⟨2, Nat.le_refl 2, hspent, hgained⟩
          · exact absurd (Lane.quiet_of_credit hturn) hquiet
          · exact ⟨4, Nat.le_refl 4, hspent⟩
          · exact hturn.elim
      | bulk =>
          rcases turns with _ | _ | _ | _ | _ | turns
          · exact absurd hturn.2 hquiet
          · have hnormal := hserved.normal_quiet hbatch hlarge howed hturn.1
              (hcap ▸ hturn.2)
            exact ⟨1, Nat.le_refl 1, hnormal, Lane.quiet_of_credit hspent⟩
          · exact absurd (Lane.quiet_of_credit hturn) hquiet
          · exact ⟨3, Nat.le_refl 3, hspent⟩
          · exact ⟨3, by decide, hspent⟩
          · exact hturn.elim

theorem Turn.positive {lanes : Lanes T} {turns : Nat}
    (h : Turn max lanes priority turns) : ∃ before, turns = before + 1 := by
  cases turns with
  | zero => cases priority <;> exact absurd h (by simp [Turn])
  | succ before => exact ⟨before, rfl⟩

theorem Due.not_zero {progress : Progress T} :
    ¬ Due max priority head 0 progress := by
  rintro ⟨_, ⟨more, hcount, _⟩ | ⟨_, turns, hle, hturn⟩⟩
  · omega
  · obtain ⟨before, rfl⟩ := hturn.positive
    omega

/-- Five turns are enough for every lane. -/
theorem turn_five (max : Nat) (lanes : Lanes T) (priority : Priority) :
    ∃ turns ≤ 5, Turn max lanes priority turns := by
  cases priority with
  | normal => exact ⟨1, by decide, trivial⟩
  | bulk => exact ⟨2, by decide, trivial⟩
  | background => exact ⟨5, by decide, trivial⟩

/-- A batch emits the head or leaves one batch less to wait for. -/
theorem Due.nextBatch {count : Nat} {progress : Progress T}
    (h : Due max priority head (count + 1) progress) :
    Emits progress.sched priority head ∨
      Due max priority head count (progress.apply .nextBatch) := by
  obtain ⟨hwaiting, hphase⟩ := h
  cases hbatch : progress.sched.nextBatch with
  | none =>
      have hempty := (LaneScheduler.nextBatch_eq_none _).mp hbatch priority
      have hhead := hwaiting.queue
      rw [hempty] at hhead
      exact absurd hhead (by simp)
  | some answer =>
      obtain ⟨batch, next⟩ := answer
      obtain ⟨origin, seed, others, hserved⟩ :=
        LaneScheduler.nextBatch_served hbatch
      by_cases hnone : onLane priority ((origin, seed) :: others) = []
      · apply Or.inr
        have hnext := hserved.waiting hwaiting hnone
        have hgained := (hserved.skipped hwaiting.queue hnone).2
        rw [hwaiting.cap] at hgained
        have hlength := LaneItem.len_le head
        have hcovered : len head ≤ (progress.sched.lanes priority).credit →
            (∃ turns ≤ count + 1,
              Turn max progress.sched.lanes priority turns) →
            Due max priority head count
              ⟨next, progress.batches ++ [batch]⟩ := by
          intro hcredit hturn
          obtain ⟨turns, hle, hturn⟩ := hturn
          obtain ⟨before, rfl⟩ := hturn.positive
          have howes : (progress.sched.lanes priority).Owes :=
            ⟨len head, by rw [Lane.headLen, hwaiting.queue, Option.map_some],
              hcredit⟩
          obtain ⟨left, hleft, hnextTurn⟩ :=
            Turn.step hserved hbatch hwaiting howes hnone hturn
          refine ⟨hnext, Or.inr ⟨?_, left, by omega, hnextTurn⟩⟩
          rw [hgained, saturatingAdd]
          omega
        simp only [Progress.apply, hbatch]
        rcases hphase with ⟨more, hcount, hcredit⟩ | ⟨hcredit, hturn⟩
        · cases more with
          | zero =>
              rw [Nat.zero_mul, Nat.add_zero] at hcredit
              apply hcovered hcredit
              rw [hcount]
              exact turn_five max progress.sched.lanes priority
          | succ more =>
              refine ⟨hnext, Or.inl ⟨more, by omega, ?_⟩⟩
              rw [Nat.succ_mul] at hcredit
              rw [hgained, saturatingAdd]
              omega
        · exact hcovered hcredit hturn
      · exact Or.inl (hserved.emits hbatch hwaiting.queue hnone)

end Batch

/-- From any state of a scheduler with room for a hundred bytes, whatever items
of positive length are pushed between the batches: the head of a lane is
emitted within the batches its credit needs to cover it, and five more. -/
theorem head_emitted (sched : LaneScheduler T)
    (hlarge : 100 ≤ sched.maxBatchBytes) (priority : Priority) (head : T)
    (rest : List T)
    (hqueue : (sched.lanes priority).queue = head :: rest)
    (hqueued : ∀ other, ∀ item ∈ (sched.lanes other).queue, 0 < len item)
    (ops : List (Op T)) (hops : ∀ op ∈ ops, op.Positive)
    (hcount : len head ⌈/⌉
        allowance sched.maxBatchBytes (LANE_RESERVE priority) + 5 ≤
      ops.countP Op.isBatch) :
    ∃ before after, ops = before ++ .nextBatch :: after ∧
      before.countP Op.isBatch < len head ⌈/⌉
        allowance sched.maxBatchBytes (LANE_RESERVE priority) + 5 ∧
      Emits (before.foldl Progress.apply ⟨sched, []⟩).sched priority head := by
  have hshare : 0 < allowance sched.maxBatchBytes (LANE_RESERVE priority) :=
    Nat.lt_of_lt_of_le Nat.zero_lt_one (Nat.le_max_right _ _)
  have hcovered := (ceilDiv_le_iff_le_mul hshare).mp
    (Nat.le_refl (len head ⌈/⌉
      allowance sched.maxBatchBytes (LANE_RESERVE priority)))
  have hdue : Due sched.maxBatchBytes priority head (len head ⌈/⌉
      allowance sched.maxBatchBytes (LANE_RESERVE priority) + 5)
      ⟨sched, []⟩ := by
    refine ⟨⟨rfl, hlarge, by rw [hqueue, List.head?_cons], hqueued⟩, ?_⟩
    refine Or.inl ⟨_, rfl, ?_⟩
    rw [Nat.mul_comm]
    exact Nat.le_add_left_of_le hcovered
  have hrun := Run.foldl Progress.apply Op.Positive ⟨sched, []⟩ ops hops
  obtain ⟨before, label, after, mid, hsplit, hlabel, hbefore, hmid, hgoal⟩ :=
    hrun.countdown Op.isBatch
      (fun progress => Emits progress.sched priority head)
      (Due sched.maxBatchBytes priority head) Due.not_zero
      (by
        rintro count progress _ (_ | _) hlabel hdue ⟨hpositive, rfl⟩
        · exact hdue.push _ hpositive
        · exact absurd hlabel (by simp [Op.isBatch]))
      (by
        rintro count progress _ (_ | _) hlabel hdue ⟨_, rfl⟩
        · exact absurd hlabel (by simp [Op.isBatch])
        · exact hdue.nextBatch)
      hdue hcount
  have hbatch : label = .nextBatch := by
    cases label with
    | push _ _ => exact absurd hlabel (by simp [Op.isBatch])
    | nextBatch => rfl
  rw [hmid.eq_foldl] at hgoal
  exact ⟨before, after, hbatch ▸ hsplit, hbefore, hgoal⟩

/-- A background item of thirty bytes waits at most eight batches of a hundred,
here behind a push on the first lane. -/
theorem head_emitted_background :
    ∃ before after,
      Op.push .normal 7 :: List.replicate 8 (Op.nextBatch : Op UInt64) =
        before ++ .nextBatch :: after ∧
      before.countP Op.isBatch < 8 ∧
      Emits (before.foldl Progress.apply
        ⟨(LaneScheduler.new 100 (by decide) (by decide)).push .background 30,
          []⟩).sched .background 30 := by
  have hpositive : ∀ other, ∀ item ∈ (((LaneScheduler.new 100 (by decide)
      (by decide)).push .background (30 : UInt64)).lanes other).queue,
      0 < LaneItem.len item := by
    intro other item hitem
    cases other <;>
      simp [LaneScheduler.push, LaneScheduler.new, Lane.new, Lane.push]
        at hitem
    rw [hitem]
    decide
  have hops : ∀ op ∈ Op.push .normal (7 : UInt64) ::
      List.replicate 8 Op.nextBatch, op.Positive := by
    intro op hop
    rcases List.mem_cons.mp hop with rfl | hbatch
    · exact (by decide : 0 < (7 : UInt64).toNat)
    · rw [List.eq_of_mem_replicate hbatch]
      trivial
  obtain ⟨before, after, hsplit, hcount, hemits⟩ :=
    head_emitted _ (Nat.le_refl 100) .background 30 [] rfl hpositive _ hops
      (by decide)
  exact ⟨before, after, hsplit, Nat.lt_of_lt_of_eq hcount (by decide), hemits⟩

end Sched

end Bridgething
