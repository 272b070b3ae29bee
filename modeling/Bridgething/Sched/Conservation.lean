/-
Nothing is lost or reordered inside a lane, and the byte counters are exact:
what a lane was given is what it emitted and what it still queues.
-/
import Bridgething.Sched.Lanes

namespace Bridgething

namespace Sched

open Wire (Priority)

open LaneItem (len)

variable {T : Type} [LaneItem T]

/-- The items of one lane among items that carry theirs. -/
def onLane (priority : Priority) (tagged : List (Priority × T)) : List T :=
  (tagged.filter fun entry => entry.1 = priority).map Prod.snd

omit [LaneItem T] in
@[simp] theorem onLane_nil (priority : Priority) :
    onLane priority ([] : List (Priority × T)) = [] := rfl

omit [LaneItem T] in
@[simp] theorem onLane_append (priority : Priority)
    (left right : List (Priority × T)) :
    onLane priority (left ++ right) =
      onLane priority left ++ onLane priority right := by
  simp [onLane]

omit [LaneItem T] in
theorem onLane_cons_self (priority : Priority) (item : T)
    (rest : List (Priority × T)) :
    onLane priority ((priority, item) :: rest) =
      item :: onLane priority rest := by
  simp [onLane]

omit [LaneItem T] in
theorem onLane_cons_of_ne {priority other : Priority} (h : other ≠ priority)
    (item : T) (rest : List (Priority × T)) :
    onLane priority ((other, item) :: rest) = onLane priority rest := by
  simp [onLane, h]

omit [LaneItem T] in
theorem onLane_map_self (priority : Priority) (items : List T) :
    onLane priority (items.map (Prod.mk priority)) = items := by
  induction items with
  | nil => rfl
  | cons item rest ih => rw [List.map_cons, onLane_cons_self, ih]

omit [LaneItem T] in
theorem onLane_map_of_ne {priority other : Priority} (h : other ≠ priority)
    (items : List T) : onLane priority (items.map (Prod.mk other)) = [] := by
  induction items with
  | nil => rfl
  | cons item rest ih => rw [List.map_cons, onLane_cons_of_ne h, ih]

def totalLen (items : List T) : Nat := (items.map len).sum

@[simp] theorem totalLen_nil : totalLen ([] : List T) = 0 := rfl

@[simp] theorem totalLen_cons (item : T) (rest : List T) :
    totalLen (item :: rest) = len item + totalLen rest := by
  simp [totalLen]

@[simp] theorem totalLen_append (left right : List T) :
    totalLen (left ++ right) = totalLen left + totalLen right := by
  simp [totalLen]

/-- The byte counter is the sum of the queued lengths. -/
def Lane.Counted (lane : Lane T) : Prop := lane.bytes = totalLen lane.queue

theorem Lane.Counted.push {lane : Lane T} (h : lane.Counted) (item : T) :
    (lane.push item).Counted := by
  simp only [Lane.Counted] at h
  simp [Lane.Counted, Lane.push, h]

/-- What `fill` does: it moves a stretch off the front, each item of which
still fitted, and stops at a head that does not. -/
structure Filled (lane : Lane T) (batch : Batch T) (ceiling : Nat)
    (taken : List T) (result : Lane T × Batch T) : Prop where
  queue : lane.queue = taken ++ result.1.queue
  credit : result.1.credit = lane.credit
  counter : result.1.bytes = lane.bytes - totalLen taken
  items : result.2.items = batch.items ++ taken
  bytes : result.2.bytes = batch.bytes + totalLen taken
  under : taken = [] ∨ result.2.bytes ≤ ceiling
  full : ∀ head, result.1.queue.head? = some head →
    ceiling < result.2.bytes + len head

theorem fillLoop_filled (ceiling credit : Nat) (queue : List T) (bytes : Nat)
    (batch : Batch T) :
    ∃ taken, Filled ⟨queue, bytes, credit⟩ batch ceiling taken
      (Lane.fillLoop ceiling credit queue bytes batch) := by
  induction queue generalizing bytes batch with
  | nil => exact ⟨[], by constructor <;> simp [Lane.fillLoop]⟩
  | cons item rest ih =>
      by_cases hfull : ceiling < batch.bytes + len item
      · refine ⟨[], ?_⟩
        simp only [Lane.fillLoop, hfull, ↓reduceIte]
        constructor <;> simp [hfull]
      · obtain ⟨taken, hfilled⟩ := ih (bytes - len item)
          ⟨batch.items ++ [item], batch.bytes + len item⟩
        refine ⟨item :: taken, ?_⟩
        simp only [Lane.fillLoop, hfull, ↓reduceIte]
        refine ⟨?_, hfilled.credit, ?_, ?_, ?_, Or.inr ?_, hfilled.full⟩
        · rw [List.cons_append, ← hfilled.queue]
        · rw [hfilled.counter, totalLen_cons, Nat.sub_sub]
        · rw [hfilled.items, List.append_assoc, List.singleton_append]
        · rw [hfilled.bytes, totalLen_cons, Nat.add_assoc]
        · rcases hfilled.under with hnone | hunder
          · have hbytes := hfilled.bytes
            rw [hnone, totalLen_nil] at hbytes
            rw [hbytes]
            exact Nat.le_of_not_lt hfull
          · exact hunder

theorem Lane.fill_filled (lane : Lane T) (batch : Batch T) (ceiling : Nat) :
    ∃ taken, Filled lane batch ceiling taken (lane.fill batch ceiling) :=
  fillLoop_filled ceiling lane.credit lane.queue lane.bytes batch

/-- Items move from the fronts of the lanes into the batch; `tagged` says
which, and from where. -/
structure Moves (max : Nat) (before after : Lanes T × Batch T)
    (tagged : List (Priority × T)) : Prop where
  queue : ∀ priority, (before.1 priority).queue =
    onLane priority tagged ++ (after.1 priority).queue
  credit : ∀ priority,
    (after.1 priority).credit = (before.1 priority).credit
  counted : ∀ priority, (before.1 priority).Counted →
    (after.1 priority).Counted
  items : after.2.items = before.2.items ++ tagged.map Prod.snd
  bytes : after.2.bytes = before.2.bytes + totalLen (tagged.map Prod.snd)
  under : tagged = [] ∨ after.2.bytes ≤ max

theorem Moves.refl (max : Nat) (filling : Lanes T × Batch T) :
    Moves max filling filling [] := by
  constructor <;> simp

theorem Moves.trans {max : Nat} {first second third : Lanes T × Batch T}
    {left right : List (Priority × T)} (hleft : Moves max first second left)
    (hright : Moves max second third right) :
    Moves max first third (left ++ right) where
  queue priority := by
    rw [hleft.queue, hright.queue, onLane_append, List.append_assoc]
  credit priority := by rw [hright.credit, hleft.credit]
  counted priority h := hright.counted priority (hleft.counted priority h)
  items := by
    rw [hright.items, hleft.items, List.map_append, List.append_assoc]
  bytes := by
    rw [hright.bytes, hleft.bytes, List.map_append, totalLen_append,
      Nat.add_assoc]
  under := by
    rcases hright.under with rfl | hunder
    · rcases hleft.under with rfl | hunder
      · exact Or.inl rfl
      · apply Or.inr
        rw [hright.bytes, List.map_nil, totalLen_nil, Nat.add_zero]
        exact hunder
    · exact Or.inr hunder

theorem fillLane_moves {max ceiling : Nat} (hceiling : ceiling ≤ max)
    (priority : Priority) (filling : Lanes T × Batch T) :
    ∃ tagged, Moves max filling (fillLane priority ceiling filling) tagged := by
  obtain ⟨taken, hfilled⟩ :=
    (filling.1 priority).fill_filled filling.2 ceiling
  refine ⟨taken.map (Prod.mk priority), ?_⟩
  have hitems : (taken.map (Prod.mk priority)).map Prod.snd = taken := by
    simp [Function.comp_def]
  constructor
  · intro other
    by_cases hsame : other = priority
    · subst hsame
      rw [onLane_map_self]
      simpa [fillLane] using hfilled.queue
    · rw [onLane_map_of_ne (Ne.symm hsame)]
      simp [fillLane, hsame]
  · intro other
    by_cases hsame : other = priority
    · subst hsame
      simpa [fillLane] using hfilled.credit
    · simp [fillLane, hsame]
  · intro other hcounted
    by_cases hsame : other = priority
    · subst hsame
      have hbytes := hfilled.counter
      simp only [Lane.Counted] at hcounted
      rw [hcounted, hfilled.queue, totalLen_append,
        Nat.add_sub_cancel_left] at hbytes
      simpa [Lane.Counted, fillLane] using hbytes
    · simpa [fillLane, hsame] using hcounted
  · rw [hitems]
    exact hfilled.items
  · rw [hitems]
    exact hfilled.bytes
  · rcases hfilled.under with hnone | hunder
    · exact Or.inl (by rw [hnone, List.map_nil])
    · exact Or.inr (Nat.le_trans hunder hceiling)

/-- A pass over the lanes moves items, whatever ceiling it gives each. -/
theorem foldl_fillLane_moves {max : Nat}
    (ceiling : Lanes T × Batch T → Priority → Nat)
    (hceiling : ∀ filling priority, ceiling filling priority ≤ max)
    (priorities : List Priority) (filling : Lanes T × Batch T) :
    ∃ tagged, Moves max filling
      (priorities.foldl (fun filling priority =>
        fillLane priority (ceiling filling priority) filling) filling)
      tagged := by
  induction priorities generalizing filling with
  | nil => exact ⟨[], Moves.refl max filling⟩
  | cons priority rest ih =>
      obtain ⟨first, hfirst⟩ :=
        fillLane_moves (hceiling filling priority) priority filling
      obtain ⟨others, hothers⟩ :=
        ih (fillLane priority (ceiling filling priority) filling)
      exact ⟨first ++ others, hfirst.trans hothers⟩

theorem fillShares_moves (max : Nat) (filling : Lanes T × Batch T) :
    ∃ tagged, Moves max filling (fillShares max filling) tagged :=
  foldl_fillLane_moves
    (fun filling priority => min
      (saturatingAdd filling.2.bytes (allowance max (LANE_RESERVE priority)))
      max)
    (fun _ _ => Nat.min_le_right _ _) LANES filling

theorem fillRest_moves (max : Nat) (filling : Lanes T × Batch T) :
    ∃ tagged, Moves max filling (fillRest max filling) tagged :=
  foldl_fillLane_moves (fun _ _ => max) (fun _ _ => Nat.le_refl max) LANES
    filling

theorem Lane.pop_eq_some {lane next : Lane T} {item : T}
    (h : lane.pop = some (item, next)) :
    lane.queue = item :: next.queue ∧ next.credit = lane.credit ∧
      (lane.Counted → next.Counted) := by
  unfold Lane.pop at h
  cases hqueue : lane.queue with
  | nil => simp [hqueue] at h
  | cons head rest =>
      simp only [hqueue, Option.some.injEq, Prod.mk.injEq] at h
      obtain ⟨rfl, rfl⟩ := h
      refine ⟨rfl, rfl, fun hcounted => ?_⟩
      simp only [Lane.Counted, hqueue, totalLen_cons] at hcounted
      simp [Lane.Counted, hcounted]

theorem Lane.pop_eq_none {lane : Lane T} :
    lane.pop = none ↔ lane.queue = [] := by
  unfold Lane.pop
  cases hqueue : lane.queue <;> simp

/-- The seed is the head of one of the lanes looked at, and nothing else has
moved. -/
theorem popFirst_eq_some {lanes next : Lanes T} {seed : T}
    {priorities : List Priority}
    (h : popFirst lanes priorities = some (seed, next)) :
    ∃ priority ∈ priorities,
      (lanes priority).queue = seed :: (next priority).queue ∧
      (∀ other ≠ priority, next other = lanes other) ∧
      (next priority).credit = (lanes priority).credit ∧
      ((lanes priority).Counted → (next priority).Counted) := by
  induction priorities with
  | nil => simp [popFirst] at h
  | cons priority rest ih =>
      cases hpop : (lanes priority).pop with
      | none =>
          simp only [popFirst, hpop] at h
          obtain ⟨found, hmem, hfound⟩ := ih h
          exact ⟨found, List.mem_cons_of_mem _ hmem, hfound⟩
      | some popped =>
          obtain ⟨item, lane⟩ := popped
          simp only [popFirst, hpop, Option.some.injEq, Prod.mk.injEq] at h
          obtain ⟨rfl, rfl⟩ := h
          obtain ⟨hqueue, hcredit, hcounted⟩ := Lane.pop_eq_some hpop
          refine ⟨priority, List.mem_cons_self, ?_, ?_, ?_, ?_⟩
          · simpa using hqueue
          · intro other hother
            simp [hother]
          · simpa using hcredit
          · simpa using hcounted

theorem popFirst_eq_none {lanes : Lanes T} {priorities : List Priority} :
    popFirst lanes priorities = none ↔
      ∀ priority ∈ priorities, (lanes priority).queue = [] := by
  induction priorities with
  | nil => simp [popFirst]
  | cons priority rest ih =>
      cases hpop : (lanes priority).pop with
      | none =>
          have hempty := Lane.pop_eq_none.mp hpop
          simp only [popFirst, hpop, ih, List.forall_mem_cons, hempty,
            true_and]
      | some popped =>
          have hsome : (lanes priority).queue ≠ [] := by
            intro hempty
            rw [Lane.pop_eq_none.mpr hempty] at hpop
            exact absurd hpop (by simp)
          simp [popFirst, hpop, hsome]

/-- What `next_batch` does: a seed and perhaps more, all of them off the fronts
of their lanes, and the credits settled. -/
structure Served (sched next : LaneScheduler T) (batch : Batch T)
    (origin : Priority) (seed : T) (others : List (Priority × T)) :
    Prop where
  queue : ∀ priority, (sched.lanes priority).queue =
    onLane priority ((origin, seed) :: others) ++ (next.lanes priority).queue
  items : batch.items = seed :: others.map Prod.snd
  bytes : batch.bytes = totalLen batch.items
  under : others = [] ∨ batch.bytes ≤ sched.maxBatchBytes
  counted : ∀ priority, (sched.lanes priority).Counted →
    (next.lanes priority).Counted
  cap : next.maxBatchBytes = sched.maxBatchBytes
  credit : ∀ priority, (next.lanes priority).credit =
    if (next.lanes priority).queue.length <
        (sched.lanes priority).queue.length ∨
        (next.lanes priority).queue = [] then 0
    else saturatingAdd (sched.lanes priority).credit
      (allowance sched.maxBatchBytes (LANE_RESERVE priority))
  owed : ∀ priority, sched.owed = some priority → origin = priority

theorem Lane.Owes.queue_ne_nil {lane : Lane T} (h : lane.Owes) :
    lane.queue ≠ [] := by
  obtain ⟨length, hlength, _⟩ := h
  intro hempty
  simp [Lane.headLen, hempty] at hlength

theorem LaneScheduler.owed_owes {sched : LaneScheduler T}
    {priority : Priority} (h : sched.owed = some priority) :
    (sched.lanes priority).Owes := by
  simpa using List.find?_some h

theorem drop_laneIndex (priority : Priority) :
    ∃ rest, LANES.drop (laneIndex priority) = priority :: rest := by
  cases priority
  · exact ⟨[.bulk, .background], rfl⟩
  · exact ⟨[.background], rfl⟩
  · exact ⟨[], rfl⟩

/-- The lane that is owed has an item, so it is the one the seed comes from. -/
theorem popFirst_owed {sched : LaneScheduler T} {priority : Priority}
    (h : sched.owed = some priority) :
    ∃ seed lane, (sched.lanes priority).pop = some (seed, lane) ∧
      popFirst sched.lanes (LANES.drop (laneIndex priority)) =
        some (seed, Function.update sched.lanes priority lane) := by
  obtain ⟨rest, hrest⟩ := drop_laneIndex priority
  cases hpop : (sched.lanes priority).pop with
  | none =>
      have hsome := (sched.owed_owes h).queue_ne_nil
      exact absurd (Lane.pop_eq_none.mp hpop) hsome
  | some popped =>
      refine ⟨popped.1, popped.2, rfl, ?_⟩
      rw [hrest, popFirst, hpop]

theorem LaneScheduler.nextBatch_served {sched next : LaneScheduler T}
    {batch : Batch T} (h : sched.nextBatch = some (batch, next)) :
    ∃ origin seed others, Served sched next batch origin seed others := by
  simp only [LaneScheduler.nextBatch] at h
  cases hpop : popFirst sched.lanes
      (LANES.drop (laneIndex (sched.owed.getD .normal))) with
  | none => simp [hpop] at h
  | some popped =>
      obtain ⟨seed, lanes⟩ := popped
      simp only [hpop, Option.some.injEq, Prod.mk.injEq] at h
      obtain ⟨rfl, rfl⟩ := h
      obtain ⟨origin, _, hseed, hsame, hcredit, hcounted⟩ :=
        popFirst_eq_some hpop
      obtain ⟨shares, hshares⟩ := fillShares_moves sched.maxBatchBytes
        (lanes, ⟨[seed], len seed⟩)
      obtain ⟨rest, hrest⟩ := fillRest_moves sched.maxBatchBytes
        (fillShares sched.maxBatchBytes (lanes, ⟨[seed], len seed⟩))
      have hmoves := hshares.trans hrest
      refine ⟨origin, seed, shares ++ rest, ?_, ?_, ?_, ?_, ?_, rfl, ?_, ?_⟩
      · intro priority
        have hqueue : (lanes priority).queue = _ := hmoves.queue priority
        by_cases horigin : priority = origin
        · subst horigin
          rw [hseed, hqueue, onLane_cons_self, List.cons_append]
          rfl
        · rw [hsame priority horigin] at hqueue
          rw [hqueue, onLane_cons_of_ne (Ne.symm horigin)]
          rfl
      · simpa using hmoves.items
      · rw [hmoves.items, hmoves.bytes]
        simp
      · exact hmoves.under
      · intro priority h
        have hlane : (lanes priority).Counted := by
          by_cases horigin : priority = origin
          · subst horigin
            exact hcounted h
          · rwa [hsame priority horigin]
        exact hmoves.counted priority hlane
      · intro priority
        have hbefore : (lanes priority).credit =
            (sched.lanes priority).credit := by
          by_cases horigin : priority = origin
          · subst horigin
            exact hcredit
          · rw [hsame priority horigin]
        simp only [settle, hmoves.credit priority, hbefore,
          decide_eq_true_eq]
      · intro priority howed
        obtain ⟨item, lane, hitem, hpopped⟩ := popFirst_owed howed
        rw [howed, Option.getD_some, hpopped, Option.some.injEq,
          Prod.mk.injEq] at hpop
        by_contra horigin
        have hlength := congrArg List.length hseed
        rw [← hpop.2, Function.update_of_ne horigin] at hlength
        simp at hlength

/-- No batch exactly when there is nothing to send. -/
theorem LaneScheduler.nextBatch_eq_none (sched : LaneScheduler T) :
    sched.nextBatch = none ↔
      ∀ priority, (sched.lanes priority).queue = [] := by
  have hall : (∀ priority, (sched.lanes priority).queue = []) ↔
      ∀ priority ∈ LANES, (sched.lanes priority).queue = [] := by
    refine ⟨fun h priority _ => h priority, fun h priority => h priority ?_⟩
    cases priority <;> simp [LANES]
  cases howed : sched.owed with
  | none =>
      simp only [LaneScheduler.nextBatch, howed, Option.getD_none, laneIndex,
        List.drop_zero, hall, ← popFirst_eq_none]
      cases popFirst sched.lanes LANES <;> simp
  | some priority =>
      obtain ⟨item, lane, _, hpopped⟩ := popFirst_owed howed
      have hsome := (sched.owed_owes howed).queue_ne_nil
      simp only [LaneScheduler.nextBatch, howed, Option.getD_some, hpopped,
        reduceCtorEq, false_iff, not_forall]
      exact ⟨priority, hsome⟩

/-- What happens to a scheduler. -/
inductive Op (T : Type)
  | push (priority : Priority) (item : T)
  | nextBatch
deriving Repr, DecidableEq

/-- A scheduler and the batches it has answered. -/
structure Progress (T : Type) where
  sched : LaneScheduler T
  batches : List (Batch T)

def Progress.apply (progress : Progress T) : Op T → Progress T
  | .push priority item =>
      { progress with sched := progress.sched.push priority item }
  | .nextBatch =>
      match progress.sched.nextBatch with
      | none => progress
      | some (batch, sched) => ⟨sched, progress.batches ++ [batch]⟩

/-- What an operation adds to a lane. -/
def Op.pushed (priority : Priority) : Op T → List T
  | .push other item => if other = priority then [item] else []
  | .nextBatch => []

/-- The invariant of a run: `sent` is what each lane was given. -/
structure Conserved (max : Nat) (sent : Priority → List T)
    (progress : Progress T) : Prop where
  cap : progress.sched.maxBatchBytes = max
  lanes : ∃ tagged : List (List (Priority × T)),
    tagged.map (List.map Prod.snd) = progress.batches.map Batch.items ∧
    ∀ priority, sent priority = onLane priority tagged.flatten ++
      (progress.sched.lanes priority).queue
  counted : ∀ priority, (progress.sched.lanes priority).Counted
  batches : ∀ batch ∈ progress.batches,
    batch.bytes = totalLen batch.items ∧
      (batch.bytes ≤ max ∨ ∃ item, batch.items = [item] ∧ max < len item)

theorem Conserved.push {max : Nat} {sent : Priority → List T}
    {progress : Progress T} (h : Conserved max sent progress)
    (priority : Priority) (item : T) :
    Conserved max
      (fun other => sent other ++ Op.pushed other (.push priority item))
      (progress.apply (.push priority item)) where
  cap := h.cap
  lanes := by
    obtain ⟨tagged, hitems, hqueue⟩ := h.lanes
    refine ⟨tagged, hitems, fun other => ?_⟩
    rw [hqueue other, List.append_assoc]
    by_cases hsame : other = priority
    · subst hsame
      simp [Progress.apply, LaneScheduler.push, Lane.push, Op.pushed]
    · simp [Progress.apply, LaneScheduler.push, Op.pushed, hsame,
        Ne.symm hsame]
  counted other := by
    by_cases hsame : other = priority
    · subst hsame
      simpa [Progress.apply, LaneScheduler.push] using
        (h.counted other).push item
    · simpa [Progress.apply, LaneScheduler.push, hsame] using h.counted other
  batches := h.batches

/-- One batch satisfies the bounds. -/
theorem Served.bounded {sched next : LaneScheduler T} {batch : Batch T}
    {origin : Priority} {seed : T} {others : List (Priority × T)}
    (h : Served sched next batch origin seed others) :
    batch.bytes ≤ sched.maxBatchBytes ∨
      ∃ item, batch.items = [item] ∧ sched.maxBatchBytes < len item := by
  rcases h.under with hnone | hunder
  · by_cases hlarge : sched.maxBatchBytes < len seed
    · exact Or.inr ⟨seed, by rw [h.items, hnone, List.map_nil], hlarge⟩
    · apply Or.inl
      rw [h.bytes, h.items, hnone]
      simpa using Nat.le_of_not_lt hlarge
  · exact Or.inl hunder

theorem Conserved.nextBatch {max : Nat} {sent : Priority → List T}
    {progress : Progress T} (h : Conserved max sent progress) :
    Conserved max (fun other => sent other ++ Op.pushed other .nextBatch)
      (progress.apply .nextBatch) := by
  simp only [Op.pushed, List.append_nil, Progress.apply]
  cases hbatch : progress.sched.nextBatch with
  | none => exact h
  | some answer =>
      obtain ⟨batch, sched⟩ := answer
      obtain ⟨origin, seed, others, hserved⟩ :=
        LaneScheduler.nextBatch_served hbatch
      obtain ⟨tagged, hitems, hqueue⟩ := h.lanes
      refine ⟨?_, ⟨tagged ++ [(origin, seed) :: others], ?_, ?_⟩, ?_, ?_⟩
      · rw [hserved.cap, h.cap]
      · simp [hitems, hserved.items]
      · intro priority
        rw [hqueue priority, hserved.queue priority, List.flatten_append,
          onLane_append, List.flatten_singleton, List.append_assoc]
      · exact fun priority => hserved.counted priority (h.counted priority)
      · intro other hother
        rcases List.mem_append.mp hother with hold | hnew
        · exact h.batches other hold
        · rw [List.mem_singleton] at hnew
          subst hnew
          exact ⟨hserved.bytes, h.cap ▸ hserved.bounded⟩

theorem Conserved.apply {max : Nat} {sent : Priority → List T}
    {progress : Progress T} (h : Conserved max sent progress) (op : Op T) :
    Conserved max (fun other => sent other ++ op.pushed other)
      (progress.apply op) := by
  cases op with
  | push priority item => exact h.push priority item
  | nextBatch => exact h.nextBatch

theorem Conserved.run {max : Nat} {sent : Priority → List T}
    {progress : Progress T} (h : Conserved max sent progress)
    (ops : List (Op T)) :
    Conserved max (fun other => sent other ++ ops.flatMap (Op.pushed other))
      (ops.foldl Progress.apply progress) := by
  induction ops generalizing sent progress with
  | nil => simpa using h
  | cons op rest ih =>
      have hrest := ih (h.apply op)
      simpa [List.append_assoc] using hrest

/-- A fresh scheduler after some operations. -/
def run (max : Nat) (positive : 0 < max) (fits : max ≤ USIZE_MAX)
    (ops : List (Op T)) : Progress T :=
  ops.foldl Progress.apply ⟨LaneScheduler.new max positive fits, []⟩

/-- A bare length is an item. -/
instance : LaneItem UInt64 where
  len := UInt64.toNat
  len_le item := Nat.le_pred_of_lt item.toNat_lt

end Sched

end Bridgething
