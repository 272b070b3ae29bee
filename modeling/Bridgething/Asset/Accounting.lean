/-
The running totals of the asset cache: exact as long as no row fails to be
written once its blob is in place, and never again exact after one does.
-/
import Bridgething.Asset.Cache
import Bridgething.Lib.Transition

namespace Bridgething

namespace Asset

def Entry.memoryLen (entry : Entry) : Nat :=
  if entry.tier = .memory then entry.byteLen else 0

def Entry.diskLen (entry : Entry) : Nat :=
  if entry.tier = .disk then entry.byteLen else 0

theorem minByKey_eq_none {κ : Type} {before : κ → κ → Bool} {key : Entry → κ}
    {entries : List (String × Entry)} :
    minByKey before key entries = none ↔ entries = [] := by
  cases entries with
  | nil => simp [minByKey]
  | cons entry rest =>
      simp only [minByKey, reduceCtorEq, iff_false]
      cases minByKey before key rest with
      | none => simp
      | some best =>
          simp only
          split <;> simp

theorem mem_of_minByKey {κ : Type} {before : κ → κ → Bool} {key : Entry → κ}
    {entries : List (String × Entry)} {found : String × Entry}
    (h : minByKey before key entries = some found) : found ∈ entries := by
  induction entries generalizing found with
  | nil => simp [minByKey] at h
  | cons entry rest ih =>
      simp only [minByKey] at h
      cases hbest : minByKey before key rest with
      | none =>
          rw [hbest] at h
          exact Option.some.inj h ▸ List.mem_cons_self
      | some best =>
          rw [hbest] at h
          simp only at h
          split at h
          · exact List.mem_cons_of_mem _ (ih (hbest.trans h))
          · exact Option.some.inj h ▸ List.mem_cons_self

namespace AssetActor

/-- The running totals are those of the entries. -/
structure Accounted (actor : AssetActor) : Prop where
  memory : actor.memoryByteTotal = Table.total Entry.memoryLen actor.entries
  disk : actor.diskByteTotal = Table.total Entry.diskLen actor.entries

structure Balanced (actor : AssetActor) : Prop where
  keys : actor.entries.keys.Nodup
  accounted : actor.Accounted

/-- What is left of the cache after some of its entries are evicted. -/
structure Shrunk (actor next : AssetActor) : Prop where
  entries : ∃ keep, next.entries = actor.entries.filter keep
  balanced : actor.Balanced → next.Balanced

theorem Shrunk.refl (actor : AssetActor) : actor.Shrunk actor :=
  ⟨⟨fun _ => true, by simp⟩, fun h => h⟩

theorem Shrunk.trans {actor mid next : AssetActor} (hfirst : actor.Shrunk mid)
    (hrest : mid.Shrunk next) : actor.Shrunk next := by
  obtain ⟨keep, hkeep⟩ := hfirst.entries
  obtain ⟨more, hmore⟩ := hrest.entries
  refine ⟨⟨fun entry => more entry && keep entry, ?_⟩,
    fun h => hrest.balanced (hfirst.balanced h)⟩
  rw [hmore, hkeep, List.filter_filter]

theorem Shrunk.diskByteTotal_le {actor next : AssetActor}
    (h : actor.Shrunk next) (hbalanced : actor.Balanced) :
    next.diskByteTotal ≤ actor.diskByteTotal := by
  obtain ⟨keep, hkeep⟩ := h.entries
  rw [(h.balanced hbalanced).accounted.disk, hbalanced.accounted.disk, hkeep]
  exact Table.total_filter_le _ _ _

theorem Shrunk.memoryByteTotal_le {actor next : AssetActor}
    (h : actor.Shrunk next) (hbalanced : actor.Balanced) :
    next.memoryByteTotal ≤ actor.memoryByteTotal := by
  obtain ⟨keep, hkeep⟩ := h.entries
  rw [(h.balanced hbalanced).accounted.memory, hbalanced.accounted.memory,
    hkeep]
  exact Table.total_filter_le _ _ _

theorem entries_evictEntry (actor : AssetActor) (id : String) :
    (actor.evictEntry id).entries = actor.entries.remove id := by
  unfold evictEntry
  cases hget : actor.entries.get? id with
  | none =>
      exact (Table.remove_of_not_mem (Table.get?_eq_none.mp hget)).symm
  | some entry =>
      simp only
      cases entry.storage <;> rfl

theorem evictEntry_shrunk (actor : AssetActor) (id : String) :
    actor.Shrunk (actor.evictEntry id) := by
  refine ⟨⟨_, actor.entries_evictEntry id⟩, fun h => ⟨?_, ?_⟩⟩
  · rw [entries_evictEntry]
    exact Table.nodup_keys_remove h.keys id
  · have hmemory := h.accounted.memory
    have hdisk := h.accounted.disk
    cases hget : actor.entries.get? id with
    | none => simpa [evictEntry, hget] using h.accounted
    | some entry =>
        have hmemoryLen := Table.total_remove Entry.memoryLen h.keys hget
        have hdiskLen := Table.total_remove Entry.diskLen h.keys hget
        cases hstorage : entry.storage with
        | memory bytes =>
            simp only [Entry.memoryLen, Entry.diskLen, Entry.tier, hstorage,
              reduceCtorEq, ↓reduceIte] at hmemoryLen hdiskLen
            constructor
            · simp only [evictEntry, hget, hstorage]
              omega
            · simp only [evictEntry, hget, hstorage]
              omega
        | disk path =>
            simp only [Entry.memoryLen, Entry.diskLen, Entry.tier, hstorage,
              reduceCtorEq, ↓reduceIte] at hmemoryLen hdiskLen
            constructor
            · simp only [evictEntry, hget, hstorage]
              omega
            · simp only [evictEntry, hget, hstorage]
              omega

theorem emit_shrunk (actor : AssetActor) (event : AssetCacheEvent) :
    actor.Shrunk (actor.emit event) :=
  ⟨⟨fun _ => true, by simp [emit]⟩, fun h =>
    ⟨h.keys, h.accounted.memory, h.accounted.disk⟩⟩

theorem evictVictim_shrunk (actor : AssetActor) (victim : String) :
    actor.Shrunk (actor.evictVictim victim) :=
  (actor.evictEntry_shrunk victim).trans (emit_shrunk _ _)

theorem mem_walk {env : Env} {actor : AssetActor} {entry : String × Entry} :
    entry ∈ actor.walk env ↔ entry ∈ actor.entries :=
  List.mem_mergeSort

/-- A victim is one of the entries in memory, and there is one as long as there
are such entries. -/
theorem mem_of_pickMemoryVictim {env : Env} {actor : AssetActor}
    {victim : String} (h : actor.pickMemoryVictim env = some victim) :
    ∃ entry, (victim, entry) ∈ actor.entries ∧ entry.tier = .memory := by
  have hheld : ∀ {keep : String × Entry → Bool} {found : String × Entry},
      found ∈ ((actor.walk env).filter inMemory).filter keep →
      (found.1, found.2) ∈ actor.entries ∧ found.2.tier = .memory := by
    intro keep found hfound
    obtain ⟨hwalk, hmemory⟩ := List.mem_filter.mp (List.mem_filter.mp hfound).1
    exact ⟨mem_walk.mp hwalk, by simpa [inMemory] using hmemory⟩
  simp only [pickMemoryVictim, Option.map_eq_some_iff, Option.or_eq_some_iff]
    at h
  obtain ⟨found, hfound | ⟨-, hfound | ⟨-, hfound⟩⟩, rfl⟩ := h
  · exact ⟨found.2, hheld (mem_of_minByKey hfound)⟩
  · exact ⟨found.2, hheld (mem_of_minByKey hfound)⟩
  · exact ⟨found.2, hheld (mem_of_minByKey hfound)⟩

theorem memoryLen_of_no_victim {env : Env} {actor : AssetActor}
    (h : actor.pickMemoryVictim env = none) {entry : String × Entry}
    (hentry : entry ∈ actor.entries) : entry.2.memoryLen = 0 := by
  simp only [pickMemoryVictim, Option.map_eq_none_iff, Option.or_eq_none_iff,
    minByKey_eq_none, List.filter_eq_nil_iff, List.mem_filter] at h
  by_cases hmemory : entry.2.tier = .memory
  · have hheld : entry ∈ actor.walk env ∧ inMemory entry = true :=
      ⟨mem_walk.mpr hentry, by simp [inMemory, hmemory]⟩
    have hlru := h.1 entry hheld
    have httl := h.2.1 entry hheld
    have hpinned := h.2.2 entry hheld
    cases hlifetime : entry.2.retention.lifetime <;>
      simp [Retention.isTtl, Retention.isPinned, hlifetime]
        at hlru httl hpinned
  · simp [Entry.memoryLen, hmemory]

theorem total_eq_zero {f : Entry → Nat} {entries : Table String Entry}
    (h : ∀ entry ∈ entries, f entry.2 = 0) : Table.total f entries = 0 := by
  apply List.sum_eq_zero
  intro size hsize
  obtain ⟨value, hvalue, rfl⟩ := List.mem_map.mp hsize
  obtain ⟨entry, hentry, rfl⟩ := List.mem_map.mp hvalue
  exact h entry hentry

theorem length_evictVictim {actor : AssetActor} {victim : String}
    {entry : Entry} (h : (victim, entry) ∈ actor.entries) :
    (actor.evictVictim victim).entries.length < actor.entries.length := by
  have heq : (actor.evictVictim victim).entries =
      actor.entries.remove victim := actor.entries_evictEntry victim
  rw [heq]
  apply List.length_filter_lt_length_iff_exists.mpr
  exact ⟨_, h, by simp⟩

theorem evictUnderMemoryBudget_shrunk (env : Env) (fuel : Nat)
    (actor : AssetActor) :
    actor.Shrunk (actor.evictUnderMemoryBudget env fuel) := by
  induction fuel generalizing actor with
  | zero => exact Shrunk.refl actor
  | succ fuel ih =>
      unfold evictUnderMemoryBudget
      split
      · split
        · exact Shrunk.refl actor
        · exact (actor.evictVictim_shrunk _).trans (ih _)
      · exact Shrunk.refl actor

/-- The loop has turns enough to come under the budget. -/
theorem evictUnderMemoryBudget_le (env : Env) {fuel : Nat} {actor : AssetActor}
    (hbalanced : actor.Balanced) (hfuel : actor.entries.length ≤ fuel) :
    (actor.evictUnderMemoryBudget env fuel).memoryByteTotal ≤
      MEMORY_BUDGET_BYTES := by
  induction fuel generalizing actor with
  | zero =>
      have hnone : actor.entries = [] :=
        List.eq_nil_of_length_eq_zero (Nat.le_zero.mp hfuel)
      simp [evictUnderMemoryBudget, hbalanced.accounted.memory, hnone]
  | succ fuel ih =>
      unfold evictUnderMemoryBudget
      by_cases hover : actor.memoryByteTotal > MEMORY_BUDGET_BYTES
      · rw [if_pos hover]
        cases hpick : actor.pickMemoryVictim env with
        | none =>
            have hzero := total_eq_zero fun _ => memoryLen_of_no_victim hpick
            have hmemory := hbalanced.accounted.memory
            simp only
            omega
        | some victim =>
            obtain ⟨entry, hentry, -⟩ := mem_of_pickMemoryVictim hpick
            have hless := length_evictVictim hentry
            exact ih ((actor.evictVictim_shrunk victim).balanced hbalanced)
              (by omega)
      · rw [if_neg hover]
        exact Nat.not_lt.mp hover

theorem evictUntilUnderMemoryBudget_shrunk (env : Env) (actor : AssetActor) :
    actor.Shrunk (actor.evictUntilUnderMemoryBudget env) :=
  evictUnderMemoryBudget_shrunk env _ actor

theorem mem_of_pickDiskVictim {env : Env} {actor : AssetActor} {pinned : Bool}
    {victim : String} (h : actor.pickDiskVictim env pinned = some victim) :
    ∃ entry, (victim, entry) ∈ actor.entries := by
  obtain ⟨found, hfound, rfl⟩ := Option.map_eq_some_iff.mp h
  have hheld := (List.mem_filter.mp (mem_of_minByKey hfound)).1
  exact ⟨found.2, mem_walk.mp hheld⟩

/-- Nothing on disk may be evicted any more, pinned entries apart. -/
theorem pinned_of_no_victim {env : Env} {actor : AssetActor}
    (h : actor.pickDiskEvictableVictim env = none) {entry : String × Entry}
    (hentry : entry ∈ actor.entries) (hdisk : entry.2.tier = .disk) :
    entry.2.retention.isPinned := by
  have hnil := minByKey_eq_none.mp (Option.map_eq_none_iff.mp h)
  have hnot := List.filter_eq_nil_iff.mp hnil entry (mem_walk.mpr hentry)
  simpa [onDisk, hdisk] using hnot

theorem evictWhileOverLimit_shrunk (env : Env) (minFree fuel : Nat)
    (actor : AssetActor) (free : Nat) :
    actor.Shrunk (actor.evictWhileOverLimit env minFree fuel free).1 := by
  induction fuel generalizing actor free with
  | zero => exact Shrunk.refl actor
  | succ fuel ih =>
      unfold evictWhileOverLimit
      split
      · split
        · exact Shrunk.refl actor
        · exact (actor.evictVictim_shrunk _).trans (ih _ _)
      · exact Shrunk.refl actor

theorem evictPinnedUntilFree_shrunk (env : Env) (minFree fuel : Nat)
    (actor : AssetActor) (free : Nat) :
    actor.Shrunk (actor.evictPinnedUntilFree env minFree fuel free) := by
  induction fuel generalizing actor free with
  | zero => exact Shrunk.refl actor
  | succ fuel ih =>
      unfold evictPinnedUntilFree
      split
      · split
        · exact Shrunk.refl actor
        · exact (actor.evictVictim_shrunk _).trans (ih _ _)
      · exact Shrunk.refl actor

theorem enforceDiskLimits_shrunk (env : Env) (actor : AssetActor)
    (minFree : Nat) : actor.Shrunk (actor.enforceDiskLimits env minFree) :=
  (evictWhileOverLimit_shrunk env minFree _ actor env.free).trans
    (evictPinnedUntilFree_shrunk env minFree _ _ _)

/-- The first loop ends under the budget, or with nothing left that it may
evict. -/
theorem evictWhileOverLimit_ends (env : Env) (minFree : Nat) {fuel : Nat}
    {actor : AssetActor} (free : Nat) (hfuel : actor.entries.length ≤ fuel) :
    (actor.evictWhileOverLimit env minFree fuel free).1.diskByteTotal ≤
        DISK_BUDGET_BYTES ∨
      ∀ entry ∈ (actor.evictWhileOverLimit env minFree fuel free).1.entries,
        entry.2.tier = .disk → entry.2.retention.isPinned := by
  induction fuel generalizing actor free with
  | zero =>
      have hnone : actor.entries = [] :=
        List.eq_nil_of_length_eq_zero (Nat.le_zero.mp hfuel)
      refine Or.inr fun entry hentry => ?_
      simp [evictWhileOverLimit, hnone] at hentry
  | succ fuel ih =>
      unfold evictWhileOverLimit
      by_cases hover : diskOverLimit actor.diskByteTotal free DISK_BUDGET_BYTES
          minFree
      · rw [if_pos hover]
        cases hpick : actor.pickDiskEvictableVictim env with
        | none => exact Or.inr fun entry hentry => pinned_of_no_victim hpick hentry
        | some victim =>
            obtain ⟨entry, hentry⟩ := mem_of_pickDiskVictim hpick
            have hless := length_evictVictim hentry
            exact ih _ (by omega)
      · rw [if_neg hover]
        simp only [diskOverLimit, decide_eq_true_eq, not_or, Nat.not_lt] at hover
        exact Or.inl hover.1

theorem Shrunk.mem {actor next : AssetActor} (h : actor.Shrunk next)
    {entry : String × Entry} (hentry : entry ∈ next.entries) :
    entry ∈ actor.entries := by
  obtain ⟨keep, hkeep⟩ := h.entries
  rw [hkeep] at hentry
  exact (List.mem_filter.mp hentry).1

theorem enforceDiskLimits_ends (env : Env) {actor : AssetActor} (minFree : Nat)
    (hbalanced : actor.Balanced) :
    (actor.enforceDiskLimits env minFree).diskByteTotal ≤ DISK_BUDGET_BYTES ∨
      ∀ entry ∈ (actor.enforceDiskLimits env minFree).entries,
        entry.2.tier = .disk → entry.2.retention.isPinned := by
  have hfirst := evictWhileOverLimit_shrunk env minFree actor.entries.length
    actor env.free
  have hmid := hfirst.balanced hbalanced
  have hrest := evictPinnedUntilFree_shrunk env minFree
    (actor.evictWhileOverLimit env minFree actor.entries.length
      env.free).1.entries.length
    (actor.evictWhileOverLimit env minFree actor.entries.length env.free).1
    (actor.evictWhileOverLimit env minFree actor.entries.length env.free).2
  rcases evictWhileOverLimit_ends env minFree env.free
    (Nat.le_refl actor.entries.length) with hle | hpinned
  · exact Or.inl ((hrest.diskByteTotal_le hmid).trans hle)
  · exact Or.inr fun entry hentry => hpinned entry (hrest.mem hentry)

/-- The invariant of the cache: exact totals, within bounds that no sum with one
more entry overflows. -/
structure Kept (actor : AssetActor) : Prop where
  balanced : actor.Balanced
  memory : actor.memoryByteTotal ≤ MEMORY_BUDGET_BYTES
  disk : actor.diskByteTotal ≤ ISIZE_MAX

theorem Kept.shrunk {actor next : AssetActor} (h : actor.Kept)
    (hshrunk : actor.Shrunk next) : next.Kept where
  balanced := hshrunk.balanced h.balanced
  memory := (hshrunk.memoryByteTotal_le h.balanced).trans h.memory
  disk := (hshrunk.diskByteTotal_le h.balanced).trans h.disk

/-- Room is made for a new entry, or the new entry goes. -/
theorem makeDiskRoom_le (env : Env) {actor : AssetActor} {id : String}
    {new : Entry} (hbalanced : actor.Balanced)
    (hget : actor.entries.get? id = some new) (hdisk : new.tier = .disk) :
    (actor.makeDiskRoom env id new.retention.isPinned).1.diskByteTotal ≤
      max DISK_BUDGET_BYTES
        (Table.total Entry.diskLen (actor.entries.remove id)) := by
  have hshrunk := enforceDiskLimits_shrunk env actor DISK_FREE_HEADROOM_BYTES
  have hends := enforceDiskLimits_ends env DISK_FREE_HEADROOM_BYTES hbalanced
  unfold makeDiskRoom evictUntilUnderDiskBudget
  generalize actor.enforceDiskLimits env DISK_FREE_HEADROOM_BYTES = room
    at hshrunk hends ⊢
  have hroom := hshrunk.balanced hbalanced
  obtain ⟨keep, hkeep⟩ := hshrunk.entries
  have hothers : Table.total Entry.diskLen (room.entries.remove id) ≤
      Table.total Entry.diskLen (actor.entries.remove id) := by
    rw [hkeep, Table.remove_filter]
    exact Table.total_filter_le _ _ _
  by_cases hover : room.diskByteTotal > DISK_BUDGET_BYTES ∧
      new.retention.isPinned
  · rw [if_pos hover]
    have hevicted := ((room.evictEntry_shrunk id).balanced hroom).accounted.disk
    rw [entries_evictEntry] at hevicted
    exact le_max_of_le_right (hevicted ▸ hothers)
  · rw [if_neg hover]
    rcases hends with hle | hpinned
    · exact le_max_of_le_left hle
    · by_cases hwithin : room.diskByteTotal ≤ DISK_BUDGET_BYTES
      · exact le_max_of_le_left hwithin
      · have hgone : id ∉ room.entries.keys := by
          intro hmem
          obtain ⟨entry, hentry, rfl⟩ := List.mem_map.mp hmem
          have hsame : entry.2 = new :=
            Table.eq_of_mem_of_mem hbalanced.keys (hshrunk.mem hentry)
              (Table.mem_of_get? hget)
          have hpin := hpinned entry hentry (hsame ▸ hdisk)
          exact hover ⟨Nat.not_le.mp hwithin, hsame ▸ hpin⟩
        rw [Table.remove_of_not_mem hgone] at hothers
        exact le_max_of_le_right (hroom.accounted.disk ▸ hothers)

theorem makeDiskRoom_shrunk (env : Env) (actor : AssetActor) (id : String)
    (pinned : Bool) : actor.Shrunk (actor.makeDiskRoom env id pinned).1 := by
  have hshrunk := enforceDiskLimits_shrunk env actor DISK_FREE_HEADROOM_BYTES
  unfold makeDiskRoom evictUntilUnderDiskBudget
  generalize actor.enforceDiskLimits env DISK_FREE_HEADROOM_BYTES = room
    at hshrunk ⊢
  by_cases hover : room.diskByteTotal > DISK_BUDGET_BYTES ∧ pinned
  · rw [if_pos hover]
    exact hshrunk.trans (evictEntry_shrunk room id)
  · rw [if_neg hover]
    exact hshrunk

/-- One more entry, counted as it is put in. -/
theorem Balanced.put {actor grown : AssetActor} {id : String} (entry : Entry)
    (h : actor.Balanced) (hget : actor.entries.get? id = none)
    (hentries : grown.entries = actor.entries.put id entry)
    (hmemory : grown.memoryByteTotal = actor.memoryByteTotal + entry.memoryLen)
    (hdisk : grown.diskByteTotal = actor.diskByteTotal + entry.diskLen) :
    grown.Balanced := by
  constructor
  · rw [hentries]
    exact Table.nodup_keys_put h.keys id entry
  · constructor
    · rw [hmemory, hentries, Table.total_put_of_none _ entry hget,
        h.accounted.memory]
    · rw [hdisk, hentries, Table.total_put_of_none _ entry hget,
        h.accounted.disk]

theorem Kept.insertMemory {actor : AssetActor} (env : Env) {id : String}
    (bytes : Bytes) (mime : Option String) (retention : Retention)
    (h : actor.Kept) (hget : actor.entries.get? id = none) :
    (actor.insertMemory env id bytes mime retention).1.Kept := by
  have hlen : bytes.len ≤ ISIZE_MAX := bytes.2
  have hsum : saturatingAdd actor.memoryByteTotal bytes.len =
      actor.memoryByteTotal + bytes.len := by
    have hmemory := h.memory
    unfold saturatingAdd
    unfold ISIZE_MAX at hlen
    unfold MEMORY_BUDGET_BYTES at hmemory
    unfold USIZE_MAX
    omega
  let entry : Entry :=
    { retention := retention
      mime := mime
      byteLen := bytes.len
      accessedAt := env.now
      lruSeq := actor.tick.lruClock
      ttlDeadline := ttlDeadlineFor env retention
      storage := .memory bytes }
  let grown : AssetActor :=
    { actor.tick with
      memoryByteTotal := saturatingAdd actor.memoryByteTotal bytes.len
      entries := actor.entries.put id entry }
  have hgrown : grown.Balanced := h.balanced.put entry hget rfl hsum rfl
  have hshrunk := evictUntilUnderMemoryBudget_shrunk env grown
  have hle := evictUnderMemoryBudget_le env hgrown (Nat.le_refl _)
  have hkept : (grown.evictUntilUnderMemoryBudget env).Kept :=
    ⟨hshrunk.balanced hgrown, hle,
      (hshrunk.diskByteTotal_le hgrown).trans h.disk⟩
  exact hkept.shrunk (emit_shrunk _ _)

theorem announce_shrunk (id : String)
    (result : AssetActor × Except AssetError Unit) :
    result.1.Shrunk (announce id result).1 := by
  obtain ⟨actor, result⟩ := result
  cases result with
  | ok => exact emit_shrunk actor _
  | error => exact Shrunk.refl actor

/-- An entry is placed on disk, and its row is written: the totals stay exact. -/
theorem Kept.insertPlaced {actor : AssetActor} (env : Env) {id : String}
    (dest : Path) {byteLen : Nat} (mime : Option String) {retention : Retention}
    (h : actor.Kept) (hget : actor.entries.get? id = none)
    (hlen : byteLen ≤ ISIZE_MAX)
    (hrow : ¬ (retention.isDiskPersisted ∧ env.fails (.upsertRow id))) :
    (actor.insertPlaced env id dest byteLen mime retention).1.Kept := by
  have hsum : saturatingAdd actor.diskByteTotal byteLen =
      actor.diskByteTotal + byteLen := by
    have hdisk := h.disk
    unfold saturatingAdd
    unfold ISIZE_MAX at hlen hdisk
    unfold USIZE_MAX
    omega
  let entry : Entry :=
    { retention := retention
      mime := mime
      byteLen := byteLen
      accessedAt := env.now
      lruSeq := actor.tick.lruClock
      ttlDeadline := ttlDeadlineFor env retention
      storage := .disk dest }
  let grown : AssetActor :=
    { actor.tick with
      diskByteTotal := saturatingAdd actor.diskByteTotal byteLen
      entries := actor.entries.put id entry }
  have hgrown : grown.Balanced := h.balanced.put entry hget rfl rfl hsum
  have hshrunk := makeDiskRoom_shrunk env grown id retention.isPinned
  have hle : (grown.makeDiskRoom env id retention.isPinned).1.diskByteTotal ≤
      max DISK_BUDGET_BYTES
        (Table.total Entry.diskLen (grown.entries.remove id)) :=
    makeDiskRoom_le env hgrown (Table.get?_put_self _ _ _) rfl
  have hothers : grown.entries.remove id = actor.entries := by
    have habsent := Table.get?_eq_none.mp hget
    simp only [grown, Table.put_of_not_mem entry habsent]
    have hself := Table.remove_of_not_mem habsent
    unfold Table.remove at hself ⊢
    rw [List.filter_append, hself]
    simp
  rw [hothers, ← h.balanced.accounted.disk] at hle
  have hkept : (grown.makeDiskRoom env id retention.isPinned).1.Kept := by
    refine ⟨hshrunk.balanced hgrown,
      (hshrunk.memoryByteTotal_le hgrown).trans h.memory, hle.trans ?_⟩
    exact max_le (by decide) h.disk
  have heq : actor.insertPlaced env id dest byteLen mime retention =
      announce id (grown.makeDiskRoom env id retention.isPinned) := by
    simp only [AssetActor.insertPlaced, if_neg hrow]
    rfl
  rw [heq]
  exact hkept.shrunk (announce_shrunk id _)

/-- The row fails after the blob was placed: its bytes are counted, and no entry
stands for them. -/
theorem Kept.insertPlaced_unaccounted {actor : AssetActor} (env : Env)
    {id : String} (dest : Path) {byteLen : Nat} (mime : Option String)
    {retention : Retention} (h : actor.Kept) (hlen : byteLen ≤ ISIZE_MAX)
    (hpos : 0 < byteLen)
    (hrow : retention.isDiskPersisted ∧ env.fails (.upsertRow id)) :
    ¬ (actor.insertPlaced env id dest byteLen mime retention).1.Accounted := by
  intro haccounted
  have hdisk := haccounted.disk
  simp only [AssetActor.insertPlaced, if_pos hrow] at hdisk
  have hbefore := h.balanced.accounted.disk
  have hbound := h.disk
  unfold saturatingAdd USIZE_MAX at hdisk
  unfold ISIZE_MAX at hlen hbound
  omega

/-- No row fails to be written once its blob is in place. -/
def Persists (safeBlobName : String → String) (env : Env) (actor : AssetActor) :
    Command → Prop
  | .insert id bytes _ retention =>
      bytes.1 ≠ [] → retention.isDiskPersisted →
        env.fails (.write (actor.blobPath safeBlobName id)) = false →
        env.fails (.upsertRow id) = false
  | .insertFromPath id source _ retention =>
      ∀ bytes, env.file source = some bytes → bytes.1 ≠ [] →
        retention.isDiskPersisted →
        env.fails (.rename source (actor.blobPath safeBlobName id)) = false →
        env.fails (.upsertRow id) = false
  | _ => True

theorem Kept.tick {actor : AssetActor} (h : actor.Kept) : actor.tick.Kept :=
  ⟨⟨h.balanced.keys, h.balanced.accounted.memory, h.balanced.accounted.disk⟩,
    h.memory, h.disk⟩

/-- An entry whose size and place stay is counted as before. -/
theorem Kept.put {actor : AssetActor} {id : String} {old new : Entry}
    (h : actor.Kept) (hget : actor.entries.get? id = some old)
    (hlen : new.byteLen = old.byteLen) (htier : new.tier = old.tier) :
    { actor with entries := actor.entries.put id new }.Kept := by
  have hmemory := Table.total_put_of_some Entry.memoryLen new hget
  have hdisk := Table.total_put_of_some Entry.diskLen new hget
  have hmemoryLen : new.memoryLen = old.memoryLen := by
    simp [Entry.memoryLen, hlen, htier]
  have hdiskLen : new.diskLen = old.diskLen := by
    simp [Entry.diskLen, hlen, htier]
  rw [hmemoryLen, Nat.add_right_cancel_iff] at hmemory
  rw [hdiskLen, Nat.add_right_cancel_iff] at hdisk
  refine ⟨⟨Table.nodup_keys_put h.balanced.keys id new, ?_, ?_⟩, h.memory,
    h.disk⟩
  · exact h.balanced.accounted.memory.trans hmemory.symm
  · exact h.balanced.accounted.disk.trans hdisk.symm

theorem Kept.evictEntry {actor : AssetActor} (h : actor.Kept) (id : String) :
    (actor.evictEntry id).Kept ∧ (actor.evictEntry id).entries.get? id = none := by
  refine ⟨h.shrunk (actor.evictEntry_shrunk id), ?_⟩
  rw [entries_evictEntry]
  exact Table.get?_remove_self _ _

@[simp] theorem blobPath_evictEntry (safeBlobName : String → String)
    (actor : AssetActor) (id other : String) :
    (actor.evictEntry other).blobPath safeBlobName id =
      actor.blobPath safeBlobName id := by
  unfold blobPath AssetActor.evictEntry
  split
  · rfl
  · simp only
    split <;> rfl

section

variable {safeBlobName : String → String} {env : Env}

theorem Kept.handleInsert {actor : AssetActor} {id : String} {bytes : Bytes}
    {mime : Option String} {retention : Retention} (h : actor.Kept)
    (hpersists : actor.Persists safeBlobName env
      (.insert id bytes mime retention)) :
    (actor.handleInsert safeBlobName env id bytes mime retention).1.Kept := by
  obtain ⟨hkept, hget⟩ := h.evictEntry id
  unfold AssetActor.handleInsert
  by_cases hempty : bytes.1 = []
  · simp only [hempty, List.isEmpty_nil, ↓reduceIte]
    exact h
  · simp only [List.isEmpty_iff, hempty, ↓reduceIte, blobPath_evictEntry]
    cases retention.tier with
    | memory => exact hkept.insertMemory env bytes mime retention hget
    | disk =>
        cases hwrite : env.fails (.write (actor.blobPath safeBlobName id)) with
        | true => exact hkept
        | false =>
            apply hkept.insertPlaced env _ mime hget bytes.2
            rintro ⟨hpersisted, hrow⟩
            have hfine := hpersists hempty hpersisted hwrite
            rw [hrow] at hfine
            contradiction

theorem Kept.handleInsertFromPath {actor : AssetActor} {id : String}
    {source : Path} {mime : Option String} {retention : Retention}
    (h : actor.Kept)
    (hpersists : actor.Persists safeBlobName env
      (.insertFromPath id source mime retention)) :
    (actor.handleInsertFromPath safeBlobName env id source mime
      retention).1.Kept := by
  obtain ⟨hkept, hget⟩ := h.evictEntry id
  unfold AssetActor.handleInsertFromPath
  cases hfile : env.file source with
  | none => exact h
  | some bytes =>
      by_cases hempty : bytes.1 = []
      · simp only [hempty, List.isEmpty_nil, ↓reduceIte]
        exact h
      · simp only [List.isEmpty_iff, hempty, ↓reduceIte, blobPath_evictEntry]
        cases retention.tier with
        | memory =>
            cases hread : env.fails (.read source) with
            | true => exact hkept
            | false => exact hkept.insertMemory env bytes mime retention hget
        | disk =>
            cases hrename : env.fails
                (.rename source (actor.blobPath safeBlobName id)) with
            | true => exact hkept
            | false =>
                apply hkept.insertPlaced env _ mime hget bytes.2
                rintro ⟨hpersisted, hrow⟩
                have hfine := hpersists bytes hfile hempty hpersisted hrename
                rw [hrow] at hfine
                contradiction

theorem Kept.handleSetRetention {actor : AssetActor} (env : Env) (id : String)
    (retention : Retention) (h : actor.Kept) :
    (actor.handleSetRetention env id retention).1.Kept := by
  unfold AssetActor.handleSetRetention
  cases hget : actor.entries.get? id with
  | none => exact h
  | some entry =>
      simp only
      split
      · exact h
      · have hput : { actor with
            entries := actor.entries.put id
              { entry with
                retention := retention
                ttlDeadline := ttlDeadlineFor env retention } }.Kept :=
          h.put hget rfl rfl
        split
        · exact hput
        · split <;> exact hput

theorem Kept.handleGet {actor : AssetActor} (env : Env) (id : String)
    (h : actor.Kept) : (actor.handleGet env id).1.Kept := by
  have htick := h.tick
  unfold AssetActor.handleGet
  cases hget : actor.tick.entries.get? id with
  | none =>
      simp only [hget]
      exact htick
  | some entry =>
      have hput : { actor.tick with
          entries := actor.tick.entries.put id
            { entry with
              accessedAt := env.now
              lruSeq := actor.tick.lruClock } }.Kept :=
        htick.put hget rfl rfl
      simp only [hget]
      split
      · exact hput
      · split
        · exact hput
        · exact ⟨⟨hput.balanced.keys, hput.balanced.accounted.memory,
            hput.balanced.accounted.disk⟩, hput.memory, hput.disk⟩

theorem Kept.evictAll {actor : AssetActor} (h : actor.Kept)
    (victims : List String) : (victims.foldl evictVictim actor).Kept := by
  induction victims generalizing actor with
  | nil => exact h
  | cons victim rest ih => exact ih (h.shrunk (actor.evictVictim_shrunk victim))

/-- Every command keeps the totals exact, unless a row is lost. -/
theorem Kept.handle {actor : AssetActor} {command : Command} (h : actor.Kept)
    (hpersists : actor.Persists safeBlobName env command) :
    (actor.handle safeBlobName env command).1.Kept := by
  cases command with
  | insert id bytes mime retention => exact h.handleInsert hpersists
  | insertFromPath id source mime retention =>
      exact h.handleInsertFromPath hpersists
  | setRetention id retention => exact h.handleSetRetention env id retention
  | get id => exact h.handleGet env id
  | contains id => exact h
  | clear id =>
      simp only [AssetActor.handle, handleClear]
      split
      · exact h.shrunk (actor.evictVictim_shrunk id)
      · exact h
  | reserveDisk needBytes => exact h.shrunk (enforceDiskLimits_shrunk env _ _)
  | sweep =>
      have hswept : (actor.ttlSweep env).Kept := h.evictAll _
      exact ⟨⟨hswept.balanced.keys, hswept.balanced.accounted.memory,
        hswept.balanced.accounted.disk⟩, hswept.memory, hswept.disk⟩

/-- A lost row shows at once. -/
theorem Kept.handle_unaccounted {actor : AssetActor} {command : Command}
    (h : actor.Kept) (hlost : ¬ actor.Persists safeBlobName env command) :
    ¬ (actor.handle safeBlobName env command).1.Accounted := by
  cases command with
  | insert id bytes mime retention =>
      obtain ⟨hkept, -⟩ := h.evictEntry id
      simp only [Persists, not_forall, Bool.not_eq_false] at hlost
      obtain ⟨hempty, hpersisted, hwrite, hrow⟩ := hlost
      have hdisk : retention.tier = .disk := by
        simp only [Retention.isDiskPersisted, decide_eq_true_eq] at hpersisted
        exact hpersisted.1
      simp only [AssetActor.handle, AssetActor.handleInsert, List.isEmpty_iff,
        hempty, ↓reduceIte, hdisk, blobPath_evictEntry, hwrite,
        Bool.false_eq_true]
      exact hkept.insertPlaced_unaccounted env _ mime bytes.2
        (List.length_pos_iff.mpr hempty) ⟨hpersisted, hrow⟩
  | insertFromPath id source mime retention =>
      obtain ⟨hkept, -⟩ := h.evictEntry id
      simp only [Persists, not_forall, Bool.not_eq_false] at hlost
      obtain ⟨bytes, hfile, hempty, hpersisted, hrename, hrow⟩ := hlost
      have hdisk : retention.tier = .disk := by
        simp only [Retention.isDiskPersisted, decide_eq_true_eq] at hpersisted
        exact hpersisted.1
      simp only [AssetActor.handle, AssetActor.handleInsertFromPath, hfile,
        List.isEmpty_iff, hempty, ↓reduceIte, hdisk, blobPath_evictEntry,
        hrename, Bool.false_eq_true]
      exact hkept.insertPlaced_unaccounted env _ mime bytes.2
        (List.length_pos_iff.mpr hempty) ⟨hpersisted, hrow⟩
  | setRetention => exact absurd trivial hlost
  | get => exact absurd trivial hlost
  | contains => exact absurd trivial hlost
  | clear => exact absurd trivial hlost
  | reserveDisk => exact absurd trivial hlost
  | sweep => exact absurd trivial hlost

end

/-- The bytes that the rows of the assets table stand for. -/
def rowBytes (rows : List (String × Row)) : Nat :=
  (rows.map fun row => row.2.byteLen.toNat).sum

theorem Balanced.recoverRow {actor : AssetActor} (env : Env)
    {row : String × Row} (h : actor.Balanced)
    (hget : actor.entries.get? row.1 = none)
    (hsum : actor.diskByteTotal + row.2.byteLen.toNat ≤ ISIZE_MAX) :
    (actor.recoverRow env row).Balanced ∧
      (actor.recoverRow env row).memoryByteTotal = actor.memoryByteTotal ∧
      (actor.recoverRow env row).diskByteTotal ≤
        actor.diskByteTotal + row.2.byteLen.toNat ∧
      ∀ id, id ≠ row.1 → (actor.recoverRow env row).entries.get? id =
        actor.entries.get? id := by
  unfold AssetActor.recoverRow
  split
  · exact ⟨h, rfl, Nat.le_add_right _ _, fun _ _ => rfl⟩
  · have hadd : saturatingAdd actor.diskByteTotal row.2.byteLen.toNat =
        actor.diskByteTotal + row.2.byteLen.toNat := by
      unfold saturatingAdd USIZE_MAX
      unfold ISIZE_MAX at hsum
      omega
    let entry : Entry :=
      { retention :=
          if row.2.pinned then Retention.DISK_PINNED else Retention.DISK_LRU
        mime := row.2.mime
        byteLen := row.2.byteLen.toNat
        accessedAt := row.2.accessedAt
        lruSeq := actor.tick.lruClock
        ttlDeadline := none
        storage := .disk row.2.path }
    exact ⟨h.put entry hget rfl rfl hadd, rfl, Nat.le_of_eq hadd,
      fun id hne => Table.get?_put_of_ne _ entry hne⟩

theorem Balanced.recoverRows {actor : AssetActor} (env : Env)
    {rows : List (String × Row)} (h : actor.Balanced)
    (hkeys : (rows.map Prod.fst).Nodup)
    (hfresh : ∀ row ∈ rows, actor.entries.get? row.1 = none)
    (hsum : actor.diskByteTotal + rowBytes rows ≤ ISIZE_MAX) :
    (rows.foldl (AssetActor.recoverRow env) actor).Balanced ∧
      (rows.foldl (AssetActor.recoverRow env) actor).memoryByteTotal =
        actor.memoryByteTotal ∧
      (rows.foldl (AssetActor.recoverRow env) actor).diskByteTotal ≤
        ISIZE_MAX := by
  induction rows generalizing actor with
  | nil => exact ⟨h, rfl, (Nat.le_add_right _ _).trans hsum⟩
  | cons row rest ih =>
      simp only [rowBytes, List.map_cons, List.sum_cons] at hsum ih
      simp only [List.map_cons, List.nodup_cons] at hkeys
      obtain ⟨hbalanced, hmemory, hdisk, hothers⟩ := h.recoverRow env
        (hfresh row List.mem_cons_self) (by omega)
      have hrest : ∀ other ∈ rest,
          (actor.recoverRow env row).entries.get? other.1 = none := by
        intro other hother
        rw [hothers]
        · exact hfresh other (List.mem_cons_of_mem _ hother)
        · intro hsame
          exact hkeys.1 (List.mem_map.mpr ⟨other, hother, hsame⟩)
      obtain ⟨hlast, hlastMemory, hlastDisk⟩ := ih hbalanced hkeys.2 hrest
        (by omega)
      exact ⟨hlast, hlastMemory.trans hmemory, hlastDisk⟩

/-- The cache starts with exact totals, whatever rows it finds. -/
theorem Kept.bootstrap (env : Env) (blobsDir : Path) {rows : Table String Row}
    (hkeys : rows.keys.Nodup) (hrows : rowBytes rows ≤ ISIZE_MAX) :
    (AssetActor.bootstrap env blobsDir rows).Kept := by
  have hnew : (AssetActor.new blobsDir).Balanced :=
    ⟨List.nodup_nil, rfl, rfl⟩
  have hperm : (rows.mergeSort fun left right =>
      left.2.accessedAt ≤ right.2.accessedAt).Perm rows :=
    List.mergeSort_perm _ _
  have hsum : rowBytes (rows.mergeSort fun left right =>
      left.2.accessedAt ≤ right.2.accessedAt) = rowBytes rows :=
    (hperm.map _).sum_eq
  obtain ⟨hbalanced, hmemory, hdisk⟩ := hnew.recoverRows env
    ((hperm.map Prod.fst).nodup_iff.mpr hkeys)
    (fun _ _ => rfl) (by
      rw [hsum]
      exact (Nat.zero_add _).le.trans hrows)
  have hkept : Kept (List.foldl (AssetActor.recoverRow env) _ _) :=
    ⟨hbalanced, hmemory ▸ Nat.zero_le _, hdisk⟩
  exact hkept.shrunk (enforceDiskLimits_shrunk env _ _)

/-- One command after another. -/
def step (safeBlobName : String → String) (actor : AssetActor)
    (turn : Env × Command) : AssetActor :=
  (actor.handle safeBlobName turn.1 turn.2).1

/-- The totals are exact in every state that is reached if and only if every
command on the way writes the rows of the blobs it has placed. -/
theorem accounted_iff_persists (safeBlobName : String → String) (env : Env)
    (blobsDir : Path) (rows : Table String Row) (hkeys : rows.keys.Nodup)
    (hrows : rowBytes rows ≤ ISIZE_MAX) (turns : List (Env × Command)) :
    (∀ count ≤ turns.length, (Transition.reached (step safeBlobName)
      (AssetActor.bootstrap env blobsDir rows) turns count).Accounted) ↔
    ∀ count turn, turns[count]? = some turn → (Transition.reached
      (step safeBlobName) (AssetActor.bootstrap env blobsDir rows) turns
        count).Persists safeBlobName turn.1 turn.2 := by
  have hstart := Kept.bootstrap env blobsDir hkeys hrows
  have hkeep : ∀ {actor : AssetActor} {turn : Env × Command}, actor.Kept →
      actor.Persists safeBlobName turn.1 turn.2 →
      (step safeBlobName actor turn).Kept :=
    fun h hpersists => h.handle hpersists
  have hbreak : ∀ {actor : AssetActor} {turn : Env × Command}, actor.Kept →
      ¬ actor.Persists safeBlobName turn.1 turn.2 →
      ¬ (step safeBlobName actor turn).Accounted :=
    fun h hlost => h.handle_unaccounted hlost
  exact Transition.reached_iff hstart (fun h => h.balanced.accounted) hkeep
    hbreak turns

/-- A disk with nothing on it and no room wanted, where the rows of the assets
table can or cannot be written. -/
def bareEnv (rowFails : Bool) : Env where
  now := 0
  instant := 0
  file := fun _ => none
  fails := fun call =>
    match call with
    | .upsertRow _ => rowFails
    | _ => false
  free := U64_MAX
  order := fun _ => 0

/-- A byte to be pinned on disk. -/
def pinnedByte : Command :=
  .insert "a" ⟨[1], by decide⟩ none Retention.DISK_PINNED

theorem accounted_iff_persists_pinned :
    (Transition.reached (step id) (bootstrap (bareEnv false) "b" [])
      [(bareEnv false, pinnedByte)] 1).Accounted := by
  refine (accounted_iff_persists id (bareEnv false) "b" [] List.nodup_nil
    (Nat.zero_le _) [(bareEnv false, pinnedByte)]).mpr ?_ 1 (Nat.le_refl _)
  intro count turn hturn
  obtain rfl := List.mem_singleton.mp (List.mem_of_getElem? hturn)
  exact fun _ _ _ => rfl

/-- The byte is placed, its row is not written, and no entry stands for it. -/
theorem pinnedByte_unaccounted :
    ¬ (Transition.reached (step id) (bootstrap (bareEnv false) "b" [])
      [(bareEnv true, pinnedByte)] 1).Accounted := by
  have hstart : (bootstrap (bareEnv false) "b" []).Kept :=
    Kept.bootstrap (bareEnv false) "b" List.nodup_nil (Nat.zero_le _)
  apply hstart.handle_unaccounted
  intro hpersists
  have hrow := hpersists (by decide) (by decide) rfl
  contradiction

end AssetActor

end Asset

end Bridgething
