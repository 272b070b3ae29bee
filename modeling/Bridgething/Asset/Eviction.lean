/-
The eviction of the asset cache: each loop evicts the entries at the front of an
order that the cache has before the loop begins, until there is enough.
-/
import Bridgething.Asset.Accounting
import Bridgething.Lib.Ranking

namespace Bridgething

namespace Asset

open Ranking

/-- Entries in the order in which they are picked: first those of the least key,
and of these the one that comes first. -/
def ranked {κ : Type} (before : κ → κ → Bool) (key : Entry → κ)
    (entries : List (String × Entry)) : List (String × Entry) :=
  entries.mergeSort fun left right => !before (key right.2) (key left.2)

/-- A strict order all of whose ties are alike. -/
structure Weak {κ : Type} (before : κ → κ → Bool) : Prop where
  trans : ∀ a b c, before b a = false → before c b = false →
    before c a = false
  total : ∀ a b, before b a = false ∨ before a b = false

theorem weak_more : Weak fun best score : Nat => decide (best > score) where
  trans a b c := by
    simp only [decide_eq_false_iff_not]
    omega
  total a b := by
    simp only [decide_eq_false_iff_not]
    omega

theorem weak_less : Weak fun best seq : Nat => decide (best < seq) where
  trans a b c := by
    simp only [decide_eq_false_iff_not]
    omega
  total a b := by
    simp only [decide_eq_false_iff_not]
    omega

theorem weak_olderAccess : Weak AssetActor.olderAccess where
  trans a b c := by
    simp only [AssetActor.olderAccess, decide_eq_false_iff_not]
    omega
  total a b := by
    simp only [AssetActor.olderAccess, decide_eq_false_iff_not]
    omega

section

variable {κ : Type} {before : κ → κ → Bool} (h : Weak before)
  (key : Entry → κ)

include h

theorem ranked_filter (keep : String × Entry → Bool)
    (entries : List (String × Entry)) :
    ranked before key (entries.filter keep) =
      (ranked before key entries).filter keep := by
  apply mergeSort_filter
  · intro a b c
    simpa using h.trans (key a.2) (key b.2) (key c.2)
  · intro a b
    simpa using h.total (key a.2) (key b.2)

/-- What is picked is what comes first. -/
theorem minByKey_eq_head? (entries : List (String × Entry)) :
    minByKey before key entries = (ranked before key entries).head? := by
  induction entries with
  | nil => simp [minByKey, ranked]
  | cons entry rest ih =>
      rw [ranked, head?_mergeSort_cons
        (fun a b c => by simpa using h.trans (key a.2) (key b.2) (key c.2))
        (fun a b => by simpa using h.total (key a.2) (key b.2)), minByKey, ih,
        ranked]
      generalize (rest.mergeSort fun left right =>
        !before (key right.2) (key left.2)).head? = found
      cases found with
      | none => rfl
      | some best =>
          simp only
          cases before (key best.2) (key entry.2) <;> rfl

end

theorem mem_ranked {κ : Type} {before : κ → κ → Bool} {key : Entry → κ}
    {entries : List (String × Entry)} {entry : String × Entry} :
    entry ∈ ranked before key entries ↔ entry ∈ entries :=
  List.mem_mergeSort

def bytesOf (entry : String × Entry) : Nat := entry.2.byteLen

def totalBytes (entries : List (String × Entry)) : Nat :=
  (entries.map bytesOf).sum

namespace AssetActor

/-- The order in which entries in memory are evicted. -/
def memoryOrder (env : Env) (actor : AssetActor) : List (String × Entry) :=
  let held := (actor.walk env).filter inMemory
  ranked (fun best score => decide (best > score)) actor.lruScore
      (held.filter fun entry => entry.2.retention.lifetime = .lru) ++
    (ranked (fun best seq => decide (best < seq)) Entry.lruSeq
        (held.filter fun entry => entry.2.retention.isTtl) ++
      ranked (fun best seq => decide (best < seq)) Entry.lruSeq
        (held.filter fun entry => entry.2.retention.isPinned))

/-- The order in which entries on disk are evicted, the pinned ones or the
others. -/
def diskOrder (env : Env) (actor : AssetActor) (pinned : Bool) :
    List (String × Entry) :=
  ranked olderAccess (fun entry => (entry.accessedAt, entry.lruSeq))
    ((actor.walk env).filter fun entry =>
      onDisk entry ∧ entry.2.retention.isPinned = pinned)

/-- Victims are evicted one after another. -/
def evictAll (actor : AssetActor) (victims : List (String × Entry)) :
    AssetActor :=
  (Table.keys victims).foldl evictVictim actor

/-- What the loop over the memory budget evicts. -/
def memoryVictims (env : Env) (actor : AssetActor) : List (String × Entry) :=
  enough bytesOf (actor.memoryByteTotal - MEMORY_BUDGET_BYTES)
    (actor.memoryOrder env)

/-- What the first loop over the disk limits evicts. -/
def diskVictims (env : Env) (actor : AssetActor) (minFree free : Nat) :
    List (String × Entry) :=
  enough bytesOf
    (max (actor.diskByteTotal - DISK_BUDGET_BYTES) (minFree - free))
    (actor.diskOrder env false)

/-- What the second loop evicts. -/
def pinnedVictims (env : Env) (actor : AssetActor) (minFree free : Nat) :
    List (String × Entry) :=
  enough bytesOf (minFree - free) (actor.diskOrder env true)

/-- What both loops evict. -/
def limitVictims (env : Env) (actor : AssetActor) (minFree : Nat) :
    List (String × Entry) :=
  let victims := actor.diskVictims env minFree env.free
  victims ++ enough bytesOf (minFree - env.free - totalBytes victims)
    (actor.diskOrder env true)

/-- The cache with a new entry in memory, before the loop over the budget. -/
def heldInMemory (env : Env) (actor : AssetActor) (id : String) (bytes : Bytes)
    (mime : Option String) (retention : Retention) : AssetActor :=
  { actor.tick with
    memoryByteTotal := saturatingAdd actor.memoryByteTotal bytes.len
    entries := actor.entries.put id
      { retention := retention
        mime := mime
        byteLen := bytes.len
        accessedAt := env.now
        lruSeq := actor.tick.lruClock
        ttlDeadline := ttlDeadlineFor env retention
        storage := .memory bytes } }

/-- The cache with a new entry on disk, before room is made for it. -/
def heldOnDisk (env : Env) (actor : AssetActor) (id : String) (dest : Path)
    (byteLen : Nat) (mime : Option String) (retention : Retention) :
    AssetActor :=
  { actor.tick with
    diskByteTotal := saturatingAdd actor.diskByteTotal byteLen
    entries := actor.entries.put id
      { retention := retention
        mime := mime
        byteLen := byteLen
        accessedAt := env.now
        lruSeq := actor.tick.lruClock
        ttlDeadline := ttlDeadlineFor env retention
        storage := .disk dest } }

/-! ### Orders -/

theorem pickMemoryVictim_eq (env : Env) (actor : AssetActor) :
    actor.pickMemoryVictim env =
      (actor.memoryOrder env).head?.map Prod.fst := by
  simp only [pickMemoryVictim, memoryOrder, List.head?_append,
    minByKey_eq_head? weak_more, minByKey_eq_head? weak_less]

theorem pickDiskVictim_eq (env : Env) (actor : AssetActor) (pinned : Bool) :
    actor.pickDiskVictim env pinned =
      (actor.diskOrder env pinned).head?.map Prod.fst := by
  simp only [pickDiskVictim, diskOrder, minByKey_eq_head? weak_olderAccess]

theorem mem_memoryOrder {env : Env} {actor : AssetActor}
    {entry : String × Entry} :
    entry ∈ actor.memoryOrder env ↔
      entry ∈ actor.entries ∧ entry.2.tier = .memory := by
  simp only [memoryOrder, List.mem_append, mem_ranked, List.mem_filter,
    mem_walk, inMemory, decide_eq_true_eq]
  constructor
  · tauto
  · intro hentry
    cases hlifetime : entry.2.retention.lifetime with
    | pinned => exact Or.inr (Or.inr ⟨hentry, by
        simp [Retention.isPinned, hlifetime]⟩)
    | lru => exact Or.inl ⟨hentry, rfl⟩
    | ttl seconds => exact Or.inr (Or.inl ⟨hentry, by
        simp [Retention.isTtl, hlifetime]⟩)

/-- What is pinned comes last. -/
theorem memoryOrder_split (env : Env) (actor : AssetActor) :
    ∃ plain pinned, actor.memoryOrder env = plain ++ pinned ∧
      (∀ entry ∈ plain, entry.2.retention.isPinned = false) ∧
      ∀ entry ∈ pinned, entry.2.retention.isPinned = true := by
  refine ⟨_, _, (List.append_assoc _ _ _).symm, fun entry hentry => ?_,
    fun entry hentry => (List.mem_filter.mp (mem_ranked.mp hentry)).2⟩
  rcases List.mem_append.mp hentry with hmem | hmem
  · have hlru := (List.mem_filter.mp (mem_ranked.mp hmem)).2
    rw [decide_eq_true_eq] at hlru
    simp [Retention.isPinned, hlru]
  · have httl := (List.mem_filter.mp (mem_ranked.mp hmem)).2
    cases hlifetime : entry.2.retention.lifetime <;>
      simp [Retention.isTtl, Retention.isPinned, hlifetime] at httl ⊢

theorem mem_diskOrder {env : Env} {actor : AssetActor} {pinned : Bool}
    {entry : String × Entry} :
    entry ∈ actor.diskOrder env pinned ↔
      entry ∈ actor.entries ∧ entry.2.tier = .disk ∧
        entry.2.retention.isPinned = pinned := by
  simp only [diskOrder, mem_ranked, List.mem_filter, mem_walk, onDisk,
    decide_eq_true_eq]

section

variable {env : Env} {actor next : AssetActor}

/-- What is left keeps its order. -/
theorem walk_filter {keep : String × Entry → Bool}
    (hentries : next.entries = actor.entries.filter keep) :
    next.walk env = (actor.walk env).filter keep := by
  rw [walk, hentries]
  apply mergeSort_filter
  · intro a b c
    simp only [decide_eq_true_eq]
    omega
  · intro a b
    simp only [Bool.or_eq_true, decide_eq_true_eq]
    omega

theorem memoryOrder_filter {keep : String × Entry → Bool}
    (hentries : next.entries = actor.entries.filter keep)
    (hclock : next.lruClock = actor.lruClock) :
    next.memoryOrder env = (actor.memoryOrder env).filter keep := by
  have hscore : next.lruScore = actor.lruScore := by
    funext entry
    rw [lruScore, lruScore, hclock]
  simp only [memoryOrder, walk_filter hentries, hscore, List.filter_append,
    ← ranked_filter weak_more, ← ranked_filter weak_less, List.filter_filter,
    Bool.and_assoc, Bool.and_comm, Bool.and_left_comm]

theorem diskOrder_filter {keep : String × Entry → Bool}
    (hentries : next.entries = actor.entries.filter keep) (pinned : Bool) :
    next.diskOrder env pinned = (actor.diskOrder env pinned).filter keep := by
  simp only [diskOrder, walk_filter hentries, ← ranked_filter weak_olderAccess,
    List.filter_filter, Bool.and_comm]

end

/-! ### Victims -/

theorem get?_evictEntry_self (actor : AssetActor) (id : String) :
    (actor.evictEntry id).entries.get? id = none := by
  rw [entries_evictEntry]
  exact Table.get?_remove_self _ _

@[simp] theorem lruClock_evictVictim (actor : AssetActor) (victim : String) :
    (actor.evictVictim victim).lruClock = actor.lruClock := by
  show (actor.evictEntry victim).lruClock = actor.lruClock
  unfold evictEntry
  split
  · rfl
  · dsimp only
    split <;> rfl

theorem entries_evictVictim (actor : AssetActor) (victim : String) :
    (actor.evictVictim victim).entries =
      actor.entries.filter fun entry => entry.1 ≠ victim :=
  actor.entries_evictEntry victim

theorem nodup_keys_evictVictim {actor : AssetActor}
    (hkeys : actor.entries.keys.Nodup) (victim : String) :
    (actor.evictVictim victim).entries.keys.Nodup := by
  rw [entries_evictVictim]
  exact Table.nodup_keys_remove hkeys victim

@[simp] theorem evictAll_nil (actor : AssetActor) : actor.evictAll [] = actor :=
  rfl

@[simp] theorem evictAll_cons (actor : AssetActor) (victim : String × Entry)
    (rest : List (String × Entry)) :
    actor.evictAll (victim :: rest) =
      (actor.evictVictim victim.1).evictAll rest := rfl

theorem evictAll_append (actor : AssetActor)
    (victims others : List (String × Entry)) :
    actor.evictAll (victims ++ others) =
      (actor.evictAll victims).evictAll others := by
  simp only [evictAll, Table.keys, List.map_append, List.foldl_append]

theorem entries_evictAll (actor : AssetActor)
    (victims : List (String × Entry)) :
    (actor.evictAll victims).entries =
      actor.entries.filter fun entry => entry.1 ∉ Table.keys victims := by
  induction victims generalizing actor with
  | nil => simp [Table.keys]
  | cons victim rest ih =>
      rw [evictAll_cons, ih, entries_evictVictim, List.filter_filter]
      apply List.filter_congr
      intro entry _
      rw [Table.keys, Table.keys, List.map_cons, ← Bool.decide_and]
      apply decide_eq_decide.mpr
      rw [List.mem_cons, not_or, and_comm]

/-- An evicted entry on disk is taken off the total of the disk. -/
theorem evictVictim_disk {actor : AssetActor} {victim : String × Entry}
    (hkeys : actor.entries.keys.Nodup) (hentry : victim ∈ actor.entries)
    (hdisk : victim.2.tier = .disk) :
    (actor.evictVictim victim.1).diskByteTotal =
        actor.diskByteTotal - bytesOf victim ∧
      (actor.evictVictim victim.1).memoryByteTotal =
        actor.memoryByteTotal ∧
      actor.freedBy victim.1 = bytesOf victim := by
  have hget : actor.entries.get? victim.1 = some victim.2 :=
    Table.get?_of_mem hkeys hentry
  cases hstorage : victim.2.storage with
  | memory => simp [Entry.tier, hstorage] at hdisk
  | disk path =>
      simp [evictVictim, emit, evictEntry, freedBy, hget, hstorage, bytesOf]

/-- An evicted entry in memory is taken off the total of the memory. -/
theorem evictVictim_memory {actor : AssetActor} {victim : String × Entry}
    (hkeys : actor.entries.keys.Nodup) (hentry : victim ∈ actor.entries)
    (hmemory : victim.2.tier = .memory) :
    (actor.evictVictim victim.1).memoryByteTotal =
        actor.memoryByteTotal - bytesOf victim ∧
      (actor.evictVictim victim.1).diskByteTotal = actor.diskByteTotal := by
  have hget : actor.entries.get? victim.1 = some victim.2 :=
    Table.get?_of_mem hkeys hentry
  cases hstorage : victim.2.storage with
  | memory bytes =>
      simp [evictVictim, emit, evictEntry, hget, hstorage, bytesOf]
  | disk => simp [Entry.tier, hstorage] at hmemory

theorem eq_of_key {actor : AssetActor} {left right : String × Entry}
    (hkeys : actor.entries.keys.Nodup) (hleft : left ∈ actor.entries)
    (hright : right ∈ actor.entries) (hsame : left.1 = right.1) :
    left = right := by
  have hmem : (left.1, right.2) ∈ actor.entries := by
    rw [hsame]
    exact hright
  exact Prod.ext hsame (Table.eq_of_mem_of_mem hkeys hleft hmem)

/-- Of entries whose keys differ, to drop the first leaves the others. -/
theorem filter_first {first : String × Entry} {rest : List (String × Entry)}
    (hkeys : (Table.keys (first :: rest)).Nodup) :
    (first :: rest).filter (fun entry => entry.1 ≠ first.1) = rest := by
  rw [List.filter_cons_of_neg (by simp)]
  refine List.filter_eq_self.mpr fun entry hentry => ?_
  have hfirst := (List.nodup_cons.mp hkeys).1
  simp only [ne_eq, decide_not, Bool.not_eq_true', decide_eq_false_iff_not]
  exact fun hsame => hfirst (List.mem_map.mpr ⟨entry, hentry, hsame⟩)

theorem nodup_keys_order {actor : AssetActor}
    {order : List (String × Entry)} (hkeys : actor.entries.keys.Nodup)
    (hnodup : order.Nodup) (hmem : ∀ entry ∈ order, entry ∈ actor.entries) :
    (Table.keys order).Nodup := by
  refine hnodup.map_on fun left hleft right hright hsame => ?_
  exact eq_of_key hkeys (hmem left hleft) (hmem right hright) hsame

section

variable {env : Env} {actor : AssetActor}

theorem nodup_walk (hkeys : actor.entries.keys.Nodup) :
    (actor.walk env).Nodup :=
  List.nodup_mergeSort.mpr hkeys.of_map

theorem nodup_diskOrder (hkeys : actor.entries.keys.Nodup) (pinned : Bool) :
    (Table.keys (actor.diskOrder env pinned)).Nodup := by
  refine nodup_keys_order hkeys ?_ fun entry hentry =>
    (mem_diskOrder.mp hentry).1
  exact List.nodup_mergeSort.mpr ((nodup_walk hkeys).filter _)

theorem nodup_memoryOrder (hkeys : actor.entries.keys.Nodup) :
    (Table.keys (actor.memoryOrder env)).Nodup := by
  refine nodup_keys_order hkeys ?_ fun entry hentry =>
    (mem_memoryOrder.mp hentry).1
  have hpart : ∀ keep, (((actor.walk env).filter inMemory).filter keep).Nodup :=
    fun keep => ((nodup_walk hkeys).filter _).filter keep
  have hclass : ∀ {entry : String × Entry},
      entry.2.retention.isTtl = true → entry.2.retention.isPinned = false := by
    intro entry httl
    cases hlifetime : entry.2.retention.lifetime <;>
      simp [Retention.isTtl, Retention.isPinned, hlifetime] at httl ⊢
  refine List.nodup_append.mpr ⟨List.nodup_mergeSort.mpr (hpart _),
    List.nodup_append.mpr ⟨List.nodup_mergeSort.mpr (hpart _),
      List.nodup_mergeSort.mpr (hpart _), ?_⟩, ?_⟩
  · rintro entry hfirst other hsecond rfl
    have httl := (List.mem_filter.mp (mem_ranked.mp hfirst)).2
    have hpinned := (List.mem_filter.mp (mem_ranked.mp hsecond)).2
    rw [hclass httl] at hpinned
    contradiction
  · rintro entry hfirst other hsecond rfl
    have hlru := (List.mem_filter.mp (mem_ranked.mp hfirst)).2
    rw [decide_eq_true_eq] at hlru
    rcases List.mem_append.mp hsecond with hmem | hmem
    · have httl := (List.mem_filter.mp (mem_ranked.mp hmem)).2
      simp [Retention.isTtl, hlru] at httl
    · have hpinned := (List.mem_filter.mp (mem_ranked.mp hmem)).2
      simp [Retention.isPinned, hlru] at hpinned

theorem length_memoryOrder_le (env : Env) {actor : AssetActor}
    (hkeys : actor.entries.keys.Nodup) :
    (actor.memoryOrder env).length ≤ actor.entries.length := by
  have hsubset : Table.keys (actor.memoryOrder env) ⊆ actor.entries.keys :=
    List.map_subset _ fun entry hentry => (mem_memoryOrder.mp hentry).1
  have hle := ((nodup_memoryOrder hkeys).subperm hsubset).length_le
  simpa [Table.keys] using hle

theorem length_diskOrder_le (env : Env) (actor : AssetActor) (pinned : Bool) :
    (actor.diskOrder env pinned).length ≤ actor.entries.length := by
  rw [diskOrder, ranked, List.length_mergeSort]
  exact (List.length_filter_le _ _).trans_eq (List.length_mergeSort _)

/-! ### Loops -/

/-- A turn of the loop over the memory budget evicts the first entry of the
order, and leaves the others in theirs. -/
theorem memoryOrder_evictVictim {first : String × Entry}
    {rest : List (String × Entry)} (hkeys : actor.entries.keys.Nodup)
    (horder : actor.memoryOrder env = first :: rest) :
    (actor.evictVictim first.1).memoryOrder env = rest := by
  rw [memoryOrder_filter (actor.entries_evictVictim first.1)
    (lruClock_evictVictim _ _), horder]
  exact filter_first (horder ▸ nodup_memoryOrder hkeys)

theorem diskOrder_evictVictim {pinned : Bool} {first : String × Entry}
    {rest : List (String × Entry)} (hkeys : actor.entries.keys.Nodup)
    (horder : actor.diskOrder env pinned = first :: rest) :
    (actor.evictVictim first.1).diskOrder env pinned = rest := by
  rw [diskOrder_filter (actor.entries_evictVictim first.1), horder]
  exact filter_first (horder ▸ nodup_diskOrder hkeys pinned)

/-- The loop over the memory budget evicts from the front of the order until
the rest is within the budget. -/
theorem evictUnderMemoryBudget_eq {fuel : Nat}
    (hkeys : actor.entries.keys.Nodup)
    (hfuel : (actor.memoryOrder env).length ≤ fuel) :
    actor.evictUnderMemoryBudget env fuel =
      actor.evictAll (actor.memoryVictims env) := by
  induction fuel generalizing actor with
  | zero =>
      have hnil := List.eq_nil_of_length_eq_zero (Nat.le_zero.mp hfuel)
      simp [evictUnderMemoryBudget, memoryVictims, hnil]
  | succ fuel ih =>
      unfold evictUnderMemoryBudget
      by_cases hover : actor.memoryByteTotal > MEMORY_BUDGET_BYTES
      · rw [if_pos hover, pickMemoryVictim_eq]
        cases horder : actor.memoryOrder env with
        | nil => simp [memoryVictims, horder]
        | cons first rest =>
            have hfirst : first ∈ actor.memoryOrder env :=
              horder ▸ List.mem_cons_self
            obtain ⟨hentry, hmemory⟩ := mem_memoryOrder.mp hfirst
            have htotal := (evictVictim_memory hkeys hentry hmemory).1
            have hrest := memoryOrder_evictVictim hkeys horder
            have hnext := ih (nodup_keys_evictVictim hkeys first.1) (by
              rw [hrest]
              rw [horder, List.length_cons] at hfuel
              omega)
            show (actor.evictVictim first.1).evictUnderMemoryBudget env fuel = _
            rw [hnext, memoryVictims, memoryVictims, horder, hrest, htotal,
              enough_cons _ _ _ (by omega), evictAll_cons, Nat.sub_right_comm]
      · rw [if_neg hover, memoryVictims, Nat.sub_eq_zero_of_le (by omega),
          enough_zero, evictAll_nil]

/-- What is needed after a victim of some size, where no more is ever needed
than free bytes are counted to. -/
theorem need_after {total budget minFree free size limit : Nat}
    (hfits : minFree ≤ limit) :
    max (total - size - budget) (minFree - min (free + size) limit) =
      max (total - budget) (minFree - free) - size := by
  omega

/-- The first loop over the disk limits evicts from the front of the order of
what is not pinned. -/
theorem evictWhileOverLimit_eq {minFree fuel free : Nat}
    (hfits : minFree ≤ U64_MAX) (hkeys : actor.entries.keys.Nodup)
    (hfuel : (actor.diskOrder env false).length ≤ fuel) :
    (actor.evictWhileOverLimit env minFree fuel free).1 =
        actor.evictAll (actor.diskVictims env minFree free) ∧
      minFree - (actor.evictWhileOverLimit env minFree fuel free).2 =
        minFree - free -
          totalBytes (actor.diskVictims env minFree free) := by
  induction fuel generalizing actor free with
  | zero =>
      have hnil := List.eq_nil_of_length_eq_zero (Nat.le_zero.mp hfuel)
      simp [evictWhileOverLimit, diskVictims, hnil, totalBytes]
  | succ fuel ih =>
      unfold evictWhileOverLimit
      by_cases hover : diskOverLimit actor.diskByteTotal free
          DISK_BUDGET_BYTES minFree = true
      · rw [if_pos hover, pickDiskEvictableVictim, pickDiskVictim_eq]
        simp only [diskOverLimit, decide_eq_true_eq] at hover
        cases horder : actor.diskOrder env false with
        | nil => simp [diskVictims, horder, totalBytes]
        | cons first rest =>
            have hfirst : first ∈ actor.diskOrder env false :=
              horder ▸ List.mem_cons_self
            obtain ⟨hentry, hdisk, -⟩ := mem_diskOrder.mp hfirst
            obtain ⟨htotal, -, hfreed⟩ := evictVictim_disk hkeys hentry hdisk
            have hrest := diskOrder_evictVictim hkeys horder
            have hneed : max ((actor.evictVictim first.1).diskByteTotal -
                  DISK_BUDGET_BYTES)
                (minFree - min (free + actor.freedBy first.1) U64_MAX) =
                max (actor.diskByteTotal - DISK_BUDGET_BYTES) (minFree - free) -
                  bytesOf first := by
              rw [htotal, hfreed]
              exact need_after hfits
            have hpos : 0 < max (actor.diskByteTotal - DISK_BUDGET_BYTES)
                (minFree - free) :=
              lt_max_iff.mpr (hover.imp Nat.sub_pos_of_lt Nat.sub_pos_of_lt)
            have hvictims : actor.diskVictims env minFree free =
                first :: (actor.evictVictim first.1).diskVictims env minFree
                  (min (free + actor.freedBy first.1) U64_MAX) := by
              rw [diskVictims, diskVictims, horder, hrest, hneed,
                enough_cons _ _ _ hpos]
            obtain ⟨hactor, hfree⟩ :=
              @ih (actor.evictVictim first.1)
                (min (free + actor.freedBy first.1) U64_MAX)
                (nodup_keys_evictVictim hkeys first.1) (by
                  rw [hrest]
                  rw [horder, List.length_cons] at hfuel
                  omega)
            rw [hvictims, evictAll_cons]
            refine ⟨hactor, hfree.trans ?_⟩
            rw [hfreed, totalBytes, totalBytes, List.map_cons, List.sum_cons]
            omega
      · rw [if_neg hover]
        simp only [diskOverLimit, decide_eq_true_eq] at hover
        have hneed : max (actor.diskByteTotal - DISK_BUDGET_BYTES)
            (minFree - free) = 0 := by omega
        simp [diskVictims, hneed, totalBytes]

/-- The second loop evicts from the front of the order of what is pinned. -/
theorem evictPinnedUntilFree_eq {minFree fuel free : Nat}
    (hfits : minFree ≤ U64_MAX) (hkeys : actor.entries.keys.Nodup)
    (hfuel : (actor.diskOrder env true).length ≤ fuel) :
    actor.evictPinnedUntilFree env minFree fuel free =
      actor.evictAll (actor.pinnedVictims env minFree free) := by
  induction fuel generalizing actor free with
  | zero =>
      have hnil := List.eq_nil_of_length_eq_zero (Nat.le_zero.mp hfuel)
      simp [evictPinnedUntilFree, pinnedVictims, hnil]
  | succ fuel ih =>
      unfold evictPinnedUntilFree
      by_cases hneeds : free < minFree
      · rw [if_pos hneeds, pickDiskPinnedVictim, pickDiskVictim_eq]
        cases horder : actor.diskOrder env true with
        | nil => simp [pinnedVictims, horder]
        | cons first rest =>
            have hfirst : first ∈ actor.diskOrder env true :=
              horder ▸ List.mem_cons_self
            obtain ⟨hentry, hdisk, -⟩ := mem_diskOrder.mp hfirst
            obtain ⟨-, -, hfreed⟩ := evictVictim_disk hkeys hentry hdisk
            have hrest := diskOrder_evictVictim hkeys horder
            have hneed : minFree - min (free + bytesOf first) U64_MAX =
                minFree - free - bytesOf first := by omega
            have hnext := @ih (actor.evictVictim first.1)
              (min (free + actor.freedBy first.1) U64_MAX)
              (nodup_keys_evictVictim hkeys first.1) (by
                rw [hrest]
                rw [horder, List.length_cons] at hfuel
                omega)
            show (actor.evictVictim first.1).evictPinnedUntilFree env minFree
              fuel _ = _
            rw [hnext, pinnedVictims, pinnedVictims, horder, hrest, hfreed,
              hneed, enough_cons _ _ _ (by omega), evictAll_cons]
      · rw [if_neg hneeds, pinnedVictims, Nat.sub_eq_zero_of_le (by omega),
          enough_zero, evictAll_nil]

theorem evictUntilUnderMemoryBudget_eq (hkeys : actor.entries.keys.Nodup) :
    actor.evictUntilUnderMemoryBudget env =
      actor.evictAll (actor.memoryVictims env) :=
  evictUnderMemoryBudget_eq hkeys (length_memoryOrder_le env hkeys)

/-- What is pinned stays in its order while what is not pinned is evicted. -/
theorem diskOrder_evictAll {minFree free : Nat}
    (hkeys : actor.entries.keys.Nodup) :
    (actor.evictAll (actor.diskVictims env minFree free)).diskOrder env true =
      actor.diskOrder env true := by
  rw [diskOrder_filter (actor.entries_evictAll _)]
  refine List.filter_eq_self.mpr fun entry hentry => ?_
  obtain ⟨hmem, -, hpinned⟩ := mem_diskOrder.mp hentry
  simp only [decide_eq_true_eq]
  intro hvictim
  obtain ⟨victim, hin, hsame⟩ := List.mem_map.mp hvictim
  obtain ⟨hheld, -, hplain⟩ := mem_diskOrder.mp
    ((enough_front _ _ _).subset hin)
  rw [eq_of_key hkeys hheld hmem hsame, hpinned] at hplain
  contradiction

theorem enforceDiskLimits_eq {minFree : Nat} (hfits : minFree ≤ U64_MAX)
    (hkeys : actor.entries.keys.Nodup) :
    actor.enforceDiskLimits env minFree =
      actor.evictAll (actor.limitVictims env minFree) := by
  obtain ⟨hactor, hfree⟩ := @evictWhileOverLimit_eq env actor minFree
    actor.entries.length env.free hfits hkeys (length_diskOrder_le _ _ _)
  have hmid : (actor.evictAll
      (actor.diskVictims env minFree env.free)).entries.keys.Nodup := by
    rw [entries_evictAll]
    exact Table.nodup_keys_filter hkeys _
  unfold enforceDiskLimits
  dsimp only
  rw [hactor, evictPinnedUntilFree_eq hfits hmid (length_diskOrder_le _ _ _),
    pinnedVictims, hfree, diskOrder_evictAll hkeys, limitVictims,
    evictAll_append]

/-- What is evicted for the disk is on the disk. -/
theorem disk_of_mem_victims {minFree : Nat} {victim : String × Entry}
    (h : victim ∈ actor.limitVictims env minFree) :
    victim ∈ actor.entries ∧ victim.2.tier = .disk := by
  rcases List.mem_append.mp h with hplain | hpinned
  · obtain ⟨hentry, hdisk, -⟩ :=
      mem_diskOrder.mp ((enough_front _ _ _).subset hplain)
    exact ⟨hentry, hdisk⟩
  · obtain ⟨hentry, hdisk, -⟩ :=
      mem_diskOrder.mp ((enough_front _ _ _).subset hpinned)
    exact ⟨hentry, hdisk⟩

/-! ### Inserts -/

theorem nodup_heldInMemory (hkeys : actor.entries.keys.Nodup) (id : String)
    (bytes : Bytes) (mime : Option String) (retention : Retention) :
    (actor.heldInMemory env id bytes mime retention).entries.keys.Nodup :=
  Table.nodup_keys_put hkeys _ _

theorem nodup_heldOnDisk (hkeys : actor.entries.keys.Nodup) (id : String)
    (dest : Path) (byteLen : Nat) (mime : Option String)
    (retention : Retention) :
    (actor.heldOnDisk env id dest byteLen mime
      retention).entries.keys.Nodup :=
  Table.nodup_keys_put hkeys _ _

theorem insertMemory_eq (hkeys : actor.entries.keys.Nodup) (id : String)
    (bytes : Bytes) (mime : Option String) (retention : Retention) :
    actor.insertMemory env id bytes mime retention =
      (((actor.heldInMemory env id bytes mime retention).evictAll
        ((actor.heldInMemory env id bytes mime retention).memoryVictims
          env)).emit (.ready id), .ok ()) := by
  rw [← evictUntilUnderMemoryBudget_eq
    (nodup_heldInMemory hkeys id bytes mime retention)]
  rfl

theorem makeDiskRoom_eq (hkeys : actor.entries.keys.Nodup) (id : String)
    (pinned : Bool) :
    actor.makeDiskRoom env id pinned =
      if (actor.evictAll (actor.limitVictims env
            DISK_FREE_HEADROOM_BYTES)).diskByteTotal > DISK_BUDGET_BYTES ∧
          pinned then
        ((actor.evictAll (actor.limitVictims env
          DISK_FREE_HEADROOM_BYTES)).evictEntry id, .error .diskBudgetExceeded)
      else
        (actor.evictAll (actor.limitVictims env DISK_FREE_HEADROOM_BYTES),
          .ok ()) := by
  rw [← enforceDiskLimits_eq (by decide) hkeys]
  rfl

end

end AssetActor

end Asset

end Bridgething
