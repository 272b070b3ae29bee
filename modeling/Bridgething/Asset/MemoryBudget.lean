/-
The memory of the asset cache: within its budget after every command, whatever
fails, by a loop that ends, and which comes to pinned entries last.
-/
import Bridgething.Asset.Eviction

namespace Bridgething

namespace Asset

open Ranking

namespace AssetActor

/-- The loop over the memory budget as it is written, with no bound on its
turns. -/
inductive Loop (env : Env) : AssetActor → AssetActor → Prop
  | within {actor : AssetActor} :
      actor.memoryByteTotal ≤ MEMORY_BUDGET_BYTES → Loop env actor actor
  | stuck {actor : AssetActor} :
      actor.memoryByteTotal > MEMORY_BUDGET_BYTES →
      actor.pickMemoryVictim env = none → Loop env actor actor
  | turn {actor next : AssetActor} {victim : String} :
      actor.memoryByteTotal > MEMORY_BUDGET_BYTES →
      actor.pickMemoryVictim env = some victim →
      Loop env (actor.evictVictim victim) next → Loop env actor next

/-- The total of the memory is that of the entries in memory. -/
structure Exact (actor : AssetActor) : Prop where
  keys : actor.entries.keys.Nodup
  total : actor.memoryByteTotal = Table.total Entry.memoryLen actor.entries

/-- What is pinned has no deadline. -/
def Undated (actor : AssetActor) : Prop :=
  ∀ entry ∈ actor.entries, entry.2.retention.isPinned →
    entry.2.ttlDeadline = none

/-- The invariant of the cache's memory. -/
structure Remembers (actor : AssetActor) : Prop where
  exact : actor.Exact
  within : actor.memoryByteTotal ≤ MEMORY_BUDGET_BYTES
  undated : actor.Undated

/-- An entry in memory that nothing but memory pressure may take. -/
def PinsInMemory (actor : AssetActor) (id : String) : Prop :=
  ∃ entry, actor.entries.get? id = some entry ∧ entry.tier = .memory ∧
    entry.retention.isPinned

def AllPinnedInMemory (actor : AssetActor) : Prop :=
  ∀ entry ∈ actor.entries, entry.2.tier = .memory → entry.2.retention.isPinned

/-! ### The loop -/

/-- Every turn takes an entry away, so that the loop ends. -/
theorem loop_evictUnderMemoryBudget (env : Env) {fuel : Nat}
    {actor : AssetActor} (hfuel : actor.entries.length ≤ fuel) :
    Loop env actor (actor.evictUnderMemoryBudget env fuel) := by
  induction fuel generalizing actor with
  | zero =>
      have hnone : actor.entries = [] :=
        List.eq_nil_of_length_eq_zero (Nat.le_zero.mp hfuel)
      by_cases hover : actor.memoryByteTotal > MEMORY_BUDGET_BYTES
      · refine Loop.stuck hover ?_
        cases hpick : actor.pickMemoryVictim env with
        | none => rfl
        | some victim =>
            obtain ⟨entry, hentry, -⟩ := mem_of_pickMemoryVictim hpick
            rw [hnone] at hentry
            contradiction
      · exact Loop.within (Nat.not_lt.mp hover)
  | succ fuel ih =>
      unfold evictUnderMemoryBudget
      by_cases hover : actor.memoryByteTotal > MEMORY_BUDGET_BYTES
      · rw [if_pos hover]
        cases hpick : actor.pickMemoryVictim env with
        | none => exact Loop.stuck hover hpick
        | some victim =>
            obtain ⟨entry, hentry, -⟩ := mem_of_pickMemoryVictim hpick
            have hless := length_evictVictim hentry
            exact Loop.turn hover hpick (ih (by omega))
      · rw [if_neg hover]
        exact Loop.within (Nat.not_lt.mp hover)

theorem loop_evictUntilUnderMemoryBudget (env : Env) (actor : AssetActor) :
    Loop env actor (actor.evictUntilUnderMemoryBudget env) :=
  loop_evictUnderMemoryBudget env (Nat.le_refl _)

/-- A pinned entry is a victim where there are only pinned ones. -/
theorem pinned_of_pickMemoryVictim {env : Env} {actor : AssetActor}
    {victim : String} {entry : Entry} (hkeys : actor.entries.keys.Nodup)
    (hpick : actor.pickMemoryVictim env = some victim)
    (hget : actor.entries.get? victim = some entry)
    (hpinned : entry.retention.isPinned) : actor.AllPinnedInMemory := by
  obtain ⟨plain, pinned, horder, hplain, hlast⟩ :=
    memoryOrder_split env actor
  rw [pickMemoryVictim_eq] at hpick
  obtain ⟨found, hhead, rfl⟩ := Option.map_eq_some_iff.mp hpick
  have hfound : found ∈ actor.entries :=
    (mem_memoryOrder.mp (List.mem_of_head? hhead)).1
  have hvalue : found.2 = entry :=
    Table.eq_of_mem_of_mem hkeys hfound (Table.mem_of_get? hget)
  cases plain with
  | nil =>
      intro other hother hmemory
      have hmem : other ∈ actor.memoryOrder env :=
        mem_memoryOrder.mpr ⟨hother, hmemory⟩
      rw [horder] at hmem
      exact hlast other hmem
  | cons first rest =>
      rw [horder] at hhead
      obtain rfl := Option.some.inj hhead
      have hnot := hplain first List.mem_cons_self
      rw [hvalue, hpinned] at hnot
      contradiction

/-- The loop takes a pinned entry only once all that is left is pinned. -/
theorem pinned_of_mem_victims {env : Env} {actor : AssetActor}
    {victim : String × Entry} (hvictim : victim ∈ actor.memoryVictims env)
    (hpinned : victim.2.retention.isPinned) :
    (actor.evictAll (actor.memoryVictims env)).AllPinnedInMemory := by
  obtain ⟨plain, pinned, horder, hplain, hlast⟩ :=
    memoryOrder_split env actor
  have hpre : actor.memoryVictims env <+: plain ++ pinned := by
    rw [← horder]
    exact enough_front _ _ _
  have hall : plain <+: actor.memoryVictims env := by
    refine (List.prefix_or_prefix_of_prefix hpre
      (List.prefix_append plain pinned)).resolve_left fun hfront => ?_
    rw [hplain victim (hfront.subset hvictim)] at hpinned
    contradiction
  intro other hother hmemory
  rw [entries_evictAll] at hother
  obtain ⟨hheld, hkept⟩ := List.mem_filter.mp hother
  have hmem : other ∈ actor.memoryOrder env :=
    mem_memoryOrder.mpr ⟨hheld, hmemory⟩
  rw [horder] at hmem
  rcases List.mem_append.mp hmem with hfirst | hsecond
  · have hgone : other.1 ∈ Table.keys (actor.memoryVictims env) :=
      List.mem_map.mpr ⟨other, hall.subset hfirst, rfl⟩
    simp [hgone] at hkept
  · exact hlast other hsecond

/-! ### Totals -/

section

variable {env : Env} {actor next : AssetActor}

theorem Exact.evictEntry (h : actor.Exact) (id : String) :
    (actor.evictEntry id).Exact := by
  have htotal := h.total
  constructor
  · rw [entries_evictEntry]
    exact Table.nodup_keys_remove h.keys id
  · rw [entries_evictEntry]
    cases hget : actor.entries.get? id with
    | none =>
        rw [Table.remove_of_not_mem (Table.get?_eq_none.mp hget)]
        simpa [AssetActor.evictEntry, hget] using htotal
    | some entry =>
        have hless := Table.total_remove Entry.memoryLen h.keys hget
        cases hstorage : entry.storage with
        | memory bytes =>
            simp only [Entry.memoryLen, Entry.tier, hstorage,
              ↓reduceIte] at hless
            simp only [AssetActor.evictEntry, hget, hstorage]
            omega
        | disk path =>
            simp only [Entry.memoryLen, Entry.tier, hstorage, reduceCtorEq,
              ↓reduceIte] at hless
            simp only [AssetActor.evictEntry, hget, hstorage]
            omega

theorem Exact.evictVictim (h : actor.Exact) (victim : String) :
    (actor.evictVictim victim).Exact :=
  ⟨(h.evictEntry victim).keys, (h.evictEntry victim).total⟩

/-- The loop ends within the budget. -/
theorem Exact.loop (h : actor.Exact) (hloop : Loop env actor next) :
    next.Exact ∧ next.memoryByteTotal ≤ MEMORY_BUDGET_BYTES := by
  induction hloop with
  | within hle => exact ⟨h, hle⟩
  | stuck hover hpick =>
      have hzero := total_eq_zero fun _ => memoryLen_of_no_victim hpick
      rw [h.total, hzero] at hover
      contradiction
  | turn hover hpick hrest ih => exact ih (h.evictVictim _)

theorem memoryByteTotal_evictEntry_le (actor : AssetActor) (id : String) :
    (actor.evictEntry id).memoryByteTotal ≤ actor.memoryByteTotal := by
  unfold AssetActor.evictEntry
  split
  · exact Nat.le_refl _
  · dsimp only
    split
    · exact Nat.sub_le _ _
    · exact Nat.le_refl _

theorem Remembers.evictEntry (h : actor.Remembers) (id : String) :
    (actor.evictEntry id).Remembers where
  exact := h.exact.evictEntry id
  within := (memoryByteTotal_evictEntry_le actor id).trans h.within
  undated entry hentry := by
    rw [entries_evictEntry] at hentry
    exact h.undated entry (List.mem_filter.mp hentry).1

theorem Remembers.emit (h : actor.Remembers) (event : AssetCacheEvent) :
    (actor.emit event).Remembers :=
  ⟨⟨h.exact.keys, h.exact.total⟩, h.within, h.undated⟩

theorem Remembers.evictVictim (h : actor.Remembers) (victim : String) :
    (actor.evictVictim victim).Remembers :=
  (h.evictEntry victim).emit _

theorem Remembers.foldl_evictVictim (h : actor.Remembers)
    (victims : List String) :
    (victims.foldl AssetActor.evictVictim actor).Remembers := by
  induction victims generalizing actor with
  | nil => exact h
  | cons victim rest ih => exact ih (h.evictVictim victim)

theorem Remembers.tick (h : actor.Remembers) : actor.tick.Remembers :=
  ⟨⟨h.exact.keys, h.exact.total⟩, h.within, h.undated⟩

theorem undated_put {id : String} {entry : Entry} (h : actor.Undated)
    (hentries : next.entries = actor.entries.put id entry)
    (hentry : entry.retention.isPinned → entry.ttlDeadline = none) :
    next.Undated := by
  intro other hother
  rw [hentries] at hother
  rcases Table.mem_put hother with rfl | hheld
  · exact hentry
  · exact h other hheld

theorem ttlDeadlineFor_of_pinned {retention : Retention}
    (h : retention.isPinned) : ttlDeadlineFor env retention = none := by
  cases hlifetime : retention.lifetime <;>
    simp [Retention.isPinned, ttlDeadlineFor, Retention.ttlSeconds, hlifetime]
      at h ⊢

/-- An entry that brings no bytes into memory, or as many as were there. -/
theorem Remembers.put {id : String} {entry : Entry} (h : actor.Remembers)
    (hentries : next.entries = actor.entries.put id entry)
    (hkept : next.memoryByteTotal = actor.memoryByteTotal)
    (hlen : entry.memoryLen =
      ((actor.entries.get? id).map Entry.memoryLen).getD 0)
    (hentry : entry.retention.isPinned → entry.ttlDeadline = none) :
    next.Remembers := by
  refine ⟨⟨?_, ?_⟩, hkept ▸ h.within, undated_put h.undated hentries hentry⟩
  · rw [hentries]
    exact Table.nodup_keys_put h.exact.keys id entry
  · rw [hkept, hentries, h.exact.total]
    cases hget : actor.entries.get? id with
    | none =>
        rw [hget] at hlen
        have htotal := Table.total_put_of_none Entry.memoryLen entry hget
        simp only [Option.map_none, Option.getD_none] at hlen
        omega
    | some old =>
        rw [hget] at hlen
        have htotal := Table.total_put_of_some Entry.memoryLen entry hget
        simp only [Option.map_some, Option.getD_some] at hlen
        omega

/-! ### Commands -/

theorem Remembers.insertMemory {id : String} (h : actor.Remembers)
    (hget : actor.entries.get? id = none) (bytes : Bytes)
    (mime : Option String) (retention : Retention) :
    (actor.insertMemory env id bytes mime retention).1.Remembers := by
  have hsum : saturatingAdd actor.memoryByteTotal bytes.len =
      actor.memoryByteTotal + bytes.len := by
    have hlen : bytes.len ≤ ISIZE_MAX := bytes.2
    have hwithin := h.within
    unfold saturatingAdd
    unfold ISIZE_MAX at hlen
    unfold MEMORY_BUDGET_BYTES at hwithin
    unfold USIZE_MAX
    omega
  have hheld : (actor.heldInMemory env id bytes mime retention).Exact := by
    refine ⟨nodup_heldInMemory h.exact.keys id bytes mime retention, ?_⟩
    refine Eq.trans ?_ (Table.total_put_of_none Entry.memoryLen _ hget).symm
    rw [← h.exact.total]
    exact hsum
  obtain ⟨hexact, hwithin⟩ :=
    hheld.loop (loop_evictUntilUnderMemoryBudget env _)
  have hundated : (actor.heldInMemory env id bytes mime retention).Undated :=
    undated_put h.undated rfl ttlDeadlineFor_of_pinned
  have hkept : ((actor.heldInMemory env id bytes mime
      retention).evictUntilUnderMemoryBudget env).Remembers :=
    ⟨hexact, hwithin, fun entry hentry => hundated entry
      ((evictUntilUnderMemoryBudget_shrunk env _).mem hentry)⟩
  exact hkept.emit _

theorem Remembers.enforceDiskLimits {minFree : Nat} (h : actor.Remembers)
    (hfits : minFree ≤ U64_MAX) :
    (actor.enforceDiskLimits env minFree).Remembers := by
  rw [enforceDiskLimits_eq hfits h.exact.keys]
  exact h.foldl_evictVictim _

theorem Remembers.makeDiskRoom (h : actor.Remembers) (id : String)
    (pinned : Bool) : (actor.makeDiskRoom env id pinned).1.Remembers := by
  have hroom : (actor.evictUntilUnderDiskBudget env).Remembers :=
    h.enforceDiskLimits (by decide)
  unfold AssetActor.makeDiskRoom
  dsimp only
  split
  · exact hroom.evictEntry id
  · exact hroom

theorem Remembers.announce {id : String}
    {result : AssetActor × Except AssetError Unit}
    (h : result.1.Remembers) :
    (AssetActor.announce id result).1.Remembers := by
  obtain ⟨actor, result⟩ := result
  cases result with
  | ok => exact h.emit _
  | error => exact h

theorem Remembers.insertPlaced {id : String} (h : actor.Remembers)
    (hget : actor.entries.get? id = none) (dest : Path) (byteLen : Nat)
    (mime : Option String) (retention : Retention) :
    (actor.insertPlaced env id dest byteLen mime retention).1.Remembers := by
  have hheld :
      (actor.heldOnDisk env id dest byteLen mime retention).Remembers := by
    refine h.put rfl rfl ?_ ttlDeadlineFor_of_pinned
    rw [hget]
    rfl
  unfold AssetActor.insertPlaced
  dsimp only
  split
  · exact ⟨⟨h.exact.keys, h.exact.total⟩, h.within, h.undated⟩
  · exact (hheld.makeDiskRoom id retention.isPinned).announce

variable {safeBlobName : String → String}

theorem Remembers.handleInsert (h : actor.Remembers) (id : String)
    (bytes : Bytes) (mime : Option String) (retention : Retention) :
    (actor.handleInsert safeBlobName env id bytes mime
      retention).1.Remembers := by
  have hevicted := h.evictEntry id
  have hget := get?_evictEntry_self actor id
  unfold AssetActor.handleInsert
  split
  · exact h
  · dsimp only
    split
    · exact hevicted.insertMemory hget bytes mime retention
    · split
      · exact hevicted
      · exact hevicted.insertPlaced hget _ _ mime retention

theorem Remembers.handleInsertFromPath (h : actor.Remembers) (id : String)
    (source : Path) (mime : Option String) (retention : Retention) :
    (actor.handleInsertFromPath safeBlobName env id source mime
      retention).1.Remembers := by
  have hevicted := h.evictEntry id
  have hget := get?_evictEntry_self actor id
  unfold AssetActor.handleInsertFromPath
  split
  · exact h
  · split
    · exact h
    · dsimp only
      split
      · split
        · exact hevicted
        · exact hevicted.insertPlaced hget _ _ mime retention
      · split
        · exact hevicted
        · exact hevicted.insertMemory hget _ mime retention

theorem memoryLen_of_get? {id : String} {old new : Entry}
    (hget : actor.entries.get? id = some old)
    (hlen : new.byteLen = old.byteLen) (hstorage : new.storage = old.storage) :
    new.memoryLen = ((actor.entries.get? id).map Entry.memoryLen).getD 0 := by
  rw [hget, Option.map_some, Option.getD_some, Entry.memoryLen,
    Entry.memoryLen, Entry.tier, Entry.tier, hlen, hstorage]

theorem Remembers.handleSetRetention (h : actor.Remembers) (id : String)
    (retention : Retention) :
    (actor.handleSetRetention env id retention).1.Remembers := by
  unfold AssetActor.handleSetRetention
  cases hget : actor.entries.get? id with
  | none => exact h
  | some entry =>
      dsimp only
      split
      · exact h
      · have hput : { actor with
            entries := actor.entries.put id
              { entry with
                retention := retention
                ttlDeadline := ttlDeadlineFor env retention } }.Remembers :=
          h.put rfl rfl (memoryLen_of_get? hget rfl rfl)
            ttlDeadlineFor_of_pinned
        split
        · exact hput
        · split
          · exact hput
          · exact hput

theorem Remembers.handleGet (h : actor.Remembers) (id : String) :
    (actor.handleGet env id).1.Remembers := by
  unfold AssetActor.handleGet
  dsimp only
  cases hget : actor.tick.entries.get? id with
  | none => exact h.tick
  | some entry =>
      have hput : { actor.tick with
          entries := actor.tick.entries.put id
            { entry with
              accessedAt := env.now
              lruSeq := actor.tick.lruClock } }.Remembers := by
        refine h.tick.put rfl rfl (memoryLen_of_get? hget rfl rfl) ?_
        exact h.undated (id, entry) (Table.mem_of_get? hget)
      dsimp only
      split
      · exact hput
      · split
        · exact hput
        · exact ⟨⟨hput.exact.keys, hput.exact.total⟩, hput.within,
            hput.undated⟩

/-- Every command keeps the memory within its budget. -/
theorem Remembers.handle (h : actor.Remembers) (command : Command) :
    (actor.handle safeBlobName env command).1.Remembers := by
  cases command with
  | insert id bytes mime retention =>
      exact h.handleInsert id bytes mime retention
  | insertFromPath id source mime retention =>
      exact h.handleInsertFromPath id source mime retention
  | setRetention id retention => exact h.handleSetRetention id retention
  | get id => exact h.handleGet id
  | contains id => exact h
  | clear id =>
      simp only [AssetActor.handle, handleClear]
      split
      · exact h.evictVictim id
      · exact h
  | reserveDisk needBytes => exact h.enforceDiskLimits (Nat.min_le_right _ _)
  | sweep =>
      have hswept : (actor.ttlSweep env).Remembers := h.foldl_evictVictim _
      exact ⟨⟨hswept.exact.keys, hswept.exact.total⟩, hswept.within,
        hswept.undated⟩

/-- The cache starts with nothing in memory, whatever rows it finds. -/
theorem Remembers.recoverRows (h : actor.Remembers)
    (hdisk : ∀ entry ∈ actor.entries, entry.2.tier = .disk)
    (rows : List (String × Row)) :
    (rows.foldl (AssetActor.recoverRow env) actor).Remembers := by
  induction rows generalizing actor with
  | nil => exact h
  | cons row rest ih =>
      rw [List.foldl_cons]
      unfold AssetActor.recoverRow
      split
      · exact ih h hdisk
      · dsimp only
        refine ih (h.put rfl rfl ?_ fun _ => rfl) fun entry hentry => ?_
        · cases hget : actor.entries.get? row.1 with
          | none => rfl
          | some old =>
              have hold : old.tier = .disk :=
                hdisk (row.1, old) (Table.mem_of_get? hget)
              show 0 = old.memoryLen
              simp [Entry.memoryLen, hold]
        · rcases Table.mem_put hentry with rfl | hheld
          · rfl
          · exact hdisk entry hheld

/-- The cache with the rows that it finds, before any is evicted. -/
def recovered (env : Env) (blobsDir : Path) (rows : Table String Row) :
    AssetActor :=
  (rows.mergeSort fun left right =>
    left.2.accessedAt ≤ right.2.accessedAt).foldl (recoverRow env)
      (AssetActor.new blobsDir)

theorem Remembers.recovered (env : Env) (blobsDir : Path)
    (rows : Table String Row) :
    (AssetActor.recovered env blobsDir rows).Remembers := by
  have hnew : (AssetActor.new blobsDir).Remembers :=
    ⟨⟨List.nodup_nil, rfl⟩, Nat.zero_le _, fun _ hmem => (nomatch hmem)⟩
  exact hnew.recoverRows (fun _ hmem => (nomatch hmem)) _

theorem Remembers.bootstrap (env : Env) (blobsDir : Path)
    (rows : Table String Row) :
    (AssetActor.bootstrap env blobsDir rows).Remembers :=
  (Remembers.recovered env blobsDir rows).enforceDiskLimits (by decide)

/-! ### Pinned entries -/

/-- The command is about the entry, which it may replace or take away. -/
def Targets (id : String) : Command → Prop
  | .insert target _ _ _ => target = id
  | .insertFromPath target _ _ _ => target = id
  | .clear target => target = id
  | _ => False

theorem PinsInMemory.evictEntry {id other : String} (h : actor.PinsInMemory id)
    (hne : other ≠ id) : (actor.evictEntry other).PinsInMemory id := by
  obtain ⟨entry, hget, hkept⟩ := h
  refine ⟨entry, ?_, hkept⟩
  rw [entries_evictEntry, Table.get?_remove_of_ne _ (Ne.symm hne)]
  exact hget

theorem PinsInMemory.put {id other : String} {entry : Entry}
    (h : actor.PinsInMemory id) (hne : other ≠ id)
    (hentries : next.entries = actor.entries.put other entry) :
    next.PinsInMemory id := by
  obtain ⟨held, hget, hkept⟩ := h
  refine ⟨held, ?_, hkept⟩
  rw [hentries, Table.get?_put_of_ne _ _ (Ne.symm hne)]
  exact hget

theorem PinsInMemory.isSome {id : String} (h : actor.PinsInMemory id) :
    (actor.entries.get? id).isSome := by
  obtain ⟨entry, hget, -⟩ := h
  rw [hget]
  rfl

/-- What is evicted for the disk leaves the memory alone. -/
theorem PinsInMemory.enforceDiskLimits {id : String} {minFree : Nat}
    (h : actor.PinsInMemory id) (hfits : minFree ≤ U64_MAX)
    (hkeys : actor.entries.keys.Nodup) :
    (actor.enforceDiskLimits env minFree).PinsInMemory id := by
  obtain ⟨entry, hget, hmemory, hpinned⟩ := h
  refine ⟨entry, ?_, hmemory, hpinned⟩
  rw [enforceDiskLimits_eq hfits hkeys, entries_evictAll, Table.get?_filter,
    hget]
  intro value hvalue
  rw [decide_eq_true_eq]
  intro hvictim
  obtain ⟨victim, hin, hsame⟩ := List.mem_map.mp hvictim
  obtain ⟨hentry, hdisk⟩ := disk_of_mem_victims hin
  rw [eq_of_key hkeys hentry (Table.mem_of_get? hget) hsame, hmemory] at hdisk
  contradiction

theorem PinsInMemory.makeDiskRoom {id other : String}
    (h : actor.PinsInMemory id) (hne : other ≠ id)
    (hkeys : actor.entries.keys.Nodup) (pinned : Bool) :
    (actor.makeDiskRoom env other pinned).1.PinsInMemory id := by
  have hroom : (actor.evictUntilUnderDiskBudget env).PinsInMemory id :=
    h.enforceDiskLimits (by decide) hkeys
  unfold AssetActor.makeDiskRoom
  dsimp only
  split
  · exact hroom.evictEntry hne
  · exact hroom

theorem PinsInMemory.announce {id other : String}
    {result : AssetActor × Except AssetError Unit}
    (h : result.1.PinsInMemory id) :
    (AssetActor.announce other result).1.PinsInMemory id := by
  obtain ⟨actor, result⟩ := result
  cases result with
  | ok => exact h
  | error => exact h

theorem PinsInMemory.insertPlaced {id other : String}
    (h : actor.PinsInMemory id) (hne : other ≠ id)
    (hkeys : actor.entries.keys.Nodup) (dest : Path) (byteLen : Nat)
    (mime : Option String) (retention : Retention) :
    (actor.insertPlaced env other dest byteLen mime
      retention).1.PinsInMemory id := by
  have hheld : (actor.heldOnDisk env other dest byteLen mime
      retention).PinsInMemory id := h.put hne rfl
  have hroom := @PinsInMemory.makeDiskRoom env _ _ _ hheld hne
    (nodup_heldOnDisk hkeys other dest byteLen mime retention)
    retention.isPinned
  unfold AssetActor.insertPlaced
  dsimp only
  split
  · exact h
  · exact hroom.announce

/-- A new entry in memory takes the place of a pinned one only once all that is
left is pinned. -/
theorem PinsInMemory.insertMemory {id other : String}
    (h : actor.PinsInMemory id) (hne : other ≠ id)
    (hkeys : actor.entries.keys.Nodup) (bytes : Bytes) (mime : Option String)
    (retention : Retention) :
    ((actor.insertMemory env other bytes mime
        retention).1.entries.get? id).isSome ∨
      (actor.insertMemory env other bytes mime
        retention).1.AllPinnedInMemory := by
  have hheld : (actor.heldInMemory env other bytes mime
      retention).PinsInMemory id := h.put hne rfl
  obtain ⟨entry, hget, -, hpinned⟩ := hheld
  have hnodup := @nodup_heldInMemory env _ hkeys other bytes mime
    retention
  rw [insertMemory_eq hkeys]
  generalize actor.heldInMemory env other bytes mime retention = held
    at hget hnodup ⊢
  by_cases hvictim : id ∈ Table.keys (held.memoryVictims env)
  · right
    obtain ⟨victim, hin, hsame⟩ := List.mem_map.mp hvictim
    have hentry := (mem_memoryOrder.mp ((enough_front _ _ _).subset hin)).1
    have hvalue := eq_of_key hnodup hentry (Table.mem_of_get? hget) hsame
    exact pinned_of_mem_victims hin (hvalue ▸ hpinned)
  · left
    show ((held.evictAll _).entries.get? id).isSome
    rw [entries_evictAll, Table.get?_filter, hget]
    · rfl
    · intro value _
      simpa using hvictim

variable {safeBlobName : String → String}

theorem PinsInMemory.handleInsert {id other : String}
    (h : actor.PinsInMemory id) (hne : other ≠ id)
    (hkeys : actor.entries.keys.Nodup) (bytes : Bytes) (mime : Option String)
    (retention : Retention) :
    ((actor.handleInsert safeBlobName env other bytes mime
        retention).1.entries.get? id).isSome ∨
      (actor.handleInsert safeBlobName env other bytes mime
        retention).1.AllPinnedInMemory := by
  have hevicted := h.evictEntry hne
  have hnodup : (actor.evictEntry other).entries.keys.Nodup := by
    rw [entries_evictEntry]
    exact Table.nodup_keys_remove hkeys other
  unfold AssetActor.handleInsert
  split
  · exact Or.inl h.isSome
  · dsimp only
    split
    · exact hevicted.insertMemory hne hnodup bytes mime retention
    · split
      · exact Or.inl hevicted.isSome
      · exact Or.inl
          (hevicted.insertPlaced hne hnodup _ _ mime retention).isSome

theorem PinsInMemory.handleInsertFromPath {id other : String}
    (h : actor.PinsInMemory id) (hne : other ≠ id)
    (hkeys : actor.entries.keys.Nodup) (source : Path) (mime : Option String)
    (retention : Retention) :
    ((actor.handleInsertFromPath safeBlobName env other source mime
        retention).1.entries.get? id).isSome ∨
      (actor.handleInsertFromPath safeBlobName env other source mime
        retention).1.AllPinnedInMemory := by
  have hevicted := h.evictEntry hne
  have hnodup : (actor.evictEntry other).entries.keys.Nodup := by
    rw [entries_evictEntry]
    exact Table.nodup_keys_remove hkeys other
  unfold AssetActor.handleInsertFromPath
  split
  · exact Or.inl h.isSome
  · split
    · exact Or.inl h.isSome
    · dsimp only
      split
      · split
        · exact Or.inl hevicted.isSome
        · exact Or.inl
            (hevicted.insertPlaced hne hnodup _ _ mime retention).isSome
      · split
        · exact Or.inl hevicted.isSome
        · exact hevicted.insertMemory hne hnodup _ mime retention

theorem isSome_put {id other : String} {entry : Entry}
    (h : (actor.entries.get? id).isSome) :
    ((actor.entries.put other entry).get? id).isSome := by
  by_cases hsame : id = other
  · rw [hsame, Table.get?_put_self]
    rfl
  · rwa [Table.get?_put_of_ne _ _ hsame]

theorem isSome_handleSetRetention {id : String} (other : String)
    (retention : Retention) (h : (actor.entries.get? id).isSome) :
    ((actor.handleSetRetention env other retention).1.entries.get?
      id).isSome := by
  unfold AssetActor.handleSetRetention
  split
  · exact h
  · split
    · exact h
    · dsimp only
      split
      · exact isSome_put h
      · split
        · exact isSome_put h
        · exact isSome_put h

theorem isSome_handleGet {id : String} (other : String)
    (h : (actor.entries.get? id).isSome) :
    ((actor.handleGet env other).1.entries.get? id).isSome := by
  unfold AssetActor.handleGet
  dsimp only
  split
  · exact h
  · split
    · exact isSome_put h
    · split
      · exact isSome_put h
      · exact isSome_put h

/-- What is pinned does not expire. -/
theorem PinsInMemory.ttlSweep {id : String} (h : actor.PinsInMemory id)
    (hremembers : actor.Remembers) : (actor.ttlSweep env).PinsInMemory id := by
  obtain ⟨entry, hget, hmemory, hpinned⟩ := h
  have hlive : id ∉ Table.keys ((actor.walk env).filter (expired env)) := by
    intro hmem
    obtain ⟨found, hfound, hsame⟩ := List.mem_map.mp hmem
    obtain ⟨hwalk, hexpired⟩ := List.mem_filter.mp hfound
    have hvalue := eq_of_key hremembers.exact.keys (mem_walk.mp hwalk)
      (Table.mem_of_get? hget) hsame
    have hnone := hremembers.undated found (mem_walk.mp hwalk)
      (hvalue ▸ hpinned)
    simp [expired, hnone] at hexpired
  refine ⟨entry, ?_, hmemory, hpinned⟩
  show ((actor.evictAll _).entries.get? id) = _
  rw [entries_evictAll, Table.get?_filter, hget]
  intro value _
  simpa using hlive

/-- Of the commands about other entries, one that takes a pinned entry out of
the memory leaves nothing there that is not pinned. -/
theorem Remembers.pinned_last {id : String} {command : Command}
    (hremembers : actor.Remembers) (h : actor.PinsInMemory id)
    (hother : ¬ Targets id command) :
    ((actor.handle safeBlobName env command).1.entries.get? id).isSome ∨
      (actor.handle safeBlobName env command).1.AllPinnedInMemory := by
  have hkeys := hremembers.exact.keys
  cases command with
  | insert other bytes mime retention =>
      exact h.handleInsert hother hkeys bytes mime retention
  | insertFromPath other source mime retention =>
      exact h.handleInsertFromPath hother hkeys source mime retention
  | setRetention other retention =>
      exact Or.inl (isSome_handleSetRetention other retention h.isSome)
  | get other => exact Or.inl (isSome_handleGet other h.isSome)
  | contains other => exact Or.inl h.isSome
  | clear other =>
      simp only [AssetActor.handle, handleClear]
      split
      · exact Or.inl (h.evictEntry hother).isSome
      · exact Or.inl h.isSome
  | reserveDisk needBytes =>
      exact Or.inl
        (h.enforceDiskLimits (Nat.min_le_right _ _) hkeys).isSome
  | sweep => exact Or.inl (h.ttlSweep hremembers).isSome

end

/-- After every command the memory is within its budget and its total exact; a
command that takes a pinned entry out of the memory, other than by its id,
leaves only pinned ones there; the loop over the budget ends; and where it picks
a pinned entry, there is no other kind in memory. -/
theorem memory_within_budget (safeBlobName : String → String) (env : Env)
    (blobsDir : Path) (rows : Table String Row) (turns : List (Env × Command))
    (count : Nat) :
    (Transition.reached (step safeBlobName) (bootstrap env blobsDir rows) turns
        count).memoryByteTotal ≤ MEMORY_BUDGET_BYTES ∧
      (Transition.reached (step safeBlobName) (bootstrap env blobsDir rows)
          turns count).memoryByteTotal =
        Table.total Entry.memoryLen (Transition.reached (step safeBlobName)
          (bootstrap env blobsDir rows) turns count).entries ∧
      (∀ turn, turns[count]? = some turn → ∀ id,
        (Transition.reached (step safeBlobName) (bootstrap env blobsDir rows)
          turns count).PinsInMemory id → ¬ Targets id turn.2 →
        ((Transition.reached (step safeBlobName) (bootstrap env blobsDir rows)
            turns (count + 1)).entries.get? id).isSome ∨
          (Transition.reached (step safeBlobName)
            (bootstrap env blobsDir rows) turns
              (count + 1)).AllPinnedInMemory) ∧
      (∀ (env : Env) (actor : AssetActor),
        Loop env actor (actor.evictUntilUnderMemoryBudget env)) ∧
      ∀ (env : Env) (actor : AssetActor) (victim : String) (entry : Entry),
        actor.entries.keys.Nodup → actor.pickMemoryVictim env = some victim →
        actor.entries.get? victim = some entry → entry.retention.isPinned →
        actor.AllPinnedInMemory := by
  have hreached := @Transition.reached_always _ _ (step safeBlobName)
    Remembers _ (Remembers.bootstrap env blobsDir rows)
    (fun turn h => h.handle turn.2) turns count
  refine ⟨hreached.within, hreached.exact.total, ?_,
    loop_evictUntilUnderMemoryBudget,
    fun _ _ _ _ => pinned_of_pickMemoryVictim⟩
  intro turn hturn id hpins hother
  rw [Transition.reached_succ hturn]
  exact hreached.pinned_last hpins hother

end AssetActor

end Asset

end Bridgething
