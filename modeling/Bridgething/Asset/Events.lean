/-
The events of the asset cache: an entry announced as ready is there, unless an
insert announces what it has evicted, or fails where an entry was.
-/
import Bridgething.Asset.MemoryBudget

namespace Bridgething

namespace Asset

open Ranking

def AssetCacheEvent.id : AssetCacheEvent → String
  | .ready id => id
  | .cleared id => id

namespace AssetActor

/-- The last event of an id is that it is ready. -/
def AnnouncedReady (actor : AssetActor) (id : String) : Prop :=
  actor.events.reverse.find? (fun event => event.id = id) = some (.ready id)

instance (actor : AssetActor) (id : String) :
    Decidable (actor.AnnouncedReady id) :=
  inferInstanceAs (Decidable (_ = _))

/-- What was last announced as ready is in the cache. -/
def Truthful (actor : AssetActor) : Prop :=
  ∀ id, actor.AnnouncedReady id → (actor.entries.get? id).isSome

/-- The bytes of the entries that go before one of some id does. -/
def bytesAhead (id : String) (order : List (String × Entry)) : Nat :=
  totalBytes (order.takeWhile fun entry => entry.1 ≠ id)

/-- The entries that would go before this one come to what the budget asks
for. -/
def StaysInMemory (env : Env) (actor : AssetActor) (id : String) : Prop :=
  actor.memoryByteTotal - MEMORY_BUDGET_BYTES ≤
    bytesAhead id (actor.memoryOrder env)

/-- What is pinned goes only for free space, and after all that is not. -/
def StaysOnDisk (env : Env) (actor : AssetActor) (id : String)
    (pinned : Bool) : Prop :=
  match pinned with
  | false =>
      max (actor.diskByteTotal - DISK_BUDGET_BYTES)
          (DISK_FREE_HEADROOM_BYTES - env.free) ≤
        bytesAhead id (actor.diskOrder env false)
  | true =>
      DISK_FREE_HEADROOM_BYTES - env.free ≤
        totalBytes (actor.diskOrder env false) +
          bytesAhead id (actor.diskOrder env true)

/-- The total once all that is not pinned is gone, and of what is pinned as much
as the headroom asks for. -/
def leftOnDisk (env : Env) (actor : AssetActor) : Nat :=
  actor.diskByteTotal - totalBytes (actor.diskOrder env false) -
    totalBytes (enough bytesOf
      (DISK_FREE_HEADROOM_BYTES - env.free -
        totalBytes (actor.diskOrder env false)) (actor.diskOrder env true))

/-- A blob in its place: the entry stays, or it was not announced before. -/
def HonestPlaced (env : Env) (actor : AssetActor) (id : String) (dest : Path)
    (byteLen : Nat) (mime : Option String) (retention : Retention) : Prop :=
  let held := actor.heldOnDisk env id dest byteLen mime retention
  if retention.isDiskPersisted ∧ env.fails (.upsertRow id) then
    ¬ actor.AnnouncedReady id
  else if held.leftOnDisk env > DISK_BUDGET_BYTES ∧ retention.isPinned then
    ¬ (actor.AnnouncedReady id ∧ held.StaysOnDisk env id retention.isPinned)
  else held.StaysOnDisk env id retention.isPinned

/-- An insert that will not fail has room for its entry, and one that will fail
is for an id whose last event is not that it is ready. -/
def Honest (safeBlobName : String → String) (env : Env) (actor : AssetActor) :
    Command → Prop
  | .insert id bytes mime retention =>
      bytes.1 ≠ [] →
      match retention.tier with
      | .memory =>
          ((actor.evictEntry id).heldInMemory env id bytes mime
            retention).StaysInMemory env id
      | .disk =>
          if env.fails (.write (actor.blobPath safeBlobName id)) then
            ¬ actor.AnnouncedReady id
          else (actor.evictEntry id).HonestPlaced env id
            (actor.blobPath safeBlobName id) bytes.len mime retention
  | .insertFromPath id source mime retention =>
      ∀ bytes, env.file source = some bytes → bytes.1 ≠ [] →
      match retention.tier with
      | .memory =>
          if env.fails (.read source) then ¬ actor.AnnouncedReady id
          else ((actor.evictEntry id).heldInMemory env id bytes mime
            retention).StaysInMemory env id
      | .disk =>
          if env.fails (.rename source (actor.blobPath safeBlobName id)) then
            ¬ actor.AnnouncedReady id
          else (actor.evictEntry id).HonestPlaced env id
            (actor.blobPath safeBlobName id) bytes.len mime retention
  | _ => True

/-! ### Who is evicted -/

section

variable {env : Env} {actor : AssetActor} {id : String}

/-- An entry of an order is taken from its front if and only if those ahead of
it do not come to what is needed. -/
theorem mem_keys_enough_iff {order : List (String × Entry)} {need : Nat}
    (hmem : id ∈ Table.keys order) :
    id ∈ Table.keys (enough bytesOf need order) ↔
      bytesAhead id order < need := by
  induction order generalizing need with
  | nil => contradiction
  | cons first rest ih =>
      by_cases hsame : first.1 = id
      · have hahead : bytesAhead id (first :: rest) = 0 := by
          simp [bytesAhead, totalBytes, hsame]
        rw [hahead]
        rcases Nat.eq_zero_or_pos need with rfl | hneed
        · simp [Table.keys]
        · rw [enough_cons _ _ _ hneed]
          simp [Table.keys, hsame, hneed]
      · have hrest : id ∈ Table.keys rest :=
          (List.mem_cons.mp hmem).resolve_left (Ne.symm hsame)
        have hahead : bytesAhead id (first :: rest) =
            bytesOf first + bytesAhead id rest := by
          simp [bytesAhead, totalBytes, hsame]
        rw [hahead]
        rcases Nat.eq_zero_or_pos need with rfl | hneed
        · simp [Table.keys]
        · rw [enough_cons _ _ _ hneed]
          have hkeys : id ∈ Table.keys (first ::
              enough bytesOf (need - bytesOf first) rest) ↔
              id ∈ Table.keys (enough bytesOf (need - bytesOf first) rest) :=
            List.mem_cons.trans (or_iff_right (Ne.symm hsame))
          rw [hkeys, ih hrest]
          omega

theorem totalBytes_enough_le (need : Nat) (order : List (String × Entry)) :
    totalBytes (enough bytesOf need order) ≤ totalBytes order := by
  obtain ⟨rest, hrest⟩ := enough_front bytesOf need order
  unfold totalBytes
  nth_rewrite 2 [← hrest]
  rw [List.map_append, List.sum_append]
  exact Nat.le_add_right _ _

/-- A new entry in memory is evicted if and only if it does not stay. -/
theorem mem_memoryVictims_iff {entry : Entry}
    (hget : actor.entries.get? id = some entry)
    (hmemory : entry.tier = .memory) :
    id ∈ Table.keys (actor.memoryVictims env) ↔
      ¬ actor.StaysInMemory env id := by
  have hmem : id ∈ Table.keys (actor.memoryOrder env) :=
    List.mem_map.mpr ⟨(id, entry),
      mem_memoryOrder.mpr ⟨Table.mem_of_get? hget, hmemory⟩, rfl⟩
  rw [memoryVictims, mem_keys_enough_iff hmem, StaysInMemory, Nat.not_le]

theorem mem_keys_diskOrder_iff {entry : Entry} {pinned : Bool}
    (hkeys : actor.entries.keys.Nodup)
    (hget : actor.entries.get? id = some entry) (hdisk : entry.tier = .disk) :
    id ∈ Table.keys (actor.diskOrder env pinned) ↔
      entry.retention.isPinned = pinned := by
  constructor
  · intro hmem
    obtain ⟨found, hfound, hsame⟩ := List.mem_map.mp hmem
    obtain ⟨hentry, -, hpinned⟩ := mem_diskOrder.mp hfound
    rwa [eq_of_key hkeys hentry (Table.mem_of_get? hget) hsame] at hpinned
  · intro hpinned
    exact List.mem_map.mpr ⟨(id, entry),
      mem_diskOrder.mpr ⟨Table.mem_of_get? hget, hdisk, hpinned⟩, rfl⟩

theorem not_mem_keys_enough {order : List (String × Entry)} {need : Nat}
    (hmem : id ∉ Table.keys order) :
    id ∉ Table.keys (enough bytesOf need order) :=
  fun hin => hmem (((enough_front _ _ _).map Prod.fst).subset hin)

/-- The first loop has freed all the space that is asked for, and has brought
the total within the budget, or all that is not pinned is gone. -/
theorem diskVictims_covers (env : Env) (actor : AssetActor)
    (minFree free : Nat) :
    max (actor.diskByteTotal - DISK_BUDGET_BYTES) (minFree - free) ≤
        totalBytes (actor.diskVictims env minFree free) ∨
      actor.diskVictims env minFree free = actor.diskOrder env false :=
  enough_covers _ _ _

/-- A new entry on disk is evicted if and only if it does not stay. -/
theorem mem_limitVictims_iff {entry : Entry}
    (hkeys : actor.entries.keys.Nodup)
    (hget : actor.entries.get? id = some entry) (hdisk : entry.tier = .disk) :
    id ∈ Table.keys (actor.limitVictims env DISK_FREE_HEADROOM_BYTES) ↔
      ¬ actor.StaysOnDisk env id entry.retention.isPinned := by
  have hparts : id ∈ Table.keys
      (actor.limitVictims env DISK_FREE_HEADROOM_BYTES) ↔
      id ∈ Table.keys
        (actor.diskVictims env DISK_FREE_HEADROOM_BYTES env.free) ∨
      id ∈ Table.keys (enough bytesOf (DISK_FREE_HEADROOM_BYTES - env.free -
        totalBytes (actor.diskVictims env DISK_FREE_HEADROOM_BYTES env.free))
          (actor.diskOrder env true)) := by
    rw [limitVictims, Table.keys, List.map_append, List.mem_append]
    rfl
  rw [hparts]
  cases hpinned : entry.retention.isPinned with
  | false =>
      have hplain : id ∈ Table.keys (actor.diskOrder env false) :=
        (mem_keys_diskOrder_iff hkeys hget hdisk).mpr hpinned
      have hother : id ∉ Table.keys (actor.diskOrder env true) := by
        simp [mem_keys_diskOrder_iff hkeys hget hdisk, hpinned]
      rw [or_iff_left (not_mem_keys_enough hother), diskVictims,
        mem_keys_enough_iff hplain, StaysOnDisk, Nat.not_le]
  | true =>
      have hlast : id ∈ Table.keys (actor.diskOrder env true) :=
        (mem_keys_diskOrder_iff hkeys hget hdisk).mpr hpinned
      have hother : id ∉ Table.keys
          (actor.diskVictims env DISK_FREE_HEADROOM_BYTES env.free) := by
        apply not_mem_keys_enough
        simp [mem_keys_diskOrder_iff hkeys hget hdisk, hpinned]
      rw [or_iff_right hother, mem_keys_enough_iff hlast, StaysOnDisk,
        Nat.not_le]
      have hle := totalBytes_enough_le
        (max (actor.diskByteTotal - DISK_BUDGET_BYTES)
          (DISK_FREE_HEADROOM_BYTES - env.free)) (actor.diskOrder env false)
      rcases diskVictims_covers env actor DISK_FREE_HEADROOM_BYTES env.free
        with henough | hall
      · rw [diskVictims] at henough ⊢
        have hfree := (le_max_right _ _).trans henough
        omega
      · rw [hall]
        omega

/-! ### What is left on disk -/

theorem diskByteTotal_evictAll {victims : List (String × Entry)}
    (hkeys : actor.entries.keys.Nodup) (hnodup : (Table.keys victims).Nodup)
    (hmem : ∀ victim ∈ victims,
      victim ∈ actor.entries ∧ victim.2.tier = .disk) :
    (actor.evictAll victims).diskByteTotal =
      actor.diskByteTotal - totalBytes victims := by
  induction victims generalizing actor with
  | nil => rfl
  | cons victim rest ih =>
      obtain ⟨hfirst, hothers⟩ := List.nodup_cons.mp hnodup
      obtain ⟨hentry, hdisk⟩ := hmem victim List.mem_cons_self
      have hkept : ∀ other ∈ rest,
          other ∈ (actor.evictVictim victim.1).entries ∧
            other.2.tier = .disk := by
        intro other hother
        obtain ⟨hheld, htier⟩ := hmem other (List.mem_cons_of_mem _ hother)
        refine ⟨?_, htier⟩
        rw [entries_evictVictim]
        refine List.mem_filter.mpr ⟨hheld, ?_⟩
        rw [decide_eq_true_eq]
        exact fun hsame => hfirst (List.mem_map.mpr ⟨other, hother, hsame⟩)
      rw [evictAll_cons, ih (nodup_keys_evictVictim hkeys victim.1) hothers
        hkept, (evictVictim_disk hkeys hentry hdisk).1, totalBytes, totalBytes,
        List.map_cons, List.sum_cons]
      omega

theorem nodup_limitVictims (hkeys : actor.entries.keys.Nodup)
    (minFree : Nat) :
    (Table.keys (actor.limitVictims env minFree)).Nodup := by
  have hfront : ∀ (need : Nat) (pinned : Bool), (Table.keys
      (enough bytesOf need (actor.diskOrder env pinned))).Nodup :=
    fun need pinned => (nodup_diskOrder hkeys pinned).sublist
      ((enough_front _ _ _).sublist.map Prod.fst)
  rw [limitVictims, Table.keys, List.map_append]
  refine List.nodup_append.mpr ⟨hfront _ false, hfront _ true, ?_⟩
  rintro key hplain other hpinned rfl
  obtain ⟨left, hleft, hkey⟩ := List.mem_map.mp hplain
  obtain ⟨right, hright, hsame⟩ := List.mem_map.mp hpinned
  obtain ⟨hheld, -, hnot⟩ :=
    mem_diskOrder.mp ((enough_front _ _ _).subset hleft)
  obtain ⟨hother, -, hpin⟩ :=
    mem_diskOrder.mp ((enough_front _ _ _).subset hright)
  rw [eq_of_key hkeys hheld hother (hkey.trans hsame.symm), hpin] at hnot
  contradiction

/-- The total stays over the budget if and only if it does so when all that is
not pinned is evicted. -/
theorem leftOnDisk_gt_iff (hkeys : actor.entries.keys.Nodup) :
    (actor.evictAll (actor.limitVictims env
        DISK_FREE_HEADROOM_BYTES)).diskByteTotal > DISK_BUDGET_BYTES ↔
      actor.leftOnDisk env > DISK_BUDGET_BYTES := by
  rw [diskByteTotal_evictAll hkeys (nodup_limitVictims hkeys _)
    fun victim => disk_of_mem_victims, limitVictims, totalBytes, leftOnDisk,
    List.map_append, List.sum_append]
  have hle := totalBytes_enough_le
    (max (actor.diskByteTotal - DISK_BUDGET_BYTES)
      (DISK_FREE_HEADROOM_BYTES - env.free)) (actor.diskOrder env false)
  rcases diskVictims_covers env actor DISK_FREE_HEADROOM_BYTES env.free
    with henough | hall
  · have hwithin := (le_max_left _ _).trans henough
    rw [diskVictims] at hwithin ⊢
    simp only [totalBytes] at hwithin hle ⊢
    omega
  · rw [hall]
    simp only [totalBytes]
    omega

/-! ### Events -/

theorem announcedReady_congr {next : AssetActor}
    (h : next.events = actor.events) :
    next.AnnouncedReady id ↔ actor.AnnouncedReady id := by
  rw [AnnouncedReady, AnnouncedReady, h]

@[simp] theorem events_evictEntry (actor : AssetActor) (other : String) :
    (actor.evictEntry other).events = actor.events := by
  unfold evictEntry
  split
  · rfl
  · dsimp only
    split <;> rfl

theorem announcedReady_emit (event : AssetCacheEvent) :
    (actor.emit event).AnnouncedReady id ↔
      event = .ready id ∨ event.id ≠ id ∧ actor.AnnouncedReady id := by
  rw [AnnouncedReady, AnnouncedReady, emit, List.reverse_append,
    List.reverse_singleton, List.singleton_append]
  by_cases hsame : event.id = id
  · rw [List.find?_cons_of_pos (by simpa using hsame)]
    simp [hsame]
  · rw [List.find?_cons_of_neg (by simpa using hsame)]
    have hnot : event ≠ .ready id := by
      rintro rfl
      exact hsame rfl
    simp [hsame, hnot]

theorem announcedReady_evictVictim (victim : String) :
    (actor.evictVictim victim).AnnouncedReady id ↔
      id ≠ victim ∧ actor.AnnouncedReady id := by
  rw [evictVictim, announcedReady_emit,
    announcedReady_congr (events_evictEntry actor victim)]
  simp [AssetCacheEvent.id, eq_comm]

theorem announcedReady_evictAll (victims : List (String × Entry)) :
    (actor.evictAll victims).AnnouncedReady id ↔
      id ∉ Table.keys victims ∧ actor.AnnouncedReady id := by
  induction victims generalizing actor with
  | nil => simp [Table.keys]
  | cons victim rest ih =>
      rw [evictAll_cons, ih, announcedReady_evictVictim, Table.keys, Table.keys,
        List.map_cons, List.mem_cons, not_or]
      tauto

theorem get?_evictAll {victims : List (String × Entry)}
    (h : id ∉ Table.keys victims) :
    (actor.evictAll victims).entries.get? id = actor.entries.get? id := by
  rw [entries_evictAll, Table.get?_filter]
  intro value _
  simpa using h

theorem get?_evictAll_of_mem {victims : List (String × Entry)}
    (h : id ∈ Table.keys victims) :
    (actor.evictAll victims).entries.get? id = none := by
  rw [entries_evictAll, Table.get?_eq_none]
  intro hmem
  obtain ⟨entry, hentry, rfl⟩ := List.mem_map.mp hmem
  have hkept := (List.mem_filter.mp hentry).2
  simp [h] at hkept

/-- Eviction clears what it takes. -/
theorem Truthful.evictAll (h : actor.Truthful)
    (victims : List (String × Entry)) : (actor.evictAll victims).Truthful := by
  intro other hready
  obtain ⟨hkept, hbefore⟩ := (announcedReady_evictAll victims).mp hready
  rw [get?_evictAll hkept]
  exact h other hbefore

theorem Truthful.evictVictim (h : actor.Truthful) (victim : String) :
    (actor.evictVictim victim).Truthful := by
  intro other hready
  obtain ⟨hne, hbefore⟩ := (announcedReady_evictVictim victim).mp hready
  show ((actor.evictEntry victim).entries.get? other).isSome
  rw [entries_evictEntry, Table.get?_remove_of_ne _ hne]
  exact h other hbefore

/-- No event, and no entry less. -/
theorem Truthful.mono {next : AssetActor} (h : actor.Truthful)
    (hevents : next.events = actor.events)
    (hkept : ∀ id, (actor.entries.get? id).isSome →
      (next.entries.get? id).isSome) : next.Truthful :=
  fun other hready => hkept other (h other ((announcedReady_congr hevents).mp
    hready))

/-- One more entry is announced. -/
theorem truthful_emit_iff (h : actor.Truthful) :
    (actor.emit (.ready id)).Truthful ↔ (actor.entries.get? id).isSome := by
  constructor
  · intro hnext
    exact hnext id ((announcedReady_emit _).mpr (Or.inl rfl))
  · intro hheld other hready
    rcases (announcedReady_emit _).mp hready with hself | ⟨-, hbefore⟩
    · obtain rfl := AssetCacheEvent.ready.inj hself
      exact hheld
    · exact h other hbefore

/-- An entry goes without an event. -/
theorem truthful_evictEntry_iff (h : actor.Truthful) :
    (actor.evictEntry id).Truthful ↔ ¬ actor.AnnouncedReady id := by
  constructor
  · intro hnext hready
    have hheld := hnext id
      ((announcedReady_congr (events_evictEntry actor id)).mpr hready)
    rw [get?_evictEntry_self] at hheld
    contradiction
  · intro hnot other hready
    have hbefore :=
      (announcedReady_congr (events_evictEntry actor id)).mp hready
    have hne : other ≠ id := by
      rintro rfl
      exact hnot hbefore
    rw [entries_evictEntry, Table.get?_remove_of_ne _ hne]
    exact h other hbefore

/-! ### Inserts -/

/-- The cache with a new entry for an id whose old one went without an event. -/
theorem truthful_put {held : AssetActor} {entry : Entry} (h : actor.Truthful)
    (hevents : held.events = actor.events)
    (hentries : held.entries = (actor.evictEntry id).entries.put id entry) :
    held.Truthful := by
  refine h.mono hevents fun other hheld => ?_
  rw [hentries]
  by_cases hsame : other = id
  · rw [hsame, Table.get?_put_self]
    rfl
  · rwa [Table.get?_put_of_ne _ _ hsame, entries_evictEntry,
      Table.get?_remove_of_ne _ hsame]

theorem nodup_keys_evictEntry (hkeys : actor.entries.keys.Nodup)
    (id : String) : (actor.evictEntry id).entries.keys.Nodup := by
  rw [entries_evictEntry]
  exact Table.nodup_keys_remove hkeys id

theorem isSome_evictAll_iff {victims : List (String × Entry)}
    (h : (actor.entries.get? id).isSome) :
    ((actor.evictAll victims).entries.get? id).isSome ↔
      id ∉ Table.keys victims := by
  by_cases hvictim : id ∈ Table.keys victims
  · simp [get?_evictAll_of_mem hvictim, hvictim]
  · simp [get?_evictAll hvictim, hvictim, h]

theorem truthful_insertMemory_iff (h : actor.Truthful)
    (hkeys : actor.entries.keys.Nodup) (bytes : Bytes) (mime : Option String)
    (retention : Retention) :
    ((actor.evictEntry id).insertMemory env id bytes mime
        retention).1.Truthful ↔
      ((actor.evictEntry id).heldInMemory env id bytes mime
        retention).StaysInMemory env id := by
  have htruthful : ((actor.evictEntry id).heldInMemory env id bytes mime
      retention).Truthful := truthful_put h (events_evictEntry actor id) rfl
  have hget : ((actor.evictEntry id).heldInMemory env id bytes mime
      retention).entries.get? id = some _ := Table.get?_put_self _ id _
  rw [insertMemory_eq (nodup_keys_evictEntry hkeys id),
    truthful_emit_iff (htruthful.evictAll _),
    isSome_evictAll_iff (Option.isSome_of_eq_some hget),
    mem_memoryVictims_iff hget rfl, not_not]

/-- Room is made for an entry, which is announced if it is not rejected. -/
theorem truthful_announce_iff {entry : Entry} (h : actor.Truthful)
    (hkeys : actor.entries.keys.Nodup)
    (hget : actor.entries.get? id = some entry) (hdisk : entry.tier = .disk) :
    (announce id (actor.makeDiskRoom env id
        entry.retention.isPinned)).1.Truthful ↔
      if actor.leftOnDisk env > DISK_BUDGET_BYTES ∧
          entry.retention.isPinned then
        ¬ (actor.AnnouncedReady id ∧
          actor.StaysOnDisk env id entry.retention.isPinned)
      else actor.StaysOnDisk env id entry.retention.isPinned := by
  have hroom := h.evictAll (actor.limitVictims env DISK_FREE_HEADROOM_BYTES)
  have hstays := @mem_limitVictims_iff env _ _ _ hkeys hget hdisk
  have hover := and_congr_left' (c := entry.retention.isPinned)
    (@leftOnDisk_gt_iff env _ hkeys)
  rw [makeDiskRoom_eq hkeys]
  by_cases hrejects : actor.leftOnDisk env > DISK_BUDGET_BYTES ∧
      entry.retention.isPinned
  · rw [if_pos hrejects, if_pos (hover.mpr hrejects), announce,
      truthful_evictEntry_iff hroom, announcedReady_evictAll, hstays, not_not,
      and_comm]
  · rw [if_neg hrejects, if_neg (mt hover.mp hrejects), announce,
      truthful_emit_iff hroom,
      isSome_evictAll_iff (Option.isSome_of_eq_some hget), hstays, not_not]

theorem truthful_insertPlaced_iff (h : actor.Truthful)
    (hkeys : actor.entries.keys.Nodup) (dest : Path) (byteLen : Nat)
    (mime : Option String) (retention : Retention) :
    ((actor.evictEntry id).insertPlaced env id dest byteLen mime
        retention).1.Truthful ↔
      (actor.evictEntry id).HonestPlaced env id dest byteLen mime
        retention := by
  have htruthful : ((actor.evictEntry id).heldOnDisk env id dest byteLen mime
      retention).Truthful := truthful_put h (events_evictEntry actor id) rfl
  have hget : ((actor.evictEntry id).heldOnDisk env id dest byteLen mime
      retention).entries.get? id = some _ := Table.get?_put_self _ id _
  have hnodup := @nodup_heldOnDisk env _ (nodup_keys_evictEntry hkeys id) id
    dest byteLen mime retention
  have hplaced := @truthful_announce_iff env _ _ _ htruthful hnodup hget rfl
  unfold insertPlaced HonestPlaced
  dsimp only
  split
  · rw [announcedReady_congr (events_evictEntry actor id),
      ← truthful_evictEntry_iff h]
    exact Iff.rfl
  · exact hplaced

/-! ### Commands -/

/-- The invariant of the announcements. -/
structure Told (actor : AssetActor) : Prop where
  remembers : actor.Remembers
  truthful : actor.Truthful

theorem Told.keys (h : actor.Told) : actor.entries.keys.Nodup :=
  h.remembers.exact.keys

variable {safeBlobName : String → String}

theorem truthful_handleInsert_iff (h : actor.Told) (bytes : Bytes)
    (mime : Option String) (retention : Retention) :
    (actor.handleInsert safeBlobName env id bytes mime
        retention).1.Truthful ↔
      actor.Honest safeBlobName env (.insert id bytes mime retention) := by
  unfold handleInsert Honest
  by_cases hempty : bytes.1 = []
  · simp [hempty, h.truthful]
  · simp only [List.isEmpty_iff, hempty, ↓reduceIte, ne_eq, not_false_eq_true,
      true_implies, blobPath_evictEntry]
    cases retention.tier with
    | memory => exact truthful_insertMemory_iff h.truthful h.keys bytes mime _
    | disk =>
        cases env.fails (.write (actor.blobPath safeBlobName id)) with
        | true => exact truthful_evictEntry_iff h.truthful
        | false => exact truthful_insertPlaced_iff h.truthful h.keys _ _ mime _

theorem truthful_handleInsertFromPath_iff (h : actor.Told) (source : Path)
    (mime : Option String) (retention : Retention) :
    (actor.handleInsertFromPath safeBlobName env id source mime
        retention).1.Truthful ↔
      actor.Honest safeBlobName env
        (.insertFromPath id source mime retention) := by
  simp only [handleInsertFromPath, Honest]
  cases env.file source with
  | none => simp [h.truthful]
  | some bytes =>
      by_cases hempty : bytes.1 = []
      · simp [hempty, h.truthful]
      · simp only [List.isEmpty_iff, hempty, ↓reduceIte, Option.some.injEq,
          ne_eq, blobPath_evictEntry, forall_eq', not_false_eq_true,
          true_implies]
        cases retention.tier with
        | disk =>
            cases env.fails
                (.rename source (actor.blobPath safeBlobName id)) with
            | true => exact truthful_evictEntry_iff h.truthful
            | false =>
                exact truthful_insertPlaced_iff h.truthful h.keys _ _ mime _
        | memory =>
            cases env.fails (.read source) with
            | true => exact truthful_evictEntry_iff h.truthful
            | false =>
                exact truthful_insertMemory_iff h.truthful h.keys bytes mime _

theorem Truthful.handleSetRetention (h : actor.Truthful) (other : String)
    (retention : Retention) :
    (actor.handleSetRetention env other retention).1.Truthful := by
  refine h.mono ?_ fun id => isSome_handleSetRetention other retention
  unfold AssetActor.handleSetRetention
  split
  · rfl
  · split
    · rfl
    · dsimp only
      split
      · rfl
      · split <;> rfl

theorem Truthful.handleGet (h : actor.Truthful) (other : String) :
    (actor.handleGet env other).1.Truthful := by
  refine h.mono ?_ fun id => isSome_handleGet other
  unfold AssetActor.handleGet
  dsimp only
  split
  · rfl
  · split
    · rfl
    · split <;> rfl

/-- A command leaves the announcements true if and only if it is honest. -/
theorem Told.handle_iff (h : actor.Told) (command : Command) :
    (actor.handle safeBlobName env command).1.Truthful ↔
      actor.Honest safeBlobName env command := by
  cases command with
  | insert id bytes mime retention =>
      exact truthful_handleInsert_iff h bytes mime retention
  | insertFromPath id source mime retention =>
      exact truthful_handleInsertFromPath_iff h source mime retention
  | setRetention id retention =>
      exact iff_of_true (h.truthful.handleSetRetention id retention) trivial
  | get id => exact iff_of_true (h.truthful.handleGet id) trivial
  | contains id => exact iff_of_true h.truthful trivial
  | clear id =>
      refine iff_of_true ?_ trivial
      simp only [handle, handleClear]
      split
      · exact h.truthful.evictVictim id
      · exact h.truthful
  | reserveDisk needBytes =>
      refine iff_of_true ?_ trivial
      simp only [handle, reserveDisk]
      rw [enforceDiskLimits_eq (Nat.min_le_right _ _) h.keys]
      exact h.truthful.evictAll _
  | sweep =>
      exact iff_of_true
        ((h.truthful.evictAll ((actor.walk env).filter (expired env))).mono rfl
          fun _ hheld => hheld) trivial

end

theorem events_recoverRows (env : Env) (actor : AssetActor)
    (rows : List (String × Row)) :
    (rows.foldl (recoverRow env) actor).events = actor.events := by
  induction rows generalizing actor with
  | nil => rfl
  | cons row rest ih =>
      rw [List.foldl_cons, ih, recoverRow]
      split <;> rfl

theorem Told.bootstrap (env : Env) (blobsDir : Path)
    (rows : Table String Row) :
    (AssetActor.bootstrap env blobsDir rows).Told := by
  refine ⟨Remembers.bootstrap env blobsDir rows, ?_⟩
  have hkeys := (Remembers.recovered env blobsDir rows).exact.keys
  have hsilent : (recovered env blobsDir rows).Truthful := by
    intro id hready
    rw [AnnouncedReady, recovered, events_recoverRows] at hready
    contradiction
  show ((recovered env blobsDir rows).enforceDiskLimits env _).Truthful
  rw [enforceDiskLimits_eq (by decide) hkeys]
  exact hsilent.evictAll _

/-- What was last announced as ready is there in every state that is reached if
and only if every command on the way is honest. -/
theorem truthful_iff_honest (safeBlobName : String → String) (env : Env)
    (blobsDir : Path) (rows : Table String Row) (turns : List (Env × Command)) :
    (∀ count ≤ turns.length, (Transition.reached (step safeBlobName)
      (AssetActor.bootstrap env blobsDir rows) turns count).Truthful) ↔
    ∀ count turn, turns[count]? = some turn → (Transition.reached
      (step safeBlobName) (AssetActor.bootstrap env blobsDir rows) turns
        count).Honest safeBlobName turn.1 turn.2 := by
  have hstart := Told.bootstrap env blobsDir rows
  have hkeep : ∀ {actor : AssetActor} {turn : Env × Command}, actor.Told →
      actor.Honest safeBlobName turn.1 turn.2 →
      (step safeBlobName actor turn).Told :=
    fun h hhonest =>
      ⟨h.remembers.handle _, (h.handle_iff _).mpr hhonest⟩
  have hbreak : ∀ {actor : AssetActor} {turn : Env × Command}, actor.Told →
      ¬ actor.Honest safeBlobName turn.1 turn.2 →
      ¬ (step safeBlobName actor turn).Truthful :=
    fun h hnot => mt (h.handle_iff _).mp hnot
  exact Transition.reached_iff hstart Told.truthful hkeep hbreak turns

theorem oneByte_le : ([1] : List UInt8).length ≤ ISIZE_MAX := by decide

/-- A disk on which there is no free space. -/
def fullEnv : Env := { bareEnv false with free := 0 }

def lruByte : Command :=
  .insert "a" ⟨[1], oneByte_le⟩ none Retention.DISK_LRU

/-- The new entry goes for want of space, and is announced after it is
cleared. -/
theorem lruByte_untruthful :
    ¬ (Transition.reached (step id) (bootstrap (bareEnv false) "b" [])
      [(fullEnv, lruByte)] 1).Truthful := by
  intro htruthful
  have hheld := htruthful "a" (by decide +kernel)
  revert hheld
  decide +kernel

end AssetActor

end Asset

end Bridgething
