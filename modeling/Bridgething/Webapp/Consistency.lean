/-
What the blob store keeps: every record has its content, every content its record,
and no webapp more than its quota.
-/
import Bridgething.Transfer.Verified
import Bridgething.Webapp.Blobs

namespace Bridgething

namespace Blobs

namespace Shelf

variable (sha : Content → String)

/-- Every record's content is there, with its digest and size; every content is
some record's; and all of it is within the quota. -/
structure Consistent (shelf : Shelf) : Prop where
  present : ∀ {key blob}, shelf.records.get? key = some blob →
    ∃ content, shelf.files.get? blob.sha256 = some content ∧
      sha content = blob.sha256 ∧ content.length = blob.size
  referenced : ∀ {sha256 content}, shelf.files.get? sha256 = some content →
    ∃ key blob, shelf.records.get? key = some blob ∧ blob.sha256 = sha256
  quota : Table.total List.length shelf.files ≤ WEBAPP_BLOB_QUOTA_BYTES

/-- The invariant while a content may have lost its last record: all is there, and
only that content may be unreferenced. -/
structure Settled (shelf : Shelf) (spare : Option String) : Prop where
  recordKeys : shelf.records.keys.Nodup
  fileKeys : shelf.files.keys.Nodup
  present : ∀ {key blob}, shelf.records.get? key = some blob →
    ∃ content, shelf.files.get? blob.sha256 = some content ∧
      sha content = blob.sha256 ∧ content.length = blob.size
  referenced : ∀ {sha256 content}, shelf.files.get? sha256 = some content →
    spare = some sha256 ∨
      ∃ key blob, shelf.records.get? key = some blob ∧ blob.sha256 = sha256

/-- The invariant of a shelf between commands. -/
structure Inv (shelf : Shelf) : Prop where
  settled : shelf.Settled sha none
  quota : Table.total List.length shelf.files ≤ WEBAPP_BLOB_QUOTA_BYTES

variable {sha}

theorem Inv.consistent {shelf : Shelf} (h : shelf.Inv sha) :
    shelf.Consistent sha := by
  refine ⟨h.settled.present, fun hget => ?_, h.quota⟩
  exact (h.settled.referenced hget).resolve_left (by simp)

theorem inv_empty : Shelf.empty.Inv sha := by
  constructor
  · constructor
    · exact List.nodup_nil
    · exact List.nodup_nil
    · exact fun hget => absurd hget (by simp [Shelf.empty])
    · exact fun hget => absurd hget (by simp [Shelf.empty])
  · exact Nat.zero_le _

/-! ### Collecting what is not referenced -/

theorem references_iff {shelf : Shelf} (h : shelf.records.keys.Nodup)
    (sha256 : String) : shelf.references sha256 = true ↔
      ∃ key blob, shelf.records.get? key = some blob ∧ blob.sha256 = sha256 := by
  unfold references
  rw [List.any_eq_true]
  constructor
  · rintro ⟨⟨key, blob⟩, hmem, hsame⟩
    exact ⟨key, blob, Table.get?_of_mem h hmem, by simpa using hsame⟩
  · rintro ⟨key, blob, hget, hsame⟩
    exact ⟨(key, blob), Table.mem_of_get? hget, by simpa using hsame⟩

theorem Settled.collect {shelf : Shelf} {sha256 : String}
    (h : shelf.Settled sha (some sha256)) :
    (shelf.collectUnreferenced sha256).Settled sha none := by
  unfold collectUnreferenced
  by_cases hreferenced : shelf.references sha256 = true
  · rw [if_pos hreferenced]
    refine ⟨h.recordKeys, h.fileKeys, h.present, fun hget => Or.inr ?_⟩
    rcases h.referenced hget with hspare | hrecord
    · rw [Option.some.injEq] at hspare
      exact hspare ▸ (references_iff h.recordKeys sha256).mp hreferenced
    · exact hrecord
  · rw [if_neg hreferenced]
    rw [references_iff h.recordKeys] at hreferenced
    constructor
    · exact h.recordKeys
    · exact Table.nodup_keys_remove h.fileKeys sha256
    · intro key blob hget
      have hne : blob.sha256 ≠ sha256 := fun hsame =>
        hreferenced ⟨key, blob, hget, hsame⟩
      show ∃ content, (shelf.files.remove sha256).get? blob.sha256 = _ ∧ _
      rw [Table.get?_remove_of_ne _ hne]
      exact h.present hget
    · intro other content hget
      obtain ⟨hne, hold⟩ := Table.get?_of_remove hget
      rcases h.referenced hold with hspare | hrecord
      · exact absurd (Option.some.inj hspare).symm hne
      · exact Or.inr hrecord

theorem collect_records (shelf : Shelf) (sha256 : String) :
    (shelf.collectUnreferenced sha256).records = shelf.records := by
  unfold collectUnreferenced
  split <;> rfl

theorem collect_total_le (shelf : Shelf) (sha256 : String) :
    Table.total List.length (shelf.collectUnreferenced sha256).files ≤
      Table.total List.length shelf.files := by
  unfold collectUnreferenced
  split
  · exact Nat.le_refl _
  · exact Table.total_filter_le _ _ _

/-! ### The quota -/

/-- The sizes collected from records are of those records. -/
theorem get?_foldl_sizes (records : List (String × BlobMeta))
    (start : Table String Nat) (sha256 : String) :
    Table.get? (records.foldl (fun sizes record =>
        Table.put sizes record.2.sha256 record.2.size) start) sha256 =
      start.get? sha256 ∧ (∀ record ∈ records, record.2.sha256 ≠ sha256) ∨
    ∃ record ∈ records, record.2.sha256 = sha256 ∧
      Table.get? (records.foldl (fun sizes record =>
        Table.put sizes record.2.sha256 record.2.size) start) sha256 =
        some record.2.size := by
  induction records generalizing start with
  | nil => exact Or.inl ⟨rfl, fun _ hin => absurd hin List.not_mem_nil⟩
  | cons record rest ih =>
      rcases ih (start.put record.2.sha256 record.2.size) with
        ⟨hstart, hnone⟩ | ⟨found, hin, hsame, hsize⟩
      · by_cases hsame : record.2.sha256 = sha256
        · refine Or.inr ⟨record, List.mem_cons_self, hsame, ?_⟩
          rw [List.foldl_cons, hstart, hsame, Table.get?_put_self]
        · rw [Table.get?_put_of_ne _ _ (Ne.symm hsame)] at hstart
          refine Or.inl ⟨hstart, ?_⟩
          intro other hother
          rcases List.mem_cons.mp hother with rfl | hrest
          · exact hsame
          · exact hnone other hrest
      · exact Or.inr ⟨found, List.mem_cons_of_mem _ hin, hsame, hsize⟩

theorem nodup_foldl_sizes (records : List (String × BlobMeta))
    {start : Table String Nat} (h : start.keys.Nodup) :
    (Table.keys (records.foldl (fun sizes record =>
      Table.put sizes record.2.sha256 record.2.size) start)).Nodup := by
  induction records generalizing start with
  | nil => exact h
  | cons record rest ih => exact ih (Table.nodup_keys_put h _ _)

theorem checkQuota_ok {shelf : Shelf} {key : String} {blob : BlobMeta}
    (h : shelf.checkQuota key blob = .ok ()) :
    Table.total id (shelf.sizes key blob) ≤ WEBAPP_BLOB_QUOTA_BYTES := by
  unfold checkQuota at h
  split at h
  · contradiction
  · exact Nat.not_lt.mp ‹_›

/-- A shelf with a record that passed the check has no more than the quota, when
the rest of it is as it was and nothing is unreferenced. -/
theorem Settled.quota {shelf next : Shelf} {key : String} {blob : BlobMeta}
    (h : next.Settled sha none)
    (hrecords : next.records = shelf.records.put key blob)
    (hkeys : shelf.records.keys.Nodup)
    (hcheck : shelf.checkQuota key blob = .ok ()) :
    Table.total List.length next.files ≤ WEBAPP_BLOB_QUOTA_BYTES := by
  have hnil : (Table.keys ([] : Table String Nat)).Nodup := List.nodup_nil
  refine le_trans (Table.total_le_of_get? h.fileKeys ?_ ?_)
    (checkQuota_ok hcheck)
  · exact Table.nodup_keys_put (nodup_foldl_sizes _ hnil) _ _
  · intro sha256 content hget
    by_cases hnew : sha256 = blob.sha256
    · have hblob : next.records.get? key = some blob := by
        rw [hrecords, Table.get?_put_self]
      obtain ⟨found, hfound, -, hlength⟩ := h.present hblob
      rw [hnew, hfound, Option.some.injEq] at hget
      refine ⟨blob.size, ?_, ?_⟩
      · rw [sizes, hnew, Table.get?_put_self]
      · exact Nat.le_of_eq (hget ▸ hlength)
    · obtain ⟨other, old, hold, hsha⟩ :=
        (h.referenced hget).resolve_left (by simp)
      have hother : other ≠ key ∧ shelf.records.get? other = some old := by
        rw [hrecords] at hold
        rcases Table.get?_put_cases hold with ⟨-, rfl⟩ | hkept
        · exact absurd hsha.symm hnew
        · exact hkept
      have hin : (other, old) ∈
          shelf.records.filter fun record => record.1 ≠ key :=
        List.mem_filter.mpr ⟨Table.mem_of_get? hother.2, by simpa using hother.1⟩
      rcases get?_foldl_sizes (shelf.records.filter fun record =>
          record.1 ≠ key) [] sha256 with ⟨-, hnone⟩ | ⟨record, hmem, hsame, hsize⟩
      · exact absurd hsha (hnone _ hin)
      · refine ⟨record.2.size, ?_, ?_⟩
        · rw [sizes, Table.get?_put_of_ne _ _ hnew]
          exact hsize
        · obtain ⟨hkept, hne⟩ := List.mem_filter.mp hmem
          have hrecord : next.records.get? record.1 = some record.2 := by
            rw [hrecords, Table.get?_put_of_ne _ _ (by simpa using hne)]
            exact Table.get?_of_mem hkeys hkept
          obtain ⟨found, hfound, -, hlength⟩ := h.present hrecord
          rw [hsame, hget, Option.some.injEq] at hfound
          exact Nat.le_of_eq (hfound ▸ hlength)

/-! ### What commands do to a shelf -/

/-- A shelf that a record may be written to: its content is there, and the other
records and contents are in order. -/
structure Ready (sha : Content → String) (shelf : Shelf) (key : String)
    (blob : BlobMeta) : Prop where
  recordKeys : shelf.records.keys.Nodup
  fileKeys : shelf.files.keys.Nodup
  content : ∃ content, shelf.files.get? blob.sha256 = some content ∧
    sha content = blob.sha256 ∧ content.length = blob.size
  others : ∀ {other held}, other ≠ key →
    shelf.records.get? other = some held →
      ∃ content, shelf.files.get? held.sha256 = some content ∧
        sha content = held.sha256 ∧ content.length = held.size
  referenced : ∀ {sha256 content}, shelf.files.get? sha256 = some content →
    blob.sha256 = sha256 ∨
      ∃ other held, shelf.records.get? other = some held ∧
        held.sha256 = sha256

theorem Ready.record {shelf : Shelf} {key : String} {blob : BlobMeta}
    (h : shelf.Ready sha key blob)
    (hcheck : shelf.checkQuota key blob = .ok ()) :
    (shelf.record key blob).2.Inv sha := by
  let next : Shelf := { shelf with records := shelf.records.put key blob }
  have hpresent : ∀ {other found}, next.records.get? other = some found →
      ∃ content, next.files.get? found.sha256 = some content ∧
        sha content = found.sha256 ∧ content.length = found.size := by
    intro other found hfound
    rcases Table.get?_put_cases hfound with ⟨-, rfl⟩ | ⟨hne, hold⟩
    · exact h.content
    · exact h.others hne hold
  have hkeys : next.records.keys.Nodup := Table.nodup_keys_put h.recordKeys _ _
  -- A content keeps its record, gets this one, or had only the one replaced.
  have hreferenced : ∀ {sha256 found}, next.files.get? sha256 = some found →
      (∃ previous, shelf.records.get? key = some previous ∧
          previous.sha256 = sha256) ∨
        ∃ other held, next.records.get? other = some held ∧
          held.sha256 = sha256 := by
    intro sha256 found hfound
    rcases h.referenced hfound with hspare | ⟨other, held, hheld, hsame⟩
    · exact Or.inr ⟨key, blob, Table.get?_put_self _ _ _, hspare⟩
    · by_cases hother : other = key
      · exact Or.inl ⟨held, hother ▸ hheld, hsame⟩
      · exact Or.inr ⟨other, held,
          (Table.get?_put_of_ne _ _ hother).trans hheld, hsame⟩
  have hself : ∃ other held, next.records.get? other = some held ∧
      held.sha256 = blob.sha256 :=
    ⟨key, blob, Table.get?_put_self _ _ _, rfl⟩
  have hsettled : (shelf.record key blob).2.Settled sha none ∧
      (shelf.record key blob).2.records = shelf.records.put key blob := by
    unfold Shelf.record
    simp only
    cases hprevious : shelf.records.get? key with
    | none =>
        refine ⟨⟨hkeys, h.fileKeys, hpresent, fun hfound => Or.inr ?_⟩, rfl⟩
        exact (hreferenced hfound).resolve_left (by simp [hprevious])
    | some previous =>
        simp only
        split
        · refine ⟨?_, collect_records next previous.sha256⟩
          have hspare : next.Settled sha (some previous.sha256) := by
            refine ⟨hkeys, h.fileKeys, hpresent, fun hfound => ?_⟩
            rcases hreferenced hfound with ⟨found, hfound, hsame⟩ | hrecord
            · rw [hprevious, Option.some.injEq] at hfound
              exact Or.inl (by rw [hfound, hsame])
            · exact Or.inr hrecord
          exact hspare.collect
        · rename_i hsame
          rw [not_not] at hsame
          refine ⟨⟨hkeys, h.fileKeys, hpresent, fun hfound => Or.inr ?_⟩, rfl⟩
          rcases hreferenced hfound with ⟨found, hfound, hof⟩ | hrecord
          · rw [hprevious, Option.some.injEq] at hfound
            rw [← hof, ← hfound, hsame]
            exact hself
          · exact hrecord
  exact ⟨hsettled.1, hsettled.1.quota hsettled.2 h.recordKeys hcheck⟩

theorem Inv.dropContent {shelf : Shelf} (h : shelf.Inv sha) (sha256 : String) :
    (shelf.dropContent sha256).2.Inv sha := by
  have hkept : ∀ {key blob},
      (shelf.dropContent sha256).2.records.get? key = some blob →
        shelf.records.get? key = some blob ∧ blob.sha256 ≠ sha256 := by
    intro key blob hget
    obtain ⟨hin, hne⟩ := List.mem_filter.mp (Table.mem_of_get? hget)
    exact ⟨Table.get?_of_mem h.settled.recordKeys hin, by simpa using hne⟩
  constructor
  · constructor
    · exact Table.nodup_keys_filter h.settled.recordKeys _
    · exact Table.nodup_keys_remove h.settled.fileKeys _
    · intro key blob hget
      obtain ⟨hold, hne⟩ := hkept hget
      show ∃ content, (shelf.files.remove sha256).get? blob.sha256 = _ ∧ _
      rw [Table.get?_remove_of_ne _ hne]
      exact h.settled.present hold
    · intro other content hget
      obtain ⟨hne, hold⟩ := Table.get?_of_remove hget
      obtain ⟨key, blob, hrecord, hsame⟩ := h.consistent.referenced hold
      refine Or.inr ⟨key, blob, ?_, hsame⟩
      show Table.get? (shelf.records.filter _) key = _
      rw [Table.get?_filter, hrecord]
      intro found hfound
      rw [hrecord, Option.some.injEq] at hfound
      simpa [← hfound, hsame] using hne
  · exact (Table.total_filter_le _ _ _).trans h.quota

theorem Inv.delete {shelf : Shelf} (h : shelf.Inv sha) (key : String) :
    (shelf.delete key).Inv sha := by
  unfold Shelf.delete
  cases hblob : shelf.records.get? key with
  | none => exact h
  | some blob =>
      have hspare : Settled sha
          { shelf with records := shelf.records.remove key }
          (some blob.sha256) := by
        constructor
        · exact Table.nodup_keys_remove h.settled.recordKeys key
        · exact h.settled.fileKeys
        · exact fun hget => h.settled.present (Table.get?_of_remove hget).2
        · intro sha256 content hget
          obtain ⟨other, held, hheld, hsame⟩ := h.consistent.referenced hget
          by_cases hother : other = key
          · rw [hother, hblob, Option.some.injEq] at hheld
            exact Or.inl (by rw [hheld, hsame])
          · exact Or.inr ⟨other, held,
              (Table.get?_remove_of_ne _ hother).trans hheld, hsame⟩
      exact ⟨hspare.collect, (collect_total_le _ _).trans h.quota⟩

/-- A put of content that is stored already. -/
theorem Inv.record {shelf : Shelf} (h : shelf.Inv sha) {key : String}
    {blob : BlobMeta} {content : Content}
    (hcontent : shelf.files.get? blob.sha256 = some content)
    (hlength : content.length = blob.size)
    (hcheck : shelf.checkQuota key blob = .ok ()) :
    (shelf.record key blob).2.Inv sha := by
  obtain ⟨other, held, hheld, hsame⟩ := h.consistent.referenced hcontent
  obtain ⟨found, hfound, hsha, -⟩ := h.settled.present hheld
  rw [hsame, hcontent, Option.some.injEq] at hfound
  have hready : shelf.Ready sha key blob := by
    constructor
    · exact h.settled.recordKeys
    · exact h.settled.fileKeys
    · exact ⟨content, hcontent, by rw [hfound, hsha, hsame], hlength⟩
    · exact fun _ hget => h.settled.present hget
    · exact fun hget => Or.inr (h.consistent.referenced hget)
  exact hready.record hcheck

/-- Content to be placed is what the record says, and what the other records of
its digest say. -/
structure Sound (sha : Content → String) (shelf : Shelf) (key : String)
    (blob : BlobMeta) (content : Content) : Prop where
  digest : sha content = blob.sha256
  length : content.length = blob.size
  others : ∀ other held, other ≠ key →
    shelf.records.get? other = some held → held.sha256 = blob.sha256 →
      held.size = blob.size

theorem place_cases (shelf : Shelf) (key : String) (blob : BlobMeta)
    (file : Option Content) :
    (shelf.place key blob file).2 = shelf ∧
        (file = none ∨ shelf.checkQuota key blob ≠ .ok ()) ∨
      ∃ content, file = some content ∧ shelf.checkQuota key blob = .ok () ∧
        (shelf.place key blob file).2 =
          ({ shelf with
            files := shelf.files.put blob.sha256 content }.record key blob).2 := by
  unfold place
  cases hcheck : shelf.checkQuota key blob with
  | error error => exact Or.inl ⟨rfl, Or.inr (by simp)⟩
  | ok fits =>
      cases file with
      | none => exact Or.inl ⟨rfl, Or.inl rfl⟩
      | some content => exact Or.inr ⟨content, rfl, rfl, rfl⟩

theorem Inv.place {shelf : Shelf} (h : shelf.Inv sha) {key : String}
    {blob : BlobMeta} {file : Option Content}
    (hsound : ∀ content, file = some content →
      shelf.checkQuota key blob = .ok () →
        shelf.Sound sha key blob content) :
    (shelf.place key blob file).2.Inv sha := by
  rcases shelf.place_cases key blob file with
    ⟨hsame, -⟩ | ⟨content, hfile, hcheck, hnext⟩
  · rwa [hsame]
  · have hcontent := hsound content hfile hcheck
    rw [hnext]
    refine Ready.record ?_ hcheck
    constructor
    · exact h.settled.recordKeys
    · exact Table.nodup_keys_put h.settled.fileKeys _ _
    · exact ⟨content, Table.get?_put_self _ _ _, hcontent.digest,
        hcontent.length⟩
    · intro other held hne hheld
      show ∃ found, (shelf.files.put blob.sha256 content).get? held.sha256 =
        some found ∧ _
      by_cases hsame : held.sha256 = blob.sha256
      · rw [hsame, Table.get?_put_self]
        refine ⟨content, rfl, hcontent.digest, ?_⟩
        rw [hcontent.others other held hne hheld hsame, hcontent.length]
      · rw [Table.get?_put_of_ne _ _ hsame]
        exact h.settled.present hheld
    · intro sha256 found hfound
      rcases Table.get?_put_cases hfound with ⟨hsame, -⟩ | ⟨-, hold⟩
      · exact Or.inl hsame.symm
      · exact Or.inr (h.consistent.referenced hold)

/-- The record and its content are there once it is written. -/
theorem record_get (shelf : Shelf) (key : String) (blob : BlobMeta) :
    (shelf.record key blob).2.records = shelf.records.put key blob ∧
      (shelf.record key blob).2.files.get? blob.sha256 =
        shelf.files.get? blob.sha256 := by
  unfold Shelf.record
  simp only
  cases shelf.records.get? key with
  | none => exact ⟨rfl, rfl⟩
  | some previous =>
      simp only
      split
      · rename_i hne
        refine ⟨collect_records _ _, ?_⟩
        unfold collectUnreferenced
        split
        · rfl
        · exact Table.get?_remove_of_ne _ (Ne.symm hne)
      · exact ⟨rfl, rfl⟩

end Shelf

namespace Store

/-! ### What commands leave alone -/

@[simp] theorem emit_shelves (store : Store) (event : BlobEvent) :
    (store.emit event).shelves = store.shelves := rfl

@[simp] theorem stored_shelves (store : Store) (slot : Slot) (blob : BlobMeta)
    (changed : Bool) :
    (store.stored slot blob changed).shelves = store.shelves := rfl

@[simp] theorem register_shelves (store : Store) (slot : Slot)
    (blob : BlobMeta) (uploader : Address) :
    (store.register slot blob uploader).shelves = store.shelves := rfl

@[simp] theorem replaceInflight_shelves (store : Store) (slot : Slot)
    (taker : Option Address) (newer : BlobMeta) (takeover : Takeover) :
    (store.replaceInflight slot taker newer takeover).shelves =
      store.shelves := by
  unfold replaceInflight
  split
  · rfl
  · dsimp only
    split <;> rfl

@[simp] theorem replaceInflight_bundles (store : Store) (slot : Slot)
    (taker : Option Address) (newer : BlobMeta) (takeover : Takeover) :
    (store.replaceInflight slot taker newer takeover).bundles =
      store.bundles := by
  unfold replaceInflight
  split
  · rfl
  · dsimp only
    split <;> rfl

@[simp] theorem cancel_shelves (store : Store) (slot : Slot) (reason : String) :
    (store.cancel slot reason).shelves = store.shelves := by
  unfold cancel
  split <;> rfl

theorem foldl_cancel_shelves (slots : List Slot) (reason : String)
    (store : Store) :
    (slots.foldl (fun store slot => store.cancel slot reason) store).shelves =
      store.shelves := by
  induction slots generalizing store with
  | nil => rfl
  | cons slot rest ih => rw [List.foldl_cons, ih, cancel_shelves]

@[simp] theorem setShelf_self (store : Store) (webapp : Webapp)
    (shelf : Shelf) : (store.setShelf webapp shelf).shelves webapp = shelf :=
  if_pos rfl

theorem setShelf_of_ne (store : Store) {webapp other : Webapp} (shelf : Shelf)
    (h : other ≠ webapp) :
    (store.setShelf webapp shelf).shelves other = store.shelves other :=
  if_neg h

/-! ### What commands do to the shelves -/

/-- The invariant of every webapp's shelf. -/
def Inv (sha : Content → String) (store : Store) : Prop :=
  ∀ webapp, (store.shelves webapp).Inv sha

/-- Every webapp's shelf is consistent. -/
def Consistent (sha : Content → String) (store : Store) : Prop :=
  ∀ webapp, (store.shelves webapp).Consistent sha

/-- Content that an event would place on a shelf: the file of an upload that
finishes, or of a transfer that is complete when it begins. -/
inductive Lands (store : Store) : Event → Shelf → Slot → BlobMeta → Content →
    Prop
  | finish {exited : List Slot} {slot : Slot} {upload : InFlight}
      {content : Content}
      (registered : (store.retain exited).inflight.get? slot = some upload) :
      Lands store (.receive exited
          (.finish slot upload.attempt (.ok (some content))))
        (store.shelves slot.1) slot upload.blob content
  | complete {exited : List Slot} {put : BeginPut} {content : Content}
      {mid : Store}
      (examined : (store.retain exited).examine put = (.ok (some false), mid))
      (addressed : put.uploader.isSome) :
      Lands store (.receive exited
          (.begin put true (.alreadyComplete (some content))))
        (mid.shelves put.webapp) (put.webapp, put.key) put.blob content

/-- Content that lands within its webapp's quota is sound. -/
def Fair (sha : Content → String) (store : Store) (event : Event) : Prop :=
  ∀ {shelf slot blob content}, store.Lands event shelf slot blob content →
    slot.1 ∈ store.bundles → shelf.checkQuota slot.2 blob = .ok () →
      shelf.Sound sha slot.2 blob content

theorem Inv.setShelf {sha : Content → String} {store next : Store}
    {webapp : Webapp} {shelf : Shelf} (h : store.Inv sha)
    (hshelves : next.shelves = (store.setShelf webapp shelf).shelves)
    (hshelf : shelf.Inv sha) : next.Inv sha := by
  intro other
  rw [hshelves]
  by_cases hother : other = webapp
  · rw [hother, setShelf_self]
    exact hshelf
  · rw [setShelf_of_ne _ _ hother]
    exact h other

theorem place_shelves (store : Store) (slot : Slot) (blob : BlobMeta)
    (file : Option Content) :
    (store.place slot blob file).2.shelves =
      if slot.1 ∈ store.bundles then
        (store.setShelf slot.1
          ((store.shelves slot.1).place slot.2 blob file).2).shelves
      else store.shelves := by
  by_cases hbundle : slot.1 ∈ store.bundles
  · rw [place, if_neg (not_not_intro hbundle), if_pos hbundle]
  · rw [place, if_pos hbundle, if_neg hbundle]

/-- A put that finishes changes what placing its file changes. -/
theorem finish_shelves {store : Store} {slot : Slot} {upload : InFlight}
    (hget : store.inflight.get? slot = some upload) (file : Option Content) :
    (store.finish slot upload.attempt (.ok file)).shelves =
      if slot.1 ∈ store.bundles then
        (store.setShelf slot.1
          ((store.shelves slot.1).place slot.2 upload.blob file).2).shelves
      else store.shelves := by
  have hplaced := place_shelves
    { store with inflight := store.inflight.remove slot } slot upload.blob file
  rw [finish, hget]
  dsimp only
  rw [if_neg (by simp)]
  rcases hplace : place
    { store with inflight := store.inflight.remove slot } slot
    upload.blob file with ⟨placed, next⟩
  rw [hplace] at hplaced
  cases placed with
  | error error => exact hplaced
  | ok changed => exact hplaced

theorem finish_cases (store : Store) (slot : Slot) (attempt : Nat)
    (outcome : Except String (Option Content)) :
    (store.finish slot attempt outcome).shelves = store.shelves ∨
      ∃ upload file, store.inflight.get? slot = some upload ∧
        upload.attempt = attempt ∧ outcome = .ok file ∧
        slot.1 ∈ store.bundles ∧
        (store.finish slot attempt outcome).shelves =
          (store.setShelf slot.1
            ((store.shelves slot.1).place slot.2 upload.blob file).2).shelves := by
  cases hget : store.inflight.get? slot with
  | none => exact Or.inl (by rw [finish, hget])
  | some upload =>
      by_cases hattempt : upload.attempt = attempt
      · cases outcome with
        | error reason =>
            refine Or.inl ?_
            rw [finish, hget]
            dsimp only
            rw [if_neg (not_not_intro hattempt)]
            rfl
        | ok file =>
            have hshelves := finish_shelves hget file
            rw [hattempt] at hshelves
            by_cases hbundle : slot.1 ∈ store.bundles
            · rw [if_pos hbundle] at hshelves
              exact Or.inr ⟨upload, file, rfl, hattempt, rfl, hbundle, hshelves⟩
            · rw [if_neg hbundle] at hshelves
              exact Or.inl hshelves
      · refine Or.inl ?_
        rw [finish, hget]
        dsimp only
        rw [if_pos hattempt]

/-- What a put that begins may do to its webapp's shelf. -/
inductive Begins (store : Store) (put : BeginPut) (room : Bool)
    (outcome : BeginOutcome) : Shelf → Prop
  | dropped : Begins store put room outcome
      ((store.shelves put.webapp).dropContent put.blob.sha256).2
  | recorded {content : Content}
      (found : (store.shelves put.webapp).files.get? put.blob.sha256 =
        some content)
      (length : content.length = put.blob.size)
      (fits : (store.shelves put.webapp).checkQuota put.key put.blob = .ok ()) :
      Begins store put room outcome
        ((store.shelves put.webapp).record put.key put.blob).2
  | placed {file : Option Content} {mid : Store}
      (examined : store.examine put = (.ok (some false), mid))
      (addressed : put.uploader.isSome) (full : room = true)
      (complete : outcome = .alreadyComplete file)
      (bundle : put.webapp ∈ store.bundles) :
      Begins store put room outcome
        ((mid.shelves put.webapp).place put.key put.blob file).2

theorem examine_cases (store : Store) (put : BeginPut) :
    (∃ answer, store.examine put = (answer, store) ∧
        answer ≠ .ok (some false) ∧
        (answer = .ok (some true) → ∃ content,
          (store.shelves put.webapp).files.get? put.blob.sha256 =
            some content ∧ content.length = put.blob.size)) ∨
      put.webapp ∈ store.bundles ∧ store.examine put =
        (.ok (some false), store.dropContent put.webapp put.blob.sha256) := by
  unfold examine
  split
  · exact Or.inl ⟨_, rfl, by simp, by simp⟩
  · rename_i hbundle
    rw [not_not] at hbundle
    unfold verifyStored
    cases hfile : (store.shelves put.webapp).files.get? put.blob.sha256 with
    | none => exact Or.inr ⟨hbundle, rfl⟩
    | some found =>
        dsimp only
        cases put.verdict with
        | none => exact Or.inl ⟨_, rfl, by simp, by simp⟩
        | some verdict =>
            cases verdict with
            | unreadable error => exact Or.inl ⟨_, rfl, by simp, by simp⟩
            | hashed actual current =>
                dsimp only
                split
                · exact Or.inl ⟨_, rfl, by simp, by simp⟩
                · split
                  · exact Or.inr ⟨hbundle, rfl⟩
                  · split
                    · exact Or.inl ⟨_, rfl, by simp, by simp⟩
                    · rename_i hlength
                      exact Or.inl ⟨_, rfl, by simp, fun _ =>
                        ⟨found, rfl, not_not.mp hlength⟩⟩

/-- The shelves when the transfer store has answered the begin of an upload. -/
def answered (store : Store) (slot : Slot) (blob : BlobMeta) :
    BeginOutcome → Webapp → Shelf
  | .alreadyComplete file => (store.place slot blob file).2.shelves
  | _ => store.shelves

/-- The put that an upload resumes is taken over before it begins. -/
theorem stream_shelves (store : Store) (slot : Slot) (blob : BlobMeta)
    (uploader : Address) (outcome : BeginOutcome) :
    ∃ mid : Store, mid.shelves = store.shelves ∧ mid.bundles = store.bundles ∧
      (store.stream slot blob uploader true outcome).2.shelves =
        mid.answered slot blob outcome := by
  unfold stream
  rw [if_neg (by simp)]
  dsimp only
  generalize hmid : (if ((store.inflight.get? slot).any fun prior =>
      prior.blob.sha256 = blob.sha256 ∧ prior.blob.size = blob.size) = true
    then store.replaceInflight slot (some uploader) blob .resumes
    else store) = mid
  refine ⟨mid, ?_, ?_, ?_⟩
  · rw [← hmid]
    split
    · exact replaceInflight_shelves _ _ _ _ _
    · rfl
  · rw [← hmid]
    split
    · exact replaceInflight_bundles _ _ _ _ _
    · rfl
  · cases outcome with
    | failed error => rfl
    | resume offset => exact replaceInflight_shelves _ _ _ _ _
    | alreadyComplete file =>
        dsimp only [answered]
        rcases mid.place slot blob file with ⟨placed, next⟩
        cases placed with
        | error error => rfl
        | ok changed => exact replaceInflight_shelves _ _ _ _ _

/-- An upload of a complete transfer changes what placing its file changes. -/
theorem stream_complete (store : Store) (slot : Slot) (blob : BlobMeta)
    (uploader : Address) (file : Option Content) :
    (store.stream slot blob uploader true (.alreadyComplete file)).2.shelves =
      if slot.1 ∈ store.bundles then
        (store.setShelf slot.1
          ((store.shelves slot.1).place slot.2 blob file).2).shelves
      else store.shelves := by
  obtain ⟨mid, hshelves, hbundles, hstream⟩ :=
    store.stream_shelves slot blob uploader (.alreadyComplete file)
  rw [hstream, answered, mid.place_shelves, hshelves, hbundles]
  simp only [setShelf, hshelves]

theorem stream_cases (store : Store) (slot : Slot) (blob : BlobMeta)
    (uploader : Address) (room : Bool) (outcome : BeginOutcome) :
    (store.stream slot blob uploader room outcome).2.shelves = store.shelves ∨
      room = true ∧ ∃ file, outcome = .alreadyComplete file ∧
        slot.1 ∈ store.bundles ∧
        (store.stream slot blob uploader room outcome).2.shelves =
          (store.setShelf slot.1
            ((store.shelves slot.1).place slot.2 blob file).2).shelves := by
  cases room with
  | false => exact Or.inl rfl
  | true =>
      cases outcome with
      | alreadyComplete file =>
          have hcomplete := store.stream_complete slot blob uploader file
          by_cases hbundle : slot.1 ∈ store.bundles
          · rw [if_pos hbundle] at hcomplete
            exact Or.inr ⟨rfl, file, rfl, hbundle, hcomplete⟩
          · rw [if_neg hbundle] at hcomplete
            exact Or.inl hcomplete
      | failed error =>
          obtain ⟨mid, hshelves, -, hstream⟩ :=
            store.stream_shelves slot blob uploader (.failed error)
          exact Or.inl (hstream.trans hshelves)
      | resume offset =>
          obtain ⟨mid, hshelves, -, hstream⟩ :=
            store.stream_shelves slot blob uploader (.resume offset)
          exact Or.inl (hstream.trans hshelves)

theorem setShelf_setShelf (store : Store) (webapp : Webapp)
    (old shelf : Shelf) :
    ((store.setShelf webapp old).setShelf webapp shelf).shelves =
      (store.setShelf webapp shelf).shelves := by
  funext other
  by_cases hother : other = webapp
  · rw [hother, setShelf_self, setShelf_self]
  · rw [setShelf_of_ne _ _ hother, setShelf_of_ne _ _ hother,
      setShelf_of_ne _ _ hother]

/-- A put that begins changes no shelf but its webapp's. -/
theorem begin_cases (store : Store) (put : BeginPut) (room : Bool)
    (outcome : BeginOutcome) :
    (store.begin? put room outcome).2.shelves = store.shelves ∨
      ∃ shelf, store.Begins put room outcome shelf ∧
        (store.begin? put room outcome).2.shelves =
          (store.setShelf put.webapp shelf).shelves := by
  unfold begin?
  rcases store.examine_cases put with
    ⟨answer, hanswer, hne, hstored⟩ | ⟨hbundle, hdropped⟩
  · rw [hanswer]
    cases answer with
    | error error => exact Or.inl rfl
    | ok isStored =>
        cases isStored with
        | none => exact Or.inl rfl
        | some isStored =>
            cases isStored with
            | false => exact absurd rfl hne
            | true =>
                obtain ⟨content, hfound, hlength⟩ := hstored rfl
                dsimp only [admitPut]
                cases hcheck : (store.shelves put.webapp).checkQuota put.key
                    put.blob with
                | error error => exact Or.inl rfl
                | ok fits =>
                    refine Or.inr ⟨_, .recorded hfound hlength hcheck, ?_⟩
                    simp
  · rw [hdropped]
    dsimp only [admitPut]
    have hsame : ∃ shelf, store.Begins put room outcome shelf ∧
        (store.dropContent put.webapp put.blob.sha256).shelves =
          (store.setShelf put.webapp shelf).shelves :=
      ⟨_, .dropped, rfl⟩
    refine Or.inr ?_
    cases ((store.dropContent put.webapp put.blob.sha256).shelves
        put.webapp).checkQuota put.key put.blob with
    | error error => exact hsame
    | ok fits =>
        rw [if_neg (by simp)]
        cases huploader : put.uploader with
        | none => exact hsame
        | some uploader =>
            rcases (store.dropContent put.webapp put.blob.sha256).stream_cases
                (put.webapp, put.key) put.blob uploader room outcome with
              hstream | ⟨hroom, file, hfile, -, hstream⟩
            · exact hstream ▸ hsame
            · refine ⟨_, .placed hdropped (by simp [huploader]) hroom hfile
                hbundle, ?_⟩
              exact hstream.trans (setShelf_setShelf store put.webapp _ _)

/-! ### What a step keeps -/

theorem Inv.finish {sha : Content → String} {store : Store} (h : store.Inv sha)
    {exited : List Slot} {slot : Slot} {attempt : Nat}
    {outcome : Except String (Option Content)}
    (hfair : store.Fair sha (.receive exited (.finish slot attempt outcome))) :
    ((store.retain exited).finish slot attempt outcome).Inv sha := by
  rcases (store.retain exited).finish_cases slot attempt outcome with
    hsame | ⟨upload, file, hget, hattempt, houtcome, hbundle, hset⟩
  · exact fun webapp => hsame ▸ h webapp
  · have hretained : (store.retain exited).Inv sha := h
    refine hretained.setShelf hset (Shelf.Inv.place (h slot.1) ?_)
    intro content hfile hcheck
    rw [houtcome, hfile, ← hattempt] at hfair
    exact hfair (.finish hget) hbundle hcheck

theorem Inv.begin {sha : Content → String} {store : Store} (h : store.Inv sha)
    {exited : List Slot} {put : BeginPut} {room : Bool} {outcome : BeginOutcome}
    (hfair : store.Fair sha (.receive exited (.begin put room outcome))) :
    ((store.retain exited).begin? put room outcome).2.Inv sha := by
  have hretained : (store.retain exited).Inv sha := h
  rcases (store.retain exited).begin_cases put room outcome with
    hsame | ⟨shelf, hbegins, hset⟩
  · exact fun webapp => hsame ▸ h webapp
  · refine hretained.setShelf hset ?_
    cases hbegins with
    | dropped => exact (h put.webapp).dropContent put.blob.sha256
    | recorded hfound hlength hcheck =>
        exact (h put.webapp).record hfound hlength hcheck
    | @placed file mid hexamined haddressed hfull hcomplete hbundle =>
        have hmid : (mid.shelves put.webapp).Inv sha := by
          rcases (store.retain exited).examine_cases put with
            ⟨answer, hanswer, hne, -⟩ | ⟨-, hdropped⟩
          · rw [hexamined, Prod.mk.injEq] at hanswer
            exact absurd hanswer.1.symm hne
          · rw [hexamined, Prod.mk.injEq] at hdropped
            rw [hdropped.2]
            show (((store.retain exited).setShelf put.webapp _).shelves
              put.webapp).Inv sha
            rw [setShelf_self]
            exact (h put.webapp).dropContent put.blob.sha256
        refine hmid.place ?_
        intro content hfile hcheck
        rw [hfull, hcomplete, hfile] at hfair
        exact hfair (.complete hexamined haddressed) hbundle hcheck

theorem Inv.delete {sha : Content → String} {store : Store} (h : store.Inv sha)
    (slot : Slot) : (store.delete slot).Inv sha := by
  unfold Store.delete
  have hcancelled : (store.cancel slot "the key was deleted").Inv sha := by
    intro webapp
    rw [cancel_shelves]
    exact h webapp
  dsimp only
  split
  · exact hcancelled
  · exact hcancelled.setShelf rfl ((hcancelled slot.1).delete slot.2)

theorem Inv.purge {sha : Content → String} {store : Store} (h : store.Inv sha)
    (webapp : Webapp) : (store.purge webapp).Inv sha := by
  unfold Store.purge
  have hcancelled := foldl_cancel_shelves
    (store.inflight.keys.filter fun slot => slot.1 = webapp)
    "the webapp was uninstalled" store
  refine Inv.setShelf (fun other => ?_) rfl Shelf.inv_empty
  rw [hcancelled]
  exact h other

theorem Inv.step {sha : Content → String} {store : Store} {event : Event}
    (h : store.Inv sha) (hfair : store.Fair sha event) :
    (store.step event).Inv sha := by
  cases event with
  | setBundles bundles => exact h
  | receive exited command =>
      have hretained : (store.retain exited).Inv sha := h
      cases command with
      | «begin» put room outcome => exact h.begin hfair
      | finish slot attempt outcome => exact h.finish hfair
      | delete slot => exact hretained.delete slot
      | purge webapp => exact hretained.purge webapp

end Store

end Blobs

end Bridgething
