/-
What the blob store finds when it starts again, after a run that was cut off
between any two of its calls.
-/
import Bridgething.Webapp.Calls

namespace Bridgething

namespace Blobs

/-! ### Names -/

theorem dot_not_mem {text : List Char} (h : isSha256Text text = true) :
    '.' ∉ text := by
  intro hmem
  have hdot := List.all_eq_true.mp (Bool.and_eq_true_iff.mp h).2 '.' hmem
  exact absurd hdot (by decide)

theorem isStoreName_of_isSha256 {name : String} (h : isSha256 name = true) :
    isStoreName name = true := by
  rw [isStoreName, h, Bool.or_true]

theorem stripStaged_staged (text : List Char) :
    stripStaged ('.' :: (text ++ ".staged".toList)) = some text := by
  have hsuffix : ".staged".toList.isSuffixOf (text ++ ".staged".toList) =
      true := by
    rw [List.isSuffixOf_iff_suffix]
    exact List.suffix_append _ _
  have hlength : (text ++ ".staged".toList).length - ".staged".length =
      text.length := by
    rw [List.length_append]
    exact Nat.add_sub_cancel _ _
  simp only [stripStaged, hsuffix, if_true, hlength, List.take_left]

theorem splitOnce_dot {text : List Char} (h : '.' ∉ text)
    (rest : List Char) : splitOnce (text ++ '.' :: rest) = some text := by
  have hmem : '.' ∈ text ++ '.' :: rest := by simp
  have htake : (text ++ '.' :: rest).takeWhile (· ≠ '.') = text := by
    rw [List.takeWhile_append_of_pos]
    · simp
    · intro c hc
      rw [decide_eq_true_eq]
      rintro rfl
      exact h hc
  rw [splitOnce, if_pos hmem, htake]

/-- A copy under way is found by its name. -/
theorem isStoreName_staged {sha256 : String} (h : isSha256 sha256 = true)
    (id : String) : isStoreName (stagingPath sha256 id) = true := by
  have htext : (stagingPath sha256 id).toList =
      '.' :: (sha256.toList ++ '.' :: id.toList ++ ".staged".toList) := by
    simp [stagingPath]
  have hsplit : splitOnce (sha256.toList ++ '.' :: id.toList) =
      some sha256.toList := splitOnce_dot (dot_not_mem h) _
  rw [isStoreName, htext, stripStaged_staged, Option.bind_some, hsplit]
  simp only [Option.any_some]
  rw [show isSha256Text sha256.toList = true from h, Bool.true_or]

namespace Shelf

variable {shelf : Shelf}

/-- The invariant of a shelf at every moment: keys and names stand once, digests
are digests, and the store knows the names of all its files. -/
structure Named (shelf : Shelf) : Prop where
  records : shelf.records.keys.Nodup
  files : shelf.files.keys.Nodup
  digest : ∀ entry ∈ shelf.records, isSha256 entry.2.sha256 = true
  name : ∀ entry ∈ shelf.files, isStoreName entry.1 = true

theorem named_empty : Named .empty where
  records := List.nodup_nil
  files := List.nodup_nil
  digest _ h := absurd h List.not_mem_nil
  name _ h := absurd h List.not_mem_nil

end Shelf

/-- A call that writes only names and digests that are such. -/
def Effect.Named : Effect → Prop
  | .rename sha256 _ | .renameStaged _ sha256 => isSha256 sha256 = true
  | .create name => isStoreName name = true
  | .setRecord _ blob => isSha256 blob.sha256 = true
  | _ => True

namespace Shelf

variable {shelf : Shelf}

theorem Named.put_file (h : Named shelf) {name : String}
    (hname : isStoreName name = true) (content : Content) :
    Named { shelf with files := shelf.files.put name content } where
  records := h.records
  files := Table.nodup_keys_put h.files _ _
  digest := h.digest
  name entry hmem := by
    rcases Table.mem_put hmem with rfl | hold
    · exact hname
    · exact h.name entry hold

theorem Named.remove_file (h : Named shelf) (name : String) :
    Named { shelf with files := shelf.files.remove name } where
  records := h.records
  files := Table.nodup_keys_remove h.files name
  digest := h.digest
  name entry hmem := h.name entry (List.filter_sublist.subset hmem)

theorem Named.apply_one (h : Named shelf) {effect : Effect}
    (heffect : effect.Named) : Named (effect.apply shelf) := by
  cases effect with
  | createDir => exact h
  | rename sha256 content =>
      exact h.put_file (isStoreName_of_isSha256 heffect) content
  | create name => exact h.put_file heffect []
  | append name byte =>
      simp only [Effect.apply]
      split
      · next content hget =>
          exact h.put_file (h.name _ (Table.mem_of_get? hget)) _
      · exact h
  | renameStaged name sha256 =>
      simp only [Effect.apply]
      split
      · exact (h.remove_file name).put_file (isStoreName_of_isSha256 heffect) _
      · exact h
  | setRecord key blob =>
      refine ⟨Table.nodup_keys_put h.records _ _, h.files, ?_, h.name⟩
      intro entry hmem
      rcases Table.mem_put hmem with rfl | hold
      · exact heffect
      · exact h.digest entry hold
  | deleteRecord key =>
      exact ⟨Table.nodup_keys_remove h.records key, h.files,
        fun entry hmem => h.digest entry (List.filter_sublist.subset hmem),
        h.name⟩
  | purgeRecords =>
      exact ⟨List.nodup_nil, h.files,
        fun _ hmem => absurd hmem List.not_mem_nil, h.name⟩
  | removeFile name => exact h.remove_file name
  | removeDir => exact h

/-- The invariant holds wherever a row of calls is cut off. -/
theorem Named.apply (h : Named shelf) {effects : List Effect}
    (heffects : ∀ effect ∈ effects, effect.Named) :
    Named (shelf.apply effects) := by
  induction effects generalizing shelf with
  | nil => exact h
  | cons effect effects ih =>
      exact ih (h.apply_one (heffects effect List.mem_cons_self))
        fun other hmem => heffects other (List.mem_cons_of_mem _ hmem)

/-! ### What the pass leaves -/

/-- What is left of a shelf when the store starts: every record has its content,
of its size; every record that had it is there, and its content as it was; and
every file is some record's content. -/
structure Recovered (before after : Shelf) : Prop where
  present : ∀ key blob, after.records.get? key = some blob →
    ∃ content, after.files.get? blob.sha256 = some content ∧
      content.length = blob.size
  kept : ∀ key blob content, before.records.get? key = some blob →
    before.files.get? blob.sha256 = some content →
      content.length = blob.size →
        after.records.get? key = some blob ∧
          after.files.get? blob.sha256 = some content
  referenced : ∀ name content, after.files.get? name = some content →
    ∃ key blob, after.records.get? key = some blob ∧ blob.sha256 = name

theorem Named.isWhole_iff (h : Named shelf) {key : String} {blob : BlobMeta}
    (hget : shelf.records.get? key = some blob) :
    shelf.isWhole blob = true ↔ ∃ content,
      shelf.files.get? blob.sha256 = some content ∧
        content.length = blob.size := by
  have hname := isStoreName_of_isSha256
    (h.digest _ (Table.mem_of_get? hget))
  rw [isWhole, onDisk, if_pos hname, decide_eq_true_eq,
    Option.map_eq_some_iff]

theorem mem_damagedKeys {env : Env} (h : Named shelf) {key : String}
    {blob : BlobMeta} (hget : shelf.records.get? key = some blob) :
    key ∈ env.listing shelf.damagedKeys ↔ shelf.isWhole blob = false := by
  rw [(env.perm _).mem_iff, damagedKeys, Table.keys, List.mem_map]
  constructor
  · rintro ⟨record, hrecord, rfl⟩
    obtain ⟨hmem, hdamaged⟩ := List.mem_filter.mp hrecord
    rw [Table.get?_of_mem h.records hmem] at hget
    obtain rfl := Option.some.inj hget
    simpa using hdamaged
  · intro hdamaged
    refine ⟨(key, blob), List.mem_filter.mpr
      ⟨Table.mem_of_get? hget, ?_⟩, rfl⟩
    simpa using hdamaged

theorem mem_referenced {name : String} (h : Named shelf) :
    name ∈ shelf.referenced ↔ ∃ key blob,
      shelf.records.get? key = some blob ∧ shelf.isWhole blob = true ∧
        blob.sha256 = name := by
  rw [referenced, List.mem_map]
  constructor
  · rintro ⟨record, hrecord, rfl⟩
    obtain ⟨hmem, hwhole⟩ := List.mem_filter.mp hrecord
    exact ⟨record.1, record.2, Table.get?_of_mem h.records hmem, hwhole, rfl⟩
  · rintro ⟨key, blob, hget, hwhole, rfl⟩
    exact ⟨(key, blob), List.mem_filter.mpr
      ⟨Table.mem_of_get? hget, hwhole⟩, rfl⟩

theorem mem_unreferencedNames {env : Env} (h : Named shelf) {name : String}
    {content : Content} (hget : shelf.files.get? name = some content) :
    name ∈ env.listing shelf.unreferencedNames ↔
      name ∉ shelf.referenced := by
  have hmem := Table.mem_of_get? hget
  have hname := h.name _ hmem
  rw [(env.perm _).mem_iff, unreferencedNames, Table.keys, List.mem_map]
  constructor
  · rintro ⟨file, hfile, rfl⟩
    have hkept := of_decide_eq_true (List.mem_filter.mp hfile).2
    exact hkept.2
  · intro hnot
    exact ⟨(name, content), List.mem_filter.mpr
      ⟨hmem, decide_eq_true ⟨hname, hnot⟩⟩, rfl⟩

theorem get?_filter_keys {ν : Type} {t : Table String ν} {keys : List String}
    {key : String} {value : ν} :
    Table.get? (t.filter fun entry => entry.1 ∉ keys) key = some value ↔
      t.get? key = some value ∧ key ∉ keys := by
  by_cases hkey : key ∈ keys
  · refine iff_of_false (fun hget => ?_) fun h => h.2 hkey
    have hkept := (List.mem_filter.mp (Table.mem_of_get? hget)).2
    exact of_decide_eq_true hkept hkey
  · rw [Table.get?_filter fun _ _ => decide_eq_true hkey]
    exact (and_iff_left hkey).symm

theorem apply_reconcile (shelf : Shelf) (env : Env) :
    shelf.apply (shelf.reconcileSteps env) =
      { records := shelf.records.filter fun record =>
          record.1 ∉ env.listing shelf.damagedKeys
        files := shelf.files.filter fun file =>
          file.1 ∉ env.listing shelf.unreferencedNames } := by
  rw [reconcileSteps, apply_append, apply_deletes, apply_append,
    apply_removes]
  split <;> rfl

/-- The pass recovers whatever stands on the disk. -/
theorem Named.recovered (h : Named shelf) (env : Env) :
    Recovered shelf (shelf.apply (shelf.reconcileSteps env)) := by
  rw [apply_reconcile]
  have hwhole : ∀ {key blob}, shelf.records.get? key = some blob →
      key ∉ env.listing shelf.damagedKeys → shelf.isWhole blob = true := by
    intro key blob hget hkept
    rw [mem_damagedKeys h hget] at hkept
    exact eq_true_of_ne_false hkept
  have hcontent : ∀ {key blob content},
      shelf.records.get? key = some blob → shelf.isWhole blob = true →
        shelf.files.get? blob.sha256 = some content →
          Table.get? (shelf.files.filter fun file =>
            file.1 ∉ env.listing shelf.unreferencedNames) blob.sha256 =
              some content := by
    intro key blob content hget hblob hfile
    refine get?_filter_keys.mpr ⟨hfile, ?_⟩
    rw [mem_unreferencedNames h hfile, not_not]
    exact (mem_referenced h).mpr ⟨key, blob, hget, hblob, rfl⟩
  constructor
  · intro key blob hget
    obtain ⟨hold, hkept⟩ := get?_filter_keys.mp hget
    have hblob := hwhole hold hkept
    obtain ⟨content, hfile, hlength⟩ := (h.isWhole_iff hold).mp hblob
    exact ⟨content, hcontent hold hblob hfile, hlength⟩
  · intro key blob content hget hfile hlength
    have hblob := (h.isWhole_iff hget).mpr ⟨content, hfile, hlength⟩
    refine ⟨get?_filter_keys.mpr ⟨hget, ?_⟩, hcontent hget hblob hfile⟩
    rw [mem_damagedKeys h hget, hblob]
    exact Bool.noConfusion
  · intro name content hget
    obtain ⟨hold, hkept⟩ := get?_filter_keys.mp hget
    rw [mem_unreferencedNames h hold, not_not] at hkept
    obtain ⟨key, blob, hrecord, hblob, hname⟩ := (mem_referenced h).mp hkept
    refine ⟨key, blob, get?_filter_keys.mpr ⟨hrecord, ?_⟩, hname⟩
    rw [mem_damagedKeys h hrecord, hblob]
    exact Bool.noConfusion

end Shelf

/-! ### What the calls of a command write and take away -/

/-- A call that takes content only where no record needs it or it is lost, and
records only what is in place. -/
def Effect.Safe (lost : String → Prop) (shelf : Shelf) : Effect → Prop
  | .removeFile name => shelf.references name = false ∨ lost name
  | .setRecord _ blob =>
      ∃ content, shelf.files.get? blob.sha256 = some content
  | _ => True

namespace Shelf

variable {shelf : Shelf} {lost : String → Prop}

def Safe (lost : String → Prop) : Shelf → List Effect → Prop
  | _, [] => True
  | shelf, effect :: effects =>
      effect.Safe lost shelf ∧ Safe lost (effect.apply shelf) effects

theorem safe_append {first rest : List Effect} :
    shelf.Safe lost (first ++ rest) ↔
      shelf.Safe lost first ∧ (shelf.apply first).Safe lost rest := by
  induction first generalizing shelf with
  | nil => exact (iff_of_eq (true_and _)).symm
  | cons effect first ih =>
      rw [List.cons_append, Safe, Safe, ih, and_assoc]
      rfl

theorem safe_of_forall {effects : List Effect}
    (h : ∀ effect ∈ effects, ∀ shelf, effect.Safe lost shelf) :
    shelf.Safe lost effects := by
  induction effects generalizing shelf with
  | nil => trivial
  | cons effect effects ih =>
      exact ⟨h effect List.mem_cons_self shelf,
        ih fun other hmem => h other (List.mem_cons_of_mem _ hmem)⟩

theorem safe_collect (shelf : Shelf) (sha256 : String) :
    shelf.Safe lost (shelf.collectSteps sha256) := by
  rw [collectSteps]
  split
  · trivial
  · next hnone => exact ⟨Or.inl (eq_false_of_ne_true hnone), trivial⟩

theorem safe_record {key : String} {blob : BlobMeta} {content : Content}
    (h : shelf.files.get? blob.sha256 = some content) :
    shelf.Safe lost (shelf.recordSteps key blob) := by
  rw [recordSteps]
  refine ⟨⟨content, h⟩, ?_⟩
  split
  · split
    · exact safe_collect _ _
    · trivial
  · trivial

theorem safe_drop {sha256 : String} (h : lost sha256) :
    shelf.Safe lost (shelf.dropSteps sha256) := by
  refine ⟨Or.inr h, safe_of_forall fun effect hmem other => ?_⟩
  obtain ⟨key, -, rfl⟩ := List.mem_map.mp hmem
  trivial

theorem safe_land (staging : Option String) (sha256 : String)
    (content : Content) :
    shelf.Safe lost (landSteps staging sha256 content) := by
  refine safe_of_forall fun effect hmem other => ?_
  cases staging with
  | none =>
      rw [List.mem_singleton.mp hmem]
      trivial
  | some id =>
      rcases List.mem_cons.mp hmem with rfl | hmem
      · trivial
      rcases List.mem_append.mp hmem with hmem | hmem
      · obtain ⟨byte, -, rfl⟩ := List.mem_map.mp hmem
        trivial
      · rw [List.mem_singleton.mp hmem]
        trivial

theorem safe_place {staging : Option String} (h : shelf.Fresh staging)
    (key : String) (blob : BlobMeta) (file : Option Content) :
    shelf.Safe lost (shelf.placeSteps staging key blob file) := by
  simp only [placeSteps]
  split
  · trivial
  · refine ⟨trivial, ?_⟩
    split
    · trivial
    · refine safe_append.mpr ⟨safe_land _ _ _, ?_⟩
      rw [show Effect.apply shelf .createDir = shelf from rfl, apply_land h]
      exact safe_record (Table.get?_put_self _ _ _)

theorem safe_delete (shelf : Shelf) (key : String) :
    shelf.Safe lost (shelf.deleteSteps key) := by
  rw [deleteSteps]
  split
  · exact ⟨trivial, safe_collect _ _⟩
  · trivial

/-- Without records, every file may go. -/
theorem safe_removes {shelf : Shelf} (h : shelf.records = [])
    (names : List String) :
    shelf.Safe lost (names.map .removeFile) := by
  induction names generalizing shelf with
  | nil => trivial
  | cons name names ih =>
      refine ⟨Or.inl ?_, ih h⟩
      rw [references, h]
      rfl

theorem safe_purge (shelf : Shelf) (env : Env) :
    shelf.Safe lost (shelf.purgeSteps env) :=
  ⟨trivial, safe_append.mpr ⟨safe_removes rfl _, trivial, trivial⟩⟩

end Shelf

/-- A put finds the content of its digest gone, or of another digest. -/
def Store.Lost (store : Store) (command : Command) (sha256 : String) : Prop :=
  ∃ put room outcome, command = .begin put room outcome ∧
    put.blob.sha256 = sha256 ∧
    ((store.shelves put.webapp).files.get? sha256 = none ∨
      ∃ actual, put.verdict = some (.hashed actual true) ∧ actual ≠ sha256)

namespace Store

variable {store : Store}

theorem safe_verify {put : BeginPut} {room : Bool} {outcome : BeginOutcome} :
    (store.shelves put.webapp).Safe
      (store.Lost (.begin put room outcome)) (store.verifySteps put) := by
  simp only [verifySteps]
  split
  · next hnone =>
      exact Shelf.safe_drop ⟨put, room, outcome, rfl, rfl, Or.inl hnone⟩
  · split
    · next actual hverdict =>
        split
        · next hother =>
            exact Shelf.safe_drop ⟨put, room, outcome, rfl, rfl,
              Or.inr ⟨actual, hverdict, hother⟩⟩
        · trivial
    · trivial

theorem safe_begin {env : Env} (hkeys : store.Keyed) {put : BeginPut}
    (hfresh : (store.shelves put.webapp).Fresh env.staging) {room : Bool}
    {outcome : BeginOutcome} :
    (store.shelves put.webapp).Safe (store.Lost (.begin put room outcome))
      (store.beginSteps env put room outcome) := by
  rw [beginSteps]
  split
  · trivial
  · next hbundle =>
      refine Shelf.safe_append.mpr ⟨safe_verify, ?_⟩
      obtain ⟨hshelves, -⟩ := store.examine_shelves hkeys put
      rw [if_neg hbundle] at hshelves
      have hmid : (store.examine put).2.shelves put.webapp =
          (store.shelves put.webapp).apply (store.verifySteps put) := by
        rw [hshelves, cut, if_pos rfl]
      have hstill := fresh_examine hfresh
      rcases hexamined : store.examine put with ⟨answer, mid⟩
      rw [hexamined] at hmid hstill
      rw [← hmid]
      rcases answer with error | (_ | isStored)
      · trivial
      · trivial
      · simp only [admitSteps]
        split
        · trivial
        · cases isStored with
          | true =>
              rcases store.examine_cases put with
                ⟨found, hfound, -, hcontent⟩ | ⟨-, hdropped⟩
              · rw [hexamined] at hfound
                obtain ⟨rfl, rfl⟩ := Prod.mk.inj hfound
                obtain ⟨content, hget, -⟩ := hcontent rfl
                exact Shelf.safe_record hget
              · rw [hexamined] at hdropped
                simp at hdropped
          | false =>
              simp only [Bool.false_eq_true, if_false]
              split
              · split
                · exact Shelf.safe_place hstill _ _ _
                · trivial
              · trivial

/-- No call of a command takes away content that a record needs, unless it is
lost; and none records what is not in place. -/
theorem safe_steps {env : Env} (hkeys : store.Keyed) {command : Command}
    (hfresh : (store.shelves command.webapp).Fresh env.staging) :
    (store.shelves command.webapp).Safe (store.Lost command)
      (store.steps env command) := by
  cases command with
  | «begin» put room outcome => exact safe_begin hkeys hfresh
  | finish slot attempt outcome =>
      simp only [steps, finishSteps]
      split
      · split
        · exact Shelf.safe_place hfresh _ _ _
        · trivial
      · trivial
  | delete slot => exact Shelf.safe_delete _ _
  | purge webapp => exact Shelf.safe_purge _ _

end Store

/-! ### Only digests are written -/

/-- A put is of a digest, as its key is checked before it is handed on. -/
def Command.Named : Command → Prop
  | .begin put _ _ => isSha256 put.blob.sha256 = true
  | _ => True

namespace Shelf

variable {shelf : Shelf}

theorem named_removed (names : List String) :
    ∀ effect ∈ names.map Effect.removeFile, effect.Named := by
  intro effect hmem
  obtain ⟨name, -, rfl⟩ := List.mem_map.mp hmem
  trivial

theorem named_deleted (keys : List String) :
    ∀ effect ∈ keys.map Effect.deleteRecord, effect.Named := by
  intro effect hmem
  obtain ⟨key, -, rfl⟩ := List.mem_map.mp hmem
  trivial

theorem named_collect (shelf : Shelf) (sha256 : String) :
    ∀ effect ∈ shelf.collectSteps sha256, effect.Named := by
  intro effect hmem
  rw [collectSteps] at hmem
  split at hmem
  · cases hmem
  · rw [List.mem_singleton.mp hmem]
    trivial

theorem named_record {key : String} {blob : BlobMeta}
    (h : isSha256 blob.sha256 = true) :
    ∀ effect ∈ shelf.recordSteps key blob, effect.Named := by
  intro effect hmem
  rcases List.mem_cons.mp hmem with rfl | hmem
  · exact h
  · split at hmem
    · split at hmem
      · exact named_collect _ _ effect hmem
      · cases hmem
    · cases hmem

theorem named_drop (shelf : Shelf) (sha256 : String) :
    ∀ effect ∈ shelf.dropSteps sha256, effect.Named := by
  intro effect hmem
  rcases List.mem_cons.mp hmem with rfl | hmem
  · trivial
  · exact named_deleted _ effect hmem

theorem named_land {sha256 : String} (h : isSha256 sha256 = true)
    (staging : Option String) (content : Content) :
    ∀ effect ∈ landSteps staging sha256 content, effect.Named := by
  intro effect hmem
  cases staging with
  | none =>
      rw [List.mem_singleton.mp hmem]
      exact h
  | some id =>
      rcases List.mem_cons.mp hmem with rfl | hmem
      · exact isStoreName_staged h id
      rcases List.mem_append.mp hmem with hmem | hmem
      · obtain ⟨byte, -, rfl⟩ := List.mem_map.mp hmem
        trivial
      · rw [List.mem_singleton.mp hmem]
        exact h

theorem named_place {staging : Option String} {key : String}
    {blob : BlobMeta} (h : isSha256 blob.sha256 = true)
    (file : Option Content) :
    ∀ effect ∈ shelf.placeSteps staging key blob file, effect.Named := by
  intro effect hmem
  simp only [placeSteps] at hmem
  split at hmem
  · cases hmem
  rcases List.mem_cons.mp hmem with rfl | hmem
  · trivial
  split at hmem
  · cases hmem
  rcases List.mem_append.mp hmem with hmem | hmem
  · exact named_land h _ _ effect hmem
  · exact named_record h effect hmem

theorem named_delete (shelf : Shelf) (key : String) :
    ∀ effect ∈ shelf.deleteSteps key, effect.Named := by
  intro effect hmem
  rw [deleteSteps] at hmem
  split at hmem
  · rcases List.mem_cons.mp hmem with rfl | hmem
    · trivial
    · exact named_collect _ _ effect hmem
  · cases hmem

theorem named_purge (shelf : Shelf) (env : Env) :
    ∀ effect ∈ shelf.purgeSteps env, effect.Named := by
  intro effect hmem
  rcases List.mem_cons.mp hmem with rfl | hmem
  · trivial
  rcases List.mem_append.mp hmem with hmem | hmem
  · exact named_removed _ effect hmem
  · rw [List.mem_singleton.mp hmem]
    trivial

theorem named_reconcile (shelf : Shelf) (env : Env) :
    ∀ effect ∈ shelf.reconcileSteps env, effect.Named := by
  intro effect hmem
  rcases List.mem_append.mp hmem with hmem | hmem
  · exact named_deleted _ effect hmem
  rcases List.mem_append.mp hmem with hmem | hmem
  · exact named_removed _ effect hmem
  · split at hmem
    · rw [List.mem_singleton.mp hmem]
      trivial
    · cases hmem

end Shelf

/-- Content is renamed into place, and names are listed as they come. -/
def Env.plainEnv : Env := ⟨none, id, fun _ => List.Perm.refl _⟩

namespace Store

variable {store : Store}

/-- The invariant of a store that runs. -/
structure Named (store : Store) : Prop where
  shelf : ∀ webapp, (store.shelves webapp).Named
  upload : ∀ entry ∈ store.inflight, isSha256 entry.2.blob.sha256 = true

theorem Named.keyed (h : Named store) : store.Keyed :=
  ⟨fun webapp => (h.shelf webapp).records, fun webapp => (h.shelf webapp).files⟩

theorem named_verify (store : Store) (put : BeginPut) :
    ∀ effect ∈ store.verifySteps put, effect.Named := by
  intro effect hmem
  simp only [verifySteps] at hmem
  split at hmem
  · exact Shelf.named_drop _ _ effect hmem
  split at hmem
  · split at hmem
    · exact Shelf.named_drop _ _ effect hmem
    · cases hmem
  · cases hmem

theorem named_admit {env : Env} {put : BeginPut} {isStored room : Bool}
    {outcome : BeginOutcome} (h : isSha256 put.blob.sha256 = true) :
    ∀ effect ∈ store.admitSteps env put isStored room outcome,
      effect.Named := by
  intro effect hmem
  simp only [admitSteps] at hmem
  split at hmem
  · cases hmem
  split at hmem
  · exact Shelf.named_record h effect hmem
  split at hmem
  · split at hmem
    · exact Shelf.named_place h _ effect hmem
    · cases hmem
  · cases hmem

theorem Named.steps (h : Named store) {env : Env} {command : Command}
    (hcommand : command.Named) :
    ∀ effect ∈ store.steps env command, effect.Named := by
  intro effect hmem
  cases command with
  | «begin» put room outcome =>
      simp only [Store.steps, beginSteps] at hmem
      split at hmem
      · cases hmem
      rcases List.mem_append.mp hmem with hmem | hmem
      · exact named_verify store put effect hmem
      · split at hmem
        · exact named_admit hcommand effect hmem
        · cases hmem
  | finish slot attempt outcome =>
      simp only [Store.steps, finishSteps] at hmem
      split at hmem
      · next upload file hget =>
          split at hmem
          · exact Shelf.named_place
              (h.upload _ (Table.mem_of_get? hget)) _ effect hmem
          · cases hmem
      · cases hmem
  | delete slot => exact Shelf.named_delete _ _ effect hmem
  | purge webapp => exact Shelf.named_purge _ _ effect hmem

/-- Wherever a command is cut off, the shelves are in order. -/
theorem Named.cut (h : Named store) {env : Env} {command : Command}
    (hcommand : command.Named) (count : Nat) (webapp : Webapp) :
    (store.cut command.webapp ((store.steps env command).take count)
      webapp).Named := by
  rw [Store.cut]
  split
  · exact (h.shelf _).apply fun effect hmem =>
      h.steps hcommand effect (List.mem_of_mem_take hmem)
  · exact h.shelf webapp

theorem Named.retain (h : Named store) (exited : List Slot) :
    Named (store.retain exited) :=
  ⟨h.shelf, fun entry hmem =>
    h.upload entry (List.filter_sublist.subset hmem)⟩

theorem Named.handle (h : Named store) {command : Command}
    (hcommand : command.Named) : Named (store.handle command) where
  shelf webapp := by
    have hfresh : (store.shelves command.webapp).Fresh
        Env.plainEnv.staging := by
      intro id sha256 hid
      cases hid
    rw [handle_shelves h.keyed hfresh]
    have hcut : (store.cut command.webapp ((store.steps .plainEnv command).take
        (store.steps .plainEnv command).length) webapp).Named :=
      h.cut hcommand _ webapp
    rwa [List.take_length] at hcut
  upload entry hmem := by
    rcases store.handle_inflight command entry hmem with
      hold | ⟨put, room, outcome, rfl, hblob⟩
    · exact h.upload entry hold
    · rw [hblob]
      exact hcommand

end Store

/-! ### Lives of the store -/

def Event.Named : Event → Prop
  | .receive _ command => command.Named
  | .setBundles _ => True

/-- The store as it starts on a disk: every webapp's shelf recovered, and
nothing in flight. -/
def Store.started (env : Env) (disk : Webapp → Shelf)
    (bundles : List Webapp) : Store where
  shelves := fun webapp =>
    (disk webapp).apply ((disk webapp).reconcileSteps env)
  bundles := bundles
  inflight := []
  nextAttempt := 0
  events := []

/-- The stores that run on a disk. -/
inductive Running (disk : Webapp → Shelf) : Store → Prop
  | started (env : Env) (bundles : List Webapp) :
      Running disk (.started env disk bundles)
  | step {store : Store} {event : Event} (running : Running disk store)
      (named : event.Named) : Running disk (store.step event)

/-- What stands on a disk when the store is cut off: when it starts, each shelf
after any of the calls of the pass, and when it runs, the shelf of a command's
webapp after any of the command's calls. -/
inductive OnDisk : (Webapp → Shelf) → Prop
  | fresh : OnDisk fun _ => .empty
  | starting {disk : Webapp → Shelf} (before : OnDisk disk)
      (env : Webapp → Env) (count : Webapp → Nat) :
      OnDisk fun webapp => (disk webapp).apply
        (((disk webapp).reconcileSteps (env webapp)).take (count webapp))
  | running {disk : Webapp → Shelf} {store : Store} {exited : List Slot}
      {command : Command} {env : Env} (before : OnDisk disk)
      (running : Running disk store) (named : command.Named)
      (fresh : ((store.retain exited).shelves command.webapp).Fresh
        env.staging)
      (count : Nat) :
      OnDisk ((store.retain exited).cut command.webapp
        (((store.retain exited).steps env command).take count))

theorem Running.named {disk : Webapp → Shelf} {store : Store}
    (h : Running disk store) (hdisk : ∀ webapp, (disk webapp).Named) :
    store.Named := by
  induction h with
  | started env bundles =>
      refine ⟨fun webapp => ?_, fun _ hmem => absurd hmem List.not_mem_nil⟩
      exact (hdisk webapp).apply (Shelf.named_reconcile _ env)
  | @step store event _ hnamed ih =>
      cases event with
      | setBundles bundles => exact ⟨ih.shelf, ih.upload⟩
      | receive exited command => exact (ih.retain exited).handle hnamed

theorem OnDisk.named {disk : Webapp → Shelf} (h : OnDisk disk) :
    ∀ webapp, (disk webapp).Named := by
  induction h with
  | fresh => exact fun _ => Shelf.named_empty
  | starting _ env count ih =>
      intro webapp
      exact (ih webapp).apply fun effect hmem =>
        Shelf.named_reconcile _ _ effect (List.mem_of_mem_take hmem)
  | running _ hrunning hnamed _ count ih =>
      exact ((hrunning.named ih).retain _).cut hnamed count

/-- Wherever the store was cut off, it recovers when it starts, and nothing it
does then takes away content that a record needs and that is not lost. -/
theorem OnDisk.recovers {disk : Webapp → Shelf} (h : OnDisk disk) :
    (∀ env webapp, Shelf.Recovered (disk webapp)
      ((disk webapp).apply ((disk webapp).reconcileSteps env))) ∧
    ∀ store exited command env, Running disk store →
      ((store.retain exited).shelves command.webapp).Fresh env.staging →
        ((store.retain exited).shelves command.webapp).Safe
          ((store.retain exited).Lost command)
          ((store.retain exited).steps env command) :=
  ⟨fun env webapp => (h.named webapp).recovered env,
    fun _ exited _ _ hrunning hfresh =>
      Store.safe_steps ((hrunning.named h.named).retain exited).keyed hfresh⟩

/-- A put of one byte. -/
def firstPut : BeginPut where
  webapp := 0
  key := "k"
  blob := ⟨String.ofList (List.replicate 64 'a'), "text/plain", 1⟩
  uploader := some 0
  verdict := none

def uploading : Store :=
  (Store.started .plainEnv (fun _ => .empty) [0]).step
    (.receive [] (.begin firstPut true (.resume 0)))

/-- The content is in place, and its record not yet written. -/
def unrecorded : Webapp → Shelf :=
  (uploading.retain []).cut 0
    (((uploading.retain []).steps .plainEnv
      (.finish (0, "k") 1 (.ok (some [7])))).take 2)

theorem unrecorded_onDisk : OnDisk unrecorded := by
  have hrunning : Running (fun _ => .empty) uploading :=
    .step (.started _ _) (by decide +kernel : isSha256 _ = true)
  have hnamed :
      Command.Named (.finish (0, "k") 1 (.ok (some [7]))) := trivial
  have hfresh : ((uploading.retain []).shelves 0).Fresh
      Env.plainEnv.staging := by
    intro id sha256 hid
    cases hid
  exact OnDisk.running .fresh hrunning hnamed hfresh 2

theorem recovers_unrecorded :
    Shelf.Recovered (unrecorded 0)
      ((unrecorded 0).apply ((unrecorded 0).reconcileSteps .plainEnv)) :=
  unrecorded_onDisk.recovers.1 .plainEnv 0

end Blobs

end Bridgething
