/-
The calls of a command of the blob store come to what the command does to the
shelves, and which uploads it leaves in flight.
-/
import Bridgething.Webapp.Consistency
import Bridgething.Webapp.Effects

namespace Bridgething

namespace Blobs

namespace Shelf

variable {shelf : Shelf}

/-! ### The calls of a handler come to what it does -/

theorem apply_append (shelf : Shelf) (first rest : List Effect) :
    shelf.apply (first ++ rest) = (shelf.apply first).apply rest :=
  List.foldl_append

theorem apply_deletes (shelf : Shelf) (keys : List String) :
    shelf.apply (keys.map .deleteRecord) =
      { shelf with
        records := shelf.records.filter fun record => record.1 ∉ keys } := by
  induction keys generalizing shelf with
  | nil => simp [apply]
  | cons key keys ih =>
      rw [List.map_cons]
      refine (ih _).trans ?_
      simp only [Effect.apply, Table.remove, List.filter_filter,
        List.mem_cons, not_or]
      congr 2
      funext record
      by_cases hkey : record.1 = key <;> simp [hkey]

theorem apply_removes (shelf : Shelf) (names : List String) :
    shelf.apply (names.map .removeFile) =
      { shelf with
        files := shelf.files.filter fun file => file.1 ∉ names } := by
  induction names generalizing shelf with
  | nil => simp [apply]
  | cons name names ih =>
      rw [List.map_cons]
      refine (ih _).trans ?_
      simp only [Effect.apply, Table.remove, List.filter_filter,
        List.mem_cons, not_or]
      congr 2
      funext file
      by_cases hname : file.1 = name <;> simp [hname]

theorem apply_collect (shelf : Shelf) (sha256 : String) :
    shelf.apply (shelf.collectSteps sha256) =
      shelf.collectUnreferenced sha256 := by
  rw [collectSteps, collectUnreferenced]
  split <;> rfl

theorem apply_record (shelf : Shelf) (key : String) (blob : BlobMeta) :
    shelf.apply (shelf.recordSteps key blob) =
      (shelf.record key blob).2 := by
  rw [recordSteps, record]
  cases shelf.records.get? key with
  | none => rfl
  | some previous =>
      simp only
      split
      · exact apply_collect _ previous.sha256
      · rfl

theorem apply_drop (hkeys : shelf.records.keys.Nodup) (sha256 : String) :
    shelf.apply (shelf.dropSteps sha256) = (shelf.dropContent sha256).2 := by
  refine (apply_deletes _ _).trans ?_
  have hrecords : (shelf.records.filter fun record => record.1 ∉
      (Table.keys (shelf.records.filter fun held =>
        held.2.sha256 = sha256)).mergeSort (· ≤ ·)) =
      shelf.records.filter fun record => record.2.sha256 ≠ sha256 := by
    refine List.filter_congr fun record hrecord => ?_
    have hlisted : record.1 ∈ (Table.keys (shelf.records.filter fun held =>
        held.2.sha256 = sha256)).mergeSort (· ≤ ·) ↔
          record.2.sha256 = sha256 := by
      rw [List.mem_mergeSort, Table.keys, List.mem_map]
      constructor
      · rintro ⟨held, hheld, hsame⟩
        obtain ⟨hmem, hdigest⟩ := List.mem_filter.mp hheld
        have hvalue : held.2 = record.2 :=
          Table.eq_of_mem_of_mem hkeys hmem (hsame ▸ hrecord)
        rw [← hvalue]
        exact of_decide_eq_true hdigest
      · intro hdigest
        exact ⟨record, List.mem_filter.mpr
          ⟨hrecord, decide_eq_true hdigest⟩, rfl⟩
    rw [decide_eq_decide, hlisted]
  simp only [Effect.apply, dropContent]
  rw [hrecords]

theorem apply_copied (name : String) {content : Content} (bytes : Content) :
    ∀ {shelf : Shelf}, shelf.files.get? name = some content →
      shelf.apply (bytes.map (.append name)) =
        { shelf with files := shelf.files.put name (content ++ bytes) } := by
  induction bytes generalizing content with
  | nil =>
      intro shelf hget
      simp [apply, Table.put_get? hget]
  | cons byte bytes ih =>
      intro shelf hget
      have hstep : Effect.apply shelf (.append name byte) =
          { shelf with files := shelf.files.put name (content ++ [byte]) } := by
        simp only [Effect.apply, hget]
      rw [List.map_cons, apply, List.foldl_cons, hstep]
      refine (ih (Table.get?_put_self _ _ _)).trans ?_
      simp

/-- A copy under way has a name that nothing else has. -/
def Fresh (staging : Option String) (shelf : Shelf) : Prop :=
  ∀ id sha256, staging = some id →
    stagingPath sha256 id ∉ shelf.files.keys

theorem apply_land {staging : Option String} (h : shelf.Fresh staging)
    (sha256 : String) (content : Content) :
    shelf.apply (landSteps staging sha256 content) =
      { shelf with files := shelf.files.put sha256 content } := by
  cases staging with
  | none => rfl
  | some id =>
      have hfresh := h id sha256 rfl
      have hcreated : (shelf.files.put (stagingPath sha256 id) []).get?
          (stagingPath sha256 id) = some [] := Table.get?_put_self _ _ _
      rw [landSteps]
      refine (apply_append _ _ _).trans ?_
      rw [apply_copied _ content hcreated]
      simp only [apply, List.foldl_cons, List.foldl_nil, Effect.apply,
        Table.get?_put_self, List.nil_append, Table.put_put,
        Table.remove_put, Table.remove_of_not_mem hfresh]

theorem apply_place {staging : Option String} (h : shelf.Fresh staging)
    (key : String) (blob : BlobMeta) (file : Option Content) :
    shelf.apply (shelf.placeSteps staging key blob file) =
      (shelf.place key blob file).2 := by
  simp only [placeSteps, place]
  cases shelf.checkQuota key blob with
  | error error => rfl
  | ok fits =>
      cases file with
      | none => rfl
      | some content =>
          refine (apply_append _ _ _).trans ?_
          rw [show Effect.apply shelf .createDir = shelf from rfl]
          rw [apply_land h, apply_record]

theorem apply_delete (shelf : Shelf) (key : String) :
    shelf.apply (shelf.deleteSteps key) = shelf.delete key := by
  rw [deleteSteps, delete]
  cases shelf.records.get? key with
  | none => rfl
  | some blob => exact apply_collect _ blob.sha256

theorem apply_purge (shelf : Shelf) (env : Env) :
    shelf.apply (shelf.purgeSteps env) = .empty := by
  have hall : (shelf.files.filter fun file =>
      file.1 ∉ env.listing shelf.files.keys) = [] := by
    refine List.filter_eq_nil_iff.mpr fun file hfile => ?_
    have hlisted : file.1 ∈ env.listing shelf.files.keys :=
      (env.perm _).mem_iff.mpr (List.mem_map_of_mem hfile)
    simp [hlisted]
  refine (apply_append _ _ _).trans ?_
  rw [apply_removes]
  simp only [Effect.apply, hall]
  rfl

end Shelf

namespace Store

variable {store : Store}

/-- What a step may count on: every key and every name stands once. -/
structure Keyed (store : Store) : Prop where
  records : ∀ webapp, (store.shelves webapp).records.keys.Nodup
  files : ∀ webapp, (store.shelves webapp).files.keys.Nodup

/-- The shelves, with that of one webapp as some of its calls leave it. -/
def cut (store : Store) (webapp : Webapp) (effects : List Effect) :
    Webapp → Shelf :=
  fun other =>
    if other = webapp then (store.shelves webapp).apply effects
    else store.shelves other

theorem cut_eq (store : Store) (webapp : Webapp) (effects : List Effect) :
    store.cut webapp effects =
      (store.setShelf webapp
        ((store.shelves webapp).apply effects)).shelves := by
  funext other
  simp only [cut, setShelf]

theorem cut_nil (store : Store) (webapp : Webapp) :
    store.cut webapp [] = store.shelves := by
  funext other
  rw [cut]
  split
  · next hsame => rw [hsame]; rfl
  · rfl

theorem dropContent_shelves (hkeys : store.Keyed) (webapp : Webapp)
    (sha256 : String) :
    (store.dropContent webapp sha256).shelves =
      store.cut webapp ((store.shelves webapp).dropSteps sha256) := by
  rw [cut_eq, Shelf.apply_drop (hkeys.records webapp)]
  rfl

/-- What the examination of a put changes, and what it leaves as it is. -/
theorem examine_shelves (hkeys : store.Keyed) (put : BeginPut) :
    (store.examine put).2.shelves =
        (if put.webapp ∉ store.bundles then store.shelves
          else store.cut put.webapp (store.verifySteps put)) ∧
      (store.examine put).2.bundles = store.bundles := by
  rw [examine]
  split
  · exact ⟨rfl, rfl⟩
  · have hdrop := store.dropContent_shelves hkeys put.webapp put.blob.sha256
    simp only [verifyStored, verifySteps]
    cases (store.shelves put.webapp).files.get? put.blob.sha256 with
    | none => exact ⟨hdrop, rfl⟩
    | some found =>
        simp only
        cases put.verdict with
        | none => exact ⟨(cut_nil _ _).symm, rfl⟩
        | some verdict =>
            cases verdict with
            | unreadable error => exact ⟨(cut_nil _ _).symm, rfl⟩
            | hashed actual current =>
                cases current with
                | false => exact ⟨(cut_nil _ _).symm, rfl⟩
                | true =>
                    simp only [not_true_eq_false, if_false]
                    split
                    · exact ⟨hdrop, rfl⟩
                    · split <;> exact ⟨(cut_nil _ _).symm, rfl⟩

theorem admit_shelves {env : Env} {put : BeginPut}
    (hfresh : (store.shelves put.webapp).Fresh env.staging)
    (hbundle : put.webapp ∈ store.bundles) (isStored room : Bool)
    (outcome : BeginOutcome) :
    (store.admitPut (put.webapp, put.key) put.blob put.uploader isStored room
        outcome).2.shelves =
      store.cut put.webapp
        (store.admitSteps env put isStored room outcome) := by
  simp only [admitPut, admitSteps]
  cases (store.shelves put.webapp).checkQuota put.key put.blob with
  | error error => exact (cut_nil _ _).symm
  | ok fits =>
      cases isStored with
      | true =>
          simp only [if_true, cut_eq, Shelf.apply_record, stored_shelves,
            replaceInflight_shelves]
      | false =>
          simp only [Bool.false_eq_true, if_false]
          cases put.uploader with
          | none => exact (cut_nil _ _).symm
          | some uploader =>
              cases room with
              | false =>
                  cases outcome <;> exact (cut_nil _ _).symm
              | true =>
                  cases outcome with
                  | alreadyComplete file =>
                      simp only [if_true]
                      rw [stream_complete, if_pos hbundle, cut_eq,
                        Shelf.apply_place hfresh]
                  | failed error =>
                      obtain ⟨mid, hshelves, -, hstream⟩ :=
                        store.stream_shelves (put.webapp, put.key) put.blob
                          uploader (.failed error)
                      exact hstream.trans (hshelves.trans (cut_nil _ _).symm)
                  | resume offset =>
                      obtain ⟨mid, hshelves, -, hstream⟩ :=
                        store.stream_shelves (put.webapp, put.key) put.blob
                          uploader (.resume offset)
                      exact hstream.trans (hshelves.trans (cut_nil _ _).symm)

theorem cut_append (store mid : Store) (webapp : Webapp)
    {effects : List Effect} (hmid : mid.shelves = store.cut webapp effects)
    (rest : List Effect) :
    mid.cut webapp rest = store.cut webapp (effects ++ rest) := by
  funext other
  simp only [cut, hmid]
  split
  · rw [if_true, Shelf.apply_append]
  · rfl

theorem fresh_examine {env : Env} {put : BeginPut}
    (h : (store.shelves put.webapp).Fresh env.staging) :
    ((store.examine put).2.shelves put.webapp).Fresh env.staging := by
  rcases store.examine_cases put with ⟨answer, hanswer, -⟩ | ⟨-, hdropped⟩
  · rw [hanswer]
    exact h
  · have hfiles : ((store.dropContent put.webapp
        put.blob.sha256).shelves put.webapp).files =
          (store.shelves put.webapp).files.remove put.blob.sha256 := by
      simp only [dropContent, setShelf, if_true]
      rfl
    rw [hdropped]
    intro id sha256 hid hmem
    rw [hfiles] at hmem
    refine h id sha256 hid ?_
    exact (List.filter_sublist.map Prod.fst).subset hmem

theorem begin_shelves {env : Env} (hkeys : store.Keyed) {put : BeginPut}
    (hfresh : (store.shelves put.webapp).Fresh env.staging) (room : Bool)
    (outcome : BeginOutcome) :
    (store.begin? put room outcome).2.shelves =
      store.cut put.webapp (store.beginSteps env put room outcome) := by
  obtain ⟨hshelves, hbundles⟩ := store.examine_shelves hkeys put
  rw [beginSteps]
  by_cases hbundle : put.webapp ∉ store.bundles
  · rw [if_pos hbundle, cut_nil]
    simp only [begin?, examine, if_pos hbundle]
  · rw [if_neg hbundle] at hshelves ⊢
    rw [not_not] at hbundle
    have hmid := fresh_examine hfresh
    rcases hexamined : store.examine put with ⟨answer, mid⟩
    rw [hexamined] at hshelves hbundles hmid
    simp only [begin?, hexamined]
    rcases answer with error | (_ | isStored)
    · rw [List.append_nil]
      exact hshelves
    · rw [List.append_nil]
      exact hshelves
    · have hadmitted := admit_shelves hmid (hbundles ▸ hbundle) isStored room
        outcome
      rw [← cut_append store mid put.webapp hshelves]
      exact hadmitted

theorem finish_cut {env : Env} {slot : Slot}
    (hfresh : (store.shelves slot.1).Fresh env.staging) (attempt : Nat)
    (outcome : Except String (Option Content)) :
    (store.finish slot attempt outcome).shelves =
      store.cut slot.1 (store.finishSteps env slot attempt outcome) := by
  cases hget : store.inflight.get? slot with
  | none =>
      have hsame : store.finish slot attempt outcome = store := by
        rw [finish, hget]
      simp only [hsame, finishSteps, hget]
      exact (cut_nil _ _).symm
  | some upload =>
      by_cases hattempt : upload.attempt = attempt
      · subst hattempt
        cases outcome with
        | error reason =>
            simp only [finish, finishSteps, hget, ne_eq, not_true_eq_false,
              if_false]
            exact (cut_nil _ _).symm
        | ok file =>
            simp only [finish_shelves hget, finishSteps, hget, true_and]
            split
            · rw [cut_eq, Shelf.apply_place hfresh]
            · exact (cut_nil _ _).symm
      · have hsame : store.finish slot attempt outcome = store := by
          rw [finish, hget]
          simp only [ne_eq, hattempt, not_false_eq_true, if_true]
        rw [hsame]
        cases outcome with
        | error reason =>
            simp only [finishSteps, hget]
            exact (cut_nil _ _).symm
        | ok file =>
            simp only [finishSteps, hget, hattempt, false_and, if_false]
            exact (cut_nil _ _).symm

theorem setShelf_congr {other : Store} (h : other.shelves = store.shelves)
    (webapp : Webapp) (shelf : Shelf) :
    (other.setShelf webapp shelf).shelves =
      (store.setShelf webapp shelf).shelves := by
  simp only [setShelf, h]

theorem delete_cut (store : Store) (slot : Slot) :
    (store.delete slot).shelves =
      store.cut slot.1 ((store.shelves slot.1).deleteSteps slot.2) := by
  rw [cut_eq, Shelf.apply_delete]
  have hcancelled := store.cancel_shelves slot "the key was deleted"
  simp only [delete, hcancelled]
  cases hget : (store.shelves slot.1).records.get? slot.2 with
  | none =>
      have hsame : (store.shelves slot.1).delete slot.2 =
          store.shelves slot.1 := by
        rw [Shelf.delete, hget]
      have hnil := cut_nil store slot.1
      rw [cut_eq] at hnil
      rw [hsame]
      exact hcancelled.trans hnil.symm
  | some blob => exact setShelf_congr hcancelled slot.1 _

/-- The calls of a command come to what it does to the shelves. -/
theorem handle_shelves {env : Env} (hkeys : store.Keyed) {command : Command}
    (hfresh : (store.shelves command.webapp).Fresh env.staging) :
    (store.handle command).shelves =
      store.cut command.webapp (store.steps env command) := by
  cases command with
  | «begin» put room outcome => exact begin_shelves hkeys hfresh room outcome
  | finish slot attempt outcome => exact finish_cut hfresh attempt outcome
  | delete slot => exact delete_cut store slot
  | purge webapp =>
      simp only [handle, purge, steps, Command.webapp, cut_eq,
        Shelf.apply_purge]
      exact setShelf_congr (foldl_cancel_shelves _ _ _) webapp _

/-! ### Uploads in flight -/

theorem replaceInflight_subset (store : Store) (slot : Slot)
    (taker : Option Address) (newer : BlobMeta) (takeover : Takeover) :
    (store.replaceInflight slot taker newer takeover).inflight ⊆
      store.inflight := by
  rw [replaceInflight]
  split
  · exact List.Subset.refl _
  · have hremoved : store.inflight.remove slot ⊆ store.inflight :=
      List.filter_sublist.subset
    simp only
    split <;> exact hremoved

theorem cancel_subset (store : Store) (slot : Slot) (reason : String) :
    (store.cancel slot reason).inflight ⊆ store.inflight := by
  rw [cancel]
  split
  · exact List.Subset.refl _
  · exact List.filter_sublist.subset

theorem foldl_cancel_subset (slots : List Slot) (reason : String)
    (store : Store) :
    (slots.foldl (fun store slot => store.cancel slot reason)
      store).inflight ⊆ store.inflight := by
  induction slots generalizing store with
  | nil => exact List.Subset.refl _
  | cons slot slots ih =>
      exact List.Subset.trans (ih _) (cancel_subset store slot reason)

theorem place_inflight (store : Store) (slot : Slot) (blob : BlobMeta)
    (file : Option Content) :
    (store.place slot blob file).2.inflight = store.inflight := by
  rw [place]
  split <;> rfl

theorem examine_inflight (store : Store) (put : BeginPut) :
    (store.examine put).2.inflight = store.inflight := by
  rcases store.examine_cases put with ⟨answer, hanswer, -⟩ | ⟨-, hdropped⟩
  · rw [hanswer]
  · rw [hdropped]
    rfl

/-- An upload that a put adds is of what is put. -/
theorem stream_inflight (store : Store) (slot : Slot) (blob : BlobMeta)
    (uploader : Address) (room : Bool) (outcome : BeginOutcome) :
    ∀ entry ∈ (store.stream slot blob uploader room outcome).2.inflight,
      entry ∈ store.inflight ∨ entry.2.blob = blob := by
  intro entry hmem
  rw [stream] at hmem
  split at hmem
  · exact Or.inl hmem
  · dsimp only at hmem
    generalize hmid : (if ((store.inflight.get? slot).any fun prior =>
        prior.blob.sha256 = blob.sha256 ∧ prior.blob.size = blob.size) = true
      then store.replaceInflight slot (some uploader) blob .resumes
      else store) = mid at hmem
    have hsubset : mid.inflight ⊆ store.inflight := by
      rw [← hmid]
      split
      · exact replaceInflight_subset _ _ _ _ _
      · exact List.Subset.refl _
    cases outcome with
    | failed error => exact Or.inl (hsubset hmem)
    | resume offset =>
        rcases Table.mem_put hmem with hnew | hold
        · exact Or.inr (congrArg (fun entry => entry.2.blob) hnew)
        · exact Or.inl (hsubset (replaceInflight_subset _ _ _ _ _ hold))
    | alreadyComplete file =>
        have hplaced := mid.place_inflight slot blob file
        rcases hplace : mid.place slot blob file with ⟨placed, next⟩
        rw [hplace] at hplaced
        simp only [hplace] at hmem
        cases placed with
        | error error => exact Or.inl (hsubset (hplaced ▸ hmem))
        | ok changed =>
            have hkept := replaceInflight_subset _ _ _ _ _ hmem
            exact Or.inl (hsubset (hplaced ▸ hkept))

theorem handle_inflight (store : Store) (command : Command) :
    ∀ entry ∈ (store.handle command).inflight, entry ∈ store.inflight ∨
      ∃ put room outcome, command = .begin put room outcome ∧
        entry.2.blob = put.blob := by
  intro entry hmem
  cases command with
  | «begin» put room outcome =>
      have hexamined := store.examine_inflight put
      rcases hexamine : store.examine put with ⟨answer, mid⟩
      rw [hexamine] at hexamined
      simp only [handle, begin?, hexamine] at hmem
      have hput : ∀ entry : Slot × InFlight, entry ∈ mid.inflight ∨
          entry.2.blob = put.blob → entry ∈ store.inflight ∨
            ∃ found room' outcome', Command.begin put room outcome =
              .begin found room' outcome' ∧ entry.2.blob = found.blob := by
        intro entry hentry
        rcases hentry with hold | hnew
        · exact Or.inl (hexamined ▸ hold)
        · exact Or.inr ⟨put, room, outcome, rfl, hnew⟩
      refine hput entry ?_
      rcases answer with error | (_ | isStored)
      · exact Or.inl hmem
      · exact Or.inl hmem
      · simp only [admitPut] at hmem
        split at hmem
        · exact Or.inl hmem
        · split at hmem
          · exact Or.inl (replaceInflight_subset (mid.setShelf put.webapp
              ((mid.shelves put.webapp).record put.key put.blob).2)
              (put.webapp, put.key) put.uploader put.blob .stored hmem)
          · split at hmem
            · exact Or.inl hmem
            · exact stream_inflight _ _ _ _ _ _ _ hmem
  | finish slot attempt outcome =>
      refine Or.inl ?_
      have hremoved : store.inflight.remove slot ⊆ store.inflight :=
        List.filter_sublist.subset
      simp only [handle, finish] at hmem
      split at hmem
      · exact hmem
      · next upload hget =>
          split at hmem
          · exact hmem
          · cases outcome with
            | error reason => exact hremoved hmem
            | ok file =>
                have hplaced := place_inflight
                  { store with inflight := store.inflight.remove slot } slot
                  upload.blob file
                rcases hplace : place
                  { store with inflight := store.inflight.remove slot } slot
                  upload.blob file with ⟨placed, next⟩
                have hnext : next.inflight = store.inflight.remove slot := by
                  rw [hplace] at hplaced
                  exact hplaced
                simp only [hplace] at hmem
                refine hremoved (hnext ▸ ?_)
                cases placed with
                | error error => exact hmem
                | ok changed => exact hmem
  | delete slot =>
      refine Or.inl (cancel_subset store slot "the key was deleted" ?_)
      simp only [handle, delete] at hmem
      split at hmem
      · exact hmem
      · exact hmem
  | purge webapp =>
      exact Or.inl (foldl_cancel_subset _ _ _ hmem)

end Store

end Blobs

end Bridgething
