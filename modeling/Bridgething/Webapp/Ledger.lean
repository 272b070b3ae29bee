/-
The upload attempts of a blob store over a run: where each of them is, how often
it was told, and what one that is over can still change.
-/
import Bridgething.Webapp.Attempts

namespace Bridgething

namespace Blobs

/-- The store with the events that told of attempts, and the attempts that are
not in flight any more. -/
structure Ledger where
  store : Store
  told : List (Nat × BlobEvent)
  gone : List (Nat × Departure)

/-- The attempt that an event tells of, from those in flight. -/
def tellsOf (store : Store) (command : Command) (event : BlobEvent) :
    Option (Nat × BlobEvent) :=
  ((store.inflight.get? event.slot).filter fun upload =>
    event.tells command upload).map fun upload => (upload.attempt, event)

namespace Ledger

def new (bundles : List Webapp) : Ledger := ⟨.new bundles, [], []⟩

def retain (ledger : Ledger) (exited : List Slot) : Ledger where
  store := ledger.store.retain exited
  told := ledger.told
  gone := ledger.gone ++
    (ledger.store.exiting exited).map fun entry => (entry.2.attempt, .ended)

def handle (ledger : Ledger) (command : Command) : Ledger where
  store := ledger.store.handle command
  told := ledger.told ++
    ((ledger.store.handle command).events.drop
      ledger.store.events.length).filterMap (tellsOf ledger.store command)
  gone := ledger.gone ++
    (ledger.store.inflight.filter fun entry =>
      (ledger.store.handle command).inflight.get? entry.1 ≠ some entry.2).map
        fun entry => (entry.2.attempt, departure ledger.store entry.2 command)

def step (ledger : Ledger) : Event → Ledger
  | .receive exited command => (ledger.retain exited).handle command
  | .setBundles bundles =>
      { ledger with store := { ledger.store with bundles := bundles } }

def run (bundles : List Webapp) (events : List Event) : Ledger :=
  events.foldl step (new bundles)

/-- The number of events that told of an attempt. -/
def count (ledger : Ledger) (attempt : Nat) : Nat :=
  ledger.told.countP fun entry => entry.1 = attempt

def Running (ledger : Ledger) (attempt : Nat) : Prop :=
  ∃ slot upload, ledger.store.inflight.get? slot = some upload ∧
    upload.attempt = attempt

end Ledger

/-- Whose content a record that a command writes is: that of the put which
begins, or of the upload in flight that finishes. -/
def Sources (store : Store) (slot : Slot) (blob : BlobMeta) : Command → Prop
  | .begin put _ _ => (put.webapp, put.key) = slot ∧ put.blob = blob
  | .finish other attempt _ => other = slot ∧ ∃ upload,
      store.inflight.get? slot = some upload ∧ upload.attempt = attempt ∧
        upload.blob = blob
  | .delete _ => False
  | .purge _ => False

/-- What becomes of the attempts that were admitted. -/
structure Ledger.Accounted (ledger : Ledger) : Prop where
  once : ∀ attempt, ledger.count attempt ≤ 1
  whereabouts : ∀ {attempt}, 0 < attempt →
    attempt ≤ ledger.store.nextAttempt → ledger.Running attempt ∨
      ∃ departure, (attempt, departure) ∈ ledger.gone
  running : ∀ {attempt}, ledger.Running attempt →
    ledger.count attempt = 0 ∧
      ∀ departure, (attempt, departure) ∉ ledger.gone
  gone : ∀ {attempt departure}, (attempt, departure) ∈ ledger.gone →
    departure.Agrees (ledger.count attempt)
  stale : ∀ {attempt departure} slot outcome,
    (attempt, departure) ∈ ledger.gone →
      ledger.store.finish slot attempt outcome = ledger.store
  sources : ∀ {exited command slot blob},
    ((ledger.store.step (.receive exited command)).shelves slot.1).records.get?
        slot.2 = some blob →
      (ledger.store.shelves slot.1).records.get? slot.2 = some blob ∨
        Sources (ledger.store.retain exited) slot blob command

namespace Shelf

/-- A step of a shelf that adds no record but some. -/
structure Adds (P : String → BlobMeta → Prop) (shelf next : Shelf) : Prop where
  keys : next.records.keys.Nodup
  records : ∀ {key blob}, next.records.get? key = some blob →
    shelf.records.get? key = some blob ∨ P key blob

variable {P : String → BlobMeta → Prop}

theorem adds_same {shelf next : Shelf} (h : shelf.records.keys.Nodup)
    (hsame : next.records = shelf.records) : Adds P shelf next :=
  ⟨hsame ▸ h, fun hget => Or.inl (hsame ▸ hget)⟩

theorem Adds.trans {shelf mid next : Shelf} (hfirst : Adds P shelf mid)
    (hrest : Adds P mid next) : Adds P shelf next := by
  refine ⟨hrest.keys, fun hget => ?_⟩
  rcases hrest.records hget with hmid | hadded
  · exact hfirst.records hmid
  · exact Or.inr hadded

theorem adds_sublist {shelf next : Shelf} (h : shelf.records.keys.Nodup)
    (hless : next.records.Sublist shelf.records) : Adds P shelf next := by
  refine ⟨h.sublist (hless.map Prod.fst), fun hget => Or.inl ?_⟩
  exact Table.get?_of_mem h (hless.subset (Table.mem_of_get? hget))

theorem adds_record {shelf : Shelf} (h : shelf.records.keys.Nodup)
    {key : String} {blob : BlobMeta} (hadded : P key blob) :
    Adds P shelf (shelf.record key blob).2 := by
  have hrecords := (shelf.record_get key blob).1
  refine ⟨?_, fun hget => ?_⟩
  · rw [hrecords]
    exact Table.nodup_keys_put h _ _
  · rw [hrecords] at hget
    rcases Table.get?_put_cases hget with ⟨rfl, rfl⟩ | ⟨-, hold⟩
    · exact Or.inr hadded
    · exact Or.inl hold

theorem adds_place {shelf : Shelf} (h : shelf.records.keys.Nodup)
    {key : String} {blob : BlobMeta} (file : Option Content)
    (hadded : P key blob) : Adds P shelf (shelf.place key blob file).2 := by
  rcases shelf.place_cases key blob file with
    ⟨hsame, -⟩ | ⟨content, -, -, hnext⟩
  · rw [hsame]
    exact adds_same h rfl
  · rw [hnext]
    have hfiled : Adds P shelf
        { shelf with files := shelf.files.put blob.sha256 content } :=
      adds_same h rfl
    exact hfiled.trans (adds_record hfiled.keys hadded)

theorem adds_delete {shelf : Shelf} (h : shelf.records.keys.Nodup)
    (key : String) : Adds P shelf (shelf.delete key) := by
  simp only [delete]
  split
  · refine adds_sublist h ?_
    rw [collect_records]
    exact List.filter_sublist
  · exact adds_same h rfl

end Shelf

namespace Store

/-- One shelf is changed, and the others stay. -/
theorem adds_setShelf {store next : Store} {changed : Webapp} {shelf : Shelf}
    {P : Webapp → String → BlobMeta → Prop}
    (hkeys : ∀ webapp, (store.shelves webapp).records.keys.Nodup)
    (hnext : next.shelves = (store.setShelf changed shelf).shelves)
    (hshelf : Shelf.Adds (P changed) (store.shelves changed) shelf)
    (webapp : Webapp) :
    Shelf.Adds (P webapp) (store.shelves webapp) (next.shelves webapp) := by
  rw [hnext]
  by_cases hsame : webapp = changed
  · rw [hsame, setShelf_self]
    exact hshelf
  · rw [setShelf_of_ne _ _ hsame]
    exact Shelf.adds_same (hkeys webapp) rfl

theorem adds_begin {store : Store} {put : BeginPut} {room : Bool}
    {outcome : BeginOutcome} {shelf : Shelf} {P : String → BlobMeta → Prop}
    (hkeys : (store.shelves put.webapp).records.keys.Nodup)
    (h : store.Begins put room outcome shelf) (hadded : P put.key put.blob) :
    Shelf.Adds P (store.shelves put.webapp) shelf := by
  have hdropped : Shelf.Adds P (store.shelves put.webapp)
      ((store.shelves put.webapp).dropContent put.blob.sha256).2 :=
    Shelf.adds_sublist hkeys List.filter_sublist
  cases h with
  | dropped => exact hdropped
  | recorded found length fits => exact Shelf.adds_record hkeys hadded
  | placed examined addressed full complete bundle =>
      rename_i mid
      have hmid : Shelf.Adds P (store.shelves put.webapp)
          (mid.shelves put.webapp) := by
        rcases store.examine_cases put with
          ⟨answer, hanswer, hne, -⟩ | ⟨-, hdrop⟩
        · rw [examined, Prod.mk.injEq] at hanswer
          exact absurd hanswer.1.symm hne
        · rw [examined, Prod.mk.injEq] at hdrop
          rw [hdrop.2]
          show Shelf.Adds P _ ((store.setShelf put.webapp _).shelves put.webapp)
          rw [setShelf_self]
          exact hdropped
      exact hmid.trans (Shelf.adds_place hmid.keys _ hadded)

/-- Records are those that there were, or are of the command's own content. -/
theorem adds_handle {store : Store}
    (hkeys : ∀ webapp, (store.shelves webapp).records.keys.Nodup)
    (command : Command) (webapp : Webapp) :
    Shelf.Adds (fun key blob => Sources store (webapp, key) blob command)
      (store.shelves webapp) ((store.handle command).shelves webapp) := by
  have hsame : ∀ {next : Store}, next.shelves = store.shelves →
      Shelf.Adds (fun key blob => Sources store (webapp, key) blob command)
        (store.shelves webapp) (next.shelves webapp) :=
    fun hnext => Shelf.adds_same (hkeys webapp) (by rw [hnext])
  cases command with
  | «begin» put room outcome =>
      rcases store.begin_cases put room outcome with
        hnext | ⟨shelf, hbegins, hnext⟩
      · exact hsame hnext
      · exact adds_setShelf (P := fun webapp key blob =>
          Sources store (webapp, key) blob (.begin put room outcome)) hkeys
          hnext (adds_begin (hkeys _) hbegins ⟨rfl, rfl⟩) webapp
  | finish slot attempt outcome =>
      rcases store.finish_cases slot attempt outcome with hnext |
        ⟨upload, file, hget, hattempt, -, -, hnext⟩
      · exact hsame hnext
      · exact adds_setShelf (P := fun webapp key blob =>
          Sources store (webapp, key) blob (.finish slot attempt outcome)) hkeys
          hnext (Shelf.adds_place (hkeys _) file
            ⟨rfl, upload, hget, hattempt, rfl⟩) webapp
  | delete slot =>
      have hcancelled := store.cancel_shelves slot "the key was deleted"
      simp only [handle, delete]
      split
      · exact hsame hcancelled
      · refine adds_setShelf (P := fun webapp key blob =>
          Sources store (webapp, key) blob (.delete slot)) hkeys ?_
          (Shelf.adds_delete (hkeys slot.1) slot.2) webapp
        simp only [emit_shelves, setShelf, hcancelled]
  | purge purged =>
      have hcancelled := foldl_cancel_shelves
        (store.inflight.keys.filter fun slot => slot.1 = purged)
        "the webapp was uninstalled" store
      have hempty : Shelf.Adds (fun key blob =>
          Sources store (purged, key) blob (.purge purged))
          (store.shelves purged) .empty :=
        Shelf.adds_sublist (hkeys purged) (List.nil_sublist _)
      refine adds_setShelf (P := fun webapp key blob =>
        Sources store (webapp, key) blob (.purge purged)) hkeys ?_ hempty webapp
      simp only [handle, purge, setShelf, hcancelled]

end Store

namespace Ledger

/-- The invariant of a run: attempts have a slot each, and are running, or gone
and told as they should be. -/
structure Inv (ledger : Ledger) : Prop where
  keys : ledger.store.inflight.keys.Nodup
  records : ∀ webapp, (ledger.store.shelves webapp).records.keys.Nodup
  apart : ∀ {left right first second},
    ledger.store.inflight.get? left = some first →
    ledger.store.inflight.get? right = some second →
    first.attempt = second.attempt → left = right
  bounded : ∀ {slot upload}, ledger.store.inflight.get? slot = some upload →
    0 < upload.attempt ∧ upload.attempt ≤ ledger.store.nextAttempt
  running : ∀ {attempt}, ledger.Running attempt →
    ledger.count attempt = 0 ∧ ∀ departure, (attempt, departure) ∉ ledger.gone
  fresh : ∀ {attempt}, attempt = 0 ∨ ledger.store.nextAttempt < attempt →
    ledger.count attempt = 0 ∧ ∀ departure, (attempt, departure) ∉ ledger.gone
  whereabouts : ∀ {attempt}, 0 < attempt →
    attempt ≤ ledger.store.nextAttempt → ledger.Running attempt ∨
      ∃ departure, (attempt, departure) ∈ ledger.gone
  gone : ∀ {attempt departure}, (attempt, departure) ∈ ledger.gone →
    departure.Agrees (ledger.count attempt)

theorem inv_new (bundles : List Webapp) : (new bundles).Inv := by
  constructor
  · exact List.nodup_nil
  · exact fun _ => List.nodup_nil
  · exact fun h => nomatch h
  · exact fun h => nomatch h
  · rintro attempt ⟨slot, upload, hget, -⟩
    contradiction
  · exact fun _ => ⟨rfl, fun _ => List.not_mem_nil⟩
  · exact fun hpos hle => absurd hle (Nat.not_le_of_lt hpos)
  · exact fun h => absurd h List.not_mem_nil

theorem Inv.running_at {ledger : Ledger} (h : ledger.Inv) {slot : Slot}
    {upload : InFlight} (hget : ledger.store.inflight.get? slot = some upload) :
    ledger.count upload.attempt = 0 ∧
      ∀ departure, (upload.attempt, departure) ∉ ledger.gone :=
  h.running ⟨slot, upload, hget, rfl⟩

theorem get?_retain (store : Store) (exited : List Slot) (slot : Slot) :
    (store.retain exited).inflight.get? slot =
      if slot ∈ exited then none else store.inflight.get? slot := by
  simp only [Store.retain]
  split
  · next hin =>
      rw [Table.get?_eq_none]
      intro hkey
      obtain ⟨entry, hentry, rfl⟩ := List.mem_map.mp hkey
      exact of_decide_eq_true (List.mem_filter.mp hentry).2 hin
  · next hout => exact Table.get?_filter fun upload _ => decide_eq_true hout

theorem Inv.retain {ledger : Ledger} (h : ledger.Inv) (exited : List Slot) :
    (ledger.retain exited).Inv := by
  have hold : ∀ {slot upload},
      (ledger.store.retain exited).inflight.get? slot = some upload →
      slot ∉ exited ∧ ledger.store.inflight.get? slot = some upload := by
    intro slot upload hget
    rw [get?_retain] at hget
    split at hget
    · contradiction
    · next hout => exact ⟨hout, hget⟩
  have hended : ∀ {attempt departure},
      (attempt, departure) ∈ (ledger.retain exited).gone →
      (attempt, departure) ∈ ledger.gone ∨ departure = .ended ∧
        ∃ slot upload, ledger.store.inflight.get? slot = some upload ∧
          slot ∈ exited ∧ upload.attempt = attempt := by
    intro attempt departure hin
    rcases List.mem_append.mp hin with hgone | hnew
    · exact Or.inl hgone
    · obtain ⟨⟨slot, upload⟩, hentry, hsame⟩ := List.mem_map.mp hnew
      obtain ⟨hmem, hexited⟩ := List.mem_filter.mp hentry
      obtain ⟨rfl, rfl⟩ := Prod.mk.inj hsame
      exact Or.inr ⟨rfl, slot, upload, Table.get?_of_mem h.keys hmem,
        of_decide_eq_true hexited, rfl⟩
  constructor
  · exact h.keys.sublist (List.filter_sublist.map Prod.fst)
  · exact h.records
  · exact fun hleft hright hsame =>
      h.apart (hold hleft).2 (hold hright).2 hsame
  · exact fun hget => h.bounded (hold hget).2
  · rintro attempt ⟨slot, upload, hget, rfl⟩
    obtain ⟨hout, hstore⟩ := hold hget
    refine ⟨(h.running_at hstore).1, fun departure hin => ?_⟩
    rcases hended hin with hgone | ⟨-, other, held, hother, hexited, hsame⟩
    · exact (h.running_at hstore).2 departure hgone
    · rw [h.apart hother hstore hsame] at hexited
      exact hout hexited
  · intro attempt hnew
    have hfresh : attempt = 0 ∨ ledger.store.nextAttempt < attempt := hnew
    refine ⟨(h.fresh hfresh).1, fun departure hin => ?_⟩
    rcases hended hin with hgone | ⟨-, slot, upload, hget, -, rfl⟩
    · exact (h.fresh hfresh).2 departure hgone
    · have hbounded := h.bounded hget
      omega
  · intro attempt hpos hle
    rcases h.whereabouts hpos hle with
      ⟨slot, upload, hget, rfl⟩ | ⟨departure, hgone⟩
    · by_cases hexited : slot ∈ exited
      · refine Or.inr ⟨.ended, List.mem_append_right _ ?_⟩
        exact List.mem_map.mpr ⟨(slot, upload), List.mem_filter.mpr
          ⟨Table.mem_of_get? hget, decide_eq_true hexited⟩, rfl⟩
      · refine Or.inl ⟨slot, upload, ?_, rfl⟩
        show (ledger.store.retain exited).inflight.get? slot = _
        rw [get?_retain, if_neg hexited, hget]
    · exact Or.inr ⟨departure, List.mem_append_left _ hgone⟩
  · intro attempt departure hin
    rcases hended hin with hgone | ⟨rfl, slot, upload, hget, -, rfl⟩
    · exact h.gone hgone
    · exact (h.running_at hget).1

/-- The events that tell of an attempt are of its upload in flight. -/
theorem tellsOf_iff (store : Store) (command : Command) (event : BlobEvent)
    (attempt : Nat) :
    ((tellsOf store command event).map
        fun entry => decide (entry.1 = attempt)).getD false = true ↔
      ∃ upload, store.inflight.get? event.slot = some upload ∧
        event.tells command upload = true ∧ upload.attempt = attempt := by
  simp only [tellsOf]
  cases store.inflight.get? event.slot with
  | none => simp
  | some upload =>
      cases htells : event.tells command upload <;>
        simp [Option.filter, htells]

theorem count_told (ledger : Ledger) (command : Command) (attempt : Nat) :
    (ledger.handle command).count attempt = ledger.count attempt +
      ((ledger.store.handle command).events.drop
        ledger.store.events.length).countP fun event =>
          ((tellsOf ledger.store command event).map
            fun entry => decide (entry.1 = attempt)).getD false := by
  rw [count, handle, List.countP_append, List.countP_filterMap]
  rfl

/-- What an attempt in flight is told by a command. -/
theorem Inv.count_handle {ledger : Ledger} (h : ledger.Inv) {command : Command}
    {slot : Slot} {upload : InFlight} {count : Nat}
    (hget : ledger.store.inflight.get? slot = some upload)
    (hmentions : Store.Mentions command slot upload ledger.store
      (ledger.store.handle command) count) :
    (ledger.handle command).count upload.attempt = count := by
  obtain ⟨new, hnew, rfl⟩ := hmentions
  rw [count_told, hnew, List.drop_left, (h.running_at hget).1, Nat.zero_add]
  refine List.countP_congr fun event _ => ?_
  rw [tellsOf_iff, decide_eq_true_iff]
  constructor
  · rintro ⟨other, hother, htells, hsame⟩
    have hslot := h.apart hother hget hsame
    rw [hslot, hget] at hother
    exact ⟨hslot, Option.some.inj hother ▸ htells⟩
  · rintro ⟨rfl, htells⟩
    exact ⟨upload, hget, htells, rfl⟩

/-- An attempt that is not in flight is told no more. -/
theorem count_over (ledger : Ledger) (command : Command) {attempt : Nat}
    (hover : ¬ ledger.Running attempt) :
    (ledger.handle command).count attempt = ledger.count attempt := by
  rw [count_told, Nat.add_eq_left, List.countP_eq_zero]
  intro event _ htold
  rw [tellsOf_iff] at htold
  obtain ⟨upload, hget, -, hsame⟩ := htold
  exact hover ⟨event.slot, upload, hget, hsame⟩

/-- The uploads in flight after a command are those that there were, and at most
one of a new attempt. -/
theorem Inv.inflight_handle {ledger : Ledger} (h : ledger.Inv)
    (command : Command) :
    (ledger.store.handle command).inflight.keys.Nodup ∧
      ((ledger.store.handle command).nextAttempt = ledger.store.nextAttempt ∧
          (∀ {slot upload},
            (ledger.store.handle command).inflight.get? slot = some upload →
              ledger.store.inflight.get? slot = some upload) ∨
        (ledger.store.handle command).nextAttempt =
            ledger.store.nextAttempt + 1 ∧
          ∃ slot upload,
            (ledger.store.handle command).inflight.get? slot = some upload ∧
            upload.attempt = ledger.store.nextAttempt + 1 ∧
            ∀ {other held},
              (ledger.store.handle command).inflight.get? other = some held →
                other = slot ∧ held = upload ∨ other ≠ slot ∧
                ledger.store.inflight.get? other = some held) := by
  have hshrinks : ∀ {next : Store}, ledger.store.Shrinks next →
      next.inflight.keys.Nodup ∧ ∀ {slot upload},
        next.inflight.get? slot = some upload →
          ledger.store.inflight.get? slot = some upload := by
    intro next hless
    refine ⟨h.keys.sublist (hless.1.map Prod.fst), fun hget => ?_⟩
    exact Table.get?_of_mem h.keys (hless.1.subset (Table.mem_of_get? hget))
  rcases ledger.store.turns_handle command with
    hless | ⟨mid, slot, blob, uploader, hless, hinflight, hnext⟩
  · obtain ⟨hkeys, hold⟩ := hshrinks hless
    exact ⟨hkeys, Or.inl ⟨hless.2, hold⟩⟩
  · obtain ⟨hkeys, hold⟩ := hshrinks hless
    rw [hless.2] at hinflight hnext
    rw [hinflight]
    refine ⟨Table.nodup_keys_put hkeys _ _, Or.inr ⟨hnext, slot, _,
      Table.get?_put_self _ _ _, rfl, fun hget => ?_⟩⟩
    rcases Table.get?_put_cases hget with hnew | ⟨hne, hmid⟩
    · exact Or.inl hnew
    · exact Or.inr ⟨hne, hold hmid⟩

/-- The uploads that a command takes out of flight. -/
theorem Inv.gone_handle {ledger : Ledger} (h : ledger.Inv) {command : Command}
    {attempt : Nat} {left : Departure}
    (hin : (attempt, left) ∈ (ledger.handle command).gone) :
    (attempt, left) ∈ ledger.gone ∨ ∃ slot upload,
      ledger.store.inflight.get? slot = some upload ∧
      (ledger.store.handle command).inflight.get? slot ≠ some upload ∧
      upload.attempt = attempt ∧
      left = departure ledger.store upload command := by
  rcases List.mem_append.mp hin with hgone | hnew
  · exact Or.inl hgone
  · obtain ⟨⟨slot, upload⟩, hentry, hsame⟩ := List.mem_map.mp hnew
    obtain ⟨hmem, hleft⟩ := List.mem_filter.mp hentry
    obtain ⟨hattempt, hdeparture⟩ := Prod.mk.inj hsame
    exact Or.inr ⟨slot, upload, Table.get?_of_mem h.keys hmem,
      of_decide_eq_true hleft, hattempt, hdeparture.symm⟩

theorem mem_gone_handle {ledger : Ledger} {command : Command} {slot : Slot}
    {upload : InFlight} (hget : ledger.store.inflight.get? slot = some upload)
    (hleft : (ledger.store.handle command).inflight.get? slot ≠ some upload) :
    (upload.attempt, departure ledger.store upload command) ∈
      (ledger.handle command).gone := by
  refine List.mem_append_right _ (List.mem_map.mpr ⟨(slot, upload), ?_, rfl⟩)
  exact List.mem_filter.mpr ⟨Table.mem_of_get? hget, decide_eq_true hleft⟩

theorem Inv.fate {ledger : Ledger} (h : ledger.Inv) (command : Command)
    {slot : Slot} {upload : InFlight}
    (hget : ledger.store.inflight.get? slot = some upload) :
    (ledger.store.handle command).inflight.get? slot = some upload ∧
        (ledger.handle command).count upload.attempt = 0 ∨
      (ledger.store.handle command).inflight.get? slot ≠ some upload ∧
        (departure ledger.store upload command).Agrees
          ((ledger.handle command).count upload.attempt) := by
  obtain ⟨count, hmentions, hfate⟩ :=
    Store.fate_handle command h.keys (h.bounded hget).2 hget
  rw [h.count_handle hget hmentions]
  exact hfate

theorem Inv.handle {ledger : Ledger} (h : ledger.Inv) (command : Command) :
    (ledger.handle command).Inv := by
  obtain ⟨hkeys, hnext⟩ := h.inflight_handle command
  -- an upload that is there after the command was there before, or is new
  have hkept : ∀ {slot upload},
      ledger.store.inflight.get? slot = some upload →
      (ledger.store.handle command).inflight.get? slot = some upload →
      (ledger.handle command).count upload.attempt = 0 ∧
        ∀ left, (upload.attempt, left) ∉ (ledger.handle command).gone := by
    intro slot upload hget hstill
    constructor
    · rcases h.fate command hget with ⟨-, hcount⟩ | ⟨hleft, -⟩
      · exact hcount
      · exact absurd hstill hleft
    · intro left hin
      rcases h.gone_handle hin with
        hgone | ⟨other, held, hother, hleft, hsame, -⟩
      · exact (h.running_at hget).2 left hgone
      · have hslot := h.apart hother hget hsame
        rw [hslot, hget] at hother
        rw [hslot, ← Option.some.inj hother] at hleft
        exact hleft hstill
  have hunknown : ∀ {attempt}, attempt = 0 ∨
      ledger.store.nextAttempt < attempt →
      (ledger.handle command).count attempt = 0 ∧
        ∀ left, (attempt, left) ∉ (ledger.handle command).gone := by
    intro attempt hfresh
    have hover : ¬ ledger.Running attempt := by
      rintro ⟨slot, upload, hget, rfl⟩
      have hbounded := h.bounded hget
      omega
    refine ⟨(ledger.count_over command hover).trans (h.fresh hfresh).1, ?_⟩
    intro left hin
    rcases h.gone_handle hin with hgone | ⟨slot, upload, hget, -, hsame, -⟩
    · exact (h.fresh hfresh).2 left hgone
    · exact hover ⟨slot, upload, hget, hsame⟩
  have hgone : ∀ {attempt left},
      (attempt, left) ∈ (ledger.handle command).gone →
      left.Agrees ((ledger.handle command).count attempt) := by
    intro attempt left hin
    rcases h.gone_handle hin with
      hgone | ⟨slot, upload, hget, hleft, rfl, rfl⟩
    · rw [ledger.count_over command fun hrunning =>
        (h.running hrunning).2 left hgone]
      exact h.gone hgone
    · rcases h.fate command hget with ⟨hstill, -⟩ | ⟨-, hagrees⟩
      · exact absurd hstill hleft
      · exact hagrees
  have hwhereabouts : ∀ {attempt}, 0 < attempt →
      attempt ≤ ledger.store.nextAttempt →
      (ledger.handle command).Running attempt ∨
        ∃ left, (attempt, left) ∈ (ledger.handle command).gone := by
    intro attempt hpos hle
    rcases h.whereabouts hpos hle with
      ⟨slot, upload, hget, rfl⟩ | ⟨left, hold⟩
    · by_cases hstill :
          (ledger.store.handle command).inflight.get? slot = some upload
      · exact Or.inl ⟨slot, upload, hstill, rfl⟩
      · exact Or.inr ⟨_, mem_gone_handle hget hstill⟩
    · exact Or.inr ⟨left, List.mem_append_left _ hold⟩
  have hrecords := fun webapp =>
    (Store.adds_handle h.records command webapp).keys
  rcases hnext with ⟨hattempts, hold⟩ |
    ⟨hattempts, slot, upload, hget, hattempt, hold⟩
  · constructor
    · exact hkeys
    · exact hrecords
    · exact fun hleft hright => h.apart (hold hleft) (hold hright)
    · intro slot upload hget
      show _ ∧ _ ≤ (ledger.store.handle command).nextAttempt
      rw [hattempts]
      exact h.bounded (hold hget)
    · rintro attempt ⟨slot, upload, hget, rfl⟩
      exact hkept (hold hget) hget
    · exact fun hfresh => hunknown (hattempts ▸ hfresh)
    · exact fun hpos hle => hwhereabouts hpos (hattempts ▸ hle)
    · exact hgone
  · constructor
    · exact hkeys
    · exact hrecords
    · intro left right first second hleft hright hsame
      rcases hold hleft with ⟨rfl, rfl⟩ | ⟨-, hfirst⟩
      · rcases hold hright with ⟨rfl, -⟩ | ⟨-, hsecond⟩
        · rfl
        · have hbounded := h.bounded hsecond
          omega
      · rcases hold hright with ⟨rfl, rfl⟩ | ⟨-, hsecond⟩
        · have hbounded := h.bounded hfirst
          omega
        · exact h.apart hfirst hsecond hsame
    · intro other held hother
      show _ ∧ _ ≤ (ledger.store.handle command).nextAttempt
      rcases hold hother with ⟨-, rfl⟩ | ⟨-, hheld⟩
      · omega
      · have hbounded := h.bounded hheld
        omega
    · rintro attempt ⟨other, held, hother, rfl⟩
      rcases hold hother with ⟨-, rfl⟩ | ⟨-, hheld⟩
      · exact hunknown (Or.inr (by omega))
      · exact hkept hheld hother
    · intro attempt hfresh
      have hafter : attempt = 0 ∨
          (ledger.store.handle command).nextAttempt < attempt := hfresh
      exact hunknown (by omega)
    · intro attempt hpos hle
      have hbefore : attempt ≤ (ledger.store.handle command).nextAttempt := hle
      rcases Nat.lt_or_ge ledger.store.nextAttempt attempt with hnew | hknown
      · exact Or.inl ⟨slot, upload, hget, by omega⟩
      · exact hwhereabouts hpos hknown
    · exact hgone

theorem Inv.step {ledger : Ledger} (h : ledger.Inv) (event : Event) :
    (ledger.step event).Inv := by
  cases event with
  | receive exited command => exact (h.retain exited).handle command
  | setBundles bundles =>
      exact ⟨h.keys, h.records, h.apart, h.bounded, h.running, h.fresh,
        h.whereabouts, h.gone⟩

theorem inv_run (bundles : List Webapp) (events : List Event) :
    (run bundles events).Inv := by
  have hkeep : ∀ {ledger : Ledger}, ledger.Inv →
      (events.foldl Ledger.step ledger).Inv := by
    intro ledger h
    induction events generalizing ledger with
    | nil => exact h
    | cons event rest ih => exact ih (h.step event)
  exact hkeep (inv_new bundles)

end Ledger

theorem Departure.Agrees.le_one {departure : Departure} {count : Nat}
    (h : departure.Agrees count) : count ≤ 1 := by
  cases departure with
  | ended => exact Nat.le_of_eq h |>.trans (Nat.zero_le 1)
  | finished => exact Nat.le_of_eq h
  | cancelled => exact Nat.le_of_eq h
  | replaced own settles => exact h.2.2

/-- Over any run, every attempt that was admitted is in flight and untold, or
left as it is told; and one that left changes nothing any more. -/
theorem attempts_accounted (bundles : List Webapp) (events : List Event) :
    (Ledger.run bundles events).Accounted := by
  have h := Ledger.inv_run bundles events
  generalize Ledger.run bundles events = ledger at h ⊢
  constructor
  · intro attempt
    by_cases hknown : attempt = 0 ∨ ledger.store.nextAttempt < attempt
    · rw [(h.fresh hknown).1]
      exact Nat.zero_le 1
    · rw [not_or, Nat.not_lt] at hknown
      rcases h.whereabouts (Nat.pos_of_ne_zero hknown.1) hknown.2 with
        hrunning | ⟨departure, hgone⟩
      · rw [(h.running hrunning).1]
        exact Nat.zero_le 1
      · exact (h.gone hgone).le_one
  · exact h.whereabouts
  · exact h.running
  · exact h.gone
  · intro attempt departure slot outcome hgone
    refine Store.finish_stale outcome fun held hget hsame => ?_
    exact (h.running ⟨slot, held, hget, hsame⟩).2 departure hgone
  · intro exited command slot blob hget
    have hretained : ∀ webapp,
        ((ledger.store.retain exited).shelves webapp).records.keys.Nodup :=
      h.records
    exact (Store.adds_handle hretained command slot.1).records hget

/-- A put of a peer, and nothing more of it: its upload ends untold. -/
theorem attempt_untold :
    ¬ ∀ (bundles : List Webapp) (events : List Event) (attempt : Nat)
        (departure : Departure),
      (attempt, departure) ∈ (Ledger.run bundles events).gone →
        (Ledger.run bundles events).count attempt = 1 := by
  intro h
  have htold := h [1]
    [.receive [] (.begin ⟨1, "bg", ⟨"ab", "image/gif", 4⟩, some 7, none⟩ true
        (.resume 0)),
      .receive [(1, "bg")] (.delete (1, "bg"))] 1 .ended (by decide +kernel)
  exact absurd htold (by decide +kernel)

end Blobs

end Bridgething
