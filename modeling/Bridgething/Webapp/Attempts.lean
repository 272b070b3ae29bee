/-
Upload attempts of the blob store: what a command makes of those in flight, and
what tells them of it.
-/
import Bridgething.Webapp.Consistency

namespace Bridgething

namespace Blobs

def BlobEvent.slot : BlobEvent → Slot
  | .stored webapp key _ _ => (webapp, key)
  | .failed webapp key _ _ => (webapp, key)
  | .replaced webapp key _ _ => (webapp, key)
  | .removed webapp key => (webapp, key)

def Command.finishes (attempt : Nat) : Command → Bool
  | .finish _ other _ => other = attempt
  | _ => false

/-- The event tells of the end of an upload of its slot.  What a put stores at
once is told of that put, and not of an upload. -/
def BlobEvent.tells (command : Command) (upload : InFlight) : BlobEvent → Bool
  | .stored _ _ blob _ =>
      command.finishes upload.attempt && blob = upload.blob
  | .failed _ _ sha256 _ => sha256 = upload.blob.sha256
  | .replaced _ _ sha256 uploader =>
      sha256 = upload.blob.sha256 && uploader = upload.uploader
  | .removed _ _ => false

/-- How an upload leaves those in flight: its task ends on its own, its finish
is handled, its key is deleted or its webapp purged, or a put replaces it, which
may come from its own uploader, or store its very digest. -/
inductive Departure
  | ended
  | finished
  | cancelled
  | replaced (own settles : Bool)
deriving Repr, DecidableEq

/-- The number of times that an upload which left so is told. -/
def Departure.Agrees (count : Nat) : Departure → Prop
  | .ended => count = 0
  | .finished => count = 1
  | .cancelled => count = 1
  | .replaced own settles =>
      (own = true → count = 0) ∧ (own = false → settles = false → count = 1) ∧
        count ≤ 1

def PutBegin.isStored : PutBegin → Bool
  | .stored _ => true
  | .stream _ _ => false

/-- The put was answered that its content is stored. -/
def holds : Option (Except WebappError PutBegin) → Bool
  | some (.ok answer) => answer.isStored
  | _ => false

def departure (store : Store) (upload : InFlight) : Command → Departure
  | .begin put room outcome =>
      .replaced (put.uploader = some upload.uploader)
        (holds (store.begin? put room outcome).1 &&
          put.blob.sha256 = upload.blob.sha256)
  | .finish _ _ _ => .finished
  | .delete _ => .cancelled
  | .purge _ => .cancelled

namespace Store

/-! ### What a command does to the uploads of one slot -/

/-- The events between two states that tell of the end of an upload. -/
def Mentions (command : Command) (slot : Slot) (upload : InFlight)
    (store next : Store) (count : Nat) : Prop :=
  ∃ new, next.events = store.events ++ new ∧
    new.countP (fun event => event.slot = slot ∧ event.tells command upload) =
      count

section

variable {command : Command} {slot : Slot} {upload : InFlight}

theorem mentions_of_same {store next : Store}
    (h : next.events = store.events) :
    Mentions command slot upload store next 0 :=
  ⟨[], by rw [h, List.append_nil], rfl⟩

theorem Mentions.trans {store mid next : Store} {first rest : Nat}
    (hfirst : Mentions command slot upload store mid first)
    (hrest : Mentions command slot upload mid next rest) :
    Mentions command slot upload store next (first + rest) := by
  obtain ⟨before, hbefore, rfl⟩ := hfirst
  obtain ⟨after, hafter, rfl⟩ := hrest
  refine ⟨before ++ after, ?_, List.countP_append⟩
  rw [hafter, hbefore, List.append_assoc]

/-- Records that go with their content tell of no upload. -/
theorem mentions_dropContent (store : Store) (webapp : Webapp)
    (sha256 : String) :
    Mentions command slot upload store (store.dropContent webapp sha256) 0 := by
  refine ⟨_, rfl, List.countP_eq_zero.mpr ?_⟩
  intro event hevent
  obtain ⟨key, -, rfl⟩ := List.mem_map.mp hevent
  simp [BlobEvent.tells]

theorem get?_replaceInflight (store : Store) (other : Slot)
    (taker : Option Address) (newer : BlobMeta) (takeover : Takeover) :
    (store.replaceInflight other taker newer takeover).inflight.get? slot =
      if slot = other then none else store.inflight.get? slot := by
  simp only [replaceInflight]
  split
  · next hnone =>
      split
      · next hsame => rw [hsame, hnone]
      · rfl
  · have hremoved : (store.inflight.remove other).get? slot =
        if slot = other then none else store.inflight.get? slot := by
      split
      · next hsame => rw [hsame, Table.get?_remove_self]
      · next hne => exact Table.get?_remove_of_ne _ hne
    split <;> exact hremoved

theorem replaceInflight_none {store : Store} (taker : Option Address)
    (newer : BlobMeta) (takeover : Takeover)
    (h : store.inflight.get? slot = none) :
    store.replaceInflight slot taker newer takeover = store := by
  simp only [replaceInflight, h]

theorem mentions_other (store : Store) {other : Slot}
    (taker : Option Address) (newer : BlobMeta) (takeover : Takeover)
    (h : slot ≠ other) :
    Mentions command slot upload store
      (store.replaceInflight other taker newer takeover) 0 := by
  simp only [replaceInflight]
  split
  · exact mentions_of_same rfl
  · split
    · refine ⟨_, rfl, ?_⟩
      simp [BlobEvent.slot, Ne.symm h]
    · exact mentions_of_same rfl

theorem mentions_taken {store : Store} (taker : Option Address)
    (newer : BlobMeta) (takeover : Takeover)
    (h : store.inflight.get? slot = some upload) :
    Mentions command slot upload store
      (store.replaceInflight slot taker newer takeover)
      (if decide (taker = some upload.uploader) = false ∧
        decide (takeover = .stored ∧ upload.blob.sha256 = newer.sha256) = false
        then 1 else 0) := by
  simp only [replaceInflight, h, decide_eq_false_iff_not]
  split
  · exact ⟨_, rfl, by simp [BlobEvent.slot, BlobEvent.tells]⟩
  · exact mentions_of_same rfl

/-- A put that begins tells nothing of an upload by what it stores. -/
theorem mentions_stored {put : BeginPut} {room : Bool} {outcome : BeginOutcome}
    (store : Store) (other : Slot) (blob : BlobMeta) (changed : Bool) :
    Mentions (.begin put room outcome) slot upload store
      (store.stored other blob changed) 0 :=
  ⟨_, rfl, by simp [BlobEvent.tells, Command.finishes]⟩

/-- The upload stays in flight and is not told, or leaves and is told as often
as its departure has it. -/
def Fate (command : Command) (slot : Slot) (upload : InFlight)
    (store next : Store) (departure : Departure) : Prop :=
  ∃ count, Mentions command slot upload store next count ∧
    (next.inflight.get? slot = some upload ∧ count = 0 ∨
      next.inflight.get? slot ≠ some upload ∧ departure.Agrees count)

theorem fate_kept {store next : Store} (departure : Departure)
    (hget : next.inflight.get? slot = some upload)
    (hmentions : Mentions command slot upload store next 0) :
    Fate command slot upload store next departure :=
  ⟨0, hmentions, Or.inl ⟨hget, rfl⟩⟩

theorem fate_left {store next : Store} {departure : Departure} {count : Nat}
    (hget : next.inflight.get? slot ≠ some upload)
    (hmentions : Mentions command slot upload store next count)
    (hagrees : departure.Agrees count) :
    Fate command slot upload store next departure :=
  ⟨count, hmentions, Or.inr ⟨hget, hagrees⟩⟩

/-- A put that takes over an upload tells it, if it is another's, unless it
stores the same. -/
theorem agrees_replaced (own settles spared : Bool)
    (h : spared = true → settles = true) :
    (Departure.replaced own settles).Agrees
      (if own = false ∧ spared = false then 1 else 0) := by
  refine ⟨?_, ?_, ?_⟩
  · rintro rfl
    rfl
  · rintro rfl rfl
    have hspared : spared = false := Bool.eq_false_iff.mpr fun hspared =>
      Bool.false_ne_true (h hspared)
    rw [if_pos ⟨rfl, hspared⟩]
  · split <;> omega

theorem place_frame (store : Store) (slot : Slot) (blob : BlobMeta)
    (file : Option Content) :
    (store.place slot blob file).2.inflight = store.inflight ∧
      (store.place slot blob file).2.events = store.events ∧
      (store.place slot blob file).2.nextAttempt = store.nextAttempt := by
  simp only [place]
  split <;> exact ⟨rfl, rfl, rfl⟩

theorem fate_taken {store : Store} (taker : Option Address) (newer : BlobMeta)
    (takeover : Takeover) (settles : Bool)
    (hget : store.inflight.get? slot = some upload)
    (hsettles : takeover = .stored → upload.blob.sha256 = newer.sha256 →
      settles = true) :
    Fate command slot upload store
      (store.replaceInflight slot taker newer takeover)
      (.replaced (taker = some upload.uploader) settles) := by
  refine fate_left ?_ (mentions_taken taker newer takeover hget)
    (agrees_replaced _ settles _ fun hspared => ?_)
  · rw [get?_replaceInflight, if_pos rfl]
    exact fun hnone => nomatch hnone
  · obtain ⟨hstored, hsame⟩ := of_decide_eq_true hspared
    exact hsettles hstored hsame

/-- What comes after and tells nothing leaves the fate as it is. -/
theorem Fate.after {store mid next : Store} {departure : Departure}
    (h : Fate command slot upload store mid departure)
    (hmentions : Mentions command slot upload mid next 0)
    (hget : next.inflight.get? slot = some upload ↔
      mid.inflight.get? slot = some upload) :
    Fate command slot upload store next departure := by
  obtain ⟨count, hcount, hleft⟩ := h
  refine ⟨count, hcount.trans hmentions, ?_⟩
  rwa [ne_eq, hget]

theorem Fate.before {store mid next : Store} {departure : Departure}
    (hmentions : Mentions command slot upload store mid 0)
    (h : Fate command slot upload mid next departure) :
    Fate command slot upload store next departure := by
  obtain ⟨count, hcount, hleft⟩ := h
  refine ⟨count, ?_, hleft⟩
  rw [← Nat.zero_add count]
  exact hmentions.trans hcount

theorem fate_same {store next : Store} (departure : Departure)
    (hget : store.inflight.get? slot = some upload)
    (hinflight : next.inflight = store.inflight)
    (hevents : next.events = store.events) :
    Fate command slot upload store next departure :=
  fate_kept departure (by rw [hinflight, hget]) (mentions_of_same hevents)

/-- An upload that is taken over before another is registered. -/
theorem Fate.register {store mid : Store} {departure : Departure}
    {blob : BlobMeta} {uploader : Address}
    (h : Fate command slot upload store mid departure)
    (hnone : mid.inflight.get? slot = none)
    (hbound : upload.attempt ≤ mid.nextAttempt) :
    Fate command slot upload store (mid.register slot blob uploader)
      departure := by
  refine h.after (mentions_of_same rfl) ?_
  rw [hnone, Store.register, Table.get?_put_self]
  refine ⟨fun hsame => ?_, fun hsame => nomatch hsame⟩
  rw [← Option.some.inj hsame] at hbound
  exact absurd hbound (Nat.not_succ_le_self _)

theorem nextAttempt_replaceInflight (store : Store) (other : Slot)
    (taker : Option Address) (newer : BlobMeta) (takeover : Takeover) :
    (store.replaceInflight other taker newer takeover).nextAttempt =
      store.nextAttempt := by
  simp only [replaceInflight]
  split
  · rfl
  · split <;> rfl

/-- What an upload comes to once the transfer store has answered its begin. -/
def begun (store : Store) (slot : Slot) (blob : BlobMeta)
    (uploader : Address) : BeginOutcome → Except WebappError PutBegin × Store
  | .failed error => (.error (.blobTransferFailed slot.2 error), store)
  | .alreadyComplete file =>
      match store.place slot blob file with
      | (.error error, store) => (.error error, store)
      | (.ok changed, store) =>
          (.ok (.stored blob.size),
            (store.replaceInflight slot (some uploader) blob .stored).stored
              slot blob changed)
  | .resume offset =>
      let store := store.replaceInflight slot (some uploader) blob .streams
      (.ok (.stream offset (store.nextAttempt + 1)),
        store.register slot blob uploader)

/-- The upload in flight is of the same transfer. -/
def resumes (store : Store) (slot : Slot) (blob : BlobMeta) : Bool :=
  (store.inflight.get? slot).any fun prior =>
    prior.blob.sha256 = blob.sha256 ∧ prior.blob.size = blob.size

theorem stream_eq (store : Store) (slot : Slot) (blob : BlobMeta)
    (uploader : Address) (outcome : BeginOutcome) :
    store.stream slot blob uploader true outcome =
      (if store.resumes slot blob then
          store.replaceInflight slot (some uploader) blob .resumes
        else store).begun slot blob uploader outcome := by
  cases outcome <;> rfl

section

variable {put : BeginPut} {room : Bool} {outcome answer : BeginOutcome}
  {blob : BlobMeta} {uploader : Address}

/-- Where an upload was taken over already, it is told no more. -/
theorem fate_begun_after {store mid : Store} {departure : Departure}
    (htaken : Fate (.begin put room outcome) slot upload store mid departure)
    (hnone : mid.inflight.get? slot = none)
    (hbound : upload.attempt ≤ mid.nextAttempt) :
    Fate (.begin put room outcome) slot upload store
      (mid.begun slot blob uploader answer).2 departure := by
  cases answer with
  | failed error => exact htaken
  | resume offset =>
      simp only [begun, replaceInflight_none _ _ _ hnone]
      exact htaken.register hnone hbound
  | alreadyComplete file =>
      obtain ⟨hinflight, hevents, -⟩ := mid.place_frame slot blob file
      rcases hplace : mid.place slot blob file with ⟨placed, next⟩
      rw [hplace] at hinflight hevents
      have hplaced : Fate (.begin put room outcome) slot upload store next
          departure :=
        htaken.after (mentions_of_same hevents) (by rw [hinflight])
      cases placed with
      | error error =>
          simp only [begun, hplace]
          exact hplaced
      | ok changed =>
          have hstill : next.inflight.get? slot = none := by
            rw [hinflight, hnone]
          simp only [begun, hplace, replaceInflight_none _ _ _ hstill]
          exact hplaced.after (mentions_stored _ _ _ _) Iff.rfl

/-- An upload of another transfer is taken over once the put is accepted. -/
theorem fate_begun {store : Store}
    (hget : store.inflight.get? slot = some upload)
    (hbound : upload.attempt ≤ store.nextAttempt) :
    Fate (.begin put room outcome) slot upload store
      (store.begun slot blob uploader answer).2
      (.replaced (some uploader = some upload.uploader)
        (holds (some (store.begun slot blob uploader answer).1) &&
          blob.sha256 = upload.blob.sha256)) := by
  cases answer with
  | failed error => exact fate_same _ hget rfl rfl
  | resume offset =>
      refine Fate.register (fate_taken _ _ .streams _ hget fun h => nomatch h)
        ?_ ?_
      · rw [get?_replaceInflight, if_pos rfl]
      · rwa [nextAttempt_replaceInflight]
  | alreadyComplete file =>
      obtain ⟨hinflight, hevents, -⟩ := store.place_frame slot blob file
      rcases hplace : store.place slot blob file with ⟨placed, next⟩
      rw [hplace] at hinflight hevents
      cases placed with
      | error error =>
          simp only [begun, hplace]
          exact fate_same _ hget hinflight hevents
      | ok changed =>
          simp only [begun, hplace]
          refine Fate.after (Fate.before (mentions_of_same hevents)
            (fate_taken _ _ .stored _ (by rw [hinflight, hget]) ?_))
            (mentions_stored _ _ _ _) Iff.rfl
          intro _ hsame
          simp [holds, PutBegin.isStored, hsame]

theorem fate_stream {store : Store}
    (hget : store.inflight.get? slot = some upload)
    (hbound : upload.attempt ≤ store.nextAttempt) (hasRoom : Bool) :
    Fate (.begin put room outcome) slot upload store
      (store.stream slot blob uploader hasRoom answer).2
      (.replaced (some uploader = some upload.uploader)
        (holds (some (store.stream slot blob uploader hasRoom answer).1) &&
          blob.sha256 = upload.blob.sha256)) := by
  cases hasRoom with
  | false => exact fate_same _ hget rfl rfl
  | true =>
      rw [stream_eq]
      cases store.resumes slot blob with
      | false => exact fate_begun hget hbound
      | true =>
          refine fate_begun_after
            (fate_taken _ _ .resumes _ hget fun h => nomatch h) ?_ ?_
          · rw [if_pos rfl, get?_replaceInflight, if_pos rfl]
          · rwa [if_pos rfl, nextAttempt_replaceInflight]

/-- A put of the same slot that begins. -/
theorem fate_admitPut {store : Store} {taker : Option Address}
    (hget : store.inflight.get? slot = some upload)
    (hbound : upload.attempt ≤ store.nextAttempt) (isStored hasRoom : Bool) :
    Fate (.begin put room outcome) slot upload store
      (store.admitPut slot blob taker isStored hasRoom answer).2
      (.replaced (taker = some upload.uploader)
        (holds (some (store.admitPut slot blob taker isStored hasRoom
          answer).1) && blob.sha256 = upload.blob.sha256)) := by
  simp only [admitPut]
  cases (store.shelves slot.1).checkQuota slot.2 blob with
  | error error => exact fate_same _ hget rfl rfl
  | ok fits =>
      cases isStored with
      | true =>
          have htaken : Fate (.begin put room outcome) slot upload store
              ((store.setShelf slot.1 ((store.shelves slot.1).record slot.2
                blob).2).replaceInflight slot taker blob .stored)
              (.replaced (taker = some upload.uploader)
                (blob.sha256 = upload.blob.sha256)) := by
            refine Fate.before (mentions_of_same rfl)
              (fate_taken _ _ _ _ hget ?_)
            exact fun _ hsame => decide_eq_true hsame.symm
          exact htaken.after (mentions_stored _ _ _ _) Iff.rfl
      | false =>
          cases taker with
          | none => exact fate_same _ hget rfl rfl
          | some uploader => exact fate_stream hget hbound hasRoom

end

/-! ### What it does to the others -/

/-- The upload of the slot is left alone. -/
def Spares (command : Command) (slot : Slot) (upload : InFlight)
    (store next : Store) : Prop :=
  Mentions command slot upload store next 0 ∧
    next.inflight.get? slot = store.inflight.get? slot

theorem spares_same {store next : Store}
    (hinflight : next.inflight = store.inflight)
    (hevents : next.events = store.events) :
    Spares command slot upload store next :=
  ⟨mentions_of_same hevents, by rw [hinflight]⟩

theorem Spares.trans {store mid next : Store}
    (hfirst : Spares command slot upload store mid)
    (hrest : Spares command slot upload mid next) :
    Spares command slot upload store next :=
  ⟨hfirst.1.trans hrest.1, hrest.2.trans hfirst.2⟩

theorem Spares.fate {store next : Store} {departure : Departure}
    (h : Spares command slot upload store next)
    (hget : store.inflight.get? slot = some upload) :
    Fate command slot upload store next departure :=
  fate_kept departure (h.2.trans hget) h.1

theorem spares_replaceInflight (store : Store) {other : Slot}
    (taker : Option Address) (newer : BlobMeta) (takeover : Takeover)
    (h : slot ≠ other) :
    Spares command slot upload store
      (store.replaceInflight other taker newer takeover) :=
  ⟨mentions_other store taker newer takeover h, by
    rw [get?_replaceInflight, if_neg h]⟩

theorem spares_emit (store : Store) {event : BlobEvent}
    (h : event.slot ≠ slot) :
    Spares command slot upload store (store.emit event) :=
  ⟨⟨[event], rfl, by simp [h]⟩, rfl⟩

theorem spares_register (store : Store) {other : Slot} (blob : BlobMeta)
    (uploader : Address) (h : slot ≠ other) :
    Spares command slot upload store (store.register other blob uploader) :=
  ⟨mentions_of_same rfl, Table.get?_put_of_ne _ _ h⟩

theorem spares_begun (store : Store) {other : Slot} (blob : BlobMeta)
    (uploader : Address) (answer : BeginOutcome) (h : slot ≠ other) :
    Spares command slot upload store
      (store.begun other blob uploader answer).2 := by
  cases answer with
  | failed error => exact spares_same rfl rfl
  | resume offset =>
      exact (spares_replaceInflight store _ _ _ h).trans
        (spares_register _ _ _ h)
  | alreadyComplete file =>
      obtain ⟨hinflight, hevents, -⟩ := store.place_frame other blob file
      rcases hplace : store.place other blob file with ⟨placed, next⟩
      rw [hplace] at hinflight hevents
      have hplaced : Spares command slot upload store next :=
        spares_same hinflight hevents
      cases placed with
      | error error =>
          simp only [begun, hplace]
          exact hplaced
      | ok changed =>
          simp only [begun, hplace]
          exact (hplaced.trans (spares_replaceInflight _ _ _ _ h)).trans
            (spares_emit _ (Ne.symm h))

theorem spares_stream (store : Store) {other : Slot} (blob : BlobMeta)
    (uploader : Address) (hasRoom : Bool) (answer : BeginOutcome)
    (h : slot ≠ other) :
    Spares command slot upload store
      (store.stream other blob uploader hasRoom answer).2 := by
  cases hasRoom with
  | false => exact spares_same rfl rfl
  | true =>
      rw [stream_eq]
      split
      · exact (spares_replaceInflight store _ _ _ h).trans
          (spares_begun _ _ _ _ h)
      · exact spares_begun _ _ _ _ h

theorem spares_admitPut (store : Store) {other : Slot} (blob : BlobMeta)
    (taker : Option Address) (isStored hasRoom : Bool) (answer : BeginOutcome)
    (h : slot ≠ other) :
    Spares command slot upload store
      (store.admitPut other blob taker isStored hasRoom answer).2 := by
  simp only [admitPut]
  cases (store.shelves other.1).checkQuota other.2 blob with
  | error error => exact spares_same rfl rfl
  | ok fits =>
      cases isStored with
      | true =>
          have hrecorded : Spares command slot upload store
              (store.setShelf other.1
                ((store.shelves other.1).record other.2 blob).2) :=
            spares_same rfl rfl
          exact (hrecorded.trans (spares_replaceInflight _ _ _ _ h)).trans
            (spares_emit _ (Ne.symm h))
      | false =>
          cases taker with
          | none => exact spares_same rfl rfl
          | some uploader => exact spares_stream store _ _ _ _ h

/-- What stands under a digest is looked at without touching the uploads. -/
theorem spares_examine (store : Store) (put : BeginPut) :
    Spares command slot upload store (store.examine put).2 := by
  rcases store.examine_cases put with ⟨answer, hanswer, -⟩ | ⟨-, hdropped⟩
  · rw [hanswer]
    exact spares_same rfl rfl
  · rw [hdropped]
    exact ⟨mentions_dropContent store _ _, rfl⟩

theorem examine_nextAttempt (store : Store) (put : BeginPut) :
    (store.examine put).2.nextAttempt = store.nextAttempt := by
  rcases store.examine_cases put with ⟨answer, hanswer, -⟩ | ⟨-, hdropped⟩
  · rw [hanswer]
  · rw [hdropped]
    rfl

/-- A put is answered once it was examined, or goes on to be admitted. -/
theorem begin_admits (store : Store) (put : BeginPut) (room : Bool)
    (outcome : BeginOutcome) :
    (∃ answer, store.begin? put room outcome =
        (answer, (store.examine put).2)) ∨
      ∃ isStored, store.begin? put room outcome =
        (some ((store.examine put).2.admitPut (put.webapp, put.key) put.blob
            put.uploader isStored room outcome).1,
          ((store.examine put).2.admitPut (put.webapp, put.key) put.blob
            put.uploader isStored room outcome).2) := by
  rcases hexamine : store.examine put with ⟨answer, mid⟩
  simp only [begin?, hexamine]
  cases answer with
  | error error => exact Or.inl ⟨_, rfl⟩
  | ok isStored =>
      cases isStored with
      | none => exact Or.inl ⟨_, rfl⟩
      | some isStored => exact Or.inr ⟨isStored, rfl⟩

/-! ### The fate of an upload -/

theorem fate_begin {store : Store} (put : BeginPut) (room : Bool)
    (outcome : BeginOutcome) (hget : store.inflight.get? slot = some upload)
    (hbound : upload.attempt ≤ store.nextAttempt) :
    Fate (.begin put room outcome) slot upload store
      (store.begin? put room outcome).2
      (departure store upload (.begin put room outcome)) := by
  have hexamined : Spares (.begin put room outcome) slot upload store
      (store.examine put).2 := spares_examine store put
  have hmid : upload.attempt ≤ (store.examine put).2.nextAttempt := by
    rwa [examine_nextAttempt]
  rcases store.begin_admits put room outcome with
    ⟨answer, hbegin⟩ | ⟨isStored, hbegin⟩
  · rw [hbegin]
    exact hexamined.fate hget
  · rw [departure, hbegin]
    by_cases hslot : slot = (put.webapp, put.key)
    · subst hslot
      exact Fate.before hexamined.1
        (fate_admitPut (hexamined.2.trans hget) hmid isStored room)
    · have hspared : Spares (.begin put room outcome) slot upload
          (store.examine put).2
          ((store.examine put).2.admitPut (put.webapp, put.key) put.blob
            put.uploader isStored room outcome).2 :=
        spares_admitPut _ _ _ _ _ _ hslot
      exact (hexamined.trans hspared).fate hget

/-- A finish of an attempt that is not in flight changes nothing. -/
theorem finish_stale {store : Store} {other : Slot} {attempt : Nat}
    (outcome : Except String (Option Content))
    (h : ∀ held, store.inflight.get? other = some held →
      held.attempt ≠ attempt) : store.finish other attempt outcome = store := by
  simp only [finish]
  split
  · rfl
  · next held hheld => exact if_pos (h held hheld)

/-- A finish of the attempt in flight takes it out, and tells it. -/
theorem finish_told {store : Store}
    (hget : store.inflight.get? slot = some upload)
    (outcome : Except String (Option Content)) :
    (store.finish slot upload.attempt outcome).inflight =
        store.inflight.remove slot ∧
      (store.finish slot upload.attempt outcome).nextAttempt =
        store.nextAttempt ∧
      ∃ event, (store.finish slot upload.attempt outcome).events =
          store.events ++ [event] ∧ event.slot = slot ∧
        event.tells (.finish slot upload.attempt outcome) upload = true := by
  simp only [finish, hget, ne_eq, not_true_eq_false, ↓reduceIte]
  cases outcome with
  | error reason => exact ⟨rfl, rfl, _, rfl, rfl, by simp [BlobEvent.tells]⟩
  | ok file =>
      dsimp only
      obtain ⟨hinflight, hevents, hnext⟩ := place_frame
        { store with inflight := store.inflight.remove slot } slot
        upload.blob file
      generalize place { store with inflight := store.inflight.remove slot }
        slot upload.blob file = placed at hinflight hevents hnext ⊢
      obtain ⟨answer, next⟩ := placed
      cases answer with
      | error error =>
          exact ⟨hinflight, hnext, _, congrArg (· ++ _) hevents, rfl, by
            simp [BlobEvent.tells]⟩
      | ok changed =>
          exact ⟨hinflight, hnext, _, congrArg (· ++ _) hevents, rfl, by
            simp [BlobEvent.tells, Command.finishes]⟩

theorem fate_finish {store : Store} (other : Slot) (attempt : Nat)
    (outcome : Except String (Option Content))
    (hget : store.inflight.get? slot = some upload) :
    Fate (.finish other attempt outcome) slot upload store
      (store.finish other attempt outcome) .finished := by
  by_cases hheld : ∃ held, store.inflight.get? other = some held ∧
      held.attempt = attempt
  · obtain ⟨held, hother, rfl⟩ := hheld
    obtain ⟨hinflight, -, event, hevents, hevent, htells⟩ :=
      finish_told hother outcome
    by_cases hslot : slot = other
    · subst hslot
      obtain rfl := Option.some.inj (hget.symm.trans hother)
      refine fate_left ?_ ⟨_, hevents, ?_⟩ rfl
      · rw [hinflight, Table.get?_remove_self]
        exact fun h => nomatch h
      · simp [hevent, htells]
    · refine fate_kept _ ?_ ⟨_, hevents, ?_⟩
      · rw [hinflight, Table.get?_remove_of_ne _ hslot, hget]
      · simp [hevent, Ne.symm hslot]
  · rw [finish_stale outcome fun held hother hattempt =>
      hheld ⟨held, hother, hattempt⟩]
    exact fate_same _ hget rfl rfl

/-- An upload that is cancelled is told of that. -/
theorem fate_cancel {store : Store} (reason : String)
    (hget : store.inflight.get? slot = some upload) :
    Mentions command slot upload store (store.cancel slot reason) 1 ∧
      (store.cancel slot reason).inflight.get? slot = none := by
  simp only [cancel, hget]
  refine ⟨⟨_, rfl, ?_⟩, Table.get?_remove_self _ _⟩
  simp [BlobEvent.slot, BlobEvent.tells]

theorem spares_cancel (store : Store) {other : Slot} (reason : String)
    (h : slot ≠ other) :
    Spares command slot upload store (store.cancel other reason) := by
  simp only [cancel]
  split
  · exact spares_same rfl rfl
  · refine ⟨⟨_, rfl, ?_⟩, Table.get?_remove_of_ne _ h⟩
    simp [BlobEvent.slot, Ne.symm h]

theorem fate_delete {store : Store} (other : Slot)
    (hget : store.inflight.get? slot = some upload) :
    Fate (.delete other) slot upload store (store.delete other)
      .cancelled := by
  have hrested : Spares (.delete other) slot upload
      (store.cancel other "the key was deleted") (store.delete other) := by
    simp only [Store.delete]
    split
    · exact spares_same rfl rfl
    · exact ⟨⟨_, rfl, by simp [BlobEvent.tells]⟩, rfl⟩
  by_cases hslot : slot = other
  · subst hslot
    have hcancelled : Mentions (.delete slot) slot upload store
        (store.cancel slot "the key was deleted") 1 ∧ _ := fate_cancel _ hget
    have hnone := hrested.2.trans hcancelled.2
    exact fate_left
      (fun hsome => Option.some_ne_none _ (hsome.symm.trans hnone))
      (hcancelled.1.trans hrested.1) rfl
  · exact ((spares_cancel store _ hslot).trans hrested).fate hget

theorem spares_cancels {slots : List Slot} (reason : String)
    (h : slot ∉ slots) (store : Store) :
    Spares command slot upload store
      (slots.foldl (fun store slot => store.cancel slot reason) store) := by
  induction slots generalizing store with
  | nil => exact spares_same rfl rfl
  | cons first rest ih =>
      rw [List.mem_cons, not_or] at h
      exact (spares_cancel store reason h.1).trans (ih h.2 _)

theorem fate_cancels {slots : List Slot} (reason : String) (h : slot ∈ slots)
    (hnodup : slots.Nodup) {store : Store}
    (hget : store.inflight.get? slot = some upload) :
    Fate command slot upload store
      (slots.foldl (fun store slot => store.cancel slot reason) store)
      .cancelled := by
  induction slots generalizing store with
  | nil => contradiction
  | cons first rest ih =>
      rw [List.nodup_cons] at hnodup
      by_cases hfirst : slot = first
      · subst hfirst
        have hcancelled : Mentions command slot upload store
            (store.cancel slot reason) 1 ∧ _ := fate_cancel reason hget
        have hspared : Spares command slot upload
            (store.cancel slot reason) _ := spares_cancels reason hnodup.1 _
        have hnone := hspared.2.trans hcancelled.2
        exact fate_left
          (fun hsome => Option.some_ne_none _ (hsome.symm.trans hnone))
          (hcancelled.1.trans hspared.1) rfl
      · have hspared : Spares command slot upload store
            (store.cancel first reason) := spares_cancel store reason hfirst
        exact Fate.before hspared.1 (ih
          ((List.mem_cons.mp h).resolve_left hfirst) hnodup.2
          (hspared.2.trans hget))

theorem fate_purge {store : Store} (webapp : Webapp)
    (hnodup : store.inflight.keys.Nodup)
    (hget : store.inflight.get? slot = some upload) :
    Fate (.purge webapp) slot upload store (store.purge webapp)
      .cancelled := by
  have hcancelled : Fate (.purge webapp) slot upload store
      ((store.inflight.keys.filter fun slot => slot.1 = webapp).foldl
        (fun store slot => store.cancel slot "the webapp was uninstalled")
        store) .cancelled := by
    by_cases hin : slot ∈ store.inflight.keys.filter fun slot =>
        slot.1 = webapp
    · exact fate_cancels _ hin (hnodup.filter _) hget
    · exact (spares_cancels _ hin store).fate hget
  exact hcancelled.after (mentions_of_same rfl) Iff.rfl

/-- Every upload in flight stays, or leaves and is told as its departure has
it. -/
theorem fate_handle {store : Store} (command : Command)
    (hnodup : store.inflight.keys.Nodup)
    (hbound : upload.attempt ≤ store.nextAttempt)
    (hget : store.inflight.get? slot = some upload) :
    Fate command slot upload store (store.handle command)
      (departure store upload command) := by
  cases command with
  | «begin» put room outcome => exact fate_begin put room outcome hget hbound
  | finish other attempt outcome => exact fate_finish other attempt outcome hget
  | delete other => exact fate_delete other hget
  | purge webapp => exact fate_purge webapp hnodup hget

end

/-! ### The uploads in flight -/

/-- No upload is there that was not. -/
def Shrinks (store next : Store) : Prop :=
  next.inflight.Sublist store.inflight ∧ next.nextAttempt = store.nextAttempt

/-- At most one upload comes, with an attempt of its own. -/
def Turns (store next : Store) : Prop :=
  store.Shrinks next ∨ ∃ mid slot blob uploader, store.Shrinks mid ∧
    next.inflight = mid.inflight.put slot
      ⟨mid.nextAttempt + 1, blob, uploader⟩ ∧
    next.nextAttempt = mid.nextAttempt + 1

theorem shrinks_same {store next : Store}
    (hinflight : next.inflight = store.inflight)
    (hnext : next.nextAttempt = store.nextAttempt) : store.Shrinks next :=
  ⟨hinflight ▸ List.Sublist.refl _, hnext⟩

theorem Shrinks.trans {store mid next : Store} (hfirst : store.Shrinks mid)
    (hrest : mid.Shrinks next) : store.Shrinks next :=
  ⟨hrest.1.trans hfirst.1, hrest.2.trans hfirst.2⟩

theorem Shrinks.turns {store mid next : Store} (hfirst : store.Shrinks mid)
    (hrest : mid.Turns next) : store.Turns next := by
  rcases hrest with hshrinks | ⟨other, slot, blob, uploader, hother, hnext⟩
  · exact Or.inl (hfirst.trans hshrinks)
  · exact Or.inr ⟨other, slot, blob, uploader, hfirst.trans hother, hnext⟩

theorem shrinks_replaceInflight (store : Store) (slot : Slot)
    (taker : Option Address) (newer : BlobMeta) (takeover : Takeover) :
    store.Shrinks (store.replaceInflight slot taker newer takeover) := by
  simp only [replaceInflight]
  split
  · exact shrinks_same rfl rfl
  · split <;> exact ⟨List.filter_sublist, rfl⟩

theorem shrinks_cancel (store : Store) (slot : Slot) (reason : String) :
    store.Shrinks (store.cancel slot reason) := by
  simp only [cancel]
  split
  · exact shrinks_same rfl rfl
  · exact ⟨List.filter_sublist, rfl⟩

theorem shrinks_cancels (slots : List Slot) (reason : String) (store : Store) :
    store.Shrinks
      (slots.foldl (fun store slot => store.cancel slot reason) store) := by
  induction slots generalizing store with
  | nil => exact shrinks_same rfl rfl
  | cons slot rest ih => exact (shrinks_cancel store slot reason).trans (ih _)

theorem turns_begun (store : Store) (slot : Slot) (blob : BlobMeta)
    (uploader : Address) (answer : BeginOutcome) :
    store.Turns (store.begun slot blob uploader answer).2 := by
  cases answer with
  | failed error => exact Or.inl (shrinks_same rfl rfl)
  | resume offset =>
      exact Or.inr ⟨_, slot, blob, uploader,
        shrinks_replaceInflight store slot (some uploader) blob .streams, rfl,
        rfl⟩
  | alreadyComplete file =>
      obtain ⟨hinflight, -, hnext⟩ := store.place_frame slot blob file
      rcases hplace : store.place slot blob file with ⟨placed, next⟩
      rw [hplace] at hinflight hnext
      have hplaced : store.Shrinks next := shrinks_same hinflight hnext
      cases placed with
      | error error =>
          simp only [begun, hplace]
          exact Or.inl hplaced
      | ok changed =>
          simp only [begun, hplace]
          have htaken := shrinks_replaceInflight next slot (some uploader) blob
            .stored
          exact Or.inl ((hplaced.trans htaken).trans (shrinks_same rfl rfl))

theorem turns_stream (store : Store) (slot : Slot) (blob : BlobMeta)
    (uploader : Address) (hasRoom : Bool) (answer : BeginOutcome) :
    store.Turns (store.stream slot blob uploader hasRoom answer).2 := by
  cases hasRoom with
  | false => exact Or.inl (shrinks_same rfl rfl)
  | true =>
      rw [stream_eq]
      split
      · exact (shrinks_replaceInflight store slot (some uploader) blob
          .resumes).turns (turns_begun _ _ _ _ _)
      · exact turns_begun _ _ _ _ _

theorem turns_admitPut (store : Store) (slot : Slot) (blob : BlobMeta)
    (taker : Option Address) (isStored hasRoom : Bool)
    (answer : BeginOutcome) :
    store.Turns
      (store.admitPut slot blob taker isStored hasRoom answer).2 := by
  have hkept : store.Turns store := Or.inl (shrinks_same rfl rfl)
  simp only [admitPut]
  cases (store.shelves slot.1).checkQuota slot.2 blob with
  | error error => exact hkept
  | ok fits =>
      cases isStored with
      | true =>
          have hrecorded : store.Shrinks (store.setShelf slot.1
              ((store.shelves slot.1).record slot.2 blob).2) :=
            shrinks_same rfl rfl
          exact Or.inl ((hrecorded.trans
            (shrinks_replaceInflight _ slot taker blob .stored)).trans
              (shrinks_same rfl rfl))
      | false =>
          cases taker with
          | none => exact hkept
          | some uploader =>
              simp only [Bool.false_eq_true, ↓reduceIte]
              exact turns_stream store slot blob uploader hasRoom answer

theorem shrinks_examine (store : Store) (put : BeginPut) :
    store.Shrinks (store.examine put).2 := by
  rcases store.examine_cases put with ⟨answer, hanswer, -⟩ | ⟨-, hdropped⟩
  · rw [hanswer]
    exact shrinks_same rfl rfl
  · rw [hdropped]
    exact shrinks_same rfl rfl

theorem turns_handle (store : Store) (command : Command) :
    store.Turns (store.handle command) := by
  cases command with
  | «begin» put room outcome =>
      have hexamined := store.shrinks_examine put
      rw [handle]
      rcases store.begin_admits put room outcome with
        ⟨answer, hbegin⟩ | ⟨isStored, hbegin⟩
      · rw [hbegin]
        exact Or.inl hexamined
      · rw [hbegin]
        exact hexamined.turns (turns_admitPut _ _ _ _ _ _ _)
  | finish slot attempt outcome =>
      by_cases hheld : ∃ held, store.inflight.get? slot = some held ∧
          held.attempt = attempt
      · obtain ⟨held, hget, rfl⟩ := hheld
        obtain ⟨hinflight, hnext, -⟩ := finish_told hget outcome
        exact Or.inl ⟨hinflight ▸ List.filter_sublist, hnext⟩
      · refine Or.inl (shrinks_same ?_ ?_) <;>
          rw [handle, finish_stale outcome fun held hget hattempt =>
            hheld ⟨held, hget, hattempt⟩]
  | delete slot =>
      refine Or.inl ((shrinks_cancel store slot "the key was deleted").trans ?_)
      simp only [handle, delete]
      split <;> exact shrinks_same rfl rfl
  | purge webapp =>
      exact Or.inl ((shrinks_cancels _ "the webapp was uninstalled"
        store).trans (shrinks_same rfl rfl))

end Store

end Blobs

end Bridgething
