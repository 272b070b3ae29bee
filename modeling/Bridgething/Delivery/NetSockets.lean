/-
The webapps' sockets: opens that wait for their handshake, the loop that takes
what the transport tells, and when a close is told to the device.
-/
import Bridgething.Lib.Table
import Bridgething.Lib.Transition

namespace Bridgething

namespace NetSockets

/-- Sixteen bytes, as one number. -/
abbrev Uuid := Nat

def WS_ABNORMAL_CLOSURE : Nat := 1006

structure HttpHeader where
  name : String
  value : String
deriving Repr, DecidableEq

inductive WsFrame
  | text (text : String)
  | binary (bytes : List UInt8)
deriving Repr, DecidableEq

/-- What the transport tells of a connection. -/
inductive WsEvent
  | opened (id : Uuid) (acceptedProtocol : Option String)
  | frame (id : Uuid) (frame : WsFrame)
  | closed (id : Uuid) (code : Option Nat) (reason : String)
deriving Repr, DecidableEq

structure NetWsOpen where
  connectionId : Uuid
  url : String
  protocols : Option (List String)
  headers : Option (List HttpHeader)
deriving Repr, DecidableEq

structure WsConnect where
  id : Uuid
  url : String
  protocols : List String
  headers : List HttpHeader
deriving Repr, DecidableEq

/-- What is asked of the transport. -/
inductive Call
  | connect (connect : WsConnect)
  | send (id : Uuid) (frame : WsFrame)
  | disconnect (id : Uuid) (code : Option Nat) (reason : Option String)
deriving Repr, DecidableEq

/-- What is told to the device. -/
inductive Told
  | wsMessage (connectionId : Uuid) (frame : WsFrame)
  | wsClosed (connectionId : Uuid) (code : Nat) (reason : String)
deriving Repr, DecidableEq

def Told.closes (id : Uuid) : Told → Bool
  | .wsClosed connectionId _ _ => connectionId = id
  | .wsMessage _ _ => false

/-- The protocol that was accepted, or why there is no connection. -/
inductive Outcome
  | ok (acceptedProtocol : Option String)
  | error (reason : String)
deriving Repr, DecidableEq

/-- How far the handler of an open is: it waits for the outcome; it has been
given one; nobody is left to give it one; the time for it is over; it has
answered. -/
inductive Progress
  | waiting
  | given (outcome : Outcome)
  | dropped
  | elapsed
  | answered (outcome : Outcome)
deriving Repr, DecidableEq

/-- Its answer is that the connection stands, now or when it gets to it. -/
def Progress.granted : Progress → Bool
  | .given (.ok _) | .answered (.ok _) => true
  | _ => false

def Progress.refused : Progress → Bool
  | .answered (.error _) => true
  | _ => false

theorem Progress.not_refused {progress : Progress}
    (h : progress.granted = true) : progress.refused = false := by
  rcases progress with _ | _ | _ | _ | (_ | _)
  all_goals first | rfl | cases h

structure Opening where
  id : Uuid
  progress : Progress
deriving Repr, DecidableEq

/-- The opens so far, each with its place as the name of its waiter; and the
outcome that the loop has taken a waiter for and not yet given it. -/
structure Dispatcher where
  opens : List Opening := []
  pending : Table Uuid Nat := []
  live : Finset Uuid := ∅
  inHand : Option (Nat × Outcome) := none
  calls : List Call := []
  told : List Told := []

namespace Dispatcher

def advance (dispatcher : Dispatcher) (waiter : Nat)
    (change : Progress → Progress) : Dispatcher :=
  { dispatcher with
    opens := dispatcher.opens.modify waiter fun opening =>
      { opening with progress := change opening.progress } }

def dropping : Progress → Progress
  | .waiting => .dropped
  | progress => progress

theorem dropping_of_ne {progress : Progress} (h : progress ≠ .waiting) :
    dropping progress = progress := by
  cases progress <;> first | rfl | contradiction

def elapsing : Progress → Progress
  | .waiting => .elapsed
  | progress => progress

def giving (outcome : Outcome) : Progress → Progress
  | .waiting => .given outcome
  | progress => progress

/-- The sender that is held for an id goes. -/
def dropSender (dispatcher : Dispatcher) (id : Uuid) : Dispatcher :=
  match dispatcher.pending.get? id with
  | some waiter => dispatcher.advance waiter dropping
  | none => dispatcher

def wsOpen (dispatcher : Dispatcher) (request : NetWsOpen) : Dispatcher :=
  let id := request.connectionId
  { dispatcher.dropSender id with
    opens := (dispatcher.dropSender id).opens ++ [⟨id, .waiting⟩]
    pending := dispatcher.pending.put id dispatcher.opens.length
    calls := dispatcher.calls ++
      [.connect ⟨id, request.url, request.protocols.getD [],
        request.headers.getD []⟩] }

/-- One event, as far as the loop holds the lock for it. -/
def wsEvent (dispatcher : Dispatcher) : WsEvent → Dispatcher
  | .opened id acceptedProtocol =>
      { dispatcher with
        live := insert id dispatcher.live
        pending := dispatcher.pending.remove id
        inHand := (dispatcher.pending.get? id).map fun waiter =>
          (waiter, .ok acceptedProtocol) }
  | .frame id frame =>
      { dispatcher with told := dispatcher.told ++ [.wsMessage id frame] }
  | .closed id code reason =>
      let held :=
        { dispatcher with
          pending := dispatcher.pending.remove id
          live := dispatcher.live.erase id }
      match dispatcher.pending.get? id with
      | some waiter => { held with inHand := some (waiter, .error reason) }
      | none =>
          if id ∈ dispatcher.live then
            { held with
              told := dispatcher.told ++
                [.wsClosed id (code.getD WS_ABNORMAL_CLOSURE) reason] }
          else held

/-- The loop gives the outcome, if anyone waits for it still. -/
def hand (dispatcher : Dispatcher) : Dispatcher :=
  match dispatcher.inHand with
  | some (waiter, outcome) =>
      { dispatcher.advance waiter (giving outcome) with inHand := none }
  | none => dispatcher

/-- The time for a handshake is over. -/
def elapse (dispatcher : Dispatcher) (waiter : Nat) : Dispatcher :=
  dispatcher.advance waiter elapsing

def refuse (dispatcher : Dispatcher) (waiter : Nat) (id : Uuid)
    (reason : String) : Dispatcher :=
  { (dispatcher.dropSender id).advance waiter
      fun _ => .answered (.error reason) with
    pending := dispatcher.pending.remove id
    calls := dispatcher.calls ++ [.disconnect id none none] }

/-- The handler of an open goes on, where it can. -/
def answer (dispatcher : Dispatcher) (waiter : Nat) : Dispatcher :=
  match dispatcher.opens[waiter]? with
  | none => dispatcher
  | some opening =>
      match opening.progress with
      | .given (.ok acceptedProtocol) =>
          dispatcher.advance waiter fun _ => .answered (.ok acceptedProtocol)
      | .given (.error reason) => dispatcher.refuse waiter opening.id reason
      | .dropped =>
          dispatcher.refuse waiter opening.id
            "the websocket transport went away"
      | .elapsed => dispatcher.refuse waiter opening.id "connect timed out"
      | .waiting | .answered _ => dispatcher

def wsClose (dispatcher : Dispatcher) (id : Uuid) (code : Option Nat)
    (reason : Option String) : Dispatcher :=
  if id ∈ dispatcher.live then
    { dispatcher with
      calls := dispatcher.calls ++ [.disconnect id code reason] }
  else dispatcher

def wsSend (dispatcher : Dispatcher) (id : Uuid) (frame : WsFrame) :
    Dispatcher :=
  if id ∈ dispatcher.live then
    { dispatcher with calls := dispatcher.calls ++ [.send id frame] }
  else dispatcher

end Dispatcher

inductive Step
  | wsOpen (request : NetWsOpen)
  | event (event : WsEvent)
  | hand
  | elapse (waiter : Nat)
  | answer (waiter : Nat)
  | wsClose (id : Uuid) (code : Option Nat) (reason : Option String)
  | wsSend (id : Uuid) (frame : WsFrame)
deriving Repr, DecidableEq

/-- The loop takes no event while it holds an outcome. -/
def Dispatcher.step (dispatcher : Dispatcher) : Step → Dispatcher
  | .wsOpen request => dispatcher.wsOpen request
  | .event event =>
      if dispatcher.inHand.isSome then dispatcher
      else dispatcher.wsEvent event
  | .hand => dispatcher.hand
  | .elapse waiter => dispatcher.elapse waiter
  | .answer waiter => dispatcher.answer waiter
  | .wsClose id code reason => dispatcher.wsClose id code reason
  | .wsSend id frame => dispatcher.wsSend id frame

namespace Dispatcher

def granted (dispatcher : Dispatcher) (id : Uuid) : Nat :=
  dispatcher.opens.countP fun opening =>
    opening.id = id && opening.progress.granted

def closes (dispatcher : Dispatcher) (id : Uuid) : Nat :=
  dispatcher.told.countP (Told.closes id)

/-- A close is told once at most for an open that is answered Ok, and for no
other; and no connection is live without an open that is not refused. -/
structure Truthful (dispatcher : Dispatcher) : Prop where
  closed : ∀ id, dispatcher.closes id ≤ dispatcher.granted id
  live : ∀ id ∈ dispatcher.live, ∃ opening ∈ dispatcher.opens,
    opening.id = id ∧ opening.progress.refused = false

/-- The open that waits under an id is waiting still. -/
def Awaited (dispatcher : Dispatcher) (id : Uuid) : Prop :=
  ∃ waiter, dispatcher.pending.get? id = some waiter ∧
    dispatcher.opens[waiter]? = some ⟨id, .waiting⟩

/-- A connection opens while its open waits, or is live already; and no time is
over for an open whose connection the loop has taken for open. -/
def InTime (dispatcher : Dispatcher) : Step → Prop
  | .event (.opened id _) => dispatcher.inHand = none →
      id ∈ dispatcher.live ∨ dispatcher.Awaited id
  | .elapse waiter => ∀ acceptedProtocol,
      dispatcher.inHand ≠ some (waiter, .ok acceptedProtocol)
  | _ => True

end Dispatcher

/-! ### What a change of one open keeps -/

section

variable {α : Type} {p : α → Bool} {f : α → α}

theorem countP_le_modify (l : List α) (n : Nat)
    (h : ∀ a, l[n]? = some a → p a = true → p (f a) = true) :
    l.countP p ≤ (l.modify n f).countP p := by
  induction l generalizing n with
  | nil => simp
  | cons a l ih =>
      cases n with
      | zero =>
          have hhead := h a rfl
          rw [List.modify_zero_cons, List.countP_cons, List.countP_cons]
          cases hp : p a with
          | false => simp
          | true => simp [hhead hp]
      | succ n =>
          rw [List.modify_succ_cons, List.countP_cons, List.countP_cons]
          exact Nat.add_le_add_right (ih n h) _

theorem countP_lt_modify {l : List α} {n : Nat} {a : α}
    (h : l[n]? = some a) (hbefore : p a = false) (hafter : p (f a) = true) :
    l.countP p < (l.modify n f).countP p := by
  induction l generalizing n with
  | nil => cases h
  | cons head l ih =>
      cases n with
      | zero =>
          cases h
          rw [List.modify_zero_cons, List.countP_cons, List.countP_cons,
            hbefore, hafter]
          simp
      | succ n =>
          rw [List.modify_succ_cons, List.countP_cons, List.countP_cons]
          exact Nat.add_lt_add_right (ih h) _

end

namespace Dispatcher

variable {dispatcher : Dispatcher}

theorem opens_advance (waiter : Nat) (change : Progress → Progress)
    (place : Nat) :
    (dispatcher.advance waiter change).opens[place]? =
      dispatcher.opens[place]?.map fun opening =>
        if waiter = place then
          { opening with progress := change opening.progress }
        else opening := by
  rw [advance, List.getElem?_modify]
  split <;> simp_all

theorem named_advance {waiter : Nat} {change : Progress → Progress}
    {place : Nat} {id : Uuid} {progress : Progress}
    (h : dispatcher.opens[place]? = some ⟨id, progress⟩) :
    ∃ later, (dispatcher.advance waiter change).opens[place]? =
      some ⟨id, later⟩ := by
  rw [opens_advance, h, Option.map_some]
  split
  · exact ⟨_, rfl⟩
  · exact ⟨_, rfl⟩

theorem granted_advance {waiter : Nat} {change : Progress → Progress}
    (h : ∀ opening, dispatcher.opens[waiter]? = some opening →
      opening.progress.granted = true →
        (change opening.progress).granted = true) (id : Uuid) :
    dispatcher.granted id ≤ (dispatcher.advance waiter change).granted id := by
  refine countP_le_modify _ _ fun opening hopening hcounted => ?_
  simp only [Bool.and_eq_true, decide_eq_true_eq] at hcounted ⊢
  exact ⟨hcounted.1, h opening hopening hcounted.2⟩

/-- The loop holds the Ok for an open under the id that waits for it still. -/
def Handing (dispatcher : Dispatcher) (id : Uuid) : Prop :=
  ∃ waiter acceptedProtocol,
    dispatcher.inHand = some (waiter, .ok acceptedProtocol) ∧
    dispatcher.opens[waiter]? = some ⟨id, .waiting⟩

/-- The invariant of the runs in time: a live connection has an Ok that is not
used up by a close, or is about to have one. -/
structure Settled (dispatcher : Dispatcher) : Prop where
  named : ∀ id waiter, dispatcher.pending.get? id = some waiter →
    ∃ progress, dispatcher.opens[waiter]? = some ⟨id, progress⟩
  handed : ∀ waiter outcome, dispatcher.inHand = some (waiter, outcome) →
    waiter < dispatcher.opens.length
  apart : ∀ waiter outcome, dispatcher.inHand = some (waiter, outcome) →
    ∀ id, dispatcher.pending.get? id ≠ some waiter
  closed : ∀ id, dispatcher.closes id ≤ dispatcher.granted id
  live : ∀ id ∈ dispatcher.live,
    dispatcher.closes id < dispatcher.granted id ∨ dispatcher.Handing id

/-- A change of the opens that takes no Ok away and leaves the open in hand as
it is. -/
structure Keeps (before after : Dispatcher) : Prop where
  named : ∀ (place : Nat) (id : Uuid) (progress : Progress),
    before.opens[place]? = some ⟨id, progress⟩ →
      ∃ later, after.opens[place]? = some ⟨id, later⟩
  granted : ∀ id, before.granted id ≤ after.granted id
  inHand : after.inHand = before.inHand
  handing : ∀ id, before.Handing id → after.Handing id
  told : after.told = before.told
  live : after.live = before.live

theorem Keeps.refl (dispatcher : Dispatcher) : Keeps dispatcher dispatcher where
  named _ _ progress h := ⟨progress, h⟩
  granted _ := Nat.le_refl _
  inHand := rfl
  handing _ h := h
  told := rfl
  live := rfl

theorem Keeps.trans {first second third : Dispatcher}
    (h : Keeps first second) (h' : Keeps second third) :
    Keeps first third where
  named place id progress hplace := by
    obtain ⟨later, hlater⟩ := h.named place id progress hplace
    exact h'.named place id later hlater
  granted id := (h.granted id).trans (h'.granted id)
  inHand := h'.inHand.trans h.inHand
  handing id hid := h'.handing id (h.handing id hid)
  told := h'.told.trans h.told
  live := h'.live.trans h.live

theorem keeps_advance {waiter : Nat} {change : Progress → Progress}
    (hgranted : ∀ opening, dispatcher.opens[waiter]? = some opening →
      opening.progress.granted = true →
        (change opening.progress).granted = true)
    (hhand : ∀ acceptedProtocol,
      dispatcher.inHand = some (waiter, .ok acceptedProtocol) →
        ∀ id, dispatcher.opens[waiter]? ≠ some ⟨id, .waiting⟩) :
    Keeps dispatcher (dispatcher.advance waiter change) where
  named _ _ _ := named_advance
  granted := granted_advance hgranted
  inHand := rfl
  handing id := by
    rintro ⟨other, acceptedProtocol, hin, hplace⟩
    refine ⟨other, acceptedProtocol, hin, ?_⟩
    have hne : waiter ≠ other := by
      rintro rfl
      exact hhand acceptedProtocol hin id hplace
    rw [opens_advance, hplace, Option.map_some, if_neg hne]
  told := rfl
  live := rfl

/-- A sender that goes is not the one in hand. -/
theorem Settled.keeps_dropSender (h : Settled dispatcher) (id : Uuid) :
    Keeps dispatcher (dispatcher.dropSender id) := by
  rw [dropSender]
  split
  · next waiter hpending =>
      refine keeps_advance (fun opening _ hgranted => ?_)
        fun acceptedProtocol hin => absurd hpending (h.apart _ _ hin id)
      cases hprogress : opening.progress <;>
        simp_all [dropping, Progress.granted]
  · exact Keeps.refl dispatcher

/-- What the invariant needs of a step that only drops waiters. -/
theorem Settled.of_keeps {after : Dispatcher} (h : Settled dispatcher)
    (hkeeps : Keeps dispatcher after)
    (hlength : dispatcher.opens.length ≤ after.opens.length)
    (hpending : ∀ id waiter, after.pending.get? id = some waiter →
      dispatcher.pending.get? id = some waiter) : Settled after where
  named id waiter hget := by
    obtain ⟨progress, hplace⟩ := h.named id waiter (hpending id waiter hget)
    exact hkeeps.named waiter id progress hplace
  handed waiter outcome hin :=
    (h.handed waiter outcome (hkeeps.inHand ▸ hin)).trans_le hlength
  apart waiter outcome hin id hget :=
    h.apart waiter outcome (hkeeps.inHand ▸ hin) id (hpending id waiter hget)
  closed id := by
    rw [closes, hkeeps.told]
    exact (h.closed id).trans (hkeeps.granted id)
  live id hlive := by
    rw [hkeeps.live] at hlive
    rw [closes, hkeeps.told]
    rcases h.live id hlive with hless | hhanding
    · exact Or.inl (hless.trans_le (hkeeps.granted id))
    · exact Or.inr (hkeeps.handing id hhanding)

/-! ### One step -/

theorem settled_new : Settled {} where
  named _ _ h := by cases h
  handed _ _ h := by cases h
  apart _ _ h := by cases h
  closed _ := Nat.le_refl _
  live id h := absurd h (Finset.notMem_empty id)

theorem length_dropSender (id : Uuid) :
    (dispatcher.dropSender id).opens.length = dispatcher.opens.length := by
  rw [dropSender]
  split
  · exact List.length_modify _ _ _
  · rfl

theorem pending_dropSender (id : Uuid) :
    (dispatcher.dropSender id).pending = dispatcher.pending := by
  rw [dropSender]
  split <;> rfl

theorem Settled.dropSender (h : Settled dispatcher) (id : Uuid) :
    Settled (dispatcher.dropSender id) :=
  h.of_keeps (h.keeps_dropSender id) (length_dropSender id).ge
    fun _ _ hget => by rwa [pending_dropSender] at hget

theorem Settled.wsOpen (h : Settled dispatcher) (request : NetWsOpen) :
    Settled (dispatcher.wsOpen request) := by
  have hdropped := h.dropSender request.connectionId
  have hlength : dispatcher.opens.length =
      (dispatcher.dropSender request.connectionId).opens.length :=
    (length_dropSender _).symm
  have hkeeps : Keeps (dispatcher.dropSender request.connectionId)
      (dispatcher.wsOpen request) := by
    constructor
    · intro place id progress hplace
      refine ⟨progress, ?_⟩
      rw [Dispatcher.wsOpen, List.getElem?_append_left
        (List.getElem?_eq_some_iff.mp hplace).1]
      exact hplace
    · intro id
      simp only [Dispatcher.wsOpen, granted, List.countP_append]
      exact Nat.le_add_right _ _
    · rfl
    · rintro id ⟨waiter, acceptedProtocol, hin, hplace⟩
      refine ⟨waiter, acceptedProtocol, hin, ?_⟩
      rw [Dispatcher.wsOpen, List.getElem?_append_left
        (List.getElem?_eq_some_iff.mp hplace).1]
      exact hplace
    · rfl
    · rfl
  constructor
  · intro id waiter hget
    rcases Table.get?_put_cases hget with ⟨rfl, rfl⟩ | ⟨hne, hold⟩
    · refine ⟨.waiting, ?_⟩
      rw [Dispatcher.wsOpen, hlength]
      exact List.getElem?_concat_length
    · obtain ⟨progress, hplace⟩ := h.named id waiter hold
      obtain ⟨later, hlater⟩ :=
        (h.keeps_dropSender _).named waiter id progress hplace
      exact hkeeps.named waiter id later hlater
  · intro waiter outcome hin
    have hlt := hdropped.handed waiter outcome hin
    simp only [Dispatcher.wsOpen, List.length_append]
    exact Nat.lt_add_right _ hlt
  · intro waiter outcome hin id hget
    have hlt := hdropped.handed waiter outcome hin
    rcases Table.get?_put_cases hget with ⟨rfl, rfl⟩ | ⟨hne, hold⟩
    · rw [hlength] at hlt
      exact lt_irrefl _ hlt
    · refine hdropped.apart waiter outcome hin id ?_
      rw [pending_dropSender]
      exact hold
  · intro id
    exact (hdropped.closed id).trans (hkeeps.granted id)
  · intro id hlive
    rcases hdropped.live id hlive with hless | hhanding
    · exact Or.inl (hless.trans_le (hkeeps.granted id))
    · exact Or.inr (hkeeps.handing id hhanding)

/-- An open of its own in hand is one that waits under no id. -/
theorem Settled.removed_ne (h : Settled dispatcher) {id other : Uuid}
    {waiter : Nat} (hget : dispatcher.pending.get? id = some waiter) :
    (dispatcher.pending.remove id).get? other ≠ some waiter := by
  intro hother
  obtain ⟨hne, hold⟩ := Table.get?_of_remove hother
  obtain ⟨_, hplace⟩ := h.named id waiter hget
  obtain ⟨_, hsame⟩ := h.named other waiter hold
  rw [hplace] at hsame
  exact hne (congrArg Opening.id (Option.some.inj hsame)).symm

/-- With nothing in hand, every live connection has its Ok. -/
theorem Settled.free (h : Settled dispatcher)
    (hfree : dispatcher.inHand = none) : ∀ id ∈ dispatcher.live,
      dispatcher.closes id < dispatcher.granted id := by
  intro id hlive
  refine (h.live id hlive).resolve_right ?_
  rintro ⟨waiter, acceptedProtocol, hin, -⟩
  rw [hfree] at hin
  cases hin

theorem Settled.opened (h : Settled dispatcher) (id : Uuid)
    (acceptedProtocol : Option String) (hfree : dispatcher.inHand = none)
    (htime : id ∈ dispatcher.live ∨ dispatcher.Awaited id) :
    Settled (dispatcher.wsEvent (.opened id acceptedProtocol)) where
  named other waiter hget :=
    h.named other waiter (Table.get?_of_remove hget).2
  handed waiter outcome hin := by
    obtain ⟨found, hget, hsame⟩ := Option.map_eq_some_iff.mp hin
    obtain ⟨_, hplace⟩ := h.named id found hget
    cases hsame
    exact (List.getElem?_eq_some_iff.mp hplace).1
  apart waiter outcome hin other := by
    obtain ⟨found, hget, hsame⟩ := Option.map_eq_some_iff.mp hin
    cases hsame
    exact h.removed_ne hget
  closed := h.closed
  live other hlive := by
    have hless := h.free hfree
    rcases Finset.mem_insert.mp hlive with rfl | hold
    · rcases htime with hold | ⟨waiter, hget, hplace⟩
      · exact Or.inl (hless other hold)
      · refine Or.inr ⟨waiter, acceptedProtocol, ?_, hplace⟩
        simp only [wsEvent, hget, Option.map_some]
    · exact Or.inl (hless other hold)

theorem Settled.closedEvent (h : Settled dispatcher) (id : Uuid)
    (code : Option Nat) (reason : String)
    (hfree : dispatcher.inHand = none) :
    Settled (dispatcher.wsEvent (.closed id code reason)) := by
  have hless := h.free hfree
  have hnamed : ∀ other waiter,
      (dispatcher.pending.remove id).get? other = some waiter →
        ∃ progress, dispatcher.opens[waiter]? = some ⟨other, progress⟩ :=
    fun other waiter hget => h.named other waiter (Table.get?_of_remove hget).2
  simp only [wsEvent]
  split
  · next waiter hget =>
      constructor
      · exact hnamed
      · intro held outcome hin
        cases hin
        obtain ⟨_, hplace⟩ := h.named id waiter hget
        exact (List.getElem?_eq_some_iff.mp hplace).1
      · intro held outcome hin other
        cases hin
        exact h.removed_ne hget
      · exact h.closed
      · intro other hlive
        exact Or.inl (hless other (Finset.mem_of_mem_erase hlive))
  · have hnone : ∀ waiter outcome,
        dispatcher.inHand ≠ some (waiter, outcome) := by
      intro waiter outcome hin
      rw [hfree] at hin
      cases hin
    split
    · next hmem =>
        have hcount : ∀ other, (dispatcher.told ++ [Told.wsClosed id
            (code.getD WS_ABNORMAL_CLOSURE) reason]).countP
              (Told.closes other) =
            dispatcher.closes other + if id = other then 1 else 0 := by
          intro other
          simp [closes, List.countP_append, Told.closes]
        constructor
        · exact hnamed
        · intro waiter outcome hin
          exact absurd hin (hnone waiter outcome)
        · intro waiter outcome hin
          exact absurd hin (hnone waiter outcome)
        · intro other
          refine (hcount other).trans_le ?_
          split
          · next hsame => exact hless other (hsame ▸ hmem)
          · exact h.closed other
        · intro other hlive
          obtain ⟨hne, hold⟩ := Finset.mem_erase.mp hlive
          refine Or.inl ((hcount other).trans_lt ?_)
          rw [if_neg (Ne.symm hne), Nat.add_zero]
          exact hless other hold
    · constructor
      · exact hnamed
      · intro waiter outcome hin
        exact absurd hin (hnone waiter outcome)
      · intro waiter outcome hin
        exact absurd hin (hnone waiter outcome)
      · exact h.closed
      · intro other hlive
        exact Or.inl (hless other (Finset.mem_of_mem_erase hlive))

/-- An Ok that is given to one that waits is granted. -/
theorem granted_hand {waiter : Nat} {acceptedProtocol : Option String}
    {id : Uuid} (h : dispatcher.opens[waiter]? = some ⟨id, .waiting⟩) :
    dispatcher.granted id < (dispatcher.advance waiter
      (giving (.ok acceptedProtocol))).granted id := by
  refine countP_lt_modify h ?_ ?_
  · simp [Progress.granted]
  · simp [giving, Progress.granted]

theorem Settled.hand (h : Settled dispatcher) : Settled dispatcher.hand := by
  rw [Dispatcher.hand]
  split
  · next waiter outcome hin =>
      have hgranted : ∀ id, dispatcher.granted id ≤
          (dispatcher.advance waiter (giving outcome)).granted id := by
        refine granted_advance fun opening _ hgranted => ?_
        cases hprogress : opening.progress <;>
          simp_all [giving, Progress.granted]
      constructor
      · intro id other hget
        obtain ⟨_, hplace⟩ := h.named id other hget
        exact named_advance hplace
      · intro _ _ hnone
        cases hnone
      · intro _ _ hnone
        cases hnone
      · intro id
        exact (h.closed id).trans (hgranted id)
      · intro id hlive
        refine Or.inl ?_
        rcases h.live id hlive with hless | ⟨other, protocol, hother, hplace⟩
        · exact hless.trans_le (hgranted id)
        · rw [hin] at hother
          cases hother
          exact (h.closed id).trans_lt (granted_hand hplace)
  · exact h

theorem Settled.advance (h : Settled dispatcher) {waiter : Nat}
    {change : Progress → Progress}
    (hkeeps : Keeps dispatcher (dispatcher.advance waiter change)) :
    Settled (dispatcher.advance waiter change) :=
  h.of_keeps hkeeps (List.length_modify _ _ _).ge fun _ _ hget => hget

theorem Settled.elapse (h : Settled dispatcher) {waiter : Nat}
    (htime : ∀ acceptedProtocol,
      dispatcher.inHand ≠ some (waiter, .ok acceptedProtocol)) :
    Settled (dispatcher.elapse waiter) := by
  refine h.advance (keeps_advance (fun opening _ hgranted => ?_)
    fun acceptedProtocol hin => absurd hin (htime acceptedProtocol))
  cases hprogress : opening.progress <;>
    simp_all [elapsing, Progress.granted]

/-- A handler that goes on does not wait, and had no Ok if it refuses. -/
theorem Settled.refuse (h : Settled dispatcher) {waiter : Nat}
    {opening : Opening} (hplace : dispatcher.opens[waiter]? = some opening)
    (hwaits : opening.progress ≠ .waiting)
    (hgranted : opening.progress.granted = false) (reason : String) :
    Settled (dispatcher.refuse waiter opening.id reason) := by
  have hkeeps := h.keeps_dropSender opening.id
  have hsame : (dispatcher.dropSender opening.id).opens[waiter]? =
      some opening := by
    rw [Dispatcher.dropSender]
    split
    · rw [opens_advance, hplace, Option.map_some, dropping_of_ne hwaits,
        ite_self]
    · exact hplace
  have hrefused : Keeps (dispatcher.dropSender opening.id)
      ((dispatcher.dropSender opening.id).advance waiter
        fun _ => .answered (.error reason)) := by
    refine keeps_advance (fun other hother hcounted => ?_)
      fun _ _ id hwaiting => ?_
    · rw [hsame] at hother
      cases hother
      rw [hgranted] at hcounted
      cases hcounted
    · rw [hsame] at hwaiting
      cases hwaiting
      exact hwaits rfl
  have hboth := hkeeps.trans hrefused
  have hafter : Keeps dispatcher
      (dispatcher.refuse waiter opening.id reason) :=
    ⟨hboth.named, hboth.granted, hboth.inHand, hboth.handing, hboth.told,
      hboth.live⟩
  refine h.of_keeps hafter ?_ fun _ _ hget => (Table.get?_of_remove hget).2
  refine le_of_eq ?_
  rw [← length_dropSender opening.id]
  exact (List.length_modify _ _ _).symm

theorem Settled.answer (h : Settled dispatcher) (waiter : Nat) :
    Settled (dispatcher.answer waiter) := by
  rw [Dispatcher.answer]
  split
  · exact h
  · next opening hplace =>
      split
      · next acceptedProtocol hprogress =>
          refine h.advance (keeps_advance (fun _ _ _ => rfl)
            fun _ _ id hwaiting => ?_)
          rw [hplace] at hwaiting
          cases hwaiting
          cases hprogress
      · next reason hprogress =>
          exact h.refuse hplace (by simp [hprogress])
            (by simp [hprogress, Progress.granted]) reason
      · next hprogress =>
          exact h.refuse hplace (by simp [hprogress])
            (by simp [hprogress, Progress.granted]) _
      · next hprogress =>
          exact h.refuse hplace (by simp [hprogress])
            (by simp [hprogress, Progress.granted]) _
      · exact h
      · exact h

/-- What is asked of the transport and what is passed on change nothing. -/
theorem Settled.same (h : Settled dispatcher) (calls : List Call) :
    Settled { dispatcher with calls := calls } :=
  ⟨h.named, h.handed, h.apart, h.closed, h.live⟩

theorem Settled.frame (h : Settled dispatcher) (id : Uuid)
    (frame : WsFrame) : Settled (dispatcher.wsEvent (.frame id frame)) := by
  have hcloses : ∀ other, (dispatcher.wsEvent (.frame id frame)).closes other =
      dispatcher.closes other := by
    intro other
    simp [closes, wsEvent, List.countP_append, Told.closes]
  refine ⟨h.named, h.handed, h.apart, fun other => ?_, fun other hlive => ?_⟩
  · rw [hcloses other]
    exact h.closed other
  · rw [hcloses other]
    exact h.live other hlive

/-- A step in time keeps the invariant. -/
theorem Settled.step (h : Settled dispatcher) {step : Step}
    (htime : dispatcher.InTime step) : Settled (dispatcher.step step) := by
  cases step with
  | wsOpen request => exact h.wsOpen request
  | event event =>
      simp only [Dispatcher.step]
      split
      · exact h
      · next hbusy =>
          have hfree : dispatcher.inHand = none :=
            Option.not_isSome_iff_eq_none.mp hbusy
          cases event with
          | opened id acceptedProtocol =>
              exact h.opened id acceptedProtocol hfree (htime hfree)
          | frame id frame => exact h.frame id frame
          | closed id code reason => exact h.closedEvent id code reason hfree
  | hand => exact h.hand
  | elapse waiter => exact h.elapse htime
  | answer waiter => exact h.answer waiter
  | wsClose id code reason =>
      simp only [Dispatcher.step, wsClose]
      split
      · exact h.same _
      · exact h
  | wsSend id frame =>
      simp only [Dispatcher.step, wsSend]
      split
      · exact h.same _
      · exact h

theorem Settled.truthful (h : Settled dispatcher) : Truthful dispatcher where
  closed := h.closed
  live id hlive := by
    rcases h.live id hlive with hless | ⟨waiter, -, -, hplace⟩
    · obtain ⟨opening, hmem, hcounted⟩ :=
        List.countP_pos_iff.mp (Nat.zero_lt_of_lt hless)
      simp only [Bool.and_eq_true, decide_eq_true_eq] at hcounted
      exact ⟨opening, hmem, hcounted.1, Progress.not_refused hcounted.2⟩
    · exact ⟨_, List.mem_of_getElem? hplace, rfl, rfl⟩

end Dispatcher

/-- The runs all of whose steps are in time. -/
def RunInTime : List Step → Dispatcher → Prop :=
  Transition.Run (fun dispatcher step next =>
    dispatcher.InTime step ∧ next = dispatcher.step step) {}

/-- Closes are told truthfully in every run whose steps are in time. -/
theorem runInTime_truthful {steps : List Step} {dispatcher : Dispatcher}
    (hrun : RunInTime steps dispatcher) : dispatcher.Truthful := by
  have hsettled : dispatcher.Settled := by
    refine Transition.Run.invariant hrun ?_ Dispatcher.settled_new
    rintro before after step hsettled ⟨htime, rfl⟩
    exact hsettled.step htime
  exact hsettled.truthful

/-- An open of a connection, the first and only one of it. -/
def opening (id : Uuid) : NetWsOpen := ⟨id, "wss://example.test", none, none⟩

/-- A connection that opens in time and is closed by the other side. -/
def closedAfterOpen : List Step :=
  [.wsOpen (opening 7), .event (.opened 7 none), .hand, .answer 0,
    .event (.closed 7 (some 1000) "bye")]

theorem runInTime_truthful_closed :
    (closedAfterOpen.foldl Dispatcher.step {}).Truthful := by
  have hrun : RunInTime closedAfterOpen
      (closedAfterOpen.foldl Dispatcher.step {}) := by
    refine Transition.Run.cons ⟨trivial, rfl⟩ ?_
    refine Transition.Run.cons
      ⟨fun _ => Or.inr ⟨0, by decide, by decide⟩, rfl⟩ ?_
    refine Transition.Run.cons ⟨trivial, rfl⟩ ?_
    refine Transition.Run.cons ⟨trivial, rfl⟩ ?_
    refine Transition.Run.cons ⟨trivial, rfl⟩ ?_
    exact Transition.Run.nil _
  exact runInTime_truthful hrun

/-- The time for a handshake is over before the connection opens. -/
def lateOpen : List Step :=
  [.wsOpen (opening 7), .elapse 0, .answer 0, .event (.opened 7 none),
    .event (.closed 7 (some 1000) "bye")]

/-- Its open is refused, and its close is told. -/
theorem lateOpen_closed :
    ¬ ∀ steps : List Step, (steps.foldl Dispatcher.step {}).Truthful := by
  intro hall
  have hclosed := (hall lateOpen).closed 7
  revert hclosed
  decide

end NetSockets

end Bridgething
