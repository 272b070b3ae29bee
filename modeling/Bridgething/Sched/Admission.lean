/-
What the connection driver keeps however commands, capacity and messages come:
the order of a lane, its bound, one answer for each sender and the requests that
wait.
-/
import Bridgething.Lib.Transition
import Bridgething.Sched.Driver

namespace Bridgething

namespace Sched

open Transition

open Wire (Priority PrioritizedFrame)

open LaneItem (len)

variable {Out In Uuid T : Type}

/-- What a command at a place stalls. -/
def Command.stalled (number : Nat) :
    Command Out Uuid → Option (Stalled Out Uuid)
  | .send frame => some ⟨number, frame, .ack⟩
  | .request id frame => some ⟨number, frame, .request id⟩
  | .cancel _ => none

def offered (commands : List (Command Out Uuid)) : List (Stalled Out Uuid) :=
  commands.zipIdx.filterMap fun entry => entry.1.stalled entry.2

def ofLane (priority : Priority) (items : List (Stalled Out Uuid)) :
    List (Stalled Out Uuid) :=
  items.filter fun item => item.frame.priority = priority

def Wake.command? : Wake Out In Uuid → Option (Command Out Uuid)
  | .cmd command => command
  | .link _ | .inbound _ => none

namespace Effect

def push? : Effect In T → Option (Nat × Priority × T)
  | .pushed number priority bytes => some (number, priority, bytes)
  | .answered _ _ | .resolved _ _ | .broadcast _ => none

def answer? : Effect In T → Option (Nat × Except TransportError Unit)
  | .answered number result => some (number, result)
  | .pushed _ _ _ | .resolved _ _ | .broadcast _ => none

def reply? : Effect In T → Option Nat
  | .resolved number _ => some number
  | .pushed _ _ _ | .answered _ _ | .broadcast _ => none

/-- The effects that hand an inbound message on. -/
def isRouting : Effect In T → Bool
  | .resolved _ _ | .broadcast _ => true
  | .pushed _ _ _ | .answered _ _ => false

end Effect

namespace Transport

def pushed (transport : Transport Out In Uuid T) (item : Stalled Out Uuid) :
    Option (Nat × Priority × T) :=
  match transport.encode item.frame with
  | .ok bytes => some (item.number, item.frame.priority, bytes)
  | .error _ => none

def answer (transport : Transport Out In Uuid T) (item : Stalled Out Uuid) :
    Option (Nat × Except TransportError Unit) :=
  match item.completion with
  | .ack => some (item.number, (transport.encode item.frame).map fun _ => ())
  | .request _ => none

/-- What is seen when an item is admitted. -/
def effects (transport : Transport Out In Uuid T) (item : Stalled Out Uuid) :
    List (Effect In T) :=
  ((transport.pushed item).map fun push =>
      Effect.pushed push.1 push.2.1 push.2.2).toList ++
    ((transport.answer item).map fun answer =>
      Effect.answered answer.1 answer.2).toList

/-- How a message is handed on: to the request that it answers if that waits,
else to all. -/
def routing [DecidableEq Uuid] (transport : Transport Out In Uuid T)
    (pending : Table Uuid Nat) : Wake Out In Uuid → List (Effect In T)
  | .inbound (some (.ok msg)) =>
      match transport.inMeta msg with
      | .response requestId =>
          match pending.get? requestId with
          | some number => [.resolved number msg]
          | none => [.broadcast msg]
      | .command | .event | .request => [.broadcast msg]
  | .inbound _ | .link _ | .cmd _ => []

end Transport

/-- The lane had room before the item that it queued last. -/
def Lane.Below [LaneItem T] (max : Nat) (lane : Lane T) : Prop :=
  lane.queue = [] ∨ totalLen lane.queue.dropLast < max

/-- An answer that a frame was sent comes after its bytes are in the lane. -/
def Backed (log : List (Effect In T)) : Prop :=
  ∀ place number, log[place]? = some (.answered number (.ok ())) →
    ∃ priority bytes, Effect.pushed number priority bytes ∈ log.take place

/-- `done` is what was admitted so far: each lane has its commands' frames in
order, those admitted and those that stall. -/
structure Admitted (transport : Transport Out In Uuid T)
    (driver : Driver Out In Uuid T) (done : List (Stalled Out Uuid)) :
    Prop where
  order : ∀ priority, ofLane priority (offered driver.commands) =
    ofLane priority done ++ driver.stalled priority
  pushes : driver.log.filterMap Effect.push? =
    done.filterMap transport.pushed
  answers : driver.log.filterMap Effect.answer? =
    done.filterMap transport.answer
  backed : Backed driver.log

/-- A request waits at most once for a message, and not once its frame could
not be encoded. -/
structure Awaited [DecidableEq Uuid]
    (transport : Transport Out In Uuid T) (driver : Driver Out In Uuid T)
    (done : List (Stalled Out Uuid)) : Prop where
  pending : ∀ id number, driver.pending.get? id = some number →
    number ∉ driver.log.filterMap Effect.reply? ∧
      ∃ frame, driver.commands[number]? = some (.request id frame) ∧
        (⟨number, frame, .request id⟩ ∈ done →
          ∃ bytes, transport.encode frame = .ok bytes)
  resolved : ∀ number msg, Effect.resolved number msg ∈ driver.log →
    ∃ id frame, driver.commands[number]? = some (.request id frame) ∧
      transport.inMeta msg = .response id
  once : (driver.log.filterMap Effect.reply?).Nodup

structure Bounded [LaneItem T] (max : Nat) (driver : Driver Out In Uuid T) :
    Prop where
  cap : driver.maxLaneBytes = max
  counted : ∀ priority, (driver.sched.lanes priority).Counted
  below : ∀ priority, (driver.sched.lanes priority).Below max

theorem offered_concat (commands : List (Command Out Uuid))
    (command : Command Out Uuid) :
    offered (commands ++ [command]) =
      offered commands ++ (command.stalled commands.length).toList := by
  rw [offered, List.zipIdx_append, List.filterMap_append]
  cases hstalled : command.stalled commands.length <;>
    simp [offered, hstalled]

theorem mem_offered {commands : List (Command Out Uuid)}
    {item : Stalled Out Uuid} :
    item ∈ offered commands ↔ ∃ command, commands[item.number]? =
      some command ∧ command.stalled item.number = some item := by
  have hnumber : ∀ {number : Nat} {command : Command Out Uuid},
      command.stalled number = some item → item.number = number := by
    intro number command h
    cases command with
    | send frame => rw [← Option.some.inj h]
    | request id frame => rw [← Option.some.inj h]
    | cancel id => contradiction
  rw [offered, List.mem_filterMap]
  constructor
  · rintro ⟨⟨command, number⟩, hmem, hstalled⟩
    have hplace := List.mk_mem_zipIdx_iff_getElem?.mp hmem
    obtain rfl := hnumber hstalled
    exact ⟨command, hplace, hstalled⟩
  · rintro ⟨command, hplace, hstalled⟩
    exact ⟨(command, item.number),
      List.mk_mem_zipIdx_iff_getElem?.mpr hplace, hstalled⟩

theorem nodup_offered (commands : List (Command Out Uuid)) :
    ((offered commands).map Stalled.number).Nodup := by
  induction commands using List.reverseRecOn with
  | nil => exact List.nodup_nil
  | append_singleton commands command ih =>
      rw [offered_concat, List.map_append]
      cases hstalled : command.stalled commands.length with
      | none => simpa using ih
      | some item =>
          have hfresh : item.number = commands.length := by
            cases command with
            | send frame => rw [← Option.some.inj hstalled]
            | request id frame => rw [← Option.some.inj hstalled]
            | cancel id => contradiction
          rw [List.nodup_append]
          refine ⟨ih, by simp, ?_⟩
          intro number hold other hnew hsame
          obtain ⟨old, hmem, rfl⟩ := List.mem_map.mp hold
          obtain ⟨_, hplace, _⟩ := mem_offered.mp hmem
          have hlt := (List.getElem?_eq_some_iff.mp hplace).1
          simp only [Option.toList_some, List.map_cons, List.map_nil,
            List.mem_singleton] at hnew
          omega

theorem Backed.append {log more : List (Effect In T)} (hlog : Backed log)
    (hmore : Backed more) : Backed (log ++ more) := by
  intro place number h
  rw [List.take_append]
  by_cases hearly : place < log.length
  · rw [List.getElem?_append_left hearly] at h
    obtain ⟨priority, bytes, hpushed⟩ := hlog place number h
    exact ⟨priority, bytes, List.mem_append_left _ hpushed⟩
  · rw [List.getElem?_append_right (Nat.le_of_not_lt hearly)] at h
    obtain ⟨priority, bytes, hpushed⟩ := hmore _ number h
    exact ⟨priority, bytes, List.mem_append_right _ hpushed⟩

theorem Backed.of_answers {log : List (Effect In T)}
    (h : log.filterMap Effect.answer? = []) : Backed log := by
  intro place number hanswered
  have hmem := List.mem_of_getElem? hanswered
  rw [List.filterMap_eq_nil_iff] at h
  exact absurd (h _ hmem) (by simp [Effect.answer?])

theorem Transport.effects_backed (transport : Transport Out In Uuid T)
    (item : Stalled Out Uuid) : Backed (transport.effects item) := by
  intro place number h
  cases hencode : transport.encode item.frame with
  | ok bytes =>
      cases hcompletion : item.completion with
      | ack =>
          have heffects : transport.effects item =
              [.pushed item.number item.frame.priority bytes,
                .answered item.number (.ok ())] := by
            simp [Transport.effects, Transport.pushed, Transport.answer,
              hencode, hcompletion, Except.map]
          rw [heffects] at h ⊢
          match place with
          | 0 => simp at h
          | 1 =>
              simp only [List.getElem?_cons_succ, List.getElem?_cons_zero,
                Option.some.injEq, Effect.answered.injEq, and_true] at h
              rw [← h]
              exact ⟨_, _, List.mem_cons_self⟩
          | place + 2 => simp at h
      | request id =>
          have heffects : transport.effects item =
              [.pushed item.number item.frame.priority bytes] := by
            simp [Transport.effects, Transport.pushed, Transport.answer,
              hencode, hcompletion]
          rw [heffects] at h
          match place with
          | 0 => simp at h
          | place + 1 => simp at h
  | error err =>
      cases hcompletion : item.completion with
      | ack =>
          have heffects : transport.effects item =
              [.answered item.number (.error err)] := by
            simp [Transport.effects, Transport.pushed, Transport.answer,
              hencode, hcompletion, Except.map]
          rw [heffects] at h
          match place with
          | 0 => simp at h
          | place + 1 => simp at h
      | request id =>
          have heffects : transport.effects item = [] := by
            simp [Transport.effects, Transport.pushed, Transport.answer,
              hencode, hcompletion]
          rw [heffects] at h
          contradiction

theorem Transport.effects_pushes (transport : Transport Out In Uuid T)
    (item : Stalled Out Uuid) :
    (transport.effects item).filterMap Effect.push? =
      (transport.pushed item).toList := by
  rw [Transport.effects, List.filterMap_append]
  cases transport.pushed item <;> cases transport.answer item <;> rfl

theorem Transport.effects_answers (transport : Transport Out In Uuid T)
    (item : Stalled Out Uuid) :
    (transport.effects item).filterMap Effect.answer? =
      (transport.answer item).toList := by
  rw [Transport.effects, List.filterMap_append]
  cases transport.pushed item <;> cases transport.answer item <;> rfl

theorem Transport.effects_not_routing (transport : Transport Out In Uuid T)
    (item : Stalled Out Uuid) :
    (transport.effects item).filter Effect.isRouting = [] := by
  rw [Transport.effects, List.filter_append]
  cases transport.pushed item <;> cases transport.answer item <;> rfl

/-- Replies are among the effects that hand messages on. -/
theorem replies_routing (log : List (Effect In T)) :
    (log.filter Effect.isRouting).filterMap Effect.reply? =
      log.filterMap Effect.reply? := by
  induction log with
  | nil => rfl
  | cons effect log ih =>
      cases effect with
      | pushed number priority bytes =>
          rw [List.filter_cons_of_neg (by simp [Effect.isRouting]), ih]
          rfl
      | answered number result =>
          rw [List.filter_cons_of_neg (by simp [Effect.isRouting]), ih]
          rfl
      | resolved number msg =>
          have hreply : Effect.reply? (.resolved number msg : Effect In T) =
              some number := rfl
          rw [List.filter_cons_of_pos rfl, List.filterMap_cons_some hreply,
            List.filterMap_cons_some hreply, ih]
      | broadcast msg =>
          rw [List.filter_cons_of_pos rfl, List.filterMap_cons_none rfl, ih]
          rfl

namespace Driver

/-- What an admission does to the log, the lanes and the requests that wait. -/
theorem admitItem_cases [LaneItem T] [DecidableEq Uuid]
    (transport : Transport Out In Uuid T)
    (item : Stalled Out Uuid) (driver : Driver Out In Uuid T) :
    (∃ bytes, transport.encode item.frame = .ok bytes ∧
      driver.admitItem transport item.frame.priority item =
        { driver with
          sched := driver.sched.push item.frame.priority bytes
          log := driver.log ++ transport.effects item }) ∨
    (∃ err, transport.encode item.frame = .error err ∧
      driver.admitItem transport item.frame.priority item =
        { driver with
          pending :=
            match item.completion with
            | .ack => driver.pending
            | .request id => driver.pending.remove id
          log := driver.log ++ transport.effects item }) := by
  cases hencode : transport.encode item.frame with
  | ok bytes =>
      refine Or.inl ⟨bytes, rfl, ?_⟩
      cases hcompletion : item.completion <;>
        simp [Driver.admitItem, Driver.note, Transport.effects,
          Transport.pushed, Transport.answer, hencode, hcompletion, Except.map]
  | error err =>
      refine Or.inr ⟨err, rfl, ?_⟩
      cases hcompletion : item.completion <;>
        simp [Driver.admitItem, Driver.note, Transport.effects,
          Transport.pushed, Transport.answer, hencode, hcompletion, Except.map]

end Driver

theorem ofLane_append (priority : Priority)
    (left right : List (Stalled Out Uuid)) :
    ofLane priority (left ++ right) =
      ofLane priority left ++ ofLane priority right :=
  List.filter_append ..

theorem ofLane_singleton (priority : Priority) (item : Stalled Out Uuid) :
    ofLane priority [item] =
      if item.frame.priority = priority then [item] else [] := by
  rw [ofLane, List.filter_singleton]
  by_cases hlane : item.frame.priority = priority <;> simp [hlane]

section Pop

variable {transport : Transport Out In Uuid T}
  {driver : Driver Out In Uuid T} {done : List (Stalled Out Uuid)}
  {priority : Priority} {item : Stalled Out Uuid}
  {rest : List (Stalled Out Uuid)} {max : Nat}

/-- What stalls in a lane was offered to it. -/
theorem Admitted.mem_stalled (h : Admitted transport driver done)
    (hmem : item ∈ driver.stalled priority) :
    item.frame.priority = priority ∧ item ∈ offered driver.commands := by
  have hlane : item ∈ ofLane priority (offered driver.commands) := by
    rw [h.order]
    exact List.mem_append_right _ hmem
  have hfilter := List.mem_filter.mp hlane
  exact ⟨of_decide_eq_true hfilter.2, hfilter.1⟩

theorem Admitted.mem_done (h : Admitted transport driver done)
    (hmem : item ∈ done) : item ∈ offered driver.commands := by
  have hlane : item ∈ ofLane item.frame.priority
      (offered driver.commands) := by
    rw [h.order]
    refine List.mem_append_left _ (List.mem_filter.mpr ⟨hmem, ?_⟩)
    exact decide_eq_true rfl
  exact List.mem_of_mem_filter hlane

/-- What was offered was admitted or stalls. -/
theorem Admitted.done_or_stalled (h : Admitted transport driver done)
    (hmem : item ∈ offered driver.commands) :
    item ∈ done ∨ item ∈ driver.stalled item.frame.priority := by
  have hlane : item ∈ ofLane item.frame.priority
      (offered driver.commands) :=
    List.mem_filter.mpr ⟨hmem, decide_eq_true rfl⟩
  rw [h.order] at hlane
  rcases List.mem_append.mp hlane with hdone | hstalled
  · exact Or.inl (List.mem_of_mem_filter hdone)
  · exact Or.inr hstalled

variable [LaneItem T] [DecidableEq Uuid]

theorem Admitted.pop (h : Admitted transport driver done)
    (hstalled : driver.stalled priority = item :: rest) :
    Admitted transport (driver.pop transport priority item rest)
      (done ++ [item]) := by
  obtain ⟨rfl, _⟩ := h.mem_stalled (by rw [hstalled]; exact List.mem_cons_self)
  have horder : ∀ lane, ofLane lane (offered driver.commands) =
      ofLane lane (done ++ [item]) ++
        Function.update driver.stalled item.frame.priority rest lane := by
    intro lane
    rw [h.order, ofLane_append, ofLane_singleton, List.append_assoc]
    by_cases hlane : item.frame.priority = lane
    · subst hlane
      rw [if_pos rfl, Function.update_self, hstalled, List.singleton_append]
    · rw [if_neg hlane, Function.update_of_ne (Ne.symm hlane),
        List.nil_append]
  have hpushes : (driver.log ++ transport.effects item).filterMap
      Effect.push? = (done ++ [item]).filterMap transport.pushed := by
    rw [List.filterMap_append, h.pushes, transport.effects_pushes,
      List.filterMap_append]
    cases hpushed : transport.pushed item <;> simp [hpushed]
  have hanswers : (driver.log ++ transport.effects item).filterMap
      Effect.answer? = (done ++ [item]).filterMap transport.answer := by
    rw [List.filterMap_append, h.answers, transport.effects_answers,
      List.filterMap_append]
    cases hanswer : transport.answer item <;> simp [hanswer]
  have hbacked := h.backed.append (transport.effects_backed item)
  rcases Driver.admitItem_cases transport item
      { driver with
        stalled := Function.update driver.stalled item.frame.priority rest }
    with ⟨bytes, _, hitem⟩ | ⟨err, _, hitem⟩
  · rw [Driver.pop, hitem]
    exact ⟨horder, hpushes, hanswers, hbacked⟩
  · rw [Driver.pop, hitem]
    exact ⟨horder, hpushes, hanswers, hbacked⟩

theorem Awaited.pop (hadmitted : Admitted transport driver done)
    (h : Awaited transport driver done)
    (hstalled : driver.stalled priority = item :: rest) :
    Awaited transport (driver.pop transport priority item rest)
      (done ++ [item]) := by
  obtain ⟨rfl, hoffered⟩ := hadmitted.mem_stalled (by
    rw [hstalled]
    exact List.mem_cons_self)
  have hreplies : (driver.log ++ transport.effects item).filterMap
      Effect.reply? = driver.log.filterMap Effect.reply? := by
    rw [List.filterMap_append, ← replies_routing (transport.effects item),
      transport.effects_not_routing, List.filterMap_nil, List.append_nil]
  have hresolved : ∀ number msg,
      Effect.resolved number msg ∈ driver.log ++ transport.effects item →
      ∃ id frame, driver.commands[number]? = some (.request id frame) ∧
        transport.inMeta msg = .response id := by
    intro number msg hmem
    rcases List.mem_append.mp hmem with hold | hnew
    · exact h.resolved number msg hold
    · have hnone := transport.effects_not_routing item
      rw [List.filter_eq_nil_iff] at hnone
      exact absurd rfl (hnone _ hnew)
  have honce : ((driver.log ++ transport.effects item).filterMap
      Effect.reply?).Nodup := by
    rw [hreplies]
    exact h.once
  rcases Driver.admitItem_cases transport item
      { driver with
        stalled := Function.update driver.stalled item.frame.priority rest }
    with ⟨bytes, hencode, hitem⟩ | ⟨err, hencode, hitem⟩
  · rw [Driver.pop, hitem]
    refine ⟨?_, hresolved, honce⟩
    intro id number hpending
    obtain ⟨hwaits, frame, hcommand, hdone⟩ := h.pending id number hpending
    refine ⟨by rwa [hreplies], frame, hcommand, ?_⟩
    intro hmem
    rcases List.mem_append.mp hmem with hold | hnew
    · exact hdone hold
    · rw [List.mem_singleton] at hnew
      rw [← hnew] at hencode
      exact ⟨bytes, hencode⟩
  · rw [Driver.pop, hitem]
    refine ⟨?_, hresolved, honce⟩
    intro id number hpending
    have hbefore : driver.pending.get? id = some number := by
      cases hcompletion : item.completion with
      | ack =>
          rw [hcompletion] at hpending
          exact hpending
      | request other =>
          rw [hcompletion] at hpending
          exact (Table.get?_of_remove hpending).2
    obtain ⟨hwaits, frame, hcommand, hdone⟩ := h.pending id number hbefore
    refine ⟨by rwa [hreplies], frame, hcommand, ?_⟩
    intro hmem
    rcases List.mem_append.mp hmem with hold | hnew
    · exact hdone hold
    · -- the request that failed is the one that no longer waits
      rw [List.mem_singleton] at hnew
      rw [← hnew] at hpending
      exact absurd hpending (by simp [Table.get?_remove_self])

theorem Bounded.pop (hadmitted : Admitted transport driver done)
    (h : Bounded max driver)
    (hroom : driver.sched.laneBytes priority < driver.maxLaneBytes)
    (hstalled : driver.stalled priority = item :: rest) :
    Bounded max (driver.pop transport priority item rest) := by
  obtain ⟨rfl, _⟩ := hadmitted.mem_stalled (by
    rw [hstalled]
    exact List.mem_cons_self)
  rcases Driver.admitItem_cases transport item
      { driver with
        stalled := Function.update driver.stalled item.frame.priority rest }
    with ⟨bytes, hencode, hitem⟩ | ⟨err, hencode, hitem⟩
  · rw [Driver.pop, hitem]
    refine ⟨h.cap, ?_, ?_⟩
    · intro lane
      by_cases hlane : lane = item.frame.priority
      · subst hlane
        simpa [LaneScheduler.push] using (h.counted _).push bytes
      · simpa [LaneScheduler.push, hlane] using h.counted lane
    · intro lane
      by_cases hlane : lane = item.frame.priority
      · subst hlane
        have hqueued : totalLen
            (driver.sched.lanes item.frame.priority).queue < max := by
          rw [← h.counted, ← h.cap]
          exact hroom
        refine Or.inr ?_
        simpa [LaneScheduler.push, Lane.push] using hqueued
      · simpa [LaneScheduler.push, hlane] using h.below lane
  · rw [Driver.pop, hitem]
    exact ⟨h.cap, h.counted, h.below⟩

end Pop

namespace Driver

/-- A batch takes frames off the fronts of the lanes. -/
theorem bounded_nextBatch [LaneItem T] {driver : Driver Out In Uuid T}
    {max : Nat} {batch : Batch T} {sched : LaneScheduler T}
    (h : Bounded max driver)
    (hbatch : driver.sched.nextBatch = some (batch, sched))
    (link : Link T) :
    Bounded max { driver with link := link, sched := sched } := by
  obtain ⟨origin, seed, others, hserved⟩ :=
    LaneScheduler.nextBatch_served hbatch
  refine ⟨h.cap, ?_, ?_⟩
  · exact fun priority => hserved.counted priority (h.counted priority)
  · intro priority
    by_cases hempty : (sched.lanes priority).queue = []
    · exact Or.inl hempty
    · have hqueue := hserved.queue priority
      rcases h.below priority with hnone | hbelow
      · rw [hnone] at hqueue
        exact absurd (List.append_eq_nil_iff.mp hqueue.symm).2 hempty
      · rw [hqueue, List.dropLast_append_of_ne_nil hempty,
          totalLen_append] at hbelow
        exact Or.inr (Nat.lt_of_le_of_lt (Nat.le_add_left _ _) hbelow)

/-- A command that was taken stays at its place. -/
theorem getElem?_concat_of_some {commands : List (Command Out Uuid)}
    {number : Nat} {found : Command Out Uuid}
    (h : commands[number]? = some found) (command : Command Out Uuid) :
    (commands ++ [command])[number]? = some found := by
  rw [List.getElem?_append_left (List.getElem?_eq_some_iff.mp h).1]
  exact h

theorem take_stalled [DecidableEq Uuid] (driver : Driver Out In Uuid T)
    (command : Command Out Uuid) (priority : Priority) :
    (driver.take command).stalled priority = driver.stalled priority ++
      ofLane priority (command.stalled driver.commands.length).toList := by
  have hstall : ∀ (frame : PrioritizedFrame Out) (completion),
      Function.update driver.stalled frame.priority
        (driver.stalled frame.priority ++
          [⟨driver.commands.length, frame, completion⟩]) priority =
      driver.stalled priority ++
        ofLane priority [⟨driver.commands.length, frame, completion⟩] := by
    intro frame completion
    rw [ofLane_singleton]
    by_cases hlane : frame.priority = priority
    · rw [← hlane, Function.update_self, if_pos rfl]
    · rw [Function.update_of_ne (Ne.symm hlane), if_neg hlane,
        List.append_nil]
  cases command with
  | send frame => exact hstall frame .ack
  | request id frame => exact hstall frame (.request id)
  | cancel id => exact (List.append_nil _).symm

theorem take_commands [DecidableEq Uuid] (driver : Driver Out In Uuid T)
    (command : Command Out Uuid) :
    (driver.take command).commands = driver.commands ++ [command] := by
  cases command <;> rfl

theorem take_log [DecidableEq Uuid] (driver : Driver Out In Uuid T)
    (command : Command Out Uuid) :
    (driver.take command).log = driver.log := by
  cases command <;> rfl

/-- Who waits after a command waited before, or is the request that came. -/
theorem take_pending [DecidableEq Uuid] {driver : Driver Out In Uuid T}
    {command : Command Out Uuid} {id : Uuid} {number : Nat}
    (h : (driver.take command).pending.get? id = some number) :
    driver.pending.get? id = some number ∨
      number = driver.commands.length ∧
        ∃ frame, command = .request id frame := by
  cases command with
  | send frame => exact Or.inl h
  | request key frame =>
      have hput : (driver.pending.put key driver.commands.length).get? id =
          some number := h
      rcases Table.get?_put_cases hput with ⟨rfl, rfl⟩ | ⟨_, hold⟩
      · exact Or.inr ⟨rfl, frame, rfl⟩
      · exact Or.inl hold
  | cancel key => exact Or.inl (Table.get?_of_remove h).2

theorem routeInbound_cases [DecidableEq Uuid]
    (transport : Transport Out In Uuid T) (driver : Driver Out In Uuid T)
    (msg : In) :
    (∃ id number, transport.inMeta msg = .response id ∧
      driver.pending.get? id = some number ∧
      transport.routing driver.pending (Wake.inbound (some (.ok msg))) =
        [.resolved number msg] ∧
      routeInbound transport driver msg =
        { driver with
          pending := driver.pending.remove id
          log := driver.log ++ [.resolved number msg] }) ∨
    (transport.routing driver.pending (Wake.inbound (some (.ok msg))) =
        [.broadcast msg] ∧
      routeInbound transport driver msg =
        { driver with log := driver.log ++ [.broadcast msg] }) := by
  rw [Driver.routeInbound, Transport.routing]
  cases hmeta : transport.inMeta msg with
  | response id =>
      cases hpending : driver.pending.get? id with
      | none =>
          exact Or.inr ⟨by simp only [hpending],
            by simp only [hpending, Driver.note]⟩
      | some number =>
          exact Or.inl ⟨id, number, rfl, hpending, by simp only [hpending],
            by simp only [hpending, Driver.note]⟩
  | command => exact Or.inr ⟨rfl, rfl⟩
  | event => exact Or.inr ⟨rfl, rfl⟩
  | request => exact Or.inr ⟨rfl, rfl⟩

/-- What holds of the driver whenever it waits. -/
structure Inv [LaneItem T] [DecidableEq Uuid]
    (transport : Transport Out In Uuid T) (max : Nat)
    (driver : Driver Out In Uuid T) (done : List (Stalled Out Uuid)) :
    Prop where
  admitted : Admitted transport driver done
  awaited : Awaited transport driver done
  bounded : Bounded max driver

variable [LaneItem T] [DecidableEq Uuid]

theorem inv_new (transport : Transport Out In Uuid T) (maxBatchBytes : Nat)
    (positive : 0 < maxBatchBytes) (fits : maxBatchBytes ≤ USIZE_MAX)
    (maxLaneBytes : Nat) :
    Inv transport maxLaneBytes
      (Driver.new maxBatchBytes positive fits maxLaneBytes) [] where
  admitted := ⟨fun _ => rfl, rfl, rfl, fun _ _ h => by simp [new] at h⟩
  awaited := by
    constructor
    · intro id number h
      exact absurd h (by simp [new])
    · intro number msg h
      exact absurd h List.not_mem_nil
    · exact List.nodup_nil
  bounded := ⟨rfl, fun _ => rfl, fun _ => Or.inl rfl⟩

variable {transport : Transport Out In Uuid T} {driver : Driver Out In Uuid T}
  {done : List (Stalled Out Uuid)} {max : Nat}

theorem Inv.setLink (h : Inv transport max driver done) (link : Link T) :
    Inv transport max { driver with link := link } done where
  admitted := ⟨h.admitted.order, h.admitted.pushes, h.admitted.answers,
    h.admitted.backed⟩
  awaited := ⟨h.awaited.pending, h.awaited.resolved, h.awaited.once⟩
  bounded := ⟨h.bounded.cap, h.bounded.counted, h.bounded.below⟩

theorem Inv.setErrors (h : Inv transport max driver done)
    (inboundErrors : Nat) :
    Inv transport max { driver with inboundErrors := inboundErrors } done where
  admitted := ⟨h.admitted.order, h.admitted.pushes, h.admitted.answers,
    h.admitted.backed⟩
  awaited := ⟨h.awaited.pending, h.awaited.resolved, h.awaited.once⟩
  bounded := ⟨h.bounded.cap, h.bounded.counted, h.bounded.below⟩

theorem Inv.close (h : Inv transport max driver done) :
    Inv transport max driver.close done where
  admitted := ⟨h.admitted.order, h.admitted.pushes, h.admitted.answers,
    h.admitted.backed⟩
  awaited :=
    ⟨fun _ _ hnone => (nomatch hnone), h.awaited.resolved, h.awaited.once⟩
  bounded := ⟨h.bounded.cap, h.bounded.counted, h.bounded.below⟩

theorem Inv.move {after : Driver Out In Uuid T}
    (h : Inv transport max driver done) (hmove : Move transport driver after) :
    ∃ done, Inv transport max after done := by
  cases hmove with
  | @pop priority item rest hroom hstalled =>
      exact ⟨done ++ [item], h.admitted.pop hstalled,
        h.awaited.pop h.admitted hstalled,
        h.bounded.pop h.admitted hroom hstalled⟩
  | ask hidle => exact ⟨done, h.setLink .ready⟩

theorem Inv.moves {after : Driver Out In Uuid T}
    (h : Inv transport max driver done)
    (hmoves : Relation.ReflTransGen (Move transport) driver after) :
    ∃ done, Inv transport max after done := by
  induction hmoves with
  | refl => exact ⟨done, h⟩
  | tail _ hmove ih =>
      obtain ⟨_, hinv⟩ := ih
      exact hinv.move hmove

theorem Inv.settle (h : Inv transport max driver done) :
    ∃ done, Inv transport max (driver.settle transport) done :=
  h.moves (settle_moves transport driver)

theorem Inv.take (h : Inv transport max driver done)
    (command : Command Out Uuid) :
    Inv transport max (driver.take command) done where
  admitted := by
    refine ⟨?_, ?_, ?_, ?_⟩
    · intro priority
      rw [take_commands, offered_concat, ofLane_append, h.admitted.order,
        take_stalled, List.append_assoc]
    · rw [take_log]
      exact h.admitted.pushes
    · rw [take_log]
      exact h.admitted.answers
    · rw [take_log]
      exact h.admitted.backed
  awaited := by
    refine ⟨?_, ?_, ?_⟩
    · intro id number hpending
      rw [take_log, take_commands]
      rcases take_pending hpending with hold | ⟨rfl, frame, rfl⟩
      · obtain ⟨hwaits, frame, hcommand, hdone⟩ :=
          h.awaited.pending id number hold
        exact ⟨hwaits, frame, getElem?_concat_of_some hcommand _, hdone⟩
      · -- a command that comes is neither answered nor admitted
        refine ⟨?_, frame, List.getElem?_concat_length, ?_⟩
        · intro hmem
          obtain ⟨effect, heffect, hreply⟩ := List.mem_filterMap.mp hmem
          cases effect with
          | resolved number msg =>
              obtain rfl := Option.some.inj hreply
              obtain ⟨_, _, hcommand, _⟩ := h.awaited.resolved _ _ heffect
              have hlt := (List.getElem?_eq_some_iff.mp hcommand).1
              exact absurd hlt (Nat.lt_irrefl _)
          | pushed number priority bytes => contradiction
          | answered number result => contradiction
          | broadcast msg => contradiction
        · intro hmem
          obtain ⟨_, hcommand, _⟩ :=
            mem_offered.mp (h.admitted.mem_done hmem)
          have hlt := (List.getElem?_eq_some_iff.mp hcommand).1
          exact absurd hlt (Nat.lt_irrefl _)
    · intro number msg hmem
      rw [take_log] at hmem
      rw [take_commands]
      obtain ⟨id, frame, hcommand, hmeta⟩ :=
        h.awaited.resolved number msg hmem
      exact ⟨id, frame, getElem?_concat_of_some hcommand _, hmeta⟩
    · rw [take_log]
      exact h.awaited.once
  bounded := by
    cases command <;> exact ⟨h.bounded.cap, h.bounded.counted, h.bounded.below⟩

/-- An effect that hands a message on changes nothing of the lanes. -/
theorem Inv.routeAdmitted (h : Inv transport max driver done)
    {effect : Effect In T} (hpush : effect.push? = none)
    (hanswer : effect.answer? = none) (pending : Table Uuid Nat) :
    Admitted transport
      { driver with pending := pending, log := driver.log ++ [effect] }
      done where
  order := h.admitted.order
  pushes := by
    rw [List.filterMap_append, h.admitted.pushes,
      List.filterMap_cons_none hpush, List.filterMap_nil, List.append_nil]
  answers := by
    rw [List.filterMap_append, h.admitted.answers,
      List.filterMap_cons_none hanswer, List.filterMap_nil, List.append_nil]
  backed := by
    refine h.admitted.backed.append (Backed.of_answers ?_)
    rw [List.filterMap_cons_none hanswer, List.filterMap_nil]

theorem Inv.routeInbound (h : Inv transport max driver done) (msg : In) :
    Inv transport max (driver.routeInbound transport msg) done := by
  rcases routeInbound_cases transport driver msg with
    ⟨id, number, hmeta, hpending, _, hroute⟩ | ⟨_, hroute⟩
  · obtain ⟨hwaits, frame, hcommand, _⟩ := h.awaited.pending id number hpending
    have hreplies : (driver.log ++ [Effect.resolved number msg]).filterMap
        Effect.reply? = driver.log.filterMap Effect.reply? ++ [number] := by
      rw [List.filterMap_append]
      rfl
    rw [hroute]
    refine ⟨h.routeAdmitted rfl rfl _, ⟨?_, ?_, ?_⟩,
      ⟨h.bounded.cap, h.bounded.counted, h.bounded.below⟩⟩
    · intro key other hother
      obtain ⟨hkey, hbefore⟩ := Table.get?_of_remove hother
      obtain ⟨hnone, otherFrame, hplace, hdone⟩ :=
        h.awaited.pending key other hbefore
      refine ⟨?_, otherFrame, hplace, hdone⟩
      rw [hreplies]
      intro hmem
      rcases List.mem_append.mp hmem with hold | hnew
      · exact hnone hold
      · -- each request waits under its own id only
        rw [List.mem_singleton] at hnew
        subst hnew
        rw [hcommand] at hplace
        injection hplace with hsame
        injection hsame with hid
        exact hkey hid.symm
    · intro other otherMsg hmem
      rcases List.mem_append.mp hmem with hold | hnew
      · exact h.awaited.resolved other otherMsg hold
      · rw [List.mem_singleton] at hnew
        injection hnew with hnumber hmsg
        rw [hnumber, hmsg]
        exact ⟨id, frame, hcommand, hmeta⟩
    · rw [hreplies, List.nodup_append]
      refine ⟨h.awaited.once, List.nodup_singleton number, ?_⟩
      intro other hold same hnew hsame
      rw [List.mem_singleton] at hnew
      rw [hsame, hnew] at hold
      exact hwaits hold
  · have hreplies : (driver.log ++ [Effect.broadcast msg]).filterMap
        Effect.reply? = driver.log.filterMap Effect.reply? := by
      rw [List.filterMap_append]
      exact List.append_nil _
    rw [hroute]
    refine ⟨h.routeAdmitted rfl rfl driver.pending, ⟨?_, ?_, ?_⟩,
      ⟨h.bounded.cap, h.bounded.counted, h.bounded.below⟩⟩
    · intro key other hother
      rw [hreplies]
      exact h.awaited.pending key other hother
    · intro other otherMsg hmem
      rcases List.mem_append.mp hmem with hold | hnew
      · exact h.awaited.resolved other otherMsg hold
      · rw [List.mem_singleton] at hnew
        contradiction
    · rw [hreplies]
      exact h.awaited.once

theorem Inv.linkDone (h : Inv transport max driver done) :
    Inv transport max driver.linkDone done := by
  rw [Driver.linkDone]
  split
  · split
    · rename_i hbatch
      exact ⟨⟨h.admitted.order, h.admitted.pushes, h.admitted.answers,
          h.admitted.backed⟩,
        ⟨h.awaited.pending, h.awaited.resolved, h.awaited.once⟩,
        bounded_nextBatch h.bounded hbatch _⟩
    · exact h.setLink .idle
  · exact h.setLink .idle
  · exact h.setLink .idle

theorem Inv.inboundFailed (h : Inv transport max driver done)
    (err : TransportError) :
    Inv transport max (driver.inboundFailed err) done := by
  rw [Driver.inboundFailed]
  split
  · exact h.close
  · simp only
    split
    · exact (h.setErrors _).close
    · exact h.setErrors _

theorem Inv.react (h : Inv transport max driver done)
    (wake : Wake Out In Uuid) :
    Inv transport max (driver.react transport wake) done := by
  match wake with
  | .link (.ok ()) => exact h.linkDone
  | .link (.error _) => exact h.close
  | .cmd (some command) => exact h.take command
  | .cmd none => exact h.close
  | .inbound (some (.ok msg)) => exact (h.setErrors 0).routeInbound msg
  | .inbound (some (.error err)) => exact h.inboundFailed err
  | .inbound none => exact h.close

theorem Inv.turn (h : Inv transport max driver done) (wake : Wake Out In Uuid) :
    ∃ done, Inv transport max (driver.turn transport wake) done := by
  unfold Driver.turn
  split
  · exact ⟨done, h⟩
  · simp only
    split
    · exact ⟨done, h.react wake⟩
    · exact (h.react wake).settle

theorem inv_reached (transport : Transport Out In Uuid T)
    (maxBatchBytes : Nat) (positive : 0 < maxBatchBytes)
    (fits : maxBatchBytes ≤ USIZE_MAX) (maxLaneBytes : Nat)
    (wakes : List (Wake Out In Uuid)) (count : Nat) :
    ∃ done, Inv transport maxLaneBytes (reached (Driver.turn transport)
      (Driver.new maxBatchBytes positive fits maxLaneBytes) wakes count)
      done := by
  refine reached_always
    (fun driver => ∃ done, Inv transport maxLaneBytes driver done)
    ⟨[], inv_new transport maxBatchBytes positive fits maxLaneBytes⟩ ?_ wakes
    count
  rintro driver wake ⟨done, hinv⟩
  exact hinv.turn wake

/-- Admission hands no message on. -/
theorem Move.routed {after : Driver Out In Uuid T}
    (hmove : Move transport driver after) :
    after.log.filter Effect.isRouting =
      driver.log.filter Effect.isRouting := by
  cases hmove with
  | @pop priority item rest hroom hstalled =>
      rw [Driver.pop, Driver.admitItem]
      split <;> split <;> simp [Driver.note, Effect.isRouting]
  | ask hidle => rfl

theorem settle_routed (transport : Transport Out In Uuid T)
    (driver : Driver Out In Uuid T) :
    (driver.settle transport).log.filter Effect.isRouting =
      driver.log.filter Effect.isRouting := by
  have hmoves := settle_moves transport driver
  generalize driver.settle transport = after at hmoves
  induction hmoves with
  | refl => rfl
  | tail _ hmove ih => rw [hmove.routed, ih]

theorem react_routed (transport : Transport Out In Uuid T)
    (driver : Driver Out In Uuid T) (wake : Wake Out In Uuid) :
    (driver.react transport wake).log.filter Effect.isRouting =
      driver.log.filter Effect.isRouting ++
        transport.routing driver.pending wake := by
  match wake with
  | .link (.ok ()) =>
      rw [react, linkDone, Transport.routing, List.append_nil]
      split
      · split <;> rfl
      · rfl
      · rfl
  | .link (.error _) => exact (List.append_nil _).symm
  | .cmd (some command) =>
      rw [react, take_log]
      exact (List.append_nil _).symm
  | .cmd none => exact (List.append_nil _).symm
  | .inbound (some (.ok msg)) =>
      rw [react]
      rcases routeInbound_cases transport
          { driver with inboundErrors := 0 } msg with
        ⟨id, number, _, _, hrouting, hroute⟩ | ⟨hrouting, hroute⟩
      · rw [hroute, hrouting, List.filter_append]
        rfl
      · rw [hroute, hrouting, List.filter_append]
        rfl
  | .inbound (some (.error err)) =>
      rw [react, inboundFailed, Transport.routing, List.append_nil]
      split
      · rfl
      · simp only
        split <;> rfl
      · intro _ hmsg
        simp at hmsg
  | .inbound none => exact (List.append_nil _).symm

theorem turn_routed {driver : Driver Out In Uuid T}
    (transport : Transport Out In Uuid T) (hopen : driver.closed = false)
    (wake : Wake Out In Uuid) :
    (driver.turn transport wake).log.filter Effect.isRouting =
      driver.log.filter Effect.isRouting ++
        transport.routing driver.pending wake := by
  rw [turn, hopen, if_neg (by simp), ← react_routed]
  simp only
  split
  · rfl
  · exact settle_routed transport _

theorem Move.commands {after : Driver Out In Uuid T}
    (hmove : Move transport driver after) :
    after.commands = driver.commands := by
  cases hmove with
  | @pop priority item rest hroom hstalled =>
      rw [Driver.pop, Driver.admitItem]
      split <;> split <;> rfl
  | ask hidle => rfl

theorem settle_commands (transport : Transport Out In Uuid T)
    (driver : Driver Out In Uuid T) :
    (driver.settle transport).commands = driver.commands := by
  have hmoves := settle_moves transport driver
  generalize driver.settle transport = after at hmoves
  induction hmoves with
  | refl => rfl
  | tail _ hmove ih => rw [hmove.commands, ih]

theorem react_commands (transport : Transport Out In Uuid T)
    (driver : Driver Out In Uuid T) (wake : Wake Out In Uuid) :
    (driver.react transport wake).commands =
      driver.commands ++ wake.command?.toList := by
  match wake with
  | .link (.ok ()) =>
      rw [react, linkDone, Wake.command?, Option.toList_none, List.append_nil]
      split
      · split <;> rfl
      · rfl
      · rfl
  | .link (.error _) => exact (List.append_nil _).symm
  | .cmd (some command) => exact take_commands driver command
  | .cmd none => exact (List.append_nil _).symm
  | .inbound (some (.ok msg)) =>
      rw [react, Wake.command?, Option.toList_none, List.append_nil]
      rcases routeInbound_cases transport
          { driver with inboundErrors := 0 } msg with
        ⟨id, number, _, _, _, hroute⟩ | ⟨_, hroute⟩
      · rw [hroute]
      · rw [hroute]
  | .inbound (some (.error err)) =>
      rw [react, inboundFailed, Wake.command?, Option.toList_none,
        List.append_nil]
      split
      · rfl
      · simp only
        split <;> rfl
  | .inbound none => exact (List.append_nil _).symm

theorem turn_commands {driver : Driver Out In Uuid T}
    (transport : Transport Out In Uuid T) (hopen : driver.closed = false)
    (wake : Wake Out In Uuid) :
    (driver.turn transport wake).commands =
      driver.commands ++ wake.command?.toList := by
  rw [turn, hopen, if_neg (by simp), ← react_commands transport]
  simp only
  split
  · rfl
  · exact settle_commands transport _

/-- A driver that has not ended took every command that came. -/
theorem reached_commands (transport : Transport Out In Uuid T)
    (driver : Driver Out In Uuid T) (wakes : List (Wake Out In Uuid))
    (count : Nat) :
    (reached (Driver.turn transport) driver wakes count).commands <+:
        driver.commands ++ (wakes.take count).filterMap Wake.command? ∧
      ((reached (Driver.turn transport) driver wakes count).closed = false →
        (reached (Driver.turn transport) driver wakes count).commands =
          driver.commands ++ (wakes.take count).filterMap Wake.command?) := by
  induction count with
  | zero =>
      rw [reached_zero, List.take_zero, List.filterMap_nil, List.append_nil]
      exact ⟨List.prefix_rfl, fun _ => rfl⟩
  | succ count ih =>
      cases hwake : wakes[count]? with
      | none =>
          have hsame : wakes.take (count + 1) = wakes.take count := by
            rw [List.take_add_one, hwake, Option.toList_none, List.append_nil]
          rw [reached, hsame]
          exact ih
      | some wake =>
          have htaken : (wakes.take (count + 1)).filterMap Wake.command? =
              (wakes.take count).filterMap Wake.command? ++
                wake.command?.toList := by
            rw [List.take_add_one, hwake, List.filterMap_append]
            cases hcommand : wake.command? <;> simp [hcommand]
          rw [reached_succ hwake, htaken, ← List.append_assoc]
          cases hclosed : (reached (Driver.turn transport) driver wakes
              count).closed with
          | true =>
              rw [turn, hclosed, if_pos rfl]
              exact ⟨ih.1.trans (List.prefix_append _ _),
                fun hopen => absurd (hclosed.symm.trans hopen) (by simp)⟩
          | false =>
              rw [turn_commands transport hclosed, ih.2 hclosed]
              exact ⟨List.prefix_rfl, fun _ => rfl⟩

end Driver

section Answers

variable {transport : Transport Out In Uuid T} {driver : Driver Out In Uuid T}
  {done : List (Stalled Out Uuid)}

/-- The place of the command tells what was admitted. -/
theorem Admitted.eq_of_number (h : Admitted transport driver done)
    {left right : Stalled Out Uuid} (hleft : left ∈ done)
    (hright : right ∈ done) (hnumber : left.number = right.number) :
    left = right :=
  List.inj_on_of_nodup_map (nodup_offered driver.commands)
    (h.mem_done hleft) (h.mem_done hright) hnumber

theorem Admitted.nodup_done (h : Admitted transport driver done) :
    (done.map Stalled.number).Nodup := by
  classical
  have hdone : done.Nodup := by
    rw [List.nodup_iff_count_le_one]
    intro item
    have hlane : ∀ items : List (Stalled Out Uuid),
        (ofLane item.frame.priority items).count item = items.count item :=
      fun items => List.count_filter (by simp)
    have hcount := congrArg (List.count item) (h.order item.frame.priority)
    rw [List.count_append, hlane, hlane] at hcount
    have hoffered := List.nodup_iff_count_le_one.mp
      (List.Nodup.of_map _ (nodup_offered driver.commands)) item
    omega
  exact hdone.map_on fun _ hleft _ hright => h.eq_of_number hleft hright

theorem Transport.answer_number {item : Stalled Out Uuid} {number : Nat}
    {result : Except TransportError Unit}
    (h : transport.answer item = some (number, result)) :
    item.completion = .ack ∧ item.number = number ∧
      (transport.encode item.frame).map (fun _ => ()) = result := by
  rw [Transport.answer] at h
  split at h
  · rename_i hcompletion
    injection h with hpair
    injection hpair with hnumber hresult
    exact ⟨hcompletion, hnumber, hresult⟩
  · contradiction

theorem answers_sublist (items : List (Stalled Out Uuid)) :
    ((items.filterMap transport.answer).map Prod.fst).Sublist
      (items.map Stalled.number) := by
  induction items with
  | nil => exact List.Sublist.slnil
  | cons item items ih =>
      cases hanswer : transport.answer item with
      | none =>
          rw [List.filterMap_cons_none hanswer]
          exact ih.cons _
      | some answer =>
          rw [List.filterMap_cons_some hanswer, List.map_cons, List.map_cons,
            (Transport.answer_number hanswer).2.1]
          exact ih.cons_cons _

/-- A sender is answered once at most. -/
theorem Admitted.nodup_answers (h : Admitted transport driver done) :
    ((driver.log.filterMap Effect.answer?).map Prod.fst).Nodup := by
  rw [h.answers]
  exact h.nodup_done.sublist (answers_sublist done)

theorem pushed_ofLane (priority : Priority)
    (items : List (Stalled Out Uuid)) :
    (items.filterMap transport.pushed).filter (fun push =>
        push.2.1 = priority) =
      (ofLane priority items).filterMap transport.pushed := by
  induction items with
  | nil => rfl
  | cons item items ih =>
      rw [ofLane] at ih ⊢
      by_cases hlane : item.frame.priority = priority
      · rw [List.filter_cons_of_pos (by simpa using hlane)]
        cases hencode : transport.encode item.frame with
        | ok bytes => simp [Transport.pushed, hencode, hlane, ← ih]
        | error err => simp [Transport.pushed, hencode, ← ih]
      · rw [List.filter_cons_of_neg (by simpa using hlane)]
        cases hencode : transport.encode item.frame with
        | ok bytes => simp [Transport.pushed, hencode, hlane, ← ih]
        | error err => simp [Transport.pushed, hencode, ← ih]

/-- The frames of a lane are those of the commands that encode, in the order of
the commands. -/
theorem Admitted.pushes_prefix (h : Admitted transport driver done)
    (priority : Priority) :
    (driver.log.filterMap Effect.push?).filter (fun push =>
        push.2.1 = priority) <+:
      (ofLane priority (offered driver.commands)).filterMap
        transport.pushed := by
  rw [h.pushes, pushed_ofLane, h.order, List.filterMap_append]
  exact List.prefix_append _ _

/-- Behind an answer that a frame was sent its bytes are in its lane. -/
theorem Admitted.pushed_of_answered (h : Admitted transport driver done)
    {place number : Nat}
    (hanswered : driver.log[place]? = some (.answered number (.ok ()))) :
    ∃ frame bytes, driver.commands[number]? = some (.send frame) ∧
      transport.encode frame = .ok bytes ∧
      Effect.pushed number frame.priority bytes ∈ driver.log.take place := by
  have hanswer : (number, .ok ()) ∈ done.filterMap transport.answer := by
    rw [← h.answers]
    exact List.mem_filterMap.mpr
      ⟨_, List.mem_of_getElem? hanswered, rfl⟩
  obtain ⟨priority, bytes, hpushed⟩ := h.backed place number hanswered
  have hpush : (number, priority, bytes) ∈
      done.filterMap transport.pushed := by
    rw [← h.pushes]
    exact List.mem_filterMap.mpr
      ⟨_, List.mem_of_mem_take hpushed, rfl⟩
  obtain ⟨item, hitem, hitemAnswer⟩ := List.mem_filterMap.mp hanswer
  obtain ⟨other, hother, hotherPush⟩ := List.mem_filterMap.mp hpush
  obtain ⟨hcompletion, rfl, _⟩ := Transport.answer_number hitemAnswer
  cases hencode : transport.encode other.frame with
  | error err =>
      rw [Transport.pushed, hencode] at hotherPush
      contradiction
  | ok encoded =>
      rw [Transport.pushed, hencode] at hotherPush
      injection hotherPush with hpair
      injection hpair with hnumber hrest
      injection hrest with hpriority hbytes
      have hsame := h.eq_of_number hother hitem hnumber
      rw [hsame] at hencode hpriority
      obtain ⟨command, hcommand, hstalled⟩ :=
        mem_offered.mp (h.mem_done hitem)
      rw [← hpriority, ← hbytes] at hpushed
      refine ⟨item.frame, encoded, ?_, hencode, hpushed⟩
      cases command with
      | send frame =>
          injection hstalled with heq
          rw [← heq] at hcommand ⊢
          exact hcommand
      | request id frame =>
          injection hstalled with heq
          rw [← heq] at hcompletion
          contradiction
      | cancel id => contradiction

/-- A request whose frame was refused by the encoder does not wait. -/
theorem Awaited.not_pending [DecidableEq Uuid]
    (hadmitted : Admitted transport driver done)
    (h : Awaited transport driver done) {number : Nat} {id : Uuid}
    {frame : PrioritizedFrame Out} {err : TransportError}
    (hcommand : driver.commands[number]? = some (.request id frame))
    (hencode : transport.encode frame = .error err)
    (hadmission : ⟨number, frame, .request id⟩ ∉
      driver.stalled frame.priority) (key : Uuid) :
    driver.pending.get? key ≠ some number := by
  intro hpending
  obtain ⟨_, other, hother, hdone⟩ := h.pending key number hpending
  rw [hcommand] at hother
  injection hother with hsame
  injection hsame with hid hframe
  subst hid hframe
  have hoffered : ⟨number, frame, .request id⟩ ∈
      offered driver.commands := mem_offered.mpr ⟨_, hcommand, rfl⟩
  rcases hadmitted.done_or_stalled hoffered with hin | hstalled
  · obtain ⟨bytes, hbytes⟩ := hdone hin
    rw [hencode] at hbytes
    contradiction
  · exact hadmission hstalled

end Answers

variable [LaneItem T] [DecidableEq Uuid]

/-- A fresh driver after some of what wakes it. -/
def Driver.run (transport : Transport Out In Uuid T) (maxBatchBytes : Nat)
    (positive : 0 < maxBatchBytes) (fits : maxBatchBytes ≤ USIZE_MAX)
    (maxLaneBytes : Nat) (wakes : List (Wake Out In Uuid)) (count : Nat) :
    Driver Out In Uuid T :=
  reached (Driver.turn transport)
    (Driver.new maxBatchBytes positive fits maxLaneBytes) wakes count

/-- However commands, capacity and messages come, whenever the driver waits: it
took the commands that came; what a lane was given is in the order of the
commands; without its last frame a lane is below its bound; a sender is answered
once, and with `Ok` after its bytes; a request that cannot be encoded does not
wait; a reply goes to the request with the id that the message names, once; and
each message is handed on as the requests that wait say. -/
theorem driver_admits (transport : Transport Out In Uuid T)
    (maxBatchBytes : Nat) (positive : 0 < maxBatchBytes)
    (fits : maxBatchBytes ≤ USIZE_MAX) (maxLaneBytes : Nat)
    (wakes : List (Wake Out In Uuid)) (count : Nat) :
    let run := Driver.run transport maxBatchBytes positive fits maxLaneBytes
      wakes
    let driver := run count
    (driver.commands <+: (wakes.take count).filterMap Wake.command? ∧
      (driver.closed = false →
        driver.commands = (wakes.take count).filterMap Wake.command?)) ∧
    (∀ priority, (driver.log.filterMap Effect.push?).filter (fun push =>
        push.2.1 = priority) <+:
      (ofLane priority (offered driver.commands)).filterMap
        transport.pushed) ∧
    (∀ priority, driver.sched.laneBytes priority =
        totalLen (driver.sched.lanes priority).queue ∧
      ∀ last, (driver.sched.lanes priority).queue.getLast? = some last →
        driver.sched.laneBytes priority < maxLaneBytes + len last) ∧
    ((driver.log.filterMap Effect.answer?).map Prod.fst).Nodup ∧
    (∀ place number,
      driver.log[place]? = some (.answered number (.ok ())) →
      ∃ frame bytes, driver.commands[number]? = some (.send frame) ∧
        transport.encode frame = .ok bytes ∧
        Effect.pushed number frame.priority bytes ∈
          driver.log.take place) ∧
    (∀ number id frame err,
      driver.commands[number]? = some (.request id frame) →
      transport.encode frame = .error err →
      ⟨number, frame, .request id⟩ ∉ driver.stalled frame.priority →
      ∀ key, driver.pending.get? key ≠ some number) ∧
    (∀ number msg, Effect.resolved number msg ∈ driver.log →
      ∃ id frame, driver.commands[number]? = some (.request id frame) ∧
        transport.inMeta msg = .response id) ∧
    (driver.log.filterMap Effect.reply?).Nodup ∧
    (∀ wake, wakes[count]? = some wake → driver.closed = false →
      (run (count + 1)).log.filter Effect.isRouting =
        driver.log.filter Effect.isRouting ++
          transport.routing driver.pending wake) := by
  intro run driver
  obtain ⟨done, hinv⟩ : ∃ done, Driver.Inv transport maxLaneBytes driver
      done :=
    Driver.inv_reached transport maxBatchBytes positive fits maxLaneBytes
      wakes count
  refine ⟨Driver.reached_commands transport _ wakes count,
    hinv.admitted.pushes_prefix, ?_, hinv.admitted.nodup_answers,
    fun _ _ => hinv.admitted.pushed_of_answered,
    fun _ _ _ _ hcommand hencode hadmission key =>
      hinv.awaited.not_pending hinv.admitted hcommand hencode hadmission key,
    hinv.awaited.resolved, hinv.awaited.once, ?_⟩
  · intro priority
    have hcounted : driver.sched.laneBytes priority =
        totalLen (driver.sched.lanes priority).queue :=
      hinv.bounded.counted priority
    refine ⟨hcounted, ?_⟩
    intro last hlast
    rcases hinv.bounded.below priority with hempty | hbelow
    · rw [hempty] at hlast
      contradiction
    · have hsplit := List.dropLast_append_getLast? last hlast
      rw [hcounted, ← hsplit, totalLen_append]
      simpa using hbelow
  · intro wake hwake hopen
    have hnext : run (count + 1) = driver.turn transport wake :=
      reached_succ hwake
    rw [hnext]
    exact Driver.turn_routed transport hopen wake

/-- A frame of one number is its own encoding, an empty one has none, and every
message answers request seven. -/
def numberTransport : Transport (List UInt64) UInt64 Nat UInt64 where
  inMeta _ := .response 7
  encode frame :=
    match frame.msg with
    | [] => .error (.encode "empty")
    | number :: _ => .ok number

/-- A request that cannot be encoded, behind a frame of another lane. -/
theorem driver_admits_refused :
    (Driver.run numberTransport 10 (by decide) (by decide) 5
      [.cmd (some (.send ⟨.bulk, .auto, [4]⟩)),
        .cmd (some (.request 7 ⟨.normal, .auto, []⟩))] 2).pending.get? 7 ≠
      some 1 :=
  (driver_admits numberTransport 10 (by decide) (by decide) 5
    [.cmd (some (.send ⟨.bulk, .auto, [4]⟩)),
      .cmd (some (.request 7 ⟨.normal, .auto, []⟩))] 2).2.2.2.2.2.1 1 7
    ⟨.normal, .auto, []⟩ (.encode "empty") (by decide +kernel) rfl
    (by decide +kernel) 7

end Sched

end Bridgething
