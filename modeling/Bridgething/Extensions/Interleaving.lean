/-
The commands from outside interleaved with what the processes and the timers
post, and what is meant by a supervisor that publishes the truth.
-/
import Bridgething.Extensions.Supervised

namespace Bridgething

namespace Extensions

/-- What no process and no timer posts. -/
def Command.outside : Command → Bool
  | .line _ _ _ | .exited _ _ _ | .restart _ _ => false
  | _ => true

inductive Event
  | told (command : Command) (outside : command.outside = true)
  | said (poster : Nat) (spoken : Spoken)
  | gone (poster : Nat) (reason : String)
  | due (poster : Nat)

/-- An event, with what the processes it starts come to. -/
structure Turn where
  event : Event
  spawns : Spawns

/-- What is posted, if there is something to post it. -/
def Event.command (posters : List Poster) : Event → Option Command
  | .told command _ => some command
  | .said p spoken =>
      match posters[p]? with
      | some (.process webapp generation) =>
          some (.line webapp generation spoken)
      | _ => none
  | .gone p reason =>
      match posters[p]? with
      | some (.process webapp generation) =>
          some (.exited webapp generation reason)
      | _ => none
  | .due p =>
      match posters[p]? with
      | some (.timer webapp generation) => some (.restart webapp generation)
      | _ => none

namespace History

def bear (past : History) (webapp : Uuid) (place : Nat) : History :=
  { past with born := Function.update past.born webapp place }

def halt (past : History) (webapp : Uuid) (place : Nat) : History :=
  { past with stopped := Function.update past.stopped webapp place }

def hear (past : History) (p : Nat) : History :=
  { past with ready := Function.update past.ready p true }

def lose (past : History) (p : Nat) : History :=
  { past with gone := Function.update past.gone p true }

def note (past : History) (s : Supervisor) : Event → History
  | .told (.installed record) _ =>
      match s.children.get? record.webapp with
      | none =>
          (past.bear record.webapp s.posters.length).halt record.webapp
            s.posters.length
      | some _ => past.halt record.webapp s.posters.length
  | .told (.uninstalled webapp) _ => past.halt webapp s.posters.length
  | .told (.enabled webapp false (some _)) _ =>
      past.halt webapp s.posters.length
  | .said p .ready => past.hear p
  | .gone p _ => past.lose p
  | _ => past

end History

structure World where
  supervisor : Supervisor
  past : History := {}

/-- The status, the process and the armed restart of a child. -/
def Child.handles (child : Child) :=
  (child.status, child.stdin, child.kill, child.armed)

namespace World

def initial (records : List ExtensionRecord) : World :=
  { supervisor := .initial records }

def step (w : World) (turn : Turn) : World :=
  match turn.event.command w.supervisor.posters with
  | none => w
  | some command =>
      ⟨w.supervisor.handle turn.spawns command,
        w.past.note w.supervisor turn.event⟩

/-! ### The truth -/

/-- The last process of a webapp, under its current generation. -/
structure Current (w : World) (webapp : Uuid) (child : Child) (p : Nat) :
    Prop where
  posted : w.supervisor.posters[p]? = some (.process webapp child.attempt)
  last : ∀ later generation, p < later →
    w.supervisor.posters[later]? ≠ some (.process webapp generation)

/-- What is published is enabled, and its process was told to run, has said that
it is ready, and was not reported to have exited; of the timers there are for a
webapp's child, one at most is armed, and none that was there at its last
stop. -/
structure Truthful (w : World) : Prop where
  running : ∀ webapp ∈ w.supervisor.published, ∃ child p,
    w.supervisor.children.get? webapp = some child ∧
      child.record.enabled = true ∧ child.intent = .run ∧
      w.Current webapp child p ∧ w.past.ready p = true ∧
      w.past.gone p = false
  armed : ∀ webapp child n, w.supervisor.children.get? webapp = some child →
    child.armed = some n → ∃ p,
      w.past.born webapp ≤ p ∧ w.past.stopped webapp ≤ p ∧
      ∀ q, w.past.born webapp ≤ q →
        (w.supervisor.posters[q]? = some (.timer webapp n) ↔ q = p)

/-- What comes from a process or a timer of an older generation, or from a timer
that was there as the webapp was stopped. -/
def Stale (w : World) : Event → Prop
  | .told _ _ => False
  | .said p _ | .gone p _ => ∃ webapp generation,
      w.supervisor.posters[p]? = some (.process webapp generation) ∧
        (p < w.past.born webapp ∨ ∀ child,
          w.supervisor.children.get? webapp = some child →
            generation < child.attempt)
  | .due p => ∃ webapp generation,
      w.supervisor.posters[p]? = some (.timer webapp generation) ∧
        (p < w.past.born webapp ∨ p < w.past.stopped webapp ∨ ∀ child,
          w.supervisor.children.get? webapp = some child →
            generation < child.seq)

def SameHandles (w next : World) : Prop :=
  ∀ webapp, (next.supervisor.children.get? webapp).map Child.handles =
    (w.supervisor.children.get? webapp).map Child.handles

/-- The supervisor publishes the truth from here to the end, and nothing that is
stale changes what it holds of a process. -/
def Honest (w : World) : List Turn → Prop
  | [] => w.Truthful
  | turn :: turns =>
      w.Truthful ∧ (w.Stale turn.event → w.SameHandles (w.step turn)) ∧
        (w.step turn).Honest turns

/-! ### The order of events -/

/-- An extension that is published is not installed anew to run at once; a
process that is heard to be ready is the one that is written to, or is said to
run; and what posts under the number of a child was spawned for that child. -/
def OrderlyTurn (w : World) (turn : Turn) : Prop :=
  match turn.event with
  | .told (.installed record) _ =>
      record.enabled = true → w.supervisor.runtime = .ready →
        record.webapp ∈ w.supervisor.published →
          turn.spawns record.webapp ≠ none
  | .said p .ready => ∀ webapp generation child,
      w.supervisor.posters[p]? = some (.process webapp generation) →
        w.supervisor.children.get? webapp = some child →
          child.attempt = generation →
            child.process = some p ∨ child.status = .running
  | .gone p _ => ∀ webapp generation child,
      w.supervisor.posters[p]? = some (.process webapp generation) →
        w.supervisor.children.get? webapp = some child →
          child.attempt = generation → w.past.born webapp ≤ p
  | .due p => ∀ webapp generation child,
      w.supervisor.posters[p]? = some (.timer webapp generation) →
        w.supervisor.children.get? webapp = some child →
          child.armed = some generation → w.past.born webapp ≤ p
  | _ => True

def Orderly (w : World) : List Turn → Prop
  | [] => True
  | turn :: turns => w.OrderlyTurn turn ∧ (w.step turn).Orderly turns

end World

end Extensions

end Bridgething
