/- # Sessions

A session works with handles, tasks and at most one pool, one call after another.  Tasks that have
been built and not yet handed in are in hand, by name.  A failure that comes out of the barrier of
the pool puts an end to the session.

* `hold_self` : a task taken in hand is found under its name;
* `release_self` : a task let go is not found any more.
-/
import AccessOrder.Pool.Drive
namespace AccessOrder

/-- The state of a session. -/
structure Session where
  vocabulary : Access.Vocabulary
  /-- The handles, and the pool if there is one. -/
  machine : Pool.Machine
  /-- The tasks in hand, by name. -/
  held : List (String × Task)
  /-- The failure by which the session has come to its end. -/
  ended : Option Failure

namespace Session

/-- A session that has no handle, no task and no pool. -/
def new (vocabulary : Access.Vocabulary) : Session := ⟨vocabulary, .vacant .empty 0, [], none⟩

/-- The version reached by the handle of each number. -/
def reached (s : Session) : List Version :=
  s.machine.handles.references.toList.map s.machine.handles.reached

/-- The task in hand under a name. -/
def find? (s : Session) (name : String) : Option Task := s.held.lookup name

/-- Lets the task under a name go. -/
def release (s : Session) (name : String) : Session :=
  { s with held := s.held.filter (·.1 ≠ name) }

/-- Takes a task in hand under a name, in place of the one that was there. -/
def hold (s : Session) (name : String) (t : Task) : Session :=
  { s with held := (name, t) :: (s.release name).held }

/-- Takes woken tasks in hand, each under its label; those without a label are given up. -/
def holdWoken (s : Session) (woken : List Task) : Session :=
  woken.foldl
    (fun s t =>
      match t.label with
      | some label => s.hold label t
      | none => s) s

/-- The names of the tasks in hand, in order. -/
def heldNames (s : Session) : List String :=
  (s.held.map Prod.fst).mergeSort fun a b => decide (a ≤ b)

/-- The session with changed handles. -/
def withHandles (s : Session) (handles : Handles) : Session :=
  { s with machine := { s.machine with handles := handles } }

/-- What has happened since the events were last taken, in order. -/
def takeEvents (s : Session) : List Pool.Event × Session :=
  (s.machine.events.reverse, { s with machine := { s.machine with events := [] } })

/-- Starts a pool, unless the kind set in use is not sound. -/
def launch (s : Session) (l : Pool.Launch) :
    Except (Access.KindSet.Fault Access.Kind) Session :=
  match s.vocabulary.kindSet.validate with
  | .error f => .error f
  | .ok () => .ok { s with machine := l.machine s.machine.handles s.machine.begun }

/-! ## Tasks in hand -/

/-- A task taken in hand is found under its name. -/
@[simp] theorem hold_self (s : Session) (name : String) (t : Task) :
    (s.hold name t).find? name = some t := by
  simp [find?, hold]

/-- A task let go is not found any more. -/
@[simp] theorem release_self (s : Session) (name : String) :
    (s.release name).find? name = none := by
  simpa [find?, release, List.lookup_eq_none_iff] using fun _ _ _ other => Ne.symm other

end Session

end AccessOrder
