/- # Tasks

A task is a unit of work with the accesses it declares.  A `Blueprint` is what is declared, with
handles referred to by number; building it looks the handles up, reserves a version for each access,
in order, and gives a `Task` whose dependencies are then fixed.  The work of a task is a list of
acts, among them the building of further tasks and the handing in of these and of others.

* `Task.cursor_mark` : marking a dependency as met moves the cursor by one.
-/
import AccessOrder.Handle.Basic
import AccessOrder.Queue.Lanes
namespace AccessOrder

/-- The place of a handle, in the order of creation. -/
abbrev HandleId := Nat

/-- A number by which a handle is referred to; a handle may have several. -/
abbrev HandleNumber := Nat

/-- A declared access: the number of the handle, and how it is accessed. -/
structure Access where
  number : HandleNumber
  kind : Access.Kind
  deriving DecidableEq

/-- An access whose handle has been looked up. -/
structure Access.Located extends Access where
  handle : HandleId
  deriving DecidableEq

/-- What is declared about a task whose work is a list of `α`. -/
structure Blueprint (α : Type) where
  /-- The name of the work, which is told when it has been done. -/
  name : String
  /-- The declared accesses, in order. -/
  accesses : List Access
  priority : Priority
  /-- The worker on which the task must run. -/
  pin : Option WorkerId
  /-- The name of the task in events. -/
  label : Option String
  work : List α

/-- What the work of a task does, one act at a time. -/
inductive Act where
  /-- Reads the completed version of a handle. -/
  | completed (number : HandleNumber)
  /-- Tries to take the lock of a handle, and gives it back at once. -/
  | probeLock (number : HandleNumber)
  /-- Builds a task and hands it in on behalf of the worker. -/
  | spawn (blueprint : Blueprint Act)
  /-- Hands in the task of this number, which has been built before and is kept. -/
  | submit (serial : Nat)
  /-- Adds a byte to the scratch buffer of the worker and reads the buffer. -/
  | scratchPush (byte : Nat)
  /-- Reads the scratch buffer of the worker. -/
  | scratch
  /-- Empties the scratch buffer of the worker. -/
  | scratchClear
  /-- Borrows the scratch buffer while it is borrowed, which is refused. -/
  | borrowTwice
  /-- Reads the number of the worker. -/
  | worker
  /-- Reads the number of workers. -/
  | workers
  /-- Reads the text of the worker. -/
  | workerText
  /-- Breaks off the work, which takes the whole process down. -/
  | abort

/-- The work of a task. -/
structure Work where
  name : String
  acts : List Act

/-- A resolved access: the version that the handle must reach before the access may run. -/
structure Dependency extends Access.Located where
  version : Version
  deriving DecidableEq

/-- A unit of work with its resolved accesses. -/
structure Task where
  /-- The number by which the task is told apart from all others. -/
  serial : Nat
  /-- The work, until it is taken to be done. -/
  work : Option Work
  dependencies : List Dependency
  /-- How many dependencies, from the first on, are known to be met. -/
  cursor : Nat
  priority : Priority
  pin : Option WorkerId
  label : Option String

instance : Queueable Task := ⟨Task.priority, Task.pin⟩

namespace Blueprint

/-- The task of a blueprint with the given number and dependencies. -/
def resolve (b : Blueprint Act) (serial : Nat) (dependencies : List Dependency) : Task where
  serial := serial
  work := some ⟨b.name, b.work⟩
  dependencies := dependencies
  cursor := 0
  priority := b.priority
  pin := b.pin
  label := b.label

end Blueprint

namespace Task

/-- Whether the work has been taken to be done. -/
def executed (t : Task) : Bool := t.work.isNone

/-- The first dependency that is not known to be met. -/
def blocker? (t : Task) : Option Dependency := t.dependencies[t.cursor]?

/-- The task with one more dependency known to be met. -/
def mark (t : Task) : Task := { t with cursor := t.cursor + 1 }

/-- The versions of the dependencies. -/
def versions (t : Task) : List Version := t.dependencies.map Dependency.version

/-- The handles whose locks the task must hold while it works. -/
def lockHandles (t : Task) : List HandleId :=
  ((t.dependencies.filter fun d => d.kind.properties.needsLock).map (·.handle)).mergeSort

/-- Marking a dependency as met moves the cursor by one. -/
@[simp] theorem cursor_mark (t : Task) : t.mark.cursor = t.cursor + 1 := rfl

/-- Marking a dependency as met changes no dependency. -/
@[simp] theorem dependencies_mark (t : Task) : t.mark.dependencies = t.dependencies := rfl

/-- A task that has just been built has its work before it. -/
@[simp] theorem executed_resolve (b : Blueprint Act) (serial : Nat) (ds : List Dependency) :
    (b.resolve serial ds).executed = false := rfl

/-- The handles to be locked are those of the accesses that need a lock. -/
theorem lockHandles_perm (t : Task) :
    t.lockHandles.Perm
      ((t.dependencies.filter fun d => d.kind.properties.needsLock).map (·.handle)) :=
  List.mergeSort_perm _ _

/-- Locks are taken in the order of the handles. -/
theorem lockHandles_sorted (t : Task) : t.lockHandles.Pairwise (· ≤ ·) := by
  have := @List.pairwise_mergeSort HandleId (fun a b => decide (a ≤ b))
    (by intro a b c; simpa using Nat.le_trans) (by intro a b; simpa using Nat.le_total a b)
    ((t.dependencies.filter fun d => d.kind.properties.needsLock).map (·.handle))
  simpa [lockHandles] using this

end Task

end AccessOrder
