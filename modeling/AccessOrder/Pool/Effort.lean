/- # Effort

A bound on the steps that the tasks of a pool can still take, from which the length of a run is
computed.  A task costs a fixed amount, an amount for each access and for each act, and what the
tasks cost that it hands in.

* `Act.effort_pos` : every act costs something.
-/
import AccessOrder.Pool.Machine
namespace AccessOrder

mutual

/-- What an act costs. -/
def Act.effort : Act → Nat
  | .spawn b => b.effort
  | _ => 1

/-- What building, handing in and running the task of a blueprint cost. -/
def Blueprint.effort : Blueprint Act → Nat
  | ⟨_, accesses, _, _, _, work⟩ => 64 + 16 * accesses.length + Act.efforts work

/-- What a list of acts costs. -/
def Act.efforts : List Act → Nat
  | [] => 0
  | a :: as => a.effort + Act.efforts as

end

/-- What several things cost together. -/
def total (costs : List Nat) : Nat := costs.foldl (· + ·) 0

/-- What running a task costs. -/
def Task.effort (t : Task) : Nat :=
  64 + 16 * t.dependencies.length +
    match t.work with
    | none => 0
    | some work => Act.efforts work.acts

/-- What the tasks that wait for a handle cost. -/
def Handle.effort (h : Handle Task) : Nat :=
  total (h.slots.map fun slot => total (slot.listeners.map Task.effort))

/-- What the tasks in a queue cost. -/
def Queue.Shared.effort (q : Queue.Shared Task) : Nat :=
  match q.lanes.toList with
  | .ok tasks => total (tasks.map Task.effort)
  | .error _ => 0

/-- What the queued, the waiting and the kept tasks of a pool cost. -/
def Pool.Machine.effort (m : Pool.Machine) : Nat :=
  total (m.queues.toList.map Queue.Shared.effort) +
    total (m.handles.units.toList.map Handle.effort) + total (m.kept.map Task.effort)

/-- Every act costs something. -/
theorem Act.effort_pos (a : Act) : 0 < a.effort := by
  cases a with
  | spawn b =>
    cases b
    simp only [Act.effort, Blueprint.effort]
    omega
  | _ => exact Nat.one_pos

end AccessOrder
