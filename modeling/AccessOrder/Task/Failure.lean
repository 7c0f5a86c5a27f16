/- # Failures

The ways in which an operation on tasks fails, and the text of each.
-/
import AccessOrder.Task.Text
import AccessOrder.Barrier.Word
namespace AccessOrder

/-- The ways in which an operation on tasks fails. -/
inductive Failure where
  /-- An operation on a handle failed. -/
  | handle (fault : Handle.Fault)
  /-- An operation on a queue failed. -/
  | sequence (fault : Sequence.Fault)
  /-- An operation on the barrier failed. -/
  | barrier (fault : Barrier.Fault)
  /-- There are only so many numbers of handles. -/
  | unknownHandle (numbers : Nat) (number : HandleNumber)
  /-- A task declares two accesses of one handle, which has reached this version. -/
  | repeatedAccess (reached : Version)
  /-- A task is pinned to a worker that the pool does not have; `reached` are the versions that the
  handles of its dependencies have reached. -/
  | pinOutside (task : Task) (reached : List Version) (worker workers : Nat)
  /-- A task is queued for a worker that the pool does not have. -/
  | queueOutside (size index : Nat)
  /-- The work of a task is taken a second time. -/
  | workTaken
  /-- The leader of a barrier has come to the end of as many drains as it can count. -/
  | drainsUncounted

/-- The text of a failure. -/
def Failure.message : Failure → String
  | .handle f => f.message
  | .sequence f => f.message
  | .barrier f => f.message
  | .unknownHandle numbers number => Text.indexOutside numbers number
  | .repeatedAccess reached => Handle.textAt reached ++ " is declared twice by one task"
  | .pinOutside task reached worker workers =>
    task.text reached ++ " is pinned to worker " ++ toString worker ++ " but the runtime has " ++
      toString workers ++ " workers"
  | .queueOutside size index => Text.indexOutside size index
  | .workTaken => "Task::take_payload: [1]"
  | .drainsUncounted => "attempt to add with overflow"

end AccessOrder
