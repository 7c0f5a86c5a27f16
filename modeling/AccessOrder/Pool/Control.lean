/- # Where a worker is

What a worker of a pool is in the middle of, to the next atomic step: a load, a store or an exchange
on something shared, or a passage through a lock.  Handing a task in, running a task and taking
part in a barrier are activities of their own, each with its stages.
-/
import AccessOrder.Task.Draft
import AccessOrder.Task.Vetting
import AccessOrder.Queue.Shared
import AccessOrder.Barrier.State
import AccessOrder.Thief
namespace AccessOrder.Pool

/-- How far the handing in of a task has come. -/
inductive Submission where
  /-- The task is being built. -/
  | build (draft : Draft)
  /-- The task is about to be admitted or refused. -/
  | arrive (task : Task)
  /-- The task is vetted before it is queued; its label is kept for the events. -/
  | vet (label : Option String) (vetting : Vetting)
  /-- The task is on its way into the queue of a worker. -/
  | enqueue (target : WorkerId) (progress : Queue.Progress Task)

/-- What an act has come to. -/
inductive Outcome where
  | nothing
  | number (n : Nat)
  | flag (b : Bool)
  | versions (vs : List Version)
  | bytes (bs : List Nat)
  | text (s : String)
  /-- The scratch buffer was already borrowed. -/
  | refused
  | failed (failure : Failure)

/-- A task whose work has been taken to be done. -/
structure Frame where
  task : Task
  /-- The name of the work. -/
  name : String
  /-- The handles whose locks the task holds, the one locked last first. -/
  held : List HandleId

/-- How far the running of a task has come. -/
inductive Execution where
  /-- The task is vetted once more. -/
  | vet (vetting : Vetting)
  /-- The locks of `todo` are still to be taken. -/
  | lock (frame : Frame) (acts : List Act) (todo : List HandleId)
  /-- The acts are still to be done; `results` are those of the acts done, the last one first. -/
  | act (frame : Frame) (acts : List Act) (results : List Outcome)
  /-- An act hands a task in, whose versions are `versions` once it has been built. -/
  | hand (frame : Frame) (acts : List Act) (results : List Outcome) (versions : List Version)
    (submission : Submission)
  /-- The work is done, and the locks are given back. -/
  | unlock (frame : Frame)
  /-- The versions of `todo` are still to be released. -/
  | release (frame : Frame) (todo : List Dependency)
  /-- A task that has been woken is vetted; `woken` come after it. -/
  | wake (frame : Frame) (todo : List Dependency) (woken : List Task) (vetting : Vetting)
  /-- A task that has been woken is on its way into the queue of a worker. -/
  | requeue (frame : Frame) (todo : List Dependency) (woken : List Task) (target : WorkerId)
    (progress : Queue.Progress Task)
  /-- The task is about to be given up. -/
  | dispose (frame : Frame)

/-- How far a worker has come with a barrier round that it has seen open. -/
inductive Service where
  /-- About to read the word of the barrier. -/
  | look
  /-- About to read the length of its own queue. -/
  | measure (round : UInt32)
  /-- About to raise the flag, after which it leaves. -/
  | raise
  /-- About to read the word in order to join. -/
  | read (round : UInt32)
  /-- About to replace the word it has read by the one in which it has joined. -/
  | swap (round : UInt32) (expected next : UInt64)
  /-- Has joined, and is about to look whether the round is still open. -/
  | watchWord (round : UInt32)
  /-- Has joined, and is about to look at the flag. -/
  | watchFlag (round : UInt32)
  /-- Has joined, and is about to read the length of its own queue. -/
  | watchQueue (round : UInt32)
  /-- Has joined, and is about to look whether the pool is shut down. -/
  | watchShutdown (round : UInt32)

/-- How far the leader has come with a barrier round. -/
inductive Lead where
  /-- About to read the word in order to open the next round. -/
  | read
  /-- About to take the flag down. -/
  | clear (round : UInt32)
  /-- About to write the word that opens the round. -/
  | announce (round : UInt32)
  /-- Waits for the workers, and is about to look at the flag. -/
  | watchFlag (round : UInt32)
  /-- Waits for the workers, and is about to read the length of its own queue. -/
  | watchQueue (round : UInt32)
  /-- Waits for the workers, and is about to look whether all have joined. -/
  | watchWord (round : UInt32)
  /-- All have joined, and the queues from `queue` on are still to be looked at. -/
  | survey (round : UInt32) (queue : WorkerId)
  /-- All queues were seen empty, and the flag is looked at a last time. -/
  | recheck (round : UInt32)
  /-- About to close the round, which was found quiet or not. -/
  | close (round : UInt32) (quiet : Bool)

/-- What a worker does when it finds no task in its own queue. -/
inductive Duty where
  /-- It looks for tasks in the queues of others. -/
  | work
  /-- It leads a barrier, of which it has come to the end of so many drains. -/
  | lead (rounds : UInt32)

/-- What a worker is in the middle of. -/
inductive Control where
  /-- Outside of the pool: between two calls, or after its end. -/
  | away
  /-- Hands a task in from outside. -/
  | submitting (submission : Submission)
  /-- Waits for the pool to be started. -/
  | starting
  /-- Between two tasks. -/
  | looping
  | serving (service : Service)
  /-- Takes a task from its own queue. -/
  | popping (progress : Queue.Progress Task)
  /-- Takes a task from the queue of `victim`; `rest` are to be visited after it. -/
  | stealing (victim : WorkerId) (progress : Queue.Progress Task) (rest : List WorkerId)
  | executing (execution : Execution)
  | leading (lead : Lead)
  /-- Has come to an end by a failure. -/
  | failed (failure : Failure)

/-- A worker of a pool. -/
structure Worker where
  control : Control
  duty : Duty
  thief : Thief
  /-- The last barrier round that the worker has seen. -/
  seenRound : UInt32
  /-- A buffer that outlives the tasks that use it. -/
  scratch : List Nat

/-- How a task is given up that has been run. -/
inductive Disposal where
  /-- Without a word. -/
  | discard
  /-- With an entry in the log. -/
  | report
  deriving DecidableEq

/-- What is told about a pool. -/
inductive Event where
  | started (workers : Nat) (paused : Bool) (readiness : String) (pinned : Bool)
  /-- A task was made to wait when it was handed in on behalf of a worker. -/
  | parked (worker : WorkerId) (label : Option String)
  /-- The work of a task was done. -/
  | ran (worker : WorkerId) (name : String) (task : Task) (results : List Outcome)
  /-- A task was given up. -/
  | disposed (task : Task) (disposal : Disposal)
  | barrierCompleted (rounds : UInt32)
  | stopped

/-- The end of the whole process, by work that was broken off. -/
structure Crash where
  worker : WorkerId
  label : Option String

end AccessOrder.Pool
