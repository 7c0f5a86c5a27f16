/- # Runs of a pool

Starting a pool, handing tasks in, waiting at the barrier and shutting down.  A run lets the workers
take their steps in turns, one step each, until the leader has come out of the barrier.  A call
made outside of the barrier is run to its end before any worker takes a step.
-/
import AccessOrder.Pool.Effort
namespace AccessOrder.Pool

/-- The set-up of a pool that is about to be started. -/
structure Launch where
  strategy : Queue.Strategy
  backing : Sequence.Backing
  disposal : Disposal
  /-- The number of workers if the options leave it open. -/
  parallelism : WorkerCount
  options : Options

namespace Launch

/-- The number of workers of the pool. -/
def size (l : Launch) : Nat := (l.options.workers.getD l.parallelism).val

/-- A worker as it starts; the first one belongs to the owner of the pool. -/
def worker (l : Launch) (id : WorkerId) : Worker where
  control := if id = 0 then .away else .starting
  duty := if id = 0 then .lead 0 else .work
  thief := ⟨id, l.size, UInt64.ofNat id⟩
  seenRound := 0
  scratch := []

/-- The pool as it starts, with the handles that there are and the number of tasks begun. -/
def machine (l : Launch) (handles : Handles) (begun : Nat) : Machine where
  handles := handles
  begun := begun
  kept := []
  queues := Array.replicate l.size (.empty l.strategy l.backing)
  barrier := .new
  started := !l.options.startPaused
  shutdown := false
  readiness := l.options.readiness
  disposal := l.disposal
  workers := (Array.range l.size).map l.worker
  events :=
    [.started l.size l.options.startPaused l.options.readiness.word l.options.pinWorkers]
  crash := none

end Launch

namespace Machine

/-- The handles and the number of tasks begun, without a pool. -/
def vacant (handles : Handles) (begun : Nat) : Machine :=
  ⟨handles, begun, [], #[], .new, false, false, .eager, .discard, #[], [], none⟩

/-- Whether there is a pool. -/
def manned (m : Machine) : Bool := m.size ≠ 0

/-- Whether the owner is out of the pool, or nothing can go on. -/
def finished (m : Machine) : Bool :=
  m.crash.isSome ||
    match m.workers[0]? with
    | none => true
    | some w =>
      match w.control with
      | .away | .failed _ => true
      | _ => false

/-- Lets a worker take a step if it can. -/
def stepOrWait (m : Machine) (id : WorkerId) : Machine := (m.step id).getD m

/-- Lets every worker take a step in turn. -/
def sweep (m : Machine) : Machine := (List.range m.workers.size).foldl stepOrWait m

/-- Sweeps until the owner is out of the pool, at most as often as `fuel` tells. -/
def sweepIn : (fuel : Nat) → Machine → Machine
  | 0, m => m
  | fuel + 1, m => if m.finished then m else sweepIn fuel m.sweep

/-- Lets the owner take steps until it is out of the pool, at most as many as `fuel` tells. -/
def stepIn : (fuel : Nat) → Machine → Machine
  | 0, m => m
  | fuel + 1, m => if m.finished then m else stepIn fuel (m.stepOrWait 0)

/-- How many sweeps a barrier of so many workers may take when the tasks cost `effort`. -/
def sweepBound (workers effort : Nat) : Nat := (effort + 64) * (16 * workers + 16)

/-- The failure that the owner has come to, if any; the owner is out of the pool then. -/
def settle (m : Machine) : Option Failure × Machine :=
  match m.workers[0]?.map Worker.control with
  | some (.failed f) => (some f, m.setControl 0 .away)
  | _ => (none, m)

/-- Builds the task of a blueprint, undisturbed. -/
def build (m : Machine) (b : Blueprint Act) : Except Failure Task × Machine :=
  match m.begin b with
  | (.error f, m) => (.error f, m)
  | (.ok draft, m) =>
    let r := draft.finish m.handles
    (r.1, { m with handles := r.2 })

/-- Hands a task in and runs the call to its end. -/
def submit (m : Machine) (t : Task) : Option Failure × Machine :=
  ((m.setControl 0 (.submitting (.arrive t))).stepIn (t.effort + 64)).settle

/-- Starts the workers of a paused pool. -/
def start (m : Machine) : Machine := { m with started := true }

/-- The owner takes the lead of a barrier.  It works as a new worker with the scratch buffer that it
had, and gets its buffer back at the end. -/
def enterBarrier (m : Machine) : Machine :=
  let m := m.start
  { m with
    workers := m.workers.modify 0 fun w => { w with control := popping, duty := .lead 0 } }

/-- Waits until all work is done.  If the owner fails on the way its scratch buffer is lost. -/
def awaitAll (m : Machine) : Option Failure × Machine :=
  let m := m.enterBarrier
  match (m.sweepIn (sweepBound m.size m.effort)).settle with
  | (some f, m) => (some f, m.setScratch 0 [])
  | (none, m) => (none, m)

/-- Waits until all work is done, and stops the workers. -/
def shutDown (m : Machine) : Option Failure × Machine :=
  match m.awaitAll with
  | (some f, m) => (some f, { m with shutdown := true })
  | (none, m) =>
    if m.crash.isSome then (none, m) else (none, ({ m with shutdown := true }).tell .stopped)

end Machine

end AccessOrder.Pool
