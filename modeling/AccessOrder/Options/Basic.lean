/- # Options

How a pool of workers is set up: how many workers, whether they are tied to cores, whether they
start idle, and when the readiness of a task is checked.

* `withWorkers_zero` : a pool of no workers is refused.
-/
import AccessOrder.Text.Quoted
import AccessOrder.Text.Record
namespace AccessOrder

/-- When the readiness of a task is checked. -/
inductive Readiness where
  /-- When it is handed in: only ready tasks are ever queued. -/
  | eager
  /-- When it is about to run: tasks are queued as they come. -/
  | lazy
  deriving DecidableEq

namespace Readiness

/-- The word for a readiness discipline. -/
def word : Readiness → String
  | .eager => "eager"
  | .lazy => "lazy"

/-- The text of a readiness discipline. -/
def text : Readiness → String
  | .eager => "Eager"
  | .lazy => "Lazy"

end Readiness

/-- A number of workers, which is never zero. -/
structure WorkerCount where
  val : Nat
  pos : 0 < val := by decide
  deriving DecidableEq

/-- The set-up of a pool. -/
structure Options where
  /-- The number of workers; `none` stands for the parallelism of the machine. -/
  workers : Option WorkerCount
  pinWorkers : Bool
  startPaused : Bool
  readiness : Readiness
  deriving DecidableEq

namespace Options

/-- The variables from which options are read. -/
inductive Variable where
  | numWorkers
  | pinWorkers
  | startPaused
  | readiness
  deriving DecidableEq

/-- The name of a variable. -/
def Variable.name : Variable → String
  | .numWorkers => "VTG_NUM_WORKERS"
  | .pinWorkers => "VTG_PIN_WORKERS"
  | .startPaused => "VTG_START_PAUSED"
  | .readiness => "VTG_READINESS"

/-- The ways in which options are refused. -/
inductive Fault where
  /-- The value of a variable has none of the forms that it may have. -/
  | invalidValue (var : Variable) (value : String)
  /-- A pool of no workers is asked for. -/
  | zeroWorkers
  deriving DecidableEq

/-- The text of a fault. -/
def Fault.message : Fault → String
  | .invalidValue var value => "invalid value " ++ Text.quote value ++ " for " ++ var.name
  | .zeroWorkers => "worker count must be at least 1"

/-- The options when nothing is asked for. -/
def default : Options := ⟨none, false, false, .eager⟩

/-- The options with the given number of workers. -/
def withWorkers (o : Options) (n : Nat) : Except Fault Options :=
  if h : 0 < n then .ok { o with workers := some ⟨n, h⟩ } else .error .zeroWorkers

/-- The one-line text of options. -/
def text (o : Options) : String :=
  Text.record "RuntimeOptions"
    [("num_workers", Text.optional (o.workers.map fun n => toString n.val)),
      ("pin_workers", Text.flag o.pinWorkers),
      ("start_paused", Text.flag o.startPaused),
      ("readiness", o.readiness.text)]

/-- A pool of no workers is refused. -/
@[simp] theorem withWorkers_zero (o : Options) : o.withWorkers 0 = .error .zeroWorkers := rfl

/-- A pool of any other size is accepted. -/
theorem withWorkers_succ (o : Options) (n : Nat) :
    o.withWorkers (n + 1) = .ok { o with workers := some ⟨n + 1, Nat.succ_pos n⟩ } := rfl

end Options

/-- The ways in which a pool cannot be started. -/
inductive StartFault where
  /-- The parallelism of the machine is not known. -/
  | parallelism
  /-- A worker could not be started. -/
  | spawn (worker : Nat)
  deriving DecidableEq

/-- The text of a fault. -/
def StartFault.message : StartFault → String
  | .parallelism => "unable to determine available parallelism"
  | .spawn worker => "failed to spawn worker " ++ toString worker

end AccessOrder
