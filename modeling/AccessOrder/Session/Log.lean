/- # Logs

What is told about the events of a session.  The events of a single worker are told one by one;
those of several workers, whose order depends on timing, are told as a `Summary` that does not:
runs and disposals sorted by name, and for every number under which a handle was declared the
versions in the order in which they were worked on.
-/
import AccessOrder.Session.Basic
namespace AccessOrder.Session

/-- How serious a trace event is. -/
inductive Level where
  | error
  | debug
  | trace

/-- The word for a level. -/
def Level.word : Level → String
  | .error => "ERROR"
  | .debug => "DEBUG"
  | .trace => "TRACE"

/-- The value of a field of a trace event. -/
inductive FieldValue where
  | number (n : Nat)
  | flag (b : Bool)
  | text (s : String)

/-- A trace event: its level, its message and its fields. -/
structure Trace where
  level : Level
  message : String
  fields : List (String × FieldValue)

/-- An entry of a log. -/
inductive Entry where
  | run (name : String) (worker : WorkerId) (results : List Pool.Outcome)
  | dispose (label : Option String) (executed : Bool)
  | trace (t : Trace)

/-- The field that names a task, if it has a label. -/
def labelField (label : Option String) : List (String × FieldValue) :=
  label.toList.map fun l => ("task", .text l)

/-- The entry for an event that shows in a log. -/
def entryOf? : Pool.Event → Option Entry
  | .ran worker name _ results => some (.run name worker results)
  | .disposed task .report => some (.dispose task.label task.executed)
  | .disposed _ .discard => none
  | .started workers paused readiness pinned =>
    some (.trace ⟨.debug, "runtime started",
      [("workers", .number workers), ("paused", .flag paused), ("readiness", .text readiness),
        ("pinned", .flag pinned)]⟩)
  | .parked worker label =>
    some (.trace ⟨.trace, "task parked at submission",
      ("worker", .number worker) :: labelField label⟩)
  | .barrierCompleted rounds =>
    some (.trace ⟨.debug, "barrier completed", [("rounds", .number rounds.toNat)]⟩)
  | .stopped => some (.trace ⟨.debug, "runtime stopped", []⟩)

/-- Whether an entry is a trace event. -/
def Entry.isTrace : Entry → Bool
  | .trace _ => true
  | _ => false

/-- The log of some events, with the trace events or without them. -/
def logOf (traced : Bool) (events : List Pool.Event) : List Entry :=
  (events.filterMap entryOf?).filter fun e => traced || !e.isTrace

/-- The event that tells of the end of the process. -/
def crashTrace (c : Pool.Crash) : Trace :=
  ⟨.error, "task panicked, aborting", ("worker", .number c.worker) :: labelField c.label⟩

/-! ## Summaries -/

/-- What was run: its name, the worker if it was bound to one, and the results of its acts. -/
structure RunLine where
  name : String
  worker : Option WorkerId
  results : List Pool.Outcome

/-- What happened, whatever the timing. -/
structure Summary where
  runs : List RunLine
  disposed : List String
  /-- For every number under which a handle was declared, the versions in the order in which they
  were worked on, each with the names of the runs. -/
  order : List (HandleNumber × List (Version × List String))

/-- The line for an event that tells of a run. -/
def runLine? : Pool.Event → Option RunLine
  | .ran worker name task results => some ⟨name, task.pin.map fun _ => worker, results⟩
  | _ => none

/-- The line for an event that tells of a disposal and shows in a log. -/
def disposedLine? : Pool.Event → Option String
  | .disposed task .report => some (task.label.getD "-" ++ ":" ++ Text.flag task.executed)
  | _ => none

/-- The declared number and the version of each access of a run, with its name. -/
def accessesOf : Pool.Event → List (HandleNumber × Version × String)
  | .ran _ name task _ => task.dependencies.map fun d => (d.number, d.version, name)
  | _ => []

/-- Groups neighbouring runs of equal version. -/
def groupRuns : List (Version × String) → List (Version × List String)
  | [] => []
  | (v, name) :: rest =>
    match groupRuns rest with
    | [] => [(v, [name])]
    | (w, names) :: groups =>
      if v = w then (v, name :: names) :: groups else (v, [name]) :: (w, names) :: groups

/-- Sorted texts. -/
def sorted (names : List String) : List String := names.mergeSort fun a b => decide (a ≤ b)

/-- The summary of some events. -/
def summaryOf (events : List Pool.Event) : Summary :=
  let accesses := events.flatMap accessesOf
  let numbers := (accesses.map Prod.fst).eraseDups
  { runs := (events.filterMap runLine?).mergeSort fun a b => decide (a.name ≤ b.name)
    disposed := sorted (events.filterMap disposedLine?)
    order := numbers.map fun number =>
      let runs := accesses.filterMap fun a => if a.1 = number then some a.2 else none
      (number, (groupRuns runs).map fun g => (g.1, sorted g.2)) }

/-- Whether nothing happened. -/
def Summary.isEmpty (s : Summary) : Bool := s.runs.isEmpty && s.disposed.isEmpty

/-- The number of a handle in three digits. -/
def threeDigits (n : Nat) : String :=
  let digits := toString n
  String.ofList (List.replicate (3 - digits.length) '0') ++ digits

end AccessOrder.Session
