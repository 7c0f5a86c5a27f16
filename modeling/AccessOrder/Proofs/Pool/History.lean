/- # The history of a pool

What has happened to the tasks of a pool: every version that was reserved, every task that was
accepted, and the start, the return, the releases and the end of every task that was run.  A
`Moment` is read off the step that a worker or a caller is about to take, and `Runs` collects the
moments of all turns, the last one first.

* `Runs.cut` : up to every moment of a run there is a run that ends with it;
* `runs_follow` : turns that are carried out one after the other are a run.
-/
import AccessOrder.Pool.Interleaving
namespace AccessOrder.Pool

/-- Something that happens to the task of a number. -/
inductive Moment where
  /-- An access has got its version. -/
  | scheduled (serial : Nat) (dependency : Dependency)
  /-- The task has been accepted by the pool. -/
  | accepted (serial : Nat)
  /-- The work begins. -/
  | started (serial : Nat)
  /-- The work is done. -/
  | returned (serial : Nat)
  /-- The version of an access has been released. -/
  | released (serial : Nat) (dependency : Dependency)
  /-- The task has been given up. -/
  | disposed (serial : Nat)
  deriving DecidableEq

/-- The number of the task to which something happens. -/
def Moment.serial : Moment → Nat
  | .scheduled s _ | .accepted s | .started s | .returned s | .released s _ | .disposed s => s

/-- What happens in the next step of handing a task in. -/
def Submission.moments (m : Machine) : Submission → List Moment
  | .build draft =>
    match draft.pending with
    | [] => []
    | a :: _ =>
      match (m.handles.run a.handle (·.schedule a.kind)).1 with
      | .ok version => [.scheduled draft.serial ⟨a, version⟩]
      | .error _ => []
  | .arrive t => if (t.pin.filter (m.size ≤ ·)).isNone then [.accepted t.serial] else []
  | .vet .. | .enqueue .. => []

/-- What happens in the next step of running a task. -/
def Execution.moments (m : Machine) : Execution → List Moment
  | .lock f _ [] => [.started f.task.serial]
  | .act f [] _ => [.returned f.task.serial]
  | .hand _ _ _ _ s => s.moments m
  | .release f (d :: _) =>
    match (m.handles.run d.handle (·.advance d.version)).1 with
    | .ok _ => [.released f.task.serial d]
    | .error _ => []
  | .dispose f => [.disposed f.task.serial]
  | _ => []

/-- What happens in the next step of a worker or a caller. -/
def Control.moments (m : Machine) : Control → List Moment
  | .submitting s => s.moments m
  | .executing e => e.moments m
  | _ => []

namespace Machine

/-- What happens in a turn. -/
def moments (m : Machine) : Move → List Moment
  | .step id => (m.controlOf id).moments m
  | _ => []

/-- The machines that turns lead to, with all that has happened on the way, the last moment
first. -/
inductive Runs (m : Machine) : List Moment → Machine → Prop where
  | refl : Runs m [] m
  | turn {past : List Moment} {a b : Machine} (mv : Move) :
      Runs m past a → a.move mv = some b → Runs m (a.moments mv ++ past) b

variable {m a b : Machine} {past : List Moment}

/-- A run is an order of turns. -/
theorem Runs.reaches (run : Runs m past a) : Reaches m a := by
  induction run with
  | refl => exact .refl
  | turn mv _ moved ih => exact ih.turn mv moved

/-- Every order of turns is a run. -/
theorem Reaches.exists_runs (reached : Reaches m a) : ∃ past, Runs m past a := by
  induction reached with
  | refl => exact ⟨[], .refl⟩
  | turn mv _ moved ih =>
      obtain ⟨past, run⟩ := ih
      exact ⟨_, run.turn mv moved⟩

/-- A run may go on where another one has ended. -/
theorem Runs.trans {later : List Moment} (run : Runs m past a) (goes : Runs a later b) :
    Runs m (later ++ past) b := by
  induction goes with
  | refl => exact run
  | turn mv _ moved ih =>
      rw [List.append_assoc]
      exact ih.turn mv moved

/-! ## One moment at a time -/

/-- At most one thing happens in a step of handing a task in. -/
theorem length_submission_moments (m : Machine) (s : Submission) : (s.moments m).length ≤ 1 := by
  unfold Submission.moments
  split
  · split
    · exact Nat.zero_le 1
    · split <;> simp
  · split <;> simp
  · exact Nat.zero_le 1
  · exact Nat.zero_le 1

/-- At most one thing happens in a step of running a task. -/
theorem length_execution_moments (m : Machine) (e : Execution) : (e.moments m).length ≤ 1 := by
  unfold Execution.moments
  split
  · exact Nat.le_refl 1
  · exact Nat.le_refl 1
  · exact length_submission_moments m _
  · split <;> simp
  · exact Nat.le_refl 1
  · exact Nat.zero_le 1

/-- At most one thing happens in a turn. -/
theorem length_moments (m : Machine) (mv : Move) : (m.moments mv).length ≤ 1 := by
  unfold moments
  split
  · unfold Control.moments
    split
    · exact length_submission_moments m _
    · exact length_execution_moments m _
    · exact Nat.zero_le 1
  · exact Nat.zero_le 1

/-- Up to every moment of a run there is a run that ends with it. -/
theorem Runs.cut {later earlier : List Moment} {moment : Moment}
    (run : Runs m (later ++ moment :: earlier) a) :
    ∃ before after mv, Runs m earlier before ∧ before.move mv = some after ∧
      before.moments mv = [moment] := by
  generalize whole : later ++ moment :: earlier = past at run
  induction run generalizing later with
  | refl => simp at whole
  | turn mv run moved ih =>
      rename_i past before after
      have short := length_moments before mv
      cases now : before.moments mv with
      | nil =>
          rw [now, List.nil_append] at whole
          exact ih whole
      | cons first rest =>
          rw [now, List.length_cons] at short
          obtain rfl : rest = [] := List.eq_nil_of_length_eq_zero (by omega)
          rw [now] at whole
          cases later with
          | nil =>
              obtain ⟨rfl, rfl⟩ := List.cons.inj whole
              exact ⟨before, after, mv, run, moved, now⟩
          | cons other later => exact ih (List.cons.inj whole).2

/-! ## Runs that are carried out -/

/-- Carries turns out one after the other, as far as they can be taken. -/
def follow (m : Machine) (past : List Moment) : List Move → Option (List Moment × Machine)
  | [] => some (past, m)
  | mv :: mvs =>
    match m.move mv with
    | none => none
    | some after => after.follow (m.moments mv ++ past) mvs

/-- Turns that are carried out one after the other are a run. -/
theorem runs_follow {start : Machine} {mvs : List Move} {after : List Moment × Machine}
    (run : Runs start past m) (followed : m.follow past mvs = some after) :
    Runs start after.1 after.2 := by
  induction mvs generalizing m past with
  | nil =>
      cases followed
      exact run
  | cons mv mvs ih =>
      rw [follow] at followed
      split at followed
      · cases followed
      · next moved => exact ih (run.turn mv moved) followed

/-- What is seen of turns that are carried out is seen of a run. -/
theorem exists_runs (start : Machine) (mvs : List Move) (seen : List Moment → Machine → Bool)
    (found : (start.follow [] mvs).any (fun r => seen r.1 r.2) = true) :
    ∃ past m, Runs start past m ∧ seen past m = true := by
  obtain ⟨r, followed, holds⟩ := (Option.any_eq_true ..).1 found
  exact ⟨r.1, r.2, runs_follow .refl followed, holds⟩

end Machine

/-! ## A small pool -/

/-- The ordered write among the usual kinds. -/
def writeKind : Access.Kind := ⟨1, "Write", .write, some 1⟩

/-- A task that writes the first handle. -/
def writeTask : Blueprint Act := ⟨"write", [⟨0, writeKind⟩], .normal, none, none, []⟩

/-- The access of such a task once it has got its version. -/
def writeAccess (v : Version) : Dependency := ⟨⟨⟨0, writeKind⟩, 0⟩, v⟩

/-- So many steps of a worker. -/
def steps (id : WorkerId) (n : Nat) : List Move := List.replicate n (.step id)

/-- A pool with the given number of workers and one handle. -/
def smallPool (workers : WorkerCount) : Machine :=
  Launch.opening ⟨.plain, .flat, .discard, workers, .default⟩ .usual 1 0 #[0]

/-- Two tasks that write the same handle are handed in one after the other, and the only worker does
both at the barrier. -/
def twoWrites : List Move :=
  .spawn 0 writeTask :: (steps 0 9 ++ .spawn 0 writeTask :: (steps 0 5 ++ .lead :: steps 0 31))

end AccessOrder.Pool
