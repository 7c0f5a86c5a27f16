/- # Interleavings

All orders in which the workers of a pool, its owner and callers from outside may take their turns.
A caller builds tasks and hands them in, like the owner; its number comes after those of the
workers.  What has been built may also be kept, and handed in later by anyone.  The owner has the
pool to itself while it waits at the barrier and after it has stopped the workers: a caller may go
on with building then, but not hand in what it has built.

* `Reaches.invariant` : what every turn keeps holds of all machines reached;
* `Reaches.shape_eq` : the shape of a pool never changes;
* `reaches_stepIn` : the steps of the owner alone are one such order;
* `reaches_sweepIn` : the sweeps in which a barrier is run are one such order.
-/
import AccessOrder.Pool.Shape
namespace AccessOrder.Pool

/-- One turn. -/
inductive Move where
  /-- A worker or a caller takes its next step. -/
  | step (id : WorkerId)
  /-- The exchange of a worker fails although the word is the one expected. -/
  | miss (id : WorkerId)
  /-- The owner or a caller begins to build a task, which it is going to hand in. -/
  | spawn (id : WorkerId) (blueprint : Blueprint Act)
  /-- The owner or a caller keeps the task that it has built. -/
  | keep (id : WorkerId)
  /-- The owner or a caller begins to hand in the task of this number, which is kept. -/
  | submit (id : WorkerId) (serial : Nat)
  /-- The owner or a caller whose call has failed may make another one. -/
  | recover (id : WorkerId)
  /-- The owner starts the workers. -/
  | start
  /-- The owner takes the lead of a barrier. -/
  | lead
  /-- The owner stops the workers. -/
  | stop

/-- A caller that is not in the middle of anything. -/
def caller : Worker := ⟨.away, .work, ⟨0, 1, 0⟩, 0, []⟩

/-- Whether a task is being handed in that has got past its building. -/
def Control.calling : Control → Bool
  | .submitting (.vet ..) | .submitting (.enqueue ..) => true
  | _ => false

/-- Whether a task that has been built is about to be handed in. -/
def Control.arriving : Control → Bool
  | .submitting (.arrive _) => true
  | _ => false

/-- Whether nothing is under way. -/
def Control.isAway : Control → Bool
  | .away => true
  | _ => false

/-- Whether a call has failed. -/
def Control.isFailed : Control → Bool
  | .failed _ => true
  | _ => false

namespace Machine

/-- The machine with so many callers. -/
def withCallers (m : Machine) (callers : Nat) : Machine :=
  { m with workers := m.workers ++ Array.replicate callers caller }

/-- What a worker or a caller is in the middle of. -/
def controlOf (m : Machine) (id : WorkerId) : Control :=
  match m.workers[id]? with
  | some w => w.control
  | none => .away

/-- Whether a number is that of a caller: neither of the owner nor of a worker. -/
def isCaller (m : Machine) (id : WorkerId) : Bool := id ≠ 0 && m.size ≤ id

/-- Whether the owner is neither waiting at the barrier nor done with the pool. -/
def shared (m : Machine) : Bool :=
  !m.shutdown &&
    match m.controlOf 0 with
    | .away | .submitting _ => true
    | _ => false

/-- Whether the next step may be taken: a caller begins to hand in what it has built only while it
shares the pool with the owner. -/
def admitted (m : Machine) (id : WorkerId) : Bool :=
  !m.isCaller id || m.shared || !(m.controlOf id).arriving

/-- Whether calls are made from outside under a number: it is that of the owner or of a caller. -/
def outer (m : Machine) (id : WorkerId) : Bool := id = 0 || m.isCaller id

/-- Whether the owner or a caller may begin to build a task. -/
def free (m : Machine) (id : WorkerId) : Bool :=
  m.outer id && id < m.workers.size && (m.controlOf id).isAway

/-- Whether the owner may have the pool to itself: no one is handing a task in. -/
def exclusive (m : Machine) : Bool :=
  !m.shutdown && m.free 0 && m.workers.all fun w => !w.control.calling

/-- The machine after a turn; `none` if the turn cannot be taken now. -/
def move (m : Machine) : Move → Option Machine
  | .step id => if m.admitted id then m.step id else none
  | .miss id =>
    match m.crash, m.controlOf id with
    | none, .serving (.swap round _ _) =>
      proceed id .serving (fun m _ => m.setControl id popping) (m, m.joining round m.barrier.word)
    | _, _ => none
  | .spawn id b =>
    if m.crash.isNone && m.free id then
      match m.begin b with
      | (.ok draft, m) => some (m.setControl id (.submitting (.build draft)))
      | (.error _, _) => none
    else none
  | .keep id =>
    match m.crash, m.controlOf id with
    | none, .submitting (.arrive t) => some ({ m with kept := t :: m.kept }.setControl id .away)
    | _, _ => none
  | .submit id serial =>
    if m.crash.isNone && m.free id then
      (m.pick serial).map fun (t, m) => m.setControl id (.submitting (.arrive t))
    else none
  | .recover id =>
    if m.crash.isNone && m.outer id && (m.controlOf id).isFailed then some (m.setControl id .away)
    else none
  | .start => if m.crash.isNone && m.shared then some m.start else none
  | .lead => if m.crash.isNone && m.exclusive then some m.enterBarrier else none
  | .stop =>
    if m.crash.isNone && m.exclusive then some { m.start with shutdown := true } else none

/-- The machines that turns lead to. -/
inductive Reaches (m : Machine) : Machine → Prop where
  | refl : Reaches m m
  | turn {a b : Machine} (mv : Move) : Reaches m a → a.move mv = some b → Reaches m b

/-- Turns may be taken one after the other. -/
theorem Reaches.trans {a b c : Machine} (hab : Reaches a b) (hbc : Reaches b c) : Reaches a c := by
  induction hbc with
  | refl => exact hab
  | turn mv _ moved ih => exact ih.turn mv moved

/-- What every turn keeps holds of all machines that turns lead to. -/
theorem Reaches.invariant {kept : Machine → Prop} {a b : Machine} (reached : Reaches a b)
    (turns : ∀ {m after : Machine} {mv : Move}, kept m → m.move mv = some after → kept after)
    (start : kept a) : kept b := by
  induction reached with
  | refl => exact start
  | turn mv _ moved ih => exact turns ih moved

/-- A turn keeps the shape. -/
theorem shape_move {m after : Machine} {mv : Move} (moved : m.move mv = some after) :
    after.shape = m.shape := by
  unfold move at moved
  split at moved
  · split at moved
    · exact shape_step moved
    · cases moved
  · split at moved
    · exact shape_proceed (fun _ _ => shape_setControl ..) rfl moved
    · cases moved
  · split at moved
    · next id b _ =>
      have begun := shape_begin m b
      split at moved
      · next drafted =>
        cases moved
        rw [drafted] at begun
        exact (shape_setControl ..).trans begun
      · cases moved
    · cases moved
  · split at moved
    · cases moved
      exact shape_setControl ..
    · cases moved
  · split at moved
    · obtain ⟨⟨t, next⟩, picked, same⟩ := Option.map_eq_some_iff.1 moved
      cases same
      exact (shape_setControl ..).trans (shape_pick picked)
    · cases moved
  · split at moved
    · cases moved
      exact shape_setControl ..
    · cases moved
  all_goals
    split at moved
    · cases moved
      simp [shape, start, enterBarrier]
    · cases moved

/-- The shape of a pool never changes. -/
theorem Reaches.shape_eq {a b : Machine} (reached : Reaches a b) : b.shape = a.shape :=
  reached.invariant (fun kept moved => (shape_move moved).trans kept) rfl

/-- No turn is taken once the process has been taken down. -/
theorem move_eq_none_of_crash {m : Machine} (h : m.crash.isSome = true) (mv : Move) :
    m.move mv = none := by
  obtain ⟨c, hc⟩ := Option.isSome_iff_exists.1 h
  cases mv with
  | step id => simp [move, step_eq_none_of_crash h]
  | _ => simp [move, hc]

/-! ## The orders that are run -/

/-- The owner and the workers may take their next step at any time. -/
theorem move_step {m : Machine} {id : WorkerId} (inside : m.isCaller id = false) :
    m.move (.step id) = m.step id := by
  simp [move, admitted, inside]

/-- A step that is taken if it can be is a turn or nothing. -/
theorem reaches_stepOrWait {m : Machine} {id : WorkerId} (inside : m.isCaller id = false) :
    Reaches m (m.stepOrWait id) := by
  unfold stepOrWait
  cases stepped : m.step id with
  | none => exact .refl
  | some after => exact Reaches.refl.turn (.step id) ((move_step inside).trans stepped)

/-- The owner is not a caller. -/
@[simp] theorem isCaller_owner (m : Machine) : m.isCaller 0 = false := by simp [isCaller]

/-- The steps of the owner alone are one of the orders. -/
theorem reaches_stepIn (fuel : Nat) (m : Machine) : Reaches m (m.stepIn fuel) := by
  induction fuel generalizing m with
  | zero => exact .refl
  | succ fuel ih =>
    rw [stepIn]
    split
    · exact .refl
    · exact (reaches_stepOrWait (isCaller_owner m)).trans (ih _)

/-- A sweep over workers of the pool is one of the orders, and keeps the shape. -/
theorem reaches_foldl (m : Machine) (ids : List WorkerId) (inside : ∀ id ∈ ids, id < m.size) :
    Reaches m (ids.foldl stepOrWait m) ∧ (ids.foldl stepOrWait m).shape = m.shape := by
  induction ids generalizing m with
  | nil => exact ⟨.refl, rfl⟩
  | cons id ids ih =>
    have size : (m.stepOrWait id).size = m.size := congrArg Prod.fst (shape_stepOrWait m id)
    have worker : m.isCaller id = false := by
      simpa [isCaller] using fun _ => inside id List.mem_cons_self
    have rest := ih (m.stepOrWait id) fun other h =>
      size.symm ▸ inside other (List.mem_cons_of_mem id h)
    exact ⟨(reaches_stepOrWait worker).trans rest.1, rest.2.trans (shape_stepOrWait m id)⟩

/-- The sweeps in which a barrier is run are one of the orders, if there are no callers. -/
theorem reaches_sweepIn (fuel : Nat) {m : Machine} (alone : m.workers.size = m.size) :
    Reaches m (m.sweepIn fuel) := by
  induction fuel generalizing m with
  | zero => exact .refl
  | succ fuel ih =>
    rw [sweepIn]
    split
    · exact .refl
    · obtain ⟨swept, shape⟩ := m.reaches_foldl (List.range m.workers.size) fun id h =>
        alone ▸ List.mem_range.1 h
      simp only [Machine.shape, Prod.mk.injEq] at shape
      exact swept.trans (ih (shape.2.1.trans (alone.trans shape.1.symm)))

end Machine

/-- The pool as it starts with so many handles and callers, when nothing has been built; a handle
may have any numbers. -/
def Launch.opening (l : Launch) (vocabulary : Access.Vocabulary) (handles callers : Nat)
    (references : Array HandleId) : Machine :=
  let units := (Handles.fresh handles vocabulary.listed.length).units
  (l.machine ⟨units, references⟩ 0).withCallers callers

end AccessOrder.Pool
