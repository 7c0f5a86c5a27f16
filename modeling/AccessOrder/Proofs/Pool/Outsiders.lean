/- # Tasks that are kept outside

A task that has been built need not be handed in at once.  Whoever has built it may keep it, vet it
by hand, let it wait for any version of any handle, and hand it in or give it up later, while the
workers of the pool take their steps.  Versions may be reserved by hand, too; nobody releases them.

* `Scene.Runs.vet` : a task that is vetted undisturbed is vetted in one of these orders.
-/
import AccessOrder.Proofs.Pool.Items
namespace AccessOrder.Pool

/-- A pool, and the tasks that are dealt with outside of it. -/
structure Scene where
  machine : Machine
  /-- Tasks that are being vetted by hand. -/
  vetted : List Vetting
  /-- Tasks that have been made to wait by hand, the last one first. -/
  parked : List Task

namespace Scene

/-- One turn, of the pool or of someone outside of it. -/
inductive Move where
  /-- A turn of the pool. -/
  | turn (mv : Pool.Move)
  /-- A task that is kept is going to be vetted. -/
  | vet (place : Nat)
  /-- The next step of a vetting. -/
  | look (place : Nat)
  /-- A task that is kept is to wait for a version. -/
  | register (place : Nat) (h : HandleId) (v : Version)
  /-- A task that is kept is given up. -/
  | discard (place : Nat)
  /-- A version is reserved for an access that belongs to no task. -/
  | schedule (a : Access.Located)

/-- Before anything has been built. -/
def opening (m : Machine) : Scene := ⟨m, [], []⟩

/-- The scene with changed handles. -/
def withHandles (s : Scene) (hs : Handles) : Scene :=
  { s with machine := { s.machine with handles := hs } }

/-- The scene with other tasks that are kept. -/
def withKept (s : Scene) (ts : List Task) : Scene :=
  { s with machine := { s.machine with kept := ts } }

/-- The scene after an access that belongs to no task has got a version; it takes a number as a task
does. -/
def reserved (s : Scene) (hs : Handles) : Scene :=
  { s with machine := { s.machine with handles := hs, begun := s.machine.begun + 1 } }

/-- Takes a step with what is at a place of a list. -/
def takeAt {α : Type} (s : Scene) (xs : List α) (place : Nat) (next : α → List α → Option Scene) :
    Option Scene :=
  match s.machine.crash, xs[place]? with
  | none, some x => next x (xs.eraseIdx place)
  | _, _ => none

/-- The scene after a turn; `none` if the turn cannot be taken now.  A task whose vetting or waiting
fails is lost. -/
def move (s : Scene) : Move → Option Scene
  | .turn mv => (s.machine.move mv).map fun m => { s with machine := m }
  | .vet place =>
    s.takeAt s.machine.kept place fun t rest =>
      some { s.withKept rest with vetted := .look t :: s.vetted }
  | .look place =>
    s.takeAt s.vetted place fun v rest =>
      match v.step s.machine.handles with
      | (.ok (.more v), hs) => some { s.withHandles hs with vetted := v :: rest }
      | (.ok (.ready t), hs) =>
        some { (s.withHandles hs).withKept (t :: s.machine.kept) with vetted := rest }
      | (.ok .parked, hs) =>
        some { s.withHandles hs with vetted := rest, parked := v.task :: s.parked }
      | (.error _, hs) => some { s.withHandles hs with vetted := rest }
  | .register place h v =>
    s.takeAt s.machine.kept place fun t rest =>
      match s.machine.handles.run h (·.register t v) with
      | (.ok .parked, hs) =>
        some { (s.withHandles hs).withKept rest with parked := t :: s.parked }
      | (.ok (.handedBack t), hs) => some ((s.withHandles hs).withKept (t :: rest))
      | (.error _, hs) => some ((s.withHandles hs).withKept rest)
  | .discard place => s.takeAt s.machine.kept place fun _ rest => some (s.withKept rest)
  | .schedule a =>
    if s.machine.crash.isNone then
      match s.machine.handles.run a.handle (·.schedule a.kind) with
      | (.ok _, hs) => some (s.reserved hs)
      | (.error _, hs) => some (s.withHandles hs)
    else none

/-- What happens in a turn. -/
def moments (s : Scene) : Move → List Moment
  | .turn mv => s.machine.moments mv
  | .schedule a =>
    match (s.machine.handles.run a.handle (·.schedule a.kind)).1 with
    | .ok v => [.scheduled s.machine.begun ⟨a, v⟩]
    | .error _ => []
  | _ => []

/-- The scenes that turns lead to, with all that has happened on the way, the last moment first. -/
inductive Runs (s : Scene) : List Moment → Scene → Prop where
  | refl : Runs s [] s
  | turn {past : List Moment} {a b : Scene} (mv : Move) :
      Runs s past a → a.move mv = some b → Runs s (a.moments mv ++ past) b

/-! ## What a turn can be -/

/-- The turns that can be taken, with what becomes of them. -/
inductive Moves (s : Scene) : Move → Scene → Prop where
  | turn {mv after} : s.machine.move mv = some after →
      Moves s (.turn mv) { s with machine := after }
  | vet {place t rest} : s.machine.kept.Perm (t :: rest) →
      Moves s (.vet place) { s.withKept rest with vetted := .look t :: s.vetted }
  | more {place v next rest hs} : s.vetted.Perm (v :: rest) →
      v.step s.machine.handles = (.ok (.more next), hs) →
      Moves s (.look place) { s.withHandles hs with vetted := next :: rest }
  | ready {place v t rest hs} : s.vetted.Perm (v :: rest) →
      v.step s.machine.handles = (.ok (.ready t), hs) →
      Moves s (.look place)
        { (s.withHandles hs).withKept (t :: s.machine.kept) with vetted := rest }
  | parks {place v rest hs} : s.vetted.Perm (v :: rest) →
      v.step s.machine.handles = (.ok .parked, hs) →
      Moves s (.look place) { s.withHandles hs with vetted := rest, parked := v.task :: s.parked }
  | fails {place v rest hs f} : s.vetted.Perm (v :: rest) →
      v.step s.machine.handles = (.error f, hs) →
      Moves s (.look place) { s.withHandles hs with vetted := rest }
  | waits {place h v t rest hs} : s.machine.kept.Perm (t :: rest) →
      s.machine.handles.run h (·.register t v) = (.ok .parked, hs) →
      Moves s (.register place h v)
        { (s.withHandles hs).withKept rest with parked := t :: s.parked }
  | handedBack {place h v t back rest hs} : s.machine.kept.Perm (t :: rest) →
      s.machine.handles.run h (·.register t v) = (.ok (.handedBack back), hs) →
      Moves s (.register place h v) ((s.withHandles hs).withKept (back :: rest))
  | refused {place h v t rest hs f} : s.machine.kept.Perm (t :: rest) →
      s.machine.handles.run h (·.register t v) = (.error f, hs) →
      Moves s (.register place h v) ((s.withHandles hs).withKept rest)
  | discard {place t rest} : s.machine.kept.Perm (t :: rest) →
      Moves s (.discard place) (s.withKept rest)
  | schedule {a v hs} : s.machine.handles.run a.handle (·.schedule a.kind) = (.ok v, hs) →
      Moves s (.schedule a) (s.reserved hs)
  | unscheduled {a f hs} : s.machine.handles.run a.handle (·.schedule a.kind) = (.error f, hs) →
      Moves s (.schedule a) (s.withHandles hs)

variable {s a b : Scene} {past : List Moment}

/-- A step is taken with something that is in the list. -/
theorem takeAt_cases {α : Type} {xs : List α} {place : Nat} {next : α → List α → Option Scene}
    (taken : s.takeAt xs place next = some a) :
    ∃ x rest, xs.Perm (x :: rest) ∧ next x rest = some a := by
  unfold takeAt at taken
  split at taken
  · next x _ found =>
    obtain ⟨inside, rfl⟩ := List.getElem?_eq_some_iff.1 found
    exact ⟨_, _, (List.getElem_cons_eraseIdx_perm inside).symm, taken⟩
  · cases taken

/-- A turn is taken only when it can be. -/
theorem move_cases {mv : Move} (moved : s.move mv = some a) : s.Moves mv a := by
  unfold move at moved
  split at moved
  · obtain ⟨after, turned, rfl⟩ := Option.map_eq_some_iff.1 moved
    exact .turn turned
  · obtain ⟨t, rest, here, next⟩ := takeAt_cases moved
    cases next
    exact .vet here
  · obtain ⟨v, rest, here, next⟩ := takeAt_cases moved
    split at next <;> cases next
    · next stepped => exact .more here stepped
    · next stepped => exact .ready here stepped
    · next stepped => exact .parks here stepped
    · next stepped => exact .fails here stepped
  · obtain ⟨t, rest, here, next⟩ := takeAt_cases moved
    split at next <;> cases next
    · next ran => exact .waits here ran
    · next ran => exact .handedBack here ran
    · next ran => exact .refused here ran
  · obtain ⟨t, rest, here, next⟩ := takeAt_cases moved
    cases next
    exact .discard here
  · split at moved
    · split at moved <;> cases moved
      · next ran => exact .schedule ran
      · next ran => exact .unscheduled ran
    · cases moved

/-- A task that has been made to wait by hand is not forgotten. -/
theorem Moves.parked_subset {mv : Move} (moves : s.Moves mv a) : s.parked ⊆ a.parked := by
  cases moves with
  | parks _ _ | waits _ _ => exact List.subset_cons_self ..
  | _ => exact List.Subset.refl _

/-! ## Runs -/

/-- While the pool takes its turns nothing need be done outside of it. -/
theorem runs_of_machine {after : Machine} (run : s.machine.Runs past after) :
    s.Runs past { s with machine := after } := by
  induction run with
  | refl => exact .refl
  | turn mv _ moved ih => exact ih.turn (.turn mv) (by rw [move, moved]; rfl)

/-- Vetting a task undisturbed is one of the orders; the task is kept, or waits. -/
theorem Runs.vet {fuel : Nat} {v : Vetting} {result : Option Task} {handles : Handles}
    {parked : List Task} {vetted : List Vetting} {m : Machine} (up : m.crash = none)
    (run : Runs s past ⟨m, v :: vetted, parked⟩) (enough : v.rank < fuel)
    (finished : v.finishIn fuel m.handles = (.ok result, handles)) :
    ∃ t, Runs s past ⟨{ m with handles := handles, kept := result.toList ++ m.kept }, vetted,
      if result.isSome then parked else t :: parked⟩ := by
  induction fuel generalizing m v with
  | zero => exact absurd enough (Nat.not_lt_zero _)
  | succ fuel ih =>
      have step : ∀ {b : Scene}, (match v.step m.handles with
          | (.ok (.more v), hs) => some (⟨{ m with handles := hs }, v :: vetted, parked⟩ : Scene)
          | (.ok (.ready t), hs) =>
              some ⟨{ m with handles := hs, kept := t :: m.kept }, vetted, parked⟩
          | (.ok .parked, hs) => some ⟨{ m with handles := hs }, vetted, v.task :: parked⟩
          | (.error _, hs) => some ⟨{ m with handles := hs }, vetted, parked⟩) = some b →
            Runs s past b := by
        intro b moved
        refine run.turn (.look 0) ?_
        simpa [move, takeAt, withHandles, withKept, up] using moved
      unfold Vetting.finishIn at finished
      cases stepped : v.step m.handles with
      | mk next hs =>
          rw [stepped] at finished step
          cases next with
          | error f => cases finished
          | ok next =>
              cases next with
              | more w =>
                  have less : w.rank < v.rank := Vetting.rank_step (congrArg Prod.fst stepped)
                  exact ih (m := { m with handles := hs }) up (step rfl) (by omega) finished
              | ready t =>
                  cases finished
                  exact ⟨t, step rfl⟩
              | parked =>
                  cases finished
                  exact ⟨v.task, step rfl⟩

/-- Runs may follow each other. -/
theorem Runs.trans {later : List Moment} (run : Runs s past a) (goes : Runs a later b) :
    Runs s (later ++ past) b := by
  induction goes with
  | refl => exact run
  | turn mv _ moved ih =>
      rw [List.append_assoc]
      exact ih.turn mv moved

/-- No task that has been made to wait by hand is forgotten in the course of a run. -/
theorem Runs.parked_subset (run : Runs s past a) : s.parked ⊆ a.parked := by
  induction run with
  | refl => exact List.Subset.refl _
  | turn mv _ moved ih => exact List.Subset.trans ih (move_cases moved).parked_subset

/-- Carries turns out one after the other, as far as they can be taken. -/
def follow (s : Scene) (past : List Moment) : List Move → Option (List Moment × Scene)
  | [] => some (past, s)
  | mv :: mvs =>
    match s.move mv with
    | none => none
    | some after => after.follow (s.moments mv ++ past) mvs

/-- Turns that are carried out one after the other are a run. -/
theorem runs_follow {mvs : List Move} {after : List Moment × Scene} (run : Runs a past s)
    (followed : s.follow past mvs = some after) : Runs a after.1 after.2 := by
  induction mvs generalizing s past with
  | nil =>
      cases followed
      exact run
  | cons mv mvs ih =>
      rw [follow] at followed
      split at followed
      · cases followed
      · next moved => exact ih (run.turn mv moved) followed

/-- What is seen of turns that are carried out is seen of a run. -/
theorem exists_runs (s : Scene) (mvs : List Move) (seen : List Moment → Scene → Bool)
    (found : (s.follow [] mvs).any (fun r => seen r.1 r.2) = true) :
    ∃ past a, Runs s past a ∧ seen past a = true := by
  obtain ⟨r, followed, holds⟩ := (Option.any_eq_true ..).1 found
  exact ⟨r.1, r.2, runs_follow .refl followed, holds⟩

/-- Steps of the owner, one after the other. -/
def owner (n : Nat) : List Move := (steps 0 n).map .turn

end Scene

end AccessOrder.Pool
