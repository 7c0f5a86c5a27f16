/- # Vetting

Before a task may run, its dependencies are looked at one after another, from the first that is not
known to be met.  A dependency whose handle has not reached its version makes the task wait there,
unless the handle reaches the version before the task has been put on its list.

* `rank_step` : every step brings the vetting closer to its end.
-/
import AccessOrder.Task.Handles
namespace AccessOrder

/-- How far the vetting of a task has come. -/
inductive Vetting where
  /-- About to look at the next dependency. -/
  | look (task : Task)
  /-- Has seen that the next dependency is not met, and is about to wait for it. -/
  | park (task : Task)

namespace Vetting

/-- What comes of a step of vetting. -/
inductive Next where
  | more (v : Vetting)
  /-- All dependencies have been seen to be met. -/
  | ready (task : Task)
  /-- The task waits for a handle. -/
  | parked

/-- One atomic step of vetting. -/
def step (hs : Handles) : Vetting → Except Failure Next × Handles
  | .look t =>
    match t.blocker? with
    | none => (.ok (.ready t), hs)
    | some d => (.ok (.more (if hs.meets d then .look t.mark else .park t)), hs)
  | .park t =>
    match t.blocker? with
    | none => (.ok (.ready t), hs)
    | some d =>
      match hs.run d.handle (·.register t d.version) with
      | (.error f, hs) => (.error f, hs)
      | (.ok .parked, hs) => (.ok .parked, hs)
      | (.ok (.handedBack t), hs) => (.ok (.more (.look t.mark)), hs)

/-- The most steps that a vetting has still to go. -/
def rank : Vetting → Nat
  | .look t => 2 * (t.dependencies.length - t.cursor) + 1
  | .park t => 2 * (t.dependencies.length - t.cursor)

/-- Runs a vetting for at most as many steps as `fuel` tells; a ready task is returned. -/
def finishIn : (fuel : Nat) → Handles → Vetting → Except Failure (Option Task) × Handles
  | 0, hs, _ => (.ok none, hs)
  | fuel + 1, hs, v =>
    match v.step hs with
    | (.error f, hs) => (.error f, hs)
    | (.ok (.more v), hs) => finishIn fuel hs v
    | (.ok (.ready t), hs) => (.ok (some t), hs)
    | (.ok .parked, hs) => (.ok none, hs)

/-- A waiting task is handed back as it was offered. -/
theorem eq_of_handedBack {τ : Type} {h : Handle τ} {task back : τ} {version : Version}
    (registered : (h.register task version).1 = .ok (.handedBack back)) : back = task := by
  revert registered
  unfold Handle.register
  split
  · simpa using Eq.symm
  · split
    · simp
    · simp only
      split <;> simp

/-- A step leaves the numbers of handles as they are. -/
@[simp] theorem references_step (hs : Handles) (v : Vetting) :
    (v.step hs).2.references = hs.references := by
  unfold step
  split
  · split <;> rfl
  · next t =>
    split
    · rfl
    · next d _ =>
      have kept := hs.references_run d.handle (·.register t d.version)
      split <;> next ran => rw [ran] at kept; exact kept

/-- Every step brings the vetting closer to its end. -/
theorem rank_step {hs : Handles} {v next : Vetting} (h : (v.step hs).1 = .ok (.more next)) :
    next.rank < v.rank := by
  have blocked : ∀ {t : Task} {d : Dependency}, t.blocker? = some d →
      t.cursor < t.dependencies.length := fun h => (List.getElem?_eq_some_iff.1 h).1
  cases v with
  | look t =>
    simp only [step] at h
    split at h
    · cases h
    · next d hd =>
      have := blocked hd
      simp only [Except.ok.injEq, Next.more.injEq] at h
      subst h
      split <;> simp only [rank, Task.dependencies_mark, Task.cursor_mark] <;> omega
  | park t =>
    simp only [step] at h
    split at h
    · cases h
    · next d hd =>
      have := blocked hd
      split at h
      · cases h
      · cases h
      · next registered =>
        simp only [Except.ok.injEq, Next.more.injEq] at h
        subst h
        have registered := congrArg Prod.fst registered
        simp only [Handles.run] at registered
        cases r : ((hs.get d.handle).register t d.version).1 with
        | error f =>
          rw [r] at registered
          cases registered
        | ok x =>
          rw [r] at registered
          cases registered
          rw [eq_of_handedBack r]
          simp only [rank, Task.dependencies_mark, Task.cursor_mark]
          omega

end Vetting

/-- Vets a task undisturbed: returns it if all its dependencies are met, and lets it wait for the
first that is not. -/
def Task.readyOrPark (hs : Handles) (t : Task) : Except Failure (Option Task) × Handles :=
  Vetting.finishIn ((Vetting.look t).rank + 1) hs (.look t)

end AccessOrder
