/- # Queues shared by workers

A queue is its lanes behind a lock, and a published length that anyone may read without the lock.
An operation is a short protocol of atomic steps: a taker reads the published length first and
gives up on an empty queue; then comes the lock, for which a thief does not wait; then the lanes
change, the new length is published, and the lock is given back.  `Progress.step` is one such
step; the operations `push`, `pop` and `steal` run the protocol undisturbed.

* `Shared.push_eq`, `Shared.pop_eq`, `Shared.steal_eq` : what an undisturbed operation does;
* `Shared.steal_eq_of_held` : a thief leaves a queue alone whose lock is held.
-/
import AccessOrder.Queue.Lanes
import AccessOrder.Text.Record
namespace AccessOrder.Queue

/-- A queue that several workers use. -/
structure Shared (τ : Type) where
  lanes : Lanes τ
  /-- The length last published. -/
  published : Nat
  /-- Whether someone holds the lock. -/
  held : Bool

/-- The operations on a queue. -/
inductive Request (τ : Type) where
  | push (item : τ)
  | pop
  | steal

/-- How far an operation has come. -/
inductive Progress (τ : Type) where
  /-- About to read the published length. -/
  | measure (r : Request τ)
  /-- About to take the lock. -/
  | acquire (r : Request τ)
  /-- Holds the lock and is about to change the lanes. -/
  | change (r : Request τ)
  /-- Has changed the lanes and is about to publish their size. -/
  | publish (result : Option τ)
  /-- Is about to give the lock back. -/
  | release (result : Option τ)
  /-- Has ended with a result. -/
  | done (result : Option τ)

/-- The first step of an operation: adding an item starts at the lock. -/
def Request.start {τ : Type} : Request τ → Progress τ
  | .push t => .acquire (.push t)
  | .pop => .measure .pop
  | .steal => .measure .steal

/-- What the holder of the lock does to the lanes. -/
def Request.apply {τ : Type} [Queueable τ] (l : Lanes τ) :
    Request τ → Except Sequence.Fault (Option τ × Lanes τ)
  | .push t => (l.push t).map fun l => (none, l)
  | .pop => l.pop
  | .steal => l.steal

/-- One atomic step of an operation; `none` if it has to wait or has ended. -/
def Progress.step {τ : Type} [Queueable τ] (q : Shared τ) :
    Progress τ → Except Sequence.Fault (Option (Progress τ × Shared τ))
  | .measure r => .ok (some (if q.published = 0 then .done none else .acquire r, q))
  | .acquire r =>
    match q.held, r with
    | false, r => .ok (some (.change r, { q with held := true }))
    | true, .steal => .ok (some (.done none, q))
    | true, _ => .ok none
  | .change r => (r.apply q.lanes).map fun (x, l) => some (.publish x, { q with lanes := l })
  | .publish x => .ok (some (.release x, { q with published := q.lanes.size }))
  | .release x => .ok (some (.done x, { q with held := false }))
  | .done _ => .ok none

namespace Shared

variable {τ : Type}

/-- A queue without items. -/
def empty (s : Strategy) (b : Sequence.Backing) : Shared τ := ⟨.empty s b, 0, false⟩

/-- The queue after the holder of its lock has given up: the lock is free, and the lanes and the
published length are as they were. -/
def abandon (q : Shared τ) : Shared τ := { q with held := false }

/-- The one-line text of a queue, which tells its published length. -/
def text (q : Shared τ) : String :=
  let locked := Text.openRecord "Locked" [("len", toString q.published)]
  match q.lanes with
  | .plain _ => Text.record "Deque" [("list", locked)]
  | .priority _ _ => Text.record "PriorityDeque" [("lists", locked)]
  | .pinned _ => Text.record "PinnedDeque" [("list", locked)]

variable [Queueable τ]

/-- Runs an operation as far as it gets in the given number of steps. -/
def advance : Nat → Progress τ → Shared τ → Except Sequence.Fault (Progress τ × Shared τ)
  | 0, p, q => .ok (p, q)
  | fuel + 1, p, q => do
    match ← p.step q with
    | none => .ok (p, q)
    | some (p, q) => advance fuel p q

/-- Runs an operation undisturbed; no operation takes more than five steps. -/
def perform (r : Request τ) (q : Shared τ) : Except Sequence.Fault (Option τ × Shared τ) := do
  match ← advance 5 r.start q with
  | (.done x, q) => .ok (x, q)
  | (_, q) => .ok (none, q)

/-- Adds an item at the owner's end. -/
def push (t : τ) (q : Shared τ) : Except Sequence.Fault (Shared τ) :=
  (q.perform (.push t)).map (·.2)

/-- Takes an item at the owner's end. -/
def pop (q : Shared τ) : Except Sequence.Fault (Option τ × Shared τ) := q.perform .pop

/-- Takes an item at the thief's end. -/
def steal (q : Shared τ) : Except Sequence.Fault (Option τ × Shared τ) := q.perform .steal

/-- How many steps an undisturbed operation takes before it is about to change the lanes. -/
def approach : Request τ → Nat
  | .push _ => 1
  | .pop | .steal => 2

/-- Runs an operation until it holds the lock and is about to change the lanes, or has ended
without that. -/
def hold (r : Request τ) (q : Shared τ) : Except Sequence.Fault (Progress τ × Shared τ) :=
  advance (approach r) r.start q

/-! ## Undisturbed operations -/

/-- On a free queue an item is added to the lanes and the new size is published. -/
theorem push_eq (t : τ) {q : Shared τ} (free : q.held = false) :
    q.push t = (q.lanes.push t).map fun l => ⟨l, l.size, false⟩ := by
  cases h : q.lanes.push t <;>
    simp [push, perform, advance, Request.start, Progress.step, Request.apply, free, h,
      Except.map, bind, Except.bind]

/-- A queue whose published length is zero is left alone by the owner. -/
theorem pop_eq_of_published_eq_zero {q : Shared τ} (h : q.published = 0) :
    q.pop = .ok (none, q) := by
  simp [pop, perform, advance, Request.start, Progress.step, h, bind, Except.bind]

/-- On a free queue the owner takes what the lanes give and the new size is published. -/
theorem pop_eq {q : Shared τ} (free : q.held = false) (filled : q.published ≠ 0) :
    q.pop = q.lanes.pop.map fun r => (r.1, ⟨r.2, r.2.size, false⟩) := by
  cases h : q.lanes.pop <;>
    simp [pop, perform, advance, Request.start, Progress.step, Request.apply, free, filled, h,
      Except.map, bind, Except.bind]

/-- A queue whose published length is zero is left alone by a thief. -/
theorem steal_eq_of_published_eq_zero {q : Shared τ} (h : q.published = 0) :
    q.steal = .ok (none, q) := by
  simp [steal, perform, advance, Request.start, Progress.step, h, bind, Except.bind]

/-- On a free queue a thief takes what the lanes give and the new size is published. -/
theorem steal_eq {q : Shared τ} (free : q.held = false) (filled : q.published ≠ 0) :
    q.steal = q.lanes.steal.map fun r => (r.1, ⟨r.2, r.2.size, false⟩) := by
  cases h : q.lanes.steal <;>
    simp [steal, perform, advance, Request.start, Progress.step, Request.apply, free, filled, h,
      Except.map, bind, Except.bind]

/-- A thief leaves a queue alone whose lock is held. -/
theorem steal_eq_of_held {q : Shared τ} (held : q.held = true) : q.steal = .ok (none, q) := by
  by_cases h : q.published = 0 <;>
    simp [steal, perform, advance, Request.start, Progress.step, held, h, bind, Except.bind]

end Shared

end AccessOrder.Queue
