/- # The lanes of a queue

The sequences behind a queue and the three ways to serve them.  The owner adds and takes at the
front; a thief takes near the back, and never an item that is pinned to a worker.

* A plain queue has one lane, and a thief looks at the back item only.
* A priority queue has a lane per priority and serves the high one first, to the owner and to
  thieves.
* A pinned queue has one lane, and a thief looks past pinned items at the back.
-/
import AccessOrder.Sequence.Basic
namespace AccessOrder

/-- How soon an item is served by a priority queue. -/
inductive Priority where
  | normal
  | high
  deriving DecidableEq

/-- The text of a priority. -/
def Priority.text : Priority → String
  | .normal => "Normal"
  | .high => "High"

/-- The number of a worker. -/
abbrev WorkerId := Nat

/-- What a queue looks at in its items. -/
class Queueable (τ : Type) where
  priority : τ → Priority
  /-- The worker that the item is pinned to. -/
  pin : τ → Option WorkerId

namespace Queue

/-- Whether a thief may take an item. -/
def stealable {τ : Type} [Queueable τ] (t : τ) : Bool := (Queueable.pin t).isNone

/-- The three ways to serve a queue. -/
inductive Strategy where
  | plain
  | priority
  | pinned
  deriving DecidableEq

/-- The sequences behind a queue. -/
inductive Lanes (τ : Type) where
  | plain (items : Sequence τ)
  | priority (high normal : Sequence τ)
  | pinned (items : Sequence τ)

namespace Lanes

variable {τ : Type}

/-- Lanes without items. -/
def empty (s : Strategy) (b : Sequence.Backing) : Lanes τ :=
  match s with
  | .plain => .plain (.empty b)
  | .priority => .priority (.empty b) (.empty b)
  | .pinned => .pinned (.empty b)

/-- The number of items. -/
def size : Lanes τ → Nat
  | .plain items | .pinned items => items.size
  | .priority high normal => high.size + normal.size

/-- The items in the order in which the owner would take them. -/
def toList : Lanes τ → Except Sequence.Fault (List τ)
  | .plain items | .pinned items => items.toList
  | .priority high normal => do
    let high ← high.toList
    let normal ← normal.toList
    .ok (high ++ normal)

/-- Takes the back item of a sequence unless it is pinned. -/
def popStealable [Queueable τ] (items : Sequence τ) :
    Except Sequence.Fault (Option τ × Sequence τ) := do
  match ← items.back with
  | none => .ok (none, items)
  | some t => if stealable t then items.popBack else .ok (none, items)

/-- Adds an item at the owner's end. -/
def push [Queueable τ] (t : τ) : Lanes τ → Except Sequence.Fault (Lanes τ)
  | .plain items => (items.pushFront t).map .plain
  | .pinned items => (items.pushFront t).map .pinned
  | .priority high normal =>
    match Queueable.priority t with
    | .high => (high.pushFront t).map (.priority · normal)
    | .normal => (normal.pushFront t).map (.priority high ·)

/-- Takes an item at the owner's end. -/
def pop : Lanes τ → Except Sequence.Fault (Option τ × Lanes τ)
  | .plain items => items.popFront.map fun (t, items) => (t, .plain items)
  | .pinned items => items.popFront.map fun (t, items) => (t, .pinned items)
  | .priority high normal => do
    let (t, high) ← high.popFront
    match t with
    | some t => .ok (some t, .priority high normal)
    | none =>
      let (t, normal) ← normal.popFront
      .ok (t, .priority high normal)

/-- Takes an item at the thief's end. -/
def steal [Queueable τ] : Lanes τ → Except Sequence.Fault (Option τ × Lanes τ)
  | .plain items => (popStealable items).map fun (t, items) => (t, .plain items)
  | .pinned items =>
    (items.removeLast (fun () t => (stealable t, ())) ()).map fun r => (r.removed, .pinned r.kept)
  | .priority high normal => do
    let (t, high) ← popStealable high
    match t with
    | some t => .ok (some t, .priority high normal)
    | none =>
      let (t, normal) ← popStealable normal
      .ok (t, .priority high normal)

/-! ## Empty lanes -/

/-- Empty lanes have no items. -/
@[simp] theorem size_empty (s : Strategy) (b : Sequence.Backing) :
    (empty s b : Lanes τ).size = 0 := by
  cases s <;> cases b <;> rfl

/-- There is nothing to take from empty lanes. -/
theorem pop_empty (s : Strategy) (b : Sequence.Backing) :
    (empty s b : Lanes τ).pop = .ok (none, empty s b) := by
  cases s <;> cases b <;> rfl

/-- There is nothing to steal from empty lanes. -/
theorem steal_empty [Queueable τ] (s : Strategy) (b : Sequence.Backing) :
    (empty s b : Lanes τ).steal = .ok (none, empty s b) := by
  cases s <;> cases b <;> rfl

end Lanes

end Queue

end AccessOrder
