/- # Double-ended sequences

A sequence kept either as a flat list or in an arena of linked nodes, behind one set of
operations.  Only the arena can report a fault.

* `toList_pushFront_flat`, `toList_pushBack_flat` : what is added stands at its end.
-/
import AccessOrder.Sequence.Linked
namespace AccessOrder

/-- The two ways to keep a sequence. -/
inductive Sequence.Backing where
  | flat
  | linked
  deriving DecidableEq

/-- A double-ended sequence. -/
inductive Sequence (α : Type) where
  /-- The elements from front to back. -/
  | flat (items : List α)
  /-- Linked nodes in an arena. -/
  | linked (arena : Sequence.Linked α)

namespace Sequence

variable {α σ : Type}

/-- The sequence without elements. -/
def empty : Backing → Sequence α
  | .flat => .flat []
  | .linked => .linked .empty

/-- The elements from front to back. -/
def toList : Sequence α → Except Fault (List α)
  | .flat items => .ok items
  | .linked l => l.elements

/-- The number of elements. -/
def size : Sequence α → Nat
  | .flat items => items.length
  | .linked l => l.count

/-- Adds an element at the front. -/
def pushFront (x : α) : Sequence α → Except Fault (Sequence α)
  | .flat items => .ok (.flat (x :: items))
  | .linked l => (l.pushFront x).map .linked

/-- Adds an element at the back. -/
def pushBack (x : α) : Sequence α → Except Fault (Sequence α)
  | .flat items => .ok (.flat (items ++ [x]))
  | .linked l => (l.pushBack x).map .linked

/-- Takes the front element. -/
def popFront : Sequence α → Except Fault (Option α × Sequence α)
  | .flat [] => .ok (none, .flat [])
  | .flat (x :: items) => .ok (some x, .flat items)
  | .linked l => l.popFront.map fun (x, l) => (x, .linked l)

/-- Takes the back element. -/
def popBack : Sequence α → Except Fault (Option α × Sequence α)
  | .flat items => .ok (items.getLast?, .flat items.dropLast)
  | .linked l => l.popBack.map fun (x, l) => (x, .linked l)

/-- The back element. -/
def back : Sequence α → Except Fault (Option α)
  | .flat items => .ok items.getLast?
  | .linked l => l.back

/-- Removes every element that passes the test, the back visited first. -/
def eraseIf (p : Visitor σ α) (s : σ) :
    Sequence α → Except Fault (Removal (List α) (Sequence α) σ)
  | .flat items =>
    let r := Flat.eraseIf p s items
    .ok ⟨r.removed, .flat r.kept, r.memory⟩
  | .linked l => (l.eraseIf p s).map fun r => ⟨r.removed, .linked r.kept, r.memory⟩

/-- Removes the element closest to the back that passes the test. -/
def removeLast (p : Visitor σ α) (s : σ) :
    Sequence α → Except Fault (Removal (Option α) (Sequence α) σ)
  | .flat items =>
    let r := Flat.removeLast p s items
    .ok ⟨r.removed, .flat r.kept, r.memory⟩
  | .linked l => (l.removeLast p s).map fun r => ⟨r.removed, .linked r.kept, r.memory⟩

/-! ## The elements after an operation -/

/-- An empty sequence has no elements. -/
@[simp] theorem toList_empty (b : Backing) : (empty b : Sequence α).toList = .ok [] := by
  cases b <;> rfl

/-- What is added at the front stands first. -/
@[simp] theorem toList_pushFront_flat (x : α) (items : List α) :
    (Sequence.flat items).pushFront x >>= toList = .ok (x :: items) := rfl

/-- What is added at the back stands last. -/
@[simp] theorem toList_pushBack_flat (x : α) (items : List α) :
    (Sequence.flat items).pushBack x >>= toList = .ok (items ++ [x]) := rfl

end Sequence

end AccessOrder
