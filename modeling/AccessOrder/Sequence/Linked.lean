/- # Linked sequences

A double-ended sequence in an arena of nodes.  A node keeps a single link, the exclusive-or of the
places of its two neighbours, so that a walk from either end recovers the next place from the
place it came from.  Place `0` is never used and stands for "no neighbour".  Places given back
are used again before the arena grows.

Every operation reports a `Fault` when a place lies outside of the arena or a node that should
hold an element holds none.
-/
import AccessOrder.Sequence.Flat
import AccessOrder.Text.Report
namespace AccessOrder.Sequence

/-- What can go wrong in an arena. -/
inductive Fault where
  /-- A place outside of the arena was asked for. -/
  | outOfRange (size place : Nat)
  /-- A node given back holds no element. -/
  | vacant
  /-- More elements were given back than the sequence holds. -/
  | uncounted
  /-- A walk went on for longer than the arena has places. -/
  | endless
  deriving DecidableEq

/-- The text of a fault. -/
def Fault.message : Fault → String
  | .outOfRange size place => Text.indexOutside size place
  | .vacant => "XorList::release: [1]"
  | .uncounted => "attempt to subtract with overflow"
  | .endless => "the list has no end"

/-- A node: the exclusive-or of the places of its neighbours, and its element. -/
structure Node (α : Type) where
  link : Nat
  value : Option α

/-- A sequence in an arena. -/
structure Linked (α : Type) where
  /-- The arena; its first node is never used. -/
  nodes : Array (Node α)
  /-- The places given back, the last one first. -/
  free : List Nat
  /-- The place of the front element, `0` if there is none. -/
  head : Nat
  /-- The place of the back element, `0` if there is none. -/
  tail : Nat
  /-- The number of elements. -/
  count : Nat

namespace Linked

variable {α σ : Type}

/-- The sequence without elements. -/
def empty : Linked α := ⟨#[⟨0, none⟩], [], 0, 0, 0⟩

/-! ## Nodes -/

/-- The node at a place. -/
def node (l : Linked α) (place : Nat) : Except Fault (Node α) :=
  match l.nodes[place]? with
  | some n => .ok n
  | none => .error (.outOfRange l.nodes.size place)

/-- Puts a node at a place. -/
def putNode (l : Linked α) (place : Nat) (n : Node α) : Except Fault (Linked α) :=
  if place < l.nodes.size then .ok { l with nodes := l.nodes.setIfInBounds place n }
  else .error (.outOfRange l.nodes.size place)

/-- Changes the link of a node by exclusive-or. -/
def relink (l : Linked α) (place change : Nat) : Except Fault (Linked α) := do
  let n ← l.node place
  l.putNode place { n with link := n.link ^^^ change }

/-- Stores an element in a node, a place given back if there is one, and tells its place. -/
def allocate (l : Linked α) (value : α) (link : Nat) : Except Fault (Nat × Linked α) :=
  match l.free with
  | place :: free => do
    let l ← ({ l with free := free }).putNode place ⟨link, some value⟩
    .ok (place, l)
  | [] => .ok (l.nodes.size, { l with nodes := l.nodes.push ⟨link, some value⟩ })

/-- Takes the element out of a node and gives its place back. -/
def release (l : Linked α) (place : Nat) : Except Fault (α × Linked α) := do
  let n ← l.node place
  match n.value with
  | none => .error .vacant
  | some value =>
    let l ← l.putNode place ⟨0, none⟩
    if l.count = 0 then .error .uncounted
    else .ok (value, { l with free := place :: l.free, count := l.count - 1 })

/-- Takes the node at a place, whose neighbours are given, out of the sequence. -/
def unlink (l : Linked α) (place before after : Nat) : Except Fault (α × Linked α) := do
  let l ← if before = 0 then .ok { l with head := after } else l.relink before (place ^^^ after)
  let l ← if after = 0 then .ok { l with tail := before } else l.relink after (place ^^^ before)
  l.release place

/-! ## The two ends -/

/-- Adds an element at the front. -/
def pushFront (value : α) (l : Linked α) : Except Fault (Linked α) := do
  let old := l.head
  let (place, l) ← l.allocate value old
  let l ← if old = 0 then .ok { l with tail := place } else l.relink old place
  .ok { l with head := place, count := l.count + 1 }

/-- Adds an element at the back. -/
def pushBack (value : α) (l : Linked α) : Except Fault (Linked α) := do
  let old := l.tail
  let (place, l) ← l.allocate value old
  let l ← if old = 0 then .ok { l with head := place } else l.relink old place
  .ok { l with tail := place, count := l.count + 1 }

/-- Takes the front element. -/
def popFront (l : Linked α) : Except Fault (Option α × Linked α) :=
  if l.head = 0 then .ok (none, l)
  else do
    let n ← l.node l.head
    let (value, l) ← l.unlink l.head 0 n.link
    .ok (some value, l)

/-- Takes the back element. -/
def popBack (l : Linked α) : Except Fault (Option α × Linked α) :=
  if l.tail = 0 then .ok (none, l)
  else do
    let n ← l.node l.tail
    let (value, l) ← l.unlink l.tail n.link 0
    .ok (some value, l)

/-- The back element. -/
def back (l : Linked α) : Except Fault (Option α) :=
  if l.tail = 0 then .ok none
  else do
    let n ← l.node l.tail
    .ok n.value

/-! ## Walks -/

/-- The elements from a place on, coming from the place `before`; the walk takes at most as many
steps as `fuel` tells. -/
def elementsFrom (l : Linked α) : (fuel before place : Nat) → Except Fault (List α)
  | _, _, 0 => .ok []
  | 0, _, _ => .error .endless
  | fuel + 1, before, place => do
    let n ← l.node place
    match n.value with
    | none => .ok []
    | some value =>
      let rest ← l.elementsFrom fuel place (n.link ^^^ before)
      .ok (value :: rest)

/-- The elements from front to back. -/
def elements (l : Linked α) : Except Fault (List α) := l.elementsFrom l.nodes.size 0 l.head

/-- Removes the elements that pass the test on the walk from a place towards the front, coming from
the place `after`. -/
def eraseFrom (p : Visitor σ α) :
    (fuel : Nat) → σ → (after place : Nat) → Linked α →
      Except Fault (Removal (List α) (Linked α) σ)
  | _, s, _, 0, l => .ok ⟨[], l, s⟩
  | 0, _, _, _, _ => .error .endless
  | fuel + 1, s, after, place, l => do
    let n ← l.node place
    let before := n.link ^^^ after
    match n.value with
    | none => eraseFrom p fuel s place before l
    | some x =>
      if (p s x).1 then
        let (value, l) ← l.unlink place before after
        let r ← eraseFrom p fuel (p s x).2 after before l
        .ok { r with removed := value :: r.removed }
      else eraseFrom p fuel (p s x).2 place before l

/-- Removes every element that passes the test, the back visited first. -/
def eraseIf (p : Visitor σ α) (s : σ) (l : Linked α) :
    Except Fault (Removal (List α) (Linked α) σ) :=
  eraseFrom p l.nodes.size s 0 l.tail l

/-- Removes the first element that passes the test on the walk from a place towards the front,
coming from the place `after`. -/
def removeFrom (p : Visitor σ α) :
    (fuel : Nat) → σ → (after place : Nat) → Linked α →
      Except Fault (Removal (Option α) (Linked α) σ)
  | _, s, _, 0, l => .ok ⟨none, l, s⟩
  | 0, _, _, _, _ => .error .endless
  | fuel + 1, s, after, place, l => do
    let n ← l.node place
    let before := n.link ^^^ after
    match n.value with
    | none => removeFrom p fuel s place before l
    | some x =>
      if (p s x).1 then
        let (value, l) ← l.unlink place before after
        .ok ⟨some value, l, (p s x).2⟩
      else removeFrom p fuel (p s x).2 place before l

/-- Removes the element closest to the back that passes the test. -/
def removeLast (p : Visitor σ α) (s : σ) (l : Linked α) :
    Except Fault (Removal (Option α) (Linked α) σ) :=
  removeFrom p l.nodes.size s 0 l.tail l

/-! ## The empty sequence -/

/-- The empty sequence has no elements. -/
@[simp] theorem elements_empty : (empty : Linked α).elements = .ok [] := rfl

/-- The empty sequence has nothing at its front. -/
@[simp] theorem popFront_empty : (empty : Linked α).popFront = .ok (none, empty) := rfl

/-- The empty sequence has nothing at its back. -/
@[simp] theorem popBack_empty : (empty : Linked α).popBack = .ok (none, empty) := rfl

end Linked

end AccessOrder.Sequence
