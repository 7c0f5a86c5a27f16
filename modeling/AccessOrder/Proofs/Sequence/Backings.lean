/- # The two backings of a sequence

What may be asked of a double-ended sequence, one operation after the other, and what is seen after
each of them.  A sequence that is kept in an arena is used as one that is kept as a list: the same
answers, the same visits of a test, the same elements.  No operation on the arena fails, and each of
its walks comes to an end.

* `Sound.perform_alike` : an operation on a sound sequence does what it does to the list of its
  elements;
* `linked_plays_as_flat` : whatever is asked of them, an arena and a list answer alike.
-/
import AccessOrder.Proofs.Sequence.Contents
import AccessOrder.Text.Record
namespace AccessOrder.Sequence

/-- What may be asked of a sequence.  All tests share one memory, so that an answer may depend on
whatever has been visited before, also in the course of earlier operations. -/
inductive Operation (σ α : Type) where
  | pushFront (x : α)
  | pushBack (x : α)
  | popFront
  | popBack
  | back
  | size
  | isEmpty
  | eraseIf (p : Visitor σ α)
  | removeLast (p : Visitor σ α)
  /-- Walks along the elements, front first. -/
  | elements
  /-- Writes the elements on one line, given the text of each. -/
  | text (show' : α → String)

/-- What a sequence answers. -/
inductive Answer (α : Type) where
  | nothing
  | item (x : Option α)
  | number (n : Nat)
  | flag (b : Bool)
  | items (xs : List α)
  | line (s : String)
  /-- What has been visited, and what has been removed, each in order. -/
  | erased (visited removed : List α)
  /-- What has been visited, in order, and what has been taken out. -/
  | taken (visited : List α) (removed : Option α)

/-- What is seen after an operation: its answer, the number of elements and the elements. -/
structure Sight (α : Type) where
  answer : Answer α
  size : Nat
  items : List α

variable {α σ : Type}

/-- The same test, which also lists what it visits, the last element first. -/
def Visitor.recorded (p : Visitor σ α) : Visitor (List α × σ) α :=
  fun (visited, m) x => ((p m x).1, x :: visited, (p m x).2)

/-- Carries an operation out; `m` is the memory of the tests. -/
def perform (s : Sequence α) (m : σ) :
    Operation σ α → Except Fault (Answer α × σ × Sequence α)
  | .pushFront x => (s.pushFront x).map fun s => (.nothing, m, s)
  | .pushBack x => (s.pushBack x).map fun s => (.nothing, m, s)
  | .popFront => s.popFront.map fun (x, s) => (.item x, m, s)
  | .popBack => s.popBack.map fun (x, s) => (.item x, m, s)
  | .back => s.back.map fun x => (.item x, m, s)
  | .size => .ok (.number s.size, m, s)
  | .isEmpty => .ok (.flag (s.size = 0), m, s)
  | .eraseIf p => (s.eraseIf p.recorded ([], m)).map fun r =>
    (.erased r.memory.1.reverse r.removed, r.memory.2, r.kept)
  | .removeLast p => (s.removeLast p.recorded ([], m)).map fun r =>
    (.taken r.memory.1.reverse r.removed, r.memory.2, r.kept)
  | .elements => s.toList.map fun xs => (.items xs, m, s)
  | .text show' => s.toList.map fun xs => (.line (Text.sequence (xs.map show')), m, s)

/-- Carries operations out one after the other, and tells what is seen after each of them. -/
def play (s : Sequence α) (m : σ) :
    List (Operation σ α) → Except Fault (List (Sight α) × σ × Sequence α)
  | [] => .ok ([], m, s)
  | op :: ops => do
    let (answer, m, s) ← s.perform m op
    let items ← s.toList
    let (sights, m, last) ← s.play m ops
    .ok (⟨answer, s.size, items⟩ :: sights, m, last)

/-! ## One operation -/

theorem popFront_flat (items : List α) :
    (Sequence.flat items).popFront = .ok (items.head?, .flat items.tail) := by
  cases items <;> rfl

/-- An operation on a sound sequence does what it does to the list of its elements. -/
theorem Sound.perform_alike {s : Sequence α} (h : s.Sound) (m : σ) (op : Operation σ α) :
    ∃ answer memory s', s.perform m op = .ok (answer, memory, s') ∧
      (Sequence.flat s.contents).perform m op = .ok (answer, memory, .flat s'.contents) ∧
      s'.Sound := by
  cases op with
  | pushFront x =>
      obtain ⟨s', pushed, sound, same⟩ := h.pushFront x
      exact ⟨_, _, s', by rw [perform, pushed]; rfl, by rw [same]; rfl, sound⟩
  | pushBack x =>
      obtain ⟨s', pushed, sound, same⟩ := h.pushBack x
      exact ⟨_, _, s', by rw [perform, pushed]; rfl, by rw [same]; rfl, sound⟩
  | popFront =>
      obtain ⟨s', popped, sound, same⟩ := h.popFront
      exact ⟨_, _, s', by rw [perform, popped]; rfl, by rw [perform, popFront_flat, same]; rfl,
        sound⟩
  | popBack =>
      obtain ⟨s', popped, sound, same⟩ := h.popBack
      exact ⟨_, _, s', by rw [perform, popped]; rfl, by rw [same]; rfl, sound⟩
  | back => exact ⟨_, _, s, by rw [perform, h.back]; rfl, rfl, h⟩
  | size => exact ⟨_, _, s, by rw [perform, h.size_eq]; rfl, rfl, h⟩
  | isEmpty => exact ⟨_, _, s, by rw [perform, h.size_eq]; rfl, rfl, h⟩
  | eraseIf p =>
      obtain ⟨s', erased, sound, same⟩ := h.eraseIf p.recorded ([], m)
      exact ⟨_, _, s', by rw [perform, erased]; rfl, by rw [same]; rfl, sound⟩
  | removeLast p =>
      obtain ⟨s', removed, sound, same⟩ := h.removeLast p.recorded ([], m)
      exact ⟨_, _, s', by rw [perform, removed]; rfl, by rw [same]; rfl, sound⟩
  | elements => exact ⟨_, _, s, by rw [perform, h.toList_eq]; rfl, rfl, h⟩
  | text show' => exact ⟨_, _, s, by rw [perform, h.toList_eq]; rfl, rfl, h⟩

/-! ## One operation after the other -/

/-- Whatever is asked of a sound sequence, it answers as the list of its elements does. -/
theorem Sound.play_alike {s : Sequence α} (h : s.Sound) (m : σ) (ops : List (Operation σ α)) :
    ∃ sights memory s', s.play m ops = .ok (sights, memory, s') ∧
      (Sequence.flat s.contents).play m ops = .ok (sights, memory, .flat s'.contents) ∧
      s'.Sound := by
  induction ops generalizing s m with
  | nil => exact ⟨[], m, s, rfl, rfl, h⟩
  | cons op ops ih =>
      obtain ⟨answer, m', s', here, there, sound⟩ := h.perform_alike m op
      obtain ⟨sights, memory, last, rest, rest', sound'⟩ := ih sound m'
      refine ⟨⟨answer, s'.contents.length, s'.contents⟩ :: sights, memory, last, ?_, ?_, sound'⟩
      · simp only [play, here, bind, Except.bind, sound.toList_eq, rest, sound.size_eq]
      · simp only [play, there, bind, Except.bind, toList, rest', size]

/-- Whatever is asked of them, an arena that begins empty and a list that does so answer alike: the
same answers and visits, as many elements and the same ones after every operation.  Nothing that is
asked of the arena fails. -/
theorem linked_plays_as_flat (m : σ) (ops : List (Operation σ α)) :
    ∃ sights memory l items,
      (empty .linked : Sequence α).play m ops = .ok (sights, memory, l) ∧
      (empty .flat : Sequence α).play m ops = .ok (sights, memory, .flat items) ∧
      l.toList = .ok items := by
  have sound : (empty .linked : Sequence α).Sound := sound_empty .linked
  obtain ⟨sights, memory, l, linked, flat, sound'⟩ := sound.play_alike m ops
  rw [contents_empty] at flat
  exact ⟨sights, memory, l, l.contents, linked, flat, sound'.toList_eq⟩

end AccessOrder.Sequence
