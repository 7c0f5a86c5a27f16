/- # What is in a sequence

The elements of a sequence, whatever keeps them.  A flat list is always sound; an arena is when its
nodes are linked together as they should be.  No operation on a sound sequence fails, and each
leaves a sound one, so that a sequence is as good as the list of its elements.
-/
import AccessOrder.Proofs.Sequence.Arena
namespace AccessOrder.Sequence

variable {α σ : Type}

/-- The elements of a sequence from front to back; none if they cannot be walked along. -/
def contents (s : Sequence α) : List α :=
  match s.toList with
  | .ok items => items
  | .error _ => []

/-- A sequence whose links are as they should be. -/
def Sound : Sequence α → Prop
  | .flat _ => True
  | .linked l => ∃ cells, l.Holds cells

@[simp] theorem contents_flat (items : List α) : (Sequence.flat items).contents = items := rfl

/-- The elements of an arena are those of its cells. -/
theorem contents_linked {l : Linked α} {cells : List (Nat × α)} (h : l.Holds cells) :
    (Sequence.linked l).contents = cells.map Prod.snd := by
  rw [contents, toList, h.elements_eq]

/-- An empty sequence is sound. -/
theorem sound_empty (b : Backing) : (empty b : Sequence α).Sound := by
  cases b with
  | flat => trivial
  | linked => exact ⟨[], Linked.holds_empty⟩

/-- An empty sequence has no elements. -/
@[simp] theorem contents_empty (b : Backing) : (empty b : Sequence α).contents = [] := by
  rw [contents, toList_empty]

namespace Sound

variable {s : Sequence α}

/-- A sound sequence can be walked along. -/
theorem toList_eq (h : s.Sound) : s.toList = .ok s.contents := by
  cases s with
  | flat items => rfl
  | linked l =>
      obtain ⟨cells, holds⟩ := h
      rw [contents_linked holds]
      exact holds.elements_eq

/-- The size is the number of elements. -/
theorem size_eq (h : s.Sound) : s.size = s.contents.length := by
  cases s with
  | flat items => rfl
  | linked l =>
      obtain ⟨cells, holds⟩ := h
      rw [contents_linked holds, List.length_map]
      exact holds.count

/-- An element is added before all others. -/
theorem pushFront (h : s.Sound) (x : α) :
    ∃ s', s.pushFront x = .ok s' ∧ s'.Sound ∧ s'.contents = x :: s.contents := by
  cases s with
  | flat items => exact ⟨.flat (x :: items), rfl, trivial, rfl⟩
  | linked l =>
      obtain ⟨cells, holds⟩ := h
      obtain ⟨place, l', pushed, holds'⟩ := holds.pushFront x
      refine ⟨.linked l', ?_, ⟨_, holds'⟩, ?_⟩
      · rw [Sequence.pushFront, pushed]
        rfl
      · rw [contents_linked holds, contents_linked holds']
        rfl

/-- An element is added after all others. -/
theorem pushBack (h : s.Sound) (x : α) :
    ∃ s', s.pushBack x = .ok s' ∧ s'.Sound ∧ s'.contents = s.contents ++ [x] := by
  cases s with
  | flat items => exact ⟨.flat (items ++ [x]), rfl, trivial, rfl⟩
  | linked l =>
      obtain ⟨cells, holds⟩ := h
      obtain ⟨place, l', pushed, holds'⟩ := holds.pushBack x
      refine ⟨.linked l', ?_, ⟨_, holds'⟩, ?_⟩
      · rw [Sequence.pushBack, pushed]
        rfl
      · rw [contents_linked holds, contents_linked holds', List.map_append]
        rfl

/-- The first element is taken at the front. -/
theorem popFront (h : s.Sound) :
    ∃ s', s.popFront = .ok (s.contents.head?, s') ∧ s'.Sound ∧ s'.contents = s.contents.tail := by
  cases s with
  | flat items =>
      cases items with
      | nil => exact ⟨.flat [], rfl, trivial, rfl⟩
      | cons x items => exact ⟨.flat items, rfl, trivial, rfl⟩
  | linked l =>
      obtain ⟨cells, holds⟩ := h
      obtain ⟨l', popped, holds'⟩ := holds.popFront
      refine ⟨.linked l', ?_, ⟨_, holds'⟩, ?_⟩
      · rw [Sequence.popFront, popped, contents_linked holds, List.head?_map]
        rfl
      · rw [contents_linked holds, contents_linked holds', List.map_tail]

/-- The last element is taken at the back. -/
theorem popBack (h : s.Sound) :
    ∃ s', s.popBack = .ok (s.contents.getLast?, s') ∧ s'.Sound ∧
      s'.contents = s.contents.dropLast := by
  cases s with
  | flat items => exact ⟨.flat items.dropLast, rfl, trivial, rfl⟩
  | linked l =>
      obtain ⟨cells, holds⟩ := h
      obtain ⟨l', popped, holds'⟩ := holds.popBack
      refine ⟨.linked l', ?_, ⟨_, holds'⟩, ?_⟩
      · rw [Sequence.popBack, popped, contents_linked holds, List.getLast?_map]
        rfl
      · rw [contents_linked holds, contents_linked holds', List.map_dropLast]

/-- The last element is seen at the back. -/
theorem back (h : s.Sound) : s.back = .ok s.contents.getLast? := by
  cases s with
  | flat items => rfl
  | linked l =>
      obtain ⟨cells, holds⟩ := h
      rw [Sequence.back, holds.back, contents_linked holds, List.getLast?_map]

/-- A search from the back takes out what it does in the list of the elements. -/
theorem removeLast (h : s.Sound) (p : Visitor σ α) (m : σ) :
    ∃ s', s.removeLast p m =
        .ok ⟨(Flat.removeLast p m s.contents).removed, s',
          (Flat.removeLast p m s.contents).memory⟩ ∧
      s'.Sound ∧ s'.contents = (Flat.removeLast p m s.contents).kept := by
  cases s with
  | flat items => exact ⟨.flat _, rfl, trivial, rfl⟩
  | linked l =>
      obtain ⟨cells, holds⟩ := h
      obtain ⟨l', kept, removed, holds', same⟩ := holds.removeLast p m
      refine ⟨.linked l', ?_, ⟨_, holds'⟩, ?_⟩
      · rw [Sequence.removeLast, removed, contents_linked holds]
        rfl
      · rw [contents_linked holds', same, contents_linked holds]

/-- A removal of elements takes out what it does in the list of the elements. -/
theorem eraseIf (h : s.Sound) (p : Visitor σ α) (m : σ) :
    ∃ s', s.eraseIf p m =
        .ok ⟨(Flat.eraseIf p m s.contents).removed, s', (Flat.eraseIf p m s.contents).memory⟩ ∧
      s'.Sound ∧ s'.contents = (Flat.eraseIf p m s.contents).kept := by
  cases s with
  | flat items => exact ⟨.flat _, rfl, trivial, rfl⟩
  | linked l =>
      obtain ⟨cells, holds⟩ := h
      obtain ⟨l', kept, erased, holds', same⟩ := holds.eraseIf p m
      refine ⟨.linked l', ?_, ⟨_, holds'⟩, ?_⟩
      · rw [Sequence.eraseIf, erased, contents_linked holds]
        rfl
      · rw [contents_linked holds', same, contents_linked holds]

/-! ### Nothing to take -/

/-- The arena of a sequence without elements has no front and no back. -/
theorem ends_of_nil {l : Linked α} (h : (Sequence.linked l).Sound)
    (none_left : (Sequence.linked l).contents = []) : l.head = 0 ∧ l.tail = 0 := by
  obtain ⟨cells, holds⟩ := h
  rw [contents_linked holds, List.map_eq_nil_iff] at none_left
  subst none_left
  exact ⟨holds.head, holds.tail⟩

/-- A sequence without elements is left as it is at the front. -/
theorem popFront_of_nil (h : s.Sound) (none_left : s.contents = []) :
    s.popFront = .ok (none, s) := by
  cases s with
  | flat items =>
      obtain rfl : items = [] := none_left
      rfl
  | linked l =>
      rw [Sequence.popFront, Linked.popFront, if_pos (h.ends_of_nil none_left).1]
      rfl

/-- A search from the back leaves a sequence without elements as it is. -/
theorem removeLast_of_nil (h : s.Sound) (none_left : s.contents = []) (p : Visitor σ α) (m : σ) :
    s.removeLast p m = .ok ⟨none, s, m⟩ := by
  cases s with
  | flat items =>
      obtain rfl : items = [] := none_left
      rfl
  | linked l =>
      rw [Sequence.removeLast, Linked.removeLast, (h.ends_of_nil none_left).2, Linked.removeFrom]
      rfl

end Sound

/-! ## A search that finds nothing -/

/-- A search in an arena that finds nothing leaves the arena as it is. -/
theorem Linked.removeFrom_none {p : Visitor σ α} {fuel after place : Nat} {m m' : σ}
    {l l' : Linked α} (missed : removeFrom p fuel m after place l = .ok ⟨none, l', m'⟩) :
    l' = l := by
  induction fuel generalizing m after place with
  | zero =>
      cases place with
      | zero =>
          rw [removeFrom] at missed
          exact (Removal.mk.inj (Except.ok.inj missed)).2.1.symm
      | succ place => simp [removeFrom] at missed
  | succ fuel ih =>
      cases place with
      | zero =>
          rw [removeFrom] at missed
          exact (Removal.mk.inj (Except.ok.inj missed)).2.1.symm
      | succ place =>
          unfold removeFrom at missed
          cases at_place : l.node (place + 1) with
          | error e => simp [at_place, bind, Except.bind] at missed
          | ok n =>
              simp only [at_place, bind, Except.bind] at missed
              split at missed
              · exact ih missed
              · split at missed
                · split at missed <;> simp at missed
                · exact ih missed

/-- A search in a list that finds nothing keeps the list. -/
theorem Flat.extract_none {p : Visitor σ α} {m : σ} {xs : List α}
    (missed : (extract p m xs).removed = none) : (extract p m xs).kept = xs := by
  induction xs generalizing m with
  | nil => rfl
  | cons x xs ih =>
      by_cases hit : (p m x).1
      · simp [extract, hit] at missed
      · simp only [extract, if_neg hit] at missed ⊢
        rw [ih missed]

/-- A search from the back that finds nothing leaves the sequence as it is. -/
theorem removeLast_none {p : Visitor σ α} {m m' : σ} {s s' : Sequence α}
    (missed : s.removeLast p m = .ok ⟨none, s', m'⟩) : s' = s := by
  cases s with
  | flat items =>
      obtain ⟨nothing, rfl, -⟩ := Removal.mk.inj (Except.ok.inj missed)
      rw [Flat.removeLast, Flat.extract_none nothing, List.reverse_reverse]
  | linked l =>
      rw [removeLast] at missed
      cases searched : l.removeLast p m with
      | error e => simp [searched, Except.map] at missed
      | ok r =>
          obtain ⟨removed, kept, memory⟩ := r
          rw [searched] at missed
          obtain ⟨rfl, rfl, -⟩ := Removal.mk.inj (Except.ok.inj missed)
          rw [Linked.removeFrom_none searched]

end AccessOrder.Sequence
