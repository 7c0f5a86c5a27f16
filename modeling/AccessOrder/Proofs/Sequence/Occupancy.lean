/- # The places of an arena

A walk through an arena comes to the places of its elements, from the head in one order and from the
tail in the other, and the places to which it does not come are free.  The arena grows only when an
element is added while no place is free, so that its size tells how many elements it has held at
most.

* `Walk`, `Walk.unique`, `Stretch.walk` : the places that a walk comes to;
* `Arranged`, `Holds.arranged` : how the places are shared out;
* `size_unlink`, `size_eraseFrom`, `size_removeFrom`, `size_pushFront` : which operations let an
  arena grow;
* `Linked.Holds.perform`, `Linked.Holds.play` : one operation, and one after the other;
* `arranged_at_all_times` : what holds of an arena whatever has been asked of it.
-/
import AccessOrder.Proofs.Sequence.Backings
namespace AccessOrder.Sequence

namespace Linked

variable {α σ : Type}

/-! ## Walks -/

/-- The places to which a walk through an arena comes, from a place on until there is no neighbour
any more, if it has come to the first of them from the place `before`. -/
inductive Walk (nodes : Array (Node α)) : (before place : Nat) → List Nat → Prop
  | done {before : Nat} : Walk nodes before 0 []
  | visit {before place : Nat} {n : Node α} {places : List Nat} : place ≠ 0 →
      nodes[place]? = some n → Walk nodes place (n.link ^^^ before) places →
      Walk nodes before place (place :: places)

/-- A walk comes to the same places whenever it is taken. -/
theorem Walk.unique {nodes : Array (Node α)} {before place : Nat} {places others : List Nat}
    (walk : Walk nodes before place places) (walk' : Walk nodes before place others) :
    places = others := by
  induction walk generalizing others with
  | done =>
      cases walk' with
      | done => rfl
      | visit used => exact absurd rfl used
  | visit used found _ ih =>
      cases walk' with
      | done => exact absurd rfl used
      | visit _ found' rest =>
          obtain rfl := Option.some.inj (found.symm.trans found')
          rw [ih rest]

/-- A walk along a stretch comes to the places of its cells. -/
theorem Stretch.walk {nodes : Array (Node α)} {before : Nat} {cells : List (Nat × α)}
    (stretch : Stretch nodes before cells 0) (used : 0 ∉ cells.map Prod.fst) :
    Walk nodes before (firstPlace 0 cells) (cells.map Prod.fst) := by
  induction cells generalizing before with
  | nil => exact .done
  | cons c cells ih =>
      rw [List.map_cons, List.mem_cons, not_or] at used
      refine .visit (Ne.symm used.1) stretch.1 ?_
      -- the link undone by the place that the walk comes from is the next place
      rw [Nat.xor_comm before, Nat.xor_assoc, Nat.xor_self, Nat.xor_zero]
      exact ih stretch.2 used.2

/-- The places of an arena are shared out between the elements, `places` being theirs from front to
back, and the free places. -/
structure Arranged (l : Linked α) (places : List Nat) : Prop where
  /-- The first node is never used. -/
  unused : l.nodes[0]? = some ⟨0, none⟩
  fromHead : ∀ walk, Walk l.nodes 0 l.head walk ↔ walk = places
  fromTail : ∀ walk, Walk l.nodes 0 l.tail walk ↔ walk = places.reverse
  nodup_places : places.Nodup
  nodup_free : l.free.Nodup
  disjoint : places.Disjoint l.free
  covers : ∀ place, place ∈ places ∨ place ∈ l.free ↔ 1 ≤ place ∧ place ≤ l.nodes.size - 1
  filled : ∀ place ∈ places, ∃ link value, l.nodes[place]? = some ⟨link, some value⟩
  vacant : ∀ place ∈ l.free, l.nodes[place]? = some ⟨0, none⟩
  count : l.count = places.length
  /-- A place for another element is to be had, which is neither the first nor in use. -/
  offers : ∀ value link, ∃ place l', l.allocate value link = .ok (place, l') ∧ place ≠ 0 ∧
    place ∉ places

/-- Every cell of a stretch stands in its node. -/
theorem Stretch.filled {nodes : Array (Node α)} {before after : Nat} {cells : List (Nat × α)}
    (stretch : Stretch nodes before cells after) {place : Nat} (mem : place ∈ cells.map Prod.fst) :
    ∃ link value, nodes[place]? = some ⟨link, some value⟩ := by
  induction cells generalizing before with
  | nil => cases mem
  | cons c cells ih =>
      rcases List.mem_cons.1 mem with rfl | mem
      · exact ⟨_, _, stretch.1⟩
      · exact ih stretch.2 mem

namespace Holds

variable {l : Linked α} {cells : List (Nat × α)}

/-- The places of an arena that holds cells are shared out. -/
theorem arranged (h : l.Holds cells) : l.Arranged (cells.map Prod.fst) := by
  have used : 0 ∉ cells.map Prod.fst := fun mem => h.zero_not_mem (List.mem_append_left _ mem)
  have distinct := List.nodup_append.1 h.nodup
  have forward : Walk l.nodes 0 l.head (cells.map Prod.fst) := by
    rw [h.head]
    exact h.stretch.walk used
  have backward : Walk l.nodes 0 l.tail (cells.map Prod.fst).reverse := by
    rw [h.tail, ← List.map_reverse]
    exact h.stretch.reverse.walk (by rwa [List.map_reverse, List.mem_reverse])
  refine ⟨h.vacant 0 List.mem_cons_self, ?_, ?_, distinct.1, distinct.2.1, ?_, ?_,
    fun place => h.stretch.filled, fun place free => h.vacant place (List.mem_cons_of_mem 0 free),
    ?_, ?_⟩
  · intro walk
    constructor
    · intro other
      exact other.unique forward
    · rintro rfl
      exact forward
  · intro walk
    constructor
    · intro other
      exact other.unique backward
    · rintro rfl
      exact backward
  · intro place mem free
    exact distinct.2.2 place mem place free rfl
  · intro place
    rw [← List.mem_append, h.mem_places]
    omega
  · rw [List.length_map]
    exact h.count
  · intro value link
    obtain ⟨place, nodes, free, allocated, fresh, -, -, places, -⟩ :=
      h.exists_allocated value link
    have inside := List.mem_range'_1.1 (places.mem_iff.1 List.mem_cons_self)
    exact ⟨place, _, allocated, by omega, fresh⟩

/-- The nodes but the first are as many as the elements and the free places. -/
theorem size_eq (h : l.Holds cells) : l.nodes.size = 1 + l.count + l.free.length := by
  have size := h.size_pos
  have length := h.places.length_eq
  rw [List.length_append, List.length_map, List.length_range', ← h.count] at length
  omega

end Holds

/-! ## The size of an arena -/

section Sizes

variable {l l' : Linked α}

/-- What comes of two steps. -/
theorem bind_eq_ok_iff {β γ : Type} {x : Except Fault β} {f : β → Except Fault γ} {r : γ} :
    x >>= f = .ok r ↔ ∃ a, x = .ok a ∧ f a = .ok r := by
  cases x with
  | error e => simp [bind, Except.bind]
  | ok a => simp [bind, Except.bind]

theorem size_putNode {place : Nat} {n : Node α} (put : l.putNode place n = .ok l') :
    l'.nodes.size = l.nodes.size := by
  unfold putNode at put
  split at put
  · cases put
    exact Array.size_setIfInBounds
  · cases put

theorem size_relink {place change : Nat} (relinked : l.relink place change = .ok l') :
    l'.nodes.size = l.nodes.size := by
  obtain ⟨n, -, put⟩ := bind_eq_ok_iff.1 relinked
  exact size_putNode put

/-- An arena does not change its size when the element of a node is taken out. -/
theorem size_release {place : Nat} {value : α} (released : l.release place = .ok (value, l')) :
    l'.nodes.size = l.nodes.size := by
  obtain ⟨n, -, released⟩ := bind_eq_ok_iff.1 released
  split at released
  · cases released
  · obtain ⟨l₁, put, released⟩ := bind_eq_ok_iff.1 released
    split at released
    · cases released
    · cases released
      show l₁.nodes.size = l.nodes.size
      exact size_putNode put

/-- An arena does not change its size when one of its ends moves or a node is tied to another. -/
theorem size_retied {end? : Prop} [Decidable end?] {place change : Nat} {moved : Linked α}
    (retied : (if end? then .ok moved else l.relink place change) = Except.ok l')
    (same : moved.nodes = l.nodes) :
    l'.nodes.size = l.nodes.size := by
  split at retied
  · cases retied
    rw [same]
  · exact size_relink retied

/-- An arena does not change its size when a node is taken out. -/
theorem size_unlink {place before after : Nat} {value : α}
    (unlinked : l.unlink place before after = .ok (value, l')) :
    l'.nodes.size = l.nodes.size := by
  rw [Holds.unlink_eq] at unlinked
  obtain ⟨l₁, tied, unlinked⟩ := bind_eq_ok_iff.1 unlinked
  obtain ⟨l₂, tied', released⟩ := bind_eq_ok_iff.1 unlinked
  have first := size_retied tied rfl
  have second := size_retied tied' rfl
  have third := size_release released
  omega

theorem size_popFront {x : Option α} (popped : l.popFront = .ok (x, l')) :
    l'.nodes.size = l.nodes.size := by
  unfold popFront at popped
  split at popped
  · cases popped
    rfl
  · obtain ⟨n, -, popped⟩ := bind_eq_ok_iff.1 popped
    obtain ⟨⟨value, l₁⟩, unlinked, popped⟩ := bind_eq_ok_iff.1 popped
    cases popped
    exact size_unlink unlinked

theorem size_popBack {x : Option α} (popped : l.popBack = .ok (x, l')) :
    l'.nodes.size = l.nodes.size := by
  unfold popBack at popped
  split at popped
  · cases popped
    rfl
  · obtain ⟨n, -, popped⟩ := bind_eq_ok_iff.1 popped
    obtain ⟨⟨value, l₁⟩, unlinked, popped⟩ := bind_eq_ok_iff.1 popped
    cases popped
    exact size_unlink unlinked

/-- An arena does not change its size when elements are removed. -/
theorem size_eraseFrom {p : Visitor σ α} {fuel after place : Nat} {s : σ}
    {r : Removal (List α) (Linked α) σ} (erased : eraseFrom p fuel s after place l = .ok r) :
    r.kept.nodes.size = l.nodes.size := by
  induction fuel generalizing l s after place r with
  | zero =>
      cases place with
      | zero =>
          rw [eraseFrom] at erased
          cases erased
          rfl
      | succ place => simp [eraseFrom] at erased
  | succ fuel ih =>
      cases place with
      | zero =>
          rw [eraseFrom] at erased
          cases erased
          rfl
      | succ place =>
          unfold eraseFrom at erased
          obtain ⟨n, -, erased⟩ := bind_eq_ok_iff.1 erased
          dsimp only at erased
          split at erased
          · exact ih erased
          · split at erased
            · obtain ⟨⟨value, l₁⟩, unlinked, erased⟩ := bind_eq_ok_iff.1 erased
              obtain ⟨r₁, others, erased⟩ := bind_eq_ok_iff.1 erased
              cases erased
              exact (ih others).trans (size_unlink unlinked)
            · exact ih erased

/-- An arena does not change its size when an element is searched for. -/
theorem size_removeFrom {p : Visitor σ α} {fuel after place : Nat} {s : σ}
    {r : Removal (Option α) (Linked α) σ} (removed : removeFrom p fuel s after place l = .ok r) :
    r.kept.nodes.size = l.nodes.size := by
  induction fuel generalizing s after place with
  | zero =>
      cases place with
      | zero =>
          rw [removeFrom] at removed
          cases removed
          rfl
      | succ place => simp [removeFrom] at removed
  | succ fuel ih =>
      cases place with
      | zero =>
          rw [removeFrom] at removed
          cases removed
          rfl
      | succ place =>
          unfold removeFrom at removed
          obtain ⟨n, -, removed⟩ := bind_eq_ok_iff.1 removed
          dsimp only at removed
          split at removed
          · exact ih removed
          · split at removed
            · obtain ⟨⟨value, l₁⟩, unlinked, removed⟩ := bind_eq_ok_iff.1 removed
              cases removed
              exact size_unlink unlinked
            · exact ih removed

/-- An arena grows by one node if an element is stored while no place is free. -/
theorem size_allocate {value : α} {link place : Nat}
    (allocated : l.allocate value link = .ok (place, l')) :
    l'.nodes.size = l.nodes.size ∨ l.free = [] ∧ l'.nodes.size = l.nodes.size + 1 := by
  unfold allocate at allocated
  split at allocated
  · obtain ⟨l₁, put, allocated⟩ := bind_eq_ok_iff.1 allocated
    cases allocated
    have same := size_putNode put
    exact .inl same
  · next none_free =>
    cases allocated
    exact .inr ⟨none_free, Array.size_push _⟩

theorem size_pushFront {value : α} (pushed : l.pushFront value = .ok l') :
    l'.nodes.size = l.nodes.size ∨ l.free = [] ∧ l'.nodes.size = l.nodes.size + 1 := by
  rw [Holds.pushFront_eq] at pushed
  obtain ⟨⟨place, l₁⟩, allocated, pushed⟩ := bind_eq_ok_iff.1 pushed
  obtain ⟨l₂, tied, pushed⟩ := bind_eq_ok_iff.1 pushed
  cases pushed
  show l₂.nodes.size = l.nodes.size ∨ l.free = [] ∧ l₂.nodes.size = l.nodes.size + 1
  rw [size_retied tied rfl]
  exact size_allocate allocated

theorem size_pushBack {value : α} (pushed : l.pushBack value = .ok l') :
    l'.nodes.size = l.nodes.size ∨ l.free = [] ∧ l'.nodes.size = l.nodes.size + 1 := by
  rw [Holds.pushBack_eq] at pushed
  cases front : l.flip.pushFront value with
  | error f =>
      rw [front] at pushed
      cases pushed
  | ok l₁ =>
      rw [front] at pushed
      cases pushed
      show l₁.nodes.size = l.flip.nodes.size ∨
        l.flip.free = [] ∧ l₁.nodes.size = l.flip.nodes.size + 1
      exact size_pushFront front

end Sizes

namespace Holds

variable {l l' : Linked α} {cells cells' : List (Nat × α)}

/-- An arena that keeps its size has room for what it holds then. -/
theorem size_eq_max_of_eq (h : l.Holds cells) (h' : l'.Holds cells')
    (same : l'.nodes.size = l.nodes.size) :
    l'.nodes.size - 1 = max (l.nodes.size - 1) l'.count := by
  have before := h.size_eq
  have after := h'.size_eq
  omega

/-- An arena to which an element is added grows if it is full. -/
theorem size_eq_max_of_grown (h : l.Holds cells) (h' : l'.Holds cells')
    (more : cells'.length = cells.length + 1)
    (grown : l'.nodes.size = l.nodes.size ∨ l.free = [] ∧ l'.nodes.size = l.nodes.size + 1) :
    l'.nodes.size - 1 = max (l.nodes.size - 1) l'.count := by
  rcases grown with same | ⟨full, grown⟩
  · exact h.size_eq_max_of_eq h' same
  · have before := h.size_eq
    have counts := h.count
    have counts' := h'.count
    rw [full, List.length_nil] at before
    omega

end Holds

end Linked

variable {α σ : Type} {l : Linked α} {cells : List (Nat × α)}

/-- An operation on a sequence that is kept in an arena leaves one that is kept in an arena, and
lets the arena grow only as far as its elements need it. -/
theorem Linked.Holds.perform (h : l.Holds cells) (m : σ) (op : Operation σ α) :
    ∃ answer memory l' cells', (Sequence.linked l).perform m op = .ok (answer, memory, .linked l') ∧
      l'.Holds cells' ∧ l'.nodes.size - 1 = max (l.nodes.size - 1) l'.count := by
  have stays := h.size_eq_max_of_eq h rfl
  cases op with
  | pushFront x =>
      obtain ⟨place, l', pushed, holds⟩ := h.pushFront x
      exact ⟨_, _, l', _, by rw [Sequence.perform, Sequence.pushFront, pushed]; rfl, holds,
        h.size_eq_max_of_grown holds rfl (size_pushFront pushed)⟩
  | pushBack x =>
      obtain ⟨place, l', pushed, holds⟩ := h.pushBack x
      exact ⟨_, _, l', _, by rw [Sequence.perform, Sequence.pushBack, pushed]; rfl, holds,
        h.size_eq_max_of_grown holds (by simp) (size_pushBack pushed)⟩
  | popFront =>
      obtain ⟨l', popped, holds⟩ := h.popFront
      exact ⟨_, _, l', _, by rw [Sequence.perform, Sequence.popFront, popped]; rfl, holds,
        h.size_eq_max_of_eq holds (size_popFront popped)⟩
  | popBack =>
      obtain ⟨l', popped, holds⟩ := h.popBack
      exact ⟨_, _, l', _, by rw [Sequence.perform, Sequence.popBack, popped]; rfl, holds,
        h.size_eq_max_of_eq holds (size_popBack popped)⟩
  | back =>
      exact ⟨_, _, l, cells, by rw [Sequence.perform, Sequence.back, h.back]; rfl, h, stays⟩
  | size => exact ⟨_, _, l, cells, rfl, h, stays⟩
  | isEmpty => exact ⟨_, _, l, cells, rfl, h, stays⟩
  | eraseIf p =>
      obtain ⟨l', kept, erased, holds, -⟩ := h.eraseIf p.recorded ([], m)
      exact ⟨_, _, l', kept, by rw [Sequence.perform, Sequence.eraseIf, erased]; rfl, holds,
        h.size_eq_max_of_eq holds (size_eraseFrom erased)⟩
  | removeLast p =>
      obtain ⟨l', kept, removed, holds, -⟩ := h.removeLast p.recorded ([], m)
      exact ⟨_, _, l', kept, by rw [Sequence.perform, Sequence.removeLast, removed]; rfl, holds,
        h.size_eq_max_of_eq holds (size_removeFrom removed)⟩
  | elements =>
      exact ⟨_, _, l, cells, by rw [Sequence.perform, toList, h.elements_eq]; rfl, h, stays⟩
  | text show' =>
      exact ⟨_, _, l, cells, by rw [Sequence.perform, toList, h.elements_eq]; rfl, h, stays⟩

/-- After operations on an arena, whatever they are, it has grown exactly as far as was needed for
the most elements that have been seen in it. -/
theorem Linked.Holds.play (h : l.Holds cells) (m : σ) (ops : List (Operation σ α)) :
    ∃ sights memory l' cells', (Sequence.linked l).play m ops = .ok (sights, memory, .linked l') ∧
      l'.Holds cells' ∧
      l'.nodes.size - 1 = (sights.map Sight.size).foldl max (l.nodes.size - 1) := by
  induction ops generalizing l cells m with
  | nil => exact ⟨[], m, l, cells, rfl, h, rfl⟩
  | cons op ops ih =>
      obtain ⟨answer, m₁, l₁, cells₁, performed, holds₁, size₁⟩ := h.perform m op
      obtain ⟨sights, memory, l', cells', played, holds', size'⟩ := ih holds₁ m₁
      refine ⟨⟨answer, l₁.count, cells₁.map Prod.snd⟩ :: sights, memory, l', cells', ?_, holds', ?_⟩
      · simp only [Sequence.play, performed, bind, Except.bind, toList, holds₁.elements_eq, played,
          Sequence.size]
      · rw [List.map_cons, List.foldl_cons, ← size₁]
        exact size'

/-- Whatever is asked of an arena that begins empty, nothing fails and its places are shared out
afterwards: the first one is never used, and the others are either free or those that a walk comes
to, from the head in one order and from the tail in the other.  The places but the first are as many
as the most elements that it has ever held, and there are more only once it holds more than ever
before. -/
theorem arranged_at_all_times (m : σ) (ops : List (Operation σ α)) :
    ∃ sights memory l places,
      (empty .linked : Sequence α).play m ops = .ok (sights, memory, .linked l) ∧
      l.Arranged places ∧
      (0 :: sights.map Sight.size).max? = some (l.nodes.size - 1) ∧
      ∀ (m₁ : σ) (op : Operation σ α), ∃ answer m₂ l',
        (Sequence.linked l).perform m₁ op = .ok (answer, m₂, .linked l') ∧
        (l'.nodes.size ≠ l.nodes.size → l'.count = l'.nodes.size - 1 ∧
          ∀ sight ∈ sights, sight.size < l'.count) := by
  obtain ⟨sights, memory, l, cells, played, holds, size⟩ :=
    (Linked.holds_empty (α := α)).play m ops
  have largest : (0 :: sights.map Sight.size).max? = some (l.nodes.size - 1) := by
    rw [List.max?_cons', size]
    rfl
  refine ⟨sights, memory, l, _, played, holds.arranged, largest, fun m₁ op => ?_⟩
  obtain ⟨answer, m₂, l', cells', performed, holds', size'⟩ := holds.perform m₁ op
  refine ⟨answer, m₂, l', performed, fun grown => ?_⟩
  have before := holds.size_pos
  have after := holds'.size_pos
  refine ⟨by omega, fun sight mem => ?_⟩
  have seen : sight.size ≤ l.nodes.size - 1 := (List.max?_eq_some_iff.1 largest).2 _
    (List.mem_cons_of_mem 0 (List.mem_map_of_mem mem))
  omega

/-- An arena of two elements, of which the first one stands in a place that has been used before. -/
def Linked.recycled : Linked Nat := ⟨#[⟨0, none⟩, ⟨2, some 7⟩, ⟨1, some 6⟩], [], 1, 2, 2⟩

/-- A place that has been given back is used again, and the arena grows for a third element. -/
theorem arranged_after_recycling :
    ∃ sights, (empty .linked).play () [.pushBack 5, .pushBack 6, .popFront, .pushFront 7] =
        .ok (sights, (), .linked .recycled) ∧
      Linked.recycled.Arranged [1, 2] ∧ sights.map Sight.size = [1, 2, 1, 2] ∧
      ∃ answer l', (Sequence.linked .recycled).perform () (.pushBack 8) =
          .ok (answer, (), .linked l') ∧
        l'.nodes.size ≠ Linked.recycled.nodes.size ∧ l'.count = l'.nodes.size - 1 ∧
        ∀ sight ∈ sights, sight.size < l'.count := by
  have known : (empty .linked).play () [.pushBack 5, .pushBack 6, .popFront, .pushFront 7] =
      .ok ([⟨.nothing, 1, [5]⟩, ⟨.nothing, 2, [5, 6]⟩, ⟨.item (some 5), 1, [6]⟩,
        ⟨.nothing, 2, [7, 6]⟩], (), .linked .recycled) := by rfl
  have known' : (Sequence.linked .recycled).perform () (.pushBack 8) = .ok (.nothing, (),
      .linked ⟨#[⟨0, none⟩, ⟨2, some 7⟩, ⟨2, some 6⟩, ⟨2, some 8⟩], [], 1, 3, 3⟩) := by rfl
  obtain ⟨sights, memory, l, places, played, arranged, -, further⟩ := arranged_at_all_times ()
    [.pushBack 5, .pushBack 6, .popFront, .pushFront 7]
  obtain ⟨rfl, last⟩ := Prod.mk.inj (Except.ok.inj (played.symm.trans known))
  obtain rfl := Sequence.linked.inj (Prod.mk.inj last).2
  obtain ⟨answer, m, l', performed, grown⟩ := further () (.pushBack 8)
  obtain rfl := Sequence.linked.inj
    (Prod.mk.inj (Prod.mk.inj (Except.ok.inj (performed.symm.trans known'))).2).2
  have walk : Linked.Walk Linked.recycled.nodes 0 Linked.recycled.head [1, 2] :=
    .visit (by decide) rfl (.visit (by decide) rfl .done)
  obtain rfl := (arranged.fromHead _).1 walk
  have larger := grown (by decide)
  exact ⟨_, known, arranged, rfl, _, _, known', by decide, larger⟩

end AccessOrder.Sequence
