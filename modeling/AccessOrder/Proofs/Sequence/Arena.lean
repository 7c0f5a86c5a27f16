/- # The arena of a linked sequence

The nodes of a linked sequence, seen as the list of their places and elements, front first.
`Stretch` tells that a part of the arena links such a list together between two places; read
backwards it is a stretch again, so that what is shown of one end holds of the other.  `Holds` is
the invariant of the whole arena: its cells and its free places together are all places but `0`.

* `Holds.pushFront`, `Holds.pushBack`, `Holds.popFront`, `Holds.popBack`, `Holds.back` : the
  operations at the ends never fail and do what they do to a list;
* `Holds.removeLast`, `Holds.eraseIf` : a search from the back finds and takes out what it does in a
  list;
* `Holds.elements_eq` : a walk from the front meets the elements in order.
-/
import Mathlib
import AccessOrder.Sequence.Basic
namespace AccessOrder.Sequence.Linked

variable {α σ : Type}

/-! ## Stretches -/

/-- The place at which a list of cells begins, or `after` if it has none. -/
def firstPlace (after : Nat) : List (Nat × α) → Nat
  | [] => after
  | c :: _ => c.1

/-- The cells are linked in order, from the place `before` to the place `after`. -/
def Stretch (nodes : Array (Node α)) : (before : Nat) → List (Nat × α) → (after : Nat) → Prop
  | _, [], _ => True
  | before, c :: cells, after =>
    nodes[c.1]? = some ⟨before ^^^ firstPlace after cells, some c.2⟩ ∧ Stretch nodes c.1 cells after

@[simp] theorem firstPlace_nil (after : Nat) : firstPlace after ([] : List (Nat × α)) = after := rfl

@[simp] theorem firstPlace_cons (after : Nat) (c : Nat × α) (cells : List (Nat × α)) :
    firstPlace after (c :: cells) = c.1 := rfl

theorem firstPlace_append (after : Nat) (xs ys : List (Nat × α)) :
    firstPlace after (xs ++ ys) = firstPlace (firstPlace after ys) xs := by
  cases xs <;> rfl

/-- A list of cells begins at the place of one of them if it has any. -/
theorem firstPlace_mem {after : Nat} {cells : List (Nat × α)} (h : cells ≠ []) :
    firstPlace after cells ∈ cells.map Prod.fst := by
  cases cells with
  | nil => exact absurd rfl h
  | cons c cells => simp

theorem stretch_append {nodes : Array (Node α)} {before after : Nat} {xs ys : List (Nat × α)} :
    Stretch nodes before (xs ++ ys) after ↔
      Stretch nodes before xs (firstPlace after ys) ∧
        Stretch nodes (firstPlace before xs.reverse) ys after := by
  induction xs generalizing before with
  | nil => simp [Stretch]
  | cons c xs ih =>
      rw [List.cons_append, Stretch, Stretch, ih, firstPlace_append, List.reverse_cons,
        firstPlace_append, firstPlace_cons, and_assoc]

/-- A stretch read backwards is a stretch. -/
theorem Stretch.reverse {nodes : Array (Node α)} {before after : Nat} {cells : List (Nat × α)}
    (h : Stretch nodes before cells after) : Stretch nodes after cells.reverse before := by
  induction cells generalizing before with
  | nil => trivial
  | cons c cells ih =>
      rw [List.reverse_cons, stretch_append, List.reverse_reverse]
      refine ⟨ih h.2, ?_, trivial⟩
      rw [firstPlace_nil, Nat.xor_comm]
      exact h.1

/-- Nodes at other places do not matter to a stretch. -/
theorem Stretch.congr {nodes other : Array (Node α)} {before after : Nat}
    {cells : List (Nat × α)} (h : Stretch nodes before cells after)
    (same : ∀ c ∈ cells, other[c.1]? = nodes[c.1]?) : Stretch other before cells after := by
  induction cells generalizing before with
  | nil => trivial
  | cons c cells ih =>
      refine ⟨?_, ih h.2 fun d hd => same d (List.mem_cons_of_mem c hd)⟩
      rw [same c List.mem_cons_self]
      exact h.1

/-! ## Tying a stretch to another neighbour -/

/-- The link of a node is changed in place. -/
theorem relink_eq {l : Linked α} {place : Nat} {n : Node α} (found : l.nodes[place]? = some n)
    (change : Nat) :
    l.relink place change =
      .ok { l with nodes := l.nodes.setIfInBounds place ⟨n.link ^^^ change, n.value⟩ } := by
  have inside : place < l.nodes.size := (Array.getElem?_eq_some_iff.1 found).1
  have node : l.node place = .ok n := by rw [Linked.node, found]
  rw [relink, node]
  simp [putNode, inside, bind, Except.bind]

theorem xor_swap (old new rest : Nat) : (old ^^^ rest) ^^^ (old ^^^ new) = new ^^^ rest := by
  rw [Nat.xor_comm old rest, Nat.xor_assoc, ← Nat.xor_assoc old old new, Nat.xor_self,
    Nat.zero_xor, Nat.xor_comm]

/-- A stretch that begins at a node is tied to another place before it by changing the link of
that node. -/
theorem Stretch.retie {nodes : Array (Node α)} {old new after : Nat} {c : Nat × α}
    {cells : List (Nat × α)} (h : Stretch nodes old (c :: cells) after)
    (distinct : ((c :: cells).map Prod.fst).Nodup) :
    Stretch (nodes.setIfInBounds c.1 ⟨(old ^^^ firstPlace after cells) ^^^ (old ^^^ new), some c.2⟩)
      new (c :: cells) after := by
  have inside : c.1 < nodes.size := (Array.getElem?_eq_some_iff.1 h.1).1
  refine ⟨?_, h.2.congr fun d hd => ?_⟩
  · rw [Array.getElem?_setIfInBounds_self_of_lt inside, xor_swap]
  · have other : c.1 ≠ d.1 := by
      intro same
      rw [List.map_cons, List.nodup_cons] at distinct
      exact distinct.1 (same ▸ List.mem_map_of_mem hd)
    exact Array.getElem?_setIfInBounds_ne other

/-- The nodes after a stretch has been tied to another place before it: nothing changes if it has
no cell, and else its first cell gets a new link. -/
theorem exists_retied {l : Linked α} {old after : Nat} {cells : List (Nat × α)}
    (h : Stretch l.nodes old cells after) (distinct : (cells.map Prod.fst).Nodup)
    (used : 0 ∉ cells.map Prod.fst) (new : Nat) :
    ∃ nodes, Stretch nodes new cells after ∧ nodes.size = l.nodes.size ∧
      (∀ place ∉ cells.map Prod.fst, nodes[place]? = l.nodes[place]?) ∧
      (cells = [] ∧ nodes = l.nodes ∨
        cells ≠ [] ∧ firstPlace 0 cells ≠ 0 ∧
          l.relink (firstPlace 0 cells) (old ^^^ new) = .ok { l with nodes := nodes }) := by
  cases cells with
  | nil => exact ⟨l.nodes, trivial, rfl, fun _ _ => rfl, .inl ⟨rfl, rfl⟩⟩
  | cons c cells =>
      refine ⟨_, h.retie distinct, Array.size_setIfInBounds, fun place fresh => ?_,
        .inr ⟨List.cons_ne_nil c cells, ?_, relink_eq h.1 _⟩⟩
      · apply Array.getElem?_setIfInBounds_ne
        rintro rfl
        simp at fresh
      · rintro first
        exact used (first ▸ firstPlace_mem (List.cons_ne_nil c cells))

/-- The cells before a node are tied to the place after it; the head moves there if there are
none. -/
theorem retie_head {l : Linked α} {place : Nat} (after : Nat) {xs : List (Nat × α)}
    (h : Stretch l.nodes 0 xs place) (distinct : (xs.map Prod.fst).Nodup)
    (used : 0 ∉ xs.map Prod.fst) (head : l.head = firstPlace place xs) :
    ∃ nodes, (if firstPlace 0 xs.reverse = 0 then Except.ok { l with head := after }
        else l.relink (firstPlace 0 xs.reverse) (place ^^^ after)) =
          .ok { l with nodes := nodes, head := firstPlace after xs } ∧
      Stretch nodes 0 xs after ∧ nodes.size = l.nodes.size ∧
      ∀ other ∉ xs.map Prod.fst, nodes[other]? = l.nodes[other]? := by
  obtain ⟨nodes, stretch, size, same, tied⟩ := exists_retied h.reverse
    (by rwa [List.map_reverse, List.nodup_reverse]) (by simpa using used) after
  refine ⟨nodes, ?_, by simpa using stretch.reverse, size, by simpa using same⟩
  rcases tied with ⟨none, rfl⟩ | ⟨some, nonzero, tied⟩
  · rw [List.reverse_eq_nil_iff] at none
    subst none
    rfl
  · rw [if_neg nonzero, tied]
    cases xs with
    | nil => exact absurd rfl some
    | cons c xs => rw [firstPlace_cons, ← firstPlace_cons place c xs, ← head]

/-- The cells after a node are tied to the place before it; the tail moves there if there are
none. -/
theorem retie_tail {l : Linked α} {place : Nat} (before : Nat) {ys : List (Nat × α)}
    (h : Stretch l.nodes place ys 0) (distinct : (ys.map Prod.fst).Nodup)
    (used : 0 ∉ ys.map Prod.fst) (tail : l.tail = firstPlace place ys.reverse) :
    ∃ nodes, (if firstPlace 0 ys = 0 then Except.ok { l with tail := before }
        else l.relink (firstPlace 0 ys) (place ^^^ before)) =
          .ok { l with nodes := nodes, tail := firstPlace before ys.reverse } ∧
      Stretch nodes before ys 0 ∧ nodes.size = l.nodes.size ∧
      ∀ other ∉ ys.map Prod.fst, nodes[other]? = l.nodes[other]? := by
  obtain ⟨nodes, stretch, size, same, tied⟩ := exists_retied h distinct used before
  refine ⟨nodes, ?_, stretch, size, same⟩
  rcases tied with ⟨rfl, rfl⟩ | ⟨some, nonzero, tied⟩
  · rfl
  · rw [if_neg nonzero, tied]
    obtain ⟨zs, c, rfl⟩ := (List.eq_nil_or_concat' ys).resolve_left some
    rw [List.reverse_append, List.reverse_singleton, List.singleton_append] at tail ⊢
    rw [firstPlace_cons, ← firstPlace_cons place c zs.reverse, ← tail]

/-! ## The whole arena -/

/-- The arena holds the cells: they are linked from end to end, and the places that are not free are
theirs. -/
structure Holds (l : Linked α) (cells : List (Nat × α)) : Prop where
  stretch : Stretch l.nodes 0 cells 0
  head : l.head = firstPlace 0 cells
  tail : l.tail = firstPlace 0 cells.reverse
  places : (cells.map Prod.fst ++ l.free).Perm (List.range' 1 (l.nodes.size - 1))
  vacant : ∀ place ∈ 0 :: l.free, l.nodes[place]? = some ⟨0, none⟩
  count : l.count = cells.length

/-- The empty sequence holds no cell. -/
theorem holds_empty : Holds (empty : Linked α) [] :=
  ⟨trivial, rfl, rfl, .refl _, by simp [empty], rfl⟩

/-- The arena read backwards. -/
def flip (l : Linked α) : Linked α := { l with head := l.tail, tail := l.head }

namespace Holds

variable {l : Linked α} {cells : List (Nat × α)}

/-- There always is the node that is never used. -/
theorem size_pos (h : l.Holds cells) : 0 < l.nodes.size :=
  (Array.getElem?_eq_some_iff.1 (h.vacant 0 List.mem_cons_self)).1

/-- No place is used twice, or used and free. -/
theorem nodup (h : l.Holds cells) : (cells.map Prod.fst ++ l.free).Nodup :=
  h.places.nodup_iff.2 List.nodup_range'

/-- The places used or free are those of the arena but the first. -/
theorem mem_places (h : l.Holds cells) {place : Nat} :
    place ∈ cells.map Prod.fst ++ l.free ↔ 0 < place ∧ place < l.nodes.size := by
  have size := h.size_pos
  rw [h.places.mem_iff, List.mem_range'_1]
  omega

/-- The first place is not used. -/
theorem zero_not_mem (h : l.Holds cells) : 0 ∉ cells.map Prod.fst ++ l.free := by
  rw [h.mem_places]
  omega

/-- A free place is not that of a cell. -/
theorem not_mem_of_free (h : l.Holds cells) {place : Nat} (free : place ∈ l.free) :
    place ∉ cells.map Prod.fst :=
  fun used => (List.nodup_append.1 h.nodup).2.2 place used place free rfl

/-- A place without an element is not that of a cell. -/
theorem not_mem_of_vacant (h : l.Holds cells) {place : Nat} (vacant : place ∈ 0 :: l.free) :
    place ∉ cells.map Prod.fst := by
  rcases List.mem_cons.1 vacant with rfl | free
  · exact fun used => h.zero_not_mem (List.mem_append_left _ used)
  · exact h.not_mem_of_free free

/-! ## Taking a cell out -/

/-- The cell between two stretches, and the stretches on both sides of it. -/
theorem split {xs ys : List (Nat × α)} {c : Nat × α} (h : l.Holds (xs ++ c :: ys)) :
    Stretch l.nodes 0 xs c.1 ∧
      l.nodes[c.1]? = some ⟨firstPlace 0 xs.reverse ^^^ firstPlace 0 ys, some c.2⟩ ∧
      Stretch l.nodes c.1 ys 0 := by
  obtain ⟨left, middle, right⟩ := stretch_append.1 h.stretch
  exact ⟨left, middle, right⟩

/-- The places on both sides of a cell are distinct, used and other than that of the cell. -/
theorem nodup_split {xs ys : List (Nat × α)} {c : Nat × α} (h : l.Holds (xs ++ c :: ys)) :
    (xs.map Prod.fst).Nodup ∧ (ys.map Prod.fst).Nodup ∧ c.1 ∉ xs.map Prod.fst ∧
      c.1 ∉ ys.map Prod.fst ∧ (∀ d ∈ ys, d.1 ∉ xs.map Prod.fst) := by
  have distinct := (List.nodup_append.1 h.nodup).1
  rw [List.map_append, List.map_cons, List.nodup_append, List.nodup_cons] at distinct
  obtain ⟨left, ⟨fresh, right⟩, apart⟩ := distinct
  refine ⟨left, right, fun used => apart _ used _ List.mem_cons_self rfl, fresh, ?_⟩
  intro d hd used
  exact apart _ used _ (List.mem_cons_of_mem _ (List.mem_map_of_mem hd)) rfl

/-- The element of a node is taken out and its place is given back. -/
theorem release_eq {place : Nat} {n : Node α} {value : α} (found : l.nodes[place]? = some n)
    (filled : n.value = some value) (counted : l.count ≠ 0) :
    l.release place =
      .ok (value,
        { l with
          nodes := l.nodes.setIfInBounds place ⟨0, none⟩
          free := place :: l.free
          count := l.count - 1 }) := by
  have inside : place < l.nodes.size := (Array.getElem?_eq_some_iff.1 found).1
  have node : l.node place = .ok n := by rw [Linked.node, found]
  rw [release, node]
  simp [putNode, inside, filled, counted, bind, Except.bind]

/-- A node is taken out in three steps: the node before it is tied to the one after it, the node
after it to the one before it, and its element is taken out. -/
theorem unlink_eq (l : Linked α) (place before after : Nat) :
    l.unlink place before after =
      (if before = 0 then .ok { l with head := after } else l.relink before (place ^^^ after)) >>=
        fun l =>
          (if after = 0 then .ok { l with tail := before }
            else l.relink after (place ^^^ before)) >>=
            fun l => l.release place := by
  rw [Linked.unlink]
  by_cases hb : before = 0 <;> by_cases ha : after = 0 <;> simp [hb, ha, bind, Except.bind]

/-- The neighbours of a cell are tied to each other, after which the cell is taken out of its
node. -/
theorem exists_bypassed {xs ys : List (Nat × α)} {c : Nat × α} (h : l.Holds (xs ++ c :: ys)) :
    ∃ nodes, Stretch nodes 0 (xs ++ ys) 0 ∧ nodes.size = l.nodes.size ∧
      (∀ place ∉ (xs ++ ys).map Prod.fst, nodes[place]? = l.nodes[place]?) ∧
      l.unlink c.1 (firstPlace 0 xs.reverse) (firstPlace 0 ys) =
        Linked.release
          { l with
            nodes := nodes
            head := firstPlace 0 (xs ++ ys)
            tail := firstPlace 0 (xs ++ ys).reverse } c.1 := by
  obtain ⟨left, -, right⟩ := h.split
  obtain ⟨xs_nodup, ys_nodup, -, -, apart⟩ := h.nodup_split
  have used : 0 ∉ xs.map Prod.fst ∧ 0 ∉ ys.map Prod.fst := by
    have := h.zero_not_mem
    simp only [List.map_append, List.map_cons, List.mem_append, List.mem_cons, not_or] at this
    exact ⟨this.1.1, this.1.2.2⟩
  -- the cells before it are tied first, and those after it in the nodes that this leaves
  obtain ⟨n₁, tied₁, left₁, size₁, same₁⟩ := retie_head (firstPlace 0 ys) left xs_nodup
    used.1 (by rw [h.head, firstPlace_append, firstPlace_cons])
  have right₁ : Stretch n₁ c.1 ys 0 := right.congr fun d hd => same₁ _ (apart d hd)
  have tail : l.tail = firstPlace c.1 ys.reverse := by
    rw [h.tail, List.reverse_append, List.reverse_cons, List.append_assoc, firstPlace_append]
    rfl
  obtain ⟨n₂, tied₂, right₂, size₂, same₂⟩ := retie_tail
    (l := { l with nodes := n₁, head := firstPlace (firstPlace 0 ys) xs })
    (firstPlace 0 xs.reverse) right₁ ys_nodup used.2 tail
  refine ⟨n₂, ?_, size₂.trans size₁, fun place fresh => ?_, ?_⟩
  · rw [stretch_append]
    refine ⟨left₁.congr fun d hd => same₂ _ fun other => ?_, right₂⟩
    obtain ⟨e, he, same⟩ := List.mem_map.1 other
    exact apart e he (same ▸ List.mem_map_of_mem hd)
  · rw [List.map_append, List.mem_append, not_or] at fresh
    exact (same₂ place fresh.2).trans (same₁ place fresh.1)
  · rw [unlink_eq, tied₁, firstPlace_append, List.reverse_append, firstPlace_append]
    exact congrArg (· >>= fun l => l.release c.1) tied₂

/-- A cell is taken out from between its neighbours. -/
theorem unlink {xs ys : List (Nat × α)} {c : Nat × α} (h : l.Holds (xs ++ c :: ys)) :
    ∃ l', l.unlink c.1 (firstPlace 0 xs.reverse) (firstPlace 0 ys) = .ok (c.2, l') ∧
      l'.Holds (xs ++ ys) := by
  obtain ⟨-, middle, -⟩ := h.split
  obtain ⟨-, -, not_left, not_right, -⟩ := h.nodup_split
  have inside : c.1 < l.nodes.size := (Array.getElem?_eq_some_iff.1 middle).1
  have fresh : c.1 ∉ (xs ++ ys).map Prod.fst := by
    rw [List.map_append, List.mem_append, not_or]
    exact ⟨not_left, not_right⟩
  obtain ⟨nodes, stretch, size, same, unlinked⟩ := h.exists_bypassed
  have found := (same c.1 fresh).trans middle
  refine ⟨_, unlinked.trans (release_eq found rfl (by simp [h.count])), ?_, rfl, rfl, ?_, ?_, ?_⟩
  · refine stretch.congr fun d hd => Array.getElem?_setIfInBounds_ne fun same => fresh ?_
    exact same ▸ List.mem_map_of_mem hd
  · rw [Array.size_setIfInBounds, size]
    refine List.Perm.trans ?_ h.places
    simp only [List.map_append, List.map_cons, List.append_assoc, List.cons_append]
    exact List.perm_middle.append_left _
  · -- what has no element now is the place of the cell, or had none before
    intro place vacant
    rw [Array.getElem?_setIfInBounds]
    split
    · rw [if_pos (size ▸ inside)]
    · next other =>
      have free : place ∈ 0 :: l.free := by
        simp only [List.mem_cons] at vacant ⊢
        exact vacant.imp_right fun vacant => vacant.resolve_left (Ne.symm other)
      have unused := h.not_mem_of_vacant free
      rw [same place, h.vacant place free]
      intro used
      apply unused
      simp only [List.map_append, List.map_cons, List.mem_append, List.mem_cons] at used ⊢
      exact used.imp_right .inr
  · simp [h.count]

/-! ## Adding at the front -/

/-- An element is stored in a node that was free or is new. -/
theorem exists_allocated (h : l.Holds cells) (value : α) (link : Nat) :
    ∃ place nodes free,
      l.allocate value link = .ok (place, { l with nodes := nodes, free := free }) ∧
      place ∉ cells.map Prod.fst ∧ nodes[place]? = some ⟨link, some value⟩ ∧
      (∀ other, other ≠ place → other < l.nodes.size → nodes[other]? = l.nodes[other]?) ∧
      (place :: (cells.map Prod.fst ++ free)).Perm (List.range' 1 (nodes.size - 1)) ∧
      ∀ other ∈ 0 :: free, other ∈ 0 :: l.free ∧ other ≠ place := by
  have size := h.size_pos
  cases free : l.free with
  | nil =>
      -- the arena grows by one node
      refine ⟨l.nodes.size, l.nodes.push ⟨link, some value⟩, [], ?_, ?_, ?_, ?_, ?_, ?_⟩
      · rw [allocate, free]
      · intro used
        have := h.mem_places.1 (List.mem_append_left _ used)
        omega
      · rw [Array.getElem?_push, if_pos rfl]
      · intro other _ inside
        rw [Array.getElem?_push, if_neg (by omega)]
      · have places := h.places
        rw [free, List.append_nil] at places
        rw [Array.size_push, List.append_nil, Nat.add_sub_cancel]
        have range : List.range' 1 l.nodes.size =
            List.range' 1 (l.nodes.size - 1) ++ [l.nodes.size] := by
          conv_lhs => rw [show l.nodes.size = l.nodes.size - 1 + 1 by omega, List.range'_concat]
          rw [show 1 + 1 * (l.nodes.size - 1) = l.nodes.size by omega]
        rw [range]
        exact (places.cons _).trans (List.perm_append_singleton _ _).symm
      · intro other zero
        rw [List.mem_singleton] at zero
        subst zero
        exact ⟨List.mem_cons_self, by omega⟩
  | cons place free' =>
      have mem : place ∈ l.free := by rw [free]; exact List.mem_cons_self
      have inside := (h.mem_places.1 (List.mem_append_right _ mem))
      refine ⟨place, l.nodes.setIfInBounds place ⟨link, some value⟩, free', ?_,
        h.not_mem_of_free mem, ?_, ?_, ?_, ?_⟩
      · rw [allocate, free]
        simp [putNode, inside.2, bind, Except.bind]
      · rw [Array.getElem?_setIfInBounds_self_of_lt inside.2]
      · intro other ne _
        exact Array.getElem?_setIfInBounds_ne (Ne.symm ne)
      · rw [Array.size_setIfInBounds]
        refine List.Perm.trans ?_ h.places
        rw [free]
        exact List.perm_middle.symm
      · intro other other_mem
        have distinct := (List.nodup_append.1 h.nodup).2.1
        rw [free, List.nodup_cons] at distinct
        rcases List.mem_cons.1 other_mem with rfl | other_mem
        · exact ⟨List.mem_cons_self, by omega⟩
        · refine ⟨List.mem_cons_of_mem _ (List.mem_cons_of_mem _ other_mem), ?_⟩
          rintro rfl
          exact distinct.1 other_mem

/-- An element is added in two steps: its node is linked to the old head, and the old head to it. -/
theorem pushFront_eq (value : α) (l : Linked α) :
    l.pushFront value = l.allocate value l.head >>= fun r =>
      (if l.head = 0 then .ok { r.2 with tail := r.1 } else r.2.relink l.head r.1) >>= fun l =>
        .ok { l with head := r.1, count := l.count + 1 } := by
  rw [Linked.pushFront]
  by_cases empty : l.head = 0 <;> simp [empty, bind, Except.bind]

/-- What is added at the front becomes the first cell. -/
theorem pushFront (h : l.Holds cells) (value : α) :
    ∃ place l', l.pushFront value = .ok l' ∧ l'.Holds ((place, value) :: cells) := by
  obtain ⟨place, nodes, free, allocated, fresh, found, same, places, vacant⟩ :=
    h.exists_allocated value l.head
  have inside : ∀ c ∈ cells, c.1 < l.nodes.size := fun c hc =>
    (h.mem_places.1 (List.mem_append_left _ (List.mem_map_of_mem hc))).2
  have stretch : Stretch nodes 0 cells 0 := h.stretch.congr fun c hc =>
    same _ (fun equal => fresh (equal ▸ List.mem_map_of_mem hc)) (inside c hc)
  have distinct := List.nodup_append.1 h.nodup
  obtain ⟨nodes', tied, stretch', size', same'⟩ := retie_tail
    (l := { l with nodes := nodes, free := free }) place stretch distinct.1
    (fun used => h.zero_not_mem (List.mem_append_left _ used)) h.tail
  refine ⟨place, { l with
    nodes := nodes', free := free, head := place, tail := firstPlace place cells.reverse,
    count := l.count + 1 }, ?_, ⟨?_, stretch'⟩, rfl, ?_, ?_, ?_, ?_⟩
  · rw [Nat.zero_xor, ← h.head] at tied
    rw [pushFront_eq, allocated]
    exact congrArg
      (· >>= fun l : Linked α => Except.ok { l with head := place, count := l.count + 1 }) tied
  · rw [same' place fresh, Nat.zero_xor, ← h.head]
    exact found
  · rw [List.reverse_cons, firstPlace_append]
    rfl
  · rw [size']
    exact places
  · intro other other_vacant
    obtain ⟨old, ne⟩ := vacant other other_vacant
    have was := h.vacant other old
    rw [same' other (h.not_mem_of_vacant old), ← was]
    exact same other ne (Array.getElem?_eq_some_iff.1 was).1
  · simp [h.count]

/-! ## Adding at the back -/

theorem flip_putNode (l : Linked α) (place : Nat) (n : Node α) :
    l.flip.putNode place n = (l.putNode place n).map flip := by
  rw [putNode, putNode]
  show (if place < l.nodes.size then _ else _) = _
  split <;> rfl

theorem flip_relink (l : Linked α) (place change : Nat) :
    l.flip.relink place change = (l.relink place change).map flip := by
  rw [relink, relink, show l.flip.node place = l.node place from rfl]
  cases l.node place with
  | error f => rfl
  | ok n => exact flip_putNode l place _

theorem flip_allocate (l : Linked α) (value : α) (link : Nat) :
    l.flip.allocate value link =
      (l.allocate value link).map fun r => (r.1, r.2.flip) := by
  rw [allocate, allocate, show l.flip.free = l.free from rfl]
  cases l.free with
  | nil => rfl
  | cons place free =>
      have put := flip_putNode { l with free := free } place ⟨link, some value⟩
      simp only [bind, Except.bind]
      rw [show ({ l.flip with free := free } : Linked α) = ({ l with free := free }).flip from rfl,
        put]
      cases putNode { l with free := free } place ⟨link, some value⟩ <;> rfl

/-- What is done at the back is what is done at the front of the arena read backwards. -/
theorem pushBack_eq (value : α) (l : Linked α) :
    l.pushBack value = (l.flip.pushFront value).map flip := by
  rw [pushFront_eq, flip_allocate, Linked.pushBack, show l.flip.head = l.tail from rfl]
  cases l.allocate value l.tail with
  | error f => rfl
  | ok r =>
      by_cases empty : l.tail = 0
      · simp only [bind, Except.bind, Except.map, if_pos empty]
        rfl
      · simp only [bind, Except.bind, Except.map, if_neg empty, flip_relink]
        cases r.2.relink l.tail r.1 <;> rfl

/-- An arena read backwards holds the same cells backwards. -/
theorem flip (h : l.Holds cells) : l.flip.Holds cells.reverse where
  stretch := h.stretch.reverse
  head := h.tail
  tail := by
    rw [List.reverse_reverse]
    exact h.head
  places := by
    rw [List.map_reverse]
    exact ((List.reverse_perm _).append_right _).trans h.places
  vacant := h.vacant
  count := by
    rw [List.length_reverse]
    exact h.count

/-- What is added at the back becomes the last cell. -/
theorem pushBack (h : l.Holds cells) (value : α) :
    ∃ place l', l.pushBack value = .ok l' ∧ l'.Holds (cells ++ [(place, value)]) := by
  obtain ⟨place, l', pushed, holds⟩ := h.flip.pushFront value
  refine ⟨place, l'.flip, ?_, ?_⟩
  · rw [pushBack_eq, pushed]
    rfl
  · have back := holds.flip
    rwa [List.reverse_cons, List.reverse_reverse] at back

/-! ## Taking from the ends -/

/-- What is taken at the front is the first cell. -/
theorem popFront (h : l.Holds cells) :
    ∃ l', l.popFront = .ok (cells.head?.map Prod.snd, l') ∧ l'.Holds cells.tail := by
  cases cells with
  | nil => exact ⟨l, by rw [Linked.popFront, if_pos (show l.head = 0 from h.head)]; rfl, h⟩
  | cons c ys =>
      have used : l.head ≠ 0 := by
        rw [h.head, firstPlace_cons]
        exact fun zero => h.zero_not_mem (by simp [← zero])
      have first : l.Holds ([] ++ c :: ys) := h
      obtain ⟨-, middle, -⟩ := first.split
      obtain ⟨l', unlinked, holds⟩ := first.unlink
      refine ⟨l', ?_, holds⟩
      rw [← firstPlace_cons 0 c ys, ← h.head] at middle unlinked
      rw [Linked.popFront, if_neg used, node, middle]
      simp only [bind, Except.bind, List.reverse_nil, firstPlace_nil, Nat.zero_xor] at unlinked ⊢
      rw [unlinked]
      rfl

/-- The last cell stands at the tail. -/
theorem last (h : l.Holds cells) {xs : List (Nat × α)} {c : Nat × α} (at_end : cells = xs ++ [c]) :
    l.tail = c.1 ∧ l.tail ≠ 0 ∧ l.nodes[c.1]? = some ⟨firstPlace 0 xs.reverse, some c.2⟩ := by
  subst at_end
  have tail : l.tail = c.1 := by rw [h.tail, List.reverse_append]; rfl
  obtain ⟨-, middle, -⟩ := h.split
  rw [firstPlace_nil, Nat.xor_zero] at middle
  refine ⟨tail, ?_, middle⟩
  rw [tail]
  exact fun zero => h.zero_not_mem (by simp [← zero])

/-- What is taken at the back is the last cell. -/
theorem popBack (h : l.Holds cells) :
    ∃ l', l.popBack = .ok (cells.getLast?.map Prod.snd, l') ∧ l'.Holds cells.dropLast := by
  rcases List.eq_nil_or_concat cells with rfl | ⟨xs, c, rfl⟩
  · exact ⟨l, by rw [Linked.popBack, if_pos (show l.tail = 0 from h.tail)]; rfl, h⟩
  · rw [List.concat_eq_append] at h ⊢
    obtain ⟨tail, used, found⟩ := h.last rfl
    obtain ⟨l', unlinked, holds⟩ := h.unlink
    rw [List.append_nil] at holds
    refine ⟨l', ?_, by rwa [List.dropLast_concat]⟩
    rw [Linked.popBack, if_neg used, node, tail, found, List.getLast?_concat]
    simp only [bind, Except.bind]
    rw [firstPlace_nil] at unlinked
    rw [unlinked]
    rfl

/-- What is seen at the back is the last cell. -/
theorem back (h : l.Holds cells) : l.back = .ok (cells.getLast?.map Prod.snd) := by
  rcases List.eq_nil_or_concat cells with rfl | ⟨xs, c, rfl⟩
  · rw [Linked.back, if_pos (show l.tail = 0 from h.tail)]
    rfl
  · rw [List.concat_eq_append] at h ⊢
    obtain ⟨tail, used, found⟩ := h.last rfl
    rw [Linked.back, if_neg used, node, tail, found, List.getLast?_concat]
    rfl

/-! ## Walks -/

/-- A walk along a stretch meets its elements in order. -/
theorem elementsFrom_eq {before : Nat} (fuel : Nat) (stretch : Stretch l.nodes before cells 0)
    (used : 0 ∉ cells.map Prod.fst) (enough : cells.length ≤ fuel) :
    l.elementsFrom fuel before (firstPlace 0 cells) = .ok (cells.map Prod.snd) := by
  induction cells generalizing before fuel with
  | nil => cases fuel <;> rfl
  | cons c cells ih =>
      obtain ⟨fuel, rfl⟩ : ∃ n, fuel = n + 1 := ⟨fuel - 1, by simp at enough; omega⟩
      obtain ⟨place, hplace⟩ : ∃ n, c.1 = n + 1 :=
        Nat.exists_eq_succ_of_ne_zero fun zero => used (by simp [← zero])
      have rest := ih fuel stretch.2 (fun mem => used (List.mem_cons_of_mem _ mem))
        (by simpa using enough)
      rw [firstPlace_cons, hplace, elementsFrom, ← hplace, node, stretch.1]
      · simp only [bind, Except.bind]
        rw [Nat.xor_comm before, Nat.xor_assoc, Nat.xor_self, Nat.xor_zero, rest]
        rfl
      · exact Nat.succ_ne_zero place

/-- The elements are those of the cells, in order. -/
theorem elements_eq (h : l.Holds cells) : l.elements = .ok (cells.map Prod.snd) := by
  rw [elements, h.head]
  refine elementsFrom_eq _ h.stretch (fun used => h.zero_not_mem (List.mem_append_left _ used)) ?_
  have length := h.places.length_eq
  rw [List.length_append, List.length_map, List.length_range'] at length
  omega

/-- One visit of a search that has come to a node. -/
theorem removeFrom_visit (p : Visitor σ α) {fuel after place link : Nat} {x : α} (s : σ)
    (used : place ≠ 0) (found : l.nodes[place]? = some ⟨link, some x⟩) :
    removeFrom p (fuel + 1) s after place l =
      if (p s x).1 then
        (l.unlink place (link ^^^ after) after).map fun r => ⟨some r.1, r.2, (p s x).2⟩
      else removeFrom p fuel (p s x).2 place (link ^^^ after) l := by
  obtain ⟨n, rfl⟩ := Nat.exists_eq_succ_of_ne_zero used
  rw [Linked.removeFrom, node, found]
  · simp only [bind, Except.bind]
    split
    · cases l.unlink (n + 1) (link ^^^ after) after <;> rfl
    · rfl
  · exact used

/-- A search from the back, `zs` being the cells that are left in the order of the visits, takes out
what a search of their elements does. -/
theorem removeFrom (p : Visitor σ α) {zs ys : List (Nat × α)} (h : l.Holds (zs.reverse ++ ys))
    (fuel : Nat) (enough : zs.length ≤ fuel) (s : σ) :
    ∃ l' kept,
      removeFrom p fuel s (firstPlace 0 ys) (firstPlace 0 zs) l =
        .ok ⟨(Flat.extract p s (zs.map Prod.snd)).removed, l',
          (Flat.extract p s (zs.map Prod.snd)).memory⟩ ∧
      l'.Holds kept ∧
      kept.map Prod.snd = (Flat.extract p s (zs.map Prod.snd)).kept.reverse ++ ys.map Prod.snd := by
  -- the cells that have been passed are collected in `ys`
  induction zs generalizing ys fuel s with
  | nil => exact ⟨l, ys, by cases fuel <;> rfl, h, rfl⟩
  | cons c zs ih =>
      obtain ⟨fuel, rfl⟩ : ∃ n, fuel = n + 1 := ⟨fuel - 1, by simp at enough; omega⟩
      rw [List.reverse_cons, List.append_assoc, List.singleton_append] at h
      obtain ⟨-, found, -⟩ := h.split
      rw [List.reverse_reverse] at found
      have used : c.1 ≠ 0 := fun zero => h.zero_not_mem (by simp [← zero])
      have link : (firstPlace 0 zs ^^^ firstPlace 0 ys) ^^^ firstPlace 0 ys = firstPlace 0 zs := by
        rw [Nat.xor_assoc, Nat.xor_self, Nat.xor_zero]
      rw [firstPlace_cons, removeFrom_visit p s used found, link, List.map_cons, Flat.extract]
      by_cases hit : (p s c.2).1
      · obtain ⟨l', unlinked, holds⟩ := h.unlink
        rw [List.reverse_reverse] at unlinked
        refine ⟨l', _, ?_, holds, ?_⟩
        · rw [if_pos hit, if_pos hit, unlinked]
          rfl
        · rw [if_pos hit, List.map_append, List.map_reverse]
      · obtain ⟨l', kept, removed, holds, same⟩ :=
          ih h fuel (by simpa using enough) (p s c.2).2
        rw [firstPlace_cons] at removed
        refine ⟨l', kept, ?_, holds, ?_⟩
        · rw [if_neg hit, if_neg hit, removed]
        · rw [if_neg hit, same]
          simp

/-- A search from the back takes out what it does in a list. -/
theorem removeLast (h : l.Holds cells) (p : Visitor σ α) (s : σ) :
    ∃ l' kept,
      l.removeLast p s =
        .ok ⟨(Flat.removeLast p s (cells.map Prod.snd)).removed, l',
          (Flat.removeLast p s (cells.map Prod.snd)).memory⟩ ∧
      l'.Holds kept ∧ kept.map Prod.snd = (Flat.removeLast p s (cells.map Prod.snd)).kept := by
  have length := h.places.length_eq
  rw [List.length_append, List.length_map, List.length_range'] at length
  have whole : l.Holds (cells.reverse.reverse ++ []) := by simpa using h
  obtain ⟨l', kept, removed, holds, same⟩ := removeFrom p whole l.nodes.size
    (by simp; omega) s
  refine ⟨l', kept, ?_, holds, ?_⟩
  · rw [Linked.removeLast, h.tail, Flat.removeLast, ← List.map_reverse]
    exact removed
  · rw [same, Flat.removeLast, ← List.map_reverse, List.map_nil, List.append_nil]

/-- One visit of a removal of elements that has come to a node. -/
theorem eraseFrom_visit (p : Visitor σ α) {fuel after place link : Nat} {x : α} (s : σ)
    (used : place ≠ 0) (found : l.nodes[place]? = some ⟨link, some x⟩) :
    eraseFrom p (fuel + 1) s after place l =
      if (p s x).1 then
        l.unlink place (link ^^^ after) after >>= fun u =>
          (eraseFrom p fuel (p s x).2 after (link ^^^ after) u.2).map fun r =>
            { r with removed := u.1 :: r.removed }
      else eraseFrom p fuel (p s x).2 place (link ^^^ after) l := by
  obtain ⟨n, rfl⟩ := Nat.exists_eq_succ_of_ne_zero used
  rw [Linked.eraseFrom, node, found]
  · simp only [bind, Except.bind]
    split
    · cases l.unlink (n + 1) (link ^^^ after) after with
      | error f => rfl
      | ok u => cases eraseFrom p fuel (p s x).2 after (link ^^^ after) u.2 <;> rfl
    · rfl
  · exact used

/-- A removal of elements, `zs` being the cells that are left in the order of the visits, takes out
what it does in a list of their elements. -/
theorem eraseFrom (p : Visitor σ α) {zs ys : List (Nat × α)} (h : l.Holds (zs.reverse ++ ys))
    (fuel : Nat) (enough : zs.length ≤ fuel) (s : σ) :
    ∃ l' kept,
      eraseFrom p fuel s (firstPlace 0 ys) (firstPlace 0 zs) l =
        .ok ⟨(Flat.separate p s (zs.map Prod.snd)).removed, l',
          (Flat.separate p s (zs.map Prod.snd)).memory⟩ ∧
      l'.Holds kept ∧
      kept.map Prod.snd =
        (Flat.separate p s (zs.map Prod.snd)).kept.reverse ++ ys.map Prod.snd := by
  -- the cells that have been passed and kept are collected in `ys`
  induction zs generalizing l ys fuel s with
  | nil => exact ⟨l, ys, by cases fuel <;> rfl, h, rfl⟩
  | cons c zs ih =>
      obtain ⟨fuel, rfl⟩ : ∃ n, fuel = n + 1 := ⟨fuel - 1, by simp at enough; omega⟩
      rw [List.reverse_cons, List.append_assoc, List.singleton_append] at h
      obtain ⟨-, found, -⟩ := h.split
      rw [List.reverse_reverse] at found
      have used : c.1 ≠ 0 := fun zero => h.zero_not_mem (by simp [← zero])
      have link : (firstPlace 0 zs ^^^ firstPlace 0 ys) ^^^ firstPlace 0 ys = firstPlace 0 zs := by
        rw [Nat.xor_assoc, Nat.xor_self, Nat.xor_zero]
      rw [firstPlace_cons, eraseFrom_visit p s used found, link, List.map_cons, Flat.separate]
      by_cases hit : (p s c.2).1
      · -- the walk goes on in the arena that is left, with the same neighbour behind it
        obtain ⟨l₁, unlinked, holds⟩ := h.unlink
        rw [List.reverse_reverse] at unlinked
        obtain ⟨l', kept, erased, holds', same⟩ :=
          ih holds fuel (by simpa using enough) (p s c.2).2
        refine ⟨l', kept, ?_, holds', ?_⟩
        · rw [if_pos hit, if_pos hit, unlinked]
          simp only [bind, Except.bind]
          rw [erased]
          rfl
        · rw [if_pos hit, same]
      · obtain ⟨l', kept, erased, holds, same⟩ :=
          ih h fuel (by simpa using enough) (p s c.2).2
        rw [firstPlace_cons] at erased
        refine ⟨l', kept, ?_, holds, ?_⟩
        · rw [if_neg hit, if_neg hit, erased]
        · rw [if_neg hit, same]
          simp

/-- A removal of elements takes out what it does in a list. -/
theorem eraseIf (h : l.Holds cells) (p : Visitor σ α) (s : σ) :
    ∃ l' kept,
      l.eraseIf p s =
        .ok ⟨(Flat.eraseIf p s (cells.map Prod.snd)).removed, l',
          (Flat.eraseIf p s (cells.map Prod.snd)).memory⟩ ∧
      l'.Holds kept ∧ kept.map Prod.snd = (Flat.eraseIf p s (cells.map Prod.snd)).kept := by
  have length := h.places.length_eq
  rw [List.length_append, List.length_map, List.length_range'] at length
  have whole : l.Holds (cells.reverse.reverse ++ []) := by simpa using h
  obtain ⟨l', kept, erased, holds, same⟩ := eraseFrom p whole l.nodes.size
    (by simp; omega) s
  refine ⟨l', kept, ?_, holds, ?_⟩
  · rw [Linked.eraseIf, h.tail, Flat.eraseIf, ← List.map_reverse]
    exact erased
  · rw [same, Flat.eraseIf, ← List.map_reverse, List.map_nil, List.append_nil]

end Holds

end AccessOrder.Sequence.Linked
