/- # What is in the lanes of a queue

The items in the lanes of a queue, in the order in which the owner would take them.  The three
operations on sound lanes never fail; whatever the strategy, an item added is one more item, an
item taken is one item less, and nothing else is gained or lost.

* `Sound.push`, `Sound.pop`, `Sound.steal` : what each operation does to the items;
* `Sound.pop_of_nil`, `Sound.steal_of_nil` : lanes without items are left as they are.
-/
import AccessOrder.Queue.Shared
import AccessOrder.Proofs.Sequence.Contents
namespace AccessOrder.Queue.Lanes

variable {τ : Type}

/-- The items in the order in which the owner would take them. -/
def contents : Lanes τ → List τ
  | .plain items | .pinned items => items.contents
  | .priority high normal => high.contents ++ normal.contents

/-- Lanes whose sequences are sound. -/
def Sound : Lanes τ → Prop
  | .plain items | .pinned items => items.Sound
  | .priority high normal => high.Sound ∧ normal.Sound

/-- Empty lanes are sound. -/
theorem sound_empty (s : Strategy) (b : Sequence.Backing) : (empty s b : Lanes τ).Sound := by
  cases s with
  | plain => exact Sequence.sound_empty b
  | priority => exact ⟨Sequence.sound_empty b, Sequence.sound_empty b⟩
  | pinned => exact Sequence.sound_empty b

/-- Empty lanes have no items. -/
@[simp] theorem contents_empty (s : Strategy) (b : Sequence.Backing) :
    (empty s b : Lanes τ).contents = [] := by
  cases s <;> simp [empty, contents]

/-- The first item and the others make up a list. -/
theorem head_tail (items : List τ) : items.head?.toList ++ items.tail = items := by
  cases items <;> rfl

/-- The last item and the others make up a list. -/
theorem last_init_perm (items : List τ) : (items.getLast?.toList ++ items.dropLast).Perm items := by
  rcases List.eq_nil_or_concat items with rfl | ⟨init, x, rfl⟩
  · exact .refl _
  · rw [List.concat_eq_append, List.getLast?_concat, List.dropLast_concat]
    exact List.perm_append_comm

namespace Sound

variable {l : Lanes τ}

/-- The size is the number of items. -/
theorem size_eq (h : l.Sound) : l.size = l.contents.length := by
  cases l with
  | plain items => exact Sequence.Sound.size_eq h
  | priority high normal =>
      rw [size, contents, List.length_append, h.1.size_eq, h.2.size_eq]
  | pinned items => exact Sequence.Sound.size_eq h

/-- Adding an item makes one item more. -/
theorem push [Queueable τ] (h : l.Sound) (t : τ) :
    ∃ l', l.push t = .ok l' ∧ l'.Sound ∧ l'.contents.Perm (t :: l.contents) := by
  cases l with
  | plain items =>
      obtain ⟨s, pushed, sound, same⟩ := Sequence.Sound.pushFront h t
      exact ⟨.plain s, by rw [Lanes.push, pushed]; rfl, sound, by rw [contents, same]; rfl⟩
  | priority high normal =>
      cases p : Queueable.priority t with
      | normal =>
          obtain ⟨s, pushed, sound, same⟩ := h.2.pushFront t
          refine ⟨.priority high s, ?_, ⟨h.1, sound⟩, ?_⟩
          · simp only [Lanes.push, p, pushed]
            rfl
          · rw [contents, same]
            exact List.perm_middle
      | high =>
          obtain ⟨s, pushed, sound, same⟩ := h.1.pushFront t
          refine ⟨.priority s normal, ?_, ⟨sound, h.2⟩, ?_⟩
          · simp only [Lanes.push, p, pushed]
            rfl
          · rw [contents, same]
            exact .refl _
  | pinned items =>
      obtain ⟨s, pushed, sound, same⟩ := Sequence.Sound.pushFront h t
      exact ⟨.pinned s, by rw [Lanes.push, pushed]; rfl, sound, by rw [contents, same]; rfl⟩

/-- The owner takes an item unless there is none. -/
theorem pop (h : l.Sound) :
    ∃ x l', l.pop = .ok (x, l') ∧ l'.Sound ∧ l.contents = x.toList ++ l'.contents ∧
      (x = none → l.contents = []) := by
  have taken : ∀ {items rest : List τ}, rest = items.tail →
      items = items.head?.toList ++ rest := fun same => by rw [same, head_tail]
  cases l with
  | plain items =>
      obtain ⟨s, popped, sound, same⟩ := Sequence.Sound.popFront h
      exact ⟨_, .plain s, by rw [Lanes.pop, popped]; rfl, sound, taken same,
        List.head?_eq_none_iff.1⟩
  | priority high normal =>
      obtain ⟨s, popped, sound, same⟩ := h.1.popFront
      cases first : high.contents with
      | nil =>
          obtain ⟨s', popped', sound', same'⟩ := h.2.popFront
          rw [first] at popped same
          refine ⟨normal.contents.head?, .priority s s', ?_, ⟨sound, sound'⟩, ?_, ?_⟩
          · simp only [Lanes.pop, popped, popped', bind, Except.bind, List.head?_nil]
          · rw [contents, contents, first, same]
            exact taken same'
          · rw [contents, first, List.nil_append]
            exact List.head?_eq_none_iff.1
      | cons t rest =>
          rw [first] at popped same
          refine ⟨some t, .priority s normal, ?_, ⟨sound, h.2⟩, ?_, by simp⟩
          · simp only [Lanes.pop, popped, bind, Except.bind, List.head?_cons]
          · rw [contents, contents, first, same]
            rfl
  | pinned items =>
      obtain ⟨s, popped, sound, same⟩ := Sequence.Sound.popFront h
      exact ⟨_, .pinned s, by rw [Lanes.pop, popped]; rfl, sound, taken same,
        List.head?_eq_none_iff.1⟩

/-- A thief takes the last item of a sequence, and only if it is not pinned. -/
theorem popStealable [Queueable τ] {s : Sequence τ} (h : s.Sound) :
    ∃ x s', Lanes.popStealable s = .ok (x, s') ∧ s'.Sound ∧
      s.contents.Perm (x.toList ++ s'.contents) ∧ ∀ t ∈ x, stealable t = true := by
  have seen := h.back
  cases last : s.contents.getLast? with
  | none =>
      refine ⟨none, s, ?_, h, .refl _, by simp⟩
      simp only [Lanes.popStealable, seen, last, bind, Except.bind]
  | some t =>
      by_cases free : stealable t = true
      · obtain ⟨s', popped, sound, same⟩ := h.popBack
        refine ⟨some t, s', ?_, sound, ?_, by simpa using free⟩
        · simp only [Lanes.popStealable, seen, last, bind, Except.bind, free, if_true]
          rw [popped, last]
        · rw [same, ← last]
          exact (last_init_perm _).symm
      · refine ⟨none, s, ?_, h, .refl _, by simp⟩
        simp only [Lanes.popStealable, seen, last, bind, Except.bind]
        rw [if_neg free]

/-- What is found by a search passes the test. -/
theorem extract_passes {p : τ → Bool} (items : List τ) :
    ∀ t ∈ (Sequence.Flat.extract (fun () t => (p t, ())) () items).removed, p t = true := by
  induction items with
  | nil => simp [Sequence.Flat.extract]
  | cons x items ih =>
      by_cases hit : p x = true
      · simp [Sequence.Flat.extract, hit]
      · simpa [Sequence.Flat.extract, hit] using ih

/-- A thief takes at most one item, and none that is pinned. -/
theorem steal [Queueable τ] (h : l.Sound) :
    ∃ x l', l.steal = .ok (x, l') ∧ l'.Sound ∧ l.contents.Perm (x.toList ++ l'.contents) ∧
      ∀ t ∈ x, stealable t = true := by
  cases l with
  | plain items =>
      obtain ⟨x, s, stolen, sound, same, free⟩ := popStealable (s := items) h
      exact ⟨x, .plain s, by rw [Lanes.steal, stolen]; rfl, sound, same, free⟩
  | priority high normal =>
      obtain ⟨x, s, stolen, sound, same, free⟩ := popStealable h.1
      cases x with
      | none =>
          obtain ⟨y, s', stolen', sound', same', free'⟩ := popStealable h.2
          refine ⟨y, .priority s s', ?_, ⟨sound, sound'⟩, ?_, free'⟩
          · simp only [Lanes.steal, stolen, stolen', bind, Except.bind]
          · exact (same.append same').trans (List.perm_append_comm_assoc _ _ _)
      | some t =>
          refine ⟨some t, .priority s normal, ?_, ⟨sound, h.2⟩, ?_, free⟩
          · simp only [Lanes.steal, stolen, bind, Except.bind]
          · exact same.append_right _
  | pinned items =>
      obtain ⟨s, removed, sound, same⟩ :=
        Sequence.Sound.removeLast (s := items) h (fun () t => (stealable t, ())) ()
      refine ⟨_, .pinned s, by rw [Lanes.steal, removed]; rfl, sound, ?_, extract_passes _⟩
      rw [contents, contents, same]
      exact (Sequence.Flat.removeLast_perm _ _ _).symm

/-! ## Nothing to take -/

/-- The owner leaves lanes without items as they are. -/
theorem pop_of_nil (h : l.Sound) (none_left : l.contents = []) : l.pop = .ok (none, l) := by
  cases l with
  | plain items =>
      rw [Lanes.pop, Sequence.Sound.popFront_of_nil h none_left]
      rfl
  | priority high normal =>
      obtain ⟨no_high, no_normal⟩ := List.append_eq_nil_iff.1 none_left
      simp only [Lanes.pop, h.1.popFront_of_nil no_high, h.2.popFront_of_nil no_normal, bind,
        Except.bind]
  | pinned items =>
      rw [Lanes.pop, Sequence.Sound.popFront_of_nil h none_left]
      rfl

/-- There is no last item to look at in a sequence without items. -/
theorem popStealable_of_nil [Queueable τ] {s : Sequence τ} (h : s.Sound)
    (none_left : s.contents = []) : Lanes.popStealable s = .ok (none, s) := by
  simp only [Lanes.popStealable, h.back, none_left, List.getLast?_nil, bind, Except.bind]

/-- A thief leaves lanes without items as they are. -/
theorem steal_of_nil [Queueable τ] (h : l.Sound) (none_left : l.contents = []) :
    l.steal = .ok (none, l) := by
  cases l with
  | plain items =>
      rw [Lanes.steal, popStealable_of_nil (s := items) h none_left]
      rfl
  | priority high normal =>
      obtain ⟨no_high, no_normal⟩ := List.append_eq_nil_iff.1 none_left
      simp only [Lanes.steal, popStealable_of_nil h.1 no_high, popStealable_of_nil h.2 no_normal,
        bind, Except.bind]
  | pinned items =>
      rw [Lanes.steal, Sequence.Sound.removeLast_of_nil (s := items) h none_left]
      rfl

end Sound

end AccessOrder.Queue.Lanes
