/- # A queue that many threads use

Any number of threads add to one queue and take from it, each operation one atomic step at a time,
and the steps of the threads follow one another in any order.  `Runs` collects what happens to the
operations, the last event first.  An operation takes effect when it publishes a new length, or
when it reads a published length of zero; `effects` are these events, and `Plays` carries a list of
operations out undisturbed, one after the other.

* `Shared.Tidy.perform_eq` : what the holder of the lock does to the lanes is what the undisturbed
  operation does;
* `Plays.perm` : what undisturbed operations add is what they take and what is left;
* `Runs.cut` : up to every event of a run there is a run that ends with it.
-/
import AccessOrder.Proofs.Queue.Contents
namespace AccessOrder.Queue

variable {τ : Type}

/-! ## One operation after the other -/

/-- What an operation adds to a queue. -/
def Request.added : Request τ → List τ
  | .push t => [t]
  | .pop | .steal => []

/-- An operation that has taken effect. -/
structure Effect (τ : Type) where
  /-- The number by which the operation is told apart from all others. -/
  number : Nat
  request : Request τ
  result : Option τ

/-- What operations have added. -/
def added (es : List (Effect τ)) : List τ := es.flatMap (·.request.added)

/-- What operations have taken. -/
def taken (es : List (Effect τ)) : List τ := es.flatMap (·.result.toList)

variable [Queueable τ]

/-- The operations, the last one first, lead from one queue to another when they are carried out
undisturbed, and each has the result that it is said to have. -/
inductive Plays (q : Shared τ) : List (Effect τ) → Shared τ → Prop where
  | refl : Plays q [] q
  | effect {past : List (Effect τ)} {a b : Shared τ} {r : Request τ} {x : Option τ} (number : Nat) :
      Plays q past a → a.perform r = .ok (x, b) → Plays q (⟨number, r, x⟩ :: past) b

/-- Sound lanes can be changed as asked for, and stay sound. -/
theorem Lanes.Sound.apply {l : Lanes τ} (h : l.Sound) (r : Request τ) :
    ∃ x l', r.apply l = .ok (x, l') ∧ l'.Sound ∧
      (r.added ++ l.contents).Perm (x.toList ++ l'.contents) := by
  cases r with
  | push t =>
      obtain ⟨l', pushed, sound, same⟩ := h.push t
      exact ⟨none, l', by rw [Request.apply, pushed]; rfl, sound, same.symm⟩
  | pop =>
      obtain ⟨x, l', popped, sound, same, -⟩ := h.pop
      exact ⟨x, l', popped, sound, .of_eq same⟩
  | steal =>
      obtain ⟨x, l', stolen, sound, same, -⟩ := h.steal
      exact ⟨x, l', stolen, sound, same⟩

/-- Nothing is taken from lanes without items. -/
theorem Lanes.Sound.apply_of_nil {l : Lanes τ} (h : l.Sound) (none_left : l.contents = [])
    {r : Request τ} (taker : r.start = .measure r) : r.apply l = .ok (none, l) := by
  cases r with
  | push t => cases taker
  | pop => exact h.pop_of_nil none_left
  | steal => exact h.steal_of_nil none_left

namespace Shared

/-- A queue that nobody uses: its lock is free, and its published length is true. -/
structure Tidy (q : Shared τ) : Prop where
  free : q.held = false
  sound : q.lanes.Sound
  published : q.published = q.lanes.size

omit [Queueable τ] in
/-- A queue without items is tidy. -/
theorem tidy_empty (s : Strategy) (b : Sequence.Backing) : (empty s b : Shared τ).Tidy :=
  ⟨rfl, Lanes.sound_empty s b, (Lanes.size_empty s b).symm⟩

namespace Tidy

variable {q : Shared τ} {r : Request τ} {x : Option τ} {l : Lanes τ}

omit [Queueable τ] in
/-- The published length is the number of items. -/
theorem published_eq (h : q.Tidy) : q.published = q.lanes.contents.length :=
  h.published.trans h.sound.size_eq

omit [Queueable τ] in
/-- A tidy queue is told by its lanes. -/
theorem eq_of_lanes (h : q.Tidy) : q = ⟨q.lanes, q.lanes.size, false⟩ := by
  obtain ⟨lanes, published, held⟩ := q
  obtain ⟨free, -, same⟩ := h
  rw [Shared.mk.injEq]
  exact ⟨rfl, same, free⟩

/-- A taker leaves a queue alone that has published a length of zero. -/
theorem perform_of_missed (missed : q.published = 0) (taker : r.start = .measure r) :
    q.perform r = .ok (none, q) := by
  cases r with
  | push t => cases taker
  | pop => exact pop_eq_of_published_eq_zero missed
  | steal => exact steal_eq_of_published_eq_zero missed

/-- What the holder of the lock does to the lanes is what the undisturbed operation does. -/
theorem perform_eq (h : q.Tidy) (applied : r.apply q.lanes = .ok (x, l)) :
    q.perform r = .ok (x, ⟨l, l.size, false⟩) := by
  by_cases taker : r.start = .measure r ∧ q.published = 0
  · have none_left : q.lanes.contents = [] :=
      List.eq_nil_of_length_eq_zero (h.published_eq.symm.trans taker.2)
    rw [h.sound.apply_of_nil none_left taker.1] at applied
    obtain ⟨rfl, rfl⟩ := Prod.mk.inj (Except.ok.inj applied)
    rw [← h.eq_of_lanes]
    exact perform_of_missed taker.2 taker.1
  · cases r with
    | push t =>
        simp [perform, advance, Request.start, Progress.step, h.free, applied, Except.map, bind,
          Except.bind]
    | pop =>
        have filled : q.published ≠ 0 := fun zero => taker ⟨rfl, zero⟩
        have popped : q.lanes.pop = .ok (x, l) := applied
        exact (pop_eq h.free filled).trans (by rw [popped]; rfl)
    | steal =>
        have filled : q.published ≠ 0 := fun zero => taker ⟨rfl, zero⟩
        have stolen : q.lanes.steal = .ok (x, l) := applied
        exact (steal_eq h.free filled).trans (by rw [stolen]; rfl)

/-- An undisturbed operation leaves the queue tidy, with what was there and what it has added, less
what it has taken. -/
theorem performed (h : q.Tidy) {q' : Shared τ} (done : q.perform r = .ok (x, q')) :
    q'.Tidy ∧ (r.added ++ q.lanes.contents).Perm (x.toList ++ q'.lanes.contents) := by
  obtain ⟨y, l, applied, sound, same⟩ := h.sound.apply r
  rw [h.perform_eq applied] at done
  obtain ⟨rfl, rfl⟩ := Prod.mk.inj (Except.ok.inj done)
  exact ⟨⟨rfl, sound, rfl⟩, same⟩

end Tidy

end Shared

namespace Plays

variable {q a : Shared τ} {es : List (Effect τ)}

/-- Undisturbed operations leave a queue tidy. -/
theorem tidy (plays : Plays q es a) (h : q.Tidy) : a.Tidy := by
  induction plays with
  | refl => exact h
  | effect number _ done ih => exact (ih.performed done).1

/-- What undisturbed operations add is what they take and what is left. -/
theorem perm (plays : Plays q es a) (h : q.Tidy) :
    (added es ++ q.lanes.contents).Perm (taken es ++ a.lanes.contents) := by
  induction plays with
  | refl => exact .refl _
  | @effect past a b r x number plays done ih =>
      have same := ((plays.tidy h).performed done).2
      calc added (⟨number, r, x⟩ :: past) ++ q.lanes.contents
        _ = r.added ++ (added past ++ q.lanes.contents) := List.append_assoc ..
        _ |>.Perm (r.added ++ (taken past ++ a.lanes.contents)) := ih.append_left _
        _ |>.Perm (taken past ++ (r.added ++ a.lanes.contents)) := List.perm_append_comm_assoc ..
        _ |>.Perm (taken past ++ (x.toList ++ b.lanes.contents)) := same.append_left _
        _ |>.Perm (x.toList ++ (taken past ++ b.lanes.contents)) := List.perm_append_comm_assoc ..
        _ = taken (⟨number, r, x⟩ :: past) ++ b.lanes.contents := (List.append_assoc ..).symm

end Plays

/-! ## Many threads -/

/-- An operation that a thread has begun. -/
structure Operation (τ : Type) where
  /-- The number by which the operation is told apart from all others. -/
  number : Nat
  request : Request τ
  progress : Progress τ

/-- Something that happens to the operation of a number. -/
inductive Event (τ : Type) where
  | called (number : Nat) (request : Request τ)
  /-- Has read a published length of zero. -/
  | missed (number : Nat) (request : Request τ)
  /-- A thief has found the lock held. -/
  | balked (number : Nat)
  /-- Has published the length after its change. -/
  | changed (number : Nat) (request : Request τ) (result : Option τ)
  | replied (number : Nat) (result : Option τ)

/-- The number of the operation to which something happens. -/
def Event.number : Event τ → Nat
  | .called n _ | .missed n _ | .balked n | .changed n _ _ | .replied n _ => n

/-- The effect that an event is the moment of. -/
def Event.effect? : Event τ → Option (Effect τ)
  | .missed n r => some ⟨n, r, none⟩
  | .changed n r x => some ⟨n, r, x⟩
  | .called .. | .balked _ | .replied .. => none

/-- The operations that have taken effect, the last one first. -/
def effects (past : List (Event τ)) : List (Effect τ) := past.filterMap Event.effect?

/-- What happens in the next step of an operation. -/
def Operation.events (q : Shared τ) (o : Operation τ) : List (Event τ) :=
  match o.progress with
  | .measure _ => if q.published = 0 then [.missed o.number o.request] else []
  | .acquire .steal => if q.held then [.balked o.number] else []
  | .publish x => [.changed o.number o.request x]
  | .acquire _ | .change _ | .release _ | .done _ => []

/-- A queue and the threads that use it. -/
structure Threads (τ : Type) where
  queue : Shared τ
  /-- What each thread is doing. -/
  doing : Nat → Option (Operation τ)
  /-- How many operations have been begun. -/
  calls : Nat

namespace Threads

/-- A queue without items, and threads that have not begun anything. -/
def fresh (s : Strategy) (b : Sequence.Backing) : Threads τ := ⟨.empty s b, fun _ => none, 0⟩

/-- A thread is at another point of what it is doing. -/
def put (m : Threads τ) (i : Nat) (o : Option (Operation τ)) : Threads τ :=
  { m with doing := Function.update m.doing i o }

omit [Queueable τ] in
theorem doing_put (m : Threads τ) (i : Nat) (o : Option (Operation τ)) (j : Nat) :
    (m.put i o).doing j = if j = i then o else m.doing j := Function.update_apply ..

end Threads

/-- What threads can make of a queue, with all that has happened to their operations, the last event
first. -/
inductive Runs (s : Strategy) (b : Sequence.Backing) : List (Event τ) → Threads τ → Prop where
  | start : Runs s b [] (.fresh s b)
  /-- A thread that is not doing anything begins an operation. -/
  | call {past : List (Event τ)} {m : Threads τ} (i : Nat) (r : Request τ) :
      Runs s b past m → m.doing i = none →
      Runs s b (.called m.calls r :: past)
        { m.put i (some ⟨m.calls, r, r.start⟩) with calls := m.calls + 1 }
  /-- A thread takes a step. -/
  | step {past : List (Event τ)} {m : Threads τ} {o : Operation τ} {p : Progress τ} {q : Shared τ}
      (i : Nat) :
      Runs s b past m → m.doing i = some o → o.progress.step m.queue = .ok (some (p, q)) →
      Runs s b (o.events m.queue ++ past)
        { m.put i (some { o with progress := p }) with queue := q }
  /-- A thread has come to the end of its operation. -/
  | reply {past : List (Event τ)} {m : Threads τ} {n : Nat} {r : Request τ} {x : Option τ}
      (i : Nat) :
      Runs s b past m → m.doing i = some ⟨n, r, .done x⟩ →
      Runs s b (.replied n x :: past) (m.put i none)

/-! ## One event at a time -/

omit [Queueable τ] in
/-- At most one thing happens in a step. -/
theorem length_events (q : Shared τ) (o : Operation τ) : (o.events q).length ≤ 1 := by
  unfold Operation.events
  split
  · split <;> simp
  · split <;> simp
  · simp
  all_goals simp

omit [Queueable τ] in
/-- An operation misses a queue whose published length is zero. -/
theorem published_of_missed {q : Shared τ} {o : Operation τ} {n : Nat} {r : Request τ}
    (missed : .missed n r ∈ o.events q) : q.published = 0 := by
  unfold Operation.events at missed
  split at missed
  · split at missed
    · assumption
    · cases missed
  · split at missed <;> simp at missed
  all_goals simp at missed

omit [Queueable τ] in
/-- A thief balks at a queue whose lock is held. -/
theorem held_of_balked {q : Shared τ} {o : Operation τ} {n : Nat}
    (balked : .balked n ∈ o.events q) : q.held = true := by
  unfold Operation.events at balked
  split at balked
  · split at balked <;> simp at balked
  · split at balked
    · assumption
    · cases balked
  all_goals simp at balked

/-- Up to every event of a run there is a run that ends with it.  If a taker has missed the queue,
the published length is zero; if a thief has balked, the lock is held. -/
theorem Runs.cut {s : Strategy} {b : Sequence.Backing} {later earlier : List (Event τ)}
    {e : Event τ} {m : Threads τ} (run : Runs s b (later ++ e :: earlier) m) :
    ∃ before, Runs s b earlier before ∧
      (∀ n r, e = .missed n r → before.queue.published = 0) ∧
      (∀ n, e = .balked n → before.queue.held = true) := by
  generalize whole : later ++ e :: earlier = past at run
  induction run generalizing later with
  | start => simp at whole
  | @call past m i r run idle ih =>
      cases later with
      | nil =>
          obtain ⟨rfl, rfl⟩ := List.cons.inj whole
          exact ⟨m, run, by simp, by simp⟩
      | cons _ later => exact ih (List.cons.inj whole).2
  | @reply past m n r x i run doing ih =>
      cases later with
      | nil =>
          obtain ⟨rfl, rfl⟩ := List.cons.inj whole
          exact ⟨m, run, by simp, by simp⟩
      | cons _ later => exact ih (List.cons.inj whole).2
  | @step past m o p q i run doing moved ih =>
      have short := length_events m.queue o
      cases now : o.events m.queue with
      | nil =>
          rw [now, List.nil_append] at whole
          exact ih whole
      | cons first rest =>
          rw [now, List.length_cons] at short
          obtain rfl : rest = [] := List.eq_nil_of_length_eq_zero (by omega)
          rw [now] at whole
          cases later with
          | cons _ later => exact ih (List.cons.inj whole).2
          | nil =>
              obtain ⟨rfl, rfl⟩ := List.cons.inj whole
              have mem : e ∈ o.events m.queue := by rw [now]; exact List.mem_singleton_self e
              exact ⟨m, run, fun n r missed => published_of_missed (missed ▸ mem),
                fun n balked => held_of_balked (balked ▸ mem)⟩

end AccessOrder.Queue
