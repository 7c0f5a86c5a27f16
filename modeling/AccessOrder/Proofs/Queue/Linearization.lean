/- # The order in which operations take effect

Whatever the steps of the threads, the operations on a queue behave as if each had been carried out
undisturbed at the moment of its effect.  While nobody holds the lock, the queue is the one that the
undisturbed operations so far have led to; the holder of the lock may have changed the lanes, but
publishes the change at the moment of its effect.  So the published length is always that of the
undisturbed queue, and a taker that reads zero takes effect right there.  Only a thief that finds
the lock held has no effect at all.

* `Operation.Told` : what has happened to an operation that has come so far;
* `Threads.Mirrors` : how the queue stands to the undisturbed one;
* `Runs.linearized` : every run is linearized by the effects of its operations.
-/
import AccessOrder.Proofs.Queue.Threads
import AccessOrder.Task.Basic
namespace AccessOrder.Queue

variable {τ : Type}

/-! ## The events of one operation -/

/-- What has happened to the operation of a number. -/
def about (n : Nat) (past : List (Event τ)) : List (Event τ) := past.filter (·.number = n)

theorem about_append (n : Nat) (es past : List (Event τ)) :
    about n (es ++ past) = about n es ++ about n past := List.filter_append ..

theorem mem_about {n : Nat} {e : Event τ} {past : List (Event τ)} :
    e ∈ about n past ↔ e ∈ past ∧ e.number = n := by
  rw [about, List.mem_filter, decide_eq_true_eq]

/-- Events of one operation are about it, and about no other. -/
theorem about_own {k : Nat} {es : List (Event τ)} (own : ∀ e ∈ es, e.number = k) (n : Nat)
    (past : List (Event τ)) :
    about n (es ++ past) = if n = k then es ++ about n past else about n past := by
  rw [about_append]
  split
  · next same => rw [about, List.filter_eq_self.2 fun e mem => by simp [own e mem, same]]
  · next other =>
      rw [about, List.filter_eq_nil_iff.2 fun e mem => by simp [own e mem, Ne.symm other],
        List.nil_append]

/-- How an operation comes to its result, the last event first. -/
inductive Settled (n : Nat) : Request τ → Option τ → List (Event τ) → Prop where
  | missed (r : Request τ) : Settled n r none [.missed n r, .called n r]
  | balked : Settled n .steal none [.balked n, .called n .steal]
  | changed (r : Request τ) (x : Option τ) : Settled n r x [.changed n r x, .called n r]

/-- All that can have happened to the operation of a number, the last event first. -/
inductive Course (n : Nat) : List (Event τ) → Prop where
  | unborn : Course n []
  | called (r : Request τ) : Course n [.called n r]
  | settled {r : Request τ} {x : Option τ} {es : List (Event τ)} :
      Settled n r x es → Course n es
  | replied {r : Request τ} {x : Option τ} {es : List (Event τ)} :
      Settled n r x es → Course n (.replied n x :: es)

/-- What has happened to an operation that has come so far. -/
def Operation.Told (o : Operation τ) (events : List (Event τ)) : Prop :=
  match o.progress with
  | .measure r =>
    r = o.request ∧ r.start = .measure r ∧ events = [.called o.number o.request]
  | .acquire r | .change r => r = o.request ∧ events = [.called o.number o.request]
  | .publish _ => events = [.called o.number o.request]
  | .release x => events = [.changed o.number o.request x, .called o.number o.request]
  | .done x => Settled o.number o.request x events

namespace Operation

variable {o : Operation τ} {events : List (Event τ)}

/-- What has happened to an operation under way is a course. -/
theorem Told.course (told : o.Told events) : Course o.number events := by
  unfold Told at told
  split at told
  · exact told.2.2 ▸ .called _
  · exact told.2 ▸ .called _
  · exact told.2 ▸ .called _
  · exact told ▸ .called _
  · exact told ▸ .settled (.changed ..)
  · exact .settled told

/-- An operation that has just been begun has been called, and no more. -/
theorem told_start (n : Nat) (r : Request τ) :
    Told ⟨n, r, r.start⟩ [.called n r] := by
  cases r with
  | push t => exact ⟨rfl, rfl⟩
  | pop => exact ⟨rfl, rfl, rfl⟩
  | steal => exact ⟨rfl, rfl, rfl⟩

/-- What happens in a step happens to the operation that takes it. -/
theorem number_of_mem_events {q : Shared τ} : ∀ e ∈ o.events q, e.number = o.number := by
  intro e mem
  unfold events at mem
  split at mem
  · split at mem
    · rw [List.mem_singleton.1 mem, Event.number]
    · cases mem
  · split at mem
    · rw [List.mem_singleton.1 mem, Event.number]
    · cases mem
  · rw [List.mem_singleton.1 mem, Event.number]
  all_goals cases mem

variable [Queueable τ] {p : Progress τ} {q q' : Shared τ}

/-- The events of a step tell how far the operation has come after it. -/
theorem Told.step (told : o.Told events) (moved : o.progress.step q = .ok (some (p, q'))) :
    Told { o with progress := p } (o.events q ++ events) := by
  obtain ⟨n, r, progress⟩ := o
  cases progress with
  | measure r' =>
      obtain ⟨rfl, taker, rfl⟩ := told
      obtain ⟨rfl, -⟩ := Prod.mk.inj (Option.some.inj (Except.ok.inj moved))
      by_cases zero : q.published = 0
      · rw [Operation.events, if_pos zero, if_pos zero]
        exact Settled.missed r'
      · simp [Operation.events, Told, zero]
  | acquire r' =>
      obtain ⟨rfl, rfl⟩ := told
      cases held : q.held with
      | false =>
          simp only [Progress.step, held, Except.ok.injEq, Option.some.injEq,
            Prod.mk.injEq] at moved
          obtain ⟨rfl, -⟩ := moved
          cases r' <;> simp [Operation.events, Told, held]
      | true =>
          cases r' with
          | push t => simp [Progress.step, held] at moved
          | pop => simp [Progress.step, held] at moved
          | steal =>
              simp only [Progress.step, held, Except.ok.injEq, Option.some.injEq,
                Prod.mk.injEq] at moved
              obtain ⟨rfl, -⟩ := moved
              rw [Operation.events, if_pos held]
              exact Settled.balked
  | change r' =>
      obtain ⟨rfl, rfl⟩ := told
      simp only [Progress.step] at moved
      cases applied : r'.apply q.lanes with
      | error fault => simp [applied, Except.map] at moved
      | ok out =>
          simp only [applied, Except.map, Except.ok.injEq, Option.some.injEq,
            Prod.mk.injEq] at moved
          obtain ⟨rfl, -⟩ := moved
          rfl
  | publish x =>
      obtain rfl : events = _ := told
      obtain ⟨rfl, -⟩ := Prod.mk.inj (Option.some.inj (Except.ok.inj moved))
      rfl
  | release x =>
      obtain rfl : events = _ := told
      obtain ⟨rfl, -⟩ := Prod.mk.inj (Option.some.inj (Except.ok.inj moved))
      exact Settled.changed r x
  | done x => cases Except.ok.inj moved

end Operation

/-! ## The record of all operations -/

/-- What has happened fits what the threads are doing. -/
structure Recorded (past : List (Event τ)) (m : Threads τ) : Prop where
  told : ∀ i o, m.doing i = some o → o.Told (about o.number past)
  begun : ∀ i o, m.doing i = some o → o.number < m.calls
  apart : ∀ i j o o', m.doing i = some o → m.doing j = some o' → o.number = o'.number → i = j
  fresh : ∀ n, m.calls ≤ n → about n past = []
  course : ∀ n, Course n (about n past)

namespace Recorded

variable {past : List (Event τ)} {m : Threads τ} {o : Operation τ} {i : Nat}

/-- Nothing has happened, and nobody does anything. -/
theorem start (s : Strategy) (b : Sequence.Backing) :
    Recorded ([] : List (Event τ)) (Threads.fresh s b) :=
  ⟨nofun, nofun, nofun, fun _ _ => rfl, fun _ => .unborn⟩

/-- A thread begins an operation. -/
theorem call (h : Recorded past m) (i : Nat) (r : Request τ) :
    Recorded (.called m.calls r :: past)
      { m.put i (some ⟨m.calls, r, r.start⟩) with calls := m.calls + 1 } := by
  have mine : ∀ e ∈ [Event.called m.calls r], e.number = m.calls := by simp [Event.number]
  have own := about_own mine
  have doing := m.doing_put i (some ⟨m.calls, r, r.start⟩)
  refine ⟨fun j o' at_j => ?_, fun j o' at_j => ?_, fun j k o' o'' at_j at_k same => ?_,
    fun n out => ?_, fun n => ?_⟩
  · rw [doing] at at_j
    split at at_j
    · obtain rfl := Option.some.inj at_j
      rw [← List.singleton_append, own, if_pos rfl, h.fresh _ (Nat.le_refl _)]
      exact Operation.told_start ..
    · rw [← List.singleton_append, own, if_neg (h.begun j o' at_j).ne]
      exact h.told j o' at_j
  · rw [doing] at at_j
    split at at_j
    · obtain rfl := Option.some.inj at_j
      exact Nat.lt_succ_self _
    · exact Nat.lt_succ_of_lt (h.begun j o' at_j)
  · rw [doing] at at_j at_k
    split at at_j <;> split at at_k
    · next hj hk => rw [hj, hk]
    · obtain rfl := Option.some.inj at_j
      exact absurd same (h.begun k o'' at_k).ne'
    · obtain rfl := Option.some.inj at_k
      exact absurd same (h.begun j o' at_j).ne
    · exact h.apart j k o' o'' at_j at_k same
  · have out : m.calls < n := out
    rw [← List.singleton_append, own, if_neg out.ne']
    exact h.fresh n out.le
  · rw [← List.singleton_append, own]
    split
    · next same =>
        rw [same, h.fresh _ (Nat.le_refl _)]
        exact .called r
    · exact h.course n

/-- A thread goes on with its operation, or ends it. -/
theorem goes_on (h : Recorded past m) (at_i : m.doing i = some o) {es : List (Event τ)}
    (own : ∀ e ∈ es, e.number = o.number) {next : Option (Operation τ)}
    (number : ∀ o' ∈ next, o'.number = o.number)
    (told : ∀ o' ∈ next, o'.Told (es ++ about o.number past))
    (course : Course o.number (es ++ about o.number past)) (q : Shared τ) :
    Recorded (es ++ past) { m.put i next with queue := q } := by
  have own := about_own own
  have doing := m.doing_put i next
  have elsewhere : ∀ {j o'}, j ≠ i → m.doing j = some o' → o'.number ≠ o.number :=
    fun other at_j same => other (h.apart _ _ _ _ at_j at_i same)
  refine ⟨fun j o' at_j => ?_, fun j o' at_j => ?_, fun j k o' o'' at_j at_k same => ?_,
    fun n out => ?_, fun n => ?_⟩
  · rw [doing] at at_j
    split at at_j
    · rw [own, number o' at_j, if_pos rfl]
      exact told o' at_j
    · next other =>
        rw [own, if_neg (elsewhere other at_j)]
        exact h.told j o' at_j
  · rw [doing] at at_j
    split at at_j
    · rw [number o' at_j]
      exact h.begun i o at_i
    · exact h.begun j o' at_j
  · rw [doing] at at_j at_k
    split at at_j <;> split at at_k
    · next hj hk => rw [hj, hk]
    · next other => exact absurd (same.symm.trans (number o' at_j)) (elsewhere other at_k)
    · next other _ => exact absurd (same.trans (number o'' at_k)) (elsewhere other at_j)
    · exact h.apart j k o' o'' at_j at_k same
  · have other : n ≠ o.number := ((h.begun i o at_i).trans_le out).ne'
    rw [own, if_neg other]
    exact h.fresh n out
  · rw [own]
    split
    · next same =>
        rw [same]
        exact course
    · exact h.course n

end Recorded

/-! ## The undisturbed queue -/

/-- Whether an operation holds the lock. -/
def Progress.holds : Progress τ → Bool
  | .change _ | .publish _ | .release _ => true
  | .measure _ | .acquire _ | .done _ => false

variable [Queueable τ]

/-- How the queue stands to the undisturbed one while an operation holds the lock. -/
def Operation.Stands (o : Operation τ) (q a : Shared τ) : Prop :=
  match o.progress with
  | .change _ | .release _ => q = { a with held := true }
  | .publish x =>
    a.perform o.request = .ok (x, ⟨q.lanes, q.lanes.size, false⟩) ∧ q.published = a.published ∧
      q.held = true
  | .measure _ | .acquire _ | .done _ => False

namespace Threads

variable {m : Threads τ} {a : Shared τ} {o : Operation τ} {i : Nat}

/-- How the queue that the threads use stands to the undisturbed one: they are the same unless
a thread holds the lock. -/
inductive Mirrors (m : Threads τ) (a : Shared τ) : Prop where
  | free (same : m.queue = a) (nobody : ∀ j o, m.doing j = some o → o.progress.holds = false)
  | held (i : Nat) (o : Operation τ) (at_i : m.doing i = some o) (stands : o.Stands m.queue a)
      (others : ∀ j o', j ≠ i → m.doing j = some o' → o'.progress.holds = false)

namespace Mirrors

/-- Who holds the lock knows how the queue stands to the undisturbed one, and holds it alone. -/
theorem own (h : m.Mirrors a) (at_i : m.doing i = some o) (holds : o.progress.holds = true) :
    o.Stands m.queue a ∧ ∀ j o', j ≠ i → m.doing j = some o' → o'.progress.holds = false := by
  cases h with
  | free _ nobody => exact absurd (nobody i o at_i) (by simp [holds])
  | held j o' at_j stands others =>
      by_cases same : i = j
      · subst same
        obtain rfl := Option.some.inj (at_i.symm.trans at_j)
        exact ⟨stands, others⟩
      · exact absurd (others i o same at_i) (by simp [holds])

/-- The published length is that of the undisturbed queue. -/
theorem published_eq (h : m.Mirrors a) : m.queue.published = a.published := by
  cases h with
  | free same _ => rw [same]
  | held i o _ stands _ =>
      unfold Operation.Stands at stands
      split at stands
      · rw [stands]
      · rw [stands]
      · exact stands.2.1
      all_goals exact stands.elim

/-- If the lock is free, the queue is the undisturbed one. -/
theorem of_free (h : m.Mirrors a) (free : m.queue.held = false) :
    m.queue = a ∧ ∀ j o, m.doing j = some o → o.progress.holds = false := by
  cases h with
  | free same nobody => exact ⟨same, nobody⟩
  | held i o _ stands _ =>
      unfold Operation.Stands at stands
      split at stands
      · simp [stands] at free
      · simp [stands] at free
      · simp [stands.2.2] at free
      all_goals exact stands.elim

/-- The lanes are sound whoever is changing them. -/
theorem sound (h : m.Mirrors a) (tidy : a.Tidy) : m.queue.lanes.Sound := by
  cases h with
  | free same _ => exact same ▸ tidy.sound
  | held i o _ stands _ =>
      unfold Operation.Stands at stands
      split at stands
      · exact stands ▸ tidy.sound
      · exact stands ▸ tidy.sound
      · exact (tidy.performed stands.1).1.sound
      all_goals exact stands.elim

/-- What does not hold the lock before or after has no bearing on the queue. -/
theorem aside (h : m.Mirrors a) (before : ∀ o, m.doing i = some o → o.progress.holds = false)
    {next : Option (Operation τ)} (after : ∀ o ∈ next, o.progress.holds = false) (calls : Nat) :
    Mirrors { m.put i next with calls := calls } a := by
  have doing := m.doing_put i next
  cases h with
  | free same nobody =>
      refine .free same fun j o at_j => ?_
      rw [doing] at at_j
      split at at_j
      · exact after o at_j
      · exact nobody j o at_j
  | held k o at_k stands others =>
      have other : k ≠ i := by
        rintro rfl
        have loose := before o at_k
        unfold Operation.Stands at stands
        cases progress : o.progress <;> simp_all [Progress.holds]
      refine .held k o ((doing k).trans (by rw [if_neg other, at_k])) stands fun j o' ne at_j => ?_
      rw [doing] at at_j
      split at at_j
      · exact after o' at_j
      · exact others j o' ne at_j

/-- The holder of the lock goes on, and knows how the queue stands to the undisturbed one then. -/
theorem turn {o' : Operation τ} {q a' : Shared τ}
    (others : ∀ j o, j ≠ i → m.doing j = some o → o.progress.holds = false)
    (stands : o'.Stands q a') : Mirrors { m.put i (some o') with queue := q } a' := by
  have doing := m.doing_put i (some o')
  refine .held i o' ((doing i).trans (if_pos rfl)) stands fun j o other at_j => ?_
  rw [doing, if_neg other] at at_j
  exact others j o other at_j

end Mirrors

end Threads

/-- The undisturbed operations so far have led to a queue that the real one mirrors. -/
def Linear (s : Strategy) (b : Sequence.Backing) (past : List (Event τ)) (m : Threads τ) : Prop :=
  ∃ a, Plays (.empty s b) (effects past) a ∧ m.Mirrors a

/-- A step of an operation leads to a queue that mirrors the undisturbed one again; the undisturbed
operation is carried out when the operation takes effect. -/
theorem Linear.step {s : Strategy} {b : Sequence.Backing} {past : List (Event τ)} {m : Threads τ}
    {o : Operation τ} {i : Nat} {p : Progress τ} {q : Shared τ} {events : List (Event τ)}
    (h : Linear s b past m) (at_i : m.doing i = some o) (told : o.Told events)
    (moved : o.progress.step m.queue = .ok (some (p, q))) :
    Linear s b (o.events m.queue ++ past)
      { m.put i (some { o with progress := p }) with queue := q } := by
  obtain ⟨a, plays, mirrors⟩ := h
  have tidy : a.Tidy := plays.tidy (Shared.tidy_empty s b)
  obtain ⟨n, r, progress⟩ := o
  cases progress with
  | measure r' =>
      obtain ⟨rfl, taker, -⟩ := told
      obtain ⟨rfl, rfl⟩ := Prod.mk.inj (Option.some.inj (Except.ok.inj moved))
      have loose : ∀ o, m.doing i = some o → o.progress.holds = false := by
        intro o at_i'
        obtain rfl := Option.some.inj (at_i.symm.trans at_i')
        rfl
      by_cases zero : m.queue.published = 0
      · have missed := Shared.Tidy.perform_of_missed (mirrors.published_eq ▸ zero) taker
        refine ⟨a, ?_, mirrors.aside loose (by simp [zero, Progress.holds]) _⟩
        rw [Operation.events, if_pos zero]
        exact plays.effect n missed
      · refine ⟨a, ?_, mirrors.aside loose (by simp [zero, Progress.holds]) _⟩
        rw [Operation.events, if_neg zero]
        exact plays
  | acquire r' =>
      cases held : m.queue.held with
      | false =>
          simp only [Progress.step, held, Except.ok.injEq, Option.some.injEq,
            Prod.mk.injEq] at moved
          obtain ⟨rfl, rfl⟩ := moved
          obtain ⟨same, nobody⟩ := mirrors.of_free held
          refine ⟨a, ?_, .turn (fun j o _ => nobody j o) ?_⟩
          · cases r' <;> simpa [Operation.events, held] using plays
          · simp [Operation.Stands, same]
      | true =>
          cases r' with
          | push t => simp [Progress.step, held] at moved
          | pop => simp [Progress.step, held] at moved
          | steal =>
              simp only [Progress.step, held, Except.ok.injEq, Option.some.injEq,
                Prod.mk.injEq] at moved
              obtain ⟨rfl, rfl⟩ := moved
              refine ⟨a, ?_, mirrors.aside (fun o at_i' => ?_) (by simp [Progress.holds]) _⟩
              · rw [Operation.events, if_pos held]
                exact plays
              · obtain rfl := Option.some.inj (at_i.symm.trans at_i')
                rfl
  | change r' =>
      obtain ⟨rfl, -⟩ := told
      obtain ⟨stands, others⟩ := mirrors.own at_i rfl
      obtain stands : m.queue = { a with held := true } := stands
      obtain ⟨x, l, applied, -, -⟩ := tidy.sound.apply r'
      simp only [Progress.step, stands, applied, Except.map, Except.ok.injEq, Option.some.injEq,
        Prod.mk.injEq] at moved
      obtain ⟨rfl, rfl⟩ := moved
      exact ⟨a, plays, .turn others ⟨tidy.perform_eq applied, rfl, rfl⟩⟩
  | publish x =>
      obtain ⟨⟨performed, -, held⟩, others⟩ := mirrors.own at_i rfl
      obtain ⟨rfl, rfl⟩ := Prod.mk.inj (Option.some.inj (Except.ok.inj moved))
      refine ⟨_, plays.effect n performed, .turn others ?_⟩
      show ({ m.queue with published := m.queue.lanes.size } : Shared τ) = _
      rw [Shared.mk.injEq]
      exact ⟨rfl, rfl, held⟩
  | release x =>
      obtain ⟨stands, others⟩ := mirrors.own at_i rfl
      obtain stands : m.queue = { a with held := true } := stands
      obtain ⟨rfl, rfl⟩ := Prod.mk.inj (Option.some.inj (Except.ok.inj moved))
      refine ⟨a, plays, .free ?_ fun j o at_j => ?_⟩
      · rw [stands]
        simp [← tidy.free]
      · have at_j := (m.doing_put i _ j).symm.trans at_j
        split at at_j
        · obtain rfl := Option.some.inj at_j
          rfl
        · next other => exact others j o other at_j
  | done x => cases Except.ok.inj moved

namespace Runs

variable {s : Strategy} {b : Sequence.Backing} {past : List (Event τ)} {m : Threads τ}

/-- The record of a run is kept. -/
theorem recorded (run : Runs s b past m) : Recorded past m := by
  induction run with
  | start => exact .start s b
  | call i r _ _ ih => exact ih.call i r
  | step i _ at_i moved ih =>
      have told := (ih.told i _ at_i).step moved
      exact ih.goes_on at_i Operation.number_of_mem_events
        (fun o' mem => by obtain rfl := Option.some.inj mem; rfl)
        (fun o' mem => by obtain rfl := Option.some.inj mem; exact told) told.course _
  | @reply past m n r x i _ at_i ih =>
      have settled : Settled n r x (about n past) := ih.told i _ at_i
      have own : ∀ e ∈ [Event.replied n x], e.number = n := by simp [Event.number]
      exact ih.goes_on at_i own (by simp) (by simp)
        (.replied settled) m.queue

/-- A run leads where the undisturbed operations lead. -/
theorem linear (run : Runs s b past m) : Linear s b past m := by
  induction run with
  | start => exact ⟨_, .refl, .free rfl nofun⟩
  | call i r _ idle ih =>
      obtain ⟨a, plays, mirrors⟩ := ih
      refine ⟨a, plays, mirrors.aside (by simp [idle]) (fun o mem => ?_) _⟩
      obtain rfl := Option.some.inj mem
      cases r <;> rfl
  | step i run at_i moved ih => exact ih.step at_i (run.recorded.told i _ at_i) moved
  | reply i _ at_i ih =>
      obtain ⟨a, plays, mirrors⟩ := ih
      refine ⟨a, plays, mirrors.aside (fun o at_i' => ?_) (by simp) _⟩
      obtain rfl := Option.some.inj (at_i.symm.trans at_i')
      rfl

end Runs

/-! ## What a course tells -/

/-- The operations that have taken effect, by their numbers, the last one first. -/
def order (past : List (Event τ)) : List Nat := (effects past).map (·.number)

section Course

variable {n k : Nat} {r : Request τ} {x : Option τ} {es before after past : List (Event τ)}

omit [Queueable τ] in
/-- An effect is that of the operation to which the event happens. -/
theorem number_of_effect {e : Event τ} {f : Effect τ} (effect : e.effect? = some f) :
    f.number = e.number := by
  cases e <;> simp only [Event.effect?, Option.some.injEq, reduceCtorEq] at effect <;>
    rw [← effect, Event.number]

omit [Queueable τ] in
/-- The effects of one operation are those of the events about it. -/
theorem effects_about (n : Nat) (past : List (Event τ)) :
    effects (about n past) = (effects past).filter (·.number = n) := by
  rw [effects, about, effects, List.filterMap_filter, List.filter_filterMap]
  refine List.filterMap_congr fun e _ => ?_
  cases effect : e.effect? with
  | none => simp
  | some f => simp [Option.filter_some, number_of_effect effect]

omit [Queueable τ] in
/-- An operation comes to its result by one effect at most. -/
theorem Settled.length_effects (h : Settled n r x es) : (effects es).length ≤ 1 := by
  cases h with
  | missed => exact Nat.le_refl 1
  | balked => exact Nat.zero_le 1
  | changed => exact Nat.le_refl 1

omit [Queueable τ] in
/-- An operation takes effect once at most. -/
theorem Course.length_effects (h : Course n es) : (effects es).length ≤ 1 := by
  cases h with
  | unborn => exact Nat.zero_le 1
  | called r => exact Nat.zero_le 1
  | settled settled => exact settled.length_effects
  | replied settled => exact settled.length_effects

omit [Queueable τ] in
/-- What has taken effect has been asked for. -/
theorem Course.called_of_effect (h : Course n es) {e : Effect τ} (mem : e ∈ effects es) :
    .called e.number e.request ∈ es := by
  cases h with
  | unborn => cases mem
  | called r => cases mem
  | settled settled =>
      cases settled <;> simp [effects, Event.effect?] at mem <;> subst mem <;> simp
  | replied settled =>
      cases settled <;> simp [effects, Event.effect?] at mem <;> subst mem <;> simp

omit [Queueable τ] in
/-- An answer is the result of the effect, unless a thief has found the lock held. -/
theorem Course.of_replied (h : Course n es) (mem : .replied n x ∈ es) :
    ∃ r, .called n r ∈ es ∧
      (⟨n, r, x⟩ ∈ effects es ∨ r = .steal ∧ x = none ∧ .balked n ∈ es) := by
  cases h with
  | unborn => cases mem
  | called r => simp at mem
  | settled settled => cases settled <;> simp at mem
  | replied settled => cases settled <;> simp_all [effects, Event.effect?]

omit [Queueable τ] in
/-- A thief that has found the lock held has no effect. -/
theorem Course.of_balked (h : Course n es) (mem : .balked n ∈ es) : effects es = [] := by
  cases h with
  | unborn => rfl
  | called r => rfl
  | settled settled => cases settled <;> simp_all [effects, Event.effect?]
  | replied settled => cases settled <;> simp_all [effects, Event.effect?]

omit [Queueable τ] in
/-- The answer comes last. -/
theorem Course.nil_of_replied (h : Course n (after ++ before)) (mem : .replied k x ∈ before) :
    after = [] := by
  have none_settled : ∀ {r y} {es : List (Event τ)}, Settled n r y es → .replied k x ∉ es := by
    intro r y es settled
    cases settled <;> simp
  generalize whole : after ++ before = es at h
  have inside : .replied k x ∈ es := whole ▸ List.mem_append_right after mem
  cases h with
  | unborn => cases inside
  | called r => simp at inside
  | settled settled => exact absurd inside (none_settled settled)
  | replied settled =>
      cases after with
      | nil => rfl
      | cons e after =>
          have rest := (List.cons.inj whole).2
          exact absurd (rest ▸ List.mem_append_right after mem) (none_settled settled)

omit [Queueable τ] in
/-- The call comes first. -/
theorem Course.nil_of_called (h : Course n (after ++ before)) (mem : .called k r ∈ after) :
    before = [] := by
  have first : ∀ {es : List (Event τ)}, Course n es →
      es = [] ∨ ∃ init r', es = init ++ [.called n r'] ∧ .called k r ∉ init := by
    intro es course
    cases course with
    | unborn => exact .inl rfl
    | called r' => exact .inr ⟨[], r', rfl, by simp⟩
    | settled settled =>
        cases settled with
        | missed => exact .inr ⟨[.missed n _], _, rfl, by simp⟩
        | balked => exact .inr ⟨[.balked n], _, rfl, by simp⟩
        | changed => exact .inr ⟨[.changed n _ _], _, rfl, by simp⟩
    | replied settled =>
        cases settled with
        | missed => exact .inr ⟨[.replied n none, .missed n _], _, rfl, by simp⟩
        | balked => exact .inr ⟨[.replied n none, .balked n], _, rfl, by simp⟩
        | changed => exact .inr ⟨[.replied n _, .changed n _ _], _, rfl, by simp⟩
  rcases List.eq_nil_or_concat before with rfl | ⟨earlier, e, rfl⟩
  · rfl
  · rcases first h with none_at_all | ⟨init, r', whole, apart⟩
    · simp at none_at_all
    · rw [List.concat_eq_append, ← List.append_assoc] at whole
      exact absurd ((List.append_inj' whole rfl).1 ▸ List.mem_append_left earlier mem) apart

omit [Queueable τ] in
theorem order_append (es past : List (Event τ)) : order (es ++ past) = order es ++ order past := by
  rw [order, effects, List.filterMap_append, List.map_append]
  rfl

omit [Queueable τ] in
/-- What is in the order has an effect among the events about it. -/
theorem effects_about_ne_nil (mem : n ∈ order past) : effects (about n past) ≠ [] := by
  obtain ⟨e, effect, rfl⟩ := List.mem_map.1 mem
  rw [effects_about]
  exact List.ne_nil_of_mem (List.mem_filter.2 ⟨effect, by simp⟩)

omit [Queueable τ] in
/-- No operation takes effect twice. -/
theorem nodup_order (h : ∀ n, Course n (about n past)) : (order past).Nodup := by
  refine List.nodup_iff_count_le_one.2 fun n => ?_
  calc (order past).count n
    _ = ((effects past).filter (·.number = n)).length := by
        rw [order, List.count, List.countP_map, List.countP_eq_length_filter]
        congr 1
    _ = (effects (about n past)).length := by rw [effects_about]
    _ ≤ 1 := (h n).length_effects

omit [Queueable τ] in
/-- An operation that has been answered before another one is called takes effect before it. -/
theorem order_of_answered (h : ∀ n, Course n (about n past))
    (before : [.called k r, .replied n x].Sublist past) (in_order : n ∈ order past)
    (in_order' : k ∈ order past) : [k, n].Sublist (order past) := by
  obtain ⟨late, early, rfl, called, rest⟩ := List.cons_sublist_iff.1 before
  have replied : .replied n x ∈ early := List.singleton_sublist.1 rest
  have course := h n
  have course' := h k
  rw [about_append] at course course'
  have settled : about n late = [] :=
    course.nil_of_replied (mem_about.2 ⟨replied, rfl⟩)
  have unborn : about k early = [] :=
    course'.nil_of_called (mem_about.2 ⟨called, rfl⟩)
  rw [order_append, List.mem_append] at in_order in_order'
  rw [order_append]
  have n_early : n ∈ order early := in_order.resolve_left fun mem =>
    effects_about_ne_nil mem (by rw [settled]; rfl)
  have k_late : k ∈ order late := in_order'.resolve_right fun mem =>
    effects_about_ne_nil mem (by rw [unborn]; rfl)
  exact (List.singleton_sublist.2 k_late).append (List.singleton_sublist.2 n_early)

end Course

/-! ## Every run is linearized -/

/-- The effects of the operations, in the order in which they occur, explain what the threads have
seen of a queue. -/
structure Linearized (s : Strategy) (b : Sequence.Backing) (past : List (Event τ))
    (m : Threads τ) : Prop where
  /-- No step of an operation fails. -/
  sound : ∀ i o, m.doing i = some o → ∃ next, o.progress.step m.queue = .ok next
  /-- Carried out undisturbed from an empty queue, the operations have the results they have had,
  and lead to a queue that has the published length, and is the queue itself if the lock is free.
  What has been added has been taken once or is left. -/
  legal : ∃ a, Plays (.empty s b) (effects past) a ∧
    m.queue.published = a.lanes.contents.length ∧ (m.queue.held = false → m.queue = a) ∧
    (added (effects past)).Perm (taken (effects past) ++ a.lanes.contents)
  /-- No operation takes effect twice. -/
  once : (order past).Nodup
  /-- What has taken effect has been asked for. -/
  asked : ∀ e ∈ effects past, .called e.number e.request ∈ past
  /-- Every answer is the result of an effect, unless a thief has found the lock held. -/
  answered : ∀ n x, .replied n x ∈ past → ∃ r, .called n r ∈ past ∧
    (⟨n, r, x⟩ ∈ effects past ∨ r = .steal ∧ x = none ∧ .balked n ∈ past)
  /-- A thief finds the lock held only while it is, and has no effect then. -/
  balked : ∀ later earlier n, past = later ++ .balked n :: earlier →
    n ∉ order past ∧ ∃ before, Runs s b earlier before ∧ before.queue.held = true
  /-- An operation that has been answered before another one is called takes effect before it. -/
  timely : ∀ k n r x, [.called k r, .replied n x].Sublist past →
    n ∈ order past → k ∈ order past → [k, n].Sublist (order past)
  /-- If the lock is free, the published length is the number of items. -/
  mirror : m.queue.held = false → m.queue.published = m.queue.lanes.contents.length
  /-- A taker that reads a length of zero takes effect on a queue without items. -/
  missed : ∀ later earlier n r, past = later ++ .missed n r :: earlier →
    ∃ a, Plays (.empty s b) (effects earlier) a ∧ a.lanes.contents = []

namespace Runs

variable {s : Strategy} {b : Sequence.Backing} {past : List (Event τ)} {m : Threads τ}

/-- Nothing that may be done next to the queue fails. -/
theorem exists_next (run : Runs s b past m) (p : Progress τ) :
    ∃ next, p.step m.queue = .ok next := by
  obtain ⟨a, plays, mirrors⟩ := run.linear
  have lanes := mirrors.sound (plays.tidy (Shared.tidy_empty s b))
  cases p with
  | measure r => exact ⟨_, rfl⟩
  | acquire r => cases held : m.queue.held <;> cases r <;> simp [Progress.step, held]
  | change r =>
      obtain ⟨x, l, applied, -, -⟩ := lanes.apply r
      exact ⟨some (.publish x, { m.queue with lanes := l }), by
        rw [Progress.step, applied]
        rfl⟩
  | publish x => exact ⟨_, rfl⟩
  | release x => exact ⟨_, rfl⟩
  | done x => exact ⟨_, rfl⟩

/-- Every run, whatever its threads do in whatever order, is linearized by the effects of its
operations. -/
theorem linearized (run : Runs s b past m) : Linearized s b past m := by
  have course := run.recorded.course
  obtain ⟨a, plays, mirrors⟩ := run.linear
  have empty : (Shared.empty s b : Shared τ).Tidy := Shared.tidy_empty s b
  have tidy : a.Tidy := plays.tidy empty
  have kept := plays.perm empty
  rw [show (Shared.empty s b : Shared τ).lanes.contents = [] from Lanes.contents_empty s b,
    List.append_nil] at kept
  exact
    { sound := fun _ o _ => run.exists_next o.progress
      legal := ⟨a, plays, mirrors.published_eq.trans tidy.published_eq,
        fun free => (mirrors.of_free free).1, kept⟩
      once := nodup_order course
      asked := fun e mem => by
        have effect : e ∈ effects (about e.number past) := by
          rw [effects_about]
          exact List.mem_filter.2 ⟨mem, by simp⟩
        exact (mem_about.1 ((course e.number).called_of_effect effect)).1
      answered := fun n x mem => by
        obtain ⟨r, called, why⟩ := (course n).of_replied (mem_about.2 ⟨mem, rfl⟩)
        refine ⟨r, (mem_about.1 called).1, why.imp (fun effect => ?_) fun balked =>
          ⟨balked.1, balked.2.1, (mem_about.1 balked.2.2).1⟩⟩
        rw [effects_about] at effect
        exact (List.mem_filter.1 effect).1
      balked := fun later earlier n whole => by
        subst whole
        obtain ⟨before, run', -, held⟩ := run.cut
        refine ⟨fun mem => effects_about_ne_nil mem ?_, before, run', held n rfl⟩
        exact (course n).of_balked (mem_about.2 ⟨by simp, rfl⟩)
      timely := fun k n r x => order_of_answered course
      mirror := fun free => by
        rw [(mirrors.of_free free).1]
        exact tidy.published_eq
      missed := fun later earlier n r whole => by
        subst whole
        obtain ⟨before, run', zero, -⟩ := run.cut
        obtain ⟨a', plays', mirrors'⟩ := run'.linear
        refine ⟨a', plays', List.eq_nil_of_length_eq_zero ?_⟩
        rw [← (plays'.tidy empty).published_eq, ← mirrors'.published_eq]
        exact zero n r rfl }

/-- A thief balks while a second task is being added to a linked queue. -/
theorem balking_thief_linearized :
    ∃ (past : List (Event Task)) (m : Threads Task), Runs .pinned .linked past m ∧
      past = [.changed 1 (.push (Blueprint.resolve ⟨"b", [], .normal, none, none, []⟩ 1 [])) none,
        .replied 2 none, .balked 2, .called 2 .steal,
        .called 1 (.push (Blueprint.resolve ⟨"b", [], .normal, none, none, []⟩ 1 [])),
        .replied 0 none,
        .changed 0 (.push (Blueprint.resolve ⟨"a", [], .normal, none, none, []⟩ 0 [])) none,
        .called 0 (.push (Blueprint.resolve ⟨"a", [], .normal, none, none, []⟩ 0 []))] ∧
      Linearized .pinned .linked past m := by
  have added : Runs .pinned .linked _ _ := Runs.start
    |>.call 0 (.push (Blueprint.resolve ⟨"a", [], .normal, none, none, []⟩ 0 [])) rfl
    |>.step 0 rfl rfl |>.step 0 rfl rfl |>.step 0 rfl rfl |>.step 0 rfl rfl |>.reply 0 rfl
  have holding : Runs .pinned .linked _ _ := added
    |>.call 0 (.push (Blueprint.resolve ⟨"b", [], .normal, none, none, []⟩ 1 [])) rfl
    |>.step 0 rfl rfl
  have balked : Runs .pinned .linked _ _ := holding
    |>.call 1 .steal rfl |>.step 1 rfl rfl |>.step 1 rfl rfl |>.reply 1 rfl
  have changed : Runs .pinned .linked _ _ := balked |>.step 0 rfl rfl |>.step 0 rfl rfl
  exact ⟨_, _, changed, rfl, changed.linearized⟩

end Runs

end AccessOrder.Queue
