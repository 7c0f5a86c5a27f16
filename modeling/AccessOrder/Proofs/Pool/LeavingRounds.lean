/- # Leaving a round

What a worker does alone while nobody is busy with a task: it takes part in a round, or leaves it.
The others stay where they are, and the queues hold the tasks that they have held.

* `Waits` : the owner waits at the barrier of a pool in which it can count its drains, and no work
  is broken off;
* `Errand` : what a worker has done alone;
* `Waits.exits` : a worker leaves a round that is over for it.
-/
import AccessOrder.Proofs.Pool.Advance
import AccessOrder.Proofs.Pool.Laps
namespace AccessOrder.Pool

open Barrier (Word Phase)
open Function (update)

/-- Whether a turn is one in which the owner or a worker goes on. -/
def Move.Inner (size : Nat) : Move → Prop
  | .step id | .miss id => id < size
  | _ => False

namespace Machine

/-- Turns in which none but the owner and the workers go on. -/
inductive Works (m : Machine) : Machine → Prop where
  | refl : Works m m
  | turn {a b : Machine} (mv : Move) : Works m a → mv.Inner a.size → a.move mv = some b → Works m b

variable {m after a b : Machine} {id : WorkerId} {round : UInt32}

/-- A worker of the pool may take its next step at any time. -/
theorem move_of_step (inside : id < m.size) (stepped : m.step id = some after) :
    m.move (.step id) = some after := by
  refine (move_step ?_).trans stepped
  simpa [isCaller] using fun _ => inside

/-- The owner or a worker takes a step. -/
theorem Works.step (works : m.Works a) (inside : id < a.size) (stepped : a.step id = some b) :
    m.Works b :=
  works.turn (.step id) inside (move_of_step inside stepped)

/-- The owner and the workers may go on after they have gone on. -/
theorem Works.trans (first : m.Works a) (second : a.Works b) : m.Works b := by
  induction second with
  | refl => exact first
  | turn mv _ inner moved ih => exact ih.turn mv inner moved

/-- What the owner and the workers come to is reached. -/
theorem Works.reaches (works : m.Works a) : m.Reaches a := by
  induction works with
  | refl => exact .refl
  | turn mv _ _ moved ih => exact ih.turn mv moved

/-- Who has failed does not go on. -/
theorem not_failed_of_inner {mv : Move} {size : Nat} (inner : mv.Inner size)
    (moved : m.move mv = some after) (f : Failure) : m.controlOf mv.actor ≠ .failed f := by
  intro failed
  cases move_cases moved with
  | @step id _ _ stepped =>
      obtain ⟨w, -, steps⟩ := step_cases stepped
      rw [show m.controlOf id = .failed f from failed] at steps
      cases steps
  | miss now => cases now.symm.trans failed
  | call _ calls => cases calls <;> exact inner
  | start | lead | stop => exact inner

/-! ## Workers do not fail -/

variable {l : Launch} {vocabulary : Access.Vocabulary} {handles callers : Nat}
  {references : Array HandleId} {past : List Moment}

/-- A step of a worker is no failure. -/
theorem unfailed_step (run : (l.opening vocabulary handles callers references).Runs past m)
    (pos : 0 < id) (inside : id < m.size) (was : (m.controlOf id).isFailed = false)
    (unserving : ∀ s, m.controlOf id ≠ .serving s) (stepped : m.step id = some after) :
    (after.controlOf id).isFailed = false := by
  obtain ⟨sound, orderly⟩ := run.orderly
  have seated := sound.seated id
  by_cases working : (m.controlOf id).AtWork
  · refine sound.unfailed inside orderly.sound working
      (fun victim p rest now => run.crew.visited id victim p rest now victim List.mem_cons_self)
      stepped fun p _ leads => ?_
    rw [sound.duty_of_worker (Nat.ne_of_gt pos)] at leads
    cases leads
  · obtain ⟨w, found, steps⟩ := step_cases stepped
    generalize m.controlOf id = now at *
    cases steps with
    | submitting =>
        exact absurd inside (Nat.not_lt_of_le (seated.1.resolve_left (Nat.ne_of_gt pos)))
    | started => exact unfailed_setControl m id rfl
    | stopped => exact unfailed_setControl m id rfl
    | looping =>
        refine unfailed_setControl m id ?_
        split <;> rfl
    | serving => exact absurd rfl (unserving _)
    | leading => exact absurd pos (by rw [show id = 0 from seated]; exact Nat.lt_irrefl 0)
    | _ => exact absurd trivial working

/-- No worker has failed after a run, if no more workers take part in a round than a word can
count. -/
theorem Runs.unfailed (few : l.size ≤ Word.maxJoined + 1)
    (run : (l.opening vocabulary handles callers references).Runs past m) (pos : 0 < id)
    (inside : id < m.size) : (m.controlOf id).isFailed = false := by
  induction run with
  | refl =>
      rw [controlOf_opening]
      split <;> rfl
  | @turn past m after mv run moved ih =>
      have sound := run.orderly.1
      rw [size_of_move moved] at inside
      have was := ih inside
      by_cases own : id = mv.actor
      · subst own
        by_cases serving : ∃ s, m.controlOf mv.actor = .serving s
        · obtain ⟨s, now⟩ := serving
          have attends := attends_of_serving now rfl moved (Nat.ne_of_gt pos)
          rcases attends.control (lt_of_controlOf (by simp [now])) with
            ⟨s', next⟩ | next | ⟨f, next, baffles⟩
          · rw [next]
            rfl
          · rw [next]
            rfl
          · refine absurd baffles ((run.room few).unbaffled ?_ s)
            rw [run.participants_eq]
            omega
        · have unserving : ∀ s, m.controlOf mv.actor ≠ .serving s := fun s now => serving ⟨s, now⟩
          cases move_cases moved with
          | step admitted stepped => exact unfailed_step run pos inside was unserving stepped
          | miss now => exact absurd now (unserving _)
          | call now calls =>
              exact absurd inside (Nat.not_lt_of_le
                ((calls.outer now sound).resolve_left (Nat.ne_of_gt pos)))
          | start | lead | stop => exact absurd pos (Nat.lt_irrefl 0)
      · rw [(sound.move moved).others id own]
        exact was

/-- The drains have been counted as long as the owner has not failed. -/
theorem Works.counts (works : m.Works a)
    (counts : (l.opening vocabulary handles callers references).Counts m)
    (able : a.controlOf 0 ≠ .failed .drainsUncounted) :
    (l.opening vocabulary handles callers references).Counts a := by
  induction works with
  | refl => exact counts
  | @turn x y mv works inner moved ih =>
      refine (ih fun failed => able ?_).turn mv moved able
      -- who has failed does not go on, and is left alone by others
      obtain ⟨_, run⟩ := counts.exists_runs
      obtain ⟨_, run⟩ := (run.reaches.trans works.reaches).exists_runs
      have other : 0 ≠ mv.actor := fun own => not_failed_of_inner inner moved _ (own ▸ failed)
      rw [(run.orderly.1.move moved).others 0 other, failed]

/-! ## The owner waits -/

/-- The owner waits at the barrier of a pool that has no more workers than a word can count, and
could count the drains so far, and no work that is still to be done is broken off. -/
structure Waits (m : Machine) : Prop where
  counts : ∃ (l : Launch) (vocabulary : Access.Vocabulary) (handles callers : Nat)
    (references : Array HandleId), l.size ≤ Word.maxJoined + 1 ∧
      (l.opening vocabulary handles callers references).Counts m
  awaiting : (m.controlOf 0).awaiting = true
  up : m.crash = none
  returns : m.cost.breaks = 0

namespace Waits

/-- The machine has come about in a run. -/
theorem run (waits : Waits m) : ∃ (l : Launch) (vocabulary : Access.Vocabulary)
    (handles callers : Nat) (references : Array HandleId) (past : List Moment),
    l.size ≤ Word.maxJoined + 1 ∧
      (l.opening vocabulary handles callers references).Runs past m := by
  obtain ⟨l, vocabulary, handles, callers, references, few, counts⟩ := waits.counts
  obtain ⟨past, run⟩ := counts.exists_runs
  exact ⟨l, vocabulary, handles, callers, references, past, few, run⟩

theorem sound (waits : Waits m) : m.Sound := by
  obtain ⟨_, _, _, _, _, _, _, run⟩ := waits.run
  exact run.orderly.1

theorem orderly (waits : Waits m) : ∃ past, Orderly past m.world m.hands := by
  obtain ⟨_, _, _, _, _, past, _, run⟩ := waits.run
  exact ⟨past, run.orderly.2⟩

theorem rounds (waits : Waits m) : m.Rounds := by
  obtain ⟨_, _, _, _, _, _, _, run⟩ := waits.run
  exact run.rounds

theorem led (waits : Waits m) : m.Led (m.controlOf 0) := by
  obtain ⟨_, _, _, _, _, _, _, run⟩ := waits.run
  exact run.led

theorem crew (waits : Waits m) : m.Crew := by
  obtain ⟨_, _, _, _, _, _, _, run⟩ := waits.run
  exact run.crew

theorem laps (waits : Waits m) : ∃ c, Laps c m := by
  obtain ⟨_, _, _, _, _, few, counts⟩ := waits.counts
  exact counts.exists_laps few

/-- No more workers take part in a round than a word can count. -/
theorem few (waits : Waits m) : m.participants ≤ Word.maxJoined := by
  obtain ⟨_, _, _, _, _, _, few, run⟩ := waits.run
  rw [run.participants_eq]
  omega

theorem unfailed (waits : Waits m) (pos : 0 < id) (inside : id < m.size) :
    (m.controlOf id).isFailed = false := by
  obtain ⟨_, _, _, _, _, _, few, run⟩ := waits.run
  exact run.unfailed few pos inside

/-- A worker makes sense of every word that it comes upon. -/
theorem unbaffled (waits : Waits m) (s : Service) : ¬m.Baffles s := by
  obtain ⟨c, laps⟩ := waits.laps
  exact laps.unbaffled waits.few s

/-- The word makes sense. -/
theorem word (waits : Waits m) : ∃ w, m.barrier.load = .ok w ∧
    (w.phase = .entering → w.joined.toNat < m.participants) := by
  obtain ⟨c, laps⟩ := waits.laps
  exact laps.room

/-- Who takes part in a round has seen it. -/
theorem own (waits : Waits m) {s : Service} (now : m.controlOf id = .serving s)
    (stage : s.round? = some round) : m.seenOf id = round := by
  obtain ⟨c, laps⟩ := waits.laps
  exact laps.own id s round now stage

/-- There is a worker that waits at the barrier. -/
theorem inside (waits : Waits m) : 0 < m.size := by
  have seated := waits.sound.seated 0
  have awaiting := waits.awaiting
  cases now : m.controlOf 0 with
  | leading l =>
      have some := waits.crew.peopled l now
      rw [participants] at some
      omega
  | popping p | executing e =>
      rw [now] at seated
      exact seated.1
  | _ =>
      rw [now] at awaiting
      cases awaiting

/-- The pool is not shut down while the owner waits. -/
theorem running (waits : Waits m) : m.shutdown = false := (waits.rounds.alone waits.awaiting).1

/-- The owner still waits after turns that leave it waiting. -/
theorem works (waits : Waits m) (works : m.Works a)
    (awaiting : (a.controlOf 0).awaiting = true) (up : a.crash = none)
    (returns : a.cost.breaks = 0) : Waits a where
  counts := by
    obtain ⟨l, vocabulary, handles, callers, references, few, counts⟩ := waits.counts
    refine ⟨l, vocabulary, handles, callers, references, few, works.counts counts fun failed => ?_⟩
    rw [failed] at awaiting
    cases awaiting
  awaiting := awaiting
  up := up
  returns := returns

end Waits

/-! ## Nobody is busy -/

/-- Nobody runs a task or has got past reading the length of a queue. -/
def Calm (m : Machine) : Prop := ∀ id < m.size, ¬(m.controlOf id).Busy

/-- Who is not busy while the owner waits has nothing in hand, and costs nothing. -/
theorem Sound.idle (sound : m.Sound) (awaiting : (m.controlOf 0).awaiting = true)
    (inside : id < m.size) (idle : ¬(m.controlOf id).Busy) :
    (m.controlOf id).cost = 0 ∧ m.hands id = [] := by
  have seated := sound.seated id
  rw [hands]
  cases now : m.controlOf id with
  | submitting s =>
      rw [now] at seated
      obtain rfl : id = 0 := seated.1.resolve_right (Nat.not_le_of_lt inside)
      rw [now] at awaiting
      cases awaiting
  | popping p =>
      rw [now] at seated idle
      obtain ⟨-, taking⟩ := seated
      cases taking with
      | measure => exact ⟨rfl, rfl⟩
      | acquire | change | publish | release => exact absurd (by constructor) idle
  | stealing victim p rest =>
      rw [now] at seated idle
      obtain ⟨-, taking⟩ := seated
      cases taking with
      | measure => exact ⟨rfl, rfl⟩
      | acquire | change | publish | release => exact absurd (by constructor) idle
  | executing e =>
      rw [now] at idle
      exact absurd trivial idle
  | _ => exact ⟨rfl, rfl⟩

/-- Nobody has the lock of a queue while nobody is busy. -/
theorem Waits.unguarded (waits : Waits m) (calm : m.Calm) (q : WorkerId) (changed : Bool)
    (p : Place) : .guard q changed ∉ m.world.items m.hands p := by
  intro mem
  cases p with
  | queue o => simp [World.items] at mem
  | waiting h v => exact guard_not_mem_loose _ q changed mem
  | kept => simp [World.items] at mem
  | hands id =>
      replace mem : Item.guard q changed ∈ m.hands id := mem
      by_cases inside : id < m.size
      · rw [(waits.sound.idle waits.awaiting inside (calm id inside)).2] at mem
        cases mem
      · exact waits.sound.unguarded (Nat.le_of_not_lt inside)
          ((waits.rounds.alone waits.awaiting).2 id) q changed mem

/-- The length of a queue that is read is that of the queue while nobody is busy. -/
theorem Waits.queueLength_eq (waits : Waits m) (calm : m.Calm) (q : WorkerId) :
    m.queueLength q = (m.world.queue q).length := by
  obtain ⟨past, orderly⟩ := waits.orderly
  rw [← published_eq]
  exact (orderly.published q).resolve_right fun ⟨p, mem⟩ => waits.unguarded calm q true p mem

/-- Every queue is free while nobody is busy. -/
theorem Waits.free (waits : Waits m) (calm : m.Calm) (q : WorkerId) :
    m.world.held q = false := by
  obtain ⟨past, orderly⟩ := waits.orderly
  by_contra held
  obtain ⟨p, kept⟩ := (orderly.guards q).1 (eq_true_of_ne_false held)
  obtain ⟨x, mem, key⟩ := mem_keysOf.1 kept
  cases x with
  | guard q' changed => exact waits.unguarded calm q' changed p mem
  | running f stage => simp [Item.keys] at key
  | _ => cases List.mem_singleton.1 key

/-! ## What a worker does alone -/

/-- What someone leaves as it is that goes its way alone. -/
structure Beside (m : Machine) (id : WorkerId) (a : Machine) : Prop where
  others : ∀ o ≠ id, a.controlOf o = m.controlOf o
  size : a.size = m.size
  round : a.round? = m.round?
  seen : ∀ o ≠ id, a.seenOf o = m.seenOf o
  queues : ∀ q, (a.world.queue q).Perm (m.world.queue q)
  raised : m.barrier.aborted = true → a.barrier.aborted = true

/-- Two ways one after the other. -/
theorem Beside.trans (first : m.Beside id a) (second : a.Beside id b) : m.Beside id b where
  others o other := (second.others o other).trans (first.others o other)
  size := second.size.trans first.size
  round := second.round.trans first.round
  seen o other := (second.seen o other).trans (first.seen o other)
  queues q := (second.queues q).trans (first.queues q)
  raised up := second.raised (first.raised up)

/-- What someone has done alone, after which nobody is busy and as much is ahead as before. -/
structure Errand (m : Machine) (id : WorkerId) (a : Machine) : Prop extends m.Beside id a where
  works : m.Works a
  waits : Waits a
  calm : a.Calm
  cost : a.cost = m.cost
  drains : a.drains = m.drains

/-- A queue that holds a task still holds one. -/
theorem Beside.full (beside : m.Beside id a) {q : WorkerId} (full : m.world.queue q ≠ []) :
    a.world.queue q ≠ [] := by
  intro empty
  have same := beside.queues q
  rw [empty, List.nil_perm] at same
  exact full same

/-- Two errands one after the other. -/
theorem Errand.trans (first : Errand m id a) (second : Errand a id b) : Errand m id b where
  toBeside := first.toBeside.trans second.toBeside
  works := first.works.trans second.works
  waits := second.waits
  calm := second.calm
  cost := second.cost.trans first.cost
  drains := second.drains.trans first.drains

/-- As much is ahead after a step in a barrier round as before, and nobody is busy. -/
theorem Waits.spares (waits : Waits m) (calm : m.Calm) (inside : id < m.size)
    (stepped : m.step id = some after) (spares : m.Spares after)
    (rests : ¬(after.controlOf id).Busy) (awaiting : (after.controlOf 0).awaiting = true) :
    m.Works after ∧ Waits after ∧ after.Calm ∧ after.cost = m.cost := by
  have turned := waits.sound.step stepped
  have others := turned.others
  have works : m.Works after := Works.refl.step inside stepped
  have cost : after.cost = m.cost := by
    have change := cost_of_others inside spares.size others
    rw [(waits.sound.idle waits.awaiting inside (calm id inside)).1,
      (turned.sound.idle awaiting (spares.size.symm ▸ inside) rests).1, spares.world] at change
    exact add_right_cancel change
  refine ⟨works, waits.works works awaiting (spares.crash.trans waits.up)
    (cost.symm ▸ waits.returns), fun o there => ?_, cost⟩
  by_cases own : o = id
  · exact own ▸ rests
  · rw [others o own]
    exact calm o (spares.size ▸ there)

/-- A step in a barrier round is an errand. -/
theorem Waits.errand (waits : Waits m) (calm : m.Calm) (inside : id < m.size)
    (stepped : m.step id = some after) (spares : m.Spares after)
    (rests : ¬(after.controlOf id).Busy) (awaiting : (after.controlOf 0).awaiting = true)
    (drains : after.drains = m.drains) (round : after.round? = m.round?)
    (seen : ∀ o ≠ id, after.seenOf o = m.seenOf o)
    (raised : m.barrier.aborted = true → after.barrier.aborted = true) :
    Errand m id after := by
  obtain ⟨works, waits', calm', cost⟩ := waits.spares calm inside stepped spares rests awaiting
  refine ⟨⟨(waits.sound.step stepped).others, spares.size, round, seen, fun q => ?_, raised⟩, works,
    waits', calm', cost, drains⟩
  rw [spares.world]

/-- A step of a worker in a barrier round, by its stage. -/
theorem step_serving (up : m.crash = none) {s : Service} (now : m.controlOf id = .serving s) :
    m.step id = proceed id .serving (fun m _ => m.setControl id popping)
      (m.serveStep id (m.seenOf id) s) := by
  have here : id < m.workers.size := lt_of_controlOf (by simp [now])
  have found := Array.getElem?_eq_getElem here
  have control := controlOf_of_found found
  have seen : m.seenOf id = (m.workers[id]).seenRound := by
    rw [seenOf, traitsOf, found]
    rfl
  unfold Machine.step
  rw [if_neg (by rw [up]; exact Bool.false_ne_true), found]
  simp only [← control, now, seen]

/-- A worker goes on in a barrier round, or leaves it. -/
theorem Waits.serve (waits : Waits m) (calm : m.Calm) (pos : 0 < id) (inside : id < m.size)
    {s : Service} (now : m.controlOf id = .serving s) {b : Barrier.State} {x : Control}
    (stepped : proceed id .serving (fun m _ => m.setControl id popping)
      (m.serveStep id (m.seenOf id) s) = some (setControl { m with barrier := b } id x))
    (rests : ¬x.Busy) (round : round? { m with barrier := b } = m.round?)
    (raised : m.barrier.aborted = true → b.aborted = true) :
    ∃ a, Errand m id a ∧ a.controlOf id = x ∧ a.barrier = b ∧
      ∀ o, a.seenOf o = m.seenOf o := by
  rw [← step_serving waits.up now] at stepped
  have here : id < m.workers.size := lt_of_controlOf (by simp [now])
  have control : (setControl { m with barrier := b } id x).controlOf id = x :=
    controlOf_setControl_self (by exact here) x
  have spares : m.Spares (setControl { m with barrier := b } id x) :=
    (spares_barrier m b m.events).setControl id x
  have seen : ∀ o, seenOf (setControl { m with barrier := b } id x) o = m.seenOf o := fun o =>
    seenOf_setControl _ id o x
  have errand := waits.errand calm inside stepped spares (by rwa [control])
    (by rw [(waits.sound.step stepped).others 0 (Nat.ne_of_lt pos)]; exact waits.awaiting)
    (drains_congr (dutyOf_setControl { m with barrier := b } id 0 x)) round (fun o _ => seen o)
    raised
  exact ⟨_, errand, control, rfl, seen⟩

/-! ## What a pool can be brought to -/

/-- When nobody is busy no operation on a queue is under way. -/
theorem Waits.due_eq (waits : Waits m) (calm : m.Calm) : m.due = 1 := by
  have idle := calm 0 waits.inside
  unfold due
  split
  · next now => exact absurd (by rw [now]; constructor) idle
  · next now => exact absurd (by rw [now]; constructor) idle
  · next now => exact absurd (by rw [now]; constructor) idle
  · next now => exact absurd (by rw [now]; constructor) idle
  · rfl

/-- In turns of the owner and the workers alone, a pool can be brought to a goal at which as much is
ahead as before and nobody is busy, unless there is a task in a queue and less is ahead then, or the
owner has come out of the barrier. -/
def Attains (m : Machine) (goal : Machine → Prop) : Prop :=
  ∃ a, m.Works a ∧ (a.Returned ∨ Waits a ∧ a.drains = m.drains ∧
    ((∃ q, m.world.queue q ≠ []) ∧ a.cost.Below m.cost ∧ a.due = 1 ∨
      (∀ q, (a.world.queue q).Perm (m.world.queue q)) ∧ a.cost = m.cost ∧ a.Calm ∧ goal a))

/-- Empty queues stay empty. -/
theorem empty_of_perm {q : WorkerId} (same : (a.world.queue q).Perm (m.world.queue q))
    (empty : m.world.queue q = []) : a.world.queue q = [] := by
  rwa [empty, List.perm_nil] at same

section Attains

variable {goal goal' : Machine → Prop}

/-- A goal that can be attained after turns that change nothing of weight can be attained before
them. -/
theorem Attains.before (attains : Attains a goal) (works : m.Works a) (drains : a.drains = m.drains)
    (cost : a.cost = m.cost) (queues : ∀ q, (a.world.queue q).Perm (m.world.queue q)) :
    Attains m goal := by
  obtain ⟨b, works', reached⟩ := attains
  obtain returned | ⟨waits, drains', ⟨⟨q, full⟩, below, due⟩ | ⟨same, there⟩⟩ := reached
  · exact ⟨b, works.trans works', .inl returned⟩
  · refine ⟨b, works.trans works', .inr ⟨waits, drains'.trans drains, .inl ⟨⟨q, ?_⟩, ?_, due⟩⟩⟩
    · exact fun empty => full (empty_of_perm (queues q) empty)
    · rwa [cost] at below
  · rw [cost] at there
    exact ⟨b, works.trans works', .inr ⟨waits, drains'.trans drains,
      .inr ⟨fun q => (same q).trans (queues q), there⟩⟩⟩

/-- A goal can be attained where a pool is. -/
theorem Waits.attains (waits : Waits m) (calm : m.Calm) (there : goal m) : Attains m goal :=
  ⟨m, .refl, .inr ⟨waits, rfl, .inr ⟨fun _ => .refl _, rfl, calm, there⟩⟩⟩

/-- A goal that can be attained after an errand can be attained before it. -/
theorem Errand.before (errand : Errand m id a) (attains : Attains a goal) : Attains m goal :=
  Attains.before attains errand.works errand.drains errand.cost errand.queues

/-- A goal can be attained by an errand. -/
theorem Errand.attains (errand : Errand m id a) (there : goal a) : Attains m goal :=
  errand.before (errand.waits.attains errand.calm there)

/-- A goal can be attained by way of another one. -/
theorem Attains.bind (attains : Attains m goal)
    (next : ∀ a, Waits a → a.Calm → goal a → Attains a goal') : Attains m goal' := by
  obtain ⟨a, works, returned | ⟨waits, drains, below | ⟨same, cost, calm, there⟩⟩⟩ := attains
  · exact ⟨a, works, .inl returned⟩
  · exact ⟨a, works, .inr ⟨waits, drains, .inl below⟩⟩
  · exact (next a waits calm there).before works drains cost same

/-- Whoever attains a goal attains a weaker one. -/
theorem Attains.mono (attains : Attains m goal) (weaker : ∀ a, goal a → goal' a) :
    Attains m goal' :=
  attains.bind fun a waits calm there => waits.attains calm (weaker a there)

/-- As many drains have been counted once a goal is attained as before, and the queues hold the same
tasks. -/
theorem Attains.keeps (attains : Attains m goal) : Attains m fun a => a.drains = m.drains ∧
    (∀ q, (a.world.queue q).Perm (m.world.queue q)) ∧ goal a := by
  obtain ⟨a, works, returned | ⟨waits, drains, below | ⟨same, cost, calm, there⟩⟩⟩ := attains
  · exact ⟨a, works, .inl returned⟩
  · exact ⟨a, works, .inr ⟨waits, drains, .inl below⟩⟩
  · exact ⟨a, works, .inr ⟨waits, drains, .inr ⟨same, cost, calm, drains, same, there⟩⟩⟩

/-- When there is no task in any queue, the owner comes out of the barrier if it does so once a goal
has been attained. -/
theorem Attains.returned (attains : Attains m goal) (empty : ∀ q, m.world.queue q = [])
    (next : ∀ a, Waits a → a.Calm → (∀ q, a.world.queue q = []) → goal a →
      ∃ b, a.Works b ∧ b.Returned) : ∃ b, m.Works b ∧ b.Returned := by
  obtain ⟨a, works, returned | ⟨waits, -, ⟨⟨q, full⟩, -⟩ | ⟨same, -, calm, there⟩⟩⟩ := attains
  · exact ⟨a, works, returned⟩
  · exact absurd (empty q) full
  · obtain ⟨b, works', returned⟩ :=
      next a waits calm (fun q => empty_of_perm (same q) (empty q)) there
    exact ⟨b, works.trans works', returned⟩

end Attains

/-! ## Leaving a round -/

/-- Whether a worker has a reason to leave the round that it has seen, or will find one. -/
def Leaving (m : Machine) (id : WorkerId) : Prop :=
  m.round? ≠ some (m.seenOf id) ∨ m.barrier.aborted = true ∨ m.world.queue id ≠ []

/-- A worker can get out of the round that it has seen. -/
def Exits (m : Machine) (id : WorkerId) : Prop :=
  ∃ a, Errand m id a ∧ a.controlOf id = popping ∧ ∀ o, a.seenOf o = m.seenOf o

/-- What a worker finds to be a reason stays one. -/
theorem Leaving.errand (leaving : m.Leaving id) (errand : Errand m id a)
    (seen : ∀ o, a.seenOf o = m.seenOf o) : a.Leaving id := by
  refine leaving.imp (fun other => ?_) (Or.imp errand.raised errand.full)
  rwa [errand.round, seen]

/-- A worker that gets out after it has gone on gets out. -/
theorem Exits.of_errand (exits : Exits a id) (errand : Errand m id a)
    (seen : ∀ o, a.seenOf o = m.seenOf o) : Exits m id := by
  obtain ⟨b, errand', control, seen'⟩ := exits
  exact ⟨b, errand.trans errand', control, fun o => (seen' o).trans (seen o)⟩

namespace Waits

variable (waits : Waits m) (calm : m.Calm) (pos : 0 < id) (inside : id < m.size)
include waits calm pos inside

/-- A worker gets out of a round by a step that ends its part in it. -/
theorem exits_of_ends {s : Service} (now : m.controlOf id = .serving s)
    {b : Barrier.State}
    (stepped : m.serveStep id (m.seenOf id) s = ({ m with barrier := b }, .ends ()))
    (round : round? { m with barrier := b } = m.round?)
    (raised : m.barrier.aborted = true → b.aborted = true) : Exits m id := by
  obtain ⟨a, errand, control, -, seen⟩ := waits.serve calm pos inside now
    (b := b) (x := popping) (by rw [stepped]; rfl) (by rintro ⟨⟩) round raised
  exact ⟨a, errand, control, seen⟩

/-- A worker gets out of a round by a step after which it does. -/
theorem exits_of_goes {s : Service} (now : m.controlOf id = .serving s)
    (s' : Service) (stepped : m.serveStep id (m.seenOf id) s = (m, .goes s'))
    (rest : ∀ {a}, Errand m id a → a.controlOf id = .serving s' → a.barrier = m.barrier →
      (∀ o, a.seenOf o = m.seenOf o) → Exits a id) : Exits m id := by
  obtain ⟨a, errand, control, barrier, seen⟩ := waits.serve calm pos inside now
    (b := m.barrier) (x := .serving s') (by rw [stepped]; rfl) (by rintro ⟨⟩) rfl fun up => up
  exact Exits.of_errand (rest errand control barrier seen) errand seen

/-- A worker that raises the flag gets out. -/
theorem exits_raise (now : m.controlOf id = .serving .raise) : Exits m id :=
  waits.exits_of_ends calm pos inside now rfl rfl fun _ => rfl

/-- A worker that finds a task in its own queue while it waits gets out. -/
theorem exits_watchQueue_of_full (full : m.world.queue id ≠ [])
    (now : m.controlOf id = .serving (.watchQueue round)) : Exits m id := by
  have long : m.queueLength id ≠ 0 := by
    rw [waits.queueLength_eq calm]
    exact fun zero => full (List.eq_nil_of_length_eq_zero zero)
  refine waits.exits_of_goes calm pos inside now .raise ?_ ?_
  · simp only [serveStep, if_neg long]
  · intro a errand control _ _
    exact errand.waits.exits_raise errand.calm pos (errand.size.symm ▸ inside) control

/-- A worker that waits finds the flag raised, or a task in its own queue. -/
theorem exits_watchFlag_of_due (due : m.barrier.aborted = true ∨ m.world.queue id ≠ [])
    (now : m.controlOf id = .serving (.watchFlag round)) : Exits m id := by
  by_cases raised : m.barrier.aborted = true
  · refine waits.exits_of_ends calm pos inside now (b := m.barrier) ?_ rfl
      fun up => up
    simp only [serveStep, if_pos raised]
  · refine waits.exits_of_goes calm pos inside now (.watchQueue round) ?_ ?_
    · simp only [serveStep, if_neg raised]
    · intro a errand control _ _
      exact errand.waits.exits_watchQueue_of_full errand.calm pos (errand.size.symm ▸ inside)
        (errand.full (due.resolve_left raised)) control

/-- A worker that waits for the end of a round looks whether it is over, and finds its reason. -/
theorem exits_watchWord (leaving : m.Leaving id)
    (now : m.controlOf id = .serving (.watchWord round)) : Exits m id := by
  obtain ⟨w, loaded, -⟩ := waits.word
  have own := waits.own now rfl
  by_cases past : w.round ≠ round ∨ w.phase = .idle
  · refine waits.exits_of_ends calm pos inside now (b := m.barrier) ?_ rfl
      fun up => up
    simp only [serveStep, loaded, if_pos past]
  · have current : m.round? = some (m.seenOf id) := by
      obtain ⟨same, active⟩ := not_or.1 past
      rw [own]
      exact round?_eq_some.2 ⟨w, loaded, active, Decidable.not_not.1 same⟩
    refine waits.exits_of_goes calm pos inside now (.watchFlag round) ?_ ?_
    · simp only [serveStep, loaded, if_neg past]
    · intro a errand control _ _
      refine errand.waits.exits_watchFlag_of_due errand.calm pos (errand.size.symm ▸ inside) ?_
        control
      exact (leaving.resolve_left (not_not_intro current)).imp errand.raised errand.full

/-- A worker that waits looks whether the pool is shut down, and then at the word. -/
theorem exits_watchShutdown (leaving : m.Leaving id)
    (now : m.controlOf id = .serving (.watchShutdown round)) : Exits m id := by
  refine waits.exits_of_goes calm pos inside now (.watchWord round) ?_ ?_
  · simp only [serveStep, waits.running, Bool.false_eq_true, if_false]
  · intro a errand control _ seen
    exact errand.waits.exits_watchWord errand.calm pos (errand.size.symm ▸ inside)
      (leaving.errand errand seen) control

/-- A worker that waits looks at its own queue, and then whether the pool is shut down. -/
theorem exits_watchQueue (leaving : m.Leaving id)
    (now : m.controlOf id = .serving (.watchQueue round)) : Exits m id := by
  by_cases full : m.world.queue id = []
  · refine waits.exits_of_goes calm pos inside now (.watchShutdown round) ?_ ?_
    · have zero : m.queueLength id = 0 := by rw [waits.queueLength_eq calm, full]; rfl
      simp only [serveStep, if_pos zero]
    · intro a errand control _ seen
      exact errand.waits.exits_watchShutdown errand.calm pos (errand.size.symm ▸ inside)
        (leaving.errand errand seen) control
  · exact waits.exits_watchQueue_of_full calm pos inside full now

/-- A worker that waits looks at the flag, and then at its own queue. -/
theorem exits_watchFlag (leaving : m.Leaving id)
    (now : m.controlOf id = .serving (.watchFlag round)) : Exits m id := by
  by_cases raised : m.barrier.aborted = true
  · exact waits.exits_watchFlag_of_due calm pos inside (.inl raised) now
  · refine waits.exits_of_goes calm pos inside now (.watchQueue round) ?_ ?_
    · simp only [serveStep, if_neg raised]
    · intro a errand control _ seen
      exact errand.waits.exits_watchQueue errand.calm pos (errand.size.symm ▸ inside)
        (leaving.errand errand seen) control

/-- A worker that has read the current word joins. -/
theorem join {next : UInt64}
    (now : m.controlOf id = .serving (.swap round m.barrier.word next)) :
    ∃ a, Errand m id a ∧ a.controlOf id = .serving (.watchWord round) ∧
      a.barrier.aborted = m.barrier.aborted ∧ ∀ o, a.seenOf o = m.seenOf o := by
  obtain ⟨w, w', read, at', entering, written, at'', active, -⟩ :=
    joined_eq_ok_some (waits.rounds.swaps id round _ next now)
  have before : m.round? = some round :=
    round?_eq_some.2 ⟨w, read, by rw [entering]; rintro ⟨⟩, at'⟩
  have after : round? { m with barrier := { m.barrier with word := next } } = some round :=
    round?_eq_some.2 ⟨w', written, active, at''⟩
  obtain ⟨a, errand, control, barrier, seen⟩ := waits.serve calm pos inside now
    (b := { m.barrier with word := next }) (x := .serving (.watchWord round))
    (by simp only [serveStep, Barrier.State.exchange]; rfl) (by rintro ⟨⟩)
    (after.trans before.symm) fun up => up
  exact ⟨a, errand, control, by rw [barrier], seen⟩

/-- A worker that has read the word in order to join is refused, or is about to join. -/
theorem tries {s : Service} (now : m.controlOf id = .serving s)
    (stepped : m.serveStep id (m.seenOf id) s = (m, m.joining round m.barrier.word)) :
    ∃ a, Errand m id a ∧ a.barrier = m.barrier ∧ (∀ o, a.seenOf o = m.seenOf o) ∧
      (a.controlOf id = popping ∧
          Barrier.State.joined m.barrier.word round m.participants = .ok none ∨
        ∃ next, a.controlOf id = .serving (.swap round a.barrier.word next)) := by
  cases joined : Barrier.State.joined m.barrier.word round m.participants with
  | error f =>
      have baffles : m.Baffles (.read round) := .inr ⟨round, f, rfl, joined⟩
      exact absurd baffles (waits.unbaffled _)
  | ok result =>
      cases result with
      | none =>
          obtain ⟨a, errand, control, barrier, seen⟩ := waits.serve calm pos inside now
            (b := m.barrier) (x := popping) (by simp only [stepped, joining, joined]; rfl)
            (by rintro ⟨⟩) rfl fun up => up
          exact ⟨a, errand, barrier, seen, .inl ⟨control, rfl⟩⟩
      | some next =>
          obtain ⟨a, errand, control, barrier, seen⟩ := waits.serve calm pos inside now
            (b := m.barrier) (x := .serving (.swap round m.barrier.word next))
            (by simp only [stepped, joining, joined]; rfl) (by rintro ⟨⟩) rfl fun up => up
          exact ⟨a, errand, barrier, seen, .inr ⟨next, by rw [control, barrier]⟩⟩

/-- A worker that joins gets out. -/
theorem exits_join (leaving : m.Leaving id) {next : UInt64}
    (now : m.controlOf id = .serving (.swap round m.barrier.word next)) : Exits m id := by
  obtain ⟨a, errand, control, -, seen⟩ := waits.join calm pos inside now
  refine Exits.of_errand ?_ errand seen
  exact errand.waits.exits_watchWord errand.calm pos (errand.size.symm ▸ inside)
    (leaving.errand errand seen) control

/-- A worker that reads the word in order to join gets out. -/
theorem exits_tries (round : UInt32) (leaving : m.Leaving id) {s : Service}
    (now : m.controlOf id = .serving s)
    (stepped : m.serveStep id (m.seenOf id) s = (m, m.joining round m.barrier.word)) :
    Exits m id := by
  obtain ⟨a, errand, -, seen, ⟨control, -⟩ | ⟨next, control⟩⟩ :=
    waits.tries calm pos inside now stepped
  · exact ⟨a, errand, control, seen⟩
  · refine Exits.of_errand ?_ errand seen
    exact errand.waits.exits_join errand.calm pos (errand.size.symm ▸ inside)
      (leaving.errand errand seen) control

/-- A worker that has a reason to leave the round in which it takes part gets out of it. -/
theorem exits (leaving : m.Leaving id) (engaged : (m.controlOf id).engaged = true) :
    Exits m id := by
  cases now : m.controlOf id with
  | serving s =>
      cases s with
      | look =>
          rw [now] at engaged
          cases engaged
      | measure round =>
          by_cases zero : m.queueLength id = 0
          · refine waits.exits_of_goes calm pos inside now (.read round) ?_ ?_
            · simp only [serveStep, if_pos zero]
            · intro a errand control _ seen
              exact errand.waits.exits_tries errand.calm pos (errand.size.symm ▸ inside) round
                (leaving.errand errand seen) control rfl
          · refine waits.exits_of_goes calm pos inside now .raise ?_ ?_
            · simp only [serveStep, if_neg zero]
            · intro a errand control _ _
              exact errand.waits.exits_raise errand.calm pos (errand.size.symm ▸ inside) control
      | raise => exact waits.exits_raise calm pos inside now
      | read round => exact waits.exits_tries calm pos inside round leaving now rfl
      | swap round expected next =>
          by_cases current : m.barrier.word = expected
          · exact waits.exits_join calm pos inside leaving (current ▸ now)
          · refine waits.exits_tries calm pos inside round leaving now ?_
            simp only [serveStep, Barrier.State.exchange, if_neg current]
      | watchWord round => exact waits.exits_watchWord calm pos inside leaving now
      | watchFlag round => exact waits.exits_watchFlag calm pos inside leaving now
      | watchQueue round => exact waits.exits_watchQueue calm pos inside leaving now
      | watchShutdown round => exact waits.exits_watchShutdown calm pos inside leaving now
  | _ =>
      rw [now] at engaged
      cases engaged

end Waits

end Machine

end AccessOrder.Pool
