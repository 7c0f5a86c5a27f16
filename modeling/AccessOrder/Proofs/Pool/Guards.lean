/- # Locks of queues are given back

Whoever holds the lock of a queue is in the middle of an operation on it.  From then on it waits for
nobody, and has given the lock back after three of its steps.

* `Deed.held_cases` : a lock that is held after a deed has been in the same hands before, or is in
  hand;
* `Settled.guarded_runs` : in the course of a run no lock is left to nobody;
* `Sound.frees` : the lock of a queue is given back by the steps of its holder alone.
-/
import AccessOrder.Proofs.Pool.Courses
import AccessOrder.Proofs.Pool.Scenes
import AccessOrder.Proofs.Queue.Threads
namespace AccessOrder

open Function (update)

/-- Whether the lock of the queue is held in the middle of an operation. -/
inductive Queue.Progress.Holding : Queue.Progress Task → Prop where
  | change (r : Queue.Request Task) : Holding (.change r)
  | publish (x : Option Task) : Holding (.publish x)
  | release (x : Option Task) : Holding (.release x)

/-- The most steps that an operation on a queue still takes, once it has the lock. -/
def Queue.Progress.left : Queue.Progress Task → Nat
  | .measure _ => 5
  | .acquire _ => 4
  | .change _ => 3
  | .publish _ => 2
  | .release _ => 1
  | .done _ => 0

namespace Pool

/-! ## Whose the lock is -/

/-- Only the lock is changed that is taken or given back. -/
theorem World.held_setHeld (w : World) (q : WorkerId) (held : Bool) (o : WorkerId) :
    (w.setHeld q held).held o = if o = q then held else w.held o := Function.update_apply ..

/-- A lock that is held after a deed has been in the same hands before it, or is in hand. -/
theorem Deed.held_cases {w w' : World} {xs ys : List Item} {ms : List Moment} {q : WorkerId}
    (deed : Deed w xs ms w' ys) (unbroken : ¬Broken w xs) (held : w'.held q = true) :
    (∃ changed, .guard q changed ∈ ys) ∨ w.held q = true ∧ ∀ changed, .guard q changed ∉ xs := by
  have stays : (∀ c, .guard q c ∈ xs → ∃ c, .guard q c ∈ ys) → w.held q = true →
      (∃ c, .guard q c ∈ ys) ∨ w.held q = true ∧ ∀ c, .guard q c ∉ xs := by
    intro kept held
    by_cases mine : ∃ c, .guard q c ∈ xs
    · exact .inl (mine.elim kept)
    · exact .inr ⟨held, fun c mem => mine ⟨c, mem⟩⟩
  cases deed with
  | @acquire xs q' inside free =>
      by_cases same : q = q'
      · exact .inl ⟨false, same ▸ List.mem_cons_self⟩
      · have before : w.held q = true := by rwa [w.held_setHeld, if_neg same] at held
        exact stays (fun c mem => ⟨c, List.mem_cons_of_mem _ mem⟩) before
  | @unguard xs q' =>
      have same : q ≠ q' := by
        rintro rfl
        rw [w.held_setHeld, if_pos rfl] at held
        cases held
      have before : w.held q = true := by rwa [w.held_setHeld, if_neg same] at held
      refine stays (fun c mem => ⟨c, ?_⟩) before
      simpa [same] using mem
  | @store xs t q' ts same | @fetch xs x q' ts same =>
      refine stays (fun c mem => ?_) held
      by_cases own : q = q'
      · exact ⟨true, own ▸ List.mem_cons_self⟩
      · exact ⟨c, by simpa [own, looseItems] using mem⟩
  | @publish xs q' =>
      refine stays (fun c mem => ?_) held
      by_cases own : q = q'
      · exact ⟨false, own ▸ List.mem_cons_self⟩
      · exact ⟨c, by simpa [own] using mem⟩
  | release met holder =>
      exact stays (fun c mem => ⟨c, by simpa [looseItems] using mem⟩) held
  | strands stray => exact absurd (.stray stray) unbroken
  | broken fault => exact absurd (.fault fault) unbroken
  | _ => exact stays (fun c mem => ⟨c, by simpa using mem⟩) held

namespace Machine

variable {m after : Machine} {id q : WorkerId} {p : Queue.Progress Task}

/-- Whether the lock of every queue that is held is in somebody's hands. -/
def Guarded (m : Machine) : Prop :=
  ∀ q, m.world.held q = true → ∃ id changed, .guard q changed ∈ m.hands id

/-- A turn leaves no lock to nobody. -/
theorem Guarded.turned (guarded : m.Guarded) {ms : List Moment} (turned : m.Turned id ms after)
    (unbroken : ¬Broken m.world (m.hands id)) : after.Guarded := by
  intro q held
  rcases turned.deed.held_cases unbroken held with ⟨changed, mem⟩ | ⟨before, away⟩
  · exact ⟨id, changed, mem⟩
  · obtain ⟨o, changed, mem⟩ := guarded q before
    have other : o ≠ id := fun same => away changed (same ▸ mem)
    refine ⟨o, changed, ?_⟩
    rwa [hands, turned.others o other]

/-- No lock of a queue is held as a pool starts. -/
theorem guarded_opening (l : Launch) (vocabulary : Access.Vocabulary) (handles callers : Nat)
    (references : Array HandleId) :
    (l.opening vocabulary handles callers references).Guarded := by
  intro q held
  rw [world_opening] at held
  cases held

end Machine

/-! ## Whoever holds a lock -/

/-- Whether a worker is in the middle of an operation on a queue. -/
inductive Control.Operates (id q : WorkerId) (p : Queue.Progress Task) : Control → Prop where
  | submitting : Operates id q p (.submitting (.enqueue q p))
  | popping : id = q → Operates id q p (.popping p)
  | stealing {rest} : Operates id q p (.stealing q p rest)
  | hand {f acts results versions} :
      Operates id q p (.executing (.hand f acts results versions (.enqueue q p)))
  | requeue {f todo woken} : Operates id q p (.executing (.requeue f todo woken q p))

/-- A worker is in the middle of one operation at most. -/
theorem Control.Operates.queue_eq {id q q' : WorkerId} {p p' : Queue.Progress Task} {c : Control}
    (operates : c.Operates id q p) (other : c.Operates id q' p') : q = q' := by
  cases operates with
  | popping own =>
      cases other with
      | popping own' => exact own.symm.trans own'
  | _ =>
      cases other
      rfl

/-- The lock of a queue is in hand in the middle of an operation on that queue. -/
theorem holding_of_guard {target q : WorkerId} {p : Queue.Progress Task} {changed : Bool}
    (mem : .guard q changed ∈ p.items target) : target = q ∧ p.Holding := by
  cases p with
  | measure r | acquire r => cases r <;> simp [Queue.Progress.items] at mem
  | change r =>
      have same : q = target := by
        cases r with
        | push t =>
            have both : q = target ∧ changed = false := by simpa [Queue.Progress.items] using mem
            exact both.1
        | pop | steal =>
            have both : q = target ∧ changed = false := by simpa [Queue.Progress.items] using mem
            exact both.1
      exact ⟨same.symm, .change r⟩
  | publish x =>
      have both : q = target ∧ changed = true := by
        simpa [Queue.Progress.items, looseItems] using mem
      exact ⟨both.1.symm, .publish x⟩
  | release x =>
      have both : q = target ∧ changed = false := by
        simpa [Queue.Progress.items, looseItems] using mem
      exact ⟨both.1.symm, .release x⟩
  | done x => simp [Queue.Progress.items, looseItems] at mem

/-- Who has the lock of a queue in hand is in the middle of an operation on it. -/
theorem Control.operates_of_guard {id q : WorkerId} {c : Control} {changed : Bool}
    (mem : .guard q changed ∈ c.items id) : ∃ p, c.Operates id q p ∧ p.Holding := by
  cases c with
  | submitting s =>
      cases s with
      | enqueue target p =>
          obtain ⟨rfl, holding⟩ := holding_of_guard mem
          exact ⟨p, .submitting, holding⟩
      | _ => cases List.mem_singleton.1 mem
  | popping p =>
      obtain ⟨same, holding⟩ := holding_of_guard mem
      exact ⟨p, .popping same, holding⟩
  | stealing victim p rest =>
      obtain ⟨rfl, holding⟩ := holding_of_guard mem
      exact ⟨p, .stealing, holding⟩
  | executing e =>
      cases e with
      | hand f acts results versions s =>
          replace mem := (List.mem_append.1 mem).resolve_right (by simp)
          cases s with
          | enqueue target p =>
              obtain ⟨rfl, holding⟩ := holding_of_guard mem
              exact ⟨p, .hand, holding⟩
          | _ => cases List.mem_singleton.1 mem
      | requeue f todo woken target p =>
          replace mem := (List.mem_append.1 mem).resolve_right (by simp [looseItems])
          obtain ⟨rfl, holding⟩ := holding_of_guard mem
          exact ⟨p, .requeue, holding⟩
      | wake f todo woken v => simp [Control.items, Execution.items, looseItems] at mem
      | _ => cases List.mem_singleton.1 mem
  | _ => cases mem

/-- What comes of a step of an operation by the holder of the lock: it has fewer steps left, or the
lock has been given back. -/
inductive GivesBack (m : Machine) (q : WorkerId) (p : Queue.Progress Task) :
    Machine × Turn (Queue.Progress Task) (Option Task) → Prop where
  | goes {after next} : next.Holding → next.left < p.left → GivesBack m q p (after, .goes next)
  | ends {after x} : after.world.held q = false → GivesBack m q p (after, .ends x)

namespace Machine

variable {m after next : Machine} {id q : WorkerId} {p : Queue.Progress Task}

/-- A step of an operation by the holder of the lock. -/
theorem Base.gives_back (base : m.Base) (inside : q < m.size) (holding : p.Holding) :
    GivesBack m q p (m.queueStep q p) := by
  obtain ⟨u, found⟩ : ∃ u, m.queues[q]? = some u := ⟨_, Array.getElem?_eq_getElem inside⟩
  unfold queueStep
  rw [found]
  cases holding with
  | change r =>
      obtain ⟨x, l, applied, -⟩ := (base.lanes u (Array.mem_of_getElem? found)).apply r
      simp only [Queue.Progress.step, applied, Except.map]
      exact .goes (.publish x) (Nat.lt_succ_self 2)
  | publish x => exact .goes (.release x) (Nat.lt_succ_self 1)
  | release x =>
      refine .ends ?_
      rw [world_setHeld found, World.held_setHeld, if_pos rfl]

/-- An operation on a queue is no matter of what the workers are in the middle of. -/
theorem queueStep_spares (m : Machine) (q : WorkerId) (p : Queue.Progress Task) :
    (m.queueStep q p).1.workers = m.workers ∧ (m.queueStep q p).1.crash = m.crash := by
  unfold queueStep
  split
  · exact ⟨rfl, rfl⟩
  · split
    · exact ⟨rfl, rfl⟩
    · exact ⟨rfl, rfl⟩
    · split <;> exact ⟨rfl, rfl⟩

/-- Who holds the lock of a queue takes a step, with which it has given the lock back or has fewer
steps left. -/
theorem Base.steps_back (base : m.Base) (inside : q < m.size)
    (now : (m.controlOf id).Operates id q p) (holding : p.Holding) (up : m.crash = none) :
    ∃ after, m.step id = some after ∧ after.crash = none ∧
      (after.world.held q = false ∨
        ∃ p', (after.controlOf id).Operates id q p' ∧ p'.Holding ∧ p'.left < p.left) := by
  have crew : id < m.workers.size := lt_of_controlOf fun away => by rw [away] at now; cases now
  have found := Array.getElem?_eq_getElem crew
  rw [controlOf_of_found found] at now
  have gives := base.gives_back inside holding
  obtain ⟨workers, crash⟩ := queueStep_spares m q p
  generalize ran : m.queueStep q p = r at gives workers crash
  unfold Machine.step
  rw [if_neg (by rw [up]; exact Bool.false_ne_true), found]
  generalize m.workers[id] = w at now
  generalize doing : w.control = c at now
  simp only [doing]
  cases gives with
  | @goes next p' holding less =>
      -- it goes on with the operation
      have goes : ∀ {c : Control}, c.Operates id q p' →
          (next.setControl id c).crash = none ∧ ((next.setControl id c).world.held q = false ∨
            ∃ p', ((next.setControl id c).controlOf id).Operates id q p' ∧ p'.Holding ∧
              p'.left < p.left) := by
        intro c operates
        refine ⟨crash.trans up, .inr ⟨p', ?_, holding, less⟩⟩
        rwa [controlOf_setControl_self (by rwa [workers])]
      cases now with
      | submitting =>
          simp only [submitStep, ran]
          exact ⟨_, rfl, goes .submitting⟩
      | popping own =>
          simp only [own, ran]
          exact ⟨_, rfl, own ▸ goes (.popping own)⟩
      | stealing =>
          simp only [ran]
          exact ⟨_, rfl, goes .stealing⟩
      | hand =>
          simp only [executeStep, submitStep, ran]
          exact ⟨_, rfl, goes .hand⟩
      | requeue =>
          simp only [executeStep, ran]
          exact ⟨_, rfl, goes .requeue⟩
  | @ends next x free =>
      cases now with
      | submitting =>
          simp only [submitStep, ran]
          exact ⟨_, rfl, crash.trans up, .inl free⟩
      | popping own =>
          simp only [own, ran]
          cases x with
          | none =>
            obtain ⟨stays, world⟩ := idleStep_spares next q w
            exact ⟨_, rfl, (stays.trans crash).trans up, .inl (world ▸ free)⟩
          | some t => exact ⟨_, rfl, crash.trans up, .inl free⟩
      | stealing =>
          simp only [ran]
          cases x with
          | none => exact ⟨_, rfl, crash.trans up, .inl free⟩
          | some t => exact ⟨_, rfl, crash.trans up, .inl free⟩
      | hand =>
          simp only [executeStep, submitStep, ran]
          exact ⟨_, rfl, crash.trans up, .inl free⟩
      | requeue =>
          simp only [executeStep, ran]
          exact ⟨_, rfl, crash.trans up, .inl free⟩

/-- Who is in the middle of an operation on a queue may take its next step. -/
theorem move_of_operates (now : (m.controlOf id).Operates id q p) :
    m.move (.step id) = m.step id := by
  have going : (m.controlOf id).arriving = false := by
    generalize m.controlOf id = c at now
    cases now <;> rfl
  simp [move, admitted, going]

/-- The lock of a queue is given back by the steps of its holder alone. -/
theorem Sound.frees (sound : m.Sound) (inside : q < m.size)
    (now : (m.controlOf id).Operates id q p) (holding : p.Holding) (up : m.crash = none) :
    ∃ later after, m.Runs later after ∧ after.crash = none ∧ after.world.held q = false ∧
      ∀ o ≠ id, after.controlOf o = m.controlOf o := by
  induction steps : p.left using Nat.strong_induction_on generalizing m p with
  | _ n ih =>
      obtain ⟨after, stepped, up', freed⟩ := sound.toBase.steps_back inside now holding up
      have turned := sound.step stepped
      have run : m.Runs _ after := Runs.refl.turn (.step id) ((move_of_operates now).trans stepped)
      rcases freed with free | ⟨p', now', holding', less⟩
      · exact ⟨_, after, run, up', free, turned.others⟩
      · have inside' : q < after.size := (size_step stepped).symm ▸ inside
        obtain ⟨later, last, goes, up'', free, others⟩ :=
          ih _ (steps ▸ less) turned.sound inside' now' holding' up' rfl
        exact ⟨_, last, run.trans goes, up'', free, fun o other =>
          (others o other).trans (turned.others o other)⟩

end Machine

/-! ## Scenes -/

namespace Scene

variable {s a : Scene} {past later : List Moment}

/-- A turn leaves no lock to nobody. -/
theorem Settled.guarded_move (settled : s.Settled past) (guarded : s.machine.Guarded) {mv : Move}
    (moved : s.move mv = some a) : a.machine.Guarded := by
  cases move_cases moved with
  | turn turned =>
      exact guarded.turned (settled.sound.move turned) (settled.sound_hands (actor_lt turned))
  | _ => exact guarded

/-- In the course of a run no lock is left to nobody. -/
theorem Settled.guarded_runs (settled : s.Settled past) (guarded : s.machine.Guarded)
    (goes : s.Runs later a) (inside : ∀ t ∈ a.parked, t.Inside s.machine.size) :
    a.machine.Guarded := by
  induction goes with
  | refl => exact guarded
  | turn mv goes moved ih =>
      have before : ∀ t ∈ _, Task.Inside s.machine.size t := fun t mem =>
        inside t ((move_cases moved).parked_subset mem)
      exact (settled.runs goes before).guarded_move (ih before) moved

/-- Whoever cannot take a step may wait for the lock of a queue to be given back. -/
theorem Settled.frees (settled : s.Settled past) (guarded : s.machine.Guarded)
    (up : s.machine.crash = none) {id q : WorkerId} (held : s.machine.world.held q = true)
    (waits : s.machine.step id = none) :
    ∃ later m, s.machine.Runs later m ∧ m.crash = none ∧ m.world.held q = false ∧
      m.controlOf id = s.machine.controlOf id := by
  obtain ⟨o, changed, mem⟩ := guarded q held
  obtain ⟨p, holds, holding⟩ := Control.operates_of_guard mem
  have crew : o < s.machine.workers.size := Machine.lt_of_controlOf fun away => by
    rw [away] at holds
    cases holds
  have known : q < s.machine.size := by
    by_contra outside
    exact settled.sound_hands (Nat.lt_succ_of_lt crew)
      (.stray (.guard mem (Nat.le_of_not_lt outside)))
  have other : o ≠ id := by
    rintro rfl
    obtain ⟨after, stepped, -⟩ := settled.sound.toBase.steps_back known holds holding up
    rw [waits] at stepped
    cases stepped
  obtain ⟨later, m, run, up', free, others⟩ := settled.sound.frees known holds holding up
  exact ⟨later, m, run, up', free, others id (Ne.symm other)⟩

/-- In every run of a scene in which only tasks are made to wait by hand that are pinned to no
worker outside of the pool, every lock of a queue that is held is in somebody's hands. -/
theorem Runs.guarded {l : Launch} {vocabulary : Access.Vocabulary} {handles callers : Nat}
    {references : Array HandleId}
    (run : (opening (l.opening vocabulary handles callers references)).Runs past s)
    (inside : ∀ t ∈ s.parked, t.Inside l.size) : s.machine.Guarded :=
  (Runs.settled .refl (List.forall_mem_nil _)).guarded_runs
    (Machine.guarded_opening l vocabulary handles callers references) run
    fun t mem => (Machine.size_opening ..) ▸ inside t mem

end Scene

end Pool

end AccessOrder
