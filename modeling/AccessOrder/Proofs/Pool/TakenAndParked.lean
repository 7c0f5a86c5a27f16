/- # Tasks that are taken, and tasks that are made to wait

How often tasks are handled before they are run: each time that one is taken out of a queue, and
each time that one is made to wait for a dependency.  A `Passage` is read off the step that a worker
or a caller is about to take, like the moments of the history, and a `Trail` collects the passages
of all turns.

* `Reaches.exists_trail` : every order of turns has a trail;
* `passing` : what passes in a step;
* `Sound.taken_cases` : what is taken out of a queue, and by whom;
* `Sound.parked_cases` : who is made to wait, and for what.
-/
import AccessOrder.Proofs.Pool.Conduct
import AccessOrder.Proofs.Pool.Readiness
namespace AccessOrder

open Function (update)

namespace Pool

/-- Something that happens to the task of a number on its way. -/
inductive Passage where
  /-- The task is taken out of a queue. -/
  | taken (serial : Nat)
  /-- The task is made to wait for the dependency at a place in its list. -/
  | parked (serial index : Nat)
  deriving DecidableEq

/-- The number of the task that passes. -/
def Passage.serial : Passage → Nat
  | .taken s | .parked s _ => s

/-- The place in its list of the dependency for which the task of a number is made to wait. -/
def Passage.stop? (s : Nat) : Passage → Option Nat
  | .taken _ => none
  | .parked s' i => if s' = s then some i else none

/-- The places in its list of the dependencies for which the task of a number has been made to wait,
the last one first. -/
def stops (s : Nat) (passed : List Passage) : List Nat := passed.filterMap (Passage.stop? s)

/-- Whether a worker takes a task out of a queue, or vets one that it has taken. -/
def Control.fetches : Control → Bool
  | .popping _ | .stealing .. | .executing (.vet _) => true
  | _ => false

/-- What passes in the next step of an operation on a queue. -/
def passagesOf (m : Machine) (target : WorkerId) : Queue.Progress Task → List Passage
  | .change r =>
    match m.queues[target]? with
    | none => []
    | some q =>
      match r.apply q.lanes with
      | .ok (some t, _) => [.taken t.serial]
      | _ => []
  | _ => []

end Pool

open Pool (Passage Machine)

/-- What passes in the next step of vetting. -/
def Vetting.passages (m : Machine) : Vetting → List Passage
  | .look _ => []
  | .park t =>
    match t.blocker? with
    | none => []
    | some d =>
      match (m.handles.run d.handle (·.register t d.version)).1 with
      | .ok .parked => [.parked t.serial t.cursor]
      | _ => []

namespace Pool

/-- What passes in the next step of a worker or a caller. -/
def Control.passages (m : Machine) (id : WorkerId) : Control → List Passage
  | .popping p => passagesOf m id p
  | .stealing victim p _ => passagesOf m victim p
  | c => c.vetting?.elim [] (Vetting.passages m)

namespace Machine

/-- What passes in a turn. -/
def passages (m : Machine) : Move → List Passage
  | .step id => (m.controlOf id).passages m id
  | _ => []

/-- The machines that turns lead to, with all that has passed on the way, the last passage first. -/
inductive Trail (m : Machine) : List Passage → Machine → Prop where
  | refl : Trail m [] m
  | turn {passed : List Passage} {a b : Machine} (mv : Move) :
      Trail m passed a → a.move mv = some b → Trail m (a.passages mv ++ passed) b

variable {m after : Machine} {id : WorkerId} {mv : Move} {s i : Nat}

/-- A trail follows an order of turns. -/
theorem Trail.reaches {passed : List Passage} (trail : Trail m passed after) : Reaches m after := by
  induction trail with
  | refl => exact .refl
  | turn mv _ moved ih => exact ih.turn mv moved

/-- Every order of turns has a trail. -/
theorem Reaches.exists_trail (reached : Reaches m after) : ∃ passed, Trail m passed after := by
  induction reached with
  | refl => exact ⟨[], .refl⟩
  | turn mv _ moved ih =>
      obtain ⟨passed, trail⟩ := ih
      exact ⟨_, trail.turn mv moved⟩

/-- Carries turns out one after the other, as far as they can be taken, and collects what passes. -/
def collect (m : Machine) (passed : List Passage) : List Move → Option (List Passage × Machine)
  | [] => some (passed, m)
  | mv :: mvs =>
    match m.move mv with
    | none => none
    | some after => after.collect (m.passages mv ++ passed) mvs

/-- Turns that are carried out one after the other have a trail. -/
theorem trail_collect {start : Machine} {passed : List Passage} {mvs : List Move}
    {after : List Passage × Machine} (trail : Trail start passed m)
    (collected : m.collect passed mvs = some after) : Trail start after.1 after.2 := by
  induction mvs generalizing m passed with
  | nil =>
      cases collected
      exact trail
  | cons mv mvs ih =>
      rw [collect] at collected
      split at collected
      · cases collected
      · next moved => exact ih (trail.turn mv moved) collected

/-- What is seen of turns that are carried out is seen of their trail. -/
theorem exists_trail (start : Machine) (mvs : List Move) (seen : List Passage → Machine → Bool)
    (found : (start.collect [] mvs).any (fun r => seen r.1 r.2) = true) :
    ∃ passed m, Trail start passed m ∧ seen passed m = true := by
  obtain ⟨r, collected, holds⟩ := (Option.any_eq_true ..).1 found
  exact ⟨r.1, r.2, trail_collect .refl collected, holds⟩

/-! ## One task -/

/-- Nothing passes that is about another task. -/
theorem count_taken_of_ne {x : Passage} (other : x.serial ≠ s) (passed : List Passage) :
    (x :: passed).count (.taken s) = passed.count (.taken s) := by
  refine List.count_cons_of_ne fun same => other ?_
  rw [same]
  rfl

/-- A task that does not pass is not made to wait. -/
theorem stops_of_ne {x : Passage} (other : x.serial ≠ s) (passed : List Passage) :
    stops s (x :: passed) = stops s passed := by
  refine List.filterMap_cons_none ?_
  cases x with
  | taken s' => rfl
  | parked s' i => exact if_neg other

/-- Nothing has passed about a task that is not among those that have passed. -/
theorem untouched {passed : List Passage} (others : ∀ x ∈ passed, x.serial ≠ s) :
    passed.count (.taken s) = 0 ∧ stops s passed = [] := by
  induction passed with
  | nil => exact ⟨rfl, rfl⟩
  | cons x passed ih =>
      have other := others x List.mem_cons_self
      rw [count_taken_of_ne other, stops_of_ne other]
      exact ih fun y mem => others y (List.mem_cons_of_mem _ mem)

/-! ## What passes in a turn -/

/-- What may pass in a step: a task is taken out of a queue, or is made to wait for the dependency
at its cursor. -/
inductive Passing (m : Machine) (id : WorkerId) : Control → List Passage → Prop where
  | nothing {c : Control} : Passing m id c []
  | popped {r : Queue.Request Task} {q : Queue.Shared Task} {t : Task} {l : Queue.Lanes Task} :
      m.queues[id]? = some q → r.apply q.lanes = .ok (some t, l) →
      Passing m id (.popping (.change r)) [.taken t.serial]
  | stolen {victim : WorkerId} {r : Queue.Request Task} {rest : List WorkerId}
      {q : Queue.Shared Task} {t : Task} {l : Queue.Lanes Task} :
      m.queues[victim]? = some q → r.apply q.lanes = .ok (some t, l) →
      Passing m id (.stealing victim (.change r) rest) [.taken t.serial]
  | parked {c : Control} {t : Task} {d : Dependency} : c.vetting? = some (.park t) →
      t.blocker? = some d →
      (m.handles.run d.handle (·.register t d.version)).1 = .ok .parked →
      Passing m id c [.parked t.serial t.cursor]

/-- What passes in a step. -/
theorem passing (m : Machine) (id : WorkerId) (c : Control) : Passing m id c (c.passages m id) := by
  have queue : ∀ target p, passagesOf m target p = [] ∨ ∃ r q t l, p = .change r ∧
      m.queues[target]? = some q ∧ r.apply q.lanes = .ok (some t, l) ∧
        passagesOf m target p = [.taken t.serial] := by
    intro target p
    cases p with
    | change r =>
        cases found : m.queues[target]? with
        | none => exact .inl (by simp only [passagesOf, found])
        | some q =>
            cases applied : r.apply q.lanes with
            | error f => exact .inl (by simp only [passagesOf, found, applied])
            | ok result =>
                obtain ⟨x, l⟩ := result
                cases x with
                | none => exact .inl (by simp only [passagesOf, found, applied])
                | some t =>
                    exact .inr ⟨r, q, t, l, rfl, rfl, applied,
                      by simp only [passagesOf, found, applied]⟩
    | _ => exact .inl rfl
  unfold Control.passages
  split
  · rcases queue id ‹_› with none | ⟨r, q, t, l, rfl, found, applied, some⟩
    · rw [none]
      exact .nothing
    · rw [some]
      exact .popped found applied
  · rcases queue _ ‹_› with none | ⟨r, q, t, l, rfl, found, applied, some⟩
    · rw [none]
      exact .nothing
    · rw [some]
      exact .stolen found applied
  · cases vetting : c.vetting? with
    | none => exact .nothing
    | some v =>
        simp only [Option.elim_some]
        unfold Vetting.passages
        split
        · exact .nothing
        · next t =>
          split
          · exact .nothing
          · next blocked =>
            split
            · next registered => exact .parked vetting blocked registered
            · exact .nothing

/-- One task passes in a turn at most. -/
theorem passages_cases (m : Machine) (mv : Move) :
    m.passages mv = [] ∨ (∃ s, m.passages mv = [.taken s]) ∨
      ∃ s i, m.passages mv = [.parked s i] := by
  cases mv with
  | step id =>
      have passing := m.passing id (m.controlOf id)
      simp only [passages]
      generalize (m.controlOf id).passages m id = passed at passing
      generalize m.controlOf id = c at passing
      cases passing with
      | nothing => exact .inl rfl
      | popped | stolen => exact .inr (.inl ⟨_, rfl⟩)
      | parked => exact .inr (.inr ⟨_, _, rfl⟩)
  | _ => exact .inl rfl

/-- What a vetting that makes its task wait does to the handles, nothing else undoes in its step. -/
theorem handles_of_vetting {v : Vetting} {hs : Handles}
    (vetting : (m.controlOf id).vetting? = some v)
    (parked : v.step m.handles = (.ok .parked, hs)) (stepped : m.step id = some after) :
    after.handles = hs := by
  obtain ⟨w, found, steps⟩ := step_cases stepped
  generalize m.controlOf id = c at vetting steps
  unfold Control.vetting? at vetting
  split at vetting <;> cases vetting
  · cases steps with
    | submitting moved =>
        simp only [submitStep, vetStep, parked] at moved
        cases moved
        rfl
  all_goals
    cases steps with
    | executing moved =>
        simp only [executeStep, submitStep, vetStep, parked] at moved
        cases moved
        rfl

/-- A task that is taken out of a queue has been in it. -/
theorem Base.queued_of_taken (base : m.Base) {target : WorkerId} {r : Queue.Request Task}
    {q : Queue.Shared Task} {t : Task} {l : Queue.Lanes Task} (takes : r.Takes)
    (found : m.queues[target]? = some q) (applied : r.apply q.lanes = .ok (some t, l)) :
    t ∈ m.world.queue target := by
  have lanes := base.lanes q (Array.mem_of_getElem? found)
  rw [(world_of_found found).1]
  cases takes with
  | pop =>
      obtain ⟨x, l', popped, -, same, -⟩ := lanes.pop
      obtain ⟨rfl, rfl⟩ := Prod.mk.inj (Except.ok.inj (popped.symm.trans applied))
      rw [same]
      exact List.mem_cons_self
  | steal =>
      obtain ⟨x, l', stolen, -, same, -⟩ := lanes.steal
      obtain ⟨rfl, rfl⟩ := Prod.mk.inj (Except.ok.inj (stolen.symm.trans applied))
      exact same.mem_iff.2 List.mem_cons_self

/-- Who is taken out of a queue has been in it, and is in the hands of a worker afterwards that has
come to nothing else. -/
theorem Sound.taken_cases (sound : m.Sound) (moved : m.move mv = some after)
    (passes : m.passages mv = [.taken s]) :
    ∃ t q, t.serial = s ∧ t ∈ m.world.queue q ∧ .loose t ∈ after.hands mv.actor ∧
      (after.controlOf mv.actor).fetches = true := by
  have base := sound.toBase
  cases move_cases moved with
  | @step id _ _ stepped =>
      have passing := m.passing id (m.controlOf id)
      rw [show (m.controlOf id).passages m id = _ from passes] at passing
      have seated := sound.seated id
      obtain ⟨w, there, steps⟩ := step_cases stepped
      have crew : id < m.workers.size := (Array.getElem?_eq_some_iff.1 there).1
      have control : ∀ (qs : Array (Queue.Shared Task)) (c : Control),
          (setControl { m with queues := qs } id c).controlOf id = c := fun qs c =>
        controlOf_setControl_self crew c
      show ∃ t q, t.serial = s ∧ t ∈ m.world.queue q ∧ .loose t ∈ after.hands id ∧
        (after.controlOf id).fetches = true
      rw [hands]
      generalize m.controlOf id = c at passing seated steps
      cases passing with
      | @popped r q t l found applied =>
          obtain ⟨-, taking⟩ := seated
          cases taking with
          | change =>
              cases steps with
              | popping went =>
                  simp only [queueStep, found, Queue.Progress.step, applied, Except.map] at went
                  cases went
                  refine ⟨t, id, rfl, base.queued_of_taken .pop found applied, ?_⟩
                  rw [control]
                  exact ⟨List.mem_cons_of_mem _ List.mem_cons_self, rfl⟩
      | @stolen victim r rest q t l found applied =>
          obtain ⟨-, taking⟩ := seated
          cases taking with
          | change =>
              cases steps with
              | stealing went =>
                  simp only [queueStep, found, Queue.Progress.step, applied, Except.map] at went
                  cases went
                  refine ⟨t, victim, rfl, base.queued_of_taken .steal found applied, ?_⟩
                  rw [control]
                  exact ⟨List.mem_cons_of_mem _ List.mem_cons_self, rfl⟩
  | call _ calls => cases calls <;> cases passes
  | _ => cases passes

/-- Who is made to wait has been in hand, and waits for a version that is still to come. -/
theorem Sound.parked_cases (sound : m.Sound) (moved : m.move mv = some after)
    (passes : m.passages mv = [.parked s i]) :
    ∃ t d, t.serial = s ∧ t.cursor = i ∧ .loose t ∈ m.hands mv.actor ∧ t.blocker? = some d ∧
      (m.world.units d.handle).completed < d.version ∧
      t ∈ (after.world.units d.handle).waiting d.version := by
  cases move_cases moved with
  | @step id _ _ stepped =>
      have passing := m.passing id (m.controlOf id)
      rw [show (m.controlOf id).passages m id = _ from passes] at passing
      generalize now : m.controlOf id = c at passing
      cases passing with
      | @parked _ t d vetting blocked registered =>
          rw [← now] at vetting
          have ran : m.handles.run d.handle (·.register t d.version) =
            (.ok .parked, (m.handles.run d.handle (·.register t d.version)).2) :=
            Prod.ext registered rfl
          obtain ⟨-, seen, unmet, used⟩ := sound.toBase.handles.register ran
          have parked : (Vetting.park t).step m.handles =
              (.ok .parked, (m.handles.run d.handle (·.register t d.version)).2) := by
            simp only [Vetting.step, blocked]
            rw [ran]
          refine ⟨t, d, rfl, rfl, loose_of_vetting vetting, blocked, unmet, ?_⟩
          rw [show after.world.units = after.handles.view from rfl,
            handles_of_vetting vetting parked stepped, seen, Function.update_self]
          simp [Handle.View.parked]
  | call _ calls => cases calls <;> cases passes
  | _ => cases passes

end Machine

end Pool

end AccessOrder
