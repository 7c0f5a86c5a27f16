/- # Drains

The owner of a barrier takes the tasks of its own queue until it finds the queue empty, and leads a
round then.  It counts these drains in a word of 32 bits, and fails when there are too many of them.

* `Machine.drains` : how many drains the owner has counted in its call;
* `Sound.ownStep` : what a step of an owner is that takes a task or runs one;
* `Machine.due` : how many drains it may still have to count.
-/
import AccessOrder.Proofs.Pool.Advance
namespace AccessOrder.Pool

namespace Machine

variable {m after : Machine}

/-- How many drains the owner has counted in the last call of the barrier. -/
def drains (m : Machine) : Nat :=
  match m.dutyOf 0 with
  | .lead rounds => rounds.toNat
  | .work => 0

/-- How many drains the owner of a barrier may still have to count before it can come out: one when
there is nothing more to be done, and before that one more if its own queue is in use by an
operation that may bring nothing. -/
def due (m : Machine) : Nat :=
  match m.controlOf 0 with
  | .popping (.acquire _) | .popping (.change _) | .popping (.publish none)
  | .popping (.release none) => 2
  | _ => 1

/-- The owner has come out of the barrier. -/
def Returned (m : Machine) : Prop :=
  m.controlOf 0 = .away ∧ ∃ rounds, m.events.head? = some (.barrierCompleted rounds)

/-- What a step of an owner is that takes a task from its own queue, or runs one. -/
inductive OwnStep (m after : Machine) : Prop where
  | works : (after.controlOf 0).AtWork → (after.controlOf 0).awaiting = true →
      after.drains = m.drains → ((m.controlOf 0).Busy → after.due ≤ m.due) → OwnStep m after
  /-- The queue is empty, and the owner leads a round. -/
  | leads : after.controlOf 0 = .leading .read → after.drains = m.drains + 1 →
      ((m.controlOf 0).Busy → m.due = 2) → m.participants ≠ 0 → OwnStep m after
  /-- The queue is empty, and there is no other worker. -/
  | returns : m.participants = 0 → m.drains + 1 < 2 ^ 32 → after.Returned → OwnStep m after
  /-- The queue is empty, and the owner cannot count that. -/
  | overflows : after.controlOf 0 = .failed .drainsUncounted → m.drains + 1 = 2 ^ 32 →
      ((m.controlOf 0).Busy → m.due = 2) → OwnStep m after

/-! ## The count -/

/-- The owner has counted less than 2^32 drains. -/
theorem drains_lt (m : Machine) : m.drains < 2 ^ 32 := by
  unfold drains
  split
  · exact UInt32.toNat_lt _
  · decide

/-- The drains of an owner that keeps its duty are counted as before. -/
theorem drains_congr (same : after.dutyOf 0 = m.dutyOf 0) : after.drains = m.drains := by
  rw [drains, same, drains]

/-- The owner has counted no drain when it comes to the barrier. -/
theorem drains_enterBarrier (here : 0 < m.workers.size) : m.enterBarrier.drains = 0 := by
  have here : 0 < m.start.workers.size := here
  rw [drains, dutyOf, enterBarrier, Array.getElem?_modify, if_pos rfl,
    Array.getElem?_eq_getElem here]
  rfl

/-- What is counted next. -/
theorem toNat_counted {rounds next : UInt32} (counts : counted rounds = some next) :
    rounds.toNat + 1 < 2 ^ 32 ∧ next.toNat = rounds.toNat + 1 := by
  unfold counted at counts
  split at counts
  · next room =>
    cases counts
    exact ⟨room, by rw [UInt32.toNat_add, UInt32.toNat_one, Nat.mod_eq_of_lt room]⟩
  · cases counts

/-- The last drain that can be counted. -/
theorem toNat_uncounted {rounds : UInt32} (uncounted : counted rounds = none) :
    rounds.toNat + 1 = 2 ^ 32 := by
  unfold counted at uncounted
  split at uncounted
  · cases uncounted
  · next full => exact Nat.le_antisymm (UInt32.toNat_lt _) (Nat.le_of_not_lt full)

/-- The owner may have to count one drain or two. -/
theorem due_cases (m : Machine) : m.due = 1 ∨ m.due = 2 := by
  unfold due
  split <;> simp

/-- An operation on a queue does not fail for want of counting. -/
theorem queueStep_ne_uncounted {target : WorkerId} {p : Queue.Progress Task} {f : Failure}
    (failed : m.queueStep target p = (after, .fails f)) : f ≠ .drainsUncounted := by
  rintro rfl
  unfold queueStep at failed
  split at failed
  · cases failed
  · split at failed
    · cases failed
    · cases failed
    · simp only at failed
      split at failed <;> cases failed

/-! ## The owner on its own -/

/-- What has been found in a queue is passed on. -/
theorem queueStep_publish (m : Machine) (target : WorkerId) (x : Option Task) :
    (∃ f, (m.queueStep target (.publish x)).2 = .fails f) ∨
      (m.queueStep target (.publish x)).2 = .goes (.release x) := by
  unfold queueStep
  split
  · exact .inl ⟨_, rfl⟩
  · exact .inr rfl

/-- What has been found in a queue is what an operation on it ends with. -/
theorem queueStep_release (m : Machine) (target : WorkerId) (x : Option Task) :
    (∃ f, (m.queueStep target (.release x)).2 = .fails f) ∨
      (m.queueStep target (.release x)).2 = .ends x := by
  unfold queueStep
  split
  · exact .inl ⟨_, rfl⟩
  · exact .inr rfl

/-- An owner that goes on taking a task may have no more drains to count than before. -/
theorem due_of_goes {p p' : Queue.Progress Task} (now : m.controlOf 0 = .popping p)
    (taking : p.Taking .pop) (busy : p.Busy) {x : Machine}
    (went : m.queueStep 0 p = (x, .goes p')) (next : after.controlOf 0 = .popping p') :
    after.due ≤ m.due := by
  have most : after.due ≤ 2 := by rcases after.due_cases with one | two <;> omega
  cases taking with
  | measure => cases busy
  | acquire | change => rwa [show m.due = 2 by rw [due, now]]
  | publish y =>
      rcases m.queueStep_publish 0 y with ⟨f, failed⟩ | goes
      · rw [went] at failed
        cases failed
      · rw [went] at goes
        cases goes
        rw [due, next, due, now]
        cases y <;> exact Nat.le_refl _
  | release y =>
      rcases m.queueStep_release 0 y with ⟨f, failed⟩ | ended
      · rw [went] at failed
        cases failed
      · rw [went] at ended
        cases ended

/-- An operation that has brought nothing may have brought nothing. -/
theorem due_of_none {p : Queue.Progress Task} (now : m.controlOf 0 = .popping p)
    (taking : p.Taking .pop) (busy : p.Busy) {x : Machine}
    (ended : m.queueStep 0 p = (x, .ends none)) : m.due = 2 := by
  cases taking with
  | measure => cases busy
  | acquire | change => rw [due, now]
  | publish y =>
      rcases m.queueStep_publish 0 y with ⟨f, failed⟩ | goes
      · rw [ended] at failed
        cases failed
      · rw [ended] at goes
        cases goes
  | release y =>
      rcases m.queueStep_release 0 y with ⟨f, failed⟩ | ends
      · rw [ended] at failed
        cases failed
      · rw [ended] at ends
        cases ends
        rw [due, now]

/-- An owner that has found its own queue empty. -/
theorem Sound.ownStep_idle (sound : m.Sound) {w : Worker} (found : m.workers[0]? = some w)
    {x : Machine} (passes : m.Passes x) (fruitless : (m.controlOf 0).Busy → m.due = 2) :
    m.OwnStep (x.idleStep 0 w) := by
  have here : 0 < x.workers.size := passes.crew.symm ▸ (Array.getElem?_eq_some_iff.1 found).1
  have duty := dutyOf_of_found found
  obtain ⟨drained, leads⟩ := sound.exists_lead
  have rests := x.rests_idleStep 0 w
  generalize x.idleStep 0 w = after at rests
  cases rests with
  | visits which => cases leads.symm.trans (duty.trans which)
  | overflows which none =>
      refine .overflows (controlOf_setControl_self here _) ?_ fruitless
      rw [drains, duty, which]
      exact toNat_uncounted none
  | returns which more alone =>
      have same : x.participants = m.participants := congrArg (· - 1) passes.size
      refine .returns (same ▸ alone) ?_
        ⟨controlOf_setControl_self (by simpa using here) _, _, rfl⟩
      rw [drains, duty, which]
      exact (toNat_counted more).1
  | @leads rounds next which more some =>
      have same : x.participants = m.participants := congrArg (· - 1) passes.size
      refine .leads (controlOf_setControl_self (by simpa using here) _) ?_ fruitless
        (same ▸ some)
      rw [drains, dutyOf_setControl, dutyOf, Array.getElem?_modify, if_pos rfl,
        Array.getElem?_eq_getElem here, drains, duty, which]
      exact (toNat_counted more).2

/-- An owner that waits at the barrier and leads no round takes a task or runs one. -/
theorem atWork_of_awaiting {c : Control} (awaiting : c.awaiting = true)
    (unleading : ∀ l, c ≠ .leading l) : c.AtWork := by
  cases c with
  | popping | executing => trivial
  | leading l => exact absurd rfl (unleading l)
  | _ => cases awaiting

/-- What a step of an owner is that takes a task or runs one. -/
theorem Sound.ownStep (sound : m.Sound) {past : List Moment}
    (orderly : Orderly past m.world m.hands) (awaiting : (m.controlOf 0).awaiting = true)
    (working : (m.controlOf 0).AtWork) (stepped : m.step 0 = some after) : m.OwnStep after := by
  have leads := sound.duties 0
  rw [decide_eq_true rfl] at leads
  have unfailed := sound.unfailed sound.manned orderly.sound working
    (fun victim p rest now => by rw [now] at awaiting; cases awaiting) stepped
  cases now : m.controlOf 0 with
  | popping p =>
      obtain ⟨x, w, found, passes, course⟩ := sound.step_popping now stepped
      have here : 0 < x.workers.size := passes.crew.symm ▸ (Array.getElem?_eq_some_iff.1 found).1
      have seated := sound.seated 0
      rw [now] at seated
      have counted (c : Control) : (x.setControl 0 c).drains = m.drains :=
        drains_congr ((dutyOf_setControl x 0 0 c).trans (passes.duty 0))
      rcases course with ⟨p', went, rfl⟩ | ⟨t, -, rfl⟩ | ⟨ended, rfl⟩ | ⟨f, failed, rfl⟩
      · have next := controlOf_setControl_self here (.popping p')
        refine .works ?_ ?_ (counted _) fun busy => ?_
        · rw [next]
          trivial
        · rw [next]
          rfl
        · rw [now] at busy
          exact due_of_goes now seated.2 busy went next
      · have next := controlOf_setControl_self here (.executing (.vet (.look t)))
        refine .works ?_ ?_ (counted _) fun _ => ?_
        · rw [next]
          trivial
        · rw [next]
          rfl
        · have one : (x.setControl 0 (.executing (.vet (.look t)))).due = 1 := by rw [due, next]
          rcases m.due_cases with before | before <;> omega
      · refine sound.ownStep_idle found passes fun busy => ?_
        rw [now] at busy
        exact due_of_none now seated.2 busy ended
      · have next := controlOf_setControl_self here (.failed f)
        rw [next] at unfailed
        refine absurd (unfailed fun _ _ _ same => ?_) Bool.true_eq_false_eq_False
        exact queueStep_ne_uncounted failed (Control.failed.inj same)
  | executing e =>
      have goes := sound.next stepped (by simp [now]) (by simp [now])
      have next := goes.next
      have same := drains_congr (goes.duty 0 (.inr (by simp [now])))
      replace unfailed := unfailed fun p popping => by rw [now] at popping; cases popping
      have before : m.due = 1 := by rw [due, now]
      rw [now] at next
      -- the owner goes on with the task, or takes the next one
      have works : ∀ {c : Control}, after.controlOf 0 = c → c.AtWork → c.awaiting = true →
          after.due = 1 → m.OwnStep after := fun is working awaiting one =>
        .works (is ▸ working) (is ▸ awaiting) same fun _ => Nat.le_of_eq (one.trans before.symm)
      generalize is : after.controlOf 0 = c at next unfailed
      cases next with
      | same | executing => exact works is trivial rfl (by rw [due, is])
      | failed => cases unfailed
      | @executed _ duty which =>
          cases duty with
          | work => exact absurd (which.2 leads) Bool.false_ne_true
          | lead rounds => exact works is trivial rfl (by rw [due, is]; rfl)
  | stealing victim p rest =>
      rw [now] at awaiting
      cases awaiting
  | _ =>
      rw [now] at working
      cases working

end Machine

end AccessOrder.Pool
