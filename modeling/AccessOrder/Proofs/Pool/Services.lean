/- # Barrier rounds as the workers see them

What a turn of a worker or a caller does to the barrier: most leave it alone, a worker may raise the
flag, and it may join the round whose word it has read.  A worker that has joined a round `Stands`
in it until it finds the round closed, the flag raised or the pool shut down; if it finds a task
instead, it raises the flag before it leaves.

* `Sound.serves` : what a turn of anyone but the owner does to the barrier.
-/
import AccessOrder.Proofs.Pool.Stages
namespace AccessOrder.Pool

open Barrier (Word Phase)

/-- Whether a worker waits for a round to end, or is about to raise the flag. -/
def Service.Stands (round : UInt32) : Service → Prop
  | .watchWord r | .watchFlag r | .watchQueue r | .watchShutdown r => r = round
  | .raise => True
  | _ => False

/-- Whether a worker stands in a round. -/
def Control.Stands (round : UInt32) : Control → Prop
  | .serving s => s.Stands round
  | _ => False

/-- A worker that is about to join a round does not stand in one. -/
theorem Service.unstanding_of_joining {s : Service} {round : UInt32}
    (joining : s.joining? = some round) (r : UInt32) : ¬s.Stands r := by
  cases s <;> first | exact not_false | cases joining

namespace Machine

variable {m : Machine} {id : WorkerId} {after : Machine}

/-- What a turn of anyone but the owner does to the barrier. -/
inductive Serves (m : Machine) (id : WorkerId) (after : Machine) : Prop where
  /-- The barrier is left alone.  Who stands in an open round goes on standing there as long as the
  flag is down and the pool is not shut down. -/
  | aside : after.barrier = m.barrier →
      (∀ w, m.barrier.load = .ok w → w.phase ≠ .idle → m.barrier.aborted = false →
        m.shutdown = false → (m.controlOf id).Stands w.round →
          (after.controlOf id).Stands w.round) →
      (∀ round expected next, after.controlOf id = .serving (.swap round expected next) →
        Barrier.State.joined expected round m.participants = .ok (some next)) → Serves m id after
  /-- The flag is raised. -/
  | raises : after.barrier = m.barrier.abort → (∀ s, after.controlOf id ≠ .serving s) →
      Serves m id after
  /-- The worker joins a round. -/
  | joins {round : UInt32} {next : UInt64} :
      m.controlOf id = .serving (.swap round m.barrier.word next) →
      after.barrier = { m.barrier with word := next } →
      after.controlOf id = .serving (.watchWord round) → Serves m id after

/-- Who does not serve in a round leaves the barrier alone. -/
theorem Goes.serves (goes : m.Goes id after) (unserving : ∀ s, m.controlOf id ≠ .serving s) :
    m.Serves id after := by
  refine .aside goes.barrier (fun w _ _ _ _ stands => ?_) fun round expected next now => ?_
  · cases now : m.controlOf id <;> rw [now] at stands <;> first | cases stands | skip
    exact absurd now (unserving _)
  · cases goes.next.eq_look now (unserving _)

/-- Someone goes on with something else and leaves the barrier alone. -/
theorem serves_setControl {x : Machine} (barrier : x.barrier = m.barrier)
    (crew : id < x.workers.size) {c : Control}
    (stays : ∀ w, m.barrier.load = .ok w → w.phase ≠ .idle → m.barrier.aborted = false →
      m.shutdown = false → (m.controlOf id).Stands w.round → c.Stands w.round)
    (swap : ∀ round expected next, c = .serving (.swap round expected next) →
      Barrier.State.joined expected round m.participants = .ok (some next)) :
    m.Serves id (x.setControl id c) := by
  refine .aside barrier ?_ ?_
  · rwa [controlOf_setControl_self crew]
  · rwa [controlOf_setControl_self crew]

/-- Who does not stand in a round goes on with something else and leaves the barrier alone. -/
theorem serves_unstanding {x : Machine} (never : ∀ round, ¬(m.controlOf id).Stands round)
    (barrier : x.barrier = m.barrier) (crew : id < x.workers.size) {c : Control}
    (swap : ∀ round expected next, c = .serving (.swap round expected next) →
      Barrier.State.joined expected round m.participants = .ok (some next)) :
    m.Serves id (x.setControl id c) :=
  serves_setControl barrier crew (fun w _ _ _ _ stands => absurd stands (never w.round)) swap

/-- What a worker in a round does to the barrier. -/
theorem Partakes.serves {seen : UInt32} {s : Service} (partakes : m.Partakes id seen s after)
    (now : m.controlOf id = .serving s) : m.Serves id after := by
  have crew : id < m.workers.size := lt_of_controlOf (by simp [now])
  -- the worker goes on with `c`, and has left the barrier alone
  have aside : ∀ {c : Control}, (∀ w, m.barrier.load = .ok w → w.phase ≠ .idle →
      m.barrier.aborted = false → m.shutdown = false → s.Stands w.round → c.Stands w.round) →
      (∀ round expected next, c = .serving (.swap round expected next) →
        Barrier.State.joined expected round m.participants = .ok (some next)) →
      m.Serves id (m.setControl id c) := by
    intro c stays swap
    exact serves_setControl rfl crew (by rwa [now]) swap
  cases partakes with
  | baffled _ failed =>
      refine aside (fun w loaded => ?_) (by simp)
      rw [failed] at loaded
      cases loaded
  | passes => exact aside (fun _ _ _ _ _ stands => stands.elim) (by simp [popping])
  | @notes w =>
      have crew' : id < (m.see id w.round).workers.size := by simpa [see] using crew
      have never : ∀ r, ¬(m.controlOf id).Stands r := by
        intro r stands
        rw [now] at stands
        exact stands
      exact serves_unstanding (x := m.see id w.round) never rfl crew' (by simp)
  | relieved => exact aside (fun _ _ _ _ _ stands => stands.elim) (by simp)
  | burdened => exact aside (fun _ _ _ _ _ _ => trivial) (by simp)
  | raises =>
      refine .raises rfl fun s serving => ?_
      rw [controlOf_setControl_self (by exact crew)] at serving
      cases serving
  | uncounted own =>
      exact aside (fun _ _ _ _ _ stands => absurd stands (s.unstanding_of_joining own _)) (by simp)
  | refused own =>
      exact aside (fun _ _ _ _ _ stands => absurd stands (s.unstanding_of_joining own _))
        (by simp [popping])
  | tries own joined =>
      refine aside (fun _ _ _ _ _ stands => absurd stands (s.unstanding_of_joining own _)) ?_
      rintro _ _ _ ⟨⟩
      exact joined
  | joins => exact .joins now rfl (controlOf_setControl_self (by exact crew) _)
  | dismissed loaded' left =>
      -- no round is open that the worker stands in
      refine aside (fun w loaded opened _ _ stands => ?_) (by simp [popping])
      rw [loaded'] at loaded
      cases loaded
      exact absurd left (not_or.2 ⟨not_not_intro stands.symm, opened⟩)
  | retained | unwarned | unburdened | running =>
      exact aside (fun _ _ _ _ _ stands => stands) (by simp)
  | warned raised =>
      refine aside (fun w _ _ down => ?_) (by simp [popping])
      rw [raised] at down
      cases down
  | stopped stopped =>
      refine aside (fun w _ _ _ running => ?_) (by simp [popping])
      rw [stopped] at running
      cases running

/-- A turn of a worker in a round does not shut the pool down. -/
theorem Partakes.shutdown {seen : UInt32} {s : Service} (partakes : m.Partakes id seen s after) :
    after.shutdown = m.shutdown := by
  cases partakes <;> rfl

/-- Tasks are handed in from outside only. -/
theorem Sound.outer_of_submitting (sound : m.Sound)
    (busy : (m.controlOf id).calling = true ∨ (m.controlOf id).arriving = true) :
    id = 0 ∨ m.size ≤ id := by
  have seated := sound.seated id
  cases now : m.controlOf id with
  | submitting s =>
      rw [now] at seated
      exact seated.1
  | _ =>
      rw [now] at busy
      rcases busy with busy | busy <;> cases busy

/-- The number of workers stays the same. -/
theorem size_of_move {mv : Move} (moved : m.move mv = some after) : after.size = m.size :=
  congrArg Prod.fst (shape_move moved)

/-- A step of anyone but the owner outside of barrier rounds. -/
theorem Sound.serves_step (sound : m.Sound) (other : id ≠ 0) (stepped : m.step id = some after)
    (admitted : m.admitted id = true) (unserving : ∀ s, m.controlOf id ≠ .serving s) :
    m.Serves id after ∧ after.shutdown = m.shutdown ∧
      ((after.controlOf id).calling = true →
        (m.controlOf id).calling = true ∨ m.shared = true) := by
  have seated := sound.seated id
  have goes : m.Goes id after := by
    refine sound.next stepped unserving fun l now => ?_
    rw [now] at seated
    exact other seated
  refine ⟨goes.serves unserving, goes.shutdown, fun called => ?_⟩
  rcases goes.next.calling called with calling | arriving
  · exact .inl calling
  · have outside := (sound.outer_of_submitting (.inr arriving)).resolve_left other
    have caller : m.isCaller id = true := by simp [isCaller, other, outside]
    right
    simpa [Machine.admitted, caller, arriving] using admitted

/-- What a turn of anyone but the owner does to the barrier. -/
theorem Sound.serves (sound : m.Sound) {mv : Move} (moved : m.move mv = some after)
    (other : mv.actor ≠ 0) : m.Serves mv.actor after ∧ after.shutdown = m.shutdown ∧
      ((after.controlOf mv.actor).calling = true →
        (m.controlOf mv.actor).calling = true ∨ m.shared = true) := by
  by_cases serving : ∃ s, m.controlOf mv.actor = .serving s
  · obtain ⟨s, now⟩ := serving
    have partakes := partakes_of_serving now rfl moved other
    refine ⟨partakes.serves now, partakes.shutdown, fun called => ?_⟩
    -- no worker hands a task in from outside
    have seated := sound.seated mv.actor
    rw [now] at seated
    have outer := (sound.move moved).sound.outer_of_submitting (.inl called)
    rw [size_of_move moved] at outer
    exact absurd seated (Nat.not_lt_of_le (outer.resolve_left other))
  · have unserving : ∀ s, m.controlOf mv.actor ≠ .serving s := fun s now => serving ⟨s, now⟩
    cases move_cases moved with
    | step admitted stepped => exact sound.serves_step other stepped admitted unserving
    | miss now => exact absurd now (unserving _)
    | @call mv before next c now calls =>
        have passes := calls.passes sound.toBase
        have crew := passes.crew.symm ▸ calls.crew now
        have never : ∀ r, ¬(m.controlOf mv.actor).Stands r := by
          intro r stands
          rw [now] at stands
          cases calls <;> exact stands
        refine ⟨serves_unstanding never passes.barrier crew ?_, passes.shutdown, fun called => ?_⟩
        · cases calls <;> simp
        · rw [controlOf_setControl_self crew] at called
          cases calls <;> cases called
    | start | lead | stop => exact absurd rfl other

end Machine

end AccessOrder.Pool
