/- # The stages of a round

What the leader of a round and the workers in it do at each stage, by what they read there: there is
one rule for every branch that is taken, and whatever such steps keep is told from the rules.

* `directs_of_leading` : what a step of the leader in a round can be;
* `partakes_of_serving` : what a turn of a worker in a round can be.
-/
import AccessOrder.Proofs.Pool.Courses
namespace AccessOrder.Pool

open Barrier (Word)

/-- The round that a worker is about to join, and has not joined yet. -/
def Service.joining? : Service → Option UInt32
  | .read round | .swap round _ _ => some round
  | _ => none

namespace Machine

/-! ## The leader -/

/-- What a step of the leader in a round can be. -/
inductive Directs (m : Machine) (id : WorkerId) : Lead → Machine → Prop where
  | reads {round : UInt32} : Barrier.State.nextRound m.barrier.word = .ok round →
      Directs m id .read (m.setControl id (.leading (.clear round)))
  /-- No round can follow the one that the word tells. -/
  | misreads {f : Barrier.Fault} : Barrier.State.nextRound m.barrier.word = .error f →
      Directs m id .read (m.setControl id (.failed (.barrier f)))
  | clears (round : UInt32) : Directs m id (.clear round)
      (setControl { m with barrier := { m.barrier with aborted := false } } id
        (.leading (.announce round)))
  | announces (round : UInt32) : Directs m id (.announce round)
      (setControl { m with
          barrier := { m.barrier with word := Barrier.State.fresh round .entering } } id
        (.leading (.watchFlag round)))
  | warned {round : UInt32} : m.barrier.aborted = true →
      Directs m id (.watchFlag round) (m.setControl id (.leading (.close round false)))
  | unwarned {round : UInt32} : m.barrier.aborted = false →
      Directs m id (.watchFlag round) (m.setControl id (.leading (.watchQueue round)))
  | unburdened {round : UInt32} : m.queueLength id = 0 →
      Directs m id (.watchQueue round) (m.setControl id (.leading (.watchWord round)))
  /-- The leader has found a task in its own queue. -/
  | burdened {round : UInt32} : m.queueLength id ≠ 0 →
      Directs m id (.watchQueue round) (m.setControl id (.leading (.close round false)))
  | baffled {round : UInt32} {f : Barrier.Fault} : m.barrier.load = .error f →
      Directs m id (.watchWord round) (m.setControl id (.failed (.barrier f)))
  /-- All others have joined the round. -/
  | drains {round : UInt32} {w : Word} : m.barrier.load = .ok w → w.phase = .draining →
      Directs m id (.watchWord round) (m.setControl id (.leading (.survey round 0)))
  | waits {round : UInt32} {w : Word} : m.barrier.load = .ok w → w.phase ≠ .draining →
      Directs m id (.watchWord round) (m.setControl id (.leading (.watchFlag round)))
  /-- A queue is empty. -/
  | passes {round : UInt32} {queue : WorkerId} : queue < m.size → m.queueLength queue = 0 →
      Directs m id (.survey round queue) (m.setControl id (.leading (.survey round (queue + 1))))
  /-- There is a task in a queue. -/
  | finds {round : UInt32} {queue : WorkerId} : queue < m.size → m.queueLength queue ≠ 0 →
      Directs m id (.survey round queue) (m.setControl id (.leading (.close round false)))
  | surveyed {round : UInt32} {queue : WorkerId} : m.size ≤ queue →
      Directs m id (.survey round queue) (m.setControl id (.leading (.recheck round)))
  | judges (round : UInt32) : Directs m id (.recheck round)
      (m.setControl id (.leading (.close round !m.barrier.aborted)))
  /-- The round was quiet, and the leader comes out of the barrier. -/
  | returns {round rounds : UInt32} : m.dutyOf id = .lead rounds →
      Directs m id (.close round true)
        ((setControl { m with barrier := m.barrier.close round } id .away).tell
          (.barrierCompleted rounds))
  | resumes {round : UInt32} {quiet : Bool} : (quiet = true → ∀ n, m.dutyOf id ≠ .lead n) →
      Directs m id (.close round quiet)
        (setControl { m with barrier := m.barrier.close round } id popping)

variable {m after : Machine} {id : WorkerId}

/-- A step of the leader in a round. -/
theorem directs_of_leading {l : Lead} (now : m.controlOf id = .leading l)
    (stepped : m.step id = some after) : m.Directs id l after := by
  obtain ⟨w, found, steps⟩ := step_cases stepped
  have duty := dutyOf_of_found found
  rw [now] at steps
  cases steps with
  | leading moved =>
      cases l with
      | read =>
          simp only [leadStep] at moved
          split at moved <;> cases moved
          · next failed => exact .misreads failed
          · next read => exact .reads read
      | clear round =>
          cases moved
          exact .clears round
      | announce round =>
          cases moved
          exact .announces round
      | watchFlag round =>
          simp only [leadStep, proceed] at moved
          split at moved <;> cases moved
          · next raised => exact .warned raised
          · next down => exact .unwarned (Bool.eq_false_of_not_eq_true down)
      | watchQueue round =>
          simp only [leadStep, proceed] at moved
          split at moved <;> cases moved
          · next empty => exact .unburdened empty
          · next long => exact .burdened long
      | watchWord round =>
          simp only [leadStep] at moved
          split at moved
          · next failed =>
            cases moved
            exact .baffled failed
          · next loaded =>
            simp only [proceed] at moved
            split at moved <;> cases moved
            · next drains => exact .drains loaded drains
            · next waits => exact .waits loaded waits
      | survey round queue =>
          simp only [leadStep] at moved
          split at moved
          · next there =>
            simp only [proceed] at moved
            split at moved <;> cases moved
            · next empty => exact .passes there empty
            · next long => exact .finds there long
          · next past =>
            cases moved
            exact .surveyed (Nat.le_of_not_lt past)
      | recheck round =>
          cases moved
          exact .judges round
      | close round quiet =>
          simp only [leadStep, proceed] at moved
          split at moved <;> cases moved
          · next which => exact .returns (duty.trans which)
          · next unlike =>
            exact .resumes fun good n which => unlike n good (duty.symm.trans which)

/-! ## The workers -/

/-- What a step of a worker in a round can be; `seen` is the last round that it has seen. -/
inductive Partakes (m : Machine) (id : WorkerId) (seen : UInt32) : Service → Machine → Prop where
  /-- The word cannot be read. -/
  | baffled {s : Service} {f : Barrier.Fault} : s = .look ∨ (∃ round, s = .watchWord round) →
      m.barrier.load = .error f → Partakes m id seen s (m.setControl id (.failed (.barrier f)))
  /-- No round is open that the worker has not seen. -/
  | passes {w : Word} : m.barrier.load = .ok w → w.phase = .idle ∨ w.round = seen →
      Partakes m id seen .look (m.setControl id popping)
  /-- The worker takes note of a round. -/
  | notes {w : Word} : m.barrier.load = .ok w → w.phase ≠ .idle → w.round ≠ seen →
      Partakes m id seen .look ((m.see id w.round).setControl id (.serving (.measure w.round)))
  | relieved {round : UInt32} : m.queueLength id = 0 →
      Partakes m id seen (.measure round) (m.setControl id (.serving (.read round)))
  /-- The worker has found a task in its own queue. -/
  | burdened {s : Service} {round : UInt32} : s = .measure round ∨ s = .watchQueue round →
      m.queueLength id ≠ 0 → Partakes m id seen s (m.setControl id (.serving .raise))
  | raises : Partakes m id seen .raise (setControl { m with barrier := m.barrier.abort } id popping)
  /-- The worker has read a word in which it cannot be counted. -/
  | uncounted {s : Service} {round : UInt32} {f : Barrier.Fault} : s.joining? = some round →
      Barrier.State.joined m.barrier.word round m.participants = .error f →
      Partakes m id seen s (m.setControl id (.failed (.barrier f)))
  | refused {s : Service} {round : UInt32} : s.joining? = some round →
      Barrier.State.joined m.barrier.word round m.participants = .ok none →
      Partakes m id seen s (m.setControl id popping)
  | tries {s : Service} {round : UInt32} {next : UInt64} : s.joining? = some round →
      Barrier.State.joined m.barrier.word round m.participants = .ok (some next) →
      Partakes m id seen s (m.setControl id (.serving (.swap round m.barrier.word next)))
  | joins {round : UInt32} {next : UInt64} :
      Partakes m id seen (.swap round m.barrier.word next)
        (setControl { m with barrier := { m.barrier with word := next } } id
          (.serving (.watchWord round)))
  /-- The round is over. -/
  | dismissed {round : UInt32} {w : Word} : m.barrier.load = .ok w →
      w.round ≠ round ∨ w.phase = .idle →
      Partakes m id seen (.watchWord round) (m.setControl id popping)
  | retained {round : UInt32} {w : Word} : m.barrier.load = .ok w → w.round = round →
      w.phase ≠ .idle →
      Partakes m id seen (.watchWord round) (m.setControl id (.serving (.watchFlag round)))
  | warned {round : UInt32} : m.barrier.aborted = true →
      Partakes m id seen (.watchFlag round) (m.setControl id popping)
  | unwarned {round : UInt32} : m.barrier.aborted = false →
      Partakes m id seen (.watchFlag round) (m.setControl id (.serving (.watchQueue round)))
  | unburdened {round : UInt32} : m.queueLength id = 0 →
      Partakes m id seen (.watchQueue round) (m.setControl id (.serving (.watchShutdown round)))
  | stopped {round : UInt32} : m.shutdown = true →
      Partakes m id seen (.watchShutdown round) (m.setControl id popping)
  | running {round : UInt32} : m.shutdown = false →
      Partakes m id seen (.watchShutdown round) (m.setControl id (.serving (.watchWord round)))

/-- A worker that has read the word in order to join. -/
theorem partakes_joining {seen : UInt32} {s : Service} {round : UInt32}
    (own : s.joining? = some round)
    (moved : proceed id .serving (fun m _ => m.setControl id popping)
      (m, m.joining round m.barrier.word) = some after) : m.Partakes id seen s after := by
  unfold joining at moved
  split at moved <;> cases moved
  · next failed => exact .uncounted own failed
  · next refused => exact .refused own refused
  · next joined => exact .tries own joined

/-- A worker goes on from the stage of a round that it is in. -/
theorem partakes_serveStep {seen : UInt32} {s : Service}
    (moved : proceed id .serving (fun m _ => m.setControl id popping) (m.serveStep id seen s) =
      some after) : m.Partakes id seen s after := by
  cases s with
  | look =>
      simp only [serveStep] at moved
      split at moved
      · next failed =>
        cases moved
        exact .baffled (.inl rfl) failed
      · next loaded =>
        split at moved <;> cases moved
        · next seen => exact .passes loaded seen
        · next unseen =>
          obtain ⟨opened, other⟩ := not_or.1 unseen
          exact .notes loaded opened other
  | measure round =>
      simp only [serveStep, proceed] at moved
      split at moved <;> cases moved
      · next empty => exact .relieved empty
      · next long => exact .burdened (.inl rfl) long
  | raise =>
      cases moved
      exact .raises
  | read round => exact partakes_joining rfl moved
  | swap round expected next =>
      simp only [serveStep, Barrier.State.exchange] at moved
      by_cases current : m.barrier.word = expected
      · rw [if_pos current] at moved
        cases moved
        subst current
        exact .joins
      · rw [if_neg current] at moved
        exact partakes_joining rfl moved
  | watchWord round =>
      simp only [serveStep] at moved
      split at moved
      · next failed =>
        cases moved
        exact .baffled (.inr ⟨round, rfl⟩) failed
      · next loaded =>
        split at moved <;> cases moved
        · next left => exact .dismissed loaded left
        · next stays =>
          obtain ⟨same, opened⟩ := not_or.1 stays
          exact .retained loaded (not_not.1 same) opened
  | watchFlag round =>
      simp only [serveStep] at moved
      split at moved <;> cases moved
      · next raised => exact .warned raised
      · next down => exact .unwarned (Bool.eq_false_of_not_eq_true down)
  | watchQueue round =>
      simp only [serveStep, proceed] at moved
      split at moved <;> cases moved
      · next empty => exact .unburdened empty
      · next long => exact .burdened (.inr rfl) long
  | watchShutdown round =>
      simp only [serveStep] at moved
      split at moved <;> cases moved
      · next stopped => exact .stopped stopped
      · next running => exact .running (Bool.eq_false_of_not_eq_true running)

/-- A turn of a worker in a round. -/
theorem partakes_of_serving {s : Service} (now : m.controlOf id = .serving s) {mv : Move}
    (own : mv.actor = id) (moved : m.move mv = some after) (inside : id ≠ 0) :
    m.Partakes id (m.traitsOf id).2 s after := by
  cases move_cases moved with
  | @step id' _ admitted stepped =>
      obtain rfl : id' = id := own
      obtain ⟨w, found, steps⟩ := step_cases stepped
      have seen : (m.traitsOf id').2 = w.seenRound := by rw [traitsOf, found]; rfl
      rw [now] at steps
      cases steps with
      | serving moved => exact partakes_serveStep (seen ▸ moved)
  | @miss id' round expected next _ now' missed =>
      obtain rfl : id' = id := own
      rw [now] at now'
      cases now'
      exact partakes_joining rfl missed
  | call before calls =>
      rw [own, now] at before
      subst before
      cases calls
  | start | lead | stop => exact absurd own (Ne.symm inside)

end Machine

end AccessOrder.Pool
