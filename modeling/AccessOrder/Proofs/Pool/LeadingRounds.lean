/- # Leading rounds

What the owner does alone while nobody is busy: it opens a round, comes to the end of one, and
closes it.

* `Waits.opens_popping` : the owner opens the next round, or comes out of the barrier for want of
  workers;
* `Waits.concludes` : the owner comes to the end of a round that drains, or in which the flag is
  raised, or of which its own queue is the reason;
* `Waits.closes` : the owner closes a round, and comes out of the barrier if the round was quiet.
-/
import AccessOrder.Proofs.Pool.TakingTasks
namespace AccessOrder.Pool

open Barrier (Word Phase)

namespace Machine

/-- What the owner has done alone, after which nobody is busy and as much is ahead as before. -/
structure Presides (m a : Machine) : Prop where
  works : m.Works a
  waits : Waits a
  calm : a.Calm
  cost : a.cost = m.cost
  others : ∀ o ≠ 0, a.controlOf o = m.controlOf o
  size : a.size = m.size
  seen : ∀ o, a.seenOf o = m.seenOf o
  world : a.world = m.world
  drains : a.drains = m.drains

variable {m a b after : Machine} {round : UInt32} {l : Lead}

/-- The owner goes on after it has gone on. -/
theorem Presides.trans (first : Presides m a) (second : Presides a b) : Presides m b where
  works := first.works.trans second.works
  waits := second.waits
  calm := second.calm
  cost := second.cost.trans first.cost
  others o other := (second.others o other).trans (first.others o other)
  size := second.size.trans first.size
  seen o := (second.seen o).trans (first.seen o)
  world := second.world.trans first.world
  drains := second.drains.trans first.drains

/-- An owner that stays where it is. -/
theorem Waits.presides_refl (waits : Waits m) (calm : m.Calm) : Presides m m :=
  ⟨.refl, waits, calm, rfl, fun _ _ => rfl, rfl, fun _ => rfl, rfl, rfl⟩

/-- A goal that can be attained after the owner has gone on can be attained before. -/
theorem Presides.before {goal : Machine → Prop} (presides : Presides m a)
    (attains : Attains a goal) : Attains m goal :=
  Attains.before attains presides.works presides.drains presides.cost fun q => by
    rw [presides.world]

/-- A step of the owner in a barrier round. -/
theorem Waits.presides (waits : Waits m) (calm : m.Calm) (stepped : m.step 0 = some after)
    (spares : m.Spares after) (awaiting : (after.controlOf 0).awaiting = true)
    (rests : ¬(after.controlOf 0).Busy) (seen : ∀ o, after.seenOf o = m.seenOf o)
    (drains : after.drains = m.drains) : Presides m after := by
  obtain ⟨works, waits', calm', cost⟩ :=
    waits.spares calm waits.inside stepped spares rests awaiting
  exact ⟨works, waits', calm', cost, (waits.sound.step stepped).others, spares.size, seen,
    spares.world, drains⟩

/-! ## Steps of the leader -/

/-- What the owner goes on with that has closed a round, which it has found quiet or not. -/
def afterRound (rounds : UInt32) (m : Machine) (quiet : Bool) : Machine :=
  if quiet then (m.setControl 0 .away).tell (.barrierCompleted rounds) else m.setControl 0 popping

/-- A step of the leader, by its stage. -/
theorem Waits.step_leading (waits : Waits m) (now : m.controlOf 0 = .leading l) :
    ∃ rounds, m.step 0 = proceed 0 .leading (afterRound rounds) (m.leadStep 0 l) := by
  have here : 0 < m.workers.size := lt_of_controlOf (by simp [now])
  have found := Array.getElem?_eq_getElem here
  have control := controlOf_of_found found
  obtain ⟨rounds, leads⟩ := waits.sound.exists_lead
  rw [dutyOf_of_found found] at leads
  refine ⟨rounds, ?_⟩
  unfold Machine.step
  rw [if_neg (by rw [waits.up]; exact Bool.false_ne_true), found]
  simp only [← control, now, leads]
  congr 1
  funext m quiet
  cases quiet <;> rfl

/-- The leader goes on with something else, and has written the barrier or not. -/
theorem Waits.leads (waits : Waits m) (calm : m.Calm) (now : m.controlOf 0 = .leading l)
    {b : Barrier.State} {l' : Lead}
    (stepped : m.leadStep 0 l = ({ m with barrier := b }, .goes l')) :
    ∃ a, Presides m a ∧ a.controlOf 0 = .leading l' ∧ a.barrier = b := by
  have here : 0 < m.workers.size := lt_of_controlOf (by simp [now])
  obtain ⟨rounds, step⟩ := waits.step_leading now
  rw [stepped] at step
  have control : (setControl { m with barrier := b } 0 (.leading l')).controlOf 0 = .leading l' :=
    controlOf_setControl_self (by exact here) _
  refine ⟨_, waits.presides calm step
    ((spares_barrier m b m.events).setControl 0 (.leading l')) ?_ ?_
    (fun o => seenOf_setControl { m with barrier := b } 0 o _)
    (drains_congr (dutyOf_setControl { m with barrier := b } 0 0 _)), control, rfl⟩
  · rw [control]
    rfl
  · rw [control]
    exact not_false

/-! ## Opening a round -/

/-- Where the owner is while no round is open and nobody is busy. -/
theorem Waits.owner_of_closed (waits : Waits m) (calm : m.Calm) (closed : m.round? = none) :
    m.controlOf 0 = popping ∨ m.controlOf 0 = .leading .read ∨
      ∃ r, m.controlOf 0 = .leading (.clear r) ∨ m.controlOf 0 = .leading (.announce r) := by
  have awaiting := waits.awaiting
  have seated := waits.sound.seated 0
  have idle := calm 0 waits.inside
  have led := waits.led
  have never : ∀ {l r}, m.controlOf 0 = .leading l → l.round? = some r → False := by
    intro l r now own
    rw [now] at led
    obtain ⟨w, loaded, at', active, -⟩ := led.opened own
    rw [round?_eq_some.2 ⟨w, loaded, active, at'⟩] at closed
    cases closed
  cases now : m.controlOf 0 with
  | popping p =>
      rw [now] at seated idle
      obtain ⟨-, taking⟩ := seated
      cases taking with
      | measure => exact .inl rfl
      | acquire | change | publish | release => exact absurd (by constructor) idle
  | executing e =>
      rw [now] at idle
      exact absurd trivial idle
  | leading l =>
      cases l with
      | read => exact .inr (.inl rfl)
      | clear r => exact .inr (.inr ⟨r, .inl rfl⟩)
      | announce r => exact .inr (.inr ⟨r, .inr rfl⟩)
      | _ => exact (never now rfl).elim
  | _ =>
      rw [now] at awaiting
      cases awaiting

/-- What the owner has come to when it has opened a round. -/
structure Opens (m a : Machine) : Prop extends Presides m a where
  opened : ∃ round, a.round? = some round ∧ a.controlOf 0 = .leading (.watchFlag round) ∧
    ∀ id, 0 < id → id < m.size → m.seenOf id ≠ round

/-- The owner opens a round after it has gone on. -/
theorem Presides.opens (presides : Presides m a) (opens : Opens a b) : Opens m b where
  toPresides := presides.trans opens.toPresides
  opened := by
    obtain ⟨round, opened, control, unseen⟩ := opens.opened
    refine ⟨round, opened, control, fun id pos inside => ?_⟩
    rw [← presides.seen]
    exact unseen id pos (presides.size.symm ▸ inside)

/-- The owner opens the round that it has read of. -/
theorem Waits.opens_announce (waits : Waits m) (calm : m.Calm)
    (now : m.controlOf 0 = .leading (.announce round)) :
    ∃ a, Opens m a ∧ a.barrier.aborted = m.barrier.aborted := by
  have led := waits.led
  rw [now] at led
  obtain ⟨w, loaded, idle, rfl⟩ := led
  have opened : ∀ {x : Machine}, x.barrier.word = Barrier.State.fresh (w.round + 1) .entering →
      x.round? = some (w.round + 1) := fun same =>
    round?_eq_some.2 ⟨_, by
      rw [Barrier.State.load, same]
      exact Barrier.State.unpack_fresh (w.round + 1) .entering, by rintro ⟨⟩, rfl⟩
  obtain ⟨a, presides, control, barrier⟩ := waits.leads calm now
    (b := { m.barrier with word := Barrier.State.fresh (w.round + 1) .entering }) rfl
  obtain ⟨c, laps⟩ := waits.laps
  exact ⟨a, ⟨presides, w.round + 1, opened (by rw [barrier]), control,
    fun id pos inside => laps.unseen_next loaded now pos inside⟩, by rw [barrier]⟩

/-- The owner takes the flag down, and opens a round. -/
theorem Waits.opens_clear (waits : Waits m) (calm : m.Calm)
    (now : m.controlOf 0 = .leading (.clear round)) :
    ∃ a, Opens m a ∧ a.barrier.aborted = false := by
  obtain ⟨a, presides, control, barrier⟩ := waits.leads calm now
    (b := { m.barrier with aborted := false }) rfl
  obtain ⟨b, opens, flag⟩ := presides.waits.opens_announce presides.calm control
  exact ⟨b, presides.opens opens, by rw [flag, barrier]⟩

/-- The owner reads which round follows, and opens it. -/
theorem Waits.opens_read (waits : Waits m) (calm : m.Calm)
    (now : m.controlOf 0 = .leading .read) :
    ∃ a, Opens m a ∧ a.barrier.aborted = false := by
  have stage := waits.rounds.stage
  rw [now] at stage
  obtain ⟨w, loaded, idle⟩ := stage
  have next := Barrier.State.nextRound_of_idle loaded idle
  obtain ⟨a, presides, control, barrier⟩ := waits.leads calm now
    (show m.leadStep 0 .read = (m, .goes (.clear (w.round + 1))) by simp only [leadStep, next])
  obtain ⟨b, opens, flag⟩ := presides.waits.opens_clear presides.calm control
  exact ⟨b, presides.opens opens, flag⟩

/-- An owner that has found its own queue empty counts the drain if it can, and goes on to lead a
round, or comes out of the barrier for want of other workers. -/
theorem Waits.drained (waits : Waits m) (calm : m.Calm) (now : m.controlOf 0 = popping)
    (empty : m.world.queue 0 = []) (room : m.drains + 1 < 2 ^ 32) :
    ∃ a, m.Works a ∧ (a.Returned ∨ Waits a ∧ a.Calm ∧ a.controlOf 0 = .leading .read ∧
      (∀ o ≠ 0, a.controlOf o = m.controlOf o) ∧ (∀ o, a.seenOf o = m.seenOf o) ∧
      a.size = m.size ∧ a.world = m.world) := by
  obtain ⟨x, w, found, passes, stepped, world, crash⟩ := waits.idles calm waits.inside now empty
  have here : 0 < x.workers.size := passes.crew.symm ▸ (Array.getElem?_eq_some_iff.1 found).1
  have goes := passes.goes_idleStep found now
  have shape := shape_step stepped
  have duty := dutyOf_of_found found
  obtain ⟨drained, leads⟩ := waits.sound.exists_lead
  have works : m.Works (x.idleStep 0 w) := Works.refl.step waits.inside stepped
  have rests := x.rests_idleStep 0 w
  generalize x.idleStep 0 w = a at stepped works goes shape world crash rests
  refine ⟨a, works, ?_⟩
  cases rests with
  | visits which => cases leads.symm.trans (duty.trans which)
  | @overflows rounds which none =>
      have counts : m.drains = rounds.toNat := by rw [drains, duty, which]
      rw [counted, if_pos (counts ▸ room)] at none
      cases none
  | returns => exact .inl ⟨controlOf_setControl_self (by simpa using here) _, _, rfl⟩
  | @leads rounds next =>
      have control : controlOf (setControl { x with
          workers := x.workers.modify 0 fun w => { w with duty := .lead next } } 0
          (.leading .read)) 0 = .leading .read := controlOf_setControl_self (by simpa using here) _
      obtain ⟨works, waits', calm', -⟩ := waits.spares calm waits.inside stepped
        ⟨congrArg Prod.fst shape, congrArg (·.2.1) shape, world, goes.shutdown, goes.started, crash,
          fun o => congrArg Prod.fst (goes.traits o)⟩ (by rw [control]; exact not_false)
        (by rw [control]; rfl)
      exact .inr ⟨waits', calm', control, (waits.sound.step stepped).others,
        fun o => congrArg Prod.snd (goes.traits o), congrArg Prod.fst shape, world⟩

/-! ## Coming to the end of a round -/

/-- The owner comes to close a round, which it has found quiet unless the flag is raised or there is
a task in a queue. -/
def Concludes (m : Machine) (round : UInt32) : Prop :=
  ∃ a quiet, Presides m a ∧ a.barrier = m.barrier ∧
    a.controlOf 0 = .leading (.close round quiet) ∧
      (quiet = false → m.barrier.aborted = true ∨ ∃ q, m.world.queue q ≠ [])

section Concludes

variable (waits : Waits m) (calm : m.Calm)
include waits calm

/-- The owner goes on to a stage from which it comes to close the round. -/
theorem Waits.concludes_of_goes (now : m.controlOf 0 = .leading l) (l' : Lead)
    (stepped : m.leadStep 0 l = (m, .goes l'))
    (rest : ∀ {a}, Presides m a → a.controlOf 0 = .leading l' → a.barrier = m.barrier →
      Concludes a round) : Concludes m round := by
  obtain ⟨a, presides, control, barrier⟩ := waits.leads calm now (b := m.barrier) stepped
  obtain ⟨b, quiet, presides', barrier', control', reason⟩ := rest presides control barrier
  refine ⟨b, quiet, presides.trans presides', barrier'.trans barrier, control', ?_⟩
  rwa [barrier, presides.world] at reason

/-- The owner goes on to closing the round. -/
theorem Waits.concludes_of_close (now : m.controlOf 0 = .leading l) (quiet : Bool)
    (stepped : m.leadStep 0 l = (m, .goes (.close round quiet)))
    (reason : quiet = false → m.barrier.aborted = true ∨ ∃ q, m.world.queue q ≠ []) :
    Concludes m round := by
  obtain ⟨a, presides, control, barrier⟩ := waits.leads calm now (b := m.barrier) stepped
  exact ⟨a, quiet, presides, barrier, control, reason⟩

/-- The owner looks at the flag a last time. -/
theorem Waits.concludes_recheck (now : m.controlOf 0 = .leading (.recheck round)) :
    Concludes m round :=
  waits.concludes_of_close calm now (!m.barrier.aborted) rfl fun found =>
    .inl (by simpa using found)

/-- The owner looks at one queue after the other. -/
theorem Waits.concludes_survey {q : WorkerId}
    (now : m.controlOf 0 = .leading (.survey round q)) : Concludes m round := by
  induction left : m.size - q generalizing m q with
  | zero =>
      have past : ¬q < m.size := Nat.not_lt_of_le (Nat.sub_eq_zero_iff_le.1 left)
      refine waits.concludes_of_goes calm now (.recheck round) ?_ ?_
      · simp only [leadStep, if_neg past]
      · exact fun presides control _ => presides.waits.concludes_recheck presides.calm control
  | succ n ih =>
      have there : q < m.size := Nat.lt_of_sub_ne_zero (by rw [left]; exact Nat.succ_ne_zero n)
      by_cases empty : m.world.queue q = []
      · have zero : m.queueLength q = 0 := by rw [waits.queueLength_eq calm, empty]; rfl
        refine waits.concludes_of_goes calm now (.survey round (q + 1)) ?_ ?_
        · simp only [leadStep, if_pos there, if_pos zero]
        · intro a presides control _
          refine ih presides.waits presides.calm control ?_
          rw [presides.size]
          omega
      · have long : m.queueLength q ≠ 0 := by
          rw [waits.queueLength_eq calm]
          exact fun zero => empty (List.eq_nil_of_length_eq_zero zero)
        refine waits.concludes_of_close calm now false ?_ fun _ => .inr ⟨q, empty⟩
        simp only [leadStep, if_pos there, if_neg long]

/-- The owner finds a task in its own queue. -/
theorem Waits.concludes_watchQueue_of_full (full : m.world.queue 0 ≠ [])
    (now : m.controlOf 0 = .leading (.watchQueue round)) : Concludes m round := by
  have long : m.queueLength 0 ≠ 0 := by
    rw [waits.queueLength_eq calm]
    exact fun zero => full (List.eq_nil_of_length_eq_zero zero)
  refine waits.concludes_of_close calm now false ?_ fun _ => .inr ⟨0, full⟩
  simp only [leadStep, if_neg long]

/-- The owner finds the flag raised, or a task in its own queue. -/
theorem Waits.concludes_watchFlag_of_due (due : m.barrier.aborted = true ∨ m.world.queue 0 ≠ [])
    (now : m.controlOf 0 = .leading (.watchFlag round)) : Concludes m round := by
  by_cases raised : m.barrier.aborted = true
  · refine waits.concludes_of_close calm now false ?_ fun _ => .inl raised
    simp only [leadStep, if_pos raised]
  · refine waits.concludes_of_goes calm now (.watchQueue round) ?_ ?_
    · simp only [leadStep, if_neg raised]
    · intro a presides control _
      refine presides.waits.concludes_watchQueue_of_full presides.calm ?_ control
      rw [presides.world]
      exact due.resolve_left raised

/-- The owner finds that all have joined, or looks at the flag and its own queue once more. -/
theorem Waits.concludes_watchWord
    (due : m.barrier.aborted = true ∨ m.world.queue 0 ≠ [] ∨
      ∃ w, m.barrier.load = .ok w ∧ w.phase = .draining)
    (now : m.controlOf 0 = .leading (.watchWord round)) : Concludes m round := by
  obtain ⟨w, loaded, -⟩ := waits.word
  by_cases drains : w.phase = .draining
  · refine waits.concludes_of_goes calm now (.survey round 0) ?_ ?_
    · simp only [leadStep, loaded, if_pos drains]
    · exact fun presides control _ => presides.waits.concludes_survey presides.calm control
  · refine waits.concludes_of_goes calm now (.watchFlag round) ?_ ?_
    · simp only [leadStep, loaded, if_neg drains]
    · intro a presides control barrier
      refine presides.waits.concludes_watchFlag_of_due presides.calm ?_ control
      rw [barrier, presides.world]
      refine due.imp_right fun due => due.resolve_right ?_
      rintro ⟨u, loaded', draining⟩
      rw [loaded] at loaded'
      cases loaded'
      exact drains draining

/-- The owner looks at its own queue, and then at the word. -/
theorem Waits.concludes_watchQueue
    (due : m.barrier.aborted = true ∨ m.world.queue 0 ≠ [] ∨
      ∃ w, m.barrier.load = .ok w ∧ w.phase = .draining)
    (now : m.controlOf 0 = .leading (.watchQueue round)) : Concludes m round := by
  by_cases empty : m.world.queue 0 = []
  · have zero : m.queueLength 0 = 0 := by rw [waits.queueLength_eq calm, empty]; rfl
    refine waits.concludes_of_goes calm now (.watchWord round) ?_ ?_
    · simp only [leadStep, if_pos zero]
    · intro a presides control barrier
      refine presides.waits.concludes_watchWord presides.calm ?_ control
      rwa [barrier, presides.world]
  · exact waits.concludes_watchQueue_of_full calm empty now

/-- The owner comes to the end of a round when the flag is raised, when there is a task in its own
queue, or when the round drains. -/
theorem Waits.concludes
    (due : m.barrier.aborted = true ∨ m.world.queue 0 ≠ [] ∨
      ∃ w, m.barrier.load = .ok w ∧ w.phase = .draining)
    (now : m.controlOf 0 = .leading l) (own : l.round? = some round)
    (unclosed : l ≠ .close round false) : Concludes m round := by
  cases l with
  | read | clear | announce => cases own
  | watchFlag r =>
      cases own
      by_cases raised : m.barrier.aborted = true
      · exact waits.concludes_watchFlag_of_due calm (.inl raised) now
      · refine waits.concludes_of_goes calm now (.watchQueue round) ?_ ?_
        · simp only [leadStep, if_neg raised]
        · intro a presides control barrier
          refine presides.waits.concludes_watchQueue presides.calm ?_ control
          rwa [barrier, presides.world]
  | watchQueue r =>
      cases own
      exact waits.concludes_watchQueue calm due now
  | watchWord r =>
      cases own
      exact waits.concludes_watchWord calm due now
  | survey r q =>
      cases own
      exact waits.concludes_survey calm now
  | recheck r =>
      cases own
      exact waits.concludes_recheck calm now
  | close r quiet =>
      cases own
      cases quiet with
      | true => exact ⟨m, true, waits.presides_refl calm, rfl, now, by rintro ⟨⟩⟩
      | false => exact absurd rfl unclosed

end Concludes

/-! ## Closing a round -/

/-- The owner closes a round, and takes the tasks of its own queue, or comes out of the barrier if
the round was quiet. -/
theorem Waits.closes (waits : Waits m) (calm : m.Calm) {quiet : Bool}
    (now : m.controlOf 0 = .leading (.close round quiet)) :
    if quiet then ∃ a, Works m a ∧ a.Returned
    else ∃ a, Presides m a ∧ a.controlOf 0 = popping ∧ a.round? = none := by
  have here : 0 < m.workers.size := lt_of_controlOf (by simp [now])
  obtain ⟨rounds, step⟩ := waits.step_leading now
  have control : ∀ x, (setControl { m with barrier := m.barrier.close round } 0 x).controlOf 0 =
      x := fun x => controlOf_setControl_self (by exact here) x
  cases quiet with
  | true =>
      replace step : m.step 0 = some ((setControl { m with barrier := m.barrier.close round } 0
        .away).tell (.barrierCompleted rounds)) := step
      exact ⟨_, Works.refl.step waits.inside step, control .away, rounds, rfl⟩
  | false =>
      replace step : m.step 0 = some (setControl { m with barrier := m.barrier.close round } 0
        popping) := step
      refine ⟨_, waits.presides calm step
        ((spares_barrier m (m.barrier.close round) m.events).setControl 0 popping)
        (by rw [control]; rfl) (by rw [control]; rintro ⟨⟩)
        (fun o => seenOf_setControl { m with barrier := m.barrier.close round } 0 o _)
        (drains_congr (dutyOf_setControl { m with barrier := m.barrier.close round } 0 0 _)),
        control popping, round?_eq_none (Barrier.State.unpack_fresh round .idle) rfl⟩

end Machine

end AccessOrder.Pool
