/- # A pool with one worker

The owner of a pool that has no other worker does all the work itself when it waits at the barrier.
No step of it has to wait, and each brings it closer to its return: it is busy with a task, which
lowers what is ahead, or it searches its queue, which ends with a task or with its return.  Callers
that build tasks meanwhile take it no farther away, until they keep them for others to hand in.

* `Base.searches` : a step of a search of a queue;
* `Alone.advances` : a step of the owner;
* `Alone.beside` : a turn of a caller that keeps nothing;
* `Alone.returns_of_fair` : the owner returns, in whatever order turns are taken;
* `Alone.exists_stepIn` : it does so when it alone takes turns.
-/
import AccessOrder.Proofs.Pool.Returns
namespace AccessOrder

/-- How many steps a search of a queue is from its end that has not found a task; none if it has. -/
def Queue.Progress.searching : Queue.Progress Task → Nat
  | .measure _ => 5
  | .acquire _ => 4
  | .change _ => 3
  | .publish none => 2
  | .release none => 1
  | .publish (some _) | .release (some _) | .done _ => 0

namespace Pool

/-- How many steps a worker is from the end of a search that has not found a task. -/
def Control.searching : Control → Nat
  | .popping p => p.searching
  | _ => 0

/-- What a worker is still going to do with the task that it has, before it looks for another. -/
def Control.toil (c : Control) : Cost := if c.searching = 0 then c.cost else 0

/-- Whether something in hand is a task that has not been handed in yet. -/
def Item.Unclaimed : Item → Prop
  | .draft _ | .arriving _ => True
  | _ => False

/-! ## Callers -/

/-- What is built by those who have not handed anything in costs nothing, until it is kept; and less
is ahead when what has been kept is taken up. -/
theorem Deed.stock_cases {w w' : World} {xs ys : List Item} {ms : List Moment}
    (deed : Deed w xs ms w' ys) (unbroken : ¬Broken w xs) (unclaimed : ∀ x ∈ xs, x.Unclaimed)
    (sound : ∀ h, (w.units h).Sound) :
    w'.stock = w.stock ∨ w'.stock.Below w.stock ∨ w.kept.length < w'.kept.length := by
  cases deed with
  | schedule next inside offered =>
      exact .inl (w.stock_setUnit_eq inside (backlog_scheduled (sound _) offered))
  | keep => exact .inr (.inr (Nat.lt_succ_self _))
  | @pick _ t ts same =>
      have less := w.stock_pick same
      refine .inr (.inl ⟨?_, .inl ?_⟩)
      · rw [← less]
        exact Nat.le_add_right _ _
      · rw [← less]
        exact Nat.lt_add_of_pos_right (Nat.succ_pos t.load)
  | park | store | fetch | lock | unlock => exact (unclaimed _ List.mem_cons_self).elim
  | release => exact (unclaimed _ List.mem_cons_self).elim
  | strands stray => exact absurd (.stray stray) unbroken
  | broken fault => exact absurd (.fault fault) unbroken
  | _ => exact .inl rfl

namespace Machine

variable {m after : Machine} {past : List Moment}

/-- Tasks that are kept are left alone while others are built. -/
theorem kept_submitStep (origin : WorkerId) {s : Submission}
    (uncalling : (Control.submitting s).calling = false) :
    (m.submitStep origin s).1.kept = m.kept := by
  cases s with
  | build d =>
      simp only [submitStep]
      split <;> rfl
  | arrive t =>
      simp only [submitStep]
      split
      · rfl
      · split <;> rfl
  | vet | enqueue => cases uncalling

/-- A caller goes on with something that it has not handed in: it keeps nothing, and does not bring
the pool down. -/
theorem spares_of_submitting (sound : m.Sound) {id : WorkerId} {s : Submission}
    (now : m.controlOf id = .submitting s) (uncalling : (Control.submitting s).calling = false)
    (stepped : m.step id = some after) : after.crash = m.crash ∧ after.kept = m.kept := by
  have seated := sound.seated id
  obtain ⟨w, found, steps⟩ := step_cases stepped
  rw [now] at seated steps
  cases steps with
  | submitting moved =>
      have leads := sound.toBase.leads_submission (home_lt sound.manned id) seated.2
      have whole := m.submitStep_ne_aborts (m.home id) s
      have kept := m.kept_submitStep (m.home id) uncalling
      generalize m.submitStep (m.home id) s = r at leads moved whole kept
      cases leads with
      | waits => cases moved
      | goes passes => cases moved; exact ⟨passes.crash, kept⟩
      | ends passes => cases moved; exact ⟨passes.crash, kept⟩
      | fails f passes => cases moved; exact ⟨passes.crash, kept⟩
      | @aborts x label => exact absurd rfl (whole label)

/-! ## Searching -/

/-- What comes of a step of a search that has not found a task: it goes on, finds a task that costs
less in hand than it has cost in the queue, or ends. -/
inductive Searches (m : Machine) (p : Queue.Progress Task) :
    Machine × Turn (Queue.Progress Task) (Option Task) → Prop where
  | goes {a next} : a.world.stock = m.world.stock → next.searching ≠ 0 →
      next.searching < p.searching → Searches m p (a, .goes next)
  | finds {a next} : next.searching = 0 → (a.world.stock + next.cost).Below m.world.stock →
      Searches m p (a, .goes next)
  | ends {a} : Searches m p (a, .ends none)

/-- A step of a search of one's own queue. -/
theorem Base.searches (base : m.Base) {target : WorkerId} (inside : target < m.size)
    {p : Queue.Progress Task} (taking : p.Taking .pop) (searching : p.searching ≠ 0)
    (unbarred : ¬Barred m.world target p) : Searches m p (m.queueStep target p) := by
  obtain ⟨q, found⟩ : ∃ q, m.queues[target]? = some q :=
    ⟨_, Array.getElem?_eq_getElem (show target < m.queues.size from inside)⟩
  have contents := (world_of_found found).1
  unfold queueStep
  rw [found]
  cases taking with
  | measure =>
      simp only [Queue.Progress.step]
      by_cases empty : q.published = 0
      · simp only [if_pos empty]
        exact .ends
      · simp only [if_neg empty]
        refine .goes ?_ (by simp [Queue.Progress.searching]) (by simp [Queue.Progress.searching])
        rw [world_set_self found]
  | acquire =>
      have free : q.held = false := by
        by_contra held
        exact unbarred ((world_of_found found).2.2.trans (eq_true_of_ne_false held))
      simp only [Queue.Progress.step, free]
      refine .goes ?_ (by simp [Queue.Progress.searching]) (by simp [Queue.Progress.searching])
      rw [world_setHeld found]
      rfl
  | change =>
      obtain ⟨x, l, popped, -, same, -⟩ := (base.lanes q (Array.mem_of_getElem? found)).pop
      have same : (m.world.queue target).Perm (x.toList ++ l.contents) := contents ▸ .of_eq same
      simp only [Queue.Progress.step, Queue.Request.apply, popped, Except.map]
      cases x with
      | none =>
          refine .goes ?_ (by simp [Queue.Progress.searching]) (by simp [Queue.Progress.searching])
          rw [world_setLanes found, ← World.stock_fetch inside same]
          exact (add_zero _).symm
      | some t =>
          refine .finds rfl ?_
          rw [world_setLanes found, ← World.stock_fetch inside same]
          have few := rank_look_le t
          simp only [Cost.Below, Queue.Progress.cost, Queue.found, Option.toList_some,
            Option.elim_some, tally_cons, tally_nil, Task.queued, Task.cost, Task.queueRank,
            Cost.add_breaks, Cost.add_load, Cost.add_rank, add_zero]
          lia
  | publish x =>
      cases x with
      | none =>
          simp only [Queue.Progress.step]
          refine .goes ?_ (by simp [Queue.Progress.searching]) (by simp [Queue.Progress.searching])
          rw [base.world_publish found]
          rfl
      | some t => exact absurd rfl searching
  | release x =>
      cases x with
      | none => exact .ends
      | some t => exact absurd rfl searching

/-! ## The owner alone -/

/-- What is still ahead of an owner that does all the work itself. -/
def toil (m : Machine) : Cost := m.world.stock + (m.controlOf 0).toil

/-- Whether the owner is closer to the end of its wait: less is ahead, or as much but less of a
search. -/
def Closer (after m : Machine) : Prop :=
  after.toil.Below m.toil ∨
    after.toil = m.toil ∧ (after.controlOf 0).searching < (m.controlOf 0).searching

/-- A pool that has no worker but the owner, after some turns. -/
def Solitary (m : Machine) : Prop :=
  ∃ (l : Launch) (vocabulary : Access.Vocabulary) (handles callers : Nat)
    (references : Array HandleId) (past : List Moment),
    l.size = 1 ∧ (l.opening vocabulary handles callers references).Runs past m

/-- The owner of a pool that has no other worker waits at the barrier, and no work that is still to
be done is broken off. -/
structure Alone (m : Machine) : Prop where
  solitary : m.Solitary
  awaiting : (m.controlOf 0).awaiting = true
  up : m.crash = none
  returns : m.toil.breaks = 0

/-- Nobody comes closer for ever. -/
theorem Closer.induction {motive : Machine → Prop}
    (step : ∀ m, (∀ a : Machine, a.Closer m → motive a) → motive m) (m : Machine) : motive m := by
  generalize ahead : m.toil = cost
  induction cost using Cost.Below.induction generalizing m with
  | step cost less =>
      generalize far : (m.controlOf 0).searching = distance
      induction distance using Nat.strongRecOn generalizing m with
      | _ distance nearer =>
          refine step m fun a closer => ?_
          rcases closer with below | ⟨same, shorter⟩
          · exact less a.toil (ahead ▸ below) a rfl
          · exact nearer _ (far ▸ shorter) a (same.trans ahead) rfl

/-- An owner that has a task costs a pool without other workers what is ahead of it. -/
theorem cost_eq_toil (sole : m.size = 1) (found : (m.controlOf 0).searching = 0) :
    m.cost = m.toil := by
  rw [cost, sole, Finset.sum_range_one, toil, Control.toil, if_pos found]

/-- What an owner does that has not found a task costs nothing. -/
theorem toil_eq_stock (searching : (m.controlOf 0).searching ≠ 0) : m.toil = m.world.stock := by
  rw [toil, Control.toil, if_neg searching, add_zero]

/-- No more is ahead of an owner than it costs the pool. -/
theorem toil_le_cost (sole : m.size = 1) :
    m.toil.breaks ≤ m.cost.breaks ∧ m.toil.load ≤ m.cost.load ∧ m.toil.rank ≤ m.cost.rank := by
  by_cases found : (m.controlOf 0).searching = 0
  · rw [cost_eq_toil sole found]
    exact ⟨Nat.le_refl _, Nat.le_refl _, Nat.le_refl _⟩
  · rw [toil_eq_stock found]
    exact ⟨Nat.le_add_right .., Nat.le_add_right .., Nat.le_add_right ..⟩

variable {l : Launch} {vocabulary : Access.Vocabulary} {handles callers : Nat}
  {references : Array HandleId}

/-- The owner comes to wait at the barrier only by taking the lead of one. -/
theorem Rounds.lead_of_awaiting (rounds : m.Rounds) (sound : m.Sound) {mv : Move}
    (moved : m.move mv = some after) (own : mv.actor = 0)
    (outside : ¬(m.controlOf 0).awaiting = true) (awaiting : (after.controlOf 0).awaiting = true) :
    mv = .lead := by
  cases move_cases moved with
  | @step id _ _ stepped =>
      obtain rfl : id = 0 := own
      have unleading : ∀ lead, m.controlOf 0 ≠ .leading lead := fun lead now =>
        outside (by rw [now]; rfl)
      have next := (sound.next stepped rounds.unserving unleading).next
      have owned := rounds.owned
      generalize m.controlOf 0 = c at next owned outside
      generalize after.controlOf 0 = c' at next awaiting
      cases next with
      | same => exact absurd awaiting outside
      | failed | submitting | submitted => cases awaiting
      | looping | stopped | leaving | serving | stealing | stolen | visiting => exact owned.elim
      | popping | popped | searching | finished | leading | executing | executed =>
          exact absurd rfl outside
  | @miss id round expected next _ now =>
      obtain rfl : id = 0 := own
      exact absurd now (rounds.unserving _)
  | call now calls =>
      have next := calls.controlOf_after now sound.toBase
      rw [own] at next
      rw [own, next] at awaiting
      rcases calls.outcome.2 with rfl | ⟨s, rfl⟩ <;> cases awaiting
  | start | stop => exact absurd awaiting outside
  | lead => rfl

/-- Those who are in no round leave the duty of the owner alone. -/
theorem Sound.duty_of_outside (sound : m.Sound) {mv : Move} (moved : m.move mv = some after)
    (outside : m.Outside mv.actor after) (other : mv.actor ≠ 0) :
    after.dutyOf 0 = m.dutyOf 0 := by
  cases move_cases moved with
  | step _ stepped =>
      exact (sound.next stepped outside.unserving outside.unleading).duty 0 (.inl (Ne.symm other))
  | miss now => exact absurd now (outside.unserving _)
  | @call _ before next c _ calls =>
      exact (dutyOf_setControl next _ 0 c).trans ((calls.passes sound.toBase).duty 0)
  | start | stop | lead => exact absurd rfl other

/-- An owner without other workers that waits at the barrier takes tasks or runs them, and has not
come to the end of a drain. -/
theorem Runs.undrained (run : (l.opening vocabulary handles callers references).Runs past m)
    (sole : l.size = 1) (awaiting : (m.controlOf 0).awaiting = true) :
    (m.controlOf 0).AtWork ∧ m.drains = 0 := by
  induction run with
  | refl =>
      rw [controlOf_opening, if_neg fun both => Nat.lt_irrefl 0 both.1] at awaiting
      cases awaiting
  | @turn past a after mv run moved ih =>
      obtain ⟨sound, orderly⟩ := run.orderly
      have size : a.size = 1 :=
        (congrArg Prod.fst run.reaches.shape_eq).trans ((size_opening ..).trans sole)
      by_cases own : mv.actor = 0
      · by_cases waited : (a.controlOf 0).awaiting = true
        · obtain ⟨working, none⟩ := ih waited
          obtain ⟨-, stepped⟩ := step_of_awaiting moved own waited
          cases sound.ownStep orderly waited working stepped with
          | works working' _ same => exact ⟨working', same.trans none⟩
          | leads _ _ _ some => exact absurd (by rw [participants, size]) some
          | returns _ _ returned =>
              rw [returned.1] at awaiting
              cases awaiting
          | overflows now =>
              rw [now] at awaiting
              cases awaiting
        · obtain rfl := run.rounds.lead_of_awaiting sound moved own waited awaiting
          cases move_cases moved with
          | lead exclusive =>
              have here := (exclusive_cases exclusive).2.1.1
              refine ⟨?_, drains_enterBarrier here⟩
              rw [controlOf_enterBarrier here]
              trivial
          | call _ calls => cases calls
      · have control := (sound.move moved).others 0 (Ne.symm own)
        have seated := sound.seated mv.actor
        have last : ¬mv.actor < a.size := by lia
        have outside : a.Outside mv.actor after := by
          refine sound.outside moved (fun s now => ?_) fun lead now => ?_
          · rw [now] at seated
            exact last seated
          · rw [now] at seated
            exact own seated
        rw [control] at awaiting ⊢
        rw [drains_congr (sound.duty_of_outside moved outside own)]
        exact ih awaiting

namespace Solitary

variable (solitary : m.Solitary)
include solitary

theorem sound : m.Sound := by
  obtain ⟨l, vocabulary, handles, callers, references, past, sole, run⟩ := solitary
  exact run.orderly.1

theorem exists_orderly : ∃ past, Orderly past m.world m.hands := by
  obtain ⟨l, vocabulary, handles, callers, references, past, sole, run⟩ := solitary
  exact ⟨past, run.orderly.2⟩

theorem rounds : m.Rounds := by
  obtain ⟨l, vocabulary, handles, callers, references, past, sole, run⟩ := solitary
  exact run.rounds

theorem undrained (awaiting : (m.controlOf 0).awaiting = true) :
    (m.controlOf 0).AtWork ∧ m.drains = 0 := by
  obtain ⟨l, vocabulary, handles, callers, references, past, sole, run⟩ := solitary
  exact run.undrained sole awaiting

theorem size_eq : m.size = 1 := by
  obtain ⟨l, vocabulary, handles, callers, references, past, sole, run⟩ := solitary
  exact (congrArg Prod.fst run.reaches.shape_eq).trans ((size_opening ..).trans sole)

theorem turn {mv : Move} (moved : m.move mv = some after) : after.Solitary := by
  obtain ⟨l, vocabulary, handles, callers, references, past, sole, run⟩ := solitary
  exact ⟨l, vocabulary, handles, callers, references, _, sole, run.turn mv moved⟩

end Solitary

namespace Alone

variable (alone : m.Alone)
include alone

theorem sole : m.size = 1 := alone.solitary.size_eq

theorem inside : 0 < m.size := alone.solitary.sound.manned

/-- The owner takes a task or runs one. -/
theorem atWork : (m.controlOf 0).AtWork := (alone.solitary.undrained alone.awaiting).1

/-- What a step of the owner is. -/
theorem ownStep (stepped : m.step 0 = some after) : m.OwnStep after := by
  obtain ⟨past, orderly⟩ := alone.solitary.exists_orderly
  exact alone.solitary.sound.ownStep orderly alone.awaiting alone.atWork stepped

/-- The owner goes on, or returns. -/
theorem works_on (stepped : m.step 0 = some after) (up : after.crash = none)
    (closer : after.Closer m) : after.Returned ∨ after.Alone ∧ after.Closer m := by
  have solitary := alone.solitary.turn (move_of_step alone.inside stepped)
  have returns : after.toil.breaks = 0 := by
    refine Nat.le_zero.1 ?_
    rw [← alone.returns]
    exact closer.elim And.left fun same => Nat.le_of_eq (congrArg Cost.breaks same.1)
  cases alone.ownStep stepped with
  | works _ awaiting => exact .inr ⟨⟨solitary, awaiting, up, returns⟩, closer⟩
  | leads _ _ _ some => exact absurd (by rw [participants, alone.sole]) some
  | returns _ _ returned => exact .inl returned
  | overflows _ full =>
      rw [(alone.solitary.undrained alone.awaiting).2] at full
      exact absurd full (by decide)

/-- The owner does not wait for a lock. -/
theorem unstuck : ¬(m.controlOf 0).Stuck m.world 0 := by
  have sound := alone.solitary.sound
  obtain ⟨past, orderly⟩ := alone.solitary.exists_orderly
  by_cases busy : (m.controlOf 0).Busy
  · obtain ⟨id, inside, -, unstuck⟩ :=
      alone.solitary.rounds.exists_unstuck sound orderly alone.awaiting alone.inside busy
    rw [alone.sole, Nat.lt_one_iff] at inside
    exact inside ▸ unstuck
  · have working := alone.atWork
    generalize m.controlOf 0 = c at busy working
    cases c with
    | popping p => cases p <;> first | exact not_false | exact absurd (by constructor) busy
    | executing e => exact absurd trivial busy
    | stealing victim p rest =>
        cases p <;> first | exact not_false | exact absurd (by constructor) busy
    | _ => exact working.elim

/-- A step of an owner that has a task. -/
theorem advances_busy (found : (m.controlOf 0).searching = 0) :
    ∃ after, m.step 0 = some after ∧ after.crash = none ∧ after.Closer m := by
  have sound := alone.solitary.sound
  obtain ⟨past, orderly⟩ := alone.solitary.exists_orderly
  have working := alone.atWork
  have seated := sound.seated 0
  have awaiting := alone.awaiting
  have busy : (m.controlOf 0).Busy := by
    generalize m.controlOf 0 = c at working found seated awaiting
    cases c with
    | popping p =>
        obtain ⟨-, taking⟩ := seated
        cases taking with
        | measure => cases found
        | acquire | change | publish | release => constructor
    | executing e => trivial
    | stealing victim p rest => cases awaiting
    | _ => exact working.elim
  have returns := alone.returns
  rw [← cost_eq_toil alone.sole found] at returns
  have none := returns ▸ breaks_le_cost (m := m) alone.inside
  obtain ⟨after, stepped, up, below⟩ := sound.advances alone.inside orderly.sound busy
    alone.unstuck alone.up (Nat.le_zero.1 none)
    fun victim p rest now => by rw [now] at awaiting; cases awaiting
  have sole' : after.size = 1 := (size_step stepped).trans alone.sole
  obtain ⟨breaks, load, rank⟩ := toil_le_cost sole'
  refine ⟨after, stepped, up, .inl ?_⟩
  rw [← cost_eq_toil alone.sole found]
  simp only [Cost.Below] at below ⊢
  lia

/-- The owner returns that has found its queue empty. -/
theorem returned_idleStep {w : Worker} (found : m.workers[0]? = some w) {x : Machine}
    (passes : m.Passes x) : (x.idleStep 0 w).Returned := by
  have here : 0 < x.workers.size := passes.crew.symm ▸ (Array.getElem?_eq_some_iff.1 found).1
  have duty := dutyOf_of_found found
  obtain ⟨counted, leads⟩ := alone.solitary.sound.exists_lead
  have none := (alone.solitary.undrained alone.awaiting).2
  rw [drains, duty] at none
  have rests := x.rests_idleStep 0 w
  generalize x.idleStep 0 w = after at rests
  cases rests with
  | visits which => cases leads.symm.trans (duty.trans which)
  | @overflows rounds which uncounted =>
      rw [which] at none
      have full := toNat_uncounted uncounted
      rw [show rounds.toNat = 0 from none] at full
      exact absurd full (by decide)
  | returns => exact ⟨controlOf_setControl_self (by simpa using here) _, _, rfl⟩
  | leads _ _ some => exact absurd (by rw [participants, passes.size, alone.sole]) some

/-- A step of an owner that searches its queue: it comes closer to a task, or returns. -/
theorem advances_searching (searching : (m.controlOf 0).searching ≠ 0) :
    ∃ after, m.step 0 = some after ∧ (after.Returned ∨ after.crash = none ∧ after.Closer m) := by
  have sound := alone.solitary.sound
  have base := sound.toBase
  have seated := sound.seated 0
  have unstuck := alone.unstuck
  have stock := toil_eq_stock searching
  cases now : m.controlOf 0 with
  | popping p =>
      rw [now] at seated unstuck searching
      have here : 0 < m.workers.size := lt_of_controlOf (by simp [now])
      have found := Array.getElem?_eq_getElem here
      have step := step_popping alone.up found now
      have leads := base.leads_taking 0 .pop seated.2
      have searches := base.searches alone.inside seated.2 searching unstuck
      have control : ∀ {a : Machine} {next}, m.Passes a →
          (a.setControl 0 (.popping next)).controlOf 0 = .popping next := fun passes =>
        controlOf_setControl_self (passes.crew ▸ here) _
      generalize m.queueStep 0 p = r at step leads searches
      cases searches with
      | @goes a next same going less =>
          cases leads with
          | goes passes =>
              refine ⟨_, step, .inr ⟨passes.crash.trans alone.up, .inr ?_⟩⟩
              rw [toil_eq_stock (by rw [control passes]; exact going), stock, now, control passes]
              exact ⟨same, less⟩
      | @finds a next found below =>
          cases leads with
          | goes passes =>
              refine ⟨_, step, .inr ⟨passes.crash.trans alone.up, .inl ?_⟩⟩
              rw [stock, toil, control passes, Control.toil,
                if_pos (show (Control.popping next).searching = 0 from found)]
              exact below
      | @ends a =>
          cases leads with
          | ends passes =>
              exact ⟨_, step, .inl (alone.returned_idleStep found passes)⟩
  | _ =>
      rw [now] at searching
      exact absurd rfl searching

/-- The owner takes a step, by which it comes closer to its return or returns. -/
theorem advances :
    ∃ after, m.step 0 = some after ∧ (after.Returned ∨ after.Alone ∧ after.Closer m) := by
  by_cases found : (m.controlOf 0).searching = 0
  · obtain ⟨after, stepped, up, closer⟩ := alone.advances_busy found
    exact ⟨after, stepped, alone.works_on stepped up closer⟩
  · obtain ⟨after, stepped, returned | ⟨up, closer⟩⟩ := alone.advances_searching found
    · exact ⟨after, stepped, .inl returned⟩
    · exact ⟨after, stepped, alone.works_on stepped up closer⟩

/-- Nothing but a step of the owner is done under its number.  Callers do not bring a pool down, and
go on with what they have built without keeping it, unless that is their turn. -/
theorem aside {mv : Move} (moved : m.move mv = some after) (other : mv ≠ .step 0) :
    mv.actor ≠ 0 ∧ after.crash = none ∧
      ((∃ id, mv = .keep id) ∨ after.kept.length ≤ m.kept.length) := by
  have sound := alone.solitary.sound
  have outside : mv.actor ≠ 0 := fun own =>
    other (step_of_awaiting moved own alone.awaiting).1
  have last : ¬mv.actor < m.size := by
    have := alone.sole
    lia
  refine ⟨outside, ?_⟩
  have uncalling := (alone.solitary.rounds.alone alone.awaiting).2
  cases move_cases moved with
  | @step id _ _ stepped =>
      have seated := sound.seated id
      have uncalling := uncalling id
      obtain ⟨w, found, steps⟩ := step_cases stepped
      generalize now : m.controlOf id = c at seated steps uncalling
      cases steps with
      | submitting =>
          obtain ⟨crash, kept⟩ := spares_of_submitting sound now uncalling stepped
          exact ⟨crash.trans alone.up, .inr (Nat.le_of_eq (congrArg List.length kept))⟩
      | leading => exact absurd seated outside
      | started | stopped | looping | serving => exact absurd seated last
      | popping | stealing | executing => exact absurd seated.1 last
  | @miss id round expected next _ now missed =>
      have seated := sound.seated id
      rw [now] at seated
      exact absurd seated last
  | @call mv before next c now calls =>
      refine ⟨(calls.passes sound.toBase).crash.trans alone.up, ?_⟩
      cases calls with
      | keep id t => exact .inl ⟨id, rfl⟩
      | spawn _ began =>
          have same := (sound.toBase.begin_eq_ok began).2.1
          exact .inr (Nat.le_of_eq (congrArg (·.kept.length) same))
      | submit _ picked =>
          obtain ⟨-, rest, same, rfl⟩ := pick_eq_some picked
          refine .inr (Nat.le_trans (Nat.le_succ rest.length) ?_)
          exact Nat.le_of_eq same.length_eq.symm
      | recover => exact .inr (Nat.le_refl _)
  | start | lead | stop => exact absurd rfl outside

/-- A turn of a caller that keeps nothing brings the owner closer to its return, or changes nothing
for it. -/
theorem beside {mv : Move} (moved : m.move mv = some after) (other : mv ≠ .step 0)
    (unkept : ∀ id, mv ≠ .keep id) :
    after.Alone ∧ (after.Closer m ∨
      after.toil = m.toil ∧ after.controlOf 0 = m.controlOf 0) := by
  have sound := alone.solitary.sound
  obtain ⟨past, orderly⟩ := alone.solitary.exists_orderly
  have awaiting := alone.awaiting
  have turned := sound.move moved
  obtain ⟨outside, up, kept⟩ := alone.aside moved other
  have control : after.controlOf 0 = m.controlOf 0 := turned.others 0 (Ne.symm outside)
  have unclaimed : ∀ x ∈ m.hands mv.actor, x.Unclaimed := fun x mem => by
    have outer : m.size ≤ mv.actor := alone.sole ▸ Nat.one_le_iff_ne_zero.2 outside
    rcases sound.hands_of_caller outer ((alone.solitary.rounds.alone awaiting).2 _) x mem with
      ⟨d, rfl⟩ | ⟨t, rfl⟩ <;> trivial
  have few : ¬m.world.kept.length < after.world.kept.length := Nat.not_lt_of_le <|
    kept.resolve_left fun ⟨id, keep⟩ => unkept id keep
  have alone' (returns : after.toil.breaks = 0) : after.Alone :=
    ⟨alone.solitary.turn moved, control ▸ awaiting, up, returns⟩
  rcases turned.deed.stock_cases orderly.sound unclaimed orderly.ledger.sound with
    same | below | more
  · have toil : after.toil = m.toil := by rw [Machine.toil, Machine.toil, same, control]
    exact ⟨alone' (toil ▸ alone.returns), .inr ⟨toil, control⟩⟩
  · have toil : after.toil.Below m.toil := by
      simp only [Machine.toil, control, Cost.Below, Cost.add_breaks, Cost.add_load,
        Cost.add_rank] at below ⊢
      lia
    exact ⟨alone' (Nat.le_zero.1 (alone.returns ▸ toil.1)), .inl (.inl toil)⟩
  · exact absurd more few

/-- A caller may keep what it has built, if that breaks no work off. -/
theorem keep {id : WorkerId} (moved : m.move (.keep id) = some after)
    (returns : after.cost.breaks = 0) : after.Alone := by
  obtain ⟨outside, up, -⟩ := alone.aside moved (by rintro ⟨⟩)
  have control : after.controlOf 0 = m.controlOf 0 :=
    (alone.solitary.sound.move moved).others 0 (Ne.symm outside)
  have solitary := alone.solitary.turn moved
  exact ⟨solitary, control ▸ alone.awaiting, up,
    Nat.le_zero.1 (returns ▸ (toil_le_cost solitary.size_eq).1)⟩

/-- A turn brings the owner closer to its return or changes nothing for it, unless something is
kept. -/
theorem turn {mv : Move} (moved : m.move mv = some after) (unkept : ∀ id, mv ≠ .keep id) :
    after.Returned ∨ after.Alone ∧ (after.Closer m ∨
      mv ≠ .step 0 ∧ after.toil = m.toil ∧ after.controlOf 0 = m.controlOf 0) := by
  by_cases own : mv = .step 0
  · obtain ⟨a, stepped, result⟩ := alone.advances
    rw [own, move_of_step alone.inside stepped] at moved
    obtain rfl := Option.some.inj moved
    exact result.imp_right fun both => ⟨both.1, .inl both.2⟩
  · obtain ⟨alone', same⟩ := alone.beside moved own unkept
    exact .inr ⟨alone', same.imp_right fun same => ⟨own, same⟩⟩

/-- The owner returns, in whatever order turns are taken, if its own turn comes time and again and
nothing more is kept. -/
theorem returns_of_unkept {f : Nat → Machine} {turns : Nat → Move}
    (goes : ∀ n, (f n).move (turns n) = some (f (n + 1)))
    (fair : ∀ n, ∃ k, n ≤ k ∧ turns k = .step 0) {n : Nat}
    (unkept : ∀ k, n ≤ k → ∀ id, turns k ≠ .keep id) (here : f n = m) :
    ∃ k, (f k).Returned := by
  induction m using Closer.induction generalizing n with
  | step m closer_returns =>
      obtain ⟨k, later, own⟩ := fair n
      -- until the next step of the owner it comes no farther away
      have returns : ∀ d n, n + d = k → (∀ k, n ≤ k → ∀ id, turns k ≠ .keep id) → (f n).Alone →
          (∀ a : Machine, a.Closer (f n) → a.Closer m) → ∃ k, (f k).Returned := by
        intro d
        induction d with
        | zero =>
            rintro n rfl unkept alone' closer
            rcases alone'.turn (goes n) (unkept n (Nat.le_refl n)) with
              returned | ⟨alone'', closer' | ⟨other, -⟩⟩
            · exact ⟨_, returned⟩
            · exact closer_returns _ (closer _ closer') alone''
                (fun k le => unkept k (Nat.le_of_succ_le le)) rfl
            · exact absurd own other
        | succ d ih =>
            intro n last unkept alone' closer
            have unkept' : ∀ k, n + 1 ≤ k → ∀ id, turns k ≠ .keep id := fun k le =>
              unkept k (Nat.le_of_succ_le le)
            rcases alone'.turn (goes n) (unkept n (Nat.le_refl n)) with
              returned | ⟨alone'', closer' | ⟨-, same, control⟩⟩
            · exact ⟨_, returned⟩
            · exact closer_returns _ (closer _ closer') alone'' unkept' rfl
            · refine ih (n + 1) (by lia) unkept' alone'' fun a nearer => closer a ?_
              rwa [Closer, same, control] at nearer
      exact returns (k - n) n (by lia) unkept (here ▸ alone) fun _ closer => here ▸ closer

/-- The owner returns, in whatever order turns are taken, if its own turn comes time and again, and
tasks are kept only so often meanwhile, none of which breaks work off. -/
theorem returns_of_fair {f : Nat → Machine} {turns : Nat → Move} (here : f 0 = m)
    (goes : ∀ n, (f n).move (turns n) = some (f (n + 1)))
    (fair : ∀ n, ∃ k, n ≤ k ∧ turns k = .step 0) {last : Nat}
    (few : ∀ n id, turns n = .keep id → n < last ∧ (f (n + 1)).cost.breaks = 0) :
    ∃ k, (f k).Returned := by
  have goes_on : ∀ n, (∃ k, (f k).Returned) ∨ (f n).Alone := by
    intro n
    induction n with
    | zero => exact .inr (here ▸ alone)
    | succ n ih =>
        refine ih.elim .inl fun alone => ?_
        by_cases keeps : ∃ id, turns n = .keep id
        · obtain ⟨id, keep⟩ := keeps
          exact .inr (alone.keep (keep ▸ goes n) (few n id keep).2)
        · rcases alone.turn (goes n) (not_exists.1 keeps) with returned | ⟨alone', -⟩
          · exact .inl ⟨_, returned⟩
          · exact .inr alone'
  refine (goes_on last).elim id fun alone => alone.returns_of_unkept goes fair ?_ rfl
  exact fun k le id keep => Nat.not_lt_of_le le (few k id keep).1

/-- The owner returns when it alone takes turns. -/
theorem exists_stepIn : ∃ n, (m.stepIn n).Returned := by
  induction m using Closer.induction with
  | step m closer_returns =>
      have unfinished : m.finished = false := by
        obtain ⟨after, stepped, -⟩ := alone.advances
        obtain ⟨w, found, -⟩ := step_cases stepped
        have awaiting := alone.awaiting
        rw [controlOf_of_found found] at awaiting
        simp only [finished, alone.up, found]
        cases now : w.control <;> rw [now] at awaiting <;> first | rfl | cases awaiting
      obtain ⟨after, stepped, result⟩ := alone.advances
      have next : ∀ n, m.stepIn (n + 1) = after.stepIn n := fun n => by
        rw [stepIn, unfinished, if_neg Bool.false_ne_true, stepOrWait, stepped]
        rfl
      rcases result with returned | ⟨alone', closer⟩
      · exact ⟨1, by rw [next]; exact returned⟩
      · obtain ⟨n, returned⟩ := closer_returns after closer alone'
        exact ⟨n + 1, by rwa [next]⟩

end Alone

end Machine

end Pool

end AccessOrder
