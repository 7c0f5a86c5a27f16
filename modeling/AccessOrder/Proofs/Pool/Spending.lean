/- # Work goes on

Every step of an activity takes the pool closer to the end of its work, whatever it does to the
queues and to those who wait: some work is done, or the next work that is done comes a step closer.
Only a lock that someone else holds makes a step wait.

* `Base.spends_queueStep`, `Base.vets`, `Base.spends_submitStep`, `Base.spends_executeStep` : one
  lemma for each activity.
-/
import AccessOrder.Proofs.Pool.Costs
namespace AccessOrder

/-! ## What is in hand -/

/-- Whether an operation on a queue has got past reading the published length. -/
inductive Queue.Progress.Busy : Queue.Progress Task → Prop where
  | acquire (r : Queue.Request Task) : Busy (.acquire r)
  | change (r : Queue.Request Task) : Busy (.change r)
  | publish (x : Option Task) : Busy (.publish x)
  | release (x : Option Task) : Busy (.release x)

/-- What so many steps cost after which a task is vetted, if there is one. -/
def Queue.found (x : Option Task) (steps : Nat) : Pool.Cost :=
  x.elim ⟨0, 0, steps⟩ fun t => t.cost ((Vetting.look t).rank + 1 + steps)

/-- What an operation on a queue costs, and what is done with its result. -/
def Queue.Progress.cost : Queue.Progress Task → Pool.Cost
  | .measure (.push t) | .acquire (.push t) => t.cost (t.queueRank + 4)
  | .change (.push t) => t.cost (t.queueRank + 3)
  | .measure _ => 0
  | .acquire _ => ⟨0, 0, 4⟩
  | .change _ => ⟨0, 0, 3⟩
  | .publish x => Queue.found x 2
  | .release x => Queue.found x 1
  | .done x => Queue.found x 0

namespace Pool

/-- What the vetting of a task costs that is followed by so many steps. -/
def vettingCost (v : Vetting) (more : Nat) : Cost := v.task.cost (v.rank + more)

/-- What handing a task in costs. -/
def Submission.cost : Submission → Cost
  | .build d =>
    ⟨Act.breaksIn d.blueprint.work,
      2 * d.pending.length + d.resolved.length + Act.efforts d.blueprint.work + 4, 0⟩
  | .arrive t => t.arriving
  | .vet _ v => vettingCost v (v.task.queueRank + 5)
  | .enqueue _ p => p.cost

/-- What a task costs that has been woken. -/
def wakeCost (t : Task) : Cost := vettingCost (.look t) (t.queueRank + 6)

/-- What the acts of a task cost, its releases and so many other steps. -/
def Frame.cost (f : Frame) (acts : List Act) (steps : Nat) : Cost :=
  ⟨Act.breaksIn acts, f.task.dependencies.length + 1 + Act.efforts acts, f.held.length + steps⟩

/-- What running a task costs. -/
def Execution.cost : Execution → Cost
  | .vet v => vettingCost v 1
  | .lock f acts todo => f.cost acts (2 * todo.length + 5)
  | .act f acts _ => f.cost acts 4
  | .hand f acts _ _ s => s.cost + f.cost acts 5
  | .unlock f => f.cost [] 3
  | .release _ todo => ⟨0, todo.length + 1, 2⟩
  | .wake _ todo woken v =>
    vettingCost v (v.task.queueRank + 6) + (tally wakeCost woken + ⟨0, todo.length + 1, 2⟩)
  | .requeue _ todo woken _ p => p.cost + (tally wakeCost woken + ⟨0, todo.length + 1, 2⟩)
  | .dispose _ => ⟨0, 1, 1⟩

/-- What a worker is still going to do before it looks for a task. -/
def Control.cost : Control → Cost
  | .submitting s => s.cost
  | .popping p | .stealing _ p _ => p.cost
  | .executing e => e.cost
  | _ => 0

/-- Whether the lock of a queue is to be taken that someone else holds. -/
def Barred (w : World) (target : WorkerId) : Queue.Progress Task → Prop
  | .acquire _ => w.held target = true
  | _ => False

/-- Whether a task can be handed in only when someone else has given a lock back. -/
def Submission.Stuck (w : World) : Submission → Prop
  | .enqueue target p => Barred w target p
  | _ => False

/-- Whether a task can be run on only when someone else has given a lock back. -/
def Execution.Stuck (w : World) : Execution → Prop
  | .lock _ _ (h :: _) => (w.units h).locked = true
  | .hand _ _ _ _ s => s.Stuck w
  | .requeue _ _ _ target p => Barred w target p
  | _ => False

/-- What comes of a step of an activity of which so much is ahead before it: it waits only if it is
stuck, and is broken off only if there is an act that does so. -/
inductive Spends {α β : Type} (m : Machine) (before : Cost) (costs : α → Cost) (stuck : Prop)
    (ends : Machine → β → Prop) (fails : Machine → Prop) : Machine × Turn α β → Prop where
  | waits {after} : stuck → Spends m before costs stuck ends fails (after, .waits)
  | goes {after a} : (after.world.stock + costs a).Below (m.world.stock + before) →
      Spends m before costs stuck ends fails (after, .goes a)
  | ends {after b} : ends after b → Spends m before costs stuck ends fails (after, .ends b)
  | fails {after f} : fails after → Spends m before costs stuck ends fails (after, .fails f)
  | aborts {after label} : 0 < before.breaks →
      Spends m before costs stuck ends fails (after, .aborts label)

section Outcomes

variable {α β : Type} {m after : Machine} {before : Cost} {costs : α → Cost} {stuck : Prop}
  {ends : Machine → β → Prop} {fails : Machine → Prop} {r : Machine × Turn α β}

/-- What is known of an activity that waits. -/
theorem Spends.of_waits (spends : Spends m before costs stuck ends fails r)
    (stepped : r = (after, .waits)) : stuck := by
  subst stepped
  cases spends with
  | waits stuck => exact stuck

/-- What is known of an activity that goes on. -/
theorem Spends.of_goes (spends : Spends m before costs stuck ends fails r) {a : α}
    (stepped : r = (after, .goes a)) :
    (after.world.stock + costs a).Below (m.world.stock + before) := by
  subst stepped
  cases spends with
  | goes below => exact below

/-- What is known of an activity that ends. -/
theorem Spends.of_ends (spends : Spends m before costs stuck ends fails r) {b : β}
    (stepped : r = (after, .ends b)) : ends after b := by
  subst stepped
  cases spends with
  | ends result => exact result

/-- What is known of an activity that fails. -/
theorem Spends.of_fails (spends : Spends m before costs stuck ends fails r) {f : Failure}
    (stepped : r = (after, .fails f)) : fails after := by
  subst stepped
  cases spends with
  | fails failure => exact failure

end Outcomes

/-! ## Queues -/

variable {w : World} {q : WorkerId} {ts : List Task}

/-- A task that is put into a queue costs what a task in a queue costs. -/
theorem World.stock_store (inside : q < w.size) {t : Task} (same : ts.Perm (t :: w.queue q)) :
    (w.setQueue q ts).stock = w.stock + t.queued := by
  have change := w.stock_setQueue inside ts
  rw [tally_perm same, tally_cons, ← add_assoc] at change
  exact add_right_cancel change

/-- A task that is taken from a queue costs what a task in a queue costs. -/
theorem World.stock_fetch (inside : q < w.size) {x : Option Task}
    (same : (w.queue q).Perm (x.toList ++ ts)) :
    (w.setQueue q ts).stock + tally Task.queued x.toList = w.stock := by
  have change := w.stock_setQueue inside ts
  rw [tally_perm same, tally_append, ← add_assoc] at change
  exact add_right_cancel change

/-- Looking at a task takes at most so many steps. -/
theorem rank_look_le (t : Task) : (Vetting.look t).rank ≤ 2 * t.dependencies.length + 1 := by
  simp only [Vetting.rank]
  lia

/-- A task that is taken from a queue costs less in hand than it has cost in the queue. -/
theorem World.below_fetch (inside : q < w.size) {x : Option Task}
    (same : (w.queue q).Perm (x.toList ++ ts)) :
    ((w.setQueue q ts).stock + Queue.found x 2).Below (w.stock + ⟨0, 0, 3⟩) := by
  rw [← World.stock_fetch inside same]
  cases x with
  | none => simp [Cost.Below, Queue.found]
  | some t =>
      have few := rank_look_le t
      simp only [Cost.Below, Queue.found, Option.toList_some, Option.elim_some, tally_cons,
        tally_nil, Task.queued, Task.cost, Task.queueRank, Cost.add_breaks, Cost.add_load,
        Cost.add_rank, add_zero]
      lia

namespace Machine

variable {m : Machine}

/-- A step of an operation on a queue that has read the length. -/
theorem Base.spends_queueStep (base : m.Base) {target : WorkerId} (inside : target < m.size)
    {p : Queue.Progress Task} (busy : p.Busy) :
    Spends m p.cost Queue.Progress.cost (Barred m.world target p)
      (fun after x => (after.world.stock + Queue.found x 0).Below (m.world.stock + p.cost))
      (fun _ => False) (m.queueStep target p) := by
  obtain ⟨q, found⟩ : ∃ q, m.queues[target]? = some q :=
    ⟨_, Array.getElem?_eq_getElem (show target < m.queues.size from inside)⟩
  have lanes := base.lanes q (Array.mem_of_getElem? found)
  have contents := (world_of_found found).1
  unfold queueStep
  rw [found]
  cases busy with
  | acquire r =>
      cases held : q.held with
      | false =>
          simp only [Queue.Progress.step, held]
          refine .goes ?_
          rw [world_setHeld found]
          show (m.world.stock + _).Below _
          cases r <;> simp [Cost.Below, Queue.Progress.cost, Task.cost]
      | true =>
          have stuck : m.world.held target = true := (world_of_found found).2.2.trans held
          cases r with
          | push t =>
              simp only [Queue.Progress.step, held]
              exact .waits stuck
          | pop =>
              simp only [Queue.Progress.step, held]
              exact .waits stuck
          | steal =>
              simp only [Queue.Progress.step, held]
              refine .ends ?_
              rw [world_set_self found]
              simp [Cost.Below, Queue.found, Queue.Progress.cost]
  | change r =>
      cases r with
      | push t =>
          obtain ⟨l, pushed, -, same⟩ := lanes.push t
          simp only [Queue.Progress.step, Queue.Request.apply, pushed, Except.map]
          refine .goes ?_
          rw [world_setLanes found, World.stock_store inside (contents ▸ same)]
          simp [Cost.Below, Queue.Progress.cost, Queue.found, Task.queued, Task.cost]
          lia
      | pop =>
          obtain ⟨x, l, popped, -, same, -⟩ := lanes.pop
          simp only [Queue.Progress.step, Queue.Request.apply, popped, Except.map]
          refine .goes ?_
          rw [world_setLanes found]
          exact World.below_fetch inside (contents ▸ .of_eq same)
      | steal =>
          obtain ⟨x, l, stolen, -, same, -⟩ := lanes.steal
          simp only [Queue.Progress.step, Queue.Request.apply, stolen, Except.map]
          refine .goes ?_
          rw [world_setLanes found]
          exact World.below_fetch inside (contents ▸ same)
  | publish x =>
      simp only [Queue.Progress.step]
      refine .goes ?_
      rw [base.world_publish found]
      show (m.world.stock + _).Below _
      cases x <;> simp [Cost.Below, Queue.Progress.cost, Queue.found, Task.cost]
  | release x =>
      simp only [Queue.Progress.step]
      refine .ends ?_
      rw [world_setHeld found]
      show (m.world.stock + _).Below _
      cases x <;> simp [Cost.Below, Queue.Progress.cost, Queue.found, Task.cost]

/-! ## Vetting -/

/-- What comes of a step of vetting: the task has been vetted, waits, or is closer to that. -/
inductive Vets (m : Machine) (v : Vetting) : Machine × Turn Vetting (Option Task) → Prop where
  | goes {after v'} : after.world.stock = m.world.stock → v'.rank < v.rank →
      v'.task.dependencies = v.task.dependencies → v'.task.work = v.task.work →
      Vets m v (after, .goes v')
  | ready {after} : after.world.stock = m.world.stock → Vets m v (after, .ends (some v.task))
  | parked {after} : after.world.stock = m.world.stock + v.task.parked →
      Vets m v (after, .ends none)

section Vetting

variable {after : Machine} {v : Vetting} {r : Machine × Turn Vetting (Option Task)}

/-- What is known of vetting that goes on. -/
theorem Vets.of_goes (vets : Vets m v r) {v' : Vetting} (stepped : r = (after, .goes v')) :
    after.world.stock = m.world.stock ∧ v'.rank < v.rank ∧
      v'.task.dependencies = v.task.dependencies ∧ v'.task.work = v.task.work := by
  subst stepped
  cases vets with
  | goes stock rank same work => exact ⟨stock, rank, same, work⟩

/-- What is known of a task that has been vetted. -/
theorem Vets.of_ready (vets : Vets m v r) {t : Task} (stepped : r = (after, .ends (some t))) :
    t = v.task ∧ after.world.stock = m.world.stock := by
  subst stepped
  cases vets with
  | ready stock => exact ⟨rfl, stock⟩

/-- What is known of a task that has been made to wait. -/
theorem Vets.of_parked (vets : Vets m v r) (stepped : r = (after, .ends none)) :
    after.world.stock = m.world.stock + v.task.parked := by
  subst stepped
  cases vets with
  | parked stock => exact stock

/-- Vetting never fails. -/
theorem Vets.ne_fails (vets : Vets m v r) (f : Failure) : r ≠ (after, .fails f) := by
  rintro rfl
  cases vets

end Vetting

/-- A step of vetting. -/
theorem Base.vets (base : m.Base) {v : Vetting} (whole : ¬Broken m.world [.loose v.task]) :
    Vets m v (m.vetStep v) := by
  unfold vetStep
  -- the next dependency lies before the end
  have ahead : ∀ {t : Task} {d : Dependency}, t.blocker? = some d →
      t.cursor < t.dependencies.length := fun blocked => (List.getElem?_eq_some_iff.1 blocked).1
  cases v with
  | look t =>
      simp only [Vetting.step]
      cases blocked : t.blocker? with
      | none => exact .ready rfl
      | some d =>
          have before := ahead blocked
          simp only
          refine .goes rfl ?_ ?_ ?_
          · split <;> simp only [Vetting.rank, Task.dependencies_mark, Task.cursor_mark] <;> lia
          · split <;> rfl
          · split <;> rfl
  | park t =>
      simp only [Vetting.step]
      cases blocked : t.blocker? with
      | none => exact .ready rfl
      | some d =>
          have before := ahead blocked
          simp only
          cases ran : m.handles.run d.handle (·.register t d.version) with
          | mk result hs =>
              have size := size_of_run ran
              cases result with
              | error f =>
                  obtain ⟨-, -, unused⟩ := base.handles.register_error ran
                  exact absurd (.fault (.wait List.mem_cons_self blocked unused)) whole
              | ok r =>
                  cases r with
                  | parked =>
                      obtain ⟨-, seen, -, used⟩ := base.handles.register ran
                      have known : d.handle < m.world.count :=
                        Handles.lt_of_frontier_pos (Nat.zero_lt_of_lt used)
                      refine .parked ?_
                      rw [world_setUnit size seen]
                      have change := m.world.stock_setUnit known
                        ((m.world.units d.handle).parked t d.version)
                      rw [backlog_parked (u := m.world.units d.handle) used, ← add_assoc,
                        add_right_comm] at change
                      exact add_right_cancel change
                  | handedBack back =>
                      obtain ⟨-, seen, rfl, -⟩ := base.handles.handedBack ran
                      refine .goes ?_ ?_ rfl rfl
                      · rw [world_handles size seen]
                      · simp only [Vetting.rank, Task.dependencies_mark, Task.cursor_mark]
                        lia

/-! ## Handing a task in -/

/-- A task is put into a queue that there is. -/
theorem lt_of_storing {p : Queue.Progress Task} (storing : p.Storing) {target : WorkerId}
    {xs : List Item} (whole : ¬Broken m.world (p.items target ++ xs)) : target < m.size := by
  by_contra outside
  have outside := Nat.le_of_not_lt outside
  refine whole (.stray ?_)
  cases storing with
  | acquire t => exact .bound List.mem_cons_self outside
  | change t => exact .guard List.mem_cons_self outside
  | publish => exact .guard List.mem_cons_self outside
  | release => exact .guard List.mem_cons_self outside

/-- A task that is put into a queue does not wait for the length to be read. -/
theorem busy_of_storing {p : Queue.Progress Task} (storing : p.Storing) : p.Busy := by
  cases storing <;> constructor

/-- A step of putting a task into a queue, which is there. -/
theorem Base.spends_storing (base : m.Base) {p : Queue.Progress Task} (storing : p.Storing)
    {target : WorkerId} {xs : List Item} (whole : ¬Broken m.world (p.items target ++ xs)) :
    Spends m p.cost Queue.Progress.cost (Barred m.world target p)
      (fun after x => (after.world.stock + Queue.found x 0).Below (m.world.stock + p.cost))
      (fun _ => False) (m.queueStep target p) :=
  base.spends_queueStep (lt_of_storing storing whole) (busy_of_storing storing)

/-- An access that gets its version costs nothing but that. -/
theorem Base.stock_schedule (base : m.Base) {hs : Handles} {a : Access.Located} {v : Version}
    (ran : m.handles.run a.handle (·.schedule a.kind) = (.ok v, hs)) :
    (world { m with handles := hs }).stock = m.world.stock := by
  obtain ⟨-, inside, offered, seen⟩ := base.handles.schedule ran
  rw [world_setUnit (size_of_run ran) seen]
  exact m.world.stock_setUnit_eq inside
    (backlog_scheduled (base.handles a.handle).versions offered)

/-- A step of handing a task in. -/
theorem Base.spends_submitStep (base : m.Base) (origin : WorkerId) {s : Submission}
    (seated : s.Seated) {xs : List Item} (whole : ¬Broken m.world (s.items ++ xs)) :
    Spends m s.cost Submission.cost (s.Stuck m.world)
      (fun after _ => after.world.stock.Below (m.world.stock + s.cost))
      (fun after => after.world.stock = m.world.stock) (m.submitStep origin s) := by
  cases seated with
  | build d =>
      cases next : d.pending with
      | nil =>
          simp only [submitStep, Draft.step, next]
          refine .goes ?_
          simp only [Cost.Below, Submission.cost, Task.arriving, Draft.task, Blueprint.resolve,
            Task.breaks, Task.load, Option.elim_some, next, List.length_nil, Cost.add_breaks,
            Cost.add_load]
          lia
      | cons a pending =>
          cases ran : m.handles.run a.handle (·.schedule a.kind) with
          | mk result hs =>
              simp only [submitStep, Draft.step, next, ran]
              cases result with
              | error f =>
                  obtain ⟨-, seen⟩ := base.handles.schedule_error ran
                  refine .fails ?_
                  rw [world_handles (size_of_run ran) seen]
              | ok v =>
                  refine .goes ?_
                  rw [base.stock_schedule ran]
                  simp only [Cost.Below, Submission.cost, Draft.resolve, next, List.length_append,
                    List.length_cons, List.length_nil, Cost.add_breaks, Cost.add_load]
                  lia
  | arrive t =>
      cases outside : t.pin.filter (m.size ≤ ·) with
      | some worker =>
          simp only [submitStep, outside]
          exact .fails rfl
      | none =>
          simp only [submitStep, outside]
          cases m.readiness <;>
            exact .goes (by simp [Cost.Below, Submission.cost, Task.arriving, vettingCost,
              enqueueing, Queue.Request.start, Queue.Progress.cost, Task.cost, Vetting.task])
  | vet label v =>
      have vets := base.vets fun broken => whole (broken.mono (List.subset_append_left _ _))
      simp only [submitStep]
      generalize m.vetStep v = r at vets
      cases vets with
      | goes stock rank same work =>
          refine .goes ?_
          simp only [Cost.Below, Submission.cost, vettingCost, Task.cost, Task.breaks, Task.load,
            Task.queueRank, same, work, stock, Cost.add_breaks, Cost.add_load, Cost.add_rank]
          lia
      | ready stock =>
          refine .goes ?_
          simp only [Cost.Below, Submission.cost, vettingCost, enqueueing, Queue.Request.start,
            Queue.Progress.cost, Task.cost, stock, Cost.add_breaks, Cost.add_load, Cost.add_rank]
          lia
      | parked stock =>
          refine .ends ?_
          simp only [Cost.Below, Submission.cost, vettingCost, Task.parked, Task.cost, world_tell,
            stock, Cost.add_breaks, Cost.add_load, Cost.add_rank]
          lia
  | enqueue target storing =>
      rename_i p
      have spends := base.spends_storing storing whole
      simp only [submitStep]
      generalize m.queueStep target p = r at spends
      cases spends with
      | waits stuck => exact .waits stuck
      | goes below => exact .goes below
      | @ends after x below =>
          refine .ends ?_
          cases x <;> simp [Cost.Below, Queue.found, Task.cost, Submission.cost] at below ⊢ <;> lia
      | fails never => exact never.elim
      | aborts breaks => exact .aborts breaks

/-! ## Running a task -/

/-- What is still ahead when the next version of the dependencies is to be released. -/
theorem cost_releasing (f : Frame) (todo : List Dependency) (woken : List Task) :
    (releasing f todo woken).cost = tally wakeCost woken + ⟨0, todo.length + 1, 2⟩ := by
  cases woken with
  | nil => exact (zero_add _).symm
  | cons t woken =>
      rw [tally_cons, add_assoc]
      rfl

/-- A task that is begun is that of its blueprint. -/
theorem draft_of_begin {b : Blueprint Act} {d : Draft} {after : Machine}
    (began : m.begin b = (.ok d, after)) :
    d.blueprint = b ∧ d.pending.length = b.accesses.length ∧ d.resolved = [] := by
  unfold begin Blueprint.draft at began
  cases located : m.handles.locate b.accesses with
  | error f =>
      rw [located] at began
      cases began
  | ok accesses =>
      rw [located] at began
      cases (Prod.mk.inj began).1
      refine ⟨rfl, ?_, rfl⟩
      rw [← Handles.toAccess_locate located, List.length_map]

/-- A step through the acts of a task. -/
theorem Base.spends_acts (base : m.Base) {id : WorkerId} {f : Frame} {acts : List Act}
    {results : List Outcome} {r : Machine × Turn Execution Unit}
    (acting : m.Acts id f acts results r) {stuck : Prop} {ends : Machine → Unit → Prop}
    {fails : Machine → Prop} :
    Spends m (f.cost acts 4) Execution.cost stuck ends fails r := by
  -- the rest of the acts costs less
  have less : ∀ {after : Machine} {a : Act} {acts : List Act} {results : List Outcome},
      after.world.stock = m.world.stock →
      (after.world.stock + (Execution.act f acts results).cost).Below
        (m.world.stock + f.cost (a :: acts) 4) := by
    intro after a acts results same
    have pos := a.effort_pos
    simp only [Cost.Below, Execution.cost, Frame.cost, Act.breaksIn, Act.efforts, same,
      Cost.add_breaks, Cost.add_load]
    lia
  cases acting with
  | returns =>
      refine .goes ?_
      simp [Cost.Below, Execution.cost, Frame.cost, Act.breaksIn, Act.efforts]
  | aborts => exact .aborts (by simp [Frame.cost, Act.breaksIn, Act.breaks])
  | unbegun began =>
      obtain rfl := begin_eq_error began
      exact .goes (less rfl)
  | @begins b acts results d after began =>
      obtain ⟨-, same, -⟩ := base.begin_eq_ok began
      obtain ⟨own, pending, resolved⟩ := draft_of_begin began
      have stock : after.world.stock = m.world.stock := by rw [same]; rfl
      refine .goes ?_
      obtain ⟨name, accesses, priority, pin, label, work⟩ := b
      simp only [Cost.Below, Execution.cost, Submission.cost, Frame.cost, Act.breaksIn,
        Act.breaks, Blueprint.breaks, Act.efforts, Act.effort, Blueprint.effort, stock, own,
        pending, resolved, List.length_nil, Cost.add_breaks, Cost.add_load]
      lia
  | unpicked => exact .goes (less rfl)
  | @picks serial acts results t after picked =>
      obtain ⟨-, ts, same, seen⟩ := base.passes_pick picked
      refine .goes ?_
      rw [← m.world.stock_pick same, seen]
      simp only [Cost.Below, Execution.cost, Submission.cost, Frame.cost, Act.breaksIn,
        Act.breaks, Act.efforts, Act.effort, Cost.add_breaks, Cost.add_load]
      lia
  | does acted => exact .goes (less (congrArg World.stock (base.passes_actStep acted).2))

/-- The lock of a handle has no bearing on what is still ahead. -/
theorem stock_latched {h : HandleId} (known : h < m.handles.units.size) (locked : Bool) :
    (m.world.setUnit h ((m.handles.view h).latched locked)).stock = m.world.stock :=
  m.world.stock_setUnit_eq known (backlog_latched locked)

/-- Those who are woken are no longer waiting. -/
theorem stock_released {h : HandleId} (known : h < m.handles.units.size)
    (sound : (m.handles.view h).Sound) (v : Version) :
    (m.world.setUnit h ((m.handles.view h).released v)).stock +
      tally Task.parked ((m.handles.view h).woken v) = m.world.stock := by
  have change := m.world.stock_setUnit known ((m.handles.view h).released v)
  have woken := backlog_released sound v
  replace change : _ + backlog (m.handles.view h) = _ := change
  rw [← woken, add_comm (backlog _), ← add_assoc] at change
  exact add_right_cancel change

/-- Being woken changes what a task costs in steps only. -/
theorem tally_wakeCost (ts : List Task) :
    (tally wakeCost ts).breaks = (tally Task.parked ts).breaks ∧
      (tally wakeCost ts).load = (tally Task.parked ts).load := by
  induction ts with
  | nil => exact ⟨rfl, rfl⟩
  | cons t ts ih =>
      simp only [tally_cons, Cost.add_breaks, Cost.add_load, ih]
      exact ⟨rfl, rfl⟩

/-- A step of running a task. -/
theorem Base.spends_executeStep (base : m.Base) (id : WorkerId) {e : Execution} (seated : e.Seated)
    (whole : ¬Broken m.world e.items) :
    Spends m e.cost Execution.cost (e.Stuck m.world)
      (fun after _ => after.world.stock.Below (m.world.stock + e.cost)) (fun _ => False)
      (m.executeStep id e) := by
  -- a task that has been woken is in hand
  have alone : ∀ {t : Task} {xs : List Item}, ¬Broken m.world (.loose t :: xs) →
      ¬Broken m.world [.loose t] :=
    fun whole broken => whole (broken.mono (List.subset_append_left [_] _))
  have executes := m.executes_executeStep id e
  generalize m.executeStep id e = r at executes
  cases executes with
  | vets vetted =>
      obtain ⟨stock, rank, same, work⟩ := (base.vets whole).of_goes vetted
      refine .goes ?_
      simp only [Cost.Below, Execution.cost, vettingCost, Task.cost, Task.breaks, Task.load,
        same, work, stock, Cost.add_breaks, Cost.add_load, Cost.add_rank]
      lia
  | unvetted vetted => exact absurd vetted ((base.vets whole).ne_fails _)
  | parks vetted =>
      have stock := (base.vets whole).of_parked vetted
      refine .ends ?_
      simp only [Cost.Below, Execution.cost, vettingCost, Task.parked, Task.cost, stock,
        Cost.add_breaks, Cost.add_load, Cost.add_rank]
      lia
  | workless vetted none =>
      obtain ⟨rfl, -⟩ := (base.vets whole).of_ready vetted
      exact absurd (.fault (.work List.mem_cons_self none)) whole
  | takes vetted some =>
      obtain ⟨rfl, stock⟩ := (base.vets whole).of_ready vetted
      refine .goes ?_
      simp only [Cost.Below, Execution.cost, Frame.cost, vettingCost, Task.cost, Task.breaks,
        Task.load, some, stock, Option.elim_some, Cost.add_breaks, Cost.add_load]
      lia
  | starts => exact .goes (by simp [Cost.Below, Execution.cost, Frame.cost])
  | @locks f acts h todo hs taken =>
      obtain ⟨-, size, free, seen⟩ := base.handles.tryLock taken
      have known : h < m.handles.units.size := by
        by_contra outside
        exact whole (.fault (.lock List.mem_cons_self (Nat.le_of_not_lt outside)))
      refine .goes ?_
      rw [world_setUnit size (seen known), stock_latched known]
      simp only [Cost.Below, Execution.cost, Frame.cost, List.length_cons, Cost.add_breaks,
        Cost.add_load, Cost.add_rank]
      lia
  | @barred f acts h todo hs taken =>
      refine .waits ?_
      show (m.handles.get h).locked = true
      have held := congrArg Prod.fst taken
      simpa [Handles.tryLock, Handle.tryLock] using held
  | acts acting => exact base.spends_acts acting
  | hands stepped =>
      have below := (base.spends_submitStep id seated whole).of_goes stepped
      refine .goes ?_
      simp only [Cost.Below, Execution.cost, Cost.add_breaks, Cost.add_load,
        Cost.add_rank] at below ⊢
      lia
  | handed stepped =>
      have below := (base.spends_submitStep id seated whole).of_ends stepped
      refine .goes ?_
      simp only [Cost.Below, Execution.cost, Frame.cost, Cost.add_breaks, Cost.add_load,
        Cost.add_rank] at below ⊢
      lia
  | refused stepped =>
      have same := (base.spends_submitStep id seated whole).of_fails stepped
      refine .goes ?_
      simp only [Cost.Below, Execution.cost, Frame.cost, same, Cost.add_breaks, Cost.add_load,
        Cost.add_rank]
      lia
  | detained stepped => exact .waits ((base.spends_submitStep id seated whole).of_waits stepped)
  | unlocked =>
      exact .goes (by simp [Cost.Below, Execution.cost, Frame.cost, Act.breaksIn, Act.efforts])
  | unlocks holds ran =>
      obtain ⟨locked, -, seen⟩ := base.handles.unlock ran
      refine .goes ?_
      rw [world_setUnit (size_of_run ran) seen, stock_latched (Handles.lt_of_locked locked)]
      simp [Cost.Below, Execution.cost, Frame.cost, holds]
  | misunlocks holds ran =>
      obtain ⟨free, -⟩ := base.handles.unlock_error ran
      exact absurd (.fault (.unlock List.mem_cons_self holds free)) whole
  | released => exact .goes (by simp [Cost.Below, Execution.cost])
  | @releases f d todo woken hs ran =>
      obtain ⟨here, holder, rfl, -, seen⟩ := base.handles.advance ran
      have sound := (base.handles d.handle).versions
      have used := (sound.held d.version).1 holder
      have known := Handles.lt_of_frontier_pos (Nat.zero_lt_of_lt used.2)
      obtain ⟨breaks, load⟩ := tally_wakeCost ((m.handles.view d.handle).woken d.version)
      refine .goes ?_
      rw [world_setUnit (size_of_run ran) seen, cost_releasing,
        ← stock_released known sound d.version]
      simp only [Cost.Below, Execution.cost, List.length_cons, breaks, load, Cost.add_breaks,
        Cost.add_load]
      lia
  | misreleases ran =>
      obtain ⟨unheld, -⟩ := base.handles.advance_error ran
      exact absurd (.fault (.release List.mem_cons_self unheld)) whole
  | wakes vetted =>
      obtain ⟨stock, rank, same, work⟩ := (base.vets (alone whole)).of_goes vetted
      refine .goes ?_
      simp only [Cost.Below, Execution.cost, vettingCost, Task.cost, Task.breaks, Task.load,
        Task.queueRank, same, work, stock, Cost.add_breaks, Cost.add_load, Cost.add_rank]
      lia
  | reparks vetted =>
      have stock := (base.vets (alone whole)).of_parked vetted
      refine .goes ?_
      rw [cost_releasing]
      simp only [Cost.Below, Execution.cost, vettingCost, Task.parked, Task.cost, stock,
        Cost.add_breaks, Cost.add_load, Cost.add_rank]
      lia
  | routes vetted =>
      obtain ⟨rfl, stock⟩ := (base.vets (alone whole)).of_ready vetted
      refine .goes ?_
      simp only [Cost.Below, Execution.cost, vettingCost, Queue.Request.start,
        Queue.Progress.cost, Task.cost, stock, Cost.add_breaks, Cost.add_load, Cost.add_rank]
      lia
  | unwoken vetted => exact absurd vetted ((base.vets (alone whole)).ne_fails _)
  | stores stepped =>
      have below := (base.spends_storing seated whole).of_goes stepped
      refine .goes ?_
      simp only [Cost.Below, Execution.cost, Cost.add_breaks, Cost.add_load,
        Cost.add_rank] at below ⊢
      lia
  | stored stepped =>
      have below := (base.spends_storing seated whole).of_ends stepped
      refine .goes ?_
      rw [cost_releasing]
      simp only [Cost.Below, Execution.cost, Cost.add_breaks, Cost.add_load,
        Cost.add_rank] at below ⊢
      lia
  | misstores stepped =>
      exact ((base.spends_storing seated whole).of_fails stepped).elim
  | withheld stepped =>
      exact .waits ((base.spends_storing seated whole).of_waits stepped)
  | disposes => exact .ends (by simp [Cost.Below, Execution.cost])

end Machine

end Pool

end AccessOrder
