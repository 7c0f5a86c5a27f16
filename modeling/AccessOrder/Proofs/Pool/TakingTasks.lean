/- # Taking tasks

What a worker does alone to get a task while nobody is busy.  It takes one from its own queue if
there is one; from the queue of another one it takes one or leaves the queue as it was, and goes on
to the next.  Once it has got a task, less is ahead of the pool.

* `Waits.hunt` : a worker that has found a queue not empty changes it;
* `Waits.fetches` : a worker takes a task from its own queue;
* `Waits.comes` : a worker comes to look at the word, and takes note of a round.
-/
import AccessOrder.Proofs.Pool.LeavingRounds
namespace AccessOrder.Pool

open Function (update)

namespace Machine

/-- How a worker takes a task: from its own queue, or from that of another one. -/
inductive Hunts (id : WorkerId) :
    Queue.Request Task → WorkerId → (Queue.Progress Task → Control) → Prop where
  | pop : Hunts id .pop id .popping
  | steal (victim : WorkerId) (rest : List WorkerId) :
      Hunts id .steal victim fun p => .stealing victim p rest

variable {m a b : Machine} {id target : WorkerId} {r : Queue.Request Task}
  {wrap : Queue.Progress Task → Control} {p next : Queue.Progress Task}
  {q q' q'' : Queue.Shared Task}

/-- What a worker leaves as it is that changes a queue. -/
structure Treads (m : Machine) (id target : WorkerId) (q : Queue.Shared Task) (a : Machine) :
    Prop where
  works : m.Works a
  others : ∀ o ≠ id, a.controlOf o = m.controlOf o
  crew : a.workers.size = m.workers.size
  handles : a.handles = m.handles
  begun : a.begun = m.begun
  barrier : a.barrier = m.barrier
  crash : a.crash = m.crash
  seen : ∀ o, a.seenOf o = m.seenOf o
  drains : a.drains = m.drains
  kept : a.kept = m.kept
  queues : a.queues = m.queues.setIfInBounds target q

/-- Two changes of a queue one after the other. -/
theorem Treads.trans (first : Treads m id target q a) (second : Treads a id target q' b) :
    Treads m id target q' b where
  works := first.works.trans second.works
  others o other := (second.others o other).trans (first.others o other)
  crew := second.crew.trans first.crew
  handles := second.handles.trans first.handles
  begun := second.begun.trans first.begun
  barrier := second.barrier.trans first.barrier
  crash := second.crash.trans first.crash
  seen o := (second.seen o).trans (first.seen o)
  drains := second.drains.trans first.drains
  kept := second.kept.trans first.kept
  queues := by rw [second.queues, first.queues, Array.setIfInBounds_setIfInBounds]

/-- The queue that has been changed. -/
theorem Treads.found (treads : Treads m id target q a) (known : target < m.size) :
    a.queues[target]? = some q := by
  rw [treads.queues]
  exact Array.getElem?_setIfInBounds_self_of_lt known

/-- A change of a queue keeps the number of queues. -/
theorem Treads.size (treads : Treads m id target q a) : a.size = m.size := by
  rw [Machine.size, treads.queues, Array.size_setIfInBounds, Machine.size]

/-- What is seen after a queue has been changed. -/
theorem Treads.world (treads : Treads m id target q a) :
    a.world = Machine.world { m with queues := m.queues.setIfInBounds target q } := by
  simp only [Machine.world, Machine.size, treads.handles, treads.begun, treads.kept, treads.queues]

/-- What a worker goes on with that has taken a task from its own queue, or has found none. -/
def afterPop (id : WorkerId) (w : Worker) (m : Machine) : Option Task → Machine
  | some t => m.setControl id (.executing (.vet (.look t)))
  | none => m.idleStep id w

/-- What a worker goes on with that has taken a task from the queue of another one, or has found
none. -/
def afterSteal (id : WorkerId) (rest : List WorkerId) (m : Machine) : Option Task → Machine
  | some t => m.setControl id (.executing (.vet (.look t)))
  | none => m.setControl id (visiting rest)

/-- A step of a worker that takes a task from its own queue. -/
theorem step_popping (up : m.crash = none) {w : Worker} (found : m.workers[id]? = some w)
    (now : m.controlOf id = .popping p) :
    m.step id = proceed id .popping (afterPop id w) (m.queueStep id p) := by
  have control := controlOf_of_found found
  unfold Machine.step
  rw [if_neg (by rw [up]; exact Bool.false_ne_true), found]
  simp only [← control, now]
  rfl

/-- A step of a worker that takes a task from the queue of another one. -/
theorem step_stealing (up : m.crash = none) {victim : WorkerId} {rest : List WorkerId}
    (now : m.controlOf id = .stealing victim p rest) :
    m.step id =
      proceed id (.stealing victim · rest) (afterSteal id rest) (m.queueStep victim p) := by
  have here : id < m.workers.size := lt_of_controlOf (by simp [now])
  have found := Array.getElem?_eq_getElem here
  have control := controlOf_of_found found
  unfold Machine.step
  rw [if_neg (by rw [up]; exact Bool.false_ne_true), found]
  simp only [← control, now]
  rfl

/-- A worker that takes a task operates on the queue. -/
theorem Hunts.step (hunts : Hunts id r target wrap) (up : m.crash = none)
    (now : m.controlOf id = wrap p) :
    ∃ finish, m.step id = proceed id wrap finish (m.queueStep target p) := by
  cases hunts with
  | pop =>
      have here : id < m.workers.size := lt_of_controlOf (by simp [now])
      exact ⟨_, step_popping up (Array.getElem?_eq_getElem here) now⟩
  | steal victim rest => exact ⟨_, step_stealing up now⟩

/-- A worker that takes a task is a worker that there is. -/
theorem Hunts.lt (hunts : Hunts id r target wrap) (now : m.controlOf id = wrap p) :
    id < m.workers.size := by
  cases hunts <;> exact lt_of_controlOf (by simp [now])

/-- A step by which a worker changes a queue and goes on with something else. -/
theorem Hunts.tread (hunts : Hunts id r target wrap) (inside : id < m.size)
    (now : m.controlOf id = wrap p) {x : Control}
    (went : m.step id = some
      (setControl { m with queues := m.queues.setIfInBounds target q' } id x)) :
    ∃ a, Treads m id target q' a ∧ a.controlOf id = x := by
  have here := hunts.lt now
  refine ⟨_, ⟨Works.refl.step inside went, fun o other => ?_, by simp [setControl], rfl, rfl, rfl,
    rfl, fun o => ?_, drains_congr ?_, rfl, rfl⟩, controlOf_setControl_self (by exact here) _⟩
  · rw [controlOf_setControl, if_neg fun both => other both.1.symm]
    rfl
  · exact seenOf_setControl { m with queues := m.queues.setIfInBounds target q' } id o x
  · exact dutyOf_setControl { m with queues := m.queues.setIfInBounds target q' } id 0 x

/-- A step by which a worker that takes a task changes a queue. -/
theorem Hunts.treads (hunts : Hunts id r target wrap) (up : m.crash = none)
    (inside : id < m.size) (now : m.controlOf id = wrap p)
    (found : m.queues[target]? = some q) (next : Queue.Progress Task) (q' : Queue.Shared Task)
    (stepped : p.step q = .ok (some (next, q'))) (undone : ∀ x, next ≠ .done x) :
    ∃ a, Treads m id target q' a ∧ a.controlOf id = wrap next := by
  obtain ⟨finish, step⟩ := hunts.step up now
  refine hunts.tread inside now ?_
  rw [step, queueStep, found]
  simp only [stepped]
  cases next with
  | done x => exact absurd rfl (undone x)
  | _ => rfl

/-- A worker that has found a queue not empty takes the lock and changes it. -/
theorem Waits.hunt (waits : Waits m) (calm : m.Calm) (inside : id < m.size)
    (known : target < m.size) (hunts : Hunts id r target wrap)
    (now : m.controlOf id = wrap (.measure r)) (long : m.queueLength target ≠ 0) :
    ∃ a x q l, Treads m id target { q with held := true, lanes := l } a ∧
      a.controlOf id = wrap (.publish x) ∧ m.queues[target]? = some q ∧
      (m.world.queue target).Perm (x.toList ++ l.contents) ∧
      (r = .pop → x = none → m.world.queue target = []) := by
  have base := waits.sound.toBase
  have found : m.queues[target]? = some m.queues[target] := Array.getElem?_eq_getElem known
  generalize m.queues[target] = q at found
  obtain ⟨contents, -, held⟩ := world_of_found found
  have lanes := base.lanes q (Array.mem_of_getElem? found)
  rw [waits.free calm] at held
  rw [queueLength, found] at long
  obtain ⟨x, l, applied, same, none⟩ : ∃ x l, r.apply q.lanes = .ok (x, l) ∧
      q.lanes.contents.Perm (x.toList ++ l.contents) ∧
      (r = .pop → x = none → q.lanes.contents = []) := by
    cases hunts with
    | pop =>
        obtain ⟨x, l, popped, -, same, empty⟩ := lanes.pop
        exact ⟨x, l, popped, .of_eq same, fun _ => empty⟩
    | steal =>
        obtain ⟨x, l, stolen, -, same, -⟩ := lanes.steal
        exact ⟨x, l, stolen, same, by rintro ⟨⟩⟩
  -- measuring, acquiring and changing
  obtain ⟨a, first, control⟩ := hunts.treads waits.up inside now found
    (.acquire r) q (by simp only [Queue.Progress.step, if_neg long]) (by simp)
  obtain ⟨a', second, control'⟩ := hunts.treads (first.crash.trans waits.up)
    (first.size.symm ▸ inside) control (first.found known) (.change r)
    { q with held := true } (by simp only [Queue.Progress.step, ← held]) (by simp)
  replace second := first.trans second
  obtain ⟨a'', third, control''⟩ := hunts.treads (second.crash.trans waits.up)
    (second.size.symm ▸ inside) control' (second.found known) (.publish x)
    { q with held := true, lanes := l }
    (by simp only [Queue.Progress.step, applied, Except.map]) (by simp)
  rw [contents]
  exact ⟨a'', x, q, l, second.trans third, control'', found, same, none⟩

/-! ## What comes of it -/

/-- The owner still waits while it takes a task. -/
theorem Treads.awaiting (treads : Treads m id target q a) (waits : Waits m)
    (hunts : Hunts id r target wrap) (now : m.controlOf id = wrap p)
    (control : a.controlOf id = wrap next) : (a.controlOf 0).awaiting = true := by
  have awaiting := waits.awaiting
  by_cases own : id = 0
  · subst own
    rw [control]
    rw [now] at awaiting
    cases hunts with
    | pop => rfl
    | steal => cases awaiting
  · rw [treads.others 0 (Ne.symm own)]
    exact awaiting

/-- Less is ahead of a pool when a worker has got a task. -/
theorem Treads.gets (treads : Treads m id target q a) (waits : Waits m) (calm : m.Calm)
    (inside : id < m.size) (known : target < m.size) (hunts : Hunts id r target wrap)
    (now : m.controlOf id = wrap (.measure r)) {t : Task}
    (control : a.controlOf id = wrap (.publish (some t)))
    (same : (m.world.queue target).Perm (t :: q.lanes.contents)) {goal : Machine → Prop} :
    Attains m goal := by
  have found : m.queues[target]? = some m.queues[target] := Array.getElem?_eq_getElem known
  have stock : a.world.stock + t.queued = m.world.stock := by
    have fetched := World.stock_fetch (w := m.world) (x := some t) known same
    rw [Option.toList_some, tally_cons, tally_nil, add_zero] at fetched
    rw [← fetched, treads.world, world_setQueue found]
    rfl
  have spent : (a.controlOf id).cost = t.cost ((Vetting.look t).rank + 1 + 2) ∧
      (m.controlOf id).cost = 0 := by
    rw [control, now]
    cases hunts <;> exact ⟨rfl, rfl⟩
  have few := rank_look_le t
  have below : a.cost.Below m.cost := by
    refine below_of_others inside treads.size treads.others ?_
    rw [spent.1, spent.2, ← stock]
    simp only [Cost.Below, Task.queued, Task.cost, Task.queueRank, Cost.add_breaks, Cost.add_load,
      Cost.add_rank, add_zero]
    lia
  have due : a.due = 1 := by
    by_cases own : id = 0
    · subst own
      cases hunts with
      | pop => rw [Machine.due, control]
      | steal => rw [Machine.due, control]
    · rw [Machine.due, treads.others 0 (Ne.symm own)]
      exact waits.due_eq calm
  have full : m.world.queue target ≠ [] := fun empty => by
    rw [empty, List.nil_perm] at same
    cases same
  refine ⟨a, treads.works, .inr ⟨?_, treads.drains, .inl ⟨⟨target, full⟩, below, due⟩⟩⟩
  refine waits.works treads.works (treads.awaiting waits hunts now control)
    (treads.crash.trans waits.up) ?_
  have none := below.1
  rw [waits.returns] at none
  exact Nat.le_zero.1 none

/-- A worker takes a task from its own queue. -/
theorem Waits.fetches (waits : Waits m) (calm : m.Calm) (inside : id < m.size)
    (now : m.controlOf id = popping) (full : m.world.queue id ≠ []) {goal : Machine → Prop} :
    Attains m goal := by
  have long : m.queueLength id ≠ 0 := by
    rw [waits.queueLength_eq calm]
    exact fun zero => full (List.eq_nil_of_length_eq_zero zero)
  obtain ⟨a, x, q, l, treads, control, -, same, none⟩ :=
    waits.hunt calm inside inside .pop now long
  cases x with
  | none => exact absurd (none rfl rfl) full
  | some t => exact treads.gets waits calm inside inside .pop now control same

/-- A worker that has changed a queue back and forth has done nothing. -/
theorem Treads.errand (treads : Treads m id target q a) (waits : Waits m) (calm : m.Calm)
    (inside : id < m.size) (known : target < m.size)
    (same : (m.world.queue target).Perm q.lanes.contents)
    (awaiting : (a.controlOf 0).awaiting = true) (rests : ¬(a.controlOf id).Busy)
    (costs : (a.controlOf id).cost = 0) :
    Errand m id a := by
  have found : m.queues[target]? = some m.queues[target] := Array.getElem?_eq_getElem known
  have world := treads.world
  rw [world_setQueue found] at world
  have stock : a.world.stock = m.world.stock := by
    have fetched := World.stock_fetch (w := m.world) (x := none) known same
    rw [Option.toList_none, tally_nil, add_zero] at fetched
    rw [← fetched, world]
    rfl
  have cost : a.cost = m.cost := by
    have change := cost_of_others inside treads.size treads.others
    rw [stock, costs, (waits.sound.idle waits.awaiting inside (calm id inside)).1] at change
    exact add_right_cancel change
  refine ⟨⟨treads.others, treads.size, ?_, fun o _ => treads.seen o, fun o => ?_, fun up => ?_⟩,
    treads.works, ?_, fun o there => ?_, cost, treads.drains⟩
  · rw [round?, treads.barrier, round?]
  · rw [world]
    show (update m.world.queue target q.lanes.contents o).Perm _
    rw [Function.update_apply]
    split
    · next own => exact own ▸ same.symm
    · exact .refl _
  · rw [treads.barrier]
    exact up
  · exact waits.works treads.works awaiting (treads.crash.trans waits.up)
      (cost.symm ▸ waits.returns)
  · by_cases own : o = id
    · exact own ▸ rests
    · rw [treads.others o own]
      exact calm o (treads.size ▸ there)

/-! ## From queue to queue -/

/-- What someone leaves as it is that goes its way alone and takes part in no round. -/
structure Strolls (m : Machine) (id : WorkerId) (a : Machine) : Prop extends m.Beside id a where
  barrier : a.barrier = m.barrier
  unseen : ∀ o, a.seenOf o = m.seenOf o

/-- Two ways one after the other. -/
theorem Strolls.trans (first : m.Strolls id a) (second : a.Strolls id b) : m.Strolls id b where
  toBeside := first.toBeside.trans second.toBeside
  barrier := second.barrier.trans first.barrier
  unseen o := (second.unseen o).trans (first.unseen o)

/-- A worker that stays where it is goes no way. -/
theorem strolls_refl (m : Machine) (id : WorkerId) : m.Strolls id m :=
  ⟨⟨fun _ _ => rfl, rfl, rfl, fun _ _ => rfl, fun _ => .refl _, fun up => up⟩, rfl, fun _ => rfl⟩

/-- A worker that has changed a queue back and forth has gone its way alone. -/
theorem Treads.strolls (treads : Treads m id target q a) (errand : Errand m id a) :
    m.Strolls id a := ⟨errand.toBeside, treads.barrier, treads.seen⟩

/-- Who visits the queues of others is not busy, and costs nothing. -/
theorem idle_visiting (victims : List WorkerId) : ¬(visiting victims).Busy := by
  cases victims <;> rintro ⟨⟩

/-- A worker gets a task from the queue of another one, or goes on to the next. -/
theorem Waits.passes (waits : Waits m) (calm : m.Calm) (pos : 0 < id) (inside : id < m.size)
    {victim : WorkerId} {rest : List WorkerId}
    (now : m.controlOf id = visiting (victim :: rest)) :
    Attains m fun a => m.Strolls id a ∧ a.controlOf id = visiting rest := by
  replace now : m.controlOf id = .stealing victim (.measure .steal) rest := now
  have known : victim < m.size := waits.crew.visited id victim _ rest now victim List.mem_cons_self
  have hunts : Hunts id .steal victim fun p => .stealing victim p rest := .steal victim rest
  have found : m.queues[victim]? = some m.queues[victim] := Array.getElem?_eq_getElem known
  -- after a step that ends without a task the worker goes on to the next queue
  have ends : ∀ {x : Machine} {p : Queue.Progress Task} {q} (q' : Queue.Shared Task),
      x.crash = none → id < x.size → x.controlOf id = .stealing victim p rest →
      x.queues[victim]? = some q → p.step q = .ok (some (.done none, q')) →
      ∃ a, Treads x id victim q' a ∧ a.controlOf id = visiting rest := by
    intro x p q q' up inside now found stepped
    refine hunts.tread inside now ?_
    rw [step_stealing up now, queueStep, found]
    simp only [stepped]
    rfl
  have done : ∀ {a : Machine} {q' : Queue.Shared Task}, Treads m id victim q' a →
      a.controlOf id = visiting rest → (m.world.queue victim).Perm q'.lanes.contents →
      Attains m fun a => m.Strolls id a ∧ a.controlOf id = visiting rest := by
    intro a q' treads control same
    have awaiting : (a.controlOf 0).awaiting = true := by
      rw [treads.others 0 (Nat.ne_of_lt pos)]
      exact waits.awaiting
    have errand := treads.errand waits calm inside known same awaiting
      (by rw [control]; exact idle_visiting rest) (by rw [control]; exact cost_visiting rest)
    exact errand.attains ⟨treads.strolls errand, control⟩
  by_cases zero : m.queueLength victim = 0
  · obtain ⟨a, treads, control⟩ := ends m.queues[victim] waits.up inside now found
      (by
        rw [queueLength, found] at zero
        simp only [Queue.Progress.step, if_pos zero])
    exact done treads control (.of_eq (world_of_found found).1)
  · obtain ⟨a, x, q, l, treads, control, -, same, -⟩ :=
      waits.hunt calm inside known hunts now zero
    cases x with
    | some t => exact treads.gets waits calm inside known hunts now control same
    | none =>
        obtain ⟨a', next, control'⟩ := hunts.treads (treads.crash.trans waits.up)
          (treads.size.symm ▸ inside) control (treads.found known) (.release none) _ rfl
          (by simp)
        replace next := treads.trans next
        obtain ⟨a'', last, control''⟩ := ends _ (next.crash.trans waits.up)
          (next.size.symm ▸ inside) control' (next.found known) rfl
        exact done (next.trans last) control'' same

/-- A worker that visits the queues of others gets a task, or comes to their end. -/
theorem Waits.visits (waits : Waits m) (calm : m.Calm) (pos : 0 < id) (inside : id < m.size)
    {victims : List WorkerId} (now : m.controlOf id = visiting victims) :
    Attains m fun a => m.Strolls id a ∧ a.controlOf id = .looping := by
  induction victims generalizing m with
  | nil => exact waits.attains calm ⟨strolls_refl m id, now⟩
  | cons victim rest ih =>
      refine (waits.passes calm pos inside now).bind fun a waits' calm' there => ?_
      obtain ⟨strolls, control⟩ := there
      refine (ih waits' calm' (strolls.size.symm ▸ inside) control).mono fun b there => ?_
      exact ⟨strolls.trans there.1, there.2⟩

/-- A step of a worker that looks for tasks, after which it has none, is an errand. -/
theorem Waits.errand_of_goes (waits : Waits m) (calm : m.Calm) (pos : 0 < id)
    (inside : id < m.size) (stepped : m.step id = some a) (goes : m.Goes id a)
    (world : a.world = m.world) (up : a.crash = m.crash) (rests : ¬(a.controlOf id).Busy) :
    Errand m id a ∧ m.Strolls id a := by
  have shape := shape_step stepped
  have round : a.round? = m.round? := by rw [round?, goes.barrier, round?]
  have seen : ∀ o, a.seenOf o = m.seenOf o := fun o => congrArg Prod.snd (goes.traits o)
  have errand := waits.errand calm inside stepped
    ⟨congrArg Prod.fst shape, congrArg (·.2.1) shape, world, goes.shutdown, goes.started, up,
      fun o => congrArg Prod.fst (goes.traits o)⟩ rests
    (by rw [(waits.sound.step stepped).others 0 (Nat.ne_of_lt pos)]; exact waits.awaiting)
    (drains_congr (goes.duty 0 (.inl (Nat.ne_of_lt pos)))) round (fun o _ => seen o)
    fun up => by rw [goes.barrier]; exact up
  exact ⟨errand, errand.toBeside, goes.barrier, seen⟩

/-- Who takes a task from its own queue finds that queue empty. -/
theorem Waits.idles (waits : Waits m) (calm : m.Calm) (inside : id < m.size)
    (now : m.controlOf id = popping) (empty : m.world.queue id = []) :
    ∃ x w, m.workers[id]? = some w ∧ m.Passes x ∧ m.step id = some (x.idleStep id w) ∧
      (x.idleStep id w).world = m.world ∧ (x.idleStep id w).crash = m.crash := by
  have base := waits.sound.toBase
  have here : id < m.workers.size := lt_of_controlOf (by simp [now, popping])
  have found : m.workers[id]? = some m.workers[id] := Array.getElem?_eq_getElem here
  generalize m.workers[id] = w at found
  have there : m.queues[id]? = some m.queues[id] := Array.getElem?_eq_getElem inside
  generalize m.queues[id] = q at there
  have zero : q.published = 0 := by
    have short := waits.queueLength_eq calm id
    rw [empty, queueLength, there] at short
    exact short
  have passes := base.passes_setQueue id (base.lanes q (Array.mem_of_getElem? there))
  obtain ⟨crash, world⟩ :=
    idleStep_spares { m with queues := m.queues.setIfInBounds id q } id w
  rw [world_set_self there] at world
  refine ⟨_, w, found, passes, ?_, world, crash⟩
  rw [step_popping waits.up found now, queueStep, there]
  simp only [Queue.Request.start, Queue.Progress.step, if_pos zero]
  rfl

/-- A worker that has found its own queue empty looks for tasks in those of others. -/
theorem Waits.searches (waits : Waits m) (calm : m.Calm) (pos : 0 < id) (inside : id < m.size)
    (now : m.controlOf id = popping) (empty : m.world.queue id = []) :
    ∃ a victims, Errand m id a ∧ m.Strolls id a ∧ a.controlOf id = visiting victims := by
  obtain ⟨x, w, found, passes, stepped, world, crash⟩ := waits.idles calm inside now empty
  have here : id < x.workers.size := passes.crew.symm ▸ (Array.getElem?_eq_some_iff.1 found).1
  have duty : w.duty = .work :=
    (dutyOf_of_found found).symm.trans (waits.sound.duty_of_worker (Nat.ne_of_gt pos))
  have control : (x.idleStep id w).controlOf id = visiting w.thief.next.victims := by
    have rests := x.rests_idleStep id w
    generalize x.idleStep id w = after at rests
    cases rests with
    | visits => exact controlOf_setControl_self (by simpa using here) _
    | overflows which | returns which | leads which => cases duty.symm.trans which
  obtain ⟨errand, strolls⟩ := waits.errand_of_goes calm pos inside stepped
    (passes.goes_idleStep found now) world crash (by rw [control]; exact idle_visiting _)
  exact ⟨_, _, errand, strolls, control⟩

/-! ## On the way to a round -/

/-- A worker that has been started goes into its loop. -/
theorem Waits.starts (waits : Waits m) (calm : m.Calm) (pos : 0 < id) (inside : id < m.size)
    (now : m.controlOf id = .starting) :
    ∃ a, Errand m id a ∧ m.Strolls id a ∧ a.controlOf id = .looping := by
  have here : id < m.workers.size := lt_of_controlOf (by simp [now])
  have found := Array.getElem?_eq_getElem here
  have stepped : m.step id = some (m.setControl id .looping) := by
    unfold Machine.step
    rw [if_neg (by rw [waits.up]; exact Bool.false_ne_true), found]
    simp only [← controlOf_of_found found, now, waits.crew.started waits.awaiting, if_true]
  have control : (m.setControl id .looping).controlOf id = .looping :=
    controlOf_setControl_self here _
  have goes := waits.sound.next stepped (by simp [now]) (by simp [now])
  obtain ⟨errand, strolls⟩ := waits.errand_of_goes calm pos inside stepped goes rfl rfl
    (by rw [control]; rintro ⟨⟩)
  exact ⟨_, errand, strolls, control⟩

/-- A worker in its loop comes to look at the word. -/
theorem Waits.loops (waits : Waits m) (calm : m.Calm) (pos : 0 < id) (inside : id < m.size)
    (now : m.controlOf id = .looping) :
    ∃ a, Errand m id a ∧ m.Strolls id a ∧ a.controlOf id = .serving .look := by
  have here : id < m.workers.size := lt_of_controlOf (by simp [now])
  have found := Array.getElem?_eq_getElem here
  have stepped : m.step id = some (m.setControl id (.serving .look)) := by
    unfold Machine.step
    rw [if_neg (by rw [waits.up]; exact Bool.false_ne_true), found]
    simp only [← controlOf_of_found found, now, waits.running, Bool.false_eq_true, if_false]
  have control : (m.setControl id (.serving .look)).controlOf id = .serving .look :=
    controlOf_setControl_self here _
  have goes := waits.sound.next stepped (by simp [now]) (by simp [now])
  obtain ⟨errand, strolls⟩ := waits.errand_of_goes calm pos inside stepped goes rfl rfl
    (by rw [control]; rintro ⟨⟩)
  exact ⟨_, errand, strolls, control⟩

/-- A worker that looks at the word takes note of the open round, or goes on to its own queue. -/
theorem Waits.looks (waits : Waits m) (calm : m.Calm) (pos : 0 < id) (inside : id < m.size)
    (now : m.controlOf id = .serving .look) :
    ∃ a, Errand m id a ∧ a.barrier = m.barrier ∧
      (a.controlOf id = popping ∧ (∀ r, m.round? = some r → m.seenOf id = r) ∧
          (∀ o, a.seenOf o = m.seenOf o) ∨
        ∃ r, m.round? = some r ∧ a.controlOf id = .serving (.measure r) ∧ a.seenOf id = r) := by
  have here : id < m.workers.size := lt_of_controlOf (by simp [now])
  obtain ⟨w, loaded, -⟩ := waits.word
  have step := step_serving waits.up now
  simp only [serveStep, loaded] at step
  have stays : ∀ {x : Machine}, m.step id = some x → (x.controlOf 0).awaiting = true := by
    intro x stepped
    rw [(waits.sound.step stepped).others 0 (Nat.ne_of_lt pos)]
    exact waits.awaiting
  by_cases known : w.phase = .idle ∨ w.round = m.seenOf id
  · rw [if_pos known] at step
    replace step : m.step id = some (m.setControl id popping) := step
    have control : (m.setControl id popping).controlOf id = popping :=
      controlOf_setControl_self here _
    have seen : ∀ o, (m.setControl id popping).seenOf o = m.seenOf o := fun o =>
      seenOf_setControl m id o _
    have errand := waits.errand calm inside step
      ((spares_barrier m m.barrier m.events).setControl id popping)
      (by rw [control]; rintro ⟨⟩) (stays step)
      (drains_congr (dutyOf_setControl m id 0 _)) rfl (fun o _ => seen o) fun up => up
    refine ⟨_, errand, rfl, .inl ⟨control, fun r opened => ?_, seen⟩⟩
    obtain ⟨w', loaded', active, rfl⟩ := round?_eq_some.1 opened
    rw [loaded] at loaded'
    cases loaded'
    exact (known.resolve_left active).symm
  · rw [if_neg known] at step
    replace step : m.step id = some
      ((m.see id w.round).setControl id (.serving (.measure w.round))) := step
    obtain ⟨active, -⟩ := not_or.1 known
    have sees := spares_see m id w.round
    have control : ((m.see id w.round).setControl id (.serving (.measure w.round))).controlOf id =
        .serving (.measure w.round) := controlOf_setControl_self (sees.crew ▸ here) _
    have seen : ∀ o, ((m.see id w.round).setControl id (.serving (.measure w.round))).seenOf o =
        if o = id then w.round else m.seenOf o := fun o => by
      rw [seenOf_setControl, seenOf_see here]
    have duty : ((m.see id w.round).setControl id (.serving (.measure w.round))).dutyOf 0 =
        m.dutyOf 0 :=
      (dutyOf_setControl _ id 0 _).trans (dutyOf_modify_of_ne (Nat.ne_of_lt pos))
    have errand := waits.errand calm inside step (sees.setControl id _)
      (by rw [control]; rintro ⟨⟩) (stays step) (drains_congr duty) rfl
      (fun o other => by rw [seen, if_neg other]) fun up => up
    exact ⟨_, errand, rfl, .inr ⟨w.round, round?_eq_some.2 ⟨w, loaded, active, rfl⟩, control,
      by rw [seen, if_pos rfl]⟩⟩

/-- Whether a worker that is not busy takes part in no round. -/
def Roams (c : Control) : Prop :=
  c = .starting ∨ c = .serving .look ∨ c = popping ∨ ∃ victims, c = visiting victims

/-- A worker that is not busy takes part in a round or in none. -/
theorem Waits.engaged_or_roams (waits : Waits m) (calm : m.Calm) (pos : 0 < id)
    (inside : id < m.size) : (m.controlOf id).engaged = true ∨ Roams (m.controlOf id) := by
  have seated := waits.sound.seated id
  have idle := calm id inside
  have unfailed := waits.unfailed pos inside
  have present := waits.crew.present id pos inside
  cases now : m.controlOf id with
  | away =>
      have stopped := present now
      rw [waits.running] at stopped
      cases stopped
  | failed f =>
      rw [now] at unfailed
      cases unfailed
  | submitting s =>
      rw [now] at seated
      exact absurd inside (Nat.not_lt_of_le (seated.1.resolve_left (Nat.ne_of_gt pos)))
  | leading l =>
      rw [now] at seated
      exact absurd seated (Nat.ne_of_gt pos)
  | executing e =>
      rw [now] at idle
      exact absurd trivial idle
  | starting => exact .inr (.inl rfl)
  | looping => exact .inr (.inr (.inr (.inr ⟨[], rfl⟩)))
  | serving s =>
      cases s with
      | look => exact .inr (.inr (.inl rfl))
      | _ => exact .inl rfl
  | popping p =>
      rw [now] at seated idle
      obtain ⟨-, taking⟩ := seated
      cases taking with
      | measure => exact .inr (.inr (.inr (.inl rfl)))
      | acquire | change | publish | release => exact absurd (by constructor) idle
  | stealing victim p rest =>
      rw [now] at seated idle
      obtain ⟨-, taking⟩ := seated
      cases taking with
      | measure => exact .inr (.inr (.inr (.inr ⟨victim :: rest, rfl⟩)))
      | acquire | change | publish | release => exact absurd (by constructor) idle

/-- A worker that takes part in no round gets a task, or comes to look at the word. -/
theorem Waits.approaches (waits : Waits m) (calm : m.Calm) (pos : 0 < id) (inside : id < m.size)
    (roams : Roams (m.controlOf id)) :
    Attains m fun a => m.Strolls id a ∧ a.controlOf id = .serving .look := by
  -- from its loop it comes to the word, and to its loop from the queues of others
  have loops : ∀ {m}, Waits m → m.Calm → id < m.size → m.controlOf id = .looping →
      Attains m fun a => m.Strolls id a ∧ a.controlOf id = .serving .look := by
    intro m waits calm inside now
    obtain ⟨a, errand, strolls, control⟩ := waits.loops calm pos inside now
    exact errand.attains ⟨strolls, control⟩
  have visits : ∀ {m victims}, Waits m → m.Calm → id < m.size →
      m.controlOf id = visiting victims →
      Attains m fun a => m.Strolls id a ∧ a.controlOf id = .serving .look := by
    intro m victims waits calm inside now
    refine (waits.visits calm pos inside now).bind fun a waits' calm' there => ?_
    refine (loops waits' calm' (there.1.size.symm ▸ inside) there.2).mono fun b there' => ?_
    exact ⟨there.1.trans there'.1, there'.2⟩
  rcases roams with now | now | now | ⟨victims, now⟩
  · obtain ⟨a, errand, strolls, control⟩ := waits.starts calm pos inside now
    refine errand.before ((loops errand.waits errand.calm (errand.size.symm ▸ inside) control).mono
      fun b there => ?_)
    exact ⟨strolls.trans there.1, there.2⟩
  · exact waits.attains calm ⟨strolls_refl m id, now⟩
  · by_cases empty : m.world.queue id = []
    · obtain ⟨a, victims, errand, strolls, control⟩ := waits.searches calm pos inside now empty
      refine errand.before ((visits errand.waits errand.calm (errand.size.symm ▸ inside)
        control).mono fun b there => ?_)
      exact ⟨strolls.trans there.1, there.2⟩
    · exact waits.fetches calm inside now empty
  · exact visits waits calm inside now

/-- A worker that has not seen the open round gets a task, or comes to take note of the round. -/
theorem Waits.comes (waits : Waits m) (calm : m.Calm) (pos : 0 < id) (inside : id < m.size)
    (roams : Roams (m.controlOf id)) {round : UInt32} (opened : m.round? = some round)
    (unseen : m.seenOf id ≠ round) :
    Attains m fun a => m.Beside id a ∧ a.barrier = m.barrier ∧ a.seenOf id = round ∧
      a.controlOf id = .serving (.measure round) := by
  refine (waits.approaches calm pos inside roams).bind fun a waits' calm' there => ?_
  obtain ⟨strolls, control⟩ := there
  have open' : a.round? = some round := strolls.round.trans opened
  obtain ⟨b, errand, barrier, ⟨-, known, -⟩ | ⟨r, is, control', seen⟩⟩ :=
    waits'.looks calm' pos (strolls.size.symm ▸ inside) control
  · exact absurd ((strolls.unseen id).symm.trans (known round open')) unseen
  · rw [open'] at is
    cases is
    exact errand.attains ⟨strolls.toBeside.trans errand.toBeside,
      barrier.trans strolls.barrier, seen, control'⟩

/-- A worker that has a task in its own queue takes a task. -/
theorem Waits.fetches_own (waits : Waits m) (calm : m.Calm) (pos : 0 < id) (inside : id < m.size)
    (full : m.world.queue id ≠ []) {goal : Machine → Prop} : Attains m goal := by
  -- a worker that takes part in a round leaves it
  have exits : ∀ {m}, Waits m → m.Calm → id < m.size → m.world.queue id ≠ [] →
      (m.controlOf id).engaged = true → Attains m goal := by
    intro m waits calm inside full engaged
    obtain ⟨a, errand, control, -⟩ := waits.exits calm pos inside (.inr (.inr full)) engaged
    exact errand.before (errand.waits.fetches errand.calm (errand.size.symm ▸ inside) control
      (errand.full full))
  rcases waits.engaged_or_roams calm pos inside with engaged | roams
  · exact exits waits calm inside full engaged
  · refine (waits.approaches calm pos inside roams).bind fun a waits' calm' there => ?_
    obtain ⟨strolls, control⟩ := there
    have inside' : id < a.size := strolls.size.symm ▸ inside
    obtain ⟨b, errand, -, found⟩ := waits'.looks calm' pos inside' control
    have inside'' : id < b.size := errand.size.symm ▸ inside'
    have full' := errand.full (strolls.full full)
    refine errand.before ?_
    rcases found with ⟨control', -⟩ | ⟨r, -, control', -⟩
    · exact errand.waits.fetches errand.calm inside'' control' full'
    · exact exits errand.waits errand.calm inside'' full' (by rw [control']; rfl)

end Machine

end AccessOrder.Pool
