/- # Somebody can go on

While a worker has a task or the lock of a queue in hand, one that does is able to go on: who holds
the lock of a queue does not wait, and the locks of handles are taken in one order, so of those who
wait for the lock of a handle the one that waits for the last handle waits for somebody who does
not.

* `Sound.advances` : who is busy and not stuck takes a step, after which less is ahead;
* `Rounds.exists_unstuck` : not all who are busy are stuck.
-/
import AccessOrder.Proofs.Pool.Spending
import AccessOrder.Proofs.Pool.Leading
namespace AccessOrder.Pool

open Function (update)

/-- Whether a worker runs a task, or has found that there is one in a queue. -/
def Control.Busy : Control → Prop
  | .popping p | .stealing _ p _ => p.Busy
  | .executing _ => True
  | _ => False

/-- Whether a worker looks for a task in a queue, or runs one. -/
def Control.AtWork : Control → Prop
  | .popping _ | .stealing .. | .executing _ => True
  | _ => False

/-- Whether a worker can go on only when someone else has given a lock back. -/
def Control.Stuck (w : World) (id : WorkerId) : Control → Prop
  | .popping p => Barred w id p
  | .stealing victim p _ => Barred w victim p
  | .executing e => e.Stuck w
  | _ => False

namespace Machine

variable {m after : Machine} {id : WorkerId}

/-- What is still ahead of a pool. -/
def cost (m : Machine) : Cost :=
  m.world.stock + ∑ id ∈ Finset.range m.size, (m.controlOf id).cost

/-- What is ahead after a turn of one worker. -/
theorem cost_of_others (inside : id < m.size) (size : after.size = m.size)
    (others : ∀ o ≠ id, after.controlOf o = m.controlOf o) :
    after.cost + (m.world.stock + (m.controlOf id).cost) =
      m.cost + (after.world.stock + (after.controlOf id).cost) := by
  have change := sum_update Control.cost m.controlOf inside (after.controlOf id)
  have same : update m.controlOf id (after.controlOf id) = after.controlOf := by
    funext o
    rw [Function.update_apply]
    split
    · next own => rw [own]
    · next other => rw [others o other]
  rw [same] at change
  simp only [cost, size]
  calc _ = after.world.stock + m.world.stock +
        (∑ o ∈ Finset.range m.size, (after.controlOf o).cost + (m.controlOf id).cost) := by abel
    _ = _ := by
        rw [change]
        abel

/-- Less is ahead of a pool when less is ahead of the queues and of the worker that takes a turn. -/
theorem below_of_others (inside : id < m.size) (size : after.size = m.size)
    (others : ∀ o ≠ id, after.controlOf o = m.controlOf o)
    (below : (after.world.stock + (after.controlOf id).cost).Below
      (m.world.stock + (m.controlOf id).cost)) : after.cost.Below m.cost := by
  have change := cost_of_others inside size others
  have breaks := congrArg Cost.breaks change
  have load := congrArg Cost.load change
  have rank := congrArg Cost.rank change
  simp only [Cost.Below, Cost.add_breaks, Cost.add_load, Cost.add_rank] at *
  lia

/-! ## Steps -/

/-- An activity that is not stuck and has no act that breaks it off goes on or ends. -/
theorem exists_of_spends {α β : Type} {before : Cost} {costs : α → Cost} {stuck : Prop}
    {ends : Machine → β → Prop} {r : Machine × Turn α β}
    (spends : Spends m before costs stuck ends (fun _ => False) r) (unstuck : ¬stuck)
    (returns : before.breaks = 0) (crew : id < m.workers.size)
    {xs : List Item} {ms : List Moment} {fine : α → Prop} {items : α → List Item}
    {ends' : Machine → β → Prop} {fails : Machine → Prop}
    (leads : Leads m xs ms fine items ends' fails r) {wrap : α → Control}
    {finish : Machine → β → Machine} (same : ∀ a, (wrap a).cost = costs a)
    (ended : ∀ x b, m.Passes x → ends x b → (finish x b).crash = x.crash ∧
      ((finish x b).world.stock + ((finish x b).controlOf id).cost).Below
        (m.world.stock + before)) :
    ∃ after, proceed id wrap finish r = some after ∧ after.crash = m.crash ∧
      (after.world.stock + (after.controlOf id).cost).Below (m.world.stock + before) := by
  cases spends with
  | waits waits => exact absurd waits unstuck
  | @goes x a below =>
      cases leads with
      | goes passes =>
          refine ⟨_, rfl, passes.crash, ?_⟩
          rw [controlOf_setControl_self (passes.crew.symm ▸ crew), same]
          exact below
  | @ends x b result =>
      cases leads with
      | ends passes =>
          obtain ⟨crash, below⟩ := ended x b passes result
          exact ⟨_, rfl, crash.trans passes.crash, below⟩
  | fails never => exact never.elim
  | aborts breaks =>
      rw [returns] at breaks
      exact absurd breaks (Nat.lt_irrefl 0)

/-- Visiting the queues of others costs nothing as long as there is nothing in them. -/
@[simp] theorem cost_visiting (victims : List WorkerId) : (visiting victims).cost = 0 := by
  cases victims <;> rfl

/-- Nothing is ahead of a worker that has found its own queue empty. -/
theorem cost_idleStep {w : Worker} (crew : id < m.workers.size) :
    ((m.idleStep id w).controlOf id).cost = 0 := by
  have rests := m.rests_idleStep id w
  generalize m.idleStep id w = after at rests
  cases rests with
  | visits => rw [controlOf_setControl_self (by simpa using crew), cost_visiting]
  | overflows =>
      rw [controlOf_setControl_self crew]
      rfl
  | returns =>
      show (controlOf (setControl _ id .away) id).cost = 0
      rw [controlOf_setControl_self (by simpa using crew)]
      rfl
  | leads =>
      rw [controlOf_setControl_self (by simpa using crew)]
      rfl

/-- Who is busy and not stuck takes a step, after which less is ahead. -/
theorem Sound.advances (sound : m.Sound) (inside : id < m.size)
    (whole : ¬Broken m.world (m.hands id)) (busy : (m.controlOf id).Busy)
    (unstuck : ¬(m.controlOf id).Stuck m.world id) (up : m.crash = none)
    (returns : (m.controlOf id).cost.breaks = 0)
    (known : ∀ victim p rest, m.controlOf id = .stealing victim p rest → victim < m.size) :
    ∃ after, m.step id = some after ∧ after.crash = none ∧ after.cost.Below m.cost := by
  have base := sound.toBase
  have seated := sound.seated id
  have crew : id < m.workers.size := lt_of_controlOf fun away => by rw [away] at busy; exact busy
  have found := Array.getElem?_eq_getElem crew
  have control := controlOf_of_found found
  generalize m.workers[id] = w at found control
  have ended : ∀ {x : Machine} {c : Control} {stock : Cost}, m.Passes x →
      (x.world.stock + c.cost).Below stock → (x.setControl id c).crash = x.crash ∧
        ((x.setControl id c).world.stock + ((x.setControl id c).controlOf id).cost).Below
          stock := by
    intro x c stock passes below
    rw [controlOf_setControl_self (passes.crew.symm ▸ crew)]
    exact ⟨rfl, below⟩
  have stepped : ∃ after, m.step id = some after ∧ after.crash = m.crash ∧
      (after.world.stock + (after.controlOf id).cost).Below
        (m.world.stock + (m.controlOf id).cost) := by
    unfold Machine.step
    rw [if_neg (by rw [up]; exact Bool.false_ne_true), found]
    rw [hands] at whole
    simp only [← control]
    generalize now : m.controlOf id = c at busy unstuck returns whole seated known
    cases c with
    | popping p =>
        refine exists_of_spends (base.spends_queueStep inside busy) unstuck returns crew
          (base.leads_taking id .pop seated.2) (fun _ => rfl) fun x t passes below => ?_
        cases t with
        | some t => exact ended passes below
        | none =>
            obtain ⟨crash, world⟩ := idleStep_spares x id w
            rw [world, cost_idleStep (passes.crew.symm ▸ crew)]
            exact ⟨crash, below⟩
    | stealing victim p rest =>
        refine exists_of_spends (base.spends_queueStep (known _ _ _ rfl) busy) unstuck returns crew
          (base.leads_taking victim .steal seated.2) (fun _ => rfl) fun x t passes below => ?_
        cases t with
        | some t => exact ended passes below
        | none =>
            refine ended passes ?_
            rw [cost_visiting]
            exact below
    | executing e =>
        refine exists_of_spends (base.spends_executeStep id seated.2 whole) unstuck returns crew
          (base.leads_execution seated.1 seated.2) (fun _ => rfl) fun x _ passes below => ?_
        refine ended passes ?_
        rw [show (afterTask w.duty).cost = 0 by cases w.duty <;> rfl, add_zero]
        exact below
    | _ => exact busy.elim
  obtain ⟨after, stepped, crash, below⟩ := stepped
  refine ⟨after, stepped, crash.trans up, ?_⟩
  exact below_of_others inside (size_step stepped) (sound.step stepped).others below

/-- Who goes on with something has not failed. -/
theorem unfailed_setControl (m : Machine) (id : WorkerId) {c : Control}
    (unfailed : c.isFailed = false) : ((m.setControl id c).controlOf id).isFailed = false := by
  by_cases inside : id < m.workers.size
  · rwa [controlOf_setControl_self inside]
  · rw [controlOf_setControl, if_neg fun both => inside both.2, controlOf,
      Array.getElem?_eq_none (Nat.le_of_not_lt inside)]
    rfl

/-- Visiting the queues of others is no failure. -/
theorem unfailed_visiting (victims : List WorkerId) : (visiting victims).isFailed = false := by
  cases victims <;> rfl

/-- A worker that has found its own queue empty has not failed, unless the drains of a barrier that
it leads are too many to be counted. -/
theorem unfailed_idleStep {w : Worker} (crew : id < m.workers.size)
    (counts : w.duty.leads = true → (m.idleStep id w).controlOf id ≠ .failed .drainsUncounted) :
    ((m.idleStep id w).controlOf id).isFailed = false := by
  have rests := m.rests_idleStep id w
  generalize m.idleStep id w = after at rests counts
  cases rests with
  | visits => exact unfailed_setControl _ id (unfailed_visiting _)
  | overflows duty =>
      exact absurd (controlOf_setControl_self crew _) (counts (by rw [duty]; rfl))
  | returns => exact unfailed_setControl _ id (c := .away) rfl
  | leads => exact unfailed_setControl _ id rfl

/-- An activity that does not fail leads to no failure. -/
theorem unfailed_of_spends {α β : Type} {before : Cost} {costs : α → Cost} {stuck : Prop}
    {ends : Machine → β → Prop} {r : Machine × Turn α β}
    (spends : Spends m before costs stuck ends (fun _ => False) r)
    {xs : List Item} {ms : List Moment} {fine : α → Prop} {items : α → List Item}
    {ends' : Machine → β → Prop} {fails : Machine → Prop}
    (leads : Leads m xs ms fine items ends' fails r) {wrap : α → Control}
    {finish : Machine → β → Machine} (moved : proceed id wrap finish r = some after)
    (was : (m.controlOf id).isFailed = false) (wrapped : ∀ a, (wrap a).isFailed = false)
    (finished : ∀ x b, m.Passes x → after = finish x b →
      ((finish x b).controlOf id).isFailed = false) :
    (after.controlOf id).isFailed = false := by
  cases spends with
  | waits => cases moved
  | goes =>
      cases moved
      exact unfailed_setControl _ id (wrapped _)
  | ends =>
      cases moved
      cases leads with
      | ends passes => exact finished _ _ passes rfl
  | fails never => exact never.elim
  | @aborts x label =>
      cases moved
      cases leads with
      | aborts passes =>
          show (x.controlOf id).isFailed = false
          rwa [passes.controls]

/-- Reading the length of a queue is no failure. -/
theorem unfailed_measure (base : m.Base) {target : WorkerId} (known : target < m.size)
    {r : Queue.Request Task} {wrap : Queue.Progress Task → Control}
    {finish : Machine → Option Task → Machine}
    (moved : proceed id wrap finish (m.queueStep target (.measure r)) = some after)
    (wrapped : ∀ a, (wrap a).isFailed = false)
    (finished : ∀ x b, m.Passes x → after = finish x b →
      ((finish x b).controlOf id).isFailed = false) :
    (after.controlOf id).isFailed = false := by
  have found := Array.getElem?_eq_getElem (show target < m.queues.size from known)
  have lanes := base.lanes _ (Array.mem_of_getElem? found)
  unfold queueStep at moved
  rw [found] at moved
  simp only [Queue.Progress.step] at moved
  split at moved
  · next ended =>
    cases moved
    exact finished _ _ (base.passes_setQueue target lanes) rfl
  · cases moved
    exact unfailed_setControl _ id (wrapped _)

/-- A worker that takes a task from a queue, or runs one, does not fail, unless the drains of a
barrier that it leads are too many to be counted. -/
theorem Sound.unfailed (sound : m.Sound) (inside : id < m.size)
    (whole : ¬Broken m.world (m.hands id))
    (working : (m.controlOf id).AtWork)
    (known : ∀ victim p rest, m.controlOf id = .stealing victim p rest → victim < m.size)
    (stepped : m.step id = some after)
    (counts : ∀ p, m.controlOf id = .popping p → (m.dutyOf id).leads = true →
      after.controlOf id ≠ .failed .drainsUncounted) :
    (after.controlOf id).isFailed = false := by
  have base := sound.toBase
  have seated := sound.seated id
  obtain ⟨w, found, steps⟩ := step_cases stepped
  have crew : id < m.workers.size := (Array.getElem?_eq_some_iff.1 found).1
  rw [hands] at whole
  have was : (m.controlOf id).isFailed = false := by
    cases now : m.controlOf id <;> rw [now] at working <;> first | rfl | cases working
  -- a queue is operated on by measuring it first
  have queue : ∀ {target : WorkerId} {p : Queue.Progress Task} {r : Queue.Request Task}
      {wrap : Queue.Progress Task → Control} {finish : Machine → Option Task → Machine},
      target < m.size → p.Taking r → r.Takes →
      proceed id wrap finish (m.queueStep target p) = some after →
      (∀ a, (wrap a).isFailed = false) →
      (∀ x b, m.Passes x → after = finish x b → ((finish x b).controlOf id).isFailed = false) →
      (after.controlOf id).isFailed = false := by
    intro target p r wrap finish known taking takes moved wrapped finished
    by_cases busy : p.Busy
    · exact unfailed_of_spends (base.spends_queueStep known busy)
        (base.leads_taking target takes taking) moved was wrapped finished
    · cases taking with
      | measure => exact unfailed_measure base known moved wrapped finished
      | acquire | change | publish | release => exact absurd (by constructor) busy
  generalize now : m.controlOf id = c at steps seated working whole known counts
  cases steps with
  | popping moved =>
      refine queue inside seated.2 .pop moved (fun _ => rfl) fun x t passes same => ?_
      cases t with
      | some t => exact unfailed_setControl _ id rfl
      | none =>
          replace same : after = x.idleStep id w := same
          refine unfailed_idleStep (passes.crew.symm ▸ crew) fun leads => ?_
          rw [← same]
          exact counts _ rfl (by rwa [dutyOf, found])
  | stealing moved =>
      refine queue (known _ _ _ rfl) seated.2 .steal moved (fun _ => rfl) fun x t _ _ => ?_
      cases t with
      | some t => exact unfailed_setControl _ id rfl
      | none => exact unfailed_setControl _ id (unfailed_visiting _)
  | executing moved =>
      refine unfailed_of_spends (base.spends_executeStep id seated.2 whole)
        (base.leads_execution seated.1 seated.2) moved was (fun _ => rfl) fun x _ _ _ => ?_
      refine unfailed_setControl _ id ?_
      cases w.duty <;> rfl
  | _ => exact working.elim

/-! ## Who holds a lock -/

/-- Who holds a lock while the owner waits at the barrier is a worker that is busy. -/
theorem Rounds.busy_of_keys (rounds : m.Rounds) (sound : m.Sound)
    (awaiting : (m.controlOf 0).awaiting = true) {k : Key} (lock : ∀ s, k ≠ .task s)
    (mem : k ∈ keysOf (m.hands id)) : id < m.size ∧ (m.controlOf id).Busy := by
  obtain ⟨x, mem, key⟩ := mem_keysOf.1 mem
  have inside : id < m.size := by
    by_contra outside
    rcases sound.hands_of_caller (Nat.le_of_not_lt outside) ((rounds.alone awaiting).2 id) x mem
      with ⟨d, rfl⟩ | ⟨t, rfl⟩
    · exact lock _ (List.mem_singleton.1 key)
    · exact lock _ (List.mem_singleton.1 key)
  refine ⟨inside, ?_⟩
  have seated := sound.seated id
  rw [hands] at mem
  cases now : m.controlOf id with
  | submitting s =>
      rw [now] at seated
      obtain rfl : id = 0 := seated.1.resolve_right (Nat.not_le_of_lt inside)
      rw [now] at awaiting
      cases awaiting
  | popping p =>
      rw [now] at seated mem
      obtain ⟨-, taking⟩ := seated
      cases taking with
      | measure => cases mem
      | acquire | change | publish | release => constructor
  | stealing victim p rest =>
      rw [now] at seated mem
      obtain ⟨-, taking⟩ := seated
      cases taking with
      | measure => cases mem
      | acquire | change | publish | release => constructor
  | executing e => trivial
  | _ =>
      rw [now] at mem
      cases mem

/-- Who holds the lock of a queue does not wait for one. -/
theorem unstuck_of_guard {w : World} {p : Queue.Progress Task} {q target : WorkerId}
    {changed : Bool} (mem : .guard q changed ∈ p.items target) : ¬Barred w target p := by
  intro stuck
  cases p with
  | acquire r => cases r <;> simp [Queue.Progress.items] at mem
  | _ => exact stuck

/-- No lock of a queue is among tasks. -/
theorem guard_not_mem_loose (ts : List Task) (q : WorkerId) (changed : Bool) :
    .guard q changed ∉ looseItems ts := by simp [looseItems]

/-- Who holds the lock of a queue goes on. -/
theorem Rounds.exists_unstuck_of_held (rounds : m.Rounds) (sound : m.Sound) {past : List Moment}
    (orderly : Orderly past m.world m.hands) (awaiting : (m.controlOf 0).awaiting = true)
    {q : WorkerId} (held : m.world.held q = true) :
    ∃ id < m.size, (m.controlOf id).Busy ∧ ¬(m.controlOf id).Stuck m.world id := by
  obtain ⟨place, kept⟩ := (orderly.guards q).1 held
  obtain ⟨x, mem, key⟩ := mem_keysOf.1 kept
  obtain ⟨changed, rfl⟩ : ∃ changed, x = .guard q changed := by
    cases x with
    | guard q' changed =>
        cases List.mem_singleton.1 key
        exact ⟨changed, rfl⟩
    | running f stage => simp [Item.keys] at key
    | _ => cases List.mem_singleton.1 key
  cases place with
  | queue q' => simp [World.items] at mem
  | waiting h v => exact absurd mem (guard_not_mem_loose _ q changed)
  | kept => simp [World.items] at mem
  | hands id =>
      obtain ⟨inside, busy⟩ := rounds.busy_of_keys sound awaiting (by rintro s ⟨⟩) kept
      refine ⟨id, inside, busy, ?_⟩
      replace mem : Item.guard q changed ∈ (m.controlOf id).items id := mem
      cases now : m.controlOf id with
      | popping p =>
          rw [now] at mem
          exact unstuck_of_guard mem
      | stealing victim p rest =>
          rw [now] at mem
          exact unstuck_of_guard mem
      | executing e =>
          rw [now] at mem
          cases e with
          | hand f acts results versions s =>
              have mem := (List.mem_append.1 mem).resolve_right (by simp)
              cases s with
              | enqueue target p => exact unstuck_of_guard mem
              | _ => exact not_false
          | requeue f todo woken target p =>
              refine unstuck_of_guard ((List.mem_append.1 mem).resolve_right ?_)
              simp [looseItems]
          | lock f acts todo =>
              cases List.mem_singleton.1 mem
          | _ => exact not_false
      | _ => exact not_false

/-- The locks that a task still has to take come after those that it holds. -/
theorem lt_of_locking {w : World} {f : Frame} {h h' : HandleId} {todo : List HandleId}
    (fits : (Item.running f (.locking (h' :: todo))).Fits w) (held : h ∈ f.held) : h < h' := by
  obtain ⟨fit, -, locks⟩ := fits
  have sorted := f.task.lockHandles_sorted
  have distinct : f.task.lockHandles.Nodup := by
    rw [f.task.lockHandles_perm.nodup_iff]
    exact fit.distinct.sublist (List.filter_sublist.map _)
  rw [← locks] at sorted distinct
  refine Nat.lt_of_le_of_ne ?_ ?_
  · exact (List.pairwise_append.1 sorted).2.2 h (List.mem_reverse.2 held) h' List.mem_cons_self
  · exact (List.nodup_append.1 distinct).2.2 h (List.mem_reverse.2 held) h' List.mem_cons_self

/-- Who is stuck waits for the lock of a queue, or for that of a handle. -/
theorem stuck_cases {w : World} {c : Control} (stuck : c.Stuck w id) :
    (∃ q, w.held q = true) ∨ ∃ f acts h todo, c = .executing (.lock f acts (h :: todo)) ∧
      (w.units h).locked = true := by
  have queue : ∀ {p : Queue.Progress Task} {target : WorkerId}, Barred w target p →
      w.held target = true := by
    intro p target stuck
    cases p <;> first | exact stuck | cases stuck
  cases c with
  | popping p => exact .inl ⟨_, queue stuck⟩
  | stealing victim p rest => exact .inl ⟨_, queue stuck⟩
  | executing e =>
      cases e with
      | lock f acts todo =>
          cases todo with
          | nil => exact stuck.elim
          | cons h todo => exact .inr ⟨f, acts, h, todo, rfl, stuck⟩
      | hand f acts results versions s =>
          cases s with
          | enqueue target p => exact .inl ⟨_, queue stuck⟩
          | _ => exact stuck.elim
      | requeue f todo woken target p => exact .inl ⟨_, queue stuck⟩
      | _ => exact stuck.elim
  | _ => exact stuck.elim

/-- While the lock of a handle is held, somebody goes on. -/
theorem Rounds.exists_unstuck_of_locked (rounds : m.Rounds) (sound : m.Sound) {past : List Moment}
    (orderly : Orderly past m.world m.hands) (awaiting : (m.controlOf 0).awaiting = true)
    {h : HandleId} (locked : (m.world.units h).locked = true) :
    ∃ id < m.size, (m.controlOf id).Busy ∧ ¬(m.controlOf id).Stuck m.world id := by
  -- the holder goes on, unless it waits for the lock of a later handle
  obtain ⟨place, kept⟩ := (orderly.latches h).1 locked
  obtain ⟨x, mem, key⟩ := mem_keysOf.1 kept
  obtain ⟨f, stage, rfl, held⟩ : ∃ f stage, x = .running f stage ∧ h ∈ f.held := by
    cases x with
    | running f stage => exact ⟨f, stage, rfl, by simpa [Item.keys] using key⟩
    | _ => cases List.mem_singleton.1 key
  have fits := orderly.fits place _ mem
  cases place with
  | queue q => simp [World.items] at mem
  | waiting h' v => simp [World.items, looseItems] at mem
  | kept => simp [World.items] at mem
  | hands id =>
      obtain ⟨inside, busy⟩ := rounds.busy_of_keys sound awaiting (by rintro s ⟨⟩) kept
      by_cases stuck : (m.controlOf id).Stuck m.world id
      · rcases stuck_cases stuck with ⟨q, held⟩ | ⟨f', acts, h', todo, now, locked'⟩
        · exact rounds.exists_unstuck_of_held sound orderly awaiting held
        · replace mem : Item.running f stage ∈ (m.controlOf id).items id := mem
          rw [now] at mem
          cases List.mem_singleton.1 mem
          have later := lt_of_locking fits held
          have known : h' < m.world.count := by
            refine fits.1.lt_of_lockHandles ?_
            rw [← fits.2.2]
            exact List.mem_append_right _ List.mem_cons_self
          exact rounds.exists_unstuck_of_locked sound orderly awaiting locked'
      · exact ⟨id, inside, busy, stuck⟩
termination_by m.world.count - h
decreasing_by exact Nat.sub_lt_sub_left (Nat.lt_trans later known) later

/-- Not all workers that are busy are stuck. -/
theorem Rounds.exists_unstuck (rounds : m.Rounds) (sound : m.Sound) {past : List Moment}
    (orderly : Orderly past m.world m.hands) (awaiting : (m.controlOf 0).awaiting = true)
    (inside : id < m.size) (busy : (m.controlOf id).Busy) :
    ∃ id < m.size, (m.controlOf id).Busy ∧ ¬(m.controlOf id).Stuck m.world id := by
  by_cases stuck : (m.controlOf id).Stuck m.world id
  · rcases stuck_cases stuck with ⟨q, held⟩ | ⟨_, _, h, _, -, locked⟩
    · exact rounds.exists_unstuck_of_held sound orderly awaiting held
    · exact rounds.exists_unstuck_of_locked sound orderly awaiting locked
  · exact ⟨id, inside, busy, stuck⟩

end Machine

end AccessOrder.Pool
