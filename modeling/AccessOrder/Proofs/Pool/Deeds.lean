/- # Activities are deeds

What a step of an activity of a worker does to the world and to what the worker has in hand: the
operations on queues, vetting, handing a task in and running one.  The steps of a barrier round do
nothing to either.

* `Leads` : what comes of a step of an activity;
* `Base.leads_storing`, `Base.leads_taking`, `Base.leads_vetting`, `Base.leads_submission`,
  `Base.leads_execution` : one lemma for each activity.
-/
import AccessOrder.Proofs.Pool.Items
import AccessOrder.Proofs.Pool.Running
namespace AccessOrder

open Function (update)

/-- A step of putting a task into a queue. -/
inductive Queue.Progress.Storing : Queue.Progress Task → Prop where
  | acquire (t : Task) : Storing (.acquire (.push t))
  | change (t : Task) : Storing (.change (.push t))
  | publish : Storing (.publish none)
  | release : Storing (.release none)

/-- A request to take a task out of a queue. -/
inductive Queue.Request.Takes : Queue.Request Task → Prop where
  | pop : Takes .pop
  | steal : Takes .steal

/-- A step of taking a task out of a queue as requested. -/
inductive Queue.Progress.Taking (r : Queue.Request Task) : Queue.Progress Task → Prop where
  | measure : Taking r (.measure r)
  | acquire : Taking r (.acquire r)
  | change : Taking r (.change r)
  | publish (x : Option Task) : Taking r (.publish x)
  | release (x : Option Task) : Taking r (.release x)

namespace Pool

/-- Tasks are handed in by putting them into a queue. -/
inductive Submission.Seated : Submission → Prop where
  | build (d : Draft) : Seated (.build d)
  | arrive (t : Task) : Seated (.arrive t)
  | vet (label : Option String) (v : Vetting) : Seated (.vet label v)
  | enqueue (target : WorkerId) {p : Queue.Progress Task} : p.Storing → Seated (.enqueue target p)

/-- Tasks that are woken or handed in are put into a queue. -/
def Execution.Seated : Execution → Prop
  | .hand _ _ _ _ s => s.Seated
  | .requeue _ _ _ _ p => p.Storing
  | _ => True

/-- What the worker or caller of a number may be in the middle of, in a pool of a given size: the
owner and the callers hand tasks in, callers do nothing else, and only the owner leads. -/
def Control.Seated (size : Nat) (id : WorkerId) : Control → Prop
  | .away | .failed _ => True
  | .submitting s => (id = 0 ∨ size ≤ id) ∧ s.Seated
  | .popping p => id < size ∧ p.Taking .pop
  | .stealing _ p _ => id < size ∧ p.Taking .steal
  | .executing e => id < size ∧ e.Seated
  | .starting | .looping | .serving _ => id < size
  | .leading _ => id = 0

/-- Whether it is the duty of a worker to lead a barrier when it finds no task. -/
def Duty.leads : Duty → Bool
  | .work => false
  | .lead _ => true

/-- How many workers a worker knows of, and the last barrier round that it has seen. -/
def Worker.traits (w : Worker) : Nat × UInt32 := (w.thief.workers, w.seenRound)

/-- Who takes a turn. -/
def Move.actor : Move → WorkerId
  | .step id | .miss id | .spawn id _ | .keep id | .submit id _ | .recover id => id
  | .start | .lead | .stop => 0

namespace Machine

/-- What the workers share is sound. -/
structure Base (m : Machine) : Prop where
  handles : m.handles.Sound
  lanes : ∀ q ∈ m.queues, q.lanes.Sound

/-- What a worker does when it finds no task in its own queue. -/
def dutyOf (m : Machine) (id : WorkerId) : Duty := (m.workers[id]?).elim .work Worker.duty

/-- How many workers a worker knows of, and the last round that it has seen. -/
def traitsOf (m : Machine) (id : WorkerId) : Nat × UInt32 :=
  (m.workers[id]?).elim (0, 0) Worker.traits

/-- A sound pool: it has a worker, what is shared is sound, everyone is where they may be, and the
owner, and no one else, leads a barrier when it finds no task. -/
structure Sound (m : Machine) : Prop extends m.Base where
  manned : 0 < m.size
  seated : ∀ id, (m.controlOf id).Seated m.size id
  duties : ∀ id, (m.dutyOf id).leads = decide (id = 0)

/-- The duty of a worker that has been found. -/
theorem dutyOf_of_found {m : Machine} {id : WorkerId} {w : Worker}
    (found : m.workers[id]? = some w) : m.dutyOf id = w.duty := by
  rw [dutyOf, found, Option.elim_some]

/-- The owner leads a barrier, of which it has counted some drains. -/
theorem Sound.exists_lead {m : Machine} (sound : m.Sound) :
    ∃ rounds, m.dutyOf 0 = .lead rounds := by
  have leads := sound.duties 0
  cases which : m.dutyOf 0 with
  | lead rounds => exact ⟨rounds, rfl⟩
  | work =>
      rw [which] at leads
      cases leads

/-- All but the owner look for tasks in the queues of others. -/
theorem Sound.duty_of_worker {m : Machine} (sound : m.Sound) {id : WorkerId} (other : id ≠ 0) :
    m.dutyOf id = .work := by
  have works := sound.duties id
  cases which : m.dutyOf id with
  | work => rfl
  | lead rounds =>
      rw [which, decide_eq_false other] at works
      cases works

/-- The step of an activity leaves the workers where they are. -/
structure Keeps (m after : Machine) : Prop where
  base : after.Base
  size : after.size = m.size
  crew : after.workers.size = m.workers.size
  controls : ∀ id, after.controlOf id = m.controlOf id
  duties : ∀ id, (after.dutyOf id).leads = (m.dutyOf id).leads

/-- The step of an activity leaves the workers where they are, and the barrier alone. -/
structure Passes (m after : Machine) : Prop extends m.Keeps after where
  barrier : after.barrier = m.barrier
  shutdown : after.shutdown = m.shutdown
  started : after.started = m.started
  crash : after.crash = m.crash
  traits : ∀ id, after.traitsOf id = m.traitsOf id
  duty : ∀ id, after.dutyOf id = m.dutyOf id

/-- The step of an activity is no deed. -/
structure Idles (m after : Machine) : Prop extends m.Keeps after where
  world : after.world = m.world
  shutdown : after.shutdown = m.shutdown

end Machine

/-- What comes of a step of an activity, with `xs` in hand before it: if the activity goes on, it is
at a stage that is `fine`, with the items of that stage in hand. -/
inductive Leads {α β : Type} (m : Machine) (xs : List Item) (ms : List Moment) (fine : α → Prop)
    (items : α → List Item) (ends : Machine → β → Prop) (fails : Machine → Prop) :
    Machine × Turn α β → Prop where
  | waits {after} : Leads m xs ms fine items ends fails (after, .waits)
  | goes {after a} : m.Passes after → fine a → Deed m.world xs ms after.world (items a) →
      Leads m xs ms fine items ends fails (after, .goes a)
  | ends {after b} : m.Passes after → ends after b →
      Leads m xs ms fine items ends fails (after, .ends b)
  | fails {after} (f : Failure) : m.Passes after → fails after →
      Leads m xs ms fine items ends fails (after, .fails f)
  | aborts {after label} : m.Passes after → Deed m.world xs ms after.world xs →
      Leads m xs ms fine items ends fails (after, .aborts label)

/-- An activity goes on as part of another one, with more in hand. -/
theorem Leads.onward {α β γ δ : Type} {m : Machine} {xs zs : List Item} {ms : List Moment}
    {fine : α → Prop} {items : α → List Item} {ends : Machine → β → Prop} {fails : Machine → Prop}
    {fine' : γ → Prop} {items' : γ → List Item} {ends' : Machine → δ → Prop}
    {fails' : Machine → Prop}
    {r : Machine × Turn α β} (leads : Leads m xs ms fine items ends fails r) {wrap : α → γ}
    {cont : Machine → β → Machine × Turn γ δ} (goes : ∀ a, fine a → fine' (wrap a))
    (same : ∀ a, items' (wrap a) = items a ++ zs)
    (ended : ∀ after b, m.Passes after → ends after b →
      Leads m (xs ++ zs) ms fine' items' ends' fails' (cont after b))
    (failed : ∀ after, m.Passes after → fails after → fails' after) :
    Leads m (xs ++ zs) ms fine' items' ends' fails' (onward r wrap cont) := by
  cases leads with
  | waits => exact .waits
  | goes passes fine deed => exact .goes passes (goes _ fine) (same _ ▸ deed.append zs)
  | ends passes result => exact ended _ _ passes result
  | fails f passes failure => exact .fails f passes (failed _ passes failure)
  | aborts passes deed => exact .aborts passes (deed.append zs)

section Outcomes

variable {α β : Type} {m after : Machine} {xs : List Item} {ms : List Moment} {fine : α → Prop}
  {items : α → List Item} {ends : Machine → β → Prop} {fails : Machine → Prop}
  {r : Machine × Turn α β}

/-- What is known of an activity that goes on. -/
theorem Leads.of_goes (leads : Leads m xs ms fine items ends fails r) {a : α}
    (stepped : r = (after, .goes a)) :
    m.Passes after ∧ fine a ∧ Deed m.world xs ms after.world (items a) := by
  subst stepped
  cases leads with
  | goes passes fine deed => exact ⟨passes, fine, deed⟩

/-- What is known of an activity that ends. -/
theorem Leads.of_ends (leads : Leads m xs ms fine items ends fails r) {b : β}
    (stepped : r = (after, .ends b)) : m.Passes after ∧ ends after b := by
  subst stepped
  cases leads with
  | ends passes result => exact ⟨passes, result⟩

/-- What is known of an activity that fails. -/
theorem Leads.of_fails (leads : Leads m xs ms fine items ends fails r) {f : Failure}
    (stepped : r = (after, .fails f)) : m.Passes after ∧ fails after := by
  subst stepped
  cases leads with
  | fails _ passes failure => exact ⟨passes, failure⟩

end Outcomes

namespace Machine

variable {m : Machine}

/-- Nothing leaves everyone where they are. -/
theorem Base.passes (base : m.Base) : m.Passes m :=
  ⟨⟨base, rfl, rfl, fun _ => rfl, fun _ => rfl⟩, rfl, rfl, rfl, rfl, fun _ => rfl, fun _ => rfl⟩

/-- Telling something leaves the workers where they are. -/
theorem Passes.tell {after : Machine} (passes : m.Passes after) (e : Event) :
    m.Passes (after.tell e) :=
  ⟨⟨⟨passes.base.handles, passes.base.lanes⟩, passes.size, passes.crew, passes.controls,
    passes.duties⟩, passes.barrier, passes.shutdown, passes.started, passes.crash, passes.traits,
    passes.duty⟩

/-- Nothing is seen of what is told. -/
@[simp] theorem world_tell (m : Machine) (e : Event) : (m.tell e).world = m.world := rfl

/-- A worker that keeps its duty. -/
theorem dutyOf_modify {id : WorkerId} {f : Worker → Worker} (keeps : ∀ w, (f w).duty = w.duty)
    (other : WorkerId) :
    dutyOf { m with workers := m.workers.modify id f } other = m.dutyOf other := by
  unfold dutyOf
  rw [Array.getElem?_modify]
  cases m.workers[other]? with
  | none => simp
  | some w => by_cases same : id = other <;> simp [same, keeps]

/-- Others keep their duty. -/
theorem dutyOf_modify_of_ne {id other : WorkerId} {f : Worker → Worker} (aside : other ≠ id) :
    dutyOf { m with workers := m.workers.modify id f } other = m.dutyOf other := by
  unfold dutyOf
  rw [Array.getElem?_modify, if_neg (Ne.symm aside)]

/-- A worker that stays where it is and keeps its duty. -/
theorem Base.keeps_modify (base : m.Base) (id : WorkerId) {f : Worker → Worker}
    (keeps : ∀ w, (f w).control = w.control ∧ (f w).duty = w.duty) :
    m.Keeps { m with workers := m.workers.modify id f } := by
  refine ⟨⟨base.handles, base.lanes⟩, rfl, by simp, fun other => ?_, fun other => ?_⟩
  · unfold controlOf
    rw [Array.getElem?_modify]
    cases m.workers[other]? with
    | none => simp
    | some w => by_cases same : id = other <;> simp [same, keeps]
  · exact congrArg Duty.leads (dutyOf_modify (fun w => (keeps w).2) other)

/-- A worker that knows as much as before. -/
theorem traitsOf_modify {id : WorkerId} {f : Worker → Worker}
    (traits : ∀ w, m.workers[id]? = some w → (f w).traits = w.traits) (other : WorkerId) :
    traitsOf { m with workers := m.workers.modify id f } other = m.traitsOf other := by
  unfold traitsOf
  rw [Array.getElem?_modify]
  cases found : m.workers[other]? with
  | none => simp
  | some w =>
      by_cases same : id = other
      · simp [same, traits w (same ▸ found)]
      · simp [same]

/-- A worker that stays where it is, keeps its duty and knows as much as before. -/
theorem Base.passes_modify (base : m.Base) (id : WorkerId) {f : Worker → Worker}
    (keeps : ∀ w, (f w).control = w.control ∧ (f w).duty = w.duty)
    (traits : ∀ w, (f w).traits = w.traits) :
    m.Passes { m with workers := m.workers.modify id f } :=
  ⟨base.keeps_modify id keeps, rfl, rfl, rfl, rfl, traitsOf_modify fun w _ => traits w,
    dutyOf_modify fun w => (keeps w).2⟩

/-- A worker may go on counting the drains of a barrier that it leads. -/
theorem Base.keeps_duty (base : m.Base) {id : WorkerId} (leads : (m.dutyOf id).leads = true)
    (rounds : UInt32) :
    m.Keeps { m with workers := m.workers.modify id fun w => { w with duty := .lead rounds } } := by
  refine ⟨⟨base.handles, base.lanes⟩, rfl, by simp, fun other => ?_, fun other => ?_⟩
  · unfold controlOf
    rw [Array.getElem?_modify]
    cases m.workers[other]? with
    | none => simp
    | some w => by_cases same : id = other <;> simp [same]
  · unfold dutyOf at leads ⊢
    rw [Array.getElem?_modify]
    split
    · next same =>
      rw [← same]
      cases found : m.workers[id]? with
      | none => rfl
      | some w =>
          rw [found] at leads
          exact leads.symm
    · rfl

/-- Workers that stay where they are in two steps stay where they are. -/
theorem Keeps.trans {next after : Machine} (first : m.Keeps next) (second : next.Keeps after) :
    m.Keeps after where
  base := second.base
  size := second.size.trans first.size
  crew := second.crew.trans first.crew
  controls id := (second.controls id).trans (first.controls id)
  duties id := (second.duties id).trans (first.duties id)

/-- A process that is taken down leaves everyone where they are. -/
theorem Keeps.keeps_crash {after : Machine} (keeps : m.Keeps after) (crash : Option Crash) :
    m.Keeps { after with crash := crash } :=
  ⟨⟨keeps.base.handles, keeps.base.lanes⟩, keeps.size, keeps.crew, keeps.controls, keeps.duties⟩

/-! ## Queues -/

/-- What is seen of a queue. -/
theorem world_of_found {target : WorkerId} {q : Queue.Shared Task}
    (found : m.queues[target]? = some q) :
    m.world.queue target = q.lanes.contents ∧ m.world.published target = q.published ∧
      m.world.held target = q.held := by
  simp [world, found]

/-- What is seen after a queue has changed. -/
theorem world_setQueue {target : WorkerId} {q : Queue.Shared Task}
    (found : m.queues[target]? = some q) (next : Queue.Shared Task) :
    world { m with queues := m.queues.setIfInBounds target next } =
      { m.world with
        queue := update m.world.queue target next.lanes.contents
        published := update m.world.published target next.published
        held := update m.world.held target next.held } := by
  have inside : target < m.queues.size := (Array.getElem?_eq_some_iff.1 found).1
  have seen : ∀ {α : Type} (default : α) (f : Queue.Shared Task → α),
      (fun other => ((m.queues.setIfInBounds target next)[other]?).elim default f) =
        update (fun other => (m.queues[other]?).elim default f) target (f next) := by
    intro α default f
    funext other
    rw [Array.getElem?_setIfInBounds, Function.update_apply]
    by_cases same : target = other
    · rw [if_pos same, if_pos same.symm, if_pos inside, Option.elim_some]
    · rw [if_neg same, if_neg (Ne.symm same)]
  unfold world
  rw [seen, seen, seen]
  simp [size]

/-- Changing a queue leaves the workers where they are. -/
theorem Base.passes_setQueue (base : m.Base) (target : WorkerId) {next : Queue.Shared Task}
    (sound : next.lanes.Sound) :
    m.Passes { m with queues := m.queues.setIfInBounds target next } := by
  refine ⟨⟨⟨base.handles, fun q mem => ?_⟩, by simp [size], rfl, fun _ => rfl, fun _ => rfl⟩,
    rfl, rfl, rfl, rfl, fun _ => rfl, fun _ => rfl⟩
  rcases Array.mem_or_eq_of_mem_setIfInBounds mem with mem | rfl
  · exact base.lanes q mem
  · exact sound

/-- Replacing a queue by itself changes nothing that is seen. -/
theorem world_set_self {target : WorkerId} {q : Queue.Shared Task}
    (found : m.queues[target]? = some q) :
    world { m with queues := m.queues.setIfInBounds target q } = m.world := by
  obtain ⟨contents, published, held⟩ := world_of_found found
  rw [world_setQueue found, ← contents, ← published, ← held, Function.update_eq_self,
    Function.update_eq_self, Function.update_eq_self]

/-- What is seen after the lock of a queue has been taken or given back. -/
theorem world_setHeld {target : WorkerId} {q : Queue.Shared Task}
    (found : m.queues[target]? = some q) (held : Bool) :
    world { m with queues := m.queues.setIfInBounds target { q with held := held } } =
      m.world.setHeld target held := by
  obtain ⟨contents, published, -⟩ := world_of_found found
  rw [world_setQueue found, ← contents, ← published, Function.update_eq_self,
    Function.update_eq_self]
  rfl

/-- What is seen after the lanes of a queue have changed. -/
theorem world_setLanes {target : WorkerId} {q : Queue.Shared Task}
    (found : m.queues[target]? = some q) (lanes : Queue.Lanes Task) :
    world { m with queues := m.queues.setIfInBounds target { q with lanes := lanes } } =
      m.world.setQueue target lanes.contents := by
  obtain ⟨-, published, held⟩ := world_of_found found
  rw [world_setQueue found, ← published, ← held, Function.update_eq_self, Function.update_eq_self]
  rfl

/-- What is seen after the length of a queue has been published. -/
theorem Base.world_publish (base : m.Base) {target : WorkerId} {q : Queue.Shared Task}
    (found : m.queues[target]? = some q) :
    world { m with queues := m.queues.setIfInBounds target { q with published := q.lanes.size } } =
      m.world.publish target := by
  obtain ⟨contents, -, held⟩ := world_of_found found
  rw [world_setQueue found, (base.lanes q (Array.mem_of_getElem? found)).size_eq, ← contents,
    ← held, Function.update_eq_self, Function.update_eq_self]
  rfl

/-- A queue that there is not is outside of the pool. -/
theorem le_of_missing {target : WorkerId} (missing : m.queues[target]? = none) :
    m.world.size ≤ target := Array.getElem?_eq_none_iff.1 missing

/-- A queue that there is belongs to a worker. -/
theorem lt_of_found {target : WorkerId} {q : Queue.Shared Task}
    (found : m.queues[target]? = some q) : target < m.world.size :=
  (Array.getElem?_eq_some_iff.1 found).1

/-- A step of putting a task into a queue. -/
theorem Base.leads_storing (base : m.Base) (target : WorkerId) {p : Queue.Progress Task}
    (storing : p.Storing) :
    Leads m (p.items target) [] Queue.Progress.Storing (Queue.Progress.items target)
      (fun after _ => Deed m.world (p.items target) [] after.world [])
      (fun after => after = m ∧ Stray m.world (p.items target)) (m.queueStep target p) := by
  unfold queueStep
  cases found : m.queues[target]? with
  | none =>
      have outside := le_of_missing found
      refine .fails _ base.passes ⟨rfl, ?_⟩
      cases storing with
      | acquire t => exact .bound List.mem_cons_self outside
      | change t => exact .guard List.mem_cons_self outside
      | publish => exact .guard List.mem_cons_self outside
      | release => exact .guard List.mem_cons_self outside
  | some q =>
      have lanes := base.lanes q (Array.mem_of_getElem? found)
      have inside := lt_of_found found
      cases storing with
      | acquire t =>
          cases held : q.held with
          | false =>
              simp only [Queue.Progress.step, held]
              refine .goes (base.passes_setQueue target lanes) (.change t) ?_
              rw [world_setHeld found]
              exact .acquire inside ((world_of_found found).2.2.trans held)
          | true =>
              simp only [Queue.Progress.step, held]
              exact .waits
      | change t =>
          obtain ⟨l, pushed, sound, same⟩ := lanes.push t
          simp only [Queue.Progress.step, Queue.Request.apply, pushed, Except.map]
          refine .goes (base.passes_setQueue target sound) .publish ?_
          rw [world_setLanes found]
          rw [← (world_of_found found).1] at same
          exact .store same
      | publish =>
          simp only [Queue.Progress.step]
          refine .goes (base.passes_setQueue target lanes) .release ?_
          rw [base.world_publish found]
          exact .publish
      | release =>
          simp only [Queue.Progress.step]
          refine .ends (base.passes_setQueue target lanes) ?_
          rw [world_setHeld found]
          exact .unguard

/-- A step of taking a task out of a queue. -/
theorem Base.leads_taking (base : m.Base) (target : WorkerId) {p : Queue.Progress Task}
    {r : Queue.Request Task} (takes : r.Takes) (taking : p.Taking r) :
    Leads m (p.items target) [] (Queue.Progress.Taking r) (Queue.Progress.items target)
      (fun after x => Deed m.world (p.items target) [] after.world (looseItems x.toList))
      (fun after => Deed m.world (p.items target) [] after.world []) (m.queueStep target p) := by
  unfold queueStep
  cases found : m.queues[target]? with
  | none =>
      have outside := le_of_missing found
      refine .fails _ base.passes ?_
      cases taking with
      | measure => cases takes <;> exact .still
      | acquire => cases takes <;> exact .still
      | change =>
          cases takes <;> exact .strands (.guard List.mem_cons_self outside) (List.nil_sublist _)
      | publish x => exact .strands (.guard List.mem_cons_self outside) (List.nil_sublist _)
      | release x => exact .strands (.guard List.mem_cons_self outside) (List.nil_sublist _)
  | some q =>
      have lanes := base.lanes q (Array.mem_of_getElem? found)
      have inside := lt_of_found found
      cases taking with
      | measure =>
          simp only [Queue.Progress.step]
          by_cases empty : q.published = 0
          · simp only [if_pos empty]
            refine .ends (base.passes_setQueue target lanes) ?_
            rw [world_set_self found]
            cases takes <;> exact .still
          · simp only [if_neg empty]
            refine .goes (base.passes_setQueue target lanes) .acquire ?_
            rw [world_set_self found]
            cases takes <;> exact .still
      | acquire =>
          cases held : q.held with
          | false =>
              simp only [Queue.Progress.step, held]
              refine .goes (base.passes_setQueue target lanes) .change ?_
              rw [world_setHeld found]
              have free := (world_of_found found).2.2.trans held
              cases takes <;> exact .acquire inside free
          | true =>
              cases takes with
              | pop =>
                  simp only [Queue.Progress.step, held]
                  exact .waits
              | steal =>
                  -- a thief does not wait for the lock
                  simp only [Queue.Progress.step, held]
                  refine .ends (base.passes_setQueue target lanes) ?_
                  rw [world_set_self found]
                  exact .still
      | change =>
          have contents := (world_of_found found).1
          cases takes with
          | pop =>
              obtain ⟨x, l, popped, sound, same, -⟩ := lanes.pop
              simp only [Queue.Progress.step, Queue.Request.apply, popped, Except.map]
              refine .goes (base.passes_setQueue target sound) (.publish x) ?_
              rw [world_setLanes found]
              exact .fetch_alone (by rw [contents, same])
          | steal =>
              obtain ⟨x, l, stolen, sound, same, -⟩ := lanes.steal
              simp only [Queue.Progress.step, Queue.Request.apply, stolen, Except.map]
              refine .goes (base.passes_setQueue target sound) (.publish x) ?_
              rw [world_setLanes found]
              exact .fetch_alone (contents ▸ same)
      | publish x =>
          simp only [Queue.Progress.step]
          refine .goes (base.passes_setQueue target lanes) (.release x) ?_
          rw [base.world_publish found]
          exact .publish
      | release x =>
          simp only [Queue.Progress.step]
          refine .ends (base.passes_setQueue target lanes) ?_
          rw [world_setHeld found]
          exact .unguard

/-! ## Handles -/

/-- Changing the handles leaves the workers where they are. -/
theorem Base.passes_handles (base : m.Base) {hs : Handles} (sound : hs.Sound) :
    m.Passes { m with handles := hs } :=
  ⟨⟨⟨sound, base.lanes⟩, rfl, rfl, fun _ => rfl, fun _ => rfl⟩, rfl, rfl, rfl, rfl, fun _ => rfl,
    fun _ => rfl⟩

/-- What is seen after one handle has changed. -/
theorem world_setUnit {hs : Handles} {h : HandleId} {u : Handle.View Task}
    (size : hs.units.size = m.handles.units.size) (seen : hs.view = update m.handles.view h u) :
    world { m with handles := hs } = m.world.setUnit h u := by
  unfold world World.setUnit
  simp only [seen, size]
  rfl

/-- What is seen after an operation on a handle that has changed nothing. -/
theorem world_handles {hs : Handles} (size : hs.units.size = m.handles.units.size)
    (seen : hs.view = m.handles.view) : world { m with handles := hs } = m.world := by
  unfold world
  simp only [seen, size]
  rfl

/-- An operation on one handle makes no new ones. -/
theorem size_of_run {α : Type} {hs after : Handles} {h : HandleId} {result : Except Failure α}
    {operation : Handle Task → Except Handle.Fault α × Handle Task}
    (ran : hs.run h operation = (result, after)) : after.units.size = hs.units.size := by
  have size := Handles.size_run hs h operation
  rwa [ran] at size

/-- A step of vetting a task. -/
theorem Base.leads_vetting (base : m.Base) (v : Vetting) :
    Leads m [.loose v.task] [] (fun _ => True) (fun v => [.loose v.task])
      (fun after x => match x with
        | some t => after = m ∧ t = v.task ∧ t.blocker? = none
        | none => Deed m.world [.loose v.task] [] after.world [])
      (fun _ => Fault m.world [.loose v.task]) (m.vetStep v) := by
  unfold vetStep
  cases v with
  | look t =>
      simp only [Vetting.step]
      cases blocked : t.blocker? with
      | none => exact .ends base.passes ⟨rfl, rfl, blocked⟩
      | some d =>
          simp only
          refine .goes base.passes trivial ?_
          by_cases met : m.handles.meets d = true
          · rw [if_pos met]
            exact .mark blocked ((base.handles d.handle).isReady_iff.1 met)
          · rw [if_neg met]
            exact .still
  | park t =>
      simp only [Vetting.step]
      cases blocked : t.blocker? with
      | none => exact .ends base.passes ⟨rfl, rfl, blocked⟩
      | some d =>
          simp only
          cases ran : m.handles.run d.handle (·.register t d.version) with
          | mk result hs =>
              have size := size_of_run ran
              cases result with
              | error f =>
                  obtain ⟨sound, -, unused⟩ := base.handles.register_error ran
                  exact .fails _ (base.passes_handles sound)
                    (.wait List.mem_cons_self blocked unused)
              | ok r =>
                  cases r with
                  | parked =>
                      obtain ⟨sound, seen, unmet, used⟩ := base.handles.register ran
                      refine .ends (base.passes_handles sound) ?_
                      rw [world_setUnit size seen]
                      exact .park blocked unmet used
                  | handedBack back =>
                      obtain ⟨sound, seen, rfl, met⟩ := base.handles.handedBack ran
                      refine .goes (base.passes_handles sound) trivial ?_
                      rw [world_handles size seen]
                      exact .mark blocked met

/-! ## Handing a task in -/

/-- A task that is pinned to a worker of the pool is bound for a worker of the pool. -/
theorem routeOf_lt {size : Nat} {origin : WorkerId} (home : origin < size) {t : Task}
    (pins : ∀ q ∈ t.pin, q < size) : routeOf origin t < size := by
  unfold routeOf
  cases pinned : t.pin with
  | none => exact home
  | some q => exact pins q pinned

/-- A pinned task is bound for the worker to which it is pinned. -/
theorem routeOf_of_pin {origin q : WorkerId} {t : Task} (pinned : q ∈ t.pin) :
    routeOf origin t = q := by
  rw [routeOf, Option.mem_def.1 pinned, Option.getD_some]

/-- A step of handing a task in. -/
theorem Base.leads_submission (base : m.Base) {origin : WorkerId} (home : origin < m.size)
    {s : Submission} (seated : s.Seated) :
    Leads m s.items (s.moments m) Submission.Seated Submission.items
      (fun after _ => Deed m.world s.items (s.moments m) after.world [])
      (fun after => Deed m.world s.items (s.moments m) after.world []) (m.submitStep origin s) := by
  cases seated with
  | build d =>
      cases next : d.pending with
      | nil =>
          simp only [submitStep, Submission.moments, Draft.step, next]
          exact .goes base.passes (Submission.Seated.arrive _) (.built next)
      | cons a pending =>
          cases ran : m.handles.run a.handle (·.schedule a.kind) with
          | mk result hs =>
              have size := size_of_run ran
              simp only [submitStep, Submission.moments, Draft.step, next, ran]
              cases result with
              | error f =>
                  obtain ⟨sound, seen⟩ := base.handles.schedule_error ran
                  refine .fails _ (base.passes_handles sound) ?_
                  rw [world_handles size seen]
                  exact .unbuilt
              | ok v =>
                  obtain ⟨sound, inside, offered, seen⟩ := base.handles.schedule ran
                  refine .goes (base.passes_handles sound) (Submission.Seated.build _) ?_
                  rw [world_setUnit size seen]
                  exact .schedule next inside offered
  | arrive t =>
      cases outside : t.pin.filter (m.size ≤ ·) with
      | some worker =>
          simp only [submitStep, Submission.moments, outside]
          exact .fails _ base.passes .refused
      | none =>
          have pins : ∀ q ∈ t.pin, q < m.size := by
            intro q pinned
            rw [Option.filter_eq_none_iff] at outside
            simpa using outside q pinned
          simp only [submitStep, Submission.moments, outside, Option.isNone_none, if_true]
          cases m.readiness with
          | eager => exact .goes base.passes (Submission.Seated.vet _ _) (.accept pins)
          | lazy =>
              exact .goes base.passes (Submission.Seated.enqueue _ (.acquire t))
                (.acceptLazily pins (routeOf_lt home pins) fun q => routeOf_of_pin)
  | vet label v =>
      show Leads m ([.loose v.task] ++ []) [] _ _ _ _ (onward _ _ _)
      refine (base.leads_vetting v).onward (fun _ _ => Submission.Seated.vet _ _) (fun _ => rfl) ?_
        fun after _ fault => .broken fault
      intro after result passes done
      cases result with
      | none => exact .ends (passes.tell _) done
      | some t =>
          obtain ⟨rfl, rfl, met⟩ := done
          exact .goes passes (Submission.Seated.enqueue _ (.acquire _)) (.route met home)
  | enqueue target storing =>
      rename_i p
      show Leads m (p.items target) [] _ _ _ _ (onward _ _ _)
      rw [← List.append_nil (p.items target)]
      refine (base.leads_storing target storing).onward
        (fun _ storing => Submission.Seated.enqueue target storing)
        (fun _ => (List.append_nil _).symm) ?_ ?_
      · intro after result passes done
        exact .ends passes done
      · intro after fault failed
        obtain ⟨same, stray⟩ := failed
        rw [same]
        exact .strands stray (List.nil_sublist _)

/-! ## Running a task -/

/-- Beginning a task makes a draft with its number, of accesses to different handles. -/
theorem Base.begin_eq_ok (base : m.Base) {b : Blueprint Act} {d : Draft} {after : Machine}
    (began : m.begin b = (.ok d, after)) :
    m.Passes after ∧ after.world = m.world.begin ∧ d.serial = m.world.begun ∧ d.resolved = [] ∧
      (d.pending.map Access.Located.handle).Nodup := by
  unfold begin Blueprint.draft at began
  cases located : m.handles.locate b.accesses with
  | error f =>
      rw [located] at began
      cases began
  | ok accesses =>
      rw [located] at began
      obtain ⟨drafted, rfl⟩ := Prod.mk.inj began
      cases drafted
      have passes : m.Passes { m with begun := m.begun + 1 } :=
        ⟨⟨⟨base.handles, base.lanes⟩, rfl, rfl, fun _ => rfl, fun _ => rfl⟩, rfl, rfl, rfl, rfl,
          fun _ => rfl, fun _ => rfl⟩
      exact ⟨passes, rfl, rfl, rfl, Handles.nodup_locate located⟩

/-- Beginning a task that cannot be begun changes nothing. -/
theorem begin_eq_error {b : Blueprint Act} {f : Failure} {after : Machine}
    (began : m.begin b = (.error f, after)) : after = m := by
  unfold begin at began
  cases drafted : b.draft m.handles m.begun with
  | error e =>
      rw [drafted] at began
      exact (Prod.mk.inj began).2.symm
  | ok d =>
      rw [drafted] at began
      cases began

/-- A task that is taken out of those that are kept is one of them. -/
theorem Base.passes_pick (base : m.Base) {serial : Nat} {t : Task} {after : Machine}
    (picked : m.pick serial = some (t, after)) :
    m.Passes after ∧ ∃ ts, m.world.kept.Perm (t :: ts) ∧ after.world = m.world.setKept ts := by
  obtain ⟨-, ts, same, rfl⟩ := pick_eq_some picked
  exact ⟨⟨⟨⟨base.handles, base.lanes⟩, rfl, rfl, fun _ => rfl, fun _ => rfl⟩, rfl, rfl, rfl, rfl,
    fun _ => rfl, fun _ => rfl⟩, ts, same, rfl⟩

/-- An act that is done in one step is of no matter to tasks. -/
theorem Base.passes_actStep (base : m.Base) {id : WorkerId} {a : Act} {after : Machine}
    {outcome : Outcome} (acted : m.actStep id a = some (after, outcome)) :
    m.Passes after ∧ after.world = m.world := by
  have scratch : ∀ bytes, m.Passes (m.setScratch id bytes) := fun bytes =>
    base.passes_modify id (fun _ => ⟨rfl, rfl⟩) fun _ => rfl
  unfold actStep at acted
  split at acted
  case h_1 | h_2 =>
    split at acted <;> cases acted <;> exact ⟨base.passes, rfl⟩
  case h_3 | h_5 =>
    cases acted
    exact ⟨scratch _, rfl⟩
  case h_10 | h_11 | h_12 => cases acted
  all_goals
    cases acted
    exact ⟨base.passes, rfl⟩

/-- A step through the acts of a task. -/
theorem Base.leads_acts (base : m.Base) {id : WorkerId} {f : Frame} {acts : List Act}
    {results : List Outcome} {r : Machine × Turn Execution Unit}
    (acting : m.Acts id f acts results r) {ends : Machine → Unit → Prop} {fails : Machine → Prop} :
    Leads m [.running f .working] ((Execution.act f acts results).moments m) Execution.Seated
      Execution.items ends fails r := by
  cases acting with
  | returns => exact .goes (base.passes.tell _) trivial .finish
  | aborts => exact .aborts base.passes .still
  | unbegun began =>
      obtain rfl := begin_eq_error began
      exact .goes base.passes trivial .still
  | @begins b acts results d after began =>
      obtain ⟨passes, same, serial, resolved, distinct⟩ := base.begin_eq_ok began
      refine .goes passes (Submission.Seated.build d) ?_
      rw [same]
      exact .begin d serial resolved distinct
  | unpicked => exact .goes base.passes trivial .still
  | @picks serial acts results t after picked =>
      obtain ⟨passes, ts, same, seen⟩ := base.passes_pick picked
      refine .goes passes (Submission.Seated.arrive t) ?_
      rw [seen]
      exact .pick same
  | @does a acts results after o acted =>
      obtain ⟨passes, same⟩ := base.passes_actStep acted
      have nothing : (Execution.act f (a :: acts) results).moments m = [] := rfl
      refine .goes passes trivial ?_
      rw [nothing, same]
      exact .still

/-- The tasks that have been woken are in hand until they are vetted. -/
theorem items_releasing (f : Frame) (todo : List Dependency) (woken : List Task) :
    (releasing f todo woken).items = looseItems woken ++ [.running f (.releasing todo)] := by
  cases woken <;> rfl

/-- A task goes on with its releases. -/
theorem seated_releasing (f : Frame) (todo : List Dependency) (woken : List Task) :
    (releasing f todo woken).Seated := by
  cases woken <;> trivial

/-- A step of running a task. -/
theorem Base.leads_execution (base : m.Base) {id : WorkerId} (inside : id < m.size) {e : Execution}
    (seated : e.Seated) :
    Leads m e.items (e.moments m) Execution.Seated Execution.items
      (fun after _ => Deed m.world e.items (e.moments m) after.world [])
      (fun after => Deed m.world e.items (e.moments m) after.world []) (m.executeStep id e) := by
  have executes := m.executes_executeStep id e
  generalize m.executeStep id e = r at executes
  cases executes with
  | @vets v _ _ vetted =>
      obtain ⟨passes, -, deed⟩ := (base.leads_vetting v).of_goes vetted
      exact .goes passes trivial deed
  | @unvetted v _ _ vetted =>
      obtain ⟨passes, fault⟩ := (base.leads_vetting v).of_fails vetted
      exact .fails _ passes (.broken fault)
  | @parks v _ vetted =>
      obtain ⟨passes, deed⟩ := (base.leads_vetting v).of_ends vetted
      exact .ends passes deed
  | @workless v _ t vetted none =>
      obtain ⟨passes, rfl, rfl, -⟩ := (base.leads_vetting v).of_ends vetted
      exact .fails _ passes (.broken (.work List.mem_cons_self none))
  | @takes v _ t work vetted some =>
      obtain ⟨passes, rfl, rfl, met⟩ := (base.leads_vetting v).of_ends vetted
      exact .goes passes trivial (.take met some)
  | starts => exact .goes base.passes trivial .start
  | @locks f acts h todo hs taken =>
      obtain ⟨sound, size, free, seen⟩ := base.handles.tryLock taken
      refine .goes (base.passes_handles sound) trivial ?_
      by_cases known : h < m.handles.units.size
      · rw [world_setUnit size (seen known)]
        exact .lock known free
      · exact .broken (.lock List.mem_cons_self (Nat.le_of_not_lt known))
  | barred => exact .waits
  | acts acting => exact base.leads_acts acting
  | @hands f acts results versions s s' after stepped =>
      obtain ⟨passes, fine, deed⟩ := (base.leads_submission inside seated).of_goes stepped
      exact .goes passes fine (deed.append _)
  | handed stepped =>
      obtain ⟨passes, deed⟩ := (base.leads_submission inside seated).of_ends stepped
      exact .goes passes trivial (deed.append _)
  | refused stepped =>
      obtain ⟨passes, deed⟩ := (base.leads_submission inside seated).of_fails stepped
      exact .goes passes trivial (deed.append _)
  | detained => exact .waits
  | unlocked held => exact .goes base.passes trivial (.unlocked held)
  | unlocks holds ran =>
      obtain ⟨locked, sound, seen⟩ := base.handles.unlock ran
      refine .goes (base.passes_handles sound) trivial ?_
      rw [world_setUnit (size_of_run ran) seen]
      exact .unlock holds locked
  | misunlocks holds ran =>
      obtain ⟨free, sound⟩ := base.handles.unlock_error ran
      exact .fails _ (base.passes_handles sound) (.broken (.unlock List.mem_cons_self holds free))
  | released => exact .goes base.passes trivial .still
  | @releases f d todo woken hs ran =>
      obtain ⟨here, holder, rfl, sound, seen⟩ := base.handles.advance ran
      simp only [Execution.moments, ran]
      refine .goes (base.passes_handles sound) (seated_releasing f todo _) ?_
      rw [world_setUnit (size_of_run ran) seen, items_releasing]
      exact .release here holder
  | misreleases ran =>
      obtain ⟨unheld, sound⟩ := base.handles.advance_error ran
      exact .fails _ (base.passes_handles sound) (.broken (.release List.mem_cons_self unheld))
  | @wakes f todo woken v _ _ vetted =>
      obtain ⟨passes, -, deed⟩ := (base.leads_vetting v).of_goes vetted
      exact .goes passes trivial (deed.append _)
  | @reparks f todo woken v _ vetted =>
      obtain ⟨passes, deed⟩ := (base.leads_vetting v).of_ends vetted
      refine .goes passes (seated_releasing f todo woken) ?_
      rw [items_releasing]
      exact Deed.append deed _
  | @routes f todo woken v t _ vetted =>
      obtain ⟨passes, rfl, rfl, met⟩ := (base.leads_vetting v).of_ends vetted
      exact .goes passes (Queue.Progress.Storing.acquire _) (.route met inside)
  | @unwoken f todo woken v _ _ vetted =>
      obtain ⟨passes, fault⟩ := (base.leads_vetting v).of_fails vetted
      exact .fails _ passes (.broken (fault.mono (List.subset_append_left _ _)))
  | @stores f todo woken target p p' _ stepped =>
      obtain ⟨passes, storing, deed⟩ := (base.leads_storing target seated).of_goes stepped
      exact .goes passes storing (deed.append _)
  | @stored f todo woken target p _ x stepped =>
      obtain ⟨passes, deed⟩ := (base.leads_storing target seated).of_ends stepped
      refine .goes passes (seated_releasing f todo woken) ?_
      rw [items_releasing]
      exact deed.append _
  | @misstores f todo woken target p _ _ stepped =>
      obtain ⟨passes, rfl, stray⟩ := (base.leads_storing target seated).of_fails stepped
      exact .fails _ passes
        (.strands (stray.mono (List.subset_append_left _ _)) (List.nil_sublist _))
  | withheld => exact .waits
  | disposes => exact .ends (base.passes.tell _) .dispose

/-! ## The barrier -/

/-- Nothing is no deed. -/
theorem Base.idles (base : m.Base) : m.Idles m := ⟨base.passes.toKeeps, rfl, rfl⟩

/-- The barrier is of no matter to tasks. -/
theorem Base.idles_barrier (base : m.Base) (b : Barrier.State) : m.Idles { m with barrier := b } :=
  ⟨⟨⟨base.handles, base.lanes⟩, rfl, rfl, fun _ => rfl, fun _ => rfl⟩, rfl, rfl⟩

/-- Taking note of a round is no deed. -/
theorem Base.idles_see (base : m.Base) (id : WorkerId) (round : UInt32) :
    m.Idles (m.see id round) := by
  have keeps : m.Keeps (m.see id round) := base.keeps_modify id fun _ => ⟨rfl, rfl⟩
  exact ⟨keeps, rfl, rfl⟩

/-- A step of a worker in a barrier round is no deed. -/
theorem Base.idles_serveStep (base : m.Base) (id : WorkerId) (seen : UInt32) (s : Service) :
    m.Idles (m.serveStep id seen s).1 := by
  unfold serveStep
  split
  · split
    · exact base.idles
    · split
      · exact base.idles
      · exact base.idles_see id _
  · exact base.idles
  · exact base.idles_barrier _
  · exact base.idles
  · split
    · exact base.idles_barrier _
    · exact base.idles
  · split <;> exact base.idles
  · exact base.idles
  · exact base.idles
  · exact base.idles

/-- A step of the leader in a barrier round is no deed. -/
theorem Base.idles_leadStep (base : m.Base) (id : WorkerId) (l : Lead) :
    m.Idles (m.leadStep id l).1 := by
  cases l with
  | read =>
      simp only [leadStep]
      split <;> exact base.idles
  | clear round => exact base.idles_barrier _
  | announce round => exact base.idles_barrier _
  | watchFlag round => exact base.idles
  | watchQueue round => exact base.idles
  | watchWord round =>
      simp only [leadStep]
      split <;> exact base.idles
  | survey round queue =>
      simp only [leadStep]
      split <;> exact base.idles
  | recheck round => exact base.idles
  | close round quiet => exact base.idles_barrier _

end Machine

end Pool

end AccessOrder
