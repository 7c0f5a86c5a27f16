/- # What workers go on with

What a worker or a caller may be in the middle of after a step, told from what it was in the middle
of before.  Outside of barrier rounds the barrier is left alone; the owner leads a round only when
it has found no task of its own, and tasks are handed in only after they have arrived.

* `Sound.next` : what comes after a step outside of barrier rounds.
-/
import AccessOrder.Proofs.Pool.Turns
namespace AccessOrder.Pool

open Machine (visiting afterTask)

namespace Machine

/-- What may come next outside of barrier rounds. -/
inductive Next (m : Machine) (id : WorkerId) : Control → Control → Prop where
  | same (c : Control) : Next m id c c
  | failed (c : Control) (f : Failure) : Next m id c (.failed f)
  /-- A task is handed in only after it has arrived. -/
  | submitting {s s' : Submission} : ((Control.submitting s').calling = true →
      (Control.submitting s).calling = true ∨ (Control.submitting s).arriving = true) →
      Next m id (.submitting s) (.submitting s')
  | submitted (s : Submission) : Next m id (.submitting s) .away
  | looping : Next m id .starting .looping
  | stopped : m.shutdown = true → Next m id .starting .away
  | leaving : m.shutdown = true → Next m id .looping .away
  | serving : Next m id .looping (.serving .look)
  | popping (p p' : Queue.Progress Task) : Next m id (.popping p) (.popping p')
  | popped (p : Queue.Progress Task) (e : Execution) : Next m id (.popping p) (.executing e)
  /-- A worker that does not lead looks for tasks in the queues of the others that it knows of. -/
  | searching (p : Queue.Progress Task) (victims : List WorkerId) :
      (m.dutyOf id).leads ≠ true → (∀ v ∈ victims, v < (m.traitsOf id).1) →
      Next m id (.popping p) (visiting victims)
  /-- An owner without workers has come to the end of the barrier. -/
  | finished (p : Queue.Progress Task) : (m.dutyOf id).leads = true → m.participants = 0 →
      Next m id (.popping p) .away
  /-- An owner that has workers and has found no task of its own leads a round. -/
  | leading (p : Queue.Progress Task) : (m.dutyOf id).leads = true → m.participants ≠ 0 →
      Next m id (.popping p) (.leading .read)
  | stealing (victim : WorkerId) (p p' : Queue.Progress Task) (rest : List WorkerId) :
      Next m id (.stealing victim p rest) (.stealing victim p' rest)
  | stolen (victim : WorkerId) (p : Queue.Progress Task) (rest : List WorkerId) (e : Execution) :
      Next m id (.stealing victim p rest) (.executing e)
  | visiting (victim : WorkerId) (p : Queue.Progress Task) (rest : List WorkerId) :
      Next m id (.stealing victim p rest) (visiting rest)
  | executing (e e' : Execution) : Next m id (.executing e) (.executing e')
  | executed (e : Execution) {duty : Duty} : (duty.leads = true ↔ (m.dutyOf id).leads = true) →
      Next m id (.executing e) (afterTask duty)

namespace Next

variable {m : Machine} {id : WorkerId} {c c' : Control}

/-- A worker that comes to a barrier round is about to read the word. -/
theorem eq_look {s : Service} (next : m.Next id c c') (serving : c' = .serving s)
    (unserving : c ≠ .serving s) : s = .look := by
  cases next with
  | same => exact absurd serving unserving
  | serving =>
      cases serving
      rfl
  | searching p victims => cases victims <;> cases serving
  | visiting victim p rest => cases rest <;> cases serving
  | executed e duty => cases ‹Duty› <;> cases serving
  | _ => cases serving

/-- A task is handed in only after it has arrived. -/
theorem calling (next : m.Next id c c') (called : c'.calling = true) :
    c.calling = true ∨ c.arriving = true := by
  cases next with
  | same => exact .inl called
  | submitting arrived => exact arrived called
  | searching p victims => cases victims <;> cases called
  | visiting victim p rest => cases rest <;> cases called
  | executed e duty => cases ‹Duty› <;> cases called
  | _ => cases called

end Next

variable {m : Machine}

/-- What a worker or a caller goes on with that leaves the barrier alone. -/
structure Goes (m : Machine) (id : WorkerId) (after : Machine) : Prop where
  barrier : after.barrier = m.barrier
  shutdown : after.shutdown = m.shutdown
  started : after.started = m.started
  traits : ∀ other, after.traitsOf other = m.traitsOf other
  /-- Only a worker that has drained its own queue counts the drain. -/
  duty : ∀ other, (other ≠ id ∨ ∀ p, m.controlOf id ≠ .popping p) →
    after.dutyOf other = m.dutyOf other
  next : m.Next id (m.controlOf id) (after.controlOf id)

/-- What a worker is in the middle of that has changed that. -/
theorem controlOf_setControl_self {after : Machine} {id : WorkerId} (crew : id < after.workers.size)
    (c : Control) : (after.setControl id c).controlOf id = c := by
  rw [controlOf_setControl, if_pos ⟨rfl, crew⟩]

/-- Changing what a worker is in the middle of has no bearing on what it knows. -/
theorem traitsOf_setControl (m : Machine) (id other : WorkerId) (c : Control) :
    (m.setControl id c).traitsOf other = m.traitsOf other :=
  traitsOf_modify (f := fun w => { w with control := c }) (fun _ _ => rfl) other

/-- Someone goes on with something else. -/
theorem Passes.goes {after : Machine} (passes : m.Passes after) {id : WorkerId}
    (crew : id < m.workers.size) {c : Control}
    (next : m.Next id (m.controlOf id) c) :
    m.Goes id (after.setControl id c) := by
  refine ⟨passes.barrier, passes.shutdown, passes.started, fun other => ?_, fun other _ => ?_, ?_⟩
  · rw [traitsOf_setControl, passes.traits]
  · rw [dutyOf_setControl, passes.duty]
  · rwa [controlOf_setControl_self (passes.crew.symm ▸ crew)]

/-- What is told has no bearing on what is gone on with. -/
theorem Goes.tell {id : WorkerId} {after : Machine} (goes : m.Goes id after) (e : Event) :
    m.Goes id (after.tell e) :=
  ⟨goes.barrier, goes.shutdown, goes.started, goes.traits, goes.duty, goes.next⟩

/-- A worker that has found its own queue empty goes on with the queues of others, or with a
round. -/
theorem Passes.goes_idleStep {ended : Machine} (passes : m.Passes ended) {id : WorkerId}
    {w : Worker} (found : m.workers[id]? = some w) {p : Queue.Progress Task}
    (now : m.controlOf id = .popping p) :
    m.Goes id (ended.idleStep id w) := by
  have crew : id < ended.workers.size := by
    rw [passes.crew]
    exact (Array.getElem?_eq_some_iff.1 found).1
  have duty := dutyOf_of_found found
  -- the worker goes on with `c`, and knows as much as before
  have goes : ∀ {f : Worker → Worker} {c : Control},
      (∀ u, ended.workers[id]? = some u → (f u).traits = u.traits) →
      m.Next id (m.controlOf id) c →
      m.Goes id (setControl { ended with workers := ended.workers.modify id f } id c) := by
    intro f c traits next
    refine ⟨passes.barrier, passes.shutdown, passes.started, fun other => ?_,
      fun other apart => ?_, ?_⟩
    · rw [traitsOf_setControl, traitsOf_modify traits, passes.traits]
    · have aside : other ≠ id := apart.resolve_right fun never => never p now
      rw [dutyOf_setControl, dutyOf_modify_of_ne aside, passes.duty]
    · rwa [controlOf_setControl_self (by simpa using crew)]
  -- whoever leads knows that it does
  have owner : ∀ {rounds : UInt32}, w.duty = .lead rounds → (m.dutyOf id).leads = true := by
    intro rounds which
    rw [duty, which]
    rfl
  have alone : ended.participants = m.participants := by
    rw [participants, participants, passes.size]
  have rests := ended.rests_idleStep id w
  generalize ended.idleStep id w = last at rests
  cases rests with
  | visits which =>
      have known : m.traitsOf id = w.traits := by rw [traitsOf, found, Option.elim_some]
      refine goes (fun u there => ?_) (now ▸ .searching p _ (fun leads => ?_) fun v visited => ?_)
      · have same := passes.traits id
        rw [traitsOf, there, Option.elim_some, known] at same
        exact Prod.ext (congrArg Prod.fst same).symm rfl
      · rw [duty, which] at leads
        cases leads
      · rw [known]
        exact (Thief.mem_victims.1 visited).1
  | overflows => exact passes.goes (passes.crew ▸ crew) (.failed _ _)
  | @returns rounds next which _ none =>
      refine Goes.tell (goes (f := fun w => { w with duty := .lead next }) (fun _ _ => rfl) ?_) _
      rw [now]
      exact .finished p (owner which) (alone.symm.trans none)
  | leads which _ some =>
      exact goes (fun _ _ => rfl)
        (now ▸ .leading p (owner which) fun none => some (alone.trans none))

/-- What comes after a step of an activity. -/
theorem goes_of_leads {α β : Type} {xs : List Item} {ms : List Moment} {fine : α → Prop}
    {items : α → List Item} {ends : Machine → β → Prop} {fails : Machine → Prop}
    {r : Machine × Turn α β} (leads : Leads m xs ms fine items ends fails r) {id : WorkerId}
    {wrap : α → Control} {finish : Machine → β → Machine} {after : Machine}
    (moved : proceed id wrap finish r = some after) (crew : id < m.workers.size)
    (next : ∀ a, r.2 = .goes a → m.Next id (m.controlOf id) (wrap a))
    (ended : ∀ ended b, m.Passes ended → m.Goes id (finish ended b)) : m.Goes id after := by
  cases leads with
  | waits => cases moved
  | goes passes fine deed =>
      cases moved
      exact passes.goes crew (next _ rfl)
  | ends passes result =>
      cases moved
      exact ended _ _ passes
  | fails f passes failure =>
      cases moved
      exact passes.goes crew (.failed _ f)
  | aborts passes deed =>
      cases moved
      refine ⟨passes.barrier, passes.shutdown, passes.started, passes.traits,
        fun other _ => passes.duty other, ?_⟩
      have same : ∀ c : Option Crash, controlOf { ‹Machine› with crash := c } id = m.controlOf id :=
        fun _ => passes.controls id
      rw [same]
      exact .same _

/-- A task that is being built is not handed in by the next step. -/
theorem not_calling_of_building {origin : WorkerId} {d : Draft} {s : Submission}
    (goes : (m.submitStep origin (.build d)).2 = .goes s) :
    (Control.submitting s).calling = false := by
  unfold submitStep at goes
  simp only at goes
  split at goes
  · cases goes
  · cases goes
    rfl
  · cases goes
    rfl

/-- Handing a task in goes on. -/
theorem calling_of_submitStep {origin : WorkerId} {s s' : Submission}
    (goes : (m.submitStep origin s).2 = .goes s')
    (calling : (Control.submitting s').calling = true) :
    (Control.submitting s).calling = true ∨ (Control.submitting s).arriving = true := by
  cases s with
  | build d =>
      rw [not_calling_of_building goes] at calling
      cases calling
  | arrive t => exact .inr rfl
  | vet label v => exact .inl rfl
  | enqueue target p => exact .inl rfl

/-- What comes after a step outside of barrier rounds. -/
theorem Sound.next (sound : m.Sound) {id : WorkerId} {after : Machine}
    (stepped : m.step id = some after) (unserving : ∀ s, m.controlOf id ≠ .serving s)
    (unleading : ∀ l, m.controlOf id ≠ .leading l) : m.Goes id after := by
  have base := sound.toBase
  have seated := sound.seated id
  obtain ⟨w, found, steps⟩ := step_cases stepped
  have crew : id < m.workers.size := (Array.getElem?_eq_some_iff.1 found).1
  have duty := dutyOf_of_found found
  generalize now : m.controlOf id = c at steps seated
  cases steps with
  | @submitting s _ moved =>
      refine goes_of_leads (base.leads_submission (home_lt sound.manned id) seated.2) moved
        crew (fun s' goes => ?_) fun ended _ passes => passes.goes crew ?_
      · rw [now]
        exact .submitting (calling_of_submitStep goes)
      · rw [now]
        exact .submitted s
  | started => exact base.passes.goes crew (now ▸ .looping)
  | stopped down => exact base.passes.goes crew (now ▸ .stopped down)
  | looping =>
      refine base.passes.goes crew ?_
      rw [now]
      split
      · next down => exact .leaving down
      · exact .serving
  | serving => exact absurd now (unserving _)
  | @popping p _ moved =>
      refine goes_of_leads (base.leads_taking id .pop seated.2) moved crew
        (fun p' _ => now ▸ .popping p p') fun ended x passes => ?_
      cases x with
      | some t => exact passes.goes crew (now ▸ .popped p _)
      | none => exact passes.goes_idleStep found now
  | @stealing victim p rest _ moved =>
      refine goes_of_leads (base.leads_taking victim .steal seated.2) moved crew
        (fun p' _ => now ▸ .stealing victim p p' rest) fun ended x passes => ?_
      cases x with
      | some t => exact passes.goes crew (now ▸ .stolen victim p rest _)
      | none => exact passes.goes crew (now ▸ .visiting victim p rest)
  | @executing e _ moved =>
      refine goes_of_leads (base.leads_execution seated.1 seated.2) moved crew
        (fun e' _ => now ▸ .executing e e') fun ended _ passes => passes.goes crew ?_
      rw [now]
      exact .executed e (by rw [duty])
  | leading => exact absurd now (unleading _)

/-- Only the owner leads a round. -/
theorem Sound.owner_of_leading (sound : m.Sound) {id : WorkerId} {l : Lead}
    (now : m.controlOf id = .leading l) : id = 0 := by
  have seated := sound.seated id
  rw [now] at seated
  exact seated

end Machine

end AccessOrder.Pool
