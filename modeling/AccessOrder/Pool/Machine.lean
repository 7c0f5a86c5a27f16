/- # A pool of workers

The shared state of a pool and one atomic step of each activity of its workers.  A step of an
activity either has to wait, goes on to the next stage, ends with a result, or fails; it is a
function of the machine, so that a run of the pool is nothing but the order in which the workers
take their steps.

* `pick_eq_some` : a task that is taken out of those that are kept is one of them;
* `step_eq_none_of_crash` : nothing happens any more once the process has been taken down.
-/
import AccessOrder.Pool.Control
import AccessOrder.Options.Basic
namespace AccessOrder.Pool

/-- The handles and the pool, with everything its workers share. -/
structure Machine where
  handles : Handles
  /-- How many tasks have been begun. -/
  begun : Nat
  /-- The tasks that have been built and are kept, to be handed in later. -/
  kept : List Task
  queues : Array (Queue.Shared Task)
  barrier : Barrier.State
  /-- Whether the workers may start. -/
  started : Bool
  /-- Whether the workers are to stop. -/
  shutdown : Bool
  readiness : Readiness
  disposal : Disposal
  workers : Array Worker
  /-- What has happened, the last event first. -/
  events : List Event
  crash : Option Crash

/-- What comes of a step of an activity. -/
inductive Turn (α β : Type) where
  /-- Nothing can be done now. -/
  | waits
  | goes (next : α)
  | ends (result : β)
  | fails (failure : Failure)
  /-- The work of a task with this label is broken off. -/
  | aborts (label : Option String)

/-- Goes on with an activity that is part of another one: `goes` places its next stage there, and
`ends` tells what happens when it ends. -/
def onward {α β γ δ : Type} (r : Machine × Turn α β) (goes : α → γ)
    (ends : Machine → β → Machine × Turn γ δ) : Machine × Turn γ δ :=
  match r with
  | (m, .waits) => (m, .waits)
  | (m, .goes next) => (m, .goes (goes next))
  | (m, .ends result) => ends m result
  | (m, .fails f) => (m, .fails f)
  | (m, .aborts label) => (m, .aborts label)

namespace Machine

/-- Records an event. -/
def tell (m : Machine) (e : Event) : Machine := { m with events := e :: m.events }

/-- Begins the task of a blueprint, with the next number. -/
def begin (m : Machine) (b : Blueprint Act) : Except Failure Draft × Machine :=
  match b.draft m.handles m.begun with
  | .error f => (.error f, m)
  | .ok draft => (.ok draft, { m with begun := m.begun + 1 })

/-- Takes a task out of those that are kept, by its number. -/
def pick (m : Machine) (serial : Nat) : Option (Task × Machine) :=
  (m.kept.find? (·.serial = serial)).map fun t =>
    (t, { m with kept := m.kept.eraseP (·.serial = serial) })

/-- The number of workers. -/
def size (m : Machine) : Nat := m.queues.size

/-- The length of a queue as it is read without its lock. -/
def queueLength (m : Machine) (id : WorkerId) : Nat :=
  match m.queues[id]? with
  | some q => q.published
  | none => 0

/-- The scratch buffer of a worker. -/
def scratch (m : Machine) (id : WorkerId) : List Nat :=
  match m.workers[id]? with
  | some w => w.scratch
  | none => []

/-- Changes the scratch buffer of a worker. -/
def setScratch (m : Machine) (id : WorkerId) (bytes : List Nat) : Machine :=
  { m with workers := m.workers.modify id fun w => { w with scratch := bytes } }

/-! ## Queues and vetting -/

/-- A step of an operation on a queue. -/
def queueStep (m : Machine) (target : WorkerId) (p : Queue.Progress Task) :
    Machine × Turn (Queue.Progress Task) (Option Task) :=
  match m.queues[target]? with
  | none => (m, .fails (.queueOutside m.queues.size target))
  | some q =>
    match p.step q with
    | .error f => (m, .fails (.sequence f))
    | .ok none => (m, .waits)
    | .ok (some (next, q)) =>
      let m := { m with queues := m.queues.setIfInBounds target q }
      match next with
      | .done result => (m, .ends result)
      | next => (m, .goes next)

/-- A step of vetting; it ends with the task if it is ready. -/
def vetStep (m : Machine) (v : Vetting) : Machine × Turn Vetting (Option Task) :=
  let r := v.step m.handles
  let m := { m with handles := r.2 }
  match r.1 with
  | .error f => (m, .fails f)
  | .ok (.more v) => (m, .goes v)
  | .ok (.ready t) => (m, .ends (some t))
  | .ok .parked => (m, .ends none)

/-- The worker for whose queue a task is meant: the one it is pinned to, or else `origin`. -/
def routeOf (origin : WorkerId) (t : Task) : WorkerId := t.pin.getD origin

/-! ## Handing a task in -/

/-- The first step on the way of a task into a queue. -/
def enqueueing (origin : WorkerId) (t : Task) : Submission :=
  .enqueue (routeOf origin t) (Queue.Request.push t).start

/-- A step of handing a task in on behalf of the worker `origin`. -/
def submitStep (m : Machine) (origin : WorkerId) : Submission → Machine × Turn Submission Unit
  | .build draft =>
    let r := draft.step m.handles
    let m := { m with handles := r.2 }
    match r.1 with
    | .error f => (m, .fails f)
    | .ok (.more draft) => (m, .goes (.build draft))
    | .ok (.built t) => (m, .goes (.arrive t))
  | .arrive t =>
    let outside := t.pin.filter (m.size ≤ ·)
    match outside with
    | some worker =>
      let reached := t.dependencies.map fun d => m.handles.reached d.handle
      (m, .fails (.pinOutside t reached worker m.size))
    | none =>
      match m.readiness with
      | .eager => (m, .goes (.vet t.label (.look t)))
      | .lazy => (m, .goes (enqueueing origin t))
  | .vet label v =>
    onward (m.vetStep v) (.vet label) fun m t =>
      match t with
      | some t => (m, .goes (enqueueing origin t))
      | none => (m.tell (.parked origin label), .ends ())
  | .enqueue target p => onward (m.queueStep target p) (.enqueue target) fun m _ => (m, .ends ())

/-! ## Acts -/

/-- What an act does that is done in one step; `none` for the acts that are not. -/
def actStep (m : Machine) (id : WorkerId) : Act → Option (Machine × Outcome)
  | .completed number =>
    match m.handles.lookUp number with
    | .ok h => some (m, .number (m.handles.reached h))
    | .error f => some (m, .failed f)
  | .probeLock number =>
    match m.handles.lookUp number with
    | .ok h => some (m, .flag (m.handles.tryLock h).1)
    | .error f => some (m, .failed f)
  | .scratchPush byte =>
    let bytes := m.scratch id ++ [byte]
    some (m.setScratch id bytes, .bytes bytes)
  | .scratch => some (m, .bytes (m.scratch id))
  | .scratchClear => some (m.setScratch id [], .nothing)
  | .borrowTwice => some (m, .refused)
  | .worker => some (m, .number id)
  | .workers => some (m, .number m.size)
  | .workerText => some (m, .text (Text.openRecord "Worker" [("id", toString id)]))
  | .spawn _ | .submit _ | .abort => none

/-- The versions of a task that has just been built. -/
def builtVersions (versions : List Version) : Submission → List Version
  | .arrive t => t.versions
  | _ => versions

/-- A step through the acts of a task. -/
def workStep (m : Machine) (id : WorkerId) (f : Frame) (acts : List Act) (results : List Outcome) :
    Machine × Turn Execution Unit :=
  match acts with
  | [] => (m.tell (.ran id f.name f.task results.reverse), .goes (.unlock f))
  | .abort :: _ => (m, .aborts f.task.label)
  | .spawn b :: acts =>
    match m.begin b with
    | (.error e, m) => (m, .goes (.act f acts (.failed e :: results)))
    | (.ok draft, m) => (m, .goes (.hand f acts results [] (.build draft)))
  | .submit serial :: acts =>
    match m.pick serial with
    | none => (m, .goes (.act f acts (.nothing :: results)))
    | some (t, m) => (m, .goes (.hand f acts results t.versions (.arrive t)))
  | a :: acts =>
    match m.actStep id a with
    | some (m, outcome) => (m, .goes (.act f acts (outcome :: results)))
    | none => (m, .goes (.act f acts results))

/-! ## Running a task -/

/-- A task whose dependencies are met gives its work away. -/
def takeWork (t : Task) : Except Failure Execution :=
  match t.work with
  | none => .error .workTaken
  | some work =>
    .ok (.lock ⟨{ t with work := none }, work.name, []⟩ work.acts t.lockHandles)

/-- Where a task goes on when the next version of its dependencies is to be released. -/
def releasing (f : Frame) (todo : List Dependency) : List Task → Execution
  | [] => .release f todo
  | t :: woken => .wake f todo woken (.look t)

/-- A step of running a task on a worker. -/
def executeStep (m : Machine) (id : WorkerId) : Execution → Machine × Turn Execution Unit
  | .vet v =>
    onward (m.vetStep v) .vet fun m t =>
      match t.map takeWork with
      | none => (m, .ends ())
      | some (.error f) => (m, .fails f)
      | some (.ok e) => (m, .goes e)
  | .lock f acts [] => (m, .goes (.act f acts []))
  | .lock f acts (h :: todo) =>
    match m.handles.tryLock h with
    | (true, handles) =>
      ({ m with handles := handles }, .goes (.lock { f with held := h :: f.held } acts todo))
    | (false, _) => (m, .waits)
  | .act f acts results => m.workStep id f acts results
  | .hand f acts results versions s =>
    match m.submitStep id s with
    | (m, .fails e) => (m, .goes (.act f acts (.failed e :: results)))
    | r =>
      onward r (fun s => .hand f acts results (builtVersions versions s) s) fun m _ =>
        (m, .goes (.act f acts (.versions versions :: results)))
  | .unlock ⟨t, name, []⟩ => (m, .goes (.release ⟨t, name, []⟩ t.dependencies))
  | .unlock ⟨t, name, h :: held⟩ =>
    match m.handles.run h Handle.unlock with
    | (.error e, handles) => ({ m with handles := handles }, .fails e)
    | (.ok _, handles) => ({ m with handles := handles }, .goes (.unlock ⟨t, name, held⟩))
  | .release f [] => (m, .goes (.dispose f))
  | .release f (d :: todo) =>
    match m.handles.run d.handle (·.advance d.version) with
    | (.error e, handles) => ({ m with handles := handles }, .fails e)
    | (.ok woken, handles) => ({ m with handles := handles }, .goes (releasing f todo woken))
  | .wake f todo woken v =>
    onward (m.vetStep v) (.wake f todo woken) fun m t =>
      match t with
      | none => (m, .goes (releasing f todo woken))
      | some t => (m, .goes (.requeue f todo woken (routeOf id t) (Queue.Request.push t).start))
  | .requeue f todo woken target p =>
    onward (m.queueStep target p) (.requeue f todo woken target) fun m _ =>
      (m, .goes (releasing f todo woken))
  | .dispose f => (m.tell (.disposed f.task m.disposal), .ends ())

/-! ## The barrier -/

/-- The number of workers that have to join a round: all but the leader. -/
def participants (m : Machine) : Nat := m.size - 1

/-- Where a worker goes on that has read a word in order to join a round. -/
def joining (m : Machine) (round : UInt32) (raw : UInt64) : Turn Service Unit :=
  match Barrier.State.joined raw round m.participants with
  | .error f => .fails (.barrier f)
  | .ok none => .ends ()
  | .ok (some next) => .goes (.swap round raw next)

/-- A worker takes note of a round that it has seen open. -/
def see (m : Machine) (id : WorkerId) (round : UInt32) : Machine :=
  { m with workers := m.workers.modify id fun w => { w with seenRound := round } }

/-- A step of a worker in a barrier round; `seen` is the last round it has seen. -/
def serveStep (m : Machine) (id : WorkerId) (seen : UInt32) :
    Service → Machine × Turn Service Unit
  | .look =>
    match m.barrier.load with
    | .error f => (m, .fails (.barrier f))
    | .ok w =>
      if w.phase = .idle ∨ w.round = seen then (m, .ends ())
      else (m.see id w.round, .goes (.measure w.round))
  | .measure round => (m, .goes (if m.queueLength id = 0 then .read round else .raise))
  | .raise => ({ m with barrier := m.barrier.abort }, .ends ())
  | .read round => (m, m.joining round m.barrier.word)
  | .swap round expected next =>
    match m.barrier.exchange expected next with
    | (true, b) => ({ m with barrier := b }, .goes (.watchWord round))
    | (false, _) => (m, m.joining round m.barrier.word)
  | .watchWord round =>
    match m.barrier.load with
    | .error f => (m, .fails (.barrier f))
    | .ok w => (m, if w.round ≠ round ∨ w.phase = .idle then .ends () else .goes (.watchFlag round))
  | .watchFlag round => (m, if m.barrier.aborted then .ends () else .goes (.watchQueue round))
  | .watchQueue round =>
    (m, .goes (if m.queueLength id = 0 then .watchShutdown round else .raise))
  | .watchShutdown round => (m, if m.shutdown then .ends () else .goes (.watchWord round))

/-- A step of the leader in a barrier round; it ends with whether the round was quiet. -/
def leadStep (m : Machine) (id : WorkerId) : Lead → Machine × Turn Lead Bool
  | .read =>
    match Barrier.State.nextRound m.barrier.word with
    | .error f => (m, .fails (.barrier f))
    | .ok round => (m, .goes (.clear round))
  | .clear round =>
    ({ m with barrier := { m.barrier with aborted := false } }, .goes (.announce round))
  | .announce round =>
    ({ m with barrier := { m.barrier with word := Barrier.State.fresh round .entering } },
      .goes (.watchFlag round))
  | .watchFlag round =>
    (m, .goes (if m.barrier.aborted then .close round false else .watchQueue round))
  | .watchQueue round =>
    (m, .goes (if m.queueLength id = 0 then .watchWord round else .close round false))
  | .watchWord round =>
    match m.barrier.load with
    | .error f => (m, .fails (.barrier f))
    | .ok w => (m, .goes (if w.phase = .draining then .survey round 0 else .watchFlag round))
  | .survey round queue =>
    if queue < m.size then
      (m, .goes (if m.queueLength queue = 0 then .survey round (queue + 1)
        else .close round false))
    else (m, .goes (.recheck round))
  | .recheck round => (m, .goes (.close round (!m.barrier.aborted)))
  | .close round quiet => ({ m with barrier := m.barrier.close round }, .ends quiet)

/-! ## Workers -/

/-- Changes what a worker is in the middle of. -/
def setControl (m : Machine) (id : WorkerId) (c : Control) : Machine :=
  { m with workers := m.workers.modify id fun w => { w with control := c } }

/-- A worker takes the next task of its own queue. -/
def popping : Control := .popping Queue.Request.pop.start

/-- Where a worker goes on that visits the queues of others in order. -/
def visiting : List WorkerId → Control
  | [] => .looping
  | victim :: rest => .stealing victim Queue.Request.steal.start rest

/-- Where a worker goes on after a task. -/
def afterTask : Duty → Control
  | .work => .looping
  | .lead _ => popping

/-- The number of drains with one more, unless there are more than can be counted. -/
def counted (rounds : UInt32) : Option UInt32 :=
  if rounds.toNat + 1 < UInt32.size then some (rounds + 1) else none

/-- What a worker does that has found its own queue empty. -/
def idleStep (m : Machine) (id : WorkerId) (w : Worker) : Machine :=
  match w.duty with
  | .work =>
    let thief := w.thief.next
    { m with
      workers := m.workers.modify id fun w =>
        { w with thief := thief, control := visiting thief.victims } }
  | .lead rounds =>
    match counted rounds with
    | none => m.setControl id (.failed .drainsUncounted)
    | some rounds =>
      let m := { m with workers := m.workers.modify id fun w => { w with duty := .lead rounds } }
      if m.participants = 0 then (m.setControl id .away).tell (.barrierCompleted rounds)
      else m.setControl id (.leading .read)

/-- The worker on whose behalf tasks are handed in from outside. -/
def home (m : Machine) (id : WorkerId) : WorkerId := if id < m.size then id else 0

/-- Goes on with an activity: `wrap` turns its next stage into what the worker is in the middle of,
and `finish` tells what happens when it ends. -/
def proceed {α β : Type} (id : WorkerId) (wrap : α → Control) (finish : Machine → β → Machine) :
    Machine × Turn α β → Option Machine
  | (_, .waits) => none
  | (m, .goes next) => some (m.setControl id (wrap next))
  | (m, .ends result) => some (finish m result)
  | (m, .fails f) => some (m.setControl id (.failed f))
  | (m, .aborts label) => some { m with crash := some ⟨id, label⟩ }

/-- One atomic step of a worker; `none` if it has to wait or has come to its end. -/
def step (m : Machine) (id : WorkerId) : Option Machine :=
  if m.crash.isSome then none
  else
    match m.workers[id]? with
    | none => none
    | some w =>
      match w.control with
      | .away | .failed _ => none
      | .submitting s =>
        proceed id .submitting (fun m _ => m.setControl id .away) (m.submitStep (m.home id) s)
      | .starting =>
        if m.started then some (m.setControl id .looping)
        else if m.shutdown then some (m.setControl id .away)
        else none
      | .looping => some (m.setControl id (if m.shutdown then .away else .serving .look))
      | .serving s =>
        proceed id .serving (fun m _ => m.setControl id popping) (m.serveStep id w.seenRound s)
      | .popping p =>
        proceed id .popping
          (fun m t =>
            match t with
            | some t => m.setControl id (.executing (.vet (.look t)))
            | none => m.idleStep id w)
          (m.queueStep id p)
      | .stealing victim p rest =>
        proceed id (.stealing victim · rest)
          (fun m t =>
            match t with
            | some t => m.setControl id (.executing (.vet (.look t)))
            | none => m.setControl id (visiting rest))
          (m.queueStep victim p)
      | .executing e =>
        proceed id .executing (fun m _ => m.setControl id (afterTask w.duty)) (m.executeStep id e)
      | .leading l =>
        proceed id .leading
          (fun m quiet =>
            match quiet, w.duty with
            | true, .lead rounds => (m.setControl id .away).tell (.barrierCompleted rounds)
            | _, _ => m.setControl id popping)
          (m.leadStep id l)

/-- A task that is taken out of those that are kept is one of them, and the others stay. -/
theorem pick_eq_some {m after : Machine} {serial : Nat} {t : Task}
    (picked : m.pick serial = some (t, after)) :
    t.serial = serial ∧ ∃ rest, m.kept.Perm (t :: rest) ∧ after = { m with kept := rest } := by
  obtain ⟨found, looked, same⟩ := Option.map_eq_some_iff.1 picked
  cases same
  obtain ⟨own, before, behind, split, others⟩ := List.find?_eq_some_iff_append.1 looked
  have rest : m.kept.eraseP (·.serial = serial) = before ++ behind := by
    rw [split, List.eraseP_append_right _ (by simpa using others), List.eraseP_cons, own, cond_true]
  refine ⟨of_decide_eq_true own, before ++ behind, ?_, by rw [rest]⟩
  rw [split]
  exact List.perm_middle

/-- Nothing happens any more once the process has been taken down. -/
theorem step_eq_none_of_crash {m : Machine} (h : m.crash.isSome = true) (id : WorkerId) :
    m.step id = none := by
  simp [step, h]

end Machine

end AccessOrder.Pool
