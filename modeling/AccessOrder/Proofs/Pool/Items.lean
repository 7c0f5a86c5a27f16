/- # What workers have in hand

The parts of a pool that matter to its tasks, and what a worker or a caller has in hand in the
middle of something: tasks, drafts and the locks of queues.  A `Deed` is all that one turn does to
them: it changes the `World`, replaces some of the items in hand and makes a moment of history.

* `Deed.append` : a deed leaves alone whatever else is in hand.
-/
import AccessOrder.Proofs.Pool.History
import AccessOrder.Proofs.Queue.Contents
import AccessOrder.Proofs.Task.Handles
namespace AccessOrder

namespace Pool

open Function (update)

/-- What the workers share, as far as it matters to tasks. -/
structure World where
  /-- The handles, version by version. -/
  units : HandleId → Handle.View Task
  /-- The number of handles. -/
  count : Nat
  /-- The number of tasks that have been begun. -/
  begun : Nat
  /-- The number of workers. -/
  size : Nat
  /-- The tasks that have been built and are kept. -/
  kept : List Task
  /-- The tasks in the queue of a worker. -/
  queue : WorkerId → List Task
  /-- The published length of a queue. -/
  published : WorkerId → Nat
  /-- Whether the lock of a queue is held. -/
  held : WorkerId → Bool

namespace World

/-- The world after a handle has changed. -/
def setUnit (w : World) (h : HandleId) (u : Handle.View Task) : World :=
  { w with units := update w.units h u }

/-- The world after the tasks in a queue have changed. -/
def setQueue (w : World) (q : WorkerId) (ts : List Task) : World :=
  { w with queue := update w.queue q ts }

/-- The world after the length of a queue has been published. -/
def publish (w : World) (q : WorkerId) : World :=
  { w with published := update w.published q (w.queue q).length }

/-- The world after the lock of a queue has been taken or given back. -/
def setHeld (w : World) (q : WorkerId) (held : Bool) : World :=
  { w with held := update w.held q held }

/-- The world after a task has been begun. -/
def begin (w : World) : World := { w with begun := w.begun + 1 }

/-- The world after the tasks that are kept have changed. -/
def setKept (w : World) (ts : List Task) : World := { w with kept := ts }

end World

/-- How far a task has come whose work has been taken to be done. -/
inductive Stage where
  /-- The locks of `todo` are still to be taken. -/
  | locking (todo : List HandleId)
  | working
  | unlocking
  /-- The versions of `todo` are still to be released. -/
  | releasing (todo : List Dependency)

/-- Something in the hands of a worker or a caller. -/
inductive Item where
  | draft (d : Draft)
  /-- A task that has been built and is not yet accepted. -/
  | arriving (t : Task)
  /-- A task that is being vetted, or is about to be. -/
  | loose (t : Task)
  /-- A task on its way into the queue of a worker. -/
  | bound (t : Task) (target : WorkerId)
  /-- The lock of a queue whose length is published, unless it has just been changed. -/
  | guard (queue : WorkerId) (changed : Bool)
  /-- A task that is being run. -/
  | running (f : Frame) (stage : Stage)

/-- Tasks that are to be vetted. -/
def looseItems (ts : List Task) : List Item := ts.map .loose

end Pool

open Pool (Item looseItems)

/-! ## What is in hand -/

/-- The task that is vetted. -/
def Vetting.task : Vetting → Task
  | .look t | .park t => t

/-- What is in hand on the way into or out of a queue. -/
def Queue.Progress.items (target : WorkerId) : Queue.Progress Task → List Item
  | .measure (.push t) | .acquire (.push t) => [.bound t target]
  | .measure _ | .acquire _ => []
  | .change (.push t) => [.guard target false, .bound t target]
  | .change _ => [.guard target false]
  | .publish x => .guard target true :: looseItems x.toList
  | .release x => .guard target false :: looseItems x.toList
  | .done x => looseItems x.toList

namespace Pool

/-- What is in hand while a task is handed in. -/
def Submission.items : Submission → List Item
  | .build d => [.draft d]
  | .arrive t => [.arriving t]
  | .vet _ v => [.loose v.task]
  | .enqueue target p => p.items target

/-- What is in hand while a task is run. -/
def Execution.items : Execution → List Item
  | .vet v => [.loose v.task]
  | .lock f _ todo => [.running f (.locking todo)]
  | .act f _ _ => [.running f .working]
  | .hand f _ _ _ s => s.items ++ [.running f .working]
  | .unlock f => [.running f .unlocking]
  | .release f todo => [.running f (.releasing todo)]
  | .wake f todo woken v =>
    .loose v.task :: (looseItems woken ++ [.running f (.releasing todo)])
  | .requeue f todo woken target p =>
    p.items target ++ (looseItems woken ++ [.running f (.releasing todo)])
  | .dispose f => [.running f (.releasing [])]

/-- What the worker or caller of a number has in hand. -/
def Control.items (id : WorkerId) : Control → List Item
  | .submitting s => s.items
  | .popping p => p.items id
  | .stealing victim p _ => p.items victim
  | .executing e => e.items
  | _ => []

namespace Machine

/-- What a worker or a caller has in hand. -/
def hands (m : Machine) (id : WorkerId) : List Item := (m.controlOf id).items id

/-- What the workers share. -/
def world (m : Machine) : World where
  units := m.handles.view
  count := m.handles.units.size
  begun := m.begun
  size := m.size
  kept := m.kept
  queue q := (m.queues[q]?).elim [] fun q => q.lanes.contents
  published q := (m.queues[q]?).elim 0 Queue.Shared.published
  held q := (m.queues[q]?).elim false Queue.Shared.held

end Machine

/-! ## Deeds -/

/-- What goes wrong with something in hand: a task that waits for a version that is not in use, or
that has no work; a lock of no handle; a lock given back that is not held; a release of a version
that is not the completed one or has no holder. -/
inductive Fault (w : World) (xs : List Item) : Prop where
  | wait {t : Task} {d : Dependency} : .loose t ∈ xs → t.blocker? = some d →
      ¬((w.units d.handle).completed ≤ d.version ∧ d.version < (w.units d.handle).frontier) →
      Fault w xs
  | work {t : Task} : .loose t ∈ xs → t.work = none → Fault w xs
  | lock {f : Frame} {h : HandleId} {todo : List HandleId} :
      .running f (.locking (h :: todo)) ∈ xs → w.count ≤ h → Fault w xs
  | unlock {f : Frame} {h : HandleId} {held : List HandleId} : .running f .unlocking ∈ xs →
      f.held = h :: held → (w.units h).locked = false → Fault w xs
  | release {f : Frame} {d : Dependency} {todo : List Dependency} :
      .running f (.releasing (d :: todo)) ∈ xs →
      ¬((w.units d.handle).completed = d.version ∧ 0 < (w.units d.handle).holders d.version) →
      Fault w xs

/-- Something in hand is on its way into a queue that is not there, or holds its lock. -/
inductive Stray (w : World) (xs : List Item) : Prop where
  | bound {t : Task} {target : WorkerId} : .bound t target ∈ xs → w.size ≤ target → Stray w xs
  | guard {q : WorkerId} {changed : Bool} : .guard q changed ∈ xs → w.size ≤ q → Stray w xs

/-- What would bring a worker to a fall. -/
inductive Broken (w : World) (xs : List Item) : Prop where
  | fault : Fault w xs → Broken w xs
  | stray : Stray w xs → Broken w xs

/-- What is done in one turn: the world and the items in hand before, what happens, and the world
and the items in hand after it. -/
inductive Deed : World → List Item → List Moment → World → List Item → Prop where
  /-- Nothing that matters. -/
  | still {w xs} : Deed w xs [] w xs
  /-- A task is begun. -/
  | begin {w xs} (d : Draft) : d.serial = w.begun → d.resolved = [] →
      (d.pending.map Access.Located.handle).Nodup → Deed w xs [] w.begin (.draft d :: xs)
  /-- An access gets its version. -/
  | schedule {w xs} {d : Draft} {a : Access.Located} {pending : List Access.Located}
      {v : Version} : d.pending = a :: pending → a.handle < w.count →
      (w.units a.handle).Offers a.kind v →
      Deed w (.draft d :: xs) [.scheduled d.serial ⟨a, v⟩]
        (w.setUnit a.handle ((w.units a.handle).scheduled a.kind v))
        (.draft (d.resolve a pending v) :: xs)
  /-- The building of a task fails. -/
  | unbuilt {w xs} {d : Draft} : Deed w (.draft d :: xs) [] w xs
  /-- A task has been built. -/
  | built {w xs} {d : Draft} : d.pending = [] →
      Deed w (.draft d :: xs) [] w (.arriving d.task :: xs)
  /-- A task that has been built is kept. -/
  | keep {w xs} {t : Task} : Deed w (.arriving t :: xs) [] (w.setKept (t :: w.kept)) xs
  /-- A task that is kept is about to be handed in. -/
  | pick {w xs} {t : Task} {ts : List Task} : w.kept.Perm (t :: ts) →
      Deed w xs [] (w.setKept ts) (.arriving t :: xs)
  /-- A task is accepted, and is to be vetted. -/
  | accept {w xs} {t : Task} : (∀ q ∈ t.pin, q < w.size) →
      Deed w (.arriving t :: xs) [.accepted t.serial] w (.loose t :: xs)
  /-- A task is accepted, and is to be queued at once. -/
  | acceptLazily {w xs} {t : Task} {target : WorkerId} : (∀ q ∈ t.pin, q < w.size) →
      target < w.size → (∀ q ∈ t.pin, target = q) →
      Deed w (.arriving t :: xs) [.accepted t.serial] w (.bound t target :: xs)
  /-- A task is refused. -/
  | refused {w xs} {t : Task} : Deed w (.arriving t :: xs) [] w xs
  /-- The next dependency of a task is met. -/
  | mark {w xs} {t : Task} {d : Dependency} : t.blocker? = some d →
      (w.units d.handle).completed = d.version →
      Deed w (.loose t :: xs) [] w (.loose t.mark :: xs)
  /-- A task is made to wait for its next dependency. -/
  | park {w xs} {t : Task} {d : Dependency} : t.blocker? = some d →
      (w.units d.handle).completed < d.version → d.version < (w.units d.handle).frontier →
      Deed w (.loose t :: xs) [] (w.setUnit d.handle ((w.units d.handle).parked t d.version)) xs
  /-- A task whose dependencies are met is to be queued. -/
  | route {w xs} {t : Task} {origin : WorkerId} : t.blocker? = none → origin < w.size →
      Deed w (.loose t :: xs) [] w (.bound t (Machine.routeOf origin t) :: xs)
  /-- The lock of a queue is taken. -/
  | acquire {w xs} {q : WorkerId} : q < w.size → w.held q = false →
      Deed w xs [] (w.setHeld q true) (.guard q false :: xs)
  /-- A task is put into a queue. -/
  | store {w xs} {t : Task} {q : WorkerId} {ts : List Task} : ts.Perm (t :: w.queue q) →
      Deed w (.guard q false :: .bound t q :: xs) [] (w.setQueue q ts) (.guard q true :: xs)
  /-- A queue is searched for a task. -/
  | fetch {w xs} {x : Option Task} {q : WorkerId} {ts : List Task} :
      (w.queue q).Perm (x.toList ++ ts) →
      Deed w (.guard q false :: xs) [] (w.setQueue q ts)
        (.guard q true :: (looseItems x.toList ++ xs))
  /-- The length of a queue is published. -/
  | publish {w xs} {q : WorkerId} :
      Deed w (.guard q true :: xs) [] (w.publish q) (.guard q false :: xs)
  /-- The lock of a queue is given back. -/
  | unguard {w xs} {q : WorkerId} : Deed w (.guard q false :: xs) [] (w.setHeld q false) xs
  /-- The work of a task is taken to be done. -/
  | take {w xs} {t : Task} {work : Work} : t.blocker? = none → t.work = some work →
      Deed w (.loose t :: xs) [] w
        (.running ⟨{ t with work := none }, work.name, []⟩ (.locking t.lockHandles) :: xs)
  /-- The lock of a handle is taken. -/
  | lock {w xs} {f : Frame} {h : HandleId} {todo : List HandleId} : h < w.count →
      (w.units h).locked = false →
      Deed w (.running f (.locking (h :: todo)) :: xs) []
        (w.setUnit h ((w.units h).latched true))
        (.running { f with held := h :: f.held } (.locking todo) :: xs)
  /-- The work of a task begins. -/
  | start {w xs} {f : Frame} :
      Deed w (.running f (.locking []) :: xs) [.started f.task.serial] w (.running f .working :: xs)
  /-- The work of a task is done. -/
  | finish {w xs} {f : Frame} :
      Deed w (.running f .working :: xs) [.returned f.task.serial] w (.running f .unlocking :: xs)
  /-- The lock of a handle is given back. -/
  | unlock {w xs} {f : Frame} {h : HandleId} {held : List HandleId} : f.held = h :: held →
      (w.units h).locked = true →
      Deed w (.running f .unlocking :: xs) [] (w.setUnit h ((w.units h).latched false))
        (.running { f with held := held } .unlocking :: xs)
  /-- All locks have been given back. -/
  | unlocked {w xs} {f : Frame} : f.held = [] →
      Deed w (.running f .unlocking :: xs) [] w (.running f (.releasing f.task.dependencies) :: xs)
  /-- The version of an access is released. -/
  | release {w xs} {f : Frame} {d : Dependency} {todo : List Dependency} :
      (w.units d.handle).completed = d.version → 0 < (w.units d.handle).holders d.version →
      Deed w (.running f (.releasing (d :: todo)) :: xs) [.released f.task.serial d]
        (w.setUnit d.handle ((w.units d.handle).released d.version))
        (looseItems ((w.units d.handle).woken d.version) ++ .running f (.releasing todo) :: xs)
  /-- A task is given up. -/
  | dispose {w xs} {f : Frame} :
      Deed w (.running f (.releasing []) :: xs) [.disposed f.task.serial] w xs
  /-- A worker falls that looks for a queue that is not there, and what it has in hand is lost. -/
  | strands {w xs ys} : Stray w xs → ys.Sublist xs → Deed w xs [] w ys
  /-- A worker falls. -/
  | broken {w xs ms w' ys} : Fault w xs → Deed w xs ms w' ys

/-- A queue is searched for a task by a worker that has nothing else in hand. -/
theorem Deed.fetch_alone {w : World} {q : WorkerId} {x : Option Task} {ts : List Task}
    (same : (w.queue q).Perm (x.toList ++ ts)) :
    Deed w [.guard q false] [] (w.setQueue q ts) (.guard q true :: looseItems x.toList) := by
  have deed : Deed w [.guard q false] [] _ (.guard q true :: (looseItems x.toList ++ [])) :=
    .fetch same
  rwa [List.append_nil] at deed

/-- What goes wrong does so whatever else is in hand. -/
theorem Fault.mono {w : World} {xs ys : List Item} (fault : Fault w xs) (sub : xs ⊆ ys) :
    Fault w ys := by
  cases fault with
  | wait mem blocked unused => exact .wait (sub mem) blocked unused
  | work mem none => exact .work (sub mem) none
  | lock mem outside => exact .lock (sub mem) outside
  | unlock mem held free => exact .unlock (sub mem) held free
  | release mem unheld => exact .release (sub mem) unheld

/-- What is on its way is so whatever else is in hand. -/
theorem Stray.mono {w : World} {xs ys : List Item} (stray : Stray w xs) (sub : xs ⊆ ys) :
    Stray w ys := by
  cases stray with
  | bound mem outside => exact .bound (sub mem) outside
  | guard mem outside => exact .guard (sub mem) outside

/-- What would bring a worker to a fall does so whatever else is in hand. -/
theorem Broken.mono {w : World} {xs ys : List Item} (broken : Broken w xs) (sub : xs ⊆ ys) :
    Broken w ys := by
  cases broken with
  | fault fault => exact .fault (fault.mono sub)
  | stray stray => exact .stray (stray.mono sub)

/-- Where nothing would bring a worker to a fall, nothing goes wrong. -/
theorem not_fault_of_unbroken {w : World} {xs : List Item} (unbroken : ¬Broken w xs) :
    ¬Fault w xs := fun fault => unbroken (.fault fault)

/-- A deed leaves alone whatever else is in hand. -/
theorem Deed.append {w w' : World} {xs ys : List Item} {ms : List Moment}
    (deed : Deed w xs ms w' ys)
    (zs : List Item) : Deed w (xs ++ zs) ms w' (ys ++ zs) := by
  cases deed with
  | still => exact .still
  | begin d serial resolved distinct => exact .begin d serial resolved distinct
  | schedule next inside offered => exact .schedule next inside offered
  | unbuilt => exact .unbuilt
  | built done => exact .built done
  | keep => exact .keep
  | pick same => exact .pick same
  | accept pins => exact .accept pins
  | acceptLazily pins inside pinned => exact .acceptLazily pins inside pinned
  | refused => exact .refused
  | mark blocked met => exact .mark blocked met
  | park blocked unmet used => exact .park blocked unmet used
  | route met inside => exact .route met inside
  | acquire inside free => exact .acquire inside free
  | store same => exact .store same
  | fetch same =>
      rw [List.cons_append, List.cons_append, List.append_assoc]
      exact .fetch same
  | publish => exact .publish
  | unguard => exact .unguard
  | take met some => exact .take met some
  | lock inside free => exact .lock inside free
  | start => exact .start
  | finish => exact .finish
  | unlock held locked => exact .unlock held locked
  | unlocked held => exact .unlocked held
  | release met holder =>
      rw [List.cons_append, List.append_assoc]
      exact .release met holder
  | dispose => exact .dispose
  | strands stray fewer =>
      exact .strands (stray.mono (List.subset_append_left _ _)) (fewer.append_right zs)
  | broken fault => exact .broken (fault.mono (List.subset_append_left _ _))

end Pool

end AccessOrder
