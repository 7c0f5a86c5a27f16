/- # The locks of handles

Workers that run tasks take the locks of the handles of a task one by one, in the order of the
addresses of the handles, hold them while the task works, and give them back afterwards.  Here they
take their steps in any order, and whatever else they do in between is left open.

* `lockOrder` : the order in which a task takes locks;
* `Interleaves` : what workers come to that take and give back locks by the steps of the pool;
* `Interleaves.latched` : they hold just those locks that they have come to, and no two hold the
  same one;
* `Latched.exists_proceeds` : whoever waits for a lock waits for someone that can go on, or that
  waits for a lock of a greater address.
-/
import AccessOrder.Proofs.Pool.Courses
namespace AccessOrder

namespace Task

variable {addr : HandleId → Nat}

/-! ## The order of the locks -/

/-- The handles whose locks a task must hold while it works, in the order of their addresses. -/
def lockOrder (addr : HandleId → Nat) (t : Task) : List HandleId :=
  ((t.dependencies.filter fun d => d.kind.properties.needsLock).map (·.handle)).mergeSort
    fun h h' => addr h ≤ addr h'

/-- A pool takes the locks in the order of the handles. -/
theorem lockOrder_self (t : Task) : t.lockOrder (fun h => h) = t.lockHandles := rfl

/-- The handles to be locked are those of the accesses that need a lock. -/
theorem lockOrder_perm (addr : HandleId → Nat) (t : Task) :
    (t.lockOrder addr).Perm
      ((t.dependencies.filter fun d => d.kind.properties.needsLock).map (·.handle)) :=
  List.mergeSort_perm _ _

/-- The addresses of the handles to be locked do not descend. -/
theorem lockOrder_sorted (addr : HandleId → Nat) (t : Task) :
    (t.lockOrder addr).Pairwise fun h h' => addr h ≤ addr h' := by
  have sorted := @List.pairwise_mergeSort HandleId (fun h h' => decide (addr h ≤ addr h'))
    (by intro a b c; simpa using Nat.le_trans) (by intro a b; simpa using Nat.le_total _ _)
    ((t.dependencies.filter fun d => d.kind.properties.needsLock).map (·.handle))
  simpa [lockOrder] using sorted

/-- No lock is taken twice. -/
theorem lockOrder_nodup {t : Task} (distinct : (t.dependencies.map (·.handle)).Nodup) :
    (t.lockOrder addr).Nodup :=
  (t.lockOrder_perm addr).nodup_iff.2 (distinct.sublist (List.filter_sublist.map _))

/-- Locks are taken in the order of the addresses. -/
theorem lockOrder_ascending (injective : Function.Injective addr) {t : Task}
    (distinct : (t.dependencies.map (·.handle)).Nodup) :
    (t.lockOrder addr).Pairwise fun h h' => addr h < addr h' :=
  (t.lockOrder_sorted addr).imp₂ (fun _ _ le ne => Nat.lt_of_le_of_ne le
    fun same => ne (injective same)) (lockOrder_nodup distinct)

/-- The order in which accesses are declared makes no difference to that in which locks are
taken. -/
theorem lockOrder_eq_of_perm (injective : Function.Injective addr) {t t' : Task}
    (same : t.dependencies.Perm t'.dependencies) : t.lockOrder addr = t'.lockOrder addr := by
  have perm := (t.lockOrder_perm addr).trans
    (((same.filter _).map _).trans (t'.lockOrder_perm addr).symm)
  refine perm.eq_of_pairwise (fun h h' _ _ le ge => injective (Nat.le_antisymm le ge))
    (t.lockOrder_sorted addr) (t'.lockOrder_sorted addr)

end Task

namespace Pool

/-! ## Between taking the first lock and giving the last one back -/

/-- Whether a task that has come so far takes locks or gives them back. -/
def Stage.latching : Stage → Bool
  | .locking _ | .unlocking => true
  | .working | .releasing _ => false

/-- How many of the locks that a task takes, in order, it holds when it has come so far. -/
def Stage.Holds (order held : List HandleId) : Stage → Prop
  | .locking todo => held.reverse ++ todo = order
  | .working => held.reverse = order
  | .unlocking | .releasing _ => held.reverse <+: order

/-- The task that is being run, and how far it has come, from the taking of its locks on until they
have been given back. -/
def Control.section? : Control → Option (Frame × Stage)
  | .executing (.lock f _ todo) => some (f, .locking todo)
  | .executing (.act f _ _) | .executing (.hand f _ _ _ _) => some (f, .working)
  | .executing (.unlock f) => some (f, .unlocking)
  | _ => none

namespace Machine

variable {addr : HandleId → Nat} {m after : Machine} {id : WorkerId}

/-- The task that a worker runs and that takes, holds or gives back locks. -/
def sectionOf (m : Machine) (id : WorkerId) : Option (Frame × Stage) := (m.controlOf id).section?

/-- The handles whose locks a worker holds. -/
def latchesOf (m : Machine) (id : WorkerId) : List HandleId := (m.sectionOf id).elim [] (·.1.held)

/-- Whether the lock of a handle is held. -/
def locked (m : Machine) (h : HandleId) : Bool := (m.handles.get h).locked

/-- The accesses of a task are of distinct handles, and there are such handles. -/
structure Accesses (m : Machine) (t : Task) : Prop where
  distinct : (t.dependencies.map (·.handle)).Nodup
  known : ∀ d ∈ t.dependencies, d.handle < m.handles.units.size

/-- A task needs only locks of handles that there are. -/
theorem Accesses.lt {t : Task} (accesses : m.Accesses t) {h : HandleId}
    (needs : h ∈ t.lockOrder addr) : h < m.handles.units.size := by
  rw [(t.lockOrder_perm addr).mem_iff, List.mem_map] at needs
  obtain ⟨d, mem, rfl⟩ := needs
  exact accesses.known d (List.mem_of_mem_filter mem)

/-- How a worker goes on that neither takes a lock nor gives one back: it may begin to run any task,
and while the task works it may do whatever it likes, and may return at any time. -/
inductive Stays (addr : HandleId → Nat) (m : Machine) :
    Option (Frame × Stage) → Option (Frame × Stage) → Prop where
  | outside : Stays addr m none none
  | enters {f : Frame} : m.Accesses f.task → f.held = [] →
      Stays addr m none (some (f, .locking (f.task.lockOrder addr)))
  | works {f : Frame} : Stays addr m (some (f, .working)) (some (f, .working))
  | returns {f : Frame} : Stays addr m (some (f, .working)) (some (f, .unlocking))

/-- A worker does something that has nothing to do with the locks of handles. -/
structure Elsewhere (addr : HandleId → Nat) (m : Machine) (id : WorkerId) (after : Machine) :
    Prop where
  up : after.crash = none
  others : ∀ other ≠ id, after.sectionOf other = m.sectionOf other
  size : m.handles.units.size ≤ after.handles.units.size
  locked : ∀ h, after.locked h = m.locked h
  own : Stays addr m (m.sectionOf id) (after.sectionOf id)

/-- A worker does something: it takes a lock or gives one back by a step of the pool, or does
something that has nothing to do with locks. -/
inductive Does (addr : HandleId → Nat) (m : Machine) (id : WorkerId) (after : Machine) : Prop where
  | latches {f : Frame} {stage : Stage} : m.sectionOf id = some (f, stage) →
      stage.latching = true → m.step id = some after → Does addr m id after
  | elsewhere : m.Elsewhere addr id after → Does addr m id after

/-- What workers come to, in whatever order they do something, when no lock was held at first. -/
inductive Interleaves (addr : HandleId → Nat) : Machine → Prop where
  | start {m : Machine} : m.crash = none → (∀ id, m.sectionOf id = none) →
      (∀ h, m.locked h = false) → Interleaves addr m
  | does {m after : Machine} (id : WorkerId) : Interleaves addr m → m.Does addr id after →
      Interleaves addr after

/-! ## Steps with locks -/

section Steps

variable {f : Frame} {acts : List Act} {h : HandleId} {todo held : List HandleId}

/-- A step of a worker that runs a task. -/
theorem step_executing (up : m.crash = none) {e : Execution} (now : m.controlOf id = .executing e) :
    m.step id = proceed id .executing
      (fun x _ => x.setControl id (afterTask (m.dutyOf id))) (m.executeStep id e) := by
  have here : id < m.workers.size := lt_of_controlOf (by simp [now])
  have found := Array.getElem?_eq_getElem here
  have control := controlOf_of_found found
  have duty := dutyOf_of_found found
  unfold Machine.step
  rw [if_neg (by rw [up]; exact Bool.false_ne_true), found]
  simp only [← control, now, duty]

/-- A worker that has taken all locks begins with the work. -/
theorem step_lock_nil (up : m.crash = none) (now : m.controlOf id = .executing (.lock f acts [])) :
    m.step id = some (m.setControl id (.executing (.act f acts []))) :=
  step_executing up now

/-- A worker takes the next lock if it is free. -/
theorem step_lock_free (up : m.crash = none)
    (now : m.controlOf id = .executing (.lock f acts (h :: todo))) (free : m.locked h = false) :
    m.step id = some (setControl { m with handles := (m.handles.tryLock h).2 } id
      (.executing (.lock { f with held := h :: f.held } acts todo))) := by
  have taken : m.handles.tryLock h = (true, (m.handles.tryLock h).2) :=
    Prod.ext (congrArg (! ·) free) rfl
  rw [step_executing up now, executeStep, taken]
  rfl

/-- A worker that has given back all locks goes on with the versions. -/
theorem step_unlock_nil (up : m.crash = none) (now : m.controlOf id = .executing (.unlock f))
    (none_held : f.held = []) :
    m.step id = some (m.setControl id (.executing (.release f f.task.dependencies))) := by
  obtain ⟨t, name, held⟩ := f
  obtain rfl : held = [] := none_held
  exact step_executing up now

/-- A worker gives back the lock that it has taken last. -/
theorem step_unlock_cons (up : m.crash = none) (now : m.controlOf id = .executing (.unlock f))
    (holds : f.held = h :: held) (locked : m.locked h = true) :
    m.step id = some (setControl { m with handles := (m.handles.run h Handle.unlock).2 } id
      (.executing (.unlock { f with held := held }))) := by
  obtain ⟨t, name, _⟩ := f
  obtain rfl := holds
  have returned : m.handles.run h Handle.unlock =
      (.ok (), (m.handles.run h Handle.unlock).2) := by
    refine Prod.ext ?_ rfl
    have locked : (m.handles.get h).locked = true := locked
    simp only [Handles.run, Handle.unlock, locked, if_true]
    rfl
  rw [step_executing up now, executeStep, returned]
  rfl

end Steps

/-- A worker does not get a lock that is held. -/
theorem step_lock_held (up : m.crash = none) {f : Frame} {acts : List Act} {h : HandleId}
    {todo : List HandleId} (now : m.controlOf id = .executing (.lock f acts (h :: todo)))
    (locked : m.locked h = true) : m.step id = none := by
  have missed : (m.handles.tryLock h).1 = false := congrArg (! ·) locked
  rw [step_executing up now, executeStep]
  split
  · next taken => rw [taken] at missed; cases missed
  · rfl

/-! ## What is in the middle of what -/

/-- A worker that takes locks. -/
theorem controlOf_of_locking {f : Frame} {todo : List HandleId}
    (now : m.sectionOf id = some (f, .locking todo)) :
    ∃ acts, m.controlOf id = .executing (.lock f acts todo) := by
  unfold sectionOf Control.section? at now
  split at now
  · next f' acts todo' control =>
    cases now
    exact ⟨acts, control⟩
  all_goals cases now

/-- A worker that gives locks back. -/
theorem controlOf_of_unlocking {f : Frame} (now : m.sectionOf id = some (f, .unlocking)) :
    m.controlOf id = .executing (.unlock f) := by
  unfold sectionOf Control.section? at now
  split at now
  · cases now
  · cases now
  · cases now
  · next f' control =>
    cases now
    exact control
  · cases now

/-- A worker that releases versions has given its locks back. -/
theorem sectionOf_ne_releasing (f : Frame) (todo : List Dependency) :
    m.sectionOf id ≠ some (f, .releasing todo) := by
  unfold sectionOf Control.section?
  split <;> nofun

/-- A worker in the middle of something with locks is one that there is. -/
theorem lt_of_sectionOf (busy : (m.sectionOf id).isSome = true) : id < m.workers.size := by
  refine lt_of_controlOf fun away => ?_
  rw [sectionOf, away] at busy
  cases busy

/-- What a worker has to do with locks that has changed what it is in the middle of. -/
theorem sectionOf_setControl_self (crew : id < m.workers.size) (c : Control) :
    (m.setControl id c).sectionOf id = c.section? := by
  rw [sectionOf, controlOf_setControl, if_pos ⟨rfl, crew⟩]

/-- What others have to do with locks stays as it is. -/
theorem sectionOf_setControl_of_ne (m : Machine) {other : WorkerId} (else' : other ≠ id)
    (c : Control) : (m.setControl id c).sectionOf other = m.sectionOf other := by
  rw [sectionOf, controlOf_setControl, if_neg fun same => else' same.1.symm, ← sectionOf]

/-- The locks of a worker that runs a task. -/
theorem latchesOf_of_section {f : Frame} {stage : Stage}
    (now : m.sectionOf id = some (f, stage)) : m.latchesOf id = f.held := by
  rw [latchesOf, now, Option.elim_some]

/-- The pool with another state of one handle. -/
def replace (m : Machine) (h : HandleId) (unit : Handle Task) : Machine :=
  { m with handles := { m.handles with units := m.handles.units.setIfInBounds h unit } }

/-- The locks that are held once the state of one handle has been replaced. -/
theorem locked_replace {h : HandleId} (known : h < m.handles.units.size) (unit : Handle Task)
    (other : HandleId) :
    (m.replace h unit).locked other = if h = other then unit.locked else m.locked other := by
  unfold locked replace
  rw [Handles.get_set, apply_ite Handle.locked]
  simp only [known, and_true]

/-! ## The invariant -/

/-- Every worker holds those locks that it has come to in the order of the addresses and has not
given back; no lock is held by two workers, and none is taken that no worker holds. -/
structure Latched (addr : HandleId → Nat) (m : Machine) : Prop where
  up : m.crash = none
  accesses : ∀ {id f stage}, m.sectionOf id = some (f, stage) → m.Accesses f.task
  course : ∀ {id f stage}, m.sectionOf id = some (f, stage) →
    stage.Holds (f.task.lockOrder addr) f.held
  locked : ∀ h, m.locked h = true ↔ ∃ id, h ∈ m.latchesOf id
  alone : ∀ {h i j}, h ∈ m.latchesOf i → h ∈ m.latchesOf j → i = j

/-- A worker and the others. -/
theorem exists_iff_own_or_other (id : WorkerId) {p : WorkerId → Prop} :
    (∃ someone, p someone) ↔ p id ∨ ∃ other ≠ id, p other := by
  constructor
  · rintro ⟨someone, holds⟩
    by_cases own : someone = id
    · exact .inl (own ▸ holds)
    · exact .inr ⟨someone, own, holds⟩
  · rintro (holds | ⟨other, -, holds⟩)
    · exact ⟨id, holds⟩
    · exact ⟨other, holds⟩

namespace Latched

variable (latched : m.Latched addr)
include latched

/-- The locks that a worker holds are among those that its task needs. -/
theorem mem_lockOrder {f : Frame} {stage : Stage} (now : m.sectionOf id = some (f, stage))
    {h : HandleId} (holds : h ∈ f.held) : h ∈ f.task.lockOrder addr := by
  have course := latched.course now
  rw [← List.mem_reverse] at holds
  cases stage with
  | locking todo =>
    rw [Stage.Holds] at course
    exact course ▸ List.mem_append_left _ holds
  | working =>
    rw [Stage.Holds] at course
    exact course ▸ holds
  | unlocking => exact List.IsPrefix.subset course holds
  | releasing todo => exact List.IsPrefix.subset course holds

/-- A worker has done something: nothing is different for the others, and the locks that are held
are those that it holds now and those of the others. -/
theorem turn (up : after.crash = none)
    (others : ∀ other ≠ id, after.sectionOf other = m.sectionOf other)
    (size : m.handles.units.size ≤ after.handles.units.size)
    (accesses : ∀ {f stage}, after.sectionOf id = some (f, stage) → m.Accesses f.task)
    (course : ∀ {f stage}, after.sectionOf id = some (f, stage) →
      stage.Holds (f.task.lockOrder addr) f.held)
    (locked : ∀ h, after.locked h = true ↔
      h ∈ after.latchesOf id ∨ ∃ other ≠ id, h ∈ m.latchesOf other)
    (apart : ∀ h ∈ after.latchesOf id, ∀ other ≠ id, h ∉ m.latchesOf other) :
    after.Latched addr := by
  have held : ∀ other ≠ id, after.latchesOf other = m.latchesOf other := by
    intro other else'
    rw [latchesOf, others other else', ← latchesOf]
  refine ⟨up, ?_, ?_, fun h => ?_, ?_⟩
  · intro i f stage now
    have known : m.Accesses f.task := by
      by_cases own : i = id
      · subst own
        exact accesses now
      · exact latched.accesses (others i own ▸ now)
    exact ⟨known.distinct, fun d mem => Nat.lt_of_lt_of_le (known.known d mem) size⟩
  · intro i f stage now
    by_cases own : i = id
    · subst own
      exact course now
    · exact latched.course (others i own ▸ now)
  · rw [locked, exists_iff_own_or_other id (p := fun someone => h ∈ after.latchesOf someone)]
    exact or_congr_right
      (exists_congr fun other => and_congr_right fun else' => by rw [held other else'])
  · intro h i j mem mem'
    by_cases first : i = id
    · by_cases second : j = id
      · rw [first, second]
      · exact absurd (held j second ▸ mem') (apart h (first ▸ mem) j second)
    · by_cases second : j = id
      · exact absurd (held i first ▸ mem) (apart h (second ▸ mem') i first)
      · exact latched.alone (held i first ▸ mem) (held j second ▸ mem')

/-- A worker has done something and holds the same locks as before. -/
theorem keeps (up : after.crash = none)
    (others : ∀ other ≠ id, after.sectionOf other = m.sectionOf other)
    (size : m.handles.units.size ≤ after.handles.units.size)
    (locked : ∀ h, after.locked h = m.locked h)
    (same : after.latchesOf id = m.latchesOf id)
    (accesses : ∀ {f stage}, after.sectionOf id = some (f, stage) → m.Accesses f.task)
    (course : ∀ {f stage}, after.sectionOf id = some (f, stage) →
      stage.Holds (f.task.lockOrder addr) f.held) :
    after.Latched addr := by
  refine latched.turn up others size accesses course (fun h => ?_) fun h mem other else' mem' => ?_
  · rw [locked, latched.locked, same, exists_iff_own_or_other id]
  · exact else' (latched.alone mem' (same ▸ mem))

/-- A worker has taken a lock that its task needs, or has given one back, and nobody else has that
lock. -/
theorem relocks {f g : Frame} {stage stage' : Stage} (here : m.sectionOf id = some (f, stage))
    {h : HandleId} (needs : h ∈ f.task.lockOrder addr)
    (others : ∀ other ≠ id, h ∉ m.latchesOf other) {unit : Handle Task}
    (changes : ∀ other, other ∈ g.held ↔ if h = other then unit.locked = true else other ∈ f.held)
    {c : Control} (next : c.section? = some (g, stage')) (same : g.task = f.task)
    (course : stage'.Holds (f.task.lockOrder addr) g.held) :
    ((m.replace h unit).setControl id c).Latched addr := by
  have crew : id < m.workers.size := lt_of_sectionOf (by rw [here]; rfl)
  have there : ((m.replace h unit).setControl id c).sectionOf id = some (g, stage') :=
    (sectionOf_setControl_self (m := m.replace h unit) crew c).trans next
  refine latched.turn latched.up (fun other else' => sectionOf_setControl_of_ne _ else' c)
    (Array.size_setIfInBounds ..).ge ?_ ?_ (fun other => ?_) fun other mem someone else' mem' => ?_
  · intro g _ eq
    cases there.symm.trans eq
    exact same ▸ latched.accesses here
  · intro g _ eq
    cases there.symm.trans eq
    exact same ▸ course
  · change (m.replace h unit).locked other = true ↔ _
    rw [locked_replace ((latched.accesses here).lt needs), latchesOf_of_section there, changes]
    split
    · next same =>
      subst same
      constructor
      · exact .inl
      · rintro (mine | ⟨someone, else', mem⟩)
        · exact mine
        · exact absurd mem (others someone else')
    · rw [latched.locked, ← latchesOf_of_section here, exists_iff_own_or_other id]
  · rw [latchesOf_of_section there, changes] at mem
    split at mem
    · next same => exact others someone else' (same ▸ mem')
    · exact else' (latched.alone mem' (latchesOf_of_section here ▸ mem))

/-- A worker takes the lock that its task needs next and that is free. -/
theorem takes {f : Frame} {acts : List Act} {h : HandleId} {todo : List HandleId}
    (here : m.sectionOf id = some (f, .locking (h :: todo))) (free : m.locked h = false) :
    ((m.replace h (m.handles.get h).tryLock.2).setControl id
      (.executing (.lock { f with held := h :: f.held } acts todo))).Latched addr := by
  have course : f.held.reverse ++ h :: todo = f.task.lockOrder addr := latched.course here
  have nobody : ∀ someone, h ∉ m.latchesOf someone := fun someone mem => by
    rw [(latched.locked h).2 ⟨someone, mem⟩] at free
    cases free
  refine latched.relocks here (g := { f with held := h :: f.held }) (by rw [← course]; simp)
    (fun other _ => nobody other) (fun other => ?_) rfl rfl (by simpa [Stage.Holds] using course)
  rw [List.mem_cons, Handle.locked_tryLock]
  split
  · next same => simp [same]
  · next different => simp [Ne.symm different]

/-- A worker gives back the lock that it has taken last. -/
theorem gives {f : Frame} (here : m.sectionOf id = some (f, .unlocking)) {h : HandleId}
    {held : List HandleId} (holds : f.held = h :: held) :
    ((m.replace h ((m.handles.get h).unlock).2).setControl id
      (.executing (.unlock { f with held := held }))).Latched addr := by
  have course : f.held.reverse <+: f.task.lockOrder addr := latched.course here
  have mine : h ∈ m.latchesOf id := by
    rw [latchesOf_of_section here, holds]
    exact List.mem_cons_self
  have once : h ∉ held := by
    have nodup : f.held.Nodup := List.nodup_reverse.1 (List.Nodup.sublist course.sublist
      (Task.lockOrder_nodup (latched.accesses here).distinct))
    rw [holds] at nodup
    exact (List.nodup_cons.1 nodup).1
  have fewer : held.reverse <+: f.task.lockOrder addr := by
    rw [holds, List.reverse_cons] at course
    exact (List.prefix_append _ _).trans course
  refine latched.relocks here (g := { f with held := held })
    (latched.mem_lockOrder here (by rw [holds]; exact List.mem_cons_self))
    (fun other else' mem => else' (latched.alone mem mine)) (fun other => ?_) rfl rfl fewer
  split
  · next same => simpa [Handle.unlock] using same ▸ once
  · next different => simp [holds, Ne.symm different]

/-- A worker goes on with something else and holds the same locks as before. -/
theorem goes {f : Frame} {stage : Stage} (here : m.sectionOf id = some (f, stage)) {c : Control}
    (same : c.section?.elim [] (·.1.held) = f.held)
    (course : ∀ {g stage'}, c.section? = some (g, stage') →
      g.task = f.task ∧ stage'.Holds (f.task.lockOrder addr) g.held) :
    (m.setControl id c).Latched addr := by
  have crew : id < m.workers.size := lt_of_sectionOf (by rw [here]; rfl)
  have there := sectionOf_setControl_self crew c
  refine latched.keeps latched.up (fun other else' => sectionOf_setControl_of_ne m else' c) le_rfl
    (fun _ => rfl) ?_ (fun eq => ?_) fun eq => ?_
  · rw [latchesOf_of_section here, latchesOf, there, same]
  · exact (course (there.symm.trans eq)).1 ▸ latched.accesses here
  · exact (course (there.symm.trans eq)).1 ▸ (course (there.symm.trans eq)).2

/-- Whatever workers do, they hold what they have come to, and nobody else has it. -/
theorem does (acts : m.Does addr id after) : after.Latched addr := by
  cases acts with
  | @latches f stage here latching stepped =>
    cases stage with
    | working => cases latching
    | releasing todo => cases latching
    | locking todo =>
      obtain ⟨acts, now⟩ := controlOf_of_locking here
      cases todo with
      | nil =>
        cases (step_lock_nil latched.up now).symm.trans stepped
        have course : f.held.reverse ++ [] = f.task.lockOrder addr := latched.course here
        refine latched.goes here rfl fun {g stage'} eq => ?_
        cases eq
        exact ⟨rfl, by rwa [List.append_nil] at course⟩
      | cons h todo =>
        cases state : m.locked h with
        | true => cases (step_lock_held latched.up now state).symm.trans stepped
        | false =>
          cases (step_lock_free latched.up now state).symm.trans stepped
          exact latched.takes here state
    | unlocking =>
      have now := controlOf_of_unlocking here
      cases holds : f.held with
      | nil =>
        cases (step_unlock_nil latched.up now holds).symm.trans stepped
        exact latched.goes here holds.symm nofun
      | cons h held =>
        have locked : m.locked h = true := (latched.locked h).2
          ⟨id, by rw [latchesOf_of_section here, holds]; exact List.mem_cons_self⟩
        cases (step_unlock_cons latched.up now holds locked).symm.trans stepped
        exact latched.gives here holds
  | elsewhere away =>
    -- Only where the task works or gives locks back is there anything that it has held before.
    have unchanged : after.latchesOf id = m.latchesOf id ∧
        ∀ {f stage}, after.sectionOf id = some (f, stage) →
          m.Accesses f.task ∧ stage.Holds (f.task.lockOrder addr) f.held := by
      unfold latchesOf
      have own := away.own
      revert own
      generalize here : m.sectionOf id = before
      generalize after.sectionOf id = there
      intro own
      cases own with
      | outside => exact ⟨rfl, nofun⟩
      | enters accesses nothing =>
        refine ⟨nothing, fun eq => ?_⟩
        cases eq
        exact ⟨accesses, by rw [Stage.Holds, nothing]; rfl⟩
      | works =>
        refine ⟨rfl, fun eq => ?_⟩
        cases eq
        exact ⟨latched.accesses here, latched.course here⟩
      | @returns f =>
        refine ⟨rfl, fun eq => ?_⟩
        have course : f.held.reverse = f.task.lockOrder addr := latched.course here
        cases eq
        exact ⟨latched.accesses here, course ▸ List.prefix_rfl⟩
    exact latched.keeps away.up away.others away.size away.locked unchanged.1
      (fun eq => (unchanged.2 eq).1) fun eq => (unchanged.2 eq).2

end Latched

/-- Whatever workers have done, they hold what they have come to, and nobody else has it. -/
theorem Interleaves.latched (run : Interleaves addr m) : m.Latched addr := by
  induction run with
  | start up outside free =>
    have nothing : ∀ id h, h ∉ latchesOf _ id := fun id h mem => by
      rw [latchesOf, outside] at mem
      cases mem
    refine ⟨up, fun now => ?_, fun now => ?_, fun h => ?_, fun mem => ?_⟩
    · cases (outside _).symm.trans now
    · cases (outside _).symm.trans now
    · rw [free]
      exact ⟨nofun, fun ⟨id, mem⟩ => absurd mem (nothing id h)⟩
    · exact absurd mem (nothing _ _)
  | does id _ acts latched => exact latched.does acts

/-! ## There is always someone who can go on -/

/-- A worker that takes, holds or gives back locks goes on: it does something other than try in
vain to take a lock, and it does not fail. -/
structure Proceeds (addr : HandleId → Nat) (m : Machine) (id : WorkerId) (after : Machine) :
    Prop where
  inside : (m.sectionOf id).isSome = true
  does : m.Does addr id after
  further : after.sectionOf id ≠ m.sectionOf id
  succeeds : (after.controlOf id).isFailed = false

namespace Latched

variable (latched : m.Latched addr)
include latched

/-- A worker goes on unless it waits for a lock. -/
theorem proceeds_or_waits {f : Frame} {stage : Stage} (here : m.sectionOf id = some (f, stage)) :
    (∃ after, m.Proceeds addr id after) ∨
      ∃ h todo, stage = .locking (h :: todo) ∧ m.locked h = true := by
  have inside : (m.sectionOf id).isSome = true := by rw [here]; rfl
  have crew : id < m.workers.size := lt_of_sectionOf inside
  -- What it takes for a step to be one of those looked for.
  have goes : ∀ {next : Machine} {c : Control}, m.Does addr id (next.setControl id c) →
      next.workers.size = m.workers.size → c.section? ≠ some (f, stage) → c.isFailed = false →
      ∃ after, m.Proceeds addr id after := by
    intro next c does size further succeeds
    refine ⟨_, inside, does, ?_, ?_⟩
    · rwa [here, sectionOf_setControl_self (size ▸ crew)]
    · rwa [controlOf_setControl_self (size ▸ crew)]
  cases stage with
  | releasing todo => exact absurd here (sectionOf_ne_releasing f todo)
  | working =>
    refine .inl (goes (c := .executing (.unlock f)) (.elsewhere ⟨latched.up, fun other else' =>
      sectionOf_setControl_of_ne m else' _, le_rfl, fun _ => rfl, ?_⟩) rfl nofun rfl)
    rw [here, sectionOf_setControl_self crew]
    exact .returns
  | locking todo =>
    obtain ⟨acts, now⟩ := controlOf_of_locking here
    cases todo with
    | nil => exact .inl (goes (.latches here rfl (step_lock_nil latched.up now)) rfl nofun rfl)
    | cons h todo =>
      cases state : m.locked h with
      | true => exact .inr ⟨h, todo, rfl, state⟩
      | false =>
        refine .inl (goes (.latches here rfl (step_lock_free latched.up now state)) rfl ?_ rfl)
        intro same
        simp [Control.section?] at same
  | unlocking =>
    have now := controlOf_of_unlocking here
    cases holds : f.held with
    | nil =>
      exact .inl (goes (.latches here rfl (step_unlock_nil latched.up now holds)) rfl nofun rfl)
    | cons h held =>
      have locked : m.locked h = true := (latched.locked h).2
        ⟨id, by rw [latchesOf_of_section here, holds]; exact List.mem_cons_self⟩
      refine .inl (goes (.latches here rfl (step_unlock_cons latched.up now holds locked)) rfl ?_
        rfl)
      intro same
      have := congrArg (fun x => x.elim [] (·.1.held)) same
      simp [Control.section?, holds] at this

/-- A lock is held by a worker that runs a task. -/
theorem exists_holder {h : HandleId} (locked : m.locked h = true) :
    ∃ holder f stage, m.sectionOf holder = some (f, stage) ∧ h ∈ f.held := by
  obtain ⟨holder, mem⟩ := (latched.locked h).1 locked
  unfold latchesOf at mem
  cases there : m.sectionOf holder with
  | none =>
    rw [there] at mem
    cases mem
  | some x =>
    rw [there] at mem
    exact ⟨holder, x.1, x.2, there, mem⟩

/-- While someone takes, holds or gives back locks, someone of those can go on. -/
theorem exists_proceeds (injective : Function.Injective addr)
    (busy : (m.sectionOf id).isSome = true) : ∃ worker after, m.Proceeds addr worker after := by
  obtain ⟨bound, below⟩ : ∃ bound, ∀ h < m.handles.units.size, addr h < bound :=
    ⟨_, fun h known => Nat.lt_succ_of_le (Finset.le_sup (Finset.mem_range.2 known))⟩
  -- Whoever waits for a lock waits for a worker that waits, if at all, for a lock of a greater
  -- address, and the addresses are bounded.
  have climbs : ∀ n {id f h todo}, m.sectionOf id = some (f, .locking (h :: todo)) →
      bound ≤ addr h + n → ∃ worker after, m.Proceeds addr worker after := by
    intro n
    induction n with
    | zero =>
      intro id f h todo here short
      have course : f.held.reverse ++ h :: todo = f.task.lockOrder addr := latched.course here
      have needs : h ∈ f.task.lockOrder addr := by rw [← course]; simp
      exact absurd (below h ((latched.accesses here).lt needs)) (Nat.not_lt.2 short)
    | succ n ih =>
      intro id f h todo here short
      obtain ⟨after, proceeds⟩ | ⟨_, _, same, locked⟩ := latched.proceeds_or_waits here
      · exact ⟨id, after, proceeds⟩
      cases same
      obtain ⟨holder, g, stage, there, holds⟩ := latched.exists_holder locked
      obtain ⟨after, proceeds⟩ | ⟨h', todo', rfl, -⟩ := latched.proceeds_or_waits there
      · exact ⟨holder, after, proceeds⟩
      have course : g.held.reverse ++ h' :: todo' = g.task.lockOrder addr := latched.course there
      have ascending := Task.lockOrder_ascending injective (latched.accesses there).distinct
      rw [← course, List.pairwise_append] at ascending
      have higher : addr h < addr h' :=
        ascending.2.2 h (List.mem_reverse.2 holds) h' List.mem_cons_self
      exact ih there (by omega)
  cases here : m.sectionOf id with
  | none => rw [here] at busy; cases busy
  | some x =>
    obtain ⟨f, stage⟩ := x
    obtain ⟨after, proceeds⟩ | ⟨h, todo, rfl, -⟩ := latched.proceeds_or_waits here
    · exact ⟨id, after, proceeds⟩
    · exact climbs bound here (Nat.le_add_left _ _)

end Latched

end Machine

end Pool

end AccessOrder
