/- # Readiness that lasts

A dependency that is met stays met until the task that depends on it releases its version: the
version is held until then, and a handle leaves no version behind that is held.  So what a task has
been seen to depend on stays met although nobody looks again, a task that has passed its vetting
stays ready until it releases its first version, and a pool that checks tasks when they are handed
in has none but ready ones in its queues.  It does not matter who has vetted a task, or what else is
done by hand in the meantime, as long as versions are released by those only who run the tasks.

* `Runs.exists_settledIn` : everything is housed in a world that is large enough for all tasks;
* `Runs.meets_later` : what is met stays met until it is released;
* `Runs.vetted` : in an eager pool, tasks are bound for a queue only after their vetting;
* `Runs.readiness_lasts` : which tasks are ready, and for how long, in every run of a scene.
-/
import AccessOrder.Proofs.Pool.Readiness
import AccessOrder.Proofs.Pool.Scenes
namespace AccessOrder.Pool

open Function (update)

/-- Whether all dependencies of the tasks in queues, and of those on their way into one, have been
seen to be met. -/
structure Machine.Vetted (m : Machine) : Prop where
  hands : ∀ id t q, .bound t q ∈ m.hands id → t.blocker? = none
  queues : ∀ q, ∀ t ∈ m.world.queue q, t.blocker? = none

/-- For any tasks there is a size that is large enough for their pins. -/
theorem exists_inside (least : Nat) (ts : List Task) :
    ∃ size, least ≤ size ∧ ∀ t ∈ ts, t.Inside size := by
  induction ts with
  | nil => exact ⟨least, Nat.le_refl _, by simp⟩
  | cons t ts ih =>
      obtain ⟨size, le, inside⟩ := ih
      refine ⟨size + t.pin.elim 0 (· + 1), Nat.le_add_right_of_le le,
        List.forall_mem_cons.2 ⟨fun q pinned => ?_, fun u mem => ?_⟩⟩
      · rw [show t.pin = some q from pinned]
        exact Nat.lt_add_left size (Nat.lt_succ_self q)
      · exact (inside u mem).mono (Nat.le_add_right ..)

namespace Scene

variable {s a : Scene} {past later told : List Moment} {hands : WorkerId → List Item} {size : Nat}
  {t : Task} {d : Dependency}

/-- Whether a task is somewhere in a scene: in the pool, or where it is vetted by hand. -/
def Holds (s : Scene) (t : Task) : Prop :=
  (∃ p, t ∈ s.machine.tasksAt p) ∨ ∃ v ∈ s.vetted, v.task = t

/-- Whether a vetting is under way, in the pool or by hand. -/
def Vets (s : Scene) (v : Vetting) : Prop :=
  (∃ id, (s.machine.controlOf id).vetting? = some v) ∨ v ∈ s.vetted

/-! ## Where tasks are in settled hands -/

/-- What is in the pool is somewhere in settled hands, too. -/
theorem HousedIn.exists_item (shown : s.HousedIn size told hands) {p : Place} {x : Item}
    (mem : x ∈ s.machine.world.items s.machine.hands p) :
    ∃ p', x.settled size ∈ (s.machine.world.settled size).items hands p' := by
  cases p with
  | hands id =>
      by_cases before : id < s.beyond
      · refine ⟨.hands id, ?_⟩
        show _ ∈ hands id
        rw [shown.inside id before]
        exact List.mem_map_of_mem mem
      · -- there is nobody of that number
        have outside : s.machine.workers.size ≤ id := Nat.le_of_succ_le (Nat.le_of_not_lt before)
        replace mem : x ∈ (s.machine.controlOf id).items id := mem
        rw [Machine.controlOf, Array.getElem?_eq_none outside] at mem
        cases mem
  | queue q =>
      obtain ⟨t, found, rfl⟩ := List.mem_map.1 mem
      exact ⟨.queue q, List.mem_map_of_mem found⟩
  | waiting h v =>
      obtain ⟨t, found, rfl⟩ := List.mem_map.1 mem
      exact ⟨.waiting h v, List.mem_map_of_mem found⟩
  | kept =>
      obtain ⟨t, found, rfl⟩ := List.mem_map.1 mem
      obtain ⟨left, outer⟩ := shown.outer
      refine ⟨.hands s.beyond, outer.mem_iff.2 (List.mem_append_left _ ?_)⟩
      exact List.mem_map_of_mem (List.mem_append_left _ found)

/-- A task that is vetted by hand is in the hand beyond all others. -/
theorem HousedIn.exists_vetted (shown : s.HousedIn size told hands) {v : Vetting}
    (mem : v ∈ s.vetted) : settledTask size v.task ∈ hands s.beyond := by
  obtain ⟨left, outer⟩ := shown.outer
  refine outer.mem_iff.2 (List.mem_append_left _ ?_)
  exact List.mem_map_of_mem (List.mem_append_right _ (List.mem_map_of_mem mem))

/-- A task in the pool that is pinned inside of the world keeps its place in its item. -/
theorem task_settled {x : Item} (task : x.task? = some t) (inside : t.Inside size) :
    (x.settled size).task? = some t := by
  cases x with
  | arriving u =>
      cases task
      show (settledTask size t).task? = _
      rw [settledTask_of_inside inside]
      rfl
  | draft | loose | bound | guard | running => exact task

/-- A task of a scene is somewhere in settled hands. -/
theorem HousedIn.exists_task (shown : s.HousedIn size told hands) (holds : s.Holds t)
    (inside : t.Inside size) :
    ∃ p x, x ∈ (s.machine.world.settled size).items hands p ∧ x.task? = some t := by
  rcases holds with ⟨p, here⟩ | ⟨v, mem, rfl⟩
  · rw [tasksAt_eq, List.mem_filterMap] at here
    obtain ⟨x, mem, task⟩ := here
    obtain ⟨p', there⟩ := shown.exists_item mem
    exact ⟨p', _, there, task_settled task inside⟩
  · refine ⟨.hands s.beyond, _, shown.exists_vetted mem, ?_⟩
    rw [settledTask_of_inside inside]
    rfl

/-- A task that is vetted counts as accepted if it is pinned inside of the world. -/
theorem HousedIn.exists_loose (shown : s.HousedIn size told hands) {v : Vetting} (vets : s.Vets v)
    (inside : v.task.Inside size) :
    ∃ p, .loose v.task ∈ (s.machine.world.settled size).items hands p := by
  rcases vets with ⟨id, vetting⟩ | mem
  · have mem : .loose v.task ∈ s.machine.world.items s.machine.hands (.hands id) :=
      loose_of_vetting vetting
    exact shown.exists_item mem
  · refine ⟨.hands s.beyond, ?_⟩
    rw [← settledTask_of_inside inside]
    exact shown.exists_vetted mem

/-! ## What is met -/

/-- What an item of a settled world is known to depend on is met. -/
theorem SettledIn.met_of_cursor (settled : s.SettledIn size past) (holds : s.Holds t)
    (inside : t.Inside size) (open' : .returned t.serial ∉ past)
    (known : d ∈ t.dependencies.take t.cursor) : s.machine.handles.meets d = true := by
  obtain ⟨sound, -, told, hands, shown, same⟩ := settled
  obtain ⟨p, x, here, task⟩ := shown.exists_task holds inside
  have open'' : .returned t.serial ∉ told := fun mem =>
    open' ((mem_iff_of_otherThanAccepted same rfl).1 mem)
  exact sound.meets_iff.2 (shown.toHoused.met_of_cursor here task open'' known)

/-- A task that comes out of its vetting has all its dependencies met, has got their versions, and
has released none. -/
theorem SettledIn.met_of_vets (settled : s.SettledIn size past) {v : Vetting} (vets : s.Vets v)
    (inside : v.task.Inside size) (vetted : v.task.blocker? = none)
    (mem : d ∈ v.task.dependencies) :
    s.machine.handles.meets d = true ∧ .scheduled v.task.serial d ∈ past ∧
      .released v.task.serial d ∉ past := by
  obtain ⟨sound, -, told, hands, shown, same⟩ := settled
  obtain ⟨p, here⟩ := shown.exists_loose vets inside
  have tells : about v.task.serial told = story v.task.serial v.task.dependencies .accepted :=
    shown.tells p _ here
  have fits : Pending _ v.task := shown.fits p _ here
  refine ⟨sound.meets_iff.2 (fits.met_of_vetted vetted mem), ?_, fun released => ?_⟩
  · exact (mem_iff_of_otherThanAccepted same rfl).1 (scheduled_of_accepted tells mem)
  · exact unreleased_of_accepted tells d ((mem_iff_of_otherThanAccepted same rfl).2 released)

/-- The dependencies of a task that runs are met. -/
theorem SettledIn.met_of_running (settled : s.SettledIn size past) {n : Nat}
    (running : Running n past) (scheduled : .scheduled n d ∈ past) :
    s.machine.handles.meets d = true := by
  obtain ⟨sound, -, told, hands, shown, same⟩ := settled
  have alike {x : Moment} (other : x.accepts = false) := mem_iff_of_otherThanAccepted same other
  have running : Running n told :=
    ⟨(alike rfl).2 running.1, fun returned => running.2 ((alike rfl).1 returned)⟩
  exact sound.meets_iff.2 (shown.toHoused.met_of_running running ((alike rfl).2 scheduled))

/-- A task in a queue of which no dependency is left to be looked at has all of them met. -/
theorem SettledIn.met_of_queued (settled : s.SettledIn size past) {q : WorkerId}
    (queued : t ∈ s.machine.world.queue q) (vetted : t.blocker? = none)
    (mem : d ∈ t.dependencies) : s.machine.handles.meets d = true := by
  obtain ⟨sound, -, told, hands, shown, -⟩ := settled
  have bound : .bound t q ∈ s.machine.world.items s.machine.hands (.queue q) :=
    List.mem_map_of_mem queued
  obtain ⟨p, there⟩ := shown.exists_item bound
  have fits : Pending _ t := (shown.fits p _ there).1
  exact sound.meets_iff.2 (fits.met_of_vetted vetted mem)

/-- A version that is held is not left behind. -/
theorem SettledIn.completed_le_of_held (settled : s.SettledIn size past) {n : Nat}
    (scheduled : .scheduled n d ∈ past) (held : .released n d ∉ past) :
    (s.machine.world.units d.handle).completed ≤ d.version := by
  obtain ⟨-, -, told, hands, shown, same⟩ := settled
  have alike {x : Moment} (other : x.accepts = false) := mem_iff_of_otherThanAccepted same other
  exact (shown.ledger.in_use (mem_unreleased ((alike rfl).2 scheduled) fun released =>
    held ((alike rfl).1 released))).1

/-- No handle goes back to an earlier version in a turn. -/
theorem SettledIn.completed_le (settled : s.SettledIn size past) {mv : Move}
    (moved : s.move mv = some a) (h : HandleId) :
    (s.machine.world.units h).completed ≤ (a.machine.world.units h).completed := by
  -- a change of one handle that does not complete a version
  have changed : ∀ {hs : Handles} {o : HandleId} {u : Handle.View Task},
      hs.view = update s.machine.handles.view o u →
      u.completed = (s.machine.handles.view o).completed →
      (s.machine.handles.view h).completed ≤ (hs.view h).completed := by
    intro hs o u seen same
    rw [seen, Function.update_apply]
    split
    · next own => rw [own, same]
    · exact Nat.le_refl _
  have unchanged : ∀ {hs : Handles}, hs.view = s.machine.handles.view →
      (s.machine.handles.view h).completed ≤ (hs.view h).completed := fun seen =>
    Nat.le_of_eq (congrArg (fun view => (view h).completed) seen.symm)
  have base := settled.sound.toBase
  cases move_cases moved with
  | @turn mv after turned =>
      exact (settled.sound.move turned).deed.completed_le (settled.not_fault (actor_lt turned)) h
  | vet | discard => exact Nat.le_refl _
  | more here stepped | ready here stepped | parks here stepped | fails here stepped =>
      obtain ⟨-, -, told, hands, shown, -⟩ := settled
      have le := base.completed_le_vetting (not_fault_of_unbroken (shown.unbroken here)) h
      rwa [stepped] at le
  | waits _ ran => exact changed (base.handles.register ran).2.1 rfl
  | schedule ran => exact changed (base.handles.schedule ran).2.2.2 rfl
  | handedBack _ ran => exact unchanged (base.handles.handedBack ran).2.1
  | refused _ ran => exact unchanged (base.handles.register_error ran).2.1
  | unscheduled ran => exact unchanged (base.handles.schedule_error ran).2

/-! ## Runs -/

variable {l : Launch} {vocabulary : Access.Vocabulary} {handles callers : Nat}
  {references : Array HandleId}

/-- In every run everything stays housed in a world that has room for the pins of any tasks. -/
theorem Runs.exists_settledIn
    (run : (opening (l.opening vocabulary handles callers references)).Runs past s)
    (ts : List Task) : ∃ size, s.SettledIn size past ∧ ∀ t ∈ ts, t.Inside size := by
  obtain ⟨size, large, inside⟩ := exists_inside l.size (ts ++ s.parked)
  exact ⟨size, run.settledIn large fun t mem => inside t (List.mem_append_right _ mem),
    fun t mem => inside t (List.mem_append_left _ mem)⟩

/-- No handle goes back to an earlier version in the course of a run. -/
theorem Runs.completed_le
    (run : (opening (l.opening vocabulary handles callers references)).Runs past s)
    (goes : s.Runs later a) (h : HandleId) :
    (s.machine.world.units h).completed ≤ (a.machine.world.units h).completed := by
  induction goes with
  | refl => exact Nat.le_refl _
  | turn mv goes moved ih =>
      obtain ⟨size, settled, -⟩ := (run.trans goes).exists_settledIn []
      exact Nat.le_trans ih (settled.completed_le moved h)

/-- A dependency that is met stays met until its version is released. -/
theorem Runs.meets_later
    (run : (opening (l.opening vocabulary handles callers references)).Runs past s)
    (goes : s.Runs later a) {n : Nat} (scheduled : .scheduled n d ∈ past)
    (met : s.machine.handles.meets d = true) (held : .released n d ∉ later ++ past) :
    a.machine.handles.meets d = true := by
  obtain ⟨size, before, -⟩ := run.exists_settledIn []
  obtain ⟨size', after, -⟩ := (run.trans goes).exists_settledIn []
  have met : (s.machine.world.units d.handle).completed = d.version := before.sound.meets_iff.1 met
  have most := after.completed_le_of_held (List.mem_append_right later scheduled) held
  exact after.sound.meets_iff.2 (Nat.le_antisymm most (met ▸ run.completed_le goes d.handle))

/-- The queues of an eager pool, and the hands of those who are about to put a task into one, hold
none but vetted tasks. -/
theorem Runs.vetted (run : (opening (l.opening vocabulary handles callers references)).Runs past s)
    (eager : l.options.readiness = .eager) : s.machine.Vetted := by
  induction run with
  | refl =>
      refine ⟨fun id t q bound => ?_, fun q t queued => ?_⟩
      · replace bound : _ ∈ (l.opening vocabulary handles callers references).hands id := bound
        rw [hands_opening] at bound
        cases bound
      · replace queued : t ∈ (l.opening vocabulary handles callers references).world.queue q :=
          queued
        rw [Machine.world_opening] at queued
        cases queued
  | @turn past a b mv run moved ih =>
      obtain ⟨size, settled, -⟩ := run.exists_settledIn []
      cases move_cases moved with
      | @turn mv after turned =>
          have turn := settled.sound.move turned
          have unfaulted := settled.not_fault (actor_lt turned)
          have discipline : a.machine.readiness = .eager := run.setting_eq.2.trans eager
          refine ⟨fun id t q bound => ?_, fun q t queued => ?_⟩
          · by_cases own : id = mv.actor
            · subst own
              -- nobody is handed a task for a queue at once
              rcases turn.deed.bound_cases unfaulted bound with before | vetted | ⟨n, now⟩
              · exact ih.hands _ t q before
              · exact vetted
              · exact absurd bound (Machine.unbound_of_accepted discipline turned now t q)
            · refine ih.hands id t q ?_
              have same : after.hands id = a.machine.hands id := by
                rw [Machine.hands, turn.others id own, Machine.hands]
              exact same ▸ bound
          · rcases turn.deed.queued_cases unfaulted queued with before | before
            · exact ih.queues q t before
            · exact ih.hands _ t q before
      | _ => exact ⟨ih.hands, ih.queues⟩

/-- In every run of a scene, whatever is done with tasks by hand:
a dependency below the cursor of a task whose work is not done is met;
a dependency that is met stays met until the task releases its version;
a task that passes its vetting is ready, and stays so until it releases a version;
all dependencies of a task whose work has begun are met until its work is done;
and in an eager pool every task in a queue is ready. -/
theorem Runs.readiness_lasts
    (run : (opening (l.opening vocabulary handles callers references)).Runs past s) :
    (∀ t, s.Holds t → .returned t.serial ∉ past →
      ∀ d ∈ t.dependencies.take t.cursor, s.machine.handles.meets d = true) ∧
    (∀ n d, .scheduled n d ∈ past → s.machine.handles.meets d = true →
      ∀ later a, s.Runs later a → .released n d ∉ later ++ past →
        a.machine.handles.meets d = true) ∧
    (∀ v t, s.Vets v → (v.step s.machine.handles).1 = .ok (.ready t) →
      s.machine.handles.ready t = true ∧
      ∀ later a, s.Runs later a → (∀ d, .released t.serial d ∉ later) →
        a.machine.handles.ready t = true) ∧
    (∀ n, .started n ∈ past → .returned n ∉ past → ∀ d, .scheduled n d ∈ past →
      s.machine.handles.meets d = true) ∧
    (l.options.readiness = .eager →
      ∀ q, ∀ t ∈ s.machine.tasksAt (.queue q), s.machine.handles.ready t = true) := by
  have ready {a : Scene} {t : Task} : a.machine.handles.ready t = true ↔
      ∀ d ∈ t.dependencies, a.machine.handles.meets d = true := List.all_eq_true
  refine ⟨fun t holds open' d known => ?_, fun n d scheduled met later a goes held => ?_,
    fun v t vets passes => ?_, fun n started open' d scheduled => ?_,
    fun eager q t queued => ?_⟩
  · obtain ⟨size, settled, inside⟩ := run.exists_settledIn [t]
    exact settled.met_of_cursor holds (inside t List.mem_cons_self) open' known
  · exact run.meets_later goes scheduled met held
  · obtain ⟨rfl, vetted⟩ := vetted_of_ready passes
    obtain ⟨size, settled, inside⟩ := run.exists_settledIn [v.task]
    have known := fun d => settled.met_of_vets (d := d) vets (inside _ List.mem_cons_self) vetted
    refine ⟨ready.2 fun d mem => (known d mem).1, fun later a goes held => ready.2 fun d mem => ?_⟩
    obtain ⟨met, scheduled, unreleased⟩ := known d mem
    refine run.meets_later goes scheduled met ?_
    rw [List.mem_append, not_or]
    exact ⟨held d, unreleased⟩
  · obtain ⟨size, settled, -⟩ := run.exists_settledIn []
    exact settled.met_of_running ⟨started, open'⟩ scheduled
  · obtain ⟨size, settled, -⟩ := run.exists_settledIn []
    exact ready.2 fun d => settled.met_of_queued queued ((run.vetted eager).queues q t queued)

/-- A task that has been vetted by hand, and behind which a version has been reserved by hand, is
ready while it is in the queue of the only worker; nobody has looked at its dependency again. -/
theorem Runs.queued_write_ready :
    ∃ past s, Runs (opening (smallPool ⟨1, by decide⟩)) past s ∧
      .scheduled 1 (writeAccess 1) ∈ past ∧
      (s.machine.tasksAt (.queue 0)).map Task.cursor = [1] ∧
      ∀ t ∈ s.machine.tasksAt (.queue 0), s.machine.handles.ready t = true := by
  obtain ⟨past, s, run, seen⟩ := exists_runs (opening (smallPool ⟨1, by decide⟩))
    (.turn (.spawn 0 writeTask) :: owner 2 ++
      [.turn (.keep 0), .vet 0, .look 0, .look 0, .schedule ⟨⟨0, writeKind⟩, 0⟩,
        .turn (.submit 0 0)] ++ owner 6)
    (fun past s => .scheduled 1 (writeAccess 1) ∈ past ∧
      (s.machine.tasksAt (.queue 0)).map Task.cursor = [1])
    (by decide +kernel)
  obtain ⟨reserved, looked⟩ := of_decide_eq_true seen
  exact ⟨past, s, run, reserved, looked, run.readiness_lasts.2.2.2.2 rfl 0⟩

end Scene

end AccessOrder.Pool
