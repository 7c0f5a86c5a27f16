/- # Which tasks run at once

A task that runs has all its dependencies met, and holds the locks of those that need one.  So of
two tasks that access one handle the later one starts after the earlier one has returned, unless
both accesses are of one commutative kind; and if the kind is exclusive, the two do not run at once.

* `Orderly.follows_of_order` : the accesses of a handle get their versions in order;
* `Runs.access_order` : which accesses of a handle may overlap, in every run of a pool.
-/
import AccessOrder.Proofs.Access.Validation
import AccessOrder.Proofs.Pool.Custodians
namespace AccessOrder.Pool

variable {past : List Moment} {w : World} {hands : WorkerId → List Item} {m : Machine}

/-- Whether the work of a task has begun and is not done. -/
def Running (s : Nat) (past : List Moment) : Prop := .started s ∈ past ∧ .returned s ∉ past

/-! ## Tasks that run -/

/-- A task that runs is in the hands of a worker that does its work. -/
theorem Housed.working (housed : Housed past w hands) {s : Nat} (running : Running s past) :
    ∃ p f, .running f .working ∈ w.items hands p ∧ f.task.serial = s := by
  have started : .started s ∈ about s past := mem_about.2 ⟨running.1, rfl⟩
  have open' : .returned s ∉ about s past := fun mem => running.2 (mem_about.1 mem).1
  -- its story ends with its start, and only at one stage an item tells such a story
  have chapter : ∀ {ds c}, about s past = story s ds c → c = .started := by
    intro ds c told
    rw [told] at started open'
    cases c <;> simp [story, mem_plan, mem_releases] at started open' ⊢
  by_cases kept : Kept (w.keys hands) (.task s)
  · obtain ⟨p, mem⟩ := kept
    obtain ⟨x, mem, mine⟩ := mem_keysOf.1 mem
    have tells := housed.tells p x mem
    cases x with
    | draft d =>
        cases List.mem_singleton.1 mine
        cases chapter tells
    | arriving t | loose t | bound t q =>
        cases List.mem_singleton.1 mine
        cases chapter tells
    | guard q changed => cases List.mem_singleton.1 mine
    | running f stage =>
        obtain rfl : s = f.task.serial := by simpa [Item.keys] using mine
        cases stage with
        | locking todo => cases chapter tells
        | working => exact ⟨p, f, mem, rfl⟩
        | unlocking => cases chapter tells
        | releasing todo =>
            obtain ⟨done, -, told⟩ := tells
            cases chapter told
  · obtain ⟨ds, -, told | told⟩ := housed.lost s kept
    · cases chapter told
    · cases chapter told

/-- The dependencies of a task that runs are the accesses that have got a version for it. -/
theorem Housed.mem_dependencies (housed : Housed past w hands) {p : Place} {f : Frame}
    (here : .running f .working ∈ w.items hands p) {d : Dependency}
    (scheduled : .scheduled f.task.serial d ∈ past) : d ∈ f.task.dependencies := by
  have told : about f.task.serial past = story f.task.serial f.task.dependencies .started :=
    housed.tells p _ here
  have mem : .scheduled f.task.serial d ∈ about f.task.serial past :=
    mem_about.2 ⟨scheduled, rfl⟩
  rwa [told, scheduled_mem_story] at mem

/-- The handle of an access of a task that runs has reached its version. -/
theorem Housed.met_of_running (housed : Housed past w hands) {s : Nat}
    (running : Running s past) {d : Dependency} (scheduled : .scheduled s d ∈ past) : w.Met d := by
  obtain ⟨p, f, here, rfl⟩ := housed.working running
  exact (housed.fits p _ here).2.1 d (housed.mem_dependencies here scheduled)

/-- A task that runs holds the locks of the accesses that need one. -/
theorem Orderly.latch_of_running (orderly : Orderly past w hands) {s : Nat}
    (running : Running s past) {d : Dependency} (scheduled : .scheduled s d ∈ past)
    (needed : d.kind.properties.needsLock = true) :
    ∃ p x, x ∈ w.items hands p ∧ .task s ∈ x.keys ∧ .latch d.handle ∈ x.keys := by
  obtain ⟨p, f, here, rfl⟩ := orderly.working running
  refine ⟨p, _, here, List.mem_cons_self, List.mem_cons_of_mem _ (List.mem_map_of_mem ?_)⟩
  obtain ⟨-, -, held⟩ := orderly.fits p _ here
  rw [← List.mem_reverse, held, f.task.lockHandles_perm.mem_iff]
  refine List.mem_map_of_mem (List.mem_filter.2 ⟨orderly.mem_dependencies here scheduled, needed⟩)

/-- An item has one task at most. -/
theorem task_unique {x : Item} {s s' : Nat} (mine : .task s ∈ x.keys) (yours : .task s' ∈ x.keys) :
    s = s' := by
  cases x with
  | draft d =>
      exact Key.task.inj ((List.mem_singleton.1 mine).trans (List.mem_singleton.1 yours).symm)
  | arriving t | loose t | bound t q =>
      exact Key.task.inj ((List.mem_singleton.1 mine).trans (List.mem_singleton.1 yours).symm)
  | guard q changed => cases List.mem_singleton.1 mine
  | running f stage =>
      have own : s = f.task.serial := by simpa [Item.keys] using mine
      have own' : s' = f.task.serial := by simpa [Item.keys] using yours
      rw [own, own']

/-- What is held by having an item is held by having no other. -/
theorem Orderly.eq_of_keys (orderly : Orderly past w hands) {p q : Place} {x y : Item}
    (here : x ∈ w.items hands p) (there : y ∈ w.items hands q) {k : Key} (mine : k ∈ x.keys)
    (yours : k ∈ y.keys) : x = y := by
  have same : p = q := orderly.apart.unique p q k (mem_keysOf.2 ⟨x, here, mine⟩)
    (mem_keysOf.2 ⟨y, there, yours⟩)
  subst same
  by_contra different
  have nodup := orderly.apart.nodup p
  rw [World.keys, keysOf, List.nodup_flatMap] at nodup
  have symmetric : Std.Symm (Function.onFun List.Disjoint Item.keys) :=
    ⟨fun _ _ disjoint => disjoint.symm⟩
  exact nodup.2.forall here there different mine yours

/-! ## The order of accesses -/

/-- The accesses of a handle get their versions in order. -/
theorem Orderly.follows_of_order (orderly : Orderly past w hands) {a b : Nat} {d e : Dependency}
    (same : d.handle = e.handle) (order : [.scheduled b e, .scheduled a d].Sublist past) :
    Follows e d := by
  have ordered := (orderly.ledger.ordered d.handle).sublist (bookings_of_sublist same order)
  exact (List.pairwise_cons.1 ordered).1 _ List.mem_cons_self

/-- What is reached early in a run is reached by a run. -/
theorem Machine.Runs.upto {start : Machine} {later earlier : List Moment}
    (run : Runs start (later ++ earlier) m) : ∃ before, Runs start earlier before := by
  rcases List.eq_nil_or_concat later with rfl | ⟨rest, x, rfl⟩
  · exact ⟨m, run⟩
  · rw [List.concat_eq_append, List.append_assoc] at run
    obtain ⟨before, -, -, earlier, -⟩ := run.cut
    exact ⟨before, earlier⟩

/-- A task runs right after it has started. -/
theorem Orderly.running_of_started {b : Nat} {earlier : List Moment}
    (orderly : Orderly (.started b :: earlier) w hands) : Running b (.started b :: earlier) := by
  obtain ⟨ds, c, -, -, told, -⟩ := orderly.exists_story b
  have next : about b (.started b :: earlier) = .started b :: _ := about_next rfl rfl
  obtain rfl := eq_started_of_story (told.symm.trans next)
  refine ⟨List.mem_cons_self, fun returned => ?_⟩
  have mem : .returned b ∈ about b (.started b :: earlier) := mem_about.2 ⟨returned, rfl⟩
  rw [told] at mem
  simp [story, mem_plan] at mem

/-- All accesses of a task have got their versions before anything else happens to it. -/
theorem Orderly.scheduled_before {later earlier : List Moment}
    (orderly : Orderly (later ++ earlier) w hands) {x : Moment} (mem : x ∈ earlier)
    (other : ∀ d, x ≠ .scheduled x.serial d) {d : Dependency}
    (scheduled : .scheduled x.serial d ∈ later ++ earlier) : .scheduled x.serial d ∈ earlier := by
  obtain ⟨ds, c, -, -, told, -⟩ := orderly.exists_story x.serial
  obtain ⟨newer, older, rfl⟩ := List.append_of_mem mem
  have planned : .scheduled x.serial d ∈ about x.serial (later ++ (newer ++ x :: older)) :=
    mem_about.2 ⟨scheduled, rfl⟩
  rw [told, scheduled_mem_story] at planned
  rw [about_append, about_append, about_cons_self, ← List.append_assoc] at told
  have mem := scheduled_of_story told.symm other planned
  exact List.mem_append_right _ (List.mem_cons_of_mem _ (mem_about.1 mem).1)

/-- All accesses of a task have got their versions before it starts. -/
theorem Orderly.scheduled_of_started {later earlier : List Moment}
    (orderly : Orderly (later ++ earlier) w hands) {s : Nat} (started : .started s ∈ earlier)
    {d : Dependency} (scheduled : .scheduled s d ∈ later ++ earlier) :
    .scheduled s d ∈ earlier :=
  orderly.scheduled_before started (by simp) scheduled

/-- What is in order in a history without repetitions is in order in the part of it that it is in.
-/
theorem sublist_of_mem {later earlier ms : List Moment} {x : Moment}
    (nodup : (later ++ earlier).Nodup) (order : (x :: ms).Sublist (later ++ earlier))
    (mem : x ∈ earlier) : (x :: ms).Sublist earlier := by
  obtain ⟨first, second, split, before, after⟩ := List.sublist_append_iff.1 order
  cases first with
  | nil => rwa [show second = x :: ms from split.symm] at after
  | cons y first =>
      rw [List.cons_append] at split
      have there : x ∈ later := (List.cons.inj split).1 ▸ before.subset List.mem_cons_self
      exact absurd rfl ((List.nodup_append.1 nodup).2.2 x there x mem)

/-- A task that has not returned holds its versions, none of which has been completed. -/
theorem Orderly.completed_le_of_open (orderly : Orderly past w hands) {a : Nat} {d : Dependency}
    (scheduled : .scheduled a d ∈ past) (open' : .returned a ∉ past) :
    (w.units d.handle).completed ≤ d.version :=
  (orderly.ledger.in_use (mem_unreleased scheduled fun released =>
    open' (orderly.returned_of_released released))).1

/-- A task runs only after those have returned that got an earlier version of a handle. -/
theorem Orderly.returned_of_earlier (orderly : Orderly past w hands) {a b : Nat} {d e : Dependency}
    (same : d.handle = e.handle) (scheduled : .scheduled a d ∈ past)
    (scheduled' : .scheduled b e ∈ past) (less : d.version < e.version)
    (running : Running b past) : .returned a ∈ past := by
  by_contra open'
  -- so its version is not completed, while that of the later access is
  have used := orderly.completed_le_of_open scheduled open'
  have met : (w.units e.handle).completed = e.version := orderly.met_of_running running scheduled'
  rw [same, met] at used
  exact Nat.not_le_of_lt less used

/-- A task runs only after those have returned that accessed a handle before it, unless the accesses
are of one commutative kind. -/
theorem Orderly.returned_of_running (orderly : Orderly past w hands) {a b : Nat} {d e : Dependency}
    (same : d.handle = e.handle) (order : [.scheduled b e, .scheduled a d].Sublist past)
    (running : Running b past)
    (conflict : e.kind.index = d.kind.index → d.kind.properties.commutative = false) :
    .returned a ∈ past := by
  have scheduled : .scheduled b e ∈ past := order.subset List.mem_cons_self
  have earlier : .scheduled a d ∈ past :=
    order.subset (List.mem_cons_of_mem _ List.mem_cons_self)
  rcases orderly.follows_of_order same order with later | ⟨-, kind, commutative⟩
  · exact orderly.returned_of_earlier same earlier scheduled later running
  · rw [conflict kind] at commutative
    cases commutative

/-- Two tasks that need the lock of one handle do not run at once. -/
theorem Orderly.eq_of_running (orderly : Orderly past w hands) {a b : Nat} {d e : Dependency}
    (same : d.handle = e.handle) (scheduled : .scheduled a d ∈ past)
    (scheduled' : .scheduled b e ∈ past) (needed : d.kind.properties.needsLock = true)
    (needed' : e.kind.properties.needsLock = true) (running : Running a past)
    (running' : Running b past) : a = b := by
  obtain ⟨p, x, here, mine, latch⟩ := orderly.latch_of_running running scheduled needed
  obtain ⟨q, y, there, yours, latch'⟩ := orderly.latch_of_running running' scheduled' needed'
  rw [← same] at latch'
  have one := orderly.eq_of_keys here there latch latch'
  subst one
  exact task_unique mine yours

variable {l : Launch} {vocabulary : Access.Vocabulary} {handles callers : Nat}
  {references : Array HandleId}

/-- In every run of a pool with an accepted kind set, of two tasks that access one handle the one
whose access got its version later starts after the other has returned, unless both accesses are of
one commutative kind.  If that kind is exclusive, the two never run at once.  Only accesses of one
commutative kind that is not exclusive may overlap. -/
theorem Machine.Runs.access_order
    (run : Runs (l.opening vocabulary handles callers references) past m)
    (valid : vocabulary.kindSet.validate = .ok ())
    {d e : Dependency} (listed : d.kind ∈ vocabulary.listed) (listed' : e.kind ∈ vocabulary.listed)
    {a b : Nat} (distinct : a ≠ b) (same : d.handle = e.handle)
    (order : [.scheduled b e, .scheduled a d].Sublist past) :
    (d.kind ≠ e.kind ∨ d.kind.properties.commutative = false →
      ∀ later earlier, past = later ++ .started b :: earlier → .returned a ∈ earlier) ∧
    (d.kind = e.kind → d.kind.properties.commutative = true → d.kind.properties.exclusive = true →
      ∀ later earlier, past = later ++ earlier → ¬(Running a earlier ∧ Running b earlier)) ∧
    ∀ later earlier, past = later ++ earlier → Running a earlier → Running b earlier →
      d.kind = e.kind ∧ d.kind.properties.commutative = true ∧
        d.kind.properties.exclusive = false := by
  have whole := run.orderly.2
  have kinds : e.kind.index = d.kind.index → d.kind = e.kind := fun index =>
    Access.KindSet.eq_of_index_eq valid listed listed' index.symm
  -- what has been scheduled before the later task starts
  have started : ∀ later earlier, past = later ++ earlier → .started b ∈ earlier →
      [.scheduled b e, .scheduled a d].Sublist earlier := by
    rintro later earlier rfl started
    exact sublist_of_mem whole.nodup_past order
      (whole.scheduled_of_started started (order.subset List.mem_cons_self))
  have overlap : ∀ later earlier, past = later ++ earlier → Running a earlier → Running b earlier →
      d.kind = e.kind ∧ d.kind.properties.commutative = true ∧
        d.kind.properties.exclusive = false := by
    rintro later earlier rfl running running'
    obtain ⟨before, prior⟩ := run.upto
    have orderly := prior.orderly.2
    have order := started later earlier rfl running'.1
    by_cases alike : d.kind = e.kind ∧ d.kind.properties.commutative = true
    · refine ⟨alike.1, alike.2, ?_⟩
      by_contra exclusive
      have needed : d.kind.properties.needsLock = true := by
        rw [Access.Properties.needsLock, alike.2, eq_true_of_ne_false exclusive]
        rfl
      exact distinct (orderly.eq_of_running same
        (order.subset (List.mem_cons_of_mem _ List.mem_cons_self))
        (order.subset List.mem_cons_self) needed (alike.1 ▸ needed) running running')
    · refine absurd (orderly.returned_of_running same order running' fun index => ?_) running.2
      exact eq_false_of_ne_true fun commutative => alike ⟨kinds index, commutative⟩
  refine ⟨fun conflict later earlier split => ?_,
    fun _ _ exclusive later earlier split running => ?_, overlap⟩
  · rw [split] at run
    obtain ⟨before, prior⟩ := run.upto
    have orderly := prior.orderly.2
    have returned := orderly.returned_of_running same (started _ _ split List.mem_cons_self)
      orderly.running_of_started fun index => conflict.resolve_left (not_not_intro (kinds index))
    exact (List.mem_cons.1 returned).resolve_left (by simp)
  · have shared := (overlap later earlier split running.1 running.2).2.2
    rw [exclusive] at shared
    cases shared

/-- Of two tasks that write the same handle the second starts after the first has returned. -/
theorem Machine.Runs.writes_in_order :
    ∃ past m, Runs (smallPool ⟨1, by decide⟩) past m ∧ .started 1 ∈ past ∧
      ∀ later earlier, past = later ++ .started 1 :: earlier → .returned 0 ∈ earlier := by
  obtain ⟨past, m, run, seen⟩ := exists_runs (smallPool ⟨1, by decide⟩) twoWrites
    (fun past _ => .started 1 ∈ past ∧
      [Moment.scheduled 1 (writeAccess 1), .scheduled 0 (writeAccess 0)].Sublist past)
    (by decide +kernel)
  obtain ⟨started, order⟩ := of_decide_eq_true seen
  have listed : writeKind ∈ Access.Vocabulary.usual.listed := by decide
  obtain ⟨apart, -, -⟩ := run.access_order Access.Vocabulary.validate_usual
    (d := writeAccess 0) (e := writeAccess 1) listed listed Nat.zero_ne_one rfl order
  exact ⟨past, m, run, started, apart (.inr rfl)⟩

end AccessOrder.Pool
