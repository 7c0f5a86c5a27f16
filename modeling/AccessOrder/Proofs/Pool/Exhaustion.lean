/- # When everything has been done

Tasks are built one at a time, and all that have been built are handed in.  Who waits for a version
of a handle waits for a task that has got its versions before: of the tasks that have not been done,
the one that was built first waits for nobody.  So if no task is in a queue or in the hands of
anyone, then none is left at all, and every handle has completed all of its versions.

* `Orderly.exhausted` : there is nothing left if no task is in a queue or in hand;
* `Runs.nobody_stranded` : the same of every run, also when the owner comes out of the barrier.
-/
import AccessOrder.Proofs.Pool.Leading
import AccessOrder.Proofs.Pool.Overlap
namespace AccessOrder.Pool

/-- The task that gets a version at a moment. -/
def Moment.builds? : Moment → Option Nat
  | .scheduled s _ => some s
  | _ => none

/-- The tasks that have got versions, one time for each, the last one first. -/
def builds (past : List Moment) : List Nat := past.filterMap Moment.builds?

/-- Whether tasks are built one at a time: while one gets its versions no other one gets any. -/
def BuiltApart (past : List Moment) : Prop := ∀ a b, [a, b, a].Sublist (builds past) → b = a

/-- Whether every task that has been built has been handed in and accepted. -/
def AllAccepted (past : List Moment) : Prop := ∀ s ∈ builds past, .accepted s ∈ past

/-- Whether a task has been accepted and not disposed. -/
def Stuck (s : Nat) (past : List Moment) : Prop := .accepted s ∈ past ∧ .disposed s ∉ past

/-- The versions of a handle that have been reserved, the last one first. -/
def versions (h : HandleId) (past : List Moment) : List Version :=
  (bookings h past).map fun booking => booking.2.version

namespace Machine

/-- Whether no task is in a queue, and none that has been accepted is in hand. -/
def Quiet (m : Machine) (past : List Moment) : Prop :=
  (∀ q, m.tasksAt (.queue q) = []) ∧ ∀ id, ∀ s ∈ m.serialsAt (.hands id), .accepted s ∉ past

/-- Whether everything has been done: nobody waits, every task that has been accepted has returned
and has been disposed, and the completed version of every handle comes right after the greatest that
has been reserved. -/
structure Exhausted (m : Machine) (past : List Moment) : Prop where
  unwaiting : ∀ h v, m.tasksAt (.waiting h v) = []
  done : ∀ s, .accepted s ∈ past → .returned s ∈ past ∧ .disposed s ∈ past
  completed : ∀ h, (m.handles.get h).completed = (versions h past).max?.elim 0 (· + 1)

end Machine

variable {past : List Moment} {m : Machine} {s : Nat} {d : Dependency}

/-! ## Who waits for whom -/

/-- A task that has got a version has been built, or is being built. -/
theorem mem_builds (scheduled : .scheduled s d ∈ past) : s ∈ builds past :=
  List.mem_filterMap.2 ⟨_, scheduled, rfl⟩

/-- Two moments of a history come one after the other. -/
theorem order_of_mem {x y : Moment} (here : x ∈ past) (there : y ∈ past) (different : x ≠ y) :
    [x, y].Sublist past ∨ [y, x].Sublist past := by
  obtain ⟨newer, older, rfl⟩ := List.append_of_mem here
  rcases List.mem_append.1 there with before | after
  · right
    exact (List.singleton_sublist.2 before).append
      (List.singleton_sublist.2 List.mem_cons_self)
  · left
    have mem := (List.mem_cons.1 after).resolve_left (Ne.symm different)
    exact ((List.singleton_sublist.2 mem).cons_cons x).trans (List.sublist_append_right ..)

/-- Two moments after which nothing but a third one and earlier ones came. -/
theorem order_extend {later earlier : List Moment} {x y z : Moment}
    (order : [x, y].Sublist (later ++ z :: earlier)) (new : y ∉ z :: earlier) :
    [x, y, z].Sublist (later ++ z :: earlier) := by
  obtain ⟨first, second, split, before, after⟩ := List.sublist_append_iff.1 order
  rcases List.eq_nil_or_concat second with rfl | ⟨rest, y', rfl⟩
  · rw [List.append_nil] at split
    subst split
    exact before.append (List.singleton_sublist.2 List.mem_cons_self)
  · rw [List.concat_eq_append, ← List.append_assoc] at split
    have last := congrArg List.getLast? split
    rw [List.getLast?_concat] at last
    have own : y = y' := Option.some.inj last
    subst own
    exact absurd (after.subset (by simp)) new

/-- A task that holds a version has been accepted, and is not disposed. -/
theorem Orderly.stuck_of_unreleased {w : World} {hands : WorkerId → List Item}
    (orderly : Orderly past w hands) (all : AllAccepted past) (held : (s, d) ∈ unreleased past) :
    Stuck s past := by
  refine ⟨all s (mem_builds (scheduled_of_unreleased held)), fun gone => ?_⟩
  obtain ⟨ds, c, nodup, -, told, -⟩ := orderly.exists_story s
  have mem : .disposed s ∈ about s past := mem_about.2 ⟨gone, rfl⟩
  rw [told, disposed_mem_story] at mem
  rw [mem_unreleased_about, told, mem_unreleased_story nodup, mem] at held
  exact held.2 held.1

/-- A task that is still to be handed in has not been accepted. -/
theorem Orderly.unaccepted_of_arriving (orderly : Orderly past m.world m.hands) {p : Place}
    {t : Task} (mem : .arriving t ∈ m.world.items m.hands p) : .accepted t.serial ∉ past := by
  intro accepted
  have told : about t.serial past = story t.serial t.dependencies .planned := orderly.tells p _ mem
  have mem : .accepted t.serial ∈ about t.serial past := mem_about.2 ⟨accepted, rfl⟩
  rw [told] at mem
  exact accepted_mem_story.1 mem rfl

/-- A task that has been accepted and not disposed is on a wait list if it is nowhere else. -/
theorem Orderly.waiting_of_stuck (orderly : Orderly past m.world m.hands) (quiet : m.Quiet past)
    (stuck : Stuck s past) : ∃ h v, ∃ t ∈ m.tasksAt (.waiting h v), t.serial = s := by
  obtain ⟨p, key⟩ := orderly.kept_of_accepted stuck.1 stuck.2
  have here := orderly.mem_serialsAt stuck.1 key
  cases p with
  | hands id => exact absurd stuck.1 (quiet.2 id s here)
  | queue q =>
      rw [Machine.serialsAt, quiet.1 q] at here
      cases here
  | waiting h v =>
      obtain ⟨t, mem, own⟩ := List.mem_map.1 here
      exact ⟨h, v, t, mem, own⟩
  | kept =>
      obtain ⟨t, mem, rfl⟩ := List.mem_map.1 here
      exact absurd stuck.1 (orderly.unaccepted_of_arriving (p := .kept) (List.mem_map_of_mem mem))

/-- Who waits for a version of a handle waits for another task that holds the completed version, and
has got it before. -/
theorem Orderly.waits_for (sound : m.Sound) (orderly : Orderly past m.world m.hands) {h : HandleId}
    {v : Version} {t : Task} (waiting : t ∈ m.tasksAt (.waiting h v)) :
    ∃ d s e, (s, e) ∈ unreleased past ∧ s ≠ t.serial ∧
      [.scheduled t.serial d, .scheduled s e].Sublist past := by
  have item : Item.loose t ∈ m.world.items m.hands (.waiting h v) := List.mem_map_of_mem waiting
  obtain ⟨d, blocked, rfl, rfl⟩ := orderly.waits h v t waiting
  obtain ⟨ahead, used⟩ := (sound.handles d.handle).versions.waiting d.version
    (List.ne_nil_of_mem waiting)
  have held : 0 < (m.world.units d.handle).holders (m.world.units d.handle).completed :=
    ((orderly.ledger.sound d.handle).held _).2 ⟨Nat.le_refl _, Nat.lt_trans ahead used⟩
  obtain ⟨s, e, unreleased, same, version⟩ := orderly.ledger.exists_unreleased held
  have mem : d ∈ t.dependencies := List.mem_of_getElem? blocked
  have told : about t.serial past = story t.serial t.dependencies .accepted :=
    orderly.tells _ _ item
  have planned : ∀ {c}, .scheduled t.serial c ∈ past ↔ c ∈ t.dependencies := by
    intro c
    rw [← scheduled_mem_story, ← told, mem_about]
    exact ⟨fun mem => ⟨mem, rfl⟩, And.left⟩
  have less : e.version < d.version := by
    rw [version]
    exact ahead
  refine ⟨d, s, e, unreleased, ?_, ?_⟩
  · rintro rfl
    have both := planned.1 (scheduled_of_unreleased unreleased)
    have one := List.inj_on_of_nodup_map (orderly.fits _ _ item).distinct both mem same
    rw [one] at less
    exact Nat.lt_irrefl _ less
  · have different : Moment.scheduled t.serial d ≠ .scheduled s e := by
      rintro one
      rw [(Moment.scheduled.inj one).2] at less
      exact Nat.lt_irrefl _ less
    have order := order_of_mem (planned.2 mem) (scheduled_of_unreleased unreleased) different
    refine order.resolve_right fun order => ?_
    rcases orderly.follows_of_order same.symm order with later | ⟨alike, -, -⟩
    · exact Nat.lt_asymm less later
    · exact Nat.ne_of_gt less alike

/-- Of the tasks that have not been done, none has got a version first. -/
theorem Orderly.not_stuck_of_scheduled (sound : m.Sound) (orderly : Orderly past m.world m.hands)
    (quiet : m.Quiet past) (apart : BuiltApart past) (all : AllAccepted past)
    (later : List Moment) {earlier : List Moment} (split : past = later ++ earlier)
    (scheduled : .scheduled s d ∈ earlier) : ¬Stuck s past := by
  -- the moments are taken in the order in which they came
  induction earlier generalizing later s d with
  | nil => cases scheduled
  | cons x earlier ih =>
      intro stuck
      have before : ∀ {s d}, .scheduled s d ∈ earlier → ¬Stuck s past := fun mem =>
        ih (later ++ [x]) (by rw [split, List.append_assoc]; rfl) mem
      rcases List.mem_cons.1 scheduled with rfl | scheduled
      · -- the one that the first task waits for has got a version before it, or while it was built
        obtain ⟨h, v, t, waiting, rfl⟩ := orderly.waiting_of_stuck quiet stuck
        obtain ⟨c, o, e, held, other, order⟩ := orderly.waits_for sound waiting
        have newer : .scheduled o e ∉ earlier := fun mem =>
          before mem (orderly.stuck_of_unreleased all held)
        have different : Moment.scheduled o e ≠ .scheduled t.serial d := fun one =>
          other (Moment.scheduled.inj one).1
        subst split
        have between := order_extend order fun mem => (List.mem_cons.1 mem).elim different newer
        exact other (apart _ _ (between.filterMap Moment.builds?))
      · exact before scheduled stuck

/-! ## What is left -/

/-- Once no version is held a handle has completed all of its versions. -/
theorem Ledger.completed_of_released {units : HandleId → Handle.View Task}
    (ledger : Ledger past units) (none : unreleased past = []) (h : HandleId) :
    (units h).completed = (units h).frontier := by
  refine Nat.le_antisymm (ledger.sound h).le (Nat.le_of_not_lt fun ahead => ?_)
  have held := ((ledger.sound h).held (units h).completed).2 ⟨Nat.le_refl _, ahead⟩
  rw [ledger.holders, none] at held
  cases held

/-- The frontier of a handle lies after the greatest version that has been reserved. -/
theorem Ledger.frontier_eq {units : HandleId → Handle.View Task} (ledger : Ledger past units)
    (h : HandleId) : (units h).frontier = (versions h past).max?.elim 0 (· + 1) := by
  rw [versions]
  have ordered := ledger.ordered h
  cases booked : bookings h past with
  | nil => exact ledger.unused h booked
  | cons e es =>
      rw [(ledger.newest h e es booked).1]
      rw [booked, List.pairwise_cons] at ordered
      have greatest : ((e :: es).map fun booking => booking.2.version).max? = some e.2.version := by
        rw [List.max?_eq_some_iff]
        refine ⟨List.mem_cons_self, fun v mem => ?_⟩
        obtain ⟨older, booked, rfl⟩ := List.mem_map.1 mem
        rcases List.mem_cons.1 booked with rfl | booked
        · exact Nat.le_refl _
        · rcases ordered.1 older booked with less | ⟨same, -, -⟩
          · exact Nat.le_of_lt less
          · exact Nat.le_of_eq same
      rw [greatest]
      rfl

/-- If no task is in a queue or in hand, all that have been built have been handed in, and they were
built one at a time, then everything has been done. -/
theorem Orderly.exhausted (sound : m.Sound) (orderly : Orderly past m.world m.hands)
    (quiet : m.Quiet past) (apart : BuiltApart past) (all : AllAccepted past) :
    m.Exhausted past := by
  have released : unreleased past = [] := by
    rw [List.eq_nil_iff_forall_not_mem]
    rintro ⟨s, d⟩ held
    exact orderly.not_stuck_of_scheduled sound quiet apart all [] rfl
      (scheduled_of_unreleased held) (orderly.stuck_of_unreleased all held)
  have completed := orderly.ledger.completed_of_released released
  have unwaiting : ∀ h v, m.tasksAt (.waiting h v) = [] := by
    intro h v
    by_contra waited
    obtain ⟨ahead, used⟩ := (sound.handles h).versions.waiting v waited
    exact Nat.lt_irrefl _
      (Nat.lt_of_lt_of_le (Nat.lt_trans ahead used) (Nat.le_of_eq (completed h).symm))
  have done : ∀ s, .accepted s ∈ past → .disposed s ∈ past := by
    intro s accepted
    by_contra alive
    obtain ⟨h, v, t, waiting, -⟩ := orderly.waiting_of_stuck quiet ⟨accepted, alive⟩
    rw [unwaiting] at waiting
    cases waiting
  refine ⟨unwaiting, fun s accepted => ?_, fun h => ?_⟩
  · have gone := done s accepted
    obtain ⟨later, earlier, rfl⟩ := List.append_of_mem gone
    refine ⟨?_, gone⟩
    exact List.mem_append_right _ (List.mem_cons_of_mem _ orderly.before_disposed.1)
  · rw [← orderly.ledger.frontier_eq h, ← completed h]
    rfl

/-! ## Runs -/

variable {l : Launch} {vocabulary : Access.Vocabulary} {handles callers : Nat}
  {references : Array HandleId}

/-- A caller that hands no task in has none in hand that has been accepted. -/
theorem Orderly.unaccepted_of_caller (sound : m.Sound) (orderly : Orderly past m.world m.hands)
    {id : WorkerId} (outside : m.size ≤ id) (uncalling : (m.controlOf id).calling = false) :
    ∀ s ∈ m.serialsAt (.hands id), .accepted s ∉ past := by
  intro s here accepted
  obtain ⟨x, mem, mine⟩ := mem_keysOf.1 (key_of_mem_serialsAt here)
  have told : ∃ ds, about s past = story s ds .planned := by
    rcases sound.hands_of_caller outside uncalling x mem with ⟨d, rfl⟩ | ⟨t, rfl⟩
    · cases List.mem_singleton.1 mine
      exact ⟨d.resolved, orderly.tells _ _ mem⟩
    · cases List.mem_singleton.1 mine
      exact ⟨t.dependencies, orderly.tells _ _ mem⟩
  obtain ⟨ds, told⟩ := told
  have mem : .accepted s ∈ about s past := mem_about.2 ⟨accepted, rfl⟩
  rw [told] at mem
  exact accepted_mem_story.1 mem rfl

/-- When the owner comes out of the barrier, no task is in a queue, and none that has been accepted
is in hand. -/
theorem Machine.Runs.quiet_of_back {before : Machine} {earlier : List Moment} {mv : Move}
    (run : Runs (l.opening vocabulary handles callers references) earlier before)
    (waiting : (before.controlOf 0).awaiting = true) (moved : before.move mv = some m)
    (back : m.controlOf 0 = .away) : m.Quiet (before.moments mv ++ earlier) := by
  obtain ⟨sound, orderly⟩ := (run.turn mv moved).orderly
  obtain ⟨empty, calm⟩ := run.still waiting moved back
  refine ⟨empty, fun id => ?_⟩
  by_cases inside : id < m.size
  · intro s here
    rw [serialsAt, tasksAt_of_calm (calm id inside)] at here
    cases here
  · have outside := Nat.le_of_not_lt inside
    refine orderly.unaccepted_of_caller sound outside ?_
    -- the turn was the owner's, and nobody handed a task in before it
    have turned := run.orderly.1.move moved
    have own : 0 = mv.actor := by
      by_contra other
      rw [← turned.others 0 other, back] at waiting
      cases waiting
    rw [turned.others id (by rintro rfl; exact inside (own ▸ sound.manned))]
    exact (run.rounds.alone waiting).2 id

/-- In every run of a pool in which tasks are built one at a time and all that have been built are
handed in, there is nothing left to be done when no task is in a queue or in the hands of anyone,
and there is nothing left to be done when the owner comes out of the barrier. -/
theorem Machine.Runs.nobody_stranded
    (run : Runs (l.opening vocabulary handles callers references) past m)
    (apart : BuiltApart past) (all : AllAccepted past) :
    ((∀ q, m.tasksAt (.queue q) = []) → (∀ id, m.tasksAt (.hands id) = []) → m.Exhausted past) ∧
    ∀ before earlier mv, Runs (l.opening vocabulary handles callers references) earlier before →
      (before.controlOf 0).awaiting = true → before.move mv = some m → m.controlOf 0 = .away →
      past = before.moments mv ++ earlier → m.Exhausted past := by
  obtain ⟨sound, orderly⟩ := run.orderly
  constructor
  · intro unqueued unheld
    refine orderly.exhausted sound ⟨unqueued, fun id s here => ?_⟩ apart all
    rw [serialsAt, unheld] at here
    cases here
  · rintro before earlier mv prior waiting moved back rfl
    exact orderly.exhausted sound (prior.quiet_of_back waiting moved back) apart all

/-- Two tasks that write the same handle have been done, and the handle is at version two, when no
task is left in the queue of the only worker and in its hands. -/
theorem Machine.Runs.writes_done :
    ∃ past m, Runs (smallPool ⟨1, by decide⟩) past m ∧ (∀ q, m.tasksAt (.queue q) = []) ∧
      (∀ id, m.tasksAt (.hands id) = []) ∧ .accepted 1 ∈ past ∧ m.Exhausted past := by
  obtain ⟨past, m, run, seen⟩ := exists_runs (smallPool ⟨1, by decide⟩) twoWrites
    (fun past m => m.size = 1 ∧ m.workers.size = 1 ∧ m.serialsAt (.queue 0) = [] ∧
      m.serialsAt (.hands 0) = [] ∧ .accepted 0 ∈ past ∧ .accepted 1 ∈ past ∧
      builds past = [1, 0]) (by decide +kernel)
  obtain ⟨size, crew, unqueued, unheld, first, second, built⟩ := of_decide_eq_true seen
  have queues : ∀ q, m.tasksAt (.queue q) = [] := by
    intro q
    by_cases own : q = 0
    · exact own ▸ List.map_eq_nil_iff.1 unqueued
    · exact queue_outside (by lia)
  have hands : ∀ id, m.tasksAt (.hands id) = [] := by
    intro id
    by_cases own : id = 0
    · exact own ▸ List.map_eq_nil_iff.1 unheld
    · have away : m.controlOf id = .away := by
        by_contra busy
        have inside := lt_of_controlOf busy
        lia
      rw [tasksAt, hands, away]
      rfl
  have apart : BuiltApart past := fun a b order => by
    have short := (built ▸ order).length_le
    simp at short
  have all : AllAccepted past := by
    rw [AllAccepted, built]
    simp [first, second]
  exact ⟨past, m, run, queues, hands, second, (run.nobody_stranded apart all).1 queues hands⟩

end AccessOrder.Pool
