/- # Programs

A program is a list of jobs: what each job accesses, and what its work does to the data.  A run
plays a program if the tasks of its jobs are built one after another, all of them are handed in
before any of them starts, and all are done in the end.  Every job does its work to the data at one
instant between the start and the return of its task.

However the workers take their turns, jobs whose order matters are done in the order in which they
were built: the one that was built later has to wait for a version that the other one holds.  So
the data comes out as if the jobs were done one after another, and the handles come to the same
versions.

* `foldl_eq_of_perm` : things that are done out of order come to the same if those that change
  places commute;
* `Program.Plays.returned_of_conflict` : jobs that do not share what they access are done in order;
* `Runs.schedule_independent` : two runs of a program come to the same, whatever the pools are like.
-/
import AccessOrder.Proofs.Pool.Exhaustion
import AccessOrder.Proofs.Pool.Numbering
namespace AccessOrder.Pool

/-- An access of a handle. -/
structure Use where
  handle : HandleId
  kind : Access.Kind
  deriving DecidableEq

/-- The task of a program: what it accesses, in order, and what its work does to the data. -/
structure Job (δ : Type) where
  uses : List Use
  effect : δ → δ

/-- Tasks that are built one after another. -/
abbrev Program (δ : Type) := List (Job δ)

/-- The access that gets its version at a moment, with the number of its task. -/
def Moment.use? : Moment → Option (Nat × Use)
  | .scheduled s d => some (s, ⟨d.handle, d.kind⟩)
  | _ => none

namespace Program

variable {δ : Type}

/-- The accesses of a program in the order in which they get their versions, each with the number of
its job. -/
def plan (p : Program δ) : List (Nat × Use) :=
  p.zipIdx.flatMap fun job => job.1.uses.map (job.2, ·)

/-- The kinds of the accesses of a handle, the last one first. -/
def kindsOf (p : Program δ) (h : HandleId) : List Access.Kind :=
  ((p.plan.filter (·.2.handle = h)).map (·.2.kind)).reverse

/-- The kinds of the accesses of a handle by a job and by those before it, the last one first. -/
def kindsUpTo (p : Program δ) (h : HandleId) (s : Nat) : List Access.Kind :=
  ((p.plan.filter fun u => u.2.handle = h ∧ u.1 ≤ s).map (·.2.kind)).reverse

/-- The version of a handle that a job gets which accesses it. -/
def version (p : Program δ) (h : HandleId) (s : Nat) : Version := versionCount (p.kindsUpTo h s) - 1

/-- Whether two jobs access every handle that they have in common in the same way: both accesses are
of one commutative kind and get one version. -/
def Shares (p : Program δ) (a b : Nat) : Prop :=
  ∀ h k k', (a, ⟨h, k⟩) ∈ p.plan → (b, ⟨h, k'⟩) ∈ p.plan →
    k = k' ∧ k.properties.commutative = true ∧ p.version h a = p.version h b

/-- What the work of a job does to the data. -/
def effect (p : Program δ) (s : Nat) (data : δ) : δ := (p[s]?).elim data (·.effect data)

/-- What becomes of the data when jobs do their work in the given order. -/
def outcome (p : Program δ) (order : List Nat) (data : δ) : δ :=
  order.foldl (fun data s => p.effect s data) data

/-- Whether jobs commute that share what they access. -/
def Commutes (p : Program δ) : Prop :=
  ∀ a b, a ≠ b → p.Shares a b → ∀ data, p.effect b (p.effect a data) = p.effect a (p.effect b data)

/-- A history in which a program is played. -/
structure Plays (p : Program δ) (past : List Moment) : Prop where
  /-- The tasks are built one after another. -/
  built : (past.filterMap Moment.use?).reverse = p.plan
  accepted : ∀ s, .accepted s ∈ past ↔ s < p.length
  /-- All tasks are handed in before any of them starts. -/
  before : ∀ a b, ¬[.accepted a, .started b].Sublist past
  done : ∀ s, s < p.length → .disposed s ∈ past

end Program

/-- An order in which tasks may have done their work to the data, each of them between its start and
its return: a task that has returned before another one starts comes before it. -/
structure Linearizes (order : List Nat) (past : List Moment) : Prop where
  nodup : order.Nodup
  mem : ∀ s, s ∈ order ↔ .returned s ∈ past
  respects : ∀ a b, .returned b ∈ past → [.started b, .returned a].Sublist past →
    [a, b].Sublist order

/-! ## Out of order -/

/-- Doing something first or last comes to the same if it commutes with all that comes between. -/
theorem foldl_comm {α β : Type} {f : β → α → β} {x : α} {ys : List α}
    (commutes : ∀ y ∈ ys, ∀ z, f (f z x) y = f (f z y) x) (z : β) :
    ys.foldl f (f z x) = f (ys.foldl f z) x := by
  induction ys generalizing z with
  | nil => rfl
  | cons y ys ih =>
      rw [List.foldl_cons, List.foldl_cons, commutes y List.mem_cons_self,
        ih fun o mem => commutes o (List.mem_cons_of_mem y mem)]

/-- Things that are done out of order come to the same if those that change places commute. -/
theorem foldl_eq_of_perm {β : Type} {f : β → Nat → β} {xs ys : List Nat}
    (sorted : xs.Pairwise (· < ·)) (same : ys.Perm xs)
    (commutes : ∀ a b, a < b → [b, a].Sublist ys → ∀ z, f (f z a) b = f (f z b) a) (z : β) :
    ys.foldl f z = xs.foldl f z := by
  induction xs generalizing ys z with
  | nil => rw [same.eq_nil]
  | cons x xs ih =>
      rw [List.pairwise_cons] at sorted
      obtain ⟨before, after, rfl⟩ := List.append_of_mem (same.mem_iff.2 List.mem_cons_self)
      have rest : (before ++ after).Perm xs :=
        List.Perm.cons_inv (List.perm_middle.symm.trans same)
      -- the least is brought to the front
      have front : before.foldl f (f z x) = f (before.foldl f z) x := by
        refine foldl_comm (fun y mem => commutes x y ?_ ?_) z
        · exact sorted.1 y (rest.mem_iff.1 (List.mem_append_left after mem))
        · exact (List.singleton_sublist.2 mem).append
            (List.singleton_sublist.2 List.mem_cons_self)
      rw [List.foldl_append, List.foldl_cons, ← front, List.foldl_cons, ← List.foldl_append]
      refine ih sorted.2 rest (fun a b less order => commutes a b less (order.trans ?_)) _
      exact (List.Sublist.refl before).append (List.sublist_cons_self x after)

/-- Two things come in one order only in a list without repetitions. -/
theorem eq_of_both_orders {α : Type} {xs : List α} (nodup : xs.Nodup) {a b : α}
    (order : [a, b].Sublist xs) (order' : [b, a].Sublist xs) : a = b := by
  induction xs with
  | nil => cases order
  | cons x xs ih =>
      rw [List.nodup_cons] at nodup
      cases order with
      | cons _ order =>
          cases order' with
          | cons _ order' => exact ih nodup.2 order order'
          | cons_cons _ rest =>
              exact absurd (order.subset (List.mem_cons_of_mem _ List.mem_cons_self)) nodup.1
      | cons_cons _ rest =>
          cases order' with
          | cons _ order' =>
              exact absurd (order'.subset (List.mem_cons_of_mem _ List.mem_cons_self)) nodup.1
          | cons_cons _ _ => rfl

variable {δ : Type} {p : Program δ} {past : List Moment} {m : Machine}

/-- Doing all jobs in the order of their numbers is doing them one after another. -/
theorem Program.outcome_range (p : Program δ) (data : δ) :
    p.outcome (List.range p.length) data = p.foldl (fun data job => job.effect data) data := by
  have jobs : (List.range p.length).map (p[·]?) = p.map some := by
    apply List.ext_getElem
    · simp
    · simp
  calc p.outcome (List.range p.length) data
      = ((List.range p.length).map (p[·]?)).foldl
          (fun data (job : Option (Job δ)) => job.elim data (·.effect data)) data := by
        rw [List.foldl_map]
        rfl
    _ = (p.map some).foldl
          (fun data (job : Option (Job δ)) => job.elim data (·.effect data)) data := by rw [jobs]
    _ = p.foldl (fun data job => job.effect data) data := List.foldl_map

/-! ## Plays -/

/-- The accesses of a program get their versions job by job. -/
theorem Program.pairwise_plan (p : Program δ) : p.plan.Pairwise (·.1 ≤ ·.1) := by
  rw [plan, List.pairwise_flatMap]
  refine ⟨fun job _ => ?_, ?_⟩
  · rw [List.pairwise_map]
    exact List.pairwise_of_forall fun _ _ => Nat.le_refl _
  · rw [List.pairwise_iff_getElem]
    intro i j _ _ less x mem y mem'
    obtain ⟨u, -, rfl⟩ := List.mem_map.1 mem
    obtain ⟨u', -, rfl⟩ := List.mem_map.1 mem'
    simpa using Nat.le_of_lt less

/-- What is planned of a handle is what has been booked of it. -/
theorem Program.filter_plan (built : (past.filterMap Moment.use?).reverse = p.plan)
    (h : HandleId) : p.plan.filter (·.2.handle = h) =
      ((bookings h past).map fun e => (e.1, (⟨e.2.handle, e.2.kind⟩ : Use))).reverse := by
  have same : ∀ x : Moment, (x.use?.filter fun u => decide (u.2.handle = h)) =
      (x.booking? h).map fun e => (e.1, (⟨e.2.handle, e.2.kind⟩ : Use)) := by
    intro x
    cases x with
    | scheduled s d =>
        by_cases here : d.handle = h <;> simp [Moment.use?, Moment.booking?, here]
    | accepted s | started s | returned s | released s d | disposed s => rfl
  rw [← built, List.filter_reverse, List.filter_filterMap, bookings, List.map_filterMap]
  exact congrArg _ (congrArg (List.filterMap · past) (funext same))

namespace Program.Plays

/-- A task of a play gets versions for the accesses of its job. -/
theorem mem_plan (plays : p.Plays past) {s : Nat} {d : Dependency}
    (scheduled : .scheduled s d ∈ past) : (s, ⟨d.handle, d.kind⟩) ∈ p.plan := by
  rw [← plays.built, List.mem_reverse]
  exact List.mem_filterMap.2 ⟨_, scheduled, rfl⟩

/-- An access of a job gets a version in a play. -/
theorem exists_scheduled (plays : p.Plays past) {s : Nat} {u : Use} (planned : (s, u) ∈ p.plan) :
    ∃ d, .scheduled s d ∈ past ∧ d.handle = u.handle ∧ d.kind = u.kind := by
  rw [← plays.built, List.mem_reverse, List.mem_filterMap] at planned
  obtain ⟨x, mem, used⟩ := planned
  unfold Moment.use? at used
  split at used
  · next d =>
    cases used
    exact ⟨d, mem, rfl, rfl⟩
  · cases used

/-- Only jobs of the program access handles. -/
theorem lt_of_mem_plan {s : Nat} {u : Use} (planned : (s, u) ∈ p.plan) : s < p.length := by
  obtain ⟨⟨job, n⟩, mem, used⟩ := List.mem_flatMap.1 planned
  obtain ⟨u, -, same⟩ := List.mem_map.1 used
  cases same
  have := List.mem_zipIdx mem
  lia

/-- Of two accesses by different jobs the one of the earlier job gets its version first. -/
theorem order_of_lt (plays : p.Plays past) {a b : Nat} (less : a < b) {d e : Dependency}
    (scheduled : .scheduled a d ∈ past) (scheduled' : .scheduled b e ∈ past) :
    [.scheduled b e, .scheduled a d].Sublist past := by
  have different : Moment.scheduled b e ≠ .scheduled a d := fun same =>
    Nat.ne_of_gt less (Moment.scheduled.inj same).1
  refine (order_of_mem scheduled' scheduled different).resolve_right fun order => ?_
  have planned := (order.filterMap Moment.use?).reverse
  rw [plays.built] at planned
  have sorted := p.pairwise_plan.sublist planned
  exact Nat.not_le_of_lt less (by simpa [Moment.use?] using sorted)

variable {l : Launch} {vocabulary : Access.Vocabulary} {handles callers : Nat}
  {references : Array HandleId}

/-- The tasks of a play get the versions of the program. -/
theorem version_eq (plays : p.Plays past)
    (run : Machine.Runs (l.opening vocabulary handles callers references) past m) {s : Nat}
    {d : Dependency} (scheduled : .scheduled s d ∈ past)
    (numbered : Numbered (bookings d.handle past)) : d.version = p.version d.handle s := by
  have mem : (s, d) ∈ bookings d.handle past := mem_bookings.2 ⟨scheduled, rfl⟩
  have filtered := p.filter_plan plays.built d.handle
  have sorted : (bookings d.handle past).Pairwise (·.1 ≥ ·.1) := by
    have planned := p.pairwise_plan.filter (·.2.handle = d.handle)
    rw [filtered, List.pairwise_reverse, List.pairwise_map] at planned
    exact planned
  have distinct : (bookings d.handle past).Nodup :=
    run.orderly.2.nodup_past.filterMap fun x y e booked booked' => by
      rw [Option.mem_def, booking?_eq_some] at booked booked'
      exact booked.1.trans booked'.1.symm
  have kinds : p.kindsUpTo d.handle s =
      ((bookings d.handle past).filter (·.1 ≤ s)).map (·.2.kind) := by
    have both : (p.plan.filter fun u => u.2.handle = d.handle ∧ u.1 ≤ s) =
        (p.plan.filter (·.2.handle = d.handle)).filter (·.1 ≤ s) := by
      rw [List.filter_filter]
      exact List.filter_congr fun u _ => by rw [Bool.decide_and, Bool.and_comm]
    rw [kindsUpTo, both, filtered, List.filter_reverse, List.map_reverse, List.reverse_reverse,
      List.filter_map, List.map_map]
    rfl
  -- the accesses by the job and by those before it are the last ones in the list
  obtain ⟨newer, rest, split⟩ := List.append_of_mem mem
  have told := numbered (s, d) rest (split ▸ List.suffix_append ..)
  rw [split] at sorted distinct kinds
  rw [List.pairwise_append, List.pairwise_cons] at sorted
  rw [List.nodup_append] at distinct
  have later : newer.filter (·.1 ≤ s) = [] := by
    rw [List.filter_eq_nil_iff]
    rintro ⟨o, e⟩ mem' le
    have ge : s ≤ o := sorted.2.2 _ mem' _ List.mem_cons_self
    obtain rfl : o = s := Nat.le_antisymm (of_decide_eq_true le) ge
    obtain ⟨scheduled', here⟩ := mem_bookings.1 (split ▸ List.mem_append_left _ mem' :
      (o, e) ∈ bookings d.handle past)
    obtain rfl := run.eq_of_handle scheduled' scheduled here
    exact distinct.2.2 _ mem' _ List.mem_cons_self rfl
  have earlier : ((s, d) :: rest).filter (·.1 ≤ s) = (s, d) :: rest := by
    rw [List.filter_eq_self]
    intro e mem'
    rcases List.mem_cons.1 mem' with rfl | mem'
    · simp
    · simpa using sorted.2.1.1 e mem'
  rw [List.filter_append, later, earlier, List.nil_append] at kinds
  rw [version, kinds, ← told, Nat.add_sub_cancel]

/-- In a play no version is reserved after one has been released. -/
theorem unhurried (plays : p.Plays past)
    (run : Machine.Runs (l.opening vocabulary handles callers references) past m) :
    Unhurried past := by
  intro s d a e order
  have scheduled : .scheduled s d ∈ past := order.subset List.mem_cons_self
  have accepted : .accepted s ∈ past :=
    (plays.accepted s).2 (lt_of_mem_plan (plays.mem_plan scheduled))
  obtain ⟨later, earlier, rfl⟩ := List.append_of_mem accepted
  have orderly := run.orderly.2
  -- the task has been built when it is handed in, so the version has been released before that
  have mem := orderly.scheduled_before (x := .accepted s) List.mem_cons_self (by simp) scheduled
  have released : .released a e ∈ .accepted s :: earlier :=
    (sublist_of_mem orderly.nodup_past order mem).subset
      (List.mem_cons_of_mem _ List.mem_cons_self)
  obtain ⟨before, prior⟩ := run.upto
  have started := (prior.orderly.2.started_of_returned
    (prior.orderly.2.returned_of_released released)).2
  have first := (List.mem_cons.1 started).resolve_left (by simp)
  refine plays.before s a (List.Sublist.trans ?_ (List.sublist_append_right later _))
  exact (List.singleton_sublist.2 first).cons_cons _

/-- Jobs that do not access all that they have in common in the same way do their work in the order
in which they were built. -/
theorem returned_of_conflict (plays : p.Plays past)
    (run : Machine.Runs (l.opening vocabulary handles callers references) past m)
    (valid : vocabulary.kindSet.validate = .ok ())
    (listed : ∀ u ∈ p.plan, u.2.kind ∈ vocabulary.listed) {a b : Nat} (less : a < b)
    (conflict : ¬p.Shares a b) (started : .started b ∈ past) :
    [.started b, .returned a].Sublist past := by
  have kinds : ∀ s d, .scheduled s d ∈ past → d.kind ∈ vocabulary.listed := fun s d mem =>
    listed _ (plays.mem_plan mem)
  have numbered := run.numbered valid kinds (plays.unhurried run)
  -- a handle that is not accessed in the same way
  obtain ⟨d, e, scheduled, scheduled', same, differ⟩ : ∃ d e, .scheduled a d ∈ past ∧
      .scheduled b e ∈ past ∧ d.handle = e.handle ∧
      ¬(d.kind = e.kind ∧ d.kind.properties.commutative = true ∧ d.version = e.version) := by
    by_contra none
    refine conflict fun h k k' planned planned' => ?_
    obtain ⟨d, scheduled, rfl, rfl⟩ := plays.exists_scheduled planned
    obtain ⟨e, scheduled', here, rfl⟩ := plays.exists_scheduled planned'
    have here : e.handle = d.handle := here
    have version := plays.version_eq run scheduled (numbered _)
    have version' := plays.version_eq run scheduled' (numbered _)
    by_contra differ
    refine none ⟨d, e, scheduled, scheduled', here.symm, fun alike => differ ?_⟩
    rw [here, ← alike.2.2] at version'
    exact ⟨alike.1, alike.2.1, version.symm.trans version'⟩
  have order := plays.order_of_lt less scheduled scheduled'
  have orderly := run.orderly.2
  have later : d.version < e.version := by
    rcases orderly.follows_of_order same order with later | ⟨version, index, commutative⟩
    · exact later
    · have kind := Access.KindSet.eq_of_index_eq valid (kinds a d scheduled)
        (kinds b e scheduled') index.symm
      exact absurd ⟨kind, commutative, version⟩ differ
  obtain ⟨newer, older, rfl⟩ := List.append_of_mem started
  obtain ⟨before, prior⟩ := run.upto
  have now := sublist_of_mem orderly.nodup_past order
    (orderly.scheduled_of_started List.mem_cons_self scheduled')
  have returned := prior.orderly.2.returned_of_earlier same
    (now.subset (List.mem_cons_of_mem _ List.mem_cons_self)) (now.subset List.mem_cons_self) later
    prior.orderly.2.running_of_started
  refine List.Sublist.trans ?_ (List.sublist_append_right newer _)
  exact (List.singleton_sublist.2 ((List.mem_cons.1 returned).resolve_left (by simp))).cons_cons _

/-- All jobs of a play return, and nobody else does. -/
theorem returned_iff (plays : p.Plays past)
    (run : Machine.Runs (l.opening vocabulary handles callers references) past m) {s : Nat} :
    .returned s ∈ past ↔ s < p.length := by
  constructor
  · exact fun returned =>
      (plays.accepted s).1 (run.orderly.2.started_of_returned returned).1
  · intro inside
    obtain ⟨later, earlier, rfl⟩ := List.append_of_mem (plays.done s inside)
    exact List.mem_append_right _ (List.mem_cons_of_mem _ run.orderly.2.before_disposed.1)

/-- All that is built in a play is handed in. -/
theorem allAccepted (plays : p.Plays past) : AllAccepted past := by
  intro s built
  obtain ⟨x, mem, now⟩ := List.mem_filterMap.1 built
  unfold Moment.builds? at now
  split at now
  · cases now
    exact (plays.accepted _).2 (lt_of_mem_plan (plays.mem_plan mem))
  · cases now

/-- When a program has been played, the jobs have had the same effect as if they had been done one
after another. -/
theorem outcome_eq (plays : p.Plays past)
    (run : Machine.Runs (l.opening vocabulary handles callers references) past m)
    (valid : vocabulary.kindSet.validate = .ok ())
    (listed : ∀ u ∈ p.plan, u.2.kind ∈ vocabulary.listed) (commutes : p.Commutes)
    {order : List Nat} (linear : Linearizes order past) (data : δ) :
    p.outcome order data = p.foldl (fun data job => job.effect data) data := by
  have mem : ∀ s, s ∈ order ↔ s < p.length := fun s =>
    (linear.mem s).trans (plays.returned_iff run)
  have same : order.Perm (List.range p.length) := by
    rw [List.perm_ext_iff_of_nodup linear.nodup List.nodup_range]
    simp [mem]
  rw [← p.outcome_range]
  refine foldl_eq_of_perm List.pairwise_lt_range same (fun a b less inverted data => ?_) data
  refine commutes a b (Nat.ne_of_lt less) ?_ data
  by_contra conflict
  have returned : .returned b ∈ past := (linear.mem b).1 (inverted.subset List.mem_cons_self)
  have started := (run.orderly.2.started_of_returned returned).2
  have order := linear.respects a b returned
    (plays.returned_of_conflict run valid listed less conflict started)
  exact Nat.ne_of_lt less (eq_of_both_orders linear.nodup order inverted)

/-- When a program has been played, every handle has completed the versions that were reserved for
its accesses. -/
theorem completed_eq (plays : p.Plays past)
    (run : Machine.Runs (l.opening vocabulary handles callers references) past m)
    (valid : vocabulary.kindSet.validate = .ok ())
    (listed : ∀ u ∈ p.plan, u.2.kind ∈ vocabulary.listed) (h : HandleId) :
    (m.handles.get h).completed = versionCount (p.kindsOf h) := by
  obtain ⟨sound, orderly⟩ := run.orderly
  have released : unreleased past = [] := by
    rw [List.eq_nil_iff_forall_not_mem]
    rintro ⟨s, d⟩ held
    have alive := orderly.stuck_of_unreleased plays.allAccepted held
    exact alive.2 (plays.done s (lt_of_mem_plan (plays.mem_plan (scheduled_of_unreleased held))))
  have numbered := run.numbered valid
    (fun s d mem => listed _ (plays.mem_plan mem)) (plays.unhurried run) h
  have kinds : p.kindsOf h = (bookings h past).map (·.2.kind) := by
    rw [kindsOf, p.filter_plan plays.built, List.map_reverse, List.reverse_reverse, List.map_map]
    rfl
  show (m.world.units h).completed = _
  rw [orderly.ledger.completed_of_released released, kinds]
  cases booked : bookings h past with
  | nil => exact orderly.ledger.unused h booked
  | cons e es =>
      rw [(orderly.ledger.newest h e es booked).1]
      exact numbered e es (booked ▸ List.suffix_refl _)

end Program.Plays

/-! ## Runs -/

/-- Whatever two pools are like, and however their workers take their turns, when a program has been
played on each of them, the data is what comes of doing the jobs one after another in the order in
which they were built, and every handle has come to the same version on both. -/
theorem Machine.Runs.schedule_independent {vocabulary : Access.Vocabulary} {handles : Nat}
    {l l' : Launch} {callers callers' : Nat} {references references' : Array HandleId}
    {past past' : List Moment} {m m' : Machine}
    (run : Runs (l.opening vocabulary handles callers references) past m)
    (run' : Runs (l'.opening vocabulary handles callers' references') past' m')
    (valid : vocabulary.kindSet.validate = .ok ())
    (listed : ∀ u ∈ p.plan, u.2.kind ∈ vocabulary.listed) (commutes : p.Commutes)
    (plays : p.Plays past) (plays' : p.Plays past') {order order' : List Nat}
    (linear : Linearizes order past) (linear' : Linearizes order' past') (data : δ) :
    p.outcome order data = p.foldl (fun data job => job.effect data) data ∧
    p.outcome order' data = p.outcome order data ∧
    ∀ h, (m.handles.get h).completed = (m'.handles.get h).completed := by
  have first := plays.outcome_eq run valid listed commutes linear data
  have second := plays'.outcome_eq run' valid listed commutes linear' data
  refine ⟨first, second.trans first.symm, fun h => ?_⟩
  rw [plays.completed_eq run valid listed, plays'.completed_eq run' valid listed]

/-! ## Two writes -/

/-- Two jobs that write the same handle, and that do not commute. -/
def addThenDouble : Program Nat :=
  [⟨[⟨0, writeKind⟩], (· + 1)⟩, ⟨[⟨0, writeKind⟩], (2 * ·)⟩]

/-- The history of two tasks that write the same handle. -/
def twoWritesDone : List Moment :=
  [.disposed 1, .released 1 (writeAccess 1), .returned 1, .started 1,
    .disposed 0, .released 0 (writeAccess 0), .returned 0, .started 0,
    .accepted 1, .scheduled 1 (writeAccess 1), .accepted 0, .scheduled 0 (writeAccess 0)]

/-- A pool of two workers that checks tasks when they are about to run, with one handle. -/
def lazyPool : Machine :=
  Launch.opening ⟨.priority, .linked, .report, ⟨2, by decide⟩,
    { Options.default with readiness := .lazy }⟩ .usual 1 0 #[0]

/-- Two tasks that write the same handle are handed in one after the other, and the owner does both
at the barrier. -/
def twoWritesLazily : List Move :=
  .spawn 0 writeTask :: (steps 0 7 ++ .spawn 0 writeTask :: (steps 0 7 ++ .lead :: steps 0 40))

theorem commutes_addThenDouble : addThenDouble.Commutes := by
  intro a b different shares data
  -- the two jobs do not share their handle, and there are no others
  have outside : ∀ s, 2 ≤ s → ∀ data, addThenDouble.effect s data = data := by
    intro s late data
    rw [Program.effect, List.getElem?_eq_none (by simpa [addThenDouble] using late)]
    rfl
  by_cases late : 2 ≤ a
  · rw [outside a late, outside a late]
  · by_cases late' : 2 ≤ b
    · rw [outside b late', outside b late']
    · have unshared : writeKind.properties.commutative ≠ true := by decide
      have planned : ∀ s < 2, (s, ⟨0, writeKind⟩) ∈ addThenDouble.plan := by decide
      exact absurd (shares 0 writeKind writeKind (planned a (by lia)) (planned b (by lia))).2.1
        unshared

theorem plays_addThenDouble : addThenDouble.Plays twoWritesDone where
  built := by decide
  accepted s := by
    simp only [twoWritesDone, addThenDouble, List.mem_cons, Moment.accepted.injEq, reduceCtorEq,
      List.not_mem_nil, List.length_cons, List.length_nil]
    lia
  before a b order := by
    have apart : twoWritesDone.Pairwise fun x y =>
        x = .accepted x.serial → y ≠ .started y.serial := by decide
    have pair := apart.sublist order
    simp [Moment.serial] at pair
  done := by decide

theorem linearizes_addThenDouble : Linearizes [0, 1] twoWritesDone where
  nodup := by decide
  mem s := by
    simp only [twoWritesDone, List.mem_cons, Moment.returned.injEq, reduceCtorEq,
      List.not_mem_nil]
    lia
  respects a b returned order := by
    have apart : twoWritesDone.Pairwise fun x y =>
        x = .started x.serial → y = .returned y.serial → x.serial = 1 ∧ y.serial = 0 := by decide
    have pair := apart.sublist order
    obtain ⟨rfl, rfl⟩ : b = 1 ∧ a = 0 := by simpa [Moment.serial] using pair
    exact .refl _

/-- What is doubled after one has been added to it is doubled last on every pool. -/
theorem Machine.Runs.added_then_doubled :
    ∃ past m past' m', Runs (smallPool ⟨1, by decide⟩) past m ∧ Runs lazyPool past' m' ∧
      addThenDouble.Plays past ∧ addThenDouble.Plays past' ∧
      addThenDouble.outcome [0, 1] 5 = 12 ∧
      ∀ h, (m.handles.get h).completed = (m'.handles.get h).completed := by
  obtain ⟨past, m, run, seen⟩ := exists_runs (smallPool ⟨1, by decide⟩) twoWrites
    (fun past _ => past = twoWritesDone) (by decide +kernel)
  obtain ⟨past', m', run', seen'⟩ := exists_runs lazyPool twoWritesLazily
    (fun past _ => past = twoWritesDone) (by decide +kernel)
  obtain rfl := of_decide_eq_true seen
  obtain rfl := of_decide_eq_true seen'
  obtain ⟨outcome, -, same⟩ := run.schedule_independent run' Access.Vocabulary.validate_usual
    (by decide) commutes_addThenDouble plays_addThenDouble plays_addThenDouble
    linearizes_addThenDouble linearizes_addThenDouble 5
  exact ⟨_, m, _, m', run, run', plays_addThenDouble, plays_addThenDouble, outcome, same⟩

end AccessOrder.Pool
