/- # Tasks that wait for each other

A task is ahead of another one if it holds, of some handle, an earlier version than the one that the
other needs.  Each handle puts its own accesses in an order, but a task gets the versions of its
handles one after the other: if two builds cross, each of the two tasks may be ahead of the other,
and then neither is ever ready.  If tasks are built one at a time, whoever is ahead has been built
earlier, so nobody waits for itself, and one of those who have not been done can go on.

* `Runs.crossing_builds` : a run in which two tasks wait for each other;
* `Runs.acyclic_of_apart` : no task waits for itself if tasks are built one at a time.
-/
import AccessOrder.Proofs.Pool.Exhaustion
import AccessOrder.Proofs.Pool.Readiness
namespace AccessOrder.Pool

/-- Whether a task holds, of some handle, an earlier version than one that another task needs. -/
def Ahead (past : List Moment) (x y : Nat) : Prop :=
  ∃ d e, (x, d) ∈ unreleased past ∧ (y, e) ∈ unreleased past ∧ d.handle = e.handle ∧
    d.version < e.version

/-- How many versions had been reserved before a task got its first one. -/
def buildRank (past : List Moment) (s : Nat) : Nat := (builds past).reverse.idxOf s

variable {past : List Moment} {m : Machine}

/-! ## The order of builds -/

/-- If no two appearances of a thing enclose another thing, then what appears before another thing
first appears before it. -/
theorem idxOf_lt_of_sublist {xs : List Nat} (apart : ∀ a b, [a, b, a].Sublist xs → b = a)
    {x y : Nat} (different : x ≠ y) (order : [x, y].Sublist xs) : xs.idxOf x < xs.idxOf y := by
  have mem : y ∈ xs := order.subset (List.mem_cons_of_mem x List.mem_cons_self)
  obtain ⟨before, rest, rfl, new⟩ := List.eq_append_cons_of_mem mem
  -- otherwise `y` comes before `x`, and after it
  have earlier : x ∈ before := by
    by_contra absent
    obtain ⟨first, second, split, inside, outside⟩ := List.sublist_append_iff.1 order
    obtain rfl : first = [] := by
      cases first with
      | nil => rfl
      | cons z first =>
          obtain rfl : x = z := (List.cons.inj split).1
          exact absurd (inside.subset List.mem_cons_self) absent
    obtain rfl : [x, y] = second := split
    have after : [x, y].Sublist rest := by
      cases outside with
      | cons _ after => exact after
      | cons_cons _ _ => exact absurd rfl different
    exact different (apart y x ((after.cons_cons y).trans (List.sublist_append_right ..)))
  have here : (before ++ y :: rest).idxOf y = before.length := by
    rw [List.idxOf_append_of_notMem new, List.idxOf_cons_self, Nat.add_zero]
  rw [here, List.idxOf_append_of_mem earlier]
  exact List.idxOf_lt_length_of_mem earlier

variable {l : Launch} {vocabulary : Access.Vocabulary} {handles callers : Nat}
  {references : Array HandleId}

/-- Whoever is ahead has been built earlier, if tasks are built one at a time. -/
theorem Machine.Runs.rank_lt_of_ahead
    (run : Runs (l.opening vocabulary handles callers references) past m)
    (apart : BuiltApart past) {x y : Nat} (ahead : Ahead past x y) :
    buildRank past x < buildRank past y := by
  obtain ⟨d, e, holds, needs, same, less⟩ := ahead
  have scheduled := scheduled_of_unreleased holds
  have scheduled' := scheduled_of_unreleased needs
  have order : [.scheduled y e, .scheduled x d].Sublist past := by
    have different : Moment.scheduled y e ≠ .scheduled x d := fun one => by
      rw [(Moment.scheduled.inj one).2] at less
      exact Nat.lt_irrefl _ less
    refine (order_of_mem scheduled' scheduled different).resolve_right fun order => ?_
    rcases run.orderly.2.follows_of_order same.symm order with later | ⟨alike, -, -⟩
    · exact Nat.lt_asymm less later
    · exact Nat.ne_of_gt less alike
  have different : x ≠ y := by
    rintro rfl
    exact Nat.ne_of_lt less (congrArg _ (run.eq_of_handle scheduled scheduled' same))
  have built : [y, x].Sublist (builds past) := order.filterMap Moment.builds?
  refine idxOf_lt_of_sublist (fun a b enclosed => apart a b ?_) different ?_
  · exact List.reverse_sublist.1 (by simpa using enclosed)
  · exact List.reverse_sublist.1 (by simpa using built)

/-- A dependency that is not met is held up by someone who is ahead. -/
theorem Orderly.exists_ahead {w : World} {hands : WorkerId → List Item}
    (orderly : Orderly past w hands) {s : Nat} {d : Dependency} (needs : (s, d) ∈ unreleased past)
    (unmet : ¬w.Met d) : ∃ x, Ahead past x s ∧ ∃ e, (x, e) ∈ unreleased past := by
  obtain ⟨reached, used⟩ := orderly.ledger.in_use needs
  have less := Nat.lt_of_le_of_ne reached unmet
  have held := ((orderly.ledger.sound d.handle).held _).2 ⟨Nat.le_refl _, Nat.lt_trans less used⟩
  obtain ⟨x, e, holds, same, version⟩ := orderly.ledger.exists_unreleased held
  exact ⟨x, ⟨e, d, holds, needs, same, version ▸ less⟩, e, holds⟩

/-! ## Runs -/

/-- In every run of a pool in which tasks are built one at a time nobody waits for itself, however
many others come between; and if all that have been built have been handed in, and one of them has
not been done, then there is one that has not been done and that waits for nobody. -/
theorem Machine.Runs.acyclic_of_apart
    (run : Runs (l.opening vocabulary handles callers references) past m)
    (apart : BuiltApart past) :
    (∀ s, ¬Relation.TransGen (Ahead past) s s) ∧
    (AllAccepted past → (∃ s, Stuck s past) →
      ∃ s, Stuck s past ∧ ∀ d, (s, d) ∈ unreleased past → m.handles.meets d = true) := by
  obtain ⟨sound, orderly⟩ := run.orderly
  have earlier : ∀ {x y}, Relation.TransGen (Ahead past) x y →
      buildRank past x < buildRank past y := by
    intro x y chain
    induction chain with
    | single ahead => exact run.rank_lt_of_ahead apart ahead
    | tail _ ahead ih => exact Nat.lt_trans ih (run.rank_lt_of_ahead apart ahead)
  refine ⟨fun s cycle => Nat.lt_irrefl _ (earlier cycle), fun all stuck => ?_⟩
  -- the one that was built first
  obtain ⟨s, undone, first⟩ := (measure (buildRank past)).wf.has_min {s | Stuck s past} stuck
  refine ⟨s, undone, fun d needs => ?_⟩
  by_contra unmet
  rw [sound.meets_iff] at unmet
  obtain ⟨x, ahead, e, holds⟩ := orderly.exists_ahead needs unmet
  exact first x (orderly.stuck_of_unreleased all holds) (run.rank_lt_of_ahead apart ahead)

/-- Of two tasks that write the same handle, and that have both been handed in, one can go on. -/
theorem Machine.Runs.write_goes_on :
    ∃ past m, Runs (smallPool ⟨1, by decide⟩) past m ∧ Stuck 0 past ∧ Stuck 1 past ∧
      ∃ s, Stuck s past ∧ ∀ d, (s, d) ∈ unreleased past → m.handles.meets d = true := by
  obtain ⟨past, m, run, seen⟩ := exists_runs (smallPool ⟨1, by decide⟩)
    (.spawn 0 writeTask :: (steps 0 9 ++ .spawn 0 writeTask :: steps 0 5))
    (fun past _ => .accepted 0 ∈ past ∧ .accepted 1 ∈ past ∧ .disposed 0 ∉ past ∧
      .disposed 1 ∉ past ∧ builds past = [1, 0]) (by decide +kernel)
  obtain ⟨first, second, undone, undone', built⟩ := of_decide_eq_true seen
  have apart : BuiltApart past := fun a b order => by
    have short := (built ▸ order).length_le
    simp at short
  have all : AllAccepted past := by
    rw [AllAccepted, built]
    simp [first, second]
  exact ⟨past, m, run, ⟨first, undone⟩, ⟨second, undone'⟩,
    (run.acyclic_of_apart apart).2 all ⟨0, first, undone⟩⟩

/-! ## Builds that cross -/

/-- A task that writes two handles, one after the other. -/
def writeBoth (first second : HandleNumber) : Blueprint Act :=
  ⟨"both", [⟨first, writeKind⟩, ⟨second, writeKind⟩], .normal, none, none, []⟩

/-- A write of a handle that has got a version. -/
def writeOf (h : HandleId) (v : Version) : Dependency := ⟨⟨⟨h, writeKind⟩, h⟩, v⟩

/-- A pool with one worker, two handles and a caller. -/
def crossroads : Machine :=
  Launch.opening ⟨.plain, .flat, .discard, ⟨1, by decide⟩, .default⟩ .usual 2 1 #[0, 1]

/-- The owner and the caller each build a task that writes both handles, in different orders, and
get their versions in turns.  Then both hand their tasks in. -/
def crossingBuilds : List Move :=
  [.spawn 0 (writeBoth 0 1), .spawn 1 (writeBoth 1 0), .step 0, .step 1, .step 0, .step 1] ++
    (steps 0 5 ++ steps 1 5)

/-- Two tasks that were built at once wait for each other, although both have been accepted: neither
is ready, and nobody else is left who could let them go on. -/
theorem Machine.Runs.crossing_builds :
    ∃ past m, Runs crossroads past m ∧ AllAccepted past ∧ Ahead past 0 1 ∧ Ahead past 1 0 ∧
      Stuck 0 past ∧ Stuck 1 past ∧
      ∀ s, Stuck s past → ∃ d, (s, d) ∈ unreleased past ∧ m.handles.meets d = false := by
  obtain ⟨past, m, run, seen⟩ := exists_runs crossroads crossingBuilds
    (fun past m => (.accepted 0 ∈ past ∧ .accepted 1 ∈ past ∧ .disposed 0 ∉ past ∧
      .disposed 1 ∉ past ∧ builds past = [1, 0, 1, 0] ∧
      unreleased past = [(1, writeOf 0 1), (0, writeOf 1 1), (1, writeOf 1 0), (0, writeOf 0 0)]) ∧
      (∀ x ∈ past, x.serial = 0 ∨ x.serial = 1) ∧
      m.handles.meets (writeOf 1 1) = false ∧ m.handles.meets (writeOf 0 1) = false)
    (by decide +kernel)
  obtain ⟨⟨first, second, undone, undone', built, held⟩, only, unmet, unmet'⟩ :=
    of_decide_eq_true seen
  refine ⟨past, m, run, ?_, ⟨writeOf 0 0, writeOf 0 1, ?_⟩, ⟨writeOf 1 0, writeOf 1 1, ?_⟩,
    ⟨first, undone⟩, ⟨second, undone'⟩, fun s stuck => ?_⟩
  · rw [AllAccepted, built]
    simp [first, second]
  · rw [held]
    decide
  · rw [held]
    decide
  · rw [held]
    rcases only _ stuck.1 with own | own <;> cases own
    · exact ⟨writeOf 1 1, by simp, unmet⟩
    · exact ⟨writeOf 0 1, by simp, unmet'⟩

end AccessOrder.Pool
