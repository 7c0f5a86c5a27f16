/- # The story of a task

What has happened `about` one task, the last moment first, and the stories that it can make up: a
task is planned access by access, accepted, started, returned, releases its versions in order, and
is disposed.  The accesses that have got a version and not released it are `unreleased`; which they
are for one task can be told from its own story.

* `mem_unreleased_about` : what is unreleased of a task can be told from its story;
* `mem_unreleased_story` : how much of a story is unreleased.
-/
import Mathlib
import AccessOrder.Proofs.Pool.History
namespace AccessOrder.Pool

/-- What has happened to one task. -/
def about (s : Nat) (past : List Moment) : List Moment := past.filter (·.serial = s)

@[simp] theorem about_nil (s : Nat) : about s [] = [] := rfl

theorem about_append (s : Nat) (ms past : List Moment) :
    about s (ms ++ past) = about s ms ++ about s past := List.filter_append ..

theorem about_cons_self (x : Moment) (past : List Moment) :
    about x.serial (x :: past) = x :: about x.serial past :=
  List.filter_cons_of_pos (by simp)

/-- A story goes on with what happens next. -/
theorem about_next {s : Nat} {x : Moment} {past told : List Moment} (own : x.serial = s)
    (before : about s past = told) : about s (x :: past) = x :: told := by
  subst own before
  exact about_cons_self x past

theorem about_cons_of_ne {s : Nat} {x : Moment} (other : x.serial ≠ s) (past : List Moment) :
    about s (x :: past) = about s past :=
  List.filter_cons_of_neg (by simpa using other)

theorem mem_about {s : Nat} {x : Moment} {past : List Moment} :
    x ∈ about s past ↔ x ∈ past ∧ x.serial = s := by
  rw [about, List.mem_filter, decide_eq_true_eq]

/-! ## Unreleased accesses -/

/-- The accesses of all tasks that have got a version and not released it. -/
def unreleased : List Moment → List (Nat × Dependency)
  | [] => []
  | .scheduled s d :: past => (s, d) :: unreleased past
  | .released s d :: past => (unreleased past).erase (s, d)
  | .accepted _ :: past | .started _ :: past | .returned _ :: past | .disposed _ :: past =>
    unreleased past

/-- Only the moments of a task have a bearing on what it has not released. -/
theorem count_unreleased (s : Nat) (d : Dependency) (past : List Moment) :
    (unreleased past).count (s, d) = (unreleased (about s past)).count (s, d) := by
  induction past with
  | nil => rfl
  | cons x past ih =>
      by_cases own : x.serial = s
      · subst own
        rw [about_cons_self]
        cases x with
        | scheduled s e => exact (List.count_cons ..).trans (ih ▸ (List.count_cons ..).symm)
        | released s e => exact List.count_erase.trans (ih ▸ List.count_erase.symm)
        | accepted s | started s | returned s | disposed s => exact ih
      · rw [about_cons_of_ne own, ← ih]
        have other : ∀ {e : Dependency}, (s, d) ≠ (x.serial, e) := fun same =>
          own (Prod.mk.inj same).1.symm
        cases x with
        | scheduled s' e => exact List.count_cons_of_ne other.symm
        | released s' e => exact List.count_erase_of_ne other
        | accepted s' | started s' | returned s' | disposed s' => rfl

/-- What is unreleased of a task can be told from its story. -/
theorem mem_unreleased_about {s : Nat} {d : Dependency} {past : List Moment} :
    (s, d) ∈ unreleased past ↔ (s, d) ∈ unreleased (about s past) := by
  rw [← List.count_pos_iff, count_unreleased, List.count_pos_iff]

/-- What is unreleased has got its version. -/
theorem scheduled_of_unreleased {s : Nat} {d : Dependency} {past : List Moment}
    (held : (s, d) ∈ unreleased past) : .scheduled s d ∈ past := by
  induction past with
  | nil => cases held
  | cons x past ih =>
      cases x with
      | scheduled s' e =>
          rcases List.mem_cons.1 held with same | held
          · obtain ⟨rfl, rfl⟩ := Prod.mk.inj same
            exact List.mem_cons_self
          · exact List.mem_cons_of_mem _ (ih held)
      | released s' e => exact List.mem_cons_of_mem _ (ih (List.mem_of_mem_erase held))
      | accepted s' | started s' | returned s' | disposed s' =>
          exact List.mem_cons_of_mem _ (ih held)

/-- What has got a version and not released it is unreleased. -/
theorem mem_unreleased {s : Nat} {d : Dependency} {past : List Moment}
    (scheduled : .scheduled s d ∈ past) (kept : .released s d ∉ past) :
    (s, d) ∈ unreleased past := by
  induction past with
  | nil => cases scheduled
  | cons x past ih =>
      rw [List.mem_cons, not_or] at kept
      rcases List.mem_cons.1 scheduled with rfl | scheduled
      · exact List.mem_cons_self
      · have held := ih scheduled kept.2
        cases x with
        | scheduled s' e => exact List.mem_cons_of_mem _ held
        | released s' e =>
            refine (List.mem_erase_of_ne ?_).2 held
            rintro ⟨⟩
            exact kept.1 rfl
        | accepted s' | started s' | returned s' | disposed s' => exact held

/-! ## Stories -/

/-- How far the story of a task has come. -/
inductive Chapter where
  /-- Some of its accesses, or all, have got their versions. -/
  | planned
  | accepted
  | started
  /-- The work is done, and the versions of `done` are released. -/
  | returned (done : List Dependency)
  | closed

/-- The accesses of a task get their versions in order. -/
def plan (s : Nat) (ds : List Dependency) : List Moment := ds.reverse.map (.scheduled s)

/-- The versions of accesses are released in order, after what came before. -/
def releases (s : Nat) (ds : List Dependency) (past : List Moment) : List Moment :=
  ds.reverse.map (.released s) ++ past

/-- The story of a task with the given accesses, up to a chapter. -/
def story (s : Nat) (ds : List Dependency) : Chapter → List Moment
  | .planned => plan s ds
  | .accepted => .accepted s :: plan s ds
  | .started => .started s :: .accepted s :: plan s ds
  | .returned done => releases s done (.returned s :: .started s :: .accepted s :: plan s ds)
  | .closed =>
    .disposed s :: releases s ds (.returned s :: .started s :: .accepted s :: plan s ds)

/-- The accesses whose versions have been released in the course of a story. -/
def Chapter.released (ds : List Dependency) : Chapter → List Dependency
  | .planned | .accepted | .started => []
  | .returned done => done
  | .closed => ds

theorem unreleased_plan (s : Nat) (ds : List Dependency) :
    unreleased (plan s ds) = ds.reverse.map (s, ·) := by
  unfold plan
  induction ds.reverse with
  | nil => rfl
  | cons d ds ih => rw [List.map_cons, List.map_cons, unreleased, ih]

theorem unreleased_releases {s : Nat} {ds : List Dependency} {past : List Moment}
    (nodup : (unreleased past).Nodup) :
    (unreleased (releases s ds past)).Nodup ∧ ∀ d,
      (s, d) ∈ unreleased (releases s ds past) ↔ (s, d) ∈ unreleased past ∧ d ∉ ds := by
  have reversed : ∀ rs : List Dependency,
      (unreleased (rs.map (.released s) ++ past)).Nodup ∧ ∀ d,
        (s, d) ∈ unreleased (rs.map (.released s) ++ past) ↔
          (s, d) ∈ unreleased past ∧ d ∉ rs := by
    intro rs
    -- the last release is the first in the list, so the list is not read backwards
    induction rs with
    | nil => exact ⟨nodup, fun d => by simp⟩
    | cons r rs ih =>
        rw [List.map_cons, List.cons_append, unreleased]
        refine ⟨ih.1.erase _, fun d => ?_⟩
        rw [ih.1.mem_erase_iff, ih.2, List.mem_cons, not_or, Ne, Prod.mk.injEq]
        constructor
        · rintro ⟨other, held, left⟩
          exact ⟨held, fun same => other ⟨rfl, same⟩, left⟩
        · rintro ⟨held, other, left⟩
          exact ⟨fun same => other same.2, held, left⟩
  obtain ⟨distinct, mem⟩ := reversed ds.reverse
  exact ⟨distinct, fun d => by rw [releases, mem, List.mem_reverse]⟩

/-- How much of a story is unreleased. -/
theorem mem_unreleased_story {s : Nat} {ds : List Dependency} (nodup : ds.Nodup) (c : Chapter)
    (d : Dependency) :
    (s, d) ∈ unreleased (story s ds c) ↔ d ∈ ds ∧ d ∉ c.released ds := by
  have planned : ∀ d, (s, d) ∈ unreleased (plan s ds) ↔ d ∈ ds := by
    intro d
    rw [unreleased_plan]
    simp
  have distinct : (unreleased (.returned s :: .started s :: .accepted s :: plan s ds)).Nodup := by
    show (unreleased (plan s ds)).Nodup
    rw [unreleased_plan]
    exact (List.nodup_reverse.2 nodup).map fun a b same => (Prod.mk.inj same).2
  cases c with
  | planned | accepted | started =>
      exact (planned d).trans ⟨fun mem => ⟨mem, List.not_mem_nil⟩, And.left⟩
  | returned done => exact ((unreleased_releases distinct).2 d).trans (and_congr_left' (planned d))
  | closed => exact ((unreleased_releases distinct).2 d).trans (and_congr_left' (planned d))

/-! ## What a story tells -/

theorem mem_plan {s : Nat} {ds : List Dependency} {x : Moment} :
    x ∈ plan s ds ↔ ∃ d ∈ ds, x = .scheduled s d := by
  simp [plan, eq_comm]

theorem mem_releases {s : Nat} {ds : List Dependency} {past : List Moment} {x : Moment} :
    x ∈ releases s ds past ↔ (∃ d ∈ ds, x = .released s d) ∨ x ∈ past := by
  simp [releases, eq_comm]

/-- The accesses that have got a version are those of the story. -/
theorem scheduled_mem_story {s : Nat} {ds : List Dependency} {c : Chapter} {d : Dependency} :
    .scheduled s d ∈ story s ds c ↔ d ∈ ds := by
  cases c <;> simp [story, mem_plan, mem_releases]

/-- A task has been accepted once its story is past its planning. -/
theorem accepted_mem_story {s : Nat} {ds : List Dependency} {c : Chapter} :
    .accepted s ∈ story s ds c ↔ c ≠ .planned := by
  cases c <;> simp [story, mem_plan, mem_releases]

/-- A task that has got rid of a version has returned. -/
theorem released_story {s : Nat} {ds : List Dependency} {c : Chapter} {d : Dependency}
    (released : .released s d ∈ story s ds c) : .returned s ∈ story s ds c := by
  cases c with
  | planned | accepted | started => simp [story, mem_plan] at released
  | returned done | closed => simp [story, mem_releases]

/-- A task that has returned has been accepted and started. -/
theorem returned_story {s : Nat} {ds : List Dependency} {c : Chapter}
    (returned : .returned s ∈ story s ds c) :
    .accepted s ∈ story s ds c ∧ .started s ∈ story s ds c := by
  cases c with
  | planned | accepted | started => simp [story, mem_plan] at returned
  | returned done | closed => simp [story, mem_releases]

/-- A task has been disposed once its story is closed. -/
theorem disposed_mem_story {s : Nat} {ds : List Dependency} {c : Chapter} :
    .disposed s ∈ story s ds c ↔ c = .closed := by
  cases c <;> simp [story, mem_plan, mem_releases]

/-- A story whose last moment is the start has come no further. -/
theorem eq_started_of_story {s : Nat} {ds : List Dependency} {c : Chapter} {rest : List Moment}
    (told : story s ds c = .started s :: rest) : c = .started := by
  cases c with
  | planned =>
      have mem : .started s ∈ plan s ds := by
        rw [show plan s ds = .started s :: rest from told]
        exact List.mem_cons_self
      simp [mem_plan] at mem
  | accepted => cases told
  | started => rfl
  | returned done =>
      rcases List.eq_nil_or_concat done with rfl | ⟨init, d, rfl⟩
      · cases told
      · simp [story, releases] at told
  | closed => cases told

/-- All accesses of a task have got their versions before anything else happens to it. -/
theorem scheduled_of_story {s : Nat} {ds : List Dependency} {c : Chapter}
    {later earlier : List Moment} {x : Moment} (told : story s ds c = later ++ x :: earlier)
    (other : ∀ d, x ≠ .scheduled s d) {d : Dependency} (mem : d ∈ ds) :
    .scheduled s d ∈ earlier := by
  -- every story begins with the whole plan
  have split : ∃ rest, story s ds c = rest ++ plan s ds := by
    cases c with
    | planned => exact ⟨[], rfl⟩
    | accepted => exact ⟨[_], rfl⟩
    | started => exact ⟨[_, _], rfl⟩
    | returned done =>
        refine ⟨done.reverse.map (.released s) ++ [.returned s, .started s, .accepted s], ?_⟩
        simp [story, releases]
    | closed =>
        refine ⟨.disposed s :: ds.reverse.map (.released s) ++
          [.returned s, .started s, .accepted s], ?_⟩
        simp [story, releases]
  obtain ⟨rest, split⟩ := split
  rw [split] at told
  have unplanned : x ∉ plan s ds := fun mem => by
    obtain ⟨d, -, same⟩ := mem_plan.1 mem
    exact other d same
  rcases List.append_eq_append_iff.1 told with ⟨mid, -, after⟩ | ⟨mid, -, after⟩
  · rw [after] at unplanned
    exact absurd (List.mem_append_right _ List.mem_cons_self) unplanned
  · cases mid with
    | nil =>
        rw [List.nil_append] at after
        rw [← after] at unplanned
        exact absurd List.mem_cons_self unplanned
    | cons y mid =>
        rw [List.cons_append] at after
        rw [(List.cons.inj after).2]
        exact List.mem_append_right _ (mem_plan.2 ⟨d, mem, rfl⟩)

theorem nodup_plan (s : Nat) {ds : List Dependency} (nodup : ds.Nodup) : (plan s ds).Nodup :=
  (List.nodup_reverse.2 nodup).map fun _ _ same => (Moment.scheduled.inj same).2

theorem nodup_releases {s : Nat} {ds : List Dependency} (nodup : ds.Nodup) {past : List Moment}
    (before : past.Nodup) (fresh : ∀ d, .released s d ∉ past) : (releases s ds past).Nodup := by
  rw [releases, List.nodup_append]
  refine ⟨(List.nodup_reverse.2 nodup).map fun _ _ same => (Moment.released.inj same).2, before, ?_⟩
  rintro x released y mem rfl
  obtain ⟨d, -, rfl⟩ := List.mem_map.1 released
  exact fresh d mem

/-- Nothing happens twice in a story. -/
theorem nodup_story (s : Nat) {ds : List Dependency} {c : Chapter} (nodup : ds.Nodup)
    (released : (c.released ds).Nodup) : (story s ds c).Nodup := by
  have planned := nodup_plan s nodup
  have worked : (.returned s :: .started s :: .accepted s :: plan s ds : List Moment).Nodup := by
    simp [planned, mem_plan]
  cases c with
  | planned => exact planned
  | accepted => exact (List.nodup_cons.1 (List.nodup_cons.1 worked).2).2
  | started => exact (List.nodup_cons.1 worked).2
  | returned done => exact nodup_releases released worked (by simp [mem_plan])
  | closed =>
      refine List.nodup_cons.2 ⟨?_, nodup_releases nodup worked (by simp [mem_plan])⟩
      simp [mem_releases, mem_plan]

end AccessOrder.Pool
