/- # Drafts

A draft is a task that is being built: its handles have been looked up, some of its accesses have
got their versions, in the order in which they are declared, and the others are still pending.  One
step reserves one version.

* `Blueprint.dependencies_of_build` : a task that has been built depends on the accesses that its
  blueprint declares, in order.
-/
import AccessOrder.Task.Handles
namespace AccessOrder

/-- A task that is being built. -/
structure Draft where
  /-- The number of the task. -/
  serial : Nat
  blueprint : Blueprint Act
  /-- The accesses that have no version yet, in order. -/
  pending : List Access.Located
  /-- The dependencies resolved so far, in order. -/
  resolved : List Dependency

/-- The draft of a blueprint that declares no handle twice. -/
def Blueprint.draft (hs : Handles) (serial : Nat) (b : Blueprint Act) : Except Failure Draft :=
  match hs.locate b.accesses with
  | .error f => .error f
  | .ok located => .ok ⟨serial, b, located, []⟩

namespace Draft

/-- The draft after an access has got its version. -/
def resolve (d : Draft) (a : Access.Located) (pending : List Access.Located) (version : Version) :
    Draft :=
  { d with pending := pending, resolved := d.resolved ++ [⟨a, version⟩] }

/-- The task that has been built, when nothing is pending. -/
def task (d : Draft) : Task := d.blueprint.resolve d.serial d.resolved

/-- What comes of a step of building. -/
inductive Next where
  | more (d : Draft)
  /-- The task has been built. -/
  | built (task : Task)

/-- One atomic step of building: it reserves the version of one access. -/
def step (hs : Handles) (d : Draft) : Except Failure Next × Handles :=
  match d.pending with
  | [] => (.ok (.built d.task), hs)
  | a :: pending =>
    match hs.run a.handle (·.schedule a.kind) with
    | (.error f, hs) => (.error f, hs)
    | (.ok version, hs) => (.ok (.more (d.resolve a pending version)), hs)

/-- A step leaves the numbers of handles as they are. -/
@[simp] theorem references_step (hs : Handles) (d : Draft) :
    (d.step hs).2.references = hs.references := by
  unfold step
  split
  · rfl
  · next a _ _ =>
    have kept := hs.references_run a.handle (·.schedule a.kind)
    split <;> next ran => rw [ran] at kept; exact kept

/-- Reserves the versions of all pending accesses, in order. -/
def finishFrom (hs : Handles) (d : Draft) : List Access.Located → Except Failure Task × Handles
  | [] => (.ok d.task, hs)
  | a :: pending =>
    match hs.run a.handle (·.schedule a.kind) with
    | (.error f, hs) => (.error f, hs)
    | (.ok version, hs) => finishFrom hs (d.resolve a pending version) pending

/-- Builds the task undisturbed. -/
def finish (hs : Handles) (d : Draft) : Except Failure Task × Handles :=
  finishFrom hs d d.pending

/-- A task that has been built has its resolved dependencies and one for each pending access. -/
theorem dependencies_of_finishFrom {hs : Handles} {d : Draft} {pending : List Access.Located}
    {t : Task} (built : (finishFrom hs d pending).1 = .ok t) :
    t.dependencies.map Dependency.toLocated = d.resolved.map Dependency.toLocated ++ pending := by
  induction pending generalizing hs d with
  | nil =>
    simp only [finishFrom, Except.ok.injEq] at built
    simp [← built, task, Blueprint.resolve]
  | cons a pending ih =>
    unfold finishFrom at built
    split at built
    · cases built
    · simpa [resolve] using ih built

end Draft

/-- Builds the task of a blueprint undisturbed. -/
def Blueprint.build (hs : Handles) (serial : Nat) (b : Blueprint Act) :
    Except Failure Task × Handles :=
  match b.draft hs serial with
  | .error f => (.error f, hs)
  | .ok d => d.finish hs

/-- A task that has been built depends on the accesses that its blueprint declares, in order. -/
theorem Blueprint.dependencies_of_build {hs : Handles} {serial : Nat} {b : Blueprint Act} {t : Task}
    (built : (b.build hs serial).1 = .ok t) :
    t.dependencies.map (·.toAccess) = b.accesses := by
  unfold build draft at built
  split at built
  · cases built
  · next d drafted =>
    split at drafted
    · cases drafted
    · next located found =>
      cases drafted
      have resolved : t.dependencies.map Dependency.toLocated = located := by
        simpa using Draft.dependencies_of_finishFrom built
      rw [← Handles.toAccess_locate found, ← resolved, List.map_map]
      rfl

end AccessOrder
