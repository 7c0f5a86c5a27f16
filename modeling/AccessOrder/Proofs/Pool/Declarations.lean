/- # Declared kinds

Tasks whose accesses are of listed kinds, and which hand in none but such tasks.  In the runs in
which all tasks are of that sort, all versions are reserved for accesses of listed kinds, of which
every handle has a table.

* `lasting_uses` : a task goes on to use given kinds of handles that there are;
* `Deed.frontier_le` : a version comes into use with an access only;
* `RunsWith` : the runs in which none but fitting tasks are handed in.
-/
import AccessOrder.Proofs.Pool.Lasting
import AccessOrder.Proofs.Pool.Numbering
namespace AccessOrder

open Function (update)

/-! ## Kinds in use -/

mutual

/-- Whether an act hands in none but tasks that use given kinds. -/
def Act.Uses (kinds : List Access.Kind) : Act → Prop
  | .spawn b => b.Uses kinds
  | _ => True

/-- Whether the accesses of a task, and of those that it hands in, are of given kinds. -/
def Blueprint.Uses (kinds : List Access.Kind) : Blueprint Act → Prop
  | ⟨_, accesses, _, _, _, work⟩ => (∀ a ∈ accesses, a.kind ∈ kinds) ∧ Act.AllUse kinds work

/-- Whether acts hand in none but tasks that use given kinds. -/
def Act.AllUse (kinds : List Access.Kind) : List Act → Prop
  | [] => True
  | a :: as => a.Uses kinds ∧ Act.AllUse kinds as

end

theorem Blueprint.uses_iff {kinds : List Access.Kind} {b : Blueprint Act} :
    b.Uses kinds ↔ (∀ a ∈ b.accesses, a.kind ∈ kinds) ∧ Act.AllUse kinds b.work := by
  cases b
  rw [Blueprint.Uses]

/-- Whether the accesses of a task that have no version yet are of given kinds and of handles that
there are, and the tasks that it hands in use these kinds. -/
def Draft.Uses (kinds : List Access.Kind) (count : Nat) (d : Draft) : Prop :=
  (∀ a ∈ d.pending, a.kind ∈ kinds ∧ a.handle < count) ∧ Act.AllUse kinds d.blueprint.work

/-- Whether the work of a task hands in none but tasks that use given kinds. -/
def Task.Uses (kinds : List Access.Kind) (t : Task) : Prop :=
  ∀ work ∈ t.work, Act.AllUse kinds work.acts

namespace Pool

/-- Whether a task that is still to do its work uses given kinds of handles that there are. -/
def Item.Uses (kinds : List Access.Kind) (count : Nat) : Item → Prop
  | .draft d => d.Uses kinds count
  | .arriving t | .loose t | .bound t _ => t.Uses kinds
  | .guard .. | .running .. => True

variable {kinds : List Access.Kind} {count : Nat}

/-- A task goes on to use given kinds of handles that there are. -/
theorem lasting_uses (kinds : List Access.Kind) (count : Nat) :
    Lasting (Item.Uses kinds count) where
  guard _ _ := trivial
  resolve := by
    rintro d a pending v next ⟨known, work⟩
    refine ⟨fun b mem => known b ?_, work⟩
    rw [next]
    exact List.mem_cons_of_mem a mem
  built := by
    rintro d ⟨-, uses⟩ work mine
    cases mine
    exact uses
  accept uses := uses
  mark uses := uses
  bound _ := Iff.rfl
  take _ _ := trivial
  run _ _ _ := trivial

/-- The draft of a task that uses given kinds uses them, if all numbers are those of handles that
there are. -/
theorem Machine.uses_of_begin {m after : Machine} {b : Blueprint Act} {d : Draft}
    (known : ∀ h ∈ m.handles.references, h < count) (uses : b.Uses kinds)
    (began : m.begin b = (.ok d, after)) : d.Uses kinds count := by
  obtain ⟨listed, work⟩ := Blueprint.uses_iff.1 uses
  unfold Machine.begin Blueprint.draft at began
  cases located : m.handles.locate b.accesses with
  | error f =>
      rw [located] at began
      cases began
  | ok accesses =>
      rw [located] at began
      cases began
      refine ⟨fun a mem => ⟨?_, ?_⟩, work⟩
      · refine listed a.toAccess ?_
        rw [← Handles.toAccess_locate located]
        exact List.mem_map_of_mem mem
      · exact known _ (Array.mem_of_getElem? (Handles.handle_of_locateFrom located a mem))

/-! ## Deeds -/

variable {past : List Moment} {w w' : World} {hands : WorkerId → List Item} {xs ys : List Item}
  {ms : List Moment}

/-- No handle is made and none is removed. -/
theorem Deed.count_eq (deed : Deed w xs ms w' ys) (unbroken : ¬Broken w xs) :
    w'.count = w.count := by
  cases deed with
  | strands stray => exact absurd (.stray stray) unbroken
  | broken fault => exact absurd (.fault fault) unbroken
  | _ => rfl

/-- The tables of the handles keep their places. -/
theorem Deed.length_required (deed : Deed w xs ms w' ys) (unbroken : ¬Broken w xs) (h : HandleId) :
    (w'.units h).required.length = (w.units h).required.length := by
  have same : ∀ {o : HandleId} {u : Handle.View Task},
      u.required.length = (w.units o).required.length →
      ((w.setUnit o u).units h).required.length = (w.units h).required.length := fun kept =>
    w.setUnit_same _ _ (·.required.length) kept h
  cases deed with
  | schedule _ _ _ => exact same List.length_mapIdx
  | park _ _ _ | lock _ _ | unlock _ _ => exact same rfl
  | release _ _ => exact same (congrArg List.length (Handle.View.required_released ..))
  | strands stray => exact absurd (.stray stray) unbroken
  | broken fault => exact absurd (.fault fault) unbroken
  | _ => rfl

/-- An access brings at most one new version into use, and nothing else brings one. -/
theorem Deed.frontier_le (deed : Deed w xs ms w' ys) (unbroken : ¬Broken w xs) (h : HandleId) :
    (w'.units h).frontier ≤ (bookings h ms).length + (w.units h).frontier := by
  have same : ∀ {o : HandleId} {u : Handle.View Task}, u.frontier = (w.units o).frontier →
      ((w.setUnit o u).units h).frontier ≤ (bookings h []).length + (w.units h).frontier := by
    intro o u kept
    rw [w.setUnit_same _ _ Handle.View.frontier kept h]
    exact Nat.le_add_left ..
  cases deed with
  | @schedule xs d a pending v _ _ offered =>
      show (update w.units a.handle _ h).frontier ≤ _
      rw [Function.update_apply]
      split
      · next here =>
        subst here
        have newest := offered.newest
        rw [bookings_cons_self d.serial ⟨a, v⟩, List.length_cons]
        show v + 1 ≤ _
        lia
      · exact Nat.le_add_left ..
  | park _ _ _ | lock _ _ | unlock _ _ => exact same rfl
  | release _ _ => exact same (Handle.View.frontier_released ..)
  | strands stray => exact absurd (.stray stray) unbroken
  | broken fault => exact absurd (.fault fault) unbroken
  | _ => exact Nat.le_add_left ..

/-! ## Runs -/

/-- Whether a turn hands in none but fitting tasks. -/
def Move.Fits (fit : Blueprint Act → Prop) : Move → Prop
  | .spawn _ b => fit b
  | _ => True

namespace Machine

/-- The runs in which the owner and the callers hand in none but fitting tasks. -/
inductive RunsWith (fit : Blueprint Act → Prop) (m : Machine) : List Moment → Machine → Prop where
  | refl : RunsWith fit m [] m
  | turn {past : List Moment} {a b : Machine} (mv : Move) : RunsWith fit m past a → mv.Fits fit →
      a.move mv = some b → RunsWith fit m (a.moments mv ++ past) b

variable {fit : Blueprint Act → Prop} {start m after : Machine}

/-- A run in which none but fitting tasks are handed in is a run. -/
theorem RunsWith.runs (run : start.RunsWith fit past m) : start.Runs past m := by
  induction run with
  | refl => exact .refl
  | turn mv _ _ moved ih => exact ih.turn mv moved

/-- Turns that are carried out are a run in which none but fitting tasks are handed in, if those
are. -/
theorem runsWith_follow {mvs : List Move} {r : List Moment × Machine}
    (run : start.RunsWith fit past m) (fits : ∀ mv ∈ mvs, mv.Fits fit)
    (followed : m.follow past mvs = some r) : start.RunsWith fit r.1 r.2 := by
  induction mvs generalizing m past with
  | nil =>
      cases followed
      exact run
  | cons mv mvs ih =>
      rw [follow] at followed
      split at followed
      · cases followed
      · next moved =>
        exact ih (run.turn mv (fits mv List.mem_cons_self) moved)
          (fun mv mem => fits mv (List.mem_cons_of_mem _ mem)) followed

/-- What is seen of turns that are carried out is seen of a run in which none but fitting tasks are
handed in, if those are. -/
theorem exists_runsWith (start : Machine) (mvs : List Move) (seen : List Moment → Machine → Bool)
    (fits : ∀ mv ∈ mvs, mv.Fits fit)
    (found : (start.follow [] mvs).any (fun r => seen r.1 r.2) = true) :
    ∃ past m, start.RunsWith fit past m ∧ seen past m = true := by
  obtain ⟨r, followed, holds⟩ := (Option.any_eq_true ..).1 found
  exact ⟨r.1, r.2, runsWith_follow .refl fits followed, holds⟩

end Machine

end Pool

end AccessOrder
