/- # What is still to be done

What the tasks of a pool are still going to cost: how many of their acts break their work off, how
much work there is to be done, and how many steps there are before some of it is done.  A task costs
the same wherever it is, but for the steps: a task that waits for a version takes none until it is
woken.

* `Cost.Below` : less work is to be done, or as much in fewer steps;
* `World.stock_setQueue`, `World.stock_setUnit`, `World.stock_pick` : what a change of a queue, of a
  handle or of what is kept costs.
-/
import AccessOrder.Proofs.Pool.Turns
import AccessOrder.Pool.Effort
namespace AccessOrder

mutual

/-- How many acts break work off, if an act is done and all that it hands in. -/
def Act.breaks : Act → Nat
  | .spawn b => b.breaks
  | .abort => 1
  | _ => 0

/-- How many acts of a task break its work off, or that of a task that it hands in. -/
def Blueprint.breaks : Blueprint Act → Nat
  | ⟨_, _, _, _, _, work⟩ => Act.breaksIn work

/-- How many of some acts break work off, or hand a task in that does. -/
def Act.breaksIn : List Act → Nat
  | [] => 0
  | a :: as => a.breaks + Act.breaksIn as

end

namespace Pool

/-- What is still ahead. -/
@[ext]
structure Cost where
  /-- How many acts break work off. -/
  breaks : Nat
  /-- How much work is to be done. -/
  load : Nat
  /-- How many steps there are before some of it is done. -/
  rank : Nat

namespace Cost

instance : Zero Cost := ⟨⟨0, 0, 0⟩⟩

instance : Add Cost := ⟨fun a b => ⟨a.breaks + b.breaks, a.load + b.load, a.rank + b.rank⟩⟩

@[simp] theorem add_breaks (a b : Cost) : (a + b).breaks = a.breaks + b.breaks := rfl

@[simp] theorem add_load (a b : Cost) : (a + b).load = a.load + b.load := rfl

@[simp] theorem add_rank (a b : Cost) : (a + b).rank = a.rank + b.rank := rfl

instance : AddCancelCommMonoid Cost where
  add_assoc a b c := Cost.ext (Nat.add_assoc ..) (Nat.add_assoc ..) (Nat.add_assoc ..)
  zero_add a := Cost.ext (Nat.zero_add _) (Nat.zero_add _) (Nat.zero_add _)
  add_zero a := Cost.ext (Nat.add_zero _) (Nat.add_zero _) (Nat.add_zero _)
  add_comm a b := Cost.ext (Nat.add_comm ..) (Nat.add_comm ..) (Nat.add_comm ..)
  add_left_cancel a b c same := Cost.ext (Nat.add_left_cancel (congrArg breaks same))
    (Nat.add_left_cancel (congrArg load same)) (Nat.add_left_cancel (congrArg rank same))
  nsmul := nsmulRec

/-- Whether less work is to be done, or as much in fewer steps. -/
def Below (a b : Cost) : Prop :=
  a.breaks ≤ b.breaks ∧ (a.load < b.load ∨ a.load ≤ b.load ∧ a.rank < b.rank)

/-- Costs do not go down without end. -/
theorem Below.induction {motive : Cost → Prop}
    (step : ∀ b, (∀ a, a.Below b → motive a) → motive b) (b : Cost) : motive b := by
  have lexicographic : ∀ load rank breaks, motive ⟨breaks, load, rank⟩ := by
    intro load
    induction load using Nat.strongRecOn with
    | _ load less =>
        intro rank
        induction rank using Nat.strongRecOn with
        | _ rank fewer =>
            refine fun breaks => step _ fun a below => ?_
            rcases below.2 with lower | ⟨same, lower⟩
            · exact less a.load lower a.rank a.breaks
            · rcases Nat.lt_or_eq_of_le same with lower' | same
              · exact less a.load lower' a.rank a.breaks
              · have here := fewer a.rank lower a.breaks
                rwa [← show a.load = load from same] at here
  exact lexicographic b.load b.rank b.breaks

end Cost

/-! ## Tasks -/

end Pool

open Pool (Cost)

/-- How many acts of a task break its work off, or that of a task that it hands in. -/
def Task.breaks (t : Task) : Nat := t.work.elim 0 fun work => Act.breaksIn work.acts

/-- How much work a task is whose work is still to be done. -/
def Task.load (t : Task) : Nat :=
  t.dependencies.length + (t.work.elim 0 fun work => Act.efforts work.acts) + 2

/-- What a task costs that takes so many steps before its work is begun. -/
def Task.cost (t : Task) (rank : Nat) : Cost := ⟨t.breaks, t.load, rank⟩

/-- The most steps that a task in a queue takes before its work is begun, or it waits. -/
def Task.queueRank (t : Task) : Nat := 2 * t.dependencies.length + 5

/-- What a task in a queue costs. -/
def Task.queued (t : Task) : Cost := t.cost t.queueRank

/-- What a task costs that waits for a version. -/
def Task.parked (t : Task) : Cost := t.cost 0

/-- What a task costs that has been built and is not yet accepted. -/
def Task.arriving (t : Task) : Cost := ⟨t.breaks, t.load + 1, 0⟩

namespace Pool

open Function (update)

/-- What several tasks cost. -/
def tally (f : Task → Cost) (ts : List Task) : Cost := (ts.map f).sum

@[simp] theorem tally_nil (f : Task → Cost) : tally f [] = 0 := rfl

@[simp] theorem tally_cons (f : Task → Cost) (t : Task) (ts : List Task) :
    tally f (t :: ts) = f t + tally f ts := List.sum_cons

@[simp] theorem tally_append (f : Task → Cost) (ts us : List Task) :
    tally f (ts ++ us) = tally f ts + tally f us := by
  rw [tally, List.map_append, List.sum_append, tally, tally]

/-- What several tasks cost does not depend on their order. -/
theorem tally_perm {f : Task → Cost} {ts us : List Task} (same : ts.Perm us) :
    tally f ts = tally f us := (same.map f).sum_eq

/-- What those cost who wait for a version of a handle. -/
def backlog (u : Handle.View Task) : Cost :=
  ∑ v ∈ Finset.range u.frontier, tally Task.parked (u.waiting v)

/-- What the tasks in the queues, those that wait and those that are kept cost. -/
def World.stock (w : World) : Cost :=
  ∑ q ∈ Finset.range w.size, tally Task.queued (w.queue q) +
    ∑ h ∈ Finset.range w.count, backlog (w.units h) + tally Task.arriving w.kept

/-! ## Changes -/

/-- What a change of one of several things costs. -/
theorem sum_update {α : Type} (f : α → Cost) (g : Nat → α) {n i : Nat} (inside : i < n) (x : α) :
    ∑ j ∈ Finset.range n, f (update g i x j) + f (g i) = ∑ j ∈ Finset.range n, f (g j) + f x := by
  have mem : i ∈ Finset.range n := Finset.mem_range.2 inside
  have others : ∑ j ∈ (Finset.range n).erase i, f (update g i x j) =
      ∑ j ∈ (Finset.range n).erase i, f (g j) :=
    Finset.sum_congr rfl fun j other => by
      rw [Function.update_of_ne (Finset.mem_erase.1 other).1]
  rw [← Finset.add_sum_erase _ _ mem, ← Finset.add_sum_erase _ (fun j => f (g j)) mem, others,
    Function.update_self]
  abel

/-- What a change of a queue costs. -/
theorem World.stock_setQueue (w : World) {q : WorkerId} (inside : q < w.size) (ts : List Task) :
    (w.setQueue q ts).stock + tally Task.queued (w.queue q) =
      w.stock + tally Task.queued ts := by
  have change := sum_update (tally Task.queued) w.queue inside ts
  simp only [stock, setQueue]
  rw [add_right_comm, add_right_comm (∑ _ ∈ _, _), change]
  abel

/-- What a change of a handle costs. -/
theorem World.stock_setUnit (w : World) {h : HandleId} (known : h < w.count)
    (u : Handle.View Task) :
    (w.setUnit h u).stock + backlog (w.units h) = w.stock + backlog u := by
  have change := sum_update backlog w.units known u
  simp only [stock, setUnit]
  rw [add_right_comm, add_assoc (∑ _ ∈ _, _), change]
  abel

/-- What a task costs that is taken out of those that are kept. -/
theorem World.stock_pick (w : World) {t : Task} {ts : List Task} (same : w.kept.Perm (t :: ts)) :
    (w.setKept ts).stock + t.arriving = w.stock := by
  simp only [stock, setKept]
  rw [tally_perm same, tally_cons]
  abel

/-- What a change of a handle does not cost. -/
theorem World.stock_setUnit_eq (w : World) {h : HandleId} (known : h < w.count)
    {u : Handle.View Task} (same : backlog u = backlog (w.units h)) :
    (w.setUnit h u).stock = w.stock := by
  have change := w.stock_setUnit known u
  rw [same] at change
  exact add_right_cancel change

variable {u : Handle.View Task}

/-- Nobody waits for a version that has just been reserved. -/
theorem backlog_scheduled (sound : u.Sound) {k : Access.Kind} {v : Version}
    (offered : u.Offers k v) : backlog (u.scheduled k v) = backlog u := by
  show ∑ i ∈ Finset.range (v + 1), tally Task.parked (u.waiting i) = _
  rcases offered.newest with rfl | newest
  · have nobody : u.waiting u.frontier = [] := by
      by_contra waited
      exact Nat.lt_irrefl _ (sound.waiting _ waited).2
    rw [Finset.sum_range_succ, nobody, tally_nil, add_zero, backlog]
  · rw [newest, backlog]

/-- What a task costs that is made to wait. -/
theorem backlog_parked {v : Version} (used : v < u.frontier) (t : Task) :
    backlog (u.parked t v) = backlog u + t.parked := by
  have change := sum_update (tally Task.parked) u.waiting used (u.waiting v ++ [t])
  have here : backlog (u.parked t v) =
    ∑ j ∈ Finset.range u.frontier,
      tally Task.parked (update u.waiting v (u.waiting v ++ [t]) j) := rfl
  rw [← here, tally_append, tally_cons, tally_nil, add_zero] at change
  refine add_right_cancel (b := tally Task.parked (u.waiting v)) (change.trans ?_)
  rw [backlog]
  abel

/-- What those cost who are woken. -/
theorem backlog_released (sound : u.Sound) (v : Version) :
    backlog (u.released v) + tally Task.parked (u.woken v) = backlog u := by
  unfold Handle.View.released Handle.View.woken
  by_cases last : u.holders v = 1
  · rw [if_pos last, if_pos last]
    by_cases used : v + 1 < u.frontier
    · have change := sum_update (tally Task.parked) u.waiting used []
      rw [tally_nil, add_zero] at change
      exact change
    · have nobody : u.waiting (v + 1) = [] := by
        by_contra waited
        exact used (sound.waiting _ waited).2
      have same : update u.waiting (v + 1) [] = u.waiting := by
        rw [← nobody, Function.update_eq_self]
      simp only [backlog, same, nobody, tally_nil, add_zero]
  · rw [if_neg last, if_neg last, tally_nil, add_zero]
    rfl

/-- The lock of a handle costs nothing. -/
theorem backlog_latched (locked : Bool) : backlog (u.latched locked) = backlog u := rfl

end Pool

end AccessOrder
