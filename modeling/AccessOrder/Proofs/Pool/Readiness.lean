/- # Readiness

A dependency is met when its handle has reached its version, and a task is ready when all its
dependencies are met.  No handle goes back to an earlier version.  A vetting comes to its end only
when no dependency is left to be looked at, and a pool that checks tasks when they are handed in
lets none be bound for a queue before that.

* `Deed.completed_le` : no deed takes a handle back;
* `Housed.met_of_cursor` : what a task has been seen to depend on is met until its work is done;
* `vetted_of_ready` : a task that comes out of its vetting has been looked at to its end;
* `Deed.bound_cases`, `unbound_of_accepted` : how a task comes to be bound for a queue.
-/
import AccessOrder.Proofs.Pool.Courses
import AccessOrder.Proofs.Pool.Overlap
namespace AccessOrder.Pool

/-- The vetting that is under way. -/
def Control.vetting? : Control → Option Vetting
  | .submitting (.vet _ v) | .executing (.vet v) | .executing (.hand _ _ _ _ (.vet _ v))
  | .executing (.wake _ _ _ v) => some v
  | _ => none

variable {past later : List Moment} {w w' : World} {hands : WorkerId → List Item}
  {m after : Machine} {xs ys : List Item} {ms : List Moment} {l : Launch}
  {vocabulary : Access.Vocabulary} {handles callers : Nat} {references : Array HandleId}

/-! ## What is met -/

/-- No handle goes back to an earlier version. -/
theorem Deed.completed_le (deed : Deed w xs ms w' ys) (unfaulted : ¬Fault w xs) (h : HandleId) :
    (w.units h).completed ≤ (w'.units h).completed := by
  have same : ∀ {o : HandleId} {u : Handle.View Task}, u.completed = (w.units o).completed →
      (w.units h).completed ≤ ((w.setUnit o u).units h).completed := fun kept =>
    Nat.le_of_eq (w.setUnit_same _ _ Handle.View.completed kept h).symm
  cases deed with
  | schedule _ _ _ | park _ _ _ | lock _ _ | unlock _ _ => exact same rfl
  | @release xs f d todo here holder =>
      show _ ≤ (Function.update w.units d.handle _ h).completed
      rw [Function.update_apply]
      split
      · next own =>
        rw [own, ← here]
        exact Handle.View.completed_le_released _
      · exact Nat.le_refl _
  | broken fault => exact absurd fault unfaulted
  | _ => exact Nat.le_refl _

/-- No handle goes back to an earlier version in a step of vetting. -/
theorem Machine.Base.completed_le_vetting (base : m.Base) {v : Vetting}
    (unfaulted : ¬Fault m.world [.loose v.task]) (h : HandleId) :
    (m.world.units h).completed ≤ ((v.step m.handles).2.view h).completed := by
  have leads := base.leads_vetting v
  have result : (m.vetStep v).1.handles = (v.step m.handles).2 := by
    unfold vetStep
    simp only
    split <;> rfl
  rw [← result]
  obtain ⟨after, ⟨v', stepped⟩ | ⟨e, stepped⟩ | ⟨x, stepped⟩⟩ := m.vetStep_cases v
  · rw [stepped] at leads ⊢
    cases leads with
    | goes _ _ deed => exact deed.completed_le unfaulted h
  · rw [stepped] at leads
    cases leads with
    | fails _ _ fault => exact absurd fault unfaulted
  · rw [stepped] at leads ⊢
    cases leads with
    | ends _ done =>
        cases x with
        | none => exact Deed.completed_le done unfaulted h
        | some t => exact Nat.le_of_eq (by rw [done.1]; rfl)

/-- A dependency is met when its handle has reached its version. -/
theorem Machine.Base.meets_iff (base : m.Base) {d : Dependency} :
    m.handles.meets d = true ↔ m.world.Met d :=
  (base.handles d.handle).isReady_iff

/-! ## What has been vetted -/

/-- What an accepted task depends on has got its version. -/
theorem scheduled_of_accepted {t : Task}
    (told : about t.serial past = story t.serial t.dependencies .accepted) {d : Dependency}
    (mem : d ∈ t.dependencies) : .scheduled t.serial d ∈ past := by
  have planned : .scheduled t.serial d ∈ about t.serial past := by
    rw [told, scheduled_mem_story]
    exact mem
  exact (mem_about.1 planned).1

/-- An accepted task that is still to be run has released no version. -/
theorem unreleased_of_accepted {t : Task}
    (told : about t.serial past = story t.serial t.dependencies .accepted) (d : Dependency) :
    .released t.serial d ∉ past := by
  intro released
  have mem : .released t.serial d ∈ about t.serial past := mem_about.2 ⟨released, rfl⟩
  rw [told] at mem
  simp [story, mem_plan] at mem

/-- The dependencies of a task of which none is left to be looked at are met. -/
theorem Pending.met_of_vetted {t : Task} (fits : Pending w t) (vetted : t.blocker? = none)
    {d : Dependency} (mem : d ∈ t.dependencies) : w.Met d := by
  refine fits.met d ?_
  rwa [List.take_of_length_le (List.getElem?_eq_none_iff.1 vetted)]

/-- A task is ready when all its dependencies are met. -/
theorem Machine.Base.ready_iff (base : m.Base) {t : Task} :
    m.handles.ready t = true ↔ ∀ d ∈ t.dependencies, m.world.Met d := by
  rw [Handles.ready, List.all_eq_true]
  exact forall₂_congr fun d _ => base.meets_iff

/-- A vetting has its task in hand. -/
theorem loose_of_vetting {id : WorkerId} {v : Vetting}
    (vetting : (m.controlOf id).vetting? = some v) : .loose v.task ∈ m.hands id := by
  unfold Machine.hands
  generalize m.controlOf id = c at vetting
  unfold Control.vetting? at vetting
  split at vetting <;> cases vetting <;> exact List.mem_cons_self

/-- A vetting comes to its end only when no dependency is left to be looked at. -/
theorem vetted_of_ready {hs : Handles} {v : Vetting} {t : Task}
    (ready : (v.step hs).1 = .ok (.ready t)) : t = v.task ∧ t.blocker? = none := by
  cases v with
  | look t' =>
      simp only [Vetting.step] at ready
      split at ready
      · next vetted =>
        cases ready
        exact ⟨rfl, vetted⟩
      · split at ready <;> cases ready
  | park t' =>
      simp only [Vetting.step] at ready
      split at ready
      · next vetted =>
        cases ready
        exact ⟨rfl, vetted⟩
      · split at ready <;> cases ready

/-- The dependencies of a task that is still to be run are met as far as they are known to be. -/
theorem Housed.met_of_cursor (housed : Housed past w hands) {p : Place} {x : Item}
    (here : x ∈ w.items hands p) {t : Task} (task : x.task? = some t)
    (open' : .returned t.serial ∉ past) {d : Dependency}
    (known : d ∈ t.dependencies.take t.cursor) : w.Met d := by
  have tells := housed.tells p x here
  have fits := housed.fits p x here
  -- once its work is done a task may have released versions
  have done : ∀ {c : Chapter}, about t.serial past = story t.serial t.dependencies c →
      .returned t.serial ∈ story t.serial t.dependencies c → False := by
    intro c told returned
    rw [← told] at returned
    exact open' (mem_about.1 returned).1
  cases x with
  | draft e => cases task
  | guard q changed => cases task
  | arriving t =>
      cases task
      rw [fits.2.2, List.take_zero] at known
      cases known
  | loose t =>
      cases task
      exact fits.met d known
  | bound t q =>
      cases task
      exact fits.1.met d known
  | running f stage =>
      cases task
      cases stage with
      | locking todo => exact fits.2.1 d (List.mem_of_mem_take known)
      | working => exact fits.2.1 d (List.mem_of_mem_take known)
      | unlocking => exact (done tells (by simp [story, releases])).elim
      | releasing todo =>
          obtain ⟨released, -, told⟩ := tells
          exact (done told (by simp [story, releases])).elim

/-! ## Eager pools -/

/-- Whatever is bound for a queue after a deed was so before it, or has been vetted, or has just
been accepted. -/
theorem Deed.bound_cases (deed : Deed w xs ms w' ys) (unfaulted : ¬Fault w xs) {t : Task}
    {q : WorkerId} (bound : .bound t q ∈ ys) :
    .bound t q ∈ xs ∨ t.blocker? = none ∨ ∃ s, ms = [.accepted s] := by
  have loose : ∀ ts : List Task, .bound t q ∉ looseItems ts := by simp [looseItems]
  cases deed with
  | acceptLazily _ _ _ => exact .inr (.inr ⟨_, rfl⟩)
  | route vetted _ =>
      rcases List.mem_cons.1 bound with same | bound
      · cases same
        exact .inr (.inl vetted)
      · exact .inl (List.mem_cons_of_mem _ bound)
  | strands _ fewer => exact .inl (fewer.subset bound)
  | broken fault => exact absurd fault unfaulted
  | _ => simp_all

/-- Whatever is in a queue after a deed was there before it, or bound for it. -/
theorem Deed.queued_cases (deed : Deed w xs ms w' ys) (unfaulted : ¬Fault w xs) {t : Task}
    {q : WorkerId} (queued : t ∈ w'.queue q) : t ∈ w.queue q ∨ .bound t q ∈ xs := by
  cases deed with
  | @store xs t' q' ts same =>
      rw [w.queue_setQueue] at queued
      split at queued
      · next here =>
        subst here
        rcases List.mem_cons.1 (same.mem_iff.1 queued) with rfl | queued
        · exact .inr (List.mem_cons_of_mem _ List.mem_cons_self)
        · exact .inl queued
      · exact .inl queued
  | @fetch xs x q' ts same =>
      rw [w.queue_setQueue] at queued
      split at queued
      · next here =>
        subst here
        exact .inl (same.mem_iff.2 (List.mem_append_right _ queued))
      · exact .inl queued
  | broken fault => exact absurd fault unfaulted
  | _ => exact .inl queued

namespace Machine

/-- A task is accepted by someone who hands it in, from outside or for a task that runs. -/
theorem arriving_of_accepted {c : Control} {s : Nat} (now : c.moments m = [.accepted s]) :
    ∃ t, t.pin.filter (m.size ≤ ·) = none ∧ (c = .submitting (.arrive t) ∨
      ∃ f acts results versions, c = .executing (.hand f acts results versions (.arrive t))) := by
  have arrives : ∀ {s' : Submission}, s'.moments m = [.accepted s] →
      ∃ t, t.pin.filter (m.size ≤ ·) = none ∧ s' = .arrive t := by
    intro s' now
    unfold Submission.moments at now
    split at now
    · split at now
      · cases now
      · split at now <;> cases now
    · next t =>
      split at now
      · next inside => exact ⟨t, Option.isNone_iff_eq_none.1 inside, rfl⟩
      · cases now
    · cases now
    · cases now
  unfold Control.moments at now
  split at now
  · obtain ⟨t, inside, rfl⟩ := arrives now
    exact ⟨t, inside, .inl rfl⟩
  · unfold Execution.moments at now
    split at now
    · cases now
    · cases now
    · obtain ⟨t, inside, rfl⟩ := arrives now
      exact ⟨t, inside, .inr ⟨_, _, _, _, rfl⟩⟩
    · split at now <;> cases now
    · cases now
    · cases now
  · cases now

/-- A task that is accepted by an eager pool is vetted before it is bound for a queue. -/
theorem unbound_of_accepted (eager : m.readiness = .eager) {mv : Move}
    (moved : m.move mv = some after) {s : Nat} (now : m.moments mv = [.accepted s]) (t : Task)
    (q : WorkerId) : .bound t q ∉ after.hands mv.actor := by
  cases move_cases moved with
  | @step id _ _ stepped =>
      obtain ⟨u, found, steps⟩ := step_cases stepped
      have crew : id < m.workers.size := (Array.getElem?_eq_some_iff.1 found).1
      have hands : ∀ c, (m.setControl id c).hands id = c.items id := fun c => by
        rw [Machine.hands, controlOf_setControl_self crew]
      show _ ∉ after.hands id
      obtain ⟨t', inside, control | ⟨f, acts, results, versions, control⟩⟩ :=
        arriving_of_accepted (c := m.controlOf id) now
      · rw [control] at steps
        cases steps with
        | submitting went =>
            simp only [submitStep, inside, eager, proceed, Option.some.injEq] at went
            rw [← went, hands]
            simp [Control.items, Submission.items]
      · rw [control] at steps
        cases steps with
        | executing went =>
            simp only [executeStep, submitStep, inside, eager, onward, proceed,
              Option.some.injEq] at went
            rw [← went, hands]
            simp [Control.items, Execution.items, Submission.items]
  | call _ calls => cases calls <;> cases now
  | _ => cases now

end Machine

end AccessOrder.Pool
