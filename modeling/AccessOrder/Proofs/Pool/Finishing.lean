/- # Tasks that are finished off

A task whose work is done is finished off: its locks are given back, its versions are released one
after another, and those who have been woken are vetted and put into queues, or wait again.  As long
as everything is housed this does not fail, and the pool is able to come to its end, since the lock
of a queue is given back by whoever holds it.

* `Base.finishes` : a step of finishing a task off;
* `Deed.lodges` : no task is lost that is in hand and has been accepted;
* `Settled.finishes_off` : a task is finished off until it has been disposed;
* `Settled.disposes` : a pool is able to go on until the task is disposed;
* `Runs.survives` : what those who have been woken do to a worker.
-/
import AccessOrder.Proofs.Pool.Crossing
import AccessOrder.Proofs.Pool.Guards
import AccessOrder.Proofs.Pool.Spending
namespace AccessOrder

open Function (update)

namespace Pool

/-- The task that is finished off. -/
def Execution.finished? : Execution → Option Task
  | .unlock f | .release f _ | .wake f _ _ _ | .requeue f _ _ _ _ | .dispose f => some f.task
  | .vet _ | .lock .. | .act .. | .hand .. => none

/-- What is ahead when a task is finished off: the versions to be released, then those who have been
woken, then steps. -/
def Execution.ahead : Execution → Nat ×ₗ Nat ×ₗ Nat
  | .unlock f => toLex (f.task.dependencies.length + 2, toLex (f.held.length, 0))
  | .release _ todo => toLex (todo.length + 1, toLex (0, 0))
  | .wake _ todo woken v => toLex (todo.length + 1, toLex (woken.length + 1, v.rank + 5))
  | .requeue _ todo woken _ p => toLex (todo.length + 1, toLex (woken.length + 1, p.left))
  | .vet _ | .lock .. | .act .. | .hand .. | .dispose _ => toLex (0, toLex (0, 0))

/-- The task that a worker finishes off. -/
def Control.finished? : Control → Option Task
  | .executing e => e.finished?
  | _ => none

/-- What is ahead of a worker that finishes a task off. -/
def Control.ahead : Control → Nat ×ₗ Nat ×ₗ Nat
  | .executing e => e.ahead
  | _ => toLex (0, toLex (0, 0))

/-- A worker that finishes a task off runs it. -/
theorem Control.executing_of_finished {c : Control} {t : Task} (own : c.finished? = some t) :
    ∃ e, c = .executing e ∧ e.finished? = some t := by
  cases c with
  | executing e => exact ⟨e, rfl, own⟩
  | _ => cases own

/-- What comes of a step of finishing a task off: it waits for a lock, goes on with less ahead, or
the task has been given up. -/
inductive Finishes (w : World) (e : Execution) (t : Task) : Turn Execution Unit → Prop where
  | waits {f todo woken q p} : e = .requeue f todo woken q p → w.held q = true →
      Finishes w e t .waits
  | goes {next} : next.finished? = some t → next.ahead < e.ahead → Finishes w e t (.goes next)
  | ends {f} : e = .dispose f → f.task = t → Finishes w e t (.ends ())

/-- What comes of a step of putting a task into a queue: it waits for the lock, or goes on with
fewer steps left. -/
inductive Stores (w : World) (target : WorkerId) (p : Queue.Progress Task) :
    Turn (Queue.Progress Task) (Option Task) → Prop where
  | waits : w.held target = true → Stores w target p .waits
  | goes {next} : next.left < p.left → Stores w target p (.goes next)
  | ends {result} : Stores w target p (.ends result)

namespace Machine

variable {m after : Machine} {id : WorkerId} {e : Execution} {t : Task}

theorem finished_releasing (f : Frame) (todo : List Dependency) (woken : List Task) :
    (releasing f todo woken).finished? = some f.task := by
  cases woken <;> rfl

/-- Whoever has been dealt with is no longer ahead. -/
theorem ahead_releasing_lt (f : Frame) (todo : List Dependency) (woken : List Task) (n : Nat) :
    (releasing f todo woken).ahead < toLex (todo.length + 1, toLex (woken.length + 1, n)) := by
  cases woken <;> simp [releasing, Execution.ahead, Prod.Lex.toLex_lt_toLex]

/-- A version that has been released is no longer ahead, whoever is woken. -/
theorem ahead_released_lt (f : Frame) (d : Dependency) (todo : List Dependency)
    (woken : List Task) :
    (releasing f todo woken).ahead < (Execution.release f (d :: todo)).ahead := by
  cases woken <;> simp [releasing, Execution.ahead, Prod.Lex.toLex_lt_toLex]

/-- A step of putting a task into a queue. -/
theorem Base.stores (base : m.Base) {target : WorkerId} {p : Queue.Progress Task}
    (storing : p.Storing) (inside : target < m.size) :
    Stores m.world target p (m.queueStep target p).2 := by
  have stored : p.Holding → Stores m.world target p (m.queueStep target p).2 := by
    intro holding
    have gives := base.gives_back inside holding
    generalize m.queueStep target p = r at gives
    cases gives with
    | goes _ less => exact .goes less
    | ends _ => exact .ends
  cases storing with
  | acquire t =>
      obtain ⟨q, found⟩ : ∃ q, m.queues[target]? = some q := ⟨_, Array.getElem?_eq_getElem inside⟩
      cases held : q.held with
      | false =>
          simp only [queueStep, found, Queue.Progress.step, held]
          exact .goes (Nat.lt_succ_self 3)
      | true =>
          simp only [queueStep, found, Queue.Progress.step, held]
          exact .waits ((world_of_found found).2.2.trans held)
  | change t => exact stored (.change _)
  | publish => exact stored (.publish _)
  | release => exact stored (.release _)

/-- A step of finishing a task off. -/
theorem Base.finishes (base : m.Base) (id : WorkerId) (seated : e.Seated)
    (whole : ¬Broken m.world e.items) (own : e.finished? = some t) :
    Finishes m.world e t (m.executeStep id e).2 := by
  -- a task that has been woken is in hand
  have alone : ∀ {t : Task} {xs : List Item}, ¬Broken m.world (.loose t :: xs) →
      ¬Broken m.world [.loose t] :=
    fun whole broken => whole (broken.mono (List.subset_append_left [_] _))
  have executes := m.executes_executeStep id e
  generalize m.executeStep id e = r at executes
  cases executes with
  | vets | unvetted | parks | workless | takes | starts | locks | barred | acts | hands | handed
  | refused | detained => cases own
  | unlocked => exact .goes own (by simp [Execution.ahead, Prod.Lex.toLex_lt_toLex])
  | unlocks holds _ => exact .goes own (by simp [Execution.ahead, holds, Prod.Lex.toLex_lt_toLex])
  | misunlocks holds ran =>
      obtain ⟨free, -⟩ := base.handles.unlock_error ran
      exact absurd (.fault (.unlock List.mem_cons_self holds free)) whole
  | released => exact .goes own (by simp [Execution.ahead, Prod.Lex.toLex_lt_toLex])
  | releases _ => exact .goes ((finished_releasing ..).trans own) (ahead_released_lt ..)
  | misreleases ran =>
      obtain ⟨unheld, -⟩ := base.handles.advance_error ran
      exact absurd (.fault (.release List.mem_cons_self unheld)) whole
  | wakes vetted =>
      obtain ⟨-, rank, -, -⟩ := (base.vets (alone whole)).of_goes vetted
      exact .goes own (by simpa [Execution.ahead, Prod.Lex.toLex_lt_toLex] using rank)
  | reparks _ => exact .goes ((finished_releasing ..).trans own) (ahead_releasing_lt ..)
  | routes _ =>
      refine .goes own ?_
      simp only [Execution.ahead, Prod.Lex.toLex_lt_toLex, Queue.Request.start,
        Queue.Progress.left]
      lia
  | unwoken vetted => exact absurd vetted ((base.vets (alone whole)).ne_fails _)
  | stores stepped =>
      have stores := base.stores seated (lt_of_storing seated whole)
      rw [stepped] at stores
      cases stores with
      | goes left =>
          exact .goes own (by simpa [Execution.ahead, Prod.Lex.toLex_lt_toLex] using left)
  | stored _ => exact .goes ((finished_releasing ..).trans own) (ahead_releasing_lt ..)
  | misstores stepped =>
      have stores := base.stores seated (lt_of_storing seated whole)
      rw [stepped] at stores
      cases stores
  | withheld stepped =>
      have stores := base.stores seated (lt_of_storing seated whole)
      rw [stepped] at stores
      cases stores with
      | waits held => exact .waits rfl held
  | disposes f => exact .ends rfl (Option.some.inj own)

/-- The last step of finishing a task off disposes it. -/
theorem moments_dispose {f : Frame} (last : m.controlOf id = .executing (.dispose f)) :
    m.moments (.step id) = [.disposed f.task.serial] := by
  rw [moments, last]
  rfl

/-- What comes next for a worker that finishes a task off: it waits for nothing but the lock of the
queue into which it puts somebody, or goes on with less ahead until the task is given up. -/
structure Finishing (m : Machine) (id : WorkerId) (t : Task) : Prop where
  waits : m.step id = none → m.crash.isSome = true ∨
    ∃ q p, (m.controlOf id).Operates id q p ∧ m.world.held q = true
  goes : ∀ after, m.step id = some after → after.crash = none ∧
    ((after.controlOf id).finished? = some t ∧
        (after.controlOf id).ahead < (m.controlOf id).ahead ∨
      ∃ f, m.controlOf id = .executing (.dispose f) ∧ f.task = t)

/-- A worker of a sound pool finishes its task off. -/
theorem Sound.finishing (sound : m.Sound) (own : (m.controlOf id).finished? = some t)
    (whole : ¬Broken m.world (m.hands id)) : m.Finishing id t := by
  obtain ⟨e, now, own⟩ := Control.executing_of_finished own
  have seated := sound.seated id
  rw [Machine.hands, now] at whole
  rw [now] at seated
  have finishes := sound.toBase.finishes id seated.2 whole own
  have leads := sound.toBase.leads_execution seated.1 seated.2
  have crew : id < m.workers.size := lt_of_controlOf (by simp [now])
  have found := Array.getElem?_eq_getElem crew
  generalize m.workers[id] = w at found
  have control : w.control = .executing e := (controlOf_of_found found).symm.trans now
  have step : m.step id = if m.crash.isSome then none else
      proceed id .executing (fun m _ => m.setControl id (afterTask w.duty))
        (m.executeStep id e) := by
    simp only [Machine.step, found, control]
  by_cases down : m.crash.isSome = true
  · rw [if_pos down] at step
    refine ⟨fun _ => .inl down, fun after moved => ?_⟩
    cases step.symm.trans moved
  · rw [if_neg down] at step
    have up : m.crash = none := Option.not_isSome_iff_eq_none.1 down
    generalize m.executeStep id e = r at finishes leads step
    obtain ⟨next, turn⟩ := r
    cases finishes with
    | @waits f todo woken q p putting held =>
        refine ⟨fun _ => .inr ⟨q, p, ?_, held⟩, fun after moved => ?_⟩
        · rw [now, putting]
          exact .requeue
        · cases step.symm.trans moved
    | goes own less =>
        refine ⟨fun stays => ?_, fun after moved => ?_⟩
        · cases step.symm.trans stays
        · cases step.symm.trans moved
          cases leads with
          | goes passes =>
              refine ⟨passes.crash.trans up, .inl ?_⟩
              rw [controlOf_setControl_self (passes.crew.symm ▸ crew), now]
              exact ⟨own, less⟩
    | ends last own =>
        refine ⟨fun stays => ?_, fun after moved => ?_⟩
        · cases step.symm.trans stays
        · cases step.symm.trans moved
          cases leads with
          | ends passes =>
              exact ⟨passes.crash.trans up, .inr ⟨_, now.trans (congrArg _ last), own⟩⟩

end Machine

/-! ## Tasks that have been woken -/

/-- Whether the task of a number is in a queue, or waits for a version. -/
def World.Lodges (w : World) (n : Nat) : Prop :=
  (∃ q, ∃ t ∈ w.queue q, t.serial = n) ∨ ∃ h v, ∃ t ∈ (w.units h).waiting v, t.serial = n

variable {w w' : World} {xs ys : List Item} {ms : List Moment}

/-- The task of an item that has been accepted and whose work has not been taken yet. -/
def Item.accepted? : Item → Option Task
  | .loose t | .bound t _ => some t
  | _ => none

/-- A task in hand that has been accepted stays in hand, is put into a queue or is made to wait. -/
theorem Deed.lodges (deed : Deed w xs ms w' ys) (unbroken : ¬Broken w xs) {x : Item} {u : Task}
    (mem : x ∈ xs) (accepted : x.accepted? = some u) :
    (∃ y ∈ ys, .task u.serial ∈ y.keys) ∨ w'.Lodges u.serial := by
  have keys : .task u.serial ∈ x.keys := by
    cases x with
    | loose t | bound t q =>
        cases accepted
        exact List.mem_cons_self
    | _ => cases accepted
  have stays : x ∈ ys → (∃ y ∈ ys, .task u.serial ∈ y.keys) ∨ w'.Lodges u.serial :=
    fun mem => .inl ⟨x, mem, keys⟩
  cases deed with
  | still => exact stays mem
  | begin _ _ _ _ | acquire _ _ | pick _ => exact stays (List.mem_cons_of_mem _ mem)
  | unbuilt | keep | refused | unguard | dispose =>
      rcases List.mem_cons.1 mem with rfl | mem
      · cases accepted
      · exact stays mem
  | schedule _ _ _ | built _ | accept _ | acceptLazily _ _ _ | publish | lock _ _ | start | finish
  | unlock _ _ | unlocked _ =>
      rcases List.mem_cons.1 mem with rfl | mem
      · cases accepted
      · exact stays (List.mem_cons_of_mem _ mem)
  | release _ _ =>
      rcases List.mem_cons.1 mem with rfl | mem
      · cases accepted
      · exact stays (List.mem_append_right _ (List.mem_cons_of_mem _ mem))
  | mark _ _ | route _ _ | take _ _ =>
      rcases List.mem_cons.1 mem with rfl | mem
      · cases accepted
        exact .inl ⟨_, List.mem_cons_self, List.mem_cons_self⟩
      · exact stays (List.mem_cons_of_mem _ mem)
  | @park xs t d _ _ _ =>
      rcases List.mem_cons.1 mem with rfl | mem
      · cases accepted
        refine .inr (.inr ⟨d.handle, d.version, u, ?_, rfl⟩)
        have late : ((w.units d.handle).parked u d.version).waiting d.version =
            (w.units d.handle).waiting d.version ++ [u] := Function.update_self ..
        show u ∈ (update w.units d.handle _ d.handle).waiting d.version
        rw [Function.update_self, late]
        exact List.mem_append_right _ List.mem_cons_self
      · exact stays mem
  | @store xs t q ts same =>
      rcases List.mem_cons.1 mem with rfl | mem
      · cases accepted
      · rcases List.mem_cons.1 mem with rfl | mem
        · cases accepted
          refine .inr (.inl ⟨q, u, ?_, rfl⟩)
          rw [w.queue_setQueue, if_pos rfl]
          exact same.mem_iff.2 List.mem_cons_self
        · exact stays (List.mem_cons_of_mem _ mem)
  | fetch _ =>
      rcases List.mem_cons.1 mem with rfl | mem
      · cases accepted
      · exact stays (List.mem_cons_of_mem _ (List.mem_append_right _ mem))
  | strands stray => exact absurd (.stray stray) unbroken
  | broken fault => exact absurd (.fault fault) unbroken

/-! ## Scenes -/

namespace Scene

variable {s a b : Scene} {past later : List Moment} {id : WorkerId} {e : Execution} {t : Task}

/-- An item of the pool that is not about to be accepted is as it should be. -/
theorem Settled.fits (settled : s.Settled past) {x : Item} (mem : x ∈ s.machine.hands id)
    (same : x.settled s.machine.size = x) : x.Fits s.machine.world := by
  obtain ⟨-, -, told, hands, shown, -⟩ := settled
  have crew : id < s.machine.workers.size := by
    refine Machine.lt_of_controlOf fun away => ?_
    rw [Machine.hands, away] at mem
    cases mem
  have here : x ∈ hands id := by
    rw [shown.inside id (Nat.lt_succ_of_lt crew)]
    exact List.mem_map.2 ⟨x, mem, same⟩
  exact (shown.fits (.hands id) x here).mono (Nat.le_refl _) rfl rfl fun _ _ met => met

/-- A task that is about to be given up has got rid of all its versions. -/
theorem Settled.released (settled : s.Settled past) {f : Frame}
    (now : s.machine.controlOf id = .executing (.dispose f)) :
    ∀ d ∈ f.task.dependencies, .released f.task.serial d ∈ past := by
  obtain ⟨-, -, told, hands, shown, same⟩ := settled
  have crew : id < s.machine.workers.size := Machine.lt_of_controlOf (by simp [now])
  have mem : .running f (.releasing []) ∈ hands id := by
    rw [shown.inside id (Nat.lt_succ_of_lt crew), Machine.hands, now]
    exact List.mem_cons_self
  obtain ⟨done, split, story⟩ := shown.tells (.hands id) _ mem
  rw [List.append_nil] at split
  intro d here
  have told : .released f.task.serial d ∈ about f.task.serial told := by
    rw [story]
    exact mem_releases.2 (.inl ⟨d, split ▸ here, rfl⟩)
  exact (mem_iff_of_otherThanAccepted same rfl).1 (mem_about.1 told).1

/-- A task that reaches a queue is pinned to no worker outside of the pool, and the queue is that of
a worker. -/
theorem Settled.reaches (settled : s.Settled past) {q : WorkerId}
    (bound : .bound t q ∈ s.machine.hands id) :
    t.Inside s.machine.size ∧ q < s.machine.size := by
  have fits : (Item.bound t q).Fits s.machine.world := settled.fits bound rfl
  exact ⟨fits.1.pins, fits.2.1⟩

/-- A worker of a pool in which everything is housed finishes its task off. -/
theorem Settled.finishing (settled : s.Settled past)
    (own : (s.machine.controlOf id).finished? = some t) : s.machine.Finishing id t := by
  obtain ⟨e, now, -⟩ := Control.executing_of_finished own
  have crew : id < s.machine.workers.size := Machine.lt_of_controlOf (by simp [now])
  exact settled.sound.finishing own (settled.sound_hands (Nat.lt_succ_of_lt crew))

/-- Whether a task is being finished off by a worker, or has got rid of all its versions and has
been disposed. -/
def FinishesOff (past : List Moment) (s : Scene) (id : WorkerId) (t : Task) : Prop :=
  (s.machine.controlOf id).finished? = some t ∨
    .disposed t.serial ∈ past ∧ ∀ d ∈ t.dependencies, .released t.serial d ∈ past

/-- Whoever runs a task is disturbed by nobody. -/
theorem Settled.undisturbed (settled : s.Settled past) {mv : Move} (moved : s.move mv = some a)
    (now : s.machine.controlOf id = .executing e) :
    mv = .turn (.step id) ∨ a.machine.controlOf id = .executing e := by
  cases move_cases moved with
  | @turn mv after turned =>
      by_cases mine : id = mv.actor
      · -- no other turn is taken by someone who runs a task
        rw [mine] at now ⊢
        cases Machine.move_cases turned with
        | step _ _ => exact .inl rfl
        | miss serving _ => cases serving.symm.trans now
        | call before calls =>
            rw [before] at now
            cases calls <;> cases now
        | start shared =>
            have now : s.machine.controlOf 0 = .executing e := now
            simp [Machine.shared, now] at shared
        | lead exclusive | stop exclusive =>
            simp only [Machine.exclusive, Bool.and_eq_true] at exclusive
            cases (Machine.away_of_free exclusive.1.2).2.symm.trans now
      · exact .inr (((settled.sound.move turned).others id mine).trans now)
  | _ => exact .inr now

/-- A task is finished off until it has been disposed. -/
theorem Settled.finishes (settled : s.Settled past) {mv : Move} (moved : s.move mv = some a)
    (finishes : FinishesOff past s id t) : FinishesOff (s.moments mv ++ past) a id t := by
  rcases finishes with own | ⟨disposed, released⟩
  · obtain ⟨e, now, -⟩ := Control.executing_of_finished own
    rcases settled.undisturbed moved now with rfl | same
    · cases move_cases moved with
      | turn turned =>
          cases Machine.move_cases turned with
          | step _ stepped =>
              rcases ((settled.finishing own).goes _ stepped).2 with ⟨own, -⟩ | ⟨f, last, rfl⟩
              · exact .inl own
              · rw [moments, Machine.moments_dispose last]
                exact .inr ⟨List.mem_cons_self, fun d mem =>
                  List.mem_cons_of_mem _ (settled.released last d mem)⟩
          | call _ calls => cases calls
    · exact .inl (by rwa [same, ← now])
  · exact .inr ⟨List.mem_append_right _ disposed, fun d mem =>
      List.mem_append_right _ (released d mem)⟩

/-- In the course of a run a task is finished off until it has been disposed. -/
theorem Settled.finishes_off (settled : s.Settled past) (goes : s.Runs later b)
    (inside : ∀ u ∈ b.parked, u.Inside s.machine.size) (finishes : FinishesOff past s id t) :
    FinishesOff (later ++ past) b id t := by
  induction goes with
  | refl => exact finishes
  | @turn later a b mv goes moved ih =>
      have before : ∀ u ∈ a.parked, u.Inside s.machine.size := fun u mem =>
        inside u ((move_cases moved).parked_subset mem)
      rw [List.append_assoc]
      exact (settled.runs goes before).finishes moved (ih before)

/-- A worker that finishes a task off takes its next step, once somebody else has given back the
lock for which it waits. -/
theorem Settled.unblocked (settled : s.Settled past) (guarded : s.machine.Guarded)
    (inside : ∀ u ∈ s.parked, u.Inside s.machine.size) (up : s.machine.crash = none)
    (own : (s.machine.controlOf id).finished? = some t) :
    ∃ later m after, s.machine.Runs later m ∧ m.controlOf id = s.machine.controlOf id ∧
      m.step id = some after := by
  cases stepped : s.machine.step id with
  | some after => exact ⟨_, _, after, .refl, rfl, stepped⟩
  | none =>
      rcases (settled.finishing own).waits stepped with down | ⟨q, p, putting, held⟩
      · rw [up] at down
        cases down
      · obtain ⟨later, m, run, up', free, same⟩ := settled.frees guarded up held stepped
        have goes : s.Runs later { s with machine := m } := runs_of_machine run
        have own' : (m.controlOf id).finished? = some t := by rwa [same]
        cases stepped' : m.step id with
        | some after => exact ⟨later, m, after, run, same, stepped'⟩
        | none =>
            -- it would wait for the same lock
            rcases ((settled.runs goes inside).finishing own').waits stepped' with
              down | ⟨q', p', putting', held'⟩
            · rw [up'] at down
              cases down
            · cases (same ▸ putting').queue_eq putting
              rw [free] at held'
              cases held'

/-- Unless the process has been taken down, a pool is able to go on until a task that is finished
off is disposed. -/
theorem Settled.disposes (settled : s.Settled past) (guarded : s.machine.Guarded)
    (inside : ∀ u ∈ s.parked, u.Inside s.machine.size) (up : s.machine.crash = none)
    (own : (s.machine.controlOf id).finished? = some t) :
    ∃ more m, s.machine.Runs more m ∧ .disposed t.serial ∈ more ∧
      ∀ d ∈ t.dependencies, .released t.serial d ∈ more ++ past := by
  induction ahead : (s.machine.controlOf id).ahead using WellFoundedLT.induction
    generalizing s past with
  | _ n ih =>
      obtain ⟨later, m, after, run, same, stepped⟩ := settled.unblocked guarded inside up own
      have goes : s.Runs later { s with machine := m } := runs_of_machine run
      have settled' := settled.runs goes inside
      have own' : (m.controlOf id).finished? = some t := by rwa [same]
      obtain ⟨e, now, -⟩ := Control.executing_of_finished own'
      obtain ⟨up', next⟩ := (settled'.finishing own').goes after stepped
      have moved : m.move (.step id) = some after := by
        simp [Machine.move, Machine.admitted, now, Control.arriving, stepped]
      have run' : s.machine.Runs _ after := run.turn (.step id) moved
      rcases next with ⟨own'', less⟩ | ⟨f, last, rfl⟩
      · have goes' : s.Runs _ { s with machine := after } := runs_of_machine run'
        have inside' : ∀ u ∈ s.parked, u.Inside after.size := goes'.size_eq ▸ inside
        obtain ⟨more, c, on, disposed, released⟩ := ih _ (ahead ▸ same ▸ less)
          (settled.runs goes' inside) (settled.guarded_runs guarded goes' inside) inside' up' own''
          rfl
        refine ⟨_, c, run'.trans on, List.mem_append_left _ disposed, fun d mem => ?_⟩
        rw [List.append_assoc]
        exact released d mem
      · have disposed := Machine.moments_dispose last
        refine ⟨_, after, run', ?_, fun d mem => ?_⟩
        · rw [disposed]
          exact List.mem_cons_self
        · rw [List.append_assoc]
          exact List.mem_append_right _ (settled'.released last d mem)

variable {l : Launch} {vocabulary : Access.Vocabulary} {handles callers : Nat}
  {references : Array HandleId}

/-- In every run in which only tasks are made to wait by hand that are pinned to no worker outside
of the pool, the tasks that reach a queue are pinned to no worker outside of it either.  A worker
that finishes a task off, whoever is woken by that, waits for nothing but the lock of the queue into
which it puts somebody; each of its steps leaves less ahead, until the task is disposed, and loses
none of those who have been woken; the task is not left before all its versions have been released;
and unless the process is taken down, the pool is able to go on until the task is disposed. -/
theorem Runs.survives
    (run : (opening (l.opening vocabulary handles callers references)).Runs past s)
    (goes : s.Runs later b) (inside : ∀ u ∈ b.parked, u.Inside l.size) :
    (∀ id t q, .bound t q ∈ s.machine.hands id → t.Inside l.size ∧ q < l.size) ∧
      ∀ id t, (s.machine.controlOf id).finished? = some t →
        (s.machine.step id = none → s.machine.crash.isSome = true ∨
          ∃ q p, (s.machine.controlOf id).Operates id q p ∧ s.machine.world.held q = true) ∧
        (∀ after, s.machine.step id = some after →
          ((after.controlOf id).finished? = some t ∧
              (after.controlOf id).ahead < (s.machine.controlOf id).ahead ∨
            s.machine.moments (.step id) = [.disposed t.serial]) ∧
          ∀ x ∈ s.machine.hands id, ∀ u ∈ x.accepted?,
            (∃ y ∈ after.hands id, .task u.serial ∈ y.keys) ∨ after.world.Lodges u.serial) ∧
        FinishesOff (later ++ past) b id t ∧
        (s.machine.crash = none → ∃ more m, s.machine.Runs more m ∧ .disposed t.serial ∈ more ∧
          ∀ d ∈ t.dependencies, .released t.serial d ∈ more ++ past) := by
  have size : s.machine.size = l.size := run.size_eq.trans (Machine.size_opening ..)
  have before : ∀ u ∈ s.parked, u.Inside l.size := fun u mem => inside u (goes.parked_subset mem)
  have settled := run.settled before
  refine ⟨fun id t q bound => size ▸ settled.reaches bound, fun id t own => ?_⟩
  obtain ⟨e, now, -⟩ := Control.executing_of_finished own
  have crew : id < s.machine.workers.size := Machine.lt_of_controlOf (by simp [now])
  have unbroken := settled.sound_hands (Nat.lt_succ_of_lt crew)
  have finishing := settled.finishing own
  refine ⟨finishing.waits, fun after stepped => ⟨?_, fun x mem u accepted => ?_⟩,
    settled.finishes_off goes (size ▸ inside) (.inl own),
    fun up => settled.disposes (run.guarded before) (size ▸ before) up own⟩
  · rcases (finishing.goes after stepped).2 with goes | ⟨f, last, rfl⟩
    · exact .inl goes
    · exact .inr (Machine.moments_dispose last)
  · exact (settled.sound.step stepped).deed.lodges unbroken mem accepted

/-- The owner builds a task and a write that is pinned to a worker, makes the write wait by hand,
and hands the first task in.  Then it leads the round in which the first task is executed. -/
def wakesPinned (b : Blueprint Act) (pin : WorkerId) : List Move :=
  .turn (.spawn 0 b) :: owner (b.accesses.length + 1) ++ .turn (.keep 0) ::
    .turn (.spawn 0 { writeTask with pin := some pin }) :: owner 2 ++
      [.turn (.keep 0), .vet 0, .look 0, .look 0, .turn (.submit 0 0)] ++
        owner (b.accesses.length + 6) ++ [.turn .lead]

/-- A write wakes another one that is pinned to the only worker, and is disposed. -/
theorem Runs.woken_write_survives :
    ∃ past s later b, Runs (opening (smallPool ⟨1, by decide⟩)) past s ∧ s.Runs later b ∧
      (∃ x ∈ s.machine.hands 0, x.accepted?.map Task.serial = some 1) ∧
      .disposed 0 ∈ later ++ past ∧ .disposed 0 ∉ past := by
  obtain ⟨past, s, run, seen⟩ := exists_runs (opening (smallPool ⟨1, by decide⟩))
    (wakesPinned writeTask 0 ++ owner 10)
    (fun past s => (.disposed 0 ∉ past ∧
      (s.machine.controlOf 0).finished?.map Task.serial = some 0 ∧
      (s.machine.hands 0).any (fun x => x.accepted?.map Task.serial = some 1)) &&
      (s.follow [] (owner 8)).any fun r =>
        (∀ u ∈ r.2.parked, u.Inside 1) ∧ (r.2.machine.controlOf 0).finished?.isNone)
    (by decide +kernel)
  obtain ⟨early, followed⟩ := Bool.and_eq_true_iff.1 seen
  obtain ⟨undone, finished, woken⟩ := of_decide_eq_true early
  obtain ⟨later, b, goes, holds⟩ := exists_runs s _
    (fun _ b => (∀ u ∈ b.parked, u.Inside 1) ∧ (b.machine.controlOf 0).finished?.isNone)
    followed
  obtain ⟨inside, none⟩ := of_decide_eq_true holds
  obtain ⟨t, own, serial⟩ := Option.map_eq_some_iff.1 finished
  obtain ⟨x, mem, accepted⟩ := List.any_eq_true.1 woken
  refine ⟨past, s, later, b, run, goes, ⟨x, mem, of_decide_eq_true accepted⟩, ?_, undone⟩
  rcases ((run.survives goes inside).2 0 t own).2.2.1 with still | ⟨disposed, -⟩
  · rw [still] at none
    cases none
  · exact serial ▸ disposed

/-- Whether a worker has fallen by looking for a queue that is not there. -/
def fellOutside (size index : Nat) : Control → Bool
  | .failed (.queueOutside n i) => n = size && i = index
  | _ => false

/-- Someone who makes a task wait by hand that is pinned outside of the pool fells the worker by
whom it is woken: one version of the task that has been done is released, the next one is not, and
the task is not disposed. -/
theorem Runs.outsider_fells_worker :
    ∃ past s, Runs (opening crossroads) past s ∧
      s.machine.controlOf 0 = .failed (.queueOutside 1 7) ∧ .returned 0 ∈ past ∧
      .released 0 (writeOf 0 0) ∈ past ∧ .released 0 (writeOf 1 0) ∉ past ∧
      .disposed 0 ∉ past := by
  obtain ⟨past, s, run, seen⟩ := exists_runs (opening crossroads)
    (wakesPinned (writeBoth 0 1) 7 ++ owner 13)
    (fun past s => (.returned 0 ∈ past ∧ .released 0 (writeOf 0 0) ∈ past ∧
      .released 0 (writeOf 1 0) ∉ past ∧ .disposed 0 ∉ past) &&
      fellOutside 1 7 (s.machine.controlOf 0))
    (by decide +kernel)
  obtain ⟨told, failed⟩ := Bool.and_eq_true_iff.1 seen
  refine ⟨past, s, run, ?_, of_decide_eq_true told⟩
  unfold fellOutside at failed
  split at failed
  · next now =>
    obtain ⟨rfl, rfl⟩ := (Bool.and_eq_true_iff.1 failed).imp of_decide_eq_true of_decide_eq_true
    exact now
  · cases failed

end Scene

end Pool

end AccessOrder
