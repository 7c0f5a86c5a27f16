/- # Pinned tasks

A task that is pinned to a worker is put into no queue but the one of that worker, from which no
thief takes it, and so it is run by that worker only.  Whoever puts a task into a queue, the one who
hands it in or one who has woken it, looks at its pin, which nothing changes.

* `Runs.rightful` : who has taken a task to run it is allowed to;
* `Runs.pinned` : where a pinned task is, in every run of a pool.
-/
import AccessOrder.Proofs.Pool.Conduct
import AccessOrder.Proofs.Pool.Lasting
namespace AccessOrder

/-- What an operation has taken out of a queue. -/
def Queue.Progress.found? {τ : Type} : Queue.Progress τ → Option τ
  | .publish x | .release x | .done x => x
  | .measure _ | .acquire _ | .change _ => none

namespace Task

/-- Whether a task may be run by a worker. -/
def Allows (t : Task) (id : WorkerId) : Prop := ∀ q ∈ t.pin, q = id

/-- A task that is not pinned may be run by any worker. -/
theorem allows_of_unpinned {t : Task} (free : t.pin = none) (id : WorkerId) : t.Allows id := by
  intro q pinned
  rw [free] at pinned
  cases pinned

end Task

namespace Pool

/-- The task that is run. -/
def Execution.task : Execution → Task
  | .vet v => v.task
  | .lock f _ _ | .act f _ _ | .hand f _ _ _ _ | .unlock f | .release f _ | .wake f _ _ _
  | .requeue f _ _ _ _ | .dispose f => f.task

/-- The task that a worker has taken out of a queue, to run it. -/
def Control.taken? : Control → Option Task
  | .popping p | .stealing _ p _ => p.found?
  | .executing e => some e.task
  | _ => none

/-- Whether a worker has taken no task but those that it may take. -/
def Control.Rightful (id : WorkerId) : Control → Prop
  | .popping p => ∀ t ∈ p.found?, t.Allows id
  | .stealing _ p _ => ∀ t ∈ p.found?, t.pin = none
  | .executing e => e.task.Allows id
  | _ => True

variable {m after : Machine} {id : WorkerId} {past later : List Moment}

/-- The task that a worker has taken to run it is in its hands. -/
theorem exists_item_of_taken (id : WorkerId) {c : Control} {t : Task}
    (taken : c.taken? = some t) :
    ∃ x ∈ c.items id, x.task? = some t := by
  have found : ∀ {p : Queue.Progress Task} {q : WorkerId}, p.found? = some t →
      .loose t ∈ p.items q := by
    intro p q found
    unfold Queue.Progress.found? at found
    split at found
    · rw [found]
      exact List.mem_cons_of_mem _ List.mem_cons_self
    · rw [found]
      exact List.mem_cons_of_mem _ List.mem_cons_self
    · rw [found]
      exact List.mem_cons_self
    · cases found
    · cases found
    · cases found
  unfold Control.taken? at taken
  split at taken
  · exact ⟨.loose t, found taken, rfl⟩
  · exact ⟨.loose t, found taken, rfl⟩
  · next e =>
    cases taken
    cases e with
    | vet v => exact ⟨_, List.mem_cons_self, rfl⟩
    | lock f acts todo => exact ⟨_, List.mem_cons_self, rfl⟩
    | act f acts results => exact ⟨_, List.mem_cons_self, rfl⟩
    | unlock f => exact ⟨_, List.mem_cons_self, rfl⟩
    | release f todo => exact ⟨_, List.mem_cons_self, rfl⟩
    | dispose f => exact ⟨_, List.mem_cons_self, rfl⟩
    | hand f acts results versions s =>
        exact ⟨_, List.mem_append_right _ List.mem_cons_self, rfl⟩
    | wake f todo woken v =>
        exact ⟨_, List.mem_cons_of_mem _ (List.mem_append_right _ List.mem_cons_self), rfl⟩
    | requeue f todo woken target p =>
        exact ⟨_, List.mem_append_right _ (List.mem_append_right _ List.mem_cons_self), rfl⟩
  · cases taken

namespace Machine

/-- A step of vetting changes no pin. -/
theorem Base.vetStep_yields (base : m.Base) (v : Vetting) :
    (m.vetStep v).2.Yields (fun next => next.task.pin = v.task.pin)
      (fun x => ∀ t ∈ x, t.pin = v.task.pin) fun _ => True := by
  unfold vetStep
  cases v with
  | look t =>
      simp only [Vetting.step]
      cases t.blocker? with
      | none => exact fun _ same => congrArg Task.pin (Option.some.inj same).symm
      | some d =>
          show Task.pin _ = _
          split <;> rfl
  | park t =>
      simp only [Vetting.step]
      cases t.blocker? with
      | none => exact fun _ same => congrArg Task.pin (Option.some.inj same).symm
      | some d =>
          simp only
          cases ran : m.handles.run d.handle (·.register t d.version) with
          | mk result hs =>
              cases result with
              | error f => trivial
              | ok r =>
                  cases r with
                  | parked => exact fun t nobody => absurd nobody (Option.not_mem_none t)
                  | handedBack back =>
                      obtain ⟨-, -, rfl, -⟩ := base.handles.handedBack ran
                      exact rfl

/-- A task goes on with its releases. -/
theorem task_releasing (f : Frame) (todo : List Dependency) (woken : List Task) :
    (releasing f todo woken).task = f.task := by
  cases woken <;> rfl

/-- A step through the acts of a task goes on with the task. -/
theorem yields_of_acts {f : Frame} {acts : List Act} {results : List Outcome}
    {r : Machine × Turn Execution Unit} (acted : m.Acts id f acts results r) :
    r.2.Yields (fun next => next.task = f.task) (fun _ => True) fun _ => True := by
  cases acted with
  | aborts => trivial
  | _ => rfl

/-- A step of running a task does not change its pin. -/
theorem Base.executeStep_yields (base : m.Base) (id : WorkerId) (e : Execution) :
    (m.executeStep id e).2.Yields (fun next => next.task.pin = e.task.pin) (fun _ => True)
      fun _ => True := by
  have executes := m.executes_executeStep id e
  generalize m.executeStep id e = r at executes
  cases executes with
  | @vets v _ _ vetted => exact (base.vetStep_yields v).of_goes vetted
  | @takes v _ t _ vetted => exact (base.vetStep_yields v).of_ends vetted t rfl
  | acts acted =>
      exact (yields_of_acts acted).mono (fun _ => congrArg Task.pin) (fun _ _ => trivial)
        fun _ _ => trivial
  | releases | reparks | stored => exact congrArg Task.pin (task_releasing _ _ _)
  | starts | locks | hands | handed | refused | unlocked | unlocks | released | wakes | routes
  | stores => rfl
  | _ => trivial

/-- A step of taking a task out of a queue finds none but those that are in it; a thief finds none
but those that are not pinned. -/
theorem Base.queueStep_yields (base : m.Base) (target : WorkerId) {p : Queue.Progress Task}
    {r : Queue.Request Task} (takes : r.Takes) (taking : p.Taking r) (apt : Task → Prop)
    (queued : ∀ t ∈ m.world.queue target, (r = .steal → t.pin = none) → apt t)
    (found : ∀ t ∈ p.found?, apt t) :
    (m.queueStep target p).2.Yields (fun next => ∀ t ∈ next.found?, apt t)
      (fun x => ∀ t ∈ x, apt t) fun _ => True := by
  have nothing : ∀ t ∈ (none : Option Task), apt t := fun t nobody =>
    absurd nobody (Option.not_mem_none t)
  unfold queueStep
  cases there : m.queues[target]? with
  | none => trivial
  | some q =>
      have lanes := base.lanes q (Array.mem_of_getElem? there)
      have contents := (world_of_found there).1
      cases taking with
      | measure =>
          simp only [Queue.Progress.step]
          by_cases empty : q.published = 0
          · simp only [if_pos empty]
            exact nothing
          · simp only [if_neg empty]
            exact nothing
      | acquire =>
          cases held : q.held with
          | false =>
              simp only [Queue.Progress.step, held]
              exact nothing
          | true =>
              cases takes with
              | pop =>
                  simp only [Queue.Progress.step, held]
                  trivial
              | steal =>
                  simp only [Queue.Progress.step, held]
                  exact nothing
      | change =>
          cases takes with
          | pop =>
              obtain ⟨x, l, popped, -, same, -⟩ := lanes.pop
              simp only [Queue.Progress.step, Queue.Request.apply, popped, Except.map]
              have plain : Queue.Request.pop ≠ (.steal : Queue.Request Task) := by simp
              refine fun t mine => queued t ?_ fun thief => absurd thief plain
              rw [contents, same]
              exact List.mem_append_left _ (Option.mem_toList.2 mine)
          | steal =>
              obtain ⟨x, l, stolen, -, same, free⟩ := lanes.steal
              simp only [Queue.Progress.step, Queue.Request.apply, stolen, Except.map]
              refine fun t mine => queued t ?_ fun _ => Option.isNone_iff_eq_none.1 (free t mine)
              rw [contents]
              exact same.mem_iff.2 (List.mem_append_left _ (Option.mem_toList.2 mine))
      | publish x => exact found
      | release x => exact found

/-! ## Who runs a task -/

/-- Whoever has nothing in hand has taken nothing. -/
theorem rightful_of_idle {c : Control} (idle : c.items id = []) : c.Rightful id := by
  have nothing : ∀ {p : Queue.Progress Task} {q : WorkerId}, p.items q = [] → p.found? = none := by
    intro p q idle
    cases p with
    | measure r | acquire r | change r => rfl
    | publish x | release x => cases idle
    | done x =>
        cases x with
        | none => rfl
        | some t => cases idle
  cases c with
  | popping p =>
      intro t found
      rw [nothing idle] at found
      cases found
  | stealing victim p rest =>
      intro t found
      rw [nothing idle] at found
      cases found
  | executing e =>
      have own : (Control.executing e).taken? = some e.task := rfl
      obtain ⟨x, mem, -⟩ := exists_item_of_taken id own
      rw [idle] at mem
      cases mem
  | _ => trivial

/-- Whoever has taken a task to run it is allowed to, if the queues hold none but the tasks that
their owners may run. -/
theorem Sound.conduct_rightful (sound : m.Sound)
    (queued : ∀ q, ∀ t ∈ m.world.queue q, t.Allows q)
    (rightful : (m.controlOf id).Rightful id) : m.Conduct id (Control.Rightful id) := by
  have base := sound.toBase
  have seated := sound.seated id
  have free : ∀ {α β : Type} (t : Turn α β),
      t.Yields (fun _ => True) (fun _ => True) fun _ => True := fun t =>
    yields_of_forall t (fun _ => trivial) (fun _ => trivial) fun _ => trivial
  refine ⟨fun c idle _ => rightful_of_idle idle, trivial, fun s _ => ?_, fun s seen _ => ?_,
    fun p now => ?_, fun victim p rest now => ?_, fun e now => ?_, fun l _ => ?_⟩
  · exact free _
  · exact free _
  · rw [now] at rightful seated
    exact base.queueStep_yields id .pop seated.2 _ (fun t mem _ => queued id t mem) rightful
  · rw [now] at rightful seated
    have yields := base.queueStep_yields victim .steal seated.2 (·.pin = none)
      (fun t _ free => free rfl) rightful
    exact yields.mono (fun _ apt => apt)
      (fun x apt t mine => Task.allows_of_unpinned (apt t mine) id) fun _ _ => trivial
  · rw [now] at rightful
    refine (base.executeStep_yields id e).mono (fun next same => ?_) (fun _ _ => trivial)
      fun _ _ => trivial
    show ∀ q ∈ next.task.pin, q = _
    rw [same]
    exact rightful
  · exact free _

variable {l : Launch} {vocabulary : Access.Vocabulary} {handles callers : Nat}
  {references : Array HandleId}

/-- The queues of a pool hold none but the tasks that their owners may run. -/
theorem allows_of_queued (orderly : Orderly past m.world m.hands) (q : WorkerId) :
    ∀ t ∈ m.world.queue q, t.Allows q := fun _ queued w pinned =>
  ((orderly.fits (.queue q) _ (List.mem_map_of_mem queued)).2.2 w pinned).symm

/-- Whoever has taken a task to run it is allowed to. -/
theorem Runs.rightful
    (run : Runs (l.opening vocabulary handles callers references) past m) (id : WorkerId) :
    (m.controlOf id).Rightful id := by
  induction run generalizing id with
  | refl =>
      rw [controlOf_opening]
      split <;> trivial
  | turn mv run moved ih =>
      obtain ⟨sound, orderly⟩ := run.orderly
      by_cases own : id = mv.actor
      · subst own
        exact sound.conduct_move (sound.conduct_rightful (allows_of_queued orderly) (ih _)) (ih _)
          moved (fun _ _ _ _ => yields_of_forall _ (fun _ => trivial) (fun _ => trivial)
            fun _ => trivial) fun _ _ _ _ _ => trivial
      · rw [(sound.move moved).others id own]
        exact ih id

end Machine

/-! ## Where a pinned task is -/

/-- Whether a task of the number `s`, if it is one of the task of an item, is pinned to `w`. -/
def Item.Keeps (s : Nat) (w : WorkerId) : Item → Prop
  | .draft d => d.serial = s → d.blueprint.pin = some w
  | .arriving t | .loose t | .bound t _ => t.serial = s → t.pin = some w
  | .guard .. => True
  | .running f _ => f.task.serial = s → f.task.pin = some w

/-- What is not of the task is not concerned. -/
theorem Item.keeps_of_other {s : Nat} {w : WorkerId} (x : Item) (other : .task s ∉ x.keys) :
    x.Keeps s w := by
  cases x with
  | guard => trivial
  | draft | arriving | loose | bound | running =>
      exact fun same => absurd (same ▸ List.mem_cons_self) other

/-- Nothing that becomes of a task changes its pin. -/
theorem lasting_keeps (s : Nat) (w : WorkerId) : Lasting (Item.Keeps s w) where
  guard _ _ := trivial
  resolve _ _ kept := kept
  built kept := kept
  accept kept := kept
  mark kept := kept
  bound _ := .rfl
  take _ kept := kept
  run _ _ kept := kept

namespace Machine

variable {l : Launch} {vocabulary : Access.Vocabulary} {handles callers : Nat}
  {references : Array HandleId}

/-- A pool in which the task of a number is queued for one worker and run by it, and by no other. -/
structure Confines (m : Machine) (s : Nat) (w : WorkerId) : Prop where
  queued : ∀ q, ∀ t ∈ m.tasksAt (.queue q), t.serial = s → q = w
  /-- It is on its way into no other queue. -/
  bound : ∀ id t q, .bound t q ∈ m.hands id → t.serial = s → q = w
  /-- No other worker has taken it out of a queue, or runs it. -/
  taken : ∀ id t, (m.controlOf id).taken? = some t → t.serial = s → id = w

/-- The task of a number whose items tell its pin is confined to the worker it is pinned to. -/
theorem Runs.confines
    (run : Runs (l.opening vocabulary handles callers references) past m) {s : Nat} {w : WorkerId}
    (kept : Everywhere (Item.Keeps s w) m.world m.hands) : m.Confines s w := by
  obtain ⟨sound, orderly⟩ := run.orderly
  refine ⟨fun q t queued same => ?_, fun id t q mem same => ?_, fun id t taken same => ?_⟩
  · have pinned : t.pin = some w := kept (.queue q) _ (List.mem_map_of_mem queued) same
    exact (allows_of_queued orderly q t queued w pinned).symm
  · have pinned : t.pin = some w := kept (.hands id) _ mem same
    exact (orderly.fits (.hands id) _ mem).2.2 w pinned
  · have rightful := run.rightful id
    obtain ⟨x, mem, task⟩ := exists_item_of_taken id taken
    have pinned : t.pin = some w := by
      have keeps := kept (.hands id) x mem
      cases x with
      | draft | guard => cases task
      | arriving | loose | bound | running =>
          cases task
          exact keeps same
    generalize m.controlOf id = c at taken rightful
    unfold Control.taken? at taken
    split at taken
    · exact (rightful t taken w pinned).symm
    · rw [show t.pin = none from rightful t taken] at pinned
      cases pinned
    · cases taken
      exact (rightful w pinned).symm
    · cases taken

/-- What lasts of the task of a number is met everywhere after a turn. -/
theorem Runs.lasts_turn
    (run : Runs (l.opening vocabulary handles callers references) past m) {s : Nat}
    (begun : s < m.begun) {good : Item → Prop} (lasting : Lasting good)
    (others : ∀ x : Item, .task s ∉ x.keys → good x) (all : Everywhere good m.world m.hands)
    {mv : Move} (moved : m.move mv = some after) :
    s < after.begun ∧ Everywhere good after.world after.hands := by
  obtain ⟨sound, orderly⟩ := run.orderly
  refine ⟨Nat.lt_of_lt_of_le begun ((sound.move moved).deed.begun_le orderly.sound),
    sound.everywhere orderly moved lasting all fun d _ new => others _ fun mine => ?_⟩
  cases List.mem_singleton.1 mine
  exact Nat.ne_of_lt begun new

/-- The pin that a task has when it is handed in is the pin that it has for ever. -/
theorem Runs.keeps_later
    (run : Runs (l.opening vocabulary handles callers references) past m) {s : Nat} {w : WorkerId}
    (begun : s < m.begun) (kept : Everywhere (Item.Keeps s w) m.world m.hands)
    (goes : Runs m later after) :
    s < after.begun ∧ Everywhere (Item.Keeps s w) after.world after.hands := by
  induction goes with
  | refl => exact ⟨begun, kept⟩
  | turn mv goes moved ih =>
      exact (run.trans goes).lasts_turn ih.1 (lasting_keeps s w) Item.keeps_of_other ih.2 moved

/-- In every run of a pool, no thief takes a pinned task out of a queue, and a task that is pinned
to a worker when it is handed in, from outside or for a task that runs, is from then on queued for
that worker and run by it, and by no other. -/
theorem Runs.pinned
    (run : Runs (l.opening vocabulary handles callers references) past m) :
    (∀ q ∈ m.queues, ∀ t lanes, q.lanes.steal = .ok (some t, lanes) → t.pin = none) ∧
    (∀ id victim p rest t, m.controlOf id = .stealing victim p rest → p.found? = some t →
      t.pin = none) ∧
    ∀ id t w, .arriving t ∈ m.hands id → t.pin = some w →
      ∀ later after, Runs m later after → after.Confines t.serial w := by
  obtain ⟨sound, orderly⟩ := run.orderly
  refine ⟨fun q mem t lanes stolen => ?_, fun id victim p rest t now found => ?_,
    fun id t w arriving pinned later after goes => ?_⟩
  · obtain ⟨x, l', same, -, -, free⟩ := (sound.lanes q mem).steal
    obtain ⟨rfl, -⟩ := Prod.mk.inj (Except.ok.inj (same.symm.trans stolen))
    exact Option.isNone_iff_eq_none.1 (free t rfl)
  · have rightful := run.rightful id
    rw [now] at rightful
    exact rightful t found
  · have mine : .arriving t ∈ m.world.items m.hands (.hands id) := arriving
    -- nothing else is of the task
    have kept : Everywhere (Item.Keeps t.serial w) m.world m.hands :=
      orderly.everywhere mine List.mem_cons_self (fun _ => pinned) Item.keeps_of_other
    have begun : t.serial < m.begun := begun_of_keys (orderly.fits _ _ mine) List.mem_cons_self
    exact (run.trans goes).confines (run.keeps_later begun kept goes).2

/-- Whether the owner is about to hand in the task of number `1`, which is pinned to worker `1`. -/
def handsInPinned (m : Machine) : Bool :=
  match m.controlOf 0 with
  | .submitting (.arrive t) => t.serial = 1 && t.pin = some 1
  | _ => false

/-- A task that waits for another one when it is handed in is woken by the owner and taken out of
its queue by the worker to which it is pinned. -/
theorem Runs.pinned_write_taken :
    ∃ past m later after, Runs (smallPool ⟨2, by decide⟩) past m ∧ m.handsInPinned = true ∧
      Runs m later after ∧ (after.controlOf 1).taken?.map Task.serial = some 1 ∧
      after.Confines 1 1 := by
  obtain ⟨past, m, run, seen⟩ := exists_runs (smallPool ⟨2, by decide⟩)
    (.spawn 0 writeTask :: (steps 0 9 ++ .spawn 0 { writeTask with pin := some 1 } :: steps 0 2))
    (fun _ m => m.handsInPinned &&
      (m.follow [] (steps 0 3 ++ .lead :: (steps 0 23 ++ steps 1 8))).any fun r =>
        (r.2.controlOf 1).taken?.map Task.serial = some 1)
    (by decide +kernel)
  obtain ⟨handed, followed⟩ := Bool.and_eq_true_iff.1 seen
  obtain ⟨later, after, goes, taken⟩ := exists_runs m _
    (fun _ after => (after.controlOf 1).taken?.map Task.serial = some 1) followed
  refine ⟨past, m, later, after, run, handed, goes, of_decide_eq_true taken, ?_⟩
  unfold handsInPinned at handed
  split at handed
  · next t now =>
    have pinned : t.serial = 1 ∧ t.pin = some 1 := by simpa using handed
    have arriving : .arriving t ∈ m.hands 0 := by
      rw [hands, now]
      exact List.mem_cons_self
    exact pinned.1 ▸ run.pinned.2.2 0 t 1 arriving pinned.2 later after goes
  · cases handed

end Machine

end Pool

end AccessOrder
