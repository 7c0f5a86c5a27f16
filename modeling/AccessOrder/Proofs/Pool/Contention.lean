/- # Contention for locks

However the turns of a pool are ordered, its workers take and give back the locks of handles in one
of the interleavings that `Latches` is about, and in none of those do they wait for each other in a
circle.

* `Deed.locked_eq`, `conduct_begins`, `yields_working` : what has nothing to do with locks, and what
  becomes of a worker that has nothing to do with them or whose task works;
* `Runs.interleaves` : the turns of a pool are such an interleaving;
* `Interleaves.deadlock_free` : someone can always go on, and locks exclude each other.
-/
import AccessOrder.Proofs.Pool.Latches
import AccessOrder.Proofs.Pool.Conduct
import AccessOrder.Proofs.Pool.Orderly
namespace AccessOrder.Pool

variable {past ms : List Moment} {w w' : World} {xs ys : List Item} {id : WorkerId}

/-! ## What has nothing to do with locks -/

/-- No deed takes a lock or gives one back unless it is one of a worker that does just that. -/
theorem Deed.locked_eq (deed : Deed w xs ms w' ys) (sound : ¬Broken w xs)
    (elsewhere : ∀ f stage, .running f stage ∈ xs → stage.latching = false) :
    w'.count = w.count ∧ ∀ h, (w'.units h).locked = (w.units h).locked := by
  cases deed with
  | lock => cases elsewhere _ _ List.mem_cons_self
  | unlock => cases elsewhere _ _ List.mem_cons_self
  | schedule | park => exact ⟨rfl, w.setUnit_same _ _ _ rfl⟩
  | release => exact ⟨rfl, w.setUnit_same _ _ _ (Handle.View.locked_released _ _)⟩
  | strands stray => exact absurd (.stray stray) sound
  | broken fault => exact absurd (.fault fault) sound
  | _ => exact ⟨rfl, fun _ => rfl⟩

/-- No task that is being run is on its way into or out of a queue. -/
theorem running_notMem_progress (f : Frame) (stage : Stage) (target : WorkerId)
    (p : Queue.Progress Task) : .running f stage ∉ p.items target := by
  cases p with
  | measure r | acquire r | change r => cases r <;> simp [Queue.Progress.items]
  | publish x | release x | done x => simp [Queue.Progress.items, looseItems]

/-- No task that is being run is handed in. -/
theorem running_notMem_submission (f : Frame) (stage : Stage) (s : Submission) :
    .running f stage ∉ s.items := by
  cases s with
  | build | arrive | vet => simp [Submission.items]
  | enqueue target p => exact running_notMem_progress f stage target p

/-- Whoever has a task in hand that takes locks or gives them back is in the middle of that. -/
theorem Control.section_of_mem {c : Control} {f : Frame} {stage : Stage}
    (mem : .running f stage ∈ c.items id) (latching : stage.latching = true) :
    c.section? = some (f, stage) := by
  cases c with
  | submitting s => exact absurd mem (running_notMem_submission f stage s)
  | popping p => exact absurd mem (running_notMem_progress f stage id p)
  | stealing victim p rest => exact absurd mem (running_notMem_progress f stage victim p)
  | executing e =>
    cases e with
    | lock g acts todo =>
      cases List.mem_singleton.1 mem
      rfl
    | unlock g =>
      cases List.mem_singleton.1 mem
      rfl
    | vet v => cases List.mem_singleton.1 mem
    | act | release | dispose =>
      cases List.mem_singleton.1 mem
      cases latching
    | hand g acts results versions s =>
      obtain mem | mem := List.mem_append.1 mem
      · exact absurd mem (running_notMem_submission f stage s)
      · cases List.mem_singleton.1 mem
        cases latching
    | wake g todo woken v =>
      have last : f = g ∧ stage = .releasing todo := by
        simpa [items, Execution.items, looseItems] using mem
      rw [last.2] at latching
      cases latching
    | requeue g todo woken target p =>
      have last : f = g ∧ stage = .releasing todo := by
        simpa [items, Execution.items, looseItems, running_notMem_progress] using mem
      rw [last.2] at latching
      cases latching
  | _ => cases mem

/-- Whoever takes, holds or gives back locks at all has just begun, and holds none yet. -/
def Control.Begins (c : Control) : Prop :=
  ∀ f stage, c.section? = some (f, stage) → f.held = [] ∧ ∃ todo, stage = .locking todo

/-- Whoever has nothing to do with locks does not even begin. -/
theorem Control.begins_of_none {c : Control} (outside : c.section? = none) : c.Begins := by
  intro f stage inside
  cases outside.symm.trans inside

namespace Machine

variable {m after : Machine}

/-! ## What becomes of a worker -/

/-- Whoever releases versions has nothing to do with locks. -/
theorem begins_releasing (f : Frame) (todo : List Dependency) (woken : List Task) :
    (Control.executing (releasing f todo woken)).Begins := by
  cases woken with
  | nil => exact Control.begins_of_none rfl
  | cons t woken => exact Control.begins_of_none rfl

/-- Whoever runs a task and has nothing to do with locks begins at most to take those of a task. -/
theorem begins_executeStep {e : Execution} (outside : (Control.executing e).section? = none) :
    (m.executeStep id e).2.Yields (fun e => (Control.executing e).Begins) (fun _ => True)
      fun _ => True := by
  have executes := m.executes_executeStep id e
  generalize m.executeStep id e = r at executes
  cases executes with
  | takes =>
    intro f stage inside
    cases inside
    exact ⟨rfl, _, rfl⟩
  | vets | wakes | routes | stores | released => exact Control.begins_of_none rfl
  | releases | reparks | stored => exact begins_releasing _ _ _
  | unvetted | parks | workless | misreleases | unwoken | misstores | withheld | disposes => trivial
  | _ => cases outside

/-- Whoever has nothing to do with locks begins at most to take those of a task. -/
theorem conduct_begins (outside : m.sectionOf id = none) : m.Conduct id Control.Begins where
  idle c nothing _ := by
    refine Control.begins_of_none ?_
    cases c with
    | executing e =>
      cases e with
      | lock | act | unlock => cases nothing
      | hand g acts results versions s =>
        exact absurd nothing (by simp [Control.items, Execution.items])
      | _ => rfl
    | _ => rfl
  uncounted := Control.begins_of_none rfl
  submitting s _ := yields_of_forall _ (fun _ => Control.begins_of_none rfl) (fun _ => trivial)
    fun _ => Control.begins_of_none rfl
  serving s seen _ := yields_of_forall _ (fun _ => trivial) (fun _ => trivial)
    fun _ => Control.begins_of_none rfl
  popping p _ := yields_of_forall _ (fun _ => Control.begins_of_none rfl)
    (fun _ _ _ => Control.begins_of_none rfl) fun _ => Control.begins_of_none rfl
  stealing victim p rest _ := yields_of_forall _ (fun _ => Control.begins_of_none rfl)
    (fun _ _ _ => Control.begins_of_none rfl) fun _ => Control.begins_of_none rfl
  executing e now := by
    rw [sectionOf, now] at outside
    exact (begins_executeStep outside).mono (fun _ begins => begins) (fun _ _ => trivial)
      fun _ _ => Control.begins_of_none rfl
  leading l _ := yields_of_forall _ (fun _ => trivial) (fun _ => trivial)
    fun _ => Control.begins_of_none rfl

/-- Whoever takes, holds or gives back locks takes a turn only by a step. -/
theorem step_of_inside {mv : Move} (inside : m.sectionOf mv.actor ≠ none)
    (moved : m.move mv = some after) : m.step mv.actor = some after := by
  have busy {c : Control} (now : m.controlOf mv.actor = c) : c.section? ≠ none := now ▸ inside
  cases move_cases moved with
  | step _ stepped => exact stepped
  | miss now => exact absurd rfl (busy now)
  | call now calls => cases calls <;> exact absurd rfl (busy now)
  | start shared =>
    unfold Machine.shared at shared
    rw [Bool.and_eq_true] at shared
    cases now : m.controlOf 0 with
    | away | submitting => exact absurd rfl (busy now)
    | _ => rw [now] at shared; cases shared.2
  | lead exclusive => exact absurd rfl (busy (exclusive_cases exclusive).2.1.2)
  | stop exclusive => exact absurd rfl (busy (exclusive_cases exclusive).2.1.2)

/-- A turn of someone who neither takes locks nor gives them back leaves the locks alone. -/
theorem Turned.locked_eq (turned : m.Turned id ms after) (orderly : Orderly past m.world m.hands)
    (elsewhere : ∀ f stage, m.sectionOf id = some (f, stage) → stage.latching = false) :
    after.handles.units.size = m.handles.units.size ∧ ∀ h, after.locked h = m.locked h := by
  refine turned.deed.locked_eq orderly.toHoused.sound fun f stage mem => ?_
  cases latching : stage.latching with
  | false => rfl
  | true => exact latching.symm.trans (elsewhere f stage (Control.section_of_mem mem latching))

/-- What a step does that is part of the work of a task: it goes on with the work or returns. -/
theorem yields_working {f : Frame} {e : Execution}
    (here : (Control.executing e).section? = some (f, .working)) :
    (m.executeStep id e).2.Yields
      (fun e => (Control.executing e).section? = some (f, .working) ∨
        (Control.executing e).section? = some (f, .unlocking))
      (fun _ => False) fun _ => False := by
  have executes := m.executes_executeStep id e
  generalize m.executeStep id e = r at executes
  cases executes with
  | acts acted =>
    cases here
    cases acted with
    | returns => exact .inr rfl
    | aborts => trivial
    | _ => exact .inl rfl
  | hands | handed | refused =>
    cases here
    exact .inl rfl
  | detained => trivial
  | _ => cases here

/-- A worker whose task works goes on with that or returns. -/
theorem Sound.section_of_working (sound : m.Sound) {f : Frame}
    (here : m.sectionOf id = some (f, .working)) (stepped : m.step id = some after)
    (up : after.crash = none) :
    after.sectionOf id = some (f, .working) ∨ after.sectionOf id = some (f, .unlocking) := by
  have before : m.crash = none := by
    cases down : m.crash with
    | none => rfl
    | some c => cases (step_eq_none_of_crash (by rw [down]; rfl) id).symm.trans stepped
  have crew : id < m.workers.size := lt_of_sectionOf (by rw [here]; rfl)
  have seated := sound.seated id
  cases now : m.controlOf id with
  | executing e =>
    rw [sectionOf, now] at here
    rw [now] at seated
    rw [step_executing before now] at stepped
    have keeps := keeps_of_leads (sound.leads_execution seated.1 seated.2) stepped
    have yields : (m.executeStep id e).2.Yields _ _ _ := yields_working here
    generalize m.executeStep id e = r at keeps yields stepped
    obtain ⟨next, turn⟩ := r
    cases turn with
    | goes e =>
      cases stepped
      rw [sectionOf_setControl_self (keeps.crew ▸ crew)]
      exact yields
    | ends | fails => cases yields
    | waits => cases stepped
    | aborts =>
      cases stepped
      cases up
  | _ => rw [sectionOf, now] at here; cases here

/-! ## The runs of a pool -/

variable {l : Launch} {vocabulary : Access.Vocabulary} {handles callers : Nat}
  {references : Array HandleId}

/-- When a pool is opened, no lock is held. -/
theorem interleaves_opening :
    Interleaves (fun h => h) (l.opening vocabulary handles callers references) := by
  refine .start rfl (fun id => ?_) fun h => ?_
  · rw [sectionOf, controlOf_opening]
    split <;> rfl
  · obtain ⟨entries, view⟩ := Handles.view_fresh handles vocabulary.listed.length h
    exact congrArg Handle.View.locked view

/-- Whoever had nothing to do with locks still has not, or begins to take those of a task in the
order of the handles. -/
theorem stays_of_begins (orderly : Orderly past after.world after.hands)
    (size : after.handles.units.size = m.handles.units.size)
    (begins : (after.controlOf id).Begins) :
    Stays (fun h => h) m none (after.sectionOf id) := by
  cases there : after.sectionOf id with
  | none => exact .outside
  | some x =>
    obtain ⟨f, stage⟩ := x
    obtain ⟨nothing, todo, rfl⟩ := begins f stage there
    obtain ⟨acts, now⟩ := controlOf_of_locking there
    have hands : after.hands id = [.running f (.locking todo)] := by
      rw [Machine.hands, now]
      rfl
    obtain ⟨fit, -, order⟩ := (orderly.in_hand hands).2
    rw [nothing, ← Task.lockOrder_self] at order
    obtain rfl : todo = f.task.lockOrder fun h => h := order
    exact .enters ⟨fit.distinct, fun d mem => size ▸ fit.known d mem⟩ nothing

/-- In every run of a pool locks are taken and given back in one of the ways considered here. -/
theorem Runs.interleaves (run : Runs (l.opening vocabulary handles callers references) past m)
    (up : m.crash = none) : Interleaves (fun h => h) m := by
  induction run with
  | refl => exact interleaves_opening
  | @turn past a b mv run moved ih =>
    have before : a.crash = none := by
      cases down : a.crash with
      | none => rfl
      | some c => cases (move_eq_none_of_crash (by rw [down]; rfl) mv).symm.trans moved
    refine .does mv.actor (ih before) ?_
    obtain ⟨sound, orderly⟩ := run.orderly
    have turned := sound.move moved
    have others : ∀ other ≠ mv.actor, b.sectionOf other = a.sectionOf other := by
      intro other else'
      rw [sectionOf, turned.others other else', sectionOf]
    cases here : a.sectionOf mv.actor with
    | none =>
      obtain ⟨size, locked⟩ := turned.locked_eq orderly fun f stage inside => by
        cases here.symm.trans inside
      have begins := sound.conduct_move (conduct_begins here) (Control.begins_of_none here) moved
        (fun _ _ _ _ => yields_of_forall _ (fun _ => trivial) (fun _ => trivial)
          fun _ => Control.begins_of_none rfl)
        fun _ _ _ _ _ => Control.begins_of_none rfl
      refine .elsewhere ⟨up, others, size.ge, locked, ?_⟩
      rw [here]
      exact stays_of_begins (run.turn mv moved).orderly.2 size begins
    | some x =>
      obtain ⟨f, stage⟩ := x
      have stepped := step_of_inside (here ▸ Option.some_ne_none _) moved
      cases stage with
      | locking todo => exact .latches here rfl stepped
      | unlocking => exact .latches here rfl stepped
      | releasing todo => exact absurd here (sectionOf_ne_releasing f todo)
      | working =>
        obtain ⟨size, locked⟩ := turned.locked_eq orderly fun g stage inside => by
          cases here.symm.trans inside
          rfl
        refine .elsewhere ⟨up, others, size.ge, locked, ?_⟩
        rw [here]
        obtain works | returns := sound.section_of_working here stepped up
        · rw [works]
          exact .works
        · rw [returns]
          exact .returns

/-! ## Nobody waits forever -/

/-- Workers take the locks that their tasks need in the order of the addresses of the handles, hold
them while the task works, and then give them back, in any interleaving.  As long as someone is in
the middle of that, someone who is can go on; a lock is held by at most one worker, and is taken
only while it is held; a task works only while its worker holds all the locks that it needs; and
when nobody is in the middle of that, no lock is taken.  The order in which a task declares its
accesses makes no difference. -/
theorem Interleaves.deadlock_free {addr : HandleId → Nat} (injective : Function.Injective addr)
    (run : Interleaves addr m) :
    (∀ id, (m.sectionOf id).isSome = true → ∃ worker after, m.Proceeds addr worker after) ∧
    (∀ h i j, h ∈ m.latchesOf i → h ∈ m.latchesOf j → i = j) ∧
    (∀ h, m.locked h = true ↔ ∃ id, h ∈ m.latchesOf id) ∧
    (∀ id f, m.sectionOf id = some (f, .working) → ∀ d ∈ f.task.dependencies,
      d.kind.properties.needsLock = true → d.handle ∈ m.latchesOf id) ∧
    ((∀ id, m.sectionOf id = none) → ∀ h, m.locked h = false) ∧
    ∀ t t' : Task, t.dependencies.Perm t'.dependencies → t.lockOrder addr = t'.lockOrder addr := by
  have latched := run.latched
  refine ⟨fun id busy => latched.exists_proceeds injective busy, fun h i j => latched.alone,
    latched.locked, fun id f works d mem needed => ?_, fun outside h => ?_,
    fun t t' => Task.lockOrder_eq_of_perm injective⟩
  · have all : f.held.reverse = f.task.lockOrder addr := latched.course works
    rw [latchesOf_of_section works, ← List.mem_reverse, all, (f.task.lockOrder_perm addr).mem_iff]
    exact List.mem_map_of_mem (List.mem_filter.2 ⟨mem, needed⟩)
  · cases locked : m.locked h with
    | false => rfl
    | true =>
      obtain ⟨holder, f, stage, there, -⟩ := latched.exists_holder locked
      cases (outside holder).symm.trans there

/-- A task that adds to a handle. -/
def addTask : Blueprint Act :=
  ⟨"add", [⟨0, ⟨2, "Add", .accumulate, some 2⟩⟩], .normal, none, none, []⟩

/-- Of two tasks that add to the same handle, the owner and the other worker have one each.  The
owner has the lock, and the other worker waits for it; one of them can go on. -/
theorem Runs.contended_adds :
    ∃ past m, Runs (smallPool ⟨2, by decide⟩) past m ∧ m.latchesOf 0 = [0] ∧
      (m.sectionOf 1).isSome = true ∧ m.step 1 = none ∧
      ∃ worker after, m.Proceeds (fun h => h) worker after := by
  obtain ⟨past, m, run, seen⟩ := exists_runs (smallPool ⟨2, by decide⟩)
    (.spawn 0 addTask :: (steps 0 9 ++ .spawn 0 addTask ::
      (steps 0 9 ++ .lead :: (steps 0 7 ++ steps 1 10))))
    (fun _ m => m.crash.isNone ∧ m.latchesOf 0 = [0] ∧ (m.sectionOf 1).isSome = true ∧
      (m.step 1).isNone) (by decide +kernel)
  obtain ⟨up, held, inside, waits⟩ := of_decide_eq_true seen
  have interleaves := run.interleaves (Option.isNone_iff_eq_none.1 up)
  exact ⟨past, m, run, held, inside, Option.isNone_iff_eq_none.1 waits,
    (interleaves.deadlock_free fun _ _ same => same).1 1 inside⟩

end Machine

end AccessOrder.Pool
