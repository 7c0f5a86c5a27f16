/- # The shape of a pool

The numbers of queues and of workers, the readiness discipline and what the numbers of handles refer
to, which nothing that happens in a pool changes.

* `shape_step` : a step of a worker keeps the shape.
-/
import AccessOrder.Pool.Drive
namespace AccessOrder.Pool

/-- The numbers of queues and of workers, when the readiness of a task is checked, and what the
numbers of handles refer to. -/
def Machine.shape (m : Machine) : Nat × Nat × Readiness × Array HandleId :=
  (m.queues.size, m.workers.size, m.readiness, m.handles.references)

/-- An activity that goes on keeps the shape if it is kept when the activity ends. -/
theorem shape_onward {α β γ δ : Type} {r : Machine × Turn α β} {goes : α → γ}
    {ends : Machine → β → Machine × Turn γ δ} (kept : ∀ m b, (ends m b).1.shape = m.shape) :
    (onward r goes ends).1.shape = r.1.shape := by
  unfold onward
  split <;> simp_all

namespace Machine

@[simp] theorem shape_tell (m : Machine) (e : Event) : (m.tell e).shape = m.shape := rfl

@[simp] theorem shape_setControl (m : Machine) (id : WorkerId) (c : Control) :
    (m.setControl id c).shape = m.shape := by
  simp [shape, setControl]

@[simp] theorem shape_setScratch (m : Machine) (id : WorkerId) (bytes : List Nat) :
    (m.setScratch id bytes).shape = m.shape := by
  simp [shape, setScratch]

@[simp] theorem shape_see (m : Machine) (id : WorkerId) (round : UInt32) :
    (m.see id round).shape = m.shape := by
  simp [shape, see]

@[simp] theorem shape_begin (m : Machine) (b : Blueprint Act) :
    (m.begin b).2.shape = m.shape := by
  unfold begin
  split <;> rfl

/-- Taking a task out of those that are kept keeps the shape. -/
theorem shape_pick {m after : Machine} {serial : Nat} {t : Task}
    (picked : m.pick serial = some (t, after)) : after.shape = m.shape := by
  obtain ⟨-, rest, -, rfl⟩ := pick_eq_some picked
  rfl

/-- Operations on handles keep the shape if they leave the numbers of handles as they are. -/
theorem shape_handles {m : Machine} {hs : Handles} (same : hs.references = m.handles.references) :
    shape { m with handles := hs } = m.shape := by
  simp [shape, same]

/-! ## Queues and vetting -/

@[simp] theorem shape_queueStep (m : Machine) (target : WorkerId) (p : Queue.Progress Task) :
    (m.queueStep target p).1.shape = m.shape := by
  unfold queueStep
  split
  · rfl
  · split
    · rfl
    · rfl
    · simp only
      split <;> simp [shape]

@[simp] theorem shape_vetStep (m : Machine) (v : Vetting) : (m.vetStep v).1.shape = m.shape := by
  unfold vetStep
  simp only
  split <;> exact shape_handles (Vetting.references_step ..)

@[simp] theorem shape_submitStep (m : Machine) (origin : WorkerId) (s : Submission) :
    (m.submitStep origin s).1.shape = m.shape := by
  unfold submitStep
  split
  · simp only
    split <;> exact shape_handles (Draft.references_step ..)
  · simp only
    split
    · rfl
    · split <;> rfl
  · rw [shape_onward, shape_vetStep]
    intro m t
    cases t <;> rfl
  · rw [shape_onward, shape_queueStep]
    exact fun _ _ => rfl

/-! ## Running a task -/

theorem shape_actStep {m after : Machine} {id : WorkerId} {a : Act} {o : Outcome}
    (done : m.actStep id a = some (after, o)) : after.shape = m.shape := by
  revert done
  unfold actStep
  split
  case h_1 | h_2 =>
    split <;> (simp only [Option.some.injEq, Prod.mk.injEq, and_imp]; rintro rfl -; rfl)
  all_goals
    first
    | (simp only [Option.some.injEq, Prod.mk.injEq, and_imp]; rintro rfl -; simp)
    | simp

@[simp] theorem shape_workStep (m : Machine) (id : WorkerId) (f : Frame) (acts : List Act)
    (results : List Outcome) : (m.workStep id f acts results).1.shape = m.shape := by
  unfold workStep
  split
  · rfl
  · rfl
  · next b _ =>
    have kept := shape_begin m b
    split <;> next begun => rw [begun] at kept; exact kept
  · split
    · rfl
    · next picked => exact shape_pick picked
  · split
    · next done => exact shape_actStep done
    · rfl

@[simp] theorem shape_executeStep (m : Machine) (id : WorkerId) (e : Execution) :
    (m.executeStep id e).1.shape = m.shape := by
  unfold executeStep
  split
  case h_1 =>
    rw [shape_onward, shape_vetStep]
    intro m t
    split <;> rfl
  case h_5 s =>
    have kept := shape_submitStep m id s
    split
    · next failed => rw [failed] at kept; exact kept
    · rw [shape_onward, kept]
      exact fun _ _ => rfl
  case h_10 =>
    rw [shape_onward, shape_vetStep]
    intro m t
    cases t <;> rfl
  case h_11 =>
    rw [shape_onward, shape_queueStep]
    exact fun _ _ => rfl
  case h_3 h _ =>
    have kept := m.handles.references_tryLock h
    split
    · next taken =>
      rw [taken] at kept
      exact shape_handles kept
    · rfl
  case h_4 => simp
  case h_7 h _ =>
    have kept := m.handles.references_run h Handle.unlock
    split <;> next ran => rw [ran] at kept; exact shape_handles kept
  case h_9 d _ =>
    have kept := m.handles.references_run d.handle (·.advance d.version)
    split <;> next ran => rw [ran] at kept; exact shape_handles kept
  all_goals rfl

/-! ## The barrier -/

@[simp] theorem shape_serveStep (m : Machine) (id : WorkerId) (seen : UInt32) (s : Service) :
    (m.serveStep id seen s).1.shape = m.shape := by
  unfold serveStep
  split
  case h_1 =>
    split
    · rfl
    · split <;> simp
  all_goals first | rfl | (split <;> rfl)

@[simp] theorem shape_leadStep (m : Machine) (id : WorkerId) (l : Lead) :
    (m.leadStep id l).1.shape = m.shape := by
  cases l with
  | read => simp only [leadStep]; split <;> rfl
  | clear round => simp only [leadStep, shape]
  | announce round => simp only [leadStep, shape]
  | watchFlag round => simp only [leadStep]
  | watchQueue round => simp only [leadStep]
  | watchWord round => simp only [leadStep]; split <;> rfl
  | survey round queue => simp only [leadStep]; split <;> rfl
  | recheck round => simp only [leadStep]
  | close round quiet => simp only [leadStep, shape]

/-! ## Workers -/

@[simp] theorem shape_idleStep (m : Machine) (id : WorkerId) (w : Worker) :
    (m.idleStep id w).shape = m.shape := by
  unfold idleStep
  split
  · simp [shape]
  · split
    · simp
    · simp only
      split
      · rw [shape_tell, shape_setControl]
        simp [shape]
      · rw [shape_setControl]
        simp [shape]

/-- Going on with an activity keeps the shape if its step and its end do. -/
theorem shape_proceed {α β : Type} {id : WorkerId} {wrap : α → Control}
    {finish : Machine → β → Machine} {r : Machine × Turn α β} {m after : Machine}
    (ended : ∀ m b, (finish m b).shape = m.shape) (stepped : r.1.shape = m.shape)
    (went : proceed id wrap finish r = some after) : after.shape = m.shape := by
  rw [← stepped]
  unfold proceed at went
  split at went <;> simp only [Option.some.injEq, reduceCtorEq] at went
  all_goals subst went
  · simp
  · exact ended _ _
  · simp
  · rfl

/-- A step of a worker keeps the shape. -/
theorem shape_step {m after : Machine} {id : WorkerId} (stepped : m.step id = some after) :
    after.shape = m.shape := by
  unfold step at stepped
  split at stepped
  · cases stepped
  · split at stepped
    · cases stepped
    · next w _ =>
      split at stepped
      · cases stepped
      · cases stepped
      · exact shape_proceed (fun _ _ => shape_setControl ..) (shape_submitStep ..) stepped
      · split at stepped
        · cases stepped
          simp
        · split at stepped <;> cases stepped
          simp
      · cases stepped
        simp
      · exact shape_proceed (fun _ _ => shape_setControl ..) (shape_serveStep ..) stepped
      · refine shape_proceed (fun m t => ?_) (shape_queueStep ..) stepped
        cases t <;> simp
      · refine shape_proceed (fun m t => ?_) (shape_queueStep ..) stepped
        cases t <;> simp
      · exact shape_proceed (fun _ _ => shape_setControl ..) (shape_executeStep ..) stepped
      · refine shape_proceed (fun m quiet => ?_) (shape_leadStep ..) stepped
        split <;> simp

/-- A step of a worker keeps the number of queues. -/
theorem size_step {m after : Machine} {id : WorkerId} (stepped : m.step id = some after) :
    after.size = m.size :=
  congrArg Prod.fst (shape_step stepped)

/-- A worker that is let take a step, or has to wait, keeps the shape. -/
@[simp] theorem shape_stepOrWait (m : Machine) (id : WorkerId) :
    (m.stepOrWait id).shape = m.shape := by
  unfold stepOrWait
  cases stepped : m.step id with
  | none => rfl
  | some after => exact shape_step stepped

end Machine

end AccessOrder.Pool
