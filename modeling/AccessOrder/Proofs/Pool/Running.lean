/- # The stages of a task

What a worker does at each stage of running a task, by what comes of the part of it that concerns a
queue, a handle or another task: there is one rule for every branch that is taken, and whatever such
steps keep is told from the rules.

* `acts_workStep` : what a step through the acts of a task can be;
* `executes_executeStep` : what a step of running a task can be.
-/
import AccessOrder.Pool.Machine
namespace AccessOrder.Pool

namespace Machine

/-- What a step through the acts of a task can be. -/
inductive Acts (m : Machine) (id : WorkerId) (f : Frame) :
    List Act → List Outcome → Machine × Turn Execution Unit → Prop where
  | returns (results : List Outcome) : Acts m id f [] results
      (m.tell (.ran id f.name f.task results.reverse), .goes (.unlock f))
  | aborts (acts : List Act) (results : List Outcome) :
      Acts m id f (.abort :: acts) results (m, .aborts f.task.label)
  /-- A task cannot be begun. -/
  | unbegun {b acts results e after} : m.begin b = (.error e, after) →
      Acts m id f (.spawn b :: acts) results (after, .goes (.act f acts (.failed e :: results)))
  | begins {b acts results d after} : m.begin b = (.ok d, after) →
      Acts m id f (.spawn b :: acts) results (after, .goes (.hand f acts results [] (.build d)))
  /-- No task of this number is kept. -/
  | unpicked {serial acts results} : m.pick serial = none →
      Acts m id f (.submit serial :: acts) results (m, .goes (.act f acts (.nothing :: results)))
  | picks {serial acts results t after} : m.pick serial = some (t, after) →
      Acts m id f (.submit serial :: acts) results
        (after, .goes (.hand f acts results t.versions (.arrive t)))
  /-- An act is done in one step. -/
  | does {a acts results after o} : m.actStep id a = some (after, o) →
      Acts m id f (a :: acts) results (after, .goes (.act f acts (o :: results)))

/-- What a step of running a task can be. -/
inductive Executes (m : Machine) (id : WorkerId) :
    Execution → Machine × Turn Execution Unit → Prop where
  | vets {v v' after} : m.vetStep v = (after, .goes v') →
      Executes m id (.vet v) (after, .goes (.vet v'))
  | unvetted {v after e} : m.vetStep v = (after, .fails e) →
      Executes m id (.vet v) (after, .fails e)
  /-- The task is made to wait. -/
  | parks {v after} : m.vetStep v = (after, .ends none) → Executes m id (.vet v) (after, .ends ())
  | workless {v after t} : m.vetStep v = (after, .ends (some t)) → t.work = none →
      Executes m id (.vet v) (after, .fails .workTaken)
  | takes {v after t work} : m.vetStep v = (after, .ends (some t)) → t.work = some work →
      Executes m id (.vet v)
        (after, .goes (.lock ⟨{ t with work := none }, work.name, []⟩ work.acts t.lockHandles))
  | starts (f : Frame) (acts : List Act) :
      Executes m id (.lock f acts []) (m, .goes (.act f acts []))
  | locks {f acts h todo hs} : m.handles.tryLock h = (true, hs) →
      Executes m id (.lock f acts (h :: todo))
        ({ m with handles := hs }, .goes (.lock { f with held := h :: f.held } acts todo))
  /-- Someone else holds the lock. -/
  | barred {f acts h todo hs} : m.handles.tryLock h = (false, hs) →
      Executes m id (.lock f acts (h :: todo)) (m, .waits)
  | acts {f acts results r} : m.Acts id f acts results r → Executes m id (.act f acts results) r
  | hands {f acts results versions s s' after} : m.submitStep id s = (after, .goes s') →
      Executes m id (.hand f acts results versions s)
        (after, .goes (.hand f acts results (builtVersions versions s') s'))
  | handed {f acts results versions s after} : m.submitStep id s = (after, .ends ()) →
      Executes m id (.hand f acts results versions s)
        (after, .goes (.act f acts (.versions versions :: results)))
  /-- The task that is handed in is refused, or cannot be built. -/
  | refused {f acts results versions s after e} : m.submitStep id s = (after, .fails e) →
      Executes m id (.hand f acts results versions s)
        (after, .goes (.act f acts (.failed e :: results)))
  | detained {f acts results versions s after} : m.submitStep id s = (after, .waits) →
      Executes m id (.hand f acts results versions s) (after, .waits)
  | unlocked {f : Frame} : f.held = [] →
      Executes m id (.unlock f) (m, .goes (.release f f.task.dependencies))
  | unlocks {f : Frame} {h held hs} : f.held = h :: held →
      m.handles.run h Handle.unlock = (.ok (), hs) →
      Executes m id (.unlock f)
        ({ m with handles := hs }, .goes (.unlock { f with held := held }))
  | misunlocks {f : Frame} {h held e hs} : f.held = h :: held →
      m.handles.run h Handle.unlock = (.error e, hs) →
      Executes m id (.unlock f) ({ m with handles := hs }, .fails e)
  | released (f : Frame) : Executes m id (.release f []) (m, .goes (.dispose f))
  | releases {f d todo woken hs} :
      m.handles.run d.handle (·.advance d.version) = (.ok woken, hs) →
      Executes m id (.release f (d :: todo))
        ({ m with handles := hs }, .goes (releasing f todo woken))
  | misreleases {f d todo e hs} : m.handles.run d.handle (·.advance d.version) = (.error e, hs) →
      Executes m id (.release f (d :: todo)) ({ m with handles := hs }, .fails e)
  | wakes {f todo woken v v' after} : m.vetStep v = (after, .goes v') →
      Executes m id (.wake f todo woken v) (after, .goes (.wake f todo woken v'))
  /-- A task that has been woken is made to wait again. -/
  | reparks {f todo woken v after} : m.vetStep v = (after, .ends none) →
      Executes m id (.wake f todo woken v) (after, .goes (releasing f todo woken))
  | routes {f todo woken v t after} : m.vetStep v = (after, .ends (some t)) →
      Executes m id (.wake f todo woken v)
        (after, .goes (.requeue f todo woken (routeOf id t) (Queue.Request.push t).start))
  | unwoken {f todo woken v after e} : m.vetStep v = (after, .fails e) →
      Executes m id (.wake f todo woken v) (after, .fails e)
  | stores {f todo woken target p p' after} : m.queueStep target p = (after, .goes p') →
      Executes m id (.requeue f todo woken target p)
        (after, .goes (.requeue f todo woken target p'))
  | stored {f todo woken target p after x} : m.queueStep target p = (after, .ends x) →
      Executes m id (.requeue f todo woken target p) (after, .goes (releasing f todo woken))
  | misstores {f todo woken target p after e} : m.queueStep target p = (after, .fails e) →
      Executes m id (.requeue f todo woken target p) (after, .fails e)
  | withheld {f todo woken target p after} : m.queueStep target p = (after, .waits) →
      Executes m id (.requeue f todo woken target p) (after, .waits)
  | disposes (f : Frame) :
      Executes m id (.dispose f) (m.tell (.disposed f.task m.disposal), .ends ())

variable {m after : Machine}

/-! ## Parts of a step -/

/-- Vetting never waits, and breaks no work off. -/
theorem vetStep_cases (m : Machine) (v : Vetting) :
    ∃ after, (∃ v', m.vetStep v = (after, .goes v')) ∨ (∃ e, m.vetStep v = (after, .fails e)) ∨
      ∃ x, m.vetStep v = (after, .ends x) := by
  unfold vetStep
  simp only
  split
  · exact ⟨_, .inr (.inl ⟨_, rfl⟩)⟩
  · exact ⟨_, .inl ⟨_, rfl⟩⟩
  · exact ⟨_, .inr (.inr ⟨_, rfl⟩)⟩
  · exact ⟨_, .inr (.inr ⟨_, rfl⟩)⟩

/-- An operation on a queue breaks no work off. -/
theorem queueStep_ne_aborts (m : Machine) (target : WorkerId) (p : Queue.Progress Task)
    (label : Option String) : (m.queueStep target p).2 ≠ .aborts label := by
  unfold queueStep
  split
  · simp
  · split
    · simp
    · simp
    · simp only
      split <;> simp

/-- Handing a task in breaks no work off. -/
theorem submitStep_ne_aborts (m : Machine) (origin : WorkerId) (s : Submission)
    (label : Option String) : (m.submitStep origin s).2 ≠ .aborts label := by
  cases s with
  | build d =>
      simp only [submitStep]
      split <;> simp
  | arrive t =>
      simp only [submitStep]
      split
      · simp
      · split <;> simp
  | vet l v =>
      obtain ⟨next, ⟨v', vetted⟩ | ⟨e, vetted⟩ | ⟨x, vetted⟩⟩ := m.vetStep_cases v
      · simp only [submitStep, vetted, onward]
        simp
      · simp only [submitStep, vetted, onward]
        simp
      · simp only [submitStep, vetted, onward]
        cases x <;> simp
  | enqueue target p =>
      have unbroken := m.queueStep_ne_aborts target p
      simp only [submitStep]
      generalize m.queueStep target p = r at unbroken
      obtain ⟨next, turn⟩ := r
      cases turn with
      | aborts l => exact absurd rfl (unbroken l)
      | _ => simp [onward]

/-- What is done in one step is neither the handing in of a task nor its breaking off. -/
theorem actStep_isSome (m : Machine) (id : WorkerId) {a : Act} (spawn : ∀ b, a ≠ .spawn b)
    (submit : ∀ serial, a ≠ .submit serial) (abort : a ≠ .abort) :
    ∃ r, m.actStep id a = some r := by
  cases a with
  | spawn b => exact absurd rfl (spawn b)
  | submit serial => exact absurd rfl (submit serial)
  | abort => exact absurd rfl abort
  | completed number | probeLock number =>
      simp only [actStep]
      split <;> exact ⟨_, rfl⟩
  | _ => exact ⟨_, rfl⟩

/-! ## The rules -/

/-- A step through the acts of a task. -/
theorem acts_workStep (m : Machine) (id : WorkerId) (f : Frame) (acts : List Act)
    (results : List Outcome) : m.Acts id f acts results (m.workStep id f acts results) := by
  unfold workStep
  split
  · exact .returns results
  · exact .aborts _ results
  · split
    · next began => exact .unbegun began
    · next began => exact .begins began
  · split
    · next none => exact .unpicked none
    · next picked => exact .picks picked
  · next a acts abort spawn submit =>
    split
    · next acted => exact .does acted
    · next none =>
      obtain ⟨r, acted⟩ := m.actStep_isSome id spawn submit abort
      cases none.symm.trans acted

/-- A step of running a task. -/
theorem executes_executeStep (m : Machine) (id : WorkerId) (e : Execution) :
    m.Executes id e (m.executeStep id e) := by
  cases e with
  | vet v =>
      obtain ⟨next, ⟨v', vetted⟩ | ⟨e, vetted⟩ | ⟨x, vetted⟩⟩ := m.vetStep_cases v
      · simp only [executeStep, vetted, onward]
        exact .vets vetted
      · simp only [executeStep, vetted, onward]
        exact .unvetted vetted
      · simp only [executeStep, vetted, onward]
        cases x with
        | none => exact .parks vetted
        | some t =>
            simp only [Option.map_some, takeWork]
            cases work : t.work with
            | none => exact .workless vetted work
            | some work' => exact .takes vetted work
  | lock f acts todo =>
      cases todo with
      | nil => exact .starts f acts
      | cons h todo =>
          simp only [executeStep]
          split
          · next taken => exact .locks taken
          · next taken => exact .barred taken
  | act f acts results => exact .acts (m.acts_workStep id f acts results)
  | hand f acts results versions s =>
      have unbroken := m.submitStep_ne_aborts id s
      cases stepped : m.submitStep id s with
      | mk next turn =>
          rw [stepped] at unbroken
          simp only [executeStep, stepped]
          cases turn with
          | waits => exact .detained stepped
          | goes s' => exact .hands stepped
          | ends result => exact .handed stepped
          | fails e => exact .refused stepped
          | aborts label => exact absurd rfl (unbroken label)
  | unlock f =>
      obtain ⟨t, name, held⟩ := f
      cases held with
      | nil => exact .unlocked rfl
      | cons h held =>
          simp only [executeStep]
          split
          · next ran => exact .misunlocks rfl ran
          · next ran => exact .unlocks rfl ran
  | release f todo =>
      cases todo with
      | nil => exact .released f
      | cons d todo =>
          simp only [executeStep]
          split
          · next ran => exact .misreleases ran
          · next ran => exact .releases ran
  | wake f todo woken v =>
      obtain ⟨next, ⟨v', vetted⟩ | ⟨e, vetted⟩ | ⟨x, vetted⟩⟩ := m.vetStep_cases v
      · simp only [executeStep, vetted, onward]
        exact .wakes vetted
      · simp only [executeStep, vetted, onward]
        exact .unwoken vetted
      · simp only [executeStep, vetted, onward]
        cases x with
        | none => exact .reparks vetted
        | some t => exact .routes vetted
  | requeue f todo woken target p =>
      have unbroken := m.queueStep_ne_aborts target p
      cases stepped : m.queueStep target p with
      | mk next turn =>
          rw [stepped] at unbroken
          simp only [executeStep, stepped, onward]
          cases turn with
          | waits => exact .withheld stepped
          | goes p' => exact .stores stepped
          | ends x => exact .stored stepped
          | fails e => exact .misstores stepped
          | aborts label => exact absurd rfl (unbroken label)
  | dispose f => exact .disposes f

end Machine

end AccessOrder.Pool
