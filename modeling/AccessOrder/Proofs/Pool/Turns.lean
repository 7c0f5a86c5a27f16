/- # Turns

What a turn of a pool can be, and what it does: every turn is a deed of one worker or caller, which
leaves all others alone.

* `step_cases` : what a step can be, by what the worker is in the middle of;
* `move_cases` : what a turn can be;
* `Sound.move` : a turn of a sound pool is a deed, and leaves the pool sound.
-/
import AccessOrder.Proofs.Pool.Deeds
namespace AccessOrder

namespace Pool

namespace Machine

variable {m : Machine}

/-! ## What a turn can be -/

/-- What a worker has found to do. -/
theorem controlOf_of_found {id : WorkerId} {w : Worker} (found : m.workers[id]? = some w) :
    m.controlOf id = w.control := by
  rw [controlOf, found]

/-- A step of the worker or caller `w` under the number `id`, by what it is in the middle of. -/
inductive Steps (m : Machine) (id : WorkerId) (w : Worker) : Control → Machine → Prop where
  | submitting {s after} :
      proceed id .submitting (fun m _ => m.setControl id .away) (m.submitStep (m.home id) s) =
        some after →
      Steps m id w (.submitting s) after
  | started : m.started = true → Steps m id w .starting (m.setControl id .looping)
  | stopped : m.shutdown = true → Steps m id w .starting (m.setControl id .away)
  | looping :
      Steps m id w .looping (m.setControl id (if m.shutdown then .away else .serving .look))
  | serving {s after} :
      proceed id .serving (fun m _ => m.setControl id popping) (m.serveStep id w.seenRound s) =
        some after →
      Steps m id w (.serving s) after
  | popping {p after} :
      proceed id .popping
        (fun m t =>
          match t with
          | some t => m.setControl id (.executing (.vet (.look t)))
          | none => m.idleStep id w)
        (m.queueStep id p) = some after →
      Steps m id w (.popping p) after
  | stealing {victim p rest after} :
      proceed id (.stealing victim · rest)
        (fun m t =>
          match t with
          | some t => m.setControl id (.executing (.vet (.look t)))
          | none => m.setControl id (visiting rest))
        (m.queueStep victim p) = some after →
      Steps m id w (.stealing victim p rest) after
  | executing {e after} :
      proceed id .executing (fun m _ => m.setControl id (afterTask w.duty)) (m.executeStep id e) =
        some after →
      Steps m id w (.executing e) after
  | leading {l after} :
      proceed id .leading
        (fun m quiet =>
          match quiet, w.duty with
          | true, .lead rounds => (m.setControl id .away).tell (.barrierCompleted rounds)
          | _, _ => m.setControl id Machine.popping)
        (m.leadStep id l) = some after →
      Steps m id w (.leading l) after

/-- Only a worker or a caller that is in the middle of something takes a step. -/
theorem step_cases {id : WorkerId} {after : Machine} (stepped : m.step id = some after) :
    ∃ w, m.workers[id]? = some w ∧ m.Steps id w (m.controlOf id) after := by
  unfold Machine.step at stepped
  split at stepped
  · cases stepped
  · cases found : m.workers[id]? with
    | none =>
        rw [found] at stepped
        cases stepped
    | some w =>
        rw [found] at stepped
        simp only at stepped
        refine ⟨w, rfl, ?_⟩
        rw [controlOf_of_found found]
        cases now : w.control with
        | away =>
            rw [now] at stepped
            cases stepped
        | failed f =>
            rw [now] at stepped
            cases stepped
        | submitting s =>
            rw [now] at stepped
            exact .submitting stepped
        | starting =>
            rw [now] at stepped
            simp only at stepped
            split at stepped
            · next started =>
              cases stepped
              exact .started started
            · split at stepped
              · next stopped =>
                cases stepped
                exact .stopped stopped
              · cases stepped
        | looping =>
            rw [now] at stepped
            cases stepped
            exact .looping
        | serving s =>
            rw [now] at stepped
            exact .serving stepped
        | popping p =>
            rw [now] at stepped
            exact .popping stepped
        | stealing victim p rest =>
            rw [now] at stepped
            exact .stealing stepped
        | executing e =>
            rw [now] at stepped
            exact .executing stepped
        | leading l =>
            rw [now] at stepped
            exact .leading stepped

/-- What the owner or a caller does between the steps of its calls, by what it is in the middle of:
the machine after it, and what is gone on with. -/
inductive Calls (m : Machine) : Move → Control → Machine → Control → Prop where
  | spawn {id b d next} : m.free id = true → m.begin b = (.ok d, next) →
      Calls m (.spawn id b) .away next (.submitting (.build d))
  | keep (id : WorkerId) (t : Task) :
      Calls m (.keep id) (.submitting (.arrive t)) { m with kept := t :: m.kept } .away
  | submit {id serial t next} : m.free id = true → m.pick serial = some (t, next) →
      Calls m (.submit id serial) .away next (.submitting (.arrive t))
  | recover {id : WorkerId} (f : Failure) : m.outer id = true →
      Calls m (.recover id) (.failed f) m .away

/-- The turns that can be taken, with what they require. -/
inductive Moves (m : Machine) : Move → Machine → Prop where
  | step {id after} : m.admitted id = true → m.step id = some after → Moves m (.step id) after
  | miss {id round expected next after} : m.controlOf id = .serving (.swap round expected next) →
      proceed id .serving (fun m _ => m.setControl id popping)
        (m, m.joining round m.barrier.word) = some after →
      Moves m (.miss id) after
  | call {mv before next c} : m.controlOf mv.actor = before → m.Calls mv before next c →
      Moves m mv (next.setControl mv.actor c)
  | start : m.shared = true → Moves m .start m.start
  | lead : m.exclusive = true → Moves m .lead m.enterBarrier
  | stop : m.exclusive = true → Moves m .stop { m.start with shutdown := true }

/-- The number under which someone is in the middle of something. -/
theorem lt_of_controlOf {id : WorkerId} (busy : m.controlOf id ≠ .away) : id < m.workers.size := by
  by_contra outside
  rw [controlOf, Array.getElem?_eq_none (Nat.le_of_not_lt outside)] at busy
  exact busy rfl

/-- The owner or a caller who may begin to build a task is not in the middle of anything. -/
theorem away_of_free {id : WorkerId} (free : m.free id = true) :
    id < m.workers.size ∧ m.controlOf id = .away := by
  unfold Machine.free at free
  simp only [Bool.and_eq_true, decide_eq_true_eq] at free
  refine ⟨free.1.2, ?_⟩
  have away := free.2
  cases now : m.controlOf id <;> rw [now] at away <;> first | rfl | cases away

/-- A turn is taken only when it can be. -/
theorem move_cases {mv : Move} {after : Machine} (moved : m.move mv = some after) :
    m.Moves mv after := by
  unfold Machine.move at moved
  split at moved
  · split at moved
    · next admitted => exact .step admitted moved
    · cases moved
  · split at moved
    · next now => exact .miss now moved
    · cases moved
  · next id b =>
    split at moved
    · next may =>
      have free := (Bool.and_eq_true_iff.1 may).2
      split at moved
      · next began =>
        cases moved
        exact @Moves.call m (.spawn id b) _ _ _ (away_of_free free).2 (.spawn free began)
      · cases moved
    · cases moved
  · next id =>
    split at moved
    · next now =>
      cases moved
      exact @Moves.call m (.keep id) _ _ _ now (.keep id _)
    · cases moved
  · next id serial =>
    split at moved
    · next may =>
      have free := (Bool.and_eq_true_iff.1 may).2
      obtain ⟨⟨t, next⟩, picked, same⟩ := Option.map_eq_some_iff.1 moved
      cases same
      exact @Moves.call m (.submit id serial) _ _ _ (away_of_free free).2 (.submit free picked)
    · cases moved
  · next id =>
    split at moved
    · next may =>
      cases moved
      simp only [Bool.and_eq_true] at may
      obtain ⟨⟨-, outer⟩, failed⟩ := may
      cases now : m.controlOf id with
      | failed f => exact @Moves.call m (.recover id) _ _ _ now (.recover f outer)
      | _ => rw [now] at failed; cases failed
    · cases moved
  all_goals
    split at moved
    · next may =>
      cases moved
      constructor
      exact (Bool.and_eq_true_iff.1 may).2
    · cases moved

/-- Whoever makes calls has a number. -/
theorem Calls.crew {mv : Move} {before c : Control} {next : Machine}
    (calls : m.Calls mv before next c) (now : m.controlOf mv.actor = before) :
    mv.actor < m.workers.size := by
  cases calls with
  | spawn free | submit free => exact (away_of_free free).1
  | keep | recover => exact lt_of_controlOf (now ▸ Control.noConfusion)

/-- Whoever makes calls leaves the workers where they are, and the barrier alone. -/
theorem Calls.passes {mv : Move} {before c : Control} {next : Machine}
    (calls : m.Calls mv before next c) (base : m.Base) : m.Passes next := by
  cases calls with
  | spawn _ began => exact (base.begin_eq_ok began).1
  | keep =>
      exact ⟨⟨⟨base.handles, base.lanes⟩, rfl, rfl, fun _ => rfl, fun _ => rfl⟩, rfl, rfl, rfl, rfl,
        fun _ => rfl, fun _ => rfl⟩
  | submit _ picked => exact (base.passes_pick picked).1
  | recover => exact base.passes

/-- The owner or a caller who may begin to build a task has nothing in hand. -/
theorem hands_of_free {id : WorkerId} (free : m.free id = true) :
    id < m.workers.size ∧ m.hands id = [] := by
  obtain ⟨crew, away⟩ := away_of_free free
  refine ⟨crew, ?_⟩
  rw [Machine.hands, away]
  rfl

/-- A number under which calls are made from outside is not that of a worker. -/
theorem outer_cases {id : WorkerId} (outer : m.outer id = true) : id = 0 ∨ m.size ≤ id := by
  unfold Machine.outer isCaller at outer
  simp only [Bool.or_eq_true, Bool.and_eq_true, decide_eq_true_eq] at outer
  exact outer.imp_right And.right

/-! ## Turns are deeds -/

/-- A turn of a worker or a caller: it leaves the pool sound, is a deed, and leaves all others
alone. -/
structure Turned (m : Machine) (id : WorkerId) (ms : List Moment) (after : Machine) : Prop where
  sound : after.Sound
  deed : Deed m.world (m.hands id) ms after.world (after.hands id)
  others : ∀ other ≠ id, after.controlOf other = m.controlOf other

/-- What the others have in hand after a turn is what they had before it. -/
theorem Turned.hands_eq {id : WorkerId} {ms : List Moment} {after : Machine}
    (turned : m.Turned id ms after) :
    after.hands = Function.update m.hands id (after.hands id) := by
  funext other
  by_cases own : other = id
  · rw [own, Function.update_self]
  · rw [Function.update_of_ne own, hands, turned.others other own, hands]

/-- What a worker or a caller is in the middle of after it has changed that. -/
theorem controlOf_setControl (m : Machine) (id other : WorkerId) (c : Control) :
    (m.setControl id c).controlOf other =
      if id = other ∧ id < m.workers.size then c else m.controlOf other := by
  unfold controlOf setControl
  rw [Array.getElem?_modify]
  by_cases same : id = other
  · subst same
    by_cases inside : id < m.workers.size
    · simp [inside]
    · simp [inside]
  · simp [same]

/-- Changing what a worker is in the middle of leaves the duties alone. -/
theorem dutyOf_setControl (m : Machine) (id other : WorkerId) (c : Control) :
    (m.setControl id c).dutyOf other = m.dutyOf other :=
  dutyOf_modify (f := fun w => { w with control := c }) (fun _ => rfl) other

/-- Whoever may be in the middle of something else leaves a sound pool sound by going on with it. -/
theorem Keeps.seats {after : Machine} (keeps : m.Keeps after) (sound : m.Sound) {id : WorkerId}
    (crew : id < m.workers.size) {c : Control} (seated : c.Seated m.size id) :
    (after.setControl id c).Sound ∧ ∀ other, (after.setControl id c).controlOf other =
      if id = other then c else m.controlOf other := by
  have control : ∀ other, (after.setControl id c).controlOf other =
      if id = other then c else m.controlOf other := by
    intro other
    rw [controlOf_setControl, keeps.crew, keeps.controls]
    by_cases same : id = other
    · rw [if_pos ⟨same, crew⟩, if_pos same]
    · rw [if_neg (fun both => same both.1), if_neg same]
  refine ⟨⟨⟨keeps.base.handles, keeps.base.lanes⟩, ?_, fun other => ?_, fun other => ?_⟩, control⟩
  · exact keeps.size ▸ sound.manned
  · rw [control]
    show Control.Seated after.size other _
    rw [keeps.size]
    split
    · next same => exact same ▸ seated
    · exact sound.seated other
  · rw [dutyOf_setControl, keeps.duties]
    exact sound.duties other

/-- A worker that goes on with something else. -/
theorem Keeps.turned {after : Machine} (keeps : m.Keeps after) (sound : m.Sound) {id : WorkerId}
    (crew : id < m.workers.size) {c : Control} (seated : c.Seated m.size id) {ms : List Moment}
    (deed : Deed m.world (m.hands id) ms after.world (c.items id)) :
    m.Turned id ms (after.setControl id c) := by
  obtain ⟨sound', control⟩ := keeps.seats sound crew seated
  refine ⟨sound', ?_, fun other different => ?_⟩
  · have now : (after.setControl id c).hands id = c.items id := by
      rw [hands, control, if_pos rfl]
    rw [now]
    exact deed
  · rw [control, if_neg (Ne.symm different)]

/-- A turn in which everyone stays where they are. -/
theorem Keeps.unmoved {after : Machine} (keeps : m.Keeps after) (sound : m.Sound) {id : WorkerId}
    {ms : List Moment} (deed : Deed m.world (m.hands id) ms after.world (m.hands id)) :
    m.Turned id ms after := by
  refine ⟨⟨keeps.base, keeps.size ▸ sound.manned, fun other => ?_, fun other => ?_⟩, ?_,
    fun other _ => keeps.controls other⟩
  · rw [keeps.controls, keeps.size]
    exact sound.seated other
  · rw [keeps.duties]
    exact sound.duties other
  · have now : after.hands id = m.hands id := by
      rw [hands, keeps.controls, hands]
    rw [now]
    exact deed

/-- A step of an activity is a turn if what it goes on with is. -/
theorem turned_of_leads {α β : Type} {xs : List Item} {ms : List Moment}
    {fine : α → Prop} {items : α → List Item} {ends : Machine → β → Prop} {fails : Machine → Prop}
    {r : Machine × Turn α β} (leads : Leads m xs ms fine items ends fails r) {id : WorkerId}
    {wrap : α → Control} {finish : Machine → β → Machine} {after : Machine}
    (moved : proceed id wrap finish r = some after) (sound : m.Sound) (crew : id < m.workers.size)
    (hands : m.hands id = xs) (seated : ∀ a, fine a → (wrap a).Seated m.size id)
    (same : ∀ a, (wrap a).items id = items a)
    (failed : ∀ fallen, fails fallen → Deed m.world xs ms fallen.world [])
    (ended : ∀ ended b, m.Passes ended → ends ended b → m.Turned id ms (finish ended b)) :
    m.Turned id ms after := by
  cases leads with
  | waits => cases moved
  | goes passes fine deed =>
      cases moved
      exact passes.turned sound crew (seated _ fine) (hands.symm ▸ (same _).symm ▸ deed)
  | ends passes result =>
      cases moved
      exact ended _ _ passes result
  | fails f passes failure =>
      cases moved
      have seated : Control.Seated m.size id (.failed f) := trivial
      exact passes.turned sound crew seated (hands.symm ▸ failed _ failure)
  | aborts passes deed =>
      cases moved
      exact (passes.keeps_crash _).unmoved sound (hands.symm ▸ deed)

/-- A worker that goes on with something else and has nothing in hand. -/
theorem Idles.turned {after : Machine} (idles : m.Idles after) (sound : m.Sound) {id : WorkerId}
    (crew : id < m.workers.size) (empty : m.hands id = []) {c : Control}
    (seated : c.Seated m.size id) (none : c.items id = []) :
    m.Turned id [] (after.setControl id c) := by
  refine idles.toKeeps.turned sound crew seated ?_
  rw [idles.world, empty, none]
  exact .still

/-- A step of an activity that is no deed is a turn if what it goes on with is. -/
theorem Idles.proceed {α β : Type} {r : Machine × Turn α β} (idles : m.Idles r.1) {id : WorkerId}
    {wrap : α → Control} {finish : Machine → β → Machine} {after : Machine}
    (moved : proceed id wrap finish r = some after) (sound : m.Sound) (crew : id < m.workers.size)
    (hands : m.hands id = []) (seated : ∀ a, (wrap a).Seated m.size id)
    (empty : ∀ a, (wrap a).items id = [])
    (ended : ∀ ended b, m.Idles ended → m.Turned id [] (finish ended b)) :
    m.Turned id [] after := by
  obtain ⟨next, turn⟩ := r
  cases turn with
  | waits => cases moved
  | goes a =>
      cases moved
      exact idles.turned sound crew hands (seated a) (empty a)
  | ends b =>
      cases moved
      exact ended next b idles
  | fails f =>
      cases moved
      have seated : Control.Seated m.size id (.failed f) := trivial
      exact idles.turned sound crew hands seated rfl
  | aborts label =>
      cases moved
      refine (idles.keeps_crash (some ⟨id, label⟩)).unmoved sound ?_
      show Deed m.world _ [] next.world _
      rw [idles.world]
      exact .still

/-- Visiting the queues of others, with nothing in hand. -/
theorem seated_visiting {size : Nat} {id : WorkerId} (inside : id < size)
    (victims : List WorkerId) :
    (visiting victims).Seated size id := by
  cases victims with
  | nil => exact inside
  | cons victim rest => exact ⟨inside, .measure⟩

@[simp] theorem items_visiting (id : WorkerId) (victims : List WorkerId) :
    (visiting victims).items id = [] := by
  cases victims <;> rfl

@[simp] theorem items_popping (id : WorkerId) : popping.items id = [] := rfl

theorem seated_popping {size : Nat} {id : WorkerId} (inside : id < size) :
    popping.Seated size id := ⟨inside, .measure⟩

/-- What is told has no bearing on a turn. -/
theorem Turned.tell {id : WorkerId} {ms : List Moment} {after : Machine}
    (turned : m.Turned id ms after) (e : Event) : m.Turned id ms (after.tell e) :=
  ⟨⟨⟨turned.sound.handles, turned.sound.lanes⟩, turned.sound.manned, turned.sound.seated,
    turned.sound.duties⟩, turned.deed, turned.others⟩

/-- Changing a worker and then what it is in the middle of. -/
theorem setControl_modify (m : Machine) (id : WorkerId) (f : Worker → Worker) (c : Control) :
    setControl { m with workers := m.workers.modify id f } id c =
      { m with workers := m.workers.modify id fun w => { f w with control := c } } := by
  have same : (m.workers.modify id f).modify id (fun w => { w with control := c }) =
      m.workers.modify id fun w => { f w with control := c } := by
    apply Array.ext_getElem?
    intro other
    rw [Array.getElem?_modify, Array.getElem?_modify, Array.getElem?_modify]
    split
    · rw [Option.map_map]
      rfl
    · rfl
  unfold setControl
  rw [same]

/-- What a worker goes on with that has found its own queue empty: it looks for tasks in those of
others, or it has come to the end of a drain, which is the last one if there is nobody else. -/
inductive Rests (m : Machine) (id : WorkerId) (w : Worker) : Machine → Prop where
  | visits : w.duty = .work → Rests m id w
      (setControl { m with
        workers := m.workers.modify id fun u => { u with thief := w.thief.next } } id
        (visiting w.thief.next.victims))
  /-- The drains are too many to be counted. -/
  | overflows {rounds} : w.duty = .lead rounds → counted rounds = none →
      Rests m id w (m.setControl id (.failed .drainsUncounted))
  | returns {rounds next} : w.duty = .lead rounds → counted rounds = some next →
      m.participants = 0 → Rests m id w
        ((setControl { m with
          workers := m.workers.modify id fun w => { w with duty := .lead next } } id .away).tell
          (.barrierCompleted next))
  | leads {rounds next} : w.duty = .lead rounds → counted rounds = some next →
      m.participants ≠ 0 → Rests m id w
        (setControl { m with
          workers := m.workers.modify id fun w => { w with duty := .lead next } } id
          (.leading .read))

/-- A worker that has found its own queue empty. -/
theorem rests_idleStep (m : Machine) (id : WorkerId) (w : Worker) :
    m.Rests id w (m.idleStep id w) := by
  cases duty : w.duty with
  | work =>
      simp only [idleStep, duty]
      rw [← setControl_modify m id fun u => { u with thief := w.thief.next }]
      exact .visits duty
  | lead rounds =>
      simp only [idleStep, duty]
      split
      · next none => exact .overflows duty none
      · next next counts =>
        split
        · next alone => exact .returns duty counts alone
        · next others => exact .leads duty counts others

/-- Nothing is done to tasks by a worker that has found its own queue empty. -/
theorem idleStep_spares (m : Machine) (id : WorkerId) (w : Worker) :
    (m.idleStep id w).crash = m.crash ∧ (m.idleStep id w).world = m.world := by
  have rests := m.rests_idleStep id w
  generalize m.idleStep id w = after at rests
  cases rests <;> exact ⟨rfl, rfl⟩

/-- A worker that has found its own queue empty looks elsewhere, or leads a round. -/
theorem Keeps.turned_idleStep {after : Machine} (keeps : m.Keeps after) (sound : m.Sound)
    {id : WorkerId} {w : Worker} (found : m.workers[id]? = some w) (inside : id < m.size)
    (deed : Deed m.world (m.hands id) [] after.world []) :
    m.Turned id [] (after.idleStep id w) := by
  have crew : id < m.workers.size := (Array.getElem?_eq_some_iff.1 found).1
  -- whoever leads is the owner, and may count a drain
  have owner : ∀ {rounds : UInt32}, w.duty = .lead rounds → (m.dutyOf id).leads = true := by
    intro rounds duty
    rw [dutyOf_of_found found, duty]
    rfl
  have counts : ∀ {rounds : UInt32} (next : UInt32), w.duty = .lead rounds → m.Keeps { after with
      workers := after.workers.modify id fun w => { w with duty := .lead next } } :=
    fun next duty => keeps.trans
      (keeps.base.keeps_duty ((keeps.duties id).trans (owner duty)) next)
  have rests := after.rests_idleStep id w
  generalize after.idleStep id w = last at rests
  cases rests with
  | visits =>
      have visited := keeps.trans (keeps.base.keeps_modify id
        (f := fun u => { u with thief := w.thief.next }) fun _ => ⟨rfl, rfl⟩)
      refine visited.turned sound crew (seated_visiting inside _) ?_
      rw [items_visiting]
      exact deed
  | overflows =>
      have failed : Control.Seated m.size id (.failed .drainsUncounted) := trivial
      exact keeps.turned sound crew failed deed
  | returns duty =>
      have away : Control.Seated m.size id .away := trivial
      exact ((counts _ duty).turned sound crew away deed).tell _
  | leads duty =>
      have own : id = 0 := of_decide_eq_true ((sound.duties id).symm.trans (owner duty))
      have leading : Control.Seated m.size id (.leading .read) := own
      exact (counts _ duty).turned sound crew leading deed

/-- The worker on whose behalf a task is handed in is one of the pool. -/
theorem home_lt (manned : 0 < m.size) (id : WorkerId) : m.home id < m.size := by
  unfold home
  split
  · assumption
  · exact manned

/-- A step of a sound pool is a deed. -/
theorem Sound.step (sound : m.Sound) {id : WorkerId} {after : Machine}
    (stepped : m.step id = some after) :
    m.Turned id ((m.controlOf id).moments m) after := by
  have base := sound.toBase
  have seated := sound.seated id
  obtain ⟨w, found, steps⟩ := step_cases stepped
  have crew : id < m.workers.size := (Array.getElem?_eq_some_iff.1 found).1
  have hands : m.hands id = (m.controlOf id).items id := rfl
  generalize m.controlOf id = c at seated steps hands ⊢
  cases steps with
  | submitting moved =>
      have leads := base.leads_submission (home_lt sound.manned id) seated.2
      refine turned_of_leads leads moved sound crew hands
        (fun _ fine => ⟨seated.1, fine⟩) (fun _ => rfl) (fun _ deed => deed)
        fun ended _ passes deed => ?_
      have away : Control.Seated m.size id .away := trivial
      exact passes.turned sound crew away (hands.symm ▸ deed)
  | started up =>
      have looping : Control.Seated m.size id .looping := seated
      exact base.idles.turned sound crew hands looping rfl
  | stopped down =>
      have away : Control.Seated m.size id .away := trivial
      exact base.idles.turned sound crew hands away rfl
  | looping =>
      have next : Control.Seated m.size id (if m.shutdown then .away else .serving .look) := by
        split
        · trivial
        · exact seated
      refine base.idles.turned sound crew hands next ?_
      split <;> rfl
  | @serving s _ moved =>
      refine (base.idles_serveStep id w.seenRound s).proceed moved sound crew hands
        (fun _ => seated) (fun _ => rfl) fun ended _ idles => ?_
      exact idles.turned sound crew hands (seated_popping seated) rfl
  | popping moved =>
      refine turned_of_leads (base.leads_taking id .pop seated.2) moved sound crew hands
        (fun _ fine => ⟨seated.1, fine⟩) (fun _ => rfl) (fun _ deed => deed) ?_
      intro ended x passes deed
      cases x with
      | none => exact passes.turned_idleStep sound found seated.1 (hands.symm ▸ deed)
      | some t =>
          have next : Control.Seated m.size id (.executing (.vet (.look t))) :=
            ⟨seated.1, trivial⟩
          exact passes.turned sound crew next (hands.symm ▸ deed)
  | @stealing victim p rest _ moved =>
      refine turned_of_leads (base.leads_taking victim .steal seated.2) moved sound crew hands
        (fun _ fine => ⟨seated.1, fine⟩) (fun _ => rfl) (fun _ deed => deed) ?_
      intro ended x passes deed
      cases x with
      | none =>
          refine passes.turned sound crew (seated_visiting seated.1 rest) ?_
          rw [items_visiting, hands]
          exact deed
      | some t =>
          have next : Control.Seated m.size id (.executing (.vet (.look t))) :=
            ⟨seated.1, trivial⟩
          exact passes.turned sound crew next (hands.symm ▸ deed)
  | executing moved =>
      refine turned_of_leads (base.leads_execution seated.1 seated.2) moved sound crew hands
        (fun _ fine => ⟨seated.1, fine⟩) (fun _ => rfl) (fun _ deed => deed) ?_
      intro ended _ passes deed
      have next : (afterTask w.duty).Seated m.size id ∧ (afterTask w.duty).items id = [] := by
        cases w.duty with
        | work => exact ⟨seated.1, rfl⟩
        | lead rounds => exact ⟨seated_popping seated.1, rfl⟩
      refine passes.turned sound crew next.1 ?_
      rw [next.2, hands]
      exact deed
  | @leading l _ moved =>
      have inside : id < m.size := seated ▸ sound.manned
      refine (base.idles_leadStep id l).proceed moved sound crew hands (fun _ => seated)
        (fun _ => rfl) fun ended quiet idles => ?_
      have away : Control.Seated m.size id .away := trivial
      split
      · exact (idles.turned sound crew hands away rfl).tell _
      · exact idles.turned sound crew hands (seated_popping inside) rfl

/-- A turn of a sound pool is a deed, and leaves the pool sound. -/
theorem Sound.move (sound : m.Sound) {mv : Move} {after : Machine}
    (moved : m.move mv = some after) : m.Turned mv.actor (m.moments mv) after := by
  have base := sound.toBase
  cases move_cases moved with
  | step admitted stepped => exact sound.step stepped
  | @miss id round expected next _ now missed =>
      have seated := sound.seated id
      have hands : m.hands id = [] := by
        rw [Machine.hands, now]
        rfl
      rw [now] at seated
      have crew : id < m.workers.size := lt_of_controlOf (by simp [now])
      exact base.idles.proceed missed sound crew hands (fun _ => seated) (fun _ => rfl)
        fun ended _ idles => idles.turned sound crew hands (seated_popping seated) rfl
  | @call mv before next c now calls =>
      have crew := calls.crew now
      have passes := calls.passes base
      have hands : m.hands mv.actor = before.items mv.actor := by rw [Machine.hands, now]
      cases calls with
      | @spawn id b d next free began =>
          obtain ⟨-, same, serial, resolved, distinct⟩ := base.begin_eq_ok began
          simp only [Machine.free, Bool.and_eq_true] at free
          have seated : Control.Seated m.size id (.submitting (.build d)) :=
            ⟨outer_cases free.1.1, .build d⟩
          refine passes.turned sound crew seated ?_
          rw [same, hands]
          exact .begin d serial resolved distinct
      | keep id t =>
          have away : Control.Seated m.size id .away := trivial
          exact passes.turned sound crew away (hands.symm ▸ .keep)
      | @submit id serial t next free picked =>
          obtain ⟨-, ts, same, seen⟩ := base.passes_pick picked
          simp only [Machine.free, Bool.and_eq_true] at free
          have seated : Control.Seated m.size id (.submitting (.arrive t)) :=
            ⟨outer_cases free.1.1, .arrive t⟩
          refine passes.turned sound crew seated ?_
          rw [seen, hands]
          exact .pick same
      | @recover id f =>
          have away : Control.Seated m.size id .away := trivial
          exact base.idles.turned sound crew hands away rfl
  | start =>
      have keeps : m.Keeps m.start :=
        ⟨⟨base.handles, base.lanes⟩, rfl, rfl, fun _ => rfl, fun _ => rfl⟩
      exact keeps.unmoved sound .still
  | lead exclusive =>
      simp only [Machine.exclusive, Bool.and_eq_true] at exclusive
      obtain ⟨crew, hands⟩ := hands_of_free exclusive.1.2
      have started : m.Keeps m.start :=
        ⟨⟨base.handles, base.lanes⟩, rfl, rfl, fun _ => rfl, fun _ => rfl⟩
      have keeps := started.trans (started.base.keeps_duty (sound.duties 0) 0)
      have turned : m.Turned 0 [] _ := keeps.turned sound crew (seated_popping sound.manned)
        (hands.symm ▸ .still)
      rw [setControl_modify] at turned
      exact turned
  | stop exclusive =>
      have keeps : m.Keeps { m.start with shutdown := true } :=
        ⟨⟨base.handles, base.lanes⟩, rfl, rfl, fun _ => rfl, fun _ => rfl⟩
      exact keeps.unmoved sound .still

/-! ## The start -/

variable (l : Launch) (vocabulary : Access.Vocabulary) (handles callers : Nat)
  (references : Array HandleId)

/-- The workers and the callers as a pool starts. -/
theorem workers_opening (id : WorkerId) :
    (l.opening vocabulary handles callers references).workers[id]? =
      if id < l.size then some (l.worker id)
      else if id - l.size < callers then some caller else none := by
  show ((Array.range l.size).map l.worker ++ Array.replicate callers caller)[id]? = _
  rw [Array.getElem?_append]
  simp only [Array.size_map, Array.size_range, Array.getElem?_replicate]
  split
  · next inside => simp [inside]
  · rfl

/-- Nobody is in the middle of anything as a pool starts. -/
theorem controlOf_opening (id : WorkerId) :
    (l.opening vocabulary handles callers references).controlOf id =
      if 0 < id ∧ id < l.size then .starting else .away := by
  rw [controlOf, workers_opening]
  by_cases inside : id < l.size
  · rw [if_pos inside]
    by_cases owner : id = 0
    · rw [if_neg fun both => Nat.ne_of_gt both.1 owner]
      exact if_pos owner
    · rw [if_pos ⟨Nat.pos_of_ne_zero owner, inside⟩]
      exact if_neg owner
  · have outer : ¬(0 < id ∧ id < l.size) := fun both => inside both.2
    rw [if_neg inside]
    by_cases called : id - l.size < callers
    · rw [if_pos called, if_neg outer]
      rfl
    · rw [if_neg called, if_neg outer]

/-- A pool has as many queues as its launch says. -/
theorem size_opening : (l.opening vocabulary handles callers references).size = l.size := by
  show (Array.replicate l.size _).size = _
  rw [Array.size_replicate]

/-- A pool is sound as it starts. -/
theorem sound_opening : (l.opening vocabulary handles callers references).Sound where
  handles id := Handles.sound_fresh handles vocabulary.listed.length id
  lanes q mem := by
    obtain ⟨-, rfl⟩ := Array.mem_replicate.1 mem
    exact Queue.Lanes.sound_empty ..
  manned := by
    rw [size_opening]
    exact (l.options.workers.getD l.parallelism).pos
  seated id := by
    rw [controlOf_opening, size_opening]
    split
    · next inside => exact inside.2
    · trivial
  duties id := by
    have pos := (l.options.workers.getD l.parallelism).pos
    rw [dutyOf, workers_opening]
    by_cases owner : id = 0
    · subst owner
      rw [if_pos (show 0 < l.size from pos)]
      rfl
    · rw [decide_eq_false owner]
      split
      · exact congrArg Duty.leads (if_neg owner)
      · split <;> rfl

/-- The world of a pool as it starts. -/
theorem world_opening : (l.opening vocabulary handles callers references).world =
    { units := (Handles.fresh handles vocabulary.listed.length).view
      count := handles
      begun := 0
      size := l.size
      kept := []
      queue := fun _ => []
      published := fun _ => 0
      held := fun _ => false } := by
  have found : ∀ q, (l.opening vocabulary handles callers references).queues[q]? =
      if q < l.size then some (.empty l.strategy l.backing) else none := fun q =>
    Array.getElem?_replicate ..
  unfold world
  rw [World.mk.injEq]
  refine ⟨rfl, Array.size_replicate, rfl, size_opening .., rfl, ?_, ?_, ?_⟩
  · funext q
    rw [found]
    split
    · exact Queue.Lanes.contents_empty ..
    · rfl
  · funext q
    rw [found]
    split <;> rfl
  · funext q
    rw [found]
    split <;> rfl

end Machine

end Pool

end AccessOrder
