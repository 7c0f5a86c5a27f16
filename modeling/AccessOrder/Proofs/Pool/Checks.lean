/- # No check fails

The operations of a pool check what they rely on: that no version is reserved too late or behind a
gap, that none is waited for or released that is not in use, that locks are given back by who holds
them, that the work of a task is taken once, and that the word of the barrier makes sense.  In the
runs whose tasks use the listed kinds of known handles none of these checks fails; what fails is a
call that should not have been made.

* `Base.queueStep_unfailing`, `Vets.yields`, `Room.serveStep_unfailing` : activities that never
  fail;
* `Declared.submitStep_yields`, `Declared.executeStep_yields` : how the others fail;
* `Declared.move` : what is known of the tasks of a pool is kept by every turn;
* `RunsWith.unfaulted` : the failures that are seen in a run.
-/
import AccessOrder.Proofs.Pool.Conduct
import AccessOrder.Proofs.Pool.Declarations
import AccessOrder.Proofs.Pool.Laps
import AccessOrder.Proofs.Pool.Spending
import AccessOrder.Proofs.Queue.Threads
namespace AccessOrder

open Barrier (Word)

/-- Whether a failure is that of a call that should not have been made: one of its numbers refers to
no handle, or two of them to the same one, or the task is pinned to a worker that the pool does not
have, or too many hold the version that it would get, or the barrier takes more drains than a call
can count. -/
def Failure.External : Failure → Prop
  | .handle .scheduleCrowded | .unknownHandle .. | .repeatedAccess _ | .pinOutside ..
  | .drainsUncounted => True
  | _ => False

/-- The failure of a look-up is external. -/
theorem Handles.external_of_lookUp {hs : Handles} {number : HandleNumber} {f : Failure}
    (failed : hs.lookUp number = .error f) : f.External := by
  unfold lookUp at failed
  split at failed <;> cases failed
  trivial

/-- The failure to locate accesses is external. -/
theorem Handles.external_of_locateFrom {hs : Handles} {seen : List HandleId}
    {accesses : List Access} {f : Failure} (failed : hs.locateFrom seen accesses = .error f) :
    f.External := by
  induction accesses generalizing seen with
  | nil => cases failed
  | cons a accesses ih =>
      unfold locateFrom at failed
      split at failed
      · next looked =>
        cases failed
        exact external_of_lookUp looked
      · split at failed
        · cases failed
          trivial
        · split at failed
          · next rest =>
            cases failed
            exact ih rest
          · cases failed

namespace Pool

/-- The failure that an act has come to. -/
def Outcome.failure? : Outcome → Option Failure
  | .failed f => some f
  | _ => none

/-- The failures that acts have come to. -/
def failuresOf (results : List Outcome) : List Failure := results.filterMap Outcome.failure?

/-- The failures that are seen of a worker or a caller. -/
def Control.failures : Control → List Failure
  | .failed f => [f]
  | .executing (.act _ _ results) | .executing (.hand _ _ results _ _) => failuresOf results
  | _ => []

/-- Whether a task that is handed in uses given kinds of handles that there are. -/
def Submission.Uses (kinds : List Access.Kind) (count : Nat) : Submission → Prop
  | .build d => d.Uses kinds count
  | _ => True

/-- Whether a task that is run hands in none but tasks that use given kinds of handles that there
are, and has seen none but external failures. -/
def Execution.Fine (kinds : List Access.Kind) (count : Nat) : Execution → Prop
  | .lock _ acts _ => Act.AllUse kinds acts
  | .act _ acts results => Act.AllUse kinds acts ∧ ∀ f ∈ failuresOf results, f.External
  | .hand _ acts results _ s =>
    Act.AllUse kinds acts ∧ (∀ f ∈ failuresOf results, f.External) ∧ s.Uses kinds count
  | _ => True

/-- Whether a worker or a caller hands in none but tasks that use given kinds of handles that there
are, and has seen none but external failures. -/
def Control.Fine (kinds : List Access.Kind) (count : Nat) : Control → Prop
  | .submitting s => s.Uses kinds count
  | .executing e => e.Fine kinds count
  | .failed f => f.External
  | _ => True

variable {kinds : List Access.Kind} {count : Nat}

/-- Acts go on to have seen none but external failures. -/
theorem external_cons {o : Outcome} {results : List Outcome} (now : ∀ f ∈ o.failure?, f.External)
    (before : ∀ f ∈ failuresOf results, f.External) :
    ∀ f ∈ failuresOf (o :: results), f.External := by
  intro f mem
  obtain ⟨o', mem, failed⟩ := List.mem_filterMap.1 mem
  rcases List.mem_cons.1 mem with rfl | mem
  · exact now f failed
  · exact before f (List.mem_filterMap.2 ⟨o', mem, failed⟩)

/-- All failures that are seen of a worker or a caller are external. -/
theorem Control.Fine.external {c : Control} (fine : c.Fine kinds count) :
    ∀ f ∈ c.failures, f.External := by
  cases c with
  | failed f =>
      intro e mem
      rwa [List.mem_singleton.1 mem]
  | executing e =>
      cases e with
      | act f acts results => exact fine.2
      | hand f acts results versions s => exact fine.2.1
      | _ => exact fun f mem => absurd mem List.not_mem_nil
  | _ => exact fun f mem => absurd mem List.not_mem_nil

/-- A draft in hand uses given kinds of handles that there are. -/
theorem Control.Fine.draft {c : Control} (fine : c.Fine kinds count) {id : WorkerId} {d : Draft}
    (mem : .draft d ∈ c.items id) : d.Uses kinds count := by
  have queue : ∀ {p : Queue.Progress Task} {target : WorkerId}, .draft d ∉ p.items target := by
    intro p target mem
    unfold Queue.Progress.items at mem
    split at mem <;> simp [looseItems] at mem
  have handed : ∀ {s : Submission}, s.Uses kinds count → .draft d ∈ s.items →
      d.Uses kinds count := by
    intro s uses mem
    cases s with
    | build d' =>
        cases List.mem_singleton.1 mem
        exact uses
    | enqueue target p => exact absurd mem queue
    | arrive t | vet label v => cases List.mem_singleton.1 mem
  cases c with
  | submitting s => exact handed fine mem
  | popping p | stealing victim p rest => exact absurd mem queue
  | executing e =>
      cases e with
      | hand f acts results versions s =>
          refine handed fine.2.2 ((List.mem_append.1 mem).resolve_right ?_)
          simp
      | requeue f todo woken target p =>
          refine absurd ((List.mem_append.1 mem).resolve_right ?_) queue
          simp [looseItems]
      | wake f todo woken v => simp [Control.items, Execution.items, looseItems] at mem
      | _ => cases List.mem_singleton.1 mem
  | _ => cases mem

/-- An activity that does not fail yields no failure. -/
theorem Spends.unfailing {α β : Type} {m : Machine} {before : Cost} {costs : α → Cost}
    {stuck : Prop} {ends : Machine → β → Prop} {r : Machine × Turn α β}
    (spends : Spends m before costs stuck ends (fun _ => False) r) :
    r.2.Yields (fun _ => True) (fun _ => True) fun _ => False := by
  cases spends with
  | fails never => exact never
  | _ => trivial

namespace Machine

variable {m after : Machine} {id : WorkerId} {past : List Moment} {vocabulary : Access.Vocabulary}

/-! ## Activities that never fail -/

/-- An operation on a queue never fails. -/
theorem Base.queueStep_unfailing (base : m.Base) {target : WorkerId} (inside : target < m.size)
    (p : Queue.Progress Task) :
    (m.queueStep target p).2.Yields (fun _ => True) (fun _ => True) fun _ => False := by
  have found : m.queues[target]? = some m.queues[target] :=
    Array.getElem?_eq_getElem (show target < m.queues.size from inside)
  have lanes := base.lanes _ (Array.mem_of_getElem? found)
  unfold queueStep
  rw [found]
  simp only
  cases stepped : p.step m.queues[target] with
  | error f =>
      cases p with
      | change r =>
          obtain ⟨x, l, applied, -⟩ := lanes.apply r
          simp [Queue.Progress.step, applied, Except.map] at stepped
      | acquire r =>
          simp only [Queue.Progress.step] at stepped
          split at stepped <;> cases stepped
      | _ => cases stepped
  | ok next =>
      cases next with
      | none => trivial
      | some next =>
          obtain ⟨next, q⟩ := next
          cases next <;> trivial

/-- Vetting never fails, and leaves the work of a task alone. -/
theorem Vets.yields {v : Vetting} {r : Machine × Turn Vetting (Option Task)} (vets : Vets m v r) :
    r.2.Yields (fun next => next.task.work = v.task.work) (fun x => ∀ t ∈ x, t = v.task)
      fun _ => False := by
  cases vets with
  | goes _ _ _ work => exact work
  | ready _ =>
      intro t mine
      exact (Option.some.inj mine).symm
  | parked _ => exact fun t nobody => absurd nobody (Option.not_mem_none t)

/-- A worker that reads the word in order to join does not fail. -/
theorem Room.joining_unfailing (room : m.Room) (few : m.participants ≤ Word.maxJoined)
    (round : UInt32) :
    (m.joining round m.barrier.word).Yields (fun _ => True) (fun _ => True) fun _ => False := by
  unfold joining
  split
  · next f failed =>
    exact room.unbaffled few (.read round) (.inr ⟨round, f, rfl, failed⟩)
  · trivial
  · trivial

/-- A worker in a barrier round never fails. -/
theorem Room.serveStep_unfailing (room : m.Room) (few : m.participants ≤ Word.maxJoined)
    (id : WorkerId) (seen : UInt32) (s : Service) :
    (m.serveStep id seen s).2.Yields (fun _ => True) (fun _ => True) fun _ => False := by
  have ⟨w, loaded, _⟩ := room
  cases s with
  | look =>
      simp only [serveStep, loaded]
      split <;> trivial
  | read round => exact room.joining_unfailing few round
  | swap round expected next =>
      simp only [serveStep]
      split
      · trivial
      · exact room.joining_unfailing few round
  | watchWord round =>
      simp only [serveStep, loaded]
      split <;> trivial
  | watchFlag round | watchShutdown round =>
      simp only [serveStep]
      split <;> trivial
  | measure round | raise | watchQueue round => trivial

/-- The leader never fails. -/
theorem Room.leadStep_unfailing (room : m.Room) (rounds : m.Rounds) {l : Lead}
    (now : m.controlOf 0 = .leading l) (id : WorkerId) :
    (m.leadStep id l).2.Yields (fun _ => True) (fun _ => True) fun _ => False := by
  cases l with
  | read =>
      have stage := rounds.stage
      rw [now] at stage
      obtain ⟨w, loaded, idle⟩ := stage
      simp only [leadStep, Barrier.State.nextRound_of_idle loaded idle]
      trivial
  | watchWord round =>
      obtain ⟨w, loaded, -⟩ := room
      simp only [leadStep, loaded]
      trivial
  | survey round queue =>
      simp only [leadStep]
      split <;> trivial
  | _ => trivial

/-! ## What is known of the tasks -/

/-- What is known of a pool in which none but tasks of given kinds are handed in. -/
structure Declared (kinds : List Access.Kind) (past : List Moment) (m : Machine) : Prop where
  controls : ∀ id, (m.controlOf id).Fine kinds m.world.count
  items : Everywhere (Item.Uses kinds m.world.count) m.world m.hands
  known : ∀ h ∈ m.handles.references, h < m.world.count
  tables : ∀ h < m.world.count, (m.world.units h).required.length = kinds.length
  booked : ∀ s d, .scheduled s d ∈ past → d.kind ∈ kinds

/-- No version is refused to an access of a listed kind unless too many hold it. -/
theorem Declared.crowded (declared : Declared vocabulary.listed past m) (base : m.Base)
    (ledger : Ledger past m.world.units) (valid : vocabulary.kindSet.validate = .ok ())
    {a : Access.Located} (listed : a.kind ∈ vocabulary.listed) (known : a.handle < m.world.count)
    {f : Failure} {hs : Handles}
    (ran : m.handles.run a.handle (·.schedule a.kind) = (.error f, hs)) :
    f = .handle .scheduleCrowded := by
  obtain ⟨index, inside, place⟩ := Access.KindSet.exists_index_of_mem valid listed
  have table : index < (m.world.units a.handle).required.length := by
    rw [declared.tables _ known]
    exact inside
  have found := List.getElem?_eq_getElem table
  refine base.handles.crowded_of_error place found (fun stale => ?_) ran
  refine ledger.commutative_of_stale place found stale fun e mem same => ?_
  obtain ⟨scheduled, -⟩ := mem_bookings.1 mem
  exact Access.KindSet.eq_of_index_eq valid listed (declared.booked _ _ scheduled) same

/-- Handing in a task fails by an external failure. -/
theorem Declared.submitStep_yields (declared : Declared vocabulary.listed past m) (base : m.Base)
    (ledger : Ledger past m.world.units) (valid : vocabulary.kindSet.validate = .ok ())
    (origin : WorkerId) {s : Submission} (seated : s.Seated) {xs : List Item}
    (whole : ¬Broken m.world (s.items ++ xs)) (uses : s.Uses vocabulary.listed m.world.count) :
    (m.submitStep origin s).2.Yields (Submission.Uses vocabulary.listed m.world.count)
      (fun _ => True) Failure.External := by
  cases seated with
  | build d =>
      cases next : d.pending with
      | nil =>
          simp only [submitStep, Draft.step, next]
          trivial
      | cons a pending =>
          obtain ⟨listed, known⟩ := uses.1 a (next ▸ List.mem_cons_self)
          simp only [submitStep, Draft.step, next]
          cases ran : m.handles.run a.handle (·.schedule a.kind) with
          | mk result hs =>
              cases result with
              | error f =>
                  obtain rfl := declared.crowded base ledger valid listed known ran
                  trivial
              | ok v =>
                  exact (lasting_uses vocabulary.listed m.world.count).resolve v next uses
  | arrive t =>
      simp only [submitStep]
      split
      · trivial
      · split <;> trivial
  | vet label v =>
      have whole : ¬Broken m.world [.loose v.task] := fun broken =>
        whole (broken.mono (List.subset_append_left _ _))
      refine unfailing_onward (base.vets whole).yields (fun _ _ => trivial) fun _ x _ => ?_
      cases x <;> trivial
  | enqueue target storing =>
      exact unfailing_onward (base.queueStep_unfailing (lt_of_storing storing whole) _)
        (fun _ _ => trivial) fun _ _ _ => trivial

/-- An act that is done in one step fails by an external failure. -/
theorem external_of_actStep {a : Act} {o : Outcome} (acted : m.actStep id a = some (after, o)) :
    ∀ f ∈ o.failure?, f.External := by
  intro f failed
  cases o with
  | failed e =>
      obtain rfl : e = f := Option.some.inj failed
      unfold actStep at acted
      split at acted
      case h_1 | h_2 =>
        split at acted <;> cases acted
        exact Handles.external_of_lookUp ‹_›
      all_goals cases acted
  | _ => cases failed

/-- A task that cannot be begun fails by an external failure. -/
theorem external_of_begin {b : Blueprint Act} {f : Failure}
    (began : m.begin b = (.error f, after)) : f.External := by
  unfold begin Blueprint.draft at began
  split at began
  · next failed =>
    split at failed <;> cases failed
    cases began
    exact Handles.external_of_locateFrom ‹_›
  · cases began

/-- The acts of a task go on to hand in none but tasks that use given kinds. -/
theorem Declared.acts_yields (declared : Declared kinds past m) {f : Frame} {acts : List Act}
    {results : List Outcome} {r : Machine × Turn Execution Unit}
    (acted : m.Acts id f acts results r)
    (fine : (Execution.act f acts results).Fine kinds m.world.count) :
    r.2.Yields (Execution.Fine kinds m.world.count) (fun _ => True) fun _ => True := by
  obtain ⟨uses, external⟩ := fine
  cases acted with
  | returns | aborts => trivial
  | unbegun began =>
      refine ⟨uses.2, external_cons ?_ external⟩
      rintro _ ⟨⟩
      exact external_of_begin began
  | begins began => exact ⟨uses.2, external, uses_of_begin declared.known uses.1 began⟩
  | unpicked =>
      refine ⟨uses.2, external_cons ?_ external⟩
      rintro _ ⟨⟩
  | picks => exact ⟨uses.2, external, trivial⟩
  | does acted => exact ⟨uses.2, external_cons (external_of_actStep acted) external⟩

/-- A task that is run goes on to hand in none but tasks that use given kinds, and sees none but
external failures. -/
theorem Declared.executeStep_yields (declared : Declared vocabulary.listed past m) (base : m.Base)
    (ledger : Ledger past m.world.units) (valid : vocabulary.kindSet.validate = .ok ())
    (id : WorkerId) {e : Execution} (seated : e.Seated) (whole : ¬Broken m.world e.items)
    (items : ∀ x ∈ e.items, x.Uses vocabulary.listed m.world.count)
    (fine : e.Fine vocabulary.listed m.world.count) :
    (m.executeStep id e).2.Yields (Execution.Fine vocabulary.listed m.world.count) (fun _ => True)
      fun _ => True := by
  -- a task that goes on with its releases hands nothing in
  have releases : ∀ f todo woken,
      (releasing f todo woken).Fine vocabulary.listed m.world.count := by
    intro f todo woken
    cases woken <;> trivial
  have executes := m.executes_executeStep id e
  generalize m.executeStep id e = r at executes
  cases executes with
  | @takes v next t work vetted mine =>
      have same : t = v.task := by
        have yields := (base.vets whole).yields
        rw [vetted] at yields
        exact yields t rfl
      subst same
      exact items (.loose v.task) List.mem_cons_self work mine
  | starts => exact ⟨fine, by simp [failuresOf]⟩
  | locks => exact fine
  | acts acted => exact declared.acts_yields acted fine
  | @hands f acts results versions s s' next submitted =>
      obtain ⟨uses, external, handed⟩ := fine
      have yields := declared.submitStep_yields base ledger valid id seated whole handed
      rw [submitted] at yields
      exact ⟨uses, external, yields⟩
  | handed =>
      obtain ⟨uses, external, -⟩ := fine
      refine ⟨uses, external_cons ?_ external⟩
      rintro _ ⟨⟩
  | @refused f acts results versions s next e submitted =>
      obtain ⟨uses, external, handed⟩ := fine
      have yields := declared.submitStep_yields base ledger valid id seated whole handed
      rw [submitted] at yields
      refine ⟨uses, external_cons ?_ external⟩
      rintro _ ⟨⟩
      exact yields
  | releases | reparks | stored => exact releases _ _ _
  | _ => trivial

/-! ## Turns -/

/-- Whoever has nothing in hand and has not failed hands nothing in. -/
theorem fine_of_idle {c : Control} (nothing : c.items id = []) (unfailed : c.isFailed = false) :
    c.Fine kinds count := by
  cases c with
  | failed f => cases unfailed
  | submitting s =>
      cases s with
      | build d => cases nothing
      | _ => trivial
  | executing e =>
      cases e with
      | lock f acts todo | act f acts results => cases nothing
      | hand f acts results versions s =>
          have held : (Control.executing (.hand f acts results versions s)).items id ≠ [] := by
            simp [Control.items, Execution.items]
          exact absurd nothing held
      | _ => trivial
  | _ => trivial

/-- Whoever takes a turn goes on to hand in none but tasks that use listed kinds, and to see none
but external failures. -/
theorem Declared.conduct (declared : Declared vocabulary.listed past m) (sound : m.Sound)
    (orderly : Orderly past m.world m.hands) (rounds : m.Rounds) (crew : m.Crew) (room : m.Room)
    (few : m.participants ≤ Word.maxJoined) (valid : vocabulary.kindSet.validate = .ok ())
    (id : WorkerId) : m.Conduct id (Control.Fine vocabulary.listed m.world.count) := by
  have base := sound.toBase
  have seated := sound.seated id
  have fine := declared.controls id
  have whole : ¬Broken m.world ((m.controlOf id).items id) := orderly.sound
  have items : ∀ x ∈ (m.controlOf id).items id, x.Uses vocabulary.listed m.world.count :=
    declared.items (.hands id)
  have ledger := orderly.ledger
  refine ⟨fun c nothing unfailed => fine_of_idle nothing unfailed, trivial, fun s now => ?_,
    fun s seen now => ?_, fun p now => ?_, fun victim p rest now => ?_, fun e now => ?_,
    fun l now => ?_⟩
  · rw [now] at seated fine whole
    have alone : ¬Broken m.world (s.items ++ []) := by rwa [List.append_nil]
    exact declared.submitStep_yields base ledger valid _ seated.2 alone fine
  · exact (room.serveStep_unfailing few id seen s).mono (fun _ _ => trivial) (fun _ _ => trivial)
      fun _ => False.elim
  · rw [now] at seated
    exact (base.queueStep_unfailing seated.1 p).mono (fun _ _ => trivial)
      (fun _ _ _ _ => trivial) fun _ => False.elim
  · have inside := crew.visited id victim p rest now victim List.mem_cons_self
    exact (base.queueStep_unfailing inside p).mono (fun _ _ => trivial)
      (fun _ _ _ _ => trivial) fun _ => False.elim
  · rw [now] at seated fine whole items
    have yields := declared.executeStep_yields base ledger valid id seated.2 whole items fine
    have unfailing := (base.spends_executeStep id seated.2 whole).unfailing
    generalize (m.executeStep id e).2 = turn at yields unfailing
    cases turn with
    | goes e' => exact yields
    | fails f => exact unfailing.elim
    | waits | ends result | aborts label => trivial
  · rw [now] at seated
    obtain rfl : id = 0 := seated
    exact (room.leadStep_unfailing rounds now 0).mono (fun _ _ => trivial) (fun _ _ => trivial)
      fun _ => False.elim

/-- What is known of the tasks of a pool is known after every turn in which none but a fitting task
is handed in. -/
theorem Declared.move (declared : Declared vocabulary.listed past m) (sound : m.Sound)
    (orderly : Orderly past m.world m.hands) (rounds : m.Rounds) (crew : m.Crew) (room : m.Room)
    (few : m.participants ≤ Word.maxJoined) (valid : vocabulary.kindSet.validate = .ok ())
    {mv : Move} (fits : mv.Fits (Blueprint.Uses vocabulary.listed))
    (moved : m.move mv = some after) :
    Declared vocabulary.listed (m.moments mv ++ past) after := by
  have turned := sound.move moved
  have whole : ¬Broken m.world (m.hands mv.actor) := orderly.sound
  have count := turned.deed.count_eq whole
  have conduct := declared.conduct sound orderly rounds crew room few valid mv.actor
  have own : (after.controlOf mv.actor).Fine vocabulary.listed m.world.count := by
    refine sound.conduct_move conduct (declared.controls _) moved (fun round _ _ _ => ?_) ?_
    · exact (room.joining_unfailing few round).mono (fun _ _ => trivial) (fun _ _ => trivial)
        fun _ => False.elim
    · rintro before next s - calls
      cases calls with
      | spawn _ began => exact uses_of_begin declared.known fits began
      | submit => trivial
  refine ⟨fun id => ?_, ?_, fun h mem => ?_, fun h known => ?_, fun s d mem => ?_⟩
  · rw [count]
    by_cases mine : id = mv.actor
    · rw [mine]
      exact own
    · rw [turned.others id mine]
      exact declared.controls id
  · rw [count]
    exact sound.everywhere orderly moved (lasting_uses _ _) declared.items fun d mem _ =>
      own.draft mem
  · rw [count]
    refine declared.known h ?_
    have kept : after.handles.references = m.handles.references :=
      congrArg (·.2.2.2) (shape_move moved)
    rwa [kept] at mem
  · rw [turned.deed.length_required whole]
    exact declared.tables h (count ▸ known)
  · rcases List.mem_append.1 mem with now | before
    · obtain ⟨b, pending, here, -, next, -⟩ := turned.deed.of_scheduled whole now
      have uses : b.Uses vocabulary.listed m.world.count := declared.items (.hands mv.actor) _ here
      exact (uses.1 d.toLocated (next ▸ List.mem_cons_self)).1
    · exact declared.booked s d before

/-! ## Runs -/

variable {l : Launch} {handles callers : Nat} {references : Array HandleId}

/-- What is known of the tasks of a pool as it starts. -/
theorem declared_opening (known : ∀ h ∈ references, h < handles) :
    Declared vocabulary.listed [] (l.opening vocabulary handles callers references) := by
  refine ⟨fun id => ?_, fun p x mem => ?_, ?_, fun h inside => ?_, fun s d mem => ?_⟩
  · rw [controlOf_opening]
    split <;> trivial
  · -- nobody has anything in hand, nothing is queued and nobody waits
    rw [world_opening] at mem
    cases p with
    | hands id =>
        have mem : x ∈ (l.opening vocabulary handles callers references).hands id := mem
        rw [hands_opening] at mem
        cases mem
    | queue q => cases mem
    | waiting h v =>
        obtain ⟨entries, fresh⟩ := Handles.view_fresh handles vocabulary.listed.length h
        simp [World.items, fresh, Handle.view_new, looseItems] at mem
    | kept => cases mem
  · rwa [world_opening]
  · rw [world_opening] at inside ⊢
    exact Handles.required_fresh inside
  · cases mem

/-- What is known of the tasks of a pool in a run in which none but tasks of listed kinds are handed
in. -/
theorem RunsWith.declared (valid : vocabulary.kindSet.validate = .ok ())
    (few : l.size ≤ Word.maxJoined + 1) (known : ∀ h ∈ references, h < handles)
    (run : (l.opening vocabulary handles callers references).RunsWith
      (Blueprint.Uses vocabulary.listed) past m) : Declared vocabulary.listed past m := by
  induction run with
  | refl => exact declared_opening known
  | turn mv run fits moved ih =>
      have runs := run.runs
      refine ih.move runs.orderly.1 runs.orderly.2 runs.rounds runs.crew (runs.room few) ?_ valid
        fits moved
      rw [runs.participants_eq]
      omega

/-- No handle has come to a higher version than it has had accesses. -/
theorem Runs.frontier_le
    (run : (l.opening vocabulary handles callers references).Runs past m) (h : HandleId) :
    (m.world.units h).frontier ≤ (bookings h past).length := by
  induction run with
  | refl =>
      rw [world_opening]
      obtain ⟨entries, fresh⟩ := Handles.view_fresh handles vocabulary.listed.length h
      show ((Handles.fresh handles vocabulary.listed.length).view h).frontier ≤ _
      rw [fresh, Handle.view_new]
      exact Nat.le_refl 0
  | turn mv run moved ih =>
      obtain ⟨sound, orderly⟩ := run.orderly
      have more := (sound.move moved).deed.frontier_le orderly.sound h
      rw [bookings, List.filterMap_append, List.length_append]
      exact Nat.le_trans more (Nat.add_le_add_left ih _)

/-- In every run of a pool with an accepted kind set in which none but tasks of listed kinds are
handed in, and no more workers take part in a round than a word can count, all failures that are
seen are external, and the versions in use of a handle are as many at most as the accesses that it
has had. -/
theorem RunsWith.unfaulted (valid : vocabulary.kindSet.validate = .ok ())
    (few : l.size ≤ Word.maxJoined + 1) (known : ∀ h ∈ references, h < handles)
    (run : (l.opening vocabulary handles callers references).RunsWith
      (Blueprint.Uses vocabulary.listed) past m) :
    (∀ id, ∀ f ∈ (m.controlOf id).failures, f.External) ∧
    ∀ h, (m.handles.get h).completed + (m.handles.get h).slots.length ≤
      (bookings h past).length :=
  ⟨fun id => ((run.declared valid few known).controls id).external, run.runs.frontier_le⟩

/-- Two tasks that write a handle are handed in and run, and no failure is seen. -/
theorem RunsWith.writes_unfaulted :
    ∃ past m, (smallPool ⟨1, by decide⟩).RunsWith
        (Blueprint.Uses Access.Vocabulary.usual.listed) past m ∧
      .disposed 1 ∈ past ∧ (∀ id, ∀ f ∈ (m.controlOf id).failures, f.External) ∧
      ∀ h, (m.handles.get h).completed + (m.handles.get h).slots.length ≤
        (bookings h past).length := by
  have fits : ∀ mv ∈ twoWrites, mv.Fits (Blueprint.Uses Access.Vocabulary.usual.listed) := by
    have uses : writeTask.Uses Access.Vocabulary.usual.listed :=
      Blueprint.uses_iff.2 ⟨by decide, trivial⟩
    intro mv mem
    cases mv with
    | spawn id b =>
        have same : id = 0 ∧ b = writeTask := by simpa [twoWrites, steps] using mem
        rw [same.2]
        exact uses
    | _ => trivial
  obtain ⟨past, m, run, seen⟩ := exists_runsWith (smallPool ⟨1, by decide⟩) twoWrites
    (fun past _ => .disposed 1 ∈ past) fits (by decide +kernel)
  exact ⟨past, m, run, of_decide_eq_true seen,
    run.unfaulted Access.Vocabulary.validate_usual (by decide) (by decide)⟩

end Machine

end Pool

end AccessOrder
