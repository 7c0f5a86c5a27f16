/- # Who takes part in a round

What a step of a worker in a barrier round can be, and who is there to take part: while the pool is
not shut down no worker goes away, a worker looks for tasks only where there are queues, and the
owner leads a round only if there are others, about which it has read the word.

* `attends_of_serving`, `heads_of_leading` : what a turn in a barrier round can be;
* `Rounds.takes` : what a turn can be, by the part that its actor has in a round;
* `Runs.crew` : who is there after every run;
* `Runs.led` : what the owner knows of the word after every run.
-/
import AccessOrder.Proofs.Pool.Leading
namespace AccessOrder.Pool

open Barrier (Word Phase)

/-- The round in which a worker takes part. -/
def Service.round? : Service → Option UInt32
  | .look | .raise => none
  | .measure r | .read r | .swap r _ _ | .watchWord r | .watchFlag r | .watchQueue r
  | .watchShutdown r => some r

/-- A worker that is about to join a round takes part in it. -/
theorem Service.round?_of_joining {s : Service} {round : UInt32}
    (joining : s.joining? = some round) : s.round? = some round := by
  cases s <;> first | exact joining | cases joining

/-- Whether a worker has joined a round and waits for its end. -/
def Service.Watches (round : UInt32) : Service → Prop
  | .watchWord r | .watchFlag r | .watchQueue r | .watchShutdown r => r = round
  | _ => False

/-- Whether a worker has joined a round and waits for its end. -/
def Control.Watches (round : UInt32) : Control → Prop
  | .serving s => s.Watches round
  | _ => False

/-- Whether a worker takes part in a round that it has seen open. -/
def Control.engaged : Control → Bool
  | .serving .look => false
  | .serving _ => true
  | _ => false

/-- The round that the leader has opened. -/
def Lead.round? : Lead → Option UInt32
  | .read | .clear _ | .announce _ => none
  | .watchFlag r | .watchQueue r | .watchWord r | .survey r _ | .recheck r | .close r _ => some r

/-- Whether someone is in the middle of something else than visiting the queues of others, leading a
round or being away. -/
def Control.plain : Control → Bool
  | .away | .stealing .. | .leading _ => false
  | _ => true

/-- Who waits for the end of a round takes part in it. -/
theorem Control.Watches.serving {round : UInt32} {c : Control} (watches : c.Watches round) :
    ∃ s, c = .serving s ∧ s.round? = some round := by
  cases c with
  | serving s =>
      refine ⟨s, rfl, ?_⟩
      cases s <;> first | exact congrArg some watches | cases watches
  | _ => cases watches

/-- Whether a worker has taken note of a round and is about to find out whether it joins it. -/
def Service.Enters : Service → Prop
  | .measure _ | .read _ | .swap .. => True
  | _ => False

/-- Whether a worker is about to find out whether it joins a round. -/
def Control.Enters : Control → Prop
  | .serving s => s.Enters
  | _ => False

/-- A worker that is about to join a round may find that it does not. -/
theorem Service.enters_of_joining (s : Service) {round : UInt32}
    (joining : s.joining? = some round) : s.Enters := by
  cases s with
  | measure | read | swap => trivial
  | look | raise | watchWord | watchFlag | watchQueue | watchShutdown => cases joining

namespace Machine

/-- The last barrier round that a worker has seen. -/
def seenOf (m : Machine) (id : WorkerId) : UInt32 := (m.traitsOf id).2

/-- Whether there is a reason for a worker to leave a round. -/
def Over (m : Machine) (s : Service) (round : UInt32) : Prop :=
  (∃ w, m.barrier.load = .ok w ∧
    (w.round ≠ round ∨ w.phase = .idle ∨ w.phase = .draining ∧ ∀ r, ¬s.Stands r)) ∨
  m.barrier.aborted = true ∨ m.shutdown = true

/-- Whether a worker comes upon a word that it cannot make sense of. -/
def Baffles (m : Machine) (s : Service) : Prop :=
  (∃ f, m.barrier.load = .error f) ∨
  ∃ round f, s.round? = some round ∧
    Barrier.State.joined m.barrier.word round m.participants = .error f

/-- What a turn of a worker in a barrier round can be. -/
inductive Attends (m : Machine) (id : WorkerId) : Service → Machine → Prop where
  /-- No round is open that the worker has not seen. -/
  | passes {w : Word} : m.barrier.load = .ok w → w.phase = .idle ∨ w.round = m.seenOf id →
      Attends m id .look (m.setControl id popping)
  /-- The worker takes note of a round. -/
  | notes {w : Word} : m.barrier.load = .ok w → w.phase ≠ .idle → w.round ≠ m.seenOf id →
      Attends m id .look ((m.see id w.round).setControl id (.serving (.measure w.round)))
  | goes {s s' : Service} {round : UInt32} : s.round? = some round →
      s' = .raise ∨ s'.round? = some round → (∀ r, s'.Watches r → s.Watches r) →
      (s'.Enters → s.Enters) →
      Attends m id s (m.setControl id (.serving s'))
  | leaves {s : Service} {round : UInt32} : s.round? = some round → m.Over s round →
      Attends m id s (m.setControl id popping)
  | raises : Attends m id .raise (setControl { m with barrier := m.barrier.abort } id popping)
  | joins {round : UInt32} {next : UInt64} : Attends m id (.swap round m.barrier.word next)
      (setControl { m with barrier := { m.barrier with word := next } } id
        (.serving (.watchWord round)))
  | fails {s : Service} (f : Failure) : m.Baffles s → Attends m id s (m.setControl id (.failed f))

variable {m after : Machine} {id : WorkerId}

/-- Who finds that it cannot join a round any more leaves it. -/
theorem over_of_refused {s : Service} {round : UInt32} (joining : s.joining? = some round)
    (refused : Barrier.State.joined m.barrier.word round m.participants = .ok none) :
    m.Over s round := by
  obtain ⟨w, loaded, other⟩ := Barrier.State.joined_eq_ok_none_iff.1 refused
  refine .inl ⟨w, loaded,
    (Decidable.not_and_iff_or_not.1 other).imp_right fun unentered => ?_⟩
  cases phase : w.phase with
  | idle => exact .inl rfl
  | entering => exact absurd phase unentered
  | draining => exact .inr ⟨rfl, s.unstanding_of_joining joining⟩

/-- What a worker in a round does, by whether it goes on, leaves or fails. -/
theorem Partakes.attends {s : Service} (partakes : m.Partakes id (m.seenOf id) s after) :
    m.Attends id s after := by
  cases partakes with
  | baffled _ failed => exact .fails _ (.inl ⟨_, failed⟩)
  | passes loaded left => exact .passes loaded left
  | notes loaded opened other => exact .notes loaded opened other
  | relieved => exact .goes rfl (.inr rfl) (fun _ never => never.elim) fun _ => trivial
  | burdened which =>
      rcases which with rfl | rfl <;>
        exact .goes rfl (.inl rfl) (fun _ never => never.elim) fun never => never.elim
  | raises => exact .raises
  | uncounted joining failed =>
      exact .fails _ (.inr ⟨_, _, s.round?_of_joining joining, failed⟩)
  | refused joining refused =>
      exact .leaves (s.round?_of_joining joining) (over_of_refused joining refused)
  | tries joining =>
      exact .goes (s.round?_of_joining joining) (.inr rfl) (fun _ never => never.elim)
        fun _ => s.enters_of_joining joining
  | joins => exact .joins
  | dismissed loaded left => exact .leaves rfl (.inl ⟨_, loaded, left.imp_right .inl⟩)
  | retained | unwarned | unburdened | running =>
      exact .goes rfl (.inr rfl) (fun _ watches => watches) fun never => never.elim
  | warned raised => exact .leaves rfl (.inr (.inl raised))
  | stopped stopped => exact .leaves rfl (.inr (.inr stopped))

/-- A turn of a worker in a barrier round. -/
theorem attends_of_serving {s : Service} (now : m.controlOf id = .serving s) {mv : Move}
    (own : mv.actor = id) (moved : m.move mv = some after) (inside : id ≠ 0) :
    m.Attends id s after :=
  (partakes_of_serving now own moved inside).attends

/-! ## Who is there -/

/-- Who is there to take part in rounds. -/
structure Crew (m : Machine) : Prop where
  /-- Every worker knows how many workers there are. -/
  known : ∀ id < m.size, (m.traitsOf id).1 = m.size
  visited : ∀ id victim p rest, m.controlOf id = .stealing victim p rest →
    ∀ v ∈ victim :: rest, v < m.size
  /-- No worker goes away before the pool is shut down. -/
  present : ∀ id, 0 < id → id < m.size → m.controlOf id = .away → m.shutdown = true
  started : (m.controlOf 0).awaiting = true → m.started = true
  /-- The owner leads a round only if there are others. -/
  peopled : ∀ l, m.controlOf 0 = .leading l → m.participants ≠ 0

/-- What someone goes on with that leaves the crew as it is. -/
structure Berth (m : Machine) (id : WorkerId) (shutdown started : Bool) (c : Control) : Prop where
  visited : ∀ victim p rest, c = .stealing victim p rest → ∀ v ∈ victim :: rest, v < m.size
  present : 0 < id → id < m.size → c = .away → shutdown = true
  started : id = 0 → c.awaiting = true → started = true
  peopled : id = 0 → ∀ l, c = .leading l → m.participants ≠ 0

/-- A turn after which the actor is in its place. -/
theorem Crew.turn (crew : m.Crew) (size : after.size = m.size)
    (known : ∀ o, (after.traitsOf o).1 = (m.traitsOf o).1)
    (running : after.shutdown = false → m.shutdown = false)
    (up : m.started = true → after.started = true)
    (others : ∀ o ≠ id, after.controlOf o = m.controlOf o)
    (berth : m.Berth id after.shutdown after.started (after.controlOf id)) : after.Crew where
  known o inside := by
    rw [known, size]
    exact crew.known o (size ▸ inside)
  visited o victim p rest now := by
    rw [size]
    by_cases own : o = id
    · exact berth.visited victim p rest (own ▸ now)
    · exact crew.visited o victim p rest (others o own ▸ now)
  present o pos inside now := by
    rw [size] at inside
    by_cases own : o = id
    · subst own
      exact berth.present pos inside now
    · rw [others o own] at now
      have stopped := crew.present o pos inside now
      by_contra unstopped
      rw [running (Bool.eq_false_of_not_eq_true unstopped)] at stopped
      cases stopped
  started awaiting := by
    by_cases own : 0 = id
    · subst own
      exact berth.started rfl awaiting
    · rw [others 0 own] at awaiting
      exact up (crew.started awaiting)
  peopled l now := by
    rw [participants, size]
    by_cases own : 0 = id
    · subst own
      exact berth.peopled rfl l now
    · exact crew.peopled l (others 0 own ▸ now)

/-- Who is in the middle of something else than visiting, leading or being away is in its place. -/
theorem berth_of_plain {shutdown started : Bool} {c : Control} (plain : c.plain = true)
    (waits : c.awaiting = true → id = 0 → started = true) : m.Berth id shutdown started c where
  visited victim p rest now := by
    rw [now] at plain
    cases plain
  present _ _ now := by
    rw [now] at plain
    cases plain
  started own awaiting := waits awaiting own
  peopled _ l now := by
    rw [now] at plain
    cases plain

/-- Who takes a task from the queue of another one is in its place if there is that queue. -/
theorem berth_of_stealing {shutdown started : Bool} {victim : WorkerId} {p : Queue.Progress Task}
    {rest : List WorkerId} (known : ∀ v ∈ victim :: rest, v < m.size) :
    m.Berth id shutdown started (.stealing victim p rest) := by
  refine ⟨?_, fun _ _ => by rintro ⟨⟩, fun _ => by rintro ⟨⟩, fun _ _ => by rintro ⟨⟩⟩
  rintro _ _ _ ⟨⟩
  exact known

/-- Who visits the queues of others is in its place if there are such queues. -/
theorem berth_of_visiting {shutdown started : Bool} {victims : List WorkerId}
    (known : ∀ v ∈ victims, v < m.size) : m.Berth id shutdown started (visiting victims) := by
  cases victims with
  | nil => exact berth_of_plain rfl (by rintro ⟨⟩)
  | cons victim rest => exact berth_of_stealing known

/-- Who goes away when it may is in its place. -/
theorem berth_of_away {shutdown started : Bool} (may : 0 < id → id < m.size → shutdown = true) :
    m.Berth id shutdown started .away :=
  ⟨fun _ _ _ => by rintro ⟨⟩, fun pos inside _ => may pos inside, fun _ => by rintro ⟨⟩,
    fun _ _ => by rintro ⟨⟩⟩

/-- What comes after a step outside of barrier rounds has its place. -/
theorem Crew.berth (crew : m.Crew) (sound : m.Sound) (rounds : m.Rounds) {c c' : Control}
    (was : m.controlOf id = c) (next : m.Next id c c') :
    m.Berth id m.shutdown m.started c' := by
  have seated := sound.seated id
  have duties := sound.duties id
  have owned := rounds.owned
  -- who waits at the barrier has waited there before
  have waits : c.awaiting = true → id = 0 → m.started = true := by
    rintro awaiting rfl
    exact crew.started (was ▸ awaiting)
  rw [was] at seated
  cases next with
  | same =>
      exact ⟨fun victim p rest now => crew.visited id victim p rest (was.trans now),
        fun pos inside now => crew.present id pos inside (was.trans now),
        fun own awaiting => waits awaiting own,
        fun own l now => crew.peopled l (own ▸ was.trans now)⟩
  | failed f => exact berth_of_plain rfl (by rintro ⟨⟩)
  | submitting arrived => exact berth_of_plain rfl (by rintro ⟨⟩)
  | submitted s =>
      refine berth_of_away fun pos inside => ?_
      exact absurd inside (Nat.not_lt_of_le (seated.1.resolve_left (Nat.ne_of_gt pos)))
  | looping => exact berth_of_plain rfl (by rintro ⟨⟩)
  | stopped down => exact berth_of_away fun _ _ => down
  | leaving down => exact berth_of_away fun _ _ => down
  | serving => exact berth_of_plain rfl (by rintro ⟨⟩)
  | popping p p' => exact berth_of_plain rfl fun _ => waits rfl
  | popped p e => exact berth_of_plain rfl fun _ => waits rfl
  | searching p victims alone known =>
      refine berth_of_visiting fun v mem => ?_
      rw [← crew.known id seated.1]
      exact known v mem
  | finished p leads alone =>
      refine berth_of_away fun pos _ => ?_
      rw [leads] at duties
      exact absurd (of_decide_eq_true duties.symm) (Nat.ne_of_gt pos)
  | leading p leads others =>
      exact ⟨fun _ _ _ => by rintro ⟨⟩, fun _ _ => by rintro ⟨⟩, fun own _ => waits rfl own,
        fun _ _ _ => others⟩
  | stealing victim p p' rest => exact berth_of_stealing (crew.visited id victim p rest was)
  | stolen victim p rest e =>
      refine berth_of_plain rfl fun _ own => ?_
      subst own
      rw [was] at owned
      exact owned.elim
  | visiting victim p rest =>
      exact berth_of_visiting fun v mem =>
        crew.visited id victim p rest was v (List.mem_cons_of_mem _ mem)
  | executing e e' => exact berth_of_plain rfl fun _ => waits rfl
  | @executed e duty leads =>
      cases duty with
      | work => exact berth_of_plain rfl (by rintro ⟨⟩)
      | lead rounds => exact berth_of_plain rfl fun _ => waits rfl

/-- A step of the leader in a round, by what it is in the middle of. -/
inductive Heads (m : Machine) : Lead → Machine → Prop where
  | reads {round : UInt32} : Barrier.State.nextRound m.barrier.word = .ok round →
      Heads m .read (m.setControl 0 (.leading (.clear round)))
  | clears {round : UInt32} : Heads m (.clear round)
      (setControl { m with barrier := { m.barrier with aborted := false } } 0
        (.leading (.announce round)))
  | announces {round : UInt32} : Heads m (.announce round)
      (setControl { m with
          barrier := { m.barrier with word := Barrier.State.fresh round .entering } } 0
        (.leading (.watchFlag round)))
  | goes {l l' : Lead} {round : UInt32} : l.round? = some round → l'.round? = some round →
      Heads m l (m.setControl 0 (.leading l'))
  | closes {round : UInt32} {quiet : Bool} {c : Control} {events : List Event} :
      c = .away ∨ c = popping → Heads m (.close round quiet)
        (setControl { m with barrier := m.barrier.close round, events := events } 0 c)
  | fails {l : Lead} (f : Failure) : (∃ f, m.barrier.load = .error f) ∨
        (l = .read ∧ ∃ f, Barrier.State.nextRound m.barrier.word = .error f) →
      Heads m l (m.setControl 0 (.failed f))

/-- A step of the leader in a round. -/
theorem heads_of_leading {l : Lead} (now : m.controlOf 0 = .leading l)
    (stepped : m.step 0 = some after) : m.Heads l after := by
  cases directs_of_leading now stepped with
  | reads read => exact .reads read
  | misreads failed => exact .fails _ (.inr ⟨rfl, _, failed⟩)
  | clears => exact .clears
  | announces => exact .announces
  | baffled failed => exact .fails _ (.inl ⟨_, failed⟩)
  | @returns round rounds duty =>
      exact @Heads.closes m round true .away (.barrierCompleted rounds :: m.events) (.inl rfl)
  | @resumes round quiet => exact @Heads.closes m round quiet popping m.events (.inr rfl)
  | _ => exact .goes rfl rfl

/-! ## Turns in a round -/

/-- A turn in a barrier round changes nothing but the barrier, what the actor is in the middle of
and the round that it has seen. -/
structure Spares (m after : Machine) : Prop where
  size : after.size = m.size
  crew : after.workers.size = m.workers.size
  world : after.world = m.world
  shutdown : after.shutdown = m.shutdown
  started : after.started = m.started
  crash : after.crash = m.crash
  known : ∀ o, (after.traitsOf o).1 = (m.traitsOf o).1

/-- Writing the barrier, and what is told, change nothing else. -/
theorem spares_barrier (m : Machine) (b : Barrier.State) (events : List Event) :
    m.Spares { m with barrier := b, events := events } :=
  ⟨rfl, rfl, rfl, rfl, rfl, rfl, fun _ => rfl⟩

/-- What a worker knows after it has taken note of a round. -/
theorem traitsOf_see (m : Machine) (id o : WorkerId) (round : UInt32) :
    (m.see id round).traitsOf o =
      if id = o ∧ id < m.workers.size then ((m.traitsOf o).1, round) else m.traitsOf o := by
  unfold traitsOf see
  rw [Array.getElem?_modify]
  by_cases same : id = o
  · subst same
    by_cases inside : id < m.workers.size <;> simp [inside, Worker.traits]
  · simp [same]

/-- Taking note of a round changes nothing else. -/
theorem spares_see (m : Machine) (id : WorkerId) (round : UInt32) :
    m.Spares (m.see id round) := by
  refine ⟨rfl, by simp [see], rfl, rfl, rfl, rfl, fun o => ?_⟩
  rw [traitsOf_see]
  split <;> rfl

/-- Going on with something else changes nothing but that. -/
theorem Spares.setControl {x : Machine} (spares : m.Spares x) (id : WorkerId) (c : Control) :
    m.Spares (x.setControl id c) :=
  ⟨spares.size, by simpa [Machine.setControl] using spares.crew, spares.world, spares.shutdown,
    spares.started, spares.crash, fun o => by rw [traitsOf_setControl, spares.known]⟩

/-- A turn of a worker in a barrier round. -/
theorem Attends.spares {s : Service} (attends : m.Attends id s after) : m.Spares after := by
  have same : m.Spares m := spares_barrier m m.barrier m.events
  cases attends with
  | passes | goes | leaves | fails => exact same.setControl ..
  | notes => exact (spares_see ..).setControl ..
  | raises | joins => exact (spares_barrier ..).setControl ..

/-- A step of the leader in a round. -/
theorem Heads.spares {l : Lead} (heads : m.Heads l after) : m.Spares after := by
  have same : m.Spares m := spares_barrier m m.barrier m.events
  cases heads with
  | reads | goes | fails => exact same.setControl ..
  | clears | announces | closes => exact (spares_barrier ..).setControl ..

/-- The leader of a round counts nothing. -/
theorem Heads.duty {l : Lead} (heads : m.Heads l after) : after.dutyOf 0 = m.dutyOf 0 := by
  cases heads with
  | reads | goes | fails => exact dutyOf_setControl m 0 0 _
  | clears | announces => exact dutyOf_setControl { m with barrier := _ } 0 0 _
  | closes => exact dutyOf_setControl { m with barrier := _, events := _ } 0 0 _

/-- What a worker is in the middle of after a turn in a barrier round. -/
theorem Attends.control {s : Service} (attends : m.Attends id s after)
    (here : id < m.workers.size) :
    (∃ s', after.controlOf id = .serving s') ∨ after.controlOf id = popping ∨
      ∃ f, after.controlOf id = .failed f ∧ m.Baffles s := by
  have sees : ∀ round, id < (m.see id round).workers.size := fun round =>
    (spares_see m id round).crew ▸ here
  cases attends with
  | passes | leaves | raises => exact .inr (.inl (controlOf_setControl_self here _))
  | notes => exact .inl ⟨_, controlOf_setControl_self (sees _) _⟩
  | goes | joins => exact .inl ⟨_, controlOf_setControl_self here _⟩
  | fails f baffles => exact .inr (.inr ⟨f, controlOf_setControl_self here _, baffles⟩)

/-- What the leader is in the middle of after a step in a round. -/
theorem Heads.control {l : Lead} (heads : m.Heads l after) (here : 0 < m.workers.size) :
    (∃ l', after.controlOf 0 = .leading l') ∨ after.controlOf 0 = .away ∨
      after.controlOf 0 = popping ∨ ∃ f, after.controlOf 0 = .failed f := by
  cases heads with
  | reads | clears | announces | goes =>
      exact .inl ⟨_, controlOf_setControl_self here _⟩
  | closes goes =>
      rw [controlOf_setControl_self (by exact here)]
      rcases goes with away | pops
      · exact .inr (.inl away)
      · exact .inr (.inr (.inl pops))
  | fails f => exact .inr (.inr (.inr ⟨f, controlOf_setControl_self here _⟩))

/-- What a turn of someone who is in no round leaves alone; a worker may go on to look for one. -/
structure Outside (m : Machine) (id : WorkerId) (after : Machine) : Prop where
  unserving : ∀ s, m.controlOf id ≠ .serving s
  unleading : ∀ l, m.controlOf id ≠ .leading l
  barrier : after.barrier = m.barrier
  traits : ∀ o, after.traitsOf o = m.traitsOf o
  look : ∀ s, after.controlOf id = .serving s → s = .look

/-- A turn, by the part that its actor has in a round. -/
inductive Takes (m : Machine) (mv : Move) (after : Machine) : Prop where
  | attends {s : Service} : m.controlOf mv.actor = .serving s → mv.actor ≠ 0 →
      m.Attends mv.actor s after → Takes m mv after
  | heads {l : Lead} : mv = .step 0 → m.controlOf 0 = .leading l → m.step 0 = some after →
      m.Heads l after → Takes m mv after
  | outside : m.Outside mv.actor after → Takes m mv after

/-- A turn of someone who is in no round. -/
theorem Sound.outside (sound : m.Sound) {mv : Move} (moved : m.move mv = some after)
    (unserving : ∀ s, m.controlOf mv.actor ≠ .serving s)
    (unleading : ∀ l, m.controlOf mv.actor ≠ .leading l) : m.Outside mv.actor after := by
  -- the actor goes on with something else than a round
  have goes : after.barrier = m.barrier → (∀ o, after.traitsOf o = m.traitsOf o) →
      ∀ c, after.controlOf mv.actor = c → (∀ s, c ≠ .serving s) → m.Outside mv.actor after :=
    fun barrier traits c now plain => ⟨unserving, unleading, barrier, traits,
      fun s is => absurd (now.symm.trans is) (plain s)⟩
  cases move_cases moved with
  | step _ stepped =>
      have goes := sound.next stepped unserving unleading
      exact ⟨unserving, unleading, goes.barrier, goes.traits,
        fun s is => goes.next.eq_look is (unserving s)⟩
  | miss now => exact absurd now (unserving _)
  | call now calls =>
      have passes := calls.passes sound.toBase
      refine goes passes.barrier (fun o => ?_) _ (calls.controlOf_after now sound.toBase) ?_
      · rw [traitsOf_setControl, passes.traits]
      · rcases calls.outcome.2 with rfl | ⟨s, rfl⟩ <;> simp
  | start | stop => exact goes rfl (fun _ => rfl) _ rfl unserving
  | lead exclusive =>
      refine goes rfl (fun o => ?_) _ (controlOf_enterBarrier (exclusive_cases exclusive).2.1.1)
        (by simp [popping])
      exact traitsOf_modify (m := m.start)
        (f := fun w => { w with control := popping, duty := .lead 0 }) (fun _ _ => rfl) o

/-- What a turn can be, by the part that its actor has in a round. -/
theorem Rounds.takes (rounds : m.Rounds) (sound : m.Sound) {mv : Move}
    (moved : m.move mv = some after) : m.Takes mv after := by
  by_cases serving : ∃ s, m.controlOf mv.actor = .serving s
  · obtain ⟨s, now⟩ := serving
    have other := rounds.other_of_serving now
    exact .attends now other (attends_of_serving now rfl moved other)
  · by_cases leading : ∃ l, m.controlOf mv.actor = .leading l
    · obtain ⟨l, now⟩ := leading
      have own := sound.owner_of_leading now
      rw [own] at now
      obtain ⟨rfl, stepped⟩ := step_of_awaiting moved own (by rw [now]; rfl)
      exact .heads rfl now stepped (heads_of_leading now stepped)
    · exact .outside (sound.outside moved (fun s now => serving ⟨s, now⟩)
        fun l now => leading ⟨l, now⟩)

/-! ## The crew -/

/-- A turn in a barrier round leaves the crew as it is. -/
theorem Crew.spares (crew : m.Crew) (spares : m.Spares after)
    (others : ∀ o ≠ id, after.controlOf o = m.controlOf o)
    (berth : m.Berth id m.shutdown m.started (after.controlOf id)) : after.Crew := by
  refine crew.turn spares.size spares.known (fun running => spares.shutdown ▸ running)
    (fun up => spares.started.trans up) others ?_
  rwa [spares.shutdown, spares.started]

/-- A turn of someone in a barrier round leaves the crew as it is. -/
theorem Crew.serving (crew : m.Crew) (sound : m.Sound) {mv : Move}
    (moved : m.move mv = some after) {s : Service} (now : m.controlOf mv.actor = .serving s)
    (other : mv.actor ≠ 0) : after.Crew := by
  have attends := attends_of_serving now rfl moved other
  refine crew.spares attends.spares (sound.move moved).others ?_
  rcases attends.control (lt_of_controlOf (by simp [now])) with ⟨s', next⟩ | next | ⟨f, next, -⟩
  all_goals
    rw [next]
    exact berth_of_plain rfl fun _ own => absurd own other

/-- A step of the leader leaves the crew as it is. -/
theorem Crew.leading (crew : m.Crew) (sound : m.Sound) {l : Lead}
    (now : m.controlOf 0 = .leading l) (stepped : m.step 0 = some after) : after.Crew := by
  have heads := heads_of_leading now stepped
  have up : m.started = true := crew.started (by rw [now]; rfl)
  refine crew.spares heads.spares (sound.step stepped).others ?_
  rcases heads.control (lt_of_controlOf (by simp [now])) with
    ⟨l', next⟩ | next | next | ⟨f, next⟩
  · rw [next]
    exact ⟨fun _ _ _ => by rintro ⟨⟩, fun _ _ => by rintro ⟨⟩, fun _ _ => up,
      fun _ _ _ => crew.peopled l now⟩
  · rw [next]
    exact berth_of_away fun pos => absurd pos (Nat.lt_irrefl 0)
  · rw [next]
    exact berth_of_plain rfl fun _ _ => up
  · rw [next]
    exact berth_of_plain rfl (by rintro ⟨⟩)

/-- A turn of someone who is in no round leaves the crew as it is. -/
theorem Crew.outside (crew : m.Crew) (sound : m.Sound) (rounds : m.Rounds) {mv : Move}
    (moved : m.move mv = some after) (outside : m.Outside mv.actor after) : after.Crew := by
  -- the actor goes on with `c`
  have goes : (after.shutdown = false → m.shutdown = false) →
      (m.started = true → after.started = true) → ∀ c, after.controlOf mv.actor = c →
      m.Berth mv.actor after.shutdown after.started c → after.Crew := by
    rintro running up c rfl berth
    exact crew.turn (size_of_move moved) (fun o => congrArg Prod.fst (outside.traits o)) running up
      (sound.move moved).others berth
  -- the owner stays where it is
  have stays : ∀ {shutdown started : Bool}, started = true →
      m.Berth 0 shutdown started (m.controlOf 0) := fun up =>
    ⟨crew.visited 0, fun pos => absurd pos (Nat.lt_irrefl 0), fun _ _ => up, fun _ => crew.peopled⟩
  cases move_cases moved with
  | step _ stepped =>
      have next := sound.next stepped outside.unserving outside.unleading
      refine goes (fun running => next.shutdown ▸ running) (fun up => next.started.trans up) _ rfl
        ?_
      rw [next.shutdown, next.started]
      exact crew.berth sound rounds rfl next.next
  | miss now => exact absurd now (outside.unserving _)
  | call now calls =>
      have passes := calls.passes sound.toBase
      have outer := calls.outer now sound
      refine goes (fun running => passes.shutdown ▸ running) (fun up => passes.started.trans up) _
        (calls.controlOf_after now sound.toBase) ?_
      rcases calls.outcome.2 with rfl | ⟨s, rfl⟩
      · refine berth_of_away fun pos inside => ?_
        exact absurd inside (Nat.not_lt_of_le (outer.resolve_left (Nat.ne_of_gt pos)))
      · exact berth_of_plain rfl (by rintro ⟨⟩)
  | start => exact goes id (fun _ => rfl) _ rfl (stays rfl)
  | lead exclusive =>
      exact goes id (fun _ => rfl) _ (controlOf_enterBarrier (exclusive_cases exclusive).2.1.1)
        (berth_of_plain rfl fun _ _ => rfl)
  | stop => exact goes (by rintro ⟨⟩) (fun _ => rfl) _ rfl (stays rfl)

/-- A turn leaves the crew as it is. -/
theorem Crew.move (crew : m.Crew) (sound : m.Sound) (rounds : m.Rounds) {mv : Move}
    (moved : m.move mv = some after) : after.Crew := by
  cases rounds.takes sound moved with
  | attends now other => exact crew.serving sound moved now other
  | heads _ now stepped => exact crew.leading sound now stepped
  | outside outside => exact crew.outside sound rounds moved outside

/-! ## What the owner knows of the word -/

/-- What the owner knows of the word when it is in the middle of something. -/
def Led (m : Machine) : Control → Prop
  | .leading (.clear round) | .leading (.announce round) =>
    ∃ w, m.barrier.load = .ok w ∧ w.phase = .idle ∧ round = w.round + 1
  | .leading l => ∀ round, l.round? = some round → m.Opened round
  | _ => True

/-- The owner knows of the round that it has opened. -/
theorem Led.opened {l : Lead} {round : UInt32} (led : m.Led (.leading l))
    (own : l.round? = some round) : m.Opened round := by
  cases l with
  | read | clear | announce => cases own
  | _ => exact led round own

/-- The owner knows of an open round what it needs to know. -/
theorem Opened.led {l : Lead} {round : UInt32} (opened : m.Opened round)
    (own : l.round? = some round) : m.Led (.leading l) := by
  cases l with
  | read | clear | announce => cases own
  | _ =>
      rintro _ ⟨⟩
      cases own
      exact opened

/-- Only who leads a round knows of the word. -/
theorem led_of_unleading {c : Control} (unleading : ∀ l, c ≠ .leading l) : m.Led c := by
  cases c with
  | leading l => exact absurd rfl (unleading l)
  | _ => trivial

/-- What the owner knows of the word stays true in the turns of others. -/
theorem Aside.led {ms : List Moment} (aside : m.Aside id ms after) (rounds : m.Rounds)
    (led : m.Led (m.controlOf 0)) : after.Led (after.controlOf 0) := by
  rw [aside.others 0 (Ne.symm aside.other)]
  cases now : m.controlOf 0 with
  | leading l =>
      rw [now] at led
      have unstopped := (rounds.alone (by rw [now]; rfl)).1
      cases l with
      | read => rintro _ ⟨⟩
      | clear round | announce round =>
          obtain ⟨w, loaded, idle, following⟩ := led
          exact ⟨w, aside.load_of_idle rounds.swaps loaded idle, idle, following⟩
      | _ => exact fun round own => aside.opened rounds.swaps unstopped (led.opened own)
  | _ => trivial

/-- What the owner knows of the word after a step in a round. -/
theorem Heads.led {l : Lead} (heads : m.Heads l after) (here : 0 < m.workers.size)
    (others : ∀ o ≠ 0, after.controlOf o = m.controlOf o) (led : m.Led (.leading l)) :
    after.Led (after.controlOf 0) := by
  have next : ∀ {x : Machine} {c : Control}, x.workers.size = m.workers.size →
      (x.setControl 0 c).Led c → (x.setControl 0 c).Led ((x.setControl 0 c).controlOf 0) := by
    intro x c crew led
    rwa [controlOf_setControl_self (crew ▸ here)]
  cases heads with
  | reads read =>
      obtain ⟨w, loaded, idle, following⟩ := Barrier.State.nextRound_eq_ok_iff.1 read
      exact next rfl ⟨w, loaded, idle, following⟩
  | clears =>
      obtain ⟨w, loaded, idle, following⟩ := led
      exact next rfl ⟨w, loaded, idle, following⟩
  | announces => exact next rfl ((opened_of_fresh rfl).led rfl)
  | goes own own' =>
      have opened : (m.setControl 0 _).Opened _ := (led.opened own).congr rfl rfl others
      exact next rfl (opened.led own')
  | closes goes =>
      refine next rfl (led_of_unleading fun l => ?_)
      rcases goes with rfl | rfl <;> simp [Machine.popping]
  | fails f => exact next rfl trivial

/-- What the owner knows of the word after its own turn. -/
theorem Rounds.led_own (rounds : m.Rounds) (sound : m.Sound) (led : m.Led (m.controlOf 0))
    {mv : Move} (moved : m.move mv = some after) (own : mv.actor = 0) :
    after.Led (after.controlOf 0) := by
  have turned := sound.move moved
  rw [own] at turned
  cases move_cases moved with
  | @step id _ admitted stepped =>
      obtain rfl : id = 0 := own
      by_cases leading : ∃ l, m.controlOf 0 = .leading l
      · obtain ⟨l, now⟩ := leading
        rw [now] at led
        exact (heads_of_leading now stepped).led (lt_of_controlOf (by simp [now])) turned.others led
      · have unleading : ∀ l, m.controlOf 0 ≠ .leading l := fun l now => leading ⟨l, now⟩
        have goes := sound.next stepped rounds.unserving unleading
        -- a round is led from its beginning
        have next := goes.next
        generalize m.controlOf 0 = c at next unleading
        generalize after.controlOf 0 = c' at next
        cases next with
        | same => exact led_of_unleading unleading
        | searching p victims => cases victims <;> trivial
        | visiting victim p rest => cases rest <;> trivial
        | executed e leads => cases ‹Duty› <;> trivial
        | leading p => rintro _ ⟨⟩
        | _ => trivial
  | @miss id round expected next _ now missed =>
      exact absurd own (rounds.other_of_serving now)
  | @call _ before x c now calls =>
      have next := calls.controlOf_after now sound.toBase
      rw [own] at next
      show Led _ ((x.setControl mv.actor c).controlOf 0)
      rw [own, next]
      rcases calls.outcome.2 with rfl | ⟨s, rfl⟩ <;> trivial
  | start => exact led
  | lead exclusive =>
      obtain ⟨-, ⟨inside, away⟩, -⟩ := exclusive_cases exclusive
      show Led _ (m.enterBarrier.controlOf 0)
      rw [controlOf_enterBarrier inside]
      trivial
  | stop => exact led

variable {l : Launch} {vocabulary : Access.Vocabulary} {handles callers : Nat}
  {references : Array HandleId} {past : List Moment}

/-- The crew of a pool as it starts. -/
theorem crew_opening : (l.opening vocabulary handles callers references).Crew := by
  have control := controlOf_opening l vocabulary handles callers references
  have owner : (l.opening vocabulary handles callers references).controlOf 0 = .away := by
    rw [control, if_neg fun both => Nat.lt_irrefl 0 both.1]
  refine ⟨fun id inside => ?_, fun id victim p rest now => ?_, fun id pos inside now => ?_, ?_, ?_⟩
  · rw [size_opening] at inside ⊢
    rw [traitsOf, workers_opening, if_pos inside]
    rfl
  · rw [control] at now
    split at now <;> cases now
  · rw [size_opening] at inside
    rw [control, if_pos ⟨pos, inside⟩] at now
    cases now
  · rw [owner]
    rintro ⟨⟩
  · rw [owner]
    rintro _ ⟨⟩

/-- The crew after every run. -/
theorem Runs.crew (run : (l.opening vocabulary handles callers references).Runs past m) :
    m.Crew := by
  induction run with
  | refl => exact crew_opening
  | turn mv run moved ih => exact ih.move run.orderly.1 run.rounds moved

/-- What the owner knows of the word after every run. -/
theorem Runs.led (run : (l.opening vocabulary handles callers references).Runs past m) :
    m.Led (m.controlOf 0) := by
  induction run with
  | refl =>
      rw [controlOf_opening, if_neg fun both => Nat.lt_irrefl 0 both.1]
      trivial
  | @turn past m after mv run moved ih =>
      by_cases own : mv.actor = 0
      · exact run.rounds.led_own run.orderly.1 ih moved own
      · exact (run.orderly.1.aside_move moved own).led run.rounds ih

end Machine

end AccessOrder.Pool
