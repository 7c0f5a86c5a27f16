/- # Leading a round

The turns of the owner: it takes tasks from its own queue until there are none, leads a round, and
comes out of the barrier when the round was quiet, or when there is no other worker.

* `Runs.rounds` : the invariant of the rounds holds after every run;
* `Runs.quiescent` : there is no task left when the owner has closed a quiet round.
-/
import AccessOrder.Proofs.Pool.Rounds
namespace AccessOrder

namespace Pool

open Barrier (Word Phase)

/-- The round that is about to be closed, if it was found quiet. -/
def Control.quietRound? : Control → Option UInt32
  | .leading (.close round true) => some round
  | _ => none

namespace Machine

variable {m after : Machine} {round : UInt32}

/-! ## Turns of the owner -/

/-- Who stands in a round stands there whatever the owner does. -/
theorem Roll.congr {joined : Nat} (roll : m.Roll round joined) (size : after.size = m.size)
    (others : ∀ o ≠ 0, after.controlOf o = m.controlOf o) : after.Roll round joined := by
  obtain ⟨ids, nodup, many, stand⟩ := roll
  refine ⟨ids, nodup, many, fun o mem => ?_⟩
  obtain ⟨pos, inside, stands⟩ := stand o mem
  rw [size, others o (Nat.ne_of_gt pos)]
  exact ⟨pos, inside, stands⟩

/-- A round stays open while the owner leaves the barrier alone. -/
theorem Opened.congr (opened : m.Opened round) (barrier : after.barrier = m.barrier)
    (size : after.size = m.size) (others : ∀ o ≠ 0, after.controlOf o = m.controlOf o) :
    after.Opened round := by
  obtain ⟨w, loaded, at', open', all, roll⟩ := opened
  rw [← barrier] at loaded roll
  refine ⟨w, loaded, at', open', ?_, fun down => (roll down).congr size others⟩
  rw [participants, size]
  exact all

/-- A round drains while the owner leaves the barrier alone. -/
theorem Draining.congr (draining : m.Draining round) (barrier : after.barrier = m.barrier)
    (size : after.size = m.size) (others : ∀ o ≠ 0, after.controlOf o = m.controlOf o) :
    after.Draining round := by
  obtain ⟨w, loaded, at', drains, mustered⟩ := draining
  rw [← barrier] at loaded mustered
  refine ⟨w, loaded, at', drains, fun down o pos inside => ?_⟩
  rw [others o (Nat.ne_of_gt pos)]
  exact mustered down o pos (size ▸ inside)

/-- Once all workers that the word counts have joined an open round, it drains. -/
theorem Opened.draining {w : Word} (opened : m.Opened round) (loaded : m.barrier.load = .ok w)
    (drains : w.phase = .draining) : m.Draining round := by
  obtain ⟨u, read, at', -, all, roll⟩ := opened
  rw [loaded] at read
  cases read
  refine ⟨w, loaded, at', drains, fun down => ?_⟩
  obtain ⟨ids, nodup, many, stand⟩ := roll down
  exact Roll.mustered ⟨ids, nodup, Nat.le_trans (all drains) many, stand⟩

/-- The length of a queue as it is read is what is seen of it. -/
theorem published_eq (m : Machine) (q : WorkerId) : m.world.published q = m.queueLength q := by
  show (m.queues[q]?).elim 0 Queue.Shared.published = _
  rw [queueLength]
  cases m.queues[q]? <;> rfl

/-- While no worker holds the lock of a queue and nobody hands a task in, the length of a queue that
is read is that of the queue. -/
theorem Rounds.queue_eq_nil (rounds : m.Rounds) {past : List Moment} (sound : m.Sound)
    (orderly : Orderly past m.world m.hands) (awaiting : (m.controlOf 0).awaiting = true)
    (unguarded : ∀ id < m.size, m.hands id = []) {q : WorkerId} (zero : m.queueLength q = 0) :
    m.world.queue q = [] := by
  rw [← published_eq] at zero
  rcases orderly.published q with same | ⟨p, mem⟩
  · rw [zero] at same
    exact List.eq_nil_of_length_eq_zero same.symm
  · cases p with
    | hands id =>
        by_cases inside : id < m.size
        · replace mem : Item.guard q true ∈ m.hands id := mem
          rw [unguarded id inside] at mem
          cases mem
        · exact absurd mem (sound.unguarded (Nat.le_of_not_lt inside)
            ((rounds.alone awaiting).2 id) q true)
    | queue o => simp [World.items] at mem
    | waiting h v => simp [World.items, looseItems] at mem
    | kept => simp [World.items] at mem

/-- There is no queue but those of the workers. -/
theorem queue_outside {q : WorkerId} (outside : m.size ≤ q) : m.world.queue q = [] := by
  show (m.queues[q]?).elim [] _ = []
  rw [Array.getElem?_eq_none outside]
  rfl

/-! ## Rounds that are led -/

/-- Who waits at the barrier hands no task in. -/
theorem calling_of_awaiting {c : Control} (awaiting : c.awaiting = true) : c.calling = false := by
  cases c <;> first | rfl | cases awaiting

/-- Calls are made by those who do not wait at the barrier; one that is made submits a task or is
done. -/
theorem Calls.outcome {mv : Move} {before c : Control} {next : Machine}
    (calls : m.Calls mv before next c) :
    before.awaiting = false ∧ (c = .away ∨ ∃ s, c = .submitting s) := by
  cases calls with
  | spawn | submit => exact ⟨rfl, .inr ⟨_, rfl⟩⟩
  | keep | recover => exact ⟨rfl, .inl rfl⟩

/-- What whoever makes a call goes on with. -/
theorem Calls.controlOf_after {mv : Move} {before c : Control} {next : Machine}
    (calls : m.Calls mv before next c) (now : m.controlOf mv.actor = before) (base : m.Base) :
    (next.setControl mv.actor c).controlOf mv.actor = c :=
  controlOf_setControl_self ((calls.passes base).crew.symm ▸ calls.crew now) c

/-- Only the owner and the callers make calls. -/
theorem Calls.outer {mv : Move} {before c : Control} {next : Machine}
    (calls : m.Calls mv before next c) (now : m.controlOf mv.actor = before) (sound : m.Sound) :
    mv.actor = 0 ∨ m.size ≤ mv.actor := by
  cases calls with
  | spawn free | submit free =>
      simp only [Machine.free, Bool.and_eq_true] at free
      exact outer_cases free.1.1
  | keep id t =>
      have seated := sound.seated id
      rw [show m.controlOf id = .submitting (.arrive t) from now] at seated
      exact seated.1
  | recover f outer => exact outer_cases outer

/-- The owner goes on with something else. -/
theorem Rounds.owner (rounds : m.Rounds) {ms : List Moment} (turned : m.Turned 0 ms after)
    (size : after.size = m.size) {c : Control} (now : after.controlOf 0 = c) (owned : c.Owned)
    (alone : c.awaiting = true →
      after.shutdown = false ∧ ∀ o ≠ 0, (m.controlOf o).calling = false)
    (stage : after.AtStage c) : after.Rounds where
  owned := now ▸ owned
  stage := now ▸ stage
  swaps := by
    intro o r e n swap
    have other : o ≠ 0 := by
      rintro rfl
      rw [now] at swap
      rw [swap] at owned
      exact owned
    rw [turned.others o other] at swap
    rw [participants, size]
    exact rounds.swaps o r e n swap
  alone := by
    rw [now]
    intro awaiting
    obtain ⟨unstopped, uncalling⟩ := alone awaiting
    refine ⟨unstopped, fun o => ?_⟩
    by_cases own : o = 0
    · rw [own, now]
      exact calling_of_awaiting awaiting
    · rw [turned.others o own]
      exact uncalling o own

/-- The word of a round that has not been opened, or is over, is that of no open round. -/
theorem closed_of_fresh (written : m.barrier.word = Barrier.State.fresh round .idle) :
    m.Closed := by
  refine ⟨⟨round, .idle, 0⟩, ?_, rfl⟩
  show Word.unpack m.barrier.word = _
  rw [written]
  exact Barrier.State.unpack_fresh round .idle

/-- A round that has just been opened has been joined by nobody. -/
theorem opened_of_fresh (written : m.barrier.word = Barrier.State.fresh round .entering) :
    m.Opened round := by
  refine ⟨⟨round, .entering, 0⟩, ?_, rfl, (by rintro ⟨⟩), (by rintro ⟨⟩), fun _ => ?_⟩
  · show Word.unpack m.barrier.word = _
    rw [written]
    exact Barrier.State.unpack_fresh round .entering
  · exact ⟨[], List.nodup_nil, Nat.zero_le _, (by simp)⟩

/-- While a round drains and the flag is down, no worker has anything in hand. -/
theorem Draining.hands_eq_nil (draining : m.Draining round) (down : m.barrier.aborted = false)
    (empty : m.hands 0 = []) {id : WorkerId} (inside : id < m.size) : m.hands id = [] := by
  by_cases own : id = 0
  · exact own ▸ empty
  · obtain ⟨w, -, -, -, mustered⟩ := draining
    exact hands_of_stands (mustered down id (Nat.pos_of_ne_zero own) inside)

/-- There is no task while a round drains, the flag is down and all queues are empty. -/
theorem Draining.still (draining : m.Draining round) (down : m.barrier.aborted = false)
    (empty : m.hands 0 = []) (queues : ∀ q, m.world.queue q = []) : m.Still := by
  refine ⟨queues, fun id inside x mem => ?_⟩
  rw [draining.hands_eq_nil down empty inside] at mem
  cases mem

/-- There is still no task after a turn of the owner that takes nothing up. -/
theorem Still.congr (still : m.Still) (size : after.size = m.size)
    (queue : after.world.queue = m.world.queue) (empty : after.hands 0 = [])
    (others : ∀ o ≠ 0, after.controlOf o = m.controlOf o) : after.Still := by
  obtain ⟨queues, calm⟩ := still
  refine ⟨fun q => queue ▸ queues q, fun o inside x mem => ?_⟩
  by_cases own : o = 0
  · rw [own, empty] at mem
    cases mem
  · rw [hands, others o own] at mem
    exact calm o (size ▸ inside) x mem

/-- The owner goes on in the round that it leads. -/
theorem Rounds.led (rounds : m.Rounds) (awaiting : (m.controlOf 0).awaiting = true)
    {ms : List Moment} {b : Barrier.State} {c : Control}
    (turned : m.Turned 0 ms (setControl { m with barrier := b } 0 c)) (owned : c.Owned)
    (busy : c ≠ .away) (stage : (setControl { m with barrier := b } 0 c).AtStage c) :
    (setControl { m with barrier := b } 0 c).Rounds ∧
      ((setControl { m with barrier := b } 0 c).controlOf 0 = .away →
        (setControl { m with barrier := b } 0 c).Still) := by
  have crew : 0 < m.workers.size := lt_of_controlOf fun away => by
    rw [away] at awaiting
    cases awaiting
  have next : (setControl { m with barrier := b } 0 c).controlOf 0 = c :=
    controlOf_setControl_self crew c
  obtain ⟨unstopped, uncalling⟩ := rounds.alone awaiting
  refine ⟨rounds.owner turned rfl next owned (fun _ => ?_) stage, fun away => ?_⟩
  · exact ⟨unstopped, fun o _ => uncalling o⟩
  · exact absurd (next.symm.trans away) busy

/-- A step of the owner that leads a round; there is no task left when the owner comes out of the
barrier. -/
theorem Rounds.leading (rounds : m.Rounds) {past ms : List Moment} (sound : m.Sound)
    (orderly : Orderly past m.world m.hands) {l : Lead} (now : m.controlOf 0 = .leading l)
    (turned : m.Turned 0 ms after) (stepped : m.step 0 = some after) :
    after.Rounds ∧ (after.controlOf 0 = .away → after.Still) := by
  have awaiting : (m.controlOf 0).awaiting = true := by rw [now]; rfl
  have empty : m.hands 0 = [] := by rw [hands, now]; rfl
  have stage := rounds.stage
  -- the owner goes on with `c`, having written the barrier `b`
  have goes : ∀ {b : Barrier.State} {c : Control},
      after = setControl { m with barrier := b } 0 c → c.Owned → c ≠ .away → after.AtStage c →
      after.Rounds ∧ (after.controlOf 0 = .away → after.Still) := by
    rintro b c rfl owned busy stage
    exact rounds.led awaiting turned owned busy stage
  have crew : 0 < m.workers.size := lt_of_controlOf (by simp [now])
  rw [now] at stage
  cases directs_of_leading now stepped with
  | reads | misreads | clears => exact goes rfl trivial (by rintro ⟨⟩) stage
  | announces => exact goes rfl trivial (by rintro ⟨⟩) (opened_of_fresh rfl)
  | warned | burdened | finds => exact goes rfl trivial (by rintro ⟨⟩) (by rintro ⟨⟩)
  | unwarned | unburdened | waits =>
      exact goes rfl trivial (by rintro ⟨⟩) (Opened.congr stage rfl rfl turned.others)
  | baffled failed =>
      obtain ⟨w, loaded, -⟩ := stage
      rw [failed] at loaded
      cases loaded
  | drains loaded drains =>
      refine goes rfl trivial (by rintro ⟨⟩) ⟨?_, fun _ q seen => ?_⟩
      · exact (Opened.draining stage loaded drains).congr rfl rfl turned.others
      · exact absurd seen (Nat.not_lt_zero q)
  | passes _ zero =>
      obtain ⟨draining, seen⟩ := stage
      refine goes rfl trivial (by rintro ⟨⟩)
        ⟨draining.congr rfl rfl turned.others, fun down o before => ?_⟩
      -- all workers wait, so no queue can change between the reading and now
      rcases Nat.lt_or_eq_of_le (Nat.le_of_lt_succ before) with before | rfl
      · exact seen down o before
      · exact rounds.queue_eq_nil sound orderly awaiting
          (fun _ => draining.hands_eq_nil down empty) zero
  | @surveyed r q past =>
      obtain ⟨draining, seen⟩ := stage
      refine goes rfl trivial (by rintro ⟨⟩)
        ⟨draining.congr rfl rfl turned.others, fun down o => ?_⟩
      by_cases before : o < q
      · exact seen down o before
      · exact m.queue_outside (Nat.le_trans past (Nat.le_of_not_lt before))
  | judges =>
      obtain ⟨draining, seen⟩ := stage
      refine goes rfl trivial (by rintro ⟨⟩) fun judged => ?_
      have down : m.barrier.aborted = false := by simpa using judged
      refine (draining.still down empty (seen down)).congr rfl rfl ?_ turned.others
      rw [hands, controlOf_setControl_self crew]
      rfl
  | returns =>
      refine ⟨rounds.owner turned rfl (controlOf_setControl_self crew .away) trivial
        (by rintro ⟨⟩) (closed_of_fresh rfl), fun away => ?_⟩
      refine Still.congr (stage rfl) rfl rfl ?_ turned.others
      rw [hands, away]
      rfl
  | resumes => exact goes rfl trivial (by rintro ⟨⟩) ⟨closed_of_fresh rfl, by rintro ⟨⟩⟩

/-! ## The queue of the owner -/

/-- What the owner of a queue knows of it after a step of taking a task: when it has found none,
there is none. -/
def Barren (target : WorkerId) : Machine × Turn (Queue.Progress Task) (Option Task) → Prop
  | (after, .goes p) => p.barren = true → after.world.queue target = []
  | (after, .ends none) => after.world.queue target = []
  | _ => True

/-- The owner of a queue that finds no task has looked at its length, or at the queue itself. -/
theorem Base.barren_step (base : m.Base) {target : WorkerId} {p : Queue.Progress Task}
    (taking : p.Taking .pop) (known : p.barren = true → m.world.queue target = [])
    (seen : p = .measure .pop → m.world.published target = 0 → m.world.queue target = []) :
    Barren target (m.queueStep target p) := by
  unfold queueStep
  cases found : m.queues[target]? with
  | none => trivial
  | some q =>
      obtain ⟨contents, published, -⟩ := world_of_found found
      cases taking with
      | measure =>
          simp only [Queue.Progress.step]
          by_cases zero : q.published = 0
          · rw [if_pos zero]
            show World.queue _ target = []
            rw [world_set_self found]
            exact seen rfl (published.trans zero)
          · rw [if_neg zero]
            rintro ⟨⟩
      | acquire =>
          cases held : q.held with
          | false =>
              simp only [Queue.Progress.step, held]
              rintro ⟨⟩
          | true =>
              simp only [Queue.Progress.step, held]
              trivial
      | change =>
          obtain ⟨x, l, popped, -, same, empty⟩ := (base.lanes q (Array.mem_of_getElem? found)).pop
          simp only [Queue.Progress.step, Queue.Request.apply, popped, Except.map]
          intro barren
          cases x with
          | none =>
              rw [world_setLanes found]
              show Function.update m.world.queue target l.contents target = []
              rw [Function.update_self]
              exact same.symm.trans (empty rfl)
          | some t => cases barren
      | publish x =>
          simp only [Queue.Progress.step]
          intro barren
          cases x with
          | none =>
              rw [base.world_publish found]
              exact known rfl
          | some t => cases barren
      | release x =>
          simp only [Queue.Progress.step]
          cases x with
          | none =>
              show World.queue _ target = []
              rw [world_setHeld found]
              exact known rfl
          | some t => trivial

/-- What a step of taking a task from one's own queue comes to. -/
theorem Sound.step_popping (sound : m.Sound) {id : WorkerId} {p : Queue.Progress Task}
    (now : m.controlOf id = .popping p) (stepped : m.step id = some after) :
    ∃ x w, m.workers[id]? = some w ∧ m.Passes x ∧
      ((∃ p', m.queueStep id p = (x, .goes p') ∧ after = x.setControl id (.popping p')) ∨
        (∃ t, m.queueStep id p = (x, .ends (some t)) ∧
          after = x.setControl id (.executing (.vet (.look t)))) ∨
        (m.queueStep id p = (x, .ends none) ∧ after = x.idleStep id w) ∨
        ∃ f, m.queueStep id p = (x, .fails f) ∧ after = x.setControl id (.failed f)) := by
  have seated := sound.seated id
  obtain ⟨w, found, steps⟩ := step_cases stepped
  rw [now] at seated steps
  cases steps with
  | popping moved =>
      have leads := sound.toBase.leads_taking id .pop seated.2
      generalize came : m.queueStep id p = r at leads moved
      cases leads with
      | waits => cases moved
      | goes passes fine deed =>
          cases moved
          exact ⟨_, w, found, passes, .inl ⟨_, rfl, rfl⟩⟩
      | @ends x t passes result =>
          cases t with
          | some t =>
              cases moved
              exact ⟨_, w, found, passes, .inr (.inl ⟨t, rfl, rfl⟩)⟩
          | none =>
              cases moved
              exact ⟨_, w, found, passes, .inr (.inr (.inl ⟨rfl, rfl⟩))⟩
      | fails f passes failure =>
          cases moved
          exact ⟨_, w, found, passes, .inr (.inr (.inr ⟨f, rfl, rfl⟩))⟩
      | aborts passes deed =>
          exact absurd (congrArg Prod.snd came) (m.queueStep_ne_aborts id p _)

/-- A worker that leads the barrier and has found its own queue empty comes out of it if there is
no other worker, and leads a round otherwise, unless its drains are too many to be counted. -/
theorem idleStep_of_leads {id : WorkerId} {w : Worker} (leads : w.duty.leads = true)
    (crew : id < m.workers.size) :
    ∃ c, (m.idleStep id w).controlOf id = c ∧
      ((c = .away ∧ m.participants = 0) ∨ c = .leading .read ∨ c = .failed .drainsUncounted) ∧
      (m.idleStep id w).barrier = m.barrier ∧ (m.idleStep id w).shutdown = m.shutdown ∧
      (m.idleStep id w).world = m.world := by
  have rests := m.rests_idleStep id w
  generalize m.idleStep id w = after at rests
  have seat (f : Worker → Worker) (c : Control) :
      (setControl { m with workers := m.workers.modify id f } id c).controlOf id = c :=
    controlOf_setControl_self (by simpa using crew) c
  cases rests with
  | visits duty =>
      rw [duty] at leads
      cases leads
  | overflows =>
      exact ⟨_, controlOf_setControl_self crew _, .inr (.inr rfl), rfl, rfl, rfl⟩
  | returns _ _ alone => exact ⟨_, seat _ _, .inl ⟨rfl, alone⟩, rfl, rfl, rfl⟩
  | leads => exact ⟨_, seat _ _, .inr (.inl rfl), rfl, rfl, rfl⟩

/-- Without other workers there is nobody but the owner. -/
theorem alone_of_none (none : m.participants = 0) {id : Nat} (inside : id < m.size) : id = 0 := by
  unfold participants at none
  omega

/-- Without other workers nobody but the owner takes from its queue or puts into it, so it has found
no task only if there is none. -/
theorem Rounds.barren_popping (rounds : m.Rounds) {past : List Moment} (sound : m.Sound)
    (orderly : Orderly past m.world m.hands) {p : Queue.Progress Task}
    (now : m.controlOf 0 = .popping p) (none : m.participants = 0) :
    Barren 0 (m.queueStep 0 p) := by
  have taking := sound.seated 0
  have stage := rounds.stage
  rw [now] at taking stage
  refine sound.toBase.barren_step taking.2 (fun found => stage.2 found none) ?_
  rintro rfl zero
  refine rounds.queue_eq_nil sound orderly (by rw [now]; rfl) (fun id inside => ?_)
    (published_eq m 0 ▸ zero)
  rw [alone_of_none none inside, hands, now]
  rfl

/-- A step of the owner that takes a task from its own queue; there is none left when the owner
comes out of the barrier. -/
theorem Rounds.popping (rounds : m.Rounds) {past ms : List Moment} (sound : m.Sound)
    (orderly : Orderly past m.world m.hands) {p : Queue.Progress Task}
    (now : m.controlOf 0 = .popping p) (turned : m.Turned 0 ms after)
    (stepped : m.step 0 = some after) :
    after.Rounds ∧ (after.controlOf 0 = .away → after.Still) := by
  have awaiting : (m.controlOf 0).awaiting = true := by rw [now]; rfl
  obtain ⟨unstopped, uncalling⟩ := rounds.alone awaiting
  have stage := rounds.stage
  rw [now] at stage
  obtain ⟨closed, -⟩ := stage
  have crew : 0 < m.workers.size := lt_of_controlOf (by rw [now]; rintro ⟨⟩)
  have size : after.size = m.size := congrArg Prod.fst (shape_step stepped)
  obtain ⟨x, w, found, passes, course⟩ := sound.step_popping now stepped
  have crew' : 0 < x.workers.size := passes.crew.symm ▸ crew
  have barren := rounds.barren_popping sound orderly now
  -- the owner goes on with `c`, and has left the barrier alone
  have goes : ∀ {c : Control}, after.controlOf 0 = c → after.barrier = m.barrier →
      after.shutdown = m.shutdown → c.Owned → (after.Closed → after.AtStage c) → after.Rounds := by
    intro c next barrier shutdown owned stage
    refine rounds.owner turned size next owned (fun _ => ?_) (stage ?_)
    · exact ⟨shutdown.trans unstopped, fun o _ => uncalling o⟩
    · rw [Closed, barrier]
      exact closed
  rcases course with ⟨p', came, rfl⟩ | ⟨t, -, rfl⟩ | ⟨came, rfl⟩ | ⟨f, -, rfl⟩
  · have next := controlOf_setControl_self crew' (.popping p')
    refine ⟨goes next passes.barrier passes.shutdown trivial fun closed => ?_, ?_⟩
    · refine ⟨closed, fun found none => ?_⟩
      have none : m.participants = 0 := by rwa [participants, size] at none
      have empty := barren none
      rw [came] at empty
      exact empty found
    · rw [next]
      rintro ⟨⟩
  · have next := controlOf_setControl_self crew' (.executing (.vet (.look t)))
    refine ⟨goes next passes.barrier passes.shutdown trivial fun closed => closed, ?_⟩
    rw [next]
    rintro ⟨⟩
  · have leads : w.duty.leads = true := by
      have duty := sound.duties 0
      rwa [dutyOf_of_found found, decide_eq_true rfl] at duty
    obtain ⟨c, next, outcome, barrier, shutdown, world⟩ := idleStep_of_leads leads crew'
    have same : x.participants = m.participants := congrArg (· - 1) passes.size
    have round := goes next (barrier.trans passes.barrier) (shutdown.trans passes.shutdown)
    rcases outcome with ⟨rfl, alone⟩ | rfl | rfl
    · have none : m.participants = 0 := same ▸ alone
      refine ⟨round trivial fun closed => closed, fun _ => ⟨fun q => ?_, fun id inside y mem => ?_⟩⟩
      · by_cases own : q = 0
        · have empty := barren none
          rw [came] at empty
          rw [own, world]
          exact empty
        · refine queue_outside (size ▸ Nat.le_of_not_lt fun inside => ?_)
          exact own (alone_of_none none inside)
      · obtain rfl : id = 0 := alone_of_none none (size ▸ inside)
        rw [hands, next] at mem
        cases mem
    all_goals
      refine ⟨round trivial fun closed => closed, ?_⟩
      rw [next]
      rintro ⟨⟩
  · have next := controlOf_setControl_self crew' (.failed f)
    refine ⟨goes next passes.barrier passes.shutdown trivial fun closed => closed, ?_⟩
    rw [next]
    rintro ⟨⟩

/-! ## Turns of the owner -/

/-- Whoever does not lead a round and has not found its own queue empty knows only that no round is
open. -/
theorem Closed.atStage (closed : m.Closed) {c : Control} (unleading : ∀ l, c ≠ .leading l)
    (unpopping : ∀ p, c = .popping p → p.barren = false) : m.AtStage c := by
  cases c with
  | leading l => exact absurd rfl (unleading l)
  | popping p =>
      refine ⟨closed, fun found => ?_⟩
      rw [unpopping p rfl] at found
      cases found
  | _ => exact closed

/-- A step of the owner outside of barrier rounds that does not take a task from its queue. -/
theorem Rounds.going (rounds : m.Rounds) {ms : List Moment} (sound : m.Sound)
    (turned : m.Turned 0 ms after) (size : after.size = m.size) (goes : m.Goes 0 after)
    (unleading : ∀ l, m.controlOf 0 ≠ .leading l) (unpopping : ∀ p, m.controlOf 0 ≠ .popping p) :
    after.Rounds ∧ ((m.controlOf 0).awaiting = true → after.controlOf 0 ≠ .away) := by
  have closed : after.Closed := by
    have stage := rounds.stage
    rw [Closed, goes.barrier]
    cases now : m.controlOf 0 with
    | leading l => exact absurd now (unleading l)
    | popping p => exact absurd now (unpopping p)
    | _ =>
        rw [now] at stage
        exact stage
  have owned := rounds.owned
  have alone := rounds.alone
  -- the owner goes on with `c`
  have owner : ∀ {c : Control}, after.controlOf 0 = c → c.Owned →
      (c.awaiting = true → (m.controlOf 0).awaiting = true) → after.AtStage c → after.Rounds := by
    intro c next owned before stage
    refine rounds.owner turned size next owned (fun awaiting => ?_) stage
    obtain ⟨unstopped, uncalling⟩ := alone (before awaiting)
    exact ⟨goes.shutdown.trans unstopped, fun o _ => uncalling o⟩
  have next := goes.next
  generalize was : m.controlOf 0 = c at next unleading unpopping owned
  generalize is : after.controlOf 0 = c' at next
  cases next with
  | same =>
      refine ⟨owner is owned (fun awaiting => was ▸ awaiting)
        (closed.atStage unleading fun p now => absurd now (unpopping p)), fun awaiting away => ?_⟩
      rw [away] at awaiting
      cases awaiting
  | failed f => exact ⟨owner is trivial (by rintro ⟨⟩) closed, fun _ => by simp⟩
  | submitting arrived => exact ⟨owner is trivial (by rintro ⟨⟩) closed, fun _ => by simp⟩
  | submitted => exact ⟨owner is trivial (by rintro ⟨⟩) closed, by rintro ⟨⟩⟩
  | executing => exact ⟨owner is trivial (fun _ => was ▸ rfl) closed, fun _ => by simp⟩
  | @executed e duty leads =>
      cases duty with
      | work => exact absurd (leads.2 (by rw [sound.duties]; rfl)) (by rintro ⟨⟩)
      | lead rounds =>
          refine ⟨owner is trivial (fun _ => was ▸ rfl) ⟨closed, by rintro ⟨⟩⟩, fun _ => ?_⟩
          rintro ⟨⟩
  | popping p => exact absurd rfl (unpopping p)
  | popped p => exact absurd rfl (unpopping p)
  | searching p => exact absurd rfl (unpopping p)
  | finished p => exact absurd rfl (unpopping p)
  | leading p => exact absurd rfl (unpopping p)
  | _ => exact owned.elim

/-- A step of the owner keeps the invariant of the rounds; there is no task left when it comes out
of the barrier. -/
theorem Rounds.step (rounds : m.Rounds) {past ms : List Moment} (sound : m.Sound)
    (orderly : Orderly past m.world m.hands) (turned : m.Turned 0 ms after)
    (stepped : m.step 0 = some after) :
    after.Rounds ∧ ((m.controlOf 0).awaiting = true → after.controlOf 0 = .away → after.Still) := by
  have size : after.size = m.size := congrArg Prod.fst (shape_step stepped)
  by_cases leading : ∃ l, m.controlOf 0 = .leading l
  · obtain ⟨l, now⟩ := leading
    obtain ⟨kept, still⟩ := rounds.leading sound orderly now turned stepped
    exact ⟨kept, fun _ => still⟩
  · by_cases popping : ∃ p, m.controlOf 0 = .popping p
    · obtain ⟨p, now⟩ := popping
      obtain ⟨kept, still⟩ := rounds.popping sound orderly now turned stepped
      exact ⟨kept, fun _ => still⟩
    · have unleading : ∀ l, m.controlOf 0 ≠ .leading l := fun l now => leading ⟨l, now⟩
      have unpopping : ∀ p, m.controlOf 0 ≠ .popping p := fun p now => popping ⟨p, now⟩
      obtain ⟨kept, busy⟩ := rounds.going sound turned size
        (sound.next stepped rounds.unserving unleading) unleading unpopping
      exact ⟨kept, fun awaiting away => absurd away (busy awaiting)⟩

/-- The owner has the pool to itself while it is between two calls and nobody hands a task in. -/
theorem exclusive_cases (exclusive : m.exclusive = true) : m.shutdown = false ∧
    (0 < m.workers.size ∧ m.controlOf 0 = .away) ∧ ∀ id, (m.controlOf id).calling = false := by
  unfold Machine.exclusive at exclusive
  simp only [Bool.and_eq_true, Bool.not_eq_true'] at exclusive
  obtain ⟨⟨unstopped, free⟩, uncalling⟩ := exclusive
  refine ⟨unstopped, away_of_free free, fun id => ?_⟩
  cases found : m.workers[id]? with
  | none =>
      rw [controlOf, found]
      rfl
  | some w =>
      rw [controlOf_of_found found]
      have every := Array.all_eq_true_iff_forall_mem.1 uncalling w (Array.mem_of_getElem? found)
      simpa using every

/-- Who waits at the barrier takes no turns but its steps. -/
theorem step_of_awaiting {id : WorkerId} {mv : Move} (moved : m.move mv = some after)
    (own : mv.actor = id) (awaiting : (m.controlOf id).awaiting = true) :
    mv = .step id ∧ m.step id = some after := by
  have unaway : m.controlOf id ≠ .away := fun away => by
    rw [away] at awaiting
    cases awaiting
  cases move_cases moved with
  | step _ stepped =>
      obtain rfl := own
      exact ⟨rfl, stepped⟩
  | @miss id' round expected next _ now =>
      obtain rfl : id' = id := own
      rw [now] at awaiting
      cases awaiting
  | call now calls =>
      rw [← own, now, calls.outcome.1] at awaiting
      cases awaiting
  | start shared =>
      obtain rfl : 0 = id := own
      rw [unshared_of_awaiting awaiting] at shared
      cases shared
  | lead exclusive | stop exclusive =>
      obtain rfl : 0 = id := own
      exact absurd (exclusive_cases exclusive).2.1.2 unaway

/-- A turn of the owner that begins while it does not wait at the barrier and leaves the barrier
alone. -/
theorem Rounds.beginning (rounds : m.Rounds) {ms : List Moment} (turned : m.Turned 0 ms after)
    (size : after.size = m.size) (barrier : after.barrier = m.barrier)
    (outside : (m.controlOf 0).awaiting = false) {c : Control} (now : after.controlOf 0 = c)
    (owned : c.Owned) (stage : after.Closed → after.AtStage c)
    (alone : c.awaiting = true →
      after.shutdown = false ∧ ∀ o ≠ 0, (m.controlOf o).calling = false) :
    after.Rounds ∧
      ((m.controlOf 0).awaiting = true → after.controlOf 0 = .away → after.Still) := by
  refine ⟨rounds.owner turned size now owned alone (stage ?_), fun awaiting => ?_⟩
  · have closed := rounds.stage
    rw [Closed, barrier]
    cases was : m.controlOf 0 <;> rw [was] at closed outside <;>
      first | exact closed | cases outside
  · rw [outside] at awaiting
    cases awaiting

/-- The owner that takes the lead of a barrier takes the tasks of its own queue. -/
theorem controlOf_enterBarrier (inside : 0 < m.workers.size) :
    m.enterBarrier.controlOf 0 = Machine.popping := by
  show controlOf { m.start with workers := _ } 0 = Machine.popping
  rw [← setControl_modify m.start 0 fun w => { w with duty := .lead 0 }]
  exact controlOf_setControl_self (by simpa [start] using inside) Machine.popping

/-- A turn of the owner keeps the invariant of the rounds; there is no task left when it comes out
of the barrier. -/
theorem Rounds.own (rounds : m.Rounds) {past : List Moment} (sound : m.Sound)
    (orderly : Orderly past m.world m.hands) {mv : Move} (moved : m.move mv = some after)
    (own : mv.actor = 0) :
    after.Rounds ∧
      ((m.controlOf 0).awaiting = true → after.controlOf 0 = .away → after.Still) := by
  have turned := sound.move moved
  have size := size_of_move moved
  rw [own] at turned
  cases move_cases moved with
  | @step id _ admitted stepped =>
      obtain rfl : id = 0 := own
      exact rounds.step sound orderly turned stepped
  | @miss id round expected next _ now missed =>
      exact absurd own (rounds.other_of_serving now)
  | @call _ before x c now calls =>
      have passes := calls.passes sound.toBase
      have next := calls.controlOf_after now sound.toBase
      rw [own] at now
      rw [show (x.setControl mv.actor c).controlOf mv.actor =
        (x.setControl mv.actor c).controlOf 0 by rw [own]] at next
      obtain ⟨outside, rfl | ⟨s, rfl⟩⟩ := calls.outcome
      · exact rounds.beginning turned size passes.barrier (now ▸ outside) next trivial
          (fun closed => closed) (by rintro ⟨⟩)
      · exact rounds.beginning turned size passes.barrier (now ▸ outside) next trivial
          (fun closed => closed) (by rintro ⟨⟩)
  | start shared =>
      have outside : (m.controlOf 0).awaiting = false := by
        by_contra awaiting
        rw [unshared_of_awaiting (eq_true_of_ne_false awaiting)] at shared
        cases shared
      have outside' : ∀ {c : Control}, m.controlOf 0 = c → c.awaiting = true → False := by
        rintro c rfl awaiting
        rw [outside] at awaiting
        cases awaiting
      refine rounds.beginning turned size rfl outside rfl rounds.owned (fun closed => ?_)
        fun awaiting => (outside' rfl awaiting).elim
      exact closed.atStage (fun l now => outside' now rfl) fun p now => (outside' now rfl).elim
  | lead exclusive =>
      obtain ⟨unstopped, ⟨crew, away⟩, uncalling⟩ := exclusive_cases exclusive
      have outside : (m.controlOf 0).awaiting = false := by rw [away]; rfl
      have next := controlOf_enterBarrier crew
      exact rounds.beginning turned size rfl outside next trivial
        (fun closed => ⟨closed, by rintro ⟨⟩⟩) fun _ => ⟨unstopped, fun o _ => uncalling o⟩
  | stop exclusive =>
      obtain ⟨-, ⟨-, away⟩, -⟩ := exclusive_cases exclusive
      have outside : (m.controlOf 0).awaiting = false := by rw [away]; rfl
      exact rounds.beginning turned size rfl outside away trivial (fun closed => closed)
        (by rintro ⟨⟩)

/-- A turn of anyone but the owner. -/
theorem Sound.aside_move (sound : m.Sound) {mv : Move} (moved : m.move mv = some after)
    (other : mv.actor ≠ 0) : m.Aside mv.actor (m.moments mv) after := by
  obtain ⟨serves, shutdown, -⟩ := sound.serves moved other
  exact ⟨sound.move moved, other, serves, shutdown, size_of_move moved⟩

/-- Every turn keeps the invariant of the rounds; there is no task left when the owner comes out of
the barrier. -/
theorem Rounds.move (rounds : m.Rounds) {past : List Moment} (sound : m.Sound)
    (orderly : Orderly past m.world m.hands) {mv : Move} (moved : m.move mv = some after) :
    after.Rounds ∧ ((m.controlOf 0).awaiting = true → after.controlOf 0 = .away → after.Still) := by
  by_cases own : mv.actor = 0
  · exact rounds.own sound orderly moved own
  · obtain ⟨-, -, calling⟩ := sound.serves moved own
    have aside := sound.aside_move moved own
    refine ⟨rounds.aside aside sound orderly calling, fun awaiting away => ?_⟩
    rw [← aside.others 0 (Ne.symm own), away] at awaiting
    cases awaiting

variable {l : Launch} {vocabulary : Access.Vocabulary} {handles callers : Nat}
  {references : Array HandleId} {past : List Moment}

/-- No round is open as a pool starts. -/
theorem rounds_opening : (l.opening vocabulary handles callers references).Rounds := by
  have away : (l.opening vocabulary handles callers references).controlOf 0 = .away := by
    rw [controlOf_opening, if_neg fun both => Nat.lt_irrefl 0 both.1]
  refine ⟨away ▸ trivial, fun id round expected next now => ?_, ?_, ?_⟩
  · rw [controlOf_opening] at now
    split at now <;> cases now
  · rw [away]
    rintro ⟨⟩
  · rw [away]
    exact ⟨_, Barrier.State.load_new, rfl⟩

/-- The invariant of the rounds holds after every run. -/
theorem Runs.rounds (run : (l.opening vocabulary handles callers references).Runs past m) :
    m.Rounds := by
  induction run with
  | refl => exact rounds_opening
  | turn mv run moved ih =>
      obtain ⟨sound, orderly⟩ := run.orderly
      exact (ih.move sound orderly moved).1

/-- There is no task in a queue or in the hands of a worker when the owner comes out of the
barrier. -/
theorem Runs.still (run : (l.opening vocabulary handles callers references).Runs past m) {mv : Move}
    (waiting : (m.controlOf 0).awaiting = true) (moved : m.move mv = some after)
    (back : after.controlOf 0 = .away) : after.Still := by
  obtain ⟨sound, orderly⟩ := run.orderly
  exact (run.rounds.move sound orderly moved).2 waiting back

/-- The owner comes out of the barrier when it closes a round that was quiet. -/
theorem Sound.away_of_quiet (sound : m.Sound)
    (judged : m.controlOf 0 = .leading (.close round true)) (closed : m.step 0 = some after) :
    after.controlOf 0 = .away := by
  have crew : 0 < m.workers.size := lt_of_controlOf (by simp [judged])
  cases directs_of_leading judged closed with
  | returns => exact controlOf_setControl_self (by exact crew) .away
  | resumes unlike =>
      obtain ⟨rounds, leads⟩ := sound.exists_lead
      exact absurd leads (unlike rfl rounds)

/-- Who has nothing in hand but locks of queues has no task in hand. -/
theorem tasksAt_of_calm {id : WorkerId} (calm : ∀ x ∈ m.hands id, x.isGuard = true) :
    m.tasksAt (.hands id) = [] := by
  rw [tasksAt, List.filterMap_eq_nil_iff]
  intro x mem
  have guard := calm x mem
  cases x <;> first | rfl | cases guard

/-- In every run of a pool, when the owner closes a round that it has found quiet it comes out of
the barrier, and then there is no task in any queue and no task in the hands of any worker, the
owner included. -/
theorem Runs.quiescent (run : (l.opening vocabulary handles callers references).Runs past m)
    (judged : m.controlOf 0 = .leading (.close round true)) (closed : m.step 0 = some after) :
    after.controlOf 0 = .away ∧ (∀ q, after.tasksAt (.queue q) = []) ∧
      ∀ id < after.size, after.tasksAt (.hands id) = [] := by
  have away := run.orderly.1.away_of_quiet judged closed
  have waiting : (m.controlOf 0).awaiting = true := by rw [judged]; rfl
  have moved : m.move (.step 0) = some after := by rwa [move_step (isCaller_owner m)]
  obtain ⟨empty, calm⟩ := run.still waiting moved away
  exact ⟨away, empty, fun id inside => tasksAt_of_calm (calm id inside)⟩

/-- A round that was found quiet is about to be closed. -/
theorem eq_close_of_quietRound {c : Control} (quiet : c.quietRound? = some round) :
    c = .leading (.close round true) := by
  unfold Control.quietRound? at quiet
  split at quiet
  · cases quiet
    rfl
  · cases quiet

/-- A task is handed in to a pool of two workers and done by the owner; the other worker joins the
round that follows, which is quiet. -/
theorem Runs.quiescent_after_write :
    ∃ past m after, (smallPool ⟨2, by decide⟩).Runs past m ∧ .disposed 0 ∈ past ∧
      m.step 0 = some after ∧ after.controlOf 0 = .away ∧ (∀ q, after.tasksAt (.queue q) = []) ∧
      ∀ id < after.size, after.tasksAt (.hands id) = [] := by
  obtain ⟨past, m, run, seen⟩ := exists_runs (smallPool ⟨2, by decide⟩)
    (.spawn 0 writeTask :: (steps 0 9 ++ .lead :: (steps 0 16 ++ steps 1 6 ++ steps 0 7)))
    (fun past m => .disposed 0 ∈ past ∧ (m.controlOf 0).quietRound?.isSome = true ∧
      (m.step 0).isSome = true) (by decide +kernel)
  obtain ⟨done, judged, closed⟩ := of_decide_eq_true seen
  obtain ⟨round, judged⟩ := Option.isSome_iff_exists.1 judged
  obtain ⟨after, closed⟩ := Option.isSome_iff_exists.1 closed
  exact ⟨past, m, after, run, done, closed, run.quiescent (eq_close_of_quietRound judged) closed⟩

end Machine

end Pool

end AccessOrder
