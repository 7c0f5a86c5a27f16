/- # Coming out of the barrier

From wherever the owner waits at the barrier it can come out.  While somebody is busy, somebody goes
on; while nobody is, a task is fetched if there is one in a queue.  When there is none the open
round is closed if the flag is up, or is going to be, and in the next one every worker joins; then
the owner finds all queues empty and the flag down.

* `Waits.works_off` : somebody who is busy goes on, after which less is ahead;
* `Waits.settles` : when nobody is busy, the owner comes out or somebody gets a task;
* `Counts.barrier_returns` : after every run in which the drains could be counted, an owner that
  waits at the barrier can come out of it; who leaves the open round leaves the flag raised, and it
  stays raised until the next round is opened.
-/
import AccessOrder.Proofs.Pool.JoiningRounds
import AccessOrder.Proofs.Pool.LeadingRounds
namespace AccessOrder.Pool

open Barrier (Word Phase)

namespace Machine

variable {m a b after : Machine} {id : WorkerId} {round : UInt32}

/-! ## When nobody is busy -/

/-- Who knows of the open round takes part in it as long as the flag is down. -/
theorem Waits.engaged (waits : Waits m) (opened : m.round? = some round)
    (down : m.barrier.aborted = false) (pos : 0 < id) (inside : id < m.size)
    (noted : m.seenOf id = round) : (m.controlOf id).engaged = true := by
  obtain ⟨c, laps⟩ := waits.laps
  refine (laps.stays id pos inside (noted.symm ▸ opened)).resolve_right ?_
  rw [down]
  exact Bool.false_ne_true

/-- The owner closes the open round when the flag is up or there is a task in its own queue. -/
theorem Waits.closing (waits : Waits m) (calm : m.Calm) (opened : m.round? = some round)
    (due : m.barrier.aborted = true ∨ m.world.queue 0 ≠ [] ∨
      m.controlOf 0 = .leading (.close round false)) :
    Attains m fun a => a.round? = none ∧ a.controlOf 0 = popping := by
  -- from the end of the round the owner goes back to its own queue, or out of the barrier
  have closed : ∀ {b : Machine} {quiet : Bool}, Presides m b →
      b.controlOf 0 = .leading (.close round quiet) →
      Attains m fun a => a.round? = none ∧ a.controlOf 0 = popping := by
    intro b quiet presides control
    have closes := presides.waits.closes presides.calm control
    cases quiet with
    | true =>
        obtain ⟨e, works, returned⟩ := closes
        exact presides.before ⟨e, works, .inl returned⟩
    | false =>
        obtain ⟨e, presides', control', closed⟩ := closes
        replace presides' := presides.trans presides'
        exact presides'.before (presides'.waits.attains presides'.calm ⟨closed, control'⟩)
  obtain ⟨⟨l, control, own⟩, -⟩ := waits.rounds.opened_of_round waits.led opened
  by_cases close : l = .close round false
  · exact closed (waits.presides_refl calm) (close ▸ control)
  · have due' : m.barrier.aborted = true ∨ m.world.queue 0 ≠ [] ∨
        ∃ w, m.barrier.load = .ok w ∧ w.phase = .draining := by
      rcases due with raised | full | closing
      · exact .inl raised
      · exact .inr (.inl full)
      · rw [control] at closing
        exact absurd (Control.leading.inj closing) close
    obtain ⟨b, quiet, presides, barrier, control', -⟩ :=
      waits.concludes calm due' control own close
    exact closed presides control'

/-- The owner comes out of the barrier when all workers are ready to join the open round. -/
theorem Waits.finishes (waits : Waits m) (calm : m.Calm) (allReady : m.AllReady round)
    (unclosed : m.controlOf 0 ≠ .leading (.close round false)) :
    ∃ a, m.Works a ∧ a.Returned := by
  refine (waits.muster calm allReady).returned allReady.empty fun a waits calm _ there => ?_
  obtain ⟨abides, allReady, watching⟩ := there
  replace watching : ∀ id, 0 < id → id < a.size → (a.controlOf id).Watches round :=
    fun id pos inside => watching id pos (abides.size ▸ inside)
  obtain ⟨⟨l, control, own⟩, -⟩ := waits.rounds.opened_of_round waits.led allReady.opened
  have drains := waits.phase_draining allReady.opened watching
  obtain ⟨b, quiet, presides, barrier, control', reason⟩ :=
    waits.concludes calm (.inr (.inr drains)) control own fun close =>
      unclosed (by rw [← abides.owner, control, close])
  cases quiet with
  | false =>
      rcases reason rfl with raised | ⟨q, full⟩
      · rw [allReady.down] at raised
        cases raised
      · exact absurd (allReady.empty q) full
  | true =>
      obtain ⟨e, works, returned⟩ := presides.waits.closes presides.calm control'
      exact ⟨e, presides.works.trans works, returned⟩

/-- The owner comes out of the barrier after it has closed a round, when there is no task in any
queue: it opens the next one, which every worker joins. -/
theorem Waits.reopens (waits : Waits m) (calm : m.Calm) (room : m.drains + 1 < 2 ^ 32)
    (closed : m.round? = none) (control : m.controlOf 0 = popping)
    (empty : ∀ q, m.world.queue q = []) : ∃ a, m.Works a ∧ a.Returned := by
  refine (waits.leave calm closed).keeps.returned empty fun a waits calm empty there => ?_
  obtain ⟨same, -, abides, roaming⟩ := there
  obtain ⟨b, works, returned | ⟨waits', calm', leading, others, seen, size, world⟩⟩ :=
    waits.drained calm (abides.owner.trans control) (empty 0) (same ▸ room)
  · exact ⟨b, works, returned⟩
  obtain ⟨d, opens, down⟩ := waits'.opens_read calm' leading
  obtain ⟨round, opened, leading', unseen⟩ := opens.opened
  have allReady : d.AllReady round := by
    refine ⟨opened, down, fun q => by rw [opens.world, world, empty], fun id pos inside => .inl ?_⟩
    have inside' : id < b.size := opens.size ▸ inside
    have other := Nat.ne_of_gt pos
    rw [opens.others id other, others id other, opens.seen]
    exact ⟨roaming id pos (abides.size ▸ size ▸ inside'), unseen id pos inside'⟩
  obtain ⟨e, works', returned⟩ :=
    opens.waits.finishes opens.calm allReady (by rw [leading']; rintro ⟨⟩)
  exact ⟨e, works.trans (opens.works.trans works'), returned⟩

/-- The owner comes out of the barrier when a round is open and there is no task in any queue. -/
theorem Waits.settles_empty (waits : Waits m) (calm : m.Calm) (room : m.drains + 1 < 2 ^ 32)
    (opened : m.round? = some round) (empty : ∀ q, m.world.queue q = []) :
    ∃ a, m.Works a ∧ a.Returned := by
  -- a round in which the flag is up is closed, and the next one opened
  have again : ∀ {m'}, Waits m' → m'.Calm → m'.drains + 1 < 2 ^ 32 → m'.round? = some round →
      (∀ q, m'.world.queue q = []) → (m'.barrier.aborted = true ∨ m'.world.queue 0 ≠ [] ∨
        m'.controlOf 0 = .leading (.close round false)) → ∃ a, m'.Works a ∧ a.Returned := by
    intro m' waits calm room opened empty due
    refine (waits.closing calm opened due).keeps.returned empty fun a waits calm empty there => ?_
    obtain ⟨same, -, closed, control⟩ := there
    exact waits.reopens calm (same ▸ room) closed control empty
  refine (waits.note calm opened).keeps.returned empty fun a waits calm empty there => ?_
  obtain ⟨same, -, abides, noted⟩ := there
  replace opened : a.round? = some round := abides.round.trans opened
  replace room : a.drains + 1 < 2 ^ 32 := same ▸ room
  by_cases due : a.barrier.aborted = true ∨ a.controlOf 0 = .leading (.close round false)
  · exact again waits calm room opened empty (due.imp_right .inr)
  · obtain ⟨down, unclosed⟩ := not_or.1 due
    replace down := Bool.eq_false_of_not_eq_true down
    by_cases raising : ∃ id, 0 < id ∧ id < a.size ∧ a.controlOf id = .serving .raise
    · obtain ⟨id, pos, inside, now⟩ := raising
      obtain ⟨b, errand, -, barrier, -⟩ := waits.serve calm pos inside now
        (b := a.barrier.abort) (x := popping) rfl (by rintro ⟨⟩) rfl fun _ => rfl
      obtain ⟨e, works, returned⟩ := again errand.waits errand.calm (errand.drains ▸ room)
        (errand.round.trans opened) (fun q => empty_of_perm (errand.queues q) (empty q))
        (.inl (by rw [barrier]; rfl))
      exact ⟨e, errand.works.trans works, returned⟩
    · refine waits.finishes calm ⟨opened, down, empty, fun id pos inside => .inr ⟨?_, ?_, ?_⟩⟩
        unclosed
      · exact waits.engaged opened down pos inside (noted id pos (abides.size ▸ inside))
      · exact fun now => raising ⟨id, pos, inside, now⟩
      · exact noted id pos (abides.size ▸ inside)

/-- The owner comes out of the barrier, or takes a task, when a round is open and there is no task
in the queue of any other worker. -/
theorem Waits.settles_open (waits : Waits m) (calm : m.Calm) (room : m.drains + 1 < 2 ^ 32)
    (opened : m.round? = some round) (empty : ∀ q, 0 < q → m.world.queue q = [])
    {goal : Machine → Prop} : Attains m goal := by
  by_cases full : m.world.queue 0 = []
  · obtain ⟨a, works, returned⟩ := waits.settles_empty calm room opened fun q =>
      (Nat.eq_zero_or_pos q).elim (fun own => own ▸ full) (empty q)
    exact ⟨a, works, .inl returned⟩
  · refine (waits.closing calm opened (.inr (.inl full))).keeps.bind fun a waits calm there => ?_
    obtain ⟨-, same, -, control⟩ := there
    exact waits.fetches calm waits.inside control fun empty =>
      full (empty_of_perm (same 0).symm empty)

/-- The owner comes out of the barrier, or somebody gets a task, when nobody is busy. -/
theorem Waits.settles (waits : Waits m) (calm : m.Calm) (room : m.drains + 1 < 2 ^ 32)
    {goal : Machine → Prop} : Attains m goal := by
  by_cases full : ∃ q, 0 < q ∧ m.world.queue q ≠ []
  · obtain ⟨q, pos, full⟩ := full
    by_cases inside : q < m.size
    · exact waits.fetches_own calm pos inside full
    · exact absurd (queue_outside (Nat.le_of_not_lt inside)) full
  · have empty : ∀ q, 0 < q → m.world.queue q = [] := fun q pos => by
      by_contra some
      exact full ⟨q, pos, some⟩
    have opens : ∀ {a}, Opens m a → Attains m goal := by
      intro a opens
      obtain ⟨round, opened, -⟩ := opens.opened
      refine opens.before (opens.waits.settles_open opens.calm (opens.drains ▸ room) opened
        fun q pos => ?_)
      rw [opens.world, empty q pos]
    cases opened : m.round? with
    | some round => exact waits.settles_open calm room opened empty
    | none =>
        rcases waits.owner_of_closed calm opened with now | now | ⟨r, now | now⟩
        · by_cases own : m.world.queue 0 = []
          · obtain ⟨a, works, returned⟩ := waits.reopens calm room opened now fun q =>
              (Nat.eq_zero_or_pos q).elim (fun zero => zero ▸ own) (empty q)
            exact ⟨a, works, .inl returned⟩
          · exact waits.fetches calm waits.inside now own
        · obtain ⟨a, opened, -⟩ := waits.opens_read calm now
          exact opens opened
        · obtain ⟨a, opened, -⟩ := waits.opens_clear calm now
          exact opens opened
        · obtain ⟨a, opened, -⟩ := waits.opens_announce calm now
          exact opens opened

/-! ## When somebody is busy -/

/-- Who is busy looks for a task in a queue, or runs one. -/
theorem atWork_of_busy {x : Control} (busy : x.Busy) : x.AtWork := by
  cases x with
  | popping | stealing | executing => trivial
  | _ => exact busy.elim

/-- No act that breaks work off is ahead of a worker if none is ahead of the pool. -/
theorem breaks_le_cost (inside : id < m.size) : (m.controlOf id).cost.breaks ≤ m.cost.breaks := by
  rw [cost, ← Finset.add_sum_erase _ _ (Finset.mem_range.2 inside)]
  simp only [Cost.add_breaks]
  omega

/-- Somebody who is busy goes on, after which less is ahead of the pool. -/
theorem Waits.works_off (waits : Waits m) (room : m.drains + m.due < 2 ^ 32) (inside : id < m.size)
    (busy : (m.controlOf id).Busy) :
    ∃ a, m.Works a ∧ (a.Returned ∨
      Waits a ∧ a.cost.Below m.cost ∧ a.drains + a.due ≤ m.drains + m.due) := by
  obtain ⟨past, orderly⟩ := waits.orderly
  obtain ⟨id, inside, busy, unstuck⟩ :=
    waits.rounds.exists_unstuck waits.sound orderly waits.awaiting inside busy
  have none := waits.returns ▸ breaks_le_cost (m := m) inside
  obtain ⟨a, stepped, up, below⟩ := waits.sound.advances inside orderly.sound busy unstuck waits.up
    (Nat.le_zero.1 none)
    fun victim p rest now => waits.crew.visited id victim p rest now victim List.mem_cons_self
  have unserving : ∀ s, m.controlOf id ≠ .serving s := fun s now => by rw [now] at busy; exact busy
  have unleading : ∀ l, m.controlOf id ≠ .leading l := fun l now => by rw [now] at busy; exact busy
  have goes := waits.sound.next stepped unserving unleading
  have works : m.Works a := Works.refl.step inside stepped
  have stays : a.Returned ∨
      (a.controlOf 0).awaiting = true ∧ a.drains + a.due ≤ m.drains + m.due := by
    by_cases own : id = 0
    · subst own
      cases waits.sound.ownStep orderly waits.awaiting (atWork_of_busy busy) stepped with
      | works working awaiting same due =>
          exact .inr ⟨awaiting, by rw [same]; exact Nat.add_le_add_left (due busy) _⟩
      | leads now more due =>
          refine .inr ⟨by rw [now]; rfl, ?_⟩
          have one : a.due = 1 := by rw [Machine.due, now]
          rw [more, due busy, one]
      | returns _ _ returned => exact .inl returned
      | overflows _ full due =>
          rw [due busy] at room
          omega
    · have control := (waits.sound.step stepped).others 0 (Ne.symm own)
      rw [control, drains_congr (goes.duty 0 (.inl (Ne.symm own))), due, due, control]
      exact .inr ⟨waits.awaiting, Nat.le_refl _⟩
  refine ⟨a, works, ?_⟩
  rcases stays with returned | ⟨awaiting, due⟩
  · exact .inl returned
  · have fewer := below.1
    rw [waits.returns] at fewer
    exact .inr ⟨waits.works works awaiting up (Nat.le_zero.1 fewer), below, due⟩

/-! ## The end of the wait -/

/-- An owner that waits at the barrier can come out of it, if it can count the drains that are
due. -/
theorem Waits.exists_returned (waits : Waits m) (room : m.drains + m.due < 2 ^ 32) :
    ∃ a, m.Works a ∧ a.Returned := by
  generalize ahead : m.cost = cost
  induction cost using Cost.Below.induction generalizing m with
  | step cost ih =>
      subst ahead
      by_cases calm : m.Calm
      · rw [waits.due_eq calm] at room
        have settles : Attains m fun _ => False := waits.settles calm room
        obtain ⟨a, works, reached⟩ := settles
        obtain returned | ⟨waits', drains, ⟨-, below, due⟩ | ⟨-, -, -, never⟩⟩ := reached
        · exact ⟨a, works, returned⟩
        · obtain ⟨b, works', returned⟩ := ih a.cost below waits' (by rwa [drains, due]) rfl
          exact ⟨b, works.trans works', returned⟩
        · exact never.elim
      · simp only [Calm, not_forall, not_not] at calm
        obtain ⟨id, inside, busy⟩ := calm
        obtain ⟨a, works, returned | ⟨waits', below, due⟩⟩ := waits.works_off room inside busy
        · exact ⟨a, works, returned⟩
        · obtain ⟨b, works', returned⟩ :=
            ih a.cost below waits' (Nat.lt_of_le_of_lt due room) rfl
          exact ⟨b, works.trans works', returned⟩

/-! ## The flag -/

/-- Only the owner takes the flag down, when it opens a round. -/
theorem Rounds.raised_move (rounds : m.Rounds) (sound : m.Sound) {mv : Move}
    (moved : m.move mv = some after) (raised : m.barrier.aborted = true) :
    after.barrier.aborted = true ∨
      ∃ round, m.controlOf 0 = .leading (.clear round) ∧ m.step 0 = some after := by
  cases rounds.takes sound moved with
  | attends _ _ attends =>
      cases attends with
      | raises => exact .inl rfl
      | _ => exact .inl raised
  | heads _ now stepped heads =>
      cases heads with
      | clears => exact .inr ⟨_, now, stepped⟩
      | _ => exact .inl raised
  | outside outside => exact .inl (outside.barrier ▸ raised)

variable {l : Launch} {vocabulary : Access.Vocabulary} {handles callers : Nat}
  {references : Array HandleId}

/-- The flag stays raised until the owner opens the next round. -/
theorem Reaches.raised (reached : (l.opening vocabulary handles callers references).Reaches m)
    (further : m.Reaches after) (raised : m.barrier.aborted = true) :
    after.barrier.aborted = true ∨ ∃ a b round, m.Reaches a ∧
      a.controlOf 0 = .leading (.clear round) ∧ a.step 0 = some b ∧ b.Reaches after := by
  induction further with
  | refl => exact .inl raised
  | @turn a b mv further moved ih =>
      rcases ih with up | ⟨x, y, round, before, now, cleared, rest⟩
      · obtain ⟨past, run⟩ := (reached.trans further).exists_runs
        refine (run.rounds.raised_move run.orderly.1 moved up).imp_right ?_
        rintro ⟨round, now, cleared⟩
        exact ⟨a, b, round, further, now, cleared, .refl⟩
      · exact .inr ⟨x, y, round, before, now, cleared, rest.turn mv moved⟩

/-! ## Runs -/

/-- In a pool with no more workers than a word can count beside the owner, after every run in which
the drains of every call of the barrier could be counted:

an owner that waits at the barrier can come out of it by turns of its own and of the workers, unless
work is broken off, if it can count the drains that are due;

a worker that has seen the open round and takes no part in it any more has left the flag raised;

and a flag that is raised stays raised until the owner opens the next round. -/
theorem Counts.barrier_returns (few : l.size ≤ Word.maxJoined + 1)
    (counts : (l.opening vocabulary handles callers references).Counts m) :
    ((m.controlOf 0).awaiting = true → m.crash = none → m.cost.breaks = 0 →
      m.drains + m.due < 2 ^ 32 → ∃ a, m.Works a ∧ a.Returned) ∧
    (∀ id, 0 < id → id < m.size → m.round? = some (m.seenOf id) →
      (m.controlOf id).engaged = false → m.barrier.aborted = true) ∧
    ∀ after, m.Reaches after → m.barrier.aborted = true →
      after.barrier.aborted = true ∨ ∃ a b round, m.Reaches a ∧
        a.controlOf 0 = .leading (.clear round) ∧ a.step 0 = some b ∧ b.Reaches after := by
  refine ⟨fun awaiting up returns room => ?_, fun id pos inside opened left => ?_,
    fun after further raised => ?_⟩
  · exact Waits.exists_returned ⟨⟨l, vocabulary, handles, callers, references, few, counts⟩,
      awaiting, up, returns⟩ room
  · obtain ⟨c, laps⟩ := counts.exists_laps few
    refine (laps.stays id pos inside opened).resolve_left ?_
    rw [left]
    exact Bool.false_ne_true
  · obtain ⟨past, run⟩ := counts.exists_runs
    exact run.reaches.raised further raised

/-- A worker of a pool of two sees the open round, finds a task in its own queue, raises the flag
and leaves; the owner that leads the round can come out of the barrier. -/
theorem Counts.barrier_returns_after_abort :
    ∃ m, (smallPool ⟨2, by decide⟩).Counts m ∧ m.round? = some (m.seenOf 1) ∧
      m.barrier.aborted = true ∧ m.world.queue 1 ≠ [] ∧ ∃ a, m.Works a ∧ a.Returned := by
  have start : (smallPool ⟨2, by decide⟩).Counts (smallPool ⟨2, by decide⟩) := .refl
  obtain ⟨m, counts, seen⟩ := start.exists_of_steadily
    (.spawn 0 { writeTask with pin := some 1 } ::
      (steps 0 9 ++ .lead :: (steps 0 4 ++ steps 1 5)))
    (fun m => (m.controlOf 0).awaiting ∧ m.crash.isNone ∧ m.cost.breaks = 0 ∧ m.size = 2 ∧
      m.drains + m.due < 2 ^ 32 ∧ m.round? = some (m.seenOf 1) ∧
      (m.controlOf 1).engaged = false ∧ (m.world.queue 1).isEmpty = false) (by decide +kernel)
  obtain ⟨awaiting, up, returns, size, room, opened, left, full⟩ := of_decide_eq_true seen
  obtain ⟨comes, stays, -⟩ := counts.barrier_returns (by decide)
  refine ⟨m, counts, opened, stays 1 Nat.one_pos (by omega) opened left, ?_,
    comes awaiting (Option.isNone_iff_eq_none.1 up) returns room⟩
  rintro empty
  rw [empty] at full
  cases full

end Machine

end AccessOrder.Pool
