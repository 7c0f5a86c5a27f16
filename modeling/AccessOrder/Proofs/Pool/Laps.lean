/- # Laps

How many rounds have been opened in the course of a run, and how many of them when a worker last
found one open.  The number of a round comes round after 2^32 rounds.  But the owner comes out of
the barrier only after a round that every worker has seen, and it counts the drains of a call, with
one round after each; so as long as it can count them, less than 2^32 rounds lie between the last
round that a worker has found open and the one that is opened, and the worker takes no round for one
that it has seen.

* `Rounds.margin_move` : a turn outside of the rounds leaves the workers no further behind than the
  owner has counted;
* `Laps.move` : what holds of the counts and the rounds is kept by every turn in which the drains
  can be counted;
* `Counts.exists_laps` : it holds after every run in which they can.
-/
import AccessOrder.Proofs.Pool.Attendance
import AccessOrder.Proofs.Pool.Drains
namespace AccessOrder.Pool

open Barrier (Word Phase)
open Function (update)

/-- What is counted in the course of a run. -/
structure Count where
  /-- How many rounds have been opened. -/
  opened : Nat
  /-- How many had been opened when a worker last found a round open. -/
  noted : WorkerId → Nat

/-- The round that is open. -/
def Machine.round? (m : Machine) : Option UInt32 :=
  match m.barrier.load with
  | .ok w => if w.phase = .idle then none else some w.round
  | .error _ => none

/-- Nothing has been counted yet. -/
def Count.zero : Count := ⟨0, fun _ => 0⟩

/-- The machines that turns lead to, as long as the drains of every call of the barrier can be
counted. -/
inductive Machine.Counts (m : Machine) : Machine → Prop where
  | refl : Counts m m
  | turn {a b : Machine} (mv : Move) : Counts m a → a.move mv = some b →
      b.controlOf 0 ≠ .failed .drainsUncounted → Counts m b

/-- Less than how many rounds a worker may have missed while the owner, which has counted so many
drains, is in the middle of something: one while the owner is not at the barrier, or is about to
come out of it; and while a round is about to be opened, its drain has been counted already. -/
def Control.margin (drains : Nat) : Control → Nat
  | .leading .read | .leading (.clear _) | .leading (.announce _) => drains
  | .leading (.close _ true) => 1
  | .leading _ | .popping _ | .executing _ => drains + 1
  | _ => 1

/-! ## Words -/

/-- A worker may join a round that is being entered if not all have joined it yet. -/
theorem joined_of_entering {raw : UInt64} {w : Word} {participants : Nat}
    (read : Word.unpack raw = .ok w) (entering : w.phase = .entering)
    (room : w.joined.toNat < participants) (few : participants ≤ Word.maxJoined) :
    ∃ next w', Barrier.State.joined raw w.round participants = .ok (some next) ∧
      Word.unpack next = .ok w' ∧ w'.round = w.round ∧ w'.joined.toNat = w.joined.toNat + 1 ∧
      (w'.phase = .entering → w'.joined.toNat < participants) := by
  obtain ⟨round, phase, count⟩ := w
  cases entering
  have within : count.toNat < Word.maxJoined := Nat.lt_of_lt_of_le room few
  obtain ⟨next, joined, written⟩ := Barrier.State.exists_joined read within participants
  refine ⟨next, _, joined, written, rfl, Barrier.State.toNat_succ within, fun still => ?_⟩
  show (count + 1).toNat < participants
  rw [Barrier.State.toNat_succ within]
  exact Nat.lt_of_le_of_ne room (Barrier.State.phaseAt_eq_entering_iff.1 still)

namespace Machine

variable {m after : Machine} {id : WorkerId} {round : UInt32} {c : Count}

/-- A round is open when the word tells one. -/
theorem round?_eq_some : m.round? = some round ↔
    ∃ w, m.barrier.load = .ok w ∧ w.phase ≠ .idle ∧ w.round = round := by
  unfold round?
  cases m.barrier.load with
  | error f => simp
  | ok w => by_cases idle : w.phase = .idle <;> simp [idle]

/-- No round is open when the word is idle. -/
theorem round?_eq_none {w : Word} (loaded : m.barrier.load = .ok w) (idle : w.phase = .idle) :
    m.round? = none := by
  rw [round?, loaded]
  exact if_pos idle

/-- An open round is led by the owner. -/
theorem Rounds.opened_of_round (rounds : m.Rounds) (led : m.Led (m.controlOf 0))
    (opened : m.round? = some round) :
    (∃ l, m.controlOf 0 = .leading l ∧ l.round? = some round) ∧ m.Opened round := by
  have stage := rounds.stage
  have never : ¬m.Closed := by
    rintro ⟨w, loaded, idle⟩
    rw [round?_eq_none loaded idle] at opened
    cases opened
  cases now : m.controlOf 0 with
  | leading l =>
      rw [now] at stage led
      have here : ∀ {r}, l.round? = some r → l.round? = some round ∧ m.Opened round := by
        intro r own
        obtain ⟨w, loaded, at', open', rest⟩ := led.opened own
        obtain ⟨w', loaded', -, same⟩ := round?_eq_some.1 opened
        rw [loaded] at loaded'
        cases loaded'
        obtain rfl : r = round := at'.symm.trans same
        exact ⟨own, w, loaded, at', open', rest⟩
      cases l with
      | read | clear | announce => exact absurd stage never
      | _ =>
          obtain ⟨own, opened⟩ := here rfl
          exact ⟨⟨_, rfl, own⟩, opened⟩
  | popping p =>
      rw [now] at stage
      exact absurd stage.1 never
  | _ =>
      rw [now] at stage
      exact absurd stage never

/-! ## Room -/

/-- The word makes sense, and as long as it lets workers join not all have joined yet. -/
def Room (m : Machine) : Prop :=
  ∃ w, m.barrier.load = .ok w ∧ (w.phase = .entering → w.joined.toNat < m.participants)

/-- A worker makes sense of a word that has room for it. -/
theorem Room.unbaffled (room : m.Room) (few : m.participants ≤ Word.maxJoined) (s : Service) :
    ¬m.Baffles s := by
  obtain ⟨w, loaded, room⟩ := room
  have read : Word.unpack m.barrier.word = .ok w := loaded
  rintro (⟨f, failed⟩ | ⟨round, f, -, failed⟩)
  · rw [failed] at loaded
    cases loaded
  · by_cases entering : w.round = round ∧ w.phase = .entering
    · obtain ⟨rfl, entering⟩ := entering
      obtain ⟨next, w', joined, -⟩ := joined_of_entering read entering (room entering) few
      rw [joined] at failed
      cases failed
    · rw [Barrier.State.joined_eq read, if_neg entering] at failed
      cases failed

/-- There is still room if the word and the number of workers are the same. -/
theorem Room.congr (room : m.Room) (word : after.barrier.word = m.barrier.word)
    (size : after.size = m.size) : after.Room := by
  obtain ⟨w, loaded, room⟩ := room
  refine ⟨w, ?_, ?_⟩
  · rwa [Barrier.State.load, word]
  · rwa [participants, size]

/-- The word with which a worker joins a round counts one worker more, and leaves room for the
others. -/
theorem Room.joins (room : m.Room) (few : m.participants ≤ Word.maxJoined) (swaps : m.Swaps)
    {next : UInt64} (now : m.controlOf id = .serving (.swap round m.barrier.word next)) :
    ∃ w w', m.barrier.load = .ok w ∧ w.round = round ∧ w.phase = .entering ∧
      Word.unpack next = .ok w' ∧ w'.round = round ∧ w'.joined.toNat = w.joined.toNat + 1 ∧
      (w'.phase = .entering → w'.joined.toNat < m.participants) := by
  obtain ⟨w, loaded, room⟩ := room
  obtain ⟨u, -, read, rfl, entering, -⟩ := joined_eq_ok_some (swaps _ _ _ _ now)
  rw [show Word.unpack m.barrier.word = .ok w from loaded] at read
  cases read
  obtain ⟨next', w', joined, written⟩ := joined_of_entering loaded entering (room entering) few
  obtain rfl : next' = next := by
    have both := joined.symm.trans (swaps _ _ _ _ now)
    simpa using both
  exact ⟨w, w', loaded, rfl, entering, written⟩

/-- A turn of a worker in a barrier round leaves room. -/
theorem Attends.room {s : Service} (attends : m.Attends id s after) (room : m.Room)
    (few : m.participants ≤ Word.maxJoined) (swaps : m.Swaps) (now : m.controlOf id = .serving s) :
    after.Room := by
  cases attends with
  | passes | notes | goes | leaves | raises | fails => exact room.congr rfl rfl
  | joins =>
      obtain ⟨-, w', -, -, -, written, -, -, room'⟩ := room.joins few swaps now
      exact ⟨w', written, room'⟩

/-- A step of the leader in a round leaves room. -/
theorem Heads.room {l : Lead} (heads : m.Heads l after) (room : m.Room)
    (peopled : m.participants ≠ 0) : after.Room := by
  cases heads with
  | reads | clears | goes | fails => exact room.congr rfl rfl
  | announces =>
      exact ⟨_, Barrier.State.unpack_fresh _ .entering, fun _ => Nat.pos_of_ne_zero peopled⟩
  | closes => exact ⟨_, Barrier.State.unpack_fresh _ .idle, by rintro ⟨⟩⟩

/-- Every turn leaves room. -/
theorem Room.move (room : m.Room) (sound : m.Sound) (rounds : m.Rounds) (crew : m.Crew)
    (few : m.participants ≤ Word.maxJoined) {mv : Move} (moved : m.move mv = some after) :
    after.Room := by
  cases rounds.takes sound moved with
  | attends now _ attends => exact attends.room room few rounds.swaps now
  | heads _ now _ heads => exact heads.room room (crew.peopled _ now)
  | outside outside => exact room.congr (congrArg _ outside.barrier) (size_of_move moved)

/-! ## How far behind the workers are -/

/-- No worker has missed more rounds than the owner has drained its queue. -/
theorem margin_le (drains : Nat) (x : Control) : x.margin drains ≤ drains + 1 := by
  unfold Control.margin
  split <;> omega

/-- Nothing has been missed while the owner is not at the barrier. -/
theorem margin_of_unawaiting {x : Control} (outside : x.awaiting = false) (drains : Nat) :
    x.margin drains = 1 := by
  cases x <;> first | rfl | cases outside

/-- Less than how many rounds a worker may have missed. -/
def margin (m : Machine) : Nat := (m.controlOf 0).margin m.drains

/-- A turn that leaves the owner where it is, with what it has counted. -/
theorem margin_congr (control : after.controlOf 0 = m.controlOf 0)
    (duty : after.dutyOf 0 = m.dutyOf 0) : m.margin ≤ after.margin := by
  rw [margin, margin, control, drains_congr duty]

/-- An owner that takes a task or runs one leaves the workers no further behind. -/
theorem OwnStep.margin (own : m.OwnStep after) (peopled : m.participants ≠ 0)
    (counts : after.controlOf 0 ≠ .failed .drainsUncounted) : m.margin ≤ after.margin := by
  have before : m.margin ≤ m.drains + 1 := margin_le _ _
  cases own with
  | works working awaiting same =>
      have here : after.margin = after.drains + 1 := by
        rw [Machine.margin]
        cases now : after.controlOf 0 with
        | popping | executing => rfl
        | stealing =>
            rw [now] at awaiting
            cases awaiting
        | _ =>
            rw [now] at working
            cases working
      rwa [here, same]
  | leads now more =>
      have here : after.margin = after.drains := by rw [Machine.margin, now]; rfl
      rwa [here, more]
  | returns alone => exact absurd alone peopled
  | overflows failed => exact absurd failed counts

/-- An owner that works on its own leaves the workers no further behind. -/
theorem Rounds.margin_step (rounds : m.Rounds) (sound : m.Sound) {past : List Moment}
    (orderly : Orderly past m.world m.hands) (peopled : m.participants ≠ 0)
    (stepped : m.step 0 = some after) (unleading : ∀ l, m.controlOf 0 ≠ .leading l)
    (counts : after.controlOf 0 ≠ .failed .drainsUncounted) : m.margin ≤ after.margin := by
  by_cases awaiting : (m.controlOf 0).awaiting = true
  · have own := sound.ownStep orderly awaiting (atWork_of_awaiting awaiting unleading) stepped
    exact own.margin peopled counts
  · have next := (sound.next stepped rounds.unserving unleading).next
    have owned := rounds.owned
    rw [margin, margin_of_unawaiting (Bool.eq_false_of_not_eq_true awaiting), margin]
    generalize m.controlOf 0 = x at next owned awaiting
    generalize after.controlOf 0 = y at next
    cases next with
    | failed | submitting | submitted => exact Nat.le_refl _
    | same =>
        rw [margin_of_unawaiting (Bool.eq_false_of_not_eq_true awaiting)]
    | looping | stopped | leaving | serving | stealing | stolen | visiting => exact owned.elim
    | popping | popped | searching | finished | leading | executing | executed =>
        exact absurd rfl awaiting

/-- A turn outside of the rounds leaves the workers no further behind than the owner has counted. -/
theorem Rounds.margin_move (rounds : m.Rounds) (sound : m.Sound) {past : List Moment}
    (orderly : Orderly past m.world m.hands) (peopled : m.participants ≠ 0) {mv : Move}
    (moved : m.move mv = some after) (outside : m.Outside mv.actor after)
    (counts : after.controlOf 0 ≠ .failed .drainsUncounted) : m.margin ≤ after.margin := by
  have others := (sound.move moved).others
  cases move_cases moved with
  | @step id _ admitted stepped =>
      by_cases own : id = 0
      · subst own
        exact rounds.margin_step sound orderly peopled stepped outside.unleading counts
      · have goes := sound.next stepped outside.unserving outside.unleading
        exact margin_congr (others 0 (Ne.symm own)) (goes.duty 0 (.inl (Ne.symm own)))
  | miss now => exact absurd now (outside.unserving _)
  | @call _ before x c now calls =>
      have duty : (x.setControl mv.actor c).dutyOf 0 = m.dutyOf 0 :=
        (dutyOf_setControl x _ 0 c).trans ((calls.passes sound.toBase).duty 0)
      by_cases own : mv.actor = 0
      · have next := calls.controlOf_after now sound.toBase
        obtain ⟨free, freed⟩ := calls.outcome
        rw [own] at now next
        rw [margin, margin, now, margin_of_unawaiting free, own, next,
          margin_of_unawaiting (by rcases freed with rfl | ⟨s, rfl⟩ <;> rfl)]
      · exact margin_congr (others 0 (Ne.symm own)) duty
  | start => exact margin_congr rfl rfl
  | stop => exact margin_congr rfl rfl
  | lead exclusive =>
      obtain ⟨-, ⟨here, away⟩, -⟩ := exclusive_cases exclusive
      rw [margin, margin, away, controlOf_enterBarrier here]
      exact Nat.succ_le_succ (Nat.zero_le _)

/-! ## The invariant -/

/-- What holds of the counts and the rounds while the drains of every call can be counted. -/
structure Laps (c : Count) (m : Machine) : Prop where
  /-- The word tells the last round that has been opened, and that not all have joined it yet. -/
  word : ∃ w, m.barrier.load = .ok w ∧ w.round.toNat = c.opened % 2 ^ 32 ∧
    (w.phase = .entering → w.joined.toNat < m.participants)
  /-- Every worker has seen the last round that it has found open. -/
  noted : ∀ id, 0 < id → id < m.size →
    c.noted id ≤ c.opened ∧ (m.seenOf id).toNat = c.noted id % 2 ^ 32
  /-- No worker has missed more rounds than the owner has led in its call. -/
  pace : ∀ id, 0 < id → id < m.size → c.opened < c.noted id + m.margin
  /-- Who takes part in a round has seen it. -/
  own : ∀ id s r, m.controlOf id = .serving s → s.round? = some r → m.seenOf id = r
  /-- Who has seen the open round takes part in it, or the flag is raised. -/
  stays : ∀ id, 0 < id → id < m.size → m.round? = some (m.seenOf id) →
    (m.controlOf id).engaged = true ∨ m.barrier.aborted = true
  /-- All who wait for the end of the open round are counted. -/
  counted : ∀ w, m.barrier.load = .ok w → w.phase ≠ .idle → ∀ ids : List WorkerId, ids.Nodup →
    (∀ id ∈ ids, 0 < id ∧ id < m.size ∧ (m.controlOf id).Watches w.round) →
    ids.length ≤ w.joined.toNat
  /-- As many as are counted have seen the open round, and are not about to join it. -/
  enlisted : ∀ w, m.barrier.load = .ok w → w.phase ≠ .idle → ∃ ids : List WorkerId, ids.Nodup ∧
    w.joined.toNat ≤ ids.length ∧ ∀ id ∈ ids, 0 < id ∧ id < m.size ∧ m.seenOf id = w.round ∧
      ¬(m.controlOf id).Enters

/-- No worker is lapped: less than 2^32 rounds have been opened since it last found one open. -/
theorem Laps.near (laps : Laps c m) (pos : 0 < id) (inside : id < m.size) :
    c.opened < c.noted id + 2 ^ 32 := by
  have missed := laps.pace id pos inside
  have most : m.margin ≤ m.drains + 1 := margin_le _ _
  have few := m.drains_lt
  omega

/-- Whether an open round is the last one that a worker has found open is told by its number. -/
theorem Laps.noted_of_seen (laps : Laps c m) (pos : 0 < id) (inside : id < m.size)
    (opened : m.round? = some (m.seenOf id)) : c.noted id = c.opened := by
  obtain ⟨w, loaded, at', -⟩ := laps.word
  obtain ⟨w', loaded', -, same⟩ := round?_eq_some.1 opened
  rw [loaded] at loaded'
  cases loaded'
  obtain ⟨before, seen⟩ := laps.noted id pos inside
  have near := laps.near pos inside
  rw [← same, at'] at seen
  omega

/-- Every worker has found the open round open when all have joined it. -/
theorem Laps.noted_of_draining (laps : Laps c m) (opened : m.Opened round)
    (drains : m.Draining round) (pos : 0 < id) (inside : id < m.size) :
    c.noted id = c.opened := by
  obtain ⟨w, loaded, at', draining, -⟩ := drains
  obtain ⟨w', loaded', -, active, all, -⟩ := opened
  rw [loaded] at loaded'
  cases loaded'
  obtain ⟨ids, nodup, many, members⟩ := laps.enlisted w loaded active
  have mem := mem_of_many nodup (Nat.le_trans (all draining) many)
    (fun o mem => ⟨(members o mem).1, (members o mem).2.1⟩) pos inside
  exact laps.noted_of_seen pos inside
    (round?_eq_some.2 ⟨w, loaded, active, (members id mem).2.2.1.symm⟩)

/-- The word leaves room for those who have not joined yet. -/
theorem Laps.room (laps : Laps c m) : m.Room := by
  obtain ⟨w, loaded, -, room⟩ := laps.word
  exact ⟨w, loaded, room⟩

/-- A worker makes sense of every word that it comes upon. -/
theorem Laps.unbaffled (laps : Laps c m) (few : m.participants ≤ Word.maxJoined) (s : Service) :
    ¬m.Baffles s := laps.room.unbaffled few s

/-- How far behind the workers are after a turn that leaves them no further behind. -/
theorem Laps.pace_of_margin (laps : Laps c m)
    (margin : m.participants ≠ 0 → m.margin ≤ after.margin) (pos : 0 < id) (inside : id < m.size) :
    c.opened < c.noted id + after.margin := by
  have peopled : m.participants ≠ 0 := Nat.sub_ne_zero_of_lt (Nat.lt_of_le_of_lt pos inside)
  have missed := laps.pace id pos inside
  have more := margin peopled
  omega

/-- A turn that leaves the barrier and what everyone has seen alone. -/
theorem Laps.aside (laps : Laps c m) (barrier : after.barrier = m.barrier)
    (size : after.size = m.size) (seen : ∀ o, after.seenOf o = m.seenOf o)
    (others : ∀ o ≠ id, after.controlOf o = m.controlOf o)
    (pace : ∀ o, 0 < o → o < m.size → c.opened < c.noted o + after.margin)
    (own : ∀ s r, after.controlOf id = .serving s → s.round? = some r → m.seenOf id = r)
    (watches : ∀ r, (after.controlOf id).Watches r → (m.controlOf id).Watches r)
    (enters : (after.controlOf id).Enters → (m.controlOf id).Enters)
    (stays : 0 < id → id < m.size → m.round? = some (m.seenOf id) →
      (m.controlOf id).engaged = true →
        (after.controlOf id).engaged = true ∨ m.barrier.aborted = true) : Laps c after where
  word := by
    rw [barrier, participants, size]
    exact laps.word
  noted o pos inside := by
    rw [seen]
    exact laps.noted o pos (size ▸ inside)
  pace o pos inside := pace o pos (size ▸ inside)
  own o s r now stage := by
    rw [seen]
    by_cases same : o = id
    · subst same
      exact own s r now stage
    · exact laps.own o s r (others o same ▸ now) stage
  stays o pos inside opened := by
    have opened : m.round? = some (m.seenOf o) := by
      rwa [round?, barrier, seen] at opened
    rw [size] at inside
    rw [barrier]
    rcases laps.stays o pos inside opened with engaged | raised
    · by_cases same : o = id
      · subst same
        exact stays pos inside opened engaged
      · exact .inl (others o same ▸ engaged)
    · exact .inr raised
  counted w loaded opened ids nodup watch := by
    refine laps.counted w (barrier ▸ loaded) opened ids nodup fun o mem => ?_
    obtain ⟨pos, inside, watching⟩ := watch o mem
    refine ⟨pos, size ▸ inside, ?_⟩
    by_cases same : o = id
    · subst same
      exact watches _ watching
    · exact others o same ▸ watching
  enlisted w loaded opened := by
    obtain ⟨ids, nodup, many, members⟩ := laps.enlisted w (barrier ▸ loaded) opened
    refine ⟨ids, nodup, many, fun o mem => ?_⟩
    obtain ⟨pos, inside, noted, stands⟩ := members o mem
    refine ⟨pos, size.symm ▸ inside, (seen o).trans noted, ?_⟩
    by_cases same : o = id
    · subst same
      exact fun entering => stands (enters entering)
    · rwa [others o same]

/-- A turn of someone that comes to a barrier round at the most. -/
theorem Laps.outside (laps : Laps c m) (barrier : after.barrier = m.barrier)
    (size : after.size = m.size) (seen : ∀ o, after.seenOf o = m.seenOf o)
    (others : ∀ o ≠ id, after.controlOf o = m.controlOf o)
    (pace : ∀ o, 0 < o → o < m.size → c.opened < c.noted o + after.margin)
    (unserving : ∀ s, m.controlOf id ≠ .serving s)
    (look : ∀ s, after.controlOf id = .serving s → s = .look) : Laps c after := by
  refine laps.aside barrier size seen others pace (fun s r now stage => ?_)
    (fun r watches => ?_) (fun enters => ?_) fun _ _ _ engaged => ?_
  · rw [look s now] at stage
    cases stage
  · cases now : after.controlOf id with
    | serving s =>
        rw [now, look s now] at watches
        exact watches.elim
    | _ =>
        rw [now] at watches
        exact watches.elim
  · cases now : after.controlOf id with
    | serving s =>
        rw [now, look s now] at enters
        exact enters.elim
    | _ =>
        rw [now] at enters
        exact enters.elim
  · cases now : m.controlOf id with
    | serving s => exact absurd now (unserving s)
    | _ =>
        rw [now] at engaged
        cases engaged

/-! ## Turns of a worker in a round -/

/-- Going on with something else has no bearing on what has been seen. -/
theorem seenOf_setControl (m : Machine) (id o : WorkerId) (c : Control) :
    (m.setControl id c).seenOf o = m.seenOf o := by
  rw [seenOf, traitsOf_setControl, seenOf]

/-- What has been seen once a worker has taken note of a round. -/
theorem seenOf_see (here : id < m.workers.size) (round : UInt32) (o : WorkerId) :
    (m.see id round).seenOf o = if o = id then round else m.seenOf o := by
  rw [seenOf, traitsOf_see]
  by_cases same : o = id
  · rw [if_pos ⟨same.symm, here⟩, if_pos same]
  · rw [if_neg (fun both => same both.1.symm), if_neg same, seenOf]

/-- A worker takes note of the open round. -/
theorem Laps.notes (laps : Laps c m) {w : Word} (loaded : m.barrier.load = .ok w)
    (unseen : w.round ≠ m.seenOf id) (barrier : after.barrier = m.barrier)
    (size : after.size = m.size)
    (seen : ∀ o, after.seenOf o = if o = id then w.round else m.seenOf o)
    (others : ∀ o ≠ id, after.controlOf o = m.controlOf o)
    (pace : ∀ o, 0 < o → o < m.size → c.opened < c.noted o + after.margin)
    (control : after.controlOf id = .serving (.measure w.round)) :
    Laps { c with noted := update c.noted id c.opened } after := by
  obtain ⟨u, loaded', at', room⟩ := laps.word
  rw [loaded] at loaded'
  cases loaded'
  refine ⟨⟨w, barrier ▸ loaded, at', ?_⟩, fun o pos inside => ?_, fun o pos inside => ?_,
    fun o s r now stage => ?_, fun o pos inside opened => ?_,
    fun w loaded opened ids nodup watch => ?_, fun w' loaded' opened => ?_⟩
  · rwa [participants, size]
  · show update c.noted id c.opened o ≤ c.opened ∧ _ = update c.noted id c.opened o % 2 ^ 32
    rw [seen, Function.update_apply]
    split
    · exact ⟨Nat.le_refl _, at'⟩
    · exact laps.noted o pos (size ▸ inside)
  · have missed := pace o pos (size ▸ inside)
    have before := (laps.noted o pos (size ▸ inside)).1
    show c.opened < update c.noted id c.opened o + _
    rw [Function.update_apply]
    split <;> omega
  · rw [seen]
    split
    · next own =>
      rw [own, control] at now
      cases now
      cases stage
      rfl
    · next other => exact laps.own o s r (others o other ▸ now) stage
  · by_cases own : o = id
    · rw [own, control]
      exact .inl rfl
    · rw [round?, barrier, seen, if_neg own] at opened
      rw [others o own, barrier]
      exact laps.stays o pos (size ▸ inside) opened
  · refine laps.counted w (barrier ▸ loaded) opened ids nodup fun o mem => ?_
    obtain ⟨pos, inside, watching⟩ := watch o mem
    refine ⟨pos, size ▸ inside, others o (fun own => ?_) ▸ watching⟩
    rw [own, control] at watching
    exact watching
  · rw [barrier, loaded] at loaded'
    cases loaded'
    obtain ⟨ids, nodup, many, members⟩ := laps.enlisted w loaded opened
    refine ⟨ids, nodup, many, fun o mem => ?_⟩
    obtain ⟨pos, inside, noted, stands⟩ := members o mem
    have other : o ≠ id := by
      rintro rfl
      exact unseen noted.symm
    rw [seen, if_neg other, others o other]
    exact ⟨pos, size.symm ▸ inside, noted, stands⟩

/-- A worker joins the open round. -/
theorem Laps.joins (laps : Laps c m) (few : m.participants ≤ Word.maxJoined)
    (swaps : m.Swaps) (pos : 0 < id) (inside : id < m.size) {next : UInt64}
    (now : m.controlOf id = .serving (.swap round m.barrier.word next))
    (barrier : after.barrier = { m.barrier with word := next }) (size : after.size = m.size)
    (seen : ∀ o, after.seenOf o = m.seenOf o)
    (others : ∀ o ≠ id, after.controlOf o = m.controlOf o)
    (pace : ∀ o, 0 < o → o < m.size → c.opened < c.noted o + after.margin)
    (control : after.controlOf id = .serving (.watchWord round)) : Laps c after := by
  obtain ⟨w, w', loaded, rfl, entering, written, same, count, room'⟩ :=
    laps.room.joins few swaps now
  obtain ⟨u, loaded'', at', -⟩ := laps.word
  rw [loaded] at loaded''
  cases loaded''
  have loaded' : after.barrier.load = .ok w' := by
    rw [barrier]
    exact written
  have flag : after.barrier.aborted = m.barrier.aborted := by rw [barrier]
  have active : w.phase ≠ .idle := by
    rw [entering]
    rintro ⟨⟩
  have open' : m.round? = some w.round := round?_eq_some.2 ⟨w, loaded, active, rfl⟩
  refine ⟨⟨w', loaded', same.symm ▸ at', ?_⟩, fun o pos inside => ?_, fun o pos inside => ?_,
    fun o s r is stage => ?_, fun o pos inside opened => ?_,
    fun u loaded'' opened ids nodup watch => ?_, fun u loaded'' opened => ?_⟩
  · rwa [participants, size]
  · rw [seen]
    exact laps.noted o pos (size ▸ inside)
  · exact pace o pos (size ▸ inside)
  · rw [seen]
    by_cases own : o = id
    · subst own
      rw [control] at is
      cases is
      exact laps.own o _ r now stage
    · exact laps.own o s r (others o own ▸ is) stage
  · by_cases own : o = id
    · rw [own, control]
      exact .inl rfl
    · rw [others o own, flag]
      refine laps.stays o pos (size ▸ inside) (open'.trans ?_)
      obtain ⟨v, read, -, at''⟩ := round?_eq_some.1 opened
      rw [loaded'] at read
      cases read
      rw [← same, at'', seen]
  · -- the worker that joins has not been counted before
    rw [loaded'] at loaded''
    cases loaded''
    have before := laps.counted w loaded active (ids.erase id) (nodup.erase id) fun o mem => by
      obtain ⟨other, mem⟩ := (nodup.mem_erase_iff).1 mem
      obtain ⟨pos, inside, watching⟩ := watch o mem
      exact ⟨pos, size ▸ inside, same ▸ others o other ▸ watching⟩
    rw [List.length_erase] at before
    split at before <;> omega
  · rw [loaded'] at loaded''
    cases loaded''
    obtain ⟨ids, nodup, many, members⟩ := laps.enlisted w loaded active
    have unlisted : id ∉ ids := fun mem => (members id mem).2.2.2 (by rw [now]; trivial)
    refine ⟨id :: ids, List.nodup_cons.2 ⟨unlisted, nodup⟩, ?_, fun o mem => ?_⟩
    · rw [List.length_cons]
      omega
    · rw [seen, same]
      rcases List.mem_cons.1 mem with rfl | mem
      · refine ⟨pos, size.symm ▸ inside, laps.own o _ _ now rfl, ?_⟩
        rw [control]
        exact not_false
      · obtain ⟨pos, inside, noted, stands⟩ := members o mem
        rw [others o fun own => unlisted (own ▸ mem)]
        exact ⟨pos, size.symm ▸ inside, noted, stands⟩

/-- A worker raises the flag. -/
theorem Laps.raises (laps : Laps c m) (barrier : after.barrier = m.barrier.abort)
    (size : after.size = m.size) (seen : ∀ o, after.seenOf o = m.seenOf o)
    (others : ∀ o ≠ id, after.controlOf o = m.controlOf o)
    (pace : ∀ o, 0 < o → o < m.size → c.opened < c.noted o + after.margin)
    (control : after.controlOf id = popping) : Laps c after where
  word := by
    rw [barrier, participants, size]
    exact laps.word
  noted o pos inside := by
    rw [seen]
    exact laps.noted o pos (size ▸ inside)
  pace o pos inside := pace o pos (size ▸ inside)
  own o s r is stage := by
    rw [seen]
    by_cases own : o = id
    · rw [own, control] at is
      cases is
    · exact laps.own o s r (others o own ▸ is) stage
  stays _ _ _ _ := by
    rw [barrier]
    exact .inr rfl
  counted w loaded opened ids nodup watch := by
    rw [barrier] at loaded
    refine laps.counted w loaded opened ids nodup fun o mem => ?_
    obtain ⟨pos, inside, watching⟩ := watch o mem
    refine ⟨pos, size ▸ inside, others o (fun own => ?_) ▸ watching⟩
    rw [own, control] at watching
    exact watching
  enlisted w loaded opened := by
    rw [barrier] at loaded
    obtain ⟨ids, nodup, many, members⟩ := laps.enlisted w loaded opened
    refine ⟨ids, nodup, many, fun o mem => ?_⟩
    obtain ⟨pos, inside, noted, stands⟩ := members o mem
    refine ⟨pos, size.symm ▸ inside, (seen o).trans noted, ?_⟩
    by_cases own : o = id
    · rw [own, control]
      exact not_false
    · rwa [others o own]

/-- Who takes part in the open round leaves it only once the flag is raised. -/
theorem Laps.aborted_of_over (laps : Laps c m) (rounds : m.Rounds) (led : m.Led (m.controlOf 0))
    {s : Service} (now : m.controlOf id = .serving s) (own : s.round? = some round)
    (reason : m.Over s round) (pos : 0 < id) (inside : id < m.size)
    (open' : m.round? = some (m.seenOf id)) : m.barrier.aborted = true := by
  obtain ⟨⟨l, leading, -⟩, opened⟩ := rounds.opened_of_round led open'
  have running := (rounds.alone (by rw [leading]; rfl)).1
  rcases reason with ⟨w, loaded, reason⟩ | raised | stopped
  · obtain ⟨w', loaded', active, same⟩ := round?_eq_some.1 open'
    rw [loaded] at loaded'
    cases loaded'
    have mine := laps.own id s round now own
    rcases reason with other | idle | ⟨draining, outside⟩
    · exact absurd (same.trans mine) other
    · exact absurd idle active
    · -- all who have joined stand in the round, and they are all there are
      obtain ⟨u, loaded', -, drains, mustered⟩ := opened.draining loaded draining
      rw [loaded] at loaded'
      cases loaded'
      by_contra down
      have stands := mustered (Bool.eq_false_of_not_eq_true down) id pos inside
      rw [now] at stands
      exact outside _ stands
  · exact raised
  · rw [running] at stopped
    cases stopped

/-- A turn of a worker in a round leaves everyone's duty alone. -/
theorem Attends.duty {s : Service} (attends : m.Attends id s after) (o : WorkerId) :
    after.dutyOf o = m.dutyOf o := by
  cases attends with
  | @notes w =>
      rw [dutyOf_setControl]
      exact dutyOf_modify (f := fun u => { u with seenRound := w.round }) (fun _ => rfl) o
  | _ => exact dutyOf_setControl _ id o _

/-- A turn of a worker in a barrier round. -/
theorem Laps.serving (laps : Laps c m) (sound : m.Sound) (rounds : m.Rounds)
    (led : m.Led (m.controlOf 0)) (few : m.participants ≤ Word.maxJoined)
    {mv : Move} (moved : m.move mv = some after) {s : Service}
    (now : m.controlOf mv.actor = .serving s) (other : mv.actor ≠ 0) :
    ∃ d, Laps d after := by
  have attends := attends_of_serving now rfl moved other
  have inside : mv.actor < m.size := by
    have seated := sound.seated mv.actor
    rwa [now] at seated
  have pos := Nat.pos_of_ne_zero other
  have here : mv.actor < m.workers.size := lt_of_controlOf (by simp [now])
  have others := (sound.move moved).others
  have pace : ∀ o, 0 < o → o < m.size → c.opened < c.noted o + after.margin := fun o =>
    laps.pace_of_margin fun _ => margin_congr (others 0 (Ne.symm other)) (attends.duty 0)
  -- the worker goes on with something else
  have goes : ∀ {d : Control}, after = m.setControl mv.actor d →
      (∀ s r, d = .serving s → s.round? = some r → m.seenOf mv.actor = r) →
      (∀ r, d.Watches r → s.Watches r) → (d.Enters → (Control.serving s).Enters) →
      (m.round? = some (m.seenOf mv.actor) → (Control.serving s).engaged = true →
        d.engaged = true ∨ m.barrier.aborted = true) → Laps c after := by
    rintro d rfl own watches enters stays
    refine laps.aside rfl rfl (fun o => seenOf_setControl m _ o d) others pace ?_ ?_ ?_ ?_
    all_goals rw [controlOf_setControl_self here]
    · exact own
    · rw [now]
      exact watches
    · rw [now]
      exact enters
    · rw [now]
      exact fun _ _ => stays
  cases attends with
  | passes =>
      exact ⟨c, goes rfl (by rintro _ _ ⟨⟩) (fun _ => id) (fun never => never.elim)
        fun _ => by rintro ⟨⟩⟩
  | notes loaded _ unseen =>
      exact ⟨_, laps.notes loaded unseen rfl rfl
        (fun o => by rw [seenOf_setControl, seenOf_see here]) others pace
        (controlOf_setControl_self ((spares_see m mv.actor _).crew ▸ here) _)⟩
  | @goes _ s' r own own' watches enters =>
      refine ⟨c, goes rfl ?_ watches enters fun _ _ => .inl ?_⟩
      · rintro _ r' ⟨⟩ stage
        rcases own' with rfl | own'
        · cases stage
        · exact laps.own _ s r' now (own.trans (own'.symm.trans stage))
      · rcases own' with rfl | own'
        · rfl
        · cases s' <;> first | rfl | cases own'
  | leaves own reason =>
      exact ⟨c, goes rfl (by rintro _ _ ⟨⟩) (fun _ => False.elim) (fun never => never.elim)
        fun open' _ => .inr (laps.aborted_of_over rounds led now own reason pos inside open')⟩
  | raises =>
      exact ⟨c, laps.raises rfl rfl (fun o => seenOf_setControl _ _ o _) others pace
        (controlOf_setControl_self (by exact here) _)⟩
  | joins =>
      exact ⟨c, laps.joins few rounds.swaps pos inside now rfl rfl
        (fun o => seenOf_setControl _ _ o _) others pace
        (controlOf_setControl_self (by exact here) _)⟩
  | fails f baffles => exact absurd baffles (laps.unbaffled few s)

/-! ## Turns of the owner in a round -/

/-- The number of the round that is opened, if it is the next one. -/
theorem Laps.toNat_next (laps : Laps c m) {w : Word} (loaded : m.barrier.load = .ok w) :
    (w.round + 1).toNat = (c.opened + 1) % 2 ^ 32 := by
  obtain ⟨w', loaded', at', -⟩ := laps.word
  rw [loaded] at loaded'
  cases loaded'
  rw [UInt32.toNat_add, at', UInt32.toNat_one]
  omega

/-- No worker has seen the round that is about to be opened. -/
theorem Laps.unseen_next (laps : Laps c m) {w : Word} (loaded : m.barrier.load = .ok w)
    (now : m.controlOf 0 = .leading (.announce round)) (pos : 0 < id) (inside : id < m.size) :
    m.seenOf id ≠ w.round + 1 := by
  intro same
  obtain ⟨before, seen⟩ := laps.noted id pos inside
  have missed := laps.pace id pos inside
  have few := m.drains_lt
  rw [margin, now] at missed
  replace missed : c.opened < c.noted id + m.drains := missed
  rw [same, laps.toNat_next loaded] at seen
  omega

/-- The owner writes the barrier, after which no worker has seen the round that is open. -/
theorem Laps.writes (laps : Laps c m) {d : Count} (size : after.size = m.size)
    (seen : ∀ o, after.seenOf o = m.seenOf o)
    (others : ∀ o ≠ 0, after.controlOf o = m.controlOf o)
    (unserving : ∀ s, after.controlOf 0 ≠ .serving s) {w : Word}
    (loaded : after.barrier.load = .ok w) (at' : w.round.toNat = d.opened % 2 ^ 32)
    (room : w.phase = .entering → w.joined.toNat < m.participants) (more : c.opened ≤ d.opened)
    (same : d.noted = c.noted)
    (pace : ∀ id, 0 < id → id < m.size → d.opened < c.noted id + after.margin)
    (unseen : w.phase = .idle ∨
      w.joined.toNat = 0 ∧ ∀ id, 0 < id → id < m.size → m.seenOf id ≠ w.round) :
    Laps d after where
  word := by
    refine ⟨w, loaded, at', ?_⟩
    rwa [participants, size]
  noted o pos inside := by
    rw [seen, same]
    obtain ⟨before, noted⟩ := laps.noted o pos (size ▸ inside)
    exact ⟨Nat.le_trans before more, noted⟩
  pace o pos inside := by
    rw [same]
    exact pace o pos (size ▸ inside)
  own o s r now stage := by
    rw [seen]
    by_cases own : o = 0
    · exact absurd (own ▸ now) (unserving s)
    · exact laps.own o s r (others o own ▸ now) stage
  stays o pos inside opened := by
    obtain ⟨w', loaded', active, mine⟩ := round?_eq_some.1 opened
    rw [loaded] at loaded'
    cases loaded'
    rw [seen] at mine
    exact absurd mine.symm ((unseen.resolve_left active).2 o pos (size ▸ inside))
  counted w' loaded' active ids nodup watch := by
    rw [loaded] at loaded'
    cases loaded'
    cases ids with
    | nil => exact Nat.zero_le _
    | cons o ids =>
        obtain ⟨pos, inside, watching⟩ := watch o List.mem_cons_self
        rw [others o (Nat.ne_of_gt pos)] at watching
        obtain ⟨s, now, stage⟩ := watching.serving
        exact absurd (laps.own o s _ now stage)
          ((unseen.resolve_left active).2 o pos (size ▸ inside))
  enlisted w' loaded' active := by
    rw [loaded] at loaded'
    cases loaded'
    obtain ⟨nobody, -⟩ := unseen.resolve_left active
    exact ⟨[], List.nodup_nil, Nat.le_of_eq nobody, fun o mem => absurd mem List.not_mem_nil⟩

/-- The owner goes on with something else in a round. -/
theorem Laps.leads_on (laps : Laps c m) (sound : m.Sound) {l : Lead}
    (now : m.controlOf 0 = .leading l) {x : Control} (stepped : m.step 0 = some (m.setControl 0 x))
    (plain : ∀ s, x ≠ .serving s)
    (pace : ∀ id, 0 < id → id < m.size → c.opened < c.noted id + x.margin m.drains) :
    Laps c (m.setControl 0 x) := by
  have here : 0 < m.workers.size := lt_of_controlOf (by simp [now])
  have control : (m.setControl 0 x).controlOf 0 = x := controlOf_setControl_self here x
  refine laps.outside rfl rfl (fun o => seenOf_setControl m 0 o _) (sound.step stepped).others
    (fun id pos inside => ?_) (by simp [now]) fun s is => absurd (control.symm.trans is) (plain s)
  rw [margin, control, drains_congr (dutyOf_setControl m 0 0 x)]
  exact pace id pos inside

/-- The owner writes the barrier and goes on with something else. -/
theorem Laps.writes_on (laps : Laps c m) {l : Lead} (sound : m.Sound)
    (now : m.controlOf 0 = .leading l) {b : Barrier.State} (events : List Event) {x : Control}
    (stepped : m.step 0 = some (setControl { m with barrier := b, events := events } 0 x))
    (plain : ∀ s, x ≠ .serving s) {d : Count} {w : Word} (loaded : b.load = .ok w)
    (at' : w.round.toNat = d.opened % 2 ^ 32)
    (room : w.phase = .entering → w.joined.toNat < m.participants) (more : c.opened ≤ d.opened)
    (same : d.noted = c.noted)
    (pace : ∀ id, 0 < id → id < m.size → d.opened < c.noted id + x.margin m.drains)
    (unseen : w.phase = .idle ∨
      w.joined.toNat = 0 ∧ ∀ id, 0 < id → id < m.size → m.seenOf id ≠ w.round) :
    Laps d (setControl { m with barrier := b, events := events } 0 x) := by
  have here : 0 < m.workers.size := lt_of_controlOf (by simp [now])
  have control :
      (setControl { m with barrier := b, events := events } 0 x).controlOf 0 = x :=
    controlOf_setControl_self (by exact here) x
  have drains :
      (setControl { m with barrier := b, events := events } 0 x).drains = m.drains :=
    drains_congr (dutyOf_setControl { m with barrier := b, events := events } 0 0 x)
  refine laps.writes rfl (fun o => seenOf_setControl _ 0 o _) (sound.step stepped).others
    (fun s is => plain s (control.symm.trans is)) loaded at' room more same ?_ unseen
  rwa [Machine.margin, control, drains]

/-- A step of the leader in a round. -/
theorem Laps.leading (laps : Laps c m) (sound : m.Sound) (rounds : m.Rounds)
    (led : m.Led (m.controlOf 0)) (crew : m.Crew) {l : Lead} (now : m.controlOf 0 = .leading l)
    (stepped : m.step 0 = some after) : ∃ d, Laps d after := by
  obtain ⟨u, loaded, at', -⟩ := laps.word
  have stage := rounds.stage
  have pace : ∀ id, 0 < id → id < m.size →
      c.opened < c.noted id + (Control.leading l).margin m.drains := by
    intro id pos inside
    have missed := laps.pace id pos inside
    rwa [margin, now] at missed
  rw [now] at led stage
  -- what the owner knows of the word is what the counts tell of it
  have known : ∀ {w : Word}, m.barrier.load = .ok w → w = u := fun read =>
    (Except.ok.inj (loaded.symm.trans read)).symm
  have idle : ∀ {w : Word}, w.phase = .idle → w.phase = .entering →
      w.joined.toNat < m.participants := fun idle entering => by
    rw [idle] at entering
    cases entering
  cases directs_of_leading now stepped with
  | reads | unwarned | unburdened | drains | waits | passes | surveyed =>
      exact ⟨c, laps.leads_on sound now stepped (by simp) pace⟩
  | warned | burdened | finds =>
      exact ⟨c, laps.leads_on sound now stepped (by simp) pace⟩
  | misreads failed =>
      obtain ⟨w, read, closed⟩ := stage
      rw [Barrier.State.nextRound_of_idle read closed] at failed
      cases failed
  | baffled failed =>
      rw [loaded] at failed
      cases failed
  | clears r =>
      obtain ⟨w, read, closed, -⟩ := led
      obtain rfl := known read
      exact ⟨c, laps.writes_on sound now _ stepped (by simp) loaded at' (idle closed)
        (Nat.le_refl _) rfl pace (.inl closed)⟩
  | announces r =>
      obtain ⟨w, read, closed, rfl⟩ := led
      obtain rfl := known read
      refine ⟨{ c with opened := c.opened + 1 }, laps.writes_on sound now _ stepped (by simp)
        (Barrier.State.unpack_fresh (w.round + 1) .entering) (laps.toNat_next loaded)
        (fun _ => Nat.pos_of_ne_zero (crew.peopled _ now)) (Nat.le_succ _) rfl
        (fun id pos inside => ?_)
        (.inr ⟨rfl, fun id pos inside => laps.unseen_next loaded now pos inside⟩)⟩
      exact Nat.succ_lt_succ (pace id pos inside)
  | judges r =>
      refine ⟨c, ?_⟩
      obtain ⟨draining, -⟩ := stage
      refine laps.leads_on sound now stepped (by simp) fun id pos inside => ?_
      have all := laps.noted_of_draining (led.opened rfl) draining pos inside
      cases m.barrier.aborted with
      | true => exact pace id pos inside
      | false =>
          rw [all]
          exact Nat.lt_succ_self _
  | @returns r rounds =>
      obtain ⟨w, read, rfl, -⟩ := led.opened rfl
      obtain rfl := known read
      exact ⟨c, laps.writes_on sound now (x := .away) (.barrierCompleted rounds :: m.events) stepped
        (by simp) (Barrier.State.unpack_fresh w.round .idle) at' (by simp) (Nat.le_refl _)
        rfl pace (.inl rfl)⟩
  | @resumes r quiet unlike =>
      obtain ⟨w, read, rfl, -⟩ := led.opened rfl
      obtain rfl := known read
      refine ⟨c, laps.writes_on sound now m.events stepped (by simp [popping])
        (Barrier.State.unpack_fresh w.round .idle) at' (by simp) (Nat.le_refl _) rfl
        (fun id pos inside => ?_) (.inl rfl)⟩
      exact Nat.lt_of_lt_of_le (pace id pos inside) (Nat.add_le_add_left (margin_le _ _) _)

/-! ## Turns -/

/-- Every turn in which the drains can be counted keeps what holds of the counts and the rounds. -/
theorem Laps.move (laps : Laps c m) (sound : m.Sound) (rounds : m.Rounds) {past : List Moment}
    (orderly : Orderly past m.world m.hands) (led : m.Led (m.controlOf 0)) (crew : m.Crew)
    (few : m.participants ≤ Word.maxJoined) {mv : Move} (moved : m.move mv = some after)
    (counts : after.controlOf 0 ≠ .failed .drainsUncounted) : ∃ d, Laps d after := by
  cases rounds.takes sound moved with
  | attends now other => exact laps.serving sound rounds led few moved now other
  | heads own now stepped => exact laps.leading sound rounds led crew now stepped
  | outside outside =>
      refine ⟨c, laps.outside outside.barrier (size_of_move moved)
        (fun o => congrArg Prod.snd (outside.traits o)) (sound.move moved).others
        (fun o => laps.pace_of_margin fun peopled => ?_) outside.unserving outside.look⟩
      exact rounds.margin_move sound orderly peopled moved outside counts

variable {l : Launch} {vocabulary : Access.Vocabulary} {handles callers : Nat}
  {references : Array HandleId} {past : List Moment}

/-- What holds of the counts and the rounds as a pool starts. -/
theorem laps_opening : Laps .zero (l.opening vocabulary handles callers references) := by
  have unserving : ∀ id s,
      (l.opening vocabulary handles callers references).controlOf id ≠ .serving s := by
    intro id s
    rw [controlOf_opening]
    split <;> rintro ⟨⟩
  have away : (l.opening vocabulary handles callers references).controlOf 0 = .away := by
    rw [controlOf_opening, if_neg fun both => Nat.lt_irrefl 0 both.1]
  have idle : ∀ w, (l.opening vocabulary handles callers references).barrier.load = .ok w →
      w.phase = .idle := by
    intro w loaded
    rw [show barrier _ = .new from rfl, Barrier.State.load_new] at loaded
    cases loaded
    rfl
  refine ⟨⟨_, Barrier.State.load_new, rfl, by rintro ⟨⟩⟩, fun id pos inside => ?_,
    fun id _ _ => ?_, fun id s r now => absurd now (unserving id s), fun id pos inside opened => ?_,
    fun w loaded active => absurd (idle w loaded) active,
    fun w loaded active => absurd (idle w loaded) active⟩
  · rw [size_opening] at inside
    refine ⟨Nat.le_refl 0, ?_⟩
    rw [seenOf, traitsOf, workers_opening, if_pos inside]
    rfl
  · rw [margin, away]
    exact Nat.one_pos
  · rw [round?_eq_none Barrier.State.load_new rfl] at opened
    cases opened

/-- The turns of a run in which the drains can be counted are those of a run. -/
theorem Counts.exists_runs {start : Machine} (counts : start.Counts m) :
    ∃ past, start.Runs past m := by
  induction counts with
  | refl => exact ⟨[], .refl⟩
  | turn mv _ moved _ ih =>
      obtain ⟨past, run⟩ := ih
      exact ⟨_, run.turn mv moved⟩

/-- Whether turns can be taken in none of which the owner fails, after which something is seen. -/
def steadily (seen : Machine → Bool) : List Move → Machine → Bool
  | [], m => seen m
  | mv :: mvs, m => (m.move mv).any fun next =>
      !(next.controlOf 0).isFailed && steadily seen mvs next

/-- What is seen after turns in which the owner does not fail is seen after a run in which the
drains can be counted. -/
theorem Counts.exists_of_steadily {start : Machine} (counts : start.Counts m) (mvs : List Move)
    (seen : Machine → Bool) (found : steadily seen mvs m = true) :
    ∃ a, start.Counts a ∧ seen a = true := by
  induction mvs generalizing m with
  | nil => exact ⟨m, counts, found⟩
  | cons mv mvs ih =>
      obtain ⟨next, moved, found⟩ := (Option.any_eq_true ..).1 found
      obtain ⟨unfailed, found⟩ := Bool.and_eq_true_iff.1 found
      refine ih (counts.turn mv moved fun failed => ?_) found
      rw [failed] at unfailed
      cases unfailed

/-- The number of workers that take part in a round after every run. -/
theorem Runs.participants_eq
    (run : (l.opening vocabulary handles callers references).Runs past m) :
    m.participants = l.size - 1 := by
  have size : m.size = l.size :=
    (congrArg Prod.fst run.reaches.shape_eq).trans (size_opening l vocabulary handles callers _)
  rw [participants, size]

/-- The word leaves room after every run, if no more workers take part in a round than a word can
count. -/
theorem Runs.room (few : l.size ≤ Word.maxJoined + 1)
    (run : (l.opening vocabulary handles callers references).Runs past m) : m.Room := by
  induction run with
  | refl => exact ⟨_, Barrier.State.load_new, by rintro ⟨⟩⟩
  | turn mv run moved ih =>
      refine ih.move run.orderly.1 run.rounds run.crew ?_ moved
      rw [run.participants_eq]
      omega

/-- What holds of the counts and the rounds after a run in which the drains can be counted, if no
more workers take part in a round than a word can count. -/
theorem Counts.exists_laps (few : l.size ≤ Word.maxJoined + 1)
    (counts : (l.opening vocabulary handles callers references).Counts m) : ∃ c, Laps c m := by
  induction counts with
  | refl => exact ⟨.zero, laps_opening⟩
  | turn mv counts moved able ih =>
      obtain ⟨past, run⟩ := counts.exists_runs
      obtain ⟨sound, orderly⟩ := run.orderly
      obtain ⟨c, laps⟩ := ih
      refine laps.move sound run.rounds orderly run.led run.crew ?_ moved able
      rw [run.participants_eq]
      omega

end Machine

end AccessOrder.Pool
