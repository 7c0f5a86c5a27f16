/- # Joining a barrier

One leader opens rounds and closes them, and any number of calls join rounds in the meantime, each
one access to the barrier at a time.  A call reads the word and then tries to replace it by the next
one; the exchange may fail although the word is the one expected, and then the call goes on with the
word that it has found.  `Runs` collects what happens, the last moment first.

* `Sound.step`, `Runs.sound` : the word of an open round counts the calls that have joined it since
  it was opened;
* `runs_join`, `runs_openRound` : what happens if nobody interferes;
* `serveStep_read`, `serveStep_swap` : the workers of a pool join like the calls.
-/
import AccessOrder.Proofs.Barrier.Words
import AccessOrder.Pool.Machine
import Mathlib.Logic.Function.Basic
namespace AccessOrder.Barrier

open Function (update)

/-! ## The leader and the calls -/

/-- Where a call that joins a round is. -/
inductive Joining where
  /-- It is about to read the word. -/
  | read
  /-- It is about to replace the word that it has read. -/
  | swap (expected next : UInt64)
  /-- It is done, and tells whether it has been accepted. -/
  | done (accepted : Bool)
  /-- It has failed. -/
  | failed (f : Fault)

/-- Where a call goes on that has got to know the word. -/
def Joining.having (round : UInt32) (participants : Nat) (raw : UInt64) : Joining :=
  match State.joined raw round participants with
  | .error f => .failed f
  | .ok none => .done false
  | .ok (some next) => .swap raw next

/-- A call that joins a round. -/
structure Call where
  round : UInt32
  stage : Joining

/-- Where the leader is. -/
inductive Leader where
  /-- It is not in the middle of anything, and has this round open. -/
  | rests (round? : Option UInt32)
  /-- It has read the word and is about to take the flag down, in order to open a round. -/
  | clears (round : UInt32)
  /-- It is about to write the word of a round. -/
  | announces (round : UInt32)

/-- A barrier with its leader and the calls, by their numbers. -/
structure System where
  barrier : State
  leader : Leader
  calls : Nat → Option Call

namespace System

/-- A barrier that nobody uses yet. -/
def initial (b : State) : System := ⟨b, .rests none, fun _ => none⟩

/-- The system with a call at a stage. -/
def put (s : System) (i : Nat) (round : UInt32) (stage : Joining) : System :=
  { s with calls := update s.calls i (some ⟨round, stage⟩) }

@[simp] theorem put_self (s : System) (i : Nat) (round : UInt32) (stage : Joining) :
    (s.put i round stage).calls i = some ⟨round, stage⟩ := Function.update_self ..

theorem put_of_ne {i j : Nat} (other : j ≠ i) (s : System) (round : UInt32) (stage : Joining) :
    (s.put i round stage).calls j = s.calls j := Function.update_of_ne other ..

end System

/-- What the leader or a call does. -/
inductive Act where
  /-- The leader finds that it may not open a round. -/
  | refuse
  /-- The leader begins to open a round. -/
  | look
  | clear
  /-- The leader opens a round. -/
  | announce
  /-- The leader closes the round that it has open. -/
  | close
  /-- Someone raises the flag. -/
  | abort
  /-- A call begins. -/
  | call (i : Nat) (round : UInt32)
  /-- A call reads the word. -/
  | read (i : Nat)
  /-- A call replaces the word. -/
  | swap (i : Nat)
  /-- A call does not replace the word, and reads it again. -/
  | miss (i : Nat)

/-- The call that does something. -/
def Act.caller : Act → Option Nat
  | .call i _ | .read i | .swap i | .miss i => some i
  | _ => none

/-- One step of the leader or of a call. -/
inductive Step (participants : Nat) (s : System) : Act → System → Prop where
  | refuse {open? : Option UInt32} {f : Fault} : s.leader = .rests open? →
      State.nextRound s.barrier.word = .error f → Step participants s .refuse s
  | look {open? : Option UInt32} {round : UInt32} : s.leader = .rests open? →
      State.nextRound s.barrier.word = .ok round →
      Step participants s .look { s with leader := .clears round }
  | clear {round : UInt32} : s.leader = .clears round →
      Step participants s .clear
        { s with barrier := { s.barrier with aborted := false }, leader := .announces round }
  | announce {round : UInt32} : s.leader = .announces round →
      Step participants s .announce
        { s with
          barrier := { s.barrier with word := State.fresh round .entering }
          leader := .rests (some round) }
  | close {round : UInt32} : s.leader = .rests (some round) →
      Step participants s .close
        { s with barrier := s.barrier.close round, leader := .rests none }
  | abort : Step participants s .abort { s with barrier := s.barrier.abort }
  | call {i : Nat} {round : UInt32} : s.calls i = none →
      Step participants s (.call i round) (s.put i round .read)
  | read {i : Nat} {round : UInt32} : s.calls i = some ⟨round, .read⟩ →
      Step participants s (.read i) (s.put i round (.having round participants s.barrier.word))
  | swap {i : Nat} {round : UInt32} {expected next : UInt64} {b : State} :
      s.calls i = some ⟨round, .swap expected next⟩ →
      s.barrier.exchange expected next = (true, b) →
      Step participants s (.swap i) ({ s with barrier := b }.put i round (.done true))
  | miss {i : Nat} {round : UInt32} {expected next : UInt64} :
      s.calls i = some ⟨round, .swap expected next⟩ →
      Step participants s (.miss i) (s.put i round (.having round participants s.barrier.word))

/-- Something that happens, with the system before and after it. -/
structure Moment where
  act : Act
  before : System
  after : System

/-- The systems that steps lead to, with all that has happened on the way, the last moment first. -/
inductive Runs (participants : Nat) (s : System) : List Moment → System → Prop where
  | refl : Runs participants s [] s
  | step {past : List Moment} {a b : System} {act : Act} : Runs participants s past a →
      Step participants a act b → Runs participants s (⟨act, a, b⟩ :: past) b

/-- How many calls have joined since a round was opened the last time. -/
def joins : List Moment → Nat
  | [] => 0
  | m :: past =>
    match m.act with
    | .announce => 0
    | .swap _ => joins past + 1
    | _ => joins past

/-! ## What the word counts -/

/-- What the leader knows of the word: that of a round that it has open counts the calls that have
joined it, and else it is idle. -/
def Leader.Knows (participants count : Nat) (w : Word) : Leader → Prop
  | .rests (some round) => w.round = round ∧ w.joined.toNat = count ∧ count ≤ participants ∧
      w.phase = State.phaseAt participants count
  | _ => w.phase = .idle

/-- A system in which the word tells what has happened, and no call goes wrong. -/
structure Sound (participants : Nat) (past : List Moment) (s : System) : Prop where
  word : ∃ w, s.barrier.load = .ok w ∧ s.leader.Knows participants (joins past) w
  swaps : ∀ i round expected next, s.calls i = some ⟨round, .swap expected next⟩ →
    State.joined expected round participants = .ok (some next)
  unfailed : ∀ i round f, s.calls i ≠ some ⟨round, .failed f⟩

/-- A barrier that is idle is sound as long as nobody uses it. -/
theorem sound_initial (participants : Nat) {b : State} {w : Word} (loaded : b.load = .ok w)
    (idle : w.phase = .idle) : Sound participants [] (.initial b) :=
  ⟨⟨w, loaded, idle⟩, nofun, nofun⟩

section Steps

variable {participants : Nat} {past : List Moment} {s s' : System} {act : Act} {i : Nat}
  {round : UInt32}

/-- A round that is being entered is open, and has room. -/
theorem Leader.Knows.entering {l : Leader} {count : Nat} {w : Word}
    (knows : l.Knows participants count w) (entering : w.phase = .entering) :
    l = .rests (some w.round) ∧ w.joined.toNat = count ∧ count < participants := by
  cases l with
  | rests round? =>
      cases round? with
      | none => exact absurd (entering.symm.trans knows) (by decide)
      | some round =>
          obtain ⟨same, counts, few, phase⟩ := knows
          rw [entering] at phase
          have room := State.phaseAt_eq_entering_iff.1 phase.symm
          exact ⟨by rw [same], counts, by omega⟩
  | clears | announces => exact absurd (entering.symm.trans knows) (by decide)

/-- A call that has read the word of a sound system does not fail, and is about to replace it by the
next one if it is not refused. -/
theorem Sound.having (sound : Sound participants past s) (few : participants ≤ Word.maxJoined)
    (round : UInt32) :
    (Joining.having round participants s.barrier.word = .done false ∧
      ∃ w, s.barrier.load = .ok w ∧ ¬(w.round = round ∧ w.phase = .entering)) ∨
    ∃ next, Joining.having round participants s.barrier.word = .swap s.barrier.word next ∧
      State.joined s.barrier.word round participants = .ok (some next) := by
  obtain ⟨w, loaded, knows⟩ := sound.word
  unfold Joining.having
  by_cases accepts : w.round = round ∧ w.phase = .entering
  · right
    obtain ⟨rfl, entering⟩ := accepts
    obtain ⟨-, counts, room⟩ := knows.entering entering
    obtain ⟨r, phase, count⟩ := w
    cases entering
    have small : count.toNat < Word.maxJoined := by
      have same : count.toNat = joins past := counts
      omega
    obtain ⟨next, joined, -⟩ := State.exists_joined loaded small participants
    exact ⟨next, by rw [joined], joined⟩
  · left
    rw [State.joined_eq_ok_none_iff.2 ⟨w, loaded, accepts⟩]
    exact ⟨rfl, w, loaded, accepts⟩

/-- A sound system stays sound if a call goes on in a way that is not wrong. -/
theorem Sound.put (sound : Sound participants past s) {stage : Joining}
    (swaps : ∀ expected next, stage = .swap expected next →
      State.joined expected round participants = .ok (some next))
    (unfailed : ∀ f, stage ≠ .failed f) : Sound participants past (s.put i round stage) where
  word := sound.word
  swaps j r expected next now := by
    by_cases own : j = i
    · subst own
      rw [System.put_self] at now
      cases now
      exact swaps _ _ rfl
    · rw [System.put_of_ne own] at now
      exact sound.swaps j r expected next now
  unfailed j r f now := by
    by_cases own : j = i
    · subst own
      rw [System.put_self] at now
      cases now
      exact unfailed f rfl
    · rw [System.put_of_ne own] at now
      exact sound.unfailed j r f now

/-- A call may go on with the word that it has read. -/
theorem Sound.put_having (sound : Sound participants past s) (few : participants ≤ Word.maxJoined) :
    Sound participants past (s.put i round (.having round participants s.barrier.word)) := by
  rcases sound.having few round with ⟨refused, -⟩ | ⟨next, accepted, joined⟩
  · rw [refused]
    exact sound.put (fun _ _ => nofun) fun _ => nofun
  · rw [accepted]
    refine sound.put (fun expected next' same => ?_) fun f => nofun
    cases same
    exact joined

/-- What a successful exchange does: the round is open, and one more has joined it. -/
theorem Sound.swap (sound : Sound participants past s) (few : participants ≤ Word.maxJoined)
    {expected next : UInt64} {b : State} (now : s.calls i = some ⟨round, .swap expected next⟩)
    (swapped : s.barrier.exchange expected next = (true, b)) :
    ∃ count : UInt32, s.leader = .rests (some round) ∧
      s.barrier.load = .ok ⟨round, .entering, count⟩ ∧ count.toNat = joins past ∧
      joins past < participants ∧ b.aborted = s.barrier.aborted ∧
      b.load = .ok ⟨round, State.phaseAt participants (joins past + 1), count + 1⟩ ∧
      (count + 1).toNat = joins past + 1 := by
  obtain ⟨w, loaded, knows⟩ := sound.word
  unfold State.exchange at swapped
  split at swapped
  · next same =>
    cases swapped
    have joined := sound.swaps i round expected next now
    obtain ⟨count, read, packed⟩ := State.joined_eq_ok_some_iff.1 joined
    rw [← same] at read
    obtain rfl := Except.ok.inj (loaded.symm.trans read)
    obtain ⟨leads, counts, room⟩ := knows.entering rfl
    have counts : count.toNat = joins past := counts
    have next : (count + 1).toNat = count.toNat + 1 := State.toNat_succ (by omega)
    rw [next, counts] at packed
    exact ⟨count, leads, loaded, counts, room, rfl, Word.unpack_pack packed,
      next.trans (by rw [counts])⟩
  · cases swapped

/-- Every step leaves a sound system sound. -/
theorem Sound.step (sound : Sound participants past s) (manned : 1 ≤ participants)
    (few : participants ≤ Word.maxJoined) (stepped : Step participants s act s') :
    Sound participants (⟨act, s, s'⟩ :: past) s' := by
  have same {p : List Moment} (joined : joins p = joins past) : Sound participants p s :=
    ⟨joined ▸ sound.word, sound.swaps, sound.unfailed⟩
  obtain ⟨w, loaded, knows⟩ := sound.word
  cases stepped with
  | refuse resting refused => exact same rfl
  | look resting next =>
      -- the leader has seen that the word is idle, and nobody else makes it busy
      obtain ⟨u, read, idle, -⟩ := State.nextRound_eq_ok_iff.1 next
      exact ⟨⟨u, read, idle⟩, sound.swaps, sound.unfailed⟩
  | clear clears =>
      rw [clears] at knows
      exact ⟨⟨w, loaded, knows⟩, sound.swaps, sound.unfailed⟩
  | announce announces =>
      refine ⟨⟨_, State.unpack_fresh _ .entering, rfl, rfl, Nat.zero_le _, ?_⟩, sound.swaps,
        sound.unfailed⟩
      exact (State.phaseAt_eq_entering_iff.2 (Nat.ne_of_lt manned)).symm
  | close rests => exact ⟨⟨_, State.unpack_fresh _ .idle, rfl⟩, sound.swaps, sound.unfailed⟩
  | abort => exact ⟨⟨w, loaded, knows⟩, sound.swaps, sound.unfailed⟩
  | call free =>
      refine Sound.put (same ?_) (fun _ _ => nofun) fun _ => nofun
      rfl
  | read now => exact Sound.put_having (same rfl) few
  | @swap i round expected next b now swapped =>
      obtain ⟨count, leads, -, -, room, -, written, counts⟩ := sound.swap few now swapped
      -- the word counts one more already, while the caller has not been told yet
      have swapped' : ∀ s',
          Sound participants (⟨.swap i, s, s'⟩ :: past) { s with barrier := b } := by
        intro s'
        refine ⟨⟨_, written, ?_⟩, sound.swaps, sound.unfailed⟩
        rw [leads]
        exact ⟨rfl, counts, room, rfl⟩
      exact (swapped' _).put (fun _ _ => nofun) fun _ => nofun
  | miss now => exact Sound.put_having (same rfl) few

/-- Every run from a sound system is sound. -/
theorem Runs.sound {later : List Moment} (run : Runs participants s later s')
    (sound : Sound participants past s) (manned : 1 ≤ participants)
    (few : participants ≤ Word.maxJoined) : Sound participants (later ++ past) s' := by
  induction run with
  | refl => exact sound
  | step _ stepped ih => exact ih.step manned few stepped

end Steps

/-! ## Undisturbed calls -/

/-- A call that nobody interferes with joins a round, or is refused, in one go. -/
theorem runs_join {participants : Nat} {s : System} {i : Nat} {round : UInt32} {accepted : Bool}
    {b : State} (free : s.calls i = none)
    (joined : s.barrier.join round participants = (.ok accepted, b)) :
    ∃ during s', Runs participants s during s' ∧ s'.barrier = b ∧ s'.leader = s.leader ∧
      s'.calls i = some ⟨round, .done accepted⟩ ∧ ∀ j, j ≠ i → s'.calls j = s.calls j := by
  have called : Runs participants s _ (s.put i round .read) := .step .refl (.call free)
  have read := called.step (.read (System.put_self ..))
  have others : ∀ stage, ∀ j, j ≠ i →
      ((s.put i round .read).put i round stage).calls j = s.calls j := by
    intro stage j other
    rw [System.put_of_ne other, System.put_of_ne other]
  unfold State.join at joined
  cases known : State.joined s.barrier.word round participants with
  | error f =>
      rw [known] at joined
      cases joined
  | ok next? =>
      rw [known] at joined
      cases next? with
      | none =>
          cases joined
          have stage : Joining.having round participants s.barrier.word = .done false := by
            unfold Joining.having
            rw [known]
          exact ⟨_, _, read, rfl, rfl, by rw [System.put_self]; exact congrArg _ (congrArg _ stage),
            others _⟩
      | some next =>
          have swapped : s.barrier.exchange s.barrier.word next =
              (true, { s.barrier with word := next }) := if_pos rfl
          simp only [swapped] at joined
          cases joined
          have stage : Joining.having round participants s.barrier.word =
              .swap s.barrier.word next := by
            unfold Joining.having
            rw [known]
          have waiting : ((s.put i round .read).put i round
              (.having round participants s.barrier.word)).calls i =
              some ⟨round, .swap s.barrier.word next⟩ := by rw [System.put_self, stage]
          refine ⟨_, _, read.step (.swap waiting swapped), rfl, rfl, System.put_self .., ?_⟩
          intro j other
          rw [System.put_of_ne other]
          exact others _ j other

/-- A leader that nobody interferes with opens a round in one go. -/
theorem runs_openRound {participants : Nat} {s : System} {open? : Option UInt32} {round : UInt32}
    {b : State} (rests : s.leader = .rests open?) (opened : s.barrier.openRound = (.ok round, b)) :
    ∃ during s', Runs participants s during s' ∧ s'.barrier = b ∧ s'.leader = .rests (some round) ∧
      s'.calls = s.calls := by
  unfold State.openRound at opened
  cases next : State.nextRound s.barrier.word with
  | error f =>
      rw [next] at opened
      cases opened
  | ok r =>
      rw [next] at opened
      cases opened
      exact ⟨_, _, ((Runs.refl.step (.look rests next)).step (.clear rfl)).step (.announce rfl),
        rfl, rfl, rfl⟩

/-! ## The workers of a pool -/

/-- What a worker of a pool goes on with when it is at a stage of a call. -/
def Joining.turn (round : UInt32) : Joining → Pool.Turn Pool.Service Unit
  | .read => .goes (.read round)
  | .swap expected next => .goes (.swap round expected next)
  | .done true => .goes (.watchWord round)
  | .done false => .ends ()
  | .failed f => .fails (.barrier f)

/-- A worker that has read the word goes on like a call. -/
theorem joining_eq (m : Pool.Machine) (round : UInt32) (raw : UInt64) :
    m.joining round raw = (Joining.having round m.participants raw).turn round := by
  unfold Pool.Machine.joining Joining.having
  cases State.joined raw round m.participants with
  | error f => rfl
  | ok next? => cases next? <;> rfl

/-- A worker reads the word like a call. -/
theorem serveStep_read (m : Pool.Machine) (id : WorkerId) (seen round : UInt32) :
    m.serveStep id seen (.read round) =
      (m, (Joining.having round m.participants m.barrier.word).turn round) := by
  rw [← joining_eq]
  rfl

/-- A worker replaces the word like a call, or reads it again. -/
theorem serveStep_swap (m : Pool.Machine) (id : WorkerId) (seen round : UInt32)
    (expected next : UInt64) :
    m.serveStep id seen (.swap round expected next) =
      match m.barrier.exchange expected next with
      | (true, b) => ({ m with barrier := b }, (Joining.done true).turn round)
      | (false, _) => (m, (Joining.having round m.participants m.barrier.word).turn round) := by
  rw [← joining_eq]
  rfl

end AccessOrder.Barrier
