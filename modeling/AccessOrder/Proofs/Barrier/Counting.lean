/- # Counting the calls that join a round

While a round is open, its word counts the calls that have joined it since it was opened, and no
others: a call is counted once if it is accepted, in the round that it has asked for, and leaves
no trace if it is refused.  A call is refused only if the round is not open or all have joined it.

* `Step.own` : what a step is for a call;
* `Runs.conducts` : a call changes the barrier once if it is accepted, and never if not;
* `Runs.full` : a call for an open round that is refused has come too late;
* `Runs.unopened` : no round is open before the next one is opened;
* `Runs.counted` : all of this together.
-/
import AccessOrder.Proofs.Barrier.Joins
namespace AccessOrder.Barrier

/-- A round is open: the word is its word, and not idle. -/
def System.Opens (s : System) (round : UInt32) : Prop :=
  ∃ w, s.barrier.load = .ok w ∧ w.round = round ∧ w.phase ≠ .idle

/-- No round is open: the word is idle. -/
def System.Idles (s : System) : Prop := ∃ w, s.barrier.load = .ok w ∧ w.phase = .idle

namespace Moment

/-- A call leaves the barrier as it is, if it does something. -/
def Spares (i : Nat) (m : Moment) : Prop :=
  m.act.caller = some i → m.after.barrier = m.before.barrier

/-- The leader has a round open, and the word counts one more that has joined it; nothing else
changes. -/
structure Adds (participants : Nat) (round : UInt32) (m : Moment) : Prop where
  opened : m.before.leader = .rests (some round)
  counts : ∃ count : UInt32, m.before.barrier.load = .ok ⟨round, .entering, count⟩ ∧
    m.after.barrier.load =
      .ok ⟨round, State.phaseAt participants (count.toNat + 1), count + 1⟩ ∧
    (count + 1).toNat = count.toNat + 1
  flag : m.after.barrier.aborted = m.before.barrier.aborted

end Moment

variable {participants : Nat} {past during : List Moment} {s s' : System} {act : Act} {i : Nat}
  {round : UInt32}

/-! ## What a step is for a call -/

/-- What a step can be for a call. -/
inductive Own (participants : Nat) (i : Nat) (s : System) : Act → System → Prop where
  /-- It is a step of someone else. -/
  | other {act : Act} {s' : System} : act.caller ≠ some i → s'.calls i = s.calls i →
      Own participants i s act s'
  | begins {round : UInt32} {s' : System} : s.calls i = none →
      Own participants i s (.call i round) s'
  /-- It reads the word. -/
  | reads {act : Act} {s' : System} {round : UInt32} {stage : Joining} :
      s.calls i = some ⟨round, stage⟩ → (∀ accepted, stage ≠ .done accepted) →
      s'.calls i = some ⟨round, .having round participants s.barrier.word⟩ →
      s'.barrier = s.barrier → s'.leader = s.leader →
      (∀ p : List Moment, joins (⟨act, s, s'⟩ :: p) = joins p) → Own participants i s act s'
  | swaps {s' : System} {round : UInt32} {expected next : UInt64} :
      s.calls i = some ⟨round, .swap expected next⟩ →
      s.barrier.exchange expected next = (true, s'.barrier) →
      s'.calls i = some ⟨round, .done true⟩ → Own participants i s (.swap i) s'

/-- A step is one of these for every call. -/
theorem Step.own (stepped : Step participants s act s') (i : Nat) :
    Own participants i s act s' := by
  have apart {j : Nat} (other : j ≠ i) : some j ≠ some i := fun same => other (Option.some.inj same)
  cases stepped with
  | refuse | look | clear | announce | close | abort => exact .other nofun rfl
  | @call j round free =>
      by_cases own : j = i
      · subst own
        exact .begins free
      · exact .other (apart own) (System.put_of_ne (Ne.symm own) ..)
  | @read j round now =>
      by_cases own : j = i
      · subst own
        exact .reads now (fun _ => nofun) (System.put_self ..) rfl rfl fun _ => rfl
      · exact .other (apart own) (System.put_of_ne (Ne.symm own) ..)
  | @swap j round expected next b now swapped =>
      by_cases own : j = i
      · subst own
        exact .swaps now swapped (System.put_self ..)
      · exact .other (apart own) (System.put_of_ne (Ne.symm own) ..)
  | @miss j round expected next now =>
      by_cases own : j = i
      · subst own
        exact .reads now (fun _ => nofun) (System.put_self ..) rfl rfl fun _ => rfl
      · exact .other (apart own) (System.put_of_ne (Ne.symm own) ..)

/-! ## What a call changes -/

/-- What a call has done by the time that it has come to a stage: it has changed the barrier once if
it has been accepted, and else never. -/
def Conducts (participants i : Nat) (round : UInt32) (during : List Moment) : Joining → Prop
  | .done true => ∃ later m earlier, during = later ++ m :: earlier ∧ m.act = .swap i ∧
      m.Adds participants round ∧ ∀ x ∈ later ++ earlier, x.Spares i
  | _ => ∀ x ∈ during, x.Spares i

/-- A call that has not been accepted yet has not changed the barrier. -/
theorem Conducts.spares {stage : Joining} (conducts : Conducts participants i round during stage)
    (unaccepted : stage ≠ .done true) : ∀ x ∈ during, x.Spares i := by
  unfold Conducts at conducts
  split at conducts
  · exact absurd rfl unaccepted
  · exact conducts

/-- A call that is not accepted is told by not having changed the barrier. -/
theorem conducts_of_spares {stage : Joining} (unaccepted : stage ≠ .done true)
    (spares : ∀ x ∈ during, x.Spares i) : Conducts participants i round during stage := by
  unfold Conducts
  split
  · exact absurd rfl unaccepted
  · exact spares

/-- Whatever else happens does not count for a call. -/
theorem Conducts.cons {stage : Joining} {m : Moment}
    (conducts : Conducts participants i round during stage) (spares : m.Spares i) :
    Conducts participants i round (m :: during) stage := by
  unfold Conducts at conducts ⊢
  split at conducts
  · obtain ⟨later, x, earlier, rfl, swap, adds, rest⟩ := conducts
    exact ⟨m :: later, x, earlier, rfl, swap, adds, List.forall_mem_cons.2 ⟨spares, rest⟩⟩
  · exact List.forall_mem_cons.2 ⟨spares, conducts⟩

/-- Reading a word is not yet being accepted. -/
theorem having_ne_done_true (round : UInt32) (participants : Nat) (raw : UInt64) :
    Joining.having round participants raw ≠ .done true := by
  unfold Joining.having
  split <;> nofun

/-- A call changes the barrier once if it is accepted, and never if not. -/
theorem Runs.conducts (run : Runs participants s during s') (sound : Sound participants past s)
    (manned : 1 ≤ participants) (few : participants ≤ Word.maxJoined)
    (called : s.calls i = some ⟨round, .read⟩) :
    ∃ stage, s'.calls i = some ⟨round, stage⟩ ∧ Conducts participants i round during stage := by
  induction run with
  | refl => exact ⟨.read, called, nofun⟩
  | @step during a b act run stepped ih =>
      obtain ⟨stage, now, conducts⟩ := ih
      have sound' := run.sound sound manned few
      cases stepped.own i with
      | other other same =>
          exact ⟨stage, same.trans now, conducts.cons fun own => absurd own other⟩
      | begins free => cases free.symm.trans now
      | reads waiting undone next unchanged =>
          cases waiting.symm.trans now
          refine ⟨_, next, conducts_of_spares (having_ne_done_true _ _ _) ?_⟩
          exact List.forall_mem_cons.2 ⟨fun _ => unchanged, conducts.spares (undone true)⟩
      | swaps waiting swapped next =>
          cases waiting.symm.trans now
          obtain ⟨count, leads, loaded, counts, -, flag, written, succ⟩ :=
            sound'.swap few waiting swapped
          rw [← counts] at written succ
          exact ⟨_, next, [], _, during, rfl, rfl, ⟨leads, ⟨count, loaded, written, succ⟩, flag⟩,
            conducts.spares nofun⟩

/-! ## When a call is refused -/

/-- The leader that has a round open has it open until it closes it, and opens no other. -/
theorem Sound.leads_step (sound : Sound participants past s) (stepped : Step participants s act s')
    (leads : s.leader = .rests (some round)) (open? : act ≠ .close) :
    s'.leader = .rests (some round) ∧ act ≠ .announce := by
  cases stepped with
  | refuse | abort | call | read | swap | miss => exact ⟨leads, nofun⟩
  | look resting next =>
      obtain ⟨w, loaded, knows⟩ := sound.word
      rw [leads] at knows
      obtain ⟨u, read, idle, -⟩ := State.nextRound_eq_ok_iff.1 next
      cases loaded.symm.trans read
      exact absurd (knows.2.2.2.symm.trans idle) (State.phaseAt_ne_idle _ _)
  | clear clears => cases leads.symm.trans clears
  | announce announces => cases leads.symm.trans announces
  | close => exact absurd rfl open?

/-- No more have joined the round that is open than there are participants. -/
theorem Sound.joins_le (sound : Sound participants past s)
    (leads : s.leader = .rests (some round)) : joins past ≤ participants := by
  obtain ⟨w, -, knows⟩ := sound.word
  rw [leads] at knows
  exact knows.2.2.1

/-- Nobody who has joined is forgotten before the next round is opened. -/
theorem joins_le_cons {m : Moment} (unopened : m.act ≠ .announce) :
    joins past ≤ joins (m :: past) := by
  obtain ⟨act, before, after⟩ := m
  cases act with
  | announce => exact absurd rfl unopened
  | swap i => exact Nat.le_succ _
  | _ => exact Nat.le_refl _

/-- A call for the round that is open is refused only if all have joined. -/
theorem Sound.full_of_refused (sound : Sound participants past s)
    (few : participants ≤ Word.maxJoined) (leads : s.leader = .rests (some round))
    (refused : Joining.having round participants s.barrier.word = .done false) :
    joins past = participants := by
  rcases sound.having few round with ⟨-, w, loaded, unentered⟩ | ⟨next, accepted, -⟩
  · obtain ⟨u, loaded', knows⟩ := sound.word
    cases loaded.symm.trans loaded'
    rw [leads] at knows
    obtain ⟨same, -, -, phase⟩ := knows
    by_contra room
    exact unentered ⟨same, phase.trans (State.phaseAt_eq_entering_iff.2 room)⟩
  · cases refused.symm.trans accepted

/-- A call that is refused although its round has been open all the time comes too late: all have
joined. -/
theorem Runs.full (run : Runs participants s during s') (sound : Sound participants past s)
    (manned : 1 ≤ participants) (few : participants ≤ Word.maxJoined)
    (leads : s.leader = .rests (some round)) (called : s.calls i = some ⟨round, .read⟩)
    (unclosed : ∀ m ∈ during, m.act ≠ .close) :
    s'.leader = .rests (some round) ∧
      (s'.calls i = some ⟨round, .done false⟩ → joins (during ++ past) = participants) := by
  induction run with
  | refl => exact ⟨leads, fun refused => nomatch called.symm.trans refused⟩
  | @step during a b act run stepped ih =>
      obtain ⟨leads, full⟩ := ih fun m mem => unclosed m (List.mem_cons_of_mem _ mem)
      have sound' := run.sound sound manned few
      obtain ⟨leads', unopened⟩ :=
        sound'.leads_step stepped leads (unclosed _ List.mem_cons_self)
      refine ⟨leads', fun refused => ?_⟩
      cases stepped.own i with
      | other other same =>
          -- nobody can join any more
          have before := full (same.symm.trans refused)
          have most := (sound'.step manned few stepped).joins_le leads'
          have least : joins (during ++ past) ≤ joins (⟨act, a, b⟩ :: (during ++ past)) :=
            joins_le_cons unopened
          rw [before] at least
          exact Nat.le_antisymm most least
      | begins free =>
          obtain ⟨stage, now, -⟩ := run.conducts sound manned few called
          cases free.symm.trans now
      | @reads _ _ round' stage waiting undone next unchanged _ counts =>
          obtain ⟨rfl, refuses⟩ := Call.mk.inj (Option.some.inj (next.symm.trans refused))
          exact (counts _).trans (sound'.full_of_refused few leads refuses)
      | swaps waiting swapped next => cases next.symm.trans refused

/-- No round is open before the next one is opened. -/
theorem Runs.unopened (run : Runs participants s during s')
    (resting : ∀ round, s.leader ≠ .rests (some round))
    (unopened : ∀ m ∈ during, m.act ≠ .announce) :
    (∀ round, s'.leader ≠ .rests (some round)) ∧
      ∀ m ∈ during, ∀ round, m.before.leader ≠ .rests (some round) := by
  induction run with
  | refl => exact ⟨resting, nofun⟩
  | @step during a b act run stepped ih =>
      obtain ⟨before, earlier⟩ := ih fun m mem => unopened m (List.mem_cons_of_mem _ mem)
      refine ⟨?_, List.forall_mem_cons.2 ⟨before, earlier⟩⟩
      have other : act ≠ .announce := unopened _ List.mem_cons_self
      cases stepped with
      | refuse | abort | call | read | swap | miss => exact before
      | look | clear | close => exact fun _ => nofun
      | announce => exact absurd rfl other

/-! ## Runs -/

/-- In a round that is open, the leader has it open. -/
theorem Sound.leads_of_opens (sound : Sound participants past s) (opens : s.Opens round) :
    s.leader = .rests (some round) := by
  obtain ⟨w, loaded, knows⟩ := sound.word
  obtain ⟨u, loaded', same, busy⟩ := opens
  cases loaded.symm.trans loaded'
  unfold Leader.Knows at knows
  split at knows
  · next leads => rw [leads, ← same, knows.1]
  · exact absurd knows busy

/-- While the word is idle, the leader has no round open. -/
theorem Sound.rests_of_idles (sound : Sound participants past s) (idles : s.Idles) :
    ∀ round, s.leader ≠ .rests (some round) := by
  intro round leads
  obtain ⟨w, loaded, knows⟩ := sound.word
  obtain ⟨u, loaded', idle⟩ := idles
  cases loaded.symm.trans loaded'
  rw [leads] at knows
  exact State.phaseAt_ne_idle _ _ (knows.2.2.2.symm.trans idle)

/-- In every run of a barrier that starts idle, with one leader and any number of calls, no call
fails.  While the leader has a round open, the word counts the calls that have joined since it was
opened, at most all participants; the round is entered as long as some are missing and drains once
all are there, and no other may be opened.  Otherwise the word is idle.  A call for a round that is
open from its beginning to its end is refused only if all have joined by then; a call for a round
that is not the current one at any time, or that begins while no round is open and ends before the
next one is opened, is refused.  A call that is refused changes nothing, and one that is accepted
adds one to those that have joined its round, and changes nothing else. -/
theorem Runs.counted (manned : 1 ≤ participants) (few : participants ≤ Word.maxJoined) {b : State}
    {w : Word} (loaded : b.load = .ok w) (idle : w.phase = .idle)
    (run : Runs participants (.initial b) past s) :
    (∀ i round f, s.calls i ≠ some ⟨round, .failed f⟩) ∧
    (∀ round, s.leader = .rests (some round) → ∃ phase, ∃ count : UInt32,
      s.barrier.load = .ok ⟨round, phase, count⟩ ∧ count.toNat = joins past ∧
      joins past ≤ participants ∧ (phase = .entering ↔ joins past < participants) ∧
      (phase = .draining ↔ joins past = participants) ∧
      State.nextRound s.barrier.word = .error (.roundOpen phase)) ∧
    ((∀ round, s.leader ≠ .rests (some round)) → s.Idles) ∧
    ∀ i round s₁ during s₂ accepted, Step participants s (.call i round) s₁ →
      Runs participants s₁ during s₂ → s₂.calls i = some ⟨round, .done accepted⟩ →
      (s.Opens round → (∀ m ∈ during, m.act ≠ .close) → accepted = false →
        joins (during ++ ⟨.call i round, s, s₁⟩ :: past) = participants) ∧
      ((∀ m ∈ during, ∀ w, m.before.barrier.load = .ok w → w.round ≠ round) → accepted = false) ∧
      (s.Idles → (∀ m ∈ during, m.act ≠ .announce) → accepted = false) ∧
      (accepted = false → ∀ m ∈ during, m.Spares i) ∧
      (accepted = true → ∃ later m earlier, during = later ++ m :: earlier ∧ m.act = .swap i ∧
        m.Adds participants round ∧ ∀ x ∈ later ++ earlier, x.Spares i) := by
  have sound : Sound participants past s := by
    have whole := run.sound (sound_initial participants loaded idle) manned few
    rwa [List.append_nil] at whole
  refine ⟨sound.unfailed, ?_, ?_, ?_⟩
  · intro round leads
    obtain ⟨⟨r, phase, count⟩, loaded, knows⟩ := sound.word
    rw [leads] at knows
    obtain ⟨rfl, counts, most, rfl⟩ := knows
    refine ⟨_, count, loaded, counts, most, ?_, State.phaseAt_eq_draining_iff,
      State.nextRound_of_open loaded (State.phaseAt_ne_idle _ _)⟩
    rw [State.phaseAt_eq_entering_iff]
    omega
  · intro resting
    obtain ⟨w, loaded, knows⟩ := sound.word
    refine ⟨w, loaded, ?_⟩
    unfold Leader.Knows at knows
    split at knows
    · next leads => exact absurd leads (resting _)
    · exact knows
  · intro i round s₁ during s₂ accepted began goes ended
    have sound₁ := sound.step manned few began
    have called : s₁.calls i = some ⟨round, .read⟩ := by
      cases began
      exact System.put_self ..
    have leader : s₁.leader = s.leader := by
      cases began
      rfl
    obtain ⟨stage, now, conducts⟩ := goes.conducts sound₁ manned few called
    cases ended.symm.trans now
    -- whoever has been accepted has been so in the round, while it was open
    have refused : (∀ m ∈ during, ¬ m.Adds participants round) → accepted = false := by
      intro never
      cases accepted with
      | false => rfl
      | true =>
          obtain ⟨later, m, earlier, rfl, -, adds, -⟩ := conducts
          exact absurd adds (never m (by simp))
    refine ⟨?_, ?_, ?_, ?_, ?_⟩
    · rintro opens unclosed rfl
      have leads := sound.leads_of_opens opens
      exact (goes.full sound₁ manned few (leader.trans leads) called unclosed).2 ended
    · intro stale
      apply refused
      intro m mem adds
      obtain ⟨count, loaded, -⟩ := adds.counts
      exact stale m mem _ loaded rfl
    · intro idles unopened
      apply refused
      intro m mem adds
      have resting : ∀ r, s₁.leader ≠ .rests (some r) := by
        rw [leader]
        exact sound.rests_of_idles idles
      exact (goes.unopened resting unopened).2 m mem round adds.opened
    · rintro rfl
      exact conducts
    · rintro rfl
      exact conducts

/-- Two calls race for the first round of two participants.  The third one begins while one of them
has joined; the other one has to read the word again, and joins before the third one has read it. -/
theorem Runs.counted_late :
    ∃ past s s₁ during s₂, Runs 2 (.initial .new) past s ∧ Step 2 s (.call 2 1) s₁ ∧
      Runs 2 s₁ during s₂ ∧ s.Opens 1 ∧ (∀ m ∈ during, m.act ≠ .close) ∧
      s₂.calls 2 = some ⟨1, .done false⟩ ∧
      joins (during ++ ⟨.call 2 1, s, s₁⟩ :: past) = 2 := by
  obtain ⟨past, leader, calls, run, free, waiting⟩ : ∃ past leader calls,
      Runs 2 (.initial .new) past ⟨⟨0x140000001, false⟩, leader, calls⟩ ∧ calls 2 = none ∧
        calls 1 = some ⟨1, .swap 0x140000000 0x140000001⟩ := by
    have opened : Runs 2 (.initial .new) _ _ :=
      ((Runs.refl.step (.look rfl rfl)).step (.clear rfl)).step (.announce rfl)
    have called := (opened.step (@Step.call 2 _ 0 1 rfl)).step (@Step.call 2 _ 1 1 rfl)
    have raced := (called.step (@Step.read 2 _ 0 1 rfl)).step (@Step.read 2 _ 1 1 rfl)
    exact ⟨_, _, _, raced.step (.swap (i := 0) rfl rfl), rfl, rfl⟩
  have entering : Word.unpack 0x140000001 = .ok ⟨1, .entering, 1⟩ := by rfl
  have room : Joining.having 1 2 0x140000001 = .swap 0x140000001 0x180000002 := by rfl
  have full : Joining.having 1 2 0x180000002 = .done false := by rfl
  have late := @Step.call 2 ⟨⟨0x140000001, false⟩, leader, calls⟩ 2 1 free
  have missed := Runs.refl.step (@Step.miss 2 _ 1 1 _ _ ((System.put_of_ne (by decide) ..).trans
    waiting : (System.put ⟨⟨0x140000001, false⟩, leader, calls⟩ 2 1 .read).calls 1 = _))
  have joined := missed.step (@Step.swap 2 _ 1 1 0x140000001 0x180000002 _
    ((System.put_self ..).trans (congrArg (fun stage => some (Call.mk 1 stage)) room)) rfl)
  have refused := joined.step (@Step.read 2 _ 2 1 rfl)
  have opens : System.Opens ⟨⟨0x140000001, false⟩, leader, calls⟩ 1 :=
    ⟨⟨1, .entering, 1⟩, entering, rfl, nofun⟩
  have unclosed : ∀ a a' b b' c c', ∀ m ∈ [Moment.mk (.read 2) a a', ⟨.swap 1, b, b'⟩,
      ⟨.miss 1, c, c'⟩], m.act ≠ .close := by
    intro a a' b b' c c' m mem
    simp only [List.mem_cons, List.not_mem_nil, or_false] at mem
    rcases mem with rfl | rfl | rfl <;> nofun
  have ended : ∀ s : System, (s.put 2 1 (.having 1 2 0x180000002)).calls 2 =
      some ⟨1, .done false⟩ := fun s => by rw [full, System.put_self]
  have counted := Runs.counted (by decide) (by decide) State.load_new rfl run
  exact ⟨past, _, _, _, _, run, late, refused, opens, unclosed _ _ _ _ _ _, ended _,
    (counted.2.2.2 2 1 _ _ _ false late refused (ended _)).1 opens
      (unclosed _ _ _ _ _ _) rfl⟩

end AccessOrder.Barrier
