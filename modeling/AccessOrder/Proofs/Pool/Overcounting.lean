/- # Rounds without end

The numbers of rounds and the drains of a call are counted in words of 32 bits.  A worker can hand
in tasks for the owner one by one, so that each of them keeps one round of a barrier from becoming
quiet: in this way a single call comes to 2^32 - 1 rounds, and the owner cannot count the drain that
comes next.  The worker takes note of none of these rounds, as it looks at the word before and after
them only, when it is idle.  If the owner waits again then, the round that it opens has the number
that the worker has seen last, and nobody ever joins it.

* `Machine.Looking` : the runs in which less than 2^32 rounds are opened between two looks of a
  worker;
* `exists_fed` : a single call comes to any number of rounds that can be counted;
* `Tired.endless` : an owner that has counted as many drains as it can waits for ever;
* `Deserted.endless` : so does an owner that leads a round that has the number of one that all
  have seen;
* `exists_crowded`, `exists_tired_endless`, `exists_deserted_endless` : an owner may come to wait
  for ever in a pool that is too large, and in one of two workers in either of these ways.
-/
import AccessOrder.Proofs.Pool.Overcrowding
namespace AccessOrder.Pool

open Barrier (Word Phase)
open Function (update)

/-- What is counted of the rounds that are opened, and of the looks of the workers at the word. -/
structure Looks where
  /-- How many rounds have been opened. -/
  opened : Nat
  /-- How many had been opened when a worker last looked at the word. -/
  looked : WorkerId → Nat

/-- What is counted in a turn. -/
def Looks.after (c : Looks) (m : Machine) : Move → Looks
  | .step id =>
    match m.controlOf id with
    | .leading (.announce _) => { c with opened := c.opened + 1 }
    | .serving .look => { c with looked := update c.looked id c.opened }
    | _ => c
  | _ => c

/-- Less than 2^32 rounds have been opened since the last look of each worker. -/
def Looks.Near (c : Looks) (m : Machine) : Prop :=
  ∀ id, 0 < id → id < m.size → c.opened < c.looked id + 2 ^ 32

/-- The machines that turns lead to, with what has been counted on the way, as long as less than
2^32 rounds are opened between two looks of a worker. -/
inductive Machine.Looking (m : Machine) : Looks → Machine → Prop where
  | refl : Looking m ⟨0, fun _ => 0⟩ m
  | turn {c : Looks} {a b : Machine} (mv : Move) : Looking m c a → a.move mv = some b →
      (c.after a mv).Near b → Looking m (c.after a mv) b

namespace Machine

variable {m a after : Machine} {c : Looks}

/-- The turns of a run in which the workers look often enough are those of a run. -/
theorem Looking.reaches (looking : m.Looking c a) : m.Reaches a := by
  induction looking with
  | refl => exact .refl
  | turn mv _ moved _ ih => exact ih.turn mv moved

/-- Whether nothing is counted in a turn. -/
def quiet (m : Machine) : Move → Bool
  | .step id =>
    match m.controlOf id with
    | .leading (.announce _) | .serving .look => false
    | _ => true
  | _ => true

/-- The machine after turns in which nothing is counted and the owner does not fail. -/
def plays : List Move → Machine → Option Machine
  | [], m => some m
  | mv :: mvs, m =>
    if m.quiet mv then
      match m.move mv with
      | some a => if (a.controlOf 0).isFailed then none else plays mvs a
      | none => none
    else none

/-- Nothing is counted in a quiet turn. -/
theorem after_of_quiet {mv : Move} (quiet : m.quiet mv = true) (c : Looks) : c.after m mv = c := by
  unfold Machine.quiet at quiet
  unfold Looks.after
  split
  · simp only at quiet
    split <;> simp_all
  · rfl

section Kept

variable {kept : Looks → Machine → Prop} (turns : ∀ {c m a} mv, kept c m → m.move mv = some a →
  (c.after m mv).Near a → (a.controlOf 0).isFailed = false → kept (c.after m mv) a)
include turns

/-- What turns keep is kept by quiet ones. -/
theorem kept_plays {mvs : List Move} (start : kept c m) (near : c.Near m)
    (played : plays mvs m = some a) : kept c a := by
  induction mvs generalizing m with
  | nil =>
      cases played
      exact start
  | cons mv mvs ih =>
      rw [plays] at played
      split at played
      · next quiet =>
        split at played
        · next next moved =>
          split at played
          · cases played
          · next unfailed =>
            have near' : c.Near next := by
              rw [Looks.Near, size_of_move moved]
              exact near
            have same := after_of_quiet quiet c
            have after := turns mv start moved (same.symm ▸ near')
              (Bool.eq_false_of_not_eq_true unfailed)
            rw [same] at after
            exact ih after near' played
        · cases played
      · cases played

end Kept

/-! ## A task that hands in many -/

/-- A task for the owner with this work. -/
def errand (work : List Act) : Blueprint Act := ⟨"errand", [], .normal, some 0, none, work⟩

/-- A task for a worker with this work. -/
def feeder (work : List Act) : Blueprint Act := ⟨"feeder", [], .normal, some 1, none, work⟩

/-- The acts in which so many tasks without work are handed in for the owner, and then others. -/
def errands (count : Nat) (acts : List Act) : List Act :=
  List.replicate count (.spawn (errand [])) ++ acts

/-- What the worker is in the middle of that has these acts still ahead. -/
def feed (acts : List Act) (results : List Outcome) : Control :=
  .executing (.act ⟨⟨0, none, [], 0, .normal, some 1, none⟩, "feeder", []⟩ acts results)

/-- The task for the owner that has been built as the one of this number. -/
def errandTask (serial : Nat) (work : List Act) : Task :=
  ⟨serial, some ⟨"errand", work⟩, [], 0, .normal, some 0, none⟩

/-- A pool of an owner that has counted so many drains and of one worker, which has seen no round
yet. -/
def feeding (rounds : UInt32) (owner : Control) (word : UInt64) (worker : Control)
    (queue : Queue.Shared Task) (begun : Nat) (events : List Event) : Machine :=
  { smallPool ⟨2, Nat.two_pos⟩ with
    begun := begun
    barrier := ⟨word, false⟩
    queues := #[queue, .empty .plain .flat]
    workers := #[⟨owner, .lead rounds, ⟨0, 2, 0⟩, 0, []⟩, ⟨worker, .work, ⟨1, 2, 1⟩, 0, []⟩]
    events := events }

variable {rounds round : UInt32} {word : UInt64} {owner worker : Control}
  {queue : Queue.Shared Task} {left begun : Nat} {work acts : List Act} {results : List Outcome}
  {events : List Event}

/-- The worker hands in one task while the owner waits for it to join a round. -/
theorem plays_feed : plays (steps 1 8 ++ steps 0 2)
    (feeding rounds (.leading (.watchFlag round)) word (feed (.spawn (errand work) :: acts) results)
      (.empty .plain .flat) begun events) =
    some (feeding rounds (.leading (.close round false)) word (feed acts (.versions [] :: results))
      ⟨.plain (.flat [errandTask begun work]), 1, false⟩ (begun + 1) events) := by
  cbv

/-- The owner runs a task without work that it has found in its own queue. -/
theorem plays_errand (serial : Nat) : plays (steps 0 11)
    (feeding rounds popping word worker ⟨.plain (.flat [errandTask serial []]), 1, false⟩ begun
      events) =
    some (feeding rounds popping word worker (.empty .plain .flat) begun
      (.disposed { errandTask serial [] with work := none } .discard ::
        .ran 0 "errand" { errandTask serial [] with work := none } [] :: events)) := by
  cbv

/-- The worker comes to look at the word as the pool starts. -/
theorem plays_start : plays (steps 1 2) (smallPool ⟨2, by decide⟩) =
    some (feeding 0 .away (Barrier.State.fresh 0 .idle) (.serving .look) (.empty .plain .flat) 0
      (smallPool ⟨2, by decide⟩).events) := by
  cbv

/-- The owner hands a task to the worker, which starts on it. -/
theorem plays_feeder (acts : List Act) :
    plays (.spawn 0 (feeder acts) :: (steps 0 7 ++ .lead :: steps 1 7))
      (feeding 0 .away word popping (.empty .plain .flat) 0 events) =
    some (feeding 0 popping word (feed acts []) (.empty .plain .flat) 1 events) := by
  cbv

/-! ## Rounds of a call -/

/-- The owner has found its queue empty. -/
theorem move_drained :
    (feeding rounds popping word worker (.empty .plain .flat) begun events).move (.step 0) =
    match counted rounds with
    | none => some (feeding rounds (.failed .drainsUncounted) word worker (.empty .plain .flat)
        begun events)
    | some next =>
        some (feeding next (.leading .read) word worker (.empty .plain .flat) begun events) := by
  have idle : (feeding rounds popping word worker (.empty .plain .flat) begun events).move
      (.step 0) = some ((feeding rounds popping word worker (.empty .plain .flat) begun
        events).idleStep 0 ⟨popping, .lead rounds, ⟨0, 2, 0⟩, 0, []⟩) := rfl
  rw [idle]
  simp only [idleStep]
  cases counted rounds <;> rfl

/-- The owner comes to open the next round. -/
theorem move_read :
    (feeding rounds (.leading .read) (Barrier.State.fresh round .idle) worker queue begun
      events).move (.step 0) =
    some (feeding rounds (.leading (.clear (round + 1))) (Barrier.State.fresh round .idle) worker
      queue begun events) := by
  have next := Barrier.State.nextRound_of_idle (Barrier.State.unpack_fresh round .idle) rfl
  simp only [move, step, feeding, leadStep, next]
  rfl

/-- Few rounds have been opened since the worker has looked at the word. -/
theorem near_feeding (near : c.opened < c.looked 1 + 2 ^ 32) :
    c.Near (feeding rounds owner word worker queue begun events) := by
  intro id pos inside
  have one : id = 1 := Nat.le_antisymm (Nat.le_of_lt_succ inside) pos
  rwa [one]

/-- The owner gives up a call in which it has failed, and the worker comes to look at the word. -/
theorem plays_recover : plays (.recover 0 :: steps 1 5)
    (feeding rounds (.failed .drainsUncounted) word (feed [] results) (.empty .plain .flat) begun
      events) =
    some (feeding rounds .away word (.serving .look) (.empty .plain .flat) begun
      (.disposed ⟨0, none, [], 0, .normal, some 1, none⟩ .discard ::
        .ran 1 "feeder" ⟨0, none, [], 0, .normal, some 1, none⟩ results.reverse :: events)) := by
  cbv

/-- The worker looks at the word while no round is open. -/
theorem move_look :
    (feeding rounds owner (Barrier.State.fresh round .idle) (.serving .look) queue begun
      events).move (.step 1) =
    some (feeding rounds owner (Barrier.State.fresh round .idle) popping queue begun events) := by
  have loaded := Barrier.State.unpack_fresh round .idle
  simp only [move, step, feeding, serveStep, Barrier.State.load, loaded]
  rfl

/-- The owner calls the barrier. -/
theorem move_lead : (feeding rounds .away word popping queue begun events).move .lead =
    some (feeding 0 popping word popping queue begun events) := by
  cbv

section Kept

variable {kept : Looks → Machine → Prop} (turns : ∀ {c m a} mv, kept c m → m.move mv = some a →
  (c.after m mv).Near a → (a.controlOf 0).isFailed = false → kept (c.after m mv) a)
include turns

/-- The owner counts a drain and opens a round. -/
theorem kept_opens {next : UInt32} (counts : counted rounds = some next)
    (start : kept c (feeding rounds popping (Barrier.State.fresh round .idle) worker
      (.empty .plain .flat) begun events))
    (near : c.opened + 1 < c.looked 1 + 2 ^ 32) :
    kept { c with opened := c.opened + 1 } (feeding next (.leading (.watchFlag (round + 1)))
      (Barrier.State.fresh (round + 1) .entering) worker (.empty .plain .flat) begun events) := by
  have before : c.opened < c.looked 1 + 2 ^ 32 := Nat.lt_of_succ_lt near
  have read := turns (.step 0) start (by rw [move_drained, counts]) (near_feeding before) rfl
  have clear := turns (.step 0) read move_read (near_feeding before) rfl
  have announce := turns (.step 0) clear rfl (near_feeding before) rfl
  exact turns (.step 0) announce rfl (near_feeding near) rfl

/-- The worker hands in one task in the next round of a call. -/
theorem kept_round {k : Nat} (room : k + 1 < 2 ^ 32)
    (start : kept ⟨k, fun _ => 0⟩ (feeding (.ofNat k) popping
      (Barrier.State.fresh (.ofNat k) .idle) (feed (.spawn (errand work) :: acts) results)
      (.empty .plain .flat) begun events)) :
    kept ⟨k + 1, fun _ => 0⟩ (feeding (.ofNat (k + 1)) popping
      (Barrier.State.fresh (.ofNat (k + 1)) .idle) (feed acts (.versions [] :: results))
      ⟨.plain (.flat [errandTask begun work]), 1, false⟩ (begun + 1) events) := by
  have near : k + 1 < 0 + 2 ^ 32 := by omega
  have next : UInt32.ofNat (k + 1) = UInt32.ofNat k + 1 := UInt32.ofNat_add k 1
  have counts : counted (.ofNat k) = some (.ofNat (k + 1)) := by
    rw [counted, UInt32.toNat_ofNat_of_lt' (Nat.lt_of_succ_lt room),
      if_pos (show k + 1 < UInt32.size from room), next]
  have opened := kept_opens turns counts start near
  rw [← next] at opened
  have fed := kept_plays turns opened (near_feeding near) plays_feed
  exact turns (.step 0) fed rfl (near_feeding near) rfl

/-- The worker hands in tasks one by one, each of which costs the owner a round. -/
theorem kept_rounds {k : Nat} (fits : k + left < 2 ^ 32)
    (start : kept ⟨k, fun _ => 0⟩ (feeding (.ofNat k) popping
      (Barrier.State.fresh (.ofNat k) .idle) (feed (errands left acts) results)
      (.empty .plain .flat) begun events)) :
    ∃ results begun events, kept ⟨k + left, fun _ => 0⟩ (feeding (.ofNat (k + left)) popping
      (Barrier.State.fresh (.ofNat (k + left)) .idle) (feed acts results) (.empty .plain .flat)
      begun events) := by
  induction left generalizing k results begun events with
  | zero => exact ⟨_, _, _, start⟩
  | succ left ih =>
      have near : k + 1 < 0 + 2 ^ 32 := by omega
      have next := kept_round turns (by omega) start
      have done := kept_plays turns next (near_feeding near) (plays_errand begun)
      obtain ⟨results, begun, events, last⟩ := ih (by omega) done
      rw [show k + 1 + left = k + (left + 1) by omega] at last
      exact ⟨results, begun, events, last⟩

/-- A single call comes to any number of rounds that can be counted, and the worker has the rest of
its work still ahead. -/
theorem exists_fed (count : Nat) (fits : count < 2 ^ 32) (acts : List Act)
    (start : kept ⟨0, fun _ => 0⟩ (smallPool ⟨2, by decide⟩)) :
    ∃ results begun events, kept ⟨count, fun _ => 0⟩ (feeding (.ofNat count) popping
      (Barrier.State.fresh (.ofNat count) .idle) (feed acts results) (.empty .plain .flat)
      begun events) := by
  have near : (0 : Nat) < 0 + 2 ^ 32 := by decide
  have ready := kept_plays turns start (fun _ _ _ => near) plays_start
  have same : update (fun _ => 0) 1 0 = fun _ : WorkerId => 0 := Function.update_eq_self 1 _
  have looked := turns (.step 1) ready move_look (near_feeding near) rfl
  rw [show Looks.after _ _ _ = ⟨0, update (fun _ => 0) 1 0⟩ from rfl, same] at looked
  have fed := kept_plays turns looked (near_feeding near) (plays_feeder (errands count acts))
  obtain ⟨results, begun, events, last⟩ := kept_rounds turns (k := 0) (by omega) fed
  rw [Nat.zero_add] at last
  exact ⟨results, begun, events, last⟩

end Kept

/-! ## A drain too many -/

/-- The owner of a barrier has counted as many drains as it can, or has failed. -/
def Tired (m : Machine) : Prop :=
  (m.controlOf 0).awaiting = true ∧ (∀ l, m.controlOf 0 ≠ .leading l) ∧ m.drains + 1 = 2 ^ 32 ∨
    ∃ f, m.controlOf 0 = .failed f

/-- A worker that goes on leaves the duty of the owner alone. -/
theorem Sound.duty_of_inner (sound : m.Sound) {mv : Move} (inner : mv.Inner m.size)
    (other : mv.actor ≠ 0) (moved : m.move mv = some after) :
    after.dutyOf 0 = m.dutyOf 0 := by
  by_cases serving : ∃ s, m.controlOf mv.actor = .serving s
  · obtain ⟨s, now⟩ := serving
    exact (attends_of_serving now rfl moved other).duty 0
  · have unserving : ∀ s, m.controlOf mv.actor ≠ .serving s := fun s now => serving ⟨s, now⟩
    cases move_cases moved with
    | @step id _ _ stepped =>
        have unleading : ∀ l, m.controlOf id ≠ .leading l := fun l now => by
          have seated := sound.seated id
          rw [now] at seated
          exact other seated
        exact (sound.next stepped unserving unleading).duty 0 (.inl (Ne.symm other))
    | miss now => exact absurd now (unserving _)
    | call _ calls => cases calls <;> exact inner.elim
    | start | lead | stop => exact inner.elim

/-- An owner that has counted as many drains as it can does not come to count another. -/
theorem Tired.move (tired : m.Tired) (sound : m.Sound) {past : List Moment}
    (orderly : Orderly past m.world m.hands) {mv : Move} (inner : mv.Inner m.size)
    (moved : m.move mv = some after) : after.Tired := by
  by_cases own : mv.actor = 0
  · have unfailed : ¬∃ f, m.controlOf 0 = .failed f := by
      rintro ⟨f, failed⟩
      exact not_failed_of_inner inner moved f (own ▸ failed)
    obtain ⟨awaiting, unleading, full⟩ := tired.resolve_right unfailed
    obtain ⟨-, stepped⟩ := step_of_awaiting moved own awaiting
    cases sound.ownStep orderly awaiting (atWork_of_awaiting awaiting unleading) stepped with
    | works working awaiting same =>
        refine .inl ⟨awaiting, fun l now => ?_, same ▸ full⟩
        rw [now] at working
        exact working
    | leads _ more =>
        exact absurd (more.trans full) (Nat.ne_of_lt after.drains_lt)
    | returns _ room => exact absurd full (Nat.ne_of_lt room)
    | overflows failed => exact .inr ⟨_, failed⟩
  · have owner := (sound.move moved).others 0 (Ne.symm own)
    rw [Tired, owner, drains_congr (sound.duty_of_inner inner own moved)]
    exact tired

/-- Such an owner has not come out of the barrier. -/
theorem Tired.stays (tired : m.Tired) : m.controlOf 0 ≠ .away := by
  intro back
  rcases tired with ⟨awaiting, -⟩ | ⟨f, failed⟩
  · rw [back] at awaiting
    cases awaiting
  · cases back.symm.trans failed

variable {l : Launch} {vocabulary : Access.Vocabulary} {handles callers : Nat}
  {references : Array HandleId} {past : List Moment}

/-- An owner that has counted as many drains as it can waits for ever. -/
theorem Tired.endless (tired : m.Tired)
    (run : (l.opening vocabulary handles callers references).Runs past m)
    (awaiting : (m.controlOf 0).awaiting = true) (up : m.crash = none)
    (running : m.shutdown = false) (returns : m.cost.breaks = 0) : m.Endless := by
  refine ⟨awaiting, up, running, returns, fun a works returned => ?_⟩
  have tired : a.Tired := works.invariant run (fun run tired inner moved =>
    tired.move run.orderly.1 run.orderly.2 inner moved) tired
  exact tired.stays returned.1

/-! ## A round that has been seen -/

/-- A worker that looks at a queue without tasks leaves it alone. -/
theorem queueStep_measure {target : WorkerId} (inside : target < m.size)
    (zero : m.queueLength target = 0) (r : Queue.Request Task) :
    m.queueStep target (.measure r) = (m, .ends none) := by
  have there : m.queues[target]? = some m.queues[target] := Array.getElem?_eq_getElem inside
  generalize m.queues[target] = q at there
  rw [queueLength, there] at zero
  have same : m.queues.setIfInBounds target q = m.queues := by
    obtain ⟨known, rfl⟩ := Array.getElem?_eq_some_iff.1 there
    rw [Array.setIfInBounds, dif_pos known, Array.set_getElem_self]
  rw [queueStep, there]
  simp only [Queue.Progress.step, if_pos (show q.published = 0 from zero), same]

/-- The owner expects that workers join a round. -/
def Expects (round : UInt32) (c : Control) : Prop :=
  c = .leading (.watchFlag round) ∨ c = .leading (.watchQueue round) ∨
    c = .leading (.watchWord round)

/-- The owner waits for workers to join a round, each of which has seen a round of its number, and
there is nothing to be done. -/
structure Deserted (m : Machine) (round : UInt32) : Prop where
  word : m.barrier = ⟨Barrier.State.fresh round .entering, false⟩
  up : m.crash = none
  running : m.shutdown = false
  empty : ∀ q, m.queueLength q = 0
  owner : Expects round (m.controlOf 0)
  seen : ∀ id, 0 < id → id < m.size → m.seenOf id = round
  roams : ∀ id, 0 < id → id < m.size → Roams (m.controlOf id)

/-- The owner waits at the barrier. -/
theorem Deserted.awaiting (deserted : m.Deserted round) : (m.controlOf 0).awaiting = true := by
  rcases deserted.owner with now | now | now <;> rw [now] <;> rfl

/-- A round that has been seen is open, and nobody has joined it. -/
theorem Deserted.load (deserted : m.Deserted round) :
    m.barrier.load = .ok ⟨round, .entering, 0⟩ := by
  rw [deserted.word]
  exact Barrier.State.unpack_fresh round .entering

/-- What is gone on with in a round that has been seen. -/
theorem Deserted.turn (deserted : m.Deserted round) (id : WorkerId) (spares : m.Spares after)
    (barrier : after.barrier = m.barrier) (seen : ∀ o, after.seenOf o = m.seenOf o)
    (others : ∀ o ≠ id, after.controlOf o = m.controlOf o)
    (owner : id = 0 → Expects round (after.controlOf id))
    (roams : id ≠ 0 → Roams (after.controlOf id)) : after.Deserted round where
  word := barrier.trans deserted.word
  up := spares.crash.trans deserted.up
  running := spares.shutdown.trans deserted.running
  empty q := by rw [← published_eq, spares.world, published_eq, deserted.empty]
  owner := by
    by_cases own : id = 0
    · exact own ▸ owner own
    · rw [others 0 (Ne.symm own)]
      exact deserted.owner
  seen o pos inside := (seen o).trans (deserted.seen o pos (spares.size ▸ inside))
  roams o pos inside := by
    by_cases own : o = id
    · exact own ▸ roams (own ▸ Nat.ne_of_gt pos)
    · rw [others o own]
      exact deserted.roams o pos (spares.size ▸ inside)

/-- Who goes on with something else in a round that has been seen. -/
theorem Deserted.setControl (deserted : m.Deserted round) {id : WorkerId}
    (here : id < m.workers.size) {c : Control} (owner : id = 0 → Expects round c)
    (roams : id ≠ 0 → Roams c) : (m.setControl id c).Deserted round := by
  have next := controlOf_setControl_self here c
  refine deserted.turn id ((spares_barrier m m.barrier m.events).setControl id c) rfl
    (fun o => seenOf_setControl m id o c) (fun o other => ?_) (by rwa [next]) (by rwa [next])
  rw [controlOf_setControl, if_neg fun both => other both.1.symm]

/-- The owner goes on expecting that workers join a round that they have seen. -/
theorem Deserted.leads (deserted : m.Deserted round) (stepped : m.step 0 = some after) :
    after.Deserted round := by
  have aborted : m.barrier.aborted = false := by rw [deserted.word]
  have loaded := deserted.load
  have goes : ∀ {c}, Expects round c → m.controlOf 0 ≠ .away →
      (m.setControl 0 c).Deserted round := fun expects busy =>
    deserted.setControl (lt_of_controlOf busy) (fun _ => expects) (absurd rfl)
  rcases deserted.owner with now | now | now
  · cases directs_of_leading now stepped with
    | warned raised => exact absurd (aborted.symm.trans raised) Bool.false_ne_true
    | unwarned => exact goes (.inr (.inl rfl)) (by simp [now])
  · cases directs_of_leading now stepped with
    | unburdened => exact goes (.inr (.inr rfl)) (by simp [now])
    | burdened full => exact absurd (deserted.empty 0) full
  · cases directs_of_leading now stepped with
    | baffled failed => cases loaded.symm.trans failed
    | drains read drains =>
        cases loaded.symm.trans read
        cases drains
    | waits => exact goes (.inl rfl) (by simp [now])

/-- A worker that finds its own queue empty starts on a search while a round is open that it has
seen. -/
theorem Deserted.idles (deserted : m.Deserted round) (sound : m.Sound) {id : WorkerId}
    (other : id ≠ 0) (inside : id < m.size) (now : m.controlOf id = popping)
    (moved : m.move (.step id) = some after) (stepped : m.step id = some after) :
    after.Deserted round := by
  obtain ⟨w, found, steps⟩ := step_cases stepped
  have here := (Array.getElem?_eq_some_iff.1 found).1
  rw [now] at steps
  cases steps with
  | popping went =>
      rw [Queue.Request.start, queueStep_measure inside (deserted.empty id)] at went
      obtain rfl : m.idleStep id w = after := Option.some.inj went
      have duty : w.duty = .work :=
        (dutyOf_of_found found).symm.trans (sound.duty_of_worker other)
      have goes := sound.next stepped (by simp [now, popping]) (by simp [now, popping])
      have rests := m.rests_idleStep id w
      obtain ⟨crash, world⟩ := m.idleStep_spares id w
      generalize m.idleStep id w = after at *
      cases rests with
      | visits =>
          refine deserted.turn id ⟨size_of_move moved, by simp [Machine.setControl], world,
            goes.shutdown, goes.started, crash, fun o => congrArg Prod.fst (goes.traits o)⟩
            goes.barrier (fun o => congrArg Prod.snd (goes.traits o)) (sound.move moved).others
            (fun own => absurd own other) fun _ => ?_
          rw [controlOf_setControl_self (by simpa using here)]
          exact .inr (.inr (.inr ⟨_, rfl⟩))
      | overflows which | returns which | leads which => cases duty.symm.trans which

/-- A worker goes on looking for tasks while a round is open that it has seen. -/
theorem Deserted.roam (deserted : m.Deserted round) (sound : m.Sound) (crew : m.Crew)
    {id : WorkerId} (other : id ≠ 0) (inside : id < m.size) (moved : m.move (.step id) = some after)
    (stepped : m.step id = some after) : after.Deserted round := by
  have pos := Nat.pos_of_ne_zero other
  have roams := deserted.roams id pos inside
  obtain ⟨w, found, steps⟩ := step_cases stepped
  have here := (Array.getElem?_eq_some_iff.1 found).1
  have goes : ∀ {c}, Roams c → (m.setControl id c).Deserted round := fun roams =>
    deserted.setControl here (fun own => absurd own other) fun _ => roams
  rcases roams with now | now | now | ⟨victims, now⟩
  · rw [now] at steps
    cases steps with
    | started => exact goes (.inr (.inr (.inr ⟨[], rfl⟩)))
    | stopped down => cases deserted.running.symm.trans down
  · have loaded := deserted.load
    cases partakes_of_serving now rfl moved other with
    | baffled _ failed => cases loaded.symm.trans failed
    | passes => exact goes (.inr (.inr (.inl rfl)))
    | notes read _ unseen =>
        cases loaded.symm.trans read
        exact absurd (deserted.seen id pos inside).symm unseen
    | uncounted none | refused none | tries none => cases none
    | burdened which =>
        rcases which with which | which <;> cases which
  · exact deserted.idles sound other inside now moved stepped
  · cases victims with
    | nil =>
        rw [show m.controlOf id = .looping from now] at steps
        cases steps with
        | looping =>
            rw [deserted.running]
            exact goes (.inr (.inl rfl))
    | cons victim rest =>
        have there := crew.visited id victim _ rest now victim List.mem_cons_self
        rw [show m.controlOf id = .stealing victim _ rest from now] at steps
        cases steps with
        | stealing moved =>
            rw [Queue.Request.start, queueStep_measure there (deserted.empty victim)] at moved
            cases moved
            exact goes (.inr (.inr (.inr ⟨rest, rfl⟩)))

/-- A round that all have seen goes on, whoever goes on. -/
theorem Deserted.move (deserted : m.Deserted round) (sound : m.Sound) (crew : m.Crew) {mv : Move}
    (inner : mv.Inner m.size) (moved : m.move mv = some after) : after.Deserted round := by
  by_cases own : mv.actor = 0
  · obtain ⟨-, stepped⟩ := step_of_awaiting moved own deserted.awaiting
    exact deserted.leads stepped
  · cases move_cases moved with
    | step _ stepped => exact deserted.roam sound crew own inner moved stepped
    | @miss id _ _ _ _ now =>
        have pos := Nat.pos_of_ne_zero (show id ≠ 0 from own)
        rcases deserted.roams id pos inner with there | there | there | ⟨victims, there⟩
        · cases now.symm.trans there
        · cases now.symm.trans there
        · cases now.symm.trans there
        · cases victims <;> cases now.symm.trans there
    | call _ calls => cases calls <;> exact inner.elim
    | start | lead | stop => exact inner.elim

/-- An owner that waits for workers to join a round that they have seen waits for ever. -/
theorem Deserted.endless (deserted : m.Deserted round)
    (run : (l.opening vocabulary handles callers references).Runs past m)
    (returns : m.cost.breaks = 0) : m.Endless := by
  refine ⟨deserted.awaiting, deserted.up, deserted.running, returns, fun a works returned => ?_⟩
  have deserted : a.Deserted round := works.invariant run
    (fun {_ x _ _} run (deserted : x.Deserted round) inner moved =>
      deserted.move run.orderly.1 run.crew inner moved) deserted
  have awaiting := deserted.awaiting
  rw [returned.1] at awaiting
  cases awaiting

/-! ## Endless calls -/

/-- The owner of a pool of two gives a call up in which it has counted as many drains as it can, and
calls the barrier again after its worker has looked at the word: it opens a round that has the
number that the worker has seen last. -/
theorem exists_deserted : ∃ c begun events, (smallPool ⟨2, by decide⟩).Looking c
    (feeding 1 (.leading (.watchFlag 0)) (Barrier.State.fresh 0 .entering) popping
      (.empty .plain .flat) begun events) := by
  have turns : ∀ {c : Looks} {m a : Machine} mv, (smallPool ⟨2, by decide⟩).Looking c m →
      m.move mv = some a → (c.after m mv).Near a → (a.controlOf 0).isFailed = false →
      (smallPool ⟨2, by decide⟩).Looking (c.after m mv) a :=
    fun mv looking moved near _ => looking.turn mv moved near
  obtain ⟨results, begun, events, tired⟩ := exists_fed turns (2 ^ 32 - 1) (by decide) [] .refl
  have near : (2 ^ 32 - 1 : Nat) < 0 + 2 ^ 32 := by decide
  have failed := tired.turn (.step 0) (by rw [move_drained]; rfl) (near_feeding near)
  have free := kept_plays turns failed (near_feeding near) plays_recover
  have near : (2 ^ 32 - 1 : Nat) + 1 < (2 ^ 32 - 1) + 2 ^ 32 := by decide
  have looked := free.turn (.step 1) move_look (near_feeding (Nat.lt_of_succ_lt near))
  have led := looked.turn .lead move_lead (near_feeding (Nat.lt_of_succ_lt near))
  have counts : counted 0 = some 1 := by decide
  have opened := kept_opens turns counts led near
  rw [show UInt32.ofNat (2 ^ 32 - 1) + 1 = 0 by decide] at opened
  exact ⟨_, _, _, opened⟩

/-- An owner that calls the barrier as a pool with too many workers starts waits for ever. -/
theorem exists_crowded (many : Word.maxJoined + 1 < l.size) :
    ∃ c m, (l.opening vocabulary handles callers references).Looking c m ∧
      (l.opening vocabulary handles callers references).Counts m ∧ m.drains + m.due < 2 ^ 32 ∧
      m.Endless := by
  have led : (l.opening vocabulary handles callers references).enterBarrier.controlOf 0 =
      Machine.popping := controlOf_enterBarrier manned_opening
  have near : (0 : Nat) < 0 + 2 ^ 32 := by decide
  refine ⟨_, _, Looking.refl.turn .lead lead_opening fun _ _ _ => near,
    Counts.refl.turn .lead lead_opening (by rw [led]; rintro ⟨⟩), ?_, endless_enterBarrier many⟩
  have due : (l.opening vocabulary handles callers references).enterBarrier.due = 1 := by
    rw [Machine.due, led]
    rfl
  rw [due, drains_enterBarrier manned_opening]
  decide

/-- A turn that leaves the owner unfailed goes on with a run in which the drains of every call could
be counted and the workers look often enough. -/
theorem turn_of_unfailed (mv : Move) (both : (smallPool ⟨2, by decide⟩).Looking c m ∧
    (smallPool ⟨2, by decide⟩).Counts m) (moved : m.move mv = some a) (near : (c.after m mv).Near a)
    (unfailed : (a.controlOf 0).isFailed = false) :
    (smallPool ⟨2, by decide⟩).Looking (c.after m mv) a ∧
      (smallPool ⟨2, by decide⟩).Counts a := by
  refine ⟨both.1.turn mv moved near, both.2.turn mv moved fun failed => ?_⟩
  rw [failed] at unfailed
  cases unfailed

/-- An owner that has counted as many drains as it can waits for ever. -/
theorem exists_tired_endless : ∃ c m, (smallPool ⟨2, by decide⟩).Looking c m ∧
    (smallPool ⟨2, by decide⟩).Counts m ∧ m.Endless := by
  obtain ⟨results, begun, events, looking, counts⟩ :=
    exists_fed turn_of_unfailed (2 ^ 32 - 1) (by decide) [] ⟨.refl, .refl⟩
  obtain ⟨past, run⟩ := counts.exists_runs
  refine ⟨_, _, looking, counts, Tired.endless (.inl ⟨rfl, ?_, ?_⟩) run rfl rfl rfl rfl⟩
  · rintro l ⟨⟩
  · show (UInt32.ofNat (2 ^ 32 - 1)).toNat + 1 = 2 ^ 32
    decide

/-- An owner waits for ever for a worker that takes the open round for one that it has seen. -/
theorem exists_deserted_endless :
    ∃ c m, (smallPool ⟨2, by decide⟩).Looking c m ∧ m.drains + m.due < 2 ^ 32 ∧ m.Endless := by
  obtain ⟨c, begun, events, looking⟩ := exists_deserted
  obtain ⟨past, run⟩ := looking.reaches.exists_runs
  refine ⟨_, _, looking, ?_, Deserted.endless ⟨rfl, rfl, rfl, fun q => ?_, .inl rfl,
    fun id pos inside => ?_, fun id pos inside => ?_⟩ run rfl⟩
  · show (1 : UInt32).toNat + 1 < 2 ^ 32
    decide
  · match q with
    | 0 | 1 | _ + 2 => rfl
  · obtain rfl : id = 1 := Nat.le_antisymm (Nat.le_of_lt_succ inside) pos
    rfl
  · obtain rfl : id = 1 := Nat.le_antisymm (Nat.le_of_lt_succ inside) pos
    exact .inr (.inr (.inl rfl))

end Machine

end AccessOrder.Pool
