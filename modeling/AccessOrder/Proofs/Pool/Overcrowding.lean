/- # Overcrowding

A word counts no more than 2^30 - 1 workers that have joined.  In a pool in which more have to join
a round, the one that would be the first too many fails when it tries to, no round ever drains, and
an owner that has taken the lead of a barrier never comes out of it.

* `Endless` : there is no way for the owner to come out of the barrier;
* `Crowded.works` : the owner of a pool with too many workers goes on waiting, or fails;
* `endless_enterBarrier` : it waits for ever, although there is nothing to be done.
-/
import AccessOrder.Proofs.Pool.Returns
namespace AccessOrder.Pool

open Barrier (Word Phase)

/-- Whether the leader has found that all have joined, and nothing against the round since. -/
def Lead.mustered : Lead → Bool
  | .survey .. | .recheck _ | .close _ true => true
  | _ => false

/-- No word tells of more workers than a word can count. -/
theorem joined_le_maxJoined {raw : UInt64} {w : Word} (read : Word.unpack raw = .ok w) :
    w.joined.toNat ≤ Word.maxJoined := by
  unfold Word.unpack at read
  split at read
  · cases read
  · cases read
    simp only [UInt64.toNat_toUInt32, UInt64.toNat_mod, UInt64.reduceToNat, Word.maxJoined]
    omega

namespace Machine

/-- The owner waits at the barrier and cannot come out of it by any turns of its own and of the
workers, although the pool is neither taken down nor stopped and no work is broken off. -/
structure Endless (m : Machine) : Prop where
  awaiting : (m.controlOf 0).awaiting = true
  up : m.crash = none
  running : m.shutdown = false
  returns : m.cost.breaks = 0
  never : ∀ a, m.Works a → ¬a.Returned

/-- The owner has taken the lead of a barrier in a pool in which more workers have to join a round
than a word can count, and has neither come out of it nor found that all have joined. -/
structure Crowded (m : Machine) : Prop where
  many : Word.maxJoined < m.participants
  stays : (m.controlOf 0).awaiting = true ∨ m.controlOf 0 = .failed .drainsUncounted
  unmustered : ∀ l, m.controlOf 0 = .leading l → l.mustered = false
  undrained : ∀ w, m.barrier.load = .ok w → w.phase ≠ .draining

variable {m after : Machine} {l : Lead}

/-- An owner that leads a round in a pool with too many workers goes on, or closes the round. -/
theorem Crowded.control (crowded : m.Crowded) (rounds : m.Rounds)
    (now : m.controlOf 0 = .leading l) (stepped : m.step 0 = some after) :
    after.controlOf 0 = popping ∨
      ∃ l', after.controlOf 0 = .leading l' ∧ l'.mustered = false := by
  have stage := rounds.stage
  have unmustered := crowded.unmustered l now
  have here : 0 < m.workers.size := lt_of_controlOf (by simp [now])
  rw [now] at stage
  have goes : ∀ {b : Barrier.State} {l' : Lead}, l'.mustered = false →
      (setControl { m with barrier := b } 0 (.leading l')).controlOf 0 = popping ∨
        ∃ l'', (setControl { m with barrier := b } 0 (.leading l')).controlOf 0 = .leading l'' ∧
          l''.mustered = false :=
    fun unmustered => .inr ⟨_, controlOf_setControl_self (by exact here) _, unmustered⟩
  cases directs_of_leading now stepped with
  | misreads failed =>
      obtain ⟨w, loaded, idle⟩ := stage
      rw [Barrier.State.nextRound_of_idle loaded idle] at failed
      cases failed
  | baffled failed =>
      obtain ⟨w, loaded, -⟩ := stage
      rw [failed] at loaded
      cases loaded
  | drains loaded drains => exact absurd drains (crowded.undrained _ loaded)
  | passes | finds | surveyed | judges | returns => cases unmustered
  | resumes => exact .inl (controlOf_setControl_self (by exact here) _)
  | reads | clears | announces | warned | unwarned | unburdened | burdened | waits =>
      exact goes rfl

/-- No word that the leader writes lets a round drain. -/
theorem Heads.undrained (heads : m.Heads l after)
    (undrained : ∀ w, m.barrier.load = .ok w → w.phase ≠ .draining) {w : Word}
    (loaded : after.barrier.load = .ok w) : w.phase ≠ .draining := by
  have fresh : ∀ {round : UInt32} {phase : Phase}, phase ≠ .draining →
      Word.unpack (Barrier.State.fresh round phase) = .ok w → w.phase ≠ .draining := by
    intro round phase other read
    rw [Barrier.State.unpack_fresh] at read
    cases read
    exact other
  cases heads with
  | announces => exact fresh (by rintro ⟨⟩) loaded
  | closes => exact fresh (by rintro ⟨⟩) loaded
  | _ => exact undrained w loaded

/-- No word that a worker writes lets a round drain if there are more workers than it can count. -/
theorem Aside.undrained {id : WorkerId} {ms : List Moment} (aside : m.Aside id ms after)
    (swaps : m.Swaps) (many : Word.maxJoined < m.participants)
    (undrained : ∀ w, m.barrier.load = .ok w → w.phase ≠ .draining) {w : Word}
    (loaded : after.barrier.load = .ok w) : w.phase ≠ .draining := by
  cases aside.serves with
  | aside barrier _ _ => exact undrained w (barrier ▸ loaded)
  | raises barrier _ =>
      rw [barrier] at loaded
      exact undrained w loaded
  | joins now barrier _ =>
      intro drains
      obtain ⟨-, w', -, -, -, written, -, -, all, -⟩ := joined_eq_ok_some (swaps _ _ _ _ now)
      rw [Barrier.State.load, barrier, show Word.unpack _ = .ok w' from written] at loaded
      cases loaded
      have counted := joined_le_maxJoined written
      rw [all drains] at counted
      exact Nat.not_lt_of_le counted many

/-- The owner of a pool with too many workers goes on waiting after a step in a round. -/
theorem Crowded.leading (crowded : m.Crowded) (rounds : m.Rounds)
    (now : m.controlOf 0 = .leading l) (stepped : m.step 0 = some after) : after.Crowded := by
  have many : Word.maxJoined < after.participants := by
    rw [participants, size_step stepped]
    exact crowded.many
  have undrained : ∀ w, after.barrier.load = .ok w → w.phase ≠ .draining := fun w =>
    (heads_of_leading now stepped).undrained crowded.undrained
  rcases crowded.control rounds now stepped with next | ⟨l', next, unmustered⟩
  · refine ⟨many, .inl (by rw [next]; rfl), fun l now => ?_, undrained⟩
    rw [next] at now
    cases now
  · refine ⟨many, .inl (by rw [next]; rfl), fun l now => ?_, undrained⟩
    rw [next] at now
    cases now
    exact unmustered

/-- The owner of a pool with too many workers goes on waiting after a step in which it takes a task
or runs one, or fails. -/
theorem Crowded.working (crowded : m.Crowded) (sound : m.Sound) {past : List Moment}
    (orderly : Orderly past m.world m.hands) (awaiting : (m.controlOf 0).awaiting = true)
    (unleading : ∀ l, m.controlOf 0 ≠ .leading l) (stepped : m.step 0 = some after) :
    after.Crowded := by
  have goes := sound.next stepped (fun s now => by rw [now] at awaiting; cases awaiting) unleading
  have many : Word.maxJoined < after.participants := by
    rw [participants, size_step stepped]
    exact crowded.many
  have undrained : ∀ w, after.barrier.load = .ok w → w.phase ≠ .draining := by
    rw [goes.barrier]
    exact crowded.undrained
  cases sound.ownStep orderly awaiting (atWork_of_awaiting awaiting unleading) stepped with
  | works working awaiting =>
      refine ⟨many, .inl awaiting, fun l now => ?_, undrained⟩
      rw [now] at working
      exact working.elim
  | leads next =>
      refine ⟨many, .inl (by rw [next]; rfl), fun l now => ?_, undrained⟩
      rw [next] at now
      cases now
      rfl
  | returns none => exact absurd crowded.many (by rw [none]; exact Nat.not_lt_zero _)
  | overflows failed =>
      refine ⟨many, .inr failed, fun l now => ?_, undrained⟩
      rw [failed] at now
      cases now

/-- The owner of a pool with too many workers goes on waiting after its own turn, or fails. -/
theorem Crowded.own (crowded : m.Crowded) (sound : m.Sound) (rounds : m.Rounds)
    {past : List Moment} (orderly : Orderly past m.world m.hands) {mv : Move}
    (moved : m.move mv = some after) (own : mv.actor = 0) (inner : mv.Inner m.size) :
    after.Crowded := by
  have awaiting := crowded.stays.resolve_right (own ▸ not_failed_of_inner inner moved _)
  obtain ⟨-, stepped⟩ := step_of_awaiting moved own awaiting
  by_cases leading : ∃ l, m.controlOf 0 = .leading l
  · obtain ⟨l, now⟩ := leading
    exact crowded.leading rounds now stepped
  · exact crowded.working sound orderly awaiting (fun l now => leading ⟨l, now⟩) stepped

/-- The owner of a pool with too many workers goes on waiting, whoever goes on, or fails. -/
theorem Crowded.move (crowded : m.Crowded) (sound : m.Sound) (rounds : m.Rounds)
    {past : List Moment} (orderly : Orderly past m.world m.hands) {mv : Move}
    (moved : m.move mv = some after) (inner : mv.Inner m.size) : after.Crowded := by
  by_cases own : mv.actor = 0
  · exact crowded.own sound rounds orderly moved own inner
  · have aside := sound.aside_move moved own
    have owner := aside.others 0 (Ne.symm own)
    refine ⟨?_, by rw [owner]; exact crowded.stays, fun l now => crowded.unmustered l (owner ▸ now),
      fun w => aside.undrained rounds.swaps crowded.many crowded.undrained⟩
    rw [participants, aside.size]
    exact crowded.many

variable {l : Launch} {vocabulary : Access.Vocabulary} {handles callers : Nat}
  {references : Array HandleId}

/-- What the owner and the workers go on to do keeps what every turn of theirs keeps. -/
theorem Works.invariant {past : List Moment} (works : m.Works after)
    (run : (l.opening vocabulary handles callers references).Runs past m) {kept : Machine → Prop}
    (turns : ∀ {past x y mv}, (l.opening vocabulary handles callers references).Runs past x →
      kept x → mv.Inner x.size → x.move mv = some y → kept y) (start : kept m) : kept after := by
  induction works with
  | refl => exact start
  | turn mv works inner moved ih =>
      obtain ⟨_, run⟩ := (run.reaches.trans works.reaches).exists_runs
      exact turns run ih inner moved

/-- The owner of a pool with too many workers does not come out of the barrier. -/
theorem Crowded.works {past : List Moment} (crowded : m.Crowded)
    (run : (l.opening vocabulary handles callers references).Runs past m) (works : m.Works after) :
    after.Crowded :=
  works.invariant run (fun run crowded inner moved =>
    crowded.move run.orderly.1 run.rounds run.orderly.2 moved inner) crowded

/-! ## A pool with too many workers -/

/-- There is an owner as a pool starts. -/
theorem manned_opening : 0 < (l.opening vocabulary handles callers references).workers.size := by
  have found := workers_opening l vocabulary handles callers references 0
  rw [if_pos (show 0 < l.size from (l.options.workers.getD l.parallelism).pos)] at found
  exact (Array.getElem?_eq_some_iff.1 found).1

/-- The owner may take the lead of a barrier as a pool starts. -/
theorem lead_opening : (l.opening vocabulary handles callers references).move .lead =
    some (l.opening vocabulary handles callers references).enterBarrier := by
  have control := controlOf_opening l vocabulary handles callers references
  have exclusive : (l.opening vocabulary handles callers references).exclusive = true := by
    simp only [Machine.exclusive, Machine.free, Machine.outer, Bool.and_eq_true]
    refine ⟨⟨rfl, ⟨rfl, decide_eq_true manned_opening⟩, ?_⟩, ?_⟩
    · rw [control, if_neg fun both => Nat.lt_irrefl 0 both.1]
      rfl
    · rw [Array.all_eq_true_iff_forall_mem]
      intro w mem
      obtain ⟨id, found⟩ := Array.mem_iff_getElem?.1 mem
      rw [← controlOf_of_found found, control]
      split <;> rfl
  simp only [Machine.move, exclusive]
  rfl

/-- Nobody waits for a version of a handle as a pool starts. -/
theorem stock_opening : (l.opening vocabulary handles callers references).world.stock = 0 := by
  rw [world_opening, World.stock]
  simp only [tally_nil, Finset.sum_const_zero, zero_add, add_zero]
  refine Finset.sum_eq_zero fun h _ => ?_
  obtain ⟨entries, same⟩ := Handles.view_fresh handles vocabulary.listed.length h
  rw [same]
  rfl

/-- Nothing is ahead of a pool whose owner takes the lead of a barrier as it starts. -/
theorem cost_of_lead_opening :
    (l.opening vocabulary handles callers references).enterBarrier.cost = 0 := by
  have stock : (l.opening vocabulary handles callers references).enterBarrier.world.stock = 0 :=
    @stock_opening l vocabulary handles callers references
  rw [cost, stock, zero_add]
  refine Finset.sum_eq_zero fun id _ => ?_
  by_cases own : id = 0
  · rw [own, controlOf_enterBarrier manned_opening]
    rfl
  · have sound := sound_opening l vocabulary handles callers references
    rw [(sound.move lead_opening).others id own, controlOf_opening]
    split <;> rfl

/-- An owner that takes the lead of a barrier as a pool with too many workers starts waits for
ever. -/
theorem endless_enterBarrier (many : Word.maxJoined + 1 < l.size) :
    (l.opening vocabulary handles callers references).enterBarrier.Endless := by
  have led : (l.opening vocabulary handles callers references).enterBarrier.controlOf 0 =
      Machine.popping := controlOf_enterBarrier manned_opening
  have awaiting : ((l.opening vocabulary handles callers references).enterBarrier.controlOf
      0).awaiting = true := by rw [led]; rfl
  have crowded : (l.opening vocabulary handles callers references).enterBarrier.Crowded := by
    refine ⟨?_, .inl awaiting, fun l now => ?_, fun w loaded => ?_⟩
    · show _ < (l.opening vocabulary handles callers references).size - 1
      rw [size_opening]
      omega
    · rw [led] at now
      cases now
    · rw [show barrier _ = .new from rfl, Barrier.State.load_new] at loaded
      cases loaded
      rintro ⟨⟩
  refine ⟨awaiting, rfl, rfl, by rw [cost_of_lead_opening]; rfl, fun a works returned => ?_⟩
  rcases (crowded.works (Runs.refl.turn .lead lead_opening) works).stays with awaiting | failed
  · rw [returned.1] at awaiting
    cases awaiting
  · cases returned.1.symm.trans failed

end Machine

end AccessOrder.Pool
