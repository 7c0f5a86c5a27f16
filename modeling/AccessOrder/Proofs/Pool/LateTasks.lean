/- # A task that comes too late

The owner of a barrier looks at its own queue and sees a task there, which is stolen before it has
got the lock of the queue: its operation brings nothing, and it has to count a drain.  If the thief
is about to put a task for the owner into this queue, it has to wait for the lock, so the owner
learns of the task only after that drain, and has to count one more when it has run it.  An owner
that has room for a single drain does not come out of the barrier then.

* `Spent.move` : such an owner leads a round then, having counted as many drains as it can;
* `Late.turn` : it comes out of no round as long as the task that only it can run has not been run;
* `exists_endless` : an owner may wait for ever in a pool that is too large, without room for the
  drains that are due, and when a drain was too many in an earlier call.
-/
import AccessOrder.Proofs.Pool.Exhaustion
import AccessOrder.Proofs.Pool.Overcounting
import AccessOrder.Proofs.Pool.Pinning
namespace AccessOrder.Pool

/-- Whether an item that is of the task of the number `s` shows that the task declares no handle. -/
def Item.Bare (s : Nat) : Item → Prop
  | .draft d => d.serial = s → d.pending = [] ∧ d.resolved = []
  | .arriving t | .loose t | .bound t _ => t.serial = s → t.dependencies = []
  | .guard .. => True
  | .running f _ => f.task.serial = s → f.task.dependencies = []

/-- What is not of the task is not concerned. -/
theorem Item.bare_of_other {s : Nat} (x : Item) (other : .task s ∉ x.keys) : x.Bare s := by
  cases x with
  | guard => trivial
  | draft | arriving | loose | bound | running =>
      exact fun same => absurd (same ▸ List.mem_cons_self) other

/-- Nothing that becomes of a task gives it a handle. -/
theorem lasting_bare (s : Nat) : Lasting (Item.Bare s) where
  guard _ _ := trivial
  resolve _ some bare same := absurd ((bare same).1.symm.trans some) (List.cons_ne_nil _ _).symm
  built bare same := (bare same).2
  accept bare := bare
  mark bare := bare
  bound _ := .rfl
  take _ bare := bare
  run _ _ bare := bare

namespace Machine

variable {m after : Machine} {past : List Moment} {s : Nat} {mv : Move}

/-! ## An owner that has no room -/

/-- The owner of a barrier is about to count the last drain that it can count, or leads a round
after it. -/
def Spent (m : Machine) : Prop :=
  m.controlOf 0 = .popping (.release none) ∧ m.drains + 2 = 2 ^ 32 ∨
    (∃ l, m.controlOf 0 = .leading l) ∧ m.drains + 1 = 2 ^ 32

/-- Such an owner waits at the barrier. -/
theorem Spent.awaiting (spent : m.Spent) : (m.controlOf 0).awaiting = true := by
  rcases spent with ⟨now, -⟩ | ⟨⟨l, now⟩, -⟩ <;> rw [now] <;> rfl

/-- Such an owner runs no task. -/
theorem Spent.unexecuting (spent : m.Spent) (e : Execution) : m.controlOf 0 ≠ .executing e := by
  rcases spent with ⟨now, -⟩ | ⟨⟨l, now⟩, -⟩ <;> rw [now] <;> rintro ⟨⟩

/-- An owner whose operation has brought nothing leads a round after the drain that it counts,
unless it comes out of the barrier. -/
theorem Spent.finds (sound : m.Sound) (now : m.controlOf 0 = .popping (.release none))
    (room : m.drains + 2 = 2 ^ 32) (stepped : m.step 0 = some after)
    (stays : after.controlOf 0 ≠ .away) : after.Spent ∨ after.Tired := by
  obtain ⟨x, w, found, passes, course⟩ := sound.step_popping now stepped
  have here : 0 < x.workers.size := passes.crew.symm ▸ (Array.getElem?_eq_some_iff.1 found).1
  -- the operation has come to its end
  have brings : ∀ {turn}, m.queueStep 0 (.release none) = (x, turn) →
      (∃ f, turn = .fails f) ∨ turn = .ends none := by
    intro turn came
    have result := m.queueStep_release 0 none
    rwa [came] at result
  rcases course with ⟨p', came, rfl⟩ | ⟨t, came, rfl⟩ | ⟨came, rfl⟩ | ⟨f, came, rfl⟩
  · rcases brings came with ⟨f, failed⟩ | ended
    · cases failed
    · cases ended
  · rcases brings came with ⟨f, failed⟩ | ended
    · cases failed
    · cases ended
  · have leads : w.duty.leads = true := by
      obtain ⟨rounds, leads⟩ := sound.exists_lead
      rw [dutyOf_of_found found] at leads
      rw [leads]
      rfl
    obtain ⟨c, next, which, -⟩ := idleStep_of_leads leads here
    cases sound.ownStep_idle found passes fun _ => by rw [due, now] with
    | works working =>
        rw [next] at working
        rcases which with ⟨rfl, -⟩ | rfl | rfl <;> exact working.elim
    | leads leading more => exact .inl (.inr ⟨⟨_, leading⟩, by omega⟩)
    | returns _ _ returned => exact absurd returned.1 stays
    | overflows failed => exact .inr (.inr ⟨_, failed⟩)
  · exact .inr (.inr ⟨f, controlOf_setControl_self here _⟩)

/-- An owner that has counted as many drains as it can is tired after the round that it leads,
unless it comes out of the barrier. -/
theorem Spent.leads {l : Lead} (now : m.controlOf 0 = .leading l) (full : m.drains + 1 = 2 ^ 32)
    (stepped : m.step 0 = some after) (stays : after.controlOf 0 ≠ .away) :
    after.Spent ∨ after.Tired := by
  have heads := heads_of_leading now stepped
  have same := drains_congr heads.duty
  rcases heads.control (lt_of_controlOf (by simp [now])) with leading | away | pops | failed
  · exact .inl (.inr ⟨leading, same ▸ full⟩)
  · exact absurd away stays
  · refine .inr (.inl ⟨by rw [pops]; rfl, fun l' next => ?_, same ▸ full⟩)
    rw [pops] at next
    cases next
  · exact .inr (.inr failed)

/-- Such an owner stays so, or is tired, unless it comes out of the barrier. -/
theorem Spent.move (spent : m.Spent) (sound : m.Sound) (inner : mv.Inner m.size)
    (moved : m.move mv = some after) (stays : after.controlOf 0 ≠ .away) :
    after.Spent ∨ after.Tired := by
  by_cases own : mv.actor = 0
  · obtain ⟨-, stepped⟩ := step_of_awaiting moved own spent.awaiting
    rcases spent with ⟨now, room⟩ | ⟨⟨l, now⟩, full⟩
    · exact Spent.finds sound now room stepped stays
    · exact Spent.leads now full stepped stays
  · have owner := (sound.move moved).others 0 (Ne.symm own)
    have same := drains_congr (sound.duty_of_inner inner own moved)
    rw [Spent, owner, same]
    exact .inl spent

/-! ## A task that only the owner can run -/

/-- A task is given up by the one that has run it. -/
theorem executing_of_disposed (disposed : .disposed s ∈ m.moments mv) :
    ∃ e, m.controlOf mv.actor = .executing e ∧ e.task.serial = s := by
  have keeps : ∀ {s' : Submission}, .disposed s ∉ s'.moments m := by
    intro s' disposed
    unfold Submission.moments at disposed
    split at disposed
    · split at disposed
      · cases disposed
      · split at disposed <;> simp at disposed
    · split at disposed <;> simp at disposed
    · cases disposed
    · cases disposed
  unfold moments at disposed
  split at disposed
  · next id =>
    show ∃ e, m.controlOf id = .executing e ∧ e.task.serial = s
    unfold Control.moments at disposed
    split at disposed
    · exact absurd disposed keeps
    · next e now =>
      refine ⟨e, now, ?_⟩
      unfold Execution.moments at disposed
      split at disposed
      · simp at disposed
      · simp at disposed
      · exact absurd disposed keeps
      · split at disposed <;> simp at disposed
      · exact (Moment.disposed.inj (List.mem_singleton.1 disposed)).symm
      · cases disposed
    · cases disposed
  · cases disposed

/-- The owner has room for the next drain only, and a task that only it can run has been accepted
and has not been run. -/
structure Late (m : Machine) (past : List Moment) (s : Nat) : Prop where
  spent : m.Spent
  stuck : Stuck s past
  begun : s < m.begun
  pinned : Everywhere (Item.Keeps s 0) m.world m.hands
  bare : Everywhere (Item.Bare s) m.world m.hands

variable {l : Launch} {vocabulary : Access.Vocabulary} {handles callers : Nat}
  {references : Array HandleId}

/-- The owner of such a pool goes on waiting, whoever goes on. -/
theorem Late.turn (late : m.Late past s)
    (run : (l.opening vocabulary handles callers references).Runs past m)
    (inner : mv.Inner m.size) (moved : m.move mv = some after) :
    after.Late (m.moments mv ++ past) s ∨ after.Tired := by
  have stuck : Stuck s (m.moments mv ++ past) := by
    refine ⟨List.mem_append_right _ late.stuck.1, fun gone => ?_⟩
    rcases List.mem_append.1 gone with disposed | before
    · obtain ⟨e, now, same⟩ := executing_of_disposed disposed
      have own := (run.confines late.pinned).taken mv.actor e.task (by rw [now]; rfl) same
      exact late.spent.unexecuting e (own ▸ now)
    · exact late.stuck.2 before
  obtain ⟨begun, pinned⟩ :=
    run.lasts_turn late.begun (lasting_keeps s 0) Item.keeps_of_other late.pinned moved
  obtain ⟨-, bare⟩ :=
    run.lasts_turn late.begun (lasting_bare s) Item.bare_of_other late.bare moved
  have stays : after.controlOf 0 ≠ .away := by
    intro back
    have orderly := (run.turn mv moved).orderly.2
    obtain ⟨h, v, t, waiting, same⟩ :=
      orderly.waiting_of_stuck (run.quiet_of_back late.spent.awaiting moved back) stuck
    obtain ⟨d, blocked, -⟩ := orderly.waits h v t waiting
    have none : t.dependencies = [] := bare (.waiting h v) _ (List.mem_map_of_mem waiting) same
    rw [Task.blocker?, none] at blocked
    cases blocked
  exact (late.spent.move run.orderly.1 inner moved stays).imp_left fun spent =>
    ⟨spent, stuck, begun, pinned, bare⟩

/-- The owner of such a pool goes on waiting, whatever it and the workers go on to do. -/
theorem Late.works (late : m.Late past s)
    (run : (l.opening vocabulary handles callers references).Runs past m) (works : m.Works after) :
    after.Tired ∨ ∃ past,
      (l.opening vocabulary handles callers references).Runs past after ∧ after.Late past s := by
  induction works with
  | refl => exact .inr ⟨past, run, late⟩
  | turn mv works inner moved ih =>
      obtain ⟨_, before⟩ := (run.reaches.trans works.reaches).exists_runs
      rcases ih with tired | ⟨past, run, late⟩
      · exact .inl (tired.move before.orderly.1 before.orderly.2 inner moved)
      · rcases late.turn run inner moved with late | tired
        · exact .inr ⟨_, run.turn mv moved, late⟩
        · exact .inl tired

/-- The owner of such a pool waits for ever. -/
theorem Late.endless (late : m.Late past s)
    (run : (l.opening vocabulary handles callers references).Runs past m) (up : m.crash = none)
    (running : m.shutdown = false) (returns : m.cost.breaks = 0) : m.Endless := by
  refine ⟨late.spent.awaiting, up, running, returns, fun a works returned => ?_⟩
  rcases late.works run works with tired | ⟨_, -, late⟩
  · exact tired.stays returned.1
  · have awaiting := late.spent.awaiting
    rw [returned.1] at awaiting
    cases awaiting

/-- A task without accesses that is on its way into the queue of an owner without room. -/
theorem Runs.late_of_bound (run : (l.opening vocabulary handles callers references).Runs past m)
    (id : WorkerId) (t : Task) (mine : .bound t 0 ∈ m.hands id) (pinned : t.pin = some 0)
    (bare : t.dependencies = []) (spent : m.Spent) : m.Late past t.serial := by
  obtain ⟨sound, orderly⟩ := run.orderly
  have item : .bound t 0 ∈ m.world.items m.hands (.hands id) := mine
  have told : about t.serial past = story t.serial t.dependencies .accepted :=
    orderly.tells _ _ item
  refine ⟨spent, ⟨?_, fun gone => ?_⟩, begun_of_keys (orderly.fits _ _ item) List.mem_cons_self,
    orderly.everywhere item List.mem_cons_self (fun _ => pinned) Item.keeps_of_other,
    orderly.everywhere item List.mem_cons_self (fun _ => bare) Item.bare_of_other⟩
  · have accepted : .accepted t.serial ∈ about t.serial past := by
      rw [told, accepted_mem_story]
      rintro ⟨⟩
    exact (mem_about.1 accepted).1
  · have disposed : .disposed t.serial ∈ about t.serial past := mem_about.2 ⟨gone, rfl⟩
    rw [told, disposed_mem_story] at disposed
    cases disposed

/-! ## A stolen task -/

/-- A task that is pinned to nobody, and hands in one for the owner. -/
def stray : Blueprint Act := ⟨"stray", [], .normal, none, none, [.spawn (errand [])]⟩

/-- The task that has been built from it as the one of this number. -/
def strayTask (serial : Nat) : Task :=
  ⟨serial, some ⟨"stray", [.spawn (errand [])]⟩, [], 0, .normal, none, none⟩

/-- A pool of an owner whose operation on its own queue has brought nothing and of one worker, which
waits for the lock of this queue, to put a task there that it has handed in. -/
def belated (rounds : UInt32) (word : UInt64) (serial begun : Nat) (events : List Event) :
    Machine :=
  { smallPool ⟨2, Nat.two_pos⟩ with
    begun := begun + 1
    barrier := ⟨word, false⟩
    queues := #[⟨.plain (.flat []), 0, true⟩, .empty .plain .flat]
    workers := #[⟨.popping (.release none), .lead rounds, ⟨0, 2, 0⟩, 0, []⟩,
      ⟨.executing (.hand ⟨{ strayTask serial with work := none }, "stray", []⟩ [] [] []
        (.enqueue 0 (.acquire (.push (errandTask begun []))))), .work,
        Thief.next ⟨1, 2, 1⟩, 0, []⟩]
    events := events }

variable {rounds : UInt32} {word : UInt64} {begun : Nat} {results : List Outcome}
  {events : List Event}

/-- The owner hands in a task that is pinned to nobody and sees it in its own queue, and the worker
comes to look at the word. -/
theorem plays_stray (serial : Nat) : plays (steps 0 20 ++ steps 1 5)
    (feeding rounds popping word (feed [] results)
      ⟨.plain (.flat [errandTask serial [.spawn stray]]), 1, false⟩ begun events) =
    some (feeding rounds (.popping (.acquire .pop)) word (.serving .look)
      ⟨.plain (.flat [strayTask begun]), 1, false⟩ (begun + 1)
      (.disposed ⟨0, none, [], 0, .normal, some 1, none⟩ .discard ::
        .ran 1 "feeder" ⟨0, none, [], 0, .normal, some 1, none⟩ results.reverse ::
        .disposed { errandTask serial [] with work := none } .discard ::
        .ran 0 "errand" { errandTask serial [] with work := none } [.versions []] :: events)) := by
  cbv

/-- The worker steals the task and runs it, and the owner finds its queue empty. -/
theorem plays_belated (serial : Nat) : plays (steps 1 12 ++ steps 0 3)
    (feeding rounds (.popping (.acquire .pop)) word popping
      ⟨.plain (.flat [strayTask serial]), 1, false⟩ begun events) =
    some (belated rounds word serial begun events) := by
  cbv

/-- An owner may wait for ever although it has room for one more drain. -/
theorem exists_late_endless : ∃ c m, (smallPool ⟨2, by decide⟩).Looking c m ∧
    (smallPool ⟨2, by decide⟩).Counts m ∧ m.drains + 1 < 2 ^ 32 ∧ m.Endless := by
  obtain ⟨results, begun, events, fed⟩ := exists_fed turn_of_unfailed (2 ^ 32 - 3) (by decide)
    [.spawn (errand [.spawn stray])] ⟨.refl, .refl⟩
  have near : (2 ^ 32 - 3 : Nat) + 1 < 0 + 2 ^ 32 := by decide
  -- the owner gets the task that hands in the stray one when it can count one more drain only
  have handed := kept_round turn_of_unfailed (by decide) fed
  have seen := kept_plays turn_of_unfailed handed (near_feeding near) (plays_stray begun)
  have near : (2 ^ 32 - 3 : Nat) + 1 < (2 ^ 32 - 3 + 1) + 2 ^ 32 := by decide
  have looked := turn_of_unfailed (.step 1) seen move_look (near_feeding near) rfl
  obtain ⟨looking, counts⟩ :=
    kept_plays turn_of_unfailed looked (near_feeding near) (plays_belated (begun + 1))
  obtain ⟨past, run⟩ := counts.exists_runs
  have full : (UInt32.ofNat (2 ^ 32 - 3 + 1)).toNat + 2 = 2 ^ 32 := by decide
  have late := run.late_of_bound 1 (errandTask (begun + 1 + 1) []) List.mem_cons_self rfl rfl
    (.inl ⟨rfl, full⟩)
  refine ⟨_, _, looking, counts, ?_, late.endless run rfl rfl rfl⟩
  show (UInt32.ofNat (2 ^ 32 - 3 + 1)).toNat + 1 < 2 ^ 32
  omega

/-- An owner may wait for ever at the barrier although less than 2^32 rounds have been opened
between two looks of a worker: in a pool with more workers than a word can count, when it has
counted as many drains as it can, when it has room for one more drain only although its own queue
is in use by an operation that brings nothing, and when it has had to give up an earlier call for
a drain too many. -/
theorem exists_endless :
    (∃ c m, (smallPool ⟨2 ^ 30 + 1, by decide⟩).Looking c m ∧
      (smallPool ⟨2 ^ 30 + 1, by decide⟩).Counts m ∧ m.drains + m.due < 2 ^ 32 ∧ m.Endless) ∧
    (∃ c m, (smallPool ⟨2, by decide⟩).Looking c m ∧ (smallPool ⟨2, by decide⟩).Counts m ∧
      m.Endless) ∧
    (∃ c m, (smallPool ⟨2, by decide⟩).Looking c m ∧ (smallPool ⟨2, by decide⟩).Counts m ∧
      m.drains + 1 < 2 ^ 32 ∧ m.Endless) ∧
    ∃ c m, (smallPool ⟨2, by decide⟩).Looking c m ∧ m.drains + m.due < 2 ^ 32 ∧ m.Endless :=
  ⟨exists_crowded (by decide), exists_tired_endless, exists_late_endless, exists_deserted_endless⟩

end Machine

end AccessOrder.Pool
