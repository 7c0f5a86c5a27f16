/- # Searches

A worker that has found its own queue empty searches those of the others: it tries to steal from one
after the other, in the order that its generator tells, until it has got a task or has tried all.
The generator goes on by one state for each search, and by nothing else.

* `Reaches.thief` : the thief of a worker has gone through some number of rounds;
* `Search` : the turns during a search, with the queues that have been tried;
* `Search.follows` : the queues are tried in the order of the round;
* `searches_cover` : a round leads once around all other workers, whatever their number and whatever
  rounds went before, and a search follows it.
-/
import AccessOrder.Proofs.Pool.TakingTasks
import AccessOrder.Proofs.Pool.History
import AccessOrder.Proofs.Thief.Rotation
namespace AccessOrder.Pool

open Function (update)

namespace Machine

variable {m a b after : Machine} {id : WorkerId}

/-! ## Who keeps the thieves -/

/-- The thief of every worker. -/
def thieves (m : Machine) (id : WorkerId) : Option Thief := m.workers[id]?.map Worker.thief

/-- A worker may change as long as its thief stays. -/
theorem thieves_modify {f : Worker → Worker} (kept : ∀ w, (f w).thief = w.thief) :
    thieves { m with workers := m.workers.modify id f } = m.thieves := by
  funext other
  unfold thieves
  rw [Array.getElem?_modify]
  split
  · rw [Option.map_map]
    exact congrArg (fun g => m.workers[other]?.map g) (funext kept)
  · rfl

@[simp] theorem thieves_setControl (m : Machine) (id : WorkerId) (c : Control) :
    (m.setControl id c).thieves = m.thieves := thieves_modify fun _ => rfl

@[simp] theorem thieves_setScratch (m : Machine) (id : WorkerId) (bytes : List Nat) :
    (m.setScratch id bytes).thieves = m.thieves := thieves_modify fun _ => rfl

@[simp] theorem thieves_see (m : Machine) (id : WorkerId) (round : UInt32) :
    (m.see id round).thieves = m.thieves := thieves_modify fun _ => rfl

@[simp] theorem thieves_tell (m : Machine) (e : Event) : (m.tell e).thieves = m.thieves := rfl

@[simp] theorem thieves_begin (m : Machine) (b : Blueprint Act) :
    (m.begin b).2.thieves = m.thieves := by
  unfold begin
  split <;> rfl

/-- An activity that goes on keeps the thieves if they are kept when the activity ends. -/
theorem thieves_onward {α β γ δ : Type} {r : Machine × Turn α β} {goes : α → γ}
    {ends : Machine → β → Machine × Turn γ δ} (kept : ∀ m b, (ends m b).1.thieves = m.thieves) :
    (onward r goes ends).1.thieves = r.1.thieves := by
  unfold onward
  split <;> simp_all

@[simp] theorem thieves_queueStep (m : Machine) (target : WorkerId) (p : Queue.Progress Task) :
    (m.queueStep target p).1.thieves = m.thieves := by
  unfold queueStep
  split
  · rfl
  · split
    · rfl
    · rfl
    · simp only
      split <;> rfl

@[simp] theorem thieves_vetStep (m : Machine) (v : Vetting) :
    (m.vetStep v).1.thieves = m.thieves := by
  unfold vetStep
  simp only
  split <;> rfl

@[simp] theorem thieves_submitStep (m : Machine) (origin : WorkerId) (s : Submission) :
    (m.submitStep origin s).1.thieves = m.thieves := by
  cases s with
  | build draft =>
      simp only [submitStep]
      split <;> rfl
  | arrive t =>
      simp only [submitStep]
      split
      · rfl
      · split <;> rfl
  | vet label v =>
      rw [submitStep, thieves_onward, thieves_vetStep]
      intro m t
      cases t <;> rfl
  | enqueue target p =>
      rw [submitStep, thieves_onward, thieves_queueStep]
      intro m t
      rfl

theorem thieves_actStep {act : Act} {o : Outcome} (done : m.actStep id act = some (after, o)) :
    after.thieves = m.thieves := by
  cases act with
  | completed number | probeLock number =>
      simp only [actStep] at done
      split at done <;> cases done <;> rfl
  | scratchPush byte | scratchClear =>
      cases done
      exact thieves_setScratch ..
  | scratch | borrowTwice | worker | workers | workerText =>
      cases done
      rfl
  | spawn _ | submit _ | abort => cases done

theorem Acts.thieves_eq {f : Frame} {acts : List Act} {results : List Outcome}
    {r : Machine × Turn Execution Unit} (step : m.Acts id f acts results r) :
    r.1.thieves = m.thieves := by
  cases step with
  | returns | aborts | unpicked => rfl
  | unbegun began | begins began =>
      exact (congrArg (·.2.thieves) began).symm.trans (thieves_begin ..)
  | picks picked =>
      obtain ⟨-, rest, -, rfl⟩ := pick_eq_some picked
      rfl
  | does done => exact thieves_actStep done

@[simp] theorem thieves_executeStep (m : Machine) (id : WorkerId) (e : Execution) :
    (m.executeStep id e).1.thieves = m.thieves := by
  have executes := m.executes_executeStep id e
  generalize m.executeStep id e = r at executes
  cases executes with
  | vets vetted | unvetted vetted | parks vetted | workless vetted _ | takes vetted _
  | wakes vetted | reparks vetted | routes vetted | unwoken vetted =>
      exact (congrArg (·.1.thieves) vetted).symm.trans (thieves_vetStep ..)
  | acts step => exact step.thieves_eq
  | hands moved | handed moved | refused moved | detained moved =>
      exact (congrArg (·.1.thieves) moved).symm.trans (thieves_submitStep ..)
  | stores moved | stored moved | misstores moved | withheld moved =>
      exact (congrArg (·.1.thieves) moved).symm.trans (thieves_queueStep ..)
  | _ => rfl

@[simp] theorem thieves_serveStep (m : Machine) (id : WorkerId) (seen : UInt32) (s : Service) :
    (m.serveStep id seen s).1.thieves = m.thieves := by
  unfold serveStep
  split
  case h_1 =>
    split
    · rfl
    · split <;> simp
  all_goals first | rfl | (split <;> rfl)

@[simp] theorem thieves_leadStep (m : Machine) (id : WorkerId) (l : Lead) :
    (m.leadStep id l).1.thieves = m.thieves := by
  cases l with
  | read | watchWord round | survey round queue =>
      simp only [leadStep]
      split <;> rfl
  | clear round | announce round | watchFlag round | watchQueue round | recheck round
  | close round quiet => rfl

/-- Going on with an activity keeps the thieves if its step and its end do. -/
theorem thieves_proceed {α β : Type} {wrap : α → Control} {finish : Machine → β → Machine}
    {r : Machine × Turn α β} (ended : ∀ m b, (finish m b).thieves = m.thieves)
    (stepped : r.1.thieves = m.thieves) (went : proceed id wrap finish r = some after) :
    after.thieves = m.thieves := by
  rw [← stepped]
  unfold proceed at went
  split at went <;> simp only [Option.some.injEq, reduceCtorEq] at went
  all_goals subst went
  · simp
  · exact ended _ _
  · simp
  · rfl

/-! ## Who begins a search -/

/-- Whether a worker steals from the queue of another one. -/
def searching (m : Machine) (id : WorkerId) : Bool :=
  match m.controlOf id with
  | .stealing .. => true
  | _ => false

/-- No stage of an operation leads back to its start. -/
theorem ne_measure_of_step {p next : Queue.Progress Task} {q q' : Queue.Shared Task}
    (stepped : p.step q = .ok (some (next, q'))) (r : Queue.Request Task) : next ≠ .measure r := by
  rintro rfl
  cases p with
  | measure r' =>
      simp only [Queue.Progress.step] at stepped
      split at stepped <;> cases stepped
  | acquire r' =>
      simp only [Queue.Progress.step] at stepped
      split at stepped <;> cases stepped
  | change r' =>
      simp only [Queue.Progress.step] at stepped
      cases applied : r'.apply q.lanes <;> rw [applied] at stepped <;> cases stepped
  | publish x => cases stepped
  | release x => cases stepped
  | done x => cases stepped

/-- What comes of a step of an operation on a queue: it leaves the workers where they are, and does
not start again. -/
theorem queueStep_cases (m : Machine) (target : WorkerId) (p : Queue.Progress Task) :
    (m.queueStep target p).1.workers = m.workers ∧
      (∀ label, (m.queueStep target p).2 ≠ .aborts label) ∧
      ∀ next, (m.queueStep target p).2 = .goes next → ∀ r, next ≠ .measure r := by
  unfold queueStep
  split
  · simp
  · split
    · simp
    · simp
    · next next q' stepped =>
      simp only
      split
      · simp
      · refine ⟨rfl, by simp, ?_⟩
        intro further goes r
        cases goes
        exact ne_measure_of_step stepped r

/-- A worker that has found its own queue empty either keeps its thief and does not search, or lets
it go on by one round, which it follows then. -/
theorem idleStep_cases {w : Worker} (here : id < m.workers.size) :
    ((m.idleStep id w).thieves = m.thieves ∧ (m.idleStep id w).searching id = false) ∨
    ((m.idleStep id w).thieves = update m.thieves id (some w.thief.next) ∧
      (m.idleStep id w).controlOf id = visiting w.thief.next.victims) := by
  have rests := m.rests_idleStep id w
  generalize m.idleStep id w = after at rests
  -- the worker goes on with `c`
  have goes {f : Worker → Worker} (c : Control) :
      (setControl { m with workers := m.workers.modify id f } id c).controlOf id = c :=
    controlOf_setControl_self (by simpa using here) c
  cases rests with
  | visits =>
      refine .inr ⟨?_, goes _⟩
      rw [thieves_setControl]
      funext other
      unfold thieves
      rw [Array.getElem?_modify, Function.update_apply]
      by_cases own : id = other
      · subst own
        simp [here]
      · simp [own, Ne.symm own]
  | overflows =>
      refine .inl ⟨thieves_setControl .., ?_⟩
      rw [searching, controlOf_setControl_self here]
  | @returns rounds next =>
      refine .inl ⟨(thieves_setControl ..).trans (thieves_modify fun _ => rfl), ?_⟩
      show searching (setControl _ id .away) id = false
      rw [searching, goes]
  | leads =>
      refine .inl ⟨(thieves_setControl ..).trans (thieves_modify fun _ => rfl), ?_⟩
      rw [searching, goes]

/-- What a turn does to the thieves: nothing, or one of them goes on by one round. -/
inductive Thieves (m : Machine) (id : WorkerId) (after : Machine) : Prop where
  | kept : after.thieves = m.thieves → Thieves m id after
  | searches (t : Thief) : m.thieves id = some t →
      after.thieves = update m.thieves id (some t.next) → Thieves m id after

/-- A worker that looks for a task in its own queue keeps its thief and does not search, or lets it
go on by one round, which it follows then. -/
theorem thieves_popping {w : Worker} {p : Queue.Progress Task} (found : m.workers[id]? = some w)
    (went : proceed id .popping (afterPop id w) (m.queueStep id p) = some after) :
    (after.thieves = m.thieves ∧ after.searching id = false) ∨
      (after.thieves = update m.thieves id (some w.thief.next) ∧
        after.controlOf id = visiting w.thief.next.victims) := by
  have kept := thieves_queueStep m id p
  have here : id < m.workers.size := (Array.getElem?_eq_some_iff.1 found).1
  obtain ⟨crew, unbroken, -⟩ := queueStep_cases m id p
  generalize m.queueStep id p = r at kept crew unbroken went
  obtain ⟨x, turn⟩ := r
  have inside : id < x.workers.size := by
    rw [show x.workers = m.workers from crew]
    exact here
  have same : x.thieves = m.thieves := kept
  cases turn with
  | waits => cases went
  | aborts label => exact absurd rfl (unbroken label)
  | goes next =>
      cases went
      left
      exact ⟨(thieves_setControl ..).trans same, by
        rw [searching, controlOf_setControl_self inside]⟩
  | fails f =>
      cases went
      left
      exact ⟨(thieves_setControl ..).trans same, by
        rw [searching, controlOf_setControl_self inside]⟩
  | ends result =>
      cases went
      cases result with
      | some t =>
          left
          refine ⟨(thieves_setControl ..).trans same, ?_⟩
          show (x.setControl id _).searching id = false
          rw [searching, controlOf_setControl_self inside]
      | none =>
          rcases idleStep_cases (w := w) inside with ⟨thieves, still⟩ | ⟨thieves, control⟩
          · exact .inl ⟨thieves.trans same, still⟩
          · right
            rw [same] at thieves
            exact ⟨thieves, control⟩

/-- What a step does to the thieves. -/
theorem thieves_step (stepped : m.step id = some after) : m.Thieves id after := by
  obtain ⟨w, found, steps⟩ := step_cases stepped
  generalize now : m.controlOf id = c at steps
  cases steps with
  | submitting moved =>
      exact .kept (thieves_proceed (fun _ _ => thieves_setControl ..) (thieves_submitStep ..) moved)
  | started | stopped | looping => exact .kept (thieves_setControl ..)
  | serving moved =>
      exact .kept (thieves_proceed (fun _ _ => thieves_setControl ..) (thieves_serveStep ..) moved)
  | popping moved =>
      rcases thieves_popping found moved with ⟨kept, -⟩ | ⟨next, -⟩
      · exact .kept kept
      · exact .searches w.thief (by rw [thieves, found, Option.map_some]) next
  | stealing moved =>
      apply Thieves.kept
      apply thieves_proceed _ (thieves_queueStep ..) moved
      intro m t
      cases t <;> exact thieves_setControl ..
  | executing moved =>
      apply Thieves.kept
      exact thieves_proceed (fun _ _ => thieves_setControl ..) (thieves_executeStep ..) moved
  | leading moved =>
      apply Thieves.kept
      apply thieves_proceed _ (thieves_leadStep ..) moved
      intro m quiet
      split
      · rw [thieves_tell, thieves_setControl]
      · exact thieves_setControl ..

/-- What a turn does to the thieves. -/
theorem thieves_move {mv : Move} (moved : m.move mv = some after) : m.Thieves mv.actor after := by
  cases move_cases moved with
  | step admitted stepped => exact thieves_step stepped
  | miss now missed =>
      exact .kept (thieves_proceed (fun _ _ => thieves_setControl ..) rfl missed)
  | call _ calls =>
      refine .kept ((thieves_setControl ..).trans ?_)
      cases calls with
      | spawn _ began => exact (congrArg (·.2.thieves) began).symm.trans (thieves_begin ..)
      | submit _ picked =>
          obtain ⟨-, rest, -, rfl⟩ := pick_eq_some picked
          rfl
      | keep | recover => rfl
  | start | stop => exact .kept rfl
  | lead => exact .kept (thieves_modify fun _ => rfl)

/-- Whatever happens in a pool, the thief of a worker has gone through some number of rounds. -/
theorem Reaches.thief {l : Launch} {vocabulary : Access.Vocabulary} {handles callers : Nat}
    {references : Array HandleId}
    (reached : Reaches (l.opening vocabulary handles callers references) m) (inside : id < l.size) :
    ∃ rounds, m.thieves id = some (Thief.next^[rounds] ⟨id, l.size, UInt64.ofNat id⟩) := by
  refine @Reaches.invariant
    (fun m => ∃ rounds, m.thieves id = some (Thief.next^[rounds] ⟨id, l.size, UInt64.ofNat id⟩)) _ _
    reached ?_ ?_
  · rintro m after mv ⟨rounds, now⟩ moved
    cases thieves_move moved with
    | kept same => exact ⟨rounds, by rw [same, now]⟩
    | searches t found next =>
        by_cases own : id = mv.actor
        · subst own
          obtain rfl := Option.some.inj (found.symm.trans now)
          refine ⟨rounds + 1, ?_⟩
          rw [next, Function.update_self, Function.iterate_succ_apply']
        · exact ⟨rounds, by rw [next, Function.update_of_ne own, now]⟩
  · refine ⟨0, ?_⟩
    unfold thieves
    rw [workers_opening, if_pos inside]
    rfl

/-! ## What a search tries -/

/-- The queue from which a worker begins to steal in its next step. -/
def tried : Control → List WorkerId
  | .stealing victim (.measure _) _ => [victim]
  | _ => []

/-- The queue from which a worker begins to steal in a turn. -/
def tries (m : Machine) (id : WorkerId) : Move → List WorkerId
  | .step actor => if actor = id then tried (m.controlOf id) else []
  | _ => []

/-- Turns while a worker is searching, with the queues from which it has begun to steal, in
order. -/
inductive Search (id : WorkerId) (m : Machine) : List WorkerId → Machine → Prop where
  | refl : Search id m [] m
  | turn {tried : List WorkerId} {a b : Machine} (mv : Move) : Search id m tried a →
      a.searching id = true → a.move mv = some b → Search id m (tried ++ a.tries id mv) b

/-- How far a round has been followed by a worker that has tried these queues and come so far: it is
about to steal from the next one, steals from the last one that it has tried, has found no task in
any, or is done with the round early. -/
def Follows (victims tried : List WorkerId) : Control → Prop
  | .stealing victim (.measure _) rest => tried ++ victim :: rest = victims
  | .stealing victim _ rest => (∃ before, tried = before ++ [victim]) ∧ tried ++ rest = victims
  | .looping => tried = victims
  | _ => tried <+: victims

variable {victims tried rest : List WorkerId} {victim : WorkerId} {p : Queue.Progress Task}

/-- A worker that is searching steals from some queue. -/
theorem exists_stealing (searching : m.searching id = true) :
    ∃ victim p rest, m.controlOf id = .stealing victim p rest := by
  unfold Machine.searching at searching
  split at searching
  · next victim p rest now => exact ⟨victim, p, rest, now⟩
  · cases searching

/-- Only its own steps let a worker try a queue. -/
theorem tries_of_ne {mv : Move} (other : mv.actor ≠ id) : m.tries id mv = [] := by
  cases mv with
  | step actor => exact if_neg other
  | _ => rfl

/-- Whatever comes next, the queues that have been tried after a step end with the one from which
the worker steals, and go on with the rest. -/
theorem Follows.tries (now : m.controlOf id = .stealing victim p rest)
    (follows : Follows victims tried (m.controlOf id)) :
    (∃ before, tried ++ m.tries id (.step id) = before ++ [victim]) ∧
      (tried ++ m.tries id (.step id)) ++ rest = victims := by
  have here : m.tries id (.step id) = Machine.tried (m.controlOf id) := if_pos rfl
  rw [here]
  rw [now] at follows ⊢
  cases p with
  | measure r => exact ⟨⟨tried, rfl⟩, by rw [List.append_assoc]; exact follows⟩
  | acquire | change | publish | release | done =>
      show (∃ before, tried ++ [] = before ++ [victim]) ∧ (tried ++ []) ++ rest = victims
      rw [List.append_nil]
      exact follows

/-- A worker that goes on with the rest of a round follows it. -/
theorem follows_visiting (whole : tried ++ rest = victims) :
    Follows victims tried (visiting rest) := by
  cases rest with
  | nil => exact (List.append_nil tried).symm.trans whole
  | cons victim rest => exact whole

/-- A step of a worker that follows a round. -/
theorem Follows.step (follows : Follows victims tried (m.controlOf id))
    (searching : m.searching id = true) (up : m.crash = none) (stepped : m.step id = some after) :
    Follows victims (tried ++ m.tries id (.step id)) (after.controlOf id) := by
  obtain ⟨victim, p, rest, now⟩ := exists_stealing searching
  have here : id < m.workers.size := lt_of_controlOf (by simp [now])
  obtain ⟨last, whole⟩ := follows.tries now
  obtain ⟨crew, unbroken, onward⟩ := queueStep_cases m victim p
  rw [step_stealing up now] at stepped
  generalize m.queueStep victim p = r at crew unbroken onward stepped
  obtain ⟨x, turn⟩ := r
  have inside : id < x.workers.size := by
    rw [show x.workers = m.workers from crew]
    exact here
  cases turn with
  | waits => cases stepped
  | aborts label => exact absurd rfl (unbroken label)
  | goes next =>
      cases stepped
      rw [controlOf_setControl_self inside]
      have further := onward next rfl
      -- a queue is measured once only, so the worker does not try it again
      cases next with
      | measure r => exact absurd rfl (further r)
      | acquire | change | publish | release | done => exact ⟨last, whole⟩
  | fails f =>
      cases stepped
      rw [controlOf_setControl_self inside]
      exact ⟨rest, whole⟩
  | ends result =>
      cases stepped
      cases result with
      | none =>
          show Follows _ _ ((x.setControl id (visiting rest)).controlOf id)
          rw [controlOf_setControl_self inside]
          exact follows_visiting whole
      | some t =>
          show Follows _ _ ((x.setControl id _).controlOf id)
          rw [controlOf_setControl_self inside]
          exact ⟨rest, whole⟩

/-- A turn of anyone while a worker follows a round. -/
theorem Follows.move (follows : Follows victims tried (m.controlOf id)) (sound : m.Sound)
    (searching : m.searching id = true) {mv : Move} (moved : m.move mv = some after) :
    Follows victims (tried ++ m.tries id mv) (after.controlOf id) := by
  by_cases own : mv.actor = id
  · obtain ⟨victim, p, rest, now⟩ := exists_stealing searching
    have up : m.crash = none := by
      by_contra crashed
      rw [move_eq_none_of_crash (Option.isSome_iff_ne_none.2 crashed)] at moved
      cases moved
    cases move_cases moved with
    | step admitted stepped =>
        cases own
        exact follows.step searching up stepped
    | miss serving missed =>
        cases own
        exact absurd (serving.symm.trans now) (by simp)
    | call before calls =>
        rw [← own, before] at now
        cases calls <;> cases now
    | start | stop =>
        rw [show m.tries id _ = [] from rfl, List.append_nil]
        exact follows
    | lead exclusive =>
        cases own
        exact absurd ((exclusive_cases exclusive).2.1.2.symm.trans now) (by simp)
  · rw [tries_of_ne own, List.append_nil, (sound.move moved).others id (Ne.symm own)]
    exact follows

/-- A search is made of turns. -/
theorem Search.reaches (search : Search id m tried b) : Reaches m b := by
  induction search with
  | refl => exact .refl
  | turn mv _ _ moved ih => exact ih.turn mv moved

/-- A search follows its round, whatever the others do in the meantime. -/
theorem Search.follows (search : Search id m tried b) (sound : m.Sound)
    (start : m.controlOf id = visiting victims) :
    b.Sound ∧ Follows victims tried (b.controlOf id) := by
  induction search with
  | refl =>
      refine ⟨sound, ?_⟩
      rw [start]
      exact follows_visiting rfl
  | turn mv _ searching moved ih => exact ⟨(ih.1.move moved).sound, ih.2.move ih.1 searching moved⟩

/-- What has been tried is a beginning of the round. -/
theorem Follows.begins {c : Control} (follows : Follows victims tried c) :
    tried <+: victims := by
  unfold Follows at follows
  split at follows
  · exact ⟨_, follows⟩
  · exact ⟨_, follows.2⟩
  · exact follows ▸ List.prefix_rfl
  · exact follows

/-- The queue from which a worker steals is one of the round. -/
theorem Follows.mem_victims (now : m.controlOf id = .stealing victim p rest)
    (follows : Follows victims tried (m.controlOf id)) : victim ∈ victims := by
  obtain ⟨⟨before, last⟩, whole⟩ := follows.tries now
  rw [last] at whole
  rw [← whole]
  simp

/-- A search in a pool follows the round that its worker has drawn, and reads only queues that are
there. -/
theorem Search.covers {l : Launch} {vocabulary : Access.Vocabulary} {handles callers : Nat}
    {references : Array HandleId} {t : Thief} (workers : t.workers = l.size)
    (reached : Reaches (l.opening vocabulary handles callers references) m)
    (start : m.controlOf id = visiting t.victims) (search : Search id m tried b) :
    tried <+: t.victims ∧
      (∀ victim p rest, b.controlOf id = .stealing victim p rest → victim < b.queues.size) ∧
      (b.controlOf id = .looping → tried = t.victims) := by
  have sound : m.Sound :=
    reached.invariant (fun sound moved => (sound.move moved).sound) (sound_opening ..)
  have follows := (search.follows sound start).2
  have size : b.size = l.size :=
    (congrArg Prod.fst (reached.trans search.reaches).shape_eq).trans (size_opening ..)
  refine ⟨follows.begins, ?_, ?_⟩
  · intro victim p rest now
    have visited := (Thief.mem_victims.1 (follows.mem_victims now)).1
    rw [workers, ← size] at visited
    exact visited
  · intro done
    rw [done] at follows
    exact follows

/-- However many workers there are and however often it has searched before, a worker that searches
visits each of the others once, in circular order from a start that its generator tells, and none of
the calculations for it fails.  In a pool, a worker that has found its own queue empty tries the
queues of such a round one after the other; each is there, and none is left out unless the worker
has got a task before. -/
theorem searches_cover {id n : Nat} (inside : id < n) (few : n ≤ 2 ^ 63) :
    Thief.new? id n = some ⟨id, n, UInt64.ofNat id⟩ ∧
    (∀ rounds, let t := Thief.next^[rounds + 1] ⟨id, n, UInt64.ofNat id⟩
      let start := (Thief.successor^[rounds + 1] (UInt64.ofNat id)).toNat / 2 ^ 33 % n
      t.victims = (List.range' start (n - start) ++ List.range start).filter (· ≠ id) ∧
      t.victims.Nodup ∧ (∀ worker, worker ∈ t.victims ↔ worker < n ∧ worker ≠ id) ∧
      t.victimWords? = some (t.victims.map UInt64.ofNat)) ∧
    ∀ (l : Launch) vocabulary handles callers references a m p, l.size = n →
      Reaches (l.opening vocabulary handles callers references) a → a.controlOf id = .popping p →
      a.move (.step id) = some m → m.searching id = true →
      ∃ rounds, let t := Thief.next^[rounds + 1] ⟨id, n, UInt64.ofNat id⟩
        m.thieves id = some t ∧ ∀ tried b, Search id m tried b →
          tried <+: t.victims ∧
          (∀ victim p rest, b.controlOf id = .stealing victim p rest → victim < b.queues.size) ∧
          (b.controlOf id = .looping → tried = t.victims) := by
  refine ⟨if_pos inside, ?_, ?_⟩
  · intro rounds
    have round : Thief.next^[rounds + 1] ⟨id, n, UInt64.ofNat id⟩ =
        ⟨id, n, Thief.successor^[rounds + 1] (UInt64.ofNat id)⟩ := Thief.iterate_next _ _
    dsimp only
    rw [round]
    refine ⟨?_, Thief.nodup_victims _, fun worker => Thief.mem_victims,
      Thief.victimWords?_eq inside few⟩
    rw [Thief.victims_eq (Nat.zero_lt_of_lt inside), Thief.start_eq]
  · rintro l vocabulary handles callers references a m p rfl reached now moved searching
    obtain ⟨rounds, known⟩ := reached.thief inside
    have up : a.crash = none := by
      by_contra crashed
      rw [move_eq_none_of_crash (Option.isSome_iff_ne_none.2 crashed)] at moved
      cases moved
    obtain ⟨w, found, thief⟩ := Option.map_eq_some_iff.1 known
    cases move_cases moved with
    | step admitted stepped =>
        rw [step_popping up found now] at stepped
        rcases thieves_popping found stepped with ⟨-, still⟩ | ⟨next, start⟩
        · exact absurd (searching.symm.trans still) (by simp)
        · rw [thief, ← Function.iterate_succ_apply' Thief.next] at next start
          refine ⟨rounds, ?_, ?_⟩
          · rw [next, Function.update_self]
          · intro tried b search
            apply search.covers _ (reached.turn _ moved) start
            rw [Thief.iterate_next]
    | call _ calls => cases calls

/-- Carries turns out one after the other while a worker searches, and notes what it tries. -/
def pursue (m : Machine) (id : WorkerId) (tried : List WorkerId) :
    List Move → Option (List WorkerId × Machine)
  | [] => some (tried, m)
  | mv :: mvs =>
    if m.searching id then
      match m.move mv with
      | none => none
      | some after => after.pursue id (tried ++ m.tries id mv) mvs
    else none

/-- Turns that are carried out while a worker searches are a search. -/
theorem search_pursue {mvs : List Move} {r : List WorkerId × Machine}
    (search : Search id m tried a) (pursued : a.pursue id tried mvs = some r) :
    Search id m r.1 r.2 := by
  induction mvs generalizing tried a with
  | nil =>
      cases pursued
      exact search
  | cons mv mvs ih =>
      rw [pursue] at pursued
      split at pursued
      · next searching =>
        split at pursued
        · cases pursued
        · next moved => exact ih (search.turn mv searching moved) pursued
      · cases pursued

/-- Whether a worker looks for a task in its own queue. -/
def looking (m : Machine) (id : WorkerId) : Bool :=
  match m.controlOf id with
  | .popping _ => true
  | _ => false

/-- Whether a worker is done with looking for a task. -/
def hasLooked (m : Machine) (id : WorkerId) : Bool :=
  match m.controlOf id with
  | .looping => true
  | _ => false

/-- The second of three workers tries the queue of the third one and then that of the first one in
its first search, while the third worker starts. -/
theorem searches_cover_three :
    ∃ a p m tried b rounds, Reaches (smallPool ⟨3, by decide⟩) a ∧ a.controlOf 1 = .popping p ∧
      a.move (.step 1) = some m ∧ m.searching 1 = true ∧ Search 1 m tried b ∧
      b.controlOf 1 = .looping ∧ tried = [2, 0] ∧
      m.thieves 1 = some (Thief.next^[rounds + 1] ⟨1, 3, 1⟩) ∧
      tried = (Thief.next^[rounds + 1] ⟨1, 3, 1⟩).victims := by
  obtain ⟨past, a, run, seen⟩ := exists_runs (smallPool ⟨3, by decide⟩) (.start :: steps 1 3)
    (fun _ a => a.looking 1 && (a.move (.step 1)).any fun m => m.searching 1 &&
      (m.pursue 1 [] [.step 1, .step 2, .step 1]).any fun r => r.1 = [2, 0] && r.2.hasLooked 1)
    (by decide +kernel)
  obtain ⟨looks, seen⟩ := Bool.and_eq_true_iff.1 seen
  obtain ⟨m, moved, seen⟩ := (Option.any_eq_true ..).1 seen
  obtain ⟨searching, seen⟩ := Bool.and_eq_true_iff.1 seen
  obtain ⟨⟨tried, b⟩, pursued, seen⟩ := (Option.any_eq_true ..).1 seen
  obtain ⟨which, looked⟩ := Bool.and_eq_true_iff.1 seen
  have search : Search 1 m tried b := search_pursue .refl pursued
  have done : b.controlOf 1 = .looping := by
    unfold hasLooked at looked
    split at looked
    · assumption
    · cases looked
  unfold looking at looks
  split at looks
  · next p now =>
    obtain ⟨rounds, round, covers⟩ := (@searches_cover 1 3 (by decide) (by decide)).2.2
      ⟨.plain, .flat, .discard, ⟨3, by decide⟩, .default⟩ .usual 1 0 #[0] a m p rfl run.reaches now
      moved searching
    exact ⟨a, p, m, tried, b, rounds, run.reaches, now, moved, searching, search, done,
      of_decide_eq_true which, round, (covers tried b search).2.2 done⟩
  · cases looks

end Machine

end AccessOrder.Pool
