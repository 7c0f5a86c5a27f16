/- # Barrier rounds

The owner opens a round, waits until all workers have joined it, looks at every queue and at the
flag, and closes the round.  As long as the flag is down, all workers that the word counts stand in
the round; once they all do, nobody has a task and no queue changes, so what the owner has seen of
one queue still holds when it has seen the last.

* `Rounds.aside` : the invariant of the rounds is kept by every turn of anyone but the owner.
-/
import AccessOrder.Proofs.Pool.Services
import AccessOrder.Proofs.Pool.Custodians
import AccessOrder.Proofs.Barrier.Words
namespace AccessOrder

/-- Whether the owner of a queue has found no item in it. -/
def Queue.Progress.barren {τ : Type} : Queue.Progress τ → Bool
  | .publish none | .release none => true
  | _ => false

namespace Pool

open Barrier (Word Phase)

/-! ## Words -/

/-- A worker joins a round that is being entered; the round drains once all have joined. -/
theorem joined_eq_ok_some {raw next : UInt64} {round : UInt32} {participants : Nat}
    (joined : Barrier.State.joined raw round participants = .ok (some next)) :
    ∃ w w', Word.unpack raw = .ok w ∧ w.round = round ∧ w.phase = .entering ∧
      Word.unpack next = .ok w' ∧ w'.round = round ∧ w'.phase ≠ .idle ∧
      (w'.phase = .draining → w'.joined.toNat = participants) ∧
      w'.joined.toNat ≤ w.joined.toNat + 1 := by
  obtain ⟨count, read, packed⟩ := Barrier.State.joined_eq_ok_some_iff.1 joined
  refine ⟨_, _, read, rfl, rfl, Word.unpack_pack packed, rfl, Barrier.State.phaseAt_ne_idle _ _,
    Barrier.State.phaseAt_eq_draining_iff.1, ?_⟩
  show (count + 1).toNat ≤ count.toNat + 1
  rw [UInt32.toNat_add]
  exact Nat.mod_le _ _

/-! ## Deeds without tasks -/

variable {w w' : World} {xs ys : List Item} {ms : List Moment}

/-- Only who holds the lock of a queue changes a queue. -/
theorem Deed.queue_eq (deed : Deed w xs ms w' ys) (whole : ¬Broken w xs)
    (unguarded : ∀ q changed, .guard q changed ∉ xs) : w'.queue = w.queue := by
  cases deed with
  | store same => exact absurd List.mem_cons_self (unguarded _ _)
  | fetch same => exact absurd List.mem_cons_self (unguarded _ _)
  | strands stray => exact absurd (.stray stray) whole
  | broken fault => exact absurd (.fault fault) whole
  | _ => rfl

/-- Whether something in hand is the lock of a queue. -/
def Item.isGuard : Item → Bool
  | .guard .. => true
  | _ => false

/-- While there is no task in hand and none in a queue, one is got only by beginning it, or from
those that are kept. -/
theorem Deed.calm (deed : Deed w xs ms w' ys) (whole : ¬Broken w xs) (empty : ∀ q, w.queue q = [])
    (calm : ∀ x ∈ xs, x.isGuard = true) :
    (∀ q, w'.queue q = []) ∧
      ∀ y ∈ ys, y.isGuard = true ∨ (∃ d, y = .draft d) ∨ ∃ t, y = .arriving t := by
  have head : ∀ {x : Item} {rest : List Item}, xs = x :: rest → x.isGuard = true := by
    rintro x rest rfl
    exact calm x List.mem_cons_self
  cases deed with
  | still => exact ⟨empty, fun y mem => .inl (calm y mem)⟩
  | begin d _ _ _ =>
      refine ⟨empty, fun y mem => ?_⟩
      rcases List.mem_cons.1 mem with rfl | mem
      · exact .inr (.inl ⟨d, rfl⟩)
      · exact .inl (calm y mem)
  | @pick xs t ts same =>
      refine ⟨empty, fun y mem => ?_⟩
      rcases List.mem_cons.1 mem with rfl | mem
      · exact .inr (.inr ⟨t, rfl⟩)
      · exact .inl (calm y mem)
  | acquire inside free =>
      refine ⟨empty, fun y mem => ?_⟩
      rcases List.mem_cons.1 mem with rfl | mem
      · exact .inl rfl
      · exact .inl (calm y mem)
  | store same =>
      have mem := calm _ (List.mem_cons_of_mem _ List.mem_cons_self)
      cases mem
  | @fetch xs x q ts same =>
      rw [empty q, List.nil_perm, List.append_eq_nil_iff] at same
      obtain ⟨nothing, rfl⟩ := same
      rw [nothing]
      refine ⟨fun o => ?_, fun y mem => ?_⟩
      · rw [w.queue_setQueue]
        split
        · rfl
        · exact empty o
      · rcases List.mem_cons.1 mem with rfl | mem
        · exact .inl rfl
        · exact .inl (calm y (List.mem_cons_of_mem _ mem))
  | publish =>
      refine ⟨empty, fun y mem => ?_⟩
      rcases List.mem_cons.1 mem with rfl | mem
      · exact .inl rfl
      · exact .inl (calm y (List.mem_cons_of_mem _ mem))
  | unguard => exact ⟨empty, fun y mem => .inl (calm y (List.mem_cons_of_mem _ mem))⟩
  | strands stray => exact absurd (.stray stray) whole
  | broken fault => exact absurd (.fault fault) whole
  | _ => cases head rfl

/-! ## Rounds -/

/-- Whether the owner waits at the barrier, and works or leads a round meanwhile. -/
def Control.awaiting : Control → Bool
  | .popping _ | .executing _ | .leading _ => true
  | _ => false

/-- What the owner may be in the middle of. -/
def Control.Owned : Control → Prop
  | .away | .failed _ | .submitting _ | .popping _ | .executing _ | .leading _ => True
  | _ => False

namespace Machine

/-- No round is open. -/
def Closed (m : Machine) : Prop := ∃ w, m.barrier.load = .ok w ∧ w.phase = .idle

/-- At least so many workers stand in a round. -/
def Roll (m : Machine) (round : UInt32) (joined : Nat) : Prop :=
  ∃ ids : List WorkerId, ids.Nodup ∧ joined ≤ ids.length ∧
    ∀ id ∈ ids, 0 < id ∧ id < m.size ∧ (m.controlOf id).Stands round

/-- A round is open, and as long as the flag is down those whom the word counts stand in it. -/
def Opened (m : Machine) (round : UInt32) : Prop :=
  ∃ w, m.barrier.load = .ok w ∧ w.round = round ∧ w.phase ≠ .idle ∧
    (w.phase = .draining → m.participants ≤ w.joined.toNat) ∧
    (m.barrier.aborted = false → m.Roll round w.joined.toNat)

/-- All workers stand in a round. -/
def Mustered (m : Machine) (round : UInt32) : Prop :=
  ∀ id, 0 < id → id < m.size → (m.controlOf id).Stands round

/-- A round drains, and as long as the flag is down all workers stand in it. -/
def Draining (m : Machine) (round : UInt32) : Prop :=
  ∃ w, m.barrier.load = .ok w ∧ w.round = round ∧ w.phase = .draining ∧
    (m.barrier.aborted = false → m.Mustered round)

/-- No task is in a queue or in the hands of a worker. -/
def Still (m : Machine) : Prop :=
  (∀ q, m.world.queue q = []) ∧ ∀ id < m.size, ∀ x ∈ m.hands id, x.isGuard = true

/-- A worker that is about to join has computed the word in which it has joined. -/
def Swaps (m : Machine) : Prop :=
  ∀ id round expected next, m.controlOf id = .serving (.swap round expected next) →
    Barrier.State.joined expected round m.participants = .ok (some next)

/-- A turn of anyone but the owner. -/
structure Aside (m : Machine) (id : WorkerId) (ms : List Moment) (after : Machine) : Prop
    extends m.Turned id ms after where
  other : id ≠ 0
  serves : m.Serves id after
  shutdown : after.shutdown = m.shutdown
  size : after.size = m.size

variable {m after : Machine} {id : WorkerId} {round : UInt32}

/-! ## Turns of others -/

/-- Workers who are as many as there are are all of them. -/
theorem mem_of_many {ids : List WorkerId} (nodup : ids.Nodup) (many : m.participants ≤ ids.length)
    (workers : ∀ o ∈ ids, 0 < o ∧ o < m.size) (pos : 0 < id) (inside : id < m.size) :
    id ∈ ids := by
  have sub : ids ⊆ (List.range m.size).erase 0 := by
    intro o mem
    obtain ⟨pos, inside⟩ := workers o mem
    rw [List.nodup_range.mem_erase_iff, List.mem_range]
    exact ⟨Nat.ne_of_gt pos, inside⟩
  have full : ((List.range m.size).erase 0).length ≤ ids.length := by
    rw [List.length_erase_of_mem (List.mem_range.2 (Nat.lt_trans pos inside)), List.length_range]
    exact many
  exact ((List.subperm_of_subset nodup sub).perm_of_length_le full).mem_iff.2
    ((List.nodup_range.mem_erase_iff).2 ⟨Nat.ne_of_gt pos, List.mem_range.2 inside⟩)

/-- All workers stand in a round when as many stand there as there are workers. -/
theorem Roll.mustered (roll : m.Roll round m.participants) : m.Mustered round := by
  obtain ⟨ids, nodup, many, stand⟩ := roll
  intro id pos inside
  refine (stand id ?_).2.2
  exact mem_of_many nodup many (fun o mem => ⟨(stand o mem).1, (stand o mem).2.1⟩) pos inside

/-- Who stands in a round has nothing in hand. -/
theorem hands_of_stands (stands : (m.controlOf id).Stands round) : m.hands id = [] := by
  rw [hands]
  cases now : m.controlOf id <;> rw [now] at stands <;> first | rfl | cases stands

/-- A caller that does not hand a task in has nothing in hand but a task that is being built, or
that has just been built. -/
theorem Sound.hands_of_caller (sound : m.Sound) (outside : m.size ≤ id)
    (uncalling : (m.controlOf id).calling = false) :
    ∀ x ∈ m.hands id, (∃ d, x = .draft d) ∨ ∃ t, x = .arriving t := by
  have seated := sound.seated id
  have away := Nat.not_lt_of_le outside
  intro x mem
  rw [hands] at mem
  cases now : m.controlOf id with
  | submitting s =>
      rw [now] at mem uncalling
      cases s with
      | build d => exact .inl ⟨d, List.mem_singleton.1 mem⟩
      | arrive t => exact .inr ⟨t, List.mem_singleton.1 mem⟩
      | vet label v => cases uncalling
      | enqueue target p => cases uncalling
  | popping p =>
      rw [now] at seated
      exact absurd seated.1 away
  | stealing victim p rest =>
      rw [now] at seated
      exact absurd seated.1 away
  | executing e =>
      rw [now] at seated
      exact absurd seated.1 away
  | _ =>
      rw [now] at mem
      cases mem

/-- A caller that does not hand a task in holds no lock of a queue. -/
theorem Sound.unguarded (sound : m.Sound) (outside : m.size ≤ id)
    (uncalling : (m.controlOf id).calling = false) (q : WorkerId) (changed : Bool) :
    .guard q changed ∉ m.hands id := by
  intro mem
  rcases sound.hands_of_caller outside uncalling _ mem with ⟨d, draft⟩ | ⟨t, arriving⟩
  · cases draft
  · cases arriving

/-- What is in hand on the way into or out of a queue has been accepted. -/
theorem accepted_of_progress {p : Queue.Progress Task} {target : WorkerId} {x : Item}
    (mem : x ∈ p.items target) : ¬((∃ d, x = .draft d) ∨ ∃ t, x = .arriving t) := by
  rintro (⟨d, rfl⟩ | ⟨t, rfl⟩) <;> cases p with
  | measure r | acquire r | change r => cases r <;> simp [Queue.Progress.items] at mem
  | publish x | release x | done x => simp [Queue.Progress.items, looseItems] at mem

/-- A worker that has got no task but what it has begun or is about to hand in has got none. -/
theorem calm_of_worker (unsubmitting : ∀ s, m.controlOf id ≠ .submitting s)
    (calm : ∀ x ∈ m.hands id,
      x.isGuard = true ∨ (∃ d, x = .draft d) ∨ ∃ t, x = .arriving t) :
    ∀ x ∈ m.hands id, x.isGuard = true := by
  have tasks : ∀ {f : Frame} {stage : Stage}, .running f stage ∉ m.hands id := by
    intro f stage mem
    rcases calm _ mem with guard | ⟨d, draft⟩ | ⟨t, arriving⟩
    · cases guard
    · cases draft
    · cases arriving
  have loose : ∀ {t : Task}, .loose t ∉ m.hands id := by
    intro t mem
    rcases calm _ mem with guard | ⟨d, draft⟩ | ⟨t, arriving⟩
    · cases guard
    · cases draft
    · cases arriving
  intro x mem
  refine (calm x mem).resolve_right ?_
  rw [hands] at tasks loose mem
  cases now : m.controlOf id with
  | submitting s => exact absurd now (unsubmitting s)
  | popping p =>
      rw [now] at mem
      exact accepted_of_progress mem
  | stealing victim p rest =>
      rw [now] at mem
      exact accepted_of_progress mem
  | executing e =>
      rw [now] at tasks loose
      cases e with
      | vet v => exact absurd List.mem_cons_self loose
      | wake f todo woken v => exact absurd List.mem_cons_self loose
      | hand f acts results versions s =>
          exact absurd (List.mem_append_right _ List.mem_cons_self) tasks
      | requeue f todo woken target p =>
          exact absurd (List.mem_append_right _ (List.mem_append_right _ List.mem_cons_self)) tasks
      | lock | act | unlock | release | dispose => exact absurd List.mem_cons_self tasks
  | _ =>
      rw [now] at mem
      cases mem

namespace Aside

variable {ms : List Moment}

/-- Who is about to join goes on to be. -/
theorem swaps (aside : m.Aside id ms after) (swaps : m.Swaps) : after.Swaps := by
  have same : after.participants = m.participants := congrArg (· - 1) aside.size
  intro o r e n now
  rw [same]
  by_cases own : o = id
  · subst own
    cases aside.serves with
    | aside _ _ joined => exact joined r e n now
    | raises _ unserving => exact absurd now (unserving _)
    | joins _ _ control =>
        rw [control] at now
        cases now
  · rw [aside.others o own] at now
    exact swaps o r e n now

/-- The word of a barrier without an open round is left alone by all but the owner. -/
theorem load_of_idle (aside : m.Aside id ms after) (swaps : m.Swaps) {w : Word}
    (loaded : m.barrier.load = .ok w) (idle : w.phase = .idle) : after.barrier.load = .ok w := by
  cases aside.serves with
  | aside barrier _ _ => exact barrier ▸ loaded
  | raises barrier _ =>
      rw [barrier]
      exact loaded
  | joins now barrier _ =>
      obtain ⟨u, -, read, -, entering, -⟩ := joined_eq_ok_some (swaps _ _ _ _ now)
      rw [show Word.unpack m.barrier.word = .ok w from loaded] at read
      cases read
      rw [idle] at entering
      cases entering

/-- No round is opened by anyone but the owner. -/
theorem closed (aside : m.Aside id ms after) (swaps : m.Swaps) (closed : m.Closed) :
    after.Closed := by
  obtain ⟨w, loaded, idle⟩ := closed
  exact ⟨w, aside.load_of_idle swaps loaded idle, idle⟩

/-- Who stands in a round goes on standing there, or raises the flag. -/
theorem stands (aside : m.Aside id ms after) (unstopped : m.shutdown = false) {w : Word}
    (loaded : m.barrier.load = .ok w) (opened : w.phase ≠ .idle)
    (down : after.barrier.aborted = false) :
    m.barrier.aborted = false ∧
      ∀ o, (m.controlOf o).Stands w.round → (after.controlOf o).Stands w.round := by
  have others : ∀ o, o ≠ id → (m.controlOf o).Stands w.round →
      (after.controlOf o).Stands w.round := fun o other stands => aside.others o other ▸ stands
  cases aside.serves with
  | aside barrier stays _ =>
      rw [barrier] at down
      refine ⟨down, fun o stands => ?_⟩
      by_cases own : o = id
      · subst own
        exact stays w loaded opened down unstopped stands
      · exact others o own stands
  | raises barrier _ =>
      rw [barrier] at down
      cases down
  | joins now barrier _ =>
      rw [barrier] at down
      refine ⟨down, fun o stands => ?_⟩
      refine others o (fun own => ?_) stands
      rw [own, now] at stands
      exact stands

/-- A round stays open until the owner closes it. -/
theorem opened (aside : m.Aside id ms after) (swaps : m.Swaps) (unstopped : m.shutdown = false)
    (opened : m.Opened round) : after.Opened round := by
  obtain ⟨w, loaded, rfl, open', all, roll⟩ := opened
  have same : after.participants = m.participants := congrArg (· - 1) aside.size
  have stay : ∀ {joined : Nat}, after.barrier.aborted = false →
      (m.barrier.aborted = false → m.Roll w.round joined) → after.Roll w.round joined := by
    intro joined down roll
    obtain ⟨down, stands⟩ := aside.stands unstopped loaded open' down
    obtain ⟨ids, nodup, many, stand⟩ := roll down
    refine ⟨ids, nodup, many, fun o mem => ?_⟩
    obtain ⟨pos, inside, standing⟩ := stand o mem
    exact ⟨pos, aside.size.symm ▸ inside, stands o standing⟩
  have kept : after.barrier.word = m.barrier.word → after.Opened w.round := by
    intro word
    refine ⟨w, ?_, rfl, open', same.symm ▸ all, fun down => stay down roll⟩
    show Word.unpack after.barrier.word = _
    rw [word]
    exact loaded
  cases aside.serves with
  | aside barrier _ _ => exact kept (by rw [barrier])
  | raises barrier _ => exact kept (by rw [barrier]; rfl)
  | joins now barrier control =>
      obtain ⟨u, u', read, at', -, written, at'', opened, drains, count⟩ :=
        joined_eq_ok_some (swaps _ _ _ _ now)
      rw [show Word.unpack m.barrier.word = .ok w from loaded] at read
      cases read
      refine ⟨u', ?_, at''.trans at'.symm, opened, fun drained => ?_, fun down => ?_⟩
      · show Word.unpack after.barrier.word = _
        rw [barrier]
        exact written
      · rw [same]
        exact Nat.le_of_eq (drains drained).symm
      · -- the worker that joins has not stood in the round before
        obtain ⟨raised, stands⟩ := aside.stands unstopped loaded open' down
        obtain ⟨ids, nodup, many, stand⟩ := roll raised
        have seated := aside.sound.seated id
        rw [control] at seated
        refine ⟨id :: ids, List.nodup_cons.2 ⟨fun mem => ?_, nodup⟩, ?_, fun o mem => ?_⟩
        · have standing := (stand id mem).2.2
          rw [now] at standing
          exact standing
        · exact Nat.le_trans count (Nat.succ_le_succ many)
        · rcases List.mem_cons.1 mem with rfl | mem
          · refine ⟨Nat.pos_of_ne_zero aside.other, seated, ?_⟩
            rw [control]
            exact at'.symm
          · obtain ⟨pos, inside, standing⟩ := stand o mem
            exact ⟨pos, aside.size.symm ▸ inside, stands o standing⟩

/-- A round drains until the owner closes it. -/
theorem draining (aside : m.Aside id ms after) (swaps : m.Swaps) (unstopped : m.shutdown = false)
    (draining : m.Draining round) : after.Draining round := by
  obtain ⟨w, loaded, rfl, drains, mustered⟩ := draining
  have kept : after.barrier.word = m.barrier.word → after.Draining w.round := by
    intro word
    refine ⟨w, ?_, rfl, drains, fun down o pos inside => ?_⟩
    · show Word.unpack after.barrier.word = _
      rw [word]
      exact loaded
    · obtain ⟨raised, stands⟩ := aside.stands unstopped loaded (drains ▸ (by simp)) down
      exact stands o (mustered raised o pos (aside.size ▸ inside))
  cases aside.serves with
  | aside barrier _ _ => exact kept (by rw [barrier])
  | raises barrier _ => exact kept (by rw [barrier]; rfl)
  | joins now barrier control =>
      obtain ⟨u, -, read, -, entering, -⟩ := joined_eq_ok_some (swaps _ _ _ _ now)
      rw [show Word.unpack m.barrier.word = .ok w from loaded] at read
      cases read
      rw [drains] at entering
      cases entering

/-- No queue changes by a turn of someone who holds no lock of one. -/
theorem queue_eq (aside : m.Aside id ms after) {past : List Moment}
    (orderly : Orderly past m.world m.hands)
    (unguarded : ∀ q changed, .guard q changed ∉ m.hands id) :
    after.world.queue = m.world.queue := aside.deed.queue_eq orderly.sound unguarded

/-- No queue changes while all workers stand in a round. -/
theorem queue_of_mustered (aside : m.Aside id ms after) {past : List Moment} (sound : m.Sound)
    (orderly : Orderly past m.world m.hands) (mustered : m.Mustered round)
    (uncalling : (m.controlOf id).calling = false) : after.world.queue = m.world.queue := by
  refine aside.queue_eq orderly fun q changed mem => ?_
  by_cases inside : id < m.size
  · rw [hands_of_stands (mustered id (Nat.pos_of_ne_zero aside.other) inside)] at mem
    cases mem
  · exact sound.unguarded (Nat.le_of_not_lt inside) uncalling q changed mem

/-- Once there is no task left there is none until one is handed in from outside. -/
theorem still (aside : m.Aside id ms after) {past : List Moment} (sound : m.Sound)
    (orderly : Orderly past m.world m.hands) (still : m.Still)
    (uncalling : (m.controlOf id).calling = false) : after.Still := by
  obtain ⟨empty, calm⟩ := still
  have others : ∀ o, o ≠ id → after.hands o = m.hands o := fun o other => by
    rw [hands, aside.others o other, hands]
  by_cases inside : id < m.size
  · obtain ⟨empty', calm'⟩ := aside.deed.calm orderly.sound empty (calm id inside)
    refine ⟨empty', fun o worker x mem => ?_⟩
    by_cases own : o = id
    · subst own
      refine calm_of_worker (fun s now => ?_) calm' x mem
      have seated := aside.sound.seated o
      rw [now, aside.size] at seated
      exact absurd inside (Nat.not_lt_of_le (seated.1.resolve_left aside.other))
    · rw [others o own] at mem
      exact calm o (aside.size ▸ worker) x mem
  · have same := aside.queue_eq orderly (sound.unguarded (Nat.le_of_not_lt inside) uncalling)
    refine ⟨fun q => same ▸ empty q, fun o worker x mem => ?_⟩
    rw [aside.size] at worker
    rw [others o fun own => inside (own ▸ worker)] at mem
    exact calm o worker x mem

end Aside

/-! ## The invariant -/

/-- What holds of the barrier and of the tasks when the owner is in the middle of something. -/
def AtStage (m : Machine) : Control → Prop
  | .leading (.watchFlag round) | .leading (.watchQueue round) | .leading (.watchWord round) =>
    m.Opened round
  | .leading (.survey round queue) => m.Draining round ∧
    (m.barrier.aborted = false → ∀ q < queue, m.world.queue q = [])
  | .leading (.recheck round) => m.Draining round ∧
    (m.barrier.aborted = false → ∀ q, m.world.queue q = [])
  | .leading (.close _ quiet) => quiet = true → m.Still
  | .popping p => m.Closed ∧ (p.barren = true → m.participants = 0 → m.world.queue 0 = [])
  | _ => m.Closed

/-- The invariant of the rounds: the owner has the pool to itself while it waits at the barrier, and
has seen of the barrier what it has seen. -/
structure Rounds (m : Machine) : Prop where
  owned : (m.controlOf 0).Owned
  swaps : m.Swaps
  alone : (m.controlOf 0).awaiting = true →
    m.shutdown = false ∧ ∀ id, (m.controlOf id).calling = false
  stage : m.AtStage (m.controlOf 0)

/-- The owner takes no part in the rounds that it leads. -/
theorem Rounds.unserving (rounds : m.Rounds) (s : Service) : m.controlOf 0 ≠ .serving s := by
  intro now
  have owned := rounds.owned
  rw [now] at owned
  exact owned

/-- Whoever takes part in a round is not the owner. -/
theorem Rounds.other_of_serving (rounds : m.Rounds) {s : Service}
    (now : m.controlOf id = .serving s) : id ≠ 0 := by
  rintro rfl
  exact rounds.unserving s now

/-- The owner does not share the pool while it waits at the barrier. -/
theorem unshared_of_awaiting (awaiting : (m.controlOf 0).awaiting = true) : m.shared = false := by
  unfold shared
  cases now : m.controlOf 0 <;> rw [now] at awaiting <;>
    first | exact Bool.and_false _ | cases awaiting

/-- Nobody begins to hand a task in, and nobody shuts the pool down, while the owner waits at the
barrier. -/
theorem Rounds.alone_aside (rounds : m.Rounds) {ms : List Moment} (aside : m.Aside id ms after)
    (calling : (after.controlOf id).calling = true →
      (m.controlOf id).calling = true ∨ m.shared = true)
    (awaiting : (m.controlOf 0).awaiting = true) :
    after.shutdown = false ∧ ∀ o, (after.controlOf o).calling = false := by
  obtain ⟨unstopped, uncalling⟩ := rounds.alone awaiting
  refine ⟨aside.shutdown.trans unstopped, fun o => ?_⟩
  by_cases own : o = id
  · subst own
    by_contra called
    rcases calling (eq_true_of_ne_false called) with before | may
    · rw [uncalling] at before
      cases before
    · rw [unshared_of_awaiting awaiting] at may
      cases may
  · rw [aside.others o own]
    exact uncalling o

/-- What the owner has seen in a round is not undone by the turns of others. -/
theorem Rounds.stage_leading (rounds : m.Rounds) {ms past : List Moment}
    (aside : m.Aside id ms after) (sound : m.Sound) (orderly : Orderly past m.world m.hands)
    {l : Lead} (now : m.controlOf 0 = .leading l) : after.AtStage (.leading l) := by
  have stage := rounds.stage
  obtain ⟨unstopped, uncalling⟩ := rounds.alone (by rw [now]; rfl)
  rw [now] at stage
  -- what has been seen of the queues while the flag is down is not undone
  have kept : ∀ {round : UInt32}, m.Draining round → after.barrier.aborted = false →
      m.barrier.aborted = false ∧ after.world.queue = m.world.queue := by
    rintro round ⟨w, loaded, rfl, drains, mustered⟩ down
    obtain ⟨raised, -⟩ := aside.stands unstopped loaded (drains ▸ (by simp)) down
    exact ⟨raised, aside.queue_of_mustered sound orderly (mustered raised) (uncalling id)⟩
  cases l with
  | read | clear round | announce round => exact aside.closed rounds.swaps stage
  | watchFlag round | watchQueue round | watchWord round =>
      exact aside.opened rounds.swaps unstopped stage
  | survey round queue =>
      refine ⟨aside.draining rounds.swaps unstopped stage.1, fun down q seen => ?_⟩
      obtain ⟨raised, same⟩ := kept stage.1 down
      rw [same]
      exact stage.2 raised q seen
  | recheck round =>
      refine ⟨aside.draining rounds.swaps unstopped stage.1, fun down q => ?_⟩
      obtain ⟨raised, same⟩ := kept stage.1 down
      rw [same]
      exact stage.2 raised q
  | close round quiet => exact fun judged => aside.still sound orderly (stage judged) (uncalling id)

/-- What the owner has seen of its own queue is not undone if there are no other workers. -/
theorem Rounds.stage_popping (rounds : m.Rounds) {ms past : List Moment}
    (aside : m.Aside id ms after) (sound : m.Sound) (orderly : Orderly past m.world m.hands)
    {p : Queue.Progress Task} (now : m.controlOf 0 = .popping p) : after.AtStage (.popping p) := by
  have stage := rounds.stage
  obtain ⟨-, uncalling⟩ := rounds.alone (by rw [now]; rfl)
  rw [now] at stage
  -- there is nobody but callers to take a turn
  have kept : after.participants = 0 → after.world.queue = m.world.queue := by
    intro none
    have outside : m.size ≤ id := by
      rw [participants, aside.size] at none
      have pos := Nat.pos_of_ne_zero aside.other
      omega
    exact aside.queue_eq orderly (sound.unguarded outside (uncalling id))
  have same : after.participants = m.participants := congrArg (· - 1) aside.size
  refine ⟨aside.closed rounds.swaps stage.1, fun barren none => ?_⟩
  rw [kept none]
  exact stage.2 barren (same ▸ none)

/-- A turn of anyone but the owner keeps the invariant of the rounds. -/
theorem Rounds.aside (rounds : m.Rounds) {ms past : List Moment} (aside : m.Aside id ms after)
    (sound : m.Sound) (orderly : Orderly past m.world m.hands)
    (calling : (after.controlOf id).calling = true →
      (m.controlOf id).calling = true ∨ m.shared = true) : after.Rounds := by
  have owner : after.controlOf 0 = m.controlOf 0 := aside.others 0 (Ne.symm aside.other)
  refine ⟨owner ▸ rounds.owned, aside.swaps rounds.swaps, fun awaiting => ?_, ?_⟩
  · exact rounds.alone_aside aside calling (owner ▸ awaiting)
  · rw [owner]
    have stage := rounds.stage
    cases now : m.controlOf 0 with
    | leading l => exact rounds.stage_leading aside sound orderly now
    | popping p => exact rounds.stage_popping aside sound orderly now
    | _ =>
        rw [now] at stage
        exact aside.closed rounds.swaps stage

end Machine

end Pool

end AccessOrder
