/- # Accounts of tasks

How often a task may still be taken out of a queue is told by where it is and how far its vetting
has come.  A task is put into a queue with nothing left to be looked at, unless a lazy pool has just
accepted it; and a worker that finds such a task in a queue does not give it up any more.  A task
that has been made to wait for a dependency comes back when that is met, which no handle undoes, so
it is not made to wait there again.

* `Deed.comes` : where an item was before a deed that is somewhere after it;
* `Comes.beyond` : a task is looked at from where it was left;
* `Sound.fetches_move` : who has taken a task out of a queue does not put it into one;
* `Accounts.take`, `Accounts.park` : what passes is entered into the accounts;
* `Accounts.move` : a turn keeps the accounts;
* `Trail.accounts` : the accounts of all runs;
* `Trail.sole_worker_done` : a pool with one worker comes to an end of its work.
-/
import AccessOrder.Proofs.Pool.Lasting
import AccessOrder.Proofs.Pool.TakenAndParked
import AccessOrder.Proofs.Pool.Solitude
namespace AccessOrder.Pool

open Function (update)

/-! ## Where items come from -/

/-- Where an item was before a deed, and what it was, that is somewhere after it. -/
inductive Comes (w : World) (ms : List Moment) (w' : World) (id : WorkerId) :
    Place → Item → Place → Item → Prop where
  | stays (p : Place) (x : Item) : Comes w ms w' id p x p x
  | resolved {d : Draft} {a : Access.Located} {pending : List Access.Located} {v : Version} :
      Comes w ms w' id (.hands id) (.draft d) (.hands id) (.draft (d.resolve a pending v))
  | built {d : Draft} : Comes w ms w' id (.hands id) (.draft d) (.hands id) (.arriving d.task)
  | kept {t : Task} : Comes w ms w' id (.hands id) (.arriving t) .kept (.arriving t)
  | picked {t : Task} : Comes w ms w' id .kept (.arriving t) (.hands id) (.arriving t)
  | accepted {t : Task} : Comes w ms w' id (.hands id) (.arriving t) (.hands id) (.loose t)
  | acceptedLazily {t : Task} {q : WorkerId} : ms = [.accepted t.serial] →
      Comes w ms w' id (.hands id) (.arriving t) (.hands id) (.bound t q)
  | marked {t : Task} {d : Dependency} : t.blocker? = some d →
      Comes w ms w' id (.hands id) (.loose t) (.hands id) (.loose t.mark)
  | parked {t : Task} {d : Dependency} {h : HandleId} {v : Version} : t.blocker? = some d →
      Comes w ms w' id (.hands id) (.loose t) (.waiting h v) (.loose t)
  | routed {t : Task} {q : WorkerId} : t.blocker? = none →
      Comes w ms w' id (.hands id) (.loose t) (.hands id) (.bound t q)
  | stored {t : Task} {q : WorkerId} :
      Comes w ms w' id (.hands id) (.bound t q) (.queue q) (.bound t q)
  | fetched {t : Task} {q : WorkerId} :
      Comes w ms w' id (.queue q) (.bound t q) (.hands id) (.loose t)
  | woken {t : Task} {h : HandleId} {v : Version} : (w'.units h).completed = v →
      Comes w ms w' id (.waiting h v) (.loose t) (.hands id) (.loose t)
  | begun {t : Task} {f : Frame} {stage : Stage} : f.task.serial = t.serial →
      Comes w ms w' id (.hands id) (.loose t) (.hands id) (.running f stage)
  | runs {f f' : Frame} {stage stage' : Stage} : f'.task.serial = f.task.serial →
      Comes w ms w' id (.hands id) (.running f stage) (.hands id) (.running f' stage')

variable {w w' : World} {hands : WorkerId → List Item} {xs ys : List Item} {ms past : List Moment}
  {id : WorkerId} {s : Nat}

/-- An item stays that of its task. -/
theorem Comes.keys {p p' : Place} {x x' : Item} (comes : Comes w ms w' id p x p' x')
    (mine : .task s ∈ x'.keys) : .task s ∈ x.keys := by
  cases comes with
  | begun same =>
      obtain rfl := task_unique mine List.mem_cons_self
      rw [same]
      exact List.mem_cons_self
  | runs same =>
      obtain rfl := task_unique mine List.mem_cons_self
      rw [same]
      exact List.mem_cons_self
  | _ => exact mine

/-- Where an item in hand was before a deed, unless it is a task that has just been begun, or the
lock of a queue. -/
theorem Deed.hand_comes (deed : Deed w (hands id) ms w' ys) (unbroken : ¬Broken w (hands id))
    {y : Item} (mem : y ∈ ys) :
    (∃ q changed, y = .guard q changed) ∨ (∃ d, y = .draft d ∧ d.serial = w.begun) ∨
      ∃ p x, x ∈ w.items hands p ∧ Comes w ms w' id p x (.hands id) y := by
  generalize here : hands id = xs at deed unbroken
  have stays : y ∈ xs → ∃ p x, x ∈ w.items hands p ∧ Comes w ms w' id p x (.hands id) y :=
    fun mem => ⟨.hands id, y, (show y ∈ hands id from here ▸ mem), .stays ..⟩
  -- the first item in hand is replaced by another one
  have next : ∀ {x z : Item} {zs : List Item}, xs = x :: zs → y ∈ z :: zs →
      Comes w ms w' id (.hands id) x (.hands id) z →
      ∃ p x, x ∈ w.items hands p ∧ Comes w ms w' id p x (.hands id) y := by
    rintro x z zs rfl mem comes
    rcases List.mem_cons.1 mem with rfl | mem
    · exact ⟨.hands id, x, (show x ∈ hands id from here ▸ List.mem_cons_self), comes⟩
    · exact stays (List.mem_cons_of_mem _ mem)
  cases deed with
  | still => exact .inr (.inr (stays mem))
  | park | unbuilt | keep | refused | unguard | dispose =>
      exact .inr (.inr (stays (List.mem_cons_of_mem _ mem)))
  | pick same =>
      rcases List.mem_cons.1 mem with rfl | mem
      · refine .inr (.inr ⟨.kept, _, ?_, .picked⟩)
        exact List.mem_map_of_mem (same.mem_iff.2 List.mem_cons_self)
      · exact .inr (.inr (stays mem))
  | begin d serial =>
      rcases List.mem_cons.1 mem with rfl | mem
      · exact .inr (.inl ⟨d, rfl, serial⟩)
      · exact .inr (.inr (stays mem))
  | schedule => exact .inr (.inr (next rfl mem .resolved))
  | built => exact .inr (.inr (next rfl mem .built))
  | accept => exact .inr (.inr (next rfl mem .accepted))
  | acceptLazily => exact .inr (.inr (next rfl mem (.acceptedLazily rfl)))
  | mark blocked => exact .inr (.inr (next rfl mem (.marked blocked)))
  | route met => exact .inr (.inr (next rfl mem (.routed met)))
  | acquire =>
      rcases List.mem_cons.1 mem with rfl | mem
      · exact .inl ⟨_, _, rfl⟩
      · exact .inr (.inr (stays mem))
  | store =>
      rcases List.mem_cons.1 mem with rfl | mem
      · exact .inl ⟨_, _, rfl⟩
      · exact .inr (.inr (stays (List.mem_cons_of_mem _ (List.mem_cons_of_mem _ mem))))
  | @fetch xs x q ts same =>
      rcases List.mem_cons.1 mem with rfl | mem
      · exact .inl ⟨_, _, rfl⟩
      · rcases List.mem_append.1 mem with mem | mem
        · obtain ⟨t, found, rfl⟩ := List.mem_map.1 mem
          refine .inr (.inr ⟨.queue q, .bound t q, ?_, .fetched⟩)
          exact List.mem_map_of_mem (same.mem_iff.2 (List.mem_append_left _ found))
        · exact .inr (.inr (stays (List.mem_cons_of_mem _ mem)))
  | publish =>
      rcases List.mem_cons.1 mem with rfl | mem
      · exact .inl ⟨_, _, rfl⟩
      · exact .inr (.inr (stays (List.mem_cons_of_mem _ mem)))
  | take => exact .inr (.inr (next rfl mem (.begun rfl)))
  | lock | start | finish | unlock | unlocked => exact .inr (.inr (next rfl mem (.runs rfl)))
  | @release xs f d todo met holder =>
      rcases List.mem_append.1 mem with mem | mem
      · obtain ⟨t, woken, rfl⟩ := List.mem_map.1 mem
        refine .inr (.inr ⟨.waiting d.handle (d.version + 1), .loose t, ?_, .woken ?_⟩)
        · exact List.mem_map_of_mem (Handle.View.waiting_of_woken woken)
        · show ((update w.units d.handle _) d.handle).completed = _
          rw [Function.update_self]
          unfold Handle.View.woken at woken
          unfold Handle.View.released
          split at woken
          · next last => rw [if_pos last]
          · cases woken
      · exact .inr (.inr (next rfl mem (.runs rfl)))
  | strands stray => exact absurd (.stray stray) unbroken
  | broken fault => exact absurd (.fault fault) unbroken

/-- Where an item was before a deed that is somewhere after it. -/
theorem Deed.comes (deed : Deed w (hands id) ms w' ys) (unbroken : ¬Broken w (hands id))
    {p' : Place} {x' : Item} (mem : x' ∈ w'.items (update hands id ys) p') :
    (∃ q changed, x' = .guard q changed) ∨ (∃ d, x' = .draft d ∧ d.serial = w.begun) ∨
      ∃ p x, x ∈ w.items hands p ∧ Comes w ms w' id p x p' x' := by
  cases p' with
  | hands other =>
      replace mem : x' ∈ update hands id ys other := mem
      rw [Function.update_apply] at mem
      split at mem
      · next own =>
        subst own
        exact deed.hand_comes unbroken mem
      · exact .inr (.inr ⟨.hands other, x', mem, .stays ..⟩)
  | queue q =>
      obtain ⟨t, found, rfl⟩ := List.mem_map.1 mem
      rcases deed.queued_cases (not_fault_of_unbroken unbroken) found with before | mine
      · exact .inr (.inr ⟨.queue q, _, List.mem_map_of_mem before, .stays ..⟩)
      · exact .inr (.inr ⟨.hands id, _, mine, .stored⟩)
  | waiting h v =>
      obtain ⟨t, found, rfl⟩ := List.mem_map.1 mem
      rcases deed.waiting_cases unbroken found with before | ⟨mine, d, blocked, -⟩
      · exact .inr (.inr ⟨.waiting h v, _, List.mem_map_of_mem before, .stays ..⟩)
      · exact .inr (.inr ⟨.hands id, _, mine, .parked blocked⟩)
  | kept =>
      obtain ⟨t, found, rfl⟩ := List.mem_map.1 mem
      rcases deed.kept_cases unbroken found with before | mine
      · exact .inr (.inr ⟨.kept, _, List.mem_map_of_mem before, .stays ..⟩)
      · exact .inr (.inr ⟨.hands id, _, mine, .kept⟩)

/-! ## What is known of items -/

/-- How often the task of an item may still be taken out of a queue, if its vetting is `fetched` in
case that it has been taken out of one for that. -/
def Item.allowance (limit : Nat) (fetched : Bool) : Item → Nat
  | .draft _ | .arriving _ => limit
  | .loose t => if fetched && t.blocker?.isNone then 0 else 1
  | .bound t _ => if t.blocker?.isNone then 1 else 2
  | .guard .. | .running .. => 0

/-- Whether the task of an item in a place has been looked at as far as the dependency at a place in
its list, for which it has been made to wait. -/
def Item.Beyond (w : World) : Place → Item → Nat → Prop
  | .waiting .., .loose t, i => i ≤ t.cursor
  | _, .loose t, i | _, .bound t _, i =>
    i < t.cursor ∨ i = t.cursor ∧ ∀ d ∈ t.blocker?, d.version ≤ (w.units d.handle).completed
  | _, .running .., _ => True
  | _, _, _ => False

/-- What is met stays met. -/
theorem Item.Beyond.mono {p : Place} {x : Item} {i : Nat} (beyond : x.Beyond w p i)
    (later : ∀ h, (w.units h).completed ≤ (w'.units h).completed) : x.Beyond w' p i := by
  have looked : ∀ {t : Task},
      (i < t.cursor ∨ i = t.cursor ∧ ∀ d ∈ t.blocker?, d.version ≤ (w.units d.handle).completed) →
      i < t.cursor ∨ i = t.cursor ∧ ∀ d ∈ t.blocker?, d.version ≤ (w'.units d.handle).completed :=
    fun looked => looked.imp_right fun ⟨here, met⟩ =>
      ⟨here, fun d blocked => Nat.le_trans (met d blocked) (later d.handle)⟩
  cases x with
  | draft | arriving | guard => cases p <;> exact beyond
  | running => cases p <;> trivial
  | bound => cases p <;> exact looked beyond
  | loose =>
      cases p with
      | waiting => exact beyond
      | hands | queue | kept => exact looked beyond

/-- A task is looked at from where it was left. -/
theorem Comes.beyond {p p' : Place} {x x' : Item} {i : Nat} (comes : Comes w ms w' id p x p' x')
    (later : ∀ h, (w.units h).completed ≤ (w'.units h).completed)
    (waits : ∀ h v, ∀ t ∈ (w.units h).waiting v,
      ∃ d, t.blocker? = some d ∧ d.handle = h ∧ d.version = v)
    (here : x ∈ w.items hands p) (beyond : x.Beyond w p i) : x'.Beyond w' p' i := by
  cases comes with
  | stays => exact beyond.mono later
  | resolved | built | kept | picked | accepted | acceptedLazily => exact beyond.elim
  | @marked t d blocked =>
      refine .inl (show i < t.cursor + 1 from Nat.lt_succ_of_le ?_)
      exact beyond.elim Nat.le_of_lt fun here => Nat.le_of_eq here.1
  | parked => exact beyond.elim Nat.le_of_lt fun here => Nat.le_of_eq here.1
  | @routed t q => exact Item.Beyond.mono (p := .hands id) (x := .bound t q) beyond later
  | @stored t q => exact Item.Beyond.mono (p := .queue q) (x := .bound t q) beyond later
  | @fetched t q => exact Item.Beyond.mono (p := .hands id) (x := .loose t) beyond later
  | @woken t h v met =>
      obtain ⟨t, waiting, same⟩ := List.mem_map.1 here
      cases same
      obtain ⟨d, blocked, rfl, rfl⟩ := waits _ _ t waiting
      refine (Nat.lt_or_eq_of_le beyond).imp_right fun here => ⟨here, fun e blocked' => ?_⟩
      obtain rfl := Option.some.inj (blocked.symm.trans blocked')
      exact Nat.le_of_eq met.symm
  | begun | runs => trivial

/-- What a task is, and where, is told by its number. -/
theorem Orderly.place_unique (orderly : Orderly past w hands) {p q : Place} {x y : Item}
    (here : x ∈ w.items hands p) (there : y ∈ w.items hands q) (mine : .task s ∈ x.keys)
    (yours : .task s ∈ y.keys) : p = q ∧ x = y :=
  ⟨orderly.apart.unique _ _ _ (mem_keysOf.2 ⟨x, here, mine⟩) (mem_keysOf.2 ⟨y, there, yours⟩),
    orderly.eq_of_keys here there mine yours⟩

/-- Whether a worker fetches a task, or has none in hand that could be put into a queue. -/
def Control.Clings (id : WorkerId) (c : Control) : Prop :=
  c.fetches = true ∨ ∀ t, .loose t ∉ c.items id ∧ ∀ q, .bound t q ∉ c.items id

/-- A worker that has failed has nothing in hand. -/
theorem clings_failed (id : WorkerId) (f : Failure) : Control.Clings id (.failed f) :=
  .inr fun _ => ⟨List.not_mem_nil, fun _ => List.not_mem_nil⟩

namespace Machine

variable {m after : Machine} {mv : Move} {limit : Nat} {passed : List Passage}

/-- Whether the tasks in a place have been taken out of a queue in order to be run. -/
def fetches (m : Machine) : Place → Bool
  | .hands id => (m.controlOf id).fetches
  | _ => false

/-- Nothing is put into a queue by a worker that has taken a task out of one. -/
theorem Sound.unbound_of_fetches (sound : m.Sound) (fetches : (m.controlOf id).fetches = true)
    (t : Task) (q : WorkerId) : .bound t q ∉ m.hands id := by
  have seated := sound.seated id
  have unbound : ∀ {target : WorkerId} {r : Queue.Request Task} {p : Queue.Progress Task},
      r.Takes → p.Taking r → .bound t q ∉ p.items target := by
    intro target r p takes taking
    cases taking with
    | publish x | release x => simp [Queue.Progress.items, looseItems]
    | measure | acquire | change => cases takes <;> simp [Queue.Progress.items]
  unfold hands
  generalize m.controlOf id = c at fetches seated
  unfold Control.fetches at fetches
  split at fetches
  · exact unbound .pop seated.2
  · exact unbound .steal seated.2
  · simp [Control.items, Execution.items]
  · cases fetches

/-- A worker that fetches a task goes on to do so, or to run it, or has nothing in hand. -/
theorem conduct_fetches (fetches : (m.controlOf id).fetches = true) :
    m.Conduct id (Control.Clings id) where
  idle c nothing _ := .inr fun t => by simp [nothing]
  uncounted := clings_failed id _
  submitting s now := by cases now ▸ fetches
  serving s seen now := by cases now ▸ fetches
  popping p now := yields_of_forall _ (fun _ => .inl rfl) (fun _ _ _ => .inl rfl) (clings_failed id)
  stealing victim p rest now :=
    yields_of_forall _ (fun _ => .inl rfl) (fun _ _ _ => .inl rfl) (clings_failed id)
  executing e now := by
    rw [now] at fetches
    have executes := m.executes_executeStep id e
    generalize m.executeStep id e = r at executes
    cases executes with
    | vets => exact .inl rfl
    | parks => trivial
    | unvetted | workless => exact clings_failed id _
    | takes => exact .inr fun t => by simp [Control.items, Execution.items]
    | _ => cases fetches
  leading l now := by cases now ▸ fetches

/-- A worker that has taken a task out of a queue does not give it up before it is run or made to
wait. -/
theorem Sound.fetches_move (sound : m.Sound) (moved : m.move mv = some after)
    (fetches : (m.controlOf mv.actor).fetches = true) :
    (after.controlOf mv.actor).Clings mv.actor :=
  sound.conduct_move (conduct_fetches fetches) (.inl fetches) moved
    (fun round expected next now => by cases now ▸ fetches)
    fun before next s now calls => by
      cases calls with
      | spawn => exact .inr fun t => by simp [Control.items, Submission.items]
      | submit => exact .inr fun t => by simp [Control.items, Submission.items]

/-! ## The accounts of a pool -/

/-- The account of the task of a number that an item in a place tells of. -/
structure Accounted (limit : Nat) (passed : List Passage) (m : Machine) (p : Place) (x : Item)
    (s : Nat) : Prop where
  /-- It may still be taken out of a queue a number of times. -/
  taken : passed.count (.taken s) + x.allowance limit (m.fetches p) ≤ limit
  /-- It has not been made to wait for anything that is still to be looked at. -/
  parked : ∀ i ∈ stops s passed, x.Beyond m.world p i

/-- The accounts of a pool of what has passed. -/
structure Accounts (limit : Nat) (passed : List Passage) (m : Machine) : Prop where
  items : ∀ p, ∀ x ∈ m.world.items m.hands p, ∀ s, .task s ∈ x.keys →
    Accounted limit passed m p x s
  taken : ∀ s, passed.count (.taken s) ≤ limit
  /-- Nobody is made to wait again for what they have waited for, or for what comes before it. -/
  rising : ∀ s, (stops s passed).Pairwise (· > ·)
  fresh : ∀ x ∈ passed, x.serial < m.begun

/-- A worker that has a task in hand that it has taken out of a queue still does so. -/
theorem Sound.fetches_of_loose (sound : m.Sound) (moved : m.move mv = some after) {id : WorkerId}
    {t : Task} (mem : .loose t ∈ after.hands id) (fetches : (m.controlOf id).fetches = true) :
    (after.controlOf id).fetches = true := by
  by_cases own : id = mv.actor
  · subst own
    exact (sound.fetches_move moved fetches).resolve_right fun none => (none t).1 mem
  · rw [(sound.move moved).others id own]
    exact fetches

/-- No task may be taken out of a queue more often after a turn than before it. -/
theorem Sound.allowance_le (sound : m.Sound) (moved : m.move mv = some after)
    (once : 1 ≤ limit) (enough : m.readiness = .eager ∨ 2 ≤ limit) {p p' : Place} {x x' : Item}
    (comes : Comes m.world (m.moments mv) after.world mv.actor p x p' x')
    (mem : x' ∈ after.world.items after.hands p') :
    x'.allowance limit (after.fetches p') ≤ x.allowance limit (m.fetches p) := by
  have loose : ∀ {t : Task} {fetched : Bool}, (Item.loose t).allowance limit fetched ≤ 1 := by
    intro t fetched
    simp only [Item.allowance]
    split <;> simp
  cases comes with
  | stays =>
      cases x with
      | loose t =>
          cases p with
          | hands id =>
              by_cases fetches : (m.controlOf id).fetches = true
              · have still := sound.fetches_of_loose moved mem fetches
                rw [show m.fetches (.hands id) = true from fetches,
                  show after.fetches (.hands id) = true from still]
              · rw [show m.fetches (.hands id) = false from Bool.eq_false_of_not_eq_true fetches]
                exact loose
          | queue | waiting | kept => exact Nat.le_refl _
      | draft | arriving | bound | guard | running => exact Nat.le_refl _
  | resolved | built | kept | picked | stored => exact Nat.le_refl _
  | accepted => exact Nat.le_trans loose once
  | @acceptedLazily t q now =>
      rcases enough with eager | enough
      · exact absurd mem (unbound_of_accepted eager moved now t q)
      · refine Nat.le_trans ?_ enough
        simp only [Item.allowance]
        split <;> simp
  | marked blocked | parked blocked =>
      refine Nat.le_trans loose ?_
      simp [Item.allowance, blocked]
  | @routed t q met =>
      have unfetched : (m.controlOf mv.actor).fetches = false := by
        rw [← Bool.not_eq_true]
        intro fetches
        rcases sound.fetches_move moved fetches with fetches | none
        · exact (sound.move moved).sound.unbound_of_fetches fetches t q mem
        · exact (none t).2 q mem
      simp [Item.allowance, Machine.fetches, met, unfetched]
  | fetched =>
      refine Nat.le_trans loose ?_
      simp only [Item.allowance]
      split <;> simp
  | woken => exact loose
  | begun | runs => exact Nat.zero_le _

/-- What is known of an item after a turn of all that has passed before it. -/
theorem Accounts.earlier (accounts : Accounts limit passed m) (sound : m.Sound)
    (orderly : Orderly past m.world m.hands) (moved : m.move mv = some after)
    (once : 1 ≤ limit) (enough : m.readiness = .eager ∨ 2 ≤ limit) {p' : Place} {x' : Item}
    (mem : x' ∈ after.world.items after.hands p') (mine : .task s ∈ x'.keys) :
    Accounted limit passed after p' x' s := by
  have turned := sound.move moved
  have before : x' ∈ after.world.items (update m.hands mv.actor (after.hands mv.actor)) p' := by
    rwa [← turned.hands_eq]
  rcases turned.deed.comes orderly.sound before with
    ⟨q, changed, rfl⟩ | ⟨d, rfl, serial⟩ | ⟨p, x, here, comes⟩
  · cases List.mem_singleton.1 mine
  · -- nothing has passed that is about a task that has just been begun
    cases List.mem_singleton.1 mine
    have others : ∀ x ∈ passed, x.serial ≠ d.serial := fun x mem =>
      Nat.ne_of_lt (serial ▸ accounts.fresh x mem)
    obtain ⟨untaken, unparked⟩ := untouched others
    refine ⟨?_, by simp [unparked]⟩
    rw [untaken, Nat.zero_add]
    exact Nat.le_refl _
  · have account := accounts.items p x here s (comes.keys mine)
    refine ⟨Nat.le_trans ?_ account.taken, fun i mem' => ?_⟩
    · exact Nat.add_le_add_left (sound.allowance_le moved once enough comes mem) _
    · exact comes.beyond (turned.deed.completed_le (not_fault_of_unbroken orderly.sound))
        orderly.waits here (account.parked i mem')

/-- A turn keeps the accounts of all that has passed before it. -/
theorem Accounts.stay (accounts : Accounts limit passed m) (sound : m.Sound)
    (orderly : Orderly past m.world m.hands) (moved : m.move mv = some after)
    (once : 1 ≤ limit) (enough : m.readiness = .eager ∨ 2 ≤ limit) :
    Accounts limit passed after where
  items _ _ mem _ mine := accounts.earlier sound orderly moved once enough mem mine
  taken := accounts.taken
  rising := accounts.rising
  fresh x mem :=
    Nat.lt_of_lt_of_le (accounts.fresh x mem) ((sound.move moved).deed.begun_le orderly.sound)

/-- A task that may be taken out of a queue once more has been taken out of one. -/
theorem Accounts.take (accounts : Accounts limit passed m) (orderly : Orderly past m.world m.hands)
    {p : Place} {x : Item} (there : x ∈ m.world.items m.hands p) (yours : .task s ∈ x.keys)
    (less : passed.count (.taken s) + 1 + x.allowance limit (m.fetches p) ≤ limit) :
    Accounts limit (.taken s :: passed) m where
  items q y mem s' mine := by
    have account := accounts.items q y mem s' mine
    refine ⟨?_, account.parked⟩
    by_cases own : s' = s
    · subst own
      obtain ⟨rfl, rfl⟩ := orderly.place_unique mem there mine yours
      rwa [List.count_cons_self]
    · rw [count_taken_of_ne (Ne.symm own)]
      exact account.taken
  taken s' := by
    by_cases own : s' = s
    · subst own
      rw [List.count_cons_self]
      exact Nat.le_trans (Nat.le_add_right _ _) less
    · rw [count_taken_of_ne (Ne.symm own)]
      exact accounts.taken s'
  rising := accounts.rising
  fresh := List.forall_mem_cons.2 ⟨begun_of_keys (orderly.fits p x there) yours, accounts.fresh⟩

/-- A task that has not waited for the dependency at its cursor has been made to wait for it. -/
theorem Accounts.park (accounts : Accounts limit passed m) (orderly : Orderly past m.world m.hands)
    {t : Task} {h : HandleId} {v : Version} (waiting : t ∈ (m.world.units h).waiting v)
    (above : ∀ i ∈ stops t.serial passed, i < t.cursor) :
    Accounts limit (.parked t.serial t.cursor :: passed) m := by
  have there : .loose t ∈ m.world.items m.hands (.waiting h v) := List.mem_map_of_mem waiting
  have stops_cons : stops t.serial (.parked t.serial t.cursor :: passed) =
      t.cursor :: stops t.serial passed := List.filterMap_cons_some (if_pos rfl)
  refine ⟨fun p x mem s mine => ?_, accounts.taken, fun s => ?_,
    List.forall_mem_cons.2 ⟨begun_of_keys (orderly.fits _ _ there) List.mem_cons_self,
      accounts.fresh⟩⟩
  · have account := accounts.items p x mem s mine
    refine ⟨account.taken, ?_⟩
    by_cases own : s = t.serial
    · subst own
      obtain ⟨rfl, rfl⟩ := orderly.place_unique mem there mine List.mem_cons_self
      rw [stops_cons]
      exact List.forall_mem_cons.2 ⟨Nat.le_refl _, account.parked⟩
    · rw [stops_of_ne (Ne.symm own)]
      exact account.parked
  · by_cases own : s = t.serial
    · subst own
      rw [stops_cons]
      exact List.pairwise_cons.2 ⟨above, accounts.rising _⟩
    · rw [stops_of_ne (Ne.symm own)]
      exact accounts.rising s

/-- A turn keeps the accounts. -/
theorem Accounts.move (accounts : Accounts limit passed m) (sound : m.Sound)
    (orderly : Orderly past m.world m.hands) {past' : List Moment}
    (orderly' : Orderly past' after.world after.hands) (moved : m.move mv = some after)
    (once : 1 ≤ limit) (enough : m.readiness = .eager ∨ 2 ≤ limit) :
    Accounts limit (m.passages mv ++ passed) after := by
  have stay : Accounts limit passed after := accounts.stay sound orderly moved once enough
  rcases m.passages_cases mv with nothing | ⟨s, passes⟩ | ⟨s, i, passes⟩
  · rw [nothing, List.nil_append]
    exact stay
  · obtain ⟨t, q, rfl, queued, mem, fetches⟩ := sound.taken_cases moved passes
    have here : .bound t q ∈ m.world.items m.hands (.queue q) := List.mem_map_of_mem queued
    have account := accounts.items _ _ here t.serial List.mem_cons_self
    have there : .loose t ∈ after.world.items after.hands (.hands mv.actor) := mem
    have less : passed.count (.taken t.serial) + 1 +
        (Item.loose t).allowance limit (after.fetches (.hands mv.actor)) ≤ limit := by
      refine Nat.le_trans (Nat.le_of_eq ?_) account.taken
      simp only [Item.allowance, Machine.fetches, fetches, Bool.true_and]
      split <;> rfl
    rw [passes]
    exact stay.take orderly' there List.mem_cons_self less
  · obtain ⟨t, d, rfl, rfl, mem, blocked, unmet, waiting⟩ := sound.parked_cases moved passes
    have here : .loose t ∈ m.world.items m.hands (.hands mv.actor) := mem
    have account := accounts.items _ _ here t.serial List.mem_cons_self
    rw [passes]
    -- what it has waited for before has been met since
    refine stay.park orderly' waiting fun i mem => (account.parked i mem).resolve_right ?_
    exact fun ⟨_, met⟩ => Nat.not_lt_of_le (met d blocked) unmet

/-! ## Runs -/

end Machine

/-- How often a task is taken out of a queue at most. -/
def takings : Readiness → Nat
  | .eager => 1
  | .lazy => 2

namespace Machine

variable {l : Launch} {vocabulary : Access.Vocabulary} {handles callers : Nat}
  {references : Array HandleId}

/-- Every trail of a pool is accounted for. -/
theorem Trail.accounts
    (trail : (l.opening vocabulary handles callers references).Trail passed m) :
    Accounts (takings l.options.readiness) passed m := by
  have once : 1 ≤ takings l.options.readiness := by
    cases l.options.readiness <;> decide
  induction trail with
  | refl =>
      have opening : Orderly [] (l.opening vocabulary handles callers references).world
        (l.opening vocabulary handles callers references).hands := orderly_opening
      refine ⟨fun p x mem s mine => absurd (begun_of_keys (opening.fits p x mem) mine) ?_,
        fun _ => Nat.zero_le _, fun _ => .nil, by simp⟩
      rw [world_opening]
      exact Nat.not_lt_zero s
  | turn mv trail moved ih =>
      obtain ⟨past, run⟩ := trail.reaches.exists_runs
      obtain ⟨sound, orderly⟩ := run.orderly
      refine ih.move sound orderly (run.turn mv moved).orderly.2 moved once ?_
      cases discipline : l.options.readiness with
      | eager => exact .inl ((congrArg (·.2.2.1) run.reaches.shape_eq).trans discipline)
      | lazy => exact .inr (Nat.le_refl _)

/-- In every run of a pool with one worker:

an owner that waits at the barrier comes out of it, unless work is broken off: its own turns alone
bring it there, and so do all orders of turns in which its own turn comes time and again, if tasks
are kept for others to hand in only so often meanwhile, and none of these breaks work off;

every task is taken out of a queue once at most, or twice if readiness is checked lazily;

and every task is made to wait for later and later dependencies in its list, so for none of them
more than once. -/
theorem Trail.sole_worker_done (sole : l.size = 1)
    (trail : (l.opening vocabulary handles callers references).Trail passed m) :
    ((m.controlOf 0).awaiting = true → m.crash = none → m.cost.breaks = 0 →
      (∃ n, (m.stepIn n).Returned) ∧
      ∀ (f : Nat → Machine) (turns : Nat → Move), f 0 = m →
        (∀ n, (f n).move (turns n) = some (f (n + 1))) →
        (∀ n, ∃ k, n ≤ k ∧ turns k = .step 0) →
        (∃ last, ∀ n id, turns n = .keep id → n < last ∧ (f (n + 1)).cost.breaks = 0) →
        ∃ k, (f k).Returned) ∧
    (∀ s, passed.count (.taken s) ≤ takings l.options.readiness) ∧
    ∀ s, (stops s passed).Pairwise (· > ·) := by
  obtain ⟨past, run⟩ := trail.reaches.exists_runs
  refine ⟨fun awaiting up returns => ?_, trail.accounts.taken, trail.accounts.rising⟩
  have solitary : m.Solitary := ⟨l, vocabulary, handles, callers, references, past, sole, run⟩
  have alone : m.Alone := ⟨solitary, awaiting, up,
    Nat.le_zero.1 (returns ▸ (toil_le_cost solitary.size_eq).1)⟩
  exact ⟨alone.exists_stepIn, fun f turns here goes fair ⟨_, few⟩ =>
    alone.returns_of_fair here goes fair few⟩

/-- A pool with the given number of workers and one handle that checks tasks when they are about to
run. -/
def smallLazyPool (workers : WorkerCount) : Machine :=
  Launch.opening ⟨.plain, .flat, .discard, workers, { Options.default with readiness := .lazy }⟩
    .usual 1 0 #[0]

/-- The second of two tasks that write the same handle is the first one to be taken out of the
queue.  It is made to wait for the other one, and is taken out again when that is done. -/
theorem Trail.late_write_done :
    ∃ passed m, Trail (smallLazyPool ⟨1, by decide⟩) passed m ∧ passed.count (.taken 1) = 2 ∧
      stops 1 passed = [0] ∧ (∀ s, passed.count (.taken s) ≤ 2) ∧ ∃ n, (m.stepIn n).Returned := by
  obtain ⟨passed, m, trail, seen⟩ := exists_trail (smallLazyPool ⟨1, by decide⟩)
    (.spawn 0 writeTask :: (steps 0 7 ++ .spawn 0 writeTask :: (steps 0 7 ++ .lead :: steps 0 30)))
    (fun passed m => (m.controlOf 0).awaiting ∧ m.crash.isNone ∧ m.cost.breaks = 0 ∧
      passed.count (.taken 1) = 2 ∧ stops 1 passed = [0]) (by decide +kernel)
  obtain ⟨awaiting, up, returns, twice, once⟩ := of_decide_eq_true seen
  obtain ⟨ends, taken, -⟩ := trail.sole_worker_done rfl
  exact ⟨passed, m, trail, twice, once, taken,
    (ends awaiting (Option.isNone_iff_eq_none.1 up) returns).1⟩

end Machine

end AccessOrder.Pool
