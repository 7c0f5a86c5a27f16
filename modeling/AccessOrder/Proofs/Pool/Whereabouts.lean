/- # Where tasks are

Every task that has been begun is in one place, with the story that belongs there, or is gone: its
building has failed, it was refused, or it has been disposed.  `Housed` says so, and also what the
tasks in each place are like, who holds the locks, and that the handles know of nothing but what has
happened.  A pool is `Orderly` if, besides, nobody waits but for what holds them up.

* `Housed.exchange` : what keeps everything housed when an item in hand changes or moves;
* `Housed.relabel`, `Housed.gains`, `Housed.loses` : the same if as much is held after it, or one
  thing more, or one less.
-/
import AccessOrder.Proofs.Pool.Custody
import AccessOrder.Proofs.Pool.Ledger
namespace AccessOrder.Pool

open Function (update)

/-- Where something may be. -/
inductive Place where
  | hands (id : WorkerId)
  | queue (q : WorkerId)
  /-- On the list of those who wait for a version of a handle. -/
  | waiting (h : HandleId) (v : Version)
  /-- Among the tasks that have been built and are kept. -/
  | kept
  deriving DecidableEq

/-- What is in a place. -/
def World.items (w : World) (hands : WorkerId → List Item) : Place → List Item
  | .hands id => hands id
  | .queue q => (w.queue q).map (.bound · q)
  | .waiting h v => looseItems ((w.units h).waiting v)
  | .kept => w.kept.map .arriving

/-- What can be held by one at a time: the task of a number, the lock of a handle and the lock of a
queue. -/
inductive Key where
  | task (serial : Nat)
  | latch (h : HandleId)
  | guard (q : WorkerId)
  deriving DecidableEq

/-- What is held by having an item. -/
def Item.keys : Item → List Key
  | .draft d => [.task d.serial]
  | .arriving t | .loose t | .bound t _ => [.task t.serial]
  | .guard q _ => [.guard q]
  | .running f _ => .task f.task.serial :: f.held.map .latch

/-- What is held by having items. -/
def keysOf (xs : List Item) : List Key := xs.flatMap Item.keys

/-- What is held in a place. -/
def World.keys (w : World) (hands : WorkerId → List Item) (p : Place) : List Key :=
  keysOf (w.items hands p)

/-- Whether what has happened about the task of an item is what the item tells. -/
def Item.Tells (past : List Moment) : Item → Prop
  | .draft d => about d.serial past = story d.serial d.resolved .planned
  | .arriving t => about t.serial past = story t.serial t.dependencies .planned
  | .loose t | .bound t _ => about t.serial past = story t.serial t.dependencies .accepted
  | .guard .. => True
  | .running f (.locking _) =>
    about f.task.serial past = story f.task.serial f.task.dependencies .accepted
  | .running f .working =>
    about f.task.serial past = story f.task.serial f.task.dependencies .started
  | .running f .unlocking =>
    about f.task.serial past = story f.task.serial f.task.dependencies (.returned [])
  | .running f (.releasing todo) => ∃ done, f.task.dependencies = done ++ todo ∧
    about f.task.serial past = story f.task.serial f.task.dependencies (.returned done)

/-- Whether the handle of a dependency has reached its version. -/
def World.Met (w : World) (d : Dependency) : Prop := (w.units d.handle).completed = d.version

/-- What every task is like: it has been begun, and depends on different handles. -/
structure Fit (w : World) (t : Task) : Prop where
  begun : t.serial < w.begun
  distinct : (t.dependencies.map (·.handle)).Nodup
  known : ∀ d ∈ t.dependencies, d.handle < w.count

/-- What an accepted task is like before its work is taken: it has its work, is pinned to no worker
outside of the pool, and the dependencies before its cursor are met. -/
structure Pending (w : World) (t : Task) : Prop extends Fit w t where
  work : t.work ≠ none
  pins : ∀ q ∈ t.pin, q < w.size
  met : ∀ d ∈ t.dependencies.take t.cursor, w.Met d

/-- What an item in hand is like. -/
def Item.Fits (w : World) : Item → Prop
  | .draft d => d.serial < w.begun ∧
    ((d.resolved.map (·.handle)) ++ d.pending.map (·.handle)).Nodup ∧
      ∀ e ∈ d.resolved, e.handle < w.count
  | .arriving t => Fit w t ∧ t.work ≠ none ∧ t.cursor = 0
  | .loose t => Pending w t
  | .bound t target => Pending w t ∧ target < w.size ∧ ∀ q ∈ t.pin, target = q
  | .guard q _ => q < w.size
  | .running f (.locking todo) => Fit w f.task ∧ (∀ d ∈ f.task.dependencies, w.Met d) ∧
    f.held.reverse ++ todo = f.task.lockHandles
  | .running f .working => Fit w f.task ∧ (∀ d ∈ f.task.dependencies, w.Met d) ∧
    f.held.reverse = f.task.lockHandles
  | .running f .unlocking => Fit w f.task ∧ ∀ d ∈ f.task.dependencies, w.Met d
  | .running f (.releasing todo) => Fit w f.task ∧ (∀ d ∈ todo, w.Met d) ∧ f.held = []

/-- The dependencies of an item that are to stay met. -/
def Item.claims : Item → List Dependency
  | .loose t | .bound t _ => t.dependencies.take t.cursor
  | .running _ (.releasing todo) => todo
  | .running f _ => f.task.dependencies
  | _ => []

/-- The story of a task that is gone: it was never accepted, or it has been disposed. -/
def Lost (s : Nat) (past : List Moment) : Prop :=
  ∃ ds, ds.Nodup ∧ (past = story s ds .planned ∨ past = story s ds .closed)

/-- The invariant of a pool, whatever those who wait are waiting for. -/
structure Housed (past : List Moment) (w : World) (hands : WorkerId → List Item) : Prop where
  ledger : Ledger past w.units
  apart : Apart (w.keys hands)
  tells : ∀ p, ∀ x ∈ w.items hands p, x.Tells past
  fits : ∀ p, ∀ x ∈ w.items hands p, x.Fits w
  lost : ∀ s, ¬Kept (w.keys hands) (.task s) → Lost s (about s past)
  /-- Nothing has happened about tasks that have not been begun. -/
  fresh : ∀ s, w.begun ≤ s → about s past = []
  latches : ∀ h, (w.units h).locked = true ↔ Kept (w.keys hands) (.latch h)
  guards : ∀ q, w.held q = true ↔ Kept (w.keys hands) (.guard q)
  /-- The published length of a queue is its length, unless its lock is held by someone who has just
  changed it. -/
  published : ∀ q, w.published q = (w.queue q).length ∨ ∃ p, .guard q true ∈ w.items hands p

/-- The invariant of a pool: who waits waits for the version of the first dependency that is not
known to be met. -/
structure Orderly (past : List Moment) (w : World) (hands : WorkerId → List Item) : Prop
    extends Housed past w hands where
  waits : ∀ h v, ∀ t ∈ (w.units h).waiting v,
    ∃ d, t.blocker? = some d ∧ d.handle = h ∧ d.version = v

/-! ## Items that stay as they are -/

/-- Different handles make different dependencies. -/
theorem nodup_of_handles {ds : List Dependency} (distinct : (ds.map (·.handle)).Nodup) : ds.Nodup :=
  List.Nodup.of_map _ distinct

/-- What an item is to keep met is unreleased. -/
theorem unreleased_of_claims {x : Item} {w : World} {past : List Moment} (tells : x.Tells past)
    (fits : x.Fits w) {d : Dependency} (claim : d ∈ x.claims) :
    ∃ s, .task s ∈ x.keys ∧ (s, d) ∈ unreleased past := by
  have told : ∀ {s : Nat} {ds : List Dependency} {c : Chapter}, about s past = story s ds c →
      ds.Nodup → d ∈ ds → d ∉ c.released ds → (s, d) ∈ unreleased past := by
    intro s ds c same nodup mem left
    rw [mem_unreleased_about, same]
    exact (mem_unreleased_story nodup c d).2 ⟨mem, left⟩
  cases x with
  | draft e => cases claim
  | arriving t => cases claim
  | loose t =>
      exact ⟨_, List.mem_cons_self,
        told tells (nodup_of_handles fits.distinct) (List.mem_of_mem_take claim) List.not_mem_nil⟩
  | bound t q =>
      exact ⟨_, List.mem_cons_self,
        told tells (nodup_of_handles fits.1.distinct) (List.mem_of_mem_take claim) List.not_mem_nil⟩
  | guard q changed => cases claim
  | running f stage =>
      refine ⟨_, List.mem_cons_self, ?_⟩
      cases stage with
      | locking todo => exact told tells (nodup_of_handles fits.1.distinct) claim List.not_mem_nil
      | working => exact told tells (nodup_of_handles fits.1.distinct) claim List.not_mem_nil
      | unlocking => exact told tells (nodup_of_handles fits.1.distinct) claim List.not_mem_nil
      | releasing todo =>
          obtain ⟨done, split, same⟩ := tells
          have nodup := nodup_of_handles fits.1.distinct
          refine told same nodup (split ▸ List.mem_append_right done claim) fun released => ?_
          rw [split, List.nodup_append] at nodup
          exact nodup.2.2 d released d claim rfl

/-- An item tells the same as long as nothing happens about its task. -/
theorem Item.Tells.mono {x : Item} {past e : List Moment} (tells : x.Tells past)
    (others : ∀ y ∈ e, .task y.serial ∉ x.keys) : x.Tells (e ++ past) := by
  have same : ∀ s, .task s ∈ x.keys → about s (e ++ past) = about s past := by
    intro s own
    rw [about_append]
    have none : about s e = [] := by
      rw [about, List.filter_eq_nil_iff]
      intro y mem
      have other := others y mem
      simp only [decide_eq_true_eq]
      rintro rfl
      exact other own
    rw [none, List.nil_append]
  cases x with
  | draft d => exact (same d.serial List.mem_cons_self).trans tells
  | arriving t | loose t | bound t q => exact (same t.serial List.mem_cons_self).trans tells
  | guard q changed => trivial
  | running f stage =>
      have unchanged := same f.task.serial List.mem_cons_self
      cases stage with
      | locking todo | working | unlocking => exact unchanged.trans tells
      | releasing todo =>
          obtain ⟨done, split, told⟩ := tells
          exact ⟨done, split, unchanged.trans told⟩

/-- A task stays as it is. -/
theorem Fit.mono {w w' : World} {t : Task} (fit : Fit w t) (begun : w.begun ≤ w'.begun)
    (count : w'.count = w.count) : Fit w' t where
  begun := Nat.lt_of_lt_of_le fit.begun begun
  distinct := fit.distinct
  known d mem := count ▸ fit.known d mem

/-- An item stays as it is as long as what it is to keep met stays met. -/
theorem Item.Fits.mono {x : Item} {w w' : World} (fits : x.Fits w) (begun : w.begun ≤ w'.begun)
    (count : w'.count = w.count) (size : w'.size = w.size)
    (met : ∀ d ∈ x.claims, w.Met d → w'.Met d) : x.Fits w' := by
  have pending : ∀ {t : Task}, Pending w t →
      (∀ d ∈ t.dependencies.take t.cursor, w.Met d → w'.Met d) → Pending w' t := by
    intro t fits met
    refine ⟨fits.toFit.mono begun count, fits.work, fun q pinned => ?_, fun d mem => ?_⟩
    · rw [size]
      exact fits.pins q pinned
    · exact met d mem (fits.met d mem)
  cases x with
  | draft d =>
      obtain ⟨number, distinct, known⟩ := fits
      exact ⟨Nat.lt_of_lt_of_le number begun, distinct, fun e mem => count ▸ known e mem⟩
  | arriving t => exact ⟨fits.1.mono begun count, fits.2⟩
  | loose t => exact pending fits met
  | bound t q =>
      refine ⟨pending fits.1 met, ?_, fits.2.2⟩
      rw [size]
      exact fits.2.1
  | guard q changed =>
      show q < w'.size
      rw [size]
      exact fits
  | running f stage =>
      cases stage with
      | locking todo =>
          exact ⟨fits.1.mono begun count, fun d mem => met d mem (fits.2.1 d mem), fits.2.2⟩
      | working =>
          exact ⟨fits.1.mono begun count, fun d mem => met d mem (fits.2.1 d mem), fits.2.2⟩
      | unlocking => exact ⟨fits.1.mono begun count, fun d mem => met d mem (fits.2 d mem)⟩
      | releasing todo =>
          exact ⟨fits.1.mono begun count, fun d mem => met d mem (fits.2.1 d mem), fits.2.2⟩

/-- Only tasks that have been begun are anywhere. -/
theorem begun_of_keys {x : Item} {w : World} {s : Nat} (fits : x.Fits w) (mine : .task s ∈ x.keys) :
    s < w.begun := by
  cases x with
  | draft d =>
      cases List.mem_singleton.1 mine
      exact fits.1
  | arriving t =>
      cases List.mem_singleton.1 mine
      exact fits.1.begun
  | loose t =>
      cases List.mem_singleton.1 mine
      exact fits.begun
  | bound t q =>
      cases List.mem_singleton.1 mine
      exact fits.1.begun
  | guard q changed => cases List.mem_singleton.1 mine
  | running f stage =>
      have own : s = f.task.serial := by simpa [Item.keys] using mine
      subst own
      cases stage with
      | locking todo | working | unlocking | releasing todo => exact fits.1.begun

/-! ## Items that change or move -/

theorem mem_keysOf {xs : List Item} {k : Key} : k ∈ keysOf xs ↔ ∃ x ∈ xs, k ∈ x.keys :=
  List.mem_flatMap

variable {past e : List Moment} {w w' : World} {hands hands' : WorkerId → List Item} {p q : Place}
  {old new rest : List Item}

/-- What is held is exchanged with the items. -/
theorem Exchange.keys (exchange : Exchange (w.items hands) (w'.items hands') p q old new rest) :
    Exchange (w.keys hands) (w'.keys hands') p q (keysOf old) (keysOf new) (keysOf rest) where
  different := exchange.different
  others o notp notq := congrArg keysOf (exchange.others o notp notq)
  before := by
    have before := exchange.before.flatMap_right Item.keys
    rwa [List.flatMap_append, List.flatMap_append] at before
  after := by
    have after := exchange.after.flatMap_right Item.keys
    rwa [List.flatMap_append, List.flatMap_append] at after

/-- The version of what is to stay met stays the completed one, as no version goes back and
unreleased versions are in use. -/
theorem met_mono (ledger : Ledger (e ++ past) w'.units)
    (monotone : ∀ h, (w.units h).completed ≤ (w'.units h).completed) {s : Nat} {d : Dependency}
    (held : (s, d) ∈ unreleased (e ++ past)) (met : w.Met d) : w'.Met d := by
  refine Nat.le_antisymm (ledger.in_use held).1 ?_
  rw [← met]
  exact monotone d.handle

/-- Everyone is where they were, unless their item has been taken out. -/
theorem Exchange.cases (exchange : Exchange (w.items hands) (w'.items hands') p q old new rest)
    (apart : Apart (w.keys hands)) {o : Place} {x : Item} (mem : x ∈ w'.items hands' o) :
    x ∈ new ∨ ((∃ o, x ∈ w.items hands o) ∧ ∀ k ∈ x.keys, k ∉ keysOf old) := by
  rcases exchange.cases_after mem with ⟨-, put | moved⟩ | ⟨other, mem⟩
  · exact .inl put
  · refine .inr ⟨exchange.kept_before (.inr moved), fun k own taken => ?_⟩
    exact exchange.keys.not_mem_rest apart taken (mem_keysOf.2 ⟨x, moved, own⟩)
  · refine .inr ⟨⟨o, mem⟩, fun k own => ?_⟩
    exact (exchange.keys.elsewhere apart other (mem_keysOf.2 ⟨x, mem, own⟩)).1

/-- Everything stays housed when an item in hand changes or moves, and nothing happens but about its
task. -/
theorem Housed.exchange (housed : Housed past w hands)
    (exchange : Exchange (w.items hands) (w'.items hands') p q old new rest)
    (ledger : Ledger (e ++ past) w'.units)
    (monotone : ∀ h, (w.units h).completed ≤ (w'.units h).completed)
    (begun : w.begun ≤ w'.begun) (count : w'.count = w.count) (size : w'.size = w.size)
    (own : ∀ y ∈ e, .task y.serial ∈ keysOf old) (nodup : (keysOf new).Nodup)
    (known : ∀ k ∈ keysOf new, k ∈ keysOf old ∨ ¬Kept (w.keys hands) k)
    (tells : ∀ x ∈ new, x.Tells (e ++ past)) (fits : ∀ x ∈ new, x.Fits w')
    (lost : ∀ s, .task s ∈ keysOf old → .task s ∉ keysOf new → Lost s (about s (e ++ past)))
    (latches : ∀ h, (w'.units h).locked = true ↔
      .latch h ∈ keysOf new ∨ ((w.units h).locked = true ∧ .latch h ∉ keysOf old))
    (guards : ∀ q, w'.held q = true ↔
      .guard q ∈ keysOf new ∨ (w.held q = true ∧ .guard q ∉ keysOf old))
    (published : ∀ q, w'.published q = (w'.queue q).length ∨ .guard q true ∈ new ∨
      (w'.published q = w.published q ∧ (w'.queue q).length = (w.queue q).length ∧
        .guard q true ∉ old)) :
    Housed (e ++ past) w' hands' := by
  have kept := exchange.keys.kept_iff housed.apart
  -- nothing happens to the tasks of the items that stay as they are
  have unmoved : ∀ {x : Item}, (∀ k ∈ x.keys, k ∉ keysOf old) → ∀ y ∈ e, .task y.serial ∉ x.keys :=
    fun away y mem mine => away _ mine (own y mem)
  have unchanged : ∀ s, .task s ∉ keysOf old → about s (e ++ past) = about s past := by
    intro s other
    have none : about s e = [] := by
      rw [about, List.filter_eq_nil_iff]
      intro y mem
      simp only [decide_eq_true_eq]
      rintro rfl
      exact other (own y mem)
    rw [about_append, none, List.nil_append]
  refine ⟨ledger, exchange.keys.apart housed.apart nodup known, fun o x mem => ?_,
    fun o x mem => ?_, fun s gone => ?_, fun s late => ?_, fun h => ?_, fun q => ?_, fun q => ?_⟩
  · rcases exchange.cases housed.apart mem with put | ⟨⟨o, mem⟩, away⟩
    · exact tells x put
    · exact (housed.tells o x mem).mono (unmoved away)
  · rcases exchange.cases housed.apart mem with put | ⟨⟨o, mem⟩, away⟩
    · exact fits x put
    · have told := (housed.tells o x mem).mono (unmoved away)
      refine (housed.fits o x mem).mono begun count size fun d claim => ?_
      obtain ⟨s, -, held⟩ := unreleased_of_claims told (housed.fits o x mem) claim
      exact met_mono ledger monotone held
  · rw [kept, not_or, not_and_not_right] at gone
    by_cases taken : .task s ∈ keysOf old
    · exact lost s taken gone.1
    · rw [unchanged s taken]
      exact housed.lost s fun here => taken (gone.2 here)
  · by_cases taken : .task s ∈ keysOf old
    · obtain ⟨x, mem, mine⟩ := mem_keysOf.1 taken
      obtain ⟨o, here⟩ := exchange.kept_before (.inl mem)
      have before : s < w.begun := begun_of_keys (housed.fits o x here) mine
      exact absurd (Nat.le_trans begun late) (Nat.not_le_of_lt before)
    · rw [unchanged s taken]
      exact housed.fresh s (Nat.le_trans begun late)
  · rw [latches, kept, housed.latches]
  · rw [guards, kept, housed.guards]
  · rcases published q with same | put | ⟨same, length, left⟩
    · exact .inl same
    · exact .inr (exchange.kept_after (.inl put))
    · rcases housed.published q with known | ⟨o, mem⟩
      · exact .inl (by rw [same, length, known])
      · exact .inr (exchange.kept_of_not_mem_old mem left)

/-- Everything stays housed when items are exchanged for others by which the same is held. -/
theorem Housed.relabel (housed : Housed past w hands)
    (exchange : Exchange (w.items hands) (w'.items hands') p q old new rest)
    (keys : keysOf new = keysOf old)
    (ledger : Ledger (e ++ past) w'.units)
    (monotone : ∀ h, (w.units h).completed ≤ (w'.units h).completed)
    (begun : w'.begun = w.begun) (count : w'.count = w.count) (size : w'.size = w.size)
    (own : ∀ y ∈ e, .task y.serial ∈ keysOf old)
    (tells : ∀ x ∈ new, x.Tells (e ++ past)) (fits : ∀ x ∈ new, x.Fits w')
    (locked : ∀ h, (w'.units h).locked = (w.units h).locked) (held : w'.held = w.held)
    (published : ∀ q, w'.published q = (w'.queue q).length ∨ .guard q true ∈ new ∨
      (w'.published q = w.published q ∧ (w'.queue q).length = (w.queue q).length ∧
        .guard q true ∉ old)) :
    Housed (e ++ past) w' hands' := by
  have nodup := (List.nodup_append.1 (exchange.keys.nodup housed.apart)).1
  -- what is held before is what is held afterwards
  have same : ∀ {k : Key} {taken : Prop}, (taken ↔ Kept (w.keys hands) k) →
      (taken ↔ k ∈ keysOf new ∨ (taken ∧ k ∉ keysOf old)) := by
    intro k taken kept
    rw [keys]
    constructor
    · intro yes
      by_cases mem : k ∈ keysOf old
      · exact .inl mem
      · exact .inr ⟨yes, mem⟩
    · rintro (mem | ⟨yes, -⟩)
      · exact kept.2 (exchange.keys.kept_before (.inl mem))
      · exact yes
  refine housed.exchange exchange ledger monotone (Nat.le_of_eq begun.symm) count size own
    (keys ▸ nodup) (fun k mem => .inl (keys ▸ mem)) tells fits
    (fun s mem gone => absurd (keys ▸ mem) gone) (fun h => ?_) (fun q => ?_) published
  · rw [locked]
    exact same (housed.latches h)
  · rw [held]
    exact same (housed.guards q)

/-- Everything stays housed when items are exchanged for others by which one thing more is held. -/
theorem Housed.gains (housed : Housed past w hands)
    (exchange : Exchange (w.items hands) (w'.items hands') p q old new rest) {k : Key}
    (gained : (keysOf new).Perm (k :: keysOf old)) (unkept : ¬Kept (w.keys hands) k)
    (ledger : Ledger past w'.units)
    (completed : ∀ h, (w'.units h).completed = (w.units h).completed)
    (begun : w.begun ≤ w'.begun) (count : w'.count = w.count) (size : w'.size = w.size)
    (tells : ∀ x ∈ new, x.Tells past) (fits : ∀ x ∈ new, x.Fits w')
    (latches : ∀ h, (w'.units h).locked = true ↔ k = .latch h ∨ (w.units h).locked = true)
    (guards : ∀ q, w'.held q = true ↔ k = .guard q ∨ w.held q = true)
    (published : ∀ q, w'.published q = w.published q ∧ w'.queue q = w.queue q ∧
      .guard q true ∉ old) :
    Housed past w' hands' := by
  have nodup := (List.nodup_append.1 (exchange.keys.nodup housed.apart)).1
  -- what is held afterwards is what was held before, and `k`
  have held : ∀ {l : Key} {taken taken' : Prop}, (taken ↔ Kept (w.keys hands) l) →
      (taken' ↔ k = l ∨ taken) →
      (taken' ↔ l ∈ keysOf new ∨ (taken ∧ l ∉ keysOf old)) := by
    intro l taken taken' kept now
    rw [now, gained.mem_iff, List.mem_cons]
    constructor
    · rintro (rfl | yes)
      · exact .inl (.inl rfl)
      · by_cases mem : l ∈ keysOf old
        · exact .inl (.inr mem)
        · exact .inr ⟨yes, mem⟩
    · rintro ((rfl | mem) | ⟨yes, -⟩)
      · exact .inl rfl
      · exact .inr (kept.2 (exchange.keys.kept_before (.inl mem)))
      · exact .inr yes
  refine housed.exchange (e := []) exchange ledger (fun h => Nat.le_of_eq (completed h).symm) begun
    count size (by simp) ?_ (fun l mem => ?_) tells fits (fun s mem gone => ?_)
    (fun h => held (housed.latches h) (latches h)) (fun q => held (housed.guards q) (guards q))
    (fun q => .inr (.inr ⟨(published q).1, congrArg List.length (published q).2.1,
      (published q).2.2⟩))
  · rw [gained.nodup_iff, List.nodup_cons]
    exact ⟨fun mem => unkept (exchange.keys.kept_before (.inl mem)), nodup⟩
  · rcases List.mem_cons.1 (gained.mem_iff.1 mem) with rfl | mem
    · exact .inr unkept
    · exact .inl mem
  · exact absurd (gained.mem_iff.2 (List.mem_cons_of_mem _ mem)) gone

/-- Everything stays housed when items are exchanged for others by which one thing less is held. -/
theorem Housed.loses (housed : Housed past w hands)
    (exchange : Exchange (w.items hands) (w'.items hands') p q old new rest) {k : Key}
    (lost : (keysOf old).Perm (k :: keysOf new)) (own : ∀ y ∈ e, k = .task y.serial)
    (ledger : Ledger (e ++ past) w'.units)
    (completed : ∀ h, (w'.units h).completed = (w.units h).completed)
    (begun : w'.begun = w.begun) (count : w'.count = w.count) (size : w'.size = w.size)
    (tells : ∀ x ∈ new, x.Tells (e ++ past)) (fits : ∀ x ∈ new, x.Fits w')
    (story : ∀ s, k = .task s → Lost s (about s (e ++ past)))
    (latches : ∀ h, (w'.units h).locked = true ↔ k ≠ .latch h ∧ (w.units h).locked = true)
    (guards : ∀ q, w'.held q = true ↔ k ≠ .guard q ∧ w.held q = true)
    (published : ∀ q, w'.published q = w.published q ∧ w'.queue q = w.queue q ∧
      .guard q true ∉ old) :
    Housed (e ++ past) w' hands' := by
  have nodup := (List.nodup_append.1 (exchange.keys.nodup housed.apart)).1
  rw [lost.nodup_iff, List.nodup_cons] at nodup
  -- what is held afterwards is what was held before, without `k`
  have held : ∀ {l : Key} {taken taken' : Prop}, (taken ↔ Kept (w.keys hands) l) →
      (taken' ↔ k ≠ l ∧ taken) →
      (taken' ↔ l ∈ keysOf new ∨ (taken ∧ l ∉ keysOf old)) := by
    intro l taken taken' kept now
    rw [now, lost.mem_iff, List.mem_cons, not_or]
    constructor
    · rintro ⟨other, yes⟩
      by_cases mem : l ∈ keysOf new
      · exact .inl mem
      · exact .inr ⟨yes, Ne.symm other, mem⟩
    · rintro (mem | ⟨yes, other, -⟩)
      · refine ⟨fun same => nodup.1 (same ▸ mem), kept.2 (exchange.keys.kept_before (.inl ?_))⟩
        exact lost.mem_iff.2 (List.mem_cons_of_mem _ mem)
      · exact ⟨Ne.symm other, yes⟩
  refine housed.exchange exchange ledger (fun h => Nat.le_of_eq (completed h).symm)
    (Nat.le_of_eq begun.symm) count size (fun y mem => ?_) nodup.2 (fun l mem => ?_) tells fits
    (fun s mem gone => ?_)
    (fun h => held (housed.latches h) (latches h)) (fun q => held (housed.guards q) (guards q))
    (fun q => .inr (.inr ⟨(published q).1, congrArg List.length (published q).2.1,
      (published q).2.2⟩))
  · exact lost.mem_iff.2 (own y mem ▸ List.mem_cons_self)
  · exact .inl (lost.mem_iff.2 (List.mem_cons_of_mem _ mem))
  · exact story s ((List.mem_cons.1 (lost.mem_iff.1 mem)).resolve_right gone).symm

/-- Items in hand are exchanged for others while all else stays where it is. -/
theorem exchange_in_hands {id : WorkerId} {xs ys : List Item} (here : hands id = xs)
    (before : xs = old ++ rest) (after : ys = new ++ rest) (queue : w'.queue = w.queue)
    (kept : w'.kept = w.kept) (waiting : ∀ h, (w'.units h).waiting = (w.units h).waiting) :
    Exchange (w.items hands) (w'.items (update hands id ys)) (.hands id) (.queue 0) old new
      (rest ++ w.items hands (.queue 0)) where
  different := by simp
  others o notp notq := by
    cases o with
    | hands other =>
        exact Function.update_of_ne (fun same : other = id => notp (congrArg Place.hands same)) ..
    | queue q => exact congrArg (List.map _) (congrFun queue q)
    | waiting h v => exact congrArg looseItems (congrFun (waiting h) v)
    | kept => exact congrArg (List.map _) kept
  before := by
    show (hands id ++ _).Perm _
    rw [here, before, List.append_assoc]
  after := by
    show (update hands id ys id ++ (w'.queue 0).map _).Perm _
    rw [Function.update_self, after, queue, List.append_assoc]
    exact .refl _

end AccessOrder.Pool
