/- # What lasts

A demand on the items of a pool that is met by whatever an item turns into lasts: if every item
meets it wherever it is, no deed changes that, as long as what is begun meets it.

* `Deed.everywhere` : a lasting demand that is met everywhere is met everywhere after a deed;
* `Sound.everywhere` : the same of a move of a pool.
-/
import AccessOrder.Proofs.Pool.Readiness
namespace AccessOrder.Pool

open Function (update)

/-- A demand on items that is met by whatever becomes of an item that meets it. -/
structure Lasting (good : Item → Prop) : Prop where
  guard : ∀ q changed, good (.guard q changed)
  resolve : ∀ {d : Draft} {a : Access.Located} {pending : List Access.Located} (v : Version),
    d.pending = a :: pending → good (.draft d) → good (.draft (d.resolve a pending v))
  built : ∀ {d : Draft}, good (.draft d) → good (.arriving d.task)
  accept : ∀ {t : Task}, good (.arriving t) → good (.loose t)
  mark : ∀ {t : Task}, good (.loose t) → good (.loose t.mark)
  bound : ∀ {t : Task} (q : WorkerId), good (.bound t q) ↔ good (.loose t)
  take : ∀ {t : Task} {work : Work}, t.work = some work → good (.loose t) →
    good (.running ⟨{ t with work := none }, work.name, []⟩ (.locking t.lockHandles))
  run : ∀ {t : Task} {name name' : String} {held : List HandleId} {stage : Stage}
    (held' : List HandleId) (stage' : Stage), good (.running ⟨t, name, held⟩ stage) →
    good (.running ⟨t, name', held'⟩ stage')

/-- Whether all items meet a demand, wherever they are. -/
def Everywhere (good : Item → Prop) (w : World) (hands : WorkerId → List Item) : Prop :=
  ∀ p, ∀ x ∈ w.items hands p, good x

variable {good : Item → Prop} {past later : List Moment} {w w' : World}
  {hands : WorkerId → List Item} {xs ys : List Item} {ms : List Moment} {id : WorkerId}

/-- No number of a task is used again. -/
theorem Deed.begun_le (deed : Deed w xs ms w' ys) (unbroken : ¬Broken w xs) :
    w.begun ≤ w'.begun := by
  cases deed with
  | begin d _ _ _ => exact Nat.le_succ _
  | strands stray => exact absurd (.stray stray) unbroken
  | broken fault => exact absurd (.fault fault) unbroken
  | _ => exact Nat.le_refl _

/-- Tasks that are woken by a deed have been waiting. -/
theorem Handle.View.waiting_of_woken {u : Handle.View Task} {v : Version} {t : Task}
    (woken : t ∈ u.woken v) : t ∈ u.waiting (v + 1) := by
  rw [← Handle.View.woken_append_waiting]
  exact List.mem_append_left _ woken

/-- Whatever is kept after a deed was so before it, or in hand. -/
theorem Deed.kept_cases (deed : Deed w xs ms w' ys) (unbroken : ¬Broken w xs) {t : Task}
    (kept : t ∈ w'.kept) : t ∈ w.kept ∨ .arriving t ∈ xs := by
  cases deed with
  | keep =>
      rcases List.mem_cons.1 kept with rfl | kept
      · exact .inr List.mem_cons_self
      · exact .inl kept
  | pick same => exact .inl (same.mem_iff.2 (List.mem_cons_of_mem _ kept))
  | strands stray => exact absurd (.stray stray) unbroken
  | broken fault => exact absurd (.fault fault) unbroken
  | _ => exact .inl kept

/-- What is in hand after a deed meets a demand that was met everywhere before. -/
theorem Lasting.in_hand (lasting : Lasting good) (deed : Deed w xs ms w' ys)
    (unbroken : ¬Broken w xs) (hand : ∀ x ∈ xs, good x)
    (queued : ∀ q, ∀ t ∈ w.queue q, good (.loose t))
    (waiting : ∀ h v, ∀ t ∈ (w.units h).waiting v, good (.loose t))
    (kept : ∀ t ∈ w.kept, good (.arriving t))
    (begun : ∀ d : Draft, .draft d ∈ ys → d.serial = w.begun → good (.draft d)) :
    ∀ x ∈ ys, good x := by
  -- the first item in hand is replaced by another one
  have next : ∀ {x y : Item} {zs : List Item}, (∀ z ∈ x :: zs, good z) → (good x → good y) →
      ∀ z ∈ y :: zs, good z := by
    intro x y zs all turns z mem
    rcases List.mem_cons.1 mem with rfl | mem
    · exact turns (all x List.mem_cons_self)
    · exact all z (List.mem_cons_of_mem _ mem)
  have rest : ∀ {x : Item} {zs : List Item}, (∀ z ∈ x :: zs, good z) → ∀ z ∈ zs, good z :=
    fun all z mem => all z (List.mem_cons_of_mem _ mem)
  -- tasks are taken from elsewhere
  have more : ∀ {ts : List Task} {zs : List Item}, (∀ t ∈ ts, good (.loose t)) →
      (∀ z ∈ zs, good z) → ∀ z ∈ looseItems ts ++ zs, good z := by
    intro ts zs found all z mem
    rcases List.mem_append.1 mem with mem | mem
    · obtain ⟨t, here, rfl⟩ := List.mem_map.1 mem
      exact found t here
    · exact all z mem
  cases deed with
  | still => exact hand
  | park _ _ _ | unbuilt | keep | refused | unguard | dispose => exact rest hand
  | pick same =>
      intro x mem
      rcases List.mem_cons.1 mem with rfl | mem
      · exact kept _ (same.mem_iff.2 List.mem_cons_self)
      · exact hand x mem
  | begin d serial _ _ =>
      intro x mem
      rcases List.mem_cons.1 mem with rfl | mem
      · exact begun d List.mem_cons_self serial
      · exact hand x mem
  | schedule pending _ _ => exact next hand (lasting.resolve _ pending)
  | built _ => exact next hand lasting.built
  | accept _ => exact next hand lasting.accept
  | acceptLazily _ _ _ =>
    exact next hand fun arriving => (lasting.bound _).2 (lasting.accept arriving)
  | mark _ _ => exact next hand lasting.mark
  | route _ _ => exact next hand (lasting.bound _).2
  | acquire _ _ =>
      intro x mem
      rcases List.mem_cons.1 mem with rfl | mem
      · exact lasting.guard _ _
      · exact hand x mem
  | store _ => exact next (rest hand) fun _ => lasting.guard _ _
  | @fetch xs x q ts same =>
      intro y mem
      rcases List.mem_cons.1 mem with rfl | mem
      · exact lasting.guard _ _
      · refine more (fun t found => queued q t (same.mem_iff.2 ?_)) (rest hand) y mem
        exact List.mem_append_left _ found
  | publish => exact next hand fun _ => lasting.guard _ _
  | take _ work => exact next hand (lasting.take work)
  | lock _ _ | start | finish | unlock _ _ | unlocked _ => exact next hand (lasting.run _ _)
  | release _ _ =>
      refine more (fun t woken => ?_) (next hand (lasting.run _ _))
      exact waiting _ _ t (Handle.View.waiting_of_woken woken)
  | strands stray => exact absurd (.stray stray) unbroken
  | broken fault => exact absurd (.fault fault) unbroken

/-- A lasting demand that is met everywhere is met everywhere after a deed. -/
theorem Deed.everywhere (deed : Deed w (hands id) ms w' ys) (unbroken : ¬Broken w (hands id))
    (lasting : Lasting good) (all : Everywhere good w hands)
    (begun : ∀ d : Draft, .draft d ∈ ys → d.serial = w.begun → good (.draft d)) :
    Everywhere good w' (update hands id ys) := by
  have hand : ∀ x ∈ hands id, good x := all (.hands id)
  have queued : ∀ q, ∀ t ∈ w.queue q, good (.loose t) := fun q t mem =>
    (lasting.bound q).1 (all (.queue q) _ (List.mem_map_of_mem mem))
  have waiting : ∀ h v, ∀ t ∈ (w.units h).waiting v, good (.loose t) := fun h v t mem =>
    all (.waiting h v) _ (List.mem_map_of_mem mem)
  have kept : ∀ t ∈ w.kept, good (.arriving t) := fun t mem =>
    all .kept _ (List.mem_map_of_mem mem)
  intro p x mem
  cases p with
  | hands other =>
      replace mem : x ∈ update hands id ys other := mem
      rw [Function.update_apply] at mem
      split at mem
      · exact lasting.in_hand deed unbroken hand queued waiting kept begun x mem
      · exact all (.hands other) x mem
  | queue q =>
      obtain ⟨t, found, rfl⟩ := List.mem_map.1 mem
      refine (lasting.bound q).2 ?_
      rcases deed.queued_cases (not_fault_of_unbroken unbroken) found with before | mine
      · exact queued q t before
      · exact (lasting.bound q).1 (hand _ mine)
  | waiting h v =>
      obtain ⟨t, found, rfl⟩ := List.mem_map.1 mem
      rcases deed.waiting_cases unbroken found with before | ⟨mine, -⟩
      · exact waiting h v t before
      · exact hand _ mine
  | kept =>
      obtain ⟨t, found, rfl⟩ := List.mem_map.1 mem
      rcases deed.kept_cases unbroken found with before | mine
      · exact kept t before
      · exact hand _ mine

/-- A demand that is met by an item of a task, and by whatever is not of this task, is met
everywhere. -/
theorem Orderly.everywhere (orderly : Orderly past w hands) {p : Place} {x : Item}
    (mine : x ∈ w.items hands p) {s : Nat} (own : .task s ∈ x.keys) (here : good x)
    (others : ∀ y : Item, .task s ∉ y.keys → good y) : Everywhere good w hands := by
  intro q y mem
  by_cases shared : .task s ∈ y.keys
  · exact orderly.eq_of_keys mem mine shared own ▸ here
  · exact others y shared

/-- A lasting demand that is met everywhere in a pool is met everywhere after a turn. -/
theorem Machine.Sound.everywhere {m after : Machine} (sound : m.Sound)
    (orderly : Orderly past m.world m.hands) {mv : Move} (moved : m.move mv = some after)
    (lasting : Lasting good) (all : Everywhere good m.world m.hands)
    (begun : ∀ d : Draft, .draft d ∈ after.hands mv.actor → d.serial = m.begun →
      good (.draft d)) :
    Everywhere good after.world after.hands := by
  have turned := sound.move moved
  rw [turned.hands_eq]
  exact turned.deed.everywhere orderly.sound lasting all begun

end AccessOrder.Pool
