/- # The versions of a handle

A handle seen version by version: how many accesses hold a version, and who waits for it.  The
versions in use reach from the completed one up to the `frontier`, the version after the newest.
`View.Sound` is the invariant: the versions in use are those that are held, only they are waited
for, nobody waits for the completed one, and the next access of any kind gets the newest version or
the one after it.

* `Sound.schedule` : a new access holds the newest version or the one after it, and joins none but
  those of its own commutative kind;
* `Sound.register` : who is made to wait waits for a version in use that is not completed;
* `Sound.advance` : releasing the last holder wakes those who wait for the next version, and nobody
  else.
-/
import Mathlib
import AccessOrder.Handle.Basic
namespace AccessOrder.Handle

open Function (update)

variable {τ : Type}

/-- A handle seen version by version. -/
@[ext]
structure View (τ : Type) where
  completed : Version
  /-- The version after the newest. -/
  frontier : Version
  /-- How many accesses hold a version. -/
  holders : Version → Nat
  /-- Who waits for a version. -/
  waiting : Version → List τ
  /-- The version that the next access of each kind gets, unless it has been completed. -/
  required : List Version
  locked : Bool

/-- The slot of a version, if the version is in use. -/
def slotOf (h : Handle τ) (v : Version) : Option (Slot τ) :=
  if v < h.completed then none else h.slots[v - h.completed]?

/-- A handle, version by version. -/
def view (h : Handle τ) : View τ where
  completed := h.completed
  frontier := h.completed + h.slots.length
  holders v := (h.slotOf v).elim 0 Slot.holders
  waiting v := (h.slotOf v).elim [] Slot.listeners
  required := h.nextRequired
  locked := h.locked

namespace View

/-- The invariant of a handle, version by version. -/
structure Sound (w : View τ) : Prop where
  le : w.completed ≤ w.frontier
  held : ∀ v, 0 < w.holders v ↔ w.completed ≤ v ∧ v < w.frontier
  waiting : ∀ v, w.waiting v ≠ [] → w.completed < v ∧ v < w.frontier
  table : ∀ next ∈ w.required, next ≤ w.frontier ∧ w.frontier ≤ next + 1

/-- The next access may get the newest version, rather than the one after it, if it is of a given
kind that commutes, and only then. -/
def Latest (w : View τ) (k : Access.Kind) : Prop :=
  ∀ i next, w.required[i]? = some next →
    (next + 1 = w.frontier ↔ k.index = some i ∧ k.properties.commutative = true)

/-- With another table. -/
def tabled (w : View τ) (required : List Version) : View τ := { w with required := required }

/-- After a new access of a kind has got a version. -/
def scheduled (w : View τ) (k : Access.Kind) (v : Version) : View τ :=
  { w with
    frontier := v + 1
    holders := update w.holders v (w.holders v + 1)
    required := following w.required (k.index.getD 0) k.properties.commutative v }

/-- After someone has been made to wait for a version. -/
def parked (w : View τ) (t : τ) (v : Version) : View τ :=
  { w with waiting := update w.waiting v (w.waiting v ++ [t]) }

/-- Who is woken when a holder of a version is released. -/
def woken (w : View τ) (v : Version) : List τ := if w.holders v = 1 then w.waiting (v + 1) else []

/-- After a holder of the completed version has been released. -/
def released (w : View τ) (v : Version) : View τ :=
  if w.holders v = 1 then
    { w with
      completed := v + 1
      holders := update w.holders v 0
      waiting := update w.waiting (v + 1) [] }
  else { w with holders := update w.holders v (w.holders v - 1) }

/-- A version that an access of a kind may get: it has not been completed, it is the newest or the
one after it, an access that joins the newest is of the same commutative kind as the last, an access
of that kind does join it unless it has been completed, and only accesses of its own kind may join
it in turn. -/
structure Offers (w : View τ) (k : Access.Kind) (v : Version) : Prop where
  reached : w.completed ≤ v
  newest : v = w.frontier ∨ v + 1 = w.frontier
  joins : ∀ last, w.Latest last → v + 1 = w.frontier →
    k.index = last.index ∧ last.properties.commutative = true
  rejoins : ∀ last, w.Latest last → k.index = last.index → last.properties.commutative = true →
    w.completed < w.frontier → v + 1 = w.frontier
  latest : (w.scheduled k v).Latest k

/-- With the lock taken or given back. -/
def latched (w : View τ) (locked : Bool) : View τ := { w with locked := locked }

/-- Nobody waits for the completed version. -/
theorem Sound.calm {w : View τ} (sound : w.Sound) : w.waiting w.completed = [] := by
  by_contra waited
  exact Nat.lt_irrefl _ (sound.waiting _ waited).1

/-- Scheduling keeps a handle sound. -/
theorem Sound.scheduled {w : View τ} (sound : w.Sound) {k : Access.Kind} {v : Version}
    (offered : w.Offers k v) : (w.scheduled k v).Sound where
  le := Nat.le_succ_of_le offered.reached
  held u := by
    show 0 < update w.holders v (w.holders v + 1) u ↔ w.completed ≤ u ∧ u < v + 1
    have reached := offered.reached
    have newest := offered.newest
    rw [Function.update_apply]
    by_cases same : u = v
    · rw [if_pos same]
      lia
    · rw [if_neg same, sound.held]
      lia
  waiting u waited := by
    have range := sound.waiting u waited
    have newest := offered.newest
    show w.completed < u ∧ u < v + 1
    lia
  table next mem := by
    simp only [View.scheduled, following, List.mem_mapIdx] at mem
    obtain ⟨i, _, rfl⟩ := mem
    show _ ≤ v + 1 ∧ v + 1 ≤ _
    split <;> lia

/-- Waiting for a version in use that is not completed keeps a handle sound. -/
theorem Sound.parked {w : View τ} (sound : w.Sound) (t : τ) {v : Version}
    (range : w.completed < v ∧ v < w.frontier) : (w.parked t v).Sound where
  le := sound.le
  held := sound.held
  waiting u waited := by
    simp only [View.parked, Function.update_apply] at waited
    by_cases same : u = v
    · exact same ▸ range
    · rw [if_neg same] at waited
      exact sound.waiting u waited
  table := sound.table

/-- Releasing a holder of the completed version keeps a handle sound. -/
theorem Sound.released {w : View τ} (sound : w.Sound) (holder : 0 < w.holders w.completed) :
    (w.released w.completed).Sound := by
  have used := (sound.held w.completed).1 holder
  unfold View.released
  by_cases last : w.holders w.completed = 1
  · rw [if_pos last]
    refine ⟨used.2, fun u => ?_, fun u waited => ?_, sound.table⟩
    · show 0 < update w.holders w.completed 0 u ↔ w.completed + 1 ≤ u ∧ u < w.frontier
      have held := sound.held u
      rw [Function.update_apply]
      split <;> lia
    · show w.completed + 1 < u ∧ u < w.frontier
      simp only [Function.update_apply] at waited
      split at waited
      · exact absurd rfl waited
      · have range := sound.waiting u waited
        lia
  · rw [if_neg last]
    refine ⟨sound.le, fun u => ?_, sound.waiting, sound.table⟩
    show 0 < update w.holders w.completed (w.holders w.completed - 1) u ↔ _
    rw [Function.update_apply]
    by_cases same : u = w.completed
    · rw [if_pos same, same]
      lia
    · rw [if_neg same, sound.held]

/-- The completed version does not go back. -/
theorem completed_le_released (w : View τ) : w.completed ≤ (w.released w.completed).completed := by
  unfold released
  split
  · exact Nat.le_succ _
  · exact Nat.le_refl _

/-- Only those who wait for the next version are woken. -/
theorem waiting_released_of_ne {w : View τ} {v u : Version} (other : u ≠ v + 1) :
    (w.released v).waiting u = w.waiting u := by
  unfold released
  split
  · exact Function.update_of_ne other ..
  · rfl

/-- Who waits for the next version is woken or goes on waiting. -/
theorem woken_append_waiting (w : View τ) (v : Version) :
    w.woken v ++ (w.released v).waiting (v + 1) = w.waiting (v + 1) := by
  unfold woken released
  split
  · show _ ++ update w.waiting (v + 1) [] (v + 1) = _
    rw [Function.update_self, List.append_nil]
  · rfl

/-- Releasing a version brings no new one into use. -/
theorem frontier_released (w : View τ) (v : Version) : (w.released v).frontier = w.frontier := by
  unfold released
  split <;> rfl

/-- Releasing a version has no bearing on what the next accesses require. -/
theorem required_released (w : View τ) (v : Version) : (w.released v).required = w.required := by
  unfold released
  split <;> rfl

/-- Releasing a version has no bearing on the lock. -/
theorem locked_released (w : View τ) (v : Version) : (w.released v).locked = w.locked := by
  unfold released
  split <;> rfl

/-- The lock has no bearing on the soundness of a handle. -/
theorem Sound.latched {w : View τ} (sound : w.Sound) (locked : Bool) : (w.latched locked).Sound :=
  ⟨sound.le, sound.held, sound.waiting, sound.table⟩

/-- After an access has got its version, only accesses of its kind may join it. -/
theorem latest_scheduled {w : View τ} {k : Access.Kind} {index : Nat} (place : k.index = some index)
    (v : Version) : (w.scheduled k v).Latest k := by
  intro i next cell
  simp only [scheduled, following, place, Option.getD_some, List.getElem?_mapIdx,
    Option.map_eq_some_iff] at cell ⊢
  obtain ⟨_, -, rfl⟩ := cell
  split
  · next join =>
    simp only [Bool.and_eq_true, decide_eq_true_eq] at join
    exact ⟨fun _ => ⟨congrArg some join.1.symm, join.2⟩, fun _ => rfl⟩
  · next apart =>
    simp only [Bool.and_eq_true, decide_eq_true_eq, not_and] at apart
    refine ⟨fun newest => absurd newest (by lia), fun join => ?_⟩
    exact absurd join.2 (apart (Option.some.inj join.1).symm)

end View

/-- The invariant of a handle. -/
structure Sound (h : Handle τ) : Prop where
  published : h.published = h.completed
  versions : h.view.Sound

theorem holders_view (h : Handle τ) (v : Version) :
    h.view.holders v = (h.slotOf v).elim 0 Slot.holders := rfl

theorem waiting_view (h : Handle τ) (v : Version) :
    h.view.waiting v = (h.slotOf v).elim [] Slot.listeners := rfl

/-- A new handle, version by version. -/
theorem view_new (kinds : Nat) :
    (new kinds : Handle τ).view =
      ⟨0, 0, fun _ => 0, fun _ => [], List.replicate kinds 0, false⟩ := by
  ext <;> simp [view, new, slotOf]

/-- A new handle is sound. -/
theorem sound_new (kinds : Nat) : (new kinds : Handle τ).Sound := by
  refine ⟨rfl, ?_⟩
  rw [view_new]
  exact ⟨Nat.le_refl _, by simp, by simp, by simp⟩

/-- A dependency is met once its version is the completed one. -/
theorem Sound.isReady_iff {h : Handle τ} (sound : h.Sound) {v : Version} :
    h.isReady v = true ↔ h.view.completed = v := by
  rw [isReady, sound.published, decide_eq_true_eq]
  rfl

/-! ## Slots -/

/-- A version in use whose slot has been replaced. -/
theorem view_set {h : Handle τ} {v : Version} {slot : Slot τ} (reached : h.completed ≤ v)
    (found : h.slots[v - h.completed]? = some slot) (new : Slot τ) :
    view { h with slots := h.slots.set (v - h.completed) new } =
      { h.view with
        holders := update h.view.holders v new.holders
        waiting := update h.view.waiting v new.listeners } := by
  have inside := (List.getElem?_eq_some_iff.1 found).1
  have slots : ∀ w, slotOf { h with slots := h.slots.set (v - h.completed) new } w =
      if w = v then some new else h.slotOf w := by
    intro w
    unfold slotOf
    show (if w < h.completed then none else (h.slots.set _ _)[w - h.completed]?) = _
    by_cases same : w = v
    · rw [if_pos same, same, if_neg (by lia), List.getElem?_set_self inside]
    · rw [if_neg same]
      split
      · rfl
      · rw [List.getElem?_set_ne (by lia)]
  ext1
  · rfl
  · show h.completed + (h.slots.set _ _).length = _
    rw [List.length_set]
    rfl
  · funext w
    show _ = update h.view.holders v new.holders w
    rw [holders_view, slots, Function.update_apply]
    split <;> rfl
  · funext w
    show _ = update h.view.waiting v new.listeners w
    rw [waiting_view, slots, Function.update_apply]
    split <;> rfl
  · rfl
  · rfl

/-- A version that comes into use. -/
theorem view_push (h : Handle τ) :
    view { h with slots := h.slots ++ [⟨1, []⟩] } =
      { h.view with
        frontier := h.view.frontier + 1
        holders := update h.view.holders h.view.frontier 1 } := by
  have frontier : h.view.frontier = h.completed + h.slots.length := rfl
  have slots : ∀ w, slotOf { h with slots := h.slots ++ [⟨1, []⟩] } w =
      if w = h.view.frontier then some ⟨1, []⟩ else h.slotOf w := by
    intro w
    unfold slotOf
    show (if w < h.completed then none else (h.slots ++ [⟨1, []⟩])[w - h.completed]?) = _
    rw [List.getElem?_append]
    by_cases same : w = h.view.frontier
    · rw [if_pos same, same, frontier, if_neg (by lia), if_neg (by lia),
        show h.completed + h.slots.length - h.completed - h.slots.length = 0 by lia]
      rfl
    · rw [if_neg same]
      split
      · rfl
      · split
        · rfl
        · rw [List.getElem?_eq_none (by simp; lia), List.getElem?_eq_none (by lia)]
  ext1
  · rfl
  · show h.completed + (h.slots ++ [_]).length = h.view.frontier + 1
    rw [List.length_append, List.length_singleton, frontier]
    lia
  · funext w
    show _ = update h.view.holders h.view.frontier 1 w
    rw [holders_view, slots, Function.update_apply]
    split <;> rfl
  · funext w
    show _ = h.view.waiting w
    rw [waiting_view, slots, waiting_view]
    by_cases same : w = h.view.frontier
    · have none : h.slotOf w = none := by
        rw [slotOf, if_neg (by lia), List.getElem?_eq_none (by lia)]
      rw [if_pos same, none]
      rfl
    · rw [if_neg same]
  · rfl
  · rfl

/-! ## Scheduling -/

/-- Holding the newest version or the one after it counts one more holder there. -/
theorem view_hold {h : Handle τ} {v : Version} {slots : List (Slot τ)} (reached : h.completed ≤ v)
    (newest : h.view.frontier ≤ v + 1) (held : h.hold (v - h.completed) = .ok slots) :
    view { h with slots := slots } =
      { h.view with
        frontier := v + 1
        holders := update h.view.holders v (h.view.holders v + 1) } := by
  have frontier : h.view.frontier = h.completed + h.slots.length := rfl
  unfold hold at held
  split at held
  · next slot found =>
    split at held
    · cases held
      have inside := (List.getElem?_eq_some_iff.1 found).1
      have present : h.slotOf v = some slot := by
        rw [slotOf, if_neg (by lia), found]
      have last : h.view.frontier = v + 1 := by lia
      have listeners : slot.listeners = h.view.waiting v := by
        rw [waiting_view, present, Option.elim_some]
      rw [view_set reached found, ← last, holders_view, present, Option.elim_some, listeners,
        Function.update_eq_self]
    · cases held
  · split at held
    · next last =>
      cases held
      have new : h.view.frontier = v := by lia
      have unheld : h.view.holders v = 0 := by
        rw [holders_view, slotOf, if_neg (by lia), List.getElem?_eq_none (by lia), Option.elim_none]
      rw [view_push, new, unheld]
    · cases held

/-- What it takes for an access to get a version, and what it leaves. -/
theorem schedule_eq_ok {h : Handle τ} {k : Access.Kind} {v : Version}
    (scheduled : (h.schedule k).1 = .ok v) :
    ∃ index required, k.index = some index ∧ h.nextRequired[index]? = some required ∧
      v = max required h.completed ∧ (v - h.completed ≤ h.slots.length) ∧
      (h.schedule k).2.published = h.published ∧
      (h.view.frontier ≤ v + 1 → (h.schedule k).2.view = h.view.scheduled k v) := by
  revert scheduled
  unfold schedule
  split
  · simp
  · next index place =>
    split
    · simp
    · next required found =>
      split
      · simp
      · simp only
        split
        · simp
        · next slots held =>
          intro same
          simp only [Except.ok.injEq] at same
          have reached : h.completed ≤ v := same ▸ Nat.le_max_right _ _
          rw [same] at held ⊢
          have inside : v - h.completed ≤ h.slots.length := by
            unfold hold at held
            split at held
            · next slot found => exact Nat.le_of_lt (List.getElem?_eq_some_iff.1 found).1
            · split at held
              · next last => exact Nat.le_of_eq last
              · cases held
          refine ⟨index, required, place, found, same.symm, inside, rfl, fun newest => ?_⟩
          have after := view_hold reached newest held
          have table : following h.nextRequired index k.properties.commutative v =
              following h.view.required (k.index.getD 0) k.properties.commutative v := by
            rw [place]
            rfl
          show (view { h with slots := slots }).tabled _ = _
          rw [after, View.scheduled, ← table]
          rfl

/-- The version that the table has for a kind, or else the completed one, may be given to an access
of that kind. -/
theorem Sound.offers {h : Handle τ} (sound : h.Sound) {k : Access.Kind} {index : Nat}
    {required : Version} (place : k.index = some index)
    (found : h.nextRequired[index]? = some required) :
    h.view.Offers k (max required h.completed) := by
  have bounds := sound.versions.table required (List.mem_of_getElem? found)
  have le : h.completed ≤ h.view.frontier := sound.versions.le
  refine ⟨Nat.le_max_right _ _, by lia, ?_, ?_, View.latest_scheduled place _⟩
  · intro last latest join
    obtain ⟨same, commutative⟩ := (latest index required found).1 (by lia)
    exact ⟨place.trans same.symm, commutative⟩
  · intro last latest same commutative left
    have newest := (latest index required found).2 ⟨same.symm.trans place, commutative⟩
    have left : h.completed < h.view.frontier := left
    lia

/-- A new access holds the newest version or the one after it, and joins none but those of its own
commutative kind. -/
theorem Sound.schedule {h : Handle τ} (sound : h.Sound) {k : Access.Kind} {v : Version}
    (scheduled : (h.schedule k).1 = .ok v) :
    (h.schedule k).2.Sound ∧ (h.schedule k).2.view = h.view.scheduled k v ∧ h.view.Offers k v := by
  obtain ⟨index, required, place, found, version, inside, published, after⟩ :=
    schedule_eq_ok scheduled
  have offered : h.view.Offers k v := version ▸ sound.offers place found
  have after := after (by have := offered.newest; lia)
  have same : (h.schedule k).2.completed = h.completed := congrArg View.completed after
  refine ⟨⟨?_, ?_⟩, after, offered⟩
  · rw [published, sound.published, same]
  · rw [after]
    exact sound.versions.scheduled offered

/-- An access of a kind that has a place in the table gets the version that it may be given, if not
too many hold that one, unless it comes too late to join those that have been completed. -/
theorem Sound.schedule_cases {h : Handle τ} (sound : h.Sound) {k : Access.Kind} {index : Nat}
    {required : Version} (place : k.index = some index)
    (found : h.nextRequired[index]? = some required)
    (joins : required < h.completed → k.properties.commutative = true) :
    (h.schedule k).1 = .ok (max required h.completed) ∨
      (h.schedule k).1 = .error .scheduleCrowded ∧
        maxHolders ≤ h.view.holders (max required h.completed) := by
  have bounds := sound.versions.table required (List.mem_of_getElem? found)
  have frontier : h.view.frontier = h.completed + h.slots.length := rfl
  have fresh : ¬((decide (required < h.completed) && !k.properties.commutative) = true) := by
    simpa using joins
  unfold Handle.schedule
  simp only [place, found]
  rw [if_neg fresh]
  cases held : h.hold (max required h.completed - h.completed) with
  | ok slots => exact .inl rfl
  | error e =>
      right
      unfold hold at held
      split at held
      · next slot present =>
        split at held
        · cases held
        · next crowded =>
          cases held
          refine ⟨rfl, ?_⟩
          rw [holders_view, slotOf, if_neg (Nat.not_lt.2 (Nat.le_max_right _ _)), present]
          exact Nat.le_of_not_lt crowded
      · next none =>
        -- a version that is not in use is the one after the newest
        have outside := List.getElem?_eq_none_iff.1 none
        rw [if_pos (by lia)] at held
        cases held

/-- An access of a kind that has a place in the table gets no version only if too many hold the
version that it would get, unless it comes too late to join those that have been completed. -/
theorem Sound.crowded_of_error {h : Handle τ} (sound : h.Sound) {k : Access.Kind} {f : Fault}
    {index : Nat} {required : Version} (place : k.index = some index)
    (found : h.nextRequired[index]? = some required)
    (joins : required < h.completed → k.properties.commutative = true)
    (failed : (h.schedule k).1 = .error f) : f = .scheduleCrowded := by
  rcases sound.schedule_cases place found joins with scheduled | ⟨crowded, -⟩
  · rw [scheduled] at failed
    cases failed
  · exact (Except.error.inj (crowded.symm.trans failed)).symm

/-! ## Waiting -/

/-- A task that is handed back has met the completed version, and the handle is as it was. -/
theorem register_eq_handedBack {h : Handle τ} {task back : τ} {v : Version}
    (registered : (h.register task v).1 = .ok (.handedBack back)) :
    back = task ∧ h.view.completed = v ∧ (h.register task v).2 = h := by
  revert registered
  unfold register
  split
  · next reached =>
    intro same
    cases same
    exact ⟨rfl, reached, rfl⟩
  · split
    · simp
    · simp only
      split <;> simp

/-- A task that is made to wait waits for a version in use that is not completed. -/
theorem Sound.register {h : Handle τ} (sound : h.Sound) {task : τ} {v : Version}
    (registered : (h.register task v).1 = .ok .parked) :
    (h.register task v).2.Sound ∧ (h.register task v).2.view = h.view.parked task v ∧
      h.view.completed < v ∧ v < h.view.frontier := by
  revert registered
  unfold Handle.register
  split
  · simp
  · next other =>
    split
    · simp
    · next current =>
      simp only
      split
      · simp
      · next slot found =>
        intro
        have inside := (List.getElem?_eq_some_iff.1 found).1
        have range : h.view.completed < v ∧ v < h.view.frontier := by
          show h.completed < v ∧ v < h.completed + h.slots.length
          lia
        have present : h.slotOf v = some slot := by
          rw [slotOf, if_neg current, found]
        have holders : slot.holders = h.view.holders v := by
          rw [holders_view, present, Option.elim_some]
        have listeners : slot.listeners = h.view.waiting v := by
          rw [waiting_view, present, Option.elim_some]
        have after := view_set (by lia) found ⟨slot.holders, slot.listeners ++ [task]⟩
        rw [holders, Function.update_eq_self, listeners] at after
        rw [holders, listeners]
        exact ⟨⟨sound.published, after ▸ sound.versions.parked task range⟩, after, range⟩

/-- Waiting is refused only for a version that is not in use. -/
theorem register_ne_error {h : Handle τ} {task : τ} {v : Version} (reached : h.view.completed ≤ v)
    (used : v < h.view.frontier) (f : Fault) : (h.register task v).1 ≠ .error f := by
  have reached : h.completed ≤ v := reached
  have used : v < h.completed + h.slots.length := used
  unfold Handle.register
  split
  · simp
  · rw [if_neg (by lia)]
    have inside : v - h.completed < h.slots.length := by lia
    simp [List.getElem?_eq_getElem inside]

/-! ## Releasing -/

/-- The slots of a handle whose completed version is in use. -/
theorem slotOf_cons {h : Handle τ} {slot : Slot τ} {rest : List (Slot τ)}
    (slots : h.slots = slot :: rest) (v : Version) :
    h.slotOf v =
      if v < h.completed then none
      else if v = h.completed then some slot else rest[v - (h.completed + 1)]? := by
  unfold slotOf
  split
  · rfl
  · split
    · next here => rw [slots, here, Nat.sub_self, List.getElem?_cons_zero]
    · next other =>
      rw [slots, show v - h.completed = (v - (h.completed + 1)) + 1 by lia,
        List.getElem?_cons_succ]

/-- The slots of a handle that has reached the next version: whatever comes after the slot that is
left, the versions after it keep their slots. -/
theorem slotOf_enter {h : Handle τ} {slot : Slot τ} {rest : List (Slot τ)}
    (slots : h.slots = slot :: rest) (w : Version) :
    (h.enter rest).2.slotOf w =
      if w < h.completed + 1 then none
      else if w = h.completed + 1 then rest[0]?.map fun s => ⟨s.holders, []⟩ else h.slotOf w := by
  unfold slotOf
  cases rest with
  | nil =>
      show (if w < h.completed + 1 then none else [][w - (h.completed + 1)]?) = _
      split
      · rfl
      · split
        · rfl
        · rw [slots, if_neg (by lia), List.getElem?_nil, List.getElem?_eq_none]
          rw [List.length_singleton]
          lia
  | cons next later =>
      show (if w < h.completed + 1 then none
        else ((⟨next.holders, []⟩ : Slot τ) :: later)[w - (h.completed + 1)]?) = _
      split
      · rfl
      · split
        · next here => rw [here, Nat.sub_self]; rfl
        · rw [slots, if_neg (by lia),
            show w - (h.completed + 1) = (w - (h.completed + 2)) + 1 by lia,
            show w - h.completed = (w - (h.completed + 2)) + 1 + 1 by lia]
          rfl

/-- Reaching the next version wakes those who wait for it. -/
theorem view_enter {h : Handle τ} {slot : Slot τ} {rest : List (Slot τ)}
    (slots : h.slots = slot :: rest) (calm : slot.listeners = []) :
    (h.enter rest).1 = h.view.waiting (h.completed + 1) ∧
      (h.enter rest).2.view =
        { h.view with
          completed := h.completed + 1
          holders := update h.view.holders h.completed 0
          waiting := update h.view.waiting (h.completed + 1) [] } := by
  have before := slotOf_cons slots
  have after := slotOf_enter slots
  have woken : h.view.waiting (h.completed + 1) = rest[0]?.elim [] Slot.listeners := by
    rw [waiting_view, before, if_neg (by lia), if_neg (by lia), Nat.sub_self]
  constructor
  · rw [woken]
    cases rest <;> rfl
  · ext1
    · cases rest <;> rfl
    · have length : h.view.frontier = h.completed + (rest.length + 1) := by
        rw [← List.length_cons, ← slots]
        rfl
      cases rest with
      | nil => exact length.symm
      | cons next later =>
          show h.completed + 1 + (later.length + 1) = h.view.frontier
          rw [length, List.length_cons]
          lia
    · funext w
      show _ = update h.view.holders h.completed 0 w
      rw [holders_view, after, Function.update_apply, holders_view, before]
      -- the version that is left, the one that is reached, and all others
      by_cases passed : w < h.completed
      · rw [if_pos (by lia), if_pos passed, if_neg (by lia)]
      · by_cases here : w = h.completed
        · rw [if_pos (by lia), if_pos here, Option.elim_none]
        · rw [if_neg (by lia), if_neg here, if_neg passed, if_neg here]
          by_cases next : w = h.completed + 1
          · rw [if_pos next, next, Nat.sub_self]
            cases rest <;> rfl
          · rw [if_neg next]
    · funext w
      show _ = update h.view.waiting (h.completed + 1) [] w
      rw [waiting_view, after, Function.update_apply, waiting_view, before]
      by_cases passed : w < h.completed
      · rw [if_pos (by lia), if_neg (by lia), if_pos passed]
      · by_cases here : w = h.completed
        · rw [if_pos (by lia), if_neg (by lia), if_neg passed, if_pos here, Option.elim_some, calm,
            Option.elim_none]
        · rw [if_neg (by lia), if_neg here, if_neg passed]
          by_cases next : w = h.completed + 1
          · rw [if_pos next, if_pos next]
            cases rest <;> rfl
          · rw [if_neg next, if_neg next]
    · cases rest <;> rfl
    · cases rest <;> rfl

/-- Releasing a holder of the completed version wakes those who wait for the next one if it was
the last, and nobody else. -/
theorem Sound.advance {h : Handle τ} (sound : h.Sound) (holder : 0 < h.view.holders h.completed) :
    (h.advance h.completed).1 = .ok (h.view.woken h.completed) ∧
      (h.advance h.completed).2.Sound ∧
      (h.advance h.completed).2.view = h.view.released h.completed := by
  have used := ((sound.versions.held h.completed).1 holder).2
  cases slots : h.slots with
  | nil =>
      have frontier : h.view.frontier = h.completed + h.slots.length := rfl
      rw [slots] at frontier
      exact absurd used (by rw [frontier]; exact Nat.lt_irrefl _)
  | cons slot rest =>
      have present : h.slotOf h.completed = some slot := by
        rw [slotOf_cons slots, if_neg (Nat.lt_irrefl _), if_pos rfl]
      have holders : h.view.holders h.completed = slot.holders := by
        rw [holders_view, present, Option.elim_some]
      have calm : slot.listeners = [] := by
        have := sound.versions.calm
        rwa [waiting_view, show h.view.completed = h.completed from rfl, present] at this
      have keep := sound.versions.released holder
      rw [holders] at holder
      unfold Handle.advance
      rw [if_pos rfl, slots]
      match count : slot.holders with
      | 0 => exact absurd holder (by rw [count]; exact Nat.lt_irrefl _)
      | 1 =>
          -- the last holder goes
          obtain ⟨woken, after⟩ := view_enter slots calm
          have released : (h.enter rest).2.view = h.view.released h.completed := by
            rw [after, View.released, if_pos (holders.trans count)]
          simp only [count, calm, List.isEmpty_nil, if_true]
          refine ⟨?_, ⟨?_, released ▸ keep⟩, released⟩
          · rw [woken, View.woken, if_pos (holders.trans count)]
          · cases rest <;> rfl
      | left + 2 =>
          -- somebody else still holds the version
          have released :
              view { h with slots := { slot with holders := left + 1 } :: rest } =
                h.view.released h.completed := by
            have found : h.slots[h.completed - h.completed]? = some slot := by
              rw [Nat.sub_self, slots, List.getElem?_cons_zero]
            have listeners : slot.listeners = h.view.waiting h.completed := by
              rw [waiting_view, present, Option.elim_some]
            have after := view_set (Nat.le_refl _) found ⟨left + 1, slot.listeners⟩
            rw [Nat.sub_self, slots, List.set_cons_zero, listeners,
              Function.update_eq_self] at after
            rw [listeners, after, View.released, if_neg (by lia), holders, count]
            rfl
          simp only [count]
          refine ⟨?_, ⟨sound.published, released ▸ keep⟩, released⟩
          rw [View.woken, holders, count, if_neg (by lia)]

/-- Releasing a version that is not the completed one or has no holder fails, and leaves the handle
as it was. -/
theorem advance_eq_error {h : Handle τ} {v : Version}
    (unheld : ¬(h.view.completed = v ∧ 0 < h.view.holders v)) :
    ∃ f, h.advance v = (.error f, h) := by
  unfold Handle.advance
  by_cases here : h.completed = v
  · rw [if_pos here]
    cases slots : h.slots with
    | nil => exact ⟨_, rfl⟩
    | cons slot rest =>
        have holders : h.view.holders v = slot.holders := by
          rw [holders_view, slotOf_cons slots, ← here, if_neg (Nat.lt_irrefl _), if_pos rfl,
            Option.elim_some]
        have none : slot.holders = 0 := by
          rw [← holders]
          exact Nat.eq_zero_of_not_pos fun holder => unheld ⟨here, holder⟩
        simp only [none]
        exact ⟨_, rfl⟩
  · rw [if_neg here]
    exact ⟨_, rfl⟩

end AccessOrder.Handle
