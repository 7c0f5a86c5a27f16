/- # Handles, version by version

What the operations on all handles do to the one that they are about, seen version by version; the
others stay as they are.

* `Sound.schedule`, `Sound.register`, `Sound.advance` : reserving a version, waiting for one and
  releasing one;
* `Sound.tryLock`, `Sound.unlock` : the lock of a handle.
-/
import AccessOrder.Proofs.Handle.Versions
import AccessOrder.Task.Handles
namespace AccessOrder.Handles

open Function (update)

variable {α : Type} {hs after : Handles} {id : HandleId}

/-- A handle, version by version. -/
def view (hs : Handles) (id : HandleId) : Handle.View Task := (hs.get id).view

/-- All handles are sound. -/
def Sound (hs : Handles) : Prop := ∀ id, (hs.get id).Sound

/-- A handle that there is not is like one without a table. -/
theorem get_of_le (outside : hs.units.size ≤ id) : hs.get id = .new 0 := by
  rw [get, Array.getD_eq_getD_getElem?, Array.getElem?_eq_none outside, Option.getD_none]

/-- Only a handle that there is has versions in use. -/
theorem lt_of_frontier_pos (used : 0 < (hs.view id).frontier) : id < hs.units.size := by
  by_contra outside
  rw [view, get_of_le (Nat.le_of_not_lt outside), Handle.view_new] at used
  exact Nat.lt_irrefl 0 used

/-- Only a handle that there is has its lock held. -/
theorem lt_of_locked (locked : (hs.view id).locked = true) : id < hs.units.size := by
  by_contra outside
  rw [view, get_of_le (Nat.le_of_not_lt outside), Handle.view_new] at locked
  cases locked

/-- New handles are sound. -/
theorem sound_fresh (count kinds : Nat) : (fresh count kinds).Sound := by
  intro id
  unfold get fresh
  rw [Array.getD_eq_getD_getElem?, Array.getElem?_replicate]
  split
  · exact Handle.sound_new _
  · exact Handle.sound_new _

/-- New handles, version by version. -/
theorem view_fresh (count kinds : Nat) (id : HandleId) :
    ∃ entries, (fresh count kinds).view id = (Handle.new entries).view := by
  unfold view get fresh
  rw [Array.getD_eq_getD_getElem?, Array.getElem?_replicate]
  split
  · exact ⟨kinds, rfl⟩
  · exact ⟨0, rfl⟩

/-- New handles have a table with a place for every kind. -/
theorem required_fresh {count kinds : Nat} (inside : id < count) :
    ((fresh count kinds).view id).required.length = kinds := by
  unfold view get fresh
  rw [Array.getD_eq_getD_getElem?, Array.getElem?_replicate, if_pos inside, Option.getD_some,
    Handle.view_new]
  exact List.length_replicate

/-! ## Looking up -/

/-- Accesses are located where their numbers refer to. -/
theorem handle_of_locateFrom {seen : List HandleId} {accesses : List Access}
    {located : List Access.Located} (found : hs.locateFrom seen accesses = .ok located) :
    ∀ a ∈ located, hs.references[a.number]? = some a.handle := by
  induction accesses generalizing seen located with
  | nil =>
      cases found
      simp
  | cons b accesses ih =>
      unfold locateFrom at found
      cases looked : hs.lookUp b.number with
      | error f =>
          rw [looked] at found
          cases found
      | ok h =>
          rw [looked] at found
          simp only at found
          split at found
          · cases found
          · split at found <;> cases found
            next rest =>
            intro a mem
            rcases List.mem_cons.1 mem with rfl | mem
            · unfold lookUp at looked
              split at looked <;> cases looked
              assumption
            · exact ih rest a mem

/-! ## An operation on one handle -/

/-- What is found in place of one handle after it has been replaced. -/
theorem get_set (hs : Handles) (id : HandleId) (h : Handle Task) (other : HandleId) :
    get { hs with units := hs.units.setIfInBounds id h } other =
      if id = other ∧ id < hs.units.size then h else hs.get other := by
  unfold get
  rw [Array.getD_eq_getD_getElem?, Array.getElem?_setIfInBounds, Array.getD_eq_getD_getElem?]
  by_cases same : id = other
  · subst same
    by_cases inside : id < hs.units.size
    · simp [inside]
    · simp [inside]
  · simp [same]

/-- Replacing one handle by a sound one keeps all of them sound. -/
theorem Sound.set (sound : hs.Sound) {h : Handle Task} (new : h.Sound) :
    Sound { hs with units := hs.units.setIfInBounds id h } := by
  intro other
  unfold get
  rw [Array.getD_eq_getD_getElem?, Array.getElem?_setIfInBounds]
  split
  · split
    · exact new
    · exact Handle.sound_new _
  · rw [← Array.getD_eq_getD_getElem?]
    exact sound other

/-- Replacing one handle changes what is seen of it, and nothing else. -/
theorem view_set (inside : id < hs.units.size) (h : Handle Task) :
    view { hs with units := hs.units.setIfInBounds id h } = update hs.view id h.view := by
  funext other
  unfold view get
  rw [Array.getD_eq_getD_getElem?, Array.getElem?_setIfInBounds, Function.update_apply]
  by_cases same : id = other
  · rw [if_pos same, if_pos same.symm, if_pos inside, Option.getD_some]
  · rw [if_neg same, if_neg (Ne.symm same), Array.getD_eq_getD_getElem?]

/-- Replacing a handle by itself changes nothing that is seen. -/
theorem view_set_self (hs : Handles) (id : HandleId) :
    view { hs with units := hs.units.setIfInBounds id (hs.get id) } = hs.view := by
  by_cases inside : id < hs.units.size
  · rw [view_set inside]
    exact Function.update_eq_self id hs.view
  · rw [Array.setIfInBounds_eq_of_size_le (Nat.le_of_not_lt inside)]

/-- What an operation on a handle results in and leaves. -/
theorem run_eq {operation : Handle Task → Except Handle.Fault α × Handle Task}
    {result : Except Failure α} (ran : hs.run id operation = (result, after)) :
    (operation (hs.get id)).1.mapError .handle = result ∧
      { hs with units := hs.units.setIfInBounds id (operation (hs.get id)).2 } = after :=
  Prod.mk.inj ran

/-- An operation whose error is turned into a failure succeeds if the operation does. -/
theorem eq_ok_of_mapError {ε ε' : Type} {f : ε → ε'} {r : Except ε α} {x : α}
    (mapped : r.mapError f = .ok x) : r = .ok x := by
  cases r with
  | error e => cases mapped
  | ok y => exact congrArg _ (Except.ok.inj mapped)

/-- An operation whose error is turned into a failure fails if the operation does. -/
theorem exists_of_mapError {ε ε' : Type} {f : ε → ε'} {r : Except ε α} {e' : ε'}
    (mapped : r.mapError f = .error e') : ∃ e, r = .error e := by
  cases r with
  | error e => exact ⟨e, rfl⟩
  | ok y => cases mapped

/-! ## The operations -/

/-- A new access of a handle gets a version that the handle offers. -/
theorem Sound.schedule (sound : hs.Sound) {k : Access.Kind} {v : Version}
    (ran : hs.run id (·.schedule k) = (.ok v, after)) :
    after.Sound ∧ id < hs.units.size ∧ (hs.view id).Offers k v ∧
      after.view = update hs.view id ((hs.view id).scheduled k v) := by
  obtain ⟨result, rfl⟩ := run_eq ran
  have scheduled := eq_ok_of_mapError result
  obtain ⟨kept, seen, offered⟩ := (sound id).schedule scheduled
  have inside : id < hs.units.size := by
    by_contra outside
    obtain ⟨_, _, _, found, -⟩ := Handle.schedule_eq_ok scheduled
    rw [get_of_le (Nat.le_of_not_lt outside)] at found
    cases found
  refine ⟨sound.set kept, inside, offered, ?_⟩
  rw [view_set inside, seen, view]

/-- A failing attempt to reserve a version changes nothing that is seen. -/
theorem Sound.schedule_error (sound : hs.Sound) {k : Access.Kind} {f : Failure}
    (ran : hs.run id (·.schedule k) = (.error f, after)) :
    after.Sound ∧ after.view = hs.view := by
  obtain ⟨result, rfl⟩ := run_eq ran
  obtain ⟨e, failed⟩ := exists_of_mapError result
  rw [Handle.schedule_error failed]
  exact ⟨sound.set (sound id), view_set_self hs id⟩

/-- An access of a kind that has a place in the table of a handle gets no version only if too many
hold the version that it would get, unless it comes too late to join those that have been
completed. -/
theorem Sound.crowded_of_error (sound : hs.Sound) {k : Access.Kind} {f : Failure} {index : Nat}
    {required : Version} (place : k.index = some index)
    (found : (hs.view id).required[index]? = some required)
    (joins : required < (hs.view id).completed → k.properties.commutative = true)
    (ran : hs.run id (·.schedule k) = (.error f, after)) : f = .handle .scheduleCrowded := by
  obtain ⟨result, rfl⟩ := run_eq ran
  cases failed : ((hs.get id).schedule k).1 with
  | ok v =>
      rw [failed] at result
      cases result
  | error e =>
      rw [failed] at result
      cases result
      rw [(sound id).crowded_of_error place found joins failed]

/-- A task that is made to wait waits for a version in use that is not completed. -/
theorem Sound.register (sound : hs.Sound) {t : Task} {v : Version}
    (ran : hs.run id (·.register t v) = (.ok .parked, after)) :
    after.Sound ∧ after.view = update hs.view id ((hs.view id).parked t v) ∧
      (hs.view id).completed < v ∧ v < (hs.view id).frontier := by
  obtain ⟨result, rfl⟩ := run_eq ran
  obtain ⟨kept, seen, range⟩ := (sound id).register (eq_ok_of_mapError result)
  have inside : id < hs.units.size := lt_of_frontier_pos (Nat.zero_lt_of_lt range.2)
  refine ⟨sound.set kept, ?_, range⟩
  rw [view_set inside, seen, view]

/-- A task that is handed back has met the completed version, and nothing changes that is seen. -/
theorem Sound.handedBack (sound : hs.Sound) {t back : Task} {v : Version}
    (ran : hs.run id (·.register t v) = (.ok (.handedBack back), after)) :
    after.Sound ∧ after.view = hs.view ∧ back = t ∧ (hs.view id).completed = v := by
  obtain ⟨result, rfl⟩ := run_eq ran
  obtain ⟨same, reached, unchanged⟩ := Handle.register_eq_handedBack (eq_ok_of_mapError result)
  rw [unchanged]
  exact ⟨sound.set (sound id), view_set_self hs id, same, reached⟩

/-- Waiting is refused only for a version that is not in use, and nothing changes that is seen. -/
theorem Sound.register_error (sound : hs.Sound) {t : Task} {v : Version} {f : Failure}
    (ran : hs.run id (·.register t v) = (.error f, after)) :
    after.Sound ∧ after.view = hs.view ∧
      ¬((hs.view id).completed ≤ v ∧ v < (hs.view id).frontier) := by
  obtain ⟨result, rfl⟩ := run_eq ran
  obtain ⟨e, failed⟩ := exists_of_mapError result
  rw [Handle.register_error failed]
  exact ⟨sound.set (sound id), view_set_self hs id,
    fun used => Handle.register_ne_error used.1 used.2 e failed⟩

/-- A version is released that is the completed one and has a holder; those who wait for the next
one are woken if it was the last, and nobody else. -/
theorem Sound.advance (sound : hs.Sound) {v : Version} {woken : List Task}
    (ran : hs.run id (·.advance v) = (.ok woken, after)) :
    (hs.view id).completed = v ∧ 0 < (hs.view id).holders v ∧ woken = (hs.view id).woken v ∧
      after.Sound ∧ after.view = update hs.view id ((hs.view id).released v) := by
  obtain ⟨result, rfl⟩ := run_eq ran
  by_cases held : (hs.view id).completed = v ∧ 0 < (hs.view id).holders v
  · obtain ⟨rfl, holder⟩ := held
    obtain ⟨returned, kept, seen⟩ := (sound id).advance holder
    have used := ((sound id).versions.held _).1 holder
    refine ⟨rfl, holder, ?_, sound.set kept, ?_⟩
    · exact (Except.ok.inj (result.symm.trans (congrArg _ returned)))
    · exact (view_set (lt_of_frontier_pos (Nat.zero_lt_of_lt used.2)) _).trans
        (congrArg (update hs.view id) seen)
  · obtain ⟨f, failed⟩ := Handle.advance_eq_error held
    rw [failed] at result
    cases result

/-- A version is not released that is not the completed one or has no holder. -/
theorem Sound.advance_error (sound : hs.Sound) {v : Version} {f : Failure}
    (ran : hs.run id (·.advance v) = (.error f, after)) :
    ¬((hs.view id).completed = v ∧ 0 < (hs.view id).holders v) ∧ after.Sound := by
  obtain ⟨result, rfl⟩ := run_eq ran
  have unheld : ¬((hs.view id).completed = v ∧ 0 < (hs.view id).holders v) := by
    rintro ⟨rfl, holder⟩
    obtain ⟨returned, -⟩ := (sound id).advance holder
    cases (congrArg _ returned).symm.trans result
  obtain ⟨e, failed⟩ := Handle.advance_eq_error unheld
  refine ⟨unheld, sound.set ?_⟩
  simp only [failed]
  exact sound id

/-- The lock of a handle is taken if it is free. -/
theorem Sound.tryLock (sound : hs.Sound) (ran : hs.tryLock id = (true, after)) :
    after.Sound ∧ after.units.size = hs.units.size ∧ (hs.view id).locked = false ∧
      (id < hs.units.size → after.view = update hs.view id ((hs.view id).latched true)) := by
  obtain ⟨free, rfl⟩ := Prod.mk.inj ran
  have kept : (hs.get id).tryLock.2.Sound := ⟨(sound id).published, (sound id).versions.latched _⟩
  refine ⟨sound.set kept, Array.size_setIfInBounds, ?_, fun inside => view_set inside _⟩
  show (hs.get id).locked = false
  simpa [Handle.tryLock] using free

/-- The lock of a handle is given back if it is held. -/
theorem Sound.unlock (sound : hs.Sound) (ran : hs.run id Handle.unlock = (.ok (), after)) :
    (hs.view id).locked = true ∧ after.Sound ∧
      after.view = update hs.view id ((hs.view id).latched false) := by
  obtain ⟨result, rfl⟩ := run_eq ran
  have locked : (hs.view id).locked = true := by
    show (hs.get id).locked = true
    by_contra free
    simp only [Handle.unlock, if_neg free] at result
    cases result
  exact ⟨locked, sound.set ⟨(sound id).published, (sound id).versions.latched _⟩,
    view_set (lt_of_locked locked) _⟩

/-- The lock of a handle that is free is not given back. -/
theorem Sound.unlock_error (sound : hs.Sound) {f : Failure}
    (ran : hs.run id Handle.unlock = (.error f, after)) :
    (hs.view id).locked = false ∧ after.Sound := by
  obtain ⟨result, rfl⟩ := run_eq ran
  refine ⟨?_, sound.set ⟨(sound id).published, (sound id).versions.latched _⟩⟩
  show (hs.get id).locked = false
  by_contra locked
  simp only [Handle.unlock, if_pos (Bool.eq_true_of_not_eq_false locked)] at result
  cases result

end AccessOrder.Handles
