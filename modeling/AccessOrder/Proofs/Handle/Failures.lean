/- # Failing calls

A call on a handle fails for a reason that can be told from the calls before it, and leaves the
handle as it was.  The bookkeeping of a handle is kept behind a lock that is poisoned by a call that
fails while it holds the lock; whoever takes the lock later disregards that, so a handle goes on to
be used after a failure.

* `Poisonable.handle_after` : that a lock has been poisoned makes no difference to the handle;
* `Sound.advance_eq_error_iff`, `register_eq_error_iff`, `Grouped.schedule_eq_error_iff` : when a
  call on a handle fails, and how;
* `failures_exact` : which calls fail, and how, after any calls.
-/
import AccessOrder.Proofs.Handle.Grouping
namespace AccessOrder.Handle

open Access (Vocabulary)

variable {τ : Type}

/-! ## Behind a lock -/

/-- Whether a call needs the bookkeeping of a handle, which is kept behind a lock. -/
def Request.books : Request τ → Bool
  | .schedule _ | .register .. | .advance _ => true
  | .tryLock | .unlock => false

/-- Whether a call has failed. -/
def Reply.isFailed : Reply τ → Bool
  | .failed _ => true
  | _ => false

/-- A handle, and whether somebody has failed who held the lock of its bookkeeping. -/
structure Poisonable (τ : Type) where
  handle : Handle τ
  poisoned : Bool

namespace Poisonable

/-- What is found behind the lock: an error tells that it is poisoned, and brings the handle all the
same. -/
def take (p : Poisonable τ) : Except (Handle τ) (Handle τ) :=
  if p.poisoned then .error p.handle else .ok p.handle

/-- The handle that is found behind the lock, whether or not it is poisoned. -/
def recover (p : Poisonable τ) : Handle τ :=
  match p.take with
  | .ok h => h
  | .error h => h

/-- The reply to a call, and the handle after it. -/
def respond (p : Poisonable τ) (r : Request τ) : Reply τ × Poisonable τ :=
  if r.books then
    let (answer, h) := p.recover.respond r
    (answer, ⟨h, p.poisoned || answer.isFailed⟩)
  else
    let (answer, h) := p.handle.respond r
    (answer, { p with handle := h })

/-- A new handle for a kind set of the given size after some calls, the last one first. -/
def after (kinds : Nat) : List (Request τ) → Poisonable τ
  | [] => ⟨new kinds, false⟩
  | r :: past => ((after kinds past).respond r).2

/-- The lock is taken whether or not it is poisoned. -/
theorem recover_eq (p : Poisonable τ) : p.recover = p.handle := by
  unfold recover take
  cases p.poisoned <;> rfl

/-- A call is answered as if there were no lock. -/
theorem respond_eq (p : Poisonable τ) (r : Request τ) :
    (p.respond r).1 = (p.handle.respond r).1 ∧
      (p.respond r).2.handle = (p.handle.respond r).2 := by
  unfold respond
  rw [recover_eq]
  split <;> exact ⟨rfl, rfl⟩

/-- That a lock has been poisoned makes no difference to the handle. -/
theorem handle_after (kinds : Nat) (past : List (Request τ)) :
    (after kinds past).handle = Handle.after kinds past := by
  induction past with
  | nil => rfl
  | cons r past ih =>
      show ((after kinds past).respond r).2.handle = ((Handle.after kinds past).respond r).2
      rw [(respond_eq _ r).2, ih]

end Poisonable

/-! ## Why a call fails -/

/-- A reply tells of a failure if the call has failed. -/
theorem reply_eq_failed_iff {α : Type} {succeeded : α → Reply τ}
    (never : ∀ a f, succeeded a ≠ .failed f) (r : Except Fault α × Handle τ) (f : Fault) :
    (reply succeeded r).1 = .failed f ↔ r.1 = .error f := by
  obtain ⟨result, h⟩ := r
  cases result with
  | ok a => exact ⟨fun same => absurd same (never a f), fun failed => nomatch failed⟩
  | error e =>
      exact ⟨fun same => congrArg _ (Reply.failed.inj same),
        fun same => congrArg _ (Except.error.inj same)⟩

/-- A version can be released only while it is the completed one and an access holds it. -/
theorem Sound.advance_eq_error_iff {h : Handle τ} (sound : h.Sound) {v : Version} {f : Fault} :
    (h.advance v).1 = .error f ↔
      h.completed ≠ v ∧ f = .releaseOther h.completed v ∨
        h.completed = v ∧ h.view.holders v = 0 ∧ f = .releaseUnscheduled := by
  by_cases here : h.completed = v
  · subst here
    rcases Nat.eq_zero_or_pos (h.view.holders h.completed) with none | holder
    · -- a version without a holder is not in use, so it has no slot
      have unused : h.view.frontier = h.completed + h.slots.length := rfl
      have le : h.completed ≤ h.view.frontier := sound.versions.le
      have held : 0 < h.view.holders h.completed ↔
        h.completed ≤ h.completed ∧ h.completed < h.view.frontier := sound.versions.held h.completed
      have slots : h.slots = [] := List.eq_nil_of_length_eq_zero (by lia)
      have failed : (h.advance h.completed).1 = .error .releaseUnscheduled := by
        rw [Handle.advance, if_pos rfl, slots]
      rw [failed, Except.error.injEq]
      simp [none, eq_comm]
    · rw [(sound.advance holder).1]
      simp [holder.ne']
  · rw [advance_error_of_passed here, Except.error.injEq]
    simp [here, eq_comm]

/-- Nobody is made to wait for a version that has been completed, or that is not in use. -/
theorem register_eq_error_iff {h : Handle τ} {t : τ} {v : Version} {f : Fault} :
    (h.register t v).1 = .error f ↔
      v < h.completed ∧ f = .listenPassed ∨
        h.completed < v ∧ h.view.frontier ≤ v ∧ f = .listenUnscheduled := by
  have frontier : h.view.frontier = h.completed + h.slots.length := rfl
  unfold register
  rcases Nat.lt_trichotomy h.completed v with ahead | here | passed
  · rw [if_neg ahead.ne, if_neg (Nat.lt_asymm ahead)]
    simp only
    split
    · next outside =>
      have outside := List.getElem?_eq_none_iff.1 outside
      have unused : h.view.frontier ≤ v := by lia
      simp [ahead, Nat.lt_asymm ahead, unused, eq_comm]
    · next slot found =>
      have inside := (List.getElem?_eq_some_iff.1 found).1
      have used : ¬h.view.frontier ≤ v := by lia
      simp [Nat.lt_asymm ahead, used]
  · simp [here]
  · simp [passed, passed.ne', Nat.lt_asymm passed, eq_comm]

/-- The lock of a handle can be given back only while it is held. -/
theorem unlock_eq_error_iff {h : Handle τ} {f : Fault} :
    h.unlock.1 = .error f ↔ h.locked = false ∧ f = .unlockFree := by
  unfold unlock
  cases h.locked <;> simp [eq_comm]

/-- A version that gets one more holder has not as many as can be counted. -/
theorem holders_lt_of_hold {h : Handle τ} {v : Version} {slots : List (Slot τ)}
    (reached : h.completed ≤ v) (held : h.hold (v - h.completed) = .ok slots) :
    h.view.holders v < maxHolders := by
  rw [holders_view, slotOf, if_neg (Nat.not_lt.2 reached)]
  unfold hold at held
  split at held
  · next slot found =>
    split at held
    · next room => rwa [found, Option.elim_some]
    · cases held
  · next outside =>
    rw [outside, Option.elim_none]
    decide

/-- A version that an access gets has not as many holders as can be counted. -/
theorem holders_lt_of_schedule {h : Handle τ} {k : Access.Kind} {v : Version}
    (scheduled : (h.schedule k).1 = .ok v) : h.view.holders v < maxHolders := by
  revert scheduled
  unfold schedule
  split
  · simp
  · split
    · simp
    · split
      · simp
      · simp only
        split
        · simp
        · next slots held =>
          intro same
          cases same
          exact holders_lt_of_hold (Nat.le_max_right ..) held

/-- A call that fails leaves a handle as it was. -/
theorem Sound.eq_of_failed {h : Handle τ} (sound : h.Sound) {r : Request τ} {f : Fault}
    (failed : (h.respond r).1 = .failed f) : (h.respond r).2 = h := by
  cases r with
  | schedule k =>
      rw [respond, snd_reply]
      exact schedule_error ((reply_eq_failed_iff (by rintro _ _ ⟨⟩) _ f).1 failed)
  | register t v =>
      rw [respond, snd_reply]
      exact register_error ((reply_eq_failed_iff (by rintro _ _ ⟨⟩) _ f).1 failed)
  | advance v =>
      have failed := (reply_eq_failed_iff (by rintro _ _ ⟨⟩) _ f).1 failed
      have unheld : ¬(h.view.completed = v ∧ 0 < h.view.holders v) := by
        rintro ⟨rfl, holder⟩
        have released : (h.advance h.view.completed).1 = _ := (sound.advance holder).1
        rw [released] at failed
        cases failed
      obtain ⟨_, same⟩ := advance_eq_error unheld
      rw [respond, snd_reply, same]
  | tryLock => cases failed
  | unlock =>
      have failed := (reply_eq_failed_iff (by rintro _ _ ⟨⟩) _ f).1 failed
      obtain ⟨free, -⟩ := unlock_eq_error_iff.1 failed
      rw [respond, snd_reply]
      show { h with locked := false } = h
      rw [← free]

variable {vocabulary : Vocabulary} {past : List (Event τ)} {k : Access.Kind}

/-- An access of a listed kind gets no version only if as many accesses as can be counted hold the
version of its group. -/
theorem Grouped.schedule_eq_error_iff {h : Handle τ} (grouped : Grouped vocabulary past h.view)
    (sound : h.Sound) (valid : vocabulary.kindSet.validate = .ok ())
    (listed : k ∈ vocabulary.listed) {f : Fault} :
    (h.schedule k).1 = .error f ↔
      maxHolders ≤ h.view.holders (groupOf past k) ∧ f = .scheduleCrowded := by
  rcases grouped.schedule_eq sound valid listed with scheduled | ⟨failed, crowded⟩
  · have room := holders_lt_of_schedule scheduled
    simp [scheduled, Nat.not_le.2 room]
  · simp [failed, crowded, eq_comm]

/-! ## After any calls -/

/-- Whether the lock of a handle is held after some calls, the last one first. -/
def lockHeld : List (Request τ) → Bool
  | [] => false
  | .tryLock :: _ => true
  | .unlock :: _ => false
  | .schedule _ :: past | .register .. :: past | .advance _ :: past => lockHeld past

/-- Calls that need the bookkeeping of a handle have no bearing on its lock. -/
theorem locked_of_books {r : Request τ} (books : r.books = true) (h : Handle τ) :
    (h.respond r).2.locked = h.locked := by
  cases r with
  | schedule k =>
      rw [respond, snd_reply]
      unfold schedule
      split
      · rfl
      · split
        · rfl
        · split
          · rfl
          · simp only
            split <;> rfl
  | register t v =>
      rw [respond, snd_reply]
      unfold register
      split
      · rfl
      · split
        · rfl
        · simp only
          split <;> rfl
  | advance v =>
      rw [respond, snd_reply]
      unfold advance
      split
      · split
        · rfl
        · next rest _ =>
          split
          · rfl
          · split
            · cases rest <;> rfl
            · rfl
          · rfl
      · rfl
  | tryLock | unlock => cases books

/-- The lock is held after an attempt to take it, until somebody gives it back. -/
theorem locked_after (kinds : Nat) (past : List (Request τ)) :
    (after kinds past).locked = lockHeld past := by
  induction past with
  | nil => rfl
  | cons r past ih =>
      cases r with
      | tryLock => rfl
      | unlock => exact congrArg locked (snd_reply (fun _ => .unlocked) (after kinds past).unlock)
      | schedule k => exact (locked_of_books rfl _).trans ih
      | register t v => exact (locked_of_books rfl _).trans ih
      | advance v => exact (locked_of_books rfl _).trans ih

/-- No version has more holders than can be counted. -/
theorem holders_le_after (kinds : Nat) (past : List (Request τ)) (v : Version) :
    (after kinds past).view.holders v ≤ maxHolders := by
  induction past generalizing v with
  | nil =>
      rw [after, view_new]
      exact Nat.zero_le _
  | cons r past ih =>
      have now := responds_after kinds r past
      have room : ∀ k u, r = .schedule k → ((after kinds past).respond r).1 = .scheduled u →
          (after kinds past).view.holders u < maxHolders := by
        rintro k u rfl answered
        refine holders_lt_of_schedule (k := k) ?_
        rw [respond] at answered
        generalize (after kinds past).schedule k = r at answered ⊢
        obtain ⟨result, h⟩ := r
        cases result with
        | ok w => exact congrArg _ (Reply.scheduled.inj answered)
        | error f => cases answered
      generalize (after kinds past).view = w at now ih room
      generalize ((after kinds past).respond r).1 = answer at now room
      generalize (after kinds (r :: past)).view = w' at now
      cases now with
      | @schedule k u offers =>
          have less := room k u rfl rfl
          show Function.update w.holders u (w.holders u + 1) v ≤ maxHolders
          rw [Function.update_apply]
          split
          · exact less
          · exact ih v
      | advance holder =>
          have before := ih w.completed
          rw [View.holders_released]
          split
          · lia
          · exact ih v
      | register | idle => exact ih v

/-- There are no more versions than accesses that have got one. -/
theorem frontier_le_accesses (kinds : Nat) (past : List (Request τ)) :
    (after kinds past).view.frontier ≤ (accesses (history kinds past)).length := by
  refine history_induction (motive := fun events w => w.frontier ≤ (accesses events).length)
    (fun _ => True) ?_ ?_ ?_ ?_ ?_ past fun _ _ => trivial
  · rw [view_new]
    exact Nat.le_refl _
  · intro events w k v _ offers _ before
    have newest := offers.newest
    show v + 1 ≤ (accesses events).length + 1
    lia
  · exact fun _ _ _ before => before
  · intro events w _ _ before
    rw [View.frontier_released]
    exact before
  · exact fun before => before

/-- After any calls on a handle for listed kinds of an accepted kind set, failed calls among them:

releasing a version fails if it is not the completed one, or if no access that has got it has still
to release it;

waiting for a version fails if it has been completed, or if it has not and no access has got it;

giving the lock back fails if it is not held, and taking it does not fail;

an access of a listed kind gets no version if as many accesses as can be counted hold the version of
its group;

there is no other failure, whatever fails leaves the handle as it was, and no version that a handle
knows of is greater than the number of accesses that have got one. -/
theorem failures_exact (valid : vocabulary.kindSet.validate = .ok ())
    (past : List (Request τ)) (asked : ∀ k, .schedule k ∈ past → k ∈ vocabulary.listed) :
    let p := Poisonable.after vocabulary.listed.length past
    let h := p.handle
    let events := history vocabulary.listed.length past
    (∀ v f, (p.respond (.advance v)).1 = .failed f ↔
      h.completed ≠ v ∧ f = .releaseOther h.completed v ∨
        h.completed = v ∧ reserved events v = returned events v ∧ f = .releaseUnscheduled) ∧
    (∀ t v f, (p.respond (.register t v)).1 = .failed f ↔
      v < h.completed ∧ f = .listenPassed ∨
        h.completed < v ∧ reserved events v = 0 ∧ f = .listenUnscheduled) ∧
    (∀ f, (p.respond .unlock).1 = .failed f ↔ lockHeld past = false ∧ f = .unlockFree) ∧
    (p.respond .tryLock).1 = .tried (!lockHeld past) ∧
    (∀ k ∈ vocabulary.listed, ∀ f, (p.respond (.schedule k)).1 = .failed f ↔
      reserved events (groupOf events k) = returned events (groupOf events k) + maxHolders ∧
        f = .scheduleCrowded) ∧
    (∀ r f, (p.respond r).1 = .failed f → (p.respond r).2.handle = h) ∧
    h.published = h.completed ∧ h.completed + h.slots.length ≤ (accesses events).length ∧
      ∀ next ∈ h.nextRequired, next ≤ (accesses events).length := by
  intro p h events
  have same : h = after vocabulary.listed.length past := Poisonable.handle_after _ past
  have sound : h.Sound := same ▸ sound_after _ past
  have grouped : Grouped vocabulary events h.view := same ▸ grouped_after valid past asked
  have locked : h.locked = lockHeld past := same ▸ locked_after _ past
  have replies : ∀ r, (p.respond r).1 = (h.respond r).1 := fun r => (p.respond_eq r).1
  have counted := grouped.counted.holders
  have bound : h.view.frontier ≤ (accesses events).length := same ▸ frontier_le_accesses _ past
  refine ⟨fun v f => ?_, fun t v f => ?_, fun f => ?_, ?_, fun k listed f => ?_,
    fun r f failed => ?_, sound.published, bound, fun next mem => ?_⟩
  · have unheld : h.view.holders v = 0 ↔ reserved events v = returned events v := by
      have := counted v
      lia
    rw [replies, respond, reply_eq_failed_iff (by rintro _ _ ⟨⟩), sound.advance_eq_error_iff,
      unheld]
  · have unused : h.view.frontier ≤ v ↔ reserved events v = 0 := by
      have := grouped.counted.used v
      lia
    rw [replies, respond, reply_eq_failed_iff (by rintro _ _ ⟨⟩), register_eq_error_iff, unused]
  · rw [replies, respond, reply_eq_failed_iff (by rintro _ _ ⟨⟩), unlock_eq_error_iff, locked]
  · rw [replies, respond, ← locked]
    rfl
  · have crowded : maxHolders ≤ h.view.holders (groupOf events k) ↔
        reserved events (groupOf events k) = returned events (groupOf events k) + maxHolders := by
      have most : h.view.holders (groupOf events k) ≤ maxHolders := same ▸ holders_le_after ..
      have := counted (groupOf events k)
      lia
    rw [replies, respond, reply_eq_failed_iff (by rintro _ _ ⟨⟩),
      grouped.schedule_eq_error_iff sound valid listed, crowded]
  · rw [(p.respond_eq r).2]
    exact sound.eq_of_failed ((replies r).symm.trans failed)
  · exact (sound.versions.table next mem).1.trans bound

/-- A version is released too early, which fails and poisons the lock.  What has to fail after that
fails, and leaves the handle as it was. -/
theorem early_release_fails :
    let write : Access.Kind := ⟨1, "Write", .write, some 1⟩
    let p : Poisonable Nat := .after 3 [.advance 1, .schedule write, .schedule readKind]
    p.poisoned = true ∧ (p.respond (.advance 1)).1 = .failed (.releaseOther 0 1) ∧
      (p.respond (.advance 1)).2.handle = p.handle ∧
      (p.respond (.register 7 2)).1 = .failed .listenUnscheduled ∧
      (p.respond .unlock).1 = .failed .unlockFree := by
  intro write p
  have valid : Vocabulary.usual.kindSet.validate = .ok () := Vocabulary.validate_usual
  have asked : ∀ k, (.schedule k : Request Nat) ∈
      [.advance 1, .schedule write, .schedule readKind] → k ∈ Vocabulary.usual.listed := by
    intro k mem
    have either : k = write ∨ k = readKind := by simpa using mem
    rcases either with rfl | rfl <;> decide
  obtain ⟨releases, waits, unlocks, -, -, unchanged, -⟩ := failures_exact valid _ asked
  have early : (p.respond (.advance 1)).1 = .failed (.releaseOther 0 1) :=
    (releases 1 _).2 (.inl ⟨by decide, rfl⟩)
  exact ⟨rfl, early, unchanged _ _ early, (waits 7 2 _).2 (.inr ⟨by decide, by decide, rfl⟩),
    (unlocks _).2 ⟨rfl, rfl⟩⟩

end AccessOrder.Handle
