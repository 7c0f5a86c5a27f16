/- # Calls on a handle

Any sequence of calls on one handle, whatever their arguments, with those that are refused or fail.
What such calls come to is a `history`: the versions that have been reserved, the tasks that wait
and the releases.  Calls that are refused or fail leave no trace in it, and none in the handle.

* `Sound.responds` : what a call does to a sound handle;
* `history_induction` : what every event keeps holds after all calls.
-/
import AccessOrder.Proofs.Handle.Versions
namespace AccessOrder.Handle

/-- What may be asked of a handle. -/
inductive Request (τ : Type) where
  | schedule (kind : Access.Kind)
  | register (task : τ) (version : Version)
  | advance (version : Version)
  | tryLock
  | unlock

/-- What a handle replies. -/
inductive Reply (τ : Type) where
  | scheduled (version : Version)
  | registered (registration : Registration τ)
  | woken (tasks : List τ)
  | tried (taken : Bool)
  | unlocked
  | failed (fault : Fault)

/-- Something that has changed the bookkeeping of a handle. -/
inductive Event (τ : Type) where
  /-- An access of a kind has got its version. -/
  | scheduled (kind : Access.Kind) (version : Version)
  /-- A task has been made to wait for a version. -/
  | parked (task : τ) (version : Version)
  /-- A holder of a version has been released, and tasks have been woken. -/
  | released (version : Version) (woken : List τ)

variable {τ α : Type}

/-- The reply to a call that may fail. -/
def reply (succeeded : α → Reply τ) (r : Except Fault α × Handle τ) : Reply τ × Handle τ :=
  match r with
  | (.ok a, h) => (succeeded a, h)
  | (.error f, h) => (.failed f, h)

/-- The reply leaves the handle as the call does. -/
theorem snd_reply (succeeded : α → Reply τ) (r : Except Fault α × Handle τ) :
    (reply succeeded r).2 = r.2 := by
  obtain ⟨result, h⟩ := r
  cases result <;> rfl

/-- The reply to a call, and the handle after it. -/
def respond (h : Handle τ) : Request τ → Reply τ × Handle τ
  | .schedule k => reply .scheduled (h.schedule k)
  | .register t v => reply .registered (h.register t v)
  | .advance v => reply .woken (h.advance v)
  | .tryLock => (.tried h.tryLock.1, h.tryLock.2)
  | .unlock => reply (fun _ => .unlocked) h.unlock

/-- A new handle for a kind set of the given size after some calls, the last one first. -/
def after (kinds : Nat) : List (Request τ) → Handle τ
  | [] => new kinds
  | r :: past => ((after kinds past).respond r).2

/-- What a call comes to that has been answered; nothing if it was refused or failed. -/
def event? : Request τ → Reply τ → Option (Event τ)
  | .schedule k, .scheduled v => some (.scheduled k v)
  | .register t v, .registered .parked => some (.parked t v)
  | .advance v, .woken ts => some (.released v ts)
  | _, _ => none

/-- What has happened in the course of some calls, the last one first. -/
def history (kinds : Nat) : List (Request τ) → List (Event τ)
  | [] => []
  | r :: past => (event? r ((after kinds past).respond r).1).toList ++ history kinds past

/-! ## One call -/

/-- What a call on a handle may be answered and do, seen version by version: it reserves a version,
makes a task wait, releases a holder of the completed version, or has no bearing on any of this. -/
inductive Responds (w : View τ) : Request τ → Reply τ → View τ → Prop where
  | schedule {k : Access.Kind} {v : Version} : w.Offers k v →
      Responds w (.schedule k) (.scheduled v) (w.scheduled k v)
  | register {t : τ} {v : Version} : w.completed < v → v < w.frontier →
      Responds w (.register t v) (.registered .parked) (w.parked t v)
  | advance : 0 < w.holders w.completed →
      Responds w (.advance w.completed) (.woken (w.woken w.completed)) (w.released w.completed)
  | idle {r : Request τ} {answer : Reply τ} (locked : Bool) : event? r answer = none →
      Responds w r answer (w.latched locked)

/-- What a call does to a sound handle. -/
theorem Sound.responds {h : Handle τ} (sound : h.Sound) (r : Request τ) :
    (h.respond r).2.Sound ∧ Responds h.view r (h.respond r).1 (h.respond r).2.view := by
  have idle : ∀ {r : Request τ} {answer : Reply τ}, event? r answer = none →
      h.Sound ∧ Responds h.view r answer h.view := fun none => ⟨sound, .idle h.locked none⟩
  have latched : ∀ {r : Request τ} {answer : Reply τ} (locked : Bool), event? r answer = none →
      Sound { h with locked := locked } ∧
        Responds h.view r answer (view { h with locked := locked }) := fun locked none =>
    ⟨⟨sound.published, sound.versions.latched locked⟩, .idle locked none⟩
  cases r with
  | schedule k =>
      cases called : h.schedule k with
      | mk result h' =>
      rw [respond, called]
      cases result with
      | ok v =>
          obtain ⟨sound', view, offers⟩ := sound.schedule (congrArg Prod.fst called)
          rw [called] at sound' view
          exact ⟨sound', view ▸ .schedule offers⟩
      | error f =>
          obtain rfl : h' = h := by
            rw [← schedule_error (congrArg Prod.fst called), called]
          exact idle rfl
  | register t v =>
      cases called : h.register t v with
      | mk result h' =>
      rw [respond, called]
      cases result with
      | ok registration =>
          cases registration with
          | parked =>
              obtain ⟨sound', view, ahead, used⟩ := sound.register (congrArg Prod.fst called)
              rw [called] at sound' view
              exact ⟨sound', view ▸ .register ahead used⟩
          | handedBack back =>
              obtain ⟨-, -, same⟩ := register_eq_handedBack (congrArg Prod.fst called)
              rw [called] at same
              subst same
              exact idle rfl
      | error f =>
          obtain rfl : h' = h := by
            rw [← register_error (congrArg Prod.fst called), called]
          exact idle rfl
  | advance v =>
      by_cases held : h.view.completed = v ∧ 0 < h.view.holders v
      · obtain ⟨rfl, holder⟩ := held
        obtain ⟨woken, sound', view⟩ := sound.advance holder
        have called : h.respond (.advance h.view.completed) =
            (.woken (h.view.woken h.completed), (h.advance h.completed).2) := by
          rw [respond, show h.advance h.view.completed = (_, (h.advance h.completed).2) from
            Prod.ext woken rfl]
          rfl
        rw [called]
        exact ⟨sound', view ▸ .advance holder⟩
      · obtain ⟨f, failed⟩ := advance_eq_error held
        rw [respond, failed]
        exact idle rfl
  | tryLock => exact latched true rfl
  | unlock =>
      cases held : h.locked with
      | false =>
          rw [respond, show h.unlock = (.error .unlockFree, _) by rw [unlock, held]; rfl]
          exact latched false rfl
      | true =>
          rw [respond, show h.unlock = (.ok (), _) by rw [unlock, held]; rfl]
          exact latched false rfl

/-! ## All calls -/

/-- A handle is sound after all calls. -/
theorem sound_after (kinds : Nat) (past : List (Request τ)) : (after kinds past).Sound := by
  induction past with
  | nil => exact sound_new kinds
  | cons r past ih => exact (ih.responds r).1

/-- What a call adds to a history. -/
theorem responds_after (kinds : Nat) (r : Request τ) (past : List (Request τ)) :
    Responds (after kinds past).view r ((after kinds past).respond r).1
      (after kinds (r :: past)).view :=
  ((sound_after kinds past).responds r).2

/-- A call that releases a version releases a holder of the completed one. -/
theorem released_of_woken {kinds : Nat} {past : List (Request τ)} {v : Version} {ts : List τ}
    (woken : ((after kinds past).respond (.advance v)).1 = .woken ts) :
    (after kinds past).completed = v ∧ 0 < (after kinds past).view.holders v ∧
      ts = (after kinds past).view.woken v ∧
      (after kinds (.advance v :: past)).view = (after kinds past).view.released v := by
  have now := responds_after kinds (.advance v) past
  have completed : (after kinds past).completed = (after kinds past).view.completed := rfl
  rw [woken] at now
  rw [completed]
  generalize (after kinds past).view = w at now
  generalize (after kinds (.advance v :: past)).view = w' at now
  cases now with
  | advance holder => exact ⟨rfl, holder, rfl, rfl⟩
  | idle locked none => cases none

/-- What holds of a new handle and is kept by every event holds after all calls; `fits` is known of
the kinds that are asked for. -/
theorem history_induction {kinds : Nat} {motive : List (Event τ) → View τ → Prop}
    (fits : Access.Kind → Prop) (start : motive [] (new kinds).view)
    (scheduled : ∀ {events w k v}, w.Sound → w.Offers k v → fits k → motive events w →
      motive (.scheduled k v :: events) (w.scheduled k v))
    (parked : ∀ {events w t v}, w.Sound → w.completed < v → v < w.frontier → motive events w →
      motive (.parked t v :: events) (w.parked t v))
    (released : ∀ {events w}, w.Sound → 0 < w.holders w.completed → motive events w →
      motive (.released w.completed (w.woken w.completed) :: events) (w.released w.completed))
    (latched : ∀ {events w locked}, motive events w → motive events (w.latched locked))
    (past : List (Request τ)) (asked : ∀ k, .schedule k ∈ past → fits k) :
    motive (history kinds past) (after kinds past).view := by
  induction past with
  | nil => exact start
  | cons r past ih =>
      have before := ih fun k mem => asked k (List.mem_cons_of_mem _ mem)
      have sound := (sound_after kinds past).versions
      have now := responds_after kinds r past
      rw [history]
      generalize (after kinds past).view = w at before sound now
      generalize ((after kinds past).respond r).1 = answer at now
      generalize (after kinds (r :: past)).view = w' at now
      cases now with
      | schedule offers => exact scheduled sound offers (asked _ List.mem_cons_self) before
      | register ahead used => exact parked sound ahead used before
      | advance holder => exact released sound holder before
      | idle locked none =>
          rw [none]
          exact latched before

end AccessOrder.Handle
