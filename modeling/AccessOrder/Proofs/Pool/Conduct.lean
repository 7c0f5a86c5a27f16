/- # Conduct

A demand on what a worker or a caller is in the middle of.  It is met after every turn if it is met
by all that is done with nothing in hand, and by whatever each activity goes on with or ends in.

* `Turn.Yields` : what is known of the next stage of an activity, of its result and of its failure;
* `Sound.conduct_step`, `Sound.conduct_move` : a demand that every activity meets is met after a
  step, and after a turn.
-/
import AccessOrder.Proofs.Pool.Leading
namespace AccessOrder.Pool

/-- What is known of the next stage of an activity, of its result and of its failure. -/
def Turn.Yields {α β : Type} (goes : α → Prop) (ends : β → Prop) (fails : Failure → Prop) :
    Turn α β → Prop
  | .goes next => goes next
  | .ends result => ends result
  | .fails f => fails f
  | .waits | .aborts _ => True

variable {α β γ δ : Type} {goes : α → Prop} {ends : β → Prop} {fails : Failure → Prop}

/-- What is known of an activity that goes on. -/
theorem Turn.Yields.of_goes {r : Machine × Turn α β} (yields : r.2.Yields goes ends fails)
    {m : Machine} {a : α} (stepped : r = (m, .goes a)) : goes a := by
  subst stepped
  exact yields

/-- What is known of an activity that ends. -/
theorem Turn.Yields.of_ends {r : Machine × Turn α β} (yields : r.2.Yields goes ends fails)
    {m : Machine} {b : β} (stepped : r = (m, .ends b)) : ends b := by
  subst stepped
  exact yields

/-- Whatever an activity yields that always holds is known. -/
theorem yields_of_forall (t : Turn α β) (next : ∀ a, goes a) (result : ∀ b, ends b)
    (failure : ∀ f, fails f) : t.Yields goes ends fails := by
  cases t with
  | goes a => exact next a
  | ends b => exact result b
  | fails f => exact failure f
  | waits | aborts label => trivial

/-- What is known of an activity holds, and so does what follows from it. -/
theorem Turn.Yields.mono {t : Turn α β} (yields : t.Yields goes ends fails) {goes' : α → Prop}
    {ends' : β → Prop} {fails' : Failure → Prop} (next : ∀ a, goes a → goes' a)
    (result : ∀ b, ends b → ends' b) (failure : ∀ f, fails f → fails' f) :
    t.Yields goes' ends' fails' := by
  cases t with
  | goes a => exact next a yields
  | ends b => exact result b yields
  | fails f => exact failure f yields
  | waits | aborts label => trivial

/-- What is known of an activity that goes on as part of another one. -/
theorem yields_onward {r : Machine × Turn α β} {goes' : γ → Prop} {ends' : δ → Prop} {wrap : α → γ}
    {cont : Machine → β → Machine × Turn γ δ} (yields : r.2.Yields goes ends fails)
    (wrapped : ∀ a, goes a → goes' (wrap a))
    (ended : ∀ m b, ends b → (cont m b).2.Yields goes' ends' fails) :
    (onward r wrap cont).2.Yields goes' ends' fails := by
  obtain ⟨m, turn⟩ := r
  cases turn with
  | goes a => exact wrapped a yields
  | ends b => exact ended m b yields
  | fails f => exact yields
  | waits | aborts label => trivial

/-- What is known of an activity that never fails and goes on as part of another one. -/
theorem unfailing_onward {r : Machine × Turn α β} {goes' : γ → Prop} {ends' : δ → Prop}
    {wrap : α → γ} {cont : Machine → β → Machine × Turn γ δ}
    (unfailing : r.2.Yields goes ends fun _ => False) (wrapped : ∀ a, goes a → goes' (wrap a))
    (ended : ∀ m b, ends b → (cont m b).2.Yields goes' ends' fails) :
    (onward r wrap cont).2.Yields goes' ends' fails :=
  yields_onward (unfailing.mono (fun _ goes => goes) (fun _ ended => ended) fun _ => False.elim)
    wrapped ended

namespace Machine

variable {m after : Machine} {id : WorkerId} {good : Control → Prop}

/-- What each activity of a worker or a caller must yield for a demand to be met after its step. -/
structure Conduct (m : Machine) (id : WorkerId) (good : Control → Prop) : Prop where
  /-- Whoever has nothing in hand, and has not failed, meets the demand. -/
  idle : ∀ c : Control, c.items id = [] → c.isFailed = false → good c
  /-- The drains of a barrier may be too many to be counted. -/
  uncounted : good (.failed .drainsUncounted)
  submitting : ∀ s, m.controlOf id = .submitting s →
    (m.submitStep (m.home id) s).2.Yields (fun s => good (.submitting s)) (fun _ => True)
      fun f => good (.failed f)
  serving : ∀ s seen, m.controlOf id = .serving s →
    (m.serveStep id seen s).2.Yields (fun _ => True) (fun _ => True) fun f => good (.failed f)
  popping : ∀ p, m.controlOf id = .popping p →
    (m.queueStep id p).2.Yields (fun p => good (.popping p))
      (fun x => ∀ t ∈ x, good (.executing (.vet (.look t)))) fun f => good (.failed f)
  stealing : ∀ victim p rest, m.controlOf id = .stealing victim p rest →
    (m.queueStep victim p).2.Yields (fun p => good (.stealing victim p rest))
      (fun x => ∀ t ∈ x, good (.executing (.vet (.look t)))) fun f => good (.failed f)
  executing : ∀ e, m.controlOf id = .executing e →
    (m.executeStep id e).2.Yields (fun e => good (.executing e)) (fun _ => True)
      fun f => good (.failed f)
  leading : ∀ l, m.controlOf id = .leading l →
    (m.leadStep id l).2.Yields (fun _ => True) (fun _ => True) fun f => good (.failed f)

/-- A step of an activity that is taken leaves the workers where they are. -/
theorem keeps_of_leads {xs : List Item} {ms : List Moment} {fine : α → Prop} {items : α → List Item}
    {ended : Machine → β → Prop} {fallen : Machine → Prop} {r : Machine × Turn α β}
    (leads : Leads m xs ms fine items ended fallen r) {wrap : α → Control}
    {finish : Machine → β → Machine} (moved : proceed id wrap finish r = some after) :
    m.Keeps r.1 := by
  cases leads with
  | waits => cases moved
  | goes passes _ _ => exact passes.toKeeps
  | ends passes _ => exact passes.toKeeps
  | fails f passes _ => exact passes.toKeeps
  | aborts passes _ => exact passes.toKeeps

/-- A demand is met after the step of an activity that yields nothing else. -/
theorem Keeps.conduct {r : Machine × Turn α β} (keeps : m.Keeps r.1) (crew : id < m.workers.size)
    (now : good (m.controlOf id)) {wrap : α → Control} {finish : Machine → β → Machine}
    (moved : proceed id wrap finish r = some after)
    (yields : r.2.Yields goes ends fun f => good (.failed f))
    (wrapped : ∀ a, goes a → good (wrap a))
    (ended : ∀ b, ends b → good ((finish r.1 b).controlOf id)) : good (after.controlOf id) := by
  obtain ⟨next, turn⟩ := r
  have crew : id < next.workers.size := keeps.crew ▸ crew
  cases turn with
  | waits => cases moved
  | goes a =>
      cases moved
      rw [controlOf_setControl_self crew]
      exact wrapped a yields
  | ends b =>
      cases moved
      exact ended b yields
  | fails f =>
      cases moved
      rw [controlOf_setControl_self crew]
      exact yields
  | aborts label =>
      cases moved
      show good (next.controlOf id)
      rw [keeps.controls]
      exact now

/-- A worker that has found its own queue empty goes on with nothing in hand, or fails for want of
numbers. -/
theorem idle_idleStep (idle : ∀ c : Control, c.items id = [] → c.isFailed = false → good c)
    (uncounted : good (.failed .drainsUncounted)) (crew : id < m.workers.size) (w : Worker) :
    good ((m.idleStep id w).controlOf id) := by
  have rests := m.rests_idleStep id w
  generalize m.idleStep id w = after at rests
  -- the worker goes on with `c`
  have goes : ∀ {f : Worker → Worker} {c : Control}, c.items id = [] → c.isFailed = false →
      good ((setControl { m with workers := m.workers.modify id f } id c).controlOf id) := by
    intro f c nothing unfailed
    rw [controlOf_setControl_self (by simpa using crew)]
    exact idle c nothing unfailed
  cases rests with
  | visits =>
      refine goes (items_visiting id _) ?_
      cases w.thief.next.victims <;> rfl
  | overflows =>
      rw [controlOf_setControl_self crew]
      exact uncounted
  | returns => exact goes (c := .away) rfl rfl
  | leads => exact goes rfl rfl

/-- A demand that every activity meets is met after a step. -/
theorem Sound.conduct_step (sound : m.Sound) (conduct : m.Conduct id good)
    (now : good (m.controlOf id)) (stepped : m.step id = some after) :
    good (after.controlOf id) := by
  have base := sound.toBase
  have seated := sound.seated id
  obtain ⟨w, found, steps⟩ := step_cases stepped
  have crew : id < m.workers.size := (Array.getElem?_eq_some_iff.1 found).1
  -- whoever has come to the end of an activity has nothing in hand
  have idle : ∀ {next : Machine} {c : Control}, m.Keeps next → c.items id = [] →
      c.isFailed = false → good ((next.setControl id c).controlOf id) := by
    intro next c keeps nothing unfailed
    rw [controlOf_setControl_self (keeps.crew ▸ crew)]
    exact conduct.idle c nothing unfailed
  generalize here : m.controlOf id = c at seated steps
  cases steps with
  | submitting moved =>
      have keeps := keeps_of_leads (base.leads_submission (home_lt sound.manned id) seated.2) moved
      exact keeps.conduct crew now moved (conduct.submitting _ here) (fun _ next => next)
        fun _ _ => idle keeps rfl rfl
  | started | stopped => exact idle base.passes.toKeeps rfl rfl
  | looping =>
      refine idle base.passes.toKeeps ?_ ?_
      · split <;> rfl
      · split <;> rfl
  | @serving s _ moved =>
      have keeps := (base.idles_serveStep id w.seenRound s).toKeeps
      exact keeps.conduct crew now moved (conduct.serving s _ here)
        (fun _ _ => conduct.idle _ rfl rfl) fun _ _ => idle keeps rfl rfl
  | popping moved =>
      have keeps := keeps_of_leads (base.leads_taking id .pop seated.2) moved
      refine keeps.conduct crew now moved (conduct.popping _ here) (fun _ next => next)
        fun x found => ?_
      cases x with
      | none => exact idle_idleStep conduct.idle conduct.uncounted (keeps.crew ▸ crew) w
      | some t =>
          rw [controlOf_setControl_self (keeps.crew ▸ crew)]
          exact found t rfl
  | @stealing victim p rest _ moved =>
      have keeps := keeps_of_leads (base.leads_taking victim .steal seated.2) moved
      refine keeps.conduct crew now moved (conduct.stealing _ _ _ here) (fun _ next => next)
        fun x found => ?_
      cases x with
      | none =>
          refine idle keeps (items_visiting id rest) ?_
          cases rest <;> rfl
      | some t =>
          rw [controlOf_setControl_self (keeps.crew ▸ crew)]
          exact found t rfl
  | executing moved =>
      have keeps := keeps_of_leads (base.leads_execution seated.1 seated.2) moved
      refine keeps.conduct crew now moved (conduct.executing _ here) (fun _ next => next)
        fun _ _ => ?_
      cases duty : w.duty with
      | work => exact idle keeps rfl rfl
      | lead rounds => exact idle keeps rfl rfl
  | @leading l _ moved =>
      have keeps := (base.idles_leadStep id l).toKeeps
      refine keeps.conduct crew now moved (conduct.leading l here)
        (fun _ _ => conduct.idle _ rfl rfl) fun quiet _ => ?_
      split
      · exact idle keeps rfl rfl
      · exact idle keeps rfl rfl

/-- A demand that every activity meets is met after a turn. -/
theorem Sound.conduct_move (sound : m.Sound) {mv : Move} (conduct : m.Conduct mv.actor good)
    (now : good (m.controlOf mv.actor)) (moved : m.move mv = some after)
    (misses : ∀ round expected next,
      m.controlOf mv.actor = .serving (.swap round expected next) →
        (m.joining round m.barrier.word).Yields (fun _ => True) (fun _ => True)
          fun f => good (.failed f))
    (begins : ∀ before next s, m.controlOf mv.actor = before →
      m.Calls mv before next (.submitting s) → good (.submitting s)) :
    good (after.controlOf mv.actor) := by
  -- whoever has nothing in hand stays without
  have idle : ∀ {c : Control}, mv.actor < m.workers.size → c.items mv.actor = [] →
      c.isFailed = false → good ((m.setControl mv.actor c).controlOf mv.actor) := by
    intro c crew nothing unfailed
    rw [controlOf_setControl_self crew]
    exact conduct.idle c nothing unfailed
  cases move_cases moved with
  | step _ stepped => exact sound.conduct_step conduct now stepped
  | @miss id round expected next _ here missed =>
      have crew : id < m.workers.size := lt_of_controlOf (by simp [here])
      exact sound.toBase.passes.toKeeps.conduct (r := (m, _)) crew now missed
        (misses round expected next here) (fun _ _ => conduct.idle _ rfl rfl)
        fun _ _ => idle crew rfl rfl
  | call now calls =>
      rw [calls.controlOf_after now sound.toBase]
      rcases calls.outcome.2 with rfl | ⟨s, rfl⟩
      · exact conduct.idle _ rfl rfl
      · exact begins _ _ s now calls
  | start => exact now
  | stop _ => exact now
  | lead exclusive =>
      show good (m.enterBarrier.controlOf 0)
      rw [controlOf_enterBarrier (exclusive_cases exclusive).2.1.1]
      exact conduct.idle _ rfl rfl

end Machine

end AccessOrder.Pool
