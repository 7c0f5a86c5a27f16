/- # Wake-ups

Who is made to wait for a version waits in a slot that is found by its distance from the completed
version, which moves on.  Seen from the calls on a handle there are no slots: the tasks `registered`
for a version wait, in order, until the completed version is moved on to theirs, and the call that
does so returns them.

* `Awaited` : who waits on a handle after its calls;
* `woken_cases` : what a release returns;
* `wakeups_exact` : what becomes of the tasks that are offered to a handle, after any calls.
-/
import AccessOrder.Proofs.Handle.Grouping
namespace AccessOrder.Handle

variable {τ : Type} {kinds : Nat}

/-- The tasks that have been made to wait for a version, in order. -/
def registered (v : Version) : List (Event τ) → List τ
  | [] => []
  | .parked t u :: past => registered v past ++ if u = v then [t] else []
  | .scheduled .. :: past | .released .. :: past => registered v past

/-- Those who wait are the tasks that have been registered for versions not yet completed. -/
def Awaited (past : List (Event τ)) (w : View τ) : Prop :=
  ∀ v, w.waiting v = if w.completed < v then registered v past else []

/-- A call among `later`, which were made after `past`, has released a version and returned some
tasks; `older` are the calls among `later` that were made before it. -/
def Returns (kinds : Nat) (past later : List (Request τ)) (v : Version) (older : List (Request τ))
    (ts : List τ) : Prop :=
  .advance v :: older <:+ later ∧ ((after kinds (older ++ past)).respond (.advance v)).1 = .woken ts

/-! ## Who waits -/

/-- Those who wait when a task has been made to wait. -/
theorem Awaited.parked {past : List (Event τ)} {w : View τ} {t : τ} {v : Version}
    (awaited : Awaited past w) (ahead : w.completed < v) :
    Awaited (.parked t v :: past) (w.parked t v) := by
  intro u
  have before := awaited u
  show Function.update w.waiting v (w.waiting v ++ [t]) u =
    if w.completed < u then registered u past ++ (if v = u then [t] else []) else []
  by_cases same : u = v
  · subst same
    rw [Function.update_self, before, if_pos ahead, if_pos ahead, if_pos rfl]
  · rw [Function.update_of_ne same, before, if_neg (Ne.symm same), List.append_nil]

/-- Those who wait when a holder of the completed version has been released. -/
theorem Awaited.released {past : List (Event τ)} {w : View τ} {ts : List τ}
    (awaited : Awaited past w) :
    Awaited (.released w.completed ts :: past) (w.released w.completed) := by
  intro u
  have before := awaited u
  show _ = if _ < u then registered u past else []
  unfold View.released
  split
  · show Function.update w.waiting (w.completed + 1) [] u =
      if w.completed + 1 < u then registered u past else []
    by_cases same : u = w.completed + 1
    · subst same
      rw [Function.update_self, if_neg (Nat.lt_irrefl _)]
    · rw [Function.update_of_ne same, before]
      exact if_congr (by lia) rfl rfl
  · exact before

/-- Who waits on a handle after any calls. -/
theorem awaited_after (kinds : Nat) (past : List (Request τ)) :
    Awaited (history kinds past) (after kinds past).view := by
  refine history_induction (fun _ => True) ?_ ?_ ?_ ?_ ?_ past fun _ _ => trivial
  · rw [view_new]
    exact fun v => (ite_self _).symm
  · exact fun _ _ _ awaited => awaited
  · exact fun _ ahead _ awaited => awaited.parked ahead
  · exact fun _ _ awaited => awaited.released
  · exact fun awaited => awaited

/-- The tasks registered before further calls come before all others for their version. -/
theorem registered_prefix (v : Version) (later past : List (Request τ)) :
    registered v (history kinds past) <+: registered v (history kinds (later ++ past)) := by
  induction later with
  | nil => exact List.prefix_rfl
  | cons r later ih =>
      refine ih.trans ?_
      rw [List.cons_append, history]
      cases event? r ((after kinds (later ++ past)).respond r).1 with
      | none => exact List.prefix_rfl
      | some e =>
          cases e with
          | scheduled | released => exact List.prefix_rfl
          | parked t u => exact List.prefix_append ..

/-! ## The completed version -/

/-- A call moves the completed version on by one, as a release that has been answered, or not at
all. -/
theorem completed_cases (kinds : Nat) (r : Request τ) (past : List (Request τ)) :
    (after kinds (r :: past)).completed = (after kinds past).completed ∨
      (after kinds (r :: past)).completed = (after kinds past).completed + 1 ∧
        r = .advance (after kinds past).completed ∧
        ∃ ts, ((after kinds past).respond r).1 = .woken ts := by
  have now := responds_after kinds r past
  show (after kinds (r :: past)).view.completed = (after kinds past).view.completed ∨
    (after kinds (r :: past)).view.completed = (after kinds past).view.completed + 1 ∧
      r = .advance (after kinds past).view.completed ∧ _
  generalize (after kinds past).view = w at now
  generalize ((after kinds past).respond r).1 = answer at now
  generalize (after kinds (r :: past)).view = w' at now
  cases now with
  | schedule | register | idle => exact .inl rfl
  | advance holder =>
      rw [View.completed_released rfl]
      split
      · exact .inr ⟨rfl, rfl, _, rfl⟩
      · exact .inl rfl

/-- The completed version does not go back. -/
theorem completed_mono (kinds : Nat) {older later : List (Request τ)} (suffix : older <:+ later)
    (past : List (Request τ)) :
    (after kinds (older ++ past)).completed ≤ (after kinds (later ++ past)).completed := by
  obtain ⟨newer, rfl⟩ := suffix
  rw [List.append_assoc]
  induction newer with
  | nil => exact Nat.le_refl _
  | cons r newer ih =>
      have now := completed_cases kinds r (newer ++ (older ++ past))
      rw [List.cons_append]
      lia

/-- What a release returns: those who have been registered for the next version if it moves the
completed version on to it, as the last release of its version does, and else nobody. -/
theorem woken_cases {past : List (Request τ)} {v : Version} {ts : List τ}
    (woken : ((after kinds past).respond (.advance v)).1 = .woken ts) :
    (after kinds past).completed = v ∧
      (reserved (history kinds past) v = returned (history kinds past) v + 1 ∧
          (after kinds (.advance v :: past)).completed = v + 1 ∧
          ts = registered (v + 1) (history kinds past) ∨
        returned (history kinds past) v + 1 < reserved (history kinds past) v ∧
          (after kinds (.advance v :: past)).completed = v ∧ ts = []) := by
  obtain ⟨here, holder, result, released⟩ := released_of_woken woken
  have here' : (after kinds past).view.completed = v := here
  have counted := (counted_after kinds past).holders v
  have completed : (after kinds (.advance v :: past)).completed = _ :=
    (congrArg View.completed released).trans (View.completed_released here')
  refine ⟨here, ?_⟩
  unfold View.woken at result
  by_cases last : (after kinds past).view.holders v = 1
  · rw [if_pos last] at completed result
    have awaited := awaited_after kinds past (v + 1)
    rw [if_pos (here' ▸ Nat.lt_succ_self _)] at awaited
    exact .inl ⟨by lia, completed, result.trans awaited⟩
  · rw [if_neg last] at completed result
    exact .inr ⟨by lia, completed, result⟩

/-! ## One task -/

/-- Who is accepted for a version comes after all who have been registered for it, and the version
has not been reached. -/
theorem parked_of_registered {past : List (Request τ)} {t : τ} {v : Version}
    (accepted : ((after kinds past).respond (.register t v)).1 = .registered .parked) :
    (after kinds past).completed < v ∧
      (after kinds (.register t v :: past)).completed = (after kinds past).completed ∧
      registered v (history kinds (.register t v :: past)) =
        registered v (history kinds past) ++ [t] := by
  have now := responds_after kinds (.register t v) past
  have completed := completed_cases kinds (.register t v) past
  refine ⟨?_, completed.resolve_right fun moved => (nomatch moved.2.1), ?_⟩
  · show (after kinds past).view.completed < v
    rw [accepted] at now
    generalize (after kinds past).view = w at now
    generalize (after kinds (.register t v :: past)).view = w' at now
    cases now with
    | register ahead used => exact ahead
    | idle locked none => cases none
  · rw [history, accepted]
    show registered v (history kinds past) ++ (if v = v then [t] else []) = _
    rw [if_pos rfl]

/-- Once a version has been reached, one call has reached it: it has moved the completed version on
to it, and has returned those who were registered for it. -/
theorem exists_returns {past : List (Request τ)} {v : Version}
    (ahead : (after kinds past).completed < v) (later : List (Request τ))
    (reached : v ≤ (after kinds (later ++ past)).completed) :
    ∃ older ts, Returns kinds past later (v - 1) older ts ∧
      (after kinds (older ++ past)).completed + 1 = v ∧
      (after kinds (.advance (v - 1) :: older ++ past)).completed = v ∧
      ts = registered v (history kinds (older ++ past)) := by
  induction later with
  | nil => exact absurd reached (Nat.not_le.2 ahead)
  | cons r later ih =>
      by_cases earlier : v ≤ (after kinds (later ++ past)).completed
      · obtain ⟨older, ts, ⟨among, woken⟩, rest⟩ := ih earlier
        exact ⟨older, ts, ⟨among.trans (List.suffix_cons ..), woken⟩, rest⟩
      · have moved := (completed_cases kinds r (later ++ past)).resolve_left fun stays => by
          rw [List.cons_append, stays] at reached
          exact earlier reached
        obtain ⟨completed, rfl, ts, woken⟩ := moved
        rw [List.cons_append, completed] at reached
        obtain rfl : v = (after kinds (later ++ past)).completed + 1 := by lia
        refine ⟨later, ts, ⟨List.suffix_rfl, woken⟩, rfl, completed, ?_⟩
        rcases (woken_cases woken).2 with ⟨-, -, all⟩ | ⟨-, stays, -⟩
        · exact all
        · exact absurd (completed.symm.trans stays) (Nat.succ_ne_self _)

/-- A call that returns somebody has moved the completed version on, so there is no other one like
it. -/
theorem Returns.unique {past later older older' : List (Request τ)} {v : Version}
    {ts ts' : List τ} (returns : Returns kinds past later v older ts)
    (returns' : Returns kinds past later v older' ts')
    (moved : (after kinds (.advance v :: older ++ past)).completed = v + 1)
    (somebody : ts' ≠ []) : older' = older := by
  -- what comes after a call that has moved the completed version on does not find it where it was
  have apart : ∀ {a b : List (Request τ)},
      (after kinds (.advance v :: a ++ past)).completed = v + 1 →
      (after kinds (b ++ past)).completed = v → ¬ .advance v :: a <:+ b := by
    intro a b moved here suffix
    have mono := completed_mono kinds suffix past
    lia
  obtain ⟨here, -⟩ := woken_cases returns.2
  obtain ⟨here', moved' | ⟨-, -, nobody⟩⟩ := woken_cases returns'.2
  · rcases List.suffix_or_suffix_of_suffix returns.1 returns'.1 with suffix | suffix <;>
      rcases List.suffix_cons_iff.1 suffix with same | inside
    · exact (List.cons.inj same).2.symm
    · exact absurd inside (apart moved here')
    · exact (List.cons.inj same).2
    · exact absurd inside (apart moved'.2.1 here)
  · exact absurd nobody somebody

/-- After any calls on a handle, whatever has been asked and however it has been answered:

nobody waits in the slot of the completed version, and those who wait in the slot of a later version
are those who have been registered for it, in order;

a release returns those who have been registered for the next version, in order, if it is the last
one of its version, which moves the completed version on by one, and nobody otherwise;

a task that is offered for the completed version is handed back, and the handle stays as it is;

a task that is accepted for a version keeps its place among those who wait for it, and no call
returns anybody for that version, until one call moves the completed version on to it; that call
returns the task, at its place, and no other call returns anybody for that version. -/
theorem wakeups_exact (kinds : Nat) (past : List (Request τ)) :
    let h := after kinds past
    let events := history kinds past
    (∀ i, (h.slots[i]?).elim [] Slot.listeners =
      if i = 0 then [] else registered (h.completed + i) events) ∧
    (∀ v ts, (h.respond (.advance v)).1 = .woken ts → h.completed = v ∧
      (reserved events v = returned events v + 1 ∧
          (h.respond (.advance v)).2.completed = v + 1 ∧ ts = registered (v + 1) events ∨
        returned events v + 1 < reserved events v ∧
          (h.respond (.advance v)).2.completed = v ∧ ts = [])) ∧
    (∀ t, h.respond (.register t h.completed) = (.registered (.handedBack t), h)) ∧
    ∀ t v, (h.respond (.register t v)).1 = .registered .parked → ∀ later : List (Request τ),
      let accepted := .register t v :: past
      let h' := after kinds (later ++ accepted)
      (h'.completed < v ∧
          registered v events ++ [t] <+: (h'.slots[v - h'.completed]?).elim [] Slot.listeners ∧
          ∀ older ts, Returns kinds accepted later (v - 1) older ts → ts = []) ∨
        v ≤ h'.completed ∧ ∃ older ts, Returns kinds accepted later (v - 1) older ts ∧
          (after kinds (older ++ accepted)).completed + 1 = v ∧
          (after kinds (.advance (v - 1) :: older ++ accepted)).completed = v ∧
          registered v events ++ [t] <+: ts ∧
          ∀ older' ts', Returns kinds accepted later (v - 1) older' ts' → ts' ≠ [] →
            older' = older := by
  -- who waits in a slot
  have stored : ∀ (past : List (Request τ)) (i : Nat),
      ((after kinds past).slots[i]?).elim [] Slot.listeners = if i = 0 then [] else
        registered ((after kinds past).completed + i) (history kinds past) := by
    intro past i
    have awaited := awaited_after kinds past ((after kinds past).completed + i)
    rw [waiting_view, slotOf, if_neg (Nat.not_lt.2 (Nat.le_add_right _ _)),
      Nat.add_sub_cancel_left] at awaited
    rw [awaited]
    show (if (after kinds past).completed < (after kinds past).completed + i then _ else _) = _
    by_cases none : i = 0
    · rw [if_pos none, if_neg (by lia)]
    · rw [if_neg none, if_pos (by lia)]
  intro h events
  refine ⟨stored past, fun v ts => woken_cases, fun t => ?_, fun t v parked later => ?_⟩
  · rw [respond, register, if_pos rfl]
    rfl
  · intro accepted h'
    obtain ⟨ahead, same, place⟩ := parked_of_registered parked
    have ahead' : (after kinds accepted).completed < v := same ▸ ahead
    rcases Nat.lt_or_ge h'.completed v with waits | reached
    · refine .inl ⟨waits, ?_, fun older ts returns => ?_⟩
      · rw [stored (later ++ accepted), if_neg (by lia), Nat.add_sub_cancel' waits.le, ← place]
        exact registered_prefix v later accepted
      · rcases (woken_cases returns.2).2 with ⟨-, moved, -⟩ | ⟨-, -, nobody⟩
        · have mono := completed_mono kinds returns.1 accepted
          have : (after kinds (.advance (v - 1) :: older ++ accepted)).completed = v - 1 + 1 :=
            moved
          lia
        · exact nobody
    · obtain ⟨older, ts, returns, before, moved, all⟩ := exists_returns ahead' later reached
      refine .inr ⟨reached, older, ts, returns, before, moved, ?_, fun older' ts' returns' => ?_⟩
      · rw [all, ← place]
        exact registered_prefix v older accepted
      · exact returns.unique returns' (by lia)

/-- A task that waits for the version of a write is returned when the read before it is released. -/
theorem waiting_write_woken :
    let write : Access.Kind := ⟨1, "Write", .write, some 1⟩
    ∃ older ts, Returns 3 [.register 7 1, .schedule write, .schedule readKind] [.advance 0] 0
      older ts ∧ [7] <+: ts := by
  intro write
  have parked : ((after 3 [.schedule write, .schedule readKind]).respond (.register 7 1)).1 =
      .registered .parked := rfl
  obtain ⟨-, -, -, keeps⟩ := wakeups_exact 3 [.schedule write, .schedule readKind]
  rcases keeps 7 1 parked [.advance 0] with ⟨waits, -⟩ | ⟨-, older, ts, returns, -, -, mine, -⟩
  · exact absurd waits (by decide)
  · exact ⟨older, ts, returns, mine⟩

end AccessOrder.Handle
