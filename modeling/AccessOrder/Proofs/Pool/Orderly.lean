/- # Orderly pools stay orderly

Every deed of a worker or a caller keeps a pool orderly: most change one item in hand, some pass an
item on to a queue or a wait list, or take some from there.

* `Housed.sound` : nobody falls as long as everything is housed;
* `Housed.deed`, `Orderly.deed` : every deed keeps everything housed, and a pool orderly;
* `Runs.orderly` : every run of a pool keeps it sound and orderly.
-/
import AccessOrder.Proofs.Pool.Turns
import AccessOrder.Proofs.Pool.Whereabouts
namespace AccessOrder.Pool

open Function (update)

variable {past e : List Moment} {w w' : World} {hands : WorkerId → List Item} {id : WorkerId}
  {xs : List Item}

/-- What happens to a task without getting or releasing a version. -/
def Moment.Plain : Moment → Prop
  | .scheduled .. | .released .. => False
  | _ => True

/-- The ledger tells of nothing but versions. -/
theorem Ledger.plain {units : HandleId → Handle.View Task} (ledger : Ledger past units) {x : Moment}
    (plain : x.Plain) : Ledger (x :: past) units := by
  cases x with
  | scheduled s d => cases plain
  | released s d => cases plain
  | accepted s | started s | returned s | disposed s =>
      exact ⟨ledger.sound, ledger.holders, ledger.unused, ledger.newest, ledger.ordered⟩

/-- The dependency for which an accepted task may have to wait is unreleased. -/
theorem unreleased_of_blocker {t : Task} {d : Dependency} (fit : Fit w t)
    (tells : about t.serial past = story t.serial t.dependencies .accepted)
    (blocked : t.blocker? = some d) : (t.serial, d) ∈ unreleased past := by
  rw [mem_unreleased_about, tells]
  exact (mem_unreleased_story (nodup_of_handles fit.distinct) .accepted d).2
    ⟨List.mem_of_getElem? blocked, List.not_mem_nil⟩

/-- The handles whose locks are to be taken are known. -/
theorem Fit.lt_of_lockHandles {t : Task} (fit : Fit w t) {h : HandleId} (mem : h ∈ t.lockHandles) :
    h < w.count := by
  obtain ⟨d, needed, rfl⟩ := List.mem_map.1 (t.lockHandles_perm.mem_iff.1 mem)
  exact fit.known d (List.mem_filter.1 needed).1

/-- What is in hand tells what has happened, and is what it should be. -/
theorem Housed.in_hand (housed : Housed past w hands) {x : Item} (here : hands id = x :: xs) :
    x.Tells past ∧ x.Fits w := by
  have mem : x ∈ w.items hands (.hands id) := by
    show x ∈ hands id
    rw [here]
    exact List.mem_cons_self
  exact ⟨housed.tells _ x mem, housed.fits _ x mem⟩

/-- What a change of a handle leaves as it is. -/
theorem World.setUnit_same (w : World) (h : HandleId) (u : Handle.View Task) {α : Type}
    (f : Handle.View Task → α) (same : f u = f (w.units h)) (o : HandleId) :
    f ((w.setUnit h u).units o) = f (w.units o) := by
  show f (update w.units h u o) = _
  rw [Function.update_apply]
  split
  · next own => rw [same, own]
  · rfl

/-- Nobody falls as long as everything is housed. -/
theorem Housed.sound (housed : Housed past w hands) : ¬Broken w (hands id) := by
  have tells := housed.tells (.hands id)
  have fits := housed.fits (.hands id)
  intro broken
  cases broken with
  | stray stray =>
      cases stray with
      | bound mem outside => exact Nat.not_lt_of_le outside (fits _ mem).2.1
      | guard mem outside => exact Nat.not_lt_of_le outside (fits _ mem)
  | fault fault =>
      cases fault with
      | wait mem blocked unused =>
          have held := unreleased_of_blocker (fits _ mem).toFit (tells _ mem) blocked
          exact unused (housed.ledger.in_use held)
      | work mem none => exact (fits _ mem).work none
      | lock mem outside =>
          obtain ⟨fit, -, locks⟩ := fits _ mem
          refine Nat.not_lt_of_le outside (fit.lt_of_lockHandles ?_)
          rw [← locks]
          exact List.mem_append_right _ List.mem_cons_self
      | @unlock f h held mem holds free =>
          have locked : (w.units h).locked = true := by
            refine (housed.latches h).2 ⟨.hands id, mem_keysOf.2 ⟨_, mem, ?_⟩⟩
            simp [Item.keys, holds]
          rw [free] at locked
          cases locked
      | @release f d todo mem unheld =>
          have claim : d ∈ (Item.running f (.releasing (d :: todo))).claims := List.mem_cons_self
          obtain ⟨s, -, held⟩ := unreleased_of_claims (tells _ mem) (fits _ mem) claim
          exact unheld ⟨(fits _ mem).2.1 d claim, housed.ledger.holder held⟩

/-! ## Changes in hand -/

/-- Only the items of tasks tell of tasks. -/
theorem not_guard_of_keys {x : Item} {s : Nat} (mine : .task s ∈ x.keys) (q : WorkerId)
    (changed : Bool) : .guard q changed ∉ [x] := by
  intro same
  cases List.mem_singleton.1 same
  cases List.mem_singleton.1 mine

/-- An item in hand becomes another one by which the same is held. -/
theorem Housed.becomes (housed : Housed past w hands) {x y : Item} (here : hands id = x :: xs)
    {s : Nat} (mine : .task s ∈ x.keys) (keys : y.keys = x.keys) (own : ∀ z ∈ e, z.serial = s)
    (ledger : Ledger (e ++ past) w.units) (tells : y.Tells (e ++ past)) (fits : y.Fits w) :
    Housed (e ++ past) w (update hands id (y :: xs)) := by
  have exchange : Exchange (w.items hands) (w.items (update hands id (y :: xs))) _ _ [x] [y] _ :=
    exchange_in_hands here rfl rfl rfl rfl fun _ => rfl
  have same : keysOf [y] = keysOf [x] := by
    rw [keysOf, List.flatMap_singleton, keysOf, List.flatMap_singleton, keys]
  refine housed.relabel exchange same ledger (fun _ => Nat.le_refl _) rfl rfl rfl
    (fun z mem => ?_) (by simpa using tells) (by simpa using fits) (fun _ => rfl) rfl fun q =>
      .inr (.inr ⟨rfl, rfl, not_guard_of_keys mine q true⟩)
  rw [own z mem]
  exact mem_keysOf.2 ⟨x, List.mem_cons_self, mine⟩

/-- A task in hand is given up. -/
theorem Housed.drops (housed : Housed past w hands) {x : Item} (here : hands id = x :: xs)
    {s : Nat} (mine : x.keys = [.task s]) (own : ∀ z ∈ e, z.serial = s)
    (ledger : Ledger (e ++ past) w.units) (lost : Lost s (about s (e ++ past))) :
    Housed (e ++ past) w (update hands id xs) := by
  have exchange : Exchange (w.items hands) (w.items (update hands id xs)) _ _ [x] [] _ :=
    exchange_in_hands here rfl rfl rfl rfl fun _ => rfl
  have keys : keysOf [x] = [.task s] := (List.flatMap_singleton ..).trans mine
  refine housed.loses exchange (k := .task s) (.of_eq keys)
    (fun z mem => congrArg _ (own z mem).symm) ledger (fun _ => rfl) rfl rfl rfl (by simp)
    (by simp) (fun s' same => ?_) (fun h => by simp) (fun q => by simp)
    (fun q => ⟨rfl, rfl, not_guard_of_keys (mine ▸ List.mem_cons_self) q true⟩)
  cases same
  exact lost

/-! ## Building and handing in -/

/-- A task is begun. -/
theorem Housed.begin (housed : Housed past w hands) {d : Draft} (serial : d.serial = w.begun)
    (resolved : d.resolved = []) (distinct : (d.pending.map Access.Located.handle).Nodup) :
    Housed past w.begin (update hands id (.draft d :: hands id)) := by
  have exchange : Exchange (w.items hands)
      (w.begin.items (update hands id (.draft d :: hands id))) _ _ [] [.draft d] _ :=
    exchange_in_hands rfl rfl rfl rfl rfl fun _ => rfl
  have keys : keysOf [.draft d] = [.task w.begun] := by
    rw [keysOf, List.flatMap_singleton, Item.keys, serial]
  have unkept : ¬Kept (w.keys hands) (.task w.begun) := by
    rintro ⟨p, mem⟩
    obtain ⟨x, mem, mine⟩ := mem_keysOf.1 mem
    exact Nat.lt_irrefl _ (begun_of_keys (housed.fits p x mem) mine)
  refine housed.gains exchange (.of_eq keys) unkept housed.ledger (fun _ => rfl) (Nat.le_succ _)
    rfl rfl (fun x mem => ?_) (fun x mem => ?_) (fun h => by simp [World.begin])
    (fun q => by simp [World.begin]) (fun q => ⟨rfl, rfl, List.not_mem_nil⟩)
  · cases List.mem_singleton.1 mem
    show about d.serial past = story d.serial d.resolved .planned
    rw [housed.fresh _ (Nat.le_of_eq serial.symm), resolved]
    rfl
  · cases List.mem_singleton.1 mem
    refine ⟨serial ▸ Nat.lt_succ_self _, ?_, ?_⟩
    · simpa [resolved] using distinct
    · rw [resolved]
      simp

/-- An access gets its version. -/
theorem Housed.schedule (housed : Housed past w hands) {d : Draft} {a : Access.Located}
    {pending : List Access.Located} {v : Version} (here : hands id = .draft d :: xs)
    (next : d.pending = a :: pending) (inside : a.handle < w.count)
    (offered : (w.units a.handle).Offers a.kind v) :
    Housed (.scheduled d.serial ⟨a, v⟩ :: past)
      (w.setUnit a.handle ((w.units a.handle).scheduled a.kind v))
      (update hands id (.draft (d.resolve a pending v) :: xs)) := by
  have left {α : Type} (f : Handle.View Task → α) :=
    w.setUnit_same a.handle ((w.units a.handle).scheduled a.kind v) f
  have exchange : Exchange (w.items hands)
      ((w.setUnit a.handle ((w.units a.handle).scheduled a.kind v)).items
        (update hands id (.draft (d.resolve a pending v) :: xs)))
      _ _ [.draft d] [.draft (d.resolve a pending v)] _ :=
    exchange_in_hands here rfl rfl rfl rfl (left Handle.View.waiting rfl)
  have told : about d.serial past = story d.serial d.resolved .planned := (housed.in_hand here).1
  obtain ⟨begun, distinct, known⟩ := (housed.in_hand here).2
  refine housed.relabel (e := [_]) exchange rfl (housed.ledger.schedule d.serial offered)
    (fun h => Nat.le_of_eq (left Handle.View.completed rfl h).symm) rfl rfl rfl
    (fun z mem => ?_) (fun x mem => ?_) (fun x mem => ?_) (left Handle.View.locked rfl) rfl
    (fun q => .inr (.inr ⟨rfl, rfl, by simp⟩))
  · cases List.mem_singleton.1 mem
    exact List.mem_cons_self
  · cases List.mem_singleton.1 mem
    have next : about d.serial (.scheduled d.serial ⟨a, v⟩ :: past) = _ := about_next rfl told
    exact next.trans (by simp [story, plan, Draft.resolve])
  · cases List.mem_singleton.1 mem
    refine ⟨begun, ?_, fun e mem => ?_⟩
    · rw [next] at distinct
      simpa [Draft.resolve] using distinct
    · rcases List.mem_append.1 mem with mem | mem
      · exact known e mem
      · cases List.mem_singleton.1 mem
        exact inside

/-- What is in hand and what is kept are exchanged for each other. -/
theorem Housed.passes_kept (housed : Housed past w hands) {ys : List Item} {ts : List Task}
    (same : (hands id ++ w.kept.map Item.arriving).Perm (ys ++ ts.map Item.arriving)) :
    Housed past (w.setKept ts) (update hands id ys) := by
  have exchange : Exchange (w.items hands) ((w.setKept ts).items (update hands id ys)) (.hands id)
      .kept [] [] (hands id ++ w.kept.map Item.arriving) := by
    refine ⟨by simp, fun o notp notq => ?_, .refl _, ?_⟩
    · cases o with
      | hands other =>
          exact Function.update_of_ne (fun same : other = id => notp (congrArg Place.hands same)) ..
      | queue q | waiting h v => rfl
      | kept => exact absurd rfl notq
    · show (update hands id ys id ++ ts.map Item.arriving).Perm _
      rw [Function.update_self]
      exact same.symm
  exact housed.relabel (e := []) exchange rfl housed.ledger (fun _ => Nat.le_refl _) rfl rfl rfl
    (by simp) (by simp) (by simp) (fun _ => rfl) rfl
    (fun q => .inr (.inr ⟨rfl, rfl, List.not_mem_nil⟩))

/-! ## Waiting -/

/-- Items go between the hands of someone and those who wait for a version. -/
theorem exchange_with_waiting {h : HandleId} {v : Version} {u : Handle.View Task} {ys : List Item}
    {old new rest : List Item} (others : ∀ o ≠ v, u.waiting o = (w.units h).waiting o)
    (before : (hands id ++ looseItems ((w.units h).waiting v)).Perm (old ++ rest))
    (after : (ys ++ looseItems (u.waiting v)).Perm (new ++ rest)) :
    Exchange (w.items hands) ((w.setUnit h u).items (update hands id ys)) (.hands id)
      (.waiting h v) old new rest where
  different := by simp
  others o notp notq := by
    cases o with
    | hands other =>
        exact Function.update_of_ne (fun same : other = id => notp (congrArg Place.hands same)) ..
    | queue q => rfl
    | waiting h' v' =>
        show looseItems ((update w.units h u h').waiting v') = _
        rw [Function.update_apply]
        split
        · next same =>
          subst same
          exact congrArg looseItems (others v' fun late => notq (late ▸ rfl))
        · rfl
    | kept => rfl
  before := before
  after := by
    show (update hands id ys id ++ looseItems ((update w.units h u h).waiting v)).Perm _
    rw [Function.update_self, Function.update_self]
    exact after

/-- A task is made to wait for a version. -/
theorem Housed.park (housed : Housed past w hands) {t : Task} {h : HandleId} {v : Version}
    (here : hands id = .loose t :: xs)
    (range : (w.units h).completed < v ∧ v < (w.units h).frontier) :
    Housed past (w.setUnit h ((w.units h).parked t v)) (update hands id xs) := by
  have left {α : Type} (f : Handle.View Task → α) :=
    w.setUnit_same h ((w.units h).parked t v) f
  have late : ((w.units h).parked t v).waiting v = (w.units h).waiting v ++ [t] :=
    Function.update_self ..
  have others : ∀ o ≠ v, ((w.units h).parked t v).waiting o = (w.units h).waiting o :=
    fun o other => Function.update_of_ne other ..
  have exchange : Exchange (w.items hands)
      ((w.setUnit h ((w.units h).parked t v)).items (update hands id xs))
      (.hands id) (.waiting h v) [] [] (.loose t :: xs ++ looseItems ((w.units h).waiting v)) := by
    refine exchange_with_waiting others ?_ ?_
    · rw [here]
      exact .refl _
    · rw [late, looseItems, List.map_append, ← List.append_assoc]
      exact List.perm_append_comm
  exact housed.relabel (e := []) exchange rfl
    (housed.ledger.steady ((housed.ledger.sound h).parked t range) rfl rfl rfl)
    (fun o => Nat.le_of_eq (left Handle.View.completed rfl o).symm) rfl rfl rfl (by simp)
    (by simp) (by simp) (left Handle.View.locked rfl) rfl
    (fun q => .inr (.inr ⟨rfl, rfl, List.not_mem_nil⟩))

/-! ## Queues -/

/-- Only the queue of which something is changed is changed. -/
theorem World.queue_setQueue (w : World) (q : WorkerId) (ts : List Task) (o : WorkerId) :
    (w.setQueue q ts).queue o = if o = q then ts else w.queue o := Function.update_apply ..

/-- Items are passed on between what is in hand and a queue. -/
theorem exchange_with_queue {q : WorkerId} {ys : List Item} {ts : List Task}
    {old new rest : List Item}
    (before : (hands id ++ (w.queue q).map (Item.bound · q)).Perm (old ++ rest))
    (after : (ys ++ ts.map (Item.bound · q)).Perm (new ++ rest)) :
    Exchange (w.items hands) ((w.setQueue q ts).items (update hands id ys)) (.hands id) (.queue q)
      old new rest where
  different := by simp
  others o notp notq := by
    cases o with
    | hands other =>
        exact Function.update_of_ne (fun same : other = id => notp (congrArg Place.hands same)) ..
    | queue p =>
        show ((w.setQueue q ts).queue p).map _ = _
        rw [w.queue_setQueue, if_neg fun same => notq (congrArg Place.queue same)]
        rfl
    | waiting h v | kept => rfl
  before := before
  after := by
    show (update hands id ys id ++ ((w.setQueue q ts).queue q).map _).Perm _
    rw [Function.update_self, w.queue_setQueue, if_pos rfl]
    exact after

/-- The lock of a queue is taken. -/
theorem Housed.acquire (housed : Housed past w hands) {q : WorkerId} (inside : q < w.size)
    (free : w.held q = false) :
    Housed past (w.setHeld q true) (update hands id (.guard q false :: hands id)) := by
  have exchange : Exchange (w.items hands)
      ((w.setHeld q true).items (update hands id (.guard q false :: hands id))) _ _ []
      [.guard q false] _ :=
    exchange_in_hands rfl rfl rfl rfl rfl fun _ => rfl
  have keys : keysOf [.guard q false] = [.guard q] := rfl
  have unkept : ¬Kept (w.keys hands) (.guard q) := by
    rw [← housed.guards, free]
    exact Bool.false_ne_true
  refine housed.gains exchange (.of_eq keys) unkept housed.ledger (fun _ => rfl) (Nat.le_refl _)
    rfl rfl (fun x mem => ?_) (fun x mem => ?_) (fun h => by simp [World.setHeld]) (fun o => ?_)
    (fun o => ⟨rfl, rfl, List.not_mem_nil⟩)
  · cases List.mem_singleton.1 mem
    trivial
  · cases List.mem_singleton.1 mem
    exact inside
  · show update w.held q true o = true ↔ _
    rw [Function.update_apply, Key.guard.injEq, eq_comm (a := q)]
    by_cases same : o = q <;> simp [same]

/-- The lock of a queue is given back. -/
theorem Housed.unguard (housed : Housed past w hands) {q : WorkerId}
    (here : hands id = .guard q false :: xs) :
    Housed past (w.setHeld q false) (update hands id xs) := by
  have exchange : Exchange (w.items hands) ((w.setHeld q false).items (update hands id xs)) _ _
      [.guard q false] [] _ :=
    exchange_in_hands here rfl rfl rfl rfl fun _ => rfl
  refine housed.loses (e := []) exchange (k := .guard q) (.refl _) (by simp) housed.ledger
    (fun _ => rfl) rfl rfl rfl (by simp) (by simp) (by simp) (fun h => by simp [World.setHeld])
    (fun o => ?_) (fun o => ⟨rfl, rfl, by simp⟩)
  show update w.held q false o = true ↔ _
  rw [Function.update_apply, Ne, Key.guard.injEq, eq_comm (a := q)]
  by_cases same : o = q <;> simp [same]

/-- A task is put into a queue. -/
theorem Housed.store (housed : Housed past w hands) {t : Task} {q : WorkerId} {ts : List Task}
    (here : hands id = .guard q false :: .bound t q :: xs) (same : ts.Perm (t :: w.queue q)) :
    Housed past (w.setQueue q ts) (update hands id (.guard q true :: xs)) := by
  have exchange : Exchange (w.items hands)
      ((w.setQueue q ts).items (update hands id (.guard q true :: xs))) (.hands id) (.queue q)
      [.guard q false] [.guard q true] (.bound t q :: xs ++ (w.queue q).map (.bound · q)) := by
    refine exchange_with_queue ?_ ?_
    · rw [here]
      exact .refl _
    · refine .cons _ ?_
      have put := (same.map (Item.bound · q)).append_left xs
      exact put.trans List.perm_middle
  refine housed.relabel (e := []) exchange rfl housed.ledger (fun _ => Nat.le_refl _) rfl rfl
    rfl (by simp) (fun x mem => ?_) (fun x mem => ?_) (fun _ => rfl) rfl (fun o => ?_)
  · cases List.mem_singleton.1 mem
    trivial
  · cases List.mem_singleton.1 mem
    exact (housed.in_hand here).2
  · by_cases changed : o = q
    · exact .inr (.inl (changed ▸ List.mem_cons_self))
    · refine .inr (.inr ⟨rfl, ?_, by simp⟩)
      rw [w.queue_setQueue, if_neg changed]

/-- A queue is searched for a task. -/
theorem Housed.fetch (housed : Housed past w hands) {x : Option Task} {q : WorkerId}
    {ts : List Task} (here : hands id = .guard q false :: xs)
    (same : (w.queue q).Perm (x.toList ++ ts)) :
    Housed past (w.setQueue q ts)
      (update hands id (.guard q true :: (looseItems x.toList ++ xs))) := by
  have exchange : Exchange (w.items hands)
      ((w.setQueue q ts).items (update hands id (.guard q true :: (looseItems x.toList ++ xs))))
      (.hands id) (.queue q) (.guard q false :: x.toList.map (.bound · q))
      (.guard q true :: looseItems x.toList)
      (xs ++ ts.map (.bound · q)) := by
    refine exchange_with_queue ?_ ?_
    · rw [here]
      refine .cons _ ?_
      have taken := (same.map (Item.bound · q)).append_left xs
      rw [List.map_append] at taken
      refine taken.trans ?_
      rw [← List.append_assoc]
      exact (List.perm_append_comm.append_right _).trans (.of_eq (List.append_assoc ..))
    · rw [List.cons_append, List.cons_append, List.append_assoc]
  have found : ∀ t ∈ x.toList, (Item.bound t q).Tells past ∧ (Item.bound t q).Fits w := by
    intro t mem
    have queued : Item.bound t q ∈ w.items hands (.queue q) :=
      List.mem_map_of_mem (same.mem_iff.2 (List.mem_append_left _ mem))
    exact ⟨housed.tells _ _ queued, housed.fits _ _ queued⟩
  refine housed.relabel (e := []) exchange ?_ housed.ledger (fun _ => Nat.le_refl _) rfl rfl
    rfl (by simp) (fun y mem => ?_) (fun y mem => ?_) (fun _ => rfl) rfl (fun o => ?_)
  · cases x <;> rfl
  · rcases List.mem_cons.1 mem with rfl | mem
    · trivial
    · obtain ⟨t, taken, rfl⟩ := List.mem_map.1 mem
      exact (found t taken).1
  · rcases List.mem_cons.1 mem with rfl | mem
    · exact (housed.in_hand here).2
    · obtain ⟨t, taken, rfl⟩ := List.mem_map.1 mem
      have fits : (Item.loose t).Fits w := (found t taken).2.1
      exact fits.mono (Nat.le_refl _) rfl rfl fun _ _ met => met
  · by_cases changed : o = q
    · exact .inr (.inl (changed ▸ List.mem_cons_self))
    · refine .inr (.inr ⟨rfl, ?_, by simp⟩)
      rw [w.queue_setQueue, if_neg changed]

/-- The length of a queue is published. -/
theorem Housed.publish (housed : Housed past w hands) {q : WorkerId}
    (here : hands id = .guard q true :: xs) :
    Housed past (w.publish q) (update hands id (.guard q false :: xs)) := by
  have exchange : Exchange (w.items hands)
      ((w.publish q).items (update hands id (.guard q false :: xs))) _ _ [.guard q true]
      [.guard q false] _ :=
    exchange_in_hands here rfl rfl rfl rfl fun _ => rfl
  refine housed.relabel (e := []) exchange rfl housed.ledger (fun _ => Nat.le_refl _) rfl rfl
    rfl (by simp) (fun x mem => ?_) (fun x mem => ?_) (fun _ => rfl) rfl (fun o => ?_)
  · cases List.mem_singleton.1 mem
    trivial
  · cases List.mem_singleton.1 mem
    exact (housed.in_hand here).2
  · by_cases changed : o = q
    · subst changed
      exact .inl (Function.update_self ..)
    · refine .inr (.inr ⟨Function.update_of_ne changed .., rfl, ?_⟩)
      simpa using changed

/-! ## Running -/

/-- Which handles are locked after a lock has been taken or given back. -/
theorem World.locked_setUnit (w : World) (h o : HandleId) (locked : Bool) :
    ((w.setUnit h ((w.units h).latched locked)).units o).locked =
      if o = h then locked else (w.units o).locked := by
  show (update w.units h _ o).locked = _
  rw [Function.update_apply]
  split <;> rfl

/-- The lock of a handle is taken. -/
theorem Housed.lock (housed : Housed past w hands) {f : Frame} {h : HandleId}
    {todo : List HandleId} (here : hands id = .running f (.locking (h :: todo)) :: xs)
    (free : (w.units h).locked = false) :
    Housed past (w.setUnit h ((w.units h).latched true))
      (update hands id (.running { f with held := h :: f.held } (.locking todo) :: xs)) := by
  have left {α : Type} (g : Handle.View Task → α) :=
    w.setUnit_same h ((w.units h).latched true) g
  have exchange : Exchange (w.items hands) ((w.setUnit h ((w.units h).latched true)).items
      (update hands id (.running { f with held := h :: f.held } (.locking todo) :: xs))) _ _
      [.running f (.locking (h :: todo))] [.running { f with held := h :: f.held } (.locking todo)]
      _ :=
    exchange_in_hands here rfl rfl rfl rfl (left Handle.View.waiting rfl)
  have gained : (keysOf [.running { f with held := h :: f.held } (.locking todo)]).Perm
      (.latch h :: keysOf [.running f (.locking (h :: todo))]) := .swap ..
  have unkept : ¬Kept (w.keys hands) (.latch h) := by
    rw [← housed.latches, free]
    exact Bool.false_ne_true
  have told := (housed.in_hand here).1
  obtain ⟨fit, met, locks⟩ := (housed.in_hand here).2
  refine housed.gains exchange gained unkept
    (housed.ledger.steady ((housed.ledger.sound h).latched true) rfl rfl rfl)
    (left Handle.View.completed rfl) (Nat.le_refl _) rfl rfl (fun x mem => ?_) (fun x mem => ?_)
    (fun o => ?_) (fun q => by simp [World.setUnit]) (fun q => ⟨rfl, rfl, by simp⟩)
  · cases List.mem_singleton.1 mem
    exact told
  · cases List.mem_singleton.1 mem
    refine ⟨fit.mono (Nat.le_refl _) rfl, fun d mem => ?_, ?_⟩
    · exact (left Handle.View.completed rfl d.handle).trans (met d mem)
    · simpa using locks
  · rw [w.locked_setUnit, Key.latch.injEq, eq_comm (a := h)]
    by_cases same : o = h <;> simp [same]

/-- The lock of a handle is given back. -/
theorem Housed.unlock (housed : Housed past w hands) {f : Frame} {h : HandleId}
    {held : List HandleId} (here : hands id = .running f .unlocking :: xs)
    (holds : f.held = h :: held) :
    Housed past (w.setUnit h ((w.units h).latched false))
      (update hands id (.running { f with held := held } .unlocking :: xs)) := by
  have left {α : Type} (g : Handle.View Task → α) :=
    w.setUnit_same h ((w.units h).latched false) g
  have exchange : Exchange (w.items hands) ((w.setUnit h ((w.units h).latched false)).items
      (update hands id (.running { f with held := held } .unlocking :: xs))) _ _
      [.running f .unlocking] [.running { f with held := held } .unlocking] _ :=
    exchange_in_hands here rfl rfl rfl rfl (left Handle.View.waiting rfl)
  have lost : (keysOf [.running f .unlocking]).Perm
      (.latch h :: keysOf [.running { f with held := held } .unlocking]) := by
    simp only [keysOf, List.flatMap_singleton, Item.keys, holds, List.map_cons]
    exact .swap ..
  have told := (housed.in_hand here).1
  obtain ⟨fit, met⟩ := (housed.in_hand here).2
  refine housed.loses (e := []) exchange lost (by simp)
    (housed.ledger.steady ((housed.ledger.sound h).latched false) rfl rfl rfl)
    (left Handle.View.completed rfl) rfl rfl rfl (fun x mem => ?_) (fun x mem => ?_) (by simp)
    (fun o => ?_) (fun q => by simp [World.setUnit]) (fun q => ⟨rfl, rfl, by simp⟩)
  · cases List.mem_singleton.1 mem
    exact told
  · cases List.mem_singleton.1 mem
    refine ⟨fit.mono (Nat.le_refl _) rfl, fun d mem => ?_⟩
    exact (left Handle.View.completed rfl d.handle).trans (met d mem)
  · rw [w.locked_setUnit, Ne, Key.latch.injEq, eq_comm (a := h)]
    by_cases same : o = h <;> simp [same]

/-- The version of an access is released, which may wake those who wait for the next one. -/
theorem Housed.release (housed : Housed past w hands) {f : Frame} {d : Dependency}
    {todo : List Dependency} (here : hands id = .running f (.releasing (d :: todo)) :: xs)
    (completed : (w.units d.handle).completed = d.version) :
    Housed (.released f.task.serial d :: past)
      (w.setUnit d.handle ((w.units d.handle).released d.version))
      (update hands id (looseItems ((w.units d.handle).woken d.version) ++
        .running f (.releasing todo) :: xs)) := by
  have left {α : Type} (g : Handle.View Task → α) :=
    w.setUnit_same d.handle ((w.units d.handle).released d.version) g
  have woken : looseItems ((w.units d.handle).woken d.version) ++ looseItems
      (((w.units d.handle).released d.version).waiting (d.version + 1)) =
        looseItems ((w.units d.handle).waiting (d.version + 1)) := by
    rw [looseItems, looseItems, ← List.map_append, Handle.View.woken_append_waiting]
    rfl
  have exchange : Exchange (w.items hands)
      ((w.setUnit d.handle ((w.units d.handle).released d.version)).items
        (update hands id (looseItems ((w.units d.handle).woken d.version) ++
          .running f (.releasing todo) :: xs)))
      (.hands id) (.waiting d.handle (d.version + 1)) [.running f (.releasing (d :: todo))]
      [.running f (.releasing todo)]
      (xs ++ looseItems ((w.units d.handle).waiting (d.version + 1))) := by
    refine exchange_with_waiting (fun v other => Handle.View.waiting_released_of_ne other) ?_ ?_
    · rw [here]
      exact .refl _
    · rw [← woken, List.append_assoc]
      refine List.perm_append_comm.trans ?_
      rw [List.cons_append, List.cons_append, List.singleton_append, List.append_assoc]
      exact .cons _ (.append_left _ List.perm_append_comm)
  obtain ⟨s, own, held⟩ := unreleased_of_claims (housed.in_hand here).1 (housed.in_hand here).2
    (d := d) List.mem_cons_self
  obtain rfl : s = f.task.serial := by simpa [Item.keys] using own
  obtain ⟨done, split, told⟩ := (housed.in_hand here).1
  obtain ⟨fit, met, unheld⟩ := (housed.in_hand here).2
  -- what is still to be released is of other handles, so it stays met
  have others : ∀ e ∈ todo, e.handle ≠ d.handle := by
    have distinct := fit.distinct
    rw [split, List.map_append, List.nodup_append, List.map_cons, List.nodup_cons] at distinct
    exact fun e mem same => distinct.2.1.1 (same ▸ List.mem_map_of_mem mem)
  refine housed.relabel (e := [_]) exchange rfl (housed.ledger.release held completed)
    (fun h => ?_) rfl rfl rfl (fun y mem => ?_) (fun x mem => ?_) (fun x mem => ?_)
    (left Handle.View.locked (Handle.View.locked_released ..)) rfl
    (fun q => .inr (.inr ⟨rfl, rfl, by simp⟩))
  · show _ ≤ (update w.units d.handle _ h).completed
    rw [Function.update_apply]
    split
    · next same =>
      rw [same, ← completed]
      exact Handle.View.completed_le_released _
    · exact Nat.le_refl _
  · cases List.mem_singleton.1 mem
    exact List.mem_cons_self
  · cases List.mem_singleton.1 mem
    have next : about f.task.serial (.released f.task.serial d :: past) = _ := about_next rfl told
    exact ⟨done ++ [d], by simp [split], next.trans (by simp [story, releases])⟩
  · cases List.mem_singleton.1 mem
    refine ⟨fit.mono (Nat.le_refl _) rfl, fun e mem => ?_, unheld⟩
    show (update w.units d.handle _ e.handle).completed = _
    rw [Function.update_of_ne (others e mem)]
    exact met e (List.mem_cons_of_mem _ mem)

/-! ## Deeds -/

/-- Every deed keeps everything housed. -/
theorem Housed.deed (housed : Housed past w hands) {ys : List Item}
    (deed : Deed w (hands id) e w' ys) : Housed (e ++ past) w' (update hands id ys) := by
  generalize here : hands id = zs at deed
  cases deed with
  | still =>
      rw [← here, Function.update_eq_self]
      exact housed
  | begin d serial resolved distinct => exact here ▸ housed.begin serial resolved distinct
  | schedule next inside offered => exact housed.schedule here next inside offered
  | @unbuilt xs d =>
      have told : about d.serial past = story d.serial d.resolved .planned :=
        (housed.in_hand here).1
      have distinct := (List.nodup_append.1 (housed.in_hand here).2.2.1).1
      exact housed.drops (e := []) here rfl (by simp) housed.ledger
        ⟨d.resolved, nodup_of_handles distinct, .inl told⟩
  | @built xs d done =>
      have fits := (housed.in_hand here).2
      refine housed.becomes (e := []) here List.mem_cons_self rfl (by simp) housed.ledger
        (housed.in_hand here).1 ⟨⟨fits.1, ?_, fits.2.2⟩, Option.some_ne_none _, rfl⟩
      exact (List.nodup_append.1 fits.2.1).1
  | @keep xs t =>
      refine housed.passes_kept ?_
      rw [here]
      exact List.perm_middle.symm
  | @pick xs t ts same =>
      refine housed.passes_kept ?_
      rw [here]
      exact ((same.map Item.arriving).append_left zs).trans List.perm_middle
  | @accept xs t pins =>
      obtain ⟨fit, work, first⟩ := (housed.in_hand here).2
      refine housed.becomes (e := [_]) here List.mem_cons_self rfl (by simp [Moment.serial])
        (housed.ledger.plain trivial) (about_next rfl (housed.in_hand here).1)
        ⟨fit, work, pins, ?_⟩
      rw [first]
      simp
  | @acceptLazily xs t target pins inside pinned =>
      obtain ⟨fit, work, first⟩ := (housed.in_hand here).2
      refine housed.becomes (e := [_]) here List.mem_cons_self rfl (by simp [Moment.serial])
        (housed.ledger.plain trivial) (about_next rfl (housed.in_hand here).1)
        ⟨⟨fit, work, pins, ?_⟩, inside, pinned⟩
      rw [first]
      simp
  | @refused xs t =>
      exact housed.drops (e := []) here rfl (by simp) housed.ledger
        ⟨t.dependencies, nodup_of_handles (housed.in_hand here).2.1.distinct,
          .inl (housed.in_hand here).1⟩
  | @mark xs t d blocked met =>
      have fits : Pending w t := (housed.in_hand here).2
      refine housed.becomes (e := []) here List.mem_cons_self rfl (by simp) housed.ledger
        (housed.in_hand here).1
        ⟨⟨fits.begun, fits.distinct, fits.known⟩, fits.work, fits.pins, fun e mem => ?_⟩
      rw [Task.dependencies_mark, Task.cursor_mark, List.take_add_one] at mem
      rcases List.mem_append.1 mem with mem | mem
      · exact fits.met e mem
      · rw [show t.dependencies[t.cursor]? = some d from blocked] at mem
        cases List.mem_singleton.1 mem
        exact met
  | park blocked unmet used => exact housed.park here ⟨unmet, used⟩
  | @route xs t origin met inside =>
      have fits : Pending w t := (housed.in_hand here).2
      exact housed.becomes (e := []) here List.mem_cons_self rfl (by simp) housed.ledger
        (housed.in_hand here).1 ⟨fits, Machine.routeOf_lt inside fits.pins,
          fun q pinned => Machine.routeOf_of_pin pinned⟩
  | acquire inside free => exact here ▸ housed.acquire inside free
  | store same => exact housed.store here same
  | fetch same => exact housed.fetch here same
  | publish => exact housed.publish here
  | unguard => exact housed.unguard here
  | @take xs t work met some =>
      have fits : Pending w t := (housed.in_hand here).2
      refine housed.becomes (e := []) here List.mem_cons_self rfl (by simp) housed.ledger
        (housed.in_hand here).1 ⟨⟨fits.begun, fits.distinct, fits.known⟩, fun d mem => ?_, rfl⟩
      refine fits.met d ?_
      rwa [List.take_of_length_le (List.getElem?_eq_none_iff.1 met)]
  | lock inside free => exact housed.lock here free
  | @start xs f =>
      obtain ⟨fit, met, locks⟩ := (housed.in_hand here).2
      rw [List.append_nil] at locks
      exact housed.becomes (e := [_]) here List.mem_cons_self rfl (by simp [Moment.serial])
        (housed.ledger.plain trivial) (about_next rfl (housed.in_hand here).1) ⟨fit, met, locks⟩
  | @finish xs f =>
      obtain ⟨fit, met, locks⟩ := (housed.in_hand here).2
      exact housed.becomes (e := [_]) here List.mem_cons_self rfl (by simp [Moment.serial])
        (housed.ledger.plain trivial) (about_next rfl (housed.in_hand here).1) ⟨fit, met⟩
  | unlock held locked => exact housed.unlock here held
  | @unlocked xs f held =>
      obtain ⟨fit, met⟩ := (housed.in_hand here).2
      exact housed.becomes (e := []) here List.mem_cons_self rfl (by simp) housed.ledger
        ⟨[], rfl, (housed.in_hand here).1⟩ ⟨fit, met, held⟩
  | release completed holder => exact housed.release here completed
  | @dispose xs f =>
      obtain ⟨done, split, told⟩ := (housed.in_hand here).1
      obtain ⟨fit, -, held⟩ := (housed.in_hand here).2
      rw [List.append_nil] at split
      refine housed.drops (e := [_]) here (by rw [Item.keys, held]; rfl) (by simp [Moment.serial])
        (housed.ledger.plain trivial) ⟨f.task.dependencies, nodup_of_handles fit.distinct, .inr ?_⟩
      rw [← split] at told
      exact about_next rfl told
  | strands stray => exact absurd (.stray (here ▸ stray)) housed.sound
  | broken fault => exact absurd (.fault (here ▸ fault)) housed.sound

/-- Those who wait for a handle after a deed have waited for it before, or have just been in hand
and are held up by it. -/
theorem Deed.waiting_cases {ys : List Item} (deed : Deed w xs e w' ys) (unbroken : ¬Broken w xs)
    {t : Task} {h : HandleId} {v : Version} (waits : t ∈ (w'.units h).waiting v) :
    t ∈ (w.units h).waiting v ∨
      (.loose t ∈ xs ∧ ∃ d, t.blocker? = some d ∧ d.handle = h ∧ d.version = v) := by
  have same : ∀ {o : HandleId} {u : Handle.View Task}, t ∈ ((w.setUnit o u).units h).waiting v →
      u.waiting = (w.units o).waiting → t ∈ (w.units h).waiting v := by
    intro o u mem kept
    rwa [w.setUnit_same _ _ Handle.View.waiting kept h] at mem
  cases deed with
  | schedule _ _ _ | lock _ _ | unlock _ _ => exact .inl (same waits rfl)
  | @park xs t' d blocked unmet used =>
      replace waits : t ∈ (update w.units d.handle _ h).waiting v := waits
      rw [Function.update_apply] at waits
      split at waits
      · next here =>
        subst here
        rw [Handle.View.parked] at waits
        by_cases mine : v = d.version
        · subst mine
          simp only [Function.update_self, List.mem_append, List.mem_singleton] at waits
          rcases waits with before | rfl
          · exact .inl before
          · exact .inr ⟨List.mem_cons_self, d, blocked, rfl, rfl⟩
        · simp only [Function.update_of_ne mine] at waits
          exact .inl waits
      · exact .inl waits
  | @release xs f d todo met holder =>
      replace waits : t ∈ (update w.units d.handle _ h).waiting v := waits
      rw [Function.update_apply] at waits
      split at waits
      · next here =>
        subst here
        by_cases next : v = d.version + 1
        · rw [next, ← Handle.View.woken_append_waiting]
          exact .inl (List.mem_append_right _ (next ▸ waits))
        · rw [Handle.View.waiting_released_of_ne next] at waits
          exact .inl waits
      · exact .inl waits
  | strands stray => exact absurd (.stray stray) unbroken
  | broken fault => exact absurd (.fault fault) unbroken
  | _ => exact .inl waits

/-- Every deed keeps a pool orderly. -/
theorem Orderly.deed (orderly : Orderly past w hands) {ys : List Item}
    (deed : Deed w (hands id) e w' ys) : Orderly (e ++ past) w' (update hands id ys) where
  toHoused := orderly.toHoused.deed deed
  waits h v t mem := by
    rcases deed.waiting_cases orderly.sound mem with before | ⟨-, blocked⟩
    · exact orderly.waits h v t before
    · exact blocked

/-! ## Runs -/

/-- A pool of which nobody has made use is orderly. -/
theorem orderly_of_new (units : ∀ h, ∃ entries, w.units h = (Handle.new entries).view)
    (kept : w.kept = []) (queue : ∀ q, w.queue q = []) (published : ∀ q, w.published q = 0)
    (held : ∀ q, w.held q = false) : Orderly [] w fun _ => [] := by
  have nothing : ∀ p, w.items (fun _ => []) p = [] := by
    intro p
    cases p with
    | hands id => rfl
    | queue q =>
        show (w.queue q).map _ = []
        rw [queue]
        rfl
    | waiting h v =>
        obtain ⟨entries, new⟩ := units h
        show looseItems ((w.units h).waiting v) = []
        rw [new, Handle.view_new]
        rfl
    | kept => exact congrArg (List.map _) kept
  have unkept : ∀ k, ¬Kept (w.keys fun _ => []) k := by
    rintro k ⟨p, mem⟩
    rw [World.keys, nothing] at mem
    cases mem
  refine ⟨⟨⟨fun h => ?_, fun h v => ?_, fun h _ => ?_, (by simp [bookings]), fun h => .nil⟩,
    ⟨fun p => ?_, fun p q k mem => absurd ⟨p, mem⟩ (unkept k)⟩, fun p x mem => ?_,
    fun p x mem => ?_, fun s _ => ⟨[], .nil, .inl rfl⟩, fun _ _ => rfl,
    fun h => ?_, fun q => ?_, fun q => ?_⟩, fun h v t mem => ?_⟩
  · obtain ⟨entries, new⟩ := units h
    rw [new]
    exact (Handle.sound_new entries).versions
  · obtain ⟨entries, new⟩ := units h
    rw [new, Handle.view_new]
    rfl
  · obtain ⟨entries, new⟩ := units h
    rw [new, Handle.view_new]
  · rw [World.keys, nothing]
    exact .nil
  · rw [nothing] at mem
    cases mem
  · rw [nothing] at mem
    cases mem
  · obtain ⟨entries, new⟩ := units h
    rw [new, Handle.view_new]
    exact ⟨(by simp), fun kept => absurd kept (unkept _)⟩
  · rw [held]
    exact ⟨(by simp), fun kept => absurd kept (unkept _)⟩
  · rw [published, queue]
    exact .inl rfl
  · obtain ⟨entries, new⟩ := units h
    rw [new, Handle.view_new] at mem
    cases mem

variable {l : Launch} {vocabulary : Access.Vocabulary} {handles callers : Nat}
  {references : Array HandleId}

/-- Nobody has anything in hand as a pool starts. -/
theorem hands_opening :
    (l.opening vocabulary handles callers references).hands = fun _ => [] := by
  funext id
  rw [Machine.hands, Machine.controlOf_opening]
  split <;> rfl

/-- A pool is orderly as it starts. -/
theorem orderly_opening :
    Orderly [] (l.opening vocabulary handles callers references).world
      (l.opening vocabulary handles callers references).hands := by
  rw [hands_opening, Machine.world_opening]
  exact orderly_of_new (Handles.view_fresh handles _) rfl (fun _ => rfl) (fun _ => rfl) fun _ => rfl

/-- Every run of a pool keeps it sound and orderly. -/
theorem Machine.Runs.orderly {m : Machine}
    (run : Runs (l.opening vocabulary handles callers references) past m) :
    m.Sound ∧ Orderly past m.world m.hands := by
  induction run with
  | refl => exact ⟨sound_opening .., orderly_opening⟩
  | @turn past a b mv _ moved ih =>
      obtain ⟨sound, orderly⟩ := ih
      have turned := sound.move moved
      refine ⟨turned.sound, ?_⟩
      rw [turned.hands_eq]
      exact orderly.deed turned.deed

end AccessOrder.Pool
