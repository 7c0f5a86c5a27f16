/- # Scenes stay housed

Whatever those outside of a pool do with the tasks that they have built, everything stays housed in
a world that is large enough for the pins of the tasks that have been made to wait by hand.

* `SettledIn.move` : every turn keeps everything housed;
* `Runs.settled` : everything is housed in every run of a scene.
-/
import AccessOrder.Proofs.Pool.Outsiders
import AccessOrder.Proofs.Pool.Settling
namespace AccessOrder.Pool

open Function (update)

variable {size : Nat}

/-! ## Vetting by hand -/

/-- A step of vetting that goes on marks a dependency as met, or does nothing that is seen. -/
theorem Deed.vetting_cases {w w' : World} {t next : Task} {ms : List Moment} (size : Nat)
    (deed : Deed w [.loose t] ms w' [.loose next]) (unbroken : ¬Broken w [.loose t]) :
    w' = w ∧ (next = t ∨ next = t.mark) ∧
      Deed (w.settled size) [.loose t] [] (w.settled size) [.loose next] := by
  cases deed with
  | still => exact ⟨rfl, .inl rfl, .still⟩
  | mark blocked met => exact ⟨rfl, .inr rfl, .mark blocked met⟩
  | strands stray => exact absurd (.stray stray) unbroken
  | broken fault => exact absurd (.fault fault) unbroken

/-- A task that is put down at the end of its vetting waits for its next dependency. -/
theorem Deed.parking_cases {w w' : World} {t : Task} {ms : List Moment}
    (deed : Deed w [.loose t] ms w' []) (unbroken : ¬Broken w [.loose t]) :
    Deed (w.settled size) [.loose t] [] (w'.settled size) [] := by
  cases deed with
  | park blocked unmet used => exact .park blocked unmet used
  | strands stray => exact absurd (.stray stray) unbroken
  | broken fault => exact absurd (.fault fault) unbroken

/-- Vetting a task that has been built does not fail. -/
theorem Housed.unbroken {past : List Moment} {w : World} {hands : WorkerId → List Item}
    {id : WorkerId} {t : Task} (housed : Housed past (w.settled size) hands)
    (mem : settledTask size t ∈ hands id) : ¬Broken w [.loose t] := by
  have tells := housed.tells (.hands id) _ mem
  have fits := housed.fits (.hands id) _ mem
  -- nothing but a fault of the task could be in the way
  suffices whole : ¬Fault (w.settled size) [.loose t] by
    intro broken
    cases broken with
    | fault fault => exact whole (fault.settled size)
    | stray stray =>
        cases stray with
        | bound mem _ | guard mem _ => cases List.mem_singleton.1 mem
  by_cases inside : t.Inside size
  · rw [settledTask_of_inside inside] at mem
    exact fun fault =>
      housed.sound (.fault (fault.mono (List.cons_subset.2 ⟨mem, List.nil_subset _⟩)))
  · rw [settledTask_of_outside inside] at tells fits
    intro fault
    cases fault with
    | @wait t d mem blocked unused =>
        cases List.mem_singleton.1 mem
        have told : about t.serial past = story t.serial t.dependencies .planned := tells
        have held : (t.serial, d) ∈ unreleased past := by
          rw [mem_unreleased_about, told]
          exact (mem_unreleased_story (nodup_of_handles fits.1.distinct) .planned d).2
            ⟨List.mem_of_getElem? blocked, List.not_mem_nil⟩
        exact unused (housed.ledger.in_use held)
    | work mem none =>
        cases List.mem_singleton.1 mem
        exact fits.2.1 none
    | lock mem _ | unlock mem _ _ | release mem _ => cases List.mem_singleton.1 mem

namespace Scene

variable {s a : Scene} {told past : List Moment} {hands : WorkerId → List Item}

/-! ## Where the tasks of a scene are -/

/-- The tasks outside of the pool, as they are settled. -/
def items (s : Scene) (size : Nat) : List Item :=
  (s.machine.kept ++ s.vetted.map Vetting.task).map (settledTask size)

/-- A number beyond those of all workers and callers. -/
def beyond (s : Scene) : WorkerId := s.machine.workers.size + 1

/-- Whether everything is housed in hands in which the tasks of a scene are settled; what is outside
of the pool, or has been lost, is in the hand of a number beyond all others. -/
structure HousedIn (size : Nat) (s : Scene) (told : List Moment) (hands : WorkerId → List Item) :
    Prop extends Housed told (s.machine.world.settled size) hands where
  inside : ∀ id < s.beyond, hands id = (s.machine.hands id).map (Item.settled size)
  outer : ∃ left, (hands s.beyond).Perm (s.items size ++ left)

/-- The invariant of a scene: the pool is sound, and everything is housed in a world that is no
smaller than the pool. -/
structure SettledIn (size : Nat) (past : List Moment) (s : Scene) : Prop where
  sound : s.machine.Sound
  large : s.machine.size ≤ size
  housed : ∃ told hands, s.HousedIn size told hands ∧
    otherThanAccepted told = otherThanAccepted past

/-- Whether everything is housed in a world of the size of the pool. -/
def Settled (past : List Moment) (s : Scene) : Prop := s.SettledIn s.machine.size past

theorem items_of_kept {t : Task} {rest : List Task} (here : s.machine.kept.Perm (t :: rest)) :
    (s.items size).Perm (settledTask size t :: items (s.withKept rest) size) :=
  (here.append_right _).map _

theorem items_of_vetted {v : Vetting} {rest : List Vetting} (here : s.vetted.Perm (v :: rest)) :
    (s.items size).Perm (settledTask size v.task :: items { s with vetted := rest } size) :=
  (((here.map Vetting.task).append_left s.machine.kept).trans List.perm_middle).map _

/-! ## Outside of the pool -/

/-- Something is done outside of the pool. -/
theorem HousedIn.outdoors {later : List Moment} {zs : List Item}
    (shown : s.HousedIn size told hands) (workers : a.machine.workers = s.machine.workers)
    (housed : Housed later (a.machine.world.settled size) (update hands s.beyond zs))
    (outer : ∃ left, zs.Perm (a.items size ++ left)) :
    a.HousedIn size later (update hands s.beyond zs) where
  toHoused := housed
  inside id before := by
    have same : a.machine.hands id = s.machine.hands id := by
      rw [Machine.hands, Machine.controlOf, workers]
      rfl
    have before : id < s.beyond := by rwa [beyond, workers] at before
    rw [Function.update_of_ne (Nat.ne_of_lt before), shown.inside id before, same]
  outer := by
    have same : a.beyond = s.beyond := by rw [beyond, workers, beyond]
    rw [same, Function.update_self]
    exact outer

/-- Tasks outside of the pool are passed on or lost. -/
theorem HousedIn.lets (shown : s.HousedIn size told hands)
    (workers : a.machine.workers = s.machine.workers)
    (world : a.machine.world.settled size = s.machine.world.settled size)
    (fewer : ∃ gone, (s.items size).Perm (a.items size ++ gone)) : a.HousedIn size told hands := by
  obtain ⟨left, outer⟩ := shown.outer
  obtain ⟨gone, fewer⟩ := fewer
  have housed := shown.toHoused
  rw [← world, ← Function.update_eq_self s.beyond hands] at housed
  rw [← Function.update_eq_self s.beyond hands]
  refine shown.outdoors workers housed ⟨gone ++ left, ?_⟩
  rw [← List.append_assoc]
  exact outer.trans (fewer.append_right left)

/-- What is in the hand beyond all others, if one of the tasks outside of the pool is looked for. -/
theorem HousedIn.found {x : Item} {rest : List Item} (shown : s.HousedIn size told hands)
    (here : (s.items size).Perm (x :: rest)) :
    ∃ left, (hands s.beyond).Perm ([x] ++ (rest ++ left)) := by
  obtain ⟨left, outer⟩ := shown.outer
  exact ⟨left, outer.trans (here.append_right left)⟩

/-- Vetting a task outside of the pool does not fail. -/
theorem HousedIn.unbroken {v : Vetting} {rest : List Vetting} (shown : s.HousedIn size told hands)
    (here : s.vetted.Perm (v :: rest)) : ¬Broken s.machine.world [.loose v.task] := by
  obtain ⟨left, found⟩ := shown.found (items_of_vetted here)
  exact shown.toHoused.unbroken (found.mem_iff.2 (List.mem_append_left _ List.mem_cons_self))

/-- A step of vetting is taken outside of the pool. -/
theorem HousedIn.marks {v next : Vetting} {rest : List Vetting} {hs : Handles}
    (shown : s.HousedIn size told hands) (base : s.machine.Base)
    (here : s.vetted.Perm (v :: rest))
    (stepped : v.step s.machine.handles = (.ok (.more next), hs)) :
    hs.Sound ∧ ∃ hands,
      HousedIn size { s.withHandles hs with vetted := next :: rest } told hands := by
  have unbroken := shown.unbroken here
  have leads := base.leads_vetting v
  simp only [Machine.vetStep, stepped] at leads
  cases leads with
  | goes passes _ deed =>
      refine ⟨passes.base.handles, ?_⟩
      obtain ⟨left, found⟩ := shown.found (items_of_vetted here)
      obtain ⟨world, same, settled⟩ := deed.vetting_cases size unbroken
      replace world : Machine.world { s.machine with handles := hs } = s.machine.world := world
      have vetted : (items { s.withHandles hs with vetted := next :: rest } size).Perm
          (settledTask size next.task :: items { s with vetted := rest } size) :=
        items_of_vetted (s := { s.withHandles hs with vetted := next :: rest }) (.refl _)
      have pin : next.task.pin = v.task.pin :=
        same.elim (congrArg Task.pin) (congrArg Task.pin)
      by_cases inside : v.task.Inside size
      · have after : next.task.Inside size := by rwa [Task.Inside, pin]
        rw [settledTask_of_inside inside] at found
        rw [settledTask_of_inside after] at vetted
        have housed := shown.does found settled
        rw [← world] at housed
        exact ⟨_, shown.outdoors rfl housed ⟨left, vetted.symm.append_right left⟩⟩
      · -- a task that is not accepted is as if it had not been vetted
        have after : ¬next.task.Inside size := by rwa [Task.Inside, pin]
        have settled : settledTask size next.task = settledTask size v.task := by
          rw [settledTask_of_outside after, settledTask_of_outside inside]
          exact congrArg Item.arriving (same.elim (congrArg Task.rewound) (congrArg Task.rewound))
        rw [settled] at vetted
        refine ⟨hands, shown.lets rfl (congrArg (World.settled size) world) ⟨[], ?_⟩⟩
        rw [List.append_nil]
        exact (items_of_vetted here).trans vetted.symm

/-- A task outside of the pool is made to wait at the end of its vetting. -/
theorem HousedIn.parks {v : Vetting} {rest : List Vetting} {hs : Handles}
    (shown : s.HousedIn size told hands) (base : s.machine.Base)
    (here : s.vetted.Perm (v :: rest))
    (stepped : v.step s.machine.handles = (.ok .parked, hs)) (inside : v.task.Inside size) :
    hs.Sound ∧ ∃ hands, HousedIn size
      { s.withHandles hs with vetted := rest, parked := v.task :: s.parked } told hands := by
  have unbroken := shown.unbroken here
  have leads := base.leads_vetting v
  simp only [Machine.vetStep, stepped] at leads
  cases leads with
  | ends passes deed =>
      obtain ⟨left, found⟩ := shown.found (items_of_vetted here)
      rw [settledTask_of_inside inside] at found
      exact ⟨passes.base.handles, _, shown.outdoors rfl
        (shown.does found (deed.parking_cases unbroken)) ⟨left, .refl _⟩⟩

/-- A task outside of the pool is made to wait for a version. -/
theorem HousedIn.waits {t : Task} {rest : List Task} {h : HandleId} {v : Version} {hs : Handles}
    (shown : s.HousedIn size told hands) (base : s.machine.Base)
    (here : s.machine.kept.Perm (t :: rest))
    (ran : s.machine.handles.run h (·.register t v) = (.ok .parked, hs)) (inside : t.Inside size) :
    hs.Sound ∧ ∃ hands, HousedIn size
      { (s.withHandles hs).withKept rest with parked := t :: s.parked } told hands := by
  obtain ⟨sound, seen, range⟩ := base.handles.register ran
  obtain ⟨left, found⟩ := shown.found (items_of_kept here)
  rw [settledTask_of_inside inside] at found
  have sorted : Housed told (s.machine.world.settled size)
      (update hands s.beyond (.loose t :: _)) := shown.reorders found.symm
  have parked := sorted.park (Function.update_self ..) range
  rw [Function.update_idem] at parked
  have world := Machine.world_setUnit (Machine.size_of_run ran) seen
  refine ⟨sound, _, shown.outdoors rfl ?_ ⟨left, .refl _⟩⟩
  show Housed told (World.settled size (Machine.world { s.machine with handles := hs })) _
  rw [world]
  exact parked

/-- The draft of a task that is never built, for an access that belongs to no task. -/
def unclaimed (serial : Nat) (a : Access.Located) : Draft :=
  ⟨serial, ⟨"", [], .normal, none, none, []⟩, [a], []⟩

/-- A version is reserved for an access that belongs to no task: it is as if a task had been begun
that is never built. -/
theorem HousedIn.reserves {access : Access.Located} {v : Version} {hs : Handles}
    (shown : s.HousedIn size told hands) (base : s.machine.Base)
    (ran : s.machine.handles.run access.handle (·.schedule access.kind) = (.ok v, hs)) :
    hs.Sound ∧ ∃ hands,
      (s.reserved hs).HousedIn size (.scheduled s.machine.begun ⟨access, v⟩ :: told) hands := by
  obtain ⟨sound, known, offered, seen⟩ := base.handles.schedule ran
  obtain ⟨left, outer⟩ := shown.outer
  have begun := shown.does (show (hands s.beyond).Perm ([] ++ hands s.beyond) from .refl _)
    (.begin (unclaimed s.machine.begun access) rfl rfl (List.nodup_singleton _))
  have reserved := begun.does (.of_eq (Function.update_self ..)) (.schedule rfl known offered)
  rw [Function.update_idem] at reserved
  have world := Machine.world_setUnit (m := s.machine) (Machine.size_of_run ran) seen
  have housed : Housed (.scheduled s.machine.begun ⟨access, v⟩ :: told)
      (World.settled size (Machine.world { s.machine with handles := hs }).begin)
      (update hands s.beyond (.draft ((unclaimed s.machine.begun access).resolve access [] v) ::
        hands s.beyond)) := by
    rw [world]
    exact reserved
  exact ⟨sound, _, shown.outdoors rfl housed ⟨.draft _ :: left,
    (outer.cons _).trans List.perm_middle.symm⟩⟩

/-! ## In the pool -/

/-- Only a worker, a caller or the owner takes a turn. -/
theorem actor_lt {m after : Machine} {mv : Pool.Move} (moved : m.move mv = some after) :
    mv.actor < m.workers.size + 1 := by
  cases Machine.move_cases moved with
  | step _ stepped =>
      obtain ⟨w, found, -⟩ := Machine.step_cases stepped
      exact Nat.lt_succ_of_lt (Array.getElem?_eq_some_iff.1 found).1
  | @miss id _ _ _ _ now _ =>
      have busy : m.controlOf id ≠ .away := by simp [now]
      exact Nat.lt_succ_of_lt (Machine.lt_of_controlOf busy)
  | call now calls => exact Nat.lt_succ_of_lt (calls.crew now)
  | start _ | lead _ | stop _ => exact Nat.succ_pos _

/-- A turn of the pool is taken. -/
theorem HousedIn.turns {mv : Pool.Move} {after : Machine} (shown : s.HousedIn size told hands)
    (sound : s.machine.Sound) (large : s.machine.size ≤ size)
    (moved : s.machine.move mv = some after) :
    ∃ ms hands, HousedIn size { s with machine := after } (ms ++ told) hands ∧
      otherThanAccepted ms = otherThanAccepted (s.machine.moments mv) := by
  have turned := sound.move moved
  have workers : after.workers.size = s.machine.workers.size :=
    congrArg (·.2.1) (Machine.shape_move moved)
  have before : mv.actor < s.beyond := actor_lt moved
  have different : mv.actor ≠ s.beyond := Nat.ne_of_lt before
  obtain ⟨left, outer⟩ := shown.outer
  rw [items, List.map_append, List.append_assoc] at outer
  obtain ⟨ms, hands', housed, settles, same⟩ := shown.settles large different
    (shown.inside mv.actor before) outer turned.deed
  have beyond : beyond { s with machine := after } = s.beyond := congrArg (· + 1) workers
  refine ⟨ms, hands', ⟨housed, fun other inside => ?_, ?_⟩, same⟩
  · rw [beyond] at inside
    by_cases mine : other = mv.actor
    · rw [mine]
      exact settles.own
    · rw [settles.others other mine (Nat.ne_of_lt inside), shown.inside other inside]
      show _ = List.map _ (after.hands other)
      rw [turned.hands_eq, Function.update_of_ne mine]
  · obtain ⟨lost, outer⟩ := settles.outer
    rw [beyond]
    refine ⟨lost ++ left, outer.trans ?_⟩
    show List.Perm _ ((after.kept ++ s.vetted.map Vetting.task).map (settledTask size) ++ _)
    rw [List.map_append, List.append_assoc]
    exact (List.perm_append_comm_assoc ..).append_left _

/-! ## Runs -/

/-- A pool stays sound if its handles do, whatever is begun and kept outside of it. -/
theorem sound_outdoors {m : Machine} (sound : m.Sound) {hs : Handles} (kept : hs.Sound)
    (begun : Nat) (ts : List Task) :
    Machine.Sound { m with handles := hs, begun := begun, kept := ts } :=
  ⟨⟨kept, sound.lanes⟩, sound.manned, sound.seated, sound.duties⟩

/-- Every turn keeps everything housed, if the tasks that have been made to wait by hand are pinned
inside of the world. -/
theorem SettledIn.move (settled : s.SettledIn size past) {mv : Move} (moved : s.move mv = some a)
    (inside : ∀ t ∈ a.parked, t.Inside size) : a.SettledIn size (s.moments mv ++ past) := by
  obtain ⟨sound, large, told, hands, shown, same⟩ := settled
  have base := sound.toBase
  -- most turns outside of the pool tell nothing
  have quiet : ∀ {b : Scene} {hs : Handles} {ts : List Task} {hands' : WorkerId → List Item},
      hs.Sound → b.machine = { s.machine with handles := hs, kept := ts } →
      b.HousedIn size told hands' → b.SettledIn size past := by
    intro b hs ts hands' kept is shown
    exact ⟨is ▸ sound_outdoors sound kept _ _, is ▸ large, told, hands', shown, same⟩
  cases move_cases moved with
  | @turn mv after turned =>
      obtain ⟨ms, hands, next, happened⟩ := shown.turns sound large turned
      refine ⟨(sound.move turned).sound, ?_, _, hands, next, ?_⟩
      · show after.size ≤ size
        rwa [show after.size = _ from congrArg Prod.fst (Machine.shape_move turned)]
      · rw [otherThanAccepted_append, otherThanAccepted_append, happened, same]
        rfl
  | @vet place t rest here =>
      refine quiet sound.handles rfl (shown.lets rfl rfl ⟨[], ?_⟩)
      rw [List.append_nil]
      exact (items_of_kept here).trans
        (items_of_vetted (s := { s.withKept rest with vetted := .look t :: s.vetted })
          (.refl _)).symm
  | more here stepped =>
      obtain ⟨kept, hands, next⟩ := shown.marks base here stepped
      exact quiet kept rfl next
  | @ready place v t rest hs here stepped =>
      have leads := base.leads_vetting v
      simp only [Machine.vetStep, stepped] at leads
      cases leads with
      | ends passes done =>
          obtain ⟨unchanged, rfl, -⟩ := done
          have world := congrArg (World.settled size) (congrArg Machine.world unchanged)
          refine quiet passes.base.handles rfl (shown.lets rfl world ⟨[], ?_⟩)
          rw [List.append_nil]
          exact items_of_vetted here
  | parks here stepped =>
      obtain ⟨kept, hands, next⟩ :=
        shown.parks base here stepped (inside _ List.mem_cons_self)
      exact quiet kept rfl next
  | @fails place v rest hs f here stepped =>
      have unbroken := shown.unbroken here
      have leads := base.leads_vetting v
      simp only [Machine.vetStep, stepped] at leads
      cases leads with
      | fails f passes fault => exact absurd (.fault fault) unbroken
  | waits here ran =>
      obtain ⟨kept, hands, next⟩ := shown.waits base here ran (inside _ List.mem_cons_self)
      exact quiet kept rfl next
  | handedBack here ran =>
      obtain ⟨kept, seen, rfl, -⟩ := base.handles.handedBack ran
      have world := congrArg (World.settled size)
        (Machine.world_handles (m := s.machine) (Machine.size_of_run ran) seen)
      refine quiet kept rfl (shown.lets rfl world ⟨[], ?_⟩)
      rw [List.append_nil]
      exact items_of_kept here
  | refused here ran =>
      obtain ⟨kept, seen, -⟩ := base.handles.register_error ran
      have world := congrArg (World.settled size)
        (Machine.world_handles (m := s.machine) (Machine.size_of_run ran) seen)
      exact quiet kept rfl (shown.lets rfl world
        ⟨_, (items_of_kept here).trans (List.perm_append_singleton ..).symm⟩)
  | discard here =>
      exact quiet sound.handles rfl (shown.lets rfl rfl
        ⟨_, (items_of_kept here).trans (List.perm_append_singleton ..).symm⟩)
  | @schedule access v hs ran =>
      obtain ⟨kept, hands, next⟩ := shown.reserves base ran
      refine ⟨sound_outdoors sound kept _ _, large, _, hands, next, ?_⟩
      simp only [moments, ran]
      exact congrArg (.scheduled s.machine.begun ⟨access, v⟩ :: ·) same
  | unscheduled ran =>
      obtain ⟨kept, seen⟩ := base.handles.schedule_error ran
      have world := Machine.world_handles (m := s.machine) (Machine.size_of_run ran) seen
      simp only [moments, ran]
      refine quiet kept rfl (shown.lets rfl (congrArg (World.settled size) world) ⟨[], ?_⟩)
      rw [List.append_nil]
      exact .refl _

/-- The size of a pool and when it checks its tasks never change in the runs of a scene. -/
theorem Runs.setting_eq (run : s.Runs past a) :
    a.machine.size = s.machine.size ∧ a.machine.readiness = s.machine.readiness := by
  induction run with
  | refl => exact ⟨rfl, rfl⟩
  | turn mv _ moved ih =>
      cases move_cases moved with
      | turn turned =>
          have same := Machine.shape_move turned
          exact ⟨(congrArg Prod.fst same).trans ih.1, (congrArg (·.2.2.1) same).trans ih.2⟩
      | _ => exact ih

/-- A pool has the same size in every run of a scene. -/
theorem Runs.size_eq (run : s.Runs past a) : a.machine.size = s.machine.size := run.setting_eq.1

/-- In the course of a run everything stays housed, if the tasks that have been made to wait by hand
are pinned inside of the world. -/
theorem SettledIn.runs {later : List Moment} (settled : s.SettledIn size past)
    (goes : s.Runs later a) (inside : ∀ t ∈ a.parked, t.Inside size) :
    a.SettledIn size (later ++ past) := by
  induction goes with
  | refl => exact settled
  | turn mv goes moved ih =>
      have before := ih fun t mem => inside t ((move_cases moved).parked_subset mem)
      rw [List.append_assoc]
      exact before.move moved inside

/-- In the course of a run everything stays housed in a world of the size of the pool, if the tasks
that have been made to wait by hand are pinned to no worker outside of it. -/
theorem Settled.runs {later : List Moment} (settled : s.Settled past) (goes : s.Runs later a)
    (inside : ∀ t ∈ a.parked, t.Inside s.machine.size) : a.Settled (later ++ past) := by
  rw [Settled, goes.size_eq]
  exact SettledIn.runs settled goes inside

/-- Nothing goes wrong in a scene in which everything is housed. -/
theorem SettledIn.not_fault {id : WorkerId} (settled : s.SettledIn size past)
    (before : id < s.beyond) : ¬Fault s.machine.world (s.machine.hands id) := by
  obtain ⟨-, -, told, hands, shown, -⟩ := settled
  intro fault
  have fallen := fault.settled size
  rw [← shown.inside id before] at fallen
  exact shown.sound (.fault fallen)

/-- Nobody falls in a scene in which everything is housed in a world of the size of the pool. -/
theorem Settled.sound_hands {id : WorkerId} (settled : s.Settled past)
    (before : id < s.beyond) : ¬Broken s.machine.world (s.machine.hands id) := by
  intro broken
  cases broken with
  | fault fault => exact settled.not_fault before fault
  | stray stray =>
      obtain ⟨-, -, told, hands, shown, -⟩ := settled
      have same : hands id = (s.machine.hands id).map (Item.settled s.machine.world.size) :=
        shown.inside id before
      have fallen := stray.settled
      rw [← same] at fallen
      exact shown.sound (.stray fallen)

variable {l : Launch} {vocabulary : Access.Vocabulary} {handles callers : Nat}
  {references : Array HandleId}

/-- Everything is housed as a pool starts. -/
theorem settledIn_opening (large : l.size ≤ size) :
    SettledIn size [] (opening (l.opening vocabulary handles callers references)) := by
  have housed : Housed [] ((l.opening vocabulary handles callers references).world.settled size)
      fun _ => [] := by
    rw [Machine.world_opening]
    exact (orderly_of_new (Handles.view_fresh handles _) rfl (fun _ => rfl) (fun _ => rfl)
      fun _ => rfl).toHoused
  refine ⟨Machine.sound_opening .., by rwa [← Machine.size_opening] at large, [], _,
    ⟨housed, fun id _ => ?_, [], .refl _⟩, rfl⟩
  show [] = List.map _ ((l.opening vocabulary handles callers references).hands id)
  rw [hands_opening]
  rfl

/-- In every run of a scene everything stays housed in a world that is large enough for the pins of
the tasks that have been made to wait by hand. -/
theorem Runs.settledIn
    (run : (opening (l.opening vocabulary handles callers references)).Runs past s)
    (large : l.size ≤ size) (inside : ∀ t ∈ s.parked, t.Inside size) : s.SettledIn size past := by
  have settled := (settledIn_opening large).runs run inside
  rwa [List.append_nil] at settled

/-- In every run of a scene in which only tasks are made to wait by hand that are pinned to no
worker outside of the pool, everything stays housed in a world of the size of the pool. -/
theorem Runs.settled
    (run : (opening (l.opening vocabulary handles callers references)).Runs past s)
    (inside : ∀ t ∈ s.parked, t.Inside l.size) : s.Settled past := by
  have size : s.machine.size = l.size := run.size_eq.trans (Machine.size_opening ..)
  rw [Settled, size]
  exact run.settledIn (Nat.le_refl _) inside

end Scene

end AccessOrder.Pool
