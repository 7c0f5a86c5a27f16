/- # Joining rounds

What the workers do one after the other while nobody is busy and the owner stays where it is: all of
them take note of the open round, leave a round that is over, or join one.  What one of them has
attained is not undone by those that come after it.

* `Waits.each` : what every worker attains alone they all attain in turn;
* `Waits.note` : all workers take note of the open round;
* `Waits.leave` : all workers leave a round that has been closed;
* `Waits.muster` : all workers join the open round, after which it drains.
-/
import AccessOrder.Proofs.Pool.TakingTasks
namespace AccessOrder.Pool

open Barrier (Word Phase)

namespace Machine

variable {m a b : Machine} {id : WorkerId} {round : UInt32}

/-- What the workers leave as it is that go their ways while the owner stays where it is. -/
structure Abides (m a : Machine) : Prop where
  owner : a.controlOf 0 = m.controlOf 0
  size : a.size = m.size
  round : a.round? = m.round?
  queues : ∀ q, (a.world.queue q).Perm (m.world.queue q)
  raised : m.barrier.aborted = true → a.barrier.aborted = true

/-- The owner stays where it is while a worker goes its way alone. -/
theorem Beside.abides (beside : m.Beside id a) (pos : 0 < id) : m.Abides a :=
  ⟨beside.others 0 (Nat.ne_of_lt pos), beside.size, beside.round, beside.queues, beside.raised⟩

/-- Workers that stay where they are leave everything as it is. -/
theorem abides_refl (m : Machine) : m.Abides m :=
  ⟨rfl, rfl, rfl, fun _ => .refl _, fun up => up⟩

/-- Workers go their ways one after the other. -/
theorem Abides.trans (first : m.Abides a) (second : a.Abides b) : m.Abides b where
  owner := second.owner.trans first.owner
  size := second.size.trans first.size
  round := second.round.trans first.round
  queues q := (second.queues q).trans (first.queues q)
  raised up := second.raised (first.raised up)

/-- What every worker attains alone they all attain in turn, if it is not undone by others. -/
theorem Waits.each (kept : Machine → Prop) (done : Machine → WorkerId → Prop)
    (one : ∀ {m id}, Waits m → m.Calm → kept m → 0 < id → id < m.size →
      Attains m fun a => m.Beside id a ∧ kept a ∧ done a id)
    (stays : ∀ {m a id o}, m.Beside id a → o ≠ id → done m o → done a o)
    (waits : Waits m) (calm : m.Calm) (here : kept m) :
    Attains m fun a => m.Abides a ∧ kept a ∧ ∀ id, 0 < id → id < m.size → done a id := by
  -- the workers before the one with this number have had their turns
  have some : ∀ n ≤ m.size,
      Attains m fun a => m.Abides a ∧ kept a ∧ ∀ id, 0 < id → id < n → done a id := by
    intro n
    induction n with
    | zero =>
        exact fun _ => waits.attains calm
          ⟨abides_refl m, here, fun _ _ inside => absurd inside (Nat.not_lt_zero _)⟩
    | succ n ih =>
        intro inside
        refine (ih (Nat.le_of_succ_le inside)).bind fun a waits calm there => ?_
        obtain ⟨abides, kept, dones⟩ := there
        rcases Nat.eq_zero_or_pos n with rfl | pos
        · refine waits.attains calm ⟨abides, kept, fun id pos inside => ?_⟩
          exact absurd pos (Nat.not_lt_of_le (Nat.le_of_lt_succ inside))
        · refine (one waits calm kept pos (abides.size.symm ▸ inside)).mono fun b there => ?_
          obtain ⟨beside, kept, done⟩ := there
          refine ⟨abides.trans (beside.abides pos), kept, fun id pos inside => ?_⟩
          rcases Nat.lt_or_eq_of_le (Nat.le_of_lt_succ inside) with before | rfl
          · exact stays beside (Nat.ne_of_lt before) (dones id pos before)
          · exact done
  exact some m.size (Nat.le_refl _)

/-! ## Taking note of a round, and leaving one -/

/-- All workers take note of the open round. -/
theorem Waits.note (waits : Waits m) (calm : m.Calm) (opened : m.round? = some round) :
    Attains m fun a => m.Abides a ∧ ∀ id, 0 < id → id < m.size → a.seenOf id = round := by
  refine (Waits.each (fun a => a.round? = some round)
    (fun a id => a.seenOf id = round) ?_ ?_ waits calm opened).mono fun a there =>
      ⟨there.1, there.2.2⟩
  · intro m id waits calm opened pos inside
    by_cases known : m.seenOf id = round
    · exact waits.attains calm ⟨(strolls_refl m id).toBeside, opened, known⟩
    have comes : ∀ {m'}, Waits m' → m'.Calm → m.Beside id m' →
        Roams (m'.controlOf id) → m'.seenOf id ≠ round →
        Attains m' fun a => m.Beside id a ∧ a.round? = some round ∧ a.seenOf id = round := by
      intro m' waits calm beside roams unseen
      refine (waits.comes calm pos (beside.size.symm ▸ inside) roams
        (beside.round.trans opened) unseen).mono fun a there => ?_
      obtain ⟨beside', -, seen, -⟩ := there
      have whole := beside.trans beside'
      exact ⟨whole, whole.round.trans opened, seen⟩
    rcases waits.engaged_or_roams calm pos inside with engaged | roams
    · -- a worker that takes part in an older round leaves it first
      have leaving : m.Leaving id := .inl fun same => known (by
        rw [opened] at same
        exact (Option.some.inj same).symm)
      obtain ⟨a, errand, control, seen⟩ := waits.exits calm pos inside leaving engaged
      refine errand.before (comes errand.waits errand.calm errand.toBeside ?_ ?_)
      · rw [control]
        exact .inr (.inr (.inl rfl))
      · rwa [seen]
    · exact comes waits calm (strolls_refl m id).toBeside roams known
  · intro m a id o beside other seen
    rw [beside.seen o other]
    exact seen

/-- All workers leave a round that has been closed. -/
theorem Waits.leave (waits : Waits m) (calm : m.Calm) (closed : m.round? = none) :
    Attains m fun a => m.Abides a ∧ ∀ id, 0 < id → id < m.size → Roams (a.controlOf id) := by
  refine (Waits.each (fun a => a.round? = none)
    (fun a id => Roams (a.controlOf id)) ?_ ?_ waits calm closed).mono fun a there =>
      ⟨there.1, there.2.2⟩
  · intro m id waits calm closed pos inside
    rcases waits.engaged_or_roams calm pos inside with engaged | roams
    · have leaving : m.Leaving id := .inl (by rw [closed]; rintro ⟨⟩)
      obtain ⟨a, errand, control, -⟩ := waits.exits calm pos inside leaving engaged
      refine errand.attains ⟨errand.toBeside, errand.round.trans closed, ?_⟩
      rw [control]
      exact .inr (.inr (.inl rfl))
    · exact waits.attains calm ⟨(strolls_refl m id).toBeside, closed, roams⟩
  · intro m a id o beside other roams
    rw [beside.others o other]
    exact roams

/-! ## Joining a round -/

/-- Whether a worker joins the open round when it goes on: it takes part in no round and has not
seen the open one, or it takes part in the open one and is not about to raise the flag. -/
def Ready (m : Machine) (round : UInt32) (id : WorkerId) : Prop :=
  Roams (m.controlOf id) ∧ m.seenOf id ≠ round ∨
    (m.controlOf id).engaged = true ∧ m.controlOf id ≠ .serving .raise ∧ m.seenOf id = round

/-- A round that is open, in which the flag is down, and all have noticed that there is no task. -/
structure AllReady (m : Machine) (round : UInt32) : Prop where
  opened : m.round? = some round
  down : m.barrier.aborted = false
  empty : ∀ q, m.world.queue q = []
  ready : ∀ id, 0 < id → id < m.size → m.Ready round id

section Join

variable (waits : Waits m) (calm : m.Calm) (pos : 0 < id) (inside : id < m.size)
include waits

/-- A round is being entered as long as a worker does not stand in it and the flag is down. -/
theorem Waits.entering (pos : 0 < id) (inside : id < m.size) (opened : m.round? = some round)
    (down : m.barrier.aborted = false) (outside : ¬(m.controlOf id).Stands round) :
    Barrier.State.joined m.barrier.word round m.participants ≠ .ok none := by
  intro refused
  obtain ⟨w, read, other⟩ := Barrier.State.joined_eq_ok_none_iff.1 refused
  obtain ⟨w', loaded, active, same⟩ := round?_eq_some.1 opened
  rw [show m.barrier.load = .ok w from read] at loaded
  cases loaded
  obtain ⟨-, opened⟩ := waits.rounds.opened_of_round waits.led opened
  cases phase : w.phase with
  | idle => exact active phase
  | entering => exact other ⟨same, phase⟩
  | draining =>
      obtain ⟨u, -, -, -, mustered⟩ := opened.draining read phase
      exact outside (mustered down id pos inside)

include calm pos inside

/-- A worker that reads the word in order to join does. -/
theorem Waits.joins_tries (opened : m.round? = some round) (down : m.barrier.aborted = false)
    {s : Service} (now : m.controlOf id = .serving s)
    (outside : ¬s.Stands round)
    (stepped : m.serveStep id (m.seenOf id) s = (m, m.joining round m.barrier.word)) :
    ∃ a, Errand m id a ∧ a.controlOf id = .serving (.watchWord round) ∧
      a.barrier.aborted = false ∧ ∀ o, a.seenOf o = m.seenOf o := by
  obtain ⟨a, errand, barrier, seen, ⟨-, refused⟩ | ⟨next, control⟩⟩ :=
    waits.tries calm pos inside now stepped
  · exact absurd refused (waits.entering pos inside opened down (by rwa [now]))
  · obtain ⟨b, errand', control', flag, seen'⟩ :=
      errand.waits.join errand.calm pos (errand.size.symm ▸ inside) control
    refine ⟨b, errand.trans errand', control', ?_, fun o => (seen' o).trans (seen o)⟩
    rw [flag, barrier, down]

/-- A worker that has found its own queue empty joins. -/
theorem Waits.joins_measure (opened : m.round? = some round) (down : m.barrier.aborted = false)
    (empty : m.world.queue id = []) (now : m.controlOf id = .serving (.measure round)) :
    ∃ a, Errand m id a ∧ a.controlOf id = .serving (.watchWord round) ∧
      a.barrier.aborted = false ∧ ∀ o, a.seenOf o = m.seenOf o := by
  have zero : m.queueLength id = 0 := by rw [waits.queueLength_eq calm, empty]; rfl
  obtain ⟨a, errand, control, barrier, seen⟩ := waits.serve calm pos inside now
    (b := m.barrier) (x := .serving (.read round)) (by simp only [serveStep, if_pos zero]; rfl)
    (by rintro ⟨⟩) rfl fun up => up
  obtain ⟨b, errand', control', down', seen'⟩ := errand.waits.joins_tries errand.calm pos
    (errand.size.symm ▸ inside) (errand.round.trans opened) (by rw [barrier, down]) control
    not_false rfl
  exact ⟨b, errand.trans errand', control', down', fun o => (seen' o).trans (seen o)⟩

/-- A worker that takes part in the open round joins it, unless it is about to raise the flag. -/
theorem Waits.joins_engaged (allReady : m.AllReady round)
    (engaged : (m.controlOf id).engaged = true) (unraised : m.controlOf id ≠ .serving .raise)
    (known : m.seenOf id = round) :
    ∃ a, Errand m id a ∧ (a.controlOf id).Watches round ∧ a.barrier.aborted = false ∧
      ∀ o, a.seenOf o = m.seenOf o := by
  obtain ⟨opened, down, empty, -⟩ := allReady
  have joined : (∃ a, Errand m id a ∧ a.controlOf id = .serving (.watchWord round) ∧
      a.barrier.aborted = false ∧ ∀ o, a.seenOf o = m.seenOf o) →
      ∃ a, Errand m id a ∧ (a.controlOf id).Watches round ∧ a.barrier.aborted = false ∧
        ∀ o, a.seenOf o = m.seenOf o := by
    rintro ⟨a, errand, control, rest⟩
    refine ⟨a, errand, ?_, rest⟩
    rw [control]
    exact rfl
  have here : (m.controlOf id).Watches round → ∃ a, Errand m id a ∧
      (a.controlOf id).Watches round ∧ a.barrier.aborted = false ∧
        ∀ o, a.seenOf o = m.seenOf o := fun watches =>
    ⟨m, ⟨(strolls_refl m id).toBeside, .refl, waits, calm, rfl, rfl⟩, watches, down, fun _ => rfl⟩
  have own : ∀ {s : Service} {r}, m.controlOf id = .serving s → s.round? = some r → r = round :=
    fun now stage => (waits.own now stage).symm.trans known
  cases now : m.controlOf id with
  | serving s =>
      cases s with
      | look =>
          rw [now] at engaged
          cases engaged
      | raise => exact absurd now unraised
      | measure r =>
          obtain rfl := own now rfl
          exact joined (waits.joins_measure calm pos inside opened down (empty id) now)
      | read r =>
          obtain rfl := own now rfl
          exact joined (waits.joins_tries calm pos inside opened down now not_false
            rfl)
      | swap r expected next =>
          obtain rfl := own now rfl
          by_cases current : m.barrier.word = expected
          · obtain ⟨a, errand, control, flag, seen⟩ :=
              waits.join calm pos inside (current ▸ now)
            exact joined ⟨a, errand, control, flag.trans down, seen⟩
          · refine joined (waits.joins_tries calm pos inside opened down now
              not_false ?_)
            simp only [serveStep, Barrier.State.exchange, if_neg current]
      | watchWord r | watchFlag r | watchQueue r | watchShutdown r =>
          refine here ?_
          rw [now]
          exact own now rfl
  | _ =>
      rw [now] at engaged
      cases engaged

/-- A worker joins an open round for which all are ready. -/
theorem Waits.joins (allReady : m.AllReady round) :
    Attains m fun a => m.Beside id a ∧ (a.controlOf id).Watches round ∧
      a.barrier.aborted = false ∧ a.seenOf id = round := by
  rcases allReady.ready id pos inside with ⟨roams, unseen⟩ | ⟨engaged, unraised, known⟩
  · refine (waits.comes calm pos inside roams allReady.opened unseen).bind
      fun a waits calm there => ?_
    obtain ⟨beside, barrier, known, control⟩ := there
    obtain ⟨b, errand, control', down, seen⟩ := waits.joins_measure calm pos
      (beside.size.symm ▸ inside) (beside.round.trans allReady.opened)
      (by rw [barrier, allReady.down])
      (empty_of_perm (beside.queues id) (allReady.empty id)) control
    refine errand.attains ⟨beside.trans errand.toBeside, ?_, down, (seen id).trans known⟩
    rw [control']
    exact rfl
  · obtain ⟨a, errand, watches, down, seen⟩ :=
      waits.joins_engaged calm pos inside allReady engaged unraised known
    exact errand.attains ⟨errand.toBeside, watches, down, (seen id).trans known⟩

end Join

/-- Who waits for the end of a round takes part in it, and is not about to raise the flag. -/
theorem engaged_of_watches {x : Control} (watches : x.Watches round) :
    x.engaged = true ∧ x ≠ .serving .raise := by
  obtain ⟨s, rfl, stage⟩ := watches.serving
  cases s with
  | look | raise => cases stage
  | _ => exact ⟨rfl, by rintro ⟨⟩⟩

/-- All workers join the open round once all are ready. -/
theorem Waits.muster (waits : Waits m) (calm : m.Calm) (allReady : m.AllReady round) :
    Attains m fun a => m.Abides a ∧ a.AllReady round ∧
      ∀ id, 0 < id → id < m.size → (a.controlOf id).Watches round := by
  refine Waits.each (fun a => a.AllReady round)
    (fun a id => (a.controlOf id).Watches round) ?_ ?_ waits calm allReady
  · intro m id waits calm allReady pos inside
    refine (waits.joins calm pos inside allReady).mono fun a there => ?_
    obtain ⟨beside, watches, down, known⟩ := there
    refine ⟨beside, ⟨beside.round.trans allReady.opened, down,
      fun q => empty_of_perm (beside.queues q) (allReady.empty q), fun o pos inside => ?_⟩, watches⟩
    by_cases own : o = id
    · subst own
      obtain ⟨engaged, unraised⟩ := engaged_of_watches watches
      exact .inr ⟨engaged, unraised, known⟩
    · rw [Ready, beside.others o own, beside.seen o own]
      exact allReady.ready o pos (beside.size ▸ inside)
  · intro m a id o beside other watches
    rw [beside.others o other]
    exact watches

/-- A round drains once all workers wait for its end. -/
theorem Waits.phase_draining (waits : Waits m) (opened : m.round? = some round)
    (watching : ∀ id, 0 < id → id < m.size → (m.controlOf id).Watches round) :
    ∃ w, m.barrier.load = .ok w ∧ w.phase = .draining := by
  obtain ⟨w, loaded, active, rfl⟩ := round?_eq_some.1 opened
  obtain ⟨w', loaded', room⟩ := waits.word
  rw [loaded] at loaded'
  cases loaded'
  obtain ⟨c, laps⟩ := waits.laps
  have count := laps.counted w loaded active ((List.range m.size).erase 0)
    (List.nodup_range.erase 0) fun id mem => by
      rw [List.nodup_range.mem_erase_iff, List.mem_range] at mem
      have pos := Nat.pos_of_ne_zero mem.1
      exact ⟨pos, mem.2, watching id pos mem.2⟩
  refine ⟨w, loaded, ?_⟩
  cases phase : w.phase with
  | idle => exact absurd phase active
  | entering =>
      have short := room phase
      rw [List.length_erase, List.length_range] at count
      rw [participants] at short
      split at count <;> omega
  | draining => rfl

end Machine

end AccessOrder.Pool
