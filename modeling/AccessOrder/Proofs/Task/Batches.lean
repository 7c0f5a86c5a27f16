/- # Tasks that are built at the same time

Several tasks are built at the same time, each one reserving the versions of its accesses one after
the other, and the reservations of different tasks follow one another in any order.  Where two tasks
access one handle they do so under one commutative kind.  Then two reservations in a row can be
exchanged, so that every order comes to the same versions and leaves the same handles.

* `Fits.reserve_comm` : the order of two reservations makes no difference;
* `Fits.run_perm` : neither does the order of all of them;
* `run_of_finish` : a task that is built undisturbed reserves its versions one after the other;
* `builds_commute` : the versions and the handles, whatever else happens but releases.
-/
import AccessOrder.Proofs.Handle.Grouping
import AccessOrder.Proofs.Task.Handles
import AccessOrder.Task.Draft
namespace AccessOrder

open Access (Vocabulary Kind)

/-! ## The next version of a kind -/

namespace Handle

variable {τ : Type} {h : Handle τ} {k : Kind} {v : Version} {vocabulary : Vocabulary}

/-- The version that the next access of a kind gets. -/
def due (h : Handle τ) (k : Kind) : Version :=
  max ((k.index.bind (h.nextRequired[·]?)).getD 0) h.completed

theorem due_eq {index : Nat} {required : Version} (place : k.index = some index)
    (found : h.nextRequired[index]? = some required) : h.due k = max required h.completed := by
  rw [due, place, Option.bind_some, found, Option.getD_some]

/-- The version that a commutative access has got is due to the next access of its kind. -/
theorem Sound.due_schedule (sound : h.Sound) (scheduled : (h.schedule k).1 = .ok v)
    (commutative : k.properties.commutative = true) : (h.schedule k).2.due k = v := by
  obtain ⟨-, seen, offers⟩ := sound.schedule scheduled
  obtain ⟨index, required, place, found, -⟩ := schedule_eq_ok scheduled
  have reached : h.completed ≤ v := offers.reached
  have completed : (h.schedule k).2.completed = h.completed := congrArg View.completed seen
  have table : (h.schedule k).2.nextRequired = following h.nextRequired index true v := by
    have required := congrArg View.required seen
    rwa [View.scheduled, place, commutative] at required
  have entry : (h.schedule k).2.nextRequired[index]? = some v := by
    rw [table, following, List.getElem?_mapIdx, found]
    simp
  rw [due_eq place entry, completed, Nat.max_eq_left reached]

/-- A handle that has come about by calls for listed kinds. -/
def Reached (vocabulary : Vocabulary) (h : Handle τ) : Prop :=
  ∃ past : List (Request τ), (∀ k, .schedule k ∈ past → k ∈ vocabulary.listed) ∧
    h = after vocabulary.listed.length past

namespace Reached

theorem sound (reached : h.Reached vocabulary) : h.Sound := by
  obtain ⟨past, -, rfl⟩ := reached
  exact sound_after _ past

theorem respond (reached : h.Reached vocabulary) {r : Request τ}
    (asked : ∀ k, r = .schedule k → k ∈ vocabulary.listed) :
    (h.respond r).2.Reached vocabulary := by
  obtain ⟨past, listed, rfl⟩ := reached
  refine ⟨r :: past, fun k mem => ?_, rfl⟩
  rcases List.mem_cons.1 mem with same | mem
  · exact asked k same.symm
  · exact listed k mem

theorem schedule (reached : h.Reached vocabulary) (listed : k ∈ vocabulary.listed) :
    (h.schedule k).2.Reached vocabulary := by
  have called := reached.respond (r := .schedule k) fun _ same =>
    Request.schedule.inj same ▸ listed
  rwa [Handle.respond, snd_reply] at called

/-- An access of a listed kind gets the version that is due, if that one has room for it. -/
theorem schedule_eq (reached : h.Reached vocabulary)
    (valid : vocabulary.kindSet.validate = .ok ()) (listed : k ∈ vocabulary.listed)
    (room : h.view.holders (h.due k) < maxHolders) : (h.schedule k).1 = .ok (h.due k) := by
  obtain ⟨past, asked, rfl⟩ := reached
  have sound := sound_after vocabulary.listed.length past
  obtain ⟨index, required, place, found, joins⟩ :=
    (grouped_after valid past asked).exists_required sound valid listed
  rw [due_eq place found] at room ⊢
  exact (sound.schedule_cases place found joins).resolve_right fun crowded =>
    Nat.not_le_of_lt room crowded.2

end Reached

/-! ## What calls have to do with versions -/

/-- What a handle keeps about versions: the completed one, the next one of each kind, and how many
accesses hold each version in use. -/
structure Books where
  completed : Version
  nextRequired : List Version
  holders : List Nat

/-- The books of a handle. -/
def books (h : Handle τ) : Books := ⟨h.completed, h.nextRequired, h.slots.map Slot.holders⟩

/-- Whether a call neither reserves nor releases a version. -/
def Request.quiet : Request τ → Bool
  | .register .. | .tryLock | .unlock => true
  | .schedule _ | .advance _ => false

/-- Counting one more holder, as it is done in the books. -/
theorem map_hold (h : Handle τ) (offset : Nat) :
    (h.hold offset).map (List.map Slot.holders) =
      match h.books.holders[offset]? with
      | some n =>
        if n < maxHolders then .ok (h.books.holders.set offset (n + 1)) else .error .scheduleCrowded
      | none =>
        if offset = h.books.holders.length then .ok (h.books.holders ++ [1])
        else .error (.scheduleGap offset h.books.holders.length) := by
  unfold hold books
  rw [List.getElem?_map, List.length_map]
  cases h.slots[offset]? with
  | none =>
      simp only [Option.map_none]
      split
      · simp [Except.map]
      · rfl
  | some slot =>
      simp only [Option.map_some]
      split
      · simp [Except.map, List.map_set]
      · rfl

/-- Handles with the same books give the same version, and have the same books afterwards. -/
theorem schedule_of_books {h h' : Handle τ} (same : h.books = h'.books) (k : Kind) :
    (h.schedule k).1 = (h'.schedule k).1 ∧ (h.schedule k).2.books = (h'.schedule k).2.books := by
  obtain ⟨completed, table, holders⟩ := Books.mk.inj same
  have held (offset : Nat) : (h.hold offset).map (List.map Slot.holders) =
      (h'.hold offset).map (List.map Slot.holders) := by rw [map_hold, map_hold, same]
  unfold schedule
  rw [completed, table]
  cases k.index with
  | none => exact ⟨rfl, same⟩
  | some index =>
      simp only
      cases h'.nextRequired[index]? with
      | none => exact ⟨rfl, same⟩
      | some required =>
          simp only
          split
          · exact ⟨rfl, same⟩
          · have held := held (max required h'.completed - h'.completed)
            cases first : h.hold (max required h'.completed - h'.completed) <;>
              cases second : h'.hold (max required h'.completed - h'.completed) <;>
              rw [first, second] at held <;> simp only [Except.map] at held
            · obtain rfl := Except.error.inj held
              exact ⟨rfl, same⟩
            · cases held
            · cases held
            · refine ⟨rfl, ?_⟩
              simp only [books, Except.ok.inj held]

/-- A quiet call leaves the books as they are. -/
theorem books_respond (h : Handle τ) {r : Request τ} (quiet : r.quiet = true) :
    (h.respond r).2.books = h.books := by
  cases r with
  | schedule k => cases quiet
  | advance v => cases quiet
  | tryLock => rfl
  | unlock => rw [respond, snd_reply]; rfl
  | register t v =>
      rw [respond, snd_reply]
      unfold register
      split
      · rfl
      · split
        · rfl
        · simp only
          split
          · rfl
          · next slot found =>
            obtain ⟨inside, rfl⟩ := List.getElem?_eq_some_iff.1 found
            simp only [books, List.map_set]
            rw [← List.getElem_map Slot.holders (h := by simpa using inside),
              List.set_getElem_self]

end Handle

/-- Operations on different handles can be exchanged. -/
theorem Handles.run_comm {α β : Type} (hs : Handles) {id other : HandleId} (apart : id ≠ other)
    (op : Handle Task → Except Handle.Fault α × Handle Task)
    (op' : Handle Task → Except Handle.Fault β × Handle Task) :
    ((hs.run id op).2.run other op').2 = ((hs.run other op').2.run id op).2 := by
  have first : (hs.run id op).2.get other = hs.get other := get_run_of_ne apart op
  have second : (hs.run other op').2.get id = hs.get id := get_run_of_ne apart.symm op'
  unfold run at first second ⊢
  simp only at first second ⊢
  rw [first, second, Array.setIfInBounds_comm _ _ apart]

/-! ## Batches -/

/-- Tasks that are built at the same time, and the handles that they access. -/
@[ext]
structure Batch where
  handles : Handles
  drafts : List Draft

namespace Batch

/-- Something that happens while the tasks of a batch are being built. -/
inductive Move where
  /-- The task at a place reserves the version of its next access. -/
  | reserve (place : Nat)
  /-- Some call on a handle. -/
  | call (id : HandleId) (request : Handle.Request Task)

/-- The task at a place reserves the version of its next access, if there is one left. -/
def reserve (b : Batch) (place : Nat) : Except Failure Batch :=
  match b.drafts[place]? with
  | none => .ok b
  | some d =>
    match d.step b.handles with
    | (.error f, _) => .error f
    | (.ok (.built _), _) => .ok b
    | (.ok (.more d), hs) => .ok ⟨hs, b.drafts.set place d⟩

/-- A call on a handle. -/
def call (b : Batch) (id : HandleId) (r : Handle.Request Task) : Batch :=
  { b with
    handles.units := b.handles.units.setIfInBounds id ((b.handles.get id).respond r).2 }

def Move.apply (b : Batch) : Move → Except Failure Batch
  | .reserve place => b.reserve place
  | .call id r => .ok (b.call id r)

/-- What becomes of a batch by some moves, the first one first. -/
def run (b : Batch) : List Move → Except Failure Batch
  | [] => .ok b
  | m :: moves => m.apply b >>= (·.run moves)

/-- A task that has just been drafted accesses no handle twice. -/
theorem distinct_of_draft {hs : Handles} {serial : Nat} {blueprint : Blueprint Act} {d : Draft}
    (drafted : blueprint.draft hs serial = .ok d) : (d.pending.map (·.handle)).Nodup := by
  unfold Blueprint.draft at drafted
  split at drafted
  · cases drafted
  · next located found =>
    obtain rfl := Except.ok.inj drafted
    exact Handles.nodup_locate found

/-! ## One reservation -/

/-- How many accesses of a handle are pending. -/
def demand (ds : List Draft) (id : HandleId) : Nat :=
  (ds.flatMap Draft.pending).countP (·.handle = id)

/-- What is known of a batch: its handles have come about by calls for listed kinds, and there is a
handle for every pending access, which is of a listed kind; no task accesses a handle twice, and
where two tasks access one handle they do so under one commutative kind; the version that is due to
an access has room for all that are pending. -/
structure Fits (vocabulary : Vocabulary) (b : Batch) : Prop where
  reached : ∀ id < b.handles.units.size, (b.handles.get id).Reached vocabulary
  declared : ∀ d ∈ b.drafts, ∀ a ∈ d.pending,
    a.handle < b.handles.units.size ∧ a.kind ∈ vocabulary.listed
  distinct : ∀ d ∈ b.drafts, (d.pending.map (·.handle)).Nodup
  alike : b.drafts.Pairwise fun d d' => ∀ a ∈ d.pending, ∀ a' ∈ d'.pending,
    a.handle = a'.handle → a.kind = a'.kind ∧ a.kind.properties.commutative = true
  room : ∀ d ∈ b.drafts, ∀ a ∈ d.pending,
    (b.handles.view a.handle).holders ((b.handles.get a.handle).due a.kind) +
      demand b.drafts a.handle ≤ Handle.maxHolders

/-- The batch after the task at a place has got the version of its next access. -/
def reserved (b : Batch) (place : Nat) (d : Draft) (a : Access.Located)
    (rest : List Access.Located) : Batch where
  handles := (b.handles.run a.handle (·.schedule a.kind)).2
  drafts := b.drafts.set place (d.resolve a rest ((b.handles.get a.handle).due a.kind))

variable {vocabulary : Vocabulary} {b : Batch} {place : Nat} {d : Draft} {a : Access.Located}
  {rest : List Access.Located}

theorem get_reserved_self (inside : a.handle < b.handles.units.size) :
    (b.reserved place d a rest).handles.get a.handle =
      ((b.handles.get a.handle).schedule a.kind).2 :=
  Handles.get_run_self inside (·.schedule a.kind)

theorem get_reserved_of_ne {id : HandleId} (apart : a.handle ≠ id) :
    (b.reserved place d a rest).handles.get id = b.handles.get id :=
  Handles.get_run_of_ne apart (·.schedule a.kind)

/-- A task that has got all its versions does not change any more. -/
theorem reserve_of_finished (finished : ∀ d ∈ b.drafts[place]?, d.pending = []) :
    b.reserve place = .ok b := by
  unfold reserve
  cases here : b.drafts[place]? with
  | none => rfl
  | some d => simp [Draft.step, finished d here]

/-- A pending access of a handle counts towards its demand. -/
theorem demand_set {ds : List Draft} (here : ds[place]? = some d) (next : d.pending = a :: rest)
    (v : Version) (id : HandleId) :
    demand (ds.set place (d.resolve a rest v)) id + (if a.handle = id then 1 else 0) =
      demand ds id := by
  induction ds generalizing place with
  | nil => simp at here
  | cons x ds ih =>
      cases place with
      | zero =>
          obtain rfl : x = d := by simpa using here
          simp [demand, next, Draft.resolve, List.countP_cons]
      | succ place =>
          have there : ds[place]? = some d := by simpa using here
          have rest := ih there
          simp only [demand, List.set_cons_succ, List.flatMap_cons, List.countP_append] at rest ⊢
          lia

/-- An access that is pending is counted. -/
theorem demand_pos {ds : List Draft} (mem : d ∈ ds) (pending : a ∈ d.pending) :
    0 < demand ds a.handle :=
  List.countP_pos_iff.2 ⟨a, List.mem_flatMap_of_mem mem pending, by simp⟩

/-- Nothing becomes pending. -/
theorem pending_reserved (here : b.drafts[place]? = some d) (next : d.pending = a :: rest) (i : Nat)
    {x : Draft} (found : (b.reserved place d a rest).drafts[i]? = some x) :
    ∃ y, b.drafts[i]? = some y ∧ x.pending.Sublist y.pending ∧ (i = place → x.pending = rest) := by
  by_cases same : place = i
  · subst same
    have inside : place < b.drafts.length := (List.getElem?_eq_some_iff.1 here).1
    rw [reserved, List.getElem?_set_self inside, Option.some.injEq] at found
    subst found
    exact ⟨d, here, next ▸ List.sublist_cons_self a rest, fun _ => rfl⟩
  · rw [reserved, List.getElem?_set_ne same] at found
    exact ⟨x, found, .refl _, fun back => absurd back.symm same⟩

namespace Fits

/-- Two tasks access one handle under one commutative kind. -/
theorem same_kind (fits : b.Fits vocabulary) {i j : Nat} {d d' : Draft} (apart : i ≠ j)
    (here : b.drafts[i]? = some d) (there : b.drafts[j]? = some d') {a a' : Access.Located}
    (mem : a ∈ d.pending) (mem' : a' ∈ d'.pending) (same : a.handle = a'.handle) :
    a.kind = a'.kind ∧ a.kind.properties.commutative = true := by
  obtain ⟨inside, rfl⟩ := List.getElem?_eq_some_iff.1 here
  obtain ⟨inside', rfl⟩ := List.getElem?_eq_some_iff.1 there
  have alike := List.pairwise_iff_getElem.1 fits.alike
  rcases Nat.lt_or_gt_of_ne apart with before | after
  · exact alike i j inside inside' before a mem a' mem' same
  · obtain ⟨kind, commutative⟩ := alike j i inside' inside after a' mem' a mem same.symm
    exact ⟨kind.symm, kind ▸ commutative⟩

variable (fits : b.Fits vocabulary) (here : b.drafts[place]? = some d)
  (next : d.pending = a :: rest)

include fits here next

/-- The next access of a task has a handle and a listed kind. -/
theorem next_declared : a.handle < b.handles.units.size ∧ a.kind ∈ vocabulary.listed :=
  fits.declared d (List.mem_of_getElem? here) a (by simp [next])

/-- The next access of a task gets the version that is due. -/
theorem schedule_eq (valid : vocabulary.kindSet.validate = .ok ()) :
    ((b.handles.get a.handle).schedule a.kind).1 =
      .ok ((b.handles.get a.handle).due a.kind) := by
  obtain ⟨inside, listed⟩ := fits.next_declared here next
  have mem : a ∈ d.pending := by simp [next]
  have room := fits.room d (List.mem_of_getElem? here) a mem
  have pending := demand_pos (List.mem_of_getElem? here) mem
  exact (fits.reached _ inside).schedule_eq valid listed (by unfold Handles.view at room; lia)

/-- No reservation fails. -/
theorem reserve_eq (valid : vocabulary.kindSet.validate = .ok ()) :
    b.reserve place = .ok (b.reserved place d a rest) := by
  have scheduled := fits.schedule_eq here next valid
  have ran : b.handles.run a.handle (·.schedule a.kind) =
      (.ok ((b.handles.get a.handle).due a.kind), (b.handles.run a.handle (·.schedule a.kind)).2) :=
    Prod.ext (congrArg (Except.mapError Failure.handle) scheduled) rfl
  have moved : d.step b.handles = (.ok (.more (d.resolve a rest
      ((b.handles.get a.handle).due a.kind))), (b.handles.run a.handle (·.schedule a.kind)).2) := by
    unfold Draft.step
    rw [next]
    simp only
    rw [ran]
  unfold reserve
  rw [here]
  simp only [moved]
  rfl

/-- A reservation leaves room for those to come. -/
theorem room_reserved (valid : vocabulary.kindSet.validate = .ok ()) {x : Draft}
    (mem : x ∈ (b.reserved place d a rest).drafts) {c : Access.Located} (pending : c ∈ x.pending) :
    ((b.reserved place d a rest).handles.view c.handle).holders
        (((b.reserved place d a rest).handles.get c.handle).due c.kind) +
      demand (b.reserved place d a rest).drafts c.handle ≤ Handle.maxHolders := by
  obtain ⟨inside, listed⟩ := fits.next_declared here next
  obtain ⟨i, found⟩ := List.mem_iff_getElem?.1 mem
  obtain ⟨y, was, sublist, last⟩ := pending_reserved here next i found
  have before := fits.room y (List.mem_of_getElem? was) c (sublist.subset pending)
  have fewer := demand_set here next ((b.handles.get a.handle).due a.kind) c.handle
  by_cases same : a.handle = c.handle
  · -- the access is of another task, so it joins the version that has just been reserved
    have other : i ≠ place := fun back => by
      have distinct := fits.distinct d (List.mem_of_getElem? here)
      rw [next, List.map_cons, List.nodup_cons, same] at distinct
      exact distinct.1 (List.mem_map_of_mem (last back ▸ pending))
    obtain ⟨kind, commutative⟩ := fits.same_kind other.symm here was (by simp [next])
      (sublist.subset pending) same
    have scheduled := fits.schedule_eq here next valid
    have sound := (fits.reached _ inside).sound
    rw [if_pos same, ← same] at fewer
    rw [← same, ← kind, Handles.view] at before ⊢
    rw [get_reserved_self inside, sound.due_schedule scheduled commutative,
      (sound.schedule scheduled).2.1]
    have counted : ((b.handles.get a.handle).view.scheduled a.kind
        ((b.handles.get a.handle).due a.kind)).holders ((b.handles.get a.handle).due a.kind) =
        (b.handles.get a.handle).view.holders ((b.handles.get a.handle).due a.kind) + 1 :=
      Function.update_self ..
    rw [counted, Batch.reserved]
    lia
  · rw [if_neg same, Nat.add_zero] at fewer
    rw [Handles.view, get_reserved_of_ne same, Batch.reserved, fewer]
    exact before

/-- A batch stays as it should be when a task reserves a version. -/
theorem reserved (valid : vocabulary.kindSet.validate = .ok ()) :
    (b.reserved place d a rest).Fits vocabulary := by
  obtain ⟨inside, listed⟩ := fits.next_declared here next
  have was : ∀ x ∈ (b.reserved place d a rest).drafts, ∃ y ∈ b.drafts,
      x.pending.Sublist y.pending := fun x mem => by
    obtain ⟨i, found⟩ := List.mem_iff_getElem?.1 mem
    obtain ⟨y, was, sublist, -⟩ := pending_reserved here next i found
    exact ⟨y, List.mem_of_getElem? was, sublist⟩
  refine ⟨fun id within => ?_, fun x mem c pending => ?_, fun x mem => ?_, ?_,
    fun x mem c pending => fits.room_reserved here next valid mem pending⟩
  · have within : id < b.handles.units.size := by
      simpa only [Batch.reserved, Handles.size_run] using within
    by_cases same : a.handle = id
    · subst same
      rw [get_reserved_self inside]
      exact (fits.reached _ inside).schedule listed
    · rw [get_reserved_of_ne same]
      exact fits.reached id within
  · obtain ⟨y, mem, sublist⟩ := was x mem
    rw [Batch.reserved, Handles.size_run]
    exact fits.declared y mem c (sublist.subset pending)
  · obtain ⟨y, mem, sublist⟩ := was x mem
    exact (fits.distinct y mem).sublist (sublist.map _)
  · refine List.pairwise_iff_getElem.2 fun i j before after lt c pending c' pending' same => ?_
    obtain ⟨y, here', sublist, -⟩ := pending_reserved here next i (List.getElem?_eq_getElem before)
    obtain ⟨z, there', sublist', -⟩ := pending_reserved here next j (List.getElem?_eq_getElem after)
    exact fits.same_kind lt.ne here' there' (sublist.subset pending) (sublist'.subset pending') same

end Fits

/-! ## Two reservations -/

namespace Fits

variable (fits : b.Fits vocabulary) (valid : vocabulary.kindSet.validate = .ok ()) {i j : Nat}
  (apart : i ≠ j) {d d' : Draft} {a a' : Access.Located} {rest rest' : List Access.Located}
  (here : b.drafts[i]? = some d) (next : d.pending = a :: rest)
  (there : b.drafts[j]? = some d') (next' : d'.pending = a' :: rest')

include fits valid apart here next there next'

/-- A reservation makes no difference to the version that is due to another task. -/
theorem due_reserved :
    ((b.reserved i d a rest).handles.get a'.handle).due a'.kind =
      (b.handles.get a'.handle).due a'.kind := by
  by_cases same : a.handle = a'.handle
  · obtain ⟨kind, commutative⟩ :=
      fits.same_kind apart here there (by simp [next]) (by simp [next']) same
    obtain ⟨inside, -⟩ := fits.next_declared here next
    rw [← same, ← kind, get_reserved_self inside]
    exact (fits.reached _ inside).sound.due_schedule (fits.schedule_eq here next valid) commutative
  · rw [get_reserved_of_ne same]

/-- The reservations of two tasks can be exchanged. -/
theorem reserved_comm :
    (b.reserved i d a rest).reserved j d' a' rest' =
      (b.reserved j d' a' rest').reserved i d a rest := by
  refine Batch.ext ?_ ?_
  · by_cases same : a.handle = a'.handle
    · obtain ⟨kind, -⟩ :=
        fits.same_kind apart here there (by simp [next]) (by simp [next']) same
      simp only [Batch.reserved, same, kind]
    · exact Handles.run_comm b.handles same (·.schedule a.kind) (·.schedule a'.kind)
  · have due := fits.due_reserved valid apart here next there next'
    have due' := fits.due_reserved valid apart.symm there next' here next
    show (b.drafts.set i _).set j (d'.resolve a' rest' (Handle.due _ a'.kind)) =
      (b.drafts.set j _).set i (d.resolve a rest (Handle.due _ a.kind))
    rw [due, due']
    exact List.set_comm _ _ apart

end Fits

/-- The order of two reservations makes no difference. -/
theorem Fits.reserve_comm (fits : b.Fits vocabulary)
    (valid : vocabulary.kindSet.validate = .ok ()) (i j : Nat) :
    (b.reserve i >>= (·.reserve j)) = (b.reserve j >>= (·.reserve i)) := by
  by_cases apart : i = j
  · rw [apart]
  -- a task that has got all its versions stays as it is when another one reserves a version
  have idle : ∀ {i j : Nat}, i ≠ j → (∀ d ∈ b.drafts[i]?, d.pending = []) →
      (b.reserve i >>= (·.reserve j)) = (b.reserve j >>= (·.reserve i)) := by
    intro i j apart finished
    rw [reserve_of_finished finished]
    show b.reserve j = _
    by_cases done : ∀ d ∈ b.drafts[j]?, d.pending = []
    · rw [reserve_of_finished done]
      exact (reserve_of_finished finished).symm
    · push Not at done
      obtain ⟨d, there, more⟩ := done
      obtain ⟨a, rest, next⟩ := List.exists_cons_of_ne_nil more
      rw [fits.reserve_eq there next valid]
      refine (reserve_of_finished fun x found => finished x ?_).symm
      rwa [Batch.reserved, List.getElem?_set_ne (Ne.symm apart)] at found
  by_cases finished : ∀ d ∈ b.drafts[i]?, d.pending = []
  · exact idle apart finished
  by_cases finished' : ∀ d ∈ b.drafts[j]?, d.pending = []
  · exact (idle (Ne.symm apart) finished').symm
  push Not at finished finished'
  obtain ⟨d, here, more⟩ := finished
  obtain ⟨a, rest, next⟩ := List.exists_cons_of_ne_nil more
  obtain ⟨d', there, more'⟩ := finished'
  obtain ⟨a', rest', next'⟩ := List.exists_cons_of_ne_nil more'
  have first := fits.reserved here next valid
  have second := fits.reserved there next' valid
  rw [fits.reserve_eq here next valid, fits.reserve_eq there next' valid]
  show (b.reserved i d a rest).reserve j = (b.reserved j d' a' rest').reserve i
  have there' : (b.reserved i d a rest).drafts[j]? = some d' := by
    rw [Batch.reserved, List.getElem?_set_ne apart, there]
  have here' : (b.reserved j d' a' rest').drafts[i]? = some d := by
    rw [Batch.reserved, List.getElem?_set_ne (Ne.symm apart), here]
  rw [first.reserve_eq there' next' valid, second.reserve_eq here' next valid,
    fits.reserved_comm valid apart here next there next']

/-! ## All reservations -/

/-- What a task is made of: its number, what is declared about it, and its accesses, whether or not
they have got their versions. -/
def outline (d : Draft) : Nat × Blueprint Act × List Access.Located :=
  (d.serial, d.blueprint, d.resolved.map Dependency.toLocated ++ d.pending)

/-- Every task of a batch, as often as it has pending accesses, in order; `k` is the place of the
first one. -/
def turnsFrom : Nat → List Draft → List Nat
  | _, [] => []
  | k, d :: ds => List.replicate d.pending.length k ++ turnsFrom (k + 1) ds

/-- The places of the tasks of a batch, each as often as its task has pending accesses. -/
def turns (ds : List Draft) : List Nat := turnsFrom 0 ds

theorem le_of_mem_turnsFrom {ds : List Draft} {k i : Nat} (mem : i ∈ turnsFrom k ds) : k ≤ i := by
  induction ds generalizing k with
  | nil => cases mem
  | cons d ds ih =>
      rcases List.mem_append.1 mem with here | later
      · exact (List.eq_of_mem_replicate here).ge
      · exact Nat.le_of_succ_le (ih later)

theorem count_turnsFrom (ds : List Draft) (k i : Nat) :
    (turnsFrom k ds).count (k + i) = (ds[i]?).elim 0 (·.pending.length) := by
  induction ds generalizing k i with
  | nil => simp [turnsFrom]
  | cons d ds ih =>
      rw [turnsFrom, List.count_append, List.count_replicate]
      cases i with
      | zero =>
          have later : (turnsFrom (k + 1) ds).count k = 0 :=
            List.count_eq_zero.2 fun mem => Nat.not_succ_le_self k (le_of_mem_turnsFrom mem)
          simp [later]
      | succ i =>
          have rest := ih (k + 1) i
          rw [Nat.add_right_comm] at rest
          have other : ¬ k = k + i + 1 := by lia
          simpa [← Nat.add_assoc, other] using rest

/-- A task stands among the turns as often as it has pending accesses. -/
theorem count_turns (ds : List Draft) (i : Nat) :
    (turns ds).count i = (ds[i]?).elim 0 (·.pending.length) := by
  simpa [turns] using count_turnsFrom ds 0 i

/-- The accesses of the task at a place that are pending. -/
def left (b : Batch) (place : Nat) : Option (List Access.Located) :=
  b.drafts[place]?.map Draft.pending

/-- A task keeps what it is made of. -/
theorem outline_reserved (here : b.drafts[place]? = some d) (next : d.pending = a :: rest) :
    (b.reserved place d a rest).drafts.map outline = b.drafts.map outline := by
  obtain ⟨inside, rfl⟩ := List.getElem?_eq_some_iff.1 here
  have bounded : place < (b.drafts.map outline).length := by simpa using inside
  have same (v : Version) :
      outline (b.drafts[place].resolve a rest v) = (b.drafts.map outline)[place] := by
    simp [outline, Draft.resolve, next]
  rw [reserved, List.map_set, same, List.set_getElem_self]

/-- One access less of the task is pending, and as many as before of the others. -/
theorem left_reserved (here : b.drafts[place]? = some d) (next : d.pending = a :: rest) (i : Nat) :
    (b.reserved place d a rest).left i = (b.left i).map (·.drop ([place].count i)) := by
  unfold left
  by_cases same : place = i
  · subst same
    have inside : place < b.drafts.length := (List.getElem?_eq_some_iff.1 here).1
    rw [reserved, List.getElem?_set_self inside, here]
    simp [next, Draft.resolve]
  · rw [reserved, List.getElem?_set_ne same]
    simp [same, Function.comp_def]

/-- No reservation fails, and each takes one access off what is pending. -/
theorem Fits.exists_reserve (fits : b.Fits vocabulary)
    (valid : vocabulary.kindSet.validate = .ok ()) (place : Nat) :
    ∃ b', b.reserve place = .ok b' ∧ b'.Fits vocabulary ∧
      b'.drafts.map outline = b.drafts.map outline ∧
      ∀ i, b'.left i = (b.left i).map (·.drop ([place].count i)) := by
  by_cases finished : ∀ d ∈ b.drafts[place]?, d.pending = []
  · refine ⟨b, reserve_of_finished finished, fits, rfl, fun i => ?_⟩
    unfold left
    by_cases same : place = i
    · subst same
      cases here : b.drafts[place]? with
      | none => rfl
      | some d => simp [finished d here]
    · simp [same, Function.comp_def]
  · push Not at finished
    obtain ⟨d, here, more⟩ := finished
    obtain ⟨a, rest, next⟩ := List.exists_cons_of_ne_nil more
    exact ⟨_, fits.reserve_eq here next valid, fits.reserved here next valid,
      outline_reserved here next, left_reserved here next⟩

/-- No reservation fails, in whatever order they come. -/
theorem Fits.exists_run (fits : b.Fits vocabulary) (valid : vocabulary.kindSet.validate = .ok ())
    (places : List Nat) :
    ∃ b', b.run (places.map .reserve) = .ok b' ∧
      b'.drafts.map outline = b.drafts.map outline ∧
      ∀ i, b'.left i = (b.left i).map (·.drop (places.count i)) := by
  induction places generalizing b with
  | nil => exact ⟨b, rfl, rfl, fun i => by simp⟩
  | cons place places ih =>
      obtain ⟨b', reserved, fits', same, fewer⟩ := fits.exists_reserve valid place
      obtain ⟨built, ran, same', fewer'⟩ := ih fits'
      refine ⟨built, ?_, same'.trans same, fun i => ?_⟩
      · simp only [List.map_cons, run, Move.apply, reserved]
        exact ran
      · have both : ([place] ++ places).count i = [place].count i + places.count i :=
          List.count_append
        rw [List.singleton_append] at both
        rw [fewer', fewer, Option.map_map, both]
        simp only [Function.comp_def, List.drop_drop]

/-- The order of reservations makes no difference. -/
theorem Fits.run_perm (fits : b.Fits vocabulary) (valid : vocabulary.kindSet.validate = .ok ())
    {places places' : List Nat} (same : places.Perm places') :
    b.run (places.map .reserve) = b.run (places'.map .reserve) := by
  induction same generalizing b with
  | nil => rfl
  | cons place _ ih =>
      obtain ⟨b', reserved, fits', -⟩ := fits.exists_reserve valid place
      simp only [List.map_cons, run, Move.apply, reserved]
      exact ih fits'
  | swap i j places =>
      have swapped := congrArg (· >>= (·.run (places.map .reserve))) (fits.reserve_comm valid j i)
      simpa only [List.map_cons, run, Move.apply, bind_assoc] using swapped
  | trans _ _ ih ih' => exact (ih fits).trans (ih' fits)

/-! ## Other calls -/

/-- The place of the task that a move reserves a version for. -/
def Move.place? : Move → Option Nat
  | .reserve place => some place
  | .call .. => none

/-- Whether a move neither releases a version nor reserves one but for a task of the batch. -/
def Move.quiet : Move → Bool
  | .reserve _ => true
  | .call _ r => r.quiet

/-- The same tasks, and handles with the same books. -/
structure Alike (b b' : Batch) : Prop where
  drafts : b.drafts = b'.drafts
  size : b.handles.units.size = b'.handles.units.size
  books : ∀ id, (b.handles.get id).books = (b'.handles.get id).books

namespace Alike

variable {b' c' : Batch} (alike : b.Alike b')

include alike

/-- A quiet call makes no difference. -/
theorem call (id : HandleId) {r : Handle.Request Task} (quiet : r.quiet = true) :
    (b.call id r).Alike b' := by
  refine ⟨alike.drafts, ?_, fun other => ?_⟩
  · rw [← alike.size, Batch.call, Array.size_setIfInBounds]
  · rw [Batch.call, Handles.get_set]
    split
    · next same =>
      rw [Handle.books_respond _ quiet, ← same.1, alike.books]
    · exact alike.books other

/-- A reservation does the same. -/
theorem reserve (done : b'.reserve place = .ok c') :
    ∃ c, b.reserve place = .ok c ∧ c.Alike c' := by
  unfold Batch.reserve at done ⊢
  rw [alike.drafts]
  cases here : b'.drafts[place]? with
  | none =>
      simp only [here, Except.ok.injEq] at done
      exact ⟨b, rfl, done ▸ alike⟩
  | some d =>
      rw [here] at done
      cases next : d.pending with
      | nil =>
          simp only [Draft.step, next, Except.ok.injEq] at done ⊢
          exact ⟨b, rfl, done ▸ alike⟩
      | cons a rest =>
          obtain ⟨first, after⟩ := Handle.schedule_of_books (alike.books a.handle) a.kind
          simp only [Draft.step, next, Handles.run, first] at done ⊢
          cases result : ((b'.handles.get a.handle).schedule a.kind).1 with
          | error f =>
              rw [result] at done
              cases done
          | ok v =>
              rw [result] at done
              obtain rfl := Except.ok.inj done
              refine ⟨_, rfl, rfl, ?_, fun id => ?_⟩
              · simp only [Array.size_setIfInBounds, alike.size]
              · rw [Handles.get_set, Handles.get_set, alike.size]
                split
                · exact after
                · exact alike.books id

/-- Moves that are quiet come to what the reservations among them come to. -/
theorem run {moves : List Move} (quiet : ∀ m ∈ moves, m.quiet = true)
    (done : b'.run ((moves.filterMap Move.place?).map .reserve) = .ok c') :
    ∃ c, b.run moves = .ok c ∧ c.Alike c' := by
  induction moves generalizing b b' with
  | nil =>
      obtain rfl := Except.ok.inj done
      exact ⟨b, rfl, alike⟩
  | cons m moves ih =>
      obtain ⟨first, later⟩ := List.forall_mem_cons.1 quiet
      cases m with
      | call id r => exact ih (alike.call id first) later done
      | reserve place =>
          replace done : (b'.reserve place >>=
            (·.run ((moves.filterMap Move.place?).map .reserve))) = .ok c' := done
          cases reserved : b'.reserve place with
          | error f =>
              rw [reserved] at done
              cases done
          | ok d' =>
              rw [reserved] at done
              obtain ⟨d, reserved', same⟩ := alike.reserve reserved
              obtain ⟨c, ran, same'⟩ := ih same later done
              refine ⟨c, ?_, same'⟩
              rw [Batch.run, Move.apply, reserved']
              exact ran

end Alike

/-! ## The order makes no difference -/

/-- Tasks that are built at the same time, no two of which access a handle but under one commutative
kind, get the same versions in whatever order they reserve them, and leave handles with the same
books; no reservation fails.  Nothing else matters that happens in the meantime, as long as no
version is released. -/
theorem builds_commute (valid : vocabulary.kindSet.validate = .ok ()) (fits : b.Fits vocabulary) :
    ∃ built : Batch, built.drafts.map outline = b.drafts.map outline ∧
      (∀ d ∈ built.drafts, d.pending = []) ∧
      ∀ moves : List Move, (moves.filterMap Move.place?).Perm (turns b.drafts) →
        (∀ m ∈ moves, m.quiet = true) →
        ∃ b', b.run moves = .ok b' ∧ b'.drafts = built.drafts ∧
          ∀ id, (b'.handles.get id).books = (built.handles.get id).books := by
  obtain ⟨built, ran, same, fewer⟩ := fits.exists_run valid (turns b.drafts)
  refine ⟨built, same, fun d mem => ?_, fun moves complete quiet => ?_⟩
  · obtain ⟨i, found⟩ := List.mem_iff_getElem?.1 mem
    have rest := fewer i
    unfold left at rest
    rw [found, count_turns] at rest
    cases was : b.drafts[i]? with
    | none => simp [was] at rest
    | some y => simpa [was] using rest
  · rw [← fits.run_perm valid complete] at ran
    have start : b.Alike b := ⟨rfl, rfl, fun _ => rfl⟩
    obtain ⟨b', done, alike⟩ := start.run quiet ran
    exact ⟨b', done, alike.drafts, alike.books⟩

/-- A task that is built undisturbed reserves its versions one after the other. -/
theorem run_of_finish {t : Task} {hs : Handles} (here : b.drafts[place]? = some d)
    (built : d.finish b.handles = (.ok t, hs)) :
    ∃ d', b.run (.replicate d.pending.length (.reserve place)) =
        .ok ⟨hs, b.drafts.set place d'⟩ ∧ d'.pending = [] ∧ d'.task = t := by
  unfold Draft.finish at built
  generalize pending : d.pending = accesses at built
  induction accesses generalizing b d with
  | nil =>
      rw [Draft.finishFrom] at built
      obtain ⟨task, rfl⟩ := Prod.mk.inj built
      obtain ⟨inside, rfl⟩ := List.getElem?_eq_some_iff.1 here
      refine ⟨b.drafts[place], ?_, pending, Except.ok.inj task⟩
      rw [List.set_getElem_self]
      rfl
  | cons a rest ih =>
      rw [Draft.finishFrom] at built
      cases ran : b.handles.run a.handle (·.schedule a.kind) with
      | mk result after =>
      rw [ran] at built
      cases result with
      | error f => cases built
      | ok v =>
          have inside : place < b.drafts.length := (List.getElem?_eq_some_iff.1 here).1
          have reserved : b.reserve place =
              .ok ⟨after, b.drafts.set place (d.resolve a rest v)⟩ := by
            simp only [Batch.reserve, here, Draft.step, pending, ran]
          obtain ⟨d', rest_ran, done, task⟩ :=
            ih (b := ⟨after, b.drafts.set place (d.resolve a rest v)⟩)
              (List.getElem?_set_self inside) rfl built
          refine ⟨d', ?_, done, task⟩
          rw [List.length_cons, List.replicate_succ, run, Move.apply, reserved]
          rw [List.set_set] at rest_ran
          exact rest_ran

/-- The addition among the usual kinds. -/
def addKind : Kind := ⟨2, "Add", .accumulate, some 2⟩

/-- Two tasks that add to the same two handles, in opposite orders; an earlier addition holds the
first handle, and a read of the second one has been done. -/
def pair : Batch :=
  let work : Blueprint Act := ⟨"add", [], .normal, none, none, []⟩
  let first : Access.Located := ⟨⟨0, addKind⟩, 0⟩
  let second : Access.Located := ⟨⟨1, addKind⟩, 1⟩
  { handles := ⟨#[Handle.after 3 [.schedule addKind],
      Handle.after 3 [.advance 0, .schedule Handle.readKind]], #[0, 1]⟩
    drafts := [⟨0, work, [first, second], []⟩, ⟨1, work, [second, first], []⟩] }

theorem fits_pair : pair.Fits .usual := by
  refine ⟨fun id inside => ?_, by decide, by decide, by decide, by decide⟩
  have listed : addKind ∈ Vocabulary.usual.listed := by decide
  have listed' : Handle.readKind ∈ Vocabulary.usual.listed := by decide
  match id, inside with
  | 0, _ => exact ⟨[.schedule addKind], by simpa using listed, rfl⟩
  | 1, _ => exact ⟨[.advance 0, .schedule Handle.readKind], by simpa using listed', rfl⟩

/-- The two tasks get the same versions in different orders, also if somebody takes a lock in the
meantime. -/
theorem opposite_orders :
    ∃ built : Batch, ∀ moves ∈ [[Move.reserve 0, .reserve 1, .reserve 0, .reserve 1],
        [.reserve 1, .reserve 1, .call 0 .tryLock, .reserve 0, .reserve 0]],
      ∃ b', pair.run moves = .ok b' ∧ b'.drafts = built.drafts := by
  obtain ⟨built, -, -, all⟩ := builds_commute Access.Vocabulary.validate_usual fits_pair
  refine ⟨built, fun moves mem => ?_⟩
  have complete : (moves.filterMap Move.place?).Perm (turns pair.drafts) ∧
      ∀ m ∈ moves, m.quiet = true := by
    rcases List.mem_pair.1 mem with rfl | rfl <;> decide
  obtain ⟨b', ran, same, -⟩ := all moves complete.1 complete.2
  exact ⟨b', ran, same⟩

end Batch

end AccessOrder
