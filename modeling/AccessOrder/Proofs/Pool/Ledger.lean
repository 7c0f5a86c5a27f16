/- # The ledger of the handles

What the handles know about versions is what has happened: a version has as many holders as there
are accesses that have got it and not released it, and the frontier lies after the version reserved
last.  The versions that were reserved one after the other of a handle do not go back, and accesses
that share a version are of one commutative kind.

* `Ledger.schedule`, `Ledger.release` : reserving and releasing versions keep the ledger;
* `Ledger.in_use` : the version of an unreleased access is in use.
-/
import AccessOrder.Proofs.Pool.Items
import AccessOrder.Proofs.Pool.Stories
namespace AccessOrder.Pool

open Function (update)

/-- The access of a handle that has got its version at a moment, with the number of its task. -/
def Moment.booking? (h : HandleId) : Moment → Option (Nat × Dependency)
  | .scheduled s d => if d.handle = h then some (s, d) else none
  | _ => none

/-- The accesses of a handle that have got their versions, the last one first. -/
def bookings (h : HandleId) (past : List Moment) : List (Nat × Dependency) :=
  past.filterMap (Moment.booking? h)

/-- Of two accesses of a handle the newer one has a later version, or the same one if both are of
one commutative kind. -/
def Follows (newer older : Dependency) : Prop :=
  older.version < newer.version ∨
    older.version = newer.version ∧ newer.kind.index = older.kind.index ∧
      older.kind.properties.commutative = true

/-- What the handles know about versions is what has happened. -/
structure Ledger (past : List Moment) (units : HandleId → Handle.View Task) : Prop where
  sound : ∀ h, (units h).Sound
  holders : ∀ h v, (units h).holders v =
    (unreleased past).countP fun e => e.2.handle = h ∧ e.2.version = v
  unused : ∀ h, bookings h past = [] → (units h).frontier = 0
  newest : ∀ h e es, bookings h past = e :: es →
    (units h).frontier = e.2.version + 1 ∧ (units h).Latest e.2.kind
  ordered : ∀ h, (bookings h past).Pairwise fun newer older => Follows newer.2 older.2

variable {past : List Moment} {units : HandleId → Handle.View Task} {s : Nat} {d : Dependency}

theorem booking?_eq_some {h : HandleId} {x : Moment} :
    x.booking? h = some (s, d) ↔ x = .scheduled s d ∧ d.handle = h := by
  cases x with
  | scheduled s' e =>
      rw [Moment.booking?, Moment.scheduled.injEq]
      by_cases here : e.handle = h
      · rw [if_pos here, Option.some.injEq, Prod.mk.injEq]
        exact ⟨fun both => ⟨both, both.2 ▸ here⟩, And.left⟩
      · rw [if_neg here]
        refine ⟨(by simp), ?_⟩
        rintro ⟨⟨-, rfl⟩, there⟩
        exact absurd there here
  | accepted s' | started s' | returned s' | released s' e | disposed s' => simp [Moment.booking?]

theorem bookings_cons_self (s : Nat) (d : Dependency) (past : List Moment) :
    bookings d.handle (.scheduled s d :: past) = (s, d) :: bookings d.handle past :=
  List.filterMap_cons_some (booking?_eq_some.2 ⟨rfl, rfl⟩)

theorem bookings_cons_of_ne {h : HandleId} (other : d.handle ≠ h) (s : Nat) (past : List Moment) :
    bookings h (.scheduled s d :: past) = bookings h past :=
  List.filterMap_cons_none (if_neg other)

/-- Accesses of one handle that get their versions one after the other are booked one after the
other. -/
theorem bookings_of_sublist {a b : Nat} {e : Dependency} (same : d.handle = e.handle)
    (order : [.scheduled b e, .scheduled a d].Sublist past) :
    [(b, e), (a, d)].Sublist (bookings d.handle past) := by
  have booked := order.filterMap (Moment.booking? d.handle)
  rwa [List.filterMap_cons_some (booking?_eq_some.2 ⟨rfl, same.symm⟩),
    List.filterMap_cons_some (booking?_eq_some.2 ⟨rfl, rfl⟩)] at booked

/-- An access that gets a version after another one follows whatever that one follows. -/
theorem Follows.trans {newest newer older : Dependency} (first : Follows newest newer)
    (second : Follows newer older) : Follows newest older := by
  rcases first with later | ⟨same, kind, commutative⟩
  · rcases second with later' | ⟨same', -, -⟩
    · exact .inl (Nat.lt_trans later' later)
    · exact .inl (same' ▸ later)
  · rcases second with later' | ⟨same', kind', commutative'⟩
    · exact .inl (same ▸ later')
    · exact .inr ⟨same'.trans same, kind.trans kind', commutative'⟩

namespace Ledger

/-- The version of an unreleased access has a holder. -/
theorem holder (ledger : Ledger past units) (held : (s, d) ∈ unreleased past) :
    0 < (units d.handle).holders d.version := by
  rw [ledger.holders, List.countP_pos_iff]
  exact ⟨(s, d), held, by simp⟩

/-- The version of an unreleased access is in use. -/
theorem in_use (ledger : Ledger past units) (held : (s, d) ∈ unreleased past) :
    (units d.handle).completed ≤ d.version ∧ d.version < (units d.handle).frontier :=
  ((ledger.sound d.handle).held d.version).1 (ledger.holder held)

/-- A version that has a holder is that of an unreleased access. -/
theorem exists_unreleased (ledger : Ledger past units) {h : HandleId} {v : Version}
    (held : 0 < (units h).holders v) :
    ∃ s d, (s, d) ∈ unreleased past ∧ d.handle = h ∧ d.version = v := by
  rw [ledger.holders, List.countP_pos_iff] at held
  obtain ⟨⟨s, d⟩, mem, here⟩ := held
  exact ⟨s, d, mem, by simpa using here⟩

/-- When one handle changes, the ledger is kept by what that handle knows and by nothing happening
that is about another one. -/
theorem changed (ledger : Ledger past units) {past' : List Moment} {h : HandleId}
    {u : Handle.View Task}
    (counted : ∀ o ≠ h, ∀ v,
      ((unreleased past').countP fun e => e.2.handle = o ∧ e.2.version = v) =
        (unreleased past).countP fun e => e.2.handle = o ∧ e.2.version = v)
    (booked : ∀ o ≠ h, bookings o past' = bookings o past) (sound : u.Sound)
    (holders : ∀ v, u.holders v =
      (unreleased past').countP fun e => e.2.handle = h ∧ e.2.version = v)
    (unused : bookings h past' = [] → u.frontier = 0)
    (newest : ∀ e es, bookings h past' = e :: es →
      u.frontier = e.2.version + 1 ∧ u.Latest e.2.kind)
    (ordered : (bookings h past').Pairwise fun newer older => Follows newer.2 older.2) :
    Ledger past' (update units h u) := by
  refine ⟨fun o => ?_, fun o v => ?_, fun o none => ?_, fun o e es last => ?_, fun o => ?_⟩
  all_goals by_cases same : o = h
  · subst same
    rw [Function.update_self]
    exact sound
  · rw [Function.update_of_ne same]
    exact ledger.sound o
  · subst same
    rw [Function.update_self]
    exact holders v
  · rw [Function.update_of_ne same, counted o same]
    exact ledger.holders o v
  · subst same
    rw [Function.update_self]
    exact unused none
  · rw [Function.update_of_ne same]
    exact ledger.unused o (booked o same ▸ none)
  · subst same
    rw [Function.update_self]
    exact newest e es last
  · rw [Function.update_of_ne same]
    exact ledger.newest o e es (booked o same ▸ last)
  · subst same
    exact ordered
  · rw [booked o same]
    exact ledger.ordered o

/-- What has no bearing on versions keeps the ledger. -/
theorem steady (ledger : Ledger past units) {h : HandleId} {u : Handle.View Task} (sound : u.Sound)
    (holders : u.holders = (units h).holders) (frontier : u.frontier = (units h).frontier)
    (required : u.required = (units h).required) : Ledger past (update units h u) := by
  refine ledger.changed (fun _ _ _ => rfl) (fun _ _ => rfl) sound (fun v => ?_) (fun none => ?_)
    (fun e es booked => ?_) (ledger.ordered h)
  · rw [holders, ledger.holders]
  · rw [frontier, ledger.unused h none]
  · rw [Handle.View.Latest, frontier, required]
    exact ledger.newest h e es booked

/-- The version that a handle offers follows those that have been reserved. -/
theorem follows (ledger : Ledger past units) {a : Access.Located} {v : Version}
    (offered : (units a.handle).Offers a.kind v) :
    ∀ older ∈ bookings a.handle past, Follows ⟨a, v⟩ older.2 := by
  have ordered := ledger.ordered a.handle
  cases booked : bookings a.handle past with
  | nil => simp
  | cons e es =>
      obtain ⟨frontier, latest⟩ := ledger.newest a.handle e es booked
      have last : Follows ⟨a, v⟩ e.2 := by
        rcases offered.newest with new | join
        · exact .inl (by rw [new, frontier]; exact Nat.lt_succ_self _)
        · obtain ⟨kind, commutative⟩ := offered.joins e.2.kind latest join
          exact .inr ⟨(Nat.succ.inj (join.trans frontier)).symm, kind, commutative⟩
      rw [booked, List.pairwise_cons] at ordered
      intro older mem
      rcases List.mem_cons.1 mem with rfl | mem
      · exact last
      · exact last.trans (ordered.1 older mem)

/-- A version that has been completed is required only of accesses of a commutative kind, which have
joined it before. -/
theorem commutative_of_stale (ledger : Ledger past units) {h : HandleId} {k : Access.Kind}
    {index : Nat} {required : Version} (place : k.index = some index)
    (found : (units h).required[index]? = some required) (stale : required < (units h).completed)
    (kinds : ∀ e ∈ bookings h past, k.index = e.2.kind.index → k = e.2.kind) :
    k.properties.commutative = true := by
  have bounds := (ledger.sound h).table required (List.mem_of_getElem? found)
  have le := (ledger.sound h).le
  have newest : required + 1 = (units h).frontier := by lia
  cases booked : bookings h past with
  | nil => exact absurd (ledger.unused h booked) (by lia)
  | cons e es =>
      obtain ⟨-, latest⟩ := ledger.newest h e es booked
      obtain ⟨same, commutative⟩ := (latest index required found).1 newest
      rw [kinds e (booked ▸ List.mem_cons_self) (place.trans same.symm)]
      exact commutative

/-- Reserving a version keeps the ledger. -/
theorem schedule (ledger : Ledger past units) (s : Nat) {a : Access.Located} {v : Version}
    (offered : (units a.handle).Offers a.kind v) :
    Ledger (.scheduled s ⟨a, v⟩ :: past)
      (update units a.handle ((units a.handle).scheduled a.kind v)) := by
  have self := bookings_cons_self s ⟨a, v⟩ past
  refine ledger.changed (fun h other w => ?_) (fun h other => bookings_cons_of_ne other.symm s past)
    ((ledger.sound _).scheduled offered) (fun w => ?_) (fun none => ?_) (fun e es booked => ?_) ?_
  · rw [unreleased, List.countP_cons]
    simp [other.symm]
  · rw [unreleased, List.countP_cons, ← ledger.holders]
    show update _ v _ w = _
    rw [Function.update_apply]
    by_cases same : w = v
    · simp [same]
    · simp [same, Ne.symm same]
  · rw [self] at none
    cases none
  · rw [self] at booked
    obtain ⟨rfl, -⟩ := List.cons.inj booked
    exact ⟨rfl, offered.latest⟩
  · rw [self, List.pairwise_cons]
    exact ⟨ledger.follows offered, ledger.ordered _⟩

/-- Releasing the version of an unreleased access keeps the ledger. -/
theorem release (ledger : Ledger past units) (held : (s, d) ∈ unreleased past)
    (here : (units d.handle).completed = d.version) :
    Ledger (.released s d :: past)
      (update units d.handle ((units d.handle).released d.version)) := by
  have holder := ledger.holder held
  refine ledger.changed (fun h other v => ?_) (fun _ _ => rfl) ?_ (fun v => ?_) (fun none => ?_)
    (fun e es booked => ?_) (ledger.ordered _)
  · rw [unreleased, List.countP_erase]
    simp [other.symm]
  · rw [← here]
    exact (ledger.sound _).released (here.symm ▸ holder)
  · rw [unreleased, List.countP_erase, ← ledger.holders]
    by_cases same : v = d.version
    · subst same
      rw [if_pos ⟨held, by simp⟩, Handle.View.released]
      split
      · next last =>
        rw [last]
        exact Function.update_self ..
      · exact Function.update_self ..
    · rw [if_neg (by simpa using fun _ => Ne.symm same), Handle.View.released]
      split
      · exact Function.update_of_ne same ..
      · exact Function.update_of_ne same ..
  · rw [Handle.View.frontier_released, ledger.unused _ none]
  · rw [Handle.View.Latest, Handle.View.frontier_released, Handle.View.required_released]
    exact ledger.newest _ e es booked

end Ledger

end AccessOrder.Pool
