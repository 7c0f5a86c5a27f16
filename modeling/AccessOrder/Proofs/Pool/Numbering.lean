/- # The numbers of versions

As long as nothing has been released, the versions that the accesses of a handle get are told by
their kinds alone: those of one commutative kind in a row share a version, and every other access
gets the next one.

* `versionCount` : how many versions are reserved for accesses of the given kinds;
* `Runs.numbered` : the versions that the accesses of a handle get in a run.
-/
import AccessOrder.Proofs.Pool.Overlap
namespace AccessOrder.Pool

/-- How many versions are reserved for accesses of a handle of the given kinds, the last one first,
when none of them is released meanwhile. -/
def versionCount : List Access.Kind → Nat
  | [] => 0
  | [_] => 1
  | k :: last :: kinds =>
    versionCount (last :: kinds) + if k = last && k.properties.commutative then 0 else 1

/-- Whether every access in a list, the last one first, has got the version that follows from its
kind and from those before it. -/
def Numbered (es : List (Nat × Dependency)) : Prop :=
  ∀ e rest, e :: rest <:+ es → e.2.version + 1 = versionCount ((e :: rest).map (·.2.kind))

/-- Whether no version has been reserved after one had been released. -/
def Unhurried (past : List Moment) : Prop :=
  ∀ s d a e, ¬[.scheduled s d, .released a e].Sublist past

variable {past : List Moment} {m : Machine} {h : HandleId}

theorem mem_bookings {s : Nat} {d : Dependency} :
    (s, d) ∈ bookings h past ↔ .scheduled s d ∈ past ∧ d.handle = h := by
  rw [bookings, List.mem_filterMap]
  constructor
  · rintro ⟨x, mem, booked⟩
    obtain ⟨rfl, here⟩ := booking?_eq_some.1 booked
    exact ⟨mem, here⟩
  · rintro ⟨mem, here⟩
    exact ⟨_, mem, booking?_eq_some.2 ⟨rfl, here⟩⟩

/-- One more access that has got its version. -/
theorem Numbered.cons {es : List (Nat × Dependency)} (numbered : Numbered es)
    {e : Nat × Dependency} (next : e.2.version + 1 = versionCount ((e :: es).map (·.2.kind))) :
    Numbered (e :: es) := by
  intro o rest suffix
  rcases List.suffix_cons_iff.1 suffix with whole | suffix
  · obtain ⟨rfl, rfl⟩ := List.cons.inj whole
    exact next
  · exact numbered o rest suffix

/-- No version of a handle has been completed before one has been released. -/
theorem Ledger.completed_eq_zero {units : HandleId → Handle.View Task} (ledger : Ledger past units)
    (kept : ∀ s d, .released s d ∉ past) (numbered : Numbered (bookings h past)) :
    (units h).completed = 0 := by
  rcases List.eq_nil_or_concat (bookings h past) with none | ⟨newer, ⟨s, d⟩, split⟩
  · exact Nat.le_zero.1 (ledger.unused h none ▸ (ledger.sound h).le)
  · -- the oldest access holds the first version
    rw [List.concat_eq_append] at split
    have oldest : d.version + 1 = 1 := numbered (s, d) [] (split ▸ List.suffix_append ..)
    have mem : (s, d) ∈ bookings h past := split ▸ List.mem_append_right _ List.mem_cons_self
    obtain ⟨scheduled, rfl⟩ := mem_bookings.1 mem
    have used := (ledger.in_use (mem_unreleased scheduled (kept s d))).1
    lia

/-- The version that a handle offers before anything has been released. -/
theorem Ledger.version_of_offer {units : HandleId → Handle.View Task} (ledger : Ledger past units)
    (kept : ∀ s d, .released s d ∉ past) (numbered : Numbered (bookings h past))
    {k : Access.Kind} {v : Version} (offered : (units h).Offers k v)
    (kinds : ∀ e ∈ bookings h past, k.index = e.2.kind.index → k = e.2.kind) :
    v + 1 = versionCount (k :: (bookings h past).map (·.2.kind)) := by
  have completed := ledger.completed_eq_zero kept numbered
  have newest := offered.newest
  cases booked : bookings h past with
  | nil =>
      have frontier := ledger.unused h booked
      have first : v = 0 := by lia
      rw [first]
      rfl
  | cons e es =>
      obtain ⟨frontier, latest⟩ := ledger.newest h e es booked
      have last : e.2.version + 1 = versionCount ((e :: es).map (·.2.kind)) :=
        numbered e es (booked ▸ List.suffix_refl _)
      rw [List.map_cons] at last ⊢
      rw [versionCount, ← last]
      by_cases join : k = e.2.kind ∧ k.properties.commutative = true
      · rw [if_pos (by simpa using join)]
        have joined := offered.rejoins e.2.kind latest (congrArg _ join.1) (join.1 ▸ join.2)
          (by lia)
        lia
      · rw [if_neg (by simpa using join)]
        rcases newest with new | joined
        · lia
        · obtain ⟨index, commutative⟩ := offered.joins e.2.kind latest joined
          have same := kinds e (booked ▸ List.mem_cons_self) index
          exact absurd ⟨same, same ▸ commutative⟩ join

/-- The accesses of a handle get the versions that their kinds tell, if no version is reserved after
one has been released. -/
theorem Machine.Runs.numbered {l : Launch} {vocabulary : Access.Vocabulary} {handles callers : Nat}
    {references : Array HandleId}
    (run : Runs (l.opening vocabulary handles callers references) past m)
    (valid : vocabulary.kindSet.validate = .ok ())
    (listed : ∀ s d, .scheduled s d ∈ past → d.kind ∈ vocabulary.listed)
    (unhurried : Unhurried past) (h : HandleId) : Numbered (bookings h past) := by
  induction run with
  | refl => simp [Numbered, bookings]
  | @turn past a after mv run moved ih =>
      have before : Numbered (bookings h past) :=
        ih (fun s d mem => listed s d (List.mem_append_right _ mem)) fun s d o e order =>
          unhurried s d o e (order.trans (List.sublist_append_right ..))
      have short := length_moments a mv
      obtain none | ⟨x, now⟩ : a.moments mv = [] ∨ ∃ x, a.moments mv = [x] := by
        rw [← List.length_eq_zero_iff, ← List.length_eq_one_iff]
        lia
      · rwa [none]
      · rw [now] at listed unhurried ⊢
        cases booked : x.booking? h with
        | none =>
            rw [List.singleton_append, bookings, List.filterMap_cons_none booked]
            exact before
        | some e =>
            obtain ⟨s, d⟩ := e
            obtain ⟨rfl, rfl⟩ := booking?_eq_some.1 booked
            obtain ⟨sound, orderly⟩ := run.orderly
            have kept : ∀ o e, .released o e ∉ past := fun o e mem =>
              unhurried s d o e ((List.singleton_sublist.2 mem).cons_cons _)
            obtain ⟨-, -, -, -, -, offered⟩ := (sound.move moved).deed.of_scheduled orderly.sound
              (s := s) (d := d) (now ▸ List.mem_cons_self)
            rw [List.singleton_append, bookings_cons_self]
            refine before.cons (orderly.ledger.version_of_offer kept before offered ?_)
            intro e mem index
            obtain ⟨scheduled, -⟩ := mem_bookings.1 mem
            exact Access.KindSet.eq_of_index_eq valid (listed s d List.mem_cons_self)
              (listed _ _ (List.mem_cons_of_mem _ scheduled)) index

end AccessOrder.Pool
