/- # What validation finds

A kind set is accepted exactly when it has a kind, the properties of its kinds are sound, and the
places of its kinds are the cells of a table with one cell per kind.  Any other kind set is refused
for the first rule that is broken: at the first kind in the list that breaks any, and among the
rules that this kind breaks the one that is checked first.

* `Breaks`, `Fault.rank` : what it is for a kind to break a rule, and the order of the rules;
* `validate_eq_ok_iff`, `perm_iff_bijOn` : which kind sets are accepted;
* `validate_eq_error_iff` : what the others are refused for;
* `exists_index_of_mem`, `eq_of_index_eq` : the places of kinds that are accepted;
* `Handle.Addresses` : how an access depends on one cell of the table of a handle;
* `validate_exact` : all this together, and that kinds do not share cells.
-/
import AccessOrder.Proofs.Handle.Calls
import Mathlib.Data.Set.Function
import Mathlib.Data.List.Nodup
namespace AccessOrder.Access

namespace KindSet

variable {κ : Type} {s : KindSet κ} {earlier : List κ} {k : κ} {f g : Fault κ}

/-! ## Rules -/

/-- A kind breaks a rule, where `earlier` are the kinds that are listed before it. -/
inductive Breaks (s : KindSet κ) (earlier : List κ) (k : κ) : Fault κ → Prop where
  | orderedRead : (s.properties k).readonly = true → (s.properties k).commutative = false →
      Breaks s earlier k (.orderedRead k)
  | exclusiveRead : (s.properties k).readonly = true → (s.properties k).exclusive = true →
      Breaks s earlier k (.exclusiveRead k)
  | missing : s.index k = none → Breaks s earlier k (.missing k)
  | outside {i : Nat} : s.index k = some i → s.all.length ≤ i →
      Breaks s earlier k (.outside k i s.all.length)
  | shared {i : Nat} {other : κ} : s.index k = some i → other ∈ earlier →
      s.index other = some i → Breaks s earlier k (.shared k i)

/-- The position of a rule in the order in which the rules are checked. -/
def Fault.rank : Fault κ → Nat
  | .empty => 0
  | .orderedRead _ => 1
  | .exclusiveRead _ => 2
  | .missing _ => 3
  | .outside .. => 4
  | .shared .. => 5

/-- The rule is the first one that a kind breaks. -/
def BreaksFirst (s : KindSet κ) (earlier : List κ) (k : κ) (f : Fault κ) : Prop :=
  s.Breaks earlier k f ∧ ∀ g, s.Breaks earlier k g → f.rank ≤ g.rank

/-- No kind of a list breaks a rule, where `earlier` are the kinds before the list. -/
def Clean (s : KindSet κ) (earlier ks : List κ) : Prop :=
  ∀ before k after, ks = before ++ k :: after → ∀ f, ¬s.Breaks (earlier ++ before) k f

/-- A kind breaks a rule of each rank in one way only. -/
theorem Breaks.eq_of_rank (first : s.Breaks earlier k f) (second : s.Breaks earlier k g)
    (same : f.rank = g.rank) : f = g := by
  cases first <;> cases second <;> simp_all [Fault.rank]

/-- A kind breaks one rule first. -/
theorem BreaksFirst.unique (first : s.BreaksFirst earlier k f)
    (second : s.BreaksFirst earlier k g) : f = g := by
  have le := first.2 g second.1
  have ge := second.2 f first.1
  exact first.1.eq_of_rank second.1 (by omega)

/-- A list without kinds is clean. -/
theorem clean_nil (s : KindSet κ) (earlier : List κ) : s.Clean earlier [] := by
  intro before k after whole
  simp at whole

/-- A list is clean if its first kind breaks no rule and the others do not break one after it. -/
theorem clean_cons {ks : List κ} :
    s.Clean earlier (k :: ks) ↔
      (∀ f, ¬s.Breaks earlier k f) ∧ s.Clean (earlier ++ [k]) ks := by
  constructor
  · intro clean
    refine ⟨fun f => by simpa using clean [] k ks rfl f, ?_⟩
    intro before l after whole f
    rw [List.append_assoc]
    exact clean (k :: before) l after (by rw [whole]; rfl) f
  · rintro ⟨head, tail⟩ before l after whole f
    cases before with
    | nil =>
        obtain ⟨rfl, -⟩ := List.cons.inj whole
        rw [List.append_nil]
        exact head f
    | cons first before =>
        obtain ⟨rfl, rest⟩ := List.cons.inj whole
        rw [← List.singleton_append, ← List.append_assoc]
        exact tail before l after rest f

/-! ## The walk over the kinds -/

variable {taken : List Nat}

/-- A kind that fails its check is reported for the first rule that it breaks. -/
theorem breaksFirst_of_check
    (places : ∀ i, i ∈ taken ↔ ∃ other ∈ earlier, s.index other = some i)
    (failed : s.check taken k = .error f) : s.BreaksFirst earlier k f := by
  unfold check at failed
  simp only [Bool.and_eq_true, Bool.not_eq_eq_eq_not, Bool.not_true] at failed
  split at failed
  · next ordered =>
    cases failed
    refine ⟨.orderedRead ordered.1 ordered.2, ?_⟩
    intro g breaks
    cases breaks <;> simp [Fault.rank]
  next unordered =>
  split at failed
  · next exclusive =>
    cases failed
    refine ⟨.exclusiveRead exclusive.1 exclusive.2, ?_⟩
    intro g breaks
    cases breaks <;> simp_all [Fault.rank]
  next shared =>
  split at failed
  · next missing =>
    cases failed
    refine ⟨.missing missing, ?_⟩
    intro g breaks
    cases breaks <;> simp_all [Fault.rank]
  next i place =>
  split at failed
  · next outside =>
    cases failed
    refine ⟨.outside place outside, ?_⟩
    intro g breaks
    cases breaks <;> simp_all [Fault.rank]
  next within =>
  split at failed
  · next clash =>
    cases failed
    obtain ⟨other, listed, same⟩ := (places i).1 (List.contains_iff_mem.1 clash)
    refine ⟨.shared place listed same, ?_⟩
    intro g breaks
    cases breaks with
    | outside found outside =>
        obtain rfl := Option.some.inj (place.symm.trans found)
        exact absurd outside within
    | _ => simp_all [Fault.rank]
  · cases failed

/-- A kind that passes its check breaks no rule. -/
theorem not_breaks_of_check
    (places : ∀ i, i ∈ taken ↔ ∃ other ∈ earlier, s.index other = some i) {i : Nat}
    (passed : s.check taken k = .ok i) (f : Fault κ) : ¬s.Breaks earlier k f := by
  obtain ⟨⟨commutes, shares⟩, place, inside, free⟩ := check_eq_ok_iff.1 passed
  intro breaks
  cases breaks with
  | orderedRead readonly ordered =>
      rw [commutes readonly] at ordered
      cases ordered
  | exclusiveRead readonly exclusive => exact shares ⟨readonly, exclusive⟩
  | missing none =>
      rw [place] at none
      cases none
  | outside found outside =>
      obtain rfl := Option.some.inj (place.symm.trans found)
      omega
  | shared found listed same =>
      obtain rfl := Option.some.inj (place.symm.trans found)
      exact free ((places i).2 ⟨_, listed, same⟩)

/-- The walk over the kinds stops at the first of them that breaks a rule, for the first rule that
it breaks. -/
theorem validateFrom_eq_error_iff {ks : List κ}
    (places : ∀ i, i ∈ taken ↔ ∃ other ∈ earlier, s.index other = some i) :
    s.validateFrom taken ks = .error f ↔
      ∃ before k after, ks = before ++ k :: after ∧ s.Clean earlier before ∧
        s.BreaksFirst (earlier ++ before) k f := by
  induction ks generalizing taken earlier with
  | nil => simp [validateFrom]
  | cons k ks ih =>
      rw [validateFrom]
      cases checked : s.check taken k with
      | error g =>
          have first := breaksFirst_of_check places checked
          constructor
          · intro failed
            cases failed
            exact ⟨[], k, ks, rfl, clean_nil s earlier, by rwa [List.append_nil]⟩
          · rintro ⟨before, l, after, whole, clean, breaks⟩
            cases before with
            | nil =>
                obtain ⟨rfl, -⟩ := List.cons.inj whole
                rw [List.append_nil] at breaks
                rw [first.unique breaks]
            | cons m before =>
                obtain ⟨rfl, -⟩ := List.cons.inj whole
                exact absurd first.1 ((clean_cons.1 clean).1 g)
      | ok i =>
          have passes := not_breaks_of_check places checked
          have place := (check_eq_ok_iff.1 checked).2.1
          have places' : ∀ j, j ∈ i :: taken ↔
              ∃ other ∈ earlier ++ [k], s.index other = some j := by
            intro j
            simp only [List.mem_cons, places, List.mem_append, List.not_mem_nil, or_false]
            constructor
            · rintro (rfl | ⟨other, listed, same⟩)
              · exact ⟨k, .inr rfl, place⟩
              · exact ⟨other, .inl listed, same⟩
            · rintro ⟨other, listed | rfl, same⟩
              · exact .inr ⟨other, listed, same⟩
              · exact .inl (Option.some.inj (same.symm.trans place))
          show s.validateFrom (i :: taken) ks = .error f ↔ _
          rw [ih places']
          constructor
          · rintro ⟨before, l, after, whole, clean, breaks⟩
            refine ⟨k :: before, l, after, by rw [whole]; rfl, clean_cons.2 ⟨passes, clean⟩, ?_⟩
            rwa [List.append_assoc] at breaks
          · rintro ⟨before, l, after, whole, clean, breaks⟩
            cases before with
            | nil =>
                obtain ⟨rfl, -⟩ := List.cons.inj whole
                rw [List.append_nil] at breaks
                exact absurd breaks.1 (passes f)
            | cons m before =>
                obtain ⟨rfl, rest⟩ := List.cons.inj whole
                refine ⟨before, l, after, rest, (clean_cons.1 clean).2, ?_⟩
                rwa [List.append_assoc]

/-- A kind set is refused for having no kind, or else for the first rule that the first kind breaks
that breaks any. -/
theorem validate_eq_error_iff :
    s.validate = .error f ↔
      (s.all = [] ∧ f = .empty) ∨
      ∃ earlier k later, s.all = earlier ++ k :: later ∧ s.Clean [] earlier ∧
        s.BreaksFirst earlier k f := by
  have walk := @validateFrom_eq_error_iff κ s [] f [] s.all (by simp)
  unfold validate
  cases all : s.all with
  | nil => simp [eq_comm]
  | cons k ks =>
      rw [all] at walk
      simpa using walk

/-- The rules on one kind go before the rules that it shares with others. -/
example : (KindSet.mk [0, 1] (fun k => if k = 0 then .write else ⟨true, true, true⟩)
    fun _ => some 0).validate = .error (.exclusiveRead 1) := rfl

/-! ## Which kind sets are accepted -/

/-- Exactly the valid kind sets are accepted. -/
theorem validate_eq_ok_iff : s.validate = .ok () ↔ s.Valid := by
  unfold validate
  cases all : s.all with
  | nil =>
      constructor
      · intro accepted
        cases accepted
      · intro valid
        exact absurd all valid.nonempty
  | cons k ks =>
      rw [← all, if_neg (by simp [all]), validateFrom_eq_ok_iff]
      constructor
      · rintro ⟨sound, is, places, distinct, inside⟩
        have length : is.length = s.all.length := by simpa using (congrArg List.length places).symm
        have perm : is.Perm (List.range s.all.length) := by
          apply (distinct.subperm ?_).perm_of_length_le
          · rw [List.length_range, length]
          · intro i mem
            exact List.mem_range.2 (inside i mem).1
        exact ⟨by simp [all], sound, by rw [places]; exact perm.map some⟩
      · intro valid
        have places : (s.all.filterMap s.index).map some = s.all.map s.index := by
          rw [List.map_filterMap_some_eq_filter_map_isSome, List.filter_eq_self]
          intro place mem
          obtain ⟨i, -, rfl⟩ := List.mem_map.1 (valid.bijective.subset mem)
          rfl
        have perm : (s.all.filterMap s.index).Perm (List.range s.all.length) :=
          (List.map_perm_map_iff (Option.some_injective Nat)).1 (places ▸ valid.bijective)
        refine ⟨valid.sound, _, places.symm, perm.nodup_iff.2 List.nodup_range, ?_⟩
        intro i mem
        exact ⟨List.mem_range.1 (perm.subset mem), List.not_mem_nil⟩

/-- The places of the kinds are the cells of the table, each taken once, exactly when they map the
listed kinds one to one onto the cells. -/
theorem perm_iff_bijOn :
    (s.all.map s.index).Perm ((List.range s.all.length).map some) ↔
      Set.BijOn s.index {k | k ∈ s.all} (some '' Set.Iio s.all.length) := by
  have nodup : ((List.range s.all.length).map some).Nodup :=
    List.nodup_range.map (Option.some_injective Nat)
  constructor
  · intro perm
    refine ⟨?_, ?_, ?_⟩
    · intro k mem
      obtain ⟨i, inside, place⟩ := List.mem_map.1 (perm.subset (List.mem_map_of_mem mem))
      exact ⟨i, List.mem_range.1 inside, place⟩
    · intro k mem l mem' same
      exact List.inj_on_of_nodup_map (perm.nodup_iff.2 nodup) mem mem' same
    · rintro place ⟨i, inside, rfl⟩
      obtain ⟨k, mem, place⟩ := List.mem_map.1 (perm.symm.subset
        (List.mem_map_of_mem (List.mem_range.2 inside)))
      exact ⟨k, mem, place⟩
  · intro bij
    -- as many kinds are listed as there are cells, so no two entries can have one cell
    apply List.Perm.symm
    apply (nodup.subperm ?_).perm_of_length_le
    · simp
    · intro place mem
      obtain ⟨i, inside, rfl⟩ := List.mem_map.1 mem
      obtain ⟨k, mem, place⟩ := bij.surjOn ⟨i, List.mem_range.1 inside, rfl⟩
      exact List.mem_map.2 ⟨k, mem, place⟩

/-- In an accepted kind set, every listed kind has a place in the table. -/
theorem exists_index_of_mem (accepted : s.validate = .ok ()) (mem : k ∈ s.all) :
    ∃ i < s.all.length, s.index k = some i := by
  have bij := perm_iff_bijOn.1 (validate_eq_ok_iff.1 accepted).bijective
  obtain ⟨i, inside, place⟩ := bij.mapsTo mem
  exact ⟨i, inside, place.symm⟩

/-- In an accepted kind set, kinds with the same place are the same. -/
theorem eq_of_index_eq (accepted : s.validate = .ok ()) {k' : κ} (mem : k ∈ s.all)
    (mem' : k' ∈ s.all) (same : s.index k = s.index k') : k = k' :=
  (perm_iff_bijOn.1 (validate_eq_ok_iff.1 accepted).bijective).injOn mem mem' same

/-- If the place of a kind is its first position, the places are the cells of the table exactly when
no kind is listed twice. -/
theorem perm_byPosition_iff [DecidableEq κ] (all : List κ) (properties : κ → Properties) :
    (all.map (byPosition all properties).index).Perm ((List.range all.length).map some) ↔
      all.Nodup := by
  constructor
  · intro perm
    have nodup : ((List.range all.length).map some).Nodup :=
      List.nodup_range.map (Option.some_injective Nat)
    exact (perm.nodup_iff.2 nodup).of_map
  · intro distinct
    apply List.Perm.of_eq
    apply List.ext_getElem
    · simp
    · intro i inside _
      rw [List.length_map] at inside
      simp only [List.getElem_map, List.getElem_range, byPosition]
      rw [List.findIdx?_eq_some_iff_getElem]
      refine ⟨inside, by simp, ?_⟩
      intro j before
      simp only [decide_eq_true_eq]
      intro same
      have := (List.Nodup.getElem_inj_iff distinct).1 same
      omega

/-- The first position of a listed kind is a cell of the table. -/
theorem exists_byPosition [DecidableEq κ] {all : List κ} (properties : κ → Properties)
    (mem : k ∈ all) : ∃ i < all.length, (byPosition all properties).index k = some i := by
  obtain ⟨i, place⟩ : ∃ i, all.findIdx? (· = k) = some i := by
    apply Option.isSome_iff_exists.1
    rw [List.findIdx?_isSome, List.any_eq_true]
    exact ⟨k, mem, by simp⟩
  obtain ⟨inside, -⟩ := List.findIdx?_eq_some_iff_getElem.1 place
  exact ⟨i, inside, place⟩

end KindSet

end AccessOrder.Access

/-! ## Cells of the table of a handle -/

namespace AccessOrder.Handle

variable {τ : Type} {h : Handle τ} {k : Access.Kind} {i : Nat}

/-- What an access of a kind has to do with the table of a handle: it looks at the cell `i` alone;
and once it has got a version, that is the next one for those who look at this cell if the kind is
commutative, while all others come after it. -/
structure Addresses (h : Handle τ) (k : Access.Kind) (i : Nat) : Prop where
  inside : i < h.nextRequired.length
  reads : ∀ table : List Version, table[i]? = h.nextRequired[i]? →
    (schedule { h with nextRequired := table } k).1 = (h.schedule k).1
  writes : ∀ v, (h.schedule k).1 = .ok v → ∀ j < h.nextRequired.length,
    (h.schedule k).2.nextRequired[j]? =
      some (if j = i ∧ k.properties.commutative = true then v else v + 1)

/-- An access addresses the cell at the place of its kind. -/
theorem addresses_of_index (place : k.index = some i) (inside : i < h.nextRequired.length) :
    h.Addresses k i := by
  have found : h.nextRequired[i]? = some h.nextRequired[i] := List.getElem?_eq_getElem inside
  refine ⟨inside, ?_, ?_⟩
  · intro table same
    unfold schedule
    simp only [place, same, found]
    split
    · rfl
    · have slots : ∀ offset, hold { h with nextRequired := table } offset = h.hold offset :=
        fun _ => rfl
      simp only [slots]
      cases h.hold (max h.nextRequired[i] h.completed - h.completed) <;> rfl
  · intro v scheduled j within
    revert scheduled
    unfold schedule
    simp only [place, found]
    split
    · intro failed
      cases failed
    · split
      · intro failed
        cases failed
      · intro scheduled
        cases scheduled
        simp [following, within]

/-- A handle keeps the size of its table. -/
theorem length_nextRequired_after (kinds : Nat) (past : List (Request τ)) :
    (after kinds past).nextRequired.length = kinds := by
  apply history_induction (motive := fun _ w => w.required.length = kinds) (fun _ => True)
  · exact List.length_replicate
  · intro events w k v sound offers fits same
    exact (List.length_mapIdx).trans same
  · exact fun _ _ _ same => same
  · intro events w sound holder same
    rw [View.required_released]
    exact same
  · exact fun same => same
  · exact fun _ _ => trivial

end AccessOrder.Handle

namespace AccessOrder.Access.KindSet

variable {κ : Type}

/-- Validation is exact.

A kind set is accepted exactly when it has a kind, every kind that reads only is commutative and not
exclusive, and places map the listed kinds one to one onto the cells `0` to `s.all.length - 1`.

It is refused for having no kind, or else at the first kind in the list that breaks a rule, for the
first rule that this kind breaks; a kind clashes only with kinds before it.

If the place of a kind is its first position, every listed kind has a place in the table, and these
places are as they should be exactly when no kind is listed twice.

In an accepted kind set, every access of a listed kind addresses, at all times, a cell of the table
of a handle that no other listed kind has. -/
theorem validate_exact [DecidableEq κ] (s : KindSet κ) :
    (s.validate = .ok () ↔
      s.all ≠ [] ∧ (∀ k ∈ s.all, Sound (s.properties k)) ∧
        Set.BijOn s.index {k | k ∈ s.all} (some '' Set.Iio s.all.length)) ∧
    (∀ f, s.validate = .error f ↔
      (s.all = [] ∧ f = .empty) ∨
      ∃ earlier k later, s.all = earlier ++ k :: later ∧ s.Clean [] earlier ∧
        s.BreaksFirst earlier k f) ∧
    (∀ (all : List κ) (properties : κ → Properties),
      (∀ k ∈ all, ∃ i < all.length, (byPosition all properties).index k = some i) ∧
      (Set.BijOn (byPosition all properties).index {k | k ∈ all} (some '' Set.Iio all.length) ↔
        all.Nodup)) ∧
    ∀ v : Vocabulary, v.kindSet.validate = .ok () → ∀ k ∈ v.listed, ∃ i,
      (∀ k' ∈ v.listed, k'.index = some i ↔ k' = k) ∧
      ∀ (τ : Type) (past : List (Handle.Request τ)),
        (Handle.after v.listed.length past).Addresses k i := by
  refine ⟨?_, fun f => validate_eq_error_iff, ?_, ?_⟩
  · rw [validate_eq_ok_iff, ← perm_iff_bijOn]
    constructor
    · intro valid
      exact ⟨valid.nonempty, valid.sound, valid.bijective⟩
    · rintro ⟨nonempty, sound, bijective⟩
      exact ⟨nonempty, sound, bijective⟩
  · intro all properties
    refine ⟨fun k mem => exists_byPosition properties mem, ?_⟩
    rw [← perm_byPosition_iff all properties]
    exact (perm_iff_bijOn (s := byPosition all properties)).symm
  · intro v accepted k listed
    obtain ⟨i, inside, place⟩ := exists_index_of_mem accepted listed
    refine ⟨i, ?_, ?_⟩
    · intro k' listed'
      constructor
      · intro place'
        exact eq_of_index_eq accepted listed' listed (place'.trans place.symm)
      · rintro rfl
        exact place
    · intro τ past
      apply Handle.addresses_of_index place
      rw [Handle.length_nextRequired_after]
      exact inside

/-- Among the usual kinds, an addition addresses a cell of its own after it has been scheduled. -/
theorem usual_addition_addresses :
    ∃ k ∈ Vocabulary.usual.listed, k.name = "Add" ∧ ∃ i,
      (∀ k' ∈ Vocabulary.usual.listed, k'.index = some i ↔ k' = k) ∧
      (Handle.after 3 [.schedule k] : Handle Nat).Addresses k i := by
  obtain ⟨k, listed, name⟩ : ∃ k ∈ Vocabulary.usual.listed, k.name = "Add" :=
    ⟨⟨2, "Add", .accumulate, some 2⟩, by decide, rfl⟩
  obtain ⟨i, own, addresses⟩ :=
    (validate_exact Vocabulary.usual.kindSet).2.2.2 Vocabulary.usual Vocabulary.validate_usual k
      listed
  exact ⟨k, listed, name, i, own, addresses Nat [.schedule k]⟩

end AccessOrder.Access.KindSet
