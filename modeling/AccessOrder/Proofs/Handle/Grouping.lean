/- # Groups of accesses

Accesses that are scheduled in a row share a version if they are of one commutative kind, as long as
one of them holds it.  The rule needs no more than what has happened: which access was scheduled
last, and whether its version has been released by all that hold it.  A handle keeps a table of the
next versions instead, and the slots of the versions in use; it comes to the same versions.

* `groupOf` : the version that an access gets by the rule;
* `Counted`, `Grouped` : what is known of a handle after its calls;
* `versions_grouped` : the versions that a handle gives, after any calls.
-/
import AccessOrder.Proofs.Access.Validation
namespace AccessOrder

namespace Handle

open Access (KindSet Vocabulary Kind)

variable {τ : Type}

/-! ## What can be told from a history -/

/-- The accesses that have got versions, the last one first. -/
def accesses : List (Event τ) → List (Kind × Version)
  | [] => []
  | .scheduled k v :: past => (k, v) :: accesses past
  | .parked .. :: past | .released .. :: past => accesses past

/-- The versions that have been released, one time for each release. -/
def releases : List (Event τ) → List Version
  | [] => []
  | .released v _ :: past => v :: releases past
  | .scheduled .. :: past | .parked .. :: past => releases past

/-- How many accesses have got a version. -/
def reserved (past : List (Event τ)) (v : Version) : Nat := ((accesses past).map Prod.snd).count v

/-- How many accesses have released a version. -/
def returned (past : List (Event τ)) (v : Version) : Nat := (releases past).count v

/-- The version that an access of a kind gets: the first one gets `0`; it shares the version of the
access before it if both are of the same commutative kind and some access still holds that version,
and gets the next one otherwise. -/
def groupOf (past : List (Event τ)) (k : Kind) : Version :=
  match accesses past with
  | [] => 0
  | (last, v) :: _ =>
    if last = k ∧ k.properties.commutative = true ∧ returned past v < reserved past v then v
    else v + 1

/-- A version has as many holders as there are accesses that have got it and not released it, and
those in use or completed are those that some access has got. -/
structure Counted (past : List (Event τ)) (w : View τ) : Prop where
  holders : ∀ v, w.holders v + returned past v = reserved past v
  used : ∀ v, 0 < reserved past v ↔ v < w.frontier

/-- The newest version is that of the last access, which alone tells who may join it; versions rise
by one at most, and those that share one are of one commutative kind. -/
structure Grouped (vocabulary : Vocabulary) (past : List (Event τ)) (w : View τ) : Prop where
  counted : Counted past w
  listed : ∀ a ∈ accesses past, a.1 ∈ vocabulary.listed
  tabled : w.required.length = vocabulary.listed.length
  newest : ∀ last v older, accesses past = (last, v) :: older →
    w.frontier = v + 1 ∧ w.Latest last
  ordered : (accesses past).IsChain fun a b => b.2 ≤ a.2 ∧ a.2 ≤ b.2 + 1
  alike : (accesses past).Pairwise fun a b =>
    a.2 = b.2 → a.1 = b.1 ∧ a.1.properties.commutative = true

variable {past : List (Event τ)} {w : View τ} {k : Kind} {v u : Version}

theorem reserved_scheduled (past : List (Event τ)) (k : Kind) (v u : Version) :
    reserved (.scheduled k v :: past) u = reserved past u + if v = u then 1 else 0 := by
  simp [reserved, accesses, List.count_cons]

theorem returned_released (past : List (Event τ)) (v : Version) (ts : List τ) (u : Version) :
    returned (.released v ts :: past) u = returned past u + if v = u then 1 else 0 := by
  simp [returned, releases, List.count_cons]

/-- An access that has got a version counts among those that have. -/
theorem reserved_pos (mem : (k, v) ∈ accesses past) : 0 < reserved past v :=
  List.count_pos_iff.2 (List.mem_map_of_mem mem)

/-- A version that some access has got is that of an access. -/
theorem exists_access (some : 0 < reserved past v) : ∃ a ∈ accesses past, a.2 = v :=
  List.mem_map.1 (List.count_pos_iff.1 some)

/-! ## Counting -/

/-- A release takes one holder of its version away. -/
theorem View.holders_released (w : View τ) (v u : Version) :
    (w.released v).holders u = if u = v then w.holders v - 1 else w.holders u := by
  unfold View.released
  split
  · next last =>
    show Function.update w.holders v 0 u = _
    rw [Function.update_apply, last]
  · exact Function.update_apply ..

/-- An access that gets a version is counted. -/
theorem Counted.scheduled (counted : Counted past w) (offers : w.Offers k v) :
    Counted (.scheduled k v :: past) (w.scheduled k v) where
  holders u := by
    have before := counted.holders u
    rw [reserved_scheduled]
    show Function.update w.holders v (w.holders v + 1) u + returned past u = _
    rw [Function.update_apply]
    by_cases same : u = v
    · subst same
      rw [if_pos rfl, if_pos rfl]
      lia
    · rw [if_neg same, if_neg (Ne.symm same)]
      lia
  used u := by
    have before := counted.used u
    have newest := offers.newest
    rw [reserved_scheduled]
    show _ ↔ u < v + 1
    split <;> lia

/-- An access that releases its version is counted. -/
theorem Counted.released (counted : Counted past w) (holder : 0 < w.holders v) (ts : List τ) :
    Counted (.released v ts :: past) (w.released v) where
  holders u := by
    have before := counted.holders u
    rw [returned_released, View.holders_released]
    show _ = reserved past u
    by_cases same : u = v
    · subst same
      rw [if_pos rfl, if_pos rfl]
      lia
    · rw [if_neg same, if_neg (Ne.symm same)]
      lia
  used u := by
    rw [View.frontier_released]
    exact counted.used u

/-- A new handle has no access. -/
theorem counted_new (kinds : Nat) : Counted [] (new kinds : Handle τ).view := by
  rw [view_new]
  exact ⟨fun v => rfl, fun v => by simp [reserved, accesses]⟩

/-- All accesses of a handle are counted. -/
theorem counted_after (kinds : Nat) (past : List (Request τ)) :
    Counted (history kinds past) (after kinds past).view := by
  refine history_induction (fun _ => True) (counted_new kinds) ?_ ?_ ?_ ?_ past
    fun _ _ => trivial
  · exact fun _ offers _ counted => counted.scheduled offers
  · exact fun _ _ _ counted => ⟨counted.holders, counted.used⟩
  · exact fun _ holder counted => counted.released holder _
  · exact fun counted => ⟨counted.holders, counted.used⟩

/-! ## Groups -/

variable {vocabulary : Vocabulary}

/-- A handle gives no version but the one that an access gets by the rule. -/
theorem Grouped.eq_groupOf (grouped : Grouped vocabulary past w) (sound : w.Sound)
    (valid : vocabulary.kindSet.validate = .ok ()) (listed : k ∈ vocabulary.listed)
    (offers : w.Offers k v) : v = groupOf past k := by
  have newest := offers.newest
  unfold groupOf
  split
  · next none =>
    have unused := (grouped.counted.used 0).not.1 (by simp [reserved, none])
    lia
  · next last u older booked =>
    obtain ⟨frontier, latest⟩ := grouped.newest last u older booked
    have here : last ∈ vocabulary.listed := grouped.listed (last, u) (by simp [booked])
    have holders := grouped.counted.holders u
    have held := sound.held u
    split
    · next joins =>
      obtain ⟨rfl, commutative, open'⟩ := joins
      have used := held.1 (by lia)
      have := offers.rejoins last latest rfl commutative (by lia)
      lia
    · next apart =>
      refine newest.elim (fun new => new.trans frontier) fun join => absurd ?_ apart
      obtain ⟨same, commutative⟩ := offers.joins last latest join
      obtain rfl := KindSet.eq_of_index_eq valid listed here same
      have reached := offers.reached
      have holder := held.2 (by lia)
      exact ⟨rfl, commutative, by lia⟩

/-- The groups stay as they should be when an access gets its version. -/
theorem Grouped.scheduled (grouped : Grouped vocabulary past w)
    (valid : vocabulary.kindSet.validate = .ok ()) (listed : k ∈ vocabulary.listed)
    (offers : w.Offers k v) :
    Grouped vocabulary (.scheduled k v :: past) (w.scheduled k v) := by
  have below : ∀ a ∈ accesses past, a.2 < w.frontier := fun a mem =>
    (grouped.counted.used a.2).1 (reserved_pos mem)
  have newest := offers.newest
  refine ⟨grouped.counted.scheduled offers, ?_, ?_, ?_, ?_, ?_⟩
  · intro a mem
    rcases List.mem_cons.1 mem with rfl | mem
    · exact listed
    · exact grouped.listed a mem
  · show (following w.required _ _ _).length = _
    rw [following, List.length_mapIdx, grouped.tabled]
  · intro last u older booked
    obtain ⟨⟨⟩, -⟩ := List.cons.inj booked
    exact ⟨rfl, offers.latest⟩
  · show ((k, v) :: accesses past).IsChain _
    cases booked : accesses past with
    | nil => exact List.isChain_singleton _
    | cons a older =>
        obtain ⟨frontier, -⟩ := grouped.newest a.1 a.2 older booked
        refine List.isChain_cons_cons.2 ⟨?_, booked ▸ grouped.ordered⟩
        show a.2 ≤ v ∧ v ≤ a.2 + 1
        lia
  · refine List.pairwise_cons.2 ⟨fun b mem same => ?_, grouped.alike⟩
    -- who shares the version with an earlier access shares it with the last one
    have join : v + 1 = w.frontier := by
      have := below b mem
      have : v = b.2 := same
      lia
    cases booked : accesses past with
    | nil =>
        rw [booked] at mem
        cases mem
    | cons a older =>
        obtain ⟨frontier, latest⟩ := grouped.newest a.1 a.2 older booked
        obtain ⟨place, commutative⟩ := offers.joins a.1 latest join
        have here : a.1 ∈ vocabulary.listed := grouped.listed a (by simp [booked])
        obtain rfl := KindSet.eq_of_index_eq valid listed here place
        refine ⟨?_, commutative⟩
        have alike := grouped.alike
        rw [booked] at mem alike
        rcases List.mem_cons.1 mem with rfl | mem
        · rfl
        · have same : v = b.2 := same
          exact ((List.pairwise_cons.1 alike).1 b mem (by lia)).1

/-- The groups of a handle are as they should be after any calls for listed kinds. -/
theorem grouped_after (valid : vocabulary.kindSet.validate = .ok ()) (past : List (Request τ))
    (asked : ∀ k, .schedule k ∈ past → k ∈ vocabulary.listed) :
    Grouped vocabulary (history vocabulary.listed.length past)
      (after vocabulary.listed.length past).view := by
  refine history_induction (· ∈ vocabulary.listed) ?_ ?_ ?_ ?_ ?_ past asked
  · refine ⟨counted_new _, ?_, ?_, ?_, ?_, ?_⟩
    all_goals simp [accesses, view_new]
  · exact fun _ offers listed grouped => grouped.scheduled valid listed offers
  · exact fun _ _ _ grouped => ⟨⟨grouped.counted.holders, grouped.counted.used⟩, grouped.listed,
      grouped.tabled, grouped.newest, grouped.ordered, grouped.alike⟩
  · intro events w _ holder grouped
    refine ⟨grouped.counted.released holder _, grouped.listed, ?_, ?_, grouped.ordered,
      grouped.alike⟩
    · rw [View.required_released]
      exact grouped.tabled
    · intro last v older booked
      obtain ⟨frontier, latest⟩ := grouped.newest last v older booked
      unfold View.Latest
      rw [View.frontier_released, View.required_released]
      exact ⟨frontier, latest⟩
  · exact fun grouped => ⟨⟨grouped.counted.holders, grouped.counted.used⟩, grouped.listed,
      grouped.tabled, grouped.newest, grouped.ordered, grouped.alike⟩

/-! ## Versions -/

/-- A listed kind has a place in the table of a handle; the version there has been completed only if
accesses of that kind may join each other. -/
theorem Grouped.exists_required {h : Handle τ} (grouped : Grouped vocabulary past h.view)
    (sound : h.Sound) (valid : vocabulary.kindSet.validate = .ok ())
    (listed : k ∈ vocabulary.listed) :
    ∃ i required, k.index = some i ∧ h.nextRequired[i]? = some required ∧
      (required < h.completed → k.properties.commutative = true) := by
  obtain ⟨i, inside, place⟩ := KindSet.exists_index_of_mem valid listed
  have inside : i < h.nextRequired.length := lt_of_lt_of_eq inside grouped.tabled.symm
  obtain ⟨required, found⟩ : ∃ required, h.nextRequired[i]? = some required :=
    ⟨_, List.getElem?_eq_getElem inside⟩
  have bounds := sound.versions.table required (List.mem_of_getElem? found)
  have le : h.completed ≤ h.view.frontier := sound.versions.le
  refine ⟨i, required, place, found, fun stale => ?_⟩
  -- a version that has been completed is given again only to join the accesses that have got it
  cases booked : accesses past with
  | nil =>
      have unused := (grouped.counted.used 0).not.1 (by simp [reserved, booked])
      lia
  | cons a older =>
      obtain ⟨frontier, latest⟩ := grouped.newest a.1 a.2 older booked
      obtain ⟨same, commutative⟩ := (latest i required found).1 (by lia)
      have here : a.1 ∈ vocabulary.listed := grouped.listed a (by simp [booked])
      exact KindSet.eq_of_index_eq valid here listed (same.trans place.symm) ▸ commutative

/-- An access of a listed kind gets the version of its group, or too many hold that one. -/
theorem Grouped.schedule_eq {h : Handle τ} (grouped : Grouped vocabulary past h.view)
    (sound : h.Sound) (valid : vocabulary.kindSet.validate = .ok ())
    (listed : k ∈ vocabulary.listed) :
    (h.schedule k).1 = .ok (groupOf past k) ∨
      (h.schedule k).1 = .error .scheduleCrowded ∧
        maxHolders ≤ h.view.holders (groupOf past k) := by
  obtain ⟨i, required, place, found, joins⟩ := grouped.exists_required sound valid listed
  rw [← grouped.eq_groupOf sound.versions valid listed (sound.offers place found)]
  exact sound.schedule_cases place found joins

/-- An access of a listed kind gets a version as long as not too many hold the one that it would
get. -/
theorem Grouped.schedule_cases {h : Handle τ} (grouped : Grouped vocabulary past h.view)
    (sound : h.Sound) (valid : vocabulary.kindSet.validate = .ok ())
    (listed : k ∈ vocabulary.listed) :
    (h.respond (.schedule k)).1 = .scheduled (groupOf past k) ∨
      maxHolders ≤ h.view.holders (groupOf past k) := by
  refine (grouped.schedule_eq sound valid listed).imp (fun scheduled => ?_) And.right
  rw [respond, show h.schedule k = (.ok (groupOf past k), (h.schedule k).2) from
    Prod.ext scheduled rfl]
  rfl

/-- A version that a handle gives to an access of a listed kind is the one it gets by the rule. -/
theorem Grouped.eq_of_scheduled {h : Handle τ} (grouped : Grouped vocabulary past h.view)
    (sound : h.Sound) (valid : vocabulary.kindSet.validate = .ok ())
    (listed : k ∈ vocabulary.listed) (scheduled : (h.respond (.schedule k)).1 = .scheduled v) :
    v = groupOf past k := by
  have now := (sound.responds (.schedule k)).2
  rw [scheduled] at now
  generalize (h.respond (.schedule k)).2.view = w' at now
  cases now with
  | schedule offers => exact grouped.eq_groupOf sound.versions valid listed offers
  | idle locked none => cases none

/-- The versions below the completed one are those that have been released as often as they have
been given. -/
theorem Counted.filter_released (counted : Counted past w) (sound : w.Sound) :
    ((accesses past).map Prod.snd).toFinset.filter (fun v => returned past v = reserved past v) =
      Finset.range w.completed := by
  ext v
  have holders := counted.holders v
  have used := counted.used v
  have held := sound.held v
  have le := sound.le
  rw [Finset.mem_filter, List.mem_toFinset, ← List.count_pos_iff, Finset.mem_range]
  show 0 < reserved past v ∧ _ ↔ _
  lia

/-- What happens to the completed version when a holder of it is released. -/
theorem View.completed_released {w : View τ} (here : w.completed = v) :
    (w.released v).completed = v + if w.holders v = 1 then 1 else 0 := by
  unfold released
  split
  · rfl
  · exact here

/-- After any calls on a handle for listed kinds of an accepted kind set:

an access of a listed kind gets no version but that of its group, and gets it as long as fewer than
the most holders that can be counted hold it;

versions do not go back and rise by one at most, those that share one are of one commutative kind,
and every version up to the newest is that of an access;

a version that has not been completed has as many holders as accesses have got it and not released
it; as many versions are completed as have been released by all their accesses, and a release
completes one more if it is the last one of its version, and else none. -/
theorem versions_grouped (valid : vocabulary.kindSet.validate = .ok ())
    (past : List (Request τ)) (asked : ∀ k, .schedule k ∈ past → k ∈ vocabulary.listed) :
    let kinds := vocabulary.listed.length
    let h := after kinds past
    let events := history kinds past
    (∀ k ∈ vocabulary.listed,
      (∀ v, (h.respond (.schedule k)).1 = .scheduled v → v = groupOf events k) ∧
      (reserved events (groupOf events k) - returned events (groupOf events k) < maxHolders →
        (h.respond (.schedule k)).1 = .scheduled (groupOf events k))) ∧
    ((accesses events).IsChain fun a b => b.2 ≤ a.2 ∧ a.2 ≤ b.2 + 1) ∧
    ((accesses events).Pairwise fun a b =>
      a.2 = b.2 → a.1 = b.1 ∧ a.1.properties.commutative = true) ∧
    (∀ a ∈ accesses events, ∀ v ≤ a.2, ∃ b ∈ accesses events, b.2 = v) ∧
    (∀ i, (h.slots[i]?).elim 0 Slot.holders + returned events (h.completed + i) =
      reserved events (h.completed + i)) ∧
    h.completed = (((accesses events).map Prod.snd).toFinset.filter fun v =>
      returned events v = reserved events v).card ∧
    ∀ v ts, (h.respond (.advance v)).1 = .woken ts → (h.respond (.advance v)).2.completed =
      h.completed + if reserved events v = returned events v + 1 then 1 else 0 := by
  intro kinds h events
  have sound : h.Sound := sound_after kinds past
  have grouped : Grouped vocabulary events h.view := grouped_after valid past asked
  have counted := grouped.counted
  refine ⟨fun k listed => ⟨fun v => grouped.eq_of_scheduled sound valid listed, fun room => ?_⟩,
    grouped.ordered, grouped.alike, ?_, fun i => ?_, ?_, ?_⟩
  · have holders := counted.holders (groupOf events k)
    exact (grouped.schedule_cases sound valid listed).resolve_right (by lia)
  · intro a mem v le
    have used := (counted.used a.2).1 (reserved_pos mem)
    exact exists_access ((counted.used v).2 (by lia))
  · have holders := counted.holders (h.completed + i)
    rwa [holders_view, slotOf, if_neg (Nat.not_lt.2 (Nat.le_add_right _ _)),
      Nat.add_sub_cancel_left] at holders
  · rw [counted.filter_released sound.versions, Finset.card_range]
    rfl
  · intro v ts woken
    obtain ⟨here, -, -, released⟩ := released_of_woken woken
    have holders := counted.holders v
    have completed := congrArg View.completed released
    rw [View.completed_released here] at completed
    show (after kinds (.advance v :: past)).view.completed = _
    rw [completed, ← here]
    show _ + _ = h.completed + _
    congr 1
    exact if_congr (by lia) rfl rfl

/-- The shared read among the usual kinds. -/
def readKind : Kind := ⟨0, "Read", .read, some 0⟩

/-- Two reads in a row share a version, but a read opens a group of its own once those before it are
done. -/
theorem late_read_apart :
    ((after 3 [.schedule readKind] : Handle Nat).respond (.schedule readKind)).1 = .scheduled 0 ∧
    ((after 3 [.advance 0, .schedule readKind] : Handle Nat).respond (.schedule readKind)).1 =
      .scheduled 1 := by
  have listed : readKind ∈ Vocabulary.usual.listed := by decide
  have gets (past : List (Request Nat)) (asked : ∀ k, .schedule k ∈ past → k = readKind) :=
    ((versions_grouped Access.Vocabulary.validate_usual past
      fun k mem => asked k mem ▸ listed).1 readKind listed).2
  exact ⟨gets [.schedule readKind] (by simp) (by decide),
    gets [.advance 0, .schedule readKind] (by simp) (by decide)⟩

end Handle

end AccessOrder
