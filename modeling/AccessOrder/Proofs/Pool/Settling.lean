/- # Tasks that are settled early

Whether a task is accepted depends on its pin only, so it is as good as accepted once it has been
built.  In a world that is as large as it takes, and in hands in which every task that has been
built is `settled` - it counts as accepted, or else as not yet vetted - everything stays housed,
however long a task is kept before it is handed in, and whatever is done to it in the meantime.
What is kept, and what is lost when a worker falls, is in the hand of someone else then.

* `Housed.passes` : things may pass from hand to hand;
* `Housed.settles` : a deed keeps everything housed in hands that are settled.
-/
import AccessOrder.Proofs.Pool.Orderly
namespace AccessOrder

/-- Whether a task is pinned to no worker outside of a pool of a given size. -/
def Task.Inside (size : Nat) (t : Task) : Prop := ∀ q ∈ t.pin, q < size

instance (size : Nat) : DecidablePred (Task.Inside size) := fun t =>
  inferInstanceAs (Decidable (∀ q ∈ t.pin, q < size))

/-- A task that is pinned inside of a pool is pinned inside of a larger one. -/
theorem Task.Inside.mono {size larger : Nat} {t : Task} (inside : t.Inside size)
    (le : size ≤ larger) : t.Inside larger :=
  fun q pinned => Nat.lt_of_lt_of_le (inside q pinned) le

/-- The task with none of its dependencies known to be met. -/
def Task.rewound (t : Task) : Task := { t with cursor := 0 }

namespace Pool

open Function (update)

/-- What an item is once it is taken for granted that a task that has been built is accepted, if it
is pinned to no worker outside of the pool. -/
def Item.settled (size : Nat) : Item → Item
  | .arriving t => if t.Inside size then .loose t else .arriving t.rewound
  | x => x

/-- The world of a pool of a given size in which no task is kept. -/
def World.settled (size : Nat) (w : World) : World := { w with size := size, kept := [] }

/-- A task that has been built, as it is settled. -/
def settledTask (size : Nat) (t : Task) : Item := Item.settled size (.arriving t)

theorem settledTask_of_inside {size : Nat} {t : Task} (inside : t.Inside size) :
    settledTask size t = .loose t := if_pos inside

theorem settledTask_of_outside {size : Nat} {t : Task} (outside : ¬t.Inside size) :
    settledTask size t = .arriving t.rewound := if_neg outside

/-- Whether a task is accepted. -/
def Moment.accepts : Moment → Bool
  | .accepted _ => true
  | _ => false

/-- What has happened, apart from the tasks that have been accepted. -/
def otherThanAccepted (past : List Moment) : List Moment := past.filter (!·.accepts)

/-- Where the same has happened apart from the tasks that have been accepted, each other moment is
in the one past if it is in the other. -/
theorem mem_iff_of_otherThanAccepted {told past : List Moment}
    (same : otherThanAccepted told = otherThanAccepted past) {x : Moment}
    (other : x.accepts = false) : x ∈ told ↔ x ∈ past := by
  have mem : ∀ ms : List Moment, x ∈ otherThanAccepted ms ↔ x ∈ ms := fun ms => by
    rw [otherThanAccepted, List.mem_filter, other]
    exact and_iff_left rfl
  rw [← mem, same, mem]

/-- What happens is added to what has happened. -/
theorem otherThanAccepted_append (later past : List Moment) :
    otherThanAccepted (later ++ past) = otherThanAccepted later ++ otherThanAccepted past :=
  List.filter_append ..

variable {past e : List Moment} {w w' : World} {hands : WorkerId → List Item} {id other : WorkerId}
  {xs ys left : List Item} {ms : List Moment} {size : Nat}

/-! ## From hand to hand -/

/-- Everything stays housed when things change places. -/
theorem Housed.rearranges {hands' : WorkerId → List Item} {p q : Place} {all : List Item}
    (housed : Housed past w hands)
    (exchange : Exchange (w.items hands) (w.items hands') p q [] [] all) : Housed past w hands' :=
  housed.relabel (e := []) exchange rfl housed.ledger (fun _ => Nat.le_refl _) rfl rfl rfl
    (by simp) (by simp) (by simp) (fun _ => rfl) rfl fun q => .inr (.inr ⟨rfl, rfl, by simp⟩)

/-- Things may pass from hand to hand. -/
theorem Housed.passes (housed : Housed past w hands) (different : id ≠ other)
    (same : (xs ++ ys).Perm (hands id ++ hands other)) :
    Housed past w (update (update hands id xs) other ys) := by
  have exchange : Exchange (w.items hands) (w.items (update (update hands id xs) other ys))
      (.hands id) (.hands other) [] [] (hands id ++ hands other) := by
    refine ⟨by simpa using different, fun o notp notq => ?_, .refl _, ?_⟩
    · cases o with
      | hands o =>
          show update (update hands id xs) other ys o = hands o
          rw [Function.update_of_ne fun same => notq (congrArg Place.hands same),
            Function.update_of_ne fun same => notp (congrArg Place.hands same)]
      | queue | waiting | kept => rfl
    · show (update (update hands id xs) other ys id ++
        update (update hands id xs) other ys other).Perm _
      rw [Function.update_of_ne different, Function.update_self, Function.update_self]
      exact same
  exact housed.rearranges exchange

/-- The order of what is in hand does not matter. -/
theorem Housed.reorders (housed : Housed past w hands) (same : ys.Perm (hands id)) :
    Housed past w (update hands id ys) := by
  have exchange : Exchange (w.items hands) (w.items (update hands id ys)) (.hands id) (.queue 0)
      [] [] (hands id ++ w.items hands (.queue 0)) := by
    refine ⟨by simp, fun o notp notq => ?_, .refl _, ?_⟩
    · cases o with
      | hands o => exact Function.update_of_ne (fun same => notp (congrArg Place.hands same)) ..
      | queue | waiting | kept => rfl
    · show (update hands id ys id ++ _).Perm _
      rw [Function.update_self]
      exact same.append_right _
  exact housed.rearranges exchange

/-- A deed may be done with some of what is in hand. -/
theorem Housed.does {zs : List Item} (housed : Housed past w hands)
    (here : (hands id).Perm (xs ++ zs)) (deed : Deed w xs ms w' ys) :
    Housed (ms ++ past) w' (update hands id (ys ++ zs)) := by
  have sorted : Housed past w (update hands id (xs ++ zs)) := housed.reorders here.symm
  have now : update hands id (xs ++ zs) id = xs ++ zs := Function.update_self ..
  have done := sorted.deed (now.symm ▸ deed.append zs)
  rwa [Function.update_idem] at done

/-! ## Settled hands -/

theorem settled_looseItems (size : Nat) (ts : List Task) :
    (looseItems ts).map (Item.settled size) = looseItems ts := by
  rw [looseItems, List.map_map]
  rfl

/-- What goes wrong is no matter of tasks that are about to be accepted, nor of the size of the
pool. -/
theorem Fault.settled (fault : Fault w xs) (size : Nat) :
    Fault (w.settled size) (xs.map (Item.settled size)) := by
  have sub : ∀ {x : Item}, x ∈ xs → x.settled size = x → x ∈ xs.map (Item.settled size) :=
    fun mem same => List.mem_map.2 ⟨_, mem, same⟩
  cases fault with
  | wait mem blocked unused => exact .wait (sub mem rfl) blocked unused
  | work mem none => exact .work (sub mem rfl) none
  | lock mem outside => exact .lock (sub mem rfl) outside
  | unlock mem held free => exact .unlock (sub mem rfl) held free
  | release mem unheld => exact .release (sub mem rfl) unheld

/-- What is on its way is so although it is settled. -/
theorem Stray.settled (stray : Stray w xs) :
    Stray (w.settled w.size) (xs.map (Item.settled w.size)) := by
  cases stray with
  | bound mem outside => exact .bound (List.mem_map.2 ⟨_, mem, rfl⟩) outside
  | guard mem outside => exact .guard (List.mem_map.2 ⟨_, mem, rfl⟩) outside

/-- What is in hand after a deed: what the actor has in hand is settled; what is kept, and what is
left besides or has been lost, is in the hand of someone else. -/
structure Settles (size : Nat) (id other : WorkerId) (left : List Item) (w' : World)
    (ys : List Item) (hands hands' : WorkerId → List Item) : Prop where
  own : hands' id = ys.map (Item.settled size)
  outer : ∃ lost, (hands' other).Perm (w'.kept.map (settledTask size) ++ (lost ++ left))
  others : ∀ o, o ≠ id → o ≠ other → hands' o = hands o

/-- A deed keeps everything housed in hands that are settled; what happens in such hands is what
happens, but for tasks that are accepted. -/
theorem Housed.settles (housed : Housed past (w.settled size) hands) (large : w.size ≤ size)
    (different : id ≠ other) (here : hands id = xs.map (Item.settled size))
    (outer : (hands other).Perm (w.kept.map (settledTask size) ++ left))
    (deed : Deed w xs ms w' ys) :
    ∃ ms' hands', Housed (ms' ++ past) (w'.settled size) hands' ∧
      Settles size id other left w' ys hands hands' ∧
      otherThanAccepted ms' = otherThanAccepted ms := by
  -- nothing passes to someone else
  have alone : ∀ ms' : List Moment, w'.kept = w.kept →
      Housed (ms' ++ past) (w'.settled size) (update hands id (ys.map (Item.settled size))) →
      otherThanAccepted ms' = otherThanAccepted ms →
      ∃ ms' hands', Housed (ms' ++ past) (w'.settled size) hands' ∧
        Settles size id other left w' ys hands hands' ∧
        otherThanAccepted ms' = otherThanAccepted ms := fun ms' kept housed same =>
    ⟨ms', _, housed, ⟨Function.update_self .., ⟨[], by
      rwa [Function.update_of_ne (Ne.symm different), kept]⟩,
      fun o away _ => Function.update_of_ne away ..⟩, same⟩
  -- most deeds are the same in hands that are settled
  have plain : w'.kept = w.kept → Deed (w.settled size) (xs.map (Item.settled size)) ms
      (w'.settled size) (ys.map (Item.settled size)) →
      ∃ ms' hands', Housed (ms' ++ past) (w'.settled size) hands' ∧
        Settles size id other left w' ys hands hands' ∧
        otherThanAccepted ms' = otherThanAccepted ms := fun kept deed =>
    alone ms kept (housed.deed (here.symm ▸ deed)) rfl
  -- something passes to someone else, or back
  have pass : ∀ lost : List Item, ms = [] → w'.settled size = w.settled size →
      (ys.map (Item.settled size) ++ (w'.kept.map (settledTask size) ++ lost)).Perm
        (xs.map (Item.settled size) ++ w.kept.map (settledTask size)) →
      ∃ ms' hands', Housed (ms' ++ past) (w'.settled size) hands' ∧
        Settles size id other left w' ys hands hands' ∧
        otherThanAccepted ms' = otherThanAccepted ms := by
    intro lost quiet same shares
    have all : (ys.map (Item.settled size) ++
        (w'.kept.map (settledTask size) ++ (lost ++ left))).Perm (hands id ++ hands other) := by
      have whole := shares.append_right left
      rw [List.append_assoc, List.append_assoc, List.append_assoc] at whole
      rw [here]
      exact whole.trans (outer.symm.append_left _)
    refine ⟨[], _, same ▸ housed.passes different all, ⟨?_, ⟨lost, ?_⟩, fun o away apart => ?_⟩,
      by rw [quiet]⟩
    · rw [Function.update_of_ne different, Function.update_self]
    · rw [Function.update_self]
    · rw [Function.update_of_ne apart, Function.update_of_ne away]
  cases deed with
  | still => exact plain rfl .still
  | begin d serial resolved distinct => exact plain rfl (.begin d serial resolved distinct)
  | schedule next inside offered => exact plain rfl (.schedule next inside offered)
  | unbuilt => exact plain rfl .unbuilt
  | @built xs d done =>
      by_cases inside : d.task.Inside size
      · -- the task is accepted at once
        have same : hands id = [.draft d] ++ xs.map (Item.settled size) := here
        have built := housed.does (.of_eq same) (.built done)
        have accepted := built.does (.of_eq (Function.update_self ..)) (.accept inside)
        rw [Function.update_idem] at accepted
        refine alone [.accepted d.task.serial] rfl ?_ rfl
        rw [List.map_cons]
        show Housed _ _ (update hands id (settledTask size d.task :: _))
        rw [settledTask_of_inside inside]
        exact accepted
      · refine plain rfl ?_
        show Deed (w.settled size) _ _ _ (settledTask size d.task :: _)
        rw [settledTask_of_outside inside]
        exact .built done
  | @keep xs t =>
      refine pass [] rfl rfl ?_
      rw [List.append_nil]
      exact List.perm_middle
  | @pick xs t ts same =>
      refine pass [] rfl rfl ?_
      rw [List.append_nil]
      have back := (same.map (settledTask size)).symm.append_left (xs.map (Item.settled size))
      exact List.perm_middle.symm.trans back
  | @accept xs t pins =>
      have settled : settledTask size t = .loose t :=
        settledTask_of_inside (Task.Inside.mono pins large)
      have same : hands id = .loose t :: xs.map (Item.settled size) := settled ▸ here
      refine alone [] rfl ?_ rfl
      show Housed past _ (update hands id (.loose t :: xs.map (Item.settled size)))
      rw [← same, Function.update_eq_self]
      exact housed
  | @acceptLazily xs t target pins inside pinned =>
      have settled : settledTask size t = .loose t :=
        settledTask_of_inside (Task.Inside.mono pins large)
      have same : hands id = .loose t :: xs.map (Item.settled size) := settled ▸ here
      refine alone [] rfl ?_ rfl
      exact housed.becomes (e := []) same List.mem_cons_self rfl (by simp) housed.ledger
        (housed.in_hand same).1
        ⟨(housed.in_hand same).2, Nat.lt_of_lt_of_le inside large, pinned⟩
  | @refused xs t =>
      refine pass [settledTask size t] rfl rfl ?_
      rw [← List.append_assoc]
      exact List.perm_append_singleton ..
  | mark blocked met => exact plain rfl (.mark blocked met)
  | park blocked unmet used => exact plain rfl (.park blocked unmet used)
  | route met inside => exact plain rfl (.route met (Nat.lt_of_lt_of_le inside large))
  | acquire inside free => exact plain rfl (.acquire (Nat.lt_of_lt_of_le inside large) free)
  | store same => exact plain rfl (.store same)
  | @fetch xs x q ts same =>
      refine plain rfl ?_
      rw [List.map_cons, List.map_cons, List.map_append, settled_looseItems]
      exact .fetch same
  | publish => exact plain rfl .publish
  | unguard => exact plain rfl .unguard
  | take met some => exact plain rfl (.take met some)
  | lock inside free => exact plain rfl (.lock inside free)
  | start => exact plain rfl .start
  | finish => exact plain rfl .finish
  | unlock held locked => exact plain rfl (.unlock held locked)
  | unlocked held => exact plain rfl (.unlocked held)
  | @release xs f d todo met holder =>
      refine plain rfl ?_
      rw [List.map_append, settled_looseItems]
      exact .release met holder
  | dispose => exact plain rfl .dispose
  | strands _ fewer =>
      obtain ⟨lost, split⟩ := fewer.exists_perm_append
      refine pass (lost.map (Item.settled size)) rfl rfl ?_
      have whole := split.map (Item.settled size)
      rw [List.map_append] at whole
      refine (List.perm_append_comm.append_left _).trans ?_
      rw [← List.append_assoc]
      exact whole.symm.append_right _
  | broken fault => exact absurd (.fault (here ▸ fault.settled size)) housed.sound

end Pool

end AccessOrder
