/- # Sets of access kinds

A kind set lists the kinds that may be declared, with the properties of each and its place in a
table that has one cell per kind.  `KindSet.validate` decides whether the set is sound and names
the first rule that is broken; `KindSet.Valid` says what soundness means.

* `KindSet.validateFrom_eq_ok_iff` : the walk over the table accepts a list of kinds exactly when
  each of them is sound and their indexes are new, distinct and within the table.
-/
import AccessOrder.Access.Properties
namespace AccessOrder.Access

/-- A closed set of access kinds. -/
structure KindSet (κ : Type) where
  /-- Every kind of the set, in order. -/
  all : List κ
  /-- The properties of a kind. -/
  properties : κ → Properties
  /-- The place of a kind in a table with one cell per kind; `none` if it has no place. -/
  index : κ → Option Nat

namespace KindSet

variable {κ : Type}

/-- A kind set in which the place of a kind is its first position in the list. -/
def byPosition [DecidableEq κ] (all : List κ) (properties : κ → Properties) : KindSet κ where
  all := all
  properties := properties
  index k := all.findIdx? (· = k)

/-- The rules that a kind set may break. -/
inductive Fault (κ : Type) where
  /-- There is no kind. -/
  | empty
  /-- A kind reads only, yet the order of its accesses matters. -/
  | orderedRead (kind : κ)
  /-- A kind reads only, yet its accesses must not overlap. -/
  | exclusiveRead (kind : κ)
  /-- A kind has no place in the table. -/
  | missing (kind : κ)
  /-- The place of a kind lies outside of the table. -/
  | outside (kind : κ) (index size : Nat)
  /-- The place of a kind is taken by an earlier kind. -/
  | shared (kind : κ) (index : Nat)
  deriving DecidableEq

/-- The text of a fault, where `name` gives the text of a kind. -/
def Fault.message (name : κ → String) : Fault κ → String
  | .empty => "access kind set is empty"
  | .orderedRead k => "access kind " ++ name k ++ " is readonly but not commutative"
  | .exclusiveRead k => "access kind " ++ name k ++ " is readonly and exclusive"
  | .missing _ => "AccessKind::index: kind is missing from AccessKind::ALL"
  | .outside k i n =>
    "access kind " ++ name k ++ " has index " ++ toString i ++ " outside of 0.." ++ toString n
  | .shared k i =>
    "access kind " ++ name k ++ " shares index " ++ toString i ++ " with another kind"

/-- The place of a kind whose properties are sound and whose place is in the table and not among
the places already taken; otherwise the first rule that the kind breaks. -/
def check (s : KindSet κ) (taken : List Nat) (k : κ) : Except (Fault κ) Nat :=
  let p := s.properties k
  if p.readonly && !p.commutative then .error (.orderedRead k)
  else if p.readonly && p.exclusive then .error (.exclusiveRead k)
  else
    match s.index k with
    | none => .error (.missing k)
    | some i =>
      if s.all.length ≤ i then .error (.outside k i s.all.length)
      else if taken.contains i then .error (.shared k i)
      else .ok i

/-- Checks the kinds of a list in order, `taken` being the places taken before. -/
def validateFrom (s : KindSet κ) : List Nat → List κ → Except (Fault κ) Unit
  | _, [] => .ok ()
  | taken, k :: ks =>
    match s.check taken k with
    | .error f => .error f
    | .ok i => s.validateFrom (i :: taken) ks

/-- Accepts a sound kind set, and reports the first broken rule of any other. -/
def validate (s : KindSet κ) : Except (Fault κ) Unit :=
  if s.all.isEmpty then .error .empty else s.validateFrom [] s.all

/-! ## What soundness means -/

/-- Properties that can be scheduled: a read commutes and does not exclude other reads. -/
def Sound (p : Properties) : Prop :=
  (p.readonly = true → p.commutative = true) ∧ ¬(p.readonly = true ∧ p.exclusive = true)

/-- A kind set is valid when it has a kind, all properties are sound, and the places of its kinds
are the cells of the table, each taken once. -/
structure Valid (s : KindSet κ) : Prop where
  nonempty : s.all ≠ []
  sound : ∀ k ∈ s.all, Sound (s.properties k)
  bijective : (s.all.map s.index).Perm ((List.range s.all.length).map some)

/-- A kind passes its check exactly when its properties are sound and its place is in the table
and free. -/
theorem check_eq_ok_iff {s : KindSet κ} {taken : List Nat} {k : κ} {i : Nat} :
    s.check taken k = .ok i ↔
      Sound (s.properties k) ∧ s.index k = some i ∧ i < s.all.length ∧ i ∉ taken := by
  unfold check Sound
  obtain ⟨r, c, e⟩ := s.properties k
  cases s.index k with
  | none => cases r <;> cases c <;> cases e <;> simp
  | some j =>
    by_cases inside : s.all.length ≤ j
    · cases r <;> cases c <;> cases e <;> simp [inside] <;> omega
    · by_cases free : j ∈ taken
      · cases r <;> cases c <;> cases e <;> simp [inside, free] <;> rintro rfl <;> simp [free]
      · cases r <;> cases c <;> cases e <;> simp [inside, free] <;> rintro rfl <;>
          exact ⟨by omega, free⟩

/-- A list of kinds is accepted exactly when every kind is sound and the places of the kinds are
in the table, free and distinct. -/
theorem validateFrom_eq_ok_iff {s : KindSet κ} {taken : List Nat} {ks : List κ} :
    s.validateFrom taken ks = .ok () ↔
      (∀ k ∈ ks, Sound (s.properties k)) ∧
        ∃ is : List Nat, ks.map s.index = is.map some ∧ is.Nodup ∧
          ∀ i ∈ is, i < s.all.length ∧ i ∉ taken := by
  induction ks generalizing taken with
  | nil => simp [validateFrom]
  | cons k ks ih =>
    rw [validateFrom]
    cases h : s.check taken k with
    | error f =>
      simp only [reduceCtorEq, false_iff]
      rintro ⟨sound, is, places, distinct, free⟩
      cases is with
      | nil => simp at places
      | cons i is =>
        simp only [List.map_cons, List.cons.injEq] at places
        have := check_eq_ok_iff.2
          ⟨sound k (by simp), places.1, (free i (by simp)).1, (free i (by simp)).2⟩
        simp [h] at this
    | ok i =>
      obtain ⟨sound, place, inside, free⟩ := check_eq_ok_iff.1 h
      simp only [ih]
      constructor
      · rintro ⟨sounds, is, places, distinct, frees⟩
        refine ⟨by simpa [sound] using sounds, i :: is, by simp [place, places], ?_, ?_⟩
        · exact List.nodup_cons.2 ⟨fun h => (frees i h).2 (by simp), distinct⟩
        · intro j hj
          rcases List.mem_cons.1 hj with rfl | hj
          · exact ⟨inside, free⟩
          · exact ⟨(frees j hj).1, fun h => (frees j hj).2 (by simp [h])⟩
      · rintro ⟨sounds, is, places, distinct, frees⟩
        cases is with
        | nil => simp at places
        | cons j is =>
          simp only [List.map_cons, List.cons.injEq, place, Option.some.injEq] at places
          obtain ⟨rfl, places⟩ := places
          refine ⟨fun k hk => sounds k (by simp [hk]), is, places, (List.nodup_cons.1 distinct).2,
            ?_⟩
          intro j hj
          refine ⟨(frees j (by simp [hj])).1, fun h => ?_⟩
          rcases List.mem_cons.1 h with rfl | h
          · exact (List.nodup_cons.1 distinct).1 hj
          · exact (frees j (by simp [hj])).2 h

end KindSet

end AccessOrder.Access
