/- # Custody

Things that are kept in different places, none of them in two.  A change of two places that moves
things from one to the other, brings a new thing in or takes one out keeps the places `Apart`.

* `Exchange.apart` : places stay apart if what is put into them is nowhere else;
* `Exchange.kept_iff` : what is kept after such a change.
-/
import Mathlib
namespace AccessOrder.Pool

variable {π κ : Type} {g g' : π → List κ}

/-- Nothing is kept in two places, or in one place twice. -/
structure Apart (g : π → List κ) : Prop where
  nodup : ∀ p, (g p).Nodup
  unique : ∀ p q k, k ∈ g p → k ∈ g q → p = q

/-- Whether something is kept anywhere. -/
def Kept (g : π → List κ) (k : κ) : Prop := ∃ p, k ∈ g p

/-- Two different places have nothing in common. -/
theorem Apart.nodup_append (apart : Apart g) {p q : π} (different : p ≠ q) :
    (g p ++ g q).Nodup := by
  rw [List.nodup_append]
  refine ⟨apart.nodup p, apart.nodup q, ?_⟩
  rintro a here b there rfl
  exact different (apart.unique p q a here there)

/-- A change of two places of which `old` is taken out and into which `new` is put, while the `rest`
is moved about between them. -/
structure Exchange (g g' : π → List κ) (p q : π) (old new rest : List κ) : Prop where
  different : p ≠ q
  others : ∀ o, o ≠ p → o ≠ q → g' o = g o
  before : (g p ++ g q).Perm (old ++ rest)
  after : (g' p ++ g' q).Perm (new ++ rest)

variable {p q : π} {old new rest : List κ}

namespace Exchange

/-- What was in the two places. -/
theorem mem_before (exchange : Exchange g g' p q old new rest) {k : κ} :
    k ∈ g p ∨ k ∈ g q ↔ k ∈ old ∨ k ∈ rest := by
  rw [← List.mem_append, exchange.before.mem_iff, List.mem_append]

/-- What is in the two places afterwards. -/
theorem mem_after (exchange : Exchange g g' p q old new rest) {k : κ} :
    k ∈ g' p ∨ k ∈ g' q ↔ k ∈ new ∨ k ∈ rest := by
  rw [← List.mem_append, exchange.after.mem_iff, List.mem_append]

/-- What is taken out or moved about was somewhere. -/
theorem kept_before (exchange : Exchange g g' p q old new rest) {k : κ}
    (touched : k ∈ old ∨ k ∈ rest) : Kept g k := by
  rcases exchange.mem_before.2 touched with here | here
  · exact ⟨p, here⟩
  · exact ⟨q, here⟩

/-- What is put in or moved about is somewhere. -/
theorem kept_after (exchange : Exchange g g' p q old new rest) {k : κ}
    (touched : k ∈ new ∨ k ∈ rest) : Kept g' k := by
  rcases exchange.mem_after.2 touched with here | here
  · exact ⟨p, here⟩
  · exact ⟨q, here⟩

/-- What is somewhere afterwards has been put in or moved about, or is where it was, in another
place. -/
theorem cases_after (exchange : Exchange g g' p q old new rest) {o : π} {k : κ} (mem : k ∈ g' o) :
    ((o = p ∨ o = q) ∧ (k ∈ new ∨ k ∈ rest)) ∨ ((o ≠ p ∧ o ≠ q) ∧ k ∈ g o) := by
  by_cases isp : o = p
  · exact .inl ⟨.inl isp, exchange.mem_after.1 (.inl (isp ▸ mem))⟩
  · by_cases isq : o = q
    · exact .inl ⟨.inr isq, exchange.mem_after.1 (.inr (isq ▸ mem))⟩
    · exact .inr ⟨⟨isp, isq⟩, exchange.others o isp isq ▸ mem⟩

/-- What is taken out or moved about was in two different places. -/
theorem nodup (exchange : Exchange g g' p q old new rest) (apart : Apart g) :
    (old ++ rest).Nodup :=
  exchange.before.nodup_iff.1 (apart.nodup_append exchange.different)

/-- What is taken out is not moved about. -/
theorem not_mem_rest (exchange : Exchange g g' p q old new rest) (apart : Apart g) {k : κ}
    (taken : k ∈ old) : k ∉ rest := fun moved =>
  (List.nodup_append.1 (exchange.nodup apart)).2.2 k taken k moved rfl

/-- What is in another place is neither taken out nor moved about. -/
theorem elsewhere (exchange : Exchange g g' p q old new rest) (apart : Apart g) {o : π} {k : κ}
    (other : o ≠ p ∧ o ≠ q) (mem : k ∈ g o) : k ∉ old ∧ k ∉ rest := by
  rw [← not_or, ← exchange.mem_before, not_or]
  exact ⟨fun here => other.1 (apart.unique o p k mem here), fun here =>
    other.2 (apart.unique o q k mem here)⟩

/-- What is not taken out is still somewhere. -/
theorem kept_of_not_mem_old (exchange : Exchange g g' p q old new rest) {o : π} {k : κ}
    (mem : k ∈ g o) (left : k ∉ old) : Kept g' k := by
  by_cases touched : o = p ∨ o = q
  · refine exchange.kept_after (.inr ((exchange.mem_before.1 ?_).resolve_left left))
    rcases touched with rfl | rfl
    · exact .inl mem
    · exact .inr mem
  · rw [not_or] at touched
    exact ⟨o, exchange.others o touched.1 touched.2 ▸ mem⟩

/-- What is kept after an exchange. -/
theorem kept_iff (exchange : Exchange g g' p q old new rest) (apart : Apart g) (k : κ) :
    Kept g' k ↔ k ∈ new ∨ (Kept g k ∧ k ∉ old) := by
  constructor
  · rintro ⟨o, mem⟩
    rcases exchange.cases_after mem with ⟨-, put | moved⟩ | ⟨other, mem⟩
    · exact .inl put
    · exact .inr ⟨exchange.kept_before (.inr moved),
        fun taken => exchange.not_mem_rest apart taken moved⟩
    · exact .inr ⟨⟨o, mem⟩, (exchange.elsewhere apart other mem).1⟩
  · rintro (put | ⟨⟨o, mem⟩, left⟩)
    · exact exchange.kept_after (.inl put)
    · exact exchange.kept_of_not_mem_old mem left

/-- Places stay apart if what is put into them is nowhere else. -/
theorem apart (exchange : Exchange g g' p q old new rest) (apart : Apart g)
    (nodup : new.Nodup) (known : ∀ k ∈ new, k ∈ old ∨ ¬Kept g k) : Apart g' := by
  -- what is put in is neither moved about nor elsewhere
  have fresh : ∀ k ∈ new, k ∉ rest := by
    intro k put moved
    rcases known k put with taken | unkept
    · exact exchange.not_mem_rest apart taken moved
    · exact unkept (exchange.kept_before (.inr moved))
  have away : ∀ {o}, o ≠ p ∧ o ≠ q → ∀ {k}, k ∈ g o → ¬(k ∈ new ∨ k ∈ rest) := by
    intro o other k mem present
    obtain ⟨left, unmoved⟩ := exchange.elsewhere apart other mem
    rcases present with put | moved
    · rcases known k put with taken | unkept
      · exact left taken
      · exact unkept ⟨o, mem⟩
    · exact unmoved moved
  have both : (g' p ++ g' q).Nodup := by
    rw [exchange.after.nodup_iff, List.nodup_append]
    refine ⟨nodup, (List.nodup_append.1 (exchange.nodup apart)).2.1, ?_⟩
    rintro a put b moved rfl
    exact fresh a put moved
  obtain ⟨nodupp, nodupq, disjoint⟩ := List.nodup_append.1 both
  constructor
  · intro o
    by_cases isp : o = p
    · exact isp ▸ nodupp
    · by_cases isq : o = q
      · exact isq ▸ nodupq
      · rw [exchange.others o isp isq]
        exact apart.nodup o
  · intro o o' k here there
    rcases exchange.cases_after here with ⟨touched, present⟩ | ⟨other, mem⟩
    · rcases exchange.cases_after there with ⟨touched', -⟩ | ⟨other', mem'⟩
      · -- both are among the two places, which have nothing in common
        rcases touched with rfl | rfl
        · rcases touched' with rfl | rfl
          · rfl
          · exact absurd rfl (disjoint k here k there)
        · rcases touched' with rfl | rfl
          · exact absurd rfl (disjoint k there k here)
          · rfl
      · exact absurd present (away other' mem')
    · rcases exchange.cases_after there with ⟨-, present⟩ | ⟨-, mem'⟩
      · exact absurd present (away other mem)
      · exact apart.unique o o' k mem mem'

end Exchange

end AccessOrder.Pool
