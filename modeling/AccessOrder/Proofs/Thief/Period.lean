/- # The period of the generator

The generator of a thief is linear: from a state it goes on to a multiple of it plus an increment,
in words of 64 bits.  The multiplier is one more than a multiple of four and the increment is odd,
so that `2 ^ k` steps add an odd multiple of `2 ^ k` to a state.  Hence no state comes again before
all words have come.  As the upper bits of the state tell where a round starts, every worker has its
turn to be the first one visited.

* `exists_iterate_two_pow` : `2 ^ k` linear steps in numbers;
* `minimalPeriod_successor`, `existsUnique_iterate` : the generator goes through all words;
* `exists_start` : before long a round starts at any given worker;
* `tries_everyone_first` : both for a thief, whatever its number and its state.
-/
import AccessOrder.Proofs.Thief.Rotation
namespace AccessOrder.Thief

open Function

/-! ## Linear steps in numbers -/

/-- A linear step of a number. -/
def linear (a c x : Nat) : Nat := c + a * x

/-- What `2 ^ k` linear steps add to a number is an odd multiple of `2 ^ k`, and numbers make a
difference to it in multiples of `2 ^ (k + 2)` only. -/
theorem exists_iterate_two_pow {a c : Nat} (ha : a % 4 = 1) (hc : Odd c) (k : Nat) :
    ∃ u o, Odd o ∧ ∀ x, (linear a c)^[2 ^ k] x = x + 2 ^ k * (4 * u * x + o) := by
  induction k with
  | zero =>
      obtain ⟨u, rfl⟩ : ∃ u, a = 4 * u + 1 := ⟨a / 4, by omega⟩
      refine ⟨u, c, hc, fun x => ?_⟩
      show c + (4 * u + 1) * x = x + 2 ^ 0 * (4 * u * x + c)
      ring
  | succ k ih =>
      obtain ⟨u, o, odd, ih⟩ := ih
      -- both halves of the steps add twice what the first one does, times this odd number
      have factor : Odd (1 + 2 ^ (k + 1) * u) := by
        rw [pow_succ, mul_assoc, mul_left_comm, add_comm]
        exact odd_two_mul_add_one _
      refine ⟨u * (1 + 2 ^ (k + 1) * u), o * (1 + 2 ^ (k + 1) * u), odd.mul factor, fun x => ?_⟩
      rw [pow_succ, mul_two, iterate_add_apply, ih, ih]
      ring

/-! ## All words -/

/-- A step of the generator is a linear step, up to multiples of `2 ^ 64`. -/
theorem toNat_successor (s : UInt64) :
    (successor s).toNat = linear multiplier.toNat increment.toNat s.toNat % 2 ^ 64 := by
  unfold successor linear
  rw [UInt64.toNat_add, UInt64.toNat_mul, Nat.add_mod_mod]

/-- Any number of steps of the generator are linear steps, up to multiples of `2 ^ 64`. -/
theorem toNat_iterate_successor (s : UInt64) (steps : Nat) :
    (successor^[steps] s).toNat =
      (linear multiplier.toNat increment.toNat)^[steps] s.toNat % 2 ^ 64 := by
  induction steps with
  | zero => exact (Nat.mod_eq_of_lt s.toNat_lt).symm
  | succ steps ih =>
      rw [iterate_succ_apply', iterate_succ_apply', toNat_successor, ih]
      exact ((Nat.mod_modEq _ _).mul_left _).add_left _

/-- The generator comes back to a state after `2 ^ 64` steps, and not before. -/
theorem minimalPeriod_successor (s : UInt64) : minimalPeriod successor s = 2 ^ 64 := by
  have steps := exists_iterate_two_pow (a := multiplier.toNat) (c := increment.toNat)
    (by decide) (by decide)
  have : Fact (Nat.Prime 2) := ⟨Nat.prime_two⟩
  apply minimalPeriod_eq_prime_pow (k := 63)
  · intro back
    -- half as many steps change the highest bit
    obtain ⟨u, o, ⟨w, rfl⟩, adds⟩ := steps 63
    have same := congrArg UInt64.toNat back
    have apart : s.toNat + 2 ^ 63 * (4 * u * s.toNat + (2 * w + 1)) =
        s.toNat + 2 ^ 63 + 2 ^ 64 * (2 * u * s.toNat + w) := by ring
    rw [toNat_iterate_successor, adds, apart, Nat.add_mul_mod_self_left] at same
    have small := s.toNat_lt
    omega
  · obtain ⟨u, o, -, adds⟩ := steps 64
    apply UInt64.toNat_inj.1
    rw [toNat_iterate_successor, adds, Nat.add_mul_mod_self_left]
    exact Nat.mod_eq_of_lt s.toNat_lt

/-- From any state on, `2 ^ 64` steps of the generator lead to every word, and to each of them
once. -/
theorem existsUnique_iterate (s x : UInt64) : ∃! k, k < 2 ^ 64 ∧ successor^[k] s = x := by
  have injective : Injective fun k : Fin (2 ^ 64) => (successor^[k] s).toFin := by
    intro a b same
    have inside : ∀ k : Fin (2 ^ 64), (k : Nat) ∈ Set.Iio (minimalPeriod successor s) := by
      intro k
      rw [minimalPeriod_successor]
      exact k.isLt
    exact Fin.ext (iterate_injOn_Iio_minimalPeriod (inside a) (inside b)
      (UInt64.toFin_inj.1 same))
  obtain ⟨k, reached⟩ := (Finite.injective_iff_surjective.1 injective) x.toFin
  refine ⟨k, ⟨k.isLt, UInt64.toFin_inj.1 reached⟩, ?_⟩
  rintro j ⟨small, there⟩
  have same : (⟨j, small⟩ : Fin (2 ^ 64)) = k :=
    injective ((congrArg UInt64.toFin there).trans reached.symm)
  exact congrArg Fin.val same

/-! ## Where rounds start -/

/-- A round begins with the worker at which it starts, unless that is the thief itself. -/
theorem head?_victims {t : Thief} (manned : 0 < t.workers) (other : t.start ≠ t.id) :
    t.victims.head? = some t.start := by
  have start := start_lt manned
  obtain ⟨rest, more⟩ : ∃ rest, t.workers - t.start = rest + 1 :=
    ⟨t.workers - t.start - 1, by omega⟩
  rw [victims_eq manned, more, List.range'_succ, List.cons_append,
    List.filter_cons, if_pos (decide_eq_true other), List.head?_cons]

/-- The state after some rounds has gone through as many steps of the generator. -/
theorem state_iterate_next (t : Thief) (rounds : Nat) :
    (next^[rounds] t).state = successor^[rounds] t.state := by
  rw [iterate_next]

/-- In `2 ^ 64` rounds one starts at any given worker, if there are not more workers than the upper
bits of a state can tell. -/
theorem exists_start {t : Thief} {worker : Nat} (inside : worker < t.workers)
    (few : t.workers ≤ 2 ^ 31) (rounds : Nat) :
    ∃ later, rounds < later ∧ later ≤ rounds + 2 ^ 64 ∧ (next^[later] t).start = worker := by
  -- the upper bits of this word are the number of the worker
  obtain ⟨k, ⟨small, reached⟩, -⟩ :=
    existsUnique_iterate (successor^[rounds + 1] t.state) (UInt64.ofNat (worker * 2 ^ 33))
  have upper : (successor^[k + (rounds + 1)] t.state).toNat = worker * 2 ^ 33 := by
    rw [iterate_add_apply, reached]
    exact UInt64.toNat_ofNat_of_lt' (show worker * 2 ^ 33 < 2 ^ 64 by omega)
  refine ⟨k + (rounds + 1), by omega, by omega, ?_⟩
  rw [start_eq, iterate_next, upper, Nat.mul_div_cancel _ (by decide), Nat.mod_eq_of_lt inside]

/-- The generator of a thief goes through all words, whatever its state: each comes once in any
`2 ^ 64` rounds, after which the thief is as before.  Hence if a thief is one of at most `2 ^ 31`
workers, then for each of the others and at any time, one of its next `2 ^ 64` rounds starts at that
worker, and visits it first. -/
theorem tries_everyone_first (t : Thief) :
    (∀ rounds x, ∃! k, k < 2 ^ 64 ∧ (next^[rounds + k] t).state = x) ∧
    (∀ rounds, next^[rounds + 2 ^ 64] t = next^[rounds] t) ∧
    (t.workers ≤ 2 ^ 31 → ∀ worker, worker < t.workers → worker ≠ t.id → ∀ rounds,
      ∃ later, rounds < later ∧ later ≤ rounds + 2 ^ 64 ∧ (next^[later] t).start = worker ∧
        (next^[later] t).victims.head? = some worker) := by
  refine ⟨fun rounds x => ?_, fun rounds => ?_, fun few worker inside other rounds => ?_⟩
  · simp only [state_iterate_next, Nat.add_comm rounds, iterate_add_apply]
    exact existsUnique_iterate _ x
  · rw [iterate_next, iterate_next, iterate_add_apply]
    have back := iterate_minimalPeriod (f := successor) (x := t.state)
    rw [minimalPeriod_successor] at back
    rw [back]
  · obtain ⟨later, after, soon, start⟩ := exists_start inside few rounds
    refine ⟨later, after, soon, start, ?_⟩
    have same : (next^[later] t).workers = t.workers ∧ (next^[later] t).id = t.id := by
      rw [iterate_next]
      exact ⟨rfl, rfl⟩
    rw [← start]
    apply head?_victims
    · omega
    · rw [start, same.2]
      exact other

/-- The first of three workers, which has been through five rounds, will try the third one first. -/
theorem tries_everyone_first_three :
    3 ≤ 2 ^ 31 ∧ 2 < 3 ∧ 2 ≠ 0 ∧ ∃ later, 5 < later ∧ later ≤ 5 + 2 ^ 64 ∧
      (next^[later] ⟨0, 3, 0⟩).start = 2 ∧ (next^[later] ⟨0, 3, 0⟩).victims.head? = some 2 :=
  ⟨by decide, by decide, by decide,
    (tries_everyone_first ⟨0, 3, 0⟩).2.2 (by decide) 2 (by decide) (by decide) 5⟩

end AccessOrder.Thief
