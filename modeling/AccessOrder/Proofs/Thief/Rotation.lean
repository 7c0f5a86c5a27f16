/- # Once around the workers

A round of a thief goes once around the workers: from where it starts to the last one, and from the
first one on to where it has started, with the thief itself left out.  All this can be calculated in
words of 64 bits, as long as there are not more than `2 ^ 63` workers.

* `map_visited`, `victims_eq` : a round written out;
* `victimWords?_eq` : no calculation of a round fails in words.
-/
import AccessOrder.Thief
import Mathlib
namespace AccessOrder.Thief

/-! ## A round written out -/

/-- A round starts at the number that the upper 31 bits of the generator tell. -/
theorem start_eq (t : Thief) : t.start = t.state.toNat / 2 ^ 33 % t.workers := by
  unfold start
  rw [UInt64.toNat_shiftRight, Nat.shiftRight_eq_div_pow]
  rfl

/-- A round starts at one of the workers. -/
theorem start_lt {t : Thief} (some : 0 < t.workers) : t.start < t.workers := Nat.mod_lt _ some

/-- Up to the last worker the numbers rise, and then they start again at the first. -/
theorem visited_eq {t : Thief} {offset : Nat} (inside : offset < t.workers) :
    t.visited offset =
      if offset < t.workers - t.start then t.start + offset
      else offset - (t.workers - t.start) := by
  have start := start_lt (t := t) (by omega)
  unfold visited
  split
  · exact Nat.mod_eq_of_lt (by omega)
  · rw [Nat.mod_eq_sub_mod (by omega), Nat.mod_eq_of_lt (by omega)]
    omega

/-- A round goes once around the workers. -/
theorem map_visited {t : Thief} (some : 0 < t.workers) :
    (List.range t.workers).map t.visited =
      List.range' t.start (t.workers - t.start) ++ List.range t.start := by
  have start := start_lt some
  apply List.ext_getElem
  · simp only [List.length_map, List.length_range, List.length_append, List.length_range']
    omega
  · intro offset inside _
    rw [List.length_map, List.length_range] at inside
    rw [List.getElem_map, List.getElem_range, visited_eq inside, List.getElem_append]
    simp

/-- The workers to be visited in a round, from where it starts. -/
theorem victims_eq {t : Thief} (some : 0 < t.workers) :
    t.victims =
      (List.range' t.start (t.workers - t.start) ++ List.range t.start).filter (· ≠ t.id) := by
  rw [victims, map_visited some]

/-! ## One round after the other -/

/-- Any number of rounds changes nothing but the state of the generator. -/
theorem iterate_next (t : Thief) (rounds : Nat) :
    next^[rounds] t = { t with state := successor^[rounds] t.state } := by
  induction rounds with
  | zero => rfl
  | succ rounds ih =>
      rw [Function.iterate_succ_apply', Function.iterate_succ_apply', ih]
      rfl

/-! ## A round in words -/

/-- The sum of two words, unless it is too large for one. -/
def sum? (a b : UInt64) : Option UInt64 :=
  if a.toNat + b.toNat < UInt64.size then some (a + b) else none

/-- The remainder of a division of words, unless the divisor is zero. -/
def remainder? (a b : UInt64) : Option UInt64 := if b = 0 then none else some (a % b)

/-- The worker that lies `offset` after the start of a round, calculated in words; `none` if the sum
is too large or there is no worker. -/
def visitedWord? (workers start : UInt64) (offset : Nat) : Option UInt64 :=
  (sum? start (UInt64.ofNat offset)).bind (remainder? · workers)

/-- The workers to be visited in a round, calculated in words; `none` if a calculation fails. -/
def victimWords? (t : Thief) : Option (List UInt64) :=
  let workers := UInt64.ofNat t.workers
  (remainder? (t.state >>> 33) workers).bind fun start =>
    ((List.range t.workers).mapM (visitedWord? workers start)).map
      (·.filter (· ≠ UInt64.ofNat t.id))

/-- A sum that is small enough is the same in words. -/
theorem sum?_ofNat {a b : Nat} (small : a + b < 2 ^ 64) :
    sum? (UInt64.ofNat a) (UInt64.ofNat b) = some (UInt64.ofNat (a + b)) := by
  have left : a < 2 ^ 64 := Nat.lt_of_le_of_lt (Nat.le_add_right a b) small
  have right : b < 2 ^ 64 := Nat.lt_of_le_of_lt (Nat.le_add_left b a) small
  unfold sum?
  rw [UInt64.toNat_ofNat_of_lt' left, UInt64.toNat_ofNat_of_lt' right,
    if_pos (show a + b < UInt64.size from small), UInt64.ofNat_add]

/-- Numbers that are small enough are told apart in words. -/
theorem ofNat_eq_iff {a b : Nat} (small : a < 2 ^ 64) (small' : b < 2 ^ 64) :
    UInt64.ofNat a = UInt64.ofNat b ↔ a = b := by
  rw [← UInt64.toNat_inj, UInt64.toNat_ofNat_of_lt' small, UInt64.toNat_ofNat_of_lt' small']

/-- A remainder of numbers that are small enough is the same in words. -/
theorem remainder?_ofNat {a b : Nat} (small : a < 2 ^ 64) (pos : 0 < b) (small' : b < 2 ^ 64) :
    remainder? (UInt64.ofNat a) (UInt64.ofNat b) = some (UInt64.ofNat (a % b)) := by
  have nonzero : UInt64.ofNat b ≠ 0 :=
    (ofNat_eq_iff small' (Nat.zero_lt_of_lt small)).not.2 (Nat.ne_of_gt pos)
  unfold remainder?
  rw [if_neg nonzero, UInt64.ofNat_mod small small']

/-- If every step of a list succeeds, so do all of them together. -/
theorem mapM_eq_some {α β : Type} {f : α → Option β} {g : α → β} {l : List α}
    (each : ∀ a ∈ l, f a = some (g a)) : l.mapM f = some (l.map g) := by
  induction l with
  | nil => rfl
  | cons a l ih =>
      rw [List.mapM_cons, each a List.mem_cons_self,
        ih fun b mem => each b (List.mem_cons_of_mem a mem)]
      rfl

/-- No calculation of a round fails in words. -/
theorem victimWords?_eq {t : Thief} (inside : t.id < t.workers) (few : t.workers ≤ 2 ^ 63) :
    t.victimWords? = some (t.victims.map UInt64.ofNat) := by
  have start := start_lt (t := t) (by omega)
  -- the start and an offset are less than `workers` each, so their sum is still a word
  have first : remainder? (t.state >>> 33) (UInt64.ofNat t.workers) =
      some (UInt64.ofNat t.start) := by
    rw [← UInt64.ofNat_toNat (x := t.state >>> 33)]
    exact remainder?_ofNat (UInt64.toNat_lt _) (by omega) (by omega)
  have visits : ∀ offset ∈ List.range t.workers,
      visitedWord? (UInt64.ofNat t.workers) (UInt64.ofNat t.start) offset =
        some (UInt64.ofNat (t.visited offset)) := by
    intro offset mem
    have within := List.mem_range.1 mem
    unfold visitedWord?
    rw [sum?_ofNat (by omega)]
    exact remainder?_ofNat (by omega) (by omega) (by omega)
  have apart : ∀ offset ∈ List.range t.workers,
      decide (UInt64.ofNat (t.visited offset) ≠ UInt64.ofNat t.id) =
        decide (t.visited offset ≠ t.id) := by
    intro offset mem
    have within : t.visited offset < t.workers := Nat.mod_lt _ (by omega)
    apply decide_eq_decide.2
    exact not_congr (ofNat_eq_iff (by omega) (by omega))
  unfold victimWords? victims
  simp only [first, Option.bind_some, mapM_eq_some visits, Option.map_some, Option.some.injEq,
    List.filter_map, List.map_map]
  exact congrArg _ (List.filter_congr apart)

end AccessOrder.Thief
