/- # Thieves

The order in which a worker visits the queues of the other workers.  Each round starts at a worker
drawn from a linear congruential generator that is seeded with the number of the thief, and goes
on from there in circular order, leaving the thief itself out.

* `mem_victims` : a round visits every worker but the thief;
* `nodup_victims` : it visits none of them twice.
-/
namespace AccessOrder

/-- A worker that looks for work in the queues of others. -/
structure Thief where
  /-- The number of the worker itself. -/
  id : Nat
  /-- The number of workers. -/
  workers : Nat
  /-- The state of the generator. -/
  state : UInt64
  deriving DecidableEq

namespace Thief

/-- The multiplier of the generator. -/
def multiplier : UInt64 := 6364136223846793005

/-- The increment of the generator. -/
def increment : UInt64 := 1442695040888963407

/-- The thief with the given number among so many workers; `none` if there is no such worker. -/
def new? (id workers : Nat) : Option Thief :=
  if id < workers then some ⟨id, workers, UInt64.ofNat id⟩ else none

/-- The text that reports a thief that is not one of the workers. -/
def strangerMessage : String := "StealOrder::new: [1]"

/-- The state that follows a state of the generator. -/
def successor (state : UInt64) : UInt64 := increment + multiplier * state

/-- The thief at its next round. -/
def next (t : Thief) : Thief := { t with state := successor t.state }

/-- The worker at which a round starts: the upper 31 bits of the state of the generator, reduced to
the number of workers. -/
def start (t : Thief) : Nat := (t.state >>> 33).toNat % t.workers

/-- The worker that lies `offset` after the start of the round. -/
def visited (t : Thief) (offset : Nat) : Nat := (t.start + offset) % t.workers

/-- The workers to be visited in a round, in order. -/
def victims (t : Thief) : List Nat :=
  ((List.range t.workers).map t.visited).filter (· ≠ t.id)

/-- The first workers to be visited in a round.  As only the thief itself is left out, it is enough
to look at one more offset than asked for. -/
def takeVictims (t : Thief) (count : Nat) : List Nat :=
  (((List.range (min t.workers (count + 1))).map t.visited).filter (· ≠ t.id)).take count

/-! ## Who is visited -/

/-- Every worker is met in a round, from whatever worker it starts. -/
theorem exists_visited {t : Thief} {worker : Nat} (h : worker < t.workers) :
    ∃ offset < t.workers, t.visited offset = worker := by
  have inside : t.start < t.workers := Nat.mod_lt _ (by omega)
  refine ⟨(worker + (t.workers - t.start)) % t.workers, Nat.mod_lt _ (by omega), ?_⟩
  unfold visited
  rw [Nat.add_mod_mod,
    show t.start + (worker + (t.workers - t.start)) = worker + t.workers by omega,
    Nat.add_mod_right, Nat.mod_eq_of_lt h]

/-- A round visits every worker but the thief. -/
theorem mem_victims {t : Thief} {worker : Nat} :
    worker ∈ t.victims ↔ worker < t.workers ∧ worker ≠ t.id := by
  simp only [victims, List.mem_filter, List.mem_map, List.mem_range, decide_eq_true_eq]
  constructor
  · rintro ⟨⟨offset, h, rfl⟩, other⟩
    exact ⟨Nat.mod_lt _ (by omega), other⟩
  · rintro ⟨h, other⟩
    exact ⟨exists_visited h, other⟩

/-- Different offsets of a round lead to different workers. -/
theorem visited_injective {t : Thief} {a b : Nat} (ha : a < t.workers) (hb : b < t.workers)
    (same : t.visited a = t.visited b) : a = b := by
  have inside : t.start < t.workers := Nat.mod_lt _ (by omega)
  unfold visited at same
  have wrap : ∀ c, c < t.workers → (t.start + c) % t.workers =
      if t.start + c < t.workers then t.start + c else t.start + c - t.workers := by
    intro c hc
    split
    · exact Nat.mod_eq_of_lt ‹_›
    · rw [Nat.mod_eq_sub_mod (by omega), Nat.mod_eq_of_lt (by omega)]
  rw [wrap a ha, wrap b hb] at same
  split at same <;> split at same <;> omega

/-- No worker is met twice in a round. -/
theorem nodup_visited (t : Thief) {m : Nat} (h : m ≤ t.workers) :
    ((List.range m).map t.visited).Nodup := by
  refine List.pairwise_map.2 (List.Pairwise.imp_of_mem ?_ List.nodup_range)
  intro a b ha hb different same
  exact different (visited_injective (Nat.lt_of_lt_of_le (List.mem_range.1 ha) h)
    (Nat.lt_of_lt_of_le (List.mem_range.1 hb) h) same)

/-- A round visits no worker twice. -/
theorem nodup_victims (t : Thief) : t.victims.Nodup :=
  (nodup_visited t (Nat.le_refl _)).sublist List.filter_sublist

end Thief

end AccessOrder
