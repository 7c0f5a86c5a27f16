/- # Tests on whole numbers

Tests for searching a sequence of whole numbers.  Some look at the number, some only at how many
elements have been visited; each keeps the list of its visits.
-/
import AccessOrder.Sequence.Flat
namespace AccessOrder.Sequence

/-- A test on a whole number and the number of the visit, counted from one. -/
inductive Test where
  | all
  | none
  /-- The number has this remainder, which is never negative. -/
  | remainder (modulus rest : Int)
  | atLeast (bound : Int)
  | below (bound : Int)
  | equal (value : Int)
  /-- The visit has this number. -/
  | visit (number : Int)
  /-- The number of the visit is divisible. -/
  | every (period : Int)
  deriving DecidableEq

/-- Whether a number passes at a visit. -/
def Test.passes (t : Test) (visit : Nat) (v : Int) : Bool :=
  match t with
  | .all => true
  | .none => false
  | .remainder m r => v % m = r
  | .atLeast k => k ≤ v
  | .below k => v < k
  | .equal k => v = k
  | .visit k => (visit : Int) = k
  | .every k => (visit : Int) % k = 0

/-- The test as a visitor whose memory is the list of visited numbers, the last one first. -/
def Test.visitor (t : Test) : Visitor (List Int) Int :=
  fun visited v => (t.passes (visited.length + 1) v, v :: visited)

end AccessOrder.Sequence
