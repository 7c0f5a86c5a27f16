/- # Properties of an access

What is declared about one way of using a unit of data: whether it leaves the data alone, whether
the order of two such accesses matters, and whether two of them may overlap in time.
-/
import AccessOrder.Text.Record
namespace AccessOrder.Access

/-- What is declared about one way of using a unit of data. -/
structure Properties where
  /-- The access never changes the data. -/
  readonly : Bool
  /-- Neighbouring accesses of this kind may be applied in any order and share one version. -/
  commutative : Bool
  /-- Two accesses of this kind must not overlap in time. -/
  exclusive : Bool
  deriving DecidableEq

namespace Properties

/-- A plain read. -/
def read : Properties := ⟨true, true, false⟩

/-- A plain write. -/
def write : Properties := ⟨false, false, true⟩

/-- An accumulation, such as adding to a sum. -/
def accumulate : Properties := ⟨false, true, true⟩

/-- Accesses that share a version and must still not overlap go through the lock of the unit. -/
def needsLock (p : Properties) : Bool := p.exclusive && p.commutative

/-- Accesses that share a version and may overlap. -/
def concurrentSafe (p : Properties) : Bool := p.commutative && !p.exclusive

/-- The one-line text of the three properties. -/
def text (p : Properties) : String :=
  Text.record "AccessProperties"
    [("readonly", Text.flag p.readonly), ("commutative", Text.flag p.commutative),
      ("exclusive", Text.flag p.exclusive)]

/-- No access both goes through the lock and may overlap. -/
theorem not_needsLock_of_concurrentSafe {p : Properties} (h : p.concurrentSafe = true) :
    p.needsLock = false := by
  simp_all [concurrentSafe, needsLock]

/-- A commutative access either goes through the lock or may overlap. -/
theorem needsLock_or_concurrentSafe {p : Properties} (h : p.commutative = true) :
    p.needsLock = true ∨ p.concurrentSafe = true := by
  cases e : p.exclusive <;> simp [needsLock, concurrentSafe, h, e]

end Properties

end AccessOrder.Access
