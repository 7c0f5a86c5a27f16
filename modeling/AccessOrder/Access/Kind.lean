/- # Named access kinds

A kind that tasks declare: its name, its properties and its place in the table of a unit.
`Vocabulary` holds the kinds that are known by name; those listed form the kind set in use.
-/
import AccessOrder.Access.KindSet
import AccessOrder.Text.Address
namespace AccessOrder.Access

/-- A named access kind. -/
structure Kind where
  /-- The position of the kind among all kinds that were declared. -/
  ordinal : Nat
  name : String
  properties : Properties
  /-- The place of the kind in the table of a unit; `none` if it has no place. -/
  index : Option Nat
  deriving DecidableEq

/-- The name of a kind as it is shown in texts. -/
def Kind.text (k : Kind) : String := Text.hideAddresses k.name

/-- What is declared about a kind: its name, its properties and possibly its place. -/
structure Declaration where
  name : String
  properties : Properties
  index : Option Nat

/-- The kinds that are known by name. -/
structure Vocabulary where
  /-- Every declared kind, in order. -/
  declared : List Kind
  /-- How many of the declared kinds are listed in the kind set. -/
  size : Nat

namespace Vocabulary

/-- The listed kinds. -/
def listed (v : Vocabulary) : List Kind := v.declared.take v.size

/-- The kind set of the listed kinds. -/
def kindSet (v : Vocabulary) : KindSet Kind := ⟨v.listed, Kind.properties, Kind.index⟩

/-- The first kind of a name. -/
def find? (v : Vocabulary) (name : String) : Option Kind := v.declared.find? (·.name = name)

/-- The vocabulary of a list of declarations of which the first `size` are listed.  A kind that
declares no place has its position as its place; if no kind declares one, only the listed kinds have
a place. -/
def ofDeclarations (ds : List Declaration) (size : Nat) : Vocabulary where
  size := min size ds.length
  declared := ds.mapIdx fun i d =>
    { ordinal := i
      name := d.name
      properties := d.properties
      index :=
        if ds.any fun d => d.index.isSome then some (d.index.getD i)
        else if i < size then some i
        else none }

/-- The usual kinds: a shared read, an ordered write, and an addition. -/
def usual : Vocabulary :=
  ofDeclarations [⟨"Read", .read, none⟩, ⟨"Write", .write, none⟩, ⟨"Add", .accumulate, none⟩] 3

/-- The usual kinds form an accepted kind set. -/
theorem validate_usual : usual.kindSet.validate = .ok () := rfl

end Vocabulary

end AccessOrder.Access
