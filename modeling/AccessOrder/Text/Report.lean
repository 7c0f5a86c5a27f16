/- # Reports of broken rules

The texts in which a rule that does not hold is reported: two values that should be equal, an index
outside of a table, a case that should not arise.
-/
namespace AccessOrder.Text

/-- Two values that should be equal at a named place. -/
def unequal (place left right : String) : String :=
  "assertion `left == right` failed: " ++ place ++ "\n  left: " ++ left ++ "\n right: " ++ right

/-- An index outside of a table. -/
def indexOutside (size index : Nat) : String :=
  "index out of bounds: the len is " ++ toString size ++ " but the index is " ++ toString index

/-- A case at a named place that should not arise. -/
def unreachable (place : String) : String :=
  "internal error: entered unreachable code: " ++ place

end AccessOrder.Text
