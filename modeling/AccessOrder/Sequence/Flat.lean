/- # Sequences as lists

The operations of a double-ended sequence on its list of elements, front first.  Searches visit
the elements from the back to the front with a test that may remember what it has seen.

* `removeLast_perm` : an element that is removed and what is kept make up the whole sequence.
-/
namespace AccessOrder.Sequence

/-- A test that may remember what it has seen: from its memory and an element it gives an answer
and its memory after the visit. -/
abbrev Visitor (σ α : Type) := σ → α → Bool × σ

/-- What a removal of elements leaves: those removed, those kept, and the memory of the test. -/
structure Removal (ρ κ σ : Type) where
  removed : ρ
  kept : κ
  memory : σ

namespace Flat

variable {σ α : Type}

/-- Splits a list, visited in order, into the elements that pass the test and those that do not. -/
def separate (p : Visitor σ α) (s : σ) : List α → Removal (List α) (List α) σ
  | [] => ⟨[], [], s⟩
  | x :: xs =>
    let rest := separate p (p s x).2 xs
    if (p s x).1 then { rest with removed := x :: rest.removed }
    else { rest with kept := x :: rest.kept }

/-- Takes the first element that passes the test out of a list, visited in order. -/
def extract (p : Visitor σ α) (s : σ) : List α → Removal (Option α) (List α) σ
  | [] => ⟨none, [], s⟩
  | x :: xs =>
    if (p s x).1 then ⟨some x, xs, (p s x).2⟩
    else
      let rest := extract p (p s x).2 xs
      { rest with kept := x :: rest.kept }

/-- Removes every element that passes the test; visits the back first and lists what is removed
in the order of the visits. -/
def eraseIf (p : Visitor σ α) (s : σ) (xs : List α) : Removal (List α) (List α) σ :=
  let r := separate p s xs.reverse
  { r with kept := r.kept.reverse }

/-- Removes the element closest to the back that passes the test, and visits nothing before it. -/
def removeLast (p : Visitor σ α) (s : σ) (xs : List α) : Removal (Option α) (List α) σ :=
  let r := extract p s xs.reverse
  { r with kept := r.kept.reverse }

/-! ## Nothing is lost -/

/-- The element taken out and the rest make up the whole list. -/
theorem extract_perm (p : Visitor σ α) (s : σ) (xs : List α) :
    ((extract p s xs).removed.toList ++ (extract p s xs).kept).Perm xs := by
  induction xs generalizing s with
  | nil => exact .refl _
  | cons x xs ih =>
    by_cases hit : (p s x).1
    · simp [extract, hit]
    · simpa [extract, hit] using List.perm_middle.trans ((ih _).cons x)

/-- The element removed and the rest make up the whole sequence. -/
theorem removeLast_perm (p : Visitor σ α) (s : σ) (xs : List α) :
    ((removeLast p s xs).removed.toList ++ (removeLast p s xs).kept).Perm xs :=
  ((List.Perm.refl _).append (List.reverse_perm _)).trans
    ((extract_perm p s xs.reverse).trans (List.reverse_perm xs))

end Flat

end AccessOrder.Sequence
