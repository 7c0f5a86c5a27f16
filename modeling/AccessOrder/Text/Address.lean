/- # Hidden addresses

Addresses differ from run to run, so they are never shown in digits: `0x` is followed by a mark in
place of its hexadecimal digits.  Names inside a text are treated alike, because what looks like an
address in a name cannot be told from one.

* `hideFrom_of_not_mem` : a text without the letter `x` has nothing to hide.
-/
namespace AccessOrder.Text

/-- Whether a character is a hexadecimal digit. -/
def isHexDigit (c : Char) : Bool :=
  c.isDigit || ('a' ≤ c && c ≤ 'f') || ('A' ≤ c && c ≤ 'F')

/-- Puts a mark in place of the digits after each `0x`, up to the next `0x`; `within` tells whether
the characters still belong to such digits. -/
def hideFrom (within : Bool) : List Char → List Char
  | '0' :: 'x' :: cs => '0' :: 'x' :: '_' :: hideFrom true cs
  | c :: cs => if within && isHexDigit c then hideFrom true cs else c :: hideFrom false cs
  | [] => []

/-- The text with the digits of its addresses hidden. -/
def hideAddresses (s : String) : String := String.ofList (hideFrom false s.toList)

/-- An address as it is shown. -/
def hiddenAddress : String := "0x_"

/-- A text without the letter `x` has nothing to hide. -/
theorem hideFrom_of_not_mem {cs : List Char} (h : 'x' ∉ cs) : hideFrom false cs = cs := by
  induction cs with
  | nil => rfl
  | cons c cs ih =>
    rw [List.mem_cons, not_or] at h
    unfold hideFrom
    split
    · next opened =>
      cases opened
      simp at h
    · next kept =>
      cases kept
      simp [ih h.2]
    · next absurd => cases absurd

end AccessOrder.Text
