/- # Quoted text

A text between double quotes, with escapes for the quote, the backslash, line ends, tabs, zeros and
every character that is unprintable or extending.

* `escapeChar_of_printable` : a printable character that is neither the quote nor the backslash
  stands for itself.
-/
import AccessOrder.Text.Unprintable
import AccessOrder.Text.Extending
namespace AccessOrder.Text

/-- The hexadecimal digits of a number, small letters, no leading zeros. -/
def hexDigits (n : Nat) : List Char := Nat.toDigits 16 n

/-- A character as it is written inside quotes. -/
def escapeChar (c : Char) : List Char :=
  if c = '"' then ['\\', '"']
  else if c = '\\' then ['\\', '\\']
  else if c = '\n' then ['\\', 'n']
  else if c = '\r' then ['\\', 'r']
  else if c = '\t' then ['\\', 't']
  else if c = '\x00' then ['\\', '0']
  else if isExtending c || isUnprintable c then
    ['\\', 'u', '\x7b'] ++ hexDigits c.toNat ++ ['\x7d']
  else [c]

/-- A printable character that is neither the quote nor the backslash stands for itself. -/
theorem escapeChar_of_printable {c : Char} (quote : c ≠ '"') (backslash : c ≠ '\\')
    (extending : isExtending c = false) (printable : isUnprintable c = false) :
    escapeChar c = [c] := by
  have control : c ≠ '\n' ∧ c ≠ '\r' ∧ c ≠ '\t' ∧ c ≠ '\x00' := by
    refine ⟨?_, ?_, ?_, ?_⟩ <;> rintro rfl <;> revert printable <;> decide
  simp [escapeChar, quote, backslash, extending, printable, control]

/-- The text between double quotes, its characters escaped. -/
def quote (s : String) : String :=
  String.ofList ('"' :: s.toList.flatMap escapeChar ++ ['"'])

end AccessOrder.Text
