/- # Reading options

Options are read from variables in a fixed order.  A variable that is not set keeps the default, and
the first value that has none of the forms of its variable ends the reading.  Blanks around a
value are ignored, and so is the case of its letters.

* `readFrom_looked` : the variables looked up are the first few of those to be read;
* `readFrom_all_unset` : if nothing is set the options are kept.
-/
import AccessOrder.Options.Basic
import AccessOrder.Text.Blank
namespace AccessOrder

namespace Options

/-- A value without the blanks around it. -/
def trimmed (value : String) : List Char := Text.trimBlank value.toList

/-- A value without the blanks around it, in small letters; only `A` to `Z` are changed. -/
def folded (value : String) : String := String.ofList ((trimmed value).map Char.toLower)

/-- The largest number of workers that can be written. -/
def maxCount : Nat := UInt64.size - 1

/-- The number that decimal digits denote. -/
def ofDigits (digits : List Char) : Nat :=
  digits.foldl (fun n c => 10 * n + (c.toNat - '0'.toNat)) 0

/-- Reads a number: decimal digits, possibly after a plus sign. -/
def parseCount? (s : List Char) : Option Nat :=
  let digits := if s.head? = some '+' then s.tail else s
  if digits.isEmpty || !digits.all Char.isDigit then none
  else if ofDigits digits ≤ maxCount then some (ofDigits digits) else none

/-- The spellings of a raised flag. -/
def raisedWords : List String := ["1", "true", "yes", "on"]

/-- The spellings of a lowered flag. -/
def loweredWords : List String := ["0", "false", "no", "off"]

/-- Reads a flag. -/
def parseFlag? (value : String) : Option Bool :=
  if raisedWords.contains (folded value) then some true
  else if loweredWords.contains (folded value) then some false
  else none

/-- Reads a readiness discipline. -/
def parseReadiness? (value : String) : Option Readiness :=
  if folded value = Readiness.eager.word then some .eager
  else if folded value = Readiness.lazy.word then some .lazy
  else none

/-- Reads a readiness discipline, or reports that the value is no such word. -/
def parseReadiness (value : String) : Except Fault Readiness :=
  match parseReadiness? value with
  | some r => .ok r
  | none => .error (.invalidValue .readiness value)

/-- Sets the option of a variable from its value. -/
def assign (o : Options) (var : Variable) (value : String) : Except Fault Options :=
  match var with
  | .numWorkers =>
    match parseCount? (trimmed value) with
    | some n => o.withWorkers n
    | none => .error (.invalidValue var value)
  | .pinWorkers =>
    match parseFlag? value with
    | some b => .ok { o with pinWorkers := b }
    | none => .error (.invalidValue var value)
  | .startPaused =>
    match parseFlag? value with
    | some b => .ok { o with startPaused := b }
    | none => .error (.invalidValue var value)
  | .readiness => (parseReadiness value).map fun r => { o with readiness := r }

/-- What came of reading options: the variables that were looked up, and the options. -/
structure Reading where
  looked : List Variable
  result : Except Fault Options

/-- Every variable, in the order of reading. -/
def Variable.all : List Variable := [.numWorkers, .pinWorkers, .startPaused, .readiness]

/-- Reads the options of some variables, in order. -/
def readFrom (lookup : Variable → Option String) : List Variable → Options → Reading
  | [], o => ⟨[], .ok o⟩
  | var :: vars, o =>
    match lookup var with
    | none =>
      let r := readFrom lookup vars o
      ⟨var :: r.looked, r.result⟩
    | some value =>
      match o.assign var value with
      | .error f => ⟨[var], .error f⟩
      | .ok o =>
        let r := readFrom lookup vars o
        ⟨var :: r.looked, r.result⟩

/-- Reads all options. -/
def read (lookup : Variable → Option String) : Reading := readFrom lookup Variable.all default

/-- Reads all options from an environment of byte strings.  A value that is no text counts as not
set. -/
def readBytes (environment : Variable → Option ByteArray) : Reading :=
  read fun var => (environment var).bind String.fromUTF8?

/-! ## What is looked up -/

/-- The variables looked up are the first few of those to be read. -/
theorem readFrom_looked (lookup : Variable → Option String) (vars : List Variable) (o : Options) :
    (readFrom lookup vars o).looked <+: vars := by
  induction vars generalizing o with
  | nil => exact List.prefix_refl _
  | cons var vars ih =>
    unfold readFrom
    split
    · exact (List.prefix_cons_inj var).2 (ih o)
    · split
      · exact ⟨vars, rfl⟩
      · exact (List.prefix_cons_inj var).2 (ih _)

/-- If nothing is set the options are kept. -/
theorem readFrom_all_unset (vars : List Variable) (o : Options) :
    readFrom (fun _ => none) vars o = ⟨vars, .ok o⟩ := by
  induction vars with
  | nil => rfl
  | cons var vars ih => simp [readFrom, ih]

end Options

end AccessOrder
