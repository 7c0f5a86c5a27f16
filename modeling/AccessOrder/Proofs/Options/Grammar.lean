/- # The forms of values

What the value of a variable may look like, said without reference to how it is read: blanks around
a core, which is a number in decimal or a word in letters of either case.  Reading a value finds its
core, and succeeds exactly if the core has the form.

* `Core`, `core_iff` : what is left without the blanks;
* `Numeral`, `parseCount?_eq_some_iff` : numbers;
* `Spells`, `parseFlag?_eq_some_iff`, `parseReadiness?_eq_some_iff` : words.
-/
import AccessOrder.Options.Reading
import Mathlib
namespace AccessOrder.Options

/-! ## Blanks around a value -/

/-- A text is the core of a value if there are only blanks around it, and no blank at its ends. -/
structure Core (value : String) (core : List Char) : Prop where
  within : ∃ front back, value.toList = front ++ core ++ back ∧
    (∀ c ∈ front, Text.isBlank c = true) ∧ ∀ c ∈ back, Text.isBlank c = true
  first : ∀ c ∈ core.head?, Text.isBlank c = false
  last : ∀ c ∈ core.getLast?, Text.isBlank c = false

/-- Every value has one core, which is found. -/
theorem core_iff {value : String} {core : List Char} : Core value core ↔ core = trimmed value := by
  constructor
  · rintro ⟨⟨front, back, whole, before, after⟩, first, last⟩
    rw [trimmed, whole, Text.trimBlank_append before after first last]
  · rintro rfl
    obtain ⟨front, back, whole, before, after, first, last⟩ := Text.exists_trimBlank value.toList
    exact ⟨⟨front, back, whole, before, after⟩, first, last⟩

/-- What holds of some core of a value holds of the one that is found. -/
theorem exists_core_iff {value : String} {holds : List Char → Prop} :
    (∃ core, Core value core ∧ holds core) ↔ holds (trimmed value) := by
  simp only [core_iff, exists_eq_left]

/-- A text of which no character is blank is the core of what comes of it by putting blanks
around. -/
theorem core_of_forall {value : String} {front core back : List Char}
    (whole : value.toList = front ++ core ++ back) (before : ∀ c ∈ front, Text.isBlank c = true)
    (after : ∀ c ∈ back, Text.isBlank c = true) (solid : ∀ c ∈ core, Text.isBlank c = false) :
    Core value core where
  within := ⟨front, back, whole, before, after⟩
  first c first := solid c (List.mem_of_mem_head? first)
  last c last := solid c (List.mem_of_mem_getLast? last)

/-! ## Numbers -/

/-- A text denotes a number in decimal: it is made of one or more digits, possibly after a plus
sign. -/
inductive Numeral : List Char → Nat → Prop
  | plain {digits : List Char} : digits ≠ [] → (∀ c ∈ digits, c.isDigit = true) →
      Numeral digits (Nat.ofDigitChars 10 digits 0)
  | signed {digits : List Char} : digits ≠ [] → (∀ c ∈ digits, c.isDigit = true) →
      Numeral ('+' :: digits) (Nat.ofDigitChars 10 digits 0)

/-- The digits of a text, without the sign in front. -/
def unsigned (s : List Char) : List Char := if s.head? = some '+' then s.tail else s

/-- A text denotes a number if it is made of digits but for the sign in front. -/
theorem numeral_iff {s : List Char} {n : Nat} :
    Numeral s n ↔ unsigned s ≠ [] ∧ (∀ c ∈ unsigned s, c.isDigit = true) ∧
      ofDigits (unsigned s) = n := by
  constructor
  · intro numeral
    cases numeral with
    | plain some digits =>
        -- the first of them is no sign
        have same : unsigned s = s := by
          unfold unsigned
          split
          · next sign => exact absurd (digits _ (List.mem_of_mem_head? sign)) (by decide)
          · rfl
        rw [same]
        exact ⟨some, digits, rfl⟩
    | signed some digits => exact ⟨some, digits, rfl⟩
  · rintro ⟨some, digits, rfl⟩
    unfold unsigned at some digits ⊢
    split at some
    · next sign =>
      rw [if_pos sign] at digits ⊢
      cases s with
      | nil => cases sign
      | cons c s =>
          cases sign
          exact .signed some digits
    · next sign =>
      rw [if_neg sign] at digits ⊢
      exact .plain some digits

/-- A text denotes one number at most. -/
theorem Numeral.unique {s : List Char} {n k : Nat} (denotes : Numeral s n)
    (denotes' : Numeral s k) : n = k :=
  (numeral_iff.1 denotes).2.2.symm.trans (numeral_iff.1 denotes').2.2

/-- Exactly the numbers that fit into a word are read. -/
theorem parseCount?_eq_some_iff {s : List Char} {n : Nat} :
    parseCount? s = some n ↔ Numeral s n ∧ n ≤ 2 ^ 64 - 1 := by
  have same : parseCount? s =
      if (unsigned s).isEmpty || !(unsigned s).all Char.isDigit then none
      else if ofDigits (unsigned s) ≤ maxCount then some (ofDigits (unsigned s)) else none := rfl
  rw [same, numeral_iff]
  split
  · next bad =>
    constructor
    · intro none
      cases none
    · rintro ⟨⟨some, digits, -⟩, -⟩
      rw [Bool.or_eq_true_iff, List.isEmpty_iff] at bad
      rcases bad with empty | odd
      · exact absurd empty some
      · rw [List.all_eq_true.2 digits] at odd
        cases odd
  · next good =>
    have formed : unsigned s ≠ [] ∧ ∀ c ∈ unsigned s, c.isDigit = true := by
      simpa [List.all_eq_true] using good
    split
    · next fits =>
      constructor
      · intro read
        cases read
        exact ⟨⟨formed.1, formed.2, rfl⟩, fits⟩
      · rintro ⟨⟨-, -, value⟩, -⟩
        exact congrArg some value
    · next large =>
      constructor
      · intro none
        cases none
      · rintro ⟨⟨-, -, value⟩, fits⟩
        exact absurd (value ▸ fits) large

/-- Zeros in front do not change a number. -/
theorem ofDigits_replicate_append (zeros : Nat) (digits : List Char) :
    Nat.ofDigitChars 10 (List.replicate zeros '0' ++ digits) 0 = Nat.ofDigitChars 10 digits 0 := by
  induction zeros with
  | zero => rfl
  | succ zeros ih => exact ih

/-- A number that is written out, possibly with zeros in front, consists of digits. -/
theorem isDigit_of_mem_written {zeros n : Nat} :
    ∀ c ∈ List.replicate zeros '0' ++ (toString n).toList, c.isDigit = true := by
  intro c mem
  rw [Nat.toString_eq_ofList_toDigits, String.toList_ofList, List.mem_append] at mem
  rcases mem with zero | digit
  · rw [List.eq_of_mem_replicate zero]
    rfl
  · exact Nat.isDigit_of_mem_toDigits (by decide) (by decide) digit

/-- A number that is written out denotes itself, with or without a sign and zeros in front. -/
theorem numeral_written {sign : List Char} (signs : sign = [] ∨ sign = ['+']) (zeros n : Nat) :
    Numeral (sign ++ (List.replicate zeros '0' ++ (toString n).toList)) n := by
  have value : Nat.ofDigitChars 10 (List.replicate zeros '0' ++ (toString n).toList) 0 = n := by
    rw [ofDigits_replicate_append, Nat.toString_eq_ofList_toDigits, String.toList_ofList]
    exact Nat.ofDigitChars_toDigits (by decide) (by decide)
  have some : List.replicate zeros '0' ++ (toString n).toList ≠ [] := by
    rw [Nat.toString_eq_ofList_toDigits, String.toList_ofList]
    exact List.append_ne_nil_of_right_ne_nil _ Nat.toDigits_ne_nil
  rcases signs with rfl | rfl
  · have numeral := Numeral.plain some isDigit_of_mem_written
    rwa [value] at numeral
  · have numeral := Numeral.signed some isDigit_of_mem_written
    rwa [value] at numeral

/-! ## Words -/

/-- Two characters are the same but for the case of a letter from `A` to `Z`. -/
def SameLetter (c d : Char) : Prop :=
  c = d ∨ (c.isUpper = true ∧ d.toNat = c.toNat + 32) ∨ (d.isUpper = true ∧ c.toNat = d.toNat + 32)

/-- A text spells a word, in letters of either case. -/
def Spells (s : List Char) (word : String) : Prop := List.Forall₂ SameLetter s word.toList

/-- A small letter that comes of a capital one comes after it by the same number always. -/
theorem toNat_toLower (c : Char) :
    c.toLower.toNat = if c.isUpper = true then c.toNat + 32 else c.toNat := by
  unfold Char.toLower Char.isUpper
  by_cases upper : c.val ≥ 'A'.val ∧ c.val ≤ 'Z'.val
  · rw [dif_pos upper, if_pos (by simpa using upper)]
    have top : c.val.toNat ≤ 90 := UInt32.le_iff_toNat_le.1 upper.2
    show (c.val + 32).toNat = c.val.toNat + 32
    rw [UInt32.toNat_add]
    exact Nat.mod_eq_of_lt (show c.val.toNat + 32 < 2 ^ 32 by omega)
  · rw [dif_neg upper, if_neg (by simpa using upper)]

/-- The capital letters in numbers. -/
theorem isUpper_iff (c : Char) : c.isUpper = true ↔ 65 ≤ c.toNat ∧ c.toNat ≤ 90 := by
  simp [Char.isUpper, UInt32.le_iff_toNat_le, ← Char.toNat_val]

/-- Characters that are the same in small letters are the same but for their case. -/
theorem sameLetter_iff {c d : Char} : SameLetter c d ↔ c.toLower = d.toLower := by
  have numbers : c.toLower = d.toLower ↔ c.toLower.toNat = d.toLower.toNat :=
    ⟨congrArg Char.toNat, Char.toNat_inj.1⟩
  rw [numbers, toNat_toLower, toNat_toLower, SameLetter, ← Char.toNat_inj]
  simp only [isUpper_iff]
  split <;> split <;> omega

/-- A text spells a word if it is the same in small letters. -/
theorem spells_iff {s : List Char} {word : String} :
    Spells s word ↔ s.map Char.toLower = word.toList.map Char.toLower := by
  have same : SameLetter = fun c d => c.toLower = d.toLower :=
    funext fun c => funext fun d => propext sameLetter_iff
  rw [← List.forall₂_eq_eq_eq, List.forall₂_map_left_iff, List.forall₂_map_right_iff, Spells, same]

/-- A value is folded to a word of small letters if its core spells it. -/
theorem folded_eq_iff {value word : String}
    (small : word.toList.map Char.toLower = word.toList) :
    folded value = word ↔ Spells (trimmed value) word := by
  rw [spells_iff, small, folded, ← String.toList_inj, String.toList_ofList]

/-- The letters and digits in numbers. -/
theorem isAlphanum_iff (c : Char) : c.isAlphanum = true ↔
    (65 ≤ c.toNat ∧ c.toNat ≤ 90) ∨ (97 ≤ c.toNat ∧ c.toNat ≤ 122) ∨
      (48 ≤ c.toNat ∧ c.toNat ≤ 57) := by
  rw [← isUpper_iff]
  simp [Char.isAlphanum, Char.isAlpha, Char.isLower, Char.isDigit, UInt32.le_iff_toNat_le,
    ← Char.toNat_val, or_assoc]

/-- Letters and digits stay so in the other case. -/
theorem SameLetter.isAlphanum {c d : Char} (same : SameLetter c d) (letter : d.isAlphanum = true) :
    c.isAlphanum = true := by
  rw [isAlphanum_iff] at letter ⊢
  rcases same with rfl | ⟨upper, -⟩ | ⟨upper, shifted⟩
  · exact letter
  · exact .inl ((isUpper_iff c).1 upper)
  · rw [isUpper_iff] at upper
    omega

/-- No letter or digit is blank. -/
theorem isBlank_of_isAlphanum {c : Char} (letter : c.isAlphanum = true) :
    Text.isBlank c = false := by
  by_contra blank
  have mem : c ∈ Text.blanks := by simpa [Text.isBlank] using blank
  have none : Text.blanks.all (fun d => !d.isAlphanum) = true := by decide
  have unlike := List.all_eq_true.1 none c mem
  rw [letter] at unlike
  cases unlike

/-- A text that spells a word of letters and digits has no blank in it. -/
theorem Spells.solid {s : List Char} {word : String} (spells : Spells s word)
    (letters : word.toList.all Char.isAlphanum = true) : ∀ c ∈ s, Text.isBlank c = false := by
  unfold Spells at spells
  generalize word.toList = w at spells letters
  induction spells with
  | nil => simp
  | cons same _ ih =>
      rw [List.all_cons, Bool.and_eq_true] at letters
      rw [List.forall_mem_cons]
      exact ⟨isBlank_of_isAlphanum (same.isAlphanum letters.1), ih letters.2⟩

/-- The words for a flag. -/
def flagWords : Bool → List String
  | true => ["1", "true", "yes", "on"]
  | false => ["0", "false", "no", "off"]

/-- The words for flags are of small letters and digits. -/
theorem flagWords_small : ∀ b, ∀ word ∈ flagWords b,
    word.toList.map Char.toLower = word.toList ∧ word.toList.all Char.isAlphanum = true := by
  decide

/-- The words for readiness disciplines are of small letters. -/
theorem word_small : ∀ r : Readiness, r.word.toList.map Char.toLower = r.word.toList ∧
    r.word.toList.all Char.isAlphanum = true := by
  rintro (_ | _) <;> decide

/-- Exactly the words for flags are read, in letters of either case. -/
theorem parseFlag?_eq_some_iff {value : String} {b : Bool} :
    parseFlag? value = some b ↔ ∃ word ∈ flagWords b, Spells (trimmed value) word := by
  have folds : (∃ word ∈ flagWords b, Spells (trimmed value) word) ↔
      folded value ∈ flagWords b := by
    constructor
    · rintro ⟨word, mem, spells⟩
      rwa [(folded_eq_iff (flagWords_small b word mem).1).2 spells]
    · intro mem
      exact ⟨folded value, mem, (folded_eq_iff (flagWords_small b _ mem).1).1 rfl⟩
  rw [folds]
  unfold parseFlag?
  split
  · next raised =>
    have mem : folded value ∈ flagWords true := List.contains_iff_mem.1 raised
    cases b with
    | true => exact iff_of_true rfl mem
    | false =>
        -- no word is for both
        have apart : ∀ word ∈ flagWords true, word ∉ flagWords false := by decide
        exact iff_of_false (by simp) (apart _ mem)
  · next unraised =>
    have out : folded value ∉ flagWords true := fun mem => unraised (List.contains_iff_mem.2 mem)
    split
    · next lowered =>
      have mem : folded value ∈ flagWords false := List.contains_iff_mem.1 lowered
      cases b with
      | true => exact iff_of_false (by simp) out
      | false => exact iff_of_true rfl mem
    · next unlowered =>
      have out' : folded value ∉ flagWords false :=
        fun mem => unlowered (List.contains_iff_mem.2 mem)
      cases b with
      | true => exact iff_of_false (by simp) out
      | false => exact iff_of_false (by simp) out'

/-- Exactly the words for readiness disciplines are read, in letters of either case. -/
theorem parseReadiness?_eq_some_iff {value : String} {r : Readiness} :
    parseReadiness? value = some r ↔ Spells (trimmed value) r.word := by
  rw [← folded_eq_iff (word_small r).1]
  unfold parseReadiness?
  split
  · next eager =>
    rw [eager]
    cases r <;> decide
  · next other =>
    split
    · next lazy =>
      rw [lazy]
      cases r <;> decide
    · next other' =>
      cases r with
      | eager => exact iff_of_false (by simp) other
      | lazy => exact iff_of_false (by simp) other'

end AccessOrder.Options
