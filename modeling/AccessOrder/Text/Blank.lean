/- # Blank characters

The characters with the Unicode property `White_Space`, and cutting them off both ends of a text.

* `isBlank_of_isWhitespace` : every character that counts as white space for `Char` is blank;
* `trimBlank_of_forall` : a text of blanks is cut to nothing;
* `trimBlank_of_ends` : a text with no blank at its two ends is kept whole;
* `trimBlank_append` : blanks around such a text are cut off;
* `exists_trimBlank` : nothing but blanks is cut off.
-/
namespace AccessOrder.Text

/-- The 25 characters with the property `White_Space`. -/
def blanks : List Char :=
  ['\t', '\n', '\x0b', '\x0c', '\r', ' ', '\u0085', '\u00a0', '\u1680', '\u2000', '\u2001',
    '\u2002', '\u2003', '\u2004', '\u2005', '\u2006', '\u2007', '\u2008', '\u2009', '\u200a',
    '\u2028', '\u2029', '\u202f', '\u205f', '\u3000']

/-- Whether a character has the property `White_Space`. -/
def isBlank (c : Char) : Bool := blanks.contains c

/-- The text without the blanks at its two ends. -/
def trimBlank (s : List Char) : List Char :=
  ((s.dropWhile isBlank).reverse.dropWhile isBlank).reverse

/-! ## Facts about blanks -/

/-- A character that counts as white space for `Char` is blank. -/
theorem isBlank_of_isWhitespace {c : Char} (h : c.isWhitespace = true) : isBlank c = true := by
  simp only [Char.isWhitespace, Bool.or_eq_true, decide_eq_true_eq] at h
  rcases h with ((rfl | rfl) | rfl) | rfl <;> decide

/-- Cutting the blanks off the empty text leaves it empty. -/
@[simp] theorem trimBlank_nil : trimBlank [] = [] := rfl

/-- Blanks alone are dropped to nothing. -/
theorem dropWhile_isBlank_of_forall {s : List Char} (h : ∀ c ∈ s, isBlank c = true) :
    s.dropWhile isBlank = [] := by
  induction s with
  | nil => rfl
  | cons c s ih => simp [h c (by simp), ih fun d hd => h d (by simp [hd])]

/-- A text that starts with no blank loses nothing at its front. -/
theorem dropWhile_isBlank_of_head {s : List Char} (h : ∀ c ∈ s.head?, isBlank c = false) :
    s.dropWhile isBlank = s := by
  cases s with
  | nil => rfl
  | cons c s => simp [h c (by simp)]

/-- A text of blanks is cut to nothing. -/
theorem trimBlank_of_forall {s : List Char} (h : ∀ c ∈ s, isBlank c = true) :
    trimBlank s = [] := by
  simp [trimBlank, dropWhile_isBlank_of_forall h]

/-- A text with no blank at its two ends is kept whole. -/
theorem trimBlank_of_ends {s : List Char} (front : ∀ c ∈ s.head?, isBlank c = false)
    (back : ∀ c ∈ s.getLast?, isBlank c = false) : trimBlank s = s := by
  rw [trimBlank, dropWhile_isBlank_of_head front,
    dropWhile_isBlank_of_head (by simpa using back), List.reverse_reverse]

/-- Blanks around a text with no blank at its two ends are cut off. -/
theorem trimBlank_append {front core back : List Char} (before : ∀ c ∈ front, isBlank c = true)
    (after : ∀ c ∈ back, isBlank c = true) (first : ∀ c ∈ core.head?, isBlank c = false)
    (last : ∀ c ∈ core.getLast?, isBlank c = false) :
    trimBlank (front ++ core ++ back) = core := by
  cases core with
  | nil =>
      apply trimBlank_of_forall
      intro c mem
      rw [List.append_nil, List.mem_append] at mem
      exact mem.elim (before c) (after c)
  | cons c core =>
      have whole : trimBlank (c :: core) = c :: core := trimBlank_of_ends first last
      have front' : (front ++ (c :: core) ++ back).dropWhile isBlank = c :: core ++ back := by
        rw [List.append_assoc, List.dropWhile_append_of_pos before]
        exact dropWhile_isBlank_of_head first
      have back' : (c :: core ++ back).reverse.dropWhile isBlank = (c :: core).reverse := by
        rw [List.reverse_append, List.dropWhile_append_of_pos fun d mem =>
          after d (List.mem_reverse.1 mem)]
        exact dropWhile_isBlank_of_head (List.head?_reverse ▸ last)
      rw [trimBlank, front', back', List.reverse_reverse]

/-- No blank is left at the front of a text. -/
theorem isBlank_of_head_dropWhile (s : List Char) :
    ∀ c ∈ (s.dropWhile isBlank).head?, isBlank c = false := by
  intro c first
  have none := List.head?_dropWhile_not isBlank s
  rw [Option.mem_def.1 first] at none
  exact none

/-- Nothing but blanks is cut off at the two ends of a text, and none is left there. -/
theorem exists_trimBlank (s : List Char) :
    ∃ front back, s = front ++ trimBlank s ++ back ∧ (∀ c ∈ front, isBlank c = true) ∧
      (∀ c ∈ back, isBlank c = true) ∧ (∀ c ∈ (trimBlank s).head?, isBlank c = false) ∧
      ∀ c ∈ (trimBlank s).getLast?, isBlank c = false := by
  have split : s = s.takeWhile isBlank ++ s.dropWhile isBlank :=
    List.takeWhile_append_dropWhile.symm
  have rest : s.dropWhile isBlank =
      trimBlank s ++ ((s.dropWhile isBlank).reverse.takeWhile isBlank).reverse := by
    rw [trimBlank, ← List.reverse_append, List.takeWhile_append_dropWhile, List.reverse_reverse]
  have last : ∀ c ∈ (trimBlank s).getLast?, isBlank c = false := by
    rw [trimBlank, List.getLast?_reverse]
    exact isBlank_of_head_dropWhile _
  refine ⟨s.takeWhile isBlank, ((s.dropWhile isBlank).reverse.takeWhile isBlank).reverse, ?_,
    fun c mem => ?_, fun c mem => ?_, ?_, last⟩
  · rw [List.append_assoc, ← rest]
    exact split
  · exact (List.all_eq_true.1 (List.all_takeWhile)) c mem
  · exact (List.all_eq_true.1 (List.all_takeWhile)) c (List.mem_reverse.1 mem)
  · intro c first
    -- what is left, if anything, starts as the text without the blanks at its front
    have same : (s.dropWhile isBlank).head? = some c := by
      rw [rest, List.head?_append, Option.mem_def.1 first]
      rfl
    exact isBlank_of_head_dropWhile s c same

end AccessOrder.Text
