/-!
# Character classes

The classes that the diagram grammar is written in: word characters, blanks, and the four
characters that end a line. A word is written in ASCII letters, digits and underscores only; blanks
and line ends reach beyond ASCII.
-/

namespace UmlDraft.Text

/-- Word characters are the ASCII letters and digits and the underscore. -/
def isWord (c : Char) : Bool :=
  c.isAlphanum || c == '_'

/-- A line ends at a line feed, a carriage return, or one of the two separators U+2028 and U+2029. -/
def isLineEnd (c : Char) : Bool :=
  c == '\n' || c == '\r' || c == '\u2028' || c == '\u2029'

/-- Blanks are the ASCII controls from tab to carriage return, the space separators, the line ends,
and the zero width no-break space U+FEFF. -/
def isBlank (c : Char) : Bool :=
  ('\x09' ≤ c && c ≤ '\x0d') || c == ' ' || c == '\u00a0' || c == '\u1680' ||
    ('\u2000' ≤ c && c ≤ '\u200a') || c == '\u2028' || c == '\u2029' || c == '\u202f' ||
    c == '\u205f' || c == '\u3000' || c == '\ufeff'

/-- Padding is a space or a tab: the blanks that never end a line. -/
def isPad (c : Char) : Bool :=
  c == ' ' || c == '\t'

theorem isBlank_of_isLineEnd {c : Char} (h : isLineEnd c = true) : isBlank c = true := by
  simp only [isLineEnd, Bool.or_eq_true, beq_iff_eq] at h
  rcases h with ((rfl | rfl) | rfl) | rfl <;> decide

theorem isBlank_of_isPad {c : Char} (h : isPad c = true) : isBlank c = true := by
  simp only [isPad, Bool.or_eq_true, beq_iff_eq] at h
  rcases h with rfl | rfl <;> decide

theorem isLineEnd_of_isPad {c : Char} (h : isPad c = true) : isLineEnd c = false := by
  simp only [isPad, Bool.or_eq_true, beq_iff_eq] at h
  rcases h with rfl | rfl <;> decide

/-- A word character is an upper case letter, a lower case letter, a digit or an underscore. -/
theorem isWord_eq (c : Char) :
    isWord c = (((decide (65 ≤ c.toNat ∧ c.toNat ≤ 90) ||
      (decide (97 ≤ c.toNat) && decide (c.toNat ≤ 122))) ||
      (decide (48 ≤ c.toNat) && decide (c.toNat ≤ 57))) || c == '_') := rfl

/-- A word character is ASCII. -/
theorem val_lt_of_isWord {c : Char} (h : isWord c = true) : c.toNat < 128 := by
  simp only [isWord_eq, Bool.or_eq_true, Bool.and_eq_true, decide_eq_true_eq, beq_iff_eq] at h
  rcases h with ((h | h) | h) | rfl
  · omega
  · omega
  · omega
  · decide

/-- No character is both part of a word and blank. -/
theorem isBlank_of_isWord {c : Char} (h : isWord c = true) : isBlank c = false := by
  have key : ∀ n : Fin 128, isWord (Char.ofNat n) = true → isBlank (Char.ofNat n) = false := by
    decide
  have := key ⟨c.toNat, val_lt_of_isWord h⟩
  simp only [Char.ofNat_toNat] at this
  exact this h

end UmlDraft.Text
