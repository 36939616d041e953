-- SUMMARY: Blanks and word characters, the two character classes of the grammar.
import Egg.Text.Ranges

/-! # Blanks and word characters

Blanks may stand before every token and mean nothing. A word is a run of word
characters: every character that is neither a blank nor one of the five marks
that the grammar keeps for itself. -/

namespace Egg.Text

/-- The code points with the Unicode property `White_Space`. -/
def whiteSpace : List (Nat × Nat) :=
  [(0x9, 0xD), (0x20, 0x20), (0x85, 0x85), (0xA0, 0xA0), (0x1680, 0x1680), (0x2000, 0x200A),
    (0x2028, 0x2029), (0x202F, 0x202F), (0x205F, 0x205F), (0x3000, 0x3000)]

/-- A blank is `White_Space` or the byte-order mark, but not the next-line
    control U+0085. So a byte-order mark at the start of a file is skipped like
    any other blank, and the next-line control may stand in a word. -/
def isBlank (c : Char) : Bool :=
  c == '\uFEFF' || (c != '\u0085' && inRanges whiteSpace c)

/-- The five marks that the grammar keeps for itself. -/
def isMark (c : Char) : Bool :=
  c == '(' || c == ')' || c == ',' || c == '#' || c == '"'

/-- A word character is neither a blank nor a mark. -/
def isWordChar (c : Char) : Bool :=
  !isBlank c && !isMark c

/-- The usual white space of a program text is blank. -/
theorem isBlank_of_isWhitespace {c : Char} (h : c.isWhitespace = true) : isBlank c = true := by
  simp only [Char.isWhitespace, Bool.or_eq_true, decide_eq_true_eq, or_assoc] at h
  rcases h with rfl | rfl | rfl | rfl <;> decide

theorem not_isBlank_of_isWordChar {c : Char} (h : isWordChar c = true) : isBlank c = false := by
  simp only [isWordChar, Bool.and_eq_true, Bool.not_eq_true'] at h
  exact h.1

theorem not_isMark_of_isWordChar {c : Char} (h : isWordChar c = true) : isMark c = false := by
  simp only [isWordChar, Bool.and_eq_true, Bool.not_eq_true'] at h
  exact h.2

end Egg.Text
