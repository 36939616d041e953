-- SUMMARY: The short quotation of an unread text that an error message shows.

/-! # Excerpts

An error message quotes the text at which reading stopped. It shows at most
`excerptLength` characters of the first line, and three dots after them if
anything was left out. -/

namespace Egg.Text

/-- The longest excerpt, without its dots. -/
def excerptLength : Nat := 32

/-- The text before the first newline. A carriage return directly before that
    newline belongs to the line end and is left out too. -/
def firstLine : List Char → List Char
  | [] => []
  | '\n' :: _ => []
  | '\r' :: '\n' :: _ => []
  | c :: text => c :: firstLine text

/-- The front of the first line, with three dots if it is not the whole text. -/
def excerpt (text : List Char) : List Char :=
  let shown := (firstLine text).take excerptLength
  if shown.length < text.length then shown ++ ['.', '.', '.'] else shown

theorem firstLine_isPrefixOf (text : List Char) : firstLine text <+: text := by
  fun_induction firstLine text with
  | case1 => simp
  | case2 => simp
  | case3 => simp
  | case4 c text _ _ ih => simpa using ih

/-- An excerpt is the whole text, or a shorter front of it with the dots behind. -/
theorem excerpt_cases (text : List Char) :
    excerpt text = text ∨
      ∃ shown, shown <+: text ∧ shown ≠ text ∧ excerpt text = shown ++ ['.', '.', '.'] := by
  have hcut : (firstLine text).take excerptLength <+: text :=
    (List.take_prefix ..).trans (firstLine_isPrefixOf text)
  simp only [excerpt]
  split
  · next hlt =>
    refine .inr ⟨_, hcut, ?_, rfl⟩
    intro hwhole
    rw [hwhole] at hlt
    exact absurd hlt (Nat.lt_irrefl _)
  · next hle => exact .inl (hcut.eq_of_length_le (Nat.not_lt.mp hle))

/-- Nothing but the empty text has an empty excerpt. -/
theorem excerpt_eq_nil_iff {text : List Char} : excerpt text = [] ↔ text = [] := by
  constructor
  · intro h
    rcases excerpt_cases text with hwhole | ⟨shown, -, -, hcut⟩
    · rw [← hwhole, h]
    · rw [hcut] at h
      exact absurd h (by simp)
  · rintro rfl
    rfl

end Egg.Text
