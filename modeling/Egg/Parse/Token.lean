-- SUMMARY: Recognising a blank run, a text, a number and a word at the front of a source.
import Egg.Expr.Basic
import Egg.Number.Nearest
import Egg.Text.Blank

/-! # Tokens

Each function here looks at the front of a source. One that recognises its token
gives back the characters of the token and the rest of the source, which is
shorter. Each token is as long as it can be. -/

namespace Egg.Parse

open Text

/-! ## Blanks -/

/-- The source after the blanks at its front. -/
def skipBlanks (source : List Char) : List Char :=
  source.dropWhile isBlank

theorem length_skipBlanks_le (source : List Char) :
    (skipBlanks source).length ≤ source.length :=
  (List.dropWhile_suffix isBlank).length_le

/-! ## Texts, numbers and words -/

/-- A text: a quote, the contents up to the next quote, and that quote. There are
    no escapes, and without a second quote there is no text. -/
def quoted? : List Char → Option (List Char × List Char)
  | '"' :: body =>
    match body.dropWhile (· != '"') with
    | _ :: rest => some (body.takeWhile (· != '"'), rest)
    | [] => none
  | _ => none

/-- Whether a run of digits may end in front of this source: not in front of a
    letter or an underscore, because then it is the start of a word. Only the
    letters of ASCII count. -/
def endsDigits : List Char → Bool
  | [] => true
  | c :: _ => !(c.isAlphanum || c == '_')

/-- A number: a run of digits that does not run into a word. -/
def digits? (source : List Char) : Option (List Char × List Char) :=
  match source.takeWhile Char.isDigit, source.dropWhile Char.isDigit with
  | [], _ => none
  | digits, rest => if endsDigits rest then some (digits, rest) else none

/-- A word: a run of word characters. -/
def word? (source : List Char) : Option (List Char × List Char) :=
  match source.takeWhile isWordChar with
  | [] => none
  | word => some (word, source.dropWhile isWordChar)

/-- An atom: a text, a number or a word, tried in this order. -/
def atom? (source : List Char) : Option (Expr × List Char) :=
  match quoted? source with
  | some (contents, rest) => some (.literal (.text (String.ofList contents)), rest)
  | none =>
    match digits? source with
    | some (digits, rest) => some (.literal (.number (.ofDigits digits)), rest)
    | none =>
      match word? source with
      | some (word, rest) => some (.word (String.ofList word), rest)
      | none => none

/-! ## What a token takes from the source -/

/-- A text and its two quotes are the front of the source. -/
theorem eq_of_quoted? {source contents rest : List Char}
    (h : quoted? source = some (contents, rest)) :
    source = '"' :: contents ++ '"' :: rest := by
  unfold quoted? at h
  split at h
  · next body =>
    split at h
    · next c tail htail =>
      obtain ⟨rfl, rfl⟩ := Prod.mk.inj (Option.some.inj h)
      have hc : c = '"' := by
        have := List.head?_dropWhile_not (· != '"') body
        simp [htail] at this
        exact this
      subst hc
      rw [List.cons_append, ← htail, List.takeWhile_append_dropWhile]
    · cases h
  · cases h

/-- The digits of a number are a part of the front of the source that is not
    empty. -/
theorem eq_of_digits? {source digits rest : List Char}
    (h : digits? source = some (digits, rest)) :
    source = digits ++ rest ∧ digits ≠ [] := by
  unfold digits? at h
  split at h
  · cases h
  · next hne =>
    split at h
    · obtain ⟨rfl, rfl⟩ := Prod.mk.inj (Option.some.inj h)
      exact ⟨List.takeWhile_append_dropWhile.symm, hne⟩
    · cases h

/-- The characters of a word are a part of the front of the source that is not
    empty. -/
theorem eq_of_word? {source word rest : List Char} (h : word? source = some (word, rest)) :
    source = word ++ rest ∧ word ≠ [] := by
  unfold word? at h
  split at h
  · cases h
  · next hne =>
    obtain ⟨rfl, rfl⟩ := Prod.mk.inj (Option.some.inj h)
    exact ⟨List.takeWhile_append_dropWhile.symm, hne⟩

/-- Reading an atom shortens the source. -/
theorem length_lt_of_atom? {source rest : List Char} {e : Expr}
    (h : atom? source = some (e, rest)) : rest.length < source.length := by
  unfold atom? at h
  split at h
  · next contents rest' hq =>
    obtain ⟨-, rfl⟩ := Prod.mk.inj (Option.some.inj h)
    rw [eq_of_quoted? hq]
    simp
    omega
  · split at h
    · next digits rest' hd =>
      obtain ⟨-, rfl⟩ := Prod.mk.inj (Option.some.inj h)
      obtain ⟨rfl, hne⟩ := eq_of_digits? hd
      have := List.length_pos_iff.mpr hne
      simp
      omega
    · split at h
      · next word rest' hw =>
        obtain ⟨-, rfl⟩ := Prod.mk.inj (Option.some.inj h)
        obtain ⟨rfl, hne⟩ := eq_of_word? hw
        have := List.length_pos_iff.mpr hne
        simp
        omega
      · cases h

end Egg.Parse
