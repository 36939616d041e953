-- SUMMARY: The line and the column of a parse failure point at the text that the failure is about.
import Egg.Program.Run
import Egg.Proofs.Parse.Diagnosis
import Egg.Proofs.Text.Place

/-!
# The location of a parse failure

A parse error knows a byte offset, and the failure of a program tells a line and a column.
Both stand for the same front of the source, so the text from the line and the column on is
the text that the error describes.
-/

namespace Egg

open Text

/-- An excerpt is the whole text, or it is cut off and a front of the text stands before its
    dots. -/
theorem Text.ofList_excerpt_cases (text : String) :
    String.ofList (excerpt text.toList) = text ∨
      ∃ shown left, text = shown ++ left ∧ left ≠ "" ∧
        String.ofList (excerpt text.toList) = shown ++ "..." := by
  rcases excerpt_cases text.toList with hwhole | ⟨shown, ⟨left, happ⟩, hne, hcut⟩
  · exact .inl (by rw [hwhole, String.ofList_toList])
  · refine .inr ⟨String.ofList shown, String.ofList left, ?_, ?_, ?_⟩
    · rw [← String.ofList_append, happ, String.ofList_toList]
    · rintro hleft
      rw [String.ofList_eq_empty_iff.mp hleft, List.append_nil] at happ
      exact hne happ
    · rw [hcut, String.ofList_append]

namespace Program

variable {path source : String}

theorem parse_eq_error {err : ProgramError} (h : parse path source = .error err) :
    ∃ e, Expr.parse source = .error e ∧ err = .parse path (e.span.place source.toList) e := by
  unfold parse at h
  cases hparse : Expr.parse source with
  | ok tree =>
    rw [hparse] at h
    cases h
  | error e =>
    rw [hparse] at h
    exact ⟨e, rfl, (Except.error.inj h).symm⟩

/-- The place of a span that starts behind `front`. -/
theorem place_of_start {span : Span} {front : String} (back : String)
    (h : span.start.toNat = front.utf8ByteSize) :
    (span.place (front ++ back).toList).LiesIn (front ++ back).toList ∧
      (span.place (front ++ back).toList).textFrom (front ++ back).toList = back.toList := by
  rw [Span.place, h, ← byteSize_toList, String.toList_append]
  exact ⟨Place.liesIn_ofOffset .., Place.textFrom_ofOffset ..⟩

/-- The place that the failure tells lies in the source, and the text from there on is the
    source from the offset of the error on. It starts with the character that was found, and
    with the text that is quoted, up to the dots of a quotation that was cut off. Where the
    source has ended it is empty. -/
theorem textFrom_of_parse_eq_error {err : ProgramError}
    (hsize : source.utf8ByteSize < 2 ^ 32 - 1) (h : parse path source = .error err) :
    ∃ place e front back, err = .parse path place e ∧ Expr.parse source = .error e ∧
      source = front ++ back ∧ e.span.start.toNat = front.utf8ByteSize ∧
      place.LiesIn source.toList ∧ place.textFrom source.toList = back.toList ∧
      (∀ found, e.kind = .expectedCommaOrParen found → back.toList.head? = found) ∧
      (∀ remainder, e.kind = .unexpectedSyntax remainder ∨ e.kind = .trailingText remainder →
        remainder = back ∨
          ∃ shown left, back = shown ++ left ∧ left ≠ "" ∧ remainder = shown ++ "...") ∧
      (e.span.start.toNat = source.utf8ByteSize ↔ back = "") ∧
      (e.kind = .unexpectedSyntax "" ∨ e.kind = .expectedCommaOrParen none → back = "") := by
  obtain ⟨e, hparse, rfl⟩ := parse_eq_error h
  obtain ⟨read, what, rest, rfl, -, -, hstart, hdescribes⟩ :=
    Expr.exists_reads_describes hsize hparse
  generalize String.ofList read = front at *
  generalize String.ofList rest = back at *
  obtain ⟨hlies, htext⟩ := place_of_start back hstart
  refine ⟨_, e, front, back, rfl, hparse, rfl, hstart, hlies, htext, ?_, ?_, ?_, ?_⟩
  · intro found hkind
    exact (hdescribes.found_eq hkind).symm
  · intro remainder hkind
    rw [hdescribes.remainder_eq hkind]
    exact ofList_excerpt_cases back
  · rw [hstart, String.utf8ByteSize_append, Nat.left_eq_add, String.utf8ByteSize_eq_zero_iff]
  · rintro (hkind | hkind)
    · have hremainder := hdescribes.remainder_eq (.inl hkind)
      rwa [eq_comm, ofList_excerpt_eq_empty_iff, String.ofList_toList] at hremainder
    · have hfound := hdescribes.found_eq hkind
      rwa [eq_comm, List.head?_eq_none_iff, String.toList_eq_nil_iff] at hfound

/-- A call in which a newline stands in a text, and a comma is missing behind it. -/
def brokenCall : String := "é(\"\n\", \uFEFFx y)"

/-- The word `y` is the seventh character of the second line. -/
theorem textFrom_brokenCall :
    parse "path" brokenCall =
      .error (.parse "path" ⟨2, 7⟩ ⟨.expectedCommaOrParen (some 'y'), .ofOffsets 13 14⟩) ∧
    (Place.mk 2 7).LiesIn brokenCall.toList ∧
    ((Place.mk 2 7).textFrom brokenCall.toList).head? = some 'y' := by
  have herr : parse "path" brokenCall =
      .error (.parse "path" ⟨2, 7⟩ ⟨.expectedCommaOrParen (some 'y'), .ofOffsets 13 14⟩) := by
    decide +kernel
  obtain ⟨place, e, front, back, hsame, -, -, -, hlies, htext, hfound, -⟩ :=
    textFrom_of_parse_eq_error (by decide) herr
  cases hsame
  refine ⟨herr, hlies, ?_⟩
  rw [htext]
  exact hfound _ rfl

end Program

end Egg
