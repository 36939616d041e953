-- SUMMARY: A parse error quotes the text at the cursor whole or visibly cut, and tells of the end of the input only there.
import Egg.Proofs.Parse.Cursor
import Egg.Proofs.Parse.Leading
import Egg.Proofs.Text.Excerpt

/-!
# Quotations

Where no expression starts, the error quotes what stands at the cursor. Nothing is quoted only
where nothing is left, so the text of the error tells of the end of the input exactly if the
cursor has come to the end of the source.
-/

namespace Egg

open Text Parse

/-! ## The end of the input in the text of an error -/

namespace ParseError

theorem Kind.message_unexpectedSyntax {remainder : String} (h : remainder ≠ "") :
    (Kind.unexpectedSyntax remainder).message = "unexpected syntax: " ++ remainder :=
  if_neg (mt String.isEmpty_iff.mp h)

/-- The end of the input is told of exactly where an expression is missing and nothing is quoted.
    The texts of all other kinds begin in another way, whatever they mention. -/
theorem Kind.message_eq_endOfInput_iff {kind : Kind} :
    kind.message = "unexpected end of input" ↔ kind = .unexpectedSyntax "" := by
  constructor
  · intro h
    cases kind with
    | unexpectedSyntax remainder =>
      by_cases hempty : remainder = ""
      · rw [hempty]
      · rw [message_unexpectedSyntax hempty] at h
        simp [← String.toList_inj] at h
    | expectedCommaOrParen found =>
      cases found with
      | none => exact absurd h (by decide)
      | some c =>
        have hne : "expected ',' or ')', found '" ++ toString c ++ "'" ≠
            "unexpected end of input" := by
          simp [← String.toList_inj]
        exact absurd h hne
    | trailingText remainder =>
      have hne : "unexpected text after program: " ++ remainder ≠ "unexpected end of input" := by
        simp [← String.toList_inj]
      exact absurd h hne
    | nestingTooDeep limit =>
      have hne : "expression nesting exceeds the limit of " ++ toString limit ++ " levels" ≠
          "unexpected end of input" := by
        simp [← String.toList_inj]
      exact absurd h hne
  · rintro rfl
    rfl

theorem message_eq_endOfInput_iff {err : ParseError} :
    err.message = "syntax error: unexpected end of input" ↔ err.kind = .unexpectedSyntax "" := by
  obtain ⟨kind, span⟩ := err
  have hgrammatical : "syntax error: " ++ kind.message = "syntax error: unexpected end of input" ↔
      kind = .unexpectedSyntax "" := by
    rw [← Kind.message_eq_endOfInput_iff]
    simp [← String.toList_inj]
  cases kind with
  | nestingTooDeep limit =>
    have hne : "expression nesting exceeds the limit of " ++ toString limit ++ " levels" ≠
        "syntax error: unexpected end of input" := by
      simp [← String.toList_inj]
    exact iff_of_false hne nofun
  | _ => exact hgrammatical

end ParseError

/-! ## The cursor at an error -/

namespace Parse.Cursor

variable {c : Cursor} {rest : List Char}

/-- All bytes of the source have been read. -/
def AtEnd (c : Cursor) : Prop :=
  byteSize c.source ≤ c.position

theorem Before.atEnd_iff (h : c.Before rest) : c.AtEnd ↔ rest = [] := by
  obtain ⟨front, happ, hsize⟩ := h
  rw [AtEnd, happ, byteSize_append, hsize, ← byteSize_eq_zero_iff]
  omega

/-- Where an expression is missing, the rest in front of the cursor is quoted and pointed at. -/
theorem Before.report_noExpression (h : c.Before rest) :
    Stop.report c.source ⟨.noExpression, rest⟩ =
      ⟨.unexpectedSyntax (String.ofList (excerpt rest)),
        .ofOffsets c.position (byteSize c.source)⟩ := by
  obtain ⟨front, happ, hsize⟩ := h
  simp only [Stop.report, happ, byteSize_append, Nat.add_sub_cancel, hsize]

end Parse.Cursor

/-- A parser that misses an expression has stopped in front of a rest, and reports it. -/
theorem Expr.exists_cursor_of_unexpectedSyntax {limit : Nat} {source : String} {err : ParseError}
    {remainder : String} (h : parseWithin limit source = .error err)
    (hkind : err.kind = .unexpectedSyntax remainder) :
    ∃ cursor : Cursor, ∃ rest, cursor.source = source.toList ∧ cursor.Before rest ∧
      leading limit source.toList = .error ⟨.noExpression, rest⟩ ∧
      err = Stop.report cursor.source ⟨.noExpression, rest⟩ := by
  obtain ⟨read, what, rest, hsource, hreads, rfl⟩ := exists_reads_of_parseWithin_eq_error h
  have hfault : faultOf what = .noExpression := kind_report_eq_unexpectedSyntax_iff.mp ⟨_, hkind⟩
  obtain rfl := faultOf_eq_noExpression_iff.mp hfault
  refine ⟨⟨read ++ rest, byteSize read⟩, rest, hsource.symm, ⟨read, rfl, rfl⟩, ?_, rfl⟩
  rw [hsource, leading, run_eq_of_reads hreads]
  rfl

namespace ParseError

/-- A text of at most 32 characters without a newline is quoted whole. From any other text, the
    longest front of its first line with at most 32 characters is quoted, which is not all of the
    text, and dots follow. The sizes in bytes tell the two cases apart. So what is quoted is on
    one line, has at most 35 characters, and is empty for the empty text only. And where the
    parser misses an expression, the error tells of the end of the input exactly if the cursor
    is at the end of the source. -/
theorem quotation_whole_or_cut :
    (∀ text : List Char,
      (text.length ≤ 32 ∧ '\n' ∉ text → excerpt text = text) ∧
      (¬(text.length ≤ 32 ∧ '\n' ∉ text) →
        ∃ line shown, IsFirstLine line text ∧ IsLongestFront 32 shown line ∧
          shown <+: text ∧ shown ≠ text ∧ excerpt text = shown ++ ['.', '.', '.']) ∧
      (∀ line shown, IsFirstLine line text → IsLongestFront 32 shown line →
        excerpt text =
          if byteSize shown < byteSize text then shown ++ ['.', '.', '.'] else shown) ∧
      '\n' ∉ excerpt text ∧ (excerpt text).length ≤ 35 ∧ (excerpt text = [] ↔ text = [])) ∧
    ∀ limit source err remainder,
      (Expr.parseWithin limit source = .error err ∨
        limit = Expr.nestingLimit ∧ Expr.parseLeading source = .error err) →
      err.kind = .unexpectedSyntax remainder →
      ∃ cursor : Cursor, ∃ rest, cursor.source = source.toList ∧ cursor.rest? = some rest ∧
        leading limit source.toList = .error ⟨.noExpression, rest⟩ ∧
        remainder = String.ofList (excerpt rest) ∧
        err.span = .ofOffsets cursor.position source.utf8ByteSize ∧
        (err.kind.message = "unexpected end of input" ↔ cursor.AtEnd) ∧
        (err.message = "syntax error: unexpected end of input" ↔ cursor.AtEnd) := by
  refine ⟨fun text => ⟨?_, ?_, ?_, newline_not_mem_excerpt text, length_excerpt_le text,
    excerpt_eq_nil_iff⟩, ?_⟩
  · rintro ⟨hle, hmem⟩
    exact excerpt_eq_self hle hmem
  · intro hcut
    exact ⟨_, _, isFirstLine_firstLine text, isLongestFront_iff.mpr rfl,
      front_take_firstLine text, mt take_firstLine_eq_self_iff.mp hcut, excerpt_eq_of_cut hcut⟩
  · intro line shown hline hshown
    obtain rfl := isFirstLine_iff.mp hline
    obtain rfl := isLongestFront_iff.mp hshown
    exact excerpt_eq_of_byteSize text
  · intro limit source err remainder herr hkind
    have hparse : Expr.parseWithin limit source = .error err := by
      rcases herr with h | ⟨rfl, h⟩
      · exact h
      · exact Expr.parse_of_parseLeading_eq_error h
    obtain ⟨cursor, rest, hsource, hbefore, hstop, rfl⟩ :=
      Expr.exists_cursor_of_unexpectedSyntax hparse hkind
    have hend : String.ofList (excerpt rest) = "" ↔ cursor.AtEnd := by
      rw [hbefore.atEnd_iff, String.ofList_eq_empty_iff, excerpt_eq_nil_iff]
    rw [hbefore.report_noExpression] at hkind ⊢
    obtain rfl := Kind.unexpectedSyntax.inj hkind
    refine ⟨cursor, rest, hsource, Cursor.rest?_eq_some_iff.mpr hbefore, hstop, rfl, ?_, ?_, ?_⟩
    · rw [hsource, byteSize_toList]
    · rw [Kind.message_eq_endOfInput_iff, Kind.unexpectedSyntax.injEq, hend]
    · rw [message_eq_endOfInput_iff, Kind.unexpectedSyntax.injEq, hend]

/-- A line end of two characters is left out, and the dots tell of it. Behind the comma and its
    blank the source has ended, and in front of the bracket it has not. -/
theorem quotation_accented :
    excerpt ['é', '\r', '\n'] = ['é', '.', '.', '.'] ∧
    Expr.parseWithin 2 "f(é, " = .error ⟨.unexpectedSyntax "", .ofOffsets 6 6⟩ ∧
    (∃ cursor : Cursor, cursor.source = "f(é, ".toList ∧ cursor.AtEnd) ∧
    Expr.parseLeading "f(é, )" = .error ⟨.unexpectedSyntax ")", .ofOffsets 6 7⟩ ∧
    ∃ cursor : Cursor, cursor.source = "f(é, )".toList ∧ ¬cursor.AtEnd := by
  obtain ⟨hquoted, hraised⟩ := quotation_whole_or_cut
  obtain ⟨line, shown, hline, hshown, -, -, hcut⟩ :=
    (hquoted ['é', '\r', '\n']).2.1 (by decide)
  obtain rfl := isFirstLine_iff.mp hline
  obtain rfl := isLongestFront_iff.mp hshown
  have hblank : Expr.parseWithin 2 "f(é, " = .error ⟨.unexpectedSyntax "", .ofOffsets 6 6⟩ := by
    decide +kernel
  have hbracket :
      Expr.parseLeading "f(é, )" = .error ⟨.unexpectedSyntax ")", .ofOffsets 6 7⟩ := by
    decide +kernel
  obtain ⟨atBlank, -, hsource, -, -, -, -, hends, -⟩ := hraised 2 _ _ _ (.inl hblank) rfl
  obtain ⟨atBracket, -, hsource', -, -, -, -, hends', -⟩ :=
    hraised _ _ _ _ (.inr ⟨rfl, hbracket⟩) rfl
  exact ⟨hcut, hblank, ⟨atBlank, hsource, hends.mp rfl⟩, hbracket,
    atBracket, hsource', mt hends'.mpr (by decide)⟩

end ParseError

end Egg
