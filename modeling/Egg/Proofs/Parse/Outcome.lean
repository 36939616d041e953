-- SUMMARY: The result of the parser and the place of its error, from the reading of the source.
import Egg.Parse.Error
import Egg.Proofs.Parse.Reading

/-!
# Outcomes

A reading of a whole source determines the result of the parser. An error is
reported where the text that was read ends, as far as an offset can count it.
-/

namespace Egg.Parse

open Text

/-- Why a parser fails that ends its reading with `what` and does not succeed. -/
def faultOf : Except Fault Expr → Fault
  | .ok _ => .extraText
  | .error fault => fault

/-- The result of a parser that ends its reading in front of `rest`. -/
def conclusion : Except Fault Expr → List Char → Except Stop Expr
  | .ok e, [] => .ok e
  | what, rest => .error ⟨faultOf what, rest⟩

variable {limit : Nat} {read rest : List Char} {what : Except Fault Expr} {fault : Fault}

theorem whole_eq_of_reads (h : Reads limit [] .missing read what rest) :
    whole limit (read ++ rest) = conclusion what rest := by
  rw [whole, leading, run_eq_of_reads h]
  cases what with
  | error fault => rfl
  | ok e => cases rest <;> rfl

theorem faultOf_eq_noExpression_iff :
    faultOf what = .noExpression ↔ what = .error .noExpression := by
  cases what <;> simp [faultOf]

theorem faultOf_eq_tooDeep_iff :
    faultOf what = .tooDeep limit ↔ what = .error (.tooDeep limit) := by
  cases what <;> simp [faultOf]

/-! ## Reports -/

theorem start_report (fault : Fault) (read rest : List Char) :
    (Stop.report (read ++ rest) ⟨fault, rest⟩).span.start = Span.clamp (byteSize read) := by
  have hsize : byteSize (read ++ rest) - byteSize rest = byteSize read := by
    rw [byteSize_append, Nat.add_sub_cancel]
  cases fault <;> simp only [Stop.report, Span.ofOffsets, hsize]

theorem toNat_clamp_of_le {offset : Nat} (h : offset ≤ Span.maxOffset) :
    (Span.clamp offset).toNat = offset := by
  rw [Span.toNat_clamp, Nat.min_eq_left h]

theorem report_tooDeep (limit : Nat) (read rest : List Char) :
    Stop.report (read ++ rest) ⟨.tooDeep limit, rest⟩ =
      ⟨.nestingTooDeep limit, .point (Span.clamp (byteSize read))⟩ := by
  simp only [Stop.report, byteSize_append, Nat.add_sub_cancel, Span.ofOffsets, Span.point]

theorem kind_report_eq_unexpectedSyntax_iff {source : List Char} :
    (∃ remainder, (Stop.report source ⟨fault, rest⟩).kind = .unexpectedSyntax remainder) ↔
      fault = .noExpression := by
  cases fault <;> simp [Stop.report]

theorem kind_report_eq_nestingTooDeep_iff {source : List Char} :
    (Stop.report source ⟨fault, rest⟩).kind = .nestingTooDeep limit ↔ fault = .tooDeep limit := by
  cases fault <;> simp [Stop.report]

end Egg.Parse

namespace Egg.Expr

open Parse

theorem parseWithin_eq_of_reads {limit : Nat} {source : String} {read rest : List Char}
    {what : Except Fault Expr} (hsource : source.toList = read ++ rest)
    (h : Reads limit [] .missing read what rest) :
    parseWithin limit source = (conclusion what rest).mapError (Stop.report (read ++ rest)) := by
  rw [parseWithin, hsource, whole_eq_of_reads h]

/-- A failed parse has a reading that ends where the error is. -/
theorem exists_reads_of_parseWithin_eq_error {limit : Nat} {source : String} {err : ParseError}
    (h : parseWithin limit source = .error err) :
    ∃ read what rest, source.toList = read ++ rest ∧ Reads limit [] .missing read what rest ∧
      err = Stop.report (read ++ rest) ⟨faultOf what, rest⟩ := by
  obtain ⟨read, what, rest, hsource, hreads⟩ := exists_reads limit [] .missing source.toList
  refine ⟨read, what, rest, hsource, hreads, ?_⟩
  rw [parseWithin_eq_of_reads hsource hreads] at h
  unfold conclusion at h
  split at h
  · cases h
  · exact (Except.error.inj h).symm

end Egg.Expr
