-- SUMMARY: Parse errors: their kinds, their texts, and the span of source that each one names.
import Egg.Parse.State
import Egg.Span
import Egg.Text.Excerpt

/-! # Parse errors

Reading ends at the first fault. The error names the kind of the fault and the
span of the source at which it arose. A fault is found at a place from which the
rest of the source was not read, so the place follows from the sizes of the source
and of that rest. -/

namespace Egg

/-- The kind of a parse error, with what its text mentions. -/
inductive ParseError.Kind where
  | unexpectedSyntax (remainder : String)
  | expectedCommaOrParen (found : Option Char)
  | trailingText (remainder : String)
  | nestingTooDeep (limit : Nat)
deriving DecidableEq, Repr

/-- A failed parse, with the place of the failure. -/
structure ParseError where
  kind : ParseError.Kind
  span : Span
deriving DecidableEq

namespace ParseError

/-- The text of the kind. Where nothing is left to quote, the source has ended. -/
def Kind.message : Kind → String
  | .unexpectedSyntax remainder =>
    if remainder.isEmpty then "unexpected end of input" else s!"unexpected syntax: {remainder}"
  | .expectedCommaOrParen (some c) => s!"expected ',' or ')', found '{c}'"
  | .expectedCommaOrParen none => "expected ',' or ')', found end of input"
  | .trailingText remainder => s!"unexpected text after program: {remainder}"
  | .nestingTooDeep limit => s!"expression nesting exceeds the limit of {limit} levels"

/-- Whether the grammar is violated. A limit that is reached does not count. -/
def isGrammatical (e : ParseError) : Bool :=
  match e.kind with
  | .nestingTooDeep _ => false
  | _ => true

/-- The text of the error. -/
def message (e : ParseError) : String :=
  if e.isGrammatical then s!"syntax error: {e.kind.message}" else e.kind.message

end ParseError

namespace Parse.Stop

open Text

/-- The error for a reader that stopped in `source`. The fault is named where the
    unread rest starts. An expression that is missing and a text that is too much
    reach to the end of the source, and a wrong character is as long as it is. -/
def report (source : List Char) (why : Stop) : ParseError :=
  let size := byteSize source
  let position := size - byteSize why.rest
  match why.fault with
  | .noExpression =>
    ⟨.unexpectedSyntax (String.ofList (excerpt why.rest)), .ofOffsets position size⟩
  | .extraText => ⟨.trailingText (String.ofList (excerpt why.rest)), .ofOffsets position size⟩
  | .noSeparator =>
    ⟨.expectedCommaOrParen why.rest.head?,
      .ofOffsets position (position + byteSize (why.rest.take 1))⟩
  | .tooDeep limit => ⟨.nestingTooDeep limit, .ofOffsets position position⟩

end Parse.Stop

namespace Expr

/-- The default limit on nested expressions. -/
def nestingLimit : Nat := 256

/-- Parse a program under a nesting limit. Blanks may follow it, and nothing
    else. -/
def parseWithin (limit : Nat) (source : String) : Except ParseError Expr :=
  (Parse.whole limit source.toList).mapError (Parse.Stop.report source.toList)

/-- Parse a program. -/
def parse (source : String) : Except ParseError Expr :=
  parseWithin nestingLimit source

/-- Parse the expression at the front of a source. The text after it starts at the
    next character that is not a blank. -/
def parseLeading (source : String) : Except ParseError (Expr × String) :=
  match Parse.leading nestingLimit source.toList with
  | .ok (e, rest) => .ok (e, String.ofList rest)
  | .error why => .error (why.report source.toList)

end Expr

end Egg
