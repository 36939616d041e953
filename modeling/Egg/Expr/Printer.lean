-- SUMMARY: The canonical text of an expression, and its outline.
import Egg.Expr.Basic
import Egg.Number.Decimal
import Egg.Text.Outline
import Egg.Text.Quoted

/-! # The text of an expression

`Expr.print` writes an expression as a program: arguments are separated by a
comma and a space, and there is no other blank outside texts. `Expr.outline`
shows the tree itself. -/

namespace Egg

/-! ## Canonical text -/

/-- A run of digits that denotes infinity: 10^309 is too large for a number. -/
def infinityDigits : List Char :=
  '1' :: List.replicate 309 '0'

namespace Literal

/-- The text of a constant. A text stands between quotes as it is. Infinity has
    no name in a program, so it is written as a run of digits that denotes it. -/
def print : Literal → List Char
  | .text contents => '"' :: contents.toList ++ ['"']
  | .number x => if x = .infinity then infinityDigits else x.write .plain

end Literal

namespace Expr

mutual
/-- The text of an expression, in front of `tail`. -/
def printOnto : Expr → List Char → List Char
  | .literal value, tail => value.print ++ tail
  | .word name, tail => name.toList ++ tail
  | .apply operator args, tail => operator.printOnto ('(' :: printArgsOnto args (')' :: tail))

/-- The texts of arguments, with a comma and a space between two of them. -/
def printArgsOnto : List Expr → List Char → List Char
  | [], tail => tail
  | [arg], tail => arg.printOnto tail
  | arg :: args, tail => arg.printOnto (',' :: ' ' :: printArgsOnto args tail)
end

/-- The canonical text of an expression. -/
def print (e : Expr) : String :=
  String.ofList (e.printOnto [])

end Expr

/-! ## Outlines -/

/-- The outline of a text: its quoted form, marked as a text. -/
def Text.outlineOf (contents : String) : Text.Outline :=
  .group "Str" .round [.leaf (Text.quoted contents)]

/-- The outline of a number, marked as a number. -/
def Number.outline (x : Number) : Text.Outline :=
  .group "Number" .round [.leaf (String.ofList (x.write .exact))]

def Literal.outline : Literal → Text.Outline
  | .text contents => Text.outlineOf contents
  | .number x => x.outline

namespace Expr

mutual
/-- The outline of the tree. -/
def outline : Expr → Text.Outline
  | .literal value => .group "Value" .round [value.outline]
  | .word name => .group "Word" .record [.field "name" (.leaf (Text.quoted name))]
  | .apply operator args =>
    .group "Apply" .record
      [.field "operator" operator.outline, .field "args" (.group "" .square (outlineAll args))]

/-- The outlines of a list of trees. -/
def outlineAll : List Expr → List Text.Outline
  | [] => []
  | e :: es => e.outline :: outlineAll es
end

end Expr

end Egg
