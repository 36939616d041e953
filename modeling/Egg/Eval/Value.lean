-- SUMMARY: Values, the results of evaluation.
import Egg.Eval.Error
import Egg.Expr.Printer

/-! # Values

A value is a text, a number or a function. No value is turned into another kind on
its own: whoever needs a kind asks for it, and fails if the value is of another
one.

A function value is a name for messages and an identity. What a call of it does is
kept elsewhere, under the identity (`Egg.Eval.World`). Two function values are
equal exactly if they have the same identity. -/

namespace Egg

/-- The identity of a function. -/
abbrev FunctionId := Nat

/-- A function as a value. -/
structure FunctionRef where
  name : String
  id : FunctionId
deriving DecidableEq, Repr

/-- A value. -/
inductive Value where
  | text (contents : String)
  | number (value : Number)
  | function (f : FunctionRef)
deriving DecidableEq

namespace Value

instance : Inhabited Value := ⟨.number .zero⟩

/-- What messages call the kind of a value. -/
def typeName : Value → String
  | .text _ => "string"
  | .number _ => "number"
  | .function _ => "function"

/-- The contents of a text. -/
def asText : Value → Except EvalError String
  | .text contents => .ok contents
  | v => .error (.typeMismatch "string" v.typeName)

/-- The number. -/
def asNumber : Value → Except EvalError Number
  | .number x => .ok x
  | v => .error (.typeMismatch "number" v.typeName)

/-- The function. -/
def asFunction : Value → Except EvalError FunctionRef
  | .function f => .ok f
  | v => .error (.typeMismatch "function" v.typeName)

def isFunction : Value → Bool
  | .function _ => true
  | _ => false

/-- The value of a constant. -/
def ofLiteral : Literal → Value
  | .text contents => .text contents
  | .number x => .number x

/-- Equality of values: texts by their characters, numbers as numbers, functions
    by identity. -/
def equals : Value → Value → Bool
  | .text s, .text t => s == t
  | .number x, .number y => x.equals y
  | .function f, .function g => f.id == g.id
  | _, _ => false

/-- A condition holds for every number but the two zeros. -/
def isTrue (v : Value) : Except EvalError Bool :=
  v.asNumber.map fun x => !x.isZero

/-- One for a condition that holds, and zero for one that does not. -/
def ofBool (b : Bool) : Value :=
  .number (.ofNat (if b then 1 else 0))

/-- The text of a value as a program prints it: a text without quotes. -/
def display : Value → String
  | .text contents => contents
  | .number x => String.ofList (x.write .plain)
  | .function f => s!"<function {f.name}>"

/-- The outline of a value. The name of a function is written as it stands. -/
def outline : Value → Text.Outline
  | .text contents => Text.outlineOf contents
  | .number x => x.outline
  | .function f =>
    .group "Function" .round [.group "FunctionValue" .round [.leaf f.name]]

end Value

end Egg
