-- SUMMARY: The functions of the basis: arithmetic, comparison, texts, and calls of functions.
import Egg.Eval.World

/-! # The functions of the basis

The evaluator itself defines no function. These are the usual ones of a small
language. A function that needs a fixed number of arguments checks it first. Then
it asks each argument for the kind that it needs, from left to right. -/

namespace Egg.Basis

/-- The functions of the basis. -/
inductive Native where
  | add
  | sub
  | mul
  | div
  | less
  | equal
  | same
  | log
  | list
  | concat
  | type
  | str
  | call
  | adder
  | fail

namespace Native

/-- All functions of the basis. -/
def all : List Native :=
  [add, sub, mul, div, less, equal, same, log, list, concat, type, str, call, adder, fail]

/-- The name of a function. -/
def name : Native → String
  | .add => "+"
  | .sub => "-"
  | .mul => "*"
  | .div => "/"
  | .less => "<"
  | .equal => "=="
  | .same => "same"
  | .log => "log"
  | .list => "list"
  | .concat => "concat"
  | .type => "type"
  | .str => "str"
  | .call => "call"
  | .adder => "adder"
  | .fail => "fail"

/-- The function of a name. -/
def ofName? (name : String) : Option Native :=
  all.find? (·.name == name)

/-- The reply of a function that fails or has a reply. -/
def reply : Except EvalError Reply → Reply
  | .ok r => r
  | .error e => .error e

/-- A function of one argument. -/
def unary (name : String) (run : Value → Except EvalError Reply) (args : List Value) : Reply :=
  match args with
  | [v] => reply (run v)
  | _ => .error (.arityMismatch name 1 args.length)

/-- A function of two arguments. -/
def binary (name : String) (run : Value → Value → Except EvalError Reply) (args : List Value) :
    Reply :=
  match args with
  | [v, w] => reply (run v w)
  | _ => .error (.arityMismatch name 2 args.length)

/-- A function of two numbers. -/
def numeric (name : String) (run : Number → Number → Value) : List Value → Reply :=
  binary name fun v w => do
    let x ← v.asNumber
    let y ← w.asNumber
    pure (.value (run x y))

/-- The contents of texts, one after the other. -/
def joinTexts : List Value → Except EvalError String
  | [] => .ok ""
  | v :: vs => do
    let s ← v.asText
    let t ← joinTexts vs
    pure (s ++ t)

/-- The function that adds `x` to a number. -/
def addTo (x : Number) : Callable :=
  .native (unary "add_n" fun v => v.asNumber.map fun y => .value (.number (x.add y)))

/-- What each function does. -/
def callable : Native → Callable
  | .add => .native (numeric "+" fun x y => .number (x.add y))
  | .sub => .native (numeric "-" fun x y => .number (x.sub y))
  | .mul => .native (numeric "*" fun x y => .number (x.mul y))
  | .div => .native (numeric "/" fun x y => .number (x.div y))
  | .less => .native (numeric "<" fun x y => .ofBool (x.lessThan y))
  | .equal => .native (numeric "==" fun x y => .ofBool (x.isCloseTo y))
  | .same => .native (binary "same" fun v w => .ok (.value (.ofBool (v.equals w))))
  | .log => .native (unary "log" fun v => .ok (.logging v.display (.value v)))
  | .list => .count
  | .concat => .native fun vs => reply ((joinTexts vs).map fun s => .value (.text s))
  | .type => .native (unary "type" fun v => .ok (.value (.text v.typeName)))
  | .str => .native (unary "str" fun v => .ok (.value (.text v.display)))
  | .call => .forward
  | .adder => .native (unary "adder" fun v => v.asNumber.map fun x => .making "add_n" (addTo x))
  | .fail => .native (unary "fail" fun v => v.asText.map fun s => .error (.custom s))

end Native

end Egg.Basis
