-- SUMMARY: Evaluation errors and their texts.

/-! # Evaluation errors

Each error names its cause and what its text mentions. `custom` is for failures
that a form or a function of a runtime library finds on its own. -/

namespace Egg

/-- Why an evaluation fails. -/
inductive EvalError where
  /-- A word is bound nowhere in its scope. -/
  | undefinedBinding (name : String)
  /-- The operator of a call is not a function. -/
  | notCallable (typeName : String)
  /-- A value of another kind is needed. -/
  | typeMismatch (expected got : String)
  /-- A function or a form has the wrong number of arguments. -/
  | arityMismatch (name : String) (expected got : Nat)
  /-- Evaluations are nested deeper than the limit. -/
  | recursionLimit (limit : Nat)
  | custom (message : String)
deriving DecidableEq, Repr

namespace EvalError

/-- The text of the error. -/
def message : EvalError → String
  | .undefinedBinding name => s!"undefined binding: {name}"
  | .notCallable typeName => s!"applying a non-function: {typeName} is not callable"
  | .typeMismatch expected got => s!"type mismatch: expected {expected}, got {got}"
  | .arityMismatch name expected got =>
    let noun := if expected = 1 then "argument" else "arguments"
    s!"{name} expects {expected} {noun}, got {got}"
  | .recursionLimit limit => s!"maximum recursion depth exceeded (limit: {limit})"
  | .custom message => message

end EvalError

/-- Check that `name` has as many arguments as it expects. -/
def checkArity (name : String) (expected got : Nat) : Except EvalError Unit :=
  if got = expected then .ok () else .error (.arityMismatch name expected got)

end Egg
