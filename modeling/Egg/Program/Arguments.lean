-- SUMMARY: Bindings and the target on the command line.
import Egg.Eval.Value
import Egg.Program.Error

/-! # Arguments of a run

The arguments of a run are one target and any number of bindings. A binding is
written `name=value`, after the option `-D` or attached to it. The name is a word
and the value is a literal. -/

namespace Egg

/-- Whether a text is a word, without blanks around it. -/
def isWord (text : String) : Bool :=
  match Expr.parse text with
  | .ok (.word name) => name == text
  | _ => false

/-- Parse a binding `name=value`. The first equals sign ends the name. A wrong name
    is reported before a wrong value. -/
def parseBinding (binding : String) : Except ProgramError (String × Value) :=
  let invalid (reason : String) : Except ProgramError (String × Value) :=
    .error (.invalidBinding binding reason)
  match binding.toList.dropWhile (· != '=') with
  | [] => invalid "expected name=value"
  | _ :: value =>
    let name := String.ofList (binding.toList.takeWhile (· != '='))
    if isWord name then
      match Expr.parse (String.ofList value) with
      | .ok (.literal l) => .ok (name, .ofLiteral l)
      | .ok _ => invalid "value must be a number or string literal"
      | .error e => invalid e.message
    else invalid "name must be a single word"

/-- The arguments of a run. -/
structure RunArguments where
  /-- The first argument that is not part of a binding. -/
  target : Option String
  bindings : List (String × Value)
deriving DecidableEq

namespace RunArguments

/-- What is attached to the option `-D`. -/
def attached? (arg : String) : Option String :=
  match arg.toList with
  | '-' :: 'D' :: rest => some (String.ofList rest)
  | _ => none

/-- The arguments with one more binding at the front. -/
def bind (binding : String × Value) (args : RunArguments) : RunArguments :=
  { args with bindings := binding :: args.bindings }

/-- Split a command line. The first fault from the left is reported. -/
def parse : List String → Except ProgramError RunArguments
  | [] => .ok ⟨none, []⟩
  | arg :: rest =>
    match attached? arg, rest with
    | none, rest => do
      let args ← parse rest
      .ok { args with target := some arg }
    | some "", [] => .error (.invalidBinding arg "expected name=value after -D")
    | some "", operand :: rest => do
      let binding ← parseBinding operand
      let args ← parse rest
      .ok (args.bind binding)
    | some operand, rest => do
      let binding ← parseBinding operand
      let args ← parse rest
      .ok (args.bind binding)

end RunArguments

end Egg
