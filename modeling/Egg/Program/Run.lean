-- SUMMARY: Parsing, formatting and evaluating the source of a program.
import Egg.Eval.Interpreter
import Egg.Program.Error

/-! # Programs

A program is evaluated by a plain interpreter: no forms, and a scope that holds
the given bindings and nothing else. -/

namespace Egg

/-- The error that a halted evaluation is reported as. -/
def Halt.report : Halt → EvalError
  | .error e => e
  | .outOfFuel => .custom "evaluation did not end"

namespace Program

/-- Parse a source. An error tells the place where it starts. -/
def parse (path source : String) : Except ProgramError Expr :=
  (Expr.parse source).mapError fun e => .parse path (e.span.place source.toList) e

/-- The canonical text of a source. -/
def format (path source : String) : Except ProgramError String :=
  (parse path source).map Expr.print

/-- The world of a program: one scope with the bindings, of which the last one of a
    name counts. -/
def world (bindings : List (String × Value)) : ScopeId × World :=
  let (scope, scopes) := Scopes.empty.create none
  let w := World.fresh evaluationLimit
  (scope, { w with scopes := scopes.defineAll scope bindings })

/-- The value of a source with these bindings. -/
def eval (path source : String) (bindings : List (String × Value)) :
    Except ProgramError Value := do
  let e ← parse path source
  let (scope, w) := world bindings
  match evaluate .empty ample e scope w with
  | .ok v _ => .ok v
  | .error h _ => .error (.eval path h.report)

end Program

end Egg
