-- SUMMARY: The evaluator, and the table of special forms that it dispatches to.
import Egg.Eval.World

/-! # The evaluator

A literal evaluates to its constant and a word to what it is bound to. An
application whose operator is a word that names a special form goes to the handler
of the form, with the arguments as they are written. Any other application
evaluates the operator, then the arguments from left to right, and calls.

The evaluator defines no form and no function of its own. Forms and functions may
evaluate again. Every evaluation counts as one level of the nesting guard, so the
limit bounds them together. Only a loop may go on without nesting, so evaluation
takes a fuel that bounds the rounds of a loop as well. With more fuel than a run
needs, the result does not depend on the fuel. -/

namespace Egg

/-! ## Forms -/

/-- What a form or a function uses to evaluate again. -/
structure Engine where
  /-- Evaluate an expression in a scope. -/
  evaluate : Expr → ScopeId → Run Value
  /-- How many rounds a loop may take. -/
  rounds : Nat

/-- What a special form does with the arguments as they are written, in the scope
    of the application. -/
abbrev Handler : Type := Engine → List Expr → ScopeId → Run Value

/-- A table of special forms by name. -/
abbrev Forms : Type := Dict Handler

namespace Forms

/-- The table with one more form, and the form that it replaces. -/
def register (forms : Forms) (name : String) (handler : Handler) : Option Handler × Forms :=
  (forms.get? name, forms.insert name handler)

/-- The table without the form of this name, and that form. -/
def unregister (forms : Forms) (name : String) : Option Handler × Forms :=
  (forms.get? name, forms.erase name)

/-- The outline of a table: the set of its names. -/
def outline (forms : Forms) : Text.Outline :=
  .group "" .curly (forms.names.map fun name => .leaf (Text.quoted name))

/-- The form that an application with this operator goes to. -/
def forOperator? (forms : Forms) (operator : Expr) : Option Handler :=
  operator.word?.bind forms.get?

end Forms

/-! ## Calls -/

namespace Engine

/-- Evaluate expressions from left to right. -/
def evaluateAll (engine : Engine) : List Expr → ScopeId → Run (List Value)
  | [], _ => pure []
  | e :: es, scope => do
    let v ← engine.evaluate e scope
    let vs ← engine.evaluateAll es scope
    pure (v :: vs)

/-- Call a function of the program: its parameters are bound, in order, in a new
    scope inside the one it was made in. Of two parameters of one name the last
    one counts. -/
def callClosure (engine : Engine) (params : List String) (body : Expr) (home : ScopeId)
    (args : List Value) : Run Value := do
  Run.check (checkArity "fun" params.length args.length)
  let scope ← Run.openScope home
  Run.defineAll scope (params.zip args)
  engine.evaluate body scope

/-- Call a function with values. -/
def call (engine : Engine) (f : FunctionRef) (args : List Value) : Run Value := do
  match (← get).callable f.id with
  | .closure params body home => engine.callClosure params body home args
  | .native run => (run args).perform
  | .forward =>
    match args with
    | [] => Run.fail (.custom "call needs a function")
    | v :: rest =>
      let g ← Run.check v.asFunction
      engine.call g rest

/-- The value of a word. -/
def evaluateWord (name : String) (scope : ScopeId) : Run Value := do
  match (← get).scopes.lookup scope name with
  | some v => pure v
  | none => Run.fail (.undefinedBinding name)

/-- The value of an application that no form handles. That the operator is a
    function is checked before the arguments are evaluated. -/
def evaluateCall (engine : Engine) (operator : Expr) (args : List Expr) (scope : ScopeId) :
    Run Value := do
  match ← engine.evaluate operator scope with
  | .function f =>
    let vs ← engine.evaluateAll args scope
    engine.call f vs
  | v => Run.fail (.notCallable v.typeName)

/-- Evaluate an expression at a level that the guard has entered. -/
def enter (engine : Engine) (forms : Forms) : Expr → ScopeId → Run Value
  | .literal value, _ => pure (.ofLiteral value)
  | .word name, scope => evaluateWord name scope
  | .apply operator args, scope =>
    match forms.forOperator? operator with
    | some handler => handler engine args scope
    | none => engine.evaluateCall operator args scope

end Engine

/-! ## Evaluation -/

/-- The default limit on nested evaluations. -/
def evaluationLimit : Nat := 1024

/-- The error of an evaluation that would be nested too deeply. -/
def Halt.tooDeep (e : LimitExceeded) : Halt :=
  .error (.recursionLimit e.limit)

/-- Evaluate an expression in a scope, one level deeper in the guard. -/
def evaluate (forms : Forms) : Nat → Expr → ScopeId → Run Value
  | 0, _, _ => throw .outOfFuel
  | fuel + 1, e, scope =>
    descend Halt.tooDeep (Engine.enter ⟨evaluate forms fuel, fuel⟩ forms e scope)

/-- The engine of a table of forms with this much fuel. -/
def Forms.engine (forms : Forms) (fuel : Nat) : Engine :=
  ⟨evaluate forms fuel, fuel⟩

/-- More fuel than a run can use up in practice. -/
def ample : Nat := 2 ^ 60

/-! ## Interpreters -/

/-- An interpreter: a table of forms, and a limit on nested evaluations. -/
structure Interpreter where
  forms : Forms
  limit : Nat

namespace Interpreter

/-- One step in setting up an interpreter. -/
inductive Setting where
  /-- Replace the whole table. -/
  | forms (table : Forms)
  /-- Register one form. -/
  | form (name : String) (handler : Handler)
  /-- Set the limit on nested evaluations. -/
  | limit (limit : Nat)

/-- An interpreter without forms, under the default limit. -/
def plain : Interpreter := ⟨.empty, evaluationLimit⟩

/-- The interpreter after one more setting. -/
def apply (i : Interpreter) : Setting → Interpreter
  | .forms table => { i with forms := table }
  | .form name handler => { i with forms := (i.forms.register name handler).2 }
  | .limit limit => { i with limit := limit }

/-- The interpreter after these settings, in order. -/
def build (settings : List Setting) : Interpreter :=
  settings.foldl apply plain

end Interpreter

end Egg
