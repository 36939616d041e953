-- SUMMARY: The special forms of the basis: conditions, sequences, definitions, loops, functions and their relatives.
import Egg.Basis.Given
import Egg.Eval.Interpreter

/-! # The forms of the basis

The evaluator itself defines no special form. These are the usual ones of a small
imperative language. A form that needs a fixed number of arguments checks it
first, and its error names the form by its usual name. An error in an argument is
the error of the form, except for `try`. -/

namespace Egg.Basis

/-- The special forms of the basis. -/
inductive Form where
  | cond
  | sequence
  | reversed
  | define
  | set
  | loop
  | function
  | block
  | attempt
  | quote
  | names
  | has
  | const (v : Given)

namespace Form

/-- The usual name of a form. -/
def name : Form → String
  | .cond => "if"
  | .sequence => "do"
  | .reversed => "rev"
  | .define => "define"
  | .set => "set"
  | .loop => "while"
  | .function => "fun"
  | .block => "local"
  | .attempt => "try"
  | .quote => "quote"
  | .names => "names"
  | .has => "has"
  | .const _ => "const"

/-- The form of a usual name, for a form that has no value of its own. -/
def ofName? (name : String) : Option Form :=
  [cond, sequence, reversed, define, set, loop, function, block, attempt, quote, names,
    has].find? (·.name == name)

/-- The name that an argument of the form `kind` has to be. -/
def wordArgument (kind : String) (arg : Expr) : Except EvalError String :=
  match arg.word? with
  | some name => .ok name
  | none => .error (.typeMismatch s!"word as first argument to {kind}" arg.kindName)

/-- The names that the arguments of the form `kind` have to be, in order. -/
def wordArguments (kind : String) : List Expr → Except EvalError (List String)
  | [] => .ok []
  | arg :: args => do
    let name ← wordArgument kind arg
    let names ← wordArguments kind args
    pure (name :: names)

/-- The failure of the form `kind` with a wrong number of arguments. -/
def wrongArity (kind : String) (args : List Expr) (expected : Nat) : Run Value :=
  Run.fail (.arityMismatch kind expected args.length)

/-! ## Control -/

/-- `if`: the second argument if the first holds, or else the third. -/
def runCond : Handler := fun engine args scope => do
  match args with
  | [test, yes, no] =>
    let v ← engine.evaluate test scope
    if ← Run.check v.isTrue then engine.evaluate yes scope else engine.evaluate no scope
  | _ => wrongArity "if" args 3

/-- `do`: every argument from left to right. The result is that of the last one,
    or zero. -/
def runSequence : Handler := fun engine args scope => do
  let vs ← engine.evaluateAll args scope
  pure (vs.getLast?.getD (.number .zero))

/-- `rev`: like `do`, but from right to left. -/
def runReversed : Handler := fun engine args scope =>
  runSequence engine args.reverse scope

/-- At most this many rounds of a loop. -/
def runRounds (engine : Engine) (test body : Expr) (scope : ScopeId) : Nat → Run Value
  | 0 => throw .outOfFuel
  | rounds + 1 => do
    let v ← engine.evaluate test scope
    if ← Run.check v.isTrue then
      let _ ← engine.evaluate body scope
      runRounds engine test body scope rounds
    else
      pure (.number .zero)

/-- `while`: the second argument again and again, as long as the first holds. The
    result is zero. -/
def runLoop : Handler := fun engine args scope => do
  match args with
  | [test, body] => runRounds engine test body scope engine.rounds
  | _ => wrongArity "while" args 2

/-- `try`: the first argument, or, if it fails, the second one after the text of
    the error was logged. -/
def runAttempt : Handler := fun engine args scope => do
  match args with
  | [first, second] =>
    tryCatch (engine.evaluate first scope) fun
      | .error e => do
        Run.log e.message
        engine.evaluate second scope
      | .outOfFuel => throw .outOfFuel
  | _ => wrongArity "try" args 2

/-! ## Scopes -/

/-- `define`: bind a word in the scope to the value of the second argument, which
    is the result. -/
def runDefine : Handler := fun engine args scope => do
  match args with
  | [target, e] =>
    let name ← Run.check (wordArgument "define" target)
    let v ← engine.evaluate e scope
    Run.define scope name v
    pure v
  | _ => wrongArity "define" args 2

/-- Overwrite the nearest binding of a name. -/
def assign (scope : ScopeId) (name : String) (v : Value) : Run Unit := do
  match (← get).scopes.assign? scope name v with
  | some scopes => modify fun w => { w with scopes := scopes }
  | none => Run.fail (.custom s!"cannot set undefined binding {name}")

/-- `set`: overwrite the nearest binding of a word with the value of the second
    argument, which is the result. -/
def runSet : Handler := fun engine args scope => do
  match args with
  | [target, e] =>
    let name ← Run.check (wordArgument "set" target)
    let v ← engine.evaluate e scope
    assign scope name v
    pure v
  | _ => wrongArity "set" args 2

/-- `local`: the argument in a new scope inside this one. -/
def runBlock : Handler := fun engine args scope => do
  match args with
  | [e] =>
    let inner ← Run.openScope scope
    engine.evaluate e inner
  | _ => wrongArity "local" args 1

/-- `names`: the names that the scope itself binds, with commas between them. -/
def runNames : Handler := fun _ _ scope => do
  pure (.text (",".intercalate ((← get).scopes.own scope).names))

/-- `has`: whether the scope itself binds a word. -/
def runHas : Handler := fun _ args scope => do
  match args with
  | [target] =>
    let name ← Run.check (wordArgument "has" target)
    pure (.ofBool (((← get).scopes.own scope).contains name))
  | _ => wrongArity "has" args 1

/-! ## Expressions -/

/-- `fun`: a function with the last argument as its body and the words before it
    as its parameters. It is made in this scope. -/
def runFunction : Handler := fun _ args scope => do
  match args.getLast? with
  | none => Run.fail (.custom "fun needs a body")
  | some body =>
    let params ← Run.check (wordArguments "fun" args.dropLast)
    Run.make "fun" (.closure params body scope)

/-- `quote`: log the text of every argument. The result is their number. -/
def runQuote : Handler := fun _ args _ => do
  for arg in args do
    Run.log arg.print
  pure (.number (.ofNat args.length))

/-- `const`: the value of the form. Each application makes it anew, so two of them
    never give the same function. -/
def runConst (v : Given) : Handler := fun _ _ _ => Run.receive v

/-- What each form does. -/
def handler : Form → Handler
  | .cond => runCond
  | .sequence => runSequence
  | .reversed => runReversed
  | .define => runDefine
  | .set => runSet
  | .loop => runLoop
  | .function => runFunction
  | .block => runBlock
  | .attempt => runAttempt
  | .quote => runQuote
  | .names => runNames
  | .has => runHas
  | .const v => runConst v

end Form

end Egg.Basis
