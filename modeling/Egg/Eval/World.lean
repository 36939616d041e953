-- SUMMARY: What a run reads and changes: the nesting guard, the scopes, the functions and the log.
import Egg.Eval.Scope
import Egg.Nesting.Guard

/-! # The world of a run

Evaluation reads and changes a world: the guard on nested evaluations, the scopes,
what each function does, and the texts that were logged. A run ends with a value
or with an error, and the world keeps what was done up to there. -/

namespace Egg

/-! ## Functions -/

mutual
/-- What a call of a function does. -/
inductive Callable where
  /-- A function of the program: bind the arguments in a new scope inside `home`,
      and evaluate the body there. -/
  | closure (params : List String) (body : Expr) (home : ScopeId)
  /-- A function of the host. It sees its arguments and nothing else. -/
  | native (run : List Value → Reply)
  /-- Call the first argument with the other ones. -/
  | forward

/-- What a function of the host answers. -/
inductive Reply where
  | value (v : Value)
  | error (e : EvalError)
  /-- Log a text, and go on. -/
  | logging (text : String) (reply : Reply)
  /-- Make a function, which is the result. -/
  | making (name : String) (f : Callable)
end

instance : Inhabited Reply := ⟨.value default⟩

/-- The function that counts its arguments. -/
def Callable.count : Callable :=
  .native fun args => .value (.number (.ofNat args.length))

instance : Inhabited Callable := ⟨.count⟩

/-! ## Worlds -/

/-- What a run reads and changes. -/
structure World where
  guard : Guard
  scopes : Scopes
  /-- What each function does, at its identity. -/
  functions : Array Callable
  /-- The logged texts, the first one first. -/
  log : Array String

instance : Guarded World where
  guard w := w.guard
  setGuard w g := { w with guard := g }
  guard_setGuard _ _ := rfl

namespace World

/-- A world in which nothing has been done, under a limit on nested evaluations. -/
def fresh (limit : Nat) : World :=
  ⟨.idle limit, .empty, #[], #[]⟩

instance : Inhabited World := ⟨fresh 0⟩

/-- What the function does. One that nobody made counts its arguments. -/
def callable (w : World) (id : FunctionId) : Callable :=
  w.functions.getD id .count

/-- A new function, with an identity of its own. -/
def make (w : World) (name : String) (f : Callable) : Value × World :=
  (.function ⟨name, w.functions.size⟩, { w with functions := w.functions.push f })

end World

/-! ## Runs -/

/-- Why a run ends without a result. -/
inductive Halt where
  | error (e : EvalError)
  /-- The run took more steps than it was allowed. -/
  | outOfFuel
deriving DecidableEq, Repr

/-- A run changes the world and ends with a result or without one. -/
abbrev Run (α : Type) : Type := EStateM Halt World α

namespace Run

def fail {α : Type} (e : EvalError) : Run α :=
  throw (.error e)

/-- A run that only checks. -/
def check {α : Type} : Except EvalError α → Run α
  | .ok a => pure a
  | .error e => fail e

def log (text : String) : Run Unit :=
  modify fun w => { w with log := w.log.push text }

/-- Make a new function. -/
def make (name : String) (f : Callable) : Run Value :=
  modifyGet fun w => w.make name f

/-- Open a new scope inside another one. -/
def openScope (parent : ScopeId) : Run ScopeId :=
  modifyGet fun w =>
    let (id, scopes) := w.scopes.create (some parent)
    (id, { w with scopes := scopes })

/-- Bind a name in the scope itself. -/
def define (scope : ScopeId) (name : String) (v : Value) : Run Unit :=
  modify fun w => { w with scopes := w.scopes.define scope name v }

/-- Bind names in the scope itself, one after the other. -/
def defineAll (scope : ScopeId) (bindings : List (String × Value)) : Run Unit :=
  modify fun w => { w with scopes := w.scopes.defineAll scope bindings }

end Run

/-- Carry out what a function of the host answers. -/
def Reply.perform : Reply → Run Value
  | .value v => pure v
  | .error e => .fail e
  | .logging text reply => do
    Run.log text
    reply.perform
  | .making name f => .make name f

end Egg
