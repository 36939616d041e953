-- SUMMARY: Sessions: an interpreter and named scopes that a host drives step by step.
import Egg.Basis.Forms
import Egg.Parse.Error

/-! # Sessions

A host keeps an interpreter and scopes over many programs. It evaluates programs
in a scope, calls functions and forms directly, reads and changes bindings, opens
scopes, and changes the table of forms. It knows each scope by a name that it
chose. Each step gives an answer, and the texts logged during the step can be read
from the world afterwards. -/

namespace Egg

open Egg.Basis

/-- A session. -/
structure Session where
  forms : Forms
  /-- A copy of a table of forms that was put aside. -/
  kept : Forms
  world : World
  /-- The scopes that the host knows, by its names for them. -/
  handles : Dict ScopeId

namespace Session

/-- What a host can do in a scope. -/
inductive Step where
  /-- Parse and evaluate a program. -/
  | evaluateSource (source : String)
  | evaluate (e : Expr)
  /-- Parse and evaluate a program with a plain interpreter of its own. -/
  | evaluatePlainly (source : String)
  | parse (source : String)
  /-- Call the function that a name is bound to, without an evaluation. -/
  | call (name : String) (args : List Given)
  /-- Run the handler of a form, without an evaluation. -/
  | invoke (name : String) (args : List Expr)
  | lookup (name : String)
  | define (name : String) (v : Given)
  | assign (name : String) (v : Given)
  /-- Ask whether the scope itself binds a name. -/
  | binds (name : String)
  /-- The names that the scope itself binds. -/
  | names
  | outline
  /-- Open a scope inside this one, and call it `name`. -/
  | child (name : String)
  /-- Open a scope without parent, and call it `name`. -/
  | fresh (name : String)
  /-- Call this scope `name` too. -/
  | alias (name : String)
  /-- Copy this scope, and call the copy `name`. -/
  | copy (name : String)
  /-- Register a form. The answer tells whether it replaced one. -/
  | register (name : String) (form : Form)
  /-- Remove a form. The answer tells whether there was one. -/
  | unregister (name : String)
  | hasForm (name : String)
  | forms
  /-- Put a copy of the table of forms aside. -/
  | keepForms
  /-- Take back the copy that was put aside last, or else an empty table. -/
  | restoreForms
  /-- Go on with a plain interpreter. -/
  | reset
  | limit

/-- What a step gives. -/
inductive Answer where
  | nothing
  | value (v : Value)
  | tree (e : Expr)
  | flag (b : Bool)
  | count (n : Nat)
  | text (s : String)
  | names (names : List String)
  /-- A table of forms: its names, and its outline. -/
  | table (names : List String) (outline : String)
  | parseError (e : ParseError)
  | evalError (e : EvalError)
  /-- There was no binding to assign to. -/
  | undefined
  /-- The run took more steps than it was allowed. -/
  | unfinished

/-- A step in setting up the interpreter of a session. -/
inductive Setup where
  /-- Replace the whole table of forms. Of two forms of one name the last counts. -/
  | forms (table : List (String × Form))
  | form (name : String) (form : Form)
  | limit (limit : Nat)

/-- The setting of an interpreter that a step stands for. -/
def Setup.setting : Setup → Interpreter.Setting
  | .forms table => .forms (Dict.empty.insertAll (table.map fun (name, f) => (name, f.handler)))
  | .form name f => .form name f.handler
  | .limit n => .limit n

/-- A session with a root scope, in which functions of the basis are bound under
    their names, and then the given bindings. -/
def start (setups : List Setup) (natives : List Native) (bindings : List (String × Given)) :
    Session :=
  let i := Interpreter.build (setups.map Setup.setting)
  let bound := natives.map (fun f => (f.name, Given.native f)) ++ bindings
  let (values, w) := (World.fresh i.limit).receiveAll (bound.map Prod.snd)
  let (root, scopes) := w.scopes.create none
  let scopes := scopes.defineAll root ((bound.map Prod.fst).zip values)
  ⟨i.forms, .empty, { w with scopes := scopes }, Dict.empty.insert "root" root⟩

/-- The answer to a run that ends with a value. -/
def answer (s : Session) (run : Run Value) : Answer × Session :=
  match run s.world with
  | .ok v w => (.value v, { s with world := w })
  | .error (.error e) w => (.evalError e, { s with world := w })
  | .error .outOfFuel w => (.unfinished, { s with world := w })

/-- The session with other scopes. -/
def withScopes (s : Session) (scopes : Scopes) : Session :=
  { s with world := { s.world with scopes := scopes } }

/-- The session with a new scope, called `name`. -/
def bindHandle (s : Session) (name : String) (made : ScopeId × Scopes) : Session :=
  { s.withScopes made.2 with handles := s.handles.insert name made.1 }

/-- The session with one more value. -/
def receive (s : Session) (g : Given) : Value × Session :=
  let (v, w) := s.world.receive g
  (v, { s with world := w })

/-- Evaluate with the forms and the guard of another interpreter, and go on with
    one's own afterwards. -/
def evaluateWith (i : Interpreter) (e : Expr) (scope : ScopeId) : Run Value := fun w =>
  let guard := w.guard
  match Egg.evaluate i.forms ample e scope { w with guard := .idle i.limit } with
  | .ok v w => .ok v { w with guard := guard }
  | .error e w => .error e { w with guard := guard }

/-- Call the function that a name is bound to. -/
def callByName (s : Session) (scope : ScopeId) (name : String) (args : List Given) :
    Answer × Session :=
  match s.world.scopes.lookup scope name with
  | none => (.nothing, s)
  | some v =>
    match v.asFunction with
    | .error e => (.evalError e, s)
    | .ok f =>
      let (vs, w) := s.world.receiveAll args
      { s with world := w }.answer ((s.forms.engine ample).call f vs)

/-- One step in a scope. -/
def stepIn (s : Session) (scope : ScopeId) : Step → Answer × Session
  | .evaluateSource source =>
    match Expr.parse source with
    | .ok e => s.answer (Egg.evaluate s.forms ample e scope)
    | .error e => (.parseError e, s)
  | .evaluate e => s.answer (Egg.evaluate s.forms ample e scope)
  | .evaluatePlainly source =>
    match Expr.parse source with
    | .ok e => s.answer (evaluateWith .plain e scope)
    | .error e => (.parseError e, s)
  | .parse source =>
    match Expr.parse source with
    | .ok e => (.tree e, s)
    | .error e => (.parseError e, s)
  | .call name args => s.callByName scope name args
  | .invoke name args =>
    match s.forms.get? name with
    | some handler => s.answer (handler (s.forms.engine ample) args scope)
    | none => (.nothing, s)
  | .lookup name =>
    match s.world.scopes.lookup scope name with
    | some v => (.value v, s)
    | none => (.nothing, s)
  | .define name g =>
    let (v, s) := s.receive g
    (.nothing, s.withScopes (s.world.scopes.define scope name v))
  | .assign name g =>
    let (v, s) := s.receive g
    match s.world.scopes.assign? scope name v with
    | some scopes => (.nothing, s.withScopes scopes)
    | none => (.undefined, s)
  | .binds name => (.flag ((s.world.scopes.own scope).contains name), s)
  | .names => (.names (s.world.scopes.own scope).names, s)
  | .outline => (.text (s.world.scopes.outline scope).flat, s)
  | .child name => (.nothing, s.bindHandle name (s.world.scopes.create (some scope)))
  | .fresh name => (.nothing, s.bindHandle name (s.world.scopes.create none))
  | .alias name => (.nothing, { s with handles := s.handles.insert name scope })
  | .copy name => (.nothing, s.bindHandle name (s.world.scopes.copy scope))
  | .register name form =>
    let (replaced, forms) := s.forms.register name form.handler
    (.flag replaced.isSome, { s with forms := forms })
  | .unregister name =>
    let (removed, forms) := s.forms.unregister name
    (.flag removed.isSome, { s with forms := forms })
  | .hasForm name => (.flag (s.forms.contains name), s)
  | .forms => (.table s.forms.names s.forms.outline.flat, s)
  | .keepForms => (.nothing, { s with kept := s.forms })
  | .restoreForms => (.nothing, { s with forms := s.kept })
  | .reset =>
    let i := Interpreter.plain
    (.nothing, { s with forms := i.forms, world := { s.world with guard := .idle i.limit } })
  | .limit => (.count s.world.guard.limit, s)

/-- One step in the scope that the host calls `handle`, with an empty log at the
    start. A name that the host has not given to a scope stands for a new one. -/
def step (s : Session) (handle : String) (step : Step) : Answer × Session :=
  let s := { s with world := { s.world with log := #[] } }
  match s.handles.get? handle with
  | some scope => s.stepIn scope step
  | none =>
    let (scope, scopes) := s.world.scopes.create none
    (s.withScopes scopes).stepIn scope step

end Session

end Egg
