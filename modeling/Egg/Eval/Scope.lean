-- SUMMARY: Scopes: bindings of names to values, linked to a parent scope and shared by everyone who knows them.
import Egg.Dict
import Egg.Eval.Value

/-! # Scopes

A scope binds names to values and may have a parent, in which a name is looked up
that the scope itself does not bind. Many hold on to the same scope: the children
of it, the functions that were made in it, and the host. So the scopes of a run
are cells of one store, and whoever holds on to a scope knows its identity.

A parent is there before its child, so its identity is smaller. The link of a cell
to its parent never changes. -/

namespace Egg

/-- The identity of a scope. -/
abbrev ScopeId := Nat

/-- The cell of one scope. -/
structure Scope where
  own : Dict Value
  parent : Option ScopeId

instance : Inhabited Scope := ⟨⟨.empty, none⟩⟩

/-- The scopes of a run, each at its identity. -/
structure Scopes where
  cells : Array Scope

namespace Scopes

def empty : Scopes := ⟨#[]⟩

instance : Inhabited Scopes := ⟨empty⟩

/-- The scope and its ancestors, from the inside to the outside. A link that does
    not lead to an older cell ends the chain. -/
def chain (s : Scopes) (id : ScopeId) : List ScopeId :=
  match s.cells[id]? with
  | none => []
  | some cell =>
    id :: match cell.parent with
      | none => []
      | some parent => if parent < id then s.chain parent else []
termination_by id

/-- The bindings of the scope itself. -/
def own (s : Scopes) (id : ScopeId) : Dict Value :=
  (s.cells[id]?.map Scope.own).getD .empty

/-- The first scope of the chain that binds `name` itself. -/
def holder? (s : Scopes) (id : ScopeId) (name : String) : Option ScopeId :=
  (s.chain id).find? fun h => (s.own h).contains name

/-- What `name` is bound to in the first scope of the chain that binds it. -/
def lookup (s : Scopes) (id : ScopeId) (name : String) : Option Value :=
  (s.holder? id name).bind fun h => (s.own h).get? name

/-- Bind `name` in the scope itself. -/
def define (s : Scopes) (id : ScopeId) (name : String) (v : Value) : Scopes :=
  ⟨s.cells.modify id fun cell => { cell with own := cell.own.insert name v }⟩

/-- Bind names in the scope itself, one after the other. -/
def defineAll (s : Scopes) (id : ScopeId) (bindings : List (String × Value)) : Scopes :=
  bindings.foldl (fun s b => s.define id b.1 b.2) s

/-- Overwrite the nearest binding of `name`. Without one there is no result. -/
def assign? (s : Scopes) (id : ScopeId) (name : String) (v : Value) : Option Scopes :=
  (s.holder? id name).map fun h => s.define h name v

/-- A new cell, and its identity. -/
def add (s : Scopes) (cell : Scope) : ScopeId × Scopes :=
  (s.cells.size, ⟨s.cells.push cell⟩)

/-- A new scope without bindings. -/
def create (s : Scopes) (parent : Option ScopeId) : ScopeId × Scopes :=
  s.add ⟨.empty, parent⟩

/-- A new scope with the bindings and the parent of another one. -/
def copy (s : Scopes) (id : ScopeId) : ScopeId × Scopes :=
  s.add (s.cells[id]?.getD default)

/-- The outline of a scope, with its chain of parents. -/
def outline (s : Scopes) (id : ScopeId) : Text.Outline :=
  let nest (id : ScopeId) (parent : Option Text.Outline) : Option Text.Outline :=
    let bindings := (s.own id).entries.map fun (name, v) => .field (Text.quoted name) v.outline
    let parent := match parent with
      | none => .leaf "None"
      | some parent => .group "Some" .round [parent]
    let scope := .group "Scope" .record
      [.field "bindings" (.group "" .curly bindings), .field "parent" parent]
    some (.group "LocalScope" .round [.group "RefCell" .record [.field "value" scope]])
  ((s.chain id).foldr nest none).getD (.leaf "None")

end Scopes

end Egg
