-- SUMMARY: The name of a form matters only where it is the operator of an application.
import Egg.Proofs.Eval.Conduct
import Egg.Proofs.Eval.Limit

/-!
# Dispatch

An application goes to a form by the word that its operator is, and by nothing else. So
what a table says of a name matters only to expressions with an application whose operator
is that very word. The name may still be an argument, a parameter, or a name that is
defined or assigned, and the value of an operator never leads to a form.
-/

namespace Egg

open Egg.Basis

variable {forms forms' : Forms} {name : String}

/-- No application has the name as its operator, and runs do what they like. -/
def Policy.unused (name : String) : Policy where
  avoided := (· = name)
  allowed := fun _ => True
  may := fun _ _ _ => True
  may_aside := fun _ _ => trivial
  may_trans := fun _ _ => trivial
  may_define := trivial
  may_assign := fun _ _ => trivial
  may_make := fun _ => trivial
  may_inner := fun _ _ => trivial

/-- Take two tables that agree on every name but one, with forms of the basis under the
    other names. They may have anything at all under that name, or nothing. An expression in
    which no application has the name as its operator evaluates to the same end under both
    tables, with the same world, provided that the bodies of the functions that are there
    have no such application either. None of the functions that are there in the end has
    one, so the same holds of everything that is evaluated next. -/
theorem evaluate_eq_of_avoids (hforms : Forms.FromBasis (forms.erase name) fun _ => True)
    (hsame : ∀ other, other ≠ name → forms'.get? other = forms.get? other)
    {e : Expr} (he : e.Avoids (· = name)) {w : World}
    (hw : ∀ f ∈ w.functions, f.Avoids (· = name)) (fuel : Nat) (scope : ScopeId) :
    evaluate forms' fuel e scope w = evaluate forms fuel e scope w ∧
    ∀ f ∈ (Finish.world (evaluate forms fuel e scope w)).functions, f.Avoids (· = name) := by
  have htables : (Policy.unused name).Tables forms forms' :=
    Policy.tables_of_erase rfl hforms hsame
  have halike := (htables.engines fuel).evaluate e he scope w hw
  exact ⟨halike.eq, halike.admits⟩

/-- The forms of a small imperative language, but with `quote` under the name of `if`. -/
def quoting : Forms :=
  imperative.insert "if" Form.runQuote

/-- The expression `define(if, fun(if, if))`. -/
def shadowing : Expr :=
  .apply (.word "define") [.word "if", .apply (.word "fun") [.word "if", .word "if"]]

/-- A definition may bind the name of a form to a function with a parameter of that name,
    whatever form it is. -/
theorem evaluate_shadowing :
    Forms.FromBasis (imperative.erase "if") (fun _ => True) ∧
    (∀ other, other ≠ "if" → quoting.get? other = imperative.get? other) ∧
    shadowing.Avoids (· = "if") ∧
    (∀ f ∈ typing.functions, f.Avoids (· = "if")) ∧
    evaluate quoting 9 shadowing 0 (typing.under (.idle 7)) =
      .ok (.function ⟨"fun", 1⟩) { typing with
        guard := .idle 7
        scopes := typing.scopes.define 0 "if" (.function ⟨"fun", 1⟩)
        functions := typing.functions.push (.closure ["if"] (.word "if") 0) } := by
  have hforms : Forms.FromBasis (imperative.erase "if") fun _ => True := by
    intro other handler hget
    rw [Dict.get?_erase] at hget
    split at hget
    · cases hget
    · obtain ⟨f, -, hf⟩ := fromBasis_imperative other handler hget
      exact ⟨f, trivial, hf⟩
  have hsame : ∀ other, other ≠ "if" → quoting.get? other = imperative.get? other := by
    intro other hother
    rw [quoting, Dict.get?_insert, if_neg hother]
  have havoids : shadowing.Avoids (· = "if") := by
    simp [shadowing, Expr.Avoids, Expr.AvoidsAll, Expr.word?]
  have hw : ∀ f ∈ typing.functions, f.Avoids (· = "if") := by
    intro f hf
    obtain rfl : f = Native.type.callable := by simpa [typing] using hf
    exact Native.type.tame_callable.avoids
  refine ⟨hforms, hsame, havoids, hw, ?_⟩
  have hw' : ∀ f ∈ (typing.under (.idle 7)).functions, f.Avoids (· = "if") := hw
  rw [(evaluate_eq_of_avoids hforms hsame havoids hw' 9 0).1]
  rfl

end Egg
