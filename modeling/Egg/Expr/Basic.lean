-- SUMMARY: Expressions, the syntax trees of programs.
import Egg.Number.Basic

/-! # Expressions

A program is one expression. There are three kinds: a literal, a word that refers
to a binding, and the application of an operator to arguments. Conditions, loops
and definitions are applications too. Only the name of their operator tells them
apart. -/

namespace Egg

/-- A constant in a program. -/
inductive Literal where
  | text (contents : String)
  | number (value : Number)
deriving DecidableEq

/-- An expression. The operator of an application is any expression, so in
    `f(x)(y)` it is an application itself. -/
inductive Expr where
  | literal (value : Literal)
  | word (name : String)
  | apply (operator : Expr) (args : List Expr)

instance : Inhabited Expr := ⟨.word ""⟩

namespace Literal

/-- Equality of constants, with numbers compared as numbers. -/
def equals : Literal → Literal → Bool
  | .text s, .text t => s == t
  | .number x, .number y => x.equals y
  | _, _ => false

end Literal

namespace Expr

/-- The name of a word. -/
def word? : Expr → Option String
  | .word name => some name
  | _ => none

/-- What messages call an expression of this kind. -/
def kindName : Expr → String
  | .literal _ => "value"
  | .word _ => "word"
  | .apply _ _ => "apply"

/-! ## Equality -/

mutual
/-- Whether two expressions are the same tree, with numbers compared by their
    bits. -/
def decEq : (a b : Expr) → Decidable (a = b)
  | .literal a, .literal b =>
    if h : a = b then .isTrue (by rw [h]) else .isFalse fun e => h (Expr.literal.inj e)
  | .word a, .word b =>
    if h : a = b then .isTrue (by rw [h]) else .isFalse fun e => h (Expr.word.inj e)
  | .apply f as, .apply g bs =>
    match decEq f g, decEqAll as bs with
    | .isTrue hf, .isTrue has => .isTrue (by rw [hf, has])
    | .isFalse hf, _ => .isFalse fun e => hf (Expr.apply.inj e).1
    | _, .isFalse has => .isFalse fun e => has (Expr.apply.inj e).2
  | .literal _, .word _ | .literal _, .apply _ _ | .word _, .literal _
  | .word _, .apply _ _ | .apply _ _, .literal _ | .apply _ _, .word _ => .isFalse nofun

/-- Whether two lists of expressions are the same. -/
def decEqAll : (as bs : List Expr) → Decidable (as = bs)
  | [], [] => .isTrue rfl
  | [], _ :: _ | _ :: _, [] => .isFalse nofun
  | a :: as, b :: bs =>
    match decEq a b, decEqAll as bs with
    | .isTrue h, .isTrue hs => .isTrue (by rw [h, hs])
    | .isFalse h, _ => .isFalse fun e => h (List.cons.inj e).1
    | _, .isFalse hs => .isFalse fun e => hs (List.cons.inj e).2
end

instance : DecidableEq Expr := decEq

mutual
/-- Equality of expressions, with numbers compared as numbers: an expression that
    holds what is not a number differs from itself. -/
def equals : Expr → Expr → Bool
  | .literal a, .literal b => a.equals b
  | .word a, .word b => a == b
  | .apply f as, .apply g bs => f.equals g && equalsAll as bs
  | _, _ => false

/-- Equality of two lists of expressions, position by position. -/
def equalsAll : List Expr → List Expr → Bool
  | [], [] => true
  | a :: as, b :: bs => a.equals b && equalsAll as bs
  | _, _ => false
end

end Expr

end Egg
