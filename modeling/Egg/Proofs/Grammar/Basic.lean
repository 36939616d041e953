-- SUMMARY: The grammar of programs as an inductive relation, and the depth of an expression.
import Egg.Parse.Error

/-!
# The grammar

`Spells s e` says that the text `s` spells the expression `e`. The relation knows
nothing of a reader: it does not say where a token ends, and it leaves open how
much blank text stands before one. It follows the grammar,

    expression := blanks atom call*
    call       := blanks '(' blanks ')' | blanks '(' expression (blanks ',' expression)* blanks ')'

with a call taking all that stands to its left as its operator.
-/

namespace Egg

/-! ## Depth -/

namespace Expr

mutual
/-- How many levels an expression takes. An argument lies one level below its
    application, while the operator lies on the level of the application itself:
    a chain of calls is not deeper than its deepest link. -/
def depth : Expr → Nat
  | .literal _ => 1
  | .word _ => 1
  | .apply operator args => max operator.depth (depthArgs args)

/-- How many levels the arguments of an application take, seen from it. -/
def depthArgs : List Expr → Nat
  | [] => 0
  | arg :: args => max (arg.depth + 1) (depthArgs args)
end

theorem one_le_depth : (e : Expr) → 1 ≤ e.depth
  | .literal _ | .word _ => Nat.le_refl 1
  | .apply operator _ => Nat.le_trans operator.one_le_depth (Nat.le_max_left ..)

theorem depthArgs_append (args args' : List Expr) :
    depthArgs (args ++ args') = max (depthArgs args) (depthArgs args') := by
  induction args with
  | nil => simp [depthArgs]
  | cons arg args ih => simp [depthArgs, ih, Nat.max_assoc]

end Expr

namespace Grammar

open Text

/-! ## Atoms -/

/-- A text of blanks. -/
def Blanks (s : List Char) : Prop :=
  ∀ c ∈ s, isBlank c = true

/-- What goes on a run of digits so that it is no number: a letter of ASCII or an
    underscore. -/
def goesOn (c : Char) : Bool :=
  c.isAlpha || c == '_'

/-- The characters of a word: they are not empty, all of them are word characters,
    and digits at the front are followed, still inside the word, by a character
    that goes on. -/
structure IsWord (word : List Char) : Prop where
  ne_nil : word ≠ []
  isWordChar : ∀ c ∈ word, isWordChar c = true
  digits : word.takeWhile Char.isDigit = [] ∨
    ∃ c, (word.dropWhile Char.isDigit).head? = some c ∧ goesOn c = true

/-- The text `s` spells the atom `e`. -/
inductive SpellsAtom : List Char → Expr → Prop where
  | text {contents} : '"' ∉ contents →
      SpellsAtom ('"' :: contents ++ ['"']) (.literal (.text (String.ofList contents)))
  | number {digits} : digits ≠ [] → (∀ c ∈ digits, c.isDigit = true) →
      SpellsAtom digits (.literal (.number (.ofDigits digits)))
  | word {word} : IsWord word → SpellsAtom word (.word (String.ofList word))

/-! ## Expressions -/

mutual
/-- The text `s` spells the expression `e`. -/
inductive Spells : List Char → Expr → Prop where
  | atom {blanks s e} : Blanks blanks → SpellsAtom s e → Spells (blanks ++ s) e
  | callNone {s operator blanks blanks'} : Spells s operator → Blanks blanks → Blanks blanks' →
      Spells (s ++ blanks ++ '(' :: blanks' ++ [')']) (.apply operator [])
  | call {s operator blanks t args blanks'} : Spells s operator → Blanks blanks →
      SpellsArgs t args → Blanks blanks' →
      Spells (s ++ blanks ++ '(' :: t ++ blanks' ++ [')']) (.apply operator args)

/-- The text `s` spells the arguments `args`, of which there is at least one. -/
inductive SpellsArgs : List Char → List Expr → Prop where
  | one {s arg} : Spells s arg → SpellsArgs s [arg]
  | more {s arg blanks t args} : Spells s arg → Blanks blanks → SpellsArgs t args →
      SpellsArgs (s ++ blanks ++ ',' :: t) (arg :: args)
end

/-- The text `source` spells the program `e`: an expression, and blanks after it. -/
def SpellsProgram (source : List Char) (e : Expr) : Prop :=
  ∃ s blanks, source = s ++ blanks ∧ Spells s e ∧ Blanks blanks

/-- One more argument after those that are spelled already. -/
theorem SpellsArgs.snoc {t : List Char} {args : List Expr} {blanks s : List Char} {arg : Expr} :
    SpellsArgs t args → Blanks blanks → Spells s arg →
      SpellsArgs (t ++ blanks ++ ',' :: s) (args ++ [arg])
  | .one h, hb, hs => .more h hb (.one hs)
  | .more h hb' ht, hb, hs => by simpa using SpellsArgs.more h hb' (ht.snoc hb hs)

end Grammar

end Egg
