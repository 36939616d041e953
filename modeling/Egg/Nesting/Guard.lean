-- SUMMARY: The guard that counts nested levels of a recursive walk and refuses to go past a limit.

/-! # The nesting guard

A walk over nested data goes one level deeper at each step. The guard counts the
levels that are active and refuses to enter one more when the limit is reached.
`descend` runs a body one level deeper. When the body ends, whether with a result
or with an error, the guard stands again where it stood before. -/

namespace Egg

/-- The number of active levels, and how many there may be. -/
structure Guard where
  depth : Nat
  limit : Nat
deriving DecidableEq, Repr

/-- The refusal of one more level. It tells the limit that was reached. -/
structure LimitExceeded where
  limit : Nat
deriving DecidableEq, Repr

namespace LimitExceeded

/-- The text of the refusal. -/
def message (e : LimitExceeded) : String :=
  s!"maximum nesting depth of {e.limit} exceeded"

end LimitExceeded

namespace Guard

/-- A guard with no active level. -/
def idle (limit : Nat) : Guard := ⟨0, limit⟩

/-- The guard one level deeper, unless that passes the limit. -/
def enter (g : Guard) : Except LimitExceeded Guard :=
  if g.depth < g.limit then .ok { g with depth := g.depth + 1 } else .error ⟨g.limit⟩

/-- The guard with its count set back to `depth`. -/
def backTo (g : Guard) (depth : Nat) : Guard :=
  { g with depth := depth }

end Guard

/-- A state that carries a guard. -/
class Guarded (σ : Type) where
  /-- The guard of a state. -/
  guard : σ → Guard
  /-- The state with another guard. -/
  setGuard : σ → Guard → σ
  guard_setGuard : ∀ s g, guard (setGuard s g) = g

instance : Guarded Guard where
  guard g := g
  setGuard _ g := g
  guard_setGuard _ _ := rfl

open Guarded in
/-- Run `body` one level deeper, and set the count back afterwards. At the limit
    the body does not run, the state stays as it is, and `refused` gives the
    error. -/
def descend {ε σ α : Type} [Guarded σ] (refused : LimitExceeded → ε) (body : EStateM ε σ α) :
    EStateM ε σ α := fun s =>
  let depth := (guard s).depth
  match (guard s).enter with
  | .error e => .error (refused e) s
  | .ok deeper =>
    match body (setGuard s deeper) with
    | .ok a s' => .ok a (setGuard s' ((guard s').backTo depth))
    | .error e s' => .error e (setGuard s' ((guard s').backTo depth))

end Egg
