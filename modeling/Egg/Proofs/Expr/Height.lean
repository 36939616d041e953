-- SUMMARY: The nesting limit bounds the height of an expression only up to its chains of calls.
import Egg.Proofs.Expr.RoundTrip

/-!
# Height

The nesting limit counts arguments: an argument lies one level below its application, and
the operator lies on the level of the application itself. The height of a tree counts the
operator too. So the limit says nothing of the height of a chain of calls `f()()()`, and it
bounds every other way in which a tree gets high.
-/

namespace Egg.Expr

mutual
/-- How high the tree of an expression is, through operators and arguments alike. -/
def height : Expr → Nat
  | .literal _ => 1
  | .word _ => 1
  | .apply operator args => 1 + max operator.height (heightArgs args)

/-- How high the highest of some arguments is. -/
def heightArgs : List Expr → Nat
  | [] => 0
  | arg :: args => max arg.height (heightArgs args)
end

/-- How many calls are chained at the top of the expression, each one the operator of the
    next one. -/
def calls : Expr → Nat
  | .literal _ => 0
  | .word _ => 0
  | .apply operator _ => operator.calls + 1

mutual
/-- The length of the longest chain of calls, anywhere in the expression. -/
def longestChain : Expr → Nat
  | .literal _ => 0
  | .word _ => 0
  | .apply operator args =>
    max (operator.calls + 1) (max operator.longestChain (longestChainArgs args))

/-- The length of the longest chain of calls in some arguments. -/
def longestChainArgs : List Expr → Nat
  | [] => 0
  | arg :: args => max arg.longestChain (longestChainArgs args)
end

theorem calls_le_longestChain (e : Expr) : e.calls ≤ e.longestChain := by
  cases e with
  | literal | word => exact Nat.zero_le _
  | apply operator args =>
    rw [calls, longestChain]
    exact Nat.le_max_left ..

/-! ## The height of a tree within the limit -/

/-- A level holds one chain of calls, so a chain at the top and the levels below it make no
    more than the levels together. -/
theorem add_mul_chain_le {calls depth chain : Nat} (hcalls : calls ≤ chain) (hdepth : 1 ≤ depth) :
    calls + 1 + (depth - 1) * chain ≤ depth * chain + 1 := by
  obtain ⟨depth, rfl⟩ := Nat.exists_eq_add_of_le' hdepth
  rw [Nat.add_sub_cancel, Nat.succ_mul]
  omega

mutual
/-- A tree is as high as the chain of calls at its top, and no more than one chain higher for
    each level below. -/
theorem height_le_calls_add {chain : Nat} : (e : Expr) → e.longestChain ≤ chain →
    e.height ≤ e.calls + 1 + (e.depth - 1) * chain
  | .literal _, _ | .word _, _ => Nat.le_add_right ..
  | .apply operator args, h => by
      rw [longestChain, Nat.max_le, Nat.max_le] at h
      obtain ⟨-, hop, hargs⟩ := h
      have hop := height_le_calls_add operator hop
      have hargs := heightArgs_le args hargs
      have hlevels {n : Nat} (hn : n ≤ max operator.depth (depthArgs args)) :
          (n - 1) * chain ≤ (max operator.depth (depthArgs args) - 1) * chain :=
        Nat.mul_le_mul_right chain (Nat.sub_le_sub_right hn 1)
      have hop' := hlevels (Nat.le_max_left ..)
      have hargs' := hlevels (Nat.le_max_right ..)
      rw [height, calls, depth]
      omega

/-- Arguments lie one level below their application, and the chains at their tops are the
    first ones there. -/
theorem heightArgs_le {chain : Nat} : (args : List Expr) → longestChainArgs args ≤ chain →
    heightArgs args ≤ (depthArgs args - 1) * chain + 1
  | [], _ => Nat.zero_le _
  | arg :: args, h => by
      rw [longestChainArgs, Nat.max_le] at h
      obtain ⟨harg, hargs⟩ := h
      have hcalls := Nat.le_trans arg.calls_le_longestChain harg
      have harg : arg.height ≤ arg.depth * chain + 1 :=
        Nat.le_trans (height_le_calls_add arg harg) (add_mul_chain_le hcalls arg.one_le_depth)
      have hargs := heightArgs_le args hargs
      have hlevels {n : Nat} (hn : n ≤ max (arg.depth + 1) (depthArgs args) - 1) :
          n * chain ≤ (max (arg.depth + 1) (depthArgs args) - 1) * chain :=
        Nat.mul_le_mul_right chain hn
      have harg' := hlevels (n := arg.depth) (by omega)
      have hargs' := hlevels (n := depthArgs args - 1) (by omega)
      rw [heightArgs, depthArgs]
      omega
end

theorem height_le (e : Expr) : e.height ≤ e.depth * e.longestChain + 1 :=
  Nat.le_trans (e.height_le_calls_add (Nat.le_refl _))
    (add_mul_chain_le e.calls_le_longestChain e.one_le_depth)

/-! ## Chains of calls -/

/-- The word `f`, called `n` times without arguments. -/
def chainOfCalls : Nat → Expr
  | 0 => .word "f"
  | n + 1 => .apply (chainOfCalls n) []

theorem isWritable_chainOfCalls (n : Nat) : (chainOfCalls n).IsWritable := by
  induction n with
  | zero =>
    refine ⟨List.cons_ne_nil _ _, fun c hc => ?_, .inl rfl⟩
    obtain rfl := List.mem_singleton.mp hc
    exact Grammar.isWordChar_of_isAlphanum rfl
  | succ n ih =>
    rw [chainOfCalls, IsWritable]
    exact ⟨ih, trivial⟩

theorem depth_chainOfCalls (n : Nat) : (chainOfCalls n).depth = 1 := by
  induction n with
  | zero => rfl
  | succ n ih => rw [chainOfCalls, depth, ih, depthArgs]; rfl

theorem height_chainOfCalls (n : Nat) : (chainOfCalls n).height = n + 1 := by
  induction n with
  | zero => rfl
  | succ n ih => rw [chainOfCalls, height, ih, heightArgs]; omega

theorem parseWithin_print_chainOfCalls {limit : Nat} (hlimit : 1 ≤ limit) (n : Nat) :
    parseWithin limit (chainOfCalls n).print = .ok (chainOfCalls n) :=
  parseWithin_eq_ok_iff.mpr
    ⟨spellsProgram_print (isWritable_chainOfCalls n), depth_chainOfCalls n ▸ hlimit⟩

theorem print_chainOfCalls_two : (chainOfCalls 2).print = "f()()" := by
  decide

/-- A parsed expression lies within the limit, where operators do not count. So its height is
    at most the limit times its longest chain of calls, and one more. The chains themselves
    have no limit: under each one that anything is parsed under, trees of every height are
    parsed. -/
theorem height_le_of_parseWithin {limit : Nat} {source : String} {e : Expr}
    (h : parseWithin limit source = .ok e) :
    e.depth ≤ limit ∧ e.height ≤ limit * e.longestChain + 1 ∧
      ∀ n, ∃ source' e', parseWithin limit source' = .ok e' ∧ e'.height = n + 1 := by
  have hdepth : e.depth ≤ limit := (parseWithin_eq_ok_iff.mp h).2
  refine ⟨hdepth, ?_, fun n => ?_⟩
  · calc e.height
      _ ≤ e.depth * e.longestChain + 1 := e.height_le
      _ ≤ limit * e.longestChain + 1 := Nat.succ_le_succ (Nat.mul_le_mul_right _ hdepth)
  · have hlimit : 1 ≤ limit := Nat.le_trans e.one_le_depth hdepth
    exact ⟨_, _, parseWithin_print_chainOfCalls hlimit n, height_chainOfCalls n⟩

/-- Under a limit of one level, `f()()` is parsed, and its tree is three levels high. -/
theorem not_height_le_two_calls : ¬ ∀ e, parseWithin 1 "f()()" = .ok e → e.height ≤ 1 := by
  intro hle
  have hparse := parseWithin_print_chainOfCalls (Nat.le_refl 1) 2
  rw [print_chainOfCalls_two] at hparse
  exact absurd (hle _ hparse) (by decide)

/-- The two calls make a chain, which allows for the height. -/
theorem height_two_calls :
    parseWithin 1 "f()()" = .ok (chainOfCalls 2) ∧ (chainOfCalls 2).height ≤ 1 * 2 + 1 := by
  have hparse := parseWithin_print_chainOfCalls (Nat.le_refl 1) 2
  rw [print_chainOfCalls_two] at hparse
  obtain ⟨-, hheight, -⟩ := height_le_of_parseWithin hparse
  exact ⟨hparse, hheight⟩

end Egg.Expr
